import Mathlib.Data.List.Induction
import Mathlib.Data.List.Nodup
import Renaming.Proofs.Walk.Below

/-!
The names for the copies of the files in a directory. A name that is given is new
(`isNew_freshName`), so directories of different keys have different names (`label_injective`); a
name that has been given stays, whatever directories come after it (`prefix_labelsOf`); and every
name is one under which copies can be kept (`isLabel_of_lookup`).
-/

namespace Renaming.Walk

variable {base name real : String} {taken roots : List String} {key : Key}
  {names names' : List (Key × String)}

/-! ### New names -/

theorem numbered_injective {m n : Nat} (h : base ++ "-" ++ toString m = base ++ "-" ++ toString n) :
    m = n := by
  have hchars := congrArg String.toList h
  simp only [String.toList_append] at hchars
  have hdigits := congrArg (fun ds => Nat.ofDigitChars 10 ds 0) (List.append_cancel_left hchars)
  simpa [Nat.toString_eq_repr, Nat.repr_eq_ofList_toDigits] using hdigits

/-- A name for a directory when some are taken: its own name, or its own name with the least number
from two on that makes a name that is free. -/
inductive IsNew (taken : List String) (base : String) : String → Prop
  | own (free : base ∉ taken) : IsNew taken base base
  | numbered {n : Nat} (hbase : base ∈ taken) (two_le : 2 ≤ n) (le : n ≤ taken.length + 2)
    (free : base ++ "-" ++ toString n ∉ taken)
    (least : ∀ m, 2 ≤ m → m < n → base ++ "-" ++ toString m ∈ taken) :
    IsNew taken base (base ++ "-" ++ toString n)

/-- The search for a number ends: of more numbered names than are taken, one is free. -/
theorem exists_find_numbered (taken : List String) (base : String) :
    ∃ n, (List.range (taken.length + 1)).find?
      (fun n => !taken.contains (base ++ "-" ++ toString (n + 2))) = some n := by
  rw [← Option.isSome_iff_exists, Option.isSome_iff_ne_none, ne_eq, List.find?_eq_none]
  intro hall
  have hnodup : ((List.range (taken.length + 1)).map fun n =>
      base ++ "-" ++ toString (n + 2)).Nodup :=
    List.pairwise_map.2 (List.nodup_range.imp fun hne heq =>
      hne (Nat.add_right_cancel (numbered_injective heq)))
  have hlength := hnodup.length_le_of_subset fun name hname => by
    obtain ⟨n, hn, rfl⟩ := List.mem_map.1 hname
    simpa using hall n hn
  rw [List.length_map, List.length_range] at hlength
  omega

theorem isNew_freshName (taken : List String) (root : String) :
    IsNew taken ((Path.fileName? root).getD "root") (freshName taken root) := by
  unfold freshName
  dsimp only
  generalize (Path.fileName? root).getD "root" = base
  split
  next hfree => exact .own (by simpa using hfree)
  next htaken =>
    obtain ⟨n, hn⟩ := exists_find_numbered taken base
    rw [List.find?_map, Function.comp_def, hn, Option.map_some, Option.getD_some]
    obtain ⟨hfree, hmem, hleast⟩ := List.find?_range_eq_some.1 hn
    have hle := List.mem_range.1 hmem
    refine .numbered (by simpa using htaken) (Nat.le_add_left 2 n) (by omega) (by simpa using hfree)
      fun m hm hlt => ?_
    obtain ⟨k, rfl⟩ := Nat.exists_eq_add_of_le' hm
    simpa using hleast k (by omega)

theorem IsNew.not_mem (h : IsNew taken base name) : name ∉ taken := by
  cases h with
  | own free => exact free
  | numbered _ _ _ free => exact free

/-! ### Names under which copies can be kept -/

/-- A name under which copies can be kept: it is plain, and of the components of the directory that
it is for one has a backslash if it has any. -/
structure IsLabel (key : Key) (name : String) : Prop where
  plain : Path.IsPlain name
  backslash : '\\' ∈ name.toList → ∃ x, Path.Component.name x ∈ key ∧ '\\' ∈ x.toList

theorem IsLabel.numbered (h : IsLabel key name) (n : Nat) :
    IsLabel key (name ++ "-" ++ toString n) := by
  refine ⟨h.plain.numbered n, fun hc => ?_⟩
  rcases Path.mem_numbered hc with hc | hc | hc
  · exact h.backslash hc
  all_goals exact absurd hc (by decide)

theorem IsLabel.of_isNew (h : IsLabel key base) (hnew : IsNew taken base name) :
    IsLabel key name := by
  cases hnew with
  | own => exact h
  | @numbered n => exact h.numbered n

theorem isLabel_freshName (hnul : '\x00' ∉ real.toList) (taken : List String) :
    IsLabel (Path.components real) (freshName taken real) := by
  have hbase : IsLabel (Path.components real) ((Path.fileName? real).getD "root") := by
    cases hname : Path.fileName? real with
    | none => exact ⟨by decide, fun h => absurd h (by decide)⟩
    | some name => exact ⟨Path.isPlain_of_fileName? hnul hname,
        fun h => ⟨name, Path.mem_components_of_fileName? hname, h⟩⟩
  exact hbase.of_isNew (isNew_freshName taken _)

/-! ### The table of names -/

theorem lookup_mono (h : names <+: names') (hlookup : names.lookup key = some name) :
    names'.lookup key = some name := by
  obtain ⟨more, rfl⟩ := h
  rw [List.lookup_append, hlookup]
  rfl

/-- The name of a directory stands in the table from then on, and the names before it stay. -/
theorem nameFor_spec (p : Progress) (real : String) : p.names <+: (p.nameFor real).2 ∧
    (p.nameFor real).2.lookup (Path.components real) = some (p.nameFor real).1 := by
  unfold Progress.nameFor
  split
  next name hlookup => exact ⟨List.prefix_rfl, hlookup⟩
  next hnone =>
    refine ⟨List.prefix_append _ _, ?_⟩
    rw [List.lookup_append, hnone]
    simp

/-- No name is given twice. -/
theorem nodup_nameFor {p : Progress} (h : (p.names.map Prod.snd).Nodup) (real : String) :
    ((p.nameFor real).2.map Prod.snd).Nodup := by
  unfold Progress.nameFor
  split
  next => exact h
  next =>
    dsimp only
    rw [List.map_append, List.nodup_append]
    refine ⟨h, by simp, fun a ha b hb => ?_⟩
    rw [List.map_singleton, List.mem_singleton] at hb
    rintro rfl
    exact (isNew_freshName _ _).not_mem (hb ▸ ha)

/-- The names of some directories, given to one after the other. -/
def labelsOf (roots : List String) : List (Key × String) :=
  roots.foldl (fun names real => (Progress.nameFor { names } real).2) []

theorem labelsOf_concat (roots : List String) (real : String) :
    labelsOf (roots ++ [real]) = (Progress.nameFor { names := labelsOf roots } real).2 := by
  rw [labelsOf, List.foldl_append]
  rfl

theorem prefix_labelsOf (roots more : List String) :
    labelsOf roots <+: labelsOf (roots ++ more) := by
  induction more generalizing roots with
  | nil => simp
  | cons real more ih =>
    have hfirst : labelsOf roots <+: labelsOf (roots ++ [real]) :=
      labelsOf_concat roots real ▸ (nameFor_spec { names := labelsOf roots } real).1
    rw [List.append_cons]
    exact hfirst.trans (ih _)

theorem nodup_labelsOf (roots : List String) : ((labelsOf roots).map Prod.snd).Nodup := by
  induction roots using List.reverseRecOn with
  | nil => exact List.nodup_nil
  | append_singleton roots real ih => exact labelsOf_concat roots real ▸ nodup_nameFor ih _

/-- A directory has the name that it is given when it is first walked. -/
theorem lookup_labelsOf (roots : List String) (real : String) (more : List String) :
    (labelsOf (roots ++ real :: more)).lookup (Path.components real) =
      some (Progress.nameFor { names := labelsOf roots } real).1 := by
  have hspec := nameFor_spec { names := labelsOf roots } real
  rw [← labelsOf_concat] at hspec
  rw [List.append_cons]
  exact lookup_mono (prefix_labelsOf _ _) hspec.2

theorem exists_label (h : real ∈ roots) :
    ∃ label, (labelsOf roots).lookup (Path.components real) = some label := by
  obtain ⟨front, back, rfl⟩ := List.append_of_mem h
  exact ⟨_, lookup_labelsOf front real back⟩

/-- The names that directories are given are such under which copies can be kept. -/
theorem isLabel_of_lookup (hnul : ∀ real ∈ roots, '\x00' ∉ real.toList)
    (h : (labelsOf roots).lookup key = some name) : IsLabel key name := by
  induction roots using List.reverseRecOn with
  | nil => cases h
  | append_singleton roots real ih =>
    have hfront := ih fun real hreal => hnul real (List.mem_append_left _ hreal)
    rw [labelsOf_concat, Progress.nameFor] at h
    split at h
    next => exact hfront h
    next =>
      rw [List.lookup_append] at h
      cases hlookup : (labelsOf roots).lookup key with
      | some name' =>
        rw [hlookup] at h
        exact hfront (hlookup.trans h)
      | none =>
        rw [hlookup, Option.none_or, List.lookup_cons] at h
        split at h
        next hsame =>
          obtain rfl := beq_iff_eq.1 hsame
          exact Option.some.inj h ▸ isLabel_freshName (hnul real (by simp)) _
        next => cases h

/-- Directories of different keys have different names. -/
theorem label_injective {key' : Key} (h : (labelsOf roots).lookup key = some name)
    (h' : (labelsOf roots).lookup key' = some name) : key = key' := by
  obtain ⟨l₁, l₂, heq, -⟩ := List.lookup_eq_some_iff.1 h
  obtain ⟨l₁', l₂', heq', -⟩ := List.lookup_eq_some_iff.1 h'
  have hmem : (key, name) ∈ labelsOf roots := by simp [heq]
  have hmem' : (key', name) ∈ labelsOf roots := by simp [heq']
  have hpair := List.inj_on_of_nodup_map (nodup_labelsOf roots) hmem hmem' rfl
  exact (Prod.mk.inj hpair).1

end Renaming.Walk
