import Renaming.Proofs.Files.Operations

/-!
Directories that are new. A path whose part behind the last directory that is there already has no
`..` can be made without a detour (`Machine.Direct`): what such a path leads to once it is made was
not there before (`vacant_of_paved`). With a `..` behind a name that is missing, making that name
may be all that is needed for the path to lead to a directory that has been there all the time.
-/

namespace Renaming.Machine

open Renaming.Path (names)

variable {s x y : Machine} {us xs ys : List String} {start p d e : Place} {L L' : Nat} {m m' : Bool}

/-- The first names of a path lead to a directory, and among the others is no `..`. -/
def Direct (s : Machine) (path : String) : Prop :=
  ∃ xs ys d, names path = xs ++ ys ∧
    s.tree.follow s.look true maxLinks true (startOf s.here path) xs = .ok (.node d .directory) ∧
      ".." ∉ ys

/-- A path without `..` is direct. -/
theorem direct_of_not_mem {path : String} (h : ".." ∉ names path) : s.Direct path :=
  ⟨[], names path, _, (List.nil_append _).symm, Tree.follow_nil, h⟩

/-- A path to a directory is direct. -/
theorem direct_of_find {path : String} (h : s.find path = .ok (d, .directory)) : s.Direct path := by
  obtain ⟨hnul, hne, L, m, hgo⟩ := find_directory_iff.1 h
  obtain ⟨m', hgo⟩ := hgo.anyFlag true
  exact ⟨names path, [], d, by simp, hgo.follow.trans Tree.follow_nil, by simp⟩

theorem Direct.exists_goes {path : String} (h : s.Direct path) : ∃ xs ys L m d,
    names path = xs ++ ys ∧ ".." ∉ ys ∧
      s.tree.Goes s.look ⟨maxLinks, false, startOf s.here path, xs⟩ ⟨L, m, d, []⟩ := by
  obtain ⟨xs, ys, d, heq, hfollow, hup⟩ := h
  obtain ⟨c, hgo, hend⟩ := Tree.exists_goes_of_follow hfollow
  cases hend with
  | here =>
    obtain ⟨m, hgo⟩ := hgo.anyFlag false
    exact ⟨xs, ys, _, m, d, heq, hup, hgo⟩

/-- A path stays direct as long as directories and links stay. -/
theorem Direct.mono {path : String} (hscene : x.toScene = s.toScene) (ht : s.tree.Holds x.tree)
    (h : s.Direct path) : x.Direct path := by
  obtain ⟨xs, ys, L, m, d, heq, hup, hgo⟩ := h.exists_goes
  obtain ⟨m', hgo⟩ := (hgo.mono ht).anyFlag true
  exact ⟨xs, ys, d, heq, by rw [hscene]; exact hgo.follow.trans Tree.follow_nil, hup⟩

/-- Where directories were made, the first of them was made at a place that was vacant before. -/
theorem Paved.first (hs : x.Ordered) (hstart : x.tree.get? start = some .directory)
    (h : Paved us start x y) : y.tree = x.tree ∨
      ∃ vs p, vs <+: us ∧ x.tree.follow x.look false maxLinks false start vs = .ok (.vacant p) ∧
        y.tree.get? p = some .directory := by
  induction h with
  | refl => exact .inl rfl
  | later _ ih => exact ih
  | @makeDir y vs p hy hvs hseg hv ih =>
    obtain ⟨hsound, hwithin, -⟩ := hy.result hs hstart
    obtain ⟨hroom, hnone⟩ := Tree.vacant_of_follow hsound.tree (fun _ _ => size_le_of_look)
      (hwithin _ _ hstart) hseg hv
    right
    rcases ih with heq | ⟨ws, q, hws, hw, hq⟩
    · rw [heq, hy.scene] at hv
      refine ⟨vs, p, hvs, hv, ?_⟩
      rw [tree_perform, Change.apply, Tree.get?_put _ _ _ _ hroom.ne_nil, if_pos rfl]
    · exact ⟨ws, q, hws, hw, Tree.Within.put hroom.ne_nil hnone q _ hq⟩

/-- **What a direct path leads to once directories were made on its way was not there before**, and
neither was anything in it, if a name in it did not lead to a directory then and does so now. -/
theorem vacant_of_paved {name : String} (hs : x.Ordered)
    (hstart : x.tree.get? start = some .directory) (h : Paved us start x y) (hus : us = xs ++ ys)
    (hdirect : x.tree.Goes x.look ⟨maxLinks, false, start, xs⟩ ⟨L, m, e, []⟩) (hup : ".." ∉ ys)
    (hname : Path.IsPlain name)
    (hbefore : ∀ d L m, ¬x.tree.Goes x.look ⟨maxLinks, false, start, us ++ [name]⟩ ⟨L, m, d, []⟩)
    (hafter : y.tree.Goes y.look ⟨maxLinks, false, start, us ++ [name]⟩ ⟨L', m', d, []⟩) :
    ∃ r L m, y.tree.Goes y.look ⟨maxLinks, false, start, us⟩ ⟨L, m, r, []⟩ ∧ x.tree.get? r = none ∧
      d = r ++ [name] := by
  obtain ⟨-, hwithin, hnew⟩ := h.result hs hstart
  rw [h.scene] at hafter ⊢
  rcases h.first hs hstart with heq | ⟨vs, p, hvs, hv, hp⟩
  · exact absurd (heq ▸ hafter) (hbefore d L' m')
  obtain ⟨rest, hrest⟩ := hvs
  obtain ⟨c, hgo, hend⟩ := Tree.exists_goes_of_follow hv
  cases hend with
  | @vacant L₁ m₁ q z hdot hupz hlook hnone =>
  -- the vacant place lies behind the part that leads to a directory, so what follows has no `..`
  have hlong : xs <+: vs := by
    have hxs : xs <+: us := hus ▸ List.prefix_append xs ys
    rcases List.prefix_or_prefix_of_prefix hxs ⟨rest, hrest⟩ with h | ⟨zs, rfl⟩
    · exact h
    · obtain ⟨_, _, _, hgo⟩ := hdirect.split rfl (Nat.zero_le _) false
      obtain ⟨_, _, hnode⟩ := hgo.exists_node rfl false
      rw [hv] at hnode
      cases hnode
  have hbehind : ∀ z ∈ rest, z ≠ ".." := by
    obtain ⟨ws, rfl⟩ := hlong
    rw [hus, List.append_assoc, List.append_cancel_left_eq] at hrest
    rintro z hz rfl
    exact hup (hrest ▸ List.mem_append_right _ hz)
  -- below it there was nothing, and what has been made there are directories
  have hlink : ∀ r target, q ++ [z] <+: r → y.tree.get? r ≠ some (.link target) := by
    intro r target hr hlink
    cases (hnew r _ (hs.tree.none_below hnone hr) hlink).1
  have hmade := (hgo.mono (.of_within hwithin)).trans (.down hdot hupz hlook hp (.refl _))
  have hthere : ∃ m, y.tree.Goes x.look ⟨maxLinks, false, start, us⟩ ⟨L₁, m, q ++ [z], rest⟩ := by
    by_cases hnil : rest = []
    · subst hnil
      rw [List.append_nil] at hrest
      exact ⟨_, hrest ▸ hmade⟩
    · exact ⟨false, hrest ▸ hmade.append hnil false⟩
  obtain ⟨L₂, m₂, r, hroot⟩ := hafter.split (show _ = us ++ [name] from rfl) (Nat.zero_le _) false
  have hbelow : q ++ [z] <+: r := by
    obtain ⟨_, hthere⟩ := hthere
    rcases hthere.linear hroot with hgo | hgo
    · obtain ⟨-, ws, -, hd, -⟩ := hgo.plain hlink List.prefix_rfl hbehind
      exact ⟨ws, hd.symm⟩
    · have := hgo.eq_of_names_nil
      cases this
      exact List.prefix_rfl
  refine ⟨r, L₂, m₂, hroot, hs.tree.none_below hnone hbelow, ?_⟩
  rcases (hroot.append (List.cons_ne_nil name []) false).linear hafter with hgo | hgo
  · rcases hgo.cons_cases with h | ⟨hdot, -⟩ | ⟨hup, -⟩ | ⟨-, -, -, hgo⟩ | ⟨-, -, _, _, -, hl, -⟩
    · cases h
    · exact absurd hdot hname.ne_dot
    · exact absurd hup hname.ne_up
    · have := hgo.eq_of_names_nil
      cases this
      rfl
    · exact absurd hl (hlink _ _ (hbelow.trans (List.prefix_append _ _)))
  · have := hgo.eq_of_names_nil
    cases this

end Renaming.Machine
