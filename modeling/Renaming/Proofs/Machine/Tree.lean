import Renaming.Machine.Basic
import Renaming.Proofs.Path

/-!
Trees that are in order: every place has one entry, its names are plain, and what it stands in is a
directory. `Tree.Sound` collects these facts; `Sound.put` and `Sound.move` say that making, writing
and moving a node keep a tree in order. What stands where after a move is `get?_move`.
-/

namespace Renaming

/-- Whether a node is one that the system can hold: no link has a NUL in its target. -/
def Node.Clean : Node → Prop
  | link target => '\x00' ∉ target.toList
  | _ => True

instance (n : Node) : Decidable n.Clean := by
  cases n <;> unfold Node.Clean <;> infer_instance

namespace Tree

variable {t : Tree} {p q r : Place} {n : Node} {name : String}

/-! ### Looking up -/

theorem get?_eq_lookup (hp : p ≠ []) : t.get? p = t.nodes.lookup p := by
  simp [get?, hp]

theorem mem_of_get? (hp : p ≠ []) (h : t.get? p = some n) : (p, n) ∈ t.nodes := by
  rw [get?_eq_lookup hp] at h
  obtain ⟨l₁, l₂, heq, -⟩ := List.lookup_eq_some_iff.1 h
  simp [heq]

/-- No file stands at the root. -/
theorem ne_nil_of_file {b : ByteArray} (h : t.get? p = some (.file b)) : p ≠ [] := by
  rintro rfl
  cases h

theorem kind_of_file {b : ByteArray} (h : t.get? p = some (.file b)) (hn : t.get? p = some n) :
    n.kind = .file := by
  rw [h, Option.some.injEq] at hn
  rw [← hn]
  rfl

theorem lookup_filter_of_true {α β : Type} [BEq α] [LawfulBEq α] {l : List (α × β)}
    {f : α × β → Bool} {a : α} (h : ∀ b, f (a, b) = true) :
    (l.filter f).lookup a = l.lookup a := by
  induction l with
  | nil => rfl
  | cons e l ih =>
    obtain ⟨k, v⟩ := e
    by_cases hk : a = k
    · subst hk
      simp [h]
    · have hk' : (a == k) = false := beq_eq_false_iff_ne.2 hk
      by_cases hf : f (k, v) = true <;> simp [hf, hk', List.lookup_cons, ih]

theorem get?_erase_of_not_le (h : ¬p <+: q) : (t.erase p).get? q = t.get? q := by
  by_cases hq : q = []
  · subst hq
    rfl
  · rw [get?_eq_lookup hq, get?_eq_lookup hq, erase, lookup_filter_of_true]
    intro _
    rw [Bool.not_eq_true', Bool.eq_false_iff]
    exact fun hle => h (List.isPrefixOf_iff_prefix.1 hle)

theorem get?_erase_of_le (hq : q ≠ []) (h : p <+: q) : (t.erase p).get? q = none := by
  rw [get?_eq_lookup hq, List.lookup_eq_none_iff]
  intro e he
  simp only [erase, List.mem_filter, Bool.not_eq_true'] at he
  rw [bne_iff_ne]
  rintro rfl
  rw [Bool.eq_false_iff] at he
  exact he.2 (List.isPrefixOf_iff_prefix.2 h)

/-- What stands where after a move. -/
theorem get?_move (hp : p ≠ []) (hq : q ≠ []) (h : t.get? p = some n) :
    (t.move p q).get? r = if r = q then some n else if p <+: r then none else t.get? r := by
  rw [move, h, get?_put _ _ _ _ hq]
  split
  · rfl
  split
  next hr => rw [get?_erase_of_le (fun he => hp (by simpa [he] using hr)) hr]
  next hr => rw [get?_erase_of_not_le hr]

/-! ### Trees in order -/

/-- A tree that is in order. -/
structure Sound (t : Tree) : Prop where
  nodup : (t.nodes.map Prod.fst).Nodup
  plain : ∀ e ∈ t.nodes, ∀ name ∈ e.1, Path.IsPlain name
  short : ∀ e ∈ t.nodes, ∀ name ∈ e.1.getLast?, name.utf8ByteSize ≤ maxName
  clean : ∀ e ∈ t.nodes, e.2.Clean
  rooted : ∀ e ∈ t.nodes, t.get? e.1.dropLast = some .directory

instance (t : Tree) : Decidable t.Sound :=
  decidable_of_iff ((t.nodes.map Prod.fst).Nodup ∧
      (∀ e ∈ t.nodes, ∀ name ∈ e.1, Path.IsPlain name) ∧
      (∀ e ∈ t.nodes, ∀ name ∈ e.1.getLast?, name.utf8ByteSize ≤ maxName) ∧
      (∀ e ∈ t.nodes, e.2.Clean) ∧ ∀ e ∈ t.nodes, t.get? e.1.dropLast = some .directory)
    ⟨fun ⟨h1, h2, h3, h4, h5⟩ => ⟨h1, h2, h3, h4, h5⟩,
      fun ⟨h1, h2, h3, h4, h5⟩ => ⟨h1, h2, h3, h4, h5⟩⟩

/-- A place where something can stand: it is in a directory, and its name is plain and fits. -/
def Room (t : Tree) (p : Place) : Prop :=
  ∃ q name, p = q ++ [name] ∧ t.get? q = some .directory ∧ Path.IsPlain name ∧
    name.utf8ByteSize ≤ maxName

theorem Room.ne_nil (h : t.Room p) : p ≠ [] := by
  obtain ⟨q, name, rfl, -⟩ := h
  simp

namespace Sound

theorem get?_of_mem (hs : t.Sound) (hp : p ≠ []) (h : (p, n) ∈ t.nodes) : t.get? p = some n := by
  rw [get?_eq_lookup hp]
  have hnodup := hs.nodup
  generalize t.nodes = l at h hnodup
  induction l with
  | nil => cases h
  | cons e l ih =>
    simp only [List.map_cons, List.nodup_cons] at hnodup
    rcases List.mem_cons.1 h with rfl | h
    · simp
    · have hne : p ≠ e.1 := by
        rintro rfl
        exact hnodup.1 (List.mem_map.2 ⟨_, h, rfl⟩)
      rw [List.lookup_cons, beq_eq_false_iff_ne.2 hne]
      exact ih h hnodup.2

/-- What a node stands in is a directory. -/
theorem parent (hs : t.Sound) (h : t.get? (p ++ [name]) = some n) : t.get? p = some .directory := by
  simpa using hs.rooted _ (mem_of_get? (by simp) h)

theorem dropLast (hs : t.Sound) (h : t.get? p = some n) : t.get? p.dropLast = some .directory := by
  by_cases hp : p = []
  · subst hp
    rfl
  · exact hs.rooted _ (mem_of_get? hp h)

theorem above (hs : t.Sound) (hr : r ≠ []) (h : t.get? (p ++ r) = some n) :
    t.get? p = some .directory := by
  induction r generalizing p with
  | nil => exact absurd rfl hr
  | cons name r ih =>
    cases r with
    | nil => exact hs.parent h
    | cons name' r =>
      rw [List.append_cons] at h
      exact hs.parent (ih (by simp) h)

/-- What is above a directory is a directory. -/
theorem directory_above (hs : t.Sound) (h : t.get? q = some .directory) (hle : p <+: q) :
    t.get? p = some .directory := by
  obtain ⟨r, rfl⟩ := hle
  by_cases hr : r = []
  · rwa [hr, List.append_nil] at h
  · exact hs.above hr h

/-- Below what is no directory there is none. -/
theorem not_prefix_of_directory (hs : t.Sound) (h : t.get? p = some n) (hn : n ≠ .directory)
    (hq : t.get? q = some .directory) : ¬p <+: q := by
  intro hle
  have hdir := hs.directory_above hq hle
  rw [h, Option.some.injEq] at hdir
  exact hn hdir

/-- Nothing stands below a place at which nothing stands. -/
theorem none_below (hs : t.Sound) (h : t.get? p = none) (hle : p <+: q) : t.get? q = none := by
  obtain ⟨r, rfl⟩ := hle
  by_cases hr : r = []
  · simpa [hr] using h
  · cases hq : t.get? (p ++ r) with
    | none => rfl
    | some n => exact absurd (hs.above hr hq) (by simp [h])

theorem isPlain (hs : t.Sound) (h : t.get? p = some n) (hname : name ∈ p) : Path.IsPlain name :=
  hs.plain _ (mem_of_get? (List.ne_nil_of_mem hname) h) name hname

theorem size_le (hs : t.Sound) (h : t.get? (p ++ [name]) = some n) :
    name.utf8ByteSize ≤ maxName :=
  hs.short _ (mem_of_get? (by simp) h) name (by simp)

theorem clean_of_get? (hs : t.Sound) (h : t.get? p = some n) : n.Clean := by
  by_cases hp : p = []
  · subst hp
    cases h
    trivial
  · exact hs.clean _ (mem_of_get? hp h)

/-- The entries of a directory are what stands one name below it. -/
theorem mem_children_iff (hs : t.Sound) :
    (name, n) ∈ t.children p ↔ t.get? (p ++ [name]) = some n := by
  simp only [children, List.mem_filterMap]
  constructor
  · rintro ⟨⟨q, m⟩, hmem, h⟩
    dsimp only at h
    split at h
    next x hx =>
      split at h
      next hd =>
        cases h
        have hq : q = p ++ [name] := by
          have hne : q ≠ [] := by rintro rfl; simp at hx
          rw [List.getLast?_eq_some_getLast hne, Option.some.injEq] at hx
          rw [← hd, ← hx, List.dropLast_concat_getLast]
        exact hq ▸ hs.get?_of_mem (by simp [hq]) hmem
      next => cases h
    next => cases h
  · intro h
    exact ⟨(p ++ [name], n), mem_of_get? (by simp) h, by simp⟩

/-- What stands somewhere has room there, unless it is the root. -/
theorem room (hs : t.Sound) (hp : p ≠ []) (h : t.get? p = some n) : t.Room p := by
  rcases List.eq_nil_or_concat p with rfl | ⟨q, name, rfl⟩
  · exact absurd rfl hp
  · rw [List.concat_eq_append] at h ⊢
    exact ⟨q, name, rfl, hs.parent h, hs.isPlain h (by simp), hs.size_le h⟩

/-- A tree stays in order when a node is put where it has room, if no directory has to give way to
it. -/
theorem put (hs : t.Sound) (hroom : t.Room p) (hclean : n.Clean)
    (hdir : t.get? p = some .directory → n = .directory) : (t.put p n).Sound := by
  obtain ⟨p, name, rfl, hp, hplain, hshort⟩ := hroom
  have hne : p ++ [name] ≠ [] := by simp
  have hplains : ∀ x ∈ p, Path.IsPlain x := fun x hx => hs.isPlain hp hx
  refine ⟨?_, ?_, ?_, ?_, ?_⟩
  · simp only [Tree.put, List.map_append, List.map_cons, List.map_nil]
    refine List.nodup_append.2 ⟨?_, by simp, ?_⟩
    · exact hs.nodup.sublist (List.filter_sublist.map _)
    · intro a ha b hb
      simp only [List.mem_map, List.mem_filter, bne_iff_ne] at ha
      obtain ⟨e, ⟨-, hne⟩, rfl⟩ := ha
      rw [List.mem_singleton] at hb
      exact hb ▸ hne
  all_goals
    intro e he
    simp only [Tree.put, List.mem_append, List.mem_filter, List.mem_singleton] at he
  · rcases he with ⟨he, -⟩ | rfl
    · exact hs.plain e he
    · simp only [List.mem_append, List.mem_singleton]
      rintro x (hx | rfl)
      · exact hplains x hx
      · exact hplain
  · rcases he with ⟨he, -⟩ | rfl
    · exact hs.short e he
    · simpa using hshort
  · rcases he with ⟨he, -⟩ | rfl
    · exact hs.clean e he
    · exact hclean
  · rw [get?_put _ _ _ _ hne]
    rcases he with ⟨he, -⟩ | rfl
    · have hold := hs.rooted e he
      split
      next heq => rw [hdir (heq ▸ hold)]
      next => exact hold
    · simpa using hp

theorem erase (hs : t.Sound) (h : t.get? p = some n) (hn : n ≠ .directory) :
    (t.erase p).Sound := by
  have hmem : ∀ e ∈ (t.erase p).nodes, e ∈ t.nodes := fun e he => (List.mem_filter.1 he).1
  refine ⟨hs.nodup.sublist (List.filter_sublist.map _), fun e he => hs.plain e (hmem e he),
    fun e he => hs.short e (hmem e he), fun e he => hs.clean e (hmem e he), fun e he => ?_⟩
  have hold := hs.rooted e (hmem e he)
  rw [get?_erase_of_not_le (hs.not_prefix_of_directory h hn hold), hold]

/-- A tree stays in order when a file or a link is moved to where it has room, if there is no
directory. -/
theorem move (hs : t.Sound) (h : t.get? q = some n) (hn : n ≠ .directory) (hroom : t.Room p)
    (hdir : t.get? p ≠ some .directory) : (t.move q p).Sound := by
  obtain ⟨p, name, rfl, hp, hplain, hshort⟩ := hroom
  have hqp := hs.not_prefix_of_directory h hn hp
  rw [Tree.move, h]
  refine (hs.erase h hn).put ⟨p, name, rfl, by rwa [get?_erase_of_not_le hqp], hplain, hshort⟩
    (hs.clean_of_get? h) fun hd => absurd ?_ hdir
  by_cases hle : q <+: p ++ [name]
  · rw [get?_erase_of_le (by simp) hle] at hd
    cases hd
  · rwa [get?_erase_of_not_le hle] at hd

end Sound

/-! ### Trees with more in them -/

/-- Everything in one tree stands in another. -/
def Within (t t' : Tree) : Prop := ∀ p n, t.get? p = some n → t'.get? p = some n

namespace Within

variable {t' t'' : Tree}

theorem refl (t : Tree) : t.Within t := fun _ _ h => h

theorem trans (h : t.Within t') (h' : t'.Within t'') : t.Within t'' :=
  fun p n hp => h' p n (h p n hp)

theorem put (hp : p ≠ []) (h : t.get? p = none) : t.Within (t.put p n) := by
  intro q m hq
  rw [get?_put _ _ _ _ hp]
  split
  next heq => rw [heq, h] at hq; cases hq
  next => exact hq

end Within

/-- Every directory and every link of one tree stands in another. -/
def Holds (t t' : Tree) : Prop := ∀ p n, t.get? p = some n → n.kind ≠ .file → t'.get? p = some n

namespace Holds

variable {t' t'' : Tree}

theorem refl (t : Tree) : t.Holds t := fun _ _ h _ => h

theorem trans (h : t.Holds t') (h' : t'.Holds t'') : t.Holds t'' :=
  fun p n hp hn => h' p n (h p n hp hn) hn

theorem dir (h : t.Holds t') (hp : t.get? p = some .directory) : t'.get? p = some .directory :=
  h p _ hp (by decide)

theorem of_within (h : t.Within t') : t.Holds t' := fun p n hp _ => h p n hp

theorem put (hp : p ≠ []) (h : ∀ n', t.get? p = some n' → n'.kind = .file) :
    t.Holds (t.put p n) := by
  intro q m hq hm
  rw [get?_put _ _ _ _ hp]
  split
  next heq => exact absurd (h m (heq ▸ hq)) hm
  next => exact hq

/-- Moving a file takes no directory and no link away, if none has to give way to it. -/
theorem move {b : ByteArray} (hs : t.Sound) (h : t.get? q = some (.file b)) (hp : p ≠ [])
    (hfile : ∀ n, t.get? p = some n → n.kind = .file) : t.Holds (t.move q p) := by
  intro r n hr hn
  rw [get?_move (ne_nil_of_file h) hp h, if_neg, if_neg]
  · exact hr
  · rintro ⟨rest, rfl⟩
    by_cases hrest : rest = []
    · rw [hrest, List.append_nil] at hr
      exact hn (kind_of_file h hr)
    · have habove := hs.above hrest hr
      rw [h] at habove
      cases habove
  · rintro rfl
    exact hn (hfile n hr)

end Holds

end Tree

end Renaming
