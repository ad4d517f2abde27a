import Renaming.Proofs.Machine.Requests
import Renaming.Walk.Collect

/-!
What tells files apart. The key of a path are the components of the path without links to what it
leads to, or its own where there is no such path (`keyOf`). Two paths of one key that lead anywhere
lead to one place (`place_eq_of_keyOf`); two paths to one place can have different keys, but only if
one of them has no path without links. Where a path leads on which a directory cannot be searched is
told by the same system with all its directories open (`Machine.opened`).
-/

namespace Renaming

namespace Machine

variable {s : Machine} {look : Look} {path path' real : String} {p q : Place} {n n' : Node}

/-! ### Systems without shut directories -/

/-- The system, with names looked up in all its directories. -/
def opened (s : Machine) : Machine := { s with shut := [] }

theorem Ordered.opened (hs : s.Ordered) : s.opened.Ordered := ⟨hs.tree, hs.here, fun _ => nofun⟩

theorem Ordered.admits_opened {xs : List String} (hs : s.Ordered)
    (hn : s.tree.get? (p ++ xs) = some n) : s.opened.look.Admits p xs :=
  hs.opened.admits hn fun _ _ _ => List.not_mem_nil

theorem look_opened {here : Place} {name : String} (h : name.utf8ByteSize ≤ maxName) :
    s.opened.look here name = none := by
  simp only [Scene.look, opened, List.not_mem_nil, if_false]
  exact if_neg (Nat.not_lt.2 h)

theorem findBy_opened (hlook : ∀ here name, look here name = none → name.utf8ByteSize ≤ maxName)
    (h : s.findBy look path = .ok (p, n)) : s.opened.find path = .ok (p, n) := by
  have hopen : ∀ here name, look here name = none → s.opened.look here name = none :=
    fun here name h => look_opened (hlook here name h)
  exact findBy_relook (fun here => ⟨hopen here ".", hopen here ".."⟩)
    (fun here name _ _ => hopen here name) h

theorem find_opened (h : s.find path = .ok (p, n)) : s.opened.find path = .ok (p, n) :=
  findBy_opened (fun _ _ => size_le_of_look) h

theorem Leads.opened (h : s.Leads path p) : s.opened.Leads path p :=
  find_directory_iff.1 (find_opened (find_directory_iff.2 h))

theorem size_le_of_lookFromRoot {here : Place} {name : String}
    (h : s.lookFromRoot here name = none) : name.utf8ByteSize ≤ maxName := by
  simp only [Scene.lookFromRoot] at h
  split at h
  next hdots => rcases hdots with rfl | rfl <;> decide
  split at h
  · cases h
  split at h
  · cases h
  · omega

/-- A path without links is that of the place to which a path leads. -/
theorem exists_find_of_realPath? (h : s.realPath? path = some real) :
    ∃ p n, s.opened.find path = .ok (p, n) ∧ real = pathOf p := by
  unfold realPath? at h
  split at h
  next p n hfind =>
    cases h
    exact ⟨p, n, findBy_opened (fun _ _ => size_le_of_lookFromRoot) hfind, rfl⟩
  next => cases h

/-- What has a path without links is found when names are looked up from the root. -/
theorem findBy_of_realPath? (h : s.opened.find path = .ok (p, n))
    (hreal : s.realPath? path ≠ none) : s.findBy s.lookFromRoot path = .ok (p, n) := by
  unfold realPath? at hreal
  split at hreal
  next q n' hfind =>
    cases h.symm.trans (findBy_opened (fun _ _ => size_le_of_lookFromRoot) hfind)
    exact hfind
  next => exact absurd rfl hreal

theorem realPath?_eq (h : s.opened.find path = .ok (p, n)) (hreal : s.realPath? path ≠ none) :
    s.realPath? path = some (pathOf p) :=
  realPath?_of_findBy (findBy_of_realPath? h hreal)

/-- Paths of the same components lead to the same place, if both lead to something. -/
theorem place_eq_of_components (heq : Path.components path = Path.components path')
    (h : s.find path = .ok (p, n)) (h' : s.find path' = .ok (q, n')) : p = q := by
  obtain ⟨-, -, h⟩ := reach_eq_ok (find_eq_ok_iff.1 h)
  obtain ⟨-, -, h'⟩ := reach_eq_ok (find_eq_ok_iff.1 h')
  have hstart : startOf s.here path = startOf s.here path' := by
    have habsolute : Path.isAbsolute path = true ↔ Path.isAbsolute path' = true := by
      rw [← Path.root_mem_components_iff, heq, Path.root_mem_components_iff]
    simp only [startOf_eq, habsolute]
  rw [← hstart] at h'
  refine Tree.follow_unique ?_ h h'
  rw [← Path.filterMap_components, heq, Path.filterMap_components]

end Machine

/-! ### Keys -/

namespace Walk

open Machine

variable {s : Machine} {path path' : String} {p q : Place} {n n' : Node}

/-- The path without links to what a path leads to, or the path itself if there is no such path. -/
@[irreducible]
def realOf (s : Machine) (path : String) : String := (s.realPath? path).getD path

/-- What tells apart what paths lead to. -/
def keyOf (s : Machine) (path : String) : Key := Path.components (realOf s path)

/-- Where a path leads, once all directories are open. -/
def placeOf (s : Machine) (path : String) : Place :=
  match s.opened.find path with
  | .ok (p, _) => p
  | .error _ => []

theorem placeOf_of_find (h : s.opened.find path = .ok (p, n)) : placeOf s path = p := by
  rw [placeOf, h]

theorem does_realPath : s.does (realPath path : StateM Machine _) = (realOf s path, s) := by
  rw [realOf]
  rfl

theorem realOf_eq (h : s.opened.find path = .ok (p, n)) (hreal : s.realPath? path ≠ none) :
    realOf s path = pathOf p := by
  rw [realOf, realPath?_eq h hreal, Option.getD_some]

/-- The path without links leads where the path leads. -/
theorem find_realOf (hs : s.Ordered) (h : s.opened.find path = .ok (p, n)) :
    s.opened.find (realOf s path) = .ok (p, n) := by
  unfold realOf
  cases hreal : s.realPath? path with
  | none => exact h
  | some real =>
    obtain ⟨q, n', hfind, rfl⟩ := exists_find_of_realPath? hreal
    cases h.symm.trans hfind
    have hn := get?_of_find hs.opened h
    exact find_pathOf hs.opened (hs.admits_opened hn) hn (kind_of_findBy h)

/-- Paths of one key lead to one place. -/
theorem place_eq_of_keyOf (hs : s.Ordered) (heq : keyOf s path = keyOf s path')
    (h : s.opened.find path = .ok (p, n)) (h' : s.opened.find path' = .ok (q, n')) : p = q :=
  place_eq_of_components heq (find_realOf hs h) (find_realOf hs h')

/-- Paths to one place have one key, if each of them has a path without links. -/
theorem keyOf_eq_of_place (h : s.opened.find path = .ok (p, n))
    (h' : s.opened.find path' = .ok (p, n')) (hreal : s.realPath? path ≠ none)
    (hreal' : s.realPath? path' ≠ none) : keyOf s path = keyOf s path' := by
  rw [keyOf, keyOf, realOf_eq h hreal, realOf_eq h' hreal']

end Walk

end Renaming
