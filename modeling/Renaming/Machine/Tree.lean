import Renaming.Files.Basic

/-!
A tree of directories, files and links, as a list of what stands where. A place is given by the
names on the way from the root; the root itself is always a directory.
-/

namespace Renaming

/-- The names on the way from the root. -/
abbrev Place := List String

/-- What stands at a place. -/
inductive Node
  | directory
  | file (bytes : ByteArray)
  | link (target : String)

instance : DecidableEq Node
  | .directory, .directory => isTrue rfl
  | .file a, .file b => decidable_of_decidable_of_iff (p := a.data = b.data)
      ⟨fun h => congrArg Node.file (ByteArray.ext h), fun h => by rw [Node.file.inj h]⟩
  | .link a, .link b => decidable_of_decidable_of_iff (p := a = b)
      ⟨congrArg Node.link, Node.link.inj⟩
  | .directory, .file _ | .directory, .link _ | .file _, .directory
  | .file _, .link _ | .link _, .directory | .link _, .file _ => isFalse (by simp)

/-- What kind of thing a node is. -/
def Node.kind : Node → Kind
  | directory => .directory
  | file _ => .file
  | link _ => .other

/-- A tree. -/
structure Tree where
  nodes : List (Place × Node) := []

namespace Tree

/-- What stands at a place. -/
def get? (t : Tree) (p : Place) : Option Node :=
  if p.isEmpty then some .directory else t.nodes.lookup p

/-- The tree with a node at a place, in place of what stood there. -/
def put (t : Tree) (p : Place) (n : Node) : Tree :=
  ⟨t.nodes.filter (·.1 != p) ++ [(p, n)]⟩

/-- The tree without a place and all below it. -/
def erase (t : Tree) (p : Place) : Tree := ⟨t.nodes.filter fun (q, _) => !p.isPrefixOf q⟩

/-- The tree with a node moved from one place to another. -/
def move (t : Tree) (source target : Place) : Tree :=
  match t.get? source with
  | some n => (t.erase source).put target n
  | none => t

/-- The names in a directory, each with its node. -/
def children (t : Tree) (p : Place) : List (String × Node) :=
  t.nodes.filterMap fun (q, n) =>
    match q.getLast? with
    | some name => if q.dropLast = p then some (name, n) else none
    | none => none

theorem get?_nil (t : Tree) : t.get? [] = some .directory := rfl

theorem get?_put (t : Tree) (p q : Place) (n : Node) (hp : p ≠ []) :
    (t.put p n).get? q = if q = p then some n else t.get? q := by
  have hlook : ∀ l : List (Place × Node),
      (l.filter (·.1 != p) ++ [(p, n)]).lookup q = if q = p then some n else l.lookup q := by
    intro l
    induction l with
    | nil =>
      by_cases h : q = p
      · simp [h]
      · have : (q == p) = false := beq_eq_false_iff_ne.2 h
        simp [List.lookup_cons, h, this]
    | cons e l ih =>
      obtain ⟨r, x⟩ := e
      by_cases hr : r = p
      · subst hr
        simp only [bne_self_eq_false, Bool.false_eq_true, not_false_eq_true,
          List.filter_cons_of_neg]
        rw [ih]
        by_cases h : q = r
        · simp [h]
        · have : (q == r) = false := beq_eq_false_iff_ne.2 h
          simp [h, List.lookup_cons, this]
      · have : (r != p) = true := by simp [hr]
        simp only [List.filter_cons, this, if_true, List.cons_append]
        by_cases h : q = r
        · subst h; simp [hr]
        · simp only [List.lookup_cons, beq_eq_false_iff_ne.2 h]
          exact ih
  by_cases hq : q = []
  · subst hq
    simp [get?, Ne.symm hp]
  · have : q.isEmpty = false := by simpa using hq
    simp only [get?, this, put, hlook, Bool.false_eq_true, if_false]

end Tree

end Renaming
