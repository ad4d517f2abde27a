import Mathlib.Data.List.Flatten
import Mathlib.Data.List.Forall2
import Mathlib.Data.List.Nodup
import Mathlib.Data.Multiset.Defs
import Renaming.Rule.Conflict

/-!
The grounds of conflicts. A conflict rests on a ground, which tells its rules by their positions in
the list; `Rests` says what the rules at these positions have to do with each other.

* `mem_grounded_iff`: the conflicts of a list are listed with exactly the grounds on which they rest.
* `nodup_grounded`: no ground is listed twice.
* `accounts_perm`: kinds and labels do not depend on the order of the rules.
* `conflicts_sublist`: with more rules and more protected names all conflicts stay.

The main result `conflicts_grounded` puts these together.
-/

namespace Renaming

namespace Conflict

/-- What a conflict rests on: the positions of its rules. -/
inductive Ground
  | duplicateSource (i j : Nat)
  | collidingTarget (i j : Nat)
  | inversePair (i j : Nat)
  | chain (first second : Nat)
  | protectedSource (i : Nat)
  | protectedTarget (i : Nat)
  deriving DecidableEq, Repr

/-- Two rules of a list, the first in front of the second, with scopes that overlap. -/
structure Meet (rules : List Rule) (i j : Nat) (a b : Rule) : Prop where
  lt : i < j
  left : rules[i]? = some a
  right : rules[j]? = some b
  overlaps : a.scope.overlaps b.scope = true

/-- The conflicts that there are between rules, and with protected names, each with its ground. -/
inductive Rests (guarded : String → Bool) (rules : List Rule) : Ground → Conflict → Prop
  | duplicateSource {i j : Nat} {a b : Rule} : Meet rules i j a b → a.old = b.old →
      a.scope = b.scope → Rests guarded rules (.duplicateSource i j) (.duplicateSource a b)
  | collidingTarget {i j : Nat} {a b : Rule} : Meet rules i j a b → a.old ≠ b.old →
      a.new = b.new → Rests guarded rules (.collidingTarget i j) (.collidingTarget a b)
  | inversePair {i j : Nat} {a b : Rule} : Meet rules i j a b → a.old = b.new → a.new = b.old →
      Rests guarded rules (.inversePair i j) (.inversePair a b)
  | chain {i j : Nat} {a b : Rule} : Meet rules i j a b → ¬ (a.old = b.new ∧ a.new = b.old) →
      a.new = b.old → Rests guarded rules (.chain i j) (.chain a b)
  | chainBack {i j : Nat} {a b : Rule} : Meet rules i j a b → ¬ (a.old = b.new ∧ a.new = b.old) →
      b.new = a.old → Rests guarded rules (.chain j i) (.chain b a)
  | protectedSource {i : Nat} {a : Rule} : rules[i]? = some a → guarded a.old = true →
      Rests guarded rules (.protectedSource i) (.protectedSource a)
  | protectedTarget {i : Nat} {a : Rule} : rules[i]? = some a → guarded a.new = true →
      Rests guarded rules (.protectedTarget i) (.protectedTarget a)

/-- The kind of a conflict, and the labels of its rules in no order. -/
def account (c : Conflict) : String × Multiset String := (c.kind, ↑(c.rules.map Rule.label))

/-! ### Pairs -/

/-- The pairs of entries of a list, the earlier entry first. -/
def pairs {α : Type} : List α → List (α × α)
  | [] => []
  | a :: rest => rest.map (a, ·) ++ pairs rest

section

variable {α β : Type} {x y : α} {l : List α}

theorem mem_pairs_iff : (x, y) ∈ pairs l ↔ ∃ i j : Nat, i < j ∧ l[i]? = some x ∧ l[j]? = some y := by
  induction l with
  | nil => simp [pairs]
  | cons a rest ih =>
    rw [pairs, List.mem_append, ih]
    constructor
    · rintro (h | ⟨i, j, hij, hi, hj⟩)
      · obtain ⟨b, hb, heq⟩ := List.mem_map.1 h
        obtain ⟨rfl, rfl⟩ := Prod.mk.inj heq
        obtain ⟨j, hj⟩ := List.mem_iff_getElem?.1 hb
        exact ⟨0, j + 1, by omega, rfl, hj⟩
      · exact ⟨i + 1, j + 1, by omega, hi, hj⟩
    · rintro ⟨i, j, hij, hi, hj⟩
      obtain ⟨j, rfl⟩ := Nat.exists_eq_add_of_lt hij
      cases i with
      | zero =>
        obtain rfl := Option.some.inj hi
        rw [Nat.zero_add, List.getElem?_cons_succ] at hj
        exact .inl (List.mem_map.2 ⟨y, List.mem_of_getElem? hj, rfl⟩)
      | succ i =>
        rw [List.getElem?_cons_succ] at hi hj
        exact .inr ⟨i, i + 1 + j, by omega, hi, hj⟩

theorem pairs_map (f : α → β) (l : List α) : pairs (l.map f) = (pairs l).map (Prod.map f f) := by
  induction l with
  | nil => rfl
  | cons a rest ih =>
    rw [List.map_cons, pairs, pairs, ih, List.map_append, List.map_map, List.map_map]
    rfl

theorem nodup_pairs (h : l.Nodup) : (pairs l).Nodup := by
  induction l with
  | nil => exact List.nodup_nil
  | cons a rest ih =>
    obtain ⟨ha, hrest⟩ := List.nodup_cons.1 h
    rw [pairs, List.nodup_append']
    refine ⟨hrest.map fun b c heq => (Prod.mk.inj heq).2, ih hrest, ?_⟩
    -- the pairs of the rest do not mention the first entry
    rintro ⟨x, y⟩ hx hxy
    obtain ⟨b, -, heq⟩ := List.mem_map.1 hx
    obtain ⟨rfl, rfl⟩ := Prod.mk.inj heq
    obtain ⟨i, -, -, hi, -⟩ := mem_pairs_iff.1 hxy
    exact ha (List.mem_of_getElem? hi)

end

/-! ### Conflicts with their grounds -/

/-- The conflicts between two rules at two positions, with their grounds. -/
def groundedBetween (p q : Rule × Nat) : List (Ground × Conflict) :=
  let (a, i) := p
  let (b, j) := q
  if !a.scope.overlaps b.scope then []
  else
    (if a.old = b.old ∧ a.scope = b.scope then
      [(.duplicateSource i j, duplicateSource a b)] else []) ++
    (if a.old ≠ b.old ∧ a.new = b.new then [(.collidingTarget i j, collidingTarget a b)] else []) ++
    (if a.old = b.new ∧ a.new = b.old then [(.inversePair i j, inversePair a b)]
      else
        (if a.new = b.old then [(.chain i j, chain a b)] else []) ++
        (if b.new = a.old then [(.chain j i, chain b a)] else []))

/-- The conflicts of a rule at a position with the protected names, with their grounds. -/
def groundedAlone (guarded : String → Bool) (p : Rule × Nat) : List (Ground × Conflict) :=
  let (a, i) := p
  (if guarded a.old then [(.protectedSource i, protectedSource a)] else []) ++
  (if guarded a.new then [(.protectedTarget i, protectedTarget a)] else [])

/-- All conflicts in a list of rules, with their grounds. -/
def grounded (guarded : String → Bool) (rules : List Rule) : List (Ground × Conflict) :=
  (pairs rules.zipIdx).flatMap (fun (p, q) => groundedBetween p q) ++
    rules.zipIdx.flatMap (groundedAlone guarded)

variable {guarded guarded' : String → Bool} {rules rules' : List Rule} {g : Ground} {c : Conflict}

theorem map_snd_groundedBetween (p q : Rule × Nat) :
    (groundedBetween p q).map Prod.snd = between p.1 q.1 := by
  simp only [groundedBetween, between]
  split
  · rfl
  · simp only [List.map_append, apply_ite (List.map Prod.snd), List.map_cons, List.map_nil]

theorem map_snd_groundedAlone (p : Rule × Nat) :
    (groundedAlone guarded p).map Prod.snd = ofProtected guarded p.1 := by
  simp only [groundedAlone, ofProtected, List.map_append, apply_ite (List.map Prod.snd),
    List.map_cons, List.map_nil]

theorem ofPairs_eq (rules : List Rule) :
    ofPairs rules = (pairs rules).flatMap fun (a, b) => between a b := by
  induction rules with
  | nil => rfl
  | cons a rest ih => rw [ofPairs, pairs, List.flatMap_append, List.flatMap_map, ih]

/-- The conflicts of a list are those that are listed with their grounds. -/
theorem map_snd_grounded (guarded : String → Bool) (rules : List Rule) :
    (grounded guarded rules).map Prod.snd = conflicts guarded rules := by
  have hfst : rules.zipIdx.map Prod.fst = rules := List.zipIdx_map_fst 0 rules
  conv_rhs => rw [← hfst]
  rw [conflicts, ofPairs_eq, pairs_map, grounded, List.map_append, List.map_flatMap,
    List.map_flatMap, List.flatMap_map, List.flatMap_map]
  congr 1
  · exact List.flatMap_congr fun p _ => map_snd_groundedBetween p.1 p.2
  · exact List.flatMap_congr fun p _ => map_snd_groundedAlone p

/-! ### On what the conflicts rest -/

theorem mem_pairs_zipIdx_iff {a b : Rule} {i j : Nat} :
    ((a, i), (b, j)) ∈ pairs rules.zipIdx ↔
      i < j ∧ rules[i]? = some a ∧ rules[j]? = some b := by
  rw [mem_pairs_iff]
  constructor
  · rintro ⟨k, l, hkl, hk, hl⟩
    rw [List.getElem?_zipIdx, Option.map_eq_some_iff] at hk hl
    obtain ⟨a', ha, heq⟩ := hk
    obtain ⟨b', hb, heq'⟩ := hl
    obtain ⟨rfl, rfl⟩ := Prod.mk.inj heq
    obtain ⟨rfl, rfl⟩ := Prod.mk.inj heq'
    exact ⟨by omega, by simpa using ha, by simpa using hb⟩
  · rintro ⟨hij, hi, hj⟩
    exact ⟨i, j, hij, by simp [List.getElem?_zipIdx, hi], by simp [List.getElem?_zipIdx, hj]⟩

theorem mem_groundedBetween_iff {a b : Rule} {i j : Nat} {x : Ground × Conflict} :
    x ∈ groundedBetween (a, i) (b, j) ↔ a.scope.overlaps b.scope = true ∧
      ((a.old = b.old ∧ a.scope = b.scope) ∧ x = (.duplicateSource i j, duplicateSource a b) ∨
        (a.old ≠ b.old ∧ a.new = b.new) ∧ x = (.collidingTarget i j, collidingTarget a b) ∨
        (a.old = b.new ∧ a.new = b.old) ∧ x = (.inversePair i j, inversePair a b) ∨
        ¬ (a.old = b.new ∧ a.new = b.old) ∧ (a.new = b.old ∧ x = (.chain i j, chain a b) ∨
          b.new = a.old ∧ x = (.chain j i, chain b a))) := by
  unfold groundedBetween
  by_cases hover : a.scope.overlaps b.scope = true
  · by_cases hinv : a.old = b.new ∧ a.new = b.old <;>
      simp only [hover, hinv, Bool.not_true, Bool.false_eq_true, if_true, if_false, List.mem_append,
        List.mem_ite_nil_right, List.mem_singleton, true_and, not_true_eq_false, false_and,
        or_false, not_false_eq_true, false_or, or_assoc]
  · simp [hover]

theorem mem_groundedAlone_iff {a : Rule} {i : Nat} {x : Ground × Conflict} :
    x ∈ groundedAlone guarded (a, i) ↔
      guarded a.old = true ∧ x = (.protectedSource i, protectedSource a) ∨
        guarded a.new = true ∧ x = (.protectedTarget i, protectedTarget a) := by
  simp only [groundedAlone, List.mem_append, List.mem_ite_nil_right, List.mem_singleton]

theorem rests_of_groundedBetween {a b : Rule} {i j : Nat} (hij : i < j) (hi : rules[i]? = some a)
    (hj : rules[j]? = some b) (h : (g, c) ∈ groundedBetween (a, i) (b, j)) :
    Rests guarded rules g c := by
  obtain ⟨hover, h⟩ := mem_groundedBetween_iff.1 h
  have hmeet : Meet rules i j a b := ⟨hij, hi, hj, hover⟩
  rcases h with ⟨⟨hold, hscope⟩, heq⟩ | ⟨⟨hold, hnew⟩, heq⟩ | ⟨⟨hold, hnew⟩, heq⟩ |
    ⟨hinv, ⟨hnew, heq⟩ | ⟨hnew, heq⟩⟩
  all_goals obtain ⟨rfl, rfl⟩ := Prod.mk.inj heq
  · exact .duplicateSource hmeet hold hscope
  · exact .collidingTarget hmeet hold hnew
  · exact .inversePair hmeet hold hnew
  · exact .chain hmeet hinv hnew
  · exact .chainBack hmeet hinv hnew

theorem rests_of_groundedAlone {a : Rule} {i : Nat} (hi : rules[i]? = some a)
    (h : (g, c) ∈ groundedAlone guarded (a, i)) : Rests guarded rules g c := by
  rcases mem_groundedAlone_iff.1 h with ⟨hg, heq⟩ | ⟨hg, heq⟩
  all_goals obtain ⟨rfl, rfl⟩ := Prod.mk.inj heq
  · exact .protectedSource hi hg
  · exact .protectedTarget hi hg

theorem mem_grounded_of_between {a b : Rule} {i j : Nat} (h : Meet rules i j a b)
    (hmem : (g, c) ∈ groundedBetween (a, i) (b, j)) : (g, c) ∈ grounded guarded rules := by
  have hpair := mem_pairs_zipIdx_iff.2 ⟨h.lt, h.left, h.right⟩
  exact List.mem_append_left _ (List.mem_flatMap.2 ⟨_, hpair, hmem⟩)

theorem mem_grounded_of_alone {a : Rule} {i : Nat} (hi : rules[i]? = some a)
    (hmem : (g, c) ∈ groundedAlone guarded (a, i)) : (g, c) ∈ grounded guarded rules := by
  have hplace : (a, i) ∈ rules.zipIdx := List.mem_zipIdx_iff_getElem?.2 hi
  exact List.mem_append_right _ (List.mem_flatMap.2 ⟨_, hplace, hmem⟩)

/-- The conflicts are listed with exactly the grounds on which they rest. -/
theorem mem_grounded_iff : (g, c) ∈ grounded guarded rules ↔ Rests guarded rules g c := by
  constructor
  · intro h
    rcases List.mem_append.1 h with h | h
    · obtain ⟨⟨⟨a, i⟩, ⟨b, j⟩⟩, hp, hmem⟩ := List.mem_flatMap.1 h
      obtain ⟨hij, hi, hj⟩ := mem_pairs_zipIdx_iff.1 hp
      exact rests_of_groundedBetween hij hi hj hmem
    · obtain ⟨⟨a, i⟩, hp, hmem⟩ := List.mem_flatMap.1 h
      exact rests_of_groundedAlone (List.mem_zipIdx_iff_getElem?.1 hp) hmem
  · intro h
    cases h with
    | duplicateSource hmeet hold hscope =>
      exact mem_grounded_of_between hmeet
        (mem_groundedBetween_iff.2 ⟨hmeet.overlaps, .inl ⟨⟨hold, hscope⟩, rfl⟩⟩)
    | collidingTarget hmeet hold hnew =>
      exact mem_grounded_of_between hmeet
        (mem_groundedBetween_iff.2 ⟨hmeet.overlaps, .inr (.inl ⟨⟨hold, hnew⟩, rfl⟩)⟩)
    | inversePair hmeet hold hnew =>
      exact mem_grounded_of_between hmeet
        (mem_groundedBetween_iff.2 ⟨hmeet.overlaps, .inr (.inr (.inl ⟨⟨hold, hnew⟩, rfl⟩))⟩)
    | chain hmeet hinv hnew =>
      exact mem_grounded_of_between hmeet (mem_groundedBetween_iff.2
        ⟨hmeet.overlaps, .inr (.inr (.inr ⟨hinv, .inl ⟨hnew, rfl⟩⟩))⟩)
    | chainBack hmeet hinv hnew =>
      exact mem_grounded_of_between hmeet (mem_groundedBetween_iff.2
        ⟨hmeet.overlaps, .inr (.inr (.inr ⟨hinv, .inr ⟨hnew, rfl⟩⟩))⟩)
    | protectedSource hi hg =>
      exact mem_grounded_of_alone hi (mem_groundedAlone_iff.2 (.inl ⟨hg, rfl⟩))
    | protectedTarget hi hg =>
      exact mem_grounded_of_alone hi (mem_groundedAlone_iff.2 (.inr ⟨hg, rfl⟩))

/-! ### Each ground once -/

/-- The positions of the rules of a ground, the smaller one first. -/
def Ground.span : Ground → Nat × Nat
  | duplicateSource i j | collidingTarget i j | inversePair i j | chain i j => (min i j, max i j)
  | protectedSource i | protectedTarget i => (i, i)

theorem span_of_between {p q : Rule × Nat} (hlt : p.2 < q.2)
    (h : g ∈ (groundedBetween p q).map Prod.fst) : g.span = (p.2, q.2) := by
  obtain ⟨⟨g, c⟩, hmem, rfl⟩ := List.mem_map.1 h
  obtain ⟨a, i⟩ := p
  obtain ⟨b, j⟩ := q
  simp only at hlt
  obtain ⟨-, h⟩ := mem_groundedBetween_iff.1 hmem
  rcases h with ⟨-, heq⟩ | ⟨-, heq⟩ | ⟨-, heq⟩ | ⟨-, ⟨-, heq⟩ | ⟨-, heq⟩⟩
  all_goals
    obtain ⟨rfl, rfl⟩ := Prod.mk.inj heq
    simp only [Ground.span, Prod.mk.injEq]
    omega

theorem span_of_alone {p : Rule × Nat} (h : g ∈ (groundedAlone guarded p).map Prod.fst) :
    g.span = (p.2, p.2) := by
  obtain ⟨⟨g, c⟩, hmem, rfl⟩ := List.mem_map.1 h
  obtain ⟨a, i⟩ := p
  rcases mem_groundedAlone_iff.1 hmem with ⟨-, heq⟩ | ⟨-, heq⟩
  all_goals
    obtain ⟨rfl, rfl⟩ := Prod.mk.inj heq
    rfl

theorem nodup_between {p q : Rule × Nat} (hlt : p.2 < q.2) :
    ((groundedBetween p q).map Prod.fst).Nodup := by
  obtain ⟨a, i⟩ := p
  obtain ⟨b, j⟩ := q
  simp only at hlt
  have hne : i ≠ j := by omega
  simp only [groundedBetween]
  split_ifs <;> simp [hne]

theorem nodup_alone (p : Rule × Nat) : ((groundedAlone guarded p).map Prod.fst).Nodup := by
  simp only [groundedAlone]
  split_ifs <;> simp

theorem lt_of_mem_pairs {p q : Rule × Nat} (h : (p, q) ∈ pairs rules.zipIdx) : p.2 < q.2 :=
  (mem_pairs_zipIdx_iff.1 h).1

/-- Different pairs of rules stand at different positions. -/
theorem pairwise_positions (rules : List Rule) :
    (pairs rules.zipIdx).Pairwise fun x y => (x.1.2, x.2.2) ≠ (y.1.2, y.2.2) := by
  have hnodup : (pairs (rules.zipIdx.map Prod.snd)).Nodup := by
    rw [List.zipIdx_map_snd]
    exact nodup_pairs List.nodup_range'
  rw [pairs_map] at hnodup
  exact List.pairwise_map.1 hnodup

theorem nodup_grounded (guarded : String → Bool) (rules : List Rule) :
    ((grounded guarded rules).map Prod.fst).Nodup := by
  rw [grounded, List.map_append, List.map_flatMap, List.map_flatMap, List.nodup_append']
  refine ⟨List.nodup_flatMap.2 ⟨fun x hx => nodup_between (lt_of_mem_pairs hx), ?_⟩,
    List.nodup_flatMap.2 ⟨fun p _ => nodup_alone p, ?_⟩, ?_⟩
  · -- two pairs of rules have no ground in common
    refine (pairwise_positions rules).imp_of_mem fun hx hy hne => ?_
    intro g hg hg'
    exact hne ((span_of_between (lt_of_mem_pairs hx) hg).symm.trans
      (span_of_between (lt_of_mem_pairs hy) hg'))
  · have hnodup : (rules.zipIdx.map Prod.snd).Nodup := by
      rw [List.zipIdx_map_snd]
      exact List.nodup_range'
    refine (List.pairwise_map.1 hnodup).imp fun hne => ?_
    intro g hg hg'
    exact hne (congrArg Prod.fst ((span_of_alone hg).symm.trans (span_of_alone hg')))
  · intro g hg hg'
    obtain ⟨x, hx, hg⟩ := List.mem_flatMap.1 hg
    obtain ⟨p, -, hg'⟩ := List.mem_flatMap.1 hg'
    have hspan := (span_of_between (lt_of_mem_pairs hx) hg).symm.trans (span_of_alone hg')
    have hlt := lt_of_mem_pairs hx
    simp only [Prod.mk.injEq] at hspan
    omega

/-! ### Other orders, more rules -/

/-- The kinds and labels of the conflicts between two rules do not depend on which is the first. -/
theorem accounts_between_comm (a b : Rule) :
    ((between a b).map account).Perm ((between b a).map account) := by
  have hlabels : (↑[a.label, b.label] : Multiset String) = ↑[b.label, a.label] :=
    Multiset.coe_eq_coe.2 (List.Perm.swap _ _ _)
  have hdup : account (duplicateSource a b) = account (duplicateSource b a) :=
    Prod.ext rfl hlabels
  have hcoll : account (collidingTarget a b) = account (collidingTarget b a) :=
    Prod.ext rfl hlabels
  have hinv : account (inversePair a b) = account (inversePair b a) := Prod.ext rfl hlabels
  rw [between, between, Scope.overlaps_comm b.scope a.scope]
  split
  · exact .refl _
  simp only [List.map_append]
  refine (List.Perm.append ?_ ?_).append ?_
  · rw [if_congr (and_congr eq_comm eq_comm) rfl rfl, apply_ite (List.map account),
      apply_ite (List.map account), List.map_singleton, List.map_singleton, hdup]
  · rw [if_congr (and_congr (not_congr eq_comm) eq_comm) rfl rfl, apply_ite (List.map account),
      apply_ite (List.map account), List.map_singleton, List.map_singleton, hcoll]
  · have hcond : (b.old = a.new ∧ b.new = a.old) ↔ (a.old = b.new ∧ a.new = b.old) := by
      rw [and_comm, eq_comm, eq_comm (a := b.old)]
    by_cases hc : a.old = b.new ∧ a.new = b.old
    · rw [if_pos hc, if_pos (hcond.2 hc), List.map_singleton, List.map_singleton, hinv]
    · rw [if_neg hc, if_neg (hcond.not.2 hc), List.map_append, List.map_append]
      exact List.perm_append_comm

theorem accounts_ofPairs_perm (h : rules'.Perm rules) :
    ((ofPairs rules').map account).Perm ((ofPairs rules).map account) := by
  induction h with
  | nil => exact .refl _
  | cons a h ih =>
    rw [ofPairs, ofPairs, List.map_append, List.map_append]
    exact ((h.flatMap_right _).map _).append ih
  | swap a b rest =>
    -- only the conflicts between the two rules change their places, or the order of their labels
    simp only [ofPairs, List.flatMap_cons, List.map_append, List.append_assoc]
    refine (accounts_between_comm b a).append ?_
    rw [← List.append_assoc, ← List.append_assoc]
    exact List.perm_append_comm.append_right _
  | trans _ _ ih ih' => exact ih.trans ih'

theorem accounts_perm (h : rules'.Perm rules) :
    ((conflicts guarded rules').map account).Perm ((conflicts guarded rules).map account) := by
  rw [conflicts, conflicts, List.map_append, List.map_append]
  exact (accounts_ofPairs_perm h).append ((h.flatMap_right _).map _)

theorem ofPairs_sublist (h : rules.Sublist rules') : (ofPairs rules).Sublist (ofPairs rules') := by
  induction h with
  | slnil => exact .refl _
  | cons a _ ih => exact ih.trans (List.sublist_append_right _ _)
  | cons_cons a h ih => exact (h.flatMap _).append ih

theorem ofProtected_sublist (hg : ∀ name, guarded name = true → guarded' name = true) (a : Rule) :
    (ofProtected guarded a).Sublist (ofProtected guarded' a) := by
  have hone : ∀ (name : String) (c : Conflict), (if guarded name then [c] else []).Sublist
      (if guarded' name then [c] else []) := by
    intro name c
    by_cases h : guarded name = true
    · rw [if_pos h, if_pos (hg name h)]
    · rw [if_neg h]
      exact List.nil_sublist _
  exact (hone a.old _).append (hone a.new _)

/-- With more rules and more protected names all conflicts stay, in their order. -/
theorem conflicts_sublist (hg : ∀ name, guarded name = true → guarded' name = true)
    (h : rules.Sublist rules') : (conflicts guarded rules).Sublist (conflicts guarded' rules') :=
  (ofPairs_sublist h).append
    ((h.flatMap _).trans (.flatMap_right rules' fun a _ => ofProtected_sublist hg a))

end Conflict

open Conflict

/-- **The conflicts of a list of rules** rest on different grounds, and there is one for every
ground: for two rules with scopes that overlap, the earlier one first, that they rename one name in
one scope, that they make one name of two, that they undo each other or else that one of them feeds
the other, and for each rule that it renames or writes a protected name. In another order of the
rules there are as many conflicts of each kind for the same labels, and with more rules or more
protected names no conflict is lost. -/
theorem conflicts_grounded (guarded : String → Bool) (rules : List Rule) :
    (∃ grounds : List Ground, grounds.Nodup ∧
      (∀ g, g ∈ grounds ↔ ∃ c, Rests guarded rules g c) ∧
      List.Forall₂ (Rests guarded rules) grounds (conflicts guarded rules)) ∧
    (∀ rules', rules'.Perm rules →
      ((conflicts guarded rules').map account).Perm ((conflicts guarded rules).map account)) ∧
    ∀ guarded' rules', (∀ name, guarded name = true → guarded' name = true) →
      rules.Sublist rules' → (conflicts guarded rules).Sublist (conflicts guarded' rules') := by
  refine ⟨⟨(grounded guarded rules).map Prod.fst, nodup_grounded guarded rules, fun g => ?_, ?_⟩,
    fun rules' h => accounts_perm h, fun guarded' rules' hg h => conflicts_sublist hg h⟩
  · rw [List.mem_map]
    constructor
    · rintro ⟨⟨g, c⟩, hmem, rfl⟩
      exact ⟨c, mem_grounded_iff.1 hmem⟩
    · rintro ⟨c, hc⟩
      exact ⟨(g, c), mem_grounded_iff.2 hc, rfl⟩
  · rw [← map_snd_grounded, List.forall₂_map_left_iff, List.forall₂_map_right_iff,
      List.forall₂_same]
    exact fun x hx => mem_grounded_iff.1 hx

end Renaming
