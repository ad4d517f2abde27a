import Renaming.Report

/-!
Tallies. Adding to a tally adds to its total (`total_add`) and to the count of one name
(`count_add`), brings in that name and no other (`mem_keys_add`) and keeps the names in order, each
of them once (`InOrder.add`). The same is said of many additions, one after the other.
-/

namespace Renaming.Tally

variable {t counts : Tally} {name other : String} {n : Nat}

/-- The names in a tally. -/
def keys (t : Tally) : List String := t.map Prod.fst

/-- The sum of the numbers of a name. -/
def count (name : String) : Tally → Nat
  | [] => 0
  | (other, n) :: rest => (if other = name then n else 0) + count name rest

/-- The names are in order, and none of them stands there twice. -/
def InOrder (t : Tally) : Prop := t.Pairwise fun a b => a.1 < b.1

/-- The tally after all numbers of another one have been added. -/
def addAll (t counts : Tally) : Tally := counts.foldl (fun tally (name, n) => tally.add name n) t

@[simp] theorem keys_nil : keys [] = [] := rfl

@[simp] theorem keys_cons (e : String × Nat) (t : Tally) : keys (e :: t) = e.1 :: keys t := rfl

/-! ### One addition -/

theorem total_add (name : String) (n : Nat) (t : Tally) : (t.add name n).total = t.total + n := by
  induction t with
  | nil => simp [add, total]
  | cons e rest ih =>
    rw [add]
    split
    · simp only [total]
      omega
    split
    · simp only [total]
      omega
    · simp only [total, ih]
      omega

theorem count_add (name : String) (n : Nat) (t : Tally) (other : String) :
    (t.add name n).count other = t.count other + if name = other then n else 0 := by
  induction t with
  | nil => simp [add, count]
  | cons e rest ih =>
    rw [add]
    split
    next h =>
      simp only [count, h]
      split <;> omega
    split
    · simp only [count]
      omega
    · simp only [count, ih]
      omega

theorem mem_keys_add : other ∈ (t.add name n).keys ↔ other = name ∨ other ∈ t.keys := by
  induction t with
  | nil => simp [add]
  | cons e rest ih =>
    rw [add]
    split
    next h => simp [h]
    split
    · simp
    · simp only [keys_cons, List.mem_cons, ih, or_left_comm]

theorem inOrder_cons {e : String × Nat} :
    InOrder (e :: t) ↔ (∀ other ∈ t.keys, e.1 < other) ∧ InOrder t := by
  rw [InOrder, List.pairwise_cons, keys, List.forall_mem_map]
  rfl

theorem InOrder.add (h : InOrder t) (name : String) (n : Nat) : InOrder (t.add name n) := by
  induction t with
  | nil => exact List.pairwise_singleton _ _
  | cons e rest ih =>
    obtain ⟨hlt, hrest⟩ := inOrder_cons.1 h
    rw [Tally.add]
    split
    · exact inOrder_cons.2 ⟨hlt, hrest⟩
    next hne =>
    split
    next hbefore =>
      refine inOrder_cons.2 ⟨fun other hother => ?_, h⟩
      rcases List.mem_cons.1 hother with rfl | hother
      · exact hbefore
      · exact String.lt_trans hbefore (hlt other hother)
    next hbefore =>
      refine inOrder_cons.2 ⟨fun other hother => ?_, ih hrest⟩
      rcases mem_keys_add.1 hother with rfl | hother
      · refine Decidable.byContradiction fun hlt => hne ?_
        exact String.le_antisymm (String.not_lt.1 hbefore) (String.not_lt.1 hlt)
      · exact hlt other hother

/-- In a tally with its names in order each name has the number that stands beside it. -/
theorem InOrder.count_eq (h : InOrder t) (hmem : (name, n) ∈ t) : t.count name = n := by
  have hnone : ∀ {t : Tally}, (∀ other ∈ t.keys, name < other) → t.count name = 0 := by
    intro t ht
    induction t with
    | nil => rfl
    | cons e rest ih =>
      obtain ⟨hlt, hrest⟩ := List.forall_mem_cons.1 ht
      have hne : e.1 ≠ name := fun heq => String.lt_irrefl _ (heq ▸ hlt)
      simp only [count, hne, if_false, ih hrest]
  induction t with
  | nil => cases hmem
  | cons e rest ih =>
    obtain ⟨hlt, hrest⟩ := inOrder_cons.1 h
    rcases List.mem_cons.1 hmem with rfl | hmem
    · simp [count, hnone hlt]
    · have hne : e.1 ≠ name := fun heq =>
        String.lt_irrefl _ (heq ▸ hlt name (List.mem_map_of_mem hmem))
      simp only [count, hne, if_false, ih hrest hmem, Nat.zero_add]

/-! ### Many additions -/

theorem addAll_cons (t : Tally) (e : String × Nat) (counts : Tally) :
    t.addAll (e :: counts) = (t.add e.1 e.2).addAll counts := rfl

theorem total_addAll (t counts : Tally) : (t.addAll counts).total = t.total + counts.total := by
  induction counts generalizing t with
  | nil => rfl
  | cons e rest ih =>
    rw [addAll_cons, ih, total_add, total]
    omega

theorem count_addAll (t counts : Tally) (name : String) :
    (t.addAll counts).count name = t.count name + counts.count name := by
  induction counts generalizing t with
  | nil => rfl
  | cons e rest ih =>
    rw [addAll_cons, ih, count_add, count]
    omega

theorem mem_keys_addAll : name ∈ (t.addAll counts).keys ↔ name ∈ t.keys ∨ name ∈ counts.keys := by
  induction counts generalizing t with
  | nil => simp [addAll]
  | cons e rest ih =>
    rw [addAll_cons, ih, mem_keys_add, keys_cons, List.mem_cons, or_assoc, or_left_comm]

theorem InOrder.addAll (h : InOrder t) : InOrder (t.addAll counts) := by
  induction counts generalizing t with
  | nil => exact h
  | cons e rest ih => exact ih (h.add e.1 e.2)

theorem ofList_eq_addAll (counts : Tally) : ofList counts = addAll [] counts := rfl

theorem inOrder_ofList (counts : Tally) : InOrder (ofList counts) := InOrder.addAll .nil

theorem total_ofList (counts : Tally) : (ofList counts).total = counts.total := by
  rw [ofList_eq_addAll, total_addAll, total, Nat.zero_add]

theorem count_ofList (counts : Tally) (name : String) :
    (ofList counts).count name = counts.count name := by
  rw [ofList_eq_addAll, count_addAll, count, Nat.zero_add]

theorem mem_keys_ofList : name ∈ (ofList counts).keys ↔ name ∈ counts.keys := by
  rw [ofList_eq_addAll, mem_keys_addAll, keys_nil, List.mem_nil_iff, false_or]

/-! ### Without zeros -/

theorem total_filter_pos (t : Tally) : total (t.filter fun (_, n) => 0 < n) = total t := by
  induction t with
  | nil => rfl
  | cons e rest ih =>
    obtain ⟨name, n⟩ := e
    by_cases h : 0 < n
    · rw [List.filter_cons_of_pos (by simpa using h), total, total, ih]
    · rw [List.filter_cons_of_neg (by simpa using h), ih, total, Nat.eq_zero_of_not_pos h,
        Nat.zero_add]

theorem count_filter_pos (t : Tally) (name : String) :
    count name (t.filter fun (_, n) => 0 < n) = count name t := by
  induction t with
  | nil => rfl
  | cons e rest ih =>
    obtain ⟨other, n⟩ := e
    by_cases h : 0 < n
    · rw [List.filter_cons_of_pos (by simpa using h), count, count, ih]
    · rw [List.filter_cons_of_neg (by simpa using h), ih, count, Nat.eq_zero_of_not_pos h,
        ite_self, Nat.zero_add]

end Renaming.Tally
