import Renaming.Proofs.Json.Grammar
import Renaming.Proofs.Json.Text

/-!
A value is read back from its text. What is read has the entries of every object sorted by key, and
is otherwise the value itself (`read_render`), if the value has no number with a point and no whole
number beyond 64 bits, and its brackets are not nested too deep for the reader.
-/

namespace Renaming.Json

variable {level : Nat} {first : Bool} {rest gap : List Char}

/-! ### Values that are read back -/

mutual

/-- How deep the brackets of a value are nested. -/
def depth : Json → Nat
  | arr items => depthItems items + 1
  | obj entries => depthEntries entries + 1
  | _ => 0

/-- The same for the items of a list. -/
def depthItems : List Json → Nat
  | [] => 0
  | v :: rest => max (depth v) (depthItems rest)

/-- The same for the entries of an object. -/
def depthEntries : List (String × Json) → Nat
  | [] => 0
  | (_, v) :: rest => max (depth v) (depthEntries rest)

end

mutual

/-- Whether all numbers of a value are whole and fit into 64 bits. -/
def isExact : Json → Bool
  | float _ => false
  | int i => decide (-(Int64.minValue.toInt.natAbs : Int) ≤ i) && decide (i ≤ (maxWord : Int))
  | arr items => isExactItems items
  | obj entries => isExactEntries entries
  | _ => true

/-- The same for the items of a list. -/
def isExactItems : List Json → Bool
  | [] => true
  | v :: rest => isExact v && isExactItems rest

/-- The same for the entries of an object. -/
def isExactEntries : List (String × Json) → Bool
  | [] => true
  | (_, v) :: rest => isExact v && isExactEntries rest

end

/-! ### Numbers -/

/-- Whether a number ends in front of a character. -/
def endsNumber (c : Char) : Bool := !c.isDigit && !(['.', 'e', 'E'].contains c)

/-- A text in front of which a number ends. -/
def Ends (rest : List Char) : Prop := ∀ c ∈ rest.head?, endsNumber c = true

theorem endsNumber_of_isBlank {c : Char} (h : isBlank c = true) : endsNumber c = true := by
  simp only [isBlank, Bool.or_eq_true, beq_iff_eq] at h
  rcases h with ((rfl | rfl) | rfl) | rfl <;> decide

theorem ends_gap {c : Char} (hgap : ∀ b ∈ gap, isBlank b = true) (hc : endsNumber c = true)
    (rest : List Char) : Ends (gap ++ c :: rest) := by
  intro d hd
  cases gap with
  | nil => rwa [← Option.some.inj hd]
  | cons b gap => exact Option.some.inj hd ▸ endsNumber_of_isBlank (hgap b List.mem_cons_self)

theorem le_ofDigitChars (n : Nat) (ds : List Char) : n ≤ Nat.ofDigitChars 10 ds n := by
  induction ds generalizing n with
  | nil => exact Nat.le_refl n
  | cons d ds ih =>
    rw [Nat.ofDigitChars_cons]
    exact Nat.le_trans (by omega) (ih _)

/-- Digits are taken as long as their number fits. -/
theorem absorb_eq {n : Nat} {ds : List Char} (h : Nat.ofDigitChars 10 ds n ≤ maxWord) :
    absorb n ds = (Nat.ofDigitChars 10 ds n, []) := by
  induction ds generalizing n with
  | nil => rfl
  | cons d ds ih =>
    rw [Nat.ofDigitChars_cons, Nat.mul_comm] at h ⊢
    have hfits := Nat.le_trans (le_ofDigitChars _ ds) h
    rw [absorb, if_neg (Nat.not_lt.2 hfits), ih h]

/-- No number is written with a zero in front of other digits. -/
theorem toDigits_ne_zero_cons (n : Nat) (d : Char) (tail : List Char) :
    Nat.toDigits 10 n ≠ '0' :: d :: tail := by
  induction n using Nat.strongRecOn generalizing d tail with
  | _ n ih =>
    intro h
    by_cases hn : n < 10
    · rw [Nat.toDigits_of_lt_base hn] at h
      exact List.cons_ne_nil _ _ (List.cons.inj h).2.symm
    rw [Nat.toDigits_of_base_le (by decide) (by omega)] at h
    have hless : n / 10 < n := by omega
    cases hhead : Nat.toDigits 10 (n / 10) with
    | nil => exact absurd hhead Nat.toDigits_ne_nil
    | cons c more =>
      rw [hhead, List.cons_append] at h
      obtain rfl := (List.cons.inj h).1
      cases more with
      | cons c more => exact ih _ hless _ _ hhead
      | nil =>
        have hzero := Nat.ofDigitChars_ten_toDigits (n := n / 10)
        rw [hhead] at hzero
        have : n / 10 = 0 := hzero.symm
        omega

/-- A number that is written is read from its digits. -/
theorem number_toDigits (positive : Bool) {n : Nat} (hrest : Ends rest) :
    number positive (Nat.toDigits 10 n ++ rest) =
      wholeNumber positive (Nat.toDigits 10 n) rest := by
  have hdigits : digits (Nat.toDigits 10 n ++ rest) = (Nat.toDigits 10 n, rest) := by
    refine digits_append (fun c => Nat.isDigit_of_mem_toDigits (by decide) (by decide))
      fun c hc => ?_
    have := hrest c hc
    simp only [endsNumber, Bool.and_eq_true, Bool.not_eq_true'] at this
    exact this.1
  rw [number_eq hdigits Nat.toDigits_ne_nil (toDigits_ne_zero_cons n), numberTail]
  dsimp only
  split
  iterate 3 exact absurd (hrest _ rfl) (by decide)
  rfl

theorem absorb_toDigits {n : Nat} (hn : n ≤ maxWord) : absorb 0 (Nat.toDigits 10 n) = (n, []) := by
  rw [absorb_eq, Nat.ofDigitChars_ten_toDigits]
  rwa [Nat.ofDigitChars_ten_toDigits]

theorem toList_repr (n : Nat) : n.repr.toList = Nat.toDigits 10 n := by
  rw [Nat.repr_eq_ofList_toDigits, String.toList_ofList]

theorem exists_cons_toDigits (n : Nat) :
    ∃ d ds, Nat.toDigits 10 n = d :: ds ∧ d.isDigit = true := by
  obtain ⟨d, ds, hds⟩ := List.exists_cons_of_ne_nil (Nat.toDigits_ne_nil (n := n) (b := 10))
  have hd : d ∈ Nat.toDigits 10 n := hds ▸ List.mem_cons_self
  exact ⟨d, ds, hds, Nat.isDigit_of_mem_toDigits (by decide) (by decide) hd⟩

/-- A whole number that fits is read. -/
theorem scalar_int {i : Int} (h : (int i).isExact = true) (hrest : Ends rest) :
    scalar ((toString i).toList ++ rest) = .ok (int i, rest) := by
  simp only [isExact, Bool.and_eq_true, decide_eq_true_eq] at h
  obtain ⟨hlow, hhigh⟩ := h
  rw [Int.toString_eq_repr]
  cases i with
  | ofNat n =>
    have habsorb := absorb_toDigits (n := n) (Int.ofNat_le.1 hhigh)
    obtain ⟨d, ds, hds, hd⟩ := exists_cons_toDigits n
    have hnumber := number_toDigits true (n := n) hrest
    rw [Int.repr, toList_repr]
    rw [hds, List.cons_append] at hnumber ⊢
    rw [scalar_digit hd, hnumber, wholeNumber, ← hds, habsorb]
    rfl
  | negSucc n =>
    have hlow : n + 1 ≤ Int64.minValue.toInt.natAbs := by omega
    have hsmall : Int64.minValue.toInt.natAbs ≤ maxWord := by decide
    have habsorb := absorb_toDigits (n := n + 1) (Nat.le_trans hlow hsmall)
    have hminus : (Int.repr (Int.negSucc n)).toList = '-' :: Nat.toDigits 10 (n + 1) := by
      rw [Int.repr, String.toList_append, toList_repr]
      rfl
    have hnumber : number false (Nat.toDigits 10 (n + 1) ++ rest) =
        .ok (.int (Int.negSucc n), rest) := by
      rw [number_toDigits false hrest, wholeNumber, habsorb]
      have htaken : decide (0 < n + 1) && decide (n + 1 ≤ Int64.minValue.toInt.natAbs) := by
        simp only [hlow, Nat.succ_pos, decide_true, Bool.and_self]
      simp only [List.isEmpty_nil, Bool.and_false, Bool.true_and, htaken, Bool.false_eq_true,
        if_false, if_true]
      rfl
    rw [hminus, List.cons_append, scalar, hnumber]
    rfl

/-! ### Lists and objects -/

/-- Parts that follow one another, each on a line of its own, and each but the first one behind a
comma. -/
def lines (level : Nat) : (first : Bool) → List (List Char) → List Char
  | _, [] => []
  | first, p :: ps =>
    (if first then [] else [',']) ++ (lineAt level ++ p) ++ lines level false ps

theorem lines_false (level : Nat) (parts : List (List Char)) :
    lines level false parts = parts.flatMap fun p => ',' :: (lineAt level ++ p) := by
  induction parts with
  | nil => rfl
  | cons p parts ih => simp [lines, ih]

/-- What stands between two brackets. -/
theorem block_append (opening closing : Char) (level : Nat) (parts : List (List Char))
    (rest : List Char) : ∃ gap, (∀ b ∈ gap, isBlank b = true) ∧
      block opening closing level parts ++ rest =
        opening :: (lines (level + 1) true parts ++ (gap ++ closing :: rest)) := by
  cases parts with
  | nil => exact ⟨[], nofun, rfl⟩
  | cons p parts =>
    refine ⟨lineAt level, fun b hb => ?_, by simp [block_cons, lines, lines_false]⟩
    rcases List.mem_cons.1 hb with rfl | hb
    · decide
    · rw [List.eq_of_mem_replicate hb]
      decide

theorem skip_gap (hgap : ∀ b ∈ gap, isBlank b = true) {c : Char} (hc : isBlank c = false)
    (rest : List Char) : skip (gap ++ c :: rest) = c :: rest := by
  rw [skip, List.dropWhile_append_of_pos hgap]
  exact skip_cons_of_not_blank hc rest

/-- A part starts where the one before it has ended. -/
theorem starts_lines (first : Bool) (level : Nat) {c : Char} (hc : isBlank c = false)
    (tail : List Char) : Starts first
      ((if first then [] else [',']) ++ (lineAt level ++ c :: tail)) (c :: tail) := by
  have hline : skip (lineAt level ++ c :: tail) = c :: tail := by
    rw [skip_lineAt, skip_cons_of_not_blank hc]
  cases first with
  | true => exact hline
  | false => exact ⟨_, skip_cons_of_not_blank (by decide) _, hline⟩

theorem ends_lines (level : Nat) (parts : List (List Char)) (hgap : ∀ b ∈ gap, isBlank b = true)
    {closing : Char} (hclosing : endsNumber closing = true) (rest : List Char) :
    Ends (lines level false parts ++ (gap ++ closing :: rest)) := by
  cases parts with
  | nil => exact ends_gap hgap hclosing rest
  | cons p parts =>
    intro c hc
    rw [← Option.some.inj hc]
    decide

/-- The text of a value starts with a character that is neither blank nor closes a list. -/
theorem exists_cons_render (v : Json) (h : v.isExact = true) (level : Nat) :
    ∃ c tail, v.render level = c :: tail ∧ isBlank c = false ∧ c ≠ ']' := by
  cases v with
  | null => exact ⟨_, _, rfl, by decide, by decide⟩
  | bool b => cases b <;> exact ⟨_, _, rfl, by decide, by decide⟩
  | int i =>
    rw [render, Int.toString_eq_repr]
    cases i with
    | ofNat n =>
      rw [Int.repr, toList_repr]
      obtain ⟨d, ds, hds, hd⟩ := exists_cons_toDigits n
      refine ⟨d, ds, hds, Bool.eq_false_iff.2 fun hblank => ?_, ?_⟩
      · have hends := endsNumber_of_isBlank hblank
        rw [endsNumber, hd] at hends
        cases hends
      · rintro rfl
        revert hd
        decide
    | negSucc n =>
      rw [Int.repr, String.toList_append]
      exact ⟨'-', _, rfl, by decide, by decide⟩
  | float x => cases h
  | str s => exact ⟨'"', _, rfl, by decide, by decide⟩
  | arr items =>
    obtain ⟨gap, -, heq⟩ := block_append '[' ']' level (renderItems (level + 1) items) []
    rw [List.append_nil] at heq
    exact ⟨'[', _, heq, by decide, by decide⟩
  | obj entries =>
    obtain ⟨gap, -, heq⟩ :=
      block_append '\x7b' '\x7d' level (renderEntries (level + 1) entries) []
    rw [List.append_nil] at heq
    exact ⟨'\x7b', _, heq, by decide, by decide⟩

/-! ### Values -/

mutual

/-- A value is read from its text, its objects sorted by key. -/
theorem reads_render (v : Json) (h : v.isExact = true) (level : Nat) {rest : List Char}
    (hrest : Ends rest) : Reads v.depth (.value v.sorted) (v.render level ++ rest) rest := by
  match v, h with
  | .null, _ => exact .scalar rfl
  | .bool true, _ => exact .scalar rfl
  | .bool false, _ => exact .scalar rfl
  | .int i, h =>
    obtain ⟨c, tail, heq, hblank, -⟩ := exists_cons_render (.int i) h level
    have hscalar := scalar_int h hrest
    rw [render] at heq ⊢
    rw [heq, List.cons_append] at hscalar ⊢
    exact .scalar ((skip_cons_of_not_blank hblank _).symm ▸ hscalar)
  | .str s, _ =>
    obtain ⟨text, heq, htext⟩ := stringBody_quoted s rest
    refine .scalar ?_
    rw [render, heq, skip_cons_of_not_blank (by decide), scalar, htext]
    simp [Except.map, sorted, String.ofList_toList]
  | .arr items, h =>
    obtain ⟨gap, hgap, heq⟩ := block_append '[' ']' level (renderItems (level + 1) items) rest
    rw [render, heq, sorted, depth]
    exact .list (skip_cons_of_not_blank (by decide) _)
      (reads_items items h (level + 1) true hgap rest)
  | .obj entries, h =>
    obtain ⟨gap, hgap, heq⟩ :=
      block_append '\x7b' '\x7d' level (renderEntries (level + 1) entries) rest
    rw [render, heq, sorted, depth]
    exact .object (skip_cons_of_not_blank (by decide) _)
      (reads_entries entries h (level + 1) true hgap rest)

theorem reads_items (items : List Json) (h : isExactItems items = true) (level : Nat)
    (first : Bool) {gap : List Char} (hgap : ∀ b ∈ gap, isBlank b = true) (rest : List Char) :
    Reads (depthItems items) (.items first (sortedItems items))
      (lines level first (renderItems level items) ++ (gap ++ ']' :: rest)) rest := by
  match items, h with
  | [], _ => exact .noItem (skip_gap hgap (by decide) rest)
  | v :: items, h =>
    obtain ⟨hv, hitems⟩ := Bool.and_eq_true_iff.1 h
    obtain ⟨c, tail, heq, hblank, hc⟩ := exists_cons_render v hv level
    have hrest := ends_lines level (renderItems level items) hgap
      (show endsNumber ']' = true by decide) rest
    have hvalue := reads_render v hv level hrest
    have hmore := reads_items items hitems level false hgap rest
    rw [heq, List.cons_append] at hvalue
    rw [renderItems, lines, heq]
    simp only [List.append_assoc, List.cons_append]
    exact .item (starts_lines first level hblank _) hc hvalue hmore

theorem reads_entries (entries : List (String × Json)) (h : isExactEntries entries = true)
    (level : Nat) (first : Bool) {gap : List Char} (hgap : ∀ b ∈ gap, isBlank b = true)
    (rest : List Char) : Reads (depthEntries entries) (.entries first (sortedValues entries))
      (lines level first (renderEntries level entries) ++ (gap ++ '\x7d' :: rest)) rest := by
  match entries, h with
  | [], _ => exact .noEntry (skip_gap hgap (by decide) rest)
  | (k, v) :: entries, h =>
    obtain ⟨hv, hentries⟩ := Bool.and_eq_true_iff.1 h
    have hrest := ends_lines level (renderEntries level entries) hgap
      (show endsNumber '\x7d' = true by decide) rest
    have hvalue := reads_render v hv level hrest
    have hmore := reads_entries entries hentries level false hgap rest
    obtain ⟨text, heq, htext⟩ := stringBody_quoted k (':' :: ' ' :: (v.render level ++
      (lines level false (renderEntries level entries) ++ (gap ++ '\x7d' :: rest))))
    rw [renderEntries, lines]
    simp only [List.append_assoc, List.cons_append]
    rw [heq]
    have hentry := Reads.entry (starts_lines first level (by decide) text) htext
      (skip_cons_of_not_blank (by decide) _)
      (hvalue.of_skip_eq (skip_cons_of_blank (by decide) _)) hmore
    rwa [String.ofList_toList] at hentry

end

/-- **A value is read back from its text**, with the entries of every object sorted by key. -/
theorem read_render (v : Json) (h : v.isExact = true) (hdepth : v.depth < maxDepth) (level : Nat)
    (hrest : ∀ c ∈ rest, isBlank c = true) : read (v.render level ++ rest) = .ok v.sorted := by
  have hends : Ends rest := fun c hc => endsNumber_of_isBlank (hrest c (List.mem_of_mem_head? hc))
  have hskip : skip rest = [] := by
    rw [skip, ← List.append_nil rest, List.dropWhile_append_of_pos hrest]
    rfl
  exact read_eq_ok_iff.2 ⟨_, hdepth, rest, reads_render v h level hends, hskip⟩

/-! ### Lists of values of one kind -/

section

variable {α : Type} {f : α → Json} {m : Nat}

theorem depthItems_map_le (h : ∀ a, (f a).depth ≤ m) (as : List α) : depthItems (as.map f) ≤ m := by
  induction as with
  | nil => exact Nat.zero_le m
  | cons a as ih => exact Nat.max_le.2 ⟨h a, ih⟩

theorem isExactItems_map (h : ∀ a, (f a).isExact = true) (as : List α) :
    isExactItems (as.map f) = true := by
  induction as with
  | nil => rfl
  | cons a as ih => exact Bool.and_eq_true_iff.2 ⟨h a, ih⟩

theorem sortedItems_map (as : List α) : sortedItems (as.map f) = as.map fun a => (f a).sorted := by
  induction as with
  | nil => rfl
  | cons a as ih => rw [List.map_cons, sortedItems, ih, List.map_cons]

end

/-! ### Parts of a text -/

theorem infix_lines {p : List Char} {parts : List (List Char)} (h : p ∈ parts) (level : Nat)
    (first : Bool) : p <:+: lines level first parts := by
  induction parts generalizing first with
  | nil => cases h
  | cons q parts ih =>
    rcases List.mem_cons.1 h with rfl | h
    · exact ⟨(if first then [] else [',']) ++ lineAt level, lines level false parts,
        by simp [lines]⟩
    · exact (ih h false).trans (List.suffix_append _ _).isInfix

/-- The text of a value in an object is a part of the text of the object. -/
theorem infix_render {key : String} {v : Json} {entries : List (String × Json)}
    (h : (key, v) ∈ entries) (level : Nat) :
    v.render (level + 1) <:+: (obj entries).render level := by
  have hentry : quoted key ++ ':' :: ' ' :: v.render (level + 1) ∈
      renderEntries (level + 1) entries := by
    induction entries with
    | nil => cases h
    | cons e entries ih =>
      rcases List.mem_cons.1 h with rfl | h
      · exact List.mem_cons_self
      · exact List.mem_cons_of_mem _ (ih h)
  obtain ⟨gap, -, heq⟩ :=
    block_append '\x7b' '\x7d' level (renderEntries (level + 1) entries) []
  rw [List.append_nil] at heq
  have hvalue : v.render (level + 1) <:+: quoted key ++ ':' :: ' ' :: v.render (level + 1) :=
    ⟨quoted key ++ [':', ' '], [], by simp⟩
  rw [render, heq]
  exact hvalue.trans ((infix_lines hentry (level + 1) true).trans
    ⟨['\x7b'], gap ++ ['\x7d'], by simp⟩)

end Renaming.Json
