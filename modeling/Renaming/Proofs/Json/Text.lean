import Renaming.Json.Printer
import Renaming.Json.Shape

/-!
The parts of a JSON text that is written are read back: the characters of strings one by one
(`stringBody_escape`), a string behind its quotes (`stringBody_quoted`), and what stands behind the
blanks of a line (`skip_lineAt`).
-/

namespace Renaming.Json

/-! ### Strings -/

theorem hexDigit?_digitChar : ∀ d, d < 16 → hexDigit? (Nat.digitChar d) = some d := by decide

theorem escapeSequence_control {c : Char} (h : c.toNat < 0x20) (rest : List Char) :
    escapeSequence ('u' :: '0' :: '0' :: Nat.digitChar (c.toNat / 16) ::
      Nat.digitChar (c.toNat % 16) :: rest) = .ok (c, rest) := by
  have hhigh := hexDigit?_digitChar (c.toNat / 16) (by omega)
  have hlow := hexDigit?_digitChar (c.toNat % 16) (by omega)
  have hzero : hexDigit? '0' = some 0 := by decide
  have hnumber : hexNumber? '0' '0' (Nat.digitChar (c.toNat / 16)) (Nat.digitChar (c.toNat % 16)) =
      some c.toNat := by
    rw [hexNumber?, hzero, hhigh, hlow]
    simp only [Option.bind_eq_bind, Option.bind_some, Option.some.injEq]
    omega
  rw [escapeSequence, unicodeEscape, hexEscape, hnumber]
  have hlone : ¬(0xDC00 ≤ c.toNat ∧ c.toNat ≤ 0xDFFF) := by omega
  have hsmall : c.toNat < 0xD800 ∨ 0xDBFF < c.toNat := by omega
  simp only [hlone, hsmall, if_false, if_true, Char.ofNat_toNat]

/-- A character that is written is read back. -/
theorem stringBody_escape (c : Char) (rest : List Char) :
    stringBody (escape c ++ rest) = (stringBody rest).map fun (s, left) => (c :: s, left) := by
  have hshort : ∀ d, escapeSequence (d :: rest) = .ok (c, rest) →
      stringBody ('\\' :: d :: rest) = (stringBody rest).map fun (s, left) => (c :: s, left) := by
    intro d hd
    rw [stringBody]
    split
    next f hf => rw [hd] at hf; cases hf
    next c' rest' hc => rw [hd] at hc; cases hc; rfl
  unfold escape
  split
  iterate 7 exact hshort _ rfl
  split
  next hcontrol =>
    have hread := escapeSequence_control hcontrol rest
    simp only [List.cons_append, List.nil_append]
    rw [stringBody]
    split
    next f hf => rw [hread] at hf; cases hf
    next c' rest' hc => rw [hread] at hc; cases hc; rfl
  next hquote hback _ _ _ _ _ hcontrol =>
    rw [List.singleton_append, stringBody.eq_def]
    split
    · simp_all
    · simp_all
    · simp_all
    next c' rest' _ _ heq =>
      obtain ⟨rfl, rfl⟩ := List.cons_eq_cons.1 heq
      rw [if_neg hcontrol]

theorem stringBody_flatMap_escape (cs rest : List Char) :
    stringBody (cs.flatMap escape ++ '"' :: rest) = .ok (cs, rest) := by
  induction cs with
  | nil => simp [stringBody]
  | cons c cs ih =>
    rw [List.flatMap_cons, List.append_assoc, stringBody_escape, ih]
    rfl

theorem stringBody_quoted (s : String) (rest : List Char) :
    ∃ text, quoted s ++ rest = '"' :: text ∧ stringBody text = .ok (s.toList, rest) :=
  ⟨s.toList.flatMap escape ++ '"' :: rest, by simp [quoted], stringBody_flatMap_escape _ _⟩

/-! ### Blanks -/

theorem skip_cons_of_blank {c : Char} (h : isBlank c = true) (rest : List Char) :
    skip (c :: rest) = skip rest := by
  simp [skip, h]

theorem skip_cons_of_not_blank {c : Char} (h : isBlank c = false) (rest : List Char) :
    skip (c :: rest) = c :: rest := by
  simp [skip, h]

theorem skip_lineAt (level : Nat) (rest : List Char) : skip (lineAt level ++ rest) = skip rest := by
  rw [lineAt, List.cons_append, skip_cons_of_blank (by decide)]
  induction 2 * level with
  | zero => rfl
  | succ n ih => rw [List.replicate_succ, List.cons_append, skip_cons_of_blank (by decide), ih]

theorem textValue_quoted (s : String) (rest : List Char) :
    textValue (' ' :: (quoted s ++ rest)) = .ok (s, rest) := by
  obtain ⟨text, heq, htext⟩ := stringBody_quoted s rest
  rw [heq, textValue, skip_cons_of_blank (by decide), skip_cons_of_not_blank (by decide)]
  simp [htext, Except.map, String.ofList_toList]

/-! ### Brackets -/

theorem flatten_intersperse (c : Char) (p : List Char) (ps : List (List Char)) :
    ((p :: ps).intersperse [c]).flatten = p ++ ps.flatMap (c :: ·) := by
  induction ps generalizing p with
  | nil => simp
  | cons q ps ih => simp [List.intersperse_cons_cons, ih]

theorem block_cons (first last : Char) (level : Nat) (p : List Char) (ps : List (List Char)) :
    block first last level (p :: ps) = first :: (lineAt (level + 1) ++ p ++
      (ps.flatMap fun q => ',' :: (lineAt (level + 1) ++ q)) ++ (lineAt level ++ [last])) := by
  simp [block, flatten_intersperse, List.flatMap_map]

theorem renderItems_eq (level : Nat) (items : List Json) :
    renderItems level items = items.map (·.render level) := by
  induction items with
  | nil => rfl
  | cons v items ih => rw [renderItems, ih, List.map_cons]

end Renaming.Json
