import Mathlib.Data.List.SplitBy
import Renaming.Text.Words

/-!
Words between quotes. Every word can be written in a command line: its runs without single quotes
between single quotes, and each single quote between double ones (`quoted`). Whatever the words are,
and whatever white space separates them, they are read as they were written (`words_line`).
-/

namespace Renaming.Text

variable {q : Char} {word : Option (List Char)} {w run part gap rest : List Char}
  {parts : List (List Char)}

/-! ### Writing words -/

/-- A part of a word between two quotes, of the kind that is not in it. -/
def quotedPart (part : List Char) : List Char :=
  let q := if part = ['\''] then '"' else '\''
  q :: part ++ [q]

/-- The longest runs of a word without single quotes, and its single quotes one by one. -/
def partsOf (w : List Char) : List (List Char) := w.splitBy fun a b => a != '\'' && b != '\''

/-- A word between quotes. The empty word is a pair of quotes. -/
def quoted (w : List Char) : List Char :=
  if w = [] then quotedPart [] else (partsOf w).flatMap quotedPart

/-- White space between two words. -/
structure Gap where
  text : List Char
  ne_nil : text ≠ []
  isWhite : ∀ c ∈ text, isWhite c = true

/-- Words between quotes, with a gap behind each but the last. -/
def joined (gaps : Nat → Gap) : List (List Char) → List Char
  | [] => []
  | [w] => quoted w
  | w :: v :: rest => quoted w ++ ((gaps 0).text ++ joined (fun n => gaps (n + 1)) (v :: rest))

/-- The command line of some words. -/
def line (gaps : Nat → Gap) (ws : List String) : String :=
  String.ofList (joined gaps (ws.map String.toList))

/-! ### Reading parts -/

theorem wordsFrom_run (h : q ∉ run) : wordsFrom (some q) (some w) (run ++ q :: rest) =
    wordsFrom none (some (run.reverse ++ w)) rest := by
  induction run generalizing w with
  | nil => simp [wordsFrom]
  | cons c run ih =>
    obtain ⟨hc, hrun⟩ := not_or.1 (mt List.mem_cons.2 h)
    rw [List.cons_append, wordsFrom]
    simp [Ne.symm hc, ih hrun]

theorem wordsFrom_quotedPart (h : part = ['\''] ∨ '\'' ∉ part) :
    wordsFrom none word (quotedPart part ++ rest) =
      wordsFrom none (some (part.reverse ++ word.getD [])) rest := by
  have hopen : ∀ q, q = '\'' ∨ q = '"' → q ∉ part →
      wordsFrom none word (q :: part ++ [q] ++ rest) =
        wordsFrom none (some (part.reverse ++ word.getD [])) rest := by
    intro q hq hmem
    rw [List.append_assoc, List.cons_append, wordsFrom]
    simp only [if_pos hq]
    exact wordsFrom_run hmem
  unfold quotedPart
  split
  next heq => exact hopen '"' (.inr rfl) (by simp [heq])
  next hne => exact hopen '\'' (.inl rfl) (h.resolve_left hne)

theorem forall_mem_of_isChain {p : Char → Bool} {c d : Char} {cs : List Char}
    (h : List.IsChain (fun a b => (p a && p b) = true) (c :: d :: cs)) :
    ∀ x ∈ c :: d :: cs, p x = true := by
  induction cs generalizing c d with
  | nil => simpa using h
  | cons e cs ih =>
    obtain ⟨hfirst, hrest⟩ := List.isChain_cons_cons.1 h
    rw [Bool.and_eq_true] at hfirst
    exact List.forall_mem_cons.2 ⟨hfirst.1, ih hrest⟩

theorem eq_or_not_mem_of_mem_partsOf (h : part ∈ partsOf w) : part = ['\''] ∨ '\'' ∉ part := by
  have hchain := List.isChain_of_mem_splitBy h
  match part with
  | [] => exact .inr List.not_mem_nil
  | [c] =>
    by_cases hc : c = '\''
    · exact .inl (by rw [hc])
    · exact .inr (by simpa using Ne.symm hc)
  | c :: d :: part =>
    refine .inr fun hmem => ?_
    simpa using forall_mem_of_isChain (p := (· != '\'')) hchain _ hmem

theorem wordsFrom_parts (hne : parts ≠ []) (h : ∀ part ∈ parts, part = ['\''] ∨ '\'' ∉ part) :
    wordsFrom none word (parts.flatMap quotedPart ++ rest) =
      wordsFrom none (some (parts.flatten.reverse ++ word.getD [])) rest := by
  induction parts generalizing word with
  | nil => exact absurd rfl hne
  | cons part parts ih =>
    obtain ⟨hpart, hparts⟩ := List.forall_mem_cons.1 h
    rw [List.flatMap_cons, List.append_assoc, wordsFrom_quotedPart hpart]
    by_cases hlast : parts = []
    · simp [hlast]
    · rw [ih hlast hparts]
      simp

/-- A word between quotes is read as the word. -/
theorem wordsFrom_quoted (w rest : List Char) :
    wordsFrom none none (quoted w ++ rest) = wordsFrom none (some w.reverse) rest := by
  unfold quoted
  split
  next hempty =>
    rw [wordsFrom_quotedPart (.inr List.not_mem_nil), hempty]
    rfl
  next hne =>
    have hparts : partsOf w ≠ [] := List.splitBy_ne_nil.2 hne
    rw [wordsFrom_parts hparts fun _ => eq_or_not_mem_of_mem_partsOf, partsOf,
      List.flatten_splitBy, Option.getD_none, List.append_nil]

/-! ### Reading lines -/

theorem not_quote_of_isWhite {c : Char} (h : isWhite c = true) : ¬(c = '\'' ∨ c = '"') := by
  rintro (rfl | rfl) <;> exact absurd h (by decide)

theorem wordsFrom_white (h : ∀ c ∈ gap, isWhite c = true) :
    wordsFrom none none (gap ++ rest) = wordsFrom none none rest := by
  induction gap with
  | nil => rfl
  | cons c gap ih =>
    obtain ⟨hc, hgap⟩ := List.forall_mem_cons.1 h
    rw [List.cons_append, wordsFrom]
    simp [not_quote_of_isWhite hc, hc, ih hgap]

theorem wordsFrom_gap (gap : Gap) (w rest : List Char) :
    wordsFrom none (some w) (gap.text ++ rest) = w.reverse :: wordsFrom none none rest := by
  obtain ⟨c, cs, htext⟩ := List.exists_cons_of_ne_nil gap.ne_nil
  obtain ⟨hc, hcs⟩ := List.forall_mem_cons.1 (htext ▸ gap.isWhite)
  rw [htext, List.cons_append, wordsFrom]
  simp [not_quote_of_isWhite hc, hc, wordsFrom_white hcs]

theorem wordsFrom_joined (gaps : Nat → Gap) (ws : List (List Char)) :
    wordsFrom none none (joined gaps ws) = ws := by
  induction ws generalizing gaps with
  | nil => rfl
  | cons w ws ih =>
    cases ws with
    | nil =>
      have hquoted := wordsFrom_quoted w []
      rw [List.append_nil] at hquoted
      rw [joined, hquoted]
      simp [wordsFrom]
    | cons v ws =>
      rw [joined, wordsFrom_quoted, wordsFrom_gap, ih, List.reverse_reverse]

/-- **What is quoted is read as it was**: of words between quotes, whatever characters stand in
them, and with any white space between them, the words of the command line are these words. -/
theorem words_line (gaps : Nat → Gap) (ws : List String) : words (line gaps ws) = ws := by
  rw [words, line, String.toList_ofList, wordsFrom_joined, List.map_map]
  simp

/-- A word with a single quote in it, the empty word, and one with white space in it. -/
example : words "'it'\"'\"'s' ''\t 'x y'" = ["it's", "", "x y"] := by decide +kernel

end Renaming.Text
