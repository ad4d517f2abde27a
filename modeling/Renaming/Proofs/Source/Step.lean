import Renaming.Proofs.Source.Alike

/-!
The steps of a reader. `Reads` has one case for each thing that is read, and `Reader.reads_next` and
`Reads.next_eq` say that it is what `Reader.next` does. Whether a slash opens a regular expression
depends on the text in front of it through `operandAfter`.
-/

namespace Renaming.Source

/-! ### Operands -/

/-- Whether an operand can follow the text `last`, which is read from its end. -/
def operandAfter : (last : List Char) → Bool
  | [] => true
  | c :: r =>
    if isIdentifier c then regexKeywords.contains (lastWord isIdentifier (c :: r)) else isOperator c

theorem Reader.allowsRegex_eq (s : Reader) :
    s.allowsRegex = (s.before.head? != some '<' && operandAfter s.last) := by
  obtain ⟨opened, last, before⟩ := s
  cases last <;> rfl

theorem operandAfter_congr {l l' : List Char} (hhead : l.head? = l'.head?)
    (hrun : l.takeWhile isIdentifier = l'.takeWhile isIdentifier) :
    operandAfter l = operandAfter l' := by
  rcases l with _ | ⟨c, r⟩ <;> rcases l' with _ | ⟨c', r'⟩
  · rfl
  · cases hhead
  · cases hhead
  · obtain rfl : c = c' := by simpa using hhead
    simp only [operandAfter, lastWord, hrun]

theorem operandAfter_of_not_isWord {c : Char} (h : isWord c = false) (r : List Char) :
    operandAfter (c :: r) = isOperator c := by
  have hc : isIdentifier c = false := by
    simp only [isWord, Bool.or_eq_false_iff] at h
    exact h.1
  simp [operandAfter, hc]

theorem lastWord_append {p : Char → Bool} {w : List Char} (hw : ∀ c ∈ w, p c = true)
    (a : List Char) :
    lastWord p (w.reverse ++ a) = String.ofList ((a.takeWhile p).reverse ++ w) := by
  rw [lastWord, List.takeWhile_append_of_pos fun c hc => hw c (List.mem_reverse.1 hc)]
  simp

/-- What follows a name is the operand of its keyword. -/
theorem operandAfter_word {w : List Char} (hw : IsName w) (a : List Char) :
    operandAfter (w.reverse ++ a) =
      regexKeywords.contains (String.ofList ((a.takeWhile isIdentifier).reverse ++ w)) := by
  rw [← lastWord_append hw.isIdentifier a]
  cases hr : w.reverse ++ a with
  | nil =>
    have := List.reverse_eq_nil_iff.1 (List.append_eq_nil_iff.1 hr).1
    exact absurd this hw.ne_nil
  | cons c r =>
    have hc : isIdentifier c = true := by
      obtain ⟨d, t, ht⟩ := List.exists_cons_of_ne_nil (mt List.reverse_eq_nil_iff.1 hw.ne_nil)
      rw [ht, List.cons_append, List.cons.injEq] at hr
      exact hw.isIdentifier c (by rw [← List.mem_reverse, ht, hr.1]; exact List.mem_cons_self ..)
    simp [operandAfter, hc]

/-! ### The steps of a reader -/

/-- The step of a reader at the text `c :: r`, one case for each thing that it reads. -/
inductive Reads (s : Reader) : (c : Char) → (r : List Char) → Lexeme × Reader → Prop
  | line (u : List Char) : Reads s '/' ('/' :: u) (s.comment '/' '/' (lineComment u))
  | block (u : List Char) : Reads s '/' ('*' :: u) (s.comment '/' '*' (blockComment u))
  | regex {r : List Char} (cut : Cut) : (∀ c ∈ r.head?, c ≠ '/' ∧ c ≠ '*') → s.allowsRegex = true →
    regex false false r = some cut → Reads s '/' r (s.expression '/' cut)
  | slash {r : List Char} : (∀ c ∈ r.head?, c ≠ '/' ∧ c ≠ '*') →
    (s.allowsRegex = true → Source.regex false false r = none) → Reads s '/' r (s.code '/' r)
  | string {q : Char} {r : List Char} : q = '\'' ∨ q = '"' →
    Reads s q r (s.string q (quoted q false r))
  | template (r : List Char) : Reads s '\x60' r
    (s.piece '\x60' s.opened (Source.template false r).1 (Source.template false r).2)
  | resume {r : List Char} (opened : List Brace) : s.opened = .substitution :: opened →
    Reads s '}' r (s.piece '}' opened (Source.template false r).1 (Source.template false r).2)
  | openBrace (r : List Char) : Reads s '{' r ({ s with opened := .block :: s.opened }.code '{' r)
  | closeBrace {r : List Char} : (∀ opened, s.opened ≠ .substitution :: opened) →
    Reads s '}' r ({ s with opened := s.opened.tail }.code '}' r)
  | mark {c : Char} {r : List Char} : (∀ d ∈ ['/', '\'', '"', '\x60', '{', '}'], c ≠ d) →
    Reads s c r (s.code c r)

theorem Reader.next_slash (s : Reader) {r : List Char} (h : ∀ c ∈ r.head?, c ≠ '/' ∧ c ≠ '*') :
    s.next '/' r =
      if s.allowsRegex then
        match regex false false r with
        | some cut => s.expression '/' cut
        | none => s.code '/' r
      else s.code '/' r := by
  rcases r with _ | ⟨c, r⟩
  · rfl
  · obtain ⟨h1, h2⟩ := h c rfl
    unfold Reader.next
    split
    · next h => exact absurd (List.cons.inj h).1 h1
    · next h => exact absurd (List.cons.inj h).1 h2
    · rfl
    all_goals simp_all

theorem Reader.reads_next (s : Reader) (c : Char) (r : List Char) : Reads s c r (s.next c r) := by
  unfold Reader.next
  split
  · exact .line _
  · exact .block _
  · next h1 h2 =>
    have hr : ∀ d ∈ r.head?, d ≠ '/' ∧ d ≠ '*' := by
      intro d hd
      obtain ⟨u, rfl⟩ := List.head?_eq_some_iff.1 (Option.mem_def.1 hd)
      exact ⟨fun h => h1 u (by rw [h]), fun h => h2 u (by rw [h])⟩
    split
    · next ha =>
      split
      · next cut hcut => exact .regex cut hr ha hcut
      · next hcut => exact .slash hr fun _ => hcut
    · next ha => exact .slash hr fun ha' => absurd ha' ha
  · exact .string (.inl rfl)
  · exact .string (.inr rfl)
  · exact .template _
  · exact .openBrace _
  · split
    · next opened ho => exact .resume opened ho
    · next ho => exact .closeBrace ho
  · next h1 h2 h3 h4 h5 h6 h7 h8 =>
    refine .mark fun d hd => ?_
    simp only [List.mem_cons, List.not_mem_nil, or_false] at hd
    rcases hd with rfl | rfl | rfl | rfl | rfl | rfl
    · exact h1
    · exact h2
    · exact h3
    · exact h4
    · exact h5
    · exact h6

theorem Reads.next_eq {s : Reader} {c : Char} {r : List Char} {o : Lexeme × Reader}
    (h : Reads s c r o) : s.next c r = o := by
  cases h with
  | line u => rfl
  | block u => rfl
  | regex cut hr ha hcut => simp [s.next_slash hr, ha, hcut]
  | slash hr ha =>
    rw [s.next_slash hr]
    split
    · next ha' => rw [ha ha']
    · rfl
  | string hq => rcases hq with rfl | rfl <;> rfl
  | template r => rfl
  | resume opened ho => simp [Reader.next, ho]
  | openBrace r => rfl
  | closeBrace ho => simp only [Reader.next]
  | mark hm =>
    unfold Reader.next
    split
    case h_9 => rfl
    all_goals exact absurd rfl (hm _ (by decide))

theorem Reads.next_before {s : Reader} {c : Char} {r : List Char} {o : Lexeme × Reader}
    (h : Reads s c r o) : o.2.before = o.1.text.reverse ++ s.before := by
  cases h <;> simp [Reader.comment, Reader.advance, Reader.expression, Reader.code, Reader.string,
    Reader.piece]

end Renaming.Source
