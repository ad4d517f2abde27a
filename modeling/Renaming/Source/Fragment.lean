import Renaming.Source.Site

/-!
A source as a sequence of fragments: the places where a name may be renamed, and the text between
them that is always kept.
-/

namespace Renaming.Source

/-- A part of a source. -/
inductive Fragment
  /-- Text that is kept. -/
  | kept (text : List Char)
  /-- A place where a name may be renamed. -/
  | place (site : Site)
  deriving DecidableEq, Repr

namespace Fragment

/-- The text of a fragment in the source. -/
def text : Fragment → List Char
  | kept text => text
  | place site => site.name.toList

end Fragment

/-- Whether a lexeme is a character of a word of the code. -/
def Lexeme.isWord (l : Lexeme) : Bool :=
  l.kind == .code && l.text.all Source.isWord

/-- The content of a lexeme that is a closed string. -/
def Lexeme.content? (l : Lexeme) : Option (List Char) :=
  if l.kind = .literal then inner? l.text else none

/-- The source from the first of the lexemes on. -/
def remaining : List Lexeme → List Char
  | [] => []
  | l :: _ => l.text ++ l.rest

/-- The fragments of lexemes that follow the text `before`, which is read backwards. A word of the
code is a run of its characters that is as long as possible; one that starts with a digit is a
number and no name. -/
def fragments (before : List Mark) : List Lexeme → List Fragment
  | [] => []
  | l :: ls =>
    if l.isWord then
      let run := l :: ls.takeWhile Lexeme.isWord
      let tail := ls.dropWhile Lexeme.isWord
      let word := run.flatMap Lexeme.text
      let fragment :=
        if (word.head?.map Char.isDigit).getD true then .kept word
        else .place ⟨String.ofList word, true, before, remaining tail⟩
      fragment :: fragments ((run.flatMap Lexeme.marks).reverse ++ before) tail
    else
      let rest := fragments (l.marks.reverse ++ before) ls
      match l.content? with
      | some content =>
        .kept (l.text.take 1) :: .place ⟨String.ofList content, false, before, l.rest⟩ ::
          .kept (l.text.take 1) :: rest
      | none => .kept l.text :: rest
termination_by ls => ls.length
decreasing_by
  · exact Nat.lt_succ_of_le (List.dropWhile_sublist _).length_le
  · exact Nat.lt_succ_self _

/-- The fragments of a source. -/
def fragmentsOf (source : List Char) : List Fragment := fragments [] (lexemes .start source)

/-! ### Nothing is lost -/

theorem flatMap_text_fragments (before : List Mark) (ls : List Lexeme) :
    (fragments before ls).flatMap Fragment.text = ls.flatMap Lexeme.text := by
  fun_induction fragments before ls with
  | case1 => rfl
  | case2 before l ls hw run tail word fragment ih =>
    have hf : fragment.text = word := by
      simp only [fragment]
      split <;> simp [Fragment.text]
    rw [List.flatMap_cons, ih, hf]
    simp only [word, run, tail]
    rw [← List.flatMap_append, List.cons_append, List.takeWhile_append_dropWhile]
  | case3 before l ls hw rest content hc ih =>
    have hl : inner? l.text = some content := by
      unfold Lexeme.content? at hc
      split at hc
      · exact hc
      · simp at hc
    obtain ⟨q, -, hq⟩ := eq_cons_append_of_inner? hl
    have hq' : l.text.take 1 = [q] := by rw [hq]; rfl
    simp only [List.flatMap_cons, Fragment.text, rest, ih, hq', String.toList_ofList]
    rw [hq]
    simp
  | case4 before l ls hw rest hc ih =>
    simp only [List.flatMap_cons, Fragment.text, rest, ih]

/-- The texts of the fragments, one after the other, are the source. -/
theorem flatMap_text_fragmentsOf (source : List Char) :
    (fragmentsOf source).flatMap Fragment.text = source := by
  rw [fragmentsOf, flatMap_text_fragments, flatMap_text_lexemes]

end Renaming.Source
