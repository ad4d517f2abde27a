import Renaming.Source.Lexeme

/-!
The pieces of a source: its comments, its literals, and between them its code in stretches that
are as long as possible. The pieces hold their texts, so positions are sums of lengths.
-/

namespace Renaming.Source

/-- A stretch of the source with what it is. -/
structure Piece where
  kind : Kind
  text : List Char
  deriving DecidableEq, Repr

/-- A lexeme in front of pieces: code is joined to code. -/
def Piece.attach (l : Lexeme) : List Piece → List Piece
  | [] => [⟨l.kind, l.text⟩]
  | p :: ps =>
    if l.kind = .code ∧ p.kind = .code then ⟨.code, l.text ++ p.text⟩ :: ps
    else ⟨l.kind, l.text⟩ :: p :: ps

/-- The lexemes with adjacent code joined. -/
def join (ls : List Lexeme) : List Piece := ls.foldr Piece.attach []

/-- The pieces of a source. -/
def pieces (source : List Char) : List Piece := join (lexemes .start source)

/-- The length of a text in bytes of UTF-8. -/
def byteLength (text : List Char) : Nat := (String.ofList text).utf8ByteSize

@[simp] theorem byteLength_nil : byteLength [] = 0 := by simp [byteLength]

@[simp] theorem byteLength_append (a b : List Char) :
    byteLength (a ++ b) = byteLength a + byteLength b := by
  simp [byteLength, String.ofList_append]

/-- The pieces with the byte positions at which they start and end. -/
def located (start : Nat) : List Piece → List (Piece × Nat × Nat)
  | [] => []
  | p :: ps =>
    let stop := start + byteLength p.text
    (p, start, stop) :: located stop ps

/-- The marks that may delimit a string. -/
def isQuote (c : Char) : Bool := c == '\'' || c == '"' || c == '\x60'

/-- The text between the delimiters of a string that is closed: it starts and ends with the same
quote, and the last quote is not escaped. -/
def inner? (text : List Char) : Option (List Char) :=
  match text with
  | [] => none
  | q :: r =>
    match r.reverse with
    | [] => none
    | z :: m =>
      if q = z ∧ isQuote q ∧ (m.takeWhile (· == '\\')).length % 2 = 0 then some m.reverse
      else none

/-- The content of a piece that is a closed string, or a template without substitutions. -/
def Piece.content? (p : Piece) : Option (List Char) :=
  if p.kind = .literal then inner? p.text else none

/-! ### Nothing is lost -/

theorem flatMap_text_attach (l : Lexeme) (ps : List Piece) :
    (Piece.attach l ps).flatMap Piece.text = l.text ++ ps.flatMap Piece.text := by
  unfold Piece.attach
  split
  · simp
  · split <;> simp

theorem flatMap_text_join (ls : List Lexeme) :
    (join ls).flatMap Piece.text = ls.flatMap Lexeme.text := by
  induction ls with
  | nil => rfl
  | cons l ls ih =>
    change (Piece.attach l (join ls)).flatMap Piece.text = _
    rw [flatMap_text_attach, ih, List.flatMap_cons]

/-- The texts of the pieces, one after the other, are the source. -/
theorem flatMap_text_pieces (source : List Char) :
    (pieces source).flatMap Piece.text = source := by
  rw [pieces, flatMap_text_join, flatMap_text_lexemes]

theorem eq_cons_append_of_inner? {text m : List Char} (h : inner? text = some m) :
    ∃ q, isQuote q = true ∧ text = q :: (m ++ [q]) := by
  unfold inner? at h
  split at h
  · simp at h
  · next q r =>
    split at h
    · simp at h
    · next z k hk =>
      split at h
      · next hq =>
        obtain rfl := Option.some.inj h
        refine ⟨q, hq.2.1, ?_⟩
        have := congrArg List.reverse hk
        simp only [List.reverse_reverse, List.reverse_cons] at this
        rw [this, hq.1]
      · simp at h

end Renaming.Source
