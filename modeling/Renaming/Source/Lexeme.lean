import Renaming.Source.Letter
import Renaming.Text.Blank

/-!
The reader of program text. It does not parse: it tells code, literals and comments apart, with
just enough memory to do so. A literal is a string, a piece of a template, or a regular
expression; the code inside a template's substitution is code again.

The reader takes one *lexeme* at a time: a whole comment or literal, or a single character of
code. Adjacent characters of code are joined into pieces in `Renaming.Source.Piece`.
-/

namespace Renaming.Source

open Renaming.Text (isBlank)

/-! ### Cutting a text in two -/

/-- A text cut in two. -/
structure Cut where
  /-- The part cut off. -/
  text : List Char
  /-- What follows it. -/
  rest : List Char
  deriving DecidableEq, Repr

namespace Cut

/-- The text that was cut. -/
def whole (s : Cut) : List Char := s.text ++ s.rest

/-- A cut one character further to the left. -/
def push (c : Char) (s : Cut) : Cut := { s with text := c :: s.text }

@[simp] theorem text_push (c : Char) (s : Cut) : (s.push c).text = c :: s.text := rfl
@[simp] theorem rest_push (c : Char) (s : Cut) : (s.push c).rest = s.rest := rfl

@[simp] theorem whole_push (c : Char) (s : Cut) : (s.push c).whole = c :: s.whole := rfl

end Cut

/-- A line comment after its first slash: up to the end of the line, which is not part of it. -/
def lineComment : List Char → Cut
  | [] => ⟨[], []⟩
  | c :: r => if c = '\n' then ⟨[], c :: r⟩ else (lineComment r).push c

/-- A block comment after its opening mark: up to and with the first closing mark. -/
def blockComment : List Char → Cut
  | [] => ⟨[], []⟩
  | '*' :: '/' :: r => ⟨['*', '/'], r⟩
  | c :: r => (blockComment r).push c

/-- A string after its opening quote `q`: up to and with the closing quote, or up to the end of
the line. `escaped` tells that a backslash stands before the text. -/
def quoted (q : Char) : (escaped : Bool) → List Char → Cut
  | _, [] => ⟨[], []⟩
  | true, c :: r => (quoted q false r).push c
  | false, c :: r =>
    if c = '\\' then (quoted q true r).push c
    else if c = '\n' then ⟨[], c :: r⟩
    else if c = q then ⟨[c], r⟩
    else (quoted q false r).push c

/-- A template after its opening mark: up to and with the closing backtick, or the opening of a
substitution. The flag tells which of the two ended it. -/
def template : (escaped : Bool) → List Char → Cut × Bool
  | _, [] => (⟨[], []⟩, false)
  | true, c :: r => let (s, b) := template false r; (s.push c, b)
  | false, c :: r =>
    if c = '\\' then let (s, b) := template true r; (s.push c, b)
    else if c = '\x60' then (⟨[c], r⟩, false)
    else
      match c, r with
      | '$', '{' :: u => (⟨['$', '{'], u⟩, true)
      | c, r => let (s, b) := template false r; (s.push c, b)

/-- A regular expression after its opening slash: up to the first slash outside a class of
characters, with the flags after it. There is none when the line ends first. -/
def regex : (escaped inClass : Bool) → List Char → Option Cut
  | _, _, [] => none
  | true, k, c :: r => (regex false k r).map (·.push c)
  | false, k, c :: r =>
    if c = '\\' then (regex true k r).map (·.push c)
    else if c = '\n' then none
    else if c = '[' then (regex false true r).map (·.push c)
    else if c = ']' then (regex false false r).map (·.push c)
    else if c = '/' && !k then some ⟨c :: r.takeWhile isFlag, r.dropWhile isFlag⟩
    else (regex false k r).map (·.push c)

/-! ### The reader -/

/-- What a stretch of the source is. -/
inductive Kind
  | code
  | literal
  | comment
  deriving DecidableEq, Repr

/-- An opening brace that is not closed yet: one of code, or one of a template's substitution. -/
inductive Brace
  | block
  | substitution
  deriving DecidableEq, Repr

/-- One step of the reader: a comment, a literal, or a single character of code. -/
structure Lexeme where
  kind : Kind
  text : List Char
  /-- The source after the lexeme. -/
  rest : List Char
  deriving DecidableEq, Repr

/-- What the reader remembers of the text it has read. -/
structure Reader where
  /-- The braces that are open, the innermost first. -/
  opened : List Brace
  /-- The text up to the last character that counts, read from its end. It is empty at the start
  and after the opening of a substitution. Blanks and comments do not count; a string counts by
  its opening quote and a regular expression by its last character. -/
  last : List Char
  /-- All the text so far, read from its end. -/
  before : List Char
  deriving DecidableEq, Repr

namespace Reader

/-- The reader at the start of a source. -/
def start : Reader := ⟨[], [], []⟩

/-- Whether a slash may open a regular expression here: not in a closing tag, and only where an
operand can start. -/
def allowsRegex (s : Reader) : Bool :=
  s.before.head? != some '<' &&
    match s.last with
    | [] => true
    | c :: r =>
      if isIdentifier c then regexKeywords.contains (lastWord isIdentifier (c :: r))
      else isOperator c

/-- The reader after a stretch of text. -/
def advance (s : Reader) (text : List Char) : Reader :=
  { s with before := text.reverse ++ s.before }

/-- The reader after one character of code. -/
def code (s : Reader) (c : Char) (r : List Char) : Lexeme × Reader :=
  (⟨.code, [c], r⟩,
    { s with
      last := if isBlank c then s.last else c :: s.before
      before := c :: s.before })

/-- The reader after a comment `c :: d :: cut.text`. -/
def comment (s : Reader) (c d : Char) (cut : Cut) : Lexeme × Reader :=
  (⟨.comment, c :: d :: cut.text, cut.rest⟩, s.advance (c :: d :: cut.text))

/-- The reader after a piece of a template that opened with `c`, where the braces around it are
`opened`. -/
def piece (s : Reader) (c : Char) (opened : List Brace) (cut : Cut) (substitution : Bool) :
    Lexeme × Reader :=
  (⟨.literal, c :: cut.text, cut.rest⟩,
    { opened := if substitution then .substitution :: opened else opened
      last := if substitution then [] else c :: s.before
      before := (c :: cut.text).reverse ++ s.before })

/-- The reader after a string that opened with the quote `c`. -/
def string (s : Reader) (c : Char) (cut : Cut) : Lexeme × Reader :=
  (⟨.literal, c :: cut.text, cut.rest⟩,
    { s with last := c :: s.before, before := (c :: cut.text).reverse ++ s.before })

/-- The reader after a regular expression. -/
def expression (s : Reader) (c : Char) (cut : Cut) : Lexeme × Reader :=
  let before := (c :: cut.text).reverse ++ s.before
  (⟨.literal, c :: cut.text, cut.rest⟩, { s with last := before, before })

/-- Reads a lexeme off the text `c :: r`. -/
def next (s : Reader) (c : Char) (r : List Char) : Lexeme × Reader :=
  match c, r with
  | '/', '/' :: u => s.comment '/' '/' (lineComment u)
  | '/', '*' :: u => s.comment '/' '*' (blockComment u)
  | '/', r =>
    if s.allowsRegex then
      match regex false false r with
      | some cut => s.expression '/' cut
      | none => s.code '/' r
    else s.code '/' r
  | '\'', r => s.string '\'' (quoted '\'' false r)
  | '"', r => s.string '"' (quoted '"' false r)
  | '\x60', r => let (cut, b) := template false r; s.piece '\x60' s.opened cut b
  | '{', r => { s with opened := .block :: s.opened }.code '{' r
  | '}', r =>
    match s.opened with
    | .substitution :: opened => let (cut, b) := template false r; s.piece '}' opened cut b
    | opened => { s with opened := opened.tail }.code '}' r
  | c, r => s.code c r

end Reader

/-! ### Nothing is lost -/

theorem whole_lineComment (r : List Char) : (lineComment r).whole = r := by
  induction r with
  | nil => rfl
  | cons c r ih => unfold lineComment; split <;> simp_all [Cut.whole]

theorem whole_blockComment (r : List Char) : (blockComment r).whole = r := by
  fun_induction blockComment r with
  | case1 => rfl
  | case2 => rfl
  | case3 c r _ ih => simp [ih]

theorem whole_quoted (q : Char) (e : Bool) (r : List Char) : (quoted q e r).whole = r := by
  fun_induction quoted q e r <;> simp_all [Cut.whole]

theorem whole_template (e : Bool) (r : List Char) : (template e r).1.whole = r := by
  fun_induction template e r <;> simp_all [Cut.whole]

theorem whole_regex {e k : Bool} {r : List Char} {s : Cut} (h : regex e k r = some s) :
    s.whole = r := by
  fun_induction regex e k r generalizing s with
  | case1 => simp at h
  | case2 k c r ih => obtain ⟨t, ht, rfl⟩ := Option.map_eq_some_iff.1 h; simp [ih ht]
  | case3 k r ih => obtain ⟨t, ht, rfl⟩ := Option.map_eq_some_iff.1 h; simp [ih ht]
  | case4 => simp at h
  | case5 k r _ _ ih => obtain ⟨t, ht, rfl⟩ := Option.map_eq_some_iff.1 h; simp [ih ht]
  | case6 k r _ _ _ ih => obtain ⟨t, ht, rfl⟩ := Option.map_eq_some_iff.1 h; simp [ih ht]
  | case7 k c r _ _ _ _ hc =>
    obtain rfl := Option.some.inj h
    simp [Cut.whole, List.takeWhile_append_dropWhile]
  | case8 k c r _ _ _ _ _ ih => obtain ⟨t, ht, rfl⟩ := Option.map_eq_some_iff.1 h; simp [ih ht]

namespace Reader

/-- A lexeme and what follows it make up the text it was read from. -/
theorem next_whole (s : Reader) (c : Char) (r : List Char) :
    (s.next c r).1.text ++ (s.next c r).1.rest = c :: r := by
  unfold next
  split
  · simpa [comment, Cut.whole] using whole_lineComment _
  · simpa [comment, Cut.whole] using whole_blockComment _
  · split
    · split
      · next h => simpa [expression, Cut.whole] using whole_regex h
      · rfl
    · rfl
  · simpa [string, Cut.whole] using whole_quoted _ _ _
  · simpa [string, Cut.whole] using whole_quoted _ _ _
  · simpa [piece, Cut.whole] using whole_template _ _
  · rfl
  · split
    · simpa [piece, Cut.whole] using whole_template _ _
    · rfl
  · rfl

/-- No lexeme is empty. -/
theorem next_text_ne_nil (s : Reader) (c : Char) (r : List Char) : (s.next c r).1.text ≠ [] := by
  unfold next
  split <;> (try split) <;> (try split) <;> simp [comment, expression, code, string, piece]

theorem next_rest_length_lt (s : Reader) (c : Char) (r : List Char) :
    (s.next c r).1.rest.length < (c :: r).length := by
  have h := congrArg List.length (s.next_whole c r)
  have h' := List.length_pos_iff.2 (s.next_text_ne_nil c r)
  rw [List.length_append] at h
  omega

end Reader

/-- The lexemes of a text, read from the state `s` on. -/
def lexemes (s : Reader) : List Char → List Lexeme
  | [] => []
  | c :: r => (s.next c r).1 :: lexemes (s.next c r).2 (s.next c r).1.rest
termination_by cs => cs.length
decreasing_by exact s.next_rest_length_lt c r

theorem lexemes_nil (s : Reader) : lexemes s [] = [] := by simp [lexemes]

theorem lexemes_cons (s : Reader) (c : Char) (r : List Char) :
    lexemes s (c :: r) = (s.next c r).1 :: lexemes (s.next c r).2 (s.next c r).1.rest := by
  rw [lexemes]

/-- The texts of the lexemes, one after the other, are the source. -/
theorem flatMap_text_lexemes (s : Reader) (cs : List Char) :
    (lexemes s cs).flatMap Lexeme.text = cs := by
  fun_induction lexemes s cs with
  | case1 => rfl
  | case2 s c r ih => rw [List.flatMap_cons, ih, s.next_whole]

end Renaming.Source
