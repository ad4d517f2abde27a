import Renaming.Yaml.Problem

/-!
A place in a YAML text, and the classes of characters that its grammar tells apart.
-/

namespace Renaming.Yaml

/-- Space and tab. -/
def isBlank (c : Char) : Bool := c == ' ' || c == '\t'

/-- The characters that end a line. -/
def isBreak (c : Char) : Bool :=
  c == '\n' || c == '\r' || c == '\x85' || c == '\u2028' || c == '\u2029'

/-- The characters of names: ASCII letters and digits, hyphen and underscore. -/
def isNameChar (c : Char) : Bool := c.isAlphanum || c == '-' || c == '_'

/-- The mark that tells the order of bytes in a text. -/
def orderMark : Char := '\uFEFF'

/-- The characters that a text may hold at all. -/
def isAllowed (c : Char) : Bool :=
  let n := c.toNat
  n == 0x09 || n == 0x0A || n == 0x0D || (0x20 ≤ n && n ≤ 0x7E) || n == 0x85 ||
    (0xA0 ≤ n && n ≤ 0xFFFD) || 0x10000 ≤ n

/-- Whether the text ends here, or a blank or a line break comes next. -/
def atGap (text : List Char) : Bool :=
  match text with
  | [] => true
  | c :: _ => isBlank c || isBreak c

/-- Whether the text ends here, or a line break comes next. -/
def atLineEnd (text : List Char) : Bool :=
  match text with
  | [] => true
  | c :: _ => isBreak c

/-- Whether a line with this text starts or ends a document. -/
def atDocumentMark (text : List Char) : Bool :=
  match text with
  | '-' :: '-' :: '-' :: rest | '.' :: '.' :: '.' :: rest => atGap rest
  | _ => false

/-- A place in a text: what follows it, the number of characters before it, its line, and the
number of characters before it on that line. -/
structure Cursor where
  rest : List Char
  index : Nat := 0
  line : Nat := 0
  column : Nat := 0

namespace Cursor

/-- The place some characters of the line further on. -/
def skip (c : Cursor) (n : Nat) : Cursor :=
  { c with rest := c.rest.drop n, index := c.index + n, column := c.column + n }

/-- The characters of a class that come next, and the place behind them. -/
def takeWhile (c : Cursor) (p : Char → Bool) : List Char × Cursor :=
  let run := c.rest.takeWhile p
  (run, c.skip run.length)

/-- The place behind the characters of a class that come next. -/
def skipWhile (c : Cursor) (p : Char → Bool) : Cursor := (c.takeWhile p).2

/-- The place at the start of the next line, `n` characters further on. -/
def newLine (c : Cursor) (n : Nat) : Cursor :=
  { rest := c.rest.drop n, index := c.index + n, line := c.line + 1, column := 0 }

/-- The line break that comes next, as it counts in a scalar, and the place behind it. -/
def lineBreak (c : Cursor) : List Char × Cursor :=
  match c.rest with
  | '\r' :: '\n' :: _ => (['\n'], c.newLine 2)
  | '\r' :: _ | '\n' :: _ | '\x85' :: _ => (['\n'], c.newLine 1)
  | '\u2028' :: _ => (['\u2028'], c.newLine 1)
  | '\u2029' :: _ => (['\u2029'], c.newLine 1)
  | _ => ([], c)

/-- The place behind a comment, if one comes next. -/
def skipComment (c : Cursor) : Cursor :=
  match c.rest with
  | '#' :: _ => c.skipWhile (!isBreak ·)
  | _ => c

/-- The place behind a byte order mark, if one starts the line. -/
def skipOrderMark (c : Cursor) : Cursor :=
  if c.column = 0 ∧ c.rest.head? = some orderMark then c.skip 1 else c

/-- Whether a line that starts or ends a document begins here. -/
def atMark (c : Cursor) : Bool := c.column == 0 && atDocumentMark c.rest

end Cursor

end Renaming.Yaml
