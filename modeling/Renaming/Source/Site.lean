import Renaming.Source.Piece

/-!
The places of a source where a name may be renamed, and the tests of what surrounds a place.

What precedes a place is kept as a list of marks read from the place backwards: each character
with whether it is code. The tests that look for brackets see the code only, the tests that look
at the nearest character see all of it.
-/

namespace Renaming.Source

open Renaming.Text (isBlank)

/-- A character of the source, and whether it stands in code. -/
structure Mark where
  char : Char
  inCode : Bool
  deriving DecidableEq, Repr

/-- The characters of a lexeme, marked. -/
def Lexeme.marks (l : Lexeme) : List Mark := l.text.map (⟨·, l.kind = .code⟩)

/-- A place where a name may be renamed: a word of the code, or the content of a closed string. -/
structure Site where
  /-- The text that may be renamed. -/
  name : String
  /-- Whether it is a word of the code. -/
  inCode : Bool
  /-- What precedes the word, or the string with its quotes, from there backwards. -/
  before : List Mark
  /-- What follows the word, or the string with its quotes. -/
  after : List Char
  deriving DecidableEq, Repr

/-! ### What surrounds a place -/

/-- The text from the nearest character on that is no blank. -/
def skipBlanks (cs : List Char) : List Char := cs.dropWhile isBlank

/-- The marks from the nearest one on that is no blank. -/
def skipBlankMarks (ms : List Mark) : List Mark := ms.dropWhile (isBlank ·.char)

def isOpener (c : Char) : Bool := c == '(' || c == '[' || c == '{'

def isCloser (c : Char) : Bool := c == ')' || c == ']' || c == '}'

/-- The innermost bracket of the code that is open here, where `depth` closing brackets have been
met and not yet matched on the way back. -/
def innermost : (depth : Nat) → List Mark → Option Char
  | _, [] => none
  | depth, m :: ms =>
    if !m.inCode then innermost depth ms
    else if isCloser m.char then innermost (depth + 1) ms
    else if isOpener m.char then
      match depth with
      | 0 => some m.char
      | depth + 1 => innermost depth ms
    else innermost depth ms

/-- Whether a colon follows that is not the first of two, possibly after a question mark that
touches it. -/
def colonFollows (after : List Char) : Bool :=
  match skipBlanks after with
  | ':' :: r => r.head? != some ':'
  | '?' :: ':' :: r => r.head? != some ':'
  | _ => false

/-- Whether an entry of an object can start here: at the start of the source, after an opening
brace, or after a separator directly inside a brace. -/
def entryStarts (before : List Mark) : Bool :=
  match skipBlankMarks before with
  | [] => true
  | m :: _ =>
    m.char == '{' || ((m.char == ',' || m.char == ';') && innermost 0 before == some '{')

/-- Whether the less-than sign with `before` in front of it and `next` behind it opens a tag: a
name follows, and it stands where an operand can start. -/
def opensTag (next : Option Char) (before : List Mark) : Bool :=
  (match next with
    | none => false
    | some c => c.isAlpha || c == '_' || c == '$') &&
  match skipBlankMarks before with
  | [] => true
  | m :: ms =>
    if isWord m.char then lastWord isWord ((m :: ms).map Mark.char) == "return"
    else m.char != ')' && m.char != ']'

/-- Whether the place stands inside a tag, between its name and its closing sign. Groups in braces
are passed over, `depth` of them being open on the way back; `next` is the character behind the
marks that are left. -/
def insideTag : (depth : Nat) → (next : Option Char) → List Mark → Bool
  | _, _, [] => false
  | depth, next, m :: ms =>
    if !m.inCode then insideTag depth (some m.char) ms
    else if m.char = '}' then insideTag (depth + 1) (some m.char) ms
    else
      match depth with
      | depth + 1 => insideTag (if m.char = '{' then depth else depth + 1) (some m.char) ms
      | 0 =>
        if m.char = '{' then false
        else if m.char = '<' then opensTag next ms
        else if ">;()[]".toList.contains m.char then false
        else insideTag 0 (some m.char) ms

/-- Whether an assignment follows that is neither a comparison nor an arrow. -/
def assignmentFollows (after : List Char) : Bool :=
  match skipBlanks after with
  | '=' :: r => r.head? != some '=' && r.head? != some '>'
  | _ => false

/-- Whether an attribute of a tag can start here: after a blank that follows a string, a closing
brace, or a word that introduces no declaration. -/
def attributeStarts (before : List Mark) : Bool :=
  (match before with
    | [] => false
    | m :: _ => isBlank m.char) &&
  match skipBlankMarks before with
  | [] => false
  | m :: ms =>
    m.char == '"' || m.char == '\'' || m.char == '}' ||
      (isWord m.char &&
        !declarationKeywords.contains (lastWord isWord ((m :: ms).map Mark.char)))

namespace Site

/-- Whether the place is a key of an object, or a field of a type. -/
def isKey (s : Site) : Bool := colonFollows s.after && entryStarts s.before

/-- Whether the place is the name of an attribute of a tag. -/
def isAttribute (s : Site) : Bool :=
  assignmentFollows s.after && attributeStarts s.before &&
    insideTag 0 s.name.toList.head? s.before

/-- The line of the place, the first line being line 1. -/
def line (s : Site) : Nat := 1 + s.before.countP (·.char == '\n')

end Site

end Renaming.Source
