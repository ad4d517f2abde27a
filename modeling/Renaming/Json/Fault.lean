import Renaming.Json.Mismatch

/-!
Faults of JSON texts, and the positions at which they are met: the line, and the number of bytes
of that line that have been read.
-/

namespace Renaming.Json

/-- What is wrong at some point of a text. -/
inductive Problem
  | endInValue
  | endInList
  | endInObject
  | endInString
  | expectedValue
  | expectedWord
  | expectedColon
  | expectedCommaOrBracket
  | expectedCommaOrBrace
  | keyNotString
  | trailingComma
  | trailingText
  | invalidNumber
  | numberTooLarge
  | invalidEscape
  | unfinishedPair
  | loneSurrogate
  | control
  | tooDeep
  /-- The text is JSON so far, and its value is refused. -/
  | refused (reason : Mismatch)

/-- The message of a problem. -/
def Problem.message : Problem → String
  | endInValue => "EOF while parsing a value"
  | endInList => "EOF while parsing a list"
  | endInObject => "EOF while parsing an object"
  | endInString => "EOF while parsing a string"
  | expectedValue => "expected value"
  | expectedWord => "expected ident"
  | expectedColon => "expected \x60:\x60"
  | expectedCommaOrBracket => "expected \x60,\x60 or \x60]\x60"
  | expectedCommaOrBrace => "expected \x60,\x60 or \x60\x7d\x60"
  | keyNotString => "key must be a string"
  | trailingComma => "trailing comma"
  | trailingText => "trailing characters"
  | invalidNumber => "invalid number"
  | numberTooLarge => "number out of range"
  | invalidEscape => "invalid escape"
  | unfinishedPair => "unexpected end of hex escape"
  | loneSurrogate => "lone leading surrogate in hex escape"
  | control => "control character (\\u0000-\\u001F) found while parsing a string"
  | tooDeep => "recursion limit exceeded"
  | refused reason => reason.message

/-- A problem and where it is met: `beyond` bytes behind the start of what was left of the text. -/
structure Fault where
  problem : Problem
  left : List Char
  beyond : Nat := 0

/-- The problem lies in what has just been read. -/
def Fault.here (problem : Problem) (left : List Char) : Fault := ⟨problem, left, 0⟩

/-- The problem is the next byte, which counts as read. -/
def Fault.next (problem : Problem) (left : List Char) : Fault := ⟨problem, left, 1⟩

/-- A position in a text. -/
structure Position where
  line : Nat
  column : Nat
  deriving DecidableEq, Repr

/-- The position behind some bytes. -/
def Position.after (bytes : List UInt8) : Position :=
  ⟨1 + bytes.count 10, (bytes.reverse.takeWhile (· != 10)).length⟩

/-- The bytes of a text. -/
def bytesOf (text : List Char) : List UInt8 := text.flatMap String.utf8EncodeChar

/-- The position of a fault in a text. -/
def Fault.position (f : Fault) (text : List Char) : Position :=
  let bytes := bytesOf text
  .after (bytes.take (bytes.length - (bytesOf f.left).length + f.beyond))

/-- The message of a fault in a text, with its position. -/
def Fault.message (f : Fault) (text : List Char) : String :=
  let p := f.position text
  f.problem.message ++ " at line " ++ toString p.line ++ " column " ++ toString p.column

end Renaming.Json
