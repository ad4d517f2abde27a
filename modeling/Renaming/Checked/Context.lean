import Renaming.Checked.Segment
import Renaming.Rule.Basic

/-!
What surrounds a place, told from the bytes of the source and the flags that say which of them are
code, by accesses that are checked. A place is given by the positions of its first byte and of the
first one behind it.
-/

namespace Renaming.Checked

open Renaming.Source
open Renaming.Source.Segment (byteAt?)
open Renaming.Text (isBlank)

section

variable (bytes : Array UInt8) (code : Array Bool)

/-! ### The nearest byte that is no blank -/

/-- The first byte from a position on that is no blank. -/
def nextMark? (i : Nat) : Except Fault (Option Nat) :=
  if i < bytes.size then do
    let c ← byte bytes i
    if isBlank c then nextMark? (i + 1) else .ok (some i)
  else .ok none
termination_by bytes.size - i

/-- The last byte in front of a position that is no blank. -/
def lastMark? : (stop : Nat) → Except Fault (Option Nat)
  | 0 => .ok none
  | i + 1 => do
    let c ← byte bytes i
    if isBlank c then lastMark? i else .ok (some i)

/-! ### Keys -/

/-- The innermost bracket of the code that is open at a position, where `depth` closing brackets
have been met and not yet matched on the way back. -/
def enclosing : (depth pos : Nat) → Except Fault (Option Char)
  | _, 0 => .ok none
  | depth, i + 1 => do
    if ← flag code i then do
      let c ← byte bytes i
      if isCloser c then enclosing (depth + 1) i
      else if isOpener c then
        if depth = 0 then .ok (some c)
        else do
          let depth ← less depth 1
          enclosing depth i
      else enclosing depth i
    else enclosing depth i

/-- The colon that follows a position, possibly after a question mark that touches it. -/
def colonAt? (stop : Nat) : Except Fault (Option Nat) := do
  match ← nextMark? bytes stop with
  | none => .ok none
  | some next => do
    let c ← byte bytes next
    if c = ':' then .ok (some next)
    else if c = '?' ∧ byteAt? bytes (next + 1) = some ':' then .ok (some (next + 1))
    else .ok none

/-- Whether a colon follows that is not the first of two, possibly after a question mark that
touches it. -/
def colonFollows (stop : Nat) : Except Fault Bool := do
  match ← colonAt? bytes stop with
  | none => .ok false
  | some colon => .ok (byteAt? bytes (colon + 1) != some ':')

/-- Whether an entry of an object can start at a position. -/
def entryStarts (start : Nat) : Except Fault Bool := do
  match ← lastMark? bytes start with
  | none => .ok true
  | some p => do
    let c ← byte bytes p
    if c = '{' then .ok true
    else if c = ',' ∨ c = ';' then do
      let bracket ← enclosing bytes code 0 start
      .ok (bracket == some '{')
    else .ok false

/-- Whether the place is a key of an object, or a field of a type. -/
def isKey (start stop : Nat) : Except Fault Bool := do
  if ← colonFollows bytes stop then entryStarts bytes code start else .ok false

/-! ### Attributes -/

/-- Whether an assignment follows that is neither a comparison nor an arrow. -/
def assignmentFollows (stop : Nat) : Except Fault Bool := do
  match ← nextMark? bytes stop with
  | none => .ok false
  | some next => do
    let c ← byte bytes next
    .ok (c == '=' && byteAt? bytes (next + 1) != some '=' && byteAt? bytes (next + 1) != some '>')

/-- Whether the byte in front of a position is a blank. -/
def behindBlank (start : Nat) : Except Fault Bool :=
  if start = 0 then .ok false
  else do
    let p ← less start 1
    let c ← byte bytes p
    .ok (isBlank c)

/-- Whether an attribute can follow the byte at a position: the end of a string, a closing brace,
or a word that introduces no declaration. -/
def endsOperand (p : Nat) : Except Fault Bool := do
  let c ← byte bytes p
  if c = '"' ∨ c = '\'' ∨ c = '}' then .ok true
  else if isWord c then do
    let word ← wordEnding bytes isWord p
    .ok (!declarationKeywords.contains word)
  else .ok false

/-- Whether an attribute of a tag can start at a position. -/
def attributeStarts (start : Nat) : Except Fault Bool := do
  if ← behindBlank bytes start then
    match ← lastMark? bytes start with
    | none => .ok false
    | some p => endsOperand bytes p
  else .ok false

/-- Whether an operand can start in front of the less-than sign at a position. -/
def operandBefore (lt : Nat) : Except Fault Bool := do
  match ← lastMark? bytes lt with
  | none => .ok true
  | some p => do
    let c ← byte bytes p
    if isWord c then do
      let word ← wordEnding bytes isWord p
      .ok (word == "return")
    else .ok (c != ')' && c != ']')

/-- Whether the less-than sign at a position opens a tag. -/
def opensTag (lt : Nat) : Except Fault Bool :=
  if (byteAt? bytes (lt + 1)).any fun c => c.isAlpha || c == '_' || c == '$' then
    operandBefore bytes lt
  else .ok false

/-- Whether a position is inside a tag, between its name and its closing sign, where `depth` braces
have been met and not yet matched on the way back. -/
def insideTag : (depth pos : Nat) → Except Fault Bool
  | _, 0 => .ok false
  | depth, i + 1 => do
    if ← flag code i then do
      let c ← byte bytes i
      if c = '}' then insideTag (depth + 1) i
      else if c = '{' then
        if depth = 0 then .ok false
        else do
          let depth ← less depth 1
          insideTag depth i
      else if 0 < depth then insideTag depth i
      else if c = '<' then opensTag bytes i
      else if ">;()[]".toList.contains c then .ok false
      else insideTag depth i
    else insideTag depth i

/-- Whether the place is the name of an attribute of a tag. -/
def isAttribute (start stop : Nat) : Except Fault Bool := do
  if ← assignmentFollows bytes stop then
    if ← attributeStarts bytes start then insideTag bytes code 0 start else .ok false
  else .ok false

/-! ### Scopes -/

/-- Whether a place lies in a scope. -/
def admits (scope : Scope) (start stop : Nat) (inCode : Bool) : Except Fault Bool :=
  match scope with
  | .identifier => .ok inCode
  | .objectKey => isKey bytes code start stop
  | .jsxAttribute => if inCode then isAttribute bytes code start stop else .ok false
  | .stringLiteral => .ok !inCode

end

end Renaming.Checked
