import Renaming.Decimal.Shortest
import Renaming.Json.Basic

/-!
The text of a JSON value over several lines: two blanks for each level, empty lists and objects on
one line. Of the characters of a string only the quote, the backslash and the controls below the
blank are escaped.
-/

namespace Renaming.Json

/-- A control character in its short form if it has one, else by its number. -/
def escape (c : Char) : List Char :=
  match c with
  | '"' => ['\\', '"']
  | '\\' => ['\\', '\\']
  | '\x08' => ['\\', 'b']
  | '\t' => ['\\', 't']
  | '\n' => ['\\', 'n']
  | '\x0c' => ['\\', 'f']
  | '\r' => ['\\', 'r']
  | c =>
    if c.toNat < 0x20 then
      ['\\', 'u', '0', '0', Nat.digitChar (c.toNat / 16), Nat.digitChar (c.toNat % 16)]
    else [c]

/-- A string between quotes. -/
def quoted (s : String) : List Char := '"' :: (s.toList.flatMap escape ++ ['"'])

/-- Numbers keep their point up to sixteen places in front of it and four zeros behind it. -/
def numberLayout : Decimal.Layout := ⟨16, 4⟩

/-- A line break, and the blanks of a level. -/
def lineAt (level : Nat) : List Char := '\n' :: List.replicate (2 * level) ' '

/-- Parts between two brackets, each on a line of its own. -/
def block (first last : Char) (level : Nat) (parts : List (List Char)) : List Char :=
  if parts.isEmpty then [first, last]
  else
    first :: ((parts.map (lineAt (level + 1) ++ ·)).intersperse [',']).flatten ++
      lineAt level ++ [last]

mutual

/-- The text of a value at a level. -/
def render (level : Nat) : Json → List Char
  | null => "null".toList
  | bool true => "true".toList
  | bool false => "false".toList
  | int i => (toString i).toList
  | float x => if x.isFinite then (Decimal.ofFloat numberLayout x).toList else "null".toList
  | str s => quoted s
  | arr items => block '[' ']' level (renderItems (level + 1) items)
  | obj entries => block '\x7b' '\x7d' level (renderEntries (level + 1) entries)

/-- The texts of the items of a list. -/
def renderItems (level : Nat) : List Json → List (List Char)
  | [] => []
  | v :: rest => render level v :: renderItems level rest

/-- The texts of the entries of an object. -/
def renderEntries (level : Nat) : List (String × Json) → List (List Char)
  | [] => []
  | (k, v) :: rest => (quoted k ++ ':' :: ' ' :: render level v) :: renderEntries level rest

end

/-- The text of a value. -/
def pretty (v : Json) : String := String.ofList (v.render 0)

end Renaming.Json
