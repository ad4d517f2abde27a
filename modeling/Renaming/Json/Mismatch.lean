import Renaming.Decimal.Shortest
import Renaming.Json.Printer
import Renaming.Text.Printable

/-!
Ways in which a JSON value fails to have the shape that is asked for.
-/

namespace Renaming.Json

/-- What was met in place of something else. -/
inductive Met
  | null
  | bool (b : Bool)
  | int (i : Int)
  | float (x : Float)
  | str (s : String)
  | list
  | map

/-- What a value is when it is not what was asked for. -/
def met : Json → Met
  | .null => .null
  | .bool b => .bool b
  | .int i => .int i
  | .float x => .float x
  | .str s => .str s
  | .arr _ => .list
  | .obj _ => .map

/-- The words for what was met. -/
def Met.describe : Met → String
  | null => "null"
  | bool b => "boolean \x60" ++ (if b then "true" else "false") ++ "\x60"
  | int i => "integer \x60" ++ toString i ++ "\x60"
  | float x => "floating point \x60" ++ Decimal.ofFloat numberLayout x ++ "\x60"
  | str s => "string " ++ Text.shown s
  | list => "sequence"
  | map => "map"

/-- A reason why a value is refused. -/
inductive Mismatch
  /-- A field that must be there is not. -/
  | missingField (name : String)
  /-- A field that is not in the list of allowed ones. -/
  | unknownField (name : String) (allowed : List String)
  /-- A name that is not in the list of allowed ones. -/
  | unknownVariant (name : String) (allowed : List String)
  /-- A field that stands twice. -/
  | duplicateField (name : String)
  /-- A value of another type than the one wanted. -/
  | invalidType (met : Met) (wanted : String)
  /-- A value of the right type that is wrong in itself. -/
  | invalidValue (met : Met) (wanted : String)
  /-- A list of the wrong length. -/
  | invalidLength (length : Nat) (wanted : String)

/-- Names between backquotes, as alternatives. -/
def alternatives (names : List String) : String :=
  "one of " ++ ", ".intercalate (names.map fun n => "\x60" ++ n ++ "\x60")

/-- The message of a mismatch. -/
def Mismatch.message : Mismatch → String
  | missingField name => "missing field \x60" ++ name ++ "\x60"
  | unknownField name allowed =>
    "unknown field \x60" ++ name ++ "\x60, expected " ++ alternatives allowed
  | unknownVariant name allowed =>
    "unknown variant \x60" ++ name ++ "\x60, expected " ++ alternatives allowed
  | duplicateField name => "duplicate field \x60" ++ name ++ "\x60"
  | invalidType met wanted => "invalid type: " ++ met.describe ++ ", expected " ++ wanted
  | invalidValue met wanted => "invalid value: " ++ met.describe ++ ", expected " ++ wanted
  | invalidLength n wanted => "invalid length " ++ toString n ++ ", expected " ++ wanted

end Renaming.Json
