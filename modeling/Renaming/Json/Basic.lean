/-!
JSON values. The entries of an object keep an order; a value whose objects are sorted by key lists
them in the order of their keys.
-/

namespace Renaming

/-- A JSON value. Whole numbers are kept apart from floating point numbers. -/
inductive Json
  | null
  | bool (b : Bool)
  | int (i : Int)
  | float (x : Float)
  | str (s : String)
  | arr (items : List Json)
  | obj (entries : List (String × Json))
  deriving Inhabited

namespace Json

/-- A list of strings. -/
def strs (xs : List String) : Json := arr (xs.map str)

/-- A natural number. -/
def nat (n : Nat) : Json := int n

/-- A value, or null if there is none. -/
def ofOption (f : α → Json) : Option α → Json
  | some x => f x
  | none => null

/-- The entry of a value that may be absent. -/
def entry? (key : String) (f : α → Json) : Option α → List (String × Json)
  | some x => [(key, f x)]
  | none => []

/-- The entries of an object with one more, which replaces the one of the same key. Entries
sorted by key stay sorted. -/
def put (key : String) (value : β) : List (String × β) → List (String × β)
  | [] => [(key, value)]
  | (k, v) :: rest =>
    if k = key then (key, value) :: rest
    else if key < k then (key, value) :: (k, v) :: rest
    else (k, v) :: put key value rest

/-- Entries sorted by key; of two with one key the later one stays. -/
def sortedEntries (entries : List (String × β)) : List (String × β) :=
  entries.foldl (fun sorted (k, v) => put k v sorted) []

mutual

/-- The value with the entries of every object in it sorted by key. -/
def sorted : Json → Json
  | arr items => arr (sortedItems items)
  | obj entries => obj (sortedEntries (sortedValues entries))
  | v => v

/-- The items of a list, each sorted. -/
def sortedItems : List Json → List Json
  | [] => []
  | v :: rest => sorted v :: sortedItems rest

/-- The entries of an object, each value sorted. -/
def sortedValues : List (String × Json) → List (String × Json)
  | [] => []
  | (k, v) :: rest => (k, sorted v) :: sortedValues rest

end

/-- The value of a key of an object. -/
def get? (v : Json) (key : String) : Option Json :=
  match v with
  | obj entries => entries.lookup key
  | _ => none

/-- The text of a string. -/
def str? : Json → Option String
  | str s => some s
  | _ => none

end Json

end Renaming
