import Renaming.Json.Scan

/-!
Reading a JSON value. The entries of an object come out sorted by key, and of two entries with one
key the later one stays. Brackets may be nested to a limit.
-/

namespace Renaming.Json

/-- The depth at which a bracket is one too many. -/
def maxDepth : Nat := 128

/-- The text behind the colon of an entry. -/
def colon (text : List Char) : Except Fault (List Char) :=
  match skip text with
  | ':' :: rest => .ok rest
  | [] => .error (.here .endInObject [])
  | rest => .error (.next .expectedColon rest)

/-- Whether a list goes on: the text of its next item, or what follows its closing bracket. -/
def nextItem (first : Bool) (text : List Char) : Except Fault (List Char ⊕ List Char) :=
  match skip text with
  | [] => .error (.here .endInList [])
  | ']' :: rest => .ok (.inr rest)
  | c :: rest =>
    if first then .ok (.inl (c :: rest))
    else if c = ',' then
      match skip rest with
      | [] => .error (.here .endInValue [])
      | ']' :: rest => .error (.next .trailingComma (']' :: rest))
      | rest => .ok (.inl rest)
    else .error (.next .expectedCommaOrBracket (c :: rest))

/-- Whether an object goes on: the text of its next key behind the quote, or what follows its
closing brace. -/
def nextKey (first : Bool) (text : List Char) : Except Fault (List Char ⊕ List Char) :=
  match skip text with
  | [] => .error (.here .endInObject [])
  | '\x7d' :: rest => .ok (.inr rest)
  | c :: rest =>
    if first then
      if c = '"' then .ok (.inl rest) else .error (.next .keyNotString (c :: rest))
    else if c = ',' then
      match skip rest with
      | [] => .error (.here .endInValue [])
      | '"' :: rest => .ok (.inl rest)
      | '\x7d' :: rest => .error (.next .trailingComma ('\x7d' :: rest))
      | rest => .error (.next .keyNotString rest)
    else .error (.next .expectedCommaOrBrace (c :: rest))

/-- A number as a value. -/
def ofNumber : Number → Json
  | .int i => int i
  | .float x => float x

/-- A value that is not made of others, from its first character on. -/
def scalar (text : List Char) : Scan Json :=
  match text with
  | [] => .error (.here .endInValue [])
  | 'n' :: rest => (word ['u', 'l', 'l'] rest).map (null, ·)
  | 't' :: rest => (word ['r', 'u', 'e'] rest).map (bool true, ·)
  | 'f' :: rest => (word ['a', 'l', 's', 'e'] rest).map (bool false, ·)
  | '-' :: rest => (number false rest).map fun (n, left) => (ofNumber n, left)
  | '"' :: rest => (stringBody rest).map fun (s, left) => (str (String.ofList s), left)
  | c :: _ =>
    if c.isDigit then (number true text).map fun (n, left) => (ofNumber n, left)
    else .error (.next .expectedValue text)

mutual

/-- A value, `depth` brackets being allowed around and in it. -/
def value : (fuel depth : Nat) → List Char → Scan Json
  | 0, _, text => .error (.next .tooDeep text)
  | fuel + 1, depth, text =>
    match skip text with
    | '[' :: rest =>
      if depth ≤ 1 then .error (.next .tooDeep ('[' :: rest))
      else (items fuel (depth - 1) true rest).map fun (vs, left) => (arr vs, left)
    | '\x7b' :: rest =>
      if depth ≤ 1 then .error (.next .tooDeep ('\x7b' :: rest))
      else (entries fuel (depth - 1) true rest).map fun (es, left) => (obj (sortedEntries es), left)
    | rest => scalar rest

/-- The items of a list up to its closing bracket. -/
def items : (fuel depth : Nat) → (first : Bool) → List Char → Scan (List Json)
  | 0, _, _, text => .error (.next .tooDeep text)
  | fuel + 1, depth, first, text =>
    match nextItem first text with
    | .error f => .error f
    | .ok (.inr rest) => .ok ([], rest)
    | .ok (.inl rest) =>
      match value fuel depth rest with
      | .error f => .error f
      | .ok (v, rest) => (items fuel depth false rest).map fun (vs, left) => (v :: vs, left)

/-- The entries of an object up to its closing brace. -/
def entries : (fuel depth : Nat) → (first : Bool) → List Char → Scan (List (String × Json))
  | 0, _, _, text => .error (.next .tooDeep text)
  | fuel + 1, depth, first, text =>
    match nextKey first text with
    | .error f => .error f
    | .ok (.inr rest) => .ok ([], rest)
    | .ok (.inl rest) =>
      match stringBody rest with
      | .error f => .error f
      | .ok (key, rest) =>
        match colon rest with
        | .error f => .error f
        | .ok rest =>
          match value fuel depth rest with
          | .error f => .error f
          | .ok (v, rest) =>
            (entries fuel depth false rest).map fun (es, left) =>
              ((String.ofList key, v) :: es, left)

end

/-- Nothing but blanks may follow. -/
def finish (text : List Char) : Except Fault Unit :=
  match skip text with
  | [] => .ok ()
  | rest => .error (.next .trailingText rest)

/-- The value of a text. Every step reads a character or enters a bracket, so the fuel is never
used up. -/
def read (text : List Char) : Except Fault Json := do
  let (v, rest) ← value (2 * text.length + 2) maxDepth text
  finish rest
  return v

end Renaming.Json
