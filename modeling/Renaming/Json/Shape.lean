import Renaming.Json.Reader

/-!
Reading values of a known shape straight from a text. Fields that a shape does not know are passed
over without being understood, and a value of the wrong shape is refused where it stands.
-/

namespace Renaming.Json

/-! ### Passing over a value -/

/-- The text behind a string whose opening quote has been read. -/
def passString (text : List Char) : (fuel : Nat) → Except Fault (List Char)
  | 0 => .error (.here .endInString [])
  | fuel + 1 =>
    match text with
    | [] => .error (.here .endInString [])
    | '"' :: rest => .ok rest
    | '\\' :: rest =>
      match rest with
      | [] => .error (.here .endInString [])
      | 'u' :: digits =>
        match hexEscape digits with
        | .error f => .error f
        | .ok (_, rest) => passString rest fuel
      | c :: rest' =>
        if "\"\\/bfnrt".toList.contains c then passString rest' fuel
        else .error (.next .invalidEscape rest)
    | c :: rest => if c.toNat < 0x20 then .error (.here .control text) else passString rest fuel

/-- The text behind the exponent of a number whose letter has been read. -/
def passExponent (text : List Char) : Except Fault (List Char) :=
  let text := match text with
    | '+' :: rest | '-' :: rest => rest
    | _ => text
  match digits text with
  | ([], _) => .error (.next .invalidNumber text)
  | (_, rest) => .ok rest

/-- The text behind a number, from its first digit on. -/
def passNumber (text : List Char) : Except Fault (List Char) :=
  let (ds, rest) := digits text
  match ds with
  | [] => .error (.next .invalidNumber text)
  | '0' :: _ :: _ => .error (.next .invalidNumber (text.drop 1))
  | _ =>
    match rest with
    | '.' :: rest =>
      match digits rest with
      | ([], _) => .error (.next .invalidNumber rest)
      | (_, 'e' :: rest) | (_, 'E' :: rest) => passExponent rest
      | (_, rest) => .ok rest
    | 'e' :: rest | 'E' :: rest => passExponent rest
    | _ => .ok rest

/-- The text behind a value that is not made of others. -/
def passScalar (text : List Char) : Except Fault (List Char) :=
  match text with
  | [] => .error (.here .endInValue [])
  | 'n' :: rest => word ['u', 'l', 'l'] rest
  | 't' :: rest => word ['r', 'u', 'e'] rest
  | 'f' :: rest => word ['a', 'l', 's', 'e'] rest
  | '-' :: rest => passNumber rest
  | '"' :: rest => passString rest (rest.length + 1)
  | c :: _ => if c.isDigit then passNumber text else .error (.next .expectedValue text)

/-- An open bracket. -/
inductive Bracket
  | list
  | object
  deriving DecidableEq, Repr

/-- The text behind the key of an entry and its colon. -/
def passKey (text : List Char) : Except Fault (List Char) :=
  match skip text with
  | [] => .error (.here .endInObject [])
  | '"' :: rest => (passString rest (rest.length + 1)).bind colon
  | rest => .error (.next .keyNotString rest)

mutual

/-- The text behind a value and all that follows inside the open brackets, the innermost first. -/
def passValue : (fuel : Nat) → List Bracket → List Char → Except Fault (List Char)
  | 0, _, text => .error (.next .tooDeep text)
  | fuel + 1, brackets, text =>
    match skip text with
    | '[' :: rest => passRest fuel false (.list :: brackets) rest
    | '\x7b' :: rest => passRest fuel false (.object :: brackets) rest
    | rest => (passScalar rest).bind (passRest fuel true brackets)

/-- The text behind all that follows inside the open brackets; `comma` says whether a comma may
come next. -/
def passRest : (fuel : Nat) → (comma : Bool) → List Bracket → List Char → Except Fault (List Char)
  | 0, _, _, text => .error (.next .tooDeep text)
  | _, _, [], text => .ok text
  | fuel + 1, comma, .list :: outer, text =>
    match skip text with
    | [] => .error (.here .endInList [])
    | ']' :: rest => passRest fuel true outer rest
    | c :: rest =>
      if !comma then passValue fuel (.list :: outer) (c :: rest)
      else if c = ',' then passValue fuel (.list :: outer) rest
      else .error (.next .expectedCommaOrBracket (c :: rest))
  | fuel + 1, comma, .object :: outer, text =>
    match skip text with
    | [] => .error (.here .endInObject [])
    | '\x7d' :: rest => passRest fuel true outer rest
    | c :: rest =>
      if !comma then (passKey (c :: rest)).bind (passValue fuel (.object :: outer))
      else if c = ',' then (passKey rest).bind (passValue fuel (.object :: outer))
      else .error (.next .expectedCommaOrBrace (c :: rest))

end

/-- The text behind a value. -/
def pass (text : List Char) : Except Fault (List Char) :=
  passValue (3 * text.length + 3) [] text

/-! ### Values of a shape -/

/-- The fault that the value that comes next is not what is wanted. -/
def refuse (wanted : String) (text : List Char) : Fault :=
  match text with
  | '[' :: _ => .here (.refused (.invalidType .list wanted)) text
  | '\x7b' :: _ => .here (.refused (.invalidType .map wanted)) text
  | _ =>
    match scalar text with
    | .error f => f
    | .ok (v, rest) => .here (.refused (.invalidType v.met wanted)) rest

/-- A string. -/
def textValue (text : List Char) : Scan String :=
  match skip text with
  | '"' :: rest => (stringBody rest).map fun (s, left) => (String.ofList s, left)
  | [] => .error (.here .endInValue [])
  | rest => .error (refuse "a string" rest)

/-- The items of a list up to its closing bracket. -/
def itemsOf (item : List Char → Scan α) : (fuel : Nat) → (first : Bool) → List Char → Scan (List α)
  | 0, _, text => .error (.next .tooDeep text)
  | fuel + 1, first, text =>
    match nextItem first text with
    | .error f => .error f
    | .ok (.inr rest) => .ok ([], rest)
    | .ok (.inl rest) =>
      match item rest with
      | .error f => .error f
      | .ok (v, rest) => (itemsOf item fuel false rest).map fun (vs, left) => (v :: vs, left)

/-- A list of items. -/
def listValue (item : List Char → Scan α) (text : List Char) : Scan (List α) :=
  match skip text with
  | '[' :: rest => itemsOf item (rest.length + 1) true rest
  | [] => .error (.here .endInValue [])
  | rest => .error (refuse "a sequence" rest)

/-- A record that is read field by field. -/
structure Shape (δ : Type) where
  /-- What the record is called in a refusal. -/
  title : String
  /-- The names of the fields, in the order in which a list gives them. -/
  fields : List String
  /-- A record without any field. -/
  none : δ
  /-- Whether a record has a field. -/
  has : δ → String → Bool
  /-- Reads a field into a record. -/
  set : String → δ → List Char → Scan δ

namespace Shape

variable {δ : Type} (s : Shape δ)

/-- The text behind the end of an object, if it ends here. -/
def endOfObject (text : List Char) : List Char :=
  match skip text with
  | '\x7d' :: rest => rest
  | rest => rest

/-- The fields of an object up to its closing brace. -/
def inObject : (fuel : Nat) → (first : Bool) → δ → List Char → Scan δ
  | 0, _, _, text => .error (.next .tooDeep text)
  | fuel + 1, first, d, text =>
    match nextKey first text with
    | .error f => .error f
    | .ok (.inr rest) =>
      match s.fields.find? (!s.has d ·) with
      | some field => .error (.here (.refused (.missingField field)) rest)
      | .none => .ok (d, rest)
    | .ok (.inl rest) =>
      match stringBody rest with
      | .error f => .error f
      | .ok (key, rest) =>
        let field := String.ofList key
        if !s.fields.contains field then
          match (colon rest).bind pass with
          | .error f => .error f
          | .ok rest => inObject fuel false d rest
        else if s.has d field then
          .error (.here (.refused (.duplicateField field)) (endOfObject rest))
        else
          match (colon rest).bind (s.set field d) with
          | .error f => .error f
          | .ok (d, rest) => inObject fuel false d rest

/-- The end of a list all of whose fields have been read. -/
def endOfList (text : List Char) : Except Fault (List Char) :=
  match skip text with
  | [] => .error (.here .endInList [])
  | ']' :: rest => .ok rest
  | ',' :: rest =>
    match skip rest with
    | ']' :: rest => .error (.next .trailingComma (']' :: rest))
    | rest => .error (.next .trailingText rest)
  | rest => .error (.next .trailingText rest)

/-- Some fields from a list, of which `before` have been read. -/
def inList (before : Nat) (d : δ) : List String → List Char → Scan δ
  | [], text => (endOfList text).map (d, ·)
  | field :: fields, text =>
    match nextItem (before == 0) text with
    | .error f => .error f
    | .ok (.inr rest) =>
      .error (.here (.refused (.invalidLength before
        (s.title ++ " with " ++ toString s.fields.length ++ " elements"))) rest)
    | .ok (.inl rest) =>
      match s.set field d rest with
      | .error f => .error f
      | .ok (d, rest) => inList (before + 1) d fields rest

/-- A record, as an object or as a list of its fields. -/
def value (text : List Char) : Scan δ :=
  match skip text with
  | '[' :: rest => s.inList 0 s.none s.fields rest
  | '\x7b' :: rest => s.inObject (rest.length + 1) true s.none rest
  | [] => .error (.here .endInValue [])
  | rest => .error (refuse s.title rest)

/-- The record that a whole text describes. -/
def read (text : List Char) : Except Fault δ := do
  let (d, rest) ← s.value text
  finish rest
  return d

end Shape

end Renaming.Json
