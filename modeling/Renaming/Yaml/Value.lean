import Renaming.Json.Basic
import Renaming.Yaml.Node

/-!
The JSON value that a YAML text stands for. Plain scalars are null, truth values or numbers if they
look like one; aliases stand for what carries the anchor; the keys of mappings are texts.
-/

namespace Renaming.Yaml

/-! ### Scalars -/

/-- The plain texts for null. -/
def isNull (s : List Char) : Bool :=
  s == "null".toList || s == "Null".toList || s == "NULL".toList || s == "~".toList

/-- The truth value of a plain text. -/
def bool? (s : List Char) : Option Bool :=
  if s = "true".toList ∨ s = "True".toList ∨ s = "TRUE".toList then some true
  else if s = "false".toList ∨ s = "False".toList ∨ s = "FALSE".toList then some false
  else none

/-- Whether a text is a run of digits that starts with a needless zero. -/
def paddedDigits (s : List Char) : Bool :=
  let digits := match s with
    | '-' :: rest | '+' :: rest => rest
    | _ => s
  1 < digits.length && digits.head? == some '0' && digits.all Char.isDigit

/-- The value of a digit of any base up to sixteen. -/
def digit? (base : Nat) (c : Char) : Option Nat :=
  (hexValue? [c]).filter (· < base)

/-- The number that digits of a base write. -/
def digits? (base : Nat) (s : List Char) : Option Nat :=
  if s.isEmpty then none
  else s.foldlM (fun n c => (digit? base c).map (n * base + ·)) 0

/-- The digits of a number behind the sign of its base, with that base. -/
def based? (s : List Char) : Option Nat :=
  match s with
  | '0' :: 'x' :: rest => digits? 16 rest
  | '0' :: 'o' :: rest => digits? 8 rest
  | '0' :: 'b' :: rest => digits? 2 rest
  | _ => none

/-- The whole number that a text writes. -/
def wholeNumber? (s : List Char) : Option Int :=
  let unsigned := match s with
    | '+' :: rest => rest
    | _ => s
  let decimal (digits : List Char) : Option Nat :=
    if paddedDigits s then none else digits? 10 digits
  match unsigned with
  | '-' :: rest =>
    if s.head? = some '+' then none else ((based? rest <|> decimal rest).map fun n => -(n : Int))
  | _ => (based? unsigned <|> decimal unsigned).map fun n => (n : Int)

/-- The digits at the start of a text, and the rest. -/
def splitDigits (s : List Char) : List Char × List Char :=
  (s.takeWhile Char.isDigit, s.dropWhile Char.isDigit)

/-- The parts of a decimal number: sign, digits, number of digits behind the point, exponent. -/
structure Decimal where
  negative : Bool
  digits : List Char
  places : Nat
  exponent : Int

/-- The decimal number that a text writes. -/
def decimal? (s : List Char) : Option Decimal :=
  let (negative, s) := match s with
    | '-' :: rest => (true, rest)
    | '+' :: rest => (false, rest)
    | _ => (false, s)
  let (whole, s) := splitDigits s
  let (fraction, s) := match s with
    | '.' :: rest => splitDigits rest
    | _ => ([], s)
  if whole.isEmpty && fraction.isEmpty then none
  else
    let number (exponent : Int) : Option Decimal :=
      some ⟨negative, whole ++ fraction, fraction.length, exponent⟩
    match s with
    | [] => number 0
    | e :: rest =>
      if e = 'e' ∨ e = 'E' then
        let (down, rest) := match rest with
          | '-' :: rest => (true, rest)
          | '+' :: rest => (false, rest)
          | _ => (false, rest)
        match digits? 10 rest with
        | some n => number (if down then -n else n)
        | none => none
      else none

/-- The floating point number nearest to a decimal one. -/
def Decimal.toFloat (d : Decimal) : Float :=
  let digits := d.digits.dropWhile (· == '0')
  let n := digits.foldl (fun n c => n * 10 + (c.toNat - '0'.toNat)) 0
  let e := d.exponent - d.places
  let x :=
    if n = 0 ∨ e + digits.length < -400 then 0.0
    else if 400 < e + digits.length then 1.0 / 0.0
    else Float.ofScientific n (e < 0) e.natAbs
  if d.negative then -x else x

/-- The floating point number that a text writes, infinite ones and those that are none
included. -/
def float? (s : List Char) : Option Float :=
  let unsigned := match s with
    | '+' :: rest => rest
    | _ => s
  if s.head? = some '+' ∧ (unsigned.head? = some '+' ∨ unsigned.head? = some '-') then none
  else if unsigned = ".inf".toList ∨ unsigned = ".Inf".toList ∨ unsigned = ".INF".toList then
    some (1.0 / 0.0)
  else if s = "-.inf".toList ∨ s = "-.Inf".toList ∨ s = "-.INF".toList then some (-1.0 / 0.0)
  else if s = ".nan".toList ∨ s = ".NaN".toList ∨ s = ".NAN".toList then some (0.0 / 0.0)
  else ((decimal? unsigned).map Decimal.toFloat).filter Float.isFinite

/-- A floating point number as JSON has it: null unless it is finite. -/
def ofFloat (x : Float) : Json := if x.isFinite then .float x else .null

/-- A whole number as JSON has it, if it fits into 64 bits. Numbers of more than 128 bits are no
whole numbers at all. -/
def ofWhole? (i : Int) : Option (Except Problem Json) :=
  if Int64.minValue.toInt ≤ i ∧ i < UInt64.size then some (.ok (.int i))
  else if -(1 <<< 127 : Nat) ≤ i ∧ i < (1 <<< 128 : Nat) then some (.error .wideInteger)
  else none

/-- The value of a plain scalar. -/
def plainValue (s : List Char) : Except Problem Json :=
  if s.isEmpty || isNull s then .ok .null
  else
    match bool? s with
    | some b => .ok (.bool b)
    | none =>
      match (wholeNumber? s).bind ofWhole? with
      | some v => v
      | none =>
        if paddedDigits s then .ok (.str (String.ofList s))
        else
          match float? s with
          | some x => .ok (ofFloat x)
          | none => .ok (.str (String.ofList s))

/-- The tag of the core types with a name. -/
def coreTag (name : String) : List Char := ("tag:yaml.org,2002:" ++ name).toList

/-- The value of a scalar. -/
def scalarValue (tag : Option (List Char)) (s : List Char) (plain : Bool) : Except Problem Json :=
  match tag with
  | none => if plain then plainValue s else .ok (.str (String.ofList s))
  | some tag =>
    let orElse : Option Json → Except Problem Json
      | some v => .ok v
      | none => .error .badTaggedScalar
    if tag.head? = some '!' then .error .taggedValue
    else if tag = coreTag "bool" then orElse ((bool? s).map .bool)
    else if tag = coreTag "int" then
      match (wholeNumber? s).bind ofWhole? with
      | some v => v
      | none => .error .badTaggedScalar
    else if tag = coreTag "float" then orElse ((float? s).map ofFloat)
    else if tag = coreTag "null" then orElse (if isNull s then some .null else none)
    else .ok (.str (String.ofList s))

/-! ### Trees -/

/-- What a node means: its value, its text if it can be a key, how deep its collections are nested,
and how often an alias is followed in it. -/
structure Meaning where
  value : Json
  key : Option String
  depth : Nat
  jumps : Nat

/-- What an anchor stands for. -/
inductive Referent
  /-- A node that is not finished yet. -/
  | pending
  /-- A node with a meaning. -/
  | known (m : Meaning)
  /-- A key that would have no meaning as a value. -/
  | keyOnly (text : String) (problem : Problem)

/-- What the anchors met so far stand for, the newest first. -/
abbrev Anchors := List (List Char × Referent)

/-- The anchors with one more, if a node has one. -/
def Anchors.put (anchors : Anchors) (p : Properties) (r : Referent) : Anchors :=
  match p.anchor with
  | some name => (name, r) :: anchors
  | none => anchors

/-- The anchors when a collection is finished, unless its anchor has been given to a node in it. -/
def Anchors.finish (anchors : Anchors) (p : Properties) (m : Meaning) : Anchors :=
  match p.anchor.bind fun name => List.lookup name anchors with
  | some .pending => anchors.put p (.known m)
  | _ => anchors

mutual

/-- The number of steps in which a node is described. -/
def Node.size : Node → Nat
  | .scalar .. | .alias _ => 1
  | .list _ items => 2 + sizeOfItems items
  | .map _ entries => 2 + sizeOfEntries entries

/-- The number of steps in which the items of a list are described. -/
def sizeOfItems : List Node → Nat
  | [] => 0
  | v :: rest => v.size + sizeOfItems rest

/-- The number of steps in which the entries of a mapping are described. -/
def sizeOfEntries : List (Node × Node) → Nat
  | [] => 0
  | (k, v) :: rest => k.size + v.size + sizeOfEntries rest

end

/-- A collection may not carry a tag of its own. -/
def checkTag (p : Properties) : Except Problem Unit :=
  if (p.tag.bind List.head?) = some '!' then .error .taggedValue else .ok ()

mutual

/-- The meaning of a node, and the anchors behind it. -/
def Node.meaning (anchors : Anchors) : Node → Except Problem (Meaning × Anchors)
  | .alias name =>
    match anchors.lookup name with
    | some (.known m) => .ok ({ m with jumps := m.jumps + 1 }, anchors)
    | some (.keyOnly _ problem) => .error problem
    | _ => .error .unknownAnchor
  | .scalar p text plain => do
    let value ← scalarValue p.tag text plain
    let m : Meaning := ⟨value, some (String.ofList text), 0, 0⟩
    return (m, anchors.put p (.known m))
  | .list p items => do
    checkTag p
    let (vs, depth, jumps, anchors) ← meaningOfItems (anchors.put p .pending) items
    let m : Meaning := ⟨.arr vs, none, depth + 1, jumps⟩
    return (m, anchors.finish p m)
  | .map p entries => do
    checkTag p
    let (es, depth, jumps, anchors) ← meaningOfEntries (anchors.put p .pending) entries
    let m : Meaning := ⟨.obj (Json.sortedEntries es), none, depth + 1, jumps⟩
    return (m, anchors.finish p m)

/-- The values of the items of a list, how deep the deepest is, and how often an alias is followed
in them. -/
def meaningOfItems (anchors : Anchors) :
    List Node → Except Problem (List Json × Nat × Nat × Anchors)
  | [] => .ok ([], 0, 0, anchors)
  | v :: rest => do
    let (m, anchors) ← v.meaning anchors
    let (vs, depth, jumps, anchors) ← meaningOfItems anchors rest
    return (m.value :: vs, max m.depth depth, m.jumps + jumps, anchors)

/-- The same for the entries of a mapping. -/
def meaningOfEntries (anchors : Anchors) :
    List (Node × Node) → Except Problem (List (String × Json) × Nat × Nat × Anchors)
  | [] => .ok ([], 0, 0, anchors)
  | (k, v) :: rest => do
    let (key, keyJumps, anchors) ← k.keyText anchors
    let (m, anchors) ← v.meaning anchors
    let (es, depth, jumps, anchors) ← meaningOfEntries anchors rest
    return ((key, m.value) :: es, max m.depth depth, keyJumps + m.jumps + jumps, anchors)

/-- The text of a key. -/
def Node.keyText (anchors : Anchors) : Node → Except Problem (String × Nat × Anchors)
  | .alias name =>
    match anchors.lookup name with
    | some (.known ⟨_, some key, _, jumps⟩) => .ok (key, jumps + 1, anchors)
    | some (.keyOnly key _) => .ok (key, 1, anchors)
    | some _ => .error .keyNotScalar
    | none => .error .unknownAnchor
  | .scalar p text plain =>
    let key := String.ofList text
    let referent : Referent := match scalarValue p.tag text plain with
      | .ok value => .known ⟨value, some key, 0, 0⟩
      | .error problem => .keyOnly key problem
    .ok (key, 0, anchors.put p referent)
  | .list .. | .map .. => .error .keyNotScalar

end

/-- The depth to which collections may be nested, aliases followed. -/
def maxDepth : Nat := 128

/-- How many times as often as there are steps aliases may be followed. -/
def maxJumps : Nat := 100

/-- The value of a text. -/
def read (text : List Char) : Except Problem Json := do
  let root ← Node.ofTokens? (← tokensOf text)
  let (m, _) ← root.meaning []
  if maxDepth < m.depth then throw .tooDeep
  if maxJumps * root.size < m.jumps then throw .tooManyAliases
  return m.value

end Renaming.Yaml
