import Renaming.Yaml.Scalar

/-!
The tokens of a YAML text. Besides the marks that are written, they show where the collections
start and end that are marked by indentation alone, and where the keys of mappings start.
-/

namespace Renaming.Yaml

/-- A tag as it is written: a handle that stands for a longer text, and the rest. -/
structure Tag where
  handle : List Char
  suffix : List Char
  deriving DecidableEq, Repr

/-- A token. -/
inductive Token
  | version (major minor : Nat)
  | tagDirective (handle stem : List Char)
  | documentStart
  | documentEnd
  | blockSequence
  | blockMapping
  | blockEnd
  | flowSequence
  | flowSequenceEnd
  | flowMapping
  | flowMappingEnd
  | entry
  | comma
  | key
  | value
  | alias (name : List Char)
  | anchor (name : List Char)
  | tag (tag : Tag)
  | scalar (text : List Char) (plain : Bool)
  deriving DecidableEq, Repr

/-! ### Anchors and tags -/

/-- The name of an anchor or an alias, behind its sign. -/
def anchorName (c : Cursor) : Except Problem (List Char × Cursor) :=
  let (name, after) := c.takeWhile isNameChar
  let ends := match after.rest with
    | [] => true
    | x :: _ => isBlank x || isBreak x || "?:,]\x7d%@\x60".toList.contains x
  if name.isEmpty || !ends then .error .badAnchor else .ok (name, after)

/-- The bytes that percent signs write next, each by two hexadecimal digits. -/
def escapedByte? (text : List Char) : Option UInt8 :=
  match text with
  | '%' :: a :: b :: _ => (hexValue? [a, b]).map Nat.toUInt8
  | _ => none

/-- How many bytes a character takes whose first byte is given. -/
def sequenceLength (b : UInt8) : Nat :=
  if b < 0x80 then 1 else if b &&& 0xE0 == 0xC0 then 2 else if b &&& 0xF0 == 0xE0 then 3
  else if b &&& 0xF8 == 0xF0 then 4 else 0

/-- The character that percent signs write next, and the place behind them. -/
def escapedChar (c : Cursor) : Except Problem (Char × Cursor) := do
  let some b := escapedByte? c.rest | throw .badTag
  let n := sequenceLength b
  let some bytes := (List.range n).mapM fun i => escapedByte? (c.rest.drop (3 * i)) | throw .badTag
  match (String.fromUTF8? ⟨bytes.toArray⟩).map String.toList with
  | some [x] => return (x, c.skip (3 * n))
  | _ => throw .badTag

/-- The characters of a tag, where commas and square brackets are only `inBrackets` allowed. -/
def tagText (inBrackets : Bool) :
    (fuel : Nat) → (text : List Char) → Cursor → Except Problem (List Char × Cursor)
  | 0, text, c => .ok (text, c)
  | fuel + 1, text, c =>
    match c.rest with
    | [] => .ok (text, c)
    | x :: _ =>
      if x = '%' then do
        let (y, c) ← escapedChar c
        tagText inBrackets fuel (text ++ [y]) c
      else if isNameChar x || ";/?:@&=+$.!~*'()".toList.contains x ||
          (inBrackets && ",[]".toList.contains x) then
        tagText inBrackets fuel (text ++ [x]) (c.skip 1)
      else .ok (text, c)

/-- The characters of a tag from this place on. -/
def Cursor.tagText (c : Cursor) (inBrackets : Bool) : Except Problem (List Char × Cursor) :=
  Yaml.tagText inBrackets (c.rest.length + 1) [] c

/-- A handle: an exclamation mark, a name, and perhaps another mark. -/
def tagHandle (c : Cursor) : Except Problem (List Char × Cursor) :=
  match c.rest with
  | '!' :: _ =>
    let (name, after) := (c.skip 1).takeWhile isNameChar
    match after.rest with
    | '!' :: _ => .ok ('!' :: (name ++ ['!']), after.skip 1)
    | _ => .ok ('!' :: name, after)
  | _ => .error .badTag

/-- A tag, from its exclamation mark on. -/
def tagToken (flow : Bool) (c : Cursor) : Except Problem (Tag × Cursor) := do
  let (tag, c) ←
    match c.rest with
    | '!' :: '<' :: _ => do
      let (suffix, c) ← (c.skip 2).tagText true
      if suffix.isEmpty || c.rest.head? != some '>' then throw .badTag
      pure ((⟨[], suffix⟩ : Tag), c.skip 1)
    | _ => do
      let (handle, c) ← tagHandle c
      if 2 ≤ handle.length && handle.getLast? == some '!' then
        let (suffix, c) ← c.tagText false
        if suffix.isEmpty then throw .badTag
        pure (⟨handle, suffix⟩, c)
      else
        let (more, c) ← c.tagText false
        let suffix := handle.drop 1 ++ more
        pure (if suffix.isEmpty then ⟨[], ['!']⟩ else ⟨['!'], suffix⟩, c)
  if atGap c.rest || (flow && c.rest.head? == some ',') then return (tag, c)
  else throw .badTag

/-! ### Directives -/

/-- A number of at most nine digits. -/
def versionNumber (c : Cursor) : Except Problem (Nat × Cursor) :=
  let (digits, after) := c.takeWhile Char.isDigit
  if digits.isEmpty || 9 < digits.length then .error .badDirective
  else .ok (digits.foldl (fun n d => n * 10 + (d.toNat - '0'.toNat)) 0, after)

/-- A directive behind its percent sign. Nothing but a comment may follow it on its line. -/
def directive (c : Cursor) : Except Problem (Token × Cursor) := do
  let (name, c) := c.takeWhile isNameChar
  if name.isEmpty || !atGap c.rest then throw .badDirective
  let c := c.skipWhile isBlank
  let (token, c) ←
    if name = "YAML".toList then do
      let (major, c) ← versionNumber c
      if c.rest.head? != some '.' then throw .badDirective
      let (minor, c) ← versionNumber (c.skip 1)
      pure (Token.version major minor, c)
    else if name = "TAG".toList then do
      let (handle, c) ← tagHandle c
      if handle != ['!'] && !(2 ≤ handle.length && handle.getLast? == some '!') then
        throw .badDirective
      if !(c.rest.head?.any isBlank) then throw .badDirective
      let (stem, c) ← (c.skipWhile isBlank).tagText true
      if stem.isEmpty || !atGap c.rest then throw .badDirective
      pure (Token.tagDirective handle stem, c)
    else throw .badDirective
  let c := (c.skipWhile isBlank).skipComment
  if !atLineEnd c.rest then throw .badDirective
  return (token, c.lineBreak.2)

end Renaming.Yaml
