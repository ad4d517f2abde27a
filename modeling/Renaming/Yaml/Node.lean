import Renaming.Yaml.Scan

/-!
The tree that the tokens of a YAML text describe.
-/

namespace Renaming.Yaml

/-- What may stand in front of the content of a node. -/
structure Properties where
  anchor : Option (List Char) := none
  /-- The tag with its handle replaced by what it stands for. -/
  tag : Option (List Char) := none
  deriving DecidableEq, Repr

/-- A node. -/
inductive Node
  | scalar (properties : Properties) (text : List Char) (plain : Bool)
  | list (properties : Properties) (items : List Node)
  | map (properties : Properties) (entries : List (Node × Node))
  | alias (name : List Char)

/-- The node that stands where nothing is written. -/
def Node.empty : Node := .scalar {} [] true

/-- The texts that handles stand for. -/
abbrev Handles := List (List Char × List Char)

/-- A tag with its handle replaced. -/
def Tag.resolve (handles : Handles) (t : Tag) : Except Problem (List Char) :=
  if t.handle.isEmpty then .ok t.suffix
  else
    match handles.lookup t.handle with
    | some stem => .ok (stem ++ t.suffix)
    | none => .error .undefinedHandle

/-- The anchor and the tag in front of a node, in either order. -/
def properties (handles : Handles) (ts : List Token) : Except Problem (Properties × List Token) :=
  match ts with
  | .anchor a :: .tag t :: rest | .tag t :: .anchor a :: rest =>
    (t.resolve handles).map fun tag => (⟨some a, some tag⟩, rest)
  | .anchor a :: rest => .ok (⟨some a, none⟩, rest)
  | .tag t :: rest => (t.resolve handles).map fun tag => (⟨none, some tag⟩, rest)
  | _ => .ok ({}, ts)

/-- Whether the content of a node is left out in front of one of the tokens. -/
def absent (stops : List Token) (ts : List Token) : Bool :=
  match ts with
  | [] => true
  | t :: _ => stops.contains t

/-- A node without content, which must have properties. -/
def emptyNode (p : Properties) (ts : List Token) : Except Problem (Node × List Token) :=
  if p.anchor.isSome || p.tag.isSome then .ok (.scalar p [] true, ts) else .error .unexpectedToken

mutual

/-- A node. In block context its collections may be marked by indentation; where `level` is set,
entries on the column of the key in front of them form a list too. -/
def node (handles : Handles) :
    (fuel : Nat) → (block level : Bool) → List Token → Except Problem (Node × List Token)
  | 0, _, _, _ => .error .tooDeep
  | fuel + 1, block, level, ts =>
    match ts with
    | .alias name :: rest => .ok (.alias name, rest)
    | _ => do
      let (p, ts) ← properties handles ts
      match ts with
      | .entry :: _ =>
        if level then
          let (items, rest) ← levelItems handles fuel ts
          return (.list p items, rest)
        else emptyNode p ts
      | .scalar text plain :: rest => return (.scalar p text plain, rest)
      | .flowSequence :: rest =>
        let (items, rest) ← flowItems handles fuel true rest
        return (.list p items, rest)
      | .flowMapping :: rest =>
        let (entries, rest) ← flowEntries handles fuel true rest
        return (.map p entries, rest)
      | .blockSequence :: rest =>
        if block then
          let (items, rest) ← blockItems handles fuel rest
          return (.list p items, rest)
        else emptyNode p ts
      | .blockMapping :: rest =>
        if block then
          let (entries, rest) ← blockEntries handles fuel rest
          return (.map p entries, rest)
        else emptyNode p ts
      | _ => emptyNode p ts

/-- A node, or the empty one in front of one of the tokens. -/
def nodeOr (handles : Handles) :
    (fuel : Nat) → (block level : Bool) → (stops : List Token) → List Token →
      Except Problem (Node × List Token)
  | 0, _, _, _, _ => .error .tooDeep
  | fuel + 1, block, level, stops, ts =>
    if absent stops ts then .ok (.empty, ts) else node handles fuel block level ts

/-- The items of a list that is marked by indentation. -/
def blockItems (handles : Handles) :
    (fuel : Nat) → List Token → Except Problem (List Node × List Token)
  | 0, _ => .error .tooDeep
  | fuel + 1, ts =>
    match ts with
    | .entry :: rest => do
      let (v, rest) ← nodeOr handles fuel true false [.entry, .blockEnd] rest
      let (vs, rest) ← blockItems handles fuel rest
      return (v :: vs, rest)
    | .blockEnd :: rest => .ok ([], rest)
    | _ => .error .unexpectedToken

/-- The items of a list on the column of the key in front of it. -/
def levelItems (handles : Handles) :
    (fuel : Nat) → List Token → Except Problem (List Node × List Token)
  | 0, _ => .error .tooDeep
  | fuel + 1, ts =>
    match ts with
    | .entry :: rest => do
      let (v, rest) ← nodeOr handles fuel true false [.entry, .key, .value, .blockEnd] rest
      let (vs, rest) ← levelItems handles fuel rest
      return (v :: vs, rest)
    | _ => .ok ([], ts)

/-- The entries of a mapping that is marked by indentation. -/
def blockEntries (handles : Handles) :
    (fuel : Nat) → List Token → Except Problem (List (Node × Node) × List Token)
  | 0, _ => .error .tooDeep
  | fuel + 1, ts =>
    match ts with
    | .key :: rest => do
      let (k, rest) ← nodeOr handles fuel true true [.key, .value, .blockEnd] rest
      let (v, rest) ←
        match rest with
        | .value :: rest => nodeOr handles fuel true true [.key, .value, .blockEnd] rest
        | _ => pure (.empty, rest)
      let (es, rest) ← blockEntries handles fuel rest
      return ((k, v) :: es, rest)
    | .blockEnd :: rest => .ok ([], rest)
    | _ => .error .unexpectedToken

/-- The items of a list in brackets. An item that is a single entry needs no braces. -/
def flowItems (handles : Handles) :
    (fuel : Nat) → (first : Bool) → List Token → Except Problem (List Node × List Token)
  | 0, _, _ => .error .tooDeep
  | fuel + 1, first, ts =>
    match ts with
    | .flowSequenceEnd :: rest => .ok ([], rest)
    | _ => do
      let ts ← if first then pure ts else
        match ts with
        | .comma :: rest => pure rest
        | _ => throw Problem.unexpectedToken
      match ts with
      | .flowSequenceEnd :: rest => return ([], rest)
      | .key :: rest =>
        let (e, rest) ← flowEntry handles fuel rest
        let (vs, rest) ← flowItems handles fuel false rest
        return (.map {} [e] :: vs, rest)
      | _ =>
        let (v, rest) ← node handles fuel false false ts
        let (vs, rest) ← flowItems handles fuel false rest
        return (v :: vs, rest)

/-- The single entry of a mapping inside a list in brackets. A mark in place of its key is
passed over. -/
def flowEntry (handles : Handles) :
    (fuel : Nat) → List Token → Except Problem ((Node × Node) × List Token)
  | 0, _ => .error .tooDeep
  | fuel + 1, ts => do
    let (k, ts) ←
      if absent [.value, .comma, .flowSequenceEnd] ts then pure (.empty, ts.drop 1)
      else node handles fuel false false ts
    match ts with
    | .value :: rest =>
      let (v, rest) ← nodeOr handles fuel false false [.comma, .flowSequenceEnd] rest
      return ((k, v), rest)
    | _ => return ((k, .empty), ts)

/-- The entries of a mapping in braces. -/
def flowEntries (handles : Handles) :
    (fuel : Nat) → (first : Bool) → List Token → Except Problem (List (Node × Node) × List Token)
  | 0, _, _ => .error .tooDeep
  | fuel + 1, first, ts =>
    match ts with
    | .flowMappingEnd :: rest => .ok ([], rest)
    | _ => do
      let ts ← if first then pure ts else
        match ts with
        | .comma :: rest => pure rest
        | _ => throw Problem.unexpectedToken
      match ts with
      | .flowMappingEnd :: rest => return ([], rest)
      | .key :: rest =>
        let (k, rest) ← nodeOr handles fuel false false [.value, .comma, .flowMappingEnd] rest
        let (v, rest) ←
          match rest with
          | .value :: rest => nodeOr handles fuel false false [.comma, .flowMappingEnd] rest
          | _ => pure (.empty, rest)
        let (es, rest) ← flowEntries handles fuel false rest
        return ((k, v) :: es, rest)
      | _ =>
        let (k, rest) ← node handles fuel false false ts
        let (es, rest) ← flowEntries handles fuel false rest
        return ((k, .empty) :: es, rest)

end

/-- The handles that need no directive. -/
def defaultHandles : Handles :=
  [(['!'], ['!']), (['!', '!'], "tag:yaml.org,2002:".toList)]

/-- The directives in front of a document. -/
def directives (versioned : Bool) (handles : Handles) :
    List Token → Except Problem (Handles × List Token)
  | .version major minor :: rest =>
    if versioned then .error .duplicateDirective
    else if major ≠ 1 ∨ (minor ≠ 1 ∧ minor ≠ 2) then .error .badVersion
    else directives true handles rest
  | .tagDirective handle stem :: rest =>
    if (handles.lookup handle).isSome then .error .duplicateDirective
    else directives versioned ((handle, stem) :: handles) rest
  | ts => .ok (handles, ts)

/-- The only document of a text; where nothing is written, the empty node. -/
def Node.ofTokens? (ts : List Token) : Except Problem Node := do
  let fuel := 4 * ts.length + 4
  let (root, rest) ←
    match ts with
    | [] => pure (Node.empty, [])
    | .documentStart :: _ | .version _ _ :: _ | .tagDirective _ _ :: _ => do
      let (handles, rest) ← directives false [] ts
      match rest with
      | .documentStart :: rest =>
        let stops := [.documentStart, .documentEnd]
        match rest with
        | .version _ _ :: _ | .tagDirective _ _ :: _ => pure (Node.empty, rest)
        | _ => nodeOr (handles ++ defaultHandles) fuel true false stops rest
      | _ => throw .unexpectedToken
    | _ => node defaultHandles fuel true false ts
  if (rest.dropWhile (· == .documentEnd)).isEmpty then return root
  else throw .secondDocument

end Renaming.Yaml
