import Renaming.Yaml.Cursor

/-!
The texts of scalars: plain, between quotes, and in blocks. Line breaks inside a scalar are folded:
a single one counts as a blank, of several the first is dropped.
-/

namespace Renaming.Yaml

/-! ### Gaps -/

/-- The blanks and line breaks between two words of a scalar. -/
structure Gap where
  /-- Whether a line break has been met. -/
  broken : Bool := false
  /-- The blanks in front of the first line break. -/
  blanks : List Char := []
  /-- The first line break. -/
  first : List Char := []
  /-- The line breaks after it. -/
  more : List Char := []

/-- What a gap counts as. -/
def Gap.fold (g : Gap) : List Char :=
  if !g.broken then g.blanks
  else if g.first = ['\n'] then if g.more.isEmpty then [' '] else g.more
  else g.first ++ g.more

/-- Reads a gap. On a new line a tab in front of the column `limit` is refused. -/
def readGap (limit : Int) : (fuel : Nat) → Gap → Cursor → Except Problem (Gap × Cursor)
  | 0, g, c => .ok (g, c)
  | fuel + 1, g, c =>
    match c.rest with
    | [] => .ok (g, c)
    | x :: _ =>
      if isBlank x then
        if g.broken then
          if x = '\t' ∧ (c.column : Int) < limit then .error .tabInIndentation
          else readGap limit fuel g (c.skip 1)
        else readGap limit fuel { g with blanks := g.blanks ++ [x] } (c.skip 1)
      else if isBreak x then
        let (text, c) := c.lineBreak
        if g.broken then readGap limit fuel { g with more := g.more ++ text } c
        else readGap limit fuel { g with broken := true, blanks := [], first := text } c
      else .ok (g, c)

/-- The gap that comes next. -/
def Cursor.gap (c : Cursor) (limit : Int) (g : Gap := {}) : Except Problem (Gap × Cursor) :=
  readGap limit (c.rest.length + 1) g c

/-! ### Plain scalars -/

/-- The characters that separate the parts of a collection in brackets. -/
def isFlowMark (c : Char) : Bool := c == ',' || c == '[' || c == ']' || c == '\x7b' || c == '\x7d'

/-- How many of the next characters belong to a word of a plain scalar. -/
def plainWord (flow : Bool) : List Char → Except Problem Nat
  | [] => .ok 0
  | x :: rest =>
    if isBlank x || isBreak x then .ok 0
    else if flow && x == ':' && (rest.head?.any fun y => isFlowMark y || y == '?') then
      .error .colonInFlow
    else if (x == ':' && atGap rest) || (flow && isFlowMark x) then .ok 0
    else (plainWord flow rest).map (· + 1)

/-- A plain scalar: its text, whether a new line has begun behind it, and the place behind it. It
goes on over lines that are indented to the column `limit`. -/
def plainScalar (flow : Bool) (limit : Int) :
    (fuel : Nat) → (text : List Char) → Gap → Cursor → Except Problem (List Char × Bool × Cursor)
  | 0, text, g, c => .ok (text, g.broken, c)
  | fuel + 1, text, g, c =>
    if c.atMark || c.rest.head? == some '#' then .ok (text, g.broken, c)
    else do
      let n ← plainWord flow c.rest
      if n = 0 then return (text, g.broken, c)
      let text := text ++ g.fold ++ c.rest.take n
      let c := c.skip n
      if c.rest.isEmpty || !atGap c.rest then return (text, false, c)
      let (g, c) ← c.gap limit
      if !flow && (c.column : Int) < limit then return (text, g.broken, c)
      plainScalar flow limit fuel text g c

/-! ### Quoted scalars -/

/-- The number that hexadecimal digits write. -/
def hexValue? (digits : List Char) : Option Nat :=
  digits.foldlM (fun n c =>
    if c.isDigit then some (n * 16 + (c.toNat - '0'.toNat))
    else if 'a' ≤ c ∧ c ≤ 'f' then some (n * 16 + (c.toNat - 'a'.toNat + 10))
    else if 'A' ≤ c ∧ c ≤ 'F' then some (n * 16 + (c.toNat - 'A'.toNat + 10))
    else none) 0

/-- The character whose number is written by the next `count` characters. -/
def numbered (count : Nat) (c : Cursor) : Except Problem (Char × Cursor) :=
  if c.rest.length < count then .error .badEscape
  else
    match hexValue? (c.rest.take count) with
    | none => .error .badEscape
    | some n =>
      if (0xD800 ≤ n ∧ n ≤ 0xDFFF) ∨ 0x10FFFF < n then .error .badEscape
      else .ok (Char.ofNat n, c.skip count)

/-- The character of an escape, from the character behind the backslash on. -/
def escaped (c : Cursor) : Except Problem (Char × Cursor) :=
  match c.rest with
  | [] => .error .badEscape
  | x :: _ =>
    let after := c.skip 1
    match x with
    | '0' => .ok ('\x00', after)
    | 'a' => .ok ('\x07', after)
    | 'b' => .ok ('\x08', after)
    | 't' | '\t' => .ok ('\t', after)
    | 'n' => .ok ('\n', after)
    | 'v' => .ok ('\x0b', after)
    | 'f' => .ok ('\x0c', after)
    | 'r' => .ok ('\r', after)
    | 'e' => .ok ('\x1b', after)
    | ' ' | '"' | '/' | '\\' => .ok (x, after)
    | 'N' => .ok ('\x85', after)
    | '_' => .ok ('\xa0', after)
    | 'L' => .ok ('\u2028', after)
    | 'P' => .ok ('\u2029', after)
    | 'x' => numbered 2 after
    | 'u' => numbered 4 after
    | 'U' => numbered 8 after
    | _ => .error .badEscape

/-- A quoted scalar behind its opening quote: its text, and the place behind its closing quote. -/
def quotedScalar (double : Bool) :
    (fuel : Nat) → (text : List Char) → Cursor → Except Problem (List Char × Cursor)
  | 0, _, _ => .error .unclosedQuote
  | fuel + 1, text, c => do
    if c.atMark then throw .documentMarkInQuote
    match c.rest with
    | [] => throw .unclosedQuote
    | x :: rest =>
      if !double && x == '\'' then
        if rest.head? == some '\'' then quotedScalar double fuel (text ++ ['\'']) (c.skip 2)
        else return (text, c.skip 1)
      else if double && x == '"' then return (text, c.skip 1)
      else if double && x == '\\' then
        if !rest.isEmpty && atLineEnd rest then
          let (_, c) := (c.skip 1).lineBreak
          let (g, c) ← c.gap 0 { broken := true }
          quotedScalar double fuel (text ++ g.fold) c
        else
          let (y, c) ← escaped (c.skip 1)
          quotedScalar double fuel (text ++ [y]) c
      else if isBlank x || isBreak x then
        let (g, c) ← c.gap 0
        quotedScalar double fuel (text ++ g.fold) c
      else quotedScalar double fuel (text ++ [x]) (c.skip 1)

/-! ### Block scalars -/

/-- What becomes of the line breaks at the end of a block scalar. -/
inductive Chomping
  | strip
  | clip
  | keep
  deriving DecidableEq, Repr

/-- The sign for the line breaks at the end, if it comes next. -/
def chomping? (c : Cursor) : Option Chomping × Cursor :=
  match c.rest with
  | '+' :: _ => (some .keep, c.skip 1)
  | '-' :: _ => (some .strip, c.skip 1)
  | _ => (none, c)

/-- The digit for the indentation, if it comes next. -/
def increment? (c : Cursor) : Except Problem (Option Nat × Cursor) :=
  match c.rest with
  | x :: _ =>
    if x == '0' then .error .badBlockHeader
    else if x.isDigit then .ok (some (x.toNat - '0'.toNat), c.skip 1)
    else .ok (none, c)
  | [] => .ok (none, c)

/-- The rest of the line of a block scalar's sign: its two indicators in either order, and a
comment. -/
def blockHeader (c : Cursor) : Except Problem (Chomping × Option Nat × Cursor) := do
  let (first, c) := chomping? c
  let (increment, c) ← increment? c
  let (second, c) := if first.isNone && increment.isSome then chomping? c else (none, c)
  let c := (c.skipWhile isBlank).skipComment
  if !atLineEnd c.rest then throw .badBlockHeader
  return (((first <|> second).getD .clip), increment, c.lineBreak.2)

/-- The empty lines that come next, and the place where the text of the next line starts. Unless
the indentation is known, the greatest number of blanks met at the start of these lines comes
out too. -/
def emptyLines (indent : Option Nat) :
    (fuel : Nat) → (widest : Nat) → (breaks : List Char) → Cursor →
      Except Problem (Nat × List Char × Cursor)
  | 0, widest, breaks, c => .ok (widest, breaks, c)
  | fuel + 1, widest, breaks, c =>
    let margin := c.rest.takeWhile (· == ' ')
    let c := c.skip <| match indent with
      | none => margin.length
      | some n => min margin.length (n - c.column)
    let widest := max widest c.column
    let inMargin := match indent with
      | none => true
      | some n => decide (c.column < n)
    match c.rest with
    | x :: _ =>
      if inMargin && x == '\t' then .error .tabInIndentation
      else if isBreak x then
        let (text, c) := c.lineBreak
        emptyLines indent fuel widest (breaks ++ text) c
      else .ok (widest, breaks, c)
    | [] => .ok (widest, breaks, c)

/-- The lines of a block scalar. The line break behind the text so far is `pending`, the empty
lines behind it are `breaks`, and `spaced` says whether its last line started with a blank. -/
def blockLines (literal : Bool) (indent : Nat) (chomping : Chomping) :
    (fuel : Nat) → (text pending breaks : List Char) → (spaced : Bool) → Cursor →
      Except Problem (List Char × Cursor)
  | 0, text, _, _, _, c => .ok (text, c)
  | fuel + 1, text, pending, breaks, spaced, c =>
    if c.column ≠ indent ∨ c.rest.isEmpty then
      .ok (text ++ (if chomping = .strip then [] else pending) ++
        (if chomping = .keep then breaks else []), c)
    else do
      let blank := c.rest.head?.any isBlank
      let joined :=
        if !literal && pending == ['\n'] && !spaced && !blank then
          if breaks.isEmpty then [' '] else []
        else pending
      let (line, c) := c.takeWhile (!isBreak ·)
      let (pending', c) := c.lineBreak
      let (_, breaks', c) ← emptyLines (some indent) (c.rest.length + 1) 0 [] c
      blockLines literal indent chomping fuel (text ++ joined ++ breaks ++ line) pending' breaks'
        blank c

/-- A block scalar behind its sign, inside a collection that is indented by `parent`. -/
def blockScalar (literal : Bool) (parent : Int) (c : Cursor) :
    Except Problem (List Char × Cursor) := do
  let (chomping, increment, c) ← blockHeader c
  let known := increment.map fun n => if 0 ≤ parent then parent.toNat + n else n
  let (widest, breaks, c) ← emptyLines known (c.rest.length + 1) 0 [] c
  let indent := known.getD (max widest (max (parent + 1).toNat 1))
  blockLines literal indent chomping (c.rest.length + 1) [] [] breaks false c

end Renaming.Yaml
