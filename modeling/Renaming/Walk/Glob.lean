/-!
Patterns for the names of directories. A star stands for any bytes, a question mark for one, square
brackets hold a class, braces hold alternatives, and a backslash takes the next byte as it is.

A name is matched from left to right. Where it fails, the last star takes one more byte. Of the
alternatives of a pair of braces each is tried, and the matching goes on behind the longest one.
-/

namespace Renaming.Glob

/-- A place in the pattern and in the name, and where to return to: the last star, and the end of
what it takes next. -/
structure Place where
  pattern : Nat
  name : Nat
  star : Nat := 0
  /-- Zero if no star has been met. -/
  next : Nat := 0
  deriving DecidableEq, Repr

/-- What is known during a match: the place, the places of the open braces, the innermost first, and
the end of the longest alternative so far. -/
structure State where
  place : Place
  braces : List Place := []
  longest : Nat := 0
  deriving DecidableEq, Repr

/-- The greatest number of braces that may be open. -/
def maxBraces : Nat := 10

/-- The byte of a character. -/
def byte (c : Char) : UInt8 := c.toNat.toUInt8

/-- The byte that a backslash and the byte behind it stand for. -/
def escaped (b : UInt8) : UInt8 :=
  if b = byte 'b' then 0x08 else if b = byte 'n' then 0x0A else if b = byte 'r' then 0x0D
  else if b = byte 't' then 0x09 else b

/-- The byte at an index of a pattern, and its last index. A backslash at the end is invalid. -/
def literal? (pattern : Array UInt8) (i : Nat) : Option (UInt8 × Nat) := do
  let b ← pattern[i]?
  if b = byte '\\' then return (escaped (← pattern[i + 1]?), i + 1) else return (b, i)

/-- The index behind double stars that follow each other, each behind a slash. -/
def skipDoubles (pattern : Array UInt8) (i : Nat) : (fuel : Nat) → Nat
  | 0 => i
  | fuel + 1 =>
    if pattern[i]? = some (byte '/') ∧ pattern[i + 1]? = some (byte '*') ∧
        pattern[i + 2]? = some (byte '*') then
      skipDoubles pattern (i + 3) fuel
    else i

/-- The members of a class from an index on, up to its closing bracket: whether the byte is among
them, and the index behind the bracket. -/
def classMembers (pattern : Array UInt8) (b : UInt8) :
    (fuel : Nat) → (i : Nat) → (first found : Bool) → Option (Bool × Nat)
  | 0, _, _, _ => none
  | fuel + 1, i, first, found => do
    let c ← pattern[i]?
    if c = byte ']' ∧ !first then return (found, i + 1)
    let (low, j) ← literal? pattern i
    let j := j + 1
    let (high, j) ←
      match pattern[j]?, pattern[j + 1]? with
      | some dash, some c =>
        if dash = byte '-' ∧ c ≠ byte ']' then
          (literal? pattern (j + 1)).map fun (high, k) => (high, k + 1)
        else some (low, j)
      | _, _ => some (low, j)
    classMembers pattern b fuel j false (found || (low ≤ b && b ≤ high))

/-- A class from the index behind its opening bracket on: whether the byte is in it, and the index
behind it. -/
def inClass? (pattern : Array UInt8) (b : UInt8) (i : Nat) : Option (Bool × Nat) :=
  let negated := pattern[i]? == some (byte '^') || pattern[i]? == some (byte '!')
  (classMembers pattern b (pattern.size + 1) (if negated then i + 1 else i) true false).map
    fun (found, j) => (found != negated, j)

/-- Where skipping over alternatives ends. -/
inductive Skipped
  | invalid
  | comma (i : Nat)
  | closed (i : Nat)
  deriving DecidableEq, Repr

/-- Skips to the next alternative, or behind the closing brace. -/
def skipBraces (pattern : Array UInt8) (atComma : Bool) :
    (fuel : Nat) → (i depth : Nat) → (inBrackets : Bool) → Skipped
  | 0, _, _, _ => .invalid
  | fuel + 1, i, depth, inBrackets =>
    if depth = 0 then .closed i
    else
      match pattern[i]? with
      | none => .invalid
      | some b =>
        if b = byte '{' ∧ !inBrackets then skipBraces pattern atComma fuel (i + 1) (depth + 1) false
        else if b = byte '}' ∧ !inBrackets then
          skipBraces pattern atComma fuel (i + 1) (depth - 1) false
        else if b = byte ',' ∧ atComma ∧ depth = 1 ∧ !inBrackets then .comma (i + 1)
        else if b = byte '*' ∧ !inBrackets ∧ pattern[i + 1]? = some (byte '*') then
          skipBraces pattern atComma fuel (skipDoubles pattern (i + 2) pattern.size) depth false
        else if b = byte '[' ∧ !inBrackets then skipBraces pattern atComma fuel (i + 1) depth true
        else if b = byte ']' then skipBraces pattern atComma fuel (i + 1) depth false
        else if b = byte '\\' then skipBraces pattern atComma fuel (i + 2) depth inBrackets
        else skipBraces pattern atComma fuel (i + 1) depth inBrackets

/-- Skips from an index of the pattern. -/
def skipFrom (pattern : Array UInt8) (atComma : Bool) (i : Nat) : Skipped :=
  skipBraces pattern atComma (pattern.size + 2) i 1 false

/-- Leaves the innermost braces for the place behind them and behind the longest alternative. -/
def State.leave (s : State) (pattern : Nat) : State :=
  match s.braces with
  | [] => s
  | outer :: rest =>
    { place := { outer with pattern, name := s.longest }
      braces := rest
      longest := if rest.isEmpty then 0 else s.longest }

/-- The state in which the last star takes one more byte, if it can. -/
def State.retry? (s : State) (length : Nat) : Option State :=
  if 0 < s.place.next ∧ s.place.next ≤ length then
    some { s with place := { s.place with pattern := s.place.star, name := s.place.next } }
  else none

/-- What a step of a match comes to. -/
inductive Step
  /-- The match goes on. -/
  | go (s : State)
  /-- The pattern does not fit here. -/
  | fail (s : State)
  /-- The pattern is invalid. -/
  | invalid
  deriving DecidableEq, Repr

/-- A star, or two of them. -/
def starStep (pattern : Array UInt8) (s : State) : Step :=
  let p := s.place
  let double := pattern[p.pattern + 1]? == some (byte '*')
  let at' := if double then skipDoubles pattern (p.pattern + 2) pattern.size - 2 else p.pattern
  let behind :=
    if !double then at' + 1
    else if pattern[at' + 2]? == some (byte '/') && p.name == 0 &&
        (at' < 1 || pattern[at' - 1]? == some (byte '/')) then at' + 3
    else at' + 2
  let s := { s with place := { p with pattern := behind, star := at', next := p.name + 1 } }
  if !s.braces.isEmpty &&
      (pattern[behind]? == some (byte ',') || pattern[behind]? == some (byte '}')) then
    match skipFrom pattern false behind with
    | .closed i | .comma i => .go { s with place := { s.place with pattern := i } }
    | .invalid => .invalid
  else .go s

/-- A byte that stands for itself. -/
def literalStep (pattern : Array UInt8) (s : State) (b : UInt8) : Step :=
  match literal? pattern s.place.pattern with
  | none => .invalid
  | some (c, i) =>
    let s := { s with place := { s.place with pattern := i } }
    if c ≠ b then .fail s
    else
      let s :=
        if !s.braces.isEmpty && 0 < i && pattern[i - 1]? == some (byte '}') then
          { s with longest := s.place.name }.leave i
        else s
      .go { s with place := { s.place with pattern := i + 1, name := s.place.name + 1 } }

/-- One step of a match. -/
def step (pattern name : Array UInt8) (s : State) : Step :=
  let p := s.place
  match pattern[p.pattern]?, name[p.name]? with
  | none, _ => .fail s
  | some c, b? =>
    if c = byte '*' then starStep pattern s
    else if c = byte '}' ∧ !s.braces.isEmpty then
      .go ({ s with longest := max s.longest p.name }.leave (p.pattern + 1))
    else if c = byte ',' ∧ !s.braces.isEmpty then
      .go { s with
        longest := max s.longest p.name
        place := { pattern := p.pattern + 1, name := (s.braces.headD p).name } }
    else
      match b? with
      | none => .fail s
      | some b =>
        if c = byte '?' then
          .go { s with place := { p with pattern := p.pattern + 1, name := p.name + 1 } }
        else if c = byte '[' then
          match inClass? pattern b (p.pattern + 1) with
          | none => .invalid
          | some (found, i) =>
            if found then .go { s with place := { p with pattern := i, name := p.name + 1 } }
            else .fail { s with place := { p with pattern := i } }
        else if c = byte '{' then
          if maxBraces ≤ s.braces.length then .invalid
          else
            .go { s with
              place := { pattern := p.pattern + 1, name := p.name }
              braces := p :: s.braces }
        else literalStep pattern s b

/-- What follows a failure: the last star takes one more byte, or the next alternative is tried. If
nothing is left, the match as a whole has failed. -/
def recover (pattern name : Array UInt8) (s : State) : Step :=
  match s.retry? name.size with
  | some s => .go s
  | none =>
    match s.braces with
    | [] => .fail s
    | outer :: rest =>
      match skipFrom pattern true s.place.pattern with
      | .invalid => .invalid
      | .comma i => .go { s with place := { s.place with pattern := i, name := outer.name } }
      | .closed i =>
        if 0 < s.longest then .go (s.leave i)
        else
          let s := { s with place := outer, braces := rest }
          ((s.retry? name.size).map Step.go).getD (.fail s)

/-- Whether the pattern fits the name from a state on; none if the pattern is invalid. -/
def run (pattern name : Array UInt8) : (fuel : Nat) → State → Option Bool
  | 0, _ => none
  | fuel + 1, s =>
    if pattern.size ≤ s.place.pattern ∧ name.size ≤ s.place.name then some true
    else
      match step pattern name s with
      | .invalid => none
      | .go s => run pattern name fuel s
      | .fail s =>
        match recover pattern name s with
        | .invalid => none
        | .go s => run pattern name fuel s
        | .fail _ => some false

/-- Whether a name fits a pattern. Each exclamation mark at the start of the pattern turns the
answer round; an invalid pattern fits nothing. -/
def fits (pattern name : String) : Bool :=
  let pattern := pattern.toUTF8.data
  let name := name.toUTF8.data
  let marks := (pattern.toList.takeWhile (· == byte '!')).length
  let fuel := (pattern.size + 2) * Nat.pow (name.size + 2) (maxBraces + 2)
  match run pattern name fuel { place := { pattern := marks, name := 0 } } with
  | some found => found != (marks % 2 == 1)
  | none => false

/-- Whether a text is meant as a pattern. -/
def isPattern (text : String) : Bool := text.toList.any ("*?[\x7b".toList.contains ·)

end Renaming.Glob
