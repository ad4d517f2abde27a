import Renaming.Yaml.Token

/-!
From a YAML text to its tokens. Whether a piece of text is the key of a mapping shows only when
the colon behind it is met; until then the place of a possible key is remembered, and its token is
put there afterwards.
-/

namespace Renaming.Yaml

/-- A place where a key may have started. -/
structure Candidate where
  /-- The number of tokens in front of it. -/
  place : Nat
  index : Nat
  line : Nat
  column : Nat
  /-- Whether a key must start here, since nothing else fits the indentation. -/
  required : Bool

/-- What is known between two tokens. -/
structure Scanner where
  cursor : Cursor
  /-- The tokens so far, the newest first. -/
  tokens : List Token := []
  /-- The number of brackets that are open. -/
  flow : Nat := 0
  /-- The column of the innermost block collection, and those around it. -/
  indent : Int := -1
  outer : List Int := []
  /-- Whether a key may start here. -/
  keyAllowed : Bool := true
  /-- For each open bracket, the innermost first, and for the text around them: the place where a
  key may have started. -/
  candidates : List (Option Candidate) := [none]

namespace Scanner

/-- One more token. -/
def push (s : Scanner) (t : Token) : Scanner := { s with tokens := t :: s.tokens }

/-- Puts tokens, the last one first, behind the first `place` ones. -/
def insertAt (s : Scanner) (place : Nat) (ts : List Token) : Scanner :=
  let behind := s.tokens.length - place
  { s with tokens := s.tokens.take behind ++ ts ++ s.tokens.drop behind }

/-- Gives up the place where a key may have started. -/
def dropCandidate (s : Scanner) : Except Problem Scanner :=
  match s.candidates with
  | some k :: rest =>
    if k.required then .error .missingColon else .ok { s with candidates := none :: rest }
  | _ => .ok s

/-- Remembers that a key may start here. -/
def saveCandidate (s : Scanner) : Except Problem Scanner :=
  if !s.keyAllowed then .ok s
  else do
    let s ← s.dropCandidate
    let k : Candidate :=
      { place := s.tokens.length, index := s.cursor.index, line := s.cursor.line,
        column := s.cursor.column,
        required := s.flow == 0 && s.indent == (s.cursor.column : Int) }
    return { s with candidates := some k :: s.candidates.drop 1 }

/-- Gives up the candidates that are not on this line, or too far back. -/
def dropStale (s : Scanner) : Except Problem Scanner := do
  let candidates ← s.candidates.mapM fun
    | none => pure none
    | some k =>
      if k.line < s.cursor.line ∨ k.index + 1024 < s.cursor.index then
        if k.required then throw Problem.missingColon else pure none
      else pure (some k)
  return { s with candidates }

/-- Opens a block collection at a column if the text is not already in one. -/
def indentTo (s : Scanner) (column : Nat) (place : Nat) (t : Token) : Scanner :=
  if s.flow = 0 ∧ s.indent < column then
    { s.insertAt place [t] with indent := column, outer := s.indent :: s.outer }
  else s

/-- Closes the block collections that are indented further than a column. -/
def closeTo (s : Scanner) (column : Int) : Scanner :=
  if s.flow = 0 then go s s.outer else s
where
  go (s : Scanner) : List Int → Scanner
    | [] => s
    | i :: outer =>
      if column < s.indent then go { s.push .blockEnd with indent := i, outer } outer else s

/-- Passes over blanks, comments and line breaks, and byte order marks at the start of a line. -/
def skipGaps (s : Scanner) : (fuel : Nat) → Scanner
  | 0 => s
  | fuel + 1 =>
    let tabs := 0 < s.flow || !s.keyAllowed
    let c := s.cursor.skipOrderMark
    let c := (c.skipWhile fun x => x == ' ' || (tabs && x == '\t')).skipComment
    if !c.rest.isEmpty && atLineEnd c.rest then
      let s := { s with cursor := c.lineBreak.2 }
      (if s.flow = 0 then { s with keyAllowed := true } else s).skipGaps fuel
    else { s with cursor := c }

/-- The scanner behind a mark of `n` characters. -/
def past (s : Scanner) (n : Nat) (t : Token) : Scanner :=
  { s.push t with cursor := s.cursor.skip n }

/-- A line that starts or ends a document, or the end of the text: all blocks are closed. -/
def boundary (s : Scanner) : Except Problem Scanner :=
  return { ← (s.closeTo (-1)).dropCandidate with keyAllowed := false }

/-- A scalar, an alias, an anchor or a tag: a key may start with it. -/
def word (s : Scanner) (read : Cursor → Except Problem (Token × Cursor)) :
    Except Problem Scanner := do
  let s ← s.saveCandidate
  let (t, c) ← read s.cursor
  return { s.push t with cursor := c, keyAllowed := false }

/-- An opening bracket. -/
def openFlow (s : Scanner) (t : Token) : Except Problem Scanner := do
  let s ← s.saveCandidate
  return { s.past 1 t with
    flow := s.flow + 1, candidates := none :: s.candidates, keyAllowed := true }

/-- A closing bracket. -/
def closeFlow (s : Scanner) (t : Token) : Except Problem Scanner := do
  let s ← s.dropCandidate
  return { s.past 1 t with
    flow := s.flow - 1
    candidates := if s.flow = 0 then s.candidates else s.candidates.drop 1
    keyAllowed := false }

/-- A comma between brackets. -/
def comma (s : Scanner) : Except Problem Scanner := do
  return { (← s.dropCandidate).past 1 .comma with keyAllowed := true }

/-- The hyphen of an entry. -/
def entry (s : Scanner) : Except Problem Scanner := do
  if s.flow = 0 && !s.keyAllowed then throw .entryNotAllowed
  let s := s.indentTo s.cursor.column s.tokens.length .blockSequence
  return { (← s.dropCandidate).past 1 .entry with keyAllowed := true }

/-- The question mark of a key. -/
def key (s : Scanner) : Except Problem Scanner := do
  if s.flow = 0 && !s.keyAllowed then throw .keyNotAllowed
  let s := s.indentTo s.cursor.column s.tokens.length .blockMapping
  return { (← s.dropCandidate).past 1 .key with keyAllowed := s.flow == 0 }

/-- The colon of a value. If a key may have started before it, one has. -/
def value (s : Scanner) : Except Problem Scanner :=
  match s.candidates with
  | some k :: rest =>
    let s := (s.insertAt k.place [.key]).indentTo k.column k.place .blockMapping
    .ok { s.past 1 .value with candidates := none :: rest, keyAllowed := false }
  | _ => do
    if s.flow = 0 && !s.keyAllowed then throw .valueNotAllowed
    let s := s.indentTo s.cursor.column s.tokens.length .blockMapping
    return { s.past 1 .value with keyAllowed := s.flow == 0 }

/-- A block scalar. -/
def block (s : Scanner) (literal : Bool) : Except Problem Scanner := do
  let s ← s.dropCandidate
  let (text, c) ← blockScalar literal s.indent (s.cursor.skip 1)
  return { s.push (.scalar text false) with cursor := c, keyAllowed := true }

/-- A quoted scalar. -/
def quoted (s : Scanner) (double : Bool) : Except Problem Scanner :=
  s.word fun c => do
    let (text, c) ← quotedScalar double (c.rest.length + 1) [] (c.skip 1)
    return (.scalar text false, c)

/-- A plain scalar. A new line behind it may start with a key. -/
def plain (s : Scanner) : Except Problem Scanner := do
  let s ← s.saveCandidate
  let (text, broken, c) ←
    plainScalar (0 < s.flow) (s.indent + 1) (s.cursor.rest.length + 1) [] {} s.cursor
  return { s.push (.scalar text true) with cursor := c, keyAllowed := broken }

/-- The token that comes next, when the gap in front of it has been passed. -/
def token (s : Scanner) (x : Char) (rest : List Char) : Except Problem Scanner := do
  let inFlow := 0 < s.flow
  if s.cursor.column = 0 ∧ x = '%' then
    let s ← s.boundary
    let (t, c) ← directive (s.cursor.skip 1)
    return { s.push t with cursor := c }
  if s.cursor.atMark then
    return (← s.boundary).past 3 (if x = '-' then .documentStart else .documentEnd)
  match x with
  | '[' => s.openFlow .flowSequence
  | '\x7b' => s.openFlow .flowMapping
  | ']' => s.closeFlow .flowSequenceEnd
  | '\x7d' => s.closeFlow .flowMappingEnd
  | ',' => s.comma
  | '*' => s.word fun c => do let (n, c) ← anchorName (c.skip 1); return (.alias n, c)
  | '&' => s.word fun c => do let (n, c) ← anchorName (c.skip 1); return (.anchor n, c)
  | '!' => s.word fun c => do let (t, c) ← tagToken inFlow c; return (.tag t, c)
  | '\'' => s.quoted false
  | '"' => s.quoted true
  | '|' => if inFlow then throw .unexpectedCharacter else s.block true
  | '>' => if inFlow then throw .unexpectedCharacter else s.block false
  | '-' =>
    if atGap rest then s.entry
    else s.plain
  | '?' => if inFlow || atGap rest then s.key else s.plain
  | ':' => if inFlow || atGap rest then s.value else s.plain
  | _ => if "#%@\x60\t".toList.contains x then throw .unexpectedCharacter else s.plain

/-- All tokens from here on. -/
def run (s : Scanner) : (fuel : Nat) → Except Problem Scanner
  | 0 => .ok s
  | fuel + 1 => do
    let s ← (s.skipGaps (s.cursor.rest.length + 1)).dropStale
    let s := s.closeTo s.cursor.column
    match s.cursor.rest with
    | [] => s.boundary
    | x :: rest => (← s.token x rest).run fuel

end Scanner

/-- The tokens of a text. Every token takes a character of the text, so the fuel is never used
up. -/
def tokensOf (text : List Char) : Except Problem (List Token) := do
  let text := if text.head? = some orderMark then text.drop 1 else text
  if !text.all isAllowed then throw .forbiddenCharacter
  let s ← ({ cursor := { rest := text } : Scanner }).run (text.length + 1)
  return s.tokens.reverse

end Renaming.Yaml
