/-!
Command scripts: words, commands with the places where their input and output come from and go to,
and statements built of commands.
-/

namespace Renaming.Script

/-! ### Words and tokens -/

/-- A part of a word. -/
inductive Part
  /-- Text as it is. -/
  | text (s : List Char)
  /-- An asterisk or a question mark outside quotes, which stands for other characters in paths. -/
  | wild (c : Char)
  /-- The value of a variable. -/
  | value (name : String)
  /-- What a script writes. -/
  | output (script : String)
  deriving DecidableEq, Repr

/-- A word. -/
abbrev Word := List Part

/-- How a place for input or output is used. -/
inductive Direction
  | source
  | target
  | append
  /-- The place is one that is already open. -/
  | copy
  deriving DecidableEq, Repr

/-- A token of a script. -/
inductive Token
  | word (w : Word)
  | sign (s : String)
  | redirect (stream : Nat) (direction : Direction)
  deriving DecidableEq, Repr

/-- The characters of a variable's name. -/
def isNameChar (c : Char) : Bool := c.isAlphanum || c == '_'

/-- The text up to the bracket that closes, where `depth` brackets are open within, and the rest. -/
def untilClosed : (depth : Nat) → List Char → Option (List Char × List Char)
  | _, [] => none
  | 0, ')' :: rest => some ([], rest)
  | depth, c :: rest =>
    let depth := if c = '(' then depth + 1 else if c = ')' then depth - 1 else depth
    (untilClosed depth rest).map fun (inner, rest) => (c :: inner, rest)

/-- The part behind a dollar sign, and the rest. A dollar sign alone is text. -/
def dollar (text : List Char) : Option (Part × List Char) :=
  match text with
  | '$' :: rest => some (.value "$", rest)
  | '?' :: rest => some (.value "?", rest)
  | '(' :: rest =>
    (untilClosed 0 rest).map fun (inner, rest) => (.output (String.ofList inner), rest)
  | '\x7b' :: rest =>
    some (.value (String.ofList (rest.takeWhile isNameChar)), (rest.dropWhile isNameChar).drop 1)
  | _ =>
    let name := text.takeWhile isNameChar
    if name.isEmpty then some (.text ['$'], text)
    else some (.value (String.ofList name), text.dropWhile isNameChar)

/-- A character, and what is behind it if it can be read. -/
def behind (p : Part) : Option (Word × List Char) → Option (Word × List Char) :=
  Option.map fun (w, rest) => (p :: w, rest)

/-- The parts between double quotes, and the rest. The quotes must be closed. -/
def doubleQuoted : (fuel : Nat) → List Char → Option (Word × List Char)
  | 0, _ | _, [] => none
  | _, '"' :: rest => some ([], rest)
  | fuel + 1, '\\' :: c :: rest =>
    let kept := if "\\\"$\x60".toList.contains c then [c] else ['\\', c]
    behind (.text kept) (doubleQuoted fuel rest)
  | fuel + 1, '$' :: rest => do
    let (p, rest) ← dollar rest
    behind p (doubleQuoted fuel rest)
  | fuel + 1, c :: rest => behind (.text [c]) (doubleQuoted fuel rest)

/-- The characters that end a word. -/
def endsWord (c : Char) : Bool := " \t\n;&|<>()".toList.contains c

/-- A word, and the rest. Quotes in it must be closed. -/
def word : (fuel : Nat) → List Char → Option (Word × List Char)
  | 0, text => some ([], text)
  | _, [] => some ([], [])
  | fuel + 1, '\'' :: rest => do
    let '\'' :: left := rest.dropWhile (· != '\'') | none
    behind (.text (rest.takeWhile (· != '\''))) (word fuel left)
  | fuel + 1, '"' :: rest => do
    let (inner, rest) ← doubleQuoted fuel rest
    let (w, rest) ← word fuel rest
    return (.text [] :: inner ++ w, rest)
  | fuel + 1, '\\' :: c :: rest => behind (.text [c]) (word fuel rest)
  | fuel + 1, '$' :: rest => do
    let (p, rest) ← dollar rest
    behind p (word fuel rest)
  | fuel + 1, c :: rest =>
    if endsWord c then some ([], c :: rest)
    else if c = '*' ∨ c = '?' then behind (.wild c) (word fuel rest)
    else behind (.text [c]) (word fuel rest)

/-- A redirection behind the number of its stream, and the rest. -/
def redirection? (stream : Option Nat) (text : List Char) : Option (Token × List Char) :=
  match text with
  | '>' :: '>' :: rest => some (.redirect (stream.getD 1) .append, rest)
  | '>' :: '&' :: rest => some (.redirect (stream.getD 1) .copy, rest)
  | '>' :: rest => some (.redirect (stream.getD 1) .target, rest)
  | '<' :: '&' :: rest => some (.redirect (stream.getD 0) .copy, rest)
  | '<' :: rest => some (.redirect (stream.getD 0) .source, rest)
  | _ => none

/-- The sign or redirection that comes next, and the rest. -/
def sign? (text : List Char) : Option (Token × List Char) :=
  match text with
  | '&' :: '&' :: rest => some (.sign "&&", rest)
  | '|' :: '|' :: rest => some (.sign "||", rest)
  | '\n' :: rest => some (.sign ";", rest)
  | c :: rest =>
    if ";&|()".toList.contains c then some (.sign c.toString, rest)
    else if c.isDigit then redirection? (some (c.toNat - '0'.toNat)) rest
    else redirection? none text
  | [] => none

/-- The tokens of a script; none if a quote is not closed. -/
def tokens : (fuel : Nat) → List Char → Option (List Token)
  | 0, _ => some []
  | fuel + 1, text =>
    match text.dropWhile fun c => c == ' ' || c == '\t' with
    | [] => some []
    | '#' :: rest => tokens fuel (rest.dropWhile (· != '\n'))
    | c :: rest =>
      match sign? (c :: rest) with
      | some (t, rest) => (tokens fuel rest).map (t :: ·)
      | none => do
        let (w, rest) ← word fuel (c :: rest)
        (tokens fuel rest).map (.word w :: ·)

/-! ### Statements -/

/-- A place for the input or the output of a command. -/
structure Redirect where
  stream : Nat
  direction : Direction
  place : Word
  deriving DecidableEq, Repr

/-- A statement. -/
inductive Statement
  | nothing
  | command (words : List Word)
  /-- Statements of which each reads what the one before it writes. -/
  | pipe (first second : Statement)
  | not (s : Statement)
  /-- The second statement is carried out after the first if that ends well, or if it does not. -/
  | after (ifWell : Bool) (first second : Statement)
  | both (first second : Statement)
  /-- The next statement does not wait for this one. -/
  | aside (s : Statement)
  /-- A statement that leaves its surroundings as they are. -/
  | inside (s : Statement)
  | redirected (s : Statement) (places : List Redirect)
  | cond (test yes no : Statement)
  /-- The body is repeated as long as the test ends well, or as long as it does not. -/
  | loop (whileWell : Bool) (test body : Statement)
  | each (name : String) (words : List Word) (body : Statement)
  deriving Repr

/-- The text of a word that is a plain name or keyword. -/
def plain? (w : Word) : Option String :=
  let texts := w.mapM fun
    | Part.text s => some s
    | _ => none
  texts.map fun texts => String.ofList texts.flatten

/-- The keyword that comes next. -/
def keyword? : List Token → Option String
  | .word w :: _ => plain? w
  | .sign s :: _ => some s
  | _ => none

/-- The rest behind a keyword. -/
def expect (s : String) (ts : List Token) : Option (List Token) :=
  if keyword? ts = some s then some (ts.drop 1) else none

/-- The words that cannot start a command. -/
def closers : List String := ["then", "else", "elif", "fi", "do", "done", "\x7d", ")"]

/-- The words and redirections of a command, and the rest. -/
def commandParts : List Token → Option (List Word × List Redirect × List Token)
  | .word w :: rest => do
    let (ws, rs, rest) ← commandParts rest
    return (w :: ws, rs, rest)
  | .redirect n d :: .word w :: rest => do
    let (ws, rs, rest) ← commandParts rest
    return (ws, ⟨n, d, w⟩ :: rs, rest)
  | .redirect .. :: _ => none
  | ts => some ([], [], ts)

/-- The words up to the next sign, and the rest. -/
def wordsOf : List Token → List Word × List Token
  | .word w :: rest => let (ws, rest) := wordsOf rest; (w :: ws, rest)
  | ts => ([], ts)

/-- The tokens behind line breaks and semicolons. -/
def dropBreaks (ts : List Token) : List Token := ts.dropWhile (· == .sign ";")

/-- A statement with redirections, if there are any. -/
def Statement.to (s : Statement) (places : List Redirect) : Statement :=
  if places.isEmpty then s else .redirected s places

mutual

/-- Statements one after the other, up to a word that closes, and the rest. -/
def statements : (fuel : Nat) → List Token → Option (Statement × List Token)
  | 0, _ => none
  | fuel + 1, ts => do
    let ts := dropBreaks ts
    if ts.isEmpty || (keyword? ts).any closers.contains then return (.nothing, ts)
    let (s, ts) ← chain fuel ts
    match ts with
    | .sign ";" :: rest => let (t, rest) ← statements fuel rest; return (.both s t, rest)
    | .sign "&" :: rest => let (t, rest) ← statements fuel rest; return (.both (.aside s) t, rest)
    | ts => return (s, ts)

/-- Statements joined by double signs. -/
def chain : (fuel : Nat) → List Token → Option (Statement × List Token)
  | 0, _ => none
  | fuel + 1, ts => do
    let (s, ts) ← pipeline fuel ts
    chainFrom fuel s ts

/-- The same behind the first statement. -/
def chainFrom : (fuel : Nat) → Statement → List Token → Option (Statement × List Token)
  | 0, _, _ => none
  | fuel + 1, s, ts =>
    let more (ifWell : Bool) (rest : List Token) : Option (Statement × List Token) := do
      let (t, rest) ← pipeline fuel (dropBreaks rest)
      chainFrom fuel (.after ifWell s t) rest
    match ts with
    | .sign "&&" :: rest => more true rest
    | .sign "||" :: rest => more false rest
    | ts => some (s, ts)

/-- Statements joined by bars. -/
def pipeline : (fuel : Nat) → List Token → Option (Statement × List Token)
  | 0, _ => none
  | fuel + 1, ts =>
    if keyword? ts = some "!" then do
      let (s, rest) ← pipeline fuel (ts.drop 1)
      return (.not s, rest)
    else do
      let (s, ts) ← single fuel ts
      match ts with
      | .sign "|" :: rest =>
        let (t, rest) ← pipeline fuel (dropBreaks rest)
        return (.pipe s t, rest)
      | ts => return (s, ts)

/-- One statement. -/
def single : (fuel : Nat) → List Token → Option (Statement × List Token)
  | 0, _ => none
  | fuel + 1, ts => do
    let (s, rest) ←
      match keyword? ts with
      | some "(" => do
        let (s, rest) ← statements fuel (ts.drop 1)
        pure (Statement.inside s, ← expect ")" rest)
      | some "\x7b" => do
        let (s, rest) ← statements fuel (ts.drop 1)
        pure (s, ← expect "\x7d" rest)
      | some "if" => branches fuel (ts.drop 1)
      | some "while" => repeated fuel true (ts.drop 1)
      | some "until" => repeated fuel false (ts.drop 1)
      | some "for" => do
        let .word w :: rest := ts.drop 1 | none
        let (ws, rest) := wordsOf (← expect "in" rest)
        let (body, rest) ← statements fuel (← expect "do" (dropBreaks rest))
        pure (.each (← plain? w) ws body, ← expect "done" rest)
      | some key =>
        if closers.contains key then none
        else do
          let (ws, rs, rest) ← commandParts ts
          if ws.isEmpty && rs.isEmpty then none else pure (Statement.to (.command ws) rs, rest)
      | none => do
        let (ws, rs, rest) ← commandParts ts
        if ws.isEmpty && rs.isEmpty then none else pure (Statement.to (.command ws) rs, rest)
    let (ws, rs, rest) ← commandParts rest
    if ws.isEmpty then return (s.to rs, rest) else none

/-- The branches of a condition. -/
def branches : (fuel : Nat) → List Token → Option (Statement × List Token)
  | 0, _ => none
  | fuel + 1, ts => do
    let (test, rest) ← statements fuel ts
    let (yes, rest) ← statements fuel (← expect "then" rest)
    match keyword? rest with
    | some "elif" =>
      let (no, rest) ← branches fuel (rest.drop 1)
      return (.cond test yes no, rest)
    | some "else" =>
      let (no, rest) ← statements fuel (rest.drop 1)
      return (.cond test yes no, ← expect "fi" rest)
    | _ => return (.cond test yes .nothing, ← expect "fi" rest)

/-- A loop behind its first word. -/
def repeated : (fuel : Nat) → (whileWell : Bool) → List Token → Option (Statement × List Token)
  | 0, _, _ => none
  | fuel + 1, whileWell, ts => do
    let (test, rest) ← statements fuel ts
    let (body, rest) ← statements fuel (← expect "do" rest)
    return (.loop whileWell test body, ← expect "done" rest)

end

/-- The statement that a script describes; none if it is malformed. -/
def parse (text : String) : Option Statement := do
  let ts ← tokens (text.length + 1) text.toList
  let (s, rest) ← statements (10 * ts.length + 10) ts
  if rest.isEmpty then some s else none

end Renaming.Script
