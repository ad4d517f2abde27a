import Renaming.Machine.Command
import Renaming.Machine.Script
import Renaming.Walk.Glob

/-!
One choice of what the programs of a system do: a shell, and the commands it starts.
-/

namespace Renaming.Shell

open Renaming.Script

/-! ### Words -/

/-- A character of a word, and whether it stands for other characters. -/
abbrev Mark := Char × Bool

/-- The text of marks. -/
def textOf (marks : List Mark) : String := String.ofList (marks.map Prod.fst)

/-- The marks of a text. -/
def plainMarks (text : List Char) : List Mark := text.map (·, false)

/-- The pattern that marks write. -/
def patternOf (marks : List Mark) : String :=
  String.ofList <| marks.flatMap fun (c, wild) =>
    if wild || !"*?[]\x7b\x7d,!\\".toList.contains c then [c] else ['\\', c]

/-- The marks between slashes. -/
def splitMarks (marks : List Mark) : List (List Mark) :=
  marks.foldr (fun mark parts =>
    match parts with
    | [] => [[mark]]
    | part :: parts => if mark.1 = '/' then [] :: part :: parts else (mark :: part) :: parts) [[]]

/-- The names in a directory that fit marks, in order. Hidden ones must be asked for. -/
def namesFitting (m : Machine) (dir : String) (marks : List Mark) : List String :=
  let hidden := marks.head?.any (·.1 == '.')
  let entries := (m.list (if dir.isEmpty then "." else dir)).toOption.getD []
  let fits (name : String) : Bool :=
    (hidden || name.toList.head? != some '.') && Glob.fits (patternOf marks) name
  ((entries.map Prod.fst).filter fits).mergeSort fun a b => decide (a ≤ b)

/-- The paths that start in one of some ways and go on as parts of a pattern say. -/
def pathsFrom (m : Machine) : (ways : List String) → List (List Mark) → List String
  | ways, [] => ways
  | ways, part :: rest =>
    let slash := if rest.isEmpty then "" else "/"
    pathsFrom m (ways.flatMap fun way =>
      let names := if part.any (·.2) then namesFitting m way part else [textOf part]
      names.map fun name => way ++ name ++ slash) rest

/-- The paths that a word names: those that fit if it is a pattern, or else itself. -/
def pathsOf (m : Machine) (marks : List Mark) : List String :=
  if marks.any (·.2) then
    match (pathsFrom m [""] (splitMarks marks)).filter fun path => (m.kind? path).isSome with
    | [] => [textOf marks]
    | paths => paths
  else [textOf marks]

/-- The value of a variable. -/
def valueOf (s : State) (name : String) : String :=
  match name with
  | "?" => toString s.status
  | "$" => "$$"
  | "PWD" => Machine.pathOf s.machine.here
  | name => (s.bindings.lookup name).getD ""

/-- The name and the value of an assignment. -/
def assignment? (word : String) : Option (String × String) :=
  let name := word.toList.takeWhile isNameChar
  match word.toList.dropWhile isNameChar with
  | '=' :: value =>
    if name.isEmpty || name.head?.any Char.isDigit then none
    else some (String.ofList name, String.ofList value)
  | _ => none

/-- The state with a value for a variable. -/
def State.assign (s : State) (binding : String × String) : State :=
  { s with bindings := binding :: s.bindings }

/-! ### Commands that belong to the shell -/

/-- The status that the argument of an exit asks for. -/
def exitStatus (s : State) : List String → Nat
  | [] => s.status
  | a :: _ => (a.toNat?.map (· % 256)).getD 2

/-- The signals that do nothing unless they are asked for. -/
def harmlessSignals : List String := ["0", "17", "CHLD", "18", "CONT", "23", "URG", "28", "WINCH"]

/-- The state after a signal is sent. -/
def signal (s : State) (args : List String) : State :=
  let names := (args.filter isFlag).map fun a => String.ofList (a.toList.drop 1)
  let words := args.filter (!isFlag ·)
  if words.getLast? ≠ some "$$" then s.ends 1
  else if (names ++ words).any harmlessSignals.contains then s.ends 0
  else { s with done := true, killed := true }.ends 0

/-- What is known about the places of a command. -/
structure Opened where
  machine : Machine
  input : String
  /-- The file that the output goes to; no text if it goes nowhere. -/
  target : Option String := none

/-- The places of a command with one more; none if it cannot be opened. -/
def Opened.add (o : Opened) (r : Redirect) (path : String) : Option Opened :=
  match r.direction with
  | .source =>
    if path = "/dev/null" then some { o with input := "" }
    else (textOf? o.machine path).map fun input => { o with input }
  | .copy => some (if r.stream = 1 ∧ path ≠ "1" then { o with target := some "" } else o)
  | direction =>
    let aim (target : Option String) : Option Opened :=
      some (if r.stream = 1 then { o with target } else o)
    if path = "/dev/null" ∨ path = "/dev/stderr" then aim (some "")
    else if path = "/dev/stdout" then aim none
    else do
      let old := if direction = .append then (o.machine.read path).toOption else none
      let machine ← granted (o.machine.write path (old.getD ByteArray.empty))
      some { o with machine, target := if r.stream = 1 then some path else o.target }

/-- The state with the output of a command in the place where it goes. -/
def State.deliver (s : State) (before : String) (target : Option String) : State :=
  match target with
  | none => { s with output := before ++ s.output }
  | some "" => { s with output := before }
  | some path =>
    let old := (s.machine.read path).toOption.getD ByteArray.empty
    let machine := (granted (s.machine.write path (old ++ s.output.toUTF8))).getD s.machine
    { s with output := before, machine }

/-! ### Running -/

mutual

/-- The marks of a word. -/
def marksOf : (fuel : Nat) → State → Word → State × List Mark
  | 0, s, _ => (s, [])
  | _, s, [] => (s, [])
  | fuel + 1, s, part :: rest =>
    let (s, marks) : State × List Mark :=
      match part with
      | .text cs => (s, plainMarks cs)
      | .wild c => (s, [(c, true)])
      | .value name => (s, plainMarks (valueOf s name).toList)
      | .output script =>
        let inner := shell fuel { s with output := "" } script ""
        let text := (inner.output.toList.reverse.dropWhile (· == '\n')).reverse
        ({ inner with output := s.output }, plainMarks text)
    let (s, more) := marksOf fuel s rest
    (s, marks ++ more)

/-- The texts of words. A word of nothing but empty values is none. -/
def textsOf : (fuel : Nat) → State → List Word → State × List String
  | 0, s, _ => (s, [])
  | _, s, [] => (s, [])
  | fuel + 1, s, w :: rest =>
    let (s, marks) := marksOf fuel s w
    let isText (p : Part) : Bool :=
      match p with
      | .text _ => true
      | _ => false
    let texts := if marks.isEmpty && !w.any isText then [] else pathsOf s.machine marks
    let (s, more) := textsOf fuel s rest
    (s, texts ++ more)

/-- The state after a statement. -/
def run : (fuel : Nat) → State → Statement → (input : String) → State
  | 0, s, _, _ => s.ends 127
  | fuel + 1, s, t, input =>
    if s.stopped then s
    else
      match t with
      | .nothing => s
      | .command ws =>
        let (s, words) := textsOf fuel { s with time := s.time + 1 } ws
        inScript fuel s words input
      | .pipe first second =>
        let a := s.leave (run fuel { s with output := "" } first input)
        let b := s.leave (run fuel { a with output := "" } second a.output)
        b.deliver s.output none
      | .not t =>
        let r := run fuel s t input
        if r.stopped then r else { r with status := if r.status = 0 then 1 else 0 }
      | .after ifWell first second =>
        let r := run fuel s first input
        if (r.status == 0) == ifWell then run fuel r second input else r
      | .both first second => run fuel (run fuel s first input) second input
      | .aside t => { s.leave (run fuel s t "") with time := s.time, status := 0 }
      | .inside t => s.leave (run fuel s t input)
      | .redirected t places =>
        match openAll fuel s ⟨s.machine, input, none⟩ places with
        | none => s.ends 2
        | some o =>
          let r := run fuel { s with machine := o.machine, output := "" } t o.input
          r.deliver s.output o.target
      | .cond test yes no =>
        let r := run fuel s test input
        if r.status = 0 then run fuel r yes input else run fuel { r with status := 0 } no input
      | .loop whileWell test body =>
        let r := run fuel s test input
        if r.stopped then r
        else if (r.status == 0) == whileWell then
          run fuel (run fuel r body input) (.loop whileWell test body) input
        else { r with status := 0 }
      | .each name ws body =>
        let (s, texts) := textsOf fuel s ws
        eachText fuel { s with status := 0 } name texts body input

/-- The state after a statement that is carried out once for each text. -/
def eachText : (fuel : Nat) → State → (name : String) → List String → Statement →
    (input : String) → State
  | 0, s, _, _, _, _ => s.ends 127
  | _, s, _, [], _, _ => s
  | fuel + 1, s, name, text :: rest, body, input =>
    eachText fuel (run fuel (s.assign (name, text)) body input) name rest body input

/-- Opens the places of a command, from left to right. -/
def openAll : (fuel : Nat) → State → Opened → List Redirect → Option Opened
  | 0, _, _, _ => none
  | _, _, o, [] => some o
  | fuel + 1, s, o, r :: rest => do
    let (s, marks) := marksOf fuel s r.place
    openAll fuel s (← o.add r (textOf marks)) rest

/-- The state after a command inside a script. -/
def inScript : (fuel : Nat) → State → (words : List String) → (input : String) → State
  | 0, s, _, _ => s.ends 127
  | fuel + 1, s, words, input =>
    match words with
    | [] => s
    | ":" :: _ | "set" :: _ | "trap" :: _ | "wait" :: _ | "unset" :: _ | "umask" :: _ => s.ends 0
    | "exit" :: args | "return" :: args => s.exit (exitStatus s args)
    | "kill" :: args => signal s args
    | "cd" :: args =>
      match s.machine.find (args.headD "") with
      | .ok (p, .directory) => { s with machine := { s.machine with here := p } }.ends 0
      | _ => s.ends 2
    | "read" :: names =>
      match linesOf input with
      | [] => s.ends 1
      | line :: _ => (s.assign (names.headD "REPLY", line)).ends 0
    | "export" :: args => ((args.filterMap assignment?).foldl State.assign s).ends 0
    | "exec" :: args =>
      let r := inScript fuel s args input
      if args.isEmpty then r else { r with done := true }
    | "eval" :: args =>
      match parse (" ".intercalate args) with
      | some t => run fuel s t input
      | none => s.exit 2
    | "command" :: "-v" :: name :: _ | "type" :: name :: _ | "which" :: name :: _ =>
      s.ends (if (command fuel s (programName name) [] "").isSome then 0 else 127)
    | "env" :: args | "command" :: args =>
      if args.isEmpty then s.ends 0 else inScript fuel s args input
    | name :: args =>
      match assignment? name with
      | some binding =>
        let r := inScript fuel (s.assign binding) args input
        if args.isEmpty then r.ends 0 else { r with bindings := s.bindings }
      | none =>
        match command fuel s (programName name) args input with
        | some r => { r with killed := false }
        | none =>
          s.ends (if name.toList.contains '/' && (s.machine.kind? name).isSome then 126 else 127)

/-- The state after a command that is a program of its own; none if there is no such program. -/
def command : (fuel : Nat) → State → (name : String) → (args : List String) →
    (input : String) → Option State
  | 0, _, _, _, _ => none
  | fuel + 1, s, name, args, input =>
    if name = "sh" ∨ name = "bash" ∨ name = "dash" then
      match args with
      | [] => some (shell fuel s input "")
      | first :: rest =>
        if isFlag first then
          if first.toList.contains 'c' then some (shell fuel s (rest.headD "") input)
          else command fuel s name rest input
        else
          match textOf? s.machine first with
          | some script => some (shell fuel s script input)
          | none => some (s.ends 2)
    else if name = "env" then
      match args with
      | [] => some (s.ends 0)
      | name :: args =>
        if (assignment? name).isSome then command fuel s "env" args input
        else command fuel s (programName name) args input
    else simple s name args input

/-- The state after a script. -/
def shell : (fuel : Nat) → State → (script : String) → (input : String) → State
  | 0, s, _, _ => s.ends 127
  | fuel + 1, s, script, input =>
    match parse script with
    | none => s.ends 2
    | some t =>
      let inner := run fuel { s with status := 0 } t input
      { s.leave inner with killed := inner.killed }

end

/-- How many steps commands may take. -/
def depth : Nat := 1000000

/-- Why a program cannot be started by a name, if it cannot. -/
def unstartable? (m : Machine) (name : String) : Option SystemError :=
  let program := programName name
  if name.isEmpty then some .notFound
  else if name = "." ∨ name = ".." then some .denied
  else if !program.toList.contains '/' then none
  else
    match m.find program with
    | .ok _ => some .denied
    | .error e => some e

/-- The programs of a system that has a shell and the usual commands. -/
instance programs : Programs where
  start words limit here tree :=
    let m : Machine := { here, tree, programs := .none }
    match words with
    | [] => .error .notFound
    | name :: args =>
      match unstartable? m name with
      | some e => .error e
      | none =>
        match command depth { machine := m, limit } (programName name) args "" with
        | none => .error .notFound
        | some ended => .ok
          { time := ended.time
            exitCode := if ended.killed then none else some ended.status
            tree := ended.machine.tree
            changes := ended.machine.changes }

end Renaming.Shell
