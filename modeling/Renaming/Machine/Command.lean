import Renaming.Machine.Basic
import Renaming.Path

/-!
The commands that the model of a system knows besides the shell: the usual ones for looking at
files, for making and removing them, for writing and for waiting.
-/

namespace Renaming.Shell

/-- What is known while commands run. -/
structure State where
  machine : Machine
  /-- What has been written so far. -/
  output : String := ""
  /-- The milliseconds that have passed. -/
  time : Nat := 0
  /-- The time at which everything is stopped. -/
  limit : Nat
  status : Nat := 0
  /-- Whether the script has ended. -/
  done : Bool := false
  /-- Whether it was ended by a signal. -/
  killed : Bool := false
  bindings : List (String × String) := []

namespace State

/-- Whether nothing happens any more. -/
def stopped (s : State) : Bool := s.done || s.limit < s.time

/-- The state when a command ends with a status and has written something. -/
def ends (s : State) (status : Nat) (text : String := "") : State :=
  { s with status, output := s.output ++ text }

/-- The state when a command ends, with a status that tells whether it went well. -/
def endsWith (s : State) (well : Bool) (bad : Nat := 1) : State := s.ends (if well then 0 else bad)

/-- The state when a script has ended. -/
def exit (s : State) (status : Nat) : State := { s with status, done := true }

/-- The state after a script that ran inside another one: what it did stays, but not where it was
and what it called by which name. -/
def leave (outer inner : State) : State :=
  { inner with
    machine := { inner.machine with here := outer.machine.here }
    status := if inner.killed then 137 else inner.status
    done := outer.done
    killed := false
    bindings := outer.bindings }

end State

/-- Milliseconds from the argument of a command that waits. -/
def milliseconds? (arg : String) : Option Nat :=
  let whole := arg.toList.takeWhile Char.isDigit
  let rest := arg.toList.dropWhile Char.isDigit
  let (fraction, unit) := match rest with
    | '.' :: rest => (rest.takeWhile Char.isDigit, rest.dropWhile Char.isDigit)
    | _ => ([], rest)
  let number (ds : List Char) : Nat := ds.foldl (fun n d => n * 10 + (d.toNat - '0'.toNat)) 0
  let base := number whole * 1000 + number ((fraction ++ ['0', '0', '0']).take 3)
  if whole.isEmpty && fraction.isEmpty then none
  else
    match unit with
    | [] | ['s'] => some base
    | ['m'] => some (base * 60)
    | ['h'] => some (base * 3600)
    | _ => none

/-- The truth of a test without "and" and "or"; none if it is malformed. -/
def simpleTest (s : Machine) : List String → Option Bool
  | [] => some false
  | [a] => some (!a.isEmpty)
  | "!" :: rest => (simpleTest s rest).map (!·)
  | [op, a] =>
    match op with
    | "-n" => some (!a.isEmpty)
    | "-z" => some a.isEmpty
    | "-e" | "-r" | "-w" => some (s.kind? a).isSome
    | "-f" => some (s.kind? a == some .file)
    | "-d" => some (s.kind? a == some .directory)
    | "-x" => some (s.kind? a == some .directory)
    | "-s" => some (match s.read a with
      | .ok bytes => 0 < bytes.size
      | .error _ => s.kind? a == some .directory)
    | "-L" | "-h" => some (match s.reach false false a with
      | .ok (.node _ (.link _)) => true
      | _ => false)
    | _ => none
  | [a, op, b] =>
    match op, a.toInt?, b.toInt? with
    | "=", _, _ | "==", _, _ => some (a == b)
    | "!=", _, _ => some (a != b)
    | "-eq", some x, some y => some (x == y)
    | "-ne", some x, some y => some (x != y)
    | "-lt", some x, some y => some (x < y)
    | "-le", some x, some y => some (x ≤ y)
    | "-gt", some x, some y => some (y < x)
    | "-ge", some x, some y => some (y ≤ x)
    | _, _, _ => none
  | _ => none

/-- The arguments between the ones that equal a word. -/
def splitArgs (word : String) : List String → List (List String)
  | [] => [[]]
  | a :: rest =>
    match splitArgs word rest with
    | [] => [[a]]
    | part :: parts => if a = word then [] :: part :: parts else (a :: part) :: parts

/-- The truth of a test; none if it is malformed. -/
def test (s : Machine) (args : List String) : Option Bool :=
  if args.length ≤ 3 then simpleTest s args
  else do
    let parts ← (splitArgs "-o" args).mapM fun part => (splitArgs "-a" part).mapM (simpleTest s)
    return parts.any (·.all id)

/-- The status of a test. -/
def testStatus (s : Machine) (args : List String) : Nat :=
  match test s args with
  | some true => 0
  | some false => 1
  | none => 2

/-- Whether a text contains another. -/
def contains (needle : List Char) : List Char → Bool
  | [] => needle.isEmpty
  | c :: rest => needle.isPrefixOf (c :: rest) || contains needle rest

/-- The lines of a text. -/
def linesOf (text : String) : List String :=
  let lines := text.splitOn "\n"
  if lines.getLast? = some "" then lines.dropLast else lines

/-- Whether an argument is a flag. -/
def isFlag (arg : String) : Bool := arg.toList.head? == some '-' && 1 < arg.length

/-- The letters of all flags. -/
def flagsOf (args : List String) : List Char :=
  (args.filter isFlag).flatMap fun a => a.toList.drop 1

/-- The text of a file. -/
def textOf? (s : Machine) (path : String) : Option String :=
  (s.read path).toOption.bind String.fromUTF8?

/-- The files in a directory and below. -/
def filesBelow (s : Machine) (path : String) : List String :=
  match s.find path with
  | .ok (p, .directory) =>
    s.tree.nodes.filterMap fun (q, n) =>
      match n with
      | .file _ =>
        if p.isPrefixOf q then some (Path.join path ("/".intercalate (q.drop p.length))) else none
      | _ => none
  | _ => [path]

/-- The state after a search for a text in files or in the input. -/
def search (s : State) (input : String) (args : List String) : State :=
  let flags := flagsOf args
  let has := flags.contains
  match args.filter (!isFlag ·) with
  | [] => s.ends 2
  | pattern :: files =>
    let files := if has 'r' || has 'R' then files.flatMap (filesBelow s.machine) else files
    let lower (t : String) : List Char :=
      if has 'i' then t.toList.map Char.toLower else t.toList
    let fits (line : String) : Bool := contains (lower pattern) (lower line) != has 'v'
    let texts := if files.isEmpty then [("", some input)]
      else files.map fun f => (f, textOf? s.machine f)
    let found := texts.map fun (f, t) => (f, ((t.map linesOf).getD []).filter fits)
    let anyFound := found.any fun (_, lines) => !lines.isEmpty
    let allRead := texts.all fun (_, t) => t.isSome
    let status := if anyFound && (has 'q' || allRead) then 0
      else if !allRead then 2 else if anyFound then 0 else 1
    let named (f line : String) : String := (if files.length < 2 then "" else f ++ ":") ++ line
    let lines := found.flatMap fun (f, lines) =>
      if has 'q' then []
      else if has 'l' then if lines.isEmpty then [] else [f]
      else if has 'c' then [named f (toString lines.length)]
      else lines.map (named f)
    s.ends status (String.join (lines.map (· ++ "\n")))

/-- Does something to each argument; the command ends well if it can be done to all of them. -/
def eachArg (s : State) (args : List String) (act : Machine → String → Option Machine) : State :=
  let (m, well) := args.foldl (fun (m, well) a =>
    match act m a with
    | some m => (m, well)
    | none => (m, false)) (s.machine, true)
  { s with machine := m }.endsWith well

/-- A machine after a request that may be refused. -/
def granted : Except SystemError Unit × Machine → Option Machine
  | (.ok _, m) => some m
  | (.error _, _) => none

/-- Makes a directory and those above it that are missing. -/
def makeDirs : (fuel : Nat) → Machine → String → Option Machine
  | 0, _, _ => none
  | fuel + 1, m, path =>
    match m.makeDir path with
    | (.ok _, m) => some m
    | (.error .notFound, m) => do
      let m ← makeDirs fuel m (← (Path.parent? path).filter (!·.isEmpty))
      granted (m.makeDir path)
    | (.error _, m) => if m.kind? path == some .directory then some m else none

/-- Removes what stands at a path, and all below it. -/
def remove (m : Machine) (path : String) : Option Machine :=
  match m.reach false false path with
  | .ok (.node p _) => some { m with tree := m.tree.erase p }
  | _ => none

/-- The path at which a file arrives that is copied or moved. -/
def arrival (m : Machine) (source target : String) : String :=
  if m.kind? target == some .directory then
    Path.join target ((Path.fileName? source).getD "")
  else target

/-- The names in a directory that are shown, in order; of a file, its path. -/
def shownNames (m : Machine) (path : String) : List String :=
  match m.list path with
  | .ok entries =>
    ((entries.map Prod.fst).filter fun n => n.toList.head? != some '.').mergeSort fun a b =>
      decide (a ≤ b)
  | .error _ => if (m.kind? path).isSome then [path] else []

/-- A format with its escapes and, one after the other, its arguments filled in. -/
def formatted : List Char → List String → List Char
  | [], _ => []
  | '\\' :: 'n' :: rest, args => '\n' :: formatted rest args
  | '\\' :: 't' :: rest, args => '\t' :: formatted rest args
  | '\\' :: '\\' :: rest, args => '\\' :: formatted rest args
  | '%' :: '%' :: rest, args => '%' :: formatted rest args
  | '%' :: 's' :: rest, args => (args.headD "").toList ++ formatted rest (args.drop 1)
  | '%' :: 'd' :: rest, args => (args.headD "0").toList ++ formatted rest (args.drop 1)
  | c :: rest, args => c :: formatted rest args

/-- How many arguments a format takes. -/
def takenArgs : List Char → Nat
  | '%' :: 's' :: rest | '%' :: 'd' :: rest => takenArgs rest + 1
  | '%' :: '%' :: rest => takenArgs rest
  | _ :: rest => takenArgs rest
  | [] => 0

/-- A format that is used again until no argument is left. -/
def printed : (fuel : Nat) → (format : List Char) → (args : List String) → List Char
  | 0, _, _ => []
  | fuel + 1, format, args =>
    let left := args.drop (takenArgs format)
    formatted format args ++
      if left.isEmpty || takenArgs format = 0 then [] else printed fuel format left

/-- The commands that are no shells; none if there is no such command. -/
def simple (s : State) (name : String) (args : List String) (input : String) : Option State :=
  let m := s.machine
  let names := args.filter (!isFlag ·)
  let has := (flagsOf args).contains
  match name with
  | "true" => some (s.ends 0)
  | "false" => some (s.ends 1)
  | "test" => some (s.ends (testStatus m args))
  | "[" => some (s.ends (if args.getLast? = some "]" then testStatus m args.dropLast else 2))
  | "sleep" =>
    match args.mapM milliseconds? with
    | some (t :: ts) => some ({ s with time := ts.foldl (· + ·) (s.time + t) }.ends 0)
    | _ => some (s.ends 1)
  | "echo" =>
    match args with
    | "-n" :: args => some (s.ends 0 (" ".intercalate args))
    | args => some (s.ends 0 (" ".intercalate args ++ "\n"))
  | "printf" =>
    match args with
    | format :: args =>
      some (s.ends 0 (String.ofList (printed (args.length + 1) format.toList args)))
    | [] => some (s.ends 2)
  | "pwd" => some (s.ends 0 (Machine.pathOf m.here ++ "\n"))
  | "cat" =>
    let texts := names.map fun f => (m.read f).toOption.map fun b => (String.fromUTF8? b).getD ""
    some (s.ends (if texts.all Option.isSome then 0 else 1)
      (if names.isEmpty then input else String.join (texts.filterMap id)))
  | "ls" =>
    let places := if names.isEmpty then ["."] else names
    let well := places.all fun f => (m.kind? f).isSome
    some (s.ends (if well then 0 else 2)
      (String.join ((places.flatMap (shownNames m)).map (· ++ "\n"))))
  | "grep" => some (search s input args)
  | "cmp" | "diff" =>
    match names.map fun f => (m.read f).toOption with
    | [some a, some b] => some (s.ends (if a.data == b.data then 0 else 1))
    | _ => some (s.ends 2)
  | "touch" => some (eachArg s names fun m f =>
      if (m.kind? f).isSome then some m else granted (m.write f ByteArray.empty))
  | "mkdir" => some (eachArg s names fun m f =>
      if has 'p' then makeDirs (f.length + 1) m f else granted (m.makeDir f))
  | "rm" => some (eachArg s names fun m f =>
      match m.reach false false f with
      | .ok (.node _ .directory) => if has 'r' || has 'R' then remove m f else none
      | .ok (.node ..) => remove m f
      | _ => if has 'f' then some m else none)
  | "rmdir" => some (eachArg s names fun m f =>
      match m.list f with
      | .ok [] => remove m f
      | _ => none)
  | "cp" =>
    match names with
    | [a, b] => some (eachArg s [a] fun m a => do
        granted (m.write (arrival m a b) (← (m.read a).toOption)))
    | _ => some (s.ends 1)
  | "mv" =>
    match names with
    | [a, b] => some (eachArg s [a] fun m a => granted (m.rename a (arrival m a b)))
    | _ => some (s.ends 1)
  | _ => none

/-- The last component of the name of a program in one of the system's directories. -/
def programName (name : String) : String :=
  let known := ["/bin/", "/usr/bin/"]
  match known.find? fun dir => dir.toList.isPrefixOf name.toList with
  | some dir => String.ofList (name.toList.drop dir.length)
  | none => name

end Renaming.Shell
