import Renaming.Machine.Tree
import Renaming.Path

/-!
The model of a system: a tree, the directory in which the tool runs, and the changes that were made,
in their order. Paths are followed as the system follows them: every component but the last must be
a directory or lead to one, and a slash at the end asks for a directory too. What the programs of
the system do is left open.
-/

namespace Renaming

/-- One change. -/
inductive Change
  | makeDir (p : Place)
  | write (p : Place) (bytes : ByteArray)
  | move (source target : Place)
  | launch (command : List String)

/-- A tree after a change. A command is not known to change anything. -/
def Change.apply : Change → Tree → Tree
  | makeDir p, t => t.put p .directory
  | write p bytes, t => t.put p (.file bytes)
  | move source target, t => t.move source target
  | launch _, t => t

/-- A request for a change that goes wrong for a reason outside the tree, such as a disk that is
full. -/
structure Mishap where
  error : SystemError
  /-- What a write that has begun leaves in the file. -/
  left : Option ByteArray := none

/-- How a started program ended, and what it has done by then. -/
structure Ended where
  /-- The milliseconds that it took. -/
  time : Nat
  /-- None if a signal ended it. -/
  exitCode : Option Int
  tree : Tree
  changes : List Change

/-- What the programs of a system do. -/
class Programs where
  /-- What becomes of a command that is started in a directory of a tree, and stopped when a number
  of milliseconds is over. -/
  start : (command : List String) → (limit : Nat) → (here : Place) → Tree → Except SystemError Ended

/-- A system without programs. -/
@[reducible]
def Programs.none : Programs := ⟨fun _ _ _ _ => .error .notFound⟩

/-- What is around the tree of a system and does not change. -/
structure Scene where
  /-- The directory from which relative paths start. -/
  here : Place
  /-- The directories in which no name can be looked up. The names in them can be listed. -/
  shut : List Place := []
  /-- Why a file cannot be read or a directory cannot be listed, for those that are kept from the
  tool. -/
  sealed : Place → Option SystemError := fun _ => Option.none
  [programs : Programs]

/-- A system. -/
structure Machine extends Scene where
  tree : Tree
  /-- The changes so far. -/
  changes : List Change := []
  /-- The mishaps that the next requests for changes meet with, one entry for each request. -/
  mishaps : List (Option Mishap) := []

/-! ### Following paths -/

/-- Where a path leads. -/
inductive Reached
  /-- To something. -/
  | node (p : Place) (n : Node)
  /-- To nothing, in a directory that is there. -/
  | vacant (p : Place)

/-- The number of links that are followed. -/
def maxLinks : Nat := 40

/-- The greatest length of a name, and of a path that is given to the system, in bytes. -/
def maxName : Nat := 255

@[inherit_doc maxName]
def maxPath : Nat := 4095

/-- Whether a path is short enough to be given to the system. -/
def Fits (path : String) : Prop := path.utf8ByteSize ≤ maxPath

instance (path : String) : Decidable (Fits path) := inferInstanceAs (Decidable (_ ≤ _))

/-- The path of a place from the root. -/
def Machine.pathOf (p : Place) : String := "/" ++ "/".intercalate p

/-- Why a name cannot be looked up in a directory, if it cannot. -/
abbrev Look := Place → String → Option SystemError

namespace Scene

/-- The way names are looked up on a path: each in the directory to which the names before it
lead. -/
def look (s : Scene) : Look := fun here name =>
  if here ∈ s.shut then some .denied
  else if maxName < name.utf8ByteSize then some .nameTooLong
  else none

/-- The way names are looked up for the path without links. Each of them is looked up on the path
from the root to where it stands, so all directories above it must be open, and this path must be
short enough, however the path is written that is followed. -/
def lookFromRoot (s : Scene) : Look := fun here name =>
  if name = "." ∨ name = ".." then none
  else if s.shut.any (·.isPrefixOf here) then some .denied
  else if maxName < name.utf8ByteSize ∨ ¬Fits (Machine.pathOf (here ++ [name])) then
    some .nameTooLong
  else none

end Scene

/-- The place from which a path starts. -/
def startOf (here : Place) (path : String) : Place :=
  if path.toList.head? = some '/' then [] else here

/-- Whether a path asks for a directory by the slash at its end. -/
def asksForDir (path : String) : Bool := path.toList.getLast? == some '/'

namespace Tree

/-- Follows names from a directory, up to a link that has to be followed: from there on `jump` takes
over. A link at the end is followed only if `followLast` asks for it or a directory must be reached;
with a slash at the end of its own target, it asks for a directory too. -/
def followBy (t : Tree) (look : Look) (followLast : Bool)
    (jump : (mustBeDir : Bool) → Place → List String → Except SystemError Reached)
    (mustBeDir : Bool) : Place → List String → Except SystemError Reached
  | here, [] => .ok (.node here .directory)
  | here, name :: rest =>
    match look here name with
    | some e => .error e
    | none =>
      if name = "." then followBy t look followLast jump mustBeDir here rest
      else if name = ".." then followBy t look followLast jump mustBeDir here.dropLast rest
      else
        let p := here ++ [name]
        let last := rest.isEmpty
        match t.get? p with
        | none => if last then .ok (.vacant p) else .error .notFound
        | some .directory => followBy t look followLast jump mustBeDir p rest
        | some (.file bytes) =>
          if last && !mustBeDir then .ok (.node p (.file bytes)) else .error .notDirectory
        | some (.link target) =>
          if last && !followLast && !mustBeDir then .ok (.node p (.link target))
          else
            jump (mustBeDir || last && asksForDir target) (startOf here target)
              (Path.names target ++ rest)

/-- Follows names from a directory, through no more links than a number. -/
def follow (t : Tree) (look : Look) (followLast : Bool) :
    (links : Nat) → (mustBeDir : Bool) → Place → List String → Except SystemError Reached
  | 0 => t.followBy look followLast fun _ _ _ => .error .tooManyLinks
  | links + 1 => t.followBy look followLast (follow t look followLast links)

/-- Where a slash stops a write that gets past all names but the last: a directory is asked for,
whatever the last name leads to. -/
def slashed (t : Tree) (look : Look) (links : Nat) (here : Place) (names : List String) :
    Except SystemError Reached :=
  match t.follow look true links true here names.dropLast with
  | .error e => .error e
  | .ok (.vacant _) => .error .notFound
  | .ok (.node ..) => .error .isDirectory

/-- Follows names from a directory to what is written to, through no more links than a number. -/
def fill (t : Tree) (look : Look) : (links : Nat) → Place → List String → Except SystemError Reached
  | 0 => t.followBy look true (fun _ _ _ => .error .tooManyLinks) false
  | links + 1 =>
    t.followBy look true
      (fun mustBeDir here names =>
        if mustBeDir then t.slashed look links here names else t.fill look links here names)
      false

end Tree

/-- Whether the last segment of a path is a name. -/
def endsInName (path : String) : Bool :=
  match (Path.names path).getLast? with
  | none | some "." | some ".." => false
  | some _ => true

namespace Machine

/-- Where a path leads if its names are followed in a certain way. -/
def reachBy (s : Machine) (walk : Place → List String → Except SystemError Reached)
    (path : String) : Except SystemError Reached :=
  if path.toList.contains '\x00' then .error .nulInPath
  else if path.isEmpty then .error .notFound
  else walk (startOf s.here path) (Path.names path)

/-- Where a path leads. -/
def reach (s : Machine) (followLast mustBeDir : Bool) (path : String) :
    Except SystemError Reached :=
  s.reachBy (s.tree.follow s.look followLast maxLinks mustBeDir) path

/-- What a path leads to, with its place, if names are looked up in a certain way. -/
def findBy (s : Machine) (look : Look) (path : String) : Except SystemError (Place × Node) :=
  match s.reachBy (s.tree.follow look true maxLinks (asksForDir path)) path with
  | .ok (.node p n) => .ok (p, n)
  | .ok (.vacant _) => .error .notFound
  | .error e => .error e

/-- What a path leads to, with its place. Its length is no matter here. -/
def find (s : Machine) (path : String) : Except SystemError (Place × Node) := s.findBy s.look path

/-! ### Requests that change nothing -/

/-- The answer to a request with a path, if the path is short enough. -/
def given (path : String) (answer : Except SystemError α) : Except SystemError α :=
  if Fits path then answer
  else .error (if path.toList.contains '\x00' then .nulInPath else .nameTooLong)

/-- The content of a file. -/
def read (s : Machine) (path : String) : Except SystemError ByteArray :=
  match given path (s.find path) with
  | .error e => .error e
  | .ok (p, .file bytes) =>
    match s.sealed p with
    | some e => .error e
    | none => .ok bytes
  | .ok _ => .error .isDirectory

/-- The names in a directory, each with what it is. -/
def list (s : Machine) (path : String) : Except SystemError (List (String × Kind)) :=
  match given path (s.find path) with
  | .error e => .error e
  | .ok (p, .directory) =>
    match s.sealed p with
    | some e => .error e
    | none => .ok ((s.tree.children p).map fun (name, n) => (name, n.kind))
  | .ok _ => .error .notDirectory

/-- What a path leads to. -/
def kind? (s : Machine) (path : String) : Option Kind :=
  match given path (s.find path) with
  | .ok (_, n) => some n.kind
  | .error _ => none

/-- The path without links and without detours to what a path leads to. The path that is followed
may have any length, but what it comes by must be within reach from the root, so there need not be
such a path to all that can be found, or that stands in a directory that can be listed. -/
def realPath? (s : Machine) (path : String) : Option String :=
  match s.findBy s.lookFromRoot path with
  | .ok (p, _) => some (pathOf p)
  | .error _ => none

/-! ### Requests that change something -/

/-- The system after a change. -/
def perform (s : Machine) (c : Change) : Machine :=
  { s with tree := c.apply s.tree, changes := s.changes ++ [c] }

/-- The mishap that the next request for a change meets with. -/
def mishap? (s : Machine) : Option Mishap := s.mishaps.head?.join

/-- The system behind a request for a change that changes nothing. -/
def later (s : Machine) : Machine := { s with mishaps := s.mishaps.tail }

/-- Makes a directory. -/
def makeDir (s : Machine) (path : String) : Except SystemError Unit × Machine :=
  match s.mishap?, given path (s.reach false false path) with
  | some m, _ => (.error m.error, s.later)
  | none, .error e => (.error e, s.later)
  | none, .ok (.node ..) => (.error .alreadyExists, s.later)
  | none, .ok (.vacant p) => (.ok (), s.later.perform (.makeDir p))

/-- The place that a write to a path fills. A slash at the end of a path, or of the target of a
link to which it leads, asks for a directory, whatever stands there. -/
def aim (s : Machine) (path : String) : Except SystemError Place :=
  let walk :=
    if asksForDir path then s.tree.slashed s.look maxLinks else s.tree.fill s.look maxLinks
  match s.reachBy walk path with
  | .error e => .error e
  | .ok (.node p (.file _)) | .ok (.vacant p) => .ok p
  | .ok (.node ..) => .error .isDirectory

/-- Writes a file. -/
def write (s : Machine) (path : String) (bytes : ByteArray) : Except SystemError Unit × Machine :=
  match given path (s.aim path), s.mishap? with
  | .error e, _ => (.error e, s.later)
  | .ok p, none => (.ok (), s.later.perform (.write p bytes))
  | .ok p, some m =>
    match m.left with
    | some begun => (.error m.error, s.later.perform (.write p begun))
    | none => (.error m.error, s.later)

/-- The move that puts a file in the place of another; none if both are the same file. -/
def shift (s : Machine) (source target : String) : Except SystemError (Option (Place × Place)) :=
  match s.reach false false source, s.reach false false target with
  | .error e, _ => .error e
  | .ok (.vacant _), _ => .error .notFound
  | .ok (.node ..), .error e => .error e
  | .ok (.node p n), .ok reached =>
    if !endsInName source || !endsInName target then .error .busy
    else if n.kind = .directory then .error .isDirectory
    else if asksForDir target then .error .notDirectory
    else
      match reached with
      | .node _ .directory => .error .isDirectory
      | .node q _ | .vacant q => if p = q then .ok none else .ok (some (p, q))

/-- Puts a file in the place of another. -/
def rename (s : Machine) (source target : String) : Except SystemError Unit × Machine :=
  match s.mishap?, given source (given target (s.shift source target)) with
  | some m, _ => (.error m.error, s.later)
  | none, .error e => (.error e, s.later)
  | none, .ok none => (.ok (), s.later)
  | none, .ok (some (p, q)) => (.ok (), s.later.perform (.move p q))

/-! ### Programs -/

/-- The time between two looks at a running command, in milliseconds. -/
def interval : Nat := 50

/-- The first look at a running command after a time. -/
def nextLook (time : Nat) : Nat := (time + interval - 1) / interval * interval

/-- The directory in which a command is started. -/
def folder (s : Machine) : Option String → Except SystemError Place
  | none => .ok s.here
  | some path =>
    match given path (s.find path) with
    | .ok (p, .directory) => .ok p
    | .ok _ => .error .notDirectory
    | .error e => .error e

/-- Runs a command: how it ended, and the system after it. The command is looked at again and again,
and stopped when its time is over. -/
def launch (s : Machine) (c : Check) : Except SystemError Ending × Machine :=
  if c.command.any (·.toList.contains '\x00') then
    (.error (.other "nul byte found in provided data"), s)
  else
    match s.folder c.cwd with
    | .error e => (.error e, s)
    | .ok here =>
      let limit := nextLook c.timeout
      match s.programs.start c.command limit here s.tree with
      | .error e => (.error e, s)
      | .ok ended =>
        let after := { s with
          tree := ended.tree, changes := s.changes ++ .launch c.command :: ended.changes }
        let looked := nextLook (ended.time + 1)
        if limit < looked then (.ok ⟨none, true, limit⟩, after)
        else (.ok ⟨ended.exitCode, false, looked⟩, after)

instance : Files (StateM Machine) where
  read path := fun s => (s.read path, s)
  list path := fun s => (s.list path, s)
  kind? path := fun s => (s.kind? path, s)
  realPath? path := fun s => (s.realPath? path, s)
  makeDir path := fun s => s.makeDir path
  write path bytes := fun s => s.write path bytes
  rename source target := fun s => s.rename source target
  launch c := fun s => s.launch c

end Machine

end Renaming
