import Renaming.Files.Operations
import Renaming.Walk.Selection

/-!
The walk: all files of the wanted kinds in some directories and below, in the order of the paths
that lead to them without links, and one file for each such path. Where the system cannot give such
a path, the path on which a file was met takes its place.
-/

namespace Renaming.Walk

/-- A file that the walk has met. -/
structure SourceFile where
  /-- The path on which it was met. -/
  path : String
  /-- Where a copy of it is kept among the copies of all files of the walk: in a directory named for
  the one the walk started from, on the way from there. -/
  copyPath : String
  deriving DecidableEq, Repr

/-- A directory whose names could not be read. -/
structure Unlisted where
  path : String
  message : String
  deriving DecidableEq, Repr

/-- What a walk gives. -/
structure Walked where
  files : List SourceFile := []
  unlisted : List Unlisted := []
  deriving DecidableEq, Repr

section

variable {m : Type → Type} [Monad m] [Files m]

/-- The directory that a target names. -/
def resolve (home target : String) : m (Except Failure String) := do
  let path := Path.expandHome home target
  match ← Files.kind? path with
  | none => return .error (Cause.badValue "target" (some target)
      ("target directory does not exist: " ++ path) : Cause)
  | some .directory => return .ok path
  | some _ => return .error (Cause.badValue "target" (some target)
      ("target is not a directory: " ++ path) : Cause)

/-- What a walk looks for. -/
structure Wanted where
  /-- The extensions of the files, without their dots. -/
  extensions : List String
  /-- The names and patterns of directories to pass over. -/
  excluded : List String
  /-- The directories to pass over, as paths without links. -/
  skipped : List String

/-- The path without links to what a path leads to, or the path itself if there is no such path. -/
def realPath (path : String) : m String := do return (← Files.realPath? path).getD path

/-- Whether a directory is one to pass over, by its path without links. -/
def Wanted.skips (w : Wanted) (real : String) : Bool :=
  w.skipped.any fun path => Path.components path == Path.components real

/-- Whether a directory is passed over. -/
def Wanted.passes (w : Wanted) (path name : String) : m Bool := do
  if isExcluded w.excluded name then return true
  if w.skipped.isEmpty then return false
  return (← Files.realPath? path).any w.skips

/-- Whether a file with a name is taken. -/
def Wanted.takes (w : Wanted) (name : String) : Bool :=
  match Path.extensionOf? name.toList with
  | some e => w.extensions.contains (String.ofList e)
  | none => false

/-- A file met on a walk: its path, and the way to it from the directory the walk started from. -/
abbrev Found := String × String

/-- The way to an entry of the directory to which another way leads. -/
def wayTo (way name : String) : String := if way.isEmpty then name else way ++ "/" ++ name

/-- The files that an entry of a directory leads to, and the directories whose names could not be
read. `way` is the way to the directory from the one the walk started from, and `deeper` walks a
directory in it. -/
def atEntry (w : Wanted) (deeper : (dir way : String) → m (List Found × List Unlisted))
    (dir way name : String) : Kind → m (List Found × List Unlisted)
  | .directory => do
    if ← w.passes (Path.join dir name) name then return ([], [])
    deeper (Path.join dir name) (wayTo way name)
  | .file => return (if w.takes name then [(Path.join dir name, wayTo way name)] else [], [])
  | .other => return ([], [])

/-- The same for some entries of a directory. -/
def among (w : Wanted) (deeper : (dir way : String) → m (List Found × List Unlisted))
    (dir way : String) : List (String × Kind) → m (List Found × List Unlisted)
  | [] => return ([], [])
  | (name, kind) :: rest => do
    let (files, unlisted) ← atEntry w deeper dir way name kind
    let (more, moreUnlisted) ← among w deeper dir way rest
    return (files ++ more, unlisted ++ moreUnlisted)

/-- The same for all entries of a directory and below. -/
def below (w : Wanted) : (depth : Nat) → (dir way : String) → m (List Found × List Unlisted)
  | 0, _, _ => return ([], [])
  | depth + 1, dir, way => do
    match ← Files.list dir with
    | .error e => return ([], [⟨dir, "cannot list directory: " ++ e.message⟩])
    | .ok entries => among w (below w depth) dir way entries

/-- No path is long enough to lead through more directories than this. -/
def maxDepth : Nat := 4096

/-- The name under which the copies of a directory's files are kept: that of the directory, with a
number if it is taken. -/
def freshName (taken : List String) (root : String) : String :=
  let base := (Path.fileName? root).getD "root"
  if !taken.contains base then base
  else
    let numbered := (List.range (taken.length + 1)).map fun n => base ++ "-" ++ toString (n + 2)
    (numbered.find? (!taken.contains ·)).getD base

/-- What tells files and directories apart: the components of a path. -/
abbrev Key := List Path.Component

/-- Whether one key comes before another, component by component. -/
def before : Key → Key → Bool
  | [], ys => !ys.isEmpty
  | _ :: _, [] => false
  | x :: xs, y :: ys => if x = y then before xs ys else x.before y

/-- A file with its key, among others in their order. A file that is there already stays. -/
def insert (key : Key) (f : SourceFile) : List (Key × SourceFile) → List (Key × SourceFile)
  | [] => [(key, f)]
  | (k, g) :: rest =>
    if k = key then (k, g) :: rest
    else if before key k then (key, f) :: (k, g) :: rest
    else (k, g) :: insert key f rest

/-- What is known between the targets of a walk. -/
structure Progress where
  files : List (Key × SourceFile) := []
  unlisted : List Unlisted := []
  /-- The directories walked so far, each with the name for the copies of its files. -/
  names : List (Key × String) := []

/-- The name for the copies of a directory's files, and all names that are then in use. -/
def Progress.nameFor (p : Progress) (real : String) : String × List (Key × String) :=
  match p.names.lookup (Path.components real) with
  | some name => (name, p.names)
  | none =>
    let name := freshName (p.names.map Prod.snd) real
    (name, p.names ++ [(Path.components real, name)])

/-- Adds the files that were found below a directory. -/
def addFound (name : String) : List Found → Progress → m Progress
  | [], p => return p
  | (path, way) :: rest, p => do
    let key := Path.components (← realPath path)
    addFound name rest { p with files := insert key ⟨path, Path.join name way⟩ p.files }

/-- Walks the targets from left to right. -/
def walkAll (home : String) (w : Wanted) : List String → Progress → m (Except Failure Progress)
  | [], p => return .ok p
  | target :: rest, p => do
    match ← resolve home target with
    | .error f => return .error f
    | .ok root =>
      let (name, names) := p.nameFor (← realPath root)
      let (found, unlisted) ← below w maxDepth root ""
      let p ← addFound name found { p with names, unlisted := p.unlisted ++ unlisted }
      walkAll home w rest p

/-- All files with one of the extensions in the targets and below. Links are not followed; of two
paths with one key the one that the first target gives is taken. -/
def collect (home : String) (targets extensions excluded skipped : List String) :
    m (Except Failure Walked) := do
  match bareExtensions extensions with
  | .error f => return .error f
  | .ok extensions =>
    match ← walkAll home { extensions, excluded, skipped } targets {} with
    | .error f => return .error f
    | .ok p => return .ok ⟨p.files.map Prod.snd, p.unlisted⟩

end

end Renaming.Walk
