import Renaming.Files.Basic
import Renaming.Path

/-!
Operations on files that take several requests. Where one is refused, the failure says what was
being done.
-/

namespace Renaming.Files

variable {m : Type → Type} [Monad m] [Files m]

/-- Whether a path leads to something. -/
def exists? (path : String) : m Bool := do return (← kind? path).isSome

/-- Whether a path leads to a directory. -/
def isDir (path : String) : m Bool := do return (← kind? path) == some .directory

/-- The text in a file. -/
def readText (path : String) : m (Except SystemError String) := do
  match ← read path with
  | .error e => return .error e
  | .ok bytes =>
    match String.fromUTF8? bytes with
    | some s => return .ok s
    | none => return .error .notText

/-- Makes a directory and those above it that are missing. -/
def makeDirs : (fuel : Nat) → String → m (Except SystemError Unit)
  | 0, _ => return .error .notFound
  | fuel + 1, path => do
    if path.isEmpty then return .ok ()
    match ← makeDir path with
    | .ok _ => return .ok ()
    | .error .notFound =>
      match Path.parent? path with
      | none => return .error .notFound
      | some parent =>
        match ← makeDirs fuel parent with
        | .error e => return .error e
        | .ok _ =>
          match ← makeDir path with
          | .ok _ => return .ok ()
          | .error e => if ← isDir path then return .ok () else return .error e
    | .error e => if ← isDir path then return .ok () else return .error e

/-- The failure of an operation. -/
def failure (operation : String) (e : SystemError) : Failure :=
  (Cause.io e.message (some operation) : Cause)

/-- Makes a directory and those above it that are missing. -/
def createDir (path operation : String) : m (Except Failure Unit) := do
  return (← makeDirs (path.length + 1) path).mapError (failure operation)

/-- The content of a file. -/
def readBytes (path operation : String) : m (Except Failure ByteArray) := do
  return (← read path).mapError (failure operation)

/-- Writes a text to a file. -/
def writeText (path text operation : String) : m (Except Failure Unit) := do
  return (← write path text.toUTF8).mapError (failure operation)

/-- The directory that a path names a file in, unless it is the current one. -/
def folder? (path : String) : Option String := (Path.parent? path).filter (!·.isEmpty)

/-- Makes the directory that a path names a file in. `operation` says what is being done, from the
path of the directory. -/
def makeFolder (path : String) (operation : String → String) : m (Except Failure Unit) :=
  match folder? path with
  | some parent => createDir parent (operation parent)
  | none => return .ok ()

/-- Writes a file, in a directory that is made if it is missing. -/
def writeCreating (path : String) (bytes : ByteArray) (operation : String) :
    m (Except Failure Unit) := do
  match ← makeFolder path fun _ => operation with
  | .error f => return .error f
  | .ok _ => return (← write path bytes).mapError (failure operation)

/-- Writes a file beside its place and then puts it there, so that at all times the place holds
either what it held before or all of the new text. -/
def writeWhole (path text operation : String) : m (Except Failure Unit) := do
  match Path.parent? path, Path.fileName? path with
  | some parent, some name =>
    let draft := Path.join parent (name ++ ".tmp")
    match ← write draft text.toUTF8 with
    | .error e => return .error (failure (operation ++ " (write temp)") e)
    | .ok _ => return (← rename draft path).mapError (failure (operation ++ " (rename)"))
  | _, _ => return .error (Cause.io ("Invalid path: " ++ path) (some operation) : Cause)

/-- Runs a command. -/
def runCommand (c : Check) (context : String) : m (Except Failure Ending) := do
  return (← launch c).mapError fun e =>
    (Cause.io ("Failed to run " ++ context ++ ": " ++ e.message) (some context) : Cause)

end Renaming.Files
