import Renaming.Verification

/-!
What the tool asks of the system: to look at files and directories, to write them, and to run
commands. The tool is written against these requests alone, so that it runs on a real system and on
the model of one.
-/

namespace Renaming

/-- Why the system refuses a request. -/
inductive SystemError
  | notFound
  | denied
  | busy
  | alreadyExists
  | notDirectory
  | isDirectory
  | nameTooLong
  | tooManyLinks
  /-- A path with a NUL in it. -/
  | nulInPath
  /-- A file that was to be read as text and is none. -/
  | notText
  | other (text : String)
  deriving DecidableEq, Repr

/-- The words for a refusal. -/
def SystemError.message : SystemError → String
  | notFound => "No such file or directory (os error 2)"
  | denied => "Permission denied (os error 13)"
  | busy => "Device or resource busy (os error 16)"
  | alreadyExists => "File exists (os error 17)"
  | notDirectory => "Not a directory (os error 20)"
  | isDirectory => "Is a directory (os error 21)"
  | nameTooLong => "File name too long (os error 36)"
  | tooManyLinks => "Too many levels of symbolic links (os error 40)"
  | nulInPath => "file name contained an unexpected NUL byte"
  | notText => "stream did not contain valid UTF-8"
  | other text => text

/-- What stands at a path. -/
inductive Kind
  | directory
  | file
  /-- Anything else, such as a link. -/
  | other
  deriving DecidableEq, Repr

/-- The requests to the system. -/
class Files (m : Type → Type) where
  /-- The content of a file. -/
  read : String → m (Except SystemError ByteArray)
  /-- The names in a directory, each with what it is. -/
  list : String → m (Except SystemError (List (String × Kind)))
  /-- What a path leads to, links followed. -/
  kind? : String → m (Option Kind)
  /-- The path without links and without detours to what a path leads to. -/
  realPath? : String → m (Option String)
  /-- Makes a directory in one that exists. -/
  makeDir : String → m (Except SystemError Unit)
  /-- Gives a file a content, and makes it if it is not there. -/
  write : String → ByteArray → m (Except SystemError Unit)
  /-- Puts a file in the place of another, in one step. -/
  rename : String → String → m (Except SystemError Unit)
  /-- Runs a command, and stops it when its time is over. -/
  launch : Check → m (Except SystemError Ending)

end Renaming
