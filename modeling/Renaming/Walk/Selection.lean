import Renaming.Failure
import Renaming.Text.Blank
import Renaming.Walk.Glob

/-!
Which files a walk takes, by their extensions, and which directories it passes over, by their names.
-/

namespace Renaming.Walk

/-- The extensions of the files that are taken unless others are given. -/
def defaultExtensions : List String := [".ts", ".tsx", ".js", ".jsx"]

/-- The directories that are passed over unless others are given. -/
def defaultExcluded : List String :=
  ["node_modules", "dist", "build", ".next", "coverage", "backups", "*.backup*", "*_backup*"]

/-- The directories that are always passed over. -/
def alwaysExcluded : List String := [".git", ".svn", ".hg"]

/-- An extension without white space around it and without the dots at its start. -/
def bareExtension (e : String) : String :=
  String.ofList ((Text.trim e).toList.dropWhile (· == '.'))

/-- The bare extensions of a list, in which none may be empty. -/
def bareExtensions (extensions : List String) : Except Failure (List String) :=
  let bare := extensions.map bareExtension
  if bare.isEmpty || bare.any String.isEmpty then
    .error (Cause.badValue "extensions" (some (",".intercalate extensions))
      "extensions must be a non-empty list like .ts,.tsx" : Cause)
  else .ok bare

/-- Whether a directory with a name is passed over. -/
def isExcluded (excluded : List String) (name : String) : Bool :=
  alwaysExcluded.contains name ||
    excluded.any fun p => if Glob.isPattern p then Glob.fits p name else p == name

end Renaming.Walk
