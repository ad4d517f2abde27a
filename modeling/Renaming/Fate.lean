import Renaming.Failure
import Renaming.Outcome
import Renaming.Report

/-!
What comes of the files of a run, and the report that tells of it.
-/

namespace Renaming

/-- What came of one file. -/
inductive Fate
  /-- It could not be read. -/
  | unread (f : Failure)
  /-- Its content is no text. -/
  | noText
  /-- There was nothing to rename in it. -/
  | unchanged (skipped : List Skip)
  /-- No copy of it could be taken. -/
  | unsaved (skipped : List Skip) (f : Failure)
  /-- A copy was taken, but the new text could not be written. -/
  | unwritten (skipped : List Skip) (f : Failure)
  /-- It was renamed, or in a dry run would be. -/
  | renamed (skipped : List Skip) (record : FileRecord)

namespace Fate

/-- The places in the file that kept their names because these are protected. -/
def skipped : Fate → List Skip
  | unread _ | noText => []
  | unchanged skipped | unsaved skipped _ | unwritten skipped _ | renamed skipped _ => skipped

/-- What went wrong, in words. -/
def problem? : Fate → Option String
  | unread f | unsaved _ f | unwritten _ f => some f.oneLine
  | noText => some "file is not valid UTF-8"
  | unchanged _ | renamed .. => none

/-- The record of a file that was renamed. -/
def record? : Fate → Option FileRecord
  | renamed _ record => some record
  | _ => none

end Fate

namespace Report

/-- The report with one more file that was looked at, and what came of it. -/
def addFate (r : Report) (path : String) (x : Fate) : Report :=
  let skipped := x.skipped.map fun k => (⟨path, k.line, k.name⟩ : SkippedPlace)
  let r := { r with scanned := r.scanned + 1, skipped := r.skipped ++ skipped }
  match x.problem?, x.record? with
  | some message, _ => r.addError path message
  | none, some record => r.addFile record
  | none, none => r

end Report

end Renaming
