import Renaming.Json.Shape

/-!
The manifest of a backup: for each copy, which file it is a copy of.
-/

namespace Renaming

/-- A copy and the file it was taken from. -/
structure Copy where
  /-- The place of the copy in the directory of the backup. -/
  backup : String
  /-- The path of the file. -/
  file : String
  deriving DecidableEq, Repr

/-- A manifest. -/
structure Manifest where
  createdAt : String
  copies : List Copy
  deriving DecidableEq, Repr

/-- A copy as an object. -/
def Copy.toJson (c : Copy) : Json := .obj [("backup", .str c.backup), ("original", .str c.file)]

namespace Manifest

/-- The name of the file that holds the manifest. -/
def fileName : String := "manifest.json"

/-- A manifest as an object. -/
def toJson (x : Manifest) : Json :=
  .obj [("created_at", .str x.createdAt), ("entries", .arr (x.copies.map Copy.toJson))]

/-- The text of a manifest. -/
def text (x : Manifest) : String := x.toJson.pretty

/-- A copy of which some fields have been read. -/
structure CopyDraft where
  backup : Option String := none
  file : Option String := none

/-- The shape of a copy. -/
def copyShape : Json.Shape CopyDraft where
  title := "struct BackupEntry"
  fields := ["backup", "original"]
  none := {}
  has d field := if field = "backup" then d.backup.isSome else d.file.isSome
  set field d text :=
    (Json.textValue text).map fun (s, rest) =>
      (if field = "backup" then { d with backup := some s } else { d with file := some s }, rest)

/-- A copy. -/
def copyValue (text : List Char) : Json.Scan Copy :=
  (copyShape.value text).map fun (d, rest) => (⟨d.backup.getD "", d.file.getD ""⟩, rest)

/-- A manifest of which some fields have been read. -/
structure Draft where
  createdAt : Option String := none
  copies : Option (List Copy) := none

/-- The shape of a manifest. -/
def shape : Json.Shape Draft where
  title := "struct BackupManifest"
  fields := ["created_at", "entries"]
  none := {}
  has d field := if field = "created_at" then d.createdAt.isSome else d.copies.isSome
  set field d text :=
    if field = "created_at" then
      (Json.textValue text).map fun (s, rest) => ({ d with createdAt := some s }, rest)
    else
      (Json.listValue copyValue text).map fun (cs, rest) => ({ d with copies := some cs }, rest)

/-- The manifest that a text describes. -/
def parse (text : List Char) : Except Json.Fault Manifest :=
  (shape.read text).map fun d => ⟨d.createdAt.getD "", d.copies.getD []⟩

end Manifest

end Renaming
