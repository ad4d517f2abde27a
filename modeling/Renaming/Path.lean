/-!
The texts of paths. Repeated and trailing slashes, and dots other than one at the very start, are
no components of a path.
-/

namespace Renaming.Path

/-- Whether a path starts at the root. -/
def isAbsolute (path : String) : Bool := path.toList.head? == some '/'

/-- A path taken from a directory. An absolute path stays as it is. -/
def join (dir path : String) : String :=
  if isAbsolute path || dir.isEmpty then path
  else if dir.toList.getLast? == some '/' then dir ++ path
  else dir ++ "/" ++ path

/-- The parts of a text between its slashes. -/
def cut : List Char → List (List Char)
  | [] => [[]]
  | c :: cs =>
    if c = '/' then [] :: cut cs
    else
      match cut cs with
      | [] => [[c]]
      | p :: ps => (c :: p) :: ps

/-- The segments of a path between its slashes. -/
def segments (path : String) : List (List Char) := cut path.toList

/-- The segments of a path that are not empty. -/
def names (path : String) : List String :=
  ((segments path).filter (!·.isEmpty)).map String.ofList

/-- A component of a path. -/
inductive Component
  | root
  | current
  | parent
  | name (text : String)
  deriving DecidableEq, Repr

/-- The place of a kind of component in the order of paths. -/
def Component.rank : Component → Nat
  | root => 0
  | current => 1
  | parent => 2
  | name _ => 3

/-- Whether one component comes before another in the order of paths. -/
def Component.before : Component → Component → Bool
  | name a, name b => decide (a.toList < b.toList)
  | c, d => decide (c.rank < d.rank)

/-- The component that a segment is behind the start of a path. -/
def component? (segment : String) : Option Component :=
  if segment = "." then none else if segment = ".." then some .parent else some (.name segment)

/-- The components of a path. -/
def components (path : String) : List Component :=
  let own := (names path).filterMap component?
  if isAbsolute path then .root :: own
  else if (names path).head? = some "." then .current :: own
  else own

/-- Whether a segment is a component, at the start of a path or further on. -/
def isComponent (atStart : Bool) (segment : List Char) : Bool :=
  !segment.isEmpty && (atStart || segment != ['.'])

/-- The segments up to the last one that is a component. -/
def trimmed : List (List Char) → List (List Char)
  | [] => []
  | first :: rest =>
    let rest := (rest.reverse.dropWhile (!isComponent false ·)).reverse
    if rest.isEmpty && !isComponent true first then [] else first :: rest

/-- The text of segments. -/
def ofSegments (segments : List (List Char)) : String :=
  String.ofList (segments.intersperse ['/']).flatten

/-- The path without its last component. The root and the empty path have none to lose. -/
def parent? (path : String) : Option String :=
  match (trimmed (segments path)).reverse with
  | [] => none
  | _ :: before =>
    match trimmed before.reverse with
    | [] => some (if isAbsolute path then "/" else "")
    | segments => some (ofSegments segments)

/-- The last component of a path, if it names something. -/
def fileName? (path : String) : Option String :=
  match (trimmed (segments path)).getLast? with
  | none => none
  | some segment =>
    if segment = ['.'] ∨ segment = ['.', '.'] then none else some (String.ofList segment)

/-- The part of a file name behind its last dot, unless the name starts with that dot. -/
def extensionOf? (name : List Char) : Option (List Char) :=
  let after := (name.reverse.takeWhile (· != '.')).reverse
  if name.length ≤ after.length + 1 then none else some after

/-- The extension of the last component of a path. -/
def extension? (path : String) : Option String :=
  (fileName? path).bind fun name => (extensionOf? name.toList).map String.ofList

/-- A path with the home directory for a tilde at its start. -/
def expandHome (home path : String) : String :=
  match path.toList with
  | ['~'] => home
  | '~' :: '/' :: rest => home ++ String.ofList ('/' :: rest)
  | _ => path

end Renaming.Path
