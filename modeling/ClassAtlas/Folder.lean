import ClassAtlas.Path

/-!
# Folders

A folder is a set of files and directories, each at a path of names below the
top. A directory is there if it was made or if anything lies below it. The top
itself lies in a directory of which nothing else is known.
-/

namespace ClassAtlas

/-- A file or a directory at a path below the top of a folder. -/
structure Entry where
  /-- The names that lead from the top to the entry. -/
  path : List String
  /-- The bytes of a file; a directory has none. -/
  content : Option ByteArray

/-- Where a path leads. -/
inductive Place where
  /-- To what the names lead to from the top. -/
  | within (names : List String)
  /-- To a directory above the top. -/
  | above
  deriving DecidableEq, Repr

namespace Place

/-- The directory that a place lies in. -/
def parent : Place → Place
  | within [] => above
  | within names => within names.dropLast
  | above => above

/-- The place of a name in a directory, where that is known. -/
def child? (name : String) : Place → Option Place
  | within names => some (within (names ++ [name]))
  | above => none

/-- The names that lead to a place from a directory, if it lies below. -/
def namesFrom? (directory : Place) (place : Place) : Option (List String) :=
  match directory, place with
  | within names, within path => names.isPrefixOf? path
  | _, _ => none

end Place

/-- Files and directories below a common top. -/
structure Folder where
  entries : List Entry := []

namespace Folder

/-- The folder with an entry, in place of an earlier one at the same path. -/
def add (folder : Folder) (entry : Entry) : Folder :=
  { entries := folder.entries.filter (·.path != entry.path) ++ [entry] }

/-- Whether a place is a directory. -/
def isDirectory (folder : Folder) : Place → Bool
  | .within path =>
    path.isEmpty || folder.entries.any fun entry =>
      if entry.path = path then entry.content.isNone else path.isPrefixOf entry.path
  | .above => true

/-- The folder with an entry for each directory on a written path, and the names
that the path leads to from the top. -/
def makeWay (folder : Folder) (path : List Path.Part) : Folder × List String :=
  path.foldl
    (fun (folder, names) part =>
      match part with
      | .name text =>
        let names := names ++ [String.ofList text]
        (if folder.isDirectory (.within names) then folder
          else folder.add { path := names, content := none }, names)
      | .parent => (folder, names.dropLast)
      | .root | .current => (folder, names))
    (folder, [])

/-- The folder with a file, or a directory if there are no bytes, at a written
path. Directories on the way are made. -/
def write (folder : Folder) (path : String) (content : Option ByteArray) : Folder :=
  let (folder, names) := folder.makeWay (Path.parts path.toList)
  if names.isEmpty then folder else folder.add { path := names, content }

/-- The bytes of the file at a place. -/
def content? (folder : Folder) : Place → Option ByteArray
  | .within path => folder.entries.findSome? fun entry =>
      if entry.path = path then entry.content else none
  | .above => none

/-- Whether a file or a directory is at a place. -/
def has (folder : Folder) (place : Place) : Bool :=
  folder.isDirectory place || (folder.content? place).isSome

/-- The place that a part of a path leads to from a directory. Paths are written
from the top of the folder: where the top lies in the file system is not known,
so the root part of an absolute path leads nowhere. -/
def step? (folder : Folder) (place : Place) (part : Path.Part) : Option Place :=
  if folder.isDirectory place then
    match part with
    | .root => none
    | .current => some place
    | .parent => some place.parent
    | .name text => (place.child? (String.ofList text)).filter folder.has
  else none

/-- The directory that a path leads to from the top. The empty path leads
nowhere, and so does an absolute one. -/
def directory? (folder : Folder) (path : String) : Option Place :=
  if path.isEmpty then none
  else ((Path.parts path.toList).foldlM folder.step? (.within [])).filter folder.isDirectory

/-- The paths that lead to an entry and to the directories on the way there. -/
def pathsTo (path : List String) : List (List String) :=
  (List.range path.length).map fun n => path.take (n + 1)

/-- The paths from a place to everything below it, in order. -/
def pathsBelow (folder : Folder) (place : Place) : List (List String) :=
  (folder.entries.flatMap fun entry =>
    pathsTo ((place.namesFrom? (.within entry.path)).getD [])).eraseDups.mergeSort
      fun path other => Path.precedes (Path.ofNames path) (Path.ofNames other)

/-- The names of what lies in a directory, in order. -/
def namesIn (folder : Folder) (place : Place) : List String :=
  (folder.pathsBelow place).filterMap fun
    | [name] => some name
    | _ => none

end Folder

end ClassAtlas
