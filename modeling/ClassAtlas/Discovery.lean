import ClassAtlas.Trail
import ClassAtlas.Conversion

/-!
# Finding source units

The units of a source tree are the files that the patterns of the wanted
extensions lead to from its root and whose own extension and name are wanted,
in the order of their paths. A file that two paths lead to is found twice. A
file that is no UTF-8 text is reported, and the others are still found.
-/

namespace ClassAtlas.Discovery

/-- Which files are wanted. -/
structure Options where
  /-- The extensions, without a dot. Each is also a pattern. -/
  extensions : List String := ["java"]
  /-- What the names of the files start with. -/
  nameStart : String := ""
  deriving DecidableEq, Repr, Inhabited

/-- Why no files can be looked for. -/
inductive Failure where
  | notADirectory (root : String)
  | invalidPattern (pattern : String)
  deriving DecidableEq, Repr

/-- What is wrong, in words. -/
def Failure.message : Failure → String
  | notADirectory root => "source root '" ++ root ++ "' is not a directory"
  | invalidPattern pattern => "invalid pattern " ++ pattern

/-- The units that were found, and the problems of files that could not be
read. -/
structure Discovered where
  units : List SourceUnit := []
  problems : List Problem := []
  deriving DecidableEq, Repr

/-- The pattern for files of an extension. The root stands for itself, and
everything below it is looked at. -/
def patternText (root extension : String) : String :=
  String.ofList (Glob.escape root.toList) ++ "/**/*." ++ extension

/-- The patterns for the wanted extensions. -/
def patterns (root : String) (extensions : List String) :
    Except Failure (List Glob.PathPattern) :=
  extensions.mapM fun extension =>
    let text := patternText root extension
    match Glob.PathPattern.ofText? text.toList with
    | some pattern => .ok pattern
    | none => .error (.invalidPattern text)

/-- Whether the file at the end of a trail is wanted. -/
def isWanted (options : Options) (trail : Trail) : Bool :=
  Path.hasExtension options.extensions trail.text &&
    Path.nameStartsWith options.nameStart.toList trail.text

/-- The trails that match some of the patterns, in the order of their parts. Of
trails with the same parts the first is kept. -/
def trails (patterns : List Glob.PathPattern) (folder : Folder) : List Trail :=
  ((patterns.flatMap (Trail.matching folder)).eraseDupsBy
    fun trail other => trail.parts == other.parts).mergeSort
      fun trail other => Path.precedes trail.parts other.parts

/-- The wanted files with the trails to them. -/
def wantedFiles (options : Options) (patterns : List Glob.PathPattern) (folder : Folder) :
    List (Trail × ByteArray) :=
  (trails patterns folder).filterMap fun trail =>
    if isWanted options trail then (folder.content? trail.place).map (trail, ·) else none

/-- The identifier of a file: its path from the root directory, or its trail as
written if it lies elsewhere. -/
def unitId (directory : Place) (trail : Trail) : String :=
  match directory.namesFrom? trail.place with
  | some names => "/".intercalate names
  | none => String.ofList trail.text

/-- The unit that a file holds. -/
def readFile (id : String) (content : ByteArray) : Except Problem SourceUnit :=
  match String.fromUTF8? content with
  | some text => .ok { id, text }
  | none => .error (.unreadable id "stream did not contain valid UTF-8")

/-- The units that are found from the root, which is written from the top of the
folder. An absolute root is no directory here, wherever it leads in the file
system. -/
def discover (options : Options) (folder : Folder) (root : String) :
    Except Failure Discovered := do
  match folder.directory? root with
  | none => throw (.notADirectory root)
  | some directory =>
    let patterns ← patterns root options.extensions
    let files := (wantedFiles options patterns folder).map fun (trail, content) =>
      readFile (unitId directory trail) content
    return {
      units := files.filterMap Except.toOption
      problems := files.filterMap fun
        | .ok _ => none
        | .error problem => some problem }

/-- The run over the units that were found; the problems of files come first. -/
def Discovered.toRun (found : Discovered) (settings : Settings) : Conversion :=
  found.units.foldl Conversion.addUnit
    (found.problems.foldl Conversion.addProblem (.start settings))

end ClassAtlas.Discovery
