import ClassAtlas.Folder
import ClassAtlas.Glob

/-!
# Trails

A trail is a path as it was walked: how it is written, and where it leads. A
path pattern is walked part by part from the top of a folder. A part that is
one text is followed as written, so dots and empty parts count as steps. Any
other part is compared with the names in a directory, and with one dot and two
dots only if it starts with a dot. After any number of directories a part is
compared with names alone.
-/

namespace ClassAtlas

open ClassAtlas.Glob

/-- A path that was walked. -/
structure Trail where
  /-- The path as it is written. -/
  text : List Char
  /-- Where the path leads. -/
  place : Place
  deriving DecidableEq, Repr

namespace Trail

/-- The trail at the top of a folder. -/
def top : Trail :=
  { text := ['.'], place := .within [] }

/-- A path with one more part. The dot that stands for the top is left out. -/
def join (path part : List Char) : List Char :=
  if path = ['.'] then part
  else if path.getLast? = some '/' then path ++ part
  else path ++ '/' :: part

/-- The trail with the names that lead from it to something below. -/
def descend (trail : Trail) (names : List String) : Trail :=
  names.foldl
    (fun trail name =>
      { text := join trail.text name.toList
        place := (trail.place.child? name).getD trail.place })
    trail

/-- The trail with one more part, if that leads anywhere. An empty part is one
more slash, which only a directory can have; at the top it leads nowhere. -/
def follow? (folder : Folder) (trail : Trail) (part : List Char) : Option Trail :=
  let text := join trail.text part
  if text = [] then none
  else
    (folder.step? trail.place ((Path.Part.ofText? part).getD .current)).map fun place =>
      { text, place }

/-- The trails to the names in the directory that a trail leads to. -/
def children (folder : Folder) (trail : Trail) : List (List Char × Trail) :=
  (folder.namesIn trail.place).map fun name => (name.toList, trail.descend [name])

/-- The trails to everything below the directory that a trail leads to, with
their last names. -/
def descendants (folder : Folder) (trail : Trail) : List (List Char × Trail) :=
  (folder.pathsBelow trail.place).map fun names =>
    ((names.getLast?.getD "").toList, trail.descend names)

/-- The trails to the directory itself and the one above that tokens match,
which they can only if they start with a dot. -/
def dotted (folder : Folder) (trail : Trail) (tokens : List Token) : List Trail :=
  if tokens.head? = some (.exactly '.') && folder.isDirectory trail.place then
    ([['.', '.'], ['.']].filter (nameMatches tokens)).filterMap (trail.follow? folder)
  else []

/-- The trails that the parts of a pattern lead to from a trail. -/
def walk (folder : Folder) : List PartPattern → Trail → List Trail
  | [], trail => [trail]
  | .literal text :: rest, trail =>
    (trail.follow? folder text).toList.flatMap (walk folder rest)
  | .name tokens :: rest, trail =>
    (trail.dotted folder tokens).flatMap (walk folder rest) ++
      (trail.children folder).flatMap fun (name, next) =>
        if nameMatches tokens name then walk folder rest next else []
  | .anyDirectories :: [], trail =>
    (trail.descendants folder).filterMap fun (_, next) =>
      if folder.isDirectory next.place then some next else none
  | .anyDirectories :: .anyDirectories :: rest, trail =>
    walk folder (.anyDirectories :: rest) trail
  | .anyDirectories :: part :: rest, trail =>
    (trail.descendants folder).flatMap fun (name, next) =>
      if part.takes name then walk folder rest next else []

/-- The trails from the top of a folder that match a pattern. -/
def matching (folder : Folder) (pattern : PathPattern) : List Trail :=
  (walk folder pattern.parts top).filter fun trail =>
    !pattern.directoriesOnly || folder.isDirectory trail.place

/-- The parts of the path as it is written. -/
def parts (trail : Trail) : List Path.Part :=
  Path.parts trail.text

end Trail

end ClassAtlas
