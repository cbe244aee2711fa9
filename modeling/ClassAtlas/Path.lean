import ClassAtlas.Text.Basic

/-!
# Paths

A path is a text whose parts are separated by slashes. Repeated slashes and
parts that consist of one dot do not count, except for a dot that starts a
relative path.
-/

namespace ClassAtlas.Path

open ClassAtlas.Text

/-- A part of a path. -/
inductive Part where
  /-- The slash that starts an absolute path. -/
  | root
  /-- The dot that starts a relative path. -/
  | current
  /-- Two dots. -/
  | parent
  /-- Any other part. -/
  | name (text : List Char)
  deriving DecidableEq, Repr

/-- The part that a text between slashes stands for, if it counts. -/
def Part.ofText? (text : List Char) : Option Part :=
  if text = [] || text = ['.'] then none
  else if text = ['.', '.'] then some .parent
  else some (.name text)

/-- The part that a path starts with before its names, and the text after it. -/
def cutOpening (path : List Char) : Option Part × List Char :=
  match path with
  | '/' :: body => (some .root, body)
  | '.' :: '/' :: rest => (some .current, '/' :: rest)
  | ['.'] => (some .current, [])
  | _ => (none, path)

/-- The parts of a path. -/
def parts (path : List Char) : List Part :=
  let (opening, body) := cutOpening path
  opening.toList ++ (body.splitOn '/').filterMap Part.ofText?

/-- The last part of a path, if it is a name. -/
def fileName? (path : List Char) : Option (List Char) :=
  match (parts path).getLast? with
  | some (.name text) => some text
  | _ => none

/-- The extension of a file name: what follows its last dot, unless that dot is
its first character. -/
def extensionOf? (name : List Char) : Option (List Char) :=
  match name.reverse.dropWhile (· != '.') with
  | [] | [_] => none
  | _ => some (afterLast '.' name)

/-- The extension of a path's file name. -/
def extension? (path : List Char) : Option (List Char) :=
  (fileName? path).bind extensionOf?

/-- Whether the extension of a path is one of the given ones, in upper or lower
case. -/
def hasExtension (extensions : List String) (path : List Char) : Bool :=
  match extension? path with
  | none => false
  | some extension => extensions.any fun wanted => lowerAscii wanted.toList == lowerAscii extension

/-- Whether the file name of a path starts with a text. Every path starts with
the empty one. -/
def nameStartsWith (start : List Char) (path : List Char) : Bool :=
  start.isEmpty || (fileName? path).any start.isPrefixOf

/-- Whether the text between two slashes counts as a part. -/
def counts (piece : List Char) : Bool :=
  (Part.ofText? piece).isSome

/-- The pieces without the uncounted ones at the end. -/
def trimPieces (pieces : List (List Char)) : List (List Char) :=
  (pieces.reverse.dropWhile (!counts ·)).reverse

/-- The pieces after the first `n` that count. -/
def dropCounted : Nat → List (List Char) → List (List Char)
  | 0, pieces => pieces
  | _ + 1, [] => []
  | n + 1, piece :: rest => if counts piece then dropCounted n rest else dropCounted (n + 1) rest

/-- The text of a path after its first `n` parts, as written, without what does
not count at its ends. -/
def afterParts (n : Nat) (path : List Char) : List Char :=
  let (opening, body) := cutOpening path
  let pieces := body.splitOn '/'
  if n = 0 then
    path.take (path.length - body.length) ++ ['/'].intercalate (trimPieces pieces)
  else
    let rest := dropCounted (n - opening.toList.length) pieces
    ['/'].intercalate (trimPieces (rest.dropWhile (!counts ·)))

/-- The parts of a path of names. -/
def ofNames (names : List String) : List Part :=
  names.map fun name => .name name.toList

/-- The place of a part's kind in the order of parts. -/
def Part.rank : Part → Nat
  | root => 0
  | current => 1
  | parent => 2
  | name _ => 3

/-- Whether a part comes before another or is the same. Names come last and are
in the order of their characters. -/
def Part.precedes : Part → Part → Bool
  | name text, name other => Text.precedes text other
  | part, other => part.rank ≤ other.rank

/-- Whether a path comes before another or is the same, part by part. -/
def precedes : List Part → List Part → Bool
  | [], _ => true
  | _ :: _, [] => false
  | part :: path, other :: others =>
    if part = other then precedes path others else part.precedes other

/-- A path that does not lie below a root. -/
structure OutsideRoot where
  path : String
  root : String
  deriving DecidableEq, Repr

/-- What is wrong with such a path, in words. -/
def OutsideRoot.message (error : OutsideRoot) : String :=
  "File path '" ++ error.path ++ "' is not within root '" ++ error.root ++ "'"

/-- A path relative to a root, part by part. -/
def relativeTo (root path : String) : Except OutsideRoot String :=
  let rootParts := parts root.toList
  if rootParts.isPrefixOf (parts path.toList) then
    .ok (String.ofList (afterParts rootParts.length path.toList))
  else
    .error { path, root }

end ClassAtlas.Path
