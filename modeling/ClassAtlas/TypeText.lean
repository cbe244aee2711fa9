import ClassAtlas.Text.Word
import ClassAtlas.Text.Basic

/-!
# Declared types as written

A declared type is kept as the text that declares it. This module reduces such
a text to the name it refers to, tells collections from single values, and
brings a text into the form in which it is displayed. Nothing here looks at a
model.
-/

namespace ClassAtlas.TypeText

open ClassAtlas.Text

/-- The primitive types, in the order in which a model lists them. -/
def primitiveNames : List String :=
  ["int", "float", "double", "boolean", "String", "void", "long", "byte", "char"]

/-- Whether a name is that of a primitive type. -/
def isPrimitive (name : String) : Bool :=
  primitiveNames.contains name

/-- The names that mark a declared type as a collection. -/
def containerNames : List String :=
  ["List", "ArrayList", "LinkedList", "Vector", "Set", "HashSet", "TreeSet", "LinkedHashSet",
    "Map", "HashMap", "TreeMap", "LinkedHashMap", "LongMap", "Collection", "Queue", "Deque",
    "ArrayDeque", "ConcurrentLinkedQueue", "LinkedBlockingQueue", "AtomicReference"]

/-- The change of nesting depth at a character; all four kinds of brackets
count alike. -/
def depthChange (c : Char) : Int :=
  if c == '<' || c == '(' || c == '[' || c == '{' then 1
  else if c == '>' || c == ')' || c == ']' || c == '}' then -1
  else 0

/-- The pieces of a text between the separators at depth zero, read from the
given depth on. -/
def topLevelPieces (sep : Char) : Int → List Char → List (List Char)
  | _, [] => [[]]
  | depth, c :: rest =>
    let depth := depth + depthChange c
    if c = sep && depth = 0 then
      [] :: topLevelPieces sep depth rest
    else
      match topLevelPieces sep depth rest with
      | [] => [[c]]
      | piece :: more => (c :: piece) :: more

/-- The trimmed parts of a text between the separators outside brackets; blank
parts are left out. -/
def splitTopLevel (sep : Char) (s : List Char) : List (List Char) :=
  ((topLevelPieces sep 0 s).map trim).filter fun part => !part.isEmpty

/-- A reversed text without the array and varargs marks it starts with. -/
def dropMarks : List Char → List Char
  | '.' :: '.' :: '.' :: rest => dropMarks (trimStart rest)
  | ']' :: rest =>
    match _h : trimStart rest with
    | '[' :: more => dropMarks (trimStart more)
    | _ => ']' :: rest
  | s => s
termination_by s => s.length
decreasing_by
  · have := length_trimStart_le rest
    simp; omega
  · have := length_trimStart_le rest
    have := length_trimStart_le more
    simp_all; omega

/-- The trimmed text without its trailing array and varargs marks. -/
def stripArrays (s : List Char) : List Char :=
  (dropMarks (trim s).reverse).reverse

/-- The innermost argument list that ends at the first closing angle bracket
after the first opening one. -/
def innerArguments? (s : List Char) : Option (List Char) :=
  match s.dropWhile (· != '<') with
  | [] => none
  | _ :: rest => some (afterLast '<' (rest.takeWhile (· != '>')))

/-- The text without a leading wildcard bound. -/
def dropBound (bound : String) (s : List Char) : List Char :=
  match bound.toList.isPrefixOf? s with
  | some rest => trim rest
  | none => s

/-- The name that a declared type refers to: the last of the innermost type
arguments, or the type itself, without arrays, wildcard and package. -/
def baseName (s : List Char) : List Char :=
  let bare := stripArrays s
  let segment :=
    match innerArguments? bare with
    | none => bare
    | some inner => (splitTopLevel ',' inner).getLast?.getD inner
  let unbounded := dropBound "? super " (dropBound "? extends " (trim (stripArrays segment)))
  trim (afterLast '.' unbounded)

/-- The identifiers of a text, from left to right. -/
def identifiers (s : List Char) : List (List Char) :=
  match _h : s.dropWhile fun c => !opensName c with
  | [] => []
  | c :: rest => (c :: rest.takeWhile isName) :: identifiers (rest.dropWhile isName)
termination_by s.length
decreasing_by
  have h₁ := (List.dropWhile_sublist (l := s) fun c => !opensName c).length_le
  have h₂ := (List.dropWhile_sublist (l := rest) isName).length_le
  rw [_h] at h₁
  simp at h₁; omega

/-- Whether a declared type holds many values: an array, varargs, or a type
that names a container. -/
def isCollection (s : List Char) : Bool :=
  occursIn "[]".toList s || occursIn "...".toList s ||
    (identifiers s).any fun name => containerNames.contains (String.ofList name)

/-- The multiplicity of the end that a field of this type points to. -/
def multiplicity? (s : List Char) : Option String :=
  if isCollection s then some "*" else none

/-- The outer name of a reference to a supertype, without arguments and
package. -/
def simpleName (s : List Char) : List Char :=
  afterLast '.' (trim ((stripArrays s).takeWhile (· != '<')))

/-- The text with every run of blanks made one space. -/
def collapse : List Char → List Char
  | [] => []
  | [c] => if isBlank c then [' '] else [c]
  | c :: d :: rest =>
    if isBlank c then
      if isBlank d then collapse (d :: rest) else ' ' :: collapse (d :: rest)
    else c :: collapse (d :: rest)

/-- The reversed display text after one more character: no space before a
bracket or comma, none after an opening bracket, one after a comma. -/
def displayStep (shown : List Char) (c : Char) : List Char :=
  if c == '<' || c == '>' || c == '[' || c == ']' then
    c :: shown.dropWhile (· == ' ')
  else if c = ',' then
    ' ' :: ',' :: shown.dropWhile (· == ' ')
  else if c = ' ' then
    match shown with
    | d :: _ => if d == '<' || d == '[' || d == ' ' then shown else ' ' :: shown
    | [] => [' ']
  else
    c :: shown

/-- The form in which a declared type is displayed. -/
def display (s : List Char) : List Char :=
  trim ((collapse (trim s)).foldl displayStep []).reverse

end ClassAtlas.TypeText
