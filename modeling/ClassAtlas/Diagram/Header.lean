import ClassAtlas.Text.Pattern
import ClassAtlas.TypeText
import ClassAtlas.Declaration

/-!
# Block headers of a diagram

A block header declares a type on one line: its kind, its name, a stereotype
and type parameters that are passed over, its supertypes, and the start of its
body if the body opens on the same line.
-/

namespace ClassAtlas.Diagram

open ClassAtlas.Text Pattern

/-- A block header. -/
structure Header where
  name : String
  kind : TypeKind
  isAbstract : Bool
  extended : List String
  implemented : List String
  /-- The text from the opening brace on, if the body opens on this line. -/
  opening : Option (List Char)
  deriving DecidableEq, Repr

/-- The words that open a block: the kind, and whether it is abstract. -/
def blockKeyword : Pattern (TypeKind × Bool) :=
  oneOf [
    do
      literal "abstract"
      blanks1
      literal "class"
      return (.«class», true),
    do
      literal "abstract"
      return (.«class», true),
    do
      literal "class"
      return (.«class», false),
    do
      literal "interface"
      return (.interface, false),
    do
      literal "enum"
      return (.enumeration, false)]

/-- The name of a block: quoted, or a dotted name. -/
def blockName : Pattern Span :=
  oneOf [
    taken do
      char '"'
      skip1 (noneOf ['"'])
      char '"',
    run1 isDottedName]

/-- A stereotype after a name. -/
def stereotype : Pattern Unit := do
  blanks
  literal "<<"
  skip (noneOf ['>'])
  literal ">>"

/-- Type parameters after a name. -/
def typeParameters : Pattern Unit := do
  blanks
  char '<'
  skip (noneOf ['<', '>', '{'])
  char '>'

/-- The start of a body: the rest of the line from the opening brace on. -/
def bodyOpening : Pattern Span :=
  taken do
    char '{'
    skip inLine

/-- The supertypes that follow a word. -/
def supertypeList (word : String) : Pattern Span := do
  blanks1
  literal word
  gap1
  runFew1 (noneOf ['{'])

/-- The parts of a block header as written. -/
structure HeaderParts where
  kind : TypeKind
  isAbstract : Bool
  name : List Char
  extended : Option (List Char)
  implemented : Option (List Char)
  opening : Option (List Char)

/-- A whole line that is a block header. -/
def headerLine : Pattern HeaderParts := do
  let (kind, isAbstract) ← blockKeyword
  blanks1
  let name ← blockName
  let _ ← optional stereotype
  let _ ← optional typeParameters
  let extended ← optional (supertypeList "extends")
  let implemented ← optional (supertypeList "implements")
  blanks
  let opening ← optional bodyOpening
  atEnd
  return {
    kind
    isAbstract
    name := name.text
    extended := extended.map Span.text
    implemented := implemented.map Span.text
    opening := opening.map Span.text }

/-- The simple name of a type as written in a diagram, where it may stand in
quotes. -/
def typeName (s : List Char) : List Char :=
  TypeText.simpleName (trimChar '"' s)

/-- The simple names in a list of types. -/
def typeNames (s : List Char) : List String :=
  (((TypeText.splitTopLevel ',' s).map typeName).filter (!·.isEmpty)).map String.ofList

/-- The block header that a line is. -/
def header? (line : List Char) : Option Header := do
  let (parts, _) ← headerLine.first? line
  let name := typeName parts.name
  if name.isEmpty then none
  return {
    name := String.ofList name
    kind := parts.kind
    isAbstract := parts.isAbstract
    extended := (parts.extended.map typeNames).getD []
    implemented := (parts.implemented.map typeNames).getD []
    opening := parts.opening }

end ClassAtlas.Diagram
