import ClassAtlas.Code.Modifier
import ClassAtlas.Code.Declarator

/-!
# Fields

A field is `modifiers type name = initializer;`, where modifiers and
initializer may be missing. A statement with parentheses is read as a field
only if an assignment comes before them.
-/

namespace ClassAtlas.Code

open ClassAtlas.Text Pattern

/-- The modifiers of fields. -/
def fieldModifiers : List String :=
  ["public", "private", "protected", "static", "final", "volatile", "transient", "readonly"]

/-- A pair of array brackets, with blanks before and inside. -/
def arrayBrackets : Pattern Unit := do
  blanks
  char '['
  blanks
  char ']'

/-- The type of a field: a dotted name, type arguments and array brackets. -/
def fieldType : Pattern Unit := do
  skip1 isDottedName
  let _ ← optional do
    blanks
    char '<'
    skip (noneOf ['=', ';'])
    char '>'
  let _ ← many arrayBrackets

/-- The parts of a field declaration. -/
structure FieldParts where
  modifiers : List String
  type : List Char
  name : List Char

/-- A whole statement that declares a field. -/
def fieldStatement : Pattern FieldParts := do
  let modifiers ← modifiers fieldModifiers
  let type ← taken fieldType
  blanks1
  let name ← taken do
    skip1 isName
    let _ ← many arrayBrackets
  blanks
  let _ ← optional do
    char '='
    skip1 anything
  char ';'
  atEnd
  return { modifiers, type := type.text, name := name.text }

/-- The start of a statement that assigns to a declared name before any call. -/
def assignmentStart : Pattern Unit := do
  skip (noneOf ['=', '('])
  let _ ← one fun c => isWord c || c == '>' || c == ']'
  blanks1
  skip1 isName
  blanks
  let _ ← many do
    char '['
    blanks
    char ']'
    blanks
  char '='

/-- Words that are never the type of a field. -/
def nonFieldTypes : List String :=
  ["return", "throw", "package", "import", "new", "else"]

/-- The field that a statement declares. In an interface every field is static
and readonly. -/
def field? (owner : TypeKind) (statement : List Char) : Option Field := do
  if statement.contains '(' && statement.contains ')' && !assignmentStart.accepts statement then
    none
  let (parts, _) ← fieldStatement.first? statement
  if nonFieldTypes.contains (String.ofList parts.type) then none
  let (name, type) := declarator parts.type parts.name
  return {
    name := String.ofList name
    declaredType := String.ofList type
    visibility := memberVisibility owner parts.modifiers
    isStatic := owner = .interface || parts.modifiers.contains "static"
    isReadonly := owner = .interface || parts.modifiers.contains "final" ||
      parts.modifiers.contains "readonly" }

end ClassAtlas.Code
