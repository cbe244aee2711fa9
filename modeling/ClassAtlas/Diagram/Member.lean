import ClassAtlas.Text.Pattern
import ClassAtlas.TypeText
import ClassAtlas.Declaration

/-!
# Member lines of a diagram

A member line starts with an optional visibility sign and any number of tags in
braces. An operation is `name(parameters) : type`, an attribute `name : type`
or `type name`.
-/

namespace ClassAtlas.Diagram

open ClassAtlas.Text Pattern

/-- Whether a character is a visibility sign. -/
def isVisibilitySign (c : Char) : Bool :=
  c == '+' || c == '-' || c == '#' || c == '~'

/-- A word in braces. -/
def bracedWord : Pattern String := do
  char '{'
  let word ← run1 isWord
  char '}'
  blanks
  return String.ofList word.text

/-- Tags in braces; the value lists their words, the latest first. -/
def tags : Pattern (List String) :=
  many bracedWord

/-- What stands in front of the name or type of a member. -/
structure MemberStart where
  visibility : Visibility
  tags : List String

/-- The visibility sign and the tags of a member. -/
def memberStart : Pattern MemberStart := do
  let sign ← optional (one isVisibilitySign)
  blanks
  let tags ← tags
  return { visibility := .ofSymbol sign, tags }

/-- The rest of the line after a colon. -/
def afterColon : Pattern Span := do
  char ':'
  gap
  run1 inLine

/-- The parts of an operation line. -/
structure OperationParts where
  start : MemberStart
  name : List Char
  parameters : List Char
  returnType : Option (List Char)

/-- A whole line that is an operation. -/
def operationLine : Pattern OperationParts := do
  let start ← memberStart
  let name ← run1 isName
  blanks
  char '('
  let parameters ← run inLine
  char ')'
  blanks
  let returnType ← optional afterColon
  atEnd
  return {
    start
    name := name.text
    parameters := parameters.text
    returnType := returnType.map Span.text }

/-- The parts of an attribute line. -/
structure AttributeParts where
  start : MemberStart
  name : List Char
  type : List Char

/-- A whole line that is an attribute with its type after a colon. -/
def attributeLine : Pattern AttributeParts := do
  let start ← memberStart
  let name ← run1 isName
  blanks
  let type ← afterColon
  atEnd
  return { start, name := name.text, type := type.text }

/-- A whole line that is an attribute with its type in front. -/
def typedAttributeLine : Pattern AttributeParts := do
  let start ← memberStart
  let type ← taken do
    skip1 isDottedName
    let _ ← optional do
      char '<'
      skip (noneOf ['(', ')'])
      char '>'
    let _ ← many (literal "[]")
  blanks1
  let name ← run1 isName
  atEnd
  return { start, name := name.text, type := type.text }

/-- A line that separates literals in an enumeration block: names with commas
between them and perhaps after the last. -/
def literalLine : Pattern Unit := do
  name
  let _ ← many do
    blanks
    char ','
    blanks
    name
  blanks
  let _ ← optional (char ',')
  atEnd
where
  /-- A literal. -/
  name : Pattern Unit := do
    let _ ← one fun c => c.isAlpha || c == '_'
    skip isWord

/-- The literals on a literal line. -/
def literalNames (line : List Char) : List String :=
  (((line.splitOn ',').map trim).filter (!·.isEmpty)).map String.ofList

/-- Whether a line carries no structure: a divider, a comment, or the marker of
members left out. -/
def isDecoration (line : List Char) : Bool :=
  ["--", "..", "==", "__"].contains (String.ofList line) || line.head? == some '\'' ||
    occursIn "... (more".toList line

/-- The parameter in an entry `name : type` or `type name`. -/
def parameter? (entry : List Char) : Option Parameter :=
  match cutAtFirst? ':' entry with
  | some (name, type) =>
    some {
      name := String.ofList (trim name)
      declaredType := String.ofList (TypeText.display type) }
  | none =>
    let reversed := (trim entry).reverse
    match reversed.dropWhile (!isBlank ·) with
    | [] => none
    | _ :: type =>
      some {
        name := String.ofList (reversed.takeWhile (!isBlank ·)).reverse
        declaredType := String.ofList (TypeText.display type.reverse) }

/-- The parameters in a parameter list. -/
def parameters (s : List Char) : List Parameter :=
  (TypeText.splitTopLevel ',' s).filterMap parameter?

/-- Whether the tags mark a member as static. -/
def MemberStart.isStatic (start : MemberStart) : Bool :=
  start.tags.contains "static" || start.tags.contains "classifier"

/-- The operation that the parts of an operation line describe. -/
def operationOf (parts : OperationParts) : Operation where
  name := String.ofList parts.name
  parameters := parameters parts.parameters
  returnType := (parts.returnType.map fun s => String.ofList (TypeText.display s)).getD voidName
  visibility := parts.start.visibility
  isStatic := parts.start.isStatic
  isAbstract := parts.start.tags.contains "abstract"

/-- The attribute that the parts of an attribute line describe. -/
def fieldOf (parts : AttributeParts) : Field where
  name := String.ofList parts.name
  declaredType := String.ofList (TypeText.display parts.type)
  visibility := parts.start.visibility
  isStatic := parts.start.isStatic
  isReadonly := parts.start.tags.contains "readonly" || parts.start.tags.contains "final"

/-- The member that a line describes. Operations are tried first, so that a
return type is not taken for the type of an attribute. -/
def member? (line : List Char) : Option Member :=
  match operationLine.first? line with
  | some (parts, _) => some (.operation (operationOf parts))
  | none =>
    match attributeLine.first? line with
    | some (parts, _) => some (.field (fieldOf parts))
    | none => (typedAttributeLine.first? line).map fun (parts, _) => .field (fieldOf parts)

/-- The start of a line with the unmistakable shape of a diagram member: a
visibility sign, a name, perhaps parameters, and a type after a colon. -/
def memberShape : Pattern Unit := do
  blanks
  let _ ← one isVisibilitySign
  blanks
  let _ ← tags
  skip1 isName
  blanks
  let _ ← optional do
    char '('
    skip (noneOf [')'])
    char ')'
    blanks
  char ':'
  blanks
  let _ ← one (!isBlank ·)

/-- Whether a line has the unmistakable shape of a diagram member. -/
def isMemberLine (line : List Char) : Bool :=
  memberShape.accepts line

end ClassAtlas.Diagram
