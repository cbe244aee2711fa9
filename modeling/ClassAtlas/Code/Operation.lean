import ClassAtlas.Source.Block
import ClassAtlas.Code.Modifier
import ClassAtlas.Code.Declarator

/-!
# Operations

An operation is `modifiers <parameters> type name(parameters) throws types`
followed by a semicolon, a body or a default value. A constructor has the shape
of an operation but is none.
-/

namespace ClassAtlas.Code

open ClassAtlas.Text Pattern

/-- The modifiers of operations. -/
def operationModifiers : List String :=
  ["public", "private", "protected", "static", "final", "abstract", "synchronized", "native",
    "default", "strictfp"]

/-- Whether a character can stand in the return type of an operation. -/
def inReturnType (c : Char) : Bool :=
  isDottedName c || isBlank c || ['<', '>', '[', ']', ',', '?'].contains c

/-- The part of an operation in front of its parameter list. -/
structure OperationHead where
  modifiers : List String
  returnType : List Char
  name : List Char

/-- The head of an operation with the parenthesis that opens its parameter
list. -/
def operationHead : Pattern OperationHead := do
  let modifiers ← modifiers operationModifiers
  let _ ← optional do
    char '<'
    skipFew (noneOf [';', '{', '}', '(', ')'])
    char '>'
    gap1
  let returnType ← runFew1 inReturnType
  blanks1
  let name ← run1 isName
  blanks
  char '('
  return { modifiers, returnType := returnType.text, name := name.text }

/-- What can follow a parameter list. -/
def operationTail : Pattern Unit := do
  blanks
  let _ ← optional do
    literal "throws"
    let _ ← one isBlank
    skipFew1 fun c => isDottedName c || isBlank c || [',', '<', '>'].contains c
  blanks
  let _ ← optional (oneOf [
    char ';',
    literal "\x7b\x7d",
    do
      literal "default"
      let _ ← one isBlank
      skip (noneOf [';'])
      char ';'])
  blanks
  atEnd

/-- Words that are never the return type of an operation. -/
def nonReturnTypes : List String :=
  ["return", "throw", "new", "else", "case", "assert", "yield"]

/-- The operation that a statement in the body of a type declares. In an
interface an operation without a body is abstract, unless it is static or a
default operation. -/
def operation? (ownerName : List Char) (owner : TypeKind) (statement : List Char) :
    Option Operation := do
  let (head, rest) ← operationHead.first? statement
  if nonReturnTypes.contains (String.ofList ((words head.returnType).headD [])) then none
  let (inside, tail) ← Source.splitBlock? '(' ')' ('(' :: rest)
  if !operationTail.accepts tail || head.name = ownerName then none
  let hasBody := (trimEnd tail).getLast? == some '}'
  let isStatic := head.modifiers.contains "static"
  return {
    name := String.ofList head.name
    parameters := parameters inside
    returnType := String.ofList (TypeText.display head.returnType)
    visibility := memberVisibility owner head.modifiers
    isStatic
    isAbstract := head.modifiers.contains "abstract" ||
      (owner = .interface && !hasBody && !isStatic && !head.modifiers.contains "default") }

end ClassAtlas.Code
