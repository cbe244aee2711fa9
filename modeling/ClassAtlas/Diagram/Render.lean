import ClassAtlas.Assembly.Basic

/-!
# Writing class diagrams

A diagram is a list of lines: a heading, one block for each type with its
literals, attributes and operations, and one line for each relationship that no
block states already. The result can be read back without loss.
-/

namespace ClassAtlas.Diagram

/-- Where supertypes are written. -/
inductive InheritanceStyle where
  /-- In the header of the block. -/
  | headerClauses
  /-- As links. -/
  | links
  deriving DecidableEq, Repr, Inhabited

/-- The choices of a diagram. -/
structure RenderOptions where
  /-- The title; the name of the model if there is none. -/
  title : Option String := none
  /-- How many attributes a block shows at most. -/
  maxFields : Option Nat := none
  /-- How many operations a block shows at most. -/
  maxOperations : Option Nat := none
  inheritance : InheritanceStyle := .headerClauses
  deriving DecidableEq, Repr, Inhabited

/-- A line at the indentation of blocks and links. -/
def blockLine (line : String) : String :=
  "    " ++ line

/-- A line at the indentation of members. -/
def memberLine (line : String) : String :=
  "        " ++ line

/-- The words that open the block of a type. -/
def blockWords (node : TypeNode) : String :=
  match node.kind with
  | .interface => "interface"
  | .enumeration => "enum"
  | .«class» => if node.isAbstract then "abstract class" else "class"

/-- A clause that lists names after a word, if there are any. -/
def clause (word : String) (names : List String) : String :=
  if names.isEmpty then "" else " " ++ word ++ " " ++ ", ".intercalate names

/-- The types that a type extends: its superclass or its interfaces. -/
def parents (node : TypeNode) : List String :=
  node.superclass.toList ++ node.extendedInterfaces

/-- The header line of a block. -/
def headerText (style : InheritanceStyle) (node : TypeNode) : String :=
  let clauses :=
    match style with
    | .headerClauses =>
      clause "extends" (parents node) ++ clause "implements" node.implementedInterfaces
    | .links => ""
  blockWords node ++ " " ++ node.name ++ clauses ++ " \x7b"

/-- A tag that is written only if it is on. -/
def tag (word : String) (on : Bool) : String :=
  if on then "\x7b" ++ word ++ "\x7d " else ""

/-- The line of an attribute. -/
def fieldText (node : FieldNode) : String :=
  let field := node.field
  field.visibility.symbol.toString ++ tag "static" field.isStatic ++
    tag "readonly" field.isReadonly ++ field.name ++ " : " ++ field.declaredType

/-- A parameter as written in an operation. -/
def parameterText (node : ParameterNode) : String :=
  node.parameter.name ++ " : " ++ node.parameter.declaredType

/-- The line of an operation. -/
def operationText (node : OperationNode) : String :=
  node.visibility.symbol.toString ++ tag "static" node.isStatic ++
    tag "abstract" node.isAbstract ++ node.name ++ "(" ++
    ", ".intercalate (node.parameters.map parameterText) ++ ") : " ++
    (node.returns.map ReturnNode.declaredType).getD voidName

/-- The lines that fit under a limit, and a marker if some do not. -/
def capped (limit : Option Nat) (marker : String) (lines : List String) : List String :=
  match limit with
  | none => lines
  | some max => if lines.length ≤ max then lines else lines.take max ++ [marker]

/-- A divider if both parts around it have lines. -/
def divider (before after : Bool) : List String :=
  if before && after then ["--"] else []

/-- The lines inside the block of a type. -/
def bodyLines (options : RenderOptions) (node : TypeNode) : List String :=
  let fields := node.fields.map fieldText
  let operations := node.operations.map operationText
  node.literals.map NamedNode.name ++
    divider (!node.literals.isEmpty) (!(fields.isEmpty && operations.isEmpty)) ++
    capped options.maxFields "+... (more fields)" fields ++
    divider (!fields.isEmpty) (!operations.isEmpty) ++
    capped options.maxOperations "+... (more methods)" operations

/-- The lines of the block of a type, and an empty line after them. -/
def typeLines (options : RenderOptions) (node : TypeNode) : List String :=
  blockLine (headerText options.inheritance node) ::
    (bodyLines options node).map memberLine ++ [blockLine "\x7d", ""]

/-- The links that state the supertypes of a type. -/
def supertypeTexts (node : TypeNode) : List String :=
  (parents node).map (fun parent => parent ++ " <|-- " ++ node.name) ++
    node.implementedInterfaces.map fun contract => node.name ++ " ..|> " ++ contract

/-- The line of a relationship. A generalization is written from the supertype,
every other relationship from its source. -/
def linkText (relationship : Relationship) : String :=
  let label := (relationship.label.map (" : " ++ ·)).getD ""
  match relationship.kind with
  | .generalization => relationship.target ++ " <|-- " ++ relationship.source ++ label
  | kind =>
    let multiplicity := (relationship.multiplicity.map fun m => "\"" ++ m ++ "\" ").getD ""
    relationship.source ++ " " ++ kind.symbol ++ " " ++ multiplicity ++ relationship.target ++ label

/-- Whether the block of its source states a relationship already. -/
def statedByBlock (assembly : Assembly) (relationship : Relationship) : Bool :=
  match assembly.find? relationship.source with
  | none => false
  | some node =>
    match relationship.kind with
    | .generalization => (parents node).contains relationship.target
    | .realization => node.implementedInterfaces.contains relationship.target
    | _ => false

/-- The link lines of a diagram. -/
def linkTexts (style : InheritanceStyle) (assembly : Assembly) : List String :=
  (match style with
    | .headerClauses => []
    | .links => assembly.types.flatMap supertypeTexts) ++
    ((assembly.links.map LinkNode.relationship).filter (!statedByBlock assembly ·)).map linkText

/-- The title of a diagram. -/
def titleOf (options : RenderOptions) (assembly : Assembly) : String :=
  options.title.getD assembly.name

/-- A title as it stands in the opening line. -/
def underscored (title : String) : String :=
  title.map fun c => if c = ' ' then '_' else c

/-- The lines of a diagram. -/
def documentLines (options : RenderOptions) (assembly : Assembly) : List String :=
  let title := titleOf options assembly
  ["@startuml " ++ underscored title, "!theme plain", "title " ++ title, ""] ++
    assembly.types.flatMap (typeLines options) ++
    (linkTexts options.inheritance assembly).map blockLine ++ ["@enduml"]

/-- The text of a diagram. -/
def render (options : RenderOptions) (assembly : Assembly) : String :=
  String.join ((documentLines options assembly).map (· ++ "\n"))

end ClassAtlas.Diagram
