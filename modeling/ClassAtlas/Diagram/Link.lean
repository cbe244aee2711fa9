import ClassAtlas.Text.Pattern
import ClassAtlas.Relationship
import ClassAtlas.Diagram.Header
import ClassAtlas.Diagram.Member

/-!
# Link lines of a diagram

A link line is `left "m" symbol "n" right : label`. The symbol decides the kind
of the relationship and the end it starts at. Only the multiplicity at the
right end is kept, and none for supertypes.
-/

namespace ClassAtlas.Diagram

open ClassAtlas.Text Pattern

/-- A link symbol: the kind of the relationship, and whether it starts at the
right end. -/
structure Arrow where
  kind : RelationshipKind
  fromRight : Bool := false
  deriving DecidableEq, Repr

/-- The link symbols in the order in which they are tried. -/
def arrows : List (String × Arrow) :=
  [("<|--", { kind := .generalization, fromRight := true }),
    ("<|..", { kind := .realization, fromRight := true }),
    ("..|>", { kind := .realization }),
    ("--|>", { kind := .generalization }),
    ("*--", { kind := .composition }),
    ("o--", { kind := .aggregation }),
    ("-->", { kind := .association }),
    ("..>", { kind := .dependency }),
    ("--", { kind := .association })]

/-- A link symbol. -/
def arrow : Pattern Arrow :=
  oneOf (arrows.map fun (symbol, arrow) => do
    literal symbol
    return arrow)

/-- A type at the end of a link, perhaps in quotes. -/
def linkEnd : Pattern Span :=
  taken do
    let _ ← optional (char '"')
    skip1 isDottedName
    let _ ← optional (char '"')

/-- A multiplicity in quotes. -/
def linkMultiplicity : Pattern Span := do
  char '"'
  let text ← run (noneOf ['"'])
  char '"'
  blanks
  return text

/-- The parts of a link line. -/
structure LinkParts where
  left : List Char
  arrow : Arrow
  multiplicity : Option (List Char)
  right : List Char
  label : Option (List Char)

/-- A whole line that is a link. -/
def linkLine : Pattern LinkParts := do
  let left ← linkEnd
  blanks
  let _ ← optional linkMultiplicity
  let arrow ← arrow
  blanks
  let multiplicity ← optional linkMultiplicity
  let right ← linkEnd
  blanks
  let label ← optional afterColon
  atEnd
  return {
    left := left.text
    arrow
    multiplicity := multiplicity.map Span.text
    right := right.text
    label := label.map Span.text }

/-- Whether a relationship of this kind states a supertype. -/
def isSupertypeKind : RelationshipKind → Bool
  | .generalization | .realization => true
  | _ => false

/-- The trimmed text of a part, if anything is left of it. -/
def filled? (part : Option (List Char)) : Option String :=
  match part.map trim with
  | none | some [] => none
  | some text => some (String.ofList text)

/-- The relationship that a link line states. -/
def link? (line : List Char) : Option Relationship := do
  let (parts, _) ← linkLine.first? line
  let left := String.ofList (typeName parts.left)
  let right := String.ofList (typeName parts.right)
  let kind := parts.arrow.kind
  return {
    source := if parts.arrow.fromRight then right else left
    target := if parts.arrow.fromRight then left else right
    kind
    label := filled? parts.label
    multiplicity := if isSupertypeKind kind then none else filled? parts.multiplicity }

end ClassAtlas.Diagram
