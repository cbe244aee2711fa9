import ClassAtlas.TypeText
import ClassAtlas.Source.Annotation

/-!
# Bodies of enumerations

The literals of an enumeration come first, up to the first semicolon outside
parentheses. A line that starts with a visibility word ends them too.
-/

namespace ClassAtlas.Code

open ClassAtlas.Text

/-- The literal section with the semicolon that ends it, and the text after
it, at the given depth of parentheses. -/
def cutLiterals : Int → List Char → List Char × List Char
  | _, [] => ([], [])
  | depth, c :: rest =>
    if c = ';' && depth = 0 then ([c], rest)
    else
      let depth := if c = '(' then depth + 1 else if c = ')' then depth - 1 else depth
      let (literalText, memberText) := cutLiterals depth rest
      (c :: literalText, memberText)

/-- The literal that a piece of the literal section declares. -/
def literalName? (piece : List Char) : Option (List Char) :=
  let name := (Source.stripAnnotations piece).takeWhile fun c =>
    !(c == '(' || c == '{' || isBlank c)
  if isLiteralName name then some name else none

/-- Whether a line starts with a visibility word. -/
def startsMembers (line : List Char) : Bool :=
  match (words line).head? with
  | some word => ["public", "private", "protected"].contains (String.ofList word)
  | none => false

/-- The literals declared on one line. -/
def literalsOfLine (line : List Char) : List (List Char) :=
  (TypeText.splitTopLevel ',' (trimEndChar ';' line)).filterMap literalName?

/-- The literals of a projected enumeration body in the order in which they are
written, and the text of its members. A literal that is written twice is listed
twice here: the declaration takes each name once, with `Declaration.addLiteral`. -/
def splitEnumBody (projected : List Char) : List String × List Char :=
  let (literalText, memberText) := cutLiterals 0 projected
  let stripped := (lines literalText).map fun line => Source.stripAnnotations (trim line)
  let literalLines := stripped.takeWhile (!startsMembers ·)
  ((literalLines.flatMap literalsOfLine).map String.ofList, memberText)

end ClassAtlas.Code
