import ClassAtlas.Path
import ClassAtlas.Code.Reader
import ClassAtlas.Diagram.Reader

/-!
# Source units

A source unit is a text with an identifier, usually its relative path. The
extension of the identifier decides how the unit is read; without a known
extension its text does.
-/

namespace ClassAtlas

open ClassAtlas.Text

/-- The dialects in which a unit can be written. -/
inductive Dialect where
  /-- Java source. -/
  | code
  /-- A PlantUML class diagram. -/
  | diagram
  deriving DecidableEq, Repr

namespace Dialect

/-- The dialects that can be read. -/
def all : List Dialect :=
  [code, diagram]

/-- The extensions of diagrams. -/
def diagramExtensions : List String :=
  ["puml", "plantuml", "pu", "iuml"]

/-- The dialect that the extension of an identifier stands for, in upper or
lower case. -/
def ofExtension? (unit : String) : Option Dialect := do
  let extension := String.ofList (lowerAscii (← Path.extension? unit.toList))
  if diagramExtensions.contains extension then some diagram
  else if extension = "java" then some code
  else none

/-- Whether a text is a diagram by the look of it: it is marked as one, or a
line has the unmistakable shape of a diagram member. -/
def looksLikeDiagram (text : List Char) : Bool :=
  occursIn "@startuml".toList text ||
    (lines text).any fun line => Diagram.isMemberLine line || Diagram.isInlineBlock line

/-- The dialect of a unit. -/
def detect (unit : String) (text : List Char) : Dialect :=
  match ofExtension? unit with
  | some dialect => dialect
  | none => if looksLikeDiagram text then diagram else code

/-- Reads a unit in a given dialect. -/
def read : Dialect → String → List Char → Extraction
  | code => Code.read
  | diagram => Diagram.read

end Dialect

/-- A text to read, with its identifier. -/
structure SourceUnit where
  id : String
  text : String
  deriving DecidableEq, Repr

namespace SourceUnit

/-- The dialect of a unit. -/
def dialect (unit : SourceUnit) : Dialect :=
  .detect unit.id unit.text.toList

/-- Everything that a unit declares. -/
def read (unit : SourceUnit) : Extraction :=
  unit.dialect.read unit.id unit.text.toList

end SourceUnit

end ClassAtlas
