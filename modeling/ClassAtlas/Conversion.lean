import ClassAtlas.Unit
import ClassAtlas.Settings
import ClassAtlas.Digest.Md5
import ClassAtlas.Assembly.Json
import ClassAtlas.Interchange.Document

/-!
# Conversion runs

A run reads units one after another into a model. When it is finished, the
model is filtered, relationships are inferred, the relationships that units
state are merged in, and the result is assembled. Nothing is shared between
runs.
-/

namespace ClassAtlas

/-- A conversion run in progress. -/
structure Conversion where
  settings : Settings
  model : Model
  /-- The relationships that units state, by unit. -/
  declared : List (String × List Relationship) := []
  problems : List Problem := []

/-- The result of a conversion run. -/
structure Converted where
  assembly : Assembly
  problems : List Problem
  options : Diagram.RenderOptions

namespace Conversion

/-- A run before its first unit. -/
def start (settings : Settings) : Conversion where
  settings
  model := { name := settings.modelName }

/-- The run with what was read from a unit. -/
def addExtraction (run : Conversion) (unit : String) (found : Extraction) : Conversion :=
  { run with
    model := found.types.foldl Model.insert run.model
    declared :=
      if found.relationships.isEmpty then run.declared
      else run.declared ++ [(unit, found.relationships)]
    problems := run.problems ++ found.problems }

/-- The run after one more unit. -/
def addUnit (run : Conversion) (unit : SourceUnit) : Conversion :=
  run.addExtraction unit.id unit.read

/-- The run with a problem met outside of reading. -/
def addProblem (run : Conversion) (problem : Problem) : Conversion :=
  { run with problems := run.problems ++ [problem] }

/-- The model with only the types that the settings keep. -/
def filtered (settings : Settings) (model : Model) : Model :=
  let kept :=
    if settings.packageFilter.isSome then
      model.retain fun decl => settings.keepsPackage decl.package
    else model
  match settings.maxTypes with
  | some max => kept.truncate max
  | none => kept

/-- The problem of a relationship that a unit states between types of which one
is not in the model. -/
def rejection (model : Model) (unit : String) (link : Relationship) : Problem :=
  .unresolved unit link.source (if model.contains link.source then link.target else link.source)

/-- The model and problems with the relationships that a unit states. -/
def mergeUnit (state : Model × List Problem) (links : String × List Relationship) :
    Model × List Problem :=
  let (model, problems) := state
  let (merged, rejected) := Inference.merge model links.2
  (merged, problems ++ rejected.map (rejection merged links.1))

/-- The model of a finished run with all its relationships, and the problems
met so far. -/
def linked (run : Conversion) : Model × List Problem :=
  let model := filtered run.settings run.model
  run.declared.foldl mergeUnit ((Inference.apply run.settings.inference model).1, run.problems)

/-- The result of a run with a given digest for identifiers. There is none if
an identifier cannot be issued. -/
def finishWith? (digest : String → String) (run : Conversion) : Option Converted :=
  let (model, problems) := run.linked
  (model.assemble? digest run.settings.modelName).map fun assembled =>
    { assembly := assembled.assembly
      problems := problems ++ assembled.problems
      options := run.settings.render }

/-- The result of a run. -/
def finish? (run : Conversion) : Option Converted :=
  run.finishWith? Digest.md5

end Conversion

/-- Converts units in the given order. -/
def convert? (settings : Settings) (units : List SourceUnit) : Option Converted :=
  (units.foldl Conversion.addUnit (.start settings)).finish?

namespace Converted

/-- The result as an interchange document. -/
def toInterchange (result : Converted) : String :=
  Interchange.render result.assembly

/-- The result as a diagram. -/
def toDiagram (result : Converted) : String :=
  Diagram.render result.options result.assembly

/-- The result as JSON. -/
def toJson (result : Converted) : String :=
  result.assembly.renderJson

end Converted

end ClassAtlas
