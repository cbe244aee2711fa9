import ClassAtlas.Inference
import ClassAtlas.Diagram.Render
import ClassAtlas.Json.Source

/-!
# Settings of a run

Settings are read from JSON. A record may leave out any part and may hold
unknown ones, but no part twice; a list gives the parts in order and may stop
early. A choice is written as its name, or as a record that holds its name with
null.
-/

namespace ClassAtlas

/-- The settings of one conversion run. -/
structure Settings where
  modelName : String := "Class Model"
  /-- Only types whose package starts with this are kept. -/
  packageFilter : Option String := none
  /-- How many types are kept at most. -/
  maxTypes : Option Nat := none
  inference : Inference.Options := {}
  render : Diagram.RenderOptions := {}
  deriving DecidableEq, Repr, Inhabited

namespace Settings

open Json

/-- Whether a type in the given package is kept. An empty filter keeps all. -/
def keepsPackage (settings : Settings) (package : String) : Bool :=
  match settings.packageFilter with
  | none => true
  | some start =>
    start.isEmpty || (!package.isEmpty && start.toList.isPrefixOf package.toList)

/-- A text. -/
def text? : Source → Option String
  | .string raw => Source.decode? raw
  | _ => none

/-- A natural number of at most 64 bits. -/
def natural? : Source → Option Nat
  | .number digits =>
    if digits.all Char.isDigit then
      let value := digits.foldl (fun n d => n * 10 + (d.toNat - '0'.toNat)) 0
      if value < 0x10000000000000000 then some value else none
    else none
  | _ => none

/-- Null, or a value that `read` accepts. -/
def nullable? {α : Type} (read : Source → Option α) : Source → Option (Option α)
  | .null => some none
  | source => (read source).map some

/-- One of the named choices. -/
def choice? {α : Type} (choices : List (String × α)) : Source → Option α
  | .string raw => (Source.decode? raw).bind fun name => choices.lookup name
  | .record [(key, .null)] => (Source.decode? key).bind fun name => choices.lookup name
  | _ => none

/-- A part of some settings: its name, and how a value changes them. -/
structure Part (α : Type) where
  name : String
  set? : Source → α → Option α

/-- Settings with parts given in order. -/
def setInOrder? {α : Type} : List (Part α) → List Source → α → Option α
  | _, [], settings => some settings
  | [], _ :: _, _ => none
  | part :: parts, value :: values, settings => do
    setInOrder? parts values (← part.set? value settings)

/-- Settings with parts given by name. Each part is taken out when it is given,
so that it cannot be given again; `known` lists the names of all parts. -/
def setByName? {α : Type} (known : List String) :
    List (Part α) → List (List Char × Source) → α → Option α
  | _, [], settings => some settings
  | parts, (key, value) :: members, settings => do
    let name ← Source.decode? key
    match parts.find? (·.name == name) with
    | some part =>
      let settings ← part.set? value settings
      setByName? known (parts.filter (·.name != name)) members settings
    | none => if known.contains name then none else setByName? known parts members settings

/-- Settings that start from `initial` and are changed by a record or a list of
parts. -/
def parts? {α : Type} (parts : List (Part α)) (initial : α) : Source → Option α
  | .list values => setInOrder? parts values initial
  | .record members => setByName? (parts.map Part.name) parts members initial
  | _ => none

/-- The choices of inference. -/
def inference? : Source → Option Inference.Options :=
  parts? [
    ⟨"order", fun source options =>
      (choice? [("composition_first", .compositionFirst), ("collection_first", .collectionFirst)]
        source).map fun order => { options with order }⟩,
    ⟨"dependencies", fun source options =>
      (choice? [("off", .off), ("key_operations", .keyOperations),
        ("all_operations", .allOperations)] source).map
        fun dependencies => { options with dependencies }⟩] {}

/-- The choices of a diagram. -/
def render? : Source → Option Diagram.RenderOptions :=
  parts? [
    ⟨"title", fun source options =>
      (nullable? text? source).map fun title => { options with title }⟩,
    ⟨"max_fields", fun source options =>
      (nullable? natural? source).map fun maxFields => { options with maxFields }⟩,
    ⟨"max_operations", fun source options =>
      (nullable? natural? source).map fun maxOperations => { options with maxOperations }⟩,
    ⟨"inheritance", fun source options =>
      (choice? [("header_clauses", .headerClauses), ("links", .links)] source).map
        fun inheritance => { options with inheritance }⟩] {}

/-- Settings from a JSON tree. -/
def ofSource? : Source → Option Settings :=
  parts? [
    ⟨"model_name", fun source settings =>
      (text? source).map fun modelName => { settings with modelName }⟩,
    ⟨"package_filter", fun source settings =>
      (nullable? text? source).map fun packageFilter => { settings with packageFilter }⟩,
    ⟨"max_types", fun source settings =>
      (nullable? natural? source).map fun maxTypes => { settings with maxTypes }⟩,
    ⟨"inference", fun source settings =>
      (inference? source).map fun inference => { settings with inference }⟩,
    ⟨"render", fun source settings =>
      (render? source).map fun render => { settings with render }⟩] {}

/-- Settings from a JSON text. -/
def ofJson? (text : String) : Option Settings :=
  (Source.parse? text).bind ofSource?

end Settings

end ClassAtlas
