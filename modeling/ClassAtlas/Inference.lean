import ClassAtlas.TypeText
import ClassAtlas.Model

/-!
# Inferred relationships

A field whose type refers to another declared type gives a structural
relationship, a supertype that is declared gives a generalization or
realization, and, if asked for, a parameter whose type refers to another
declared type gives a dependency.
-/

namespace ClassAtlas.Inference

open ClassAtlas.Text

/-- Which rule wins for a readonly field that holds a collection. -/
inductive Order where
  /-- Readonly fields are compositions. -/
  | compositionFirst
  /-- Collections are aggregations. -/
  | collectionFirst
  deriving DecidableEq, Repr, Inhabited

/-- Which operations give dependencies. -/
inductive Dependencies where
  | off
  /-- Operations that act on their arguments, by their names. -/
  | keyOperations
  | allOperations
  deriving DecidableEq, Repr, Inhabited

/-- The choices of inference. -/
structure Options where
  order : Order := .compositionFirst
  dependencies : Dependencies := .off
  deriving DecidableEq, Repr, Inhabited

/-- The kind of relationship that a field gives. A field owns its value if it
is readonly and not static. -/
def classify (options : Options) (field : Field) : RelationshipKind :=
  let owned := field.isReadonly && !field.isStatic
  let collection := TypeText.isCollection field.declaredType.toList
  match options.order with
  | .compositionFirst =>
    if owned then .composition else if collection then .aggregation else .association
  | .collectionFirst =>
    if collection then .aggregation else if owned then .composition else .association

/-- The declared type that a type text refers to, if it is another one than
`owner`. -/
def referent? (model : Model) (owner : String) (declaredType : String) : Option String :=
  let name := String.ofList (TypeText.baseName declaredType.toList)
  if name = owner || !model.contains name then none else some name

/-- The relationships that the fields of a declaration give. -/
def fieldLinks (options : Options) (model : Model) (decl : Declaration) : List Relationship :=
  decl.fields.filterMap fun field =>
    (referent? model decl.name field.declaredType).map fun target =>
      { source := decl.name
        target
        kind := classify options field
        label := some field.name
        multiplicity := TypeText.multiplicity? field.declaredType.toList }

/-- The supertypes of a declaration with the kinds of relationships they give:
superclass, extended interfaces, implemented interfaces. -/
def supertypes (decl : Declaration) : List (String × RelationshipKind) :=
  (decl.superclass.toList ++ decl.extendedInterfaces).map (·, .generalization) ++
    decl.implementedInterfaces.map (·, .realization)

/-- The relationships that the supertypes of a declaration give. -/
def supertypeLinks (model : Model) (decl : Declaration) : List Relationship :=
  ((supertypes decl).filter fun (target, _) => model.contains target).map fun (target, kind) =>
    { source := decl.name, target, kind }

/-- Operations that every object has. -/
def objectOperations : List String :=
  ["toString", "hashCode", "equals"]

/-- The beginnings of the names of accessors. -/
def accessorStarts : List String :=
  ["get", "set", "is"]

/-- Words in the names of operations that act on their arguments. -/
def keyWords : List String :=
  ["generate", "create", "add", "remove", "process", "handle", "load", "save", "update"]

/-- Whether an operation acts on its arguments, by its name. -/
def isKeyOperation (name : String) : Bool :=
  !objectOperations.contains name &&
    !(accessorStarts.any fun start => start.toList.isPrefixOf name.toList) &&
    keyWords.any fun word => occursIn word.toList (lowerAscii name.toList)

/-- Whether an operation gives dependencies. -/
def contributes (options : Options) (operation : Operation) : Bool :=
  match options.dependencies with
  | .off => false
  | .keyOperations => isKeyOperation operation.name
  | .allOperations => true

/-- The dependencies that the parameters of an operation give. -/
def parameterLinks (model : Model) (decl : Declaration) (operation : Operation) :
    List Relationship :=
  operation.parameters.filterMap fun parameter =>
    (referent? model decl.name parameter.declaredType).map fun target =>
      { source := decl.name, target, kind := .dependency, label := some operation.name }

/-- A list of relationships without those that repeat an earlier link. -/
def dropRepeated (links : List Relationship) : List Relationship :=
  links.foldl (fun kept link => if kept.any (·.sameLink link) then kept else kept ++ [link]) []

/-- The dependencies that a declaration gives, each link once. -/
def dependencyLinks (options : Options) (model : Model) (decl : Declaration) : List Relationship :=
  dropRepeated ((decl.operations.filter (contributes options)).flatMap (parameterLinks model decl))

/-- Every relationship that the declarations of a model give. -/
def infer (options : Options) (model : Model) : List Relationship :=
  model.types.flatMap fun decl =>
    fieldLinks options model decl ++ supertypeLinks model decl ++ dependencyLinks options model decl

/-- Adds a relationship and counts it, if both its ends are declared. -/
def applyOne (state : Model × Nat) (link : Relationship) : Model × Nat :=
  match state.1.relate? link with
  | some model => (model, state.2 + 1)
  | none => state

/-- The model with the inferred relationships added, and their number. -/
def apply (options : Options) (model : Model) : Model × Nat :=
  (infer options model).foldl applyOne (model, 0)

/-- Adds a declared relationship unless the model has the same link already,
and notes it as rejected if an end is not declared. -/
def mergeOne (state : Model × List Relationship) (link : Relationship) :
    Model × List Relationship :=
  let (model, rejected) := state
  if model.relationships.any (·.sameLink link) then state
  else
    match model.relate? link with
    | some model => (model, rejected)
    | none => (model, rejected ++ [link])

/-- The model with declared relationships added, and those with an end that is
not declared. -/
def merge (model : Model) (declared : List Relationship) : Model × List Relationship :=
  declared.foldl mergeOne (model, [])

end ClassAtlas.Inference
