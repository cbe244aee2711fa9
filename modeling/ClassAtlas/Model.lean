import ClassAtlas.Declaration
import ClassAtlas.Relationship

/-!
# The class model

A model holds declarations under distinct names, in the order in which the
names first came up, and relationships between them. An index finds the place
of a name in the list of declarations. Every operation keeps the names
distinct, the index in step with the list, and both ends of every relationship
in the model.
-/

namespace ClassAtlas

/-- Declared types and the relationships between them. -/
structure Model where
  name : String
  types : List Declaration := []
  /-- The names with their places in the list of declarations, the latest
  first. -/
  index : List (String × Nat) := []
  relationships : List Relationship := []
  deriving DecidableEq, Repr

namespace Model

/-- The names of the declared types, in order. -/
def names (model : Model) : List String :=
  model.types.map Declaration.name

/-- The place of a name in the list of declarations, by the index. -/
def slot? (model : Model) (name : String) : Option Nat :=
  model.index.lookup name

/-- The declaration of a given name. -/
def get? (model : Model) (name : String) : Option Declaration :=
  (model.slot? name).bind fun slot => model.types[slot]?

/-- Whether a type of a given name is declared. -/
def contains (model : Model) (name : String) : Bool :=
  (model.slot? name).isSome

/-- The number of declared types. -/
def size (model : Model) : Nat :=
  model.types.length

/-- The model with a declaration. An earlier declaration of the same name is
replaced and keeps its place. -/
def insert (model : Model) (decl : Declaration) : Model :=
  match model.slot? decl.name with
  | some slot => { model with types := model.types.set slot decl }
  | none =>
    { model with
      types := model.types ++ [decl]
      index := (decl.name, model.types.length) :: model.index }

/-- The model with a relationship at the end, if both its ends are declared. -/
def relate? (model : Model) (relationship : Relationship) : Option Model :=
  if model.contains relationship.source && model.contains relationship.target then
    some { model with relationships := model.relationships ++ [relationship] }
  else none

/-- The model with a relationship at the end, or unchanged where an end is not
declared. -/
def relate (model : Model) (relationship : Relationship) : Model :=
  (model.relate? relationship).getD model

/-- The index of a list of declarations. -/
def indexOf (types : List Declaration) : List (String × Nat) :=
  (types.map Declaration.name).zipIdx.reverse

/-- The model with other declarations, a new index for them, and without the
relationships that lose an end by that. -/
def withTypes (model : Model) (types : List Declaration) : Model :=
  let model := { model with types, index := indexOf types }
  { model with
    relationships := model.relationships.filter fun r =>
      model.contains r.source && model.contains r.target }

/-- The model with only the declarations that satisfy `keep`. -/
def retain (keep : Declaration → Bool) (model : Model) : Model :=
  model.withTypes (model.types.filter keep)

/-- The model with only its first `max` declarations. -/
def truncate (max : Nat) (model : Model) : Model :=
  if max < model.size then model.withTypes (model.types.take max) else model

end Model

end ClassAtlas
