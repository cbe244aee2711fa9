/-!
# Relationships between declared types

A relationship is directed and refers to its two types by name. It starts at
the owner, the subtype or the client.
-/

namespace ClassAtlas

/-- The kinds of relationships. -/
inductive RelationshipKind where
  | composition
  | aggregation
  | association
  | generalization
  | realization
  | dependency
  deriving DecidableEq, Repr, Inhabited

namespace RelationshipKind

/-- The name of the kind in written models. -/
def name : RelationshipKind → String
  | composition => "composition"
  | aggregation => "aggregation"
  | association => "association"
  | generalization => "generalization"
  | realization => "realization"
  | dependency => "dependency"

/-- The kind of a given name. -/
def ofName? : String → Option RelationshipKind
  | "composition" => some composition
  | "aggregation" => some aggregation
  | "association" => some association
  | "generalization" => some generalization
  | "realization" => some realization
  | "dependency" => some dependency
  | _ => none

/-- Whether relationships of this kind have two member ends. -/
def isStructural : RelationshipKind → Bool
  | composition | aggregation | association => true
  | generalization | realization | dependency => false

/-- The sign of the kind in diagrams. -/
def symbol : RelationshipKind → String
  | composition => "*--"
  | aggregation => "o--"
  | association => "-->"
  | generalization => "<|--"
  | realization => "..|>"
  | dependency => "..>"

theorem ofName?_name (kind : RelationshipKind) : ofName? kind.name = some kind := by
  cases kind <;> rfl

end RelationshipKind

/-- A directed relationship between two declared types. -/
structure Relationship where
  source : String
  target : String
  kind : RelationshipKind
  /-- The field or operation that the relationship comes from. -/
  label : Option String := none
  /-- The multiplicity of the target end. -/
  multiplicity : Option String := none
  deriving DecidableEq, Repr, Inhabited

namespace Relationship

/-- Whether two relationships have the same ends, kind and label. The
multiplicity does not count. -/
def sameLink (r s : Relationship) : Bool :=
  r.source == s.source && r.target == s.target && r.kind == s.kind && r.label == s.label

end Relationship

end ClassAtlas
