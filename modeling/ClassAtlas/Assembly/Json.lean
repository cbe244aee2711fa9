import ClassAtlas.Assembly.Basic
import ClassAtlas.Json.Value

/-!
# Assembled models as JSON

Every node becomes a record with its parts in a fixed order. Members and
references carry a tag in front that says which kind they are.
-/

namespace ClassAtlas

open Json.Value

/-- A text or null. -/
def Json.Value.textOrNull : Option String → Json.Value
  | none => null
  | some s => text s

/-- A list of texts. -/
def Json.Value.texts (items : List String) : Json.Value :=
  list (items.map text)

namespace Reference

/-- The value of a reference. -/
def toJson : Reference → Json.Value
  | primitive id name =>
    record [("ref", text "primitive"), ("id", text id), ("name", text name)]
  | declared id name => record [("ref", text "declared"), ("id", text id), ("name", text name)]
  | external name => record [("ref", text "unresolved"), ("name", text name)]

end Reference

/-- The value of an element that has a name only. -/
def NamedNode.toJson (node : NamedNode) : Json.Value :=
  record [("id", text node.id), ("name", text node.name)]

/-- The value of a parameter. -/
def ParameterNode.toJson (node : ParameterNode) : Json.Value :=
  record [("id", text node.id), ("name", text node.parameter.name),
    ("declared_type", text node.parameter.declaredType), ("type_ref", node.type.toJson)]

/-- The value of what an operation returns. -/
def ReturnNode.toJson (node : ReturnNode) : Json.Value :=
  record [("id", text node.id), ("declared_type", text node.declaredType),
    ("type_ref", node.type.toJson)]

/-- The value of a member. -/
def MemberNode.toJson : MemberNode → Json.Value
  | field node =>
    record [("member", text "field"), ("id", text node.id), ("name", text node.field.name),
      ("declared_type", text node.field.declaredType), ("type_ref", node.type.toJson),
      ("visibility", text node.field.visibility.name), ("is_static", bool node.field.isStatic),
      ("is_readonly", bool node.field.isReadonly)]
  | operation node =>
    record [("member", text "operation"), ("id", text node.id), ("name", text node.name),
      ("parameters", list (node.parameters.map ParameterNode.toJson)),
      ("returns", (node.returns.map ReturnNode.toJson).getD null),
      ("visibility", text node.visibility.name), ("is_static", bool node.isStatic),
      ("is_abstract", bool node.isAbstract)]

/-- The value of a declared type. -/
def TypeNode.toJson (node : TypeNode) : Json.Value :=
  record [("id", text node.id), ("name", text node.name), ("kind", text node.kind.name),
    ("package", text node.package), ("is_abstract", bool node.isAbstract),
    ("superclass", textOrNull node.superclass),
    ("implemented_interfaces", texts node.implementedInterfaces),
    ("extended_interfaces", texts node.extendedInterfaces),
    ("members", list (node.members.map MemberNode.toJson)),
    ("literals", list (node.literals.map NamedNode.toJson))]

/-- The value of the ends of a relationship. -/
def LinkEnds.toJson (ends : LinkEnds) : Json.Value :=
  record [("source_end", text ends.source), ("target_end", text ends.target)]

/-- The value of a relationship. -/
def LinkNode.toJson (node : LinkNode) : Json.Value :=
  record [("id", text node.id), ("kind", text node.relationship.kind.name),
    ("source", text node.relationship.source), ("source_id", text node.sourceId),
    ("target", text node.relationship.target), ("target_id", text node.targetId),
    ("label", textOrNull node.relationship.label),
    ("multiplicity", textOrNull node.relationship.multiplicity),
    ("ends", (node.ends.map LinkEnds.toJson).getD null)]

namespace Assembly

/-- The value of an assembled model. -/
def toJson (assembly : Assembly) : Json.Value :=
  record [("id", text assembly.id), ("name", text assembly.name),
    ("primitives", list (assembly.primitives.map NamedNode.toJson)),
    ("types", list (assembly.types.map TypeNode.toJson)),
    ("relationships", list (assembly.links.map LinkNode.toJson))]

/-- The text of an assembled model as JSON. -/
def renderJson (assembly : Assembly) : String :=
  assembly.toJson.render 0

end Assembly

end ClassAtlas
