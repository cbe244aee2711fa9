import ClassAtlas.Assembly.Basic
import ClassAtlas.Interchange.Element

/-!
# The interchange document of a model

An XMI document: primitive types, declared types with their parts, and
relationships, each an element below the model. References between elements are
identifiers; only a type outside the model is referred to by its name.
-/

namespace ClassAtlas.Interchange

/-- The identifier of a reference, or the name of an external type. -/
def referenceText (reference : Reference) : String :=
  reference.id?.getD reference.name

/-- An attribute that is written only if it is on. -/
def flag (key : String) (on : Bool) : List (String × String) :=
  if on then [(key, "true")] else []

/-- The element of a primitive type. -/
def primitiveElement (primitive : NamedNode) : Element :=
  .node "packagedElement"
    [("xmi:type", "uml:PrimitiveType"), ("xmi:id", primitive.id), ("name", primitive.name)] []

/-- The element of a literal. -/
def literalElement (literal : NamedNode) : Element :=
  .node "ownedLiteral"
    [("xmi:type", "uml:EnumerationLiteral"), ("xmi:id", literal.id), ("name", literal.name)] []

/-- The element of an attribute. -/
def fieldElement (node : FieldNode) : Element :=
  .node "ownedAttribute"
    ([("xmi:id", node.id), ("name", node.field.name), ("visibility", node.field.visibility.name),
        ("type", referenceText node.type)] ++
      flag "isStatic" node.field.isStatic ++ flag "isReadOnly" node.field.isReadonly) []

/-- The element of a parameter. -/
def parameterElement (node : ParameterNode) : Element :=
  .node "ownedParameter"
    [("xmi:id", node.id), ("name", node.parameter.name), ("direction", "in"),
      ("type", referenceText node.type)] []

/-- The element of what an operation returns. -/
def returnElement (node : ReturnNode) : Element :=
  .node "ownedParameter"
    [("xmi:id", node.id), ("direction", "return"), ("type", referenceText node.type)] []

/-- The element of an operation. -/
def operationElement (node : OperationNode) : Element :=
  .node "ownedOperation"
    ([("xmi:id", node.id), ("name", node.name), ("visibility", node.visibility.name)] ++
      flag "isStatic" node.isStatic ++ flag "isAbstract" node.isAbstract)
    (node.parameters.map parameterElement ++ (node.returns.map returnElement).toList)

/-- The element of a member. -/
def memberElement : MemberNode → Element
  | .field node => fieldElement node
  | .operation node => operationElement node

/-- The metatype of a kind of type. -/
def metatype : TypeKind → String
  | .«class» => "uml:Class"
  | .interface => "uml:Interface"
  | .enumeration => "uml:Enumeration"

/-- The element of a declared type. -/
def typeElement (node : TypeNode) : Element :=
  .node "packagedElement"
    ([("xmi:type", metatype node.kind), ("xmi:id", node.id), ("name", node.name)] ++
      flag "isAbstract" node.isAbstract)
    (node.literals.map literalElement ++ node.members.map memberElement)

/-- The name of a relationship, made from the names of its ends. -/
def linkName (relationship : Relationship) : String :=
  let verb :=
    match relationship.kind with
    | .composition => "composedOf"
    | .aggregation => "aggregates"
    | .dependency => "depends_on"
    | _ => "to"
  relationship.source ++ "_" ++ verb ++ "_" ++ relationship.target

/-- How the source end of a relationship holds the target. -/
def aggregation (kind : RelationshipKind) : List (String × String) :=
  match kind with
  | .composition => [("aggregation", "composite")]
  | .aggregation => [("aggregation", "shared")]
  | _ => []

/-- The elements below a structural relationship. -/
def endElements (node : LinkNode) (ends : LinkEnds) : List Element :=
  [.node "memberEnd" [("xmi:idref", ends.source)] [],
    .node "memberEnd" [("xmi:idref", ends.target)] [],
    .node "ownedEnd"
      ([("xmi:id", ends.source), ("type", node.sourceId)] ++
        aggregation node.relationship.kind ++ [("name", "")]) [],
    .node "ownedEnd"
      ([("xmi:id", ends.target), ("type", node.targetId),
          ("name", node.relationship.label.getD "")] ++
        (node.relationship.multiplicity.map fun m => ("multiplicity", m)).toList) []]

/-- The element of a relationship. -/
def linkElement (node : LinkNode) : Element :=
  match node.relationship.kind with
  | .generalization =>
    .node "packagedElement"
      [("xmi:type", "uml:Generalization"), ("xmi:id", node.id), ("specific", node.sourceId),
        ("general", node.targetId)] []
  | .realization =>
    .node "packagedElement"
      [("xmi:type", "uml:InterfaceRealization"), ("xmi:id", node.id),
        ("implementingClassifier", node.sourceId), ("contract", node.targetId)] []
  | .dependency =>
    .node "packagedElement"
      [("xmi:type", "uml:Dependency"), ("xmi:id", node.id), ("name", linkName node.relationship),
        ("client", node.sourceId), ("supplier", node.targetId)] []
  | .composition | .aggregation | .association =>
    .node "packagedElement"
      [("xmi:type", "uml:Association"), ("xmi:id", node.id), ("name", linkName node.relationship)]
      ((node.ends.map (endElements node)).getD [])

/-- The element of a whole model. -/
def modelElement (assembly : Assembly) : Element :=
  .node "uml:Model" [("xmi:id", assembly.id), ("name", assembly.name)]
    (assembly.primitives.map primitiveElement ++ assembly.types.map typeElement ++
      assembly.links.map linkElement)

/-- The outermost element of the document. -/
def rootElement (assembly : Assembly) : Element :=
  .node "xmi:XMI"
    [("xmi:version", "2.0"), ("xmlns:xmi", "http://www.omg.org/XMI"),
      ("xmlns:uml", "http://www.eclipse.org/uml2/1.1.0/GenModel")]
    [modelElement assembly]

/-- The interchange document of a model. -/
def render (assembly : Assembly) : String :=
  "<?xml version=\"1.0\" encoding=\"UTF-8\"?>\n" ++ Element.render 0 (rootElement assembly)

end ClassAtlas.Interchange
