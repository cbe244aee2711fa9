import ClassAtlas.TypeText
import ClassAtlas.Problem
import ClassAtlas.Model
import ClassAtlas.Identity

/-!
# Assembled models

Assembling gives every element of a model an identifier and resolves every type
text to a primitive type, a declared type or an external name. All types are
registered before any text is resolved. A relationship with an end that is not
registered is left out and reported.
-/

namespace ClassAtlas

/-- What a declared type refers to. -/
inductive Reference where
  | primitive (id name : String)
  | declared (id name : String)
  /-- A type outside the model. -/
  | external (name : String)
  deriving DecidableEq, Repr

namespace Reference

/-- The name that is referred to. -/
def name : Reference → String
  | primitive _ name | declared _ name | external name => name

/-- The identifier that is referred to. -/
def id? : Reference → Option String
  | primitive id _ | declared id _ => some id
  | external _ => none

end Reference

/-- An element that has a name only: a primitive type or a literal. -/
structure NamedNode where
  id : String
  name : String
  deriving DecidableEq, Repr

/-- An attribute with its identifier. -/
structure FieldNode where
  id : String
  field : Field
  type : Reference
  deriving DecidableEq, Repr

/-- A parameter with its identifier. -/
structure ParameterNode where
  id : String
  parameter : Parameter
  type : Reference
  deriving DecidableEq, Repr

/-- The result of an operation with its identifier. -/
structure ReturnNode where
  id : String
  declaredType : String
  type : Reference
  deriving DecidableEq, Repr

/-- An operation with the identifiers of its parts. -/
structure OperationNode where
  id : String
  name : String
  parameters : List ParameterNode
  /-- The result, if the operation returns anything. -/
  returns : Option ReturnNode
  visibility : Visibility
  isStatic : Bool
  isAbstract : Bool
  deriving DecidableEq, Repr

/-- A member with its identifiers. -/
inductive MemberNode where
  | field (node : FieldNode)
  | operation (node : OperationNode)
  deriving DecidableEq, Repr

/-- A declared type with the identifiers of its parts. -/
structure TypeNode where
  id : String
  name : String
  kind : TypeKind
  package : String
  isAbstract : Bool
  superclass : Option String
  implementedInterfaces : List String
  extendedInterfaces : List String
  members : List MemberNode
  literals : List NamedNode
  deriving DecidableEq, Repr

namespace TypeNode

/-- The attributes in the order of their declaration. -/
def fields (node : TypeNode) : List FieldNode :=
  node.members.filterMap fun
    | .field field => some field
    | .operation _ => none

/-- The operations in the order of their declaration. -/
def operations (node : TypeNode) : List OperationNode :=
  node.members.filterMap fun
    | .field _ => none
    | .operation operation => some operation

end TypeNode

/-- The identifiers of the two ends of a structural relationship. -/
structure LinkEnds where
  source : String
  target : String
  deriving DecidableEq, Repr

/-- A relationship with its identifiers. -/
structure LinkNode where
  id : String
  relationship : Relationship
  sourceId : String
  targetId : String
  /-- The ends of a structural relationship. -/
  ends : Option LinkEnds
  deriving DecidableEq, Repr

/-- An assembled model. -/
structure Assembly where
  id : String
  name : String
  primitives : List NamedNode
  types : List TypeNode
  links : List LinkNode
  deriving DecidableEq, Repr

namespace Assembly

/-- The type of a given name. -/
def find? (assembly : Assembly) (name : String) : Option TypeNode :=
  assembly.types.find? (·.name == name)

/-- Whether an identifier belongs to a primitive or declared type. -/
def hasClassifier (assembly : Assembly) (id : String) : Bool :=
  assembly.primitives.any (·.id == id) || assembly.types.any (·.id == id)

end Assembly

namespace Operation

/-- Whether an operation returns nothing. -/
def returnsNothing (operation : Operation) : Bool :=
  operation.returnType.toList.all Text.isBlank || operation.returnType == voidName

end Operation

namespace Assembling

open Issuing

/-- The path of a primitive type. -/
def primitivePath (name : String) : String :=
  "primitive/" ++ name

/-- The path of a declared type. -/
def typePath (name : String) : String :=
  "type/" ++ name

/-- A path with a numbered part below it. -/
def numbered (path part : String) (index : Nat) : String :=
  path ++ "/" ++ part ++ "/" ++ toString index

/-- The reference of a type text, by the identifiers issued so far. -/
def resolve (declaredType : String) : Issuing Reference := do
  let name := String.ofList (TypeText.baseName declaredType.toList)
  let primitive? ←
    if TypeText.isPrimitive name then lookup? (primitivePath name) else pure none
  match primitive? with
  | some id => return .primitive id name
  | none =>
    match ← lookup? (typePath name) with
    | some id => return .declared id name
    | none => return .external name

/-- The node of an attribute. -/
def fieldNode (path : String) (field : Field) : Issuing FieldNode := do
  let id ← assign path
  let type ← resolve field.declaredType
  return { id, field, type }

/-- The nodes of parameters, the first of which has the given index. -/
def parameterNodes (path : String) : Nat → List Parameter → Issuing (List ParameterNode)
  | _, [] => return []
  | index, parameter :: rest => do
    let id ← assign (numbered path "param" index)
    let type ← resolve parameter.declaredType
    let more ← parameterNodes path (index + 1) rest
    return { id, parameter, type } :: more

/-- The node of what an operation returns. -/
def returnNode? (path : String) (operation : Operation) : Issuing (Option ReturnNode) :=
  if operation.returnsNothing then return none
  else do
    let id ← assign (path ++ "/return")
    let type ← resolve operation.returnType
    return some { id, declaredType := operation.returnType, type }

/-- The node of an operation. -/
def operationNode (path : String) (operation : Operation) : Issuing OperationNode := do
  let id ← assign path
  let parameters ← parameterNodes path 0 operation.parameters
  let returns ← returnNode? path operation
  return {
    id
    name := operation.name
    parameters
    returns
    visibility := operation.visibility
    isStatic := operation.isStatic
    isAbstract := operation.isAbstract }

/-- The nodes of members, after the given numbers of attributes and operations. -/
def memberNodes (path : String) : Nat → Nat → List Member → Issuing (List MemberNode)
  | _, _, [] => return []
  | fields, operations, .field field :: rest => do
    let node ← fieldNode (numbered path "field" fields) field
    let more ← memberNodes path (fields + 1) operations rest
    return .field node :: more
  | fields, operations, .operation operation :: rest => do
    let node ← operationNode (numbered path "op" operations) operation
    let more ← memberNodes path fields (operations + 1) rest
    return .operation node :: more

/-- The nodes of elements that have a name only. -/
def namedNodes (path : String → String) : List String → Issuing (List NamedNode)
  | [] => return []
  | name :: rest => do
    let id ← assign (path name)
    let more ← namedNodes path rest
    return { id, name } :: more

/-- The node of a declared type. -/
def typeNode (decl : Declaration) : Issuing TypeNode := do
  let path := typePath decl.name
  let id ← assign path
  let members ← memberNodes path 0 0 decl.members
  let literals ← namedNodes (fun literal => path ++ "/literal/" ++ literal) decl.literals
  return {
    id
    name := decl.name
    kind := decl.kind
    package := decl.package
    isAbstract := decl.isAbstract
    superclass := decl.superclass
    implementedInterfaces := decl.implementedInterfaces
    extendedInterfaces := decl.extendedInterfaces
    members
    literals }

/-- The nodes of declared types. -/
def typeNodes : List Declaration → Issuing (List TypeNode)
  | [] => return []
  | decl :: rest => do
    let node ← typeNode decl
    let more ← typeNodes rest
    return node :: more

/-- The node of a relationship, if both its ends are registered. -/
def linkNode? (index : Nat) (relationship : Relationship) : Issuing (Option LinkNode) := do
  match ← lookup? (typePath relationship.source), ← lookup? (typePath relationship.target) with
  | some sourceId, some targetId =>
    let path := "rel/" ++ toString index
    let ends ←
      if relationship.kind.isStructural then do
        let source ← assign (path ++ "/end/source")
        let target ← assign (path ++ "/end/target")
        pure (some { source, target : LinkEnds })
      else pure none
    let id ← assign path
    return some { id, relationship, sourceId, targetId, ends }
  | _, _ => return none

/-- The nodes of relationships, the first of which has the given index, and the
relationships that are left out. -/
def linkNodes : Nat → List Relationship → Issuing (List LinkNode × List Relationship)
  | _, [] => return ([], [])
  | index, relationship :: rest => do
    let node? ← linkNode? index relationship
    let (nodes, dropped) ← linkNodes (index + 1) rest
    match node? with
    | some node => return (node :: nodes, dropped)
    | none => return (nodes, relationship :: dropped)

/-- Assembles a model under a name; the second part lists the relationships
that are left out. -/
def assemble (name : String) (model : Model) : Issuing (Assembly × List Relationship) := do
  let id ← assign "model"
  let primitives ← namedNodes primitivePath TypeText.primitiveNames
  let _ ← namedNodes typePath model.names
  let types ← typeNodes model.types
  let (links, dropped) ← linkNodes 0 model.relationships
  return ({ id, name, primitives, types, links }, dropped)

end Assembling

/-- What assembling a model gives. -/
structure Assembled where
  assembly : Assembly
  problems : List Problem
  registry : Registry

/-- Assembles a model under a name with a given digest. There is no result if
an identifier cannot be issued. -/
def Model.assemble? (digest : String → String) (name : String) (model : Model) :
    Option Assembled :=
  (Assembling.assemble name model { scope := name, digest }).map
    fun ((assembly, dropped), registry) =>
      { assembly
        problems := dropped.map fun r => .unresolved name r.source r.target
        registry }

end ClassAtlas
