import ClassAtlas.Assembly.Basic
import ClassAtlas.Proofs.Assembly.Issuing
import ClassAtlas.Proofs.Consistency

/-!
# What assembled nodes say

Apart from identifiers and references, the node of a declaration says what the
declaration says; only the result of an operation that returns nothing has one
spelling. The identifier of a type node is the one issued for the path of its
name, and both identifiers of a link node are the ones of its two types.
-/

namespace ClassAtlas

/-! ## Nodes without their identifiers -/

/-- The operation that a node describes. -/
def OperationNode.operation (node : OperationNode) : Operation where
  name := node.name
  parameters := node.parameters.map ParameterNode.parameter
  returnType := (node.returns.map ReturnNode.declaredType).getD voidName
  visibility := node.visibility
  isStatic := node.isStatic
  isAbstract := node.isAbstract

/-- The member that a node describes. -/
def MemberNode.member : MemberNode → Member
  | field node => .field node.field
  | operation node => .operation node.operation

/-- The declaration that a node describes. -/
def TypeNode.declaration (node : TypeNode) : Declaration where
  name := node.name
  kind := node.kind
  package := node.package
  isAbstract := node.isAbstract
  superclass := node.superclass
  implementedInterfaces := node.implementedInterfaces
  extendedInterfaces := node.extendedInterfaces
  members := node.members.map MemberNode.member
  literals := node.literals.map NamedNode.name

/-- The operation with one spelling for returning nothing. -/
def Operation.settled (operation : Operation) : Operation :=
  { operation with
    returnType := if operation.returnsNothing then voidName else operation.returnType }

/-- The member with one spelling for returning nothing. -/
def Member.settled : Member → Member
  | field f => .field f
  | operation o => .operation o.settled

/-- The declaration with one spelling for returning nothing. -/
def Declaration.settled (decl : Declaration) : Declaration :=
  { decl with members := decl.members.map Member.settled }

theorem TypeNode.fields_declaration (node : TypeNode) :
    node.declaration.fields = node.fields.map FieldNode.field := by
  simp only [Declaration.fields, declaration, fields, List.filterMap_map, List.map_filterMap]
  congr 1
  funext member
  cases member <;> rfl

theorem TypeNode.operations_declaration (node : TypeNode) :
    node.declaration.operations = node.operations.map OperationNode.operation := by
  simp only [Declaration.operations, declaration, operations, List.filterMap_map,
    List.map_filterMap]
  congr 1
  funext member
  cases member <;> rfl

namespace Assembling

open Issuing

variable {registry next : Registry}

/-! ## What each step builds -/

theorem assign_spec {path id : String} (h : assign path registry = some (id, next)) :
    next.Extends registry ∧ next.get? path = some id :=
  ⟨Registry.assign?_extends h, Registry.get?_assign? h⟩

/-- The reference of a type text, by the identifiers of a registry. -/
def reference (registry : Registry) (type : String) : Reference :=
  let name := String.ofList (TypeText.baseName type.toList)
  match if TypeText.isPrimitive name then registry.get? (primitivePath name) else none with
  | some id => .primitive id name
  | none =>
    match registry.get? (typePath name) with
    | some id => .declared id name
    | none => .external name

/-- Resolving looks at the registry and issues nothing. -/
theorem resolve_eq (type : String) (registry : Registry) :
    resolve type registry = some (reference registry type, registry) := by
  unfold resolve reference
  dsimp only
  generalize String.ofList (TypeText.baseName type.toList) = name
  split
  · rw [lookup?_bind]
    cases registry.get? (primitivePath name) with
    | some id => rfl
    | none =>
        dsimp only
        rw [lookup?_bind]
        cases registry.get? (typePath name) <;> rfl
  · rw [pure_bind]
    dsimp only
    rw [lookup?_bind]
    cases registry.get? (typePath name) <;> rfl

theorem resolve_spec {type : String} {found : Reference}
    (h : resolve type registry = some (found, next)) :
    found = reference registry type ∧ next = registry := by
  rw [resolve_eq] at h
  obtain ⟨hfound, hnext⟩ := Prod.mk.inj (Option.some.inj h)
  exact ⟨hfound.symm, hnext.symm⟩

theorem fieldNode_spec {path : String} {field : Field} {node : FieldNode}
    (h : fieldNode path field registry = some (node, next)) :
    next.Extends registry ∧ node.field = field := by
  obtain ⟨id, middle, hid, h⟩ := bind_eq_some_iff.mp h
  obtain ⟨type, last, htype, h⟩ := bind_eq_some_iff.mp h
  obtain ⟨rfl, rfl⟩ := pure_eq_some_iff.mp h
  rw [(resolve_spec htype).2]
  exact ⟨(assign_spec hid).1, rfl⟩

theorem parameterNodes_spec {path : String} {index : ℕ} {parameters : List Parameter}
    {nodes : List ParameterNode}
    (h : parameterNodes path index parameters registry = some (nodes, next)) :
    next.Extends registry ∧ nodes.map ParameterNode.parameter = parameters := by
  induction parameters generalizing index registry nodes with
  | nil =>
      obtain ⟨rfl, rfl⟩ := pure_eq_some_iff.mp h
      exact ⟨Registry.Extends.refl _, rfl⟩
  | cons parameter rest ih =>
      obtain ⟨id, middle, hid, h⟩ := bind_eq_some_iff.mp h
      obtain ⟨type, middle', htype, h⟩ := bind_eq_some_iff.mp h
      obtain ⟨more, last, hmore, h⟩ := bind_eq_some_iff.mp h
      obtain ⟨rfl, rfl⟩ := pure_eq_some_iff.mp h
      rw [(resolve_spec htype).2] at hmore
      obtain ⟨hextends, hmap⟩ := ih hmore
      exact ⟨hextends.trans (assign_spec hid).1, by rw [List.map_cons, hmap]⟩

theorem returnNode?_spec {path : String} {operation : Operation}
    {node : Option ReturnNode}
    (h : returnNode? path operation registry = some (node, next)) :
    next.Extends registry ∧
      (node.map ReturnNode.declaredType).getD voidName = operation.settled.returnType := by
  unfold returnNode? at h
  split at h
  next hnothing =>
    obtain ⟨rfl, rfl⟩ := pure_eq_some_iff.mp h
    exact ⟨Registry.Extends.refl _, by simp [Operation.settled, hnothing]⟩
  next hresult =>
    obtain ⟨id, middle, hid, h⟩ := bind_eq_some_iff.mp h
    obtain ⟨type, last, htype, h⟩ := bind_eq_some_iff.mp h
    obtain ⟨rfl, rfl⟩ := pure_eq_some_iff.mp h
    rw [(resolve_spec htype).2]
    exact ⟨(assign_spec hid).1, by simp [Operation.settled, hresult]⟩

theorem operationNode_spec {path : String} {operation : Operation} {node : OperationNode}
    (h : operationNode path operation registry = some (node, next)) :
    next.Extends registry ∧ node.operation = operation.settled := by
  obtain ⟨id, first, hid, h⟩ := bind_eq_some_iff.mp h
  obtain ⟨parameters, second, hparameters, h⟩ := bind_eq_some_iff.mp h
  obtain ⟨returns, last, hreturns, h⟩ := bind_eq_some_iff.mp h
  obtain ⟨rfl, rfl⟩ := pure_eq_some_iff.mp h
  obtain ⟨hextends, hmap⟩ := parameterNodes_spec hparameters
  obtain ⟨hextends', hreturn⟩ := returnNode?_spec hreturns
  refine ⟨hextends'.trans (hextends.trans (assign_spec hid).1), ?_⟩
  rw [OperationNode.operation, hmap, hreturn]
  rfl

theorem memberNodes_spec {path : String} {fields operations : ℕ} {members : List Member}
    {nodes : List MemberNode}
    (h : memberNodes path fields operations members registry = some (nodes, next)) :
    next.Extends registry ∧ nodes.map MemberNode.member = members.map Member.settled := by
  induction members generalizing fields operations registry nodes with
  | nil =>
      obtain ⟨rfl, rfl⟩ := pure_eq_some_iff.mp h
      exact ⟨Registry.Extends.refl _, rfl⟩
  | cons member rest ih =>
      cases member with
      | field field =>
          obtain ⟨node, middle, hnode, h⟩ := bind_eq_some_iff.mp h
          obtain ⟨more, last, hmore, h⟩ := bind_eq_some_iff.mp h
          obtain ⟨rfl, rfl⟩ := pure_eq_some_iff.mp h
          obtain ⟨hextends, rfl⟩ := fieldNode_spec hnode
          obtain ⟨hextends', hmap⟩ := ih hmore
          exact ⟨hextends'.trans hextends, by rw [List.map_cons, hmap]; rfl⟩
      | operation operation =>
          obtain ⟨node, middle, hnode, h⟩ := bind_eq_some_iff.mp h
          obtain ⟨more, last, hmore, h⟩ := bind_eq_some_iff.mp h
          obtain ⟨rfl, rfl⟩ := pure_eq_some_iff.mp h
          obtain ⟨hextends, hoperation⟩ := operationNode_spec hnode
          obtain ⟨hextends', hmap⟩ := ih hmore
          refine ⟨hextends'.trans hextends, ?_⟩
          rw [List.map_cons, hmap, MemberNode.member, hoperation]
          rfl

theorem namedNodes_spec {path : String → String} {names : List String}
    {nodes : List NamedNode} (h : namedNodes path names registry = some (nodes, next)) :
    next.Extends registry ∧ nodes.map NamedNode.name = names ∧
      ∀ node ∈ nodes, next.get? (path node.name) = some node.id := by
  induction names generalizing registry nodes with
  | nil =>
      obtain ⟨rfl, rfl⟩ := pure_eq_some_iff.mp h
      exact ⟨Registry.Extends.refl _, rfl, by simp⟩
  | cons name rest ih =>
      obtain ⟨id, middle, hid, h⟩ := bind_eq_some_iff.mp h
      obtain ⟨more, last, hmore, h⟩ := bind_eq_some_iff.mp h
      obtain ⟨rfl, rfl⟩ := pure_eq_some_iff.mp h
      obtain ⟨hextends, hget⟩ := assign_spec hid
      obtain ⟨hextends', hmap, hnodes⟩ := ih hmore
      refine ⟨hextends'.trans hextends, by rw [List.map_cons, hmap], ?_⟩
      exact List.forall_mem_cons.mpr ⟨hextends' _ _ hget, hnodes⟩

theorem typeNode_spec {decl : Declaration} {node : TypeNode}
    (h : typeNode decl registry = some (node, next)) :
    next.Extends registry ∧ node.declaration = decl.settled ∧
      next.get? (typePath node.name) = some node.id := by
  obtain ⟨id, first, hid, h⟩ := bind_eq_some_iff.mp h
  obtain ⟨members, second, hmembers, h⟩ := bind_eq_some_iff.mp h
  obtain ⟨literals, last, hliterals, h⟩ := bind_eq_some_iff.mp h
  obtain ⟨rfl, rfl⟩ := pure_eq_some_iff.mp h
  obtain ⟨hextends, hget⟩ := assign_spec hid
  obtain ⟨hextends', hmap⟩ := memberNodes_spec hmembers
  obtain ⟨hextends'', hnames, -⟩ := namedNodes_spec hliterals
  refine ⟨hextends''.trans (hextends'.trans hextends), ?_, ?_⟩
  · rw [TypeNode.declaration, hmap, hnames]
    rfl
  · exact hextends'' _ _ (hextends' _ _ hget)

theorem typeNodes_spec {decls : List Declaration} {nodes : List TypeNode}
    (h : typeNodes decls registry = some (nodes, next)) :
    next.Extends registry ∧
      nodes.map TypeNode.declaration = decls.map Declaration.settled ∧
      ∀ node ∈ nodes, next.get? (typePath node.name) = some node.id := by
  induction decls generalizing registry nodes with
  | nil =>
      obtain ⟨rfl, rfl⟩ := pure_eq_some_iff.mp h
      exact ⟨Registry.Extends.refl _, rfl, by simp⟩
  | cons decl rest ih =>
      obtain ⟨node, middle, hnode, h⟩ := bind_eq_some_iff.mp h
      obtain ⟨more, last, hmore, h⟩ := bind_eq_some_iff.mp h
      obtain ⟨rfl, rfl⟩ := pure_eq_some_iff.mp h
      obtain ⟨hextends, hdecl, hget⟩ := typeNode_spec hnode
      obtain ⟨hextends', hmap, hnodes⟩ := ih hmore
      refine ⟨hextends'.trans hextends, by rw [List.map_cons, hdecl, hmap]; rfl, ?_⟩
      exact List.forall_mem_cons.mpr ⟨hextends' _ _ hget, hnodes⟩

/-- A relationship whose two types are registered is kept, with their
identifiers; it has ends if it is structural. -/
theorem linkNode?_spec {index : ℕ} {link : Relationship} {node? : Option LinkNode}
    {sourceId targetId : String}
    (hsource : registry.get? (typePath link.source) = some sourceId)
    (htarget : registry.get? (typePath link.target) = some targetId)
    (h : linkNode? index link registry = some (node?, next)) :
    next.Extends registry ∧ ∃ node, node? = some node ∧ node.relationship = link ∧
      node.sourceId = sourceId ∧ node.targetId = targetId ∧
      node.ends.isSome = link.kind.isStructural := by
  unfold linkNode? at h
  rw [lookup?_bind, lookup?_bind, hsource, htarget] at h
  dsimp only at h
  split at h
  next hstructural =>
    obtain ⟨sourceEnd, first, hsourceEnd, h⟩ := bind_eq_some_iff.mp h
    obtain ⟨targetEnd, second, htargetEnd, h⟩ := bind_eq_some_iff.mp h
    rw [pure_bind] at h
    obtain ⟨id, last, hid, h⟩ := bind_eq_some_iff.mp h
    obtain ⟨rfl, rfl⟩ := pure_eq_some_iff.mp h
    refine ⟨?_, _, rfl, rfl, rfl, rfl, hstructural.symm⟩
    exact (assign_spec hid).1.trans
      ((assign_spec htargetEnd).1.trans (assign_spec hsourceEnd).1)
  next hplain =>
    rw [pure_bind] at h
    obtain ⟨id, last, hid, h⟩ := bind_eq_some_iff.mp h
    obtain ⟨rfl, rfl⟩ := pure_eq_some_iff.mp h
    refine ⟨(assign_spec hid).1, _, rfl, rfl, rfl, rfl, ?_⟩
    exact (Bool.eq_false_iff.mpr hplain).symm

theorem linkNodes_spec {index : ℕ} {links : List Relationship} {nodes : List LinkNode}
    {dropped : List Relationship}
    (hsources : ∀ link ∈ links, (registry.get? (typePath link.source)).isSome = true)
    (htargets : ∀ link ∈ links, (registry.get? (typePath link.target)).isSome = true)
    (h : linkNodes index links registry = some ((nodes, dropped), next)) :
    next.Extends registry ∧ dropped = [] ∧ nodes.map LinkNode.relationship = links ∧
      ∀ node ∈ nodes,
        next.get? (typePath node.relationship.source) = some node.sourceId ∧
        next.get? (typePath node.relationship.target) = some node.targetId ∧
        node.ends.isSome = node.relationship.kind.isStructural := by
  induction links generalizing index registry nodes dropped with
  | nil =>
      obtain ⟨heq, rfl⟩ := pure_eq_some_iff.mp h
      obtain ⟨rfl, rfl⟩ := Prod.mk.inj heq
      exact ⟨Registry.Extends.refl _, rfl, rfl, by simp⟩
  | cons link rest ih =>
      rw [List.forall_mem_cons] at hsources htargets
      obtain ⟨sourceId, hsource⟩ := Option.isSome_iff_exists.mp hsources.1
      obtain ⟨targetId, htarget⟩ := Option.isSome_iff_exists.mp htargets.1
      obtain ⟨node?, middle, hnode, h⟩ := bind_eq_some_iff.mp h
      obtain ⟨⟨more, others⟩, last, hmore, h⟩ := bind_eq_some_iff.mp h
      obtain ⟨hextends, node, rfl, rfl, rfl, rfl, hends⟩ := linkNode?_spec hsource htarget hnode
      obtain ⟨heq, rfl⟩ := pure_eq_some_iff.mp h
      obtain ⟨rfl, rfl⟩ := Prod.mk.inj heq
      have hkept : ∀ path, (registry.get? path).isSome = true →
          (middle.get? path).isSome = true := by
        intro path hpath
        obtain ⟨id, hid⟩ := Option.isSome_iff_exists.mp hpath
        rw [hextends _ _ hid]
        rfl
      obtain ⟨hextends', hdropped, hmap, hnodes⟩ := ih
        (fun other hother => hkept _ (hsources.2 other hother))
        (fun other hother => hkept _ (htargets.2 other hother)) hmore
      refine ⟨hextends'.trans hextends, hdropped, by rw [List.map_cons, hmap], ?_⟩
      exact List.forall_mem_cons.mpr
        ⟨⟨hextends' _ _ (hextends _ _ hsource), hextends' _ _ (hextends _ _ htarget), hends⟩,
          hnodes⟩

end Assembling

/-! ## Assembling a consistent model -/

open Assembling Issuing

/-- What an assembled model says about the model it was made from. -/
structure Assembled.Describes (assembled : Assembled) (name : String) (model : Model) :
    Prop where
  name_eq : assembled.assembly.name = name
  declarations_eq :
    assembled.assembly.types.map TypeNode.declaration = model.types.map Declaration.settled
  links_eq : assembled.assembly.links.map LinkNode.relationship = model.relationships
  problems_eq : assembled.problems = []
  type_id : ∀ node ∈ assembled.assembly.types,
    assembled.registry.get? (typePath node.name) = some node.id
  source_id : ∀ link ∈ assembled.assembly.links,
    assembled.registry.get? (typePath link.relationship.source) = some link.sourceId
  target_id : ∀ link ∈ assembled.assembly.links,
    assembled.registry.get? (typePath link.relationship.target) = some link.targetId
  ends_isSome : ∀ link ∈ assembled.assembly.links,
    link.ends.isSome = link.relationship.kind.isStructural

/-- With distinct names, looking up the name of a node finds the node. -/
theorem Assembly.find?_name {assembly : Assembly}
    (hnodup : (assembly.types.map TypeNode.name).Nodup) {node : TypeNode}
    (hnode : node ∈ assembly.types) : assembly.find? node.name = some node := by
  obtain ⟨before, after, hsplit⟩ := List.append_of_mem hnode
  refine List.find?_eq_some_iff_append.mpr ⟨beq_self_eq_true _, before, after, hsplit, ?_⟩
  intro other hother
  rw [hsplit, List.map_append, List.map_cons, List.nodup_append] at hnodup
  have hne := hnodup.2.2 other.name (List.mem_map_of_mem hother) node.name List.mem_cons_self
  simpa using hne

namespace Assembled.Describes

variable {assembled : Assembled} {name : String} {model : Model}

theorem names_eq (h : assembled.Describes name model) :
    assembled.assembly.types.map TypeNode.name = model.names := by
  have hnames := congrArg (List.map Declaration.name) h.declarations_eq
  rw [List.map_map, List.map_map] at hnames
  exact hnames

theorem names_nodup (h : assembled.Describes name model) (hmodel : model.Consistent) :
    (assembled.assembly.types.map TypeNode.name).Nodup := by
  rw [h.names_eq]
  exact hmodel.names_nodup

/-- The node that a declared name leads to says what its declaration says. -/
theorem exists_find? (h : assembled.Describes name model) (hmodel : model.Consistent)
    {decl : Declaration} (hdecl : decl ∈ model.types) :
    ∃ node ∈ assembled.assembly.types,
      assembled.assembly.find? decl.name = some node ∧ node.declaration = decl.settled := by
  have hsettled : decl.settled ∈ assembled.assembly.types.map TypeNode.declaration := by
    rw [h.declarations_eq]
    exact List.mem_map_of_mem hdecl
  obtain ⟨node, hnode, hnodeDecl⟩ := List.mem_map.mp hsettled
  have hname : node.name = decl.name := congrArg Declaration.name hnodeDecl
  refine ⟨node, hnode, ?_, hnodeDecl⟩
  rw [← hname]
  exact Assembly.find?_name (h.names_nodup hmodel) hnode

/-- The identifier that is registered for a declared name is the one of its
node. -/
theorem map_id_find? (h : assembled.Describes name model) (hmodel : model.Consistent)
    {typeName id : String} (hdeclared : typeName ∈ model.names)
    (hid : assembled.registry.get? (typePath typeName) = some id) :
    (assembled.assembly.find? typeName).map TypeNode.id = some id := by
  obtain ⟨decl, hdecl, rfl⟩ := List.mem_map.mp hdeclared
  obtain ⟨node, hnode, hfind, hnodeDecl⟩ := h.exists_find? hmodel hdecl
  have hname : node.name = decl.name := congrArg Declaration.name hnodeDecl
  rw [hfind, Option.map_some, ← h.type_id node hnode, hname, hid]

/-- Both identifiers of a link are those of the nodes of its types. -/
theorem map_id_find?_ends (h : assembled.Describes name model) (hmodel : model.Consistent)
    {link : LinkNode} (hlink : link ∈ assembled.assembly.links) :
    (assembled.assembly.find? link.relationship.source).map TypeNode.id = some link.sourceId ∧
      (assembled.assembly.find? link.relationship.target).map TypeNode.id =
        some link.targetId := by
  have hrelated : link.relationship ∈ model.relationships := by
    rw [← h.links_eq]
    exact List.mem_map_of_mem hlink
  obtain ⟨hsource, htarget⟩ := hmodel.ends_declared _ hrelated
  constructor
  · exact h.map_id_find? hmodel hsource (h.source_id link hlink)
  · exact h.map_id_find? hmodel htarget (h.target_id link hlink)

end Assembled.Describes

namespace Model

variable {model : Model} {digest : String → String} {name : String}

/-- Assembling a consistent model leaves no relationship out. -/
theorem Consistent.describes (h : model.Consistent) {assembled : Assembled}
    (hassembled : model.assemble? digest name = some assembled) :
    assembled.Describes name model := by
  obtain ⟨⟨⟨assembly, dropped⟩, registry⟩, hrun, rfl⟩ := Option.map_eq_some_iff.mp hassembled
  obtain ⟨id, first, -, hrun⟩ := bind_eq_some_iff.mp hrun
  obtain ⟨primitives, second, -, hrun⟩ := bind_eq_some_iff.mp hrun
  obtain ⟨registered, third, hregistered, hrun⟩ := bind_eq_some_iff.mp hrun
  obtain ⟨types, fourth, htypes, hrun⟩ := bind_eq_some_iff.mp hrun
  obtain ⟨⟨links, others⟩, last, hlinks, hrun⟩ := bind_eq_some_iff.mp hrun
  obtain ⟨heq, rfl⟩ := pure_eq_some_iff.mp hrun
  obtain ⟨rfl, rfl⟩ := Prod.mk.inj heq
  obtain ⟨-, hnames, hids⟩ := namedNodes_spec hregistered
  obtain ⟨hextends, hdeclarations, htypeIds⟩ := typeNodes_spec htypes
  have hknown : ∀ typeName ∈ model.names, (fourth.get? (typePath typeName)).isSome = true := by
    intro typeName hmem
    rw [← hnames] at hmem
    obtain ⟨node, hnode, rfl⟩ := List.mem_map.mp hmem
    rw [hextends _ _ (hids node hnode)]
    rfl
  obtain ⟨hextends', rfl, hlinksEq, hlinkIds⟩ := linkNodes_spec
    (fun link hlink => hknown _ (h.ends_declared link hlink).1)
    (fun link hlink => hknown _ (h.ends_declared link hlink).2) hlinks
  exact {
    name_eq := rfl
    declarations_eq := hdeclarations
    links_eq := hlinksEq
    problems_eq := rfl
    type_id := fun node hnode => hextends' _ _ (htypeIds node hnode)
    source_id := fun link hlink => (hlinkIds link hlink).1
    target_id := fun link hlink => (hlinkIds link hlink).2.1
    ends_isSome := fun link hlink => (hlinkIds link hlink).2.2 }

end Model

/-! ## The paths of a model -/

namespace Assembling

/-- The paths of parameters, the first of which has the given index. -/
def parameterPaths (path : String) : ℕ → List Parameter → List String
  | _, [] => []
  | index, _ :: rest => numbered path "param" index :: parameterPaths path (index + 1) rest

/-- The paths of an operation and what is below it. -/
def operationPaths (path : String) (operation : Operation) : List String :=
  path :: (path ++ "/return") :: parameterPaths path 0 operation.parameters

/-- The paths of members, after the given numbers of attributes and
operations. -/
def memberPaths (path : String) : ℕ → ℕ → List Member → List String
  | _, _, [] => []
  | fields, operations, .field _ :: rest =>
    numbered path "field" fields :: memberPaths path (fields + 1) operations rest
  | fields, operations, .operation operation :: rest =>
    operationPaths (numbered path "op" operations) operation ++
      memberPaths path fields (operations + 1) rest

/-- The paths of a declared type and what is below it. -/
def declarationPaths (decl : Declaration) : List String :=
  let path := typePath decl.name
  path :: (memberPaths path 0 0 decl.members ++
    decl.literals.map fun literal => path ++ "/literal/" ++ literal)

/-- The paths of relationships, the first of which has the given index. -/
def linkPaths : ℕ → List Relationship → List String
  | _, [] => []
  | index, _ :: rest =>
    let path := "rel/" ++ toString index
    path :: (path ++ "/end/source") :: (path ++ "/end/target") :: linkPaths (index + 1) rest

/-- The paths of an operation and its parts. There is one for the result only
if the operation returns anything. -/
def issuedOperationPaths (path : String) (operation : Operation) : List String :=
  path :: (parameterPaths path 0 operation.parameters ++
    if operation.returnsNothing then [] else [path ++ "/return"])

/-- The paths of members and their parts, after the given numbers of attributes
and operations. -/
def issuedMemberPaths (path : String) : ℕ → ℕ → List Member → List String
  | _, _, [] => []
  | fields, operations, .field _ :: rest =>
    numbered path "field" fields :: issuedMemberPaths path (fields + 1) operations rest
  | fields, operations, .operation operation :: rest =>
    issuedOperationPaths (numbered path "op" operations) operation ++
      issuedMemberPaths path fields (operations + 1) rest

/-- The paths of a declared type and its parts. -/
def issuedDeclarationPaths (decl : Declaration) : List String :=
  let path := typePath decl.name
  path :: (issuedMemberPaths path 0 0 decl.members ++
    decl.literals.map fun literal => path ++ "/literal/" ++ literal)

/-- The paths of the ends of a relationship. -/
def issuedEndPaths (path : String) (link : Relationship) : List String :=
  if link.kind.isStructural then [path ++ "/end/source", path ++ "/end/target"] else []

/-- The paths of relationships and their ends, the first relationship having
the given index. -/
def issuedLinkPaths : ℕ → List Relationship → List String
  | _, [] => []
  | index, link :: rest =>
    let path := "rel/" ++ toString index
    issuedEndPaths path link ++ path :: issuedLinkPaths (index + 1) rest

end Assembling

/-- The paths that identifiers are issued for when a model is assembled. -/
def Model.paths (model : Model) : List String :=
  "model" :: (TypeText.primitiveNames.map primitivePath ++
    (model.types.flatMap declarationPaths ++ linkPaths 0 model.relationships))

/-- The paths of all elements of an assembled model. -/
def Model.issuedPaths (model : Model) : List String :=
  "model" :: (TypeText.primitiveNames.map primitivePath ++
    (model.types.flatMap issuedDeclarationPaths ++ issuedLinkPaths 0 model.relationships))

namespace Assembling

theorem issuedMemberPaths_subset (path : String) (fields operations : ℕ) (members : List Member) :
    issuedMemberPaths path fields operations members ⊆
      memberPaths path fields operations members := by
  induction members generalizing fields operations with
  | nil => exact List.Subset.refl _
  | cons member rest ih =>
      cases member with
      | field field => exact List.cons_subset_cons _ (ih (fields + 1) operations)
      | operation operation =>
          refine List.append_subset.mpr ⟨?_, ?_⟩
          · intro other hother
            refine List.mem_append_left _ ?_
            rcases List.mem_cons.mp hother with rfl | hpart
            · exact List.mem_cons_self
            rcases List.mem_append.mp hpart with hparameter | hreturn
            · exact List.mem_cons_of_mem _ (List.mem_cons_of_mem _ hparameter)
            · split at hreturn
              · contradiction
              · rw [List.mem_singleton.mp hreturn]
                exact List.mem_cons_of_mem _ List.mem_cons_self
          · exact List.subset_append_of_subset_right _ (ih fields (operations + 1))

theorem issuedLinkPaths_subset (index : ℕ) (links : List Relationship) :
    issuedLinkPaths index links ⊆ linkPaths index links := by
  induction links generalizing index with
  | nil => exact List.Subset.refl _
  | cons link rest ih =>
      refine List.append_subset.mpr ⟨?_, List.cons_subset.mpr ⟨List.mem_cons_self, ?_⟩⟩
      · unfold issuedEndPaths
        split
        · refine List.cons_subset.mpr ⟨by simp [linkPaths], List.cons_subset.mpr ⟨?_, ?_⟩⟩
          · simp [linkPaths]
          · exact List.nil_subset _
        · exact List.nil_subset _
      · intro other hother
        exact List.mem_cons_of_mem _ (List.mem_cons_of_mem _ (List.mem_cons_of_mem _
          (ih (index + 1) hother)))

end Assembling

theorem Model.issuedPaths_subset_paths (model : Model) : model.issuedPaths ⊆ model.paths := by
  have hdecl : ∀ decl : Declaration, issuedDeclarationPaths decl ⊆ declarationPaths decl := by
    intro decl
    refine List.cons_subset_cons _
      (List.append_subset.mpr ⟨?_, List.subset_append_right _ _⟩)
    exact List.subset_append_of_subset_left _ (issuedMemberPaths_subset _ 0 0 decl.members)
  refine List.cons_subset_cons _ (List.append_subset.mpr ⟨List.subset_append_left _ _,
    List.subset_append_of_subset_right _ (List.append_subset.mpr ⟨?_, ?_⟩)⟩)
  · intro path hpath
    obtain ⟨decl, hmem, hpath⟩ := List.mem_flatMap.mp hpath
    exact List.mem_append_left _ (List.mem_flatMap.mpr ⟨decl, hmem, hdecl decl hpath⟩)
  · exact List.subset_append_of_subset_right _ (issuedLinkPaths_subset 0 model.relationships)

/-! ## Assembling without collisions -/

namespace Assembling

section

variable {digest : String → String} {scope : String} {paths : List String}

theorem succeeds_resolve (type : String) : Succeeds digest scope paths (resolve type) :=
  fun registry hdigest hscope hfirst =>
    ⟨reference registry type, registry, resolve_eq type registry, hdigest, hscope, hfirst⟩

variable (hfree : Registry.CollisionFree digest scope paths)
include hfree

theorem succeeds_fieldNode {path : String} (hpath : path ∈ paths) (field : Field) :
    Succeeds digest scope paths (fieldNode path field) :=
  (Succeeds.assign hfree hpath).bind fun _ =>
    (succeeds_resolve field.declaredType).bind fun _ => .pure _

theorem succeeds_parameterNodes {path : String} {index : ℕ} {parameters : List Parameter}
    (hpaths : ∀ p ∈ parameterPaths path index parameters, p ∈ paths) :
    Succeeds digest scope paths (parameterNodes path index parameters) := by
  induction parameters generalizing index with
  | nil => exact .pure _
  | cons parameter rest ih =>
      obtain ⟨hpath, hrest⟩ := List.forall_mem_cons.mp hpaths
      exact (Succeeds.assign hfree hpath).bind fun _ =>
        (succeeds_resolve _).bind fun _ => (ih hrest).bind fun _ => .pure _

theorem succeeds_operationNode {path : String} {operation : Operation}
    (hpaths : ∀ p ∈ issuedOperationPaths path operation, p ∈ paths) :
    Succeeds digest scope paths (operationNode path operation) := by
  obtain ⟨hpath, hpaths⟩ := List.forall_mem_cons.mp hpaths
  obtain ⟨hparameters, hreturn⟩ := List.forall_mem_append.mp hpaths
  have hresult : Succeeds digest scope paths (returnNode? path operation) := by
    unfold returnNode?
    by_cases hnothing : operation.returnsNothing = true
    · rw [if_pos hnothing]
      exact .pure _
    · rw [if_neg hnothing] at hreturn ⊢
      exact (Succeeds.assign hfree (hreturn _ List.mem_cons_self)).bind fun _ =>
        (succeeds_resolve _).bind fun _ => .pure _
  exact (Succeeds.assign hfree hpath).bind fun _ =>
    (succeeds_parameterNodes hfree hparameters).bind fun _ => hresult.bind fun _ => .pure _

theorem succeeds_memberNodes {path : String} {fields operations : ℕ} {members : List Member}
    (hpaths : ∀ p ∈ issuedMemberPaths path fields operations members, p ∈ paths) :
    Succeeds digest scope paths (memberNodes path fields operations members) := by
  induction members generalizing fields operations with
  | nil => exact .pure _
  | cons member rest ih =>
      cases member with
      | field field =>
          obtain ⟨hpath, hrest⟩ := List.forall_mem_cons.mp hpaths
          exact (succeeds_fieldNode hfree hpath field).bind fun _ =>
            (ih hrest).bind fun _ => .pure _
      | operation operation =>
          obtain ⟨hpath, hrest⟩ := List.forall_mem_append.mp hpaths
          exact (succeeds_operationNode hfree hpath).bind fun _ =>
            (ih hrest).bind fun _ => .pure _

theorem succeeds_namedNodes {path : String → String} {names : List String}
    (hpaths : ∀ name ∈ names, path name ∈ paths) :
    Succeeds digest scope paths (namedNodes path names) := by
  induction names with
  | nil => exact .pure _
  | cons name rest ih =>
      obtain ⟨hpath, hrest⟩ := List.forall_mem_cons.mp hpaths
      exact (Succeeds.assign hfree hpath).bind fun _ => (ih hrest).bind fun _ => .pure _

theorem succeeds_typeNode {decl : Declaration}
    (hpaths : ∀ p ∈ issuedDeclarationPaths decl, p ∈ paths) :
    Succeeds digest scope paths (typeNode decl) := by
  obtain ⟨hpath, hpaths⟩ := List.forall_mem_cons.mp hpaths
  obtain ⟨hmembers, hliterals⟩ := List.forall_mem_append.mp hpaths
  exact (Succeeds.assign hfree hpath).bind fun _ =>
    (succeeds_memberNodes hfree hmembers).bind fun _ =>
      (succeeds_namedNodes hfree (List.forall_mem_map.mp hliterals)).bind fun _ => .pure _

theorem succeeds_typeNodes {decls : List Declaration}
    (hpaths : ∀ decl ∈ decls, ∀ p ∈ issuedDeclarationPaths decl, p ∈ paths) :
    Succeeds digest scope paths (typeNodes decls) := by
  induction decls with
  | nil => exact .pure _
  | cons decl rest ih =>
      obtain ⟨hdecl, hrest⟩ := List.forall_mem_cons.mp hpaths
      exact (succeeds_typeNode hfree hdecl).bind fun _ => (ih hrest).bind fun _ => .pure _

theorem succeeds_linkNode? {index : ℕ} {link : Relationship}
    (hends : ∀ p ∈ issuedEndPaths ("rel/" ++ toString index) link, p ∈ paths)
    (hpath : "rel/" ++ toString index ∈ paths) :
    Succeeds digest scope paths (linkNode? index link) := by
  refine (Succeeds.lookup? _).bind fun source => (Succeeds.lookup? _).bind fun target => ?_
  split
  · unfold issuedEndPaths at hends
    by_cases hstructural : link.kind.isStructural = true
    · rw [if_pos hstructural] at hends ⊢
      obtain ⟨hsource, hends⟩ := List.forall_mem_cons.mp hends
      refine (Succeeds.assign hfree hsource).bind fun _ =>
        (Succeeds.assign hfree (hends _ List.mem_cons_self)).bind fun _ => ?_
      exact (Succeeds.pure _).bind fun _ => (Succeeds.assign hfree hpath).bind fun _ => .pure _
    · rw [if_neg hstructural]
      exact (Succeeds.pure _).bind fun _ => (Succeeds.assign hfree hpath).bind fun _ => .pure _
  · exact .pure _

theorem succeeds_linkNodes {index : ℕ} {links : List Relationship}
    (hpaths : ∀ p ∈ issuedLinkPaths index links, p ∈ paths) :
    Succeeds digest scope paths (linkNodes index links) := by
  induction links generalizing index with
  | nil => exact .pure _
  | cons link rest ih =>
      obtain ⟨hends, hpaths⟩ := List.forall_mem_append.mp hpaths
      obtain ⟨hpath, hrest⟩ := List.forall_mem_cons.mp hpaths
      refine (succeeds_linkNode? hfree hends hpath).bind fun node? => (ih hrest).bind fun _ => ?_
      cases node? <;> exact .pure _

end

/-- If no two paths that are issued have the same digest, assembling a model
gives a result, in which every path has the identifier that was tried first. -/
theorem exists_assemble? {digest : String → String} {name : String} {model : Model}
    (hfree : Registry.CollisionFree digest name model.issuedPaths) :
    ∃ assembled, model.assemble? digest name = some assembled ∧
      assembled.registry.digest = digest ∧ assembled.registry.scope = name ∧
      assembled.registry.IsFirstTried model.issuedPaths := by
  have hroot : "model" ∈ model.issuedPaths := List.mem_cons_self
  have hprimitives : ∀ primitive ∈ TypeText.primitiveNames,
      primitivePath primitive ∈ model.issuedPaths := fun primitive hmem =>
    List.mem_cons_of_mem _ (List.mem_append_left _ (List.mem_map_of_mem hmem))
  have htypes : ∀ decl ∈ model.types, ∀ p ∈ issuedDeclarationPaths decl,
      p ∈ model.issuedPaths := by
    intro decl hdecl p hp
    refine List.mem_cons_of_mem _ (List.mem_append_right _ (List.mem_append_left _ ?_))
    exact List.mem_flatMap.mpr ⟨decl, hdecl, hp⟩
  have hnames : ∀ typeName ∈ model.names, typePath typeName ∈ model.issuedPaths := by
    intro typeName hmem
    obtain ⟨decl, hdecl, rfl⟩ := List.mem_map.mp hmem
    exact htypes decl hdecl _ List.mem_cons_self
  have hlinks : ∀ p ∈ issuedLinkPaths 0 model.relationships, p ∈ model.issuedPaths :=
    fun p hp => List.mem_cons_of_mem _ (List.mem_append_right _ (List.mem_append_right _ hp))
  have hrun : Succeeds digest name model.issuedPaths (assemble name model) :=
    (Succeeds.assign hfree hroot).bind fun _ =>
      (succeeds_namedNodes hfree hprimitives).bind fun _ =>
        (succeeds_namedNodes hfree hnames).bind fun _ =>
          (succeeds_typeNodes hfree htypes).bind fun _ =>
            (succeeds_linkNodes hfree hlinks).bind fun _ => .pure _
  have hempty := Registry.isFirstTried_start digest name model.issuedPaths
  obtain ⟨⟨assembly, dropped⟩, next, hresult, hnext⟩ :=
    hrun { scope := name, digest } rfl rfl hempty
  refine ⟨⟨assembly, dropped.map fun r => .unresolved name r.source r.target, next⟩, ?_, hnext⟩
  rw [Model.assemble?, hresult]
  rfl

/-- If no two paths of a model have the same digest, assembling it gives a
result. -/
theorem isSome_assemble? {digest : String → String} {name : String} {model : Model}
    (hfree : Registry.CollisionFree digest name model.paths) :
    (model.assemble? digest name).isSome = true := by
  have hsubset := model.issuedPaths_subset_paths
  have hissued : Registry.CollisionFree digest name model.issuedPaths :=
    fun path hpath other hother => hfree path (hsubset hpath) other (hsubset hother)
  obtain ⟨assembled, hassembled, -⟩ := exists_assemble? hissued
  rw [hassembled]
  rfl

end Assembling

end ClassAtlas
