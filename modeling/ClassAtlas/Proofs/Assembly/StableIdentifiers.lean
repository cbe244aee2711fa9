import ClassAtlas.Proofs.Assembly.Determinacy

/-!
# Stable identifiers

The identifiers of a type and its parts are the same in every model that has
them. The registry is a state that every element of a run goes through, so an
identifier could depend on all that was issued before it. Two facts rule that
out: each element is registered under a path that says only where it stands in
its type (`TypePart.path`), and as long as no two of the issued paths have the same
digest, the identifier of a path is the first that is tried for it.

The first fact needs no assumption on the digest and is followed through the
steps of assembling (`TypeNode.Placed`); the second is one about registries.
-/

namespace ClassAtlas

open Assembling Issuing

/-! ## The parts of a type -/

/-- A declared type or a part of it, by where it stands in the type. -/
inductive TypePart where
  /-- The type itself. -/
  | type
  | field (index : ℕ)
  | operation (index : ℕ)
  | parameter (operation index : ℕ)
  /-- What an operation returns. -/
  | result (operation : ℕ)
  | literal (name : String)
  deriving DecidableEq, Repr

/-- The path of a part of the type of the given name. -/
def TypePart.path (owner : String) : TypePart → String
  | type => typePath owner
  | field index => numbered (typePath owner) "field" index
  | operation index => numbered (typePath owner) "op" index
  | parameter op index => numbered (numbered (typePath owner) "op" op) "param" index
  | result op => numbered (typePath owner) "op" op ++ "/return"
  | literal name => typePath owner ++ "/literal/" ++ name

/-- Whether a declaration has a part. -/
def Declaration.has (decl : Declaration) : TypePart → Bool
  | .type => true
  | .field index => index < decl.fields.length
  | .operation index => index < decl.operations.length
  | .parameter operation index =>
    decl.operations[operation]?.any fun op => index < op.parameters.length
  | .result operation => decl.operations[operation]?.any fun op => !op.returnsNothing
  | .literal name => decl.literals.contains name

/-- The identifier of a part. -/
def TypeNode.idAt? (node : TypeNode) : TypePart → Option String
  | .type => some node.id
  | .field index => node.fields[index]?.map FieldNode.id
  | .operation index => node.operations[index]?.map OperationNode.id
  | .parameter operation index =>
    node.operations[operation]?.bind fun op => op.parameters[index]?.map ParameterNode.id
  | .result operation =>
    node.operations[operation]?.bind fun op => op.returns.map ReturnNode.id
  | .literal name => (node.literals.find? (·.name == name)).map NamedNode.id

/-- The attribute that a member node is. -/
def MemberNode.field? : MemberNode → Option FieldNode
  | field node => some node
  | operation _ => none

/-- The operation that a member node is. -/
def MemberNode.operation? : MemberNode → Option OperationNode
  | field _ => none
  | operation node => some node

theorem TypeNode.fields_eq (node : TypeNode) :
    node.fields = node.members.filterMap MemberNode.field? := rfl

theorem TypeNode.operations_eq (node : TypeNode) :
    node.operations = node.members.filterMap MemberNode.operation? := rfl

/-! ## What is registered for each part -/

/-- The node has the identifiers that the registry has for an operation at a
path and for its parts. -/
structure OperationNode.Placed (registry : Registry) (path : String) (operation : Operation)
    (node : OperationNode) : Prop where
  id_eq : registry.get? path = some node.id
  parameter : ∀ index < operation.parameters.length, ∃ parameter,
    node.parameters[index]? = some parameter ∧
      registry.get? (numbered path "param" index) = some parameter.id
  result : operation.returnsNothing = false → ∃ result,
    node.returns = some result ∧ registry.get? (path ++ "/return") = some result.id

/-- The node has an identifier for each part of the declaration, the one that
the registry has for the path of the part. -/
def TypeNode.Placed (registry : Registry) (decl : Declaration) (node : TypeNode) : Prop :=
  ∀ part, decl.has part = true → ∃ id,
    node.idAt? part = some id ∧ registry.get? (part.path decl.name) = some id

theorem OperationNode.Placed.mono {registry next : Registry} {path : String}
    {operation : Operation} {node : OperationNode} (h : node.Placed registry path operation)
    (hextends : next.Extends registry) : node.Placed next path operation where
  id_eq := hextends _ _ h.id_eq
  parameter := by
    intro index hindex
    obtain ⟨parameter, hparameter, hid⟩ := h.parameter index hindex
    exact ⟨parameter, hparameter, hextends _ _ hid⟩
  result := by
    intro hreturns
    obtain ⟨result, hresult, hid⟩ := h.result hreturns
    exact ⟨result, hresult, hextends _ _ hid⟩

theorem TypeNode.Placed.mono {registry next : Registry} {decl : Declaration} {node : TypeNode}
    (h : node.Placed registry decl) (hextends : next.Extends registry) :
    node.Placed next decl := by
  intro part hpart
  obtain ⟨id, hid, hget⟩ := h part hpart
  exact ⟨id, hid, hextends _ _ hget⟩

namespace Assembling

variable {registry next : Registry}

theorem placed_parameterNodes {path : String} {first : ℕ} {parameters : List Parameter}
    {nodes : List ParameterNode}
    (h : parameterNodes path first parameters registry = some (nodes, next)) :
    ∀ index < parameters.length, ∃ node, nodes[index]? = some node ∧
      next.get? (numbered path "param" (first + index)) = some node.id := by
  induction parameters generalizing first registry nodes with
  | nil => simp
  | cons parameter rest ih =>
      obtain ⟨id, middle, hid, h⟩ := bind_eq_some_iff.mp h
      obtain ⟨type, middle', htype, h⟩ := bind_eq_some_iff.mp h
      obtain ⟨more, last, hmore, h⟩ := bind_eq_some_iff.mp h
      obtain ⟨rfl, rfl⟩ := pure_eq_some_iff.mp h
      rw [(resolve_spec htype).2] at hmore
      intro index hindex
      cases index with
      | zero => exact ⟨_, rfl, (parameterNodes_spec hmore).1 _ _ (assign_spec hid).2⟩
      | succ index =>
          rw [show first + (index + 1) = first + 1 + index by omega]
          exact ih hmore index (Nat.lt_of_succ_lt_succ hindex)

theorem placed_returnNode? {path : String} {operation : Operation} {node : Option ReturnNode}
    (h : returnNode? path operation registry = some (node, next))
    (hreturns : operation.returnsNothing = false) :
    ∃ result, node = some result ∧ next.get? (path ++ "/return") = some result.id := by
  rw [returnNode?, hreturns, if_neg Bool.false_ne_true] at h
  obtain ⟨id, middle, hid, h⟩ := bind_eq_some_iff.mp h
  obtain ⟨type, last, htype, h⟩ := bind_eq_some_iff.mp h
  obtain ⟨rfl, rfl⟩ := pure_eq_some_iff.mp h
  rw [(resolve_spec htype).2]
  exact ⟨_, rfl, (assign_spec hid).2⟩

theorem placed_operationNode {path : String} {operation : Operation} {node : OperationNode}
    (h : operationNode path operation registry = some (node, next)) :
    node.Placed next path operation := by
  obtain ⟨id, first, hid, h⟩ := bind_eq_some_iff.mp h
  obtain ⟨parameters, second, hparameters, h⟩ := bind_eq_some_iff.mp h
  obtain ⟨returns, last, hreturns, h⟩ := bind_eq_some_iff.mp h
  obtain ⟨rfl, rfl⟩ := pure_eq_some_iff.mp h
  have hextends := (parameterNodes_spec hparameters).1
  have hextends' := (returnNode?_spec hreturns).1
  refine ⟨hextends' _ _ (hextends _ _ (assign_spec hid).2), ?_, placed_returnNode? hreturns⟩
  intro index hindex
  obtain ⟨parameter, hparameter, hget⟩ := placed_parameterNodes hparameters index hindex
  rw [Nat.zero_add] at hget
  exact ⟨parameter, hparameter, hextends' _ _ hget⟩

theorem placed_fields {path : String} {fields operations : ℕ} {members : List Member}
    {nodes : List MemberNode}
    (h : memberNodes path fields operations members registry = some (nodes, next)) :
    ∀ index < (members.filterMap Member.field?).length, ∃ node,
      (nodes.filterMap MemberNode.field?)[index]? = some node ∧
        next.get? (numbered path "field" (fields + index)) = some node.id := by
  induction members generalizing fields operations registry nodes with
  | nil => simp
  | cons member rest ih =>
      cases member with
      | field field =>
          obtain ⟨first, middle, hfirst, h⟩ := bind_eq_some_iff.mp h
          obtain ⟨more, last, hmore, h⟩ := bind_eq_some_iff.mp h
          obtain ⟨rfl, rfl⟩ := pure_eq_some_iff.mp h
          have hget : last.get? (numbered path "field" fields) = some first.id :=
            (memberNodes_spec hmore).1 _ _ (List.cons.inj (issued_fieldNode hfirst).ids_eq).1
          intro index hindex
          cases index with
          | zero => exact ⟨first, rfl, hget⟩
          | succ index =>
              rw [show fields + (index + 1) = fields + 1 + index by omega]
              exact ih hmore index (Nat.lt_of_succ_lt_succ hindex)
      | operation operation =>
          obtain ⟨first, middle, -, h⟩ := bind_eq_some_iff.mp h
          obtain ⟨more, last, hmore, h⟩ := bind_eq_some_iff.mp h
          obtain ⟨rfl, rfl⟩ := pure_eq_some_iff.mp h
          intro index hindex
          exact ih hmore index hindex

theorem placed_operations {path : String} {fields operations : ℕ} {members : List Member}
    {nodes : List MemberNode}
    (h : memberNodes path fields operations members registry = some (nodes, next)) :
    ∀ (index : ℕ) (operation : Operation),
      (members.filterMap Member.operation?)[index]? = some operation →
      ∃ node : OperationNode, (nodes.filterMap MemberNode.operation?)[index]? = some node ∧
        node.Placed next (numbered path "op" (operations + index)) operation := by
  induction members generalizing fields operations registry nodes with
  | nil => simp
  | cons member rest ih =>
      cases member with
      | field field =>
          obtain ⟨first, middle, -, h⟩ := bind_eq_some_iff.mp h
          obtain ⟨more, last, hmore, h⟩ := bind_eq_some_iff.mp h
          obtain ⟨rfl, rfl⟩ := pure_eq_some_iff.mp h
          intro index operation hfound
          exact ih hmore index operation hfound
      | operation operation =>
          obtain ⟨first, middle, hfirst, h⟩ := bind_eq_some_iff.mp h
          obtain ⟨more, last, hmore, h⟩ := bind_eq_some_iff.mp h
          obtain ⟨rfl, rfl⟩ := pure_eq_some_iff.mp h
          intro index found hfound
          cases index with
          | zero =>
              obtain rfl := Option.some.inj hfound
              exact ⟨first, rfl, (placed_operationNode hfirst).mono (memberNodes_spec hmore).1⟩
          | succ index =>
              rw [show operations + (index + 1) = operations + 1 + index by omega]
              exact ih hmore index found hfound

theorem placed_typeNode {decl : Declaration} {node : TypeNode}
    (h : typeNode decl registry = some (node, next)) : node.Placed next decl := by
  obtain ⟨id, first, hid, h⟩ := bind_eq_some_iff.mp h
  obtain ⟨members, second, hmembers, h⟩ := bind_eq_some_iff.mp h
  obtain ⟨literals, last, hliterals, h⟩ := bind_eq_some_iff.mp h
  obtain ⟨rfl, rfl⟩ := pure_eq_some_iff.mp h
  have hextends := (memberNodes_spec hmembers).1
  obtain ⟨hextends', hnames, hids⟩ := namedNodes_spec hliterals
  have hoperation : ∀ (index : ℕ) (operation : Operation),
      decl.operations[index]? = some operation →
      ∃ node : OperationNode, (members.filterMap MemberNode.operation?)[index]? = some node ∧
        node.Placed last (numbered (typePath decl.name) "op" index) operation := by
    intro index operation hfound
    obtain ⟨node, hnode, hplaced⟩ := placed_operations hmembers index operation hfound
    rw [Nat.zero_add] at hplaced
    exact ⟨node, hnode, hplaced.mono hextends'⟩
  intro part hpart
  cases part with
  | type => exact ⟨id, rfl, hextends' _ _ (hextends _ _ (assign_spec hid).2)⟩
  | field index =>
      obtain ⟨node, hnode, hget⟩ := placed_fields hmembers index (of_decide_eq_true hpart)
      rw [Nat.zero_add] at hget
      refine ⟨node.id, ?_, hextends' _ _ hget⟩
      rw [TypeNode.idAt?, TypeNode.fields_eq, hnode, Option.map_some]
  | operation index =>
      have hlt : index < decl.operations.length := of_decide_eq_true hpart
      obtain ⟨node, hnode, hplaced⟩ := hoperation index _ (List.getElem?_eq_getElem hlt)
      refine ⟨node.id, ?_, hplaced.id_eq⟩
      rw [TypeNode.idAt?, TypeNode.operations_eq, hnode, Option.map_some]
  | parameter operation index =>
      obtain ⟨found, hfound, hindex⟩ := (Option.any_eq_true _ _).mp hpart
      obtain ⟨node, hnode, hplaced⟩ := hoperation operation found hfound
      obtain ⟨parameter, hparameter, hget⟩ := hplaced.parameter index (of_decide_eq_true hindex)
      refine ⟨parameter.id, ?_, hget⟩
      rw [TypeNode.idAt?, TypeNode.operations_eq, hnode, Option.bind_some, hparameter,
        Option.map_some]
  | result operation =>
      obtain ⟨found, hfound, hreturns⟩ := (Option.any_eq_true _ _).mp hpart
      obtain ⟨node, hnode, hplaced⟩ := hoperation operation found hfound
      obtain ⟨result, hresult, hget⟩ := hplaced.result (by simpa using hreturns)
      refine ⟨result.id, ?_, hget⟩
      rw [TypeNode.idAt?, TypeNode.operations_eq, hnode, Option.bind_some, hresult,
        Option.map_some]
  | literal name =>
      have hname : name ∈ literals.map NamedNode.name := by
        rw [hnames]
        exact List.contains_iff_mem.mp hpart
      obtain ⟨listed, hlisted, rfl⟩ := List.mem_map.mp hname
      obtain ⟨node, hnode⟩ := Option.isSome_iff_exists.mp
        (List.find?_isSome (p := (NamedNode.name · == listed.name)).mpr
          ⟨listed, hlisted, beq_self_eq_true _⟩)
      have hnodeName : node.name = listed.name :=
        beq_iff_eq.mp (List.find?_some (p := (NamedNode.name · == listed.name)) hnode)
      refine ⟨node.id, ?_, ?_⟩
      · rw [TypeNode.idAt?, hnode, Option.map_some]
      · rw [TypePart.path, ← hnodeName]
        exact hids node (List.mem_of_find?_eq_some hnode)

theorem placed_typeNodes {decls : List Declaration} {nodes : List TypeNode}
    (h : typeNodes decls registry = some (nodes, next)) :
    ∀ decl ∈ decls, ∃ node ∈ nodes, node.name = decl.name ∧ node.Placed next decl := by
  induction decls generalizing registry nodes with
  | nil => simp
  | cons decl rest ih =>
      obtain ⟨first, middle, hfirst, h⟩ := bind_eq_some_iff.mp h
      obtain ⟨more, last, hmore, h⟩ := bind_eq_some_iff.mp h
      obtain ⟨rfl, rfl⟩ := pure_eq_some_iff.mp h
      have hname : first.name = decl.name :=
        congrArg Declaration.name (typeNode_spec hfirst).2.1
      have hplaced := (placed_typeNode hfirst).mono (typeNodes_spec hmore).1
      refine List.forall_mem_cons.mpr ⟨⟨first, List.mem_cons_self, hname, hplaced⟩, ?_⟩
      intro other hother
      obtain ⟨node, hnode, hfound⟩ := ih hmore other hother
      exact ⟨node, List.mem_cons_of_mem _ hnode, hfound⟩

end Assembling

/-! ## Two models -/

namespace Model

variable {model other : Model} {digest : String → String} {name : String}

/-- The node of a declaration has an identifier for each of its parts, the one
that is registered for the path. -/
theorem Consistent.placed (h : model.Consistent) {assembled : Assembled}
    (hassembled : model.assemble? digest name = some assembled) {decl : Declaration}
    (hdecl : decl ∈ model.types) :
    ∃ node, assembled.assembly.find? decl.name = some node ∧
      node.Placed assembled.registry decl := by
  obtain ⟨registry, next, htypes, hextends, -⟩ := h.exists_typeNodes hassembled
  obtain ⟨node, hnode, hname, hplaced⟩ := placed_typeNodes htypes decl hdecl
  refine ⟨node, ?_, hplaced.mono hextends⟩
  rw [← hname]
  exact Assembly.find?_name ((h.describes hassembled).names_nodup h) hnode

/-- Identifiers are stable: if two models are assembled under the same name and
no two of the paths of either have the same digest there, a type that both
declare has the same identifier in both, and so has every part that both
declarations have, whatever else the models hold and in whatever order. -/
theorem identifiers_stable (h : model.Consistent) (h' : other.Consistent)
    (hfree : Registry.CollisionFree digest name model.issuedPaths)
    (hfree' : Registry.CollisionFree digest name other.issuedPaths) :
    ∃ assembled twin, model.assemble? digest name = some assembled ∧
      other.assemble? digest name = some twin ∧
      ∀ decl ∈ model.types, ∀ decl' ∈ other.types, decl.name = decl'.name →
        ∃ node node', assembled.assembly.find? decl.name = some node ∧
          twin.assembly.find? decl.name = some node' ∧
          ∀ part, decl.has part = true → decl'.has part = true →
            ∃ id, node.idAt? part = some id ∧ node'.idAt? part = some id := by
  obtain ⟨assembled, hassembled, hdigest, hscope, hfirst⟩ := exists_assemble? hfree
  obtain ⟨twin, htwin, hdigest', hscope', hfirst'⟩ := exists_assemble? hfree'
  refine ⟨assembled, twin, hassembled, htwin, ?_⟩
  intro decl hdecl decl' hdecl' hname
  obtain ⟨node, hfind, hplaced⟩ := h.placed hassembled hdecl
  obtain ⟨node', hfind', hplaced'⟩ := h'.placed htwin hdecl'
  refine ⟨node, node', hfind, by rw [hname, hfind'], ?_⟩
  intro part hpart hpart'
  obtain ⟨id, hid, hget⟩ := hplaced part hpart
  obtain ⟨id', hid', hget'⟩ := hplaced' part hpart'
  -- both identifiers are the first try for the same path
  have htry := (hfirst.of_get?_eq_some hget).2
  have htry' := (hfirst'.of_get?_eq_some hget').2
  rw [hdigest, hscope] at htry
  rw [hdigest', hscope', ← hname] at htry'
  exact ⟨id, hid, by rw [hid', htry', htry]⟩

/-- A type with an operation, in front of an enumeration. -/
def pen : Model where
  name := "pen"
  types := [
    { name := "Pen"
      kind := .«class»
      members := [
        .field ⟨"ink", "Ink", .«private», false, true⟩,
        .operation { name := "draw", parameters := [⟨"to", "int"⟩], returnType := "Ink" }] },
    { name := "Ink", kind := .enumeration, literals := ["RED", "BLUE"] }]
  index := [("Ink", 1), ("Pen", 0)]
  relationships := [{ source := "Pen", target := "Ink", kind := .composition }]

/-- The same types in the other order, behind another one, and with other
parts. -/
def pencil : Model where
  name := "pencil"
  types := [
    { name := "Wood", kind := .«class» },
    { name := "Ink", kind := .enumeration, literals := ["GREY", "BLUE"] },
    { name := "Pen"
      kind := .interface
      members := [
        .operation {
          name := "sketch"
          parameters := [⟨"on", "Wood"⟩, ⟨"with", "Ink"⟩]
          returnType := "boolean" },
        .operation { name := "sharpen" }] }]
  index := [("Pen", 2), ("Ink", 1), ("Wood", 0)]

theorem identifiers_stable_pen :
    pen.Consistent ∧ pencil.Consistent ∧
      Registry.CollisionFree id "m" pen.issuedPaths ∧
      Registry.CollisionFree id "m" pencil.issuedPaths ∧
      ∃ assembled twin node node', pen.assemble? id "m" = some assembled ∧
        pencil.assemble? id "m" = some twin ∧
        assembled.assembly.find? "Pen" = some node ∧ twin.assembly.find? "Pen" = some node' ∧
        ∀ part ∈ [TypePart.type, .operation 0, .parameter 0 0, .result 0],
          ∃ id, node.idAt? part = some id ∧ node'.idAt? part = some id := by
  have hpen : pen.Consistent := ⟨@indexes_indexOf pen.types (by decide), by decide⟩
  have hpencil : pencil.Consistent := ⟨@indexes_indexOf pencil.types (by decide), by decide⟩
  have hfree := Registry.collisionFree_of_injective Function.injective_id "m"
  obtain ⟨assembled, twin, hassembled, htwin, hsame⟩ :=
    identifiers_stable hpen hpencil (hfree _) (hfree _)
  obtain ⟨node, node', hnode, hnode', hparts⟩ :=
    hsame _ (.head _) _ (.tail _ (.tail _ (.head _))) rfl
  refine ⟨hpen, hpencil, hfree _, hfree _, assembled, twin, node, node', hassembled, htwin,
    hnode, hnode', ?_⟩
  intro part hpart
  refine hparts part ?_ ?_
  · revert part
    decide
  · revert part
    decide

end Model

end ClassAtlas
