import ClassAtlas.Proofs.Assembly.Paths

/-!
# Distinct identifiers

Every element of an assembled model has an identifier of its own. A registry
never issues an identifier twice, whatever the digest, because a taken one is
passed over; so it is enough that the elements have distinct paths and that the
run issues exactly these.

`Registry.Issued` says what a part of the run did to the registry: which paths
it issued identifiers for, which identifiers these are, and which references it
resolved. The parts of a run compose, and each kind of node has one lemma.
-/

namespace ClassAtlas

open Assembling Issuing

/-! ## The identifiers and references of a model -/

/-- The identifiers of an operation and its parts. -/
def OperationNode.ids (node : OperationNode) : List String :=
  node.id :: (node.parameters.map ParameterNode.id ++ (node.returns.map ReturnNode.id).toList)

/-- The references of the parameters and the result of an operation. -/
def OperationNode.references (node : OperationNode) : List Reference :=
  node.parameters.map ParameterNode.type ++ (node.returns.map ReturnNode.type).toList

def MemberNode.ids : MemberNode → List String
  | field node => [node.id]
  | operation node => node.ids

def MemberNode.references : MemberNode → List Reference
  | field node => [node.type]
  | operation node => node.references

/-- The identifiers of a type and its parts. -/
def TypeNode.ids (node : TypeNode) : List String :=
  node.id :: (node.members.flatMap MemberNode.ids ++ node.literals.map NamedNode.id)

def LinkEnds.ids (ends : LinkEnds) : List String :=
  [ends.source, ends.target]

/-- The identifiers of a relationship and its ends. -/
def LinkNode.ids (node : LinkNode) : List String :=
  (node.ends.map LinkEnds.ids).getD [] ++ [node.id]

namespace Assembly

/-- The identifiers of all elements of a model: the model itself, its primitive
types, its declared types with their parts, and its relationships with their
ends. -/
def ids (assembly : Assembly) : List String :=
  assembly.id :: (assembly.primitives.map NamedNode.id ++
    (assembly.types.flatMap TypeNode.ids ++ assembly.links.flatMap LinkNode.ids))

/-- What the attributes, parameters and results of a model refer to. -/
def references (assembly : Assembly) : List Reference :=
  assembly.types.flatMap fun node => node.members.flatMap MemberNode.references

end Assembly

namespace Registry

variable {registry next first second third : Registry}

/-! ## Registries without repetition -/

/-- No path is listed twice, and no identifier has two paths. -/
structure Distinct (registry : Registry) : Prop where
  paths : (registry.issued.map Prod.fst).Nodup
  agrees : registry.Agrees

theorem distinct_start (digest : String → String) (scope : String) :
    Distinct { scope, digest } :=
  ⟨List.nodup_nil, agrees_start digest scope⟩

theorem isSome_get?_iff {path : String} :
    (registry.get? path).isSome = true ↔ path ∈ registry.issued.map Prod.fst := by
  constructor
  · intro hsome
    obtain ⟨id, hid⟩ := Option.isSome_iff_exists.mp hsome
    obtain ⟨before, after, hissued, -⟩ := List.lookup_eq_some_iff.mp hid
    rw [hissued]
    simp
  · intro hmem
    by_contra hnone
    have habsent := List.lookup_eq_none_iff.mp (Option.not_isSome_iff_eq_none.mp hnone)
    obtain ⟨entry, hentry, rfl⟩ := List.mem_map.mp hmem
    simpa using habsent entry hentry

/-- Only a path that is not listed is added. -/
theorem Distinct.assign? (h : registry.Distinct) {path id : String}
    (hassign : registry.assign? path = some (id, next)) : next.Distinct := by
  refine ⟨?_, h.agrees.assign? hassign⟩
  rcases assign?_cases hassign with ⟨-, rfl⟩ | ⟨hnew, -, rfl⟩
  · exact h.paths
  · have hpath : path ∉ registry.issued.map Prod.fst := by
      rw [← isSome_get?_iff, hnew]
      simp
    exact List.nodup_cons.mpr ⟨hpath, h.paths⟩

/-- Different paths have different identifiers. -/
theorem Distinct.path_eq (h : registry.Distinct) {path other id : String}
    (hpath : registry.get? path = some id) (hother : registry.get? other = some id) :
    path = other := by
  rw [h.agrees] at hpath hother
  exact Option.some.inj (hpath.symm.trans hother)

/-! ## What a part of a run issues -/

/-- The identifier of a reference is the one of the path that its name has as a
primitive or as a declared type. -/
inductive Backs (registry : Registry) : Reference → Prop where
  | primitive {id name : String} (hname : TypeText.isPrimitive name = true)
    (hid : registry.get? (primitivePath name) = some id) : Backs registry (.primitive id name)
  | declared {id name : String} (hid : registry.get? (typePath name) = some id) :
    Backs registry (.declared id name)
  | external (name : String) : Backs registry (.external name)

theorem Extends.backs (h : next.Extends registry) {reference : Reference}
    (hbacks : registry.Backs reference) : next.Backs reference := by
  cases hbacks with
  | primitive hname hid => exact .primitive hname (h _ _ hid)
  | declared hid => exact .declared (h _ _ hid)
  | external name => exact .external name

/-- A type text is resolved by the registry itself. -/
theorem backs_reference (registry : Registry) (type : String) :
    registry.Backs (reference registry type) := by
  unfold reference
  dsimp only
  generalize String.ofList (TypeText.baseName type.toList) = name
  by_cases hname : TypeText.isPrimitive name = true
  · rw [if_pos hname]
    cases hprimitive : registry.get? (primitivePath name) with
    | some id => exact .primitive hname hprimitive
    | none =>
        cases hdeclared : registry.get? (typePath name) with
        | some id => exact .declared hdeclared
        | none => exact .external name
  · rw [if_neg hname]
    cases hdeclared : registry.get? (typePath name) with
    | some id => exact .declared hdeclared
    | none => exact .external name

/-- The registry has come out of another one by issuing identifiers for exactly
these paths, and has the identifiers of these references. -/
structure Issued (registry next : Registry) (paths ids : List String)
    (references : List Reference) : Prop where
  extends_registry : next.Extends registry
  distinct : registry.Distinct → next.Distinct
  known : ∀ path, (next.get? path).isSome = true ↔
    (registry.get? path).isSome = true ∨ path ∈ paths
  ids_eq : paths.map next.get? = ids.map some
  backed : ∀ reference ∈ references, next.Backs reference

namespace Issued

variable {paths paths' ids ids' : List String} {references references' : List Reference}

theorem refer (h : ∀ reference ∈ references, registry.Backs reference) :
    registry.Issued registry [] [] references where
  extends_registry := Extends.refl registry
  distinct := id
  known := by simp
  ids_eq := rfl
  backed := h

theorem nil (registry : Registry) : registry.Issued registry [] [] [] :=
  refer (by simp)

theorem append
    (h : first.Issued second paths ids references)
    (h' : second.Issued third paths' ids' references') :
    first.Issued third (paths ++ paths') (ids ++ ids') (references ++ references') where
  extends_registry := h'.extends_registry.trans h.extends_registry
  distinct hdistinct := h'.distinct (h.distinct hdistinct)
  known path := by
    rw [h'.known, h.known, List.mem_append, or_assoc]
  ids_eq := by
    -- an identifier that was issued in the first part is still the same at the end
    have hkept : ∀ path ∈ paths, third.get? path = second.get? path := by
      intro path hpath
      obtain ⟨id, hid⟩ := Option.isSome_iff_exists.mp ((h.known path).mpr (Or.inr hpath))
      rw [hid, h'.extends_registry path id hid]
    rw [List.map_append, List.map_append, List.map_congr_left hkept, h.ids_eq, h'.ids_eq]
  backed := by
    intro reference hreference
    rcases List.mem_append.mp hreference with hmem | hmem
    · exact h'.extends_registry.backs (h.backed reference hmem)
    · exact h'.backed reference hmem

/-- A part whose paths are all issued again later counts for nothing. -/
theorem after
    (h : first.Issued second paths ids references)
    (h' : second.Issued third paths' ids' references') (hagain : paths ⊆ paths') :
    first.Issued third paths' ids' references' where
  extends_registry := h'.extends_registry.trans h.extends_registry
  distinct hdistinct := h'.distinct (h.distinct hdistinct)
  known path := by
    rw [h'.known, h.known, or_assoc, or_iff_right_of_imp (@hagain path)]
  ids_eq := h'.ids_eq
  backed := h'.backed

theorem assign {path id : String} (h : Issuing.assign path registry = some (id, next)) :
    registry.Issued next [path] [id] [] where
  extends_registry := assign?_extends h
  distinct hdistinct := hdistinct.assign? h
  known other := by
    rcases assign?_cases h with ⟨hknown, rfl⟩ | ⟨-, -, rfl⟩
    · rw [List.mem_singleton]
      refine ⟨Or.inl, ?_⟩
      rintro (hother | rfl)
      · exact hother
      · rw [hknown]
        rfl
    · rw [get?_issue, List.mem_singleton]
      by_cases hother : other = path <;> simp [hother]
  ids_eq := by
    rw [List.map_singleton, get?_assign? h]
    rfl
  backed := by simp

theorem resolve {type : String} {found : Reference}
    (h : Assembling.resolve type registry = some (found, next)) :
    registry.Issued next [] [] [found] := by
  obtain ⟨hfound, hnext⟩ := resolve_spec h
  have hbacked : registry.Backs found := by
    rw [hfound]
    exact backs_reference registry type
  rw [hnext]
  exact refer (List.forall_mem_singleton.mpr hbacked)

end Issued

end Registry

/-! ## What each kind of node issues -/

namespace Assembling

variable {registry next : Registry}

theorem issued_fieldNode {path : String} {field : Field} {node : FieldNode}
    (h : fieldNode path field registry = some (node, next)) :
    registry.Issued next [path] [node.id] [node.type] := by
  obtain ⟨id, middle, hid, h⟩ := bind_eq_some_iff.mp h
  obtain ⟨type, last, htype, h⟩ := bind_eq_some_iff.mp h
  obtain ⟨rfl, rfl⟩ := pure_eq_some_iff.mp h
  exact (Registry.Issued.assign hid).append (Registry.Issued.resolve htype)

theorem issued_parameterNodes {path : String} {index : ℕ} {parameters : List Parameter}
    {nodes : List ParameterNode}
    (h : parameterNodes path index parameters registry = some (nodes, next)) :
    registry.Issued next (parameterPaths path index parameters)
      (nodes.map ParameterNode.id) (nodes.map ParameterNode.type) := by
  induction parameters generalizing index registry nodes with
  | nil =>
      obtain ⟨rfl, rfl⟩ := pure_eq_some_iff.mp h
      exact Registry.Issued.nil _
  | cons parameter rest ih =>
      obtain ⟨id, middle, hid, h⟩ := bind_eq_some_iff.mp h
      obtain ⟨type, middle', htype, h⟩ := bind_eq_some_iff.mp h
      obtain ⟨more, last, hmore, h⟩ := bind_eq_some_iff.mp h
      obtain ⟨rfl, rfl⟩ := pure_eq_some_iff.mp h
      exact ((Registry.Issued.assign hid).append (Registry.Issued.resolve htype)).append (ih hmore)

theorem issued_returnNode? {path : String} {operation : Operation} {node : Option ReturnNode}
    (h : returnNode? path operation registry = some (node, next)) :
    registry.Issued next (if operation.returnsNothing then [] else [path ++ "/return"])
      (node.map ReturnNode.id).toList (node.map ReturnNode.type).toList := by
  unfold returnNode? at h
  by_cases hnothing : operation.returnsNothing = true
  · rw [if_pos hnothing] at h ⊢
    obtain ⟨rfl, rfl⟩ := pure_eq_some_iff.mp h
    exact Registry.Issued.nil _
  · rw [if_neg hnothing] at h ⊢
    obtain ⟨id, middle, hid, h⟩ := bind_eq_some_iff.mp h
    obtain ⟨type, last, htype, h⟩ := bind_eq_some_iff.mp h
    obtain ⟨rfl, rfl⟩ := pure_eq_some_iff.mp h
    exact (Registry.Issued.assign hid).append (Registry.Issued.resolve htype)

theorem issued_operationNode {path : String} {operation : Operation} {node : OperationNode}
    (h : operationNode path operation registry = some (node, next)) :
    registry.Issued next (issuedOperationPaths path operation) node.ids node.references := by
  obtain ⟨id, first, hid, h⟩ := bind_eq_some_iff.mp h
  obtain ⟨parameters, second, hparameters, h⟩ := bind_eq_some_iff.mp h
  obtain ⟨returns, last, hreturns, h⟩ := bind_eq_some_iff.mp h
  obtain ⟨rfl, rfl⟩ := pure_eq_some_iff.mp h
  exact (Registry.Issued.assign hid).append
    ((issued_parameterNodes hparameters).append (issued_returnNode? hreturns))

theorem issued_memberNodes {path : String} {fields operations : ℕ} {members : List Member}
    {nodes : List MemberNode}
    (h : memberNodes path fields operations members registry = some (nodes, next)) :
    registry.Issued next (issuedMemberPaths path fields operations members)
      (nodes.flatMap MemberNode.ids) (nodes.flatMap MemberNode.references) := by
  induction members generalizing fields operations registry nodes with
  | nil =>
      obtain ⟨rfl, rfl⟩ := pure_eq_some_iff.mp h
      exact Registry.Issued.nil _
  | cons member rest ih =>
      cases member with
      | field field =>
          obtain ⟨node, middle, hnode, h⟩ := bind_eq_some_iff.mp h
          obtain ⟨more, last, hmore, h⟩ := bind_eq_some_iff.mp h
          obtain ⟨rfl, rfl⟩ := pure_eq_some_iff.mp h
          exact (issued_fieldNode hnode).append (ih hmore)
      | operation operation =>
          obtain ⟨node, middle, hnode, h⟩ := bind_eq_some_iff.mp h
          obtain ⟨more, last, hmore, h⟩ := bind_eq_some_iff.mp h
          obtain ⟨rfl, rfl⟩ := pure_eq_some_iff.mp h
          exact (issued_operationNode hnode).append (ih hmore)

theorem issued_namedNodes {path : String → String} {names : List String}
    {nodes : List NamedNode} (h : namedNodes path names registry = some (nodes, next)) :
    registry.Issued next (names.map path) (nodes.map NamedNode.id) [] := by
  induction names generalizing registry nodes with
  | nil =>
      obtain ⟨rfl, rfl⟩ := pure_eq_some_iff.mp h
      exact Registry.Issued.nil _
  | cons name rest ih =>
      obtain ⟨id, middle, hid, h⟩ := bind_eq_some_iff.mp h
      obtain ⟨more, last, hmore, h⟩ := bind_eq_some_iff.mp h
      obtain ⟨rfl, rfl⟩ := pure_eq_some_iff.mp h
      exact (Registry.Issued.assign hid).append (ih hmore)

theorem issued_typeNode {decl : Declaration} {node : TypeNode}
    (h : typeNode decl registry = some (node, next)) :
    registry.Issued next (issuedDeclarationPaths decl) node.ids
      (node.members.flatMap MemberNode.references) := by
  obtain ⟨id, first, hid, h⟩ := bind_eq_some_iff.mp h
  obtain ⟨members, second, hmembers, h⟩ := bind_eq_some_iff.mp h
  obtain ⟨literals, last, hliterals, h⟩ := bind_eq_some_iff.mp h
  obtain ⟨rfl, rfl⟩ := pure_eq_some_iff.mp h
  have hrun := (Registry.Issued.assign hid).append
    ((issued_memberNodes hmembers).append (issued_namedNodes hliterals))
  rw [List.append_nil] at hrun
  exact hrun

theorem issued_typeNodes {decls : List Declaration} {nodes : List TypeNode}
    (h : typeNodes decls registry = some (nodes, next)) :
    registry.Issued next (decls.flatMap issuedDeclarationPaths) (nodes.flatMap TypeNode.ids)
      (nodes.flatMap fun node => node.members.flatMap MemberNode.references) := by
  induction decls generalizing registry nodes with
  | nil =>
      obtain ⟨rfl, rfl⟩ := pure_eq_some_iff.mp h
      exact Registry.Issued.nil _
  | cons decl rest ih =>
      obtain ⟨node, middle, hnode, h⟩ := bind_eq_some_iff.mp h
      obtain ⟨more, last, hmore, h⟩ := bind_eq_some_iff.mp h
      obtain ⟨rfl, rfl⟩ := pure_eq_some_iff.mp h
      exact (issued_typeNode hnode).append (ih hmore)

theorem issued_linkNode? {index : ℕ} {link : Relationship} {node? : Option LinkNode}
    (hsource : (registry.get? (typePath link.source)).isSome = true)
    (htarget : (registry.get? (typePath link.target)).isSome = true)
    (h : linkNode? index link registry = some (node?, next)) :
    ∃ node, node? = some node ∧
      registry.Issued next
        (issuedEndPaths ("rel/" ++ toString index) link ++ ["rel/" ++ toString index])
        node.ids [] := by
  obtain ⟨sourceId, hsourceId⟩ := Option.isSome_iff_exists.mp hsource
  obtain ⟨targetId, htargetId⟩ := Option.isSome_iff_exists.mp htarget
  unfold linkNode? at h
  rw [lookup?_bind, lookup?_bind, hsourceId, htargetId] at h
  dsimp only at h
  unfold issuedEndPaths
  by_cases hstructural : link.kind.isStructural = true
  · rw [if_pos hstructural] at h ⊢
    obtain ⟨sourceEnd, first, hsourceEnd, h⟩ := bind_eq_some_iff.mp h
    obtain ⟨targetEnd, second, htargetEnd, h⟩ := bind_eq_some_iff.mp h
    rw [pure_bind] at h
    obtain ⟨id, last, hid, h⟩ := bind_eq_some_iff.mp h
    obtain ⟨rfl, rfl⟩ := pure_eq_some_iff.mp h
    exact ⟨_, rfl, ((Registry.Issued.assign hsourceEnd).append
      (Registry.Issued.assign htargetEnd)).append (Registry.Issued.assign hid)⟩
  · rw [if_neg hstructural] at h ⊢
    rw [pure_bind] at h
    obtain ⟨id, last, hid, h⟩ := bind_eq_some_iff.mp h
    obtain ⟨rfl, rfl⟩ := pure_eq_some_iff.mp h
    exact ⟨_, rfl, Registry.Issued.assign hid⟩

theorem issued_linkNodes {index : ℕ} {links : List Relationship} {nodes : List LinkNode}
    {dropped : List Relationship}
    (hends : ∀ link ∈ links, (registry.get? (typePath link.source)).isSome = true ∧
      (registry.get? (typePath link.target)).isSome = true)
    (h : linkNodes index links registry = some ((nodes, dropped), next)) :
    registry.Issued next (issuedLinkPaths index links) (nodes.flatMap LinkNode.ids) [] := by
  induction links generalizing index registry nodes dropped with
  | nil =>
      obtain ⟨heq, rfl⟩ := pure_eq_some_iff.mp h
      obtain ⟨rfl, rfl⟩ := Prod.mk.inj heq
      exact Registry.Issued.nil _
  | cons link rest ih =>
      obtain ⟨⟨hsource, htarget⟩, hrest⟩ := List.forall_mem_cons.mp hends
      obtain ⟨node?, middle, hnode, h⟩ := bind_eq_some_iff.mp h
      obtain ⟨⟨more, others⟩, last, hmore, h⟩ := bind_eq_some_iff.mp h
      obtain ⟨node, rfl, hissued⟩ := issued_linkNode? hsource htarget hnode
      obtain ⟨heq, rfl⟩ := pure_eq_some_iff.mp h
      obtain ⟨rfl, rfl⟩ := Prod.mk.inj heq
      have hkept : ∀ other ∈ rest, (middle.get? (typePath other.source)).isSome = true ∧
          (middle.get? (typePath other.target)).isSome = true := by
        intro other hother
        exact ⟨(hissued.known _).mpr (Or.inl (hrest other hother).1),
          (hissued.known _).mpr (Or.inl (hrest other hother).2)⟩
      have hrun := hissued.append (ih hkept hmore)
      rw [List.append_assoc] at hrun
      exact hrun

end Assembling

/-! ## What a whole run issues -/

namespace Model

variable {model : Model} {digest : String → String} {name : String}

/-- Assembling a consistent model issues an identifier for the path of every
element and for nothing else. -/
theorem Consistent.issued (h : model.Consistent) {assembled : Assembled}
    (hassembled : model.assemble? digest name = some assembled) :
    Registry.Issued { scope := name, digest } assembled.registry model.issuedPaths
      assembled.assembly.ids assembled.assembly.references := by
  obtain ⟨⟨⟨assembly, dropped⟩, registry⟩, hrun, rfl⟩ := Option.map_eq_some_iff.mp hassembled
  obtain ⟨id, first, hid, hrun⟩ := bind_eq_some_iff.mp hrun
  obtain ⟨primitives, second, hprimitives, hrun⟩ := bind_eq_some_iff.mp hrun
  obtain ⟨registered, third, hregistered, hrun⟩ := bind_eq_some_iff.mp hrun
  obtain ⟨types, fourth, htypes, hrun⟩ := bind_eq_some_iff.mp hrun
  obtain ⟨⟨links, others⟩, last, hlinks, hrun⟩ := bind_eq_some_iff.mp hrun
  obtain ⟨heq, rfl⟩ := pure_eq_some_iff.mp hrun
  obtain ⟨rfl, rfl⟩ := Prod.mk.inj heq
  -- the types are registered once before their nodes are built
  have hagain : model.names.map typePath ⊆ model.types.flatMap issuedDeclarationPaths := by
    intro path hpath
    rw [names, List.map_map] at hpath
    obtain ⟨decl, hdecl, rfl⟩ := List.mem_map.mp hpath
    exact List.mem_flatMap.mpr ⟨decl, hdecl, List.mem_cons_self⟩
  have hdeclared := (issued_namedNodes hregistered).after (issued_typeNodes htypes) hagain
  have hends : ∀ link ∈ model.relationships,
      (fourth.get? (typePath link.source)).isSome = true ∧
        (fourth.get? (typePath link.target)).isSome = true := by
    intro link hlink
    obtain ⟨hsource, htarget⟩ := h.ends_declared link hlink
    exact ⟨(hdeclared.known _).mpr (Or.inr (hagain (List.mem_map_of_mem hsource))),
      (hdeclared.known _).mpr (Or.inr (hagain (List.mem_map_of_mem htarget)))⟩
  have hissued := (Registry.Issued.assign hid).append
    ((issued_namedNodes hprimitives).append (hdeclared.append (issued_linkNodes hends hlinks)))
  rw [List.append_nil] at hissued
  exact hissued

/-- The nodes of the types are built when all primitive and declared types are
registered, and what is registered by then stays. -/
theorem Consistent.exists_typeNodes (h : model.Consistent) {assembled : Assembled}
    (hassembled : model.assemble? digest name = some assembled) :
    ∃ registry next : Registry,
      typeNodes model.types registry = some (assembled.assembly.types, next) ∧
      assembled.registry.Extends next ∧
      (∀ primitive ∈ TypeText.primitiveNames,
        (registry.get? (primitivePath primitive)).isSome = true) ∧
      ∀ typeName ∈ model.names, (registry.get? (typePath typeName)).isSome = true := by
  obtain ⟨⟨⟨assembly, dropped⟩, registry⟩, hrun, rfl⟩ := Option.map_eq_some_iff.mp hassembled
  obtain ⟨id, first, -, hrun⟩ := bind_eq_some_iff.mp hrun
  obtain ⟨primitives, second, hprimitives, hrun⟩ := bind_eq_some_iff.mp hrun
  obtain ⟨registered, third, hregistered, hrun⟩ := bind_eq_some_iff.mp hrun
  obtain ⟨types, fourth, htypes, hrun⟩ := bind_eq_some_iff.mp hrun
  obtain ⟨⟨links, others⟩, last, hlinks, hrun⟩ := bind_eq_some_iff.mp hrun
  obtain ⟨heq, rfl⟩ := pure_eq_some_iff.mp hrun
  obtain ⟨rfl, rfl⟩ := Prod.mk.inj heq
  have hprimitive := (issued_namedNodes hprimitives).known
  have hregister := (issued_namedNodes hregistered).known
  have hknown : ∀ typeName ∈ model.names, (third.get? (typePath typeName)).isSome = true :=
    fun typeName hmem => (hregister _).mpr (Or.inr (List.mem_map_of_mem hmem))
  have hkept : ∀ typeName ∈ model.names, (fourth.get? (typePath typeName)).isSome = true :=
    fun typeName hmem => ((issued_typeNodes htypes).known _).mpr (Or.inl (hknown _ hmem))
  have hends : ∀ link ∈ model.relationships,
      (fourth.get? (typePath link.source)).isSome = true ∧
        (fourth.get? (typePath link.target)).isSome = true :=
    fun link hlink =>
      ⟨hkept _ (h.ends_declared link hlink).1, hkept _ (h.ends_declared link hlink).2⟩
  refine ⟨third, fourth, htypes, (issued_linkNodes hends hlinks).extends_registry, ?_, hknown⟩
  intro primitive hmem
  exact (hregister _).mpr (Or.inl ((hprimitive _).mpr (Or.inr (List.mem_map_of_mem hmem))))

theorem Consistent.distinct (h : model.Consistent) {assembled : Assembled}
    (hassembled : model.assemble? digest name = some assembled) :
    assembled.registry.Distinct :=
  (h.issued hassembled).distinct (Registry.distinct_start digest name)

/-- Whatever the digest, no two elements of an assembled model have the same
identifier, and the registry holds one identifier for each element. -/
theorem assembled_ids_distinct (h : model.Consistent)
    (hnames : ∀ name ∈ model.names, '/' ∉ name.toList)
    (hliterals : ∀ decl ∈ model.types, decl.literals.Nodup) {assembled : Assembled}
    (hassembled : model.assemble? digest name = some assembled) :
    assembled.assembly.ids.Nodup ∧
      assembled.registry.size = assembled.assembly.ids.length := by
  have hissued := h.issued hassembled
  have hdistinct := h.distinct hassembled
  have hpaths := h.nodup_issuedPaths hnames hliterals
  have hknown : ∀ path, path ∈ assembled.registry.issued.map Prod.fst ↔
      path ∈ model.issuedPaths := by
    intro path
    rw [← Registry.isSome_get?_iff, hissued.known]
    exact or_iff_right (by simp [Registry.get?])
  constructor
  · have hsome : (assembled.assembly.ids.map some).Nodup := by
      rw [← hissued.ids_eq]
      refine hpaths.map_on ?_
      intro path hpath other _ heq
      obtain ⟨id, hid⟩ := Option.isSome_iff_exists.mp
        ((hissued.known path).mpr (Or.inr hpath))
      exact hdistinct.path_eq hid (heq ▸ hid)
    exact hsome.of_map some
  · have hperm := (List.perm_ext_iff_of_nodup hdistinct.paths hpaths).mpr hknown
    calc
      assembled.registry.size = (assembled.registry.issued.map Prod.fst).length := by
        rw [Registry.size, List.length_map]
      _ = model.issuedPaths.length := hperm.length_eq
      _ = (model.issuedPaths.map assembled.registry.get?).length := by rw [List.length_map]
      _ = assembled.assembly.ids.length := by rw [hissued.ids_eq, List.length_map]

/-- A model with every kind of element, in which a literal looks like a path
and the names of members repeat. -/
def crowded : Model :=
  let order : Declaration := {
    name := "Order"
    kind := .«class»
    members := [
      .field ⟨"state", "State", .«private», false, false⟩,
      .field ⟨"state", "int", .«private», false, false⟩,
      .operation { name := "state", parameters := [⟨"at", "int"⟩, ⟨"at", "Order/field/0"⟩],
                   returnType := "State" },
      .operation { name := "reset" }] }
  let state : Declaration := {
    name := "State", kind := .enumeration, literals := ["OPEN", "OPEN/field/0"] }
  [.insert order, .insert state, .infer {}].foldl edit { name := "Crowded" }

theorem assembled_ids_distinct_crowded :
    crowded.relationships ≠ [] ∧
      ∃ assembled, crowded.assemble? id "Crowded" = some assembled ∧
        assembled.assembly.ids.Nodup ∧
        assembled.registry.size = assembled.assembly.ids.length := by
  obtain ⟨assembled, hassembled⟩ := Option.isSome_iff_exists.mp
    (isSome_assemble? (Registry.collisionFree_of_injective Function.injective_id "Crowded"
      crowded.paths))
  refine ⟨by decide +kernel, assembled, hassembled, ?_⟩
  exact assembled_ids_distinct ((consistent_new "Crowded").foldl_edit _) (by decide +kernel)
    (by decide +kernel) hassembled

end Model

end ClassAtlas
