import ClassAtlas.Proofs.Assembly.Identifiers

/-!
# What the nodes of types depend on

The node of a type is built while identifiers are issued, so it could depend on
what was issued before. It does not as long as no two paths have the same digest
and no type text of the declaration names something with a slash: every
identifier is then the digest of its path, and a text is resolved by the names
of the model alone. Hence two models with the same declarations in different
orders have the same nodes for them.

`Issuing.Determined` carries the argument through the steps of assembling. A
declaration with a slash in one of its type texts still leaves the registry
ready for the next one, which is why the condition on texts is carried as a
proposition rather than assumed for all declarations.
-/

namespace ClassAtlas

/-! ## The type texts of a declaration -/

/-- The type texts of an operation that are resolved. -/
def Operation.typeTexts (operation : Operation) : List String :=
  operation.parameters.map Parameter.declaredType ++
    if operation.returnsNothing then [] else [operation.returnType]

/-- The type texts of a member that are resolved. -/
def Member.typeTexts : Member → List String
  | field f => [f.declaredType]
  | operation o => o.typeTexts

/-- Whether the name in a type text has no slash. -/
def TypeText.isSlashless (type : String) : Bool :=
  !(baseName type.toList).contains '/'

/-- Whether no type text of a declaration names something with a slash. -/
def Declaration.isSlashless (decl : Declaration) : Bool :=
  decl.members.all fun member => member.typeTexts.all TypeText.isSlashless

theorem Operation.typeTexts_settled (operation : Operation) :
    operation.settled.typeTexts = operation.typeTexts := by
  unfold typeTexts settled
  by_cases hnothing : operation.returnsNothing = true
  · have hvoid : returnsNothing { operation with returnType := voidName } = true := by
      simp [returnsNothing]
    simp only [hnothing, if_true, hvoid]
  · simp only [if_neg hnothing]

theorem Declaration.isSlashless_settled (decl : Declaration) :
    decl.settled.isSlashless = decl.isSlashless := by
  have htexts : ∀ member : Member, member.settled.typeTexts = member.typeTexts := by
    intro member
    cases member with
    | field field => rfl
    | operation operation => exact operation.typeTexts_settled
  simp only [isSlashless, settled, List.all_map, Function.comp_def, htexts]

open Assembling Issuing

namespace Registry

variable {registry : Registry} {digest : String → String} {scope : String}
  {paths names : List String}

/-- The identifier that is tried first for a path. -/
def identifier (digest : String → String) (scope path : String) : String :=
  "_" ++ digest (scope ++ "|" ++ path)

/-- Only these paths have identifiers, each the first that is tried for it, and
the primitive types and the types of these names have theirs. -/
structure Ready (digest : String → String) (scope : String) (paths names : List String)
    (registry : Registry) : Prop where
  digest_eq : registry.digest = digest
  scope_eq : registry.scope = scope
  first : registry.IsFirstTried paths
  primitives : ∀ name ∈ TypeText.primitiveNames,
    (registry.get? (primitivePath name)).isSome = true
  types : ∀ name ∈ names, (registry.get? (typePath name)).isSome = true

/-- Where only first tries were issued, the identifier of a path is the first
that is tried for it. -/
theorem IsFirstTried.of_get?_eq_some (h : registry.IsFirstTried paths) {path id : String}
    (hid : registry.get? path = some id) :
    path ∈ paths ∧ id = identifier registry.digest registry.scope path := by
  obtain ⟨hpath, hcandidate⟩ := h.first path id hid
  refine ⟨hpath, hcandidate.trans ?_⟩
  simp [candidate, identifier]

namespace Ready

theorem of_get?_eq_some (h : registry.Ready digest scope paths names) {path id : String}
    (hid : registry.get? path = some id) : path ∈ paths ∧ id = identifier digest scope path := by
  rw [← h.digest_eq, ← h.scope_eq]
  exact h.first.of_get?_eq_some hid

theorem get?_of_isSome (h : registry.Ready digest scope paths names) {path : String}
    (hknown : (registry.get? path).isSome = true) :
    registry.get? path = some (identifier digest scope path) := by
  obtain ⟨id, hid⟩ := Option.isSome_iff_exists.mp hknown
  rw [hid, (h.of_get?_eq_some hid).2]

/-- What a type text refers to depends only on the names, unless the name in it
has a slash. -/
theorem reference_eq (h : registry.Ready digest scope paths names)
    (hnames : ∀ name, typePath name ∈ paths → '/' ∉ name.toList → name ∈ names)
    {type : String} (hplain : TypeText.isSlashless type = true) :
    reference registry type =
      let name := String.ofList (TypeText.baseName type.toList)
      if TypeText.isPrimitive name then
        .primitive (identifier digest scope (primitivePath name)) name
      else if name ∈ names then .declared (identifier digest scope (typePath name)) name
      else .external name := by
  have hslash : '/' ∉ (String.ofList (TypeText.baseName type.toList)).toList := by
    simpa [TypeText.isSlashless] using hplain
  unfold reference
  dsimp only
  revert hslash
  generalize String.ofList (TypeText.baseName type.toList) = name
  intro hslash
  by_cases hprimitive : TypeText.isPrimitive name = true
  · rw [if_pos hprimitive, if_pos hprimitive,
      h.get?_of_isSome (h.primitives name (List.contains_iff_mem.mp hprimitive))]
  rw [if_neg hprimitive, if_neg hprimitive]
  by_cases hname : name ∈ names
  · rw [if_pos hname, h.get?_of_isSome (h.types name hname)]
  · have hunknown : registry.get? (typePath name) = none := by
      by_contra hsome
      obtain ⟨id, hid⟩ := Option.ne_none_iff_exists'.mp hsome
      exact hname (hnames name (h.of_get?_eq_some hid).1 hslash)
    rw [if_neg hname, hunknown]

end Ready

end Registry

/-! ## Computations with a determined value -/

namespace Issuing

variable {α β : Type} {ready : Registry → Prop} {plain : Prop}

/-- A computation that succeeds in every ready registry and leaves a ready one.
If the condition holds, it gives the same value in all of them. -/
def Determined (ready : Registry → Prop) (plain : Prop) (x : Issuing α) : Prop :=
  ∃ a, ∀ registry, ready registry →
    ∃ b next, x registry = some (b, next) ∧ ready next ∧ (plain → b = a)

namespace Determined

theorem pure (a : α) : Determined ready plain (Pure.pure a : Issuing α) :=
  ⟨a, fun registry hready => ⟨a, registry, rfl, hready, fun _ => rfl⟩⟩

theorem bind {x : Issuing α} {f : α → Issuing β} (hx : Determined ready plain x)
    (hf : ∀ a, Determined ready plain (f a)) : Determined ready plain (x >>= f) := by
  obtain ⟨a, hx⟩ := hx
  obtain ⟨b, hb⟩ := hf a
  refine ⟨b, fun registry hready => ?_⟩
  obtain ⟨c, middle, hrun, hmiddle, hc⟩ := hx registry hready
  by_cases hplain : plain
  · obtain rfl := hc hplain
    obtain ⟨d, next, hrun', hnext, hd⟩ := hb middle hmiddle
    exact ⟨d, next, bind_eq_some_iff.mpr ⟨c, middle, hrun, hrun'⟩, hnext, hd⟩
  · obtain ⟨_, hother⟩ := hf c
    obtain ⟨d, next, hrun', hnext, -⟩ := hother middle hmiddle
    exact ⟨d, next, bind_eq_some_iff.mpr ⟨c, middle, hrun, hrun'⟩, hnext,
      fun h => absurd h hplain⟩

variable {digest : String → String} {scope : String} {paths names : List String}

theorem assign (hfree : Registry.CollisionFree digest scope paths) {path : String}
    (hpath : path ∈ paths) :
    Determined (Registry.Ready digest scope paths names) plain (Issuing.assign path) := by
  refine ⟨Registry.identifier digest scope path, ?_⟩
  intro registry hready
  obtain ⟨id, next, hassign, hdigest, hscope, hfirst⟩ := Registry.exists_assign?
    (hready.digest_eq ▸ hready.scope_eq ▸ hfree) hready.first hpath
  have hextends := Registry.assign?_extends hassign
  have hkept : ∀ other, (registry.get? other).isSome = true →
      (next.get? other).isSome = true := by
    intro other hknown
    obtain ⟨known, hget⟩ := Option.isSome_iff_exists.mp hknown
    rw [hextends other known hget]
    rfl
  have hnext : next.Ready digest scope paths names := {
    digest_eq := hdigest.trans hready.digest_eq
    scope_eq := hscope.trans hready.scope_eq
    first := hfirst
    primitives := fun name hname => hkept _ (hready.primitives name hname)
    types := fun name hname => hkept _ (hready.types name hname) }
  exact ⟨id, next, hassign, hnext,
    fun _ => (hnext.of_get?_eq_some (Registry.get?_assign? hassign)).2⟩

theorem resolve (hnames : ∀ name, typePath name ∈ paths → '/' ∉ name.toList → name ∈ names)
    {type : String} (htype : plain → TypeText.isSlashless type = true) :
    Determined (Registry.Ready digest scope paths names) plain (Assembling.resolve type) := by
  refine ⟨_, fun registry hready => ⟨_, registry, resolve_eq type registry, hready, fun hplain =>
    hready.reference_eq hnames (htype hplain)⟩⟩

end Determined

end Issuing

/-! ## The nodes of a declaration -/

namespace Assembling

section

variable {digest : String → String} {scope : String} {paths names : List String} {plain : Prop}
  (hfree : Registry.CollisionFree digest scope paths)
  (hnames : ∀ name, typePath name ∈ paths → '/' ∉ name.toList → name ∈ names)

include hfree hnames

theorem determined_fieldNode {path : String} (hpath : path ∈ paths) {field : Field}
    (htype : plain → TypeText.isSlashless field.declaredType = true) :
    Determined (Registry.Ready digest scope paths names) plain (fieldNode path field) :=
  (Determined.assign hfree hpath).bind fun _ =>
    (Determined.resolve hnames htype).bind fun _ => .pure _

theorem determined_parameterNodes {path : String} {index : ℕ} {parameters : List Parameter}
    (hpaths : ∀ p ∈ parameterPaths path index parameters, p ∈ paths)
    (htypes : ∀ type ∈ parameters.map Parameter.declaredType,
      plain → TypeText.isSlashless type = true) :
    Determined (Registry.Ready digest scope paths names) plain
      (parameterNodes path index parameters) := by
  induction parameters generalizing index with
  | nil => exact .pure _
  | cons parameter rest ih =>
      obtain ⟨hpath, hrest⟩ := List.forall_mem_cons.mp hpaths
      obtain ⟨htype, htypes⟩ := List.forall_mem_cons.mp htypes
      exact (Determined.assign hfree hpath).bind fun _ =>
        (Determined.resolve hnames htype).bind fun _ => (ih hrest htypes).bind fun _ => .pure _

theorem determined_operationNode {path : String} {operation : Operation}
    (hpaths : ∀ p ∈ issuedOperationPaths path operation, p ∈ paths)
    (htypes : ∀ type ∈ operation.typeTexts, plain → TypeText.isSlashless type = true) :
    Determined (Registry.Ready digest scope paths names) plain (operationNode path operation) := by
  obtain ⟨hpath, hpaths⟩ := List.forall_mem_cons.mp hpaths
  obtain ⟨hparameters, hreturn⟩ := List.forall_mem_append.mp hpaths
  obtain ⟨hparameterTypes, hreturnType⟩ := List.forall_mem_append.mp htypes
  have hresult : Determined (Registry.Ready digest scope paths names) plain
      (returnNode? path operation) := by
    unfold returnNode?
    by_cases hnothing : operation.returnsNothing = true
    · rw [if_pos hnothing]
      exact .pure _
    · rw [if_neg hnothing] at hreturn hreturnType ⊢
      exact (Determined.assign hfree (hreturn _ List.mem_cons_self)).bind fun _ =>
        (Determined.resolve hnames (hreturnType _ List.mem_cons_self)).bind fun _ => .pure _
  exact (Determined.assign hfree hpath).bind fun _ =>
    (determined_parameterNodes hfree hnames hparameters hparameterTypes).bind fun _ =>
      hresult.bind fun _ => .pure _

theorem determined_memberNodes {path : String} {fields operations : ℕ} {members : List Member}
    (hpaths : ∀ p ∈ issuedMemberPaths path fields operations members, p ∈ paths)
    (htypes : ∀ member ∈ members, ∀ type ∈ member.typeTexts,
      plain → TypeText.isSlashless type = true) :
    Determined (Registry.Ready digest scope paths names) plain
      (memberNodes path fields operations members) := by
  induction members generalizing fields operations with
  | nil => exact .pure _
  | cons member rest ih =>
      rw [List.forall_mem_cons] at htypes
      cases member with
      | field field =>
          obtain ⟨hpath, hrest⟩ := List.forall_mem_cons.mp hpaths
          exact (determined_fieldNode hfree hnames hpath (htypes.1 _ List.mem_cons_self)).bind
            fun _ => (ih hrest htypes.2).bind fun _ => .pure _
      | operation operation =>
          obtain ⟨hpath, hrest⟩ := List.forall_mem_append.mp hpaths
          exact (determined_operationNode hfree hnames hpath htypes.1).bind
            fun _ => (ih hrest htypes.2).bind fun _ => .pure _

omit hnames in
theorem determined_namedNodes {path : String → String} {elements : List String}
    (hpaths : ∀ element ∈ elements, path element ∈ paths) :
    Determined (Registry.Ready digest scope paths names) plain (namedNodes path elements) := by
  induction elements with
  | nil => exact .pure _
  | cons element rest ih =>
      obtain ⟨hpath, hrest⟩ := List.forall_mem_cons.mp hpaths
      exact (Determined.assign hfree hpath).bind fun _ => (ih hrest).bind fun _ => .pure _

theorem determined_typeNode {decl : Declaration}
    (hpaths : ∀ p ∈ issuedDeclarationPaths decl, p ∈ paths) :
    Determined (Registry.Ready digest scope paths names) (decl.isSlashless = true)
      (typeNode decl) := by
  obtain ⟨hpath, hpaths⟩ := List.forall_mem_cons.mp hpaths
  obtain ⟨hmembers, hliterals⟩ := List.forall_mem_append.mp hpaths
  have htypes : ∀ member ∈ decl.members, ∀ type ∈ member.typeTexts,
      decl.isSlashless = true → TypeText.isSlashless type = true := by
    intro member hmember type htype hplain
    exact List.all_eq_true.mp (List.all_eq_true.mp hplain member hmember) type htype
  exact (Determined.assign hfree hpath).bind fun _ =>
    (determined_memberNodes hfree hnames hmembers htypes).bind fun _ =>
      (determined_namedNodes hfree (List.forall_mem_map.mp hliterals)).bind fun _ => .pure _

end

/-- The plain declarations of a list have the nodes that are determined for
them. -/
theorem filter_typeNodes {ready : Registry → Prop} {node : Declaration → TypeNode}
    {decls : List Declaration} {nodes : List TypeNode} {registry next : Registry}
    (hnode : ∀ decl ∈ decls, ∀ registry, ready registry → ∃ found next,
      typeNode decl registry = some (found, next) ∧ ready next ∧
        (decl.isSlashless = true → found = node decl))
    (hready : ready registry) (h : typeNodes decls registry = some (nodes, next)) :
    nodes.filter (·.declaration.isSlashless) = (decls.filter Declaration.isSlashless).map node := by
  induction decls generalizing registry nodes next with
  | nil =>
      obtain ⟨rfl, -⟩ := pure_eq_some_iff.mp h
      rfl
  | cons decl decls ih =>
      obtain ⟨first, middle, hfirst, h⟩ := bind_eq_some_iff.mp h
      obtain ⟨rest, last, hrest, h⟩ := bind_eq_some_iff.mp h
      obtain ⟨rfl, -⟩ := pure_eq_some_iff.mp h
      obtain ⟨hdecl, hdecls⟩ := List.forall_mem_cons.mp hnode
      obtain ⟨found, after, hfound, hafter, heq⟩ := hdecl registry hready
      obtain ⟨rfl, rfl⟩ := Prod.mk.inj (Option.some.inj (hfound.symm.trans hfirst))
      have hplain : found.declaration.isSlashless = decl.isSlashless := by
        rw [(typeNode_spec hfirst).2.1, decl.isSlashless_settled]
      rw [List.filter_cons, List.filter_cons, hplain, ih hdecls hafter hrest]
      by_cases hdeclPlain : decl.isSlashless = true
      · rw [if_pos hdeclPlain, if_pos hdeclPlain, List.map_cons, heq hdeclPlain]
      · rw [if_neg hdeclPlain, if_neg hdeclPlain]

/-- A registry is ready once the model, the primitive types and the types are
registered. -/
theorem ready_of_registered {digest : String → String} {scope id : String}
    {paths names registered : List String} {primitives types : List NamedNode}
    {first second third : Registry} (hfree : Registry.CollisionFree digest scope paths)
    (hroot : "model" ∈ paths)
    (hprimitives : ∀ name ∈ TypeText.primitiveNames, primitivePath name ∈ paths)
    (htypes : ∀ name ∈ registered, typePath name ∈ paths)
    (hnames : ∀ name ∈ names, name ∈ registered)
    (hid : assign "model" { scope, digest } = some (id, first))
    (hsecond : namedNodes primitivePath TypeText.primitiveNames first = some (primitives, second))
    (hthird : namedNodes typePath registered second = some (types, third)) :
    third.Ready digest scope paths names := by
  have hrun : Succeeds digest scope paths (do
      let _ ← assign "model"
      let _ ← namedNodes primitivePath TypeText.primitiveNames
      namedNodes typePath registered) :=
    (Succeeds.assign hfree hroot).bind fun _ =>
      (succeeds_namedNodes hfree hprimitives).bind fun _ => succeeds_namedNodes hfree htypes
  obtain ⟨found, next, hfound, hdigest, hscope, hfirst⟩ := hrun { scope, digest } rfl rfl
    (Registry.isFirstTried_start digest scope paths)
  obtain ⟨_, _, hfound', hfound⟩ := bind_eq_some_iff.mp hfound
  obtain ⟨rfl, rfl⟩ := Prod.mk.inj (Option.some.inj (hid.symm.trans hfound'))
  obtain ⟨_, _, hfound', hfound⟩ := bind_eq_some_iff.mp hfound
  obtain ⟨rfl, rfl⟩ := Prod.mk.inj (Option.some.inj (hsecond.symm.trans hfound'))
  obtain ⟨rfl, rfl⟩ := Prod.mk.inj (Option.some.inj (hthird.symm.trans hfound))
  obtain ⟨-, hprimitiveNames, hprimitiveIds⟩ := namedNodes_spec hsecond
  obtain ⟨hextends, htypeNames, htypeIds⟩ := namedNodes_spec hthird
  refine ⟨hdigest, hscope, hfirst, ?_, ?_⟩
  · intro name hname
    rw [← hprimitiveNames] at hname
    obtain ⟨node, hnode, rfl⟩ := List.mem_map.mp hname
    rw [hextends _ _ (hprimitiveIds node hnode)]
    rfl
  · intro name hname
    have hregistered := hnames name hname
    rw [← htypeNames] at hregistered
    obtain ⟨node, hnode, rfl⟩ := List.mem_map.mp hregistered
    rw [htypeIds node hnode]
    rfl

end Assembling

/-! ## Models with the same declarations -/

namespace Model

variable {digest : String → String} {name : String}

/-- The paths of a model without its relationships. -/
def elementPaths (model : Model) : List String :=
  issuedPaths { model with relationships := [] }

theorem mem_elementPaths {model : Model} {path : String} :
    path ∈ model.elementPaths ↔
      path = "model" ∨ (∃ primitive ∈ TypeText.primitiveNames, path = primitivePath primitive) ∨
        ∃ decl ∈ model.types, path ∈ issuedDeclarationPaths decl := by
  simp [elementPaths, issuedPaths, issuedLinkPaths, eq_comm]

theorem elementPaths_subset_paths (model : Model) : model.elementPaths ⊆ model.paths := by
  intro path hpath
  apply model.issuedPaths_subset_paths
  rcases mem_elementPaths.mp hpath with rfl | ⟨primitive, hprimitive, rfl⟩ | ⟨decl, hdecl, hmem⟩
  · exact List.mem_cons_self
  · exact List.mem_cons_of_mem _ (List.mem_append_left _ (List.mem_map_of_mem hprimitive))
  · refine List.mem_cons_of_mem _ (List.mem_append_right _ (List.mem_append_left _ ?_))
    exact List.mem_flatMap.mpr ⟨decl, hdecl, hmem⟩

/-- In an assembled model the plain declarations have the nodes that are
determined for them. -/
theorem filter_types_assembled {model : Model} {paths names : List String}
    {node : Declaration → TypeNode} {assembled : Assembled}
    (hfree : Registry.CollisionFree digest name paths) (hpaths : model.elementPaths ⊆ paths)
    (hnames : names ⊆ model.names)
    (hnode : ∀ decl ∈ model.types, ∀ registry : Registry,
      registry.Ready digest name paths names → ∃ found next,
        typeNode decl registry = some (found, next) ∧ next.Ready digest name paths names ∧
          (decl.isSlashless = true → found = node decl))
    (hassembled : model.assemble? digest name = some assembled) :
    assembled.assembly.types.filter (·.declaration.isSlashless) =
      (model.types.filter Declaration.isSlashless).map node := by
  obtain ⟨⟨⟨assembly, dropped⟩, registry⟩, hrun, rfl⟩ := Option.map_eq_some_iff.mp hassembled
  obtain ⟨id, first, hid, hrun⟩ := bind_eq_some_iff.mp hrun
  obtain ⟨primitives, second, hprimitives, hrun⟩ := bind_eq_some_iff.mp hrun
  obtain ⟨registered, third, hregistered, hrun⟩ := bind_eq_some_iff.mp hrun
  obtain ⟨types, fourth, htypes, hrun⟩ := bind_eq_some_iff.mp hrun
  obtain ⟨⟨links, others⟩, last, -, hrun⟩ := bind_eq_some_iff.mp hrun
  obtain ⟨heq, rfl⟩ := pure_eq_some_iff.mp hrun
  obtain ⟨rfl, rfl⟩ := Prod.mk.inj heq
  have htypePaths : ∀ typeName ∈ model.names, typePath typeName ∈ paths := by
    intro typeName hmem
    obtain ⟨decl, hdecl, rfl⟩ := List.mem_map.mp hmem
    exact hpaths (mem_elementPaths.mpr (Or.inr (Or.inr ⟨decl, hdecl, List.mem_cons_self⟩)))
  have hready : third.Ready digest name paths names := ready_of_registered hfree
    (hpaths (mem_elementPaths.mpr (Or.inl rfl)))
    (fun primitive hmem =>
      hpaths (mem_elementPaths.mpr (Or.inr (Or.inl ⟨primitive, hmem, rfl⟩))))
    htypePaths hnames hid hprimitives hregistered
  exact filter_typeNodes hnode hready htypes

/-- If two models have the same declarations and no two paths have the same
digest, the plain declarations have the same nodes in both. -/
theorem slashless_types_perm {model other : Model} (htypes : model.types.Perm other.types)
    (hfree : Registry.CollisionFree digest name model.paths) {assembled twin : Assembled}
    (hassembled : model.assemble? digest name = some assembled)
    (htwin : other.assemble? digest name = some twin) :
    (assembled.assembly.types.filter (·.declaration.isSlashless)).Perm
      (twin.assembly.types.filter (·.declaration.isSlashless)) := by
  have hfree' : Registry.CollisionFree digest name model.elementPaths :=
    fun path hpath other hother =>
      hfree path (model.elementPaths_subset_paths hpath) other
        (model.elementPaths_subset_paths hother)
  have hknown : ∀ typeName, typePath typeName ∈ model.elementPaths → '/' ∉ typeName.toList →
      typeName ∈ model.names :=
    fun typeName hpath hslash => (mem_names_of_mem_issuedPaths hpath hslash :)
  have hdetermined : ∀ decl ∈ model.types, ∃ node : TypeNode, ∀ registry : Registry,
      registry.Ready digest name model.elementPaths model.names → ∃ found next,
        typeNode decl registry = some (found, next) ∧
          next.Ready digest name model.elementPaths model.names ∧
          (decl.isSlashless = true → found = node) := by
    intro decl hdecl
    exact determined_typeNode hfree' hknown fun path hpath =>
      mem_elementPaths.mpr (Or.inr (Or.inr ⟨decl, hdecl, hpath⟩))
  have hinhabited : Nonempty TypeNode := ⟨⟨"", "", .class, "", false, none, [], [], [], []⟩⟩
  choose! node hnode using hdetermined
  have hpaths : other.elementPaths ⊆ model.elementPaths := by
    intro path hpath
    rw [mem_elementPaths] at hpath ⊢
    simpa only [htypes.mem_iff] using hpath
  have hnames : model.names ⊆ other.names := (htypes.map Declaration.name).subset
  rw [filter_types_assembled hfree' (List.Subset.refl _) (List.Subset.refl _) hnode hassembled,
    filter_types_assembled hfree' hpaths hnames
      (fun decl hdecl => hnode decl (htypes.mem_iff.mpr hdecl)) htwin]
  exact (htypes.filter _).map node

end Model

end ClassAtlas
