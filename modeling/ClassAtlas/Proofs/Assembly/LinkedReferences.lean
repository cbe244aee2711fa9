import ClassAtlas.Proofs.InferenceExactness
import ClassAtlas.Proofs.Assembly.TypeReferences

/-!
# Inferred links and resolved references

Whether a field refers to a declared type is decided twice: inference asks the
index of the model, and assembling looks up a path in the registry, after a
test for primitive types. The two agree where no type has the name of a
primitive type and no field names something with a slash.

A reference is resolved in the middle of a run, so what is looked up is known
only from what was issued before and what is issued in the end.
`ResolvedBetween` records the two ends, and `Model.Consistent.type_eq_declared_iff`
shows that they settle the reference.
-/

namespace ClassAtlas

open Assembling Issuing Inference

/-- The type of the field was resolved somewhere between two registries. -/
def ResolvedBetween (first last : Registry) (node : FieldNode) : Prop :=
  ∃ middle : Registry, middle.Extends first ∧ last.Extends middle ∧
    node.type = reference middle node.field.declaredType

theorem ResolvedBetween.mono {first first' last last' : Registry} {node : FieldNode}
    (h : ResolvedBetween first last node) (hfirst : first.Extends first')
    (hlast : last'.Extends last) : ResolvedBetween first' last' node := by
  obtain ⟨middle, hbefore, hafter, htype⟩ := h
  exact ⟨middle, hbefore.trans hfirst, hlast.trans hafter, htype⟩

/-! ## The fields of a run -/

namespace Assembling

variable {registry next : Registry}

theorem resolvedBetween_fieldNode {path : String} {field : Field} {node : FieldNode}
    (h : fieldNode path field registry = some (node, next)) :
    ResolvedBetween registry next node := by
  obtain ⟨id, middle, hid, h⟩ := bind_eq_some_iff.mp h
  obtain ⟨type, last, htype, h⟩ := bind_eq_some_iff.mp h
  obtain ⟨rfl, rfl⟩ := pure_eq_some_iff.mp h
  obtain ⟨hfound, rfl⟩ := resolve_spec htype
  exact ⟨_, (assign_spec hid).1, Registry.Extends.refl _, hfound⟩

theorem resolvedBetween_memberNodes {path : String} {fields operations : ℕ}
    {members : List Member} {nodes : List MemberNode}
    (h : memberNodes path fields operations members registry = some (nodes, next)) :
    ∀ node, .field node ∈ nodes → ResolvedBetween registry next node := by
  induction members generalizing fields operations registry nodes with
  | nil =>
      obtain ⟨rfl, rfl⟩ := pure_eq_some_iff.mp h
      intro node hnode
      contradiction
  | cons member rest ih =>
      cases member with
      | field field =>
          obtain ⟨first, middle, hfirst, h⟩ := bind_eq_some_iff.mp h
          obtain ⟨more, last, hmore, h⟩ := bind_eq_some_iff.mp h
          obtain ⟨rfl, rfl⟩ := pure_eq_some_iff.mp h
          have hextends := (fieldNode_spec hfirst).1
          have hextends' := (memberNodes_spec hmore).1
          intro node hnode
          rcases List.mem_cons.mp hnode with heq | hrest
          · obtain rfl := MemberNode.field.inj heq
            exact (resolvedBetween_fieldNode hfirst).mono (Registry.Extends.refl _) hextends'
          · exact (ih hmore node hrest).mono hextends (Registry.Extends.refl _)
      | operation operation =>
          obtain ⟨first, middle, hfirst, h⟩ := bind_eq_some_iff.mp h
          obtain ⟨more, last, hmore, h⟩ := bind_eq_some_iff.mp h
          obtain ⟨rfl, rfl⟩ := pure_eq_some_iff.mp h
          have hextends := (operationNode_spec hfirst).1
          intro node hnode
          rcases List.mem_cons.mp hnode with heq | hrest
          · contradiction
          · exact (ih hmore node hrest).mono hextends (Registry.Extends.refl _)

theorem resolvedBetween_typeNode {decl : Declaration} {node : TypeNode}
    (h : typeNode decl registry = some (node, next)) :
    ∀ field ∈ node.fields, ResolvedBetween registry next field := by
  obtain ⟨id, first, hid, h⟩ := bind_eq_some_iff.mp h
  obtain ⟨members, second, hmembers, h⟩ := bind_eq_some_iff.mp h
  obtain ⟨literals, last, hliterals, h⟩ := bind_eq_some_iff.mp h
  obtain ⟨rfl, rfl⟩ := pure_eq_some_iff.mp h
  intro field hfield
  have hmember : .field field ∈ members := by
    obtain ⟨member, hmember, heq⟩ := List.mem_filterMap.mp hfield
    cases member with
    | field found =>
        obtain rfl := Option.some.inj heq
        exact hmember
    | operation operation => contradiction
  exact (resolvedBetween_memberNodes hmembers field hmember).mono (assign_spec hid).1
    (namedNodes_spec hliterals).1

theorem resolvedBetween_typeNodes {decls : List Declaration} {nodes : List TypeNode}
    (h : typeNodes decls registry = some (nodes, next)) :
    ∀ node ∈ nodes, ∀ field ∈ node.fields, ResolvedBetween registry next field := by
  induction decls generalizing registry nodes with
  | nil =>
      obtain ⟨rfl, rfl⟩ := pure_eq_some_iff.mp h
      simp
  | cons decl rest ih =>
      obtain ⟨first, middle, hfirst, h⟩ := bind_eq_some_iff.mp h
      obtain ⟨more, last, hmore, h⟩ := bind_eq_some_iff.mp h
      obtain ⟨rfl, rfl⟩ := pure_eq_some_iff.mp h
      refine List.forall_mem_cons.mpr ⟨?_, ?_⟩
      · intro field hfield
        exact (resolvedBetween_typeNode hfirst field hfield).mono (Registry.Extends.refl _)
          (typeNodes_spec hmore).1
      · intro node hnode field hfield
        exact (ih hmore node hnode field hfield).mono (typeNode_spec hfirst).1
          (Registry.Extends.refl _)

end Assembling

/-! ## What a field refers to -/

theorem Assembling.reference_eq_declared_iff {registry : Registry} {type id typeName : String} :
    reference registry type = .declared id typeName ↔
      typeName = referredName type ∧
        (typeName ∈ TypeText.primitiveNames → registry.get? (primitivePath typeName) = none) ∧
        registry.get? (typePath typeName) = some id := by
  have hnone : (if TypeText.isPrimitive (referredName type) then
      registry.get? (primitivePath (referredName type)) else none) = none ↔
      (referredName type ∈ TypeText.primitiveNames →
        registry.get? (primitivePath (referredName type)) = none) := by
    rw [ite_eq_right_iff, TypeText.isPrimitive, List.contains_iff_mem]
  unfold reference
  dsimp only
  rw [← referredName]
  split
  next known hknown =>
    constructor
    · intro heq
      cases heq
    · rintro ⟨rfl, hother, -⟩
      exact absurd (hknown.symm.trans (hnone.mpr hother)) (Option.some_ne_none known)
  next hother =>
    split
    next known hknown =>
      rw [Reference.declared.injEq]
      constructor
      · rintro ⟨rfl, rfl⟩
        exact ⟨rfl, hnone.mp hother, hknown⟩
      · rintro ⟨rfl, -, hid⟩
        exact ⟨Option.some.inj (hknown.symm.trans hid), rfl⟩
    next hunknown =>
      constructor
      · intro heq
        cases heq
      · rintro ⟨rfl, -, hid⟩
        exact absurd (hid.symm.trans hunknown) (Option.some_ne_none id)

namespace Model

variable {model : Model} {digest : String → String} {name : String}

/-- A field whose type text names nothing with a slash refers to a declared
type exactly if its name is one of the model's and no primitive type's. -/
theorem Consistent.type_eq_declared_iff (h : model.Consistent) {assembled : Assembled}
    (hassembled : model.assemble? digest name = some assembled)
    {node : TypeNode} (hnode : node ∈ assembled.assembly.types)
    {field : FieldNode} (hfield : field ∈ node.fields)
    (hplain : '/' ∉ (referredName field.field.declaredType).toList) {id typeName : String} :
    field.type = .declared id typeName ↔
      typeName = referredName field.field.declaredType ∧
        typeName ∉ TypeText.primitiveNames ∧ typeName ∈ model.names ∧
        assembled.registry.get? (typePath typeName) = some id := by
  obtain ⟨first, last, hrun, hextends, hprimitives, htypes⟩ := h.exists_typeNodes hassembled
  obtain ⟨middle, hbefore, hafter, htype⟩ :=
    (resolvedBetween_typeNodes hrun node hnode field hfield).mono (Registry.Extends.refl first)
      hextends
  rw [htype, reference_eq_declared_iff]
  refine and_congr_right ?_
  rintro rfl
  constructor
  · rintro ⟨hother, hget⟩
    -- a primitive type is registered from the start, a path that is found at all in the end
    have hlast := hafter _ _ hget
    have hpath := (((h.issued hassembled).known _).mp (Option.isSome_of_eq_some hlast)).resolve_left
      (by simp [Registry.get?])
    refine ⟨fun hprimitive => ?_, mem_names_of_mem_issuedPaths hpath hplain, hlast⟩
    obtain ⟨known, hknown⟩ := Option.isSome_iff_exists.mp (hprimitives _ hprimitive)
    rw [hbefore _ _ hknown] at hother
    exact absurd (hother hprimitive) (Option.some_ne_none known)
  · rintro ⟨hother, hmodeled, hlast⟩
    refine ⟨fun hprimitive => absurd hprimitive hother, ?_⟩
    obtain ⟨known, hknown⟩ := Option.isSome_iff_exists.mp (htypes _ hmodeled)
    have hget := hbefore _ _ hknown
    rw [hget, ← hlast, hafter _ _ hget]

/-- The node of a declaration has the fields of the declaration. -/
theorem fields_eq_of_declaration {node : TypeNode} {decl : Declaration}
    (h : node.declaration = decl.settled) : node.fields.map FieldNode.field = decl.fields := by
  rw [← TypeNode.fields_declaration, h, Declaration.fields, Declaration.fields,
    Declaration.settled, List.filterMap_map]
  congr 1
  funext member
  cases member <;> rfl

end Model

/-- The label, target and identifier of the target of a link. -/
def LinkNode.pointer (node : LinkNode) : Option String × String × String :=
  (node.relationship.label, node.relationship.target, node.targetId)

/-- The name of a field with the name and identifier of the declared type that
it refers to, if that is another one than `owner`. -/
def FieldNode.pointer? (owner : String) (node : FieldNode) :
    Option (Option String × String × String) :=
  match node.type with
  | .declared id name => if name = owner then none else some (some node.field.name, name, id)
  | .primitive _ _ | .external _ => none

namespace Model

variable {model : Model} {digest : String → String} {name : String} {assembled : Assembled}

/-- A field points at the type that inference finds for it. -/
theorem Consistent.pointer?_eq (h : model.Consistent)
    (hprimitives : ∀ typeName ∈ model.names, typeName ∉ TypeText.primitiveNames)
    (hassembled : model.assemble? digest name = some assembled)
    {node : TypeNode} (hnode : node ∈ assembled.assembly.types)
    {field : FieldNode} (hfield : field ∈ node.fields)
    (hplain : '/' ∉ (referredName field.field.declaredType).toList) (owner : String) :
    field.pointer? owner =
      (referent? model owner field.field.declaredType).map fun target =>
        (some field.field.name, target,
          (assembled.registry.get? (typePath target)).getD "") := by
  have hdescribes := h.describes hassembled
  have hdeclared : ∀ id typeName, field.type = .declared id typeName ↔
      typeName = referredName field.field.declaredType ∧
        typeName ∉ TypeText.primitiveNames ∧ typeName ∈ model.names ∧
        assembled.registry.get? (typePath typeName) = some id :=
    fun id typeName => h.type_eq_declared_iff hassembled hnode hfield hplain
  rw [referent?_eq h, FieldNode.pointer?]
  by_cases hmodeled : referredName field.field.declaredType ∈ model.names
  · obtain ⟨decl, hdecl, hname⟩ := List.mem_map.mp hmodeled
    obtain ⟨target, htarget, -, htargetDecl⟩ := hdescribes.exists_find? h hdecl
    have htargetName : target.name = referredName field.field.declaredType :=
      (congrArg Declaration.name htargetDecl).trans hname
    have hid := hdescribes.type_id target htarget
    rw [htargetName] at hid
    rw [(hdeclared target.id _).mpr ⟨rfl, hprimitives _ hmodeled, hmodeled, hid⟩]
    dsimp only
    by_cases howner : referredName field.field.declaredType = owner
    · rw [if_pos howner, if_neg fun hother => hother.2 howner]
      rfl
    · rw [if_neg howner, if_pos ⟨hmodeled, howner⟩, Option.map_some, hid, Option.getD_some]
  · rw [if_neg fun hother => hmodeled hother.1]
    cases htype : field.type with
    | primitive id typeName => rfl
    | external typeName => rfl
    | declared id typeName =>
        obtain ⟨rfl, -, hmem, -⟩ := (hdeclared id typeName).mp htype
        exact absurd hmem hmodeled

/-- The links that inference finds for the fields of a type are the references
of those fields that lead to other declared types: in the assembled model, the
structural ones of each type have the same labels, targets and identifiers, in
the same order. -/
theorem inferred_links_match_references (options : Options) {model : Model}
    (h : model.Consistent)
    (hprimitives : ∀ typeName ∈ model.names, typeName ∉ TypeText.primitiveNames)
    (hplain : ∀ decl ∈ model.types, ∀ field ∈ decl.fields,
      '/' ∉ TypeText.baseName field.declaredType.toList)
    (digest : String → String) (name : String) :
    let linked := (apply options model).1
    (Registry.CollisionFree digest name linked.paths →
      (linked.assemble? digest name).isSome = true) ∧
    ∀ assembled, linked.assemble? digest name = some assembled →
      let inferred := assembled.assembly.links.drop model.relationships.length
      inferred.map LinkNode.relationship = infer options model ∧
      ∀ decl ∈ model.types, ∃ node, assembled.assembly.find? decl.name = some node ∧
        (inferred.filter fun link => link.relationship.kind.isStructural ∧
          link.relationship.source = decl.name).map LinkNode.pointer =
        node.fields.filterMap (FieldNode.pointer? decl.name) := by
  intro linked
  refine ⟨isSome_assemble?, fun assembled hassembled => ?_⟩
  intro inferred
  have hlinked : linked.Consistent := h.apply options
  have hdescribes := hlinked.describes hassembled
  have hsame : linked = { model with
      relationships := model.relationships ++ infer options model } := apply_eq options h
  have hinferred : inferred.map LinkNode.relationship = infer options model := by
    rw [List.map_drop, hdescribes.links_eq, hsame, List.drop_left]
  refine ⟨hinferred, fun decl hdecl => ?_⟩
  have hlinkedDecl : decl ∈ linked.types := by
    rwa [hsame]
  obtain ⟨node, hnode, hfind, hdeclaration⟩ := hdescribes.exists_find? hlinked hlinkedDecl
  refine ⟨node, hfind, ?_⟩
  have hfields := fields_eq_of_declaration hdeclaration
  -- both sides are what the fields give, with the identifiers of the registry in the end
  have hlinks : (inferred.filter fun link => link.relationship.kind.isStructural ∧
      link.relationship.source = decl.name).map LinkNode.pointer =
      (fieldLinks options model decl).map fun link => (link.label, link.target,
        (assembled.registry.get? (typePath link.target)).getD "") := by
    rw [← structural_of_infer h hdecl, ← hinferred, List.filter_map, List.map_map]
    refine List.map_congr_left fun link hlink => ?_
    have htarget := hdescribes.target_id link (List.mem_of_mem_drop (List.mem_of_mem_filter hlink))
    rw [LinkNode.pointer, Function.comp_apply, htarget, Option.getD_some]
  have hpointers : ∀ field ∈ node.fields, field.pointer? decl.name =
      (referent? model decl.name field.field.declaredType).map fun target =>
        (some field.field.name, target,
          (assembled.registry.get? (typePath target)).getD "") := by
    intro field hfield
    have hmem : field.field ∈ decl.fields := by
      rw [← hfields]
      exact List.mem_map_of_mem hfield
    have hslash : '/' ∉ (referredName field.field.declaredType).toList := by
      rw [referredName, String.toList_ofList]
      exact hplain decl hdecl field.field hmem
    rw [hlinked.pointer?_eq (by rwa [hsame]) hassembled hnode hfield hslash, hsame]
    rfl
  rw [hlinks, List.filterMap_congr hpointers, fieldLinks, List.map_filterMap, ← hfields,
    List.filterMap_map]
  simp only [Option.map_map, Function.comp_def]

/-- A type that refers to another one, to itself, to a primitive type and to an
unknown one. -/
def chart : Model where
  name := "chart"
  types := [
    { name := "Axis"
      kind := .«class»
      members := [
        .field ⟨"ticks", "List<Tick>", .«private», false, true⟩,
        .field ⟨"length", "double", .«private», false, false⟩,
        .field ⟨"twin", "Axis", .«private», false, false⟩,
        .field ⟨"origin", "plot.Tick", .«private», false, false⟩,
        .field ⟨"font", "Font", .«private», false, false⟩] },
    { name := "Tick", kind := .«class» }]
  index := [("Tick", 1), ("Axis", 0)]
  relationships := [{ source := "Axis", target := "Tick", kind := .association }]

theorem inferred_links_match_references_chart :
    chart.Consistent ∧ (∀ typeName ∈ chart.names, typeName ∉ TypeText.primitiveNames) ∧
      (∀ decl ∈ chart.types, ∀ field ∈ decl.fields,
        '/' ∉ TypeText.baseName field.declaredType.toList) ∧
      ∃ assembled node, (apply {} chart).1.assemble? id "chart" = some assembled ∧
        assembled.assembly.find? "Axis" = some node ∧
        ((assembled.assembly.links.drop 1).filter fun link =>
          link.relationship.kind.isStructural ∧
            link.relationship.source = "Axis").map LinkNode.pointer = [
          (some "ticks", "Tick", "_chart|type/Tick"),
          (some "origin", "Tick", "_chart|type/Tick")] ∧
        node.fields.filterMap (FieldNode.pointer? "Axis") = [
          (some "ticks", "Tick", "_chart|type/Tick"),
          (some "origin", "Tick", "_chart|type/Tick")] := by
  have hconsistent : chart.Consistent :=
    ⟨@indexes_indexOf chart.types (by decide), by decide⟩
  have hprimitives : ∀ typeName ∈ chart.names, typeName ∉ TypeText.primitiveNames := by decide
  have hplain : ∀ decl ∈ chart.types, ∀ field ∈ decl.fields,
      '/' ∉ TypeText.baseName field.declaredType.toList := by decide +kernel
  obtain ⟨hsome, hmatch⟩ :=
    inferred_links_match_references {} hconsistent hprimitives hplain id "chart"
  obtain ⟨assembled, hassembled⟩ := Option.isSome_iff_exists.mp
    (hsome (Registry.collisionFree_of_injective Function.injective_id _ _))
  obtain ⟨-, hlinks⟩ := hmatch assembled hassembled
  obtain ⟨node, hfind, hpointers⟩ := hlinks _ List.mem_cons_self
  have hfound : ((apply {} chart).1.assemble? id "chart").map (fun assembled =>
      (assembled.assembly.find? "Axis").map fun node =>
        node.fields.filterMap (FieldNode.pointer? "Axis")) = some (some [
          (some "ticks", "Tick", "_chart|type/Tick"),
          (some "origin", "Tick", "_chart|type/Tick")]) := by decide +kernel
  rw [hassembled, Option.map_some, Option.some.injEq,
    show assembled.assembly.find? "Axis" = some node from hfind, Option.map_some,
    Option.some.injEq] at hfound
  exact ⟨hconsistent, hprimitives, hplain, assembled, node, hassembled, hfind,
    hpointers.trans hfound, hfound⟩

end Model

end ClassAtlas
