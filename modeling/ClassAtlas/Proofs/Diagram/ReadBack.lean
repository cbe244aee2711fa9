import ClassAtlas.Proofs.InferredLinks
import ClassAtlas.Proofs.Diagram.Documents

/-!
# Reading a rendered model back

For a model that a diagram can hold, with the relationships that inference
gives, rendering and reading are inverse up to packages, the order of members
and the members above the limits. The relationships that state supertypes stand
in the headers; all others are drawn as links that can be read.
-/

namespace ClassAtlas

open Diagram Text TypeText

/-! ## What assembling keeps of a readable declaration -/

theorem Operation.Readable.settled_eq {operation : Operation} (h : operation.Readable) :
    operation.settled = operation := by
  have hfilled : operation.returnType.toList.all isBlank = false := by
    obtain ⟨c, rest, hchars⟩ := List.exists_cons_of_ne_nil h.type.ne_nil
    have hblank : isBlank c = false := by
      have hstops := h.type.trimmed.1
      rw [hchars] at hstops
      exact stops_cons.mp hstops
    rw [hchars, List.all_cons, hblank, Bool.false_and]
  unfold Operation.settled
  split
  next hnothing =>
    rw [Operation.returnsNothing, hfilled, Bool.false_or, beq_iff_eq] at hnothing
    rw [← hnothing]
  next => rfl

theorem Declaration.Readable.settled_eq {decl : Declaration} (h : decl.Readable) :
    decl.settled = decl := by
  have hmembers : ∀ member ∈ decl.members, member.settled = member := by
    intro member hmember
    cases member with
    | field field => rfl
    | operation operation =>
        have hoperation : operation ∈ decl.operations :=
          List.mem_filterMap.mpr ⟨.operation operation, hmember, rfl⟩
        rw [Member.settled, (h.operations operation hoperation).settled_eq]
  rw [Declaration.settled, List.map_congr_left hmembers, List.map_id']

namespace Assembled.Describes

variable {assembled : Assembled} {name : String} {model : Model}

theorem declarations_eq_types (h : assembled.Describes name model)
    (hreadable : ∀ decl ∈ model.types, decl.Readable) :
    assembled.assembly.types.map TypeNode.declaration = model.types := by
  rw [h.declarations_eq, List.map_congr_left fun decl hdecl => (hreadable decl hdecl).settled_eq,
    List.map_id']

theorem readable (h : assembled.Describes name model)
    (hreadable : ∀ decl ∈ model.types, decl.Readable) :
    ∀ node ∈ assembled.assembly.types, node.declaration.Readable := by
  intro node hnode
  apply hreadable
  rw [← h.declarations_eq_types hreadable]
  exact List.mem_map_of_mem hnode

theorem map_shown (h : assembled.Describes name model)
    (hreadable : ∀ decl ∈ model.types, decl.Readable) (options : RenderOptions) :
    (assembled.assembly.types.map fun node => node.declaration.shown options) =
      model.types.map fun decl => decl.shown options := by
  rw [← h.declarations_eq_types hreadable, List.map_map]
  rfl

end Assembled.Describes

/-! ## Which links are drawn -/

/-- A supertype that was inferred stands in the block of its declaration. -/
theorem statedByBlock_supertype {assembly : Assembly} {decl : Declaration} {node : TypeNode}
    (hfind : assembly.find? decl.name = some node) (hnode : node.declaration = decl)
    {target : String} {kind : RelationshipKind}
    (h : (target, kind) ∈ Inference.supertypes decl) :
    statedByBlock assembly { source := decl.name, target, kind } = true := by
  subst hnode
  rw [statedByBlock, hfind]
  rcases List.mem_append.mp h with hextended | himplemented
  · obtain ⟨parent, hparent, heq⟩ := List.mem_map.mp hextended
    obtain ⟨rfl, rfl⟩ := Prod.mk.inj heq
    exact List.contains_iff_mem.mpr hparent
  · obtain ⟨contract, hcontract, heq⟩ := List.mem_map.mp himplemented
    obtain ⟨rfl, rfl⟩ := Prod.mk.inj heq
    exact List.contains_iff_mem.mpr hcontract

theorem isSupertypeKind_classify (options : Inference.Options) (field : Field) :
    isSupertypeKind (Inference.classify options field) = false := by
  unfold Inference.classify
  dsimp only
  repeat' split
  all_goals rfl

theorem multiplicity?_cases (type : List Char) :
    multiplicity? type = none ∨ multiplicity? type = some "*" := by
  unfold multiplicity?
  split
  · exact Or.inr rfl
  · exact Or.inl rfl

/-- What is inferred and not stated by a block is drawn as a readable link. -/
theorem Assembled.Describes.drawn {assembled : Assembled} {name : String} {model : Model}
    {options : Inference.Options}
    (h : assembled.Describes name (Inference.apply options model).1)
    (hmodel : model.Consistent) (hlinks : model.relationships = [])
    (hreadable : ∀ decl ∈ model.types, decl.Readable) :
    ∀ link ∈ drawnLinks assembled.assembly, Drawn link := by
  intro link hlink
  obtain ⟨hmem, hstated⟩ := List.mem_filter.mp hlink
  have hinferred : link ∈ Inference.infer options model := by
    rw [h.links_eq, Inference.relationships_apply options hmodel hlinks] at hmem
    exact hmem
  obtain ⟨decl, hdecl, horigin⟩ := Inference.exists_origin hinferred
  have hname : ∀ typeName, model.contains typeName = true → IsName typeName.toList := by
    intro typeName hcontains
    obtain ⟨other, hother, rfl⟩ := List.mem_map.mp (hmodel.contains_iff.mp hcontains)
    exact isName_of_isTypeName (hreadable other hother).identifier
  have hsource : IsName decl.name.toList := isName_of_isTypeName (hreadable decl hdecl).identifier
  cases horigin with
  | field hfield htarget =>
      exact {
        source := hsource
        target := hname _ htarget
        kind := isSupertypeKind_classify options _
        label := ⟨_, rfl, ((hreadable decl hdecl).fields _ hfield).isName⟩
        multiplicity := multiplicity?_cases _ }
  | operation hoperation htarget =>
      exact {
        source := hsource
        target := hname _ htarget
        kind := rfl
        label := ⟨_, rfl, ((hreadable decl hdecl).operations _ hoperation).isName⟩
        multiplicity := Or.inl rfl }
  | supertype hsupertype htarget =>
      have hdecl' : decl ∈ (Inference.apply options model).1.types := by
        rw [Inference.types_apply options hmodel]
        exact hdecl
      obtain ⟨node, -, hfind, hnode⟩ := h.exists_find? (hmodel.apply options) hdecl'
      rw [(hreadable decl hdecl).settled_eq] at hnode
      rw [statedByBlock_supertype hfind hnode hsupertype] at hstated
      contradiction

/-- Reading a rendered model gives its declarations as the diagram shows them,
and links that were drawn; no problem is met. -/
theorem exists_read_assembled {assembled : Assembled} {name : String} {model : Model}
    {inference : Inference.Options} {options : RenderOptions}
    (h : assembled.Describes name (Inference.apply inference model).1)
    (hmodel : model.Consistent) (hlinks : model.relationships = [])
    (hreadable : ∀ decl ∈ model.types, decl.Readable)
    (hstyle : options.inheritance = .headerClauses)
    (htitle : '\n' ∉ (options.title.getD name).toList) (unit : String) :
    ∃ found : List Relationship, found.Sublist (drawnLinks assembled.assembly) ∧
      Diagram.read unit (render options assembled.assembly).toList = {
        types := model.types.map fun decl => decl.shown options
        relationships := found } := by
  have htypes := Inference.types_apply inference hmodel
  have hlinkedReadable : ∀ decl ∈ (Inference.apply inference model).1.types, decl.Readable := by
    rw [htypes]
    exact hreadable
  rw [← htypes, ← h.map_shown hlinkedReadable]
  refine exists_read_render hstyle ?_ (h.readable hlinkedReadable)
    (h.drawn hmodel hlinks hreadable) unit
  rw [titleOf, h.name_eq]
  exact htitle

/-- Rendering and reading are inverse on models that a diagram can hold. Every
declaration comes back with its name, kind, supertypes and literals, and with
the attributes and operations that the diagram shows. -/
theorem read_render_eq_shown (model : Model) (inference : Inference.Options)
    (options : RenderOptions) (digest : String → String) (name unit : String)
    (hmodel : model.Consistent) (hlinks : model.relationships = [])
    (hreadable : ∀ decl ∈ model.types, decl.Readable)
    (hstyle : options.inheritance = .headerClauses)
    (htitle : '\n' ∉ (options.title.getD name).toList) :
    let linked := (Inference.apply inference model).1
    (Registry.CollisionFree digest name linked.paths →
      (linked.assemble? digest name).isSome = true) ∧
    ∀ assembled, linked.assemble? digest name = some assembled →
      let found := Diagram.read unit (render options assembled.assembly).toList
      found.problems = [] ∧ found.package = "" ∧
        found.types = model.types.map fun decl => decl.shown options := by
  intro linked
  refine ⟨fun hfree => Assembling.isSome_assemble? hfree, ?_⟩
  intro assembled hassembled
  have hdescribes := (hmodel.apply inference).describes hassembled
  obtain ⟨found, -, hread⟩ :=
    exists_read_assembled hdescribes hmodel hlinks hreadable hstyle htitle unit
  intro result
  rw [show result = _ from hread]
  exact ⟨rfl, rfl, rfl⟩

/-- Declarations of every kind. -/
def sampleTypes : List Declaration := [
  { name := "Shape"
    kind := .interface
    extendedInterfaces := ["Named", "Drawable"]
    members := [.operation { name := "area", returnType := "double", isAbstract := true }] },
  { name := "Circle"
    kind := .«class»
    package := "geometry"
    isAbstract := true
    superclass := some "Curve"
    implementedInterfaces := ["Shape", "Serializable"]
    members := [
      .operation { name := "addTo", parameters := [⟨"groups", "Map<String, Color[]>"⟩] },
      .field ⟨"parts", "List<Shape>", .«private», false, true⟩,
      .field ⟨"COUNT", "int", .«public», true, false⟩] },
  { name := "Color"
    kind := .enumeration
    implementedInterfaces := ["Named"]
    literals := ["RED", "DARK_BLUE"] }]

/-- A model of the sample declarations. -/
def sampleModel : Model :=
  sampleTypes.foldl Model.insert { name := "Sample" }

theorem consistent_sampleModel : sampleModel.Consistent :=
  (Model.consistent_new "Sample").foldl_edit (sampleTypes.map .insert)

theorem readable_sampleModel : ∀ decl ∈ sampleModel.types, decl.Readable := by
  decide

theorem read_render_sampleModel :
    let linked := (Inference.apply {} sampleModel).1
    let options : RenderOptions := { maxFields := some 1 }
    (linked.assemble? id "Sample").isSome = true ∧
    ∀ assembled, linked.assemble? id "Sample" = some assembled →
      let found := Diagram.read "sample.puml" (render options assembled.assembly).toList
      found.problems = [] ∧ found.package = "" ∧
        found.types = sampleModel.types.map fun decl => decl.shown options := by
  have h := read_render_eq_shown sampleModel {} { maxFields := some 1 } id "Sample" "sample.puml"
    consistent_sampleModel rfl readable_sampleModel rfl (by decide)
  exact ⟨h.1 (Registry.collisionFree_of_injective Function.injective_id _ _), h.2⟩

end ClassAtlas
