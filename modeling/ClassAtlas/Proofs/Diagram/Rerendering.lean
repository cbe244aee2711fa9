import ClassAtlas.Proofs.Runs
import ClassAtlas.Proofs.Diagram.ReadBack

/-!
# Converting a rendered diagram

Without limits on members, a diagram depends only on the declarations as it
shows them, on the relationships and on the title. Converting a rendered
diagram gives declarations that show the same, from which the same
relationships are inferred in the same order. The links that the diagram draws
are among them, so merging them in changes nothing, and rendering the result
gives the same text again.
-/

namespace ClassAtlas

open Diagram

/-! ## Members of a shown declaration -/

theorem Diagram.keptUnder_keptUnder {α : Type} (limit : Option ℕ) (items : List α) :
    keptUnder limit (keptUnder limit items) = keptUnder limit items := by
  cases limit with
  | none => rfl
  | some max => simp [keptUnder, List.take_take]

namespace Declaration

variable (decl : Declaration) (options : RenderOptions)

theorem fields_shown :
    (decl.shown options).fields = keptUnder options.maxFields decl.fields := by
  simp [fields, shown, List.filterMap_map, Function.comp_def, Member.field?]

theorem operations_shown :
    (decl.shown options).operations = keptUnder options.maxOperations decl.operations := by
  simp [operations, shown, List.filterMap_map, Function.comp_def, Member.operation?]

/-- Showing a declaration again leaves out nothing more. -/
theorem shown_shown : (decl.shown options).shown options = decl.shown options := by
  have hmembers : ((decl.shown options).shown options).members =
      (decl.shown options).members := by
    rw [shown, fields_shown, operations_shown, keptUnder_keptUnder, keptUnder_keptUnder]
    rfl
  rw [shown, shown] at hmembers ⊢
  dsimp only at hmembers ⊢
  rw [hmembers]

variable {decl}

theorem Readable.shown (h : decl.Readable) : (decl.shown options).Readable where
  identifier := h.identifier
  supertypes := h.supertypes
  lawful := { h.lawful with }
  fields := by
    intro field hfield
    rw [fields_shown] at hfield
    exact h.fields field (mem_of_mem_keptUnder hfield)
  operations := by
    intro operation hoperation
    rw [operations_shown] at hoperation
    exact h.operations operation (mem_of_mem_keptUnder hoperation)
  literals := h.literals
  literals_nodup := h.literals_nodup
  abstract_class := h.abstract_class

end Declaration

/-! ## What a diagram depends on -/

namespace Diagram

/-- Lists with the same images under a function have the same images under
every function that factors through it. -/
theorem map_eq_of_factorsThrough {α β γ : Type} [Nonempty γ] {f : α → β} {g : α → γ}
    (hg : g.FactorsThrough f) {items others : List α} (h : items.map f = others.map f) :
    items.map g = others.map g := by
  obtain ⟨e, rfl⟩ := (Function.factorsThrough_iff g).mp hg
  rw [← List.map_map, h, List.map_map]

theorem fieldText_factorsThrough : fieldText.FactorsThrough FieldNode.field := by
  intro node other h
  rw [fieldText, h]
  rfl

theorem operationText_factorsThrough : operationText.FactorsThrough OperationNode.operation := by
  intro node other h
  have hname : node.name = other.name := congrArg Operation.name h
  have hvisibility : node.visibility = other.visibility := congrArg Operation.visibility h
  have htags : operationTags node = operationTags other := by
    have hstatic : node.isStatic = other.isStatic := congrArg Operation.isStatic h
    have habstract : node.isAbstract = other.isAbstract := congrArg Operation.isAbstract h
    rw [operationTags, hstatic, habstract]
    rfl
  apply String.toList_inj.mp
  rw [toList_operationText, toList_operationText, h, hname, hvisibility, htags]

variable {options : RenderOptions}

theorem headerText_factorsThrough (style : InheritanceStyle) :
    (headerText style).FactorsThrough fun node => node.declaration.shown options := by
  intro node other h
  have hname : node.name = other.name := congrArg Declaration.name h
  have hkind : node.kind = other.kind := congrArg Declaration.kind h
  have habstract : node.isAbstract = other.isAbstract := congrArg Declaration.isAbstract h
  have hsuperclass : node.superclass = other.superclass := congrArg Declaration.superclass h
  have hextended : node.extendedInterfaces = other.extendedInterfaces :=
    congrArg Declaration.extendedInterfaces h
  have himplemented : node.implementedInterfaces = other.implementedInterfaces :=
    congrArg Declaration.implementedInterfaces h
  simp only [headerText, blockWords, parents, hname, hkind, habstract, hsuperclass, hextended,
    himplemented]

theorem bodyLines_factorsThrough (hfields : options.maxFields = none)
    (hoperations : options.maxOperations = none) :
    (bodyLines options).FactorsThrough fun node => node.declaration.shown options := by
  intro node other h
  have hattributes : node.fields.map fieldText = other.fields.map fieldText := by
    apply map_eq_of_factorsThrough fieldText_factorsThrough
    have hshown := congrArg Declaration.fields h
    rw [Declaration.fields_shown, Declaration.fields_shown, hfields] at hshown
    rw [← TypeNode.fields_declaration, ← TypeNode.fields_declaration]
    exact hshown
  have hmethods : node.operations.map operationText = other.operations.map operationText := by
    apply map_eq_of_factorsThrough operationText_factorsThrough
    have hshown := congrArg Declaration.operations h
    rw [Declaration.operations_shown, Declaration.operations_shown, hoperations] at hshown
    rw [← TypeNode.operations_declaration, ← TypeNode.operations_declaration]
    exact hshown
  have hliterals : node.literals.map NamedNode.name = other.literals.map NamedNode.name :=
    congrArg Declaration.literals h
  have hempty : node.literals.isEmpty = other.literals.isEmpty := by
    rw [← List.isEmpty_map (f := NamedNode.name), hliterals, List.isEmpty_map]
  simp only [bodyLines, hattributes, hmethods, hliterals, hempty]

theorem typeLines_factorsThrough (hfields : options.maxFields = none)
    (hoperations : options.maxOperations = none) :
    (typeLines options).FactorsThrough fun node => node.declaration.shown options := by
  intro node other h
  rw [typeLines, headerText_factorsThrough options.inheritance h,
    bodyLines_factorsThrough hfields hoperations h]
  rfl

variable {assembly other : Assembly}

theorem map_shown_find? (options : RenderOptions) (assembly : Assembly) (name : String) :
    (assembly.find? name).map (fun node => node.declaration.shown options) =
      (assembly.types.map fun node => node.declaration.shown options).find?
        (·.name == name) := by
  rw [List.find?_map]
  rfl

/-- Which links a block states depends on the shown declarations only. -/
theorem statedByBlock_congr
    (htypes : (assembly.types.map fun node => node.declaration.shown options) =
      other.types.map fun node => node.declaration.shown options) (link : Relationship) :
    statedByBlock assembly link = statedByBlock other link := by
  have hfind := map_shown_find? options assembly link.source
  rw [htypes, ← map_shown_find?] at hfind
  unfold statedByBlock
  cases hnode : assembly.find? link.source with
  | none =>
      rw [hnode, Option.map_none, eq_comm, Option.map_eq_none_iff] at hfind
      rw [hfind]
  | some node =>
      rw [hnode, Option.map_some, eq_comm, Option.map_eq_some_iff] at hfind
      obtain ⟨twin, htwin, h⟩ := hfind
      have hsuperclass : twin.superclass = node.superclass := congrArg Declaration.superclass h
      have hextended : twin.extendedInterfaces = node.extendedInterfaces :=
        congrArg Declaration.extendedInterfaces h
      have himplemented : twin.implementedInterfaces = node.implementedInterfaces :=
        congrArg Declaration.implementedInterfaces h
      simp only [htwin, parents, hsuperclass, hextended, himplemented]

/-- Assemblies that show the same, with the same relationships and title, have
the same diagram. -/
theorem render_congr (hfields : options.maxFields = none)
    (hoperations : options.maxOperations = none)
    (hstyle : options.inheritance = .headerClauses)
    (htypes : (assembly.types.map fun node => node.declaration.shown options) =
      other.types.map fun node => node.declaration.shown options)
    (hlinks : assembly.links.map LinkNode.relationship = other.links.map LinkNode.relationship)
    (htitle : titleOf options assembly = titleOf options other) :
    render options assembly = render options other := by
  have hblocks : assembly.types.flatMap (typeLines options) =
      other.types.flatMap (typeLines options) := by
    rw [List.flatMap_def, List.flatMap_def,
      map_eq_of_factorsThrough (typeLines_factorsThrough hfields hoperations) htypes]
  have hdrawn : linkTexts options.inheritance assembly =
      linkTexts options.inheritance other := by
    have hstated : statedByBlock assembly = statedByBlock other :=
      funext (statedByBlock_congr htypes)
    rw [hstyle, linkTexts, linkTexts, hlinks, hstated]
  simp only [render, documentLines, hblocks, hdrawn, htitle]

end Diagram

/-! ## What is inferred from shown declarations -/

/-- The same relationships are inferred, in the same order, from declarations
that a diagram without limits shows. -/
theorem infer_shown {options : RenderOptions} (hfields : options.maxFields = none)
    (hoperations : options.maxOperations = none) (inference : Inference.Options)
    {model other : Model} (hcontains : other.contains = model.contains)
    (htypes : other.types = model.types.map fun decl => decl.shown options) :
    Inference.infer inference other = Inference.infer inference model := by
  have hreferent := Inference.referent?_congr hcontains
  have hlinks : ∀ decl : Declaration,
      Inference.fieldLinks inference other (decl.shown options) =
          Inference.fieldLinks inference model decl ∧
        Inference.supertypeLinks other (decl.shown options) =
          Inference.supertypeLinks model decl ∧
        Inference.dependencyLinks inference other (decl.shown options) =
          Inference.dependencyLinks inference model decl := by
    intro decl
    refine ⟨?_, ?_, ?_⟩
    · rw [Inference.fieldLinks, decl.fields_shown, hfields, hreferent]
      rfl
    · rw [Inference.supertypeLinks, hcontains]
      rfl
    · have hparameters : Inference.parameterLinks other (decl.shown options) =
          Inference.parameterLinks model decl := by
        funext operation
        rw [Inference.parameterLinks, hreferent]
        rfl
      rw [Inference.dependencyLinks, decl.operations_shown, hoperations, hparameters]
      rfl
  rw [Inference.infer, htypes, List.flatMap_map, Inference.infer]
  refine List.flatMap_congr fun decl _ => ?_
  obtain ⟨hfieldLinks, hsupertypeLinks, hdependencyLinks⟩ := hlinks decl
  rw [hfieldLinks, hsupertypeLinks, hdependencyLinks]

/-! ## Converting a rendered diagram -/

/-- Settings under which a diagram shows the whole of a model: supertypes stand
in headers, no member is left out, and every type is kept. -/
structure Settings.ShowsWhole (settings : Settings) (model : Model) : Prop where
  inheritance : settings.render.inheritance = .headerClauses
  fields : settings.render.maxFields = none
  operations : settings.render.maxOperations = none
  packages : settings.packageFilter = none
  types : ∀ max ∈ settings.maxTypes, model.size ≤ max

section

variable {settings : Settings} {model : Model}

theorem filtered_eq_self (hsettings : settings.ShowsWhole model) :
    Conversion.filtered settings model = model := by
  unfold Conversion.filtered
  dsimp only
  rw [hsettings.packages]
  split
  next max hmax => exact if_neg (Nat.not_lt.mpr (hsettings.types max hmax))
  next => rfl

theorem mergeUnit_eq_self (problems : List Problem) (unit : String)
    {links : List Relationship} (h : ∀ link ∈ links, link ∈ model.relationships) :
    Conversion.mergeUnit (model, problems) (unit, links) = (model, problems) := by
  rw [Conversion.mergeUnit, Inference.merge_eq_self h]
  dsimp only
  rw [List.map_nil, List.append_nil]

/-- A run that reads the shown declarations of a model, and links that are
inferred from it, ends with these declarations and all that is inferred. -/
theorem linked_addExtraction_shown (hsettings : settings.ShowsWhole model)
    (hmodel : model.Consistent) (unit : String) {found : List Relationship}
    (hfound : ∀ link ∈ found, link ∈ Inference.infer settings.inference model) :
    let run := (Conversion.start settings).addExtraction unit {
      types := model.types.map fun decl => decl.shown settings.render
      relationships := found }
    run.linked.2 = [] ∧
      run.linked.1.types = model.types.map (fun decl => decl.shown settings.render) ∧
      run.linked.1.relationships = Inference.infer settings.inference model := by
  intro run
  have hnames : (model.types.map fun decl => decl.shown settings.render).map Declaration.name =
      model.names := by
    rw [List.map_map]
    rfl
  have hnodup : ((Conversion.start settings).model.names ++
      (model.types.map fun decl => decl.shown settings.render).map Declaration.name).Nodup := by
    rw [hnames]
    exact hmodel.names_nodup
  have hstart := Conversion.consistent_start settings
  have hconsistent : run.model.Consistent := hstart.foldl_insert _
  obtain ⟨htypes, hlinks⟩ : run.model.types = _ ∧ run.model.relationships = _ :=
    hstart.foldl_insert_new hnodup
  have hcontains : run.model.contains = model.contains := by
    funext typeName
    rw [Bool.eq_iff_iff, hconsistent.contains_iff, hmodel.contains_iff, ← hnames, Model.names,
      htypes]
    rfl
  have hsize : run.model.size = model.size := by
    rw [Model.size, htypes]
    exact List.length_map _
  have hfiltered : Conversion.filtered settings run.model = run.model :=
    filtered_eq_self { hsettings with types := hsize ▸ hsettings.types }
  have happly : (Inference.apply settings.inference run.model).1 =
      { run.model with relationships := Inference.infer settings.inference model } := by
    rw [Inference.apply_eq settings.inference hconsistent, hlinks,
      infer_shown hsettings.fields hsettings.operations settings.inference hcontains htypes]
    rfl
  have hlinked : run.linked =
      ({ run.model with relationships := Inference.infer settings.inference model }, []) := by
    change run.declared.foldl Conversion.mergeUnit
      ((Inference.apply settings.inference (Conversion.filtered settings run.model)).1, []) = _
    rw [hfiltered, happly]
    change (if found.isEmpty then [] else [] ++ [(unit, found)]).foldl Conversion.mergeUnit _ = _
    split
    · rfl
    · exact mergeUnit_eq_self [] unit hfound
  rw [hlinked]
  exact ⟨rfl, htypes, rfl⟩

theorem read_renderedUnit (text : String) :
    SourceUnit.read ⟨"rendered.puml", text⟩ = Diagram.read "rendered.puml" text.toList := by
  have hextension : Dialect.ofExtension? "rendered.puml" = some .diagram := by decide
  rw [SourceUnit.read, SourceUnit.dialect, Dialect.detect, hextension, Dialect.read]

/-- Reading what was rendered and linking it anew gives the shown declarations
and the relationships of the model. -/
theorem linked_rendered {assembled : Assembled} {name : String}
    (h : assembled.Describes name (Inference.apply settings.inference model).1)
    (hmodel : model.Consistent) (hlinks : model.relationships = [])
    (hreadable : ∀ decl ∈ model.types, decl.Readable)
    (hsettings : settings.ShowsWhole model)
    (htitle : '\n' ∉ (settings.render.title.getD name).toList) :
    let run := (Conversion.start settings).addUnit
      ⟨"rendered.puml", render settings.render assembled.assembly⟩
    run.linked.2 = [] ∧
      run.linked.1.types = model.types.map (fun decl => decl.shown settings.render) ∧
      run.linked.1.relationships = (Inference.apply settings.inference model).1.relationships := by
  intro run
  have hrelationships := Inference.relationships_apply settings.inference hmodel hlinks
  obtain ⟨found, hsub, hread⟩ := exists_read_assembled h hmodel hlinks hreadable
    hsettings.inheritance htitle "rendered.puml"
  have hfound : ∀ link ∈ found, link ∈ Inference.infer settings.inference model := by
    intro link hlink
    rw [← hrelationships, ← h.links_eq]
    exact (List.mem_filter.mp (hsub.mem hlink)).1
  have hrun : run = (Conversion.start settings).addExtraction "rendered.puml" {
      types := model.types.map fun decl => decl.shown settings.render
      relationships := found } := by
    rw [← hread, ← read_renderedUnit]
    rfl
  rw [hrun, hrelationships]
  exact linked_addExtraction_shown hsettings hmodel "rendered.puml" hfound

end

/-- An assembly of shown declarations shows them as they are. -/
theorem Assembled.Describes.map_shown_of_shown {assembled : Assembled} {name : String}
    {model other : Model} {options : RenderOptions} (h : assembled.Describes name other)
    (htypes : other.types = model.types.map fun decl => decl.shown options)
    (hreadable : ∀ decl ∈ model.types, decl.Readable) :
    (assembled.assembly.types.map fun node => node.declaration.shown options) =
      model.types.map fun decl => decl.shown options := by
  have hother : ∀ decl ∈ other.types, decl.Readable := by
    rw [htypes]
    exact List.forall_mem_map.mpr fun decl hdecl => (hreadable decl hdecl).shown options
  rw [h.map_shown hother, htypes, List.map_map]
  exact List.map_congr_left fun decl _ => decl.shown_shown options

/-- Converting a rendered diagram with the settings it was rendered with meets
no problem, finds the relationships of the model in their order, and renders to
the same text again. -/
theorem convert_render_fixedPoint (settings : Settings) (model : Model)
    (digest : String → String) (name : String)
    (hmodel : model.Consistent) (hlinks : model.relationships = [])
    (hreadable : ∀ decl ∈ model.types, decl.Readable)
    (hsettings : settings.ShowsWhole model)
    (hname : settings.render.title = none → name = settings.modelName)
    (htitle : '\n' ∉ (settings.render.title.getD name).toList) :
    let linked := (Inference.apply settings.inference model).1
    (Registry.CollisionFree digest name linked.paths →
      (linked.assemble? digest name).isSome = true) ∧
    ∀ assembled, linked.assemble? digest name = some assembled →
      let text := render settings.render assembled.assembly
      let run := (Conversion.start settings).addUnit ⟨"rendered.puml", text⟩
      (Registry.CollisionFree digest settings.modelName run.linked.1.paths →
        (run.finishWith? digest).isSome = true) ∧
      ∀ result, run.finishWith? digest = some result →
        result.problems = [] ∧
          result.assembly.links.map LinkNode.relationship = linked.relationships ∧
          result.toDiagram = text := by
  intro linked
  refine ⟨fun hfree => Assembling.isSome_assemble? hfree, ?_⟩
  intro assembled hassembled text run
  refine ⟨fun hfree => Conversion.isSome_finishWith? hfree, ?_⟩
  intro result hresult
  have hdescribes : assembled.Describes name linked :=
    (hmodel.apply settings.inference).describes hassembled
  obtain ⟨hproblems, htypes, hrelationships⟩ : run.linked.2 = [] ∧ _ ∧ _ :=
    linked_rendered hdescribes hmodel hlinks hreadable hsettings htitle
  have hconsistent : run.model.Consistent :=
    Conversion.consistent_foldl_addUnit (Conversion.consistent_start settings) [_]
  obtain ⟨again, -, hagain, rfl⟩ := Conversion.finishWith?_spec hconsistent hresult
  have hrelated := hagain.links_eq.trans hrelationships
  have hlinkedTypes : linked.types = model.types :=
    Inference.types_apply settings.inference hmodel
  have hshown : (again.assembly.types.map fun node => node.declaration.shown settings.render) =
      assembled.assembly.types.map fun node => node.declaration.shown settings.render := by
    rw [hagain.map_shown_of_shown htypes hreadable,
      hdescribes.map_shown (hlinkedTypes ▸ hreadable), hlinkedTypes]
  refine ⟨hproblems, hrelated, ?_⟩
  apply render_congr hsettings.fields hsettings.operations hsettings.inheritance hshown
  · exact hrelated.trans hdescribes.links_eq.symm
  · rw [titleOf, titleOf, hagain.name_eq, hdescribes.name_eq]
    cases htitled : settings.render.title with
    | none => exact (hname htitled).symm
    | some title => rfl

/-- Settings with a title of their own and with all dependencies. -/
def sampleSettings : Settings where
  inference := { dependencies := .allOperations }
  render := { title := some "Shapes and colors" }

theorem convert_render_sampleModel :
    let linked := (Inference.apply sampleSettings.inference sampleModel).1
    (linked.assemble? id "Sample").isSome = true ∧
    ∀ assembled, linked.assemble? id "Sample" = some assembled →
      let text := render sampleSettings.render assembled.assembly
      let run := (Conversion.start sampleSettings).addUnit ⟨"rendered.puml", text⟩
      (run.finishWith? id).isSome = true ∧
      ∀ result, run.finishWith? id = some result →
        result.problems = [] ∧
          result.assembly.links.map LinkNode.relationship = linked.relationships ∧
          result.toDiagram = text := by
  have hfree := Registry.collisionFree_of_injective Function.injective_id
  have h := convert_render_fixedPoint sampleSettings sampleModel id "Sample"
    consistent_sampleModel rfl readable_sampleModel
    ⟨rfl, rfl, rfl, rfl, fun max hmax => by cases hmax⟩ (fun htitle => by cases htitle) (by decide)
  refine ⟨h.1 (hfree _ _), ?_⟩
  intro assembled hassembled
  obtain ⟨hsome, hresult⟩ := h.2 assembled hassembled
  exact ⟨hsome (hfree _ _), hresult⟩

end ClassAtlas
