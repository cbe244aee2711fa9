import ClassAtlas.Proofs.Runs

/-!
# References of the interchange document

In the document of a conversion run, every identifier that an element refers to
is the identifier of an element. The ends of an association are declared beside
the references to them. All other references are the identifiers of the types
that a relationship joins, and these are the ones that were issued for the
paths of the types when they were registered.
-/

namespace ClassAtlas

namespace Interchange

/-! ## Attribute values of a tree of elements -/

namespace Element

mutual

/-- The values of the attributes, in an element and below it, that are chosen
by the name of their element and their key. -/
def values (chosen : String → String → Bool) : Element → List String
  | node name attributes children =>
    (attributes.filter fun (key, _) => chosen name key).map Prod.snd ++
      valuesAll chosen children

/-- The chosen values of all elements of a list. -/
def valuesAll (chosen : String → String → Bool) : List Element → List String
  | [] => []
  | element :: rest => values chosen element ++ valuesAll chosen rest

end

theorem valuesAll_eq (chosen : String → String → Bool) (elements : List Element) :
    valuesAll chosen elements = elements.flatMap (values chosen) := by
  induction elements with
  | nil => rfl
  | cons element rest ih => rw [valuesAll, ih, List.flatMap_cons]

theorem values_node (chosen : String → String → Bool) (name : String)
    (attributes : List (String × String)) (children : List Element) :
    (node name attributes children).values chosen =
      (attributes.filter fun (key, _) => chosen name key).map Prod.snd ++
        children.flatMap (values chosen) := by
  rw [values, valuesAll_eq]

/-- The keys of attributes that refer to an element by its identifier. -/
def referenceKeys : List String :=
  ["xmi:idref", "specific", "general", "implementingClassifier", "contract", "client", "supplier"]

/-- Whether an attribute refers to an element by its identifier. The type of an
end does, the types of other elements may be names. -/
def isReference (name key : String) : Bool :=
  referenceKeys.contains key || (name == "ownedEnd" && key == "type")

/-- The identifiers of an element and those below it. -/
def ids (element : Element) : List String :=
  element.values fun _ key => key == "xmi:id"

/-- The identifiers that an element and those below it refer to. -/
def references (element : Element) : List String :=
  element.values isReference

end Element

open Element

/-! ## Identifiers and references by kind of element -/

section

variable {name : String} {attributes : List (String × String)} {children : List Element}

theorem references_node
    (hown : (attributes.any fun (key, _) => isReference name key) = false) :
    (Element.node name attributes children).references = children.flatMap references := by
  have hnone : (attributes.filter fun (key, _) => isReference name key) = [] := by
    rw [List.filter_eq_nil_iff]
    exact List.any_eq_false.mp hown
  rw [references, values_node, hnone, List.map_nil, List.nil_append]
  rfl

theorem references_node_eq_nil
    (hown : (attributes.any fun (key, _) => isReference name key) = false)
    (hchildren : ∀ child ∈ children, child.references = []) :
    (Element.node name attributes children).references = [] := by
  rw [references_node hown, List.flatMap_eq_nil_iff]
  exact hchildren

theorem mem_ids_node_of_mem_children {id : String} (h : id ∈ children.flatMap ids) :
    id ∈ (Element.node name attributes children).ids := by
  rw [ids, values_node]
  exact List.mem_append_right _ h

end

theorem references_operationElement (node : OperationNode) :
    (operationElement node).references = [] := by
  apply references_node_eq_nil
  · cases node.isStatic <;> cases node.isAbstract <;> rfl
  · intro child hchild
    rcases List.mem_append.mp hchild with hparameter | hreturn
    · obtain ⟨parameter, -, rfl⟩ := List.mem_map.mp hparameter
      rfl
    · obtain ⟨returned, -, rfl⟩ := Option.map_eq_some_iff.mp (Option.mem_toList.mp hreturn)
      rfl

/-- Declared types refer to no identifier in the chosen attributes. -/
theorem references_typeElement (node : TypeNode) : (typeElement node).references = [] := by
  apply references_node_eq_nil
  · cases node.isAbstract <;> rfl
  · intro child hchild
    rcases List.mem_append.mp hchild with hliteral | hmember
    · obtain ⟨literal, -, rfl⟩ := List.mem_map.mp hliteral
      rfl
    · obtain ⟨member, -, rfl⟩ := List.mem_map.mp hmember
      cases member with
      | field field =>
          apply references_node_eq_nil
          · cases field.field.isStatic <;> cases field.field.isReadonly <;> rfl
          · simp
      | operation operation => exact references_operationElement operation

theorem mem_ids_typeElement (node : TypeNode) : node.id ∈ (typeElement node).ids := by
  rw [ids, typeElement, values_node]
  simp

theorem references_endElements (node : LinkNode) (ends : LinkEnds) :
    (endElements node ends).flatMap references =
      [ends.source, ends.target, node.sourceId, node.targetId] := by
  unfold endElements
  cases node.relationship.kind <;> cases node.relationship.multiplicity <;> rfl

theorem ids_endElements (node : LinkNode) (ends : LinkEnds) :
    (endElements node ends).flatMap ids = [ends.source, ends.target] := by
  unfold endElements
  cases node.relationship.kind <;> cases node.relationship.multiplicity <;> rfl

/-- The elements below an association refer to the types that it joins and to
ends that are among them. -/
theorem mem_references_endElements {node : LinkNode} {value : String}
    (h : value ∈ ((node.ends.map (endElements node)).getD []).flatMap references) :
    value = node.sourceId ∨ value = node.targetId ∨
      value ∈ ((node.ends.map (endElements node)).getD []).flatMap ids := by
  cases hends : node.ends with
  | none =>
      rw [hends] at h
      cases h
  | some ends =>
      rw [hends, Option.map_some, Option.getD_some, references_endElements] at h
      rw [Option.map_some, Option.getD_some, ids_endElements]
      simp only [List.mem_cons, List.not_mem_nil, or_false] at h ⊢
      tauto

/-- A relationship names the types that it joins, or is an association with
elements for its ends. -/
theorem linkElement_cases (node : LinkNode) :
    (linkElement node).references = [node.sourceId, node.targetId] ∨
      ∃ attributes, linkElement node =
          .node "packagedElement" attributes ((node.ends.map (endElements node)).getD []) ∧
        (attributes.any fun (key, _) => isReference "packagedElement" key) = false := by
  unfold linkElement
  cases node.relationship.kind with
  | generalization | realization | dependency => exact Or.inl rfl
  | composition | aggregation | association => exact Or.inr ⟨_, rfl, rfl⟩

/-- A relationship refers to the types that it joins and to its own ends. -/
theorem mem_references_linkElement {node : LinkNode} {value : String}
    (h : value ∈ (linkElement node).references) :
    value = node.sourceId ∨ value = node.targetId ∨ value ∈ (linkElement node).ids := by
  rcases linkElement_cases node with hjoined | ⟨attributes, hshape, hown⟩
  · rw [hjoined] at h
    rcases List.mem_cons.mp h with hsource | htarget
    · exact Or.inl hsource
    · exact Or.inr (Or.inl (List.mem_singleton.mp htarget))
  · rw [hshape, references_node hown] at h
    rw [hshape]
    rcases mem_references_endElements h with hsource | htarget | hid
    · exact Or.inl hsource
    · exact Or.inr (Or.inl htarget)
    · exact Or.inr (Or.inr (mem_ids_node_of_mem_children hid))

/-! ## The whole document -/

theorem references_rootElement (assembly : Assembly) :
    (rootElement assembly).references =
      (assembly.links.map linkElement).flatMap references := by
  have hprimitives : (assembly.primitives.map primitiveElement).flatMap references = [] := by
    rw [List.flatMap_eq_nil_iff, List.forall_mem_map]
    exact fun primitive _ => rfl
  have htypes : (assembly.types.map typeElement).flatMap references = [] := by
    rw [List.flatMap_eq_nil_iff, List.forall_mem_map]
    exact fun node _ => references_typeElement node
  rw [rootElement, references_node rfl, List.flatMap_singleton, modelElement, references_node rfl,
    List.flatMap_append, List.flatMap_append, hprimitives, htypes]
  rfl

theorem mem_ids_rootElement {assembly : Assembly} {id : String}
    (h : (∃ node ∈ assembly.types, id ∈ (typeElement node).ids) ∨
      ∃ link ∈ assembly.links, id ∈ (linkElement link).ids) :
    id ∈ (rootElement assembly).ids := by
  apply mem_ids_node_of_mem_children
  rw [List.flatMap_singleton]
  apply mem_ids_node_of_mem_children
  rw [List.flatMap_append, List.flatMap_append]
  rcases h with ⟨node, hnode, hid⟩ | ⟨link, hlink, hid⟩
  · apply List.mem_append_left
    apply List.mem_append_right
    exact List.mem_flatMap.mpr ⟨_, List.mem_map_of_mem hnode, hid⟩
  · apply List.mem_append_right
    exact List.mem_flatMap.mpr ⟨_, List.mem_map_of_mem hlink, hid⟩

/-- If every link joins types of the document, no reference is left open. -/
theorem references_subset_ids {assembly : Assembly}
    (hsource : ∀ link ∈ assembly.links, link.sourceId ∈ assembly.types.map TypeNode.id)
    (htarget : ∀ link ∈ assembly.links, link.targetId ∈ assembly.types.map TypeNode.id) :
    (rootElement assembly).references ⊆ (rootElement assembly).ids := by
  intro value hvalue
  rw [references_rootElement] at hvalue
  obtain ⟨element, helement, hreference⟩ := List.mem_flatMap.mp hvalue
  obtain ⟨link, hlink, rfl⟩ := List.mem_map.mp helement
  have htype : value ∈ assembly.types.map TypeNode.id → value ∈ (rootElement assembly).ids := by
    intro hid
    obtain ⟨node, hnode, rfl⟩ := List.mem_map.mp hid
    exact mem_ids_rootElement (Or.inl ⟨node, hnode, mem_ids_typeElement node⟩)
  rcases mem_references_linkElement hreference with rfl | rfl | hid
  · exact htype (hsource link hlink)
  · exact htype (htarget link hlink)
  · exact mem_ids_rootElement (Or.inr ⟨link, hlink, hid⟩)

end Interchange

theorem mem_map_id_of_find? {assembly : Assembly} {name id : String}
    (h : (assembly.find? name).map TypeNode.id = some id) :
    id ∈ assembly.types.map TypeNode.id := by
  obtain ⟨node, hfind, rfl⟩ := Option.map_eq_some_iff.mp h
  exact List.mem_map_of_mem (List.mem_of_find?_eq_some hfind)

open Interchange in
/-- Whatever is converted, assembling leaves no relationship out, both
identifiers of a relationship are those of the types it names, and every
reference in the interchange document leads to an element. -/
theorem Conversion.references_resolved (settings : Settings) (units : List SourceUnit)
    (digest : String → String) :
    let run := units.foldl addUnit (start settings)
    (Registry.CollisionFree digest settings.modelName run.linked.1.paths →
      (run.finishWith? digest).isSome = true) ∧
    ∀ result, run.finishWith? digest = some result →
      ∃ assembled, run.linked.1.assemble? digest settings.modelName = some assembled ∧
        result.assembly = assembled.assembly ∧
        assembled.problems = [] ∧
        result.assembly.links.map LinkNode.relationship = run.linked.1.relationships ∧
        (result.assembly.types.map TypeNode.name).Nodup ∧
        (∀ link ∈ result.assembly.links,
          (result.assembly.find? link.relationship.source).map TypeNode.id =
              some link.sourceId ∧
            (result.assembly.find? link.relationship.target).map TypeNode.id =
              some link.targetId) ∧
        (rootElement result.assembly).references ⊆ (rootElement result.assembly).ids := by
  intro run
  have hsettings : run.settings = settings := settings_foldl_addUnit (start settings) units
  have hconsistent : run.model.Consistent :=
    consistent_foldl_addUnit (consistent_start settings) units
  have hlinked := consistent_linked hconsistent
  constructor
  · intro hfree
    apply isSome_finishWith?
    rw [hsettings]
    exact hfree
  · intro result hresult
    obtain ⟨assembled, hassembled, hdescribes, rfl⟩ := finishWith?_spec hconsistent hresult
    rw [hsettings] at hassembled hdescribes
    refine ⟨assembled, hassembled, rfl, hdescribes.problems_eq, hdescribes.links_eq,
      hdescribes.names_nodup hlinked, ?_, ?_⟩
    · intro link hlink
      exact hdescribes.map_id_find?_ends hlinked hlink
    · apply references_subset_ids
      · intro link hlink
        exact mem_map_id_of_find? (hdescribes.map_id_find?_ends hlinked hlink).1
      · intro link hlink
        exact mem_map_id_of_find? (hdescribes.map_id_find?_ends hlinked hlink).2

/-- A diagram and a source text that refer to each other. -/
def sampleUnits : List SourceUnit := [
  ⟨"shapes.puml", "class Circle \x7b\n  -center : Point\n\x7d\n"⟩,
  ⟨"Point.java", "public class Point \x7b \x7d"⟩]

open Interchange in
theorem Conversion.references_resolved_sampleUnits :
    ∃ result, (sampleUnits.foldl addUnit (start {})).finishWith? id = some result ∧
      result.assembly.links.map LinkNode.relationship =
        [⟨"Circle", "Point", .association, some "center", none⟩] ∧
      (rootElement result.assembly).references ⊆ (rootElement result.assembly).ids := by
  obtain ⟨hsome, hresolved⟩ := references_resolved {} sampleUnits id
  obtain ⟨result, hresult⟩ := Option.isSome_iff_exists.mp
    (hsome (Registry.collisionFree_of_injective Function.injective_id _ _))
  obtain ⟨_, -, -, -, hlinks, -, -, hreferences⟩ := hresolved result hresult
  have hrelated : (sampleUnits.foldl addUnit (start {})).linked.1.relationships =
      [⟨"Circle", "Point", .association, some "center", none⟩] := by
    decide +kernel
  exact ⟨result, hresult, hlinks.trans hrelated, hreferences⟩

end ClassAtlas
