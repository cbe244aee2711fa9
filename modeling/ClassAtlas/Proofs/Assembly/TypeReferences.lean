import ClassAtlas.Proofs.Runs
import ClassAtlas.Proofs.Assembly.Identifiers

/-!
# What the types of members refer to

A type text is resolved by looking up the path that its name has as a type. In
an assembled model such a reference leads to the primitive or declared type of
that name. One kind of text is resolved wrongly: since the registry holds the
paths of members as well, a name that is spelled like the rest of such a path
finds the member. Diagram texts can hold such names, as the last result shows;
a name without a slash is never misread.
-/

namespace ClassAtlas

open Assembling Issuing

namespace Assembly

/-- The reference has the identifier of the primitive or declared type of its
name. External references have none. -/
inductive Classifies (assembly : Assembly) : Reference → Prop where
  | primitive {id name : String}
    (hid : (assembly.primitives.find? (·.name == name)).map NamedNode.id = some id) :
    Classifies assembly (.primitive id name)
  | declared {id name : String} (hid : (assembly.find? name).map TypeNode.id = some id) :
    Classifies assembly (.declared id name)
  | external (name : String) : Classifies assembly (.external name)

theorem Classifies.hasClassifier_of_id? {assembly : Assembly} {reference : Reference} {id : String}
    (h : assembly.Classifies reference) (hid : reference.id? = some id) :
    assembly.hasClassifier id = true := by
  rw [hasClassifier, Bool.or_eq_true, List.any_eq_true, List.any_eq_true]
  cases h with
  | primitive hfound =>
      obtain ⟨node, hnode, rfl⟩ := Option.map_eq_some_iff.mp hfound
      obtain rfl := Option.some.inj hid
      exact Or.inl ⟨node, List.mem_of_find?_eq_some hnode, beq_self_eq_true _⟩
  | declared hfound =>
      obtain ⟨node, hnode, rfl⟩ := Option.map_eq_some_iff.mp hfound
      obtain rfl := Option.some.inj hid
      exact Or.inr ⟨node, List.mem_of_find?_eq_some hnode, beq_self_eq_true _⟩
  | external name => contradiction

/-- The reference passes for one to a declared type, but no type has its name,
the name holds a slash, and the identifier is that of no type. -/
inductive Misreads (assembly : Assembly) : Reference → Prop where
  | declared {id name : String}
    (hslash : '/' ∈ name.toList)
    (hname : name ∉ assembly.types.map TypeNode.name)
    (hid : assembly.hasClassifier id = false) : Misreads assembly (.declared id name)

end Assembly

namespace Model

variable {model : Model} {digest : String → String} {name : String}

theorem names_primitives {assembled : Assembled}
    (hassembled : model.assemble? digest name = some assembled) :
    assembled.assembly.primitives.map NamedNode.name = TypeText.primitiveNames := by
  obtain ⟨⟨⟨assembly, dropped⟩, registry⟩, hrun, rfl⟩ := Option.map_eq_some_iff.mp hassembled
  obtain ⟨id, first, -, hrun⟩ := bind_eq_some_iff.mp hrun
  obtain ⟨primitives, second, hprimitives, hrun⟩ := bind_eq_some_iff.mp hrun
  obtain ⟨registered, third, -, hrun⟩ := bind_eq_some_iff.mp hrun
  obtain ⟨types, fourth, -, hrun⟩ := bind_eq_some_iff.mp hrun
  obtain ⟨⟨links, others⟩, last, -, hrun⟩ := bind_eq_some_iff.mp hrun
  obtain ⟨heq, rfl⟩ := pure_eq_some_iff.mp hrun
  obtain ⟨rfl, rfl⟩ := Prod.mk.inj heq
  exact (namedNodes_spec hprimitives).2.1

/-- The primitive types of an assembled model have the identifiers of their
paths. -/
theorem Consistent.primitive_id (h : model.Consistent) {assembled : Assembled}
    (hassembled : model.assemble? digest name = some assembled) {node : NamedNode}
    (hnode : node ∈ assembled.assembly.primitives) :
    assembled.registry.get? (primitivePath node.name) = some node.id := by
  have hids := (h.issued hassembled).ids_eq
  rw [issuedPaths, Assembly.ids, ← names_primitives hassembled] at hids
  simp only [List.map_cons, List.map_append, List.cons.injEq] at hids
  have hprimitives := (List.append_inj hids.2 (by simp)).1
  rw [List.map_map, List.map_map, List.map_map] at hprimitives
  exact List.map_inj_left.mp hprimitives node hnode

/-- An identifier that is registered for the path of a type that was not
declared is not the identifier of a type. -/
theorem Consistent.hasClassifier_eq_false (h : model.Consistent) {assembled : Assembled}
    (hassembled : model.assemble? digest name = some assembled) {typeName id : String}
    (htype : typeName ∉ model.names)
    (hid : assembled.registry.get? (typePath typeName) = some id) :
    assembled.assembly.hasClassifier id = false := by
  have hdescribes := h.describes hassembled
  have hdistinct := h.distinct hassembled
  rw [Assembly.hasClassifier, Bool.or_eq_false_iff, List.any_eq_false, List.any_eq_false]
  constructor
  · intro node hnode heq
    rw [← beq_iff_eq.mp heq] at hid
    have hpath := hdistinct.path_eq hid (h.primitive_id hassembled hnode)
    have hsteps := congrArg steps hpath
    rw [steps_typePath, steps_primitivePath] at hsteps
    have hfirst := (List.cons.inj hsteps).1
    contradiction
  · intro node hnode heq
    rw [← beq_iff_eq.mp heq] at hid
    have hpath := hdistinct.path_eq hid (hdescribes.type_id node hnode)
    apply htype
    rw [(String.append_right_inj "type/").mp hpath, ← hdescribes.names_eq]
    exact List.mem_map_of_mem hnode

/-- Every reference that a consistent model's members have leads to the type of
its name, or was misread. -/
theorem Consistent.classifies_or_misreads (h : model.Consistent) {assembled : Assembled}
    (hassembled : model.assemble? digest name = some assembled) {reference : Reference}
    (hreference : reference ∈ assembled.assembly.references) :
    assembled.assembly.Classifies reference ∨ assembled.assembly.Misreads reference := by
  have hissued := h.issued hassembled
  have hdescribes := h.describes hassembled
  cases hissued.backed reference hreference with
  | @primitive id primitive hname hid =>
      have hlisted : primitive ∈ assembled.assembly.primitives.map NamedNode.name := by
        rw [names_primitives hassembled]
        exact List.contains_iff_mem.mp hname
      obtain ⟨listed, hmem, rfl⟩ := List.mem_map.mp hlisted
      obtain ⟨node, hnode⟩ := Option.isSome_iff_exists.mp
        (List.find?_isSome (p := (NamedNode.name · == listed.name)).mpr
          ⟨listed, hmem, beq_self_eq_true _⟩)
      have hnodeName : node.name = listed.name :=
        beq_iff_eq.mp (List.find?_some (p := (NamedNode.name · == listed.name)) hnode)
      have hnodeId := h.primitive_id hassembled (List.mem_of_find?_eq_some hnode)
      refine Or.inl (.primitive ?_)
      rw [hnode, Option.map_some, ← hid, ← hnodeName, hnodeId]
  | @declared id typeName hid =>
      by_cases htype : typeName ∈ model.names
      · exact Or.inl (.declared (hdescribes.map_id_find? h htype hid))
      · have hpath : typePath typeName ∈ model.issuedPaths := by
          have hsome : (assembled.registry.get? (typePath typeName)).isSome = true := by
            rw [hid]
            rfl
          exact ((hissued.known _).mp hsome).resolve_left (by simp [Registry.get?])
        refine Or.inr (.declared ?_ ?_ ?_)
        · by_contra hslash
          exact htype (mem_names_of_mem_issuedPaths hpath hslash)
        · rw [hdescribes.names_eq]
          exact htype
        · exact h.hasClassifier_eq_false hassembled htype hid
  | external name => exact Or.inl (.external name)

end Model

namespace Conversion

/-- Whatever is converted, the type of every attribute, parameter and result
refers to the primitive or declared type of its name, by the identifier of that
type, or to none. The only exceptions are misread names, which hold a slash and
are not the name of a declared type. -/
theorem references_classified (settings : Settings) (units : List SourceUnit)
    (digest : String → String) :
    let run := units.foldl addUnit (start settings)
    (Registry.CollisionFree digest settings.modelName run.linked.1.paths →
      (run.finishWith? digest).isSome = true) ∧
    ∀ result, run.finishWith? digest = some result →
      ∀ reference ∈ result.assembly.references,
        (result.assembly.Classifies reference ∧
          ∀ id, reference.id? = some id → result.assembly.hasClassifier id = true) ∨
        result.assembly.Misreads reference := by
  intro run
  have hsettings : run.settings = settings := settings_foldl_addUnit (start settings) units
  have hconsistent : run.model.Consistent :=
    consistent_foldl_addUnit (consistent_start settings) units
  constructor
  · intro hfree
    apply isSome_finishWith?
    rw [hsettings]
    exact hfree
  · intro result hresult reference hreference
    obtain ⟨assembled, hassembled, -, rfl⟩ := finishWith?_spec hconsistent hresult
    rcases (consistent_linked hconsistent).classifies_or_misreads hassembled hreference with
      hclassifies | hmisreads
    · exact Or.inl ⟨hclassifies, fun id hid => hclassifies.hasClassifier_of_id? hid⟩
    · exact Or.inr hmisreads

/-- A class whose members refer to primitive, declared and unknown types. -/
def mixedUnits : List SourceUnit := [
  ⟨"Point.java", "class Point \x7b int x; Point next; List<Point> all(Far away); \x7d"⟩]

theorem references_classified_mixedUnits :
    ∃ result, (mixedUnits.foldl addUnit (start {})).finishWith? id = some result ∧
      result.assembly.references.map Reference.name = ["int", "Point", "Far", "Point"] ∧
      ∀ reference ∈ result.assembly.references, result.assembly.Classifies reference := by
  obtain ⟨hsome, hclassified⟩ := references_classified {} mixedUnits id
  obtain ⟨result, hresult⟩ := Option.isSome_iff_exists.mp
    (hsome (Registry.collisionFree_of_injective Function.injective_id _ _))
  have hnames : result.assembly.references.map Reference.name =
      ["int", "Point", "Far", "Point"] := by
    have hrun : ((mixedUnits.foldl addUnit (start {})).finishWith? id).map
        (fun result => result.assembly.references.map Reference.name) =
          some ["int", "Point", "Far", "Point"] := by
      decide +kernel
    rw [hresult] at hrun
    exact Option.some.inj hrun
  refine ⟨result, hresult, hnames, ?_⟩
  intro reference hreference
  rcases hclassified result hresult reference hreference with ⟨hclassifies, -⟩ | hmisreads
  · exact hclassifies
  · cases hmisreads with
    | @declared id name hslash =>
        have hmem : name ∈ ["int", "Point", "Far", "Point"] := by
          rw [← hnames]
          exact List.mem_map_of_mem (f := Reference.name) hreference
        have hplain : ∀ known ∈ ["int", "Point", "Far", "Point"], '/' ∉ known.toList := by decide
        exact absurd hslash (hplain name hmem)

/-- A diagram in which the type of an attribute is written like the path of
that attribute. -/
def slashedUnits : List SourceUnit := [
  ⟨"a.puml", "class A \x7b\n  x : A/field/0\n\x7d\n"⟩]

theorem slashedUnits_misread :
    (convert? {} slashedUnits).map (fun result =>
        result.assembly.references.map fun reference =>
          (reference.name, reference.id?.map result.assembly.hasClassifier)) =
      some [("A/field/0", some false)] := by
  decide +kernel

end Conversion

end ClassAtlas
