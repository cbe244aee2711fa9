import ClassAtlas.Proofs.Consistency

/-!
# Where inferred relationships come from

Every inferred relationship starts at a declaration and comes from one of its
attributes, supertypes or operations. Its target is declared too, so in a
consistent model inference adds every relationship it finds, in order, and
changes nothing else.
-/

namespace ClassAtlas.Inference

variable {options : Options} {model : Model}

/-- What a relationship of a declaration was inferred from. -/
inductive Origin (options : Options) (model : Model) (decl : Declaration) :
    Relationship → Prop where
  | field {field : Field} {target : String} (hfield : field ∈ decl.fields)
      (htarget : model.contains target = true) :
      Origin options model decl {
        source := decl.name
        target
        kind := classify options field
        label := some field.name
        multiplicity := TypeText.multiplicity? field.declaredType.toList }
  | supertype {target : String} {kind : RelationshipKind}
      (hsupertype : (target, kind) ∈ supertypes decl) (htarget : model.contains target = true) :
      Origin options model decl { source := decl.name, target, kind }
  | operation {operation : Operation} {target : String}
      (hoperation : operation ∈ decl.operations) (htarget : model.contains target = true) :
      Origin options model decl {
        source := decl.name
        target
        kind := .dependency
        label := some operation.name }

theorem Origin.source_eq {decl : Declaration} {link : Relationship}
    (h : Origin options model decl link) : link.source = decl.name := by
  cases h <;> rfl

theorem Origin.contains_target {decl : Declaration} {link : Relationship}
    (h : Origin options model decl link) : model.contains link.target = true := by
  cases h <;> assumption

theorem contains_of_referent? {owner type target : String}
    (h : referent? model owner type = some target) : model.contains target = true := by
  unfold referent? at h
  dsimp only at h
  split at h
  next => cases h
  next hother =>
    rw [← Option.some.inj h]
    simp only [Bool.or_eq_true, Bool.not_eq_true', not_or, Bool.not_eq_false] at hother
    exact hother.2

/-- What a type text refers to depends on the names in the model only. -/
theorem referent?_congr {other : Model} (h : model.contains = other.contains) :
    referent? model = referent? other := by
  funext owner type
  rw [referent?, referent?, h]

theorem mem_of_mem_dropRepeated {links : List Relationship} {link : Relationship}
    (h : link ∈ dropRepeated links) : link ∈ links := by
  have hkept : ∀ other ∈ dropRepeated links, other ∈ links := by
    refine List.foldlRecOn (motive := fun kept => ∀ other ∈ kept, other ∈ links) links _
      (by simp) ?_
    intro kept hkept next hnext other hother
    split at hother
    · exact hkept other hother
    · rcases List.mem_append.mp hother with hold | hnew
      · exact hkept other hold
      · rw [List.mem_singleton.mp hnew]
        exact hnext
  exact hkept link h

/-- Everything that a declaration gives. -/
def linksOf (options : Options) (model : Model) (decl : Declaration) : List Relationship :=
  fieldLinks options model decl ++ supertypeLinks model decl ++ dependencyLinks options model decl

theorem infer_eq_flatMap (options : Options) (model : Model) :
    infer options model = model.types.flatMap (linksOf options model) := rfl

theorem origin_of_mem_linksOf {decl : Declaration} {link : Relationship}
    (h : link ∈ linksOf options model decl) : Origin options model decl link := by
  rcases List.mem_append.mp h with hlink | hlink
  · rcases List.mem_append.mp hlink with hlink | hlink
    · obtain ⟨field, hfield, hlink⟩ := List.mem_filterMap.mp hlink
      obtain ⟨target, htarget, rfl⟩ := Option.map_eq_some_iff.mp hlink
      exact .field hfield (contains_of_referent? htarget)
    · obtain ⟨⟨target, kind⟩, hsupertype, rfl⟩ := List.mem_map.mp hlink
      obtain ⟨hsupertype, htarget⟩ := List.mem_filter.mp hsupertype
      exact .supertype hsupertype htarget
  · obtain ⟨operation, hoperation, hlink⟩ :=
      List.mem_flatMap.mp (mem_of_mem_dropRepeated hlink)
    obtain ⟨parameter, -, hlink⟩ := List.mem_filterMap.mp hlink
    obtain ⟨target, htarget, rfl⟩ := Option.map_eq_some_iff.mp hlink
    exact .operation (List.mem_filter.mp hoperation).1 (contains_of_referent? htarget)

theorem exists_origin {link : Relationship} (h : link ∈ infer options model) :
    ∃ decl ∈ model.types, Origin options model decl link := by
  obtain ⟨decl, hdecl, hlink⟩ := List.mem_flatMap.mp h
  exact ⟨decl, hdecl, origin_of_mem_linksOf hlink⟩

/-- Relationships between declared types are all added. -/
theorem foldl_applyOne {links : List Relationship}
    (h : ∀ link ∈ links, model.contains link.source = true ∧ model.contains link.target = true)
    (earlier : List Relationship) (count : ℕ) :
    links.foldl applyOne ({ model with relationships := earlier }, count) =
      ({ model with relationships := earlier ++ links }, count + links.length) := by
  induction links generalizing earlier count with
  | nil => simp
  | cons link links ih =>
      obtain ⟨⟨hsource, htarget⟩, hlinks⟩ := List.forall_mem_cons.mp h
      have hrelate : Model.relate? { model with relationships := earlier } link =
          some { model with relationships := earlier ++ [link] } := by
        have hends : (Model.contains { model with relationships := earlier } link.source &&
            Model.contains { model with relationships := earlier } link.target) = true :=
          (Bool.and_eq_true _ _).mpr ⟨hsource, htarget⟩
        rw [Model.relate?, if_pos hends]
      rw [List.foldl_cons, applyOne, hrelate]
      refine (ih hlinks (earlier ++ [link]) (count + 1)).trans ?_
      rw [List.append_assoc, List.singleton_append, List.length_cons, Nat.add_assoc,
        Nat.add_comm 1]

/-- Inference adds what it finds, counts it, and changes nothing else. -/
theorem apply_eq_append (options : Options) (h : model.Consistent) :
    apply options model =
      ({ model with relationships := model.relationships ++ infer options model },
        (infer options model).length) := by
  refine (foldl_applyOne ?_ model.relationships 0).trans (by rw [Nat.zero_add])
  intro link hlink
  obtain ⟨decl, hdecl, horigin⟩ := exists_origin hlink
  refine ⟨?_, horigin.contains_target⟩
  rw [horigin.source_eq, h.contains_iff]
  exact List.mem_map_of_mem hdecl

theorem apply_eq (options : Options) (h : model.Consistent) :
    (apply options model).1 =
      { model with relationships := model.relationships ++ infer options model } := by
  rw [apply_eq_append options h]

theorem types_apply (options : Options) (h : model.Consistent) :
    (apply options model).1.types = model.types := by
  rw [apply_eq options h]

theorem relationships_apply (options : Options) (h : model.Consistent)
    (hlinks : model.relationships = []) :
    (apply options model).1.relationships = infer options model := by
  rw [apply_eq options h, hlinks, List.nil_append]

/-! ## Merging what is there already -/

theorem sameLink_self (link : Relationship) : link.sameLink link = true := by
  simp [Relationship.sameLink]

/-- Relationships that the model has already are merged without a change. -/
theorem merge_eq_self {declared : List Relationship}
    (h : ∀ link ∈ declared, link ∈ model.relationships) :
    merge model declared = (model, []) := by
  unfold merge
  induction declared with
  | nil => rfl
  | cons link declared ih =>
      obtain ⟨hlink, hdeclared⟩ := List.forall_mem_cons.mp h
      have hpresent : model.relationships.any (·.sameLink link) = true :=
        List.any_eq_true.mpr ⟨link, hlink, sameLink_self link⟩
      have hstep : mergeOne (model, []) link = (model, []) := by
        rw [mergeOne, if_pos hpresent]
      rw [List.foldl_cons, hstep, ih hdeclared]

end ClassAtlas.Inference
