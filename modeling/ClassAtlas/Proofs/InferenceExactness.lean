import ClassAtlas.Proofs.DeclaredLinks

/-!
# Exactness of inference

What inference finds for a declaration can be read off the declaration. Its
attributes that refer to another declared type give the structural
relationships, one each and in order; its declared supertypes give the
generalizations and realizations; the parameters of the operations that
contribute give the dependencies, each link once.

Since the names of a consistent model are distinct, the relationships with a
given source are what one declaration gives (`filter_source_infer`), and every
statement about the whole list reduces to one about `linksOf`.
-/

namespace ClassAtlas.Inference

open ClassAtlas.Relationship

/-- The name that a declared type refers to. -/
def referredName (declaredType : String) : String :=
  String.ofList (TypeText.baseName declaredType.toList)

/-- Whether a field owns its value: it is readonly and not static. -/
def Owning (field : Field) : Prop :=
  field.isReadonly = true ∧ field.isStatic = false

/-- Whether a field holds many values. -/
def HoldsMany (field : Field) : Prop :=
  TypeText.isCollection field.declaredType.toList = true

instance (field : Field) : Decidable (Owning field) :=
  inferInstanceAs (Decidable (_ ∧ _))

instance (field : Field) : Decidable (HoldsMany field) :=
  inferInstanceAs (Decidable (_ = _))

/-- Whether an operation counts for dependencies under the given options. -/
def Contributing (options : Options) (operation : Operation) : Prop :=
  options.dependencies = .allOperations ∨
    options.dependencies = .keyOperations ∧ isKeyOperation operation.name = true

theorem Contributing.enabled {options : Options} {operation : Operation}
    (h : Contributing options operation) : options.dependencies ≠ .off := by
  rcases h with hall | ⟨hkey, -⟩
  · rw [hall]
    decide
  · rw [hkey]
    decide

/-- A relationship that says what a field of `owner` says. Where the field both
owns its value and holds many, the order of the rules decides on the kind. -/
structure Depicts (options : Options) (owner : String) (field : Field)
    (link : Relationship) : Prop where
  source_eq : link.source = owner
  target_eq : link.target = referredName field.declaredType
  label_eq : link.label = some field.name
  composition_iff : link.kind = .composition ↔
    Owning field ∧ (options.order = .compositionFirst ∨ ¬HoldsMany field)
  aggregation_iff : link.kind = .aggregation ↔
    HoldsMany field ∧ (options.order = .collectionFirst ∨ ¬Owning field)
  association_iff : link.kind = .association ↔ ¬Owning field ∧ ¬HoldsMany field
  multiplicity_eq : link.multiplicity = if HoldsMany field then some "*" else none

variable {options : Options} {model : Model} {decl : Declaration}

/-! ## What one declaration gives -/

theorem referent?_eq (h : model.Consistent) (owner type : String) :
    referent? model owner type =
      if referredName type ∈ model.names ∧ referredName type ≠ owner then
        some (referredName type)
      else none := by
  change (if (referredName type = owner || !model.contains (referredName type)) = true then none
    else some (referredName type)) = _
  have hcontains : model.contains (referredName type) = true ↔ referredName type ∈ model.names :=
    h.contains_iff
  by_cases howner : referredName type = owner
  · rw [if_pos (by simp [howner]), if_neg fun hother => hother.2 howner]
  · by_cases hnames : referredName type ∈ model.names
    · rw [if_neg (by simp [howner, hcontains.mpr hnames]), if_pos ⟨hnames, howner⟩]
    · rw [if_pos (by simp [mt hcontains.mp hnames]), if_neg fun hother => hnames hother.1]

theorem referent?_eq_some_iff (h : model.Consistent) {owner type target : String} :
    referent? model owner type = some target ↔
      referredName type = target ∧ target ∈ model.names ∧ target ≠ owner := by
  rw [referent?_eq h, Option.ite_none_right_eq_some, Option.some.injEq]
  constructor
  · rintro ⟨hother, rfl⟩
    exact ⟨rfl, hother⟩
  · rintro ⟨rfl, hother⟩
    exact ⟨hother, rfl⟩

theorem isStructural_classify (options : Options) (field : Field) :
    (classify options field).isStructural = true := by
  unfold classify
  dsimp only
  split <;> split <;> (try split) <;> rfl

theorem depicts_classify (options : Options) (owner : String) (field : Field) :
    Depicts options owner field {
      source := owner
      target := referredName field.declaredType
      kind := classify options field
      label := some field.name
      multiplicity := TypeText.multiplicity? field.declaredType.toList } := by
  have howned : (field.isReadonly && !field.isStatic) = decide (Owning field) := by
    rw [Bool.eq_iff_iff, decide_eq_true_iff, Bool.and_eq_true, Bool.not_eq_true', Owning]
  have hmany : TypeText.isCollection field.declaredType.toList = decide (HoldsMany field) := by
    rw [Bool.eq_iff_iff, decide_eq_true_iff, HoldsMany]
  refine ⟨rfl, rfl, rfl, ?_, ?_, ?_, ?_⟩
  case refine_4 => simp only [TypeText.multiplicity?, hmany, decide_eq_true_eq]
  -- the kinds: a table over the order and the two properties of the field
  all_goals
    simp only [classify, howned, hmany]
    cases options.order <;> by_cases hown : Owning field <;> by_cases hholds : HoldsMany field <;>
      simp [hown, hholds]

/-- The relationships of the fields, field by field. -/
theorem fieldLinks_eq_map (h : model.Consistent) :
    fieldLinks options model decl =
      (decl.fields.filter fun field => referredName field.declaredType ∈ model.names ∧
        referredName field.declaredType ≠ decl.name).map fun field => {
          source := decl.name
          target := referredName field.declaredType
          kind := classify options field
          label := some field.name
          multiplicity := TypeText.multiplicity? field.declaredType.toList } := by
  unfold fieldLinks
  induction decl.fields with
  | nil => rfl
  | cons field fields ih =>
      rw [List.filterMap_cons, List.filter_cons, referent?_eq h]
      by_cases hother : referredName field.declaredType ∈ model.names ∧
          referredName field.declaredType ≠ decl.name
      · simp only [if_pos hother, decide_eq_true hother, Option.map_some, if_true,
          List.map_cons, ih]
      · simp only [if_neg hother, decide_eq_false hother, Option.map_none, ih]
        rfl

theorem mem_supertypeLinks (h : model.Consistent) {link : Relationship} :
    link ∈ supertypeLinks model decl ↔
      ∃ target kind, (target, kind) ∈ supertypes decl ∧ target ∈ model.names ∧
        link = { source := decl.name, target, kind } := by
  unfold supertypeLinks
  simp only [List.mem_map, List.mem_filter, Prod.exists, h.contains_iff, and_assoc,
    eq_comm (b := link)]

theorem mem_supertypes_generalization {target : String} :
    (target, .generalization) ∈ supertypes decl ↔
      decl.superclass = some target ∨ target ∈ decl.extendedInterfaces := by
  simp [supertypes]

theorem mem_supertypes_realization {target : String} :
    (target, .realization) ∈ supertypes decl ↔ target ∈ decl.implementedInterfaces := by
  simp [supertypes]

theorem contributes_iff {operation : Operation} :
    contributes options operation = true ↔ Contributing options operation := by
  unfold contributes Contributing
  cases options.dependencies <;> simp

/-- The links between parameters and declared types, repetitions and all. -/
theorem mem_parameterLinks (h : model.Consistent) {operation : Operation}
    {link : Relationship} :
    link ∈ parameterLinks model decl operation ↔
      ∃ target, (∃ parameter ∈ operation.parameters,
        referredName parameter.declaredType = target) ∧
        target ∈ model.names ∧ target ≠ decl.name ∧
        link = {
          source := decl.name, target, kind := .dependency, label := some operation.name } := by
  unfold parameterLinks
  simp only [List.mem_filterMap, Option.map_eq_some_iff, referent?_eq_some_iff h]
  constructor
  · rintro ⟨parameter, hparameter, target, ⟨htarget, hmodeled, hother⟩, rfl⟩
    exact ⟨target, ⟨parameter, hparameter, htarget⟩, hmodeled, hother, rfl⟩
  · rintro ⟨target, ⟨parameter, hparameter, htarget⟩, hmodeled, hother, rfl⟩
    exact ⟨parameter, hparameter, target, ⟨htarget, hmodeled, hother⟩, rfl⟩

theorem nodup_keys_dependencyLinks (options : Options) (model : Model) (decl : Declaration) :
    ((dependencyLinks options model decl).map key).Nodup := by
  rw [dependencyLinks, dropRepeated_eq_newLinks]
  exact nodup_keys_newLinks _ _

theorem mem_keys_dependencyLinks (h : model.Consistent)
    {k : String × String × RelationshipKind × Option String} :
    k ∈ (dependencyLinks options model decl).map key ↔
      ∃ operation ∈ decl.operations, Contributing options operation ∧
        ∃ target, (∃ parameter ∈ operation.parameters,
          referredName parameter.declaredType = target) ∧
          target ∈ model.names ∧ target ≠ decl.name ∧
          k = (decl.name, target, .dependency, some operation.name) := by
  rw [dependencyLinks, dropRepeated_eq_newLinks, mem_keys_newLinks]
  simp only [List.map_nil, List.not_mem_nil, not_false_eq_true, and_true, List.mem_map,
    List.mem_flatMap, List.mem_filter, contributes_iff, mem_parameterLinks h]
  constructor
  · rintro ⟨link, ⟨operation, ⟨hoperation, hcounts⟩, target, hparameter, hmodeled, hother, rfl⟩,
      rfl⟩
    exact ⟨operation, hoperation, hcounts, target, hparameter, hmodeled, hother, rfl⟩
  · rintro ⟨operation, hoperation, hcounts, target, hparameter, hmodeled, hother, rfl⟩
    exact ⟨_, ⟨operation, ⟨hoperation, hcounts⟩, target, hparameter, hmodeled, hother, rfl⟩, rfl⟩

/-! ## The kinds of the three passes -/

theorem isStructural_of_mem_fieldLinks {link : Relationship}
    (h : link ∈ fieldLinks options model decl) : link.kind.isStructural = true := by
  obtain ⟨field, -, hlink⟩ := List.mem_filterMap.mp h
  obtain ⟨target, -, rfl⟩ := Option.map_eq_some_iff.mp hlink
  exact isStructural_classify options field

theorem kind_of_mem_supertypeLinks {link : Relationship}
    (h : link ∈ supertypeLinks model decl) :
    link.kind = .generalization ∨ link.kind = .realization := by
  obtain ⟨⟨target, kind⟩, hsupertype, rfl⟩ := List.mem_map.mp h
  have hkind := (List.mem_filter.mp hsupertype).1
  simp only [supertypes, List.mem_append, List.mem_map, Prod.mk.injEq] at hkind
  obtain ⟨_, -, -, rfl⟩ | ⟨_, -, -, rfl⟩ := hkind
  · exact Or.inl rfl
  · exact Or.inr rfl

theorem kind_of_mem_dependencyLinks {link : Relationship}
    (h : link ∈ dependencyLinks options model decl) : link.kind = .dependency := by
  obtain ⟨operation, -, hlink⟩ := List.mem_flatMap.mp (mem_of_mem_dropRepeated h)
  obtain ⟨parameter, -, hlink⟩ := List.mem_filterMap.mp hlink
  obtain ⟨target, -, rfl⟩ := Option.map_eq_some_iff.mp hlink
  rfl

theorem filter_structural_linksOf (options : Options) (model : Model) (decl : Declaration) :
    (linksOf options model decl).filter (·.kind.isStructural) = fieldLinks options model decl := by
  have hsupertypes : (supertypeLinks model decl).filter (·.kind.isStructural) = [] := by
    refine List.filter_eq_nil_iff.mpr fun link hlink => ?_
    rcases kind_of_mem_supertypeLinks hlink with hkind | hkind <;> rw [hkind] <;> decide
  have hdependencies :
      (dependencyLinks options model decl).filter (·.kind.isStructural) = [] := by
    refine List.filter_eq_nil_iff.mpr fun link hlink => ?_
    rw [kind_of_mem_dependencyLinks hlink]
    decide
  rw [linksOf, List.filter_append, List.filter_append, hsupertypes, hdependencies,
    List.append_nil, List.append_nil, List.filter_eq_self]
  exact fun link hlink => isStructural_of_mem_fieldLinks hlink

theorem filter_dependency_linksOf (options : Options) (model : Model) (decl : Declaration) :
    (linksOf options model decl).filter (·.kind = .dependency) =
      dependencyLinks options model decl := by
  have hfields : (fieldLinks options model decl).filter (·.kind = .dependency) = [] := by
    refine List.filter_eq_nil_iff.mpr fun link hlink hkind => ?_
    have hstructural := isStructural_of_mem_fieldLinks hlink
    rw [of_decide_eq_true hkind] at hstructural
    contradiction
  have hsupertypes : (supertypeLinks model decl).filter (·.kind = .dependency) = [] := by
    refine List.filter_eq_nil_iff.mpr fun link hlink => ?_
    rcases kind_of_mem_supertypeLinks hlink with hkind | hkind <;> rw [hkind] <;> decide
  rw [linksOf, List.filter_append, List.filter_append, hfields, hsupertypes, List.nil_append,
    List.nil_append, List.filter_eq_self]
  exact fun link hlink => decide_eq_true (kind_of_mem_dependencyLinks hlink)

/-- Generalizations and realizations come from the supertypes alone. -/
theorem mem_linksOf_of_supertype {link : Relationship}
    (hkind : link.kind = .generalization ∨ link.kind = .realization) :
    link ∈ linksOf options model decl ↔ link ∈ supertypeLinks model decl := by
  have hfields : link ∉ fieldLinks options model decl := by
    intro hlink
    have hstructural := isStructural_of_mem_fieldLinks hlink
    rcases hkind with hkind | hkind <;> rw [hkind] at hstructural <;> contradiction
  have hdependencies : link ∉ dependencyLinks options model decl := by
    intro hlink
    have hdependency := kind_of_mem_dependencyLinks hlink
    rcases hkind with hkind | hkind <;> rw [hkind] at hdependency <;> contradiction
  rw [linksOf, List.mem_append, List.mem_append]
  simp only [hfields, hdependencies, false_or, or_false]

/-! ## What the whole model gives -/

theorem source_of_mem_linksOf {link : Relationship} (h : link ∈ linksOf options model decl) :
    link.source = decl.name :=
  (origin_of_mem_linksOf h).source_eq

/-- Links that start at distinct declarations are told apart by their sources. -/
theorem filter_source_flatMap {types : List Declaration}
    (hnodup : (types.map Declaration.name).Nodup) (hdecl : decl ∈ types) :
    (types.flatMap (linksOf options model)).filter (·.source = decl.name) =
      linksOf options model decl := by
  -- nothing from a declaration of another name is kept
  have hother : ∀ others : List Declaration, decl.name ∉ others.map Declaration.name →
      (others.flatMap (linksOf options model)).filter (·.source = decl.name) = [] := by
    intro others hfresh
    refine List.filter_eq_nil_iff.mpr fun link hlink hsource => hfresh ?_
    obtain ⟨other, hmem, hlink⟩ := List.mem_flatMap.mp hlink
    rw [← of_decide_eq_true hsource, source_of_mem_linksOf hlink]
    exact List.mem_map_of_mem hmem
  obtain ⟨before, after, rfl⟩ := List.append_of_mem hdecl
  rw [List.map_append, List.map_cons, List.nodup_middle, List.nodup_cons, List.mem_append,
    not_or] at hnodup
  rw [List.flatMap_append, List.flatMap_cons, List.filter_append, List.filter_append,
    hother before hnodup.1.1, hother after hnodup.1.2, List.nil_append, List.append_nil,
    List.filter_eq_self]
  exact fun link hlink => decide_eq_true (source_of_mem_linksOf hlink)

/-- The relationships that start at a declaration are those it gives. -/
theorem filter_source_infer (h : model.Consistent) (hdecl : decl ∈ model.types) :
    (infer options model).filter (·.source = decl.name) = linksOf options model decl :=
  filter_source_flatMap h.names_nodup hdecl

theorem mem_infer_and_source_iff (h : model.Consistent) (hdecl : decl ∈ model.types)
    {link : Relationship} :
    link ∈ infer options model ∧ link.source = decl.name ↔ link ∈ linksOf options model decl := by
  rw [← filter_source_infer h hdecl, List.mem_filter, decide_eq_true_iff]

theorem structural_of_infer (h : model.Consistent) (hdecl : decl ∈ model.types) :
    (infer options model).filter (fun link =>
      link.kind.isStructural ∧ link.source = decl.name) = fieldLinks options model decl := by
  rw [← filter_structural_linksOf, ← filter_source_infer h hdecl, List.filter_filter]
  simp only [Bool.decide_and, Bool.decide_eq_true]

/-- A supertype gives a link of its kind exactly if it is declared. -/
theorem exists_supertype_link_iff (h : model.Consistent) (hdecl : decl ∈ model.types)
    {target : String} {kind : RelationshipKind}
    (hkind : kind = .generalization ∨ kind = .realization) :
    (∃ link ∈ infer options model,
        link.source = decl.name ∧ link.target = target ∧ link.kind = kind) ↔
      target ∈ model.names ∧ (target, kind) ∈ supertypes decl := by
  constructor
  · rintro ⟨link, hlink, hsource, rfl, rfl⟩
    have hgiven := (mem_infer_and_source_iff h hdecl).mp ⟨hlink, hsource⟩
    rw [mem_linksOf_of_supertype hkind, mem_supertypeLinks h] at hgiven
    obtain ⟨target, kind, hsupertype, hmodeled, rfl⟩ := hgiven
    exact ⟨hmodeled, hsupertype⟩
  · rintro ⟨hmodeled, hsupertype⟩
    let link : Relationship := { source := decl.name, target, kind }
    have hgiven : link ∈ linksOf options model decl := by
      rw [mem_linksOf_of_supertype hkind, mem_supertypeLinks h]
      exact ⟨target, kind, hsupertype, hmodeled, rfl⟩
    exact ⟨link, ((mem_infer_and_source_iff h hdecl).mpr hgiven).1, rfl, rfl, rfl⟩

/-- A dependency is found exactly if a parameter of a contributing operation
refers to another declared type. -/
theorem exists_dependency_iff (h : model.Consistent) (hdecl : decl ∈ model.types)
    {target : String} {label : Option String} :
    (∃ link ∈ infer options model, link.source = decl.name ∧ link.target = target ∧
        link.kind = .dependency ∧ link.label = label) ↔
      ∃ operation ∈ decl.operations, Contributing options operation ∧
        label = some operation.name ∧
        (∃ parameter ∈ operation.parameters,
          referredName parameter.declaredType = target) ∧
        target ∈ model.names ∧ target ≠ decl.name := by
  have hkeys : (∃ link ∈ infer options model, link.source = decl.name ∧ link.target = target ∧
        link.kind = .dependency ∧ link.label = label) ↔
      (decl.name, target, .dependency, label) ∈ (dependencyLinks options model decl).map key := by
    simp only [← filter_dependency_linksOf, List.mem_map, List.mem_filter,
      ← mem_infer_and_source_iff h hdecl, key, Prod.mk.injEq, decide_eq_true_eq]
    constructor
    · rintro ⟨link, hlink, hsource, htarget, hkind, hlabel⟩
      exact ⟨link, ⟨⟨hlink, hsource⟩, hkind⟩, hsource, htarget, hkind, hlabel⟩
    · rintro ⟨link, ⟨⟨hlink, -⟩, -⟩, hsource, htarget, hkind, hlabel⟩
      exact ⟨link, hlink, hsource, htarget, hkind, hlabel⟩
  rw [hkeys, mem_keys_dependencyLinks h]
  constructor
  · rintro ⟨operation, hoperation, hcounts, other, hparameter, hmodeled, hother, hkey⟩
    obtain ⟨-, rfl, -, rfl⟩ := by simpa only [Prod.mk.injEq] using hkey
    exact ⟨operation, hoperation, hcounts, rfl, hparameter, hmodeled, hother⟩
  · rintro ⟨operation, hoperation, hcounts, rfl, hparameter, hmodeled, hother⟩
    exact ⟨operation, hoperation, hcounts, target, hparameter, hmodeled, hother, rfl⟩

/-- No dependency is found twice: within a declaration repetitions are dropped,
and different declarations have different names. -/
theorem nodup_dependencies (h : model.Consistent) :
    (((infer options model).filter (·.kind = .dependency)).map fun link =>
      (link.source, link.target, link.label)).Nodup := by
  have hkeys : (((infer options model).filter (·.kind = .dependency)).map key).Nodup := by
    have hgiven : (infer options model).filter (·.kind = .dependency) =
        model.types.flatMap (dependencyLinks options model) := by
      rw [infer_eq_flatMap, List.filter_flatMap]
      simp only [filter_dependency_linksOf]
    rw [hgiven, List.map_flatMap, List.nodup_flatMap]
    refine ⟨fun decl _ => nodup_keys_dependencyLinks options model decl, ?_⟩
    refine (List.pairwise_map.mp h.names_nodup).imp fun {first second} hne => ?_
    intro k hfirst hsecond
    obtain ⟨_, -, -, _, -, -, -, rfl⟩ := (mem_keys_dependencyLinks h).mp hfirst
    obtain ⟨_, -, -, _, -, -, -, hkey⟩ := (mem_keys_dependencyLinks h).mp hsecond
    exact hne (congrArg Prod.fst hkey)
  -- among dependencies the key says no more than source, target and label
  have hkey : ((infer options model).filter (·.kind = .dependency)).map key =
      (((infer options model).filter (·.kind = .dependency)).map fun link =>
        (link.source, link.target, link.label)).map fun parts =>
          (parts.1, parts.2.1, .dependency, parts.2.2) := by
    rw [List.map_map]
    refine List.map_congr_left fun link hlink => ?_
    rw [Function.comp_apply, key, of_decide_eq_true (List.mem_filter.mp hlink).2]
  rw [hkey] at hkeys
  exact hkeys.of_map _

/-- Inference is exact: the structural relationships of a type are those its
fields depict, in order; a generalization or realization stands for a declared
supertype; a dependency stands for a parameter of a contributing operation and
is found once; and all that is inferred is added and counted. -/
theorem inference_exact (options : Options) {model : Model} (h : model.Consistent) :
    (∀ decl ∈ model.types,
      List.Forall₂ (Depicts options decl.name)
        (decl.fields.filter fun field => referredName field.declaredType ∈ model.names ∧
          referredName field.declaredType ≠ decl.name)
        ((infer options model).filter fun link =>
          link.kind.isStructural ∧ link.source = decl.name) ∧
      (∀ target,
        (∃ link ∈ infer options model, link.source = decl.name ∧ link.target = target ∧
          link.kind = .generalization) ↔
        target ∈ model.names ∧
          (decl.superclass = some target ∨ target ∈ decl.extendedInterfaces)) ∧
      (∀ target,
        (∃ link ∈ infer options model, link.source = decl.name ∧ link.target = target ∧
          link.kind = .realization) ↔
        target ∈ model.names ∧ target ∈ decl.implementedInterfaces) ∧
      ∀ target label,
        (∃ link ∈ infer options model, link.source = decl.name ∧ link.target = target ∧
          link.kind = .dependency ∧ link.label = label) ↔
        options.dependencies ≠ .off ∧
          ∃ operation ∈ decl.operations, Contributing options operation ∧
            label = some operation.name ∧
            (∃ parameter ∈ operation.parameters,
              referredName parameter.declaredType = target) ∧
            target ∈ model.names ∧ target ≠ decl.name) ∧
    (((infer options model).filter (·.kind = .dependency)).map fun link =>
      (link.source, link.target, link.label)).Nodup ∧
    apply options model =
      ({ model with relationships := model.relationships ++ infer options model },
        (infer options model).length) := by
  refine ⟨?_, nodup_dependencies h, apply_eq_append options h⟩
  intro decl hdecl
  refine ⟨?_, ?_, ?_, ?_⟩
  · rw [structural_of_infer h hdecl, fieldLinks_eq_map h, List.forall₂_map_right_iff,
      List.forall₂_same]
    exact fun field _ => depicts_classify options decl.name field
  · intro target
    rw [exists_supertype_link_iff h hdecl (Or.inl rfl), mem_supertypes_generalization]
  · intro target
    rw [exists_supertype_link_iff h hdecl (Or.inr rfl), mem_supertypes_realization]
  · intro target label
    rw [exists_dependency_iff h hdecl]
    constructor
    · rintro ⟨operation, hoperation, hcounts, hrest⟩
      exact ⟨hcounts.enabled, operation, hoperation, hcounts, hrest⟩
    · exact fun hfound => hfound.2

/-- A type with owned and shared fields, supertypes in and out of the model,
and an operation that names one type twice. -/
def shelf : Declaration where
  name := "Shelf"
  kind := .«class»
  superclass := some "Place"
  implementedInterfaces := ["Sorted", "Ghost"]
  members := [
    .field ⟨"books", "List<Book>", .«private», false, true⟩,
    .field ⟨"next", "Shelf", .«private», false, false⟩,
    .field ⟨"first", "lib.Book", .«private», true, true⟩,
    .field ⟨"label", "String", .«private», false, true⟩,
    .operation { name := "addBook", parameters := [⟨"one", "Book"⟩, ⟨"more", "Book[]"⟩] },
    .operation { name := "lend", parameters := [⟨"to", "Place"⟩] }]

/-- A shelf with the types it refers to. -/
def library : Model where
  name := "library"
  types := [shelf, { name := "Book", kind := .«class» }, { name := "Place", kind := .«class» },
    { name := "Sorted", kind := .interface }]
  index := [("Sorted", 3), ("Place", 2), ("Book", 1), ("Shelf", 0)]

theorem inference_exact_library :
    library.Consistent ∧
      List.Forall₂ (Depicts ⟨.collectionFirst, .keyOperations⟩ "Shelf")
        [⟨"books", "List<Book>", .«private», false, true⟩,
          ⟨"first", "lib.Book", .«private», true, true⟩]
        ((infer ⟨.collectionFirst, .keyOperations⟩ library).filter fun link =>
          link.kind.isStructural ∧ link.source = "Shelf") ∧
      (∃ link ∈ infer ⟨.collectionFirst, .keyOperations⟩ library,
        link.source = "Shelf" ∧ link.target = "Place" ∧ link.kind = .generalization) ∧
      (¬∃ link ∈ infer ⟨.collectionFirst, .keyOperations⟩ library,
        link.source = "Shelf" ∧ link.target = "Ghost" ∧ link.kind = .realization) ∧
      (¬∃ link ∈ infer ⟨.collectionFirst, .keyOperations⟩ library,
        link.source = "Shelf" ∧ link.target = "Place" ∧ link.kind = .dependency ∧
          link.label = some "lend") ∧
      (apply ⟨.collectionFirst, .keyOperations⟩ library).2 = 5 := by
  have hconsistent : library.Consistent :=
    ⟨@indexes_indexOf library.types (by decide), by simp [library]⟩
  obtain ⟨hexact, -, hadded⟩ := inference_exact ⟨.collectionFirst, .keyOperations⟩ hconsistent
  obtain ⟨hfields, hgeneral, hreal, hdepend⟩ := hexact shelf (by simp [library])
  refine ⟨hconsistent, ?_, (hgeneral "Place").mpr (by decide),
    mt (hreal "Ghost").mp (by decide), mt (hdepend "Place" (some "lend")).mp ?_, ?_⟩
  · have hother : (shelf.fields.filter fun field =>
        referredName field.declaredType ∈ library.names ∧
          referredName field.declaredType ≠ shelf.name) =
        [⟨"books", "List<Book>", .«private», false, true⟩,
          ⟨"first", "lib.Book", .«private», true, true⟩] := by decide +kernel
    rw [hother] at hfields
    exact hfields
  · rintro ⟨-, operation, -, hcounts, hname, -⟩
    rw [Contributing, ← Option.some.inj hname] at hcounts
    revert hcounts
    decide +kernel
  · rw [hadded]
    decide +kernel

end ClassAtlas.Inference
