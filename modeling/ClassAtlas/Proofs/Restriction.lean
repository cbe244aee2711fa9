import ClassAtlas.Proofs.DeclaredLinks

/-!
# Filters of a run

The settings of a run can drop types before anything is inferred or merged.
This is shown to be the same as running without filters and dropping types from
the result: the types that are left are declared as before, and exactly the
relationships between them are left, in the same order. Three steps have to
commute with the filter: inference, which looks up every target, the removal of
repeated dependencies, and the merge, which skips a link if it is there already.
-/

namespace ClassAtlas

/-- A list and a part of it give the same where only the members of the part
give anything. -/
theorem flatMap_eq_of_sublist {α β : Type} {part whole : List α} {f g : α → List β}
    (hsub : part.Sublist whole) (hnodup : whole.Nodup)
    (hpart : ∀ a ∈ part, g a = f a) (hrest : ∀ a ∈ whole, a ∉ part → g a = []) :
    part.flatMap f = whole.flatMap g := by
  induction hsub with
  | slnil => rfl
  | @cons part whole a hsub ih =>
      obtain ⟨hnew, hnodup⟩ := List.nodup_cons.mp hnodup
      have ha : g a = [] := hrest a List.mem_cons_self fun hmem => hnew (hsub.mem hmem)
      rw [List.flatMap_cons, ha, List.nil_append]
      exact ih hnodup hpart fun b hb => hrest b (List.mem_cons_of_mem a hb)
  | @cons_cons part whole a hsub ih =>
      obtain ⟨hnew, hnodup⟩ := List.nodup_cons.mp hnodup
      obtain ⟨ha, hpart⟩ := List.forall_mem_cons.mp hpart
      rw [List.flatMap_cons, List.flatMap_cons, ha]
      rw [ih hnodup hpart ?_]
      intro b hb hout
      refine hrest b (List.mem_cons_of_mem a hb) (List.not_mem_cons_of_ne_of_not_mem ?_ hout)
      rintro rfl
      exact hnew hb

namespace Model

variable {small big : Model}

/-- A declaration of the larger model whose name the smaller one has is one of
its declarations. -/
theorem mem_types_of_contains (hsmall : small.Consistent) (hbig : big.Consistent)
    (hsub : small.types.Sublist big.types) {decl : Declaration} (hdecl : decl ∈ big.types)
    (hname : small.contains decl.name = true) : decl ∈ small.types := by
  obtain ⟨other, hother, hsame⟩ := List.mem_map.mp (hsmall.contains_iff.mp hname)
  have heq := List.inj_on_of_nodup_map hbig.names_nodup (hsub.mem hother) hdecl hsame
  exact heq ▸ hother

theorem contains_of_sublist (hsmall : small.Consistent) (hbig : big.Consistent)
    (hsub : small.types.Sublist big.types) {name : String}
    (h : small.contains name = true) : big.contains name = true := by
  rw [hsmall.contains_iff] at h
  exact hbig.contains_iff.mpr ((hsub.map Declaration.name).mem h)

theorem types_truncate (max : ℕ) (model : Model) :
    (model.truncate max).types = model.types.take max := by
  unfold truncate
  split
  next => rfl
  next hfits => exact (List.take_of_length_le (Nat.not_lt.mp hfits)).symm

end Model

namespace Inference

/-! ## Inference commutes with the filter -/

section

variable {options : Options} {small big : Model}
  (hcontains : ∀ name, small.contains name = true → big.contains name = true)

include hcontains

theorem filter_referent? (owner type : String) :
    (referent? big owner type).filter small.contains = referent? small owner type := by
  unfold referent?
  dsimp only
  generalize String.ofList (TypeText.baseName type.toList) = name
  by_cases howner : name = owner
  · simp [howner]
  · cases hsmall : small.contains name with
    | true => simp [howner, hsmall, hcontains name hsmall]
    | false => cases hbig : big.contains name <;> simp [howner, hsmall, Option.filter]

/-- Of the links that lead from a declaration to what its types refer to, those
within the smaller model are the ones that it gives. -/
theorem filter_map_referent? {owner : String} (howner : small.contains owner = true)
    (type : String) {link : String → Relationship}
    (hlink : ∀ target, (link target).source = owner ∧ (link target).target = target) :
    ((referent? big owner type).map link).filter small.joins =
      (referent? small owner type).map link := by
  have hjoins : small.joins ∘ link = small.contains := by
    funext target
    obtain ⟨hsource, htarget⟩ := hlink target
    rw [Function.comp_apply, Model.joins, hsource, htarget, howner, Bool.true_and]
  rw [Option.filter_map, hjoins, filter_referent? hcontains]

variable {decl : Declaration} (hdecl : small.contains decl.name = true)

include hdecl

theorem filter_fieldLinks :
    (fieldLinks options big decl).filter small.joins = fieldLinks options small decl := by
  rw [fieldLinks, fieldLinks, List.filter_filterMap]
  refine List.filterMap_congr fun field _ => ?_
  exact filter_map_referent? hcontains hdecl field.declaredType fun _ => ⟨rfl, rfl⟩

theorem filter_supertypeLinks :
    (supertypeLinks big decl).filter small.joins = supertypeLinks small decl := by
  rw [supertypeLinks, supertypeLinks, List.filter_map, List.filter_filter]
  congr 1
  refine List.filter_congr fun supertype _ => ?_
  simp only [Function.comp_apply, Model.joins, hdecl, Bool.true_and]
  cases hsmall : small.contains supertype.1 with
  | true => simp [hcontains _ hsmall]
  | false => rfl

theorem filter_parameterLinks (operation : Operation) :
    (parameterLinks big decl operation).filter small.joins =
      parameterLinks small decl operation := by
  rw [parameterLinks, parameterLinks, List.filter_filterMap]
  refine List.filterMap_congr fun parameter _ => ?_
  exact filter_map_referent? hcontains hdecl parameter.declaredType fun _ => ⟨rfl, rfl⟩

theorem filter_dependencyLinks :
    (dependencyLinks options big decl).filter small.joins =
      dependencyLinks options small decl := by
  rw [dependencyLinks, dependencyLinks, dropRepeated_eq_newLinks, dropRepeated_eq_newLinks,
    filter_newLinks fun _ _ hsame => Model.joins_eq_of_key_eq hsame, List.filter_nil,
    List.filter_flatMap]
  congr 2
  funext operation
  exact filter_parameterLinks hcontains hdecl operation

theorem filter_linksOf :
    (linksOf options big decl).filter small.joins = linksOf options small decl := by
  rw [linksOf, linksOf, List.filter_append, List.filter_append, filter_fieldLinks hcontains hdecl,
    filter_supertypeLinks hcontains hdecl, filter_dependencyLinks hcontains hdecl]

end

/-- From part of the declarations exactly the relationships between them are
inferred. -/
theorem filter_infer (options : Options) {small big : Model} (hsmall : small.Consistent)
    (hbig : big.Consistent) (hsub : small.types.Sublist big.types) :
    (infer options big).filter small.joins = infer options small := by
  rw [infer_eq_flatMap, infer_eq_flatMap, List.filter_flatMap, eq_comm]
  refine flatMap_eq_of_sublist hsub (List.Nodup.of_map _ hbig.names_nodup) ?_ ?_
  · intro decl hdecl
    have hname : small.contains decl.name = true :=
      hsmall.contains_iff.mpr (List.mem_map_of_mem hdecl)
    exact filter_linksOf (fun _ => Model.contains_of_sublist hsmall hbig hsub) hname
  · -- every link of a dropped declaration starts at it
    intro decl hdecl hout
    rw [List.filter_eq_nil_iff]
    intro link hlink hjoins
    rw [Model.joins, Bool.and_eq_true, (origin_of_mem_linksOf hlink).source_eq] at hjoins
    exact hout (Model.mem_types_of_contains hsmall hbig hsub hdecl hjoins.1)

end Inference

/-- The declarations that settings keep: those in a package that passes the
filter, and of these the first ones up to the limit. -/
def Settings.kept (settings : Settings) (types : List Declaration) : List Declaration :=
  let passed := types.filter fun decl => settings.keepsPackage decl.package
  match settings.maxTypes with
  | none => passed
  | some max => passed.take max

theorem Settings.kept_sublist (settings : Settings) (types : List Declaration) :
    (settings.kept types).Sublist types := by
  unfold kept
  split
  · exact List.filter_sublist
  · exact (List.take_sublist _ _).trans List.filter_sublist

theorem Settings.kept_map_settled (settings : Settings) (types : List Declaration) :
    settings.kept (types.map Declaration.settled) =
      (settings.kept types).map Declaration.settled := by
  have hpassed : (types.map Declaration.settled).filter
      (fun decl => settings.keepsPackage decl.package) =
        (types.filter fun decl => settings.keepsPackage decl.package).map Declaration.settled :=
    List.filter_map
  unfold kept
  rw [hpassed]
  cases settings.maxTypes with
  | none => rfl
  | some max => exact List.map_take.symm

namespace Conversion

open Inference

theorem types_filtered (settings : Settings) (model : Model) :
    (filtered settings model).types = settings.kept model.types := by
  have hpassed : (if settings.packageFilter.isSome then
      model.retain fun decl => settings.keepsPackage decl.package else model).types =
        model.types.filter fun decl => settings.keepsPackage decl.package := by
    cases hfilter : settings.packageFilter with
    | some start => rfl
    | none =>
        refine (List.filter_eq_self.mpr fun decl _ => ?_).symm
        rw [Settings.keepsPackage, hfilter]
  unfold filtered Settings.kept
  dsimp only
  cases settings.maxTypes with
  | none => exact hpassed
  | some max =>
      dsimp only
      rw [Model.types_truncate, hpassed]

/-- The settings without filters. -/
def unfiltered (settings : Settings) : Settings :=
  { settings with packageFilter := none, maxTypes := none }

/-- A run with filters ends with the kept declarations and the relationships
between them. -/
theorem linked_unfiltered (settings : Settings) (calls : List Call) :
    let whole := (calls.foldl call (start (unfiltered settings))).linked.1
    let part := (calls.foldl call (start settings)).linked.1
    part.types = settings.kept whole.types ∧
      part.relationships = whole.relationships.filter part.joins := by
  have hsmall : (modelOf settings calls).Consistent := consistent_modelOf settings calls
  have hbig : (modelOf (unfiltered settings) calls).Consistent :=
    consistent_modelOf (unfiltered settings) calls
  have htypes : (modelOf settings calls).types =
      settings.kept (modelOf (unfiltered settings) calls).types := types_filtered settings _
  have hsub : (modelOf settings calls).types.Sublist
      (modelOf (unfiltered settings) calls).types := by
    rw [htypes]
    exact settings.kept_sublist _
  have hstated : ∀ links : List Relationship,
      (links.filter (modelOf (unfiltered settings) calls).joins).filter
        (modelOf settings calls).joins = links.filter (modelOf settings calls).joins := by
    intro links
    rw [List.filter_filter]
    refine List.filter_congr fun link _ => Bool.and_eq_left_iff_imp.mpr fun hlink => ?_
    obtain ⟨hsource, htarget⟩ := (Bool.and_eq_true _ _).mp hlink
    exact (Bool.and_eq_true _ _).mpr ⟨Model.contains_of_sublist hsmall hbig hsub hsource,
      Model.contains_of_sublist hsmall hbig hsub htarget⟩
  intro whole part
  have hwhole : whole = _ := congrArg Prod.fst (linked_foldl_call (unfiltered settings) calls)
  have hlinked : part = _ := congrArg Prod.fst (linked_foldl_call settings calls)
  rw [hwhole, hlinked]
  refine ⟨htypes, ?_⟩
  change _ = List.filter (modelOf settings calls).joins _
  dsimp only
  rw [List.filter_append, filter_infer _ hsmall hbig hsub,
    filter_newLinks fun _ _ hsame => Model.joins_eq_of_key_eq hsame,
    filter_infer _ hsmall hbig hsub, hstated]
  rfl

/-- Running with filters is restricting the run without them: the types are
those that the settings keep, with the same declarations, and the relationships
are those between them, in the same order. -/
theorem filters_restrict_run (settings : Settings) (units : List SourceUnit)
    (digest : String → String) :
    let whole := units.foldl addUnit (start (unfiltered settings))
    let part := units.foldl addUnit (start settings)
    (Registry.CollisionFree digest settings.modelName whole.linked.1.paths →
      (whole.finishWith? digest).isSome = true) ∧
    (Registry.CollisionFree digest settings.modelName part.linked.1.paths →
      (part.finishWith? digest).isSome = true) ∧
    ∀ all kept, whole.finishWith? digest = some all → part.finishWith? digest = some kept →
      let declared := all.assembly.types.map TypeNode.declaration
      let names := kept.assembly.types.map TypeNode.name
      kept.assembly.types.map TypeNode.declaration = settings.kept declared ∧
        (settings.kept declared).Sublist declared ∧
        kept.assembly.links.map LinkNode.relationship =
          (all.assembly.links.map LinkNode.relationship).filter fun link =>
            link.source ∈ names ∧ link.target ∈ names := by
  intro whole part
  have hwholeSettings : whole.settings = unfiltered settings :=
    settings_foldl_addUnit (start (unfiltered settings)) units
  have hpartSettings : part.settings = settings := settings_foldl_addUnit (start settings) units
  have hwholeModel : whole.model.Consistent :=
    consistent_foldl_addUnit (consistent_start (unfiltered settings)) units
  have hpartModel : part.model.Consistent :=
    consistent_foldl_addUnit (consistent_start settings) units
  refine ⟨fun hfree => isSome_finishWith? ?_, fun hfree => isSome_finishWith? ?_, ?_⟩
  · rw [hwholeSettings]
    exact hfree
  · rw [hpartSettings]
    exact hfree
  · intro all kept hall hkept declared names
    obtain ⟨wholeAssembled, -, hwhole, rfl⟩ := finishWith?_spec hwholeModel hall
    obtain ⟨partAssembled, -, hpart, rfl⟩ := finishWith?_spec hpartModel hkept
    obtain ⟨htypes, hlinks⟩ : part.linked.1.types = settings.kept whole.linked.1.types ∧
        part.linked.1.relationships = whole.linked.1.relationships.filter part.linked.1.joins := by
      rw [show whole = _ from foldl_addUnit _ units, show part = _ from foldl_addUnit _ units]
      exact linked_unfiltered settings (units.map .unit)
    have hjoins : ∀ link : Relationship, part.linked.1.joins link =
        decide (link.source ∈ names ∧ link.target ∈ names) := by
      intro link
      rw [Bool.eq_iff_iff, decide_eq_true_iff, show names = _ from hpart.names_eq]
      exact (consistent_linked hpartModel).joins_iff
    refine ⟨?_, settings.kept_sublist declared, ?_⟩
    · rw [show declared = _ from hwhole.declarations_eq, settings.kept_map_settled, ← htypes]
      exact hpart.declarations_eq
    · change partAssembled.assembly.links.map LinkNode.relationship =
        (wholeAssembled.assembly.links.map LinkNode.relationship).filter _
      rw [hpart.links_eq, hwhole.links_eq, hlinks]
      exact List.filter_congr fun link _ => hjoins link

/-- Types of two packages, with an inferred, a repeated and a new link between
them. -/
def packagedUnits : List SourceUnit := [
  ⟨"a.puml", "package acme \x7b\nclass A \x7b\n-b : B\n\x7d\nclass B\n\x7d\nFar <|-- A\n"⟩,
  ⟨"b.puml", "class Far\nA --> B : b\nA ..> B\nFar ..> B\n"⟩]

/-- Settings that keep the first two types of a package. -/
def packagedSettings : Settings where
  packageFilter := some "ac"
  maxTypes := some 2

theorem filters_restrict_run_packagedUnits :
    ∃ all kept,
      (packagedUnits.foldl addUnit (start (unfiltered packagedSettings))).finishWith? id =
        some all ∧
      (packagedUnits.foldl addUnit (start packagedSettings)).finishWith? id = some kept ∧
      all.assembly.types.map TypeNode.name = ["A", "B", "Far"] ∧
      all.assembly.links.map LinkNode.relationship = [
        ⟨"A", "B", .association, some "b", none⟩, ⟨"A", "Far", .generalization, none, none⟩,
        ⟨"A", "B", .dependency, none, none⟩, ⟨"Far", "B", .dependency, none, none⟩] ∧
      kept.assembly.types.map TypeNode.name = ["A", "B"] ∧
      kept.assembly.links.map LinkNode.relationship = [
        ⟨"A", "B", .association, some "b", none⟩, ⟨"A", "B", .dependency, none, none⟩] := by
  obtain ⟨hwhole, hpart, hrestrict⟩ := filters_restrict_run packagedSettings packagedUnits id
  have hfree := Registry.collisionFree_of_injective Function.injective_id
  obtain ⟨all, hall⟩ := Option.isSome_iff_exists.mp (hwhole (hfree _ _))
  obtain ⟨kept, hkept⟩ := Option.isSome_iff_exists.mp (hpart (hfree _ _))
  obtain ⟨htypes, -, hlinks⟩ := hrestrict all kept hall hkept
  have hfound : ((packagedUnits.foldl addUnit (start (unfiltered packagedSettings))).finishWith?
      id).map (fun all => (all.assembly.types.map TypeNode.name,
        (packagedSettings.kept (all.assembly.types.map TypeNode.declaration)).map Declaration.name,
        all.assembly.links.map LinkNode.relationship)) = some (["A", "B", "Far"], ["A", "B"], [
          ⟨"A", "B", .association, some "b", none⟩, ⟨"A", "Far", .generalization, none, none⟩,
          ⟨"A", "B", .dependency, none, none⟩, ⟨"Far", "B", .dependency, none, none⟩]) := by
    decide +kernel
  rw [hall, Option.map_some, Option.some.injEq, Prod.mk.injEq, Prod.mk.injEq, ← htypes,
    List.map_map] at hfound
  obtain ⟨hallNames, hnames, hallLinks⟩ := hfound
  have hkeptNames : kept.assembly.types.map TypeNode.name = ["A", "B"] := hnames
  refine ⟨all, kept, hall, hkept, hallNames, hallLinks, hkeptNames, ?_⟩
  rw [hlinks, hkeptNames, hallLinks]
  decide +kernel

end Conversion

end ClassAtlas
