import ClassAtlas.Proofs.Restriction
import ClassAtlas.Proofs.Assembly.Determinacy

/-!
# The order of units

The order in which units are converted is not significant as long as no type
name is read from two different units. Look-ups by name are the same then,
although the declarations stand in another order, and everything that a run
does afterwards goes by look-ups: inference finds its targets by name, a stated
link is merged if both its ends are declared, and is reported otherwise. Which
of two equal links is kept depends on the order, so that relationships agree up
to their multiplicity.

The one thing that depends on the order is how a type text with a slash is
resolved, since it can find the path of a member that was issued before. The
last result gives two units that show it.
-/

namespace ClassAtlas

open Relationship

namespace Model

variable {model other : Model}

/-! ## Look-ups after insertions -/

theorem Consistent.get?_insert (h : model.Consistent) (decl : Declaration) (name : String) :
    (model.insert decl).get? name = if decl.name = name then some decl else model.get? name := by
  have hbound : ∀ key slot, model.slot? key = some slot → slot < model.types.length := by
    intro key slot hslot
    have hlt := (List.getElem?_eq_some_iff.mp ((h.indexed key slot).mp hslot)).1
    rwa [names, List.length_map] at hlt
  unfold Model.insert
  split
  next slot hslot =>
    change (model.slot? name).bind (fun place => (model.types.set slot decl)[place]?) = _
    by_cases hname : decl.name = name
    · subst hname
      rw [if_pos rfl, hslot, Option.bind_some, List.getElem?_set_self (hbound _ _ hslot)]
    · rw [if_neg hname, get?]
      refine Option.bind_congr fun place hplace => List.getElem?_set_ne ?_
      rintro rfl
      have hfirst := (h.indexed _ _).mp hslot
      have hsecond := (h.indexed _ _).mp hplace
      exact hname (Option.some.inj (hfirst.symm.trans hsecond))
  next hslot =>
    change (((decl.name, model.types.length) :: model.index).lookup name).bind
      (fun place => (model.types ++ [decl])[place]?) = _
    by_cases hname : decl.name = name
    · subst hname
      rw [if_pos rfl, List.lookup_cons_self, Option.bind_some, List.getElem?_concat_length]
    · rw [if_neg hname, List.lookup_cons, beq_eq_false_iff_ne.mpr (Ne.symm hname), get?]
      exact Option.bind_congr fun place hplace =>
        List.getElem?_append_left (hbound _ _ hplace)

/-- The latest of the inserted declarations of a name is found. -/
theorem Consistent.get?_foldl_insert (h : model.Consistent) (decls : List Declaration)
    (name : String) :
    (decls.foldl Model.insert model).get? name =
      (decls.reverse.find? (·.name == name)).or (model.get? name) := by
  induction decls generalizing model with
  | nil => rfl
  | cons decl decls ih =>
      rw [List.foldl_cons, ih (h.insert decl), h.get?_insert, List.reverse_cons,
        List.find?_append]
      cases decls.reverse.find? (·.name == name) with
      | some later => rfl
      | none =>
          by_cases hname : decl.name = name
          · simp [hname]
          · simp [hname]

/-- Models with the same look-ups have the same declarations up to order. -/
theorem Consistent.types_perm (h : model.Consistent) (h' : other.Consistent)
    (hget : ∀ name, model.get? name = other.get? name) : model.types.Perm other.types := by
  refine (List.perm_ext_iff_of_nodup (List.Nodup.of_map _ h.names_nodup)
    (List.Nodup.of_map _ h'.names_nodup)).mpr fun decl => ?_
  have hmem : decl ∈ model.types ↔ model.get? decl.name = some decl := by
    rw [h.get?_eq_some_iff, and_iff_left rfl]
  have hmem' : decl ∈ other.types ↔ other.get? decl.name = some decl := by
    rw [h'.get?_eq_some_iff, and_iff_left rfl]
  rw [hmem, hmem', hget]

theorem Consistent.contains_eq_of_perm (h : model.Consistent) (h' : other.Consistent)
    (hperm : model.types.Perm other.types) : model.contains = other.contains := by
  funext name
  rw [Bool.eq_iff_iff, h.contains_iff, h'.contains_iff]
  exact (hperm.map Declaration.name).mem_iff

end Model

namespace Inference

/-! ## Inference and merging up to order -/

variable {options : Options} {model other : Model}

/-- Inference depends on the other declarations only through their names. -/
theorem linksOf_congr (hcontains : model.contains = other.contains) :
    linksOf options model = linksOf options other := by
  have hreferent := referent?_congr hcontains
  have hparameters : parameterLinks model = parameterLinks other := by
    funext decl operation
    rw [parameterLinks, parameterLinks, hreferent]
  funext decl
  rw [linksOf, linksOf, fieldLinks, fieldLinks, supertypeLinks, supertypeLinks, dependencyLinks,
    dependencyLinks, hreferent, hcontains, hparameters]

theorem infer_perm (hperm : model.types.Perm other.types)
    (hcontains : model.contains = other.contains) :
    (infer options model).Perm (infer options other) := by
  rw [infer_eq_flatMap, infer_eq_flatMap, linksOf_congr hcontains]
  exact hperm.flatMap_right _

/-- The new links of a list are the same up to order and multiplicity if the
links are. -/
theorem newLinks_perm {known known' links links' : List Relationship}
    (hknown : (known.map key).Perm (known'.map key))
    (hlinks : (links.map key).Perm (links'.map key)) :
    ((newLinks known links).map key).Perm ((newLinks known' links').map key) := by
  refine (List.perm_ext_iff_of_nodup (nodup_keys_newLinks _ _)
    (nodup_keys_newLinks _ _)).mpr fun k => ?_
  rw [mem_keys_newLinks, mem_keys_newLinks, hlinks.mem_iff, hknown.mem_iff]

end Inference

/-- Without a limit, settings keep the same declarations in any order. -/
theorem Settings.kept_perm {settings : Settings} (hcap : settings.maxTypes = none)
    {types others : List Declaration} (h : types.Perm others) :
    (settings.kept types).Perm (settings.kept others) := by
  unfold kept
  rw [hcap]
  exact h.filter _

namespace Conversion

open Inference

/-! ## Runs over the same units -/

/-- No type name is read from two different units. -/
def Separate (units : List SourceUnit) : Prop :=
  ∀ unit ∈ units, ∀ other ∈ units, unit ≠ other →
    ∀ decl ∈ unit.read.types, ∀ twin ∈ other.read.types, decl.name ≠ twin.name

instance (units : List SourceUnit) : Decidable (Separate units) :=
  inferInstanceAs (Decidable (∀ unit ∈ units, ∀ other ∈ units, unit ≠ other →
    ∀ decl ∈ unit.read.types, ∀ twin ∈ other.read.types, decl.name ≠ twin.name))

/-- The declaration of a name that a unit leaves behind. -/
def latest? (unit : SourceUnit) (name : String) : Option Declaration :=
  unit.read.types.reverse.find? (·.name == name)

theorem of_latest?_eq_some {unit : SourceUnit} {name : String} {decl : Declaration}
    (h : latest? unit name = some decl) : decl ∈ unit.read.types ∧ decl.name = name := by
  unfold latest? at h
  have hname := List.find?_some h
  exact ⟨List.mem_reverse.mp (List.mem_of_find?_eq_some h), beq_iff_eq.mp hname⟩

theorem latest?_eq_none_or {unit other : SourceUnit}
    (h : ∀ decl ∈ unit.read.types, ∀ twin ∈ other.read.types, decl.name ≠ twin.name)
    (name : String) : latest? unit name = none ∨ latest? other name = none := by
  by_contra hboth
  rw [not_or] at hboth
  obtain ⟨decl, hdecl⟩ := Option.ne_none_iff_exists'.mp hboth.1
  obtain ⟨twin, htwin⟩ := Option.ne_none_iff_exists'.mp hboth.2
  obtain ⟨hmem, hname⟩ := of_latest?_eq_some hdecl
  obtain ⟨hmem', hname'⟩ := of_latest?_eq_some htwin
  exact h decl hmem twin hmem' (hname.trans hname'.symm)

/-- After units are read, a name leads to the declaration of the last unit that
has one. -/
theorem get?_units {model : Model} (h : model.Consistent) (units : List SourceUnit)
    (name : String) :
    (((units.map Call.unit).flatMap Call.types).foldl Model.insert model).get? name =
      units.foldl (fun found unit => (latest? unit name).or found) (model.get? name) := by
  induction units generalizing model with
  | nil => rfl
  | cons unit units ih =>
      rw [List.map_cons, List.flatMap_cons, List.foldl_append, List.foldl_cons,
        ih (h.foldl_insert _), h.get?_foldl_insert]
      rfl

theorem get?_units_perm {model : Model} (h : model.Consistent) {units others : List SourceUnit}
    (hperm : units.Perm others) (hseparate : Separate units) (name : String) :
    (((units.map Call.unit).flatMap Call.types).foldl Model.insert model).get? name =
      (((others.map Call.unit).flatMap Call.types).foldl Model.insert model).get? name := by
  rw [get?_units h, get?_units h]
  refine hperm.foldl_eq' ?_ _
  intro unit hunit other hother found
  by_cases heq : unit = other
  · rw [heq]
  · rcases latest?_eq_none_or (hseparate unit hunit other hother heq) name with hnone | hnone
    · simp [hnone]
    · simp [hnone]

theorem types_modelOf_perm {settings : Settings} (hcap : settings.maxTypes = none)
    {units others : List SourceUnit} (hperm : units.Perm others) (hseparate : Separate units) :
    (modelOf settings (units.map .unit)).types.Perm
      (modelOf settings (others.map .unit)).types := by
  have hnew : Model.Consistent { name := settings.modelName } :=
    Model.consistent_new settings.modelName
  rw [modelOf, modelOf, types_filtered, types_filtered]
  exact Settings.kept_perm hcap ((hnew.foldl_insert _).types_perm (hnew.foldl_insert _)
    (get?_units_perm hnew hperm hseparate))

/-- Two runs over the same units have the same declarations and problems up to
order, and the same relationships up to order and multiplicity. -/
theorem linked_perm {settings : Settings} (hcap : settings.maxTypes = none)
    {units others : List SourceUnit} (hperm : units.Perm others) (hseparate : Separate units) :
    let run := (units.foldl addUnit (start settings)).linked
    let twin := (others.foldl addUnit (start settings)).linked
    run.1.types.Perm twin.1.types ∧
      (run.1.relationships.map key).Perm (twin.1.relationships.map key) ∧
      run.2.Perm twin.2 := by
  have htypes := types_modelOf_perm hcap hperm hseparate
  have hcontains := (consistent_modelOf settings (units.map .unit)).contains_eq_of_perm
    (consistent_modelOf settings (others.map .unit)) htypes
  have hjoins : (modelOf settings (units.map .unit)).joins =
      (modelOf settings (others.map .unit)).joins := by
    funext link
    rw [Model.joins, Model.joins, hcontains]
  have hrejection : rejection (modelOf settings (units.map .unit)) =
      rejection (modelOf settings (others.map .unit)) := by
    funext unit link
    rw [rejection, rejection, hcontains]
  have hcalls : (units.map Call.unit).Perm (others.map Call.unit) := hperm.map _
  have hstated := hcalls.flatMap_right Call.stated
  have hinferred : (infer settings.inference (modelOf settings (units.map .unit))).Perm
      (infer settings.inference (modelOf settings (others.map .unit))) :=
    infer_perm htypes hcontains
  rw [foldl_addUnit, foldl_addUnit, linked_foldl_call, linked_foldl_call]
  refine ⟨htypes, ?_, ?_⟩
  · dsimp only
    rw [List.map_append, List.map_append, hjoins]
    refine (hinferred.map key).append (newLinks_perm (hinferred.map key) ?_)
    exact ((hstated.map Prod.snd).filter _).map key
  · dsimp only
    rw [hjoins, hrejection]
    exact (hcalls.flatMap_right Call.problems).append ((hstated.filter _).map _)

/-- The order of units is not significant: if no type name is read from two
different units and the number of types is not limited, converting the units in
another order gives the same declarations, relationships up to multiplicity,
and problems. The types have the same nodes too, identifiers and references
included, except for those in which a type text names something with a slash. -/
theorem unit_order_immaterial (settings : Settings) (hcap : settings.maxTypes = none)
    {units others : List SourceUnit} (hperm : units.Perm others) (hseparate : Separate units)
    (digest : String → String) :
    let run := units.foldl addUnit (start settings)
    let twin := others.foldl addUnit (start settings)
    (Registry.CollisionFree digest settings.modelName run.linked.1.paths →
      (run.finishWith? digest).isSome = true) ∧
    (Registry.CollisionFree digest settings.modelName twin.linked.1.paths →
      (twin.finishWith? digest).isSome = true) ∧
    ∀ result other, run.finishWith? digest = some result → twin.finishWith? digest = some other →
      (result.assembly.types.map TypeNode.declaration).Perm
        (other.assembly.types.map TypeNode.declaration) ∧
      ((result.assembly.links.map LinkNode.relationship).map key).Perm
        ((other.assembly.links.map LinkNode.relationship).map key) ∧
      result.problems.Perm other.problems ∧
      (Registry.CollisionFree digest settings.modelName run.linked.1.paths →
        (result.assembly.types.filter (·.declaration.isSlashless)).Perm
          (other.assembly.types.filter (·.declaration.isSlashless))) := by
  intro run twin
  have hrunSettings : run.settings = settings := settings_foldl_addUnit (start settings) units
  have htwinSettings : twin.settings = settings := settings_foldl_addUnit (start settings) others
  have hrunModel : run.model.Consistent :=
    consistent_foldl_addUnit (consistent_start settings) units
  have htwinModel : twin.model.Consistent :=
    consistent_foldl_addUnit (consistent_start settings) others
  obtain ⟨htypes, hlinks, hproblems⟩ := linked_perm hcap hperm hseparate
  refine ⟨fun hfree => isSome_finishWith? ?_, fun hfree => isSome_finishWith? ?_, ?_⟩
  · rw [hrunSettings]
    exact hfree
  · rw [htwinSettings]
    exact hfree
  · intro result other hresult hother
    obtain ⟨assembled, hassembled, hdescribes, rfl⟩ := finishWith?_spec hrunModel hresult
    obtain ⟨assembled', hassembled', hdescribes', rfl⟩ := finishWith?_spec htwinModel hother
    refine ⟨?_, ?_, hproblems, ?_⟩
    · rw [hdescribes.declarations_eq, hdescribes'.declarations_eq]
      exact htypes.map _
    · rw [hdescribes.links_eq, hdescribes'.links_eq]
      exact hlinks
    · intro hfree
      rw [hrunSettings] at hassembled
      rw [htwinSettings] at hassembled'
      exact Model.slashless_types_perm htypes hfree hassembled hassembled'

/-- Units that refer to each other's types and state the same link with
different multiplicities. -/
def crossedUnits : List SourceUnit := [
  ⟨"a.puml", "class A \x7b\n-b : B\n\x7d\nA ..> B\nA --> Ghost\n"⟩,
  ⟨"b.puml", "class B\nA ..> \"*\" B\n"⟩,
  ⟨"C.java", "class C extends A \x7b \x7d"⟩]

theorem unit_order_immaterial_crossedUnits :
    ∃ result other,
      (crossedUnits.foldl addUnit (start {})).finishWith? id = some result ∧
      (crossedUnits.reverse.foldl addUnit (start {})).finishWith? id = some other ∧
      result.assembly.types.map TypeNode.name = ["A", "B", "C"] ∧
      other.assembly.types.map TypeNode.name = ["C", "B", "A"] ∧
      (result.assembly.links.map LinkNode.relationship).map multiplicity = [none, none, none] ∧
      (other.assembly.links.map LinkNode.relationship).map multiplicity = [none, none, some "*"] ∧
      ((result.assembly.links.map LinkNode.relationship).map key).Perm
        ((other.assembly.links.map LinkNode.relationship).map key) ∧
      result.problems.Perm other.problems ∧
      result.assembly.types.Perm other.assembly.types := by
  have hseparate : Separate crossedUnits := by decide +kernel
  obtain ⟨hrun, htwin, hsame⟩ := unit_order_immaterial {} rfl
    (List.reverse_perm crossedUnits).symm hseparate id
  have hfree := Registry.collisionFree_of_injective Function.injective_id
  obtain ⟨result, hresult⟩ := Option.isSome_iff_exists.mp (hrun (hfree _ _))
  obtain ⟨other, hother⟩ := Option.isSome_iff_exists.mp (htwin (hfree _ _))
  obtain ⟨-, hlinks, hproblems, htypes⟩ := hsame result other hresult hother
  have hfound : ((crossedUnits.foldl addUnit (start {})).finishWith? id).map (fun result =>
      (result.assembly.types.map TypeNode.name,
        (result.assembly.links.map LinkNode.relationship).map multiplicity,
        result.assembly.types.all (·.declaration.isSlashless))) =
          some (["A", "B", "C"], [none, none, none], true) := by
    decide +kernel
  have hfound' : ((crossedUnits.reverse.foldl addUnit (start {})).finishWith? id).map
      (fun result => (result.assembly.types.map TypeNode.name,
        (result.assembly.links.map LinkNode.relationship).map multiplicity,
        result.assembly.types.all (·.declaration.isSlashless))) =
          some (["C", "B", "A"], [none, none, some "*"], true) := by
    decide +kernel
  rw [hresult, Option.map_some, Option.some.injEq, Prod.mk.injEq, Prod.mk.injEq] at hfound
  rw [hother, Option.map_some, Option.some.injEq, Prod.mk.injEq, Prod.mk.injEq] at hfound'
  obtain ⟨hnames, hmultiplicities, hplain⟩ := hfound
  obtain ⟨hnames', hmultiplicities', hplain'⟩ := hfound'
  have hnodes := htypes (hfree _ _)
  rw [List.filter_eq_self.mpr (List.all_eq_true.mp hplain),
    List.filter_eq_self.mpr (List.all_eq_true.mp hplain')] at hnodes
  exact ⟨result, other, hresult, hother, hnames, hnames', hmultiplicities, hmultiplicities',
    hlinks, hproblems, hnodes⟩

/-- A diagram, and one in which the type of an attribute is written like the
path of an attribute of the first. -/
def shadowedUnits : List SourceUnit := [
  ⟨"a.puml", "class A \x7b\n  x : int\n\x7d\n"⟩,
  ⟨"b.puml", "class B \x7b\n  y : A/field/0\n\x7d\n"⟩]

theorem shadowedUnits_order_matters :
    Separate shadowedUnits ∧
      ∃ result other, convert? {} shadowedUnits = some result ∧
        convert? {} shadowedUnits.reverse = some other ∧
        ¬result.assembly.types.Perm other.assembly.types := by
  refine ⟨by decide +kernel, ?_⟩
  have hfound : (convert? {} shadowedUnits).map (fun result =>
      result.assembly.references.map fun reference => (reference.name, reference.id?.isSome)) =
        some [("int", true), ("A/field/0", true)] := by
    decide +kernel
  have hfound' : (convert? {} shadowedUnits.reverse).map (fun result =>
      result.assembly.references.map fun reference => (reference.name, reference.id?.isSome)) =
        some [("A/field/0", false), ("int", true)] := by
    decide +kernel
  obtain ⟨result, hresult, hreferences⟩ := Option.map_eq_some_iff.mp hfound
  obtain ⟨other, hother, hreferences'⟩ := Option.map_eq_some_iff.mp hfound'
  refine ⟨result, other, hresult, hother, ?_⟩
  intro hperm
  have hsame : (result.assembly.references.map fun reference =>
      (reference.name, reference.id?.isSome)).Perm
        (other.assembly.references.map fun reference => (reference.name, reference.id?.isSome)) :=
    (hperm.flatMap_right _).map _
  rw [hreferences, hreferences'] at hsame
  have hmem : ("A/field/0", true) ∈ [("A/field/0", false), ("int", true)] :=
    hsame.mem_iff.mp (by simp)
  simp at hmem

end Conversion

end ClassAtlas
