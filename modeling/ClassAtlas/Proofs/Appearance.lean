import ClassAtlas.Proofs.UnitOrder
import ClassAtlas.Proofs.Diagram.Blocks

/-!
# Types in the order of their appearance

A model keeps a declaration at the place where its name first came up and puts
every later declaration of the name there. So the types of a run stand in the
order in which their names are first read, and each is declared as it was read
last, however often names are repeated within a unit or across units. A limit on
the number of types cuts this list from behind, and more units only make it
longer.
-/

namespace ClassAtlas

open Diagram (keptUnder keptUnder_map)

namespace Model

variable {model : Model}

theorem Consistent.names_insert_of_mem (h : model.Consistent) {decl : Declaration}
    (hmem : decl.name ∈ model.names) : (model.insert decl).names = model.names := by
  obtain ⟨slot, hslot⟩ := Option.isSome_iff_exists.mp (h.contains_iff.mpr hmem)
  rw [Model.insert, hslot]
  exact names_set_slot h hslot

theorem Consistent.names_insert_of_notMem (h : model.Consistent) {decl : Declaration}
    (hnew : decl.name ∉ model.names) :
    (model.insert decl).names = model.names ++ [decl.name] := by
  have hslot : model.slot? decl.name = none := by
    rw [← Option.not_isSome_iff_eq_none]
    exact fun hsome => hnew (h.contains_iff.mp hsome)
  rw [Model.insert, hslot, names, List.map_append, List.map_singleton, names]

/-- The names of a model are those of the inserted declarations, each where it
first appears. -/
theorem names_foldl_insert (name : String) (decls : List Declaration) :
    (decls.foldl Model.insert { name }).names = (decls.map Declaration.name).eraseDups := by
  induction decls using List.reverseRecOn with
  | nil => rfl
  | append_singleton decls decl ih =>
      have hmodel : (decls.foldl Model.insert { name }).Consistent :=
        (consistent_new name).foldl_insert decls
      have hknown : decl.name ∈ (decls.foldl Model.insert { name }).names ↔
          decl.name ∈ decls.map Declaration.name := by
        rw [ih, List.mem_eraseDups]
      rw [List.foldl_concat, List.map_append, List.map_singleton, List.eraseDups_append, ← ih]
      by_cases hmem : decl.name ∈ decls.map Declaration.name
      · rw [hmodel.names_insert_of_mem (hknown.mpr hmem)]
        simp [List.cons_removeAll, hmem]
      · rw [hmodel.names_insert_of_notMem (mt hknown.mp hmem)]
        simp [List.cons_removeAll, List.eraseDups_cons, hmem]

end Model

/-- With more behind a list, its first appearances come first. -/
theorem eraseDups_mono {first whole : List String} (h : first <+: whole) :
    first.eraseDups <+: whole.eraseDups := by
  obtain ⟨more, rfl⟩ := h
  rw [List.eraseDups_append]
  exact List.prefix_append _ _

theorem keptUnder_mono {α : Type} (limit : Option ℕ) {first whole : List α}
    (h : first <+: whole) : keptUnder limit first <+: keptUnder limit whole := by
  cases limit with
  | none => exact h
  | some max => exact h.take max

theorem Settings.kept_eq_keptUnder {settings : Settings} (h : settings.packageFilter = none)
    (types : List Declaration) : settings.kept types = keptUnder settings.maxTypes types := by
  have hpassed : types.filter (fun decl => settings.keepsPackage decl.package) = types := by
    refine List.filter_eq_self.mpr fun decl _ => ?_
    rw [Settings.keepsPackage, h]
  unfold kept
  rw [hpassed]
  rfl

namespace Conversion

/-- All declarations that are read from units, in order and with repetitions. -/
def readTypes (units : List SourceUnit) : List Declaration :=
  units.flatMap fun unit => unit.read.types

/-- The declaration that was read last under a name. -/
def lastRead? (units : List SourceUnit) (name : String) : Option Declaration :=
  (readTypes units).reverse.find? (·.name == name)

variable {settings : Settings}

/-- The types of a run without a package filter. -/
theorem types_linked (hfilter : settings.packageFilter = none) (units : List SourceUnit) :
    (units.foldl addUnit (start settings)).linked.1.types =
      keptUnder settings.maxTypes
        ((readTypes units).foldl Model.insert { name := settings.modelName }).types := by
  have hread : (units.map Call.unit).flatMap Call.types = readTypes units :=
    List.flatMap_map Call.unit Call.types units
  rw [foldl_addUnit, linked_foldl_call, modelOf, hread]
  exact (types_filtered settings _).trans (Settings.kept_eq_keptUnder hfilter _)

theorem names_linked (hfilter : settings.packageFilter = none) (units : List SourceUnit) :
    (units.foldl addUnit (start settings)).linked.1.names =
      keptUnder settings.maxTypes ((readTypes units).map Declaration.name).eraseDups := by
  rw [Model.names, types_linked hfilter, ← keptUnder_map, ← Model.names,
    Model.names_foldl_insert]

/-- A type of a run is declared as it was read last. -/
theorem lastRead?_of_mem (hfilter : settings.packageFilter = none) {units : List SourceUnit}
    {decl : Declaration}
    (hdecl : decl ∈ (units.foldl addUnit (start settings)).linked.1.types) :
    lastRead? units decl.name = some decl := by
  have hnew := Model.consistent_new settings.modelName
  rw [types_linked hfilter] at hdecl
  have hmem := Diagram.mem_of_mem_keptUnder hdecl
  have hget := (hnew.foldl_insert (readTypes units)).get?_eq_some_iff.mpr ⟨hmem, rfl⟩
  rw [hnew.get?_foldl_insert] at hget
  exact Option.or_none.symm.trans hget

/-- Without a package filter, the types of a run are the names that its units
declare, in the order of their first appearance and up to the limit, and each
has the declaration that was read last under its name. Reading only the first
units gives the first of these names. -/
theorem types_by_appearance (settings : Settings) (hfilter : settings.packageFilter = none)
    (units : List SourceUnit) (digest : String → String) :
    let run := units.foldl addUnit (start settings)
    (Registry.CollisionFree digest settings.modelName run.linked.1.paths →
      (run.finishWith? digest).isSome = true) ∧
    ∀ result, run.finishWith? digest = some result →
      result.assembly.types.map TypeNode.name =
        keptUnder settings.maxTypes ((readTypes units).map Declaration.name).eraseDups ∧
      (∀ node ∈ result.assembly.types,
        (lastRead? units node.name).map Declaration.settled = some node.declaration) ∧
      ∀ first before, first <+: units →
        (first.foldl addUnit (start settings)).finishWith? digest = some before →
        before.assembly.types.map TypeNode.name <+: result.assembly.types.map TypeNode.name := by
  intro run
  have hconsistent : ∀ units : List SourceUnit,
      (units.foldl addUnit (start settings)).model.Consistent :=
    consistent_foldl_addUnit (consistent_start settings)
  have hnames : ∀ (units : List SourceUnit) (result : Converted),
      (units.foldl addUnit (start settings)).finishWith? digest = some result →
      result.assembly.types.map TypeNode.name =
        keptUnder settings.maxTypes ((readTypes units).map Declaration.name).eraseDups := by
    intro units result hresult
    obtain ⟨assembled, -, hdescribes, rfl⟩ := finishWith?_spec (hconsistent units) hresult
    exact hdescribes.names_eq.trans (names_linked hfilter units)
  constructor
  · intro hfree
    refine isSome_finishWith? ?_
    rw [settings_foldl_addUnit]
    exact hfree
  · intro result hresult
    refine ⟨hnames units result hresult, ?_, ?_⟩
    · intro node hnode
      obtain ⟨assembled, -, hdescribes, rfl⟩ := finishWith?_spec (hconsistent units) hresult
      have hsettled := List.mem_map_of_mem (f := TypeNode.declaration) hnode
      rw [hdescribes.declarations_eq] at hsettled
      obtain ⟨decl, hdecl, heq⟩ := List.mem_map.mp hsettled
      have hname : decl.name = node.name := congrArg Declaration.name heq
      rw [← hname, lastRead?_of_mem hfilter hdecl, Option.map_some, heq]
    · intro first before hfirst hbefore
      rw [hnames first before hbefore, hnames units result hresult]
      obtain ⟨more, rfl⟩ := hfirst
      refine keptUnder_mono _ (eraseDups_mono ?_)
      rw [readTypes, readTypes, List.flatMap_append, List.map_append]
      exact List.prefix_append _ _

/-- A name is declared twice in one unit and another one again in the next
unit, which also has a new one. -/
def repeatedUnits : List SourceUnit := [
  ⟨"a.puml", "class A\nclass B\nclass A \x7b\n-x : int\n\x7d\n"⟩,
  ⟨"B.java", "class C \x7b\x7d interface B \x7b C c(); \x7d class D \x7b\x7d"⟩]

theorem types_by_appearance_repeatedUnits :
    let settings : Settings := { maxTypes := some 3 }
    settings.packageFilter = none ∧
    ∃ result before,
      (repeatedUnits.foldl addUnit (start settings)).finishWith? id = some result ∧
      ((repeatedUnits.take 1).foldl addUnit (start settings)).finishWith? id = some before ∧
      result.assembly.types.map TypeNode.name = ["A", "B", "C"] ∧
      (∀ node ∈ result.assembly.types,
        (lastRead? repeatedUnits node.name).map Declaration.settled = some node.declaration) ∧
      before.assembly.types.map TypeNode.name <+: ["A", "B", "C"] := by
  intro settings
  have hfree := Registry.collisionFree_of_injective Function.injective_id
  have hnames : keptUnder settings.maxTypes
      ((readTypes repeatedUnits).map Declaration.name).eraseDups = ["A", "B", "C"] := by
    decide +kernel
  obtain ⟨hsome, hresults⟩ := types_by_appearance settings rfl repeatedUnits id
  obtain ⟨hsome', -⟩ := types_by_appearance settings rfl (repeatedUnits.take 1) id
  obtain ⟨result, hresult⟩ := Option.isSome_iff_exists.mp (hsome (hfree _ _))
  obtain ⟨before, hbefore⟩ := Option.isSome_iff_exists.mp (hsome' (hfree _ _))
  obtain ⟨hfound, hlast, hfirst⟩ := hresults result hresult
  rw [hnames] at hfound
  refine ⟨rfl, result, before, hresult, hbefore, hfound, hlast, ?_⟩
  rw [← hfound]
  exact hfirst _ before ⟨repeatedUnits.drop 1, List.take_append_drop 1 _⟩ hbefore

end Conversion

end ClassAtlas
