import ClassAtlas.Conversion
import ClassAtlas.Proofs.Assembly.Nodes

/-!
# What conversion runs keep

A run starts from a new model and only changes it by operations that keep the
representation invariant. Hence the model of a finished run is consistent,
whatever the units and the settings, and assembling it leaves nothing out.
-/

namespace ClassAtlas

namespace Model

variable {model : Model}

theorem Consistent.foldl_insert (h : model.Consistent) (decls : List Declaration) :
    (decls.foldl Model.insert model).Consistent := by
  have hedits := h.foldl_edit (decls.map .insert)
  rw [List.foldl_map] at hedits
  exact hedits

/-- Declarations with new names are put behind those of the model. -/
theorem Consistent.foldl_insert_new (h : model.Consistent) {decls : List Declaration}
    (hnodup : (model.names ++ decls.map Declaration.name).Nodup) :
    (decls.foldl Model.insert model).types = model.types ++ decls ∧
      (decls.foldl Model.insert model).relationships = model.relationships := by
  induction decls generalizing model with
  | nil =>
      constructor
      · rw [List.append_nil, List.foldl_nil]
      · rfl
  | cons decl decls ih =>
      have hnew : decl.name ∉ model.names := by
        intro hmem
        exact (List.nodup_append.mp hnodup).2.2 _ hmem _ List.mem_cons_self rfl
      have hslot : model.slot? decl.name = none := by
        rw [← Option.not_isSome_iff_eq_none]
        exact fun hsome => hnew (h.contains_iff.mp hsome)
      have hinsert : model.insert decl = { model with
          types := model.types ++ [decl]
          index := (decl.name, model.types.length) :: model.index } := by
        rw [Model.insert, hslot]
      have hnames : (model.insert decl).names = model.names ++ [decl.name] := by
        rw [hinsert, names, names, List.map_append, List.map_singleton]
      have hrest : ((model.insert decl).names ++ decls.map Declaration.name).Nodup := by
        rw [hnames, List.append_assoc]
        exact hnodup
      obtain ⟨htypes, hlinks⟩ := ih (h.insert decl) hrest
      constructor
      · rw [List.foldl_cons, htypes, hinsert, List.append_assoc, List.singleton_append]
      · rw [List.foldl_cons, hlinks, hinsert]

end Model

namespace Conversion

/-! ## The model of a run -/

theorem consistent_start (settings : Settings) : (start settings).model.Consistent :=
  Model.consistent_new settings.modelName

theorem consistent_foldl_addUnit {run : Conversion} (h : run.model.Consistent)
    (units : List SourceUnit) : (units.foldl addUnit run).model.Consistent := by
  induction units generalizing run with
  | nil => exact h
  | cons unit units ih => exact ih (h.foldl_insert unit.read.types)

theorem consistent_filtered (settings : Settings) {model : Model} (h : model.Consistent) :
    (filtered settings model).Consistent := by
  have hkept : (if settings.packageFilter.isSome then
      model.retain fun decl => settings.keepsPackage decl.package else model).Consistent := by
    split
    · exact h.retain _
    · exact h
  unfold filtered
  dsimp only
  split
  next max _ => exact hkept.truncate max
  next => exact hkept

theorem consistent_foldl_mergeUnit {state : Model × List Problem} (h : state.1.Consistent)
    (declared : List (String × List Relationship)) :
    (declared.foldl mergeUnit state).1.Consistent := by
  induction declared generalizing state with
  | nil => exact h
  | cons links declared ih => exact ih (h.merge links.2)

theorem consistent_linked {run : Conversion} (h : run.model.Consistent) :
    run.linked.1.Consistent :=
  consistent_foldl_mergeUnit ((consistent_filtered run.settings h).apply run.settings.inference)
    run.declared

theorem settings_foldl_addUnit (run : Conversion) (units : List SourceUnit) :
    (units.foldl addUnit run).settings = run.settings := by
  induction units generalizing run with
  | nil => rfl
  | cons unit units ih => exact ih (run.addUnit unit)

/-! ## The result of a run -/

variable {digest : String → String} {run : Conversion}

theorem isSome_finishWith?
    (hfree : Registry.CollisionFree digest run.settings.modelName run.linked.1.paths) :
    (run.finishWith? digest).isSome = true := by
  rw [finishWith?, Option.isSome_map]
  exact Assembling.isSome_assemble? hfree

/-- A result holds the assembled model of the run and reports what was met
before assembling. -/
theorem finishWith?_spec (h : run.model.Consistent) {result : Converted}
    (hresult : run.finishWith? digest = some result) :
    ∃ assembled, run.linked.1.assemble? digest run.settings.modelName = some assembled ∧
      assembled.Describes run.settings.modelName run.linked.1 ∧
      result = {
        assembly := assembled.assembly
        problems := run.linked.2
        options := run.settings.render } := by
  obtain ⟨assembled, hassembled, rfl⟩ := Option.map_eq_some_iff.mp hresult
  have hdescribes := (consistent_linked h).describes hassembled
  refine ⟨assembled, hassembled, hdescribes, ?_⟩
  rw [hdescribes.problems_eq, List.append_nil]
  rfl

end Conversion

end ClassAtlas
