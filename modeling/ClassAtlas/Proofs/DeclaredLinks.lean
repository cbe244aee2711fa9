import Mathlib.Data.List.Infix
import ClassAtlas.Proofs.InferredLinks
import ClassAtlas.Proofs.Runs

/-!
# Merging the links that units state

A run infers relationships first and then merges the links that its units
state, one after another. Whether a link is added depends on what is there
already, so the outcome is described as a whole: behind the inferred
relationships stand the stated links that join types of the model and are new,
in the order in which they were stated. Every other link that leads out of the
model is reported, each time it was stated.

The description of a finished run, `Conversion.linked_eq`, is what later
results about runs start from.
-/

namespace ClassAtlas

namespace Relationship

/-- What makes two relationships the same link: all but the multiplicity. -/
def key (link : Relationship) : String × String × RelationshipKind × Option String :=
  (link.source, link.target, link.kind, link.label)

theorem sameLink_iff {link other : Relationship} :
    link.sameLink other = true ↔ link.key = other.key := by
  simp [sameLink, key, and_assoc]

theorem any_sameLink_iff {links : List Relationship} {link : Relationship} :
    links.any (·.sameLink link) = true ↔ link.key ∈ links.map key := by
  simp [sameLink_iff]

end Relationship

open Relationship

/-- Whether both ends of a relationship are declared. -/
def Model.joins (model : Model) (link : Relationship) : Bool :=
  model.contains link.source && model.contains link.target

namespace Model

variable {model : Model}

theorem joins_eq_of_key_eq {link other : Relationship} (h : link.key = other.key) :
    model.joins link = model.joins other := by
  have hsource : link.source = other.source := congrArg Prod.fst h
  have htarget : link.target = other.target := congrArg (fun parts => parts.2.1) h
  rw [joins, joins, hsource, htarget]

theorem Consistent.joins_iff (h : model.Consistent) {link : Relationship} :
    model.joins link = true ↔ link.source ∈ model.names ∧ link.target ∈ model.names := by
  rw [joins, Bool.and_eq_true, h.contains_iff, h.contains_iff]

theorem relationships_truncate (max : ℕ) (model : Model) :
    (model.truncate max).relationships.Sublist model.relationships := by
  unfold truncate
  split
  · exact List.filter_sublist
  · exact List.Sublist.refl _

end Model

namespace Inference

/-! ## New links of a list -/

/-- The links of a list that are not known and repeat no earlier link. -/
def newLinks (known : List Relationship) : List Relationship → List Relationship
  | [] => []
  | link :: rest =>
    if known.any (·.sameLink link) then newLinks known rest
    else link :: newLinks (known ++ [link]) rest

section

variable {known links : List Relationship}

theorem newLinks_cons_of_known {link : Relationship} (h : link.key ∈ known.map key) :
    newLinks known (link :: links) = newLinks known links := by
  rw [newLinks, if_pos (any_sameLink_iff.mpr h)]

theorem newLinks_cons_of_new {link : Relationship} (h : link.key ∉ known.map key) :
    newLinks known (link :: links) = link :: newLinks (known ++ [link]) links := by
  rw [newLinks, if_neg (mt any_sameLink_iff.mp h)]

theorem newLinks_append (known first second : List Relationship) :
    newLinks known (first ++ second) =
      newLinks known first ++ newLinks (known ++ newLinks known first) second := by
  induction first generalizing known with
  | nil => simp [newLinks]
  | cons link first ih =>
      rw [List.cons_append]
      by_cases hknown : link.key ∈ known.map key
      · rw [newLinks_cons_of_known hknown, newLinks_cons_of_known hknown, ih]
      · rw [newLinks_cons_of_new hknown, newLinks_cons_of_new hknown, ih]
        simp

/-- Filtering by a condition on links commutes with taking the new ones. -/
theorem filter_newLinks {keep : Relationship → Bool}
    (hkeep : ∀ link other : Relationship, link.key = other.key → keep link = keep other)
    (known links : List Relationship) :
    (newLinks known links).filter keep =
      newLinks (known.filter keep) (links.filter keep) := by
  induction links generalizing known with
  | nil => rfl
  | cons link links ih =>
      by_cases hkept : keep link = true
      · have hknown : link.key ∈ (known.filter keep).map key ↔ link.key ∈ known.map key := by
          simp only [List.mem_map, List.mem_filter]
          constructor
          · rintro ⟨other, ⟨hother, -⟩, hsame⟩
            exact ⟨other, hother, hsame⟩
          · rintro ⟨other, hother, hsame⟩
            exact ⟨other, ⟨hother, (hkeep other link hsame).trans hkept⟩, hsame⟩
        rw [List.filter_cons_of_pos hkept]
        by_cases hmem : link.key ∈ known.map key
        · rw [newLinks_cons_of_known hmem, newLinks_cons_of_known (hknown.mpr hmem), ih]
        · rw [newLinks_cons_of_new hmem, newLinks_cons_of_new (mt hknown.mp hmem),
            List.filter_cons_of_pos hkept, ih, List.filter_append,
            List.filter_cons_of_pos hkept, List.filter_nil]
      · rw [List.filter_cons_of_neg hkept]
        by_cases hmem : link.key ∈ known.map key
        · rw [newLinks_cons_of_known hmem, ih]
        · rw [newLinks_cons_of_new hmem, List.filter_cons_of_neg hkept, ih,
            List.filter_append, List.filter_cons_of_neg hkept, List.filter_nil, List.append_nil]

/-- A link is new exactly if no known link and no earlier link of the list is
the same. -/
theorem newLinks_eq_filter (known links : List Relationship) :
    newLinks known links =
      ((links.zip links.inits).filter fun entry =>
        entry.1.key ∉ (known ++ entry.2).map key).map Prod.fst := by
  induction links generalizing known with
  | nil => rfl
  | cons link links ih =>
      have hpairs : (link :: links).zip (link :: links).inits =
          (link, []) :: (links.zip links.inits).map (Prod.map id (link :: ·)) := by
        rw [List.inits_cons, List.zip_cons_cons, List.zip_map_right]
      rw [hpairs]
      by_cases hmem : link.key ∈ known.map key
      · -- a known link adds nothing to what is known
        have hadds : ∀ earlier : List Relationship, ∀ other : Relationship,
            other.key ∉ (known ++ link :: earlier).map key ↔
              other.key ∉ (known ++ earlier).map key := by
          intro earlier other
          simp only [List.map_append, List.map_cons, List.mem_append, List.mem_cons, not_or]
          constructor
          · exact fun h => ⟨h.1, h.2.2⟩
          · exact fun h => ⟨h.1, fun hsame => h.1 (hsame ▸ hmem), h.2⟩
        rw [newLinks_cons_of_known hmem, ih, List.filter_cons_of_neg (by simpa using hmem),
          List.filter_map, List.map_map]
        simp only [Function.comp_def, Prod.map_fst, Prod.map_snd, id_eq, hadds]
      · rw [newLinks_cons_of_new hmem, ih, List.filter_cons_of_pos (by simpa using hmem),
          List.filter_map, List.map_cons, List.map_map]
        simp only [Function.comp_def, Prod.map_fst, Prod.map_snd, id_eq, List.append_assoc,
          List.singleton_append]

theorem mem_keys_newLinks {k : String × String × RelationshipKind × Option String} :
    k ∈ (newLinks known links).map key ↔ k ∈ links.map key ∧ k ∉ known.map key := by
  induction links generalizing known with
  | nil => simp [newLinks]
  | cons link links ih =>
      by_cases hknown : link.key ∈ known.map key
      · rw [newLinks_cons_of_known hknown, ih, List.map_cons, List.mem_cons]
        constructor
        · exact fun h => ⟨Or.inr h.1, h.2⟩
        · rintro ⟨rfl | hmem, hnew⟩
          · exact absurd hknown hnew
          · exact ⟨hmem, hnew⟩
      · rw [newLinks_cons_of_new hknown, List.map_cons, List.mem_cons, ih, List.map_append,
          List.mem_append, List.map_singleton, List.mem_singleton, List.map_cons, List.mem_cons]
        by_cases hlink : k = link.key
        · simp [hlink, hknown]
        · simp [hlink]

theorem nodup_keys_newLinks (known links : List Relationship) :
    ((newLinks known links).map key).Nodup := by
  induction links generalizing known with
  | nil => exact List.nodup_nil
  | cons link links ih =>
      by_cases hknown : link.key ∈ known.map key
      · rw [newLinks_cons_of_known hknown]
        exact ih known
      · rw [newLinks_cons_of_new hknown, List.map_cons, List.nodup_cons, mem_keys_newLinks]
        refine ⟨?_, ih _⟩
        rintro ⟨-, hnew⟩
        exact hnew (by simp)

theorem dropRepeated_eq_newLinks (links : List Relationship) :
    dropRepeated links = newLinks [] links := by
  have hfold : ∀ kept : List Relationship,
      links.foldl (fun kept link => if kept.any (·.sameLink link) then kept else kept ++ [link])
        kept = kept ++ newLinks kept links := by
    induction links with
    | nil => simp [newLinks]
    | cons link links ih =>
        intro kept
        rw [List.foldl_cons, ih, newLinks]
        split <;> simp
  rw [dropRepeated, hfold, List.nil_append]

end

/-! ## Merging into a model -/

theorem joins_of_mem_infer {options : Options} {model : Model} (h : model.Consistent)
    {link : Relationship} (hlink : link ∈ infer options model) : model.joins link = true := by
  obtain ⟨decl, hdecl, horigin⟩ := exists_origin hlink
  refine (Bool.and_eq_true _ _).mpr ⟨?_, horigin.contains_target⟩
  rw [horigin.source_eq, h.contains_iff]
  exact List.mem_map_of_mem hdecl

/-- The new links within a model, where all known links are within it. -/
theorem newLinks_filter_joins {model : Model} {known : List Relationship}
    (hknown : ∀ link ∈ known, model.joins link = true) (links : List Relationship) :
    newLinks known (links.filter model.joins) =
      ((links.zip links.inits).filter fun entry =>
        model.joins entry.1 ∧ entry.1.key ∉ (known ++ entry.2).map key).map Prod.fst := by
  have hcommute : (newLinks known links).filter model.joins =
      newLinks (known.filter model.joins) (links.filter model.joins) :=
    filter_newLinks (fun _ _ hsame => Model.joins_eq_of_key_eq hsame) known links
  rw [List.filter_eq_self.mpr hknown] at hcommute
  rw [← hcommute, newLinks_eq_filter, List.filter_map, List.filter_filter]
  simp only [Function.comp_def, Bool.decide_and, Bool.decide_eq_true]

/-- Merging adds the new links that join types of the model and hands the
others back. -/
theorem foldl_mergeOne {model : Model} {known : List Relationship}
    (hknown : ∀ link ∈ known, model.joins link = true)
    (declared rejected : List Relationship) :
    declared.foldl mergeOne ({ model with relationships := known }, rejected) =
      ({ model with
          relationships := known ++ newLinks known (declared.filter model.joins) },
        rejected ++ declared.filter (!model.joins ·)) := by
  induction declared generalizing known rejected with
  | nil => simp [newLinks]
  | cons link declared ih =>
      rw [List.foldl_cons, mergeOne]
      dsimp only
      by_cases hjoins : model.joins link = true
      · have hrelate : Model.relate? { model with relationships := known } link =
            some { model with relationships := known ++ [link] } := if_pos hjoins
        rw [List.filter_cons_of_pos hjoins, List.filter_cons_of_neg (by simp [hjoins])]
        by_cases hmem : link.key ∈ known.map key
        · rw [if_pos (any_sameLink_iff.mpr hmem), newLinks_cons_of_known hmem, ih hknown]
        · have hadded : ∀ other ∈ known ++ [link], model.joins other = true := by
            intro other hother
            rcases List.mem_append.mp hother with hold | hnew
            · exact hknown other hold
            · rw [List.mem_singleton.mp hnew, hjoins]
          rw [if_neg (mt any_sameLink_iff.mp hmem), hrelate, newLinks_cons_of_new hmem]
          dsimp only
          rw [ih hadded, List.append_assoc, List.singleton_append]
      · have hrelate : Model.relate? { model with relationships := known } link = none :=
          if_neg hjoins
        have hmem : link.key ∉ known.map key := by
          intro hmem
          obtain ⟨other, hother, hsame⟩ := List.mem_map.mp hmem
          exact hjoins ((Model.joins_eq_of_key_eq hsame).symm.trans (hknown other hother))
        rw [if_neg (mt any_sameLink_iff.mp hmem), hrelate, List.filter_cons_of_neg hjoins,
          List.filter_cons_of_pos (by simpa using hjoins)]
        dsimp only
        rw [ih hknown, List.append_assoc, List.singleton_append]

end Inference

namespace Conversion

open Inference

/-! ## Finished runs -/

/-- The links of units one by one, each with the unit that states it. -/
def statedLinks (declared : List (String × List Relationship)) : List (String × Relationship) :=
  declared.flatMap fun links => links.2.map (links.1, ·)

theorem foldl_mergeUnit {model : Model} {known : List Relationship}
    (hknown : ∀ link ∈ known, model.joins link = true)
    (declared : List (String × List Relationship)) (problems : List Problem) :
    declared.foldl mergeUnit ({ model with relationships := known }, problems) =
      ({ model with
          relationships := known ++
            newLinks known (((statedLinks declared).map Prod.snd).filter model.joins) },
        problems ++ ((statedLinks declared).filter fun stated => !model.joins stated.2).map
          fun stated => rejection model stated.1 stated.2) := by
  induction declared generalizing known problems with
  | nil => simp [statedLinks, newLinks]
  | cons links declared ih =>
      have hmerge := foldl_mergeOne hknown links.2 []
      have hstep : mergeUnit ({ model with relationships := known }, problems) links =
          ({ model with
              relationships := known ++ newLinks known (links.2.filter model.joins) },
            problems ++ (links.2.filter (!model.joins ·)).map (rejection model links.1)) := by
        rw [mergeUnit, merge, hmerge]
        rfl
      have hadded : ∀ link ∈ known ++ newLinks known (links.2.filter model.joins),
          model.joins link = true := by
        intro link hlink
        rcases List.mem_append.mp hlink with hold | hnew
        · exact hknown link hold
        · rw [newLinks_eq_filter] at hnew
          obtain ⟨⟨_, earlier⟩, hpair, rfl⟩ := List.mem_map.mp hnew
          have hmem := (List.of_mem_zip (List.mem_filter.mp hpair).1).1
          exact (List.mem_filter.mp hmem).2
      have hstated : statedLinks (links :: declared) =
          links.2.map (links.1, ·) ++ statedLinks declared := List.flatMap_cons
      rw [List.foldl_cons, hstep, ih hadded, hstated]
      simp only [List.map_append, List.filter_append, List.map_map, List.filter_map,
        Function.comp_def, List.map_id', newLinks_append, List.append_assoc]

theorem relationships_filtered (settings : Settings) (model : Model) :
    (filtered settings model).relationships.Sublist model.relationships := by
  have hkept : (if settings.packageFilter.isSome then
      model.retain fun decl => settings.keepsPackage decl.package
      else model).relationships.Sublist model.relationships := by
    split
    · exact List.filter_sublist
    · exact List.Sublist.refl _
  unfold filtered
  dsimp only
  split
  next max _ => exact (Model.relationships_truncate max _).trans hkept
  next => exact hkept

/-- The model of a finished run holds the inferred relationships and behind them
the new links of its units; the links that lead out of the model are reported
behind the problems met before. -/
theorem linked_eq {run : Conversion} (h : run.model.Consistent)
    (hlinks : run.model.relationships = []) :
    let model := filtered run.settings run.model
    let inferred := infer run.settings.inference model
    let stated := statedLinks run.declared
    run.linked =
      ({ model with
          relationships := inferred ++
            newLinks inferred ((stated.map Prod.snd).filter model.joins) },
        run.problems ++ (stated.filter fun stated => !model.joins stated.2).map
          fun stated => rejection model stated.1 stated.2) := by
  intro model inferred stated
  have hmodel : model.Consistent := consistent_filtered run.settings h
  have happly : (apply run.settings.inference model).1 =
      { model with relationships := inferred } := by
    have hnone := relationships_filtered run.settings run.model
    rw [hlinks, List.sublist_nil] at hnone
    rw [apply_eq _ hmodel, hnone, List.nil_append]
  change run.declared.foldl mergeUnit ((apply run.settings.inference model).1, run.problems) = _
  rw [happly, foldl_mergeUnit fun link hlink => joins_of_mem_infer hmodel hlink]

/-! ## Runs from the calls they are made of -/

/-- What a run is told: to read a unit, or to note a problem met elsewhere. -/
inductive Call where
  | unit (unit : SourceUnit)
  | problem (problem : Problem)

/-- The run after a call. -/
def call (run : Conversion) : Call → Conversion
  | .unit unit => run.addUnit unit
  | .problem problem => run.addProblem problem

namespace Call

/-- The types that a call declares. -/
def types : Call → List Declaration
  | unit source => source.read.types
  | problem _ => []

/-- The links that a call states, with the unit that states them. -/
def stated : Call → List (String × Relationship)
  | unit source => source.read.relationships.map (source.id, ·)
  | problem _ => []

/-- The problems that a call records. -/
def problems : Call → List Problem
  | unit source => source.read.problems
  | problem met => [met]

end Call

theorem statedLinks_call (run : Conversion) (next : Call) :
    statedLinks (run.call next).declared = statedLinks run.declared ++ next.stated := by
  cases next with
  | problem problem => exact (List.append_nil _).symm
  | unit unit =>
      change statedLinks (if unit.read.relationships.isEmpty then run.declared
        else run.declared ++ [(unit.id, unit.read.relationships)]) = _
      split
      next hnone => simp [Call.stated, List.isEmpty_iff.mp hnone]
      next => simp [statedLinks, Call.stated]

theorem problems_call (run : Conversion) (next : Call) :
    (run.call next).problems = run.problems ++ next.problems := by
  cases next <;> rfl

theorem model_call (run : Conversion) (next : Call) :
    (run.call next).model = next.types.foldl Model.insert run.model := by
  cases next <;> rfl

theorem settings_call (run : Conversion) (next : Call) :
    (run.call next).settings = run.settings := by
  cases next <;> rfl

theorem foldl_addUnit (run : Conversion) (units : List SourceUnit) :
    units.foldl addUnit run = (units.map Call.unit).foldl call run := by
  rw [List.foldl_map]
  rfl

/-- What a run holds after its calls. -/
theorem foldl_call (run : Conversion) (calls : List Call) :
    let after := calls.foldl call run
    after.settings = run.settings ∧
      after.model = (calls.flatMap Call.types).foldl Model.insert run.model ∧
      statedLinks after.declared = statedLinks run.declared ++ calls.flatMap Call.stated ∧
      after.problems = run.problems ++ calls.flatMap Call.problems := by
  induction calls generalizing run with
  | nil => simp
  | cons next calls ih =>
      obtain ⟨hsettings, hmodel, hstated, hproblems⟩ := ih (run.call next)
      refine ⟨hsettings.trans (run.settings_call next), ?_, ?_, ?_⟩
      · rw [List.flatMap_cons, List.foldl_append, ← model_call]
        exact hmodel
      · rw [List.flatMap_cons, ← List.append_assoc, ← statedLinks_call]
        exact hstated
      · rw [List.flatMap_cons, ← List.append_assoc, ← problems_call]
        exact hproblems

/-- The model that the calls of a run declare, as far as the settings keep it. -/
def modelOf (settings : Settings) (calls : List Call) : Model :=
  filtered settings ((calls.flatMap Call.types).foldl Model.insert { name := settings.modelName })

theorem consistent_modelOf (settings : Settings) (calls : List Call) :
    (modelOf settings calls).Consistent :=
  consistent_filtered settings ((Model.consistent_new settings.modelName).foldl_insert _)

theorem relationships_foldl_insert (decls : List Declaration) (model : Model) :
    (decls.foldl Model.insert model).relationships = model.relationships := by
  induction decls generalizing model with
  | nil => rfl
  | cons decl decls ih =>
      rw [List.foldl_cons, ih, Model.insert]
      split <;> rfl

theorem linked_foldl_call (settings : Settings) (calls : List Call) :
    let model := modelOf settings calls
    let inferred := infer settings.inference model
    let stated := calls.flatMap Call.stated
    (calls.foldl call (start settings)).linked =
      ({ model with
          relationships := inferred ++
            newLinks inferred ((stated.map Prod.snd).filter model.joins) },
        calls.flatMap Call.problems ++ (stated.filter fun stated => !model.joins stated.2).map
          fun stated => rejection model stated.1 stated.2) := by
  obtain ⟨hsettings, hmodel, hstated, hproblems⟩ := foldl_call (start settings) calls
  have hconsistent : (calls.foldl call (start settings)).model.Consistent := by
    rw [hmodel]
    exact (consistent_start settings).foldl_insert _
  have hlinks : (calls.foldl call (start settings)).model.relationships = [] := by
    rw [hmodel, relationships_foldl_insert]
    rfl
  have hlinked := linked_eq hconsistent hlinks
  rw [hsettings, hmodel, hstated, hproblems] at hlinked
  exact hlinked

/-- Whatever a run is told, its relationships are the inferred ones and behind
them every stated link between modeled types that is neither inferred nor was
stated before. Every other stated link with an end outside of the model is
reported once each time it was stated, behind the recorded problems. -/
theorem stated_links_accounted (settings : Settings) (calls : List Call)
    (digest : String → String) :
    let run := calls.foldl call (start settings)
    let inferred := infer settings.inference (modelOf settings calls)
    let stated := calls.flatMap Call.stated
    let links := stated.map Prod.snd
    (Registry.CollisionFree digest settings.modelName run.linked.1.paths →
      (run.finishWith? digest).isSome = true) ∧
    ∀ result, run.finishWith? digest = some result →
      let names := result.assembly.types.map TypeNode.name
      names = (modelOf settings calls).names ∧
      result.assembly.links.map LinkNode.relationship =
        inferred ++ ((links.zip links.inits).filter fun (link, earlier) =>
          (link.source ∈ names ∧ link.target ∈ names) ∧
            link.key ∉ (inferred ++ earlier).map key).map Prod.fst ∧
      result.problems =
        calls.flatMap Call.problems ++
          (stated.filter fun (_, link) => ¬(link.source ∈ names ∧ link.target ∈ names)).map
            fun (unit, link) => .unresolved unit link.source
              (if link.source ∈ names then link.target else link.source) := by
  intro run inferred stated links
  obtain ⟨hsettings, hmodel, -, -⟩ := foldl_call (start settings) calls
  have hconsistent : run.model.Consistent := by
    rw [hmodel]
    exact (consistent_start settings).foldl_insert _
  have hkept := consistent_modelOf settings calls
  refine ⟨fun hfree => isSome_finishWith? (hsettings ▸ hfree), ?_⟩
  intro result hresult names
  obtain ⟨assembled, -, hdescribes, rfl⟩ := finishWith?_spec hconsistent hresult
  have hlinked := linked_foldl_call settings calls
  have hnames : names = (modelOf settings calls).names := by
    refine hdescribes.names_eq.trans ?_
    rw [hlinked]
    rfl
  have hjoins : ∀ link : Relationship, (modelOf settings calls).joins link = true ↔
      link.source ∈ names ∧ link.target ∈ names := by
    intro link
    rw [hnames, hkept.joins_iff]
  refine ⟨hnames, ?_, ?_⟩
  · refine hdescribes.links_eq.trans ?_
    rw [hlinked]
    dsimp only
    rw [newLinks_filter_joins fun link hlink => joins_of_mem_infer hkept hlink]
    simp only [hjoins]
    rfl
  · have hcontains : ∀ name, (modelOf settings calls).contains name = true ↔ name ∈ names := by
      intro name
      rw [hnames, hkept.contains_iff]
    change run.linked.2 = _
    rw [hlinked]
    simp only [rejection, hcontains, ← hjoins, decide_not, Bool.decide_eq_true]
    rfl

/-- Two diagrams with repeated and dangling links, and an unreadable unit
between them. -/
def sampleCalls : List Call := [
  .unit ⟨"a.puml", "class A \x7b\n-b : B\n\x7d\nclass B\nA --> B : b\nA ..> B : use\nA --> Ghost\n"⟩,
  .problem (.unreadable "Gone.java" "not there"),
  .unit ⟨"b.puml", "Ghost --> A\nA ..> \"*\" B : use\nA ..> B\nA --> Ghost\n"⟩]

theorem stated_links_accounted_sampleCalls :
    ∃ result, (sampleCalls.foldl call (start {})).finishWith? id = some result ∧
      result.assembly.links.map LinkNode.relationship = [
        ⟨"A", "B", .association, some "b", none⟩,
        ⟨"A", "B", .dependency, some "use", none⟩,
        ⟨"A", "B", .dependency, none, none⟩] ∧
      result.problems = [
        .unreadable "Gone.java" "not there",
        .unresolved "a.puml" "A" "Ghost",
        .unresolved "b.puml" "Ghost" "Ghost",
        .unresolved "b.puml" "A" "Ghost"] := by
  obtain ⟨hsome, haccounted⟩ := stated_links_accounted {} sampleCalls id
  obtain ⟨result, hresult⟩ := Option.isSome_iff_exists.mp
    (hsome (Registry.collisionFree_of_injective Function.injective_id _ _))
  obtain ⟨hnames, hlinks, hproblems⟩ := haccounted result hresult
  have hmodeled : (modelOf {} sampleCalls).names = ["A", "B"] := by decide +kernel
  rw [hnames, hmodeled] at hlinks hproblems
  refine ⟨result, hresult, hlinks.trans ?_, hproblems.trans ?_⟩
  · decide +kernel
  · decide +kernel

end Conversion

end ClassAtlas
