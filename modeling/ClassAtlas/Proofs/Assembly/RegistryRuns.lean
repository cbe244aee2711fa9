import Mathlib.Data.Finset.Card
import ClassAtlas.Proofs.Assembly.Identifiers

/-!
# Runs of a registry

A registry is asked to assign an identifier to a path, or for the identifier that
a path has. Over a whole run of such calls every path keeps the identifier that it
was given first, and no two paths share one. Neither rests on the digest: a salted
path can be a path itself, and its digest that of any other. What carries both is
that the table of paths and the table of identifiers agree after every call.
-/

namespace ClassAtlas.Registry

open Issuing

/-! ## Calls -/

/-- A call to a registry. -/
inductive Call where
  /-- Asks for the identifier of a path, which is issued if there is none. -/
  | assign (path : String)
  /-- Asks for the identifier of a path, if there is one. -/
  | get (path : String)
  deriving DecidableEq, Repr

namespace Call

/-- What a call is answered. -/
def answer : Call → Issuing (Option String)
  | assign path => do return some (← Issuing.assign path)
  | get path => lookup? path

/-- The paths that a call gives an identifier. -/
def assigned : Call → List String
  | assign path => [path]
  | get _ => []

end Call

/-- The answers to calls that are made one after another. -/
def answers (calls : List Call) : Issuing (List (Option String)) :=
  calls.mapM Call.answer

/-- The paths that calls give identifiers, in order. -/
def assignedPaths (calls : List Call) : List String :=
  calls.flatMap Call.assigned

variable {registry middle next : Registry} {call : Call} {calls : List Call}
  {answer : Option String} {found : List (Option String)} {path id : String}

/-! ## One call -/

/-- A call assigns an identifier and answers it, or it only looks one up. -/
theorem answer_cases (h : call.answer registry = some (answer, next)) :
    (∃ path id, call = .assign path ∧ registry.assign? path = some (id, next) ∧
        answer = some id) ∨
      ∃ path, call = .get path ∧ next = registry ∧ answer = registry.get? path := by
  cases call with
  | assign path =>
      obtain ⟨id, after, hassign, hreturn⟩ := bind_eq_some_iff.mp h
      obtain ⟨rfl, rfl⟩ := pure_eq_some_iff.mp hreturn
      exact Or.inl ⟨path, id, rfl, hassign, rfl⟩
  | get path =>
      obtain ⟨rfl, rfl⟩ := Prod.mk.inj (Option.some.inj h)
      exact Or.inr ⟨path, rfl, rfl, rfl⟩

theorem issued_answer (h : call.answer registry = some (answer, next)) :
    ∃ ids, registry.Issued next call.assigned ids [] := by
  rcases answer_cases h with ⟨path, id, rfl, hassign, -⟩ | ⟨path, rfl, rfl, -⟩
  · exact ⟨[id], Issued.assign hassign⟩
  · exact ⟨[], Issued.nil next⟩

/-! ## A run of calls -/

theorem answers_nil_eq (h : answers [] registry = some (found, next)) :
    found = [] ∧ next = registry := by
  obtain ⟨rfl, rfl⟩ := Prod.mk.inj (Option.some.inj h)
  exact ⟨rfl, rfl⟩

theorem answers_cons_eq (h : answers (call :: calls) registry = some (found, next)) :
    ∃ answer middle more, call.answer registry = some (answer, middle) ∧
      answers calls middle = some (more, next) ∧ found = answer :: more := by
  rw [answers, List.mapM_cons] at h
  obtain ⟨answer, middle, hcall, h⟩ := bind_eq_some_iff.mp h
  obtain ⟨more, last, hmore, hreturn⟩ := bind_eq_some_iff.mp h
  obtain ⟨rfl, rfl⟩ := pure_eq_some_iff.mp hreturn
  exact ⟨answer, middle, more, hcall, hmore, rfl⟩

theorem issued_answers (h : answers calls registry = some (found, next)) :
    ∃ ids, registry.Issued next (assignedPaths calls) ids [] := by
  induction calls generalizing registry found with
  | nil =>
      obtain ⟨-, rfl⟩ := answers_nil_eq h
      exact ⟨[], Issued.nil next⟩
  | cons call calls ih =>
      obtain ⟨answer, middle, more, hcall, hmore, -⟩ := answers_cons_eq h
      obtain ⟨first, hfirst⟩ := issued_answer hcall
      obtain ⟨rest, hrest⟩ := ih hmore
      exact ⟨first ++ rest, hfirst.append hrest⟩

/-- Assigning answers the identifier that the path has in the end. -/
theorem getElem?_of_assign (h : answers calls registry = some (found, next)) {index : ℕ}
    (hcall : calls[index]? = some (.assign path)) :
    found[index]? = some (next.get? path) := by
  induction calls generalizing registry found index with
  | nil => contradiction
  | cons call calls ih =>
      obtain ⟨answer, middle, more, hfirst, hmore, rfl⟩ := answers_cons_eq h
      cases index with
      | zero =>
          obtain rfl := Option.some.inj hcall
          rcases answer_cases hfirst with ⟨_, id, heq, hassign, rfl⟩ | ⟨_, heq, -⟩
          · obtain rfl := Call.assign.inj heq
            obtain ⟨_, hissued⟩ := issued_answers hmore
            rw [hissued.extends_registry _ _ (get?_assign? hassign)]
            rfl
          · contradiction
      | succ index => exact ih hmore hcall

/-- Looking a path up answers the identifier that it has in the end, if it had one
at the start or a call in between assigned it. -/
theorem getElem?_of_get (h : answers calls registry = some (found, next)) {index : ℕ}
    (hcall : calls[index]? = some (.get path)) :
    found[index]? = some (if (registry.get? path).isSome = true ∨
      path ∈ assignedPaths (calls.take index) then next.get? path else none) := by
  induction calls generalizing registry found index with
  | nil => contradiction
  | cons call calls ih =>
      obtain ⟨answer, middle, more, hfirst, hmore, rfl⟩ := answers_cons_eq h
      cases index with
      | zero =>
          obtain rfl := Option.some.inj hcall
          rcases answer_cases hfirst with ⟨_, _, heq, -⟩ | ⟨_, heq, rfl, rfl⟩
          · contradiction
          · obtain rfl := Call.get.inj heq
            obtain ⟨_, hissued⟩ := issued_answers hmore
            cases hknown : middle.get? path with
            | none => simp [assignedPaths]
            | some id => simp [hissued.extends_registry _ _ hknown]
      | succ index =>
          obtain ⟨_, hissued⟩ := issued_answer hfirst
          rw [List.getElem?_cons_succ, ih hmore hcall, List.take_succ_cons]
          simp only [hissued.known, assignedPaths, List.flatMap_cons, List.mem_append, or_assoc]

/-! ## What a run leaves behind -/

/-- What holds after calls with these answers. -/
structure Records (calls : List Call) (found : List (Option String)) (registry : Registry) :
    Prop where
  /-- Every call that assigned a path was answered the one identifier of it. -/
  assigns : ∀ (index : ℕ) path, calls[index]? = some (.assign path) →
    found[index]? = some (registry.get? path)
  /-- Every call that looked a path up was answered this identifier, or nothing
  if no call before had assigned the path. -/
  gets : ∀ (index : ℕ) path, calls[index]? = some (.get path) →
    found[index]? =
      some (if path ∈ assignedPaths (calls.take index) then registry.get? path else none)
  /-- Exactly the assigned paths have identifiers. -/
  known : ∀ path, (registry.get? path).isSome = true ↔ path ∈ assignedPaths calls
  /-- Assigning a path again gives its identifier and changes nothing. -/
  again : ∀ path ∈ assignedPaths calls, ∃ id, registry.get? path = some id ∧
    registry.assign? path = some (id, registry)
  /-- No two paths have the same identifier. -/
  injective : ∀ path other, (registry.get? path).isSome = true →
    registry.get? path = registry.get? other → path = other
  /-- The identifiers of paths and the paths of identifiers are inverse. -/
  agrees : ∀ path id, registry.get? path = some id ↔ registry.owner? id = some path
  /-- As many identifiers were issued as there are assigned paths. -/
  size_eq : registry.size = (assignedPaths calls).toFinset.card

theorem Distinct.size_eq (h : registry.Distinct) {paths : List String}
    (hknown : ∀ path, (registry.get? path).isSome = true ↔ path ∈ paths) :
    registry.size = paths.toFinset.card := by
  have hsame : (registry.issued.map Prod.fst).toFinset = paths.toFinset := by
    ext path
    rw [List.mem_toFinset, List.mem_toFinset, ← isSome_get?_iff, hknown]
  rw [← hsame, List.toFinset_card_of_nodup h.paths, List.length_map, size]

/-- Over a run of calls in which every call returns, a path keeps the identifier
that it was given first, and it alone has it. -/
theorem records_answers {digest : String → String} {scope : String}
    (h : answers calls { scope, digest } = some (found, registry)) :
    registry.Records calls found := by
  obtain ⟨ids, hissued⟩ := issued_answers h
  have hdistinct := hissued.distinct (distinct_start digest scope)
  have hknown : ∀ path, (registry.get? path).isSome = true ↔ path ∈ assignedPaths calls := by
    intro path
    rw [hissued.known]
    exact or_iff_right (by simp [get?])
  refine ⟨fun _ _ => getElem?_of_assign h, ?_, hknown, ?_, ?_, hdistinct.agrees,
    hdistinct.size_eq hknown⟩
  · intro index path hcall
    simpa [get?] using getElem?_of_get h hcall
  · intro path hpath
    obtain ⟨id, hid⟩ := Option.isSome_iff_exists.mp ((hknown path).mpr hpath)
    exact ⟨id, hid, by rw [assign?, hid]⟩
  · intro path other hsome heq
    obtain ⟨id, hid⟩ := Option.isSome_iff_exists.mp hsome
    exact hdistinct.path_eq hid (heq ▸ hid)

/-- Two paths have the same digest, and the salted form of one is a path too. -/
theorem records_answers_colliding :
    let digest := fun text => if text = "m|b" then "m|a" else text
    let calls := [.assign "a", .get "b", .assign "b", .assign "b#1", .assign "b", .get "b#1"]
    ∃ registry : Registry,
      answers calls { scope := "m", digest } =
        some ([some "_m|a", none, some "_m|b#1", some "_m|b#1#1", some "_m|b#1",
          some "_m|b#1#1"], registry) ∧
      registry.Records calls [some "_m|a", none, some "_m|b#1", some "_m|b#1#1",
        some "_m|b#1", some "_m|b#1#1"] := by
  intro digest calls
  have hrun : (answers calls { scope := "m", digest }).map Prod.fst =
      some [some "_m|a", none, some "_m|b#1", some "_m|b#1#1", some "_m|b#1",
        some "_m|b#1#1"] := by
    decide +kernel
  obtain ⟨⟨found, registry⟩, hrun, rfl⟩ := Option.map_eq_some_iff.mp hrun
  exact ⟨registry, hrun, records_answers hrun⟩

end ClassAtlas.Registry
