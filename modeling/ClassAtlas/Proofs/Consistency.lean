import Mathlib.Data.List.Nodup
import ClassAtlas.Inference

/-!
# The representation invariant of a class model

A model keeps its declarations in a list and finds them through an index. The
two agree when the index sends a name to a place exactly if the declaration at
that place bears the name. Distinctness of the names follows, since the index
gives at most one place. The other part of the invariant is referential: both
ends of every relationship are names of declarations.

Each operation is shown to keep the invariant, and hence so does every finite
sequence of them.
-/

namespace ClassAtlas

/-! ## Indexes of lists of names -/

/-- The index sends a name to a place exactly if the list has the name there. -/
def Indexes (index : List (String × ℕ)) (names : List String) : Prop :=
  ∀ name slot, index.lookup name = some slot ↔ names[slot]? = some name

namespace Indexes

variable {index : List (String × ℕ)} {names : List String}

theorem nil : Indexes [] [] := by
  simp [Indexes]

theorem nodup (h : Indexes index names) : names.Nodup := by
  rw [List.nodup_iff_getElem?_ne_getElem?]
  intro i j hij hj heq
  have hi : i < names.length := Nat.lt_trans hij hj
  have hslot := (h names[i] i).mpr (List.getElem?_eq_getElem hi)
  have hslot' := (h names[i] j).mpr (by
    rw [← heq, List.getElem?_eq_getElem hi])
  have hsame : i = j := Option.some.inj (hslot.symm.trans hslot')
  omega

theorem isSome_lookup_iff (h : Indexes index names) {name : String} :
    (index.lookup name).isSome = true ↔ name ∈ names := by
  rw [Option.isSome_iff_exists, List.mem_iff_getElem?]
  exact exists_congr fun slot => h name slot

/-- A new name is indexed by the length of the list before it. -/
theorem concat (h : Indexes index names) {name : String} (hfresh : name ∉ names) :
    Indexes ((name, names.length) :: index) (names ++ [name]) := by
  intro other slot
  rw [List.lookup_cons]
  by_cases hother : other = name
  · subst other
    rw [beq_self_eq_true, Option.some.injEq]
    constructor
    · rintro rfl
      exact List.getElem?_concat_length
    · intro hslot
      have hlt := (List.getElem?_eq_some_iff.mp hslot).1
      rw [List.length_append, List.length_singleton] at hlt
      by_contra hne
      rw [List.getElem?_append_left (by omega)] at hslot
      exact hfresh (List.mem_of_getElem? hslot)
  · rw [beq_eq_false_iff_ne.mpr hother]
    refine (h other slot).trans ?_
    constructor
    · intro hslot
      rw [List.getElem?_append_left (List.getElem?_eq_some_iff.mp hslot).1]
      exact hslot
    · intro hslot
      rw [List.getElem?_append] at hslot
      split at hslot
      · exact hslot
      · have hmem := List.mem_of_getElem? hslot
        exact (hother (List.mem_singleton.mp hmem)).elim

end Indexes

/-- With distinct keys, a look-up finds exactly the listed pairs. -/
theorem lookup_eq_some_iff_mem {α : Type} {entries : List (String × α)}
    (hkeys : (entries.map Prod.fst).Nodup) {key : String} {value : α} :
    entries.lookup key = some value ↔ (key, value) ∈ entries := by
  constructor
  · intro hlookup
    obtain ⟨before, after, rfl, -⟩ := List.lookup_eq_some_iff.mp hlookup
    simp
  · intro hmem
    obtain ⟨before, after, rfl⟩ := List.append_of_mem hmem
    refine List.lookup_eq_some_iff.mpr ⟨before, after, rfl, ?_⟩
    intro entry hentry
    rw [List.map_append, List.map_cons, List.nodup_append] at hkeys
    have hne := hkeys.2.2 entry.1 (List.mem_map_of_mem hentry) key List.mem_cons_self
    exact bne_iff_ne.mpr hne.symm

/-- The index that is made for a list of declarations fits their names. -/
theorem indexes_indexOf {types : List Declaration}
    (hnames : (types.map Declaration.name).Nodup) :
    Indexes (Model.indexOf types) (types.map Declaration.name) := by
  intro name slot
  have hkeys : ((Model.indexOf types).map Prod.fst).Nodup := by
    rw [Model.indexOf, List.map_reverse, List.nodup_reverse, List.zipIdx_map_fst]
    exact hnames
  rw [lookup_eq_some_iff_mem hkeys, Model.indexOf, List.mem_reverse,
    List.mem_zipIdx_iff_getElem?]

namespace Model

variable {model : Model}

/-- The index agrees with the list of declarations, and every relationship
stays within it. -/
structure Consistent (model : Model) : Prop where
  indexed : Indexes model.index model.names
  ends_declared :
    ∀ link ∈ model.relationships,
      link.source ∈ model.names ∧ link.target ∈ model.names

/-! ## Look-ups in a consistent model -/

namespace Consistent

theorem names_nodup (h : model.Consistent) : model.names.Nodup :=
  h.indexed.nodup

theorem contains_iff (h : model.Consistent) {name : String} :
    model.contains name = true ↔ name ∈ model.names :=
  h.indexed.isSome_lookup_iff

/-- Looking a name up gives the declaration that bears it. -/
theorem get?_eq_some_iff
    (h : model.Consistent) {name : String} {decl : Declaration} :
    model.get? name = some decl ↔ decl ∈ model.types ∧ decl.name = name := by
  rw [get?, Option.bind_eq_some_iff]
  constructor
  · rintro ⟨slot, hslot, hdecl⟩
    have hname := (h.indexed name slot).mp hslot
    rw [names, List.getElem?_map, hdecl] at hname
    exact ⟨List.mem_of_getElem? hdecl, Option.some.inj hname⟩
  · rintro ⟨hmem, rfl⟩
    obtain ⟨slot, hslot⟩ := List.mem_iff_getElem?.mp hmem
    refine ⟨slot, (h.indexed _ slot).mpr ?_, hslot⟩
    rw [names, List.getElem?_map, hslot]
    rfl

end Consistent

/-! ## What each operation keeps -/

theorem consistent_new (name : String) : Consistent { name } where
  indexed := Indexes.nil
  ends_declared := by simp

/-- Consistency depends only on the index, the names and the relationships. -/
theorem Consistent.of_names_eq
    {other : Model} (h : model.Consistent)
    (hnames : other.names = model.names) (hindex : other.index = model.index)
    (hlinks : other.relationships = model.relationships) :
    other.Consistent where
  indexed := by
    rw [hnames, hindex]
    exact h.indexed
  ends_declared := by
    rw [hnames, hlinks]
    exact h.ends_declared

/-- Replacing the declaration at the place of its name changes no name. -/
theorem names_set_slot (h : model.Consistent)
    {decl : Declaration} {slot : ℕ} (hslot : model.slot? decl.name = some slot) :
    (model.types.set slot decl).map Declaration.name = model.names := by
  have hname := (h.indexed decl.name slot).mp hslot
  obtain ⟨hlt, hget⟩ := List.getElem?_eq_some_iff.mp hname
  rw [List.map_set, ← names, ← hget]
  exact List.set_getElem_self hlt

theorem Consistent.insert (h : model.Consistent) (decl : Declaration) :
    (model.insert decl).Consistent := by
  unfold Model.insert
  split
  next slot hslot =>
    exact h.of_names_eq (names_set_slot h hslot) rfl rfl
  next hslot =>
    have hfresh : decl.name ∉ model.names := by
      intro hmem
      have hcontains := h.contains_iff.mpr hmem
      rw [contains, hslot] at hcontains
      contradiction
    have hnames :
        (model.types ++ [decl]).map Declaration.name = model.names ++ [decl.name] := by
      rw [List.map_append, List.map_singleton, names]
    refine ⟨?_, ?_⟩
    · rw [names, hnames, ← List.length_map (f := Declaration.name)]
      exact h.indexed.concat hfresh
    · intro link hlink
      obtain ⟨hsource, htarget⟩ := h.ends_declared link hlink
      rw [names, hnames]
      exact ⟨List.mem_append_left _ hsource, List.mem_append_left _ htarget⟩

theorem Consistent.relate? (h : model.Consistent)
    {link : Relationship} {next : Model} (hnext : model.relate? link = some next) :
    next.Consistent := by
  unfold Model.relate? at hnext
  split at hnext
  next hends =>
    obtain ⟨hsource, htarget⟩ := (Bool.and_eq_true _ _).mp hends
    cases hnext
    refine ⟨h.indexed, ?_⟩
    intro other hother
    rcases List.mem_append.mp hother with hold | hnew
    · exact h.ends_declared other hold
    · rw [List.mem_singleton.mp hnew]
      exact ⟨h.contains_iff.mp hsource, h.contains_iff.mp htarget⟩
  next => contradiction

theorem Consistent.relate (h : model.Consistent) (link : Relationship) :
    (model.relate link).Consistent := by
  unfold Model.relate
  cases hnext : model.relate? link with
  | none => exact h
  | some next => exact h.relate? hnext

/-- Taking over part of the declarations makes a consistent model: the index
is new, and relationships that lost an end are dropped. -/
theorem Consistent.withTypes (h : model.Consistent)
    {types : List Declaration} (hsub : types.Sublist model.types) :
    (model.withTypes types).Consistent := by
  have hindexed := indexes_indexOf (h.names_nodup.sublist (hsub.map Declaration.name))
  refine ⟨hindexed, ?_⟩
  intro link hlink
  have hends := (List.mem_filter.mp hlink).2
  obtain ⟨hsource, htarget⟩ := (Bool.and_eq_true _ _).mp hends
  exact ⟨hindexed.isSome_lookup_iff.mp hsource, hindexed.isSome_lookup_iff.mp htarget⟩

theorem Consistent.retain (h : model.Consistent) (keep : Declaration → Bool) :
    (model.retain keep).Consistent :=
  h.withTypes List.filter_sublist

theorem Consistent.truncate (h : model.Consistent) (max : ℕ) :
    (model.truncate max).Consistent := by
  unfold Model.truncate
  split
  · exact h.withTypes (List.take_sublist max model.types)
  · exact h

theorem Consistent.apply (h : model.Consistent) (options : Inference.Options) :
    (Inference.apply options model).1.Consistent := by
  unfold Inference.apply
  generalize Inference.infer options model = links
  refine List.foldlRecOn (motive := fun state => state.1.Consistent)
    links Inference.applyOne ?_ ?_
  · exact h
  intro state hstate link _
  unfold Inference.applyOne
  split
  next next hnext => exact hstate.relate? hnext
  next => exact hstate

theorem Consistent.merge (h : model.Consistent) (declared : List Relationship) :
    (Inference.merge model declared).1.Consistent := by
  unfold Inference.merge
  refine List.foldlRecOn (motive := fun state => state.1.Consistent)
    declared Inference.mergeOne ?_ ?_
  · exact h
  intro state hstate link _
  unfold Inference.mergeOne
  dsimp only
  split
  · exact hstate
  · split
    next next hnext => exact hstate.relate? hnext
    next => exact hstate

/-! ## Sequences of operations -/

/-- A change of a model, with its arguments. -/
inductive Edit where
  | insert (decl : Declaration)
  | relate (link : Relationship)
  | retain (keep : Declaration → Bool)
  | truncate (max : ℕ)
  /-- Adding the inferred relationships. -/
  | infer (options : Inference.Options)
  /-- Merging relationships that were declared. -/
  | merge (declared : List Relationship)

/-- The model after a change. -/
def edit (model : Model) : Edit → Model
  | .insert decl => model.insert decl
  | .relate link => model.relate link
  | .retain keep => model.retain keep
  | .truncate max => model.truncate max
  | .infer options => (Inference.apply options model).1
  | .merge declared => (Inference.merge model declared).1

theorem Consistent.edit (h : model.Consistent) (change : Edit) :
    (model.edit change).Consistent := by
  cases change with
  | insert decl => exact h.insert decl
  | relate link => exact h.relate link
  | retain keep => exact h.retain keep
  | truncate max => exact h.truncate max
  | infer options => exact h.apply options
  | merge declared => exact h.merge declared

theorem Consistent.foldl_edit (h : model.Consistent) (changes : List Edit) :
    (changes.foldl Model.edit model).Consistent := by
  induction changes generalizing model with
  | nil => exact h
  | cons change rest ih => exact ih (h.edit change)

/-- After any sequence of changes to a new model, the names are distinct, the
index and both look-ups describe the list of declarations, and no relationship
leads out of it. -/
theorem invariant_after_edits (name : String) (changes : List Edit) :
    let model := changes.foldl Model.edit { name }
    model.names.Nodup ∧
      (∀ name slot, model.slot? name = some slot ↔
        (model.types[slot]?).map Declaration.name = some name) ∧
      (∀ name decl, model.get? name = some decl ↔
        decl ∈ model.types ∧ decl.name = name) ∧
      (∀ name, model.contains name = true ↔ name ∈ model.names) ∧
      ∀ link ∈ model.relationships,
        link.source ∈ model.names ∧ link.target ∈ model.names := by
  intro model
  have h : model.Consistent := (consistent_new name).foldl_edit changes
  refine ⟨h.names_nodup, ?_, ?_, ?_, h.ends_declared⟩
  · intro name slot
    rw [← List.getElem?_map]
    exact h.indexed name slot
  · intro name decl
    exact h.get?_eq_some_iff
  · intro name
    exact h.contains_iff

end Model

end ClassAtlas
