import ClassAtlas.Proofs.UnitOrder
import ClassAtlas.Proofs.WellFormed
import ClassAtlas.Proofs.InferenceExactness
import ClassAtlas.Proofs.Diagram.InheritanceStyles

/-!
# Links that are folded into declarations

A diagram can declare one name several times. A link that states a supertype is
folded into the first declaration of its source, but the model keeps the last
one. So a realization that is drawn between two types of a diagram gets into the
model if its source is declared once. If the source is declared again, the model
has its last declaration just as it was written, and the link is lost unless
that declaration states the interface itself.

Both selections are described by one list, the declarations of a name: links
change its head, and insertion takes its last element.
-/

namespace ClassAtlas

open Text

/-- A realization is inferred for each interface of a declaration that is
declared itself. -/
theorem Inference.mem_infer_realization {options : Options} {model : Model}
    (h : model.Consistent) {decl : Declaration} (hdecl : decl ∈ model.types) {target : String} :
    { source := decl.name, target, kind := .realization } ∈ infer options model ↔
      target ∈ model.names ∧ target ∈ decl.implementedInterfaces := by
  let link : Relationship := { source := decl.name, target, kind := .realization }
  have hgiven : link ∈ infer options model ↔ link ∈ supertypeLinks model decl := by
    have hof : link ∈ linksOf options model decl ↔ link ∈ supertypeLinks model decl :=
      mem_linksOf_of_supertype (Or.inr rfl)
    rw [← hof, ← mem_infer_and_source_iff h hdecl, and_iff_left rfl]
  rw [hgiven, mem_supertypeLinks h]
  constructor
  · rintro ⟨other, kind, hsupertype, hmodeled, hlink⟩
    obtain ⟨-, rfl, rfl, -, -⟩ := Relationship.mk.inj hlink
    exact ⟨hmodeled, mem_supertypes_realization.mp hsupertype⟩
  · rintro ⟨hmodeled, himplemented⟩
    exact ⟨target, .realization, mem_supertypes_realization.mpr himplemented, hmodeled, rfl⟩

namespace Diagram

/-! ## The declarations of a name -/

/-- The declarations of a name, in the order in which they stand. -/
def named (name : String) (types : List Declaration) : List Declaration :=
  types.filter (·.name == name)

theorem named_cons (name : String) (decl : Declaration) (types : List Declaration) :
    named name (decl :: types) =
      if decl.name = name then decl :: named name types else named name types := by
  simp [named, List.filter_cons]

theorem length_named (name : String) (types : List Declaration) :
    (named name types).length = (types.map Declaration.name).count name := by
  rw [named, ← List.countP_eq_length_filter, List.count, List.countP_map]
  rfl

theorem mem_named {name : String} {types : List Declaration} {decl : Declaration} :
    decl ∈ named name types ↔ decl ∈ types ∧ decl.name = name := by
  rw [named, List.mem_filter, beq_iff_eq]

theorem named_ne_nil {name : String} {types : List Declaration}
    (h : name ∈ types.map Declaration.name) : named name types ≠ [] := by
  obtain ⟨decl, hdecl, hname⟩ := List.mem_map.mp h
  exact List.ne_nil_of_mem (mem_named.mpr ⟨hdecl, hname⟩)

/-- A change to the first declaration of a name shows in the declarations of
that name only, and there in the head. -/
theorem named_updateFirst {change : Declaration → Declaration}
    (hchange : ∀ decl, (change decl).name = decl.name) (source name : String)
    (types : List Declaration) :
    named name (updateFirst source change types) =
      if source = name then (named name types).modifyHead change else named name types := by
  induction types with
  | nil =>
      rw [updateFirst]
      split <;> rfl
  | cons decl types ih =>
      rw [updateFirst, named_cons]
      by_cases hsource : decl.name = source
      · rw [if_pos hsource, named_cons, hchange, hsource]
        by_cases hname : source = name
        · simp [hname]
        · simp [hname]
      · rw [if_neg hsource, named_cons, ih]
        by_cases hname : source = name
        · rw [hname] at hsource
          simp [hname, hsource]
        · simp [hname]

/-- Whether a link states a supertype of the type of a name. -/
def statesFor (name : String) (link : Relationship) : Bool :=
  isSupertypeKind link.kind && link.source == name

theorem named_applyLink (name : String) (state : List Declaration × List Relationship)
    (link : Relationship) :
    named name (applyLink state link).1 =
      if statesFor name link then (named name state.1).modifyHead (addSupertype link)
      else named name state.1 := by
  obtain ⟨types, declared⟩ := state
  rw [applyLink]
  dsimp only
  by_cases hkind : isSupertypeKind link.kind = true
  · by_cases hlisted : types.any (·.name == link.source) = true
    · rw [hkind, hlisted, Bool.true_and, if_pos rfl,
        named_updateFirst (name_addSupertype link) link.source]
      simp [statesFor, hkind]
    · -- no declaration has the name of the source
      rw [Bool.not_eq_true] at hlisted
      rw [hlisted, Bool.and_false, if_neg (by decide)]
      split
      next hstates =>
        have hsource : link.source = name := by
          rw [statesFor, Bool.and_eq_true, beq_iff_eq] at hstates
          exact hstates.2
        have hnone : named name types = [] := by
          rw [← hsource]
          exact List.filter_eq_nil_iff.mpr fun decl hdecl => List.any_eq_false.mp hlisted decl hdecl
        rw [hnone]
        rfl
      next => rfl
  · rw [Bool.not_eq_true] at hkind
    simp [statesFor, hkind]

/-- A declaration with the supertypes that links state for it. -/
def addSupertypes (links : List Relationship) (decl : Declaration) : Declaration :=
  (links.filter (statesFor decl.name)).foldl (fun decl link => addSupertype link decl) decl

/-- Of the declarations of a name, the first one takes all supertypes that links
state for the name, and the others stay as they are. -/
theorem named_foldl_applyLink (name : String) (links : List Relationship)
    (state : List Declaration × List Relationship) :
    named name (links.foldl applyLink state).1 =
      (named name state.1).modifyHead (addSupertypes links) := by
  have hfold : named name (links.foldl applyLink state).1 =
      (named name state.1).modifyHead fun decl =>
        (links.filter (statesFor name)).foldl (fun decl link => addSupertype link decl) decl := by
    induction links generalizing state with
    | nil =>
        cases hnamed : named name state.1 with
        | nil => simp [hnamed]
        | cons decl more => simp [hnamed]
    | cons link links ih =>
        rw [List.foldl_cons, ih, named_applyLink, List.filter_cons]
        split
        next hstates =>
          rw [List.modifyHead_modifyHead]
          rfl
        next => rfl
  rw [hfold]
  cases hnamed : named name state.1 with
  | nil => rfl
  | cons decl more =>
      have hmem : decl ∈ named name state.1 := by
        rw [hnamed]
        exact List.mem_cons_self
      rw [List.modifyHead_cons, List.modifyHead_cons, addSupertypes, (mem_named.mp hmem).2]

/-- The model keeps the last declaration of a name. -/
theorem get?_foldl_insert_new (title : String) (types : List Declaration) (name : String) :
    (types.foldl Model.insert { name := title }).get? name = (named name types).getLast? := by
  rw [(Model.consistent_new title).get?_foldl_insert, named, List.getLast?_filter]
  exact Option.or_none

/-! ## Interfaces that are added -/

theorem subset_addSupertype (link : Relationship) (decl : Declaration) :
    decl.implementedInterfaces ⊆ (addSupertype link decl).implementedInterfaces := by
  have hextend : (extendBy decl link.target).implementedInterfaces =
      decl.implementedInterfaces := by
    unfold extendBy Declaration.setSuperclass Declaration.setSuperclass? Declaration.extend
      Declaration.extend?
    repeat' split
    all_goals rfl
  unfold addSupertype
  split
  · rw [hextend]
    exact List.Subset.refl _
  · rcases decl.implement_cases link.target with heq | ⟨-, -, heq⟩
    · rw [heq]
      exact List.Subset.refl _
    · rw [heq]
      exact List.subset_append_left _ _
  · exact List.Subset.refl _

theorem subset_foldl_addSupertype (links : List Relationship) (decl : Declaration) :
    decl.implementedInterfaces ⊆
      (links.foldl (fun decl link => addSupertype link decl) decl).implementedInterfaces := by
  induction links generalizing decl with
  | nil => exact List.Subset.refl _
  | cons link links ih => exact List.Subset.trans (subset_addSupertype link decl) (ih _)

/-- A filled name other than the declaration's own is accepted as an interface,
if it is not listed already. -/
theorem mem_implement {decl : Declaration} {name : String} (hfilled : name ≠ "")
    (hother : name ≠ decl.name) : name ∈ (decl.implement name).implementedInterfaces := by
  by_cases hlisted : name ∈ decl.implementedInterfaces
  · simp [Declaration.implement, Declaration.implement?, hlisted]
  · simp [Declaration.implement, Declaration.implement?, hlisted, hfilled, hother]

theorem mem_addSupertypes {links : List Relationship} {link : Relationship} (hlink : link ∈ links)
    (hkind : link.kind = .realization) {decl : Declaration} (hsource : link.source = decl.name)
    (hfilled : link.target ≠ "") (hother : link.target ≠ decl.name) :
    link.target ∈ (addSupertypes links decl).implementedInterfaces := by
  have hstates : link ∈ links.filter (statesFor decl.name) := by
    rw [List.mem_filter, statesFor, hkind, hsource, beq_self_eq_true]
    exact ⟨hlink, rfl⟩
  obtain ⟨before, after, hsplit⟩ := List.append_of_mem hstates
  have hname : (before.foldl (fun decl link => addSupertype link decl) decl).name = decl.name :=
    List.foldlRecOn (motive := fun other => other.name = decl.name) before _ rfl
      fun other hother link _ => (name_addSupertype link other).trans hother
  rw [addSupertypes, hsplit, List.foldl_append, List.foldl_cons]
  apply subset_foldl_addSupertype after
  rw [addSupertype, hkind]
  exact mem_implement hfilled (by rw [hname]; exact hother)

/-! ## Realizations in the model -/

/-- A realization between two types of a diagram is in the model, both as an
interface of its source and as a relationship that is inferred, exactly if the
source is declared once or the last declaration of the source states it as
well. Declarations that are read from a diagram have filled names. -/
theorem realizations_folded (title : String) (options : Inference.Options)
    {types : List Declaration} (hfilled : ∀ decl ∈ types, decl.name ≠ "")
    (links : List Relationship) :
    let model := (links.foldl applyLink (types, [])).1.foldl Model.insert { name := title }
    ∀ link ∈ links, link.kind = .realization → link.source ≠ link.target →
      link.source ∈ types.map Declaration.name → link.target ∈ types.map Declaration.name →
      ∃ decl, model.get? link.source = some decl ∧
        (link.target ∈ decl.implementedInterfaces ↔
          (types.map Declaration.name).count link.source = 1 ∨
            ∃ last ∈ (named link.source types).getLast?,
              link.target ∈ last.implementedInterfaces) ∧
        ({ source := link.source, target := link.target, kind := .realization } ∈
            Inference.infer options model ↔
          link.target ∈ decl.implementedInterfaces) := by
  intro model link hlink hkind hne hsource htarget
  have hconsistent : model.Consistent := (Model.consistent_new title).foldl_insert _
  have hget : ∀ name, model.get? name =
      ((named name types).modifyHead (addSupertypes links)).getLast? := by
    intro name
    rw [get?_foldl_insert_new, named_foldl_applyLink]
  have hmodeled : link.target ∈ model.names := by
    have hne : (named link.target types).modifyHead (addSupertypes links) ≠ [] := by
      simpa using named_ne_nil htarget
    obtain ⟨decl, hdecl⟩ := Option.ne_none_iff_exists'.mp (mt List.getLast?_eq_none_iff.mp hne)
    rw [← hget] at hdecl
    obtain ⟨hmem, hname⟩ := hconsistent.get?_eq_some_iff.mp hdecl
    exact hname ▸ List.mem_map_of_mem hmem
  have hinferred : ∀ decl, model.get? link.source = some decl →
      ({ source := link.source, target := link.target, kind := .realization } ∈
          Inference.infer options model ↔ link.target ∈ decl.implementedInterfaces) := by
    intro decl hdecl
    obtain ⟨hmem, hname⟩ := hconsistent.get?_eq_some_iff.mp hdecl
    rw [← hname, Inference.mem_infer_realization hconsistent hmem, and_iff_right hmodeled]
  have hcount := length_named link.source types
  obtain ⟨first, more, hnamed⟩ := List.exists_cons_of_ne_nil (named_ne_nil hsource)
  have hfirst : first.name = link.source :=
    (mem_named.mp (by rw [hnamed]; exact List.mem_cons_self)).2
  have hfound := hget link.source
  rw [hnamed] at hcount hfound ⊢
  cases more with
  | nil =>
      refine ⟨addSupertypes links first, hfound, ?_, hinferred _ hfound⟩
      have hmem : link.target ∈ (addSupertypes links first).implementedInterfaces := by
        obtain ⟨target, htypes, hname⟩ := List.mem_map.mp htarget
        refine mem_addSupertypes hlink hkind hfirst.symm ?_ ?_
        · rw [← hname]
          exact hfilled target htypes
        · rw [hfirst]
          exact hne.symm
      simp [hmem, ← hcount]
  | cons next rest =>
      -- the links only changed a declaration that the model replaced
      have hlast : model.get? link.source = (first :: next :: rest).getLast? := by
        rw [hfound, List.modifyHead_cons, List.getLast?_cons_cons, List.getLast?_cons_cons]
      obtain ⟨last, hlast'⟩ := Option.ne_none_iff_exists'.mp
        (mt List.getLast?_eq_none_iff.mp (List.cons_ne_nil first (next :: rest)))
      rw [hlast'] at hlast ⊢
      refine ⟨last, hlast, ?_, hinferred last hlast⟩
      simp [← hcount]

/-! ### A type that is declared twice -/

/-- The declarations of a diagram in which one type is declared once and another
one twice. -/
def shelfTypes : List Declaration :=
  [{ name := "Sorted", kind := .interface }, { name := "Shelf", kind := .«class» },
    { name := "Box", kind := .«class» }, { name := "Shelf", kind := .«class» }]

/-- The links of the diagram: both types have the interface. -/
def shelfLinks : List Relationship :=
  [{ source := "Box", target := "Sorted", kind := .realization },
    { source := "Shelf", target := "Sorted", kind := .realization }]

/-- The model of the diagram. -/
def shelfModel : Model :=
  (shelfLinks.foldl applyLink (shelfTypes, [])).1.foldl Model.insert { name := "shelves" }

/-- The type that is declared once has its interface. -/
theorem realizations_folded_box :
    (∀ decl ∈ shelfTypes, decl.name ≠ "") ∧
      (shelfTypes.map Declaration.name).count "Box" = 1 ∧
      ∃ decl, shelfModel.get? "Box" = some decl ∧ "Sorted" ∈ decl.implementedInterfaces ∧
        { source := "Box", target := "Sorted", kind := .realization } ∈
          Inference.infer {} shelfModel := by
  have hfilled : ∀ decl ∈ shelfTypes, decl.name ≠ "" := by
    decide
  have hcount : (shelfTypes.map Declaration.name).count "Box" = 1 := by
    decide
  obtain ⟨decl, hdecl, himplemented, hinferred⟩ :=
    realizations_folded "shelves" {} hfilled shelfLinks _ List.mem_cons_self rfl (by decide)
      (by decide) (by decide)
  have hmem := himplemented.mpr (Or.inl hcount)
  exact ⟨hfilled, hcount, decl, hdecl, hmem, hinferred.mpr hmem⟩

/-- The type that is declared twice loses its interface, although both ends of
the link are in the model. -/
theorem shelves_lose_realization :
    let text := "interface Sorted\nclass Shelf\nclass Box\nclass Shelf\n" ++
      "Box ..|> Sorted\nShelf ..|> Sorted\n"
    let gathered := (items ((lines text.toList).map trim)).foldl gather { log := { unit := "" } }
    gathered.types = shelfTypes ∧ gathered.links = shelfLinks ∧
      { source := "Shelf", target := "Sorted", kind := .realization } ∈ shelfLinks ∧
      shelfModel.contains "Shelf" = true ∧ shelfModel.contains "Sorted" = true ∧
      (shelfModel.get? "Shelf").map Declaration.implementedInterfaces = some [] ∧
      ∀ link ∈ Inference.infer {} shelfModel, link.source ≠ "Shelf" := by
  decide +kernel

end Diagram

end ClassAtlas
