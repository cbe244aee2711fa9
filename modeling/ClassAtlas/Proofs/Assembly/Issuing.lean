import Mathlib.Tactic.Common
import ClassAtlas.Identity

/-!
# Issuing identifiers

Issuing only ever adds to a registry: a path keeps the identifier it was
issued first. If no two paths of the scope have the same digest, the first
identifier that is tried for a path is free, so nothing can fail.
-/

namespace ClassAtlas

namespace Registry

/-- Every identifier that was issued is still the one of its path. -/
def Extends (later earlier : Registry) : Prop :=
  ∀ path id, earlier.get? path = some id → later.get? path = some id

theorem Extends.refl (registry : Registry) : registry.Extends registry :=
  fun _ _ h => h

theorem Extends.trans {first second third : Registry}
    (h₁ : third.Extends second) (h₂ : second.Extends first) : third.Extends first :=
  fun path id h => h₁ path id (h₂ path id h)

theorem get?_issue (registry : Registry) (path id other : String) :
    (registry.issue path id).get? other =
      if other = path then some id else registry.get? other := by
  rw [get?, issue, List.lookup_cons]
  by_cases h : other = path
  · simp [h]
  · simp [h, get?, beq_eq_false_iff_ne.mpr h]

theorem owner?_issue (registry : Registry) (path id other : String) :
    (registry.issue path id).owner? other =
      if other = id then some path else registry.owner? other := by
  rw [owner?, issue, List.lookup_cons]
  by_cases h : other = id
  · simp [h]
  · simp [h, owner?, beq_eq_false_iff_ne.mpr h]

/-- Issuing leaves the registry as it is, or puts a new path in front. -/
theorem assign?_cases {registry next : Registry} {path id : String}
    (h : registry.assign? path = some (id, next)) :
    (registry.get? path = some id ∧ next = registry) ∨
      (registry.get? path = none ∧
        registry.firstFree? path maxTries 0 = some id ∧
        next = registry.issue path id) := by
  unfold assign? at h
  split at h
  next known hknown =>
    obtain ⟨rfl, rfl⟩ := Prod.mk.inj (Option.some.inj h)
    exact Or.inl ⟨hknown, rfl⟩
  next hnew =>
    obtain ⟨fresh, hfresh, heq⟩ := Option.map_eq_some_iff.mp h
    obtain ⟨rfl, rfl⟩ := Prod.mk.inj heq
    exact Or.inr ⟨hnew, hfresh, rfl⟩

theorem assign?_extends {registry next : Registry} {path id : String}
    (h : registry.assign? path = some (id, next)) : next.Extends registry := by
  rcases assign?_cases h with ⟨-, rfl⟩ | ⟨hnew, -, rfl⟩
  · exact Extends.refl _
  · intro other known hknown
    have hne : other ≠ path := by
      rintro rfl
      rw [hnew] at hknown
      contradiction
    rw [get?_issue, if_neg hne]
    exact hknown

theorem get?_assign? {registry next : Registry} {path id : String}
    (h : registry.assign? path = some (id, next)) : next.get? path = some id := by
  rcases assign?_cases h with ⟨hknown, rfl⟩ | ⟨-, -, rfl⟩
  · exact hknown
  · rw [get?_issue, if_pos rfl]

/-! ## The two tables -/

/-- The two tables of the registry say the same: an identifier is found for a
path exactly if that path is found for the identifier. -/
def Agrees (registry : Registry) : Prop :=
  ∀ path id, registry.get? path = some id ↔ registry.owner? id = some path

theorem agrees_start (digest : String → String) (scope : String) :
    Agrees { scope, digest } := by
  simp [Agrees, get?, owner?]

theorem isTaken_of_firstFree? {registry : Registry} {path id : String} {tries count : ℕ}
    (h : registry.firstFree? path tries count = some id) : registry.isTaken id = false := by
  induction tries generalizing count with
  | zero => contradiction
  | succ tries ih =>
      rw [firstFree?] at h
      by_cases htaken : registry.isTaken (registry.candidate path count) = true
      · rw [if_pos htaken] at h
        exact ih h
      · rw [if_neg htaken] at h
        rw [← Option.some.inj h]
        exact Bool.eq_false_iff.mpr htaken

/-- A new identifier for a new path keeps the tables in agreement. -/
theorem Agrees.issue {registry : Registry} (h : registry.Agrees) {path id : String}
    (hpath : registry.get? path = none) (hid : registry.owner? id = none) :
    (registry.issue path id).Agrees := by
  intro other taken
  rw [get?_issue, owner?_issue]
  by_cases hother : other = path
  · subst hother
    have hnone : registry.owner? taken ≠ some other := by
      rw [ne_eq, ← h, hpath]
      simp
    by_cases htaken : taken = id
    · simp [htaken]
    · simpa [htaken, Ne.symm htaken] using hnone
  · have hnone : registry.get? other ≠ some id := by
      rw [ne_eq, h, hid]
      simp
    by_cases htaken : taken = id
    · subst htaken
      simpa [hother, Ne.symm hother] using hnone
    · simpa [hother, htaken] using h other taken

theorem Agrees.assign? {registry next : Registry} (h : registry.Agrees) {path id : String}
    (hassign : registry.assign? path = some (id, next)) : next.Agrees := by
  rcases assign?_cases hassign with ⟨-, rfl⟩ | ⟨hnew, hfree, rfl⟩
  · exact h
  · have hid : registry.owner? id = none := by
      simpa [isTaken] using isTaken_of_firstFree? hfree
    exact h.issue hnew hid

/-! ## Digests without collisions -/

/-- No two of the paths have the same digest in the scope. -/
def CollisionFree (digest : String → String) (scope : String) (paths : List String) : Prop :=
  ∀ path ∈ paths, ∀ other ∈ paths,
    digest (scope ++ "|" ++ path) = digest (scope ++ "|" ++ other) → path = other

instance (digest : String → String) (scope : String) (paths : List String) :
    Decidable (CollisionFree digest scope paths) :=
  inferInstanceAs (Decidable (∀ path ∈ paths, ∀ other ∈ paths, _ → _))

theorem collisionFree_of_injective {digest : String → String} (h : Function.Injective digest)
    (scope : String) (paths : List String) : CollisionFree digest scope paths := by
  intro path _ other _ heq
  exact (String.append_right_inj _).mp (h heq)

/-- Only these paths have identifiers, and each one the first that was tried. -/
structure IsFirstTried (registry : Registry) (paths : List String) : Prop where
  agrees : registry.Agrees
  first : ∀ path id, registry.get? path = some id →
    path ∈ paths ∧ id = registry.candidate path 0

theorem isFirstTried_start (digest : String → String) (scope : String) (paths : List String) :
    IsFirstTried { scope, digest } paths :=
  ⟨agrees_start digest scope, by simp [get?]⟩

theorem isTaken_candidate {registry : Registry} {paths : List String}
    (hfree : CollisionFree registry.digest registry.scope paths)
    (hfirst : registry.IsFirstTried paths) {path : String} (hpath : path ∈ paths)
    (hnew : registry.get? path = none) :
    registry.isTaken (registry.candidate path 0) = false := by
  rw [isTaken, Option.isSome_eq_false_iff, Option.isNone_iff_eq_none]
  by_contra howned
  obtain ⟨other, howner⟩ := Option.ne_none_iff_exists'.mp howned
  have hother := (hfirst.agrees other _).mpr howner
  obtain ⟨hin, hid⟩ := hfirst.first other _ hother
  have hdigest : registry.digest (registry.scope ++ "|" ++ path) =
      registry.digest (registry.scope ++ "|" ++ other) := by
    simpa [candidate] using hid
  rw [← hfree _ hpath _ hin hdigest, hnew] at hother
  contradiction

/-- Without collisions every path gets the first identifier that is tried. -/
theorem exists_assign? {registry : Registry} {paths : List String}
    (hfree : CollisionFree registry.digest registry.scope paths)
    (hfirst : registry.IsFirstTried paths) {path : String} (hpath : path ∈ paths) :
    ∃ id next, registry.assign? path = some (id, next) ∧ next.digest = registry.digest ∧
      next.scope = registry.scope ∧ next.IsFirstTried paths := by
  cases hget : registry.get? path with
  | some id =>
      have hassign : registry.assign? path = some (id, registry) := by
        rw [assign?, hget]
      exact ⟨id, registry, hassign, rfl, rfl, hfirst⟩
  | none =>
      have hcandidate : registry.firstFree? path maxTries 0 =
          some (registry.candidate path 0) := by
        rw [show maxTries = 0xffffffff + 1 from rfl, firstFree?]
        simp [isTaken_candidate hfree hfirst hpath hget]
      have hassign : registry.assign? path = some (registry.candidate path 0,
          registry.issue path (registry.candidate path 0)) := by
        rw [assign?, hget, hcandidate]
        rfl
      refine ⟨_, _, hassign, rfl, rfl, hfirst.agrees.assign? hassign, ?_⟩
      intro other id hother
      rw [get?_issue] at hother
      split at hother
      next heq => exact ⟨heq ▸ hpath, heq ▸ (Option.some.inj hother).symm⟩
      next => exact hfirst.first other id hother

end Registry

namespace Issuing

variable {α β : Type}

/-! ## Runs of issuing computations -/

/-- A run of two steps is a run of the first and one of the second. -/
theorem bind_eq_some_iff {x : Issuing α} {f : α → Issuing β}
    {registry next : Registry} {b : β} :
    (x >>= f) registry = some (b, next) ↔
      ∃ a middle, x registry = some (a, middle) ∧ f a middle = some (b, next) := by
  change (x registry).bind (fun step => f step.1 step.2) = some (b, next) ↔ _
  rw [Option.bind_eq_some_iff]
  constructor
  · rintro ⟨⟨a, middle⟩, hx, hf⟩
    exact ⟨a, middle, hx, hf⟩
  · rintro ⟨a, middle, hx, hf⟩
    exact ⟨(a, middle), hx, hf⟩

theorem pure_eq_some_iff {a b : α} {registry next : Registry} :
    (pure a : Issuing α) registry = some (b, next) ↔ a = b ∧ registry = next := by
  change some (a, registry) = some (b, next) ↔ _
  rw [Option.some.injEq, Prod.mk.injEq]

theorem lookup?_bind (path : String) (f : Option String → Issuing β) (registry : Registry) :
    (lookup? path >>= f) registry = f (registry.get? path) registry := rfl

/-- A computation that cannot fail in the scope as long as only these paths
have identifiers. -/
def Succeeds (digest : String → String) (scope : String) (paths : List String)
    (x : Issuing α) : Prop :=
  ∀ registry, registry.digest = digest → registry.scope = scope → registry.IsFirstTried paths →
    ∃ a next, x registry = some (a, next) ∧ next.digest = digest ∧ next.scope = scope ∧
      next.IsFirstTried paths

namespace Succeeds

variable {digest : String → String} {scope : String} {paths : List String}

theorem pure (a : α) : Succeeds digest scope paths (Pure.pure a : Issuing α) :=
  fun registry hdigest hscope hfirst => ⟨a, registry, rfl, hdigest, hscope, hfirst⟩

theorem bind {x : Issuing α} {f : α → Issuing β} (hx : Succeeds digest scope paths x)
    (hf : ∀ a, Succeeds digest scope paths (f a)) :
    Succeeds digest scope paths (x >>= f) := by
  intro registry hdigest hscope hfirst
  obtain ⟨a, middle, hrun, hdigest, hscope, hfirst⟩ := hx registry hdigest hscope hfirst
  obtain ⟨b, next, hrun', hnext⟩ := hf a middle hdigest hscope hfirst
  exact ⟨b, next, bind_eq_some_iff.mpr ⟨a, middle, hrun, hrun'⟩, hnext⟩

theorem assign (hfree : Registry.CollisionFree digest scope paths) {path : String}
    (hpath : path ∈ paths) : Succeeds digest scope paths (Issuing.assign path) := by
  rintro registry rfl rfl hfirst
  exact Registry.exists_assign? hfree hfirst hpath

theorem lookup? (path : String) : Succeeds digest scope paths (Issuing.lookup? path) :=
  fun registry hdigest hscope hfirst =>
    ⟨registry.get? path, registry, rfl, hdigest, hscope, hfirst⟩

end Succeeds

end Issuing

end ClassAtlas
