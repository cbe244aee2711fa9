import ClassAtlas.Text.Pattern
import ClassAtlas.Proofs.Text.Cutting

/-!
# Searching the readings of a pattern

Rules for following a search through the parts of a pattern. A run that takes
as many characters as it can is settled by its longest reading if the rest of
the pattern accepts what follows; a run that has to give characters back, or
that takes as few as it can, also needs the failures of the readings tried
before. Every reading leaves a suffix of the text, so a search for a character
that the text does not have fails.
-/

namespace ClassAtlas.Text.Pattern

variable {α β γ : Type}

/-! ## Classes of characters -/

/-- A character of a class is none of the characters outside of it. -/
theorem notMem_of_ok {ok : Char → Bool} {c : Char} (h : ok c = true) {others : List Char}
    (hothers : ∀ d ∈ others, ok d = false) : c ∉ others := by
  intro hmem
  rw [hothers c hmem] at h
  contradiction

theorem noneOf_of_ok {ok : Char → Bool} {c : Char} (h : ok c = true) {others : List Char}
    (hothers : ∀ d ∈ others, ok d = false) : noneOf others c = true := by
  simp [noneOf, notMem_of_ok h hothers]

theorem noneOf_iff {others : List Char} {c : Char} : noneOf others c = true ↔ c ∉ others := by
  simp [noneOf]

theorem forall_noneOf_iff {d : Char} {s : List Char} :
    (∀ c ∈ s, noneOf [d] c = true) ↔ d ∉ s := by
  simp only [noneOf_iff, List.mem_singleton]
  exact List.forall_mem_ne'

theorem forall_inLine_iff {s : List Char} : (∀ c ∈ s, inLine c = true) ↔ '\n' ∉ s := by
  simp only [inLine, bne_iff_ne]
  exact List.forall_mem_ne'

/-! ## Search through the combinators -/

@[simp] theorem search_pure (a : α) (k : α → List Char → Option β) (s : List Char) :
    (pure a : Pattern α).search k s = k a s := rfl

@[simp] theorem search_bind (p : Pattern α) (f : α → Pattern γ)
    (k : γ → List Char → Option β) (s : List Char) :
    (p >>= f).search k s = p.search (fun a rest => (f a).search k rest) s := rfl

@[simp] theorem search_taken (p : Pattern α) (k : Span → List Char → Option β)
    (s : List Char) :
    p.taken.search k s = p.search (fun _ rest => k ⟨s, rest⟩ rest) s := rfl

@[simp] theorem search_blanks (k : Unit → List Char → Option β) (s : List Char) :
    blanks.search k s = k () (trimStart s) := rfl

@[simp] theorem search_char_self (c : Char) (k : Unit → List Char → Option β)
    (s : List Char) : (char c).search k (c :: s) = k () s := by
  simp [char, ofReading?]

theorem search_char_of_ne {c : Char} {s : List Char} (h : s.head? ≠ some c)
    (k : Unit → List Char → Option β) : (char c).search k s = none := by
  cases s with
  | nil => rfl
  | cons d rest =>
      have hne : d ≠ c := by simpa using h
      simp [char, ofReading?, hne]

@[simp] theorem search_atEnd_nil (k : Unit → List Char → Option β) :
    atEnd.search k [] = k () [] := rfl

@[simp] theorem search_atEnd_cons (k : Unit → List Char → Option β)
    (c : Char) (s : List Char) : atEnd.search k (c :: s) = none := rfl

theorem search_one_of_ok {ok : Char → Bool} {c : Char} (h : ok c = true)
    (k : Char → List Char → Option β) (s : List Char) :
    (one ok).search k (c :: s) = k c s := by
  simp [one, ofReading?, h]

theorem search_one_of_stops {ok : Char → Bool} {s : List Char} (h : Stops ok s)
    (k : Char → List Char → Option β) : (one ok).search k s = none := by
  cases s with
  | nil => rfl
  | cons c rest => simp [one, ofReading?, stops_cons.mp h]

theorem search_blanks1_cons {c : Char} (h : isBlank c = true)
    (k : Unit → List Char → Option β) (s : List Char) :
    blanks1.search k (c :: s) = k () (trimStart s) :=
  search_one_of_ok h (fun _ => blanks.search k) s

theorem search_blanks1_of_stops {s : List Char} (h : Stops isBlank s)
    (k : Unit → List Char → Option β) : blanks1.search k s = none :=
  search_one_of_stops h fun _ => blanks.search k

theorem search_literal_append (t : String) (k : Unit → List Char → Option β)
    (s : List Char) : (literal t).search k (t.toList ++ s) = k () s := by
  simp [literal, ofReading?, isPrefixOf?_append]

theorem search_literal_of_none {t : String} {s : List Char}
    (h : t.toList.isPrefixOf? s = none) (k : Unit → List Char → Option β) :
    (literal t).search k s = none := by
  simp [literal, ofReading?, h]

/-- A text is found at the front in one way at most. -/
theorem search_literal_eq_none {t : String} {s : List Char} {k : Unit → List Char → Option β}
    (h : ∀ rest, s = t.toList ++ rest → k () rest = none) : (literal t).search k s = none := by
  cases hdrop : t.toList.isPrefixOf? s with
  | none => exact search_literal_of_none hdrop k
  | some rest =>
      have hs := List.isPrefixOf?_eq_some_iff_append_eq.mp hdrop
      rw [← hs, search_literal_append]
      exact h rest hs.symm

theorem search_optional (p : Pattern α) (k : Option α → List Char → Option β)
    (s : List Char) :
    (optional p).search k s =
      (p.search (fun a rest => k (some a) rest) s).or (k none s) := by
  rw [optional]
  dsimp only
  cases p.search (fun a rest => k (some a) rest) s <;> rfl

theorem search_optional_of_some {p : Pattern α} {k : Option α → List Char → Option β}
    {s : List Char} {b : β} (h : p.search (fun a rest => k (some a) rest) s = some b) :
    (optional p).search k s = some b := by
  rw [search_optional, h, Option.some_or]

theorem search_optional_of_none {p : Pattern α} {k : Option α → List Char → Option β}
    {s : List Char} (h : p.search (fun a rest => k (some a) rest) s = none) :
    (optional p).search k s = k none s := by
  rw [search_optional, h, Option.none_or]

@[simp] theorem search_oneOf_nil (k : α → List Char → Option β) (s : List Char) :
    (oneOf ([] : List (Pattern α))).search k s = none := rfl

@[simp] theorem search_oneOf_cons (p : Pattern α) (ps : List (Pattern α))
    (k : α → List Char → Option β) (s : List Char) :
    (oneOf (p :: ps)).search k s = (p.search k s).or ((oneOf ps).search k s) := by
  simp only [oneOf, List.findSome?_cons]
  cases p.search k s <;> rfl

theorem search_keyword_cons (word : String) (choices : List String)
    (k : String → List Char → Option β) (s : List Char) :
    (keyword (word :: choices)).search k s =
      ((literal word).search (fun _ rest => k word rest) s).or ((keyword choices).search k s) := by
  rw [keyword, List.map_cons, search_oneOf_cons]
  rfl

/-- A continuation that accepts every reading gets the preferred one. -/
theorem search_some (p : Pattern α) (f : α → List Char → β) (s : List Char) :
    p.search (fun a rest => some (f a rest)) s =
      (p.first? s).map fun reading => f reading.1 reading.2 := by
  rw [first?_eq_head?, p.search_eq]
  cases p.readings s <;> rfl

/-! ## Runs of characters -/

@[simp] theorem text_span_append (a b : List Char) : Span.text ⟨a ++ b, b⟩ = a := by
  simp [Span.text]

theorem search_skip (ok : Char → Bool) (k : Unit → List Char → Option β)
    (s : List Char) :
    (skip ok).search k s = (remainders ok s).reverse.findSome? (k ()) := by
  simp only [skip, ofReadings, List.findSome?_map, Function.comp_def]

theorem search_skipFew (ok : Char → Bool) (k : Unit → List Char → Option β)
    (s : List Char) :
    (skipFew ok).search k s = (remainders ok s).findSome? (k ()) := by
  simp only [skipFew, ofReadings, List.findSome?_map, Function.comp_def]

theorem remainders_eq_cons (ok : Char → Bool) (s : List Char) :
    remainders ok s = s :: (remainders ok s).tail := by
  cases s <;> simp [remainders]

theorem mem_remainders {ok : Char → Bool} {s rest : List Char}
    (h : rest ∈ remainders ok s) :
    ∃ a, s = a ++ rest ∧ ∀ c ∈ a, ok c = true := by
  induction s with
  | nil =>
      rw [remainders, List.mem_singleton] at h
      exact ⟨[], by simp [h]⟩
  | cons c s ih =>
      rw [remainders, List.mem_cons] at h
      rcases h with rfl | hmem
      · exact ⟨[], by simp⟩
      · split at hmem
        next hc =>
          obtain ⟨a, rfl, ha⟩ := ih hmem
          exact ⟨c :: a, rfl, List.forall_mem_cons.mpr ⟨hc, ha⟩⟩
        next => contradiction

/-- What remains after at least one character. -/
theorem mem_tail_remainders {ok : Char → Bool} {s rest : List Char}
    (h : rest ∈ (remainders ok s).tail) :
    ∃ a, a ≠ [] ∧ s = a ++ rest ∧ ∀ c ∈ a, ok c = true := by
  cases s with
  | nil => simp [remainders] at h
  | cons c s =>
      rw [remainders, List.tail_cons] at h
      split at h
      next hc =>
        obtain ⟨a, rfl, ha⟩ := mem_remainders h
        exact ⟨c :: a, List.cons_ne_nil c a, rfl, List.forall_mem_cons.mpr ⟨hc, ha⟩⟩
      next => contradiction

/-- A run that gives characters back until the rest is accepted. -/
theorem search_skip_of_fail {ok : Char → Bool} {k : Unit → List Char → Option β}
    {a b : List Char} {v : β}
    (ha : ∀ c ∈ a, ok c = true) (hk : k () b = some v)
    (hfail : ∀ x y, b = x ++ y → x ≠ [] → (∀ c ∈ x, ok c = true) → k () y = none) :
    (skip ok).search k (a ++ b) = some v := by
  rw [search_skip]
  induction a with
  | nil =>
      rw [List.nil_append, remainders_eq_cons, List.reverse_cons, List.findSome?_append]
      have hlonger : (remainders ok b).tail.reverse.findSome? (k ()) = none := by
        rw [List.findSome?_eq_none_iff]
        intro rest hrest
        obtain ⟨x, hx, hb, hok⟩ := mem_tail_remainders (List.mem_reverse.mp hrest)
        exact hfail x rest hb hx hok
      rw [hlonger, List.findSome?_singleton, hk]
      rfl
  | cons c a ih =>
      have hc := ha c List.mem_cons_self
      rw [List.cons_append, remainders, if_pos hc, List.reverse_cons,
        List.findSome?_append, ih fun d hd => ha d (List.mem_cons_of_mem c hd)]
      rfl

/-- A run that takes everything it can. -/
theorem search_skip_longest {ok : Char → Bool} {k : Unit → List Char → Option β}
    {a b : List Char} {v : β}
    (ha : ∀ c ∈ a, ok c = true) (hb : Stops ok b) (hk : k () b = some v) :
    (skip ok).search k (a ++ b) = some v := by
  refine search_skip_of_fail ha hk ?_
  intro x y hxy hx hok
  cases x with
  | nil => contradiction
  | cons c x =>
      have hc := hok c List.mem_cons_self
      rw [hb c (by rw [hxy]; rfl)] at hc
      contradiction

theorem search_skip_of_stops {ok : Char → Bool} {s : List Char} (h : Stops ok s)
    (k : Unit → List Char → Option β) : (skip ok).search k s = k () s := by
  have hremainders : remainders ok s = [s] := by
    cases s with
    | nil => rfl
    | cons c s => simp [remainders, stops_cons.mp h]
  rw [search_skip, hremainders, List.reverse_singleton, List.findSome?_singleton]

/-- A run that takes characters until the rest is accepted. -/
theorem search_skipFew_of_fail {ok : Char → Bool} {k : Unit → List Char → Option β}
    {a b : List Char} {v : β}
    (ha : ∀ c ∈ a, ok c = true) (hk : k () b = some v)
    (hfail : ∀ x y, a = x ++ y → y ≠ [] → k () (y ++ b) = none) :
    (skipFew ok).search k (a ++ b) = some v := by
  rw [search_skipFew]
  induction a with
  | nil =>
      rw [List.nil_append, remainders_eq_cons, List.findSome?_cons, hk]
  | cons c a ih =>
      have hc := ha c List.mem_cons_self
      have hlonger : k () (c :: (a ++ b)) = none := hfail [] (c :: a) rfl (by simp)
      rw [List.cons_append, remainders, if_pos hc, List.findSome?_cons, hlonger]
      refine ih (fun d hd => ha d (List.mem_cons_of_mem c hd)) ?_
      intro x y hxy hy
      exact hfail (c :: x) y (by rw [hxy]; rfl) hy

theorem search_skip1_of_fail {ok : Char → Bool} {k : Unit → List Char → Option β}
    {c : Char} {a b : List Char} {v : β} (hc : ok c = true)
    (ha : ∀ d ∈ a, ok d = true) (hk : k () b = some v)
    (hfail : ∀ x y, b = x ++ y → x ≠ [] → (∀ d ∈ x, ok d = true) → k () y = none) :
    (skip1 ok).search k (c :: (a ++ b)) = some v := by
  change (one ok).search (fun _ rest => (skip ok).search k rest) (c :: (a ++ b)) = some v
  rw [search_one_of_ok hc]
  exact search_skip_of_fail ha hk hfail

theorem search_skip1_longest {ok : Char → Bool} {k : Unit → List Char → Option β}
    {a b : List Char} {v : β} (hne : a ≠ [])
    (ha : ∀ c ∈ a, ok c = true) (hb : Stops ok b) (hk : k () b = some v) :
    (skip1 ok).search k (a ++ b) = some v := by
  cases a with
  | nil => contradiction
  | cons c a =>
      obtain ⟨hc, ha⟩ := List.forall_mem_cons.mp ha
      change (one ok).search (fun _ rest => (skip ok).search k rest) (c :: (a ++ b)) = some v
      rw [search_one_of_ok hc]
      exact search_skip_longest ha hb hk

theorem search_run1_longest {ok : Char → Bool} {k : Span → List Char → Option β}
    {a b : List Char} {v : β} (hne : a ≠ [])
    (ha : ∀ c ∈ a, ok c = true) (hb : Stops ok b) (hk : k ⟨a ++ b, b⟩ b = some v) :
    (run1 ok).search k (a ++ b) = some v :=
  search_skip1_longest (k := fun _ rest => k ⟨a ++ b, rest⟩ rest) hne ha hb hk

/-- A run of one or more characters that takes them until the rest is
accepted. -/
theorem search_runFew1_of_fail {ok : Char → Bool} {k : Span → List Char → Option β}
    {a b : List Char} {v : β} (hne : a ≠ [])
    (ha : ∀ c ∈ a, ok c = true) (hk : k ⟨a ++ b, b⟩ b = some v)
    (hfail : ∀ x y, a = x ++ y → x ≠ [] → y ≠ [] → k ⟨a ++ b, y ++ b⟩ (y ++ b) = none) :
    (runFew1 ok).search k (a ++ b) = some v := by
  cases a with
  | nil => contradiction
  | cons c a =>
      obtain ⟨hc, ha⟩ := List.forall_mem_cons.mp ha
      change (one ok).search (fun _ rest => (skipFew ok).search
        (fun _ rest => k ⟨c :: (a ++ b), rest⟩ rest) rest) (c :: (a ++ b)) = some v
      rw [search_one_of_ok hc]
      refine search_skipFew_of_fail ha hk ?_
      intro x y hxy hy
      exact hfail (c :: x) y (by rw [hxy]; rfl) (List.cons_ne_nil c x) hy

theorem search_skip1_of_stops {ok : Char → Bool} {s : List Char} (h : Stops ok s)
    (k : Unit → List Char → Option β) : (skip1 ok).search k s = none :=
  search_one_of_stops h fun _ rest => (skip ok).search k rest

theorem search_run1_of_stops {ok : Char → Bool} {s : List Char} (h : Stops ok s)
    (k : Span → List Char → Option β) : (run1 ok).search k s = none :=
  search_skip1_of_stops h fun _ rest => k ⟨s, rest⟩ rest

theorem search_gap1_cons {c : Char} {s : List Char} (hc : isBlank c = true)
    (h : Stops isBlank s) (k : Unit → List Char → Option β) : gap1.search k (c :: s) = k () s := by
  change (one isBlank).search (fun _ rest => (skip isBlank).search k rest) (c :: s) = k () s
  rw [search_one_of_ok hc, search_skip_of_stops h]

/-! ## Repetitions -/

theorem search_upTo_succ (p : Pattern α) (n : ℕ) (items : List α)
    (k : List α → List Char → Option β) (s : List Char) :
    (p.upTo (n + 1) items).search k s =
      (p.search (fun a rest => (p.upTo n (a :: items)).search k rest) s).or (k items s) := by
  rw [upTo, search_oneOf_cons, search_oneOf_cons, search_oneOf_nil, Option.or_none]
  rfl

theorem search_upTo_eq_none {p : Pattern α} {k : List α → List Char → Option β}
    {s : List Char} (hk : ∀ items, k items s = none) (n : ℕ) (items : List α)
    (hp : ∀ n found, p.search (fun a rest => (p.upTo n (a :: found)).search k rest) s = none) :
    (p.upTo n items).search k s = none := by
  cases n with
  | zero => exact hk items
  | succ n => rw [search_upTo_succ, hp, hk, Option.none_or]

section Items

variable {p : Pattern α} {write : α → List Char} (ok : List Char → Prop)
  {k : List α → List Char → Option β} {v : β} {rest : List Char}

theorem search_upTo_flatMap {items : List α}
    (hread : ∀ a ∈ items, ∀ (k : α → List Char → Option β) (t : List Char), ok t →
      k a t = some v → p.search k (write a ++ t) = some v)
    (hok : ∀ a ∈ items, ∀ t, ok (write a ++ t)) (hrest : ok rest)
    (hstop : ∀ n found, p.search (fun a t => (p.upTo n (a :: found)).search k t) rest = none)
    {n : ℕ} (hn : items.length ≤ n) {found : List α}
    (hk : k (items.reverse ++ found) rest = some v) :
    (p.upTo n found).search k (items.flatMap write ++ rest) = some v := by
  induction items generalizing n found with
  | nil =>
      cases n with
      | zero => exact hk
      | succ n =>
          rw [search_upTo_succ, List.flatMap_nil, List.nil_append, hstop, Option.none_or]
          exact hk
  | cons a items ih =>
      cases n with
      | zero => contradiction
      | succ n =>
          obtain ⟨ha, hitems⟩ := List.forall_mem_cons.mp hread
          obtain ⟨-, hokitems⟩ := List.forall_mem_cons.mp hok
          have hmore : (p.upTo n (a :: found)).search k (items.flatMap write ++ rest) =
              some v := by
            refine ih hitems hokitems (Nat.le_of_succ_le_succ hn) ?_
            rw [List.reverse_cons, List.append_assoc] at hk
            exact hk
          have hnext : ok (items.flatMap write ++ rest) := by
            cases items with
            | nil => exact hrest
            | cons b items =>
                rw [List.flatMap_cons, List.append_assoc]
                exact hokitems b List.mem_cons_self _
          rw [search_upTo_succ, List.flatMap_cons, List.append_assoc,
            ha _ _ hnext hmore, Option.some_or]

/-- A repetition reads a list that is written item by item, if nothing more can
be read behind it. -/
theorem search_many_flatMap {items : List α}
    (hread : ∀ a ∈ items, ∀ (k : α → List Char → Option β) (t : List Char), ok t →
      k a t = some v → p.search k (write a ++ t) = some v)
    (hwrite : ∀ a ∈ items, write a ≠ []) (hok : ∀ a ∈ items, ∀ t, ok (write a ++ t))
    (hrest : ok rest)
    (hstop : ∀ n found, p.search (fun a t => (p.upTo n (a :: found)).search k t) rest = none)
    (hk : k items.reverse rest = some v) :
    p.many.search k (items.flatMap write ++ rest) = some v := by
  have hlength : items.length ≤ (items.flatMap write).length := by
    clear hread hok hk
    induction items with
    | nil => exact Nat.le_refl _
    | cons a items ih =>
        obtain ⟨ha, hitems⟩ := List.forall_mem_cons.mp hwrite
        have hpos := List.length_pos_iff.mpr ha
        have hmore := ih hitems
        rw [List.flatMap_cons, List.length_append, List.length_cons]
        omega
  refine search_upTo_flatMap ok hread hok hrest hstop ?_ ?_
  · rw [List.length_append]
    omega
  · rw [List.append_nil]
    exact hk

end Items

/-! ## The list of readings -/

theorem mem_readings_bind {p : Pattern α} {f : α → Pattern γ} {s : List Char}
    {reading : γ × List Char} :
    reading ∈ (p >>= f).readings s ↔
      ∃ a rest, (a, rest) ∈ p.readings s ∧ reading ∈ (f a).readings rest := by
  change reading ∈ List.flatMap _ _ ↔ _
  simp [List.mem_flatMap]

theorem mem_readings_of_first? {p : Pattern α} {s : List Char} {reading : α × List Char}
    (h : p.first? s = some reading) : reading ∈ p.readings s := by
  rw [first?_eq_head?] at h
  exact List.mem_of_mem_head? h

theorem mem_readings_pure {a b : α} {s rest : List Char} :
    (b, rest) ∈ (pure a : Pattern α).readings s ↔ b = a ∧ rest = s := by
  change (b, rest) ∈ [(a, s)] ↔ _
  rw [List.mem_singleton, Prod.mk.injEq]

theorem mem_readings_oneOf {ps : List (Pattern α)} {s : List Char} {reading : α × List Char} :
    reading ∈ (oneOf ps).readings s ↔ ∃ p ∈ ps, reading ∈ p.readings s :=
  List.mem_flatMap

theorem mem_readings_taken {p : Pattern α} {s rest : List Char} {span : Span} :
    (span, rest) ∈ p.taken.readings s ↔
      span = ⟨s, rest⟩ ∧ ∃ a, (a, rest) ∈ p.readings s := by
  change (span, rest) ∈ (p.readings s).map (fun reading => (⟨s, reading.2⟩, reading.2)) ↔ _
  rw [List.mem_map]
  constructor
  · rintro ⟨⟨a, more⟩, hmem, heq⟩
    obtain ⟨rfl, rfl⟩ := Prod.mk.inj heq
    exact ⟨rfl, a, hmem⟩
  · rintro ⟨rfl, a, hmem⟩
    exact ⟨(a, rest), hmem, rfl⟩

theorem mem_readings_optional {p : Pattern α} {s rest : List Char} {value : Option α} :
    (value, rest) ∈ p.optional.readings s ↔
      (∃ a, value = some a ∧ (a, rest) ∈ p.readings s) ∨ value = none ∧ rest = s := by
  change (value, rest) ∈ (p.readings s).map (fun reading => (some reading.1, reading.2)) ++
    [(none, s)] ↔ _
  rw [List.mem_append, List.mem_singleton, Prod.mk.injEq, List.mem_map]
  refine or_congr_left ?_
  constructor
  · rintro ⟨⟨a, more⟩, hmem, heq⟩
    obtain ⟨rfl, rfl⟩ := Prod.mk.inj heq
    exact ⟨a, rfl, hmem⟩
  · rintro ⟨a, rfl, hmem⟩
    exact ⟨(a, rest), hmem, rfl⟩

theorem mem_readings_literal {t : String} {s rest : List Char} :
    ((), rest) ∈ (literal t).readings s ↔ s = t.toList ++ rest := by
  rw [eq_comm (b := t.toList ++ rest)]
  simp [literal, ofReading?]

theorem mem_readings_atEnd {s rest : List Char} :
    ((), rest) ∈ atEnd.readings s ↔ s = [] ∧ rest = [] := by
  cases s with
  | nil => simp [atEnd, ofReading?]
  | cons c s => simp [atEnd, ofReading?]

theorem mem_readings_one {ok : Char → Bool} {s rest : List Char} {c : Char} :
    (c, rest) ∈ (one ok).readings s ↔ s = c :: rest ∧ ok c = true := by
  cases s with
  | nil => simp [one, ofReading?]
  | cons d s =>
      have hreadings : (one ok).readings (d :: s) = if ok d then [(d, s)] else [] := by
        by_cases hd : ok d = true <;> simp [one, ofReading?, hd]
      rw [hreadings]
      grind

theorem mem_readings_char {c : Char} {s rest : List Char} :
    ((), rest) ∈ (char c).readings s ↔ s = c :: rest := by
  cases s with
  | nil => simp [char, ofReading?]
  | cons d s =>
      by_cases hd : d = c
      · simp [char, ofReading?, hd, eq_comm]
      · simp [char, ofReading?, hd]

theorem mem_readings_skip {ok : Char → Bool} {s rest : List Char} :
    ((), rest) ∈ (skip ok).readings s ↔ ∃ a, s = a ++ rest ∧ ∀ c ∈ a, ok c = true := by
  have hreading : ((), rest) ∈ (skip ok).readings s ↔ rest ∈ remainders ok s := by
    simp [skip, ofReadings]
  rw [hreading]
  clear hreading
  constructor
  · exact mem_remainders
  · rintro ⟨a, rfl, ha⟩
    induction a with
    | nil =>
        rw [List.nil_append, remainders_eq_cons]
        exact List.mem_cons_self
    | cons c a ih =>
        obtain ⟨hc, ha⟩ := List.forall_mem_cons.mp ha
        rw [List.cons_append, remainders, if_pos hc]
        exact List.mem_cons_of_mem _ (ih ha)

theorem mem_readings_skip1 {ok : Char → Bool} {s rest : List Char} :
    ((), rest) ∈ (skip1 ok).readings s ↔
      ∃ a, a ≠ [] ∧ s = a ++ rest ∧ ∀ c ∈ a, ok c = true := by
  change ((), rest) ∈ ((one ok) >>= fun _ => skip ok).readings s ↔ _
  simp only [mem_readings_bind, mem_readings_one, mem_readings_skip]
  constructor
  · rintro ⟨c, -, ⟨rfl, hc⟩, a, rfl, ha⟩
    exact ⟨c :: a, List.cons_ne_nil c a, rfl, List.forall_mem_cons.mpr ⟨hc, ha⟩⟩
  · rintro ⟨a, hne, rfl, ha⟩
    obtain ⟨c, a, rfl⟩ := List.exists_cons_of_ne_nil hne
    obtain ⟨hc, ha⟩ := List.forall_mem_cons.mp ha
    exact ⟨c, a ++ rest, ⟨rfl, hc⟩, a, rfl, ha⟩

theorem mem_readings_run1 {ok : Char → Bool} {s rest : List Char} {span : Span} :
    (span, rest) ∈ (run1 ok).readings s ↔
      ∃ a, a ≠ [] ∧ s = a ++ rest ∧ (∀ c ∈ a, ok c = true) ∧ span = ⟨s, rest⟩ := by
  rw [run1, mem_readings_taken]
  constructor
  · rintro ⟨rfl, _, hmem⟩
    obtain ⟨a, hne, hs, ha⟩ := mem_readings_skip1.mp hmem
    exact ⟨a, hne, hs, ha, rfl⟩
  · rintro ⟨a, hne, hs, ha, rfl⟩
    exact ⟨rfl, (), mem_readings_skip1.mpr ⟨a, hne, hs, ha⟩⟩

theorem mem_readings_blanks {s rest : List Char} :
    ((), rest) ∈ blanks.readings s ↔ rest = trimStart s := by
  simp [blanks, ofReading?]

theorem mem_readings_blanks1 {s rest : List Char} :
    ((), rest) ∈ blanks1.readings s ↔
      ∃ c more, s = c :: more ∧ isBlank c = true ∧ rest = trimStart more := by
  change ((), rest) ∈ ((one isBlank) >>= fun _ => blanks).readings s ↔ _
  simp only [mem_readings_bind, mem_readings_one, mem_readings_blanks, and_assoc]

theorem mem_readings_blanks_iff {s rest : List Char} :
    ((), rest) ∈ blanks.readings s ↔
      ∃ gap, (∀ c ∈ gap, isBlank c = true) ∧ s = gap ++ rest ∧ Stops isBlank rest := by
  rw [mem_readings_blanks]
  constructor
  · rintro rfl
    exact ⟨s.takeWhile isBlank, List.all_eq_true.mp List.all_takeWhile,
      List.takeWhile_append_dropWhile.symm, stops_trimStart s⟩
  · rintro ⟨gap, hgap, rfl, hstops⟩
    rw [trimStart_append_of_blank hgap, trimStart_eq_self hstops]

theorem mem_readings_blanks1_iff {s rest : List Char} :
    ((), rest) ∈ blanks1.readings s ↔
      ∃ gap, gap ≠ [] ∧ (∀ c ∈ gap, isBlank c = true) ∧ s = gap ++ rest ∧
        Stops isBlank rest := by
  rw [mem_readings_blanks1]
  constructor
  · rintro ⟨c, more, rfl, hc, hrest⟩
    obtain ⟨gap, hgap, rfl, hstops⟩ := mem_readings_blanks_iff.mp (mem_readings_blanks.mpr hrest)
    exact ⟨c :: gap, List.cons_ne_nil c gap, List.forall_mem_cons.mpr ⟨hc, hgap⟩, rfl, hstops⟩
  · rintro ⟨gap, hne, hgap, rfl, hstops⟩
    obtain ⟨c, gap, rfl⟩ := List.exists_cons_of_ne_nil hne
    obtain ⟨hc, hgap⟩ := List.forall_mem_cons.mp hgap
    refine ⟨c, gap ++ rest, rfl, hc, ?_⟩
    rw [trimStart_append_of_blank hgap, trimStart_eq_self hstops]

theorem mem_readings_keyword {choices : List String} {s rest : List Char} {word : String} :
    (word, rest) ∈ (keyword choices).readings s ↔ word ∈ choices ∧ s = word.toList ++ rest := by
  rw [keyword, mem_readings_oneOf]
  constructor
  · rintro ⟨p, hp, hmem⟩
    obtain ⟨choice, hchoice, rfl⟩ := List.mem_map.mp hp
    obtain ⟨_, s₁, hliteral, hmem⟩ := mem_readings_bind.mp hmem
    obtain ⟨rfl, rfl⟩ := mem_readings_pure.mp hmem
    exact ⟨hchoice, mem_readings_literal.mp hliteral⟩
  · rintro ⟨hword, hs⟩
    refine ⟨_, List.mem_map_of_mem hword, mem_readings_bind.mpr ?_⟩
    exact ⟨(), rest, mem_readings_literal.mpr hs, mem_readings_pure.mpr ⟨rfl, rfl⟩⟩

theorem mem_readings_skipFew {ok : Char → Bool} {s rest : List Char} :
    ((), rest) ∈ (skipFew ok).readings s ↔ ∃ a, s = a ++ rest ∧ ∀ c ∈ a, ok c = true := by
  rw [← mem_readings_skip]
  simp [skip, skipFew, ofReadings]

theorem mem_readings_skipFew1 {ok : Char → Bool} {s rest : List Char} :
    ((), rest) ∈ (skipFew1 ok).readings s ↔
      ∃ a, a ≠ [] ∧ s = a ++ rest ∧ ∀ c ∈ a, ok c = true := by
  rw [← mem_readings_skip1]
  change ((), rest) ∈ (one ok >>= fun _ => skipFew ok).readings s ↔
    ((), rest) ∈ (one ok >>= fun _ => skip ok).readings s
  simp only [mem_readings_bind, mem_readings_skip, mem_readings_skipFew]

theorem accepts_bind {p : Pattern α} {f : α → Pattern β} {s : List Char} :
    (p >>= f).accepts s = true ↔
      ∃ a rest, (a, rest) ∈ p.readings s ∧ (f a).accepts rest = true := by
  simp only [accepts_iff, ne_eq, List.eq_nil_iff_forall_not_mem, not_forall, not_not,
    mem_readings_bind]
  constructor
  · rintro ⟨reading, a, rest, hfirst, hsecond⟩
    exact ⟨a, rest, hfirst, reading, hsecond⟩
  · rintro ⟨a, rest, hfirst, reading, hsecond⟩
    exact ⟨reading, a, rest, hfirst, hsecond⟩

theorem mem_readings_upTo_succ {p : Pattern α} {n : ℕ} {found items : List α}
    {s rest : List Char} :
    (items, rest) ∈ (p.upTo (n + 1) found).readings s ↔
      (∃ a more, (a, more) ∈ p.readings s ∧
        (items, rest) ∈ (p.upTo n (a :: found)).readings more) ∨
      items = found ∧ rest = s := by
  rw [upTo, mem_readings_oneOf]
  simp only [List.mem_cons, List.not_mem_nil, or_false, exists_eq_or_imp, exists_eq_left]
  exact or_congr mem_readings_bind mem_readings_pure

theorem mem_readings_many_nil (p : Pattern α) (s : List Char) : ([], s) ∈ p.many.readings s := by
  change ([], s) ∈ (p.upTo s.length []).readings s
  cases s.length with
  | zero => exact mem_readings_pure.mpr ⟨rfl, rfl⟩
  | succ n => exact mem_readings_upTo_succ.mpr (.inr ⟨rfl, rfl⟩)

/-- A repetition reads nothing where its item cannot be read. -/
theorem eq_of_mem_readings_many {p : Pattern α} {s rest : List Char} {items : List α}
    (hp : p.readings s = []) (h : (items, rest) ∈ p.many.readings s) : rest = s := by
  change (items, rest) ∈ (p.upTo s.length []).readings s at h
  cases hlength : s.length with
  | zero =>
      rw [hlength] at h
      exact (mem_readings_pure.mp h).2
  | succ n =>
      rw [hlength] at h
      rcases mem_readings_upTo_succ.mp h with ⟨a, more, hread, -⟩ | ⟨-, hrest⟩
      · rw [hp] at hread
        contradiction
      · exact hrest

/-! ## Failing searches -/

theorem search_eq_none_iff {p : Pattern α} {k : α → List Char → Option β}
    {s : List Char} :
    p.search k s = none ↔ ∀ reading ∈ p.readings s, k reading.1 reading.2 = none := by
  rw [p.search_eq, List.findSome?_eq_none_iff]

/-- A run of one or more characters of a class fails if the rest is refused
after each of its readings. -/
theorem search_run1_eq_none {ok : Char → Bool} {k : Span → List Char → Option β}
    {s : List Char}
    (h : ∀ a b, s = a ++ b → a ≠ [] → (∀ c ∈ a, ok c = true) → k ⟨s, b⟩ b = none) :
    (run1 ok).search k s = none := by
  change (one ok).search (fun _ rest => (skip ok).search
    (fun _ rest => k ⟨s, rest⟩ rest) rest) s = none
  cases s with
  | nil => rfl
  | cons c s =>
      by_cases hc : ok c = true
      · rw [search_one_of_ok hc, search_skip, List.findSome?_eq_none_iff]
        intro rest hrest
        obtain ⟨a, rfl, ha⟩ := mem_remainders (List.mem_reverse.mp hrest)
        exact h (c :: a) rest rfl (List.cons_ne_nil c a) (List.forall_mem_cons.mpr ⟨hc, ha⟩)
      · exact search_one_of_stops (stops_cons.mpr (by simpa using hc)) _

/-- Every reading takes characters of a class off the front of the text. -/
def Takes (p : Pattern α) (ok : Char → Bool) : Prop :=
  ∀ s, ∀ reading ∈ p.readings s, ∃ a, s = a ++ reading.2 ∧ ∀ c ∈ a, ok c = true

namespace Takes

variable {ok : Char → Bool}

theorem search_eq_none {p : Pattern α} (h : p.Takes ok)
    {k : α → List Char → Option β} {s : List Char}
    (hk : ∀ value a rest, s = a ++ rest → (∀ c ∈ a, ok c = true) → k value rest = none) :
    p.search k s = none := by
  rw [search_eq_none_iff]
  intro reading hreading
  obtain ⟨a, hs, ha⟩ := h s reading hreading
  exact hk reading.1 a reading.2 hs ha

/-- Every reading leaves a suffix of the text. -/
theorem search_eq_none_of_suffix {p : Pattern α} (h : p.Takes ok)
    {k : α → List Char → Option β} {s : List Char}
    (hk : ∀ value rest, rest <:+ s → k value rest = none) : p.search k s = none := by
  apply h.search_eq_none
  intro value a rest hs _
  exact hk value rest ⟨a, hs.symm⟩

/-- A pattern that takes nothing of a kind stays in front of the first character
of that kind. -/
theorem search_eq_none_of_stop {p : Pattern α} (h : p.Takes ok)
    {k : α → List Char → Option β} {s : List Char} {d : Char} {t : List Char}
    (hd : ok d = false)
    (hk : ∀ value rest, rest <:+ s → k value (rest ++ d :: t) = none) :
    p.search k (s ++ d :: t) = none := by
  apply h.search_eq_none
  intro value a rest hs ha
  have hnot : d ∉ a := by
    intro hmem
    rw [ha d hmem] at hd
    contradiction
  obtain ⟨z, rfl, rfl⟩ := exists_of_append_eq_append_cons hnot hs.symm
  exact hk value z (List.suffix_append a z)

theorem ofReading? {read : List Char → Option (α × List Char)}
    (h : ∀ s value rest, read s = some (value, rest) →
      ∃ a, s = a ++ rest ∧ ∀ c ∈ a, ok c = true) :
    (Pattern.ofReading? read).Takes ok := by
  intro s reading hreading
  exact h s reading.1 reading.2 (Option.mem_toList.mp hreading)

theorem bind {p : Pattern α} {f : α → Pattern β} (hp : p.Takes ok)
    (hf : ∀ value, (f value).Takes ok) : (p >>= f).Takes ok := by
  intro s reading hreading
  obtain ⟨first, hfirst, hsecond⟩ := List.mem_flatMap.mp hreading
  obtain ⟨a, hs, ha⟩ := hp s first hfirst
  obtain ⟨b, hrest, hb⟩ := hf first.1 first.2 reading hsecond
  refine ⟨a ++ b, ?_, List.forall_mem_append.mpr ⟨ha, hb⟩⟩
  rw [hs, hrest, List.append_assoc]

/-- In a sequence the second part is read off a suffix of the text. -/
theorem exists_suffix_of_mem_bind {p : Pattern α} (h : p.Takes ok) {f : α → Pattern β}
    {s : List Char} {reading : β × List Char} (hreading : reading ∈ (p >>= f).readings s) :
    ∃ value rest, rest <:+ s ∧ reading ∈ (f value).readings rest := by
  obtain ⟨value, rest, hfirst, hsecond⟩ := mem_readings_bind.mp hreading
  obtain ⟨a, hs, -⟩ := h s _ hfirst
  exact ⟨value, rest, ⟨a, hs.symm⟩, hsecond⟩

theorem pure (value : α) : (Pure.pure value : Pattern α).Takes ok :=
  ofReading? fun s other rest h => by
    obtain ⟨-, rfl⟩ := Prod.mk.inj (Option.some.inj h)
    exact ⟨[], by simp⟩

theorem oneOf {ps : List (Pattern α)} (h : ∀ p ∈ ps, p.Takes ok) :
    (Pattern.oneOf ps).Takes ok := by
  intro s reading hreading
  obtain ⟨p, hp, hmem⟩ := List.mem_flatMap.mp hreading
  exact h p hp s reading hmem

theorem optional {p : Pattern α} (h : p.Takes ok) : p.optional.Takes ok := by
  intro s reading hreading
  rcases List.mem_append.mp hreading with hread | hnone
  · obtain ⟨first, hfirst, rfl⟩ := List.mem_map.mp hread
    exact h s first hfirst
  · obtain rfl := List.mem_singleton.mp hnone
    exact ⟨[], by simp⟩

theorem upTo {p : Pattern α} (h : p.Takes ok) (n : ℕ) (items : List α) :
    (p.upTo n items).Takes ok := by
  induction n generalizing items with
  | zero => exact Takes.pure items
  | succ n ih =>
      refine oneOf ?_
      rintro q hq
      rcases List.mem_cons.mp hq with rfl | hq
      · exact h.bind fun a => ih (a :: items)
      · rw [List.mem_singleton.mp hq]
        exact Takes.pure items

theorem many {p : Pattern α} (h : p.Takes ok) : p.many.Takes ok := by
  intro s reading hreading
  exact h.upTo s.length [] s reading hreading

theorem taken {p : Pattern α} (h : p.Takes ok) : p.taken.Takes ok := by
  intro s reading hreading
  obtain ⟨first, hfirst, rfl⟩ := List.mem_map.mp hreading
  exact h s first hfirst

theorem one {kind : Char → Bool} (h : ∀ c, kind c = true → ok c = true) :
    (Pattern.one kind).Takes ok :=
  ofReading? fun s c rest hread => by
    cases s with
    | nil => contradiction
    | cons d s =>
        dsimp only at hread
        split at hread
        next hd =>
          cases hread
          exact ⟨[c], rfl, by simpa using h c hd⟩
        next => contradiction

theorem char {c : Char} (h : ok c = true) : (Pattern.char c).Takes ok :=
  ofReading? fun s value rest hread => by
    cases s with
    | nil => contradiction
    | cons d s =>
        dsimp only at hread
        split at hread
        next hd =>
          cases hread
          exact ⟨[d], rfl, by simpa [hd] using h⟩
        next => contradiction

theorem blanks (h : ∀ c, isBlank c = true → ok c = true) : Pattern.blanks.Takes ok :=
  ofReading? fun s value rest hread => by
    cases hread
    refine ⟨s.takeWhile isBlank, (List.takeWhile_append_dropWhile).symm, ?_⟩
    intro c hc
    exact h c (List.mem_takeWhile_imp hc)

theorem literal {t : String} (h : ∀ c ∈ t.toList, ok c = true) : (Pattern.literal t).Takes ok :=
  ofReading? fun s value rest hread => by
    obtain ⟨more, hdrop, heq⟩ := Option.map_eq_some_iff.mp hread
    cases heq
    exact ⟨t.toList, (List.isPrefixOf?_eq_some_iff_append_eq.mp hdrop).symm, h⟩

theorem keyword {choices : List String}
    (h : ∀ word ∈ choices, ∀ c ∈ word.toList, ok c = true) :
    (Pattern.keyword choices).Takes ok := by
  refine oneOf (List.forall_mem_map.mpr fun word hword => ?_)
  exact (literal (h word hword)).bind fun _ => Takes.pure word

theorem blanks1 (h : ∀ c, isBlank c = true → ok c = true) : Pattern.blanks1.Takes ok :=
  (one h).bind fun _ => blanks h

section Runs

variable {kind : Char → Bool} (h : ∀ c, kind c = true → ok c = true)
include h

theorem skip : (Pattern.skip kind).Takes ok := by
  intro s reading hreading
  obtain ⟨rest, hrest, rfl⟩ := List.mem_map.mp hreading
  obtain ⟨a, rfl, ha⟩ := mem_remainders (List.mem_reverse.mp hrest)
  exact ⟨a, rfl, fun c hc => h c (ha c hc)⟩

theorem skipFew : (Pattern.skipFew kind).Takes ok := by
  intro s reading hreading
  obtain ⟨rest, hrest, rfl⟩ := List.mem_map.mp hreading
  obtain ⟨a, rfl, ha⟩ := mem_remainders hrest
  exact ⟨a, rfl, fun c hc => h c (ha c hc)⟩

theorem skip1 : (Pattern.skip1 kind).Takes ok :=
  (one h).bind fun _ => skip h

theorem run1 : (Pattern.run1 kind).Takes ok :=
  (skip1 h).taken

theorem runFew1 : (Pattern.runFew1 kind).Takes ok :=
  Takes.taken ((one h).bind fun _ => skipFew h)

end Runs

end Takes

end ClassAtlas.Text.Pattern
