import Mathlib.Data.List.Infix
import ClassAtlas.Source.Block
import ClassAtlas.Proofs.Source.Scanning

/-!
# Depth in code

Blocks are counted in code only: a character that opens one adds one to the
depth, a character that closes one takes one away. The search for the end of a
block counts from its own opening character and stops where the count returns to
zero. A projection counts from the start of a body and never falls below zero, so
a closing brace too many leaves it at depth zero.
-/

namespace ClassAtlas.Source

/-! ## Balance -/

/-- What a character does to the number of open blocks. -/
def codeStep (opening closing : Char) (zone : Zone) (c : Char) : ℤ :=
  if zone.isCode c && c == opening then 1
  else if zone.isCode c && c == closing then -1
  else 0

/-- How many more blocks a text opens than it closes, read from a zone on. -/
def balance (opening closing : Char) : Zone → List Char → ℤ
  | _, [] => 0
  | zone, c :: rest =>
    codeStep opening closing zone c + balance opening closing (zone.next c) rest

/-- Read at a depth, a text never closes more blocks than are open. -/
def StaysOpen (opening closing : Char) (zone : Zone) (depth : ℕ) (s : List Char) : Prop :=
  ∀ start, start <+: s → 0 ≤ depth + balance opening closing zone start

/-- The inside of a block: its literals are closed, and so are the blocks that it
opens and no others. -/
structure Nested (opening closing : Char) (s : List Char) : Prop where
  outside : (Zone.code.after s).inLiteral = false
  staysOpen : StaysOpen opening closing .code 0 s
  closed : balance opening closing .code s = 0

instance (opening closing : Char) (zone : Zone) (depth : ℕ) (s : List Char) :
    Decidable (StaysOpen opening closing zone depth s) :=
  decidable_of_iff (∀ start ∈ s.inits, 0 ≤ depth + balance opening closing zone start)
    (forall_congr' fun start => by rw [List.mem_inits])

instance (opening closing : Char) (s : List Char) : Decidable (Nested opening closing s) :=
  decidable_of_iff ((Zone.code.after s).inLiteral = false ∧
      StaysOpen opening closing .code 0 s ∧ balance opening closing .code s = 0)
    ⟨fun h => ⟨h.1, h.2.1, h.2.2⟩, fun h => ⟨h.outside, h.staysOpen, h.closed⟩⟩

section Matching

variable {opening closing : Char} {zone : Zone} {depth depth' : ℕ} {c : Char}
  {s inside rest : List Char}

theorem codeStep_cases (opening closing : Char) (zone : Zone) (c : Char) :
    (zone.isCode c = true ∧ c = opening ∧ codeStep opening closing zone c = 1) ∨
      (zone.isCode c = true ∧ c = closing ∧ codeStep opening closing zone c = -1) ∨
      ((zone.isCode c && c == opening) = false ∧ (zone.isCode c && c == closing) = false ∧
        codeStep opening closing zone c = 0) := by
  unfold codeStep
  by_cases hopen : (zone.isCode c && c == opening) = true
  · rw [if_pos hopen]
    rw [Bool.and_eq_true, beq_iff_eq] at hopen
    exact Or.inl ⟨hopen.1, hopen.2, rfl⟩
  rw [if_neg hopen]
  by_cases hclose : (zone.isCode c && c == closing) = true
  · rw [if_pos hclose]
    rw [Bool.and_eq_true, beq_iff_eq] at hclose
    exact Or.inr (Or.inl ⟨hclose.1, hclose.2, rfl⟩)
  rw [if_neg hclose]
  exact Or.inr (Or.inr ⟨by simpa using hopen, by simpa using hclose, rfl⟩)

theorem codeStep_opening (h : zone.isCode opening = true) :
    codeStep opening closing zone opening = 1 := by
  simp [codeStep, h]

theorem codeStep_closing (hne : opening ≠ closing) (h : zone.isCode closing = true) :
    codeStep opening closing zone closing = -1 := by
  simp [codeStep, h, hne.symm]

theorem balance_append (opening closing : Char) (zone : Zone) (s t : List Char) :
    balance opening closing zone (s ++ t) =
      balance opening closing zone s + balance opening closing (zone.after s) t := by
  induction s generalizing zone with
  | nil => exact (Int.zero_add _).symm
  | cons c s ih => rw [List.cons_append, balance, balance, ih, Zone.after_cons, Int.add_assoc]

theorem staysOpen_nil : StaysOpen opening closing zone depth [] := by
  intro start hstart
  rw [List.prefix_nil.mp hstart, balance]
  omega

theorem staysOpen_cons :
    StaysOpen opening closing zone depth (c :: s) ↔
      ∃ depth' : ℕ, depth + codeStep opening closing zone c = depth' ∧
        StaysOpen opening closing (zone.next c) depth' s := by
  constructor
  · intro h
    have hfirst := h [c] ⟨s, rfl⟩
    rw [balance, balance, Int.add_zero] at hfirst
    obtain ⟨depth', hdepth⟩ := Int.eq_ofNat_of_zero_le hfirst
    refine ⟨depth', hdepth, fun start hstart => ?_⟩
    have hrest := h (c :: start) (List.cons_prefix_cons.mpr ⟨rfl, hstart⟩)
    rw [balance] at hrest
    omega
  · rintro ⟨depth', hdepth, h⟩ start hstart
    rcases List.prefix_cons_iff.mp hstart with rfl | ⟨more, rfl, hmore⟩
    · rw [balance]
      omega
    · have hrest := h more hmore
      rw [balance]
      omega

theorem StaysOpen.mono (h : StaysOpen opening closing zone depth s) (hdepth : depth ≤ depth') :
    StaysOpen opening closing zone depth' s := by
  intro start hstart
  have := h start hstart
  omega

/-! ## The end of a block -/

theorem closingFrom_cons (hne : opening ≠ closing)
    (h : depth + codeStep opening closing zone c = depth') (rest : List Char) :
    closingFrom opening closing zone depth (c :: rest) =
      (closingFrom opening closing (zone.next c) depth' rest).map (· + 1) := by
  rw [closingFrom.eq_def]
  dsimp only
  rcases codeStep_cases opening closing zone c with
    ⟨hcode, rfl, hstep⟩ | ⟨hcode, rfl, hstep⟩ | ⟨hopen, hclose, hstep⟩
  · obtain rfl : depth + 1 = depth' := by omega
    simp [hcode, hne]
  · cases depth with
    | zero => omega
    | succ outer =>
        obtain rfl : outer = depth' := by omega
        simp [hcode]
  · obtain rfl : depth = depth' := by omega
    rw [hopen, hclose]
    rfl

theorem closingFrom_closing (h : zone.isCode closing = true) (rest : List Char) :
    closingFrom opening closing zone 0 (closing :: rest) = some 0 := by
  rw [closingFrom.eq_def]
  simp [h]

/-- A text that closes no block it did not open is passed over. -/
theorem closingFrom_append (hne : opening ≠ closing)
    (hopen : StaysOpen opening closing zone depth s)
    (h : depth + balance opening closing zone s = depth') (t : List Char) :
    closingFrom opening closing zone depth (s ++ t) =
      (closingFrom opening closing (zone.after s) depth' t).map (· + s.length) := by
  induction s generalizing zone depth with
  | nil =>
      obtain rfl : depth = depth' := by
        rw [balance] at h
        omega
      simp
  | cons c s ih =>
      obtain ⟨inner, hinner, hrest⟩ := staysOpen_cons.mp hopen
      rw [balance] at h
      rw [List.cons_append, closingFrom_cons hne hinner, ih hrest (by omega), Option.map_map,
        Zone.after_cons]
      rfl

/-- Either a text closes no block it did not open, or there is a first character
that does. -/
theorem staysOpen_or_exists_closing (opening closing : Char) (zone : Zone) (depth : ℕ)
    (s : List Char) :
    StaysOpen opening closing zone depth s ∨
      ∃ inside rest, s = inside ++ closing :: rest ∧
        (zone.after inside).isCode closing = true ∧
        StaysOpen opening closing zone depth inside ∧
        depth + balance opening closing zone inside = 0 := by
  induction s generalizing zone depth with
  | nil => exact Or.inl staysOpen_nil
  | cons c s ih =>
      by_cases hstep : 0 ≤ depth + codeStep opening closing zone c
      · obtain ⟨depth', hdepth⟩ := Int.eq_ofNat_of_zero_le hstep
        rcases ih (zone.next c) depth' with hopen | ⟨inside, rest, rfl, hcode, hopen, hclosed⟩
        · exact Or.inl (staysOpen_cons.mpr ⟨depth', hdepth, hopen⟩)
        · refine Or.inr ⟨c :: inside, rest, rfl, hcode, ?_, ?_⟩
          · exact staysOpen_cons.mpr ⟨depth', hdepth, hopen⟩
          · rw [balance]
            omega
      · right
        rcases codeStep_cases opening closing zone c with
          ⟨-, -, hopen⟩ | ⟨hcode, rfl, hclose⟩ | ⟨-, -, hother⟩
        · omega
        · refine ⟨[], s, rfl, hcode, staysOpen_nil, ?_⟩
          rw [balance]
          omega
        · omega

theorem closingFrom_of_staysOpen (hne : opening ≠ closing)
    (hopen : StaysOpen opening closing zone depth inside)
    (hclosed : depth + balance opening closing zone inside = 0)
    (hcode : (zone.after inside).isCode closing = true) (rest : List Char) :
    closingFrom opening closing zone depth (inside ++ closing :: rest) = some inside.length := by
  have hpassed : closingFrom opening closing zone depth (inside ++ closing :: rest) =
      (closingFrom opening closing (zone.after inside) 0 (closing :: rest)).map
        (· + inside.length) :=
    closingFrom_append hne hopen hclosed (closing :: rest)
  rw [hpassed, closingFrom_closing hcode, Option.map_some, Nat.zero_add]

theorem closingFrom_eq_none_iff (hne : opening ≠ closing) :
    closingFrom opening closing zone depth s = none ↔
      StaysOpen opening closing zone depth s := by
  constructor
  · intro h
    rcases staysOpen_or_exists_closing opening closing zone depth s with
      hopen | ⟨inside, rest, rfl, hcode, hopen, hclosed⟩
    · exact hopen
    · rw [closingFrom_of_staysOpen hne hopen hclosed hcode] at h
      contradiction
  · intro h
    obtain ⟨depth', hdepth⟩ := Int.eq_ofNat_of_zero_le (h s (List.prefix_refl s))
    have hpassed := closingFrom_append hne h hdepth []
    rw [List.append_nil] at hpassed
    rw [hpassed, closingFrom, Option.map_none]

/-- A block is found exactly where its inside is nested. -/
theorem splitBlock?_eq_some_iff (hne : opening ≠ closing)
    (hclosing : Zone.isQuote closing = false) :
    splitBlock? opening closing s = some (inside, rest) ↔
      s = opening :: (inside ++ closing :: rest) ∧ Nested opening closing inside := by
  have hfrom : ∀ {inside : List Char}, Nested opening closing inside → ∀ rest,
      closingFrom opening closing .code 0 (inside ++ closing :: rest) = some inside.length := by
    intro inside h rest
    refine closingFrom_of_staysOpen hne h.staysOpen ?_ (Zone.isCode_iff.mpr ⟨h.outside, hclosing⟩)
      rest
    rw [h.closed]
    rfl
  constructor
  · intro h
    cases s with
    | nil => contradiction
    | cons c s =>
        rw [splitBlock?] at h
        split_ifs at h with hc
        subst hc
        rcases staysOpen_or_exists_closing c closing .code 0 s with
          hopen | ⟨inside', rest', rfl, hcode, hopen, hclosed⟩
        · rw [(closingFrom_eq_none_iff hne).mpr hopen] at h
          contradiction
        · have hnested : Nested c closing inside' :=
            ⟨(Zone.isCode_iff.mp hcode).1, hopen, by simpa using hclosed⟩
          rw [hfrom hnested] at h
          simp only [Option.map_some, List.take_left, Option.some.injEq, Prod.mk.injEq] at h
          obtain ⟨rfl, hrest⟩ := h
          rw [← List.drop_drop, List.drop_left] at hrest
          obtain rfl : rest' = rest := hrest
          exact ⟨rfl, hnested⟩
  · rintro ⟨rfl, h⟩
    rw [splitBlock?, if_pos rfl, hfrom h, Option.map_some, List.take_left, ← List.drop_drop,
      List.drop_left]
    rfl

theorem splitBlock?_eq_none_iff (hne : opening ≠ closing) :
    splitBlock? opening closing (opening :: s) = none ↔ StaysOpen opening closing .code 0 s := by
  rw [splitBlock?, if_pos rfl, Option.map_eq_none_iff, closingFrom_eq_none_iff hne]

end Matching

/-! ## The depth of a projection -/

/-- The depth of a projection behind a character. -/
def depthStep (zone : Zone) (depth : ℕ) (c : Char) : ℕ :=
  (depth + codeStep '{' '}' zone c).toNat

/-- The depth of a projection behind a whole text. -/
def depthAfter : Zone → ℕ → List Char → ℕ
  | _, depth, [] => depth
  | zone, depth, c :: rest => depthAfter (zone.next c) (depthStep zone depth c) rest

/-- The zone of a projection: inner blocks are left out, so that the projection
stands in code while the scan is inside of one. -/
def Zone.outside (zone : Zone) (depth : ℕ) : Zone :=
  if depth = 0 then zone else code

section Projecting

variable {zone : Zone} {depth depth' : ℕ} {c : Char} {s : List Char}

theorem depthAfter_append (zone : Zone) (depth : ℕ) (s t : List Char) :
    depthAfter zone depth (s ++ t) = depthAfter (zone.after s) (depthAfter zone depth s) t := by
  induction s generalizing zone depth with
  | nil => rfl
  | cons c s ih => exact ih (zone.next c) (depthStep zone depth c)

/-- A character is projected if it stands at depth zero or takes the scan
there. -/
theorem projectFrom_cons (zone : Zone) (depth : ℕ) (c : Char) (rest : List Char) :
    projectFrom zone depth (c :: rest) =
      (if depth = 0 ∨ depthStep zone depth c = 0 then [c] else []) ++
        projectFrom (zone.next c) (depthStep zone depth c) rest := by
  rw [projectFrom, depthStep]
  rcases codeStep_cases '{' '}' zone c with
    ⟨hcode, rfl, hstep⟩ | ⟨hcode, rfl, hstep⟩ | ⟨hopen, hclose, hstep⟩
  · have hdepth : (depth + codeStep '{' '}' zone '{').toNat = depth + 1 := by omega
    simp [hcode, hdepth]
  · have hdepth : (depth + codeStep '{' '}' zone '}').toNat = depth - 1 := by omega
    have hkept : (depth = 0 ∨ depth - 1 = 0) ↔ depth ≤ 1 := by omega
    simp [hcode, hdepth, hkept]
  · have hdepth : (depth + codeStep '{' '}' zone c).toNat = depth := by omega
    simp [hopen, hclose, hdepth]

theorem projectFrom_append (zone : Zone) (depth : ℕ) (s t : List Char) :
    projectFrom zone depth (s ++ t) =
      projectFrom zone depth s ++ projectFrom (zone.after s) (depthAfter zone depth s) t := by
  induction s generalizing zone depth with
  | nil => rfl
  | cons c s ih =>
      rw [List.cons_append, projectFrom_cons, projectFrom_cons, ih, List.append_assoc]
      rfl

/-- Where no block is closed that was not open, the depth follows the balance. -/
theorem depthAfter_of_staysOpen (h : StaysOpen '{' '}' zone depth s) :
    (depthAfter zone depth s : ℤ) = depth + balance '{' '}' zone s := by
  induction s generalizing zone depth with
  | nil => rw [depthAfter, balance, Int.add_zero]
  | cons c s ih =>
      obtain ⟨depth', hdepth, hrest⟩ := staysOpen_cons.mp h
      have hstep : depthStep zone depth c = depth' := by
        rw [depthStep, hdepth]
        rfl
      rw [depthAfter, hstep, ih hrest, balance]
      omega

/-- Inside a block nothing is projected. -/
theorem projectFrom_inside (h : StaysOpen '{' '}' zone depth s) :
    projectFrom zone (depth + 1) s = [] := by
  induction s generalizing zone depth with
  | nil => rfl
  | cons c s ih =>
      obtain ⟨depth', hdepth, hrest⟩ := staysOpen_cons.mp h
      have hstep : depthStep zone (depth + 1) c = depth' + 1 := by
        unfold depthStep
        omega
      rw [projectFrom_cons, hstep, if_neg (by omega), ih hrest]
      rfl

/-- A projected character takes the projection where it takes the scan, at depth
zero or one. -/
theorem outside_step (h : depth = 0 ∨ depthStep zone depth c = 0) :
    (zone.outside depth).next c = (zone.next c).outside (depthStep zone depth c) ∧
      depthStep (zone.outside depth) (min depth 1) c = min (depthStep zone depth c) 1 := by
  by_cases hdepth : depth = 0
  · subst hdepth
    by_cases hzero : depthStep zone 0 c = 0
    · rw [hzero]
      exact ⟨rfl, hzero⟩
    -- only an opening brace leaves depth zero
    rw [depthStep] at hzero
    rcases codeStep_cases '{' '}' zone c with
      ⟨hcode, -, hstep⟩ | ⟨-, -, hstep⟩ | ⟨-, -, hstep⟩
    · have hone : depthStep zone 0 c = 1 := by simp [depthStep, hstep]
      rw [hone, Zone.outside, Zone.outside, if_pos rfl, if_neg Nat.one_ne_zero]
      exact ⟨Zone.next_of_isCode hcode, hone⟩
    · omega
    · omega
  · -- only a closing brace takes the scan from one block back to depth zero
    have hzero := h.resolve_left hdepth
    rw [depthStep] at hzero
    rcases codeStep_cases '{' '}' zone c with
      ⟨-, -, hstep⟩ | ⟨hcode, rfl, hstep⟩ | ⟨-, -, hstep⟩
    · omega
    · obtain rfl : depth = 1 := by omega
      rw [depthStep, hzero, Zone.outside, Zone.outside, if_neg Nat.one_ne_zero, if_pos rfl,
        Zone.next_of_isCode hcode]
      decide
    · omega

/-- A character that is not projected leaves the projection where it stands. -/
theorem outside_inner_step (h : ¬(depth = 0 ∨ depthStep zone depth c = 0)) :
    (zone.next c).outside (depthStep zone depth c) = zone.outside depth ∧
      min (depthStep zone depth c) 1 = min depth 1 := by
  rw [not_or] at h
  rw [Zone.outside, Zone.outside, if_neg h.1, if_neg h.2]
  exact ⟨rfl, by omega⟩

/-- A scan of a projection stands where the projection stands. -/
theorem after_projectFrom (zone : Zone) (depth : ℕ) (s : List Char) :
    (zone.outside depth).after (projectFrom zone depth s) =
      (zone.after s).outside (depthAfter zone depth s) := by
  induction s generalizing zone depth with
  | nil => rfl
  | cons c s ih =>
      rw [projectFrom_cons, Zone.after_append, Zone.after_cons, depthAfter, ← ih]
      by_cases hkept : depth = 0 ∨ depthStep zone depth c = 0
      · rw [if_pos hkept, ← (outside_step hkept).1]
        rfl
      · rw [if_neg hkept, (outside_inner_step hkept).1]
        rfl

/-- A block is projected to its braces, and at depth zero only. -/
theorem projectFrom_block (hzone : zone.inLiteral = false) (hs : Nested '{' '}' s)
    (rest : List Char) :
    projectFrom zone depth ('{' :: (s ++ '}' :: rest)) =
      (if depth = 0 then ['{', '}'] else []) ++ projectFrom .code depth rest := by
  have hopening : zone.isCode '{' = true := Zone.isCode_iff.mpr ⟨hzone, by decide⟩
  have hclosing : (Zone.code.after s).isCode '}' = true :=
    Zone.isCode_iff.mpr ⟨hs.outside, by decide⟩
  have hinner : depthStep zone depth '{' = depth + 1 := by
    rw [depthStep, codeStep_opening hopening]
    rfl
  have hopen : StaysOpen '{' '}' .code (depth + 1) s := hs.staysOpen.mono (Nat.zero_le _)
  have hafter : depthAfter .code (depth + 1) s = depth + 1 := by
    have hdepth := depthAfter_of_staysOpen hopen
    rw [hs.closed] at hdepth
    omega
  have houter : depthStep (Zone.code.after s) (depth + 1) '}' = depth := by
    rw [depthStep, codeStep_closing (by decide) hclosing]
    omega
  rw [projectFrom_cons, hinner, Zone.next_of_isCode hopening, projectFrom_append,
    projectFrom_inside (hs.staysOpen.mono (Nat.zero_le depth)), hafter, projectFrom_cons, houter,
    Zone.next_of_isCode hclosing]
  by_cases hdepth : depth = 0
  · simp [hdepth]
  · simp [hdepth]

end Projecting

end ClassAtlas.Source
