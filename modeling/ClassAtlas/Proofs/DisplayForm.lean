import Mathlib.Tactic.MkIffOfInductiveProp
import ClassAtlas.Proofs.TopLevelSplitting

/-!
# Declared types in display form

A declared type in display form is what displaying it gives. Such a text is
trimmed and has no blank but the space. If its angle and square brackets are
balanced and its commas stand inside angle brackets, then splitting at the
commas outside brackets never cuts it, so a list of such texts with commas
between them splits into the same texts again.
-/

namespace ClassAtlas.TypeText

open ClassAtlas.Text

/-! ## The characters of a displayed text -/

/-- The only blank of a display is the space. -/
def IsShown (c : Char) : Prop :=
  c = ' ' ∨ isBlank c = false

theorem isShown_of_mem_collapse {s : List Char} {c : Char} (h : c ∈ collapse s) :
    IsShown c := by
  fun_induction collapse s with
  | case1 => contradiction
  | case2 d hd => exact Or.inl (List.mem_singleton.mp h)
  | case3 d hd =>
      rw [List.mem_singleton.mp h]
      exact Or.inr (by simpa using hd)
  | case4 d e rest hd he ih => exact ih h
  | case5 d e rest hd he ih =>
      rcases List.mem_cons.mp h with rfl | hmem
      · exact Or.inl rfl
      · exact ih hmem
  | case6 d e rest hd ih =>
      rcases List.mem_cons.mp h with rfl | hmem
      · exact Or.inr (by simpa using hd)
      · exact ih hmem

theorem isShown_of_mem_displayStep {shown : List Char} {c d : Char}
    (hshown : ∀ e ∈ shown, IsShown e) (hc : IsShown c) (h : d ∈ displayStep shown c) :
    IsShown d := by
  have hdrop : ∀ e ∈ shown.dropWhile (· == ' '), IsShown e := fun e he =>
    hshown e ((List.dropWhile_sublist _).mem he)
  unfold displayStep at h
  split at h
  · rcases List.mem_cons.mp h with rfl | hmem
    · exact hc
    · exact hdrop d hmem
  · split at h
    · rcases List.mem_cons.mp h with rfl | hmem
      · exact Or.inl rfl
      · rcases List.mem_cons.mp hmem with rfl | hmem
        · exact Or.inr (by decide)
        · exact hdrop d hmem
    · split at h
      · split at h
        · split at h
          · exact hshown d h
          · rcases List.mem_cons.mp h with rfl | hmem
            · exact Or.inl rfl
            · exact hshown d hmem
        · exact Or.inl (List.mem_singleton.mp h)
      · rcases List.mem_cons.mp h with rfl | hmem
        · exact hc
        · exact hshown d hmem

theorem isShown_of_mem_display {s : List Char} {c : Char} (h : c ∈ display s) :
    IsShown c := by
  have hfold : ∀ d ∈ (collapse (trim s)).foldl displayStep [], IsShown d := by
    refine List.foldlRecOn (motive := fun shown => ∀ d ∈ shown, IsShown d)
      (collapse (trim s)) displayStep (by simp) ?_
    intro shown hshown e he d hd
    exact isShown_of_mem_displayStep hshown (isShown_of_mem_collapse he) hd
  refine hfold c (List.mem_reverse.mp ?_)
  rw [display, trim, trimEnd] at h
  have hmem := (List.dropWhile_sublist isBlank).mem (List.mem_reverse.mp h)
  exact (List.dropWhile_sublist isBlank).mem (List.mem_reverse.mp hmem)

theorem trimmed_display (s : List Char) : Trimmed (display s) :=
  trimmed_trim _

theorem display_append_of_blank {a s : List Char} (ha : ∀ c ∈ a, isBlank c = true) :
    display (a ++ s) = display s := by
  rw [display, display, trim_blank_append ha]

/-! ## Array marks -/

/-- Array and varargs marks are only found at the end of a text. -/
theorem dropMarks_cons {c : Char} (hdot : c ≠ '.') (hsquare : c ≠ ']') (s : List Char) :
    dropMarks (c :: s) = c :: s := by
  rw [dropMarks]
  · rintro rest ⟨⟩
    exact hdot rfl
  · rintro rest ⟨⟩
    exact hsquare rfl

/-! ## Balanced texts -/

/-- Brackets of one kind close in order, with `depth` of them open at the
start. -/
def isBalanced (opening closing : Char) : ℕ → List Char → Bool
  | depth, [] => depth == 0
  | depth, c :: rest =>
    if c = opening then isBalanced opening closing (depth + 1) rest
    else if c = closing then depth != 0 && isBalanced opening closing (depth - 1) rest
    else isBalanced opening closing depth rest

theorem isBalanced_append {opening closing : Char} {a b : List Char} {depth outer : ℕ}
    (ha : isBalanced opening closing depth a = true)
    (hb : isBalanced opening closing outer b = true) :
    isBalanced opening closing (depth + outer) (a ++ b) = true := by
  fun_induction isBalanced opening closing depth a with
  | case1 depth =>
      rw [beq_iff_eq] at ha
      rwa [ha, Nat.zero_add, List.nil_append]
  | case2 depth rest ih =>
      rw [List.cons_append, isBalanced, if_pos rfl, Nat.add_right_comm]
      exact ih ha
  | case3 depth rest hne ih =>
      rw [Bool.and_eq_true, bne_iff_ne] at ha
      have hdepth : depth - 1 + outer = depth + outer - 1 := by omega
      rw [List.cons_append, isBalanced, if_neg hne, if_pos rfl, Bool.and_eq_true, bne_iff_ne,
        ← hdepth]
      exact ⟨by omega, ih ha.2⟩
  | case4 depth c rest hopen hclose ih =>
      rw [List.cons_append, isBalanced, if_neg hopen, if_neg hclose]
      exact ih ha

theorem isBalanced_append_of_notMem {opening closing : Char} {a : List Char}
    (hopen : opening ∉ a) (hclose : closing ∉ a) (depth : ℕ) (b : List Char) :
    isBalanced opening closing depth (a ++ b) = isBalanced opening closing depth b := by
  induction a with
  | nil => rfl
  | cons c a ih =>
      obtain ⟨hc, hopen⟩ := not_or.mp (List.mem_cons.not.mp hopen)
      obtain ⟨hc', hclose⟩ := not_or.mp (List.mem_cons.not.mp hclose)
      rw [List.cons_append, isBalanced, if_neg (Ne.symm hc), if_neg (Ne.symm hc'),
        ih hopen hclose]

theorem isBalanced_of_notMem {opening closing : Char} {s : List Char} (hopen : opening ∉ s)
    (hclose : closing ∉ s) : isBalanced opening closing 0 s = true := by
  rw [← List.append_nil s, isBalanced_append_of_notMem hopen hclose]
  rfl

/-- Commas stand inside angle brackets only, with `depth` of them open at the
start. -/
def commasInside : ℕ → List Char → Bool
  | _, [] => true
  | depth, c :: rest =>
    if c = '<' then commasInside (depth + 1) rest
    else if c = '>' then commasInside (depth - 1) rest
    else (c != ',' || depth != 0) && commasInside depth rest

/-- A declared type that can stand in a member line and be read back. -/
@[mk_iff]
structure DisplayForm (s : List Char) : Prop where
  ne_nil : s ≠ []
  display_eq : display s = s
  plain : ∀ c ∈ s, c ∉ ['(', ')', '{', '}', ':']
  angles : isBalanced '<' '>' 0 s = true
  squares : isBalanced '[' ']' 0 s = true
  commas : commasInside 0 s = true

instance (s : List Char) : Decidable (DisplayForm s) :=
  decidable_of_iff' _ (displayForm_iff s)

theorem DisplayForm.trimmed {s : List Char} (h : DisplayForm s) : Trimmed s :=
  h.display_eq ▸ trimmed_display s

theorem DisplayForm.isShown {s : List Char} (h : DisplayForm s) {c : Char} (hc : c ∈ s) :
    IsShown c :=
  isShown_of_mem_display (h.display_eq.symm ▸ hc)

theorem DisplayForm.notMem {s : List Char} (h : DisplayForm s) {d : Char}
    (hd : d ∈ ['(', ')', '{', '}', ':']) : d ∉ s :=
  fun hmem => h.plain d hmem hd

theorem DisplayForm.newline_notMem {s : List Char} (h : DisplayForm s) : '\n' ∉ s := by
  intro hmem
  rcases h.isShown hmem with heq | hblank
  · contradiction
  · contradiction

/-! ## Splitting lists of displayed types -/

/-- How a character changes the depth of brackets of one kind. -/
def bracketChange (opening closing c : Char) : ℤ :=
  if c = opening then 1 else if c = closing then -1 else 0

/-- Of a balanced text, what stands behind its first character is balanced at
the depth that the character leads to. -/
theorem isBalanced_cons {opening closing c : Char} {depth : ℕ} {s : List Char}
    (h : isBalanced opening closing depth (c :: s) = true) :
    ∃ next : ℕ, isBalanced opening closing next s = true ∧
      (next : ℤ) = depth + bracketChange opening closing c := by
  rw [isBalanced] at h
  unfold bracketChange
  by_cases hopen : c = opening
  · rw [if_pos hopen] at h ⊢
    exact ⟨depth + 1, h, by omega⟩
  · rw [if_neg hopen] at h ⊢
    by_cases hclose : c = closing
    · rw [if_pos hclose, Bool.and_eq_true, bne_iff_ne] at h
      rw [if_pos hclose]
      exact ⟨depth - 1, h.2, by omega⟩
    · rw [if_neg hclose] at h ⊢
      exact ⟨depth, h, by omega⟩

theorem commasInside_cons {c : Char} {depth next : ℕ} {s : List Char}
    (h : commasInside depth (c :: s) = true)
    (hnext : (next : ℤ) = depth + bracketChange '<' '>' c) :
    commasInside next s = true ∧ (c = ',' → next ≠ 0) := by
  rw [commasInside] at h
  unfold bracketChange at hnext
  by_cases hopen : c = '<'
  · rw [if_pos hopen] at h hnext
    have hdepth : next = depth + 1 := by omega
    exact ⟨hdepth ▸ h, by omega⟩
  · rw [if_neg hopen] at h hnext
    by_cases hclose : c = '>'
    · rw [if_pos hclose] at h hnext
      have hdepth : next = depth - 1 := by omega
      refine ⟨hdepth ▸ h, ?_⟩
      rintro rfl
      contradiction
    · rw [if_neg hclose] at h hnext
      have hdepth : next = depth := by omega
      rw [Bool.and_eq_true, Bool.or_eq_true, bne_iff_ne, bne_iff_ne] at h
      rw [hdepth]
      exact ⟨h.2, fun hcomma => h.1.resolve_left (not_not_intro hcomma)⟩

theorem depthChange_eq_add {c : Char} (h : c ∉ ['(', ')', '{', '}']) :
    depthChange c = bracketChange '<' '>' c + bracketChange '[' ']' c := by
  simp only [List.mem_cons, List.not_mem_nil, or_false, not_or] at h
  by_cases hbracket : c ∈ ['<', '>', '[', ']']
  · simp only [List.mem_cons, List.not_mem_nil, or_false] at hbracket
    rcases hbracket with rfl | rfl | rfl | rfl <;> rfl
  · simp only [List.mem_cons, List.not_mem_nil, or_false, not_or] at hbracket
    simp [depthChange, bracketChange, h, hbracket]

/-- The nesting depth is that of the text around and the depths of the two kinds
of brackets. Inside brackets of the text around, commas may stand anywhere. -/
theorem whole_append_of_balanced {s rest : List Char} {outer angles squares : ℕ}
    (hplain : ∀ c ∈ s, c ∉ ['(', ')', '{', '}'])
    (hangles : isBalanced '<' '>' angles s = true)
    (hsquares : isBalanced '[' ']' squares s = true)
    (hcommas : outer ≠ 0 ∨ commasInside angles s = true) (hrest : Whole ',' outer rest) :
    Whole ',' (outer + (angles + squares)) (s ++ rest) := by
  induction s generalizing angles squares with
  | nil =>
      simp only [isBalanced, beq_iff_eq] at hangles hsquares
      simpa [hangles, hsquares] using hrest
  | cons c s ih =>
      obtain ⟨hc, hplain⟩ := List.forall_mem_cons.mp hplain
      obtain ⟨angles', hangles, hangles'⟩ := isBalanced_cons hangles
      obtain ⟨squares', hsquares, hsquares'⟩ := isBalanced_cons hsquares
      have hdepth : (outer + (angles + squares) : ℤ) + depthChange c =
          outer + (angles' + squares') := by
        rw [depthChange_eq_add hc]
        omega
      have hinside : (outer ≠ 0 ∨ commasInside angles' s = true) ∧
          (c = ',' → outer ≠ 0 ∨ angles' ≠ 0) := by
        rcases hcommas with houter | hcommas
        · exact ⟨Or.inl houter, fun _ => Or.inl houter⟩
        · obtain ⟨hcommas, hcomma⟩ := commasInside_cons hcommas hangles'
          exact ⟨Or.inr hcommas, fun heq => Or.inr (hcomma heq)⟩
      rw [List.cons_append, Whole, hdepth]
      refine ⟨?_, ih hplain hangles hsquares hinside.1⟩
      rintro ⟨heq, hzero⟩
      have := hinside.2 heq
      omega

theorem DisplayForm.whole {s : List Char} (h : DisplayForm s) : Whole ',' 0 s := by
  have hplain : ∀ c ∈ s, c ∉ ['(', ')', '{', '}'] := fun c hc hmem =>
    h.plain c hc (List.mem_append_left [':'] hmem)
  have hend : Whole ',' (0 : ℕ) [] := rfl
  simpa using whole_append_of_balanced hplain h.angles h.squares (Or.inr h.commas) hend

end ClassAtlas.TypeText
