import Mathlib.Data.List.Chain
import ClassAtlas.Proofs.DisplayForm

/-!
# The spacing of displayed types

Displaying a type changes its blanks and nothing else. Runs of blanks become
single spaces, brackets and commas lose the spaces in front of them, and behind a
comma comes one space unless a bracket or another comma follows. This is a
condition on neighbouring characters. Every displayed text meets it, and a trimmed
text that meets it is displayed as it is, so displaying twice is displaying once.
-/

namespace ClassAtlas.TypeText

open ClassAtlas.Text

/-- Whether the second character can follow the first in a displayed type. -/
def Spaced (c d : Char) : Prop :=
  (c = ' ' → d ∉ [' ', '<', '>', '[', ']', ',']) ∧ (c ∈ ['<', '['] → d ≠ ' ') ∧
    (c = ',' → d ∈ [' ', '<', '>', '[', ']', ','])

instance (c d : Char) : Decidable (Spaced c d) :=
  inferInstanceAs (Decidable (_ ∧ _ ∧ _))

/-- A text with the blanks of a displayed type. -/
structure IsDisplayed (s : List Char) : Prop where
  trimmed : Trimmed s
  shown : ∀ c ∈ s, IsShown c
  spaced : s.IsChain Spaced

theorem eq_space_of_isBlank {c : Char} (h : IsShown c) (hblank : isBlank c = true) : c = ' ' := by
  rcases h with rfl | hc
  · rfl
  · rw [hc] at hblank
    contradiction

/-! ## One character -/

section Step

variable {c d : Char} {shown : List Char}

theorem displayStep_bracket (h : c ∈ ['<', '>', '[', ']']) (shown : List Char) :
    displayStep shown c = c :: shown.dropWhile (· == ' ') := by
  simp only [List.mem_cons, List.not_mem_nil, or_false] at h
  rcases h with rfl | rfl | rfl | rfl <;> rfl

theorem displayStep_comma (shown : List Char) :
    displayStep shown ',' = ' ' :: ',' :: shown.dropWhile (· == ' ') := rfl

theorem displayStep_space_of_mem (h : d ∈ ['<', '[', ' ']) (shown : List Char) :
    displayStep (d :: shown) ' ' = d :: shown := by
  simp only [List.mem_cons, List.not_mem_nil, or_false] at h
  rcases h with rfl | rfl | rfl <;> rfl

theorem displayStep_space_of_notMem (h : d ∉ ['<', '[', ' ']) (shown : List Char) :
    displayStep (d :: shown) ' ' = ' ' :: d :: shown := by
  simp only [List.mem_cons, List.not_mem_nil, or_false, not_or] at h
  simp [displayStep, h]

theorem displayStep_other (h : c ∉ [' ', '<', '>', '[', ']', ',']) (shown : List Char) :
    displayStep shown c = c :: shown := by
  simp only [List.mem_cons, List.not_mem_nil, or_false, not_or] at h
  simp [displayStep, h]

/-- A character is a bracket, a comma, a space, or none of these. -/
theorem cases_of_char (c : Char) :
    c ∈ ['<', '>', '[', ']'] ∨ c = ',' ∨ c = ' ' ∨ c ∉ [' ', '<', '>', '[', ']', ','] := by
  simp only [List.mem_cons, List.not_mem_nil, or_false, not_or]
  tauto

end Step

/-! ## Every displayed text is spaced -/

/-- What has been displayed so far, reversed: its characters follow one another as
they may, and the space behind a comma is already there. -/
structure Underway (shown : List Char) : Prop where
  spaced : shown.IsChain (flip Spaced)
  head : shown.head? ≠ some ','

namespace Underway

variable {c : Char} {shown : List Char}

theorem nil : Underway [] :=
  ⟨List.isChain_nil, by simp⟩

theorem cons (h : Underway shown) (hc : c ≠ ',') (hspaced : ∀ d ∈ shown.head?, Spaced d c) :
    Underway (c :: shown) :=
  ⟨List.isChain_cons.mpr ⟨hspaced, h.spaced⟩, by simpa using hc⟩

/-- A bracket or a comma can follow anything once the spaces are gone. -/
theorem isChain_cons_dropWhile (h : Underway shown) (hc : c ∈ ['<', '>', '[', ']', ',']) :
    (c :: shown.dropWhile (· == ' ')).IsChain (flip Spaced) := by
  refine List.isChain_cons.mpr ⟨fun d hd => ?_, h.spaced.suffix (List.dropWhile_suffix _)⟩
  have hspace : d ≠ ' ' := by
    have hnot := List.head?_dropWhile_not (· == ' ') shown
    rw [hd] at hnot
    simpa using hnot
  refine ⟨fun heq => absurd heq hspace, fun _ => ?_, fun _ => List.mem_cons_of_mem ' ' hc⟩
  rintro rfl
  exact absurd hc (by decide)

theorem step (h : Underway shown) (c : Char) : Underway (displayStep shown c) := by
  rcases cases_of_char c with hbracket | rfl | rfl | hother
  · rw [displayStep_bracket hbracket]
    refine ⟨h.isChain_cons_dropWhile (List.mem_append_left [','] hbracket), ?_⟩
    intro hcomma
    rw [Option.some.inj hcomma] at hbracket
    exact absurd hbracket (by decide)
  · rw [displayStep_comma]
    have hcomma : flip Spaced ' ' ',' := by
      unfold flip
      decide
    exact ⟨List.isChain_cons_cons.mpr ⟨hcomma, h.isChain_cons_dropWhile (by decide)⟩, by simp⟩
  · cases shown with
    | nil => exact nil.cons (by decide) (by simp)
    | cons d shown =>
        by_cases hd : d ∈ ['<', '[', ' ']
        · rw [displayStep_space_of_mem hd]
          exact h
        · rw [displayStep_space_of_notMem hd]
          simp only [List.mem_cons, List.not_mem_nil, or_false, not_or] at hd
          exact h.cons (by decide) (by simp [Spaced, hd])
  · rw [displayStep_other hother]
    refine h.cons ?_ fun d hd => ⟨fun _ => hother, fun _ => ?_, fun hcomma => ?_⟩
    · rintro rfl
      exact absurd hother (by decide)
    · rintro rfl
      exact absurd hother (by decide)
    · rw [hcomma] at hd
      exact absurd hd h.head

theorem foldl (h : Underway shown) (s : List Char) : Underway (s.foldl displayStep shown) :=
  List.foldlRecOn s displayStep h fun _ h c _ => h.step c

end Underway

theorem isDisplayed_display (s : List Char) : IsDisplayed (display s) where
  trimmed := trimmed_display s
  shown _ := isShown_of_mem_display
  spaced := by
    have hfold := (Underway.nil.foldl (collapse (trim s))).spaced
    exact List.IsChain.infix (List.isChain_reverse.mpr hfold) (isInfix_trim _)

/-! ## A spaced text is displayed as it is -/

theorem collapse_eq_self {s : List Char} (hshown : ∀ c ∈ s, IsShown c)
    (hspaced : s.IsChain Spaced) : collapse s = s := by
  fun_induction collapse s with
  | case1 => rfl
  | case2 c hc => rw [eq_space_of_isBlank (hshown c List.mem_cons_self) hc]
  | case3 c hc => rfl
  | case4 c d rest hc hd ih =>
      -- two blanks in a row would be two spaces
      obtain ⟨hspaced, -⟩ := List.isChain_cons_cons.mp hspaced
      have hc' := eq_space_of_isBlank (hshown c List.mem_cons_self) hc
      have hd' := eq_space_of_isBlank (hshown d (by simp)) hd
      exact absurd (by rw [hd']; exact List.mem_cons_self) (hspaced.1 hc')
  | case5 c d rest hc hd ih =>
      obtain ⟨-, hrest⟩ := List.isChain_cons_cons.mp hspaced
      rw [eq_space_of_isBlank (hshown c List.mem_cons_self) hc,
        ih (fun e he => hshown e (List.mem_cons_of_mem c he)) hrest]
  | case6 c d rest hc ih =>
      obtain ⟨-, hrest⟩ := List.isChain_cons_cons.mp hspaced
      rw [ih (fun e he => hshown e (List.mem_cons_of_mem c he)) hrest]

/-- A character in front of a reversed text, with the space that a comma brings
along. -/
def put (c : Char) (shown : List Char) : List Char :=
  if c = ',' then ' ' :: c :: shown else c :: shown

theorem put_of_ne {c : Char} (h : c ≠ ',') (shown : List Char) : put c shown = c :: shown :=
  if_neg h

theorem displayStep_nil (c : Char) : displayStep [] c = put c [] := by
  rcases cases_of_char c with hbracket | rfl | rfl | hother
  · rw [displayStep_bracket hbracket, put_of_ne (ne_of_mem_of_not_mem hbracket (by decide))]
    rfl
  · rfl
  · rfl
  · rw [displayStep_other hother, put_of_ne (ne_of_mem_of_not_mem (by decide) hother).symm]

/-- A character that can follow another is put behind it. -/
theorem displayStep_put {c d : Char} (h : Spaced c d) (shown : List Char) :
    displayStep (put c shown) d = put d (c :: shown) := by
  by_cases hcomma : c = ','
  · subst hcomma
    have hd := h.2.2 rfl
    simp only [List.mem_cons, List.not_mem_nil, or_false] at hd
    rcases hd with rfl | rfl | rfl | rfl | rfl | rfl <;> rfl
  rw [put_of_ne hcomma]
  have hdrop : d ∈ [' ', '<', '>', '[', ']', ','] →
      (c :: shown).dropWhile (· == ' ') = c :: shown := by
    intro hd
    have hspace : c ≠ ' ' := fun hc => h.1 hc hd
    exact List.dropWhile_cons_of_neg (by simpa using hspace)
  rcases cases_of_char d with hbracket | rfl | rfl | hother
  · rw [displayStep_bracket hbracket, put_of_ne (ne_of_mem_of_not_mem hbracket (by decide)),
      hdrop (by simp only [List.mem_cons] at hbracket ⊢; tauto)]
  · rw [displayStep_comma, hdrop (by decide)]
    rfl
  · refine displayStep_space_of_notMem (fun hc => ?_) shown
    simp only [List.mem_cons, List.not_mem_nil, or_false] at hc
    rcases hc with rfl | rfl | rfl
    · exact h.2.1 (by decide) rfl
    · exact h.2.1 (by decide) rfl
    · exact h.1 rfl (by decide)
  · rw [displayStep_other hother, put_of_ne (ne_of_mem_of_not_mem (by decide) hother).symm]

theorem foldl_displayStep_put {c : Char} {s : List Char} (h : (c :: s).IsChain Spaced)
    (shown : List Char) :
    ∃ last before, s.foldl displayStep (put c shown) = put last before ∧
      last :: before = s.reverse ++ c :: shown := by
  induction s generalizing c shown with
  | nil => exact ⟨c, shown, rfl, rfl⟩
  | cons d s ih =>
      obtain ⟨hspaced, hrest⟩ := List.isChain_cons_cons.mp h
      obtain ⟨last, before, hfold, heq⟩ := ih hrest (c :: shown)
      refine ⟨last, before, ?_, ?_⟩
      · rw [List.foldl_cons, displayStep_put hspaced, hfold]
      · rw [heq, List.reverse_cons, List.append_assoc]
        rfl

theorem trim_reverse_put {c : Char} {shown : List Char} (h : Trimmed (c :: shown).reverse) :
    trim (put c shown).reverse = (c :: shown).reverse := by
  unfold put
  split
  · rw [List.reverse_cons, trim_append_of_blank (by decide), h.trim_eq]
  · exact h.trim_eq

theorem IsDisplayed.display_eq {s : List Char} (h : IsDisplayed s) : display s = s := by
  rw [display, h.trimmed.trim_eq, collapse_eq_self h.shown h.spaced]
  cases s with
  | nil => rfl
  | cons c s =>
      obtain ⟨last, before, hfold, heq⟩ := foldl_displayStep_put h.spaced []
      have hreverse : (last :: before).reverse = c :: s := by
        rw [heq]
        simp
      rw [List.foldl_cons, displayStep_nil, hfold,
        trim_reverse_put (hreverse.symm ▸ h.trimmed), hreverse]

/-- The displayed texts are those that displaying leaves alone. -/
theorem display_eq_self_iff {s : List Char} : display s = s ↔ IsDisplayed s :=
  ⟨fun h => h ▸ isDisplayed_display s, IsDisplayed.display_eq⟩

/-! ## Only blanks change -/

section Ink

variable {c : Char} {s t : List Char}

/-- The characters of a text that are not blank. -/
def ink (s : List Char) : List Char :=
  s.filter (!isBlank ·)

theorem ink_append (s t : List Char) : ink (s ++ t) = ink s ++ ink t :=
  List.filter_append s t

theorem ink_reverse (s : List Char) : ink s.reverse = (ink s).reverse :=
  List.filter_reverse

theorem ink_cons_of_isBlank (h : isBlank c = true) (s : List Char) : ink (c :: s) = ink s := by
  simp [ink, h]

theorem ink_cons_congr (c : Char) (h : ink s = ink t) : ink (c :: s) = ink (c :: t) := by
  rw [← List.singleton_append, ink_append, h, ← ink_append, List.singleton_append]

theorem ink_dropWhile {p : Char → Bool} (hp : ∀ c, p c = true → isBlank c = true)
    (s : List Char) : ink (s.dropWhile p) = ink s := by
  have hblank : ink (s.takeWhile p) = [] := by
    refine List.filter_eq_nil_iff.mpr fun c hc => ?_
    simp [hp c (List.mem_takeWhile_imp hc)]
  conv_rhs => rw [← List.takeWhile_append_dropWhile (p := p) (l := s), ink_append, hblank]
  rfl

theorem ink_trim (s : List Char) : ink (trim s) = ink s := by
  have hblank := fun c : Char => (id : isBlank c = true → isBlank c = true)
  rw [trim, trimEnd, ink_reverse, ink_dropWhile hblank, ink_reverse, List.reverse_reverse,
    trimStart, ink_dropWhile hblank]

theorem ink_collapse (s : List Char) : ink (collapse s) = ink s := by
  fun_induction collapse s with
  | case1 => rfl
  | case2 c hc => rw [ink_cons_of_isBlank hc, ink_cons_of_isBlank isBlank_space]
  | case3 c hc => rfl
  | case4 c d rest hc hd ih => rw [ih, ink_cons_of_isBlank hc]
  | case5 c d rest hc hd ih => rw [ink_cons_of_isBlank isBlank_space, ih, ink_cons_of_isBlank hc]
  | case6 c d rest hc ih => rw [ink_cons_congr c ih]

theorem ink_displayStep (shown : List Char) (c : Char) :
    ink (displayStep shown c) = ink (c :: shown) := by
  have hdrop : ink (shown.dropWhile (· == ' ')) = ink shown :=
    ink_dropWhile (fun d hd => by rw [eq_of_beq hd]; exact isBlank_space) shown
  rcases cases_of_char c with hbracket | rfl | rfl | hother
  · rw [displayStep_bracket hbracket, ink_cons_congr c hdrop]
  · rw [displayStep_comma, ink_cons_of_isBlank isBlank_space, ink_cons_congr ',' hdrop]
  · rw [ink_cons_of_isBlank isBlank_space]
    cases shown with
    | nil => rfl
    | cons d shown =>
        by_cases hd : d ∈ ['<', '[', ' ']
        · rw [displayStep_space_of_mem hd]
        · rw [displayStep_space_of_notMem hd, ink_cons_of_isBlank isBlank_space]
  · rw [displayStep_other hother]

theorem ink_foldl_displayStep (s shown : List Char) :
    ink (s.foldl displayStep shown) = ink (s.reverse ++ shown) := by
  induction s generalizing shown with
  | nil => rfl
  | cons c s ih =>
      rw [List.foldl_cons, ih, ink_append, ink_displayStep, ← ink_append, List.reverse_cons,
        List.append_assoc]
      rfl

theorem ink_display (s : List Char) : ink (display s) = ink s := by
  rw [display, ink_trim, ink_reverse, ink_foldl_displayStep, List.append_nil, ink_reverse,
    List.reverse_reverse, ink_collapse, ink_trim]

end Ink

/-! ## Displaying twice -/

/-- Displaying a type normalizes its blanks: doing it again changes nothing, no other
character is changed, and the spaces that are left stand alone, inside the text,
never in front of a bracket or a comma and never behind an opening one. -/
theorem display_normalizes (s : List Char) :
    display (display s) = display s ∧ ink (display s) = ink s ∧ Trimmed (display s) ∧
      (∀ c ∈ display s, isBlank c = true → c = ' ') ∧
      ∀ before c d after, display s = before ++ c :: d :: after →
        (c = ' ' → d ∉ [' ', '<', '>', '[', ']', ',']) ∧ (c ∈ ['<', '['] → d ≠ ' ') := by
  have hdisplayed := isDisplayed_display s
  refine ⟨hdisplayed.display_eq, ink_display s, hdisplayed.trimmed, ?_, ?_⟩
  · intro c hc hblank
    exact eq_space_of_isBlank (hdisplayed.shown c hc) hblank
  · intro before c d after heq
    have hpair : [c, d] <:+: display s := ⟨before, after, by simp [heq]⟩
    have hchain := List.IsChain.infix hdisplayed.spaced hpair
    obtain ⟨hspaced, -⟩ := List.isChain_cons_cons.mp hchain
    exact ⟨hspaced.1, hspaced.2.1⟩

example : display "Map <\n String ,List< Item [ ] >>".toList =
    "Map<String, List<Item[]>>".toList := by decide

end ClassAtlas.TypeText
