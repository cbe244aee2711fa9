import Mathlib.Data.List.Basic
import Mathlib.Data.List.TakeWhile
import Mathlib.Tactic.Common
import ClassAtlas.Text.Basic
import ClassAtlas.Text.Word

/-!
# Cutting texts into lines and trimming them

A character that can stand in a name is never blank, so names survive every
trimming. A text that is written line by line, each line with a line break at
its end, is cut into the same lines again, up to a carriage return that
trimming removes.
-/

namespace ClassAtlas.Text

/-- What holds of all characters of a text is decided along the text. -/
instance decidableForallMem {p : Char → Prop} [DecidablePred p] (s : List Char) :
    Decidable (∀ c ∈ s, p c) :=
  List.decidableBAll p s

instance decidableExistsMem {p : Char → Prop} [DecidablePred p] (s : List Char) :
    Decidable (∃ c ∈ s, p c) :=
  List.decidableBEx p s

/-! ## Blank characters and characters of names -/

/-- No range of word characters meets a range of blanks. -/
theorem wordRanges_disjoint_blankRanges :
    ∀ word ∈ wordRanges, ∀ blank ∈ blankRanges,
      word.2 < blank.1 ∨ blank.2 < word.1 := by
  decide +kernel

theorem exists_blankRange {c : Char} (h : isBlank c = true) :
    ∃ blank ∈ blankRanges, blank.1 ≤ c.toNat ∧ c.toNat ≤ blank.2 := by
  simpa [isBlank] using h

/-- The blanks of ASCII stand below the characters of words, with the space as
the last of them. -/
theorem le_of_isBlank_of_lt {c : Char} (h : isBlank c = true) (hascii : c.toNat < 0x80) :
    c.toNat ≤ 0x20 := by
  obtain ⟨blank, hmem, hlow, hhigh⟩ := exists_blankRange h
  have hranges : ∀ blank ∈ blankRanges, blank.2 ≤ 0x20 ∨ 0x80 ≤ blank.1 := by decide
  rcases hranges blank hmem with hle | hge
  · exact Nat.le_trans hhigh hle
  · omega

theorem isBlank_eq_false_of_isWord {c : Char} (h : isWord c = true) :
    isBlank c = false := by
  rw [← Bool.not_eq_true]
  intro hblank
  simp only [isWord, Bool.or_eq_true, beq_iff_eq, Bool.and_eq_true, List.any_eq_true,
    decide_eq_true_eq] at h
  rcases h with (halnum | rfl) | ⟨-, word, hword, hlow, hhigh⟩
  · have hrange : 48 ≤ c.toNat ∧ c.toNat < 0x80 := by
      change ((decide (65 ≤ c.val ∧ c.val ≤ 90) || (decide (97 ≤ c.val) && decide (c.val ≤ 122))) ||
        (decide (48 ≤ c.val) && decide (c.val ≤ 57))) = true at halnum
      simp only [Bool.or_eq_true, Bool.and_eq_true, decide_eq_true_eq,
        UInt32.le_iff_toNat_le] at halnum
      have hval : c.val.toNat = c.toNat := rfl
      simp at halnum
      omega
    have := le_of_isBlank_of_lt hblank hrange.2
    omega
  · contradiction
  · obtain ⟨blank, hmem, hlow', hhigh'⟩ := exists_blankRange hblank
    rcases wordRanges_disjoint_blankRanges word hword blank hmem with hlt | hlt
    · omega
    · omega

theorem isBlank_eq_false_of_isName {c : Char} (h : isName c = true) :
    isBlank c = false := by
  rw [isName, Bool.or_eq_true, beq_iff_eq] at h
  rcases h with hword | rfl
  · exact isBlank_eq_false_of_isWord hword
  · decide

theorem isBlank_eq_false_of_isDottedName {c : Char} (h : isDottedName c = true) :
    isBlank c = false := by
  rw [isDottedName, Bool.or_eq_true, beq_iff_eq] at h
  rcases h with hname | rfl
  · exact isBlank_eq_false_of_isName hname
  · decide

theorem isName_of_opensName {c : Char} (h : opensName c = true) : isName c = true := by
  simp only [opensName, Bool.or_eq_true, beq_iff_eq] at h
  rcases h with (halpha | rfl) | rfl
  · simp [isName, isWord, Char.isAlphanum, halpha]
  · decide
  · decide

theorem isAlpha_of_isUpper {c : Char} (h : c.isUpper = true) : c.isAlpha = true :=
  (Bool.or_eq_true _ _).mpr (Or.inl h)

theorem isWord_of_isUpper {c : Char} (h : c.isUpper = true) : isWord c = true := by
  simp [isWord, Char.isAlphanum, isAlpha_of_isUpper h]

/-! ## Trimming -/

/-- A run of characters of the class ends where this text starts. -/
def Stops (ok : Char → Bool) (s : List Char) : Prop :=
  ∀ c, s.head? = some c → ok c = false

@[simp] theorem stops_nil (ok : Char → Bool) : Stops ok [] := by
  simp [Stops]

@[simp] theorem stops_cons {ok : Char → Bool} {c : Char} {s : List Char} :
    Stops ok (c :: s) ↔ ok c = false := by
  simp [Stops]

instance (ok : Char → Bool) (s : List Char) : Decidable (Stops ok s) :=
  decidable_of_iff (s.head?.all (!ok ·) = true) (by cases s <;> simp [Stops])

theorem Stops.append {ok : Char → Bool} {a : List Char} (h : Stops ok a) (hne : a ≠ [])
    (b : List Char) : Stops ok (a ++ b) := by
  cases a with
  | nil => contradiction
  | cons c a => exact stops_cons.mpr (stops_cons.mp h)

theorem Stops.of_append {ok : Char → Bool} {a b : List Char} (h : Stops ok (a ++ b)) :
    Stops ok a := by
  cases a with
  | nil => exact stops_nil ok
  | cons c a => exact stops_cons.mpr (stops_cons.mp h)

/-- A text that neither starts nor ends in a blank. -/
def Trimmed (s : List Char) : Prop :=
  Stops isBlank s ∧ Stops isBlank s.reverse

instance (s : List Char) : Decidable (Trimmed s) :=
  inferInstanceAs (Decidable (_ ∧ _))

/-- Only the two ends of a text matter. -/
theorem Trimmed.append_append {a b : List Char} (ha : Trimmed a) (hb : Trimmed b)
    (hane : a ≠ []) (hbne : b ≠ []) (s : List Char) : Trimmed (a ++ (s ++ b)) := by
  constructor
  · exact ha.1.append hane _
  · rw [List.reverse_append, List.reverse_append, List.append_assoc]
    exact hb.2.append (by simpa using hbne) _

/-- A text without blanks at its ends does not end in blanks. -/
theorem Trimmed.eq_nil_of_append {a b : List Char} (h : Trimmed (a ++ b))
    (hb : ∀ c ∈ b, isBlank c = true) : b = [] := by
  have hend := h.2
  rw [List.reverse_append] at hend
  cases hreverse : b.reverse with
  | nil => exact List.reverse_eq_nil_iff.mp hreverse
  | cons c more =>
      have hc : c ∈ b := List.mem_reverse.mp (hreverse ▸ List.mem_cons_self)
      rw [hreverse, List.cons_append, stops_cons, hb c hc] at hend
      contradiction

theorem trimStart_eq_self {s : List Char} (h : Stops isBlank s) : trimStart s = s := by
  cases s with
  | nil => rfl
  | cons c rest => simp [trimStart, stops_cons.mp h]

theorem trimStart_append_of_blank {a s : List Char} (h : ∀ c ∈ a, isBlank c = true) :
    trimStart (a ++ s) = trimStart s :=
  List.dropWhile_append_of_pos h

@[simp] theorem trimStart_space (s : List Char) : trimStart (' ' :: s) = trimStart s := rfl

theorem trimEnd_append_of_blank {s b : List Char} (h : ∀ c ∈ b, isBlank c = true) :
    trimEnd (s ++ b) = trimEnd s := by
  rw [trimEnd, trimEnd, List.reverse_append, List.dropWhile_append_of_pos]
  intro c hc
  exact h c (List.mem_reverse.mp hc)

theorem trimEnd_eq_self {s : List Char} (h : Stops isBlank s.reverse) : trimEnd s = s := by
  rw [trimEnd, ← trimStart, trimStart_eq_self h, List.reverse_reverse]

theorem Trimmed.trim_eq {s : List Char} (h : Trimmed s) : trim s = s := by
  rw [trim, trimStart_eq_self h.1, trimEnd_eq_self h.2]

theorem trim_blank_append {a s : List Char} (h : ∀ c ∈ a, isBlank c = true) :
    trim (a ++ s) = trim s := by
  rw [trim, trimStart_append_of_blank h, ← trim]

theorem head?_trimStart_append (s t : List Char) :
    (trimStart (s ++ t)).head? = (trimStart s).head?.or (trimStart t).head? := by
  rw [trimStart, List.dropWhile_append, ← trimStart, ← trimStart]
  cases trimStart s with
  | nil => rfl
  | cons c rest => rfl

theorem stops_trimStart (s : List Char) : Stops isBlank (trimStart s) := by
  intro c hc
  have hhead := List.head?_dropWhile_not isBlank s
  rw [← trimStart, hc] at hhead
  exact hhead

theorem trimStart_append {t : List Char} (h : Stops isBlank t) (s : List Char) :
    trimStart (s ++ t) = trimStart s ++ t := by
  rw [trimStart, List.dropWhile_append, ← trimStart, ← trimStart, trimStart_eq_self h]
  split
  next hempty => rw [List.isEmpty_iff.mp hempty, List.nil_append]
  next => rfl

theorem trimEnd_append {s : List Char} (h : Stops isBlank s.reverse) (t : List Char) :
    trimEnd (s ++ t) = s ++ trimEnd t := by
  rw [trimEnd, trimEnd, ← trimStart, ← trimStart, List.reverse_append, trimStart_append h,
    List.reverse_append, List.reverse_reverse]

/-- Trimming takes nothing off a trimmed text inside. -/
theorem Trimmed.trim_append_append {a : List Char} (h : Trimmed a) (hne : a ≠ [])
    (s t : List Char) : trim (s ++ (a ++ t)) = trimStart s ++ (a ++ trimEnd t) := by
  have hend : Stops isBlank (trimStart s ++ a).reverse := by
    rw [List.reverse_append]
    exact h.2.append (by simpa using hne) _
  rw [trim, trimStart_append (h.1.append hne t), ← List.append_assoc, trimEnd_append hend,
    List.append_assoc]

theorem Trimmed.infix_trim {a s : List Char} (h : Trimmed a) (ha : a <:+: s) : a <:+: trim s := by
  by_cases hempty : a = []
  · rw [hempty]
    exact List.nil_infix
  · obtain ⟨before, after, rfl⟩ := ha
    rw [List.append_assoc, h.trim_append_append hempty]
    exact ⟨trimStart before, trimEnd after, List.append_assoc ..⟩

theorem isPrefix_trimEnd (s : List Char) : trimEnd s <+: s := by
  rw [← List.reverse_suffix, trimEnd, List.reverse_reverse]
  exact List.dropWhile_suffix isBlank

theorem trim_prefix_trimStart (s : List Char) : trim s <+: trimStart s :=
  isPrefix_trimEnd _

theorem isInfix_trim (s : List Char) : trim s <:+: s :=
  (trim_prefix_trimStart s).isInfix.trans (List.dropWhile_suffix isBlank).isInfix

theorem mem_of_mem_trim {s : List Char} {c : Char} (h : c ∈ trim s) : c ∈ s :=
  (isInfix_trim s).subset h

theorem head?_trimStart_of_trim {s : List Char} {c : Char} (h : (trim s).head? = some c) :
    (trimStart s).head? = some c := by
  rw [← List.singleton_prefix_iff_head?_eq_some] at h ⊢
  exact h.trans (trim_prefix_trimStart s)

theorem trimmed_trim (s : List Char) : Trimmed (trim s) := by
  constructor
  · intro c hc
    exact stops_trimStart s c (head?_trimStart_of_trim hc)
  · rw [trim, trimEnd, ← trimStart, List.reverse_reverse]
    exact stops_trimStart _

theorem trim_append_of_blank {s b : List Char} (h : ∀ c ∈ b, isBlank c = true) :
    trim (s ++ b) = trim s := by
  have hb : trimStart b = [] := by
    exact List.dropWhile_eq_nil_iff.mpr h
  rw [trim, trim, trimStart, List.dropWhile_append, ← trimStart, ← trimStart]
  split
  next hempty =>
    rw [hb, List.isEmpty_iff.mp hempty]
  next => exact trimEnd_append_of_blank h

theorem trim_concat {c : Char} (hc : isBlank c = false) (s : List Char) :
    trim (s ++ [c]) = trimStart s ++ [c] := by
  have hchar : Trimmed [c] := ⟨stops_cons.mpr hc, stops_cons.mpr hc⟩
  exact hchar.trim_append_append (List.cons_ne_nil c []) s []

theorem getLast?_trim {s : List Char} (h : Stops isBlank s.reverse) :
    (trim s).getLast? = s.getLast? := by
  rcases s.eq_nil_or_concat with rfl | ⟨front, c, rfl⟩
  · rfl
  · rw [List.concat_eq_append] at h ⊢
    rw [trim_concat (by simpa using h), List.getLast?_concat, List.getLast?_concat]

theorem trim_trimStart (s : List Char) : trim (trimStart s) = trim s := by
  rw [trim, trimStart_eq_self (stops_trimStart s), ← trim]

/-- Trimming removes a carriage return at the end of a line anyway. -/
theorem trim_dropReturn (line : List Char) : trim (dropReturn line) = trim line := by
  rw [dropReturn]
  split
  next hlast =>
    obtain ⟨start, rfl⟩ := List.getLast?_eq_some_iff.mp hlast
    rw [List.dropLast_concat, trim_append_of_blank (by decide)]
  next => rfl

/-! ## Beginnings of texts -/

theorem isPrefixOf?_append (start s : List Char) : start.isPrefixOf? (start ++ s) = some s :=
  List.isPrefixOf?_eq_some_iff_append_eq.mpr rfl

theorem isPrefixOf?_eq_none {start s : List Char} (hne : start ≠ [])
    (h : start.head? ≠ s.head?) : start.isPrefixOf? s = none := by
  obtain ⟨c, start, rfl⟩ := List.exists_cons_of_ne_nil hne
  cases s with
  | nil => rfl
  | cons d s =>
      have hcd : c ≠ d := by simpa using h
      simp [List.isPrefixOf?, hcd]

theorem isSuffixOf?_singleton_eq_none {c : Char} {s : List Char} (h : s.getLast? ≠ some c) :
    [c].isSuffixOf? s = none := by
  rw [Option.eq_none_iff_forall_ne_some]
  intro rest hrest
  rw [← List.isSuffixOf?_eq_some_iff_append_eq.mp hrest, List.getLast?_concat] at h
  contradiction

theorem isSuffixOf?_concat (s : List Char) (c : Char) : [c].isSuffixOf? (s ++ [c]) = some s :=
  List.isSuffixOf?_eq_some_iff_append_eq.mpr rfl

theorem occursIn_iff {part s : List Char} : occursIn part s = true ↔ part <:+: s := by
  induction s with
  | nil => rw [occursIn, List.isEmpty_iff, List.infix_nil]
  | cons c s ih =>
      rw [occursIn, Bool.or_eq_true, ih, List.isPrefixOf_iff_prefix, List.infix_cons_iff]

theorem occursIn_eq_false_of_notMem {part line : List Char} {c : Char} (hpart : c ∈ part)
    (hline : c ∉ line) : occursIn part line = false := by
  rw [Bool.eq_false_iff, ne_eq, occursIn_iff]
  exact fun hoccurs => hline (hoccurs.subset hpart)

/-- What stands in front of the first copy of a character ends there at the
latest. -/
theorem exists_of_append_eq_append_cons {c : Char} {a b p q : List Char} (hp : c ∉ p)
    (h : p ++ q = a ++ c :: b) : ∃ z, a = p ++ z ∧ q = z ++ c :: b := by
  rcases List.append_eq_append_iff.mp h with ⟨z, ha, hq⟩ | ⟨z, rfl, hz⟩
  · exact ⟨z, ha, hq⟩
  · cases z with
    | nil => exact ⟨[], by simp, by simpa using hz.symm⟩
    | cons d z =>
        obtain ⟨rfl, -⟩ := List.cons.inj hz
        exact (hp (by simp)).elim

/-- A text is cut at the only place where a character stands. -/
theorem eq_of_append_cons_eq {c : Char} {a b p q : List Char} (ha : c ∉ a) (hb : c ∉ b)
    (h : a ++ c :: b = p ++ c :: q) : p = a := by
  rcases List.append_eq_append_iff.mp h with ⟨z, rfl, hz⟩ | ⟨z, rfl, hz⟩
  · cases z with
    | nil => rw [List.append_nil]
    | cons d z =>
        have hmem : c ∈ b := by
          rw [(List.cons.inj hz).2]
          simp
        exact (hb hmem).elim
  · cases z with
    | nil => rw [List.append_nil]
    | cons d z =>
        rw [List.cons_append, List.cons.injEq] at hz
        exact (ha (by simp [hz.1])).elim

/-- A text is cut at the first place where a character stands. -/
theorem eq_and_eq_of_append_cons {c : Char} {a b p q : List Char} (ha : c ∉ a) (hp : c ∉ p)
    (h : a ++ c :: b = p ++ c :: q) : a = p ∧ b = q := by
  obtain ⟨z, rfl, hz⟩ := exists_of_append_eq_append_cons hp h.symm
  cases z with
  | nil => exact ⟨List.append_nil p, (List.cons.inj hz).2.symm⟩
  | cons d z =>
      obtain ⟨rfl, -⟩ := List.cons.inj hz
      exact (ha (by simp)).elim

/-- Two runs of one class with a stop behind each are the same if the texts
are. -/
theorem eq_of_append_eq_append {ok : Char → Bool} {a b s t : List Char}
    (ha : ∀ c ∈ a, ok c = true) (hb : ∀ c ∈ b, ok c = true)
    (hs : Stops ok s) (ht : Stops ok t) (h : a ++ s = b ++ t) : a = b := by
  have hrun : ∀ {a s : List Char}, (∀ c ∈ a, ok c = true) → Stops ok s →
      (a ++ s).takeWhile ok = a := by
    intro a s ha hs
    rw [List.takeWhile_append_of_pos ha]
    cases s with
    | nil => simp
    | cons c s => simp [stops_cons.mp hs]
  rw [← hrun ha hs, h, hrun hb ht]

/-! ## Cutting at a character -/

/-- A text that is written from parts with a separator between them has the
characters of the parts and of the separator. -/
theorem notMem_intercalate {sep : List Char} {parts : List (List Char)} {c : Char}
    (hsep : c ∉ sep) (hparts : ∀ part ∈ parts, c ∉ part) : c ∉ sep.intercalate parts := by
  induction parts with
  | nil => simp
  | cons part rest ih =>
      obtain ⟨hpart, hrest⟩ := List.forall_mem_cons.mp hparts
      cases rest with
      | nil => simpa using hpart
      | cons next more =>
          rw [List.intercalate_cons_cons]
          simp [hpart, hsep, ih hrest]

/-- Each part stands in the text. -/
theorem infix_intercalate {sep part : List Char} {parts : List (List Char)} (h : part ∈ parts) :
    part <:+: sep.intercalate parts := by
  induction parts with
  | nil => contradiction
  | cons first rest ih =>
      cases rest with
      | nil =>
          obtain rfl := List.mem_singleton.mp h
          simp
      | cons next more =>
          rw [List.intercalate_cons_cons]
          rcases List.mem_cons.mp h with rfl | hmem
          · exact ((List.prefix_append part sep).trans (List.prefix_append _ _)).isInfix
          · exact (ih hmem).trans (List.suffix_append _ _).isInfix

theorem cutAtFirst?_append {c : Char} {a : List Char} (h : c ∉ a) (b : List Char) :
    cutAtFirst? c (a ++ c :: b) = some (a, b) := by
  induction a with
  | nil => simp [cutAtFirst?]
  | cons d a ih =>
      rw [List.mem_cons, not_or] at h
      rw [List.cons_append, cutAtFirst?, if_neg (Ne.symm h.1), ih h.2]
      rfl

theorem afterLast_append_cons (c : Char) (a b : List Char) :
    afterLast c (a ++ c :: b) = afterLast c b := by
  simp only [afterLast, List.reverse_append, List.reverse_cons, List.append_assoc]
  rw [List.takeWhile_append]
  split
  next hwhole =>
    have hall : b.reverse.takeWhile (· != c) = b.reverse :=
      (List.takeWhile_prefix _).eq_of_length hwhole
    simp [hall]
  next => rfl

theorem afterLast_eq_self {c : Char} {s : List Char} (h : c ∉ s) : afterLast c s = s := by
  have hall : s.reverse.takeWhile (· != c) = s.reverse := by
    rw [List.takeWhile_eq_self_iff]
    intro d hd
    rw [bne_iff_ne]
    rintro rfl
    exact h (List.mem_reverse.mp hd)
  rw [afterLast, hall, List.reverse_reverse]

/-- What stands in front of the last copy of a character does not matter. -/
theorem afterLast_append {c : Char} {s : List Char} (h : c ∈ s) (a : List Char) :
    afterLast c (a ++ s) = afterLast c s := by
  obtain ⟨before, after, rfl⟩ := List.append_of_mem h
  rw [← List.append_assoc, afterLast_append_cons, afterLast_append_cons]

/-! ## Pieces -/

theorem infix_of_mem_splitOn {c : Char} {s piece : List Char} (h : piece ∈ s.splitOn c) :
    piece <:+: s := by
  have hinfix : piece <:+: [c].intercalate (s.splitOn c) := infix_intercalate h
  rwa [List.intercalate_splitOn] at hinfix

/-- Nothing cuts inside a piece. -/
theorem notMem_of_mem_splitOn {c : Char} {s piece : List Char} (h : piece ∈ s.splitOn c) :
    c ∉ piece := by
  induction s generalizing piece with
  | nil =>
      obtain rfl := List.mem_singleton.mp h
      exact List.not_mem_nil
  | cons d s ih =>
      obtain ⟨first, more, hs⟩ := List.exists_cons_of_ne_nil (List.splitOn_ne_nil c s)
      rw [List.splitOn_cons_eq_if_modifyHead, hs, List.modifyHead_cons] at h
      rw [hs] at ih
      split at h
      next =>
        rcases List.mem_cons.mp h with rfl | hmem
        · exact List.not_mem_nil
        · exact ih hmem
      next hcut =>
        rcases List.mem_cons.mp h with rfl | hmem
        · rw [List.mem_cons, not_or]
          exact ⟨fun heq => hcut (beq_iff_eq.mpr heq.symm), ih List.mem_cons_self⟩
        · exact ih (List.mem_cons_of_mem first hmem)

/-- Characters that do not cut lengthen the first piece. -/
theorem exists_append_splitOnP {cut : Char → Bool} {a : List Char}
    (ha : ∀ d ∈ a, cut d = false) (s : List Char) :
    ∃ piece more, s.splitOnP cut = piece :: more ∧
      (a ++ s).splitOnP cut = (a ++ piece) :: more := by
  obtain ⟨piece, more, hs⟩ := List.exists_cons_of_ne_nil (List.splitOnP_ne_nil cut s)
  refine ⟨piece, more, hs, ?_⟩
  induction a with
  | nil => exact hs
  | cons c a ih =>
      obtain ⟨hc, ha⟩ := List.forall_mem_cons.mp ha
      rw [List.cons_append, List.splitOnP_cons_eq_if_modifyHead, hc, ih ha]
      rfl

theorem exists_append_splitOn {c : Char} {a : List Char} (ha : c ∉ a) (s : List Char) :
    ∃ piece more, s.splitOn c = piece :: more ∧ (a ++ s).splitOn c = (a ++ piece) :: more :=
  exists_append_splitOnP (fun _ hd => beq_eq_false_iff_ne.mpr (ne_of_mem_of_not_mem hd ha)) s

/-- At the end of a text they lengthen the last one. -/
theorem exists_splitOn_append {c : Char} {t : List Char} (ht : c ∉ t) (s : List Char) :
    ∃ init last, s.splitOn c = init ++ [last] ∧ (s ++ t).splitOn c = init ++ [last ++ t] := by
  induction s with
  | nil => exact ⟨[], [], rfl, List.splitOn_eq_singleton ht⟩
  | cons d s ih =>
      obtain ⟨init, last, hs, hst⟩ := ih
      rw [List.cons_append, List.splitOn_cons_eq_if_modifyHead,
        List.splitOn_cons_eq_if_modifyHead, hs, hst]
      by_cases hd : (d == c) = true
      · exact ⟨[] :: init, last, by simp [hd], by simp [hd]⟩
      · cases init with
        | nil => exact ⟨[], d :: last, by simp [hd], by simp [hd]⟩
        | cons piece more => exact ⟨(d :: piece) :: more, last, by simp [hd], by simp [hd]⟩

/-! ## Lines -/

/-- A line is a piece between line breaks, perhaps without its last character. -/
theorem exists_prefix_of_mem_linesOfPieces {ps : List (List Char)} {line : List Char}
    (h : line ∈ linesOfPieces ps) : ∃ piece ∈ ps, line <+: piece := by
  induction ps with
  | nil => contradiction
  | cons piece more ih =>
      cases more with
      | nil =>
          rw [linesOfPieces] at h
          split at h
          · contradiction
          · rw [List.mem_singleton.mp h]
            exact ⟨piece, List.mem_singleton_self _, List.prefix_rfl⟩
      | cons next rest =>
          rw [linesOfPieces] at h
          rcases List.mem_cons.mp h with rfl | hmem
          · refine ⟨piece, List.mem_cons_self, ?_⟩
            rw [dropReturn]
            split
            · exact List.dropLast_prefix piece
            · exact List.prefix_rfl
          · obtain ⟨other, hother, hstart⟩ := ih hmem
            exact ⟨other, List.mem_cons_of_mem piece hother, hstart⟩
          · simp

theorem newline_notMem_of_mem_lines {text line : List Char} (h : line ∈ lines text) :
    '\n' ∉ line := by
  obtain ⟨piece, hpiece, hstart⟩ := exists_prefix_of_mem_linesOfPieces h
  exact fun hmem => notMem_of_mem_splitOn hpiece (hstart.subset hmem)

theorem splitOn_terminated {ls : List (List Char)} (h : ∀ line ∈ ls, '\n' ∉ line) :
    (ls.flatMap (· ++ ['\n'])).splitOn '\n' = ls ++ [[]] := by
  induction ls with
  | nil => rfl
  | cons line rest ih =>
      obtain ⟨hline, hrest⟩ := List.forall_mem_cons.mp h
      rw [List.flatMap_cons, List.append_assoc, List.singleton_append,
        List.splitOn_append_cons_self_of_not_mem hline, ih hrest]
      rfl

theorem linesOfPieces_terminated (ls : List (List Char)) :
    linesOfPieces (ls ++ [[]]) = ls.map dropReturn := by
  induction ls with
  | nil => rfl
  | cons line rest ih =>
      cases rest with
      | nil => rfl
      | cons next more =>
          rw [List.cons_append, List.cons_append, linesOfPieces, ← List.cons_append, ih]
          · rfl
          · simp

/-- The trimmed lines of a text that was written line by line. -/
theorem map_trim_lines_terminated {ls : List (List Char)}
    (h : ∀ line ∈ ls, '\n' ∉ line) :
    (lines (ls.flatMap (· ++ ['\n']))).map trim = ls.map trim := by
  rw [lines, splitOn_terminated h, linesOfPieces_terminated, List.map_map]
  exact List.map_congr_left fun line _ => trim_dropReturn line

theorem linesOfPieces_append (ps : List (List Char)) {qs : List (List Char)} (hqs : qs ≠ []) :
    linesOfPieces (ps ++ qs) = ps.map dropReturn ++ linesOfPieces qs := by
  induction ps with
  | nil => rfl
  | cons piece more ih =>
      rw [List.cons_append, linesOfPieces, ih]
      · rfl
      · simp [hqs]

/-- A text whose last piece is not empty has a line for each of its pieces. -/
theorem map_trim_lines_of_splitOn {s last : List Char} {init : List (List Char)}
    (h : s.splitOn '\n' = init ++ [last]) (hlast : last ≠ []) :
    (lines s).map trim = init.map trim ++ [trim last] := by
  rw [lines, h, linesOfPieces_append init (List.cons_ne_nil last []), List.map_append,
    List.map_map]
  congr 1
  · exact List.map_congr_left fun line _ => trim_dropReturn line
  · simp [linesOfPieces, hlast]

/-- The trimmed lines of a text that was joined from lines. -/
theorem map_trim_lines_intercalate {ls : List (List Char)} (h : ∀ line ∈ ls, '\n' ∉ line)
    (hfilled : ∀ line ∈ ls, line ≠ []) :
    (lines (['\n'].intercalate ls)).map trim = ls.map trim := by
  rcases List.eq_nil_or_concat ls with rfl | ⟨init, last, rfl⟩
  · rfl
  · rw [List.concat_eq_append] at h hfilled ⊢
    have hpieces := List.splitOn_intercalate '\n' h
      (List.append_ne_nil_of_right_ne_nil init (by simp))
    rw [map_trim_lines_of_splitOn hpieces (hfilled last (by simp)), List.map_append,
      List.map_singleton]

/-- A text has a line for each of its pieces, but for an empty piece at the
end. -/
theorem exists_map_trim_linesOfPieces (ps : List (List Char)) :
    ∃ gap : List (List Char), (∀ line ∈ gap, line = []) ∧
      ps.map trim = (linesOfPieces ps).map trim ++ gap := by
  induction ps with
  | nil => exact ⟨[], by simp, rfl⟩
  | cons piece more ih =>
      cases more with
      | nil =>
          cases piece with
          | nil => exact ⟨[[]], by simp, rfl⟩
          | cons c piece => exact ⟨[], by simp, rfl⟩
      | cons next more =>
          obtain ⟨gap, hgap, hlines⟩ := ih
          have hfirst : linesOfPieces (piece :: next :: more) =
              dropReturn piece :: linesOfPieces (next :: more) := rfl
          refine ⟨gap, hgap, ?_⟩
          rw [List.map_cons, hlines, hfirst, List.map_cons, trim_dropReturn, List.cons_append]

/-- The trimmed lines of two texts with a line break between them. The break
makes an empty line of its own where the first text ends in one. -/
theorem exists_map_trim_lines_append (s t : List Char) :
    ∃ gap : List (List Char), (∀ line ∈ gap, line = []) ∧
      (lines (s ++ '\n' :: t)).map trim =
        (lines s).map trim ++ (gap ++ (lines t).map trim) := by
  obtain ⟨gap, hgap, hlines⟩ := exists_map_trim_linesOfPieces (s.splitOn '\n')
  have hreturn : ∀ ps : List (List Char), (ps.map dropReturn).map trim = ps.map trim := by
    intro ps
    rw [List.map_map]
    exact List.map_congr_left fun line _ => trim_dropReturn line
  refine ⟨gap, hgap, ?_⟩
  rw [lines, List.splitOn_append_cons_self, linesOfPieces_append _ (List.splitOn_ne_nil _ t),
    List.map_append, hreturn, hlines, List.append_assoc]
  rfl

end ClassAtlas.Text
