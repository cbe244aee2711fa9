import ClassAtlas.Proofs.Source.Scanning
import ClassAtlas.Proofs.Text.Cutting

/-!
# What is left without comments

Without its comments a text has all its line breaks and every character outside
a comment. A line comment leaves its line break and a block comment a space with
the line breaks it held, so two characters that stand side by side afterwards
stood so before, or a blank is one of them: no comment opens anew, and dropping
comments a second time changes nothing.
-/

namespace ClassAtlas.Source

open ClassAtlas.Text

/-! ## Where a comment opens -/

/-- A comment opens at the front of a text that is read at a zone: a code slash
with a slash or a star right behind it. -/
def OpensComment (zone : Zone) (s : List Char) : Prop :=
  zone.isCode '/' = true ∧ ("//".toList <+: s ∨ "/*".toList <+: s)

/-- No comment opens in a text that is read from a zone on. -/
def CommentFree (zone : Zone) (s : List Char) : Prop :=
  ∀ before behind, s = before ++ behind → ¬OpensComment (zone.after before) behind

section Opening

variable {zone : Zone} {c : Char} {s t : List Char}

theorem OpensComment.exists_eq (h : OpensComment zone s) :
    (∃ more, s = '/' :: '/' :: more) ∨ ∃ more, s = '/' :: '*' :: more := by
  obtain ⟨-, ⟨more, rfl⟩ | ⟨more, rfl⟩⟩ := h
  · exact Or.inl ⟨more, rfl⟩
  · exact Or.inr ⟨more, rfl⟩

/-- A comment needs a slash and the character behind it. -/
theorem not_opensComment_cons (h : c = '/' → s.head? ≠ some '/' ∧ s.head? ≠ some '*') :
    ¬OpensComment zone (c :: s) := by
  intro hopens
  rcases hopens.exists_eq with ⟨more, heq⟩ | ⟨more, heq⟩
  · obtain ⟨rfl, rfl⟩ := List.cons.inj heq
    exact (h rfl).1 rfl
  · obtain ⟨rfl, rfl⟩ := List.cons.inj heq
    exact (h rfl).2 rfl

theorem commentFree_nil (zone : Zone) : CommentFree zone [] := by
  intro before behind heq hopens
  obtain ⟨-, rfl⟩ := List.append_eq_nil_iff.mp heq.symm
  rcases hopens.exists_eq with ⟨more, heq⟩ | ⟨more, heq⟩
  · contradiction
  · contradiction

theorem commentFree_cons :
    CommentFree zone (c :: s) ↔ ¬OpensComment zone (c :: s) ∧ CommentFree (zone.next c) s := by
  constructor
  · intro h
    refine ⟨h [] (c :: s) rfl, ?_⟩
    rintro before behind rfl
    exact h (c :: before) behind rfl
  · rintro ⟨hfirst, hrest⟩ before behind heq
    cases before with
    | nil =>
        rw [List.nil_append] at heq
        rw [← heq]
        exact hfirst
    | cons d before =>
        obtain ⟨rfl, rfl⟩ := List.cons.inj heq
        exact hrest before behind rfl

/-- Outside literals a line break or a space leaves the scan in code. -/
theorem commentFree_blank_cons (hzone : zone.inLiteral = false) (hc : c ∈ ['\n', ' '])
    (h : CommentFree .code s) : CommentFree zone (c :: s) := by
  have hc : c = '\n' ∨ c = ' ' := by simpa using hc
  have hnext : zone.next c = .code := by
    rcases hc with rfl | rfl <;> exact Zone.next_of_inLiteral hzone (by decide)
  refine commentFree_cons.mpr ⟨not_opensComment_cons ?_, ?_⟩
  · rcases hc with rfl | rfl <;> exact fun hslash => absurd hslash (by decide)
  · rw [hnext]
    exact h

theorem commentFree_breaks (h : CommentFree .code s) (n : ℕ) :
    CommentFree .code (List.replicate n '\n' ++ s) := by
  induction n with
  | zero => exact h
  | succ n ih => exact commentFree_blank_cons rfl (by simp) ih

/-! ## Dropping one comment -/

theorem dropComments_kept (h : ¬OpensComment zone (c :: s)) :
    dropComments (.program zone) (c :: s) = c :: dropComments (.program (zone.next c)) s := by
  by_cases hliteral : zone.inLiteral = true
  · exact dropComments_cons_of_inLiteral hliteral c s
  · have hcode : zone.isCode '/' = true :=
      Zone.isCode_iff.mpr ⟨by simpa using hliteral, by decide⟩
    refine dropComments_cons (parts_singleton_iff.mpr ⟨?_, ?_⟩) zone
    · rintro more rfl rfl
      exact h ⟨hcode, Or.inl ⟨more, rfl⟩⟩
    · rintro more rfl rfl
      exact h ⟨hcode, Or.inr ⟨more, rfl⟩⟩

theorem dropComments_line (h : zone.isCode '/' = true) (s : List Char) :
    dropComments (.program zone) ("//".toList ++ s) = dropComments .lineComment s := by
  change dropComments (.program zone) ('/' :: '/' :: s) = _
  rw [dropComments, if_pos h]

theorem dropComments_block (h : zone.isCode '/' = true) (s : List Char) :
    dropComments (.program zone) ("/*".toList ++ s) = ' ' :: dropComments .blockComment s := by
  change dropComments (.program zone) ('/' :: '*' :: s) = _
  rw [dropComments, if_pos h]

theorem dropComments_lineComment (h : '\n' ∉ s) (t : List Char) :
    dropComments .lineComment (s ++ '\n' :: t) = '\n' :: stripComments t := by
  induction s with
  | nil => rfl
  | cons c rest ih =>
      rw [List.mem_cons, not_or] at h
      rw [List.cons_append, dropComments, if_neg (Ne.symm h.1), ih h.2]

theorem dropComments_lastLine (h : '\n' ∉ s) : dropComments .lineComment s = [] := by
  induction s with
  | nil => rfl
  | cons c rest ih =>
      rw [List.mem_cons, not_or] at h
      rw [dropComments, if_neg (Ne.symm h.1), ih h.2]

/-- A character of a block comment that does not begin the closing mark. -/
theorem dropComments_blockComment_cons
    (h : ∀ more, c = '*' → s = '/' :: more → False) :
    dropComments .blockComment (c :: s) =
      List.replicate ([c].count '\n') '\n' ++ dropComments .blockComment s := by
  rw [dropComments.eq_7 _ _ h]
  by_cases hc : c = '\n'
  · rw [if_pos hc, hc]
    rfl
  · rw [if_neg hc, List.count_singleton, if_neg (by simpa using hc)]
    rfl

theorem replicate_count_cons (c : Char) (s t : List Char) :
    List.replicate ([c].count '\n') '\n' ++ (List.replicate (s.count '\n') '\n' ++ t) =
      List.replicate ((c :: s).count '\n') '\n' ++ t := by
  rw [← List.append_assoc, List.replicate_append_replicate, ← List.count_append]
  rfl

theorem dropComments_blockComment (h : occursIn "*/".toList s = false) (t : List Char) :
    dropComments .blockComment (s ++ ("*/".toList ++ t)) =
      List.replicate (s.count '\n') '\n' ++ stripComments t := by
  induction s with
  | nil => rfl
  | cons c rest ih =>
      rw [occursIn, Bool.or_eq_false_iff] at h
      -- a star at the end of the comment is not the one that closes it
      have hopen : ∀ more, c = '*' → rest ++ ("*/".toList ++ t) = '/' :: more → False := by
        rintro more rfl heq
        cases rest with
        | nil => exact absurd (List.cons.inj heq).1 (by decide)
        | cons d rest =>
            obtain ⟨rfl, -⟩ := List.cons.inj heq
            exact absurd h.1 (by simp)
      rw [List.cons_append, dropComments_blockComment_cons hopen, ih h.2, replicate_count_cons]

theorem dropComments_lastBlock (h : occursIn "*/".toList s = false) :
    dropComments .blockComment s = List.replicate (s.count '\n') '\n' := by
  induction s with
  | nil => rfl
  | cons c rest ih =>
      rw [occursIn, Bool.or_eq_false_iff] at h
      have hopen : ∀ more, c = '*' → rest = '/' :: more → False := by
        rintro more rfl rfl
        exact absurd h.1 (by simp)
      have hbreaks := replicate_count_cons c rest []
      rw [List.append_nil, List.append_nil] at hbreaks
      rw [dropComments_blockComment_cons hopen, ih h.2, hbreaks]

end Opening

/-! ## Dropping all comments -/

/-- What is left of a text that is read from a zone on without its comments. -/
inductive Stripped : Zone → List Char → List Char → Prop where
  | nil (zone : Zone) : Stripped zone [] []
  /-- A character with which no comment opens stays. -/
  | kept {zone : Zone} {c : Char} {s t : List Char} (hopens : ¬OpensComment zone (c :: s))
    (hrest : Stripped (zone.next c) s t) : Stripped zone (c :: s) (c :: t)
  /-- A line comment leaves the line break that ends it. -/
  | line {zone : Zone} {note s t : List Char} (hcode : zone.isCode '/' = true)
    (hnote : '\n' ∉ note) (hrest : Stripped .code s t) :
    Stripped zone ("//".toList ++ (note ++ '\n' :: s)) ('\n' :: t)
  /-- A line comment at the end of the text leaves nothing. -/
  | lastLine {zone : Zone} {note : List Char} (hcode : zone.isCode '/' = true)
    (hnote : '\n' ∉ note) : Stripped zone ("//".toList ++ note) []
  /-- A block comment leaves a space and the line breaks it held. -/
  | block {zone : Zone} {note s t : List Char} (hcode : zone.isCode '/' = true)
    (hnote : occursIn "*/".toList note = false) (hrest : Stripped .code s t) :
    Stripped zone ("/*".toList ++ (note ++ ("*/".toList ++ s)))
      (' ' :: (List.replicate (note.count '\n') '\n' ++ t))
  /-- So does a block comment that is never closed. -/
  | lastBlock {zone : Zone} {note : List Char} (hcode : zone.isCode '/' = true)
    (hnote : occursIn "*/".toList note = false) :
    Stripped zone ("/*".toList ++ note) (' ' :: List.replicate (note.count '\n') '\n')

namespace Stripped

variable {zone : Zone} {s t : List Char}

theorem dropComments_eq (h : Stripped zone s t) : dropComments (.program zone) s = t := by
  induction h with
  | nil zone => rfl
  | kept hopens hrest ih => rw [dropComments_kept hopens, ih]
  | line hcode hnote hrest ih =>
      rw [dropComments_line hcode, dropComments_lineComment hnote, stripComments, ih]
  | lastLine hcode hnote => rw [dropComments_line hcode, dropComments_lastLine hnote]
  | block hcode hnote hrest ih =>
      rw [dropComments_block hcode, dropComments_blockComment hnote, stripComments, ih]
  | lastBlock hcode hnote => rw [dropComments_block hcode, dropComments_lastBlock hnote]

theorem count_newline (h : Stripped zone s t) : t.count '\n' = s.count '\n' := by
  induction h with
  | nil zone => rfl
  | kept hopens hrest ih => rw [List.count_cons, List.count_cons, ih]
  | line hcode hnote hrest ih => simp [List.count_eq_zero_of_not_mem hnote, ih]
  | lastLine hcode hnote => simp [List.count_eq_zero_of_not_mem hnote]
  | block hcode hnote hrest ih => simp [ih]
  | lastBlock hcode hnote => simp

/-- Only a blank comes to the front that did not stand there. -/
theorem head?_eq {d : Char} (h : Stripped zone s (d :: t)) (hd : d ∉ ['\n', ' ']) :
    s.head? = some d := by
  cases h with
  | kept hopens hrest => rfl
  | line hcode hnote hrest => exact absurd hd (by simp)
  | block hcode hnote hrest => exact absurd hd (by simp)
  | lastBlock hcode hnote => exact absurd hd (by simp)

/-- No comment opens in what is left. -/
theorem commentFree (h : Stripped zone s t) : CommentFree zone t := by
  induction h with
  | nil zone => exact commentFree_nil zone
  | @kept zone c s t hopens hrest ih =>
      refine commentFree_cons.mpr ⟨?_, ih⟩
      rintro ⟨hcode, hmark⟩
      -- the mark stands in the text as well
      apply hopens
      rcases hmark with ⟨more, heq⟩ | ⟨more, heq⟩
      · obtain ⟨rfl, rfl⟩ := List.cons.inj heq
        obtain ⟨rest, rfl⟩ := List.head?_eq_some_iff.mp (hrest.head?_eq (by decide))
        exact ⟨hcode, Or.inl ⟨rest, rfl⟩⟩
      · obtain ⟨rfl, rfl⟩ := List.cons.inj heq
        obtain ⟨rest, rfl⟩ := List.head?_eq_some_iff.mp (hrest.head?_eq (by decide))
        exact ⟨hcode, Or.inr ⟨rest, rfl⟩⟩
  | line hcode hnote hrest ih =>
      exact commentFree_blank_cons (Zone.isCode_iff.mp hcode).1 (by simp) ih
  | lastLine hcode hnote => exact commentFree_nil _
  | block hcode hnote hrest ih =>
      exact commentFree_blank_cons (Zone.isCode_iff.mp hcode).1 (by simp) (commentFree_breaks ih _)
  | lastBlock hcode hnote =>
      have hbreaks := commentFree_breaks (commentFree_nil .code)
      simp only [List.append_nil] at hbreaks
      exact commentFree_blank_cons (Zone.isCode_iff.mp hcode).1 (by simp) (hbreaks _)

end Stripped

/-- A text without the closing mark of a block comment, or the part of it in
front of the first one. -/
theorem exists_first_closing (s : List Char) :
    occursIn "*/".toList s = false ∨
      ∃ note rest, s = note ++ ("*/".toList ++ rest) ∧ occursIn "*/".toList note = false := by
  induction s with
  | nil => exact Or.inl rfl
  | cons c s ih =>
      by_cases hfirst : "*/".toList.isPrefixOf (c :: s) = true
      · obtain ⟨rest, heq⟩ := List.isPrefixOf_iff_prefix.mp hfirst
        exact Or.inr ⟨[], rest, heq.symm, rfl⟩
      · rcases ih with hnone | ⟨note, rest, rfl, hnote⟩
        · left
          rw [occursIn, hnone, Bool.or_false, Bool.eq_false_iff]
          exact hfirst
        · refine Or.inr ⟨c :: note, rest, rfl, ?_⟩
          rw [occursIn, hnote, Bool.or_false, Bool.eq_false_iff]
          intro hstart
          apply hfirst
          rw [List.isPrefixOf_iff_prefix] at hstart ⊢
          exact hstart.trans (List.prefix_append (c :: note) ("*/".toList ++ rest))

theorem stripped_dropComments (zone : Zone) (s : List Char) :
    Stripped zone s (dropComments (.program zone) s) := by
  induction hlength : s.length using Nat.strong_induction_on generalizing zone s with
  | _ n ih =>
    subst hlength
    have hrest : ∀ before rest, s = before ++ rest → before ≠ [] → ∀ zone,
        Stripped zone rest (dropComments (.program zone) rest) := by
      rintro before rest rfl hbefore zone
      have := List.length_pos_iff.mpr hbefore
      exact ih rest.length (by rw [List.length_append]; omega) zone rest rfl
    by_cases hopens : OpensComment zone s
    · obtain ⟨hcode, ⟨more, rfl⟩ | ⟨more, rfl⟩⟩ := hopens
      · rw [dropComments_line hcode]
        by_cases hline : '\n' ∈ more
        · obtain ⟨note, rest, rfl, hnote⟩ := List.eq_append_cons_of_mem hline
          rw [dropComments_lineComment hnote]
          exact .line hcode hnote
            (hrest ("//".toList ++ (note ++ ['\n'])) rest (by simp) (by simp) .code)
        · rw [dropComments_lastLine hline]
          exact .lastLine hcode hline
      · rw [dropComments_block hcode]
        rcases exists_first_closing more with hnone | ⟨note, rest, rfl, hnote⟩
        · rw [dropComments_lastBlock hnone]
          exact .lastBlock hcode hnone
        · rw [dropComments_blockComment hnote]
          exact .block hcode hnote
            (hrest ("/*".toList ++ (note ++ "*/".toList)) rest (by simp) (by simp) .code)
    · cases s with
      | nil => exact .nil zone
      | cons c s =>
          rw [dropComments_kept hopens]
          exact .kept hopens (hrest [c] s rfl (by simp) (zone.next c))

theorem dropComments_of_commentFree {zone : Zone} {s : List Char} (h : CommentFree zone s) :
    dropComments (.program zone) s = s := by
  induction s generalizing zone with
  | nil => rfl
  | cons c s ih =>
      obtain ⟨hfirst, hrest⟩ := commentFree_cons.mp h
      rw [dropComments_kept hfirst, ih hrest]

/-- Exactly the comments of a text are dropped: what is left is the text with a
line break in place of each line comment, and a space and the comment's line
breaks in place of each block comment. No line break is lost, no comment opens
in what is left, and dropping comments again changes nothing. -/
theorem stripComments_exact (s : List Char) :
    (∀ t, stripComments s = t ↔ Stripped .code s t) ∧
      (stripComments s).count '\n' = s.count '\n' ∧
      CommentFree .code (stripComments s) ∧
      stripComments (stripComments s) = stripComments s := by
  have hstripped : Stripped .code s (stripComments s) := stripped_dropComments .code s
  refine ⟨?_, hstripped.count_newline, hstripped.commentFree,
    dropComments_of_commentFree hstripped.commentFree⟩
  intro t
  constructor
  · rintro rfl
    exact hstripped
  · exact Stripped.dropComments_eq

example :
    stripComments "u = \"//\"; /* a\nb */v / w; // x".toList =
      "u = \"//\";  \nv / w; ".toList := by
  decide

end ClassAtlas.Source
