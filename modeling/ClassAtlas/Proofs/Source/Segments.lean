import ClassAtlas.Source.Statement
import ClassAtlas.Proofs.Source.Depth

/-!
# Segments of source text

The structure of a body is read in four scans: comments are dropped, literals
masked, the closing brace is looked for, and inner blocks are shrunk to their
braces. A segment is a text that every one of these scans leaves in code and at
the depth at which it was entered; so the scans of a text made of segments are
put together from the scans of the segments.

Balanced code is the source of segments: its braces match, its literals are
closed, those between quotes on their own line, and it has no comments.
-/

namespace ClassAtlas.Source

/-! ## Texts without comments -/

theorem length_dropComments_le (region : Region) (s : List Char) :
    (dropComments region s).length ≤ s.length := by
  fun_induction dropComments region s <;> simp_all <;> omega

/-- Behind a text without comments, comments are dropped as if the text behind
it stood alone in the zone where the first one ends. -/
theorem dropComments_append_of_eq_self {zone : Zone} {s t : List Char}
    (h : dropComments (.program zone) s = s) (hparts : Parts s t) :
    dropComments (.program zone) (s ++ t) = s ++ dropComments (.program (zone.after s)) t := by
  induction s generalizing zone with
  | nil => rfl
  | cons c rest ih =>
      by_cases hliteral : zone.inLiteral = true
      · rw [dropComments_cons_of_inLiteral hliteral] at h
        rw [List.cons_append, dropComments_cons_of_inLiteral hliteral,
          ih (List.cons.inj h).2 hparts.tail]
        rfl
      · by_cases hfirst : Parts [c] rest
        · rw [dropComments_cons hfirst] at h
          rw [List.cons_append, dropComments_cons (hparts.singleton_append hfirst),
            ih (List.cons.inj h).2 hparts.tail]
          rfl
        · -- here a comment begins, and dropping it would change the text
          have hcode : zone.isCode '/' = true :=
            Zone.isCode_iff.mpr ⟨by simpa using hliteral, by decide⟩
          rw [parts_singleton_iff, not_and_or] at hfirst
          push Not at hfirst
          rcases hfirst with ⟨more, rfl, rfl, -⟩ | ⟨more, rfl, rfl, -⟩
          · rw [dropComments, if_pos hcode] at h
            have hlength := length_dropComments_le .lineComment more
            rw [h, List.length_cons, List.length_cons] at hlength
            omega
          · rw [dropComments, if_pos hcode] at h
            exact absurd (List.cons.inj h).1 (by decide)

/-! ## Balanced code -/

/-- Whether the scan stands inside a literal between quotes. -/
def Zone.inQuotes : Zone → Bool
  | quoted _ _ => true
  | _ => false

/-- The zone and the depth in which a scan over braces ends, unless a brace
closes what was not opened or a line ends inside a literal between quotes. -/
def braces : Zone → ℕ → List Char → Option (Zone × ℕ)
  | zone, depth, [] => some (zone, depth)
  | zone, depth, c :: rest =>
    if zone.isCode c && c == '{' then braces (zone.next c) (depth + 1) rest
    else if zone.isCode c && c == '}' then
      match depth with
      | 0 => none
      | outer + 1 => braces (zone.next c) outer rest
    else if zone.inQuotes && c == '\n' then none
    else braces (zone.next c) depth rest

/-- What the first character of a text does to a scan over braces. -/
theorem braces_cons {zone zone' : Zone} {depth depth' : ℕ} {c : Char} {rest : List Char}
    (h : braces zone depth (c :: rest) = some (zone', depth')) :
    (zone.isCode c = true ∧ c = '{' ∧
        braces (zone.next c) (depth + 1) rest = some (zone', depth')) ∨
      (zone.isCode c = true ∧ c = '}' ∧
        ∃ outer, depth = outer + 1 ∧ braces (zone.next c) outer rest = some (zone', depth')) ∨
      ((zone.isCode c && c == '{') = false ∧ (zone.isCode c && c == '}') = false ∧
        (zone.inQuotes && c == '\n') = false ∧
        braces (zone.next c) depth rest = some (zone', depth')) := by
  unfold braces at h
  by_cases hopen : (zone.isCode c && c == '{') = true
  · rw [if_pos hopen] at h
    rw [Bool.and_eq_true, beq_iff_eq] at hopen
    exact Or.inl ⟨hopen.1, hopen.2, h⟩
  rw [if_neg hopen] at h
  by_cases hclose : (zone.isCode c && c == '}') = true
  · rw [if_pos hclose] at h
    rw [Bool.and_eq_true, beq_iff_eq] at hclose
    cases depth with
    | zero => contradiction
    | succ outer => exact Or.inr (Or.inl ⟨hclose.1, hclose.2, outer, rfl, h⟩)
  rw [if_neg hclose] at h
  by_cases hline : (zone.inQuotes && c == '\n') = true
  · rw [if_pos hline] at h
    contradiction
  rw [if_neg hline] at h
  exact Or.inr (Or.inr ⟨by simpa using hopen, by simpa using hclose, by simpa using hline, h⟩)

theorem braces_zone {zone zone' : Zone} {depth depth' : ℕ} {s : List Char}
    (h : braces zone depth s = some (zone', depth')) : zone.after s = zone' := by
  induction s generalizing zone depth with
  | nil => exact (Prod.mk.inj (Option.some.inj h)).1
  | cons c rest ih =>
      rcases braces_cons h with ⟨-, -, h⟩ | ⟨-, -, outer, -, h⟩ | ⟨-, -, -, h⟩
      · exact ih h
      · exact ih h
      · exact ih h

/-! ### Matching braces -/

section Steps

variable {zone : Zone} {c : Char} (depth : ℕ) (rest : List Char)

theorem braces_open (hcode : zone.isCode '{' = true) :
    braces zone depth ('{' :: rest) = braces (zone.next '{') (depth + 1) rest := by
  rw [braces.eq_def]
  simp [hcode]

theorem braces_close (hcode : zone.isCode '}' = true) :
    braces zone (depth + 1) ('}' :: rest) = braces (zone.next '}') depth rest := by
  rw [braces.eq_def]
  simp [hcode]

theorem braces_other (hopen : (zone.isCode c && c == '{') = false)
    (hclose : (zone.isCode c && c == '}') = false) (hline : (zone.inQuotes && c == '\n') = false) :
    braces zone depth (c :: rest) = braces (zone.next c) depth rest := by
  rw [braces.eq_def]
  simp only [hopen, hclose, hline]
  rfl

/-- Inside a literal, braces are text. -/
theorem braces_literal (h : zone.inLiteral = true) (hline : (zone.inQuotes && c == '\n') = false) :
    braces zone depth (c :: rest) = braces (zone.next c) depth rest := by
  have hcode : zone.isCode c = false := by simp [Zone.isCode, h]
  exact braces_other depth rest (by rw [hcode]; rfl) (by rw [hcode]; rfl) hline

end Steps

/-- A scan over braces closes no block that was not open, and ends at the depth
that the balance gives. -/
theorem braces_balance {zone zone' : Zone} {depth depth' : ℕ} {s : List Char}
    (h : braces zone depth s = some (zone', depth')) :
    StaysOpen '{' '}' zone depth s ∧ depth + balance '{' '}' zone s = depth' := by
  induction s generalizing zone depth with
  | nil =>
      obtain ⟨-, rfl⟩ := Prod.mk.inj (Option.some.inj h)
      exact ⟨staysOpen_nil, Int.add_zero depth⟩
  | cons c rest ih =>
      rw [staysOpen_cons, balance]
      rcases braces_cons h with
        ⟨hcode, rfl, hrest⟩ | ⟨hcode, rfl, outer, rfl, hrest⟩ | ⟨hopen, hclose, -, hrest⟩
      · obtain ⟨hstays, hdepth⟩ := ih hrest
        rw [codeStep_opening hcode]
        exact ⟨⟨depth + 1, rfl, hstays⟩, by omega⟩
      · obtain ⟨hstays, hdepth⟩ := ih hrest
        rw [codeStep_closing (by decide) hcode]
        exact ⟨⟨outer, by omega, hstays⟩, by omega⟩
      · obtain ⟨hstays, hdepth⟩ := ih hrest
        rw [codeStep, hopen, hclose]
        exact ⟨⟨depth, Int.add_zero depth, hstays⟩, by simpa using hdepth⟩

theorem depthAfter_of_braces {zone zone' : Zone} {depth depth' : ℕ} {s : List Char}
    (h : braces zone depth s = some (zone', depth')) : depthAfter zone depth s = depth' := by
  obtain ⟨hopen, hdepth⟩ := braces_balance h
  have hafter := depthAfter_of_staysOpen hopen
  omega

theorem projectFrom_append_of_braces {zone zone' : Zone} {depth depth' : ℕ} {s : List Char}
    (h : braces zone depth s = some (zone', depth')) (t : List Char) :
    projectFrom zone depth (s ++ t) =
      projectFrom zone depth s ++ projectFrom zone' depth' t := by
  rw [projectFrom_append, braces_zone h, depthAfter_of_braces h]

/-- A list in brackets of any kind, without inner brackets and literals. -/
theorem splitBlock?_append {opening closing : Char} (hclosing : Zone.isQuote closing = false)
    {s : List Char} (h : ∀ c ∈ s, Zone.isQuote c = false ∧ c ≠ opening ∧ c ≠ closing)
    (t : List Char) :
    splitBlock? opening closing (opening :: (s ++ closing :: t)) = some (s, t) := by
  have hcode : ∀ {c : Char}, Zone.isQuote c = false → Zone.code.isCode c = true := fun hc =>
    Zone.isCode_iff.mpr ⟨rfl, hc⟩
  have hfrom : closingFrom opening closing .code 0 (s ++ closing :: t) = some s.length := by
    induction s with
    | nil =>
        rw [List.nil_append, closingFrom.eq_def]
        simp [hcode hclosing]
    | cons c s ih =>
        obtain ⟨⟨hquote, hopen, hclose⟩, hs⟩ := List.forall_mem_cons.mp h
        rw [List.cons_append, closingFrom.eq_def]
        simp [hopen, hclose, Zone.next_of_isCode (hcode hquote), ih hs]
  simp [splitBlock?, hfrom]

/-! ## Masked code -/

namespace Zone

/-- Where a scan of the masked text stands when the scan of the text stands in a
zone: backslashes between quotes are masked. -/
def masked : Zone → Zone
  | quoted quote .escaped => quoted quote .inside
  | zone => zone

/-- Literals are opened by quotes only. -/
def IsProper : Zone → Prop
  | quoted quote _ => isQuote quote = true
  | _ => True

theorem IsProper.next {zone : Zone} (h : zone.IsProper) (c : Char) : (zone.next c).IsProper := by
  fun_cases Zone.next zone c <;> simp_all [IsProper]

theorem keeps_of_not_inLiteral {zone : Zone} (h : zone.inLiteral = false) (c : Char) :
    zone.keeps c = true := by
  by_cases hquote : isQuote c = true
  · have hnext : (zone.next c).inLiteral = true := by
      fun_cases Zone.next zone c <;> simp_all [inLiteral, isQuote]
    simp [keeps, hnext, h]
  · simp [keeps, isCode, h, hquote]

theorem masked_next_of_not_inLiteral {zone : Zone} (h : zone.inLiteral = false) (c : Char) :
    (zone.next c).masked = zone.next c := by
  fun_cases Zone.next zone c <;> simp_all [masked, inLiteral]

theorem inLiteral_masked (zone : Zone) : zone.masked.inLiteral = zone.inLiteral := by
  fun_cases masked zone <;> rfl

theorem inQuotes_masked (zone : Zone) : zone.masked.inQuotes = zone.inQuotes := by
  fun_cases masked zone <;> rfl

theorem masked_of_not_inLiteral {zone : Zone} (h : zone.inLiteral = false) :
    zone.masked = zone := by
  cases zone <;> simp_all [masked, inLiteral]

theorem next_textBlock (escaped : Bool) (quotes : ℕ) (c : Char) :
    ((textBlock escaped quotes).next c).masked = (textBlock escaped quotes).next c := by
  cases escaped with
  | true => rfl
  | false =>
      rw [Zone.next]
      split
      · rfl
      · split
        · split <;> rfl
        · rfl

theorem keeps_quoted {quote c : Char} {progress : Quoted} (hc : c ≠ '\n') :
    (quoted quote progress).keeps c = !((quoted quote progress).next c).inLiteral := by
  simp [keeps, isCode, inLiteral, inTextBlock, hc]

theorem next_quoted {quote c : Char} {progress : Quoted}
    (h : ((quoted quote progress).next c).inLiteral = true) :
    ((quoted quote progress).next c).masked = quoted quote .inside := by
  by_cases hescaped : progress = .escaped
  · rw [hescaped]
    rfl
  rw [next.eq_4 _ _ _ hescaped] at h ⊢
  by_cases hc : c = '\\'
  · rw [if_pos hc]
    rfl
  rw [if_neg hc] at h ⊢
  by_cases hend : (decide (c = quote) || decide (c = '\n')) = true
  · rw [if_pos hend] at h
    split at h <;> contradiction
  · rw [if_neg hend]
    rfl

/-- Whether a character ends the line of a literal between quotes without
closing the literal: it is a line break behind a backslash. -/
def splices : Zone → Char → Bool
  | quoted _ .escaped, c => c == '\n'
  | _, _ => false

theorem splices_of_inQuotes {zone : Zone} {c : Char} (h : (zone.inQuotes && c == '\n') = false) :
    zone.splices c = false := by
  fun_cases splices zone c with
  | case1 => exact h
  | case2 => rfl

theorem next_masked_of_keeps {zone : Zone} {c : Char} (h : zone.inLiteral = true)
    (hkeeps : zone.keeps c = true) (hline : zone.splices c = false) :
    zone.masked.next c = (zone.next c).masked := by
  cases zone with
  | code => contradiction
  | afterEmpty => contradiction
  | textBlock escaped quotes => exact (next_textBlock escaped quotes c).symm
  | quoted quote progress =>
      by_cases hc : c = '\n'
      · subst hc
        cases progress with
        | escaped => contradiction
        | opened => simp [masked, next]
        | inside => simp [masked, next]
      rw [keeps_quoted hc, Bool.not_eq_true'] at hkeeps
      rw [masked_of_not_inLiteral hkeeps]
      cases progress with
      | escaped => contradiction
      | opened => rfl
      | inside => rfl

theorem next_masked_space {zone : Zone} {c : Char} (h : zone.inLiteral = true)
    (hproper : zone.IsProper) (hmasked : zone.keeps c = false) :
    zone.masked.next ' ' = (zone.next c).masked ∧
      (zone.next c).masked.next ' ' = (zone.next c).masked := by
  cases zone with
  | code => contradiction
  | afterEmpty => contradiction
  | textBlock escaped quotes =>
      have hc : c ≠ '"' ∧ c ≠ '\\' := by
        simp only [keeps, inTextBlock, Bool.or_eq_false_iff] at hmasked
        simpa using hmasked.1.2
      have hnext : (textBlock escaped quotes).next c = textBlock false 0 := by
        cases escaped <;> simp [next, hc]
      rw [hnext]
      cases escaped <;> exact ⟨rfl, rfl⟩
  | quoted quote progress =>
      have hquote : ' ' ≠ quote := by
        rintro rfl
        contradiction
      have hc : c ≠ '\n' := by
        rintro rfl
        simp [keeps] at hmasked
      rw [keeps_quoted hc, Bool.not_eq_false'] at hmasked
      rw [next_quoted hmasked]
      have hspace : ∀ progress', progress' ≠ .escaped →
          (quoted quote progress').next ' ' = quoted quote .inside := by
        intro progress' hprogress
        rw [next.eq_4 _ _ _ hprogress]
        simp [hquote]
      refine ⟨?_, hspace .inside (by decide)⟩
      cases progress with
      | escaped => exact hspace .inside (by decide)
      | opened => exact hspace .opened (by decide)
      | inside => exact hspace .inside (by decide)

end Zone

theorem braces_spaces {zone : Zone} (h : zone.inLiteral = true) (hstays : zone.next ' ' = zone)
    (depth n : ℕ) (t : List Char) :
    braces zone depth (List.replicate n ' ' ++ t) = braces zone depth t := by
  induction n with
  | zero => rfl
  | succ n ih =>
      have hline : (zone.inQuotes && ' ' == '\n') = false := by simp
      rw [List.replicate_succ, List.cons_append, braces_literal depth _ h hline, hstays, ih]

/-- What a character of a literal becomes takes the scan where the character
takes it. -/
theorem braces_masked {zone : Zone} {c : Char} (h : zone.inLiteral = true)
    (hproper : zone.IsProper) (hline : (zone.inQuotes && c == '\n') = false) (depth : ℕ)
    (t : List Char) :
    braces zone.masked depth
        ((if zone.keeps c then [c] else List.replicate c.utf8Size ' ') ++ t) =
      braces (zone.next c).masked depth t := by
  have hmasked : zone.masked.inLiteral = true := by rw [Zone.inLiteral_masked, h]
  by_cases hkeeps : zone.keeps c = true
  · have hsplices := Zone.splices_of_inQuotes hline
    rw [← Zone.inQuotes_masked] at hline
    rw [if_pos hkeeps, List.singleton_append, braces_literal depth t hmasked hline,
      Zone.next_masked_of_keeps h hkeeps hsplices]
  · have hkeeps : zone.keeps c = false := by simpa using hkeeps
    obtain ⟨hspace, hstays⟩ := Zone.next_masked_space h hproper hkeeps
    have hnext : (zone.next c).masked.inLiteral = true := by
      rw [Zone.inLiteral_masked]
      simpa [Zone.keeps, h] using (Bool.or_eq_false_iff.mp hkeeps).2
    have hsize : c.utf8Size = c.utf8Size - 1 + 1 := (Nat.sub_add_cancel c.utf8Size_pos).symm
    rw [if_neg (by simp [hkeeps]), hsize, List.replicate_succ, List.cons_append,
      braces_literal depth _ hmasked (by simp), hspace, braces_spaces hnext hstays]

/-- A scan over the braces of a masked text ends as the scan over the braces of
the text. -/
theorem braces_maskFrom {zone zone' : Zone} {depth depth' : ℕ} {s : List Char}
    (hproper : zone.IsProper) (h : braces zone depth s = some (zone', depth')) :
    braces zone.masked depth (maskFrom zone s) = some (zone'.masked, depth') := by
  induction s generalizing zone depth with
  | nil =>
      obtain ⟨rfl, rfl⟩ := Prod.mk.inj (Option.some.inj h)
      rfl
  | cons c rest ih =>
      rw [maskFrom]
      by_cases hliteral : zone.inLiteral = true
      · have hcode : zone.isCode c = false := by simp [Zone.isCode, hliteral]
        rcases braces_cons h with ⟨htrue, -, -⟩ | ⟨htrue, -, -⟩ | ⟨-, -, hline, hrest⟩
        · exact absurd htrue (by simp [hcode])
        · exact absurd htrue (by simp [hcode])
        · rw [braces_masked hliteral hproper hline, ih (hproper.next c) hrest]
      · have hliteral : zone.inLiteral = false := by simpa using hliteral
        have hnext := Zone.masked_next_of_not_inLiteral hliteral c
        rw [if_pos (Zone.keeps_of_not_inLiteral hliteral c),
          Zone.masked_of_not_inLiteral hliteral, List.singleton_append]
        rcases braces_cons h with
          ⟨hcode, rfl, hrest⟩ | ⟨hcode, rfl, outer, rfl, hrest⟩ | ⟨hopen, hclose, hline, hrest⟩
        · have hmore := ih (hproper.next _) hrest
          rw [hnext] at hmore
          rw [braces_open depth _ hcode, hmore]
        · have hmore := ih (hproper.next _) hrest
          rw [hnext] at hmore
          rw [braces_close outer _ hcode, hmore]
        · have hmore := ih (hproper.next _) hrest
          rw [hnext] at hmore
          rw [braces_other depth _ hopen hclose hline, hmore]

/-! ## Segments -/

theorem braces_append {zone zone' : Zone} {depth depth' : ℕ} {s : List Char}
    (h : braces zone depth s = some (zone', depth')) (t : List Char) :
    braces zone depth (s ++ t) = braces zone' depth' t := by
  induction s generalizing zone depth with
  | nil =>
      obtain ⟨rfl, rfl⟩ := Prod.mk.inj (Option.some.inj h)
      rfl
  | cons c rest ih =>
      rcases braces_cons h with
        ⟨hcode, rfl, hrest⟩ | ⟨hcode, rfl, outer, rfl, hrest⟩ | ⟨hopen, hclose, hline, hrest⟩
      · rw [List.cons_append, braces_open depth _ hcode, ih hrest]
      · rw [List.cons_append, braces_close outer _ hcode, ih hrest]
      · rw [List.cons_append, braces_other depth _ hopen hclose hline, ih hrest]

/-- The same scan one block deeper. -/
theorem braces_inner {zone zone' : Zone} {depth depth' : ℕ} {s : List Char}
    (h : braces zone depth s = some (zone', depth')) :
    braces zone (depth + 1) s = some (zone', depth' + 1) := by
  induction s generalizing zone depth with
  | nil =>
      obtain ⟨rfl, rfl⟩ := Prod.mk.inj (Option.some.inj h)
      rfl
  | cons c rest ih =>
      rcases braces_cons h with
        ⟨hcode, rfl, hrest⟩ | ⟨hcode, rfl, outer, rfl, hrest⟩ | ⟨hopen, hclose, hline, hrest⟩
      · rw [braces_open _ _ hcode]
        exact ih hrest
      · rw [braces_close _ _ hcode]
        exact ih hrest
      · rw [braces_other _ _ hopen hclose hline]
        exact ih hrest

/-- The code of a text outside braces, literals masked. -/
def outline (s : List Char) : List Char :=
  project (maskLiterals s)

/-- A text that every scan enters and leaves in code at the same depth. -/
structure IsSegment (s : List Char) : Prop where
  comment_free : stripComments s = s
  last : s.getLast? ≠ some '/'
  closed : braces .code 0 s = some (.code, 0)

namespace IsSegment

variable {s t : List Char}

theorem parts (h : IsSegment s) (t : List Char) : Parts s t :=
  fun hlast => absurd hlast h.last

theorem stripComments_append (h : IsSegment s) (t : List Char) :
    stripComments (s ++ t) = s ++ stripComments t := by
  rw [stripComments, dropComments_append_of_eq_self h.comment_free (h.parts t),
    braces_zone h.closed]
  rfl

theorem maskLiterals_append (h : IsSegment s) (t : List Char) :
    maskLiterals (s ++ t) = maskLiterals s ++ maskLiterals t := by
  rw [maskLiterals, maskFrom_append, braces_zone h.closed]
  rfl

theorem braces_maskLiterals (h : IsSegment s) :
    braces .code 0 (maskLiterals s) = some (.code, 0) := by
  have hproper : Zone.code.IsProper := trivial
  exact braces_maskFrom hproper h.closed

theorem outline_append (h : IsSegment s) (t : List Char) :
    outline (s ++ t) = outline s ++ outline t := by
  rw [outline, h.maskLiterals_append, project, projectFrom_append_of_braces h.braces_maskLiterals]
  rfl

theorem append (hs : IsSegment s) (ht : IsSegment t) : IsSegment (s ++ t) where
  comment_free := by rw [hs.stripComments_append, ht.comment_free]
  last := by
    rw [List.getLast?_append]
    intro hlast
    rcases Option.or_eq_some_iff.mp hlast with hlast | ⟨-, hlast⟩
    · exact ht.last hlast
    · exact hs.last hlast
  closed := by rw [braces_append hs.closed, ht.closed]

end IsSegment

/-- A segment, and what is left of it when its literals are masked and its blocks
shrunk. -/
structure HasOutline (s shape : List Char) : Prop where
  isSegment : IsSegment s
  outline_eq : outline s = shape

theorem HasOutline.append {s t shape more : List Char} (hs : HasOutline s shape)
    (ht : HasOutline t more) : HasOutline (s ++ t) (shape ++ more) where
  isSegment := hs.isSegment.append ht.isSegment
  outline_eq := by rw [hs.isSegment.outline_append, hs.outline_eq, ht.outline_eq]

/-! ### Plain text -/

/-- A character without a meaning for any scan. -/
def isPlain (c : Char) : Bool :=
  !(['"', '\'', '/', '{', '}'].contains c)

theorem isPlain_iff {c : Char} :
    isPlain c = true ↔ c ≠ '"' ∧ c ≠ '\'' ∧ c ≠ '/' ∧ c ≠ '{' ∧ c ≠ '}' := by
  simp [isPlain]

section Plain

variable {zone : Zone} {c : Char} (h : isPlain c = true)
include h

theorem isCode_of_isPlain (hzone : zone.inLiteral = false) : zone.isCode c = true := by
  rw [isPlain_iff] at h
  simp [Zone.isCode, hzone, Zone.isQuote, h]

theorem dropComments_plain (zone : Zone) (rest : List Char) :
    dropComments (.program zone) (c :: rest) =
      c :: dropComments (.program (zone.next c)) rest := by
  rw [isPlain_iff] at h
  exact dropComments_cons (fun hlast => absurd (Option.some.inj hlast) h.2.2.1) zone

theorem braces_plain (hzone : zone.inLiteral = false) (depth : ℕ) (rest : List Char) :
    braces zone depth (c :: rest) = braces .code depth rest := by
  have hcode := isCode_of_isPlain h hzone
  have hquotes : zone.inQuotes = false := by
    cases zone with
    | quoted quote progress => contradiction
    | _ => rfl
  rw [isPlain_iff] at h
  rw [braces_other depth rest (by simp [h]) (by simp [h]) (by simp [hquotes]),
    Zone.next_of_isCode hcode]

theorem maskFrom_plain (hzone : zone.inLiteral = false) (rest : List Char) :
    maskFrom zone (c :: rest) = c :: maskLiterals rest := by
  rw [maskFrom, if_pos (Zone.keeps_of_not_inLiteral hzone c),
    Zone.next_of_isCode (isCode_of_isPlain h hzone)]
  rfl

theorem projectFrom_plain (hzone : zone.inLiteral = false) (rest : List Char) :
    projectFrom zone 0 (c :: rest) = c :: project rest := by
  have hcode := isCode_of_isPlain h hzone
  rw [isPlain_iff] at h
  have hdepth : depthStep zone 0 c = 0 := by simp [depthStep, codeStep, h]
  rw [projectFrom_cons, hdepth, if_pos (Or.inl rfl), Zone.next_of_isCode hcode]
  rfl

end Plain

theorem maskLiterals_of_plain {s : List Char} (h : ∀ c ∈ s, isPlain c = true) :
    maskLiterals s = s := by
  induction s with
  | nil => rfl
  | cons c rest ih =>
      obtain ⟨hc, hrest⟩ := List.forall_mem_cons.mp h
      rw [maskLiterals, maskFrom_plain hc rfl, ih hrest]

/-- Plain text is a segment, and all of it is outline. -/
theorem hasOutline_of_plain {s : List Char} (h : ∀ c ∈ s, isPlain c = true) :
    HasOutline s s := by
  have hscans : stripComments s = s ∧ braces .code 0 s = some (.code, 0) ∧ project s = s := by
    induction s with
    | nil => exact ⟨rfl, rfl, rfl⟩
    | cons c rest ih =>
        obtain ⟨hc, hrest⟩ := List.forall_mem_cons.mp h
        obtain ⟨hstrip, hbraces, hproject⟩ := ih hrest
        refine ⟨?_, ?_, ?_⟩
        · rw [stripComments, dropComments_plain hc, Zone.next_of_isCode (isCode_of_isPlain hc rfl)]
          exact congrArg (c :: ·) hstrip
        · rw [braces_plain hc rfl, hbraces]
        · rw [project, projectFrom_plain hc rfl, hproject]
  obtain ⟨hstrip, hbraces, hproject⟩ := hscans
  refine ⟨⟨hstrip, ?_, hbraces⟩, ?_⟩
  · intro hlast
    exact absurd (h '/' (List.mem_of_mem_getLast? hlast)) (by decide)
  · rw [outline, maskLiterals_of_plain h, hproject]

/-! ### Balanced code -/

/-- Code without comments in which braces and literals are closed. -/
structure Balanced (s : List Char) : Prop where
  comment_free : stripComments s = s
  closed : (braces .code 0 s).map (fun (zone, depth) => (zone.inLiteral, depth)) = some (false, 0)

instance (s : List Char) : Decidable (Balanced s) :=
  decidable_of_iff (stripComments s = s ∧
      (braces .code 0 s).map (fun (zone, depth) => (zone.inLiteral, depth)) = some (false, 0))
    ⟨fun h => ⟨h.1, h.2⟩, fun h => ⟨h.comment_free, h.closed⟩⟩

theorem IsSegment.balanced {s : List Char} (h : IsSegment s) : Balanced s where
  comment_free := h.comment_free
  closed := by
    rw [h.closed]
    rfl

namespace Balanced

variable {s : List Char}

theorem exists_zone (h : Balanced s) :
    ∃ zone, Zone.code.after s = zone ∧ zone.inLiteral = false ∧
      braces .code 0 s = some (zone, 0) ∧ braces .code 0 (maskLiterals s) = some (zone, 0) := by
  obtain ⟨⟨zone, depth⟩, hbraces, hclosed⟩ := Option.map_eq_some_iff.mp h.closed
  obtain ⟨hzone, rfl⟩ := Prod.mk.inj hclosed
  have hproper : Zone.code.IsProper := trivial
  have hmasked := braces_maskFrom hproper hbraces
  rw [Zone.masked_of_not_inLiteral hzone] at hmasked
  exact ⟨zone, braces_zone hbraces, hzone, hbraces, hmasked⟩

theorem maskLiterals_block (h : Balanced s) :
    maskLiterals ('{' :: (s ++ ['}'])) = '{' :: (maskLiterals s ++ ['}']) := by
  obtain ⟨zone, hafter, hzone, -, -⟩ := h.exists_zone
  have hnext : Zone.code.next '{' = .code := by decide
  rw [maskLiterals, maskFrom, hnext, maskFrom_append, hafter, maskFrom,
    if_pos (Zone.keeps_of_not_inLiteral hzone '}')]
  rfl

theorem nested_maskLiterals (h : Balanced s) : Nested '{' '}' (maskLiterals s) := by
  obtain ⟨zone, -, hzone, -, hmasked⟩ := h.exists_zone
  obtain ⟨hopen, hdepth⟩ := braces_balance hmasked
  refine ⟨?_, hopen, by omega⟩
  rw [braces_zone hmasked]
  exact hzone

/-- The brace that closes a block is found behind its masked inside. -/
theorem splitBlock?_maskLiterals (h : Balanced s) (t : List Char) :
    splitBlock? '{' '}' ('{' :: (maskLiterals s ++ '}' :: t)) = some (maskLiterals s, t) :=
  (splitBlock?_eq_some_iff (by decide) (by decide)).mpr ⟨rfl, h.nested_maskLiterals⟩

theorem after_outline (h : Balanced s) : (Zone.code.after (outline s)).inLiteral = false := by
  obtain ⟨zone, -, hzone, -, hmasked⟩ := h.exists_zone
  have hafter := after_projectFrom .code 0 (maskLiterals s)
  rw [braces_zone hmasked, depthAfter_of_braces hmasked] at hafter
  rw [← hzone]
  exact congrArg Zone.inLiteral hafter

/-- Balanced code with a plain character behind it is a segment. -/
theorem hasOutline_concat (h : Balanced s) {c : Char} (hc : isPlain c = true) (hstar : c ≠ '*') :
    HasOutline (s ++ [c]) (outline s ++ [c]) := by
  obtain ⟨zone, hafter, hzone, hbraces, hmasked⟩ := h.exists_zone
  have hslash : c ≠ '/' := (isPlain_iff.mp hc).2.2.1
  have hparts : Parts s [c] := fun _ => ⟨by simpa using hslash, by simpa using hstar⟩
  refine ⟨⟨?_, ?_, ?_⟩, ?_⟩
  · rw [stripComments, dropComments_append_of_eq_self h.comment_free hparts,
      dropComments_plain hc]
    rfl
  · simpa using hslash
  · rw [braces_append hbraces, braces_plain hc hzone]
    rfl
  · rw [outline, maskLiterals, maskFrom_append, hafter, maskFrom_plain hc hzone, project,
      ← maskLiterals, projectFrom_append_of_braces hmasked, projectFrom_plain hc hzone]
    rfl

/-- Balanced code between braces is a segment, and its outline is the braces. -/
theorem hasOutline_block (h : Balanced s) :
    HasOutline ('{' :: (s ++ ['}'])) ['{', '}'] := by
  obtain ⟨zone, -, hzone, hbraces, -⟩ := h.exists_zone
  have hclosing : zone.isCode '}' = true := Zone.isCode_iff.mpr ⟨hzone, by decide⟩
  have hparts : Parts s ['}'] := fun _ => ⟨by decide, by decide⟩
  have hfirst : Parts ['{'] (s ++ ['}']) := fun hlast => absurd hlast (by decide)
  have hnext : Zone.code.next '{' = .code := by decide
  refine ⟨⟨?_, ?_, ?_⟩, ?_⟩
  · rw [stripComments, dropComments_cons hfirst, hnext,
      dropComments_append_of_eq_self h.comment_free hparts,
      dropComments_cons (fun hlast => absurd hlast (by decide))]
    rfl
  · rw [← List.cons_append, List.getLast?_concat]
    decide
  · rw [braces_open 0 _ (by decide), hnext, braces_append (braces_inner hbraces),
      braces_close 0 _ hclosing, Zone.next_of_isCode hclosing]
    rfl
  · rw [outline, h.maskLiterals_block, project, projectFrom_block rfl h.nested_maskLiterals]
    rfl

end Balanced

end ClassAtlas.Source
