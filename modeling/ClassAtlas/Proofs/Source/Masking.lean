import ClassAtlas.Proofs.Source.Segments
import ClassAtlas.Proofs.Text.Bytes

/-!
# What masking keeps

Masking replaces characters one by one, each by itself or by as many spaces as
it has bytes, so every byte offset stays. Which of the two it is depends on
where the character stands: code stays, and what a literal holds goes.

A masked text is scanned again for its structure. That scan meets the same code
at the same offsets unless a line break stands behind a backslash in a literal
between quotes: masking takes the backslash away and keeps the line break, which
then ends the literal.
-/

namespace ClassAtlas.Source

open Text

/-- What masking makes of a character that is read at a zone. -/
def Zone.piece (zone : Zone) (c : Char) : List Char :=
  if zone.keeps c then [c] else List.replicate c.utf8Size ' '

theorem maskFrom_cons (zone : Zone) (c : Char) (rest : List Char) :
    maskFrom zone (c :: rest) = zone.piece c ++ maskFrom (zone.next c) rest := rfl

/-! ## Offsets -/

theorem byteLength_spaces (n : ℕ) : byteLength (List.replicate n ' ') = n := by
  induction n with
  | zero => rfl
  | succ n ih =>
      change ' '.utf8Size + byteLength (List.replicate n ' ') = n + 1
      rw [ih, Nat.add_comm]
      rfl

theorem Zone.byteLength_piece (zone : Zone) (c : Char) :
    byteLength (zone.piece c) = c.utf8Size := by
  rw [piece]
  split
  · rfl
  · exact byteLength_spaces c.utf8Size

theorem byteLength_maskFrom (zone : Zone) (s : List Char) :
    byteLength (maskFrom zone s) = byteLength s := by
  induction s generalizing zone with
  | nil => rfl
  | cons c rest ih =>
      rw [maskFrom_cons, byteLength_append, zone.byteLength_piece, ih]
      rfl

/-! ## Kept and replaced characters -/

namespace Zone

variable {zone : Zone} {c : Char}

theorem piece_of_keeps (h : zone.keeps c = true) : zone.piece c = [c] :=
  if_pos h

theorem piece_of_not_keeps (h : zone.keeps c = false) :
    zone.piece c = List.replicate c.utf8Size ' ' :=
  if_neg (by simp [h])

theorem keeps_of_isCode (h : zone.isCode c = true) : zone.keeps c = true := by
  simp [keeps, h]

theorem keeps_newline (zone : Zone) : zone.keeps '\n' = true := by
  simp [keeps]

/-- A literal between quotes loses what stands between its delimiters. -/
theorem not_keeps_of_inQuotes (h : zone.inQuotes = true)
    (hinside : (zone.next c).inLiteral = true) (hc : c ≠ '\n') : zone.keeps c = false := by
  cases zone with
  | code => contradiction
  | afterEmpty => contradiction
  | textBlock escaped quotes => contradiction
  | quoted quote progress => rw [keeps_quoted hc, hinside, Bool.not_true]

/-- Only a double quote can close a text block, so every other character stays
inside. -/
theorem not_keeps_of_inTextBlock (h : zone.inTextBlock = true) (hc : c ∉ ['\n', '"', '\\']) :
    zone.keeps c = false := by
  cases zone with
  | code => contradiction
  | afterEmpty => contradiction
  | quoted quote progress => contradiction
  | textBlock escaped quotes =>
      simp only [List.mem_cons, List.not_mem_nil, or_false, not_or] at hc
      obtain ⟨hline, hquote, hbackslash⟩ := hc
      have hnext : ((textBlock escaped quotes).next c).inLiteral = true := by
        cases escaped <;> simp [next, inLiteral, hquote, hbackslash]
      rw [keeps, hnext]
      simp [isCode, inLiteral, hline, hquote, hbackslash]

end Zone

/-- Masking keeps the length in bytes, and each character at its offset or as
many spaces as it has bytes. Code and line breaks are kept; between the
delimiters of a literal, everything is replaced but line breaks and, in a text
block, quotes and backslashes. -/
theorem maskLiterals_layout (s : List Char) :
    byteLength (maskLiterals s) = byteLength s ∧
      ∀ pre c post, s = pre ++ c :: post →
        ∃ before piece behind, maskLiterals s = before ++ (piece ++ behind) ∧
          byteLength before = byteLength pre ∧
          (piece = [c] ∨ piece = List.replicate c.utf8Size ' ') ∧
          ((Zone.code.after pre).isCode c = true ∨ c = '\n' → piece = [c]) ∧
          ((Zone.code.after pre).inQuotes = true → (Zone.code.after (pre ++ [c])).inLiteral = true →
            c ≠ '\n' → piece = List.replicate c.utf8Size ' ') ∧
          ((Zone.code.after pre).inTextBlock = true → c ∉ ['\n', '"', '\\'] →
            piece = List.replicate c.utf8Size ' ') := by
  refine ⟨byteLength_maskFrom .code s, ?_⟩
  rintro pre c post rfl
  generalize hzone : Zone.code.after pre = zone
  have hnext : Zone.code.after (pre ++ [c]) = zone.next c := by
    rw [Zone.after_append, hzone]
    rfl
  refine ⟨maskLiterals pre, zone.piece c, maskFrom (zone.next c) post, ?_,
    byteLength_maskFrom .code pre, ?_, ?_, ?_, ?_⟩
  · rw [maskLiterals, maskFrom_append, hzone]
    rfl
  · rw [Zone.piece]
    split
    · exact Or.inl rfl
    · exact Or.inr rfl
  · rintro (hcode | rfl)
    · exact Zone.piece_of_keeps (Zone.keeps_of_isCode hcode)
    · exact Zone.piece_of_keeps zone.keeps_newline
  · intro hquotes hinside hc
    rw [hnext] at hinside
    exact Zone.piece_of_not_keeps (Zone.not_keeps_of_inQuotes hquotes hinside hc)
  · intro hblock hc
    exact Zone.piece_of_not_keeps (Zone.not_keeps_of_inTextBlock hblock hc)

/-- A letter of two bytes between quotes becomes two spaces, and so does one in
a text block behind a quote, which stays. -/
theorem maskLiterals_layout_accents :
    let s := "s = \"é\";\nt = \"\"\"\"ü\"\"\";".toList
    byteLength (maskLiterals s) = byteLength s ∧
      (∃ before behind, maskLiterals s = before ++ ([' ', ' '] ++ behind) ∧
        byteLength before = 5) ∧
      ∃ before behind, maskLiterals s = before ++ ([' ', ' '] ++ behind) ∧
        byteLength before = 18 := by
  intro s
  obtain ⟨hlength, hlayout⟩ := maskLiterals_layout s
  refine ⟨hlength, ?_, ?_⟩
  · obtain ⟨before, piece, behind, hmask, hbefore, -, -, hquotes, -⟩ :=
      hlayout "s = \"".toList 'é' "\";\nt = \"\"\"\"ü\"\"\";".toList (by decide)
    rw [hquotes (by decide) (by decide) (by decide)] at hmask
    exact ⟨before, behind, hmask, hbefore⟩
  · obtain ⟨before, piece, behind, hmask, hbefore, -, -, -, hblock⟩ :=
      hlayout "s = \"é\";\nt = \"\"\"\"".toList 'ü' "\"\"\";".toList (by decide)
    rw [hblock (by decide) (by decide)] at hmask
    exact ⟨before, behind, hmask, hbefore⟩

/-! ## Scanning a masked text -/

/-- The code characters of a text with their byte offsets, for a scan that
stands in a zone and at an offset. -/
def codeFrom : Zone → ℕ → List Char → List (ℕ × Char)
  | _, _, [] => []
  | zone, offset, c :: rest =>
    (if zone.isCode c then [(offset, c)] else []) ++
      codeFrom (zone.next c) (offset + c.utf8Size) rest

/-- The code characters of a text with their byte offsets. -/
def codeChars (s : List Char) : List (ℕ × Char) :=
  codeFrom .code 0 s

/-- Whether a literal between quotes goes on behind the end of a line, from a
zone on. -/
def splicesFrom : Zone → List Char → Bool
  | _, [] => false
  | zone, c :: rest => zone.splices c || splicesFrom (zone.next c) rest

/-- Whether a literal between quotes goes on behind the end of a line. -/
def hasSplice (s : List Char) : Bool :=
  splicesFrom .code s

theorem codeFrom_append (zone : Zone) (offset : ℕ) (s t : List Char) :
    codeFrom zone offset (s ++ t) =
      codeFrom zone offset s ++ codeFrom (zone.after s) (offset + byteLength s) t := by
  induction s generalizing zone offset with
  | nil => rfl
  | cons c rest ih =>
      have hlength : offset + byteLength (c :: rest) = offset + c.utf8Size + byteLength rest :=
        (Nat.add_assoc offset c.utf8Size (byteLength rest)).symm
      rw [List.cons_append, codeFrom, codeFrom, ih, List.append_assoc, Zone.after_cons, hlength]

section Spaces

variable {zone : Zone}

theorem after_spaces (h : zone.next ' ' = zone) (n : ℕ) :
    zone.after (List.replicate n ' ') = zone := by
  induction n with
  | zero => rfl
  | succ n ih => rw [List.replicate_succ, Zone.after_cons, h, ih]

theorem codeFrom_spaces (hzone : zone.inLiteral = true) (h : zone.next ' ' = zone)
    (offset n : ℕ) : codeFrom zone offset (List.replicate n ' ') = [] := by
  have hcode : ¬zone.isCode ' ' = true := by simp [Zone.isCode, hzone]
  induction n generalizing offset with
  | zero => rfl
  | succ n ih => rw [List.replicate_succ, codeFrom, if_neg hcode, h, ih, List.append_nil]

theorem maskFrom_spaces (zone : Zone) (n : ℕ) :
    maskFrom zone (List.replicate n ' ') = List.replicate n ' ' := by
  induction n generalizing zone with
  | zero => rfl
  | succ n ih =>
      have hpiece : zone.piece ' ' = [' '] := ite_self [' ']
      rw [List.replicate_succ, maskFrom_cons, hpiece, ih]
      rfl

end Spaces

/-- What masking makes of a character takes a second scan where the character
takes the first one, gives the same code, and is not changed by a second
masking. -/
structure Zone.Survives (zone : Zone) (c : Char) : Prop where
  after_eq : zone.masked.after (zone.piece c) = (zone.next c).masked
  codeFrom_eq (offset : ℕ) :
    codeFrom zone.masked offset (zone.piece c) = if zone.isCode c then [(offset, c)] else []
  maskFrom_eq : maskFrom zone.masked (zone.piece c) = zone.piece c

namespace Zone

variable {zone : Zone} {c : Char}

theorem inTextBlock_masked (zone : Zone) : zone.masked.inTextBlock = zone.inTextBlock := by
  fun_cases masked zone <;> rfl

theorem survives_of_not_inLiteral (h : zone.inLiteral = false) (c : Char) : zone.Survives c := by
  have hkeeps := keeps_of_not_inLiteral h c
  constructor
  · rw [piece_of_keeps hkeeps, masked_of_not_inLiteral h, masked_next_of_not_inLiteral h]
    rfl
  · intro offset
    rw [piece_of_keeps hkeeps, masked_of_not_inLiteral h, codeFrom, codeFrom, List.append_nil]
  · rw [piece_of_keeps hkeeps, masked_of_not_inLiteral h, maskFrom_cons, piece_of_keeps hkeeps]
    rfl

/-- A delimiter, a line break, or a quote or backslash of a text block. -/
theorem survives_of_keeps (h : zone.inLiteral = true) (hkeeps : zone.keeps c = true)
    (hsplice : zone.splices c = false) : zone.Survives c := by
  have hmasked : zone.masked.inLiteral = true := by rw [inLiteral_masked, h]
  have hnext := next_masked_of_keeps h hkeeps hsplice
  have hagain : zone.masked.keeps c = true := by
    rw [keeps, hnext, inLiteral_masked, inLiteral_masked, inTextBlock_masked]
    simpa [keeps, isCode, h, hmasked] using hkeeps
  constructor
  · rw [piece_of_keeps hkeeps]
    exact hnext
  · intro offset
    rw [piece_of_keeps hkeeps, codeFrom, codeFrom]
    simp [isCode, h, hmasked]
  · rw [piece_of_keeps hkeeps, maskFrom_cons, piece_of_keeps hagain]
    rfl

/-- A character inside a literal that becomes spaces. -/
theorem survives_of_not_keeps (h : zone.inLiteral = true) (hproper : zone.IsProper)
    (hkeeps : zone.keeps c = false) : zone.Survives c := by
  obtain ⟨hspace, hstays⟩ := next_masked_space h hproper hkeeps
  have hinside : (zone.next c).masked.inLiteral = true := by
    rw [inLiteral_masked]
    simpa [keeps, h] using (Bool.or_eq_false_iff.mp hkeeps).2
  have hmasked : ¬zone.masked.isCode ' ' = true := by
    simp [isCode, inLiteral_masked, h]
  have hcode : ¬zone.isCode c = true := by simp [isCode, h]
  have hpiece : zone.piece c = ' ' :: List.replicate (c.utf8Size - 1) ' ' := by
    rw [piece_of_not_keeps hkeeps, ← List.replicate_succ, Nat.sub_add_cancel c.utf8Size_pos]
  constructor
  · rw [hpiece, after_cons, hspace, after_spaces hstays]
  · intro offset
    rw [hpiece, codeFrom, if_neg hmasked, if_neg hcode, hspace, codeFrom_spaces hinside hstays]
    rfl
  · rw [piece_of_not_keeps hkeeps, maskFrom_spaces]

theorem survives (hproper : zone.IsProper) (hsplice : zone.splices c = false) :
    zone.Survives c := by
  by_cases h : zone.inLiteral = true
  · by_cases hkeeps : zone.keeps c = true
    · exact survives_of_keeps h hkeeps hsplice
    · exact survives_of_not_keeps h hproper (by simpa using hkeeps)
  · exact survives_of_not_inLiteral (by simpa using h) c

end Zone

/-- A second scan of a text without splices runs side by side with the first. -/
theorem rescan_maskFrom {zone : Zone} (hproper : zone.IsProper) {s : List Char}
    (h : splicesFrom zone s = false) (offset : ℕ) :
    codeFrom zone.masked offset (maskFrom zone s) = codeFrom zone offset s ∧
      maskFrom zone.masked (maskFrom zone s) = maskFrom zone s := by
  induction s generalizing zone offset with
  | nil => exact ⟨rfl, rfl⟩
  | cons c rest ih =>
      obtain ⟨hsplice, hrest⟩ := Bool.or_eq_false_iff.mp h
      obtain ⟨hcode, hmask⟩ := ih (hproper.next c) hrest (offset + c.utf8Size)
      have hfirst := Zone.survives hproper hsplice
      constructor
      · rw [maskFrom_cons, codeFrom_append, hfirst.codeFrom_eq, hfirst.after_eq,
          zone.byteLength_piece, hcode, codeFrom]
      · rw [maskFrom_cons, maskFrom_append, hfirst.maskFrom_eq, hfirst.after_eq, hmask]

/-- Where no literal between quotes goes on behind the end of a line, a scan of
the masked text finds the same code at the same offsets, and masking it again
changes nothing. -/
theorem maskLiterals_rescan {s : List Char} (h : hasSplice s = false) :
    codeChars (maskLiterals s) = codeChars s ∧
      maskLiterals (maskLiterals s) = maskLiterals s := by
  have hproper : Zone.code.IsProper := trivial
  exact rescan_maskFrom hproper h 0

/-- Escapes, an empty literal, a literal that its line cuts off and a text block
with quotes and a line break behind a backslash leave no trace in a second
scan. -/
theorem maskLiterals_rescan_mixed :
    let s := "c = '\\''; s = \"\" + \"é\\\"\";\nu = \"cut\nt = \"\"\"\\\n\"\x7b\"\"\"; v".toList
    hasSplice s = false ∧ codeChars (maskLiterals s) = codeChars s ∧
      maskLiterals (maskLiterals s) = maskLiterals s := by
  intro s
  have h : hasSplice s = false := by decide
  exact ⟨h, maskLiterals_rescan h⟩

/-- A literal that goes on behind the end of its line ends there when its masked
text is scanned: its closing quote then opens a literal, which hides the code
that follows. -/
theorem splice_hides_code :
    let s := "\"a\\\n\";x".toList
    codeChars s = [(5, ';'), (6, 'x')] ∧ codeChars (maskLiterals s) = [] ∧
      maskLiterals (maskLiterals s) ≠ maskLiterals s := by
  decide

end ClassAtlas.Source
