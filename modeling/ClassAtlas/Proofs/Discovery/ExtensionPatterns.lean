import Mathlib.Data.Char
import ClassAtlas.Discovery
import ClassAtlas.Proofs.Text.Cutting

/-!
# The pattern of an extension

The pattern for an extension names the root with every sign of patterns
escaped, any number of directories, and a name that ends in a dot and the
extension. Each piece of the root is read back as a part that only this piece
matches, so the pattern means what it is written from.
-/

namespace ClassAtlas.Glob

open ClassAtlas.Text

/-! ## Escaped texts -/

/-- The signs that stand for several texts in a pattern. -/
def isSign (c : Char) : Bool :=
  c == '?' || c == '*' || c == '[' || c == ']'

/-- The token that an escaped character is read as. -/
def charToken (c : Char) : Token :=
  if isSign c then .oneOf true [(c, c)] else .exactly c

/-- A text without signs of patterns. -/
def IsPlain (s : List Char) : Prop :=
  ∀ c ∈ s, isSign c = false

theorem escape_cons (c : Char) (s : List Char) :
    escape (c :: s) = (if isSign c then ['[', c, ']'] else [c]) ++ escape s := rfl

theorem escape_of_isPlain {s : List Char} (h : IsPlain s) : escape s = s := by
  induction s with
  | nil => rfl
  | cons c s ih =>
      obtain ⟨hc, hs⟩ := List.forall_mem_cons.mp h
      rw [escape_cons, hc, ih hs]
      rfl

theorem charSet?_sign {c : Char} (h : isSign c = true) (rest : List Char) :
    charSet? (c :: ']' :: rest) = some (charToken c, rest) := by
  have hne : c ≠ '!' := by
    rintro rfl
    contradiction
  simp [charSet?, hne, cutAtFirst?, charRanges, charToken, h]

theorem tokensFrom?_sign {c : Char} (h : isSign c = true) (partStart : Bool) (rest : List Char) :
    tokensFrom? partStart ('[' :: c :: ']' :: rest) =
      (tokensFrom? false rest).map (charToken c :: ·) := by
  rw [tokensFrom?]
  split
  next token after hset =>
    rw [charSet?_sign h] at hset
    obtain ⟨rfl, rfl⟩ := Prod.mk.inj (Option.some.inj hset)
    rw [Option.map_eq_bind]
    rfl
  next hnone =>
    rw [charSet?_sign h] at hnone
    contradiction

theorem tokensFrom?_plain {c : Char} (h : isSign c = false) (partStart : Bool) (rest : List Char) :
    tokensFrom? partStart (c :: rest) =
      (tokensFrom? (c == '/') rest).map (charToken c :: ·) := by
  have hquestion : c ≠ '?' := by
    rintro rfl
    contradiction
  have hstar : c ≠ '*' := by
    rintro rfl
    contradiction
  have hbracket : c ≠ '[' := by
    rintro rfl
    contradiction
  have htoken : charToken c = .exactly c := by simp [charToken, h]
  rw [tokensFrom?.eq_8 partStart c rest hquestion (fun _ heq _ => hstar heq) hstar hbracket,
    Option.map_eq_bind, htoken]
  rfl

/-- An escaped text is read character by character, unless what follows depends
on whether a part starts. -/
theorem tokensFrom?_escape_append {rest : List Char} {tokens : List Token}
    (hrest : ∀ partStart, tokensFrom? partStart rest = some tokens) (s : List Char)
    (partStart : Bool) :
    tokensFrom? partStart (escape s ++ rest) = some (s.map charToken ++ tokens) := by
  induction s generalizing partStart with
  | nil => exact hrest partStart
  | cons c s ih =>
      rw [escape_cons]
      by_cases hc : isSign c = true
      · simp [hc, tokensFrom?_sign hc, ih]
      · have hplain : isSign c = false := by simpa using hc
        simp [hplain, tokensFrom?_plain hplain, ih]

theorem tokensFrom?_escape (partStart : Bool) (s : List Char) :
    tokensFrom? partStart (escape s) = some (s.map charToken) := by
  have hnil : ∀ partStart, tokensFrom? partStart [] = some [] := fun _ => by rw [tokensFrom?]
  simpa using tokensFrom?_escape_append hnil s partStart

/-- The pieces of an escaped text are its pieces, escaped. -/
theorem splitOn_escape (s : List Char) :
    (escape s).splitOn '/' = (s.splitOn '/').map escape := by
  induction s with
  | nil => rfl
  | cons c s ih =>
      obtain ⟨piece, more, hpieces⟩ := List.exists_cons_of_ne_nil (List.splitOn_ne_nil '/' s)
      rw [hpieces] at ih
      rw [escape_cons, List.splitOn_cons_eq_if_modifyHead, hpieces]
      by_cases hsign : isSign c = true
      · have hslash : (c == '/') = false := by
          rw [beq_eq_false_iff_ne]
          rintro rfl
          contradiction
        simp [hsign, hslash, List.splitOn_cons_eq_if_modifyHead, ih, escape_cons]
      · by_cases hslash : c = '/'
        · subst hslash
          rw [if_neg hsign]
          simp only [List.singleton_append, List.splitOn_cons_eq_if_modifyHead, beq_self_eq_true,
            if_true, ih, List.map_cons]
          rfl
        · simp [hsign, hslash, List.splitOn_cons_eq_if_modifyHead, ih, escape_cons]

/-! ## Names that match -/

theorem takes_charToken (c d : Char) : (charToken c).takes d = true ↔ d = c := by
  unfold charToken
  split
  · have hrange : c ≤ d ∧ d ≤ c ↔ d = c :=
      ⟨fun h => le_antisymm h.2 h.1, fun h => ⟨h.ge, h.le⟩⟩
    simpa [Token.takes] using hrange
  · simp [Token.takes]

theorem nameMatches_charToken_cons (c d : Char) (tokens : List Token) (name : List Char) :
    nameMatches (charToken c :: tokens) (d :: name) =
      ((charToken c).takes d && nameMatches tokens name) := by
  unfold charToken
  split <;> rfl

/-- An escaped text matches itself alone. -/
theorem nameMatches_map_charToken {s name : List Char} :
    nameMatches (s.map charToken) name = true ↔ name = s := by
  induction s generalizing name with
  | nil => simp [nameMatches]
  | cons c s ih =>
      cases name with
      | nil =>
          rw [List.map_cons, charToken]
          split <;> simp [nameMatches]
      | cons d name =>
          rw [List.map_cons, nameMatches_charToken_cons, Bool.and_eq_true, takes_charToken, ih,
            List.cons.injEq]

theorem runThen_iff {accept : List Char → Bool} {name : List Char} :
    runThen accept name = true ↔ ∃ run rest, name = run ++ rest ∧ accept rest = true := by
  induction name with
  | nil => simp [runThen]
  | cons c name ih =>
      rw [runThen, Bool.or_eq_true, ih]
      constructor
      · rintro (hhere | ⟨run, rest, rfl, hrest⟩)
        · exact ⟨[], c :: name, rfl, hhere⟩
        · exact ⟨c :: run, rest, rfl, hrest⟩
      · rintro ⟨run, rest, hname, hrest⟩
        cases run with
        | nil => exact Or.inl (hname ▸ hrest)
        | cons d run => exact Or.inr ⟨run, rest, (List.cons.inj hname).2, hrest⟩

/-! ## The parts of the pattern -/

/-- The part that an escaped piece of the root is read as. -/
def piecePart (piece : List Char) : PartPattern :=
  if piece.any isSign then .name (piece.map charToken) else .literal piece

/-- The part for names that end in a dot and an extension. -/
def extensionPart (extension : List Char) : PartPattern :=
  .name (.anyRun :: ('.' :: extension).map charToken)

theorem literal?_map_charToken (s : List Char) :
    literal? (s.map charToken) = if s.any isSign then none else some s := by
  induction s with
  | nil => rfl
  | cons c s ih =>
      by_cases hc : isSign c = true
      · have hnone : literal? ((c :: s).map charToken) = none := by
          simp [literal?, charToken, hc]
        rw [hnone, List.any_cons, hc]
        rfl
      · have hmore : literal? ((c :: s).map charToken) =
            (literal? (s.map charToken)).map (c :: ·) := by
          simp [literal?, charToken, hc, Option.map_eq_bind, Function.comp_def]
        rw [hmore, ih]
        by_cases hs : s.any isSign = true <;> simp [hc, hs]

theorem ofText?_escape (piece : List Char) :
    PartPattern.ofText? (escape piece) = some (piecePart piece) := by
  have hone : piece.map charToken ≠ [.anyDirectories] := by
    intro h
    obtain ⟨c, -, hc⟩ := List.mem_map.mp (h ▸ List.mem_singleton_self _)
    rw [charToken] at hc
    split at hc <;> contradiction
  rw [PartPattern.ofText?, tokens?, tokensFrom?_escape, Option.map_some, if_neg hone,
    literal?_map_charToken, piecePart]
  by_cases hsign : piece.any isSign = true
  · rw [if_pos hsign, if_pos hsign]
  · rw [if_neg hsign, if_neg hsign]

theorem tokensFrom?_extension {extension : List Char} (hplain : IsPlain extension)
    (partStart : Bool) : tokensFrom? partStart ('*' :: '.' :: extension) =
      some (.anyRun :: ('.' :: extension).map charToken) := by
  have hescape : escape ('.' :: extension) = '.' :: extension :=
    escape_of_isPlain (List.forall_mem_cons.mpr ⟨by decide, hplain⟩)
  have hrest := tokensFrom?_escape false ('.' :: extension)
  rw [hescape] at hrest
  rw [tokensFrom?.eq_6 _ _ (by simp), hrest]
  rfl

theorem tokensFrom?_behindRoot {extension : List Char} (hplain : IsPlain extension)
    (partStart : Bool) :
    tokensFrom? partStart ('/' :: '*' :: '*' :: '/' :: '*' :: '.' :: extension) =
      some (charToken '/' :: .anyDirectories :: .anyRun :: ('.' :: extension).map charToken) := by
  rw [tokensFrom?_plain (by decide), beq_self_eq_true, tokensFrom?.eq_4,
    tokensFrom?_extension hplain]
  rfl

theorem ofText?_extension {extension : List Char} (hplain : IsPlain extension) :
    PartPattern.ofText? ('*' :: '.' :: extension) = some (extensionPart extension) := by
  rw [PartPattern.ofText?, tokens?, tokensFrom?_extension hplain]
  rfl

/-- The parts of a pattern are those of the root, any number of directories, and
the part for the extension. -/
def extensionPattern (root extension : List Char) : PathPattern where
  parts := (root.splitOn '/').map piecePart ++ [.anyDirectories, extensionPart extension]
  directoriesOnly := false

theorem mapM_ofText?_escape (parts : List (List Char)) :
    (parts.map escape).mapM PartPattern.ofText? = some (parts.map piecePart) := by
  induction parts with
  | nil => rfl
  | cons part parts ih => simp [ofText?_escape, ih]

theorem toList_patternText (root extension : String) :
    (Discovery.patternText root extension).toList =
      escape root.toList ++ '/' :: '*' :: '*' :: '/' :: '*' :: '.' :: extension.toList := by
  simp [Discovery.patternText]

theorem partTexts_patternText (root : String) {extension : String}
    (hslash : '/' ∉ extension.toList) :
    PathPattern.partTexts (Discovery.patternText root extension).toList =
      (root.toList.splitOn '/').map escape ++
        [['*', '*'], '*' :: '.' :: extension.toList] := by
  have hlast : ('*' :: '.' :: extension.toList).splitOn '/' =
      ['*' :: '.' :: extension.toList] :=
    List.splitOn_eq_singleton (by simp [hslash])
  have hstars : ('*' :: '*' :: '/' :: '*' :: '.' :: extension.toList).splitOn '/' =
      [['*', '*'], '*' :: '.' :: extension.toList] := by
    rw [← hlast]
    exact @List.splitOn_append_cons_self_of_not_mem _ ['*', '*'] _ _ '/' (by decide) _
  have hpieces : (Discovery.patternText root extension).toList.splitOn '/' =
      (root.toList.splitOn '/').map escape ++
        [['*', '*'], '*' :: '.' :: extension.toList] := by
    rw [toList_patternText, List.splitOn_append_cons_self, splitOn_escape, hstars]
  rw [PathPattern.partTexts, hpieces]
  simp

theorem ofText?_patternText (root : String) {extension : String}
    (hplain : IsPlain extension.toList) (hslash : '/' ∉ extension.toList) :
    PathPattern.ofText? (Discovery.patternText root extension).toList =
      some (extensionPattern root.toList extension.toList) := by
  have htokens := tokensFrom?_escape_append (tokensFrom?_behindRoot hplain) root.toList true
  rw [← toList_patternText] at htokens
  have hparts : (PathPattern.partTexts (Discovery.patternText root extension).toList).mapM
      PartPattern.ofText? = some (extensionPattern root.toList extension.toList).parts := by
    have hany : PartPattern.ofText? ['*', '*'] = some .anyDirectories := by
      simp [PartPattern.ofText?, tokens?, tokensFrom?]
    rw [partTexts_patternText root hslash, List.mapM_append, mapM_ofText?_escape]
    simp [hany, ofText?_extension hplain, extensionPattern]
  have hlast : (Discovery.patternText root extension).toList.getLast? ≠ some '/' := by
    have hmem : '/' ∉ '.' :: extension.toList := by simp [hslash]
    have hends : (Discovery.patternText root extension).toList.getLast? =
        ('.' :: extension.toList).getLast? := by
      rw [toList_patternText, List.getLast?_append]
      simp [List.getLast?_cons]
    rw [hends]
    exact fun h => hmem (List.mem_of_getLast? h)
  rw [PathPattern.ofText?, tokens?, htokens, hparts]
  simp [hlast, extensionPattern]

theorem takes_extensionPart {extension name : List Char} :
    (extensionPart extension).takes name = true ↔ ∃ stem, name = stem ++ '.' :: extension := by
  rw [extensionPart, PartPattern.takes, nameMatches, runThen_iff]
  simp only [nameMatches_map_charToken]
  constructor
  · rintro ⟨stem, rest, rfl, rfl⟩
    exact ⟨stem, rfl⟩
  · rintro ⟨stem, rfl⟩
    exact ⟨stem, _, rfl, rfl⟩

end ClassAtlas.Glob

namespace ClassAtlas.Discovery

open ClassAtlas.Glob

/-- An extension without signs of patterns, slashes and dots, as all words of
letters and digits are. -/
def IsPlainExtension (extension : String) : Prop :=
  ∀ c ∈ extension.toList, c ∉ ['?', '*', '[', ']', '/', '.']

instance (extension : String) : Decidable (IsPlainExtension extension) :=
  inferInstanceAs (Decidable (∀ c ∈ extension.toList, c ∉ ['?', '*', '[', ']', '/', '.']))

theorem IsPlainExtension.notMem {extension : String} (h : IsPlainExtension extension) {c : Char}
    (hc : c ∈ ['?', '*', '[', ']', '/', '.']) : c ∉ extension.toList :=
  fun hmem => h c hmem hc

theorem IsPlainExtension.isPlain {extension : String} (h : IsPlainExtension extension) :
    IsPlain extension.toList := by
  intro c hc
  have hsigns := h c hc
  simp only [List.mem_cons, not_or] at hsigns
  simp [isSign, hsigns]

/-- There is one pattern for each wanted extension. -/
theorem patterns_eq_ok (root : String) {extensions : List String}
    (h : ∀ extension ∈ extensions, IsPlainExtension extension) :
    patterns root extensions =
      .ok (extensions.map fun extension => extensionPattern root.toList extension.toList) := by
  induction extensions with
  | nil => rfl
  | cons extension extensions ih =>
      obtain ⟨hfirst, hrest⟩ := List.forall_mem_cons.mp h
      have hpattern := ofText?_patternText root hfirst.isPlain (hfirst.notMem (by decide))
      have hmore := ih hrest
      rw [patterns] at hmore ⊢
      simp only [List.mapM_cons, hpattern, hmore]
      rfl

end ClassAtlas.Discovery
