import Mathlib.Order.Bounds.Basic
import ClassAtlas.Proofs.Source.Depth
import ClassAtlas.Proofs.Text.Bytes

/-!
# The end of a block

The search for the end of a block starts at a byte that opens one and counts in
code from there. It answers with the offset at which the count returns to zero
for the first time. Up to there the count is positive, so nothing is closed that
was not open, and a projection, whose depth cannot fall below zero, counts the
same: it shows the block as a pair of braces.
-/

namespace ClassAtlas.Source

open ClassAtlas.Text

/-- The count of blocks returns to zero with the character at the byte offset `n`
of a text. -/
def ReturnsAt (opening closing : Char) (text : List Char) (n : ℕ) : Prop :=
  ∃ inside c, inside ++ [c] <+: text ∧ byteLength inside = n ∧
    balance opening closing .code (inside ++ [c]) = 0

/-- A search for the end of the block that opens at a byte offset finds the least
offset at which the count of blocks returns to zero. -/
structure FindsClosing (opening closing : Char) (find : List Char → ℕ → Option ℕ) : Prop where
  /-- Nothing is found where no block opens. -/
  refused (s : List Char) (start : ℕ) (h : (bytes s)[start]? ≠ some opening.toUInt8) :
    find s start = none
  /-- Where a block opens, the count starts. -/
  opened (s : List Char) (start : ℕ) (h : (bytes s)[start]? = some opening.toUInt8) :
    ∃ before text, s = before ++ text ∧ byteLength before = start ∧
      (∀ close, find s start = some close ↔
        ∃ n, close = start + n ∧ IsLeast {n | ReturnsAt opening closing text n} n) ∧
      (find s start = none ↔ ∀ n, ¬ReturnsAt opening closing text n) ∧
      -- the count is never taken below zero
      ∀ inside, inside ++ [closing] <+: text → (Zone.code.after inside).isCode closing = true →
        (∀ n < byteLength inside, ¬ReturnsAt opening closing text n) →
        0 < balance opening closing .code inside

theorem ReturnsAt.of_prefix {opening closing : Char} {text more : List Char} {n : ℕ}
    (h : ReturnsAt opening closing text n) (hmore : text <+: more) :
    ReturnsAt opening closing more n := by
  obtain ⟨inside, c, hinside, hn, hzero⟩ := h
  exact ⟨inside, c, hinside.trans hmore, hn, hzero⟩

section Counting

variable {opening closing : Char} {s inside rest : List Char} (hne : opening ≠ closing)
  (hopening : Zone.isQuote opening = false)

include hopening in
theorem balance_opening_cons (s : List Char) :
    balance opening closing .code (opening :: s) = 1 + balance opening closing .code s := by
  have hcode : Zone.code.isCode opening = true := Zone.isCode_iff.mpr ⟨rfl, hopening⟩
  rw [balance, codeStep_opening hcode, Zone.next_of_isCode hcode]

include hopening in
/-- Behind its opening character, a text that closes no block it did not open has
a positive count. -/
theorem balance_pos_of_prefix (hopen : StaysOpen opening closing .code 0 s) {start : List Char}
    (hstart : start <+: opening :: s) (hnil : start ≠ []) :
    0 < balance opening closing .code start := by
  rcases List.prefix_cons_iff.mp hstart with rfl | ⟨more, rfl, hmore⟩
  · contradiction
  · have hcount := hopen more hmore
    rw [balance_opening_cons hopening]
    omega

include hopening in
theorem not_returnsAt_of_staysOpen (hopen : StaysOpen opening closing .code 0 s) (n : ℕ) :
    ¬ReturnsAt opening closing (opening :: s) n := by
  rintro ⟨inside, c, hprefix, -, hzero⟩
  have hpos := balance_pos_of_prefix hopening hopen hprefix (by simp)
  omega

include hne hopening in
/-- The count returns to zero with the character that closes the block. -/
theorem returnsAt_closing (hclosing : Zone.isQuote closing = false)
    (hinside : Nested opening closing inside) (rest : List Char) :
    ReturnsAt opening closing (opening :: (inside ++ closing :: rest))
      (byteLength (opening :: inside)) := by
  have hcode : (Zone.code.after inside).isCode closing = true :=
    Zone.isCode_iff.mpr ⟨hinside.outside, hclosing⟩
  refine ⟨opening :: inside, closing, ⟨rest, by simp⟩, rfl, ?_⟩
  rw [List.cons_append, balance_opening_cons hopening, balance_append, hinside.closed, balance,
    balance, codeStep_closing hne hcode]
  rfl

include hne hopening in
/-- It does so there for the first time. -/
theorem isLeast_returnsAt (hclosing : Zone.isQuote closing = false)
    (hinside : Nested opening closing inside) (rest : List Char) :
    IsLeast {n | ReturnsAt opening closing (opening :: (inside ++ closing :: rest)) n}
      (byteLength (opening :: inside)) := by
  refine ⟨returnsAt_closing hne hopening hclosing hinside rest, ?_⟩
  rintro n ⟨other, c, hother, rfl, hzero⟩
  have hblock : opening :: inside <+: opening :: (inside ++ closing :: rest) :=
    ⟨closing :: rest, by simp⟩
  rcases List.prefix_or_prefix_of_prefix hother hblock with hshort | hlong
  · have hpos := balance_pos_of_prefix hopening hinside.staysOpen hshort (by simp)
    omega
  · rcases List.prefix_concat_iff.mp hlong with heq | hprefix
    · have hpos := balance_pos_of_prefix hopening hinside.staysOpen
        (List.prefix_refl (opening :: inside)) (List.cons_ne_nil opening inside)
      rw [heq] at hpos
      omega
    · exact byteLength_le_of_prefix hprefix

include hne hopening in
/-- Where a character closes a block and the count has not yet returned to zero,
it is positive. -/
theorem balance_pos_of_not_returnsAt (hclosing : Zone.isQuote closing = false) {start : List Char}
    (hstart : start ++ [closing] <+: opening :: s)
    (hbefore : ∀ n < byteLength start, ¬ReturnsAt opening closing (opening :: s) n) :
    0 < balance opening closing .code start := by
  cases start with
  | nil =>
      obtain ⟨heq, -⟩ := List.cons_prefix_cons.mp hstart
      exact absurd heq.symm hne
  | cons c start =>
      obtain ⟨rfl, -⟩ := List.cons_prefix_cons.mp hstart
      rcases staysOpen_or_exists_closing c closing .code 0 start with
        hopen | ⟨inside, rest, rfl, hcode, hopen, hclosed⟩
      · exact balance_pos_of_prefix hopening hopen (List.prefix_refl _) (List.cons_ne_nil c start)
      · -- the block was closed earlier
        have hinside : Nested c closing inside :=
          ⟨(Zone.isCode_iff.mp hcode).1, hopen, by simpa using hclosed⟩
        have hreturns := returnsAt_closing hne hopening hclosing hinside rest
        have hlonger : c :: (inside ++ closing :: rest) <+: c :: s :=
          (List.prefix_append _ _).trans hstart
        refine absurd (hreturns.of_prefix hlonger) (hbefore _ ?_)
        have hsize := closing.utf8Size_pos
        rw [byteLength_cons, byteLength_cons, byteLength_append, byteLength_cons]
        omega

end Counting

/-! ## Searches -/

section Searching

variable {opening closing : Char} (hne : opening ≠ closing)
  (hopening : Zone.isQuote opening = false) (hclosing : Zone.isQuote closing = false)

include hne hopening hclosing in
/-- The length of a block in front of its closing character is the least offset at
which the count returns to zero, and it returns nowhere if no block is found. -/
theorem splitBlock?_returnsAt (s : List Char) :
    (∀ n, (splitBlock? opening closing (opening :: s)).map
        (fun (inside, _) => byteLength (opening :: inside)) = some n ↔
      IsLeast {n | ReturnsAt opening closing (opening :: s) n} n) ∧
    (splitBlock? opening closing (opening :: s) = none ↔
      ∀ n, ¬ReturnsAt opening closing (opening :: s) n) := by
  rcases hblock : splitBlock? opening closing (opening :: s) with _ | ⟨inside, rest⟩
  · have hnever := not_returnsAt_of_staysOpen hopening ((splitBlock?_eq_none_iff hne).mp hblock)
    refine ⟨fun n => ?_, iff_of_true rfl hnever⟩
    exact iff_of_false nofun fun hleast => hnever n hleast.1
  · obtain ⟨heq, hinside⟩ := (splitBlock?_eq_some_iff hne hclosing).mp hblock
    have hleast := isLeast_returnsAt hne hopening hclosing hinside rest
    rw [← heq] at hleast
    refine ⟨fun n => ?_, iff_of_false nofun fun hnever => hnever _ hleast.1⟩
    rw [Option.map_some, Option.some.injEq]
    constructor
    · rintro rfl
      exact hleast
    · exact hleast.unique

theorem closingOffset?_append (opening closing : Char) (before text : List Char) :
    closingOffset? opening closing (before ++ text) (byteLength before) =
      ((splitBlock? opening closing text).map
        (fun (inside, _) => byteLength (opening :: inside))).map (byteLength before + ·) := by
  have hdrop : dropBytes? (byteLength before) (before ++ text) = some text :=
    dropBytes?_eq_some_iff.mpr ⟨before, rfl, rfl⟩
  unfold closingOffset?
  rcases hblock : splitBlock? opening closing text with _ | ⟨inside, rest⟩
  · simp [hdrop, hblock]
  · simp [hdrop, hblock, byteLength_cons, Nat.add_assoc]

include hne hclosing in
/-- A block that is found has a nested inside. -/
theorem exists_of_closingOffset? {s : List Char} {start close : ℕ}
    (h : closingOffset? opening closing s start = some close) :
    ∃ before inside rest, s = before ++ opening :: (inside ++ closing :: rest) ∧
      byteLength before = start ∧ Nested opening closing inside ∧
      close = start + byteLength (opening :: inside) := by
  obtain ⟨text, hdrop, -⟩ := Option.bind_eq_some_iff.mp h
  obtain ⟨before, rfl, rfl⟩ := dropBytes?_eq_some_iff.mp hdrop
  rw [closingOffset?_append] at h
  rw [Option.map_map] at h
  obtain ⟨⟨inside, rest⟩, hblock, rfl⟩ := Option.map_eq_some_iff.mp h
  obtain ⟨rfl, hinside⟩ := (splitBlock?_eq_some_iff hne hclosing).mp hblock
  exact ⟨before, inside, rest, rfl, rfl, hinside, rfl⟩

include hne hopening hclosing in
theorem findsClosing_closingOffset? (hbyte : opening.toNat ≤ 127) :
    FindsClosing opening closing (closingOffset? opening closing) where
  refused s start h := by
    rw [Option.eq_none_iff_forall_ne_some]
    intro close hfound
    obtain ⟨before, inside, rest, rfl, hbefore, -, -⟩ :=
      exists_of_closingOffset? hne hclosing hfound
    exact h ((getElem?_bytes_eq_some_iff hbyte).mpr ⟨before, _, rfl, hbefore⟩)
  opened s start h := by
    obtain ⟨before, text, rfl, rfl⟩ := (getElem?_bytes_eq_some_iff hbyte).mp h
    obtain ⟨hleast, hnever⟩ := splitBlock?_returnsAt hne hopening hclosing text
    refine ⟨before, opening :: text, rfl, rfl, ?_, ?_, ?_⟩
    · intro close
      rw [closingOffset?_append, Option.map_eq_some_iff]
      simp only [hleast, eq_comm, and_comm]
    · rw [closingOffset?_append, Option.map_eq_none_iff, Option.map_eq_none_iff, hnever]
    · intro start hstart _ hbefore
      exact balance_pos_of_not_returnsAt hne hopening hclosing hstart hbefore

end Searching

/-- The closing brace and the closing parenthesis of a block are found where the
count of blocks returns to zero for the first time, and not at all if it never
does or no block opens at the offset. From the opening brace to the closing one,
a text is projected to the two braces. -/
theorem closing_found_at_balance :
    FindsClosing '{' '}' closingBrace? ∧ FindsClosing '(' ')' closingParenthesis? ∧
      ∀ s start close, closingBrace? s start = some close →
        ∃ before block behind, s = before ++ (block ++ behind) ∧
          byteLength before = start ∧ byteLength (before ++ block) = close + 1 ∧
          project block = ['{', '}'] := by
  refine ⟨findsClosing_closingOffset? (by decide) (by decide) (by decide) (by decide),
    findsClosing_closingOffset? (by decide) (by decide) (by decide) (by decide), ?_⟩
  intro s start close hfound
  obtain ⟨before, inside, rest, rfl, rfl, hinside, rfl⟩ :=
    exists_of_closingOffset? (by decide) (by decide) hfound
  refine ⟨before, '{' :: (inside ++ ['}']), rest, by simp, rfl, ?_, ?_⟩
  · rw [byteLength_append, byteLength_cons, byteLength_append, byteLength_cons]
    rfl
  · rw [project, projectFrom_block rfl hinside]
    rfl

/-- Behind a letter of two bytes, a list with a parenthesis between quotes and a
block with a brace between quotes; at its closing brace no block opens. -/
theorem closing_found_at_balance_quoted :
    let s := "é(a, ')'); \x7b \"\x7b\" \x7b\x7d \x7d \x7d".toList
    (bytes s)[2]? = some '('.toUInt8 ∧ closingParenthesis? s 2 = some 9 ∧
      (∃ before text, s = before ++ text ∧ byteLength before = 2 ∧
        IsLeast {n | ReturnsAt '(' ')' text n} 7) ∧
      closingBrace? s 12 = some 21 ∧
      (∃ before block behind, s = before ++ (block ++ behind) ∧ byteLength before = 12 ∧
        byteLength (before ++ block) = 22 ∧ project block = ['{', '}']) ∧
      (bytes s)[21]? ≠ some '{'.toUInt8 ∧ closingBrace? s 21 = none := by
  intro s
  obtain ⟨hbrace, hparenthesis, hproject⟩ := closing_found_at_balance
  have hopened : (bytes s)[2]? = some '('.toUInt8 := by decide
  have hlist : closingParenthesis? s 2 = some 9 := by decide
  have hblock : closingBrace? s 12 = some 21 := by decide
  have hrefused : (bytes s)[21]? ≠ some '{'.toUInt8 := by decide
  refine ⟨hopened, hlist, ?_, hblock, hproject s 12 21 hblock, hrefused,
    hbrace.refused s 21 hrefused⟩
  obtain ⟨before, text, hs, hbefore, hfound, -⟩ := hparenthesis.opened s 2 hopened
  obtain ⟨n, hn, hleast⟩ := (hfound 9).mp hlist
  obtain rfl : n = 7 := by omega
  exact ⟨before, text, hs, hbefore, hleast⟩

end ClassAtlas.Source
