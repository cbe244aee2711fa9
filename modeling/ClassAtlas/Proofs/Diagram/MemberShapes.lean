import ClassAtlas.Unit
import ClassAtlas.Proofs.Diagram.UnclosedBlocks

/-!
# Lines with the shape of a member

A unit without a known extension is taken for a diagram if one of its lines has
the shape of a member. The shape is a rule of its own: its parameters end at the
first closing parenthesis, and only the first character of the type is looked
at. The parameters of an operation line end at its last closing parenthesis, and
its rule runs to the end of the line. This module says which texts have the
shape, and that each line among them is a member line once it is trimmed: a
member line only needs some reading, and one with the parts of the shape is
among them even where another is preferred.
-/

namespace ClassAtlas.Diagram

open Text Pattern

/-! ## Tags -/

/-- The text of words in braces, each with blanks behind it. -/
inductive IsTagRun : List Char → Prop where
  | nil : IsTagRun []
  | cons {word gap more : List Char} (hne : word ≠ []) (hword : ∀ c ∈ word, isWord c = true)
    (hgap : ∀ c ∈ gap, isBlank c = true) (hmore : IsTagRun more) :
    IsTagRun ('{' :: (word ++ '}' :: (gap ++ more)))

theorem IsTagRun.stops_isBlank_append {tagRun rest : List Char} (h : IsTagRun tagRun)
    (hrest : Stops isBlank rest) : Stops isBlank (tagRun ++ rest) := by
  cases h with
  | nil => exact hrest
  | cons => exact stops_cons.mpr (by decide)

theorem mem_readings_bracedWord {item : String} {s rest : List Char} :
    (item, rest) ∈ bracedWord.readings s ↔
      ∃ word gap, s = '{' :: (word ++ '}' :: (gap ++ rest)) ∧ item = String.ofList word ∧
        word ≠ [] ∧ (∀ c ∈ word, isWord c = true) ∧ (∀ c ∈ gap, isBlank c = true) ∧
        Stops isBlank rest := by
  constructor
  · intro hmem
    obtain ⟨_, s₁, hopen, hmem⟩ := mem_readings_bind.mp hmem
    obtain ⟨_, s₂, hrun, hmem⟩ := mem_readings_bind.mp hmem
    obtain ⟨_, s₃, hclose, hmem⟩ := mem_readings_bind.mp hmem
    obtain ⟨_, s₄, hblanks, hmem⟩ := mem_readings_bind.mp hmem
    obtain ⟨word, hne, rfl, hword, rfl⟩ := mem_readings_run1.mp hrun
    obtain ⟨rfl, rfl⟩ := mem_readings_pure.mp hmem
    obtain rfl := mem_readings_char.mp hopen
    obtain rfl := mem_readings_char.mp hclose
    obtain ⟨gap, hgap, rfl, hstops⟩ := mem_readings_blanks_iff.mp hblanks
    exact ⟨word, gap, rfl, by rw [text_span_append], hne, hword, hgap, hstops⟩
  · rintro ⟨word, gap, rfl, rfl, hne, hword, hgap, hstops⟩
    refine mem_readings_bind.mpr ⟨(), _, mem_readings_char.mpr rfl, ?_⟩
    refine mem_readings_bind.mpr ⟨⟨word ++ '}' :: (gap ++ rest), '}' :: (gap ++ rest)⟩, _,
      mem_readings_run1.mpr ⟨word, hne, rfl, hword, rfl⟩, ?_⟩
    refine mem_readings_bind.mpr ⟨(), _, mem_readings_char.mpr rfl, ?_⟩
    refine mem_readings_bind.mpr
      ⟨(), rest, mem_readings_blanks_iff.mpr ⟨gap, hgap, rfl, hstops⟩, ?_⟩
    exact mem_readings_pure.mpr ⟨by rw [text_span_append], rfl⟩

theorem exists_tagRun_of_mem_upTo {n : ℕ} {found items : List String} {s rest : List Char}
    (h : (items, rest) ∈ (bracedWord.upTo n found).readings s) :
    ∃ tagRun, IsTagRun tagRun ∧ s = tagRun ++ rest := by
  induction n generalizing found s with
  | zero =>
      obtain ⟨-, rfl⟩ := mem_readings_pure.mp h
      exact ⟨[], .nil, rfl⟩
  | succ n ih =>
      rcases mem_readings_upTo_succ.mp h with ⟨word, more, hword, hmem⟩ | ⟨-, rfl⟩
      · obtain ⟨tagRun, hrun, rfl⟩ := ih hmem
        obtain ⟨word, gap, rfl, -, hne, hword, hgap, -⟩ := mem_readings_bracedWord.mp hword
        exact ⟨_, .cons hne hword hgap hrun, by simp⟩
      · exact ⟨[], .nil, rfl⟩

theorem IsTagRun.exists_mem_upTo {tagRun rest : List Char} (h : IsTagRun tagRun)
    (hrest : Stops isBlank rest) {n : ℕ} (hn : tagRun.length ≤ n) (found : List String) :
    ∃ items, (items, rest) ∈ (bracedWord.upTo n found).readings (tagRun ++ rest) := by
  induction h generalizing n found with
  | nil =>
      cases n with
      | zero => exact ⟨found, mem_readings_pure.mpr ⟨rfl, rfl⟩⟩
      | succ n => exact ⟨found, mem_readings_upTo_succ.mpr (.inr ⟨rfl, rfl⟩)⟩
  | @cons word gap more hne hword hgap hmore ih =>
      cases n with
      | zero => contradiction
      | succ n =>
          have hitem := mem_readings_bracedWord.mpr
            ⟨word, gap, rfl, rfl, hne, hword, hgap, hmore.stops_isBlank_append hrest⟩
          have hlength : more.length ≤ n := by
            simp only [List.length_cons, List.length_append] at hn
            omega
          obtain ⟨items, hitems⟩ := ih hlength (String.ofList word :: found)
          refine ⟨items, mem_readings_upTo_succ.mpr (.inl ⟨_, more ++ rest, ?_, hitems⟩)⟩
          simpa using hitem

/-- Tags are read off a text as a run of words in braces. -/
theorem mem_readings_tags {s rest : List Char} (hrest : Stops isBlank rest) :
    (∃ items, (items, rest) ∈ tags.readings s) ↔
      ∃ tagRun, IsTagRun tagRun ∧ s = tagRun ++ rest := by
  constructor
  · rintro ⟨items, hmem⟩
    exact exists_tagRun_of_mem_upTo hmem
  · rintro ⟨tagRun, hrun, rfl⟩
    exact hrun.exists_mem_upTo hrest (by simp) []

/-! ## What has the shape -/

/-- The start of a member up to its name: a visibility sign, tags and a name,
with blanks between them. -/
structure MemberHead where
  sign : Char
  gap : List Char
  tagRun : List Char
  name : List Char
  space : List Char
  sign_ok : isVisibilitySign sign = true
  gap_ok : ∀ c ∈ gap, isBlank c = true
  tagRun_ok : IsTagRun tagRun
  name_ok : IsName name
  space_ok : ∀ c ∈ space, isBlank c = true

namespace MemberHead

/-- What stands behind the visibility sign. -/
def label (head : MemberHead) : List Char :=
  head.tagRun ++ (head.name ++ head.space)

/-- The text of a head. -/
def text (head : MemberHead) : List Char :=
  head.sign :: (head.gap ++ head.label)

variable (head : MemberHead)

theorem isBlank_sign : isBlank head.sign = false := by
  have hsign := head.sign_ok
  simp only [isVisibilitySign, Bool.or_eq_true, beq_iff_eq] at hsign
  rcases hsign with ((h | h) | h) | h <;> rw [h] <;> decide

theorem stops_isBlank_label (rest : List Char) : Stops isBlank (head.label ++ rest) := by
  rw [label, List.append_assoc, List.append_assoc]
  exact head.tagRun_ok.stops_isBlank_append (head.name_ok.stops_isBlank_append _)

theorem text_append (rest : List Char) :
    head.text ++ rest = head.sign :: (head.gap ++ (head.label ++ rest)) := by
  simp [text]

theorem mem_readings_gap (rest : List Char) :
    ((), head.label ++ rest) ∈ blanks.readings (head.gap ++ (head.label ++ rest)) :=
  mem_readings_blanks_iff.mpr ⟨head.gap, head.gap_ok, rfl, head.stops_isBlank_label rest⟩

theorem exists_mem_readings_tags (rest : List Char) :
    ∃ words, (words, head.name ++ (head.space ++ rest)) ∈ tags.readings (head.label ++ rest) := by
  have hlabel : head.label ++ rest = head.tagRun ++ (head.name ++ (head.space ++ rest)) := by
    simp [label]
  rw [hlabel]
  exact (mem_readings_tags (head.name_ok.stops_isBlank_append _)).mpr
    ⟨head.tagRun, head.tagRun_ok, rfl⟩

theorem mem_readings_space {rest : List Char} (hrest : Stops isBlank rest) :
    ((), rest) ∈ blanks.readings (head.space ++ rest) :=
  mem_readings_blanks_iff.mpr ⟨head.space, head.space_ok, rfl, hrest⟩

end MemberHead

/-- The shape up to the name reads a head and the blanks behind it. -/
theorem accepts_head_iff {β : Type} {f : Pattern β} {s : List Char} :
    (do
      let _ ← one isVisibilitySign
      blanks
      let _ ← tags
      skip1 isName
      blanks
      f : Pattern β).accepts s = true ↔
      ∃ (head : MemberHead) (rest : List Char),
        s = head.text ++ rest ∧ Stops isBlank rest ∧ f.accepts rest = true := by
  constructor
  · intro h
    obtain ⟨sign, s₁, h₁, h⟩ := accepts_bind.mp h
    obtain ⟨_, s₂, h₂, h⟩ := accepts_bind.mp h
    obtain ⟨_, s₃, h₃, h⟩ := accepts_bind.mp h
    obtain ⟨_, s₄, h₄, h⟩ := accepts_bind.mp h
    obtain ⟨_, rest, h₅, haccepts⟩ := accepts_bind.mp h
    obtain ⟨rfl, hsign⟩ := mem_readings_one.mp h₁
    obtain ⟨gap, hgap, rfl, -⟩ := mem_readings_blanks_iff.mp h₂
    obtain ⟨tagRun, hrun, rfl⟩ := exists_tagRun_of_mem_upTo h₃
    obtain ⟨name, hne, rfl, hname⟩ := mem_readings_skip1.mp h₄
    obtain ⟨space, hspace, rfl, hstops⟩ := mem_readings_blanks_iff.mp h₅
    refine ⟨⟨sign, gap, tagRun, name, space, hsign, hgap, hrun, ⟨hne, hname⟩, hspace⟩, rest,
      ?_, hstops, haccepts⟩
    simp [MemberHead.text, MemberHead.label]
  · rintro ⟨head, rest, rfl, hstops, haccepts⟩
    obtain ⟨words, hwords⟩ := head.exists_mem_readings_tags rest
    rw [head.text_append]
    refine accepts_bind.mpr ⟨_, _, mem_readings_one.mpr ⟨rfl, head.sign_ok⟩, ?_⟩
    refine accepts_bind.mpr ⟨(), _, head.mem_readings_gap rest, ?_⟩
    refine accepts_bind.mpr ⟨words, _, hwords, ?_⟩
    refine accepts_bind.mpr ⟨(), _, mem_readings_skip1.mpr
      ⟨head.name, head.name_ok.ne_nil, rfl, head.name_ok.all_name⟩, ?_⟩
    exact accepts_bind.mpr ⟨(), rest, head.mem_readings_space hstops, haccepts⟩

/-- A parameter list with blanks behind it, or no list at all. -/
inductive IsParameterList : List Char → Prop where
  | none : IsParameterList []
  | listed {parameters gap : List Char} (hclose : ')' ∉ parameters)
    (hgap : ∀ c ∈ gap, isBlank c = true) : IsParameterList ('(' :: (parameters ++ ')' :: gap))

/-- The parameters of the shape. -/
def shapeParameters : Pattern Unit := do
  char '('
  skip (noneOf [')'])
  char ')'
  blanks

/-- The colon of the shape and the start of a type. -/
def shapeType : Pattern Unit := do
  char ':'
  blanks
  let _ ← one (!isBlank ·)

theorem memberShape_eq : memberShape = (do
    blanks
    let _ ← one isVisibilitySign
    blanks
    let _ ← tags
    skip1 isName
    blanks
    let _ ← optional shapeParameters
    shapeType) := rfl

theorem mem_readings_shapeParameters {s rest : List Char} (hrest : Stops isBlank rest) :
    (∃ value, (value, rest) ∈ (optional shapeParameters).readings s) ↔
      ∃ list, IsParameterList list ∧ s = list ++ rest := by
  constructor
  · rintro ⟨_, hmem⟩
    rcases mem_readings_optional.mp hmem with ⟨_, -, hlist⟩ | ⟨-, rfl⟩
    · obtain ⟨_, s₁, h₁, hlist⟩ := mem_readings_bind.mp hlist
      obtain ⟨_, s₂, h₂, hlist⟩ := mem_readings_bind.mp hlist
      obtain ⟨_, s₃, h₃, h₄⟩ := mem_readings_bind.mp hlist
      obtain rfl := mem_readings_char.mp h₁
      obtain ⟨parameters, rfl, hparameters⟩ := mem_readings_skip.mp h₂
      obtain rfl := mem_readings_char.mp h₃
      obtain ⟨gap, hgap, rfl, -⟩ := mem_readings_blanks_iff.mp h₄
      exact ⟨_, .listed (forall_noneOf_iff.mp hparameters) hgap, by simp⟩
    · exact ⟨[], .none, rfl⟩
  · rintro ⟨list, hlist, rfl⟩
    cases hlist with
    | none => exact ⟨none, mem_readings_optional.mpr (.inr ⟨rfl, rfl⟩)⟩
    | @listed parameters gap hclose hgap =>
        refine ⟨some (), mem_readings_optional.mpr (.inl ⟨(), rfl, ?_⟩)⟩
        rw [List.cons_append, List.append_assoc, List.cons_append]
        refine mem_readings_bind.mpr ⟨(), _, mem_readings_char.mpr rfl, ?_⟩
        refine mem_readings_bind.mpr ⟨(), _, mem_readings_skip.mpr
          ⟨parameters, rfl, forall_noneOf_iff.mpr hclose⟩, ?_⟩
        refine mem_readings_bind.mpr ⟨(), _, mem_readings_char.mpr rfl, ?_⟩
        exact mem_readings_blanks_iff.mpr ⟨gap, hgap, rfl, hrest⟩

theorem shapeType_accepts_iff {s : List Char} :
    shapeType.accepts s = true ↔
      ∃ gap c after, (∀ d ∈ gap, isBlank d = true) ∧ isBlank c = false ∧
        s = ':' :: (gap ++ c :: after) := by
  constructor
  · intro h
    obtain ⟨_, s₁, h₁, h⟩ := accepts_bind.mp h
    obtain ⟨_, s₂, h₂, h⟩ := accepts_bind.mp h
    obtain ⟨c, after, h₃, -⟩ := accepts_bind.mp h
    obtain rfl := mem_readings_char.mp h₁
    obtain ⟨gap, hgap, rfl, -⟩ := mem_readings_blanks_iff.mp h₂
    obtain ⟨rfl, hc⟩ := mem_readings_one.mp h₃
    exact ⟨gap, c, after, hgap, by simpa using hc, rfl⟩
  · rintro ⟨gap, c, after, hgap, hc, rfl⟩
    refine accepts_bind.mpr ⟨(), _, mem_readings_char.mpr rfl, ?_⟩
    refine accepts_bind.mpr ⟨(), c :: after, mem_readings_blanks_iff.mpr
      ⟨gap, hgap, rfl, stops_cons.mpr hc⟩, ?_⟩
    exact accepts_bind.mpr ⟨c, after, mem_readings_one.mpr ⟨rfl, by simpa using hc⟩, rfl⟩

/-- A line has the shape of a member if it is, behind blanks, a head with or
without parameters, and a colon before something that is not blank. -/
theorem isMemberLine_iff {line : List Char} :
    isMemberLine line = true ↔
      ∃ (lead : List Char) (head : MemberHead) (list gap : List Char) (c : Char)
        (after : List Char), (∀ d ∈ lead, isBlank d = true) ∧ IsParameterList list ∧
        (∀ d ∈ gap, isBlank d = true) ∧ isBlank c = false ∧
        line = lead ++ (head.text ++ (list ++ ':' :: (gap ++ c :: after))) := by
  rw [isMemberLine, memberShape_eq]
  constructor
  · intro h
    obtain ⟨_, s₁, h₁, hbehind⟩ := accepts_bind.mp h
    obtain ⟨head, s₂, rfl, -, hrest⟩ := accepts_head_iff.mp hbehind
    obtain ⟨value, s₃, h₂, htype⟩ := accepts_bind.mp hrest
    obtain ⟨gap, c, after, hgap, hc, rfl⟩ := shapeType_accepts_iff.mp htype
    obtain ⟨list, hlist, rfl⟩ :=
      (mem_readings_shapeParameters (stops_cons.mpr (by decide))).mp ⟨value, h₂⟩
    obtain ⟨lead, hlead, rfl, -⟩ := mem_readings_blanks_iff.mp h₁
    exact ⟨lead, head, list, gap, c, after, hlead, hlist, hgap, hc, rfl⟩
  · rintro ⟨lead, head, list, gap, c, after, hlead, hlist, hgap, hc, rfl⟩
    have hcolon : Stops isBlank (':' :: (gap ++ c :: after)) := stops_cons.mpr (by decide)
    have hsign : Stops isBlank (head.text ++ (list ++ ':' :: (gap ++ c :: after))) :=
      stops_cons.mpr head.isBlank_sign
    have hparameters : Stops isBlank (list ++ ':' :: (gap ++ c :: after)) := by
      cases hlist with
      | none => exact hcolon
      | listed => exact stops_cons.mpr (by decide)
    obtain ⟨value, hvalue⟩ := (mem_readings_shapeParameters hcolon).mpr ⟨list, hlist, rfl⟩
    refine accepts_bind.mpr ⟨(), _, mem_readings_blanks_iff.mpr ⟨lead, hlead, rfl, hsign⟩, ?_⟩
    refine accepts_head_iff.mpr ⟨head, _, rfl, hparameters, ?_⟩
    exact accepts_bind.mpr
      ⟨value, _, hvalue, shapeType_accepts_iff.mpr ⟨gap, c, after, hgap, hc, rfl⟩⟩

/-! ## Member lines -/

theorem isSome_member?_of_operationLine {line : List Char}
    (h : operationLine.accepts line = true) : (member? line).isSome = true := by
  obtain ⟨reading, hreading⟩ := Option.isSome_iff_exists.mp h
  rw [member?, hreading]
  rfl

theorem isSome_member?_of_attributeLine {line : List Char}
    (h : attributeLine.accepts line = true) : (member? line).isSome = true := by
  obtain ⟨reading, hreading⟩ := Option.isSome_iff_exists.mp h
  rw [member?, hreading]
  cases operationLine.first? line <;> rfl

theorem mem_readings_afterColon {gap text : List Char} (hgap : ∀ c ∈ gap, isBlank c = true)
    (hne : text ≠ []) (hline : '\n' ∉ text) :
    (⟨text, []⟩, []) ∈ afterColon.readings (':' :: (gap ++ text)) := by
  refine mem_readings_bind.mpr ⟨(), _, mem_readings_char.mpr rfl, ?_⟩
  refine mem_readings_bind.mpr ⟨(), text, mem_readings_skip.mpr ⟨gap, rfl, hgap⟩, ?_⟩
  exact mem_readings_run1.mpr
    ⟨text, hne, (List.append_nil text).symm, forall_inLine_iff.mpr hline, rfl⟩

/-- A member line can start with a head. -/
theorem MemberHead.accepts (head : MemberHead) {β : Type}
    {f : MemberStart → Span → Pattern β} {rest : List Char} (hrest : Stops isBlank rest)
    (hf : ∀ start name, (f start name).accepts rest = true) :
    (do
      let start ← memberStart
      let name ← run1 isName
      blanks
      f start name : Pattern β).accepts (head.text ++ rest) = true := by
  obtain ⟨words, hwords⟩ := head.exists_mem_readings_tags rest
  rw [head.text_append]
  refine accepts_bind.mpr
    ⟨⟨.ofSymbol (some head.sign), words⟩, head.name ++ (head.space ++ rest), ?_, ?_⟩
  · refine mem_readings_bind.mpr ⟨some head.sign, _, mem_readings_optional.mpr
      (.inl ⟨head.sign, rfl, mem_readings_one.mpr ⟨rfl, head.sign_ok⟩⟩), ?_⟩
    refine mem_readings_bind.mpr ⟨(), _, head.mem_readings_gap rest, ?_⟩
    exact mem_readings_bind.mpr ⟨words, _, hwords, mem_readings_pure.mpr ⟨rfl, rfl⟩⟩
  · refine accepts_bind.mpr ⟨_, _, mem_readings_run1.mpr
      ⟨head.name, head.name_ok.ne_nil, rfl, head.name_ok.all_name, rfl⟩, ?_⟩
    exact accepts_bind.mpr ⟨(), rest, head.mem_readings_space hrest, hf _ _⟩

/-- A head, perhaps with parameters, and any text behind a colon make a member
line. -/
theorem isSome_member?_shape (head : MemberHead) {list gap text : List Char}
    (hlist : IsParameterList list) (hgap : ∀ c ∈ gap, isBlank c = true) (hne : text ≠ [])
    (hline : '\n' ∉ list ∧ '\n' ∉ text) :
    (member? (head.text ++ (list ++ ':' :: (gap ++ text)))).isSome = true := by
  have htype := mem_readings_afterColon hgap hne hline.2
  cases hlist with
  | none =>
      refine isSome_member?_of_attributeLine (head.accepts (stops_cons.mpr (by decide)) ?_)
      intro start name
      exact accepts_bind.mpr ⟨_, _, htype, rfl⟩
  | @listed parameters space hclose hspace =>
      refine isSome_member?_of_operationLine (head.accepts (stops_cons.mpr (by decide)) ?_)
      intro start name
      have hparameters : '\n' ∉ parameters := by
        have hin := hline.1
        simp only [List.mem_cons, List.mem_append, not_or] at hin
        exact hin.2.1
      rw [List.cons_append, List.append_assoc, List.cons_append]
      refine accepts_bind.mpr ⟨(), _, mem_readings_char.mpr rfl, ?_⟩
      refine accepts_bind.mpr ⟨_, _, mem_readings_taken.mpr ⟨rfl, (), mem_readings_skip.mpr
        ⟨parameters, rfl, forall_inLine_iff.mpr hparameters⟩⟩, ?_⟩
      refine accepts_bind.mpr ⟨(), _, mem_readings_char.mpr rfl, ?_⟩
      refine accepts_bind.mpr ⟨(), _, mem_readings_blanks_iff.mpr
        ⟨space, hspace, rfl, stops_cons.mpr (by decide)⟩, ?_⟩
      exact accepts_bind.mpr ⟨_, _, mem_readings_optional.mpr (.inl ⟨_, rfl, htype⟩), rfl⟩

/-- Trimming takes nothing off the shape. -/
theorem trim_shape (head : MemberHead) {lead : List Char} (hlead : ∀ d ∈ lead, isBlank d = true)
    {c : Char} (hc : isBlank c = false) (list gap after : List Char) :
    trim (lead ++ (head.text ++ (list ++ ':' :: (gap ++ c :: after)))) =
      head.text ++ (list ++ ':' :: (gap ++ c :: trimEnd after)) := by
  have hsplit : ∀ more, head.text ++ (list ++ ':' :: (gap ++ c :: more)) =
      head.text ++ (list ++ ':' :: (gap ++ [c])) ++ more := by simp
  have hstart : Stops isBlank (head.text ++ (list ++ ':' :: (gap ++ c :: after))) :=
    stops_cons.mpr head.isBlank_sign
  have hend : Stops isBlank (head.text ++ (list ++ ':' :: (gap ++ [c]))).reverse := by
    simpa using hc
  rw [trim_blank_append hlead, trim, trimStart_eq_self hstart, hsplit, trimEnd_append hend,
    ← hsplit]

/-- A line with the shape of a member is a member line once it is trimmed. -/
theorem isSome_member?_trim {line : List Char} (h : isMemberLine line = true)
    (hline : '\n' ∉ line) : (member? (trim line)).isSome = true := by
  obtain ⟨lead, head, list, gap, c, after, hlead, hlist, hgap, hc, rfl⟩ := isMemberLine_iff.mp h
  have htrim : '\n' ∉ trim (lead ++ (head.text ++ (list ++ ':' :: (gap ++ c :: after)))) :=
    fun hmem => hline (mem_of_mem_trim hmem)
  rw [trim_shape head hlead hc] at htrim ⊢
  simp only [List.mem_append, List.mem_cons, not_or] at htrim
  refine isSome_member?_shape head hlist hgap (List.cons_ne_nil c _) ⟨htrim.2.1, ?_⟩
  rw [List.mem_cons, not_or]
  exact htrim.2.2.2.2

/-! ## Detected lines -/

/-- A block with a member on the line where it opens has a part of the line with
the shape of one. -/
theorem exists_part_of_isInlineBlock {line : List Char} (h : isInlineBlock line = true) :
    ∃ part, part <:+: line ∧ isMemberLine part = true := by
  rw [isInlineBlock] at h
  split at h
  next => contradiction
  next opening hopening =>
    obtain ⟨header, hheader, hopening⟩ := Option.bind_eq_some_iff.mp hopening
    obtain ⟨_, -, hsuffix⟩ := exists_opening_suffix hheader hopening
    obtain ⟨part, hpart, hshape⟩ := List.any_eq_true.mp h
    refine ⟨part, (infix_of_mem_splitOn hpart).trans ?_, hshape⟩
    have hinner : opening.dropWhile (· == '{') <:+: line :=
      ((List.dropWhile_suffix _).trans hsuffix).isInfix.trans (isInfix_trim line)
    cases hclosed : ['}'].isSuffixOf? (trimEnd (opening.dropWhile (· == '{'))) with
    | none => exact hinner
    | some inner =>
        have hstart : inner <+: trimEnd (opening.dropWhile (· == '{')) :=
          ⟨['}'], List.isSuffixOf?_eq_some_iff_append_eq.mp hclosed⟩
        exact (hstart.trans (isPrefix_trimEnd _)).isInfix.trans hinner

end ClassAtlas.Diagram

namespace ClassAtlas.Dialect

open Text Diagram

theorem detect_eq_diagram_iff {unit : String} (hunit : ofExtension? unit = none)
    (text : List Char) : detect unit text = .diagram ↔ looksLikeDiagram text = true := by
  rw [detect, hunit]
  simp

/-- What makes a unit without a known extension a diagram is its marker, a line
that is a member line once it is trimmed, or a block that has such a line
inside. No line that only looks like a member does. -/
theorem detect_by_member_lines :
    (∀ line : List Char, '\n' ∉ line → isMemberLine line = true →
      (member? (trim line)).isSome = true) ∧
    ∀ (unit : String) (text : List Char), ofExtension? unit = none →
      (detect unit text = .diagram ↔
        occursIn "@startuml".toList text = true ∨
        (∃ line ∈ lines text, isMemberLine line = true ∧
          (member? (trim line)).isSome = true) ∨
        ∃ line ∈ lines text, isInlineBlock line = true ∧
          ∃ part, part <:+: line ∧ isMemberLine part = true ∧
            (member? (trim part)).isSome = true) := by
  refine ⟨fun line hline h => isSome_member?_trim h hline, ?_⟩
  intro unit text hunit
  rw [detect_eq_diagram_iff hunit, looksLikeDiagram, Bool.or_eq_true, List.any_eq_true]
  simp only [Bool.or_eq_true]
  constructor
  · rintro (hmarker | ⟨line, hmem, hshape | hblock⟩)
    · exact .inl hmarker
    · have hline := newline_notMem_of_mem_lines hmem
      exact .inr (.inl ⟨line, hmem, hshape, isSome_member?_trim hshape hline⟩)
    · obtain ⟨part, hpart, hshape⟩ := exists_part_of_isInlineBlock hblock
      have hline : '\n' ∉ part := fun h => newline_notMem_of_mem_lines hmem (hpart.subset h)
      exact .inr (.inr ⟨line, hmem, hblock, part, hpart, hshape,
        isSome_member?_trim hshape hline⟩)
  · rintro (hmarker | ⟨line, hmem, hshape, -⟩ | ⟨line, hmem, hblock, -⟩)
    · exact .inl hmarker
    · exact .inr ⟨line, hmem, .inl hshape⟩
    · exact .inr ⟨line, hmem, .inr hblock⟩

/-- A line with several parentheses and colons, and a note that it makes a
diagram. -/
theorem detect_by_member_lines_note :
    let line := " - find(key) : Map(of) : List ".toList
    let text := "a note\n".toList ++ line
    '\n' ∉ line ∧ isMemberLine line = true ∧ (member? (trim line)).isSome = true ∧
      ofExtension? "note" = none ∧ detect "note" text = .diagram := by
  intro line text
  have hline : '\n' ∉ line := by decide
  have hshape : isMemberLine line = true := by decide +kernel
  have hmem : line ∈ lines text := by decide +kernel
  have hunit : ofExtension? "note" = none := by decide +kernel
  have hmember := detect_by_member_lines.1 line hline hshape
  exact ⟨hline, hshape, hmember, hunit,
    (detect_by_member_lines.2 "note" text hunit).mpr (.inr (.inl ⟨line, hmem, hshape, hmember⟩))⟩

end ClassAtlas.Dialect
