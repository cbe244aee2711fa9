import ClassAtlas.Proofs.Diagram.UnclosedBlocks

/-!
# The shape of header lines

A header line is a word, a name, perhaps a stereotype and type parameters,
clauses for supertypes, and the body if it opens on the line. This module says
in terms of the text what can stand in each of these places. The end of a header
is simpler than its rule: a clause is a list of any characters but a brace, so a
second clause goes into the list of the first.
-/

namespace ClassAtlas.Diagram

open Text Pattern

/-! ## The end of a header -/

/-- The clauses at the end of a header: blanks, or a word and a list behind it,
which no brace interrupts. -/
inductive IsClauses : List Char → Prop where
  | blank {s : List Char} (hs : ∀ c ∈ s, isBlank c = true) : IsClauses s
  | listed {gap list : List Char} {word : String} {c : Char} (hne : gap ≠ [])
    (hgap : ∀ d ∈ gap, isBlank d = true) (hword : word ∈ ["extends", "implements"])
    (hc : isBlank c = true) (hlist : list ≠ []) (hbrace : '{' ∉ list) :
    IsClauses (gap ++ (word.toList ++ c :: list))

/-- What can follow the clauses of a header: nothing, or the body. -/
def IsOpening (s : List Char) : Prop :=
  s = [] ∨ ∃ more, s = '{' :: more

/-- The end of a header line: its clauses, and the body if it opens there. -/
def EndsHeader (s : List Char) : Prop :=
  ∃ clauses opening, s = clauses ++ opening ∧ IsClauses clauses ∧ IsOpening opening

/-- The clauses of a header line and what follows them. -/
def headerClauses (build : Option Span → Option Span → Option Span → HeaderParts) :
    Pattern HeaderParts := do
  let extended ← optional (supertypeList "extends")
  let implemented ← optional (supertypeList "implements")
  blanks
  let opening ← optional bodyOpening
  atEnd
  return build extended implemented opening

/-- A header line behind the name of the block. -/
def headerRest (words : TypeKind × Bool) (name : Span) : Pattern HeaderParts := do
  let _ ← optional stereotype
  let _ ← optional typeParameters
  headerClauses fun extended implemented opening => {
    kind := words.1
    isAbstract := words.2
    name := name.text
    extended := extended.map Span.text
    implemented := implemented.map Span.text
    opening := opening.map Span.text }

theorem headerLine_eq : headerLine = (do
    let words ← blockKeyword
    blanks1
    let name ← blockName
    headerRest words name) := rfl

theorem mem_readings_supertypeList {word : String} (hword : word ∈ ["extends", "implements"])
    {s rest : List Char} :
    (∃ span, (span, rest) ∈ (supertypeList word).readings s) ↔
      ∃ gap c list, s = gap ++ (word.toList ++ c :: (list ++ rest)) ∧ gap ≠ [] ∧
        (∀ d ∈ gap, isBlank d = true) ∧ isBlank c = true ∧ list ≠ [] ∧ '{' ∉ list := by
  constructor
  · rintro ⟨span, hmem⟩
    obtain ⟨_, s₁, h₁, hmem⟩ := mem_readings_bind.mp hmem
    obtain ⟨_, s₂, h₂, hmem⟩ := mem_readings_bind.mp hmem
    obtain ⟨_, s₃, h₃, h₄⟩ := mem_readings_bind.mp hmem
    obtain ⟨gap, hne, hgap, rfl, -⟩ := mem_readings_blanks1_iff.mp h₁
    obtain rfl := mem_readings_literal.mp h₂
    obtain ⟨blank, hblank, rfl, hall⟩ := mem_readings_skip1.mp h₃
    obtain ⟨-, _, hrun⟩ := mem_readings_taken.mp h₄
    obtain ⟨list, hlist, rfl, hok⟩ := mem_readings_skipFew1.mp hrun
    obtain ⟨c, blank, rfl⟩ := List.exists_cons_of_ne_nil hblank
    obtain ⟨hc, hblank⟩ := List.forall_mem_cons.mp hall
    refine ⟨gap, c, blank ++ list, by simp, hne, hgap, hc, by simp [hlist], ?_⟩
    intro hbrace
    rcases List.mem_append.mp hbrace with hmem | hmem
    · exact absurd (hblank '{' hmem) (by decide)
    · exact forall_noneOf_iff.mp hok hmem
  · rintro ⟨gap, c, list, rfl, hne, hgap, hc, hlist, hbrace⟩
    have hstops : Stops isBlank (word.toList ++ c :: (list ++ rest)) := by
      simp only [List.mem_cons, List.not_mem_nil, or_false] at hword
      rcases hword with rfl | rfl <;> exact stops_cons.mpr (by decide)
    refine ⟨⟨list ++ rest, rest⟩, mem_readings_bind.mpr ⟨(), _, mem_readings_blanks1_iff.mpr
      ⟨gap, hne, hgap, rfl, hstops⟩, ?_⟩⟩
    refine mem_readings_bind.mpr ⟨(), _, mem_readings_literal.mpr rfl, ?_⟩
    refine mem_readings_bind.mpr ⟨(), list ++ rest, mem_readings_skip1.mpr
      ⟨[c], by simp, rfl, by simpa using hc⟩, ?_⟩
    exact mem_readings_taken.mpr ⟨rfl, (), mem_readings_skipFew1.mpr
      ⟨list, hlist, rfl, forall_noneOf_iff.mpr hbrace⟩⟩

theorem IsOpening.stops {s : List Char} (h : IsOpening s) : Stops isBlank s := by
  rcases h with rfl | ⟨more, rfl⟩
  · exact stops_nil isBlank
  · exact stops_cons.mpr (by decide)

section Opening

variable {α : Type} {f : Option Span → α} {s : List Char}

theorem isOpening_of_accepts
    (h : (do let opening ← optional bodyOpening; atEnd; return f opening : Pattern α).accepts s =
      true) : IsOpening s := by
  obtain ⟨_, s₁, h₁, h⟩ := accepts_bind.mp h
  obtain ⟨_, s₂, h₂, -⟩ := accepts_bind.mp h
  obtain ⟨rfl, rfl⟩ := mem_readings_atEnd.mp h₂
  rcases mem_readings_optional.mp h₁ with ⟨span, -, hbody⟩ | ⟨-, hnil⟩
  · obtain ⟨-, _, hbody⟩ := mem_readings_taken.mp hbody
    obtain ⟨_, s₃, hchar, -⟩ := mem_readings_bind.mp hbody
    exact Or.inr ⟨s₃, mem_readings_char.mp hchar⟩
  · exact Or.inl hnil.symm

/-- A body runs to the end of the line. -/
theorem IsOpening.accepts (h : IsOpening s) (hline : '\n' ∉ s) :
    (do let opening ← optional bodyOpening; atEnd; return f opening : Pattern α).accepts s =
      true := by
  rcases h with rfl | ⟨more, rfl⟩
  · rfl
  · have hmore : ∀ c ∈ more, inLine c = true :=
      forall_inLine_iff.mpr fun hmem => hline (List.mem_cons_of_mem _ hmem)
    have hbody : (⟨'{' :: more, []⟩, []) ∈ bodyOpening.readings ('{' :: more) := by
      refine mem_readings_taken.mpr ⟨rfl, (), mem_readings_bind.mpr ?_⟩
      exact ⟨(), more, mem_readings_char.mpr rfl, mem_readings_skip.mpr ⟨more, by simp, hmore⟩⟩
    exact accepts_bind.mpr ⟨_, [], mem_readings_optional.mpr (Or.inl ⟨_, rfl, hbody⟩), rfl⟩

end Opening

theorem IsClauses.brace_notMem {s : List Char} (h : IsClauses s) : '{' ∉ s := by
  have hblank : ∀ gap : List Char, (∀ d ∈ gap, isBlank d = true) → '{' ∉ gap :=
    fun gap hgap hmem => absurd (hgap '{' hmem) (by decide)
  cases h with
  | blank hs => exact hblank s hs
  | listed hne hgap hword hc hlist hbrace =>
      rename_i gap list word c
      have hword' : '{' ∉ word.toList :=
        (by decide : ∀ word ∈ ["extends", "implements"], '{' ∉ word.toList) word hword
      have hc' : '{' ≠ c := by
        rintro rfl
        contradiction
      simp [hblank gap hgap, hword', hc', hbrace]

/-- A clause goes into the list in front of it. -/
theorem EndsHeader.of_optional {word : String} (hword : word ∈ ["extends", "implements"])
    {s rest : List Char} {value : Option Span}
    (hmem : (value, rest) ∈ (optional (supertypeList word)).readings s) (h : EndsHeader rest) :
    EndsHeader s := by
  rcases mem_readings_optional.mp hmem with ⟨span, -, hspan⟩ | ⟨-, rfl⟩
  · obtain ⟨gap, c, list, rfl, hne, hgap, hc, hlist, hbrace⟩ :=
      (mem_readings_supertypeList hword).mp ⟨span, hspan⟩
    obtain ⟨clauses, opening, rfl, hclauses, hopening⟩ := h
    refine ⟨gap ++ (word.toList ++ c :: (list ++ clauses)), opening, by simp, ?_, hopening⟩
    refine .listed hne hgap hword hc (by simp [hlist]) ?_
    simp [hbrace, hclauses.brace_notMem]
  · exact h

theorem endsHeader_of_accepts
    {build : Option Span → Option Span → Option Span → HeaderParts} {s : List Char}
    (h : (headerClauses build).accepts s = true) : EndsHeader s := by
  obtain ⟨extended, s₁, h₁, h⟩ := accepts_bind.mp h
  obtain ⟨implemented, s₂, h₂, h⟩ := accepts_bind.mp h
  obtain ⟨_, opening, h₃, h₄⟩ := accepts_bind.mp h
  refine EndsHeader.of_optional (by decide) h₁ (EndsHeader.of_optional (by decide) h₂ ?_)
  obtain ⟨blank, hblank, rfl, -⟩ := mem_readings_blanks_iff.mp h₃
  exact ⟨blank, opening, rfl, .blank hblank, isOpening_of_accepts h₄⟩

theorem EndsHeader.accepts
    {build : Option Span → Option Span → Option Span → HeaderParts} {s : List Char}
    (h : EndsHeader s) (hline : '\n' ∉ s) : (headerClauses build).accepts s = true := by
  obtain ⟨clauses, opening, rfl, hclauses, hopening⟩ := h
  have hline' : '\n' ∉ opening := fun hmem => hline (List.mem_append_right _ hmem)
  have hnone : ∀ (p : Pattern Span) (t : List Char), (none, t) ∈ p.optional.readings t :=
    fun p t => mem_readings_optional.mpr (Or.inr ⟨rfl, rfl⟩)
  have hblanks : ((), opening) ∈ blanks.readings opening :=
    mem_readings_blanks_iff.mpr ⟨[], by simp, rfl, hopening.stops⟩
  cases hclauses with
  | blank hblank =>
      refine accepts_bind.mpr ⟨none, _, hnone _ _, accepts_bind.mpr ⟨none, _, hnone _ _, ?_⟩⟩
      exact accepts_bind.mpr ⟨(), opening, mem_readings_blanks_iff.mpr
        ⟨clauses, hblank, rfl, hopening.stops⟩, hopening.accepts hline'⟩
  | listed hne hgap hword hc hlist hbrace =>
      rename_i gap list word c
      obtain ⟨span, hspan⟩ := (mem_readings_supertypeList hword).mpr
        ⟨gap, c, list, (rfl : _ = gap ++ (word.toList ++ c :: (list ++ opening))), hne, hgap, hc,
          hlist, hbrace⟩
      have hsome := mem_readings_optional.mpr (Or.inl ⟨span, rfl, hspan⟩)
      have htext : gap ++ (word.toList ++ c :: list) ++ opening =
          gap ++ (word.toList ++ c :: (list ++ opening)) := by
        simp
      rw [htext]
      simp only [List.mem_cons, List.not_mem_nil, or_false] at hword
      rcases hword with rfl | rfl
      · refine accepts_bind.mpr ⟨_, _, hsome, accepts_bind.mpr ⟨none, _, hnone _ _, ?_⟩⟩
        exact accepts_bind.mpr ⟨(), opening, hblanks, hopening.accepts hline'⟩
      · refine accepts_bind.mpr ⟨none, _, hnone _ _, accepts_bind.mpr ⟨_, _, hsome, ?_⟩⟩
        exact accepts_bind.mpr ⟨(), opening, hblanks, hopening.accepts hline'⟩

/-- A header without type parameters goes on with a word or with its body. -/
theorem EndsHeader.head?_trimStart {s : List Char} (h : EndsHeader s) :
    ∀ c ∈ (trimStart s).head?, c ∈ ['{', 'e', 'i'] := by
  obtain ⟨clauses, opening, rfl, hclauses, hopening⟩ := h
  intro c hc
  cases hclauses with
  | blank hblank =>
      rw [trimStart_append_of_blank hblank, trimStart_eq_self hopening.stops] at hc
      rcases hopening with rfl | ⟨more, rfl⟩
      · contradiction
      · rw [← Option.some.inj hc]
        exact List.mem_cons_self
  | @listed gap list word d hne hgap hword =>
      obtain ⟨first, hfirst, hhead⟩ : ∃ c ∈ ['e', 'i'], word.toList.head? = some c :=
        (by decide : ∀ word ∈ ["extends", "implements"],
          ∃ c ∈ ['e', 'i'], word.toList.head? = some c) word hword
      have hletters : ∀ c ∈ ['e', 'i'], isBlank c = false ∧ c ∈ ['{', 'e', 'i'] := by decide
      obtain ⟨more, hmore⟩ := List.head?_eq_some_iff.mp hhead
      rw [List.append_assoc, trimStart_append_of_blank hgap, hmore, List.cons_append,
        List.cons_append, trimStart_eq_self (stops_cons.mpr (hletters first hfirst).1)] at hc
      rw [← Option.some.inj hc]
      exact (hletters first hfirst).2

/-- Type parameters and the end of a header, behind the name of the block. -/
def EndsGeneric (s : List Char) : Prop :=
  ∃ space parameters tail, s = space ++ '<' :: (parameters ++ '>' :: tail) ∧
    (∀ c ∈ space, isBlank c = true) ∧ (∀ c ∈ parameters, c ∉ ['<', '>', '{']) ∧ EndsHeader tail

theorem mem_readings_typeParameters {s rest : List Char} :
    ((), rest) ∈ typeParameters.readings s ↔
      ∃ space parameters, s = space ++ '<' :: (parameters ++ '>' :: rest) ∧
        (∀ c ∈ space, isBlank c = true) ∧ ∀ c ∈ parameters, c ∉ ['<', '>', '{'] := by
  constructor
  · intro hmem
    obtain ⟨_, s₁, h₁, hmem⟩ := mem_readings_bind.mp hmem
    obtain ⟨_, s₂, h₂, hmem⟩ := mem_readings_bind.mp hmem
    obtain ⟨_, s₃, h₃, h₄⟩ := mem_readings_bind.mp hmem
    obtain ⟨space, hspace, rfl, -⟩ := mem_readings_blanks_iff.mp h₁
    obtain rfl := mem_readings_char.mp h₂
    obtain ⟨parameters, rfl, hparameters⟩ := mem_readings_skip.mp h₃
    obtain rfl := mem_readings_char.mp h₄
    exact ⟨space, parameters, rfl, hspace, fun c hc => noneOf_iff.mp (hparameters c hc)⟩
  · rintro ⟨space, parameters, rfl, hspace, hparameters⟩
    have hstops : Stops isBlank ('<' :: (parameters ++ '>' :: rest)) :=
      stops_cons.mpr (by decide)
    refine mem_readings_bind.mpr
      ⟨(), _, mem_readings_blanks_iff.mpr ⟨space, hspace, rfl, hstops⟩, ?_⟩
    refine mem_readings_bind.mpr ⟨(), _, mem_readings_char.mpr rfl, ?_⟩
    refine mem_readings_bind.mpr ⟨(), '>' :: rest, mem_readings_skip.mpr
      ⟨parameters, rfl, fun c hc => noneOf_iff.mpr (hparameters c hc)⟩, ?_⟩
    exact mem_readings_char.mpr rfl

/-- Where neither a word nor the body follows the name of a block, and no
stereotype, its type parameters follow. -/
theorem endsGeneric_of_accepts {words : TypeKind × Bool} {name : Span} {s : List Char} {c : Char}
    (h : (headerRest words name).accepts s = true) (hhead : (trimStart s).head? = some c)
    (hc : c ∉ ['{', 'e', 'i']) (hstereotype : ∀ more, trimStart s ≠ '<' :: '<' :: more) :
    EndsGeneric s := by
  obtain ⟨_, s₁, h₁, h⟩ := accepts_bind.mp h
  obtain ⟨_, s₂, h₂, h⟩ := accepts_bind.mp h
  have hend := endsHeader_of_accepts h
  have hsame : s₁ = s := by
    rcases mem_readings_optional.mp h₁ with ⟨_, -, hread⟩ | ⟨-, hsame⟩
    · obtain ⟨_, s₃, hblanks, hread⟩ := mem_readings_bind.mp hread
      obtain ⟨_, s₄, hopen, -⟩ := mem_readings_bind.mp hread
      rw [mem_readings_blanks.mp hblanks] at hopen
      exact absurd (mem_readings_literal.mp hopen) (hstereotype s₄)
    · exact hsame
  rw [hsame] at h₂
  rcases mem_readings_optional.mp h₂ with ⟨_, -, hread⟩ | ⟨-, rfl⟩
  · obtain ⟨space, parameters, hs, hspace, hparameters⟩ := mem_readings_typeParameters.mp hread
    exact ⟨space, parameters, s₂, hs, hspace, hparameters, hend⟩
  · exact absurd (hend.head?_trimStart c hhead) hc

theorem EndsGeneric.accepts {words : TypeKind × Bool} {name : Span} {s : List Char}
    (h : EndsGeneric s) (hline : '\n' ∉ s) : (headerRest words name).accepts s = true := by
  obtain ⟨space, parameters, tail, rfl, hspace, hparameters, htail⟩ := h
  have hline' : '\n' ∉ tail := fun hmem => hline (by simp [hmem])
  refine accepts_bind.mpr ⟨none, _, mem_readings_optional.mpr (Or.inr ⟨rfl, rfl⟩), ?_⟩
  refine accepts_bind.mpr ⟨some (), tail, mem_readings_optional.mpr (Or.inl ⟨(), rfl, ?_⟩), ?_⟩
  · exact mem_readings_typeParameters.mpr ⟨space, parameters, rfl, hspace, hparameters⟩
  · exact htail.accepts hline'

/-! ## The start of a header -/

theorem cases_of_blockKeyword {line rest : List Char} {words : TypeKind × Bool}
    (h : (words, rest) ∈ blockKeyword.readings line) :
    (∃ word ∈ headerWords, line = word.toList ++ rest) ∨
      ∃ gap, line = "abstract".toList ++ (gap ++ ("class".toList ++ rest)) ∧ gap ≠ [] ∧
        ∀ c ∈ gap, isBlank c = true := by
  obtain ⟨p, hp, hmem⟩ := mem_readings_oneOf.mp h
  simp only [List.mem_cons, List.not_mem_nil, or_false] at hp
  rcases hp with rfl | rfl | rfl | rfl | rfl
  · obtain ⟨_, s₁, h₁, hmem⟩ := mem_readings_bind.mp hmem
    obtain ⟨_, s₂, h₂, hmem⟩ := mem_readings_bind.mp hmem
    obtain ⟨_, s₃, h₃, hmem⟩ := mem_readings_bind.mp hmem
    obtain ⟨-, rfl⟩ := mem_readings_pure.mp hmem
    obtain rfl := mem_readings_literal.mp h₁
    obtain ⟨gap, hne, hgap, rfl, -⟩ := mem_readings_blanks1_iff.mp h₂
    obtain rfl := mem_readings_literal.mp h₃
    exact Or.inr ⟨gap, rfl, hne, hgap⟩
  all_goals
    obtain ⟨_, s, hliteral, hmem⟩ := mem_readings_bind.mp hmem
    obtain ⟨-, rfl⟩ := mem_readings_pure.mp hmem
    refine Or.inl ⟨_, ?_, mem_readings_literal.mp hliteral⟩
    decide

theorem exists_mem_readings_blockKeyword {word : String} (hword : word ∈ headerWords)
    (rest : List Char) : ∃ words, (words, rest) ∈ blockKeyword.readings (word.toList ++ rest) := by
  have hread : ∀ words : TypeKind × Bool,
      (words, rest) ∈ (do literal word; return words : Pattern _).readings (word.toList ++ rest) :=
    fun words => mem_readings_bind.mpr
      ⟨(), rest, mem_readings_literal.mpr rfl, mem_readings_pure.mpr ⟨rfl, rfl⟩⟩
  simp only [headerWords, List.mem_cons, List.not_mem_nil, or_false] at hword
  rcases hword with rfl | rfl | rfl | rfl
  · exact ⟨_, mem_readings_oneOf.mpr ⟨_, .tail _ (.head _), hread _⟩⟩
  · exact ⟨_, mem_readings_oneOf.mpr ⟨_, .tail _ (.tail _ (.head _)), hread _⟩⟩
  · exact ⟨_, mem_readings_oneOf.mpr ⟨_, .tail _ (.tail _ (.tail _ (.head _))), hread _⟩⟩
  · exact ⟨_, mem_readings_oneOf.mpr
      ⟨_, .tail _ (.tail _ (.tail _ (.tail _ (.head _)))), hread _⟩⟩

theorem cases_of_blockName {s rest : List Char} {span : Span}
    (h : (span, rest) ∈ blockName.readings s) :
    span = ⟨s, rest⟩ ∧ ((∃ name, s = '"' :: (name ++ '"' :: rest) ∧ '"' ∉ name) ∨
      ∃ name, s = name ++ rest ∧ name ≠ [] ∧ ∀ c ∈ name, isDottedName c = true) := by
  obtain ⟨p, hp, hmem⟩ := mem_readings_oneOf.mp h
  simp only [List.mem_cons, List.not_mem_nil, or_false] at hp
  rcases hp with rfl | rfl
  all_goals
    obtain ⟨rfl, _, hread⟩ := mem_readings_taken.mp hmem
    refine ⟨rfl, ?_⟩
  · obtain ⟨_, s₁, h₁, hread⟩ := mem_readings_bind.mp hread
    obtain ⟨_, s₂, h₂, h₃⟩ := mem_readings_bind.mp hread
    obtain rfl := mem_readings_char.mp h₁
    obtain ⟨name, -, rfl, hok⟩ := mem_readings_skip1.mp h₂
    obtain rfl := mem_readings_char.mp h₃
    exact Or.inl ⟨name, rfl, forall_noneOf_iff.mp hok⟩
  · obtain ⟨name, hne, rfl, hok⟩ := mem_readings_skip1.mp hread
    exact Or.inr ⟨name, rfl, hne, hok⟩

theorem name_of_mem_headerRest {words : TypeKind × Bool} {name : Span} {s rest : List Char}
    {parts : HeaderParts} (h : (parts, rest) ∈ (headerRest words name).readings s) :
    parts.name = name.text := by
  obtain ⟨_, s₁, -, h⟩ := mem_readings_bind.mp h
  obtain ⟨_, s₂, -, h⟩ := mem_readings_bind.mp h
  obtain ⟨_, s₃, -, h⟩ := mem_readings_bind.mp h
  obtain ⟨_, s₄, -, h⟩ := mem_readings_bind.mp h
  obtain ⟨_, s₅, -, h⟩ := mem_readings_bind.mp h
  obtain ⟨_, s₆, -, h⟩ := mem_readings_bind.mp h
  obtain ⟨_, s₇, -, h⟩ := mem_readings_bind.mp h
  obtain ⟨rfl, -⟩ := mem_readings_pure.mp h
  rfl

/-! ## Quoted names -/

/-- A line that starts like the header of a block with the given name in
quotes and with type parameters. -/
def IsHeaderOf (name line : List Char) : Prop :=
  ∃ word ∈ headerWords, ∃ gap rest,
    line = word.toList ++ (gap ++ '"' :: (name ++ '"' :: rest)) ∧
      gap ≠ [] ∧ (∀ c ∈ gap, isBlank c = true) ∧ '"' ∉ name ∧ EndsGeneric rest

theorem IsHeaderOf.quote_notMem {name line : List Char} (h : IsHeaderOf name line) :
    '"' ∉ name := by
  obtain ⟨_, _, _, _, -, -, -, hquote, -⟩ := h
  exact hquote

theorem IsHeaderOf.unique {name other line : List Char} (h : IsHeaderOf name line)
    (hother : IsHeaderOf other line) : name = other := by
  obtain ⟨word, hword, gap, rest, hline, -, hgap, hname, -⟩ := h
  obtain ⟨word', hword', gap', rest', hline', -, hgap', hother, -⟩ := hother
  have hfront : ∀ word ∈ headerWords, ∀ gap : List Char, (∀ c ∈ gap, isBlank c = true) →
      '"' ∉ word.toList ++ gap := by
    intro word hword gap hgap hmem
    rcases List.mem_append.mp hmem with hmem | hmem
    · exact (by decide : ∀ word ∈ headerWords, '"' ∉ word.toList) word hword hmem
    · exact absurd (hgap '"' hmem) (by decide)
  rw [hline, ← List.append_assoc, ← List.append_assoc] at hline'
  obtain ⟨-, htail⟩ := eq_and_eq_of_append_cons (hfront word hword gap hgap)
    (hfront word' hword' gap' hgap') hline'
  exact (eq_and_eq_of_append_cons hname hother htail).1

theorem IsHeaderOf.accepts {name line : List Char} (h : IsHeaderOf name line) (hname : name ≠ [])
    (hline : '\n' ∉ line) : headerLine.accepts line = true := by
  obtain ⟨word, hword, gap, rest, rfl, hne, hgap, hquote, hrest⟩ := h
  have hstops : Stops isBlank ('"' :: (name ++ '"' :: rest)) := stops_cons.mpr (by decide)
  obtain ⟨words, hwords⟩ := exists_mem_readings_blockKeyword hword
    (gap ++ '"' :: (name ++ '"' :: rest))
  have hread : (⟨'"' :: (name ++ '"' :: rest), rest⟩, rest) ∈
      blockName.readings ('"' :: (name ++ '"' :: rest)) := by
    refine mem_readings_oneOf.mpr
      ⟨_, List.mem_cons_self, mem_readings_taken.mpr ⟨rfl, (), mem_readings_bind.mpr ?_⟩⟩
    refine ⟨(), _, mem_readings_char.mpr rfl, mem_readings_bind.mpr ?_⟩
    exact ⟨(), _, mem_readings_skip1.mpr ⟨name, hname, rfl, forall_noneOf_iff.mpr hquote⟩,
      mem_readings_char.mpr rfl⟩
  rw [headerLine_eq]
  refine accepts_bind.mpr ⟨words, _, hwords, ?_⟩
  refine accepts_bind.mpr
    ⟨(), _, mem_readings_blanks1_iff.mpr ⟨gap, hne, hgap, rfl, hstops⟩, ?_⟩
  refine accepts_bind.mpr ⟨_, rest, hread, hrest.accepts ?_⟩
  intro hmem
  exact hline (by simp [hmem])

theorem typeName_quoted {name : List Char} (h : '"' ∉ name) :
    typeName ('"' :: (name ++ ['"'])) = TypeText.simpleName name := by
  have hdrop : ∀ s : List Char, '"' ∉ s → s.dropWhile (· == '"') = s := by
    intro s hs
    cases s with
    | nil => rfl
    | cons c s =>
        have hc : ¬(c == '"') = true := by
          rw [beq_iff_eq]
          rintro rfl
          exact hs List.mem_cons_self
        exact List.dropWhile_cons_of_neg hc
  have htrim : trimChar '"' ('"' :: (name ++ ['"'])) = name := by
    rw [trimChar, List.dropWhile_cons_of_pos rfl, List.dropWhile_append, hdrop name h]
    cases name with
    | nil => rfl
    | cons c name =>
        rw [List.isEmpty_cons, if_neg (by decide), List.reverse_concat,
          List.dropWhile_cons_of_pos rfl, hdrop _ (by rwa [List.mem_reverse]), List.reverse_reverse]
  rw [typeName, htrim]

end ClassAtlas.Diagram
