import ClassAtlas.Proofs.TypeExpression
import ClassAtlas.Proofs.Diagram.InheritanceStyles
import ClassAtlas.Proofs.Diagram.HeaderShapes

/-!
# Link lines that another rule captures

A line of a diagram is read by the first rule that accepts it, and the rule for
links comes last. This module says, in terms of the text alone, which link lines
an earlier rule takes: those that start with the letters of a directive, those
that start with the word of a package and end in a brace, and those that read as
the header of a block with a quoted name and type parameters.

A link line starts with its left end, perhaps a multiplicity, and its symbol. So
behind a word that another rule starts with comes a quoted text or a symbol, and
no header goes on with a symbol that does not start with an angle bracket.
-/

namespace ClassAtlas.Diagram

open Text Pattern

/-! ## How a link line starts -/

/-- What can stand in front of the symbol of a link: nothing, or a multiplicity
with the blanks behind it. -/
inductive IsMultiplicity : List Char → Prop where
  | absent : IsMultiplicity []
  | quoted {text gap : List Char} (htext : '"' ∉ text) (hgap : ∀ c ∈ gap, isBlank c = true) :
    IsMultiplicity ('"' :: (text ++ '"' :: gap))

/-- The symbols of links. -/
def symbols : List (List Char) :=
  arrows.map fun arrow => arrow.1.toList

/-- A quotation mark may be left out. -/
theorem exists_mem_readings_optional_quote {s rest : List Char} :
    (∃ value, (value, rest) ∈ (char '"').optional.readings s) ↔
      ∃ quote, s = quote ++ rest ∧ (quote = [] ∨ quote = ['"']) := by
  constructor
  · rintro ⟨value, hmem⟩
    rcases mem_readings_optional.mp hmem with ⟨_, -, hchar⟩ | ⟨-, rfl⟩
    · exact ⟨['"'], mem_readings_char.mp hchar, Or.inr rfl⟩
    · exact ⟨[], rfl, Or.inl rfl⟩
  · rintro ⟨quote, rfl, rfl | rfl⟩
    · exact ⟨none, mem_readings_optional.mpr (Or.inr ⟨rfl, rfl⟩)⟩
    · exact ⟨some (), mem_readings_optional.mpr (Or.inl ⟨(), rfl, mem_readings_char.mpr rfl⟩)⟩

theorem exists_of_linkEnd {s rest : List Char} {span : Span}
    (h : (span, rest) ∈ linkEnd.readings s) :
    ∃ left, s = left ++ rest ∧ left ≠ [] ∧ ∀ c ∈ left, isDottedName c = true ∨ c = '"' := by
  obtain ⟨-, _, hmem⟩ := mem_readings_taken.mp h
  obtain ⟨_, s₁, hopen, hmem⟩ := mem_readings_bind.mp hmem
  obtain ⟨_, s₂, hname, hmem⟩ := mem_readings_bind.mp hmem
  obtain ⟨_, s₃, hclose, hmem⟩ := mem_readings_bind.mp hmem
  obtain ⟨-, rfl⟩ := mem_readings_pure.mp hmem
  obtain ⟨opening, rfl, hopening⟩ := exists_mem_readings_optional_quote.mp ⟨_, hopen⟩
  obtain ⟨name, hne, rfl, hdotted⟩ := mem_readings_skip1.mp hname
  obtain ⟨closing, rfl, hclosing⟩ := exists_mem_readings_optional_quote.mp ⟨_, hclose⟩
  have hquote : ∀ quote : List Char, quote = [] ∨ quote = ['"'] →
      ∀ c ∈ quote, isDottedName c = true ∨ c = '"' := by
    rintro quote (rfl | rfl) <;> simp
  refine ⟨opening ++ (name ++ closing), by simp, by simp [hne], ?_⟩
  refine List.forall_mem_append.mpr ⟨hquote _ hopening, ?_⟩
  exact List.forall_mem_append.mpr ⟨fun c hc => Or.inl (hdotted c hc), hquote _ hclosing⟩

theorem exists_of_optional_multiplicity {s rest : List Char} {value : Option Span}
    (h : (value, rest) ∈ linkMultiplicity.optional.readings s) :
    ∃ text, s = text ++ rest ∧ IsMultiplicity text := by
  rcases mem_readings_optional.mp h with ⟨span, -, hmem⟩ | ⟨-, rfl⟩
  · obtain ⟨_, s₁, hopen, hmem⟩ := mem_readings_bind.mp hmem
    obtain ⟨_, s₂, hrun, hmem⟩ := mem_readings_bind.mp hmem
    obtain ⟨_, s₃, hclose, hmem⟩ := mem_readings_bind.mp hmem
    obtain ⟨_, s₄, hblanks, hmem⟩ := mem_readings_bind.mp hmem
    obtain ⟨-, rfl⟩ := mem_readings_pure.mp hmem
    obtain ⟨gap, hgap, rfl, -⟩ := mem_readings_blanks_iff.mp hblanks
    obtain rfl := mem_readings_char.mp hopen
    obtain ⟨-, _, hskip⟩ := mem_readings_taken.mp hrun
    obtain ⟨text, rfl, htext⟩ := mem_readings_skip.mp hskip
    obtain rfl := mem_readings_char.mp hclose
    exact ⟨'"' :: (text ++ '"' :: gap), by simp, .quoted (forall_noneOf_iff.mp htext) hgap⟩
  · exact ⟨[], rfl, .absent⟩

theorem exists_of_arrow {s rest : List Char} {found : Arrow}
    (h : (found, rest) ∈ arrow.readings s) : ∃ symbol ∈ symbols, s = symbol ++ rest := by
  obtain ⟨p, hp, hmem⟩ := mem_readings_oneOf.mp h
  obtain ⟨⟨symbol, value⟩, hlisted, rfl⟩ := List.mem_map.mp hp
  obtain ⟨_, s₁, hliteral, hmem⟩ := mem_readings_bind.mp hmem
  obtain ⟨-, rfl⟩ := mem_readings_pure.mp hmem
  exact ⟨symbol.toList, List.mem_map_of_mem hlisted, mem_readings_literal.mp hliteral⟩

theorem exists_start_of_link? {line : List Char} {link : Relationship}
    (h : link? line = some link) :
    ∃ left gap multiplicity symbol tail,
      line = left ++ (gap ++ (multiplicity ++ (symbol ++ tail))) ∧ left ≠ [] ∧
        (∀ c ∈ left, isDottedName c = true ∨ c = '"') ∧ (∀ c ∈ gap, isBlank c = true) ∧
        IsMultiplicity multiplicity ∧ symbol ∈ symbols := by
  obtain ⟨⟨parts, rest⟩, hfirst, -⟩ := Option.bind_eq_some_iff.mp h
  have hmem := mem_readings_of_first? hfirst
  obtain ⟨span, s₁, hend, hmem⟩ := mem_readings_bind.mp hmem
  obtain ⟨_, s₂, hblanks, hmem⟩ := mem_readings_bind.mp hmem
  obtain ⟨value, s₃, hvalue, hmem⟩ := mem_readings_bind.mp hmem
  obtain ⟨found, s₄, harrow, -⟩ := mem_readings_bind.mp hmem
  obtain ⟨left, rfl, hne, hleft⟩ := exists_of_linkEnd hend
  obtain ⟨gap, hgap, rfl, -⟩ := mem_readings_blanks_iff.mp hblanks
  obtain ⟨multiplicity, rfl, hmultiplicity⟩ := exists_of_optional_multiplicity hvalue
  obtain ⟨symbol, hsymbol, rfl⟩ := exists_of_arrow harrow
  exact ⟨left, gap, multiplicity, symbol, s₄, rfl, hne, hleft, hgap, hmultiplicity, hsymbol⟩

/-! ## Link lines behind a word -/

/-- The characters that a multiplicity or a symbol starts with. -/
def linkOpeners : List Char :=
  ['"', '<', '.', '-', '*', 'o']

theorem head?_symbol_append {symbol : List Char} (h : symbol ∈ symbols) (tail : List Char) :
    ∃ c ∈ linkOpeners, (symbol ++ tail).head? = some c := by
  have hheads : ∀ symbol ∈ symbols, ∃ c ∈ linkOpeners, symbol.head? = some c := by decide
  obtain ⟨c, hc, hhead⟩ := hheads symbol h
  exact ⟨c, hc, by rw [List.head?_append, hhead, Option.some_or]⟩

theorem head?_multiplicity_append {multiplicity symbol : List Char}
    (hmultiplicity : IsMultiplicity multiplicity) (hsymbol : symbol ∈ symbols)
    (tail : List Char) :
    ∃ c ∈ linkOpeners, (multiplicity ++ (symbol ++ tail)).head? = some c := by
  cases hmultiplicity with
  | absent => exact head?_symbol_append hsymbol tail
  | quoted => exact ⟨'"', by decide, rfl⟩

/-- A word with none of the characters that a symbol starts with is the whole
left end of a link. -/
theorem exists_after_word {word space s : List Char} {link : Relationship}
    (hword : ∀ c ∈ word, isBlank c = false ∧ c ∉ linkOpeners) (hne : space ≠ [])
    (hspace : ∀ c ∈ space, isBlank c = true) (hs : Stops isBlank s)
    (h : link? (word ++ (space ++ s)) = some link) :
    ∃ multiplicity symbol tail, s = multiplicity ++ (symbol ++ tail) ∧
      IsMultiplicity multiplicity ∧ symbol ∈ symbols := by
  obtain ⟨left, gap, multiplicity, symbol, tail, hline, -, hleft, hgap, hmultiplicity, hsymbol⟩ :=
    exists_start_of_link? h
  obtain ⟨first, hfirst, hhead⟩ := head?_multiplicity_append hmultiplicity hsymbol tail
  have hopen : Stops isBlank (multiplicity ++ (symbol ++ tail)) := by
    intro c hc
    obtain rfl := Option.some.inj (hhead.symm.trans hc)
    exact (by decide : ∀ c ∈ linkOpeners, isBlank c = false) first hfirst
  have hrest : gap ++ (multiplicity ++ (symbol ++ tail)) = space ++ s := by
    rcases List.append_eq_append_iff.mp hline with ⟨part, rfl, hpart⟩ | ⟨part, rfl, hpart⟩
    · cases part with
      | nil => exact hpart.symm
      | cons c part =>
          -- the left end would go on over a blank
          obtain ⟨d, space, rfl⟩ := List.exists_cons_of_ne_nil hne
          obtain ⟨rfl, -⟩ := List.cons.inj hpart
          have hblank := hspace d List.mem_cons_self
          rcases hleft d (by simp) with hdotted | rfl
          · rw [isBlank_eq_false_of_isDottedName hdotted] at hblank
            contradiction
          · contradiction
    · cases part with
      | nil => exact hpart
      | cons c part =>
          -- the rest of the word would start a multiplicity or a symbol
          obtain ⟨hblank, hopener⟩ := hword c (by simp)
          cases gap with
          | nil =>
              rw [List.nil_append] at hpart
              rw [hpart] at hhead
              exact absurd (Option.some.inj hhead ▸ hfirst) hopener
          | cons d gap =>
              obtain ⟨rfl, -⟩ := List.cons.inj hpart
              rw [hgap d List.mem_cons_self] at hblank
              contradiction
  refine ⟨multiplicity, symbol, tail, ?_, hmultiplicity, hsymbol⟩
  have htrim := congrArg trimStart hrest
  rw [trimStart_append_of_blank hgap, trimStart_eq_self hopen, trimStart_append_of_blank hspace,
    trimStart_eq_self hs] at htrim
  exact htrim.symm

/-! ## Packages -/

/-- A line with the word of a package, a name behind it, perhaps in quotes, and
a brace at the end. -/
def OpensPackage (line : List Char) : Prop :=
  ∃ word ∈ ["package", "namespace"], ∃ gap quote c middle,
    line = word.toList ++ (gap ++ (quote ++ c :: (middle ++ ['{']))) ∧
      gap ≠ [] ∧ (∀ d ∈ gap, isBlank d = true) ∧ (quote = [] ∨ quote = ['"']) ∧
      (isWord c || c == '.') = true

theorem opensPackage_of_accepts {line : List Char} (htrimmed : Trimmed line)
    (h : packageLine.accepts line = true) : OpensPackage line := by
  obtain ⟨word, s₁, h₁, h⟩ := accepts_bind.mp h
  obtain ⟨_, s₂, h₂, h⟩ := accepts_bind.mp h
  obtain ⟨_, s₃, h₃, h⟩ := accepts_bind.mp h
  obtain ⟨_, s₄, h₄, h⟩ := accepts_bind.mp h
  obtain ⟨_, s₅, h₅, h⟩ := accepts_bind.mp h
  obtain ⟨_, s₆, h₆, h⟩ := accepts_bind.mp h
  obtain ⟨_, s₇, h₇, h⟩ := accepts_bind.mp h
  obtain ⟨_, s₈, h₈, h⟩ := accepts_bind.mp h
  obtain ⟨_, s₉, h₉, -⟩ := accepts_bind.mp h
  obtain ⟨hword, rfl⟩ := mem_readings_keyword.mp h₁
  obtain ⟨gap, hne, hgap, rfl, -⟩ := mem_readings_blanks1_iff.mp h₂
  obtain ⟨quote, rfl, hquote⟩ := exists_mem_readings_optional_quote.mp ⟨_, h₃⟩
  obtain ⟨named, hnamed, rfl, hok, -⟩ := mem_readings_run1.mp h₄
  obtain ⟨closing, rfl, -⟩ := exists_mem_readings_optional_quote.mp ⟨_, h₅⟩
  obtain ⟨middle, rfl, -⟩ := mem_readings_skip.mp h₆
  obtain rfl := mem_readings_char.mp h₇
  obtain ⟨blank, hblank, rfl, -⟩ := mem_readings_blanks_iff.mp h₈
  obtain ⟨rfl, rfl⟩ := mem_readings_atEnd.mp h₉
  obtain ⟨c, more, rfl⟩ := List.exists_cons_of_ne_nil hnamed
  have htext : word.toList ++ (gap ++ (quote ++ (c :: more ++ (closing ++ (middle ++
      '{' :: (blank ++ [])))))) = word.toList ++ (gap ++ (quote ++ c ::
        ((more ++ (closing ++ middle)) ++ ['{']))) ++ blank := by
    simp
  rw [htext] at htrimmed ⊢
  rw [htrimmed.eq_nil_of_append hblank, List.append_nil]
  exact ⟨word, hword, gap, quote, c, more ++ (closing ++ middle), rfl, hne, hgap, hquote,
    hok c List.mem_cons_self⟩

theorem OpensPackage.accepts {line : List Char} (h : OpensPackage line) (hline : '\n' ∉ line) :
    packageLine.accepts line = true := by
  obtain ⟨word, hword, gap, quote, c, middle, rfl, hne, hgap, hquote, hc⟩ := h
  have hstops : Stops isBlank (quote ++ c :: (middle ++ ['{'])) := by
    rcases hquote with rfl | rfl
    · refine stops_cons.mpr ?_
      rw [Bool.or_eq_true, beq_iff_eq] at hc
      rcases hc with hc | rfl
      · exact isBlank_eq_false_of_isWord hc
      · decide
    · exact stops_cons.mpr (by decide)
  have hmiddle : ∀ d ∈ middle, inLine d = true :=
    forall_inLine_iff.mpr fun hmem => hline (by simp [hmem])
  obtain ⟨value, hvalue⟩ := exists_mem_readings_optional_quote.mpr
    ⟨quote, (rfl : quote ++ c :: (middle ++ ['{']) = _), hquote⟩
  have hname : ∀ d ∈ [c], (isWord d || d == '.') = true := by simpa using hc
  refine accepts_bind.mpr ⟨word, _, mem_readings_keyword.mpr ⟨hword, rfl⟩, ?_⟩
  refine accepts_bind.mpr
    ⟨(), _, mem_readings_blanks1_iff.mpr ⟨gap, hne, hgap, rfl, hstops⟩, ?_⟩
  refine accepts_bind.mpr ⟨value, _, hvalue, ?_⟩
  refine accepts_bind.mpr ⟨_, middle ++ ['{'], mem_readings_run1.mpr
    ⟨[c], by simp, rfl, hname, rfl⟩, ?_⟩
  refine accepts_bind.mpr ⟨none, _, mem_readings_optional.mpr (Or.inr ⟨rfl, rfl⟩), ?_⟩
  refine accepts_bind.mpr ⟨(), ['{'], mem_readings_skip.mpr ⟨middle, rfl, hmiddle⟩, ?_⟩
  rfl

/-! ## Blocks with a quoted name -/

/-- A symbol has a character that stands in no name, and no name before it ends
where a header could go on. -/
theorem head?_of_symbol_eq_append {symbol tail named rest : List Char} (hsymbol : symbol ∈ symbols)
    (hne : named ≠ []) (hnamed : ∀ c ∈ named, isDottedName c = true)
    (h : symbol ++ tail = named ++ rest) : ∃ c ∈ ['.', '|', '>', '-'], rest.head? = some c := by
  have hopen : ∀ symbol ∈ symbols, ∃ c ∈ symbol, isDottedName c = false := by decide
  have hnext : ∀ symbol ∈ symbols, ∀ named ∈ symbol.inits, named ≠ [] →
      (∀ c ∈ named, isDottedName c = true) →
        ∃ c ∈ ['.', '|', '>', '-'], (symbol.drop named.length).head? = some c := by
    decide
  have hall : ¬∀ c ∈ symbol, isDottedName c = true := by
    intro hall
    obtain ⟨c, hc, hoff⟩ := hopen symbol hsymbol
    rw [hall c hc] at hoff
    contradiction
  rcases List.append_eq_append_iff.mp h with ⟨z, rfl, -⟩ | ⟨z, rfl, rfl⟩
  · exact absurd (List.forall_mem_append.mp hnamed).1 hall
  · obtain ⟨c, hc, hhead⟩ := hnext _ hsymbol named (by simp) hne hnamed
    rw [List.drop_left] at hhead
    exact ⟨c, hc, by rw [List.head?_append, hhead, Option.some_or]⟩

/-- A symbol starts no stereotype, no clause and no body, so it has to start type
parameters. -/
theorem endsGeneric_of_symbol {words : TypeKind × Bool} {name : Span}
    {gap symbol tail : List Char} (hgap : ∀ c ∈ gap, isBlank c = true) (hsymbol : symbol ∈ symbols)
    (h : (headerRest words name).accepts (gap ++ (symbol ++ tail)) = true) :
    EndsGeneric (gap ++ (symbol ++ tail)) := by
  obtain ⟨c, hc, hhead⟩ := head?_symbol_append hsymbol tail
  have hopeners : ∀ c ∈ linkOpeners, isBlank c = false ∧ c ∉ ['{', 'e', 'i'] := by decide
  have htrim : trimStart (gap ++ (symbol ++ tail)) = symbol ++ tail := by
    rw [trimStart_append_of_blank hgap, trimStart_eq_self]
    intro d hd
    obtain rfl := Option.some.inj (hhead.symm.trans hd)
    exact (hopeners c hc).1
  refine endsGeneric_of_accepts h (by rw [htrim]; exact hhead) (hopeners c hc).2 ?_
  intro more heq
  have hdouble : ∀ symbol ∈ symbols, 2 ≤ symbol.length ∧ symbol.take 2 ≠ ['<', '<'] := by decide
  obtain ⟨hlength, hne⟩ := hdouble symbol hsymbol
  rw [htrim] at heq
  have htake := congrArg (List.take 2) heq
  rw [List.take_append_of_le_length hlength] at htake
  exact hne htake

theorem not_accepts_headerRest {words : TypeKind × Bool} {name : Span} {rest : List Char} {c : Char}
    (hc : c ∈ ['.', '|', '>', '-']) (hhead : rest.head? = some c) :
    ¬(headerRest words name).accepts rest = true := by
  intro haccepts
  have hsigns : ∀ c ∈ ['.', '|', '>', '-'],
      isBlank c = false ∧ c ∉ ['{', 'e', 'i'] ∧ c ≠ '<' := by
    decide
  obtain ⟨hblank, hletter, hangle⟩ := hsigns c hc
  have htrim : (trimStart rest).head? = some c := by
    obtain ⟨more, rfl⟩ := List.head?_eq_some_iff.mp hhead
    rw [trimStart_eq_self (stops_cons.mpr hblank)]
    rfl
  obtain ⟨space, parameters, rest, rfl, hspace, -, -⟩ : EndsGeneric rest := by
    refine endsGeneric_of_accepts haccepts htrim hletter ?_
    intro more heq
    rw [heq] at htrim
    exact hangle (Option.some.inj htrim).symm
  rw [trimStart_append_of_blank hspace, trimStart_eq_self (stops_cons.mpr (by decide))] at htrim
  exact hangle (Option.some.inj htrim).symm

/-- The name of a header that is read off a link is the multiplicity of its
left end. -/
theorem exists_name_of_accepts {words : TypeKind × Bool} {span : Span}
    {multiplicity symbol tail rest : List Char} (hmultiplicity : IsMultiplicity multiplicity)
    (hsymbol : symbol ∈ symbols)
    (hspan : (span, rest) ∈ blockName.readings (multiplicity ++ (symbol ++ tail)))
    (hrest : (headerRest words span).accepts rest = true) :
    ∃ name, multiplicity ++ (symbol ++ tail) = '"' :: (name ++ '"' :: rest) ∧ '"' ∉ name ∧
      span.text = '"' :: (name ++ ['"']) ∧ EndsGeneric rest := by
  obtain ⟨hread, ⟨name, hname, hquote⟩ | ⟨name, hname, hne, hdotted⟩⟩ := cases_of_blockName hspan
  · cases hmultiplicity with
    | absent =>
        have hheads : ∀ symbol ∈ symbols, symbol ≠ [] ∧ symbol.head? ≠ some '"' := by decide
        obtain ⟨hfilled, hhead⟩ := hheads symbol hsymbol
        obtain ⟨c, more, rfl⟩ := List.exists_cons_of_ne_nil hfilled
        obtain ⟨rfl, -⟩ := List.cons.inj hname
        exact absurd rfl hhead
    | @quoted text gap htext hgap =>
        have htail : text ++ '"' :: (gap ++ (symbol ++ tail)) = name ++ '"' :: rest := by
          simpa using hname
        obtain ⟨rfl, rfl⟩ := eq_and_eq_of_append_cons htext hquote htail
        refine ⟨text, hname, hquote, ?_, endsGeneric_of_symbol hgap hsymbol hrest⟩
        have hspan := text_span_append ('"' :: (text ++ ['"'])) (gap ++ (symbol ++ tail))
        rw [hread, ← hspan]
        simp
  · -- the name would end within the symbol
    cases hmultiplicity with
    | absent =>
        obtain ⟨c, hc, hhead⟩ := head?_of_symbol_eq_append hsymbol hne hdotted hname
        exact (not_accepts_headerRest hc hhead hrest).elim
    | quoted =>
        obtain ⟨c, name, rfl⟩ := List.exists_cons_of_ne_nil hne
        obtain ⟨rfl, -⟩ := List.cons.inj hname
        exact absurd (hdotted '"' List.mem_cons_self) (by decide)

/-- A link line that reads as a header has a quoted name and type parameters. -/
theorem exists_isHeaderOf {line rest : List Char} {link : Relationship} {parts : HeaderParts}
    (hlink : link? line = some link) (h : (parts, rest) ∈ headerLine.readings line) :
    ∃ name, parts.name = '"' :: (name ++ ['"']) ∧ IsHeaderOf name line := by
  rw [headerLine_eq] at h
  obtain ⟨words, s₁, hwords, h⟩ := mem_readings_bind.mp h
  obtain ⟨_, s₂, hblanks, h⟩ := mem_readings_bind.mp h
  obtain ⟨span, s₃, hspan, h⟩ := mem_readings_bind.mp h
  have hname := name_of_mem_headerRest h
  have hrest : (headerRest words span).accepts s₃ = true :=
    (accepts_iff _ _).mpr (List.ne_nil_of_mem h)
  have hletters : ∀ word ∈ headerWords, ∀ c ∈ word.toList,
      isBlank c = false ∧ c ∉ linkOpeners := by
    decide
  obtain ⟨gap, hne, hgap, rfl, hstops⟩ := mem_readings_blanks1_iff.mp hblanks
  rcases cases_of_blockKeyword hwords with ⟨word, hword, rfl⟩ | ⟨space, rfl, hspace, hblank⟩
  · obtain ⟨multiplicity, symbol, tail, rfl, hmultiplicity, hsymbol⟩ :=
      exists_after_word (hletters word hword) hne hgap hstops hlink
    obtain ⟨name, hstart, hquote, htext, hgeneric⟩ :=
      exists_name_of_accepts hmultiplicity hsymbol hspan hrest
    refine ⟨name, hname.trans htext, word, hword, gap, s₃, ?_⟩
    rw [hstart]
    exact ⟨rfl, hne, hgap, hquote, hgeneric⟩
  · -- a second word is neither a multiplicity nor a symbol
    have hclass : Stops isBlank ("class".toList ++ (gap ++ s₂)) := stops_cons.mpr (by decide)
    obtain ⟨multiplicity, symbol, tail, hstart, hmultiplicity, hsymbol⟩ :=
      exists_after_word (hletters "abstract" (by decide)) hspace hblank hclass hlink
    obtain ⟨c, hc, hhead⟩ := head?_multiplicity_append hmultiplicity hsymbol tail
    rw [← hstart] at hhead
    obtain rfl : 'c' = c := Option.some.inj hhead
    contradiction

/-- A line that reads as the header of a block with a quoted name and type
parameters. -/
def OpensBlock (line : List Char) : Prop :=
  ∃ name, IsHeaderOf name line ∧ TypeText.simpleName name ≠ []

theorem isSome_header?_iff {line : List Char} {link : Relationship} (hlink : link? line = some link)
    (hline : '\n' ∉ line) : (header? line).isSome ↔ OpensBlock line := by
  constructor
  · intro hsome
    obtain ⟨header, hheader⟩ := Option.isSome_iff_exists.mp hsome
    obtain ⟨⟨parts, rest⟩, hfirst, hheader⟩ := Option.bind_eq_some_iff.mp hheader
    obtain ⟨name, hname, hof⟩ := exists_isHeaderOf hlink (mem_readings_of_first? hfirst)
    refine ⟨name, hof, ?_⟩
    intro hempty
    rw [← typeName_quoted hof.quote_notMem, ← hname] at hempty
    simp [hempty] at hheader
  · rintro ⟨name, hof, hfilled⟩
    have hne : name ≠ [] := by
      rintro rfl
      exact hfilled (by decide +kernel)
    obtain ⟨⟨parts, rest⟩, hfirst⟩ := Option.isSome_iff_exists.mp (hof.accepts hne hline)
    obtain ⟨other, hname, hother⟩ := exists_isHeaderOf hlink (mem_readings_of_first? hfirst)
    obtain rfl := hof.unique hother
    have htype : typeName parts.name ≠ [] := by
      rw [hname, typeName_quoted hof.quote_notMem]
      exact hfilled
    rw [header?, hfirst]
    simp [htype]

/-! ## The rules before the rule for links -/

/-- A line that none of the rules before the rule for links accepts. -/
structure ReachesLinks (line : List Char) : Prop where
  directive : isDirective line = false
  note : "note".toList.isPrefixOf line = false
  package : packageLine.accepts line = false
  header : (header? line).isSome = false

/-- The link lines that another rule takes. -/
inductive Captured (line : List Char) : Prop where
  | directive {word : String} (hword : word ∈ directiveWords)
    (hstarts : word.toList.isPrefixOf line = true)
  | package (h : OpensPackage line)
  | block (h : OpensBlock line)

/-- A link line without structure starts with the letters of a word. -/
theorem isPrefixOf_directive_iff {line : List Char} {link : Relationship}
    (hlink : link? line = some link) :
    isDirective line = true ∨ "note".toList.isPrefixOf line = true ↔
      ∃ word ∈ directiveWords, word.toList.isPrefixOf line = true := by
  have hlisted : ∀ word ∈ directiveWords, word ∈ directives ∨ word = "note" := by decide
  have hwords : ∀ word ∈ directives, word ∈ directiveWords ∨
      word ∈ ["@startuml", "@enduml", "!", "'", "left to right", "top to bottom"] := by
    decide
  constructor
  · rintro (hdirective | hnote)
    · obtain ⟨word, hword, hstarts⟩ := List.any_eq_true.mp hdirective
      rcases hwords word hword with hmem | hmem
      · exact ⟨word, hmem, hstarts⟩
      · -- such a line is no link
        obtain ⟨rest, rfl⟩ := List.isPrefixOf_iff_prefix.mp hstarts
        have hnone : link? (word.toList ++ rest) = none := by
          simp only [List.mem_cons, List.not_mem_nil, or_false] at hmem
          rcases hmem with rfl | rfl | rfl | rfl | rfl | rfl <;> rfl
        rw [hnone] at hlink
        contradiction
    · exact ⟨"note", by decide, hnote⟩
  · rintro ⟨word, hword, hstarts⟩
    rcases hlisted word hword with hmem | rfl
    · exact Or.inl (List.any_eq_true.mpr ⟨word, hmem, hstarts⟩)
    · exact Or.inr hstarts

theorem reachesLinks_iff {line : List Char} {link : Relationship} (hlink : link? line = some link)
    (htrimmed : Trimmed line) (hline : '\n' ∉ line) : ReachesLinks line ↔ ¬Captured line := by
  have hdirective := isPrefixOf_directive_iff hlink
  have hblock := isSome_header?_iff hlink hline
  constructor
  · rintro h (⟨hword, hstarts⟩ | hopens | hopens)
    · rcases hdirective.mpr ⟨_, hword, hstarts⟩ with hyes | hyes
      · exact Bool.eq_false_iff.mp h.directive hyes
      · exact Bool.eq_false_iff.mp h.note hyes
    · exact Bool.eq_false_iff.mp h.package (hopens.accepts hline)
    · exact Bool.eq_false_iff.mp h.header (hblock.mpr hopens)
  · intro h
    have hplain : ¬(isDirective line = true ∨ "note".toList.isPrefixOf line = true) := by
      intro hyes
      obtain ⟨word, hword, hstarts⟩ := hdirective.mp hyes
      exact h (.directive hword hstarts)
    rw [not_or, Bool.not_eq_true, Bool.not_eq_true] at hplain
    constructor
    · exact hplain.1
    · exact hplain.2
    · exact Bool.eq_false_iff.mpr fun hyes => h (.package (opensPackage_of_accepts htrimmed hyes))
    · exact Bool.eq_false_iff.mpr fun hyes => h (.block (hblock.mp hyes))

end ClassAtlas.Diagram
