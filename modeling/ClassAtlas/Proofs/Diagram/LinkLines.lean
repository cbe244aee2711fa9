import ClassAtlas.Diagram.Reader
import ClassAtlas.Diagram.Render
import ClassAtlas.Proofs.Diagram.HeaderLines
import ClassAtlas.Proofs.Diagram.MemberLines

/-!
# Reading link lines back

The line that is written for a relationship is read as the same relationship.
A generalization is written from the supertype, and its symbol says so. The
line is no header, even where a type has the name of a header word: after such
a word no name follows that the rest of a header could stand behind. It opens
no package, since it has no brace.
-/

namespace ClassAtlas.Diagram

open ClassAtlas.Text Pattern

variable {β : Type}

/-- A relationship whose link line says all of it: names at its ends, a label
that is one line of text, and a multiplicity without quotation marks, which
supertypes do not have. -/
structure Writable (link : Relationship) : Prop where
  source : IsName link.source.toList
  target : IsName link.target.toList
  label : ∀ text ∈ link.label,
    text.toList ≠ [] ∧ Trimmed text.toList ∧ '\n' ∉ text.toList
  multiplicity : ∀ text ∈ link.multiplicity,
    text.toList ≠ [] ∧ Trimmed text.toList ∧ '"' ∉ text.toList ∧
      isSupertypeKind link.kind = false

/-- A relationship of a model that is written as a link: its label is the name
of a member, and its multiplicity is that of a collection. -/
structure Legible (link : Relationship) : Prop where
  source : IsName link.source.toList
  target : IsName link.target.toList
  label : ∀ name ∈ link.label, IsName name.toList
  multiplicity : link.multiplicity = none ∨
    link.multiplicity = some "*" ∧ isSupertypeKind link.kind = false

/-- A relationship that is drawn as a link of its own: no supertype, with the
name of a member as its label. -/
structure Drawn (link : Relationship) : Prop where
  source : IsName link.source.toList
  target : IsName link.target.toList
  kind : isSupertypeKind link.kind = false
  label : ∃ name, link.label = some name ∧ IsName name.toList
  multiplicity : link.multiplicity = none ∨ link.multiplicity = some "*"

theorem Drawn.legible {link : Relationship} (h : Drawn link) : Legible link where
  source := h.source
  target := h.target
  label := by
    obtain ⟨label, hlabel, hname⟩ := h.label
    rintro name hmem
    obtain rfl := Option.some.inj (hlabel.symm.trans hmem)
    exact hname
  multiplicity := h.multiplicity.imp_right fun hmany => ⟨hmany, h.kind⟩

/-- The end of a link that is written on the left. -/
def leftEnd (link : Relationship) : String :=
  if link.kind = .generalization then link.target else link.source

/-- The end of a link that is written on the right. -/
def rightEnd (link : Relationship) : String :=
  if link.kind = .generalization then link.source else link.target

theorem Writable.leftEnd {link : Relationship} (h : Writable link) :
    IsName (leftEnd link).toList := by
  unfold Diagram.leftEnd
  split
  · exact h.target
  · exact h.source

theorem Writable.rightEnd {link : Relationship} (h : Writable link) :
    IsName (rightEnd link).toList := by
  unfold Diagram.rightEnd
  split
  · exact h.source
  · exact h.target

theorem Legible.writable {link : Relationship} (h : Legible link) : Writable link where
  source := h.source
  target := h.target
  label := fun text htext =>
    have hname := h.label text htext
    ⟨hname.ne_nil, hname.trimmed, hname.notMem (by decide)⟩
  multiplicity := by
    intro text htext
    rcases h.multiplicity with hnone | ⟨hmany, hkind⟩
    · rw [hnone] at htext
      contradiction
    · obtain rfl := Option.some.inj (hmany.symm.trans htext)
      exact ⟨by decide, by decide, by decide, hkind⟩

/-- The multiplicity in a link line. -/
def multiplicityText (multiplicity : Option String) : List Char :=
  (multiplicity.map fun m => '"' :: (m.toList ++ ['"', ' '])).getD []

/-- The label of a link line. -/
def labelText (label : Option String) : List Char :=
  (label.map fun l => ' ' :: ':' :: ' ' :: l.toList).getD []

theorem toList_linkText {link : Relationship} (h : Writable link) :
    (linkText link).toList = (leftEnd link).toList ++ ' ' :: (link.kind.symbol.toList ++ ' ' ::
      (multiplicityText link.multiplicity ++ ((rightEnd link).toList ++
        labelText link.label))) := by
  have hlabel : ((link.label.map (" : " ++ ·)).getD "").toList = labelText link.label := by
    cases link.label <;> simp [labelText]
  cases hmultiplicity : link.multiplicity with
  | none =>
      cases hk : link.kind <;>
        simp [linkText, hk, hmultiplicity, multiplicityText, leftEnd, rightEnd, hlabel,
          RelationshipKind.symbol]
  | some text =>
      have hkind := (h.multiplicity text hmultiplicity).2.2.2
      cases hk : link.kind <;>
        simp_all [linkText, multiplicityText, leftEnd, rightEnd, isSupertypeKind]

/-! ## The parts of a link line -/

/-- A type at the end of a link. -/
theorem search_linkEnd {name : List Char} (hname : IsName name) {rest : List Char}
    (hstop : Stops isDottedName rest) (hquote : rest.head? ≠ some '"')
    {k : Span → List Char → Option β} {v : β}
    (hk : ∀ span, Span.text span = name → k span rest = some v) :
    linkEnd.search k (name ++ rest) = some v := by
  have hdotted : ∀ c ∈ name, isDottedName c = true := by
    intro c hc
    simp [isDottedName, hname.all_name c hc]
  simp only [linkEnd, search_taken, search_bind]
  rw [search_optional_of_none (search_char_of_ne (hname.head?_append_ne (by decide) rest) _)]
  refine search_skip1_longest hname.ne_nil hdotted hstop ?_
  rw [search_optional_of_none (search_char_of_ne hquote _)]
  exact hk _ (text_span_append name rest)

theorem search_linkMultiplicity_of_ne {s : List Char} (h : s.head? ≠ some '"')
    (k : Span → List Char → Option β) : linkMultiplicity.search k s = none := by
  simp only [linkMultiplicity, search_bind]
  exact search_char_of_ne h _

/-- The symbol of a link, where a space follows. -/
theorem search_arrow (kind : RelationshipKind) {rest : List Char}
    {k : Arrow → List Char → Option β} {v : β}
    (hk : k { kind, fromRight := decide (kind = .generalization) } (' ' :: rest) = some v) :
    arrow.search k (kind.symbol.toList ++ ' ' :: rest) = some v := by
  simp only [arrow, arrows, List.map_cons, List.map_nil, search_oneOf_cons, search_oneOf_nil,
    search_bind, search_pure]
  cases kind <;> simp_all [literal, ofReading?, List.isPrefixOf?, RelationshipKind.symbol]

/-- The multiplicity in front of the right end of a link, if there is one. -/
theorem search_multiplicityText {multiplicity : Option String}
    (hmultiplicity : ∀ text ∈ multiplicity, '"' ∉ text.toList)
    {name : List Char} (hname : IsName name) {rest : List Char}
    {k : Option Span → List Char → Option β} {v : β}
    (hk : ∀ span, span.map Span.text = multiplicity.map String.toList →
      k span (name ++ rest) = some v) :
    (optional linkMultiplicity).search k
      (multiplicityText multiplicity ++ (name ++ rest)) = some v := by
  cases multiplicity with
  | none =>
      change (optional linkMultiplicity).search k (name ++ rest) = some v
      rw [search_optional_of_none
        (search_linkMultiplicity_of_ne (hname.head?_append_ne (by decide) rest) _)]
      exact hk none rfl
  | some text =>
      have hinside : ∀ c ∈ text.toList, noneOf ['"'] c = true :=
        forall_noneOf_iff.mpr (hmultiplicity text rfl)
      have htext : multiplicityText (some text) ++ (name ++ rest) =
          '"' :: (text.toList ++ '"' :: ' ' :: (name ++ rest)) := by
        simp [multiplicityText]
      refine search_optional_of_some ?_
      rw [htext]
      simp only [linkMultiplicity, run, search_bind, search_taken, search_pure]
      rw [search_char_self]
      refine search_skip_longest hinside (stops_cons.mpr (by decide)) ?_
      rw [search_char_self, search_blanks, trimStart_space,
        trimStart_eq_self (hname.stops_isBlank_append rest)]
      exact hk (some _) (congrArg some (text_span_append text.toList _))

theorem stops_isBlank_multiplicityText (multiplicity : Option String)
    {name : List Char} (hname : IsName name) (rest : List Char) :
    Stops isBlank (multiplicityText multiplicity ++ (name ++ rest)) := by
  cases multiplicity with
  | none => exact hname.stops_isBlank_append rest
  | some text => exact stops_cons.mpr (by decide)

theorem filled?_some {text : String} (hne : text.toList ≠ []) (htrimmed : Trimmed text.toList) :
    filled? (some text.toList) = some text := by
  rw [filled?, Option.map_some, htrimmed.trim_eq]
  split
  next => contradiction
  next hempty => exact (hne (Option.some.inj hempty)).elim
  next shown hshown =>
    rw [← Option.some.inj hshown, String.ofList_toList]

/-- The label at the end of a link line, if there is one. -/
theorem search_labelText {label : Option String}
    (hlabel : ∀ text ∈ label,
      text.toList ≠ [] ∧ Trimmed text.toList ∧ '\n' ∉ text.toList)
    {k : Option Span → List Char → Option β} {v : β}
    (hk : ∀ span, span.map Span.text = label.map String.toList → k span [] = some v) :
    blanks.search (fun _ => (optional afterColon).search k) (labelText label) = some v := by
  cases label with
  | none => exact hk none rfl
  | some text =>
      obtain ⟨hne, htrimmed, hline⟩ := hlabel text rfl
      change blanks.search _ (' ' :: ':' :: ' ' :: text.toList) = some v
      rw [search_blanks, trimStart_space, trimStart_eq_self (stops_cons.mpr (by decide))]
      refine search_optional_of_some ?_
      refine search_afterColon hne htrimmed.1 hline ?_
      exact hk _ (by simp [Span.text])

theorem stops_labelText {ok : Char → Bool} (h : ok ' ' = false) (label : Option String) :
    Stops ok (labelText label) := by
  cases label with
  | none => exact stops_nil _
  | some name => exact stops_cons.mpr h

/-- A link line is read as the relationship it was written for. -/
theorem link?_linkText {link : Relationship} (h : Writable link) :
    link? (linkText link).toList = some link := by
  have hsymbol : ∀ rest, (link.kind.symbol.toList ++ rest).head? ≠ some '"' := by
    intro rest
    cases link.kind <;> simp [RelationshipKind.symbol]
  have hstart : ∀ rest, Stops isBlank (link.kind.symbol.toList ++ rest) := by
    intro rest
    cases link.kind <;> exact stops_cons.mpr (by decide)
  have hquote : (labelText link.label).head? ≠ some '"' := by
    cases link.label <;> simp [labelText]
  have hparts : linkLine.first? (linkText link).toList = some ({
      left := (leftEnd link).toList
      arrow := { kind := link.kind, fromRight := decide (link.kind = .generalization) }
      multiplicity := link.multiplicity.map String.toList
      right := (rightEnd link).toList
      label := link.label.map String.toList }, []) := by
    rw [toList_linkText h]
    simp only [linkLine, first?, search_bind, search_pure]
    refine search_linkEnd h.leftEnd (stops_cons.mpr (by decide)) (by simp) ?_
    intro left hleft
    rw [search_blanks, trimStart_space, trimStart_eq_self (hstart _),
      search_optional_of_none (search_linkMultiplicity_of_ne (hsymbol _) _)]
    refine search_arrow link.kind ?_
    rw [search_blanks, trimStart_space,
      trimStart_eq_self (stops_isBlank_multiplicityText _ h.rightEnd _)]
    refine search_multiplicityText (fun text htext => (h.multiplicity text htext).2.2.1)
      h.rightEnd ?_
    intro multiplicity hmany
    refine search_linkEnd h.rightEnd (stops_labelText (by decide) _) hquote ?_
    intro right hright
    refine search_labelText h.label ?_
    intro label hlabel
    rw [search_atEnd_nil, hleft, hright, hmany, hlabel]
  have hfilled : (if isSupertypeKind link.kind then none
      else filled? (link.multiplicity.map String.toList)) = link.multiplicity := by
    cases hmany : link.multiplicity with
    | none => exact ite_self none
    | some text =>
        obtain ⟨hne, htrimmed, -, hkind⟩ := h.multiplicity text hmany
        rw [hkind]
        exact filled?_some hne htrimmed
  have hlabel : filled? (link.label.map String.toList) = link.label := by
    cases htext : link.label with
    | none => rfl
    | some text =>
        obtain ⟨hne, htrimmed, -⟩ := h.label text htext
        exact filled?_some hne htrimmed
  simp only [link?, hparts, Option.bind_eq_bind, Option.bind_some, h.leftEnd.typeName_eq_self,
    h.rightEnd.typeName_eq_self, hfilled, hlabel, String.ofList_toList]
  by_cases hkind : link.kind = .generalization
  · simp only [leftEnd, rightEnd, hkind, decide_true, if_true]
    rw [← hkind]
    rfl
  · simp only [leftEnd, rightEnd, hkind, decide_false, Bool.false_eq_true, if_false]
    rfl

/-! ## Link lines are no headers and open no package -/

/-- A name in front of something other than a block is no header word. -/
theorem search_blockKeyword_eq_none {k : TypeKind × Bool → List Char → Option β}
    {name rest : List Char} (hname : IsName name) (hrest : Stops isBlank rest)
    (hclass : "class".toList.isPrefixOf? rest = none)
    (hblank : ∀ words s, Stops isBlank s → k words s = none)
    (hk : ∀ words, k words (' ' :: rest) = none) :
    blockKeyword.search k (name ++ ' ' :: rest) = none := by
  have hspace : Stops isName (' ' :: rest) := stops_cons.mpr (by decide)
  have hword : ∀ (word : String) words, isIdentifier word.toList = true →
      (literal word).search (fun _ => k words) (name ++ ' ' :: rest) = none := by
    intro word words hword
    exact hname.search_literal_eq_none (.of_isIdentifier hword) hspace (hblank words)
      fun _ => hk words
  have habstract : (literal "abstract").search (fun _ => blanks1.search fun _ =>
      (literal "class").search fun _ => k (.«class», true)) (name ++ ' ' :: rest) = none := by
    apply hname.search_literal_eq_none (.of_isIdentifier rfl) hspace
    · intro s hs
      exact search_blanks1_of_stops hs _
    · intro _
      rw [search_blanks1_cons (by decide), trimStart_eq_self hrest]
      exact search_literal_of_none hclass _
  simp only [blockKeyword, search_oneOf_cons, search_oneOf_nil, search_bind, search_pure]
  rw [habstract, hword "abstract" _ rfl, hword "class" _ rfl, hword "interface" _ rfl,
    hword "enum" _ rfl]
  rfl

/-- Where a symbol can be read as a name at all, some of it is left. -/
theorem search_blockName_symbol (kind : RelationshipKind) (rest : List Char)
    {k : Span → List Char → Option β}
    (hk : ∀ span c s, c ∈ ['-', '>', '.', '|'] → k span (c :: s) = none) :
    blockName.search k (kind.symbol.toList ++ ' ' :: rest) = none := by
  have hquoted : ∀ k' : Unit → List Char → Option β,
      (char '"').search k' (kind.symbol.toList ++ ' ' :: rest) = none := by
    intro k'
    refine search_char_of_ne ?_ k'
    cases kind <;> simp [RelationshipKind.symbol]
  have hlast : ∃ c ∈ kind.symbol.toList, isDottedName c = false := by
    cases kind <;> decide
  have htail : ∀ c ∈ kind.symbol.toList.tail, c ∈ ['-', '>', '.', '|'] := by
    cases kind <;> decide
  have hrun : (run1 isDottedName).search k (kind.symbol.toList ++ ' ' :: rest) = none := by
    apply search_run1_eq_none
    intro a b hab ha hdotted
    obtain ⟨d, hd, hstop⟩ := hlast
    rcases List.append_eq_append_iff.mp hab with ⟨z, rfl, -⟩ | ⟨z, hz, rfl⟩
    · rw [hdotted d (List.mem_append_left z hd)] at hstop
      contradiction
    · cases z with
      | nil =>
          rw [List.append_nil] at hz
          rw [hdotted d (hz ▸ hd)] at hstop
          contradiction
      | cons c z =>
          apply hk
          apply htail
          rw [hz, List.tail_append_of_ne_nil ha]
          exact List.mem_append_right _ List.mem_cons_self
  simp only [blockName, search_oneOf_cons, search_oneOf_nil, search_taken, search_bind, hquoted,
    hrun, Option.none_or]

theorem header?_linkText {link : Relationship} (h : Legible link) :
    header? (linkText link).toList = none := by
  have hnone : headerLine.first? (linkText link).toList = none := by
    rw [toList_linkText h.writable]
    simp only [headerLine, first?, search_bind, search_pure]
    have hstart : ∀ rest, Stops isBlank (link.kind.symbol.toList ++ rest) := by
      intro rest
      cases link.kind <;> exact stops_cons.mpr (by decide)
    apply search_blockKeyword_eq_none h.writable.leftEnd (hstart _)
    · cases link.kind <;> rfl
    · intro words s hs
      exact search_blanks1_of_stops hs _
    · intro words
      rw [search_blanks1_cons (by decide), trimStart_eq_self (hstart _)]
      apply search_blockName_symbol link.kind
      intro span c s hc
      have hplain : isBlank c = false ∧ c ≠ '<' ∧ c ≠ '{' := by
        revert c
        decide
      obtain ⟨hblank, hangle, hbrace⟩ := hplain
      have hstops : Stops isBlank (c :: s) := stops_cons.mpr hblank
      have htrim := trimStart_eq_self hstops
      rw [search_optional_of_none (search_stereotype_of_ne htrim hangle _),
        search_optional_of_none (search_typeParameters_of_ne htrim hangle _),
        search_optional_of_none (search_supertypeList_of_stops hstops _),
        search_optional_of_none (search_supertypeList_of_stops hstops _), search_blanks, htrim]
      exact search_bodyOpening_of_ne hbrace s _
  simp [header?, hnone]

/-- A line without a brace opens no package. -/
theorem first?_packageLine_eq_none {line : List Char} (h : '{' ∉ line) :
    packageLine.first? line = none := by
  have hany : ∀ (ok : Char → Bool) (c : Char), ok c = true → anything c = true :=
    fun _ _ _ => rfl
  have hkeyword : (keyword ["package", "namespace"]).Takes anything :=
    Takes.keyword fun _ _ _ _ => rfl
  have hquote : (optional (char '"')).Takes anything := Takes.optional (Takes.char rfl)
  simp only [packageLine, first?, search_bind]
  apply hkeyword.search_eq_none_of_suffix
  intro word first hfirst
  apply (Takes.blanks1 (hany _)).search_eq_none_of_suffix
  intro _ second hsecond
  apply hquote.search_eq_none_of_suffix
  intro _ third hthird
  apply (Takes.run1 (hany _)).search_eq_none_of_suffix
  intro name fourth hfourth
  apply hquote.search_eq_none_of_suffix
  intro _ fifth hfifth
  apply (Takes.skip (hany _)).search_eq_none_of_suffix
  intro _ sixth hsixth
  refine search_char_of_ne ?_ _
  intro hhead
  have hsuffix := hsixth.trans (hfifth.trans (hfourth.trans (hthird.trans (hsecond.trans hfirst))))
  exact h (hsuffix.mem (List.mem_of_head? hhead))

/-- A character that is neither part of a name nor of a symbol is not in a link
line. -/
theorem notMem_linkText {link : Relationship} (h : Legible link) {d : Char}
    (hd : d = '{' ∨ d = '\n') : d ∉ (linkText link).toList := by
  have hoff : isName d = false := by
    rcases hd with rfl | rfl <;> decide
  have hsymbol : d ∉ link.kind.symbol.toList := by
    rcases hd with rfl | rfl <;> cases link.kind <;> decide
  have hsigns : d ≠ ' ' ∧ d ≠ ':' := by
    rcases hd with rfl | rfl <;> decide
  have hmultiplicity : d ∉ multiplicityText link.multiplicity := by
    rcases h.multiplicity with hnone | ⟨hmany, -⟩
    · simp [hnone, multiplicityText]
    · rcases hd with rfl | rfl <;> rw [hmany] <;> decide
  have hlabel : d ∉ labelText link.label := by
    cases hname : link.label with
    | none => simp [labelText]
    | some name => simp [labelText, hsigns, (h.label name hname).notMem hoff]
  rw [toList_linkText h.writable]
  simp [h.writable.leftEnd.notMem hoff, h.writable.rightEnd.notMem hoff, hsymbol, hsigns,
    hmultiplicity, hlabel]

theorem trimmed_linkText {link : Relationship} (h : Legible link) :
    Trimmed (linkText link).toList := by
  rw [toList_linkText h.writable]
  cases hname : link.label with
  | none =>
      have htrimmed := h.writable.leftEnd.trimmed.append_append h.writable.rightEnd.trimmed
        h.writable.leftEnd.ne_nil h.writable.rightEnd.ne_nil
        (' ' :: (link.kind.symbol.toList ++ ' ' :: multiplicityText link.multiplicity))
      simpa [labelText] using htrimmed
  | some name =>
      have hlabel := h.label name hname
      have htrimmed := h.writable.leftEnd.trimmed.append_append hlabel.trimmed
        h.writable.leftEnd.ne_nil hlabel.ne_nil (' ' :: (link.kind.symbol.toList ++ ' ' ::
          (multiplicityText link.multiplicity ++ ((rightEnd link).toList ++ [' ', ':', ' ']))))
      simpa [labelText] using htrimmed

/-- A link line gives its relationship, or nothing where the name of its source
starts like a line without structure. It takes no other line with it. -/
theorem readItem_linkText {link : Relationship} (h : Drawn link) (rest : List (List Char)) :
    readItem (linkText link).toList rest = ([], rest) ∨
      readItem (linkText link).toList rest = ([.link link], rest) := by
  obtain ⟨label, hlabel, hname⟩ := h.label
  have hcolon : (linkText link).toList.contains ':' = true := by
    simp [toList_linkText h.legible.writable, hlabel, labelText]
  have hfilled : (linkText link).toList.isEmpty = false := by
    simp [toList_linkText h.legible.writable]
  have hopen : (linkText link).toList ≠ ['}'] := by
    intro heq
    rw [heq] at hcolon
    contradiction
  unfold readItem
  rw [hfilled, if_neg (by decide), if_neg hopen]
  by_cases hdirective : isDirective (linkText link).toList = true
  · rw [if_pos hdirective]
    exact Or.inl rfl
  · rw [if_neg hdirective]
    by_cases hnote : "note".toList.isPrefixOf (linkText link).toList = true
    · rw [if_pos hnote, hcolon]
      exact Or.inl rfl
    · rw [if_neg hnote, first?_packageLine_eq_none (notMem_linkText h.legible (.inl rfl)),
        header?_linkText h.legible, link?_linkText h.legible.writable]
      exact Or.inr rfl

end ClassAtlas.Diagram
