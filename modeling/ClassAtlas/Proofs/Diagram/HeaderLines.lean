import ClassAtlas.Diagram.Header
import ClassAtlas.Diagram.Render
import ClassAtlas.Proofs.Assembly.Nodes
import ClassAtlas.Proofs.Diagram.Readable

/-!
# Reading header lines back

The header that is written for a type is read as the same kind, name and
supertypes, with a body that opens at the end of the line. The supertypes of a
clause are read reluctantly, so the argument is about the shorter readings:
each of them leaves a name or a comma where only the next clause or the body
can stand. That is why no supertype may have the name of the next clause.
-/

namespace ClassAtlas.Diagram

open ClassAtlas.Text Pattern TypeText

variable {β : Type}

/-! ## Lists of names -/

/-- Names as they are listed in a clause. -/
def namesText (names : List String) : List Char :=
  [',', ' '].intercalate (names.map String.toList)

theorem toList_clause {word : String} {names : List String} (hne : names ≠ []) :
    (clause word names).toList = ' ' :: (word.toList ++ ' ' :: namesText names) := by
  have hempty : names.isEmpty = false := by
    simpa using hne
  simp [clause, hempty, namesText, String.toList_intercalate]

/-- What follows the first name of a list. -/
def namesTail (names : List String) : List Char :=
  if names = [] then [] else ',' :: ' ' :: namesText names

theorem namesText_cons (name : String) (names : List String) :
    namesText (name :: names) = name.toList ++ namesTail names := by
  cases names with
  | nil => simp [namesText, namesTail]
  | cons next more => simp [namesText, namesTail, List.intercalate_cons_cons]

theorem stops_isName_namesTail (names : List String) : Stops isName (namesTail names) := by
  cases names with
  | nil => exact stops_nil _
  | cons next more => exact stops_cons.mpr (by decide)

/-- What is left of a list of names starts inside a name, at a comma, or at
the space in front of a name. -/
def WithinNames (names : List String) (y : List Char) : Prop :=
  (∃ c rest, y = c :: rest ∧ (isName c = true ∨ c = ',')) ∨
    ∃ name ∈ names, ∃ rest, y = ' ' :: (name.toList ++ rest) ∧ Stops isName rest

theorem WithinNames.cons {names : List String} {y : List Char} (h : WithinNames names y)
    (name : String) : WithinNames (name :: names) y := by
  rcases h with hinside | ⟨other, hother, hy⟩
  · exact Or.inl hinside
  · exact Or.inr ⟨other, List.mem_cons_of_mem name hother, hy⟩

section Names

variable {names : List String} (hnames : ∀ name ∈ names, IsName name.toList)
include hnames

theorem namesText_ne_nil (hne : names ≠ []) : namesText names ≠ [] := by
  cases names with
  | nil => contradiction
  | cons name rest =>
      have hname := (hnames name List.mem_cons_self).ne_nil
      simp [namesText_cons, hname]

theorem stops_isBlank_namesText (hne : names ≠ []) (rest : List Char) :
    Stops isBlank (namesText names ++ rest) := by
  cases names with
  | nil => contradiction
  | cons name more =>
      rw [namesText_cons, List.append_assoc]
      exact (hnames name List.mem_cons_self).stops_isBlank_append _

theorem notMem_namesText {d : Char} (hd : isName d = false) (hsep : d ∉ [',', ' ']) :
    d ∉ namesText names := by
  refine notMem_intercalate hsep (List.forall_mem_map.mpr ?_)
  intro name hmem
  exact (hnames name hmem).notMem hd

theorem within_namesText {x y : List Char} (h : namesText names = x ++ y) (hy : y ≠ []) :
    WithinNames names y := by
  induction names generalizing x with
  | nil =>
      have hnil := List.append_eq_nil_iff.mp h.symm
      exact (hy hnil.2).elim
  | cons name rest ih =>
      obtain ⟨hname, hrest⟩ := List.forall_mem_cons.mp hnames
      have htail : ∀ z, namesTail rest = z ++ y → WithinNames (name :: rest) y := by
        intro z hz
        by_cases hempty : rest = []
        · rw [namesTail, if_pos hempty] at hz
          exact (hy (List.append_eq_nil_iff.mp hz.symm).2).elim
        · rw [namesTail, if_neg hempty] at hz
          match z, hz with
          | [], hz => exact Or.inl ⟨',', _, hz.symm, Or.inr rfl⟩
          | [_], hz =>
              cases rest with
              | nil => contradiction
              | cons next more =>
                  refine Or.inr ⟨next, by simp, namesTail more, ?_, stops_isName_namesTail more⟩
                  rw [namesText_cons] at hz
                  exact (List.cons.inj hz).2.symm
          | _ :: _ :: z, hz =>
              have hz' : namesText rest = z ++ y := (List.cons.inj (List.cons.inj hz).2).2
              exact (ih hrest hz').cons name
      rw [namesText_cons] at h
      rcases List.append_eq_append_iff.mp h with ⟨z, -, hz⟩ | ⟨z, hz, rfl⟩
      · exact htail z hz
      · cases z with
        | nil => exact htail [] rfl
        | cons c z =>
            have hmem : c ∈ name.toList := by
              rw [hz]
              simp
            exact Or.inl ⟨c, z ++ namesTail rest, rfl, Or.inl (hname.all_name c hmem)⟩

/-- Neither a body nor the end of the line follows within a list of names. -/
theorem WithinNames.exists_trimStart {y : List Char} (h : WithinNames names y)
    (rest : List Char) : ∃ c more, trimStart (y ++ rest) = c :: more ∧ c ≠ '{' := by
  rcases h with ⟨c, more, rfl, hc⟩ | ⟨name, hmem, more, rfl, -⟩
  · refine ⟨c, more ++ rest, ?_, ?_⟩
    · apply trimStart_eq_self
      rcases hc with hname | rfl
      · exact stops_cons.mpr (isBlank_eq_false_of_isName hname)
      · exact stops_cons.mpr (by decide)
    · rintro rfl
      rcases hc with hname | hcomma
      · contradiction
      · contradiction
  · have hname := hnames name hmem
    have htrim : trimStart (' ' :: (name.toList ++ more) ++ rest) =
        name.toList ++ (more ++ rest) := by
      rw [List.cons_append, List.append_assoc, trimStart_space,
        trimStart_eq_self (hname.stops_isBlank_append _)]
    rw [htrim]
    cases hchars : name.toList with
    | nil => exact (hname.ne_nil hchars).elim
    | cons c chars =>
        refine ⟨c, chars ++ (more ++ rest), rfl, ?_⟩
        exact hname.ne_of_mem (hchars ▸ List.mem_cons_self) (by decide)

theorem typeNames_namesText : typeNames (namesText names) = names := by
  have hsplit : splitTopLevel ',' (namesText names) = names.map String.toList := by
    refine splitTopLevel_intercalate ?_ ?_ ?_
    · refine List.forall_mem_map.mpr fun name hmem => ?_
      have hempty : Whole ',' 0 [] := rfl
      simpa using hempty.append (hnames name hmem).flat
    · exact List.forall_mem_map.mpr fun name hmem => (hnames name hmem).trimmed
    · exact List.forall_mem_map.mpr fun name hmem => (hnames name hmem).ne_nil
  have hnames' : (names.map String.toList).map typeName = names.map String.toList := by
    rw [List.map_map]
    exact List.map_congr_left fun name hmem => (hnames name hmem).typeName_eq_self
  have hfilled : (names.map String.toList).filter (!·.isEmpty) = names.map String.toList := by
    refine List.filter_eq_self.mpr (List.forall_mem_map.mpr fun name hmem => ?_)
    simpa using (hnames name hmem).ne_nil
  rw [typeNames, hsplit, hnames', hfilled, List.map_map]
  simp

end Names

/-! ## Clauses -/

/-- A clause is not found where another name stands. -/
theorem search_supertypeList_of_ne {word : String} (hword : IsName word.toList)
    {name : List Char} (hname : IsName name) (hne : name ≠ word.toList) {rest : List Char}
    (hrest : Stops isName rest) (k : Span → List Char → Option β) :
    (supertypeList word).search k (' ' :: (name ++ rest)) = none := by
  simp only [supertypeList, search_bind]
  rw [search_blanks1_cons (by decide), trimStart_eq_self (hname.stops_isBlank_append rest)]
  refine hname.search_literal_eq_none hword hrest ?_ (fun heq => (hne heq).elim)
  intro s hs
  exact search_skip1_of_stops hs _

theorem search_supertypeList_of_stops {word : String} {s : List Char}
    (hs : Stops isBlank s) (k : Span → List Char → Option β) :
    (supertypeList word).search k s = none := by
  simp only [supertypeList, search_bind]
  exact search_blanks1_of_stops hs _

theorem search_supertypeList_of_head {word : String} {c : Char} (hblank : isBlank c = false)
    (hc : word.toList.head? ≠ some c) (hword : word.toList ≠ []) (s : List Char)
    (k : Span → List Char → Option β) :
    (supertypeList word).search k (' ' :: c :: s) = none := by
  simp only [supertypeList, search_bind]
  rw [search_blanks1_cons (by decide), trimStart_eq_self (stops_cons.mpr hblank)]
  refine search_literal_of_none ?_ _
  cases hchars : word.toList with
  | nil => contradiction
  | cons d chars =>
      rw [hchars] at hc
      have hne : d ≠ c := by simpa using hc
      simp [List.isPrefixOf?, hne]

/-- A clause does not stand within a list of names, unless it is one of
them. -/
theorem search_supertypeList_of_within {word : String} (hword : IsName word.toList)
    {names : List String} (hnames : ∀ name ∈ names, IsName name.toList)
    (hne : word ∉ names) {y rest : List Char} (h : WithinNames names y)
    (hrest : Stops isName rest) (k : Span → List Char → Option β) :
    (supertypeList word).search k (y ++ rest) = none := by
  rcases h with ⟨c, more, rfl, hc⟩ | ⟨name, hmem, more, rfl, hmore⟩
  · refine search_supertypeList_of_stops (stops_cons.mpr ?_) k
    rcases hc with hname | rfl
    · exact isBlank_eq_false_of_isName hname
    · decide
  · have hname : name.toList ≠ word.toList := by
      intro heq
      rw [String.toList_inj] at heq
      exact hne (heq ▸ hmem)
    have hstops : Stops isName (more ++ rest) := by
      cases more with
      | nil => exact hrest
      | cons c more => exact stops_cons.mpr (stops_cons.mp hmore)
    rw [List.cons_append, List.append_assoc]
    exact search_supertypeList_of_ne hword (hnames name hmem) hname hstops k

/-- A clause that is written is read, and one that is not is passed over. -/
theorem search_clause {word : String} (hword : IsName word.toList) {names : List String}
    (hnames : ∀ name ∈ names, IsName name.toList) {rest : List Char}
    {k : Option Span → List Char → Option β} {v : β}
    (hk : ∀ span, span.map Span.text = (if names = [] then none else some (namesText names)) →
      k span rest = some v)
    (hskip : (supertypeList word).search (fun span => k (some span)) rest = none)
    (hfail : ∀ span y, WithinNames names y → k (some span) (y ++ rest) = none) :
    (optional (supertypeList word)).search k ((clause word names).toList ++ rest) =
      some v := by
  by_cases hempty : names = []
  · subst hempty
    change (optional (supertypeList word)).search k rest = some v
    rw [search_optional_of_none hskip]
    exact hk none rfl
  · refine search_optional_of_some ?_
    rw [toList_clause hempty]
    simp only [supertypeList, search_bind, List.cons_append, List.append_assoc]
    rw [search_blanks1_cons (by decide), trimStart_eq_self (hword.stops_isBlank_append _),
      search_literal_append]
    have hstops := stops_isBlank_namesText hnames hempty rest
    refine search_skip1_longest (a := [' ']) (by simp) (by decide) hstops ?_
    refine search_runFew1_of_fail (namesText_ne_nil hnames hempty) ?_ ?_ ?_
    · intro c hc
      have hbrace := notMem_namesText hnames (d := '{') (by decide) (by decide)
      have hne : c ≠ '{' := fun heq => hbrace (heq ▸ hc)
      simp [noneOf, hne]
    · refine hk (some _) ?_
      rw [if_neg hempty, Option.map_some, text_span_append]
    · intro x y hxy _ hy
      exact hfail _ y (within_namesText hnames hxy hy)

/-! ## Whole headers -/

theorem search_bodyOpening_of_ne {c : Char} (hc : c ≠ '{') (s : List Char)
    (k : Option Span → List Char → Option β) :
    (optional bodyOpening).search
      (fun opening => atEnd.search fun _ => k opening) (c :: s) = none := by
  have hopening : bodyOpening.search
      (fun opening => atEnd.search fun _ => k (some opening)) (c :: s) = none := by
    simp only [bodyOpening, search_taken, search_bind]
    exact search_char_of_ne (by simpa using hc) _
  rw [search_optional_of_none hopening, search_atEnd_cons]

theorem search_bodyOpening {inner : List Char} (hinner : '\n' ∉ inner)
    {k : Option Span → List Char → Option β} {v : β}
    (hk : ∀ span, Span.text span = '{' :: inner → k (some span) [] = some v) :
    (optional bodyOpening).search (fun opening => atEnd.search fun _ => k opening)
      ('{' :: inner) = some v := by
  refine search_optional_of_some ?_
  simp only [bodyOpening, search_taken, search_bind]
  rw [search_char_self, ← List.append_nil inner]
  refine search_skip_longest (forall_inLine_iff.mpr hinner) (stops_nil _) ?_
  exact hk _ (by simp [Span.text])

theorem search_classKeyword {k : TypeKind × Bool → List Char → Option β} {v : β}
    {rest : List Char} (hk : k (.«class», false) rest = some v) :
    blockKeyword.search k ("class".toList ++ rest) = some v := by
  have hskip : ∀ k' : Unit → List Char → Option β,
      (literal "abstract").search k' ("class".toList ++ rest) = none :=
    search_literal_of_none rfl
  simp only [blockKeyword, search_oneOf_cons, search_bind, search_pure, hskip, Option.none_or]
  rw [search_literal_append, hk, Option.some_or]

/-- The words in front of a name. -/
theorem search_blockKeyword {node : TypeNode}
    (habstract : node.isAbstract = true → node.kind = .«class»)
    {k : TypeKind × Bool → List Char → Option β} {v : β} {rest : List Char}
    (hk : k (node.kind, node.isAbstract) (' ' :: rest) = some v) :
    blockKeyword.search k ((blockWords node).toList ++ ' ' :: rest) = some v := by
  have hplain : node.kind ≠ .«class» → node.isAbstract = false := by
    intro hkind
    by_contra hflag
    exact hkind (habstract (by simpa using hflag))
  have hskip : ∀ (word : String) (s : List Char) (k' : Unit → List Char → Option β),
      word.toList.isPrefixOf? s = none → (literal word).search k' s = none :=
    fun _ _ k' hnone => search_literal_of_none hnone k'
  cases hkind : node.kind with
  | «class» =>
      cases hflag : node.isAbstract with
      | false =>
          have hwords : blockWords node = "class" := by
            rw [blockWords, hkind, hflag]
            rfl
          rw [hkind, hflag] at hk
          rw [hwords]
          exact search_classKeyword hk
      | true =>
          have hwords : blockWords node = "abstract class" := by
            rw [blockWords, hkind, hflag]
            rfl
          rw [hkind, hflag] at hk
          have hfirst : (literal "abstract").search (fun _ => blanks1.search fun _ =>
              (literal "class").search fun _ => k (.«class», true))
              ("abstract class".toList ++ ' ' :: rest) = some v := hk
          rw [hwords]
          simp only [blockKeyword, search_oneOf_cons, search_oneOf_nil, search_bind, search_pure]
          rw [hfirst]
          rfl
  | interface =>
      have hwords : blockWords node = "interface" := by rw [blockWords, hkind]
      rw [hplain (by rw [hkind]; decide), hkind] at hk
      rw [hwords]
      simp only [blockKeyword, search_oneOf_cons, search_oneOf_nil, search_bind, search_pure]
      rw [hskip "abstract" ("interface".toList ++ ' ' :: rest) _ rfl,
        hskip "abstract" ("interface".toList ++ ' ' :: rest) _ rfl,
        hskip "class" ("interface".toList ++ ' ' :: rest) _ rfl, search_literal_append, hk]
      rfl
  | enumeration =>
      have hwords : blockWords node = "enum" := by rw [blockWords, hkind]
      rw [hplain (by rw [hkind]; decide), hkind] at hk
      rw [hwords]
      simp only [blockKeyword, search_oneOf_cons, search_oneOf_nil, search_bind, search_pure]
      rw [hskip "abstract" ("enum".toList ++ ' ' :: rest) _ rfl,
        hskip "abstract" ("enum".toList ++ ' ' :: rest) _ rfl,
        hskip "class" ("enum".toList ++ ' ' :: rest) _ rfl,
        hskip "interface" ("enum".toList ++ ' ' :: rest) _ rfl, search_literal_append, hk]
      rfl

/-- A name of a block as it can be written: a dotted name, or any name on one line
in quotation marks. -/
inductive IsBlockName : List Char → Prop where
  | dotted {name : List Char} (hne : name ≠ []) (h : ∀ c ∈ name, isDottedName c = true) :
    IsBlockName name
  | quoted {name : List Char} (hne : name ≠ []) (hquote : '"' ∉ name) (hline : '\n' ∉ name) :
    IsBlockName ('"' :: (name ++ ['"']))

theorem IsName.isBlockName {name : List Char} (h : IsName name) : IsBlockName name := by
  refine .dotted h.ne_nil fun c hc => ?_
  rw [isDottedName, h.all_name c hc, Bool.true_or]

/-- The name of a block, where a space follows. -/
theorem search_blockName {name : List Char} (hname : IsBlockName name) {rest : List Char}
    {k : Span → List Char → Option β} {v : β}
    (hk : ∀ span, Span.text span = name → k span (' ' :: rest) = some v) :
    blockName.search k (name ++ ' ' :: rest) = some v := by
  simp only [blockName, search_oneOf_cons, search_taken, search_bind]
  cases hname with
  | dotted hne hdotted =>
      have hquote : (name ++ ' ' :: rest).head? ≠ some '"' := by
        obtain ⟨c, more, rfl⟩ := List.exists_cons_of_ne_nil hne
        rw [List.cons_append, List.head?_cons, ne_eq, Option.some.injEq]
        rintro rfl
        exact absurd (hdotted '"' List.mem_cons_self) (by decide)
      rw [search_char_of_ne hquote, Option.none_or, search_run1_longest hne hdotted
        (stops_cons.mpr (by decide)) (hk _ (text_span_append _ _)), Option.some_or]
  | @quoted inner hne hquote hline =>
      have hinner : ∀ c ∈ inner, noneOf ['"'] c = true := forall_noneOf_iff.mpr hquote
      have hspan := text_span_append ('"' :: (inner ++ ['"'])) (' ' :: rest)
      have hread := hk _ hspan
      simp only [List.cons_append, List.append_assoc, List.nil_append] at hread ⊢
      rw [search_char_self, search_skip1_longest hne hinner (stops_cons.mpr (by decide))
        ((search_char_self _ _ _).trans hread), Option.some_or]

/-- Neither a stereotype nor type parameters stand in front of another
character. -/
theorem search_stereotype_of_ne {c : Char} {s rest : List Char}
    (htrim : trimStart s = c :: rest) (hc : c ≠ '<') (k : Unit → List Char → Option β) :
    stereotype.search k s = none := by
  simp only [stereotype, search_bind, search_blanks, htrim]
  refine search_literal_of_none ?_ _
  simp [List.isPrefixOf?, Ne.symm hc]

theorem search_typeParameters_of_ne {c : Char} {s rest : List Char}
    (htrim : trimStart s = c :: rest) (hc : c ≠ '<') (k : Unit → List Char → Option β) :
    typeParameters.search k s = none := by
  simp only [typeParameters, search_bind, search_blanks, htrim]
  exact search_char_of_ne (by simpa using hc) _

/-- What follows the name of a block. -/
def clausesText (extended implemented : List String) : List Char :=
  (clause "extends" extended).toList ++ ((clause "implements" implemented).toList ++ [' ', '{'])

theorem toList_headerText (node : TypeNode) :
    (headerText .headerClauses node).toList = (blockWords node).toList ++ ' ' ::
      (node.name.toList ++ clausesText (parents node) node.implementedInterfaces) := by
  simp [headerText, clausesText]

theorem exists_implementsText (implemented : List String) :
    ∃ c rest, (clause "implements" implemented).toList ++ [' ', '{'] = ' ' :: c :: rest ∧
      (c = 'i' ∨ c = '{') := by
  by_cases hempty : implemented = []
  · subst hempty
    exact ⟨'{', [], rfl, Or.inr rfl⟩
  · rw [toList_clause hempty]
    exact ⟨'i', _, rfl, Or.inl rfl⟩

theorem exists_clausesText (extended implemented : List String) :
    ∃ c rest, clausesText extended implemented = ' ' :: c :: rest ∧
      isBlank c = false ∧ c ≠ '<' := by
  rw [clausesText]
  by_cases hempty : extended = []
  · subst hempty
    obtain ⟨c, rest, htext, hc⟩ := exists_implementsText implemented
    refine ⟨c, rest, htext, ?_⟩
    rcases hc with rfl | rfl <;> decide
  · rw [toList_clause hempty]
    exact ⟨'e', _, rfl, by decide, by decide⟩

/-- The end of a header is not reached within a list of names. -/
theorem search_headerEnd_of_within {names : List String}
    (hnames : ∀ name ∈ names, IsName name.toList) {y : List Char} (h : WithinNames names y)
    (rest : List Char) (k : Option Span → List Char → Option β) :
    blanks.search (fun _ => (optional bodyOpening).search fun opening =>
      atEnd.search fun _ => k opening) (y ++ rest) = none := by
  obtain ⟨c, more, htrim, hc⟩ := h.exists_trimStart hnames rest
  rw [search_blanks, htrim]
  exact search_bodyOpening_of_ne hc more k

/-- The clauses of a header are found again. -/
theorem search_clausesText {extended implemented : List String}
    (hextended : ∀ name ∈ extended, isTypeName name = true)
    (himplemented : ∀ name ∈ implemented, isTypeName name = true)
    {k : Option Span → Option Span → Option Span → List Char → Option β} {v : β}
    (hk : ∀ first second opening,
      first.map Span.text = (if extended = [] then none else some (namesText extended)) →
      second.map Span.text = (if implemented = [] then none else some (namesText implemented)) →
      Span.text opening = ['{'] → k first second (some opening) [] = some v) :
    (optional (supertypeList "extends")).search (fun first =>
      (optional (supertypeList "implements")).search fun second =>
        blanks.search fun _ => (optional bodyOpening).search fun opening =>
          atEnd.search fun _ => k first second opening) (clausesText extended implemented) =
      some v := by
  have hextended' := fun name hmem => isName_of_isTypeName (hextended name hmem)
  have himplemented' := fun name hmem => isName_of_isTypeName (himplemented name hmem)
  refine search_clause (.of_isIdentifier rfl) hextended' ?_ ?_ ?_
  · intro first hfirst
    refine search_clause (.of_isIdentifier rfl) himplemented' ?_ ?_ ?_
    · intro second hsecond
      rw [search_blanks]
      exact search_bodyOpening (by simp) fun opening => hk first second opening hfirst hsecond
    · exact search_supertypeList_of_head (by decide) (by decide) (by decide) _ _
    · intro span y hy
      exact search_headerEnd_of_within himplemented' hy _ _
  · obtain ⟨c, rest, htext, hc⟩ := exists_implementsText implemented
    rw [htext]
    rcases hc with rfl | rfl
    · exact search_supertypeList_of_head (by decide) (by decide) (by decide) _ _
    · exact search_supertypeList_of_head (by decide) (by decide) (by decide) _ _
  · intro span y hy
    have hword : "implements" ∉ extended := by
      intro hmem
      have := hextended _ hmem
      contradiction
    have hrest : Stops isName ((clause "implements" implemented).toList ++ [' ', '{']) := by
      obtain ⟨c, rest, htext, -⟩ := exists_implementsText implemented
      rw [htext]
      exact stops_cons.mpr (by decide)
    rw [search_optional_of_none (search_supertypeList_of_within (.of_isIdentifier rfl)
      hextended' hword hy hrest _)]
    exact search_headerEnd_of_within hextended' hy _ _

/-- The names of a clause as they are written, if there are any. -/
def listed? (names : List String) : Option (List Char) :=
  if names = [] then none else some (namesText names)

theorem typeNames_listed? {names : List String} (hnames : ∀ name ∈ names, IsName name.toList) :
    ((listed? names).map typeNames).getD [] = names := by
  by_cases hempty : names = []
  · simp [listed?, hempty]
  · simp [listed?, hempty, typeNames_namesText hnames]

theorem first?_headerLine {node : TypeNode} (h : node.declaration.Readable) :
    headerLine.first? (headerText .headerClauses node).toList = some ({
      kind := node.kind
      isAbstract := node.isAbstract
      name := node.name.toList
      extended := listed? (parents node)
      implemented := listed? node.implementedInterfaces
      opening := some ['{'] }, []) := by
  have hname : IsName node.name.toList := isName_of_isTypeName h.identifier
  rw [toList_headerText]
  simp only [headerLine, first?, search_bind, search_pure]
  refine search_blockKeyword h.abstract_class ?_
  obtain ⟨c, rest, htext, hblank, hc⟩ :=
    exists_clausesText (parents node) node.implementedInterfaces
  rw [search_blanks1_cons (by decide), trimStart_eq_self (hname.stops_isBlank_append _), htext]
  refine search_blockName hname.isBlockName ?_
  intro span hspan
  have htrim : trimStart (' ' :: c :: rest) = c :: rest :=
    trimStart_eq_self (stops_cons.mpr hblank)
  rw [search_optional_of_none (search_stereotype_of_ne htrim hc _),
    search_optional_of_none (search_typeParameters_of_ne htrim hc _), ← htext]
  refine search_clausesText ?_ ?_ ?_
  · exact fun name hmem => h.supertypes name (List.mem_append_left _ hmem)
  · exact fun name hmem => h.supertypes name (List.mem_append_right _ hmem)
  · intro first second opening hfirst hsecond hopening
    rw [hspan, hfirst, hsecond, Option.map_some, hopening]
    rfl

/-- The header that is written for a type. -/
def headerOf (node : TypeNode) : Header where
  name := node.name
  kind := node.kind
  isAbstract := node.isAbstract
  extended := parents node
  implemented := node.implementedInterfaces
  opening := some ['{']

/-- A header line is read as the header it was written for. -/
theorem header?_headerText {node : TypeNode} (h : node.declaration.Readable) :
    header? (headerText .headerClauses node).toList = some (headerOf node) := by
  have hname : IsName node.name.toList := isName_of_isTypeName h.identifier
  have hextended : ∀ name ∈ parents node, IsName name.toList := fun name hmem =>
    isName_of_isTypeName (h.supertypes name (List.mem_append_left _ hmem))
  have himplemented : ∀ name ∈ node.implementedInterfaces, IsName name.toList :=
    fun name hmem => isName_of_isTypeName (h.supertypes name (List.mem_append_right _ hmem))
  have hfilled : node.name ≠ "" := by
    intro hempty
    exact hname.ne_nil (by rw [hempty]; rfl)
  simp [header?, first?_headerLine h, hname.typeName_eq_self, hfilled, headerOf,
    typeNames_listed? hextended, typeNames_listed? himplemented]

/-- A line that starts like no header word is no header. -/
theorem header?_of_head {c : Char} (hc : c ∉ ['a', 'c', 'i', 'e']) (s : List Char) :
    header? (c :: s) = none := by
  have hword : ∀ word : String, (∃ d ∈ ['a', 'c', 'i', 'e'], word.toList.head? = some d) →
      word.toList.isPrefixOf? (c :: s) = none := by
    rintro word ⟨d, hd, hhead⟩
    cases hchars : word.toList with
    | nil => simp [hchars] at hhead
    | cons e chars =>
        rw [hchars, List.head?_cons, Option.some.injEq] at hhead
        have hne : e ≠ c := by
          rintro rfl
          exact hc (hhead ▸ hd)
        simp [List.isPrefixOf?, hne]
  have hnone : headerLine.first? (c :: s) = none := by
    simp only [headerLine, first?, blockKeyword, search_bind, search_oneOf_cons,
      search_oneOf_nil, Option.or_none]
    rw [search_literal_of_none (hword "abstract" ⟨'a', by decide, rfl⟩),
      search_literal_of_none (hword "abstract" ⟨'a', by decide, rfl⟩),
      search_literal_of_none (hword "class" ⟨'c', by decide, rfl⟩),
      search_literal_of_none (hword "interface" ⟨'i', by decide, rfl⟩),
      search_literal_of_none (hword "enum" ⟨'e', by decide, rfl⟩)]
    rfl
  simp [header?, hnone]

theorem newline_notMem_headerText {node : TypeNode} (h : node.declaration.Readable) :
    '\n' ∉ (headerText .headerClauses node).toList := by
  have hname : IsName node.name.toList := isName_of_isTypeName h.identifier
  have hclause : ∀ word names, '\n' ∉ word.toList →
      (∀ name ∈ names, isTypeName name = true) → '\n' ∉ (clause word names).toList := by
    intro word names hword hnames
    by_cases hempty : names = []
    · simp [clause, hempty]
    · have hlist := notMem_namesText (d := '\n')
        (fun name hmem => isName_of_isTypeName (hnames name hmem)) (by decide) (by decide)
      simp [toList_clause hempty, hword, hlist]
  have hextended := hclause "extends" (parents node) (by decide) fun name hmem =>
    h.supertypes name (List.mem_append_left _ hmem)
  have himplemented := hclause "implements" node.implementedInterfaces (by decide)
    fun name hmem => h.supertypes name (List.mem_append_right _ hmem)
  have hwords : '\n' ∉ (blockWords node).toList := by
    unfold blockWords
    cases node.kind <;> cases node.isAbstract <;> decide
  rw [toList_headerText]
  simp [clausesText, hwords, hname.notMem (d := '\n') (by decide), hextended, himplemented]

theorem trimmed_headerText (node : TypeNode) :
    Trimmed (headerText .headerClauses node).toList := by
  rw [toList_headerText]
  constructor
  · unfold blockWords
    cases node.kind <;> cases node.isAbstract <;> exact stops_cons.mpr (by decide)
  · simp [clausesText, stops_cons]
    decide

end ClassAtlas.Diagram
