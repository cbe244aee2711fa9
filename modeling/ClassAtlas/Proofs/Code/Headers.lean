import ClassAtlas.Proofs.Diagram.Blocks
import ClassAtlas.Proofs.Code.UnclosedTypes

/-!
# Headers with supertypes

A header is written as modifiers, a kind, a name, type parameters and the lists
of the types that are extended and implemented. All of it is recovered: the type
parameters are skipped up to the angle bracket that closes them, the clauses are
cut at the words that open them, and each list is split outside brackets and
reduced to simple names.

The clauses are read reluctantly, so the argument is about the shorter readings.
Each of them leaves a text that starts within a list of supertypes, and there the
next clause would have to start too. Its word has to have a blank behind it, so
this fails unless a name in the list ends in that word.
-/

namespace ClassAtlas.Code

open ClassAtlas.Text Pattern TypeText
open Diagram (isIdentifier IsName)

/-! ## Supertypes -/

/-- A reference to a supertype as it is written: a qualified name, and type
arguments with balanced brackets. -/
structure SupertypeSource where
  qualifier : List (List Char)
  isName_of_mem_qualifier : ∀ part ∈ qualifier, IsName part
  name : List Char
  isName_name : IsName name
  arguments : Option (List Char)
  angles : ∀ text ∈ arguments, isBalanced '<' '>' 0 text = true
  squares : ∀ text ∈ arguments, isBalanced '[' ']' 0 text = true
  plain : ∀ text ∈ arguments, ∀ c ∈ text, c ∉ ['{', '}', '(', ')', ';', '=']

/-- Type parameters or type arguments as they are written, with the angle
brackets around them. -/
def angleText : Option (List Char) → List Char
  | none => []
  | some text => '<' :: (text ++ ['>'])

theorem endsHeader_of_isDottedName {c : Char} (h : isDottedName c = true) :
    endsHeader c = false := by
  have hothers : ∀ d ∈ ['{', ';', '=', '(', ')'], isDottedName d = false := by
    decide
  simpa [endsHeader] using notMem_of_ok h hothers

theorem endsHeader_of_mem_angleText {inner : Option (List Char)}
    (h : ∀ text ∈ inner, ∀ c ∈ text, endsHeader c = false) :
    ∀ c ∈ angleText inner, endsHeader c = false := by
  cases inner with
  | none => exact List.forall_mem_nil _
  | some text =>
      simp only [angleText, List.forall_mem_cons, List.forall_mem_append]
      exact ⟨by decide, h text rfl, by decide, List.forall_mem_nil _⟩

namespace SupertypeSource

/-- The name with the qualifier in front of it. -/
def qualifiedName (type : SupertypeSource) : List Char :=
  type.qualifier.flatMap (· ++ ['.']) ++ type.name

def text (type : SupertypeSource) : List Char :=
  type.qualifiedName ++ angleText type.arguments

variable (type : SupertypeSource)

theorem isQualifiedName : IsQualifiedName type.qualifiedName := by
  have hqualified : ∀ parts : List (List Char), (∀ part ∈ parts, IsName part) →
      IsQualifiedName (parts.flatMap (· ++ ['.']) ++ type.name) := by
    intro parts hparts
    induction parts with
    | nil => exact .name type.isName_name
    | cons part parts ih =>
        obtain ⟨hpart, hparts⟩ := List.forall_mem_cons.mp hparts
        have hdotted := IsQualifiedName.dotted hpart (ih hparts)
        simpa using hdotted
  exact hqualified type.qualifier type.isName_of_mem_qualifier

theorem text_ne_nil : type.text ≠ [] := by
  simp [text, type.isQualifiedName.ne_nil]

/-- A reference ends in a name or in a closing bracket. -/
theorem exists_last : ∃ init c, type.text = init ++ [c] ∧ (isName c = true ∨ c = '>') := by
  cases harguments : type.arguments with
  | none =>
      obtain ⟨init, c, hlast, hc⟩ := type.isQualifiedName.exists_last
      exact ⟨init, c, by simp [text, harguments, angleText, hlast], Or.inl hc⟩
  | some arguments =>
      refine ⟨type.qualifiedName ++ '<' :: arguments, '>', ?_, Or.inr rfl⟩
      simp [text, harguments, angleText]

theorem trimmed_text : Trimmed type.text := by
  constructor
  · exact type.isQualifiedName.tidy.stops_isBlank.append type.isQualifiedName.ne_nil _
  · obtain ⟨init, c, hlast, hc⟩ := type.exists_last
    rw [hlast, List.reverse_append]
    apply stops_cons.mpr
    rcases hc with hname | rfl
    · exact isBlank_eq_false_of_isName hname
    · decide

/-- Commas stand inside the type arguments only. -/
theorem whole_text : Whole ',' 0 type.text := by
  have hend : Whole ',' 0 [] := rfl
  refine Whole.append type.isQualifiedName.flat ?_
  cases harguments : type.arguments with
  | none => exact hend
  | some arguments =>
      have hplain : ∀ c ∈ arguments, c ∉ ['(', ')', '{', '}'] := by
        intro c hc hmem
        have hnot := type.plain arguments harguments c hc
        simp only [List.mem_cons, List.not_mem_nil, or_false, not_or] at hnot hmem
        tauto
      have hclosed : Whole ',' (1 : ℕ) ['>'] := whole_cons (by decide) (by decide) hend
      have hinside := whole_append_of_balanced hplain (type.angles arguments harguments)
        (type.squares arguments harguments) (Or.inl Nat.one_ne_zero) hclosed
      exact whole_cons (by decide) (by decide) hinside

theorem endsHeader_of_mem_text : ∀ c ∈ type.text, endsHeader c = false := by
  refine List.forall_mem_append.mpr ⟨?_, endsHeader_of_mem_angleText ?_⟩
  · intro c hc
    exact endsHeader_of_isDottedName (type.isQualifiedName.all_dotted c hc)
  · intro arguments harguments c hc
    have hnot := type.plain arguments harguments c hc
    simp only [List.mem_cons, List.not_mem_nil, or_false, not_or] at hnot
    simp [endsHeader, hnot]

/-- A reference has no array marks at its end. -/
theorem stripArrays_text : stripArrays type.text = type.text := by
  obtain ⟨init, c, hlast, hc⟩ := type.exists_last
  have hdot : c ≠ '.' := by
    rintro rfl
    simp [isName, isWord] at hc
  have hsquare : c ≠ ']' := by
    rintro rfl
    simp [isName, isWord] at hc
  have hmarks : dropMarks type.text.reverse = type.text.reverse := by
    rw [hlast, List.reverse_append]
    exact dropMarks_cons hdot hsquare init.reverse
  rw [stripArrays, type.trimmed_text.trim_eq, hmarks, List.reverse_reverse]

/-- A reference is reduced to its name, without qualifier and arguments. -/
theorem simpleName_text : simpleName type.text = type.name := by
  have hangle : ∀ c ∈ type.qualifiedName, (c != '<') = true := by
    intro c hc
    rw [bne_iff_ne]
    rintro rfl
    have := type.isQualifiedName.all_dotted '<' hc
    contradiction
  have htake : type.text.takeWhile (· != '<') = type.qualifiedName := by
    rw [text, List.takeWhile_append_of_pos hangle]
    cases type.arguments <;> simp [angleText]
  have hdot : ∀ c ∈ type.name.reverse, (c != '.') = true := by
    intro c hc
    exact bne_iff_ne.mpr (type.isName_name.reverse.ne_of_mem hc (by decide))
  have hlast : afterLast '.' type.qualifiedName = type.name := by
    rw [afterLast, qualifiedName, List.reverse_append, List.takeWhile_append_of_pos hdot]
    rcases List.eq_nil_or_concat' type.qualifier with hnil | ⟨parts, part, hparts⟩
    · simp [hnil]
    · simp [hparts]
  have htrimmed : Trimmed type.qualifiedName := type.isQualifiedName.tidy.trimmed
  rw [simpleName, type.stripArrays_text, htake, htrimmed.trim_eq, hlast]

end SupertypeSource

/-! ## Lists of supertypes -/

/-- Some name in the text ends in the word. -/
def EndsName (word : String) (s : List Char) : Prop :=
  ∃ a b, s = a ++ (word.toList ++ b) ∧ Stops isName b

instance (word : String) (s : List Char) : Decidable (EndsName word s) :=
  decidable_of_iff (∃ t ∈ s.tails, ∃ b ∈ word.toList.isPrefixOf? t, Stops isName b) (by
    constructor
    · rintro ⟨t, ht, b, hb, hstops⟩
      obtain ⟨a, rfl⟩ := (List.mem_tails t s).mp ht
      exact ⟨a, b, by rw [List.isPrefixOf?_eq_some_iff_append_eq.mp hb], hstops⟩
    · rintro ⟨a, b, rfl, hstops⟩
      have htail := (List.mem_tails (word.toList ++ b) (a ++ (word.toList ++ b))).mpr
        (List.suffix_append a _)
      exact ⟨_, htail, b, isPrefixOf?_append _ b, hstops⟩)

/-- The words that open a clause behind a list of supertypes. -/
def clauseWords : List String :=
  ["implements", "permits"]

/-- The supertypes of a clause: their names differ from each other and from that
of the type that has them, and no name in the list ends in a word that opens the
next clause. -/
structure SupertypeList (owner : List Char) where
  types : List SupertypeSource
  nodup : (types.map SupertypeSource.name).Nodup
  owner_notMem : owner ∉ types.map SupertypeSource.name
  unended : ∀ word ∈ clauseWords,
    ¬EndsName word ([',', ' '].intercalate (types.map SupertypeSource.text))

theorem trimmed_intercalate {parts : List (List Char)} (hne : parts ≠ [])
    (h : ∀ part ∈ parts, Trimmed part ∧ part ≠ []) :
    Trimmed ([',', ' '].intercalate parts) ∧ [',', ' '].intercalate parts ≠ [] := by
  induction parts with
  | nil => contradiction
  | cons part parts ih =>
      obtain ⟨⟨hpart, hfilled⟩, hparts⟩ := List.forall_mem_cons.mp h
      cases parts with
      | nil =>
          rw [List.intercalate_singleton]
          exact ⟨hpart, hfilled⟩
      | cons next more =>
          obtain ⟨hmore, hmorefilled⟩ := ih (List.cons_ne_nil next more) hparts
          rw [List.intercalate_cons_cons, List.append_assoc]
          exact ⟨hpart.append_append hmore hfilled hmorefilled _, by simp [hfilled]⟩

namespace SupertypeList

variable {owner : List Char}

def text (list : SupertypeList owner) : List Char :=
  [',', ' '].intercalate (list.types.map SupertypeSource.text)

/-- The simple names of the supertypes. -/
def names (list : SupertypeList owner) : List String :=
  list.types.map fun type => String.ofList type.name

/-- The clause that lists the supertypes behind a word; none if there are no
supertypes. -/
def clause (word : String) (list : SupertypeList owner) : List Char :=
  if list.types = [] then [] else ' ' :: (word.toList ++ ' ' :: list.text)

/-- The text of the list, if there are any supertypes. -/
def text? (list : SupertypeList owner) : Option (List Char) :=
  if list.types = [] then none else some list.text

variable (list : SupertypeList owner)

theorem trimmed_text (hne : list.types ≠ []) : Trimmed list.text ∧ list.text ≠ [] := by
  refine trimmed_intercalate (by simpa using hne) (List.forall_mem_map.mpr ?_)
  intro type _
  exact ⟨type.trimmed_text, type.text_ne_nil⟩

theorem endsHeader_of_mem_text : ∀ c ∈ list.text, endsHeader c = false := by
  intro c hc
  by_contra hends
  refine notMem_intercalate ?_ (List.forall_mem_map.mpr fun type _ hmem =>
    hends (type.endsHeader_of_mem_text c hmem)) hc
  have hsep : ∀ d ∈ [',', ' '], endsHeader d = false := by
    decide
  exact fun hmem => hends (hsep c hmem)

theorem endsHeader_of_mem_clause {word : String} (hword : IsName word.toList) :
    ∀ c ∈ list.clause word, endsHeader c = false := by
  have hname : ∀ c ∈ word.toList, endsHeader c = false := fun c hc =>
    endsHeader_of_isDottedName (isDottedName_of_isName (hword.all_name c hc))
  rw [clause]
  split
  next => exact List.forall_mem_nil _
  next =>
    simp only [List.forall_mem_cons, List.forall_mem_append]
    exact ⟨by decide, hname, by decide, list.endsHeader_of_mem_text⟩

/-- What follows a clause or takes its place begins with a space. -/
theorem exists_clause_append (word : String) (t : List Char) :
    ∃ t', list.clause word ++ ' ' :: t = ' ' :: t' := by
  rw [clause]
  split
  next => exact ⟨t, rfl⟩
  next => exact ⟨_, rfl⟩

theorem trimStart_clause {word : String} (hword : IsName word.toList) (hne : list.types ≠ [])
    (t : List Char) :
    trimStart (list.clause word ++ t) = word.toList ++ ' ' :: (list.text ++ t) := by
  rw [clause, if_neg hne, List.cons_append, trimStart_space, List.append_assoc,
    trimStart_eq_self (hword.stops_isBlank_append _), List.cons_append]

theorem head?_trimStart_clause_ne {word : String} (hword : IsName word.toList) {c : Char}
    (hc : word.toList.head? ≠ some c) {t : List Char} (ht : (trimStart t).head? ≠ some c) :
    (trimStart (list.clause word ++ t)).head? ≠ some c := by
  by_cases hempty : list.types = []
  · rw [clause, if_pos hempty]
    exact ht
  · rw [list.trimStart_clause hword hempty, List.head?_append_of_ne_nil _ hword.ne_nil]
    exact hc

/-- A list is split into its supertypes, and each gives its simple name. -/
theorem supertypeNames_text : supertypeNames list.text = list.names := by
  have hsplit : splitTopLevel ',' list.text = list.types.map SupertypeSource.text := by
    refine splitTopLevel_intercalate ?_ ?_ ?_
    · exact List.forall_mem_map.mpr fun type _ => type.whole_text
    · exact List.forall_mem_map.mpr fun type _ => type.trimmed_text
    · exact List.forall_mem_map.mpr fun type _ => type.text_ne_nil
  have hsimple : (list.types.map SupertypeSource.text).map simpleName =
      list.types.map SupertypeSource.name := by
    rw [List.map_map]
    exact List.map_congr_left fun type _ => type.simpleName_text
  have hfilled : (list.types.map SupertypeSource.name).filter (!·.isEmpty) =
      list.types.map SupertypeSource.name := by
    refine List.filter_eq_self.mpr (List.forall_mem_map.mpr fun type _ => ?_)
    simpa using type.isName_name.ne_nil
  rw [supertypeNames, hsplit, hsimple, hfilled, List.map_map]
  rfl

theorem supertypeNames_text? : (list.text?.map supertypeNames).getD [] = list.names := by
  rw [text?]
  split
  next hnil => simp [names, hnil]
  next => exact list.supertypeNames_text

theorem nodup_names : list.names.Nodup := by
  have hnames : list.names = (list.types.map SupertypeSource.name).map String.ofList := by
    simp [names]
  rw [hnames]
  exact list.nodup.map fun _ _ h => String.ofList_inj.mp h

theorem ne_of_mem_names : ∀ name ∈ list.names, name ≠ "" ∧ name ≠ String.ofList owner := by
  refine List.forall_mem_map.mpr fun type hmem => ⟨?_, ?_⟩
  · simpa using type.isName_name.ne_nil
  · intro heq
    have howner : type.name ∈ list.types.map SupertypeSource.name := List.mem_map_of_mem hmem
    exact list.owner_notMem (String.ofList_inj.mp heq ▸ howner)

/-! ## Clauses -/

/-- What is left of a list behind a beginning of it and the blanks that follow. -/
structure Within (y : List Char) : Prop where
  suffix : y <:+ list.text
  ne_nil : y ≠ []
  stops : Stops isBlank y

variable {list}

theorem exists_within {x y : List Char} (h : list.text = x ++ y) (hy : y ≠ []) :
    ∃ y', list.Within y' ∧ ∀ t, trimStart (y ++ t) = y' ++ t := by
  have htypes : list.types ≠ [] := by
    intro hnil
    have hnone := List.append_eq_nil_iff.mp (h.symm.trans (by simp [text, hnil]))
    exact hy hnone.2
  have hne : trimStart y ≠ [] := by
    -- the list does not end in a blank
    obtain ⟨init, c, rfl⟩ := (List.eq_nil_or_concat' y).resolve_left hy
    have hend := (list.trimmed_text htypes).1.2
    rw [h, ← List.append_assoc, List.reverse_append] at hend
    intro hblank
    have hc := List.dropWhile_eq_nil_iff.mp hblank c (by simp)
    rw [stops_cons.mp hend] at hc
    contradiction
  refine ⟨trimStart y, ⟨?_, hne, stops_trimStart y⟩, ?_⟩
  · exact (List.dropWhile_suffix isBlank).trans ⟨x, h.symm⟩
  · intro t
    have hempty : (trimStart y).isEmpty = false := by
      simpa using hne
    rw [trimStart, List.dropWhile_append, ← trimStart, hempty]
    rfl

/-- Within a list, no word that opens a clause stands in front of a blank. -/
theorem Within.stops_of_clauseWord {y : List Char} (hy : list.Within y) {word : String}
    (hword : word ∈ clauseWords) {t rest : List Char}
    (h : y ++ ' ' :: t = word.toList ++ rest) : Stops isBlank rest := by
  have hspace : ∀ word ∈ clauseWords, ' ' ∉ word.toList := by
    decide
  obtain ⟨z, hz, rfl⟩ := exists_of_append_eq_append_cons (hspace word hword) h.symm
  obtain ⟨a, ha⟩ := hy.suffix
  have hname : ¬Stops isName z := by
    intro hstops
    exact list.unended word hword ⟨a, z, by rw [← hz]; exact ha.symm, hstops⟩
  cases z with
  | nil => exact (hname (stops_nil isName)).elim
  | cons c z =>
      refine stops_cons.mpr (isBlank_eq_false_of_isName ?_)
      simpa using hname

end SupertypeList

section Clauses

variable {β : Type} {owner : List Char} {list : SupertypeList owner}

/-- A clause that lists supertypes behind a word. -/
def listClause (word : String) : Pattern Span := do
  literal word
  gap1
  runFew1 anything

/-- What may stand behind the clauses. -/
def headerEnd : Pattern Unit := do
  let _ ← optional do
    literal "permits"
    let _ ← one isBlank
    skipFew1 anything
  blanks
  atEnd

theorem search_supertypeClauses
    (k : Option (List Char) × Option (List Char) → List Char → Option β) (s : List Char) :
    supertypeClauses.search k s =
      (optional (listClause "extends")).search (fun extended rest =>
        (optional (listClause "implements")).search (fun implemented rest =>
          headerEnd.search (fun _ => k (extended.map Span.text, implemented.map Span.text))
            (trimStart rest)) (trimStart rest)) (trimStart s) :=
  rfl

theorem search_listClause_eq_none {word : String} {s : List Char}
    (h : ∀ rest, s = word.toList ++ rest → Stops isBlank rest)
    (k : Span → List Char → Option β) : (listClause word).search k s = none := by
  rw [listClause, search_bind]
  apply search_literal_eq_none
  intro rest hs
  rw [search_bind]
  exact search_skip1_of_stops (h rest hs) _

/-- The header does not end within a list. -/
theorem search_headerEnd_eq_none {y : List Char} (hy : list.Within y) (t : List Char)
    (k : Unit → List Char → Option β) : headerEnd.search k (y ++ ' ' :: t) = none := by
  obtain ⟨c, rest, rfl⟩ := List.exists_cons_of_ne_nil hy.ne_nil
  have hblank := stops_cons.mp hy.stops
  rw [headerEnd, search_bind, search_optional_of_none]
  · rw [search_bind, search_blanks, List.cons_append, trimStart_eq_self (stops_cons.mpr hblank),
      search_atEnd_cons]
  · rw [search_bind]
    apply search_literal_eq_none
    intro more htext
    rw [search_bind]
    exact search_one_of_stops (hy.stops_of_clauseWord (by decide) htext) _

/-- A clause that is written is read as a whole, and one that is not is passed
over. -/
theorem search_clause {word : String} (hword : IsName word.toList) {t : List Char}
    {k : Option Span → List Char → Option β} {v : β}
    (hk : ∀ span, span.map Span.text = list.text? → k span (trimStart t) = some v)
    (hskip : (listClause word).search (fun span rest => k (some span) (trimStart rest))
      (trimStart t) = none)
    (hfail : ∀ span y, list.Within y → k (some span) (y ++ ' ' :: t) = none) :
    (optional (listClause word)).search (fun span rest => k span (trimStart rest))
      (trimStart (list.clause word ++ ' ' :: t)) = some v := by
  by_cases hempty : list.types = []
  · rw [SupertypeList.clause, if_pos hempty, List.nil_append, trimStart_space,
      search_optional_of_none hskip, trimStart_eq_self (stops_trimStart t)]
    exact hk none (by rw [SupertypeList.text?, if_pos hempty]; rfl)
  · obtain ⟨htrimmed, hne⟩ := list.trimmed_text hempty
    rw [list.trimStart_clause hword hempty]
    apply search_optional_of_some
    rw [listClause, search_bind, search_literal_append, search_bind,
      search_gap1_cons (by decide) (htrimmed.1.append hne _)]
    refine search_runFew1_of_fail hne (fun _ _ => rfl) ?_ ?_
    · refine hk (some _) ?_
      rw [SupertypeList.text?, if_neg hempty, Option.map_some, text_span_append]
    · intro x y hxy _ hy
      obtain ⟨y', hwithin, htrim⟩ := SupertypeList.exists_within hxy hy
      rw [htrim]
      exact hfail _ y' hwithin

/-- The clauses are cut at the words that open them. -/
theorem first?_supertypeClauses (extended implemented : SupertypeList owner) :
    supertypeClauses.first?
        (extended.clause "extends" ++ (implemented.clause "implements" ++ [' '])) =
      some ((extended.text?, implemented.text?), []) := by
  have himplemented : ∀ first : Option Span, first.map Span.text = extended.text? →
      (optional (listClause "implements")).search (fun second rest =>
        headerEnd.search (fun _ rest => some ((first.map Span.text, second.map Span.text), rest))
          (trimStart rest)) (trimStart (implemented.clause "implements" ++ [' '])) =
        some ((extended.text?, implemented.text?), []) := by
    intro first hfirst
    refine search_clause (by decide) ?_ rfl ?_
    · intro second hsecond
      rw [hfirst, hsecond]
      rfl
    · intro second y hy
      exact search_headerEnd_eq_none hy [] _
  have hhead : (trimStart (implemented.clause "implements" ++ [' '])).head? ≠ some 'e' :=
    implemented.head?_trimStart_clause_ne (by decide) (by decide) (by decide)
  obtain ⟨t, ht⟩ := implemented.exists_clause_append "implements" []
  rw [ht] at himplemented hhead ⊢
  rw [first?, search_supertypeClauses]
  refine search_clause (by decide) himplemented ?_ ?_
  · -- without extended types, the header goes on with the other clause
    apply search_listClause_eq_none
    intro rest hrest
    rw [trimStart_space, hrest] at hhead
    exact (hhead rfl).elim
  · intro first y hy
    rw [search_optional_of_none, trimStart_eq_self (hy.stops.append hy.ne_nil _)]
    · exact search_headerEnd_eq_none hy t _
    · apply search_listClause_eq_none
      intro rest hrest
      exact hy.stops_of_clauseWord (by decide) hrest

end Clauses

/-! ## Type parameters -/

/-- Angle brackets that are balanced do not close the one in front of them. -/
theorem afterAngle?_append {depth : ℕ} {s : List Char}
    (h : isBalanced '<' '>' depth s = true) (rest : List Char) :
    afterAngle? depth (s ++ '>' :: rest) = some rest := by
  induction s generalizing depth with
  | nil =>
      rw [isBalanced, beq_iff_eq] at h
      rw [h]
      rfl
  | cons c s ih =>
      rw [isBalanced] at h
      rw [List.cons_append, afterAngle?.eq_def]
      dsimp only
      by_cases hopen : c = '<'
      · rw [if_pos hopen] at h ⊢
        exact ih h
      · rw [if_neg hopen] at h ⊢
        by_cases hclose : c = '>'
        · rw [if_pos hclose, Bool.and_eq_true, bne_iff_ne] at h
          obtain ⟨outer, rfl⟩ := Nat.exists_eq_succ_of_ne_zero h.1
          rw [if_pos hclose]
          exact ih h.2
        · rw [if_neg hclose] at h ⊢
          exact ih h

/-- Type parameters are skipped, and nothing else is. -/
theorem skipTypeParameters_append {parameters : Option (List Char)}
    (h : ∀ text ∈ parameters, isBalanced '<' '>' 0 text = true) {clauses : List Char}
    (hclauses : (trimStart clauses).head? ≠ some '<') :
    skipTypeParameters (angleText parameters ++ clauses) = clauses := by
  cases parameters with
  | none =>
      rw [angleText, List.nil_append, skipTypeParameters]
      split
      next rest heq =>
        rw [heq] at hclauses
        exact (hclauses rfl).elim
      next => rfl
  | some text =>
      have hskip := afterAngle?_append (h text rfl) clauses
      have htext : angleText (some text) ++ clauses = '<' :: (text ++ '>' :: clauses) := by
        simp [angleText]
      rw [htext, skipTypeParameters, trimStart_eq_self (stops_cons.mpr (by decide))]
      change (afterAngle? 0 (text ++ '>' :: clauses)).getD _ = clauses
      rw [hskip, Option.getD_some]

/-! ## Headers -/

/-- A type as it is written: its header, and a body without members. -/
structure HeaderSource where
  modifiers : List String
  modifiers_known : ∀ word ∈ modifiers, word ∈ typeModifiers
  kind : TypeKind
  name : List Char
  isIdentifier_name : isIdentifier name = true
  parameters : Option (List Char)
  angles : ∀ text ∈ parameters, isBalanced '<' '>' 0 text = true
  plain : ∀ text ∈ parameters, ∀ c ∈ text, c ∉ ['{', ';', '=', '(', ')']
  extended : SupertypeList name
  implemented : SupertypeList name

namespace HeaderSource

/-- The clauses, and the space in front of the body. -/
def clauses (header : HeaderSource) : List Char :=
  header.extended.clause "extends" ++ (header.implemented.clause "implements" ++ [' '])

/-- What stands between the name and the body. -/
def tail (header : HeaderSource) : List Char :=
  angleText header.parameters ++ header.clauses

def text (header : HeaderSource) : List Char :=
  modifierText header.modifiers ++ (header.kind.keyword.toList ++ ' ' ::
    (header.name ++ (header.tail ++ ['{', ' ', '}'])))

/-- The declaration that is found first in the text of a header. A class has the
first of the extended types for its superclass, an interface extends all of
them, and an enumeration none. -/
def declared (header : HeaderSource) (package : String) : Declaration where
  name := String.ofList header.name
  kind := header.kind
  package
  isAbstract := "abstract" ∈ header.modifiers
  superclass := if header.kind = .«class» then header.extended.names.head? else none
  extendedInterfaces := if header.kind = .interface then header.extended.names else []
  implementedInterfaces := header.implemented.names

variable (header : HeaderSource)

/-- The name of a type ends where the type parameters or the clauses begin. -/
theorem stops_isName_tail (rest : List Char) : Stops isName (header.tail ++ rest) := by
  rw [tail]
  cases header.parameters with
  | none =>
      obtain ⟨t, ht⟩ := header.implemented.exists_clause_append "implements" []
      obtain ⟨t', ht'⟩ := header.extended.exists_clause_append "extends" t
      rw [clauses, ht, ht']
      exact stops_cons.mpr (by decide)
  | some text => exact stops_cons.mpr (by decide)

theorem endsHeader_of_mem_tail : ∀ c ∈ header.tail, endsHeader c = false := by
  have hparameters : ∀ c ∈ angleText header.parameters, endsHeader c = false := by
    apply endsHeader_of_mem_angleText
    intro text htext c hc
    simpa [endsHeader] using header.plain text htext c hc
  simp only [tail, clauses, List.forall_mem_append]
  exact ⟨hparameters, header.extended.endsHeader_of_mem_clause (by decide),
    header.implemented.endsHeader_of_mem_clause (by decide), by decide⟩

/-- The supertypes of a header are accepted one by one. -/
theorem withSupertypes_names (package : String) :
    withSupertypes
        { name := String.ofList header.name
          kind := header.kind
          package
          isAbstract := header.modifiers.reverse.contains "abstract" }
        header.extended.names header.implemented.names = header.declared package := by
  have habstract : header.modifiers.reverse.contains "abstract" =
      decide ("abstract" ∈ header.modifiers) := by
    simp
  have himplement := (header.declared package).foldl_implement header.implemented.nodup_names
    header.implemented.ne_of_mem_names
  refine Eq.trans ?_ himplement
  rw [withSupertypes, habstract]
  dsimp only
  congr 1
  cases hkind : header.kind with
  | «class» =>
      cases hnames : header.extended.names with
      | nil => simp [declared, hkind, hnames]
      | cons name names =>
          obtain ⟨hfilled, hother⟩ := header.extended.ne_of_mem_names name (by simp [hnames])
          simp [declared, hkind, hnames, Declaration.setSuperclass, Declaration.setSuperclass?,
            hfilled, hother]
  | interface =>
      have hextend := Declaration.foldl_extend
        { header.declared package with implementedInterfaces := [] } (fun _ _ _ => rfl) hkind
        header.extended.nodup_names header.extended.ne_of_mem_names
      simpa [declared, hkind] using hextend
  | enumeration => simp [declared, hkind]

/-- A body without members adds nothing. -/
theorem withBody_declared (package : String) :
    withBody (header.declared package) [' '] = header.declared package := by
  have hmembers : ∀ kind text, Source.statements text = [] →
      members header.name kind text = [] := by
    intro kind text htext
    rw [members, htext, List.filterMap_nil]
  have hblank : Source.statements [' '] = [] := by
    decide +kernel
  have hnil : Source.statements [] = [] := by
    decide +kernel
  have hproject : Source.project [' '] = [' '] := by
    decide
  have hliterals : splitEnumBody [' '] = ([], []) := by
    decide +kernel
  rw [withBody, hproject]
  cases hkind : header.kind <;> simp [declared, hkind, hmembers, hblank, hliterals, hnil]

theorem declaration?_tail (unit package : String) :
    declaration? unit package
      { header :=
          { separator := none
            modifiers := header.modifiers.reverse
            kind := header.kind
            name := header.name }
        ofAnnotation := false
        rest := header.tail ++ ['{', ' ', '}'] } =
      .ok (some (header.declared package)) := by
  have hinside : ∀ c ∈ header.tail, (!endsHeader c) = true := by
    intro c hc
    rw [header.endsHeader_of_mem_tail c hc]
    rfl
  have htake : (header.tail ++ ['{', ' ', '}']).takeWhile (fun c => !endsHeader c) =
      header.tail := by
    rw [List.takeWhile_append_of_pos hinside]
    exact List.append_nil header.tail
  have hdrop : (header.tail ++ ['{', ' ', '}']).dropWhile (fun c => !endsHeader c) =
      ['{', ' ', '}'] := by
    rw [List.dropWhile_append_of_pos hinside]
    rfl
  have hskip : skipTypeParameters header.tail = header.clauses := by
    refine skipTypeParameters_append header.angles ?_
    refine header.extended.head?_trimStart_clause_ne (by decide) (by decide) ?_
    exact header.implemented.head?_trimStart_clause_ne (by decide) (by decide) (by decide)
  have hclauses : supertypeClauses.first? header.clauses =
      some ((header.extended.text?, header.implemented.text?), []) :=
    first?_supertypeClauses header.extended header.implemented
  have hblock : Source.splitBlock? '{' '}' ['{', ' ', '}'] = some ([' '], []) := by
    decide
  have hdecl : declarationOf package
      { separator := none
        modifiers := header.modifiers.reverse
        kind := header.kind
        name := header.name } header.extended.text? header.implemented.text? =
        header.declared package := by
    rw [declarationOf, header.extended.supertypeNames_text?,
      header.implemented.supertypeNames_text?]
    exact header.withSupertypes_names package
  simp only [declaration?, htake, hdrop, hskip, hclauses, hblock, hdecl,
    header.withBody_declared package]

theorem exists_read (unit : String) {source : List Char}
    (hsource : structureText source = header.text) :
    ∃ rest, (read unit source).types = header.declared (read unit source).package :: rest := by
  have hheader := @first?_typeHeader_of_modifiers header.kind _ _ header.modifiers_known _
    header.isIdentifier_name (header.stops_isName_tail ['{', ' ', '}'])
  have hne : header.text ≠ [] := by
    simp [text]
  obtain ⟨more, hmore⟩ := exists_findHeaders hne hheader
  have hat : (header.modifiers.reverse.isEmpty &&
      lastInk none (none : Option Char).toList == some '@') = false := by
    rw [Bool.and_eq_false_iff]
    right
    decide
  rw [hat] at hmore
  rw [read]
  dsimp only
  rw [hsource, hmore, List.map_cons, header.declaration?_tail unit, List.filterMap_cons]
  exact ⟨_, rfl⟩

end HeaderSource

/-- A header is recovered from its own text, if that has neither quotes nor
slashes, and from every source that has this text when comments are dropped and
literals masked: the first type has the name and the kind that were written, is
abstract if the modifiers say so, and has the supertypes by their simple names
and in order, as its kind takes them. -/
theorem read_header (unit : String) (header : HeaderSource) :
    ((∀ c ∈ header.text, Source.Zone.isQuote c = false ∧ c ≠ '/') →
      ∃ rest, (read unit header.text).types =
        header.declared (read unit header.text).package :: rest) ∧
    ∀ source, structureText source = header.text →
      ∃ rest, (read unit source).types = header.declared (read unit source).package :: rest := by
  refine ⟨fun hcode => ?_, fun source => header.exists_read unit⟩
  apply header.exists_read unit
  have htext := structureText_append_of_code hcode []
  rw [List.append_nil] at htext
  exact htext.trans (List.append_nil header.text)

/-! ### A class with all parts of a header -/

/-- A class whose type parameters and supertypes have type arguments of their
own. -/
def indexHeader : HeaderSource where
  modifiers := ["public", "abstract", "non-sealed"]
  modifiers_known := by decide
  kind := .«class»
  name := "Index".toList
  isIdentifier_name := by decide
  parameters := some "K extends Comparable<K>, V".toList
  angles := by decide
  plain := by decide
  extended :=
    { types :=
        [{ qualifier := ["store".toList, "base".toList]
           isName_of_mem_qualifier := by decide
           name := "Table".toList
           isName_name := by decide
           arguments := some "K, List<? super V[]>".toList
           angles := by decide
           squares := by decide
           plain := by decide }]
      nodup := by decide
      owner_notMem := by decide
      unended := by decide }
  implemented :=
    { types :=
        [{ qualifier := []
           isName_of_mem_qualifier := by decide
           name := "implementsAll".toList
           isName_name := by decide
           arguments := none
           angles := by decide
           squares := by decide
           plain := by decide },
          { qualifier := []
            isName_of_mem_qualifier := by decide
            name := "Lookup".toList
            isName_name := by decide
            arguments := some "Map<K, V>".toList
            angles := by decide
            squares := by decide
            plain := by decide }]
      nodup := by decide
      owner_notMem := by decide
      unended := by decide }

/-- The declaration that is found for the class. -/
def indexDeclaration (package : String) : Declaration where
  name := "Index"
  kind := .«class»
  package
  isAbstract := true
  superclass := some "Table"
  implementedInterfaces := ["implementsAll", "Lookup"]

/-- The class is found in its text, and in a source with comments. -/
theorem read_header_index :
    let source :=
      ("public abstract/* \x7b */non-sealed class Index<K extends Comparable<K>, V> " ++
        "extends store.base.Table<K, List<? super V[]>> " ++
        "implements implementsAll, Lookup<Map<K, V>> \x7b \x7d// class Other \x7b \x7d").toList
    structureText source = indexHeader.text ∧
      (∃ rest, (read "Index.java" source).types =
        indexDeclaration (read "Index.java" source).package :: rest) ∧
      ∃ rest, (read "Index.java" indexHeader.text).types =
        indexDeclaration (read "Index.java" indexHeader.text).package :: rest := by
  intro source
  have hsource : structureText source = indexHeader.text := by
    decide +kernel
  have hcode : ∀ c ∈ indexHeader.text, Source.Zone.isQuote c = false ∧ c ≠ '/' := by
    decide +kernel
  have hdeclared : indexHeader.declared = indexDeclaration := by
    funext package
    rfl
  obtain ⟨hown, hcommented⟩ := read_header "Index.java" indexHeader
  rw [hdeclared] at hown hcommented
  exact ⟨hsource, hcommented source hsource, hown hcode⟩

end ClassAtlas.Code
