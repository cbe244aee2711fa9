import ClassAtlas.Proofs.Diagram.UnclosedBlocks

/-!
# Blocks on one line

The body of a class can stand on the line of its header or be spread over lines.
The test that recognizes diagrams cuts a body on the header line at its
semicolons. The reader does not: to it the whole body is one member line. So the
two layouts of a block say the same only if there is nothing to cut, or nothing
to read.
-/

namespace ClassAtlas.Diagram

open Text Pattern

variable {name inner : List Char} {members : List (List Char)}

/-! ## The two layouts -/

/-- A name that a class can be declared with. -/
structure IsClassName (name : List Char) : Prop where
  written : IsBlockName name
  named : typeName name ≠ []

/-- A text that can be one of several members in a body of either layout. -/
def IsMemberText (text : List Char) : Prop :=
  ∀ c ∈ text, c ∉ ['\n', ';', '{', '}']

instance (text : List Char) : Decidable (IsMemberText text) :=
  inferInstanceAs (Decidable (∀ c ∈ text, c ∉ ['\n', ';', '{', '}']))

/-- The members of a body on one line. -/
def joined (members : List (List Char)) : List Char :=
  [';', ' '].intercalate members

/-- The header line of a class, with what stands behind the brace that opens its
body. -/
def headLine (name inner : List Char) : List Char :=
  [' '].intercalate ["class".toList, name, '{' :: inner]

/-- A class on one line. -/
def inlineText (name : List Char) (members : List (List Char)) : List Char :=
  headLine name (' ' :: (joined members ++ [' ', '}']))

/-- A class with a line for each of its members. -/
def spreadText (name : List Char) (members : List (List Char)) : List Char :=
  ['\n'].intercalate ((headLine name [] :: members) ++ [['}']])

theorem newline_notMem_joined (h : ∀ text ∈ members, '\n' ∉ text) : '\n' ∉ joined members :=
  notMem_intercalate (by decide) h

theorem headLine_eq (name inner : List Char) :
    headLine name inner = "class".toList ++ ' ' :: (name ++ ' ' :: '{' :: inner) := by
  simp [headLine, List.intercalate_cons_cons]

theorem suffix_headLine (name inner : List Char) : '{' :: inner <:+ headLine name inner :=
  ⟨"class".toList ++ ' ' :: (name ++ [' ']), by simp [headLine_eq]⟩

theorem trimmed_headLine (h : Stops isBlank ('{' :: inner).reverse) :
    Trimmed (headLine name inner) := by
  obtain ⟨before, hbefore⟩ := suffix_headLine name inner
  constructor
  · rw [headLine_eq]
    exact stops_cons.mpr (by decide)
  · rw [← hbefore, List.reverse_append]
    exact h.append (by simp) _

/-! ## The header -/

theorem IsBlockName.stops_isBlank_append (h : IsBlockName name) (rest : List Char) :
    Stops isBlank (name ++ rest) := by
  cases h with
  | dotted hne hdotted =>
      obtain ⟨c, more, rfl⟩ := List.exists_cons_of_ne_nil hne
      exact stops_cons.mpr (isBlank_eq_false_of_isDottedName (hdotted c List.mem_cons_self))
  | quoted hne hquote hline => exact stops_cons.mpr (by decide)

theorem IsBlockName.newline_notMem (h : IsBlockName name) : '\n' ∉ name := by
  cases h with
  | dotted hne hdotted =>
      intro hmem
      have hnewline := hdotted '\n' hmem
      contradiction
  | quoted hne hquote hline => simp [hline]

theorem newline_notMem_headLine (hname : IsBlockName name) (hinner : '\n' ∉ inner) :
    '\n' ∉ headLine name inner := by
  simp [headLine_eq, hname.newline_notMem, hinner]

/-- The header of a class without supertypes. -/
def classHeader (name opening : List Char) : Header where
  name := String.ofList (typeName name)
  kind := .«class»
  isAbstract := false
  extended := []
  implemented := []
  opening := some opening

theorem first?_headLine (hname : IsBlockName name) (hinner : '\n' ∉ inner) :
    headerLine.first? (headLine name inner) = some ({
      kind := .«class»
      isAbstract := false
      name
      extended := none
      implemented := none
      opening := some ('{' :: inner) }, []) := by
  simp only [headerLine, headLine_eq, first?, search_bind, search_pure]
  refine search_classKeyword ?_
  rw [search_blanks1_cons (by decide), trimStart_eq_self (hname.stops_isBlank_append _)]
  refine search_blockName hname ?_
  intro span hspan
  have hbrace : isBlank '{' = false := by decide
  have htrim : trimStart (' ' :: '{' :: inner) = '{' :: inner :=
    trimStart_eq_self (stops_cons.mpr hbrace)
  -- nothing optional stands between the name and the brace
  rw [search_optional_of_none (search_stereotype_of_ne htrim (by decide) _),
    search_optional_of_none (search_typeParameters_of_ne htrim (by decide) _),
    search_optional_of_none
      (search_supertypeList_of_head (by decide) (by decide) (by decide) inner _),
    search_optional_of_none
      (search_supertypeList_of_head (by decide) (by decide) (by decide) inner _),
    search_blanks, htrim]
  refine search_bodyOpening hinner ?_
  intro opening hopening
  rw [hspan, Option.map_some, hopening]
  rfl

theorem header?_headLine (hname : IsClassName name) (hinner : '\n' ∉ inner) :
    header? (headLine name inner) = some (classHeader name ('{' :: inner)) := by
  simp [header?, first?_headLine hname.written hinner, hname.named, classHeader]

/-! ## The members of a body -/

/-- The member that a body line of a class gives. -/
def bodyMember? (line : List Char) : Option Member :=
  if isDecoration line then none else member? line

theorem fst_addBodyLine {state : Declaration × ProblemLog} (hkind : state.1.kind ≠ .enumeration)
    (line : List Char) :
    (addBodyLine state line).1 =
      { state.1 with members := state.1.members ++ (bodyMember? line).toList } := by
  cases line with
  | nil =>
      have hnone : bodyMember? [] = none := by decide +kernel
      rw [hnone, Option.toList_none, List.append_nil]
      rfl
  | cons c rest =>
      rw [addBodyLine, bodyMember?]
      cases hdecoration : isDecoration (c :: rest) with
      | true => simp
      | false =>
          cases hmember : member? (c :: rest) with
          | none => simp [hkind]
          | some member => simp [hkind, Declaration.addMember]

theorem fst_foldl_addBodyLine {state : Declaration × ProblemLog}
    (hkind : state.1.kind ≠ .enumeration) (body : List (List Char)) :
    (body.foldl addBodyLine state).1 =
      { state.1 with members := state.1.members ++ body.filterMap bodyMember? } := by
  induction body generalizing state with
  | nil => simp
  | cons line body ih =>
      have hline := fst_addBodyLine hkind line
      have hnext : (addBodyLine state line).1.kind ≠ .enumeration := by
        rw [hline]
        exact hkind
      rw [List.foldl_cons, ih hnext, hline]
      cases hmember : bodyMember? line <;> simp [hmember]

/-- A class with these members and nothing else. -/
def classOf (name : List Char) (members : List Member) : Declaration where
  name := String.ofList (typeName name)
  kind := .«class»
  members := members

theorem map_trim_map_trim (texts : List (List Char)) :
    (texts.map trim).map trim = texts.map trim := by
  rw [List.map_map]
  exact List.map_congr_left fun text _ => (trimmed_trim text).trim_eq

/-- A diagram that is one class with its body. -/
theorem types_read_class (unit : String) (hname : IsClassName name) (hinner : '\n' ∉ inner)
    {text : List Char} {more body : List (List Char)}
    (hlines : (lines text).map trim = headLine name inner :: more)
    (hbody : blockBody? (some ('{' :: inner)) more = some (body.map trim, [])) :
    (read unit text).types = [classOf name ((body.map trim).filterMap bodyMember?)] := by
  have hitems : items ((lines text).map trim) =
      [.block (classHeader name ('{' :: inner)) (body.map trim)] := by
    rw [hlines, items, readItem_of_header? (header?_headLine hname hinner), classHeader, hbody]
    dsimp only
    rw [items]
    rfl
  have htypes : (read unit text).types =
      [(declaration { unit } "" (classHeader name ('{' :: inner)) (body.map trim)).1] := by
    rw [read, hitems]
    rfl
  have hkind : (classHeader name ('{' :: inner)).kind ≠ .enumeration := by
    simp [classHeader]
  rw [htypes, declaration, map_trim_map_trim]
  exact congrArg (fun decl => [decl]) (fst_foldl_addBodyLine hkind _)

/-- On one line, all of the body is one member line. -/
theorem types_read_inlineText (unit : String) (hname : IsClassName name)
    (hmembers : ∀ text ∈ members, '\n' ∉ text) :
    (read unit (inlineText name members)).types =
      [classOf name (bodyMember? (trim (joined members))).toList] := by
  have hinner : '\n' ∉ ' ' :: (joined members ++ [' ', '}']) := by
    simp [newline_notMem_joined hmembers]
  have hend : Stops isBlank ('{' :: ' ' :: (joined members ++ [' ', '}'])).reverse := by
    have hbrace : isBlank '}' = false := by decide
    simpa using hbrace
  have hlines : (lines (inlineText name members)).map trim = [inlineText name members] := by
    have hline : '\n' ∉ inlineText name members := newline_notMem_headLine hname.written hinner
    have hfilled : inlineText name members ≠ [] := by simp [inlineText, headLine_eq]
    have htrimmed : Trimmed (inlineText name members) := trimmed_headLine hend
    have hmap := map_trim_lines_intercalate (List.forall_mem_singleton.mpr hline)
      (List.forall_mem_singleton.mpr hfilled)
    rwa [List.intercalate_singleton, List.map_singleton, htrimmed.trim_eq] at hmap
  have hcut : trim (' ' :: (joined members ++ [' ', '}'])) =
      trimStart (joined members ++ [' ']) ++ ['}'] := by
    have hconcat := trim_concat (c := '}') (by decide) (' ' :: (joined members ++ [' ']))
    simpa using hconcat
  have hbody : blockBody? (some ('{' :: ' ' :: (joined members ++ [' ', '}']))) [] =
      some ([joined members].map trim, []) := by
    have hwhole : trim (trimStart (joined members ++ [' '])) = trim (joined members) := by
      rw [trim_trimStart, trim_append_of_blank (by decide)]
    rw [blockBody?]
    dsimp only
    rw [List.drop_one, List.tail_cons, hcut, isSuffixOf?_concat]
    dsimp only
    rw [hwhole]
    rfl
  rw [types_read_class unit hname hinner hlines hbody, List.map_singleton]
  cases hmember : bodyMember? (trim (joined members)) <;> simp [hmember]

/-! ## Spread over lines -/

theorem IsMemberText.notMem {text : List Char} (h : IsMemberText text) {c : Char}
    (hc : c ∈ ['\n', ';', '{', '}']) : c ∉ text :=
  fun hmem => h c hmem hc

theorem IsMemberText.head?_trim_ne {text : List Char} (h : IsMemberText text) :
    (trim text).head? ≠ some '}' := by
  intro hhead
  exact h.notMem (by decide) (mem_of_mem_trim (List.mem_of_head? hhead))

/-- The lines of a text that ends in the line that closes a body. -/
theorem map_trim_lines_closed {ls : List (List Char)} (h : ∀ line ∈ ls, '\n' ∉ line) :
    (lines (['\n'].intercalate (ls ++ [['}']]))).map trim = ls.map trim ++ [['}']] := by
  have hall : ∀ line ∈ ls ++ [['}']], '\n' ∉ line := by
    simpa [or_imp, forall_and] using h
  have hpieces := List.splitOn_intercalate '\n' hall
    (List.append_ne_nil_of_right_ne_nil ls (by simp))
  rw [map_trim_lines_of_splitOn hpieces (by simp)]
  rfl

theorem map_trim_lines_spreadText (hname : IsClassName name)
    (hmembers : ∀ text ∈ members, IsMemberText text) :
    (lines (spreadText name members)).map trim =
      headLine name [] :: (members.map trim ++ [['}']]) := by
  have hhead : '\n' ∉ headLine name [] := newline_notMem_headLine hname.written (by simp)
  have htrimmed : Trimmed (headLine name []) := trimmed_headLine (stops_cons.mpr (by decide))
  have hlines := map_trim_lines_closed (List.forall_mem_cons.mpr
    ⟨hhead, fun text hmem => (hmembers text hmem).notMem (by decide)⟩)
  rwa [List.map_cons, htrimmed.trim_eq] at hlines

/-- Spread over lines, each member line is read by itself. -/
theorem types_read_spreadText (unit : String) (hname : IsClassName name)
    (hmembers : ∀ text ∈ members, IsMemberText text)
    (hplain : ∀ text ∈ members, header? (trim text) = none) :
    (read unit (spreadText name members)).types =
      [classOf name ((members.map trim).filterMap bodyMember?)] := by
  have hbody : ∀ line ∈ members.map trim, line.head? ≠ some '}' ∧ header? line = none :=
    List.forall_mem_map.mpr fun text hmem =>
      ⟨(hmembers text hmem).head?_trim_ne, hplain text hmem⟩
  refine types_read_class unit hname (by simp) (map_trim_lines_spreadText hname hmembers) ?_
  have hempty : trim (['{'].drop 1) = [] := rfl
  rw [blockBody?]
  dsimp only
  rw [hempty, isSuffixOf?_singleton_eq_none (by simp), takeBody?_append_closing hbody rfl]
  rfl

/-- A member line that is a header ends the block, and the block is lost. -/
theorem head?_problems_read_spreadText (unit : String) (hname : IsClassName name)
    (hmembers : ∀ text ∈ members, IsMemberText text)
    (hheader : ∃ text ∈ members, (header? (trim text)).isSome) :
    (read unit (spreadText name members)).problems.head? =
      some (.unbalanced unit (String.ofList (typeName name))) := by
  obtain ⟨first, hfind⟩ := Option.isSome_iff_exists.mp (List.find?_isSome.mpr hheader)
  obtain ⟨hfirst, before, after, rfl, hbefore⟩ := List.find?_eq_some_iff_append.mp hfind
  obtain ⟨hmembersBefore, hmembersAfter⟩ := List.forall_mem_append.mp hmembers
  have hunclosed : IsUnclosed (classHeader name ['{']) (headLine name []) (before.map trim) := by
    refine ⟨header?_headLine hname (by simp), rfl, ?_, ?_, ?_⟩
    · obtain ⟨start, hstart⟩ := suffix_headLine name []
      rw [← hstart, List.getLast?_append_cons]
      decide
    · exact List.forall_mem_map.mpr fun text hmem => (hmembersBefore text hmem).head?_trim_ne
    · exact List.forall_mem_map.mpr fun text hmem => by simpa using hbefore text hmem
  have htrimmed : Trimmed (headLine name []) := trimmed_headLine (stops_cons.mpr (by decide))
  -- what is read behind the broken block
  let rest : List Char := ['\n'].intercalate ((first :: after) ++ [['}']])
  have hrest : (lines rest).map trim = trim first :: (after.map trim ++ [['}']]) :=
    map_trim_lines_closed fun text hmem => (hmembersAfter text hmem).notMem (by decide)
  have hitems : items ((lines (spreadText name (before ++ first :: after))).map trim) =
      .unclosed (String.ofList (typeName name)) :: items ((lines rest).map trim) := by
    rw [map_trim_lines_spreadText hname hmembers, hrest, List.map_append, List.append_assoc]
    exact hunclosed.items_append htrimmed hfirst _
  rw [read_of_items_unclosed unit hitems]
  rfl

/-! ## Decorations among the members -/

/-- No member line starts with an apostrophe. -/
theorem search_memberStart_quote {β : Type} {s : List Char}
    {k : MemberStart → List Char → Option β} (hk : ∀ start, k start ('\'' :: s) = none) :
    memberStart.search k ('\'' :: s) = none := by
  have hsign : Stops isVisibilitySign ('\'' :: s) := stops_cons.mpr (by decide)
  have hblank : Stops isBlank ('\'' :: s) := stops_cons.mpr (by decide)
  have htag : bracedWord.readings ('\'' :: s) = [] := by
    refine List.eq_nil_iff_forall_not_mem.mpr fun reading hmem => ?_
    obtain ⟨_, rest, hchar, -⟩ := mem_readings_bind.mp hmem
    have hbrace := mem_readings_char.mp hchar
    simp at hbrace
  simp only [memberStart, search_bind, search_pure]
  rw [search_optional_of_none (search_one_of_stops hsign _), search_blanks,
    trimStart_eq_self hblank, search_eq_none_iff]
  rintro ⟨words, rest⟩ hread
  rw [eq_of_mem_readings_many htag hread]
  exact hk _

theorem member?_quote (s : List Char) : member? ('\'' :: s) = none := by
  have hname : Stops isName ('\'' :: s) := stops_cons.mpr (by decide)
  have hdotted : Stops isDottedName ('\'' :: s) := stops_cons.mpr (by decide)
  have hoperation : operationLine.first? ('\'' :: s) = none := by
    simp only [operationLine, first?, search_bind]
    exact search_memberStart_quote fun _ => search_run1_of_stops hname _
  have hattribute : attributeLine.first? ('\'' :: s) = none := by
    simp only [attributeLine, first?, search_bind]
    exact search_memberStart_quote fun _ => search_run1_of_stops hname _
  have htyped : typedAttributeLine.first? ('\'' :: s) = none := by
    simp only [typedAttributeLine, first?, search_bind, search_taken]
    exact search_memberStart_quote fun _ => search_skip1_of_stops hdotted _
  rw [member?, hoperation, hattribute, htyped]
  rfl

/-- A member line is a decoration only if it holds the marker of members left
out. -/
theorem marker_infix_of_isDecoration {line : List Char} (hmember : (member? line).isSome)
    (h : isDecoration line = true) : "... (more".toList <:+: line := by
  rw [isDecoration, Bool.or_eq_true, Bool.or_eq_true] at h
  rcases h with (hdivider | hquote) | hmarker
  · have hnone : ∀ divider ∈ ["--", "..", "==", "__"], member? divider.toList = none := by
      decide +kernel
    have hline := hnone _ (List.contains_iff_mem.mp hdivider)
    rw [String.toList_ofList] at hline
    rw [hline] at hmember
    contradiction
  · obtain ⟨s, rfl⟩ : ∃ s, line = '\'' :: s := by
      cases line with
      | nil => contradiction
      | cons c s => exact ⟨s, by simpa using hquote⟩
    rw [member?_quote] at hmember
    contradiction
  · exact occursIn_iff.mp hmarker

/-- The marker in one member makes all of a body on one line a decoration. -/
theorem isDecoration_joined {text : List Char} (hmem : text ∈ members)
    (hmember : (member? (trim text)).isSome) (h : isDecoration (trim text) = true) :
    isDecoration (trim (joined members)) = true := by
  have hmarker : Trimmed "... (more".toList := by decide
  have hjoined : "... (more".toList <:+: joined members :=
    (marker_infix_of_isDecoration hmember h).trans
      ((isInfix_trim text).trans (infix_intercalate hmem))
  rw [isDecoration, occursIn_iff.mpr (hmarker.infix_trim hjoined), Bool.or_true]

/-! ## Where the layouts agree -/

/-- A body of member lines gives the same members on one line as spread over lines
just if it has at most one member line, or if all of them are decorations. -/
theorem toList_bodyMember?_joined_eq_iff
    (hmember : ∀ text ∈ members, (member? (trim text)).isSome) :
    (bodyMember? (trim (joined members))).toList = (members.map trim).filterMap bodyMember? ↔
      members.length ≤ 1 ∨ ∀ text ∈ members, isDecoration (trim text) = true := by
  have hread : ∀ text ∈ members,
      (bodyMember? (trim text) = none ↔ isDecoration (trim text) = true) := by
    intro text hmem
    have hsome := Option.isSome_iff_ne_none.mp (hmember text hmem)
    rw [bodyMember?]
    cases isDecoration (trim text) with
    | true => simp
    | false => simpa using hsome
  have hempty : (members.map trim).filterMap bodyMember? = [] ↔
      ∀ text ∈ members, isDecoration (trim text) = true := by
    rw [List.filterMap_eq_nil_iff, List.forall_mem_map]
    exact forall₂_congr hread
  have hjoined : ∀ text ∈ members, isDecoration (trim text) = true →
      (bodyMember? (trim (joined members))).toList = [] := by
    intro text hmem hdecoration
    rw [bodyMember?, isDecoration_joined hmem (hmember text hmem) hdecoration, if_pos rfl,
      Option.toList_none]
  by_cases hone : members.length ≤ 1
  · refine iff_of_true ?_ (.inl hone)
    match members, hone with
    | [], _ =>
        have hnone : bodyMember? [] = none := by decide +kernel
        exact congrArg Option.toList hnone
    | [text], _ =>
        rw [joined, List.intercalate_singleton, List.map_singleton]
        cases hmember : bodyMember? (trim text) <;> simp [hmember]
  by_cases hall : ∀ text ∈ members, isDecoration (trim text) = true
  · refine iff_of_true ?_ (.inr hall)
    obtain ⟨text, hmem⟩ := List.exists_mem_of_length_pos (l := members) (by omega)
    rw [hempty.mpr hall, hjoined text hmem (hall text hmem)]
  refine iff_of_false (fun heq => ?_) (not_or.mpr ⟨hone, hall⟩)
  by_cases hsome : ∃ text ∈ members, isDecoration (trim text) = true
  · -- on one line a decoration hides all members, on a line of its own only itself
    obtain ⟨text, hmem, hdecoration⟩ := hsome
    exact hall (hempty.mp (heq.symm.trans (hjoined text hmem hdecoration)))
  · -- without decorations there is a member for each line, but at most one on one line
    have hfound : ∀ line ∈ members.map trim, (bodyMember? line).isSome := by
      refine List.forall_mem_map.mpr fun text hmem => ?_
      rw [Option.isSome_iff_ne_none, Ne, hread text hmem]
      exact fun hdecoration => hsome ⟨text, hmem, hdecoration⟩
    have hlength : ((members.map trim).filterMap bodyMember?).length = members.length :=
      (List.filterMap_length_eq_length.mpr hfound).trans (List.length_map trim)
    have hatMost : (bodyMember? (trim (joined members))).toList.length ≤ 1 := by
      cases bodyMember? (trim (joined members)) <;> simp
    rw [heq, hlength] at hatMost
    exact hone hatMost

/-- What a class with member lines is read as. On one line its whole body is a single
member line. Spread over lines, each member is read by itself, if none of them is a
header; one that is a header breaks the block off. The two layouts agree just if
there is at most one member, or if all of them are decorations. -/
theorem read_inline_block (unit : String) (hname : IsClassName name)
    (hmembers : ∀ text ∈ members, IsMemberText text ∧ (member? (trim text)).isSome) :
    (read unit (inlineText name members)).types =
        [classOf name (bodyMember? (trim (joined members))).toList] ∧
      ((∃ text ∈ members, (header? (trim text)).isSome) →
        (read unit (spreadText name members)).problems.head? =
          some (.unbalanced unit (String.ofList (typeName name)))) ∧
      ((∀ text ∈ members, header? (trim text) = none) →
        (read unit (spreadText name members)).types =
            [classOf name ((members.map trim).filterMap bodyMember?)] ∧
          ((read unit (inlineText name members)).types =
              (read unit (spreadText name members)).types ↔
            members.length ≤ 1 ∨ ∀ text ∈ members, isDecoration (trim text) = true)) := by
  have htext : ∀ text ∈ members, IsMemberText text := fun text hmem => (hmembers text hmem).1
  have hinline := types_read_inlineText unit hname fun text hmem =>
    (htext text hmem).notMem (by decide)
  refine ⟨hinline, head?_problems_read_spreadText unit hname htext, fun hplain => ?_⟩
  have hspread := types_read_spreadText unit hname htext hplain
  refine ⟨hspread, ?_⟩
  rw [hinline, hspread, ← toList_bodyMember?_joined_eq_iff fun text hmem => (hmembers text hmem).2]
  simp [classOf]

/-- Two members are one attribute on one line, and a member that looks like a header
breaks off the block that is spread over lines. -/
theorem read_inline_block_point :
    let name := "Point".toList
    let members := ["-x : int".toList, "+area() : int".toList]
    let shape := ["interface Shape".toList]
    IsClassName name ∧
      (∀ text ∈ members ++ shape, IsMemberText text ∧ (member? (trim text)).isSome) ∧
      (read "a.puml" (inlineText name members)).types ≠
        (read "a.puml" (spreadText name members)).types ∧
      (read "a.puml" (spreadText name shape)).problems.head? =
        some (.unbalanced "a.puml" "Point") := by
  intro name members shape
  have hsimple : typeName name = name := by decide +kernel
  have hname : IsClassName name := ⟨.dotted (by decide) (by decide), by rw [hsimple]; decide⟩
  have hall : ∀ text ∈ members ++ shape, IsMemberText text ∧ (member? (trim text)).isSome := by
    decide +kernel
  obtain ⟨hmembers, hshape⟩ := List.forall_mem_append.mp hall
  have hplain : ∀ text ∈ members, header? (trim text) = none := by decide +kernel
  have hheader : ∃ text ∈ shape, (header? (trim text)).isSome :=
    ⟨_, List.mem_cons_self, by decide +kernel⟩
  have hproblem := (read_inline_block "a.puml" hname hshape).2.1 hheader
  rw [hsimple, String.ofList_toList] at hproblem
  refine ⟨hname, hall, fun heq => ?_, hproblem⟩
  have hagree := (((read_inline_block "a.puml" hname hmembers).2.2 hplain).2).mp heq
  have hdiffer : ¬(members.length ≤ 1 ∨ ∀ text ∈ members, isDecoration (trim text) = true) := by
    decide +kernel
  exact hdiffer hagree

/-- A block that is taken for a diagram because of the member behind its semicolon
has one attribute on one line, and two if it is spread over lines. -/
theorem semicolon_joins_members :
    let members := ["x : int".toList, "-y : int".toList]
    let attributes := fun decl : Declaration =>
      decl.fields.map fun field => (field.name, field.declaredType)
    inlineText "P".toList members = "class P \x7b x : int; -y : int \x7d".toList ∧
      isInlineBlock (inlineText "P".toList members) = true ∧
      (∀ text ∈ members, IsMemberText text ∧ (member? text).isSome) ∧
      (read "a.puml" (inlineText "P".toList members)).types.map attributes =
        [[("x", "int; -y : int")]] ∧
      (read "a.puml" (spreadText "P".toList members)).types.map attributes =
        [[("x", "int"), ("y", "int")]] := by
  decide +kernel

end ClassAtlas.Diagram
