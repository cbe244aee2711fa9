import ClassAtlas.Proofs.Diagram.Documents

/-!
# Blocks that are never closed

A block whose body is not closed before the next header costs the diagram that
block only. The reader gives up on the body, reports the type by name and goes
on at the next header; what stands there is read as if the diagram started with
it. All that is left of the broken block is its problem, in front of the others.
-/

namespace ClassAtlas

open Text Pattern

/-! ## Problems met before -/

namespace ProblemLog

/-- The log with problems that were met before all of its own. -/
def behind (earlier : List Problem) (log : ProblemLog) : ProblemLog :=
  { log with problems := earlier ++ log.problems }

variable (earlier : List Problem) (log : ProblemLog)

theorem add_behind (problem : Problem) :
    (log.behind earlier).add problem = (log.add problem).behind earlier := by
  simp [add, behind]

theorem addMalformed_behind (detail : String) :
    (log.behind earlier).addMalformed detail = (log.addMalformed detail).behind earlier :=
  add_behind earlier log _

theorem addUnbalanced_behind (name : String) :
    (log.behind earlier).addUnbalanced name = (log.addUnbalanced name).behind earlier :=
  add_behind earlier log _

end ProblemLog

namespace Diagram

/-! ## The lines of a broken block -/

/-- A block that is not closed, given by its trimmed lines: a header that opens
a body without closing it on its line, and lines that neither close the body nor
are headers. -/
structure IsUnclosed (header : Header) (first : List Char) (body : List (List Char)) :
    Prop where
  header_eq : header? first = some header
  opens : header.opening.isSome
  stays_open : first.getLast? ≠ some '}'
  body_open : ∀ line ∈ body, line.head? ≠ some '}'
  body_plain : ∀ line ∈ body, header? line = none

/-! ## Header lines -/

/-- The words that a header line can start with. -/
def headerWords : List String :=
  ["abstract", "class", "interface", "enum"]

theorem exists_word_of_blockKeyword {line rest : List Char} {kind : TypeKind × Bool}
    (h : (kind, rest) ∈ blockKeyword.readings line) :
    ∃ word ∈ headerWords, ∃ s, line = word.toList ++ s := by
  obtain ⟨p, hp, hmem⟩ := mem_readings_oneOf.mp h
  simp only [List.mem_cons, List.not_mem_nil, or_false] at hp
  rcases hp with rfl | rfl | rfl | rfl | rfl
  all_goals
    obtain ⟨_, s, hliteral, -⟩ := mem_readings_bind.mp hmem
    refine ⟨_, ?_, s, mem_readings_literal.mp hliteral⟩
    decide

theorem exists_parts_of_header? {line : List Char} {header : Header}
    (h : header? line = some header) :
    ∃ parts rest, (parts, rest) ∈ headerLine.readings line ∧ parts.opening = header.opening := by
  obtain ⟨⟨parts, rest⟩, hfirst, hheader⟩ := Option.bind_eq_some_iff.mp h
  refine ⟨parts, rest, mem_readings_of_first? hfirst, ?_⟩
  dsimp only at hheader
  split at hheader
  next => contradiction
  next => rw [← Option.some.inj hheader]

theorem exists_word_of_header? {line : List Char} {header : Header}
    (h : header? line = some header) : ∃ word ∈ headerWords, ∃ s, line = word.toList ++ s := by
  obtain ⟨parts, rest, hmem, -⟩ := exists_parts_of_header? h
  obtain ⟨kind, s, hkind, -⟩ := mem_readings_bind.mp hmem
  exact exists_word_of_blockKeyword hkind

/-- A header is read by the rule for headers and by no rule before it. -/
theorem readItem_of_header? {line : List Char} {header : Header}
    (h : header? line = some header) (rest : List (List Char)) :
    readItem line rest =
      match blockBody? header.opening rest with
      | some (body, after) => ([.block header body], after)
      | none => ([.unclosed header.name], rest.dropWhile fun line => (header? line).isNone) := by
  obtain ⟨word, hword, s, rfl⟩ := exists_word_of_header? h
  have hplain : (word.toList ++ s).isEmpty = false ∧ word.toList ++ s ≠ ['}'] ∧
      isDirective (word.toList ++ s) = false ∧
      "note".toList.isPrefixOf (word.toList ++ s) = false ∧
      packageLine.first? (word.toList ++ s) = none := by
    simp only [headerWords, List.mem_cons, List.not_mem_nil, or_false] at hword
    rcases hword with rfl | rfl | rfl | rfl <;> exact ⟨rfl, by simp, rfl, rfl, rfl⟩
  obtain ⟨hfilled, hclose, hdirective, hnote, hpackage⟩ := hplain
  rw [readItem, hfilled, if_neg (by decide), if_neg hclose, hdirective, if_neg (by decide),
    hnote, if_neg (by decide), hpackage]
  dsimp only
  rewrite [h]
  rfl

theorem takes_blockKeyword : blockKeyword.Takes anything := by
  have hword : ∀ word : String, (literal word).Takes anything :=
    fun word => Takes.literal fun _ _ => rfl
  refine Takes.oneOf ?_
  intro p hp
  simp only [List.mem_cons, List.not_mem_nil, or_false] at hp
  rcases hp with rfl | rfl | rfl | rfl | rfl
  · exact Takes.bind (hword _) fun _ => Takes.bind (Takes.blanks1 fun _ _ => rfl) fun _ =>
      Takes.bind (hword _) fun _ => Takes.pure _
  all_goals exact Takes.bind (hword _) fun _ => Takes.pure _

theorem takes_blockName : blockName.Takes anything := by
  refine Takes.oneOf (List.forall_mem_cons.mpr ⟨?_, List.forall_mem_singleton.mpr ?_⟩)
  · exact (Takes.bind (Takes.char rfl) fun _ => Takes.bind (Takes.skip1 fun _ _ => rfl)
      fun _ => Takes.char rfl).taken
  · exact Takes.run1 fun _ _ => rfl

theorem takes_stereotype : stereotype.Takes anything :=
  Takes.bind (Takes.blanks fun _ _ => rfl) fun _ => Takes.bind (Takes.literal fun _ _ => rfl)
    fun _ => Takes.bind (Takes.skip fun _ _ => rfl) fun _ => Takes.literal fun _ _ => rfl

theorem takes_typeParameters : typeParameters.Takes anything :=
  Takes.bind (Takes.blanks fun _ _ => rfl) fun _ => Takes.bind (Takes.char rfl)
    fun _ => Takes.bind (Takes.skip fun _ _ => rfl) fun _ => Takes.char rfl

theorem takes_supertypeList (word : String) : (supertypeList word).Takes anything :=
  Takes.bind (Takes.blanks1 fun _ _ => rfl) fun _ => Takes.bind (Takes.literal fun _ _ => rfl)
    fun _ => Takes.bind (Takes.skip1 fun _ _ => rfl) fun _ => Takes.runFew1 fun _ _ => rfl

/-- The text from the opening brace on runs to the end of the line. -/
theorem exists_opening_suffix {line opening : List Char} {header : Header}
    (h : header? line = some header) (hopening : header.opening = some opening) :
    ∃ inner, opening = '{' :: inner ∧ opening <:+ line := by
  obtain ⟨parts, rest, hmem, hparts⟩ := exists_parts_of_header? h
  obtain ⟨kind, s₁, h₁, hmem⟩ := takes_blockKeyword.exists_suffix_of_mem_bind hmem
  obtain ⟨_, s₂, h₂, hmem⟩ := (Takes.blanks1 fun _ _ => rfl).exists_suffix_of_mem_bind hmem
  obtain ⟨name, s₃, h₃, hmem⟩ := takes_blockName.exists_suffix_of_mem_bind hmem
  obtain ⟨_, s₄, h₄, hmem⟩ := takes_stereotype.optional.exists_suffix_of_mem_bind hmem
  obtain ⟨_, s₅, h₅, hmem⟩ := takes_typeParameters.optional.exists_suffix_of_mem_bind hmem
  obtain ⟨extended, s₆, h₆, hmem⟩ :=
    (takes_supertypeList "extends").optional.exists_suffix_of_mem_bind hmem
  obtain ⟨implemented, s₇, h₇, hmem⟩ :=
    (takes_supertypeList "implements").optional.exists_suffix_of_mem_bind hmem
  obtain ⟨_, s₈, h₈, hmem⟩ := (Takes.blanks fun _ _ => rfl).exists_suffix_of_mem_bind hmem
  have hsuffix : s₈ <:+ line :=
    h₈.trans (h₇.trans (h₆.trans (h₅.trans (h₄.trans (h₃.trans (h₂.trans h₁))))))
  obtain ⟨body, s₉, hbody, hmem⟩ := mem_readings_bind.mp hmem
  obtain ⟨_, s, hend, hmem⟩ := mem_readings_bind.mp hmem
  obtain ⟨rfl, rfl⟩ := mem_readings_atEnd.mp hend
  obtain ⟨rfl, -⟩ := mem_readings_pure.mp hmem
  obtain ⟨span, rfl, htext⟩ := Option.map_eq_some_iff.mp (hparts.trans hopening)
  rcases mem_readings_optional.mp hbody with ⟨found, hfound, hread⟩ | ⟨hnone, -⟩
  · obtain rfl := Option.some.inj hfound
    obtain ⟨rfl, _, hread⟩ := mem_readings_taken.mp hread
    obtain ⟨_, inner, hchar, -⟩ := mem_readings_bind.mp hread
    have hs : Span.text ⟨s₈, []⟩ = s₈ := by simp [Span.text]
    rw [← htext, hs]
    exact ⟨inner, mem_readings_char.mp hchar, hsuffix⟩
  · exact (Option.some_ne_none span hnone).elim

/-- What a body holds on the line where it opens ends in a brace just if the
line does. -/
theorem getLast?_inner {line opening : List Char} {header : Header}
    (h : header? line = some header) (hopening : header.opening = some opening)
    (hline : Trimmed line) :
    (trim (opening.drop 1)).getLast? = some '}' ↔ line.getLast? = some '}' := by
  obtain ⟨inner, rfl, before, rfl⟩ := exists_opening_suffix h hopening
  have hend : Stops isBlank inner.reverse := by
    have htrimmed := hline.2
    rw [List.reverse_append, List.reverse_cons, List.append_assoc] at htrimmed
    exact htrimmed.of_append
  rw [List.drop_one, List.tail_cons, getLast?_trim hend, List.getLast?_append_cons]
  cases inner with
  | nil => simp
  | cons c inner => rw [List.getLast?_cons_cons]

/-! ## Giving up on a body -/

theorem head?_ne_of_header? {line : List Char} (h : (header? line).isSome) :
    line.head? ≠ some '}' := by
  obtain ⟨header, hheader⟩ := Option.isSome_iff_exists.mp h
  obtain ⟨word, hword, s, rfl⟩ := exists_word_of_header? hheader
  simp only [headerWords, List.mem_cons, List.not_mem_nil, or_false] at hword
  rcases hword with rfl | rfl | rfl | rfl <;> simp

theorem header?_nil : header? [] = none := rfl

namespace IsUnclosed

variable {header : Header} {first line : List Char} {body : List (List Char)}

/-- Empty lines change nothing about a broken block. -/
theorem append_gap (h : IsUnclosed header first body) {gap : List (List Char)}
    (hgap : ∀ line ∈ gap, line = []) : IsUnclosed header first (body ++ gap) where
  header_eq := h.header_eq
  opens := h.opens
  stays_open := h.stays_open
  body_open := by
    refine List.forall_mem_append.mpr ⟨h.body_open, fun line hline => ?_⟩
    simp [hgap line hline]
  body_plain := by
    refine List.forall_mem_append.mpr ⟨h.body_plain, fun line hline => ?_⟩
    rw [hgap line hline, header?_nil]

/-- No line closes the body before the next header. -/
theorem takeBody?_eq_none (h : IsUnclosed header first body) (hline : (header? line).isSome)
    (more : List (List Char)) : takeBody? (body ++ line :: more) = none := by
  have hopen := h.body_open
  have hplain := h.body_plain
  clear h
  induction body with
  | nil =>
      have hhead := head?_ne_of_header? hline
      simp [takeBody?, hhead, hline]
  | cons next body ih =>
      obtain ⟨hnext, hopen⟩ := List.forall_mem_cons.mp hopen
      obtain ⟨hheader, hplain⟩ := List.forall_mem_cons.mp hplain
      simp [takeBody?, hnext, hheader, ih hopen hplain]

/-- The body does not close on the line of the header either. -/
theorem blockBody?_eq_none (h : IsUnclosed header first body) (hfirst : Trimmed first)
    (hline : (header? line).isSome) (more : List (List Char)) :
    blockBody? header.opening (body ++ line :: more) = none := by
  obtain ⟨opening, hopening⟩ := Option.isSome_iff_exists.mp h.opens
  have hlast : (trim (opening.drop 1)).getLast? ≠ some '}' := by
    rw [Ne, getLast?_inner h.header_eq hopening hfirst]
    exact h.stays_open
  rw [hopening, blockBody?]
  dsimp only
  rw [isSuffixOf?_singleton_eq_none hlast, h.takeBody?_eq_none hline more]
  rfl

/-- The reader goes on at the next header. -/
theorem items_append (h : IsUnclosed header first body) (hfirst : Trimmed first)
    (hline : (header? line).isSome) (more : List (List Char)) :
    items (first :: (body ++ line :: more)) = .unclosed header.name :: items (line :: more) := by
  have hnext : (body ++ line :: more).dropWhile (fun line => (header? line).isNone) =
      line :: more := by
    rw [List.dropWhile_append_of_pos fun line hmem => by simp [h.body_plain line hmem],
      List.dropWhile_cons_of_neg (by simpa [Option.isSome_iff_ne_none] using hline)]
  rw [items, readItem_of_header? h.header_eq, h.blockBody?_eq_none hfirst hline more, hnext]
  rfl

end IsUnclosed

/-! ## Gathering behind problems -/

/-- What has been gathered, with problems that were met before. -/
def Gathered.behind (earlier : List Problem) (state : Gathered) : Gathered :=
  { state with log := state.log.behind earlier }

variable (earlier : List Problem)

theorem addBodyLine_behind (state : Declaration × ProblemLog) (line : List Char) :
    addBodyLine (state.map id (ProblemLog.behind earlier)) line =
      (addBodyLine state line).map id (ProblemLog.behind earlier) := by
  obtain ⟨decl, log⟩ := state
  simp only [Prod.map, id_eq, addBodyLine]
  -- only a line that is no member writes to the log
  split
  next => rfl
  next =>
    split
    next => rfl
    next =>
      split
      next => rfl
      next => rw [ProblemLog.addMalformed_behind]

theorem declaration_behind (log : ProblemLog) (package : String) (header : Header)
    (body : List (List Char)) :
    declaration (log.behind earlier) package header body =
      (declaration log package header body).map id (ProblemLog.behind earlier) := by
  rw [declaration, declaration, ← List.foldl_hom _ (addBodyLine_behind earlier)]
  rfl

/-- Gathering an item looks at no problem that is in the log. -/
theorem gather_behind (state : Gathered) (item : Item) :
    gather (state.behind earlier) item = (gather state item).behind earlier := by
  cases item with
  | openPackage name => rfl
  | closePackage => rfl
  | block header body =>
      rw [gather, gather, Gathered.behind, declaration_behind]
      rfl
  | unclosed name =>
      rw [gather, gather, Gathered.behind, Gathered.behind, ProblemLog.addUnbalanced_behind]
  | link relationship => rfl
  | stray line =>
      rw [gather, gather, Gathered.behind, Gathered.behind, ProblemLog.addMalformed_behind]

theorem foldl_gather_behind (items : List Item) (state : Gathered) :
    items.foldl gather (state.behind earlier) = (items.foldl gather state).behind earlier :=
  List.foldl_hom (Gathered.behind earlier) (gather_behind earlier)

/-! ## The rest of the diagram -/

/-- A diagram whose items are those of another one behind a broken block is read
as that one, with one problem in front. -/
theorem read_of_items_unclosed (unit : String) {name : String} {text rest : List Char}
    (h : items ((lines text).map trim) = .unclosed name :: items ((lines rest).map trim)) :
    read unit text =
      { read unit rest with problems := .unbalanced unit name :: (read unit rest).problems } := by
  have hgather : gather { log := { unit } } (.unclosed name) =
      Gathered.behind [.unbalanced unit name] { log := { unit } } := rfl
  rw [read, h, List.foldl_cons, hgather, foldl_gather_behind]
  rfl

/-- A block that is never closed harms only itself: a diagram behind it that
starts with a header is read as it is alone, and the block adds one problem in
front, which names its type. -/
theorem read_unclosed (unit : String) {header : Header} {block rest first line : List Char}
    {body more : List (List Char)}
    (hblock : (lines block).map trim = first :: body) (h : IsUnclosed header first body)
    (hrest : (lines rest).map trim = line :: more) (hline : (header? line).isSome) :
    read unit (block ++ '\n' :: rest) =
      { read unit rest with
        problems := .unbalanced unit header.name :: (read unit rest).problems } := by
  obtain ⟨gap, hgap, hlines⟩ := exists_map_trim_lines_append block rest
  have hfirst : Trimmed first := by
    have hmem : first ∈ (lines block).map trim := by
      rw [hblock]
      exact List.mem_cons_self
    obtain ⟨written, -, rfl⟩ := List.mem_map.mp hmem
    exact trimmed_trim written
  refine read_of_items_unclosed unit ?_
  rw [hlines, hblock, hrest, List.cons_append, ← List.append_assoc]
  exact (h.append_gap hgap).items_append hfirst hline more

/-- The diagram behind a broken block can start with a broken block itself. -/
theorem read_unclosed_twice :
    let block := "class Open \x7b\n- a : int".toList
    let rest := "class Torn \x7b\n- b\nclass Whole \x7b\n\x7d".toList
    read "sketch" (block ++ '\n' :: rest) =
        { read "sketch" rest with
          problems := .unbalanced "sketch" "Open" :: (read "sketch" rest).problems } ∧
      (read "sketch" rest).problems = [.unbalanced "sketch" "Torn"] ∧
      (read "sketch" rest).types.map Declaration.name = ["Whole"] := by
  intro block rest
  have hblock : (lines block).map trim = ["class Open \x7b".toList, "- a : int".toList] := by
    decide
  have hrest : (lines rest).map trim =
      "class Torn \x7b".toList :: ["- b", "class Whole \x7b", "\x7d"].map String.toList := by
    decide
  let header : Header := {
    name := "Open"
    kind := .«class»
    isAbstract := false
    extended := []
    implemented := []
    opening := some ['{'] }
  have hunclosed : IsUnclosed header "class Open \x7b".toList ["- a : int".toList] := by
    constructor
    · decide +kernel
    · rfl
    · decide
    · decide
    · decide
  have hheader : (header? "class Torn \x7b".toList).isSome := by
    decide +kernel
  refine ⟨read_unclosed "sketch" hblock hunclosed hrest hheader, ?_, ?_⟩
  · decide +kernel
  · decide +kernel

end Diagram

end ClassAtlas
