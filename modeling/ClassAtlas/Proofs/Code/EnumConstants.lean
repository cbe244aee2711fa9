import ClassAtlas.Code.EnumBody
import ClassAtlas.Proofs.Diagram.Blocks
import ClassAtlas.Proofs.Code.OperationStatements

/-!
# Constants of enumerations

The constants of an enumeration stand in front of a semicolon, with commas
between them and blanks and line breaks around every part. The section ends at
the semicolon wherever the lines break. Within the section every line is read on
its own, so the constants are found as they are declared as long as no argument
list goes on in another line.

A segment is a part of one line in which no comma separates. What follows a
segment is a line break, a comma or the end, so the section is read segment by
segment (`Lists.segment`), and a constant is one segment or, where the line
breaks behind its name, two.
-/

namespace ClassAtlas.Code

open ClassAtlas.Text TypeText
open Pattern (notMem_of_ok)
open Diagram (IsName)

/-! ## The end of the section -/

/-- The first semicolon outside parentheses ends the section. -/
theorem cutLiterals_append {s : List Char} {depth : ℕ} (hsemicolon : ';' ∉ s)
    (h : isBalanced '(' ')' depth s = true) (rest : List Char) :
    cutLiterals depth (s ++ ';' :: rest) = (s ++ [';'], rest) := by
  induction s generalizing depth with
  | nil =>
      rw [isBalanced, beq_iff_eq] at h
      simp [cutLiterals, h]
  | cons c s ih =>
      rw [List.mem_cons, not_or] at hsemicolon
      obtain ⟨next, hrest, hnext⟩ := isBalanced_cons h
      have hdepth : (if c = '(' then (depth : ℤ) + 1 else if c = ')' then depth - 1 else depth) =
          next := by
        rw [hnext, bracketChange]
        split
        · rfl
        · split <;> omega
      rw [List.cons_append, cutLiterals, if_neg (by simp [Ne.symm hsemicolon.1])]
      dsimp only
      rw [hdepth, ih hsemicolon.2 hrest]
      rfl

/-! ## Argument lists -/

/-- What can stand between the parentheses of an argument list: brackets are
balanced, and there are no braces and semicolons. -/
@[mk_iff]
structure IsArgumentText (s : List Char) : Prop where
  rounds : isBalanced '(' ')' 0 s = true
  angles : isBalanced '<' '>' 0 s = true
  squares : isBalanced '[' ']' 0 s = true
  plain : ∀ c ∈ s, c ∉ ['{', '}', ';']

instance (s : List Char) : Decidable (IsArgumentText s) :=
  decidable_of_iff' _ (isArgumentText_iff s)

theorem depthChange_eq_add_add {c : Char} (h : c ∉ ['{', '}', ';']) :
    depthChange c =
      bracketChange '(' ')' c + (bracketChange '<' '>' c + bracketChange '[' ']' c) := by
  by_cases hround : c ∈ ['(', ')']
  · simp only [List.mem_cons, List.not_mem_nil, or_false] at hround
    rcases hround with rfl | rfl <;> rfl
  · simp only [List.mem_cons, List.not_mem_nil, or_false, not_or] at h hround
    rw [depthChange_eq_add (by simp [h, hround])]
    simp [bracketChange, hround]

/-- Inside the parentheses of a list, no comma separates. -/
theorem whole_append_of_nested {s rest : List Char} {outer rounds angles squares : ℕ}
    (hplain : ∀ c ∈ s, c ∉ ['{', '}', ';'])
    (hrounds : isBalanced '(' ')' rounds s = true)
    (hangles : isBalanced '<' '>' angles s = true)
    (hsquares : isBalanced '[' ']' squares s = true)
    (houter : outer ≠ 0) (hrest : Whole ',' outer rest) :
    Whole ',' (outer + (rounds + (angles + squares))) (s ++ rest) := by
  induction s generalizing rounds angles squares with
  | nil =>
      simp only [isBalanced, beq_iff_eq] at hrounds hangles hsquares
      simpa [hrounds, hangles, hsquares] using hrest
  | cons c s ih =>
      obtain ⟨hc, hplain⟩ := List.forall_mem_cons.mp hplain
      obtain ⟨rounds', hrounds, hrounds'⟩ := isBalanced_cons hrounds
      obtain ⟨angles', hangles, hangles'⟩ := isBalanced_cons hangles
      obtain ⟨squares', hsquares, hsquares'⟩ := isBalanced_cons hsquares
      have hdepth : (outer + (rounds + (angles + squares)) : ℤ) + depthChange c =
          outer + (rounds' + (angles' + squares')) := by
        rw [depthChange_eq_add_add hc]
        omega
      rw [List.cons_append, Whole, hdepth]
      refine ⟨?_, ih hplain hrounds hangles hsquares⟩
      rintro ⟨-, hzero⟩
      omega

/-- The arguments of a constant with their parentheses. -/
def argumentList : Option (List Char) → List Char
  | none => []
  | some text => '(' :: (text ++ [')'])

theorem IsArgumentText.whole {s : List Char} (h : IsArgumentText s) :
    Whole ',' 0 (argumentList (some s)) := by
  have hclose : Whole ',' (1 : ℕ) [')'] := ⟨by decide, rfl⟩
  have hinside := whole_append_of_nested h.plain h.rounds h.angles h.squares (by decide) hclose
  exact whole_cons (by decide) rfl hinside

/-! ## Names -/

/-- The name of a constant ends at a blank or an argument list. -/
def StopsName (s : List Char) : Prop :=
  ∀ c ∈ s.head?, c = '(' ∨ isBlank c = true

theorem literalName?_eq {s : List Char} (hs : Stops isBlank s) (hat : s.head? ≠ some '@') :
    literalName? s =
      let name := s.takeWhile fun c => !(c == '(' || c == '{' || isBlank c)
      if isLiteralName name then some name else none := by
  rw [literalName?, stripAnnotations_eq_self hs hat]

theorem literalName?_append {name s : List Char} (hname : isLiteralName name = true)
    (hs : StopsName s) : literalName? (name ++ s) = some name := by
  have hisName := IsName.of_isLiteralName hname
  have htake : (name ++ s).takeWhile (fun c => !(c == '(' || c == '{' || isBlank c)) = name := by
    rw [List.takeWhile_append_of_pos]
    · cases s with
      | nil => simp
      | cons c s =>
          rw [List.takeWhile_cons_of_neg, List.append_nil]
          rcases hs c rfl with rfl | hblank
          · decide
          · simp [hblank]
    · intro c hc
      have hround := hisName.ne_of_mem hc (by decide : isName '(' = false)
      have hbrace := hisName.ne_of_mem hc (by decide : isName '{' = false)
      simp [hround, hbrace, isBlank_eq_false_of_isName (hisName.all_name c hc)]
  rw [literalName?_eq (hisName.stops_isBlank_append s) (hisName.head?_append_ne (by decide) s),
    htake]
  simp [hname]

theorem literalName?_parenthesis (s : List Char) : literalName? ('(' :: s) = none := by
  rw [literalName?_eq (stops_cons.mpr (by decide)) (by simp)]
  rfl

theorem literalName?_nil : literalName? [] = none := by
  rw [literalName?_eq (stops_nil isBlank) (by simp)]
  rfl

/-! ## Literals between commas -/

/-- The literals that stand between the commas of a line. -/
def literalsBetween (line : List Char) : List (List Char) :=
  (topLevelPieces ',' 0 line).filterMap fun piece => literalName? (trim piece)

theorem literalsBetween_of_whole {a : List Char} (h : Whole ',' 0 a) :
    literalsBetween a = (literalName? (trim a)).toList := by
  rw [literalsBetween, topLevelPieces_of_whole h, List.filterMap_cons]
  cases literalName? (trim a) <;> rfl

theorem literalsBetween_append {a : List Char} (h : Whole ',' 0 a) (b : List Char) :
    literalsBetween (a ++ ',' :: b) = (literalName? (trim a)).toList ++ literalsBetween b := by
  rw [literalsBetween, topLevelPieces_append (by decide) h, List.filterMap_cons]
  cases literalName? (trim a) <;> rfl

/-- Characters that are neither brackets nor commas lengthen the first piece. -/
theorem exists_topLevelPieces_flat_append {a : List Char}
    (ha : ∀ c ∈ a, depthChange c = 0 ∧ c ≠ ',') (depth : ℤ) (s : List Char) :
    ∃ piece more, topLevelPieces ',' depth s = piece :: more ∧
      topLevelPieces ',' depth (a ++ s) = (a ++ piece) :: more := by
  induction a with
  | nil =>
      obtain ⟨piece, more, hpieces⟩ :=
        List.exists_cons_of_ne_nil (topLevelPieces_ne_nil ',' depth s)
      exact ⟨piece, more, hpieces, hpieces⟩
  | cons c a ih =>
      obtain ⟨⟨hdepth, hne⟩, ha⟩ := List.forall_mem_cons.mp ha
      obtain ⟨piece, more, hs, has⟩ := ih ha
      refine ⟨piece, more, hs, ?_⟩
      rw [List.cons_append, topLevelPieces, hdepth, Int.add_zero, has]
      simp [hne]

/-- At the end of a text they lengthen the last piece. -/
theorem exists_topLevelPieces_append_flat {b : List Char}
    (hb : ∀ c ∈ b, depthChange c = 0 ∧ c ≠ ',') (depth : ℤ) (s : List Char) :
    ∃ init last, topLevelPieces ',' depth s = init ++ [last] ∧
      topLevelPieces ',' depth (s ++ b) = init ++ [last ++ b] := by
  induction s generalizing depth with
  | nil =>
      obtain ⟨piece, more, hnil, hpieces⟩ := exists_topLevelPieces_flat_append hb depth []
      obtain ⟨rfl, rfl⟩ := List.cons.inj hnil
      rw [List.append_nil] at hpieces
      exact ⟨[], [], rfl, by rw [List.nil_append, hpieces]; simp⟩
  | cons c s ih =>
      obtain ⟨init, last, hs, hsb⟩ := ih (depth + depthChange c)
      rw [List.cons_append, topLevelPieces, topLevelPieces, hs, hsb]
      split
      next => exact ⟨[] :: init, last, rfl, rfl⟩
      next =>
        cases init with
        | nil => exact ⟨[], c :: last, rfl, rfl⟩
        | cons piece more => exact ⟨(c :: piece) :: more, last, rfl, rfl⟩

theorem literalsBetween_blank_append {a : List Char} (ha : ∀ c ∈ a, isBlank c = true)
    (s : List Char) : literalsBetween (a ++ s) = literalsBetween s := by
  obtain ⟨piece, more, hs, has⟩ :=
    exists_topLevelPieces_flat_append (fun c hc => flat_of_isBlank (by decide) (ha c hc)) 0 s
  rw [literalsBetween, literalsBetween, hs, has, List.filterMap_cons, List.filterMap_cons,
    trim_blank_append ha]

theorem literalsBetween_append_blank {b : List Char} (hb : ∀ c ∈ b, isBlank c = true)
    (s : List Char) : literalsBetween (s ++ b) = literalsBetween s := by
  obtain ⟨init, last, hs, hsb⟩ :=
    exists_topLevelPieces_append_flat (fun c hc => flat_of_isBlank (by decide) (hb c hc)) 0 s
  rw [literalsBetween, literalsBetween, hs, hsb, List.filterMap_append, List.filterMap_append,
    List.filterMap_cons, List.filterMap_cons, trim_append_of_blank hb]

theorem literalsBetween_trimStart (s : List Char) :
    literalsBetween (trimStart s) = literalsBetween s := by
  rw [← literalsBetween_blank_append (a := s.takeWhile isBlank), trimStart,
    List.takeWhile_append_dropWhile]
  exact List.all_eq_true.mp List.all_takeWhile

theorem literalsBetween_trim (s : List Char) : literalsBetween (trim s) = literalsBetween s := by
  obtain ⟨b, hb, hs⟩ : ∃ b, (∀ c ∈ b, isBlank c = true) ∧ trimStart s = trim s ++ b := by
    refine ⟨((trimStart s).reverse.takeWhile isBlank).reverse, ?_, ?_⟩
    · intro c hc
      exact List.all_eq_true.mp List.all_takeWhile c (List.mem_reverse.mp hc)
    · rw [trim, trimEnd, ← List.reverse_append, List.takeWhile_append_dropWhile,
        List.reverse_reverse]
  rw [← literalsBetween_trimStart s, hs, literalsBetween_append_blank hb]

/-! ## Sections -/

/-- A line that starts with no annotation and no visibility word. -/
def Unmarked (line : List Char) : Prop :=
  ∀ c ∈ (trimStart line).head?, c ∉ ['@', 'p']

/-- A section declares the names if every line of it is read and the names are
the literals between its commas. -/
structure Lists (s : List Char) (names : List (List Char)) : Prop where
  unmarked : ∀ line ∈ s.splitOn '\n', Unmarked line
  found : (s.splitOn '\n').flatMap literalsBetween = names

/-- What follows a segment: nothing, or a comma and the rest of the section. -/
inductive Continues : List Char → List (List Char) → Prop where
  | done : Continues [] []
  | comma {s : List Char} {names : List (List Char)} (h : Lists s names) :
    Continues (',' :: s) names

/-- A part of a line that no comma separates. -/
structure Segment (a : List Char) : Prop where
  newline_notMem : '\n' ∉ a
  whole : Whole ',' 0 a
  unmarked : Unmarked a

theorem Unmarked.append {a b : List Char} (ha : Unmarked a) (hb : Unmarked b) :
    Unmarked (a ++ b) := by
  intro c hc
  rw [head?_trimStart_append, Option.mem_def, Option.or_eq_some_iff] at hc
  rcases hc with hc | ⟨-, hc⟩
  · exact ha c hc
  · exact hb c hc

theorem unmarked_of_blank {b : List Char} (hb : ∀ c ∈ b, isBlank c = true) : Unmarked b := by
  have hnil : trimStart b = [] := List.dropWhile_eq_nil_iff.mpr hb
  simp [Unmarked, hnil]

theorem unmarked_cons {c : Char} (hblank : isBlank c = false) (hc : c ∉ ['@', 'p'])
    (s : List Char) : Unmarked (c :: s) := by
  intro d hd
  rw [trimStart_eq_self (stops_cons.mpr hblank)] at hd
  obtain rfl := Option.some.inj hd
  exact hc

namespace Segment

variable {a b : List Char}

theorem append (ha : Segment a) (hb : Segment b) : Segment (a ++ b) where
  newline_notMem := by simp [ha.newline_notMem, hb.newline_notMem]
  whole := whole_append_whole hb.whole ha.whole
  unmarked := ha.unmarked.append hb.unmarked

theorem of_blank (hb : ∀ c ∈ b, isBlank c = true) (hline : '\n' ∉ b) : Segment b where
  newline_notMem := hline
  whole := whole_of_flat fun c hc => flat_of_isBlank (by decide) (hb c hc)
  unmarked := unmarked_of_blank hb

theorem nil : Segment [] :=
  of_blank (by simp) List.not_mem_nil

end Segment

namespace Lists

variable {s : List Char} {names : List (List Char)}

theorem of_segment {a : List Char} (ha : Segment a) :
    Lists a (literalName? (trim a)).toList := by
  have hpieces := List.splitOn_eq_singleton ha.newline_notMem
  constructor
  · rw [hpieces]
    simpa using ha.unmarked
  · rw [hpieces, List.flatMap_singleton, literalsBetween_of_whole ha.whole]

theorem nil : Lists [] [] := by
  have hempty := of_segment Segment.nil
  have htrim : trim [] = [] := rfl
  rw [htrim, literalName?_nil] at hempty
  exact hempty

theorem newline {a : List Char} {first : List (List Char)} (ha : Lists a first)
    (hs : Lists s names) : Lists (a ++ '\n' :: s) (first ++ names) := by
  constructor
  · rw [List.splitOn_append_cons_self]
    exact List.forall_mem_append.mpr ⟨ha.unmarked, hs.unmarked⟩
  · rw [List.splitOn_append_cons_self, List.flatMap_append, ha.found, hs.found]

/-- Blanks in front of a section say nothing, line breaks or not. -/
theorem blank_append {a : List Char} (ha : ∀ c ∈ a, isBlank c = true) (hs : Lists s names) :
    Lists (a ++ s) names := by
  induction a with
  | nil => exact hs
  | cons c a ih =>
      obtain ⟨hc, ha⟩ := List.forall_mem_cons.mp ha
      by_cases hbreak : c = '\n'
      · rw [hbreak]
        exact nil.newline (ih ha)
      · have hline : '\n' ∉ [c] := by simpa using Ne.symm hbreak
        have hblank : ∀ d ∈ [c], isBlank d = true := by simp [hc]
        obtain ⟨piece, more, hpieces, hpieces'⟩ := exists_append_splitOn hline (a ++ s)
        obtain ⟨hunmarked, hfound⟩ := ih ha
        rw [hpieces] at hunmarked hfound
        obtain ⟨hpiece, hmore⟩ := List.forall_mem_cons.mp hunmarked
        rw [List.cons_append, ← List.singleton_append]
        constructor
        · rw [hpieces']
          refine List.forall_mem_cons.mpr ⟨?_, hmore⟩
          rw [Unmarked, trimStart_append_of_blank hblank]
          exact hpiece
        · rw [hpieces', List.flatMap_cons, literalsBetween_blank_append hblank,
            ← List.flatMap_cons, hfound]

theorem segment_comma {a : List Char} (ha : Segment a) (hs : Lists s names) :
    Lists (a ++ ',' :: s) ((literalName? (trim a)).toList ++ names) := by
  have hcomma : '\n' ∉ a ++ [','] := by simp [ha.newline_notMem]
  obtain ⟨piece, more, hpieces, hpieces'⟩ := exists_append_splitOn hcomma s
  obtain ⟨hunmarked, hfound⟩ := hs
  rw [hpieces] at hunmarked hfound
  rw [List.append_assoc, List.append_assoc, List.singleton_append, List.singleton_append]
    at hpieces'
  constructor
  · rw [hpieces']
    have hrest := unmarked_cons (by decide : isBlank ',' = false) (by decide) piece
    exact List.forall_mem_cons.mpr
      ⟨ha.unmarked.append hrest, (List.forall_mem_cons.mp hunmarked).2⟩
  · rw [hpieces', List.flatMap_cons, literalsBetween_append ha.whole, List.append_assoc,
      ← List.flatMap_cons, hfound]

theorem of_continues (h : Continues s names) : Lists s names := by
  cases h with
  | done => exact nil
  | comma hs =>
      have hcomma := segment_comma Segment.nil hs
      have htrim : trim [] = [] := rfl
      rw [htrim, literalName?_nil] at hcomma
      exact hcomma

/-- A segment ends where the line ends. -/
theorem segment_newline {a b : List Char} (ha : Segment a) (hb : ∀ c ∈ b, isBlank c = true)
    (hbreak : '\n' ∈ b) (hs : Lists s names) :
    Lists (a ++ (b ++ s)) ((literalName? (trim a)).toList ++ names) := by
  obtain ⟨before, after, rfl, hbefore⟩ := List.eq_append_cons_of_mem hbreak
  obtain ⟨hb, hafter⟩ := List.forall_mem_append.mp hb
  have hline := of_segment (ha.append (Segment.of_blank hb hbefore))
  have hrest := hs.blank_append (List.forall_mem_cons.mp hafter).2
  rw [trim_append_of_blank hb] at hline
  simpa using hline.newline hrest

/-- A section is read segment by segment. -/
theorem segment {a b z : List Char} (ha : Segment a) (hb : ∀ c ∈ b, isBlank c = true)
    (hz : Continues z names) :
    Lists (a ++ (b ++ z)) ((literalName? (trim a)).toList ++ names) := by
  by_cases hbreak : '\n' ∈ b
  · exact segment_newline ha hb hbreak (of_continues hz)
  · have hsegment := ha.append (Segment.of_blank hb hbreak)
    rw [← List.append_assoc, ← trim_append_of_blank (s := a) hb]
    cases hz with
    | done => simpa using of_segment hsegment
    | comma hs => exact segment_comma hsegment hs

end Lists

/-! ## Constants -/

/-- A constant as it is written, with the blanks around its name and behind its
arguments. -/
structure EnumConstant where
  lead : List Char
  name : List Char
  gap : List Char
  arguments : Option (List Char)
  trail : List Char
  isBlank_lead : ∀ c ∈ lead, isBlank c = true
  isLiteralName : isLiteralName name = true
  isBlank_gap : ∀ c ∈ gap, isBlank c = true
  isArgumentText : ∀ text ∈ arguments, IsArgumentText text
  isBlank_trail : ∀ c ∈ trail, isBlank c = true

namespace EnumConstant

/-- The text of a constant. -/
def text (constant : EnumConstant) : List Char :=
  constant.lead ++ (constant.name ++
    (constant.gap ++ (argumentList constant.arguments ++ constant.trail)))

variable (constant : EnumConstant)

theorem isName_name : IsName constant.name :=
  IsName.of_isLiteralName constant.isLiteralName

theorem segment_name : Segment constant.name where
  newline_notMem := constant.isName_name.notMem (by decide)
  whole := whole_of_flat constant.isName_name.flat
  unmarked := by
    have hisName := constant.isName_name
    have hname := constant.isLiteralName
    obtain ⟨c, rest, hcons⟩ := List.exists_cons_of_ne_nil hisName.ne_nil
    rw [hcons] at hisName hname ⊢
    rw [Text.isLiteralName, Bool.and_eq_true] at hname
    have hblank := isBlank_eq_false_of_isName (hisName.all_name c List.mem_cons_self)
    exact unmarked_cons hblank (notMem_of_ok hname.1 (by decide)) rest

theorem literalName?_trim_append {s : List Char} (hs : Trimmed s) (hne : s ≠ [])
    (hgap : StopsName (constant.gap ++ s)) :
    literalName? (trim (constant.name ++ (constant.gap ++ s))) = some constant.name := by
  have htrimmed := constant.isName_name.trimmed.append_append hs constant.isName_name.ne_nil hne
    constant.gap
  rw [htrimmed.trim_eq, literalName?_append constant.isLiteralName hgap]

theorem literalName?_trim_name : literalName? (trim constant.name) = some constant.name := by
  have hname := literalName?_append (s := []) constant.isLiteralName (by simp [StopsName])
  rw [List.append_nil] at hname
  rw [constant.isName_name.trimmed.trim_eq, hname]

theorem trimmed_argumentList (text : List Char) : Trimmed (argumentList (some text)) := by
  constructor
  · exact stops_cons.mpr (by decide)
  · simp [argumentList]
    decide

/-- An argument list within one line is a segment. -/
theorem segment_argumentList {text : List Char} (htext : IsArgumentText text)
    (hline : '\n' ∉ argumentList (some text)) : Segment (argumentList (some text)) where
  newline_notMem := hline
  whole := htext.whole
  unmarked := unmarked_cons (by decide) (by decide) _

/-- A constant is read as its name, wherever its line breaks outside its
arguments. -/
theorem lists_append {z : List Char} {names : List (List Char)}
    (hline : '\n' ∉ argumentList constant.arguments) (hz : Continues z names) :
    Lists (constant.text ++ z) (constant.name :: names) := by
  have hblank := List.forall_mem_append.mpr ⟨constant.isBlank_gap, constant.isBlank_trail⟩
  rw [text, List.append_assoc]
  apply Lists.blank_append constant.isBlank_lead
  cases harguments : constant.arguments with
  | none =>
      have hlists := Lists.segment constant.segment_name hblank hz
      rw [literalName?_trim_name] at hlists
      simpa [argumentList] using hlists
  | some arguments =>
      rw [harguments] at hline
      have hlist := segment_argumentList (constant.isArgumentText arguments harguments) hline
      have htrimmed := trimmed_argumentList arguments
      by_cases hbreak : '\n' ∈ constant.gap
      · -- the argument list stands in a line of its own and says nothing
        have hrest := Lists.segment hlist constant.isBlank_trail hz
        rw [htrimmed.trim_eq, argumentList, literalName?_parenthesis] at hrest
        have hlists := Lists.segment_newline constant.segment_name constant.isBlank_gap hbreak
          hrest
        rw [literalName?_trim_name] at hlists
        simpa [argumentList] using hlists
      · have hsegment := constant.segment_name.append
          ((Segment.of_blank constant.isBlank_gap hbreak).append hlist)
        have hgap : StopsName (constant.gap ++ argumentList (some arguments)) := by
          intro c hc
          rw [Option.mem_def, List.head?_append, Option.or_eq_some_iff] at hc
          rcases hc with hc | ⟨-, hc⟩
          · exact Or.inr (constant.isBlank_gap c (List.mem_of_mem_head? hc))
          · exact Or.inl (Option.some.inj hc).symm
        have hlists := Lists.segment hsegment constant.isBlank_trail hz
        rw [constant.literalName?_trim_append htrimmed (by simp [argumentList]) hgap] at hlists
        simpa using hlists

end EnumConstant

/-- The constants of an enumeration with commas between them. -/
def constantsText (constants : List EnumConstant) : List Char :=
  [','].intercalate (constants.map EnumConstant.text)

theorem lists_constantsText {constants : List EnumConstant}
    (hline : ∀ constant ∈ constants, '\n' ∉ argumentList constant.arguments) :
    Lists (constantsText constants) (constants.map EnumConstant.name) := by
  induction constants with
  | nil => exact Lists.nil
  | cons constant rest ih =>
      obtain ⟨hconstant, hrest⟩ := List.forall_mem_cons.mp hline
      cases rest with
      | nil => simpa [constantsText] using constant.lists_append hconstant Continues.done
      | cons next more =>
          have hlists := constant.lists_append hconstant (Continues.comma (ih hrest))
          simpa [constantsText, List.intercalate_cons_cons] using hlists

/-! ## Reading a section -/

theorem startsMembers_eq_false {line : List Char} (hstops : Stops isBlank line)
    (hfirst : line.head? ≠ some 'p') : startsMembers line = false := by
  cases line with
  | nil => rfl
  | cons c rest =>
      have hblank : ∀ d ∈ [c], isBlank d = false := by simpa using hstops
      obtain ⟨piece, more, -, hpieces⟩ := exists_append_splitOnP hblank rest
      have hword : (words (c :: rest)).head? = some (c :: piece) := by
        rw [words, ← List.singleton_append, hpieces]
        rfl
      have hne : ∀ word ∈ ["public", "private", "protected"],
          String.ofList (c :: piece) ≠ word := by
        intro word hword heq
        have hp : word.toList.head? = some 'p' :=
          (by decide : ∀ word ∈ ["public", "private", "protected"],
            word.toList.head? = some 'p') word hword
        rw [← heq, String.toList_ofList] at hp
        exact hfirst hp
      rw [startsMembers, hword]
      simpa using hne

theorem filterMap_splitTopLevel (s : List Char) :
    (splitTopLevel ',' s).filterMap literalName? = literalsBetween s := by
  rw [splitTopLevel, literalsBetween, List.filterMap_filter, List.filterMap_map]
  refine List.filterMap_congr fun piece _ => ?_
  cases htrim : trim piece with
  | nil => simp [htrim, literalName?_nil]
  | cons c rest => simp [htrim]

theorem trimEndChar_append {c : Char} {s t : List Char} (h : c ∉ s) (ht : ∀ d ∈ t, d = c) :
    trimEndChar c (s ++ t) = s := by
  have hdrop : s.reverse.dropWhile (· == c) = s.reverse := by
    cases hreverse : s.reverse with
    | nil => rfl
    | cons d rest =>
        rw [List.dropWhile_cons_of_neg]
        rw [beq_iff_eq]
        rintro rfl
        exact h (List.mem_reverse.mp (hreverse ▸ List.mem_cons_self))
  rw [trimEndChar, List.reverse_append, List.dropWhile_append_of_pos, hdrop,
    List.reverse_reverse]
  intro d hd
  exact beq_iff_eq.mpr (ht d (List.mem_reverse.mp hd))

theorem literalsOfLine_trim {line : List Char} (h : ';' ∉ line) :
    literalsOfLine (trim line) = literalsBetween line := by
  have hend : trimEndChar ';' (trim line) = trim line := by
    simpa using trimEndChar_append (fun hmem => h (mem_of_mem_trim hmem)) (t := []) (by simp)
  rw [literalsOfLine, hend, filterMap_splitTopLevel, literalsBetween_trim]

/-- The last line goes on up to the semicolon. -/
theorem literalsOfLine_trim_semicolon {line : List Char} (h : ';' ∉ line) :
    literalsOfLine (trim (line ++ [';'])) = literalsBetween line := by
  have hstart : trimStart (line ++ [';']) = trimStart line ++ [';'] := by
    rw [trimStart, List.dropWhile_append, ← trimStart]
    split
    next hempty =>
      rw [List.isEmpty_iff.mp hempty]
      rfl
    next => rfl
  have htrim : trim (line ++ [';']) = trimStart line ++ [';'] := by
    rw [trim, hstart, trimEnd_eq_self]
    simp
    decide
  have hend : trimEndChar ';' (trimStart line ++ [';']) = trimStart line :=
    trimEndChar_append (fun hmem => h ((List.dropWhile_suffix isBlank).subset hmem)) (by simp)
  rw [literalsOfLine, htrim, hend, filterMap_splitTopLevel, literalsBetween_trimStart]

namespace Unmarked

variable {line : List Char}

theorem head?_trim_ne (h : Unmarked line) {c : Char} (hc : c ∈ ['@', 'p']) :
    (trim line).head? ≠ some c :=
  fun hhead => h c (head?_trimStart_of_trim hhead) hc

theorem stripAnnotations_trim (h : Unmarked line) :
    Source.stripAnnotations (trim line) = trim line :=
  stripAnnotations_eq_self (trimmed_trim line).1 (h.head?_trim_ne (by decide))

theorem startsMembers_trim (h : Unmarked line) : startsMembers (trim line) = false :=
  startsMembers_eq_false (trimmed_trim line).1 (h.head?_trim_ne (by decide))

end Unmarked

/-- The lines of a section are all read, up to its semicolon. -/
theorem Lists.literals_eq {s : List Char} {names : List (List Char)} (h : Lists s names)
    (hs : ';' ∉ s) :
    (((lines (s ++ [';'])).map fun line => Source.stripAnnotations (trim line)).takeWhile
      (!startsMembers ·)).flatMap literalsOfLine = names := by
  have hline : '\n' ∉ [';'] := by decide
  obtain ⟨init, last, hpieces, hpieces'⟩ := exists_splitOn_append hline s
  have hclean : ∀ line ∈ init ++ [last], ';' ∉ line := by
    rw [← hpieces]
    exact fun line hmem hc => hs ((infix_of_mem_splitOn hmem).subset hc)
  obtain ⟨hunmarked, hfound⟩ := h
  rw [hpieces] at hunmarked hfound
  obtain ⟨hinit, hlast⟩ := List.forall_mem_append.mp hunmarked
  have hsemicolon : Unmarked (last ++ [';']) :=
    (hlast last List.mem_cons_self).append (unmarked_cons (by decide) (by decide) [])
  have hall : ∀ line ∈ init ++ [last ++ [';']], Unmarked line :=
    List.forall_mem_append.mpr ⟨hinit, by simpa using hsemicolon⟩
  have hlines : (lines (s ++ [';'])).map (fun line => Source.stripAnnotations (trim line)) =
      (init ++ [last ++ [';']]).map trim := by
    have htrim := map_trim_lines_of_splitOn hpieces' (by simp)
    rw [← List.map_singleton (f := trim), ← List.map_append] at htrim
    calc (lines (s ++ [';'])).map (fun line => Source.stripAnnotations (trim line))
      _ = ((lines (s ++ [';'])).map trim).map Source.stripAnnotations := by
          rw [List.map_map]
          rfl
      _ = (init ++ [last ++ [';']]).map trim := by
          rw [htrim, List.map_map]
          exact List.map_congr_left fun line hmem => (hall line hmem).stripAnnotations_trim
  have hread : ((init ++ [last ++ [';']]).map trim).takeWhile (!startsMembers ·) =
      (init ++ [last ++ [';']]).map trim := by
    rw [List.takeWhile_eq_self_iff]
    intro line hmem
    obtain ⟨written, hwritten, rfl⟩ := List.mem_map.mp hmem
    simp [(hall written hwritten).startsMembers_trim]
  obtain ⟨hinitClean, hlastClean⟩ := List.forall_mem_append.mp hclean
  have hrest : init.flatMap (fun line => literalsOfLine (trim line)) =
      init.flatMap literalsBetween :=
    List.flatMap_congr fun line hmem => literalsOfLine_trim (hinitClean line hmem)
  rw [hlines, hread, ← hfound, List.flatMap_map, List.flatMap_append, List.flatMap_append, hrest,
    List.flatMap_singleton, List.flatMap_singleton,
    literalsOfLine_trim_semicolon (hlastClean last List.mem_cons_self)]

/-! ## Bodies -/

/-- The body of an enumeration: its constants, a semicolon and its members. -/
def enumText (constants : List EnumConstant) (members : List Char) : List Char :=
  constantsText constants ++ ';' :: members

theorem notMem_of_isBlank {b : List Char} (hb : ∀ c ∈ b, isBlank c = true) {d : Char}
    (hd : isBlank d = false) : d ∉ b := by
  intro hmem
  rw [hb d hmem] at hd
  contradiction

theorem EnumConstant.semicolon_notMem_text (constant : EnumConstant) : ';' ∉ constant.text := by
  have hblank : isBlank ';' = false := by decide
  have harguments : ';' ∉ argumentList constant.arguments := by
    cases harguments : constant.arguments with
    | none => exact List.not_mem_nil
    | some text =>
        have hplain := (constant.isArgumentText text harguments).plain
        have htext : ';' ∉ text := fun hmem => hplain ';' hmem (by decide)
        simp [argumentList, htext]
  simp [EnumConstant.text, notMem_of_isBlank constant.isBlank_lead hblank,
    constant.isName_name.notMem (by decide : isName ';' = false),
    notMem_of_isBlank constant.isBlank_gap hblank, harguments,
    notMem_of_isBlank constant.isBlank_trail hblank]

theorem semicolon_notMem_constantsText (constants : List EnumConstant) :
    ';' ∉ constantsText constants := by
  refine notMem_intercalate (by decide) fun part hpart => ?_
  obtain ⟨constant, -, rfl⟩ := List.mem_map.mp hpart
  exact constant.semicolon_notMem_text

theorem EnumConstant.isBalanced_text (constant : EnumConstant) :
    isBalanced '(' ')' 0 constant.text = true := by
  have hblank : ∀ {b : List Char}, (∀ c ∈ b, isBlank c = true) →
      isBalanced '(' ')' 0 b = true := fun hb =>
    isBalanced_of_notMem (notMem_of_isBlank hb (by decide)) (notMem_of_isBlank hb (by decide))
  have hname : isBalanced '(' ')' 0 constant.name = true :=
    isBalanced_of_notMem (constant.isName_name.notMem (by decide))
      (constant.isName_name.notMem (by decide))
  have harguments : isBalanced '(' ')' 0 (argumentList constant.arguments) = true := by
    cases harguments : constant.arguments with
    | none => rfl
    | some text =>
        have hrounds := (constant.isArgumentText text harguments).rounds
        exact isBalanced_append hrounds (by decide : isBalanced '(' ')' 1 [')'] = true)
  have htail := isBalanced_append harguments (hblank constant.isBlank_trail)
  exact isBalanced_append (hblank constant.isBlank_lead)
    (isBalanced_append hname (isBalanced_append (hblank constant.isBlank_gap) htail))

theorem isBalanced_constantsText (constants : List EnumConstant) :
    isBalanced '(' ')' 0 (constantsText constants) = true := by
  rw [constantsText]
  induction constants with
  | nil => rfl
  | cons constant rest ih =>
      cases rest with
      | nil => simpa using constant.isBalanced_text
      | cons next more =>
          rw [List.map_cons, List.map_cons, List.intercalate_cons_cons, List.append_assoc]
          exact isBalanced_append constant.isBalanced_text
            (isBalanced_append (by decide : isBalanced '(' ')' 0 [','] = true) ih)

/-- The members start behind the semicolon, wherever the lines break. As long as
no argument list goes on in another line, the literals are the constants in
their order, and a declaration takes all of them. -/
theorem splitEnumBody_constants {constants : List EnumConstant}
    (hdistinct : (constants.map EnumConstant.name).Nodup) (members : List Char) :
    (splitEnumBody (enumText constants members)).2 = members ∧
      ((∀ constant ∈ constants, '\n' ∉ argumentList constant.arguments) →
        (splitEnumBody (enumText constants members)).1 =
            constants.map (fun constant => String.ofList constant.name) ∧
          ∀ decl : Declaration,
            (splitEnumBody (enumText constants members)).1.foldl Declaration.addLiteral
                { decl with literals := [] } =
              { decl with
                literals := constants.map fun constant => String.ofList constant.name }) := by
  have hcut : cutLiterals 0 (enumText constants members) =
      (constantsText constants ++ [';'], members) :=
    cutLiterals_append (semicolon_notMem_constantsText constants)
      (isBalanced_constantsText constants) members
  refine ⟨by rw [splitEnumBody, hcut], ?_⟩
  intro hline
  have hliterals := (lists_constantsText hline).literals_eq
    (semicolon_notMem_constantsText constants)
  have hfound : (splitEnumBody (enumText constants members)).1 =
      constants.map (fun constant => String.ofList constant.name) := by
    rw [splitEnumBody, hcut]
    dsimp only
    rw [hliterals, List.map_map]
    rfl
  have hnodup : (constants.map fun constant => String.ofList constant.name).Nodup := by
    have hmap := hdistinct.map fun _ _ heq => String.ofList_injective heq
    rw [List.map_map] at hmap
    exact hmap
  refine ⟨hfound, ?_⟩
  intro decl
  rw [hfound, decl.foldl_addLiteral hnodup]

theorem forall_isBlank_nil : ∀ c ∈ ([] : List Char), isBlank c = true := by
  decide

theorem forall_isBlank_space : ∀ c ∈ " ".toList, isBlank c = true := by
  decide

theorem forall_isBlank_indent : ∀ c ∈ "\n  ".toList, isBlank c = true := by
  decide

/-- A constant with nested arguments in a line of their own. -/
def red : EnumConstant where
  lead := "\n  ".toList
  name := "RED".toList
  gap := "\n    ".toList
  arguments := some "max(255, 0), new Map<K, V>(), BITS[0]".toList
  trail := " ".toList
  isBlank_lead := forall_isBlank_indent
  isLiteralName := by decide
  isBlank_gap := by decide
  isArgumentText := by decide
  isBlank_trail := forall_isBlank_space

/-- A constant without arguments. -/
def dark : EnumConstant where
  lead := " ".toList
  name := "DARK_2".toList
  gap := "\r\n".toList
  arguments := none
  trail := []
  isBlank_lead := forall_isBlank_space
  isLiteralName := by decide
  isBlank_gap := by decide
  isArgumentText := by decide
  isBlank_trail := forall_isBlank_nil

theorem splitEnumBody_constants_colors :
    ([red, dark].map EnumConstant.name).Nodup ∧
      (∀ constant ∈ [red, dark], '\n' ∉ argumentList constant.arguments) ∧
      enumText [red, dark] " int code;".toList =
        ("\n  RED\n    (max(255, 0), new Map<K, V>(), BITS[0]) , DARK_2\r\n; int code;").toList ∧
      splitEnumBody (enumText [red, dark] " int code;".toList) =
        (["RED", "DARK_2"], " int code;".toList) := by
  have hdistinct : ([red, dark].map EnumConstant.name).Nodup := by decide
  have hline : ∀ constant ∈ [red, dark], '\n' ∉ argumentList constant.arguments := by decide
  obtain ⟨hmembers, hliterals⟩ := splitEnumBody_constants hdistinct " int code;".toList
  refine ⟨hdistinct, hline, by decide, ?_⟩
  exact Prod.ext (hliterals hline).1 hmembers

/-- A constant whose arguments go on in the next line. -/
def brokenRed : EnumConstant where
  lead := "\n  ".toList
  name := "RED".toList
  gap := []
  arguments := some "255,\n      0, 0".toList
  trail := []
  isBlank_lead := forall_isBlank_indent
  isLiteralName := by decide
  isBlank_gap := forall_isBlank_nil
  isArgumentText := by decide
  isBlank_trail := forall_isBlank_nil

/-- A constant with its arguments in one line. -/
def green : EnumConstant where
  lead := " ".toList
  name := "GREEN".toList
  gap := []
  arguments := some "0, 255, 0".toList
  trail := []
  isBlank_lead := forall_isBlank_space
  isLiteralName := by decide
  isBlank_gap := forall_isBlank_nil
  isArgumentText := by decide
  isBlank_trail := forall_isBlank_nil

/-- Behind arguments that go on in another line a constant is lost. -/
theorem broken_arguments_hide_green :
    ([brokenRed, green].map EnumConstant.name).Nodup ∧
      enumText [brokenRed, green] "\n".toList =
        "\n  RED(255,\n      0, 0), GREEN(0, 255, 0);\n".toList ∧
      splitEnumBody (enumText [brokenRed, green] "\n".toList) = (["RED"], "\n".toList) := by
  decide +kernel

end ClassAtlas.Code
