import ClassAtlas.Proofs.ValueTypes

/-!
# What a type expression refers to

A type expression is a tree: a qualified name, type arguments, which are type
expressions themselves or stand for their subtypes and supertypes, and marks of
arrays and varargs behind them. What it refers to is a function of the tree. A
type without arguments refers to its own name. Any other type refers to what
its first argument with arguments refers to, or to its last argument if none of
them has any.

The written form is searched for brackets from both sides, which follows the
tree because everything in front of the first argument with arguments is
without a closing bracket: that argument holds the first closing bracket of the
whole text, and the last opening one in front of it.
-/

namespace ClassAtlas.TypeText

open ClassAtlas.Text

/-! ## Trees -/

/-- A name behind the names of its packages. -/
structure QualifiedName where
  text : List Char
  isQualified : IsQualifiedName text

/-- How a type argument stands to the type it mentions. -/
inductive Bound where
  | exact
  | upTo
  | downTo

mutual

/-- A type expression. Without arguments no brackets are written. -/
inductive TypeTree where
  | node (name : QualifiedName) (arguments : List ArgumentTree) (dimensions : ℕ)
    (variadic : Bool)

/-- A type argument. -/
inductive ArgumentTree where
  | wildcard
  | bounded (bound : Bound) (type : TypeTree)

end

/-- What is written in front of the type that an argument mentions. -/
def Bound.text : Bound → String
  | exact => ""
  | upTo => "? extends "
  | downTo => "? super "

/-- The array brackets of a type, and the dots of a variable number of values. -/
def marks (dimensions : ℕ) (variadic : Bool) : List Char :=
  (List.replicate dimensions ['[', ']']).flatten ++ if variadic then "...".toList else []

/-- Arguments in their brackets. -/
def enclosed : List (List Char) → List Char
  | [] => []
  | arguments => '<' :: ([',', ' '].intercalate arguments ++ ['>'])

mutual

/-- A type expression as written. -/
def TypeTree.text : TypeTree → List Char
  | .node name arguments dimensions variadic =>
    name.text ++ (enclosed (argumentTexts arguments) ++ marks dimensions variadic)

/-- A type argument as written. -/
def ArgumentTree.text : ArgumentTree → List Char
  | .wildcard => ['?']
  | .bounded bound type => bound.text.toList ++ type.text

/-- The arguments of a list as written. -/
def argumentTexts : List ArgumentTree → List (List Char)
  | [] => []
  | argument :: more => argument.text :: argumentTexts more

end

/-- Whether a type has arguments. -/
def TypeTree.isApplied : TypeTree → Bool
  | .node _ arguments _ _ => !arguments.isEmpty

/-- Whether the type that an argument mentions has arguments itself. -/
def ArgumentTree.isApplied : ArgumentTree → Bool
  | .wildcard => false
  | .bounded _ type => type.isApplied

mutual

/-- The name that a type expression refers to. -/
def TypeTree.referent : TypeTree → List Char
  | .node name arguments _ _ => (referentAmong? arguments).getD (afterLast '.' name.text)

/-- The name that an argument refers to; a wildcard alone only to itself. -/
def ArgumentTree.referent : ArgumentTree → List Char
  | .wildcard => ['?']
  | .bounded _ type => type.referent

/-- The name that a list of arguments refers to: that of the first argument
with arguments, or else of the last one. -/
def referentAmong? : List ArgumentTree → Option (List Char)
  | [] => none
  | [last] => some last.referent
  | argument :: more =>
    if argument.isApplied then some argument.referent else referentAmong? more

end

theorem argumentTexts_eq (arguments : List ArgumentTree) :
    argumentTexts arguments = arguments.map ArgumentTree.text := by
  induction arguments with
  | nil => rfl
  | cons argument more ih => rw [argumentTexts, ih, List.map_cons]

theorem referentAmong?_eq (arguments : List ArgumentTree) :
    referentAmong? arguments =
      ((arguments.find? ArgumentTree.isApplied).or arguments.getLast?).map
        ArgumentTree.referent := by
  induction arguments with
  | nil => rfl
  | cons argument more ih =>
      cases more with
      | nil => cases happlied : argument.isApplied <;> simp [referentAmong?, happlied]
      | cons next more =>
          rw [referentAmong?, ih, List.getLast?_cons_cons]
          · cases happlied : argument.isApplied <;> simp [happlied]
          · exact List.cons_ne_nil next more

/-! ## Arguments without arguments -/

/-- The name that is left of one argument. -/
def bareName (segment : List Char) : List Char :=
  trim (afterLast '.' (dropBound "? super " (dropBound "? extends " (trim (stripArrays segment)))))

/-- The name that is left of the last item of a list. -/
def lastName (list : List Char) : List Char :=
  bareName ((splitTopLevel ',' list).getLast?.getD list)

theorem baseName_of_innermost {s inner : List Char}
    (h : innerArguments? (stripArrays s) = some inner) : baseName s = lastName inner := by
  simp only [baseName, h]
  rfl

theorem baseName_of_no_arguments {s : List Char} (h : innerArguments? (stripArrays s) = none) :
    baseName s = bareName (stripArrays s) := by
  simp only [baseName, h]
  rfl

theorem reverse_marks (dimensions : ℕ) (variadic : Bool) :
    (marks dimensions variadic).reverse =
      (if variadic then "...".toList else []) ++
        (List.replicate dimensions [']', '[']).flatten := by
  cases variadic <;> simp [marks, List.reverse_flatten]

theorem stops_brackets {s : List Char} (hs : Stops isBlank s) (dimensions : ℕ) :
    Stops isBlank ((List.replicate dimensions [']', '[']).flatten ++ s) := by
  cases dimensions with
  | zero => exact hs
  | succ n => exact stops_cons.mpr (by decide)

theorem dropMarks_brackets {s : List Char} (hs : Stops isBlank s) (dimensions : ℕ) :
    dropMarks ((List.replicate dimensions [']', '[']).flatten ++ s) = dropMarks s := by
  induction dimensions with
  | zero => rfl
  | succ n ih =>
      have hrest := trimStart_eq_self (stops_brackets hs n)
      change dropMarks (']' :: '[' :: ((List.replicate n [']', '[']).flatten ++ s)) = _
      rw [dropMarks]
      split
      next more hmore =>
        rw [trimStart_eq_self (stops_cons.mpr (by decide))] at hmore
        obtain ⟨-, rfl⟩ := List.cons.inj hmore
        rw [hrest, ih]
      next hmore => exact absurd (trimStart_eq_self (stops_cons.mpr (by decide))) (hmore _)

theorem trimmed_append_marks {s : List Char} (hs : Trimmed s) (hne : s ≠ []) (dimensions : ℕ)
    (variadic : Bool) : Trimmed (s ++ marks dimensions variadic) := by
  refine ⟨hs.1.append hne _, ?_⟩
  rw [List.reverse_append, reverse_marks, List.append_assoc]
  cases variadic with
  | false => exact stops_brackets hs.2 dimensions
  | true => exact stops_cons.mpr (by decide)

/-- Array and varargs marks are taken off, and nothing in front of them. -/
theorem stripArrays_append_marks {s : List Char} (hs : Trimmed s) (hne : s ≠ [])
    (hlast : dropMarks s.reverse = s.reverse) (dimensions : ℕ) (variadic : Bool) :
    stripArrays (s ++ marks dimensions variadic) = s := by
  rw [stripArrays, (trimmed_append_marks hs hne dimensions variadic).trim_eq,
    List.reverse_append, reverse_marks, List.append_assoc]
  cases variadic with
  | false =>
      rw [if_neg (by decide), List.nil_append, dropMarks_brackets hs.2, hlast,
        List.reverse_reverse]
  | true =>
      change (dropMarks ('.' :: '.' :: '.' ::
        ((List.replicate dimensions [']', '[']).flatten ++ s.reverse))).reverse = s
      rw [dropMarks, trimStart_eq_self (stops_brackets hs.2 dimensions),
        dropMarks_brackets hs.2, hlast, List.reverse_reverse]

theorem mem_marks {dimensions : ℕ} {variadic : Bool} {c : Char}
    (h : c ∈ marks dimensions variadic) : c ∈ ['[', ']', '.'] := by
  rcases List.mem_append.mp h with hbracket | hdot
  · obtain ⟨pair, hpair, hc⟩ := List.mem_flatten.mp hbracket
    rw [List.eq_of_mem_replicate hpair] at hc
    exact (by decide : ∀ c ∈ ['[', ']'], c ∈ ['[', ']', '.']) c hc
  · cases variadic with
    | false => exact absurd hdot List.not_mem_nil
    | true => exact (by decide : ∀ c ∈ "...".toList, c ∈ ['[', ']', '.']) c hdot

theorem whole_marks (dimensions : ℕ) (variadic : Bool) :
    Whole ',' 0 (marks dimensions variadic) := by
  induction dimensions with
  | zero => cases variadic <;> simp [marks, Whole, depthChange]
  | succ n ih => exact whole_cons (by decide) rfl (whole_cons (by decide) rfl ih)

section

variable {name : List Char} (hname : IsQualifiedName name) (bound : Bound) (dimensions : ℕ)
  (variadic : Bool)

include hname

theorem trimmed_bounded : Trimmed (bound.text.toList ++ name) := by
  have hwildcard : Trimmed ['?'] := by decide
  cases bound with
  | exact => exact hname.tidy.trimmed
  | upTo =>
      exact hwildcard.append_append hname.tidy.trimmed (by decide) hname.ne_nil " extends ".toList
  | downTo =>
      exact hwildcard.append_append hname.tidy.trimmed (by decide) hname.ne_nil " super ".toList

theorem dropMarks_reverse_append (s : List Char) :
    dropMarks (s ++ name).reverse = (s ++ name).reverse := by
  obtain ⟨init, c, rfl, hc⟩ := hname.exists_last
  rw [← List.append_assoc, List.reverse_concat']
  apply dropMarks_cons
  · rintro rfl
    contradiction
  · rintro rfl
    contradiction

theorem dropBound_append (word : String) : dropBound word (word.toList ++ name) = name := by
  rw [dropBound, isPrefixOf?_append]
  exact hname.tidy.trimmed.trim_eq

theorem dropBound_bounded :
    dropBound "? super " (dropBound "? extends " (bound.text.toList ++ name)) = name := by
  cases bound with
  | exact =>
      change dropBound "? super " (dropBound "? extends " name) = name
      rw [dropBound_eq_self hname rfl, dropBound_eq_self hname rfl]
  | upTo => rw [Bound.text, dropBound_append hname, dropBound_eq_self hname rfl]
  | downTo =>
      have hself : dropBound "? extends " ("? super ".toList ++ name) =
          "? super ".toList ++ name := by
        simp [dropBound, List.isPrefixOf?]
      rw [Bound.text, hself, dropBound_append hname]

/-- Bound, marks and packages are taken off an argument without arguments. -/
theorem bareName_bounded :
    bareName (bound.text.toList ++ (name ++ marks dimensions variadic)) = afterLast '.' name := by
  have hne : bound.text.toList ++ name ≠ [] :=
    List.append_ne_nil_of_right_ne_nil _ hname.ne_nil
  have htrimmed := trimmed_bounded hname bound
  rw [bareName, ← List.append_assoc, stripArrays_append_marks htrimmed hne
    (dropMarks_reverse_append hname _), htrimmed.trim_eq, dropBound_bounded hname bound,
    trim_afterLast hname]

end

/-- An item of a list of arguments without angle brackets. -/
structure Flat (s : List Char) : Prop where
  ne_nil : s ≠ []
  trimmed : Trimmed s
  whole : Whole ',' 0 s
  angles : ∀ c ∈ s, c ∉ ['<', '>']

theorem flat_bounded {name : List Char} (hname : IsQualifiedName name) (bound : Bound)
    (dimensions : ℕ) (variadic : Bool) :
    Flat (bound.text.toList ++ (name ++ marks dimensions variadic)) := by
  have hne : bound.text.toList ++ name ≠ [] :=
    List.append_ne_nil_of_right_ne_nil _ hname.ne_nil
  constructor
  · rw [← List.append_assoc]
    exact List.append_ne_nil_of_left_ne_nil hne _
  · rw [← List.append_assoc]
    exact trimmed_append_marks (trimmed_bounded hname bound) hne dimensions variadic
  · have hmarked := (whole_marks dimensions variadic).append hname.flat
    cases bound with
    | exact => exact hmarked
    | upTo => exact hmarked.append (a := "? extends ".toList) (by decide)
    | downTo => exact hmarked.append (a := "? super ".toList) (by decide)
  · refine List.forall_mem_append.mpr ⟨?_, List.forall_mem_append.mpr ⟨?_, ?_⟩⟩
    · cases bound <;> decide
    · intro c hc
      exact Pattern.notMem_of_ok (hname.all_dotted c hc) (by decide)
    · intro c hc
      exact (by decide : ∀ d ∈ ['[', ']', '.'], d ∉ ['<', '>']) c (mem_marks hc)

namespace ArgumentTree

variable {argument : ArgumentTree}

theorem cases_of_not_isApplied (h : argument.isApplied = false) :
    argument = wildcard ∨ ∃ bound name dimensions variadic,
      argument = bounded bound (.node name [] dimensions variadic) := by
  match argument, h with
  | wildcard, _ => exact Or.inl rfl
  | bounded bound (.node name [] dimensions variadic), _ =>
      exact Or.inr ⟨bound, name, dimensions, variadic, rfl⟩

theorem flat_text (h : argument.isApplied = false) : Flat argument.text := by
  rcases cases_of_not_isApplied h with rfl | ⟨bound, name, dimensions, variadic, rfl⟩
  · exact ⟨by decide, by decide, by simp [text, Whole, depthChange], by decide⟩
  · exact flat_bounded name.isQualified bound dimensions variadic

theorem bareName_text (h : argument.isApplied = false) :
    bareName argument.text = argument.referent := by
  rcases cases_of_not_isApplied h with rfl | ⟨bound, name, dimensions, variadic, rfl⟩
  · decide +kernel
  · exact bareName_bounded name.isQualified bound dimensions variadic

end ArgumentTree

/-! ## The innermost list -/

/-- The list that the first closing bracket of a text closes. -/
def Innermost (inner s : List Char) : Prop :=
  ∃ a b, s = a ++ '<' :: (inner ++ '>' :: b) ∧ '>' ∉ a ∧ '<' ∉ inner ∧ '>' ∉ inner

namespace Innermost

variable {inner s : List Char}

theorem append_left (h : Innermost inner s) {a : List Char} (ha : '>' ∉ a) :
    Innermost inner (a ++ s) := by
  obtain ⟨front, back, rfl, hfront, hinner⟩ := h
  refine ⟨a ++ front, back, by simp, ?_, hinner⟩
  rw [List.mem_append, not_or]
  exact ⟨ha, hfront⟩

theorem append_right (h : Innermost inner s) (b : List Char) : Innermost inner (s ++ b) := by
  obtain ⟨front, back, rfl, hfront, hinner⟩ := h
  exact ⟨front, back ++ b, by simp, hfront, hinner⟩

theorem baseName_eq (h : Innermost inner s) (hs : Stops isBlank s) :
    baseName s = lastName inner := by
  obtain ⟨a, b, rfl, ha, hopen, hclose⟩ := h
  have hnotMem : '>' ∉ a ++ '<' :: inner := by simp [ha, hclose]
  have hsplit : a ++ '<' :: (inner ++ '>' :: b) = a ++ '<' :: inner ++ '>' :: b := by simp
  rw [hsplit] at hs ⊢
  obtain ⟨more, hmore⟩ := exists_stripArrays_append (a ++ '<' :: inner) b
  rw [trimStart_eq_self hs.of_append] at hmore
  apply baseName_of_innermost
  rw [hmore, innerArguments?_append (by simp) hnotMem, afterLast_append_cons,
    afterLast_eq_self hopen]

theorem intercalate_head {part : List Char} (h : Innermost inner part)
    (parts : List (List Char)) : Innermost inner ([',', ' '].intercalate (part :: parts)) := by
  cases parts with
  | nil =>
      rw [List.intercalate_singleton]
      exact h
  | cons next more =>
      rw [List.intercalate_cons_cons, List.append_assoc]
      exact h.append_right _

theorem intercalate_tail {part : List Char} {parts : List (List Char)} (hpart : '>' ∉ part)
    (h : Innermost inner ([',', ' '].intercalate parts)) :
    Innermost inner ([',', ' '].intercalate (part :: parts)) := by
  cases parts with
  | nil =>
      obtain ⟨a, b, htext, -⟩ := h
      simp at htext
  | cons next more =>
      rw [List.intercalate_cons_cons]
      exact h.append_left (by simp [hpart])

end Innermost

/-! ## Lists of arguments -/

theorem referentAmong?_cons_of_isApplied {argument : ArgumentTree}
    (h : argument.isApplied = true) (more : List ArgumentTree) :
    referentAmong? (argument :: more) = some argument.referent := by
  rw [referentAmong?_eq, List.find?_cons_of_pos h]
  rfl

theorem referentAmong?_cons_of_not_isApplied {argument : ArgumentTree}
    (h : argument.isApplied = false) {more : List ArgumentTree} (hne : more ≠ []) :
    referentAmong? (argument :: more) = referentAmong? more := by
  rw [referentAmong?_eq, referentAmong?_eq, List.find?_cons_of_neg (by simp [h]),
    List.getLast?_cons_of_ne_nil hne]

theorem flat_of_mem_argumentTexts {arguments : List ArgumentTree}
    (h : ∀ argument ∈ arguments, argument.isApplied = false) :
    ∀ text ∈ argumentTexts arguments, Flat text := by
  intro text htext
  rw [argumentTexts_eq] at htext
  obtain ⟨argument, hargument, rfl⟩ := List.mem_map.mp htext
  exact ArgumentTree.flat_text (h argument hargument)

/-- Where no argument has arguments, the last one is chosen from their list. -/
theorem lastName_intercalate {arguments : List ArgumentTree} (hne : arguments ≠ [])
    (h : ∀ argument ∈ arguments, argument.isApplied = false) :
    referentAmong? arguments =
      some (lastName ([',', ' '].intercalate (argumentTexts arguments))) := by
  have hflat := flat_of_mem_argumentTexts h
  have hsplit := splitTopLevel_intercalate (fun text htext => (hflat text htext).whole)
    (fun text htext => (hflat text htext).trimmed) (fun text htext => (hflat text htext).ne_nil)
  have hnone : arguments.find? ArgumentTree.isApplied = none := by
    rw [List.find?_eq_none]
    intro argument hargument
    simp [h argument hargument]
  obtain ⟨init, last, rfl⟩ := (List.eq_nil_or_concat' arguments).resolve_left hne
  have hlast := ArgumentTree.bareName_text (h last (by simp))
  rw [lastName, hsplit, argumentTexts_eq, List.map_append, List.map_singleton,
    List.getLast?_concat, Option.getD_some, hlast, referentAmong?_eq, hnone,
    List.getLast?_concat]
  rfl

/-! ## Type expressions -/

theorem TypeTree.text_of_ne_nil (name : QualifiedName) {arguments : List ArgumentTree}
    (hne : arguments ≠ []) (dimensions : ℕ) (variadic : Bool) :
    (TypeTree.node name arguments dimensions variadic).text =
      name.text ++ '<' :: ([',', ' '].intercalate (argumentTexts arguments) ++
        '>' :: marks dimensions variadic) := by
  obtain ⟨argument, more, rfl⟩ := List.exists_cons_of_ne_nil hne
  simp [text, argumentTexts, enclosed]

theorem innermost_of_flat (name : QualifiedName) {arguments : List ArgumentTree}
    (hne : arguments ≠ []) (h : ∀ argument ∈ arguments, argument.isApplied = false)
    (dimensions : ℕ) (variadic : Bool) :
    Innermost ([',', ' '].intercalate (argumentTexts arguments))
      (TypeTree.node name arguments dimensions variadic).text := by
  have hnotMem : ∀ c ∈ ['<', '>'], c ∉ [',', ' '].intercalate (argumentTexts arguments) := by
    intro c hc
    apply notMem_intercalate
    · exact (by decide : ∀ c ∈ ['<', '>'], c ∉ [',', ' ']) c hc
    · intro text htext hmem
      exact (flat_of_mem_argumentTexts h text htext).angles c hmem hc
  exact ⟨name.text, marks dimensions variadic, TypeTree.text_of_ne_nil name hne _ _,
    name.isQualified.notMem_close, hnotMem '<' (by decide), hnotMem '>' (by decide)⟩

mutual

/-- The innermost list of a type with arguments tells what the type refers
to. -/
theorem TypeTree.exists_innermost : ∀ type : TypeTree, type.isApplied = true →
    ∃ inner, Innermost inner type.text ∧ type.referent = lastName inner
  | .node name arguments dimensions variadic, happlied => by
      have hne : arguments ≠ [] := by simpa [TypeTree.isApplied] using happlied
      rw [TypeTree.referent]
      by_cases hnested : ∃ argument ∈ arguments, argument.isApplied = true
      · obtain ⟨inner, hinner, hreferent⟩ := exists_innermost_arguments arguments hnested
        refine ⟨inner, ?_, by rw [hreferent, Option.getD_some]⟩
        rw [TypeTree.text_of_ne_nil name hne, List.append_cons]
        exact (hinner.append_right _).append_left (by simp [name.isQualified.notMem_close])
      · have hflat : ∀ argument ∈ arguments, argument.isApplied = false := by simpa using hnested
        exact ⟨_, innermost_of_flat name hne hflat dimensions variadic,
          by rw [lastName_intercalate hne hflat, Option.getD_some]⟩

theorem ArgumentTree.exists_innermost : ∀ argument : ArgumentTree, argument.isApplied = true →
    ∃ inner, Innermost inner argument.text ∧ argument.referent = lastName inner
  | .wildcard, happlied => by contradiction
  | .bounded bound type, happlied => by
      obtain ⟨inner, hinner, hreferent⟩ := TypeTree.exists_innermost type happlied
      rw [ArgumentTree.text, ArgumentTree.referent]
      exact ⟨inner, hinner.append_left (by cases bound <;> decide), hreferent⟩

/-- In front of the first argument with arguments nothing is closed. -/
theorem exists_innermost_arguments : ∀ arguments : List ArgumentTree,
    (∃ argument ∈ arguments, argument.isApplied = true) →
    ∃ inner, Innermost inner ([',', ' '].intercalate (argumentTexts arguments)) ∧
      referentAmong? arguments = some (lastName inner)
  | [], hnested => by simp at hnested
  | argument :: more, hnested => by
      rw [argumentTexts]
      by_cases happlied : argument.isApplied = true
      · obtain ⟨inner, hinner, hreferent⟩ := ArgumentTree.exists_innermost argument happlied
        exact ⟨inner, hinner.intercalate_head _,
          by rw [referentAmong?_cons_of_isApplied happlied, hreferent]⟩
      · have hflat : argument.isApplied = false := by simpa using happlied
        have hmore : ∃ argument ∈ more, argument.isApplied = true := by
          simpa [hflat] using hnested
        obtain ⟨inner, hinner, hreferent⟩ := exists_innermost_arguments more hmore
        have hclose : '>' ∉ argument.text := fun hmem =>
          (ArgumentTree.flat_text hflat).angles '>' hmem (by decide)
        refine ⟨inner, hinner.intercalate_tail hclose, ?_⟩
        obtain ⟨next, hnext, -⟩ := hmore
        rw [referentAmong?_cons_of_not_isApplied hflat (List.ne_nil_of_mem hnext), hreferent]

end

theorem TypeTree.stops_isBlank (type : TypeTree) : Stops isBlank type.text := by
  obtain ⟨name, arguments, dimensions, variadic⟩ := type
  rw [text]
  exact name.isQualified.tidy.stops_isBlank.append name.isQualified.ne_nil _

/-- A type without arguments refers to its own name. -/
theorem baseName_plain (name : QualifiedName) (dimensions : ℕ) (variadic : Bool) :
    baseName (name.text ++ marks dimensions variadic) = afterLast '.' name.text := by
  have hname := name.isQualified
  have hstrip : stripArrays (name.text ++ marks dimensions variadic) = name.text :=
    stripArrays_append_marks hname.tidy.trimmed hname.ne_nil
      (by simpa using dropMarks_reverse_append hname []) dimensions variadic
  have hopen : '<' ∉ name.text := fun hmem => absurd (hname.all_dotted '<' hmem) (by decide)
  have hnone : innerArguments? name.text = none := by
    have hdrop : name.text.dropWhile (· != '<') = [] := by
      rw [List.dropWhile_eq_nil_iff]
      intro c hc
      rw [bne_iff_ne]
      rintro rfl
      exact hopen hc
    rw [innerArguments?, hdrop]
  rw [baseName_of_no_arguments (by rw [hstrip, hnone]), hstrip, bareName,
    trim_afterLast_of_name hname]

/-- What a declared type refers to is a function of its type expression. -/
theorem baseName_text (type : TypeTree) : baseName type.text = type.referent := by
  by_cases happlied : type.isApplied = true
  · obtain ⟨inner, hinner, hreferent⟩ := type.exists_innermost happlied
    rw [hinner.baseName_eq type.stops_isBlank, hreferent]
  · obtain ⟨name, arguments, dimensions, variadic⟩ := type
    obtain rfl : arguments = [] := by simpa [TypeTree.isApplied] using happlied
    exact baseName_plain name dimensions variadic

example :
    let item : TypeTree := .node ⟨"Item".toList, .name (by decide)⟩ [] 1 false
    let key : TypeTree :=
      .node ⟨"Key".toList, .name (by decide)⟩ [.wildcard, .bounded .upTo item] 0 false
    let map : TypeTree :=
      .node ⟨"Map".toList, .name (by decide)⟩ [.bounded .downTo key, .wildcard] 2 true
    map.text = "Map<? super Key<?, ? extends Item[]>, ?>[][]...".toList ∧
      map.referent = "Item".toList := by decide

end ClassAtlas.TypeText
