import Mathlib.Data.List.Infix
import ClassAtlas.Proofs.Code.Bodies
import ClassAtlas.Proofs.Code.HiddenText

/-!
# Types that are never closed

A type whose body is never closed costs a source unit that type only. Headers
are looked for in the whole text, so those behind the open brace are still
found, and each body is matched by counting from its own brace. The open brace
could only matter through what it puts in front of the rest: the line that a
package clause or a header starts, and the last character before a header,
which tells whether it declares an annotation. An open brace with a line break
behind it changes neither.
-/

namespace ClassAtlas

open Text Pattern Source

namespace Source

/-! ## The depth of code braces -/

/-- What a character does to the depth of code braces. -/
def braceStep (zone : Zone) (c : Char) : ℤ :=
  if zone.isCode c && c == '{' then 1
  else if zone.isCode c && c == '}' then -1
  else 0

/-- The depth of code braces behind a text that is read from `zone` on. It is
negative if more of them close than open. -/
def braceDepth : Zone → List Char → ℤ
  | _, [] => 0
  | zone, c :: rest => braceStep zone c + braceDepth (zone.next c) rest

theorem braceDepth_eq_balance (zone : Zone) (s : List Char) :
    braceDepth zone s = balance '{' '}' zone s := by
  induction s generalizing zone with
  | nil => rfl
  | cons c rest ih =>
      rw [braceDepth, balance, ih]
      rfl

/-- A block is not closed by a text in which the depth never falls below zero. -/
theorem staysOpen_of_braceDepth {zone : Zone} {s : List Char}
    (h : ∀ start ∈ s.inits, 0 ≤ braceDepth zone start) : StaysOpen '{' '}' zone 0 s := by
  intro start hstart
  have hdepth := h start ((List.mem_inits start s).mpr hstart)
  rw [braceDepth_eq_balance] at hdepth
  omega

/-! ## Package clauses -/

/-- A line that no package clause starts is passed over. -/
theorem findPackage?_line {line : List Char} (h : '\n' ∉ line) (s : List Char) :
    findPackage? false (line ++ '\n' :: s) = findPackage? true s := by
  induction line with
  | nil => rfl
  | cons c line ih =>
      obtain ⟨hc, hline⟩ := not_or.mp (List.mem_cons.not.mp h)
      have hbreak : (c == '\n') = false := beq_eq_false_iff_ne.mpr (Ne.symm hc)
      rw [List.cons_append, findPackage?, if_neg (by decide), hbreak]
      exact ih hline

end Source

namespace Code

open Diagram (isIdentifier IsName)

/-! ## Structure behind code -/

theorem structureText_cons {c : Char} (hquote : Zone.isQuote c = false) (hslash : c ≠ '/')
    (s : List Char) : structureText (c :: s) = c :: structureText s := by
  have hcode : Zone.code.isCode c = true := Zone.isCode_iff.mpr ⟨rfl, hquote⟩
  have hparts : Parts [c] s := fun hlast => absurd (Option.some.inj hlast) hslash
  rw [structureText, stripComments, dropComments_cons hparts, Zone.next_of_isCode hcode,
    maskLiterals, maskFrom, Zone.next_of_isCode hcode, if_pos (Zone.keeps_of_not_inLiteral rfl c)]
  rfl

theorem structureText_append_of_code {a : List Char}
    (h : ∀ c ∈ a, Zone.isQuote c = false ∧ c ≠ '/') (s : List Char) :
    structureText (a ++ s) = a ++ structureText s := by
  induction a with
  | nil => rfl
  | cons c a ih =>
      obtain ⟨⟨hquote, hslash⟩, ha⟩ := List.forall_mem_cons.mp h
      rw [List.cons_append, structureText_cons hquote hslash, ih ha, List.cons_append]

/-! ## Headers -/

/-- A header that starts where the text starts. -/
def bareHeader : Pattern TypeHeader := do
  let modifiers ← modifiers typeModifiers
  let kind ← typeKeyword
  blanks1
  let name ← taken do
    let _ ← one opensName
    skip isName
  return { separator := none, modifiers, kind, name := name.text }

/-- At the start of a line a header without a separator is preferred; behind a
separator it is read as if the text started there. -/
theorem first?_typeHeader_eq (lineStart : Bool) (s : List Char) :
    (typeHeader lineStart).first? s =
      (if lineStart then bareHeader.first? s else none).or
        ((one separatesHeader).search (fun c rest => (bareHeader.first? rest).map fun reading =>
          ({ reading.1 with separator := some c }, reading.2)) s) := by
  have hbare : ∀ (c : Char) (rest : List Char),
      bareHeader.search (fun header after =>
        some ({ header with separator := some c }, after)) rest =
      (bareHeader.first? rest).map fun reading =>
        ({ reading.1 with separator := some c }, reading.2) :=
    fun c rest => search_some bareHeader _ rest
  rw [first?, typeHeader, search_bind, search_oneOf_cons, search_oneOf_cons, search_oneOf_nil,
    Option.or_none]
  simp only [← hbare]
  cases lineStart <;> rfl

theorem first?_typeHeader_separated {c : Char} (h : separatesHeader c = true) (s : List Char) :
    (typeHeader false).first? (c :: s) =
      (bareHeader.first? s).map fun reading =>
        ({ reading.1 with separator := some c }, reading.2) := by
  rw [first?_typeHeader_eq, search_one_of_ok h, if_neg (by decide), Option.none_or]

theorem takes_typeModifiers : (modifiers typeModifiers).Takes anything :=
  Takes.many (Takes.bind (Takes.keyword fun _ _ _ _ => rfl) fun _ =>
    Takes.bind (Takes.skip1 fun _ _ => rfl) fun _ => Takes.pure _)

theorem takes_typeKeyword : typeKeyword.Takes anything :=
  Takes.oneOf (List.forall_mem_map.mpr fun kind _ =>
    Takes.bind (Takes.literal fun _ _ => rfl) fun _ => Takes.pure kind)

/-- A header without a separator takes at least one character. -/
theorem bareHeader_spec {s after : List Char} {header : TypeHeader}
    (h : bareHeader.first? s = some (header, after)) :
    header.separator = none ∧ after.length < s.length := by
  have hname : Takes (taken (do let _ ← one opensName; skip isName)) anything :=
    (Takes.bind (Takes.one fun _ _ => rfl) fun _ => Takes.skip fun _ _ => rfl).taken
  have hmem := mem_readings_of_first? h
  obtain ⟨modifiers, s₁, h₁, hmem⟩ := takes_typeModifiers.exists_suffix_of_mem_bind hmem
  obtain ⟨kind, s₂, h₂, hmem⟩ := takes_typeKeyword.exists_suffix_of_mem_bind hmem
  obtain ⟨_, s₃, hblanks, hmem⟩ := mem_readings_bind.mp hmem
  obtain ⟨c, more, rfl, -, rfl⟩ := mem_readings_blanks1.mp hblanks
  obtain ⟨name, s₄, h₄, hmem⟩ := hname.exists_suffix_of_mem_bind hmem
  obtain ⟨rfl, rfl⟩ := mem_readings_pure.mp hmem
  have hafter := h₄.length_le.trans (length_trimStart_le more)
  have hword := (h₂.trans h₁).length_le
  rw [List.length_cons] at hword
  exact ⟨rfl, by omega⟩

section Steps

variable {lineStart : Bool} {c : Char} {rest : List Char} (ink : Option Char)

theorem findHeaders_found {header : TypeHeader} {after : List Char}
    (h : (typeHeader lineStart).first? (c :: rest) = some (header, after)) :
    findHeaders 0 lineStart ink (c :: rest) =
      { header
        ofAnnotation :=
          header.modifiers.isEmpty && lastInk ink header.separator.toList == some '@'
        rest := after } ::
        findHeaders (rest.length - after.length) (c == '\n') (lastInk ink [c]) rest := by
  rw [findHeaders, h]

theorem findHeaders_passed (h : (typeHeader lineStart).first? (c :: rest) = none) :
    findHeaders 0 lineStart ink (c :: rest) =
      findHeaders 0 (c == '\n') (lastInk ink [c]) rest := by
  rw [findHeaders, h]

end Steps

/-- Texts that agree on ending in an at sign still agree with one text behind
both. -/
theorem lastInk_congr {ink ink' : Option Char} (h : ink = some '@' ↔ ink' = some '@')
    (s : List Char) : lastInk ink s = some '@' ↔ lastInk ink' s = some '@' := by
  induction s generalizing ink ink' with
  | nil => exact h
  | cons c s ih =>
      apply ih
      dsimp only
      split
      next => exact h
      next => rfl

/-- The headers of a text depend on what stands before it only in whether that
ends in an at sign. -/
theorem findHeaders_congr {ink ink' : Option Char} (h : ink = some '@' ↔ ink' = some '@')
    (skipped : ℕ) (lineStart : Bool) (s : List Char) :
    findHeaders skipped lineStart ink s = findHeaders skipped lineStart ink' s := by
  induction s generalizing skipped lineStart ink ink' with
  | nil =>
      rw [findHeaders, findHeaders]
  | cons c rest ih =>
      have hrest := ih (lastInk_congr h [c])
      cases skipped with
      | succ skipped =>
          rw [findHeaders, findHeaders]
          exact hrest skipped _
      | zero =>
          rw [findHeaders, findHeaders]
          cases (typeHeader lineStart).first? (c :: rest) with
          | none => exact hrest 0 _
          | some found =>
              have hat : (lastInk ink found.1.separator.toList == some '@') =
                  (lastInk ink' found.1.separator.toList == some '@') := by
                rw [Bool.eq_iff_iff, beq_iff_eq, beq_iff_eq]
                exact lastInk_congr h found.1.separator.toList
              dsimp only
              rw [hat, hrest]

/-- Behind skipped characters of one line the search goes on within a line. -/
theorem findHeaders_skipped {line : List Char} (hne : line ≠ []) (hbreak : '\n' ∉ line)
    (lineStart : Bool) (ink : Option Char) (s : List Char) :
    findHeaders line.length lineStart ink (line ++ s) =
      findHeaders 0 false (lastInk ink line) s := by
  induction line generalizing lineStart ink with
  | nil => contradiction
  | cons c line ih =>
      obtain ⟨hc, hline⟩ := not_or.mp (List.mem_cons.not.mp hbreak)
      rw [List.length_cons, List.cons_append, findHeaders, beq_eq_false_iff_ne.mpr (Ne.symm hc)]
      cases line with
      | nil => rfl
      | cons d line => exact ih (List.cons_ne_nil d line) hline false (lastInk ink [c])

/-- No header starts in front of the line break behind an open brace. -/
theorem findHeaders_brace (ink : Option Char) (s : List Char) :
    findHeaders 0 false ink (' ' :: '{' :: '\n' :: s) =
      findHeaders 0 false (some '{') ('\n' :: s) := by
  have hspace : (typeHeader false).first? (' ' :: '{' :: '\n' :: s) = none := rfl
  have hbrace : (typeHeader false).first? ('{' :: '\n' :: s) = none := rfl
  rw [findHeaders_passed ink hspace]
  exact findHeaders_passed _ hbrace

/-- A text behind a line break and an open brace has the types that it has
alone. -/
theorem map_findHeaders_break (unit package : String) (s : List Char) :
    (findHeaders 0 false (some '{') ('\n' :: s)).map (declaration? unit package) =
      (findHeaders 0 true none s).map (declaration? unit package) := by
  have hink : (some '{' = some '@') ↔ (none : Option Char) = some '@' := by
    decide
  have hbreak : lastInk (some '{') ['\n'] = some '{' := by
    decide
  have hfirst := first?_typeHeader_separated (c := '\n') (by decide) s
  cases hbare : bareHeader.first? s with
  | none =>
      rw [hbare, Option.map_none] at hfirst
      rw [findHeaders_passed _ hfirst, hbreak, findHeaders_congr hink]
      rfl
  | some found =>
      obtain ⟨header, after⟩ := found
      rw [hbare, Option.map_some] at hfirst
      obtain ⟨hseparator, hlength⟩ := bareHeader_spec hbare
      obtain ⟨d, rest, rfl⟩ : ∃ d rest, s = d :: rest :=
        List.exists_cons_of_length_pos (Nat.zero_lt_of_lt hlength)
      have hline : (typeHeader true).first? (d :: rest) = some (header, after) := by
        rw [first?_typeHeader_eq, if_pos rfl, hbare, Option.some_or]
      have hskipped : (d :: rest).length - after.length = rest.length - after.length + 1 := by
        rw [List.length_cons] at hlength ⊢
        omega
      rw [findHeaders_found _ hfirst, findHeaders_found _ hline, hbreak, hskipped, findHeaders,
        findHeaders_congr (lastInk_congr hink [d]), List.map_cons, List.map_cons, hseparator]
      rfl

/-! ## An open type -/

/-- A body that is never closed is a problem of its type. -/
theorem declaration?_unclosed (unit package : String) {header : TypeHeader} {s : List Char}
    (h : ∀ start ∈ s.inits, 0 ≤ braceDepth .code start) :
    declaration? unit package ⟨header, false, ' ' :: '{' :: '\n' :: s⟩ =
      .error (.unbalanced unit (String.ofList header.name)) := by
  have hclauses : supertypeClauses.first? (skipTypeParameters [' ']) = some ((none, none), []) := by
    decide
  have hbreak : StaysOpen '{' '}' .code 0 ('\n' :: s) :=
    staysOpen_cons.mpr ⟨0, by decide, staysOpen_of_braceDepth h⟩
  have hfrom : closingFrom '{' '}' .code 0 ('\n' :: s) = none :=
    (closingFrom_eq_none_iff (by decide)).mpr hbreak
  have hblock : splitBlock? '{' '}' ('{' :: '\n' :: s) = none := by
    rw [splitBlock?, if_pos rfl, hfrom, Option.map_none]
  have htake : (' ' :: '{' :: '\n' :: s).takeWhile (fun c => !endsHeader c) = [' '] := rfl
  have hdrop : (' ' :: '{' :: '\n' :: s).dropWhile (fun c => !endsHeader c) =
      '{' :: '\n' :: s := rfl
  simp only [declaration?, htake, hdrop, hclauses, hblock]

/-- A class that opens a body and a text behind it. -/
def openClass (name s : List Char) : List Char :=
  "class ".toList ++ name ++ " \x7b\n".toList ++ s

theorem openClass_eq (name s : List Char) :
    openClass name s = "class".toList ++ ' ' :: (name ++ ' ' :: '{' :: '\n' :: s) := by
  unfold openClass
  simp

section OpenClass

variable {name : List Char} (hname : isIdentifier name = true) (s : List Char)
include hname

theorem structureText_openClass :
    structureText (openClass name s) = openClass name (structureText s) := by
  apply structureText_append_of_code
  have hword := IsName.of_isIdentifier hname
  simp only [List.forall_mem_append]
  refine ⟨⟨by decide, fun c hc => ?_⟩, by decide⟩
  have hdouble := hword.ne_of_mem hc (d := '"') (by decide)
  have hsingle := hword.ne_of_mem hc (d := '\'') (by decide)
  exact ⟨by simp [Zone.isQuote, hdouble, hsingle], hword.ne_of_mem hc (by decide)⟩

theorem packageName_openClass : packageName (openClass name s) = packageName s := by
  have hword := (IsName.of_isIdentifier hname).notMem (d := '\n') (by decide)
  have hbreak : '\n' ∉ "lass ".toList ++ name ++ " \x7b".toList := by
    simp [hword]
  have htext : openClass name s =
      'c' :: ("lass ".toList ++ name ++ " \x7b".toList ++ '\n' :: s) := by
    unfold openClass
    simp
  have hclause : ∀ t, packageClause.first? ('c' :: t) = none := fun _ => rfl
  rw [packageName, htext, findPackage?, if_pos rfl, hclause]
  exact congrArg (Option.getD · []) (findPackage?_line hbreak s)

/-- The open class is found first, and then the types of the text behind it. -/
theorem map_findHeaders_openClass (unit package : String)
    (h : ∀ start ∈ s.inits, 0 ≤ braceDepth .code start) :
    (findHeaders 0 true none (openClass name s)).map (declaration? unit package) =
      .error (.unbalanced unit (String.ofList name)) ::
        (findHeaders 0 true none s).map (declaration? unit package) := by
  have hrest : Stops isName (' ' :: '{' :: '\n' :: s) := stops_cons.mpr (by decide)
  have hheader := @first?_typeHeader .«class» _ _ hname hrest
  -- the characters of the header behind its first one, which the search skips
  generalize hskipped : "lass".toList ++ ' ' :: name = skipped
  have hne : skipped ≠ [] := by
    rw [← hskipped]
    simp
  have hbreak : '\n' ∉ skipped := by
    have hword := (IsName.of_isIdentifier hname).notMem (d := '\n') (by decide)
    rw [← hskipped]
    simp [hword]
  have htext : TypeKind.«class».keyword.toList ++ ' ' :: (name ++ ' ' :: '{' :: '\n' :: s) =
      'c' :: (skipped ++ ' ' :: '{' :: '\n' :: s) := by
    rw [← hskipped]
    simp [TypeKind.keyword]
  have hlength : (skipped ++ ' ' :: '{' :: '\n' :: s).length - (' ' :: '{' :: '\n' :: s).length =
      skipped.length := by
    simp
  rw [htext] at hheader
  rw [openClass_eq, ← TypeKind.keyword, htext, findHeaders_found none hheader, hlength,
    findHeaders_skipped hne hbreak, findHeaders_brace, List.map_cons, map_findHeaders_break]
  exact congrArg (· :: _) (declaration?_unclosed unit package h)

end OpenClass

/-- An unbalanced type harms only itself: a source behind it in which no code
brace closes what was not opened, such as one with balanced braces, is read as it
is alone, and the type adds one problem in front, which names it. -/
theorem read_openClass (unit : String) {name : List Char} (hname : isIdentifier name = true)
    {source : List Char}
    (hbraces : ∀ start ∈ (structureText source).inits, 0 ≤ braceDepth .code start) :
    read unit ("class ".toList ++ name ++ " \x7b\n".toList ++ source) =
      { read unit source with
        problems := .unbalanced unit (String.ofList name) :: (read unit source).problems } := by
  change read unit (openClass name source) = _
  simp only [read, structureText_openClass hname, packageName_openClass hname,
    map_findHeaders_openClass hname _ unit _ hbraces, List.filterMap_cons]

/-- The source behind an open class keeps its package, its types and its own
problem. -/
theorem read_openClass_shop :
    let source :=
      "package shop;\nclass Fine \x7b char c = '\x7d'; \x7d\nclass Odd ? \x7b\x7d".toList
    read "Open.java" ("class ".toList ++ "Open".toList ++ " \x7b\n".toList ++ source) =
        { read "Open.java" source with
          problems := .unbalanced "Open.java" "Open" :: (read "Open.java" source).problems } ∧
      braceDepth .code (structureText source) = 0 ∧
      (read "Open.java" source).package = "shop" ∧
      (read "Open.java" source).types.map Declaration.name = ["Fine"] ∧
      (read "Open.java" source).problems =
        [.malformed "Open.java" "unrecognized header for `Odd`: ?"] := by
  intro source
  have hbraces : ∀ start ∈ (structureText source).inits, 0 ≤ braceDepth .code start := by
    decide +kernel
  have hname : isIdentifier "Open".toList = true := by
    decide
  refine ⟨read_openClass "Open.java" hname hbraces, ?_⟩
  decide +kernel

end Code

end ClassAtlas
