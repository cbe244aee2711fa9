import ClassAtlas.Proofs.Code.MemberSources

/-!
# Fields as statements

The shape of a field is read back part by part: its modifiers, its type up to
the last bracket before the name, its name and its value up to the semicolon
that ends the statement. A value with parentheses needs the start of an
assignment in front of them, which is seen unless the type ends in a dollar
sign.
-/

namespace ClassAtlas.Code

open ClassAtlas.Text Pattern TypeText
open Diagram (IsName)
open Source (outline)

section Types

variable {β : Type} {rest : List Char} {v : β}

/-! ## Types -/

theorem search_arrayBrackets_cons (k : Unit → List Char → Option β) (s : List Char) :
    arrayBrackets.search k ('[' :: ']' :: s) = k () s := by
  have hopen : Stops isBlank ('[' :: ']' :: s) := stops_cons.mpr (by decide)
  have hclose : Stops isBlank (']' :: s) := stops_cons.mpr (by decide)
  rw [arrayBrackets, search_bind, search_blanks, trimStart_eq_self hopen, search_bind,
    search_char_self, search_bind, search_blanks, trimStart_eq_self hclose, search_char_self]

theorem search_arrayBrackets_eq_none {s : List Char} (h : (trimStart s).head? ≠ some '[')
    (k : Unit → List Char → Option β) : arrayBrackets.search k s = none := by
  rw [arrayBrackets, search_bind, search_blanks, search_bind]
  exact search_char_of_ne h _

theorem search_many_arrayBrackets (dimensions : ℕ) (hrest : (trimStart rest).head? ≠ some '[')
    {k : List Unit → List Char → Option β} (hk : ∀ items, k items rest = some v) :
    arrayBrackets.many.search k ((List.replicate dimensions ['[', ']']).flatten ++ rest) =
      some v := by
  have htext : (List.replicate dimensions ['[', ']']).flatten =
      (List.replicate dimensions ()).flatMap fun _ => ['[', ']'] := by
    simp [List.flatMap_def]
  rw [htext]
  refine search_many_flatMap (fun _ => True) ?_ ?_ ?_ trivial ?_ (hk _)
  · intro _ _ k t _ hk
    rw [List.cons_append, List.singleton_append, search_arrayBrackets_cons]
    exact hk
  · simp
  · simp
  · intro n found
    exact search_arrayBrackets_eq_none hrest _

/-- Up to the end of a declaration no angle bracket closes. -/
theorem head?_ne_of_append {middle after x y : List Char} {stop : Char}
    (hstop : stop = '=' ∨ stop = ';') (hmiddle : '>' ∉ middle)
    (h : '>' :: (middle ++ stop :: after) = x ++ y) (hne : x ≠ [])
    (hx : ∀ c ∈ x, noneOf ['=', ';'] c = true) : y.head? ≠ some '>' := by
  have hstop' : stop ≠ '>' ∧ noneOf ['=', ';'] stop = false := by
    rcases hstop with rfl | rfl <;> decide
  have hnot : stop ∉ x := by
    intro hmem
    rw [hx stop hmem] at hstop'
    exact absurd hstop'.2 (by decide)
  rw [← List.cons_append] at h
  obtain ⟨z, hz, rfl⟩ := exists_of_append_eq_append_cons hnot h.symm
  intro hhead
  cases z with
  | nil => exact hstop'.1 (Option.some.inj hhead)
  | cons d z =>
      obtain rfl := Option.some.inj hhead
      obtain ⟨c, x, rfl⟩ := List.exists_cons_of_ne_nil hne
      rw [List.cons_append] at hz
      exact hmiddle (by rw [(List.cons.inj hz).2]; simp)

/-- The type arguments of a field. -/
def typeArguments : Pattern Unit := do
  blanks
  char '<'
  skip (noneOf ['=', ';'])
  char '>'

theorem fieldType_eq :
    fieldType = (do
      skip1 isDottedName
      let _ ← optional typeArguments
      let _ ← many arrayBrackets) :=
  rfl

theorem search_typeArguments_eq_none {s : List Char} (h : (trimStart s).head? ≠ some '<')
    (k : Unit → List Char → Option β) : typeArguments.search k s = none := by
  rw [typeArguments, search_bind, search_blanks, search_bind]
  exact search_char_of_ne h _

/-- Type arguments are read up to the last angle bracket in front of the end of
a declaration. -/
theorem search_typeArguments {inside middle after : List Char} {stop : Char}
    (hinside : ∀ c ∈ inside, noneOf ['=', ';'] c = true) (hmiddle : '>' ∉ middle)
    (hstop : stop = '=' ∨ stop = ';') {k : Unit → List Char → Option β}
    (hk : k () (middle ++ stop :: after) = some v) :
    typeArguments.search k ('<' :: (inside ++ '>' :: (middle ++ stop :: after))) = some v := by
  have hopen : Stops isBlank ('<' :: (inside ++ '>' :: (middle ++ stop :: after))) :=
    stops_cons.mpr (by decide)
  rw [typeArguments, search_bind, search_blanks, trimStart_eq_self hopen, search_bind,
    search_char_self, search_bind]
  -- the run takes all it can and gives back until an angle bracket follows
  refine search_skip_of_fail hinside ?_ ?_
  · rw [search_char_self]
    exact hk
  · intro x y hxy hne hx
    exact search_char_of_ne (head?_ne_of_append hstop hmiddle hxy hne hx) _

/-- The type of a field is read as a whole. -/
theorem search_fieldType (type : DeclaredType) {name between after : List Char}
    (hname : IsName name) (hbetween : '>' ∉ between) {stop : Char}
    (hstop : stop = '=' ∨ stop = ';') (hrest : rest = ' ' :: (name ++ (between ++ stop :: after)))
    {k : Unit → List Char → Option β} (hk : k () rest = some v) :
    fieldType.search k (type.text ++ rest) = some v := by
  obtain ⟨word, arguments, dimensions, hword, harguments, htext⟩ :=
    type.isTypeExpression.exists_parts
  have hstart : trimStart rest = name ++ (between ++ stop :: after) := by
    rw [hrest, trimStart_space, trimStart_eq_self (hname.stops_isBlank_append _)]
  have hstops : Stops isDottedName rest := by
    rw [hrest]
    exact stops_cons.mpr (by decide)
  have hsquare : (trimStart rest).head? ≠ some '[' := by
    rw [hstart]
    exact hname.head?_append_ne (by decide) _
  have hmany : arrayBrackets.many.search (fun _ t => k () t)
      ((List.replicate dimensions ['[', ']']).flatten ++ rest) = some v :=
    search_many_arrayBrackets dimensions hsquare fun _ => hk
  rw [htext, List.append_assoc, List.append_assoc, fieldType_eq, search_bind]
  refine search_skip1_longest hword.ne_nil hword.all_dotted
    (IsTypeExpression.stops_parts (by decide) (by decide) harguments dimensions hstops) ?_
  rw [search_bind]
  rcases harguments with rfl | ⟨inside, rfl⟩
  · have hangle : (trimStart ((List.replicate dimensions ['[', ']']).flatten ++ rest)).head? ≠
        some '<' := by
      cases dimensions with
      | zero =>
          rw [List.replicate_zero, List.flatten_nil, List.nil_append, hstart]
          exact hname.head?_append_ne (by decide) _
      | succ n => exact (by decide : (some '[') ≠ some '<')
    rw [List.nil_append, search_optional_of_none (search_typeArguments_eq_none hangle _)]
    exact hmany
  · have hinside : ∀ c ∈ inside, noneOf ['=', ';'] c = true := by
      intro c hc
      have hok := type.isTypeExpression.inReturnType_of_mem c (by simp [htext, hc])
      exact noneOf_of_ok hok (by decide)
    have hmiddle : '>' ∉ (List.replicate dimensions ['[', ']']).flatten ++
        ' ' :: (name ++ between) := by
      have hword : '>' ∉ name := hname.notMem (by decide)
      simp [hword, hbetween]
    have hsplit : (List.replicate dimensions ['[', ']']).flatten ++ rest =
        ((List.replicate dimensions ['[', ']']).flatten ++ ' ' :: (name ++ between)) ++
          stop :: after := by
      simp [hrest]
    rw [hsplit] at hmany
    rw [hsplit, List.cons_append, List.append_assoc, List.singleton_append]
    exact search_optional_of_some (search_typeArguments hinside hmiddle hstop hmany)

end Types

/-! ## The statement -/

/-- What follows the modifiers of a field. -/
def unmodifiedField (modifiers : List String) : Pattern FieldParts := do
  let type ← taken fieldType
  blanks1
  let name ← taken do
    skip1 isName
    let _ ← many arrayBrackets
  blanks
  let _ ← optional do
    char '='
    skip1 anything
  char ';'
  atEnd
  return { modifiers, type := type.text, name := name.text }

theorem fieldStatement_eq_bind : fieldStatement = modifiers fieldModifiers >>= unmodifiedField :=
  rfl

namespace FieldSource

/-- A name is followed by at most one space, and then by an equals sign or a
semicolon. -/
theorem exists_tail (value : Option (List Char)) :
    ∃ between stop after, tail value = between ++ stop :: after ∧
      (between = [] ∨ between = [' ']) ∧ (stop = '=' ∨ stop = ';') := by
  cases value with
  | none => exact ⟨[], ';', [], rfl, Or.inl rfl, Or.inr rfl⟩
  | some value => exact ⟨[' '], '=', ' ' :: (value ++ [';']), rfl, Or.inr rfl, Or.inl rfl⟩

theorem stops_tail {ok : Char → Bool} (hok : ∀ c ∈ [' ', ';'], ok c = false)
    (value : Option (List Char)) : Stops ok (tail value) := by
  cases value with
  | none => exact stops_cons.mpr (hok ';' (by decide))
  | some value => exact stops_cons.mpr (hok ' ' (by decide))

/-- The end of a field is read to its last character. -/
theorem search_tail {β : Type} (value : Option (List Char))
    {k : List Char → Option β} {v : β} (hk : k [] = some v) :
    (optional (do char '='; skip1 anything)).search
      (fun _ rest => (char ';').search (fun _ rest => atEnd.search (fun _ rest => k rest) rest)
        rest) (trimStart (tail value)) = some v := by
  have hend : (char ';').search (fun _ rest => atEnd.search (fun _ rest => k rest) rest) [';'] =
      some v := by
    rw [search_char_self, search_atEnd_nil]
    exact hk
  cases value with
  | none =>
      have htrim : trimStart (tail none) = [';'] := rfl
      rw [htrim, search_optional_of_none]
      · exact hend
      · rw [search_bind]
        exact search_char_of_ne (by decide) _
  | some value =>
      have htrim : trimStart (tail (some value)) = '=' :: ' ' :: (value ++ [';']) := rfl
      rw [htrim]
      apply search_optional_of_some
      rw [search_bind, search_char_self]
      refine search_skip1_of_fail rfl (fun _ _ => rfl) hend ?_
      intro x y hxy hne _
      obtain ⟨c, x, rfl⟩ := List.exists_cons_of_ne_nil hne
      have hy : y = [] := by
        have hnil := (List.cons.inj hxy).2
        exact (List.append_eq_nil_iff.mp hnil.symm).2
      rw [hy]
      rfl

theorem search_unmodifiedField (type : DeclaredType) (name : DeclaredName)
    (modifiers : List String) (value : Option (List Char)) :
    (unmodifiedField modifiers).first? (type.text ++ ' ' :: (name.text ++ tail value)) =
      some ({ modifiers, type := type.text, name := name.text }, []) := by
  obtain ⟨between, stop, after, htail, hbetween, hstop⟩ := exists_tail value
  have hangle : '>' ∉ between := by
    rcases hbetween with rfl | rfl <;> decide
  have hsquare : (trimStart (tail value)).head? ≠ some '[' := by
    cases value with
    | none => exact (by decide : some ';' ≠ some '[')
    | some value => exact (by decide : some '=' ≠ some '[')
  rw [first?, unmodifiedField, search_bind, search_taken]
  apply search_fieldType type name.isName hangle hstop (by rw [htail])
  rw [search_bind, search_blanks1_cons (by decide),
    trimStart_eq_self (name.isName.stops_isBlank_append _), search_bind, search_taken, search_bind]
  refine search_skip1_longest name.isName.ne_nil name.isName.all_name
    (stops_tail (by decide) value) ?_
  rw [search_bind]
  refine search_many_arrayBrackets 0 hsquare fun _ => ?_
  rw [search_pure, search_bind, search_blanks, search_bind]
  refine search_tail value ?_
  rw [search_pure, text_span_append, text_span_append]

/-! ### Types that could be modifiers -/

theorem takes_fieldType : fieldType.Takes (noneOf ['=', ';']) := by
  have hdotted : ∀ c, isDottedName c = true → noneOf ['=', ';'] c = true :=
    fun c hc => noneOf_of_ok hc (by decide)
  have hblank : ∀ c, isBlank c = true → noneOf ['=', ';'] c = true :=
    fun c hc => noneOf_of_ok hc (by decide)
  have hbrackets : arrayBrackets.Takes (noneOf ['=', ';']) :=
    Takes.bind (Takes.blanks hblank) fun _ => Takes.bind (Takes.char (by decide)) fun _ =>
      Takes.bind (Takes.blanks hblank) fun _ => Takes.char (by decide)
  have harguments : typeArguments.Takes (noneOf ['=', ';']) :=
    Takes.bind (Takes.blanks hblank) fun _ => Takes.bind (Takes.char (by decide)) fun _ =>
      Takes.bind (Takes.skip fun _ => id) fun _ => Takes.char (by decide)
  exact Takes.bind (Takes.skip1 hdotted) fun _ => Takes.bind harguments.optional fun _ =>
    Takes.bind hbrackets.many fun _ => Takes.pure _

/-- Where only a name stands in front of the end of a field, its type is
missing. -/
theorem search_unmodifiedField_name {β : Type} {name : List Char} (hname : IsName name)
    (modifiers : List String) (value : Option (List Char)) (k : FieldParts → List Char → Option β) :
    (unmodifiedField modifiers).search k (name ++ tail value) = none := by
  obtain ⟨between, stop, after, htail, hbetween, hstop⟩ := exists_tail value
  have hnone : noneOf ['=', ';'] stop = false ∧ isBlank stop = false ∧ isName stop = false := by
    rcases hstop with rfl | rfl <;> decide
  rw [htail, ← List.append_assoc, unmodifiedField, search_bind]
  apply takes_fieldType.taken.search_eq_none_of_stop hnone.1
  intro type rest hsuffix
  rw [search_bind]
  cases rest with
  | nil => exact search_blanks1_of_stops (stops_cons.mpr hnone.2.1) _
  | cons c rest =>
      by_cases hc : isBlank c = true
      · have hnot : c ∉ name := fun hmem => by
          rw [isBlank_eq_false_of_isName (hname.all_name c hmem)] at hc
          contradiction
        have hrest : rest = [] := by
          rcases hbetween with rfl | rfl
          · rw [List.append_nil] at hsuffix
            exact absurd (hsuffix.mem List.mem_cons_self) hnot
          · rcases List.suffix_concat_iff.mp hsuffix with hnil | ⟨more, hmore, hsuffix⟩
            · contradiction
            · cases more with
              | nil => exact (List.cons.inj hmore).2
              | cons d more =>
                  obtain ⟨rfl, -⟩ := List.cons.inj hmore
                  exact absurd (hsuffix.mem List.mem_cons_self) hnot
        rw [hrest, List.singleton_append, search_blanks1_cons hc,
          trimStart_eq_self (stops_cons.mpr hnone.2.1), search_bind, search_taken, search_bind]
        exact search_skip1_of_stops (stops_cons.mpr hnone.2.2) _
      · exact search_blanks1_of_stops (stops_cons.mpr (by simpa using hc)) _

/-- A type that was read as a modifier leaves no field, however many modifiers
follow. -/
theorem search_upTo_name {β : Type} {name : List Char} (hname : IsName name)
    (value : Option (List Char)) (k : FieldParts → List Char → Option β) (n : ℕ)
    (found : List String) :
    ((oneModifier fieldModifiers).upTo n found).search
      (fun modifiers rest => (unmodifiedField modifiers).search k rest) (name ++ tail value) =
      none := by
  refine search_upTo_eq_none (fun modifiers => search_unmodifiedField_name hname modifiers value k)
    n found ?_
  intro n found
  refine search_oneModifier_eq_none hname isName_of_mem_fieldModifiers
    (stops_tail (by decide) value) ?_
  intro word hword heq
  cases value with
  | none => exact search_skip1_of_stops (stops_cons.mpr (by decide)) _
  | some value =>
      -- the name is read as one more modifier, and the equals sign is no type
      have hequals : ∀ {ok : Char → Bool}, ok '=' = false →
          Stops ok ('=' :: ' ' :: (value ++ [';'])) := fun hok => stops_cons.mpr hok
      rw [tail, search_gap1_cons (by decide) (hequals (by decide))]
      refine search_upTo_eq_none (fun modifiers => ?_) n _ fun n found => ?_
      · rw [unmodifiedField, search_bind, search_taken, fieldType, search_bind]
        exact search_skip1_of_stops (hequals (by decide)) _
      · exact search_oneModifier_of_stops (hequals (by decide)) isName_of_mem_fieldModifiers _

theorem first?_fieldStatement (field : FieldSource) :
    fieldStatement.first? field.shape =
      some ({ modifiers := field.modifiers.reverse, type := field.type.text,
              name := field.name.text }, []) := by
  have htext : field.shape = modifierText field.modifiers ++ (field.type.text ++
      ' ' :: (field.name.text ++ tail (field.value.map fun value => outline value.text))) := by
    simp [shape, signature]
  rw [htext, fieldStatement_eq_bind, first?, search_bind]
  apply search_modifiers field.type isName_of_mem_fieldModifiers field.modifiers_known
    (field.name.isName.stops_isBlank_append _)
  · intro word _ _ n found
    exact search_upTo_name field.name.isName _ _ n found
  · exact search_unmodifiedField field.type field.name field.modifiers.reverse _

end FieldSource

/-! ## Assignments -/

/-- The start of an assignment is seen behind a type that does not end in a
dollar sign. -/
theorem accepts_assignmentStart {before name value : List Char} {c : Char}
    (hbefore : ∀ d ∈ before, noneOf ['=', '('] d = true)
    (hc : isWord c = true ∨ c = '>' ∨ c = ']') (hname : IsName name) :
    assignmentStart.accepts (before ++ c :: ' ' :: (name ++ ' ' :: '=' :: value)) = true := by
  have htrim : name ++ ' ' :: '=' :: value = trimStart (name ++ ' ' :: '=' :: value) :=
    (trimStart_eq_self (hname.stops_isBlank_append _)).symm
  rw [accepts_iff]
  refine List.ne_nil_of_mem (a := ((), value)) ?_
  refine mem_readings_bind.mpr ⟨(), _, mem_readings_skip.mpr ⟨before, rfl, hbefore⟩, ?_⟩
  refine mem_readings_bind.mpr ⟨c, _, mem_readings_one.mpr ⟨rfl, by simpa [or_assoc] using hc⟩, ?_⟩
  refine mem_readings_bind.mpr ⟨(), _, mem_readings_blanks1.mpr ⟨' ', _, rfl, by decide, htrim⟩, ?_⟩
  refine mem_readings_bind.mpr ⟨(), _, mem_readings_skip1.mpr
    ⟨name, hname.ne_nil, rfl, hname.all_name⟩, ?_⟩
  refine mem_readings_bind.mpr ⟨(), '=' :: value, mem_readings_blanks.mpr rfl, ?_⟩
  refine mem_readings_bind.mpr ⟨[], _, mem_readings_many_nil _ _, ?_⟩
  exact mem_readings_char.mpr rfl

/-- Where the start of an assignment is seen, a name stands behind a blank, and
brackets or the equals sign come next. -/
theorem exists_of_accepts_assignmentStart {s : List Char}
    (h : assignmentStart.accepts s = true) :
    ∃ before c blanks name rest, s = before ++ c :: (blanks ++ (name ++ rest)) ∧
      (∀ d ∈ before, noneOf ['=', '('] d = true) ∧
      (isWord c || c == '>' || c == ']') = true ∧
      (∀ d ∈ blanks, isBlank d = true) ∧ blanks ≠ [] ∧ IsName name ∧ '=' ∈ rest ∧
      ((trimStart rest).head? = some '[' ∨ (trimStart rest).head? = some '=') := by
  obtain ⟨⟨_, after⟩, hall⟩ := List.exists_mem_of_ne_nil _ ((accepts_iff _ _).mp h)
  obtain ⟨_, _, hskip, hfromLast⟩ := mem_readings_bind.mp hall
  obtain ⟨before, rfl, hbefore⟩ := mem_readings_skip.mp hskip
  obtain ⟨c, _, hone, hfromBlank⟩ := mem_readings_bind.mp hfromLast
  obtain ⟨rfl, hc⟩ := mem_readings_one.mp hone
  obtain ⟨_, _, hgap, hfromName⟩ := mem_readings_bind.mp hfromBlank
  obtain ⟨blank, more, rfl, hblank, rfl⟩ := mem_readings_blanks1.mp hgap
  obtain ⟨_, rest, hrun, hfromRest⟩ := mem_readings_bind.mp hfromName
  obtain ⟨name, hne, hmore, hname⟩ := mem_readings_skip1.mp hrun
  obtain ⟨_, _, htrim, hfromBrackets⟩ := mem_readings_bind.mp hfromRest
  obtain rfl := mem_readings_blanks.mp htrim
  obtain ⟨items, _, hmany, hchar⟩ := mem_readings_bind.mp hfromBrackets
  obtain rfl := mem_readings_char.mp hchar
  have htext : more = more.takeWhile isBlank ++ (name ++ rest) := by
    rw [← hmore, trimStart, List.takeWhile_append_dropWhile]
  refine ⟨before, c, blank :: more.takeWhile isBlank, name, rest, ?_, hbefore, hc, ?_,
    List.cons_ne_nil _ _, ⟨hne, hname⟩, ?_, ?_⟩
  · rw [List.cons_append, ← htext]
  · exact List.forall_mem_cons.mpr ⟨hblank, fun d hd => List.mem_takeWhile_imp hd⟩
  · have hany : ∀ (ok : Char → Bool) (d : Char), ok d = true → anything d = true :=
      fun _ _ _ => rfl
    have hbrackets : Takes (do char '['; blanks; char ']'; blanks) anything :=
      Takes.bind (Takes.char rfl) fun _ => Takes.bind (Takes.blanks (hany _)) fun _ =>
        Takes.bind (Takes.char rfl) fun _ => Takes.blanks (hany _)
    obtain ⟨taken, htaken, -⟩ := hbrackets.many _ _ hmany
    have hmem : '=' ∈ trimStart rest := by
      rw [htaken]
      simp
    exact (List.dropWhile_sublist isBlank).mem hmem
  · by_cases hsquare : (trimStart rest).head? = some '['
    · exact Or.inl hsquare
    · right
      rw [← eq_of_mem_readings_many ?_ hmany]
      · rfl
      · rw [List.eq_nil_iff_forall_not_mem]
        intro reading hreading
        obtain ⟨_, _, hchar, -⟩ := mem_readings_bind.mp hreading
        rw [mem_readings_char.mp hchar] at hsquare
        exact hsquare rfl

/-- A statement without an equals sign assigns nothing. -/
theorem accepts_assignmentStart_eq_false {s : List Char} (h : '=' ∉ s) :
    assignmentStart.accepts s = false := by
  rw [Bool.eq_false_iff]
  intro haccepts
  obtain ⟨before, c, blanks, name, rest, rfl, -, -, -, -, -, hmem, -⟩ :=
    exists_of_accepts_assignmentStart haccepts
  exact h (by simp [hmem])

/-- The character in front of the last word of a text, if that is a name. -/
def beforeWord (s : List Char) : Option Char :=
  (trimStart ((trimStart s.reverse).dropWhile isName)).head?

theorem beforeWord_append {blanks name after : List Char} {c : Char} (before : List Char)
    (hc : isBlank c = false) (hblanks : ∀ d ∈ blanks, isBlank d = true) (hne : blanks ≠ [])
    (hname : IsName name) (hafter : ∀ d ∈ after, isBlank d = true) :
    beforeWord (before ++ c :: (blanks ++ (name ++ after))) = some c := by
  have hreverse : (before ++ c :: (blanks ++ (name ++ after))).reverse =
      after.reverse ++ (name.reverse ++ (blanks.reverse ++ c :: before.reverse)) := by
    simp
  have hgap : ∀ d ∈ blanks.reverse, isBlank d = true := fun d hd =>
    hblanks d (List.mem_reverse.mp hd)
  obtain ⟨d, more, hd⟩ := List.exists_cons_of_ne_nil (List.reverse_ne_nil_iff.mpr hne)
  have hstop : isName d = false := by
    by_contra hnot
    have hblank := hgap d (by simp [hd])
    rw [isBlank_eq_false_of_isName (by simpa using hnot)] at hblank
    contradiction
  have hrun : (blanks.reverse ++ c :: before.reverse).dropWhile isName =
      blanks.reverse ++ c :: before.reverse := by
    rw [hd, List.cons_append, List.dropWhile_cons_of_neg (by simp [hstop])]
  rw [beforeWord, hreverse,
    trimStart_append_of_blank fun d hd => hafter d (List.mem_reverse.mp hd),
    trimStart_eq_self (hname.reverse.stops_isBlank_append _),
    List.dropWhile_append_of_pos hname.reverse.all_name, hrun, trimStart_append_of_blank hgap,
    trimStart_eq_self (stops_cons.mpr hc)]
  rfl

/-- Behind a dollar sign no assignment is seen. -/
theorem accepts_assignmentStart_dollar {before name : List Char} (hname : IsName name)
    (hbefore : ∀ d ∈ before, isDottedName d = true ∨ isBlank d = true) (value : List Char) :
    assignmentStart.accepts (before ++ '$' :: ' ' :: (name ++ ' ' :: '=' :: value)) = false := by
  rw [Bool.eq_false_iff]
  intro haccepts
  obtain ⟨front, c, blanks, word, rest, htext, hfront, hc, hblanks, hne, hword, -, hnext⟩ :=
    exists_of_accepts_assignmentStart haccepts
  have hwhole : ∀ d ∈ before ++ '$' :: ([' '] ++ (name ++ [' '])),
      isDottedName d = true ∨ isBlank d = true := by
    refine List.forall_mem_append.mpr ⟨hbefore, List.forall_mem_cons.mpr ⟨Or.inl (by decide),
      List.forall_mem_append.mpr ⟨by decide, List.forall_mem_append.mpr ⟨?_, by decide⟩⟩⟩⟩
    intro d hd
    exact Or.inl (isDottedName_of_isName (hname.all_name d hd))
  have hequals : '=' ∉ front ++ c :: (blanks ++ word) := by
    have hfront' : '=' ∉ front := fun hmem => absurd (hfront '=' hmem) (by decide)
    have hc' : c ≠ '=' := by
      rintro rfl
      exact absurd hc (by decide)
    have hblanks' : '=' ∉ blanks := fun hmem => absurd (hblanks '=' hmem) (by decide)
    have hword' : '=' ∉ word := hword.notMem (by decide)
    simp [hfront', hc'.symm, hblanks', hword']
  have hsplit : (front ++ c :: (blanks ++ word)) ++ rest =
      (before ++ '$' :: ([' '] ++ (name ++ [' ']))) ++ '=' :: value := by
    simpa using htext.symm
  obtain ⟨z, hz, rfl⟩ := exists_of_append_eq_append_cons hequals hsplit
  by_cases hblank : trimStart z = []
  · -- only blanks are left in front of the equals sign, so the two names are the same
    have hafter : ∀ d ∈ z, isBlank d = true := List.dropWhile_eq_nil_iff.mp hblank
    have hcblank : isBlank c = false := by
      simp only [Bool.or_eq_true, beq_iff_eq] at hc
      rcases hc with (hc | rfl) | rfl
      · exact isBlank_eq_false_of_isWord hc
      · decide
      · decide
    have hfirst := beforeWord_append front hcblank hblanks hne hword hafter
    have hsecond := beforeWord_append before (by decide : isBlank '$' = false)
      (by decide : ∀ d ∈ [' '], isBlank d = true) (by decide) hname
      (by decide : ∀ d ∈ [' '], isBlank d = true)
    rw [hz, List.append_assoc, List.cons_append, List.append_assoc, hfirst] at hsecond
    rw [Option.some.inj hsecond] at hc
    exact absurd hc (by decide)
  · obtain ⟨d, more, hd⟩ := List.exists_cons_of_ne_nil hblank
    have hmem : d ∈ before ++ '$' :: ([' '] ++ (name ++ [' '])) := by
      rw [hz]
      have hdz : d ∈ trimStart z := by simp [hd]
      exact List.mem_append_right _ ((List.dropWhile_sublist isBlank).mem hdz)
    have hhead : (trimStart (z ++ '=' :: value)).head? = some d := by
      rw [head?_trimStart_append, hd]
      rfl
    rw [hhead, Option.some.injEq, Option.some.injEq] at hnext
    have hplain := hwhole d hmem
    rcases hnext with rfl | rfl
    · exact absurd hplain (by decide)
    · exact absurd hplain (by decide)

/-! ## Fields -/

/-- A type and a name are displayed as they are written. -/
theorem declarator_eq (type : DeclaredType) (name : DeclaredName) :
    declarator type.text name.text = (name.text, type.text) := by
  have htype := type.isTypeExpression.tidy
  have hdots : "...".toList.isPrefixOf? name.text = none := by
    rw [Option.eq_none_iff_forall_ne_some]
    intro rest hrest
    have hdot : '.' ∉ name.text := name.isName.notMem (by decide)
    rw [← List.isPrefixOf?_eq_some_iff_append_eq.mp hrest] at hdot
    exact hdot (by simp)
  have hcount : name.text.count '[' = 0 := List.count_eq_zero.mpr (name.isName.notMem (by decide))
  simp only [declarator, name.isName.trimmed.trim_eq, htype.trimmed.trim_eq, hdots, hcount,
    List.replicate_zero, List.flatten_nil, List.append_nil, htype.display_eq,
    name.isName.takeWhile_ne_eq_self (by decide : isName '[' = false)]

namespace FieldSource

/-- The value of a field is all that can have parentheses. -/
theorem contains_shape (field : FieldSource) {c : Char} (hc : c = '(' ∨ c = ')') :
    field.shape.contains c = field.value.any fun value => (outline value.text).contains c := by
  have hsignature : c ∉ signature field.modifiers field.type field.name := by
    intro hmem
    have hok := inReturnType_of_mem_signature field.isName_of_mem_modifiers field.type field.name
      c hmem
    rcases hc with rfl | rfl
    · exact absurd hok (by decide)
    · exact absurd hok (by decide)
  have hother : c ≠ ' ' ∧ c ≠ '=' ∧ c ≠ ';' := by
    rcases hc with rfl | rfl <;> decide
  cases hvalue : field.value with
  | none => simp [shape, hvalue, tail, hsignature, hother]
  | some value => simp [shape, hvalue, tail, hsignature, hother]

theorem accepts_shape (field : FieldSource) {value : ValueSource}
    (hvalue : field.value = some value) :
    assignmentStart.accepts field.shape = (field.type.text.getLast? != some '$') := by
  obtain ⟨init, c, htype, hlast⟩ := field.type.isTypeExpression.exists_last
  have htext : field.shape = (modifierText field.modifiers ++ init) ++ c :: ' ' ::
      (field.name.text ++ ' ' :: '=' :: (' ' :: (outline value.text ++ [';']))) := by
    simp [shape, signature, hvalue, tail, htype]
  have hmem : ∀ d ∈ modifierText field.modifiers ++ init,
      d ∈ signature field.modifiers field.type field.name := by
    intro d hd
    rw [signature, htype]
    rcases List.mem_append.mp hd with hd | hd
    · exact List.mem_append_left _ hd
    · simp [hd]
  by_cases hc : c = '$'
  · subst hc
    have hdollar : field.type.text.getLast? = some '$' := by
      rw [htype, List.getLast?_concat]
    have hdotted := field.type.isTypeExpression.all_dotted_of_dollar hdollar
    rw [htext, hdollar, accepts_assignmentStart_dollar field.name.isName]
    · rfl
    · intro d hd
      exact dotted_or_blank_of_mem_signature field.isName_of_mem_modifiers hdotted field.name d
        (hmem d hd)
  · rw [htext, htype, List.getLast?_concat, accepts_assignmentStart ?_ ?_ field.name.isName]
    · simp [hc]
    · intro d hd
      have hok := inReturnType_of_mem_signature field.isName_of_mem_modifiers field.type
        field.name d (hmem d hd)
      exact noneOf_of_ok hok (by decide)
    · rcases hlast with heq | heq | ⟨hname, -⟩
      · exact Or.inr (Or.inl heq)
      · exact Or.inr (Or.inr heq)
      · left
        simpa [isName, hc] using hname

/-- A field is read back from its shape, unless it is overlooked. -/
theorem field?_shape (owner : TypeKind) (field : FieldSource) :
    field? owner field.shape =
      if field.isOverlooked then none else some (field.declared owner) := by
  have hcondition : (field.shape.contains '(' && field.shape.contains ')' &&
      !assignmentStart.accepts field.shape) = field.isOverlooked := by
    rw [contains_shape field (Or.inl rfl), contains_shape field (Or.inr rfl), isOverlooked]
    cases hvalue : field.value with
    | none => simp
    | some value =>
        rw [field.accepts_shape hvalue]
        simp [bne, Bool.and_comm]
  have htype : String.ofList field.type.text ∉ nonFieldTypes := by
    intro hmem
    have hreserved : ∀ word ∈ nonFieldTypes, word ∈ reservedWords := by decide
    exact field.type.ne_toList (hreserved _ hmem) (String.toList_ofList).symm
  rw [field?, hcondition, first?_fieldStatement]
  by_cases hoverlooked : field.isOverlooked = true
  · simp [hoverlooked]
  · simp [hoverlooked, htype, declarator_eq, memberVisibility_reverse, declared, Bool.or_assoc]

end FieldSource

end ClassAtlas.Code
