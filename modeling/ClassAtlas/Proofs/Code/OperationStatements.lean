import ClassAtlas.Proofs.Code.FieldStatements

/-!
# Operations as statements

The shape of an operation is read back part by part. Its return type is read
reluctantly, and every shorter reading of it leaves more than one word in front
of the parenthesis. The parameters are found between the commas outside
brackets, and the last word of each is its name.

No operation is taken for a field, since it has parentheses and no equals sign,
and a field that is overlooked is no operation either.
-/

namespace ClassAtlas.Code

open ClassAtlas.Text Pattern TypeText
open Diagram (IsName)
open Source (outline)

/-! ## Heads -/

/-- What follows the modifiers of an operation, up to its parameters. -/
def unmodifiedHead (modifiers : List String) : Pattern OperationHead := do
  let _ ← optional do
    char '<'
    skipFew (noneOf [';', '{', '}', '(', ')'])
    char '>'
    gap1
  let returnType ← runFew1 inReturnType
  blanks1
  let name ← run1 isName
  blanks
  char '('
  return { modifiers, returnType := returnType.text, name := name.text }

theorem operationHead_eq_bind :
    operationHead = modifiers operationModifiers >>= unmodifiedHead :=
  rfl

section ReturnTypes

variable {β : Type}

/-- Behind a blank in a type comes more than the name of the operation. -/
theorem search_shorterType (type : DeclaredType) (name : DeclaredName) {x y : List Char}
    (htype : type.text = x ++ y) (hy : y ≠ []) (rest : List Char)
    (k : Span → List Char → Option β) :
    blanks1.search (fun _ t => (run1 isName).search
      (fun span t => blanks.search (fun _ t => (char '(').search (fun _ t => k span t) t) t) t)
      (y ++ ' ' :: (name.text ++ '(' :: rest)) = none := by
  obtain ⟨c, y, rfl⟩ := List.exists_cons_of_ne_nil hy
  rw [List.cons_append]
  by_cases hc : isBlank c = true
  · have hmore : trimStart y ≠ [] := by
      intro hnil
      have hblank : ∀ d ∈ c :: y, isBlank d = true :=
        List.forall_mem_cons.mpr ⟨hc, List.dropWhile_eq_nil_iff.mp hnil⟩
      obtain ⟨d, more, hd⟩ := List.exists_cons_of_ne_nil (List.reverse_ne_nil_iff.mpr hy)
      have hlast := type.isTypeExpression.tidy.trimmed.2
      rw [htype, List.reverse_append, hd, List.cons_append, stops_cons,
        hblank d (List.mem_reverse.mp (by simp [hd]))] at hlast
      contradiction
    have hword : Stops isBlank (name.text ++ '(' :: rest) := name.isName.stops_isBlank_append _
    have htrim : trimStart (y ++ ' ' :: (name.text ++ '(' :: rest)) =
        trimStart y ++ ' ' :: (name.text ++ '(' :: rest) := by
      rw [trimStart, List.dropWhile_append, ← trimStart]
      simp [hmore]
    rw [search_blanks1_cons hc, htrim]
    apply search_run1_eq_none
    intro a b hab ha hname
    -- a name ends at the space in front of the operation's name at the latest
    have hspace : ' ' ∉ a := fun hmem => absurd (hname ' ' hmem) (by decide)
    obtain ⟨z, hz, rfl⟩ := exists_of_append_eq_append_cons hspace hab.symm
    rw [search_blanks]
    refine search_char_of_ne ?_ _
    rw [head?_trimStart_append, trimStart_space, trimStart_eq_self hword]
    intro hhead
    rcases Option.or_eq_some_iff.mp hhead with hz' | ⟨-, hname⟩
    · have hmem : '(' ∈ y := by
        refine (List.dropWhile_sublist isBlank).mem ?_
        rw [← trimStart, hz]
        exact List.mem_append_right _ ((List.dropWhile_sublist isBlank).mem
          (List.mem_of_mem_head? hz'))
      have hok := type.isTypeExpression.inReturnType_of_mem '(' (by simp [htype, hmem])
      exact absurd hok (by decide)
    · exact name.isName.head?_append_ne (by decide) _ hname
  · exact search_blanks1_of_stops (stops_cons.mpr (by simpa using hc)) _

theorem first?_unmodifiedHead (type : DeclaredType) (name : DeclaredName)
    (modifiers : List String) (rest : List Char) :
    (unmodifiedHead modifiers).first? (type.text ++ ' ' :: (name.text ++ '(' :: rest)) =
      some ({ modifiers, returnType := type.text, name := name.text }, rest) := by
  have hopen : Stops isBlank ('(' :: rest) := stops_cons.mpr (by decide)
  rw [first?, unmodifiedHead, search_bind, search_optional_of_none, search_bind]
  · refine search_runFew1_of_fail type.isTypeExpression.tidy.ne_nil
      type.isTypeExpression.inReturnType_of_mem ?_ ?_
    · rw [search_bind, search_blanks1_cons (by decide),
        trimStart_eq_self (name.isName.stops_isBlank_append _), search_bind]
      refine search_run1_longest name.isName.ne_nil name.isName.all_name
        (stops_cons.mpr (by decide)) ?_
      rw [search_bind, search_blanks, trimStart_eq_self hopen, search_bind, search_char_self,
        search_pure, text_span_append, text_span_append]
    · intro x y htype hx hy
      simp only [search_bind, search_pure]
      exact search_shorterType type name htype hy rest _
  · rw [search_bind]
    exact search_char_of_ne (type.head?_append_ne (by decide) _) _

theorem OperationSource.first?_operationHead (operation : OperationSource) :
    operationHead.first? operation.shape =
      some ({ modifiers := operation.modifiers.reverse, returnType := operation.returnType.text,
              name := operation.name.text },
        operation.parameterText ++ ')' :: tail (operation.body.map fun _ => [])) := by
  have hreserved : ∀ word ∈ operationModifiers, word ∈ reservedWords := by decide
  have htext : operation.shape = modifierText operation.modifiers ++ (operation.returnType.text ++
      ' ' :: (operation.name.text ++ '(' :: (operation.parameterText ++
        ')' :: tail (operation.body.map fun _ => [])))) := by
    simp [shape, signature]
  rw [htext, operationHead_eq_bind, first?, search_bind]
  apply search_modifiers operation.returnType isName_of_mem_operationModifiers
    operation.modifiers_known
    (operation.name.isName.stops_isBlank_append _)
  · intro word hword heq
    exact absurd heq (operation.returnType.ne_toList (hreserved word hword))
  · exact first?_unmodifiedHead operation.returnType operation.name operation.modifiers.reverse _

end ReturnTypes

/-! ## Parameters -/

theorem stripAnnotations_eq_self {s : List Char} (hs : Stops isBlank s)
    (hat : s.head? ≠ some '@') : Source.stripAnnotations s = s := by
  have hname : Source.afterAnnotation? s = none := by
    cases s with
    | nil => rfl
    | cons c rest =>
        have hc : c ≠ '@' := by simpa using hat
        simp [Source.afterAnnotation?, Source.afterAnnotationName?, hc]
  rw [Source.stripAnnotations, trimStart_eq_self hs, Source.dropAnnotations]
  split
  next rest hrest => simp [hname] at hrest
  next => rfl

namespace ParameterSource

variable (parameter : ParameterSource)

theorem tidy_text : Tidy parameter.text :=
  parameter.type.isTypeExpression.tidy.append_append
    (IsQualifiedName.name parameter.name.isName).tidy [' '] (by decide) (by decide) (by decide)

theorem whole_text : Whole ',' 0 parameter.text := by
  have hname : ∀ c ∈ ' ' :: parameter.name.text, depthChange c = 0 ∧ c ≠ ',' :=
    List.forall_mem_cons.mpr ⟨by decide, (IsQualifiedName.name parameter.name.isName).flat⟩
  have hend : Whole ',' 0 [] := rfl
  have hrest := hend.append hname
  rw [List.append_nil] at hrest
  exact parameter.type.isTypeExpression.whole_append (Int.le_refl 0) hrest

/-- The words of a parameter are those of its type and its name. -/
theorem words_text : words parameter.text = words parameter.type.text ++ [parameter.name.text] := by
  have hname := parameter.name.isName
  rw [text, words_append_space, words_eq_singleton hname.ne_nil fun c hc =>
    isBlank_eq_false_of_isName (hname.all_name c hc)]

theorem parameter?_text : parameter? parameter.text = some parameter.declared := by
  have hstrip : Source.stripAnnotations parameter.text = parameter.text := by
    apply stripAnnotations_eq_self parameter.tidy_text.stops_isBlank
    exact parameter.type.head?_append_ne (by decide) _
  have hkept : (words parameter.text).filter (· != "final".toList) = words parameter.text := by
    rw [List.filter_eq_self]
    intro word hword
    rw [bne_iff_ne]
    rintro rfl
    have hfinal : String.ofList "final".toList ∈ reservedWords := by decide
    rw [words_text, List.mem_append, List.mem_singleton] at hword
    rcases hword with hword | hword
    · exact parameter.type.not_reserved _ hword hfinal
    · exact parameter.name.not_reserved (hword ▸ hfinal)
  have hjoin := parameter.type.isTypeExpression.tidy.intercalate_words
  have hwords : words parameter.type.text ≠ [] := by
    intro hnil
    rw [hnil] at hjoin
    exact parameter.type.isTypeExpression.tidy.ne_nil hjoin.symm
  have hname := parameter.name.isName.ne_nil
  rw [parameter?, hstrip, hkept, words_text]
  simp [hwords, hjoin, declarator_eq, hname, declared]

end ParameterSource

namespace OperationSource

variable (operation : OperationSource)

theorem parameters_parameterText :
    Code.parameters operation.parameterText =
      operation.parameters.map ParameterSource.declared := by
  have hparts : splitTopLevel ',' operation.parameterText =
      operation.parameters.map ParameterSource.text := by
    apply splitTopLevel_intercalate
    · rintro part hpart
      obtain ⟨parameter, -, rfl⟩ := List.mem_map.mp hpart
      exact parameter.whole_text
    · rintro part hpart
      obtain ⟨parameter, -, rfl⟩ := List.mem_map.mp hpart
      exact parameter.tidy_text.trimmed
    · rintro part hpart
      obtain ⟨parameter, -, rfl⟩ := List.mem_map.mp hpart
      exact parameter.tidy_text.ne_nil
  rw [Code.parameters, hparts, List.filterMap_map]
  have hread : parameter? ∘ ParameterSource.text = some ∘ ParameterSource.declared :=
    funext fun parameter => parameter.parameter?_text
  rw [hread, List.filterMap_eq_map]

/-- An operation is read back from its shape, unless it is a constructor. -/
theorem operation?_shape {ownerName : List Char} (owner : TypeKind)
    (hname : operation.name.text ≠ ownerName) :
    operation? ownerName owner operation.shape = some (operation.declared owner) := by
  have hreserved :
      String.ofList ((words operation.returnType.text).head?.getD []) ∉ nonReturnTypes := by
    have hwords : ∀ word ∈ nonReturnTypes, word ∈ reservedWords := by decide
    intro hmem
    cases hreturn : words operation.returnType.text with
    | nil =>
        rw [hreturn] at hmem
        exact absurd hmem (by decide)
    | cons word more =>
        rw [hreturn] at hmem
        exact operation.returnType.not_reserved word (by simp [hreturn]) (hwords _ hmem)
  have hblock : Source.splitBlock? '(' ')' ('(' :: (operation.parameterText ++
      ')' :: tail (operation.body.map fun _ => []))) =
      some (operation.parameterText, tail (operation.body.map fun _ => [])) := by
    apply Source.splitBlock?_append (by decide)
    intro c hc
    have hok := operation.inReturnType_of_mem_parameterText c hc
    have hnot : c ∉ ['"', '\'', '(', ')'] := notMem_of_ok hok (by decide)
    simpa [Source.Zone.isQuote, and_assoc] using hnot
  have htail : operationTail.accepts (tail (operation.body.map fun _ => [])) = true ∧
      ((trimEnd (tail (operation.body.map fun _ => []))).getLast? == some '}') =
        operation.body.isSome := by
    cases operation.body with
    | none => decide
    | some body =>
        change operationTail.accepts [' ', '{', '}'] = true ∧
          ((trimEnd [' ', '{', '}']).getLast? == some '}') = true
        decide
  rw [operation?, first?_operationHead]
  simp [-Option.isNone_iff_eq_none, hreserved, hblock, htail, hname, parameters_parameterText,
    memberVisibility_reverse, operation.returnType.isTypeExpression.tidy.display_eq, declared,
    Bool.and_assoc]

theorem field?_shape_eq_none (owner : TypeKind) : field? owner operation.shape = none := by
  have hequals : '=' ∉ operation.shape := by
    have hsignature : '=' ∉ signature operation.modifiers operation.returnType operation.name :=
      fun hmem => absurd (inReturnType_of_mem_signature operation.isName_of_mem_modifiers
        operation.returnType operation.name '=' hmem) (by decide)
    have hparameters : '=' ∉ operation.parameterText := fun hmem =>
      absurd (operation.inReturnType_of_mem_parameterText '=' hmem) (by decide)
    have htail : '=' ∉ tail (operation.body.map fun _ => []) := by
      cases operation.body with
      | none => decide
      | some body => exact (by decide : '=' ∉ [' ', '{', '}'])
    simp [shape, hsignature, hparameters, htail]
  have hopen : operation.shape.contains '(' = true := by simp [shape]
  have hclose : operation.shape.contains ')' = true := by simp [shape]
  rw [field?, hopen, hclose, accepts_assignmentStart_eq_false hequals]
  rfl

end OperationSource

/-! ## Overlooked fields -/

theorem takes_modifiers {choices : List String} (hnames : ∀ word ∈ choices, IsName word.toList) :
    (modifiers choices).Takes (noneOf ['=']) := by
  have hblank : ∀ c, isBlank c = true → noneOf ['='] c = true :=
    fun c hc => noneOf_of_ok hc (by decide)
  have hword : ∀ word ∈ choices, ∀ c ∈ word.toList, noneOf ['='] c = true := by
    intro word hword c hc
    exact noneOf_of_ok ((hnames word hword).all_name c hc) (by decide)
  exact Takes.many (Takes.bind (Takes.keyword hword) fun _ =>
    Takes.bind (Takes.skip1 hblank) fun _ => Takes.pure _)

/-- Without a parenthesis or an angle bracket in front of the first equals sign
there is no operation. -/
theorem first?_operationHead_eq_none {before : List Char} (hopen : '(' ∉ before)
    (hangle : '<' ∉ before) (after : List Char) :
    operationHead.first? (before ++ '=' :: after) = none := by
  have hhead : ∀ {d : Char} {rest : List Char}, d ∉ before → d ≠ '=' → rest <:+ before →
      (rest ++ '=' :: after).head? ≠ some d := by
    intro d rest hd hne hsuffix
    cases rest with
    | nil => simpa using hne.symm
    | cons c rest =>
        have hc : c ∈ before := hsuffix.mem List.mem_cons_self
        intro hhead
        exact hd (Option.some.inj hhead ▸ hc)
  have hblank : ∀ c, isBlank c = true → noneOf ['='] c = true :=
    fun c hc => noneOf_of_ok hc (by decide)
  have hstop : noneOf ['='] '=' = false := by decide
  -- no part but a list of type parameters gets past the equals sign
  rw [operationHead_eq_bind, first?, search_bind]
  apply (takes_modifiers isName_of_mem_operationModifiers).search_eq_none_of_stop hstop
  intro modifiers first hfirst
  rw [unmodifiedHead, search_bind, search_optional_of_none, search_bind]
  · apply (Takes.runFew1 fun c hc => noneOf_of_ok hc (by decide)).search_eq_none_of_stop hstop
    intro returnType second hsecond
    rw [search_bind]
    apply (Takes.blanks1 hblank).search_eq_none_of_stop hstop
    intro _ third hthird
    rw [search_bind]
    apply (Takes.run1 fun c hc => noneOf_of_ok hc (by decide)).search_eq_none_of_stop hstop
    intro name fourth hfourth
    rw [search_bind]
    apply (Takes.blanks hblank).search_eq_none_of_stop hstop
    intro _ fifth hfifth
    have hsuffix := hfifth.trans (hfourth.trans (hthird.trans (hsecond.trans hfirst)))
    rw [search_bind]
    exact search_char_of_ne (hhead hopen (by decide) hsuffix) _
  · rw [search_bind]
    exact search_char_of_ne (hhead hangle (by decide) hfirst) _

/-- An overlooked field is not taken for an operation. -/
theorem FieldSource.operation?_shape_eq_none (field : FieldSource) (h : field.isOverlooked = true)
    (ownerName : List Char) (owner : TypeKind) : operation? ownerName owner field.shape = none := by
  rw [isOverlooked, Bool.and_eq_true, beq_iff_eq, Option.any_eq_true] at h
  obtain ⟨hlast, value, hvalue, -⟩ := h
  have hdotted := field.type.isTypeExpression.all_dotted_of_dollar hlast
  have htext : field.shape = (signature field.modifiers field.type field.name ++ [' ']) ++
      '=' :: ' ' :: (outline value.text ++ [';']) := by
    simp [shape, hvalue, tail]
  have hbefore : ∀ c ∈ signature field.modifiers field.type field.name ++ [' '],
      isDottedName c = true ∨ isBlank c = true :=
    List.forall_mem_append.mpr ⟨dotted_or_blank_of_mem_signature field.isName_of_mem_modifiers
      hdotted field.name, by decide⟩
  have hopen : '(' ∉ signature field.modifiers field.type field.name ++ [' '] := fun hmem =>
    absurd (hbefore '(' hmem) (by decide)
  have hangle : '<' ∉ signature field.modifiers field.type field.name ++ [' '] := fun hmem =>
    absurd (hbefore '<' hmem) (by decide)
  rw [htext, operation?, first?_operationHead_eq_none hopen hangle]
  rfl

/-! ## Members -/

/-- The shape of a member is read as what the member declares. -/
theorem MemberSource.member?_shape (member : MemberSource) {ownerName : List Char}
    (owner : TypeKind) (hname : member.operationName? ≠ some ownerName) :
    member? ownerName owner member.shape = member.declared? owner := by
  cases member with
  | field source =>
      rw [shape, member?, source.field?_shape, declared?]
      by_cases h : source.isOverlooked = true
      · simp [h, source.operation?_shape_eq_none]
      · simp [h]
  | operation source =>
      have hconstructor : source.name.text ≠ ownerName := by simpa [operationName?] using hname
      rw [shape, member?, source.field?_shape_eq_none, source.operation?_shape owner hconstructor]
      rfl

end ClassAtlas.Code
