import ClassAtlas.Diagram.Member
import ClassAtlas.Diagram.Render
import ClassAtlas.Proofs.Assembly.Nodes
import ClassAtlas.Proofs.Diagram.Readable

/-!
# Reading member lines back

The line that is written for an attribute or an operation is read as the same
attribute or operation. An attribute line has no parenthesis and so is not
taken for an operation; in an operation line the last closing parenthesis ends
the parameters, since no type after it has one.
-/

namespace ClassAtlas.Diagram

open ClassAtlas.Text Pattern TypeText

variable {β : Type}

/-! ## What stands in front of a name -/

/-- The text of tags. -/
def tagText (words : List String) : List Char :=
  words.flatMap fun word => '{' :: (word.toList ++ ['}', ' '])

/-- The words that can stand in braces. -/
def IsTag (word : String) : Prop :=
  word.toList ≠ [] ∧ ∀ c ∈ word.toList, isWord c = true

theorem stops_isBlank_tagText {words : List String} {rest : List Char}
    (hrest : Stops isBlank rest) : Stops isBlank (tagText words ++ rest) := by
  cases words with
  | nil => exact hrest
  | cons word words => exact stops_cons.mpr (by decide)

theorem search_bracedWord {word : String} (hword : IsTag word)
    (k : String → List Char → Option β) {v : β} {rest : List Char}
    (hrest : Stops isBlank rest) (hk : k word rest = some v) :
    bracedWord.search k ('{' :: (word.toList ++ ['}', ' '] ++ rest)) = some v := by
  simp only [bracedWord, search_bind, search_char_self, search_pure, List.append_assoc]
  refine search_run1_longest hword.1 hword.2 (stops_cons.mpr (by decide)) ?_
  rw [List.cons_append, search_char_self, search_blanks, List.cons_append, List.nil_append,
    trimStart_space, trimStart_eq_self hrest, text_span_append, String.ofList_toList]
  exact hk

theorem search_upTo_bracedWord {words : List String} (hwords : ∀ word ∈ words, IsTag word)
    {k : List String → List Char → Option β} {v : β} {rest : List Char}
    (hblank : Stops isBlank rest) (hbrace : rest.head? ≠ some '{')
    {n : ℕ} (hn : words.length ≤ n) {items : List String}
    (hk : k (words.reverse ++ items) rest = some v) :
    (bracedWord.upTo n items).search k (tagText words ++ rest) = some v := by
  induction words generalizing n items with
  | nil =>
      cases n with
      | zero => exact hk
      | succ n =>
          have hnone : ∀ k' : String → List Char → Option β,
              bracedWord.search k' (tagText [] ++ rest) = none := by
            intro k'
            simp only [bracedWord, search_bind]
            exact search_char_of_ne hbrace _
          rw [search_upTo_succ, hnone, Option.none_or]
          exact hk
  | cons word words ih =>
      cases n with
      | zero => contradiction
      | succ n =>
          obtain ⟨hword, hwords⟩ := List.forall_mem_cons.mp hwords
          have hmore : (bracedWord.upTo n (word :: items)).search k (tagText words ++ rest) =
              some v := by
            refine ih hwords (Nat.le_of_succ_le_succ hn) ?_
            rw [List.reverse_cons, List.append_assoc] at hk
            exact hk
          have htext : tagText (word :: words) ++ rest =
              '{' :: (word.toList ++ ['}', ' '] ++ (tagText words ++ rest)) := by
            simp [tagText]
          rw [search_upTo_succ, htext,
            search_bracedWord hword _ (stops_isBlank_tagText hblank) hmore, Option.some_or]

theorem length_le_length_tagText (words : List String) :
    words.length ≤ (tagText words).length := by
  induction words with
  | nil => exact Nat.le_refl _
  | cons word words ih =>
      simp only [tagText, List.flatMap_cons, List.length_append, List.length_cons] at ih ⊢
      omega

theorem search_tags {words : List String} (hwords : ∀ word ∈ words, IsTag word)
    {k : List String → List Char → Option β} {v : β} {rest : List Char}
    (hblank : Stops isBlank rest) (hbrace : rest.head? ≠ some '{')
    (hk : k words.reverse rest = some v) :
    tags.search k (tagText words ++ rest) = some v := by
  refine search_upTo_bracedWord hwords hblank hbrace ?_ ?_
  · have := length_le_length_tagText words
    rw [List.length_append]
    omega
  · rw [List.append_nil]
    exact hk

/-- Neither a parenthesis nor a line break stands in front of a name. -/
theorem notMem_memberStart {words : List String} (hwords : ∀ word ∈ words, IsTag word)
    (visibility : Visibility) {d : Char} (hd : d = '(' ∨ d = '\n') :
    d ∉ visibility.symbol :: tagText words := by
  have hsign : d ≠ visibility.symbol := by
    rcases hd with rfl | rfl <;> cases visibility <;> decide
  have hword : isWord d = false := by
    rcases hd with rfl | rfl <;> decide
  have hbraces : d ∉ ['{', '}', ' '] := by
    rcases hd with rfl | rfl <;> decide
  rw [List.mem_cons, not_or]
  refine ⟨hsign, ?_⟩
  intro hmem
  obtain ⟨word, hin, hmem⟩ := List.mem_flatMap.mp hmem
  simp only [List.mem_cons, List.mem_append, List.not_mem_nil, or_false, not_or] at hmem hbraces
  rcases hmem with hopen | hmem | hclose | hspace
  · exact hbraces.1 hopen
  · rw [(hwords word hin).2 d hmem] at hword
    contradiction
  · exact hbraces.2.1 hclose
  · exact hbraces.2.2 hspace

/-- The visibility sign and the tags in front of a name. -/
theorem search_memberStart {words : List String} (hwords : ∀ word ∈ words, IsTag word)
    (visibility : Visibility) {k : MemberStart → List Char → Option β} {v : β}
    {name rest : List Char} (hname : IsName name)
    (hk : k ⟨visibility, words.reverse⟩ (name ++ rest) = some v) :
    memberStart.search k (visibility.symbol :: (tagText words ++ (name ++ rest))) =
      some v := by
  have hsign : isVisibilitySign visibility.symbol = true := by
    cases visibility <;> rfl
  have hblank := hname.stops_isBlank_append rest
  simp only [memberStart, search_bind, search_pure]
  apply search_optional_of_some
  rw [search_one_of_ok hsign, search_blanks,
    trimStart_eq_self (stops_isBlank_tagText hblank)]
  refine search_tags hwords hblank (hname.head?_append_ne (by decide) rest) ?_
  rw [Visibility.ofSymbol_symbol]
  exact hk

/-- The text that ends a line, after a colon. -/
theorem search_afterColon {text : List Char} (hne : text ≠ []) (hblank : Stops isBlank text)
    (hnewline : '\n' ∉ text) {k : Span → List Char → Option β} {v : β}
    (hk : k ⟨text, []⟩ [] = some v) :
    afterColon.search k (':' :: ' ' :: text) = some v := by
  have hline : ∀ c ∈ text, inLine c = true := by
    intro c hc
    rw [inLine, bne_iff_ne]
    rintro rfl
    exact hnewline hc
  simp only [afterColon, search_bind, search_char_self, gap]
  refine search_skip_longest (a := [' ']) (by decide) hblank ?_
  have hrun := search_run1_longest (b := []) hne hline (stops_nil _)
    (by rw [List.append_nil]; exact hk)
  rwa [List.append_nil] at hrun

/-- The words in the tags of a member: `static`, and one that only members of
its kind can have. -/
def tagWords (isStatic : Bool) (word : String) (on : Bool) : List String :=
  (if isStatic then ["static"] else []) ++ if on then [word] else []

theorem isTag_of_mem_tagWords {word : String} (hword : IsTag word) (isStatic on : Bool) :
    ∀ other ∈ tagWords isStatic word on, IsTag other := by
  have hstatic : IsTag "static" := ⟨by decide, by decide⟩
  unfold tagWords
  cases isStatic <;> cases on <;> simp [hstatic, hword]

theorem toList_tag (word : String) (on : Bool) :
    (tag word on).toList = tagText (if on then [word] else []) := by
  cases on <;> simp [tag, tagText]

theorem tagText_append (words more : List String) :
    tagText (words ++ more) = tagText words ++ tagText more :=
  List.flatMap_append

/-! ## Attribute lines -/

/-- The words in the tags of an attribute. -/
def fieldTags (field : Field) : List String :=
  tagWords field.isStatic "readonly" field.isReadonly

theorem isTag_of_mem_fieldTags (field : Field) : ∀ word ∈ fieldTags field, IsTag word :=
  isTag_of_mem_tagWords ⟨by decide, by decide⟩ field.isStatic field.isReadonly

theorem toList_fieldText (node : FieldNode) :
    (fieldText node).toList = node.field.visibility.symbol :: (tagText (fieldTags node.field) ++
      (node.field.name.toList ++ ' ' :: ':' :: ' ' :: node.field.declaredType.toList)) := by
  simp [fieldText, toList_tag, fieldTags, tagWords, tagText_append]

theorem takes_memberStart : memberStart.Takes anything := by
  have hany : ∀ (ok : Char → Bool) (c : Char), ok c = true → anything c = true :=
    fun _ _ _ => rfl
  have hword : bracedWord.Takes anything := by
    unfold bracedWord
    exact Takes.bind (Takes.char rfl) fun _ => Takes.bind (Takes.run1 (hany _)) fun _ =>
      Takes.bind (Takes.char rfl) fun _ => Takes.bind (Takes.blanks (hany _)) fun _ =>
      Takes.pure _
  unfold memberStart
  exact Takes.bind (Takes.one (hany _)).optional fun _ =>
    Takes.bind (Takes.blanks (hany _)) fun _ => Takes.bind hword.many fun _ => Takes.pure _

/-- A line without a parenthesis is no operation. -/
theorem first?_operationLine_eq_none {line : List Char} (h : '(' ∉ line) :
    operationLine.first? line = none := by
  simp only [operationLine, first?, search_bind]
  refine takes_memberStart.search_eq_none_of_suffix ?_
  intro start rest hrest
  refine (Takes.run1 fun _ => id).search_eq_none_of_suffix ?_
  intro name rest' hrest'
  rw [search_blanks]
  refine search_char_of_ne ?_ _
  intro hhead
  have hmem : '(' ∈ trimStart rest' := List.mem_of_head? hhead
  have hsuffix : trimStart rest' <:+ line :=
    (List.dropWhile_suffix isBlank).trans (hrest'.trans hrest)
  exact h (hsuffix.mem hmem)

/-- Neither a parenthesis nor a line break stands in a name with a type. -/
theorem notMem_nameAndType {d : Char} (hd : d = '(' ∨ d = '\n') {name type : List Char}
    (hname : IsName name) (htype : DisplayForm type) :
    d ∉ name ++ ' ' :: ':' :: ' ' :: type := by
  have hname' : d ∉ name := hname.notMem (by rcases hd with rfl | rfl <;> decide)
  have htype' : d ∉ type := by
    rcases hd with rfl | rfl
    · exact htype.notMem (by decide)
    · exact htype.newline_notMem
  have hcolon : d ≠ ' ' ∧ d ≠ ':' := by
    rcases hd with rfl | rfl <;> decide
  simp [hname', htype', hcolon]

theorem notMem_fieldText {node : FieldNode} {d : Char} (hd : d = '(' ∨ d = '\n')
    (h : node.field.Readable) : d ∉ (fieldText node).toList := by
  have hstart := notMem_memberStart (isTag_of_mem_fieldTags node.field) node.field.visibility hd
  have hrest := notMem_nameAndType hd h.isName h.type
  rw [List.mem_cons, not_or] at hstart
  rw [toList_fieldText, List.mem_cons, List.mem_append, not_or, not_or]
  exact ⟨hstart.1, hstart.2, hrest⟩

theorem trimmed_symbol (visibility : Visibility) : Trimmed [visibility.symbol] := by
  cases visibility <;> exact ⟨stops_cons.mpr (by decide), stops_cons.mpr (by decide)⟩

theorem trimmed_fieldText {node : FieldNode} (h : node.field.Readable) :
    Trimmed (fieldText node).toList := by
  have htrimmed := (trimmed_symbol node.field.visibility).append_append h.type.trimmed
    (by simp) h.type.ne_nil
    (tagText (fieldTags node.field) ++ (node.field.name.toList ++ [' ', ':', ' ']))
  rw [toList_fieldText]
  simpa using htrimmed

/-- An attribute line is read as the attribute it was written for. -/
theorem member?_fieldText {node : FieldNode} (h : node.field.Readable) :
    member? (fieldText node).toList = some (.field node.field) := by
  have hname := h.isName
  have hparts : attributeLine.first? (fieldText node).toList =
      some (⟨⟨node.field.visibility, (fieldTags node.field).reverse⟩, node.field.name.toList,
        node.field.declaredType.toList⟩, []) := by
    rw [toList_fieldText]
    simp only [attributeLine, first?, search_bind, search_pure]
    refine search_memberStart (isTag_of_mem_fieldTags node.field) node.field.visibility hname ?_
    refine search_run1_longest hname.ne_nil hname.all_name (stops_cons.mpr (by decide)) ?_
    rw [search_blanks, text_span_append]
    refine search_afterColon h.type.ne_nil h.type.trimmed.1 h.type.newline_notMem ?_
    rw [search_atEnd_nil]
    simp [Span.text]
  rw [member?, first?_operationLine_eq_none (notMem_fieldText (.inl rfl) h), hparts]
  simp only [fieldOf, h.type.display_eq, String.ofList_toList]
  obtain ⟨name, declaredType, visibility, isStatic, isReadonly⟩ := node.field
  cases isStatic <;> cases isReadonly <;> rfl

/-! ## Operation lines -/

/-- The words in the tags of an operation. -/
def operationTags (node : OperationNode) : List String :=
  tagWords node.isStatic "abstract" node.isAbstract

theorem isTag_of_mem_operationTags (node : OperationNode) :
    ∀ word ∈ operationTags node, IsTag word :=
  isTag_of_mem_tagWords ⟨by decide, by decide⟩ node.isStatic node.isAbstract

/-- A parameter as it is written. -/
def entryText (parameter : Parameter) : List Char :=
  parameter.name.toList ++ ' ' :: ':' :: ' ' :: parameter.declaredType.toList

/-- Parameters as they are written, with commas between them. -/
def parametersText (parameters : List Parameter) : List Char :=
  [',', ' '].intercalate (parameters.map entryText)

theorem toList_operationText (node : OperationNode) :
    (operationText node).toList = node.visibility.symbol :: (tagText (operationTags node) ++
      (node.name.toList ++ '(' :: (parametersText node.operation.parameters ++
        ')' :: ' ' :: ':' :: ' ' :: node.operation.returnType.toList))) := by
  have hentry : ∀ parameter : ParameterNode,
      (parameterText parameter).toList = entryText parameter.parameter := by
    intro parameter
    simp [parameterText, entryText]
  simp [operationText, toList_tag, operationTags, tagWords, tagText_append, parametersText,
    String.toList_intercalate, OperationNode.operation, Function.comp_def, hentry]

variable {parameter : Parameter} {node : OperationNode}

theorem trimmed_entryText (h : parameter.Readable) : Trimmed (entryText parameter) :=
  h.isName.trimmed.append_append h.type.trimmed h.isName.ne_nil h.type.ne_nil [' ', ':', ' ']

theorem whole_entryText (h : parameter.Readable) : Whole ',' 0 (entryText parameter) := by
  have hflat : ∀ c ∈ parameter.name.toList ++ [' ', ':', ' '], depthChange c = 0 ∧ c ≠ ',' := by
    intro c hc
    rcases List.mem_append.mp hc with hname | hcolon
    · exact h.isName.flat c hname
    · clear hc
      revert c
      decide
  have hwhole := h.type.whole.append hflat
  simpa [entryText] using hwhole

theorem parameter?_entryText (h : parameter.Readable) :
    parameter? (entryText parameter) = some parameter := by
  have hcolon : ':' ∉ parameter.name.toList ++ [' '] := by
    simpa using h.isName.notMem (by decide)
  have hcut : cutAtFirst? ':' (entryText parameter) =
      some (parameter.name.toList ++ [' '], ' ' :: parameter.declaredType.toList) := by
    rw [← cutAtFirst?_append hcolon, List.append_assoc]
    rfl
  have htype : display (' ' :: parameter.declaredType.toList) =
      parameter.declaredType.toList :=
    (display_append_of_blank (a := [' ']) (by decide)).trans h.type.display_eq
  rw [parameter?, hcut]
  dsimp only
  rw [trim_append_of_blank (by decide), h.isName.trimmed.trim_eq, htype, String.ofList_toList,
    String.ofList_toList]

/-- A parameter list is read as the parameters it was written for. -/
theorem parameters_parametersText {entries : List Parameter}
    (h : ∀ parameter ∈ entries, parameter.Readable) :
    parameters (parametersText entries) = entries := by
  have hparts : splitTopLevel ',' (parametersText entries) = entries.map entryText := by
    refine splitTopLevel_intercalate ?_ ?_ ?_
    · exact List.forall_mem_map.mpr fun parameter hmem => whole_entryText (h parameter hmem)
    · exact List.forall_mem_map.mpr fun parameter hmem => trimmed_entryText (h parameter hmem)
    · exact List.forall_mem_map.mpr fun parameter hmem => by
        simp [entryText]
  have hread : ∀ parameter ∈ entries, (parameter? ∘ entryText) parameter = some parameter :=
    fun parameter hmem => parameter?_entryText (h parameter hmem)
  rw [parameters, hparts, List.filterMap_map, List.filterMap_congr hread, List.filterMap_some]

theorem notMem_parametersText {d : Char} (hd : d = '(' ∨ d = '\n') {entries : List Parameter}
    (h : ∀ parameter ∈ entries, parameter.Readable) : d ∉ parametersText entries := by
  have hsep : d ∉ [',', ' '] := by
    rcases hd with rfl | rfl <;> decide
  refine notMem_intercalate hsep (List.forall_mem_map.mpr ?_)
  intro parameter hmem
  exact notMem_nameAndType hd (h parameter hmem).isName (h parameter hmem).type

theorem newline_notMem_operationText {node : OperationNode} (h : node.operation.Readable) :
    '\n' ∉ (operationText node).toList := by
  have hstart := notMem_memberStart (isTag_of_mem_operationTags node) node.visibility (.inr rfl)
  have hname : '\n' ∉ node.name.toList := h.isName.notMem (by decide)
  have hparameters := notMem_parametersText (.inr rfl) h.parameters
  have htype := h.type.newline_notMem
  rw [toList_operationText]
  rw [List.mem_cons, not_or] at hstart
  simp [hstart, hname, hparameters, htype]

theorem trimmed_operationText {node : OperationNode} (h : node.operation.Readable) :
    Trimmed (operationText node).toList := by
  have htrimmed := (trimmed_symbol node.visibility).append_append h.type.trimmed
    (by simp) h.type.ne_nil (tagText (operationTags node) ++ (node.name.toList ++
      '(' :: (parametersText node.operation.parameters ++ [')', ' ', ':', ' '])))
  rw [toList_operationText]
  simpa using htrimmed

/-- An operation line is read as the operation it was written for. -/
theorem member?_operationText {node : OperationNode} (h : node.operation.Readable) :
    member? (operationText node).toList = some (.operation node.operation) := by
  have hname : IsName node.name.toList := h.isName
  have hparts : operationLine.first? (operationText node).toList =
      some (⟨⟨node.visibility, (operationTags node).reverse⟩, node.name.toList,
        parametersText node.operation.parameters,
        some node.operation.returnType.toList⟩, []) := by
    rw [toList_operationText]
    simp only [operationLine, first?, run, search_bind, search_taken, search_pure]
    refine search_memberStart (isTag_of_mem_operationTags node) node.visibility hname ?_
    refine search_run1_longest hname.ne_nil hname.all_name (stops_cons.mpr (by decide)) ?_
    rw [search_blanks, text_span_append, trimStart_eq_self (stops_cons.mpr (by decide)),
      search_char_self]
    refine search_skip_of_fail ?_ ?_ ?_
    · intro c hc
      rw [inLine, bne_iff_ne]
      rintro rfl
      exact notMem_parametersText (.inr rfl) h.parameters hc
    · rw [search_char_self, search_blanks, text_span_append]
      refine search_optional_of_some ?_
      refine search_afterColon h.type.ne_nil h.type.trimmed.1 h.type.newline_notMem ?_
      rw [search_atEnd_nil]
      simp [Span.text]
    · intro x y hxy hx _
      refine search_char_of_ne ?_ _
      cases x with
      | nil => contradiction
      | cons c x =>
          rw [List.cons_append, List.cons.injEq] at hxy
          intro hhead
          have hmem : ')' ∈ ' ' :: ':' :: ' ' :: node.operation.returnType.toList := by
            rw [hxy.2]
            exact List.mem_append_right x (List.mem_of_head? hhead)
          simp [h.type.notMem] at hmem
  rw [member?, hparts]
  simp only [operationOf, parameters_parametersText h.parameters, Option.map_some,
    h.type.display_eq, String.ofList_toList, Option.getD_some]
  obtain ⟨id, name, parameters, returns, visibility, isStatic, isAbstract⟩ := node
  cases isStatic <;> cases isAbstract <;> rfl

/-! ## Member lines are no decoration -/

theorem isDecoration_eq_false {c : Char} {rest : List Char}
    (hc : c ∉ ['.', '=', '_', '\'']) (hdash : c :: rest ≠ ['-', '-'])
    (hmore : occursIn "... (more".toList (c :: rest) = false) :
    isDecoration (c :: rest) = false := by
  simp only [List.mem_cons, List.not_mem_nil, or_false, not_or] at hc
  have hdivider : String.ofList (c :: rest) ∉ ["--", "..", "==", "__"] := by
    intro hmem
    simp only [List.mem_cons, List.not_mem_nil, or_false] at hmem
    rcases hmem with heq | heq | heq | heq <;> have hchars := congrArg String.toList heq
    · exact hdash (by simpa using hchars)
    · exact hc.1 (by simpa using congrArg List.head? hchars)
    · exact hc.2.1 (by simpa using congrArg List.head? hchars)
    · exact hc.2.2.1 (by simpa using congrArg List.head? hchars)
  have hhead : ((c :: rest).head? == some '\'') = false := by
    simpa using hc.2.2.2
  rw [← List.contains_iff_mem, Bool.not_eq_true] at hdivider
  rw [isDecoration, hdivider, hhead, hmore]
  rfl

/-- The marker of members left out has a space in front of its parenthesis, an
operation has its name there. -/
theorem occursIn_operationText {node : OperationNode} (h : node.operation.Readable) :
    occursIn "... (more".toList (operationText node).toList = false := by
  have hname : IsName node.name.toList := h.isName
  have hbefore : '(' ∉ node.visibility.symbol ::
      (tagText (operationTags node) ++ node.name.toList) := by
    have hstart := notMem_memberStart (isTag_of_mem_operationTags node) node.visibility (.inl rfl)
    rw [List.mem_cons, not_or] at hstart
    simp [hstart, hname.notMem (d := '(') (by decide)]
  have hafter : '(' ∉ parametersText node.operation.parameters ++
      ')' :: ' ' :: ':' :: ' ' :: node.operation.returnType.toList := by
    simp [notMem_parametersText (.inl rfl) h.parameters, h.type.notMem]
  rw [Bool.eq_false_iff]
  intro hoccurs
  obtain ⟨a, b, htext⟩ := occursIn_iff.mp hoccurs
  have hcut : a ++ ['.', '.', '.', ' '] =
      node.visibility.symbol :: (tagText (operationTags node) ++ node.name.toList) := by
    refine eq_of_append_cons_eq hbefore hafter (q := ['m', 'o', 'r', 'e'] ++ b) ?_
    simpa [toList_operationText] using htext.symm
  have hlast := congrArg (fun s => s.reverse.head?) hcut
  refine hname.reverse.head?_append_ne (d := ' ') (by decide)
    ((tagText (operationTags node)).reverse ++ [node.visibility.symbol]) ?_
  simpa using hlast.symm

end ClassAtlas.Diagram
