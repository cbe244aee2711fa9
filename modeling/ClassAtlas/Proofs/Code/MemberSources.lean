import ClassAtlas.Code.Reader
import ClassAtlas.Proofs.Source.Statements
import ClassAtlas.Proofs.TypeExpression

/-!
# Sources of members

The grammar of the members that a body declares: fields, with or without an
initializer, and operations, with or without a body. A source has the text in
which it is written, the shape that is left of the text when literals are masked
and blocks shrunk to their braces, and the member that it declares. The members
are stated from the parts of the source alone.

The modifiers in front of a member are read back one by one, up to the first
word that is none of them.
-/

namespace ClassAtlas.Code

open ClassAtlas.Text Pattern TypeText
open Diagram (IsName)
open Source (Balanced IsSegment outline isPlain isSilent)

/-! ## Names and types -/

/-- The words that the readers of members know. -/
def knownWords : List String :=
  fieldModifiers ++ operationModifiers ++ nonFieldTypes ++ nonReturnTypes

/-- The words that name neither types nor members. Of the known words, readonly
is no keyword. -/
def reservedWords : List String :=
  knownWords.filter (· != "readonly")

/-- A name that is not reserved. -/
structure DeclaredName where
  text : List Char
  isName : IsName text
  not_reserved : String.ofList text ∉ reservedWords

/-- A type expression without reserved words. -/
structure DeclaredType where
  text : List Char
  isTypeExpression : IsTypeExpression .type text
  not_reserved : ∀ word ∈ words text, String.ofList word ∉ reservedWords

theorem isName_of_mem_knownWords {word : String} (h : word ∈ knownWords) :
    IsName word.toList := by
  have hwords : ∀ word ∈ knownWords, IsName word.toList := by decide
  exact hwords word h

theorem isName_of_mem_fieldModifiers : ∀ word ∈ fieldModifiers, IsName word.toList := by
  intro word hword
  exact isName_of_mem_knownWords (by simp [knownWords, hword])

theorem isName_of_mem_operationModifiers : ∀ word ∈ operationModifiers, IsName word.toList := by
  intro word hword
  exact isName_of_mem_knownWords (by simp [knownWords, hword])

theorem DeclaredType.ne_toList (type : DeclaredType) {word : String} (h : word ∈ reservedWords) :
    type.text ≠ word.toList := by
  intro heq
  have hname := isName_of_mem_knownWords (List.mem_of_mem_filter h)
  have hwords : words type.text = [word.toList] := by
    rw [heq]
    exact words_eq_singleton hname.ne_nil fun c hc =>
      isBlank_eq_false_of_isName (hname.all_name c hc)
  refine type.not_reserved word.toList (by simp [hwords]) ?_
  rw [String.ofList_toList]
  exact h

/-- A type begins with a name. -/
theorem DeclaredType.head?_append_ne (type : DeclaredType) {d : Char} (hd : isName d = false)
    (rest : List Char) : (type.text ++ rest).head? ≠ some d := by
  obtain ⟨head, more, htext, hhead, -, -⟩ := type.isTypeExpression.exists_head
  rw [htext, List.append_assoc]
  exact hhead.head?_append_ne hd _

/-! ## Modifiers -/

/-- Modifiers as they are written in front of a member. -/
def modifierText (modifiers : List String) : List Char :=
  modifiers.flatMap fun word => word.toList ++ [' ']

section Modifiers

variable {β : Type} {choices written : List String} {rest : List Char} {v : β}

/-- A word is read as itself where a blank follows, also if another word begins
like it. -/
theorem search_keyword_of_mem {word : String}
    (hsolid : ∀ other ∈ choices, ∀ c ∈ other.toList, isBlank c = false) (hword : word ∈ choices)
    {k : String → List Char → Option β} (hblank : ∀ other t, Stops isBlank t → k other t = none)
    (hk : k word (' ' :: rest) = some v) :
    (keyword choices).search k (word.toList ++ ' ' :: rest) = some v := by
  induction choices with
  | nil => contradiction
  | cons other choices ih =>
      obtain ⟨hother, hchoices⟩ := List.forall_mem_cons.mp hsolid
      rw [search_keyword_cons]
      by_cases heq : word = other
      · subst heq
        rw [search_literal_append, hk, Option.some_or]
      · have hmem : word ∈ choices := (List.mem_cons.mp hword).resolve_left heq
        have hliteral : (literal other).search (fun _ rest => k other rest)
            (word.toList ++ ' ' :: rest) = none := by
          apply search_literal_eq_none
          intro more htext
          apply hblank
          -- a blank behind the other word would make it the same word
          intro c hc
          by_contra hnot
          have hmore : Stops (!isBlank ·) more := by
            intro d hd
            rw [Option.some.inj (hd.symm.trans hc)]
            simpa using hnot
          have hspace : Stops (!isBlank ·) (' ' :: rest) := stops_cons.mpr (by decide)
          have hsame := eq_of_append_eq_append (by simpa using hsolid word hword)
            (by simpa using hother) hspace hmore htext
          exact heq (String.toList_inj.mp hsame)
        rw [hliteral, Option.none_or]
        exact ih hchoices hmem

/-- A modifier and the blanks behind it. -/
def oneModifier (choices : List String) : Pattern String := do
  let word ← keyword choices
  gap1
  return word

theorem modifiers_eq_many (choices : List String) :
    modifiers choices = (oneModifier choices).many :=
  rfl

theorem search_oneModifier_append {word : String}
    (hsolid : ∀ other ∈ choices, ∀ c ∈ other.toList, isBlank c = false) (hword : word ∈ choices)
    (hrest : Stops isBlank rest) {k : String → List Char → Option β} (hk : k word rest = some v) :
    (oneModifier choices).search k (word.toList ++ ' ' :: rest) = some v := by
  rw [oneModifier, search_bind]
  refine search_keyword_of_mem hsolid hword ?_ ?_
  · intro other t ht
    exact search_skip1_of_stops ht _
  · rw [search_bind, search_gap1_cons (by decide) hrest]
    exact hk

/-- The modifiers in front of a text are read in order, the latest first, if the
text does not begin with one more of them. -/
theorem search_modifiers_append
    (hsolid : ∀ word ∈ choices, word.toList ≠ [] ∧ ∀ c ∈ word.toList, isBlank c = false)
    (hwritten : ∀ word ∈ written, word ∈ choices) (hrest : Stops isBlank rest)
    {k : List String → List Char → Option β}
    (hstop : ∀ n found, (oneModifier choices).search
      (fun word t => ((oneModifier choices).upTo n (word :: found)).search k t) rest = none)
    (hk : k written.reverse rest = some v) :
    (modifiers choices).search k (modifierText written ++ rest) = some v := by
  rw [modifiers_eq_many]
  refine search_many_flatMap (Stops isBlank) ?_ ?_ ?_ hrest hstop hk
  · intro word hword k' t ht hk'
    rw [List.append_assoc]
    exact search_oneModifier_append (fun other hother => (hsolid other hother).2)
      (hwritten word hword) ht hk'
  · intro word hword
    simp
  · intro word hword t
    obtain ⟨hne, hblank⟩ := hsolid word (hwritten word hword)
    rw [List.append_assoc]
    obtain ⟨c, chars, hchars⟩ := List.exists_cons_of_ne_nil hne
    rw [hchars] at hblank ⊢
    exact stops_cons.mpr (hblank c List.mem_cons_self)

theorem search_keyword_eq_none {s : List Char} {k : String → List Char → Option β}
    (h : ∀ word ∈ choices, (literal word).search (fun _ rest => k word rest) s = none) :
    (keyword choices).search k s = none := by
  induction choices with
  | nil => rfl
  | cons word choices ih =>
      obtain ⟨hword, hchoices⟩ := List.forall_mem_cons.mp h
      rw [search_keyword_cons, hword, ih hchoices, Option.none_or]

/-- A name is read as a modifier only if it is one of the words and a blank
follows. -/
theorem search_oneModifier_eq_none {name : List Char} (hname : IsName name)
    (hnames : ∀ word ∈ choices, IsName word.toList) (hrest : Stops isName rest)
    {k : String → List Char → Option β}
    (hk : ∀ word ∈ choices, name = word.toList →
      gap1.search (fun _ t => k word t) rest = none) :
    (oneModifier choices).search k (name ++ rest) = none := by
  rw [oneModifier, search_bind]
  apply search_keyword_eq_none
  intro word hword
  refine hname.search_literal_eq_none (hnames word hword) hrest ?_ (hk word hword)
  intro t ht
  exact search_skip1_of_stops ht _

theorem search_oneModifier_of_stops {s : List Char} (hs : Stops isName s)
    (hnames : ∀ word ∈ choices, IsName word.toList) (k : String → List Char → Option β) :
    (oneModifier choices).search k s = none := by
  rw [oneModifier, search_bind]
  apply search_keyword_eq_none
  intro word hword
  apply search_literal_eq_none
  intro more hmore
  rw [hmore] at hs
  obtain ⟨c, chars, hchars⟩ := List.exists_cons_of_ne_nil (hnames word hword).ne_nil
  have hc := (hnames word hword).all_name c (by simp [hchars])
  rw [hchars, List.cons_append, stops_cons, hc] at hs
  contradiction

/-- A type is read as a modifier only if it is one of the words. -/
theorem search_oneModifier_type (type : DeclaredType)
    (hnames : ∀ word ∈ choices, IsName word.toList) (hrest : Stops isBlank rest)
    {k : String → List Char → Option β}
    (hk : ∀ word ∈ choices, type.text = word.toList → k word rest = none) :
    (oneModifier choices).search k (type.text ++ ' ' :: rest) = none := by
  obtain ⟨head, more, htext, hhead, hname, hblank⟩ := type.isTypeExpression.exists_head
  rw [htext, List.append_assoc]
  cases more with
  | nil =>
      refine search_oneModifier_eq_none hhead hnames (stops_cons.mpr (by decide)) ?_
      intro word hword heq
      rw [search_gap1_cons (by decide) hrest]
      exact hk word hword (by rw [htext, List.append_nil, heq])
  | cons c more =>
      refine search_oneModifier_eq_none hhead hnames (stops_cons.mpr (stops_cons.mp hname)) ?_
      intro word hword heq
      exact search_skip1_of_stops (stops_cons.mpr (stops_cons.mp hblank)) _

/-- The modifiers in front of a type are read in order, the latest first. If the
type is a word that could be a modifier, then the rest has to fail without it. -/
theorem search_modifiers (type : DeclaredType) (hnames : ∀ word ∈ choices, IsName word.toList)
    (hwritten : ∀ word ∈ written, word ∈ choices) (hrest : Stops isBlank rest)
    {k : List String → List Char → Option β}
    (hstop : ∀ word ∈ choices, type.text = word.toList →
      ∀ n found, ((oneModifier choices).upTo n found).search k rest = none)
    (hk : k written.reverse (type.text ++ ' ' :: rest) = some v) :
    (modifiers choices).search k (modifierText written ++ (type.text ++ ' ' :: rest)) =
      some v := by
  have hstart : Stops isBlank (type.text ++ ' ' :: rest) :=
    type.isTypeExpression.tidy.stops_isBlank.append type.isTypeExpression.tidy.ne_nil _
  have hsolid : ∀ word ∈ choices, word.toList ≠ [] ∧ ∀ c ∈ word.toList, isBlank c = false :=
    fun word hword => ⟨(hnames word hword).ne_nil, fun c hc =>
      isBlank_eq_false_of_isName ((hnames word hword).all_name c hc)⟩
  refine search_modifiers_append hsolid hwritten hstart ?_ hk
  intro n found
  apply search_oneModifier_type type hnames hrest
  intro word hword htext
  exact hstop word hword htext n (word :: found)

end Modifiers

/-! ## Members -/

/-- The visibility of a member: the first of public, private and protected among
its modifiers; without one of them, an interface makes it public. -/
def writtenVisibility (owner : TypeKind) (written : List String) : Visibility :=
  if "public" ∈ written then .«public»
  else if "private" ∈ written then .«private»
  else if "protected" ∈ written then .«protected»
  else if owner = .interface then .«public»
  else .package

theorem memberVisibility_reverse (owner : TypeKind) (written : List String) :
    memberVisibility owner written.reverse = writtenVisibility owner written := by
  by_cases hpublic : "public" ∈ written
  · cases owner <;> simp [memberVisibility, visibilityOf, writtenVisibility, hpublic]
  by_cases hprivate : "private" ∈ written
  · cases owner <;> simp [memberVisibility, visibilityOf, writtenVisibility, hpublic, hprivate]
  by_cases hprotected : "protected" ∈ written
  · cases owner <;>
      simp [memberVisibility, visibilityOf, writtenVisibility, hpublic, hprivate, hprotected]
  · cases owner <;>
      simp [memberVisibility, visibilityOf, writtenVisibility, hpublic, hprivate, hprotected]

/-- What stands in front of the parameters or the initializer of a member. -/
def signature (modifiers : List String) (type : DeclaredType) (name : DeclaredName) : List Char :=
  modifierText modifiers ++ (type.text ++ ' ' :: name.text)

/-- A parameter as it is written. -/
structure ParameterSource where
  type : DeclaredType
  name : DeclaredName

namespace ParameterSource

def text (parameter : ParameterSource) : List Char :=
  parameter.type.text ++ ' ' :: parameter.name.text

def declared (parameter : ParameterSource) : Parameter where
  name := String.ofList parameter.name.text
  declaredType := String.ofList parameter.type.text

end ParameterSource

/-- The value of a field: balanced code without a semicolon outside its
braces. -/
structure ValueSource where
  text : List Char
  balanced : Balanced text
  semicolon_notMem : ';' ∉ outline text

/-- A field as it is written. -/
structure FieldSource where
  modifiers : List String
  modifiers_known : ∀ word ∈ modifiers, word ∈ fieldModifiers
  type : DeclaredType
  name : DeclaredName
  value : Option ValueSource

namespace FieldSource

/-- The end of a field, with its value behind an equals sign. -/
def tail : Option (List Char) → List Char
  | none => [';']
  | some value => ' ' :: '=' :: ' ' :: (value ++ [';'])

def text (field : FieldSource) : List Char :=
  signature field.modifiers field.type field.name ++ tail (field.value.map ValueSource.text)

def shape (field : FieldSource) : List Char :=
  signature field.modifiers field.type field.name ++
    tail (field.value.map fun value => outline value.text)

def declared (owner : TypeKind) (field : FieldSource) : Field where
  name := String.ofList field.name.text
  declaredType := String.ofList field.type.text
  visibility := writtenVisibility owner field.modifiers
  isStatic := owner = .interface ∨ "static" ∈ field.modifiers
  isReadonly := owner = .interface ∨ "final" ∈ field.modifiers ∨ "readonly" ∈ field.modifiers

/-- A value with parentheses outside its braces is taken for a call if the type
in front of the field's name ends in a dollar sign. -/
def isOverlooked (field : FieldSource) : Bool :=
  field.type.text.getLast? == some '$' && field.value.any fun value =>
    (outline value.text).contains '(' && (outline value.text).contains ')'

end FieldSource

/-- The body of an operation. -/
structure BodySource where
  text : List Char
  balanced : Balanced text

/-- An operation as it is written. -/
structure OperationSource where
  modifiers : List String
  modifiers_known : ∀ word ∈ modifiers, word ∈ operationModifiers
  returnType : DeclaredType
  name : DeclaredName
  parameters : List ParameterSource
  body : Option BodySource

namespace OperationSource

/-- The parameters of an operation as they are written. -/
def parameterText (operation : OperationSource) : List Char :=
  [',', ' '].intercalate (operation.parameters.map ParameterSource.text)

/-- The end of an operation, with its body between braces. -/
def tail : Option (List Char) → List Char
  | none => [';']
  | some body => ' ' :: '{' :: (body ++ ['}'])

def text (operation : OperationSource) : List Char :=
  signature operation.modifiers operation.returnType operation.name ++
    '(' :: (operation.parameterText ++ ')' :: tail (operation.body.map BodySource.text))

def shape (operation : OperationSource) : List Char :=
  signature operation.modifiers operation.returnType operation.name ++
    '(' :: (operation.parameterText ++ ')' :: tail (operation.body.map fun _ => []))

def declared (owner : TypeKind) (operation : OperationSource) : Operation where
  name := String.ofList operation.name.text
  parameters := operation.parameters.map ParameterSource.declared
  returnType := String.ofList operation.returnType.text
  visibility := writtenVisibility owner operation.modifiers
  isStatic := "static" ∈ operation.modifiers
  isAbstract := "abstract" ∈ operation.modifiers ∨
    (owner = .interface ∧ operation.body.isNone ∧ "static" ∉ operation.modifiers ∧
      "default" ∉ operation.modifiers)

end OperationSource

/-- A member as it is written. -/
inductive MemberSource where
  | field (field : FieldSource)
  | operation (operation : OperationSource)

namespace MemberSource

def text : MemberSource → List Char
  | field source => source.text
  | operation source => source.text

def shape : MemberSource → List Char
  | field source => source.shape
  | operation source => source.shape

/-- The name of an operation. -/
def operationName? : MemberSource → Option (List Char)
  | field _ => none
  | operation source => some source.name.text

/-- The member that is found in a body, if any. -/
def declared? (owner : TypeKind) : MemberSource → Option Member
  | field source => if source.isOverlooked then none else some (.field (source.declared owner))
  | operation source => some (.operation (source.declared owner))

end MemberSource

/-! ## Shapes -/

theorem isPlain_of_inReturnType {c : Char} (h : inReturnType c = true) : isPlain c = true := by
  have hnot : c ∉ ['"', '\'', '/', '{', '}'] := notMem_of_ok h (by decide)
  simpa [isPlain] using hnot

theorem isSilent_of_inReturnType {c : Char} (h : inReturnType c = true) : isSilent c = true := by
  have hnot : c ∉ ['"', '\'', ';', '}', '(', ')', '='] := notMem_of_ok h (by decide)
  simpa [isSilent] using hnot

theorem inReturnType_of_isName {c : Char} (h : isName c = true) : inReturnType c = true := by
  simp [inReturnType, isDottedName_of_isName h]

theorem inReturnType_of_isBlank {c : Char} (h : isBlank c = true) : inReturnType c = true := by
  simp [inReturnType, h]

theorem isName_or_isBlank_of_mem_modifierText {modifiers : List String}
    (h : ∀ word ∈ modifiers, IsName word.toList) :
    ∀ c ∈ modifierText modifiers, isName c = true ∨ isBlank c = true := by
  intro c hc
  obtain ⟨word, hword, hmem⟩ := List.mem_flatMap.mp hc
  rcases List.mem_append.mp hmem with hmem | hmem
  · exact Or.inl ((h word hword).all_name c hmem)
  · rw [List.mem_singleton.mp hmem]
    exact Or.inr (by decide)

theorem inReturnType_of_mem_signature {modifiers : List String}
    (hmodifiers : ∀ word ∈ modifiers, IsName word.toList) (type : DeclaredType)
    (name : DeclaredName) : ∀ c ∈ signature modifiers type name, inReturnType c = true := by
  refine List.forall_mem_append.mpr ⟨?_, List.forall_mem_append.mpr
    ⟨type.isTypeExpression.inReturnType_of_mem, List.forall_mem_cons.mpr ⟨by decide, ?_⟩⟩⟩
  · intro c hc
    rcases isName_or_isBlank_of_mem_modifierText hmodifiers c hc with hname | hblank
    · exact inReturnType_of_isName hname
    · exact inReturnType_of_isBlank hblank
  · intro c hc
    exact inReturnType_of_isName (name.isName.all_name c hc)

theorem dotted_or_blank_of_mem_signature {modifiers : List String} {type : DeclaredType}
    (hmodifiers : ∀ word ∈ modifiers, IsName word.toList)
    (htype : ∀ c ∈ type.text, isDottedName c = true) (name : DeclaredName) :
    ∀ c ∈ signature modifiers type name, isDottedName c = true ∨ isBlank c = true := by
  refine List.forall_mem_append.mpr ⟨?_, List.forall_mem_append.mpr
    ⟨fun c hc => Or.inl (htype c hc), List.forall_mem_cons.mpr ⟨by decide, ?_⟩⟩⟩
  · intro c hc
    exact (isName_or_isBlank_of_mem_modifierText hmodifiers c hc).imp_left isDottedName_of_isName
  · intro c hc
    exact Or.inl (isDottedName_of_isName (name.isName.all_name c hc))

theorem FieldSource.isName_of_mem_modifiers (field : FieldSource) :
    ∀ word ∈ field.modifiers, IsName word.toList := fun word hword =>
  isName_of_mem_fieldModifiers word (field.modifiers_known word hword)

theorem OperationSource.isName_of_mem_modifiers (operation : OperationSource) :
    ∀ word ∈ operation.modifiers, IsName word.toList := fun word hword =>
  isName_of_mem_operationModifiers word (operation.modifiers_known word hword)

theorem OperationSource.inReturnType_of_mem_parameterText (operation : OperationSource) :
    ∀ c ∈ operation.parameterText, inReturnType c = true := by
  have hnone : ∀ word ∈ ([] : List String), IsName word.toList := by simp
  refine inReturnType_of_mem_intercalate (List.forall_mem_map.mpr fun parameter _ => ?_)
  exact inReturnType_of_mem_signature hnone parameter.type parameter.name

/-- What can stand in a return type is all outline. -/
theorem hasOutline_of_inReturnType {s : List Char} (h : ∀ c ∈ s, inReturnType c = true) :
    Source.HasOutline s s :=
  Source.hasOutline_of_plain fun c hc => isPlain_of_inReturnType (h c hc)

theorem FieldSource.hasOutline (field : FieldSource) :
    Source.HasOutline field.text field.shape := by
  have hsignature := hasOutline_of_inReturnType
    (inReturnType_of_mem_signature field.isName_of_mem_modifiers field.type field.name)
  cases hvalue : field.value with
  | none =>
      rw [text, shape, hvalue]
      exact hsignature.append (Source.hasOutline_of_plain (by decide))
  | some value =>
      rw [text, shape, hvalue]
      have hequals : Source.HasOutline " = ".toList " = ".toList :=
        Source.hasOutline_of_plain (by decide)
      exact hsignature.append
        (hequals.append (value.balanced.hasOutline_concat (by decide) (by decide)))

theorem OperationSource.hasOutline (operation : OperationSource) :
    Source.HasOutline operation.text operation.shape := by
  have hsignature := hasOutline_of_inReturnType (inReturnType_of_mem_signature
    operation.isName_of_mem_modifiers operation.returnType operation.name)
  have hparameters := hasOutline_of_inReturnType operation.inReturnType_of_mem_parameterText
  have hopen : Source.HasOutline ['('] ['('] := Source.hasOutline_of_plain (by decide)
  have hclose : Source.HasOutline [')'] [')'] := Source.hasOutline_of_plain (by decide)
  have htail : Source.HasOutline (tail (operation.body.map BodySource.text))
      (tail (operation.body.map fun _ => [])) := by
    cases operation.body with
    | none => exact Source.hasOutline_of_plain (by decide)
    | some body =>
        have hspace : Source.HasOutline [' '] [' '] := Source.hasOutline_of_plain (by decide)
        exact hspace.append body.balanced.hasOutline_block
  exact hsignature.append (hopen.append (hparameters.append (hclose.append htail)))

theorem MemberSource.hasOutline (member : MemberSource) :
    Source.HasOutline member.text member.shape := by
  cases member with
  | field source => exact source.hasOutline
  | operation source => exact source.hasOutline

/-! ## Statements -/

section Statements

variable {blank : List Char} (hblank : ∀ c ∈ blank, isBlank c = true) (rest : List Char)
include hblank

theorem isSilent_of_mem_append {s : List Char} (h : ∀ c ∈ s, inReturnType c = true) :
    ∀ c ∈ blank ++ s, isSilent c = true := by
  rw [List.forall_mem_append]
  constructor
  · intro c hc
    exact isSilent_of_inReturnType (inReturnType_of_isBlank (hblank c hc))
  · intro c hc
    exact isSilent_of_inReturnType (h c hc)

theorem FieldSource.cutStatements_shape (field : FieldSource) :
    Source.cutStatements {} (blank ++ (field.shape ++ rest)) =
      (blank ++ field.shape) :: Source.cutStatements {} rest := by
  have hsignature :=
    inReturnType_of_mem_signature field.isName_of_mem_modifiers field.type field.name
  cases hvalue : field.value with
  | none =>
      have hcut := Source.cutStatements_semicolon (isSilent_of_mem_append hblank hsignature) rest
      simpa [shape, hvalue, tail] using hcut
  | some value =>
      have hsemicolon : ';' ∉ ' ' :: outline value.text := by
        simp [value.semicolon_notMem]
      have hspace : ∀ c ∈ signature field.modifiers field.type field.name ++ [' '],
          inReturnType c = true := List.forall_mem_append.mpr ⟨hsignature, by decide⟩
      have hcut := Source.cutStatements_initializer (isSilent_of_mem_append hblank hspace)
        hsemicolon value.balanced.after_outline rest
      simpa [shape, hvalue, tail] using hcut

theorem OperationSource.cutStatements_shape (operation : OperationSource) :
    Source.cutStatements {} (blank ++ (operation.shape ++ rest)) =
      (blank ++ operation.shape) :: Source.cutStatements {} rest := by
  have hsignature := isSilent_of_mem_append hblank (inReturnType_of_mem_signature
    operation.isName_of_mem_modifiers operation.returnType operation.name)
  have hparameters : ∀ c ∈ operation.parameterText, isSilent c = true := fun c hc =>
    isSilent_of_inReturnType (operation.inReturnType_of_mem_parameterText c hc)
  cases hbody : operation.body with
  | none =>
      have hcut := Source.cutStatements_parenthesis hsignature hparameters
        (by decide : ∀ c ∈ [], isSilent c = true) (Or.inl rfl) rest
      simpa [shape, hbody, tail] using hcut
  | some body =>
      have hcut := Source.cutStatements_parenthesis hsignature hparameters
        (by decide : ∀ c ∈ [' ', '{'], isSilent c = true) (Or.inr rfl) rest
      simpa [shape, hbody, tail] using hcut

/-- A member is one statement. -/
theorem MemberSource.cutStatements_shape (member : MemberSource) :
    Source.cutStatements {} (blank ++ (member.shape ++ rest)) =
      (blank ++ member.shape) :: Source.cutStatements {} rest := by
  cases member with
  | field source => exact source.cutStatements_shape hblank rest
  | operation source => exact source.cutStatements_shape hblank rest

end Statements

end ClassAtlas.Code
