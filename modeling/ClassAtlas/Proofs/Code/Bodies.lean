import ClassAtlas.Proofs.Code.OperationStatements

/-!
# Bodies of types

A class or an interface is written as its header and a body of members with
blanks between them. The body is a segment, so the scans of the source text go
through it member by member: it is closed where it ends, its outline is made of
the shapes of the members, and each shape is one statement. Every statement is
read as what its member declares; the fields that are overlooked are missing.
-/

namespace ClassAtlas.Code

open ClassAtlas.Text Pattern TypeText
open Diagram (isIdentifier IsName)
open Source (IsSegment HasOutline Balanced outline isPlain)

/-! ## Statements of members -/

/-- A signature begins with a name. -/
theorem exists_head_signature {modifiers : List String}
    (hmodifiers : ∀ word ∈ modifiers, IsName word.toList) (type : DeclaredType)
    (name : DeclaredName) :
    ∃ head rest, signature modifiers type name = head ++ rest ∧ IsName head := by
  cases modifiers with
  | nil =>
      obtain ⟨head, rest, htext, hhead, -, -⟩ := type.isTypeExpression.exists_head
      exact ⟨head, rest ++ ' ' :: name.text, by simp [signature, modifierText, htext], hhead⟩
  | cons word more =>
      exact ⟨word.toList, ' ' :: signature more type name, by simp [signature, modifierText],
        hmodifiers word List.mem_cons_self⟩

namespace MemberSource

variable (member : MemberSource)

theorem exists_head : ∃ head rest, member.shape = head ++ rest ∧ IsName head := by
  cases member with
  | field source =>
      obtain ⟨head, rest, htext, hhead⟩ :=
        exists_head_signature source.isName_of_mem_modifiers source.type source.name
      exact ⟨head, _, by rw [shape, FieldSource.shape, htext, List.append_assoc], hhead⟩
  | operation source =>
      obtain ⟨head, rest, htext, hhead⟩ :=
        exists_head_signature source.isName_of_mem_modifiers source.returnType source.name
      exact ⟨head, _, by rw [shape, OperationSource.shape, htext, List.append_assoc], hhead⟩

theorem exists_last : ∃ init c, member.shape = init ++ [c] ∧ isBlank c = false := by
  cases member with
  | field source =>
      cases hvalue : source.value with
      | none => exact ⟨_, ';', by rw [shape, FieldSource.shape, hvalue]; rfl, by decide⟩
      | some value =>
          refine ⟨signature source.modifiers source.type source.name ++
            ' ' :: '=' :: ' ' :: outline value.text, ';', ?_, by decide⟩
          simp [shape, FieldSource.shape, hvalue, FieldSource.tail]
  | operation source =>
      cases hbody : source.body with
      | none =>
          refine ⟨signature source.modifiers source.returnType source.name ++
            '(' :: (source.parameterText ++ [')']), ';', ?_, by decide⟩
          simp [shape, OperationSource.shape, hbody, OperationSource.tail]
      | some body =>
          refine ⟨signature source.modifiers source.returnType source.name ++
            '(' :: (source.parameterText ++ [')', ' ', '{']), '}', ?_, by decide⟩
          simp [shape, OperationSource.shape, hbody, OperationSource.tail]

/-- The shape of a member has neither blanks around it nor annotations. -/
theorem stripAnnotations_trim {blank : List Char} (hblank : ∀ c ∈ blank, isBlank c = true) :
    Source.stripAnnotations (trim (blank ++ member.shape)) = member.shape := by
  obtain ⟨head, rest, hhead, hname⟩ := member.exists_head
  obtain ⟨init, c, hlast, hc⟩ := member.exists_last
  have hstart : Stops isBlank member.shape := by
    rw [hhead]
    exact hname.stops_isBlank_append rest
  have hend : Stops isBlank member.shape.reverse := by
    rw [hlast, List.reverse_append]
    exact stops_cons.mpr hc
  have htrimmed : Trimmed member.shape := ⟨hstart, hend⟩
  rw [trim_blank_append hblank, htrimmed.trim_eq]
  apply stripAnnotations_eq_self hstart
  rw [hhead]
  exact hname.head?_append_ne (by decide) rest

end MemberSource

/-! ## Bodies -/

/-- A member with the blanks in front of it. -/
structure SpacedMember where
  blank : List Char
  isBlank_of_mem : ∀ c ∈ blank, isBlank c = true
  source : MemberSource

/-- The text of a body, given the text of each member. -/
def bodyText (write : MemberSource → List Char) (members : List SpacedMember)
    (closing : List Char) : List Char :=
  members.flatMap (fun member => member.blank ++ write member.source) ++ closing

section Bodies

variable (members : List SpacedMember) {closing : List Char}
  (hclosing : ∀ c ∈ closing, isBlank c = true)
include hclosing

theorem hasOutline_bodyText :
    HasOutline (bodyText MemberSource.text members closing)
      (bodyText MemberSource.shape members closing) := by
  induction members with
  | nil => exact hasOutline_of_inReturnType fun c hc => inReturnType_of_isBlank (hclosing c hc)
  | cons member members ih =>
      have hblank := hasOutline_of_inReturnType fun c hc =>
        inReturnType_of_isBlank (member.isBlank_of_mem c hc)
      have hfirst := hblank.append member.source.hasOutline
      simpa [bodyText] using hfirst.append ih

theorem cutStatements_bodyText :
    Source.cutStatements {} (bodyText MemberSource.shape members closing) =
      members.map (fun member => member.blank ++ member.source.shape) ++ [closing] := by
  induction members with
  | nil =>
      exact Source.cutStatements_of_silent fun c hc =>
        isSilent_of_inReturnType (inReturnType_of_isBlank (hclosing c hc))
  | cons member members ih =>
      have hcut := member.source.cutStatements_shape member.isBlank_of_mem
        (bodyText MemberSource.shape members closing)
      rw [ih] at hcut
      simpa [bodyText] using hcut

/-- The statements of a body are the shapes of its members. -/
theorem statements_bodyText :
    Source.statements (bodyText MemberSource.shape members closing) =
      members.map fun member => member.source.shape := by
  have hend : Source.stripAnnotations (trim closing) = [] := by
    have htrim : trimStart closing = [] := List.dropWhile_eq_nil_iff.mpr hclosing
    rw [trim, htrim]
    exact stripAnnotations_eq_self (stops_nil isBlank) (by decide)
  have hstatements : (members.map fun member => member.blank ++ member.source.shape).map
      (fun raw => Source.stripAnnotations (trim raw)) =
        members.map fun member => member.source.shape := by
    rw [List.map_map]
    exact List.map_congr_left fun member _ =>
      member.source.stripAnnotations_trim member.isBlank_of_mem
  have hkeep : ∀ statement ∈ members.map (fun member => member.source.shape),
      (!statement.isEmpty) = true := by
    rintro statement hmem
    obtain ⟨member, -, rfl⟩ := List.mem_map.mp hmem
    obtain ⟨init, c, hlast, -⟩ := member.source.exists_last
    simp [hlast]
  rw [Source.statements, cutStatements_bodyText members hclosing, List.map_append, hstatements,
    List.filter_append, List.filter_eq_self.mpr hkeep, List.map_singleton, hend]
  simp

end Bodies

/-! ## Headers -/

section Headers

variable {β : Type} {kind : TypeKind} {rest : List Char}

theorem search_oneModifier_keyword (k : String → List Char → Option β) :
    (oneModifier typeModifiers).search k (kind.keyword.toList ++ rest) = none := by
  have hheads : ∀ word ∈ typeModifiers, word.toList ≠ [] ∧ word.toList.head? ≠ some 'c' ∧
      word.toList.head? ≠ some 'i' ∧ word.toList.head? ≠ some 'e' := by
    decide
  rw [oneModifier, search_bind]
  apply search_keyword_eq_none
  intro word hword
  obtain ⟨hne, hclass, hinterface, henum⟩ := hheads word hword
  apply search_literal_of_none
  cases kind with
  | «class» => exact isPrefixOf?_eq_none hne hclass
  | interface => exact isPrefixOf?_eq_none hne hinterface
  | enumeration => exact isPrefixOf?_eq_none hne henum

theorem search_typeKeyword {v : β} {k : TypeKind → List Char → Option β}
    (hk : k kind rest = some v) :
    typeKeyword.search k (kind.keyword.toList ++ rest) = some v := by
  have hliteral := search_literal_append kind.keyword (fun _ => k kind) rest
  rw [hk] at hliteral
  have hheads : "class".toList.head? ≠ some 'i' ∧ "class".toList.head? ≠ some 'e' ∧
      "interface".toList.head? ≠ some 'e' := by
    decide
  simp only [typeKeyword, List.map_cons, search_oneOf_cons, search_bind, search_pure]
  cases kind with
  | «class» => rw [hliteral, Option.some_or]
  | interface =>
      rw [search_literal_of_none (isPrefixOf?_eq_none (by decide) hheads.1), Option.none_or,
        hliteral, Option.some_or]
  | enumeration =>
      rw [search_literal_of_none (isPrefixOf?_eq_none (by decide) hheads.2.1),
        search_literal_of_none (isPrefixOf?_eq_none (by decide) hheads.2.2), Option.none_or,
        Option.none_or, hliteral, Option.some_or]

/-- A header with modifiers is found at the start of a text. -/
theorem first?_typeHeader_of_modifiers {written : List String}
    (hwritten : ∀ word ∈ written, word ∈ typeModifiers) {name : List Char}
    (hname : isIdentifier name = true) (hrest : Stops isName rest) :
    (typeHeader true).first?
        (modifierText written ++ (kind.keyword.toList ++ ' ' :: (name ++ rest))) =
      some ({ separator := none, modifiers := written.reverse, kind, name }, rest) := by
  have hsolid : ∀ word ∈ typeModifiers,
      word.toList ≠ [] ∧ ∀ c ∈ word.toList, isBlank c = false := by
    decide
  have hkeyword : IsName kind.keyword.toList := by
    cases kind <;> decide
  have hword := IsName.of_isIdentifier hname
  obtain ⟨c, chars, rfl⟩ := List.exists_cons_of_ne_nil hword.ne_nil
  rw [isIdentifier, Bool.and_eq_true] at hname
  have hspan := text_span_append (c :: chars) rest
  rw [first?, typeHeader, search_bind, search_oneOf_cons]
  apply Option.or_eq_some_iff.mpr
  left
  change (modifiers typeModifiers >>= _).search _ _ = _
  rw [search_bind]
  refine search_modifiers_append hsolid hwritten (hkeyword.stops_isBlank_append _)
    (fun n found => search_oneModifier_keyword _) ?_
  rw [search_bind]
  apply search_typeKeyword
  rw [search_bind, search_blanks1_cons (by decide),
    trimStart_eq_self (hword.stops_isBlank_append rest), search_bind, search_taken, search_bind,
    List.cons_append, search_one_of_ok hname.1]
  refine search_skip_longest (List.all_eq_true.mp hname.2) hrest ?_
  rw [search_pure, ← List.cons_append, hspan]

theorem first?_typeHeader {name : List Char} (hname : isIdentifier name = true)
    (hrest : Stops isName rest) :
    (typeHeader true).first? (kind.keyword.toList ++ ' ' :: (name ++ rest)) =
      some ({ separator := none, modifiers := [], kind, name }, rest) :=
  first?_typeHeader_of_modifiers (List.forall_mem_nil _) hname hrest

theorem exists_findHeaders {lineStart : Bool} {ink : Option Char} {s after : List Char}
    {header : TypeHeader} (hne : s ≠ [])
    (h : (typeHeader lineStart).first? s = some (header, after)) :
    ∃ more, findHeaders 0 lineStart ink s =
      { header
        ofAnnotation :=
          header.modifiers.isEmpty && lastInk ink header.separator.toList == some '@'
        rest := after } :: more := by
  obtain ⟨c, s, rfl⟩ := List.exists_cons_of_ne_nil hne
  rw [findHeaders, h]
  exact ⟨_, rfl⟩

end Headers

/-! ## Types -/

/-- A class or an interface as it is written. -/
structure TypeSource where
  kind : TypeKind
  not_enumeration : kind ≠ .enumeration
  name : List Char
  isIdentifier_name : isIdentifier name = true
  members : List SpacedMember
  closing : List Char
  isBlank_of_mem : ∀ c ∈ closing, isBlank c = true

namespace TypeSource

/-- The text between the braces. -/
def body (type : TypeSource) : List Char :=
  bodyText MemberSource.text type.members type.closing

def text (type : TypeSource) : List Char :=
  type.kind.keyword.toList ++ ' ' :: (type.name ++ ' ' :: '{' :: (type.body ++ ['}']))

/-- The declaration that is found first in the text of a type. -/
def declared (type : TypeSource) (package : String) : Declaration where
  name := String.ofList type.name
  kind := type.kind
  package
  members := type.members.filterMap fun member => member.source.declared? type.kind

variable (type : TypeSource)

theorem hasOutline_body :
    HasOutline type.body (bodyText MemberSource.shape type.members type.closing) :=
  hasOutline_bodyText type.members type.isBlank_of_mem

theorem structureText_text :
    structureText type.text = type.kind.keyword.toList ++ ' ' :: (type.name ++ ' ' ::
      '{' :: (Source.maskLiterals type.body ++ ['}'])) := by
  have hplain : ∀ c ∈ type.kind.keyword.toList ++ ' ' :: (type.name ++ [' ']),
      isPlain c = true := by
    have hkeyword : ∀ c ∈ type.kind.keyword.toList, isPlain c = true := by
      cases type.kind <;> decide
    have hname : ∀ c ∈ type.name, isPlain c = true := fun c hc => isPlain_of_inReturnType
      (inReturnType_of_isName ((IsName.of_isIdentifier type.isIdentifier_name).all_name c hc))
    simp only [List.forall_mem_append, List.forall_mem_cons]
    exact ⟨hkeyword, by decide, hname, by decide, by simp⟩
  have hhead := (Source.hasOutline_of_plain hplain).isSegment
  have hbody := type.hasOutline_body.isSegment.balanced
  have htext : type.text = (type.kind.keyword.toList ++ ' ' :: (type.name ++ [' '])) ++
      '{' :: (type.body ++ ['}']) := by
    simp [text]
  rw [structureText, htext, (hhead.append hbody.hasOutline_block.isSegment).comment_free,
    hhead.maskLiterals_append, Source.maskLiterals_of_plain hplain, hbody.maskLiterals_block]
  simp

/-- The members of a body are read in order. -/
theorem members_body
    (hnames : ∀ member ∈ type.members, member.source.operationName? ≠ some type.name) :
    Code.members type.name type.kind (Source.project (Source.maskLiterals type.body)) =
      type.members.filterMap fun member => member.source.declared? type.kind := by
  have houtline : Source.project (Source.maskLiterals type.body) =
      bodyText MemberSource.shape type.members type.closing := type.hasOutline_body.outline_eq
  rw [houtline, Code.members, statements_bodyText type.members type.isBlank_of_mem,
    List.filterMap_map]
  apply List.filterMap_congr
  intro member hmember
  exact member.source.member?_shape type.kind (hnames member hmember)

/-- The header and the body of a type give its declaration. -/
theorem declaration?_body (unit package : String)
    (hnames : ∀ member ∈ type.members, member.source.operationName? ≠ some type.name) :
    declaration? unit package
      { header := { separator := none, modifiers := [], kind := type.kind, name := type.name }
        ofAnnotation := false
        rest := ' ' :: '{' :: (Source.maskLiterals type.body ++ ['}']) } =
      .ok (some (type.declared package)) := by
  have hclauses : supertypeClauses.first? (skipTypeParameters [' ']) = some ((none, none), []) := by
    decide
  have hblock := type.hasOutline_body.isSegment.balanced.splitBlock?_maskLiterals []
  have hbody : withBody (declarationOf package
      { separator := none, modifiers := [], kind := type.kind, name := type.name } none none)
      (Source.maskLiterals type.body) = type.declared package := by
    have hmembers := type.members_body hnames
    have hkind := type.not_enumeration
    cases hcase : type.kind with
    | enumeration => contradiction
    | «class» =>
        rw [hcase] at hmembers
        simp [withBody, declarationOf, withSupertypes, declared, hcase, hmembers]
    | interface =>
        rw [hcase] at hmembers
        simp [withBody, declarationOf, withSupertypes, declared, hcase, hmembers]
  have htake : (' ' :: '{' :: (Source.maskLiterals type.body ++ ['}'])).takeWhile
      (fun c => !endsHeader c) = [' '] := rfl
  have hdrop : (' ' :: '{' :: (Source.maskLiterals type.body ++ ['}'])).dropWhile
      (fun c => !endsHeader c) = '{' :: (Source.maskLiterals type.body ++ ['}']) := rfl
  simp only [declaration?, hdrop, htake, hclauses, hblock, hbody]

end TypeSource

/-- A class or an interface is the first type that is read from its text. Its
members are those that were written, in order and with all their parts, but for
the fields that are overlooked. -/
theorem read_declared (unit : String) (type : TypeSource)
    (hnames : ∀ member ∈ type.members, member.source.operationName? ≠ some type.name) :
    ∃ rest, (read unit type.text).types =
      type.declared (read unit type.text).package :: rest := by
  have hrest : Stops isName (' ' :: '{' :: (Source.maskLiterals type.body ++ ['}'])) :=
    stops_cons.mpr (by decide)
  have hheader := @first?_typeHeader type.kind _ _ type.isIdentifier_name hrest
  rw [← type.structureText_text] at hheader
  have hne : structureText type.text ≠ [] := by
    rw [type.structureText_text]
    simp
  obtain ⟨more, hmore⟩ := exists_findHeaders hne hheader
  have hat : (([] : List String).isEmpty &&
      lastInk none (none : Option Char).toList == some '@') = false := by
    decide
  rw [hat] at hmore
  rw [read]
  dsimp only
  rw [hmore, List.map_cons, type.declaration?_body unit _ hnames, List.filterMap_cons]
  exact ⟨_, rfl⟩

/-! ### A class with every kind of member -/

/-- A name as the type of a member. -/
def DeclaredName.toType (name : DeclaredName) : DeclaredType where
  text := name.text
  isTypeExpression := .named (.name name.isName)
  not_reserved := by
    have hwords := words_eq_singleton name.isName.ne_nil fun c hc =>
      isBlank_eq_false_of_isName (name.isName.all_name c hc)
    rw [hwords]
    exact List.forall_mem_singleton.mpr name.not_reserved

/-- The type of a map to arrays. -/
def arrayMap : DeclaredType where
  text := ("util".toList ++ '.' :: "Map".toList) ++ '<' :: ([',', ' '].intercalate
    [['K'], "? extends ".toList ++ ("int".toList ++ ['[', ']'])] ++ ['>'])
  isTypeExpression := by
    refine .applied (.dotted (by decide) (.name (by decide))) (by decide) ?_
    exact List.forall_mem_cons.mpr ⟨.exact (.named (.name (by decide))),
      List.forall_mem_singleton.mpr (.upTo (.array (.named (.name (by decide)))))⟩
  not_reserved := by decide

/-- A class with a literal that looks like code, an operation without a body and
one with inner blocks, and a field that is overlooked. -/
def ledger : TypeSource where
  kind := .«class»
  not_enumeration := by decide
  name := "Ledger".toList
  isIdentifier_name := by decide
  members :=
    let indent : List Char := "\n  ".toList
    [⟨indent, by decide, .field
        { modifiers := ["private", "static", "final"]
          modifiers_known := by decide
          type := arrayMap
          name := ⟨"index".toList, by decide, by decide⟩
          value := some ⟨"load(\"\x7d;\")".toList, by decide, by decide⟩ }⟩,
      ⟨indent, by decide, .operation
        { modifiers := ["public", "abstract"]
          modifiers_known := by decide
          returnType := arrayMap
          name := ⟨"find".toList, by decide, by decide⟩
          parameters := [⟨arrayMap, ⟨"known".toList, by decide, by decide⟩⟩]
          body := none }⟩,
      ⟨indent, by decide, .field
        { modifiers := []
          modifiers_known := by decide
          type := (⟨"Entry$".toList, by decide, by decide⟩ : DeclaredName).toType
          name := ⟨"last".toList, by decide, by decide⟩
          value := some ⟨"open()".toList, by decide, by decide⟩ }⟩,
      ⟨indent, by decide, .operation
        { modifiers := []
          modifiers_known := by decide
          returnType := (⟨"void".toList, by decide, by decide⟩ : DeclaredName).toType
          name := ⟨"clear".toList, by decide, by decide⟩
          parameters := []
          body := some ⟨" if (full) \x7b mark('\x7b'); \x7d ".toList, by decide⟩ }⟩]
  closing := ['\n']
  isBlank_of_mem := by decide

/-- The members that are found in the class. -/
def ledgerMembers : List Member :=
  [.field
      { name := "index"
        declaredType := "util.Map<K, ? extends int[]>"
        visibility := .«private»
        isStatic := true
        isReadonly := true },
    .operation
      { name := "find"
        parameters := [{ name := "known", declaredType := "util.Map<K, ? extends int[]>" }]
        returnType := "util.Map<K, ? extends int[]>"
        visibility := .«public»
        isAbstract := true },
    .operation { name := "clear" }]

theorem read_declared_ledger :
    ledger.text = ['\n'].intercalate (
      ["class Ledger \x7b",
        "  private static final util.Map<K, ? extends int[]> index = load(\"\x7d;\");",
        "  public abstract util.Map<K, ? extends int[]> find(util.Map<K, ? extends int[]> known);",
        "  Entry$ last = open();",
        "  void clear() \x7b if (full) \x7b mark('\x7b'); \x7d \x7d",
        "\x7d"].map String.toList) ∧
    (∀ member ∈ ledger.members, member.source.operationName? ≠ some ledger.name) ∧
    ∃ rest, (read "Ledger.java" ledger.text).types =
      { name := "Ledger"
        kind := .«class»
        package := (read "Ledger.java" ledger.text).package
        members := ledgerMembers } :: rest := by
  have hnames : ∀ member ∈ ledger.members,
      member.source.operationName? ≠ some ledger.name := by
    decide +kernel
  have hmembers : ledger.members.filterMap
      (fun member => member.source.declared? ledger.kind) = ledgerMembers := by
    decide +kernel
  have hname : String.ofList ledger.name = "Ledger" := by decide +kernel
  have hread := read_declared "Ledger.java" ledger hnames
  rw [TypeSource.declared, hmembers, hname] at hread
  exact ⟨by decide +kernel, hnames, hread⟩

/-! ### A class whose only field is overlooked -/

/-- A field whose type ends in a dollar sign and whose value is a call. -/
def dollarField : FieldSource where
  modifiers := []
  modifiers_known := by decide
  type := (⟨"Foo$".toList, by decide, by decide⟩ : DeclaredName).toType
  name := ⟨"x".toList, by decide, by decide⟩
  value := some ⟨"f()".toList, by decide, by decide⟩

def dollarClass : TypeSource where
  kind := .«class»
  not_enumeration := by decide
  name := ['X']
  isIdentifier_name := by decide
  members := [⟨[' '], by decide, .field dollarField⟩]
  closing := [' ']
  isBlank_of_mem := by decide

theorem read_dollarClass :
    dollarClass.text = "class X \x7b Foo$ x = f(); \x7d".toList ∧
      (read "X.java" dollarClass.text).types = [{ name := "X", kind := .«class» }] ∧
      (read "X.java" dollarClass.text).types ≠
        [{ name := "X"
           kind := .«class»
           members := [.field (dollarField.declared .«class»)] }] := by
  decide +kernel

end ClassAtlas.Code
