import Mathlib.Data.List.Nodup
import ClassAtlas.Unit
import ClassAtlas.Proofs.Diagram.Readable

/-!
# Well-formed declarations

Readers take whatever text they are given, but a declaration that they return
is well formed. Supertypes only get into it through functions that refuse the
wrong kind of type, empty names, the type itself and repetitions; literals are
added to enumerations only and once each. The proof follows a declaration
through the reader that makes it: each step keeps it well formed, and so does
every sequence of them. In a diagram this includes the links that are folded in
after all blocks have been read.
-/

namespace ClassAtlas

open Text

namespace Declaration

variable {decl : Declaration}

/-- A declaration has a name, and its supertypes and literals are such as its
kind can have, filled, none of them twice and no supertype the type itself. -/
structure WellFormed (decl : Declaration) : Prop extends decl.Lawful where
  name_filled : decl.name ≠ ""
  literals : ∀ literal ∈ decl.literals, decl.kind = .enumeration ∧ literal ≠ ""
  literals_nodup : decl.literals.Nodup

/-! ## What each addition can do -/

theorem setSuperclass_cases (decl : Declaration) (name : String) :
    decl.setSuperclass name = decl ∨
      (decl.kind = .«class» ∧ name ≠ "" ∧ name ≠ decl.name) ∧
        decl.setSuperclass name = { decl with superclass := some name } := by
  unfold setSuperclass setSuperclass?
  split
  · exact Or.inl rfl
  · refine Or.inr ⟨?_, rfl⟩
    simp_all

theorem implement_cases (decl : Declaration) (name : String) :
    decl.implement name = decl ∨
      (name ≠ "" ∧ name ≠ decl.name) ∧ name ∉ decl.implementedInterfaces ∧
        decl.implement name =
          { decl with implementedInterfaces := decl.implementedInterfaces ++ [name] } := by
  unfold implement implement?
  split
  · exact Or.inl rfl
  · refine Or.inr ⟨?_, ?_, rfl⟩ <;> simp_all

theorem extend_cases (decl : Declaration) (name : String) :
    decl.extend name = decl ∨
      (decl.kind = .interface ∧ name ≠ "" ∧ name ≠ decl.name) ∧
        name ∉ decl.extendedInterfaces ∧
        decl.extend name =
          { decl with extendedInterfaces := decl.extendedInterfaces ++ [name] } := by
  unfold extend extend?
  split
  · exact Or.inl rfl
  · refine Or.inr ⟨?_, ?_, rfl⟩ <;> simp_all

theorem addLiteral_cases (decl : Declaration) (literal : String) :
    decl.addLiteral literal = decl ∨
      literal ∉ decl.literals ∧
        decl.addLiteral literal = { decl with literals := decl.literals ++ [literal] } := by
  unfold addLiteral
  split
  · exact Or.inl rfl
  · refine Or.inr ⟨?_, rfl⟩
    simp_all

/-! ## What keeps a declaration well formed -/

namespace WellFormed

/-- A declaration that has a name and nothing in it yet. -/
theorem new {name : String} (hname : name ≠ "") (kind : TypeKind) (package : String)
    (isAbstract : Bool) : Declaration.WellFormed { name, kind, package, isAbstract } where
  superclass := by simp
  extended := by simp
  extended_nodup := List.nodup_nil
  implemented := by simp
  implemented_nodup := List.nodup_nil
  name_filled := hname
  literals := by simp
  literals_nodup := List.nodup_nil

theorem setSuperclass (h : decl.WellFormed) (name : String) :
    (decl.setSuperclass name).WellFormed := by
  rcases decl.setSuperclass_cases name with heq | ⟨hok, heq⟩
  · rw [heq]
    exact h
  · rw [heq]
    refine { h with superclass := ?_ }
    intro other hother
    obtain rfl := Option.mem_some_iff.mp hother
    exact hok

theorem implement (h : decl.WellFormed) (name : String) : (decl.implement name).WellFormed := by
  rcases decl.implement_cases name with heq | ⟨hok, hnew, heq⟩
  · rw [heq]
    exact h
  · rw [heq]
    refine { h with
      implemented := List.forall_mem_append.mpr ⟨h.implemented, List.forall_mem_singleton.mpr hok⟩
      implemented_nodup := ?_ }
    rw [← List.concat_eq_append]
    exact List.Nodup.concat hnew h.implemented_nodup

theorem extend (h : decl.WellFormed) (name : String) : (decl.extend name).WellFormed := by
  rcases decl.extend_cases name with heq | ⟨hok, hnew, heq⟩
  · rw [heq]
    exact h
  · rw [heq]
    refine { h with
      extended := List.forall_mem_append.mpr ⟨h.extended, List.forall_mem_singleton.mpr hok⟩
      extended_nodup := ?_ }
    rw [← List.concat_eq_append]
    exact List.Nodup.concat hnew h.extended_nodup

theorem addLiteral (h : decl.WellFormed) (hkind : decl.kind = .enumeration) {literal : String}
    (hliteral : literal ≠ "") : (decl.addLiteral literal).WellFormed := by
  rcases decl.addLiteral_cases literal with heq | ⟨hnew, heq⟩
  · rw [heq]
    exact h
  · rw [heq]
    refine { h with
      literals := List.forall_mem_append.mpr
        ⟨h.literals, List.forall_mem_singleton.mpr ⟨hkind, hliteral⟩⟩
      literals_nodup := ?_ }
    rw [← List.concat_eq_append]
    exact List.Nodup.concat hnew h.literals_nodup

/-- Members play no part. -/
theorem withMembers (h : decl.WellFormed) (members : List Member) :
    { decl with members }.WellFormed :=
  { h with }

theorem foldl {α : Type} {step : Declaration → α → Declaration} (h : decl.WellFormed)
    (items : List α)
    (hstep : ∀ decl : Declaration, decl.WellFormed → ∀ item ∈ items, (step decl item).WellFormed) :
    (items.foldl step decl).WellFormed :=
  List.foldlRecOn (motive := WellFormed) items step h hstep

end WellFormed

theorem name_addLiteral (decl : Declaration) (literal : String) :
    (decl.addLiteral literal).name = decl.name ∧ (decl.addLiteral literal).kind = decl.kind := by
  rcases decl.addLiteral_cases literal with heq | ⟨-, heq⟩
  · rw [heq]
    exact ⟨rfl, rfl⟩
  · rw [heq]
    exact ⟨rfl, rfl⟩

/-- Adding literals to an enumeration keeps it well formed, and its name as it
is. -/
theorem WellFormed.foldl_addLiteral (h : decl.WellFormed) (hkind : decl.kind = .enumeration)
    {literals : List String} (hliterals : ∀ literal ∈ literals, literal ≠ "") :
    (literals.foldl Declaration.addLiteral decl).WellFormed ∧
      (literals.foldl Declaration.addLiteral decl).name = decl.name := by
  induction literals generalizing decl with
  | nil => exact ⟨h, rfl⟩
  | cons literal literals ih =>
      obtain ⟨hliteral, hliterals⟩ := List.forall_mem_cons.mp hliterals
      obtain ⟨hname, hkind'⟩ := decl.name_addLiteral literal
      obtain ⟨hformed, hsame⟩ := ih (h.addLiteral hkind hliteral) (hkind'.trans hkind) hliterals
      exact ⟨hformed, hsame.trans hname⟩

end Declaration

open Declaration

theorem ofList_ne_empty {s : List Char} (h : s ≠ []) : String.ofList s ≠ "" := by
  intro heq
  exact h (by simpa using congrArg String.toList heq)

/-! ## Diagrams -/

namespace Diagram

variable {decl : Declaration}

theorem name_filled_of_header? {line : List Char} {header : Header}
    (h : header? line = some header) : header.name ≠ "" := by
  unfold header? at h
  obtain ⟨⟨parts, rest⟩, -, h⟩ := Option.bind_eq_some_iff.mp h
  dsimp only at h
  split at h
  next => contradiction
  next hfilled =>
    obtain rfl := Option.some.inj h
    exact ofList_ne_empty (by simpa using hfilled)

/-- Every block of a diagram starts with a line that is its header. -/
theorem exists_header?_of_mem_items {lines body : List (List Char)} {header : Header}
    (h : .block header body ∈ items lines) : ∃ line, header? line = some header := by
  have hstep : ∀ line rest, .block header body ∈ (readItem line rest).1 →
      ∃ line, header? line = some header := by
    intro line rest hmem
    unfold readItem at hmem
    repeat' split at hmem
    all_goals simp at hmem
    next found hfound _ _ _ _ =>
      obtain ⟨rfl, -⟩ := hmem
      exact ⟨line, hfound⟩
  fun_induction items lines with
  | case1 => contradiction
  | case2 line rest ih =>
      rcases List.mem_append.mp h with hfirst | hrest
      · exact hstep line rest hfirst
      · exact ih hrest

theorem wellFormed_extendBy (h : decl.WellFormed) (parent : String) :
    (extendBy decl parent).WellFormed := by
  unfold extendBy
  split
  · split
    · exact h.setSuperclass parent
    · exact h
  · exact h.extend parent
  · exact h

theorem wellFormed_withSupertypes (h : decl.WellFormed) (header : Header) :
    (withSupertypes decl header).WellFormed := by
  unfold withSupertypes
  have hextended := h.foldl header.extended fun decl hdecl parent _ =>
    wellFormed_extendBy hdecl parent
  exact hextended.foldl header.implemented fun decl hdecl name _ => hdecl.implement name

theorem filled_of_mem_literalNames {line : List Char} {literal : String}
    (h : literal ∈ literalNames line) : literal ≠ "" := by
  obtain ⟨name, hname, rfl⟩ := List.mem_map.mp h
  exact ofList_ne_empty (by simpa using (List.mem_filter.mp hname).2)

theorem wellFormed_addBodyLine {state : Declaration × ProblemLog} (h : state.1.WellFormed)
    (line : List Char) : (addBodyLine state line).1.WellFormed := by
  unfold addBodyLine
  dsimp only
  split
  · exact h
  · split
    next hliterals =>
      rw [Bool.and_eq_true, decide_eq_true_eq] at hliterals
      exact (h.foldl_addLiteral hliterals.1 fun _ => filled_of_mem_literalNames).1
    next =>
      split
      · exact h.withMembers _
      · exact h

theorem wellFormed_declaration (log : ProblemLog) (package : String) {header : Header}
    (hname : header.name ≠ "") (body : List (List Char)) :
    (declaration log package header body).1.WellFormed := by
  unfold declaration
  refine List.foldlRecOn (motive := fun state => state.1.WellFormed) (body.map trim) addBodyLine
    ?_ ?_
  · exact wellFormed_withSupertypes (.new hname _ _ _) header
  · intro state hstate line _
    exact wellFormed_addBodyLine hstate line

/-- Gathering the items of a diagram gathers well-formed declarations. -/
theorem wellFormed_foldl_gather (lines : List (List Char)) (log : ProblemLog) :
    ∀ decl ∈ ((items lines).foldl gather { log }).types, decl.WellFormed := by
  refine List.foldlRecOn (motive := fun state => ∀ decl ∈ state.types, decl.WellFormed)
    (items lines) gather ?_ ?_
  · intro decl hdecl
    contradiction
  · intro state hstate item hitem
    cases item with
    | block header body =>
        obtain ⟨line, hheader⟩ := exists_header?_of_mem_items hitem
        refine List.forall_mem_append.mpr ⟨hstate, List.forall_mem_singleton.mpr ?_⟩
        exact wellFormed_declaration _ _ (name_filled_of_header? hheader) body
    | openPackage _ => exact hstate
    | closePackage => exact hstate
    | unclosed _ => exact hstate
    | link _ => exact hstate
    | stray _ => exact hstate

theorem wellFormed_addSupertype (h : decl.WellFormed) (link : Relationship) :
    (addSupertype link decl).WellFormed := by
  unfold addSupertype
  split
  · exact wellFormed_extendBy h link.target
  · exact h.implement link.target
  · exact h

theorem wellFormed_updateFirst {change : Declaration → Declaration}
    (hchange : ∀ decl : Declaration, decl.WellFormed → (change decl).WellFormed) (name : String)
    {types : List Declaration} (h : ∀ decl ∈ types, decl.WellFormed) :
    ∀ decl ∈ updateFirst name change types, decl.WellFormed := by
  induction types with
  | nil => exact h
  | cons decl types ih =>
      obtain ⟨hdecl, htypes⟩ := List.forall_mem_cons.mp h
      unfold updateFirst
      split
      · exact List.forall_mem_cons.mpr ⟨hchange decl hdecl, htypes⟩
      · exact List.forall_mem_cons.mpr ⟨hdecl, ih htypes⟩

theorem wellFormed_foldl_applyLink {state : List Declaration × List Relationship}
    (h : ∀ decl ∈ state.1, decl.WellFormed) (links : List Relationship) :
    ∀ decl ∈ (links.foldl applyLink state).1, decl.WellFormed := by
  refine List.foldlRecOn (motive := fun state => ∀ decl ∈ state.1, decl.WellFormed) links applyLink
    h ?_
  intro state hstate link _
  unfold applyLink
  dsimp only
  split
  · exact wellFormed_updateFirst (fun decl hdecl => wellFormed_addSupertype hdecl link) _ hstate
  · exact hstate

theorem wellFormed_of_mem_read {unit : String} {text : List Char}
    (h : decl ∈ (read unit text).types) : decl.WellFormed :=
  wellFormed_foldl_applyLink (wellFormed_foldl_gather _ _) _ decl h

end Diagram

/-! ## Source code -/

namespace Code

open Pattern

variable {decl : Declaration}

theorem name_ne_nil_of_typeHeader {lineStart : Bool} {s rest : List Char} {header : TypeHeader}
    (h : (typeHeader lineStart).first? s = some (header, rest)) : header.name ≠ [] := by
  have hmem := mem_readings_of_first? h
  unfold typeHeader at hmem
  obtain ⟨separator, s, -, hmem⟩ := mem_readings_bind.mp hmem
  obtain ⟨modifiers, s, -, hmem⟩ := mem_readings_bind.mp hmem
  obtain ⟨kind, s, -, hmem⟩ := mem_readings_bind.mp hmem
  obtain ⟨-, s, -, hmem⟩ := mem_readings_bind.mp hmem
  obtain ⟨name, s, hname, hmem⟩ := mem_readings_bind.mp hmem
  obtain ⟨rfl, rfl⟩ := mem_readings_pure.mp hmem
  obtain ⟨rfl, _, htaken⟩ := mem_readings_taken.mp hname
  obtain ⟨c, more, hfirst, hmore⟩ := mem_readings_bind.mp htaken
  obtain ⟨rfl, -⟩ := mem_readings_one.mp hfirst
  obtain ⟨a, rfl, -⟩ := mem_readings_skip.mp hmore
  rw [← List.cons_append, text_span_append]
  exact List.cons_ne_nil c a

theorem name_ne_nil_of_mem_findHeaders {skipped : ℕ} {lineStart : Bool} {ink : Option Char}
    {s : List Char} {found : FoundHeader} (h : found ∈ findHeaders skipped lineStart ink s) :
    found.header.name ≠ [] := by
  fun_induction findHeaders skipped lineStart ink s with
  | case1 => contradiction
  | case2 _ _ _ _ _ ih => exact ih h
  | case3 _ _ _ _ _ ih => exact ih h
  | case4 _ _ _ _ header _ hheader _ ih =>
      rcases List.mem_cons.mp h with rfl | hrest
      · exact name_ne_nil_of_typeHeader hheader
      · exact ih hrest

theorem wellFormed_withSupertypes (h : decl.WellFormed) (extended implemented : List String) :
    (withSupertypes decl extended implemented).WellFormed := by
  unfold withSupertypes
  dsimp only
  refine Declaration.WellFormed.foldl ?_ implemented fun decl hdecl name _ => hdecl.implement name
  split
  · exact h.foldl _ fun decl hdecl name _ => hdecl.setSuperclass name
  · exact h.foldl _ fun decl hdecl name _ => hdecl.extend name
  · exact h

theorem wellFormed_declarationOf (package : String) {header : TypeHeader}
    (hname : header.name ≠ []) (extended implemented : Option (List Char)) :
    (declarationOf package header extended implemented).WellFormed :=
  wellFormed_withSupertypes (.new (ofList_ne_empty hname) _ _ _) _ _

theorem filled_of_mem_splitEnumBody {projected : List Char} {literal : String}
    (h : literal ∈ (splitEnumBody projected).1) : literal ≠ "" := by
  unfold splitEnumBody at h
  obtain ⟨name, hname, rfl⟩ := List.mem_map.mp h
  obtain ⟨line, -, hname⟩ := List.mem_flatMap.mp hname
  obtain ⟨piece, -, hname⟩ := List.mem_filterMap.mp hname
  unfold literalName? at hname
  dsimp only at hname
  split at hname
  next hliteral =>
    obtain rfl := Option.some.inj hname
    apply ofList_ne_empty
    rintro hnil
    rw [hnil] at hliteral
    contradiction
  next => contradiction

/-- A constructor is no operation of its type. -/
theorem operation_name_ne {ownerName statement : List Char} {owner : TypeKind}
    {operation : Operation} (h : operation? ownerName owner statement = some operation) :
    operation.name ≠ String.ofList ownerName := by
  unfold operation? at h
  obtain ⟨⟨head, rest⟩, -, h⟩ := Option.bind_eq_some_iff.mp h
  dsimp only at h
  split at h
  next => contradiction
  next =>
    obtain ⟨⟨inside, tail⟩, -, h⟩ := Option.bind_eq_some_iff.mp h
    dsimp only at h
    split at h
    next => contradiction
    next hconstructor =>
      rw [Bool.or_eq_true, not_or, decide_eq_true_eq] at hconstructor
      obtain rfl := Option.some.inj h
      exact fun heq => hconstructor.2 (String.ofList_injective heq)

theorem operation_name_ne_of_mem_members {ownerName text : List Char} {owner : TypeKind}
    {operation : Operation} (h : .operation operation ∈ members ownerName owner text) :
    operation.name ≠ String.ofList ownerName := by
  obtain ⟨statement, -, hmember⟩ := List.mem_filterMap.mp h
  unfold member? at hmember
  split at hmember
  next =>
    have := Option.some.inj hmember
    contradiction
  next =>
    obtain ⟨found, hfound, heq⟩ := Option.map_eq_some_iff.mp hmember
    obtain rfl := Member.operation.inj heq
    exact operation_name_ne hfound

/-- A body adds members and, to an enumeration, literals. -/
theorem wellFormed_withBody (h : decl.WellFormed) (body : List Char) :
    (withBody decl body).WellFormed ∧
      ∀ operation ∈ (withBody decl body).operations,
        operation.name ≠ (withBody decl body).name := by
  have hoperations : ∀ (kind : TypeKind) (text : List Char) (operation : Operation),
      operation ∈ (members decl.name.toList kind text).filterMap Member.operation? →
      operation.name ≠ decl.name := by
    intro kind text operation hmem
    obtain ⟨member, hmember, heq⟩ := List.mem_filterMap.mp hmem
    cases member with
    | field _ => contradiction
    | operation found =>
        obtain rfl := Option.some.inj heq
        simpa using operation_name_ne_of_mem_members hmember
  unfold withBody
  dsimp only
  split
  next hkind =>
    obtain ⟨hformed, hname⟩ := h.foldl_addLiteral hkind fun _ => filled_of_mem_splitEnumBody
    refine ⟨hformed.withMembers _, ?_⟩
    intro operation hoperation
    exact fun heq => hoperations _ _ operation hoperation (heq.trans hname)
  next => exact ⟨h.withMembers _, hoperations _ _⟩

/-- A declaration that is found has the parts of a header and a body. -/
theorem exists_of_declaration? {unit package : String} {found : FoundHeader}
    (h : declaration? unit package found = .ok (some decl)) :
    ∃ extended implemented body,
      decl = withBody (declarationOf package found.header extended implemented) body := by
  unfold declaration? at h
  dsimp only at h
  split at h
  next =>
    split at h
    next => contradiction
    next extended implemented _ _ =>
      split at h
      next => contradiction
      next body _ _ =>
        obtain rfl := Option.some.inj (Except.ok.inj h)
        exact ⟨extended, implemented, body, rfl⟩
  next =>
    have := Except.ok.inj h
    contradiction

theorem wellFormed_of_mem_read {unit : String} {source : List Char}
    (h : decl ∈ (read unit source).types) :
    decl.WellFormed ∧ ∀ operation ∈ decl.operations, operation.name ≠ decl.name := by
  obtain ⟨outcome, houtcome, hdecl⟩ := List.mem_filterMap.mp h
  obtain ⟨found, hfound, rfl⟩ := List.mem_map.mp houtcome
  split at hdecl
  next kept hkept =>
    obtain rfl := hdecl
    obtain ⟨extended, implemented, body, rfl⟩ := exists_of_declaration? hkept
    have hname := name_ne_nil_of_mem_findHeaders hfound
    exact wellFormed_withBody (wellFormed_declarationOf _ hname extended implemented) body
  next => contradiction

end Code

/-- Every declaration that is read from a unit, as source code or as a diagram,
is well formed, and no operation that is read from source code is named like its
type. -/
theorem read_wellFormed (dialect : Dialect) (unit : String) (text : List Char)
    {decl : Declaration} (h : decl ∈ (dialect.read unit text).types) :
    decl.WellFormed ∧
      (dialect = .code → ∀ operation ∈ decl.operations, operation.name ≠ decl.name) := by
  cases dialect with
  | code =>
      obtain ⟨hformed, hoperations⟩ := Code.wellFormed_of_mem_read h
      exact ⟨hformed, fun _ => hoperations⟩
  | diagram => exact ⟨Diagram.wellFormed_of_mem_read h, fun hcode => by contradiction⟩

/-- A class that extends itself and names an interface twice keeps the interface
once; its constructor is no operation. -/
theorem read_wellFormed_looped :
    ∃ decl ∈ (Dialect.code.read "loop"
        "class A extends A implements B, B \x7b A() \x7b\x7d B b(); \x7d".toList).types,
      (decl.name = "A" ∧ decl.implementedInterfaces = ["B"] ∧ decl.operations.length = 1) ∧
        decl.WellFormed ∧ ∀ operation ∈ decl.operations, operation.name ≠ decl.name := by
  let decl : Declaration := {
    name := "A"
    kind := .«class»
    implementedInterfaces := ["B"]
    members := [.operation { name := "b", returnType := "B" }] }
  have hmem : decl ∈ (Dialect.code.read "loop"
      "class A extends A implements B, B \x7b A() \x7b\x7d B b(); \x7d".toList).types := by
    decide +kernel
  obtain ⟨hformed, hoperations⟩ := read_wellFormed .code "loop" _ hmem
  exact ⟨decl, hmem, ⟨rfl, rfl, rfl⟩, hformed, hoperations rfl⟩

end ClassAtlas
