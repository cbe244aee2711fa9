import Mathlib.Data.List.Nodup
import ClassAtlas.Proofs.Assembly.Nodes
import ClassAtlas.Proofs.Text.Cutting

/-!
# Distinct paths

A path is a text: the names and numbers on the way to an element, with slashes
between them. Two elements at different places have different paths as long as
no type name holds a slash itself. The argument goes through the steps of a
path, the texts between its slashes: an element below another has the steps of
the other in front of its own, so two elements of which neither is below the
other head disjoint sets of paths.

Without the condition on names the statement fails: a type that is named
`A/field/0` shares its path with the first attribute of `A`.
-/

namespace ClassAtlas

namespace Assembling

open Text

/-! ## The steps of a path -/

/-- The texts between the slashes of a path. -/
def steps (path : String) : List (List Char) :=
  path.toList.splitOn '/'

theorem steps_append (path more : String) :
    steps (path ++ "/" ++ more) = steps path ++ steps more := by
  have htext : (path ++ "/" ++ more).toList = path.toList ++ '/' :: more.toList := by
    simp [String.toList_append]
  rw [steps, htext]
  exact List.splitOn_append_cons_self _ _

theorem steps_of_notMem {name : String} (h : '/' ∉ name.toList) :
    steps name = [name.toList] :=
  List.splitOn_eq_singleton h

theorem steps_ne_nil (path : String) : steps path ≠ [] :=
  List.splitOn_ne_nil _ _

theorem slash_notMem_toString (n : ℕ) : '/' ∉ (toString n).toList := by
  intro hmem
  rw [Nat.toString_eq_ofList_toDigits, String.toList_ofList] at hmem
  have hdigit := Nat.isDigit_of_mem_toDigits (by omega) (by omega) hmem
  contradiction

theorem toString_nat_inj {m n : ℕ} (h : toString m = toString n) : m = n := by
  rw [Nat.toString_eq_ofList_toDigits, Nat.toString_eq_ofList_toDigits,
    String.ofList_inj] at h
  rw [← Nat.ofDigitChars_ten_toDigits (n := m), h, Nat.ofDigitChars_ten_toDigits]

theorem steps_typePath (name : String) : steps (typePath name) = "type".toList :: steps name :=
  steps_append "type" name

theorem steps_primitivePath (name : String) :
    steps (primitivePath name) = "primitive".toList :: steps name :=
  steps_append "primitive" name

theorem append_return (path : String) : path ++ "/return" = path ++ "/" ++ "return" := by
  rw [String.append_assoc]
  rfl

theorem append_literal (path literal : String) :
    path ++ "/literal/" ++ literal = path ++ "/" ++ "literal" ++ "/" ++ literal := by
  have hpart : "/literal/" = "/" ++ "literal" ++ "/" := rfl
  simp only [hpart, String.append_assoc]

theorem append_end (path part : String) :
    path ++ ("/end/" ++ part) = path ++ "/" ++ "end" ++ "/" ++ part := by
  have hpart : "/end/" = "/" ++ "end" ++ "/" := rfl
  simp only [hpart, String.append_assoc]

/-! ## Elements below others -/

/-- The other path leads through this one. -/
def Below (path other : String) : Prop :=
  steps path <+: steps other

theorem Below.refl (path : String) : Below path path :=
  List.prefix_refl _

theorem below_append (path more : String) : Below path (path ++ "/" ++ more) := by
  rw [Below, steps_append]
  exact List.prefix_append _ _

theorem Below.trans {first second third : String}
    (h : Below first second) (h' : Below second third) : Below first third :=
  List.IsPrefix.trans h h'

/-- Two places at the same depth that one path leads through are the same. -/
theorem Below.steps_eq
    {first second path : String} (h : Below first path) (h' : Below second path)
    (hdepth : (steps first).length = (steps second).length) :
    steps first = steps second := by
  have hprefix := List.prefix_of_prefix_length_le h h' (le_of_eq hdepth)
  exact hprefix.eq_of_length hdepth

theorem Below.length_le {path other : String} (h : Below path other) :
    (steps path).length ≤ (steps other).length :=
  List.IsPrefix.length_le h

/-- Two parts of one path head disjoint sets of paths. -/
theorem Below.part_eq
    {path first second other : String} (h : Below (path ++ "/" ++ first) other)
    (h' : Below (path ++ "/" ++ second) other) (hfirst : '/' ∉ first.toList)
    (hsecond : '/' ∉ second.toList) : first = second := by
  have hsteps := h.steps_eq h' (by
    rw [steps_append, steps_append, steps_of_notMem hfirst, steps_of_notMem hsecond]
    simp)
  rw [steps_append, steps_append, steps_of_notMem hfirst, steps_of_notMem hsecond,
    List.append_cancel_left_eq, List.singleton_inj] at hsteps
  exact String.toList_inj.mp hsteps

theorem below_numbered (path part : String) (index : ℕ) :
    Below (path ++ "/" ++ part) (numbered path part index) :=
  below_append (path ++ "/" ++ part) (toString index)

theorem below_literal (path literal : String) :
    Below (path ++ "/" ++ "literal") (path ++ "/literal/" ++ literal) := by
  rw [append_literal]
  exact below_append _ literal

theorem Below.index_eq
    {path part other : String} {i j : ℕ} (h : Below (numbered path part i) other)
    (h' : Below (numbered path part j) other) : i = j :=
  toString_nat_inj
    (Below.part_eq h h' (slash_notMem_toString i) (slash_notMem_toString j))

theorem ne_of_below_append
    {path part other : String} (h : Below (path ++ "/" ++ part) other) : other ≠ path := by
  rintro rfl
  have hlength := h.length_le
  rw [steps_append, List.length_append] at hlength
  have hne := List.length_pos_iff.mpr (steps_ne_nil part)
  omega

/-! ## No path is issued twice -/

theorem exists_of_mem_parameterPaths
    {path other : String} {index : ℕ} {parameters : List Parameter}
    (h : other ∈ parameterPaths path index parameters) :
    ∃ i, index ≤ i ∧ other = numbered path "param" i := by
  induction parameters generalizing index with
  | nil => contradiction
  | cons parameter rest ih =>
      rcases List.mem_cons.mp h with rfl | hmem
      · exact ⟨index, le_refl index, rfl⟩
      · obtain ⟨i, hle, hother⟩ := ih hmem
        exact ⟨i, by omega, hother⟩

theorem nodup_parameterPaths (path : String) (index : ℕ) (parameters : List Parameter) :
    (parameterPaths path index parameters).Nodup := by
  induction parameters generalizing index with
  | nil => exact List.nodup_nil
  | cons parameter rest ih =>
      refine List.nodup_cons.mpr ⟨?_, ih (index + 1)⟩
      intro hmem
      obtain ⟨i, hle, heq⟩ := exists_of_mem_parameterPaths hmem
      have hbelow : Below (numbered path "param" index) (numbered path "param" i) := by
        rw [heq]
        exact Below.refl _
      have hindex := hbelow.index_eq (Below.refl _)
      omega

/-- Apart from the operation itself, its parts are below one of two places. -/
theorem cases_of_mem_issuedOperationPaths
    {path other : String} {operation : Operation}
    (h : other ∈ issuedOperationPaths path operation) :
    other = path ∨ Below (path ++ "/" ++ "param") other ∨ other = path ++ "/" ++ "return" := by
  rcases List.mem_cons.mp h with rfl | hmem
  · exact Or.inl rfl
  rcases List.mem_append.mp hmem with hparameter | hreturn
  · obtain ⟨i, -, rfl⟩ := exists_of_mem_parameterPaths hparameter
    exact Or.inr (Or.inl (below_numbered path "param" i))
  · split at hreturn
    · contradiction
    · rw [List.mem_singleton.mp hreturn, append_return]
      exact Or.inr (Or.inr rfl)

theorem below_of_mem_issuedOperationPaths
    {path other : String} {operation : Operation}
    (h : other ∈ issuedOperationPaths path operation) : Below path other := by
  rcases cases_of_mem_issuedOperationPaths h with rfl | hparameter | rfl
  · exact Below.refl other
  · exact (below_append path "param").trans hparameter
  · exact below_append path "return"

theorem nodup_issuedOperationPaths (path : String) (operation : Operation) :
    (issuedOperationPaths path operation).Nodup := by
  refine List.nodup_cons.mpr ⟨?_, List.nodup_append.mpr ⟨nodup_parameterPaths _ _ _, ?_, ?_⟩⟩
  · intro hmem
    rcases List.mem_append.mp hmem with hparameter | hreturn
    · obtain ⟨i, -, heq⟩ := exists_of_mem_parameterPaths hparameter
      exact ne_of_below_append (below_numbered path "param" i) heq.symm
    · split at hreturn
      · contradiction
      · rw [List.mem_singleton, append_return] at hreturn
        exact ne_of_below_append (Below.refl (path ++ "/" ++ "return")) hreturn.symm
  · split
    · exact List.nodup_nil
    · exact List.nodup_singleton _
  · intro parameter hparameter result hresult heq
    obtain ⟨i, -, rfl⟩ := exists_of_mem_parameterPaths hparameter
    split at hresult
    · contradiction
    · have hreturn : Below (path ++ "/" ++ "return") (numbered path "param" i) := by
        rw [heq, List.mem_singleton.mp hresult, append_return]
        exact Below.refl _
      have hparts := Below.part_eq hreturn (below_numbered path "param" i) (by decide) (by decide)
      contradiction

theorem cases_of_mem_issuedMemberPaths
    {path other : String} {fields operations : ℕ} {members : List Member}
    (h : other ∈ issuedMemberPaths path fields operations members) :
    (∃ i, fields ≤ i ∧ other = numbered path "field" i) ∨
      ∃ i, operations ≤ i ∧ Below (numbered path "op" i) other := by
  induction members generalizing fields operations with
  | nil => contradiction
  | cons member rest ih =>
      cases member with
      | field field =>
          rcases List.mem_cons.mp h with rfl | hmem
          · exact Or.inl ⟨fields, le_refl fields, rfl⟩
          · rcases ih hmem with ⟨i, hle, hother⟩ | hoperation
            · exact Or.inl ⟨i, by omega, hother⟩
            · exact Or.inr hoperation
      | operation operation =>
          rcases List.mem_append.mp h with hmem | hmem
          · exact Or.inr ⟨operations, le_refl operations, below_of_mem_issuedOperationPaths hmem⟩
          · rcases ih hmem with hfield | ⟨i, hle, hother⟩
            · exact Or.inl hfield
            · exact Or.inr ⟨i, by omega, hother⟩

/-- An attribute and an operation are below different places. -/
theorem not_below_op_field (path : String) (i j : ℕ) :
    ¬Below (numbered path "op" i) (numbered path "field" j) := by
  intro hbelow
  have hparts := Below.part_eq ((below_numbered path "op" i).trans hbelow)
    (below_numbered path "field" j) (by decide) (by decide)
  contradiction

theorem nodup_issuedMemberPaths
    (path : String) (fields operations : ℕ) (members : List Member) :
    (issuedMemberPaths path fields operations members).Nodup := by
  induction members generalizing fields operations with
  | nil => exact List.nodup_nil
  | cons member rest ih =>
      cases member with
      | field field =>
          refine List.nodup_cons.mpr ⟨?_, ih (fields + 1) operations⟩
          intro hmem
          rcases cases_of_mem_issuedMemberPaths hmem with ⟨i, hle, heq⟩ | ⟨i, -, hbelow⟩
          · have hbelow : Below (numbered path "field" fields) (numbered path "field" i) := by
              rw [heq]
              exact Below.refl _
            have hindex := hbelow.index_eq (Below.refl _)
            omega
          · exact not_below_op_field path i fields hbelow
      | operation operation =>
          refine List.nodup_append.mpr
            ⟨nodup_issuedOperationPaths _ operation, ih fields (operations + 1), ?_⟩
          rintro part hpart other hother rfl
          have hbelow := below_of_mem_issuedOperationPaths hpart
          rcases cases_of_mem_issuedMemberPaths hother with ⟨i, -, rfl⟩ | ⟨i, hle, hbelow'⟩
          · exact not_below_op_field path operations i hbelow
          · have hindex := Below.index_eq hbelow hbelow'
            omega

/-- Apart from the type itself, its parts are below one of three places. -/
theorem cases_of_mem_issuedDeclarationPaths
    {other : String} {decl : Declaration} (h : other ∈ issuedDeclarationPaths decl) :
    other = typePath decl.name ∨
      ∃ part, (part = "field" ∨ part = "op" ∨ part = "literal") ∧
        Below (typePath decl.name ++ "/" ++ part) other := by
  rcases List.mem_cons.mp h with rfl | hmem
  · exact Or.inl rfl
  refine Or.inr ?_
  rcases List.mem_append.mp hmem with hmember | hliteral
  · rcases cases_of_mem_issuedMemberPaths hmember with ⟨i, -, rfl⟩ | ⟨i, -, hbelow⟩
    · exact ⟨"field", by simp, below_numbered _ _ i⟩
    · exact ⟨"op", by simp, (below_numbered _ _ i).trans hbelow⟩
  · obtain ⟨literal, -, rfl⟩ := List.mem_map.mp hliteral
    exact ⟨"literal", by simp, below_literal _ literal⟩

theorem below_of_mem_issuedDeclarationPaths
    {other : String} {decl : Declaration} (h : other ∈ issuedDeclarationPaths decl) :
    Below (typePath decl.name) other := by
  rcases cases_of_mem_issuedDeclarationPaths h with rfl | ⟨part, -, hbelow⟩
  · exact Below.refl _
  · exact (below_append _ part).trans hbelow

theorem nodup_issuedDeclarationPaths {decl : Declaration} (h : decl.literals.Nodup) :
    (issuedDeclarationPaths decl).Nodup := by
  refine List.nodup_cons.mpr ⟨?_, List.nodup_append.mpr ⟨nodup_issuedMemberPaths _ _ _ _, ?_, ?_⟩⟩
  · intro hmem
    rcases List.mem_append.mp hmem with hmember | hliteral
    · rcases cases_of_mem_issuedMemberPaths hmember with ⟨i, -, heq⟩ | ⟨i, -, hbelow⟩
      · exact ne_of_below_append (below_numbered _ "field" i) heq.symm
      · exact ne_of_below_append ((below_numbered _ "op" i).trans hbelow) rfl
    · obtain ⟨literal, -, heq⟩ := List.mem_map.mp hliteral
      exact ne_of_below_append (below_literal _ literal) heq
  · apply h.map
    intro literal other heq
    exact (String.append_right_inj _).mp heq
  · rintro member hmember other hother rfl
    obtain ⟨literal, -, rfl⟩ := List.mem_map.mp hother
    have hliteral := below_literal (typePath decl.name) literal
    rcases cases_of_mem_issuedMemberPaths hmember with ⟨i, -, heq⟩ | ⟨i, -, hbelow⟩
    · have hparts := Below.part_eq hliteral (heq ▸ below_numbered _ "field" i)
        (by decide) (by decide)
      contradiction
    · have hparts := Below.part_eq hliteral ((below_numbered _ "op" i).trans hbelow)
        (by decide) (by decide)
      contradiction

theorem exists_of_mem_issuedEndPaths
    {path other : String} {link : Relationship} (h : other ∈ issuedEndPaths path link) :
    ∃ part, other = path ++ "/" ++ "end" ++ "/" ++ part := by
  unfold issuedEndPaths at h
  split at h
  · rcases List.mem_pair.mp h with rfl | rfl
    · exact ⟨"source", append_end path "source"⟩
    · exact ⟨"target", append_end path "target"⟩
  · contradiction

theorem nodup_issuedEndPaths (path : String) (link : Relationship) :
    (issuedEndPaths path link).Nodup := by
  unfold issuedEndPaths
  split
  · simp [String.append_right_inj]
  · exact List.nodup_nil

theorem exists_of_mem_issuedLinkPaths
    {other : String} {index : ℕ} {links : List Relationship}
    (h : other ∈ issuedLinkPaths index links) :
    ∃ i, index ≤ i ∧ Below ("rel" ++ "/" ++ toString i) other := by
  induction links generalizing index with
  | nil => contradiction
  | cons link rest ih =>
      rcases List.mem_append.mp h with hend | hmem
      · obtain ⟨part, rfl⟩ := exists_of_mem_issuedEndPaths hend
        exact ⟨index, le_refl index, (below_append _ "end").trans (below_append _ part)⟩
      · rcases List.mem_cons.mp hmem with rfl | hrest
        · exact ⟨index, le_refl index, Below.refl _⟩
        · obtain ⟨i, hle, hbelow⟩ := ih hrest
          exact ⟨i, by omega, hbelow⟩

theorem nodup_issuedLinkPaths (index : ℕ) (links : List Relationship) :
    (issuedLinkPaths index links).Nodup := by
  induction links generalizing index with
  | nil => exact List.nodup_nil
  | cons link rest ih =>
      have hnew : ∀ other, Below ("rel" ++ "/" ++ toString index) other →
          other ∉ issuedLinkPaths (index + 1) rest := by
        intro other hbelow hmem
        obtain ⟨i, hle, hbelow'⟩ := exists_of_mem_issuedLinkPaths hmem
        have hindex : index = i := toString_nat_inj
          (Below.part_eq hbelow hbelow' (slash_notMem_toString index) (slash_notMem_toString i))
        omega
      refine List.nodup_append.mpr
        ⟨nodup_issuedEndPaths _ link,
          List.nodup_cons.mpr ⟨hnew _ (Below.refl _), ih (index + 1)⟩, ?_⟩
      rintro path hpath other hother rfl
      obtain ⟨part, rfl⟩ := exists_of_mem_issuedEndPaths hpath
      have hbelow := below_append ("rel" ++ "/" ++ toString index ++ "/" ++ "end") part
      rcases List.mem_cons.mp hother with heq | hrest
      · exact ne_of_below_append hbelow heq
      · exact hnew _ ((below_append _ "end").trans hbelow) hrest

end Assembling

open Assembling

namespace Model

variable {model : Model}

/-- The first step of a path tells what kind of element it is for. -/
theorem head?_steps_of_mem_types {path : String}
    (h : path ∈ model.types.flatMap issuedDeclarationPaths) :
    (steps path).head? = some "type".toList := by
  obtain ⟨decl, -, hmem⟩ := List.mem_flatMap.mp h
  obtain ⟨more, hsteps⟩ := below_of_mem_issuedDeclarationPaths hmem
  rw [← hsteps, steps_typePath]
  rfl

theorem head?_steps_of_mem_links {path : String} {links : List Relationship}
    (h : path ∈ issuedLinkPaths 0 links) : (steps path).head? = some "rel".toList := by
  obtain ⟨i, -, more, hsteps⟩ := exists_of_mem_issuedLinkPaths h
  rw [← hsteps, steps_append]
  rfl

theorem head?_steps_of_mem_primitives {path : String}
    (h : path ∈ TypeText.primitiveNames.map primitivePath) :
    (steps path).head? = some "primitive".toList := by
  obtain ⟨name, -, rfl⟩ := List.mem_map.mp h
  rw [steps_primitivePath]
  rfl

/-- If no type name holds a slash, every path is issued for one element only. -/
theorem Consistent.nodup_issuedPaths
    (h : model.Consistent) (hnames : ∀ name ∈ model.names, '/' ∉ name.toList)
    (hliterals : ∀ decl ∈ model.types, decl.literals.Nodup) :
    model.issuedPaths.Nodup := by
  have htypes : (model.types.flatMap issuedDeclarationPaths).Nodup := by
    refine List.nodup_flatMap.mpr ⟨fun decl hdecl => nodup_issuedDeclarationPaths
      (hliterals decl hdecl), ?_⟩
    have hpairs := List.pairwise_map.mp h.names_nodup
    refine hpairs.imp_of_mem ?_
    intro first second hfirst hsecond hne path hmem hmem'
    apply hne
    have hbelow : Below ("type" ++ "/" ++ first.name) path :=
      below_of_mem_issuedDeclarationPaths hmem
    have hbelow' : Below ("type" ++ "/" ++ second.name) path :=
      below_of_mem_issuedDeclarationPaths hmem'
    exact hbelow.part_eq hbelow' (hnames _ (List.mem_map_of_mem hfirst))
      (hnames _ (List.mem_map_of_mem hsecond))
  have hroot : (steps "model").head? = some "model".toList := by decide
  refine List.nodup_cons.mpr ⟨?_, List.nodup_append.mpr ⟨by decide,
    List.nodup_append.mpr ⟨htypes, nodup_issuedLinkPaths 0 _, ?_⟩, ?_⟩⟩
  · intro hmem
    rcases List.mem_append.mp hmem with hprimitive | hmem
    · have hhead := hroot.symm.trans (head?_steps_of_mem_primitives hprimitive)
      contradiction
    rcases List.mem_append.mp hmem with htype | hlink
    · have hhead := hroot.symm.trans (head?_steps_of_mem_types htype)
      contradiction
    · have hhead := hroot.symm.trans (head?_steps_of_mem_links hlink)
      contradiction
  · rintro path htype other hlink rfl
    have hhead := (head?_steps_of_mem_types htype).symm.trans (head?_steps_of_mem_links hlink)
    contradiction
  · rintro path hprimitive other hother rfl
    have hhead := head?_steps_of_mem_primitives hprimitive
    rcases List.mem_append.mp hother with htype | hlink
    · have hhead' := hhead.symm.trans (head?_steps_of_mem_types htype)
      contradiction
    · have hhead' := hhead.symm.trans (head?_steps_of_mem_links hlink)
      contradiction

/-- A path of a type that is issued at all is issued for the type of that name,
unless the name holds a slash. -/
theorem mem_names_of_mem_issuedPaths
    {name : String} (h : typePath name ∈ model.issuedPaths) (hname : '/' ∉ name.toList) :
    name ∈ model.names := by
  have hsteps : steps (typePath name) = ["type".toList, name.toList] := by
    rw [steps_typePath, steps_of_notMem hname]
  have hhead : (steps (typePath name)).head? = some "type".toList := by
    rw [hsteps]
    rfl
  rcases List.mem_cons.mp h with heq | hmem
  · rw [heq] at hhead
    contradiction
  rcases List.mem_append.mp hmem with hprimitive | hmem
  · have hhead' := hhead.symm.trans (head?_steps_of_mem_primitives hprimitive)
    contradiction
  rcases List.mem_append.mp hmem with htype | hlink
  · obtain ⟨decl, hdecl, hmem⟩ := List.mem_flatMap.mp htype
    rcases cases_of_mem_issuedDeclarationPaths hmem with heq | ⟨part, -, hbelow⟩
    · rw [(String.append_right_inj "type/").mp heq]
      exact List.mem_map_of_mem hdecl
    · have hlength := hbelow.length_le
      have hpart := List.length_pos_iff.mpr (steps_ne_nil part)
      have hdeclName := List.length_pos_iff.mpr (steps_ne_nil decl.name)
      rw [steps_append, steps_typePath, hsteps, List.length_append, List.length_cons] at hlength
      simp only [List.length_cons, List.length_nil] at hlength
      omega
  · have hhead' := hhead.symm.trans (head?_steps_of_mem_links hlink)
    contradiction

end Model

end ClassAtlas
