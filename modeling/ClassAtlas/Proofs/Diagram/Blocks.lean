import ClassAtlas.Diagram.Reader
import ClassAtlas.Proofs.Diagram.HeaderLines
import ClassAtlas.Proofs.Diagram.MemberLines

/-!
# Reading blocks back

The block that is written for a type is read as a declaration with the same
supertypes and literals, and with the members that the block shows: attributes
first, then operations, each up to its limit. Dividers and the markers of
members left out say nothing.
-/

namespace ClassAtlas

open Diagram Text

/-- The items that fit under a limit. -/
def Diagram.keptUnder {α : Type} (limit : Option ℕ) (items : List α) : List α :=
  match limit with
  | none => items
  | some max => items.take max

/-! ## Supertypes and literals one by one -/

/-- A step that puts each new name at the end of a list puts all of them
there. -/
theorem foldl_append_names {δ : Type} {step : δ → String → δ} (build : List String → δ)
    (listed : List String) {names : List String}
    (hstep : ∀ listed, ∀ name ∈ names, name ∉ listed →
      step (build listed) name = build (listed ++ [name]))
    (hnodup : (listed ++ names).Nodup) :
    names.foldl step (build listed) = build (listed ++ names) := by
  induction names generalizing listed with
  | nil => rw [List.append_nil, List.foldl_nil]
  | cons name rest ih =>
      have hassoc : listed ++ name :: rest = (listed ++ [name]) ++ rest := by
        simp
      have hnew : name ∉ listed := by
        intro hmem
        exact (List.nodup_append.mp hnodup).2.2 name hmem name List.mem_cons_self rfl
      have hrest : ∀ listed, ∀ name ∈ rest, name ∉ listed →
          step (build listed) name = build (listed ++ [name]) := by
        intro listed other hother
        exact hstep listed other (List.mem_cons_of_mem name hother)
      rw [List.foldl_cons, hstep listed name List.mem_cons_self hnew,
        ih (listed ++ [name]) hrest (hassoc ▸ hnodup), hassoc]

namespace Declaration

variable (decl : Declaration) {names : List String}

theorem foldl_implement (hnodup : names.Nodup)
    (hok : ∀ name ∈ names, name ≠ "" ∧ name ≠ decl.name) :
    names.foldl implement { decl with implementedInterfaces := [] } =
      { decl with implementedInterfaces := names } := by
  refine foldl_append_names
    (fun listed => { decl with implementedInterfaces := listed }) [] ?_ hnodup
  intro listed name hmem hnew
  simp [implement, implement?, hnew, hok name hmem]

/-- An interface takes the interfaces that it extends one by one, whatever the
step does with types of other kinds. -/
theorem foldl_extend {step : Declaration → String → Declaration}
    (hstep : ∀ decl name, decl.kind = .interface → step decl name = decl.extend name)
    (hkind : decl.kind = .interface) (hnodup : names.Nodup)
    (hok : ∀ name ∈ names, name ≠ "" ∧ name ≠ decl.name) :
    names.foldl step { decl with extendedInterfaces := [] } =
      { decl with extendedInterfaces := names } := by
  refine foldl_append_names
    (fun listed => { decl with extendedInterfaces := listed }) [] ?_ hnodup
  intro listed name hmem hnew
  have hextend := hstep { decl with extendedInterfaces := listed } name hkind
  rw [hextend]
  simp [extend, extend?, hnew, hok name hmem, hkind]

theorem foldl_addLiteral (hnodup : names.Nodup) :
    names.foldl addLiteral { decl with literals := [] } = { decl with literals := names } := by
  refine foldl_append_names (fun listed => { decl with literals := listed }) [] ?_ hnodup
  intro listed name _ hnew
  simp [addLiteral, hnew]

/-- The declaration without its supertypes. -/
def bare : Declaration :=
  { decl with superclass := none, implementedInterfaces := [], extendedInterfaces := [] }

variable {decl}

/-- The types that a declaration extends are accepted one by one. -/
theorem Lawful.foldl_extendBy_parents (h : decl.Lawful) :
    (decl.superclass.toList ++ decl.extendedInterfaces).foldl extendBy decl.bare =
      { decl with implementedInterfaces := [] } := by
  have hsuperclass : decl.kind ≠ .«class» → decl.superclass = none := by
    intro hkind
    rw [Option.eq_none_iff_forall_not_mem]
    intro name hmem
    exact hkind (h.superclass name hmem).1
  have hextended : decl.kind ≠ .interface → decl.extendedInterfaces = [] := by
    intro hkind
    rw [List.eq_nil_iff_forall_not_mem]
    intro name hmem
    exact hkind (h.extended name hmem).1
  by_cases hclass : decl.kind = .«class»
  · rw [bare, hextended (by rw [hclass]; decide), List.append_nil]
    cases hparent : decl.superclass with
    | none => rfl
    | some parent =>
        obtain ⟨-, hfilled, hother⟩ := h.superclass parent hparent
        simp [extendBy, setSuperclass, setSuperclass?, hclass, hfilled, hother]
  · rw [bare, hsuperclass hclass, Option.toList_none, List.nil_append]
    by_cases hinterface : decl.kind = .interface
    · have hstep : ∀ decl name, decl.kind = .interface → extendBy decl name = decl.extend name := by
        intro decl name hkind
        rw [extendBy, hkind]
      exact foldl_extend { decl with superclass := none, implementedInterfaces := [] } hstep
        hinterface h.extended_nodup fun name hmem => (h.extended name hmem).2
    · rw [hextended hinterface]
      rfl

/-- The supertypes of a declaration are accepted one by one. -/
theorem Lawful.foldl_supertypes (h : decl.Lawful) :
    decl.implementedInterfaces.foldl implement
      ((decl.superclass.toList ++ decl.extendedInterfaces).foldl extendBy decl.bare) = decl := by
  rw [h.foldl_extendBy_parents]
  exact decl.foldl_implement h.implemented_nodup h.implemented

variable (decl)

/-- The declaration as its block shows it: without a package, and with the
attributes and operations that fit under the limits. -/
def shown (options : RenderOptions) : Declaration :=
  { decl with
    package := ""
    members := (keptUnder options.maxFields decl.fields).map .field ++
      (keptUnder options.maxOperations decl.operations).map .operation }

end Declaration

namespace Diagram

/-- The declaration of a block before its body is read. -/
def headed (node : TypeNode) : Declaration where
  name := node.name
  kind := node.kind
  isAbstract := node.isAbstract
  superclass := node.superclass
  implementedInterfaces := node.implementedInterfaces
  extendedInterfaces := node.extendedInterfaces

/-- The supertypes of a header are those of the type it was written for. -/
theorem withSupertypes_headerOf {node : TypeNode} (h : node.declaration.Lawful) :
    withSupertypes { name := node.name, kind := node.kind, isAbstract := node.isAbstract }
      (headerOf node) = headed node := by
  have hlawful : (headed node).Lawful := { h with }
  exact hlawful.foldl_supertypes

/-! ## Lines of a body -/

/-- What every body line has in common: it starts with a character that neither
closes the block nor opens a header. -/
structure IsBodyLine (line : List Char) : Prop where
  trimmed : Trimmed line
  newline : '\n' ∉ line
  head : ∃ c rest, line = c :: rest ∧ c ∉ ['a', 'c', 'i', 'e', '}']

/-- Lines that neither close the block nor are headers are its body, up to the
line that closes it. -/
theorem takeBody?_append_closing {body : List (List Char)} {closing : List Char}
    (hbody : ∀ line ∈ body, line.head? ≠ some '}' ∧ header? line = none)
    (hclosing : closing.head? = some '}') (rest : List (List Char)) :
    takeBody? (body ++ closing :: rest) = some (body, rest) := by
  induction body with
  | nil => simp [takeBody?, hclosing]
  | cons line body ih =>
      obtain ⟨⟨hopen, hheader⟩, hbody⟩ := List.forall_mem_cons.mp hbody
      simp [takeBody?, hopen, hheader, ih hbody]

theorem takeBody?_append {body : List (List Char)} (h : ∀ line ∈ body, IsBodyLine line)
    (rest : List (List Char)) : takeBody? (body ++ ['}'] :: rest) = some (body, rest) := by
  refine takeBody?_append_closing (fun line hline => ?_) rfl rest
  obtain ⟨c, more, rfl, hc⟩ := (h line hline).head
  constructor
  · simpa using fun heq : c = '}' => hc (by simp [heq])
  · exact header?_of_head (fun hmem => hc (List.mem_append_left ['}'] hmem)) more

theorem isBodyLine_fieldText {node : FieldNode} (h : node.field.Readable) :
    IsBodyLine (fieldText node).toList := by
  refine ⟨trimmed_fieldText h, notMem_fieldText (.inr rfl) h, ?_⟩
  rw [toList_fieldText]
  exact ⟨_, _, rfl, by cases node.field.visibility <;> decide⟩

theorem isBodyLine_operationText {node : OperationNode} (h : node.operation.Readable) :
    IsBodyLine (operationText node).toList := by
  refine ⟨trimmed_operationText h, newline_notMem_operationText h, ?_⟩
  rw [toList_operationText]
  exact ⟨_, _, rfl, by cases node.visibility <;> decide⟩

theorem isBodyLine_literal {name : List Char} (h : isLiteralName name = true) :
    IsBodyLine name := by
  have hname := IsName.of_isLiteralName h
  refine ⟨hname.trimmed, hname.notMem (by decide), ?_⟩
  cases name with
  | nil => contradiction
  | cons c rest =>
      rw [isLiteralName, Bool.and_eq_true] at h
      refine ⟨c, rest, rfl, ?_⟩
      intro hmem
      have hupper : ∀ d ∈ ['a', 'c', 'i', 'e', '}'], d.isUpper = false := by decide
      rw [hupper c hmem] at h
      exact Bool.false_ne_true h.1

theorem eq_of_mem_divider {before after : Bool} {line : String}
    (h : line ∈ divider before after) : line = "--" := by
  rw [divider] at h
  split at h
  · exact List.mem_singleton.mp h
  · contradiction

theorem mem_or_eq_of_mem_capped {limit : Option ℕ} {marker line : String}
    {lines : List String} (h : line ∈ capped limit marker lines) :
    line ∈ lines ∨ line = marker := by
  cases limit with
  | none => exact Or.inl h
  | some max =>
      rw [capped] at h
      split at h
      · exact Or.inl h
      · rcases List.mem_append.mp h with htaken | hmarker
        · exact Or.inl (List.mem_of_mem_take htaken)
        · exact Or.inr (List.mem_singleton.mp hmarker)

/-- Dividers and markers are body lines. -/
theorem isBodyLine_mark {line : String}
    (h : line ∈ ["--", "+... (more fields)", "+... (more methods)"]) :
    IsBodyLine line.toList := by
  simp only [List.mem_cons, List.not_mem_nil, or_false] at h
  rcases h with rfl | rfl | rfl
  all_goals
    refine ⟨⟨stops_cons.mpr (by decide), stops_cons.mpr (by decide)⟩, by decide, ?_⟩
    exact ⟨_, _, rfl, by decide⟩

/-! ## What body lines say -/

variable {decl : Declaration} {log : ProblemLog}

theorem addBodyLine_decoration (state : Declaration × ProblemLog) {line : List Char}
    (h : isDecoration line = true) : addBodyLine state line = state := by
  rw [addBodyLine, h, Bool.or_true, if_pos rfl]

/-- A line with a visibility sign in front is no list of literals. -/
theorem accepts_literalLine_of_sign {c : Char} (hc : isVisibilitySign c = true)
    (rest : List Char) : literalLine.accepts (c :: rest) = false := by
  have hletter : (c.isAlpha || c == '_') = false := by
    simp only [isVisibilitySign, Bool.or_eq_true, beq_iff_eq] at hc
    rcases hc with ((rfl | rfl) | rfl) | rfl <;> decide
  have hnone : literalLine.first? (c :: rest) = none := by
    simp only [literalLine, literalLine.name, Pattern.first?, Pattern.search_bind]
    exact Pattern.search_one_of_stops (stops_cons.mpr hletter) _
  rw [Pattern.accepts, hnone]
  rfl

theorem addBodyLine_member {c : Char} {rest : List Char} {member : Member}
    (hsign : isVisibilitySign c = true) (hcolon : ':' ∈ rest)
    (hmore : occursIn "... (more".toList (c :: rest) = false)
    (hmember : member? (c :: rest) = some member) :
    addBodyLine (decl, log) (c :: rest) = (decl.addMember member, log) := by
  have hplain : c ∉ ['.', '=', '_', '\''] := by
    simp only [isVisibilitySign, Bool.or_eq_true, beq_iff_eq] at hsign
    rcases hsign with ((rfl | rfl) | rfl) | rfl <;> decide
  have hdash : c :: rest ≠ ['-', '-'] := by
    rintro ⟨⟩
    contradiction
  rw [addBodyLine, isDecoration_eq_false hplain hdash hmore, accepts_literalLine_of_sign hsign,
    hmember]
  simp

theorem addBodyLine_fieldText {node : FieldNode} (h : node.field.Readable) :
    addBodyLine (decl, log) (fieldText node).toList =
      (decl.addMember (.field node.field), log) := by
  have hmember := member?_fieldText h
  have hmore : occursIn "... (more".toList (fieldText node).toList = false :=
    occursIn_eq_false_of_notMem (c := '(') (by decide) (notMem_fieldText (.inl rfl) h)
  rw [toList_fieldText] at hmember hmore ⊢
  refine addBodyLine_member ?_ (by simp) hmore hmember
  cases node.field.visibility <;> rfl

theorem addBodyLine_operationText {node : OperationNode} (h : node.operation.Readable) :
    addBodyLine (decl, log) (operationText node).toList =
      (decl.addMember (.operation node.operation), log) := by
  have hmember := member?_operationText h
  have hmore := occursIn_operationText h
  rw [toList_operationText] at hmember hmore ⊢
  refine addBodyLine_member ?_ (by simp) hmore hmember
  cases node.visibility <;> rfl

theorem accepts_literalLine {name : List Char} (h : isLiteralName name = true) :
    literalLine.accepts name = true := by
  have hword := isWord_of_isLiteralName h
  have hfirst : literalLine.first? name = some ((), []) := by
    cases name with
    | nil => contradiction
    | cons c rest =>
        rw [isLiteralName, Bool.and_eq_true] at h
        have hletter : (c.isAlpha || c == '_') = true := by
          rw [isAlpha_of_isUpper h.1, Bool.true_or]
        simp only [literalLine, literalLine.name, Pattern.first?, Pattern.search_bind]
        rw [Pattern.search_one_of_ok hletter, ← List.append_nil rest]
        refine Pattern.search_skip_longest ?_ (stops_nil _) rfl
        exact (List.forall_mem_cons.mp hword).2
  rw [Pattern.accepts, hfirst]
  rfl

theorem literalNames_literal {name : String} (hname : IsName name.toList) :
    literalNames name.toList = [name] := by
  have hpieces : name.toList.splitOn ',' = [name.toList] :=
    List.splitOn_eq_singleton (hname.notMem (by decide))
  have hfilled : name.toList.isEmpty = false := by
    rw [List.isEmpty_eq_false_iff]
    exact hname.ne_nil
  rw [literalNames, hpieces, List.map_singleton, hname.trimmed.trim_eq,
    List.filter_singleton, hfilled]
  simp

theorem isDecoration_literal {name : List Char} (h : isLiteralName name = true) :
    isDecoration name = false := by
  have hmore : occursIn "... (more".toList name = false :=
    occursIn_eq_false_of_notMem (c := '(') (by decide)
      ((IsName.of_isLiteralName h).notMem (by decide))
  cases name with
  | nil => contradiction
  | cons c rest =>
      rw [isLiteralName, Bool.and_eq_true] at h
      have hupper : ∀ d ∈ ['-', '.', '=', '_', '\''], d.isUpper = false := by decide
      have hplain : c ∉ ['-', '.', '=', '_', '\''] := by
        intro hmem
        rw [hupper c hmem] at h
        exact Bool.false_ne_true h.1
      rw [List.mem_cons, not_or] at hplain
      exact isDecoration_eq_false hplain.2 (fun heq => hplain.1 (List.cons.inj heq).1) hmore

theorem addBodyLine_literal {name : String} (hkind : decl.kind = .enumeration)
    (h : isLiteralName name.toList = true) :
    addBodyLine (decl, log) name.toList = (decl.addLiteral name, log) := by
  have hname := IsName.of_isLiteralName h
  have hfilled : name.toList.isEmpty = false := by
    rw [List.isEmpty_eq_false_iff]
    exact hname.ne_nil
  rw [addBodyLine, hfilled, isDecoration_literal h, accepts_literalLine h,
    literalNames_literal hname, hkind]
  rfl

/-- Lines that each give one member give all of them in order. -/
theorem foldl_addBodyLine_members {α : Type} {text : α → String} {member : α → Member}
    {nodes : List α}
    (h : ∀ node ∈ nodes, ∀ decl log,
      addBodyLine (decl, log) (text node).toList = (decl.addMember (member node), log)) :
    ((nodes.map text).map String.toList).foldl addBodyLine (decl, log) =
      ({ decl with members := decl.members ++ nodes.map member }, log) := by
  induction nodes generalizing decl with
  | nil => simp
  | cons node rest ih =>
      obtain ⟨hnode, hrest⟩ := List.forall_mem_cons.mp h
      simp only [List.map_cons, List.foldl_cons]
      rw [hnode decl log, ih hrest]
      simp [Declaration.addMember]

theorem foldl_addBodyLine_literals {names : List String} (hkind : decl.kind = .enumeration)
    (h : ∀ name ∈ names, isLiteralName name.toList = true) :
    (names.map String.toList).foldl addBodyLine (decl, log) =
      (names.foldl Declaration.addLiteral decl, log) := by
  induction names generalizing decl with
  | nil => rfl
  | cons name rest ih =>
      obtain ⟨hname, hrest⟩ := List.forall_mem_cons.mp h
      have hkind' : (decl.addLiteral name).kind = .enumeration := by
        rw [Declaration.addLiteral]
        split <;> exact hkind
      rw [List.map_cons, List.foldl_cons, addBodyLine_literal hkind hname, ih hkind' hrest,
        List.foldl_cons]

theorem foldl_addBodyLine_divider (before after : Bool) (state : Declaration × ProblemLog) :
    ((divider before after).map String.toList).foldl addBodyLine state = state := by
  rw [divider]
  split
  · have hdash : isDecoration "--".toList = true := by decide
    exact addBodyLine_decoration state hdash
  · rfl

theorem foldl_addBodyLine_capped {marker : String} (hmarker : isDecoration marker.toList = true)
    (limit : Option ℕ) (lines : List String) (state : Declaration × ProblemLog) :
    ((capped limit marker lines).map String.toList).foldl addBodyLine state =
      ((keptUnder limit lines).map String.toList).foldl addBodyLine state := by
  cases limit with
  | none => rfl
  | some max =>
      rw [capped, keptUnder]
      split
      next hfits => rw [List.take_of_length_le hfits]
      next hmore =>
        rw [List.map_append, List.foldl_append]
        exact addBodyLine_decoration _ hmarker

theorem keptUnder_map {α γ : Type} (f : α → γ) (limit : Option ℕ) (nodes : List α) :
    keptUnder limit (nodes.map f) = (keptUnder limit nodes).map f := by
  cases limit with
  | none => rfl
  | some max => exact List.map_take.symm

theorem mem_of_mem_keptUnder {α : Type} {limit : Option ℕ} {nodes : List α} {node : α}
    (h : node ∈ keptUnder limit nodes) : node ∈ nodes := by
  cases limit with
  | none => exact h
  | some max => exact List.mem_of_mem_take h

theorem foldl_addBodyLine_fields (limit : Option ℕ) {nodes : List FieldNode}
    (h : ∀ node ∈ nodes, node.field.Readable) :
    ((capped limit "+... (more fields)" (nodes.map fieldText)).map String.toList).foldl
      addBodyLine (decl, log) =
      ({ decl with
        members := decl.members ++ (keptUnder limit (nodes.map FieldNode.field)).map .field },
        log) := by
  have hread : ∀ node ∈ keptUnder limit nodes, ∀ decl log,
      addBodyLine (decl, log) (fieldText node).toList =
        (decl.addMember (.field node.field), log) :=
    fun node hnode _ _ => addBodyLine_fieldText (h node (mem_of_mem_keptUnder hnode))
  rw [foldl_addBodyLine_capped (by decide), keptUnder_map, foldl_addBodyLine_members hread,
    keptUnder_map, List.map_map]
  rfl

theorem foldl_addBodyLine_operations (limit : Option ℕ) {nodes : List OperationNode}
    (h : ∀ node ∈ nodes, node.operation.Readable) :
    ((capped limit "+... (more methods)" (nodes.map operationText)).map String.toList).foldl
      addBodyLine (decl, log) =
      ({ decl with
        members := decl.members ++
          (keptUnder limit (nodes.map OperationNode.operation)).map .operation }, log) := by
  have hread : ∀ node ∈ keptUnder limit nodes, ∀ decl log,
      addBodyLine (decl, log) (operationText node).toList =
        (decl.addMember (.operation node.operation), log) :=
    fun node hnode _ _ => addBodyLine_operationText (h node (mem_of_mem_keptUnder hnode))
  rw [foldl_addBodyLine_capped (by decide), keptUnder_map, foldl_addBodyLine_members hread,
    keptUnder_map, List.map_map]
  rfl

theorem foldl_addBodyLine_headed {node : TypeNode} (h : node.declaration.Readable) :
    ((node.literals.map NamedNode.name).map String.toList).foldl
      addBodyLine (headed node, log) =
      ({ headed node with literals := node.literals.map NamedNode.name }, log) := by
  have hnodup : (node.literals.map NamedNode.name).Nodup := h.literals_nodup
  have hliterals : ∀ name ∈ node.literals.map NamedNode.name,
      node.kind = .enumeration ∧ isLiteralName name.toList = true := h.literals
  by_cases hempty : node.literals = []
  · rw [hempty]
    rfl
  · obtain ⟨literal, rest, hcons⟩ := List.exists_cons_of_ne_nil hempty
    have hkind : node.kind = .enumeration :=
      (hliterals literal.name (by simp [hcons])).1
    rw [foldl_addBodyLine_literals hkind fun name hmem => (hliterals name hmem).2,
      ← (headed node).foldl_addLiteral hnodup]
    rfl

theorem readable_fields {node : TypeNode} (h : node.declaration.Readable) :
    ∀ field ∈ node.fields, field.field.Readable := by
  intro field hmem
  apply h.fields
  rw [TypeNode.fields_declaration]
  exact List.mem_map_of_mem hmem

theorem readable_operations {node : TypeNode} (h : node.declaration.Readable) :
    ∀ operation ∈ node.operations, operation.operation.Readable := by
  intro operation hmem
  apply h.operations
  rw [TypeNode.operations_declaration]
  exact List.mem_map_of_mem hmem

/-- The body of a block gives the literals and the members that it shows. -/
theorem foldl_addBodyLine_bodyLines (options : RenderOptions) {node : TypeNode}
    (h : node.declaration.Readable) :
    ((bodyLines options node).map String.toList).foldl addBodyLine (headed node, log) =
      (node.declaration.shown options, log) := by
  simp only [bodyLines, List.map_append, List.foldl_append, foldl_addBodyLine_divider]
  rw [foldl_addBodyLine_headed h, foldl_addBodyLine_fields options.maxFields (readable_fields h),
    foldl_addBodyLine_operations options.maxOperations (readable_operations h),
    ← TypeNode.fields_declaration, ← TypeNode.operations_declaration]
  rfl

/-- Every line inside a block is a body line. -/
theorem isBodyLine_of_mem_bodyLines (options : RenderOptions) {node : TypeNode}
    (h : node.declaration.Readable) :
    ∀ line ∈ bodyLines options node, IsBodyLine line.toList := by
  intro line hmem
  simp only [bodyLines, List.mem_append] at hmem
  rcases hmem with (((hliteral | hdivider) | hfield) | hdivider) | hoperation
  · exact isBodyLine_literal (h.literals line hliteral).2
  · rw [eq_of_mem_divider hdivider]
    exact isBodyLine_mark (by decide)
  · rcases mem_or_eq_of_mem_capped hfield with hfield | rfl
    · obtain ⟨field, hin, rfl⟩ := List.mem_map.mp hfield
      exact isBodyLine_fieldText (readable_fields h field hin)
    · exact isBodyLine_mark (by decide)
  · rw [eq_of_mem_divider hdivider]
    exact isBodyLine_mark (by decide)
  · rcases mem_or_eq_of_mem_capped hoperation with hoperation | rfl
    · obtain ⟨operation, hin, rfl⟩ := List.mem_map.mp hoperation
      exact isBodyLine_operationText (readable_operations h operation hin)
    · exact isBodyLine_mark (by decide)

/-- A block is read as the declaration it was written for, as far as it shows
it. -/
theorem declaration_headerOf (options : RenderOptions) {node : TypeNode}
    (h : node.declaration.Readable) :
    declaration log "" (headerOf node) ((bodyLines options node).map String.toList) =
      (node.declaration.shown options, log) := by
  have htrim : ((bodyLines options node).map String.toList).map trim =
      (bodyLines options node).map String.toList := by
    rw [List.map_map]
    exact List.map_congr_left fun line hmem =>
      (isBodyLine_of_mem_bodyLines options h line hmem).trimmed.trim_eq
  rw [declaration, htrim, ← foldl_addBodyLine_bodyLines options h,
    ← withSupertypes_headerOf h.lawful]
  rfl

end Diagram

end ClassAtlas
