import ClassAtlas.Extraction
import ClassAtlas.Diagram.Header
import ClassAtlas.Diagram.Member
import ClassAtlas.Diagram.Link

/-!
# Reading class diagrams

The lines of a diagram are first grouped into items: package marks, blocks with
their bodies, links, and lines that no rule reads. The items are then gathered
into declarations, and the links that state supertypes are folded into the
declarations they name.
-/

namespace ClassAtlas.Diagram

open ClassAtlas.Text Pattern

/-- What one or more lines of a diagram say. -/
inductive Item where
  /-- A package opens. -/
  | openPackage (name : List Char)
  /-- A package closes. -/
  | closePackage
  /-- A type with its body lines. -/
  | block (header : Header) (body : List (List Char))
  /-- A type whose body is never closed. -/
  | unclosed (name : String)
  /-- A relationship. -/
  | link (relationship : Relationship)
  /-- A line that no rule reads. -/
  | stray (line : List Char)
  deriving Repr

/-- The beginnings of lines that say nothing about the model. -/
def directives : List String :=
  ["@startuml", "@enduml", "!", "'", "title", "skinparam", "hide", "show", "left to right",
    "top to bottom", "legend", "caption", "header", "footer"]

/-- Whether a line says nothing about the model. -/
def isDirective (line : List Char) : Bool :=
  directives.any fun word => word.toList.isPrefixOf line

/-- A whole line that opens a package; its value is the name. -/
def packageLine : Pattern (List Char) := do
  let _ ← keyword ["package", "namespace"]
  blanks1
  let _ ← optional (char '"')
  let name ← run1 fun c => isWord c || c == '.'
  let _ ← optional (char '"')
  skip inLine
  char '{'
  blanks
  atEnd
  return name.text

/-- The lines after a note that runs over several lines. -/
def skipNote (lines : List (List Char)) : List (List Char) :=
  (lines.dropWhile fun line => !"end note".toList.isPrefixOf line).drop 1

/-- The body lines up to the line that closes the block, and the lines after
it. There are none if another header comes first. -/
def takeBody? : List (List Char) → Option (List (List Char) × List (List Char))
  | [] => none
  | line :: rest =>
    if line.head? == some '}' then some ([], rest)
    else if (header? line).isSome then none
    else (takeBody? rest).map fun (body, after) => (line :: body, after)

/-- The body of a block, given the text from its opening brace on and the lines
after the header, and the lines after the block. -/
def blockBody? (opening : Option (List Char)) (rest : List (List Char)) :
    Option (List (List Char) × List (List Char)) :=
  match opening with
  | none => some ([], rest)
  | some opening =>
    let inner := trim (opening.drop 1)
    match ['}'].isSuffixOf? inner with
    | some whole => some ([trim whole], rest)
    | none =>
      (takeBody? rest).map fun (body, after) =>
        (if inner.isEmpty then body else inner :: body, after)

/-- The items of a line and of the lines it takes with it, and the lines after
these. -/
def readItem (line : List Char) (rest : List (List Char)) : List Item × List (List Char) :=
  if line.isEmpty then ([], rest)
  else if line = ['}'] then ([.closePackage], rest)
  else if isDirective line then ([], rest)
  else if "note".toList.isPrefixOf line then
    ([], if line.contains ':' then rest else skipNote rest)
  else
    match packageLine.first? line with
    | some (name, _) => ([.openPackage name], rest)
    | none =>
      match header? line with
      | some header =>
        match blockBody? header.opening rest with
        | some (body, after) => ([.block header body], after)
        | none => ([.unclosed header.name], rest.dropWhile fun line => (header? line).isNone)
      | none =>
        match link? line with
        | some relationship => ([.link relationship], rest)
        | none => ([.stray line], rest)

theorem length_takeBody? {lines body after : List (List Char)}
    (h : takeBody? lines = some (body, after)) : after.length ≤ lines.length := by
  induction lines generalizing body with
  | nil => simp [takeBody?] at h
  | cons line rest ih =>
    simp only [takeBody?] at h
    split at h
    · simp at h
      simp [h.2]
    · split at h
      · simp at h
      · obtain ⟨⟨body', after'⟩, hb, heq⟩ := Option.map_eq_some_iff.1 h
        obtain ⟨-, rfl⟩ := Prod.mk.inj heq
        exact Nat.le_succ_of_le (ih hb)

theorem length_blockBody? {opening : Option (List Char)} {lines body after : List (List Char)}
    (h : blockBody? opening lines = some (body, after)) : after.length ≤ lines.length := by
  unfold blockBody? at h
  split at h
  · simp at h
    simp [h.2]
  · dsimp only at h
    split at h
    · simp at h
      simp [h.2]
    · obtain ⟨⟨body', after'⟩, hb, heq⟩ := Option.map_eq_some_iff.1 h
      obtain ⟨-, rfl⟩ := Prod.mk.inj heq
      exact length_takeBody? hb

theorem length_skipNote_le (lines : List (List Char)) :
    (skipNote lines).length ≤ lines.length := by
  have := (List.dropWhile_sublist (l := lines)
    fun line => !"end note".toList.isPrefixOf line).length_le
  simp only [skipNote, List.length_drop]
  omega

/-- Reading an item never gives back more lines than it was given. -/
theorem length_readItem_le (line : List Char) (rest : List (List Char)) :
    (readItem line rest).2.length ≤ rest.length := by
  unfold readItem
  repeat' split
  all_goals first
    | exact Nat.le_refl _
    | exact length_skipNote_le rest
    | (rename_i h; exact length_blockBody? h)
    | exact (List.dropWhile_sublist _).length_le

/-- The items of a diagram, given its trimmed lines. -/
def items : List (List Char) → List Item
  | [] => []
  | line :: rest => (readItem line rest).1 ++ items (readItem line rest).2
termination_by lines => lines.length
decreasing_by exact Nat.lt_succ_of_le (length_readItem_le line rest)

/-- What has been gathered from the items so far. -/
structure Gathered where
  /-- The package that is open. -/
  package : String := ""
  /-- The first package that was opened. -/
  firstPackage : String := ""
  types : List Declaration := []
  links : List Relationship := []
  log : ProblemLog

/-- A declaration with a type that it extends. A class takes the first one that
is not refused, and an enumeration takes none. -/
def extendBy (decl : Declaration) (parent : String) : Declaration :=
  match decl.kind with
  | .«class» => if decl.superclass.isNone then decl.setSuperclass parent else decl
  | .interface => decl.extend parent
  | .enumeration => decl

/-- A declaration with the supertypes of its header. -/
def withSupertypes (decl : Declaration) (header : Header) : Declaration :=
  header.implemented.foldl Declaration.implement (header.extended.foldl extendBy decl)

/-- A declaration with the literal, member or problem that a body line gives. -/
def addBodyLine (state : Declaration × ProblemLog) (line : List Char) :
    Declaration × ProblemLog :=
  let (decl, log) := state
  if line.isEmpty || isDecoration line then state
  else if decl.kind = .enumeration && literalLine.accepts line then
    ((literalNames line).foldl Declaration.addLiteral decl, log)
  else
    match member? line with
    | some member => (decl.addMember member, log)
    | none =>
      (decl, log.addMalformed
        ("unrecognized line in `" ++ decl.name ++ "`: " ++ String.ofList line))

/-- The declaration of a block, and the log with the problems of its body. -/
def declaration (log : ProblemLog) (package : String) (header : Header)
    (body : List (List Char)) : Declaration × ProblemLog :=
  let decl : Declaration :=
    { name := header.name, kind := header.kind, package, isAbstract := header.isAbstract }
  (body.map trim).foldl addBodyLine (withSupertypes decl header, log)

/-- What has been gathered after one more item. -/
def gather (state : Gathered) : Item → Gathered
  | .openPackage name =>
    let package := String.ofList name
    { state with
      package
      firstPackage := if state.firstPackage.isEmpty then package else state.firstPackage }
  | .closePackage => { state with package := "" }
  | .block header body =>
    let (decl, log) := declaration state.log state.package header body
    { state with types := state.types ++ [decl], log }
  | .unclosed name => { state with log := state.log.addUnbalanced name }
  | .link relationship => { state with links := state.links ++ [relationship] }
  | .stray line =>
    { state with
      log := state.log.addMalformed ("unrecognized line: " ++ shorten 60 (String.ofList line)) }

/-- A declaration with the supertype that a link states, where the declaration
can take it. -/
def addSupertype (link : Relationship) (decl : Declaration) : Declaration :=
  match link.kind with
  | .generalization => extendBy decl link.target
  | .realization => decl.implement link.target
  | _ => decl

/-- The declarations with `change` made to the first one of a given name. -/
def updateFirst (name : String) (change : Declaration → Declaration) :
    List Declaration → List Declaration
  | [] => []
  | decl :: rest =>
    if decl.name = name then change decl :: rest else decl :: updateFirst name change rest

/-- Folds a link into the declarations if it states a supertype of one of them,
and keeps it as a relationship if not. -/
def applyLink (state : List Declaration × List Relationship) (link : Relationship) :
    List Declaration × List Relationship :=
  let (types, declared) := state
  if isSupertypeKind link.kind && types.any (·.name == link.source) then
    (updateFirst link.source (addSupertype link) types, declared)
  else
    (types, declared ++ [link])

/-- Everything that the text of a diagram declares. -/
def read (unit : String) (text : List Char) : Extraction :=
  let gathered := (items ((lines text).map trim)).foldl gather { log := { unit } }
  let (types, relationships) := gathered.links.foldl applyLink (gathered.types, [])
  { package := gathered.firstPackage, types, relationships, problems := gathered.log.problems }

/-- Whether a line is a block header whose body, on the same line, holds a line
with the unmistakable shape of a diagram member. -/
def isInlineBlock (line : List Char) : Bool :=
  match (header? (trim line)).bind Header.opening with
  | none => false
  | some opening =>
    let inner := opening.dropWhile (· == '{')
    let inner := (['}'].isSuffixOf? (trimEnd inner)).getD inner
    (inner.splitOn ';').any isMemberLine

end ClassAtlas.Diagram
