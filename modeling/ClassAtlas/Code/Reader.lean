import ClassAtlas.Source.Comment
import ClassAtlas.Source.Mask
import ClassAtlas.Source.Statement
import ClassAtlas.Source.Package
import ClassAtlas.Extraction
import ClassAtlas.Code.Field
import ClassAtlas.Code.Operation
import ClassAtlas.Code.EnumBody
import ClassAtlas.Code.TypeHeader

/-!
# Reading Java source

Types are read without a grammar: comments are dropped, literals masked, and
every header with a closed body gives a declaration, nested ones included. The
statements of a body that are neither fields nor operations are left out.
-/

namespace ClassAtlas.Code

open ClassAtlas.Text

/-- The member that a statement declares; fields are tried first. -/
def member? (ownerName : List Char) (owner : TypeKind) (statement : List Char) : Option Member :=
  match field? owner statement with
  | some field => some (.field field)
  | none => (operation? ownerName owner statement).map Member.operation

/-- The members in the member text of a type. -/
def members (ownerName : List Char) (owner : TypeKind) (text : List Char) : List Member :=
  (Source.statements text).filterMap (member? ownerName owner)

/-- The header's part of a declaration. -/
def declarationOf (package : String) (header : TypeHeader)
    (extended implemented : Option (List Char)) : Declaration :=
  withSupertypes
    { name := String.ofList header.name
      kind := header.kind
      package
      isAbstract := header.modifiers.contains "abstract" }
    ((extended.map supertypeNames).getD []) ((implemented.map supertypeNames).getD [])

/-- A declaration with the literals and members of its body. -/
def withBody (decl : Declaration) (body : List Char) : Declaration :=
  let projected := Source.project body
  let ownerName := decl.name.toList
  match decl.kind with
  | .enumeration =>
    let (literals, memberText) := splitEnumBody projected
    let members := members ownerName decl.kind memberText
    { literals.foldl Declaration.addLiteral decl with members }
  | kind => { decl with members := members ownerName kind projected }

/-- Whether a character ends the search for the body of a type. -/
def endsHeader (c : Char) : Bool :=
  ['{', ';', '=', '(', ')'].contains c

/-- The declaration that a header opens: none if no body follows it, and a
problem if its clauses cannot be read or its body is not closed. -/
def declaration? (unit package : String) (found : FoundHeader) :
    Except Problem (Option Declaration) :=
  let clauses := skipTypeParameters (found.rest.takeWhile (!endsHeader ·))
  match found.ofAnnotation, found.rest.dropWhile (!endsHeader ·) with
  | false, '{' :: rest =>
    let name := String.ofList found.header.name
    match supertypeClauses.first? clauses with
    | none =>
      .error (.malformed unit
        ("unrecognized header for `" ++ name ++ "`: " ++ String.ofList (trim clauses)))
    | some ((extended, implemented), _) =>
      match Source.splitBlock? '{' '}' ('{' :: rest) with
      | none => .error (.unbalanced unit name)
      | some (body, _) =>
        .ok (some (withBody (declarationOf package found.header extended implemented) body))
  | _, _ => .ok none

/-- The source text that structure is read from: comments dropped, literals
masked. -/
def structureText (source : List Char) : List Char :=
  Source.maskLiterals (Source.stripComments source)

/-- Everything that the text of a unit declares. -/
def read (unit : String) (source : List Char) : Extraction :=
  let text := structureText source
  let package := String.ofList (Source.packageName text)
  let outcomes := (findHeaders 0 true none text).map (declaration? unit package)
  { package
    types := outcomes.filterMap fun
      | .ok decl => decl
      | .error _ => none
    problems := outcomes.filterMap fun
      | .ok _ => none
      | .error problem => some problem }

end ClassAtlas.Code
