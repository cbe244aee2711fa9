import ClassAtlas.Code.Modifier
import ClassAtlas.Code.Declarator

/-!
# Headers of type declarations

A header is looked for at the start of every line and after every blank,
semicolon and brace. It gives the modifiers, the kind and the name of a type;
the clauses that name its supertypes stand between the name and the body.
-/

namespace ClassAtlas.Code

open ClassAtlas.Text Pattern

/-- The modifiers of types. -/
def typeModifiers : List String :=
  ["public", "private", "protected", "static", "final", "abstract", "sealed", "non-sealed",
    "strictfp"]

/-- The first part of a type declaration. -/
structure TypeHeader where
  /-- The separator in front of the header, if it does not start a line. -/
  separator : Option Char
  modifiers : List String
  kind : TypeKind
  name : List Char
  deriving Repr

/-- Whether a character separates a header from the text before it. -/
def separatesHeader (c : Char) : Bool :=
  isBlank c || c == ';' || c == '{' || c == '}'

/-- The word that declares a type. -/
def typeKeyword : Pattern TypeKind :=
  oneOf ([TypeKind.«class», .interface, .enumeration].map fun kind => do
    literal kind.keyword
    return kind)

/-- A header; `lineStart` says whether a line starts here. -/
def typeHeader (lineStart : Bool) : Pattern TypeHeader := do
  let separator ← oneOf [
    ofReading? fun s => if lineStart then some (none, s) else none,
    some <$> one separatesHeader]
  let modifiers ← modifiers typeModifiers
  let kind ← typeKeyword
  blanks1
  let name ← taken do
    let _ ← one opensName
    skip isName
  return { separator, modifiers, kind, name := name.text }

/-- The last character that is not blank, `ink` standing for the text before
`s`. -/
def lastInk (ink : Option Char) (s : List Char) : Option Char :=
  s.foldl (fun last c => if isBlank c then last else some c) ink

/-- A header found in a text. -/
structure FoundHeader where
  header : TypeHeader
  /-- Whether an at sign stands before the declaring word, which then declares
  an annotation. -/
  ofAnnotation : Bool
  /-- The text after the header. -/
  rest : List Char

/-- The headers in a text after its first `skipped` characters; no two overlap.
`lineStart` says whether the text starts a line, and `ink` is the last
character before it that is not blank. -/
def findHeaders : Nat → Bool → Option Char → List Char → List FoundHeader
  | _, _, _, [] => []
  | skipped + 1, _, ink, c :: rest => findHeaders skipped (c == '\n') (lastInk ink [c]) rest
  | 0, lineStart, ink, c :: rest =>
    match (typeHeader lineStart).first? (c :: rest) with
    | none => findHeaders 0 (c == '\n') (lastInk ink [c]) rest
    | some (header, after) =>
      let ofAnnotation :=
        header.modifiers.isEmpty && lastInk ink header.separator.toList == some '@'
      { header, ofAnnotation, rest := after } ::
        findHeaders (rest.length - after.length) (c == '\n') (lastInk ink [c]) rest

/-- The text after the angle bracket that closes `depth + 1` open ones. -/
def afterAngle? : Nat → List Char → Option (List Char)
  | _, [] => none
  | depth, c :: rest =>
    if c = '<' then afterAngle? (depth + 1) rest
    else if c = '>' then
      match depth with
      | 0 => some rest
      | outer + 1 => afterAngle? outer rest
    else afterAngle? depth rest

/-- The text without the type parameters at its front. -/
def skipTypeParameters (s : List Char) : List Char :=
  match trimStart s with
  | '<' :: rest => (afterAngle? 0 rest).getD ('<' :: rest)
  | _ => s

/-- The clauses between the name of a type and its body: the texts after
`extends` and after `implements`. -/
def supertypeClauses : Pattern (Option (List Char) × Option (List Char)) := do
  blanks
  let extended ← optional do
    literal "extends"
    gap1
    runFew1 anything
  blanks
  let implemented ← optional do
    literal "implements"
    gap1
    runFew1 anything
  blanks
  let _ ← optional do
    literal "permits"
    let _ ← one isBlank
    skipFew1 anything
  blanks
  atEnd
  return (extended.map Span.text, implemented.map Span.text)

/-- A declaration with the supertypes that its header names. A class takes the
first extended type, an interface all of them, an enumeration none. -/
def withSupertypes (decl : Declaration) (extended implemented : List String) : Declaration :=
  let decl :=
    match decl.kind with
    | .«class» => (extended.take 1).foldl Declaration.setSuperclass decl
    | .interface => extended.foldl Declaration.extend decl
    | .enumeration => decl
  implemented.foldl Declaration.implement decl

end ClassAtlas.Code
