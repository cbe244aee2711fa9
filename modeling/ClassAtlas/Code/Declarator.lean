import ClassAtlas.TypeText
import ClassAtlas.Source.Annotation
import ClassAtlas.Declaration

/-!
# Declarators, parameters and supertype lists

A declared name can carry array brackets or the varargs dots of its type; they
move to the type.
-/

namespace ClassAtlas.Code

open ClassAtlas.Text

/-- The name and the displayed type of a declaration `type name`. -/
def declarator (type name : List Char) : List Char × List Char :=
  let name := trim name
  let type := trim type
  let (type, name) :=
    match "...".toList.isPrefixOf? name with
    | some rest => (type ++ "...".toList, rest)
    | none => (type, name)
  let arrays := (List.replicate (name.count '[') "[]".toList).flatten
  (trim (name.takeWhile (· != '[')), TypeText.display (type ++ arrays))

/-- The parameter that a text declares, if it has a type and a name. -/
def parameter? (s : List Char) : Option Parameter := do
  let tokens := (words (Source.stripAnnotations s)).filter (· != "final".toList)
  let last ← tokens.getLast?
  let typeTokens := tokens.dropLast
  if typeTokens.isEmpty then none
  let (name, type) := declarator ([' '].intercalate typeTokens) last
  if name.isEmpty then none
  return { name := String.ofList name, declaredType := String.ofList type }

/-- The parameters in a parameter list. -/
def parameters (s : List Char) : List Parameter :=
  (TypeText.splitTopLevel ',' s).filterMap parameter?

/-- The simple names in a list of supertypes. -/
def supertypeNames (s : List Char) : List String :=
  (((TypeText.splitTopLevel ',' s).map TypeText.simpleName).filter (!·.isEmpty)).map
    String.ofList

end ClassAtlas.Code
