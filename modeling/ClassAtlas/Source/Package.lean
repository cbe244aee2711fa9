import ClassAtlas.Text.Pattern

/-!
# Package clauses

The package of a source unit is named by the first package clause that starts
a line.
-/

namespace ClassAtlas.Source

open ClassAtlas.Text Pattern

/-- A package clause; its value is the dotted name. -/
def packageClause : Pattern (List Char) := do
  blanks
  literal "package"
  blanks1
  let name ← run1 fun c => isWord c || c == '.'
  blanks
  char ';'
  return name.text

/-- The name in the first package clause that starts a line of the text, where
`lineStart` says whether the text itself starts one. -/
def findPackage? (lineStart : Bool) : List Char → Option (List Char)
  | [] => none
  | c :: rest =>
    match (if lineStart then packageClause.first? (c :: rest) else none) with
    | some (name, _) => some name
    | none => findPackage? (c == '\n') rest

/-- The package of a source text, or nothing. -/
def packageName (s : List Char) : List Char :=
  (findPackage? true s).getD []

end ClassAtlas.Source
