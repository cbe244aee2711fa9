import ClassAtlas.Source.Annotation

/-!
# Statements of a projected body

A statement ends at a semicolon, or after a block unless the block belongs to
an initializer, that is, unless an equals sign stands before it outside
parentheses. Annotations in front of a statement are dropped, and so are blank
statements.
-/

namespace ClassAtlas.Source

open ClassAtlas.Text

/-- What a scan for the end of a statement has seen since its start. -/
structure Clause where
  /-- Where the scan stands. -/
  zone : Zone := .code
  /-- The number of open parentheses. -/
  parens : Nat := 0
  /-- Whether an initializer has begun. -/
  initializer : Bool := false
  deriving DecidableEq, Repr

namespace Clause

/-- Whether a character ends the statement. -/
def ends (clause : Clause) (c : Char) : Bool :=
  clause.zone.isCode c && (c == ';' || (c == '}' && !clause.initializer))

/-- What has been seen after one more character of the same statement. -/
def next (clause : Clause) (c : Char) : Clause :=
  let zone := clause.zone.next c
  if !clause.zone.isCode c then { clause with zone }
  else if c = '(' then { clause with zone, parens := clause.parens + 1 }
  else if c = ')' then { clause with zone, parens := clause.parens - 1 }
  else if c = '=' && clause.parens = 0 then { clause with zone, initializer := true }
  else { clause with zone }

end Clause

/-- The texts of the statements, each with the character that ends it, and last
the text after the final statement. -/
def cutStatements : Clause → List Char → List (List Char)
  | _, [] => [[]]
  | clause, c :: rest =>
    if clause.ends c then
      [c] :: cutStatements { zone := clause.zone.next c } rest
    else
      match cutStatements (clause.next c) rest with
      | [] => [[c]]
      | statement :: more => (c :: statement) :: more

/-- The statements of a projected body. -/
def statements (projected : List Char) : List (List Char) :=
  ((cutStatements {} projected).map fun raw => stripAnnotations (trim raw)).filter
    fun statement => !statement.isEmpty

end ClassAtlas.Source
