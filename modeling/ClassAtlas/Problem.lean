/-!
# Problems met while reading

No problem stops a run. Each belongs to a source unit and is reported beside
whatever could be read.
-/

namespace ClassAtlas

/-- The categories of problems. -/
inductive ProblemKind where
  | malformedInput
  | unresolvedReference
  | structuralMismatch
  | io
  deriving DecidableEq, Repr

/-- The category as written in reports. -/
def ProblemKind.label : ProblemKind → String
  | malformedInput => "malformed-input"
  | unresolvedReference => "unresolved-reference"
  | structuralMismatch => "structural-mismatch"
  | io => "io"

/-- A problem met in a source unit. -/
inductive Problem where
  /-- A text that no rule reads. -/
  | malformed (unit detail : String)
  /-- A reference to a type that is not in the model. -/
  | unresolved (unit source name : String)
  /-- A type whose body is never closed. -/
  | unbalanced (unit typeName : String)
  /-- A unit that could not be read. -/
  | unreadable (unit detail : String)
  deriving DecidableEq, Repr

namespace Problem

/-- The category of a problem. -/
def kind : Problem → ProblemKind
  | malformed _ _ => .malformedInput
  | unresolved _ _ _ => .unresolvedReference
  | unbalanced _ _ => .structuralMismatch
  | unreadable _ _ => .io

/-- The unit that a problem was met in. -/
def unit : Problem → String
  | malformed unit _ | unresolved unit _ _ | unbalanced unit _ | unreadable unit _ => unit

/-- What went wrong, in words. -/
def message : Problem → String
  | malformed unit detail => unit ++ ": malformed input: " ++ detail
  | unresolved unit source name =>
    unit ++ ": unresolved reference from `" ++ source ++ "` to `" ++ name ++ "`"
  | unbalanced unit typeName => unit ++ ": unbalanced braces in body of `" ++ typeName ++ "`"
  | unreadable unit detail => unit ++ ": " ++ detail

/-- The message with its category in front. -/
def report (problem : Problem) : String :=
  "[" ++ problem.kind.label ++ "] " ++ problem.message

end Problem

/-- The problems of one unit, in the order in which they were met. -/
structure ProblemLog where
  unit : String
  problems : List Problem := []
  deriving DecidableEq, Repr

namespace ProblemLog

/-- The log with one more problem. -/
def add (log : ProblemLog) (problem : Problem) : ProblemLog :=
  { log with problems := log.problems ++ [problem] }

/-- The log with a text of its unit that no rule reads. -/
def addMalformed (log : ProblemLog) (detail : String) : ProblemLog :=
  log.add (.malformed log.unit detail)

/-- The log with a type of its unit whose body is never closed. -/
def addUnbalanced (log : ProblemLog) (typeName : String) : ProblemLog :=
  log.add (.unbalanced log.unit typeName)

/-- The problems of a log, and the log without them. -/
def takeAll (log : ProblemLog) : List Problem × ProblemLog :=
  (log.problems, { log with problems := [] })

end ProblemLog

end ClassAtlas
