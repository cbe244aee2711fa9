import ClassAtlas.Source.Zone

/-!
# Source text without comments

Line comments vanish up to their line break; a block comment becomes one space
followed by the line breaks it held. Comment marks inside literals are text.
-/

namespace ClassAtlas.Source

/-- What a scan for comments is reading. -/
inductive Region where
  /-- Program text, at the given zone. -/
  | program (zone : Zone)
  /-- A comment that ends with its line. -/
  | lineComment
  /-- A comment that ends at its closing mark. -/
  | blockComment
  deriving DecidableEq, Repr

/-- The text without its comments, read from the given region on. A comment
opens with a code character, so program text resumes in code. -/
def dropComments : Region → List Char → List Char
  | _, [] => []
  | .program zone, '/' :: '/' :: rest =>
    if zone.isCode '/' then dropComments .lineComment rest
    else '/' :: dropComments (.program (zone.next '/')) ('/' :: rest)
  | .program zone, '/' :: '*' :: rest =>
    if zone.isCode '/' then ' ' :: dropComments .blockComment rest
    else '/' :: dropComments (.program (zone.next '/')) ('*' :: rest)
  | .program zone, c :: rest => c :: dropComments (.program (zone.next c)) rest
  | .lineComment, c :: rest =>
    if c = '\n' then '\n' :: dropComments (.program .code) rest
    else dropComments .lineComment rest
  | .blockComment, '*' :: '/' :: rest => dropComments (.program .code) rest
  | .blockComment, c :: rest =>
    if c = '\n' then '\n' :: dropComments .blockComment rest
    else dropComments .blockComment rest

/-- The text without its comments. -/
def stripComments (s : List Char) : List Char :=
  dropComments (.program .code) s

end ClassAtlas.Source
