import ClassAtlas.Text.Basic
import ClassAtlas.Source.Zone

/-!
# Blocks

Matching of opening and closing characters in code, the body of a braced
block, and the projection of a body to its outermost text.
-/

namespace ClassAtlas.Source

open ClassAtlas.Text

/-- The number of characters before the closing character of a block that is
`depth` inner blocks deep, read from `zone` on. -/
def closingFrom (opening closing : Char) : Zone → Nat → List Char → Option Nat
  | _, _, [] => none
  | zone, depth, c :: rest =>
    if zone.isCode c && c == closing then
      match depth with
      | 0 => some 0
      | outer + 1 => (closingFrom opening closing (zone.next c) outer rest).map (· + 1)
    else if zone.isCode c && c == opening then
      (closingFrom opening closing (zone.next c) (depth + 1) rest).map (· + 1)
    else
      (closingFrom opening closing (zone.next c) depth rest).map (· + 1)

/-- The inside of the block that a text opens with, and the text after it. -/
def splitBlock? (opening closing : Char) : List Char → Option (List Char × List Char)
  | [] => none
  | c :: rest =>
    if c = opening then
      (closingFrom opening closing .code 0 rest).map fun n => (rest.take n, rest.drop (n + 1))
    else none

/-- The byte offset of the character that closes the block opened at the byte
offset `start`. -/
def closingOffset? (opening closing : Char) (s : List Char) (start : Nat) : Option Nat := do
  let rest ← dropBytes? start s
  let (inside, _) ← splitBlock? opening closing rest
  return start + opening.utf8Size + byteLength inside

/-- The byte offset of the brace that closes the one at `start`. -/
def closingBrace? (s : List Char) (start : Nat) : Option Nat :=
  closingOffset? '{' '}' s start

/-- The byte offset of the parenthesis that closes the one at `start`. -/
def closingParenthesis? (s : List Char) (start : Nat) : Option Nat :=
  closingOffset? '(' ')' s start

/-- The inside of the first braced block that opens at or after the byte offset
`start`. -/
def blockBody? (s : List Char) (start : Nat) : Option (List Char) := do
  let rest ← dropBytes? start s
  let (inside, _) ← splitBlock? '{' '}' (rest.dropWhile (· != '{'))
  return inside

/-- The outermost text of a body, read from `zone` on at the given depth: every
inner block shrinks to its braces. -/
def projectFrom : Zone → Nat → List Char → List Char
  | _, _, [] => []
  | zone, depth, c :: rest =>
    if zone.isCode c && c == '{' then
      (if depth = 0 then ['{'] else []) ++ projectFrom (zone.next c) (depth + 1) rest
    else if zone.isCode c && c == '}' then
      (if depth ≤ 1 then ['}'] else []) ++ projectFrom (zone.next c) (depth - 1) rest
    else
      (if depth = 0 then [c] else []) ++ projectFrom (zone.next c) depth rest

/-- The outermost text of a body. -/
def project (body : List Char) : List Char :=
  projectFrom .code 0 body

end ClassAtlas.Source
