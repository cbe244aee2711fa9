import ClassAtlas.Text.Blank

/-!
# Texts as character lists

Scanning works on lists of characters. This module holds the cuts that every
reader needs beside those of the library: trimming, words, lines, and the part
of a text before or after a character.
-/

namespace ClassAtlas.Text

/-- The text without its leading blanks. -/
def trimStart (s : List Char) : List Char :=
  s.dropWhile isBlank

/-- The text without its trailing blanks. -/
def trimEnd (s : List Char) : List Char :=
  (s.reverse.dropWhile isBlank).reverse

/-- The text without its leading and trailing blanks. -/
def trim (s : List Char) : List Char :=
  trimEnd (trimStart s)

/-- The text without the leading and trailing copies of one character. -/
def trimChar (c : Char) (s : List Char) : List Char :=
  ((s.dropWhile (· == c)).reverse.dropWhile (· == c)).reverse

/-- The text without its trailing copies of one character. -/
def trimEndChar (c : Char) (s : List Char) : List Char :=
  (s.reverse.dropWhile (· == c)).reverse

/-- The words of a text: its longest runs without blanks. -/
def words (s : List Char) : List (List Char) :=
  (s.splitOnP isBlank).filter fun piece => !piece.isEmpty

/-- A line without the carriage return that stood before its line break. -/
def dropReturn (line : List Char) : List Char :=
  if line.getLast? = some '\r' then line.dropLast else line

/-- The lines of a text given as the pieces between its line breaks. Every
piece but the last ended in a line break; an empty last piece is no line. -/
def linesOfPieces : List (List Char) → List (List Char)
  | [] => []
  | [last] => if last.isEmpty then [] else [last]
  | piece :: more => dropReturn piece :: linesOfPieces more

/-- The lines of a text. A line ends at a line break, which may have one
carriage return before it. -/
def lines (s : List Char) : List (List Char) :=
  linesOfPieces (s.splitOn '\n')

/-- Whether `part` stands somewhere in a text. -/
def occursIn (part : List Char) : List Char → Bool
  | [] => part.isEmpty
  | c :: rest => part.isPrefixOf (c :: rest) || occursIn part rest

/-- The part of a text after the last `c`, or all of it. -/
def afterLast (c : Char) (s : List Char) : List Char :=
  (s.reverse.takeWhile (· != c)).reverse

/-- The parts before and after the first `c`. -/
def cutAtFirst? (c : Char) : List Char → Option (List Char × List Char)
  | [] => none
  | d :: rest =>
    if d = c then some ([], rest)
    else (cutAtFirst? c rest).map fun (before, after) => (d :: before, after)

/-- Whether a text comes before another or is the same, by the code points of
its characters. This is also the order of the bytes in UTF-8. -/
def precedes : List Char → List Char → Bool
  | [], _ => true
  | _ :: _, [] => false
  | c :: s, d :: t => if c = d then precedes s t else c.toNat < d.toNat

/-- At most `max` characters of a text, with three dots where it was cut. -/
def shorten (max : Nat) (s : String) : String :=
  if s.length ≤ max then s else String.ofList (s.toList.take max) ++ "..."

/-- An ASCII letter in lower case; every other character unchanged. -/
def lowerAscii (s : List Char) : List Char :=
  s.map Char.toLower

/-- The number of bytes of a text in UTF-8. -/
def byteLength (s : List Char) : Nat :=
  s.foldr (fun c n => c.utf8Size + n) 0

/-- What follows the first `n` bytes of a text, when a character starts or the
text ends there. -/
def dropBytes? : Nat → List Char → Option (List Char)
  | 0, s => some s
  | _ + 1, [] => none
  | n + 1, c :: rest => if c.utf8Size ≤ n + 1 then dropBytes? (n + 1 - c.utf8Size) rest else none

theorem length_trimStart_le (s : List Char) : (trimStart s).length ≤ s.length :=
  (List.dropWhile_sublist isBlank).length_le

end ClassAtlas.Text
