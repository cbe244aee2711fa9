/-!
# JSON texts

Reading of JSON texts into trees that keep strings and numbers as they were
written, and members in order, repeated keys included. What a scalar means is
asked of the tree later: an ignored part has to be well-formed, but its strings
need not denote texts and its numbers may have any size.
-/

namespace ClassAtlas.Json

/-- A JSON text as a tree. -/
inductive Source where
  | null
  | bool (b : Bool)
  /-- A number, as written. -/
  | number (digits : List Char)
  /-- A string, as written between its quotes. -/
  | string (raw : List Char)
  | list (items : List Source)
  | record (members : List (List Char × Source))
  deriving Repr

namespace Source

/-- The text without the blanks that may stand between JSON tokens. -/
def skipSpace (s : List Char) : List Char :=
  s.dropWhile fun c => c == ' ' || c == '\t' || c == '\n' || c == '\r'

/-- The value of a hexadecimal digit. -/
def hexDigit? (c : Char) : Option Nat :=
  if c.isDigit then some (c.toNat - '0'.toNat)
  else if 'a' ≤ c && c ≤ 'f' then some (c.toNat - 'a'.toNat + 10)
  else if 'A' ≤ c && c ≤ 'F' then some (c.toNat - 'A'.toNat + 10)
  else none

/-- The value of four hexadecimal digits at the front of a text. -/
def hexQuad? : List Char → Option (Nat × List Char)
  | a :: b :: c :: d :: rest => do
    let value := (((← hexDigit? a) * 16 + (← hexDigit? b)) * 16 + (← hexDigit? c)) * 16 +
      (← hexDigit? d)
    return (value, rest)
  | _ => none

/-- The character that an escape letter stands for. -/
def escapeLetter? (c : Char) : Option Char :=
  if c = '"' || c = '\\' || c = '/' then some c
  else if c = 'b' then some (Char.ofNat 0x08)
  else if c = 'f' then some (Char.ofNat 0x0C)
  else if c = 'n' then some '\n'
  else if c = 'r' then some '\r'
  else if c = 't' then some '\t'
  else none

/-- The raw text of a string up to its closing quote, and the text after the
quote. Control characters and unknown escapes are refused. -/
def rawString? : List Char → Option (List Char × List Char)
  | [] => none
  | '"' :: rest => some ([], rest)
  | '\\' :: 'u' :: a :: b :: c :: d :: rest => do
    let _ ← hexQuad? [a, b, c, d]
    let (raw, after) ← rawString? rest
    return ('\\' :: 'u' :: a :: b :: c :: d :: raw, after)
  | '\\' :: c :: rest => do
    let _ ← escapeLetter? c
    let (raw, after) ← rawString? rest
    return ('\\' :: c :: raw, after)
  | c :: rest =>
    if c = '\\' || c.toNat < 0x20 then none
    else (rawString? rest).map fun (raw, after) => (c :: raw, after)

/-- One or more digits, and the text after them. -/
def digits? (s : List Char) : Option (List Char × List Char) :=
  if (s.takeWhile Char.isDigit).isEmpty then none
  else some (s.takeWhile Char.isDigit, s.dropWhile Char.isDigit)

/-- The integer part of a number without its sign. It has no leading zero. -/
def integerPart? : List Char → Option (List Char × List Char)
  | '0' :: rest =>
    match rest with
    | c :: _ => if c.isDigit then none else some (['0'], rest)
    | [] => some (['0'], [])
  | s => digits? s

/-- The fraction of a number, if it has one. -/
def fraction? : List Char → Option (List Char × List Char)
  | '.' :: rest => (digits? rest).map fun (ds, after) => ('.' :: ds, after)
  | s => some ([], s)

/-- The exponent of a number, if it has one. -/
def exponent? : List Char → Option (List Char × List Char)
  | c :: rest =>
    if c = 'e' || c = 'E' then
      match rest with
      | '+' :: more => (digits? more).map fun (ds, after) => (c :: '+' :: ds, after)
      | '-' :: more => (digits? more).map fun (ds, after) => (c :: '-' :: ds, after)
      | more => (digits? more).map fun (ds, after) => (c :: ds, after)
    else some ([], c :: rest)
  | [] => some ([], [])

/-- A number as written, and the text after it. -/
def number? (s : List Char) : Option (List Char × List Char) := do
  let (sign, s) :=
    match s with
    | '-' :: rest => (['-'], rest)
    | _ => ([], s)
  let (integer, s) ← integerPart? s
  let (fraction, s) ← fraction? s
  let (exponent, s) ← exponent? s
  return (sign ++ integer ++ fraction ++ exponent, s)

mutual

/-- The value at the front of a text, and the text after it. A value of `n`
characters is read with `n` steps. -/
def value? : Nat → List Char → Option (Source × List Char)
  | 0, _ => none
  | steps + 1, s =>
    match skipSpace s with
    | 'n' :: 'u' :: 'l' :: 'l' :: rest => some (null, rest)
    | 't' :: 'r' :: 'u' :: 'e' :: rest => some (bool true, rest)
    | 'f' :: 'a' :: 'l' :: 's' :: 'e' :: rest => some (bool false, rest)
    | '"' :: rest => (rawString? rest).map fun (raw, after) => (string raw, after)
    | '[' :: rest =>
      match skipSpace rest with
      | ']' :: after => some (list [], after)
      | _ => (items? steps rest).map fun (items, after) => (list items, after)
    | '{' :: rest =>
      match skipSpace rest with
      | '}' :: after => some (record [], after)
      | _ => (members? steps rest).map fun (members, after) => (record members, after)
    | s => (number? s).map fun (digits, after) => (number digits, after)

/-- One or more items up to the bracket that closes their list, and the text
after it. -/
def items? : Nat → List Char → Option (List Source × List Char)
  | 0, _ => none
  | steps + 1, s => do
    let (item, s) ← value? steps s
    match skipSpace s with
    | ']' :: after => some ([item], after)
    | ',' :: rest =>
      let (more, after) ← items? steps rest
      return (item :: more, after)
    | _ => none

/-- One or more members up to the brace that closes their record, and the text
after it. -/
def members? : Nat → List Char → Option (List (List Char × Source) × List Char)
  | 0, _ => none
  | steps + 1, s =>
    match skipSpace s with
    | '"' :: rest => do
      let (key, s) ← rawString? rest
      match skipSpace s with
      | ':' :: s =>
        let (value, s) ← value? steps s
        match skipSpace s with
        | '}' :: after => some ([(key, value)], after)
        | ',' :: rest =>
          let (more, after) ← members? steps rest
          return ((key, value) :: more, after)
        | _ => none
      | _ => none
    | _ => none

end

/-- The tree of a whole JSON text. Each nested reading takes a character, and
one more step opens the outermost value. -/
def parse? (text : String) : Option Source := do
  let s := text.toList
  let (tree, rest) ← value? (s.length + 1) s
  if (skipSpace rest).isEmpty then some tree else none

/-- The code point that a surrogate pair stands for. -/
def pairValue (high low : Nat) : Nat :=
  0x10000 + (high - 0xD800) * 0x400 + (low - 0xDC00)

/-- The characters of a raw string, read with as many steps as it is long.
There are none if an escape is half of a surrogate pair. -/
def decodeChars? : Nat → List Char → Option (List Char)
  | _, [] => some []
  | 0, _ :: _ => none
  | steps + 1, '\\' :: 'u' :: rest => do
    let (unit, rest) ← hexQuad? rest
    if 0xDC00 ≤ unit && unit ≤ 0xDFFF then none
    else if 0xD800 ≤ unit && unit ≤ 0xDBFF then
      match rest with
      | '\\' :: 'u' :: more =>
        let (low, rest) ← hexQuad? more
        if 0xDC00 ≤ low && low ≤ 0xDFFF then
          return Char.ofNat (pairValue unit low) :: (← decodeChars? steps rest)
        else none
      | _ => none
    else return Char.ofNat unit :: (← decodeChars? steps rest)
  | steps + 1, '\\' :: c :: rest => do
    return (← escapeLetter? c) :: (← decodeChars? steps rest)
  | steps + 1, c :: rest => do
    return c :: (← decodeChars? steps rest)

/-- The text that a raw string denotes. -/
def decode? (raw : List Char) : Option String :=
  (decodeChars? raw.length raw).map String.ofList

end Source

end ClassAtlas.Json
