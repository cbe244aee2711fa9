/-!
# Code and literals

A scan over source text always knows whether it stands in code or inside a
literal. A literal between quotes ends at its quote or at the end of its line;
three double quotes open a text block, which ends at the next three in a row. A
backslash inside a literal protects the character after it.
-/

namespace ClassAtlas.Source

/-- How far a quoted literal has been read. -/
inductive Quoted where
  /-- Only the opening quote. -/
  | opened
  /-- At least one character after the opening quote. -/
  | inside
  /-- A backslash that protects the next character. -/
  | escaped
  deriving DecidableEq, Repr

/-- Where a scan of source text stands. -/
inductive Zone where
  /-- Outside every literal. -/
  | code
  /-- Right after an empty literal between double quotes: a third double quote
  opens a text block. -/
  | afterEmpty
  /-- Inside a literal that `quote` opened. -/
  | quoted (quote : Char) (progress : Quoted)
  /-- Inside a text block, after `quotes` double quotes in a row. -/
  | textBlock (escaped : Bool) (quotes : Nat)
  deriving DecidableEq, Repr

namespace Zone

/-- Whether the scan stands inside a literal. -/
def inLiteral : Zone → Bool
  | code | afterEmpty => false
  | quoted _ _ | textBlock _ _ => true

/-- Whether the scan stands inside a text block. -/
def inTextBlock : Zone → Bool
  | textBlock _ _ => true
  | _ => false

/-- Whether a character read at this point opens or closes a quoted literal
when it is read in code. -/
def isQuote (c : Char) : Bool :=
  c == '"' || c == '\''

/-- Whether the next character is code: it stands outside every literal and is
no quote. -/
def isCode (zone : Zone) (c : Char) : Bool :=
  !zone.inLiteral && !isQuote c

/-- Where the scan stands after one more character. -/
def next : Zone → Char → Zone
  | code, c => if isQuote c then quoted c .opened else code
  | afterEmpty, c =>
    if c = '"' then textBlock false 0
    else if isQuote c then quoted c .opened
    else code
  | quoted quote .escaped, _ => quoted quote .inside
  | quoted quote progress, c =>
    if c = '\\' then quoted quote .escaped
    else if c = quote || c = '\n' then
      if c = '"' && progress = .opened then afterEmpty else code
    else quoted quote .inside
  | textBlock true _, _ => textBlock false 0
  | textBlock false quotes, c =>
    if c = '\\' then textBlock true 0
    else if c = '"' then
      if quotes = 2 then code else textBlock false (quotes + 1)
    else textBlock false 0

/-- Where the scan stands after a whole text. -/
def after (zone : Zone) (s : List Char) : Zone :=
  s.foldl next zone

@[simp]
theorem after_nil (zone : Zone) : zone.after [] = zone := rfl

@[simp]
theorem after_cons (zone : Zone) (c : Char) (s : List Char) :
    zone.after (c :: s) = (zone.next c).after s := rfl

theorem after_append (zone : Zone) (s t : List Char) :
    zone.after (s ++ t) = (zone.after s).after t := by
  simp [after, List.foldl_append]

/-- Reading a code character leaves the scan in code. -/
theorem next_of_isCode {zone : Zone} {c : Char} (h : zone.isCode c = true) :
    zone.next c = code := by
  cases zone <;> simp_all [isCode, inLiteral, next, isQuote]

end Zone

end ClassAtlas.Source
