/-!
# JSON values and their text

Values without numbers, which is all that written models need. The text puts
every item on its own line, two spaces deeper than what holds it.
-/

namespace ClassAtlas.Json

/-- A JSON value. -/
inductive Value where
  | null
  | bool (b : Bool)
  | text (s : String)
  | list (items : List Value)
  | record (members : List (String × Value))
  deriving Repr

namespace Value

/-- The two lowest hexadecimal digits of a number. -/
def hexPair (n : Nat) : List Char :=
  [Nat.digitChar (n / 16 % 16), Nat.digitChar (n % 16)]

/-- The text that stands for a character in a string literal. -/
def escapeChar (c : Char) : List Char :=
  if c = '"' then ['\\', '"']
  else if c = '\\' then ['\\', '\\']
  else if c = '\n' then ['\\', 'n']
  else if c = '\r' then ['\\', 'r']
  else if c = '\t' then ['\\', 't']
  else if c.toNat = 0x08 then ['\\', 'b']
  else if c.toNat = 0x0C then ['\\', 'f']
  else if c.toNat < 0x20 then "\\u00".toList ++ hexPair c.toNat
  else [c]

/-- A string literal. -/
def quote (s : String) : String :=
  "\"" ++ String.ofList (s.toList.flatMap escapeChar) ++ "\""

/-- A line break and the indentation of the given depth. -/
def newLine (depth : Nat) : String :=
  "\n" ++ String.ofList (List.replicate (2 * depth) ' ')

mutual

/-- The text of a value at the given depth. -/
def render (depth : Nat) : Value → String
  | null => "null"
  | bool b => if b then "true" else "false"
  | text s => quote s
  | list [] => "[]"
  | list (item :: rest) =>
    "[" ++ newLine (depth + 1) ++ render (depth + 1) item ++ renderItems (depth + 1) rest ++
      newLine depth ++ "]"
  | record [] => "\x7b\x7d"
  | record ((key, value) :: rest) =>
    "\x7b" ++ newLine (depth + 1) ++ quote key ++ ": " ++ render (depth + 1) value ++
      renderMembers (depth + 1) rest ++ newLine depth ++ "\x7d"

/-- The text of the items of a list after the first. -/
def renderItems (depth : Nat) : List Value → String
  | [] => ""
  | item :: rest => "," ++ newLine depth ++ render depth item ++ renderItems depth rest

/-- The text of the members of a record after the first. -/
def renderMembers (depth : Nat) : List (String × Value) → String
  | [] => ""
  | (key, value) :: rest =>
    "," ++ newLine depth ++ quote key ++ ": " ++ render depth value ++ renderMembers depth rest

end

end Value

end ClassAtlas.Json
