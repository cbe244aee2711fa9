/-!
# Elements of an interchange document

An element has a name, attributes in order and child elements in order, and no
text of its own. It is written on lines of its own, two spaces deeper than its
parent.
-/

namespace ClassAtlas.Interchange

/-- An element of a document. -/
inductive Element where
  | node (name : String) (attributes : List (String × String)) (children : List Element)
  deriving Repr

namespace Element

/-- The text that stands for a character in an attribute value. -/
def escapeChar (c : Char) : List Char :=
  if c = '&' then "&amp;".toList
  else if c = '<' then "&lt;".toList
  else if c = '>' then "&gt;".toList
  else if c = '"' then "&quot;".toList
  else if c = '\'' then "&apos;".toList
  else [c]

/-- An attribute value as written. -/
def escape (value : String) : String :=
  String.ofList (value.toList.flatMap escapeChar)

/-- The attributes as written, each after a space. -/
def renderAttributes (attributes : List (String × String)) : String :=
  String.join (attributes.map fun (key, value) => " " ++ key ++ "=\"" ++ escape value ++ "\"")

/-- The spaces in front of an element. -/
def indentation (depth : Nat) : String :=
  String.ofList (List.replicate (2 * depth) ' ')

mutual

/-- The lines of an element at the given depth. -/
def render (depth : Nat) : Element → String
  | node name attributes children =>
    let start := indentation depth ++ "<" ++ name ++ renderAttributes attributes
    match children with
    | [] => start ++ "/>\n"
    | child :: more =>
      start ++ ">\n" ++ (render (depth + 1) child ++ renderAll (depth + 1) more) ++
        indentation depth ++ "</" ++ name ++ ">\n"

/-- The lines of elements at the given depth. -/
def renderAll (depth : Nat) : List Element → String
  | [] => ""
  | element :: rest => render depth element ++ renderAll depth rest

end

end Element

end ClassAtlas.Interchange
