import ClassAtlas.Source.Zone

/-!
# Source text with masked literals

The contents of literals become spaces, one for each byte, so that every byte
offset stays and a search for structure finds none in a literal. Delimiters,
line breaks and the quotes and backslashes of a text block are kept, so a scan
of the masked text passes through the same literals.
-/

namespace ClassAtlas.Source

/-- Whether masking keeps a character read at `zone`: it is code, a line break,
a quote or backslash of a text block, or it opens or closes a literal. -/
def Zone.keeps (zone : Zone) (c : Char) : Bool :=
  zone.isCode c || c == '\n' || (zone.inTextBlock && (c == '"' || c == '\\')) ||
    zone.inLiteral != (zone.next c).inLiteral

/-- The text with masked literals, read from `zone` on. -/
def maskFrom : Zone → List Char → List Char
  | _, [] => []
  | zone, c :: rest =>
    (if zone.keeps c then [c] else List.replicate c.utf8Size ' ') ++
      maskFrom (zone.next c) rest

/-- The text with the contents of its literals blanked out. -/
def maskLiterals (s : List Char) : List Char :=
  maskFrom .code s

end ClassAtlas.Source
