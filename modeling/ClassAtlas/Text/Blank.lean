/-!
# Blank characters

The white-space characters of the Unicode standard. Trimming, splitting into
words and every pattern that skips blanks use this one class.
-/

namespace ClassAtlas.Text

/-- The code points with the `White_Space` property, as closed ranges in
ascending order. -/
def blankRanges : List (Nat × Nat) :=
  [(0x09, 0x0D), (0x20, 0x20), (0x85, 0x85), (0xA0, 0xA0), (0x1680, 0x1680),
    (0x2000, 0x200A), (0x2028, 0x2029), (0x202F, 0x202F), (0x205F, 0x205F),
    (0x3000, 0x3000)]

/-- Whether a character is white space. -/
def isBlank (c : Char) : Bool :=
  blankRanges.any fun range => range.1 ≤ c.toNat && c.toNat ≤ range.2

/-- A line break is blank. -/
@[simp]
theorem isBlank_newline : isBlank '\n' = true := rfl

/-- The space character is blank. -/
@[simp]
theorem isBlank_space : isBlank ' ' = true := rfl

end ClassAtlas.Text
