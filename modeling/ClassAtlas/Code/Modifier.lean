import ClassAtlas.Text.Pattern
import ClassAtlas.Declaration

/-!
# Modifiers

Modifiers are kept as the words that were written. Their order is free, and a
member's visibility is the first of public, private and protected among them.
-/

namespace ClassAtlas.Code

open ClassAtlas.Text Pattern

/-- Any number of modifiers from a list of words. -/
def modifiers (choices : List String) : Pattern (List String) :=
  many do
    let word ← keyword choices
    gap1
    return word

/-- The visibility that a list of modifiers gives. -/
def visibilityOf (written : List String) : Visibility :=
  if written.contains "public" then .«public»
  else if written.contains "private" then .«private»
  else if written.contains "protected" then .«protected»
  else .package

/-- The visibility of a member: in an interface, a member without a visibility
of its own is public. -/
def memberVisibility (owner : TypeKind) (written : List String) : Visibility :=
  match owner, visibilityOf written with
  | .interface, .package => .«public»
  | _, visibility => visibility

end ClassAtlas.Code
