import ClassAtlas.Declaration
import ClassAtlas.Relationship
import ClassAtlas.Problem

/-!
# What reading a unit gives
-/

namespace ClassAtlas

/-- What was read from one source unit. -/
structure Extraction where
  /-- The first package named in the unit. -/
  package : String := ""
  types : List Declaration := []
  /-- The relationships that the unit states outright. -/
  relationships : List Relationship := []
  problems : List Problem := []
  deriving DecidableEq, Repr

end ClassAtlas
