/-!
# Identifiers of model elements

A registry issues one identifier for each path and never the same for two. An
identifier is an underscore and the digest of the scope and the path; if that
one is taken, a counter after the path gives others to try. The digest is a
parameter, and nothing here depends on which one it is. Two tables are kept, one
to find the identifier of a path and one to see whether an identifier is taken.
-/

namespace ClassAtlas

/-- The identifiers issued so far. -/
structure Registry where
  /-- What the digest of every identifier starts from. -/
  scope : String
  digest : String → String
  /-- The paths with their identifiers, the latest first. -/
  issued : List (String × String) := []
  /-- The identifiers with the paths they were issued for, the latest first. -/
  owners : List (String × String) := []

namespace Registry

/-- The identifier of a path, if one was issued. -/
def get? (registry : Registry) (path : String) : Option String :=
  registry.issued.lookup path

/-- The path that an identifier was issued for, if it was. -/
def owner? (registry : Registry) (id : String) : Option String :=
  registry.owners.lookup id

/-- The number of identifiers issued. -/
def size (registry : Registry) : Nat :=
  registry.issued.length

/-- Whether an identifier was issued. -/
def isTaken (registry : Registry) (id : String) : Bool :=
  (registry.owner? id).isSome

/-- The identifier to try for a path at the given count. -/
def candidate (registry : Registry) (path : String) (count : Nat) : String :=
  let counter := if count = 0 then "" else "#" ++ toString count
  "_" ++ registry.digest (registry.scope ++ "|" ++ path ++ counter)

/-- The first free identifier for a path among `tries` counts from `count` on. -/
def firstFree? (registry : Registry) (path : String) : Nat → Nat → Option String
  | 0, _ => none
  | tries + 1, count =>
    let id := registry.candidate path count
    if registry.isTaken id then firstFree? registry path tries (count + 1) else some id

/-- How many identifiers are tried for one path: the counter has 32 bits. -/
def maxTries : Nat :=
  0x100000000

/-- The registry with an identifier issued for a path. -/
def issue (registry : Registry) (path id : String) : Registry :=
  { registry with
    issued := (path, id) :: registry.issued
    owners := (id, path) :: registry.owners }

/-- The identifier of a path, issued now if it was not before. There is none if
every identifier to try is taken. -/
def assign? (registry : Registry) (path : String) : Option (String × Registry) :=
  match registry.get? path with
  | some id => some (id, registry)
  | none =>
    (registry.firstFree? path maxTries 0).map fun id => (id, registry.issue path id)

end Registry

/-- A computation that issues identifiers and stops where one cannot be issued. -/
abbrev Issuing :=
  StateT Registry Option

namespace Issuing

/-- The identifier of a path. -/
def assign (path : String) : Issuing String :=
  fun registry => registry.assign? path

/-- The identifier of a path, if one was issued. -/
def lookup? (path : String) : Issuing (Option String) :=
  fun registry => some (registry.get? path, registry)

end Issuing

end ClassAtlas
