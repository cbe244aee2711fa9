import ClassAtlas.Proofs.Diagram.CapturedLines

/-!
# Types and their packages

Packages of a diagram can stand inside packages. The reader remembers one
package name only: a line that opens a package sets it, and a line that closes a
package clears it. So a type gets the innermost package around it as long as no
other package was closed there in front of it; behind an inner package, the rest
of the outer one is read as if it stood in none.
-/

namespace ClassAtlas.Diagram

open Text Pattern

/-! ## The outline of a diagram -/

/-- The lines that belong to a block behind its header line, so that the block
is complete: none where no body opens or where it closes on the same line, and
else the lines of the body and the one that closes it. -/
inductive Completes (first : List Char) (header : Header) : List (List Char) → Prop where
  | bare (hopening : header.opening = none) : Completes first header []
  | inline (hopens : header.opening.isSome) (hlast : first.getLast? = some '}') :
    Completes first header []
  | spread {body : List (List Char)} {closing : List Char} (hopens : header.opening.isSome)
    (hlast : first.getLast? ≠ some '}')
    (hbody : ∀ line ∈ body, line.head? ≠ some '}' ∧ header? line = none)
    (hclosing : closing.head? = some '}') : Completes first header (body ++ [closing])

/-- A complete block of a type, given by its trimmed lines. -/
structure CompleteBlock where
  first : List Char
  more : List (List Char)
  header : Header
  header_eq : header? first = some header
  completes : Completes first header more

/-- A line that opens a package. -/
structure PackageOpening where
  line : List Char
  name : List Char
  name_eq : (packageLine.first? line).map Prod.fst = some name

/-- A line that neither opens nor closes anything: it is empty, a directive, a
link, a note on one line, or none of all that. -/
structure IsAside (line : List Char) : Prop where
  ne_close : line ≠ ['}']
  note : "note".toList.isPrefixOf line = true → ':' ∈ line
  package : packageLine.first? line = none
  header : header? line = none

/-- A diagram of properly nested packages with complete blocks in them. -/
inductive Outline where
  | done
  | aside (line : List Char) (h : IsAside line) (rest : Outline)
  | block (whole : CompleteBlock) (rest : Outline)
  | package (opening : PackageOpening) (inside rest : Outline)

namespace Outline

/-- The trimmed lines of the diagram. -/
def lines : Outline → List (List Char)
  | done => []
  | aside line _ rest => line :: rest.lines
  | block whole rest => whole.first :: (whole.more ++ rest.lines)
  | package opening inside rest => opening.line :: (inside.lines ++ ['}'] :: rest.lines)

end Outline

/-- Where a type stands in a diagram. -/
structure Place where
  name : String
  /-- The innermost package around the type, empty if there is none. -/
  package : String
  /-- Whether a package inside that one, or at its level if there is none, stands
  in front of the type. -/
  resumed : Bool
  deriving DecidableEq, Repr

/-- The places of the types of a diagram, in order, for a diagram that stands in
a package. -/
def Outline.places (package : String) (resumed : Bool) : Outline → List Place
  | done => []
  | aside _ _ rest => rest.places package resumed
  | block whole rest =>
    { name := whole.header.name, package, resumed } :: rest.places package resumed
  | .package opening inside rest =>
    inside.places (String.ofList opening.name) false ++ rest.places package true

/-! ## Reading the lines of an outline -/

/-- An item that says nothing about packages and declares no type. -/
def Item.isAside : Item → Bool
  | .link _ | .stray _ => true
  | _ => false

theorem IsAside.readItem_eq {line : List Char} (h : IsAside line) (rest : List (List Char)) :
    ∃ found, readItem line rest = (found, rest) ∧ ∀ item ∈ found, item.isAside = true := by
  have hnone : ∀ item ∈ ([] : List Item), item.isAside = true := by simp
  unfold readItem
  rw [if_neg h.ne_close, h.package, h.header]
  dsimp only
  split
  · exact ⟨[], rfl, hnone⟩
  split
  · exact ⟨[], rfl, hnone⟩
  split
  next hnote =>
    rw [if_pos (by simpa using h.note hnote)]
    exact ⟨[], rfl, hnone⟩
  next =>
    split
    · exact ⟨_, rfl, by simp [Item.isAside]⟩
    · exact ⟨_, rfl, by simp [Item.isAside]⟩

theorem PackageOpening.readItem_eq (opening : PackageOpening) (htrimmed : Trimmed opening.line)
    (rest : List (List Char)) :
    readItem opening.line rest = ([.openPackage opening.name], rest) := by
  obtain ⟨⟨name, after⟩, hfirst, hname⟩ := Option.map_eq_some_iff.mp opening.name_eq
  have haccepts : packageLine.accepts opening.line = true := by
    rw [accepts, hfirst]
    rfl
  obtain ⟨word, hword, _, _, _, _, hline, -⟩ := opensPackage_of_accepts htrimmed haccepts
  have hplain : opening.line.isEmpty = false ∧ opening.line ≠ ['}'] ∧
      isDirective opening.line = false ∧ "note".toList.isPrefixOf opening.line = false := by
    rw [hline]
    simp only [List.mem_cons, List.not_mem_nil, or_false] at hword
    rcases hword with rfl | rfl <;> exact ⟨rfl, by simp, rfl, rfl⟩
  obtain ⟨hfilled, hclose, hdirective, hnote⟩ := hplain
  rw [readItem, hfilled, if_neg (by decide), if_neg hclose, hdirective, if_neg (by decide), hnote,
    if_neg (by decide), hfirst, ← hname]

theorem CompleteBlock.readItem_eq (block : CompleteBlock) (htrimmed : Trimmed block.first)
    (rest : List (List Char)) :
    ∃ body, readItem block.first (block.more ++ rest) = ([.block block.header body], rest) := by
  obtain ⟨first, more, header, hheader, hcompletes⟩ := block
  have htake : ∃ body, blockBody? header.opening (more ++ rest) = some (body, rest) := by
    cases hcompletes with
    | bare hopening => exact ⟨[], by rw [hopening, blockBody?, List.nil_append]⟩
    | inline hopens hlast =>
        obtain ⟨opening, hopening⟩ := Option.isSome_iff_exists.mp hopens
        obtain ⟨whole, hwhole⟩ := List.getLast?_eq_some_iff.mp
          ((getLast?_inner hheader hopening htrimmed).mpr hlast)
        refine ⟨[trim whole], ?_⟩
        rw [hopening, blockBody?]
        dsimp only
        rw [hwhole, isSuffixOf?_concat, List.nil_append]
    | @spread body closing hopens hlast hbody hclosing =>
        obtain ⟨opening, hopening⟩ := Option.isSome_iff_exists.mp hopens
        have hopen := mt (getLast?_inner hheader hopening htrimmed).mp hlast
        rw [hopening, blockBody?]
        dsimp only
        rw [isSuffixOf?_singleton_eq_none hopen, List.append_assoc, List.singleton_append,
          takeBody?_append_closing hbody hclosing]
        exact ⟨_, rfl⟩
  obtain ⟨body, hbody⟩ := htake
  refine ⟨body, ?_⟩
  rw [readItem_of_header? hheader, hbody]

/-! ## Names and packages of declarations -/

end ClassAtlas.Diagram

namespace ClassAtlas

/-- What a declaration is called, and the package it stands in. -/
def Declaration.site (decl : Declaration) : String × String :=
  (decl.name, decl.package)

namespace Diagram

open Text

theorem site_extendBy (decl : Declaration) (parent : String) :
    (extendBy decl parent).site = decl.site := by
  unfold extendBy Declaration.setSuperclass Declaration.setSuperclass? Declaration.extend
    Declaration.extend?
  repeat' split
  all_goals rfl

theorem site_implement (decl : Declaration) (name : String) :
    (decl.implement name).site = decl.site := by
  unfold Declaration.implement Declaration.implement?
  split <;> rfl

theorem site_addLiteral (decl : Declaration) (literal : String) :
    (decl.addLiteral literal).site = decl.site := by
  unfold Declaration.addLiteral
  split <;> rfl

theorem site_addSupertype (link : Relationship) (decl : Declaration) :
    (addSupertype link decl).site = decl.site := by
  unfold addSupertype
  split
  · exact site_extendBy decl link.target
  · exact site_implement decl link.target
  · rfl

/-- Steps that keep the site of a declaration keep it together. -/
theorem site_foldl {α : Type} {step : Declaration → α → Declaration}
    (h : ∀ decl a, (step decl a).site = decl.site) (as : List α) (decl : Declaration) :
    (as.foldl step decl).site = decl.site := by
  induction as generalizing decl with
  | nil => rfl
  | cons a as ih => rw [List.foldl_cons, ih, h]

theorem site_addBodyLine (state : Declaration × ProblemLog) (line : List Char) :
    (addBodyLine state line).1.site = state.1.site := by
  unfold addBodyLine
  dsimp only
  split
  · rfl
  split
  · exact site_foldl site_addLiteral _ _
  split
  · rfl
  · rfl

theorem site_declaration (log : ProblemLog) (package : String) (header : Header)
    (body : List (List Char)) :
    (declaration log package header body).1.site = (header.name, package) := by
  have hlines : ∀ (lines : List (List Char)) (state : Declaration × ProblemLog),
      (lines.foldl addBodyLine state).1.site = state.1.site := by
    intro lines state
    induction lines generalizing state with
    | nil => rfl
    | cons line lines ih => rw [List.foldl_cons, ih, site_addBodyLine]
  rw [declaration, hlines, withSupertypes, site_foldl site_implement, site_foldl site_extendBy]
  rfl

theorem map_updateFirst {α : Type} {f : Declaration → α} {change : Declaration → Declaration}
    (h : ∀ decl, f (change decl) = f decl) (name : String) (types : List Declaration) :
    (updateFirst name change types).map f = types.map f := by
  induction types with
  | nil => rfl
  | cons decl types ih =>
      rw [updateFirst]
      split
      · rw [List.map_cons, List.map_cons, h]
      · rw [List.map_cons, List.map_cons, ih]

theorem map_site_foldl_applyLink (links : List Relationship)
    (state : List Declaration × List Relationship) :
    (links.foldl applyLink state).1.map Declaration.site = state.1.map Declaration.site := by
  induction links generalizing state with
  | nil => rfl
  | cons link links ih =>
      have hstep : (applyLink state link).1.map Declaration.site =
          state.1.map Declaration.site := by
        unfold applyLink
        dsimp only
        split
        · exact map_updateFirst (site_addSupertype link) _ _
        · rfl
      rw [List.foldl_cons, ih, hstep]

/-! ## Gathering an outline -/

theorem foldl_gather_asides {found : List Item} (h : ∀ item ∈ found, item.isAside = true)
    (state : Gathered) :
    (found.foldl gather state).types = state.types ∧
      (found.foldl gather state).package = state.package := by
  induction found generalizing state with
  | nil => exact ⟨rfl, rfl⟩
  | cons item found ih =>
      obtain ⟨hitem, hfound⟩ := List.forall_mem_cons.mp h
      obtain ⟨htypes, hpackage⟩ := ih hfound (gather state item)
      rw [List.foldl_cons, htypes, hpackage]
      cases item with
      | link relationship => exact ⟨rfl, rfl⟩
      | stray line => exact ⟨rfl, rfl⟩
      | openPackage name => contradiction
      | closePackage => contradiction
      | block header body => contradiction
      | unclosed name => contradiction

/-- The package that is open where a package may have been resumed. -/
def openPackage (package : String) (resumed : Bool) : String :=
  if resumed then "" else package

/-- What a type at a place is read as. -/
def Place.site (place : Place) : String × String :=
  (place.name, openPackage place.package place.resumed)

theorem items_close (rest : List (List Char)) :
    items (['}'] :: rest) = .closePackage :: items rest := by
  rw [items]
  rfl

/-- An outline adds its types, each with the package that is open there; the
items behind it are gathered from what this leaves. -/
theorem exists_foldl_gather_outline (outline : Outline)
    (htrimmed : ∀ line ∈ outline.lines, Trimmed line) {package : String} {resumed : Bool}
    {state : Gathered} (hstate : state.package = openPackage package resumed)
    (rest : List (List Char)) :
    ∃ after : Gathered, (items (outline.lines ++ rest)).foldl gather state =
        (items rest).foldl gather after ∧
      after.types.map Declaration.site =
        state.types.map Declaration.site ++ (outline.places package resumed).map Place.site := by
  induction outline generalizing package resumed state rest with
  | done => exact ⟨state, rfl, by simp [Outline.places]⟩
  | aside line h outline ih =>
      rw [Outline.lines] at htrimmed
      obtain ⟨-, hrest⟩ := List.forall_mem_cons.mp htrimmed
      obtain ⟨found, hread, hasides⟩ := h.readItem_eq (outline.lines ++ rest)
      obtain ⟨htypes, hpackage⟩ := foldl_gather_asides hasides state
      obtain ⟨after, hfold, hafter⟩ := ih hrest (hpackage.trans hstate) rest
      refine ⟨after, ?_, ?_⟩
      · rw [Outline.lines, List.cons_append, items, hread, List.foldl_append, hfold]
      · rw [hafter, htypes, Outline.places]
  | block whole outline ih =>
      rw [Outline.lines] at htrimmed
      obtain ⟨hfirst, hmore⟩ := List.forall_mem_cons.mp htrimmed
      obtain ⟨-, hrest⟩ := List.forall_mem_append.mp hmore
      obtain ⟨body, hread⟩ := whole.readItem_eq hfirst (outline.lines ++ rest)
      have hsite := site_declaration state.log state.package whole.header body
      generalize hstep : gather state (.block whole.header body) = next
      have htypes : next.types.map Declaration.site = state.types.map Declaration.site ++
          [(whole.header.name, openPackage package resumed)] := by
        rw [← hstep, ← hstate, ← hsite]
        exact List.map_append
      have hpackage : next.package = openPackage package resumed := by
        rw [← hstep, ← hstate]
        rfl
      obtain ⟨after, hfold, hafter⟩ := ih hrest hpackage rest
      refine ⟨after, ?_, ?_⟩
      · rw [Outline.lines, List.cons_append, List.append_assoc, items, hread,
          List.singleton_append, List.foldl_cons, hstep, hfold]
      · rw [hafter, htypes, Outline.places, List.append_assoc]
        rfl
  | package opening inside outline ihInside ihOutline =>
      rw [Outline.lines] at htrimmed
      obtain ⟨hline, hmore⟩ := List.forall_mem_cons.mp htrimmed
      obtain ⟨hinside, hclosed⟩ := List.forall_mem_append.mp hmore
      obtain ⟨-, hrest⟩ := List.forall_mem_cons.mp hclosed
      have hread := opening.readItem_eq hline (inside.lines ++ ['}'] :: (outline.lines ++ rest))
      generalize hopen : gather state (.openPackage opening.name) = inner
      have hinner : inner.package = openPackage (String.ofList opening.name) false := by
        rw [← hopen]
        rfl
      obtain ⟨last, hfoldInside, hlast⟩ :=
        ihInside hinside hinner (['}'] :: (outline.lines ++ rest))
      have hclose : (gather last .closePackage).package = openPackage package true := rfl
      obtain ⟨after, hfold, hafter⟩ := ihOutline hrest hclose rest
      have hopenTypes : inner.types = state.types := by
        rw [← hopen]
        rfl
      refine ⟨after, ?_, ?_⟩
      · rw [Outline.lines, List.cons_append, List.append_assoc, List.cons_append, items, hread,
          List.singleton_append, List.foldl_cons, hopen, hfoldInside, items_close, List.foldl_cons,
          hfold]
      · have hcloseTypes : (gather last .closePackage).types = last.types := rfl
        rw [hafter, hcloseTypes, hlast, hopenTypes, Outline.places, List.map_append,
          List.append_assoc]

/-- The types of a diagram of nested packages are its blocks in order, each in
the innermost package around it unless an inner package stands in front of it
there, behind which it is read as in no package. So all types get their innermost
package just if no type stands behind an inner package of its package. -/
theorem read_packages (unit : String) {text : List Char} {outline : Outline}
    (h : (lines text).map trim = outline.lines) :
    ((read unit text).types.map fun decl => (decl.name, decl.package)) =
        ((outline.places "" false).map fun place =>
          (place.name, if place.resumed then "" else place.package)) ∧
      ((read unit text).types.map Declaration.package =
          (outline.places "" false).map Place.package ↔
        ∀ place ∈ outline.places "" false, place.resumed = true → place.package = "") := by
  have htrimmed : ∀ line ∈ outline.lines, Trimmed line := by
    rw [← h]
    exact List.forall_mem_map.mpr fun line _ => trimmed_trim line
  have hstart : ({ log := { unit } } : Gathered).package = openPackage "" false := rfl
  obtain ⟨after, hfold, hafter⟩ := exists_foldl_gather_outline outline htrimmed hstart []
  have hsites : (read unit text).types.map Declaration.site =
      (outline.places "" false).map Place.site := by
    have hend : items [] = [] := by rw [items]
    rw [List.append_nil, hend, List.foldl_nil] at hfold
    rw [read, h, hfold]
    exact (map_site_foldl_applyLink _ _).trans hafter
  refine ⟨hsites, ?_⟩
  have hpackages : (read unit text).types.map Declaration.package =
      (outline.places "" false).map fun place => openPackage place.package place.resumed := by
    have hsecond := congrArg (List.map Prod.snd) hsites
    rwa [List.map_map, List.map_map] at hsecond
  rw [hpackages, List.map_inj_left]
  refine forall₂_congr fun place _ => ?_
  rw [openPackage]
  split
  next hresumed => exact ⟨fun hempty _ => hempty.symm, fun hempty => (hempty hresumed).symm⟩
  next hresumed => exact ⟨fun _ htrue => absurd htrue hresumed, fun _ => rfl⟩

/-- Blocks of each form: without a body, with the body on one line, and over
several lines. -/
def clerkBlock : CompleteBlock where
  first := "class Clerk".toList
  more := []
  header := {
    name := "Clerk"
    kind := .«class»
    isAbstract := false
    extended := []
    implemented := []
    opening := none }
  header_eq := by decide +kernel
  completes := .bare rfl

@[inherit_doc clerkBlock]
def shelfBlock : CompleteBlock where
  first := "interface Shelf \x7b +pull() \x7d".toList
  more := []
  header := {
    name := "Shelf"
    kind := .interface
    isAbstract := false
    extended := []
    implemented := []
    opening := some "\x7b +pull() \x7d".toList }
  header_eq := by decide +kernel
  completes := .inline rfl (by decide)

@[inherit_doc clerkBlock]
def sizeBlock : CompleteBlock where
  first := "enum Size \x7b".toList
  more := ["SMALL".toList] ++ [['}']]
  header := {
    name := "Size"
    kind := .enumeration
    isAbstract := false
    extended := []
    implemented := []
    opening := some ['{'] }
  header_eq := by decide +kernel
  completes := .spread rfl (by decide) (by decide +kernel) rfl

/-- The lines that open an outer and an inner package. -/
def shopOpening : PackageOpening where
  line := "package shop \x7b".toList
  name := "shop".toList
  name_eq := by decide +kernel

@[inherit_doc shopOpening]
def stockOpening : PackageOpening where
  line := "namespace stock \x7b".toList
  name := "stock".toList
  name_eq := by decide +kernel

/-- Types in an inner package, and one behind it. -/
def shopOutline : Outline :=
  .aside "@startuml".toList ⟨by decide, by decide, by decide +kernel, by decide +kernel⟩
    (.package shopOpening
      (.package stockOpening (.block shelfBlock (.block sizeBlock .done))
        (.block clerkBlock .done))
      .done)

theorem read_packages_shop :
    let text := "@startuml\npackage shop \x7b\n  namespace stock \x7b\n".toList ++
      "    interface Shelf \x7b +pull() \x7d\n    enum Size \x7b\n      SMALL\n    \x7d\n".toList ++
      "  \x7d\n  class Clerk\n\x7d\n".toList
    (lines text).map trim = shopOutline.lines ∧
      ((read "shop.puml" text).types.map fun decl => (decl.name, decl.package)) =
        [("Shelf", "stock"), ("Size", "stock"), ("Clerk", "")] := by
  intro text
  have h : (lines text).map trim = shopOutline.lines := by decide +kernel
  exact ⟨h, (read_packages "shop.puml" h).1.trans (by decide)⟩

/-- The package around a type is still open behind an inner package, yet the
type is read as if it stood in none. -/
theorem inner_package_hides_outer :
    let text := "package shop \x7b\nnamespace stock \x7b\n\x7d\nclass Clerk\n\x7d".toList
    let outline : Outline :=
      .package shopOpening (.package stockOpening .done (.block clerkBlock .done)) .done
    (lines text).map trim = outline.lines ∧
      (outline.places "" false).map Place.package = ["shop"] ∧
      (read "shop.puml" text).types.map Declaration.package = [""] := by
  decide +kernel

end Diagram

end ClassAtlas
