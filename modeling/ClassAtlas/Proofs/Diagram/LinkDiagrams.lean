import ClassAtlas.Proofs.Diagram.CapturedLines

/-!
# Diagrams of links

A diagram all of whose lines are links is read as exactly these links if and
only if no rule before the rule for links captures one of the lines.

That the other rules lose links is a matter of counting. Whatever a line takes
with it, the lines behind it are a suffix of the diagram, so the links that are
read are those of some of the lines that reach the rule for links, in their
order, and a captured line is not among these.
-/

namespace ClassAtlas.Diagram

open Text Pattern

/-! ## The link of a line -/

instance (line : List Char) : Decidable (ReachesLinks line) :=
  decidable_of_iff (isDirective line = false ∧ "note".toList.isPrefixOf line = false ∧
      packageLine.accepts line = false ∧ (header? line).isSome = false)
    ⟨fun ⟨h₁, h₂, h₃, h₄⟩ => ⟨h₁, h₂, h₃, h₄⟩,
      fun h => ⟨h.directive, h.note, h.package, h.header⟩⟩

/-- The link that a line is read as, if no other rule takes it. -/
def reachedLink? (line : List Char) : Option Relationship :=
  if ReachesLinks line then link? line else none

/-- The relationship of an item that is a link. -/
def Item.link? : Item → Option Relationship
  | .link relationship => some relationship
  | _ => none

theorem readItem_of_reachesLinks {line : List Char} {link : Relationship} (h : ReachesLinks line)
    (hlink : Diagram.link? line = some link) (rest : List (List Char)) :
    readItem line rest = ([.link link], rest) := by
  have hfilled : line.isEmpty = false := by
    rw [List.isEmpty_eq_false_iff]
    rintro rfl
    contradiction
  have hopen : line ≠ ['}'] := by
    rintro rfl
    contradiction
  have hpackage : packageLine.first? line = none := by
    simpa [accepts] using h.package
  have hheader : header? line = none := by
    simpa using h.header
  rw [readItem, hfilled, if_neg (by decide), if_neg hopen, h.directive, if_neg (by decide),
    h.note, if_neg (by decide), hpackage, hheader]
  dsimp only
  rw [hlink]

/-! ## The lines behind an item -/

theorem takeBody?_suffix {lines body after : List (List Char)}
    (h : takeBody? lines = some (body, after)) : after <:+ lines := by
  induction lines generalizing body with
  | nil => contradiction
  | cons line rest ih =>
      rw [takeBody?] at h
      split at h
      next =>
        obtain ⟨-, rfl⟩ := Prod.mk.inj (Option.some.inj h)
        exact List.suffix_cons line rest
      next =>
        split at h
        next => contradiction
        next =>
          obtain ⟨⟨inner, behind⟩, hbody, heq⟩ := Option.map_eq_some_iff.mp h
          obtain ⟨-, rfl⟩ := Prod.mk.inj heq
          exact (ih hbody).trans (List.suffix_cons line rest)

theorem blockBody?_suffix {opening : Option (List Char)} {rest body after : List (List Char)}
    (h : blockBody? opening rest = some (body, after)) : after <:+ rest := by
  unfold blockBody? at h
  split at h
  next =>
    obtain ⟨-, rfl⟩ := Prod.mk.inj (Option.some.inj h)
    exact List.suffix_refl rest
  next =>
    dsimp only at h
    split at h
    next =>
      obtain ⟨-, rfl⟩ := Prod.mk.inj (Option.some.inj h)
      exact List.suffix_refl rest
    next =>
      obtain ⟨⟨inner, behind⟩, hbody, heq⟩ := Option.map_eq_some_iff.mp h
      obtain ⟨-, rfl⟩ := Prod.mk.inj heq
      exact takeBody?_suffix hbody

theorem note_suffix (line : List Char) (rest : List (List Char)) :
    (if line.contains ':' then rest else skipNote rest) <:+ rest := by
  split
  next => exact List.suffix_refl rest
  next => exact (List.drop_suffix 1 _).trans (List.dropWhile_suffix _)

/-- A line is read as its link, or it gives no link and the reader goes on
somewhere behind it. -/
theorem readItem_cases (line : List Char) (rest : List (List Char)) :
    (∃ link, reachedLink? line = some link ∧ readItem line rest = ([.link link], rest)) ∨
      (readItem line rest).1.filterMap Item.link? = [] ∧ (readItem line rest).2 <:+ rest := by
  cases hreached : reachedLink? line with
  | some link =>
      obtain ⟨hreaches, hlink⟩ := Option.ite_none_right_eq_some.mp hreached
      exact Or.inl ⟨link, rfl, readItem_of_reachesLinks hreaches hlink rest⟩
  | none =>
      right
      unfold readItem
      split
      next => exact ⟨rfl, List.suffix_refl rest⟩
      next =>
        split
        next => exact ⟨rfl, List.suffix_refl rest⟩
        next =>
          split
          next => exact ⟨rfl, List.suffix_refl rest⟩
          next hdirective =>
            split
            next => exact ⟨rfl, note_suffix line rest⟩
            next hnote =>
              split
              next => exact ⟨rfl, List.suffix_refl rest⟩
              next hpackage =>
                split
                next header _ =>
                  split
                  next hbody => exact ⟨rfl, blockBody?_suffix hbody⟩
                  next => exact ⟨rfl, List.dropWhile_suffix _⟩
                next hheader =>
                  -- no other rule was left, and the line did not reach its own
                  have hreaches : ReachesLinks line := by
                    constructor
                    · exact Bool.eq_false_iff.mpr hdirective
                    · exact Bool.eq_false_iff.mpr hnote
                    · simp [accepts, hpackage]
                    · simp [hheader]
                  rw [reachedLink?, if_pos hreaches] at hreached
                  rewrite [hreached]
                  exact ⟨rfl, List.suffix_refl rest⟩

/-! ## Links are lost, but never found -/

/-- The links among the items of a diagram are those of some of its lines. -/
theorem filterMap_items_sublist (lines : List (List Char)) :
    ((items lines).filterMap Item.link?).Sublist (lines.filterMap reachedLink?) := by
  induction lines using items.induct with
  | case1 => simp [items]
  | case2 line rest ih =>
      rw [items, List.filterMap_append]
      rcases readItem_cases line rest with ⟨link, hreached, hread⟩ | ⟨hnone, hsuffix⟩
      · rw [hread] at ih ⊢
        rw [List.filterMap_cons_some hreached]
        exact ih.cons_cons link
      · have hrest := ih.trans (hsuffix.sublist.filterMap reachedLink?)
        rw [hnone, List.nil_append]
        exact hrest.trans ((List.sublist_cons_self line rest).filterMap reachedLink?)

theorem links_foldl_gather (items : List Item) (state : Gathered) :
    (items.foldl gather state).links = state.links ++ items.filterMap Item.link? := by
  induction items generalizing state with
  | nil => simp
  | cons item items ih =>
      rw [List.foldl_cons, ih, List.filterMap_cons]
      cases item with
      | link relationship => simp [gather, Item.link?]
      | _ => rfl

/-- A link is kept or folded into a declaration. -/
theorem foldl_applyLink_sublist (links : List Relationship)
    (state : List Declaration × List Relationship) :
    (links.foldl applyLink state).2.Sublist (state.2 ++ links) := by
  induction links generalizing state with
  | nil => simp
  | cons link links ih =>
      have hstep : (applyLink state link).2.Sublist (state.2 ++ [link]) := by
        obtain ⟨types, declared⟩ := state
        rw [applyLink]
        dsimp only
        split
        next => exact List.sublist_append_left declared [link]
        next => exact List.Sublist.refl _
      rw [List.foldl_cons, ← List.singleton_append, ← List.append_assoc]
      exact (ih _).trans (hstep.append_right links)

theorem foldl_applyLink_nil (links declared : List Relationship) :
    links.foldl applyLink ([], declared) = ([], declared ++ links) := by
  induction links generalizing declared with
  | nil => simp
  | cons link links ih =>
      have hstep : applyLink ([], declared) link = ([], declared ++ [link]) := by
        simp [applyLink]
      rw [List.foldl_cons, hstep, ih, List.append_assoc, List.singleton_append]

/-- The relationships of a diagram are links of its lines. -/
theorem relationships_read_sublist (unit : String) (text : List Char) :
    (read unit text).relationships.Sublist (((lines text).map trim).filterMap reachedLink?) := by
  have hkept := foldl_applyLink_sublist
    ((items ((lines text).map trim)).foldl gather { log := { unit } }).links
    (((items ((lines text).map trim)).foldl gather { log := { unit } }).types, [])
  refine hkept.trans ?_
  rw [links_foldl_gather]
  exact filterMap_items_sublist _

/-! ## Reading links and nothing else -/

theorem items_of_reachesLinks {written : List (List Char)} {links : List Relationship}
    (hlinks : written.map (fun line => link? (trim line)) = links.map some)
    (hreaches : ∀ line ∈ written, ReachesLinks (trim line)) :
    items (written.map trim) = links.map .link := by
  induction written generalizing links with
  | nil =>
      obtain rfl := List.map_eq_nil_iff.mp hlinks.symm
      simp [items]
  | cons line written ih =>
      obtain ⟨link, links, rfl, hlink, hlinks⟩ := List.map_eq_cons_iff.mp hlinks.symm
      obtain ⟨hfirst, hrest⟩ := List.forall_mem_cons.mp hreaches
      rw [List.map_cons, items, readItem_of_reachesLinks hfirst hlink.symm, ih hlinks.symm hrest]
      rfl

/-- A diagram of links is read as exactly these links if no line is captured by
another rule, and only then. -/
theorem read_links_iff (unit : String) {written : List (List Char)} {links : List Relationship}
    (hwritten : ∀ line ∈ written, '\n' ∉ line)
    (hlinks : written.map (fun line => link? (trim line)) = links.map some) :
    read unit (['\n'].intercalate written) = { relationships := links } ↔
      ∀ line ∈ written, ¬Captured (trim line) := by
  have hstated : ∀ line ∈ written, ∃ link, link? (trim line) = some link := by
    intro line hline
    have hmem := List.mem_map_of_mem (f := fun line => link? (trim line)) hline
    rw [hlinks] at hmem
    obtain ⟨link, -, hlink⟩ := List.mem_map.mp hmem
    exact ⟨link, hlink.symm⟩
  have hreaches : ∀ line ∈ written, ReachesLinks (trim line) ↔ ¬Captured (trim line) := by
    intro line hline
    obtain ⟨link, hlink⟩ := hstated line hline
    exact reachesLinks_iff hlink (trimmed_trim line)
      fun hmem => hwritten line hline (mem_of_mem_trim hmem)
  have hfilled : ∀ line ∈ written, line ≠ [] := by
    rintro line hline rfl
    obtain ⟨link, hlink⟩ := hstated [] hline
    contradiction
  have htext := map_trim_lines_intercalate hwritten hfilled
  constructor
  · intro hread line hline
    have hkept := relationships_read_sublist unit (['\n'].intercalate written)
    rw [hread, htext, List.filterMap_map] at hkept
    -- as many links as lines, so no line is left out
    have hcount : written.length = links.length := by
      simpa using congrArg List.length hlinks
    have hlength : (written.filterMap (reachedLink? ∘ trim)).length = written.length :=
      le_antisymm (List.length_filterMap_le _ _) (hcount ▸ hkept.length_le)
    have hsome := List.filterMap_length_eq_length.mp hlength line hline
    obtain ⟨link, hlink⟩ := Option.isSome_iff_exists.mp hsome
    exact (hreaches line hline).mp (Option.ite_none_right_eq_some.mp hlink).1
  · intro hplain
    have hitems := items_of_reachesLinks hlinks fun line hline =>
      (hreaches line hline).mpr (hplain line hline)
    rw [read, htext, hitems, foldl_gather_links]
    dsimp only
    rw [foldl_applyLink_nil]
    rfl

/-- Words of other rules stand in lines that these rules do not take. -/
theorem read_links_near_words :
    let written := ["package --> Shelf", "  class \"1\" *-- \"2\" Lid : held",
      "Show <|-- Class"].map String.toList
    let links : List Relationship :=
      [{ source := "package", target := "Shelf", kind := .association },
        { source := "class", target := "Lid", kind := .composition, label := some "held"
          multiplicity := some "2" },
        { source := "Class", target := "Show", kind := .generalization }]
    (∀ line ∈ written, '\n' ∉ line) ∧
      written.map (fun line => link? (trim line)) = links.map some ∧
      read "sketch" (['\n'].intercalate written) = { relationships := links } ∧
      ∀ line ∈ written, ¬Captured (trim line) := by
  intro written links
  have hwritten : ∀ line ∈ written, '\n' ∉ line := by
    decide
  have hlinks : written.map (fun line => link? (trim line)) = links.map some := by
    decide +kernel
  have hread : read "sketch" (['\n'].intercalate written) = { relationships := links } := by
    decide +kernel
  exact ⟨hwritten, hlinks, hread, (read_links_iff "sketch" hwritten hlinks).mp hread⟩

/-- Each of the rules can take a link. -/
example : ∀ line ∈ ["notebook --> Shelf", "package \"x\" --> Box : \x7b",
    "class \"x\" <|-- Box : >"].map String.toList,
      (link? line).isSome ∧ (read "sketch" line).relationships = [] := by
  decide +kernel

/-- The letters of a directive at the start of a name hide a link. -/
theorem showcase_hides_link :
    link? "showcase --> Shelf".toList =
        some { source := "showcase", target := "Shelf", kind := .association } ∧
      read "sketch" "showcase --> Shelf".toList = {} := by
  constructor
  · decide +kernel
  · decide +kernel

end ClassAtlas.Diagram
