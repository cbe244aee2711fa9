import ClassAtlas.Proofs.Discovery.ExtensionPatterns
import ClassAtlas.Proofs.Discovery.Folders

/-!
# Walking a folder

A root is followed piece by piece, and from where it ends the pattern of an
extension leads to everything below whose name ends in the extension. The trail
to a file is the trail of the root with the names behind it.
-/

namespace ClassAtlas

open Text Glob

namespace Trail

variable {folder : Folder} {trail found : Trail}

/-! ## Following a root -/

theorem place_descend {names base : List String} (h : trail.place = .within base) :
    (trail.descend names).place = .within (base ++ names) := by
  induction names generalizing trail base with
  | nil => simpa [descend] using h
  | cons name names ih =>
      have hstep : (trail.descend [name]).place = .within (base ++ [name]) := by
        simp [descend, h, Place.child?]
      have hrest := ih hstep
      rwa [List.append_assoc] at hrest

theorem follow?_eq_some_iff {piece : List Char} :
    trail.follow? folder piece = some found ↔
      join trail.text piece = found.text ∧ found.text ≠ [] ∧
        folder.step? trail.place ((Path.Part.ofText? piece).getD .current) =
          some found.place := by
  obtain ⟨text, place⟩ := found
  rw [follow?]
  by_cases hnil : join trail.text piece = []
  · simp only [hnil, if_true]
    constructor
    · intro h
      contradiction
    · rintro ⟨rfl, hne, -⟩
      contradiction
  · simp only [hnil, if_false, Option.map_eq_some_iff, Trail.mk.injEq]
    constructor
    · rintro ⟨place', hstep, htext, rfl⟩
      exact ⟨htext, htext ▸ hnil, hstep⟩
    · rintro ⟨htext, -, hstep⟩
      exact ⟨place, hstep, htext, rfl⟩

theorem join_ne_nil (text : List Char) {piece : List Char} (hne : piece ≠ []) :
    join text piece ≠ [] := by
  unfold join
  split
  · exact hne
  · split <;> simp [hne]

theorem ofText?_of_sign {piece : List Char} (hsign : piece.any isSign = true) :
    Path.Part.ofText? piece = some (.name piece) := by
  have hnot : ∀ other : List Char, other.any isSign = false → piece ≠ other := by
    rintro other hother rfl
    rw [hsign] at hother
    contradiction
  simp [Path.Part.ofText?, hnot [] rfl, hnot ['.'] (by decide), hnot ['.', '.'] (by decide)]

/-- A piece with a sign of patterns is followed to the directory entry with just
this name. -/
theorem follow?_sign {piece : List Char} (hsign : piece.any isSign = true) :
    trail.follow? folder piece = some found ↔
      ∃ name ∈ folder.namesIn trail.place, name.toList = piece ∧ found = trail.descend [name] := by
  have hne : piece ≠ [] := by
    rintro rfl
    contradiction
  rw [follow?_eq_some_iff, ofText?_of_sign hsign, Option.getD_some]
  obtain ⟨text, place⟩ := trail
  obtain ⟨foundText, foundPlace⟩ := found
  cases place with
  | above => simp [Folder.namesIn, Folder.pathsBelow_above, Folder.step?, Place.child?]
  | within base =>
      simp only [Folder.mem_namesIn, Folder.step?_name]
      constructor
      · rintro ⟨rfl, -, hreaches, rfl⟩
        refine ⟨String.ofList piece, hreaches, String.toList_ofList, ?_⟩
        simp [descend, Place.child?]
      · rintro ⟨name, hreaches, rfl, hfound⟩
        obtain ⟨rfl, rfl⟩ := Trail.mk.inj hfound
        rw [String.ofList_toList]
        exact ⟨rfl, join_ne_nil text hne, hreaches, rfl⟩

theorem dotted_sign {piece : List Char} (hsign : piece.any isSign = true) :
    trail.dotted folder (piece.map charToken) = [] := by
  have hnone : [['.', '.'], ['.']].filter (nameMatches (piece.map charToken)) = [] := by
    rw [List.filter_eq_nil_iff]
    intro name hname hmatches
    rw [nameMatches_map_charToken] at hmatches
    subst hmatches
    simp only [List.mem_cons, List.not_mem_nil, or_false] at hname
    rcases hname with rfl | rfl <;> contradiction
  rw [dotted, hnone]
  split <;> rfl

/-- A piece of a root leads where it is followed to. -/
theorem mem_walk_piecePart {piece : List Char} {rest : List PartPattern} :
    found ∈ walk folder (piecePart piece :: rest) trail ↔
      ∃ next, trail.follow? folder piece = some next ∧ found ∈ walk folder rest next := by
  rw [piecePart]
  split
  next hsign =>
    rw [walk, dotted_sign hsign, children]
    simp only [follow?_sign hsign, List.flatMap_nil, List.nil_append, List.mem_flatMap,
      List.mem_map]
    constructor
    · rintro ⟨-, ⟨name, hname, rfl⟩, hfound⟩
      split at hfound
      next hmatches =>
        exact ⟨_, ⟨name, hname, nameMatches_map_charToken.mp hmatches, rfl⟩, hfound⟩
      next => contradiction
    · rintro ⟨-, ⟨name, hname, hpiece, rfl⟩, hfound⟩
      exact ⟨_, ⟨name, hname, rfl⟩, by rwa [if_pos (nameMatches_map_charToken.mpr hpiece)]⟩
  next =>
    rw [walk]
    simp

/-- The pieces of a root lead where they are followed to one after another. -/
theorem mem_walk_pieces {pieces : List (List Char)} {rest : List PartPattern} :
    found ∈ walk folder (pieces.map piecePart ++ rest) trail ↔
      ∃ next, pieces.foldlM (follow? folder) trail = some next ∧
        found ∈ walk folder rest next := by
  induction pieces generalizing trail with
  | nil => simp
  | cons piece pieces ih =>
      rw [List.map_cons, List.cons_append, mem_walk_piecePart, List.foldlM_cons]
      simp only [ih, Option.bind_eq_bind, Option.bind_eq_some_iff]
      constructor
      · rintro ⟨next, hnext, last, hlast, hfound⟩
        exact ⟨last, ⟨next, hnext, hlast⟩, hfound⟩
      · rintro ⟨last, ⟨next, hnext, hlast⟩, hfound⟩
        exact ⟨next, hnext, last, hlast, hfound⟩

/-- From where the root ends, everything below that has the extension is found. -/
theorem mem_walk_extensionPart {extension : List Char} :
    found ∈ walk folder [.anyDirectories, extensionPart extension] trail ↔
      ∃ names ∈ folder.pathsBelow trail.place,
        (∃ stem, (names.getLast?.getD "").toList = stem ++ '.' :: extension) ∧
          found = trail.descend names := by
  have hwalk : walk folder [.anyDirectories, extensionPart extension] trail =
      (trail.descendants folder).flatMap fun step =>
        if (extensionPart extension).takes step.1 then [step.2] else [] := by
    rw [extensionPart, walk]
    · rfl
    · simp
  rw [hwalk, descendants]
  simp only [List.mem_flatMap, List.mem_map]
  constructor
  · rintro ⟨-, ⟨names, hnames, rfl⟩, hfound⟩
    split at hfound
    next htakes =>
      exact ⟨names, hnames, takes_extensionPart.mp htakes, List.mem_singleton.mp hfound⟩
    next => contradiction
  · rintro ⟨names, hnames, hstem, rfl⟩
    refine ⟨_, ⟨names, hnames, rfl⟩, ?_⟩
    rw [if_pos (takes_extensionPart.mpr hstem)]
    exact List.mem_singleton_self _

theorem mem_matching {root extension : List Char} :
    found ∈ matching folder (extensionPattern root extension) ↔
      ∃ start, (root.splitOn '/').foldlM (follow? folder) top = some start ∧
        ∃ names ∈ folder.pathsBelow start.place,
          (∃ stem, (names.getLast?.getD "").toList = stem ++ '.' :: extension) ∧
            found = start.descend names := by
  simp only [matching, extensionPattern, Bool.not_false, Bool.true_or, List.filter_true,
    mem_walk_pieces, mem_walk_extensionPart]

/-! ## Roots -/

/-- Whether a root can be walked. An empty piece leads nowhere if nothing but
dots for the top stands in front of it, as in a root of a dot and a slash. -/
def Walkable (root : List Char) : Prop :=
  ((root.splitOn '/').dropWhile (· == ['.'])).head? ≠ some []

instance (root : List Char) : Decidable (Walkable root) :=
  inferInstanceAs (Decidable (_ ≠ some []))

theorem join_ne_current {text : List Char} (hne : text ≠ []) (hcurrent : text ≠ ['.'])
    (piece : List Char) : join text piece ≠ [] ∧ join text piece ≠ ['.'] := by
  obtain ⟨c, more, rfl⟩ := List.exists_cons_of_ne_nil hne
  rw [join, if_neg hcurrent]
  split
  · refine ⟨by simp, fun h => hcurrent ?_⟩
    obtain ⟨rfl, hmore⟩ := List.cons.inj h
    rw [(List.append_eq_nil_iff.mp hmore).1]
  · simp

/-- A root that can be walked is followed to the directory that it names. -/
theorem exists_foldlM_follow? (trail : Trail) {pieces : List (List Char)} {place : Place}
    (hne : trail.text ≠ [])
    (hpieces : pieces.foldlM folder.stepPiece? trail.place = some place)
    (hwalk : trail.text = ['.'] → (pieces.dropWhile (· == ['.'])).head? ≠ some []) :
    ∃ start, pieces.foldlM (follow? folder) trail = some start ∧ start.place = place ∧
      start.text ≠ [] := by
  induction pieces generalizing trail with
  | nil => exact ⟨trail, rfl, Option.some.inj hpieces, hne⟩
  | cons piece pieces ih =>
      rw [List.foldlM_cons, Option.bind_eq_bind, Option.bind_eq_some_iff] at hpieces
      obtain ⟨next, hnext, hrest⟩ := hpieces
      -- the text stays a dot along dots and is never one again after that
      have htext : join trail.text piece ≠ [] ∧ (join trail.text piece = ['.'] →
          (pieces.dropWhile (· == ['.'])).head? ≠ some []) := by
        by_cases hcurrent : trail.text = ['.']
        · have hhead := hwalk hcurrent
          rw [join, if_pos hcurrent]
          by_cases hdot : piece = ['.']
          · subst hdot
            exact ⟨by simp, fun _ => by simpa using hhead⟩
          · refine ⟨?_, fun h => absurd h hdot⟩
            rintro rfl
            simp at hhead
        · obtain ⟨hnil, hne'⟩ := join_ne_current hne hcurrent piece
          exact ⟨hnil, fun h => absurd h hne'⟩
      have hfollow : trail.follow? folder piece =
          some { text := join trail.text piece, place := next } :=
        follow?_eq_some_iff.mpr ⟨rfl, htext.1, hnext⟩
      obtain ⟨start, hstart, hplace, hstartText⟩ :=
        ih { text := join trail.text piece, place := next } htext.1 hrest htext.2
      refine ⟨start, ?_, hplace, hstartText⟩
      rw [List.foldlM_cons, hfollow]
      exact hstart

theorem foldlM_follow?_eq_none {pieces : List (List Char)} (hcurrent : trail.text = ['.'])
    (hhead : (pieces.dropWhile (· == ['.'])).head? = some []) :
    pieces.foldlM (follow? folder) trail = none := by
  induction pieces generalizing trail with
  | nil => simp at hhead
  | cons piece pieces ih =>
      rw [List.foldlM_cons, Option.bind_eq_bind, Option.bind_eq_none_iff]
      intro next hnext
      obtain ⟨htext, hne, -⟩ := follow?_eq_some_iff.mp hnext
      rw [join, if_pos hcurrent] at htext
      by_cases hdot : piece = ['.']
      · subst hdot
        exact ih htext.symm (by simpa using hhead)
      · have hnil : piece = [] := by simpa [hdot] using hhead
        exact absurd (htext.symm.trans hnil) hne

/-! ## The paths of what is found -/

theorem parts_join {text : List Char} (hne : text ≠ []) (hcurrent : text ≠ ['.']) {name : String}
    (h : Path.IsFileName name) :
    Path.parts (join text name.toList) = Path.parts text ++ [.name name.toList] := by
  have hname : (Path.Part.ofText? name.toList).toList = [.name name.toList] := by
    rw [h.ofText?]
    rfl
  have hnil : Path.Part.ofText? [] = none := rfl
  rw [join, if_neg hcurrent]
  split
  next hslash =>
    obtain ⟨front, rfl⟩ : ∃ front, text = front ++ ['/'] :=
      ⟨text.dropLast, (List.dropLast_append_getLast? '/' hslash).symm⟩
    rw [List.append_assoc, List.singleton_append]
    by_cases hfront : front = []
    · subst hfront
      simp [Path.parts, Path.cutOpening, List.splitOn_eq_singleton h.single, h, hnil]
    · rw [Path.parts_append_slash hfront h.single,
        Path.parts_append_slash hfront List.not_mem_nil, hname, hnil]
      simp
  next => rw [Path.parts_append_slash hne h.single, hname]

/-- The parts in front of the names that are found from a trail. The dot of the
top is not written in front of names. -/
def openingParts (trail : Trail) : List Path.Part :=
  if trail.text = ['.'] then [] else trail.parts

theorem text_descend_ne (hne : trail.text ≠ []) {name : String} (h : Path.IsFileName name) :
    (trail.descend [name]).text ≠ [] ∧ (trail.descend [name]).text ≠ ['.'] := by
  have htext : (trail.descend [name]).text = join trail.text name.toList := rfl
  rw [htext]
  by_cases hcurrent : trail.text = ['.']
  · rw [join, if_pos hcurrent]
    exact ⟨h.toList_ne_nil, h.toList_ne_current⟩
  · exact join_ne_current hne hcurrent name.toList

theorem parts_descend_singleton (hne : trail.text ≠ []) {name : String} (h : Path.IsFileName name) :
    (trail.descend [name]).parts = trail.openingParts ++ Path.ofNames [name] := by
  have htext : (trail.descend [name]).text = join trail.text name.toList := rfl
  rw [parts, htext, openingParts]
  split
  next hcurrent =>
    rw [hcurrent, join, if_pos rfl, Path.parts_name h]
    rfl
  next hcurrent =>
    rw [parts_join hne hcurrent h]
    rfl

theorem parts_descend (hne : trail.text ≠ []) {names : List String} (hnames : names ≠ [])
    (h : ∀ name ∈ names, Path.IsFileName name) :
    (trail.descend names).parts = trail.openingParts ++ Path.ofNames names := by
  induction names generalizing trail with
  | nil => contradiction
  | cons name names ih =>
      obtain ⟨hname, hmore⟩ := List.forall_mem_cons.mp h
      have hfirst := parts_descend_singleton hne hname
      cases names with
      | nil => exact hfirst
      | cons next more =>
          have hopening : (trail.descend [name]).openingParts = (trail.descend [name]).parts :=
            if_neg (text_descend_ne hne hname).2
          have hrest := ih (text_descend_ne hne hname).1 (List.cons_ne_nil _ _) hmore
          rw [hopening, hfirst, List.append_assoc] at hrest
          exact hrest

end Trail

end ClassAtlas
