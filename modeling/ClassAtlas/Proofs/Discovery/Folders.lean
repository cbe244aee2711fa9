import ClassAtlas.Folder
import ClassAtlas.Proofs.Discovery.PathNames

/-!
# What lies in a folder

A path leads somewhere if it is the beginning of the path of an entry. What lies
below a directory, and whether a name is there, is told by these paths alone, so
nothing has to be assumed of the entries of a folder. A written path leads to a
directory along its pieces, with or without those that do not count.
-/

namespace ClassAtlas

open Text

namespace Folder

variable {folder : Folder}

/-! ## Paths that lead somewhere -/

/-- Whether a path leads to an entry or to a directory on the way to one. -/
def Reaches (folder : Folder) (path : List String) : Prop :=
  ∃ entry ∈ folder.entries, path <+: entry.path

theorem mem_pathsTo {path names : List String} :
    names ∈ pathsTo path ↔ names ≠ [] ∧ names <+: path := by
  simp only [pathsTo, List.mem_map, List.mem_range]
  constructor
  · rintro ⟨n, hn, rfl⟩
    refine ⟨fun hnil => ?_, List.take_prefix _ _⟩
    rw [List.take_eq_nil_iff] at hnil
    rcases hnil with hnil | rfl
    · contradiction
    · simp at hn
  · rintro ⟨hne, hprefix⟩
    have hlength := hprefix.length_le
    have hpos := List.length_pos_iff.mpr hne
    refine ⟨names.length - 1, by omega, ?_⟩
    rw [Nat.sub_add_cancel hpos]
    exact (List.prefix_iff_eq_take.mp hprefix).symm

theorem mem_pathsBelow {base names : List String} :
    names ∈ folder.pathsBelow (.within base) ↔ names ≠ [] ∧ folder.Reaches (base ++ names) := by
  have hentry : ∀ path : List String,
      names ∈ pathsTo (((Place.within base).namesFrom? (.within path)).getD []) ↔
        names ≠ [] ∧ base ++ names <+: path := by
    intro path
    rw [mem_pathsTo, Place.namesFrom?]
    refine and_congr_right fun hne => ?_
    cases hrest : base.isPrefixOf? path with
    | some rest =>
        obtain rfl := List.isPrefixOf?_eq_some_iff_append_eq.mp hrest
        simp
    | none =>
        have hnot : ¬base ++ names <+: path := by
          rintro ⟨rest, rfl⟩
          rw [List.append_assoc] at hrest
          exact Option.eq_none_iff_forall_ne_some.mp hrest _
            (List.isPrefixOf?_eq_some_iff_append_eq.mpr rfl)
        simp [hnot, hne]
  simp only [pathsBelow, List.mem_mergeSort, List.mem_eraseDups, List.mem_flatMap, hentry,
    Reaches]
  constructor
  · rintro ⟨entry, hmem, hne, hprefix⟩
    exact ⟨hne, entry, hmem, hprefix⟩
  · rintro ⟨hne, entry, hmem, hprefix⟩
    exact ⟨entry, hmem, hne, hprefix⟩

theorem pathsBelow_above : folder.pathsBelow .above = [] := by
  have hnone : (folder.entries.flatMap fun entry =>
      pathsTo ((Place.above.namesFrom? (.within entry.path)).getD [])) = [] :=
    List.flatMap_eq_nil_iff.mpr fun _ _ => rfl
  rw [pathsBelow, hnone, List.eraseDups_nil, List.mergeSort_nil]

theorem isDirectory_within {path : List String} :
    folder.isDirectory (.within path) = true ↔ path = [] ∨ ∃ entry ∈ folder.entries,
      if entry.path = path then entry.content.isNone = true else path <+: entry.path := by
  simp only [isDirectory, Bool.or_eq_true, List.isEmpty_iff, List.any_eq_true]
  refine or_congr_right (exists_congr fun entry => and_congr_right fun _ => ?_)
  split <;> simp

theorem isDirectory_of_reaches {path : List String} {name : String}
    (h : folder.Reaches (path ++ [name])) : folder.isDirectory (.within path) = true := by
  obtain ⟨entry, hmem, hprefix⟩ := h
  have hne : entry.path ≠ path := by
    intro heq
    have hlength := hprefix.length_le
    rw [heq, List.length_append, List.length_singleton] at hlength
    omega
  refine isDirectory_within.mpr (Or.inr ⟨entry, hmem, ?_⟩)
  rw [if_neg hne]
  exact (List.prefix_append path [name]).trans hprefix

theorem exists_entry_of_content? {path : List String} {content : ByteArray}
    (h : folder.content? (.within path) = some content) :
    ∃ entry ∈ folder.entries, entry.path = path ∧ entry.content = some content := by
  obtain ⟨entry, hmem, hcontent⟩ := List.exists_of_findSome?_eq_some h
  split at hcontent
  next heq => exact ⟨entry, hmem, heq, hcontent⟩
  next => contradiction

theorem reaches_of_content? {path : List String} {content : ByteArray}
    (h : folder.content? (.within path) = some content) : folder.Reaches path := by
  obtain ⟨entry, hmem, rfl, -⟩ := exists_entry_of_content? h
  exact ⟨entry, hmem, List.prefix_rfl⟩

theorem has_within {path : List String} :
    folder.has (.within path) = true ↔ path = [] ∨ folder.Reaches path := by
  rw [has, Bool.or_eq_true, isDirectory_within]
  constructor
  · rintro ((rfl | ⟨entry, hmem, hentry⟩) | hcontent)
    · exact Or.inl rfl
    · refine Or.inr ⟨entry, hmem, ?_⟩
      split at hentry
      next heq => exact heq ▸ List.prefix_rfl
      next => exact hentry
    · obtain ⟨content, hsome⟩ := Option.isSome_iff_exists.mp hcontent
      exact Or.inr (reaches_of_content? hsome)
  · rintro (rfl | ⟨entry, hmem, hprefix⟩)
    · exact Or.inl (Or.inl rfl)
    · by_cases heq : entry.path = path
      · cases hcontent : entry.content with
        | none => exact Or.inl (Or.inr ⟨entry, hmem, by rw [if_pos heq, hcontent]; rfl⟩)
        | some content =>
            refine Or.inr (List.findSome?_isSome_iff.mpr ⟨entry, hmem, ?_⟩)
            rw [if_pos heq, hcontent]
            rfl
      · exact Or.inl (Or.inr ⟨entry, hmem, by rwa [if_neg heq]⟩)

theorem mem_namesIn {base : List String} {name : String} :
    name ∈ folder.namesIn (.within base) ↔ folder.Reaches (base ++ [name]) := by
  rw [namesIn, List.mem_filterMap]
  constructor
  · rintro ⟨names, hmem, hname⟩
    split at hname
    next other =>
      obtain rfl := Option.some.inj hname
      exact (mem_pathsBelow.mp hmem).2
    next => contradiction
  · intro h
    exact ⟨[name], mem_pathsBelow.mpr ⟨List.cons_ne_nil _ _, h⟩, rfl⟩

theorem step?_name {base : List String} {text : List Char} {place : Place} :
    folder.step? (.within base) (.name text) = some place ↔
      folder.Reaches (base ++ [String.ofList text]) ∧
        place = .within (base ++ [String.ofList text]) := by
  have hhas : folder.has (.within (base ++ [String.ofList text])) = true ↔
      folder.Reaches (base ++ [String.ofList text]) := by
    rw [has_within]
    simp
  rw [step?]
  split
  next hdirectory =>
    rw [Place.child?, Option.filter_some]
    split
    next h => simp [hhas.mp h, eq_comm]
    next h => simp [mt hhas.mpr h]
  next hnot =>
    have hnone : ¬folder.Reaches (base ++ [String.ofList text]) :=
      fun h => hnot (isDirectory_of_reaches h)
    simp [hnone]

/-! ## Written paths -/

/-- The place that a piece of a written path leads to. A piece that does not
count stays where it is. -/
def stepPiece? (folder : Folder) (place : Place) (piece : List Char) : Option Place :=
  folder.step? place ((Path.Part.ofText? piece).getD .current)

theorem isDirectory_of_step? {place next : Place} {part : Path.Part}
    (h : folder.step? place part = some next) : folder.isDirectory place = true := by
  unfold step? at h
  split at h
  next hdirectory => exact hdirectory
  next => contradiction

theorem isDirectory_of_foldlM {parts : List Path.Part} {place last : Place}
    (h : parts.foldlM folder.step? place = some last) (hlast : folder.isDirectory last = true) :
    folder.isDirectory place = true := by
  cases parts with
  | nil => rwa [Option.some.inj h]
  | cons part parts =>
      rw [List.foldlM_cons, Option.bind_eq_bind, Option.bind_eq_some_iff] at h
      obtain ⟨next, hnext, -⟩ := h
      exact isDirectory_of_step? hnext

/-- The pieces that do not count can be kept on the way to a directory. -/
theorem foldlM_stepPiece? {pieces : List (List Char)} {place last : Place}
    (h : (pieces.filterMap Path.Part.ofText?).foldlM folder.step? place = some last)
    (hlast : folder.isDirectory last = true) :
    pieces.foldlM folder.stepPiece? place = some last := by
  induction pieces generalizing place with
  | nil => exact h
  | cons piece pieces ih =>
      rw [List.foldlM_cons, stepPiece?]
      cases hpiece : Path.Part.ofText? piece with
      | none =>
          rw [List.filterMap_cons_none hpiece] at h
          have hplace := isDirectory_of_foldlM h hlast
          rw [Option.getD_none, step?, if_pos hplace]
          exact ih h
      | some part =>
          rw [List.filterMap_cons_some hpiece, List.foldlM_cons, Option.bind_eq_bind,
            Option.bind_eq_some_iff] at h
          obtain ⟨next, hnext, hrest⟩ := h
          rw [Option.getD_some, hnext]
          exact ih hrest

theorem foldlM_pieces_of_directory? {root : String} {place : Place}
    (h : folder.directory? root = some place) :
    (root.toList.splitOn '/').foldlM folder.stepPiece? (.within []) = some place := by
  rw [directory?] at h
  split at h
  next => contradiction
  next =>
    obtain ⟨hsteps, hplace⟩ := Option.filter_eq_some_iff.mp h
    refine foldlM_stepPiece? ?_ hplace
    rcases Path.parts_cases root.toList with ⟨more, hparts⟩ | hparts | hparts
    · rw [hparts] at hsteps
      contradiction
    · rw [hparts] at hsteps
      exact hsteps
    · rwa [hparts] at hsteps

end Folder

end ClassAtlas
