import ClassAtlas.Proofs.Discovery.Walks

/-!
# The files that are found

From a root that can be walked, the units are the files below it whose names
start as wanted and whose extension is wanted just as it is spelled. Each is
found once, however many patterns lead to it, and they are in the order of
their paths. The filter on extensions does not look at case, but a pattern does:
a file whose extension is spelled in another case than the wanted one passes the
filter and is never found.
-/

namespace ClassAtlas

/-! ## Lists without repeated keys -/

section Keys

variable {α β : Type} [BEq β] (key : α → β)

theorem eraseDupsBy_cons_key (first : α) (l : List α) :
    ((first :: l).eraseDupsBy fun b c => key b == key c) =
      first :: ((l.filter fun b => key b != key first).eraseDupsBy fun b c => key b == key c) := by
  simp [List.eraseDupsBy_cons, bne]

variable {key} in
theorem mem_of_mem_eraseDupsBy {a : α} : ∀ {l : List α},
    a ∈ l.eraseDupsBy (fun b c => key b == key c) → a ∈ l
  | [], h => h
  | first :: l, h => by
      rw [eraseDupsBy_cons_key] at h
      rcases List.mem_cons.mp h with rfl | hmem
      · exact List.mem_cons_self
      · exact List.mem_cons_of_mem first (List.mem_of_mem_filter (mem_of_mem_eraseDupsBy hmem))
termination_by l => l.length
decreasing_by exact Nat.lt_succ_of_le (List.length_filter_le _ _)

variable [LawfulBEq β]

theorem exists_mem_eraseDupsBy {a : α} : ∀ {l : List α}, a ∈ l →
    ∃ b ∈ l.eraseDupsBy (fun b c => key b == key c), key b = key a
  | [], h => absurd h List.not_mem_nil
  | first :: l, h => by
      rw [eraseDupsBy_cons_key]
      by_cases hkey : key a = key first
      · exact ⟨first, List.mem_cons_self, hkey.symm⟩
      · have hmem : a ∈ l := (List.mem_cons.mp h).resolve_left fun heq => hkey (heq ▸ rfl)
        have hkept : a ∈ l.filter fun b => key b != key first :=
          List.mem_filter.mpr ⟨hmem, bne_iff_ne.mpr hkey⟩
        obtain ⟨b, hb, heq⟩ := exists_mem_eraseDupsBy hkept
        exact ⟨b, List.mem_cons_of_mem first hb, heq⟩
termination_by l => l.length
decreasing_by exact Nat.lt_succ_of_le (List.length_filter_le _ _)

theorem pairwise_eraseDupsBy : ∀ l : List α,
    (l.eraseDupsBy fun b c => key b == key c).Pairwise fun b c => key b ≠ key c
  | [] => List.Pairwise.nil
  | first :: l => by
      rw [eraseDupsBy_cons_key, List.pairwise_cons]
      refine ⟨fun b hb => ?_, pairwise_eraseDupsBy _⟩
      have hkept := List.of_mem_filter (mem_of_mem_eraseDupsBy hb)
      exact (bne_iff_ne.mp hkept).symm
termination_by l => l.length
decreasing_by exact Nat.lt_succ_of_le (List.length_filter_le _ _)

end Keys

namespace Discovery

open Glob

variable {folder : Folder} {options : Options}

/-! ## Trails in order -/

theorem trails_pairwise (patterns : List PathPattern) (folder : Folder) :
    (trails patterns folder).Pairwise fun trail other =>
      trail.parts ≠ other.parts ∧ Path.precedes trail.parts other.parts = true := by
  have hdistinct := pairwise_eraseDupsBy Trail.parts (patterns.flatMap (Trail.matching folder))
  have hsorted : (trails patterns folder).Pairwise fun trail other =>
      Path.precedes trail.parts other.parts = true :=
    List.pairwise_mergeSort
      (fun trail other third => Path.precedes_trans trail.parts other.parts third.parts)
      (fun trail other => Path.precedes_total trail.parts other.parts) _
  have hperm := List.mergeSort_perm
    ((patterns.flatMap (Trail.matching folder)).eraseDupsBy fun trail other =>
      trail.parts == other.parts) fun trail other => Path.precedes trail.parts other.parts
  exact ((hperm.pairwise_iff fun h => h.symm).mpr hdistinct).and hsorted

theorem mem_matching_of_mem_trails {patterns : List PathPattern} {trail : Trail}
    (h : trail ∈ trails patterns folder) : trail ∈ patterns.flatMap (Trail.matching folder) := by
  rw [trails, List.mem_mergeSort] at h
  exact mem_of_mem_eraseDupsBy h

theorem mem_trails {patterns : List PathPattern} {trail : Trail}
    (hparts : ∀ found ∈ patterns.flatMap (Trail.matching folder),
      ∀ other ∈ patterns.flatMap (Trail.matching folder),
        found.parts = other.parts → found = other) :
    trail ∈ trails patterns folder ↔ trail ∈ patterns.flatMap (Trail.matching folder) := by
  refine ⟨mem_matching_of_mem_trails, fun h => ?_⟩
  rw [trails, List.mem_mergeSort]
  obtain ⟨kept, hkept, heq⟩ := exists_mem_eraseDupsBy Trail.parts h
  rwa [← hparts kept (mem_of_mem_eraseDupsBy hkept) trail h heq]

/-! ## Units -/

/-- The unit of a wanted file, if it can be read. -/
def unitAt? (options : Options) (folder : Folder) (directory : Place) (trail : Trail) :
    Option SourceUnit :=
  if isWanted options trail then
    (folder.content? trail.place).bind fun content =>
      (readFile (unitId directory trail) content).toOption
  else none

theorem readFile_eq_ok {content : ByteArray} {text : String}
    (h : String.fromUTF8? content = some text) (id : String) :
    readFile id content = .ok { id, text } := by
  rw [readFile, h]

theorem toOption_readFile {id : String} {content : ByteArray} {unit : SourceUnit} :
    (readFile id content).toOption = some unit ↔
      unit.id = id ∧ String.fromUTF8? content = some unit.text := by
  obtain ⟨unitId, text⟩ := unit
  rw [readFile]
  cases String.fromUTF8? content with
  | none => simp [Except.toOption]
  | some read => simp [Except.toOption, eq_comm]

theorem units_of_wantedFiles (found : List PathPattern) (directory : Place) :
    ((wantedFiles options found folder).map fun file =>
      readFile (unitId directory file.1) file.2).filterMap Except.toOption =
        (trails found folder).filterMap (unitAt? options folder directory) := by
  rw [List.filterMap_map, wantedFiles, List.filterMap_filterMap]
  refine List.filterMap_congr fun trail _ => ?_
  rw [unitAt?]
  split
  · rw [Option.bind_map]
    rfl
  · rfl

theorem exists_readFile_eq_ok {found : List PathPattern}
    (hreadable : ∀ trail ∈ trails found folder, ∀ content,
      folder.content? trail.place = some content → (String.fromUTF8? content).isSome = true)
    {file : Trail × ByteArray} (hfile : file ∈ wantedFiles options found folder) (id : String) :
    ∃ unit, readFile id file.2 = .ok unit := by
  obtain ⟨trail, htrail, hsome⟩ := List.mem_filterMap.mp hfile
  split at hsome
  next =>
    obtain ⟨content, hcontent, rfl⟩ := Option.map_eq_some_iff.mp hsome
    obtain ⟨text, htext⟩ := Option.isSome_iff_exists.mp (hreadable trail htrail content hcontent)
    exact ⟨_, readFile_eq_ok htext id⟩
  next => contradiction

/-- If all files can be read, the run gives their units and no problems. -/
theorem discover_eq_ok {root : String} {directory : Place} {found : List PathPattern}
    (hroot : folder.directory? root = some directory)
    (hpatterns : patterns root options.extensions = .ok found)
    (hreadable : ∀ trail ∈ trails found folder, ∀ content,
      folder.content? trail.place = some content → (String.fromUTF8? content).isSome = true) :
    discover options folder root =
      .ok { units := (trails found folder).filterMap (unitAt? options folder directory) } := by
  simp only [discover, hroot, hpatterns, bind, Except.bind, pure, Except.pure]
  rw [units_of_wantedFiles]
  refine congrArg (fun problems => Except.ok (Discovered.mk _ problems))
    (List.filterMap_eq_nil_iff.mpr fun result hresult => ?_)
  obtain ⟨file, hfile, rfl⟩ := List.mem_map.mp hresult
  obtain ⟨unit, hunit⟩ := exists_readFile_eq_ok hreadable hfile (unitId directory file.1)
  rw [hunit]

end Discovery

namespace Folder

variable {folder : Folder}

/-- All entries have the names of files. -/
def Named (folder : Folder) : Prop :=
  ∀ entry ∈ folder.entries, ∀ name ∈ entry.path, Path.IsFileName name

instance (folder : Folder) : Decidable folder.Named :=
  inferInstanceAs (Decidable (∀ entry ∈ folder.entries, ∀ name ∈ entry.path, Path.IsFileName name))

theorem Named.of_reaches (h : folder.Named) {base names : List String}
    (hreaches : folder.Reaches (base ++ names)) : ∀ name ∈ names, Path.IsFileName name := by
  obtain ⟨entry, hentry, hbase⟩ := hreaches
  exact fun name hname => h entry hentry name (hbase.subset (List.mem_append_right base hname))

/-- A unit is a file below a directory: its identifier is the path from there,
and its text is what the file holds. -/
def IsFileBelow (folder : Folder) (base : List String) (unit : SourceUnit) : Prop :=
  ∃ names content, names ≠ [] ∧ unit.id = Path.written names ∧
    folder.content? (.within (base ++ names)) = some content ∧
      String.fromUTF8? content = some unit.text

end Folder

namespace Discovery

open Glob

variable {folder : Folder} {options : Options} {base names : List String} {start trail : Trail}
  {unit : SourceUnit}

/-! ## Files below a root -/

theorem fileName?_descend (hstart : start.text ≠ []) (hne : names ≠ [])
    (hnames : ∀ name ∈ names, Path.IsFileName name) :
    Path.fileName? (start.descend names).text = Path.fileName? (Path.written names).toList := by
  have hparts : Path.parts (start.descend names).text =
      start.openingParts ++ Path.parts (Path.written names).toList := by
    rw [Path.parts_written hne hnames]
    exact start.parts_descend hstart hne hnames
  have hlast : Path.parts (Path.written names).toList ≠ [] := by
    rw [Path.parts_written hne hnames]
    simpa [Path.ofNames] using hne
  rw [Path.fileName?, Path.fileName?, hparts, List.getLast?_append_of_ne_nil _ hlast]

theorem isWanted_descend (options : Options) (hstart : start.text ≠ []) (hne : names ≠ [])
    (hnames : ∀ name ∈ names, Path.IsFileName name) :
    isWanted options (start.descend names) = true ↔
      Path.hasExtension options.extensions (Path.written names).toList = true ∧
        Path.nameStartsWith options.nameStart.toList (Path.written names).toList = true := by
  rw [isWanted, Bool.and_eq_true, Path.hasExtension, Path.hasExtension, Path.extension?,
    Path.extension?, Path.nameStartsWith, Path.nameStartsWith,
    fileName?_descend hstart hne hnames]

theorem unitId_descend (hplace : start.place = .within base) :
    unitId (.within base) (start.descend names) = Path.written names := by
  have hnames : base.isPrefixOf? (base ++ names) = some names :=
    List.isPrefixOf?_eq_some_iff_append_eq.mpr rfl
  rw [unitId, start.place_descend hplace, Place.namesFrom?, hnames]
  rfl

/-- The unit that a trail gives has the path below the root and the text of the
file there. -/
theorem unitAt?_descend (hstart : start.text ≠ []) (hplace : start.place = .within base)
    (hne : names ≠ []) (hnames : ∀ name ∈ names, Path.IsFileName name) :
    unitAt? options folder (.within base) (start.descend names) = some unit ↔
      unit.id = Path.written names ∧
        (∃ content, folder.content? (.within (base ++ names)) = some content ∧
          String.fromUTF8? content = some unit.text) ∧
        Path.hasExtension options.extensions (Path.written names).toList = true ∧
        Path.nameStartsWith options.nameStart.toList (Path.written names).toList = true := by
  rw [unitAt?, start.place_descend hplace, unitId_descend hplace]
  have hwanted := isWanted_descend options hstart hne hnames
  split
  next h =>
    simp only [Option.bind_eq_some_iff, toOption_readFile, hwanted.mp h, and_true]
    constructor
    · rintro ⟨content, hcontent, hid, htext⟩
      exact ⟨hid, content, hcontent, htext⟩
    · rintro ⟨hid, content, hcontent, htext⟩
      exact ⟨content, hcontent, hid, htext⟩
  next h =>
    constructor
    · intro hnone
      contradiction
    · rintro ⟨-, -, hfilters⟩
      exact absurd (hwanted.mpr hfilters) h

/-- The last of some names ends in a dot and one of the extensions. -/
def EndsInOneOf (extensions : List String) (names : List String) : Prop :=
  ∃ extension ∈ extensions, ∃ stem,
    (names.getLast?.getD "").toList = stem ++ '.' :: extension.toList

theorem mem_matching_patterns {root : List Char}
    (hfollow : (root.splitOn '/').foldlM (Trail.follow? folder) .top = some start)
    (hplace : start.place = .within base) {extensions : List String} :
    trail ∈ (extensions.map fun extension => extensionPattern root extension.toList).flatMap
        (Trail.matching folder) ↔
      ∃ names ≠ [], folder.Reaches (base ++ names) ∧ EndsInOneOf extensions names ∧
        trail = start.descend names := by
  simp only [List.mem_flatMap, List.mem_map]
  constructor
  · rintro ⟨-, ⟨extension, hextension, rfl⟩, hfound⟩
    obtain ⟨other, hother, names, hnames, hstem, rfl⟩ := Trail.mem_matching.mp hfound
    obtain rfl := Option.some.inj (hfollow.symm.trans hother)
    rw [hplace] at hnames
    obtain ⟨hne, hreaches⟩ := Folder.mem_pathsBelow.mp hnames
    exact ⟨names, hne, hreaches, ⟨extension, hextension, hstem⟩, rfl⟩
  · rintro ⟨names, hne, hreaches, ⟨extension, hextension, hstem⟩, rfl⟩
    refine ⟨_, ⟨extension, hextension, rfl⟩, Trail.mem_matching.mpr ?_⟩
    refine ⟨start, hfollow, names, ?_, hstem, rfl⟩
    rw [hplace]
    exact Folder.mem_pathsBelow.mpr ⟨hne, hreaches⟩

theorem mem_trails_patterns (hnamed : folder.Named) {root : List Char}
    (hfollow : (root.splitOn '/').foldlM (Trail.follow? folder) .top = some start)
    (hstart : start.text ≠ []) (hplace : start.place = .within base) {extensions : List String} :
    trail ∈ trails (extensions.map fun extension => extensionPattern root extension.toList) folder ↔
      ∃ names ≠ [], folder.Reaches (base ++ names) ∧ EndsInOneOf extensions names ∧
        trail = start.descend names := by
  rw [mem_trails, mem_matching_patterns hfollow hplace]
  intro found hfound other hother hparts
  obtain ⟨names, hne, hreaches, -, rfl⟩ := (mem_matching_patterns hfollow hplace).mp hfound
  obtain ⟨names', hne', hreaches', -, rfl⟩ := (mem_matching_patterns hfollow hplace).mp hother
  rw [start.parts_descend hstart hne (hnamed.of_reaches hreaches),
    start.parts_descend hstart hne' (hnamed.of_reaches hreaches')] at hparts
  rw [Path.ofNames_injective (List.append_cancel_left hparts)]

theorem trails_of_foldlM_eq_none {root : List Char} {extensions : List String}
    (hfollow : (root.splitOn '/').foldlM (Trail.follow? folder) .top = none) :
    trails (extensions.map fun extension => extensionPattern root extension.toList) folder =
      [] := by
  refine List.eq_nil_iff_forall_not_mem.mpr fun trail htrail => ?_
  obtain ⟨pattern, hpattern, hfound⟩ := List.mem_flatMap.mp (mem_matching_of_mem_trails htrail)
  obtain ⟨extension, -, rfl⟩ := List.mem_map.mp hpattern
  obtain ⟨start, hstart, -⟩ := Trail.mem_matching.mp hfound
  rw [hfollow] at hstart
  contradiction

/-- Trails below a root are in the order of what is written behind it. -/
theorem written_ordered {others : List String} (hstart : start.text ≠ []) (hne : names ≠ [])
    (hne' : others ≠ []) (hnames : ∀ name ∈ names, Path.IsFileName name)
    (hothers : ∀ name ∈ others, Path.IsFileName name)
    (h : (start.descend names).parts ≠ (start.descend others).parts ∧
      Path.precedes (start.descend names).parts (start.descend others).parts = true) :
    Path.written names ≠ Path.written others ∧
      Path.precedes (Path.parts (Path.written names).toList)
        (Path.parts (Path.written others).toList) = true := by
  rw [start.parts_descend hstart hne hnames, start.parts_descend hstart hne' hothers,
    Path.precedes_append_left] at h
  have hparts := Path.parts_written hne hnames
  have hparts' := Path.parts_written hne' hothers
  refine ⟨fun heq => h.1 ?_, by rw [hparts, hparts']; exact h.2⟩
  rw [← hparts, ← hparts', heq]

/-- Of the files with a wanted extension in some case, those are found whose
extension is spelled as wanted. -/
theorem endsInOneOf_iff {extensions : List String}
    (hextensions : ∀ extension ∈ extensions, IsPlainExtension extension)
    (hne : names ≠ []) (hnames : ∀ name ∈ names, Path.IsFileName name)
    (hfilter : Path.hasExtension extensions (Path.written names).toList = true) :
    EndsInOneOf extensions names ↔ ∃ wanted ∈ extensions,
      Path.extension? (Path.written names).toList = some wanted.toList := by
  obtain ⟨name, hlast⟩ := Option.isSome_iff_exists.mp (List.getLast?_isSome.mpr hne)
  have hextension := Path.extension?_written hnames hlast
  have hdot : ∀ extension ∈ extensions, '.' ∉ extension.toList := fun extension hmem =>
    (hextensions extension hmem).notMem (by decide)
  simp only [EndsInOneOf, hlast, Option.getD_some, hextension]
  refine exists_congr fun extension => and_congr_right fun hmem => ?_
  rw [Path.extensionOf?_eq_some_iff (hdot extension hmem)]
  constructor
  · rintro ⟨stem, hstem⟩
    refine ⟨stem, ?_, hstem⟩
    rintro rfl
    -- a dot at the very start of a name does not start an extension
    rw [Path.hasExtension, hextension, hstem, List.nil_append,
      Path.extensionOf?_dot (hdot extension hmem)] at hfilter
    contradiction
  · rintro ⟨stem, -, hstem⟩
    exact ⟨stem, hstem⟩

/-- The units below a root are in the order of their paths, and no path is
there twice. -/
theorem units_ordered (hnamed : folder.Named) {root : List Char}
    (hfollow : (root.splitOn '/').foldlM (Trail.follow? folder) .top = some start)
    (hstart : start.text ≠ []) (hplace : start.place = .within base) (extensions : List String) :
    ((trails (extensions.map fun extension => extensionPattern root extension.toList)
        folder).filterMap (unitAt? options folder (.within base))).Pairwise fun unit other =>
      unit.id ≠ other.id ∧
        Path.precedes (Path.parts unit.id.toList) (Path.parts other.id.toList) = true := by
  rw [List.pairwise_filterMap]
  refine (trails_pairwise _ folder).imp_of_mem ?_
  intro trail other htrail hother hordered unit hunit unit' hunit'
  obtain ⟨names, hne, hreaches, -, rfl⟩ :=
    (mem_trails_patterns hnamed hfollow hstart hplace).mp htrail
  obtain ⟨names', hne', hreaches', -, rfl⟩ :=
    (mem_trails_patterns hnamed hfollow hstart hplace).mp hother
  have hnames := hnamed.of_reaches hreaches
  have hnames' := hnamed.of_reaches hreaches'
  rw [((unitAt?_descend hstart hplace hne hnames).mp hunit).1,
    ((unitAt?_descend hstart hplace hne' hnames').mp hunit').1]
  exact written_ordered hstart hne hne' hnames hnames' hordered

/-- The units below a root are those of the files that pass both filters and
whose extension is spelled as wanted. -/
theorem mem_units (hnamed : folder.Named) {root : List Char}
    (hfollow : (root.splitOn '/').foldlM (Trail.follow? folder) .top = some start)
    (hstart : start.text ≠ []) (hplace : start.place = .within base)
    (hextensions : ∀ extension ∈ options.extensions, IsPlainExtension extension) :
    unit ∈ (trails (options.extensions.map fun extension =>
        extensionPattern root extension.toList) folder).filterMap
          (unitAt? options folder (.within base)) ↔
      folder.IsFileBelow base unit ∧
        Path.hasExtension options.extensions unit.id.toList = true ∧
        Path.nameStartsWith options.nameStart.toList unit.id.toList = true ∧
        ∃ wanted ∈ options.extensions, Path.extension? unit.id.toList = some wanted.toList := by
  rw [List.mem_filterMap]
  constructor
  · rintro ⟨trail, htrail, hunit⟩
    obtain ⟨names, hne, hreaches, hends, rfl⟩ :=
      (mem_trails_patterns hnamed hfollow hstart hplace).mp htrail
    have hnames := hnamed.of_reaches hreaches
    obtain ⟨hid, ⟨content, hcontent, htext⟩, hfilter, hstarts⟩ :=
      (unitAt?_descend hstart hplace hne hnames).mp hunit
    rw [hid]
    exact ⟨⟨names, content, hne, hid, hcontent, htext⟩, hfilter, hstarts,
      (endsInOneOf_iff hextensions hne hnames hfilter).mp hends⟩
  · rintro ⟨⟨names, content, hne, hid, hcontent, htext⟩, hfilter, hstarts, hwanted⟩
    rw [hid] at hfilter hstarts hwanted
    have hreaches := Folder.reaches_of_content? hcontent
    have hnames := hnamed.of_reaches hreaches
    have hends := (endsInOneOf_iff hextensions hne hnames hfilter).mpr hwanted
    exact ⟨start.descend names,
      (mem_trails_patterns hnamed hfollow hstart hplace).mpr ⟨names, hne, hreaches, hends, rfl⟩,
      (unitAt?_descend hstart hplace hne hnames).mpr
        ⟨hid, ⟨content, hcontent, htext⟩, hfilter, hstarts⟩⟩

/-- From a root, the files are found whose extension is spelled as wanted. The
root is written from the top of the folder: an absolute one leads to no
directory, so nothing is said of it here. -/
theorem discover_files (options : Options) (folder : Folder) (root : String) (base : List String)
    (hnamed : folder.Named) (hroot : folder.directory? root = some (.within base))
    (hextensions : ∀ extension ∈ options.extensions, IsPlainExtension extension)
    (hreadable : ∀ names content, folder.content? (.within (base ++ names)) = some content →
      (String.fromUTF8? content).isSome = true) :
    ∃ units : List SourceUnit, discover options folder root = .ok { units } ∧
      units.Pairwise (fun unit other => unit.id ≠ other.id ∧
        Path.precedes (Path.parts unit.id.toList) (Path.parts other.id.toList) = true) ∧
      ∀ unit, unit ∈ units ↔ Trail.Walkable root.toList ∧ folder.IsFileBelow base unit ∧
        Path.hasExtension options.extensions unit.id.toList = true ∧
        Path.nameStartsWith options.nameStart.toList unit.id.toList = true ∧
        ∃ wanted ∈ options.extensions,
          Path.extension? unit.id.toList = some wanted.toList := by
  have hpatterns := patterns_eq_ok root hextensions
  by_cases hwalk : Trail.Walkable root.toList
  · obtain ⟨start, hfollow, hplace, hstart⟩ := Trail.top.exists_foldlM_follow?
      (by decide) (Folder.foldlM_pieces_of_directory? hroot) (fun _ => hwalk)
    refine ⟨_, discover_eq_ok hroot hpatterns ?_,
      units_ordered hnamed hfollow hstart hplace options.extensions, fun unit => ?_⟩
    · intro trail htrail content hcontent
      obtain ⟨names, -, -, -, rfl⟩ :=
        (mem_trails_patterns hnamed hfollow hstart hplace).mp htrail
      rw [start.place_descend hplace] at hcontent
      exact hreadable names content hcontent
    · rw [mem_units hnamed hfollow hstart hplace hextensions]
      exact (and_iff_right hwalk).symm
  · have hnone : trails (options.extensions.map fun extension =>
        extensionPattern root.toList extension.toList) folder = [] :=
      trails_of_foldlM_eq_none (Trail.foldlM_follow?_eq_none rfl (not_not.mp hwalk))
    refine ⟨[], ?_, List.Pairwise.nil, ?_⟩
    · rw [discover_eq_ok hroot hpatterns (by simp [hnone]), hnone]
      rfl
    · simp [hwalk]

/-- A folder with files in two directories, one with its extension in upper
case. -/
def shopFolder : Folder where
  entries := [
    { path := ["src", "b", "Shop.java"], content := some "class Shop {}".toUTF8 },
    { path := ["src", "a", "Item.java"], content := some "class Item {}".toUTF8 },
    { path := ["src", "a", "notes.txt"], content := some "not source".toUTF8 },
    { path := ["src", "Cart.JAVA"], content := some "class Cart {}".toUTF8 }]

/-- The files with the extension in lower case are found, and the other one is
not. -/
theorem discover_files_shop :
    ∃ units, discover {} shopFolder "src" = .ok { units } ∧
      { id := "a/Item.java", text := "class Item {}" } ∈ units ∧
      { id := "b/Shop.java", text := "class Shop {}" } ∈ units ∧
      ∀ unit ∈ units, unit.id ≠ "a/notes.txt" ∧ unit.id ≠ "Cart.JAVA" := by
  have hreadable : ∀ names content,
      shopFolder.content? (.within (["src"] ++ names)) = some content →
        (String.fromUTF8? content).isSome = true := by
    intro names content h
    have hall : ∀ entry ∈ shopFolder.entries,
        entry.content.all (fun content => (String.fromUTF8? content).isSome) = true := by
      decide +kernel
    obtain ⟨entry, hentry, -, hcontent⟩ := Folder.exists_entry_of_content? h
    simpa [hcontent] using hall entry hentry
  obtain ⟨units, hrun, -, hunits⟩ := discover_files {} shopFolder "src" ["src"] (by decide)
    (by decide) (by decide) hreadable
  have hunit : ∀ names text, names ≠ [] →
      (shopFolder.content? (.within (["src"] ++ names))).bind String.fromUTF8? = some text →
        Path.extension? (Path.written names).toList = some "java".toList →
          { id := Path.written names, text } ∈ units := by
    intro names text hne htext hextension
    obtain ⟨content, hcontent, htext⟩ := Option.bind_eq_some_iff.mp htext
    refine (hunits _).mpr ⟨by decide, ⟨names, content, hne, rfl, hcontent, htext⟩, ?_, rfl,
      "java", List.mem_singleton_self _, hextension⟩
    rw [Path.hasExtension, hextension]
    decide
  refine ⟨units, hrun, hunit ["a", "Item.java"] _ (by decide) (by decide +kernel) (by decide),
    hunit ["b", "Shop.java"] _ (by decide) (by decide +kernel) (by decide), ?_⟩
  intro unit hmem
  obtain ⟨-, -, -, -, wanted, hwanted, hextension⟩ := (hunits unit).mp hmem
  obtain rfl := List.mem_singleton.mp hwanted
  constructor
  · intro hid
    rw [hid] at hextension
    exact absurd hextension (by decide)
  · intro hid
    rw [hid] at hextension
    exact absurd hextension (by decide)

/-- A file whose extension is in upper case passes the filter and is not found. -/
theorem discover_misses_upper_case :
    let folder : Folder :=
      { entries := [{ path := ["src", "Shop.JAVA"], content := some "class Shop {}".toUTF8 }] }
    let unit : SourceUnit := { id := "Shop.JAVA", text := "class Shop {}" }
    folder.Named ∧ folder.directory? "src" = some (.within ["src"]) ∧
      IsPlainExtension "java" ∧ folder.IsFileBelow ["src"] unit ∧
      Path.hasExtension ["java"] unit.id.toList = true ∧
      Path.nameStartsWith [] unit.id.toList = true ∧
      (discover { extensions := ["java"] } folder "src").toOption = some {} := by
  refine ⟨by decide, by decide, by decide, ⟨["Shop.JAVA"], "class Shop {}".toUTF8, ?_⟩, ?_, ?_, ?_⟩
  all_goals decide +kernel

end Discovery

end ClassAtlas
