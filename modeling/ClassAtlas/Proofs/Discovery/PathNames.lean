import ClassAtlas.Path
import ClassAtlas.Proofs.Text.Cutting
import Mathlib.Data.Char
import Mathlib.Data.List.Lex
import Mathlib.Data.Prod.Lex

/-!
# Paths of file names

A file name is a text without a slash that is neither empty nor made of one or
two dots alone. A path that is written by putting file names one behind another
has these names as its parts. The order of paths is linear: parts are compared
by their kind and then by their characters.
-/

namespace ClassAtlas.Path

open ClassAtlas.Text

/-! ## Names -/

/-- A name that a file or a directory can have. -/
structure IsFileName (name : String) : Prop where
  filled : name ≠ ""
  single : '/' ∉ name.toList
  ne_current : name ≠ "."
  ne_parent : name ≠ ".."

instance (name : String) : Decidable (IsFileName name) :=
  decidable_of_iff (name ≠ "" ∧ '/' ∉ name.toList ∧ name ≠ "." ∧ name ≠ "..")
    ⟨fun ⟨filled, single, ne_current, ne_parent⟩ => ⟨filled, single, ne_current, ne_parent⟩,
      fun h => ⟨h.filled, h.single, h.ne_current, h.ne_parent⟩⟩

theorem IsFileName.toList_ne_nil {name : String} (h : IsFileName name) : name.toList ≠ [] := by
  simpa using h.filled

theorem IsFileName.toList_ne_current {name : String} (h : IsFileName name) :
    name.toList ≠ ['.'] := fun heq =>
  h.ne_current (String.toList_inj.mp (heq.trans (by decide)))

@[simp] theorem IsFileName.ofText? {name : String} (h : IsFileName name) :
    Part.ofText? name.toList = some (.name name.toList) := by
  have hparent : name.toList ≠ ['.', '.'] := fun heq =>
    h.ne_parent (String.toList_inj.mp (heq.trans (by decide)))
  simp [Part.ofText?, h.filled, h.toList_ne_current, hparent]

/-! ## Parts of a written path -/

theorem IsFileName.cutOpening_append {name : String} (h : IsFileName name) (rest : List Char) :
    cutOpening (name.toList ++ rest) = (none, name.toList ++ rest) := by
  have hslash := h.single
  have hcurrent := h.toList_ne_current
  obtain ⟨c, more, hname⟩ := List.exists_cons_of_ne_nil h.toList_ne_nil
  rw [hname] at hslash hcurrent ⊢
  unfold cutOpening
  split
  · simp_all
  · cases more <;> simp_all
  · cases more <;> simp_all
  · rfl

theorem cutOpening_append_slash {path : List Char} (hne : path ≠ []) (s : List Char) :
    cutOpening (path ++ '/' :: s) = ((cutOpening path).1, (cutOpening path).2 ++ '/' :: s) := by
  fun_cases cutOpening path with
  | case1 body => rfl
  | case2 rest => rfl
  | case3 => rfl
  | case4 path hroot hcurrent hdot =>
      obtain ⟨c, more, rfl⟩ := List.exists_cons_of_ne_nil hne
      unfold cutOpening
      split
      · simp_all
      · cases more <;> simp_all
      · simp_all
      · rfl

/-- A path is absolute, or starts with a dot, or has just the parts of its
pieces. -/
theorem parts_cases (path : List Char) :
    (∃ more, parts path = .root :: more) ∨
      parts path = .current :: (path.splitOn '/').filterMap Part.ofText? ∨
      parts path = (path.splitOn '/').filterMap Part.ofText? := by
  unfold parts
  fun_cases cutOpening path with
  | case1 body => exact Or.inl ⟨_, rfl⟩
  | case2 rest => exact Or.inr (Or.inl (by simp [List.splitOn_cons_eq_if_modifyHead, Part.ofText?]))
  | case3 => exact Or.inr (Or.inl rfl)
  | case4 => exact Or.inr (Or.inr rfl)

/-- A path with one more piece behind a slash has one more part, if the piece
counts. -/
theorem parts_append_slash {path piece : List Char} (hne : path ≠ []) (hpiece : '/' ∉ piece) :
    parts (path ++ '/' :: piece) = parts path ++ (Part.ofText? piece).toList := by
  have hpart : [piece].filterMap Part.ofText? = (Part.ofText? piece).toList := by
    cases h : Part.ofText? piece <;> simp [h]
  simp only [parts, cutOpening_append_slash hne, List.splitOn_append_cons_self,
    List.splitOn_eq_singleton hpiece, List.filterMap_append, hpart, List.append_assoc]

theorem parts_name {name : String} (h : IsFileName name) :
    parts name.toList = [.name name.toList] := by
  have hopening : cutOpening name.toList = (none, name.toList) := by
    simpa using h.cutOpening_append []
  simp [parts, hopening, List.splitOn_eq_singleton h.single, h]

/-- The path from a directory to something below it, as written. -/
def written (names : List String) : String :=
  "/".intercalate names

theorem toList_written (names : List String) :
    (written names).toList = ['/'].intercalate (names.map String.toList) := by
  rw [written, String.toList_intercalate]
  rfl

theorem parts_written {names : List String} (hne : names ≠ [])
    (h : ∀ name ∈ names, IsFileName name) : parts (written names).toList = ofNames names := by
  have hslash : ∀ part ∈ names.map String.toList, '/' ∉ part := by
    intro part hpart
    obtain ⟨name, hmem, rfl⟩ := List.mem_map.mp hpart
    exact (h name hmem).single
  have hpieces := List.splitOn_intercalate '/' hslash (by simpa using hne)
  have hnames : (names.map String.toList).filterMap Part.ofText? = ofNames names := by
    rw [List.filterMap_map, ofNames, ← List.filterMap_eq_map]
    exact List.filterMap_congr fun name hmem => (h name hmem).ofText?
  have hopening : cutOpening (written names).toList = (none, (written names).toList) := by
    obtain ⟨name, more, rfl⟩ := List.exists_cons_of_ne_nil hne
    rw [toList_written]
    cases more with
    | nil => simpa using (h name List.mem_cons_self).cutOpening_append []
    | cons next more =>
        simpa using (h name List.mem_cons_self).cutOpening_append
          ('/' :: ['/'].intercalate ((next :: more).map String.toList))
  rw [parts, hopening, toList_written]
  simp [hpieces, hnames]

theorem ofNames_injective {names others : List String} (h : ofNames names = ofNames others) :
    names = others := by
  refine List.map_injective_iff.mpr (fun name other heq => ?_) h
  exact String.toList_inj.mp (Part.name.inj heq)

/-! ## Extensions -/

theorem dropWhile_reverse_dot {stem extension : List Char} (hdot : '.' ∉ extension) :
    (stem ++ '.' :: extension).reverse.dropWhile (· != '.') = '.' :: stem.reverse := by
  have hpass : ∀ c ∈ extension.reverse, (c != '.') = true := by
    intro c hc
    rw [bne_iff_ne]
    rintro rfl
    exact hdot (List.mem_reverse.mp hc)
  rw [List.reverse_append, List.reverse_cons, List.append_assoc,
    List.dropWhile_append_of_pos hpass]
  rfl

theorem extensionOf?_dot {name : List Char} (hdot : '.' ∉ name) :
    extensionOf? ('.' :: name) = none := by
  have hdrop := @dropWhile_reverse_dot [] name hdot
  rw [List.nil_append] at hdrop
  rw [extensionOf?, hdrop]
  rfl

theorem extensionOf?_append {stem extension : List Char} (hne : stem ≠ [])
    (hdot : '.' ∉ extension) : extensionOf? (stem ++ '.' :: extension) = some extension := by
  obtain ⟨c, more, hstem⟩ := List.exists_cons_of_ne_nil (List.reverse_ne_nil_iff.mpr hne)
  rw [extensionOf?, dropWhile_reverse_dot hdot, hstem, afterLast_append_cons,
    afterLast_eq_self hdot]

/-- The extension of a name is what follows a dot behind its first character. -/
theorem extensionOf?_eq_some_iff {name extension : List Char} (hdot : '.' ∉ extension) :
    extensionOf? name = some extension ↔ ∃ stem ≠ [], name = stem ++ '.' :: extension := by
  constructor
  · intro h
    have hmem : '.' ∈ name.reverse := by
      by_contra hnotMem
      have hnone : name.reverse.dropWhile (· != '.') = [] := by
        rw [List.dropWhile_eq_nil_iff]
        intro c hc
        rw [bne_iff_ne]
        rintro rfl
        exact hnotMem hc
      rw [extensionOf?, hnone] at h
      contradiction
    obtain ⟨behind, front, hname, hbehind⟩ := List.eq_append_cons_of_mem hmem
    obtain rfl : name = front.reverse ++ '.' :: behind.reverse := by
      simpa using congrArg List.reverse hname
    have hdot' : '.' ∉ behind.reverse := by simpa using hbehind
    have hne : front.reverse ≠ [] := by
      intro hnil
      rw [extensionOf?, dropWhile_reverse_dot hdot', hnil] at h
      contradiction
    rw [extensionOf?_append hne hdot'] at h
    exact ⟨front.reverse, hne, by rw [← Option.some.inj h]⟩
  · rintro ⟨stem, hne, rfl⟩
    exact extensionOf?_append hne hdot

theorem extension?_written {names : List String} {name : String}
    (h : ∀ name ∈ names, IsFileName name) (hlast : names.getLast? = some name) :
    extension? (written names).toList = extensionOf? name.toList := by
  have hne : names ≠ [] := by
    rintro rfl
    contradiction
  rw [extension?, fileName?, parts_written hne h, ofNames, List.getLast?_map, hlast]
  rfl

/-! ## The order of paths -/

theorem list_nil_le {α : Type} [LinearOrder α] (s : List α) : [] ≤ s :=
  not_lt.mp (List.not_lt_nil s)

theorem list_cons_le_cons_iff {α : Type} [LinearOrder α] {a b : α} {s t : List α} :
    a :: s ≤ b :: t ↔ a < b ∨ a = b ∧ s ≤ t := by
  rw [le_iff_eq_or_lt, le_iff_eq_or_lt, List.cons.injEq, List.cons_lt_cons_iff]
  tauto

theorem text_precedes_iff (s t : List Char) : Text.precedes s t = true ↔ s ≤ t := by
  induction s generalizing t with
  | nil => simp [Text.precedes, list_nil_le]
  | cons c s ih =>
      cases t with
      | nil => simp [Text.precedes, (List.nil_lt_cons c s).not_ge]
      | cons d t =>
          rw [Text.precedes, list_cons_le_cons_iff]
          by_cases heq : c = d
          · simp [heq, ih]
          · have hlt : c.toNat < d.toNat ↔ c < d := UInt32.lt_iff_toNat_lt.symm
            simp [heq, hlt]

/-- What parts are ordered by: their kind, and then their characters. -/
def Part.key : Part → ℕ ×ₗ List Char
  | name text => toLex (3, text)
  | root => toLex (0, [])
  | current => toLex (1, [])
  | parent => toLex (2, [])

theorem Part.key_injective : Function.Injective Part.key := by
  intro part other h
  cases part <;> cases other <;> simp_all [key]

theorem Part.precedes_iff (part other : Part) :
    part.precedes other = true ↔ part.key ≤ other.key := by
  cases part <;> cases other <;>
    simp [precedes, key, Prod.Lex.toLex_le_toLex, rank, text_precedes_iff]

/-- Paths are compared part by part, like the words of a dictionary. -/
theorem precedes_iff (path other : List Part) :
    precedes path other = true ↔ path.map Part.key ≤ other.map Part.key := by
  induction path generalizing other with
  | nil => simp [precedes, list_nil_le]
  | cons part path ih =>
      cases other with
      | nil => simp [precedes, (List.nil_lt_cons part.key (path.map Part.key)).not_ge]
      | cons first other =>
          rw [precedes, List.map_cons, List.map_cons, list_cons_le_cons_iff]
          by_cases heq : part = first
          · simp [heq, ih]
          · have hne : part.key ≠ first.key := Part.key_injective.ne heq
            rw [if_neg heq, Part.precedes_iff, le_iff_lt_or_eq]
            simp only [hne, false_and]

theorem precedes_total (path other : List Part) :
    (precedes path other || precedes other path) = true := by
  rw [Bool.or_eq_true, precedes_iff, precedes_iff]
  exact le_total _ _

theorem precedes_trans (path other third : List Part) (h : precedes path other = true)
    (h' : precedes other third = true) : precedes path third = true := by
  rw [precedes_iff] at h h' ⊢
  exact h.trans h'

/-- Below a common beginning, paths are in the order of what follows. -/
@[simp] theorem precedes_append_left (start path other : List Part) :
    precedes (start ++ path) (start ++ other) = precedes path other := by
  induction start with
  | nil => rfl
  | cons part start ih => simp [precedes, ih]

end ClassAtlas.Path
