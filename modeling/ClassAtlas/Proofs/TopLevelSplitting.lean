import Mathlib.Data.List.Infix
import ClassAtlas.TypeText
import ClassAtlas.Proofs.Text.Searching

/-!
# Splitting outside brackets

A list is cut at the separators that stand outside all brackets, so splitting gives
back the parts that a list was written from if every separator inside a part is
inside brackets there. Blanks on both sides of a separator make no difference.
-/

namespace ClassAtlas.TypeText

open ClassAtlas.Text
open Pattern (notMem_of_ok)

variable {sep : Char} {depth : ℤ} {part text : List Char} {parts : List (List Char)}

/-! ## Texts that are not cut -/

/-- No separator stands at depth zero, and the depth is zero at the end. -/
def Whole (sep : Char) : ℤ → List Char → Prop
  | depth, [] => depth = 0
  | depth, c :: rest =>
    ¬(c = sep ∧ depth + depthChange c = 0) ∧ Whole sep (depth + depthChange c) rest

/-- Characters that are neither brackets nor separators keep a text whole. -/
theorem Whole.append {a s : List Char}
    (ha : ∀ c ∈ a, depthChange c = 0 ∧ c ≠ sep) (h : Whole sep depth s) :
    Whole sep depth (a ++ s) := by
  induction a with
  | nil => exact h
  | cons c a ih =>
      obtain ⟨⟨hdepth, hne⟩, ha⟩ := List.forall_mem_cons.mp ha
      rw [List.cons_append, Whole, hdepth, Int.add_zero]
      exact ⟨fun hsep => hne hsep.1, ih ha⟩

theorem whole_of_flat {b : List Char} (hb : ∀ c ∈ b, depthChange c = 0 ∧ c ≠ sep) :
    Whole sep 0 b := by
  have hend : Whole sep 0 [] := rfl
  simpa using hend.append hb

theorem whole_append_whole {a b : List Char} (hb : Whole sep 0 b) (ha : Whole sep depth a) :
    Whole sep depth (a ++ b) := by
  induction a generalizing depth with
  | nil =>
      rw [Whole] at ha
      rw [ha, List.nil_append]
      exact hb
  | cons c a ih => exact ⟨ha.1, ih ha.2⟩

/-- Blanks are no brackets. -/
theorem flat_of_isBlank (hsep : isBlank sep = false) {c : Char} (h : isBlank c = true) :
    depthChange c = 0 ∧ c ≠ sep := by
  have hothers : c ∉ ['<', '(', '[', '{', '>', ')', ']', '}'] := notMem_of_ok h (by decide)
  simp only [List.mem_cons, List.not_mem_nil, or_false, not_or] at hothers
  refine ⟨by simp [depthChange, hothers], ?_⟩
  rintro rfl
  rw [h] at hsep
  contradiction

/-! ## The pieces of a text -/

theorem topLevelPieces_ne_nil (sep : Char) (depth : ℤ) (s : List Char) :
    topLevelPieces sep depth s ≠ [] := by
  cases s with
  | nil => simp [topLevelPieces]
  | cons c s =>
      rw [topLevelPieces]
      split
      · simp
      · split <;> simp

theorem topLevelPieces_of_whole {s : List Char} (h : Whole sep depth s) :
    topLevelPieces sep depth s = [s] := by
  induction s generalizing depth with
  | nil => rfl
  | cons c s ih =>
      obtain ⟨hsep, hrest⟩ := h
      rw [topLevelPieces, if_neg (by simpa using hsep), ih hrest]

theorem topLevelPieces_append (hsep : depthChange sep = 0) {s rest : List Char}
    (h : Whole sep depth s) :
    topLevelPieces sep depth (s ++ sep :: rest) = s :: topLevelPieces sep 0 rest := by
  induction s generalizing depth with
  | nil =>
      rw [Whole] at h
      rw [List.nil_append, topLevelPieces, h, hsep]
      simp
  | cons c s ih =>
      obtain ⟨hc, hrest⟩ := h
      rw [List.cons_append, topLevelPieces, if_neg (by simpa using hc), ih hrest]

/-! ## Lists with separators -/

/-- A text in which these parts are written one after another, with the separator
between them and any blanks on both sides of it. -/
inductive Joined (sep : Char) : List (List Char) → List Char → Prop where
  | nil : Joined sep [] []
  | single (part : List Char) : Joined sep [part] part
  | cons {part before after text : List Char} {parts : List (List Char)} (hparts : parts ≠ [])
    (hbefore : ∀ c ∈ before, isBlank c = true) (hafter : ∀ c ∈ after, isBlank c = true)
    (h : Joined sep parts text) :
    Joined sep (part :: parts) (part ++ (before ++ sep :: (after ++ text)))

theorem joined_intercalate {gap : List Char} (hgap : ∀ c ∈ gap, isBlank c = true) (sep : Char)
    (parts : List (List Char)) : Joined sep parts ((sep :: gap).intercalate parts) := by
  induction parts with
  | nil => exact .nil
  | cons part parts ih =>
      cases parts with
      | nil =>
          rw [List.intercalate_singleton]
          exact .single part
      | cons next more =>
          rw [List.intercalate_cons_cons, List.append_assoc, ← List.nil_append (_ :: gap ++ _)]
          exact .cons (List.cons_ne_nil next more) (by simp) hgap ih

section Separator

variable (hblank : isBlank sep = false) (hflat : depthChange sep = 0)
include hblank hflat

/-- Blanks may stand in front of the first part, as they do behind a separator. -/
theorem map_trim_topLevelPieces_of_joined (h : Joined sep parts text) (hne : parts ≠ [])
    (hwhole : ∀ part ∈ parts, Whole sep 0 part) {gap : List Char}
    (hgap : ∀ c ∈ gap, isBlank c = true) :
    (topLevelPieces sep 0 (gap ++ text)).map trim = parts.map trim := by
  induction h generalizing gap with
  | nil => contradiction
  | single part =>
      have hpart := hwhole part List.mem_cons_self
      have hgapped := hpart.append fun c hc => flat_of_isBlank hblank (hgap c hc)
      rw [topLevelPieces_of_whole hgapped, List.map_singleton, List.map_singleton,
        trim_blank_append hgap]
  | @cons part before after text parts hparts hbefore hafter h ih =>
      obtain ⟨hpart, hrest⟩ := List.forall_mem_cons.mp hwhole
      have hbehind : Whole sep 0 (part ++ before) :=
        whole_append_whole (whole_of_flat fun c hc => flat_of_isBlank hblank (hbefore c hc)) hpart
      have hgapped := hbehind.append fun c hc => flat_of_isBlank hblank (hgap c hc)
      have hsplit : gap ++ (part ++ (before ++ sep :: (after ++ text))) =
          (gap ++ (part ++ before)) ++ sep :: (after ++ text) := by
        simp
      rw [hsplit, topLevelPieces_append hflat hgapped, List.map_cons, ih hparts hrest hafter,
        List.map_cons, trim_blank_append hgap, trim_append_of_blank hbefore]

/-- Trimmed parts that are not cut themselves are found again in a list of them. -/
theorem splitTopLevel_of_joined (h : Joined sep parts text)
    (hwhole : ∀ part ∈ parts, Whole sep 0 part) (htrimmed : ∀ part ∈ parts, Trimmed part)
    (hfilled : ∀ part ∈ parts, part ≠ []) : splitTopLevel sep text = parts := by
  have hmap : parts.map trim = parts := by
    rw [List.map_congr_left fun part hpart => (htrimmed part hpart).trim_eq, List.map_id']
  have hkeep : parts.filter (fun part => !part.isEmpty) = parts := by
    rw [List.filter_eq_self]
    intro part hpart
    simp [hfilled part hpart]
  by_cases hne : parts = []
  · subst hne
    cases h
    rfl
  · have hpieces := map_trim_topLevelPieces_of_joined hblank hflat h hne hwhole
      (List.forall_mem_nil fun c => isBlank c = true)
    rw [List.nil_append] at hpieces
    rw [splitTopLevel, hpieces, hmap, hkeep]

end Separator

/-- A list with commas and spaces, as it is written everywhere. -/
theorem splitTopLevel_intercalate (hwhole : ∀ part ∈ parts, Whole ',' 0 part)
    (htrimmed : ∀ part ∈ parts, Trimmed part) (hfilled : ∀ part ∈ parts, part ≠ []) :
    splitTopLevel ',' ([',', ' '].intercalate parts) = parts :=
  splitTopLevel_of_joined (by decide) (by decide) (joined_intercalate (by decide) ',' parts) hwhole
    htrimmed hfilled

/-! ## Depth -/

/-- How many more brackets a text opens than it closes, whatever their kinds. -/
def depthOf : List Char → ℤ
  | [] => 0
  | c :: s => depthChange c + depthOf s

/-- A part of a list: its brackets are closed in the end and none before it was
opened, and its separators stand inside brackets. -/
structure Nested (sep : Char) (s : List Char) : Prop where
  nonneg : ∀ start, start <+: s → 0 ≤ depthOf start
  closed : depthOf s = 0
  inside : ∀ start, start ++ [sep] <+: s → 0 < depthOf start

instance (sep : Char) (s : List Char) : Decidable (Nested sep s) :=
  decidable_of_iff ((∀ start ∈ s.inits, 0 ≤ depthOf start) ∧ depthOf s = 0 ∧
      ∀ start ∈ s.inits, start ++ [sep] <+: s → 0 < depthOf start) <| by
    simp only [List.mem_inits]
    exact ⟨fun h => ⟨h.1, h.2.1, fun start hstart =>
        h.2.2 start ((List.prefix_append start [sep]).trans hstart) hstart⟩,
      fun h => ⟨h.nonneg, h.closed, fun start _ => h.inside start⟩⟩

/-- A text is not cut exactly if its depth returns to zero at the end and in front
of no separator. -/
theorem whole_iff (hflat : depthChange sep = 0) {s : List Char} :
    Whole sep depth s ↔
      depth + depthOf s = 0 ∧ ∀ start, start ++ [sep] <+: s → depth + depthOf start ≠ 0 := by
  induction s generalizing depth with
  | nil => simp [Whole, depthOf]
  | cons c s ih =>
      rw [Whole, ih, depthOf, ← Int.add_assoc]
      constructor
      · rintro ⟨hc, hend, hrest⟩
        refine ⟨hend, fun start hstart => ?_⟩
        cases start with
        | nil =>
            obtain ⟨rfl, -⟩ := List.cons_prefix_cons.mp hstart
            rw [hflat] at hc
            exact fun hzero => hc ⟨rfl, hzero⟩
        | cons d start =>
            obtain ⟨rfl, hafter⟩ := List.cons_prefix_cons.mp hstart
            rw [depthOf, ← Int.add_assoc]
            exact hrest start hafter
      · rintro ⟨hend, hinside⟩
        refine ⟨?_, hend, fun start hstart => ?_⟩
        · rintro ⟨rfl, hzero⟩
          rw [hflat] at hzero
          exact hinside [] (List.cons_prefix_cons.mpr ⟨rfl, List.nil_prefix⟩) hzero
        · rw [Int.add_assoc, ← depthOf]
          exact hinside (c :: start) (List.cons_prefix_cons.mpr ⟨rfl, hstart⟩)

theorem Nested.whole (h : Nested sep part) (hflat : depthChange sep = 0) : Whole sep 0 part := by
  rw [whole_iff hflat, Int.zero_add]
  refine ⟨h.closed, fun start hstart => ?_⟩
  have hpos := h.inside start hstart
  omega

/-- Splitting outside brackets undoes joining: parts whose separators stand inside
brackets are found again, whatever blanks the list has around its separators. -/
theorem splitTopLevel_joined (hblank : isBlank sep = false)
    (hsep : sep ∉ ['<', '>', '(', ')', '[', ']', '{', '}'])
    (hparts : ∀ part ∈ parts, part ≠ [] ∧ Trimmed part ∧ Nested sep part)
    (h : Joined sep parts text) : splitTopLevel sep text = parts := by
  have hflat : depthChange sep = 0 := by
    simp only [List.mem_cons, List.not_mem_nil, or_false, not_or] at hsep
    simp [depthChange, hsep]
  exact splitTopLevel_of_joined hblank hflat h
    (fun part hpart => (hparts part hpart).2.2.whole hflat)
    (fun part hpart => (hparts part hpart).2.1) fun part hpart => (hparts part hpart).1

/-- Entries with separators inside brackets of three kinds, and with a line break and
a wide space around the separators between them. -/
theorem splitTopLevel_joined_entries :
    let parts := ["Map<K; V> m".toList, "f(x; <y>)".toList, "[\x7b;\x7d; z]".toList]
    let text := "Map<K; V> m;\n f(x; <y>) \u3000; [\x7b;\x7d; z]".toList
    (∀ part ∈ parts, part ≠ [] ∧ Trimmed part ∧ Nested ';' part) ∧ Joined ';' parts text ∧
      splitTopLevel ';' text = parts := by
  intro parts text
  have hparts : ∀ part ∈ parts, part ≠ [] ∧ Trimmed part ∧ Nested ';' part := by decide +kernel
  have htext : text = "Map<K; V> m".toList ++ ([] ++ ';' :: ("\n ".toList ++
      ("f(x; <y>)".toList ++ (" \u3000".toList ++ ';' :: (" ".toList ++
        "[\x7b;\x7d; z]".toList))))) := by
    decide +kernel
  have hjoined : Joined ';' parts text := by
    rw [htext]
    exact .cons (by simp) (by simp) (by decide)
      (.cons (by simp) (by decide) (by decide) (.single _))
  exact ⟨hparts, hjoined, splitTopLevel_joined (by decide) (by decide) hparts hjoined⟩

end ClassAtlas.TypeText
