import Mathlib.Tactic.Common
import ClassAtlas.Text.Basic
import ClassAtlas.Source.Comment
import ClassAtlas.Source.Mask

/-!
# Scanning a text in parts

Dropping comments and masking literals both read a text from left to right. What
they make of the second part of a text depends on the first part only through
the region or zone in which the first part ends. The one thing to watch is a
slash at the end of the first part, which may open a comment together with the
character after it.
-/

namespace ClassAtlas.Source

/-! ## Regions -/

/-- Where a scan for comments stands after a whole text. -/
def Region.after : Region → List Char → Region
  | region, [] => region
  | .program zone, '/' :: '/' :: rest =>
    if zone.isCode '/' then Region.after .lineComment rest
    else Region.after (.program (zone.next '/')) ('/' :: rest)
  | .program zone, '/' :: '*' :: rest =>
    if zone.isCode '/' then Region.after .blockComment rest
    else Region.after (.program (zone.next '/')) ('*' :: rest)
  | .program zone, c :: rest => Region.after (.program (zone.next c)) rest
  | .lineComment, c :: rest =>
    if c = '\n' then Region.after (.program .code) rest else Region.after .lineComment rest
  | .blockComment, '*' :: '/' :: rest => Region.after (.program .code) rest
  | .blockComment, _ :: rest => Region.after .blockComment rest

/-- A first part does not end in half of a comment mark that the second part
completes. -/
def Parts (s t : List Char) : Prop :=
  s.getLast? = some '/' → t.head? ≠ some '/' ∧ t.head? ≠ some '*'

theorem Parts.tail {c : Char} {s t : List Char} (h : Parts (c :: s) t) : Parts s t := by
  cases s with
  | nil => exact fun hlast => absurd hlast (by simp)
  | cons d rest =>
      rw [Parts, List.getLast?_cons_cons] at h
      exact h

theorem Parts.singleton_append {c : Char} {s t : List Char}
    (h : Parts (c :: s) t) (hs : Parts [c] s) : Parts [c] (s ++ t) := by
  cases s with
  | nil => exact h
  | cons d rest => exact hs

theorem parts_singleton_iff {c : Char} {t : List Char} :
    Parts [c] t ↔ (∀ rest, c = '/' → t = '/' :: rest → False) ∧
      ∀ rest, c = '/' → t = '*' :: rest → False := by
  cases t with
  | nil => simp [Parts]
  | cons d rest => simp [Parts, imp_and]

theorem dropComments_cons {c : Char} {rest : List Char} (h : Parts [c] rest) (zone : Zone) :
    dropComments (.program zone) (c :: rest) =
      c :: dropComments (.program (zone.next c)) rest :=
  dropComments.eq_4 zone c rest (parts_singleton_iff.mp h).1 (parts_singleton_iff.mp h).2

/-- Inside a literal nothing opens a comment. -/
theorem dropComments_cons_of_inLiteral {zone : Zone} (h : zone.inLiteral = true) (c : Char)
    (rest : List Char) :
    dropComments (.program zone) (c :: rest) =
      c :: dropComments (.program (zone.next c)) rest := by
  have hcode : ¬zone.isCode '/' = true := by simp [Zone.isCode, h]
  by_cases hparts : Parts [c] rest
  · exact dropComments_cons hparts zone
  · rw [parts_singleton_iff, not_and_or] at hparts
    push Not at hparts
    rcases hparts with ⟨more, rfl, rfl, -⟩ | ⟨more, rfl, rfl, -⟩
    · rw [dropComments, if_neg hcode]
    · rw [dropComments, if_neg hcode]

/-- Comments are dropped from the second part of a text as if the text began
there, in the region where the first part ends. -/
theorem dropComments_append {region : Region} {s t : List Char} {zone : Zone}
    (hafter : region.after s = .program zone) (hparts : Parts s t) :
    dropComments region (s ++ t) = dropComments region s ++ dropComments (.program zone) t := by
  fun_induction Region.after region s with
  | case1 region => rw [hafter, List.nil_append, dropComments, List.nil_append]
  | case2 start rest hcode ih =>
      rw [List.cons_append, List.cons_append, dropComments, dropComments, if_pos hcode,
        if_pos hcode, ih hafter hparts.tail.tail]
  | case3 start rest hcode ih =>
      rw [List.cons_append, List.cons_append, dropComments, dropComments, if_neg hcode,
        if_neg hcode, ← List.cons_append, ih hafter hparts.tail, List.cons_append]
  | case4 start rest hcode ih =>
      rw [List.cons_append, List.cons_append, dropComments, dropComments, if_pos hcode,
        if_pos hcode, ih hafter hparts.tail.tail, List.cons_append]
  | case5 start rest hcode ih =>
      rw [List.cons_append, List.cons_append, dropComments, dropComments, if_neg hcode,
        if_neg hcode, ← List.cons_append, ih hafter hparts.tail, List.cons_append]
  | case6 start c rest hline hblock ih =>
      have hfirst : Parts [c] rest := parts_singleton_iff.mpr ⟨hline, hblock⟩
      rw [List.cons_append, dropComments_cons (hparts.singleton_append hfirst),
        dropComments_cons hfirst, ih hafter hparts.tail, List.cons_append]
  | case7 rest ih =>
      rw [List.cons_append, dropComments, dropComments, if_pos rfl, if_pos rfl,
        ih hafter hparts.tail, List.cons_append]
  | case8 c rest hc ih =>
      rw [List.cons_append, dropComments, dropComments, if_neg hc, if_neg hc,
        ih hafter hparts.tail]
  | case9 rest ih =>
      rw [List.cons_append, List.cons_append, dropComments, dropComments,
        ih hafter hparts.tail.tail]
  | case10 c rest hclosing ih =>
      have hopen : ∀ more, c = '*' → rest ++ t = '/' :: more → False := by
        rintro more rfl heq
        cases rest with
        | nil => contradiction
        | cons d rest =>
            obtain ⟨rfl, -⟩ := List.cons.inj heq
            exact hclosing rest rfl rfl
      rw [List.cons_append, dropComments.eq_7 _ _ hopen, dropComments.eq_7 _ _ hclosing,
        ih hafter hparts.tail]
      split <;> rfl

/-! ## Zones -/

theorem Zone.isCode_iff {zone : Zone} {c : Char} :
    zone.isCode c = true ↔ zone.inLiteral = false ∧ isQuote c = false := by
  simp [isCode]

theorem Zone.next_of_inLiteral {zone : Zone} {c : Char}
    (hzone : zone.inLiteral = false) (hc : isQuote c = false) : zone.next c = code :=
  next_of_isCode (isCode_iff.mpr ⟨hzone, hc⟩)

/-- The zone of the text without comments when the scan for comments stands in
a region. -/
inductive Region.Shows : Region → Zone → Prop where
  | program (zone : Zone) : Shows (.program zone) zone
  | lineComment {zone : Zone} (h : zone.inLiteral = false) : Shows .lineComment zone
  | blockComment : Shows .blockComment .code

theorem Region.Shows.eq_of_program {zone shown : Zone} (h : (Region.program zone).Shows shown) :
    shown = zone := by
  cases h
  rfl

/-- A scan of the text without comments stands where the scan for comments
stands. -/
theorem Region.Shows.after {region : Region} {zone : Zone} (h : region.Shows zone)
    (s : List Char) : (region.after s).Shows (zone.after (dropComments region s)) := by
  fun_induction Region.after region s generalizing zone with
  | case1 region =>
    rw [dropComments]
    exact h
  | case2 start rest hcode ih =>
      cases h
      rw [dropComments, if_pos hcode]
      exact ih (.lineComment (Zone.isCode_iff.mp hcode).1)
  | case3 start rest hcode ih =>
      cases h
      rw [dropComments, if_neg hcode]
      exact ih (.program _)
  | case4 start rest hcode ih =>
      cases h
      rw [dropComments, if_pos hcode, Zone.after_cons,
        Zone.next_of_inLiteral (Zone.isCode_iff.mp hcode).1 (by decide)]
      exact ih .blockComment
  | case5 start rest hcode ih =>
      cases h
      rw [dropComments, if_neg hcode]
      exact ih (.program _)
  | case6 start c rest hline hblock ih =>
      cases h
      rw [dropComments_cons (parts_singleton_iff.mpr ⟨hline, hblock⟩)]
      exact ih (.program _)
  | case7 rest ih =>
      cases h with
      | lineComment hzone =>
          rw [dropComments, if_pos rfl, Zone.after_cons,
            Zone.next_of_inLiteral hzone (by decide)]
          exact ih (.program _)
  | case8 c rest hc ih =>
      rw [dropComments, if_neg hc]
      cases h with
      | lineComment hzone => exact ih (.lineComment hzone)
  | case9 rest ih =>
      cases h
      rw [dropComments]
      exact ih (.program _)
  | case10 c rest hclosing ih =>
      cases h
      rw [dropComments.eq_7 _ _ hclosing]
      split
      · exact ih .blockComment
      · exact ih .blockComment

/-! ## Texts that end in code -/

/-- A text behind which a scan stands in code, and that does not end in half of a
comment mark. -/
structure EndsInCode (s : List Char) : Prop where
  in_code : (Region.program .code).after s = .program .code
  no_slash : s.getLast? ≠ some '/'

instance (s : List Char) : Decidable (EndsInCode s) :=
  decidable_of_iff ((Region.program .code).after s = .program .code ∧ s.getLast? ≠ some '/')
    ⟨fun h => ⟨h.1, h.2⟩, fun h => ⟨h.in_code, h.no_slash⟩⟩

namespace EndsInCode

variable {s : List Char}

/-- What stands behind a text that ends in code is stripped of comments as if it
stood alone. -/
theorem stripComments_append (h : EndsInCode s) (t : List Char) :
    stripComments (s ++ t) = stripComments s ++ stripComments t :=
  dropComments_append h.in_code fun hlast => absurd hlast h.no_slash

theorem after_stripComments (h : EndsInCode s) : Zone.code.after (stripComments s) = .code := by
  have hshows := (Region.Shows.program .code).after s
  rw [h.in_code] at hshows
  exact hshows.eq_of_program

end EndsInCode

/-! ## Masked texts -/

theorem maskFrom_append (zone : Zone) (s t : List Char) :
    maskFrom zone (s ++ t) = maskFrom zone s ++ maskFrom (zone.after s) t := by
  induction s generalizing zone with
  | nil => rfl
  | cons c s ih =>
      rw [List.cons_append, maskFrom, maskFrom, ih, List.append_assoc, Zone.after_cons]

end ClassAtlas.Source
