import ClassAtlas.Code.Reader
import ClassAtlas.Proofs.Source.Comments

/-!
# What comments and literals hold is not read

Structure is read from a text without comments in which literals are masked. A
comment leaves a trace that depends on its line breaks only, and a quoted
literal one that depends on its length only, so two texts that differ in nothing
else give the same declarations and the same problems.
-/

namespace ClassAtlas

open Source Text

namespace Source

/-! ## The traces of comments and literals -/

theorem stripComments_blockComment {s : List Char} (h : occursIn "*/".toList s = false)
    (t : List Char) :
    stripComments ("/*".toList ++ (s ++ ("*/".toList ++ t))) =
      ' ' :: (List.replicate (s.count '\n') '\n' ++ stripComments t) := by
  rw [stripComments, dropComments_block (by decide), dropComments_blockComment h]

theorem stripComments_lineComment {s : List Char} (h : '\n' ∉ s) (t : List Char) :
    stripComments ("//".toList ++ (s ++ '\n' :: t)) = '\n' :: stripComments t := by
  rw [stripComments, dropComments_line (by decide), dropComments_lineComment h]

/-- A text that can stand between double quotes: it is not empty and has no
character with a meaning of its own there. -/
structure IsQuotable (s : List Char) : Prop where
  ne_nil : s ≠ []
  plain : ∀ c ∈ s, c ≠ '"' ∧ c ≠ '\\' ∧ c ≠ '\n'

theorem next_inside {c : Char} (h : c ≠ '"' ∧ c ≠ '\\' ∧ c ≠ '\n') {progress : Quoted}
    (hprogress : progress ≠ .escaped) :
    (Zone.quoted '"' progress).next c = .quoted '"' .inside := by
  cases progress <;> simp_all [Zone.next]

theorem after_inside {s : List Char} (h : ∀ c ∈ s, c ≠ '"' ∧ c ≠ '\\' ∧ c ≠ '\n') :
    (Zone.quoted '"' .inside).after s = .quoted '"' .inside := by
  induction s with
  | nil => rfl
  | cons c s ih =>
      obtain ⟨hc, hs⟩ := List.forall_mem_cons.mp h
      rw [Zone.after_cons, next_inside hc (by decide), ih hs]

theorem dropComments_inside {s : List Char} (h : ∀ c ∈ s, c ≠ '"' ∧ c ≠ '\\' ∧ c ≠ '\n')
    (t : List Char) :
    dropComments (.program (.quoted '"' .inside)) (s ++ '"' :: t) =
      s ++ '"' :: stripComments t := by
  induction s with
  | nil => exact dropComments_cons_of_inLiteral rfl '"' t
  | cons c s ih =>
      obtain ⟨hc, hs⟩ := List.forall_mem_cons.mp h
      rw [List.cons_append, dropComments_cons_of_inLiteral rfl, next_inside hc (by decide), ih hs,
        List.cons_append]

theorem stripComments_quoted {s : List Char} (h : IsQuotable s) (t : List Char) :
    stripComments ('"' :: (s ++ '"' :: t)) = '"' :: (s ++ '"' :: stripComments t) := by
  cases s with
  | nil => exact (h.ne_nil rfl).elim
  | cons c s =>
      obtain ⟨hc, hs⟩ := List.forall_mem_cons.mp h.plain
      have hopen : Parts ['"'] (c :: (s ++ '"' :: t)) := fun hlast => absurd hlast (by decide)
      have hstart : Zone.code.next '"' = .quoted '"' .opened := by decide
      rw [List.cons_append, stripComments, dropComments_cons hopen, hstart,
        dropComments_cons_of_inLiteral rfl, next_inside hc (by decide), dropComments_inside hs,
        List.cons_append]

theorem keeps_eq_false {c : Char} (h : c ≠ '"' ∧ c ≠ '\\' ∧ c ≠ '\n') {progress : Quoted}
    (hprogress : progress ≠ .escaped) : (Zone.quoted '"' progress).keeps c = false := by
  simp [Zone.keeps, Zone.isCode, Zone.inLiteral, Zone.inTextBlock, h, next_inside h hprogress]

theorem maskFrom_inside {s : List Char} (h : ∀ c ∈ s, c ≠ '"' ∧ c ≠ '\\' ∧ c ≠ '\n') :
    maskFrom (.quoted '"' .inside) s = List.replicate (byteLength s) ' ' := by
  induction s with
  | nil => rfl
  | cons c s ih =>
      obtain ⟨hc, hs⟩ := List.forall_mem_cons.mp h
      have hlength : byteLength (c :: s) = c.utf8Size + byteLength s := rfl
      rw [maskFrom, keeps_eq_false hc (by decide), next_inside hc (by decide), ih hs, hlength,
        ← List.replicate_append_replicate]
      rfl

theorem maskLiterals_quoted {s : List Char} (h : IsQuotable s) (t : List Char) :
    maskLiterals ('"' :: (s ++ '"' :: t)) =
      '"' :: (List.replicate (byteLength s) ' ' ++ '"' :: maskLiterals t) := by
  cases s with
  | nil => exact (h.ne_nil rfl).elim
  | cons c s =>
      obtain ⟨hc, hs⟩ := List.forall_mem_cons.mp h.plain
      have hlength : byteLength (c :: s) = c.utf8Size + byteLength s := rfl
      have hstart : Zone.code.next '"' = .quoted '"' .opened := by decide
      have hopening : Zone.code.keeps '"' = true := by decide
      have hclosing : (Zone.quoted '"' .inside).keeps '"' = true := by decide
      have hend : (Zone.quoted '"' .inside).next '"' = .code := by decide
      rw [maskLiterals, maskFrom, hopening, hstart, List.cons_append, maskFrom,
        keeps_eq_false hc (by decide), next_inside hc (by decide), maskFrom_append,
        maskFrom_inside hs, after_inside hs, maskFrom, hclosing, hend, hlength,
        ← List.replicate_append_replicate, List.append_assoc]
      rfl

end Source

namespace Code

/-- What stands behind a text that ends in code has its own structure there. -/
theorem structureText_append {pre : List Char} (hpre : EndsInCode pre) (s : List Char) :
    structureText (pre ++ s) = structureText pre ++ structureText s := by
  rw [structureText, hpre.stripComments_append, maskLiterals, maskFrom_append,
    hpre.after_stripComments]
  rfl

/-- Only the structure of what stands there is read. -/
theorem read_append_congr {pre s t : List Char} (hpre : EndsInCode pre)
    (h : structureText s = structureText t) (unit : String) :
    read unit (pre ++ s) = read unit (pre ++ t) := by
  rw [read, read, structureText_append hpre, structureText_append hpre, h]

theorem structureText_blockComment {s : List Char} (h : occursIn "*/".toList s = false)
    (t : List Char) :
    structureText ("/*".toList ++ (s ++ ("*/".toList ++ t))) =
      maskLiterals (' ' :: (List.replicate (s.count '\n') '\n' ++ stripComments t)) := by
  rw [structureText, stripComments_blockComment h]

theorem structureText_lineComment {s : List Char} (h : '\n' ∉ s) (t : List Char) :
    structureText ("//".toList ++ (s ++ '\n' :: t)) = maskLiterals ('\n' :: stripComments t) := by
  rw [structureText, stripComments_lineComment h]

theorem structureText_quoted {s : List Char} (h : IsQuotable s) (t : List Char) :
    structureText ('"' :: (s ++ '"' :: t)) =
      '"' :: (List.replicate (byteLength s) ' ' ++ '"' :: structureText t) := by
  rw [structureText, stripComments_quoted h, maskLiterals_quoted h, structureText]

/-- Behind a text that ends in code, the package, the types and the problems
that are read do not depend on the text of a block comment apart from the number
of its line breaks, on the text of a line comment, or on the text of a quoted
literal apart from its length. -/
theorem read_hides (unit : String) {pre : List Char} (hpre : EndsInCode pre) (post : List Char) :
    (∀ s t, occursIn "*/".toList s = false → occursIn "*/".toList t = false →
      s.count '\n' = t.count '\n' →
      read unit (pre ++ ("/*".toList ++ (s ++ ("*/".toList ++ post)))) =
        read unit (pre ++ ("/*".toList ++ (t ++ ("*/".toList ++ post))))) ∧
    (∀ s t, '\n' ∉ s → '\n' ∉ t →
      read unit (pre ++ ("//".toList ++ (s ++ '\n' :: post))) =
        read unit (pre ++ ("//".toList ++ (t ++ '\n' :: post)))) ∧
    (∀ s t, IsQuotable s → IsQuotable t → byteLength s = byteLength t →
      read unit (pre ++ '"' :: (s ++ '"' :: post)) =
        read unit (pre ++ '"' :: (t ++ '"' :: post))) := by
  refine ⟨?_, ?_, ?_⟩
  · intro s t hs ht hcount
    apply read_append_congr hpre
    rw [structureText_blockComment hs, structureText_blockComment ht, hcount]
  · intro s t hs ht
    apply read_append_congr hpre
    rw [structureText_lineComment hs, structureText_lineComment ht]
  · intro s t hs ht hlength
    apply read_append_congr hpre
    rw [structureText_quoted hs, structureText_quoted ht, hlength]

/-- Quotes in a comment and comment marks in a literal change nothing, behind
program text and behind another comment. -/
theorem read_hides_marks :
    let pre := "class A \x7b String a =".toList ++ [' ']
    let post := "; \x7d".toList
    let line := "// \"\n".toList
    EndsInCode pre ∧ EndsInCode line ∧
      read "A.java" (pre ++ ("/*".toList ++ ("don't".toList ++ ("*/".toList ++ post)))) =
        read "A.java" (pre ++ ("/*".toList ++ ("\x7b // ".toList ++ ("*/".toList ++ post)))) ∧
      read "A.java" (line ++ ("//".toList ++ ("it's".toList ++ '\n' :: (pre ++ post)))) =
        read "A.java" (line ++ ("//".toList ++ ("/*".toList ++ '\n' :: (pre ++ post)))) ∧
      read "A.java" (pre ++ '"' :: ("/*;é".toList ++ '"' :: post)) =
        read "A.java" (pre ++ '"' :: ("plain".toList ++ '"' :: post)) := by
  intro pre post line
  have hpre : EndsInCode pre := by decide
  have hline : EndsInCode line := by decide
  obtain ⟨hblock, -, hquoted⟩ := read_hides "A.java" hpre post
  obtain ⟨-, hbehind, -⟩ := read_hides "A.java" hline (pre ++ post)
  refine ⟨hpre, hline, hblock _ _ (by decide) (by decide) (by decide), ?_, ?_⟩
  · exact hbehind _ _ (by decide) (by decide)
  · exact hquoted _ _ ⟨by decide, by decide⟩ ⟨by decide, by decide⟩ (by decide)

end Code

end ClassAtlas
