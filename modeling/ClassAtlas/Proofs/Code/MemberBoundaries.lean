import ClassAtlas.Code.Reader
import ClassAtlas.Proofs.Source.Statements

/-!
# Boundaries between members

A body is read in two scans: its projection, and the cut of the projection into
statements. Where a statement ends outside of all blocks, both scans are back
where they started, so what stands behind is read as if it stood alone. This
needs nothing of the statements in front, which may be of any form.
-/

namespace ClassAtlas

open ClassAtlas.Text

namespace Source

/-! ## Statements that have ended -/

/-- What a scan for statements has seen, behind a whole text, of the statement it
stands in. -/
def Clause.after : Clause → List Char → Clause
  | clause, [] => clause
  | clause, c :: rest =>
    Clause.after (if clause.ends c then { zone := clause.zone.next c } else clause.next c) rest

theorem Clause.zone_after (clause : Clause) (s : List Char) :
    (clause.after s).zone = clause.zone.after s := by
  induction s generalizing clause with
  | nil => rfl
  | cons c s ih =>
      rw [Clause.after, ih, Zone.after_cons]
      split
      · rfl
      · rw [Clause.zone_next]

/-- Behind the end of a statement the scan starts afresh, and what it has cut off
does not depend on what follows. -/
theorem exists_cutStatements {clause : Clause} {s : List Char} {c : Char}
    (h : (clause.after s).ends c = true) :
    ∃ first more, ∀ t, cutStatements clause (s ++ c :: t) =
      (first :: more) ++ cutStatements { zone := (clause.after s).zone.next c } t := by
  induction s generalizing clause with
  | nil =>
      refine ⟨[c], [], fun t => ?_⟩
      rw [Clause.after] at h
      rw [List.nil_append, cutStatements, if_pos h]
      rfl
  | cons d s ih =>
      rw [Clause.after] at h ⊢
      obtain ⟨first, more, hcut⟩ := ih h
      by_cases hd : clause.ends d = true
      · rw [if_pos hd] at hcut ⊢
        refine ⟨[d], first :: more, fun t => ?_⟩
        rw [List.cons_append, cutStatements, if_pos hd, hcut]
        rfl
      · rw [if_neg hd] at hcut ⊢
        refine ⟨d :: first, more, fun t => ?_⟩
        rw [List.cons_append, cutStatements, if_neg hd, hcut]
        rfl

theorem statements_nil : statements [] = [] := by
  have htrim : trim [] = [] := rfl
  have hannotations : stripAnnotations [] = [] := by
    rw [stripAnnotations, trimStart, List.dropWhile_nil, dropAnnotations]
    rfl
  simp [statements, cutStatements, htrim, hannotations]

theorem statements_append_of_ends {s : List Char} {c : Char}
    (h : (Clause.after {} s).ends c = true) (t : List Char) :
    statements (s ++ c :: t) = statements (s ++ [c]) ++ statements t := by
  have hcode : (Clause.after {} s).zone.isCode c = true := (Bool.and_eq_true_iff.mp h).1
  obtain ⟨first, more, hcut⟩ := exists_cutStatements h
  have hsplit : ∀ t, statements (s ++ c :: t) =
      (((first :: more).map fun raw => stripAnnotations (trim raw)).filter
        fun statement => !statement.isEmpty) ++ statements t := by
    intro t
    rw [statements, hcut, Zone.next_of_isCode hcode, List.map_append, List.filter_append]
    rfl
  rw [hsplit t, hsplit [], statements_nil, List.append_nil]

/-! ## Bodies -/

/-- A text that is empty or ends outside of all blocks, with a code character that
ends a statement: a semicolon, or a closing brace unless an initializer has begun
in the statement. The depth is that of the projection. -/
inductive EndsStatement : List Char → Prop where
  | nil : EndsStatement []
  | concat {before : List Char} {c : Char}
    (hcode : (Zone.code.after before).isCode c = true)
    (hdepth : depthAfter .code 0 (before ++ [c]) = 0)
    (hends : c = ';' ∨ c = '}' ∧ (Clause.after {} (project before)).initializer = false) :
    EndsStatement (before ++ [c])

section Concat

variable {before : List Char} {c : Char} (hcode : (Zone.code.after before).isCode c = true)
include hcode

/-- Behind a code character at depth zero a projection is back where it
started. -/
theorem project_concat_append (hdepth : depthAfter .code 0 (before ++ [c]) = 0) (t : List Char) :
    project (before ++ [c] ++ t) = project before ++ c :: project t := by
  have hstep : depthStep (Zone.code.after before) (depthAfter .code 0 before) c = 0 := by
    rw [depthAfter_append] at hdepth
    exact hdepth
  rw [project, List.append_assoc, projectFrom_append, List.singleton_append, projectFrom_cons,
    hstep, if_pos (Or.inr rfl), Zone.next_of_isCode hcode]
  rfl

/-- A code character is code in the projection. -/
theorem isCode_after_project : (Clause.after {} (project before)).zone.isCode c = true := by
  have hzone := after_projectFrom .code 0 before
  rw [Zone.outside, if_pos rfl] at hzone
  rw [Clause.zone_after, project, hzone, Zone.outside]
  split
  · exact hcode
  · exact Zone.isCode_iff.mpr ⟨rfl, (Zone.isCode_iff.mp hcode).2⟩

end Concat

theorem EndsStatement.statements_append {a : List Char} (h : EndsStatement a) (b : List Char) :
    statements (project (a ++ b)) = statements (project a) ++ statements (project b) := by
  cases h with
  | nil =>
      have hempty : statements (project []) = [] := statements_nil
      rw [hempty]
      rfl
  | @concat before c hcode hdepth hends =>
      have hend : (Clause.after {} (project before)).ends c = true := by
        rw [Clause.ends, isCode_after_project hcode]
        rcases hends with rfl | ⟨rfl, hinitializer⟩
        · rfl
        · rw [hinitializer]
          rfl
      have hself := project_concat_append hcode hdepth []
      rw [List.append_nil] at hself
      rw [project_concat_append hcode hdepth, hself, statements_append_of_ends hend]
      rfl

end Source

namespace Code

open Source

/-- Members neither merge nor split where a statement ends: what stands behind has
the statements and the members that it has alone. -/
theorem members_append {a : List Char} (h : EndsStatement a) (b : List Char) :
    statements (project (a ++ b)) = statements (project a) ++ statements (project b) ∧
      ∀ ownerName owner, members ownerName owner (project (a ++ b)) =
        members ownerName owner (project a) ++ members ownerName owner (project b) := by
  have hstatements := h.statements_append b
  refine ⟨hstatements, fun ownerName owner => ?_⟩
  rw [members, hstatements, List.filterMap_append]
  rfl

/-- An equals sign in the list of an annotation begins no initializer, so the block
behind the list ends a statement, also in front of a brace that closes nothing. -/
theorem members_append_annotated :
    let before := "? ); int[] n = \x7b1\x7d; @Size(max = 3) void f() \x7b n = \x7b\x7d; ".toList
    let a := before ++ ['}']
    let b := " \x7d int m = 1; void g(".toList
    EndsStatement a ∧
      statements (project (a ++ b)) = statements (project a) ++ statements (project b) ∧
      members "A".toList .«class» (project (a ++ b)) =
        members "A".toList .«class» (project a) ++ members "A".toList .«class» (project b) ∧
      (members "A".toList .«class» (project a)).length = 2 ∧
      (members "A".toList .«class» (project b)).length = 1 := by
  intro before a b
  have hdepth : depthAfter .code 0 a = 0 := by decide +kernel
  have ha : EndsStatement a := .concat (by decide) hdepth (Or.inr ⟨rfl, by decide +kernel⟩)
  obtain ⟨hstatements, hmembers⟩ := members_append ha b
  exact ⟨ha, hstatements, hmembers "A".toList .«class», by decide +kernel, by decide +kernel⟩

end Code

end ClassAtlas
