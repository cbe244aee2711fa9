import ClassAtlas.Proofs.Source.Segments

/-!
# Where statements end

A scan for statements passes over a text that holds no end of one, and cuts
behind the first character that is one. An initializer is passed over up to its
semicolon, whatever blocks it has.
-/

namespace ClassAtlas.Source

open ClassAtlas.Text

theorem Clause.zone_next (clause : Clause) (c : Char) :
    (clause.next c).zone = clause.zone.next c := by
  unfold Clause.next
  dsimp only
  split_ifs <;> rfl

/-- A text that holds no end of a statement, and what the scan has seen after
it. -/
inductive Clause.Passes : Clause → List Char → Clause → Prop where
  | nil (clause : Clause) : Passes clause [] clause
  | cons {clause after : Clause} {c : Char} {rest : List Char} (hc : clause.ends c = false)
    (hrest : Passes (clause.next c) rest after) : Passes clause (c :: rest) after

namespace Clause.Passes

variable {first second third : Clause} {s t : List Char}

theorem append (hs : first.Passes s second) (ht : second.Passes t third) :
    first.Passes (s ++ t) third := by
  induction hs with
  | nil clause => exact ht
  | cons hc hrest ih => exact .cons hc (ih ht)

/-- A statement is cut off behind the character that ends it. -/
theorem cutStatements_append (hs : first.Passes s second) {c : Char}
    (hc : second.ends c = true) (t : List Char) :
    cutStatements first (s ++ c :: t) =
      (s ++ [c]) :: cutStatements { zone := second.zone.next c } t := by
  induction hs with
  | nil clause => rw [List.nil_append, List.nil_append, cutStatements, if_pos hc]
  | @cons clause after d rest hd hrest ih =>
      rw [List.cons_append, cutStatements, if_neg (by simp [hd]), ih hc]
      rfl

theorem cutStatements_eq (hs : first.Passes s second) : cutStatements first s = [s] := by
  induction hs with
  | nil clause => rfl
  | @cons clause after d rest hd hrest ih =>
      rw [cutStatements, if_neg (by simp [hd]), ih]

end Clause.Passes

/-- A character that changes nothing for a scan for the ends of statements. -/
def isSilent (c : Char) : Bool :=
  !(['"', '\'', ';', '}', '(', ')', '='].contains c)

theorem isSilent_iff {c : Char} :
    isSilent c = true ↔
      c ≠ '"' ∧ c ≠ '\'' ∧ c ≠ ';' ∧ c ≠ '}' ∧ c ≠ '(' ∧ c ≠ ')' ∧ c ≠ '=' := by
  simp [isSilent]

theorem passes_of_silent {s : List Char} (h : ∀ c ∈ s, isSilent c = true) (parens : ℕ)
    (initializer : Bool) :
    Clause.Passes ⟨.code, parens, initializer⟩ s ⟨.code, parens, initializer⟩ := by
  induction s with
  | nil => exact .nil _
  | cons c rest ih =>
      obtain ⟨hc, hrest⟩ := List.forall_mem_cons.mp h
      rw [isSilent_iff] at hc
      have hcode : Zone.code.isCode c = true := by
        simp [Zone.isCode, Zone.inLiteral, Zone.isQuote, hc]
      have hnext : Clause.next ⟨.code, parens, initializer⟩ c = ⟨.code, parens, initializer⟩ := by
        simp [Clause.next, hcode, Zone.next_of_isCode hcode, hc]
      refine .cons (by simp [Clause.ends, hc]) ?_
      rw [hnext]
      exact ih hrest

/-- Behind the equals sign of an initializer only a semicolon ends a
statement. -/
theorem exists_passes_of_initializer {s : List Char} (h : ';' ∉ s) {clause : Clause}
    (hclause : clause.initializer = true) :
    ∃ parens, clause.Passes s ⟨clause.zone.after s, parens, true⟩ := by
  induction s generalizing clause with
  | nil =>
      refine ⟨clause.parens, ?_⟩
      rw [← hclause]
      exact .nil clause
  | cons c rest ih =>
      rw [List.mem_cons, not_or] at h
      have hends : clause.ends c = false := by
        simp [Clause.ends, hclause, Ne.symm h.1]
      have hnext : (clause.next c).initializer = true := by
        unfold Clause.next
        dsimp only
        split_ifs <;> first | rfl | exact hclause
      obtain ⟨parens, hrest⟩ := ih h.2 hnext
      rw [Clause.zone_next] at hrest
      exact ⟨parens, .cons hends hrest⟩

/-! ## Statements -/

variable {s : List Char}

theorem cutStatements_of_silent (h : ∀ c ∈ s, isSilent c = true) : cutStatements {} s = [s] :=
  (passes_of_silent h 0 false).cutStatements_eq

theorem cutStatements_semicolon (h : ∀ c ∈ s, isSilent c = true) (t : List Char) :
    cutStatements {} (s ++ ';' :: t) = (s ++ [';']) :: cutStatements {} t :=
  (passes_of_silent h 0 false).cutStatements_append (by decide) t

/-- A declaration with an initializer. -/
theorem cutStatements_initializer (h : ∀ c ∈ s, isSilent c = true) {value : List Char}
    (hvalue : ';' ∉ value) (hzone : (Zone.code.after value).inLiteral = false) (t : List Char) :
    cutStatements {} (s ++ '=' :: (value ++ ';' :: t)) =
      (s ++ '=' :: (value ++ [';'])) :: cutStatements {} t := by
  have hequals : Clause.Passes {} ['='] ⟨.code, 0, true⟩ := .cons (by decide) (.nil _)
  have hinitializer : (Clause.mk .code 0 true).initializer = true := rfl
  obtain ⟨parens, hpasses⟩ := exists_passes_of_initializer hvalue hinitializer
  have hwhole := (passes_of_silent h 0 false).append (hequals.append hpasses)
  have hcode : (Zone.code.after value).isCode ';' = true := Zone.isCode_iff.mpr ⟨hzone, by decide⟩
  have hcut := hwhole.cutStatements_append (c := ';') (by simp [Clause.ends, hcode]) t
  rw [Zone.next_of_isCode hcode] at hcut
  simpa using hcut

/-- A declaration with a parameter list, which a semicolon or a block ends. -/
theorem cutStatements_parenthesis {inside after : List Char} (h : ∀ c ∈ s, isSilent c = true)
    (hinside : ∀ c ∈ inside, isSilent c = true) (hafter : ∀ c ∈ after, isSilent c = true)
    {c : Char} (hc : c = ';' ∨ c = '}') (t : List Char) :
    cutStatements {} (s ++ '(' :: (inside ++ ')' :: (after ++ c :: t))) =
      (s ++ '(' :: (inside ++ ')' :: (after ++ [c]))) :: cutStatements {} t := by
  have hopen : Clause.Passes {} ['('] ⟨.code, 1, false⟩ := .cons (by decide) (.nil _)
  have hclose : Clause.Passes ⟨.code, 1, false⟩ [')'] {} := .cons (by decide) (.nil _)
  have hwhole := (passes_of_silent h 0 false).append (hopen.append
    ((passes_of_silent hinside 1 false).append (hclose.append
      (passes_of_silent hafter 0 false))))
  have hends : Clause.ends {} c = true ∧ Zone.code.next c = .code := by
    rcases hc with rfl | rfl <;> decide
  have hcut := hwhole.cutStatements_append hends.1 t
  rw [hends.2] at hcut
  simpa using hcut

end ClassAtlas.Source
