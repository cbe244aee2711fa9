import ClassAtlas.Diagram.Header
import ClassAtlas.Proofs.DisplayForm
import ClassAtlas.Proofs.Text.Searching

/-!
# Names in diagrams

An identifier is read back as it was written: it is trimmed, has no bracket,
dot or quote, and a run of name characters takes exactly it wherever the next
character cannot continue a name.
-/

namespace ClassAtlas.Diagram

open ClassAtlas.Text Pattern

/-- Whether a text is an identifier: name characters, the first of them an
ASCII letter, an underscore or a dollar sign. -/
def isIdentifier : List Char → Bool
  | [] => false
  | c :: rest => opensName c && rest.all isName

theorem isWord_of_isLiteralName {s : List Char} (h : isLiteralName s = true) :
    ∀ c ∈ s, isWord c = true := by
  cases s with
  | nil => contradiction
  | cons c rest =>
      rw [isLiteralName, Bool.and_eq_true, List.all_eq_true] at h
      refine List.forall_mem_cons.mpr ⟨?_, ?_⟩
      · exact isWord_of_isUpper h.1
      · intro d hd
        have hd' := h.2 d hd
        simp only [Bool.or_eq_true, beq_iff_eq] at hd'
        rcases hd' with (hupper | hdigit) | rfl
        · exact isWord_of_isUpper hupper
        · simp [isWord, Char.isAlphanum, hdigit]
        · decide

/-- A text of one or more name characters. -/
structure IsName (s : List Char) : Prop where
  ne_nil : s ≠ []
  all_name : ∀ c ∈ s, isName c = true

instance (s : List Char) : Decidable (IsName s) :=
  decidable_of_iff (s ≠ [] ∧ ∀ c ∈ s, isName c = true)
    ⟨fun h => ⟨h.1, h.2⟩, fun h => ⟨h.ne_nil, h.all_name⟩⟩

namespace IsName

variable {s : List Char}

theorem of_isIdentifier (h : isIdentifier s = true) : IsName s := by
  cases s with
  | nil => contradiction
  | cons c rest =>
      rw [isIdentifier, Bool.and_eq_true, List.all_eq_true] at h
      exact ⟨List.cons_ne_nil c rest,
        List.forall_mem_cons.mpr ⟨isName_of_opensName h.1, h.2⟩⟩

theorem of_isLiteralName (h : isLiteralName s = true) : IsName s where
  ne_nil := by
    rintro rfl
    contradiction
  all_name := by
    intro c hc
    simp [isName, isWord_of_isLiteralName h c hc]

theorem ne_of_mem (h : IsName s) {c d : Char} (hc : c ∈ s) (hd : isName d = false) :
    c ≠ d := by
  rintro rfl
  rw [h.all_name c hc] at hd
  contradiction

theorem notMem (h : IsName s) {d : Char} (hd : isName d = false) : d ∉ s :=
  fun hmem => h.ne_of_mem hmem hd rfl

/-- A class without name characters does not start at a name. -/
theorem stops_append (h : IsName s) {ok : Char → Bool}
    (hok : ∀ c, isName c = true → ok c = false) (rest : List Char) :
    Stops ok (s ++ rest) := by
  cases s with
  | nil => exact (h.ne_nil rfl).elim
  | cons c s => exact stops_cons.mpr (hok c (h.all_name c List.mem_cons_self))

theorem stops_isBlank_append (h : IsName s) (rest : List Char) :
    Stops isBlank (s ++ rest) :=
  h.stops_append (fun _ => isBlank_eq_false_of_isName) rest

theorem head?_append_ne (h : IsName s) {d : Char} (hd : isName d = false)
    (rest : List Char) : (s ++ rest).head? ≠ some d := by
  cases s with
  | nil => exact (h.ne_nil rfl).elim
  | cons c s =>
      have hne := h.ne_of_mem List.mem_cons_self hd
      simpa using hne

theorem reverse (h : IsName s) : IsName s.reverse where
  ne_nil := by simpa using h.ne_nil
  all_name := fun c hc => h.all_name c (List.mem_reverse.mp hc)

theorem trimmed (h : IsName s) : Trimmed s := by
  constructor
  · simpa using h.stops_isBlank_append []
  · simpa using h.reverse.stops_isBlank_append []

theorem dropWhile_eq_self (h : IsName s) {ok : Char → Bool}
    (hok : ∀ c, isName c = true → ok c = false) : s.dropWhile ok = s := by
  cases s with
  | nil => rfl
  | cons c s => simp [hok c (h.all_name c List.mem_cons_self)]

theorem trimChar_eq_self (h : IsName s) {d : Char} (hd : isName d = false) :
    trimChar d s = s := by
  have hok : ∀ c, isName c = true → (c == d) = false := by
    intro c hc
    rw [beq_eq_false_iff_ne]
    rintro rfl
    rw [hc] at hd
    contradiction
  rw [trimChar, h.dropWhile_eq_self hok, h.reverse.dropWhile_eq_self hok, List.reverse_reverse]

theorem dropMarks_eq_self (h : IsName s) : TypeText.dropMarks s = s := by
  cases s with
  | nil => exact (h.ne_nil rfl).elim
  | cons c s =>
      have hdot : c ≠ '.' := h.ne_of_mem List.mem_cons_self (by decide)
      have hsquare : c ≠ ']' := h.ne_of_mem List.mem_cons_self (by decide)
      exact TypeText.dropMarks_cons hdot hsquare s

theorem stripArrays_eq_self (h : IsName s) : TypeText.stripArrays s = s := by
  rw [TypeText.stripArrays, h.trimmed.trim_eq, h.reverse.dropMarks_eq_self,
    List.reverse_reverse]

theorem takeWhile_ne_eq_self (h : IsName s) {d : Char} (hd : isName d = false) :
    s.takeWhile (· != d) = s := by
  rw [List.takeWhile_eq_self_iff]
  intro c hc
  exact bne_iff_ne.mpr (h.ne_of_mem hc hd)

/-- A word is found in front of a name only where it is that name, if what
comes next needs a blank. -/
theorem search_literal_eq_none {β : Type} (h : IsName s) {word : String}
    (hword : IsName word.toList) {rest : List Char} (hrest : Stops isName rest)
    {k : Unit → List Char → Option β} (hblank : ∀ t, Stops isBlank t → k () t = none)
    (heq : s = word.toList → k () rest = none) :
    (literal word).search k (s ++ rest) = none := by
  apply Pattern.search_literal_eq_none
  intro more htext
  by_cases hstops : Stops isBlank more
  · exact hblank more hstops
  · have hmore : Stops isName more := by
      intro c hc
      by_contra hname
      refine hstops fun d hd => ?_
      rw [Option.some.inj (hd.symm.trans hc)]
      exact isBlank_eq_false_of_isName (by simpa using hname)
    have hsame := eq_of_append_eq_append h.all_name hword.all_name hrest hmore htext
    rw [hsame, List.append_cancel_left_eq] at htext
    rw [← htext]
    exact heq hsame

/-- Names have neither brackets nor commas. -/
theorem flat (h : IsName s) : ∀ c ∈ s, TypeText.depthChange c = 0 ∧ c ≠ ',' := by
  intro c hc
  have hne : ∀ d, isName d = false → (c == d) = false := fun d hd =>
    beq_eq_false_iff_ne.mpr (h.ne_of_mem hc hd)
  refine ⟨?_, h.ne_of_mem hc (by decide)⟩
  rw [TypeText.depthChange, hne '<' (by decide), hne '(' (by decide), hne '[' (by decide),
    hne '{' (by decide), hne '>' (by decide), hne ')' (by decide), hne ']' (by decide),
    hne '}' (by decide)]
  rfl

/-- A name is its own simple name. -/
theorem typeName_eq_self (h : IsName s) : typeName s = s := by
  rw [typeName, h.trimChar_eq_self (by decide), TypeText.simpleName,
    h.stripArrays_eq_self, h.takeWhile_ne_eq_self (by decide), h.trimmed.trim_eq, afterLast,
    h.reverse.takeWhile_ne_eq_self (by decide), List.reverse_reverse]

end IsName

end ClassAtlas.Diagram
