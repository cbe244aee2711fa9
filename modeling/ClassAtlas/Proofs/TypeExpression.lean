import ClassAtlas.Code.Operation
import ClassAtlas.Proofs.DisplaySpacing
import ClassAtlas.Proofs.Diagram.Names

/-!
# Type expressions

A type expression is a qualified name, with type arguments and array brackets
behind it. Written with a space after every comma and nowhere else but around
the bounds of wildcards, it is displayed as it is, no comma of it stands outside
its brackets, and it is found again in the list of its words.
-/

namespace ClassAtlas.TypeText

open ClassAtlas.Text
open Diagram (IsName)
open Pattern (notMem_of_ok)

/-! ## Texts in display form -/

instance (c : Char) : Decidable (IsShown c) :=
  inferInstanceAs (Decidable (_ ∨ _))

/-- Whether the second character can follow the first where a type is
displayed. -/
def Fits (c d : Char) : Prop :=
  (c = ' ' → d ∉ [' ', '<', '>', '[', ']', ',']) ∧
    (c ∈ ['<', '['] → d ≠ ' ') ∧ (c = ',' → d = ' ')

instance (c d : Char) : Decidable (Fits c d) :=
  inferInstanceAs (Decidable (_ ∧ _ ∧ _))

/-- A part of a displayed type, without a blank, a comma or the wrong bracket
at its ends. -/
structure Tidy (s : List Char) : Prop where
  ne_nil : s ≠ []
  shown : ∀ c ∈ s, IsShown c
  chain : s.IsChain Fits
  first : ∀ c ∈ s.head?, c ∉ [' ', '<', '>', '[', ']', ',']
  last : ∀ c ∈ s.getLast?, c ∉ [' ', '<', '[', ',']

theorem fits_of_last {c : Char} (h : c ∉ [' ', '<', '[', ',']) (d : Char) : Fits c d := by
  simp only [List.mem_cons, List.not_mem_nil, or_false, not_or] at h
  refine ⟨fun hc => absurd hc h.1, ?_, fun hc => absurd hc h.2.2.2⟩
  simp [h]

theorem fits_of_first {c d : Char} (hc : c ≠ ',') (h : d ∉ [' ', '<', '>', '[', ']', ',']) :
    Fits c d := by
  refine ⟨fun _ => h, fun _ => ?_, fun hcomma => absurd hcomma hc⟩
  rintro rfl
  exact h (by decide)

/-- In a tidy text a space stands behind every comma. -/
theorem Fits.spaced {c d : Char} (h : Fits c d) : Spaced c d :=
  ⟨h.1, h.2.1, fun hcomma => h.2.2 hcomma ▸ List.mem_cons_self⟩

namespace Tidy

variable {s t : List Char}

theorem stops_isBlank (h : Tidy s) : Stops isBlank s := by
  intro c hc
  rcases h.shown c (List.mem_of_mem_head? hc) with rfl | hblank
  · exact absurd List.mem_cons_self (h.first _ hc)
  · exact hblank

theorem trimmed (h : Tidy s) : Trimmed s := by
  refine ⟨h.stops_isBlank, ?_⟩
  intro c hc
  rw [List.head?_reverse] at hc
  rcases h.shown c (List.mem_of_mem_getLast? hc) with rfl | hblank
  · exact absurd List.mem_cons_self (h.last _ hc)
  · exact hblank

/-- A tidy text is displayed as it is. -/
theorem display_eq (h : Tidy s) : display s = s :=
  IsDisplayed.display_eq ⟨h.trimmed, h.shown, h.chain.imp fun _ _ => Fits.spaced⟩

/-- A text without blanks, brackets and commas is tidy. -/
theorem of_plain (hne : s ≠ [])
    (hplain : ∀ c ∈ s, c ∉ [' ', '<', '>', '[', ']', ',']) (hblank : ∀ c ∈ s, isBlank c = false) :
    Tidy s where
  ne_nil := hne
  shown c hc := Or.inr (hblank c hc)
  chain := by
    apply List.Pairwise.isChain
    apply List.pairwise_of_forall_mem_list
    intro c hc d hd
    refine fits_of_first ?_ (hplain d hd)
    rintro rfl
    exact hplain ',' hc (by decide)
  first c hc := hplain c (List.mem_of_mem_head? hc)
  last c hc := by
    have hnot := hplain c (List.mem_of_mem_getLast? hc)
    simp only [List.mem_cons, List.not_mem_nil, or_false, not_or] at hnot ⊢
    tauto

/-- Anything can stand behind a tidy text. -/
theorem isChain_append (hs : Tidy s) (ht : t.IsChain Fits) : (s ++ t).IsChain Fits :=
  List.isChain_append.mpr ⟨hs.chain, ht, fun c hc d _ => fits_of_last (hs.last c hc) d⟩

theorem append (hs : Tidy s) (hne : t ≠ []) (hshown : ∀ c ∈ t, IsShown c)
    (hchain : t.IsChain Fits) (hlast : ∀ c ∈ t.getLast?, c ∉ [' ', '<', '[', ',']) :
    Tidy (s ++ t) where
  ne_nil := List.append_ne_nil_of_left_ne_nil hs.ne_nil t
  shown := List.forall_mem_append.mpr ⟨hs.shown, hshown⟩
  chain := hs.isChain_append hchain
  first c hc := by
    rw [List.head?_append_of_ne_nil _ hs.ne_nil] at hc
    exact hs.first c hc
  last c hc := by
    rw [List.getLast?_append_of_ne_nil _ hne] at hc
    exact hlast c hc

/-- Tidy texts can stand on both sides of a text that does not end in a
comma. -/
theorem append_append (hs : Tidy s) (ht : Tidy t) (between : List Char)
    (hshown : ∀ c ∈ between, IsShown c) (hchain : between.IsChain Fits)
    (hcomma : between.getLast? ≠ some ',') : Tidy (s ++ (between ++ t)) := by
  apply hs.append
  · exact List.append_ne_nil_of_right_ne_nil between ht.ne_nil
  · exact List.forall_mem_append.mpr ⟨hshown, ht.shown⟩
  · refine List.isChain_append.mpr ⟨hchain, ht.chain, ?_⟩
    intro c hc d hd
    refine fits_of_first ?_ (ht.first d hd)
    rintro rfl
    exact hcomma hc
  · intro c hc
    rw [List.getLast?_append_of_ne_nil _ ht.ne_nil] at hc
    exact ht.last c hc

theorem intercalate {parts : List (List Char)} (hne : parts ≠ []) (h : ∀ part ∈ parts, Tidy part) :
    Tidy ([',', ' '].intercalate parts) := by
  induction parts with
  | nil => contradiction
  | cons part rest ih =>
      obtain ⟨hpart, hrest⟩ := List.forall_mem_cons.mp h
      cases rest with
      | nil =>
          rw [List.intercalate_singleton]
          exact hpart
      | cons next more =>
          rw [List.intercalate_cons_cons, List.append_assoc]
          exact hpart.append_append (ih (List.cons_ne_nil next more) hrest) [',', ' ']
            (by decide) (by decide) (by decide)

/-! ### Words -/

theorem splitOnP_isBlank (h : ∀ c ∈ s, IsShown c) : s.splitOnP isBlank = s.splitOn ' ' := by
  induction s with
  | nil => rfl
  | cons c rest ih =>
      obtain ⟨hc, hrest⟩ := List.forall_mem_cons.mp h
      have hspace : isBlank c = (c == ' ') := by
        rw [Bool.eq_iff_iff, beq_iff_eq]
        exact ⟨eq_space_of_isBlank hc, fun heq => heq ▸ isBlank_space⟩
      rw [List.splitOnP_cons_eq_if_modifyHead, List.splitOn_cons_eq_if_modifyHead, hspace, ih hrest]

/-- Where no two blanks stand side by side, no piece between blanks is empty. -/
theorem ne_nil_of_mem_splitOnP {s : List Char} (hshown : ∀ c ∈ s, IsShown c)
    (hchain : s.IsChain Fits) (hne : s ≠ []) (hfirst : Stops isBlank s)
    (hlast : s.getLast? ≠ some ' ') :
    ∀ piece ∈ s.splitOnP isBlank, piece ≠ [] := by
  match s with
  | [] => contradiction
  | [c] => simp [List.splitOnP_cons_eq_if_modifyHead, stops_cons.mp hfirst]
  | c :: d :: rest =>
      obtain ⟨-, hchain⟩ := List.isChain_cons_cons.mp hchain
      have hshown : ∀ e ∈ d :: rest, IsShown e := (List.forall_mem_cons.mp hshown).2
      rw [List.getLast?_cons_cons] at hlast
      by_cases hd : isBlank d = true
      · obtain rfl := eq_space_of_isBlank (hshown d List.mem_cons_self) hd
        obtain ⟨hnext, hrest⟩ := List.isChain_cons.mp hchain
        have hword : ∀ e ∈ [c], isBlank e = false := by simpa using hfirst
        have hpieces : (c :: ' ' :: rest).splitOnP isBlank = [c] :: rest.splitOnP isBlank :=
          List.splitOnP_append_cons_of_forall_mem hword ' ' isBlank_space rest
        have hstops : Stops isBlank rest := by
          intro e he
          rcases hshown e (List.mem_cons_of_mem _ (List.mem_of_mem_head? he)) with rfl | hblank
          · exact absurd (by decide) ((hnext ' ' he).1 rfl)
          · exact hblank
        have hmore : rest ≠ [] := by
          rintro rfl
          exact hlast rfl
        rw [List.getLast?_cons_of_ne_nil hmore] at hlast
        have htail := ne_nil_of_mem_splitOnP (List.forall_mem_cons.mp hshown).2 hrest hmore hstops
          hlast
        rw [hpieces]
        exact List.forall_mem_cons.mpr ⟨List.cons_ne_nil c [], htail⟩
      · have htail := ne_nil_of_mem_splitOnP hshown hchain (List.cons_ne_nil d rest)
          (stops_cons.mpr (by simpa using hd)) hlast
        obtain ⟨piece, more, hpieces⟩ := List.exists_cons_of_ne_nil
          (List.splitOnP_ne_nil isBlank (d :: rest))
        rw [hpieces] at htail
        rw [List.splitOnP_cons_eq_if_modifyHead, stops_cons.mp hfirst, hpieces]
        exact List.forall_mem_cons.mpr ⟨List.cons_ne_nil c piece, (List.forall_mem_cons.mp htail).2⟩

/-- A tidy text is its words with single spaces between them. -/
theorem intercalate_words (h : Tidy s) : [' '].intercalate (words s) = s := by
  have hfilter : words s = s.splitOnP isBlank := by
    rw [words, List.filter_eq_self]
    intro piece hpiece
    have hlast : s.getLast? ≠ some ' ' := fun hlast => h.last ' ' hlast (by decide)
    simp [ne_nil_of_mem_splitOnP h.shown h.chain h.ne_nil h.stops_isBlank hlast piece hpiece]
  rw [hfilter, splitOnP_isBlank h.shown, List.intercalate_splitOn]

end Tidy

theorem words_append_space (s t : List Char) : words (s ++ ' ' :: t) = words s ++ words t := by
  rw [words, List.splitOnP_append_cons s t isBlank_space, List.filter_append]
  rfl

theorem words_eq_singleton {s : List Char} (hne : s ≠ []) (h : ∀ c ∈ s, isBlank c = false) :
    words s = [s] := by
  rw [words, List.splitOnP_eq_singleton h]
  simp [hne]

/-! ## The expressions -/

/-- Names with dots between them. -/
inductive IsQualifiedName : List Char → Prop where
  | name {name : List Char} (hname : IsName name) : IsQualifiedName name
  | dotted {name rest : List Char} (hname : IsName name)
    (hrest : IsQualifiedName rest) : IsQualifiedName (name ++ '.' :: rest)

/-- What a text in a type expression stands for. -/
inductive Role where
  | type
  | argument

/-- The texts of types and of type arguments. -/
inductive IsTypeExpression : Role → List Char → Prop where
  | named {name : List Char} (hname : IsQualifiedName name) : IsTypeExpression .type name
  | applied {name : List Char} {arguments : List (List Char)} (hname : IsQualifiedName name)
    (hne : arguments ≠ []) (harguments : ∀ text ∈ arguments, IsTypeExpression .argument text) :
    IsTypeExpression .type (name ++ '<' :: ([',', ' '].intercalate arguments ++ ['>']))
  | array {element : List Char} (helement : IsTypeExpression .type element) :
    IsTypeExpression .type (element ++ ['[', ']'])
  | exact {text : List Char} (htext : IsTypeExpression .type text) :
    IsTypeExpression .argument text
  | wildcard : IsTypeExpression .argument ['?']
  | upTo {bound : List Char} (hbound : IsTypeExpression .type bound) :
    IsTypeExpression .argument ("? extends ".toList ++ bound)
  | downTo {bound : List Char} (hbound : IsTypeExpression .type bound) :
    IsTypeExpression .argument ("? super ".toList ++ bound)

theorem isDottedName_of_isName {c : Char} (h : isName c = true) : isDottedName c = true := by
  simp [isDottedName, h]

namespace IsQualifiedName

variable {name : List Char}

theorem ne_nil (h : IsQualifiedName name) : name ≠ [] := by
  cases h with
  | name hname => exact hname.ne_nil
  | dotted hname hrest => simp

theorem all_dotted (h : IsQualifiedName name) : ∀ c ∈ name, isDottedName c = true := by
  induction h with
  | name hname =>
      intro c hc
      exact isDottedName_of_isName (hname.all_name c hc)
  | dotted hname hrest ih =>
      refine List.forall_mem_append.mpr ⟨?_, List.forall_mem_cons.mpr ⟨by decide, ih⟩⟩
      intro c hc
      exact isDottedName_of_isName (hname.all_name c hc)

theorem exists_last (h : IsQualifiedName name) :
    ∃ init c, name = init ++ [c] ∧ isName c = true := by
  induction h with
  | @name name hname =>
      obtain ⟨init, c, rfl⟩ := (List.eq_nil_or_concat' name).resolve_left hname.ne_nil
      exact ⟨init, c, rfl, hname.all_name c (by simp)⟩
  | @dotted name rest hname hrest ih =>
      obtain ⟨init, c, rfl, hc⟩ := ih
      exact ⟨name ++ '.' :: init, c, by simp, hc⟩

end IsQualifiedName

theorem IsQualifiedName.tidy {name : List Char} (h : IsQualifiedName name) : Tidy name := by
  apply Tidy.of_plain h.ne_nil
  · intro c hc
    exact notMem_of_ok (h.all_dotted c hc) (by decide)
  · intro c hc
    exact isBlank_eq_false_of_isDottedName (h.all_dotted c hc)

/-- Names have neither brackets nor commas. -/
theorem IsQualifiedName.flat {name : List Char} (h : IsQualifiedName name) :
    ∀ c ∈ name, depthChange c = 0 ∧ c ≠ ',' := by
  intro c hc
  have hothers : ∀ d ∈ ['<', '(', '[', '{', '>', ')', ']', '}', ','], isDottedName d = false := by
    decide
  have hnot := notMem_of_ok (h.all_dotted c hc) hothers
  simp only [List.mem_cons, List.not_mem_nil, or_false, not_or] at hnot
  simp [depthChange, hnot]

theorem whole_cons {c : Char} (hc : c ≠ ',') {depth next : ℤ}
    (hnext : depth + depthChange c = next) {rest : List Char} (h : Whole ',' next rest) :
    Whole ',' depth (c :: rest) := by
  rw [Whole, hnext]
  exact ⟨fun hsep => hc hsep.1, h⟩

/-- Inside brackets, commas may stand between the parts of a list. -/
theorem whole_intercalate_append {parts : List (List Char)}
    (hparts : ∀ part ∈ parts, ∀ depth : ℤ, 0 < depth → ∀ rest, Whole ',' depth rest →
      Whole ',' depth (part ++ rest))
    {depth : ℤ} (hdepth : 0 < depth) {rest : List Char} (hrest : Whole ',' depth rest) :
    Whole ',' depth ([',', ' '].intercalate parts ++ rest) := by
  induction parts with
  | nil => exact hrest
  | cons part more ih =>
      obtain ⟨hpart, hmore⟩ := List.forall_mem_cons.mp hparts
      cases more with
      | nil =>
          rw [List.intercalate_singleton]
          exact hpart depth hdepth rest hrest
      | cons next more =>
          have hchange : depth + depthChange ',' = depth := by
            have hzero : depthChange ',' = 0 := by decide
            omega
          have htail := (ih hmore).append (a := [' ']) (by decide)
          rw [List.intercalate_cons_cons, List.append_assoc, List.append_assoc]
          refine hpart depth hdepth _ ?_
          rw [List.cons_append, Whole, hchange]
          exact ⟨fun hsep => absurd hsep.2 (by omega), htail⟩

/-- What can stand in a return type can also stand in a list, commas and spaces
included. -/
theorem inReturnType_of_mem_intercalate {parts : List (List Char)}
    (h : ∀ part ∈ parts, ∀ c ∈ part, Code.inReturnType c = true) :
    ∀ c ∈ [',', ' '].intercalate parts, Code.inReturnType c = true := by
  intro c hc
  by_contra hnot
  refine notMem_intercalate ?_ (fun part hpart hmem => hnot (h part hpart c hmem)) hc
  intro hmem
  exact hnot ((by decide : ∀ d ∈ [',', ' '], Code.inReturnType d = true) c hmem)

namespace IsTypeExpression

variable {role : Role} {s : List Char}

theorem tidy (h : IsTypeExpression role s) : Tidy s := by
  have hwildcard : Tidy ['?'] := Tidy.of_plain (by decide) (by decide) (by decide)
  induction h with
  | named hname => exact hname.tidy
  | applied hname hne harguments ih =>
      have hinside := Tidy.intercalate hne ih
      have hopened := hname.tidy.append_append hinside ['<'] (by decide) (by decide) (by decide)
      have hclosed := hopened.append (t := ['>']) (by decide) (by decide) (by decide) (by simp)
      simpa using hclosed
  | array helement ih => exact ih.append (by decide) (by decide) (by decide) (by simp)
  | exact htext ih => exact ih
  | wildcard => exact hwildcard
  | upTo hbound ih =>
      exact hwildcard.append_append ih " extends ".toList (by decide) (by decide) (by decide)
  | downTo hbound ih =>
      exact hwildcard.append_append ih " super ".toList (by decide) (by decide) (by decide)

/-- The characters of a type expression can all stand in a return type. -/
theorem inReturnType_of_mem (h : IsTypeExpression role s) :
    ∀ c ∈ s, Code.inReturnType c = true := by
  have hdotted : ∀ {name : List Char}, IsQualifiedName name →
      ∀ c ∈ name, Code.inReturnType c = true := by
    intro name hname c hc
    simp [Code.inReturnType, hname.all_dotted c hc]
  induction h with
  | named hname => exact hdotted hname
  | @applied name arguments hname hne harguments ih =>
      have hinside := inReturnType_of_mem_intercalate ih
      refine List.forall_mem_append.mpr ⟨hdotted hname, ?_⟩
      exact List.forall_mem_cons.mpr ⟨by decide, List.forall_mem_append.mpr ⟨hinside, by decide⟩⟩
  | array helement ih => exact List.forall_mem_append.mpr ⟨ih, by decide⟩
  | exact htext ih => exact ih
  | wildcard => decide
  | upTo hbound ih => exact List.forall_mem_append.mpr ⟨by decide, ih⟩
  | downTo hbound ih => exact List.forall_mem_append.mpr ⟨by decide, ih⟩

/-- No comma of a type expression stands outside its brackets. -/
theorem whole_append (h : IsTypeExpression role s) {depth : ℤ} (hdepth : 0 ≤ depth)
    {rest : List Char} (hrest : Whole ',' depth rest) : Whole ',' depth (s ++ rest) := by
  induction h generalizing depth rest with
  | named hname => exact hrest.append hname.flat
  | applied hname hne harguments ih =>
      have hopen : depthChange '<' = 1 := by decide
      have hclose : depthChange '>' = -1 := by decide
      have hclosed : Whole ',' (depth + 1) ('>' :: rest) :=
        whole_cons (by decide) (by omega) hrest
      have hinside := whole_intercalate_append
        (fun part hpart _ hpositive _ hmore => ih part hpart (Int.le_of_lt hpositive) hmore)
        (by omega) hclosed
      rw [List.append_assoc, List.cons_append, List.append_assoc]
      exact Whole.append hname.flat (whole_cons (by decide) (by rw [hopen]) hinside)
  | array helement ih =>
      rw [List.append_assoc]
      apply ih hdepth
      have hopen : depthChange '[' = 1 := by decide
      have hclose : depthChange ']' = -1 := by decide
      exact whole_cons (by decide) rfl (whole_cons (by decide) (by omega) hrest)
  | exact htext ih => exact ih hdepth hrest
  | wildcard => exact hrest.append (by decide)
  | upTo hbound ih =>
      rw [List.append_assoc]
      exact (ih hdepth hrest).append (by decide)
  | downTo hbound ih =>
      rw [List.append_assoc]
      exact (ih hdepth hrest).append (by decide)

/-- A type is a name, type arguments and array brackets. -/
theorem exists_parts (h : IsTypeExpression .type s) :
    ∃ name arguments dimensions, IsQualifiedName name ∧
      (arguments = [] ∨ ∃ inside, arguments = '<' :: (inside ++ ['>'])) ∧
      s = name ++ (arguments ++ (List.replicate dimensions ['[', ']']).flatten) := by
  generalize hrole : Role.type = role at h
  induction h with
  | named hname => exact ⟨_, [], 0, hname, Or.inl rfl, by simp⟩
  | @applied name arguments hname hne harguments ih =>
      refine ⟨name, '<' :: ([',', ' '].intercalate arguments ++ ['>']), 0, hname,
        Or.inr ⟨_, rfl⟩, ?_⟩
      rw [List.replicate_zero, List.flatten_nil, List.append_nil]
  | array helement ih =>
      obtain ⟨name, arguments, dimensions, hname, harguments, rfl⟩ := ih hrole
      refine ⟨name, arguments, dimensions + 1, hname, harguments, ?_⟩
      rw [List.replicate_succ', List.flatten_append]
      simp
  | exact htext ih => contradiction
  | wildcard => contradiction
  | upTo hbound ih => contradiction
  | downTo hbound ih => contradiction

/-- Behind the name of a type come angle brackets or square ones, or nothing of
it. -/
theorem stops_parts {ok : Char → Bool} (hangle : ok '<' = false) (hsquare : ok '[' = false)
    {arguments : List Char}
    (harguments : arguments = [] ∨ ∃ inside, arguments = '<' :: (inside ++ ['>']))
    (dimensions : ℕ) {rest : List Char} (hrest : Stops ok rest) :
    Stops ok (arguments ++ ((List.replicate dimensions ['[', ']']).flatten ++ rest)) := by
  rcases harguments with rfl | ⟨inside, rfl⟩
  · cases dimensions with
    | zero => exact hrest
    | succ n => exact stops_cons.mpr hsquare
  · exact stops_cons.mpr hangle

/-- A type begins with a name, behind which no blank stands. -/
theorem exists_head (h : IsTypeExpression .type s) :
    ∃ head rest, s = head ++ rest ∧ IsName head ∧ Stops isName rest ∧ Stops isBlank rest := by
  obtain ⟨name, arguments, dimensions, hname, harguments, rfl⟩ := h.exists_parts
  cases hname with
  | name hname =>
      refine ⟨name, _, rfl, hname, ?_, ?_⟩
      · simpa using stops_parts (by decide) (by decide) harguments dimensions (stops_nil isName)
      · simpa using stops_parts (by decide) (by decide) harguments dimensions (stops_nil isBlank)
  | @dotted first more hfirst hmore =>
      rw [List.append_assoc, List.cons_append]
      exact ⟨first, _, rfl, hfirst, stops_cons.mpr (by decide),
        stops_cons.mpr (by decide)⟩

/-- A type ends in a bracket, or it is a name. -/
theorem exists_last (h : IsTypeExpression .type s) :
    ∃ init c, s = init ++ [c] ∧
      (c = '>' ∨ c = ']' ∨ (isName c = true ∧ ∀ d ∈ s, isDottedName d = true)) := by
  obtain ⟨name, arguments, dimensions, hname, harguments, rfl⟩ := h.exists_parts
  cases dimensions with
  | succ n =>
      refine ⟨name ++ (arguments ++ ((List.replicate n ['[', ']']).flatten ++ ['['])), ']', ?_,
        Or.inr (Or.inl rfl)⟩
      simp [List.replicate_succ', List.flatten_append]
  | zero =>
      rcases harguments with rfl | ⟨inside, rfl⟩
      · obtain ⟨init, c, htext, hc⟩ := hname.exists_last
        exact ⟨init, c, by simpa using htext, Or.inr (Or.inr ⟨hc, by simpa using hname.all_dotted⟩)⟩
      · exact ⟨name ++ '<' :: inside, '>', by simp, Or.inl rfl⟩

/-- Only a name ends in a dollar sign. -/
theorem all_dotted_of_dollar (h : IsTypeExpression .type s) (hlast : s.getLast? = some '$') :
    ∀ c ∈ s, isDottedName c = true := by
  obtain ⟨init, c, rfl, hc⟩ := h.exists_last
  rw [List.getLast?_concat] at hlast
  obtain rfl := Option.some.inj hlast
  rcases hc with heq | heq | ⟨-, hdotted⟩
  · contradiction
  · contradiction
  · exact hdotted

end IsTypeExpression

end ClassAtlas.TypeText
