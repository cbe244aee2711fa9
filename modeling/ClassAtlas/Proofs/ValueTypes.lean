import ClassAtlas.Proofs.InferenceExactness
import ClassAtlas.Proofs.TypeExpression

/-!
# Value types

A declared type refers to the last argument of its innermost argument list, so a
map refers to its values and not to its keys. The innermost list is the one that
the first closing bracket closes. It is that of the map itself as long as the
type of the keys has no arguments; otherwise it stands within the type of the
keys, and the map refers to what that type refers to.

Everything from the innermost list on is computed from its text alone, so it is
enough to find that text: it stands between the first closing bracket and the
last opening one in front of it, whatever surrounds them.
-/

namespace ClassAtlas

open Text
open Diagram (IsName)

namespace TypeText

/-! ## The innermost argument list -/

/-- The innermost list ends at the first closing bracket and starts behind the
last opening one in front of it. -/
theorem innerArguments?_append {s : List Char} (hopen : '<' ∈ s) (hclose : '>' ∉ s)
    (rest : List Char) : innerArguments? (s ++ '>' :: rest) = some (afterLast '<' s) := by
  obtain ⟨before, after, rfl, hbefore⟩ := List.eq_append_cons_of_mem hopen
  have hdrop : (before ++ '<' :: after ++ '>' :: rest).dropWhile (· != '<') =
      '<' :: (after ++ '>' :: rest) := by
    rw [List.append_assoc, List.dropWhile_append_of_pos]
    · rfl
    · intro c hc
      rw [bne_iff_ne]
      rintro rfl
      exact hbefore hc
  have htake : (after ++ '>' :: rest).takeWhile (· != '>') = after := by
    rw [List.takeWhile_append_of_pos]
    · simp
    · intro c hc
      rw [bne_iff_ne]
      rintro rfl
      exact hclose (by simp [hc])
  rw [innerArguments?, hdrop]
  dsimp only
  rw [htake, afterLast_append_cons]

/-! ## Array marks behind a bracket -/

theorem suffix_of_suffix_cons {c d : Char} {s t : List Char} (hne : c ≠ d)
    (h : c :: t <:+ d :: s) : c :: t <:+ s := by
  rcases List.suffix_cons_iff.mp h with heq | hsuffix
  · exact absurd (List.cons.inj heq).1 hne
  · exact hsuffix

theorem suffix_trimStart {c : Char} (hc : isBlank c = false) {s t : List Char}
    (h : c :: t <:+ s) : c :: t <:+ trimStart s := by
  obtain ⟨a, rfl⟩ := h
  rw [trimStart, List.dropWhile_append]
  split
  next => rw [List.dropWhile_cons_of_neg (by simp [hc])]
  next => exact List.suffix_append _ _

/-- Array marks are only taken off in front of a bracket of another kind. -/
theorem suffix_dropMarks {s t : List Char} (h : '>' :: t <:+ s) : '>' :: t <:+ dropMarks s := by
  fun_induction dropMarks s with
  | case1 rest ih =>
      apply ih
      apply suffix_trimStart (by decide)
      exact suffix_of_suffix_cons (by decide) (suffix_of_suffix_cons (by decide)
        (suffix_of_suffix_cons (by decide) h))
  | case2 rest more hmore ih =>
      apply ih
      have hrest := suffix_trimStart (by decide) (suffix_of_suffix_cons (by decide) h)
      rw [hmore] at hrest
      exact suffix_trimStart (by decide) (suffix_of_suffix_cons (by decide) hrest)
  | case3 rest hmore => exact h
  | case4 s hdots hsquare => exact h

theorem exists_stripArrays_append (s rest : List Char) :
    ∃ more, stripArrays (s ++ '>' :: rest) = trimStart s ++ '>' :: more := by
  have htrim : trimStart (s ++ '>' :: rest) = trimStart s ++ '>' :: rest := by
    rw [trimStart, List.dropWhile_append]
    split
    next hempty => rw [← trimStart] at hempty; rw [List.isEmpty_iff.mp hempty]; rfl
    next => rfl
  have hsuffix : '>' :: (trimStart s).reverse <:+ (trim (s ++ '>' :: rest)).reverse := by
    rw [trim, htrim, trimEnd, List.reverse_reverse, ← trimStart]
    apply suffix_trimStart (by decide)
    simp
  obtain ⟨more, hmore⟩ := suffix_dropMarks hsuffix
  refine ⟨more.reverse, ?_⟩
  rw [stripArrays, ← hmore]
  simp

/-- A declared type with arguments refers to what its innermost list says. -/
theorem baseName_congr {s t inner : List Char} (hs : innerArguments? (stripArrays s) = some inner)
    (ht : innerArguments? (stripArrays t) = some inner) : baseName s = baseName t := by
  simp only [baseName, hs, ht]

/-! ## Balanced texts -/

/-- A type as it can be written between type arguments: the angle brackets and
the square brackets of it are balanced, and it has no brackets of another kind. -/
@[mk_iff]
structure Bracketed (s : List Char) : Prop where
  angles : isBalanced '<' '>' 0 s = true
  squares : isBalanced '[' ']' 0 s = true
  plain : ∀ c ∈ s, c ∉ ['(', ')', '{', '}']

instance (s : List Char) : Decidable (Bracketed s) :=
  decidable_of_iff' _ (bracketed_iff s)

/-- Where nothing closes, nothing is open. -/
theorem notMem_opening_of_isBalanced {opening closing : Char} {s : List Char} {depth : ℕ}
    (h : isBalanced opening closing depth s = true) (hclose : closing ∉ s) :
    depth = 0 ∧ opening ∉ s := by
  fun_induction isBalanced opening closing depth s with
  | case1 depth => exact ⟨beq_iff_eq.mp h, List.not_mem_nil⟩
  | case2 depth rest ih =>
      have hzero := (ih h fun hmem => hclose (List.mem_cons_of_mem _ hmem)).1
      omega
  | case3 depth rest hne ih => exact absurd List.mem_cons_self hclose
  | case4 depth c rest hopen hne ih =>
      obtain ⟨hzero, hrest⟩ := ih h fun hmem => hclose (List.mem_cons_of_mem _ hmem)
      exact ⟨hzero, List.mem_cons.not.mpr (not_or.mpr ⟨Ne.symm hopen, hrest⟩)⟩

/-- What the first closing bracket closes was opened in front of it. -/
theorem mem_opening_of_isBalanced {opening closing : Char} {a b : List Char}
    (hne : opening ≠ closing) (h : isBalanced opening closing 0 (a ++ closing :: b) = true)
    (hclose : closing ∉ a) : opening ∈ a := by
  by_contra hopen
  rw [isBalanced_append_of_notMem hopen hclose, isBalanced, if_neg (Ne.symm hne),
    if_pos rfl] at h
  contradiction

namespace Bracketed

variable {s t : List Char}

theorem append (hs : Bracketed s) (ht : Bracketed t) : Bracketed (s ++ t) where
  angles := isBalanced_append hs.angles ht.angles
  squares := isBalanced_append hs.squares ht.squares
  plain := List.forall_mem_append.mpr ⟨hs.plain, ht.plain⟩

theorem notMem_close (h : Bracketed s) (hopen : '<' ∉ s) : '>' ∉ s := by
  intro hclose
  obtain ⟨a, b, rfl, ha⟩ := List.eq_append_cons_of_mem hclose
  have hmem := mem_opening_of_isBalanced (by decide) h.angles ha
  exact hopen (List.mem_append_left _ hmem)

theorem exists_first_close (h : Bracketed s) (hopen : '<' ∈ s) :
    ∃ a b, s = a ++ '>' :: b ∧ '<' ∈ a ∧ '>' ∉ a := by
  have hclose : '>' ∈ s := by
    by_contra hclose
    exact (notMem_opening_of_isBalanced h.angles hclose).2 hopen
  obtain ⟨a, b, rfl, ha⟩ := List.eq_append_cons_of_mem hclose
  exact ⟨a, b, rfl, mem_opening_of_isBalanced (by decide) h.angles ha, ha⟩

end Bracketed

/-- Behind a balanced text the depth is what it was in front of it, so a comma
there separates. -/
theorem exists_topLevelPieces_append {s : List Char} {angles squares : ℕ}
    (hangles : isBalanced '<' '>' angles s = true)
    (hsquares : isBalanced '[' ']' squares s = true)
    (hplain : ∀ c ∈ s, c ∉ ['(', ')', '{', '}']) (rest : List Char) :
    ∃ first front, topLevelPieces ',' (angles + squares) (s ++ ',' :: rest) =
      first :: (front ++ topLevelPieces ',' 0 rest) := by
  induction s generalizing angles squares with
  | nil =>
      simp only [isBalanced, beq_iff_eq] at hangles hsquares
      refine ⟨[], [], ?_⟩
      rw [List.nil_append, topLevelPieces, hangles, hsquares]
      rfl
  | cons c s ih =>
      obtain ⟨hc, hplain⟩ := List.forall_mem_cons.mp hplain
      obtain ⟨angles', hangles, hangles'⟩ := isBalanced_cons hangles
      obtain ⟨squares', hsquares, hsquares'⟩ := isBalanced_cons hsquares
      have hdepth : (angles + squares : ℤ) + depthChange c = angles' + squares' := by
        rw [depthChange_eq_add hc]
        omega
      obtain ⟨first, front, hpieces⟩ := ih hangles hsquares hplain
      rw [List.cons_append, topLevelPieces, hdepth, hpieces]
      by_cases hcut : c = ',' ∧ (angles' + squares' : ℤ) = 0
      · rw [if_pos (by simpa using hcut)]
        exact ⟨[], first :: front, rfl⟩
      · rw [if_neg (by simpa using hcut)]
        exact ⟨c :: first, front, rfl⟩

/-! ## Types with two arguments -/

/-- The text of a type with two arguments, such as a map. -/
def pairType (container key value : List Char) : List Char :=
  container ++ '<' :: (key ++ (", ".toList ++ (value ++ ['>'])))

/-- What a type with two arguments refers to. -/
def pairReferent (key value : List Char) : List Char :=
  if '<' ∈ key then baseName key else afterLast '.' value

variable {container key value : List Char}

theorem getLast?_splitTopLevel_append (hkey : Bracketed key) (hvalue : IsQualifiedName value) :
    (splitTopLevel ',' (key ++ (", ".toList ++ value))).getLast? = some value := by
  obtain ⟨first, front, hpieces⟩ :=
    exists_topLevelPieces_append hkey.angles hkey.squares hkey.plain (' ' :: value)
  have hwhole : Whole ',' 0 (' ' :: value) := by
    have hplain : Whole ',' 0 value := by
      simpa using Whole.append hvalue.flat (s := []) rfl
    exact hplain.append (a := [' ']) (by decide)
  have htrim : trim (' ' :: value) = value := by
    rw [← List.singleton_append, trim_blank_append (by decide), hvalue.tidy.trimmed.trim_eq]
  rw [topLevelPieces_of_whole hwhole] at hpieces
  change (((topLevelPieces ',' ((0 : ℕ) + (0 : ℕ)) (key ++ ',' :: ' ' :: value)).map
    trim).filter _).getLast? = _
  rw [hpieces, ← List.cons_append, List.map_append, List.filter_append, List.map_singleton, htrim,
    List.filter_cons_of_pos (by simp [hvalue.ne_nil])]
  simp

theorem dropBound_eq_self (h : IsQualifiedName value) {bound : String}
    (hbound : bound.toList.head? = some '?') : dropBound bound value = value := by
  have hhead : bound.toList.head? ≠ value.head? := by
    rw [hbound]
    intro heq
    have hdotted := h.all_dotted '?' (List.mem_of_mem_head? heq.symm)
    contradiction
  have hnone : bound.toList.isPrefixOf? value = none :=
    isPrefixOf?_eq_none (by rintro hnil; simp [hnil] at hbound) hhead
  rw [dropBound, hnone]

theorem trim_afterLast (h : IsQualifiedName value) :
    trim (afterLast '.' value) = afterLast '.' value := by
  have hblank : ∀ c ∈ afterLast '.' value, isBlank c = false := by
    intro c hc
    have hmem := (List.takeWhile_sublist _).mem (List.mem_reverse.mp hc)
    exact isBlank_eq_false_of_isDottedName (h.all_dotted c (List.mem_reverse.mp hmem))
  have htrimmed : Trimmed (afterLast '.' value) :=
    ⟨fun c hc => hblank c (List.mem_of_mem_head? hc),
      fun c hc => hblank c (List.mem_reverse.mp (List.mem_of_mem_head? hc))⟩
  exact htrimmed.trim_eq

/-- Once chosen, a name only loses its package. -/
theorem trim_afterLast_of_name (h : IsQualifiedName value) :
    trim (afterLast '.' (dropBound "? super " (dropBound "? extends "
      (trim (stripArrays value))))) = afterLast '.' value := by
  have hstrip : stripArrays value = value := by
    obtain ⟨init, c, rfl, hc⟩ := h.exists_last
    rw [stripArrays, h.tidy.trimmed.trim_eq, List.reverse_concat', dropMarks_cons]
    · simp
    · rintro rfl
      contradiction
    · rintro rfl
      contradiction
  rw [hstrip, h.tidy.trimmed.trim_eq, dropBound_eq_self h rfl, dropBound_eq_self h rfl,
    trim_afterLast h]

/-- In front of a bracket, the text of a container starts with no blank. -/
theorem exists_stripArrays_container (hcontainer : IsQualifiedName container)
    (s rest : List Char) :
    ∃ more, stripArrays (container ++ '<' :: s ++ '>' :: rest) =
      container ++ '<' :: s ++ '>' :: more := by
  obtain ⟨more, hmore⟩ := exists_stripArrays_append (container ++ '<' :: s) rest
  rw [trimStart_eq_self (hcontainer.tidy.stops_isBlank.append hcontainer.ne_nil _)] at hmore
  exact ⟨more, hmore⟩

theorem IsQualifiedName.notMem_close (h : IsQualifiedName container) : '>' ∉ container := by
  intro hmem
  have hdotted := h.all_dotted '>' hmem
  contradiction

/-- Behind keys without arguments the innermost list is the whole list, so its
last argument is the value. -/
theorem baseName_pairType_of_notMem (hcontainer : IsQualifiedName container)
    (hkey : Bracketed key) (hvalue : IsQualifiedName value) (hopen : '<' ∉ key) :
    baseName (pairType container key value) = afterLast '.' value := by
  have htext : pairType container key value =
      container ++ '<' :: (key ++ (", ".toList ++ value)) ++ '>' :: [] := by
    simp [pairType]
  have hvalueOpen : '<' ∉ value := fun hmem =>
    absurd (hvalue.all_dotted '<' hmem) (by decide)
  have hclose : '>' ∉ container ++ '<' :: (key ++ (", ".toList ++ value)) := by
    simp [hcontainer.notMem_close, hkey.notMem_close hopen, hvalue.notMem_close]
  obtain ⟨more, hmore⟩ :=
    exists_stripArrays_container hcontainer (key ++ (", ".toList ++ value)) []
  have hinner : innerArguments? (stripArrays (pairType container key value)) =
      some (key ++ (", ".toList ++ value)) := by
    rw [htext, hmore, innerArguments?_append (by simp) hclose, afterLast_append_cons,
      afterLast_eq_self (by simp [hopen, hvalueOpen])]
  simp only [baseName, hinner]
  rw [getLast?_splitTopLevel_append hkey hvalue, Option.getD_some, trim_afterLast_of_name hvalue]

/-- The innermost list of keys with arguments is that of the whole type. -/
theorem baseName_pairType_of_mem (hcontainer : IsQualifiedName container)
    (hkey : Bracketed key) (hopen : '<' ∈ key) (value : List Char) :
    baseName (pairType container key value) = baseName key := by
  obtain ⟨a, b, rfl, ha, hclose⟩ := hkey.exists_first_close hopen
  have hsuffix : trimStart a <:+ a := List.dropWhile_suffix isBlank
  have hstart : '<' ∈ trimStart a := by
    obtain ⟨before, after, rfl⟩ := List.append_of_mem ha
    have hafter := suffix_trimStart (by decide) (List.suffix_append before ('<' :: after))
    exact hafter.subset List.mem_cons_self
  have htext : pairType container (a ++ '>' :: b) value =
      container ++ '<' :: a ++ '>' :: (b ++ (", ".toList ++ (value ++ ['>']))) := by
    simp [pairType]
  have hcontainerClose : '>' ∉ container ++ '<' :: a := by
    simp [hcontainer.notMem_close, hclose]
  obtain ⟨more, hmore⟩ :=
    exists_stripArrays_container hcontainer a (b ++ (", ".toList ++ (value ++ ['>'])))
  obtain ⟨moreKey, hmoreKey⟩ := exists_stripArrays_append a b
  have hpair : innerArguments? (stripArrays (pairType container (a ++ '>' :: b) value)) =
      some (afterLast '<' a) := by
    rw [htext, hmore, innerArguments?_append (by simp) hcontainerClose, afterLast_append_cons]
  have halone : innerArguments? (stripArrays (a ++ '>' :: b)) = some (afterLast '<' a) := by
    rw [hmoreKey, innerArguments?_append hstart fun hmem => hclose (hsuffix.subset hmem)]
    obtain ⟨blanks, hblanks⟩ := hsuffix
    rw [← afterLast_append hstart blanks, hblanks]
  exact baseName_congr hpair halone

theorem baseName_pairType (hcontainer : IsQualifiedName container) (hkey : Bracketed key)
    (hvalue : IsQualifiedName value) :
    baseName (pairType container key value) = pairReferent key value := by
  unfold pairReferent
  split
  next hopen => exact baseName_pairType_of_mem hcontainer hkey hopen value
  next hopen => exact baseName_pairType_of_notMem hcontainer hkey hvalue hopen

/-! ### Type expressions -/

theorem IsQualifiedName.bracketed (h : IsQualifiedName value) : Bracketed value := by
  have hothers : ∀ d ∈ ['<', '>', '[', ']', '(', ')', '{', '}'], d ∉ value := fun d hd hmem =>
    Pattern.notMem_of_ok (h.all_dotted d hmem) (by decide) hd
  refine ⟨?_, ?_, fun c hc hmem => hothers c (by simp_all) hc⟩
  · exact isBalanced_of_notMem (hothers '<' (by decide)) (hothers '>' (by decide))
  · exact isBalanced_of_notMem (hothers '[' (by decide)) (hothers ']' (by decide))

theorem Bracketed.intercalate {parts : List (List Char)} (h : ∀ part ∈ parts, Bracketed part) :
    Bracketed ([',', ' '].intercalate parts) := by
  induction parts with
  | nil => exact (by decide : Bracketed [])
  | cons part rest ih =>
      obtain ⟨hpart, hrest⟩ := List.forall_mem_cons.mp h
      cases rest with
      | nil =>
          rw [List.intercalate_singleton]
          exact hpart
      | cons next more =>
          rw [List.intercalate_cons_cons, List.append_assoc]
          exact hpart.append ((by decide : Bracketed [',', ' ']).append (ih hrest))

theorem Bracketed.enclosed {s : List Char} (h : Bracketed s) :
    Bracketed ('<' :: (s ++ ['>'])) where
  angles := isBalanced_append h.angles (by decide : isBalanced '<' '>' 1 ['>'] = true)
  squares := isBalanced_append h.squares (by decide : isBalanced '[' ']' 0 ['>'] = true)
  plain := List.forall_mem_cons.mpr
    ⟨by decide, List.forall_mem_append.mpr ⟨h.plain, by decide⟩⟩

/-- Every type expression is bracketed, whatever its nesting. -/
theorem IsTypeExpression.bracketed {role : Role} {s : List Char} (h : IsTypeExpression role s) :
    Bracketed s := by
  induction h with
  | named hname => exact hname.bracketed
  | applied hname hne harguments ih =>
      exact hname.bracketed.append (Bracketed.intercalate ih).enclosed
  | array helement ih => exact ih.append (by decide)
  | exact htext ih => exact ih
  | wildcard => decide
  | upTo hbound ih => exact (by decide : Bracketed "? extends ".toList).append ih
  | downTo hbound ih => exact (by decide : Bracketed "? super ".toList).append ih

/-! ## The links of a field -/

open Inference in
/-- A type with two arguments refers to its second argument as long as the first
has no arguments of its own; otherwise it refers to what the first refers to. A
field of such a type is linked to that type if it is declared, and no field of
its name is linked to another. -/
theorem baseName_pair (hcontainer : IsQualifiedName container) (hkey : Bracketed key)
    (hvalue : IsQualifiedName value) :
    baseName (pairType container key value) = pairReferent key value ∧
      ∀ (options : Options) {model : Model}, model.Consistent → ∀ decl ∈ model.types,
        ∀ field ∈ decl.fields,
          field.declaredType = String.ofList (pairType container key value) →
          (String.ofList (pairReferent key value) ∈ model.names →
            String.ofList (pairReferent key value) ≠ decl.name →
            ∃ link ∈ infer options model, Depicts options decl.name field link ∧
              link.target = String.ofList (pairReferent key value)) ∧
          ((∀ other ∈ decl.fields, other.name = field.name → other = field) →
            ∀ link ∈ infer options model, link.kind.isStructural = true →
              link.source = decl.name → link.label = some field.name →
              link.target = String.ofList (pairReferent key value)) := by
  have hbase := baseName_pairType hcontainer hkey hvalue
  refine ⟨hbase, ?_⟩
  intro options model h decl hdecl field hfield htype
  have hreferred : referredName field.declaredType =
      String.ofList (pairReferent key value) := by
    rw [referredName, htype, String.toList_ofList, hbase]
  constructor
  · intro hmodeled hother
    have hgiven := depicts_classify options decl.name field
    refine ⟨_, ?_, hgiven, hreferred⟩
    apply ((mem_infer_and_source_iff h hdecl).mpr ?_).1
    rw [linksOf, List.mem_append, List.mem_append]
    refine Or.inl (Or.inl ?_)
    rw [fieldLinks_eq_map h]
    refine List.mem_map_of_mem (List.mem_filter.mpr ⟨hfield, ?_⟩)
    rw [hreferred]
    exact decide_eq_true ⟨hmodeled, hother⟩
  · intro hunique link hlink hstructural hsource hlabel
    have hmem : link ∈ fieldLinks options model decl := by
      rw [← structural_of_infer h hdecl, List.mem_filter]
      exact ⟨hlink, decide_eq_true ⟨hstructural, hsource⟩⟩
    rw [fieldLinks_eq_map h] at hmem
    obtain ⟨other, hother, rfl⟩ := List.mem_map.mp hmem
    have hsame := hunique other (List.mem_filter.mp hother).1 (Option.some.inj hlabel)
    rw [hsame]
    exact hreferred

/-- A catalog with a map from arrays and one from lists. -/
def catalog : Declaration where
  name := "Catalog"
  kind := .«class»
  members := [
    .field ⟨"places", "lib.Map<Item[], lib.Shelf>", .«private», false, false⟩,
    .field ⟨"groups", "Map<List<Item>, Shelf>", .«private», false, false⟩]

/-- A catalog with the types that its maps mention. -/
def depot : Model where
  name := "depot"
  types := [catalog, { name := "Item", kind := .«class» }, { name := "Shelf", kind := .«class» }]
  index := [("Shelf", 2), ("Item", 1), ("Catalog", 0)]

theorem isTypeExpression_list : IsTypeExpression .type "List<Item>".toList := by
  refine @IsTypeExpression.applied "List".toList ["Item".toList] (.name (by decide)) (by decide) ?_
  intro text htext
  rw [List.mem_singleton.mp htext]
  exact .exact (.named (.name (by decide)))

open Inference in
theorem baseName_pair_depot :
    depot.Consistent ∧
      (∃ link ∈ infer {} depot,
        Depicts {} "Catalog" ⟨"places", "lib.Map<Item[], lib.Shelf>", .«private», false, false⟩
          link ∧ link.target = "Shelf") ∧
      IsTypeExpression .type "List<Item>".toList ∧
      (∃ link ∈ infer {} depot,
        Depicts {} "Catalog" ⟨"groups", "Map<List<Item>, Shelf>", .«private», false, false⟩
          link ∧ link.target = "Item") ∧
      ∀ link ∈ infer {} depot, link.kind.isStructural = true → link.source = "Catalog" →
        link.label = some "groups" → link.target = "Item" := by
  have hconsistent : depot.Consistent :=
    ⟨@indexes_indexOf depot.types (by decide), by simp [depot]⟩
  have hmap : IsQualifiedName "Map".toList := .name (by decide)
  have hshelf : IsQualifiedName "Shelf".toList := .name (by decide)
  have hlib : IsName "lib".toList := by decide
  obtain ⟨-, hlinks⟩ := @baseName_pair _ "Item[]".toList _ (.dotted hlib hmap) (by decide)
    (.dotted hlib hshelf)
  have harray := hlinks {} hconsistent catalog (by simp [depot])
    ⟨"places", "lib.Map<Item[], lib.Shelf>", .«private», false, false⟩ (by decide) (by decide)
  obtain ⟨-, hlinks⟩ := baseName_pair hmap isTypeExpression_list.bracketed hshelf
  have hlist := hlinks {} hconsistent catalog (by simp [depot])
    ⟨"groups", "Map<List<Item>, Shelf>", .«private», false, false⟩ (by decide) (by decide)
  have hitem : String.ofList (pairReferent "List<Item>".toList "Shelf".toList) = "Item" := by
    decide +kernel
  rw [hitem] at hlist
  exact ⟨hconsistent, harray.1 (by decide) (by decide), isTypeExpression_list,
    hlist.1 (by decide) (by decide), hlist.2 (by decide)⟩

/-- A map from lists does not refer to its values. -/
theorem map_of_lists_refers_to_items :
    ¬∀ container key value : List Char, IsQualifiedName container → IsTypeExpression .type key →
      IsQualifiedName value →
      baseName (pairType container key value) = afterLast '.' value := by
  intro hall
  have hvalue := hall "Map".toList "List<Item>".toList "Shelf".toList (.name (by decide))
    isTypeExpression_list (.name (by decide))
  revert hvalue
  decide +kernel

end TypeText

end ClassAtlas
