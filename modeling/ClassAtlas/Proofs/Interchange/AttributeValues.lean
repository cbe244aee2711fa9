import ClassAtlas.Interchange.Element
import ClassAtlas.Proofs.Text.Cutting

/-!
# Attribute values

Five characters of an attribute value are written as entities. All entities are
an ampersand, a name and a semicolon, so replacing the characters one after
another, the ampersand first, gives the same text as replacing them all at once.
Replacing the entities back in the opposite order gives the value again: as long
as the ampersand is among the characters that are still replaced, every
ampersand of the text starts an entity.
-/

namespace ClassAtlas.Interchange.Element

open ClassAtlas.Text

/-! ## Replacing in turn -/

/-- The text with every copy of a character replaced. -/
def replaceChar (c : Char) (new s : List Char) : List Char :=
  s.flatMap fun d => if d = c then new else [d]

/-- The text behind its first characters, with every copy of a part replaced,
the leftmost first. -/
def replacePart (part new : List Char) : ℕ → List Char → List Char
  | _, [] => []
  | skipped + 1, _ :: rest => replacePart part new skipped rest
  | 0, c :: rest =>
    if part.isPrefixOf (c :: rest) then new ++ replacePart part new (part.length - 1) rest
    else c :: replacePart part new 0 rest

/-- A character and the name of its entity. -/
abbrev Entity := Char × List Char

/-- The entity of a name as written. -/
def entityText (name : List Char) : List Char :=
  '&' :: (name ++ [';'])

/-- The five entities, in the order in which their characters are replaced. -/
def entities : List Entity :=
  [('&', "amp".toList), ('<', "lt".toList), ('>', "gt".toList), ('"', "quot".toList),
    ('\'', "apos".toList)]

/-- The text with the characters of the entities replaced, one entity after
another. -/
def encodeInTurn (table : List Entity) (s : List Char) : List Char :=
  table.foldl (fun s entity => replaceChar entity.1 (entityText entity.2) s) s

/-- The text with the entities replaced by their characters, the last entity
first. -/
def decodeInTurn (table : List Entity) (s : List Char) : List Char :=
  table.foldr (fun entity s => replacePart (entityText entity.2) [entity.1] 0 s) s

/-- A character as written with all entities of a table. -/
def encodeChar (table : List Entity) (c : Char) : List Char :=
  match table.find? (·.1 == c) with
  | some entity => entityText entity.2
  | none => [c]

/-- What an entity needs to be replaced behind others: a name of its own without
the two signs of entities, and a character that none of them replaces or
writes. The ampersand is replaced before any other character. -/
structure Fresh (table : List Entity) (entity : Entity) : Prop where
  name : '&' ∉ entity.2 ∧ ';' ∉ entity.2
  others : ∀ other ∈ table,
    other.1 ≠ entity.1 ∧ other.2 ≠ entity.2 ∧ entity.1 ∉ entityText other.2
  ampersand : ∃ other ∈ table ++ [entity], other.1 = '&'

/-- Tables whose entities can be replaced one after another. -/
inductive Separable : List Entity → Prop where
  | nil : Separable []
  | concat {table : List Entity} {entity : Entity} (htable : Separable table)
    (hfresh : Fresh table entity) : Separable (table ++ [entity])

theorem separable_entities : Separable entities := by
  have hamp : Fresh [] ('&', "amp".toList) := ⟨by decide, by decide, by simp⟩
  have hlt : Fresh [('&', "amp".toList)] ('<', "lt".toList) :=
    ⟨by decide, by decide, by simp⟩
  have hgt : Fresh [('&', "amp".toList), ('<', "lt".toList)] ('>', "gt".toList) :=
    ⟨by decide, by decide, by simp⟩
  have hquot : Fresh [('&', "amp".toList), ('<', "lt".toList), ('>', "gt".toList)]
      ('"', "quot".toList) := ⟨by decide, by decide, by simp⟩
  have hapos : Fresh [('&', "amp".toList), ('<', "lt".toList), ('>', "gt".toList),
      ('"', "quot".toList)] ('\'', "apos".toList) := ⟨by decide, by decide, by simp⟩
  exact ((((Separable.nil.concat hamp).concat hlt).concat hgt).concat hquot).concat hapos

theorem escapeChar_eq (c : Char) : escapeChar c = encodeChar entities c := by
  by_cases hspecial : c ∈ ['&', '<', '>', '"', '\'']
  · revert c
    decide
  · have hchars : ∀ entity ∈ entities, entity.1 ∈ ['&', '<', '>', '"', '\''] := by decide
    have hnone : entities.find? (·.1 == c) = none := by
      rw [List.find?_eq_none]
      intro entity hentity heq
      exact hspecial (beq_iff_eq.mp heq ▸ hchars entity hentity)
    simp only [List.mem_cons, List.not_mem_nil, or_false, not_or] at hspecial
    simp [escapeChar, encodeChar, hnone, hspecial]

theorem Separable.name {table : List Entity} (h : Separable table) :
    ∀ entity ∈ table, '&' ∉ entity.2 ∧ ';' ∉ entity.2 := by
  induction h with
  | nil => simp
  | concat htable hfresh ih =>
      exact List.forall_mem_append.mpr ⟨ih, by simpa using hfresh.name⟩

/-- With one more entity, a character is written as before, or by that entity. -/
theorem encodeChar_concat (table : List Entity) (entity : Entity) (c : Char) :
    (∃ other ∈ table, other.1 = c ∧ encodeChar table c = entityText other.2 ∧
        encodeChar (table ++ [entity]) c = entityText other.2) ∨
      (encodeChar table c = [c] ∧ (∀ other ∈ table, other.1 ≠ c) ∧
        encodeChar (table ++ [entity]) c = if entity.1 = c then entityText entity.2 else [c]) := by
  unfold encodeChar
  rw [List.find?_append]
  cases hfound : table.find? (·.1 == c) with
  | some other =>
      have hchar : other.1 = c := by simpa using List.find?_some hfound
      exact Or.inl ⟨other, List.mem_of_find?_eq_some hfound, hchar, rfl, rfl⟩
  | none =>
      refine Or.inr ⟨rfl, by simpa using hfound, ?_⟩
      by_cases hchar : entity.1 = c <;> simp [hchar]

/-! ### Characters by entities -/

theorem replaceChar_of_notMem {c : Char} {new s : List Char} (h : c ∉ s) :
    replaceChar c new s = s := by
  induction s with
  | nil => rfl
  | cons d s ih =>
      obtain ⟨hne, hs⟩ := not_or.mp (List.mem_cons.not.mp h)
      have hd : replaceChar c new (d :: s) = (if d = c then new else [d]) ++ replaceChar c new s :=
        List.flatMap_cons
      rw [hd, if_neg (Ne.symm hne), ih hs]
      rfl

theorem replaceChar_encodeChar {table : List Entity} {entity : Entity} (h : Fresh table entity)
    (c : Char) : replaceChar entity.1 (entityText entity.2) (encodeChar table c) =
      encodeChar (table ++ [entity]) c := by
  rcases encodeChar_concat table entity c with ⟨other, hother, -, htable, hmore⟩ |
    ⟨htable, -, hmore⟩
  · rw [htable, hmore]
    exact replaceChar_of_notMem (h.others other hother).2.2
  · rw [htable, hmore]
    simp [replaceChar, eq_comm]

theorem encodeInTurn_concat (table : List Entity) (entity : Entity) (s : List Char) :
    encodeInTurn (table ++ [entity]) s =
      replaceChar entity.1 (entityText entity.2) (encodeInTurn table s) := by
  rw [encodeInTurn, List.foldl_append]
  rfl

/-- Replacing in turn replaces all characters at once. -/
theorem encodeInTurn_eq {table : List Entity} (h : Separable table) (s : List Char) :
    encodeInTurn table s = s.flatMap (encodeChar table) := by
  induction h with
  | nil => exact (List.flatMap_singleton' s).symm
  | concat htable hfresh ih =>
      rw [encodeInTurn_concat, ih, replaceChar, List.flatMap_assoc]
      exact congrArg (List.flatMap · s) (funext fun c => replaceChar_encodeChar hfresh c)

/-! ### Entities by characters -/

section

variable {name new : List Char}

theorem replacePart_skip (part a rest : List Char) :
    replacePart part new a.length (a ++ rest) = replacePart part new 0 rest := by
  induction a with
  | nil => rfl
  | cons c a ih => exact ih

theorem replacePart_self (rest : List Char) :
    replacePart (entityText name) new 0 (entityText name ++ rest) =
      new ++ replacePart (entityText name) new 0 rest := by
  have hstart : (entityText name).isPrefixOf (entityText name ++ rest) = true :=
    List.isPrefixOf_iff_prefix.mpr (List.prefix_append (entityText name) rest)
  rw [entityText, List.cons_append] at hstart ⊢
  rw [replacePart, if_pos hstart]
  exact congrArg (new ++ ·) (replacePart_skip _ (name ++ [';']) rest)

theorem replacePart_plain {a : List Char} (h : '&' ∉ a) (rest : List Char) :
    replacePart (entityText name) new 0 (a ++ rest) =
      a ++ replacePart (entityText name) new 0 rest := by
  induction a with
  | nil => rfl
  | cons c a ih =>
      obtain ⟨hne, ha⟩ := not_or.mp (List.mem_cons.not.mp h)
      have hstart : (entityText name).isPrefixOf (c :: (a ++ rest)) = false := by
        simp [entityText, List.isPrefixOf, hne]
      rw [List.cons_append, replacePart, hstart, if_neg (by decide), ih ha]
      rfl

theorem replacePart_other {other : List Char} (hne : other ≠ name)
    (hname : ';' ∉ name) (hother : '&' ∉ other ∧ ';' ∉ other) (rest : List Char) :
    replacePart (entityText name) new 0 (entityText other ++ rest) =
      entityText other ++ replacePart (entityText name) new 0 rest := by
  have htext : entityText other ++ rest = '&' :: (other ++ ';' :: rest) := by simp [entityText]
  have hstart : (entityText name).isPrefixOf ('&' :: (other ++ ';' :: rest)) = false := by
    rw [Bool.eq_false_iff, ne_eq, List.isPrefixOf_iff_prefix]
    rintro ⟨more, hmore⟩
    have hsame : name ++ [';'] ++ more = other ++ ';' :: rest := (List.cons.inj hmore).2
    rw [List.append_assoc] at hsame
    exact hne (eq_and_eq_of_append_cons hname hother.2 hsame).1.symm
  have hplain : '&' ∉ other ++ [';'] := by simpa using hother.1
  rw [htext, replacePart, hstart, if_neg (by decide), List.append_cons other,
    replacePart_plain hplain]
  rfl

theorem replacePart_encodeChar {table : List Entity} {entity : Entity}
    (htable : Separable table) (h : Fresh table entity) (c : Char) (rest : List Char) :
    replacePart (entityText entity.2) [entity.1] 0 (encodeChar (table ++ [entity]) c ++ rest) =
      encodeChar table c ++ replacePart (entityText entity.2) [entity.1] 0 rest := by
  rcases encodeChar_concat table entity c with ⟨other, hother, -, hold, hnew⟩ |
    ⟨hold, hnone, hnew⟩
  · rw [hold, hnew]
    exact replacePart_other (h.others other hother).2.1 h.name.2 (htable.name other hother) rest
  · rw [hold, hnew]
    split
    next hchar =>
      rw [replacePart_self, hchar]
    next hchar =>
      -- the ampersand is written as an entity, so it is not this character
      refine replacePart_plain ?_ rest
      obtain ⟨other, hother, hamp⟩ := h.ampersand
      rw [List.mem_singleton]
      rintro rfl
      rcases List.mem_append.mp hother with hmem | hmem
      · exact hnone other hmem hamp
      · rw [List.mem_singleton.mp hmem] at hamp
        exact hchar hamp

theorem decodeInTurn_concat (table : List Entity) (entity : Entity) (s : List Char) :
    decodeInTurn (table ++ [entity]) s =
      decodeInTurn table (replacePart (entityText entity.2) [entity.1] 0 s) := by
  rw [decodeInTurn, List.foldr_append]
  rfl

/-- Replacing the entities back in the opposite order gives the text again. -/
theorem decodeInTurn_flatMap {table : List Entity} (h : Separable table) (s : List Char) :
    decodeInTurn table (s.flatMap (encodeChar table)) = s := by
  induction h with
  | nil => exact List.flatMap_singleton' s
  | @concat table entity htable hfresh ih =>
      have hstep : replacePart (entityText entity.2) [entity.1] 0
          (s.flatMap (encodeChar (table ++ [entity]))) = s.flatMap (encodeChar table) := by
        clear ih
        induction s with
        | nil => rfl
        | cons c s ih =>
            rw [List.flatMap_cons, List.flatMap_cons, replacePart_encodeChar htable hfresh, ih]
      rw [decodeInTurn_concat, hstep, ih]

end

/-! ## Attribute values -/

theorem toList_escape (value : String) :
    (escape value).toList = value.toList.flatMap (encodeChar entities) := by
  rw [escape, String.toList_ofList]
  exact congrArg (List.flatMap · value.toList) (funext escapeChar_eq)

theorem toList_escape_eq_encodeInTurn (value : String) :
    (escape value).toList = encodeInTurn entities value.toList := by
  rw [encodeInTurn_eq separable_entities, toList_escape]

theorem decodeInTurn_escape (value : String) :
    decodeInTurn entities (escape value).toList = value.toList := by
  rw [toList_escape, decodeInTurn_flatMap separable_entities]

theorem escape_inj {value other : String} : escape value = escape other ↔ value = other := by
  constructor
  · intro h
    rw [← String.toList_inj, ← decodeInTurn_escape value, h, decodeInTurn_escape]
  · rintro rfl
    rfl

/-- No sign of markup is left in a value as written. -/
theorem notMem_escape (value : String) {c : Char} (hc : c ∈ ['<', '>', '"', '\'']) :
    c ∉ (escape value).toList := by
  have hnames : ∀ entity ∈ entities, ∀ d ∈ ['<', '>', '"', '\''], d ∉ entityText entity.2 := by
    decide
  have hchars : ∀ d ∈ ['<', '>', '"', '\''], ∃ entity ∈ entities, entity.1 = d := by decide
  rw [toList_escape, List.mem_flatMap]
  rintro ⟨d, -, hmem⟩
  unfold encodeChar at hmem
  split at hmem
  next entity hfound => exact hnames entity (List.mem_of_find?_eq_some hfound) c hc hmem
  next hnone =>
    obtain ⟨entity, hentity, hchar⟩ := hchars c hc
    rw [List.mem_singleton.mp hmem] at hchar
    exact List.find?_eq_none.mp hnone entity hentity (beq_iff_eq.mpr hchar)

end ClassAtlas.Interchange.Element
