import ClassAtlas.Proofs.Interchange.AttributeValues

/-!
# Elements are readable in one way

The text of an element determines the element, together with what follows it.
Its name and its keys end where a character comes that they do not have, its
values at a quotation mark, which they are written without, and a list of
children ends at the first line that is not indented further than its parent.
-/

namespace ClassAtlas.Interchange.Element

open ClassAtlas.Text

/-- A name of an element or a key of an attribute: a text without blanks and
signs of markup. -/
structure IsTag (s : String) : Prop where
  filled : s ≠ ""
  plain : ∀ c ∈ s.toList, isBlank c = false ∧ c ∉ ['<', '>', '/', '=', '"']

/-- All names and keys, in an element and below it, are tags. The values are
any texts. -/
inductive Tagged : Element → Prop where
  | node {name : String} {attributes : List (String × String)} {children : List Element}
    (hname : IsTag name) (hkeys : ∀ item ∈ attributes, IsTag item.1)
    (hchildren : ∀ child ∈ children, Tagged child) : Tagged (node name attributes children)

theorem IsTag.notMem {s : String} (h : IsTag s) {c : Char} (hc : c ∈ ['<', '>', '/', '=', '"']) :
    c ∉ s.toList :=
  fun hmem => (h.plain c hmem).2 hc

/-- A character that ends a tag wherever it stands. -/
def inTag (c : Char) : Bool :=
  !isBlank c && !(['<', '>', '/', '=', '"'].contains c)

theorem IsTag.all_inTag {s : String} (h : IsTag s) : ∀ c ∈ s.toList, inTag c = true := by
  intro c hc
  obtain ⟨hblank, hsign⟩ := h.plain c hc
  simp [inTag, hblank, hsign]

/-! ## Attributes -/

/-- The attributes as written. -/
def attributeChars (attributes : List (String × String)) : List Char :=
  attributes.flatMap fun (key, value) =>
    ' ' :: (key.toList ++ '=' :: '"' :: ((escape value).toList ++ ['"']))

theorem toList_renderAttributes (attributes : List (String × String)) :
    (renderAttributes attributes).toList = attributeChars attributes := by
  rw [renderAttributes, String.toList_join]
  simp [attributeChars, List.flatMap_map]

theorem attributeChars_cons_append (key value : String) (attributes : List (String × String))
    (s : List Char) : attributeChars ((key, value) :: attributes) ++ s =
      ' ' :: (key.toList ++ '=' :: '"' :: ((escape value).toList ++
        '"' :: (attributeChars attributes ++ s))) := by
  simp [attributeChars]

theorem eq_of_attributeChars_append {attributes others : List (String × String)}
    (hkeys : ∀ item ∈ attributes, IsTag item.1) (hothers : ∀ item ∈ others, IsTag item.1)
    {s t : List Char} (hs : s.head? ≠ some ' ') (ht : t.head? ≠ some ' ')
    (h : attributeChars attributes ++ s = attributeChars others ++ t) :
    attributes = others ∧ s = t := by
  induction attributes generalizing others with
  | nil =>
      cases others with
      | nil => exact ⟨rfl, h⟩
      | cons other others => exact absurd (congrArg List.head? h) hs
  | cons first attributes ih =>
      obtain ⟨key, value⟩ := first
      cases others with
      | nil => exact absurd (congrArg List.head? h).symm ht
      | cons other others =>
          obtain ⟨key', value'⟩ := other
          obtain ⟨hkey, hkeys⟩ := List.forall_mem_cons.mp hkeys
          obtain ⟨hkey', hothers⟩ := List.forall_mem_cons.mp hothers
          have hquote := fun value => notMem_escape value (c := '"') (by decide)
          rw [attributeChars_cons_append, attributeChars_cons_append] at h
          obtain ⟨hname, h⟩ := eq_and_eq_of_append_cons (hkey.notMem (by decide))
            (hkey'.notMem (by decide)) (List.cons.inj h).2
          obtain ⟨hvalue, h⟩ := eq_and_eq_of_append_cons (hquote value) (hquote value')
            (List.cons.inj h).2
          obtain ⟨rfl, hrest⟩ := ih hkeys hothers h
          obtain rfl : key = key' := String.toList_inj.mp hname
          obtain rfl := escape_inj.mp (String.toList_inj.mp hvalue)
          exact ⟨rfl, hrest⟩

/-! ## Elements -/

/-- What stands behind the attributes of an element. -/
def bodyChars (depth : ℕ) (name : String) (children : List Element) : List Char :=
  if children = [] then ['/', '>', '\n']
  else '>' :: '\n' :: ((renderAll (depth + 1) children).toList ++
    ((indentation depth).toList ++ '<' :: '/' :: (name.toList ++ ['>', '\n'])))

theorem toList_render (depth : ℕ) (name : String) (attributes : List (String × String))
    (children : List Element) :
    (render depth (node name attributes children)).toList =
      (indentation depth).toList ++ '<' :: (name.toList ++
        (attributeChars attributes ++ bodyChars depth name children)) := by
  cases children with
  | nil => simp [render, bodyChars, toList_renderAttributes]
  | cons child more => simp [render, renderAll, bodyChars, toList_renderAttributes]

theorem toList_renderAll_cons (depth : ℕ) (element : Element) (rest : List Element) :
    (renderAll depth (element :: rest)).toList =
      (render depth element).toList ++ (renderAll depth rest).toList := by
  rw [renderAll, String.toList_append]

theorem head?_bodyChars (depth : ℕ) (name : String) (children : List Element) (s : List Char) :
    (bodyChars depth name children ++ s).head? = some '/' ∨
      (bodyChars depth name children ++ s).head? = some '>' := by
  unfold bodyChars
  split
  · exact Or.inl rfl
  · exact Or.inr rfl

theorem stops_inTag (attributes : List (String × String)) (depth : ℕ) (name : String)
    (children : List Element) (s : List Char) :
    Stops inTag (attributeChars attributes ++ (bodyChars depth name children ++ s)) := by
  cases attributes with
  | nil =>
      intro c hc
      rcases head?_bodyChars depth name children s with hhead | hhead
      · obtain rfl := Option.some.inj (hc.symm.trans hhead)
        decide
      · obtain rfl := Option.some.inj (hc.symm.trans hhead)
        decide
  | cons first more => exact stops_cons.mpr (by decide)

theorem indentation_succ (depth : ℕ) (s : List Char) :
    (indentation (depth + 1)).toList ++ s =
      (indentation depth).toList ++ ' ' :: ' ' :: s := by
  have hlength : 2 * (depth + 1) = 2 * depth + 2 := by omega
  simp only [indentation, String.toList_ofList]
  rw [hlength, ← List.replicate_append_replicate, List.append_assoc]
  rfl

/-- A child is indented further than the end of its parent. -/
theorem render_append_ne (depth : ℕ) (element : Element) (s t : List Char) :
    (render (depth + 1) element).toList ++ s ≠ (indentation depth).toList ++ '<' :: t := by
  obtain ⟨name, attributes, children⟩ := element
  rw [toList_render, List.append_assoc, indentation_succ, ne_eq, List.append_cancel_left_eq]
  simp

theorem bodyChars_append (depth : ℕ) (name : String) {children : List Element}
    (hne : children ≠ []) (s : List Char) : bodyChars depth name children ++ s =
      '>' :: '\n' :: ((renderAll (depth + 1) children).toList ++
        ((indentation depth).toList ++ '<' :: '/' :: (name.toList ++ '>' :: '\n' :: s))) := by
  simp [bodyChars, hne]

/-- A name and the attributes behind it end where the body starts. -/
theorem eq_of_start {name name' : String} {attributes attributes' : List (String × String)}
    {children children' : List Element} {depth : ℕ} {s t : List Char} (hname : IsTag name)
    (hname' : IsTag name') (hkeys : ∀ item ∈ attributes, IsTag item.1)
    (hkeys' : ∀ item ∈ attributes', IsTag item.1)
    (h : (render depth (node name attributes children)).toList ++ s =
      (render depth (node name' attributes' children')).toList ++ t) :
    name = name' ∧ attributes = attributes' ∧
      bodyChars depth name children ++ s = bodyChars depth name' children' ++ t := by
  simp only [toList_render, List.append_assoc, List.append_cancel_left_eq, List.cons_append,
    List.cons.injEq, true_and] at h
  have hsame := eq_of_append_eq_append hname.all_inTag hname'.all_inTag
    (stops_inTag attributes depth name children s)
    (stops_inTag attributes' depth name' children' t) h
  have hspace : ∀ (name : String) (children : List Element) (s : List Char),
      (bodyChars depth name children ++ s).head? ≠ some ' ' := by
    intro name children s
    rcases head?_bodyChars depth name children s with hhead | hhead <;> simp [hhead]
  rw [hsame, List.append_cancel_left_eq] at h
  exact ⟨String.toList_inj.mp hsame,
    eq_of_attributeChars_append hkeys hkeys' (hspace _ _ _) (hspace _ _ _) h⟩

mutual

/-- Two elements whose texts begin alike are the same, and so is what follows
them. -/
theorem eq_of_render_append : ∀ (element other : Element) (depth : ℕ) (s t : List Char),
    element.Tagged → other.Tagged →
    (render depth element).toList ++ s = (render depth other).toList ++ t →
    element = other ∧ s = t
  | node name attributes children, node name' attributes' children', depth, s, t,
      .node hname hkeys hchildren, .node hname' hkeys' hchildren', h => by
      obtain ⟨rfl, rfl, hbody⟩ := eq_of_start hname hname' hkeys hkeys' h
      by_cases hempty : children = []
      · by_cases hempty' : children' = []
        · subst hempty hempty'
          exact ⟨rfl, List.append_cancel_left hbody⟩
        · rw [bodyChars_append depth name hempty'] at hbody
          simp [bodyChars, hempty] at hbody
      · by_cases hempty' : children' = []
        · rw [bodyChars_append depth name hempty] at hbody
          simp [bodyChars, hempty'] at hbody
        · rw [bodyChars_append depth name hempty, bodyChars_append depth name hempty'] at hbody
          obtain ⟨rfl, hend⟩ := eq_of_renderAll_append children children' depth _ _ hchildren
            hchildren' (by simpa using hbody)
          exact ⟨rfl, by simpa using hend⟩

/-- A list of children ends where its parent does. -/
theorem eq_of_renderAll_append : ∀ (elements others : List Element) (depth : ℕ)
    (s t : List Char), (∀ element ∈ elements, element.Tagged) →
    (∀ other ∈ others, other.Tagged) →
    (renderAll (depth + 1) elements).toList ++ ((indentation depth).toList ++ '<' :: s) =
      (renderAll (depth + 1) others).toList ++ ((indentation depth).toList ++ '<' :: t) →
    elements = others ∧ s = t
  | [], [], depth, s, t, _, _, h => by
      exact ⟨rfl, by simpa using h⟩
  | [], other :: others, depth, s, t, _, _, h => by
      rw [toList_renderAll_cons, List.append_assoc] at h
      exact absurd h.symm (render_append_ne depth other _ s)
  | element :: elements, [], depth, s, t, _, _, h => by
      rw [toList_renderAll_cons, List.append_assoc] at h
      exact absurd h (render_append_ne depth element _ t)
  | element :: elements, other :: others, depth, s, t, htagged, htagged', h => by
      obtain ⟨helement, helements⟩ := List.forall_mem_cons.mp htagged
      obtain ⟨hother, hothers⟩ := List.forall_mem_cons.mp htagged'
      rw [toList_renderAll_cons, toList_renderAll_cons, List.append_assoc, List.append_assoc] at h
      obtain ⟨rfl, hmore⟩ := eq_of_render_append element other (depth + 1) _ _ helement hother h
      obtain ⟨rfl, hend⟩ := eq_of_renderAll_append elements others depth s t helements hothers hmore
      exact ⟨rfl, hend⟩

end

/-- The text of an element determines the element. Attribute values are written
without a sign of markup, as five replacements in turn, and replacing the
entities back gives the value. -/
theorem render_injective :
    (∀ (depth : ℕ) (element other : Element), element.Tagged → other.Tagged →
      render depth element = render depth other → element = other) ∧
    Function.Injective escape ∧
    ∀ value : String, (∀ c ∈ ['<', '>', '"', '\''], c ∉ (escape value).toList) ∧
      (escape value).toList = encodeInTurn entities value.toList ∧
      decodeInTurn entities (escape value).toList = value.toList := by
  refine ⟨?_, fun value other => escape_inj.mp, ?_⟩
  · intro depth element other helement hother h
    exact (eq_of_render_append element other depth [] [] helement hother (by rw [h])).1
  · intro value
    exact ⟨fun c hc => notMem_escape value hc, toList_escape_eq_encodeInTurn value,
      decodeInTurn_escape value⟩

/-- A value that reads like the end of its element and a child is not taken for
them. -/
theorem render_ne_of_value_like_markup :
    let child := node "b" [("y", "")] []
    let nested := node "a" [("x", "1")] [child]
    let flat := node "a" [("x", "1\">\n  <b y=\"")] []
    nested.Tagged ∧ flat.Tagged ∧ render 0 nested ≠ render 0 flat := by
  have hchild : (node "b" [("y", "")] []).Tagged :=
    .node ⟨by decide, by decide⟩ (by simpa using ⟨by decide, by decide⟩) (by simp)
  have hnested : (node "a" [("x", "1")] [node "b" [("y", "")] []]).Tagged :=
    .node ⟨by decide, by decide⟩ (by simpa using ⟨by decide, by decide⟩) (by simpa using hchild)
  have hflat : (node "a" [("x", "1\">\n  <b y=\"")] []).Tagged :=
    .node ⟨by decide, by decide⟩ (by simpa using ⟨by decide, by decide⟩) (by simp)
  exact ⟨hnested, hflat, fun h => absurd (render_injective.1 0 _ _ hnested hflat h) (by simp)⟩

end ClassAtlas.Interchange.Element
