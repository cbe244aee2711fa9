import ClassAtlas.Proofs.Diagram.LinkLines

/-!
# What a link line can say

A link line gives back the relationship that it was written for, whatever kind
it has, as long as its label is one line of text and its multiplicity has no
quotation mark. No line at all is read as any other relationship: a label is
what follows the colon up to the end of the line, a multiplicity is what stands
between two quotation marks, and both are trimmed. So the condition on the two
texts says exactly which relationships a link line can say.
-/

namespace ClassAtlas.Diagram

open ClassAtlas.Text Pattern

/-! ## The texts that are read off a line -/

theorem eq_trim_of_filled? {part : Option (List Char)} {text : String}
    (h : filled? part = some text) :
    ∃ raw, part = some raw ∧ text.toList = trim raw ∧ trim raw ≠ [] := by
  unfold filled? at h
  split at h
  next => contradiction
  next => contradiction
  next shown hne hpart =>
    obtain ⟨raw, rfl, rfl⟩ := Option.map_eq_some_iff.mp hpart
    obtain rfl := Option.some.inj h
    exact ⟨raw, rfl, String.toList_ofList, fun hempty => hne (by rw [hempty])⟩

/-- What is taken of a text without a character is without it as well. -/
theorem notMem_of_filled? {part : Option (List Char)} {text : String} {c : Char}
    (h : filled? part = some text) (hpart : ∀ raw ∈ part, c ∉ raw) :
    text.toList ≠ [] ∧ Trimmed text.toList ∧ c ∉ text.toList := by
  obtain ⟨raw, rfl, htext, hne⟩ := eq_trim_of_filled? h
  rw [htext]
  exact ⟨hne, trimmed_trim raw, fun hmem => hpart raw rfl (mem_of_mem_trim hmem)⟩

theorem text_of_afterColon {s rest : List Char} {value : Option Span}
    (h : (value, rest) ∈ afterColon.optional.readings s) :
    ∀ raw ∈ value.map Span.text, '\n' ∉ raw := by
  intro raw hraw
  obtain ⟨span, rfl, rfl⟩ := Option.map_eq_some_iff.mp hraw
  rcases mem_readings_optional.mp h with ⟨span', heq, hmem⟩ | ⟨hnone, -⟩
  · obtain rfl := Option.some.inj heq
    obtain ⟨_, s₁, -, hmem⟩ := mem_readings_bind.mp hmem
    obtain ⟨_, s₂, -, hrun⟩ := mem_readings_bind.mp hmem
    obtain ⟨text, -, rfl, hline, rfl⟩ := mem_readings_run1.mp hrun
    rw [text_span_append]
    exact forall_inLine_iff.mp hline
  · contradiction

theorem text_of_linkMultiplicity {s rest : List Char} {value : Option Span}
    (h : (value, rest) ∈ linkMultiplicity.optional.readings s) :
    ∀ raw ∈ value.map Span.text, '"' ∉ raw := by
  intro raw hraw
  obtain ⟨span, rfl, rfl⟩ := Option.map_eq_some_iff.mp hraw
  rcases mem_readings_optional.mp h with ⟨span', heq, hmem⟩ | ⟨hnone, -⟩
  · obtain rfl := Option.some.inj heq
    obtain ⟨_, s₁, -, hmem⟩ := mem_readings_bind.mp hmem
    obtain ⟨_, s₂, hrun, hmem⟩ := mem_readings_bind.mp hmem
    obtain ⟨_, s₃, -, hmem⟩ := mem_readings_bind.mp hmem
    obtain ⟨_, s₄, -, hmem⟩ := mem_readings_bind.mp hmem
    obtain ⟨rfl, -⟩ := mem_readings_pure.mp hmem
    obtain ⟨rfl, _, hskip⟩ := mem_readings_taken.mp hrun
    obtain ⟨text, rfl, hinside⟩ := mem_readings_skip.mp hskip
    rw [text_span_append]
    exact forall_noneOf_iff.mp hinside
  · contradiction

theorem texts_of_linkLine {line rest : List Char} {parts : LinkParts}
    (h : (parts, rest) ∈ linkLine.readings line) :
    (∀ raw ∈ parts.label, '\n' ∉ raw) ∧ ∀ raw ∈ parts.multiplicity, '"' ∉ raw := by
  obtain ⟨_, s₁, -, h⟩ := mem_readings_bind.mp h
  obtain ⟨_, s₂, -, h⟩ := mem_readings_bind.mp h
  obtain ⟨_, s₃, -, h⟩ := mem_readings_bind.mp h
  obtain ⟨_, s₄, -, h⟩ := mem_readings_bind.mp h
  obtain ⟨_, s₅, -, h⟩ := mem_readings_bind.mp h
  obtain ⟨multiplicity, s₆, hmultiplicity, h⟩ := mem_readings_bind.mp h
  obtain ⟨_, s₇, -, h⟩ := mem_readings_bind.mp h
  obtain ⟨_, s₈, -, h⟩ := mem_readings_bind.mp h
  obtain ⟨label, s₉, hlabel, h⟩ := mem_readings_bind.mp h
  obtain ⟨_, s₁₀, -, h⟩ := mem_readings_bind.mp h
  obtain ⟨rfl, -⟩ := mem_readings_pure.mp h
  exact ⟨text_of_afterColon hlabel, text_of_linkMultiplicity hmultiplicity⟩

/-! ## The relationships of link lines -/

/-- Between names, every relationship that any line states can be written. -/
theorem writable_of_link? {line : List Char} {link : Relationship}
    (hsource : IsName link.source.toList) (htarget : IsName link.target.toList)
    (h : link? line = some link) : Writable link := by
  obtain ⟨⟨parts, rest⟩, hfirst, hbuilt⟩ := Option.bind_eq_some_iff.mp h
  obtain ⟨hline, hquote⟩ := texts_of_linkLine (mem_readings_of_first? hfirst)
  obtain rfl := Option.some.inj hbuilt
  refine ⟨hsource, htarget, fun text htext => notMem_of_filled? htext hline, ?_⟩
  intro text htext
  cases hkind : isSupertypeKind parts.arrow.kind with
  | true =>
      rw [hkind] at htext
      contradiction
  | false =>
      rw [hkind] at htext
      obtain ⟨hne, htrimmed, hnotMem⟩ := notMem_of_filled? htext hquote
      exact ⟨hne, htrimmed, hnotMem, rfl⟩

/-- Between names, a link line gives its relationship back exactly if the label
is a filled and trimmed text on one line, and the multiplicity one without
quotation marks that supertypes do not have. -/
theorem link?_linkText_iff {link : Relationship} (hsource : IsName link.source.toList)
    (htarget : IsName link.target.toList) :
    link? (linkText link).toList = some link ↔ Writable link := by
  constructor
  · exact writable_of_link? hsource htarget
  · exact link?_linkText

/-- A label that looks like the rest of another link, and a multiplicity that
looks like its beginning. -/
def tangled : Relationship where
  source := "o$"
  target := "größe"
  kind := .aggregation
  label := some ": \"*\" <|-- x : y"
  multiplicity := some "0 .. *-- 1 :"

theorem link?_linkText_tangled :
    (linkText tangled).toList =
        "o$ o-- \"0 .. *-- 1 :\" größe : : \"*\" <|-- x : y".toList ∧
      link? (linkText tangled).toList = some tangled := by
  refine ⟨by decide, ?_⟩
  apply (@link?_linkText_iff tangled (by decide) (by decide)).mpr
  refine ⟨by decide, by decide, ?_, ?_⟩
  · rintro text ⟨⟩
    decide
  · rintro text ⟨⟩
    decide

end ClassAtlas.Diagram
