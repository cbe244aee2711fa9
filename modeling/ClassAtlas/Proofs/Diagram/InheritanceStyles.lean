import ClassAtlas.Proofs.Restriction
import ClassAtlas.Proofs.Diagram.Rerendering

/-!
# Two ways to write supertypes

A diagram states supertypes in the headers of its blocks or as links behind
them. Both say the same as long as no name starts like a line without
structure: reading either gives the same declarations, with their supertypes in
the same order, and the same links, so that conversion runs over the two texts
are equal.

A diagram with links is the diagram of the types without their supertypes, with
one more link for each supertype. Reading folds these links back into the
declarations one by one, where each of them is accepted just as it is accepted
in a header.
-/

namespace ClassAtlas

open Text

namespace Diagram

/-! ## Lines that start with a name -/

/-- The words at the start of a line without structure that a name can start
with as well. -/
def directiveWords : List String :=
  ["title", "skinparam", "hide", "show", "legend", "caption", "header", "footer", "note"]

/-- Whether a name starts like a line without structure. -/
def startsAsDirective (name : String) : Bool :=
  directiveWords.any fun word => word.toList.isPrefixOf name.toList

/-- What stands at the start of a line stands within its first word or goes on
behind the space. -/
theorem prefix_append_space {start name rest : List Char} (h : start <+: name ++ ' ' :: rest) :
    start <+: name ∨ ∃ more, start = name ++ ' ' :: more ∧ more <+: rest := by
  obtain ⟨after, hline⟩ := h
  rcases List.append_eq_append_iff.mp hline with ⟨part, rfl, -⟩ | ⟨part, rfl, hrest⟩
  · exact Or.inl (List.prefix_append start part)
  · cases part with
    | nil => exact Or.inl (by rw [List.append_nil])
    | cons c part =>
        obtain ⟨rfl, rfl⟩ := List.cons.inj hrest
        exact Or.inr ⟨part, rfl, List.prefix_append part after⟩

/-- A name that does not start like a line without structure starts a line
with structure, unless a word such as `to` follows. -/
theorem isPrefixOf_directive_eq_false {name : String} (hname : IsName name.toList)
    (hplain : startsAsDirective name = false) {c : Char} (hc : c ≠ 't') (rest : List Char) :
    ∀ word ∈ "note" :: directives,
      word.toList.isPrefixOf (name.toList ++ ' ' :: c :: rest) = false := by
  intro word hword
  by_contra hstarts
  rw [Bool.not_eq_false, List.isPrefixOf_iff_prefix] at hstarts
  rcases prefix_append_space hstarts with hstarts | ⟨more, hsplit, ⟨after, heq⟩⟩
  · have hkinds : ∀ word ∈ "note" :: directives,
        word ∈ directiveWords ∨ ∃ d ∈ word.toList, isName d = false := by decide
    rcases hkinds word hword with hlisted | ⟨d, hd, hoff⟩
    · exact List.any_eq_false.mp hplain word hlisted (List.isPrefixOf_iff_prefix.mpr hstarts)
    · exact hname.notMem hoff (hstarts.subset hd)
  · -- only two such lines go on behind a space, and both with the same letter
    have hspaced : ∀ word ∈ "note" :: directives, ' ' ∈ word.toList →
        word.toList.dropWhile (· != ' ') ∈ [" to right".toList, " to bottom".toList] := by decide
    have hafter := hspaced word hword (by rw [hsplit]; simp)
    have hword : ∀ d ∈ name.toList, (d != ' ') = true := fun d hd =>
      bne_iff_ne.mpr (hname.ne_of_mem hd (by decide))
    rw [hsplit, List.dropWhile_append_of_pos hword, List.dropWhile_cons_of_neg (by simp)] at hafter
    have hletter : more.head? = some 't' := by
      simp only [List.mem_cons, List.not_mem_nil, or_false] at hafter
      rcases hafter with heq | heq <;> rw [(List.cons.inj heq).2] <;> rfl
    obtain ⟨tail, htail⟩ := List.head?_eq_some_iff.mp hletter
    rw [htail] at heq
    exact hc (List.cons.inj heq).1.symm

/-- A link whose line does not start like one without structure is read. -/
theorem readItem_legible {link : Relationship} (h : Legible link)
    (hplain : startsAsDirective (leftEnd link) = false) (rest : List (List Char)) :
    readItem (linkText link).toList rest = ([.link link], rest) := by
  obtain ⟨c, more, hsymbol, hc⟩ : ∃ c more, link.kind.symbol.toList = c :: more ∧ c ≠ 't' := by
    cases link.kind <;> exact ⟨_, _, rfl, by decide⟩
  have htext := toList_linkText h.writable
  rw [hsymbol] at htext
  have hstarts := isPrefixOf_directive_eq_false h.writable.leftEnd hplain hc (more ++ ' ' ::
    (multiplicityText link.multiplicity ++ ((rightEnd link).toList ++ labelText link.label)))
  rw [List.cons_append] at htext
  rw [← htext] at hstarts
  have hdirective : isDirective (linkText link).toList = false :=
    List.any_eq_false.mpr fun word hword =>
      Bool.eq_false_iff.mp (hstarts word (List.mem_cons_of_mem _ hword))
  have hfilled : (linkText link).toList.isEmpty = false := by
    simp [htext]
  have hopen : (linkText link).toList ≠ ['}'] := by
    intro heq
    have hspace : ' ' ∈ (linkText link).toList := by simp [htext]
    rw [heq] at hspace
    contradiction
  rw [readItem, hfilled, if_neg (by decide), if_neg hopen, hdirective, if_neg (by decide),
    hstarts "note" List.mem_cons_self, if_neg (by decide),
    first?_packageLine_eq_none (notMem_linkText h (.inl rfl)), header?_linkText h]
  dsimp only
  rw [link?_linkText h.writable]

theorem items_linkTexts {links : List Relationship}
    (h : ∀ link ∈ links, Legible link ∧ startsAsDirective (leftEnd link) = false)
    (rest : List (List Char)) :
    items (links.map (fun link => (linkText link).toList) ++ rest) =
      links.map .link ++ items rest := by
  induction links with
  | nil => rfl
  | cons link links ih =>
      obtain ⟨⟨hlink, hplain⟩, hlinks⟩ := List.forall_mem_cons.mp h
      rw [List.map_cons, List.cons_append, items, readItem_legible hlink hplain, ih hlinks]
      rfl

/-! ## Supertypes as links -/

/-- The links that state the supertypes of a declaration. -/
def supertypeRelationships (decl : Declaration) : List Relationship :=
  (Inference.supertypes decl).map fun (target, kind) => { source := decl.name, target, kind }

theorem of_mem_supertypeRelationships {decl : Declaration} {link : Relationship}
    (h : link ∈ supertypeRelationships decl) :
    ∃ target kind, isSupertypeKind kind = true ∧ target ∈ decl.supertypeNames ∧
      link = { source := decl.name, target, kind } := by
  obtain ⟨⟨target, kind⟩, hsupertype, rfl⟩ := List.mem_map.mp h
  refine ⟨target, kind, ?_, ?_, rfl⟩
  all_goals
    rcases List.mem_append.mp hsupertype with hmem | hmem
    all_goals
      obtain ⟨supertype, hlisted, heq⟩ := List.mem_map.mp hmem
      obtain ⟨rfl, rfl⟩ := Prod.mk.inj heq
  · rfl
  · rfl
  · exact List.mem_append_left _ hlisted
  · exact List.mem_append_right _ hlisted

theorem supertypeTexts_eq (node : TypeNode) :
    supertypeTexts node = (supertypeRelationships node.declaration).map linkText := by
  have hparent : ∀ parent, parent ++ " <|-- " ++ node.name =
      linkText { source := node.name, target := parent, kind := .generalization } := by
    intro parent
    exact String.append_empty.symm
  have hcontract : ∀ contract, node.name ++ " ..|> " ++ contract =
      linkText { source := node.name, target := contract, kind := .realization } := by
    intro contract
    simp [linkText, RelationshipKind.symbol, String.ext_iff]
  simp only [supertypeTexts, hparent, hcontract, supertypeRelationships, Inference.supertypes,
    List.map_append, List.map_map, parents]
  rfl

/-- The type without its supertypes. -/
def bareNode (node : TypeNode) : TypeNode :=
  { node with superclass := none, implementedInterfaces := [], extendedInterfaces := [] }

/-- All links of a diagram that has links for supertypes. -/
def allLinks (assembly : Assembly) : List Relationship :=
  assembly.types.flatMap (fun node => supertypeRelationships node.declaration) ++
    drawnLinks assembly

/-- The assembly in which supertypes are links. A diagram shows no identifiers,
so the links need none. -/
def spelledOut (assembly : Assembly) : Assembly :=
  { assembly with
    types := assembly.types.map bareNode
    links := (allLinks assembly).map fun relationship =>
      { id := "", relationship, sourceId := "", targetId := "", ends := none } }

theorem statedByBlock_spelledOut (assembly : Assembly) (link : Relationship) :
    statedByBlock (spelledOut assembly) link = false := by
  unfold statedByBlock
  split
  next => rfl
  next node hnode =>
    obtain ⟨whole, -, rfl⟩ := List.mem_map.mp (List.mem_of_find?_eq_some hnode)
    cases link.kind <;> rfl

theorem drawnLinks_spelledOut (assembly : Assembly) :
    drawnLinks (spelledOut assembly) = allLinks assembly := by
  have hlinks : (spelledOut assembly).links.map LinkNode.relationship = allLinks assembly := by
    rw [spelledOut, List.map_map]
    exact List.map_id _
  rw [drawnLinks, hlinks]
  exact List.filter_eq_self.mpr fun link _ => by rw [statedByBlock_spelledOut]; rfl

/-- A diagram with links for supertypes is one with headers, of the types
without their supertypes. -/
theorem render_links (options : RenderOptions) (assembly : Assembly) :
    render { options with inheritance := .links } assembly =
      render { options with inheritance := .headerClauses } (spelledOut assembly) := by
  have hlinks : linkTexts .links assembly = linkTexts .headerClauses (spelledOut assembly) := by
    have hdrawn := drawnLinks_spelledOut assembly
    rw [drawnLinks] at hdrawn
    rw [linkTexts, linkTexts, hdrawn, allLinks, List.map_append, List.map_flatMap]
    simp only [← supertypeTexts_eq]
    rfl
  have htypes : (spelledOut assembly).types.flatMap
      (typeLines { options with inheritance := .headerClauses }) =
        assembly.types.flatMap (typeLines { options with inheritance := .links }) := by
    rw [spelledOut, List.flatMap_map]
    rfl
  simp only [render, documentLines, hlinks, htypes]
  rfl

/-! ## Folding the links back -/

theorem name_addSupertype (link : Relationship) (decl : Declaration) :
    (addSupertype link decl).name = decl.name := by
  unfold addSupertype extendBy Declaration.setSuperclass Declaration.setSuperclass?
    Declaration.extend Declaration.extend? Declaration.implement Declaration.implement?
  repeat' split
  all_goals rfl

theorem updateFirst_append {name : String} {change : Declaration → Declaration}
    {before : List Declaration} (hbefore : name ∉ before.map Declaration.name)
    {decl : Declaration} (hdecl : decl.name = name) (after : List Declaration) :
    updateFirst name change (before ++ decl :: after) = before ++ change decl :: after := by
  induction before with
  | nil => exact if_pos hdecl
  | cons first before ih =>
      rw [List.map_cons, List.mem_cons, not_or] at hbefore
      rw [List.cons_append, updateFirst, if_neg (Ne.symm hbefore.1), ih hbefore.2,
        List.cons_append]

/-- Links that state supertypes of one declaration change this declaration
only. -/
theorem foldl_applyLink_declaration {before : List Declaration} {decl : Declaration}
    (hbefore : decl.name ∉ before.map Declaration.name) {links : List Relationship}
    (hlinks : ∀ link ∈ links, isSupertypeKind link.kind = true ∧ link.source = decl.name)
    (after : List Declaration) (declared : List Relationship) :
    links.foldl applyLink (before ++ decl :: after, declared) =
      (before ++ links.foldl (fun decl link => addSupertype link decl) decl :: after,
        declared) := by
  induction links generalizing decl with
  | nil => rfl
  | cons link links ih =>
      obtain ⟨⟨hkind, hsource⟩, hrest⟩ := List.forall_mem_cons.mp hlinks
      have hname := name_addSupertype link decl
      have hlisted : (before ++ decl :: after).any (·.name == link.source) = true := by
        simp [hsource]
      have hstep : applyLink (before ++ decl :: after, declared) link =
          (before ++ addSupertype link decl :: after, declared) := by
        rw [applyLink, hkind, hlisted, Bool.true_and, if_pos rfl, hsource,
          updateFirst_append hbefore rfl]
      rw [List.foldl_cons, List.foldl_cons, hstep]
      refine ih (by rw [hname]; exact hbefore) fun other hother => ?_
      rw [hname]
      exact hrest other hother

/-- The links that state the supertypes of a declaration give them back to the
declaration without supertypes. -/
theorem foldl_addSupertype {decl : Declaration} (h : decl.Lawful) :
    (supertypeRelationships decl).foldl (fun decl link => addSupertype link decl) decl.bare =
      decl := by
  rw [supertypeRelationships, Inference.supertypes, List.foldl_map, List.foldl_append,
    List.foldl_map, List.foldl_map]
  exact h.foldl_supertypes

theorem foldl_applyLink_supertypes {before decls : List Declaration}
    (hnodup : ((before ++ decls).map Declaration.name).Nodup)
    (hlawful : ∀ decl ∈ decls, decl.Lawful) (declared : List Relationship) :
    (decls.flatMap supertypeRelationships).foldl applyLink
      (before ++ decls.map Declaration.bare, declared) = (before ++ decls, declared) := by
  induction decls generalizing before with
  | nil => rfl
  | cons decl decls ih =>
      obtain ⟨hdecl, hdecls⟩ := List.forall_mem_cons.mp hlawful
      have hbefore : decl.bare.name ∉ before.map Declaration.name := by
        intro hmem
        rw [List.map_append, List.map_cons] at hnodup
        exact (List.nodup_append.mp hnodup).2.2 _ hmem _ List.mem_cons_self rfl
      have hlinks : ∀ link ∈ supertypeRelationships decl,
          isSupertypeKind link.kind = true ∧ link.source = decl.bare.name := by
        intro link hlink
        obtain ⟨target, kind, hkind, -, rfl⟩ := of_mem_supertypeRelationships hlink
        exact ⟨hkind, rfl⟩
      have happend : before ++ decl :: decls = before ++ [decl] ++ decls := by simp
      rw [List.flatMap_cons, List.foldl_append, List.map_cons,
        foldl_applyLink_declaration hbefore hlinks, foldl_addSupertype hdecl, happend,
        ← ih (happend ▸ hnodup) hdecls]
      simp

/-! ## Reading either diagram -/

theorem readable_bare {decl : Declaration} (h : decl.Readable) : decl.bare.Readable where
  identifier := h.identifier
  supertypes := by
    intro name hmem
    contradiction
  lawful := {
    superclass := by
      intro name hmem
      contradiction
    extended := by
      intro name hmem
      contradiction
    extended_nodup := List.nodup_nil
    implemented := by
      intro name hmem
      contradiction
    implemented_nodup := List.nodup_nil }
  fields := h.fields
  operations := h.operations
  literals := h.literals
  literals_nodup := h.literals_nodup
  abstract_class := h.abstract_class

/-- The links for the supertypes of a readable declaration can be read if no
name starts like a line without structure. -/
theorem legible_supertypeRelationships {decl : Declaration} (h : decl.Readable)
    (hplain : ∀ name ∈ decl.name :: decl.supertypeNames, startsAsDirective name = false)
    {link : Relationship} (hlink : link ∈ supertypeRelationships decl) :
    Legible link ∧ startsAsDirective (leftEnd link) = false := by
  obtain ⟨target, kind, -, htarget, rfl⟩ := of_mem_supertypeRelationships hlink
  constructor
  · exact {
      source := isName_of_isTypeName h.identifier
      target := isName_of_isTypeName (h.supertypes target htarget)
      label := by simp
      multiplicity := Or.inl rfl }
  · unfold leftEnd
    split
    · exact hplain target (List.mem_cons_of_mem _ htarget)
    · exact hplain decl.name List.mem_cons_self

section

variable {options : RenderOptions} {assembly : Assembly}
  (htitle : '\n' ∉ (titleOf options assembly).toList)
  (htypes : ∀ node ∈ assembly.types, node.declaration.Readable)
  (hlinks : ∀ link ∈ drawnLinks assembly, Drawn link)
  (hsources : ∀ link ∈ drawnLinks assembly, startsAsDirective link.source = false)

include hlinks hsources in
theorem legible_drawnLinks {link : Relationship} (hlink : link ∈ drawnLinks assembly) :
    Legible link ∧ startsAsDirective (leftEnd link) = false := by
  have hdrawn := hlinks link hlink
  have hkind : link.kind ≠ .generalization := by
    intro heq
    have hother := hdrawn.kind
    rw [heq] at hother
    contradiction
  rw [leftEnd, if_neg hkind]
  exact ⟨hdrawn.legible, hsources link hlink⟩

include htitle htypes hlinks hsources

theorem read_headerClauses (unit : String) :
    read unit (render { options with inheritance := .headerClauses } assembly).toList = {
      types := assembly.types.map fun node => node.declaration.shown options
      relationships := drawnLinks assembly } := by
  have hitems := items_linkTexts (fun link => legible_drawnLinks hlinks hsources)
    ["@enduml".toList]
  rw [items_of_isDirective (by decide), items, List.append_nil] at hitems
  have htitle' : '\n' ∉ (titleOf { options with inheritance := .headerClauses }
      assembly).toList := htitle
  rw [read_render rfl htitle' htypes (fun link hlink => (hlinks link hlink).legible) hitems,
    foldl_applyLink hlinks]
  rfl

variable (hnodup : (assembly.types.map TypeNode.name).Nodup)
  (hplain : ∀ node ∈ assembly.types,
    ∀ name ∈ node.name :: node.declaration.supertypeNames, startsAsDirective name = false)

include hnodup hplain

theorem read_links (unit : String) :
    read unit (render { options with inheritance := .links } assembly).toList = {
      types := assembly.types.map fun node => node.declaration.shown options
      relationships := drawnLinks assembly } := by
  have hbare : ∀ node ∈ (spelledOut assembly).types, node.declaration.Readable := by
    intro node hnode
    obtain ⟨whole, hwhole, rfl⟩ := List.mem_map.mp hnode
    exact readable_bare (htypes whole hwhole)
  have hlegible : ∀ link ∈ allLinks assembly,
      Legible link ∧ startsAsDirective (leftEnd link) = false := by
    intro link hlink
    rcases List.mem_append.mp hlink with hsupertype | hdrawn
    · obtain ⟨node, hnode, hmem⟩ := List.mem_flatMap.mp hsupertype
      exact legible_supertypeRelationships (htypes node hnode) (hplain node hnode) hmem
    · exact legible_drawnLinks hlinks hsources hdrawn
  have hitems := items_linkTexts hlegible ["@enduml".toList]
  rw [items_of_isDirective (by decide), items, List.append_nil] at hitems
  rw [← drawnLinks_spelledOut] at hlegible hitems
  have htitle' : '\n' ∉ (titleOf { options with inheritance := .headerClauses }
      (spelledOut assembly)).toList := htitle
  -- the blocks show the declarations without their supertypes, which the links give back
  have hfolded : (assembly.types.flatMap fun node =>
      supertypeRelationships node.declaration).foldl applyLink
        ((spelledOut assembly).types.map fun node => node.declaration.shown options, []) =
      (assembly.types.map fun node => node.declaration.shown options, []) := by
    have hnames : (([] ++ assembly.types.map fun node : TypeNode =>
        node.declaration.shown options).map Declaration.name).Nodup := by
      rw [List.nil_append, List.map_map]
      exact hnodup
    have hlawful : ∀ decl ∈ assembly.types.map fun node => node.declaration.shown options,
        decl.Lawful := List.forall_mem_map.mpr fun node hnode =>
      ((htypes node hnode).shown options).lawful
    have hback := foldl_applyLink_supertypes hnames hlawful []
    rw [List.flatMap_map, List.map_map] at hback
    rw [spelledOut, List.map_map]
    exact hback
  have hall : (allLinks assembly).foldl applyLink
      ((spelledOut assembly).types.map fun node => node.declaration.shown options, []) =
        (assembly.types.map fun node => node.declaration.shown options, drawnLinks assembly) := by
    rw [allLinks, List.foldl_append, hfolded, foldl_applyLink hlinks]
    rfl
  rw [← drawnLinks_spelledOut] at hall
  rw [render_links, read_render rfl htitle' hbare (fun link hlink => (hlegible link hlink).1)
    hitems]
  exact congrArg (fun folded => ({ types := folded.1, relationships := folded.2 } : Extraction))
    hall

end

end Diagram

open Diagram

/-- Either diagram of a model shows its declarations and draws the same links. -/
theorem read_assembled_style {assembled : Assembled} {name : String} {model : Model}
    {inference : Inference.Options} {options : RenderOptions}
    (h : assembled.Describes name (Inference.apply inference model).1)
    (hmodel : model.Consistent) (hlinks : model.relationships = [])
    (hreadable : ∀ decl ∈ model.types, decl.Readable)
    (hplain : ∀ decl ∈ model.types, ∀ known ∈ decl.name :: decl.supertypeNames,
      startsAsDirective known = false)
    (htitle : '\n' ∉ (options.title.getD name).toList) (style : InheritanceStyle)
    (unit : String) :
    Diagram.read unit (render { options with inheritance := style } assembled.assembly).toList = {
      types := model.types.map fun decl => decl.shown options
      relationships := drawnLinks assembled.assembly } := by
  have hlinked := Inference.types_apply inference hmodel
  rw [← hlinked] at hreadable hplain ⊢
  have htitle' : '\n' ∉ (titleOf options assembled.assembly).toList := by
    rw [titleOf, h.name_eq]
    exact htitle
  have hnodes := h.readable hreadable
  have hdrawn := h.drawn hmodel hlinks (hlinked ▸ hreadable)
  have hsources : ∀ link ∈ drawnLinks assembled.assembly,
      startsAsDirective link.source = false := by
    intro link hlink
    have hmem := (List.mem_filter.mp hlink).1
    rw [h.links_eq] at hmem
    obtain ⟨decl, hdecl, hname⟩ :=
      List.mem_map.mp ((hmodel.apply inference).ends_declared link hmem).1
    rw [← hname]
    exact hplain decl hdecl decl.name List.mem_cons_self
  rw [← h.map_shown hreadable options]
  cases style with
  | headerClauses => exact read_headerClauses htitle' hnodes hdrawn hsources unit
  | links =>
      refine read_links htitle' hnodes hdrawn hsources (h.names_nodup (hmodel.apply inference))
        ?_ unit
      intro node hnode
      refine hplain node.declaration ?_
      rw [← h.declarations_eq_types hreadable]
      exact List.mem_map_of_mem hnode

/-- A diagram is read as one unless the extension of its name says that it is
code. -/
theorem read_renderedAs {unit : String} (h : Dialect.ofExtension? unit ≠ some .code)
    (options : RenderOptions) (assembly : Assembly) :
    SourceUnit.read ⟨unit, render options assembly⟩ =
      Diagram.read unit (render options assembly).toList := by
  have htext : ∃ rest, (render options assembly).toList = "@startuml".toList ++ rest := by
    simp [render, documentLines, String.toList_join]
  have hlooks : Dialect.looksLikeDiagram (render options assembly).toList = true := by
    obtain ⟨rest, htext⟩ := htext
    rw [htext]
    rfl
  have hdialect : Dialect.detect unit (render options assembly).toList = .diagram := by
    unfold Dialect.detect
    split
    next dialect hdialect =>
      cases dialect with
      | code => contradiction
      | diagram => rfl
    next => rw [hlooks, if_pos rfl]
  rw [SourceUnit.read, SourceUnit.dialect, hdialect, Dialect.read]

/-- A run over declarations with distinct names ends with those of them that
the settings keep. -/
theorem types_linked_addExtraction (settings : Settings) (unit : String) {found : Extraction}
    (hnodup : (found.types.map Declaration.name).Nodup) :
    ((Conversion.start settings).addExtraction unit found).linked.1.types =
      settings.kept found.types := by
  have hstart := Conversion.consistent_start settings
  have hconsistent : ((Conversion.start settings).addExtraction unit found).model.Consistent :=
    hstart.foldl_insert _
  obtain ⟨htypes, hlinks⟩ := hstart.foldl_insert_new hnodup
  rw [Conversion.linked_eq hconsistent hlinks]
  refine (Conversion.types_filtered settings _).trans ?_
  exact congrArg settings.kept htypes

/-- Whether supertypes are written in headers or as links makes no difference to
who converts the diagram: both texts give the same result, with the
declarations of the model as far as they are shown and kept. -/
theorem inheritance_styles_agree (model : Model) (inference : Inference.Options)
    (options : RenderOptions) (settings : Settings) (digest : String → String)
    (name unit : String) (hmodel : model.Consistent) (hlinks : model.relationships = [])
    (hreadable : ∀ decl ∈ model.types, decl.Readable)
    (hplain : ∀ decl ∈ model.types, ∀ known ∈ decl.name :: decl.supertypeNames,
      startsAsDirective known = false)
    (htitle : '\n' ∉ (options.title.getD name).toList)
    (hunit : Dialect.ofExtension? unit ≠ some .code) :
    let linked := (Inference.apply inference model).1
    (Registry.CollisionFree digest name linked.paths →
      (linked.assemble? digest name).isSome = true) ∧
    ∀ assembled, linked.assemble? digest name = some assembled →
      let run := fun style => (Conversion.start settings).addUnit
        ⟨unit, render { options with inheritance := style } assembled.assembly⟩
      (run .links).finishWith? digest = (run .headerClauses).finishWith? digest ∧
      (Registry.CollisionFree digest settings.modelName (run .links).linked.1.paths →
        ((run .links).finishWith? digest).isSome = true) ∧
      ∀ result, (run .links).finishWith? digest = some result →
        result.assembly.types.map TypeNode.declaration =
          settings.kept (model.types.map fun decl => decl.shown options) := by
  intro linked
  refine ⟨fun hfree => Assembling.isSome_assemble? hfree, ?_⟩
  intro assembled hassembled run
  have hdescribes : assembled.Describes name linked :=
    (hmodel.apply inference).describes hassembled
  have hrun : ∀ style, run style = (Conversion.start settings).addExtraction unit {
      types := model.types.map fun decl => decl.shown options
      relationships := drawnLinks assembled.assembly } := by
    intro style
    rw [← read_assembled_style hdescribes hmodel hlinks hreadable hplain htitle style unit,
      ← read_renderedAs hunit]
    rfl
  refine ⟨by rw [hrun, hrun], fun hfree => Conversion.isSome_finishWith? hfree, ?_⟩
  intro result hresult
  have hconsistent : (run .links).model.Consistent :=
    Conversion.consistent_foldl_addUnit (Conversion.consistent_start settings) [_]
  obtain ⟨again, -, hagain, rfl⟩ := Conversion.finishWith?_spec hconsistent hresult
  have hnodup : ((model.types.map fun decl => decl.shown options).map
      Declaration.name).Nodup := by
    rw [List.map_map]
    exact hmodel.names_nodup
  have hsettled : (model.types.map fun decl => decl.shown options).map Declaration.settled =
      model.types.map fun decl => decl.shown options := by
    rw [List.map_map]
    exact List.map_congr_left fun decl hdecl => ((hreadable decl hdecl).shown options).settled_eq
  refine hagain.declarations_eq.trans ?_
  rw [hrun, types_linked_addExtraction settings unit hnodup, ← settings.kept_map_settled, hsettled]

/-- The sample model has superclasses, extended and implemented interfaces, some
of them outside of the model. -/
theorem inheritance_styles_agree_sampleModel :
    let linked := (Inference.apply {} sampleModel).1
    ∃ assembled, linked.assemble? id "Sample" = some assembled ∧
      let run := fun style => (Conversion.start {}).addUnit
        ⟨"sample", render { inheritance := style } assembled.assembly⟩
      ∃ result, (run .links).finishWith? id = some result ∧
        (run .headerClauses).finishWith? id = some result ∧
        result.assembly.types.map TypeNode.declaration =
          sampleModel.types.map fun decl => decl.shown {} := by
  have hfree := Registry.collisionFree_of_injective Function.injective_id
  obtain ⟨hsome, hstyles⟩ := inheritance_styles_agree sampleModel {} {} {} id "Sample" "sample"
    consistent_sampleModel rfl readable_sampleModel (by decide) (by decide) (by decide)
  obtain ⟨assembled, hassembled⟩ := Option.isSome_iff_exists.mp (hsome (hfree _ _))
  obtain ⟨hsame, hfound, htypes⟩ := hstyles assembled hassembled
  obtain ⟨result, hresult⟩ := Option.isSome_iff_exists.mp (hfound (hfree _ _))
  refine ⟨assembled, hassembled, result, hresult, hsame.symm.trans hresult, ?_⟩
  exact htypes result hresult

end ClassAtlas
