import ClassAtlas.Proofs.Diagram.Blocks
import ClassAtlas.Proofs.Diagram.LinkLines

/-!
# Reading whole diagrams back

The text of a diagram is cut into the lines it was written from. Each block
gives one declaration, the links behind the blocks give relationships, and all
other lines say nothing, so reading reports no problem. A link can be lost
where the name of its source starts like a line without structure; whatever is
read is one of the links that were drawn, in their order.
-/

namespace ClassAtlas.Diagram

open ClassAtlas.Text Pattern

/-! ## Lines that say nothing -/

theorem isDirective_append {word : String} (h : word ∈ directives) (s : List Char) :
    isDirective (word.toList ++ s) = true := by
  rw [isDirective, List.any_eq_true]
  exact ⟨word, h, List.isPrefixOf_iff_prefix.mpr (List.prefix_append word.toList s)⟩

theorem items_of_isDirective {line : List Char} (h : isDirective line = true)
    (rest : List (List Char)) : items (line :: rest) = items rest := by
  have hfilled : line.isEmpty = false := by
    rw [List.isEmpty_eq_false_iff]
    rintro rfl
    contradiction
  have hopen : line ≠ ['}'] := by
    rintro rfl
    contradiction
  have hitem : readItem line rest = ([], rest) := by
    rw [readItem, hfilled, if_neg (by decide), if_neg hopen, if_pos h]
  rw [items, hitem]
  rfl

theorem items_nil_cons (rest : List (List Char)) : items ([] :: rest) = items rest := by
  have hitem : readItem [] rest = ([], rest) := rfl
  rw [items, hitem]
  rfl

/-! ## Blocks -/

/-- The words of a header open neither a package nor a line without
structure. -/
theorem readItem_headerText {node : TypeNode} (h : node.declaration.Readable)
    {rest body after : List (List Char)} (hbody : takeBody? rest = some (body, after)) :
    readItem (headerText .headerClauses node).toList rest =
      ([.block (headerOf node) body], after) := by
  have hheader := header?_headerText h
  have hopening : blockBody? (headerOf node).opening rest = some (body, after) := by
    change (takeBody? rest).map _ = _
    rw [hbody]
    rfl
  rw [toList_headerText] at hheader ⊢
  generalize node.name.toList ++ clausesText (parents node) node.implementedInterfaces = s
    at hheader ⊢
  generalize hline : (blockWords node).toList ++ ' ' :: s = line at hheader ⊢
  have hplain : line.isEmpty = false ∧ line ≠ ['}'] ∧ isDirective line = false ∧
      "note".toList.isPrefixOf line = false ∧ packageLine.first? line = none := by
    subst hline
    unfold blockWords
    cases node.kind <;> cases node.isAbstract <;> exact ⟨rfl, by simp, rfl, rfl, rfl⟩
  obtain ⟨hfilled, hclose, hdirective, hnote, hpackage⟩ := hplain
  rw [readItem, hfilled, if_neg (by decide), if_neg hclose, hdirective, if_neg (by decide),
    hnote, if_neg (by decide), hpackage]
  dsimp only
  rw [hheader]
  dsimp only
  rw [hopening]

/-- The trimmed lines of the block of a type. -/
def blockLines (options : RenderOptions) (node : TypeNode) : List (List Char) :=
  (headerText .headerClauses node).toList ::
    ((bodyLines options node).map String.toList ++ [['}'], []])

/-- What a block says. -/
def blockItem (options : RenderOptions) (node : TypeNode) : Item :=
  .block (headerOf node) ((bodyLines options node).map String.toList)

theorem items_blockLines (options : RenderOptions) {node : TypeNode}
    (h : node.declaration.Readable) (rest : List (List Char)) :
    items (blockLines options node ++ rest) = blockItem options node :: items rest := by
  have hbody : takeBody? ((bodyLines options node).map String.toList ++ ['}'] :: [] :: rest) =
      some ((bodyLines options node).map String.toList, [] :: rest) := by
    refine takeBody?_append (List.forall_mem_map.mpr ?_) ([] :: rest)
    exact isBodyLine_of_mem_bodyLines options h
  have hlines : blockLines options node ++ rest = (headerText .headerClauses node).toList ::
      ((bodyLines options node).map String.toList ++ ['}'] :: [] :: rest) := by
    simp [blockLines]
  rw [hlines, items, readItem_headerText h hbody, items_nil_cons]
  rfl

theorem items_flatMap_blockLines (options : RenderOptions) {nodes : List TypeNode}
    (h : ∀ node ∈ nodes, node.declaration.Readable) (rest : List (List Char)) :
    items (nodes.flatMap (blockLines options) ++ rest) =
      nodes.map (blockItem options) ++ items rest := by
  induction nodes with
  | nil => rfl
  | cons node nodes ih =>
      obtain ⟨hnode, hnodes⟩ := List.forall_mem_cons.mp h
      rw [List.flatMap_cons, List.append_assoc, items_blockLines options hnode, ih hnodes]
      rfl

/-! ## Links -/

theorem exists_items_linkText {links : List Relationship} (h : ∀ link ∈ links, Drawn link)
    (rest : List (List Char)) :
    ∃ found : List Relationship, found.Sublist links ∧
      items (links.map (fun link => (linkText link).toList) ++ rest) =
        found.map .link ++ items rest := by
  induction links with
  | nil => exact ⟨[], List.Sublist.refl _, rfl⟩
  | cons link links ih =>
      obtain ⟨hlink, hlinks⟩ := List.forall_mem_cons.mp h
      obtain ⟨found, hsub, hitems⟩ := ih hlinks
      rw [List.map_cons, List.cons_append, items]
      rcases readItem_linkText hlink
        (links.map (fun link => (linkText link).toList) ++ rest) with hread | hread
      · exact ⟨found, hsub.cons link, by rw [hread, hitems]; rfl⟩
      · exact ⟨link :: found, hsub.cons_cons link, by rw [hread, hitems]; rfl⟩

/-! ## Gathering -/

theorem foldl_gather_blocks (options : RenderOptions) {nodes : List TypeNode}
    (h : ∀ node ∈ nodes, node.declaration.Readable) {state : Gathered}
    (hpackage : state.package = "") :
    (nodes.map (blockItem options)).foldl gather state =
      { state with
        types := state.types ++ nodes.map fun node => node.declaration.shown options } := by
  induction nodes generalizing state with
  | nil => simp
  | cons node nodes ih =>
      obtain ⟨hnode, hnodes⟩ := List.forall_mem_cons.mp h
      have hstep : gather state (blockItem options node) =
          { state with types := state.types ++ [node.declaration.shown options] } := by
        rw [blockItem, gather, hpackage, declaration_headerOf options hnode]
      rw [List.map_cons, List.foldl_cons, hstep]
      refine (ih hnodes ?_).trans ?_
      · exact hpackage
      · simp

theorem foldl_gather_links (links : List Relationship) (state : Gathered) :
    (links.map Item.link).foldl gather state =
      { state with links := state.links ++ links } := by
  induction links generalizing state with
  | nil => simp
  | cons link links ih =>
      rw [List.map_cons, List.foldl_cons, ih]
      simp [gather]

/-- Links that state no supertype leave the declarations as they are. -/
theorem foldl_applyLink {links : List Relationship} (h : ∀ link ∈ links, Drawn link)
    (types : List Declaration) (declared : List Relationship) :
    links.foldl applyLink (types, declared) = (types, declared ++ links) := by
  induction links generalizing declared with
  | nil => simp
  | cons link links ih =>
      obtain ⟨hlink, hlinks⟩ := List.forall_mem_cons.mp h
      have hstep : applyLink (types, declared) link = (types, declared ++ [link]) := by
        simp [applyLink, hlink.kind]
      rw [List.foldl_cons, hstep, ih hlinks]
      simp

/-! ## The lines of a document -/

theorem trim_blockLine (line : String) : trim (blockLine line).toList = trim line.toList := by
  rw [blockLine, String.toList_append]
  exact trim_blank_append (by decide)

theorem trim_memberLine (line : String) : trim (memberLine line).toList = trim line.toList := by
  rw [memberLine, String.toList_append]
  exact trim_blank_append (by decide)

variable {options : RenderOptions} {assembly : Assembly}

theorem map_trim_typeLines (hstyle : options.inheritance = .headerClauses) {node : TypeNode}
    (h : node.declaration.Readable) :
    (typeLines options node).map (fun line => trim line.toList) = blockLines options node := by
  have hbody : (bodyLines options node).map (fun line => trim (memberLine line).toList) =
      (bodyLines options node).map String.toList := by
    refine List.map_congr_left fun line hmem => ?_
    rw [trim_memberLine, (isBodyLine_of_mem_bodyLines options h line hmem).trimmed.trim_eq]
  have hheader : trim (blockLine (headerText options.inheritance node)).toList =
      (headerText .headerClauses node).toList := by
    rw [trim_blockLine, hstyle, (trimmed_headerText node).trim_eq]
  simp only [typeLines, blockLines, List.map_cons, List.map_append, List.map_map,
    Function.comp_def, hheader, List.cons_append, hbody]
  rfl

/-- The links that no block states. -/
def drawnLinks (assembly : Assembly) : List Relationship :=
  (assembly.links.map LinkNode.relationship).filter (!statedByBlock assembly ·)

theorem map_trim_linkTexts (hstyle : options.inheritance = .headerClauses)
    (hlinks : ∀ link ∈ drawnLinks assembly, Legible link) :
    ((linkTexts options.inheritance assembly).map blockLine).map (fun line => trim line.toList) =
      (drawnLinks assembly).map fun link => (linkText link).toList := by
  rw [hstyle, linkTexts, List.nil_append, List.map_map, List.map_map]
  refine List.map_congr_left fun link hmem => ?_
  exact (trim_blockLine (linkText link)).trans (trimmed_linkText (hlinks link hmem)).trim_eq

theorem newline_notMem_typeLines (hstyle : options.inheritance = .headerClauses)
    {node : TypeNode} (h : node.declaration.Readable) :
    ∀ line ∈ typeLines options node, '\n' ∉ line.toList := by
  have hheader : '\n' ∉ (blockLine (headerText options.inheritance node)).toList := by
    simp [blockLine, hstyle, newline_notMem_headerText h]
  have hbody : ∀ line ∈ bodyLines options node, '\n' ∉ (memberLine line).toList := by
    intro line hmem
    simp [memberLine, (isBodyLine_of_mem_bodyLines options h line hmem).newline]
  intro line hmem
  simp only [typeLines, List.cons_append, List.mem_cons, List.mem_append, List.mem_map,
    List.not_mem_nil, or_false] at hmem
  rcases hmem with rfl | ⟨inner, hinner, rfl⟩ | rfl | rfl
  · exact hheader
  · exact hbody inner hinner
  · decide
  · decide

theorem newline_notMem_documentLines (hstyle : options.inheritance = .headerClauses)
    (htitle : '\n' ∉ (titleOf options assembly).toList)
    (htypes : ∀ node ∈ assembly.types, node.declaration.Readable)
    (hlinks : ∀ link ∈ drawnLinks assembly, Legible link) :
    ∀ line ∈ documentLines options assembly, '\n' ∉ line.toList := by
  have hunderscored : '\n' ∉ (underscored (titleOf options assembly)).toList := by
    rw [underscored, String.toList_map, List.mem_map]
    rintro ⟨c, hc, heq⟩
    split at heq
    · contradiction
    · exact htitle (heq ▸ hc)
  have hlinkLines : ∀ line ∈ linkTexts options.inheritance assembly,
      '\n' ∉ (blockLine line).toList := by
    rw [hstyle]
    intro line hmem
    obtain ⟨link, hlink, rfl⟩ := List.mem_map.mp hmem
    simp [blockLine, notMem_linkText (hlinks link hlink) (.inr rfl)]
  intro line hmem
  simp only [documentLines, List.mem_append, List.mem_cons, List.not_mem_nil, or_false,
    List.mem_flatMap, List.mem_map] at hmem
  rcases hmem with (((rfl | rfl | rfl | rfl) | ⟨node, hnode, hline⟩) | ⟨inner, hinner, rfl⟩) | rfl
  · simp [hunderscored]
  · decide
  · simp [htitle]
  · decide
  · exact newline_notMem_typeLines hstyle (htypes node hnode) line hline
  · exact hlinkLines inner hinner
  · decide

theorem map_trim_lines_render (hstyle : options.inheritance = .headerClauses)
    (htitle : '\n' ∉ (titleOf options assembly).toList)
    (htypes : ∀ node ∈ assembly.types, node.declaration.Readable)
    (hlinks : ∀ link ∈ drawnLinks assembly, Legible link) :
    (lines (render options assembly).toList).map trim =
      (documentLines options assembly).map fun line => trim line.toList := by
  have htext : (render options assembly).toList =
      ((documentLines options assembly).map String.toList).flatMap (· ++ ['\n']) := by
    simp [render, String.toList_join, List.flatMap_map]
  have hfits : ∀ line ∈ (documentLines options assembly).map String.toList, '\n' ∉ line :=
    List.forall_mem_map.mpr (newline_notMem_documentLines hstyle htitle htypes hlinks)
  rw [htext, map_trim_lines_terminated hfits, List.map_map]
  rfl

/-- A line with a title says nothing, whatever the title. -/
theorem isDirective_trim (word : String) (h : word ∈ directives)
    (hword : Trimmed word.toList) (hne : word.toList ≠ []) (s : List Char) :
    isDirective (trim (word.toList ++ s)) = true := by
  have htrim : trim (word.toList ++ s) = word.toList ++ trimEnd s :=
    hword.trim_append_append hne [] s
  rw [htrim]
  exact isDirective_append h (trimEnd s)

theorem items_documentLines (hstyle : options.inheritance = .headerClauses)
    (htypes : ∀ node ∈ assembly.types, node.declaration.Readable)
    (hlinks : ∀ link ∈ drawnLinks assembly, Legible link) :
    items ((documentLines options assembly).map fun line => trim line.toList) =
      assembly.types.map (blockItem options) ++
        items ((drawnLinks assembly).map (fun link => (linkText link).toList) ++
          ["@enduml".toList]) := by
  have hblocks : (assembly.types.flatMap (typeLines options)).map
      (fun line => trim line.toList) = assembly.types.flatMap (blockLines options) := by
    rw [List.map_flatMap]
    exact List.flatMap_congr fun node hnode => map_trim_typeLines hstyle (htypes node hnode)
  have hstart : ∀ title : String, isDirective (trim ("@startuml " ++ title).toList) = true := by
    intro title
    have h := isDirective_trim "@startuml" (by decide) (by decide) (by decide)
      (' ' :: title.toList)
    simpa using h
  have htitle : ∀ title : String, isDirective (trim ("title " ++ title).toList) = true := by
    intro title
    have h := isDirective_trim "title" (by decide) (by decide) (by decide)
      (' ' :: title.toList)
    simpa using h
  simp only [documentLines, List.map_append, List.map_cons, List.map_nil, hblocks,
    map_trim_linkTexts hstyle hlinks, List.append_assoc, List.cons_append, List.nil_append]
  rw [items_of_isDirective (hstart _), items_of_isDirective (by decide),
    items_of_isDirective (htitle _)]
  refine (items_nil_cons _).trans ?_
  rw [items_flatMap_blockLines options htypes]
  rfl

/-- The declarations and relationships of a diagram are those of its blocks,
with the links that are read from it folded in. -/
theorem read_render (hstyle : options.inheritance = .headerClauses)
    (htitle : '\n' ∉ (titleOf options assembly).toList)
    (htypes : ∀ node ∈ assembly.types, node.declaration.Readable)
    (hlinks : ∀ link ∈ drawnLinks assembly, Legible link) {found : List Relationship}
    (hfound : items ((drawnLinks assembly).map (fun link => (linkText link).toList) ++
      ["@enduml".toList]) = found.map .link) (unit : String) :
    let folded := found.foldl applyLink
      (assembly.types.map fun node => node.declaration.shown options, [])
    read unit (render options assembly).toList =
      { types := folded.1, relationships := folded.2 } := by
  rw [read, map_trim_lines_render hstyle htitle htypes hlinks,
    items_documentLines hstyle htypes hlinks, hfound, List.foldl_append,
    foldl_gather_blocks options htypes rfl, foldl_gather_links]
  rfl

/-- Reading a diagram gives the declarations it shows and drawn links only,
and meets no problem. -/
theorem exists_read_render (hstyle : options.inheritance = .headerClauses)
    (htitle : '\n' ∉ (titleOf options assembly).toList)
    (htypes : ∀ node ∈ assembly.types, node.declaration.Readable)
    (hlinks : ∀ link ∈ drawnLinks assembly, Drawn link) (unit : String) :
    ∃ found : List Relationship, found.Sublist (drawnLinks assembly) ∧
      read unit (render options assembly).toList = {
        types := assembly.types.map fun node => node.declaration.shown options
        relationships := found } := by
  obtain ⟨found, hsub, hitems⟩ := exists_items_linkText hlinks ["@enduml".toList]
  have hfound : ∀ link ∈ found, Drawn link := fun link hmem => hlinks link (hsub.mem hmem)
  rw [items_of_isDirective (by decide), items, List.append_nil] at hitems
  refine ⟨found, hsub, ?_⟩
  rw [read_render hstyle htitle htypes (fun link hmem => (hlinks link hmem).legible) hitems,
    foldl_applyLink hfound]
  rfl

end ClassAtlas.Diagram
