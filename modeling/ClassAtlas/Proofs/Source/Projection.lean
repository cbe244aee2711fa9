import ClassAtlas.Proofs.Source.Depth

/-!
# What a projection shows

A projection shows a block as its braces, whatever stands in it: nested blocks,
braces in literals, or nothing. This holds in every surrounding text, also where
braces are missing. What is shown has no blocks in blocks, and a scan of it runs
side by side with the scan of the body, so projecting it again changes nothing.
-/

namespace ClassAtlas.Source

/-- A scan of a projection is at depth one where the scan of the body is inside a
block, and keeps every character. -/
theorem projectFrom_projectFrom (zone : Zone) (depth : ℕ) (s : List Char) :
    projectFrom (zone.outside depth) (min depth 1) (projectFrom zone depth s) =
      projectFrom zone depth s := by
  induction s generalizing zone depth with
  | nil => rfl
  | cons c s ih =>
      rw [projectFrom_cons]
      by_cases hkept : depth = 0 ∨ depthStep zone depth c = 0
      · obtain ⟨hzone, hdepth⟩ := outside_step hkept
        have hagain : min depth 1 = 0 ∨ min (depthStep zone depth c) 1 = 0 := by omega
        rw [if_pos hkept, List.singleton_append, projectFrom_cons, hzone, hdepth, ih,
          if_pos hagain, List.singleton_append]
      · obtain ⟨hzone, hdepth⟩ := outside_inner_step hkept
        rw [if_neg hkept, List.nil_append, ← hzone, ← hdepth, ih]

/-- Behind a text that ends outside literals, the inside of a block does not show
in the projection, at whatever depth the block stands and whatever follows it.
Projecting a projection changes nothing. -/
theorem project_hides_nested :
    (∀ pre b post, (Zone.code.after pre).inLiteral = false → Nested '{' '}' b →
      project (pre ++ '{' :: (b ++ '}' :: post)) = project (pre ++ '{' :: '}' :: post)) ∧
      ∀ s, project (project s) = project s := by
  constructor
  · intro pre b post hpre hb
    have hempty : Nested '{' '}' [] := by decide
    rw [project, projectFrom_append, projectFrom_block hpre hb, project, projectFrom_append,
      ← projectFrom_block hpre hempty]
    rfl
  · exact projectFrom_projectFrom .code 0

/-- A block behind braces that close nothing and in front of one that is never
closed, with braces in literals and in a text block. -/
theorem project_hides_nested_unbalanced :
    let pre := "\x7d s = \"\"; \x7d f() ".toList
    let b := "\x7b c = '\x7b'; \x7d t = \"\"\"\n\"\x7d\"\"\"; ".toList
    let post := " \x7d g() \x7b h".toList
    (Zone.code.after pre).inLiteral = false ∧ Nested '{' '}' b ∧
      project (pre ++ '{' :: (b ++ '}' :: post)) = project (pre ++ '{' :: '}' :: post) ∧
      project (pre ++ '{' :: '}' :: post) = "\x7d s = \"\"; \x7d f() \x7b\x7d \x7d g() \x7b".toList ∧
      project (project post) = project post := by
  intro pre b post
  have hpre : (Zone.code.after pre).inLiteral = false := by decide
  have hb : Nested '{' '}' b := by decide +kernel
  obtain ⟨hhides, hagain⟩ := project_hides_nested
  exact ⟨hpre, hb, hhides pre b post hpre hb, by decide, hagain post⟩

end ClassAtlas.Source
