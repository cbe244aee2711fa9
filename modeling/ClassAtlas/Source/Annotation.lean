import ClassAtlas.Text.Word
import ClassAtlas.Source.Block

/-!
# Annotations

An annotation is an at sign with a dotted name and, directly after the name's
blanks, an optional parenthesised list. The declaration word `@interface` is no
annotation.
-/

namespace ClassAtlas.Source

open ClassAtlas.Text

/-- What follows the annotation name at the front of a text, without blanks. -/
def afterAnnotationName? : List Char → Option (List Char)
  | '@' :: rest =>
    if "interface".toList.isPrefixOf rest || (rest.takeWhile isDottedName).isEmpty then none
    else some (trimStart (rest.dropWhile isDottedName))
  | _ => none

/-- The text without an argument list at its front, if the list is closed. -/
def skipArguments (s : List Char) : List Char :=
  match splitBlock? '(' ')' s with
  | some (_, after) => after
  | none => s

/-- What follows the annotation at the front of a text, without blanks. -/
def afterAnnotation? (s : List Char) : Option (List Char) :=
  (afterAnnotationName? s).map fun rest => trimStart (skipArguments rest)

theorem length_afterAnnotationName? {s rest : List Char} (h : afterAnnotationName? s = some rest) :
    rest.length < s.length := by
  match s with
  | [] => simp [afterAnnotationName?] at h
  | c :: t =>
    unfold afterAnnotationName? at h
    split at h
    · rename_i t' heq
      obtain ⟨-, rfl⟩ := List.cons.inj heq
      split at h
      · simp at h
      · obtain rfl := Option.some.inj h
        have := length_trimStart_le (t.dropWhile isDottedName)
        have := (List.dropWhile_sublist (l := t) isDottedName).length_le
        simp; omega
    · simp at h

theorem length_skipArguments_le (s : List Char) : (skipArguments s).length ≤ s.length := by
  unfold skipArguments splitBlock?
  split
  · rename_i h
    split at h
    · simp at h
    · split at h
      · obtain ⟨n, -, hn⟩ := Option.map_eq_some_iff.1 h
        obtain ⟨-, rfl⟩ := Prod.mk.inj hn
        simp; omega
      · simp at h
  · exact Nat.le_refl _

theorem length_afterAnnotation? {s rest : List Char} (h : afterAnnotation? s = some rest) :
    rest.length < s.length := by
  obtain ⟨middle, hm, rfl⟩ := Option.map_eq_some_iff.1 h
  have := length_afterAnnotationName? hm
  have := length_skipArguments_le middle
  have := length_trimStart_le (skipArguments middle)
  omega

/-- The text without the annotations at its front. -/
def dropAnnotations (s : List Char) : List Char :=
  match _h : afterAnnotation? s with
  | some rest => dropAnnotations rest
  | none => s
termination_by s.length
decreasing_by exact length_afterAnnotation? _h

/-- The text without leading blanks and annotations. -/
def stripAnnotations (s : List Char) : List Char :=
  dropAnnotations (trimStart s)

end ClassAtlas.Source
