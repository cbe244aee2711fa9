import Mathlib.Tactic.Common
import ClassAtlas.Text.Basic

/-!
# Bytes of a text

Places in a text are given as offsets in its UTF-8 bytes. A character of one byte
stands at an offset exactly if its byte does: every byte of a longer character is
above those of one byte.
-/

namespace ClassAtlas.Text

theorem byteLength_append (s t : List Char) :
    byteLength (s ++ t) = byteLength s + byteLength t := by
  induction s with
  | nil => exact (Nat.zero_add _).symm
  | cons c rest ih =>
      change c.utf8Size + byteLength (rest ++ t) = c.utf8Size + byteLength rest + byteLength t
      rw [ih, Nat.add_assoc]

theorem byteLength_cons (c : Char) (s : List Char) :
    byteLength (c :: s) = c.utf8Size + byteLength s := rfl

theorem byteLength_le_of_prefix {s t : List Char} (h : s <+: t) : byteLength s ≤ byteLength t := by
  obtain ⟨rest, rfl⟩ := h
  rw [byteLength_append]
  exact Nat.le_add_right _ _

/-- A text is cut at a byte offset only between two of its characters. -/
theorem dropBytes?_eq_some_iff {n : ℕ} {s rest : List Char} :
    dropBytes? n s = some rest ↔ ∃ before, s = before ++ rest ∧ byteLength before = n := by
  constructor
  · intro h
    fun_induction dropBytes? n s with
    | case1 s => exact ⟨[], Option.some.inj h, rfl⟩
    | case2 n => contradiction
    | case3 n c s hsize ih =>
        obtain ⟨before, rfl, hbefore⟩ := ih h
        refine ⟨c :: before, rfl, ?_⟩
        rw [byteLength_cons]
        omega
    | case4 n c s hsize => contradiction
  · rintro ⟨before, rfl, rfl⟩
    induction before with
    | nil => exact dropBytes?.eq_1 rest
    | cons c before ih =>
        have hsize := c.utf8Size_pos
        obtain ⟨n, hn⟩ : ∃ n, byteLength (c :: before) = n + 1 :=
          Nat.exists_eq_succ_of_ne_zero (by rw [byteLength_cons]; omega)
        have hrest : n + 1 - c.utf8Size = byteLength before := by
          rw [byteLength_cons] at hn
          omega
        have hfits : c.utf8Size ≤ n + 1 := by
          rw [byteLength_cons] at hn
          omega
        rw [hn, List.cons_append, dropBytes?, if_pos hfits, hrest, ih]

/-- The bytes of a text in UTF-8. -/
def bytes (s : List Char) : List UInt8 :=
  s.flatMap String.utf8EncodeChar

/-- All bytes of a character of several bytes have their highest bit set. -/
theorem le_of_mem_utf8EncodeChar {c : Char} (h : 127 < c.toNat) {b : UInt8}
    (hb : b ∈ String.utf8EncodeChar c) : 128 ≤ b.toNat := by
  have hlong : ¬c.val.toNat ≤ 127 := Nat.not_le.mpr h
  unfold String.utf8EncodeChar at hb
  dsimp only at hb
  rw [if_neg hlong] at hb
  split_ifs at hb
  all_goals
    simp only [List.mem_cons, List.not_mem_nil, or_false] at hb
    rcases hb with rfl | rfl | rfl | rfl
  all_goals
    rw [UInt8.toNat_ofNat']
    omega

theorem length_bytes (s : List Char) : (bytes s).length = byteLength s := by
  induction s with
  | nil => rfl
  | cons c s ih =>
      rw [bytes, List.flatMap_cons, List.length_append, String.length_utf8EncodeChar, ← bytes, ih,
        byteLength_cons]

section OneByte

variable {c d : Char}

theorem utf8Size_of_le (h : c.toNat ≤ 127) : c.utf8Size = 1 :=
  Char.utf8Size_eq_one_iff.mpr h

theorem utf8EncodeChar_of_le (h : c.toNat ≤ 127) : String.utf8EncodeChar c = [c.toUInt8] :=
  String.utf8EncodeChar_eq_singleton (utf8Size_of_le h)

theorem toNat_toUInt8_of_le (h : c.toNat ≤ 127) : c.toUInt8.toNat = c.toNat := by
  change c.toNat % 256 = c.toNat
  omega

/-- The byte of a character of one byte occurs in no other character. -/
theorem eq_of_toUInt8_mem (hd : d.toNat ≤ 127) (h : d.toUInt8 ∈ String.utf8EncodeChar c) :
    c = d := by
  by_cases hc : c.toNat ≤ 127
  · rw [utf8EncodeChar_of_le hc, List.mem_singleton] at h
    apply Char.toNat_inj.mp
    rw [← toNat_toUInt8_of_le hc, ← h, toNat_toUInt8_of_le hd]
  · have hlarge := le_of_mem_utf8EncodeChar (Nat.not_le.mp hc) h
    rw [toNat_toUInt8_of_le hd] at hlarge
    omega

/-- A character of one byte stands at an offset exactly if its byte does. -/
theorem getElem?_bytes_eq_some_iff (hd : d.toNat ≤ 127) {s : List Char} {n : ℕ} :
    (bytes s)[n]? = some d.toUInt8 ↔
      ∃ before rest, s = before ++ d :: rest ∧ byteLength before = n := by
  constructor
  · intro h
    induction s generalizing n with
    | nil => contradiction
    | cons c s ih =>
        rw [bytes, List.flatMap_cons] at h
        by_cases hn : n < (String.utf8EncodeChar c).length
        · rw [List.getElem?_append_left hn] at h
          obtain rfl := eq_of_toUInt8_mem hd (List.mem_of_getElem? h)
          rw [String.length_utf8EncodeChar, utf8Size_of_le hd] at hn
          exact ⟨[], s, rfl, (Nat.lt_one_iff.mp hn).symm⟩
        · rw [List.getElem?_append_right (Nat.not_lt.mp hn)] at h
          obtain ⟨before, rest, rfl, hbefore⟩ := ih h
          refine ⟨c :: before, rest, rfl, ?_⟩
          rw [String.length_utf8EncodeChar] at hn hbefore
          rw [byteLength_cons]
          omega
  · rintro ⟨before, rest, rfl, rfl⟩
    rw [← length_bytes, bytes, List.flatMap_append, ← bytes,
      List.getElem?_append_right (Nat.le_refl _), Nat.sub_self, List.flatMap_cons,
      utf8EncodeChar_of_le hd]
    rfl

end OneByte

end ClassAtlas.Text
