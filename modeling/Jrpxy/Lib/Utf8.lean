/-
  Jrpxy.Lib.Utf8

  UTF-8 on lists of bytes.

  A byte below 128 stands for itself, and is no part of the encoding of
  another character (`of_mem_utf8EncodeChar`).  So a text that is cut in front
  of one is a text on both sides (`IsUtf8.split`).
-/
import Mathlib.Data.List.Basic

namespace Utf8

/-- The bytes encode a sequence of Unicode scalar values. -/
def IsUtf8 (s : List UInt8) : Prop := s.toByteArray.IsValidUTF8

instance (s : List UInt8) : Decidable (IsUtf8 s) :=
  inferInstanceAs (Decidable s.toByteArray.IsValidUTF8)

theorem isUtf8_iff {s : List UInt8} :
    IsUtf8 s ↔ ∃ cs : List Char, s = cs.flatMap String.utf8EncodeChar := by
  constructor
  · rintro ⟨cs, hcs⟩
    exact ⟨cs, List.toByteArray_inj.mp hcs⟩
  · rintro ⟨cs, rfl⟩
    exact ⟨cs, rfl⟩

theorem isUtf8_nil : IsUtf8 [] := isUtf8_iff.mpr ⟨[], rfl⟩

/-- One text behind another is a text. -/
theorem IsUtf8.append {s t : List UInt8} (hs : IsUtf8 s) (ht : IsUtf8 t) : IsUtf8 (s ++ t) := by
  obtain ⟨cs, rfl⟩ := isUtf8_iff.mp hs
  obtain ⟨ds, rfl⟩ := isUtf8_iff.mp ht
  exact isUtf8_iff.mpr ⟨cs ++ ds, by rw [List.flatMap_append]⟩

/-- The byte of a number that is not below 128. -/
theorem le_ofNat {n : Nat} (hle : 128 ≤ n) (hlt : n < 256) : 128 ≤ UInt8.ofNat n := by
  rw [UInt8.le_iff_toNat_le, UInt8.toNat_ofNat', Nat.mod_eq_of_lt hlt]
  exact hle

/-- A byte of a character is all of it, or not ASCII. -/
theorem of_mem_utf8EncodeChar {c : Char} {b : UInt8} (hb : b ∈ String.utf8EncodeChar c) :
    String.utf8EncodeChar c = [b] ∨ 128 ≤ b := by
  unfold String.utf8EncodeChar at hb ⊢
  dsimp only at hb ⊢
  split
  -- one byte
  · next hone =>
    rw [if_pos hone, List.mem_singleton] at hb
    exact .inl (by rw [hb])
  -- the bytes of a longer encoding have their highest bit set
  · next hone =>
    rw [if_neg hone] at hb
    refine .inr ?_
    split at hb
    · simp only [List.mem_cons, List.not_mem_nil, or_false] at hb
      rcases hb with rfl | rfl <;> exact le_ofNat (by omega) (by omega)
    · split at hb
      · simp only [List.mem_cons, List.not_mem_nil, or_false] at hb
        rcases hb with rfl | rfl | rfl <;> exact le_ofNat (by omega) (by omega)
      · simp only [List.mem_cons, List.not_mem_nil, or_false] at hb
        rcases hb with rfl | rfl | rfl | rfl <;> exact le_ofNat (by omega) (by omega)

/-- An ASCII byte is the encoding of a character. -/
theorem isUtf8_singleton {b : UInt8} (hb : b < 128) : IsUtf8 [b] := by
  have hall : ∀ n : Fin 128, IsUtf8 [UInt8.ofNat n] := by decide +kernel
  have hlt : b.toNat < 128 := UInt8.lt_iff_toNat_lt.mp hb
  simpa using hall ⟨b.toNat, hlt⟩

/-- An ASCII byte begins a character, so both sides of a cut in front of it are texts. -/
theorem IsUtf8.split {s t : List UInt8} {b : UInt8} (h : IsUtf8 (s ++ b :: t)) (hb : b < 128) :
    IsUtf8 s ∧ IsUtf8 (b :: t) := by
  obtain ⟨cs, hcs⟩ := isUtf8_iff.mp h
  clear h
  induction cs generalizing s with
  | nil =>
    have hnil := congrArg List.length hcs
    simp at hnil
  | cons c cs ih =>
    have hparts := hcs
    rw [List.flatMap_cons, List.append_eq_append_iff] at hparts
    rcases hparts with ⟨x, hchar, hrest⟩ | ⟨x, rfl, hrest⟩
    · cases x with
      | nil =>
        rw [List.append_nil] at hchar
        rw [List.nil_append] at hrest
        exact ⟨isUtf8_iff.mpr ⟨[c], by simp [hchar]⟩, isUtf8_iff.mpr ⟨cs, hrest⟩⟩
      -- the byte is one of the character, and so all of it
      | cons b' x =>
        obtain ⟨rfl, rfl⟩ := List.cons.inj hrest
        rcases of_mem_utf8EncodeChar (c := c) (b := b) (by simp [hchar]) with hone | hhigh
        · rw [hone] at hchar
          cases s with
          | nil => exact ⟨isUtf8_nil, isUtf8_iff.mpr ⟨_, hcs⟩⟩
          | cons a s =>
            have hlen := congrArg List.length hchar
            simp at hlen
        · exact absurd hb (UInt8.not_lt.mpr hhigh)
    · obtain ⟨hx, hbehind⟩ := ih hrest.symm
      have hchar : IsUtf8 (String.utf8EncodeChar c) := isUtf8_iff.mpr ⟨[c], by simp⟩
      exact ⟨hchar.append hx, hbehind⟩

/-- The end of a text is a text, if it begins with an ASCII byte. -/
theorem IsUtf8.of_suffix {s t : List UInt8} (h : IsUtf8 s) (hsuffix : t <:+ s)
    (hhead : ∀ b ∈ t.head?, b < 128) : IsUtf8 t := by
  obtain ⟨u, rfl⟩ := hsuffix
  cases t with
  | nil => exact isUtf8_nil
  | cons b t => exact (h.split (hhead b rfl)).2

section Delimiters

variable {p : UInt8 → Bool} (hp : ∀ b, p b = false → b < 128)
include hp

/-- What is skipped up to an ASCII delimiter leaves a list that begins with it. -/
theorem head_dropWhile (s : List UInt8) : ∀ b ∈ (s.dropWhile p).head?, b < 128 := by
  intro b hb
  have hnot := List.head?_dropWhile_not p s
  rw [Option.mem_def.mp hb] at hnot
  exact hp b (by simpa using hnot)

/-- A text up to an ASCII delimiter is a text. -/
theorem IsUtf8.takeWhile {s : List UInt8} (h : IsUtf8 s) : IsUtf8 (s.takeWhile p) := by
  have hhead := head_dropWhile hp s
  rw [← List.takeWhile_append_dropWhile (p := p) (l := s)] at h
  generalize s.dropWhile p = rest at h hhead
  cases rest with
  | nil =>
    rw [List.append_nil] at h
    exact h
  | cons b rest => exact (h.split (hhead b rfl)).1

end Delimiters

end Utf8
