/-
  Jrpxy.Lib.Scan

  Cutting a list where a scan stops.

  A scan for the first element that fails a test cuts a list in two.  There is
  one such cut (`Cut.unique`): it is where `takeWhile` stops, and slicing at
  the position a scan returns finds it (`slice?_before`, `slice?_behind`).
-/
import Mathlib.Data.List.TakeDrop

namespace Scan

variable {α : Type}

/-- The elements of `l` from position `i` to before position `j`; `none` when the range is
    out of bounds. -/
def slice? (l : List α) (i j : Nat) : Option (List α) :=
  if i ≤ j ∧ j ≤ l.length then some ((l.take j).drop i) else none

/-- The position of the first element that fails the test, or the length. -/
def stop (p : α → Bool) (l : List α) : Nat := l.findIdx fun x => !p x

theorem stop_le (p : α → Bool) (l : List α) : stop p l ≤ l.length := List.findIdx_le_length

theorem take_stop (p : α → Bool) (l : List α) : l.take (stop p l) = l.takeWhile p :=
  List.takeWhile_eq_take_findIdx_not.symm

theorem drop_stop (p : α → Bool) (l : List α) : l.drop (stop p l) = l.dropWhile p :=
  List.dropWhile_eq_drop_findIdx_not.symm

/-- A slice to the end. -/
theorem slice?_to_end {l : List α} {i : Nat} (h : i ≤ l.length) :
    slice? l i l.length = some (l.drop i) := by
  rw [slice?, if_pos ⟨h, Nat.le_refl _⟩, List.take_length]

/-- What stands before the position of a scan. -/
theorem slice?_before (p : α → Bool) (l : List α) : slice? l 0 (stop p l) = some (l.takeWhile p) := by
  rw [slice?, if_pos ⟨Nat.zero_le _, stop_le p l⟩, List.drop_zero, take_stop]

/-- What stands behind it. -/
theorem slice?_behind (p : α → Bool) (l : List α) :
    slice? l (stop p l) l.length = some (l.dropWhile p) := by
  rw [slice?_to_end (stop_le p l), drop_stop]

/-- A slice of a slice to the end is one of the list. -/
theorem slice?_shift {l : List α} {i j : Nat} (h : i + j ≤ l.length) :
    slice? l i (i + j) = some ((l.drop i).take j) := by
  rw [slice?, if_pos ⟨Nat.le_add_right i j, h⟩, List.drop_take, Nat.add_sub_cancel_left]

/-- `l` is cut in `a`, on which the test holds, and `b`, which does not go on with it. -/
structure Cut (p : α → Bool) (l a b : List α) : Prop where
  eq : l = a ++ b
  holds : ∀ x ∈ a, p x = true
  stops : ∀ x ∈ b.head?, p x = false

/-- Every list can be cut. -/
theorem cut_of_stop (p : α → Bool) (l : List α) : Cut p l (l.takeWhile p) (l.dropWhile p) := by
  refine ⟨List.takeWhile_append_dropWhile.symm, ?_, ?_⟩
  · exact List.all_eq_true.mp List.all_takeWhile
  · intro x hx
    have hnot := List.head?_dropWhile_not p l
    rw [Option.mem_def.mp hx] at hnot
    simpa using hnot

/-- There is one cut of a list, at which every scan stops. -/
theorem Cut.unique {p : α → Bool} {l a b : List α} (h : Cut p l a b) :
    a = l.takeWhile p ∧ b = l.dropWhile p := by
  obtain ⟨rfl, holds, stops⟩ := h
  rw [List.takeWhile_append_of_pos holds, List.dropWhile_append_of_pos holds]
  cases b with
  | nil => simp
  | cons x rest =>
    have hx : p x = false := stops x rfl
    simp [hx]

end Scan
