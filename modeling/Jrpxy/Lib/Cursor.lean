/-
  Jrpxy.Lib.Cursor

  Writing into a buffer of fixed size.

  A `Cursor` writes at its position and moves behind what it has written.
  What does not fit is not written, and the write fails.  Pieces written one
  after the other arrive as one if all of them fit together
  (`writePieces_eq`).
-/
import Mathlib.Data.List.Basic

/-- A buffer of `size` cells that is being written. -/
structure Cursor (α : Type) (size : Nat) where
  inner : List α
  position : Nat
  length_inner : inner.length = size
  deriving DecidableEq, Repr

namespace Cursor

variable {α : Type} {size : Nat}

/-- A buffer of one value, to be written from its start. -/
def new (a : α) : Cursor α size := ⟨List.replicate size a, 0, List.length_replicate⟩

/-- What has been written. -/
def filled (self : Cursor α size) : List α := self.inner.take self.position

/-- Writing over some cells keeps the size. -/
theorem length_overwrite {inner buf : List α} {position : Nat} (hinner : inner.length = size)
    (hfits : position + buf.length ≤ size) :
    (inner.take position ++ buf ++ inner.drop (position + buf.length)).length = size := by
  rw [List.length_append, List.length_append, List.length_take, List.length_drop]
  omega

/-- Write all of `buf`, if it fits. -/
def writeAll (self : Cursor α size) (buf : List α) : Option (Cursor α size) :=
  if h : self.position + buf.length ≤ size then
    some ⟨self.inner.take self.position ++ buf ++ self.inner.drop (self.position + buf.length),
      self.position + buf.length, length_overwrite self.length_inner h⟩
  else none

/-- Write one piece after the other. -/
def writePieces : List (List α) → Cursor α size → Option (Cursor α size)
  | [], self => some self
  | piece :: pieces, self => (self.writeAll piece).bind (writePieces pieces)

theorem writeAll_eq {self : Cursor α size} {buf : List α}
    (hfits : self.position + buf.length ≤ size) :
    ∃ c, self.writeAll buf = some c ∧ c.position = self.position + buf.length ∧
      c.filled = self.filled ++ buf := by
  refine ⟨_, dif_pos hfits, rfl, ?_⟩
  have hlen : (self.inner.take self.position ++ buf).length = self.position + buf.length := by
    rw [List.length_append, List.length_take, self.length_inner]
    omega
  exact List.take_left' hlen

/-- Pieces that fit together are written as one. -/
theorem writePieces_eq {pieces : List (List α)} {self : Cursor α size}
    (hfits : self.position + pieces.flatten.length ≤ size) :
    ∃ c, writePieces pieces self = some c ∧ c.position = self.position + pieces.flatten.length ∧
      c.filled = self.filled ++ pieces.flatten := by
  induction pieces generalizing self with
  | nil => exact ⟨self, rfl, rfl, (List.append_nil _).symm⟩
  | cons piece pieces ih =>
    rw [List.flatten_cons, List.length_append] at hfits
    obtain ⟨c, hpiece, hposition, hfilled⟩ :=
      @writeAll_eq _ _ self piece (by omega)
    obtain ⟨c', hpieces, hposition', hfilled'⟩ := @ih c (by omega)
    refine ⟨c', ?_, ?_, ?_⟩
    · rw [writePieces, hpiece, Option.bind_some, hpieces]
    · rw [hposition', hposition, List.flatten_cons, List.length_append, Nat.add_assoc]
    · rw [hfilled', hfilled, List.flatten_cons, List.append_assoc]

end Cursor
