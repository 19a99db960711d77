/-
  Jrpxy.Util.Buffering

  How much a buffer comes to hold.

  Code that reads off a connection fills the buffer and takes bytes out of it.
  `asks buffered len` says when it may poll the I/O for `len` more bytes.  If
  it never asks for more than a bound leaves room for, no buffer it passes
  through holds more than the bound, or than the buffer it started on
  (`Accesses.len_le`); and while it takes nothing, the bytes it was delivered
  are those the buffer has grown by (`Fills.delivered`).
-/
import Mathlib.Logic.Relation
import Jrpxy.Util.Fifo

namespace Jrpxy.Util

open Poll Relation

/-- One fill. -/
inductive Fill (asks : Nat → Nat → Prop) : BytesReader → BytesReader → Prop where
  | mk {r : BytesReader} (len : Nat) (h : asks r.len len) : Fill asks r (r.doFill len).2

/-- One operation on the buffer: a fill, or a take from the front. -/
inductive Access (asks : Nat → Nat → Prop) : BytesReader → BytesReader → Prop where
  | fill {r s : BytesReader} (h : Fill asks r s) : Access asks r s
  | splitTo {r s : BytesReader} {len : Nat} {bytes : Bytes} (h : r.splitTo len = some (bytes, s)) :
      Access asks r s
  | getU8 {r s : BytesReader} {b : UInt8} (h : r.getU8 = some (b, s)) : Access asks r s

/-- The buffers that fills lead to. -/
abbrev Fills (asks : Nat → Nat → Prop) : BytesReader → BytesReader → Prop := ReflTransGen (Fill asks)

/-- The buffers that operations lead to. -/
abbrev Accesses (asks : Nat → Nat → Prop) : BytesReader → BytesReader → Prop :=
  ReflTransGen (Access asks)

theorem Fills.accesses {asks : Nat → Nat → Prop} {r s : BytesReader} (h : Fills asks r s) :
    Accesses asks r s :=
  ReflTransGen.mono (fun _ _ hfill => Access.fill hfill) _ _ h

/-! ## The polls -/

namespace BytesReader

@[simp] theorem pollExtend_snd (len : Nat) (r : BytesReader) :
    (r.pollExtend len).2 = (r.doFill len).2 := by
  unfold pollExtend
  generalize r.doFill len = x
  obtain ⟨_ | n | e | _, s⟩ := x
  · rfl
  · simp only [mapErr_mk, Polled.mapErr_ok, andThen_ok]
    split <;> rfl
  · rfl
  · rfl

/-- A fill appends what it is delivered, at most as much as it asks for. -/
theorem doFill_appends (len : Nat) (r : BytesReader) :
    ∃ d, d.length ≤ len ∧ (r.doFill len).2.asBytes = r.asBytes ++ d ∧
      r.io.bytes = d ++ (r.doFill len).2.io.bytes := by
  have hle := Fifo.pollRead_length_le len r.io
  have hbytes := Source.pollRead_bytes len r.io
  have hkept : (r.buffer.reserve len).asBytes = r.asBytes ++ [] := by
    rw [ReaderBuffer.asBytes_reserve, List.append_nil]
    rfl
  unfold doFill
  generalize r.io.pollRead len = x at hle hbytes
  obtain ⟨_ | d | e | _, io⟩ := x
  · exact ⟨[], Nat.zero_le len, hkept, hbytes.symm⟩
  · refine ⟨d, hle, ?_, hbytes.1⟩
    show ((r.buffer.reserve len).advance d).asBytes = r.asBytes ++ d
    rw [ReaderBuffer.asBytes_advance, ReaderBuffer.asBytes_reserve]
    rfl
  · exact ⟨[], Nat.zero_le len, hkept, hbytes.symm⟩
  · exact hle.elim

variable {asks : Nat → Nat → Prop}

theorem pollExtend_fills {len : Nat} {r : BytesReader} (h : asks r.len len) :
    Fills asks r (r.pollExtend len).2 := by
  rw [pollExtend_snd]
  exact .single (.mk len h)

/-- `ensure` polls the I/O only when nothing is buffered. -/
theorem pollEnsure_fills {len : Nat} (h : asks 0 len) (r : BytesReader) :
    Fills asks r (r.pollEnsure len).2 := by
  unfold pollEnsure
  split
  · exact .refl
  · next hempty =>
    have hlen : r.len = 0 := by simpa [isEmpty] using hempty
    exact pollExtend_fills (by rw [hlen]; exact h)

/-- A fill that is pending leaves the buffer as long as it was. -/
theorem len_of_doFill_pending {len : Nat} {r s : BytesReader} (h : r.doFill len = (.pending, s)) :
    s.len = r.len := by
  unfold doFill at h
  generalize r.io.pollRead len = x at h
  obtain ⟨_ | d | e | _, io⟩ := x
  · cases h
    rfl
  · cases h
  · cases h
  · cases h

/-- Every poll of a whole `read` is a fill. -/
theorem read_fills {len : Nat} {r : BytesReader} (h : asks r.len len) (fuel : Nat) :
    Fills asks r (blockOn (pollRead len) fuel r).2 := by
  induction fuel generalizing r with
  | zero => exact .refl
  | succ fuel ih =>
    have hfill : Fills asks r (r.pollRead len).2 := .single (.mk len h)
    rw [blockOn]
    split
    · next s heq =>
      rw [heq] at hfill
      have hlen := len_of_doFill_pending heq
      exact hfill.trans (ih (by rw [hlen]; exact h))
    · next hready => exact hfill

theorem len_of_getU8 {r s : BytesReader} {b : UInt8} (h : r.getU8 = some (b, s)) :
    s.len ≤ r.len := by
  have hne : r.asBytes ≠ [] := by
    intro hnil
    have hlen : r.len = 0 := by rw [← length_asBytes, hnil, List.length_nil]
    have hnone : r.buffer.getU8 = none := dif_neg (Nat.not_lt.mpr (Nat.le_of_eq hlen))
    rw [getU8, hnone] at h
    cases h
  obtain ⟨x, s', hget, -, hweight, hio⟩ := getU8_eq hne
  rw [h] at hget
  cases hget
  simp only [weight, hio] at hweight
  omega

end BytesReader

/-! ## Bounds -/

variable {asks : Nat → Nat → Prop} {bound : Nat}

/-- Fills within the bound stay within it. -/
theorem Accesses.len_le (hasks : ∀ buffered len, asks buffered len → buffered + len ≤ bound)
    {r s : BytesReader} (h : Accesses asks r s) : s.len ≤ max r.len bound := by
  induction h with
  | refl => exact Nat.le_max_left _ _
  | tail _ hstep ih =>
    cases hstep with
    | fill hfill =>
      obtain ⟨len, hlen⟩ := hfill
      obtain ⟨d, hd, hbytes, -⟩ := BytesReader.doFill_appends len ‹_›
      have happend := congrArg List.length hbytes
      rw [List.length_append, BytesReader.length_asBytes, BytesReader.length_asBytes] at happend
      have hroom := hasks _ len hlen
      omega
    | splitTo htake =>
      obtain ⟨-, -, -, -, hweight, hio⟩ := BytesReader.unread_splitTo htake
      simp only [BytesReader.weight, hio] at hweight
      omega
    | getU8 htake =>
      have hlt := BytesReader.len_of_getU8 htake
      omega

/-- While nothing is taken, the buffer grows by what is delivered. -/
theorem Fills.delivered {r s : BytesReader} (h : Fills asks r s) :
    ∃ d, s.asBytes = r.asBytes ++ d ∧ r.io.bytes = d ++ s.io.bytes := by
  induction h with
  | refl => exact ⟨[], (List.append_nil _).symm, rfl⟩
  | tail _ hstep ih =>
    obtain ⟨d, hbytes, hio⟩ := ih
    obtain ⟨len, -⟩ := hstep
    obtain ⟨d', -, hbytes', hio'⟩ := BytesReader.doFill_appends len _
    refine ⟨d ++ d', ?_, ?_⟩
    · rw [hbytes', hbytes, List.append_assoc]
    · rw [hio, hio', List.append_assoc]

/-! ## Deliveries -/

/-- Operations that take `taken` bytes lead from one buffer to the other: the rest of what was
    buffered and delivered is buffered still. -/
structure Passes (asks : Nat → Nat → Prop) (taken : Nat) (r s : BytesReader) : Prop where
  accesses : Accesses asks r s
  delivered : ∃ d, r.io.bytes = d ++ s.io.bytes ∧ r.len + d.length = taken + s.len

theorem Fills.passes {asks : Nat → Nat → Prop} {r s : BytesReader} (h : Fills asks r s) : Passes asks 0 r s := by
  refine ⟨h.accesses, ?_⟩
  obtain ⟨d, hbytes, hio⟩ := h.delivered
  have hlen := congrArg List.length hbytes
  rw [List.length_append, BytesReader.length_asBytes, BytesReader.length_asBytes] at hlen
  exact ⟨d, hio, by omega⟩

theorem Passes.of_splitTo {r s : BytesReader} {len : Nat} {bytes : Bytes}
    (h : r.splitTo len = some (bytes, s)) : Passes asks len r s := by
  refine ⟨.single (.splitTo h), [], ?_, ?_⟩
  · obtain ⟨-, -, -, -, -, hio⟩ := BytesReader.unread_splitTo h
    rw [hio, List.nil_append]
  · obtain ⟨-, -, -, -, hweight, hio⟩ := BytesReader.unread_splitTo h
    simp only [BytesReader.weight, hio] at hweight
    rw [List.length_nil]
    omega

theorem Passes.trans {m n : Nat} {r s t : BytesReader} (hrs : Passes asks m r s)
    (hst : Passes asks n s t) : Passes asks (m + n) r t := by
  refine ⟨hrs.accesses.trans hst.accesses, ?_⟩
  obtain ⟨d, hio, hlen⟩ := hrs.delivered
  obtain ⟨d', hio', hlen'⟩ := hst.delivered
  refine ⟨d ++ d', ?_, ?_⟩
  · rw [hio, hio', List.append_assoc]
  · rw [List.length_append]
    omega

/-- What is delivered and not taken stays within the bound. -/
theorem Passes.delivered_le (hasks : ∀ buffered len, asks buffered len → buffered + len ≤ bound)
    {taken : Nat} {r s : BytesReader} (h : Passes asks taken r s) :
    ∃ d, r.io.bytes = d ++ s.io.bytes ∧ r.len + d.length ≤ taken + max r.len bound := by
  obtain ⟨d, hio, hlen⟩ := h.delivered
  have hle := h.accesses.len_le hasks
  exact ⟨d, hio, by omega⟩

end Jrpxy.Util
