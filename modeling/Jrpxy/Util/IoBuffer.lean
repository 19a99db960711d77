/-
  Jrpxy.Util.IoBuffer

  The buffered reader under every parser.

  `ReaderBuffer` keeps its bytes and how many of them are valid; the bytes
  behind `position` are stale space kept for the next fill.  The operations
  whose assertions a caller can violate answer `none`.  `BytesReader` puts
  such a buffer in front of a `Source`.

  What a caller sees of a reader is `unread`: the valid bytes and then what
  the source still delivers.  Filling moves bytes from one side to the other
  and so leaves it alone; only `splitTo` and `getU8` consume.
-/
import Jrpxy.Util.Io

namespace Jrpxy.Util

open Poll

inductive ReaderBufferError where
  | io (e : IoError)
  | unexpectedEOF
  deriving DecidableEq, Repr

/-- A buffer of which the first `position` bytes are valid. -/
structure ReaderBuffer where
  buffer : Bytes
  position : Nat
  position_le : position ≤ buffer.length
  deriving DecidableEq, Repr

namespace ReaderBuffer

/-- The empty buffer. -/
def default : ReaderBuffer := ⟨[], 0, Nat.le_refl 0⟩

def len (b : ReaderBuffer) : Nat := b.position

def asBytes (b : ReaderBuffer) : Bytes := b.buffer.take b.position

/-- Split off the first `len` bytes; `none` when the assertion fails. -/
def splitTo (b : ReaderBuffer) (len : Nat) : Option (Bytes × ReaderBuffer) :=
  if len ≤ b.position then
    some (b.buffer.take len, ⟨b.buffer.drop len, b.position - len, by
      have := b.position_le
      rw [List.length_drop]
      omega⟩)
  else none

/-- Make room for `extra` more bytes behind the valid ones. -/
def reserve (b : ReaderBuffer) (extra : Nat) : ReaderBuffer :=
  ⟨b.buffer ++ List.replicate (b.position + extra - b.buffer.length) 0, b.position, by
    have := b.position_le
    rw [List.length_append]
    omega⟩

/-- Store `filled` in the reserved space and advance over it. -/
def advance (b : ReaderBuffer) (filled : Bytes) : ReaderBuffer :=
  ⟨b.buffer.take b.position ++ filled ++ b.buffer.drop (b.position + filled.length),
    b.position + filled.length, by
    have := b.position_le
    simp only [List.length_append, List.length_take, List.length_drop]
    omega⟩

/-- Take one byte; `none` when the assertion fails. -/
def getU8 (b : ReaderBuffer) : Option (UInt8 × ReaderBuffer) :=
  if hpos : 0 < b.position then
    match hbuf : b.buffer with
    | [] => none
    | x :: rest => some (x, ⟨rest, b.position - 1, by
        have h := b.position_le
        rw [hbuf, List.length_cons] at h
        omega⟩)
  else none

@[simp] theorem length_asBytes (b : ReaderBuffer) : b.asBytes.length = b.position := by
  rw [asBytes, List.length_take, Nat.min_eq_left b.position_le]

@[simp] theorem asBytes_reserve (b : ReaderBuffer) (extra : Nat) :
    (b.reserve extra).asBytes = b.asBytes := by
  simp only [asBytes, reserve]
  rw [List.take_append_of_le_length b.position_le]

theorem asBytes_advance (b : ReaderBuffer) (filled : Bytes) :
    (b.advance filled).asBytes = b.asBytes ++ filled := by
  have hlen : b.position + filled.length = (b.buffer.take b.position ++ filled).length := by
    rw [List.length_append, List.length_take, Nat.min_eq_left b.position_le]
  simp only [asBytes, advance]
  rw [List.take_append_of_le_length (Nat.le_of_eq hlen), List.take_of_length_le (Nat.le_of_eq hlen.symm)]

/-- Splitting within the valid bytes succeeds and divides them. -/
theorem splitTo_eq {b : ReaderBuffer} {len : Nat} (h : len ≤ b.position) :
    ∃ b', b.splitTo len = some (b.asBytes.take len, b') ∧ b'.asBytes = b.asBytes.drop len := by
  rw [splitTo, if_pos h, asBytes, List.take_take, Nat.min_eq_left h, List.drop_take]
  exact ⟨_, rfl, rfl⟩

/-- Taking a byte of a non-empty buffer. -/
theorem getU8_eq {b : ReaderBuffer} {x : UInt8} {rest : Bytes} (h : b.asBytes = x :: rest) :
    ∃ b', b.getU8 = some (x, b') ∧ b'.asBytes = rest := by
  obtain ⟨buffer, position, hle⟩ := b
  simp only [asBytes] at h
  cases position with
  | zero => simp at h
  | succ p =>
    cases buffer with
    | nil => simp at h
    | cons y ys =>
      rw [List.take_succ_cons, List.cons.injEq] at h
      obtain ⟨rfl, rfl⟩ := h
      exact ⟨⟨ys, p, by simpa using hle⟩, rfl, rfl⟩

end ReaderBuffer

/-- A source with a buffer in front. -/
structure BytesReader where
  io : Source
  buffer : ReaderBuffer
  deriving DecidableEq, Repr

namespace BytesReader

def new (io : Source) : BytesReader := ⟨io, .default⟩

def len (r : BytesReader) : Nat := r.buffer.len

def isEmpty (r : BytesReader) : Bool := r.len == 0

def asBytes (r : BytesReader) : Bytes := r.buffer.asBytes

def splitTo (r : BytesReader) (len : Nat) : Option (Bytes × BytesReader) :=
  (r.buffer.splitTo len).map fun (bytes, buffer) => (bytes, { r with buffer })

def getU8 (r : BytesReader) : Option (UInt8 × BytesReader) :=
  r.buffer.getU8.map fun (b, buffer) => (b, { r with buffer })

/-- One poll of the source into `len` bytes of reserved space. -/
def doFill (len : Nat) (r : BytesReader) : Polled IoError Nat × BytesReader :=
  let buffer := r.buffer.reserve len
  andThen (r.io.pollRead len) (fun io => ⟨io, buffer⟩) fun filled io =>
    (.ok filled.length, ⟨io, buffer.advance filled⟩)

/-- One poll of `read`: the number of bytes added. -/
def pollRead (len : Nat) (r : BytesReader) : Polled IoError Nat × BytesReader := r.doFill len

/-- One poll of `extend`: at least one byte is added. -/
def pollExtend (len : Nat) (r : BytesReader) : Polled ReaderBufferError Unit × BytesReader :=
  andThen (mapErr .io (r.doFill len)) id fun filled r =>
    if filled = 0 then (.err .unexpectedEOF, r) else (.ok (), r)

/-- One poll of `ensure`: at least one byte is in the buffer. -/
def pollEnsure (len : Nat) (r : BytesReader) : Polled ReaderBufferError Unit × BytesReader :=
  if !r.isEmpty then (.ok (), r) else r.pollExtend len

/-! ## What is left to read -/

/-- The bytes not consumed yet: buffered ones first. -/
def unread (r : BytesReader) : Bytes := r.asBytes ++ r.io.stream

/-- How much polling and consuming is left in the reader. -/
def weight (r : BytesReader) : Nat := r.len + r.io.weight

/-- Fill the buffer with up to `len` more bytes; none at the end of file. -/
def read (len : Nat) (r : BytesReader) : Polled IoError Nat × BytesReader :=
  blockOn (pollRead len) (r.weight + 1) r

@[simp] theorem length_asBytes (r : BytesReader) : r.asBytes.length = r.len :=
  r.buffer.length_asBytes

theorem isEmpty_iff {r : BytesReader} : r.isEmpty = true ↔ r.asBytes = [] := by
  rw [isEmpty, ← length_asBytes, beq_iff_eq, List.length_eq_zero_iff]

@[simp] theorem unread_new (io : Source) : (new io).unread = io.stream := rfl

/-- Splitting off valid bytes. -/
theorem splitTo_eq {r : BytesReader} {len : Nat} (h : len ≤ r.len) :
    ∃ r', r.splitTo len = some (r.asBytes.take len, r') ∧ r'.asBytes = r.asBytes.drop len ∧
      r'.io = r.io := by
  obtain ⟨b', hsplit, hbytes⟩ := ReaderBuffer.splitTo_eq h
  exact ⟨⟨r.io, b'⟩, by rw [splitTo, hsplit]; rfl, hbytes, rfl⟩

/-- Splitting consumes exactly the bytes it returns. -/
theorem unread_splitTo {r r' : BytesReader} {len : Nat} {bytes : Bytes}
    (h : r.splitTo len = some (bytes, r')) :
    bytes = r.asBytes.take len ∧ r.unread = bytes ++ r'.unread ∧ len ≤ r.len ∧
      bytes.length = len ∧ r'.weight + len = r.weight ∧ r'.io = r.io := by
  have hle : len ≤ r.len := by
    apply Nat.le_of_not_lt
    intro hlt
    have hnone : r.buffer.splitTo len = none := if_neg (Nat.not_le.mpr hlt)
    rw [splitTo, hnone] at h
    cases h
  obtain ⟨r'', heq, hbytes, hio⟩ := splitTo_eq hle
  rw [h] at heq
  cases heq
  have hlen : r'.len = r.len - len := by
    rw [← length_asBytes, hbytes, List.length_drop, length_asBytes]
  refine ⟨rfl, ?_, hle, ?_, ?_, hio⟩
  · rw [unread, unread, hbytes, hio, ← List.append_assoc, List.take_append_drop]
  · rw [List.length_take, length_asBytes, Nat.min_eq_left hle]
  · rw [weight, weight, hlen, hio]
    omega

/-- What is left to read behind a split. -/
theorem unread_eq_drop_of_splitTo {r r' : BytesReader} {len : Nat} {bytes : Bytes}
    (h : r.splitTo len = some (bytes, r')) : r'.unread = r.unread.drop len := by
  obtain ⟨-, hparts, -, hlen, -, -⟩ := unread_splitTo h
  rw [hparts, ← hlen, List.drop_left]

/-- Taking one byte of a non-empty buffer. -/
theorem getU8_eq {r : BytesReader} (h : r.asBytes ≠ []) :
    ∃ x r', r.getU8 = some (x, r') ∧ r.unread = x :: r'.unread ∧ r'.weight < r.weight ∧
      r'.io = r.io := by
  obtain ⟨x, rest, hx⟩ := List.exists_cons_of_ne_nil h
  obtain ⟨b', hget, hbytes⟩ := ReaderBuffer.getU8_eq hx
  have hlen : b'.len + 1 = r.len := by
    rw [← length_asBytes, hx, List.length_cons, ← hbytes, ReaderBuffer.length_asBytes]
    rfl
  refine ⟨x, ⟨r.io, b'⟩, by rw [getU8, hget]; rfl, ?_, ?_, rfl⟩
  · rw [unread, hx, unread, show asBytes ⟨r.io, b'⟩ = rest from hbytes]
    rfl
  · show b'.len + r.io.weight < r.len + r.io.weight
    omega

/-- One fill with room for at least one byte. -/
theorem doFill_meets {len : Nat} (hlen : 0 < len) (r : BytesReader) :
    Meets (r.doFill len) {
      pending := fun s => s.asBytes = r.asBytes ∧ s.io.stream = r.io.stream ∧
        (s.io.Clean ↔ r.io.Clean) ∧ s.weight < r.weight
      ok := fun n s => ∃ d, d.length = n ∧ n ≤ len ∧ s.asBytes = r.asBytes ++ d ∧
        r.io.stream = d ++ s.io.stream ∧ (s.io.Clean ↔ r.io.Clean) ∧ s.weight + n ≤ r.weight ∧
        (n = 0 → r.io.stream = [] ∧ r.io.Clean)
      err := fun _ s => s.asBytes = r.asBytes ∧ r.io.stream = [] ∧ ¬ r.io.Clean ∧
        s.weight < r.weight } := by
  apply (Source.pollRead_meets hlen r.io).andThen
  · rintro io ⟨hstream, hclean, hweight⟩
    refine ⟨ReaderBuffer.asBytes_reserve _ _, hstream, hclean, ?_⟩
    show r.len + io.weight < r.len + r.io.weight
    omega
  · rintro e io ⟨hstream, hclean, hweight⟩
    refine ⟨ReaderBuffer.asBytes_reserve _ _, hstream, hclean, ?_⟩
    show r.len + io.weight < r.len + r.io.weight
    omega
  · rintro d io ⟨hle, hstream, hclean, hweight, heof⟩
    refine ⟨d, rfl, hle, ?_, hstream, hclean, ?_, fun h => ?_⟩
    · show ((r.buffer.reserve len).advance d).asBytes = r.asBytes ++ d
      rw [ReaderBuffer.asBytes_advance, ReaderBuffer.asBytes_reserve]
      rfl
    · show r.len + d.length + io.weight + d.length ≤ r.len + r.io.weight
      omega
    · have h := heof (List.length_eq_zero_iff.mp h)
      exact ⟨h.1, h.2.1⟩

/-- A whole `read` keeps what is unread, and comes to nothing only at the end. -/
theorem read_meets {len : Nat} (hlen : 0 < len) (r : BytesReader) :
    Meets (r.read len) {
      pending := fun _ => False
      ok := fun n s => s.unread = r.unread ∧ s.weight + n ≤ r.weight ∧
        (n = 0 → r.io.stream = [])
      err := fun _ _ => r.io.stream = [] } := by
  have hready : (r.read len).1 ≠ .pending := by
    refine blockOn_ready (I := fun _ => True) (μ := weight) ?_ _ r trivial (Nat.lt_succ_self _)
    intro s s' _ heq
    have hfill := doFill_meets hlen s
    rw [show s.doFill len = (.pending, s') from heq] at hfill
    exact ⟨trivial, hfill.2.2.2⟩
  have hrun : Meets (r.read len) {
      pending := fun s => s.unread = r.unread ∧ s.io.stream = r.io.stream ∧ s.weight ≤ r.weight
      ok := fun n s => s.unread = r.unread ∧ s.weight + n ≤ r.weight ∧
        (n = 0 → r.io.stream = [])
      err := fun _ _ => r.io.stream = [] } := by
    refine blockOn_meets rfl ?_ _ ⟨rfl, rfl, Nat.le_refl _⟩
    rintro s ⟨hunread, hstream, hweight⟩
    refine (doFill_meets hlen s).mono ?_ ?_ ?_
    -- a fill that waits has used up some of the schedule
    · rintro s' ⟨hbytes', hstream', -, hweight'⟩
      refine ⟨?_, hstream'.trans hstream, by omega⟩
      rw [unread, hbytes', hstream', ← unread, hunread]
    · rintro n s' ⟨d, rfl, -, hbytes', hstream', -, hweight', heof⟩
      refine ⟨?_, by omega, fun h0 => hstream ▸ (heof h0).1⟩
      rw [← hunread, unread, unread, hbytes', hstream', List.append_assoc]
    · rintro e s' ⟨-, hnil, -⟩
      exact hstream ▸ hnil
  generalize r.read len = x at hready hrun
  obtain ⟨_ | n | e | _, s⟩ := x
  · exact absurd rfl hready
  · exact hrun
  · exact hrun
  · exact hrun

/-- A whole `read` adds at most as much as it was asked for. -/
theorem read_len {len : Nat} (hlen : 0 < len) (r : BytesReader) :
    Meets (r.read len) {
      pending := fun s => s.len = r.len
      ok := fun n s => n ≤ len ∧ s.len = r.len + n
      err := fun _ _ => True } := by
  refine blockOn_meets (I := fun s => s.len = r.len) rfl ?_ _ rfl
  intro s hs
  apply (doFill_meets hlen s).mono
  · rintro s' ⟨hbytes, -⟩
    show s'.len = r.len
    rw [← length_asBytes, hbytes, length_asBytes, hs]
  · rintro n s' ⟨d, rfl, hle, hbytes, -⟩
    refine ⟨hle, ?_⟩
    rw [← length_asBytes, hbytes, List.length_append, length_asBytes, hs]
  · exact fun _ _ _ => trivial

/-- One poll of `extend`. -/
theorem pollExtend_meets {len : Nat} (hlen : 0 < len) (r : BytesReader) :
    Meets (r.pollExtend len) {
      pending := fun s => s.asBytes = r.asBytes ∧ s.io.stream = r.io.stream ∧
        (s.io.Clean ↔ r.io.Clean) ∧ s.weight < r.weight
      ok := fun _ s => ∃ d, d ≠ [] ∧ s.asBytes = r.asBytes ++ d ∧
        r.io.stream = d ++ s.io.stream ∧ (s.io.Clean ↔ r.io.Clean) ∧ s.weight < r.weight
      err := fun e s => s.asBytes = r.asBytes ∧ r.io.stream = [] ∧
        (e = .unexpectedEOF ↔ r.io.Clean) ∧ s.weight ≤ r.weight } := by
  have h := doFill_meets hlen r
  unfold pollExtend
  generalize r.doFill len = x at h ⊢
  rcases x with ⟨_ | n | e | _, s⟩
  · exact h
  · obtain ⟨d, rfl, -, hbytes, hstream, hclean, hweight, heof⟩ := h
    simp only [mapErr_mk, Polled.mapErr_ok, andThen_ok]
    by_cases hd : d = []
    -- a fill of no bytes is the end of the stream
    · obtain ⟨hnil, hc⟩ := heof (by rw [hd]; rfl)
      subst hd
      rw [if_pos List.length_nil]
      exact ⟨by simpa using hbytes, hnil, by simp [hc], by simpa using hweight⟩
    · have hpos := List.length_pos_iff.mpr hd
      rw [if_neg (by omega)]
      exact ⟨d, hd, hbytes, hstream, hclean, by omega⟩
  · obtain ⟨hbytes, hstream, hclean, hweight⟩ := h
    exact ⟨hbytes, hstream, by simp [hclean], Nat.le_of_lt hweight⟩
  · exact h

/-- One poll of `ensure`: what is left to read stays, and is not empty when the
    answer is ready. -/
theorem pollEnsure_meets {len : Nat} (hlen : 0 < len) (r : BytesReader) :
    Meets (r.pollEnsure len) {
      pending := fun s => s.unread = r.unread ∧ (s.io.Clean ↔ r.io.Clean) ∧ s.weight < r.weight
      ok := fun _ s => s.asBytes ≠ [] ∧ s.unread = r.unread ∧ (s.io.Clean ↔ r.io.Clean) ∧
        s.weight ≤ r.weight
      err := fun e _ => r.unread = [] ∧ (e = .unexpectedEOF ↔ r.io.Clean) } := by
  unfold pollEnsure
  by_cases hempty : r.isEmpty = true
  · have hnil := isEmpty_iff.mp hempty
    rw [hempty]
    refine (pollExtend_meets hlen r).mono ?_ ?_ ?_
    · rintro s ⟨hbytes, hstream, hclean, hweight⟩
      exact ⟨by rw [unread, unread, hbytes, hstream], hclean, hweight⟩
    · rintro - s ⟨d, hd, hbytes, hstream, hclean, hweight⟩
      refine ⟨by simp [hbytes, hd], ?_, hclean, Nat.le_of_lt hweight⟩
      rw [unread, unread, hbytes, hstream, List.append_assoc]
    · rintro e s ⟨-, hstream, hclean, -⟩
      exact ⟨by rw [unread, hnil, hstream]; rfl, hclean⟩
  · have hne : r.asBytes ≠ [] := fun h => hempty (isEmpty_iff.mpr h)
    rw [if_pos (by simpa using hempty)]
    exact ⟨hne, rfl, Iff.rfl, Nat.le_refl _⟩

/-! ## Every byte to come -/

/-- The bytes not consumed yet, with those the source delivers behind its errors. -/
def bytes (r : BytesReader) : Bytes := r.asBytes ++ r.io.bytes

/-- Splitting consumes exactly the bytes it returns. -/
theorem bytes_splitTo {r r' : BytesReader} {len : Nat} {bytes : Bytes}
    (h : r.splitTo len = some (bytes, r')) : r.bytes = bytes ++ r'.bytes := by
  obtain ⟨-, -, hle, -⟩ := unread_splitTo h
  obtain ⟨r'', hsplit, hrest, hio⟩ := splitTo_eq hle
  cases h.symm.trans hsplit
  rw [BytesReader.bytes, BytesReader.bytes, hrest, hio, ← List.append_assoc,
    List.take_append_drop]

/-- A fill, with room or without, only moves bytes into the buffer. -/
theorem doFill_bytes (len : Nat) (r : BytesReader) :
    Meets (r.doFill len) {
      pending := fun s => s.bytes = r.bytes
      ok := fun n s => s.bytes = r.bytes ∧ s.len = r.len + n ∧
        (n = 0 → len = 0 ∧ r.io.HasData ∨ r.io.bytes = [])
      err := fun _ s => s.bytes = r.bytes } := by
  have hkept : ∀ io : Source, io.bytes = r.io.bytes →
      BytesReader.bytes ⟨io, r.buffer.reserve len⟩ = r.bytes := by
    intro io hio
    show (r.buffer.reserve len).asBytes ++ io.bytes = r.asBytes ++ r.io.bytes
    rw [ReaderBuffer.asBytes_reserve, hio]
    rfl
  refine (Source.pollRead_bytes len r.io).andThen hkept (fun _ => hkept) ?_
  rintro d io ⟨hbytes, hnil⟩
  refine ⟨?_, rfl, fun h => hnil (List.length_eq_zero_iff.mp h)⟩
  show ((r.buffer.reserve len).advance d).asBytes ++ io.bytes = r.asBytes ++ r.io.bytes
  rw [ReaderBuffer.asBytes_advance, ReaderBuffer.asBytes_reserve, List.append_assoc, ← hbytes]
  rfl

/-- One poll of `ensure`: whatever it answers, no byte is lost. -/
theorem pollEnsure_bytes (len : Nat) (r : BytesReader) :
    Meets (r.pollEnsure len) {
      pending := fun s => s.bytes = r.bytes
      ok := fun _ s => s.bytes = r.bytes
      err := fun _ s => s.bytes = r.bytes } := by
  unfold pollEnsure
  split
  · exact rfl
  · have hfill := doFill_bytes len r
    unfold pollExtend
    generalize r.doFill len = x at hfill
    obtain ⟨_ | n | e | _, s⟩ := x
    · exact hfill
    · show Meets (if n = 0 then _ else _) _
      split
      · exact hfill.1
      · exact hfill.1
    · exact hfill
    · exact hfill

end BytesReader

end Jrpxy.Util
