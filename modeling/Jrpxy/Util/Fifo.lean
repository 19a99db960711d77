/-
  Jrpxy.Util.Fifo

  The buffered reader over any I/O, as a queue of bytes.

  A fill offers the I/O a slice behind the valid bytes and keeps whatever it
  wrote there, also when the poll is pending or fails: only `position` says
  which bytes count.  Below, the I/O is any type with a poll function that
  keeps to its slice, and a record of what it has delivered stands beside it.
  Over any run of fills and takes, what was taken and then what is buffered is
  what was delivered (`Reaches.faithful`).
-/
import Jrpxy.Util.IoBuffer

namespace Jrpxy.Util.Fifo

open Poll

/-! ## Any I/O -/

/-- An I/O that can be polled to fill a slice.  Whatever it answers it may have written to
    the slice; an answer says how many bytes at the front of the slice are filled. -/
class AsyncRead (I : Type) where
  pollRead : Bytes → I → Polled IoError Nat × (Bytes × I)
  within : ∀ slice io, Meets (pollRead slice io) {
    pending := fun s => s.1.length = slice.length
    ok := fun n s => n ≤ slice.length ∧ s.1.length = slice.length
    err := fun _ s => s.1.length = slice.length }

/-- An I/O beside a record of the bytes it has delivered. -/
structure Recording (I : Type) where
  io : I
  delivered : Bytes
  deriving DecidableEq, Repr

section Recording

variable {I : Type} [AsyncRead I]

/-- One poll of the I/O, recorded. -/
def Recording.pollRead (slice : Bytes) (r : Recording I) :
    Polled IoError Nat × (Bytes × Recording I) :=
  andThen (AsyncRead.pollRead slice r.io) (fun s => (s.1, ⟨s.2, r.delivered⟩)) fun n s =>
    (.ok n, (s.1, ⟨s.2, r.delivered ++ s.1.take n⟩))

/-- What a recorded poll does to the slice and to the record. -/
theorem Recording.pollRead_meets (slice : Bytes) (r : Recording I) :
    Meets (r.pollRead slice) {
      pending := fun s => s.1.length = slice.length ∧ s.2.delivered = r.delivered
      ok := fun n s => n ≤ slice.length ∧ s.1.length = slice.length ∧
        s.2.delivered = r.delivered ++ s.1.take n
      err := fun _ s => s.1.length = slice.length ∧ s.2.delivered = r.delivered } := by
  refine (AsyncRead.within slice r.io).andThen ?_ ?_ ?_
  · exact fun s h => ⟨h, rfl⟩
  · exact fun _ s h => ⟨h, rfl⟩
  · exact fun n s h => ⟨h.1, h.2, rfl⟩

instance : AsyncRead (Recording I) where
  pollRead := Recording.pollRead
  within slice r := (Recording.pollRead_meets slice r).mono (fun _ h => h.1)
    (fun _ _ h => ⟨h.1, h.2.1⟩) (fun _ _ h => h.1)

end Recording

/-! ## The buffer below a fill -/

/-- The slice that `reserve extra` returns. -/
def reserved (b : ReaderBuffer) (extra : Nat) : Bytes :=
  ((b.reserve extra).buffer.drop b.position).take extra

/-- The reserved buffer with `slice` written behind the valid bytes. -/
def written (b : ReaderBuffer) (slice : Bytes) : ReaderBuffer :=
  ⟨b.buffer.take b.position ++ slice ++ b.buffer.drop (b.position + slice.length), b.position, by
    have := b.position_le
    simp only [List.length_append, List.length_take, List.length_drop]
    omega⟩

/-- Advance `position`; `none` when that would pass the end of the buffer. -/
def advance (b : ReaderBuffer) (advanceBy : Nat) : Option ReaderBuffer :=
  if h : b.position + advanceBy ≤ b.buffer.length then some ⟨b.buffer, b.position + advanceBy, h⟩
  else none

/-- As much is offered as was asked for. -/
theorem length_reserved (b : ReaderBuffer) (extra : Nat) : (reserved b extra).length = extra := by
  have := b.position_le
  simp only [reserved, ReaderBuffer.reserve, List.length_take, List.length_drop,
    List.length_append, List.length_replicate]
  omega

theorem length_valid (b : ReaderBuffer) : (b.buffer.take b.position).length = b.position := by
  rw [List.length_take, Nat.min_eq_left b.position_le]

/-- What is written behind the valid bytes changes none of them. -/
theorem asBytes_written (b : ReaderBuffer) (slice : Bytes) :
    (written b slice).asBytes = b.asBytes := by
  simp only [ReaderBuffer.asBytes, written, List.append_assoc]
  rw [List.take_append_of_le_length (Nat.le_of_eq (length_valid b).symm), List.take_take,
    Nat.min_self]

/-- Advancing within the slice makes its first bytes valid. -/
theorem advance_written {b : ReaderBuffer} {slice : Bytes} {n : Nat} (hn : n ≤ slice.length) :
    ∃ b', advance (written b slice) n = some b' ∧ b'.asBytes = b.asBytes ++ slice.take n := by
  have hpos := b.position_le
  have hfits : b.position + n ≤ (written b slice).buffer.length := by
    simp only [written, List.length_append, List.length_take, List.length_drop]
    omega
  refine ⟨_, dif_pos hfits, ?_⟩
  have hvalid := length_valid b
  simp only [ReaderBuffer.asBytes, written, List.append_assoc]
  rw [List.take_append, hvalid, Nat.add_sub_cancel_left, List.take_append_of_le_length hn,
    List.take_of_length_le (by omega)]

/-! ## The reader -/

/-- An I/O with a buffer in front. -/
structure BytesReader (I : Type) where
  io : I
  buffer : ReaderBuffer
  deriving DecidableEq, Repr

namespace BytesReader

variable {I : Type}

def new (io : I) : BytesReader I := ⟨io, .default⟩

def len (r : BytesReader I) : Nat := r.buffer.len

def isEmpty (r : BytesReader I) : Bool := r.len == 0

def asBytes (r : BytesReader I) : Bytes := r.buffer.asBytes

def splitTo (r : BytesReader I) (len : Nat) : Option (Bytes × BytesReader I) :=
  (r.buffer.splitTo len).map fun (bytes, buffer) => (bytes, { r with buffer })

def getU8 (r : BytesReader I) : Option (UInt8 × BytesReader I) :=
  r.buffer.getU8.map fun (b, buffer) => (b, { r with buffer })

theorem length_asBytes (r : BytesReader I) : r.asBytes.length = r.len :=
  r.buffer.length_asBytes

/-- `BytesMut::resize`: cut off at `len`, or filled up to it with zeros. -/
def resize (buffer : Bytes) (len : Nat) : Bytes :=
  buffer.take len ++ List.replicate (len - buffer.length) 0

/-- The I/O, and the buffer adjusted down to only the valid data. -/
def intoParts (r : BytesReader I) : I × Bytes := (r.io, resize r.buffer.buffer r.len)

variable [AsyncRead I]

/-- One poll of the I/O into `len` bytes of reserved space. -/
def doFill (len : Nat) (r : BytesReader I) : Polled IoError Nat × BytesReader I :=
  let buffer := r.buffer.reserve len
  andThen (AsyncRead.pollRead (reserved r.buffer len) r.io)
    (fun s => ⟨s.2, written buffer s.1⟩) fun filled s =>
      match advance (written buffer s.1) filled with
      | none => (.panic, ⟨s.2, written buffer s.1⟩)
      | some buffer => (.ok filled, ⟨s.2, buffer⟩)

/-- One poll of `read`: the number of bytes added. -/
def pollRead (len : Nat) (r : BytesReader I) : Polled IoError Nat × BytesReader I := r.doFill len

/-- One poll of `extend`: at least one byte is added. -/
def pollExtend (len : Nat) (r : BytesReader I) :
    Polled ReaderBufferError Unit × BytesReader I :=
  andThen (mapErr .io (r.doFill len)) id fun filled r =>
    if filled = 0 then (.err .unexpectedEOF, r) else (.ok (), r)

/-- One poll of `ensure`: at least one byte is in the buffer. -/
def pollEnsure (len : Nat) (r : BytesReader I) :
    Polled ReaderBufferError Unit × BytesReader I :=
  if !r.isEmpty then (.ok (), r) else r.pollExtend len

end BytesReader

/-! ## One poll -/

section Polls

variable {I : Type}

/-- `s` has, behind what `r` has, the bytes `d`, and the I/O delivered them. -/
structure Gained (r : BytesReader (Recording I)) (d : Bytes) (s : BytesReader (Recording I)) :
    Prop where
  asBytes : s.asBytes = r.asBytes ++ d
  delivered : s.io.delivered = r.io.delivered ++ d

theorem Gained.refl (r : BytesReader (Recording I)) : Gained r [] r :=
  ⟨(List.append_nil _).symm, (List.append_nil _).symm⟩

variable [AsyncRead I]

/-- A fill adds the bytes that were delivered, or none.  The I/O keeps to its slice, so the
    assertion of `advance` holds. -/
theorem doFill_gained (len : Nat) (r : BytesReader (Recording I)) :
    Meets (r.doFill len) {
      pending := Gained r []
      ok := fun n s => ∃ d, d.length = n ∧ n ≤ len ∧ Gained r d s
      err := fun _ => Gained r [] } := by
  -- whatever was written to the slice, no byte of it counts
  have hkept : ∀ s : Bytes × Recording I, s.2.delivered = r.io.delivered →
      Gained r [] ⟨s.2, written (r.buffer.reserve len) s.1⟩ := by
    intro s hs
    refine ⟨?_, ?_⟩
    · show (written (r.buffer.reserve len) s.1).asBytes = r.buffer.asBytes ++ []
      rw [asBytes_written, ReaderBuffer.asBytes_reserve, List.append_nil]
    · rw [List.append_nil]
      exact hs
  refine (Recording.pollRead_meets (reserved r.buffer len) r.io).andThen ?_ ?_ ?_
  · exact fun s h => hkept s h.2
  · exact fun _ s h => hkept s h.2
  -- the filled part of the slice becomes valid, and is what the record gained
  · rintro n s ⟨hn, hlen, hdelivered⟩
    rw [length_reserved] at hn hlen
    obtain ⟨b, hadvance, hbytes⟩ :=
      @advance_written (r.buffer.reserve len) s.1 n (by omega)
    simp only [hadvance]
    refine ⟨s.1.take n, ?_, hn, ?_, hdelivered⟩
    · rw [List.length_take, hlen, Nat.min_eq_left hn]
    · show b.asBytes = r.buffer.asBytes ++ s.1.take n
      rw [hbytes, ReaderBuffer.asBytes_reserve]

/-- `extend` is ready only after at least one new byte. -/
theorem pollExtend_gained (len : Nat) (r : BytesReader (Recording I)) :
    Meets (r.pollExtend len) {
      pending := Gained r []
      ok := fun _ s => ∃ d, d ≠ [] ∧ Gained r d s
      err := fun _ => Gained r [] } := by
  have hfill : Meets (mapErr ReaderBufferError.io (r.doFill len)) {
      pending := Gained r []
      ok := fun n s => ∃ d, d.length = n ∧ n ≤ len ∧ Gained r d s
      err := fun _ => Gained r [] } :=
    (doFill_gained len r).mapErr (fun _ h => h) (fun _ _ h => h) (fun _ _ h => h)
  refine hfill.andThen (fun _ h => h) (fun _ _ h => h) ?_
  rintro n s ⟨d, hd, -, hgained⟩
  by_cases hn : n = 0
  -- nothing was delivered, which is the error
  · rw [if_pos hn]
    obtain rfl := List.length_eq_zero_iff.mp (hd.trans hn)
    exact hgained
  · rw [if_neg hn]
    refine ⟨d, ?_, hgained⟩
    rintro rfl
    exact hn hd.symm

/-- `ensure` is ready only with at least one byte available. -/
theorem pollEnsure_gained (len : Nat) (r : BytesReader (Recording I)) :
    Meets (r.pollEnsure len) {
      pending := Gained r []
      ok := fun _ s => s.asBytes ≠ [] ∧ ∃ d, Gained r d s
      err := fun _ => Gained r [] } := by
  unfold BytesReader.pollEnsure
  split
  -- with something buffered the I/O is not polled
  · next hsome =>
    refine ⟨?_, [], Gained.refl r⟩
    intro hnil
    have hlen : r.len = 0 := by
      rw [← r.length_asBytes, hnil, List.length_nil]
    simp [BytesReader.isEmpty, hlen] at hsome
  · refine (pollExtend_gained len r).mono (fun _ h => h) ?_ (fun _ _ h => h)
    rintro - s ⟨d, hd, hgained⟩
    refine ⟨?_, d, hgained⟩
    rw [hgained.asBytes]
    simp [hd]

omit [AsyncRead I] in
/-- The valid bytes and nothing else come out in the end. -/
theorem intoParts_eq (r : BytesReader I) : r.intoParts = (r.io, r.asBytes) := by
  have hle : r.len - r.buffer.buffer.length = 0 := Nat.sub_eq_zero_of_le r.buffer.position_le
  rw [BytesReader.intoParts, BytesReader.resize, hle, List.replicate_zero, List.append_nil]
  rfl

omit [AsyncRead I] in
/-- Splitting within the available length. -/
theorem splitTo_eq {r : BytesReader I} {len : Nat} (h : len ≤ r.len) :
    ∃ r', r.splitTo len = some (r.asBytes.take len, r') ∧ r'.asBytes = r.asBytes.drop len ∧
      r'.io = r.io := by
  obtain ⟨b', hsplit, hbytes⟩ := ReaderBuffer.splitTo_eq h
  exact ⟨⟨r.io, b'⟩, by rw [BytesReader.splitTo, hsplit]; rfl, hbytes, rfl⟩

omit [AsyncRead I] in
/-- Taking a byte when there is one. -/
theorem getU8_eq {r : BytesReader I} {x : UInt8} {rest : Bytes} (h : r.asBytes = x :: rest) :
    ∃ r', r.getU8 = some (x, r') ∧ r'.asBytes = rest ∧ r'.io = r.io := by
  obtain ⟨b', hget, hbytes⟩ := ReaderBuffer.getU8_eq h
  exact ⟨⟨r.io, b'⟩, by rw [BytesReader.getU8, hget]; rfl, hbytes, rfl⟩

/-- The record is not seen: a fill does what it does over the bare I/O. -/
theorem doFill_recorded (len : Nat) (r : BytesReader (Recording I)) :
    (BytesReader.mk r.io.io r.buffer).doFill len =
      ((r.doFill len).1, ⟨(r.doFill len).2.io.io, (r.doFill len).2.buffer⟩) := by
  have hpoll : ∀ slice, AsyncRead.pollRead slice r.io = r.io.pollRead slice := fun _ => rfl
  simp only [BytesReader.doFill, hpoll, Recording.pollRead]
  generalize AsyncRead.pollRead (reserved r.buffer len) r.io.io = x
  obtain ⟨_ | n | e | _, slice, io⟩ := x
  · rfl
  · simp only [andThen_ok]
    cases advance (written (r.buffer.reserve len) slice) n <;> rfl
  · rfl
  · rfl

end Polls

/-! ## The scripted source -/

/-- A script fills the front of the slice and leaves the rest. -/
def pollSource (slice : Bytes) (io : Source) : Polled IoError Nat × (Bytes × Source) :=
  andThen (io.pollRead slice.length) (fun io => (slice, io)) fun filled io =>
    (.ok filled.length, (filled ++ slice.drop filled.length, io))

/-- A script fills no more than the room there is. -/
theorem pollRead_length_le (space : Nat) (io : Source) :
    Meets (io.pollRead space) {
      pending := fun _ => True
      ok := fun d _ => d.length ≤ space
      err := fun _ _ => True } := by
  cases space with
  -- into no room a script puts nothing, also when it has data
  | zero =>
    obtain ⟨events⟩ := io
    rcases events with _ | ⟨_ | ⟨b, bs⟩ | e, es⟩
    · exact Nat.le_refl 0
    · trivial
    · exact Nat.le_refl 0
    · trivial
  | succ k =>
    exact (Source.pollRead_meets (Nat.succ_pos k) io).mono (fun _ _ => trivial)
      (fun _ _ h => h.1) (fun _ _ _ => trivial)

instance : AsyncRead Source where
  pollRead := pollSource
  within slice io := by
    refine (pollRead_length_le slice.length io).andThen (fun _ _ => rfl) (fun _ _ _ => rfl) ?_
    intro d io hd
    refine ⟨hd, ?_⟩
    rw [List.length_append, List.length_drop]
    omega

/-- The reader of the rest of the development, as one over its source. -/
def ofSource (r : Util.BytesReader) : BytesReader Source := ⟨r.io, r.buffer⟩

/-- Filling the front of the reserved slice. -/
theorem buffer_written_reserved (b : ReaderBuffer) {len : Nat} {d : Bytes} (hd : d.length ≤ len) :
    (written (b.reserve len) (d ++ (reserved b len).drop d.length)).buffer =
      (b.reserve len).buffer.take b.position ++ d ++
        (b.reserve len).buffer.drop (b.position + d.length) := by
  have hlen : (d ++ (reserved b len).drop d.length).length = len := by
    rw [List.length_append, List.length_drop, length_reserved]
    omega
  have htail : (b.reserve len).buffer.drop (b.position + d.length) =
      (reserved b len).drop d.length ++ (b.reserve len).buffer.drop (b.position + len) := by
    have hle : d.length ≤ (reserved b len).length := by rw [length_reserved]; exact hd
    rw [← List.drop_append_of_le_length hle, reserved, ← List.drop_drop, ← List.drop_drop,
      List.take_append_drop]
  show (b.reserve len).buffer.take b.position ++ (d ++ (reserved b len).drop d.length) ++
    (b.reserve len).buffer.drop (b.position + (d ++ (reserved b len).drop d.length).length) = _
  rw [hlen, htail]
  simp only [List.append_assoc]

theorem readerBuffer_ext {a b : ReaderBuffer} (hbuffer : a.buffer = b.buffer)
    (hposition : a.position = b.position) : a = b := by
  cases a
  cases b
  cases hbuffer
  cases hposition
  rfl

theorem advance_eq {b b' : ReaderBuffer} {n : Nat} (hbuffer : b'.buffer = b.buffer)
    (hposition : b'.position = b.position + n) : advance b n = some b' := by
  have hfits : b.position + n ≤ b.buffer.length := by
    rw [← hposition, ← hbuffer]
    exact b'.position_le
  rw [advance, dif_pos hfits]
  exact congrArg some (readerBuffer_ext hbuffer.symm hposition.symm)

/-- A fill from a script, by either model of the reader. -/
theorem doFill_ofSource (len : Nat) (r : Util.BytesReader) :
    (ofSource r).doFill len = ((r.doFill len).1, ofSource (r.doFill len).2) := by
  -- a slice that comes back as it was leaves the buffer as it was
  have hnone : written (r.buffer.reserve len) (reserved r.buffer len) = r.buffer.reserve len := by
    have hbuffer := @buffer_written_reserved r.buffer len [] (Nat.zero_le len)
    rw [List.append_nil, List.length_nil, Nat.add_zero, List.take_append_drop] at hbuffer
    exact readerBuffer_ext hbuffer rfl
  have hread := pollRead_length_le len r.io
  unfold BytesReader.doFill Util.BytesReader.doFill
  show andThen (pollSource (reserved r.buffer len) r.io) _ _ = _
  rw [pollSource, length_reserved]
  generalize r.io.pollRead len = x at hread
  obtain ⟨_ | d | e | _, io⟩ := x
  · simp [ofSource, hnone]
  · have hbuffer := buffer_written_reserved r.buffer (d := d) hread
    have hadvance : advance (written (r.buffer.reserve len)
        (d ++ (reserved r.buffer len).drop d.length)) d.length =
        some ((r.buffer.reserve len).advance d) := advance_eq hbuffer.symm rfl
    simp [ofSource, hadvance]
  · simp [ofSource, hnone]
  · simp [ofSource, hnone]

/-- The same of `extend`. -/
theorem pollExtend_ofSource (len : Nat) (r : Util.BytesReader) :
    (ofSource r).pollExtend len = ((r.pollExtend len).1, ofSource (r.pollExtend len).2) := by
  rw [BytesReader.pollExtend, Util.BytesReader.pollExtend, doFill_ofSource]
  generalize r.doFill len = x
  obtain ⟨_ | n | e | _, s⟩ := x
  · rfl
  · simp only [mapErr_mk, Polled.mapErr_ok, andThen_ok]
    split <;> rfl
  · rfl
  · rfl

/-- The same of `ensure`. -/
theorem pollEnsure_ofSource (len : Nat) (r : Util.BytesReader) :
    (ofSource r).pollEnsure len = ((r.pollEnsure len).1, ofSource (r.pollEnsure len).2) := by
  rw [BytesReader.pollEnsure, Util.BytesReader.pollEnsure, pollExtend_ofSource]
  show (if !r.isEmpty then _ else _) = _
  split <;> rfl

/-! ## Whole runs -/

section Runs

variable {I : Type} [AsyncRead I]

/-- The readers that calls lead to from a new one over `io`, with the bytes taken.  A future
    holds nothing but the length, so polling it again and dropping it for another are both
    the next poll. -/
inductive Reaches (io : I) : Bytes → BytesReader (Recording I) → Prop where
  | new : Reaches io [] (.new ⟨io, []⟩)
  | read {taken r} (len : Nat) (h : Reaches io taken r) : Reaches io taken (r.pollRead len).2
  | ensure {taken r} (len : Nat) (h : Reaches io taken r) : Reaches io taken (r.pollEnsure len).2
  | extend {taken r} (len : Nat) (h : Reaches io taken r) : Reaches io taken (r.pollExtend len).2
  | splitTo {taken r len bytes r'} (h : Reaches io taken r)
      (htake : r.splitTo len = some (bytes, r')) : Reaches io (taken ++ bytes) r'
  | getU8 {taken r b r'} (h : Reaches io taken r) (htake : r.getU8 = some (b, r')) :
      Reaches io (taken ++ [b]) r'

/-- What is promised of a reader from which `taken` was taken, whatever is called next. -/
structure Faithful (taken : Bytes) (r : BytesReader (Recording I)) : Prop where
  contents : taken ++ r.asBytes = r.io.delivered
  position_le : r.buffer.position ≤ r.buffer.buffer.length
  read : ∀ len, Meets (r.pollRead len) {
    pending := Gained r []
    ok := fun n s => ∃ d, d.length = n ∧ n ≤ len ∧ Gained r d s
    err := fun _ => Gained r [] }
  ensure : ∀ len, Meets (r.pollEnsure len) {
    pending := Gained r []
    ok := fun _ s => s.asBytes ≠ [] ∧ ∃ d, Gained r d s
    err := fun _ => Gained r [] }
  extend : ∀ len, Meets (r.pollExtend len) {
    pending := Gained r []
    ok := fun _ s => ∃ d, d ≠ [] ∧ Gained r d s
    err := fun _ => Gained r [] }
  splitTo : ∀ len, len ≤ r.len → ∃ r', r.splitTo len = some (r.asBytes.take len, r') ∧
    r'.asBytes = r.asBytes.drop len ∧ r'.io = r.io
  getU8 : ∀ x rest, r.asBytes = x :: rest → ∃ r', r.getU8 = some (x, r') ∧
    r'.asBytes = rest ∧ r'.io = r.io
  intoParts : ∃ rest, r.intoParts = (r.io, rest) ∧ taken ++ rest = r.io.delivered

omit [AsyncRead I] in
/-- A poll, however it ends, keeps what was taken in front of what is buffered. -/
theorem contents_of_gained {ε α : Type} {taken : Bytes} {r : BytesReader (Recording I)}
    {x : Polled ε α × BytesReader (Recording I)} (h : taken ++ r.asBytes = r.io.delivered)
    (hx : Meets x {
      pending := Gained r []
      ok := fun _ s => ∃ d, Gained r d s
      err := fun _ => Gained r [] }) :
    taken ++ x.2.asBytes = x.2.io.delivered := by
  have hgained : ∀ d s, Gained r d s → taken ++ s.asBytes = s.io.delivered := by
    intro d s hs
    rw [hs.asBytes, hs.delivered, ← List.append_assoc, h]
  obtain ⟨_ | a | e | _, s⟩ := x
  · exact hgained [] s hx
  · obtain ⟨d, hd⟩ := hx
    exact hgained d s hd
  · exact hgained [] s hx
  · exact hx.elim

omit [AsyncRead I] in
/-- What was split off stood in front. -/
theorem asBytes_of_splitTo {r r' : BytesReader I} {len : Nat} {bytes : Bytes}
    (h : r.splitTo len = some (bytes, r')) : r.asBytes = bytes ++ r'.asBytes ∧ r'.io = r.io := by
  by_cases hle : len ≤ r.len
  · obtain ⟨r'', hsplit, hbytes, hio⟩ := splitTo_eq hle
    cases h.symm.trans hsplit
    exact ⟨by rw [hbytes, List.take_append_drop], hio⟩
  · have hnone : r.buffer.splitTo len = none := if_neg hle
    rw [BytesReader.splitTo, hnone] at h
    cases h

omit [AsyncRead I] in
/-- The byte that was taken stood in front. -/
theorem asBytes_of_getU8 {r r' : BytesReader I} {b : UInt8} (h : r.getU8 = some (b, r')) :
    r.asBytes = b :: r'.asBytes ∧ r'.io = r.io := by
  cases hbytes : r.asBytes with
  | nil =>
    have hlen : ¬ 0 < r.buffer.position := by
      have := r.length_asBytes
      rw [hbytes, List.length_nil] at this
      exact Nat.not_lt.mpr (Nat.le_of_eq this.symm)
    have hnone : r.buffer.getU8 = none := dif_neg hlen
    rw [BytesReader.getU8, hnone] at h
    cases h
  | cons x rest =>
    obtain ⟨r'', hget, hrest, hio⟩ := getU8_eq hbytes
    cases h.symm.trans hget
    exact ⟨by rw [hrest], hio⟩

/-- The bytes taken and then those buffered are those delivered. -/
theorem Reaches.contents {io : I} {taken : Bytes} {r : BytesReader (Recording I)}
    (h : Reaches io taken r) : taken ++ r.asBytes = r.io.delivered := by
  -- the polls gain at the back what is delivered, and the takes move the front over
  induction h with
  | new => rfl
  | read len _ ih =>
    exact contents_of_gained ih ((doFill_gained len _).mono (fun _ h => h)
      (fun _ _ ⟨d, _, _, h⟩ => ⟨d, h⟩) (fun _ _ h => h))
  | ensure len _ ih =>
    exact contents_of_gained ih ((pollEnsure_gained len _).mono (fun _ h => h)
      (fun _ _ h => h.2) (fun _ _ h => h))
  | extend len _ ih =>
    exact contents_of_gained ih ((pollExtend_gained len _).mono (fun _ h => h)
      (fun _ _ ⟨d, _, h⟩ => ⟨d, h⟩) (fun _ _ h => h))
  | splitTo _ htake ih =>
    obtain ⟨hbytes, hio⟩ := asBytes_of_splitTo htake
    rw [hio, ← ih, hbytes, List.append_assoc]
  | getU8 _ htake ih =>
    obtain ⟨hbytes, hio⟩ := asBytes_of_getU8 htake
    rw [hio, ← ih, hbytes, List.append_assoc]
    rfl

/-- The reader is a faithful queue over any I/O and any run. -/
theorem Reaches.faithful {io : I} {taken : Bytes} {r : BytesReader (Recording I)}
    (h : Reaches io taken r) : Faithful taken r where
  contents := h.contents
  position_le := r.buffer.position_le
  read len := doFill_gained len r
  ensure len := pollEnsure_gained len r
  extend len := pollExtend_gained len r
  splitTo _ hle := splitTo_eq hle
  getU8 _ _ hbytes := getU8_eq hbytes
  intoParts := ⟨r.asBytes, intoParts_eq r, h.contents⟩

end Runs

/-- A source that delivers three bytes and is then not ready. -/
def threeBytes : Source := ⟨[.data 1 [2, 3], .pending]⟩

/-- A reader that has got them, in two fills. -/
def threeBytesRead : BytesReader (Recording Source) :=
  ((BytesReader.pollExtend 2 (.new ⟨threeBytes, []⟩)).2.pollRead 4).2

/-- It asks for more in vain, and is faithful when all three bytes are taken from it. -/
theorem threeBytesRead_faithful :
    (threeBytesRead.pollRead 4).1 = .pending ∧
      ∃ r r', (threeBytesRead.pollRead 4).2.splitTo 2 = some ([1, 2], r) ∧
        r.getU8 = some (3, r') ∧ Faithful [1, 2, 3] r' := by
  have hreaches : Reaches threeBytes [] (threeBytesRead.pollRead 4).2 :=
    .read 4 (.read 4 (.extend 2 .new))
  have hbytes : (threeBytesRead.pollRead 4).2.asBytes = [1, 2, 3] := by decide
  obtain ⟨r, hsplit, hrest, -⟩ := @splitTo_eq _ (threeBytesRead.pollRead 4).2 2 (by decide)
  rw [hbytes] at hsplit hrest
  obtain ⟨r', hget, -, -⟩ := @getU8_eq _ r 3 [] hrest
  have htaken := (hreaches.splitTo hsplit).getU8 hget
  exact ⟨by decide, r, r', hsplit, hget, htaken.faithful⟩

end Jrpxy.Util.Fifo
