/-
  Jrpxy.Body.Reader

  Body readers for messages without a body, with a declared length, and
  delimited by the end of the connection.

  Each is a `Puller`: what it owes is computed from what its connection has
  left to read (`unread`), and one lawfulness theorem per reader says that a
  poll pays off exactly what it hands out.
-/
import Jrpxy.Body.Error
import Jrpxy.Lib.PullStream

namespace Jrpxy.Body.Reader

open Poll PullStream Util HttpMessage

def drainSize : Nat := 4096

def ioFillLen : Nat := 4096

def pollEnsure (reader : BytesReader) : Polled BodyError Unit × BytesReader :=
  mapErr .ofReaderBufferError (reader.pollEnsure ioFillLen)

def pollExtend (reader : BytesReader) : Polled BodyError Unit × BytesReader :=
  mapErr .ofReaderBufferError (reader.pollExtend ioFillLen)

/-- A body ends with its trailers, and the connection stands behind it. -/
structure BodyEnd where
  trailers : Headers
  rest : Bytes
  deriving DecidableEq, Repr

theorem pollEnsure_meets (r : BytesReader) :
    Meets (pollEnsure r) {
      pending := fun s => s.unread = r.unread ∧ (s.io.Clean ↔ r.io.Clean) ∧ s.weight < r.weight
      ok := fun _ s => s.asBytes ≠ [] ∧ s.unread = r.unread ∧ (s.io.Clean ↔ r.io.Clean) ∧
        s.weight ≤ r.weight
      err := fun e _ => r.unread = [] ∧ ∃ e', e = .ofReaderBufferError e' } :=
  (BytesReader.pollEnsure_meets (by decide) r).mapErr (fun _ h => h) (fun _ _ h => h)
    (fun e _ h => ⟨h.1, e, rfl⟩)

theorem pollExtend_meets (r : BytesReader) :
    Meets (pollExtend r) {
      pending := fun s => s.asBytes = r.asBytes ∧ s.io.stream = r.io.stream ∧
        (s.io.Clean ↔ r.io.Clean) ∧ s.weight < r.weight
      ok := fun _ s => ∃ d, d ≠ [] ∧ s.asBytes = r.asBytes ++ d ∧
        r.io.stream = d ++ s.io.stream ∧ (s.io.Clean ↔ r.io.Clean) ∧ s.weight < r.weight
      err := fun e _ => r.io.stream = [] ∧ ∃ e', e = .ofReaderBufferError e' } :=
  (BytesReader.pollExtend_meets (by decide) r).mapErr (fun _ h => h) (fun _ _ h => h)
    (fun e _ h => ⟨h.2.1, e, rfl⟩)

/-- Reading on leaves the bytes ahead as they are; it fails when all of them are buffered. -/
theorem pollExtend_unread (r : BytesReader) :
    Meets (pollExtend r) {
      pending := fun s => s.unread = r.unread ∧ s.weight < r.weight
      ok := fun _ s => s.unread = r.unread ∧ s.weight < r.weight
      err := fun e _ => r.asBytes = r.unread ∧ ∃ e', e = .ofReaderBufferError e' } := by
  refine (pollExtend_meets r).mono ?_ ?_ ?_
  · rintro s ⟨hbytes, hstream, -, hweight⟩
    exact ⟨by rw [BytesReader.unread, BytesReader.unread, hbytes, hstream], hweight⟩
  · rintro - s ⟨d, -, hbytes, hstream, -, hweight⟩
    refine ⟨?_, hweight⟩
    rw [BytesReader.unread, BytesReader.unread, hbytes, hstream, List.append_assoc]
  · rintro e s ⟨hend, herr⟩
    exact ⟨by rw [BytesReader.unread, hend, List.append_nil], herr⟩

/-! ## No body -/

/-- A reader for a message without a body. -/
structure BodylessBodyReader where
  reader : BytesReader
  parseSlots : ParseSlots
  deriving DecidableEq, Repr

def BodylessBodyReader.drain (self : BodylessBodyReader) : BytesReader × ParseSlots :=
  (self.reader, self.parseSlots)

/-! ## A declared length -/

structure ContentLengthBodyReader where
  length : Nat
  offset : Nat
  reader : BytesReader
  parseSlots : ParseSlots
  /-- `remaining` asserts this. -/
  offset_le : offset ≤ length
  deriving DecidableEq, Repr

namespace ContentLengthBodyReader

def new (length : Nat) (reader : BytesReader) (parseSlots : ParseSlots) :
    ContentLengthBodyReader :=
  ⟨length, 0, reader, parseSlots, Nat.zero_le length⟩

def contentLength (self : ContentLengthBodyReader) : Nat := self.length

def remaining (self : ContentLengthBodyReader) : Nat := self.length - self.offset

def drained (self : ContentLengthBodyReader) : Bool := self.remaining == 0

/-- `none` when the reader has not been fully drained. -/
def finish (self : ContentLengthBodyReader) : Option (BytesReader × ParseSlots) :=
  if self.offset = self.length then some (self.reader, self.parseSlots) else none

/-- How much of the body one read takes from a buffer of `len` bytes. -/
def readLen (self : ContentLengthBodyReader) (len maxLen : Nat) : Nat :=
  min (min self.remaining len) maxLen

theorem readLen_le (self : ContentLengthBodyReader) (len maxLen : Nat) :
    self.readLen len maxLen ≤ len ∧ self.readLen len maxLen ≤ maxLen ∧
      self.offset + self.readLen len maxLen ≤ self.length := by
  have := self.offset_le
  unfold readLen remaining
  omega

/-- One poll for up to `maxLen` bytes. -/
def pollRead (maxLen : Nat) (self : ContentLengthBodyReader) :
    Polled BodyError (Option Bytes) × ContentLengthBodyReader :=
  if self.remaining = 0 then (.ok none, self)
  else
    andThen (pollEnsure self.reader) (fun reader => { self with reader }) fun _ reader =>
      let len := self.readLen reader.len maxLen
      match reader.splitTo len with
      | none => (.panic, { self with reader })
      | some (bytes, reader) =>
        (.ok (some bytes), { self with
          offset := self.offset + len
          reader
          offset_le := (self.readLen_le _ maxLen).2.2 })

/-- What the reader owes: the rest of the declared length, if the connection has it. -/
def owed (self : ContentLengthBodyReader) : Owed BodyEnd :=
  ⟨self.reader.unread.take self.remaining,
    if self.remaining ≤ self.reader.unread.length then
      some ⟨.empty, self.reader.unread.drop self.remaining⟩
    else none⟩

def puller : Puller ContentLengthBodyReader BodyError BodyEnd where
  poll := pollRead
  owed := owed
  weight self := self.reader.weight
  Fits _ := True
  Done self := self.offset = self.length

def read (maxLen : Nat) (self : ContentLengthBodyReader) :
    Polled BodyError (Option Bytes) × ContentLengthBodyReader :=
  blockOn (pollRead maxLen) (self.reader.weight + 1) self

def pollDrain (self : ContentLengthBodyReader) :
    Polled BodyError Unit × ContentLengthBodyReader :=
  Puller.drainLoop (pollRead drainSize) (self.reader.weight + 1) self

/-- Drain the body and return the inner parts. -/
def drain (self : ContentLengthBodyReader) :
    Polled BodyError (BytesReader × ParseSlots) × ContentLengthBodyReader :=
  andThen (blockOn pollDrain (self.reader.weight + 1) self) id fun _ self =>
    match self.finish with
    | none => (.panic, self)
    | some parts => (.ok parts, self)

theorem owed_congr {self s : ContentLengthBodyReader} (hlen : s.length = self.length)
    (hoff : s.offset = self.offset) (h : s.reader.unread = self.reader.unread) :
    s.owed = self.owed := by
  unfold owed remaining
  rw [hlen, hoff, h]

theorem owed_of_remaining {self : ContentLengthBodyReader} (h : self.remaining = 0) :
    self.owed = .ending ⟨.empty, self.reader.unread⟩ := by
  simp [owed, h, Owed.ending]

/-- A read within the declared length, paid off. -/
theorem owed_split {self s : ContentLengthBodyReader} {d : Bytes}
    (hd : self.offset + d.length = s.offset) (hlen : s.length = self.length)
    (hunread : self.reader.unread = d ++ s.reader.unread) : self.owed = s.owed.prepend d := by
  have hs := s.offset_le
  have hrem : self.remaining = d.length + s.remaining := by
    unfold remaining
    omega
  simp only [owed, Owed.prepend]
  rw [hunread, hrem, List.length_append, List.take_length_add_append,
    List.drop_length_add_append]
  simp only [Nat.add_le_add_iff_left]

/-- Every poll of a content-length reader pays off what it hands out. -/
theorem puller_lawful : puller.Lawful 0 := by
  intro maxLen self _
  show Meets (pollRead maxLen self) _
  unfold pollRead
  by_cases hrem : self.remaining = 0
  -- the declared length has been handed out
  · rw [if_pos hrem]
    refine ⟨_, owed_of_remaining hrem, owed_of_remaining hrem, ?_⟩
    have := self.offset_le
    show self.offset = self.length
    unfold remaining at hrem
    omega
  · rw [if_neg hrem]
    refine (pollEnsure_meets self.reader).andThen ?_ ?_ ?_
    · rintro reader ⟨hunread, -, hweight⟩
      exact ⟨owed_congr rfl rfl hunread, id, hweight⟩
    -- the connection ends before the declared length
    · rintro e reader ⟨hunread, -⟩ _
      show owed self = _
      simp only [owed, hunread, List.take_nil, List.length_nil, Owed.fault]
      rw [if_neg (by omega)]
    · rintro - reader ⟨hne, hunread, -, hweight⟩
      obtain ⟨hle, hmax, -⟩ := self.readLen_le reader.len maxLen
      obtain ⟨reader', hsplit, -, -⟩ := BytesReader.splitTo_eq hle
      obtain ⟨-, hparts, -, hlen, hw, -⟩ := BytesReader.unread_splitTo hsplit
      simp only [hsplit]
      refine ⟨?_, id, ?_, ?_, ?_⟩
      · exact owed_split (by simp only [hlen]) rfl (hunread ▸ hparts)
      · omega
      · intro hpos hnil
        have hbuf : 0 < reader.len := by
          rw [← BytesReader.length_asBytes]
          exact List.length_pos_iff.mpr hne
        rw [hnil] at hlen
        simp only [List.length_nil, readLen] at hlen
        omega
      · show reader'.weight + _ ≤ self.reader.weight
        omega

/-- A drain gives the connection back behind the body, if the body is complete. -/
theorem drain_meets (self : ContentLengthBodyReader) :
    Meets self.drain {
      pending := fun _ => False
      ok := fun parts _ => ∃ t, self.owed.tail = some t ∧ t.trailers = .empty ∧
        parts.1.unread = t.rest
      err := fun _ _ => self.owed.tail = none } := by
  have hdrain := Puller.drain_meets puller_lawful (Nat.zero_le drainSize) (by decide) self
  refine hdrain.andThen (fun _ hf => hf) (fun _ _ he => he trivial) ?_
  rintro - s ⟨t, htail, howed, hdone⟩
  have hoff : s.offset = s.length := hdone
  have hrem : s.remaining = 0 := by
    unfold remaining
    omega
  have ht : BodyEnd.mk .empty s.reader.unread = t := by
    have howed : s.owed = .ending t := howed
    rw [owed_of_remaining hrem] at howed
    exact Option.some.inj (congrArg Owed.tail howed)
  rw [finish, if_pos hoff]
  exact ⟨t, htail, by rw [← ht], by rw [← ht]⟩

end ContentLengthBodyReader

/-! ## Delimited by the end of the connection -/

structure EofBodyReader where
  reader : BytesReader
  parseSlots : ParseSlots
  eof : Bool
  deriving DecidableEq, Repr

namespace EofBodyReader

def new (reader : BytesReader) (parseSlots : ParseSlots) : EofBodyReader :=
  ⟨reader, parseSlots, false⟩

/-- Split up to `maxLen` buffered bytes off. -/
def take (maxLen : Nat) (self : EofBodyReader) : Polled BodyError (Option Bytes) × EofBodyReader :=
  match self.reader.splitTo (min self.reader.len maxLen) with
  | none => (.panic, self)
  | some (bytes, reader) => (.ok (some bytes), { self with reader })

/-- One poll for up to `maxLen` bytes. -/
def pollRead (maxLen : Nat) (self : EofBodyReader) :
    Polled BodyError (Option Bytes) × EofBodyReader :=
  if self.eof then (.ok none, self)
  else if !self.reader.isEmpty then take maxLen self
  else
    andThen (mapErr .bodyReadError (self.reader.pollRead maxLen))
      (fun reader => { self with reader }) fun n reader =>
      if n = 0 then (.ok none, { self with reader, eof := true })
      else take maxLen { self with reader }

/-- What the reader owes: everything, until a clean end. -/
def owed (self : EofBodyReader) : Owed BodyEnd :=
  if self.eof then .ending ⟨.empty, []⟩
  else ⟨self.reader.unread, if self.reader.io.Clean then some ⟨.empty, []⟩ else none⟩

theorem owed_of_eof {self : EofBodyReader} (h : self.eof = true) :
    self.owed = .ending ⟨.empty, []⟩ := by
  rw [owed, if_pos h]

/-- Before the end everything unread is owed. -/
theorem owed_of_not_eof {self : EofBodyReader} (h : self.eof = false) :
    self.owed = ⟨self.reader.unread,
      if self.reader.io.Clean then some ⟨.empty, []⟩ else none⟩ := by
  rw [owed, if_neg (by simp [h])]

/-- What a reader owes depends on what is unread and how the source ends. -/
theorem owed_prepend {self s : EofBodyReader} {d : Bytes} (heof : self.eof = false)
    (heof' : s.eof = false) (hunread : self.reader.unread = d ++ s.reader.unread)
    (hclean : s.reader.io.Clean ↔ self.reader.io.Clean) : self.owed = s.owed.prepend d := by
  rw [owed_of_not_eof heof, owed_of_not_eof heof', hunread]
  simp only [Owed.prepend, hclean]

def puller : Puller EofBodyReader BodyError BodyEnd where
  poll := pollRead
  owed := owed
  weight self := self.reader.weight
  Fits _ := True
  Done self := self.eof = true

/-- Handing out buffered bytes. -/
theorem take_meets {maxLen : Nat} (hpos : 0 < maxLen) {self : EofBodyReader}
    (heof : self.eof = false) (hne : self.reader.asBytes ≠ []) :
    Meets (take maxLen self) (puller.post maxLen self) := by
  obtain ⟨reader', hsplit, -, hio⟩ :=
    BytesReader.splitTo_eq (Nat.min_le_left self.reader.len maxLen)
  obtain ⟨-, hparts, -, hlen, hw, -⟩ := BytesReader.unread_splitTo hsplit
  unfold take
  rw [hsplit]
  have hbuf : 0 < self.reader.len := by
    rw [← BytesReader.length_asBytes]
    exact List.length_pos_iff.mpr hne
  refine ⟨owed_prepend heof heof hparts (by rw [hio]), id, by omega, ?_, ?_⟩
  · intro _ hnil
    rw [hnil, List.length_nil] at hlen
    omega
  · show reader'.weight + _ ≤ self.reader.weight
    omega

/-- Every poll of a reader to the end of the connection pays off what it hands
    out; a read for no bytes at all would be taken for the end. -/
theorem puller_lawful : puller.Lawful 1 := by
  intro maxLen self hpos
  show Meets (pollRead maxLen self) _
  unfold pollRead
  by_cases heof : self.eof = true
  · rw [if_pos heof]
    exact ⟨_, owed_of_eof heof, owed_of_eof heof, heof⟩
  rw [if_neg heof]
  rw [Bool.not_eq_true] at heof
  by_cases hempty : self.reader.isEmpty = true
  · rw [if_neg (by simp [hempty])]
    have hnil := BytesReader.isEmpty_iff.mp hempty
    have hfill := BytesReader.doFill_meets hpos self.reader
    unfold BytesReader.pollRead
    generalize self.reader.doFill maxLen = x at hfill
    obtain ⟨_ | n | e | _, reader⟩ := x
    -- nothing is ready: the reader owes what it owed
    · obtain ⟨hbytes, hstream, hclean, hweight⟩ := hfill
      refine ⟨?_, id, hweight⟩
      refine (owed_prepend (s := { self with reader }) (d := []) heof heof ?_ hclean).symm
      show self.reader.unread = reader.unread
      rw [BytesReader.unread, BytesReader.unread, hbytes, hstream]
    · obtain ⟨d, rfl, -, hbytes, hstream, hclean, hweight, hend⟩ := hfill
      simp only [mapErr_mk, Polled.mapErr_ok, andThen_ok]
      by_cases hd : d = []
      -- a fill of no bytes is the clean end of the connection, as some were asked for
      · obtain ⟨hs, hc⟩ := hend (by rw [hd]; rfl)
        rw [if_pos (by rw [hd]; rfl)]
        refine ⟨_, ?_, @owed_of_eof { self with reader, eof := true } rfl, rfl⟩
        show self.owed = _
        rw [owed_of_not_eof heof, BytesReader.unread, hnil, hs, if_pos hc]
        rfl
      -- what was filled in is taken from the buffer
      · rw [if_neg (by simpa using hd)]
        have howed : self.owed = owed { self with reader } := by
          refine owed_prepend (s := { self with reader }) (d := []) heof heof ?_ hclean
          show self.reader.unread = reader.unread
          rw [BytesReader.unread, BytesReader.unread, hbytes, hstream, List.append_assoc]
        refine Puller.post_of_owed_eq (P := puller) howed.symm id ?_
          (@take_meets maxLen hpos { self with reader } heof (by simp [hbytes, hd]))
        show reader.weight ≤ self.reader.weight
        omega
    · obtain ⟨hbytes, hstream, hclean, hweight⟩ := hfill
      intro _
      show self.owed = _
      rw [owed_of_not_eof heof, BytesReader.unread, hnil, hstream, if_neg hclean]
      rfl
    · exact hfill
  · rw [if_pos (by simpa using hempty)]
    exact take_meets hpos heof fun h => hempty (BytesReader.isEmpty_iff.mpr h)

end EofBodyReader

end Jrpxy.Body.Reader
