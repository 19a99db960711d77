/-
  Jrpxy.Body.Writer.Plain

  The three body writers that put nothing but data on the wire.

  Bodyless, content-length and close-delimited writers go through the same
  phases as a chunked writer, so that all encodings have one shape.  They
  differ in what `open` admits: nothing, what the declared length leaves, or
  anything.
-/
import Jrpxy.Body.Writer

namespace Jrpxy.Body.Writer

open Poll BlockWriter Util

/-- A write phase that keeps nothing but its offset. -/
theorem dataPost_of_bounded {τ : Type} {view : τ → Writing} (maxLength offset : UInt64)
    (put : UInt64 → τ)
    (hview : ∀ o, view (put o) = { view (put offset) with left := maxLength.toNat - o.toNat })
    {buf : Bytes} (hne : buf ≠ []) (hlen : buf.length ≤ (view (put offset)).left) (s : Sink) :
    Meets (match pollWriteBounded maxLength buf offset s with
      | (answer, o, s') => (answer, put o, s')) (dataPost medium view buf (put offset) s) := by
  have hleft := congrArg Writing.left (hview offset)
  rw [hleft] at hlen
  have hpoll := pollWriteBounded_meets hne hlen s
  generalize pollWriteBounded maxLength buf offset s = x at hpoll
  obtain ⟨_ | n | e | _, o, s'⟩ := x
  · obtain ⟨hsends, rfl, hweight⟩ := hpoll
    exact ⟨hsends, rfl, hweight⟩
  · obtain ⟨hsends, hn, hrest, hzero⟩ := hpoll
    refine ⟨hsends, hn, ?_, hzero⟩
    rw [hview o, hrest, hleft]
  · exact hpoll
  · exact hpoll

/-! ## Flushing at the end -/

/-- The last state of a writer that has nothing more to send. -/
structure Flushing where
  flushed : Bool
  deriving DecidableEq, Repr

namespace Flushing

/-- One poll of the final flush. -/
def pollFinish (self : Flushing) (sink : Sink) : Polled BodyError Unit × Flushing × Sink :=
  andThen (pollFlush sink) (fun sink => (self, sink)) fun _ sink => (.ok (), ⟨true⟩, sink)

/-- Give the sink back; only after the flush. -/
def intoWriter (self : Flushing) : Except BodyError Unit :=
  if self.flushed then .ok () else .error .unflushedFinish

theorem pollFinish_meets (self : Flushing) (s : Sink) :
    Meets (self.pollFinish s) {
      pending := fun (f, s') => f = self ∧ Sends medium [] s s' ∧ s'.weight < s.weight
      ok := fun _ (f, s') => f.flushed = true ∧ Sends medium [] s s'
      err := fun _ (_, s') => s'.wire = s.wire ∧ ¬ s.Accepting } := by
  refine (pollFlush_meets s).andThen ?_ ?_ ?_
  · rintro s' ⟨hsends, hweight⟩
    exact ⟨rfl, hsends, hweight⟩
  · intro e s' herr
    exact herr
  · intro _ s' hsends
    exact ⟨rfl, hsends⟩

/-- `finish().await` -/
def finish (self : Flushing) (sink : Sink) : Polled BodyError Unit × Sink :=
  andThen (blockOn (fun x : Flushing × Sink => x.1.pollFinish x.2) (sink.weight + 1) (self, sink))
    (·.2) fun _ x => (.ofExcept x.1.intoWriter, x.2)

/-- Flushing sends nothing. -/
theorem finish_meets (self : Flushing) (s : Sink) :
    Meets (self.finish s) {
      pending := fun _ => False
      ok := fun _ s' => Sends medium [] s s'
      err := fun _ _ => ¬ s.Accepting } := by
  have hpoll : ∀ (x : Flushing) (s : Sink), Meets (x.pollFinish s) {
      sendPost medium (fun _ => ⟨⟨.plain, none⟩, 0, []⟩) x s with
      ok := fun a y => (sendPost (ε := BodyError) medium (fun _ => ⟨⟨.plain, none⟩, 0, []⟩)
        x s).ok a y ∧ y.1.flushed = true } := by
    intro x s
    refine (pollFinish_meets x s).mono ?_ ?_ ?_
    · rintro ⟨x', s'⟩ ⟨-, hsends, hweight⟩
      exact ⟨[], hsends, rfl, hweight⟩
    · rintro - ⟨x', s'⟩ ⟨hflushed, hsends⟩
      exact ⟨⟨hsends, rfl⟩, hflushed⟩
    · rintro e ⟨x', s'⟩ ⟨hwire, hacc⟩
      exact ⟨⟨[], [], rfl, hwire.trans (List.append_nil _).symm⟩, hacc⟩
  refine (send_meets (M := medium) _ (fun x : Flushing => x.flushed = true) hpoll self s).andThen
    (fun _ h => h) (fun _ _ h => h) ?_
  rintro - ⟨x, s'⟩ ⟨hsends, -, hflushed⟩
  have hok : x.intoWriter = .ok () := if_pos hflushed
  simp only [hok, Polled.ofExcept_ok]
  exact hsends

end Flushing

/-! ## No body -/

namespace Bodyless

/-- Between two blocks. -/
inductive Ready where
  | mk
  deriving DecidableEq, Repr

/-- A block of no bytes being opened. -/
inductive Open where
  | mk
  deriving DecidableEq, Repr

/-- A block of no bytes being written. -/
inductive Write where
  | mk
  deriving DecidableEq, Repr

/-- A block of no bytes being closed. -/
inductive Close where
  | mk
  deriving DecidableEq, Repr

abbrev Finish := Flushing

/-- Only a block of no bytes can be opened. -/
def Ready.open (_ : Ready) (length : UInt64) : Except BodyError Open :=
  if 0 < length then .error (.bodyOverflow 0) else .ok .mk

def Ready.finish (_ : Ready) : Finish := ⟨false⟩

def Open.pollOpen (self : Open) (sink : Sink) : Polled BodyError Unit × Open × Sink :=
  (.ok (), self, sink)

def Open.intoWrite (_ : Open) : Except BodyError Write := .ok .mk

def Write.pollWrite (self : Write) (buffer : Bytes) (sink : Sink) :
    Polled BodyError Nat × Write × Sink :=
  if buffer.isEmpty then (.ok 0, self, sink) else (.err (.bodyOverflow 0), self, sink)

def Write.intoClose (_ : Write) : Except BodyError Close := .ok .mk

def Close.pollClose (self : Close) (sink : Sink) : Polled BodyError Unit × Close × Sink :=
  (.ok (), self, sink)

def Close.intoReady (_ : Close) : Except BodyError Ready := .ok .mk

/-- No framing, and no room for data. -/
def idle : Idle := ⟨.plain, some 0⟩

def phases : Phases Sink BodyError where
  Ready := Ready
  Open := Open
  Write := Write
  Close := Close
  openBlock n r := r.open (UInt64.ofNat n)
  pollOpen := Open.pollOpen
  intoWrite := Open.intoWrite
  pollWrite buffer w := w.pollWrite buffer
  intoClose := Write.intoClose
  pollClose := Close.pollClose
  intoReady := Close.intoReady
  idle _ := idle
  opening _ := ⟨idle, 0, []⟩
  writing _ := ⟨idle, 0, 0⟩
  closing _ := ⟨idle, 0, []⟩

theorem phases_lawful : phases.Lawful medium (2 ^ 64) where
  openBlock := by
    intro n r hroom _
    have hzero : n = 0 := Nat.le_zero.mp (hroom 0 rfl)
    subst hzero
    exact ⟨.mk, rfl, rfl⟩
  pollOpen o s := ⟨Sends.refl _ _, rfl⟩
  intoWrite _ := ⟨.mk, rfl, rfl⟩
  pollWrite := by
    intro buf w s hne hlen
    exact absurd (List.length_eq_zero_iff.mp (Nat.le_zero.mp hlen)) hne
  intoClose _ := ⟨.mk, rfl, rfl⟩
  pollClose c s := ⟨Sends.refl _ _, rfl⟩
  intoReady _ := ⟨.mk, rfl, rfl⟩

end Bodyless

/-! ## A declared length -/

namespace ContentLength

/-- Between two blocks: `offset` bytes of the declared length are written. -/
structure Ready where
  length : UInt64
  offset : UInt64
  offset_le : offset.toNat ≤ length.toNat
  deriving DecidableEq, Repr

/-- A block of `chunkLength` bytes being opened. -/
structure Open where
  totalLength : UInt64
  offset : UInt64
  chunkLength : UInt64
  fits : offset.toNat + chunkLength.toNat ≤ totalLength.toNat
  deriving DecidableEq, Repr

/-- A block of `chunkLength` bytes of which `chunkOffset` are written. -/
structure Write where
  totalLength : UInt64
  offset : UInt64
  chunkLength : UInt64
  chunkOffset : UInt64
  fits : offset.toNat + chunkLength.toNat ≤ totalLength.toNat
  deriving DecidableEq, Repr

/-- A written block being closed. -/
structure Close where
  totalLength : UInt64
  offset : UInt64
  offset_le : offset.toNat ≤ totalLength.toNat
  deriving DecidableEq, Repr

abbrev Finish := Flushing

def Ready.new (length : UInt64) : Ready := ⟨length, 0, Nat.zero_le _⟩

def Ready.remaining (self : Ready) : UInt64 := self.length - self.offset

/-- A block can be opened if the declared length has room for it. -/
def Ready.open (self : Ready) (length : UInt64) : Except BodyError Open :=
  -- `checked_add`
  if 2 ^ 64 ≤ self.offset.toNat + length.toNat then .error (.bodyOverflow self.length.toNat)
  else if h : self.length.toNat < self.offset.toNat + length.toNat then
    .error (.bodyOverflow self.length.toNat)
  else .ok ⟨self.length, self.offset, length, Nat.le_of_not_lt h⟩

/-- The body is finished when exactly the declared length is written. -/
def Ready.finish (self : Ready) : Except BodyError Finish :=
  if self.offset < self.length then
    .error (.incompleteBody self.length.toNat self.offset.toNat)
  else .ok ⟨false⟩

def Open.pollOpen (self : Open) (sink : Sink) : Polled BodyError Unit × Open × Sink :=
  (.ok (), self, sink)

def Open.intoWrite (self : Open) : Except BodyError Write :=
  .ok ⟨self.totalLength, self.offset, self.chunkLength, 0, self.fits⟩

def Write.chunkRemaining (self : Write) : UInt64 := self.chunkLength - self.chunkOffset

def Write.pollWrite (self : Write) (buffer : Bytes) (sink : Sink) :
    Polled BodyError Nat × Write × Sink :=
  let (answer, chunkOffset, sink) :=
    pollWriteBounded self.chunkLength buffer self.chunkOffset sink
  (answer, { self with chunkOffset }, sink)

/-- The sum of a block that fits is no more than the declared length. -/
theorem Write.offset_le (self : Write) :
    (self.offset + self.chunkLength).toNat = self.offset.toNat + self.chunkLength.toNat :=
  toNat_add_of_le self.fits

def Write.intoClose (self : Write) : Except BodyError Close :=
  if self.chunkOffset < self.chunkLength then
    .error (.incompleteBody self.chunkLength.toNat self.chunkOffset.toNat)
  else .ok ⟨self.totalLength, self.offset + self.chunkLength, by
    rw [self.offset_le]
    exact self.fits⟩

def Close.pollClose (self : Close) (sink : Sink) : Polled BodyError Unit × Close × Sink :=
  (.ok (), self, sink)

def Close.intoReady (self : Close) : Except BodyError Ready :=
  .ok ⟨self.totalLength, self.offset, self.offset_le⟩

/-- No framing, and room for what is left of the declared length. -/
def idle (length offset : Nat) : Idle := ⟨.plain, some (length - offset)⟩

def phases : Phases Sink BodyError where
  Ready := Ready
  Open := Open
  Write := Write
  Close := Close
  openBlock n r := r.open (UInt64.ofNat n)
  pollOpen := Open.pollOpen
  intoWrite := Open.intoWrite
  pollWrite buffer w := w.pollWrite buffer
  intoClose := Write.intoClose
  pollClose := Close.pollClose
  intoReady := Close.intoReady
  idle r := idle r.length.toNat r.offset.toNat
  opening o :=
    ⟨idle o.totalLength.toNat (o.offset.toNat + o.chunkLength.toNat), o.chunkLength.toNat, []⟩
  writing w :=
    ⟨idle w.totalLength.toNat (w.offset.toNat + w.chunkLength.toNat), w.chunkLength.toNat,
      w.chunkLength.toNat - w.chunkOffset.toNat⟩
  closing c := ⟨idle c.totalLength.toNat c.offset.toNat, 0, []⟩

/-- A length that the declared length leaves room for can be opened. -/
theorem Ready.open_eq {self : Ready} {length : UInt64}
    (h : self.offset.toNat + length.toNat ≤ self.length.toNat) :
    self.open length = .ok ⟨self.length, self.offset, length, h⟩ := by
  have htotal := self.length.toNat_lt
  rw [Ready.open, if_neg (by omega), dif_neg (by omega)]

/-- Any other length is refused, whether the sum wraps or is too large. -/
theorem Ready.open_overflow {self : Ready} {length : UInt64}
    (h : self.length.toNat < self.offset.toNat + length.toNat) :
    self.open length = .error (.bodyOverflow self.length.toNat) := by
  unfold Ready.open
  by_cases hwrap : 2 ^ 64 ≤ self.offset.toNat + length.toNat
  · rw [if_pos hwrap]
  · rw [if_neg hwrap, dif_pos h]

theorem phases_lawful : phases.Lawful medium (2 ^ 64) where
  openBlock := by
    intro n r hroom hn
    have hlen := toNat_ofNat_of_lt hn
    have hle : n ≤ r.length.toNat - r.offset.toNat := hroom _ rfl
    have hoff := r.offset_le
    refine ⟨_, Ready.open_eq (by rw [hlen]; omega), ?_⟩
    show Framed.mk (idle _ _) _ _ = Framed.mk (idle _ _) _ _
    simp only [hlen, idle, Nat.sub_sub]
    rfl
  pollOpen o s := ⟨Sends.refl _ _, rfl⟩
  intoWrite := by
    intro o _
    exact ⟨_, rfl, rfl⟩
  pollWrite := by
    intro buf w s hne hlen
    exact dataPost_of_bounded w.chunkLength w.chunkOffset
      (fun chunkOffset => { w with chunkOffset }) (fun _ => rfl) hne hlen s
  intoClose := by
    intro w hleft
    have hleft : w.chunkLength.toNat - w.chunkOffset.toNat = 0 := hleft
    have hdone : ¬ w.chunkOffset < w.chunkLength := by
      rw [UInt64.lt_iff_toNat_lt]
      omega
    refine ⟨_, if_neg hdone, ?_⟩
    show Framed.mk (idle _ _) _ _ = Framed.mk (idle _ _) _ _
    rw [w.offset_le]
    rfl
  pollClose c s := ⟨Sends.refl _ _, rfl⟩
  intoReady := by
    intro c _
    exact ⟨_, rfl, rfl⟩

end ContentLength

/-! ## Delimited by the end of the connection -/

namespace Eof

/-- Between two blocks. -/
inductive Ready where
  | mk
  deriving DecidableEq, Repr

/-- A block of `chunkLength` bytes being opened. -/
structure Open where
  chunkLength : UInt64
  deriving DecidableEq, Repr

/-- A block of `chunkLength` bytes of which `chunkOffset` are written. -/
structure Write where
  chunkLength : UInt64
  chunkOffset : UInt64
  deriving DecidableEq, Repr

/-- A written block being closed. -/
inductive Close where
  | mk
  deriving DecidableEq, Repr

abbrev Finish := Flushing

def Ready.open (_ : Ready) (length : UInt64) : Open := ⟨length⟩

def Ready.finish (_ : Ready) : Finish := ⟨false⟩

def Open.pollOpen (self : Open) (sink : Sink) : Polled BodyError Unit × Open × Sink :=
  (.ok (), self, sink)

def Open.intoWrite (self : Open) : Except BodyError Write := .ok ⟨self.chunkLength, 0⟩

def Write.pollWrite (self : Write) (buffer : Bytes) (sink : Sink) :
    Polled BodyError Nat × Write × Sink :=
  let (answer, chunkOffset, sink) :=
    pollWriteBounded self.chunkLength buffer self.chunkOffset sink
  (answer, { self with chunkOffset }, sink)

def Write.intoClose (self : Write) : Except BodyError Close :=
  if self.chunkOffset < self.chunkLength then
    .error (.incompleteBody self.chunkLength.toNat self.chunkOffset.toNat)
  else .ok .mk

def Close.pollClose (self : Close) (sink : Sink) : Polled BodyError Unit × Close × Sink :=
  (.ok (), self, sink)

def Close.intoReady (_ : Close) : Except BodyError Ready := .ok .mk

/-- No framing, and no limit. -/
def idle : Idle := ⟨.plain, none⟩

def phases : Phases Sink BodyError where
  Ready := Ready
  Open := Open
  Write := Write
  Close := Close
  openBlock n r := .ok (r.open (UInt64.ofNat n))
  pollOpen := Open.pollOpen
  intoWrite := Open.intoWrite
  pollWrite buffer w := w.pollWrite buffer
  intoClose := Write.intoClose
  pollClose := Close.pollClose
  intoReady := Close.intoReady
  idle _ := idle
  opening o := ⟨idle, o.chunkLength.toNat, []⟩
  writing w :=
    ⟨idle, w.chunkLength.toNat, w.chunkLength.toNat - w.chunkOffset.toNat⟩
  closing _ := ⟨idle, 0, []⟩

theorem phases_lawful : phases.Lawful medium (2 ^ 64) where
  openBlock := by
    intro n r _ hn
    refine ⟨_, rfl, ?_⟩
    show Framed.mk idle (UInt64.ofNat n).toNat _ = _
    rw [toNat_ofNat_of_lt hn]
    rfl
  pollOpen o s := ⟨Sends.refl _ _, rfl⟩
  intoWrite := by
    intro o _
    exact ⟨_, rfl, rfl⟩
  pollWrite := by
    intro buf w s hne hlen
    exact dataPost_of_bounded w.chunkLength w.chunkOffset
      (fun chunkOffset => { w with chunkOffset }) (fun _ => rfl) hne hlen s
  intoClose := by
    intro w hleft
    have hleft : w.chunkLength.toNat - w.chunkOffset.toNat = 0 := hleft
    have hdone : ¬ w.chunkOffset < w.chunkLength := by
      rw [UInt64.lt_iff_toNat_lt]
      omega
    exact ⟨_, if_neg hdone, rfl⟩
  pollClose c s := ⟨Sends.refl _ _, rfl⟩
  intoReady _ := ⟨.mk, rfl, rfl⟩

end Eof

end Jrpxy.Body.Writer
