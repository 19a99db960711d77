/-
  Jrpxy.Body.Writer.Chunked

  The chunked body writer.

  Each block becomes one chunk: `open` sends its size line, `close` its CRLF.
  An empty block sends nothing, since a size line announcing zero would end
  the body.  `finish` sends that last line, the trailers and the empty line
  behind them; `abort` sends a byte no size line begins with.
-/
import Jrpxy.Body.Writer.Plain
import Jrpxy.Lib.ChunkedCoding

namespace Jrpxy.Body.Writer.Chunked

open Poll BlockWriter Ascii Util HttpMessage

/-- Sixteen hex digits and CRLF. -/
def maxChunkHeadLen : Nat := 18

def chunkFooter : Bytes := ascii "\r\n"

/-- `{n:x}\r\n` -/
def sizeLine (n : Nat) : Bytes := digits 16 n ++ ascii "\r\n"

/-- The wrap-around of a `u8` counter. -/
def wrapU8 (n : Nat) : Nat := n % 256

/-- Between two chunks. -/
inductive Ready where
  | mk
  deriving DecidableEq, Repr

/-- A chunk whose size line is being sent; the line is empty for an empty chunk. -/
structure Open where
  header : Bytes
  written : Nat
  chunkLength : UInt64
  /-- Writing the line into its buffer of eighteen bytes succeeded. -/
  header_le : header.length ≤ maxChunkHeadLen
  deriving DecidableEq, Repr

/-- A chunk whose data is being sent. -/
structure Write where
  chunkLength : UInt64
  chunkOffset : UInt64
  deriving DecidableEq, Repr

/-- A chunk whose CRLF is being sent. -/
structure Close where
  footerLen : Nat
  footerWritten : Nat
  footerLen_le : footerLen ≤ chunkFooter.length
  deriving DecidableEq, Repr

/-- The end of the body being sent. -/
structure Finish where
  data : Bytes
  written : Nat
  flushed : Bool
  deriving DecidableEq, Repr

/-- The poison byte being sent. -/
structure Abort where
  written : Bool
  flushed : Bool
  deriving DecidableEq, Repr

/-! ## Opening -/

/-- The size line of a `u64` fits its buffer. -/
theorem length_sizeLine_le (n : UInt64) : (sizeLine n.toNat).length ≤ maxChunkHeadLen := by
  have hlen : (digits 16 n.toNat).length ≤ 16 :=
    digits_length_le (by decide) (by decide) (Nat.lt_of_lt_of_le n.toNat_lt (by decide))
  rw [sizeLine, List.length_append]
  exact Nat.add_le_add_right hlen 2

def Open.new (chunkLength : UInt64) : Open :=
  if chunkLength = 0 then ⟨[], 0, chunkLength, Nat.zero_le _⟩
  else ⟨sizeLine chunkLength.toNat, 0, chunkLength, length_sizeLine_le chunkLength⟩

def Ready.open (_ : Ready) (length : UInt64) : Open := .new length

def Open.pollOpen (self : Open) (sink : Sink) : Polled BodyError Unit × Open × Sink :=
  let (answer, written, sink) := pollSend wrapU8 self.header self.written sink
  (answer, { self with written }, sink)

def Open.intoWrite (self : Open) : Except BodyError Write :=
  if self.written < self.header.length then
    .error (.incompleteChunkHeader self.header.length self.written)
  else .ok ⟨self.chunkLength, 0⟩

/-! ## Writing -/

def Write.pollWrite (self : Write) (buffer : Bytes) (sink : Sink) :
    Polled BodyError Nat × Write × Sink :=
  let (answer, chunkOffset, sink) :=
    pollWriteBounded self.chunkLength buffer self.chunkOffset sink
  (answer, { self with chunkOffset }, sink)

/-! ## Closing -/

def Close.new (chunkLength : UInt64) : Close :=
  if chunkLength = 0 then ⟨0, 0, Nat.zero_le _⟩ else ⟨chunkFooter.length, 0, Nat.le_refl _⟩

def Write.intoClose (self : Write) : Except BodyError Close :=
  if self.chunkOffset < self.chunkLength then
    .error (.incompleteBody self.chunkLength.toNat self.chunkOffset.toNat)
  else .ok (.new self.chunkLength)

def Close.pollClose (self : Close) (sink : Sink) : Polled BodyError Unit × Close × Sink :=
  let (answer, footerWritten, sink) :=
    pollSend wrapU8 (chunkFooter.take self.footerLen) self.footerWritten sink
  (answer, { self with footerWritten }, sink)

def Close.intoReady (self : Close) : Except BodyError Ready :=
  if self.footerWritten < self.footerLen then
    .error (.incompleteChunkFooter self.footerLen self.footerWritten)
  else .ok .mk

/-! ## Ending the body -/

/-- `"0\r\n{trailers}\r\n"` -/
def finishData (trailers : Headers) : Bytes :=
  ascii "0\r\n" ++ fieldLines trailers.headers ++ ascii "\r\n"

def Finish.new (trailers : Headers) : Finish := ⟨finishData trailers, 0, false⟩

def Ready.finishWithTrailers (_ : Ready) (trailers : Headers) : Finish := .new trailers

def Ready.finish (self : Ready) : Finish := self.finishWithTrailers .empty

def Finish.pollFinish (self : Finish) (sink : Sink) : Polled BodyError Unit × Finish × Sink :=
  let (answer, written, sink) := pollSend id self.data self.written sink
  andThen (answer, { self with written }, sink) id fun _ (self, sink) =>
    andThen (pollFlush sink) (fun sink => (self, sink)) fun _ sink =>
      (.ok (), { self with flushed := true }, sink)

/-- Give the sink back; only when everything is sent and flushed. -/
def Finish.intoWriter (self : Finish) : Except BodyError Unit :=
  if self.written < self.data.length then
    .error (.incompleteFinish self.data.length self.written)
  else if !self.flushed then .error .unflushedFinish
  else .ok ()

def Ready.abort (_ : Ready) : Abort := ⟨false, false⟩

/-- An invalid first byte of a size line. -/
def poison : Bytes := ascii "x"

def Abort.pollAbort (self : Abort) (sink : Sink) : Polled BodyError Unit × Abort × Sink :=
  let (answer, written, sink) := pollSend id poison (if self.written then 1 else 0) sink
  andThen (answer, { self with written := written != 0 }, sink) id fun _ (self, sink) =>
    andThen (pollFlush sink) (fun sink => (self, sink)) fun _ sink =>
      (.ok (), { self with flushed := true }, sink)

def Abort.discard (self : Abort) : Except BodyError Unit :=
  if !self.flushed then .error .unflushedAbort else .ok ()

/-! ## The async calls, polled to the end -/

/-- `finish().await` -/
def Finish.finish (self : Finish) (sink : Sink) : Polled BodyError Unit × Sink :=
  andThen (blockOn (fun x : Finish × Sink => x.1.pollFinish x.2) (sink.weight + 1) (self, sink))
    (·.2) fun _ x => (.ofExcept x.1.intoWriter, x.2)

/-- `abort().await` -/
def Abort.abort (self : Abort) (sink : Sink) : Polled BodyError Unit × Sink :=
  andThen (blockOn (fun x : Abort × Sink => x.1.pollAbort x.2) (sink.weight + 1) (self, sink))
    (·.2) fun _ x => (.ofExcept x.1.discard, x.2)

/-! ## What the phases send -/

/-- A chunk: its size line, the data and CRLF; nothing for an empty one. -/
def framing : Framing :=
  ⟨fun n => if n = 0 then [] else sizeLine n, fun n => if n = 0 then [] else chunkFooter⟩

/-- Chunked framing, and no limit. -/
def idle : Idle := ⟨framing, none⟩

/-- A framed block is an encoded chunk. -/
theorem framing_block (d : Bytes) : framing.block d = ChunkedCoding.encodeChunk sizeLine d := by
  by_cases hd : d = []
  · subst hd
    rfl
  · have hlen : d.length ≠ 0 := by simpa using hd
    rw [ChunkedCoding.encodeChunk_of_ne_nil sizeLine hd]
    simp only [Framing.block, framing, if_neg hlen]
    rfl

theorem framing_blocks (ds : List Bytes) :
    framing.blocks ds = ChunkedCoding.encodeChunks sizeLine ds := by
  simp only [Framing.blocks, ChunkedCoding.encodeChunks, funext framing_block]

def phases : Phases Sink BodyError where
  Ready := Ready
  Open := Open
  Write := Write
  Close := Close
  openBlock n r := .ok (r.open (UInt64.ofNat n))
  pollOpen := Open.pollOpen
  intoWrite := Open.intoWrite
  pollWrite buffer w := w.pollWrite buffer
  intoClose := Write.intoClose
  pollClose := Close.pollClose
  intoReady := Close.intoReady
  idle _ := idle
  opening o := ⟨idle, o.chunkLength.toNat, o.header.drop o.written⟩
  writing w := ⟨idle, w.chunkLength.toNat, w.chunkLength.toNat - w.chunkOffset.toNat⟩
  closing c := ⟨idle, 0, (chunkFooter.take c.footerLen).drop c.footerWritten⟩

/-- One cycle per block: open, write and close, each polled to the end. -/
def driveChunks (blocks : List Bytes) (ready : Ready) (sink : Sink) :
    Polled BodyError Ready × Sink :=
  phases.runBlocks medium (.bodyWriteError .writeZero) blocks ready sink

/-- A counter within a short line does not wrap. -/
theorem wrapU8_eq {data : Bytes} (h : data.length ≤ maxChunkHeadLen) :
    ∀ k ≤ data.length, wrapU8 k = k := by
  intro k hk
  have hmax : maxChunkHeadLen = 18 := rfl
  exact Nat.mod_eq_of_lt (by omega)

/-- Sending a line under a counter, seen as sending what is left of it. -/
theorem sendPost_of_sent {τ : Type} (wrap : Nat → Nat) (view : τ → Framed) (data : Bytes)
    (written : Nat) (put : Nat → τ)
    (hview : ∀ k, view (put k) = { view (put written) with left := data.drop k })
    (hwrap : ∀ k ≤ data.length, wrap k = k) (s : Sink) :
    Meets (match pollSend wrap data written s with
      | (answer, k, s') => (answer, put k, s')) (sendPost medium view (put written) s) := by
  have hsend := pollSend_meets hwrap written s
  have hleft := congrArg Framed.left (hview written)
  generalize pollSend wrap data written s = x at hsend
  obtain ⟨_ | a | e | _, k, s'⟩ := x
  · obtain ⟨hweight, x, hx, hsplit⟩ := hsend
    refine ⟨x, hx, ?_, hweight⟩
    rw [hview k]
    simp only
    rw [← hsplit]
    exact hview written
  · obtain ⟨hnil, hsends⟩ := hsend
    refine ⟨?_, ?_⟩
    · rw [hleft]
      exact hsends
    · rw [hview k, hnil]
  · obtain ⟨hacc, x, y, hsplit, hwire⟩ := hsend
    exact ⟨⟨x, y, hleft.trans hsplit, hwire⟩, hacc⟩
  · exact hsend

theorem phases_lawful : phases.Lawful medium (2 ^ 64) where
  openBlock := by
    intro n r _ hn
    refine ⟨_, rfl, ?_⟩
    have hlen := toNat_ofNat_of_lt hn
    show Framed.mk idle _ _ = Framed.mk idle n (framing.head n)
    -- an empty block has no size line: it would end the body
    by_cases hzero : UInt64.ofNat n = 0
    · have h0 : n = 0 := by
        rw [← hlen, hzero]
        rfl
      subst h0
      rfl
    · have h0 : n ≠ 0 := by
        intro h0
        rw [h0] at hzero
        exact hzero rfl
      simp only [Ready.open, Open.new, if_neg hzero, hlen, framing, if_neg h0, List.drop_zero]
  pollOpen o s := sendPost_of_sent wrapU8 _ o.header o.written
    (fun written => { o with written }) (fun _ => rfl) (wrapU8_eq o.header_le) s
  intoWrite := by
    intro o hleft
    have hle := List.drop_eq_nil_iff.mp (show o.header.drop o.written = [] from hleft)
    exact ⟨_, if_neg (by omega), rfl⟩
  pollWrite := by
    intro buf w s hne hlen
    exact dataPost_of_bounded w.chunkLength w.chunkOffset
      (fun chunkOffset => { w with chunkOffset }) (fun _ => rfl) hne hlen s
  intoClose := by
    intro w hleft
    have hleft : w.chunkLength.toNat - w.chunkOffset.toNat = 0 := hleft
    have hdone : ¬ w.chunkOffset < w.chunkLength := by
      rw [UInt64.lt_iff_toNat_lt]
      omega
    refine ⟨_, if_neg hdone, ?_⟩
    show Framed.mk idle 0 _ = Framed.mk idle 0 (framing.foot w.chunkLength.toNat)
    by_cases hzero : w.chunkLength = 0
    · rw [hzero]
      rfl
    · have h0 : w.chunkLength.toNat ≠ 0 := fun h0 => hzero (UInt64.toNat_inj.mp h0)
      simp only [Close.new, if_neg hzero, framing, if_neg h0]
      rfl
  pollClose c s := sendPost_of_sent wrapU8 _ _ c.footerWritten
    (fun footerWritten => { c with footerWritten })
    (fun _ => rfl) (wrapU8_eq (Nat.le_trans (List.length_take_le' _ _) (by decide))) s
  intoReady := by
    intro c hleft
    have hle := List.drop_eq_nil_iff.mp
      (show (chunkFooter.take c.footerLen).drop c.footerWritten = [] from hleft)
    rw [List.length_take, Nat.min_eq_left c.footerLen_le] at hle
    exact ⟨.mk, if_neg (by omega), rfl⟩

/-- A flush behind the last byte: the poll is ready when both are done. -/
theorem flush_after {τ : Type} {view : τ → Framed} {t : τ} {s : Sink} (done : τ → τ)
    (Q : τ → Prop) (hview : ∀ t, view (done t) = view t) (hQ : ∀ t, Q (done t))
    {x : Polled BodyError Unit × τ × Sink} (hx : Meets x (sendPost medium view t s)) :
    Meets (andThen x id fun _ (t', s') =>
        andThen (pollFlush s') (fun s'' => (t', s'')) fun _ s'' => (.ok (), done t', s''))
      { sendPost medium view t s with
        ok := fun a y => (sendPost (ε := BodyError) medium view t s).ok a y ∧ Q y.1 } := by
  refine hx.andThen (fun _ h => h) (fun _ _ h => h) ?_
  rintro - ⟨t', s'⟩ ⟨hsends, hleft⟩
  refine (pollFlush_meets s').andThen ?_ ?_ ?_
  -- everything is sent, but the flush is not done
  · rintro s'' ⟨hsends', hweight⟩
    have hw := hsends.weight
    refine ⟨_, hsends.trans hsends', ?_, Nat.lt_of_lt_of_le hweight hw⟩
    simp only [hleft, List.append_nil]
  · rintro e s'' ⟨hwire, hacc⟩
    exact ⟨⟨_, [], (List.append_nil _).symm, hwire.trans hsends.wire⟩,
      fun h => hacc (hsends.accepting h)⟩
  · intro _ s'' hsends'
    have hall := hsends.trans hsends'
    rw [List.append_nil] at hall
    exact ⟨⟨hall, (hview t').trans hleft⟩, hQ t'⟩

/-- What of the end of the body is still to be sent. -/
def Finish.left (f : Finish) : Framed := ⟨idle, 0, f.data.drop f.written⟩

/-- One poll of the end of the body. -/
theorem pollFinish_meets (f : Finish) (s : Sink) :
    Meets (f.pollFinish s) { sendPost medium Finish.left f s with
      ok := fun a x => (sendPost (ε := BodyError) medium Finish.left f s).ok a x ∧
        x.1.flushed = true } := by
  have hsend := sendPost_of_sent id Finish.left f.data f.written
    (fun written => { f with written }) (fun _ => rfl) (fun _ _ => rfl) s
  exact flush_after (fun f => { f with flushed := true })
    (fun f : Finish => f.flushed = true) (fun _ => rfl) (fun _ => rfl) hsend

/-- Ending the body sends what is left of the end. -/
theorem finish_meets (f : Finish) (s : Sink) :
    Meets (f.finish s) {
      pending := fun _ => False
      ok := fun _ s' => Sends medium (f.data.drop f.written) s s'
      err := fun _ _ => ¬ s.Accepting } := by
  refine (send_meets (M := medium) Finish.left (fun f : Finish => f.flushed = true)
    pollFinish_meets f s).andThen (fun _ h => h) (fun _ _ h => h) ?_
  rintro - ⟨f', s'⟩ ⟨hsends, hview, hflushed⟩
  have hle := List.drop_eq_nil_iff.mp (congrArg Framed.left hview)
  have hok : f'.intoWriter = .ok () := by
    rw [Finish.intoWriter, if_neg (by omega), if_neg (by simp [hflushed])]
  simp only [hok, Polled.ofExcept_ok]
  exact hsends

/-- What of the poison byte is still to be sent. -/
def Abort.left (a : Abort) : Framed := ⟨idle, 0, if a.written then [] else poison⟩

/-- One poll of an abort. -/
theorem pollAbort_meets (a : Abort) (s : Sink) :
    Meets (a.pollAbort s) { sendPost medium Abort.left a s with
      ok := fun x y => (sendPost (ε := BodyError) medium Abort.left a s).ok x y ∧
        y.1.flushed = true } := by
  have hleft : ∀ k, poison.drop k = if k != 0 then [] else poison := by
    intro k
    cases k with
    | zero => rfl
    | succ k => exact List.drop_of_length_le (Nat.le_add_left 1 k)
  have hsend := sendPost_of_sent id Abort.left poison (if a.written then 1 else 0)
    (fun written => { a with written := written != 0 })
    (fun k => by rw [hleft]; rfl) (fun _ _ => rfl) s
  have hself : ({ a with written := (if a.written then 1 else 0) != 0 } : Abort) = a := by
    obtain ⟨written, flushed⟩ := a
    cases written <;> rfl
  rw [hself] at hsend
  exact flush_after (fun a => { a with flushed := true })
    (fun a : Abort => a.flushed = true) (fun _ => rfl) (fun _ => rfl) hsend

/-- Aborting sends the poison byte. -/
theorem abort_meets (s : Sink) :
    Meets (Ready.mk.abort.abort s) {
      pending := fun _ => False
      ok := fun _ s' => Sends medium poison s s'
      err := fun _ _ => ¬ s.Accepting } := by
  refine (send_meets (M := medium) Abort.left (fun a : Abort => a.flushed = true)
    pollAbort_meets _ s).andThen (fun _ h => h) (fun _ _ h => h) ?_
  rintro - ⟨a', s'⟩ ⟨hsends, hview, hflushed⟩
  have hok : a'.discard = .ok () := by
    rw [Abort.discard, if_neg (by simp [hflushed])]
  simp only [hok, Polled.ofExcept_ok]
  exact hsends

end Jrpxy.Body.Writer.Chunked
