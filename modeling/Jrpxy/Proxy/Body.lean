/-
  Jrpxy.Proxy.Body

  Body forwarders for proxied requests and responses.

  Both pump a body from the reader of one side into the writer of the other,
  as a `Relay` does.  A `Side` is what the two differ in: which encodings
  there are, and how errors are named.  A forwarder that is finished has
  drained its reader and ended its body, with the trailers of a chunked
  source, sanitized, when the sink is chunked too (`finish_meets`).
-/
import Jrpxy.Proxy.Error
import Jrpxy.Proxy.HopByHop
import Jrpxy.Frontend.Writer
import Jrpxy.Backend.Writer
import Jrpxy.Lib.Relay.Runs

namespace Jrpxy.Proxy

open Poll PullStream BlockWriter BodyRelay Util HttpMessage Body Body.Reader Body.Writer
open Frontend Backend

/-- What the two body forwarders differ in. -/
structure Side (E ε₁ ε₂ : Type) where
  last : Puller E BodyError BodyEnd
  eof : Bool
  readFailed : BodyError → ε₁
  writeFailed : BodyError → ε₂
  readError : ε₁ → ProxyCopyError
  writeError : ε₂ → ProxyCopyError
  copyIncomplete : ProxyCopyError

variable {E ε₁ ε₂ : Type}

namespace Side

variable (S : Side E ε₁ ε₂) (h : Httparse)

/-- The reader and the writer of a forwarder. -/
def ends : Ends (BodyReader E) Sink ε₁ ε₂ ProxyCopyError BodyEnd where
  source := BodyReader.puller h S.last S.readFailed
  target := Unifier.phases S.eof S.writeFailed
  readError := S.readError
  writeError := S.writeError
  afterError := .forwardAfterError

/-- `into_ready` -/
def intoReady : WriterState (S.ends h).target → Except ProxyCopyError (Unifier.Ready S.eof)
  | .ready r => .ok r
  | _ => .error S.copyIncomplete

/-- Drain a chunked reader and end a chunked body with its trailers. -/
def finishWithTrailers (fr : ChunkedBodyReader) (recyclable : Bool) (bw : Chunked.Ready)
    (sink : Sink) : Polled ProxyCopyError (Option ConnectionReader × Option Sink) × Sink :=
  andThen ((BodyReader.drainChunked h S.readFailed fr recyclable).mapErr S.readError, sink) id
    fun (nextReader, trailers) sink =>
      let finisher := bw.finishWithTrailers (sanitizeTrailers trailers)
      andThen (mapErr (S.writeError ∘ S.writeFailed) (finisher.finish sink)) id
        fun _ sink => (.ok (nextReader, some sink), sink)

/-- Drain a reader and end a body. -/
def finishPlain (fr : BodyReader E) (bw : Unifier.Ready S.eof) (sink : Sink) :
    Polled ProxyCopyError (Option ConnectionReader × Option Sink) × Sink :=
  andThen ((BodyReader.drain h S.readFailed fr).mapErr S.readError, sink) id
    fun nextReader sink =>
      andThen (.ofExcept ((Unifier.Ready.finish S.writeFailed bw).mapError S.writeError), sink) id
        fun finisher sink =>
          andThen (mapErr S.writeError (Unifier.Finish.finish S.writeFailed finisher sink)) id
            fun nextWriter sink => (.ok (nextReader, nextWriter), sink)

/-- Drain the reader and end the body. -/
def finishBody (reader : BodyReader E) (writer : Unifier.Ready S.eof) (sink : Sink) :
    Polled ProxyCopyError (Option ConnectionReader × Option Sink) × Sink :=
  match reader, writer with
  | .te fr recyclable, .chunked bw => S.finishWithTrailers h fr recyclable bw sink
  | fr, bw => S.finishPlain h fr bw sink

/-- Finish a forwarder, with at most `fuel` polls until the body is through. -/
def finish (fuel : Nat) (self : Relay (S.ends h)) :
    Polled ProxyCopyError (Option ConnectionReader × Option Sink) × Sink :=
  andThen (Run.forwardAll fuel ⟨self, none⟩) (·.relay.sender.medium) fun _ run =>
    andThen (.ofExcept (S.intoReady h run.relay.sender.writer), run.relay.sender.medium) id
      fun writer sink => S.finishBody h run.relay.reader writer sink

end Side

/-! ## The two forwarders -/

/-- Frontend-to-backend. -/
def requestSide : Side Empty FrontendError BackendError where
  last := .absent
  eof := false
  readFailed := .bodyReadError
  writeFailed := .bodyWriteError
  readError := .ofFrontendError
  writeError := .ofBackendError
  copyIncomplete := .backendCopyIncomplete

/-- Backend-to-frontend. -/
def responseSide : Side EofBodyReader BackendError FrontendError where
  last := EofBodyReader.puller
  eof := true
  readFailed := .bodyReadError
  writeFailed := .bodyWriteError
  readError := .ofBackendError
  writeError := .ofFrontendError
  copyIncomplete := .frontendCopyIncomplete

/-- Forwards a request body from the frontend to the backend. -/
abbrev RequestBodyForwarder (h : Httparse) := Relay (requestSide.ends h)

/-- Forwards a response body from the backend to the frontend. -/
abbrev ResponseBodyForwarder (h : Httparse) := Relay (responseSide.ends h)

namespace RequestBodyForwarder

variable (h : Httparse)

def new (chunkSize : Nat) (frontendBodyReader : FrontendBodyReader)
    (backendBodyWriter : BackendBodyReady) (sink : Sink) : RequestBodyForwarder h :=
  Relay.new chunkSize frontendBodyReader backendBodyWriter sink

/-- A writer towards a backend always outlives the body. -/
def finish (fuel : Nat) (self : RequestBodyForwarder h) :
    Polled ProxyCopyError (Option FrontendReader × BackendWriter) × Sink :=
  andThen (requestSide.finish h fuel self) id fun (nextReader, _) sink =>
    (.ok (nextReader, ⟨sink⟩), sink)

end RequestBodyForwarder

namespace ResponseBodyForwarder

variable (h : Httparse)

def new (chunkSize : Nat) (backendBodyReader : BackendBodyReader)
    (frontendBodyWriter : FrontendBodyReady) (sink : Sink) : ResponseBodyForwarder h :=
  Relay.new chunkSize backendBodyReader frontendBodyWriter sink

def finish (fuel : Nat) (self : ResponseBodyForwarder h) :
    Polled ProxyCopyError (Option BackendReader × Option FrontendWriter) × Sink :=
  andThen (responseSide.finish h fuel self) id fun (nextReader, nextWriter) sink =>
    (.ok (nextReader, nextWriter.map FrontendWriter.mk), sink)

end ResponseBodyForwarder

/-! ## What finishing comes to -/

/-- What stands behind the last block of a finished body. -/
def endOfBody {eof : Bool} : Unifier.Ready eof → Headers → Bytes
  | .chunked _, trailers => Chunked.finishData (sanitizeTrailers trailers)
  | _, _ => []

/-- Between two blocks, what the writer has sent and admits. -/
def idleOf {eof : Bool} (writer : Unifier.Ready eof) : Idle :=
  (Unifier.phases eof (id : BodyError → BodyError)).idle writer

/-- The sink has room for the body; and when it declares a length, it is that of the
    body if the body is complete, and more if it is not. -/
structure Fills (v : Idle) (o : Owed BodyEnd) : Prop where
  admits : v.Admits o.body.length
  exact : ∀ t ∈ o.tail, ∀ k ∈ v.room, k = o.body.length
  short : o.tail = none → ∀ k ∈ v.room, o.body.length < k

/-- What the fourth framing of a side is to be like. -/
structure Side.Lawful (S : Side E ε₁ ε₂) : Prop where
  last : S.last.Lawful 1
  fits : ∀ r, S.last.Done r → S.last.Fits r
  trailers : ∀ {r t}, (S.last.owed r).tail = some t → t.trailers = .empty

theorem requestSide_lawful : requestSide.Lawful where
  last := Puller.absent_lawful.mono (Nat.zero_le 1)
  fits := nofun
  trailers {r} := nomatch r

theorem responseSide_lawful : responseSide.Lawful where
  last := EofBodyReader.puller_lawful
  fits _ _ := trivial
  trailers := by
    intro r t htail
    have htail : r.owed.tail = some t := htail
    unfold EofBodyReader.owed at htail
    split at htail
    · cases htail
      rfl
    · simp only at htail
      split at htail
      · cases htail
        rfl
      · cases htail

/-- Chunked framing puts something in front of a block. -/
theorem framing_ne_plain : Chunked.framing ≠ .plain := by
  intro heq
  have hhead : Chunked.framing.head 1 = [] := by rw [heq]; rfl
  exact absurd hhead (by decide)

/-- The end of a body depends on how its blocks are framed. -/
theorem endOfBody_congr {eof : Bool} {r r' : Unifier.Ready eof}
    (h : (idleOf r').framing = (idleOf r).framing) (trailers : Headers) :
    endOfBody r' trailers = endOfBody r trailers := by
  cases r with
  | chunked r =>
    cases r' with
    | chunked r' => rfl
    | bodyless r' => exact absurd h.symm framing_ne_plain
    | cl r' => exact absurd h.symm framing_ne_plain
    | eof a r' => exact absurd h.symm framing_ne_plain
  | bodyless r =>
    cases r' with
    | chunked r' => exact absurd h framing_ne_plain
    | _ => rfl
  | cl r =>
    cases r' with
    | chunked r' => exact absurd h framing_ne_plain
    | _ => rfl
  | eof a r =>
    cases r' with
    | chunked r' => exact absurd h framing_ne_plain
    | _ => rfl

section Finishing

variable {S : Side E ε₁ ε₂} {h : Httparse}
variable (hS : S.Lawful) (hsize : h.ChunkSizeLaws) (hfields : h.FieldSectionLaws)

include hS in
/-- A reader at its end is within its limits. -/
theorem Side.fits_of_done {reader : BodyReader E} (hdone : reader.Done h S.last) :
    reader.Fits h S.last := by
  cases reader with
  | bodyless inner r => trivial
  | cl inner r => trivial
  | te inner r => exact ChunkedBodyReader.fits_of_done hdone
  | eof inner => exact hS.fits inner hdone

include hS in
/-- Only a chunked body has trailers. -/
theorem Side.trailers_empty {reader : BodyReader E} {t : BodyEnd}
    (hte : ∀ inner r, reader ≠ .te inner r) (htail : (reader.owed h S.last).tail = some t) :
    t.trailers = .empty := by
  cases reader with
  | bodyless inner r =>
    cases htail
    rfl
  | cl inner r =>
    have htail : inner.owed.tail = some t := htail
    unfold ContentLengthBodyReader.owed at htail
    simp only at htail
    split at htail
    · cases htail
      rfl
    · cases htail
  | te inner r => exact absurd rfl (hte inner r)
  | eof inner => exact hS.trailers htail

/-- What ending a body sends, and what it gives back. -/
def endPost {eof : Bool} (writer : Unifier.Ready eof) (t : BodyEnd) (s : Sink) :
    Post ProxyCopyError (Option ConnectionReader × Option Sink) Sink where
  pending _ := False
  ok out s' := Sends medium (endOfBody writer t.trailers) s s' ∧
    (∀ c ∈ out.1, c.reader.unread = t.rest) ∧
    out.2 = if Unifier.Ready.recyclable writer then some s' else none
  err _ _ := ¬ s.Accepting

include hsize hfields

theorem Side.finishWithTrailers_meets {fr : ChunkedBodyReader} (recyclable : Bool)
    (bw : Chunked.Ready) {t : BodyEnd} (hfits : fr.Fits h)
    (htail : (fr.owed h).tail = some t) (s : Sink) :
    Meets (S.finishWithTrailers h fr recyclable bw s)
      (endPost (.chunked bw : Unifier.Ready S.eof) t s) := by
  obtain ⟨next, hrest, hdrain⟩ := BodyReader.drainChunked_eq (f := S.readFailed) hsize hfields
    recyclable hfits htail
  simp only [Side.finishWithTrailers, hdrain, Polled.mapErr_ok, andThen_ok]
  have hfinish := Chunked.finish_meets (bw.finishWithTrailers (sanitizeTrailers t.trailers)) s
  generalize Chunked.Finish.finish _ s = x at hfinish
  obtain ⟨_ | a | e | _, s'⟩ := x
  · exact hfinish
  · exact ⟨hfinish, BodyReader.recycle_unread hrest, rfl⟩
  · exact hfinish
  · exact hfinish

theorem Side.finishPlain_meets {reader : BodyReader E} {writer : Unifier.Ready S.eof} {t : BodyEnd}
    (hfits : reader.Fits h S.last) (htail : (reader.owed h S.last).tail = some t)
    (hspent : ∀ k ∈ (idleOf writer).room, k = 0)
    (hend : Unifier.Ready.terminator writer = endOfBody writer t.trailers) (s : Sink) :
    Meets (S.finishPlain h reader writer s) (endPost writer t s) := by
  obtain ⟨next, hdrain, -, hrest⟩ := BodyReader.drain_eq (f := S.readFailed) hsize hfields
    hfits htail
  obtain ⟨x, hready, hfinish⟩ := Unifier.finish_meets S.writeFailed hspent
  simp only [Side.finishPlain, hdrain, hready, Polled.mapErr_ok, andThen_ok, mapError_ok,
    Polled.ofExcept_ok]
  have hfinish := hfinish s
  rw [hend] at hfinish
  generalize Unifier.Finish.finish S.writeFailed x s = y at hfinish
  obtain ⟨_ | a | e | _, s'⟩ := y
  · exact hfinish
  · exact ⟨hfinish.1, hrest, hfinish.2⟩
  · exact hfinish
  · exact hfinish

include hS

/-- Ending a body whose reader is at its end and whose writer owes nothing. -/
theorem Side.finishBody_meets {reader : BodyReader E} {writer : Unifier.Ready S.eof} {t : BodyEnd}
    (hdone : reader.Done h S.last) (howed : reader.owed h S.last = .ending t)
    (hspent : ∀ k ∈ (idleOf writer).room, k = 0) (s : Sink) :
    Meets (S.finishBody h reader writer s) (endPost writer t s) := by
  have hfits := Side.fits_of_done hS hdone
  have htail : (reader.owed h S.last).tail = some t := by rw [howed]; rfl
  have hplain : (∀ inner r, reader ≠ .te inner r) → Meets (S.finishPlain h reader writer s)
      (endPost writer t s) := by
    intro hte
    refine Side.finishPlain_meets hsize hfields hfits htail hspent ?_ s
    have hempty := Side.trailers_empty hS hte htail
    cases writer with
    | chunked bw =>
      rw [hempty]
      rfl
    | _ => rfl
  cases reader with
  | te fr r =>
    cases writer with
    -- trailers go on only from chunks to chunks
    | chunked bw => exact Side.finishWithTrailers_meets hsize hfields r bw hfits htail s
    | bodyless bw => exact Side.finishPlain_meets hsize hfields hfits htail hspent rfl s
    | cl bw => exact Side.finishPlain_meets hsize hfields hfits htail hspent rfl s
    | eof a bw => exact Side.finishPlain_meets hsize hfields hfits htail hspent rfl s
  | bodyless inner r => exact hplain nofun
  | cl inner r => exact hplain nofun
  | eof inner => exact hplain nofun

end Finishing

/-! ## Whole runs of a forwarder -/

section Running

variable {S : Side E ε₁ ε₂} {h : Httparse}

/-- What a forwarder is to do. -/
def Side.task (S : Side E ε₁ ε₂) (h : Httparse) (reader : BodyReader E)
    (writer : Unifier.Ready S.eof) (sink : Sink) : Task Sink BodyEnd :=
  ⟨medium, 2 ^ 64, idleOf writer, sink.wire, reader.owed h S.last⟩

/-- Nothing is in the way: the source is within its limits, and the sink accepts bytes. -/
def Side.Clear (S : Side E ε₁ ε₂) (h : Httparse) (reader : BodyReader E) (sink : Sink) : Prop :=
  reader.Fits h S.last ∧ sink.Accepting

/-- A forwarder of this source and this sink, before its first call. -/
def Side.start (S : Side E ε₁ ε₂) (h : Httparse) (chunkSize : Nat) (reader : BodyReader E)
    (writer : Unifier.Ready S.eof) (sink : Sink) : Run (S.ends h) :=
  ⟨Relay.new chunkSize reader writer sink, none⟩

/-- What finishing a forwarder comes to, after whatever calls: a failure leaves a
    beginning of a relayed body if the source is truncated, and success leaves all of it
    and its end. -/
def Side.finishPost (S : Side E ε₁ ε₂) (h : Httparse) (reader : BodyReader E)
    (writer : Unifier.Ready S.eof) (sink : Sink) :
    Post ProxyCopyError (Option ConnectionReader × Option Sink) Sink where
  pending s := Behind medium (2 ^ 64) (idleOf writer) sink.wire (reader.owed h S.last).body s
  ok out s := ∃ t bs, (reader.owed h S.last).tail = some t ∧
    bs.flatten = (reader.owed h S.last).body ∧ (∀ d ∈ bs, d.length < 2 ^ 64) ∧
    s.wire = sink.wire ++ ((idleOf writer).framing.blocks bs ++ endOfBody writer t.trailers) ∧
    (∀ c ∈ out.1, c.reader.unread = t.rest) ∧ ∀ s' ∈ out.2, s' = s
  err _ s := (S.Clear h reader sink → (reader.owed h S.last).tail = none) ∧
    ((reader.owed h S.last).tail = none →
      Behind medium (2 ^ 64) (idleOf writer) sink.wire (reader.owed h S.last).body s)

theorem Side.source_lawful (hS : S.Lawful) (hsize : h.ChunkSizeLaws)
    (hfields : h.FieldSectionLaws) : (S.ends h).source.Lawful 1 :=
  BodyReader.puller_lawful hsize hfields hS.last

theorem Side.target_lawful (S : Side E ε₁ ε₂) (h : Httparse) (reader : BodyReader E)
    (writer : Unifier.Ready S.eof) (sink : Sink) :
    (S.ends h).target.Lawful (S.task h reader writer sink).medium
      (S.task h reader writer sink).limit :=
  Unifier.phases_lawful S.eof S.writeFailed

variable {chunkSize : Nat} {reader : BodyReader E} {writer : Unifier.Ready S.eof} {sink : Sink}
variable (hS : S.Lawful) (hsize : h.ChunkSizeLaws) (hfields : h.FieldSectionLaws)

/-- The body is through: all of it is on the wire in whole blocks, the reader is at its end,
    and the writer `r` is between two blocks with nothing owed. -/
structure Side.Through (S : Side E ε₁ ε₂) (h : Httparse) (reader : BodyReader E)
    (writer : Unifier.Ready S.eof) (sink : Sink) (relay : Relay (S.ends h))
    (r : Unifier.Ready S.eof) (t : BodyEnd) (bs : List Bytes) : Prop where
  ready : S.intoReady h relay.sender.writer = .ok r
  tail : (reader.owed h S.last).tail = some t
  owed : relay.reader.owed h S.last = .ending t
  done : relay.reader.Done h S.last
  wire : relay.sender.medium.wire = sink.wire ++ (idleOf writer).framing.blocks bs
  flat : bs.flatten = (reader.owed h S.last).body
  bounded : ∀ d ∈ bs, d.length < 2 ^ 64
  idle : idleOf r = (idleOf writer).spend (reader.owed h S.last).body.length

theorem Side.through_of_good {run : Run (S.ends h)} {F : Prop}
    (hgood : run.relay.Good (S.task h reader writer sink) F)
    (hfinished : run.relay.Finished) :
    ∃ r t bs, S.Through h reader writer sink run.relay r t bs := by
  obtain ⟨r, t, bs, hready, htail, howed, hdone, hwire, hflat, hbs, hidle⟩ :=
    hgood.finished hfinished
  refine ⟨r, t, bs, ?_, htail, howed, hdone, hwire, hflat, hbs, hidle⟩
  rw [hready]
  rfl

/-- A writer that was to fit the body owes nothing when the body is through. -/
theorem Side.Through.spent {relay : Relay (S.ends h)} {r : Unifier.Ready S.eof} {t : BodyEnd}
    {bs : List Bytes} (hthrough : S.Through h reader writer sink relay r t bs)
    (hfills : Fills (idleOf writer) (reader.owed h S.last)) : ∀ k ∈ (idleOf r).room, k = 0 := by
  intro k hk
  rw [hthrough.idle] at hk
  obtain ⟨m, hm, rfl⟩ := Option.map_eq_some_iff.mp hk
  have hexact := hfills.exact t hthrough.tail m hm
  omega

include hS hsize hfields in
/-- When the body is through, ending it sends its end, and both connections stand
    behind the body. -/
theorem Side.finish_after (hfills : Fills (idleOf writer) (reader.owed h S.last))
    {run : Run (S.ends h)}
    (hgood : run.relay.Good (S.task h reader writer sink) (S.Clear h reader sink))
    (hfinished : run.relay.Finished) :
    Meets (andThen (.ofExcept (S.intoReady h run.relay.sender.writer), run.relay.sender.medium) id
        fun writer sink => S.finishBody h run.relay.reader writer sink)
      { S.finishPost h reader writer sink with pending := fun _ => False } := by
  obtain ⟨r, t, bs, hthrough⟩ := Side.through_of_good hgood hfinished
  have hframing : (idleOf r).framing = (idleOf writer).framing := by
    rw [hthrough.idle]
    rfl
  rw [hthrough.ready]
  refine (Side.finishBody_meets hS hsize hfields hthrough.done hthrough.owed
    (hthrough.spent hfills) _).mono (fun _ hf => hf) ?_ ?_
  · rintro ⟨next, back⟩ s ⟨hsends, hrest, hback⟩
    -- the blocks of the run and the end that was sent are the whole body on the wire
    refine ⟨t, bs, hthrough.tail, hthrough.flat, hthrough.bounded, ?_, hrest, ?_⟩
    · have hend := hsends.wire
      rw [endOfBody_congr hframing] at hend
      rw [← List.append_assoc, ← hthrough.wire]
      exact hend
    · intro s' hs'
      have hback : back = if Unifier.Ready.recyclable r then some s else none := hback
      rw [hback] at hs'
      split at hs'
      · cases hs'
        rfl
      · cases hs'
  -- only the sink can fail here: the reader is at its end
  · intro e s hacc
    refine ⟨fun hclear => absurd (hgood.accepting hclear) hacc, fun hnone => ?_⟩
    rw [hthrough.tail] at hnone
    cases hnone

variable (hpos : 1 ≤ chunkSize) (hword : chunkSize < 2 ^ 64)
  (hfills : Fills (idleOf writer) (reader.owed h S.last))
include hS hsize hfields hpos hword hfills

/-- Every run of calls, dropped or not, is sound. -/
theorem Side.acts_sound (acts : List Act) :
    ((S.start h chunkSize reader writer sink).acts acts).2.Sound (S.task h reader writer sink)
      (S.Clear h reader sink) := by
  refine Run.acts_keeps (Side.source_lawful hS hsize hfields)
    (Side.target_lawful S h reader writer sink) hfills.admits ?_ acts
  exact ⟨Run.settled_of_none, .inl (Relay.new_good (C := S.ends h) (M := medium) hpos hword)⟩

/-- Finishing a forwarder after any run of calls. -/
theorem Side.finish_meets (acts : List Act) (fuel : Nat) :
    Meets (S.finish h fuel ((S.start h chunkSize reader writer sink).acts acts).2.relay)
      (S.finishPost h reader writer sink) := by
  have hsound : ((S.start h chunkSize reader writer sink).acts acts).2.Sound
      (S.task h reader writer sink) (S.Clear h reader sink) :=
    Side.acts_sound hS hsize hfields hpos hword hfills acts
  refine (Run.forwardAll_meets (Side.source_lawful hS hsize hfields)
    (Side.target_lawful S h reader writer sink) hfills.admits fuel
    ⟨Run.settled_of_none, hsound.2⟩).andThen ?_ ?_ ?_
  · exact fun run hrun => hrun.behind
  · exact fun e run herr => ⟨herr.2, fun _ => herr.1.2⟩
  · rintro - run ⟨hgood, hfinished⟩
    exact (Side.finish_after hS hsize hfields hfills hgood hfinished).mono (fun _ hf => hf.elim)
      (fun _ _ ho => ho) (fun _ _ he => he)

/-- With enough polls finishing is ready. -/
theorem Side.finish_ready (acts : List Act) :
    ∃ enough, ∀ fuel, enough ≤ fuel →
      (S.finish h fuel ((S.start h chunkSize reader writer sink).acts acts).2.relay).1 ≠
        .pending := by
  have hsound : ((S.start h chunkSize reader writer sink).acts acts).2.Sound
      (S.task h reader writer sink) (S.Clear h reader sink) :=
    Side.acts_sound hS hsize hfields hpos hword hfills acts
  generalize ((S.start h chunkSize reader writer sink).acts acts).2 = run at hsound
  -- a call that was dropped is forgotten, and the relay is where it was
  have hsound' : Run.Sound (S.task h reader writer sink) (S.Clear h reader sink)
      ⟨run.relay, none⟩ := ⟨Run.settled_of_none, hsound.2⟩
  refine ⟨Run.measure (S.task h reader writer sink) ⟨run.relay, none⟩ + 1, ?_⟩
  intro fuel hfuel hpending
  have hsource := Side.source_lawful hS hsize hfields
  have htarget := Side.target_lawful S h reader writer sink
  have hrun := Run.forwardAll_meets hsource htarget hfills.admits fuel hsound'
  have hready := Run.forwardAll_ready hsource htarget hfills.admits fuel hsound' hfuel
  unfold Side.finish at hpending
  generalize Run.forwardAll fuel ⟨run.relay, none⟩ = x at hrun hready hpending
  obtain ⟨_ | a | e | _, run'⟩ := x
  · exact hready rfl
  · have hafter := Side.finish_after hS hsize hfields hfills hrun.1 hrun.2
    rw [andThen_ok] at hpending
    generalize andThen (Polled.ofExcept (S.intoReady h run'.relay.sender.writer),
      run'.relay.sender.medium) id _ = y at hafter hpending
    obtain ⟨answer, s⟩ := y
    cases hpending
    exact hafter
  · cases hpending
  · cases hpending

end Running

end Jrpxy.Proxy
