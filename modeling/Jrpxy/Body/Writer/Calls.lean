/-
  Jrpxy.Body.Writer.Calls

  A body writer in the hands of any caller.

  Every state of a body writer is a type of its own, so a caller can make only
  the calls of the state it holds; but it can make them in any order, as often
  as it likes, with any arguments, and go on after an error.  `Run` is such a
  caller: the state it holds, the sink, and two things it does not see, the
  bytes it was told are written and how far the sink is flushed.

  A transition that fails consumes the state, so the writer is lost.
-/
import Jrpxy.Body.Writer.Guards

namespace Jrpxy.Body.Writer

open Poll BlockWriter Ascii Util HttpMessage

/-- Drop the sink; only after the flush. -/
def Flushing.discard (self : Flushing) : Except BodyError Unit :=
  if !self.flushed then .error .unflushedAbort else .ok ()

namespace Unifier

variable {eof : Bool} {ε : Type}

/-! ## Aborting -/

/-- Abort state. -/
abbrev Abort (eof : Bool) := Encoding eof Flushing Flushing Chunked.Abort Flushing

/-- Terminate the body abnormally. -/
def Ready.abort : Ready eof → Abort eof
  | .bodyless _ => .bodyless ⟨false⟩
  | .cl _ => .cl ⟨false⟩
  | .chunked r => .chunked r.abort
  | .eof a _ => .eof a ⟨false⟩

/-- Without a poison byte there is only the flush. -/
def Abort.pollAbort (f : BodyError → ε) (self : Abort eof) (sink : Sink) :
    Polled ε Unit × Abort eof × Sink :=
  match self with
  | .bodyless x => wrap f (fun y => (.bodyless y.1, y.2)) (x.pollFinish sink)
  | .cl x => wrap f (fun y => (.cl y.1, y.2)) (x.pollFinish sink)
  | .chunked x => wrap f (fun y => (.chunked y.1, y.2)) (x.pollAbort sink)
  | .eof a x => wrap f (fun y => (.eof a y.1, y.2)) (x.pollFinish sink)

/-- Give up on the sink. -/
def Abort.discard (f : BodyError → ε) : Abort eof → Except ε Unit
  | .bodyless x => x.discard.mapError f
  | .cl x => x.discard.mapError f
  | .chunked x => x.discard.mapError f
  | .eof _ x => x.discard.mapError f

/-! ## The flush -/

/-- The sink as a poll of the end of the body hands it to `poll_flush`, if it comes to that. -/
def Finish.flushPoint (self : Finish eof) (sink : Sink) : Option Sink :=
  match self with
  | .chunked x =>
    match pollSend id x.data x.written sink with
    | (.ok (), _, sink) => some sink
    | _ => none
  | _ => some sink

/-- How much had gone out when a poll of the end of the body flushed it. -/
def Finish.flushes (self : Finish eof) (sink : Sink) : Option Nat := do
  let sink ← self.flushPoint sink
  if (pollFlush sink).1.isOk then some sink.wire.length else none

/-! ## Calls and runs -/

/-- What a caller can call. -/
inductive Call where
  | openBlock (length : UInt64)
  | pollOpen
  | intoWrite
  | pollWrite (buffer : Bytes)
  | intoClose
  | pollClose
  | intoReady
  | finish
  | pollFinish
  | intoWriter
  | abort
  | pollAbort
  | discard
  deriving DecidableEq, Repr

/-- What a caller can hold; in the end the writer, if the encoding gives it back. -/
inductive Phase (eof : Bool) where
  | ready (r : Ready eof)
  | opening (o : Open eof)
  | writing (w : Write eof)
  | closing (c : Close eof)
  | finishing (x : Finish eof)
  | aborting (x : Abort eof)
  | ended (writer : Option Sink)
  | dropped
  deriving DecidableEq, Repr

structure Run (eof : Bool) where
  phase : Phase eof
  sink : Sink
  /-- The bytes that were reported as written. -/
  written : Bytes
  /-- How much had gone out at the last flush that succeeded. -/
  flushed : Option Nat
  deriving DecidableEq, Repr

/-- A transition consumes the state, whether it succeeds or not. -/
def Phase.next {α : Type} (x : Except ε α) (k : α → Phase eof) : Phase eof :=
  match x with
  | .ok a => k a
  | .error _ => .dropped

/-- The bytes of the buffer a write reports. -/
def reported (answer : Polled ε Nat) (buffer : Bytes) : Bytes :=
  match answer with
  | .ok n => buffer.take n
  | _ => []

namespace Run

def start (r : Ready eof) (sink : Sink) : Run eof := ⟨.ready r, sink, [], none⟩

/-- One call; `none` when the state has no such call. -/
def step (f : BodyError → ε) (run : Run eof) (call : Call) : Option (Run eof) :=
  match run.phase, call with
  | .ready r, .openBlock length =>
    some { run with phase := .next (Ready.open f length r) .opening }
  | .ready r, .finish => some { run with phase := .next (Ready.finish f r) .finishing }
  | .ready r, .abort => some { run with phase := .aborting r.abort }
  | .opening o, .pollOpen =>
    let (_, o, sink) := o.pollOpen f run.sink
    some { run with phase := .opening o, sink }
  | .opening o, .intoWrite => some { run with phase := .next (Open.intoWrite f o) .writing }
  | .writing w, .pollWrite buffer =>
    let (answer, w, sink) := w.pollWrite f buffer run.sink
    some { run with phase := .writing w, sink, written := run.written ++ reported answer buffer }
  | .writing w, .intoClose => some { run with phase := .next (Write.intoClose f w) .closing }
  | .closing c, .pollClose =>
    let (_, c, sink) := c.pollClose f run.sink
    some { run with phase := .closing c, sink }
  | .closing c, .intoReady => some { run with phase := .next (Close.intoReady f c) .ready }
  | .finishing x, .pollFinish =>
    let flushed := (x.flushes run.sink).or run.flushed
    let (_, x, sink) := x.pollFinish f run.sink
    some { run with phase := .finishing x, sink, flushed }
  | .finishing x, .intoWriter =>
    some { run with phase := .next (Finish.intoWriter f x run.sink) .ended }
  | .aborting x, .pollAbort =>
    let (_, x, sink) := x.pollAbort f run.sink
    some { run with phase := .aborting x, sink }
  | .aborting x, .discard => some { run with phase := .next (x.discard f) fun _ => .dropped }
  | _, _ => none

/-- A sequence of calls. -/
def steps (f : BodyError → ε) (run : Run eof) : List Call → Option (Run eof)
  | [] => some run
  | call :: calls => (run.step f call).bind fun run => run.steps f calls

/-- What the calls of each phase make of a run. -/
inductive Made (f : BodyError → ε) (sink : Sink) (written : Bytes) (flushed : Option Nat) :
    Phase eof → Run eof → Prop where
  | openBlock (r : Ready eof) (length : UInt64) : Made f sink written flushed (.ready r)
      ⟨.next (Ready.open f length r) .opening, sink, written, flushed⟩
  | finish (r : Ready eof) : Made f sink written flushed (.ready r)
      ⟨.next (Ready.finish f r) .finishing, sink, written, flushed⟩
  | abort (r : Ready eof) : Made f sink written flushed (.ready r)
      ⟨.aborting r.abort, sink, written, flushed⟩
  | pollOpen (o : Open eof) : Made f sink written flushed (.opening o)
      ⟨.opening (o.pollOpen f sink).2.1, (o.pollOpen f sink).2.2, written, flushed⟩
  | intoWrite (o : Open eof) : Made f sink written flushed (.opening o)
      ⟨.next (Open.intoWrite f o) .writing, sink, written, flushed⟩
  | pollWrite (w : Write eof) (buffer : Bytes) : Made f sink written flushed (.writing w)
      ⟨.writing (w.pollWrite f buffer sink).2.1, (w.pollWrite f buffer sink).2.2,
        written ++ reported (w.pollWrite f buffer sink).1 buffer, flushed⟩
  | intoClose (w : Write eof) : Made f sink written flushed (.writing w)
      ⟨.next (Write.intoClose f w) .closing, sink, written, flushed⟩
  | pollClose (c : Close eof) : Made f sink written flushed (.closing c)
      ⟨.closing (c.pollClose f sink).2.1, (c.pollClose f sink).2.2, written, flushed⟩
  | intoReady (c : Close eof) : Made f sink written flushed (.closing c)
      ⟨.next (Close.intoReady f c) .ready, sink, written, flushed⟩
  | pollFinish (x : Finish eof) : Made f sink written flushed (.finishing x)
      ⟨.finishing (x.pollFinish f sink).2.1, (x.pollFinish f sink).2.2, written,
        (x.flushes sink).or flushed⟩
  | intoWriter (x : Finish eof) : Made f sink written flushed (.finishing x)
      ⟨.next (Finish.intoWriter f x sink) .ended, sink, written, flushed⟩
  | pollAbort (x : Abort eof) : Made f sink written flushed (.aborting x)
      ⟨.aborting (x.pollAbort f sink).2.1, (x.pollAbort f sink).2.2, written, flushed⟩
  | discard (x : Abort eof) : Made f sink written flushed (.aborting x)
      ⟨.next (x.discard f) fun _ => .dropped, sink, written, flushed⟩

/-- A call is one of those of the phase. -/
theorem made_of_step {f : BodyError → ε} {run run' : Run eof} {call : Call}
    (hstep : run.step f call = some run') :
    Made f run.sink run.written run.flushed run.phase run' := by
  obtain ⟨phase, sink, written, flushed⟩ := run
  cases phase with
  | ready r =>
    cases call with
    | openBlock length => cases hstep; exact .openBlock r length
    | finish => cases hstep; exact .finish r
    | abort => cases hstep; exact .abort r
    | _ => cases hstep
  | opening o =>
    cases call with
    | pollOpen => cases hstep; exact .pollOpen o
    | intoWrite => cases hstep; exact .intoWrite o
    | _ => cases hstep
  | writing w =>
    cases call with
    | pollWrite buffer => cases hstep; exact .pollWrite w buffer
    | intoClose => cases hstep; exact .intoClose w
    | _ => cases hstep
  | closing c =>
    cases call with
    | pollClose => cases hstep; exact .pollClose c
    | intoReady => cases hstep; exact .intoReady c
    | _ => cases hstep
  | finishing x =>
    cases call with
    | pollFinish => cases hstep; exact .pollFinish x
    | intoWriter => cases hstep; exact .intoWriter x
    | _ => cases hstep
  | aborting x =>
    cases call with
    | pollAbort => cases hstep; exact .pollAbort x
    | discard => cases hstep; exact .discard x
    | _ => cases hstep
  -- nothing can be called any more
  | ended writer => cases call <;> cases hstep
  | dropped => cases call <;> cases hstep

end Run

/-! ## Complete bodies -/

/-- What the head declared. -/
abbrev Declared (eof : Bool) := Encoding eof Unit UInt64 Unit Unit

/-- The writer of a body, before its first byte. -/
def Declared.ready : Declared eof → Ready eof
  | .bodyless _ => .bodyless .mk
  | .cl length => .cl (.new length)
  | .chunked _ => .chunked .mk
  | .eof a _ => .eof a .mk

/-- A chunk of data on the wire. -/
def chunk (d : Bytes) : Bytes := Chunked.sizeLine d.length ++ d ++ Chunked.chunkFooter

/-- `body` is exactly one complete body of what was declared, and its content is `content`;
    a body that ends with the connection is never complete on it. -/
def Declared.Complete (body content : Bytes) : Declared eof → Prop
  | .bodyless _ => body = [] ∧ content = []
  | .cl length => body = content ∧ content.length = length.toNat
  | .chunked _ => ∃ ds : List Bytes, (∀ d ∈ ds, d ≠ [] ∧ d.length < 2 ^ 64) ∧
      body = ds.flatMap chunk ++ ascii "0\r\n\r\n" ∧ content = ds.flatten
  | .eof _ _ => False

/-- Empty blocks leave nothing on the wire. -/
theorem chunked_blocks (ds : List Bytes) :
    Chunked.framing.blocks ds = (ds.filter (· ≠ [])).flatMap chunk := by
  induction ds with
  | nil => rfl
  | cons d ds ih =>
    show Chunked.framing.block d ++ Chunked.framing.blocks ds = _
    rw [ih]
    by_cases hd : d = []
    · subst hd
      rfl
    · have hlen : d.length ≠ 0 := fun h0 => hd (List.length_eq_zero_iff.mp h0)
      rw [List.filter_cons_of_pos (by simpa using hd), List.flatMap_cons, Framing.block, chunk]
      simp only [Chunked.framing, if_neg hlen]

/-! ## Ending the body -/

/-- What of the end of the body is still to be sent. -/
def Finish.left : Finish eof → Bytes
  | .chunked x => x.data.drop x.written
  | _ => []

/-- The state records a flush. -/
def Finish.flushed : Finish eof → Bool
  | .bodyless x => x.flushed
  | .cl x => x.flushed
  | .chunked x => x.flushed
  | .eof _ x => x.flushed

/-- What one poll of the end of the body does: some of what is left goes out, and a flush
    is recorded only when it succeeded behind the last byte. -/
structure Finish.Polled (x : Finish eof) (s : Sink) (x' : Finish eof) (s' : Sink) : Prop where
  sends : ∃ out, s'.wire = s.wire ++ out ∧ x.left = out ++ x'.left
  flushes : ∀ k, x.flushes s = some k → k = s'.wire.length
  flushed : x'.flushed = true → x.flushed = true ∨
    x'.left = [] ∧ x.flushes s = some s'.wire.length

/-- A flush changes nothing on the wire. -/
theorem pollFlush_wire (s : Sink) : (pollFlush s).2.wire = s.wire := by
  obtain ⟨wire, script⟩ := s
  rcases script with _ | ⟨_ | n | e, es⟩ <;> rfl

theorem pollFinish_wire (y : Flushing) (s : Sink) : (y.pollFinish s).2.2.wire = s.wire := by
  have h := pollFlush_wire s
  unfold Flushing.pollFinish
  generalize pollFlush s = z at h ⊢
  obtain ⟨_ | _ | e | _, s'⟩ := z <;> exact h

/-- The end of a body without framing is its flush. -/
theorem polled_flushing {x x' : Finish eof} {y : Flushing} {s : Sink}
    (hleft : x.left = []) (hleft' : x'.left = []) (hpoint : x.flushPoint s = some s)
    (hflushed : x.flushed = y.flushed) (hflushed' : x'.flushed = (y.pollFinish s).2.1.flushed) :
    x.Polled s x' (y.pollFinish s).2.2 := by
  have hwire := pollFinish_wire y s
  have hflushes : x.flushes s = if (pollFlush s).1.isOk then some s.wire.length else none := by
    rw [Finish.flushes, hpoint]
    rfl
  constructor
  · exact ⟨[], by rw [hwire, List.append_nil], by rw [hleft, hleft']; rfl⟩
  · intro k hk
    rw [hflushes] at hk
    split at hk
    · rw [hwire]
      exact (Option.some.inj hk).symm
    · cases hk
  · intro hdone
    rw [hflushed'] at hdone
    rw [hflushed, hflushes, hleft', hwire]
    unfold Flushing.pollFinish at hdone
    generalize pollFlush s = z at hdone ⊢
    obtain ⟨_ | _ | e | _, s'⟩ := z
    · exact .inl hdone
    · exact .inr ⟨rfl, rfl⟩
    · exact .inl hdone
    · exact .inl hdone

theorem Finish.flushes_chunked (x : Chunked.Finish) (s : Sink) :
    Finish.flushes (.chunked x : Finish eof) s =
      (match pollSend id x.data x.written s with
        | (.ok (), _, sink) => some sink
        | _ => none).bind fun sink =>
          if (pollFlush sink).1.isOk then some sink.wire.length else none := rfl

theorem pollFinish_chunked (x : Chunked.Finish) (s : Sink) :
    x.pollFinish s =
      andThen ((pollSend id x.data x.written s).1,
        { x with written := (pollSend id x.data x.written s).2.1 },
        (pollSend id x.data x.written s).2.2) id fun _ (x, sink) =>
          andThen (pollFlush sink) (fun sink => (x, sink)) fun _ sink =>
            (.ok (), { x with flushed := true }, sink) := rfl

/-- The end of a chunked body is its last line, and then its flush. -/
theorem polled_chunked (x : Chunked.Finish) (s : Sink) :
    Finish.Polled (.chunked x : Finish eof) s (.chunked (x.pollFinish s).2.1)
      (x.pollFinish s).2.2 := by
  have hsent := @pollSend_meets id x.data (fun _ _ => rfl) x.written s
  obtain ⟨out, hwire, hdrop⟩ :=
    @pollSendLoop_advances id x.data (fun _ _ => rfl) (x.data.length - x.written) x.written s
  have hflushes := @Finish.flushes_chunked eof x s
  rw [show pollSendLoop id x.data (x.data.length - x.written) x.written s =
    pollSend id x.data x.written s from rfl] at hwire hdrop
  rw [pollFinish_chunked]
  generalize pollSend id x.data x.written s = y at hsent hwire hdrop hflushes ⊢
  obtain ⟨_ | _ | e | _, written, s'⟩ := y
  · exact ⟨⟨out, hwire, hdrop⟩, (by rw [hflushes]; intro _ h; cases h), fun h => .inl h⟩
  -- everything is sent, so the flush is behind the last byte
  · have hnil : x.data.drop written = [] := hsent.1
    have hflush := pollFlush_wire s'
    simp only [andThen_ok, Option.bind_some] at hflushes ⊢
    generalize pollFlush s' = z at hflush hflushes ⊢
    obtain ⟨_ | _ | e | _, s''⟩ := z
    · exact ⟨⟨out, hflush.trans hwire, hdrop⟩,
        (by rw [hflushes]; intro _ h; cases h), fun h => .inl h⟩
    · have hlen : Finish.flushes (.chunked x : Finish eof) s = some s''.wire.length := by
        rw [hflushes]
        exact congrArg (some ·.length) hflush.symm
      refine ⟨⟨out, hflush.trans hwire, hdrop⟩, ?_, fun _ => .inr ⟨hnil, hlen⟩⟩
      intro k hk
      rw [hlen] at hk
      exact (Option.some.inj hk).symm
    · exact ⟨⟨out, hflush.trans hwire, hdrop⟩,
        (by rw [hflushes]; intro _ h; cases h), fun h => .inl h⟩
    · exact ⟨⟨out, hflush.trans hwire, hdrop⟩,
        (by rw [hflushes]; intro _ h; cases h), fun h => .inl h⟩
  · exact ⟨⟨out, hwire, hdrop⟩, (by rw [hflushes]; intro _ h; cases h), fun h => .inl h⟩
  · exact hsent.elim

/-- One poll of the end of the body, in any encoding. -/
theorem pollFinish_polled (f : BodyError → ε) (x : Finish eof) (s : Sink) :
    x.Polled s (x.pollFinish f s).2.1 (x.pollFinish f s).2.2 := by
  cases x with
  | bodyless y => exact polled_flushing rfl rfl rfl rfl rfl
  | cl y => exact polled_flushing rfl rfl rfl rfl rfl
  | chunked y => exact polled_chunked y s
  | eof a y => exact polled_flushing rfl rfl rfl rfl rfl

/-! ## Runs keep the ledger -/

section Runs

variable (f : BodyError → ε) (d : Declared eof)

/-- What is admitted, and how it is framed. -/
def Declared.idle : Idle := (phases eof f).idle d.ready

/-- What has gone out since the body began accounts for the state of the run. -/
def Run.Accounts (sent : Bytes) (run : Run eof) : Prop :=
  match run.phase with
  | .ready r => Idle.Wrote (d.idle f) (2 ^ 64) ((phases eof f).idle r) sent run.written
  | .opening o => Framed.Opening (d.idle f) (2 ^ 64) ((phases eof f).opening o) sent run.written
  | .writing w => Writing.Filling (d.idle f) (2 ^ 64) ((phases eof f).writing w) sent run.written
  | .closing c => Framed.Closing (d.idle f) (2 ^ 64) ((phases eof f).closing c) sent run.written
  | .finishing x => (∀ y z, x ≠ .eof y z) → d.Complete (sent ++ x.left) run.written ∧
      (x.flushed = true → x.left = [] ∧ run.flushed = some run.sink.wire.length)
  | .ended (some writer) => writer = run.sink ∧ d.Complete sent run.written ∧
      run.flushed = some run.sink.wire.length
  | _ => True

variable {f d}

/-- Blocks of plain data that use up all the room there was are a complete body. -/
theorem complete_plain {ds : List Bytes} (hadmits : (d.idle f).Admits ds.flatten.length)
    (hroom : some 0 = (d.idle f).room.map (· - ds.flatten.length)) :
    d.Complete (Framing.plain.blocks ds ++ []) ds.flatten := by
  rw [Framing.blocks_plain, List.append_nil]
  cases d with
  | bodyless u =>
    have hzero : ds.flatten.length ≤ 0 := hadmits 0 rfl
    have hnil := List.length_eq_zero_iff.mp (Nat.le_zero.mp hzero)
    exact ⟨hnil, hnil⟩
  | cl length =>
    have hle : ds.flatten.length ≤ length.toNat - 0 := hadmits _ rfl
    have hspent : 0 = length.toNat - 0 - ds.flatten.length := Option.some.inj hroom
    exact ⟨rfl, by omega⟩
  | chunked u => cases hroom
  | eof a u => cases hroom

/-- The end of the body succeeds behind the last byte of the declared length, and not before. -/
theorem finish_cl_ok {r : ContentLength.Ready} {x : Finish eof}
    (h : Ready.finish f (.cl r : Ready eof) = .ok x) :
    r.offset.toNat = r.length.toNat ∧ x = .cl ⟨false⟩ := by
  obtain ⟨part, hpart, rfl⟩ := exists_part_ok f Encoding.cl (x := r.finish) h
  unfold ContentLength.Ready.finish at hpart
  split at hpart
  · cases hpart
  · next hdone =>
    cases hpart
    rw [UInt64.lt_iff_toNat_lt] at hdone
    -- there is never too much: the state carries that its offset is within the length
    exact ⟨Nat.le_antisymm r.offset_le (Nat.le_of_not_lt hdone), rfl⟩

/-- What the ledger says between blocks, with the end behind it, is a complete body. -/
theorem complete_of_finish {r : Ready eof} {x : Finish eof} {sent content : Bytes}
    (hwrote : Idle.Wrote (d.idle f) (2 ^ 64) ((phases eof f).idle r) sent content)
    (hfinish : Ready.finish f r = .ok x) (heof : ∀ y z, x ≠ .eof y z) :
    d.Complete (sent ++ x.left) content ∧ x.flushed = false := by
  obtain ⟨hadmits, hidle, ds, rfl, rfl, hlen⟩ := hwrote
  have hframing : ((phases eof f).idle r).framing = (d.idle f).framing := by rw [hidle]; rfl
  have hroom : ((phases eof f).idle r).room = (d.idle f).room.map (· - ds.flatten.length) := by
    rw [hidle]; rfl
  cases r with
  | bodyless r =>
    cases hfinish
    refine ⟨?_, rfl⟩
    rw [← hframing]
    exact complete_plain hadmits hroom
  | cl r =>
    obtain ⟨hdone, rfl⟩ := finish_cl_ok hfinish
    refine ⟨?_, rfl⟩
    rw [← hframing]
    apply complete_plain hadmits
    rw [← hroom]
    show some 0 = some (r.length.toNat - r.offset.toNat)
    rw [hdone, Nat.sub_self]
  | chunked r =>
    cases hfinish
    refine ⟨?_, rfl⟩
    -- the first size line tells chunks from plain data
    have hchunked : Chunked.framing ≠ .plain := by
      intro h
      have hhead := congrFun (congrArg Framing.head h) 1
      revert hhead
      decide
    cases d with
    | bodyless u => exact absurd hframing hchunked
    | cl length => exact absurd hframing hchunked
    | chunked u =>
      refine ⟨ds.filter (· ≠ []), ?_, ?_, ?_⟩
      · intro x hx
        obtain ⟨hmem, hne⟩ := List.mem_filter.mp hx
        exact ⟨by simpa using hne, hlen x hmem⟩
      · show Chunked.framing.blocks ds ++ (Chunked.finishData .empty).drop 0 = _
        rw [chunked_blocks]
        rfl
      · rw [List.flatten_filter_ne_nil]
    | eof a u => exact absurd hframing hchunked
  | eof a r =>
    cases hfinish
    exact absurd rfl (heof _ _)

/-- A writer comes back only behind a body that is sent and flushed. -/
theorem writer_of_intoWriter {x : Finish eof} {s writer : Sink}
    (h : Finish.intoWriter f x s = .ok (some writer)) :
    writer = s ∧ (∀ y z, x ≠ .eof y z) ∧ x.flushed = true ∧ x.left = [] := by
  cases x with
  | bodyless y =>
    obtain ⟨flushed⟩ := y
    cases flushed
    · cases h
    · cases h
      exact ⟨rfl, nofun, rfl, rfl⟩
  | cl y =>
    obtain ⟨flushed⟩ := y
    cases flushed
    · cases h
    · cases h
      exact ⟨rfl, nofun, rfl, rfl⟩
  | chunked y =>
    have hinto : (y.intoWriter.mapError f).map (fun _ => some s) = .ok (some writer) := h
    unfold Chunked.Finish.intoWriter at hinto
    by_cases hlt : y.written < y.data.length
    · rw [if_pos hlt] at hinto
      cases hinto
    · rw [if_neg hlt] at hinto
      cases hflushed : y.flushed
      · rw [hflushed] at hinto
        cases hinto
      · rw [hflushed] at hinto
        cases hinto
        exact ⟨rfl, nofun, hflushed, List.drop_eq_nil_iff.mpr (Nat.le_of_not_lt hlt)⟩
  | eof a y =>
    have hinto : (y.intoWriter.mapError f).map (fun _ => (none : Option Sink)) =
      .ok (some writer) := h
    -- this encoding keeps the writer
    obtain ⟨u, -, hu⟩ := exists_part_ok f (fun _ => (none : Option Sink)) hinto
    cases hu

variable {sink₀ sink : Sink} {sent written : Bytes} {flushed : Option Nat}

/-- A write, whatever its answer, adds to the wire and to the content what it reports. -/
theorem pollWrite_filling {w : Write eof} (buffer : Bytes) (hwire : sink.wire = sink₀.wire ++ sent)
    (hfilling : Writing.Filling (d.idle f) (2 ^ 64) ((phases eof f).writing w) sent written) :
    ∃ sent', (w.pollWrite f buffer sink).2.2.wire = sink₀.wire ++ sent' ∧
      Writing.Filling (d.idle f) (2 ^ 64) ((phases eof f).writing (w.pollWrite f buffer sink).2.1)
        sent' (written ++ reported (w.pollWrite f buffer sink).1 buffer) := by
  have htakes := (phases_guarded eof f).pollWrite buffer w sink
  rw [show (phases eof f).pollWrite buffer w sink = w.pollWrite f buffer sink from rfl] at htakes
  generalize w.pollWrite f buffer sink = x at htakes ⊢
  have hnothing : ∀ {w' : Write eof} {s' : Sink}, medium.wire s' = medium.wire sink →
      (phases eof f).writing w' = (phases eof f).writing w → ∃ sent',
        s'.wire = sink₀.wire ++ sent' ∧ Writing.Filling (d.idle f) (2 ^ 64)
          ((phases eof f).writing w') sent' (written ++ []) := by
    intro w' s' hsame hview
    refine ⟨sent, hsame.trans hwire, ?_⟩
    rw [hview, List.append_nil]
    exact hfilling
  obtain ⟨_ | n | e | _, w', s'⟩ := x
  · exact hnothing htakes.1 htakes.2
  · obtain ⟨hbuf, hleft, hout, hview⟩ := htakes
    have hlen : (buffer.take n).length = n := by
      rw [List.length_take]
      omega
    have htaken := hfilling.takes (d := buffer.take n) (by omega)
    rw [hlen, ← hview] at htaken
    refine ⟨sent ++ buffer.take n, ?_, htaken⟩
    rw [← List.append_assoc, ← hwire]
    exact hout
  · exact hnothing htakes.1 htakes.2
  · exact hnothing htakes.1 htakes.2

/-- A poll of the end of the body keeps the end behind it complete. -/
theorem pollFinish_accounts {x : Finish eof} (hwire : sink.wire = sink₀.wire ++ sent)
    (hrun : Run.Accounts f d sent ⟨.finishing x, sink, written, flushed⟩) :
    ∃ sent', (x.pollFinish f sink).2.2.wire = sink₀.wire ++ sent' ∧
      Run.Accounts f d sent' ⟨.finishing (x.pollFinish f sink).2.1, (x.pollFinish f sink).2.2,
        written, (x.flushes sink).or flushed⟩ := by
  have hkind : (∀ y z, (x.pollFinish f sink).2.1 ≠ .eof y z) → ∀ y z, x ≠ .eof y z := by
    rintro h y z rfl
    exact h _ _ rfl
  obtain ⟨⟨out, hout, hleft⟩, hflushes, hflush⟩ := pollFinish_polled f x sink
  refine ⟨sent ++ out, by rw [hout, hwire, List.append_assoc], fun heof => ?_⟩
  obtain ⟨hcomplete, hdone⟩ := hrun (hkind heof)
  refine ⟨by rw [List.append_assoc, ← hleft]; exact hcomplete, fun h => ?_⟩
  rcases hflush h with hbefore | ⟨hnil, hnow⟩
  -- it was flushed before, and nothing has gone out since
  · obtain ⟨hnone, hlast⟩ := hdone hbefore
    rw [hnone] at hleft
    obtain ⟨rfl, hnil⟩ := List.append_eq_nil_iff.mp hleft.symm
    rw [List.append_nil] at hout
    refine ⟨hnil, ?_⟩
    cases hk : x.flushes sink with
    | none =>
      show flushed = _
      rw [hout]
      exact hlast
    | some k => exact congrArg some (hflushes k hk)
  · refine ⟨hnil, ?_⟩
    rw [hnow]
    rfl

/-- Giving up sends at most a poison byte. -/
theorem pollAbort_wire (f : BodyError → ε) (x : Abort eof) (s : Sink) :
    ∃ out, (x.pollAbort f s).2.2.wire = s.wire ++ out := by
  have hflushing : ∀ y : Flushing, ∃ out, (y.pollFinish s).2.2.wire = s.wire ++ out := fun y =>
    ⟨[], by rw [pollFinish_wire, List.append_nil]⟩
  cases x with
  | bodyless y => exact hflushing y
  | cl y => exact hflushing y
  | chunked y =>
    show ∃ out, (y.pollAbort s).2.2.wire = s.wire ++ out
    obtain ⟨out, hwire, -⟩ := @pollSendLoop_advances id Chunked.poison (fun _ _ => rfl)
      (Chunked.poison.length - if y.written then 1 else 0) (if y.written then 1 else 0) s
    refine ⟨out, ?_⟩
    unfold Chunked.Abort.pollAbort pollSend
    generalize pollSendLoop id Chunked.poison _ _ s = z at hwire ⊢
    obtain ⟨_ | _ | e | _, written, s'⟩ := z
    · exact hwire
    · have hflush := pollFlush_wire s'
      simp only [andThen_ok]
      generalize pollFlush s' = z at hflush ⊢
      obtain ⟨_ | _ | e | _, s''⟩ := z <;> exact hflush.trans hwire
    · exact hwire
    · exact hwire
  | eof a y => exact hflushing y

/-- Of a transition that fails nothing is claimed. -/
theorem accounts_next {α : Type} {x : Except ε α} {k : α → Phase eof}
    (hok : ∀ a, x = .ok a → Run.Accounts f d sent ⟨k a, sink, written, flushed⟩) :
    Run.Accounts f d sent ⟨.next x k, sink, written, flushed⟩ := by
  cases x with
  | ok a => exact hok a rfl
  | error e => trivial

/-- One call keeps the account of what went out. -/
theorem step_accounts {run run' : Run eof} {call : Call}
    (hwire : run.sink.wire = sink₀.wire ++ sent) (hrun : run.Accounts f d sent)
    (hstep : run.step f call = some run') :
    ∃ sent', run'.sink.wire = sink₀.wire ++ sent' ∧ run'.Accounts f d sent' := by
  have hguarded := phases_guarded eof f
  have hmade := Run.made_of_step hstep
  obtain ⟨phase, sink, written, flushed⟩ := run
  dsimp only at hwire hmade
  have hmore : ∀ {out : Bytes} {s : Sink}, s.wire = sink.wire ++ out →
      s.wire = sink₀.wire ++ (sent ++ out) := by
    intro out s hout
    rw [← List.append_assoc, ← hwire]
    exact hout
  cases hmade with
  | openBlock r length =>
    have hwrote : Idle.Wrote _ _ _ sent written := hrun
    refine ⟨sent, hwire, accounts_next fun o hopen => ?_⟩
    have hblock : (phases eof f).openBlock length.toNat r = .ok o :=
      (congrArg (Ready.open f · r) UInt64.ofNat_toNat).trans hopen
    obtain ⟨hadmits, hopening⟩ := hguarded.openBlock length.toNat_lt hblock
    show Framed.Opening _ _ ((phases eof f).opening o) sent written
    rw [hopening]
    exact hwrote.opening length.toNat_lt hadmits
  | finish r =>
    have hwrote : Idle.Wrote _ _ _ sent written := hrun
    refine ⟨sent, hwire, accounts_next fun x hfinish heof => ?_⟩
    obtain ⟨hcomplete, hunflushed⟩ := complete_of_finish hwrote hfinish heof
    refine ⟨hcomplete, fun h => ?_⟩
    rw [hunflushed] at h
    cases h
  | abort r => exact ⟨sent, hwire, trivial⟩
  | pollOpen o =>
    have hopening : Framed.Opening _ _ _ sent written := hrun
    obtain ⟨out, hout, hleft⟩ := hguarded.pollOpen o sink
    exact ⟨sent ++ out, hmore hout, hopening.sends hleft⟩
  | intoWrite o =>
    have hopening : Framed.Opening _ _ _ sent written := hrun
    refine ⟨sent, hwire, accounts_next fun w hwrite => ?_⟩
    obtain ⟨hleft, hwriting⟩ := hguarded.intoWrite hwrite
    show Writing.Filling _ _ ((phases eof f).writing w) sent written
    rw [hwriting]
    exact hopening.filling hleft
  | pollWrite w buffer => exact pollWrite_filling buffer hwire hrun
  | intoClose w =>
    have hfilling : Writing.Filling _ _ _ sent written := hrun
    refine ⟨sent, hwire, accounts_next fun c hclose => ?_⟩
    obtain ⟨hleft, hclosing⟩ := hguarded.intoClose hclose
    show Framed.Closing _ _ ((phases eof f).closing c) sent written
    rw [hclosing]
    exact hfilling.closing hleft
  | pollClose c =>
    have hclosing : Framed.Closing _ _ _ sent written := hrun
    obtain ⟨out, hout, hleft⟩ := hguarded.pollClose c sink
    exact ⟨sent ++ out, hmore hout, hclosing.sends hleft⟩
  | intoReady c =>
    have hclosing : Framed.Closing _ _ _ sent written := hrun
    refine ⟨sent, hwire, accounts_next fun r hready => ?_⟩
    obtain ⟨hleft, hidle⟩ := hguarded.intoReady hready
    show Idle.Wrote _ _ ((phases eof f).idle r) sent written
    rw [hidle]
    exact hclosing.wrote hleft
  | pollFinish x => exact pollFinish_accounts hwire hrun
  | intoWriter x =>
    refine ⟨sent, hwire, accounts_next fun writer hinto => ?_⟩
    cases writer with
    | none => trivial
    | some writer =>
      -- a writer comes back only when the end is sent and flushed
      obtain ⟨rfl, heof, hdone, hnil⟩ := writer_of_intoWriter hinto
      obtain ⟨hcomplete, hflushed⟩ := hrun heof
      rw [hnil, List.append_nil] at hcomplete
      exact ⟨rfl, hcomplete, (hflushed hdone).2⟩
  | pollAbort x =>
    obtain ⟨out, hout⟩ := pollAbort_wire f x sink
    exact ⟨sent ++ out, hmore hout, trivial⟩
  | discard x => exact ⟨sent, hwire, accounts_next fun _ _ => trivial⟩

/-- Any sequence of calls keeps the account. -/
theorem steps_accounts (calls : List Call) {run run' : Run eof}
    (hwire : run.sink.wire = sink₀.wire ++ sent) (hrun : run.Accounts f d sent)
    (hsteps : run.steps f calls = some run') :
    ∃ sent', run'.sink.wire = sink₀.wire ++ sent' ∧ run'.Accounts f d sent' := by
  induction calls generalizing run sent with
  | nil =>
    cases hsteps
    exact ⟨sent, hwire, hrun⟩
  | cons call calls ih =>
    rw [Run.steps] at hsteps
    obtain ⟨run₁, hstep, hrest⟩ := Option.bind_eq_some_iff.mp hsteps
    obtain ⟨sent₁, hwire₁, hrun₁⟩ := step_accounts hwire hrun hstep
    exact ih hwire₁ hrun₁ hrest

end Runs

/-- Whatever a caller does with the writer of a body, and however the sink behaves: if it
    gets the writer back, then what went out since the head is exactly one complete body
    of what was declared, its content is what was reported as written, and the sink was
    flushed behind the last byte of it. -/
theorem recovered_complete (f : BodyError → ε) (declared : Declared eof) (sink : Sink)
    (calls : List Call) {run : Run eof} {writer : Sink}
    (hsteps : (Run.start declared.ready sink).steps f calls = some run)
    (hover : run.phase = .ended (some writer)) :
    ∃ body, writer.wire = sink.wire ++ body ∧ declared.Complete body run.written ∧
      run.flushed = some writer.wire.length := by
  have hstart : (Run.start declared.ready sink).Accounts f declared [] := Idle.Wrote.nil
  obtain ⟨body, hwire, hrun⟩ :=
    steps_accounts calls (List.append_nil sink.wire).symm hstart hsteps
  obtain ⟨phase, sink', written, flushed⟩ := run
  have hphase : phase = .ended (some writer) := hover
  subst hphase
  obtain ⟨rfl, hcomplete, hflushed⟩ := hrun
  exact ⟨body, hwire, hcomplete, hflushed⟩

/-- The writer that came back. -/
def Phase.writer : Phase eof → Option Sink
  | .ended writer => writer
  | _ => none

theorem Phase.eq_over {phase : Phase eof} {writer : Sink} (h : phase.writer = some writer) :
    phase = .ended (some writer) := by
  cases phase with
  | ended w =>
    cases h
    rfl
  | _ => cases h

/-- A caller that polls too little and writes too much. -/
def clumsyCalls : List Call :=
  [.openBlock 3, .pollOpen, .pollOpen, .pollOpen, .intoWrite, .pollWrite (ascii "abcd"),
    .pollWrite (ascii "ab"), .pollWrite [], .pollWrite (ascii "c"), .intoClose, .pollClose,
    .intoReady, .openBlock 0, .intoWrite, .intoClose, .intoReady, .finish, .pollFinish,
    .pollFinish, .intoWriter]

/-- A sink that takes a byte, fails, is not ready, and then takes whatever comes. -/
def stumblingSink : Sink := ⟨ascii "head", [.accept 1, .error .writeZero, .pending]⟩

theorem recovered_complete_clumsy :
    ∃ (run : Run true) (writer : Sink),
      (Run.start (Declared.ready (.chunked ())) stumblingSink).steps id clumsyCalls = some run ∧
      run.phase = .ended (some writer) ∧
      ∃ body, writer.wire = ascii "head" ++ body ∧
        Declared.Complete body run.written (.chunked () : Declared true) ∧
        run.flushed = some writer.wire.length := by
  have hrun : (((Run.start (Declared.ready (.chunked () : Declared true)) stumblingSink).steps id
      clumsyCalls).bind (·.phase.writer)).isSome = true := by decide +kernel
  obtain ⟨writer, hwriter⟩ := Option.isSome_iff_exists.mp hrun
  obtain ⟨run, hsteps, hphase⟩ := Option.bind_eq_some_iff.mp hwriter
  exact ⟨run, writer, hsteps, Phase.eq_over hphase, recovered_complete id (.chunked ())
    stumblingSink clumsyCalls hsteps (Phase.eq_over hphase)⟩

end Unifier

end Jrpxy.Body.Writer
