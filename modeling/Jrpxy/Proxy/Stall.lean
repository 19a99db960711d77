/-
  Jrpxy.Proxy.Stall

  Forwarders in front of a sink that stops taking bytes.

  The poll functions that send framing answer `WriteZero`, and so does ending a
  chunked body.  The write phase has no such guard: `step_once` advances by the
  bytes written, none, and puts the phase back.  So a forwarder that owes bytes
  fails in front of such a sink if framing is what it sends next
  (`stall_fails`), and if it is data of a body it calls `forward` for ever
  (`stall_goes_on`).  With pieces of no bytes it sends nothing before it ends
  its body, and fails there if the body is chunked (`stall_fails_of_nothing`).
-/
import Jrpxy.Proxy.HandBack
import Jrpxy.Lib.Relay.Stalled
import Jrpxy.Body.Writer.Stalled

namespace Jrpxy.Proxy

open Poll PullStream BlockWriter BodyRelay ChunkedCoding Ascii Util HttpMessage
open Body Body.Reader Body.Writer Body.Writer.Chunked
open Frontend Backend
open Httparse.Reference (reference chunkSizeLaws fieldSectionLaws)

variable {E ε₁ ε₂ : Type} {S : Side E ε₁ ε₂} {h : Httparse}

/-- A forwarder whose sink gives these answers, and then takes nothing of `n` writes. -/
def Side.stalled (S : Side E ε₁ ε₂) (h : Httparse) (before : List WriteEvent) (n : Nat)
    (relay : Relay (S.ends h)) : Relay (S.ends h) :=
  { relay with sender :=
    { relay.sender with medium :=
      { relay.sender.medium with script := before ++ List.replicate n (.accept 0) } } }

/-- If the sink takes nothing of its next writes, however many, finishing is an error after a
    number of polls that does not depend on them. -/
def StallFails {α : Type} (S : Side E ε₁ ε₂) (h : Httparse)
    (finish : Nat → Relay (S.ends h) → Polled ProxyCopyError α × Sink) (relay : Relay (S.ends h)) :
    Prop :=
  ∃ enough, ∀ n fuel, enough ≤ n → enough ≤ fuel →
    ∃ e, (finish fuel (S.stalled h [] n relay)).1 = .err e

/-- A chunked body has heads, and the others have no framing. -/
theorem framing_cases {eof : Bool} (writer : Unifier.Ready eof) :
    (idleOf writer).framing = .plain ∨ (idleOf writer).framing.Headed := by
  cases writer with
  | chunked r =>
    refine .inr fun n hn => ?_
    show (if n = 0 then [] else sizeLine n) ≠ []
    rw [if_neg hn]
    simp [sizeLine, ascii]
  | bodyless r => exact .inl rfl
  | cl r => exact .inl rfl
  | eof a r => exact .inl rfl

theorem not_headed_of_plain {F : Framing} (hplain : F = .plain) : ¬ F.Headed := by
  subst hplain
  exact fun hheaded => hheaded 1 Nat.one_ne_zero rfl

/-- A framing with heads is that of a chunked body. -/
theorem chunked_of_headed {eof : Bool} {writer : Unifier.Ready eof}
    (hheaded : (idleOf writer).framing.Headed) : ∃ r, writer = .chunked r := by
  cases writer with
  | chunked r => exact ⟨r, rfl⟩
  | bodyless r => exact absurd hheaded (not_headed_of_plain rfl)
  | cl r => exact absurd hheaded (not_headed_of_plain rfl)
  | eof a r => exact absurd hheaded (not_headed_of_plain rfl)

section Sides

variable {chunkSize : Nat} {reader : BodyReader E} {writer : Unifier.Ready S.eof} {sink : Sink}
variable {relay : Relay (S.ends h)} {P : Prop}
variable (hS : S.Lawful) (hsize : h.ChunkSizeLaws) (hfields : h.FieldSectionLaws)

/-! ## Ending a body -/

include hS hsize hfields in
/-- Ending a chunked body fails. -/
theorem Side.finishBody_stalled {r : BodyReader E} (hend : AtEnd S h r) (bw : Chunked.Ready)
    {n : Nat} {s : Sink} (hs : s.Refuses (n + 1)) :
    ∃ e, (S.finishBody h r (.chunked bw) s).1 = .err e := by
  have hplain : ∀ next, BodyReader.drain h S.readFailed r = .ok next →
      ∃ e, (S.finishPlain h r (.chunked bw) s).1 = .err e := by
    intro next hdrain
    have herr := @Unifier.finish_stalled S.eof _ S.writeFailed n s hs .empty
    simp only [Side.finishPlain, hdrain, Polled.mapErr_ok, andThen_ok]
    show ∃ e, (andThen (mapErr S.writeError (Unifier.Finish.finish S.writeFailed
      (.chunked (.new .empty)) s)) id _).1 = .err e
    generalize Unifier.Finish.finish S.writeFailed
      (.chunked (.new .empty) : Unifier.Finish S.eof) s = x at herr
    obtain ⟨answer, s'⟩ := x
    cases herr
    exact ⟨_, rfl⟩
  rcases hend with ⟨inner, rfl⟩ | ⟨t, howed, hdone⟩
  · exact hplain none rfl
  · have hfits := Side.fits_of_done hS hdone
    have htail : (r.owed h S.last).tail = some t := by rw [howed]; rfl
    obtain ⟨next, hdrain, -, -⟩ := BodyReader.drain_eq (f := S.readFailed) hsize hfields hfits htail
    cases r with
    | te fr recyclable =>
      obtain ⟨next, -, hdrain⟩ := BodyReader.drainChunked_eq (f := S.readFailed) hsize hfields
        recyclable hfits htail
      have herr := Chunked.finish_stalled hs (sanitizeTrailers t.trailers)
      show ∃ e, (S.finishWithTrailers h fr recyclable bw s).1 = .err e
      simp only [Side.finishWithTrailers, hdrain, Polled.mapErr_ok, andThen_ok,
        Chunked.Ready.finishWithTrailers]
      generalize (Chunked.Finish.new (sanitizeTrailers t.trailers)).finish s = x at herr
      obtain ⟨answer, s'⟩ := x
      cases herr
      exact ⟨_, rfl⟩
    | bodyless inner r => exact hplain _ hdrain
    | cl inner r => exact hplain _ hdrain
    | eof inner => exact hplain _ hdrain

/-- What ending a body comes to, whenever its sink stops taking bytes: an error, or the whole
    end is on the wire. -/
def wholeEnd (S : Side E ε₁ ε₂) (h : Httparse) (reader : BodyReader E)
    (writer : Unifier.Ready S.eof) (base : Bytes) {α : Type} : Post ProxyCopyError α Sink where
  pending _ := False
  ok _ s := ∃ trailers, (∀ t ∈ (reader.owed h S.last).tail, t.trailers = trailers) ∧
    s.wire = base ++ endOfBody writer trailers
  err _ _ := True

include hS in
/-- Ending a body that ends with its connection, of which nothing was taken. -/
theorem Side.finishBody_untaken (heof : EndsWithConnection reader) (inner : E) (s : Sink) :
    Meets (S.finishBody h (.eof inner) writer s) (wholeEnd S h reader writer s.wire) := by
  show Meets (S.finishPlain h (.eof inner) writer s) _
  have hwire : ∀ out s', S.finishPlain h (.eof inner) writer s = (.ok out, s') →
      s'.wire = s.wire ++ endOfBody writer .empty := by
    intro out s' hok
    obtain ⟨-, hwire, -⟩ := Side.ends_of_eof hok
    cases writer with
    | chunked bw => exact hwire
    | bodyless bw => exact hwire
    | cl bw => exact hwire
    | eof a bw => exact hwire
  have hready : (S.finishPlain h (.eof inner) writer s).1 ≠ .pending ∧
      (S.finishPlain h (.eof inner) writer s).1 ≠ .panic := by
    show (andThen (.ofExcept ((Unifier.Ready.finish S.writeFailed writer).mapError S.writeError), s)
        id _).1 ≠ _ ∧ (andThen (.ofExcept
          ((Unifier.Ready.finish S.writeFailed writer).mapError S.writeError), s) id _).1 ≠ _
    cases hfinish : Unifier.Ready.finish S.writeFailed writer with
    | error e => exact ⟨nofun, nofun⟩
    | ok x =>
      obtain ⟨x', hx, hmeets⟩ := Unifier.finish_meets S.writeFailed
        (spent_of_finish S.writeFailed hfinish)
      rw [hfinish] at hx
      cases hx
      have hends := hmeets s
      simp only [mapError_ok, Polled.ofExcept_ok, andThen_ok]
      generalize Unifier.Finish.finish S.writeFailed x s = y at hends
      obtain ⟨_ | a | e | _, s'⟩ := y
      · exact hends.elim
      · exact ⟨nofun, nofun⟩
      · exact ⟨nofun, nofun⟩
      · exact hends.elim
  generalize S.finishPlain h (.eof inner) writer s = x at hwire hready
  obtain ⟨_ | out | e | _, s'⟩ := x
  · exact hready.1 rfl
  · obtain ⟨inner', rfl⟩ := heof
    exact ⟨.empty, fun t ht => hS.trailers ht, hwire out s' rfl⟩
  · trivial
  · exact hready.2 rfl

include hS hsize hfields in
/-- A loop that is at its end ends the body, and a stall does not keep it from an answer. -/
theorem Side.finish_wholeEnd (hfills : Fills (idleOf writer) (reader.owed h S.last))
    (hend : S.EndsUp h reader writer sink relay) (halive : relay.errored = false)
    (hfinished : relay.Finished) (before : List WriteEvent) (n : Nat) {fuel : Nat}
    (hfuel : 1 ≤ fuel) :
    Meets (S.finish h fuel (S.stalled h before n relay))
      (wholeEnd S h reader writer relay.sender.medium.wire) := by
  obtain ⟨fuel, rfl⟩ := Nat.exists_eq_add_of_le' hfuel
  have hall := @Run.forwardAll_finished _ _ _ _ _ _ (S.ends h) (S.stalled h before n relay) halive
    hfinished fuel
  rw [Side.finish, hall, andThen_ok]
  cases hend with
  | @through r t bs hthrough =>
    have hready : S.intoReady h (S.stalled h before n relay).sender.writer = .ok r := hthrough.ready
    have hframing : (idleOf r).framing = (idleOf writer).framing := by
      rw [hthrough.idle]
      rfl
    rw [hready]
    refine (Side.finishBody_meets hS hsize hfields hthrough.done hthrough.owed
      (hthrough.spent hfills) _).mono (fun _ hf => hf) ?_ (fun _ _ _ => trivial)
    rintro out s ⟨hsends, -, -⟩
    have hwire := hsends.wire
    rw [endOfBody_congr hframing] at hwire
    refine ⟨t.trailers, fun t' ht' => ?_, hwire⟩
    rw [hthrough.tail] at ht'
    cases ht'
    rfl
  | @untaken inner heof hreading hready =>
    have hready : S.intoReady h (S.stalled h before n relay).sender.writer = .ok writer :=
      congrArg (S.intoReady h) hready
    have hreading : (S.stalled h before n relay).reader = .eof inner := hreading
    rw [hready]
    show Meets (S.finishBody h (S.stalled h before n relay).reader writer _) _
    rw [hreading]
    exact Side.finishBody_untaken hS heof inner _

/-! ## Before the next call -/

/-- A stall changes nothing of what is on the wire or ahead. -/
theorem Side.good_stalled (hx : relay.Good (S.task h reader writer sink) P)
    (before : List WriteEvent) (n : Nat) :
    (S.stalled h before n relay).Good (S.task h reader writer sink) False where
  alive := hx.alive
  sent := hx.sent
  ended := hx.ended
  fits hfalse := hfalse.elim
  accepting hfalse := hfalse.elim
  positive := hx.positive
  bounded := hx.bounded

theorem Side.refuses_stalled (relay : Relay (S.ends h)) (n : Nat) :
    (S.stalled h [] n relay).sender.medium.Refuses n :=
  ⟨[], (List.append_nil _).symm⟩

/-- A stall that begins within a call, behind the answers to some of its writes, is an error of
    that call; any other call leaves the whole stall ahead. -/
theorem Side.forward_stalled (ev : WriteEvent) (before : List WriteEvent) (n : Nat)
    (relay : Relay (S.ends h)) :
    (∃ e, (S.stalled h (ev :: before) n relay).forward.1 = .err e) ∨
      ∃ after, (S.stalled h (ev :: before) n relay).forward.2.sender.medium.script =
        after ++ List.replicate n (.accept 0) := by
  have hbefore : (S.stalled h (ev :: before) n relay).sender.medium.Before n := ⟨ev, before, rfl⟩
  exact Relay.forward_notices (Unifier.phases_notices S.eof S.writeFailed n) hbefore

/-- When the next read is an error, so is finishing. -/
theorem Side.stall_fails_of_reads (hsettles : (S.ends h).source.Settles relay.chunkSize)
    (halive : relay.errored = false) {e : ε₁} (hreads : relay.Reads (.err e)) :
    StallFails S h (S.finish h) relay := by
  refine ⟨(S.ends h).source.weight relay.reader + 1, fun n fuel _ hfuel => ?_⟩
  obtain ⟨e', hall⟩ := @Run.forwardAll_readFails _ _ _ _ _ _ (S.ends h) fuel
    ⟨S.stalled h [] n relay, none⟩ e Run.settled_of_none hsettles halive hreads hfuel
  refine ⟨e', ?_⟩
  unfold Side.finish
  generalize Run.forwardAll fuel ⟨S.stalled h [] n relay, none⟩ = y at hall
  obtain ⟨answer, run⟩ := y
  cases hall
  rfl

/-! ## Pieces with bytes -/

section Pieces

variable (hfills : Fills (idleOf writer) (reader.owed h S.last))
include hS hsize hfields hfills

/-- When framing is sent next, finishing is an error. -/
theorem Side.stall_fails (hx : relay.Good (S.task h reader writer sink) P)
    (hnext : relay.FramingNext (idleOf writer).framing) : StallFails S h (S.finish h) relay := by
  refine ⟨relay.stepsLeft + 1, fun n fuel hn hfuel => ?_⟩
  obtain ⟨n, rfl⟩ := Nat.exists_eq_add_of_le' (Nat.le_trans (Nat.le_add_left 1 _) hn)
  have hall := Run.forwardAll_framingNext (Side.source_lawful hS hsize hfields)
    (Side.target_lawful S h reader writer sink) (Unifier.phases_stalls S.eof S.writeFailed)
    hfills.admits fuel (@Run.settled_of_none _ _ _ _ _ _ (S.ends h) (S.stalled h [] (n + 1) relay))
    (Side.good_stalled hx [] (n + 1)) hnext (Side.refuses_stalled relay (n + 1)) hfuel
  unfold Side.finish
  generalize Run.forwardAll fuel ⟨S.stalled h [] (n + 1) relay, none⟩ = y at hall
  obtain ⟨_ | _ | e | _, run⟩ := y
  · exact hall.elim
  · obtain ⟨hgood, hfinished, hnext', hs⟩ := hall
    obtain ⟨r, t, bs, hthrough⟩ := Side.through_of_good hgood hfinished
    obtain ⟨-, -, r', hready⟩ := hfinished
    -- the source is at its end, so what is next is the end of a chunked body
    have hheaded : (idleOf writer).framing.Headed := by
      unfold Relay.FramingNext at hnext'
      rw [hready] at hnext'
      exact hnext'
    obtain ⟨bw, rfl⟩ : ∃ bw, r = .chunked bw := by
      apply chunked_of_headed
      rw [hthrough.idle]
      exact hheaded
    have hend : AtEnd S h run.relay.reader := .inr ⟨t, hthrough.owed, hthrough.done⟩
    obtain ⟨e, herr⟩ := Side.finishBody_stalled hS hsize hfields hend bw hs
    refine ⟨e, ?_⟩
    rw [andThen_ok, hthrough.ready]
    exact herr
  · exact ⟨e, rfl⟩
  · exact hall.elim

/-- When data is sent next, finishing comes to no end as long as the sink takes nothing. -/
theorem Side.stall_goes_on (hx : relay.Good (S.task h reader writer sink) P)
    (hdata : relay.DataNext (idleOf writer).framing) (fuel : Nat) :
    (S.finish h fuel (S.stalled h [] fuel relay)).1 = .pending := by
  have hall := Run.forwardAll_dataNext (Side.source_lawful hS hsize hfields)
    (Side.target_lawful S h reader writer sink) (Unifier.phases_stalls S.eof S.writeFailed)
    hfills.admits fuel (@Run.settled_of_none _ _ _ _ _ _ (S.ends h) (S.stalled h [] fuel relay))
    (Side.good_stalled hx [] fuel) hdata (Side.refuses_stalled relay fuel)
  unfold Side.finish
  generalize Run.forwardAll fuel ⟨S.stalled h [] fuel relay, none⟩ = y at hall
  obtain ⟨answer, run⟩ := y
  cases hall
  rfl

/-- While bytes are owed, a stall is an error exactly where something would notice. -/
theorem Side.stallFails_iff (hx : relay.Good (S.task h reader writer sink) P)
    (howes : relay.Owes (S.task h reader writer sink)) :
    StallFails S h (S.finish h) relay ↔ ¬ relay.Unguarded (idleOf writer).framing := by
  constructor
  · rintro ⟨enough, henough⟩ hunguarded
    have hdata : relay.DataNext (idleOf writer).framing :=
      Relay.dataNext_of_unguarded (Side.source_lawful hS hsize hfields) hx howes hunguarded
    obtain ⟨e, herr⟩ := henough enough enough (Nat.le_refl _) (Nat.le_refl _)
    rw [Side.stall_goes_on hS hsize hfields hfills hx hdata] at herr
    cases herr
  · intro hguarded
    by_cases hfails : ∃ e, relay.Reads (.err e)
    · obtain ⟨e, hreads⟩ := hfails
      exact Side.stall_fails_of_reads ((Side.source_lawful hS hsize hfields).settles hx.positive)
        hx.alive hreads
    · exact Side.stall_fails hS hsize hfields hfills hx (Relay.framingNext_of_guarded hx
        (framing_cases writer) hguarded fun e he => hfails ⟨e, he⟩)

end Pieces

/-! ## Pieces of no bytes -/

/-- What the fourth framing of a side is to be like when it is read for no bytes. -/
structure Side.Quiet (S : Side E ε₁ ε₂) : Prop where
  idles : S.Idles
  settles : S.last.Settles 0
  repeats : S.last.Repeats 0

theorem requestSide_quiet : requestSide.Quiet :=
  ⟨requestSide_idles, fun r => r.elim, fun r => r.elim⟩

theorem responseSide_quiet : responseSide.Quiet :=
  ⟨responseSide_idles, EofBodyReader.settles, EofBodyReader.repeats⟩

/-- A forwarder that asks for pieces of no bytes: it has taken nothing, and sent nothing. -/
structure Side.AtRest (S : Side E ε₁ ε₂) (h : Httparse) (reader : BodyReader E)
    (writer : Unifier.Ready S.eof) (sink : Sink) (relay : Relay (S.ends h)) : Prop where
  alive : relay.errored = false
  size : relay.chunkSize = 0
  sender : relay.sender = ⟨.ready writer, [], sink⟩
  nothing : NothingTaken S h reader relay.reader
  ended : relay.readDone = true → AtEnd S h relay.reader

/-- A stall leaves it at rest. -/
theorem Side.AtRest.stalled (hx : S.AtRest h reader writer sink relay) (before : List WriteEvent)
    (n : Nat) :
    S.AtRest h reader writer { sink with script := before ++ List.replicate n (.accept 0) }
      (S.stalled h before n relay) where
  alive := hx.alive
  size := hx.size
  sender := by
    rw [Side.stalled, hx.sender]
  nothing := hx.nothing
  ended := hx.ended

section Empty

variable (hquiet : S.Quiet)
include hsize hfields hquiet

/-- After any calls a forwarder that has not failed is at rest. -/
theorem Side.acts_atRest (acts : List Act)
    (halive : ((S.start h 0 reader writer sink).acts acts).2.relay.errored = false) :
    S.AtRest h reader writer sink ((S.start h 0 reader writer sink).acts acts).2.relay := by
  have hkeeps : ∀ x : Relay (S.ends h),
      x.Untouched 0 (NothingTaken S h reader) (AtEnd S h) ⟨.ready writer, [], sink⟩ →
      x.forward.2.Untouched 0 (NothingTaken S h reader) (AtEnd S h) ⟨.ready writer, [], sink⟩ :=
    fun x hx => Relay.forward_untouched (Side.handsOutNothing hsize hfields hquiet.idles) rfl rfl hx
  have hstart : (S.start h 0 reader writer sink).Settled := Run.settled_of_none
  rcases Run.acts_kept hkeeps hstart Side.start_untouched acts with
    hfailed | ⟨hzero, hsender, hnothing, hended⟩
  · rw [halive] at hfailed
    cases hfailed
  · exact ⟨halive, hzero, hsender, hnothing, hended⟩

/-- If the next read is no error and hands out no piece, the loop comes to its end with nothing
    taken and nothing sent. -/
theorem Side.AtRest.forwardAll (hx : S.AtRest h reader writer sink relay)
    (hfine : ∀ e, ¬ relay.Reads (.err e)) (hpiece : ¬ relay.Reads (.ok (some []))) {fuel : Nat}
    (hfuel : relay.reads < fuel) :
    ∃ run, (Run.mk relay none).forwardAll fuel = (.ok (), run) ∧
      run.relay.sender = ⟨.ready writer, [], sink⟩ ∧ NothingTaken S h reader run.relay.reader ∧
      AtEnd S h run.relay.reader := by
  have hidle : HandsOutNothing (S.ends h).source 0 (NothingTaken S h reader) (AtEnd S h) :=
    Side.handsOutNothing hsize hfields hquiet.idles
  have hsettles : (S.ends h).source.Settles 0 := BodyReader.settles hsize hfields hquiet.settles
  have hreads : ∀ a, relay.readDone = false → ((S.ends h).source.read 0 relay.reader).1 = a →
      relay.Reads a := by
    intro a hmore ha
    refine ⟨by rw [hx.sender], hmore, ?_⟩
    rw [hx.size]
    exact ha
  have hconcluding : relay.Concluding 0
      (fun r => NothingTaken S h reader r ∧ ((S.ends h).source.read 0 r).1 = .ok none)
      (fun r => NothingTaken S h reader r ∧ AtEnd S h r) ⟨.ready writer, [], sink⟩ := by
    refine ⟨hx.alive, hx.size, hx.sender, fun hmore => ⟨hx.nothing, ?_⟩,
      fun hdone => ⟨hx.nothing, hx.ended hdone⟩⟩
    rcases read_of_nothing hidle hsettles hx.nothing with hnone | hempty | ⟨e, herr⟩
    · exact hnone
    · exact absurd (hreads _ hmore hempty) hpiece
    · exact absurd (hreads _ hmore herr) (hfine e)
  obtain ⟨run, hall, hrun, hdone⟩ := @Run.forwardAll_concludes _ _ _ _ _ _ (S.ends h) 0 _ _ _ _
    (concludes_of_read hidle hsettles) rfl rfl fuel ⟨relay, none⟩ Run.settled_of_none hconcluding
    hfuel
  exact ⟨run, hall, hrun.untouched, hrun.done hdone⟩

include hS in
/-- Then a chunked body is ended, and that is an error. -/
theorem Side.stall_fails_of_nothing (hx : S.AtRest h reader writer sink relay)
    (hheaded : (idleOf writer).framing.Headed) (hfine : ∀ e, ¬ relay.Reads (.err e))
    (hpiece : ¬ relay.Reads (.ok (some []))) : StallFails S h (S.finish h) relay := by
  obtain ⟨bw, rfl⟩ := chunked_of_headed hheaded
  refine ⟨relay.reads + 1, fun n fuel hn hfuel => ?_⟩
  obtain ⟨n, rfl⟩ := Nat.exists_eq_add_of_le' (Nat.le_trans (Nat.le_add_left 1 _) hn)
  obtain ⟨run, hall, hsender, -, hend⟩ := Side.AtRest.forwardAll hsize hfields hquiet
    (hx.stalled [] (n + 1)) hfine hpiece hfuel
  obtain ⟨e, herr⟩ := Side.finishBody_stalled hS hsize hfields hend bw
    (⟨[], (List.append_nil _).symm⟩ : Sink.Refuses (n + 1) { sink with
      script := [] ++ List.replicate (n + 1) (.accept 0) })
  refine ⟨e, ?_⟩
  rw [Side.finish, hall, andThen_ok, hsender]
  exact herr

omit hsize hfields hquiet in
/-- Ending a body that ends with its connection on one that does so too is no error. -/
theorem Side.finishBody_unframed (hroom : (idleOf writer).room = none)
    (hplain : (idleOf writer).framing = .plain) (inner : E) (wire : Bytes) (n : Nat) (e) :
    (S.finishBody h (.eof inner) writer ⟨wire, List.replicate n (.accept 0)⟩).1 ≠ .err e := by
  cases writer with
  | bodyless r => cases hroom
  | cl r => cases hroom
  | chunked r => exact absurd hplain framing_ne_plain
  | eof a r =>
    cases n with
    | zero => exact nofun
    | succ n => exact nofun

/-- Without framing a stall is no error as long as the next read is none, if bytes are owed. -/
theorem Side.not_stallFails_of_plain (hx : S.AtRest h reader writer sink relay)
    (hroom : EndsWithConnection reader → (idleOf writer).room = none)
    (hplain : (idleOf writer).framing = .plain)
    (howes : relay.Owes (S.task h reader writer sink)) (hfine : ∀ e, ¬ relay.Reads (.err e))
    (hpiece : ¬ relay.Reads (.ok (some []))) : ¬ StallFails S h (S.finish h) relay := by
  rintro ⟨enough, henough⟩
  have hfuel : relay.reads < max enough (relay.reads + 1) := by omega
  obtain ⟨e, herr⟩ := henough (max enough (relay.reads + 1)) (max enough (relay.reads + 1))
    (Nat.le_max_left _ _) (Nat.le_max_left _ _)
  generalize max enough (relay.reads + 1) = fuel at hfuel herr
  obtain ⟨run, hall, hsender, hnothing, hend⟩ := Side.AtRest.forwardAll hsize hfields hquiet
    (hx.stalled [] fuel) hfine hpiece hfuel
  have hready : run.relay.sender.writer = .ready writer := by rw [hsender]
  have hwire : run.relay.sender.medium.wire = sink.wire := by rw [hsender]
  rw [Side.finish, hall, andThen_ok, hsender] at herr
  cases Side.endsUp_of_untouched hready hwire hnothing hend with
  | through hthrough =>
    -- nothing was sent, so there was nothing to send
    have hsame := hthrough.wire
    rw [hwire, hplain, Framing.blocks_plain, hthrough.flat] at hsame
    have hnil := List.self_eq_append_right.mp hsame
    rcases howes with hheaded | hwanting | htail
    · exact not_headed_of_plain hplain hheaded
    · apply hwanting
      show relay.sender.medium.wire = sink.wire ++ (reader.owed h S.last).body
      rw [hx.sender, hnil, List.append_nil]
    · have htail : (reader.owed h S.last).tail = none := htail
      rw [hthrough.tail] at htail
      cases htail
  | untaken heof hreading _ =>
    rw [hreading] at herr
    exact Side.finishBody_unframed (hroom heof) hplain _ _ _ _ herr

omit hsize hfields in
/-- While the source hands out pieces of no bytes a stall is no error. -/
theorem Side.not_stallFails_of_empty (hsettles : (S.ends h).source.Settles 0)
    (hx : S.AtRest h reader writer sink relay) (hpiece : relay.Reads (.ok (some []))) :
    ¬ StallFails S h (S.finish h) relay := by
  rintro ⟨enough, henough⟩
  obtain ⟨e, herr⟩ := henough enough enough (Nat.le_refl _) (Nat.le_refl _)
  have hall := @Run.forwardAll_readsNothing _ _ _ _ _ _ (S.ends h) 0 hsettles
    (BodyReader.repeats hquiet.repeats) enough ⟨S.stalled h [] enough relay, none⟩
    Run.settled_of_none hx.size hx.alive hpiece
  unfold Side.finish at herr
  generalize Run.forwardAll enough ⟨S.stalled h [] enough relay, none⟩ = y at hall herr
  obtain ⟨answer, run⟩ := y
  cases hall
  cases herr

include hS in
/-- While bytes are owed, a stall is an error exactly where something would notice. -/
theorem Side.AtRest.stallFails_iff (hx : S.AtRest h reader writer sink relay)
    (hroom : EndsWithConnection reader → (idleOf writer).room = none)
    (howes : relay.Owes (S.task h reader writer sink)) :
    StallFails S h (S.finish h) relay ↔ ¬ relay.Unguarded (idleOf writer).framing := by
  have hsettles : (S.ends h).source.Settles 0 := BodyReader.settles hsize hfields hquiet.settles
  have hunguarded : relay.Unguarded (idleOf writer).framing ↔ (∀ e, ¬ relay.Reads (.err e)) ∧
      ((idleOf writer).framing = .plain ∨ relay.Reads (.ok (some []))) := by
    unfold Relay.Unguarded
    rw [hx.sender]
    rfl
  rw [hunguarded]
  by_cases hfails : ∃ e, relay.Reads (.err e)
  · obtain ⟨e, hreads⟩ := hfails
    refine iff_of_true (Side.stall_fails_of_reads ?_ hx.alive hreads) fun hcase => hcase.1 e hreads
    rw [hx.size]
    exact hsettles
  have hfine : ∀ e, ¬ relay.Reads (.err e) := fun e he => hfails ⟨e, he⟩
  by_cases hpiece : relay.Reads (.ok (some []))
  · exact iff_of_false (Side.not_stallFails_of_empty hquiet hsettles hx hpiece)
      (not_not_intro ⟨hfine, .inr hpiece⟩)
  rcases framing_cases writer with hplain | hheaded
  · exact iff_of_false (Side.not_stallFails_of_plain hsize hfields hquiet hx hroom hplain howes
      hfine hpiece) (not_not_intro ⟨hfine, .inl hplain⟩)
  · refine iff_of_true (Side.stall_fails_of_nothing hS hsize hfields hquiet hx hheaded hfine hpiece)
      fun hcase => ?_
    exact hcase.2.elim (fun hplain => not_headed_of_plain hplain hheaded) hpiece

end Empty

end Sides

/-! ## After any calls -/

/-- What a stall of the sink comes to, at any point: between two calls, if bytes are owed, it is an
    error exactly where the forwarder has failed already or something would notice; within a
    call, and while the body is ended, it is an error if bytes are owed. -/
structure NoticesStall {α : Type} (S : Side E ε₁ ε₂) (h : Httparse) (reader : BodyReader E)
    (writer : Unifier.Ready S.eof) (sink : Sink)
    (finish : Nat → Relay (S.ends h) → Polled ProxyCopyError α × Sink) (relay : Relay (S.ends h)) :
    Prop where
  between : relay.Owes (S.task h reader writer sink) →
    (StallFails S h finish relay ↔
      relay.errored = true ∨ ¬ relay.Unguarded (idleOf writer).framing)
  within : ∀ ev before n, (∃ e, (S.stalled h (ev :: before) n relay).forward.1 = .err e) ∨
    ∃ after, (S.stalled h (ev :: before) n relay).forward.2.sender.medium.script =
      after ++ List.replicate n (.accept 0)
  ending : relay.errored = false → relay.Finished → ∀ before n fuel, 1 ≤ fuel →
    Meets (finish fuel (S.stalled h before n relay))
      (wholeEnd S h reader writer relay.sender.medium.wire)

/-- It does not depend on what the caller makes of the two connections. -/
theorem NoticesStall.andThen {α β : Type} {reader : BodyReader E} {writer : Unifier.Ready S.eof}
    {sink : Sink} {relay : Relay (S.ends h)}
    {finish : Nat → Relay (S.ends h) → Polled ProxyCopyError α × Sink} (g : α → Sink → β)
    (hnotices : NoticesStall S h reader writer sink finish relay) :
    NoticesStall S h reader writer sink (fun fuel relay =>
      Poll.andThen (finish fuel relay) id fun a s => (.ok (g a s), s)) relay where
  between howes := by
    refine Iff.trans ?_ (hnotices.between howes)
    apply exists_congr
    intro enough
    apply forall₄_congr
    intro n fuel _ _
    simp only [andThen_value]
    generalize finish fuel (S.stalled h [] n relay) = x
    obtain ⟨_ | a | e | _, s⟩ := x
    all_goals simp
  within := hnotices.within
  ending halive hfinished before n fuel hfuel :=
    (hnotices.ending halive hfinished before n fuel hfuel).andThen (fun _ hf => hf)
      (fun _ _ he => he) fun _ _ hend => hend

section Settling

variable {chunkSize : Nat} {reader : BodyReader E} {writer : Unifier.Ready S.eof} {sink : Sink}
variable (hS : S.Lawful) (hsize : h.ChunkSizeLaws) (hfields : h.FieldSectionLaws)
variable (hword : chunkSize < 2 ^ 64) (hfills : Fills (idleOf writer) (reader.owed h S.last))
include hS hsize hfields hword hfills

/-- After any calls a forwarder that has not failed is good, if its pieces have bytes. -/
theorem Side.acts_good (hpos : 1 ≤ chunkSize) (acts : List Act)
    (halive : ((S.start h chunkSize reader writer sink).acts acts).2.relay.errored = false) :
    ((S.start h chunkSize reader writer sink).acts acts).2.relay.Good
      (S.task h reader writer sink) (S.Clear h reader sink) := by
  have hsound : ((S.start h chunkSize reader writer sink).acts acts).2.Sound
      (S.task h reader writer sink) (S.Clear h reader sink) :=
    Side.acts_sound hS hsize hfields hpos hword hfills acts
  refine hsound.2.resolve_right fun hhalted => ?_
  rw [hhalted.1.1] at halive
  cases halive

theorem Side.noticesStall (hquiet : S.Quiet)
    (hroom : EndsWithConnection reader → (idleOf writer).room = none) (acts : List Act) :
    NoticesStall S h reader writer sink (S.finish h)
      ((S.start h chunkSize reader writer sink).acts acts).2.relay := by
  -- what has not failed sends its bytes in order, or has nothing to send
  have hstate : ((S.start h chunkSize reader writer sink).acts acts).2.relay.errored = false →
      ((S.start h chunkSize reader writer sink).acts acts).2.relay.Good
        (S.task h reader writer sink) (S.Clear h reader sink) ∨
      S.AtRest h reader writer sink
        ((S.start h chunkSize reader writer sink).acts acts).2.relay := by
    intro halive
    rcases Nat.eq_zero_or_pos chunkSize with rfl | hpos
    · exact .inr (Side.acts_atRest hsize hfields hquiet acts halive)
    · exact .inl (Side.acts_good hS hsize hfields hword hfills hpos acts halive)
  generalize ((S.start h chunkSize reader writer sink).acts acts).2.relay = relay at hstate
  refine ⟨fun howes => ?_, fun ev before n => Side.forward_stalled ev before n relay, ?_⟩
  · cases hfailed : relay.errored with
    | true =>
      refine iff_of_true ⟨1, fun n fuel _ hfuel => ?_⟩ (.inl rfl)
      have hstalled : (S.stalled h [] n relay).errored = true := hfailed
      exact ⟨_, congrArg Prod.fst (Side.finish_errored hstalled hfuel)⟩
    | false =>
      rw [or_iff_right Bool.false_ne_true]
      rcases hstate hfailed with hgood | hrest
      · exact Side.stallFails_iff hS hsize hfields hfills hgood howes
      · exact hrest.stallFails_iff hS hsize hfields hquiet hroom howes
  · intro halive hfinished before n fuel hfuel
    have hend : S.EndsUp h reader writer sink relay := by
      rcases hstate halive with hgood | hrest
      · obtain ⟨r, t, bs, hthrough⟩ := @Side.through_of_good _ _ _ S h reader writer sink
          ⟨relay, none⟩ _ hgood hfinished
        exact .through hthrough
      · refine Side.endsUp_of_untouched ?_ ?_ hrest.nothing (hrest.ended hfinished.1)
        · rw [hrest.sender]
        · rw [hrest.sender]
    exact Side.finish_wholeEnd hS hsize hfields hfills hend halive hfinished before n hfuel

end Settling

/-! ## The two forwarders -/

/-- What the proxy pairs with a response that ends with its connection has no declared length. -/
theorem responseWriter_room {clientCannotChunk : Bool} {reader : BackendBodyReader}
    (heof : EndsWithConnection reader) :
    (idleOf (responseWriter clientCannotChunk reader)).room = none := by
  obtain ⟨inner, rfl⟩ := heof
  cases clientCannotChunk with
  | true => rfl
  | false => rfl

/-- For both forwarders, every encoding, every body and every piece size, after any calls: where a
    stall of the sink is an error.  The calls of the writers that drive one phase to its end
    notice it in every phase. -/
theorem stall_noticed_iff (hsize : h.ChunkSizeLaws) (hfields : h.FieldSectionLaws)
    {chunkSize : Nat} (hword : chunkSize < 2 ^ 64) (sink : Sink) (acts : List Act) :
    (∀ reader : FrontendBodyReader, reader.Fresh →
      NoticesStall requestSide h reader (requestWriter reader) sink (RequestBodyForwarder.finish h)
        ((requestSide.start h chunkSize reader (requestWriter reader) sink).acts acts).2.relay) ∧
    (∀ (clientCannotChunk : Bool) (reader : BackendBodyReader), reader.Fresh →
      NoticesStall responseSide h reader (responseWriter clientCannotChunk reader) sink
        (ResponseBodyForwarder.finish h)
        ((responseSide.start h chunkSize reader (responseWriter clientCannotChunk reader)
          sink).acts acts).2.relay) ∧
    ∀ s n, Sink.Refuses (n + 1) s →
      Unifier.DrivesFail requestSide.eof requestSide.writeFailed s ∧
        Unifier.DrivesFail responseSide.eof responseSide.writeFailed s := by
  refine ⟨?_, ?_, fun s n hs => ⟨Unifier.drives_fail _ _ hs, Unifier.drives_fail _ _ hs⟩⟩
  · intro reader hfresh
    exact (Side.noticesStall requestSide_lawful hsize hfields hword (request_paired hfresh).fills
      requestSide_quiet (fun heof => heof.elim fun inner _ => inner.elim) acts).andThen _
  · intro clientCannotChunk reader hfresh
    exact (Side.noticesStall responseSide_lawful hsize hfields hword
      (response_paired clientCannotChunk hfresh).fills responseSide_quiet responseWriter_room
      acts).andThen _

/-- In front of the first chunk of a request the sink takes nothing any more. -/
theorem stall_noticed_iff_wiki :
    StallFails requestSide reference (RequestBodyForwarder.finish reference)
      ((requestSide.start reference 3 wikiRequest (requestWriter wikiRequest) slowSink).acts
        []).2.relay := by
  have hnotices := (@stall_noticed_iff reference chunkSizeLaws fieldSectionLaws 3 (by decide)
    slowSink []).1 wikiRequest ⟨_, _, _, _, rfl⟩
  have hhead : (idleOf (requestWriter wikiRequest)).framing.head 1 ≠ [] := by decide
  have hheaded := (framing_cases (requestWriter wikiRequest)).resolve_left fun hplain =>
    hhead (by rw [hplain]; rfl)
  refine (hnotices.between (.inl hheaded)).mpr (.inr ?_)
  rintro ⟨-, hplain | ⟨-, -, hpiece⟩⟩
  · exact not_headed_of_plain hplain hheaded
  · revert hpiece
    decide +kernel

/-- A declared length of four. -/
def fourBytes : FrontendBodyReader :=
  .cl (.new 4 ⟨⟨[.data 87 (ascii "iki"), .pending]⟩, .default⟩ ⟨4⟩) true

/-- The sink takes two bytes of the first piece, and then nothing any more. -/
theorem stalledData_never_fails :
    let relay := ((requestSide.start reference 3 fourBytes (requestWriter fourBytes) slowSink).acts
      (List.replicate 4 .poll)).2.relay
    relay.sender.pending = ascii "k" ∧
      relay.Owes (requestSide.task reference fourBytes (requestWriter fourBytes) slowSink) ∧
      (∀ fuel, (RequestBodyForwarder.finish reference fuel
        (requestSide.stalled reference [] fuel relay)).1 = .pending) ∧
      ¬ StallFails requestSide reference (RequestBodyForwarder.finish reference) relay := by
  intro relay
  have hpending : relay.sender.pending = ascii "k" := by decide +kernel
  have hmore : relay.sender.pending ≠ [] := by
    rw [hpending]
    decide
  have hfills := (@request_paired reference fourBytes ⟨rfl, by decide⟩).fills
  have hgood : relay.Good (requestSide.task reference fourBytes (requestWriter fourBytes) slowSink)
      (requestSide.Clear reference fourBytes slowSink) :=
    Side.acts_good requestSide_lawful chunkSizeLaws fieldSectionLaws (by decide) hfills (by decide)
      _ (by decide +kernel)
  have howes : relay.Owes (requestSide.task reference fourBytes (requestWriter fourBytes)
      slowSink) := by
    refine .inr (.inl ?_)
    show relay.sender.medium.wire ≠
      slowSink.wire ++ (fourBytes.owed reference requestSide.last).body
    decide +kernel
  have hdata : relay.DataNext (idleOf (requestWriter fourBytes)).framing := by
    have hwriting : ∃ w, relay.sender.writer = .writing w := ⟨_, rfl⟩
    obtain ⟨w, hwriting⟩ := hwriting
    unfold Relay.DataNext
    rw [hwriting]
    trivial
  have hgoes : ∀ fuel, (RequestBodyForwarder.finish reference fuel
      (requestSide.stalled reference [] fuel relay)).1 = .pending := by
    intro fuel
    have hpending := Side.stall_goes_on requestSide_lawful chunkSizeLaws fieldSectionLaws hfills
      hgood hdata fuel
    rw [RequestBodyForwarder.finish, andThen_value, hpending]
    rfl
  refine ⟨hpending, howes, hgoes, ?_⟩
  rintro ⟨enough, henough⟩
  obtain ⟨e, herr⟩ := henough enough enough (Nat.le_refl _) (Nat.le_refl _)
  rw [hgoes] at herr
  cases herr

end Jrpxy.Proxy
