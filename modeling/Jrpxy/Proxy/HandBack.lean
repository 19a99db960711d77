/-
  Jrpxy.Proxy.HandBack

  What a finished forwarder hands back.

  Whatever the piece size, a forwarder that finishes has put one complete body
  behind its base, and hands back the connections that outlive their body
  (`finish_handsBack`).  With pieces of at least one byte that is the content
  of the source.  With pieces of no bytes at all a forwarder ends only when
  there is nothing to relay, or with a body that ends with its connection, of
  which it may then take nothing: but that connection is not handed back.
-/
import Jrpxy.Body.Reader.Concluding
import Jrpxy.Proxy.Forwarding

namespace Jrpxy.Proxy

open Poll PullStream BlockWriter BodyRelay ChunkedCoding Ascii Util HttpMessage
open Body Body.Reader Body.Writer Body.Writer.Chunked
open Frontend Backend

variable {E ε₁ ε₂ : Type} {S : Side E ε₁ ε₂} {h : Httparse}

/-- One complete body is behind the base of the sink, in the encoding of the writer; the
    connections are there if they outlive their body; and that of the source stands behind
    its body. -/
structure HandsBack (S : Side E ε₁ ε₂) (h : Httparse) (reader : BodyReader E)
    (writer : Unifier.Ready S.eof) (sink : Sink) (out : Option ConnectionReader × Option Sink)
    (s : Sink) : Prop where
  body : ∃ content trailers w, s.wire = sink.wire ++ w ∧ Encodes h content trailers w writer
  source : out.1.isSome = reader.recyclable
  stands : ∀ c ∈ out.1, ∃ t, (reader.owed h S.last).tail = some t ∧ c.reader.unread = t.rest
  target : out.2 = if Unifier.Ready.recyclable writer then some s else none

/-- The sink is handed back if it outlives the body. -/
theorem HandsBack.target_isSome {reader : BodyReader E} {writer : Unifier.Ready S.eof}
    {sink s : Sink} {source : Option ConnectionReader} {target : Option Sink}
    (hback : HandsBack S h reader writer sink (source, target) s) :
    target.isSome = Unifier.Ready.recyclable writer := by
  have htarget : target = _ := hback.target
  rw [htarget]
  cases Unifier.Ready.recyclable writer with
  | true => rfl
  | false => rfl

/-- The sink that is handed back is the one the body was sent on. -/
theorem HandsBack.target_eq {reader : BodyReader E} {writer : Unifier.Ready S.eof}
    {sink s s' : Sink} {source : Option ConnectionReader} {target : Option Sink}
    (hback : HandsBack S h reader writer sink (source, target) s) (hs : target = some s') :
    s' = s := by
  have htarget : target = _ := hback.target
  rw [htarget] at hs
  split at hs
  · exact (Option.some.inj hs).symm
  · cases hs

/-! ## Which connections -/

/-- A writer that has no end of its own is the only one whose connection does not outlive
    the body. -/
theorem not_recyclable_iff {eof : Bool} (r : Unifier.Ready eof) :
    Unifier.Ready.recyclable r = false ↔
      (idleOf r).room = none ∧ (idleOf r).framing = .plain := by
  cases r with
  | bodyless r => exact iff_of_false Bool.noConfusion fun hidle => by cases hidle.1
  | cl r => exact iff_of_false Bool.noConfusion fun hidle => by cases hidle.1
  | chunked r => exact iff_of_false Bool.noConfusion fun hidle => framing_ne_plain hidle.2
  | eof a r => exact iff_of_true rfl ⟨rfl, rfl⟩

/-- Spending room does not change what becomes of the connection. -/
theorem recyclable_of_spend {eof : Bool} {r r' : Unifier.Ready eof} {n : Nat}
    (hidle : idleOf r' = (idleOf r).spend n) :
    Unifier.Ready.recyclable r' = Unifier.Ready.recyclable r := by
  have hiff : Unifier.Ready.recyclable r' = false ↔ Unifier.Ready.recyclable r = false := by
    rw [not_recyclable_iff, not_recyclable_iff, hidle]
    apply and_congr_left'
    exact Option.map_eq_none_iff
  rw [Bool.eq_iff_iff]
  simpa using not_congr hiff

/-- Ending a body hands the connection of the source back if it outlives the body. -/
theorem Side.finishBody_isSome {reader : BodyReader E} {writer : Unifier.Ready S.eof}
    {sink s : Sink} {out : Option ConnectionReader × Option Sink}
    (hok : S.finishBody h reader writer sink = (.ok out, s)) :
    out.1.isSome = reader.recyclable := by
  have hplain : S.finishPlain h reader writer sink = (.ok out, s) →
      out.1.isSome = reader.recyclable := by
    intro hok
    obtain ⟨next, s₁, hdrain, hrest⟩ := andThen_eq_ok hok
    obtain ⟨finisher, s₂, -, hrest⟩ := andThen_eq_ok hrest
    obtain ⟨nextWriter, s₃, -, hout⟩ := andThen_eq_ok hrest
    cases hout
    exact BodyReader.drain_isSome (Polled.mapErr_eq_ok.mp (congrArg Prod.fst hdrain))
  cases reader with
  | te inner r =>
    cases writer with
    | chunked bw =>
      obtain ⟨⟨next, trailers⟩, s₁, hdrain, hrest⟩ := andThen_eq_ok hok
      obtain ⟨_, s₂, -, hout⟩ := andThen_eq_ok hrest
      cases hout
      exact BodyReader.drainChunked_isSome (Polled.mapErr_eq_ok.mp (congrArg Prod.fst hdrain))
    | bodyless bw => exact hplain hok
    | cl bw => exact hplain hok
    | eof a bw => exact hplain hok
  | bodyless inner r => exact hplain hok
  | cl inner r => exact hplain hok
  | eof inner => exact hplain hok

/-- No call changes whether the connection of the source outlives the body. -/
theorem Side.forward_recyclable {recyclable : Bool} (x : Relay (S.ends h))
    (hx : BodyReader.recyclable x.reader = recyclable) :
    BodyReader.recyclable x.forward.2.reader = recyclable := by
  refine Relay.forward_reader (R := fun r => BodyReader.recyclable r = recyclable) ?_ hx
  intro m r hr
  exact (BodyReader.pollRead_recyclable m r).trans hr

/-! ## A body that is through -/

section Through

variable {reader : BodyReader E} {writer : Unifier.Ready S.eof} {sink s : Sink}
variable {out : Option ConnectionReader × Option Sink}
variable (hS : S.Lawful) (hsize : h.ChunkSizeLaws) (hfields : h.FieldSectionLaws)
include hS hsize hfields

/-- Ending a body that is through delivers it. -/
theorem Side.Through.delivered (hpaired : Paired S h reader writer) {relay : Relay (S.ends h)}
    {r : Unifier.Ready S.eof} {t : BodyEnd} {bs : List Bytes}
    (hthrough : S.Through h reader writer sink relay r t bs)
    (hok : S.finishBody h relay.reader r relay.sender.medium = (.ok out, s)) :
    Delivered S h reader writer sink s := by
  have hmeets := Side.finishBody_meets hS hsize hfields hthrough.done hthrough.owed
    (hthrough.spent hpaired.fills) relay.sender.medium
  rw [hok] at hmeets
  obtain ⟨hsends, -, -⟩ := hmeets
  have hframing : (idleOf r).framing = (idleOf writer).framing := by
    rw [hthrough.idle]
    rfl
  refine ⟨t, _, hthrough.tail, ?_, encodes_blocks hsize hfields hS hpaired hthrough.tail
    hthrough.flat hthrough.bounded⟩
  have hend := hsends.wire
  rw [endOfBody_congr hframing] at hend
  rw [← List.append_assoc, ← hthrough.wire]
  exact hend

/-- Ending a body that is through hands back what outlives it. -/
theorem Side.Through.handsBack (hpaired : Paired S h reader writer) {relay : Relay (S.ends h)}
    {r : Unifier.Ready S.eof} {t : BodyEnd} {bs : List Bytes}
    (hthrough : S.Through h reader writer sink relay r t bs)
    (hsame : BodyReader.recyclable relay.reader = reader.recyclable)
    (hok : S.finishBody h relay.reader r relay.sender.medium = (.ok out, s)) :
    HandsBack S h reader writer sink out s := by
  obtain ⟨t', w, -, hwire, hencodes⟩ := hthrough.delivered hS hsize hfields hpaired hok
  have hmeets := Side.finishBody_meets hS hsize hfields hthrough.done hthrough.owed
    (hthrough.spent hpaired.fills) relay.sender.medium
  have hisSome := Side.finishBody_isSome hok
  rw [hok] at hmeets
  obtain ⟨-, hrest, hback⟩ := hmeets
  refine ⟨⟨_, _, w, hwire, hencodes⟩, hisSome.trans hsame, ?_, ?_⟩
  · intro c hc
    exact ⟨t, hthrough.tail, hrest c hc⟩
  · rw [← recyclable_of_spend hthrough.idle]
    exact hback

end Through

/-! ## Pieces of no bytes -/

section Nothing

variable {reader : BodyReader E}

/-- The reader of a body that ends with the connection. -/
def EndsWithConnection (reader : BodyReader E) : Prop := ∃ inner, reader = .eof inner

/-- A reader from which nothing was taken: it owes what `reader` owes, or both owe what the
    connection brings. -/
def NothingTaken (S : Side E ε₁ ε₂) (h : Httparse) (reader r : BodyReader E) : Prop :=
  (EndsWithConnection r ↔ EndsWithConnection reader) ∧
    (¬ EndsWithConnection reader → r.owed h S.last = reader.owed h S.last)

/-- A reader at the end of its body, or of one that ends with the connection. -/
def AtEnd (S : Side E ε₁ ε₂) (h : Httparse) (r : BodyReader E) : Prop :=
  EndsWithConnection r ∨ ∃ t, r.owed h S.last = .ending t ∧ r.Done h S.last

/-- A fourth framing from which nothing is taken by reads for no bytes. -/
def Side.Idles (S : Side E ε₁ ε₂) : Prop :=
  HandsOutNothing S.last 0 (fun _ => True) (fun _ => True)

/-- A part of the reader from which nothing is taken. -/
theorem nothing_of_part {ρ ε : Type} {P : Puller ρ BodyError BodyEnd} (f : BodyError → ε)
    (put : ρ → BodyReader E) (howed : ∀ r, (put r).owed h S.last = P.owed r)
    (hdone : ∀ r, P.Done r → (put r).Done h S.last)
    (hput : ∀ r, ¬ EndsWithConnection (put r)) {r : ρ}
    (hr : NothingTaken S h reader (put r)) {x : Polled BodyError (Option Bytes) × ρ}
    (hx : Meets x (P.post 0 r)) :
    Meets (wrap f put x) (nothingPost (NothingTaken S h reader) (AtEnd S h)) := by
  have hreader : ¬ EndsWithConnection reader := fun heof => hput r (hr.1.mpr heof)
  have hkept : ∀ s, P.owed s = P.owed r → NothingTaken S h reader (put s) := by
    intro s hs
    refine ⟨iff_of_false (hput s) hreader, fun _ => ?_⟩
    rw [howed, hs, ← howed]
    exact hr.2 hreader
  refine hx.wrap ?_ ?_ (fun _ _ _ => trivial)
  · rintro s ⟨hs, -⟩
    exact hkept s hs
  · rintro (_ | d) s
    · rintro ⟨t, hbefore, hafter, hd⟩
      exact ⟨hkept s (hafter.trans hbefore.symm), .inr ⟨t, (howed s).trans hafter, hdone s hd⟩⟩
    · rintro ⟨hs, -, hlen, -⟩
      obtain rfl := List.length_eq_zero_iff.mp (Nat.le_zero.mp hlen)
      exact ⟨rfl, hkept s hs.symm⟩

/-- By reads for no bytes nothing is taken from any reader. -/
theorem Side.handsOutNothing (hsize : h.ChunkSizeLaws) (hfields : h.FieldSectionLaws)
    (hidles : S.Idles) :
    HandsOutNothing (S.ends h).source 0 (NothingTaken S h reader) (AtEnd S h) := by
  intro r hr
  cases r with
  | bodyless inner recyclable =>
    refine ⟨hr, .inr ⟨_, rfl, trivial⟩⟩
  | cl inner recyclable =>
    exact nothing_of_part S.readFailed (BodyReader.cl · recyclable) (fun _ => rfl)
      (fun _ hd => hd) (fun _ heof => by obtain ⟨_, heq⟩ := heof; cases heq) hr
      (ContentLengthBodyReader.puller_lawful 0 inner (Nat.le_refl 0))
  | te inner recyclable =>
    exact nothing_of_part S.readFailed (BodyReader.te · recyclable) (fun _ => rfl)
      (fun _ hd => hd) (fun _ heof => by obtain ⟨_, heq⟩ := heof; cases heq) hr
      (ChunkedBodyReader.puller_lawful hsize hfields 0 inner (Nat.le_refl 0))
  | eof inner =>
    have hreader : EndsWithConnection reader := hr.1.mp ⟨inner, rfl⟩
    have hkept : ∀ s : E, NothingTaken S h reader (.eof s) := fun s =>
      ⟨iff_of_true ⟨s, rfl⟩ hreader, fun hnot => absurd hreader hnot⟩
    refine (hidles inner trivial).wrap (fun s _ => hkept s) ?_ (fun _ _ _ => trivial)
    rintro (_ | d) s
    · exact fun _ => ⟨hkept s, .inl ⟨s, rfl⟩⟩
    · exact fun hd => ⟨hd.1, hkept s⟩

theorem requestSide_idles : requestSide.Idles := fun r => r.elim

theorem responseSide_idles : responseSide.Idles := by
  intro r _
  refine (EofBodyReader.pollRead_zero r).mono (fun _ _ => trivial) ?_ (fun _ _ _ => trivial)
  rintro (_ | d) s hpiece
  · exact ⟨trivial, trivial⟩
  · exact ⟨hpiece.1, trivial⟩

end Nothing

/-! ## Finishing -/

/-- A body that can be ended owes nothing. -/
theorem spent_of_finish {eof : Bool} {ε : Type} (f : BodyError → ε) {r : Unifier.Ready eof}
    {x : Unifier.Finish eof} (hfinish : Unifier.Ready.finish f r = .ok x) :
    ∀ k ∈ (idleOf r).room, k = 0 := by
  intro k hk
  cases r with
  | bodyless r =>
    cases hk
    rfl
  | cl r =>
    cases hk
    by_cases hleft : r.offset.toNat < r.length.toNat
    · rw [Unifier.finish_error f hleft] at hfinish
      cases hfinish
    · omega
  | chunked r => cases hk
  | eof a r => cases hk

section Finishing

variable {chunkSize : Nat} {reader : BodyReader E} {writer : Unifier.Ready S.eof} {sink s : Sink}
variable {out : Option ConnectionReader × Option Sink}
variable (hsize : h.ChunkSizeLaws) (hfields : h.FieldSectionLaws)
include hsize hfields

/-- What ends a writer that has room for nothing is a body without content. -/
theorem encodes_nothing (hpaired : Paired S h reader writer)
    (hspent : ∀ k ∈ (idleOf writer).room, k = 0) :
    Encodes h [] .empty (Unifier.Ready.terminator writer) writer := by
  cases writer with
  | bodyless r => exact ⟨rfl, rfl⟩
  | cl r =>
    have hroom : r.length.toNat - r.offset.toNat = 0 := hspent _ rfl
    have hunused := hpaired.unused r rfl
    refine ⟨rfl, ?_⟩
    show 0 = r.length.toNat
    omega
  | chunked r =>
    have hnone : Encodes h ([] : List Bytes).flatten .empty (encodeBody [] .empty)
        (.chunked r : Unifier.Ready S.eof) :=
      encodes_encodeBody hsize hfields (by simp) (by decide) (by decide) r
    exact hnone
  | eof a r => rfl

omit hsize hfields in
/-- Ending a body that ends with its connection sends the end of a body that owes nothing. -/
theorem Side.ends_of_eof {inner : E}
    (hok : S.finishPlain h (.eof inner) writer sink = (.ok out, s)) :
    (∀ k ∈ (idleOf writer).room, k = 0) ∧ s.wire = sink.wire ++ Unifier.Ready.terminator writer ∧
      out = (none, if Unifier.Ready.recyclable writer then some s else none) := by
  obtain ⟨next, s₁, hdrain, hrest⟩ := andThen_eq_ok hok
  cases hdrain
  obtain ⟨finisher, s₂, hready, hrest⟩ := andThen_eq_ok hrest
  have hready' := mapError_eq_ok.mp (Polled.ofExcept_eq_ok.mp (congrArg Prod.fst hready))
  cases congrArg Prod.snd hready
  obtain ⟨nextWriter, s₃, hfinish, hout⟩ := andThen_eq_ok hrest
  cases hout
  have hspent := spent_of_finish S.writeFailed hready'
  obtain ⟨x, hx, hmeets⟩ := Unifier.finish_meets S.writeFailed hspent
  rw [hready'] at hx
  cases hx
  have hends := hmeets sink
  rw [mapErr_eq_ok hfinish] at hends
  obtain ⟨hsends, hnext⟩ := hends
  exact ⟨hspent, hsends.wire, congrArg (Prod.mk none) hnext⟩

/-- A body that ends with its connection is ended, with nothing of it taken. -/
theorem Side.handsBack_of_eof (hpaired : Paired S h reader writer)
    (hreader : EndsWithConnection reader) {inner : E}
    (hok : S.finishPlain h (.eof inner) writer sink = (.ok out, s)) :
    HandsBack S h reader writer sink out s := by
  obtain ⟨hspent, hwire, rfl⟩ := Side.ends_of_eof hok
  obtain ⟨inner', rfl⟩ := hreader
  exact ⟨⟨[], .empty, _, hwire, encodes_nothing hsize hfields hpaired hspent⟩, rfl, by simp, rfl⟩

/-- What a forwarder came to that finished: its body went through and was ended; or it was one
    that ends with the connection, and was ended with nothing of it taken. -/
inductive Side.CameTo (S : Side E ε₁ ε₂) (h : Httparse) (reader : BodyReader E)
    (writer : Unifier.Ready S.eof) (sink : Sink) (out : Option ConnectionReader × Option Sink)
    (s : Sink) : Prop where
  | through {relay : Relay (S.ends h)} {r : Unifier.Ready S.eof} {t : BodyEnd} {bs : List Bytes}
      (through : S.Through h reader writer sink relay r t bs)
      (same : BodyReader.recyclable relay.reader = reader.recyclable)
      (ended : S.finishBody h relay.reader r relay.sender.medium = (.ok out, s)) :
      S.CameTo h reader writer sink out s
  | untaken {inner : E} (eof : EndsWithConnection reader)
      (ended : S.finishPlain h (.eof inner) writer sink = (.ok out, s)) :
      S.CameTo h reader writer sink out s

omit hsize hfields in
/-- A forwarder that has sent nothing, with a reader at its end that owed nothing else. -/
theorem Side.through_of_untouched {relay : Relay (S.ends h)} {t : BodyEnd}
    (hready : relay.sender.writer = .ready writer) (hwire : relay.sender.medium.wire = sink.wire)
    (hsource : reader.owed h S.last = .ending t) (howed : relay.reader.owed h S.last = .ending t)
    (hdone : relay.reader.Done h S.last) :
    S.Through h reader writer sink relay writer t [] := by
  refine ⟨?_, ?_, howed, hdone, ?_, ?_, by simp, ?_⟩
  · rw [hready]
    rfl
  · rw [hsource]
    rfl
  · rw [hwire]
    exact (List.append_nil _).symm
  · rw [hsource]
    rfl
  · rw [hsource]
    simp [Idle.spend]

/-- How a forwarder stands when its loop has come to the end: the body is through; or it is one
    that ends with the connection, and nothing of it was taken. -/
inductive Side.EndsUp (S : Side E ε₁ ε₂) (h : Httparse) (reader : BodyReader E)
    (writer : Unifier.Ready S.eof) (sink : Sink) (relay : Relay (S.ends h)) : Prop where
  | through {r : Unifier.Ready S.eof} {t : BodyEnd} {bs : List Bytes}
      (through : S.Through h reader writer sink relay r t bs) :
      S.EndsUp h reader writer sink relay
  | untaken {inner : E} (eof : EndsWithConnection reader) (reading : relay.reader = .eof inner)
      (ready : relay.sender.writer = .ready writer) : S.EndsUp h reader writer sink relay

omit hsize hfields in
/-- A forwarder that has taken nothing, with a reader at its end. -/
theorem Side.endsUp_of_untouched {relay : Relay (S.ends h)}
    (hready : relay.sender.writer = .ready writer) (hwire : relay.sender.medium.wire = sink.wire)
    (hnothing : NothingTaken S h reader relay.reader) (hend : AtEnd S h relay.reader) :
    S.EndsUp h reader writer sink relay := by
  by_cases heof : EndsWithConnection relay.reader
  · obtain ⟨inner, hinner⟩ := heof
    exact .untaken (hnothing.1.mp ⟨inner, hinner⟩) hinner hready
  · obtain ⟨t, howed, hdone⟩ := hend.resolve_left heof
    have hsource := hnothing.2 fun hreader => heof (hnothing.1.mpr hreader)
    exact .through (Side.through_of_untouched hready hwire (hsource.symm.trans howed) howed hdone)

omit hsize hfields in
/-- A forwarder that finishes: its loop comes to the end, its writer is between two blocks, and
    the body is ended. -/
theorem Side.finish_ok {relay : Relay (S.ends h)} {fuel : Nat}
    (hok : S.finish h fuel relay = (.ok out, s)) :
    ∃ (run : Run (S.ends h)) (r : Unifier.Ready S.eof),
      (Run.mk relay none).forwardAll fuel = (.ok (), run) ∧
      S.intoReady h run.relay.sender.writer = .ok r ∧
      S.finishBody h run.relay.reader r run.relay.sender.medium = (.ok out, s) := by
  obtain ⟨⟨⟩, run, hall, hrest⟩ := andThen_eq_ok hok
  obtain ⟨r, sink', hready, hbody⟩ := andThen_eq_ok hrest
  have hready' := Polled.ofExcept_eq_ok.mp (congrArg Prod.fst hready)
  cases congrArg Prod.snd hready
  exact ⟨run, r, hall, hready', hbody⟩

omit hsize hfields in
/-- With pieces of no bytes a forwarder begins with nothing taken. -/
theorem Side.start_untouched :
    (S.start h 0 reader writer sink).relay.Untouched 0 (NothingTaken S h reader) (AtEnd S h)
      ⟨.ready writer, [], sink⟩ :=
  .inr ⟨rfl, rfl, ⟨Iff.rfl, fun _ => rfl⟩, Bool.noConfusion⟩

variable (hidles : S.Idles)
include hidles

/-- With pieces of no bytes every call leaves the sender alone, and the run ends at the end of
    the reader. -/
theorem Side.finish_zero (acts : List Act) (fuel : Nat)
    (hok : S.finish h fuel ((S.start h 0 reader writer sink).acts acts).2.relay = (.ok out, s)) :
    ∃ relay : Relay (S.ends h), relay.sender = ⟨.ready writer, [], sink⟩ ∧
      NothingTaken S h reader relay.reader ∧ AtEnd S h relay.reader ∧
      BodyReader.recyclable relay.reader = reader.recyclable ∧
      S.finishBody h relay.reader writer sink = (.ok out, s) := by
  obtain ⟨run, r, hall, hready, hbody⟩ := Side.finish_ok hok
  -- every call keeps the sender as it is, and the connection of the reader
  have hkeeps : ∀ x : Relay (S.ends h),
      x.Untouched 0 (NothingTaken S h reader) (AtEnd S h) ⟨.ready writer, [], sink⟩ ∧
        BodyReader.recyclable x.reader = reader.recyclable →
      x.forward.2.Untouched 0 (NothingTaken S h reader) (AtEnd S h) ⟨.ready writer, [], sink⟩ ∧
        BodyReader.recyclable x.forward.2.reader = reader.recyclable := fun x hx =>
    ⟨Relay.forward_untouched (Side.handsOutNothing hsize hfields hidles) rfl rfl hx.1,
      Side.forward_recyclable x hx.2⟩
  have hstart : (S.start h 0 reader writer sink).Settled := Run.settled_of_none
  have hacts := Run.acts_kept hkeeps hstart ⟨Side.start_untouched, rfl⟩ acts
  obtain ⟨⟨huntouched, hsame⟩, hgoing, hfinished⟩ := Run.forwardAll_kept hkeeps fuel
    Run.settled_of_none hacts hall
  rcases huntouched with hfailed | ⟨-, hsender, hnothing, hend⟩
  · rw [hfailed] at hgoing
    cases hgoing
  · rw [hsender] at hready hbody
    cases hready
    exact ⟨run.relay, hsender, hnothing, hend hfinished.1, hsame, hbody⟩

/-- With pieces of no bytes. -/
theorem Side.finish_cameTo_zero (acts : List Act) (fuel : Nat)
    (hok : S.finish h fuel ((S.start h 0 reader writer sink).acts acts).2.relay = (.ok out, s)) :
    S.CameTo h reader writer sink out s := by
  obtain ⟨relay, hsender, hnothing, hend, hsame, hbody⟩ :=
    Side.finish_zero hsize hfields hidles acts fuel hok
  have hready : relay.sender.writer = .ready writer := by rw [hsender]
  have hwire : relay.sender.medium.wire = sink.wire := by rw [hsender]
  cases Side.endsUp_of_untouched hready hwire hnothing hend with
  | through hthrough =>
    obtain rfl : writer = _ := Except.ok.inj ((congrArg (S.intoReady h) hready).symm.trans
      hthrough.ready)
    refine .through hthrough hsame ?_
    rw [hsender]
    exact hbody
  | untaken heof hreading _ =>
    rw [hreading] at hbody
    exact .untaken heof hbody

variable (hS : S.Lawful)
include hS

/-- After whatever calls and with pieces of whatever size. -/
theorem Side.finish_cameTo (hword : chunkSize < 2 ^ 64) (hpaired : Paired S h reader writer)
    (acts : List Act) (fuel : Nat)
    (hok : S.finish h fuel ((S.start h chunkSize reader writer sink).acts acts).2.relay =
      (.ok out, s)) :
    S.CameTo h reader writer sink out s := by
  rcases Nat.eq_zero_or_pos chunkSize with rfl | hpos
  · exact Side.finish_cameTo_zero hsize hfields hidles acts fuel hok
  · have hsound : ((S.start h chunkSize reader writer sink).acts acts).2.Sound
        (S.task h reader writer sink) (S.Clear h reader sink) :=
      Side.acts_sound hS hsize hfields hpos hword hpaired.fills acts
    have hstart : (S.start h chunkSize reader writer sink).Settled := Run.settled_of_none
    have hkept := Run.acts_kept Side.forward_recyclable hstart rfl acts
    obtain ⟨run, r, hall, hready, hbody⟩ := Side.finish_ok hok
    have hmeets := Run.forwardAll_meets (Side.source_lawful hS hsize hfields)
      (Side.target_lawful S h reader writer sink) hpaired.fills.admits fuel
      (⟨Run.settled_of_none, hsound.2⟩ : Run.Sound _ _ ⟨_, none⟩)
    rw [hall] at hmeets
    obtain ⟨hsame, -, hfinished⟩ := Run.forwardAll_kept Side.forward_recyclable fuel
      Run.settled_of_none hkept hall
    obtain ⟨r', t, bs, hthrough⟩ := Side.through_of_good hmeets.1 hfinished
    cases hready.symm.trans hthrough.ready
    exact .through hthrough hsame hbody

/-- A forwarder that finishes, after whatever calls and with pieces of whatever size, has sent
    one complete body and hands back the connections that outlive theirs. -/
theorem Side.finish_handsBack (hword : chunkSize < 2 ^ 64) (hpaired : Paired S h reader writer)
    (acts : List Act) (fuel : Nat)
    (hok : S.finish h fuel ((S.start h chunkSize reader writer sink).acts acts).2.relay =
      (.ok out, s)) :
    HandsBack S h reader writer sink out s := by
  cases Side.finish_cameTo hsize hfields hidles hS hword hpaired acts fuel hok with
  | through hthrough hsame hbody => exact hthrough.handsBack hS hsize hfields hpaired hsame hbody
  | untaken heof hplain => exact Side.handsBack_of_eof hsize hfields hpaired heof hplain

/-- With pieces of whatever size, unless its source ends with the connection, a forwarder that
    finishes has delivered the body. -/
theorem Side.finish_delivered (hword : chunkSize < 2 ^ 64) (hpaired : Paired S h reader writer)
    (hnot : ¬ EndsWithConnection reader) (acts : List Act) (fuel : Nat)
    (hok : S.finish h fuel ((S.start h chunkSize reader writer sink).acts acts).2.relay =
      (.ok out, s)) :
    Delivered S h reader writer sink s := by
  cases Side.finish_cameTo hsize hfields hidles hS hword hpaired acts fuel hok with
  | through hthrough _ hbody => exact hthrough.delivered hS hsize hfields hpaired hbody
  | untaken heof _ => exact absurd heof hnot

end Finishing

end Jrpxy.Proxy
