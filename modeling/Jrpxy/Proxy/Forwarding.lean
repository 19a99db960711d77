/-
  Jrpxy.Proxy.Forwarding

  What the body forwarders deliver.

  The proxy picks the encoding of the sink by the framing of the source
  (`requestWriter`, `responseWriter`).  With that pairing, whatever the
  schedule, a forwarder that finishes has delivered the source's body in the
  encoding of the sink (`finish_delivers`); and a source that never completes
  leaves only a proper beginning of such a body behind
  (`truncated_never_delivers`).
-/
import Jrpxy.Proxy.Body
import Jrpxy.Body.Coding

namespace Jrpxy.Proxy

open Poll PullStream BlockWriter BodyRelay ChunkedCoding Ascii Util HttpMessage
open Body Body.Reader Body.Writer Body.Writer.Chunked
open Frontend Backend
open Httparse.Reference (reference chunkSizeLaws fieldSectionLaws)

/-! ## Which sink goes with which source -/

/-- The writer that goes with the framing of a request body. -/
def requestWriter : FrontendBodyReader → BackendBodyReady
  | .te _ _ => .chunked .mk
  | .cl r _ => .cl (.new (UInt64.ofNat r.contentLength))
  | .bodyless _ _ => .bodyless .mk

/-- The writer of a body whose end the client is not told in advance. -/
def unsizedWriter (clientCannotChunk : Bool) : FrontendBodyReady :=
  if clientCannotChunk then .eof rfl .mk else .chunked .mk

/-- The writer that goes with the framing of a response body. -/
def responseWriter (clientCannotChunk : Bool) : BackendBodyReader → FrontendBodyReady
  | .te _ _ => unsizedWriter clientCannotChunk
  | .cl r _ => .cl (.new (UInt64.ofNat r.contentLength))
  | .bodyless _ _ => .bodyless .mk
  | .eof _ => unsizedWriter clientCannotChunk

variable {E ε₁ ε₂ : Type} {S : Side E ε₁ ε₂} {h : Httparse}

/-- A new reader and a new writer that has room for exactly its body. -/
structure Paired (S : Side E ε₁ ε₂) (h : Httparse) (reader : BodyReader E)
    (writer : Unifier.Ready S.eof) : Prop where
  fresh : reader.Fresh
  fills : Fills (idleOf writer) (reader.owed h S.last)
  unused : ∀ r, writer = .cl r → r.offset.toNat = 0

/-- A writer without a declared length has room for every body. -/
theorem fills_of_unsized {v : Idle} (hroom : v.room = none) (o : Owed BodyEnd) : Fills v o where
  admits := by simp [Idle.Admits, hroom]
  exact := by simp [hroom]
  short := by simp [hroom]

/-- A body of a declared length fits a writer that declares it too. -/
theorem fills_of_length {eof : Bool} {inner : ContentLengthBodyReader}
    (hoff : inner.offset = 0) (hlt : inner.length < 2 ^ 64) :
    Fills (idleOf (.cl (.new (UInt64.ofNat inner.contentLength)) : Unifier.Ready eof))
      inner.owed := by
  -- the reader's remaining length and the writer's room are the same number
  have hrem : inner.remaining = inner.length := by
    unfold ContentLengthBodyReader.remaining
    omega
  have hroom : (idleOf (.cl (.new (UInt64.ofNat inner.contentLength)) : Unifier.Ready eof)).room =
      some inner.length := by
    show some ((UInt64.ofNat inner.length).toNat - 0) = _
    rw [toNat_ofNat_of_lt hlt, Nat.sub_zero]
  refine ⟨?_, ?_, ?_⟩
  · intro k hk
    cases hroom.symm.trans hk
    rw [ContentLengthBodyReader.owed, hrem]
    exact List.length_take_le _ _
  · intro t ht k hk
    cases hroom.symm.trans hk
    simp only [ContentLengthBodyReader.owed, hrem] at ht ⊢
    split at ht
    · next hle => rw [List.length_take, Nat.min_eq_left hle]
    · cases ht
  · intro ht k hk
    cases hroom.symm.trans hk
    simp only [ContentLengthBodyReader.owed, hrem] at ht ⊢
    split at ht
    · cases ht
    · next hlt =>
      rw [List.length_take]
      omega

/-- No body fits a writer of none. -/
theorem fills_of_bodyless {eof : Bool} (t : BodyEnd) :
    Fills (idleOf (.bodyless .mk : Unifier.Ready eof)) (.ending t) where
  admits k _ := Nat.zero_le k
  exact _ _ k hk := by
    cases hk
    rfl
  short := nofun

theorem request_paired {reader : FrontendBodyReader} (hfresh : reader.Fresh) :
    Paired requestSide h reader (requestWriter reader) := by
  refine ⟨hfresh, ?_, ?_⟩
  · cases reader with
    | bodyless inner r => exact fills_of_bodyless _
    | cl inner r => exact fills_of_length hfresh.1 hfresh.2
    | te inner r => exact fills_of_unsized rfl _
    | eof inner => exact nomatch inner
  · rintro r heq
    cases reader with
    | cl inner r' => cases heq; rfl
    | bodyless inner r' => cases heq
    | te inner r' => cases heq
    | eof inner => exact nomatch inner

theorem response_paired (clientCannotChunk : Bool) {reader : BackendBodyReader}
    (hfresh : reader.Fresh) :
    Paired responseSide h reader (responseWriter clientCannotChunk reader) := by
  have hunsized : ∀ o, Fills (idleOf (unsizedWriter clientCannotChunk)) o := by
    intro o
    cases clientCannotChunk with
    | true => exact fills_of_unsized rfl o
    | false => exact fills_of_unsized rfl o
  have hnot : ∀ r, unsizedWriter clientCannotChunk ≠ .cl r := by
    intro r
    cases clientCannotChunk with
    | true => exact nofun
    | false => exact nofun
  refine ⟨hfresh, ?_, ?_⟩
  · cases reader with
    | bodyless inner r => exact fills_of_bodyless _
    | cl inner r => exact fills_of_length hfresh.1 hfresh.2
    | te inner r => exact hunsized _
    | eof inner => exact hunsized _
  · rintro r heq
    cases reader with
    | cl inner r' => cases heq; rfl
    | bodyless inner r' => cases heq
    | te inner r' => exact absurd heq (hnot r)
    | eof inner => exact absurd heq (hnot r)

/-! ## A delivered body -/

/-- In the encoding of this writer, `w` is a body with this content and these trailers. -/
def Encodes (h : Httparse) (body : Bytes) (trailers : Headers) (w : Bytes) {eof : Bool} :
    Unifier.Ready eof → Prop
  | .bodyless _ => w = [] ∧ body = []
  | .cl r => w = body ∧ w.length = r.length.toNat
  | .chunked _ => (∃ blocks, w = encodeBody blocks trailers ∧ blocks.flatten = body ∧
        ∀ d ∈ blocks, d.length < 2 ^ 64) ∧
      ∀ slots : ParseSlots, trailers.headers.length ≤ slots.slotCount →
        (decode (recognisers h slots) w).body = body ∧
        ∃ n, (decode (recognisers h slots) w).tail = some ⟨n, trailers, []⟩
  | .eof _ _ => w = body

/-- Behind the head the sink has received the source's body, complete in the encoding of
    the sink, and the trailers that may be passed on. -/
def Delivered (S : Side E ε₁ ε₂) (h : Httparse) (reader : BodyReader E)
    (writer : Unifier.Ready S.eof) (sink s : Sink) : Prop :=
  ∃ t w, (reader.owed h S.last).tail = some t ∧ s.wire = sink.wire ++ w ∧
    Encodes h (reader.owed h S.last).body (sanitizeTrailers t.trailers) w writer

section Delivering

variable (hsize : h.ChunkSizeLaws) (hfields : h.FieldSectionLaws)

include hsize hfields in
/-- An encoded body decodes to its blocks and trailers, when these are trimmed. -/
theorem encodes_encodeBody {eof : Bool} {blocks : List Bytes} {trailers : Headers}
    (hblocks : ∀ d ∈ blocks, d.length < 2 ^ 64) (hvalid : trailers.Valid)
    (htrimmed : ∀ f ∈ trailers.headers, Trimmed f.2) (r : Chunked.Ready) :
    Encodes h blocks.flatten trailers (encodeBody blocks trailers)
      (.chunked r : Unifier.Ready eof) := by
  refine ⟨⟨blocks, rfl, rfl, hblocks⟩, ?_⟩
  intro slots hslots
  have hdecode := decode_encodeBody hsize hfields hblocks hvalid hslots []
  have hmap : trailers.headers.map (fun f => (f.1, trimOws f.2)) = trailers.headers := by
    conv => rhs; rw [← List.map_id trailers.headers]
    refine List.map_congr_left fun f hf => ?_
    rw [trimOws_of_trimmed (htrimmed f hf)]
    rfl
  rw [List.append_nil, hmap] at hdecode
  rw [hdecode]
  exact ⟨rfl, _, rfl⟩

include hfields in
/-- The trailers of a body are trimmed valid fields. -/
theorem trailers_wellFormed (hS : S.Lawful) {reader : BodyReader E} (hfresh : reader.Fresh)
    {t : BodyEnd} (htail : (reader.owed h S.last).tail = some t) :
    t.trailers.Valid ∧ ∀ f ∈ t.trailers.headers, Trimmed f.2 := by
  have hplain : (∀ inner r, reader ≠ .te inner r) →
      t.trailers.Valid ∧ ∀ f ∈ t.trailers.headers, Trimmed f.2 := by
    intro hte
    rw [Side.trailers_empty hS hte htail]
    exact ⟨nofun, nofun⟩
  cases reader with
  | te inner r =>
    obtain ⟨reader, slots, maxLine, maxTrailer, rfl⟩ := hfresh
    obtain ⟨t', ht', rfl⟩ := Option.map_eq_some_iff.mp htail
    obtain ⟨hvalid, htrimmed, -⟩ := decode_trailers hfields ht'
    exact ⟨hvalid, htrimmed⟩
  | bodyless inner r => exact hplain nofun
  | cl inner r => exact hplain nofun
  | eof inner => exact hplain nofun

include hsize hfields in
/-- All of the body in whole blocks, and the end, are a body in the writer's encoding. -/
theorem encodes_blocks (hS : S.Lawful) {reader : BodyReader E} {writer : Unifier.Ready S.eof}
    (hpaired : Paired S h reader writer) {t : BodyEnd}
    (htail : (reader.owed h S.last).tail = some t) {bs : List Bytes}
    (hflat : bs.flatten = (reader.owed h S.last).body) (hbs : ∀ d ∈ bs, d.length < 2 ^ 64) :
    Encodes h (reader.owed h S.last).body (sanitizeTrailers t.trailers)
      ((idleOf writer).framing.blocks bs ++ endOfBody writer t.trailers) writer := by
  rw [← hflat]
  cases writer with
  -- without framing the blocks are the body itself
  | bodyless r =>
    have hle := hpaired.fills.admits 0 rfl
    have hnil : bs.flatten = [] := by
      rw [hflat]
      exact List.length_eq_zero_iff.mp (Nat.le_zero.mp hle)
    have hblocks : Framing.plain.blocks bs ++ [] = bs.flatten := by
      rw [List.append_nil, Framing.blocks_plain]
    exact ⟨hblocks.trans hnil, hnil⟩
  | cl r =>
    have hexact := hpaired.fills.exact t htail _ rfl
    have hunused := hpaired.unused r rfl
    have hblocks : Framing.plain.blocks bs ++ [] = bs.flatten := by
      rw [List.append_nil, Framing.blocks_plain]
    refine ⟨hblocks, ?_⟩
    show (Framing.plain.blocks bs ++ []).length = _
    rw [hblocks, hflat, ← hexact]
    omega
  -- in chunks they are what an encoder writes for the same blocks and the trailers left
  | chunked r =>
    obtain ⟨hvalid, htrimmed⟩ := trailers_wellFormed hfields hS hpaired.fresh htail
    have hblocks : Chunked.framing.blocks bs ++ finishData (sanitizeTrailers t.trailers) =
        encodeBody bs (sanitizeTrailers t.trailers) := by
      rw [framing_blocks]
      rfl
    show Encodes h _ _ (Chunked.framing.blocks bs ++ finishData (sanitizeTrailers t.trailers)) _
    rw [hblocks]
    exact encodes_encodeBody hsize hfields hbs (sanitizeTrailers_valid hvalid)
      (fun f hf => htrimmed f (mem_of_mem_sanitizeTrailers hf)) r
  | eof a r =>
    show Framing.plain.blocks bs ++ [] = _
    rw [List.append_nil, Framing.blocks_plain]

variable {chunkSize : Nat} {reader : BodyReader E} {writer : Unifier.Ready S.eof} {sink : Sink}

include hsize hfields in
/-- A forwarder that finishes, after whatever calls, has delivered the body. -/
theorem Side.delivered (hS : S.Lawful) (hpos : 1 ≤ chunkSize) (hword : chunkSize < 2 ^ 64)
    (hpaired : Paired S h reader writer) (acts : List Act) (fuel : Nat)
    {out : Option ConnectionReader × Option Sink} {s : Sink}
    (hok : S.finish h fuel ((S.start h chunkSize reader writer sink).acts acts).2.relay =
      (.ok out, s)) :
    Delivered S h reader writer sink s := by
  have hfinish : Meets (S.finish h fuel
      ((S.start h chunkSize reader writer sink).acts acts).2.relay)
      (S.finishPost h reader writer sink) :=
    Side.finish_meets hS hsize hfields hpos hword hpaired.fills acts fuel
  rw [hok] at hfinish
  obtain ⟨t, bs, htail, hflat, hbs, hwire, -, -⟩ := hfinish
  exact ⟨t, _, htail, hwire, encodes_blocks hsize hfields hS hpaired htail hflat hbs⟩

end Delivering

/-- What a forwarder that finishes has delivered does not depend on what its caller makes
    of the two connections. -/
theorem delivered_of_value {α : Type} {reader : BodyReader E} {writer : Unifier.Ready S.eof}
    {sink s : Sink} {x : Polled ProxyCopyError (Option ConnectionReader × Option Sink) × Sink}
    (g : Option ConnectionReader × Option Sink → Sink → α) {out : α}
    (hok : andThen x id (fun a s => (.ok (g a s), s)) = (.ok out, s))
    (hx : ∀ a s', x = (.ok a, s') → Delivered S h reader writer sink s') :
    Delivered S h reader writer sink s := by
  rw [andThen_value] at hok
  obtain ⟨_ | a | e | _, s'⟩ := x
  · cases hok
  · cases hok
    exact hx a s' rfl
  · cases hok
  · cases hok

/-- A forwarder that finishes has delivered the body: for both directions, every reader
    of a new body, any calls, polled or dropped, before the last one, and any number of
    polls. -/
theorem finish_delivers (hsize : h.ChunkSizeLaws) (hfields : h.FieldSectionLaws)
    {chunkSize : Nat} (hpos : 1 ≤ chunkSize) (hword : chunkSize < 2 ^ 64) (sink : Sink)
    (acts : List Act) (fuel : Nat) :
    (∀ (reader : FrontendBodyReader) out s, reader.Fresh →
      RequestBodyForwarder.finish h fuel
        ((requestSide.start h chunkSize reader (requestWriter reader) sink).acts acts).2.relay =
          (.ok out, s) →
      Delivered requestSide h reader (requestWriter reader) sink s) ∧
    ∀ (clientCannotChunk : Bool) (reader : BackendBodyReader) out s, reader.Fresh →
      ResponseBodyForwarder.finish h fuel
        ((responseSide.start h chunkSize reader (responseWriter clientCannotChunk reader)
          sink).acts acts).2.relay = (.ok out, s) →
      Delivered responseSide h reader (responseWriter clientCannotChunk reader) sink s := by
  refine ⟨?_, ?_⟩
  · intro reader out s hfresh hok
    exact delivered_of_value _ hok fun a s' hx =>
      Side.delivered hsize hfields requestSide_lawful hpos hword (request_paired hfresh) acts fuel hx
  · intro clientCannotChunk reader out s hfresh hok
    exact delivered_of_value _ hok fun a s' hx =>
      Side.delivered hsize hfields responseSide_lawful hpos hword
        (response_paired clientCannotChunk hfresh) acts fuel hx

/-- Two chunks, of which the second stops in its size line, and two trailers, of which
    one may not be passed on. -/
def wikiRequest : FrontendBodyReader :=
  .te (.new ⟨⟨[.data 52 (ascii "\r\nWiki\r\n5"), .pending,
    .data 13 (ascii "\npedia\r\n0\r\nhost: a\r\netag: x\r\n\r\nGET")]⟩, .default⟩ ⟨4⟩ 64 64) true

/-- A body that ends with its connection. -/
def wikiResponse : BackendBodyReader :=
  .eof (.new ⟨⟨[.data 119 (ascii "iki"), .pending]⟩, .default⟩ ⟨4⟩)

/-- A sink that has a head on it, accepts two bytes, is not ready, and accepts one. -/
def slowSink : Sink := ⟨ascii "head", [.accept 2, .pending, .accept 1, .pending]⟩

/-- Calls of which one is dropped while it waits. -/
def droppedCalls : List Act := [.poll, .poll, .poll, .drop, .poll, .poll, .drop]

theorem finish_delivers_wiki :
    ∃ out s out' s',
      RequestBodyForwarder.finish reference 60
        ((requestSide.start reference 3 wikiRequest (requestWriter wikiRequest)
          slowSink).acts droppedCalls).2.relay = (.ok out, s) ∧
      Delivered requestSide reference wikiRequest (requestWriter wikiRequest) slowSink s ∧
      ResponseBodyForwarder.finish reference 60
        ((responseSide.start reference 3 wikiResponse (responseWriter false wikiResponse)
          slowSink).acts droppedCalls).2.relay = (.ok out', s') ∧
      Delivered responseSide reference wikiResponse (responseWriter false wikiResponse)
        slowSink s' := by
  have hrequest : (RequestBodyForwarder.finish reference 60
      ((requestSide.start reference 3 wikiRequest (requestWriter wikiRequest)
        slowSink).acts droppedCalls).2.relay).1.isOk = true := by decide +kernel
  have hresponse : (ResponseBodyForwarder.finish reference 60
      ((responseSide.start reference 3 wikiResponse (responseWriter false wikiResponse)
        slowSink).acts droppedCalls).2.relay).1.isOk = true := by decide +kernel
  obtain ⟨out, s, hs⟩ := exists_of_isOk hrequest
  obtain ⟨out', s', hs'⟩ := exists_of_isOk hresponse
  have hdelivers := @finish_delivers reference chunkSizeLaws fieldSectionLaws 3 (by decide)
    (by decide) slowSink droppedCalls 60
  have hnew : wikiRequest.Fresh := ⟨_, _, _, _, rfl⟩
  exact ⟨out, s, out', s', hs, hdelivers.1 wikiRequest out s hnew hs, hs',
    hdelivers.2 false wikiResponse out' s' trivial hs'⟩

/-! ## A truncated source -/

/-- `w` begins a body with this content, and is no complete body in the encoding of this
    writer: too short for the declared length, or without its last chunk. -/
def Unfinished (h : Httparse) (body w : Bytes) {eof : Bool} : Unifier.Ready eof → Prop
  | .bodyless _ => w = []
  | .cl r => w <+: body ∧ w.length < r.length.toNat
  | .chunked _ => (∃ blocks u, w ++ u = encodeBody blocks .empty ∧ u ≠ [] ∧
        (∀ d ∈ blocks, d.length < 2 ^ 64) ∧ blocks.flatten <+: body) ∧
      ∀ slots : ParseSlots, (decode (recognisers h slots) w).tail = none
  | .eof _ _ => w <+: body

/-- What a truncated source comes to: at every moment the wire holds a proper beginning of
    a body, and finishing fails. -/
structure NeverDelivered {α : Type} (S : Side E ε₁ ε₂) (h : Httparse) (reader : BodyReader E)
    (writer : Unifier.Ready S.eof) (sink : Sink) (meanwhile : Sink)
    (finish : Nat → Polled ProxyCopyError α × Sink) : Prop where
  before : ∃ w, meanwhile.wire = sink.wire ++ w ∧
    Unfinished h (reader.owed h S.last).body w writer
  during : ∀ fuel, ∃ w, (finish fuel).2.wire = sink.wire ++ w ∧
    Unfinished h (reader.owed h S.last).body w writer
  never_ok : ∀ fuel out, (finish fuel).1 ≠ .ok out
  fails : ∃ enough, ∀ fuel, enough ≤ fuel → ∃ e, (finish fuel).1 = .err e

/-- After an error every later call fails in the same way and writes nothing. -/
structure Latched {α : Type} {S : Side E ε₁ ε₂} {h : Httparse} (run : Run (S.ends h))
    (finish : Nat → Polled ProxyCopyError α × Sink) : Prop where
  calls : ∀ more, (∀ y ∈ (run.acts more).1, y = .err .forwardAfterError) ∧
    (run.acts more).2.relay.sender.medium = run.relay.sender.medium
  finish : ∀ fuel, 1 ≤ fuel →
    finish fuel = (.err .forwardAfterError, run.relay.sender.medium)

/-- What holds of a forwarder after any calls. -/
structure HoldsBack {α : Type} (S : Side E ε₁ ε₂) (h : Httparse) (reader : BodyReader E)
    (writer : Unifier.Ready S.eof) (sink : Sink) (chunkSize : Nat) (acts : List Act)
    (finish : Nat → Relay (S.ends h) → Polled ProxyCopyError α × Sink) : Prop where
  truncated : (reader.owed h S.last).tail = none →
    NeverDelivered S h reader writer sink
      ((S.start h chunkSize reader writer sink).acts acts).2.relay.sender.medium
      fun fuel => finish fuel ((S.start h chunkSize reader writer sink).acts acts).2.relay
  latched : ∀ e, .err e ∈ ((S.start h chunkSize reader writer sink).acts acts).1 →
    Latched ((S.start h chunkSize reader writer sink).acts acts).2
      fun fuel => finish fuel ((S.start h chunkSize reader writer sink).acts acts).2.relay

section Truncated

variable {chunkSize : Nat} {reader : BodyReader E} {writer : Unifier.Ready S.eof} {sink : Sink}
variable (hsize : h.ChunkSizeLaws) (hfields : h.FieldSectionLaws)

include hsize hfields in
/-- A beginning of a relayed body is no complete body when the source is truncated. -/
theorem unfinished_of_relayed (hpaired : Paired S h reader writer)
    (htail : (reader.owed h S.last).tail = none) {w : Bytes}
    (hw : Relayed (idleOf writer).framing (2 ^ 64) (reader.owed h S.last).body w) :
    Unfinished h (reader.owed h S.last).body w writer := by
  cases writer with
  | bodyless r =>
    have hle := hpaired.fills.admits 0 rfl
    have hbegins : w <+: (reader.owed h S.last).body := Relayed.plain_isPrefix hw
    exact List.length_eq_zero_iff.mp (by have := hbegins.length_le; omega)
  | cl r =>
    have hbegins : w <+: (reader.owed h S.last).body := Relayed.plain_isPrefix hw
    have hshort := hpaired.fills.short htail _ rfl
    have hle := hbegins.length_le
    exact ⟨hbegins, by omega⟩
  | chunked r =>
    obtain ⟨blocks, u, rest, hblocks, hbody, hlen⟩ := hw
    have hcut : encodeBody blocks .empty = w ++ (u ++ finishData .empty) := by
      rw [encodeBody, ← framing_blocks, ← List.append_assoc]
      exact congrArg (· ++ finishData .empty) hblocks.symm
    have hne : u ++ finishData .empty ≠ [] := by simp [finishData, ascii]
    refine ⟨⟨blocks, _, hcut.symm, hne, hlen, rest, hbody⟩, fun slots => ?_⟩
    exact decode_cut_encodeBody hsize hfields slots hlen (by decide) hcut hne
  | eof a r => exact Relayed.plain_isPrefix hw

/-- The wire of a run whose source is truncated. -/
theorem unfinished_of_behind (hsize : h.ChunkSizeLaws) (hfields : h.FieldSectionLaws)
    (hpaired : Paired S h reader writer) (htail : (reader.owed h S.last).tail = none) {s : Sink}
    (hs : BodyRelay.Behind medium (2 ^ 64) (idleOf writer) sink.wire
      (reader.owed h S.last).body s) :
    ∃ w, s.wire = sink.wire ++ w ∧ Unfinished h (reader.owed h S.last).body w writer := by
  obtain ⟨w, hwire, hrelayed⟩ := hs
  exact ⟨w, hwire, unfinished_of_relayed hsize hfields hpaired htail hrelayed⟩

/-- A forwarder that has failed fails to finish, and sends nothing. -/
theorem Side.finish_errored {relay : Relay (S.ends h)} (herr : relay.errored = true) {fuel : Nat}
    (hfuel : 1 ≤ fuel) :
    S.finish h fuel relay = (.err .forwardAfterError, relay.sender.medium) := by
  obtain ⟨fuel, rfl⟩ := Nat.exists_eq_add_of_le' hfuel
  rw [Side.finish, Run.forwardAll, Run.poll_errored Run.settled_of_none herr]
  rfl

include hsize hfields in
/-- A forwarder holds a truncated body back, and stops after an error. -/
theorem Side.holdsBack {α : Type} (hS : S.Lawful) (hpos : 1 ≤ chunkSize)
    (hword : chunkSize < 2 ^ 64) (hpaired : Paired S h reader writer) (acts : List Act)
    (g : Option ConnectionReader × Option Sink → Sink → α) :
    HoldsBack S h reader writer sink chunkSize acts
      fun fuel relay => andThen (S.finish h fuel relay) id fun out s => (.ok (g out s), s) := by
  have hsound : ((S.start h chunkSize reader writer sink).acts acts).2.Sound
      (S.task h reader writer sink) (S.Clear h reader sink) :=
    Side.acts_sound hS hsize hfields hpos hword hpaired.fills acts
  have hfinish : ∀ fuel, Meets (S.finish h fuel
      ((S.start h chunkSize reader writer sink).acts acts).2.relay)
      (S.finishPost h reader writer sink) :=
    Side.finish_meets hS hsize hfields hpos hword hpaired.fills acts
  obtain ⟨enough, henough⟩ : ∃ enough, ∀ fuel, enough ≤ fuel →
      (S.finish h fuel ((S.start h chunkSize reader writer sink).acts acts).2.relay).1 ≠
        .pending :=
    Side.finish_ready hS hsize hfields hpos hword hpaired.fills acts
  have hsettled : ((S.start h chunkSize reader writer sink).acts acts).2.Settled :=
    Run.acts_settled Run.settled_of_none acts
  refine ⟨?_, ?_⟩
  · intro htail
    have hunfinished : ∀ s, BodyRelay.Behind medium (2 ^ 64) (idleOf writer) sink.wire
        (reader.owed h S.last).body s → ∃ w, s.wire = sink.wire ++ w ∧
          Unfinished h (reader.owed h S.last).body w writer :=
      fun s => unfinished_of_behind hsize hfields hpaired htail
    -- a body without an end is never finished, and every other answer leaves it unfinished
    have hheld : ∀ fuel, Meets (andThen (S.finish h fuel
        ((S.start h chunkSize reader writer sink).acts acts).2.relay) id
          fun out s => (.ok (g out s), s)) {
          pending := fun s => ∃ w, s.wire = sink.wire ++ w ∧
            Unfinished h (reader.owed h S.last).body w writer
          ok := fun _ _ => False
          err := fun _ s => ∃ w, s.wire = sink.wire ++ w ∧
            Unfinished h (reader.owed h S.last).body w writer } := by
      intro fuel
      refine (hfinish fuel).andThen hunfinished (fun e s he => hunfinished s (he.2 htail)) ?_
      rintro out s ⟨t, -, ht, -⟩
      rw [htail] at ht
      cases ht
    constructor
    case before => exact hunfinished _ hsound.behind
    case during =>
      intro fuel
      exact (hheld fuel).state (fun _ hs => hs) (fun _ _ hfalse => hfalse.elim) fun _ _ hs => hs
    case never_ok =>
      intro fuel out
      exact (hheld fuel).ne_ok fun _ hfalse => hfalse
    case fails =>
      refine ⟨enough, fun fuel hle => ?_⟩
      apply (hheld fuel).err_of_ready fun _ _ hfalse => hfalse
      rw [andThen_value]
      intro hpending
      exact henough fuel hle (Polled.bind_ok_eq_pending.mp hpending)
  · intro e he
    have herr : ((S.start h chunkSize reader writer sink).acts acts).2.relay.errored = true :=
      Run.errored_of_mem Run.settled_of_none acts he
    refine ⟨fun more => ?_, fun fuel hfuel => ?_⟩
    · obtain ⟨hanswers, hrelay⟩ := Run.acts_errored hsettled herr more
      exact ⟨hanswers, by rw [hrelay]⟩
    · simp only [Side.finish_errored herr hfuel, andThen_err, id]

end Truncated

/-- A truncated source is never relayed as a complete message, and nothing is written
    after an error: for both directions, every reader of a new body and any calls, polled
    or dropped. -/
theorem truncated_never_delivers (hsize : h.ChunkSizeLaws) (hfields : h.FieldSectionLaws)
    {chunkSize : Nat} (hpos : 1 ≤ chunkSize) (hword : chunkSize < 2 ^ 64) (sink : Sink)
    (acts : List Act) :
    (∀ reader : FrontendBodyReader, reader.Fresh →
      HoldsBack requestSide h reader (requestWriter reader) sink chunkSize acts
        (RequestBodyForwarder.finish h)) ∧
    ∀ (clientCannotChunk : Bool) (reader : BackendBodyReader), reader.Fresh →
      HoldsBack responseSide h reader (responseWriter clientCannotChunk reader) sink chunkSize
        acts (ResponseBodyForwarder.finish h) := by
  refine ⟨?_, ?_⟩
  · intro reader hfresh
    exact Side.holdsBack hsize hfields requestSide_lawful hpos hword (request_paired hfresh) acts _
  · intro clientCannotChunk reader hfresh
    exact Side.holdsBack hsize hfields responseSide_lawful hpos hword
      (response_paired clientCannotChunk hfresh) acts _

/-- A declared length that the source does not reach, and a chunked body that stops in its
    last chunk. -/
def shortRequest : FrontendBodyReader :=
  .cl (.new 6 ⟨⟨[.data 87 (ascii "iki"), .pending]⟩, .default⟩ ⟨4⟩) true

def cutResponse : BackendBodyReader :=
  .te (.new ⟨⟨[.data 52 (ascii "\r\nWiki\r\n0\r\n"), .error (.other 104)]⟩, .default⟩ ⟨4⟩ 64 64) true

/-- Calls on to the error and one more. -/
def callsToError : List Act := droppedCalls ++ List.replicate 12 .poll

theorem truncated_never_delivers_cut :
    (shortRequest.owed reference requestSide.last).tail = none ∧
      (∃ e, .err e ∈ ((requestSide.start reference 3 shortRequest (requestWriter shortRequest)
        slowSink).acts callsToError).1) ∧
      HoldsBack requestSide reference shortRequest (requestWriter shortRequest) slowSink 3
        callsToError (RequestBodyForwarder.finish reference) ∧
      (cutResponse.owed reference responseSide.last).tail = none ∧
      HoldsBack responseSide reference cutResponse (responseWriter false cutResponse) slowSink 3
        callsToError (ResponseBodyForwarder.finish reference) := by
  have hholds := @truncated_never_delivers reference chunkSizeLaws fieldSectionLaws 3 (by decide)
    (by decide) slowSink callsToError
  have herr : .err (.ofFrontendError (.bodyReadError .unexpectedEOF)) ∈
      ((requestSide.start reference 3 shortRequest (requestWriter shortRequest)
        slowSink).acts callsToError).1 := by decide +kernel
  refine ⟨by decide +kernel, ⟨_, herr⟩, hholds.1 shortRequest ⟨rfl, by decide⟩, ?_,
    hholds.2 false cutResponse ⟨_, _, _, _, rfl⟩⟩
  exact Option.isNone_iff_eq_none.mp (by decide +kernel)

end Jrpxy.Proxy
