/-
  Jrpxy.Proxy.Chain

  Proxies behind proxies.

  What one proxy puts on its backend's connection the next one takes off its
  client's, and what that puts on it the first one takes off again.  Messages
  are read in one way (`Messages`), so each link of a chain passes on what the
  other was given, and the whole chain passes a request and its answer on like
  one exchange would (`chain_transcribed`).
-/
import Mathlib.Logic.Relation
import Jrpxy.Proxy.Messages
import Jrpxy.Proxy.Progress

namespace Jrpxy.Proxy

open Poll BodyRelay BlockWriter ChunkedCoding Ascii Util HttpMessage
open Body Body.Reader Body.Writer Frontend Backend

open Httparse.Reference (reference chunkSizeLaws fieldSectionLaws requestLaws responseLaws
  responseHeadLaws writtenResponseLaws)

variable {h : Httparse}

/-! ## Heads that are written -/

/-- The parts of a response head that is read again when it is written. -/
structure WritableResponse (n code : Nat) (reason : Bytes) (fields : List Field) : Prop where
  low : 100 ≤ code
  high : code ≤ 999
  validReason : isValidFieldValue reason = true
  asciiReason : reason.all (· < 128) = true
  validFields : Headers.Valid ⟨fields⟩
  few : fields.length ≤ n

/-- Such a head is read as what was written. -/
theorem WritableResponse.isHead (laws : h.ResponseLaws) (written : h.WrittenResponseLaws)
    {n code : Nat} {reason : Bytes} {fields : List Field} {slots : ParseSlots}
    (hwritable : WritableResponse n code reason fields) (hslots : n ≤ slots.slotCount) :
    Backend.IsHead h slots (responseHead code reason fields)
      ⟨.http11, code, reason, ⟨fields.map readBack⟩⟩ :=
  Backend.isHead_written laws written hwritable.low hwritable.high hwritable.validReason
    hwritable.asciiReason hwritable.validFields (Nat.le_trans hwritable.few hslots)

/-- A reason phrase that is returned has no obs-text. -/
theorem ascii_of_asciiReason {s phrase : Bytes} (hreason : Httparse.asciiReason s = some phrase) :
    phrase.all (· < 128) = true := by
  unfold Httparse.asciiReason at hreason
  split at hreason
  · split at hreason
    · next hall =>
      cases hreason
      exact hall
    · cases hreason
  · cases hreason

/-- The code and the reason phrase of a response that was read can be written, if the code
    has three digits; with any valid fields. -/
theorem writable_of_isHead (laws : h.ResponseLaws) (headLaws : h.ResponseHeadLaws)
    {slots : ParseSlots} {head : Bytes} {res : Response} (hhead : Backend.IsHead h slots head res)
    (hlow : 100 ≤ res.code) {n : Nat} {fields : List Field} (hvalid : Headers.Valid ⟨fields⟩)
    (hfew : fields.length ≤ n) : WritableResponse n res.code res.reason fields := by
  have hascii := ascii_of_asciiReason (hhead.reason laws)
  obtain ⟨p, version, hp, -, -, rfl⟩ := hhead.parts laws
  obtain ⟨hhigh, hreason, -⟩ := headLaws.sound hp
  have hhigh : p.code ≤ 999 := Nat.le_of_lt_succ hhigh
  exact ⟨hlow, hhigh, hreason, hascii, hvalid, hfew⟩

/-- The proxy's fields are valid beside valid ones. -/
theorem withProxyHeaders_valid {pending : PendingFrontendResponse} {res : Response}
    (hvalid : res.headers.Valid) : (pending.withProxyHeaders res).headers.Valid := by
  intro f hf
  rcases List.mem_append.mp hf with hf | hf
  · exact hvalid f hf
  · obtain rfl := List.mem_singleton.mp hf
    exact ⟨(by decide +kernel : isValidFieldName (ascii "Via") = true),
      isValidFieldValue_viaField res.version pending.options.valid⟩

theorem withResponseHeaders_valid {pending : PendingFrontendResponse} {now : Bytes} {res : Response}
    (hvalid : res.headers.Valid) (hnow : isValidFieldValue now = true) :
    (pending.withResponseHeaders now res).headers.Valid := by
  have hvia : (pending.withProxyHeaders res).headers.Valid := withProxyHeaders_valid hvalid
  show (insertDateHeaderIfAbsent now (pending.withProxyHeaders res).headers).Valid
  unfold insertDateHeaderIfAbsent
  split
  · exact hvia
  · intro f hf
    rcases List.mem_append.mp hf with hf | hf
    · exact hvia f hf
    · obtain rfl := List.mem_singleton.mp hf
      exact ⟨(by decide +kernel : isValidFieldName (ascii "Date") = true), hnow⟩

/-- An interim response that the caller made of few valid fields can be read again. -/
theorem RelayedInterim.writable (laws : h.ResponseLaws) (headLaws : h.ResponseHeadLaws) {n : Nat}
    {slots : ParseSlots} {pending : PendingFrontendResponse} {i : RelayedInterim}
    (hwhole : i.Whole h slots)
    (hmade : i.MadeBy (fun headers => headers.Valid ∧ headers.headers.length < n) pending) :
    WritableResponse n i.received.code i.received.reason i.fields := by
  obtain ⟨headers, ⟨hvalid, hfew⟩, hfields⟩ := hmade
  refine writable_of_isHead laws headLaws hwhole.isHead hwhole.code.1 ?_ ?_
  · rw [hfields]
    exact Frontend.writtenFields_valid (withProxyHeaders_valid hvalid) _
  · rw [hfields, Frontend.writtenFields, framingFields, List.append_nil]
    refine Nat.le_trans (List.length_filter_le _ _) ?_
    show (headers.headers ++ [_]).length ≤ n
    rw [List.length_append]
    exact hfew

/-- Two streams of interim responses and a final one are one, if they are read off the same
    connection. -/
theorem responses_unique (laws : h.ResponseLaws) (headLaws : h.ResponseHeadLaws)
    {slots : ParseSlots} {head head' rest rest' : Bytes} {res res' : Response}
    (hhead : Backend.IsHead h slots head res) (hcode : ¬ (100 ≤ res.code ∧ res.code ≤ 199))
    (hhead' : Backend.IsHead h slots head' res') (hcode' : ¬ (100 ≤ res'.code ∧ res'.code ≤ 199))
    {as bs : List (Bytes × Response)}
    (has : ∀ a ∈ as, Backend.IsHead h slots a.1 a.2 ∧ 100 ≤ a.2.code ∧ a.2.code ≤ 199)
    (hbs : ∀ b ∈ bs, Backend.IsHead h slots b.1 b.2 ∧ 100 ≤ b.2.code ∧ b.2.code ≤ 199)
    (hsame : as.flatMap Prod.fst ++ (head ++ rest) = bs.flatMap Prod.fst ++ (head' ++ rest')) :
    as = bs ∧ head = head' ∧ res = res' ∧ rest = rest' := by
  induction as generalizing bs with
  | nil =>
    cases bs with
    | nil =>
      obtain ⟨rfl, rfl⟩ := hhead.unique laws headLaws hhead' hsame
      exact ⟨rfl, rfl, rfl, List.append_cancel_left hsame⟩
    -- a final response is no interim one
    | cons b bs =>
      obtain ⟨hb, hinterim⟩ := hbs b List.mem_cons_self
      rw [List.flatMap_cons, List.append_assoc] at hsame
      obtain ⟨-, rfl⟩ := hhead.unique laws headLaws hb hsame
      exact absurd hinterim hcode
  | cons a as ih =>
    obtain ⟨ha, hinterim⟩ := has a List.mem_cons_self
    rw [List.flatMap_cons, List.append_assoc] at hsame
    cases bs with
    | nil =>
      obtain ⟨-, rfl⟩ := ha.unique laws headLaws hhead' hsame
      exact absurd hinterim hcode'
    | cons b bs =>
      obtain ⟨hb, -⟩ := hbs b List.mem_cons_self
      rw [List.flatMap_cons, List.append_assoc] at hsame
      obtain ⟨hfst, hsnd⟩ := ha.unique laws headLaws hb hsame
      rw [hfst] at hsame
      obtain ⟨rfl, hrest⟩ := ih (fun x hx => has x (List.mem_cons_of_mem a hx))
        (fun x hx => hbs x (List.mem_cons_of_mem b hx)) (List.append_cancel_left hsame)
      obtain rfl : a = b := Prod.ext hfst hsnd
      exact ⟨rfl, hrest⟩

/-! ## Messages that are passed on twice -/

/-- The end of a request body is announced. -/
theorem requestBodyLength_ne_untilClose (fs : List Field) : requestBodyLength fs ≠ .untilClose := by
  unfold requestBodyLength framedLength
  intro hlength
  split at hlength
  · split at hlength <;> cases hlength
  · split at hlength
    · cases hlength
    · split at hlength <;> cases hlength

theorem sanitizeTrailers_idem (trailers : Headers) :
    sanitizeTrailers (sanitizeTrailers trailers) = sanitizeTrailers trailers := by
  simp only [sanitizeTrailers, Headers.retain, List.filter_filter, Bool.and_self]

/-- Trailers that are sent on are sanitized once. -/
theorem trailersFor_trailersFor (trailers : Headers) {length length' : BodyLength}
    (hchunked : length' = .chunked → length = .chunked) :
    trailersFor (trailersFor trailers length) length' = trailersFor trailers length' := by
  cases length' with
  | chunked =>
    rw [hchunked rfl]
    exact sanitizeTrailers_idem trailers
  | none => rfl
  | length n => rfl
  | untilClose => rfl
  | invalid => rfl

/-- What is put on a connection by one and taken off it by another is passed on by both, if
    the head is found by the one that takes it off, in the framing it was written in. -/
theorem PassedOn.trans (hsize : h.ChunkSizeLaws) (hfields : h.FieldSectionLaws)
    {IsHead IsHead' : Bytes → Prop} {length length₁ length₂ : BodyLength}
    {head₁ head₂ taken put taken' put' rest rest' : Bytes}
    (hfirst : PassedOn h IsHead length head₁ length₁ taken put)
    (hsecond : PassedOn h IsHead' length₁ head₂ length₂ taken' put')
    (hsame : put ++ rest = taken' ++ rest')
    (hunique : ∀ head' s s', IsHead' head' → head₁ ++ s = head' ++ s' → head₁ = head')
    (hends : length₁ ≠ .untilClose) (hchunked : length₂ = .chunked → length₁ = .chunked) :
    PassedOn h IsHead length head₂ length₂ taken put' := by
  obtain ⟨head, body, newBody, content, trailers, ⟨htaken, hhead, hbody⟩, rfl, hnew⟩ := hfirst
  obtain ⟨head', body', newBody', content', trailers', ⟨rfl, hhead', hbody'⟩, hput, hnew'⟩ :=
    hsecond
  rw [List.append_assoc, List.append_assoc] at hsame
  obtain rfl := hunique head' _ _ hhead' hsame
  obtain ⟨rfl, rfl, rfl⟩ :=
    hnew.front_unique hsize hfields hbody' (List.append_cancel_left hsame) hends
  rw [trailersFor_trailersFor trailers hchunked] at hnew'
  exact ⟨head, body, newBody', content, trailers, ⟨htaken, hhead, hbody⟩, hput, hnew'⟩

/-- An interim response that is relayed twice, and the fields it has then. -/
def RelayedInterim.through (i j : RelayedInterim) : RelayedInterim := ⟨i.head, i.received, j.fields⟩

/-- An interim response, as it is read again when it was relayed. -/
def RelayedInterim.readAgain (i : RelayedInterim) : Bytes × Response :=
  (i.sent, ⟨.http11, i.received.code, i.received.reason, ⟨i.fields.map readBack⟩⟩)

/-- The interim responses that one relays and another one takes are the same, by induction. -/
theorem interims_through {as bs : List RelayedInterim}
    (hsame : bs.map (fun b => (b.head, b.received)) = as.map RelayedInterim.readAgain) :
    (as.zipWith RelayedInterim.through bs).flatMap RelayedInterim.head =
        as.flatMap RelayedInterim.head ∧
      (as.zipWith RelayedInterim.through bs).flatMap RelayedInterim.sent =
        bs.flatMap RelayedInterim.sent ∧
      ∀ i ∈ as.zipWith RelayedInterim.through bs, ∃ a ∈ as, ∃ b ∈ bs, i = a.through b ∧
        b.received.code = a.received.code ∧ b.received.reason = a.received.reason := by
  induction as generalizing bs with
  | nil =>
    obtain rfl : bs = [] := List.map_eq_nil_iff.mp hsame
    exact ⟨rfl, rfl, by simp⟩
  | cons a as ih =>
    cases bs with
    | nil => cases hsame
    | cons b bs =>
      obtain ⟨hb, hrest⟩ := List.cons.inj hsame
      obtain ⟨hheads, hsent, hmem⟩ := ih hrest
      have hcode : b.received.code = a.received.code :=
        congrArg (fun p : Bytes × Response => p.2.code) hb
      have hreason : b.received.reason = a.received.reason :=
        congrArg (fun p : Bytes × Response => p.2.reason) hb
      have hthrough : (a.through b).sent = b.sent := by
        rw [RelayedInterim.sent, RelayedInterim.sent, hcode, hreason]
        rfl
      refine ⟨?_, ?_, ?_⟩
      · rw [List.zipWith_cons_cons, List.flatMap_cons, hheads]
        rfl
      · rw [List.zipWith_cons_cons, List.flatMap_cons, hsent, hthrough]
        rfl
      · intro i hi
        rw [List.zipWith_cons_cons] at hi
        rcases List.mem_cons.mp hi with rfl | hi
        · exact ⟨a, List.mem_cons_self, b, List.mem_cons_self, rfl, hcode, hreason⟩
        · obtain ⟨a', ha, b', hb', heq⟩ := hmem i hi
          exact ⟨a', List.mem_cons_of_mem a ha, b', List.mem_cons_of_mem b hb', heq⟩

/-! ## Exchanges that are wired up -/

namespace Exchange

/-- What the exchange has put on the connection of its backend. -/
def onBackend (x : Exchange h) : Bytes :=
  x.backendSink.wire.drop x.backendWriter.writer.wire.length

/-- What it has put on the connection of its client. -/
def onFrontend (x : Exchange h) : Bytes :=
  x.frontendSink.wire.drop x.frontendWriter.writer.wire.length

/-- The caller makes valid messages of what comes, of not more than `n` fields. -/
structure Careful (n : Nat) (x : Exchange h) : Prop where
  pos : 1 ≤ x.options.bodyChunkSize
  target : h.IsTarget x.path
  request : x.requestHeaders.Valid
  interims : ForwardsWith (fun headers => headers.Valid ∧ headers.headers.length < n) x.stream
    x.forwarder
  response : x.responseHeaders.Valid
  now : isValidFieldValue x.now = true
  fewForwarded : x.forwardedFields.length ≤ n
  fewSent : x.sentFields.length ≤ n

/-- The framing of a forwarded request is read as it was written. -/
theorem forwardedFields_readBack (x : Exchange h) :
    requestBodyLength (x.forwardedFields.map readBack) = requestBodyLength x.forwardedFields := by
  let self := x.proxyRequest.intoBackendRequest.edit x.path x.requestHeaders
  have hothers : ∀ f ∈ self.request.headers.iter.filter fun f => !isFramingHeader f.1,
      isFramingHeader f.1 = false := by
    intro f hf
    simpa using (List.mem_filter.mp hf).2
  show requestBodyLength ((Backend.writtenFields self.request _).map readBack) =
    requestBodyLength (Backend.writtenFields self.request _)
  rw [requestBodyLength, requestBodyLength, Backend.writtenFields, List.map_append,
    readBack_framingFields, framedLength_written _ _ hothers, framedLength_written]
  intro f hf
  obtain ⟨g, hg, rfl⟩ := List.mem_map.mp hf
  exact hothers g hg

/-- The framing of a response that is sent is read as it was written. -/
theorem sentFields_readBack (laws : h.ResponseLaws) (headLaws : h.ResponseHeadLaws)
    (x : Exchange h) : responseBodyLength x.isHead x.received.code (x.sentFields.map readBack) =
      responseBodyLength x.isHead x.received.code x.sentFields := by
  obtain ⟨-, interims, head, rest, hfinal, -⟩ := x.forwarded laws headLaws x.forwardsToFinal
  obtain ⟨hwritten, hread⟩ := x.sentFields_bodyLength hfinal
  exact hread.trans hwritten.symm

variable {n : Nat} {x : Exchange h}

/-- A careful exchange has a transcript, and its interim responses can be read again. -/
theorem Careful.transcribed (hsize : h.ChunkSizeLaws) (hfields : h.FieldSectionLaws)
    (requestLaws : h.RequestLaws) (laws : h.ResponseLaws) (headLaws : h.ResponseHeadLaws)
    (hcareful : x.Careful n) : ∃ t, Transcribes x x t ∧
      ∀ i ∈ t.interims, WritableResponse n i.received.code i.received.reason i.fields := by
  obtain ⟨hforwarded, interims, head, rest, hfinal, hmade⟩ :=
    x.forwarded laws headLaws hcareful.interims
  obtain ⟨t, ht, hinterims⟩ :=
    x.transcribed_of_final hsize hfields requestLaws hcareful.pos hforwarded hfinal
  refine ⟨t, ht, ?_⟩
  rw [hinterims]
  exact fun i hi => RelayedInterim.writable laws headLaws (hfinal.whole i hi) (hmade i hi)

/-- The head a careful exchange forwards is read as what was written. -/
theorem Careful.isHead_forwarded (requestLaws : h.RequestLaws) (hcareful : x.Careful n)
    {slots : ParseSlots} (hslots : n ≤ slots.slotCount) :
    Frontend.IsHead h slots
      (Httparse.requestHead x.request.req.method x.path (ascii "HTTP/1.1") x.forwardedFields)
      ⟨x.request.req.method, x.path, .http11, ⟨x.forwardedFields.map readBack⟩⟩ := by
  obtain ⟨hwf, -⟩ := Frontend.read_ok requestLaws x.read
  exact Frontend.isHead_written requestLaws hwf.method hcareful.target
    (Backend.writtenFields_valid hcareful.request _)
    (Nat.le_trans hcareful.fewForwarded hslots)

/-- The fields a careful exchange sends can be read again. -/
theorem Careful.sentFields_valid (hcareful : x.Careful n) : Headers.Valid ⟨x.sentFields⟩ :=
  Frontend.writtenFields_valid (withResponseHeaders_valid hcareful.response hcareful.now) _

end Exchange

/-- What a careful exchange puts on its backend's connection is what the next one takes off
    its client's, and the other way round; and either has slots for the fields. -/
structure Link (n : Nat) (x y : Exchange h) : Prop where
  careful : x.Careful n
  forwarded : x.onBackend <+: y.frontendReader.reader.unread
  answered : y.onFrontend <+: x.backendReader.reader.unread
  frontendSlots : n ≤ y.frontendReader.parseSlots.slotCount
  backendSlots : n ≤ x.backendReader.parseSlots.slotCount

section Linked

variable {n : Nat} {x y z : Exchange h} {t t' : Transcript}

/-- The next exchange is asked what this one asks. -/
theorem Link.request (requestLaws : h.RequestLaws) (hlink : Link n x y) (ht : Transcribes x x t)
    (ht' : Transcribes y z t') :
    (∃ rest rest', t.forwarded ++ rest = t'.asked ++ rest') ∧
      y.request.req =
        ⟨x.request.req.method, x.path, .http11, ⟨x.forwardedFields.map readBack⟩⟩ := by
  obtain ⟨rest', hunread, -⟩ := ht'.frontendReader
  obtain ⟨rest, hforwarded⟩ := hlink.forwarded
  have hput : x.onBackend = t.forwarded := by
    rw [Exchange.onBackend, ht.backendSink, List.drop_left]
  rw [hput, hunread] at hforwarded
  refine ⟨⟨rest, rest', hforwarded⟩, ?_⟩
  obtain ⟨-, -, newBody, content, trailers, -, hput', -⟩ := ht.request
  obtain ⟨head, body, -, content', trailers', ⟨htaken, hhead, -⟩, -⟩ := ht'.request
  rw [hput', htaken, List.append_assoc, List.append_assoc] at hforwarded
  exact ((hlink.careful.isHead_forwarded requestLaws hlink.frontendSlots).unique requestLaws hhead
    hforwarded).2.symm

/-- This exchange is answered what the next one answers. -/
theorem Link.response (laws : h.ResponseLaws) (headLaws : h.ResponseHeadLaws)
    (written : h.WrittenResponseLaws) (hlink : Link n x y) (hcareful : y.Careful n)
    (hcode : 100 ≤ z.received.code) (ht : Transcribes x x t) (ht' : Transcribes y z t')
    (hwritable : ∀ i ∈ t'.interims, WritableResponse n i.received.code i.received.reason i.fields)
    {head body newBody : Bytes}
    (hhead : Backend.IsHead h x.backendReader.parseSlots head x.received)
    (hanswered : t.answered = t.interims.flatMap RelayedInterim.head ++ (head ++ body))
    (hrelayed : t'.relayed = t'.interims.flatMap RelayedInterim.sent ++
      (responseHead z.received.code z.received.reason y.sentFields ++ newBody)) :
    t.interims.map (fun i => (i.head, i.received)) = t'.interims.map RelayedInterim.readAgain ∧
      x.received = ⟨.http11, z.received.code, z.received.reason, ⟨y.sentFields.map readBack⟩⟩ ∧
      head = responseHead z.received.code z.received.reason y.sentFields ∧
      ∃ rest rest', newBody ++ rest = body ++ rest' := by
  obtain ⟨rest', hunread, -⟩ := ht.backendReader
  obtain ⟨rest, hsame⟩ := hlink.answered
  have hput : y.onFrontend = t'.relayed := by
    rw [Exchange.onFrontend, ht'.frontendSink, List.drop_left]
  rw [hput, hunread, hanswered, hrelayed] at hsame
  -- the final head that was written, and those of the interim responses
  obtain ⟨final, sent, -, -, head', body', -, content, trailers, ⟨-, hfinalHead, -⟩, -⟩ :=
    ht'.response
  have hsent : Backend.IsHead h x.backendReader.parseSlots
      (responseHead z.received.code z.received.reason y.sentFields)
      ⟨.http11, z.received.code, z.received.reason, ⟨y.sentFields.map readBack⟩⟩ :=
    (writable_of_isHead laws headLaws hfinalHead hcode hcareful.sentFields_valid
      hcareful.fewSent).isHead laws written hlink.backendSlots
  have hinterims : ∀ p ∈ t.interims.map (fun i => (i.head, i.received)),
      Backend.IsHead h x.backendReader.parseSlots p.1 p.2 ∧ 100 ≤ p.2.code ∧ p.2.code ≤ 199 := by
    intro p hp
    obtain ⟨i, hi, rfl⟩ := List.mem_map.mp hp
    exact ⟨(ht.whole i hi).isHead, (ht.whole i hi).code⟩
  have hinterims' : ∀ p ∈ t'.interims.map RelayedInterim.readAgain,
      Backend.IsHead h x.backendReader.parseSlots p.1 p.2 ∧ 100 ≤ p.2.code ∧ p.2.code ≤ 199 := by
    intro p hp
    obtain ⟨i, hi, rfl⟩ := List.mem_map.mp hp
    exact ⟨(hwritable i hi).isHead laws written hlink.backendSlots, (ht'.whole i hi).code⟩
  have hstream : (t.interims.map fun i => (i.head, i.received)).flatMap Prod.fst ++
      (head ++ (body ++ rest')) =
      (t'.interims.map RelayedInterim.readAgain).flatMap Prod.fst ++
        (responseHead z.received.code z.received.reason y.sentFields ++ (newBody ++ rest)) := by
    rw [List.flatMap_map, List.flatMap_map]
    simp only [List.append_assoc] at hsame
    exact hsame.symm
  obtain ⟨hsameInterims, hsameHead, hsameResponse, hsameBody⟩ :=
    responses_unique laws headLaws hhead ht.final hsent ht'.final hinterims hinterims' hstream
  exact ⟨hsameInterims, hsameResponse, hsameHead, rest, rest', hsameBody.symm⟩

/-- One more link: what a chain passes on, it passes on behind one more exchange too. -/
theorem Link.transcribes (hsize : h.ChunkSizeLaws) (hfields : h.FieldSectionLaws)
    (requestLaws : h.RequestLaws) (laws : h.ResponseLaws) (headLaws : h.ResponseHeadLaws)
    (written : h.WrittenResponseLaws) (hlink : Link n x y) (hcareful : y.Careful n)
    (hcode : 100 ≤ z.received.code) (ht : Transcribes x x t) (ht' : Transcribes y z t')
    (hwritable : ∀ i ∈ t.interims, WritableResponse n i.received.code i.received.reason i.fields)
    (hwritable' : ∀ i ∈ t'.interims,
      WritableResponse n i.received.code i.received.reason i.fields) :
    ∃ t, Transcribes x z t ∧
      ∀ i ∈ t.interims, WritableResponse n i.received.code i.received.reason i.fields := by
  obtain ⟨⟨rest, rest', hforwarded⟩, hreq⟩ := hlink.request requestLaws ht ht'
  have hmethod : y.request.req.method = x.request.req.method := by rw [hreq]
  have hversion : y.request.req.version = .http11 := by rw [hreq]
  have hisHead : y.isHead = x.isHead := by rw [Exchange.isHead, hmethod, Exchange.isHead]
  have hrequestLength : requestBodyLength y.request.req.headers.headers =
      requestBodyLength x.forwardedFields := by
    rw [hreq]
    exact x.forwardedFields_readBack
  -- the answer that `y` sent is the one that `x` has
  obtain ⟨final, sent, hanswered, hrelayed, hpassed⟩ := ht.response
  obtain ⟨final', sent', hanswered', hrelayed', hpassed'⟩ := ht'.response
  rw [if_pos hversion] at hrelayed'
  obtain ⟨head, body, -, content, trailers, ⟨hfinal, hhead, -⟩, -⟩ := id hpassed
  obtain ⟨-, -, newBody, content', trailers', -, hsent, -⟩ := id hpassed'
  obtain ⟨hinterims, hreceived, rfl, r, r', hbodies⟩ := hlink.response laws headLaws written
    hcareful hcode ht ht' hwritable' hhead (hfinal ▸ hanswered) (hsent ▸ hrelayed')
  have hsameCode : x.received.code = z.received.code := by rw [hreceived]
  have hsameReason : x.received.reason = z.received.reason := by rw [hreceived]
  have hresponseLength :
      responseBodyLength x.isHead x.received.code x.received.headers.headers =
        responseBodyLength x.isHead z.received.code y.sentFields := by
    have hreadBack := y.sentFields_readBack laws headLaws
    rw [ht'.sameCode, hisHead] at hreadBack
    rw [← hreadBack, hreceived]
  obtain ⟨hdelimited, hunsized⟩ := And.intro (ht'.delimited hversion) ht'.unsized
  rw [hisHead] at hdelimited hunsized hpassed'
  rw [hresponseLength, hsameCode, hsameReason] at hpassed
  -- `y` has a client that knows chunks, so what `x` sends in chunks it sent in chunks
  have hchunked : responseBodyLength x.isHead z.received.code x.sentFields = .chunked →
      responseBodyLength x.isHead z.received.code y.sentFields = .chunked := by
    intro hchunked
    rw [← hsameCode] at hchunked
    have hmem := ht.unsized hchunked
    rw [hresponseLength] at hmem
    simpa [hdelimited] using hmem
  obtain ⟨hheads, hsentHeads, hmem⟩ := interims_through hinterims
  refine ⟨⟨t.asked, t'.forwarded, t'.answered, t.relayed,
    t'.interims.zipWith RelayedInterim.through t.interims⟩, ⟨?_, ht'.sameMethod.trans hmethod,
      ht'.sameLength.trans (hrequestLength.trans ht.sameLength), ⟨final', sent, ?_, ?_, ?_⟩,
      hsameCode, hsameReason, ?_, ht'.final, ?_, ?_, ht.frontendReader, ht'.backendReader,
      ht'.backendSink, ht.frontendSink, ht'.backendWriter, ht.frontendWriter⟩, ?_⟩
  -- the request
  · have hrequest := ht'.request
    rw [hrequestLength, hmethod] at hrequest
    refine ht.request.trans hsize hfields hrequest hforwarded ?_
      (requestBodyLength_ne_untilClose _) ?_
    · intro head' s s' hhead' hsame
      exact ((hlink.careful.isHead_forwarded requestLaws hlink.frontendSlots).unique requestLaws
        hhead' hsame).1
    · rw [ht'.sameLength, hrequestLength]
      exact id
  -- the interim responses, and the final one
  · rw [hheads]
    exact hanswered'
  · rw [hsentHeads]
    exact hrelayed
  · have hstream : sent' ++ r = final ++ r' := by
      rw [hsent, hfinal, List.append_assoc, hbodies, List.append_assoc]
    refine hpassed'.trans hsize hfields hpassed hstream ?_ hdelimited hchunked
    intro head' s s' hhead' hsame
    exact (hhead.unique laws headLaws hhead' hsame).1
  · intro i hi
    obtain ⟨a, ha, b, hb, rfl, -, -⟩ := hmem i hi
    exact ⟨(ht'.whole a ha).isHead, (ht'.whole a ha).code, (ht.whole b hb).unframed⟩
  · intro hclient
    rw [← hsameCode]
    exact ht.delimited hclient
  · exact fun hlength => hunsized (hchunked hlength)
  · intro i hi
    obtain ⟨a, ha, b, hb, rfl, hcode, hreason⟩ := hmem i hi
    have hb := hwritable b hb
    rw [hcode, hreason] at hb
    exact hb

/-- A chain of proxies passes one request and its answer on like one exchange: whatever the
    framings the bodies have on the way, and however the connections between the proxies
    deliver bytes, the origin gets the content the client sent, and the client that of the
    origin's answer, behind the same interim responses. -/
theorem chain_transcribed (hsize : h.ChunkSizeLaws) (hfields : h.FieldSectionLaws)
    (requestLaws : h.RequestLaws) (laws : h.ResponseLaws) (headLaws : h.ResponseHeadLaws)
    (written : h.WrittenResponseLaws) (hchain : Relation.ReflTransGen (Link n) x z)
    (hcareful : z.Careful n) (hcode : 100 ≤ z.received.code) : ∃ t, Transcribes x z t := by
  have hall : x.Careful n ∧ ∃ t, Transcribes x z t ∧
      ∀ i ∈ t.interims, WritableResponse n i.received.code i.received.reason i.fields := by
    -- from the origin to the client, one link after the other
    induction hchain using Relation.ReflTransGen.head_induction_on with
    | refl =>
      exact ⟨hcareful, hcareful.transcribed hsize hfields requestLaws laws headLaws⟩
    | head hlink hrest ih =>
      obtain ⟨hnext, t', ht', hwritable'⟩ := ih
      obtain ⟨t, ht, hwritable⟩ :=
        hlink.careful.transcribed hsize hfields requestLaws laws headLaws
      exact ⟨hlink.careful, hlink.transcribes hsize hfields requestLaws laws headLaws written hnext
        hcode ht ht' hwritable hwritable'⟩
  obtain ⟨-, t, ht, -⟩ := hall
  exact ⟨t, ht⟩

end Linked

/-! ## Two proxies -/

/-- The proxy that the origin is behind: its client sends in two parts, and the origin answers in
    chunks. -/
def farCaller : Caller := { keptCaller with
  frontendReader := ⟨⟨⟨[.data 80 (ascii "UT /b HTTP/1.1\r\nHost: b\r\ncontent-le"), .pending,
    .data 110 (ascii "gth: 3\r\n\r\nabc")]⟩, .default⟩, ⟨4⟩⟩
  backendReader := ⟨⟨⟨[
    .data 72 (ascii "TTP/1.1 200 OK\r\nTransfer-Encoding: chunked\r\n\r\n2\r\nh"), .pending,
    .data 105 (ascii "\r\n0\r\nA: 1\r\n\r\n")]⟩, .default⟩, ⟨4⟩⟩
  path := ascii "/c"
  more := [] }

theorem farCaller_isSome : (farCaller.run reference 60).isSome = true := by decide +kernel

def farExchange : Exchange reference := (farCaller.run reference 60).get farCaller_isSome

/-- What it puts on its client's connection. -/
def farAnswer : Bytes :=
  ascii "HTTP/1.1 200 OK\r\nEtag: x\r\nVia: 1.1 jrpxy\r\nDate: now\r\n" ++
    ascii "transfer-encoding: chunked\r\n\r\n1\r\nh\r\n1\r\ni\r\n0\r\nA: 1\r\n\r\n"

/-- The proxy before it, which takes that off its backend's. -/
def nearCaller : Caller := { keptCaller with
  backendReader := ⟨⟨⟨[.data 72 (farAnswer.drop 1)]⟩, .default⟩, ⟨4⟩⟩
  more := [] }

theorem nearCaller_isSome : (nearCaller.run reference 60).isSome = true := by decide +kernel

def nearExchange : Exchange reference := (nearCaller.run reference 60).get nearCaller_isSome

/-- A stream without interim responses is at its final one. -/
theorem forwardsWith_of_final {P : Headers → Prop} {stream : BackendProxyResponseStream h}
    {out : BackendFinalProxyResponseForwarder h} (hforwards : ForwardsToFinal stream out)
    (hfinal : ∀ forwarder, stream ≠ .informational forwarder) : ForwardsWith P stream out := by
  cases hforwards with
  | final => exact .final out
  | informational good hforwarded hmore => exact absurd rfl (hfinal _)

/-- An exchange has no interim response, and few fields. -/
def Exchange.Plain (n : Nat) (x : Exchange h) : Bool :=
  (match x.stream with
    | .final _ => true
    | .informational _ => false) && x.forwardedFields.length ≤ n && x.sentFields.length ≤ n

/-- A caller that adds valid fields is careful then. -/
theorem careful_of_run {n fuel : Nat} {caller : Caller} {x : Exchange h}
    (hrun : caller.run h fuel = some x) (hplain : x.Plain n = true)
    (hpos : 1 ≤ caller.options.bodyChunkSize) (htarget : h.IsTarget caller.path)
    (hrequest : caller.requestHeaders.Valid) (hresponse : caller.responseHeaders.Valid)
    (hnow : isValidFieldValue caller.now = true) : x.Careful n := by
  have hbrings := Caller.run_brings hrun
  simp only [Exchange.Plain, Bool.and_eq_true, decide_eq_true_eq] at hplain
  obtain ⟨⟨hfinal, hforwarded⟩, hsent⟩ := hplain
  refine ⟨hbrings.options ▸ hpos, hbrings.path ▸ htarget, hbrings.requestHeaders ▸ hrequest,
    forwardsWith_of_final x.forwardsToFinal ?_, hbrings.responseHeaders ▸ hresponse,
    hbrings.now ▸ hnow, hforwarded, hsent⟩
  intro forwarder hstream
  rw [hstream] at hfinal
  cases hfinal

theorem chain_transcribed_near : ∃ t, Transcribes nearExchange farExchange t := by
  have hfar : farExchange.Plain 4 = true ∧ farExchange.onFrontend = farAnswer ∧
      100 ≤ farExchange.received.code := by decide +kernel
  have hnear : nearExchange.Plain 4 = true ∧
      nearExchange.onBackend <+: farCaller.frontendReader.reader.unread := by decide +kernel
  have hrunFar : farCaller.run reference 60 = some farExchange := (Option.some_get _).symm
  have hrunNear : nearCaller.run reference 60 = some nearExchange := (Option.some_get _).symm
  have htargetFar : reference.IsTarget (ascii "/c") :=
    ⟨by decide, by decide +kernel, by decide +kernel⟩
  have htargetNear : reference.IsTarget (ascii "/b") :=
    ⟨by decide, by decide +kernel, by decide +kernel⟩
  have hbringsFar := Caller.run_brings hrunFar
  have hbringsNear := Caller.run_brings hrunNear
  have hpos : 1 ≤ ProxyOptions.default.bodyChunkSize := by decide
  have hnow : isValidFieldValue (ascii "now") = true := by decide
  have hcarefulFar : farExchange.Careful 4 := careful_of_run hrunFar hfar.1 hpos
    htargetFar (by decide +kernel) (by decide +kernel) hnow
  have hcarefulNear : nearExchange.Careful 4 := careful_of_run hrunNear hnear.1 hpos
    htargetNear (by decide +kernel) (by decide +kernel) hnow
  have hlink : Link 4 nearExchange farExchange := by
    refine ⟨hcarefulNear, ?_, ?_, ?_, ?_⟩
    · rw [hbringsFar.frontendReader]
      exact hnear.2
    · rw [hbringsNear.backendReader, hfar.2.1]
      decide +kernel
    · rw [hbringsFar.frontendReader]
      decide
    · rw [hbringsNear.backendReader]
      decide
  exact chain_transcribed chunkSizeLaws fieldSectionLaws requestLaws responseLaws
    responseHeadLaws writtenResponseLaws (.single hlink) hcarefulFar hfar.2.2

end Jrpxy.Proxy
