/-
  Jrpxy.Proxy.Trailers

  Which trailers cross the proxy.

  The fields of a head are stripped by the options of its `Connection` fields.
  The trailers behind the body are stripped where the body is finished, by the
  two fixed tables alone: the options of the head are not known there.  So a
  trailer crosses although the head names it, and exactly the messages that
  have such a trailer are forwarded with too much (`trailersCross_iff`).
-/
import Jrpxy.Proxy.Reuse
import Jrpxy.Proxy.Rewriting

namespace Jrpxy.Proxy

open Poll BodyRelay BlockWriter ChunkedCoding Ascii Util HttpMessage
open Body Body.Reader Body.Writer Frontend Backend

open Httparse.Reference (reference chunkSizeLaws fieldSectionLaws requestLaws)

variable {h : Httparse}

/-! ## What may cross -/

/-- A trailer of this name may cross, behind a head with these headers: it is not
    connection-scoped, and no trailer that is forbidden. -/
def MayCross (received : Headers) (name : Bytes) : Prop :=
  ¬ ConnectionScoped received name ∧
    ¬ ∃ x ∈ forbiddenTrailerHeaders, eqIgnoreCase x name = true

instance (received : Headers) (name : Bytes) : Decidable (MayCross received name) :=
  inferInstanceAs (Decidable (_ ∧ _))

/-- The trailers that may cross, in order. -/
def crossingTrailers (received trailers : Headers) : Headers :=
  trailers.retain fun f => MayCross received f.1

/-- A trailer that is not forbidden is named as an option. -/
def NominatesTrailer (received trailers : Headers) : Prop :=
  ∃ f ∈ trailers.headers, isForbiddenTrailerField f.1 = false ∧
    ∃ o ∈ listedOptions received, eqIgnoreCase o f.1 = true

/-- What may cross is what is not forbidden, and not named as an option. -/
theorem mayCross_iff {received : Headers} {name : Bytes} :
    MayCross received name ↔ isForbiddenTrailerField name = false ∧
      ¬ ∃ o ∈ listedOptions received, eqIgnoreCase o name = true := by
  have hstandard : (∃ x ∈ hopByHopHeaders, eqIgnoreCase x name = true) ↔
      isStandardHopByHop name = true := by
    simp [isStandardHopByHop]
  have hforbidden : (∃ x ∈ forbiddenTrailerHeaders, eqIgnoreCase x name = true) ↔
      (forbiddenTrailerHeaders.any fun x => eqIgnoreCase x name) = true := by
    simp
  rw [MayCross, ConnectionScoped, hstandard, hforbidden, isForbiddenTrailerField,
    Bool.or_eq_false_iff, ← Bool.not_eq_true, ← Bool.not_eq_true, not_or, and_assoc, and_assoc]
  exact and_congr_right' and_comm

/-- Two parts of one list are the same if and only if the same elements are kept. -/
theorem filter_eq_filter_iff {α : Type} {p q : α → Bool} {l : List α} :
    l.filter p = l.filter q ↔ ∀ x ∈ l, p x = q x := by
  constructor
  · intro heq x hx
    have hmem : x ∈ l.filter p ↔ x ∈ l.filter q := by rw [heq]
    rw [Bool.eq_iff_iff]
    simpa [hx] using hmem
  · exact List.filter_congr

/-- The fixed tables leave what may cross, unless a trailer is nominated. -/
theorem crossingTrailers_eq_sanitize_iff {received trailers : Headers} :
    crossingTrailers received trailers = sanitizeTrailers trailers ↔
      ¬ NominatesTrailer received trailers := by
  have hsame : crossingTrailers received trailers = sanitizeTrailers trailers ↔
      ∀ f ∈ trailers.headers, decide (MayCross received f.1) = !isForbiddenTrailerField f.1 := by
    rw [crossingTrailers, sanitizeTrailers, Headers.retain, Headers.retain, Headers.mk.injEq]
    exact filter_eq_filter_iff
  rw [hsame]
  constructor
  · rintro hall ⟨f, hf, hallowed, hnamed⟩
    have hcross := hall f hf
    rw [hallowed, Bool.not_false, decide_eq_true_iff, mayCross_iff] at hcross
    exact hcross.2 hnamed
  · intro hnone f hf
    rw [Bool.eq_iff_iff, decide_eq_true_iff, mayCross_iff, Bool.not_eq_true']
    exact and_iff_left_of_imp fun hallowed hnamed => hnone ⟨f, hf, hallowed, hnamed⟩

/-! ## What crosses -/

/-- Read by the chunked coding, with enough slots, `w` is one body with these trailers. -/
def HasTrailers (h : Httparse) (trailers : Headers) (w : Bytes) : Prop :=
  ∃ slotCount, ∀ slots : ParseSlots, slotCount ≤ slots.slotCount →
    ∃ n, (decode (recognisers h slots) w).tail = some ⟨n, trailers, []⟩

/-- A body has one trailer section. -/
theorem HasTrailers.unique {trailers trailers' : Headers} {w : Bytes}
    (hhas : HasTrailers h trailers w) (hhas' : HasTrailers h trailers' w) : trailers = trailers' := by
  obtain ⟨slotCount, hall⟩ := hhas
  obtain ⟨slotCount', hall'⟩ := hhas'
  obtain ⟨n, hn⟩ := hall ⟨max slotCount slotCount'⟩ (Nat.le_max_left _ _)
  obtain ⟨n', hn'⟩ := hall' ⟨max slotCount slotCount'⟩ (Nat.le_max_right _ _)
  cases hn.symm.trans hn'
  rfl

/-- Behind what the sink had, the body with the trailers that may cross, and no others. -/
def TrailersCross {E ε₁ ε₂ : Type} (S : Side E ε₁ ε₂) (h : Httparse) (received : Headers)
    (reader : BodyReader E) (sink s : Sink) : Prop :=
  ∃ t w, (reader.owed h S.last).tail = some t ∧ s.wire = sink.wire ++ w ∧
    HasTrailers h (crossingTrailers received t.trailers) w

/-- The trailers of this body that are not forbidden are not named by these headers. -/
def NoneNominated {E ε₁ ε₂ : Type} (S : Side E ε₁ ε₂) (h : Httparse) (received : Headers)
    (reader : BodyReader E) : Prop :=
  ∀ t ∈ (reader.owed h S.last).tail, ¬ NominatesTrailer received t.trailers

/-- For one body that is delivered in chunks. -/
theorem trailersCross_of_delivered {E ε₁ ε₂ : Type} {S : Side E ε₁ ε₂} {reader : BodyReader E}
    {writer : Unifier.Ready S.eof} {sink s : Sink} (hchunked : ∃ r, writer = .chunked r)
    (hdelivered : Delivered S h reader writer sink s) (received : Headers) :
    TrailersCross S h received reader sink s ↔ NoneNominated S h received reader := by
  obtain ⟨r, rfl⟩ := hchunked
  obtain ⟨t, w, htail, hwire, -, hdecodes⟩ := hdelivered
  have hhas : HasTrailers h (sanitizeTrailers t.trailers) w :=
    ⟨_, fun slots hslots => (hdecodes slots hslots).2⟩
  have hnone : NoneNominated S h received reader ↔ ¬ NominatesTrailer received t.trailers := by
    rw [NoneNominated, htail]
    simp
  rw [hnone, ← crossingTrailers_eq_sanitize_iff]
  constructor
  · rintro ⟨t', w', htail', hwire', hcross⟩
    cases htail.symm.trans htail'
    obtain rfl := List.append_cancel_left (hwire.symm.trans hwire')
    exact hcross.unique hhas
  · intro heq
    refine ⟨t, w, htail, hwire, ?_⟩
    rw [heq]
    exact hhas

/-! ## Chunked messages -/

/-- A request with a chunked body, from the connection it is read off until its body is
    finished.  The caller edits its target and fields, and calls and drops as it likes. -/
structure RelayedRequest (h : Httparse) where
  options : ProxyOptions
  /-- It is a `usize`. -/
  chunkSize_lt : options.bodyChunkSize < 2 ^ 64
  frontendReader : FrontendReader
  frontendWriter : FrontendWriter
  maxHeadLength : Nat
  maxChunkHeaderLength : Nat
  request : FrontendRequest
  read : frontendReader.read h maxHeadLength maxChunkHeaderLength = .ok request
  chunked : ∃ inner recyclable, request.reader = .te inner recyclable
  proxyRequest : FrontendProxyRequest
  fromRequest : FrontendProxyRequest.fromRequest request frontendWriter options = .ok proxyRequest
  path : Bytes
  headers : Headers
  backendConnection : BackendReader × BackendWriter
  responseReader : BackendProxyResponseReader
  sink : Sink
  forward : (proxyRequest.intoBackendRequest.edit path headers).forward backendConnection =
    (.ok responseReader, sink)
  forwarder : RequestBodyForwarder h
  reaches : (responseReader.bodyForwarder h sink).Reaches forwarder
  fuel : Nat
  handedBack : Option FrontendReader × BackendWriter
  finished : Sink
  finish : forwarder.finish h fuel = (.ok handedBack, finished)

/-- A final response with a chunked body, on its way to a client that knows such bodies. -/
structure RelayedResponse (h : Httparse) where
  backendReader : BackendReader
  allowBody : Bool
  maxHeadLength : Nat
  maxChunkHeaderLength : Nat
  backend : BackendResponse
  read : backendReader.read h allowBody maxHeadLength maxChunkHeaderLength = .ok (.final backend)
  chunked : ∃ inner recyclable, backend.reader = .te inner recyclable
  self : BackendFinalProxyResponseForwarder h
  new : NormalizedResponseStream.new (.final backend) = .ok (.final self.proxyResponse)
  chunkSize_lt : self.pending.options.bodyChunkSize < 2 ^ 64
  knowsChunked : self.pending.clientOptions.version = .http11
  headers : Headers
  now : Bytes
  exchanger : ProxyBodyExchanger h
  sink : Sink
  forwardResponseHead : (self.edit headers).forwardResponseHead now = (.ok exchanger, sink)
  forwarder : ResponseBodyForwarder h
  reaches : exchanger.responseBodyForwarder.Reaches forwarder
  fuel : Nat
  handedBack : Option BackendReader × Option FrontendWriter
  finished : Sink
  finish : forwarder.finish h fuel = (.ok handedBack, finished)

/-- A chunked body does not end with its connection. -/
theorem not_endsWithConnection_of_chunked {E : Type} {reader : BodyReader E}
    (hchunked : ∃ inner recyclable, reader = .te inner recyclable) :
    ¬ EndsWithConnection reader := by
  obtain ⟨inner, recyclable, rfl⟩ := hchunked
  rintro ⟨inner', heq⟩
  cases heq

/-- A forwarder that is finished, whatever calls it has seen, has delivered a chunked body. -/
theorem Side.delivered_of_reaches {E ε₁ ε₂ : Type} {S : Side E ε₁ ε₂} (hsize : h.ChunkSizeLaws)
    (hfields : h.FieldSectionLaws) (hS : S.Lawful) (hidles : S.Idles) {chunkSize fuel : Nat}
    {reader : BodyReader E} {writer : Unifier.Ready S.eof} {sink s : Sink}
    (hword : chunkSize < 2 ^ 64) (hpaired : Paired S h reader writer)
    (hchunked : ∃ inner recyclable, reader = .te inner recyclable) {y : Relay (S.ends h)}
    (hreaches : (Relay.new chunkSize reader writer sink : Relay (S.ends h)).Reaches y)
    {α : Type} (g : Option ConnectionReader × Option Sink → Sink → α) {out : α}
    (hok : andThen (S.finish h fuel y) id (fun a s => (.ok (g a s), s)) = (.ok out, s)) :
    Delivered S h reader writer sink s := by
  obtain ⟨acts, rfl⟩ := hreaches
  apply delivered_of_value g hok
  intro a s' hx
  exact Side.finish_delivered hsize hfields hidles hS hword hpaired
    (not_endsWithConnection_of_chunked hchunked) acts fuel hx

section Relayed

variable (hsize : h.ChunkSizeLaws) (hfields : h.FieldSectionLaws)

include hsize hfields

/-- The body of the request is delivered in chunks. -/
theorem RelayedRequest.delivered (laws : h.RequestLaws) (x : RelayedRequest h) :
    Delivered requestSide h x.request.reader (requestWriter x.request.reader) x.sink x.finished := by
  have hfresh := FrontendReader.read_fresh laws x.read
  have haccepted := FrontendProxyRequest.fromRequest_ok x.fromRequest
  have hbody : (x.proxyRequest.intoBackendRequest.edit x.path x.headers).bodyReader =
      x.request.reader := haccepted.reader
  have hoptions : (x.proxyRequest.intoBackendRequest.edit x.path x.headers).pending.options =
      x.options := congrArg PendingFrontendResponse.options haccepted.pending
  obtain ⟨hresponse, -⟩ := BackendProxyRequest.forward_ok x.forward
  have hreaches := x.reaches
  rw [hresponse, BackendProxyResponseReader.bodyForwarder, hoptions, hbody] at hreaches
  exact Side.delivered_of_reaches hsize hfields requestSide_lawful requestSide_idles
    x.chunkSize_lt (request_paired hfresh) x.chunked hreaches _ x.finish

/-- The body of the response is delivered, in the encoding that goes with its reader. -/
theorem RelayedResponse.delivered (x : RelayedResponse h) :
    Delivered responseSide h x.backend.reader (responseWriter false x.backend.reader) x.sink
      x.finished := by
  obtain ⟨-, r, recyclable, framing, hframing, -, -, hreader⟩ := read_final x.read
  have hfresh : x.backend.reader.Fresh := by
    rw [hreader]
    exact bodyReader_fresh hframing _ _ _ _ _ _
  obtain ⟨-, hstripped⟩ := NormalizedResponseStream.new_final x.new
  injection hstripped with hresponse
  obtain ⟨hexchanger, -⟩ := forwardResponseHead_ok x.forwardResponseHead
  have hbody : (x.self.edit x.headers).proxyResponse.backend.reader = x.backend.reader := by
    show x.self.proxyResponse.backend.reader = _
    rw [hresponse]
  -- a client that knows chunks is sent chunks
  have hversion : ((x.self.edit x.headers).pending.clientOptions.version == .http10) = false := by
    show (x.self.pending.clientOptions.version == .http10) = false
    rw [x.knowsChunked]
    rfl
  have hreaches := x.reaches
  rw [hexchanger, hbody, hversion] at hreaches
  exact Side.delivered_of_reaches hsize hfields responseSide_lawful responseSide_idles
    x.chunkSize_lt (response_paired false hfresh) x.chunked hreaches _ x.finish

/-- The trailers that may cross are forwarded in order, and no others are, if and only if no
    trailer is nominated by the head of its message, apart from those that are forbidden: for
    every chunked message that is forwarded in chunks, in either direction. -/
theorem trailersCross_iff (laws : h.RequestLaws) (x : RelayedRequest h) (y : RelayedResponse h) :
    (TrailersCross requestSide h x.request.req.headers x.request.reader x.sink x.finished ↔
      NoneNominated requestSide h x.request.req.headers x.request.reader) ∧
    (TrailersCross responseSide h y.backend.res.headers y.backend.reader y.sink y.finished ↔
      NoneNominated responseSide h y.backend.res.headers y.backend.reader) := by
  constructor
  · apply trailersCross_of_delivered _ (x.delivered hsize hfields laws)
    obtain ⟨inner, recyclable, hte⟩ := x.chunked
    rw [hte]
    exact ⟨_, rfl⟩
  · apply trailersCross_of_delivered _ (y.delivered hsize hfields)
    obtain ⟨inner, recyclable, hte⟩ := y.chunked
    rw [hte]
    exact ⟨_, rfl⟩

end Relayed

/-! ## A trailer that is nominated -/

/-- What stands behind the head of a chunked message: a block and two trailers, of which one
    may not be passed on. -/
def nominatedBody : Bytes := ascii "4\r\nWiki\r\n0\r\nX: 1\r\nhost: c\r\n\r\n"

/-- A request whose head names one of its trailers as a connection option. -/
def nominatingReader : FrontendReader :=
  ⟨⟨⟨[.data 80 (ascii "OST / HTTP/1.1\r\nHost: a\r\nConnection: x\r\n" ++
    ascii "Transfer-Encoding: chunked\r\n\r\n"),
    .data 52 (nominatedBody.drop 1)]⟩, .default⟩, ⟨4⟩⟩

def nominatingRead : Polled FrontendError FrontendRequest := nominatingReader.read reference 256 64

theorem nominatingRead_isOk : nominatingRead.isOk = true := by decide +kernel

def nominatingRequest : FrontendRequest := nominatingRead.get nominatingRead_isOk

theorem nominatingRequest_reader : nominatingRequest.reader =
    .te (.new ⟨⟨[.data 52 (nominatedBody.drop 1)]⟩, ⟨List.replicate 185 0, 0, Nat.zero_le _⟩⟩ ⟨4⟩ 64
      256) true := by
  decide +kernel

def nominatingFromRequest : Polled FrontendRequestError FrontendProxyRequest :=
  .ofExcept (FrontendProxyRequest.fromRequest nominatingRequest ⟨⟨[], []⟩⟩ .default)

theorem nominatingFromRequest_isOk : nominatingFromRequest.isOk = true := by decide +kernel

def nominatingProxyRequest : FrontendProxyRequest :=
  nominatingFromRequest.get nominatingFromRequest_isOk

def nominatingForward : Polled BackendRequestError BackendProxyResponseReader × Sink :=
  (nominatingProxyRequest.intoBackendRequest.edit nominatingProxyRequest.req.path
    nominatingProxyRequest.intoBackendRequest.request.headers).forward
      (⟨.new ⟨[]⟩, ⟨4⟩⟩, ⟨⟨[], [.accept 1, .pending]⟩⟩)

theorem nominatingForward_isOk : nominatingForward.1.isOk = true := by decide +kernel

def nominatingForwarder : RequestBodyForwarder reference :=
  (nominatingForward.1.get nominatingForward_isOk).bodyForwarder reference nominatingForward.2

def nominatingFinish : Polled ProxyCopyError (Option FrontendReader × BackendWriter) × Sink :=
  nominatingForwarder.finish reference 60

theorem nominatingFinish_isOk : nominatingFinish.1.isOk = true := by decide +kernel

def nominatingRelayed : RelayedRequest reference where
  options := .default
  chunkSize_lt := ProxyOptions.default_bodyChunkSize_lt
  frontendReader := nominatingReader
  frontendWriter := ⟨⟨[], []⟩⟩
  maxHeadLength := 256
  maxChunkHeaderLength := 64
  request := nominatingRequest
  read := Polled.eq_ok_get nominatingRead_isOk
  chunked := ⟨_, _, nominatingRequest_reader⟩
  proxyRequest := nominatingProxyRequest
  fromRequest := Polled.ofExcept_eq_ok.mp (Polled.eq_ok_get nominatingFromRequest_isOk)
  path := nominatingProxyRequest.req.path
  headers := nominatingProxyRequest.intoBackendRequest.request.headers
  backendConnection := (⟨.new ⟨[]⟩, ⟨4⟩⟩, ⟨⟨[], [.accept 1, .pending]⟩⟩)
  responseReader := nominatingForward.1.get nominatingForward_isOk
  sink := nominatingForward.2
  forward := eq_get nominatingForward_isOk
  forwarder := nominatingForwarder
  reaches := .refl _
  fuel := 60
  handedBack := nominatingFinish.1.get nominatingFinish_isOk
  finished := nominatingFinish.2
  finish := eq_get nominatingFinish_isOk

/-- A response whose head names no trailer, with the same body. -/
def plainHead : Bytes := ascii "HTTP/1.1 200 OK\r\nTransfer-Encoding: chunked\r\n\r\n"

def plainBackend : BackendResponse :=
  ⟨⟨.http11, 200, ascii "OK", ⟨[(ascii "Transfer-Encoding", ascii "chunked")]⟩⟩,
    .te (.new ⟨⟨[.data 52 (nominatedBody.drop 1)]⟩, ⟨List.replicate 209 0, 0, Nat.zero_le _⟩⟩ ⟨4⟩ 64
      256) true⟩

def plainSelf : BackendFinalProxyResponseForwarder reference :=
  ⟨.new reference 8 (.bodyless ⟨.new ⟨[]⟩, ⟨4⟩⟩ true) (.bodyless .mk) ⟨[], []⟩,
    ⟨⟨⟨[], [.accept 3, .pending]⟩⟩, .default, ⟨false, .http11⟩⟩,
    ⟨{ plainBackend with res := { plainBackend.res with headers := .empty } }, plainBackend.res⟩⟩

def plainForward : Polled ProxyError (ProxyBodyExchanger reference) × Sink :=
  (plainSelf.edit .empty).forwardResponseHead (ascii "now")

theorem plainForward_isOk : plainForward.1.isOk = true := by decide +kernel

def plainFinish : Polled ProxyCopyError (Option BackendReader × Option FrontendWriter) × Sink :=
  (plainForward.1.get plainForward_isOk).responseBodyForwarder.finish reference 60

theorem plainFinish_isOk : plainFinish.1.isOk = true := by decide +kernel

def plainRelayed : RelayedResponse reference where
  backendReader := ⟨⟨⟨[.data 72 (plainHead.drop 1), .data 52 (nominatedBody.drop 1)]⟩, .default⟩, ⟨4⟩⟩
  allowBody := true
  maxHeadLength := 256
  maxChunkHeaderLength := 64
  backend := plainBackend
  read := by decide +kernel
  chunked := ⟨_, _, rfl⟩
  self := plainSelf
  new := Polled.ofExcept_eq_ok.mp (by decide +kernel)
  chunkSize_lt := ProxyOptions.default_bodyChunkSize_lt
  knowsChunked := rfl
  headers := .empty
  now := ascii "now"
  exchanger := plainForward.1.get plainForward_isOk
  sink := plainForward.2
  forwardResponseHead := eq_get plainForward_isOk
  forwarder := (plainForward.1.get plainForward_isOk).responseBodyForwarder
  reaches := .refl _
  fuel := 60
  handedBack := plainFinish.1.get plainFinish_isOk
  finished := plainFinish.2
  finish := eq_get plainFinish_isOk

theorem trailersCross_iff_nominating :
    (TrailersCross requestSide reference nominatingRelayed.request.req.headers
        nominatingRelayed.request.reader nominatingRelayed.sink nominatingRelayed.finished ↔
      NoneNominated requestSide reference nominatingRelayed.request.req.headers
        nominatingRelayed.request.reader) ∧
    (TrailersCross responseSide reference plainRelayed.backend.res.headers
        plainRelayed.backend.reader plainRelayed.sink plainRelayed.finished ↔
      NoneNominated responseSide reference plainRelayed.backend.res.headers
        plainRelayed.backend.reader) :=
  trailersCross_iff chunkSizeLaws fieldSectionLaws requestLaws nominatingRelayed plainRelayed

/-- `POST / HTTP/1.1` with `Connection: x`, a chunked body and the trailer `X: 1`: what
    arrives at the backend is not what may cross. -/
theorem nominated_crosses :
    ¬ TrailersCross requestSide reference nominatingRelayed.request.req.headers
      nominatingRelayed.request.reader nominatingRelayed.sink nominatingRelayed.finished := by
  have hdelivered := nominatingRelayed.delivered chunkSizeLaws fieldSectionLaws requestLaws
  have hreader : nominatingRelayed.request.reader = _ := nominatingRequest_reader
  have hwriter : requestWriter nominatingRelayed.request.reader = .chunked .mk := by
    rw [hreader]
    rfl
  rw [trailersCross_of_delivered ⟨.mk, hwriter⟩ hdelivered]
  intro hnone
  have hbody : nominatedBody =
      encodeBody [ascii "Wiki"] ⟨[(ascii "X", ascii "1"), (ascii "host", ascii "c")]⟩ := by
    decide +kernel
  have hdecode := @decode_encodeBody reference chunkSizeLaws fieldSectionLaws ⟨4⟩ [ascii "Wiki"]
    (by decide +kernel) ⟨[(ascii "X", ascii "1"), (ascii "host", ascii "c")]⟩ (by decide +kernel)
    (by decide) []
  rw [List.append_nil, ← hbody] at hdecode
  rw [hreader] at hnone
  refine hnone ⟨⟨[(ascii "X", ascii "1"), (ascii "host", ascii "c")]⟩, []⟩ ?_
    ⟨(ascii "X", ascii "1"), by decide, by decide +kernel, ascii "x", by decide +kernel, by decide⟩
  show (toOwed (decode (recognisers reference ⟨4⟩) nominatedBody)).tail = _
  rw [hdecode]
  decide +kernel

end Jrpxy.Proxy
