/-
  Jrpxy.Proxy.Reuse

  Which connections an exchange leaves, and where they stand.

  Whether a connection can be reused is decided in four places: by the options
  of a head, by the framing it was read with, by the framing the other head was
  written with, and by which of the two sides came to its end.  For a whole
  exchange they come to the rule: a pair is handed back exactly if its message
  is persistent and nothing on its connection ends with the connection; and
  then one whole message has been read off it, and one has been written to it
  (`finish_handedBack`).
-/
import Jrpxy.Body.Content
import Jrpxy.Frontend.Stream
import Jrpxy.Proxy.HandBack
import Jrpxy.Proxy.Outcome

namespace Jrpxy.Proxy

open Poll BodyRelay BlockWriter ChunkedCoding Ascii Util HttpMessage
open Body Body.Reader Body.Writer Frontend Backend

open Httparse.Reference (reference chunkSizeLaws fieldSectionLaws requestLaws responseLaws
  responseHeadLaws)

variable {h : Httparse}

/-! ## Framings -/

/-- What is encoded for a writer is one body of the length that is announced for it. -/
theorem isBody_of_encodes {eof : Bool} {content w : Bytes} {trailers : Headers}
    {writer : Unifier.Ready eof} (hencodes : Encodes h content trailers w writer) :
    IsBody h w (bodyLengthOf writer) := by
  cases writer with
  | bodyless r => exact hencodes.1
  | cl r => exact hencodes.2
  | chunked r =>
    refine ⟨trailers.headers.length, fun slots hslots => ?_⟩
    obtain ⟨-, n, htail⟩ := hencodes.2 slots hslots
    exact ⟨_, htail, rfl⟩
  | eof a r => trivial

/-- A sink outlives a body that does not end with it. -/
theorem recyclable_iff_bodyLengthOf {eof : Bool} (writer : Unifier.Ready eof) :
    Unifier.Ready.recyclable writer = true ↔ bodyLengthOf writer ≠ .untilClose := by
  cases writer with
  | bodyless r => exact iff_of_true rfl (by intro heq; cases heq)
  | cl r => exact iff_of_true rfl (by intro heq; cases heq)
  | chunked r => exact iff_of_true rfl (by intro heq; cases heq)
  | eof a r => exact iff_of_false Bool.false_ne_true fun hne => hne rfl

/-- Whether the connection outlives a body does not depend on its framing, as long as it
    does not end with the connection. -/
theorem recyclable_ofFraming {E : Type} (r : BytesReader) (slots : ParseSlots)
    (maxLine maxHead : Nat) (recyclable : Bool) (framing : ParsedFraming) :
    (BodyReader.ofFraming r slots maxLine maxHead recyclable framing : BodyReader E).recyclable =
      recyclable := by
  cases framing with
  | length n => rfl
  | chunked => rfl
  | noFraming => rfl

/-- What a recipient is to know of the reader of a response body. -/
structure ReadsBody (h : Httparse) (r : BytesReader) (recyclable : Bool) (length : BodyLength)
    (reader : BackendBodyReader) : Prop where
  fresh : reader.Fresh
  recyclable_iff : reader.recyclable = true ↔ recyclable = true ∧ length ≠ .untilClose
  extent : ∀ t, (reader.owed h responseSide.last).tail = some t → length ≠ .untilClose →
    ∃ body, r.unread = body ++ t.rest ∧ IsBody h body length

/-- The reader of a response body is fresh when the response is read. -/
theorem bodyReader_fresh {headers : Headers} {framing : ParsedFraming}
    (hframing : headers.framing = .ok framing) (r : BytesReader) (slots : ParseSlots)
    (maxHead maxLine : Nat) (expectBody recyclable : Bool) :
    (BackendReader.bodyReader r slots maxHead maxLine expectBody recyclable framing).Fresh := by
  unfold BackendReader.bodyReader
  dsimp only
  split
  · trivial
  · split
    · trivial
    · exact fresh_of_framing hframing _ _ _ _ _

/-- The reader of a response reads the body that the recipient's rule announces. -/
theorem readsBody_bodyReader (hsize : h.ChunkSizeLaws) (hfields : h.FieldSectionLaws)
    {r : BytesReader} {slots : ParseSlots} {maxHead maxLine : Nat} {isHead recyclable : Bool}
    {res : Response} {framing : ParsedFraming} (hframing : res.framing = .ok framing) :
    ReadsBody h r recyclable (responseBodyLength isHead res.code res.headers.headers)
      (BackendReader.bodyReader r slots maxHead maxLine (!isHead && !neverHasBody res.code)
        recyclable framing) := by
  by_cases hbody : isHead = true ∨ (100 ≤ res.code ∧ res.code ≤ 199) ∨ res.code = 204 ∨
      res.code = 304
  -- it has none, whatever the fields say
  · have hexpect : (!isHead && !neverHasBody res.code) = false := by
      rw [Bool.and_eq_false_iff, Bool.not_eq_false', Bool.not_eq_false']
      simpa [neverHasBody, or_assoc] using hbody
    rw [hexpect, responseBodyLength, if_pos hbody]
    refine ⟨trivial, ?_, ?_⟩
    · exact ⟨fun hr => ⟨hr, by intro heq; cases heq⟩, fun hr => hr.1⟩
    · intro t htail _
      cases htail
      exact ⟨[], rfl, rfl⟩
  · have hexpect : (!isHead && !neverHasBody res.code) = true := by
      rw [← Bool.not_eq_false, Bool.and_eq_false_iff, Bool.not_eq_false', Bool.not_eq_false']
      simpa [neverHasBody, or_assoc] using hbody
    have hlength := framedLength_of_framing .untilClose .untilClose hframing
    rw [hexpect, responseBodyLength, if_neg hbody, hlength]
    have hof : ∀ {framing : ParsedFraming}, res.framing = .ok framing →
        framing.bodyLength .none = framing.bodyLength .untilClose →
        framing.bodyLength .untilClose ≠ .untilClose →
        ReadsBody h r recyclable (framing.bodyLength .untilClose)
          (.ofFraming r slots maxLine maxHead recyclable framing) := by
      intro framing hframing hsame hne
      refine ⟨fresh_of_framing hframing _ _ _ _ _, ?_, ?_⟩
      · rw [recyclable_ofFraming]
        exact ⟨fun hr => ⟨hr, hne⟩, fun hr => hr.1⟩
      · intro t htail _
        rw [← hsame]
        obtain ⟨body, hunread, hcarries⟩ := carries_ofFraming hsize hfields htail
        exact ⟨body, hunread, hcarries.isBody⟩
    cases framing with
    | noFraming =>
      exact ⟨trivial, iff_of_false Bool.false_ne_true fun hr => hr.2 rfl,
        fun t _ hne => absurd rfl hne⟩
    | length n => exact hof hframing rfl (by intro heq; cases heq)
    | chunked => exact hof hframing rfl (by intro heq; cases heq)

/-- The framing of a request body is announced for its writer, beside any other fields. -/
theorem requestBodyLength_requestFraming (reader : FrontendBodyReader) (req : Request) :
    requestBodyLength (Backend.writtenFields req (requestFraming reader)) =
      bodyLengthOf (requestWriter reader) := by
  have hplain : (requestFraming reader).preservesFraming = false := by
    cases reader with
    | eof inner => exact inner.elim
    | bodyless inner r => rfl
    | cl inner r => rfl
    | te inner r => rfl
  rw [requestBodyLength, Backend.writtenFields, framedLength_written]
  · cases reader with
    | eof inner => exact inner.elim
    | bodyless inner r => rfl
    | cl inner r => rfl
    | te inner r => rfl
  · intro f hf
    simpa [hplain] using (List.mem_filter.mp hf).2

/-! ## An exchange -/

/-- The caller may edit the target and the fields of a request before it is forwarded. -/
def BackendProxyRequest.edit (self : BackendProxyRequest) (path : Bytes) (headers : Headers) :
    BackendProxyRequest :=
  { self with request := { self.request with path, headers } }

/-- The caller may edit the fields of the final response before its head is forwarded. -/
def BackendFinalProxyResponseForwarder.edit (self : BackendFinalProxyResponseForwarder h)
    (headers : Headers) : BackendFinalProxyResponseForwarder h :=
  { self with proxyResponse :=
    { self.proxyResponse with backend :=
      { self.proxyResponse.backend with res := { self.proxyResponse.backend.res with headers } } } }

/-- One proxied exchange, of which every call succeeds: the connections it begins with, what
    each call is given and what it returns, to the pairs of connections that are left. -/
structure Exchange (h : Httparse) where
  options : ProxyOptions
  /-- It is a `usize`. -/
  chunkSize_lt : options.bodyChunkSize < 2 ^ 64
  frontendReader : FrontendReader
  frontendWriter : FrontendWriter
  maxHeadLength : Nat
  maxChunkHeaderLength : Nat
  request : FrontendRequest
  read : frontendReader.read h maxHeadLength maxChunkHeaderLength = .ok request
  proxyRequest : FrontendProxyRequest
  fromRequest : FrontendProxyRequest.fromRequest request frontendWriter options = .ok proxyRequest
  path : Bytes
  requestHeaders : Headers
  backendReader : BackendReader
  backendWriter : BackendWriter
  responseReader : BackendProxyResponseReader
  requestSink : Sink
  forward : (proxyRequest.intoBackendRequest.edit path requestHeaders).forward
    (backendReader, backendWriter) = (.ok responseReader, requestSink)
  polls : Nat
  stream : BackendProxyResponseStream h
  readBackendResponse : responseReader.readBackendResponse h polls requestSink = .ok stream
  forwarder : BackendFinalProxyResponseForwarder h
  forwardsToFinal : ForwardsToFinal stream forwarder
  responseHeaders : Headers
  now : Bytes
  exchanger : ProxyBodyExchanger h
  responseSink : Sink
  forwardResponseHead : (forwarder.edit responseHeaders).forwardResponseHead now =
    (.ok exchanger, responseSink)
  fuel : Nat
  frontend : Option (FrontendReader × FrontendWriter)
  backend : Option (BackendReader × BackendWriter)
  backendSink : Sink
  frontendSink : Sink
  finish : exchanger.finish fuel = (.ok (frontend, backend), backendSink, frontendSink)

namespace Exchange

variable (x : Exchange h)

/-- The client does not expect a body. -/
def isHead : Bool := x.request.req.method == ascii "HEAD"

/-- The final response, as received. -/
def received : Response := x.forwarder.proxyResponse.original

/-- The fields the final response is sent with. -/
def sentFields : List Field :=
  let self := x.forwarder.edit x.responseHeaders
  Frontend.writtenFields
    (self.pending.withResponseHeaders x.now self.proxyResponse.backend.res)
    (responseFraming (x.request.req.version == .http10) (x.isHead || x.received.code == 304)
      self.proxyResponse.backend.reader)

/-- The fields the request is forwarded with. -/
def forwardedFields : List Field :=
  let self := x.proxyRequest.intoBackendRequest.edit x.path x.requestHeaders
  Backend.writtenFields self.request (requestFraming self.bodyReader)

end Exchange

/-- A whole request that was read: its head, and a body of the length the head announces. -/
def ReadRequest (h : Httparse) (slots : ParseSlots) (req : Request) (w : Bytes) : Prop :=
  ∃ head body, w = head ++ body ∧ Frontend.IsHead h slots head req ∧
    IsBody h body (requestBodyLength req.headers.headers)

/-- A whole response that was read. -/
def ReadResponse (h : Httparse) (slots : ParseSlots) (isHead : Bool) (res : Response) (w : Bytes) :
    Prop :=
  ∃ head body, w = head ++ body ∧ Backend.IsHead h slots head res ∧
    IsBody h body (responseBodyLength isHead res.code res.headers.headers)

/-- A whole request that was sent. -/
def SentRequest (h : Httparse) (method path : Bytes) (fields : List Field) (w : Bytes) : Prop :=
  ∃ body, w = Httparse.requestHead method path (ascii "HTTP/1.1") fields ++ body ∧
    IsBody h body (requestBodyLength fields)

/-- A whole response that was sent. -/
def SentResponse (h : Httparse) (isHead : Bool) (code : Nat) (reason : Bytes) (fields : List Field)
    (w : Bytes) : Prop :=
  ∃ body, w = responseHead code reason fields ++ body ∧
    IsBody h body (responseBodyLength isHead code fields)

/-- The connections of an exchange are handed back exactly when that is safe. -/
structure HandedBack (x : Exchange h) (interims : List RelayedInterim) : Prop where
  /-- The interim responses and the final one are what the backend sent. -/
  answer : ∃ head rest, x.backendReader.reader.unread =
      interims.flatMap RelayedInterim.head ++ (head ++ rest) ∧
    Backend.IsHead h x.backendReader.parseSlots head x.received
  whole : ∀ i ∈ interims, i.Whole h x.backendReader.parseSlots
  final : ¬ (100 ≤ x.received.code ∧ x.received.code ≤ 199)
  frontend_iff : x.frontend.isSome = true ↔
    Persists x.request.req.version x.request.req.headers ∧
      responseBodyLength x.isHead x.received.code x.sentFields ≠ .untilClose
  backend_iff : x.backend.isSome = true ↔
    Persists x.received.version x.received.headers ∧
      responseBodyLength x.isHead x.received.code x.received.headers.headers ≠ .untilClose
  frontendReader : ∀ c ∈ x.frontend, ∃ w,
    x.frontendReader.reader.unread = w ++ c.1.reader.unread ∧
      ReadRequest h x.frontendReader.parseSlots x.request.req w
  frontendWriter : ∀ c ∈ x.frontend, ∃ w,
    c.2.writer.wire = x.frontendWriter.writer.wire ++
      (if x.request.req.version = .http11 then interims.flatMap RelayedInterim.sent else []) ++ w ∧
      SentResponse h x.isHead x.received.code x.received.reason x.sentFields w
  backendReader : ∀ c ∈ x.backend, ∃ w,
    x.backendReader.reader.unread =
      interims.flatMap RelayedInterim.head ++ w ++ c.1.reader.unread ∧
      ReadResponse h x.backendReader.parseSlots x.isHead x.received w
  backendWriter : ∀ c ∈ x.backend, ∃ w,
    c.2.writer.wire = x.backendWriter.writer.wire ++ w ∧
      SentRequest h x.proxyRequest.req.method x.path x.forwardedFields w

/-! ## What each direction comes to -/

/-- A forwarder that is finished, after whatever calls it has seen. -/
theorem Side.handsBack_of_reaches {E ε₁ ε₂ : Type} {S : Side E ε₁ ε₂} (hsize : h.ChunkSizeLaws)
    (hfields : h.FieldSectionLaws) (hS : S.Lawful) (hidles : S.Idles) {chunkSize fuel : Nat}
    {reader : BodyReader E} {writer : Unifier.Ready S.eof} {sink s : Sink}
    (hword : chunkSize < 2 ^ 64) (hpaired : Paired S h reader writer) {y : Relay (S.ends h)}
    (hreaches : (Relay.new chunkSize reader writer sink : Relay (S.ends h)).Reaches y)
    {out : Option ConnectionReader × Option Sink} (hok : S.finish h fuel y = (.ok out, s)) :
    HandsBack S h reader writer sink out s := by
  obtain ⟨acts, rfl⟩ := hreaches
  exact Side.finish_handsBack hsize hfields hidles hS hword hpaired acts fuel hok

namespace Exchange

variable (x : Exchange h)

/-- The client, as the exchange begins to wait for a response. -/
def pending : PendingFrontendResponse :=
  ⟨x.frontendWriter, x.options, ⟨x.isHead, x.request.req.version⟩⟩

/-- The forwarder of the request body, before its first call. -/
def requestBodyForwarder : RequestBodyForwarder h :=
  RequestBodyForwarder.new h x.options.bodyChunkSize x.request.reader
    (requestWriter x.request.reader) x.requestSink

/-- The request is forwarded with its own body, and the responses are read in front of it; the
    interim ones are relayed as the caller made them. -/
theorem forwarded (laws : h.ResponseLaws) (headLaws : h.ResponseHeadLaws) {P : Headers → Prop}
    (hinterims : ForwardsWith P x.stream x.forwarder) :
    Sends medium (Httparse.requestHead x.proxyRequest.req.method x.path (ascii "HTTP/1.1")
        x.forwardedFields) x.backendWriter.writer x.requestSink ∧
      ∃ interims head rest, IntoFinal h x.backendReader.parseSlots (!x.isHead)
        x.options.maxBackendHeadLength x.options.maxChunkHeaderLength
        x.backendReader.reader.unread x.requestBodyForwarder x.pending x.forwarder interims head
        rest ∧ ∀ i ∈ interims, i.MadeBy P x.pending := by
  obtain ⟨hreader, hsends⟩ := BackendProxyRequest.forward_ok x.forward
  have haccepted := FrontendProxyRequest.fromRequest_ok x.fromRequest
  obtain ⟨normalized, forwarder, hstream, hreaches, hread⟩ :=
    BackendProxyResponseReader.readBackendResponse_ok laws headLaws x.readBackendResponse
  rw [hreader] at hstream hreaches hread
  have hpending : (x.proxyRequest.intoBackendRequest.edit x.path x.requestHeaders).pending =
      x.pending := haccepted.pending
  have hbody : (x.proxyRequest.intoBackendRequest.edit x.path x.requestHeaders).bodyReader =
      x.request.reader := haccepted.reader
  dsimp only at hstream hreaches hread
  rw [hpending] at hstream hread
  rw [BackendProxyResponseReader.bodyForwarder, hpending, hbody] at hreaches
  obtain ⟨interims, head, rest, hfinal, hmade⟩ := hinterims.intoFinal laws headLaws hstream hread
  exact ⟨hsends, interims, head, rest,
    { hfinal with reaches := hreaches.trans hfinal.reaches }, hmade⟩

/-- The body of the final response, and whether the client knows chunked bodies. -/
def responseBody : BackendBodyReader := x.forwarder.proxyResponse.backend.reader

def clientCannotChunk : Bool := x.request.req.version == .http10

/-- The reader of the request body, as it was read off the client's connection. -/
theorem request_read (laws : h.RequestLaws) :
    ∃ head r recyclable framing, x.frontendReader.reader.unread = head ++ r.unread ∧
      Frontend.IsHead h x.frontendReader.parseSlots head x.request.req ∧
      (recyclable = true ↔ Persists x.request.req.version x.request.req.headers) ∧
      x.request.req.framing = .ok framing ∧
      x.request.reader = .ofFraming r x.frontendReader.parseSlots x.maxChunkHeaderLength
        x.maxHeadLength recyclable framing := by
  obtain ⟨head, r, recyclable, framing, hsplit, hhead, hpers, hframing, hreader⟩ :=
    FrontendReader.read_found laws x.read
  exact ⟨head, r, recyclable, framing, hsplit, hhead, connectionIsPersistent_iff hpers, hframing,
    hreader⟩

section Finished

variable (hsize : h.ChunkSizeLaws) (hfields : h.FieldSectionLaws)
variable {slots : ParseSlots} {allowBody : Bool} {maxHead maxLine : Nat} {unread head rest : Bytes}
variable {interims : List RelayedInterim}

include hsize hfields

/-- What a recipient of the response knows of its body. -/
theorem responseBody_reads {slots : ParseSlots} {maxHead maxLine : Nat}
    (hfinal : IntoFinal h slots (!x.isHead) maxHead maxLine unread x.requestBodyForwarder
      x.pending x.forwarder interims head rest) :
    ∃ (r : BytesReader) (recyclable : Bool), r.unread = rest ∧
      (recyclable = true ↔ Persists x.received.version x.received.headers) ∧
      ReadsBody h r recyclable
        (responseBodyLength x.isHead x.received.code x.received.headers.headers)
        x.responseBody := by
  obtain ⟨r, recyclable, framing, hrest, hpersistent, hframing, hout⟩ := hfinal.finalOut
  refine ⟨r, recyclable, hrest, connectionIsPersistent_iff hpersistent, ?_⟩
  have hframing : x.received.framing = .ok framing := hframing
  rw [responseBody, hout]
  exact readsBody_bodyReader hsize hfields hframing

/-- The response head was sent behind the interim ones, and both bodies are through. -/
theorem finished (laws : h.RequestLaws)
    (hfinal : IntoFinal h slots (!x.isHead) maxHead maxLine unread x.requestBodyForwarder
      x.pending x.forwarder interims head rest) :
    ∃ frontendReader target backendReader frontendWriter,
      Sends medium (responseHead x.received.code x.received.reason x.sentFields)
        x.forwarder.pending.frontendWriter.writer x.responseSink ∧
      HandsBack requestSide h x.request.reader (requestWriter x.request.reader) x.requestSink
        (frontendReader, target) x.backendSink ∧
      HandsBack responseSide h x.responseBody (responseWriter x.clientCannotChunk x.responseBody)
        x.responseSink (backendReader, frontendWriter) x.frontendSink ∧
      x.frontend = (frontendReader.bind fun fr => frontendWriter.map fun fw => (fr, ⟨fw⟩)) ∧
      x.backend = backendReader.map fun br => (br, ⟨x.backendSink⟩) := by
  obtain ⟨hexchanger, hsends⟩ := forwardResponseHead_ok x.forwardResponseHead
  obtain ⟨frontendReader, backendReader, target, frontendWriter, hrequest, hresponse, hfrontend,
    hbackend⟩ := ProxyBodyExchanger.finish_ok x.finish
  have hclient : x.forwarder.pending.clientOptions = ⟨x.isHead, x.request.req.version⟩ := by
    rw [hfinal.carried]
    rfl
  have hoptions : x.forwarder.pending.options = x.options := by
    rw [hfinal.carried]
    rfl
  have hfresh := FrontendReader.read_fresh laws x.read
  obtain ⟨_, _, -, -, hreads⟩ := x.responseBody_reads hsize hfields hfinal
  obtain ⟨r', recyclable', framing', -, -, -, hout⟩ := hfinal.finalOut
  refine ⟨frontendReader, target, backendReader, frontendWriter, ?_, ?_, ?_, hfrontend, hbackend⟩
  -- the caller edits the fields, not the status line
  · have hsends : Sends medium (responseHead x.forwarder.proxyResponse.backend.res.code
        x.forwarder.proxyResponse.backend.res.reason (Frontend.writtenFields _ (responseFraming
          (x.forwarder.pending.clientOptions.version == .http10)
          (x.forwarder.pending.clientOptions.isHead ||
            x.forwarder.proxyResponse.backend.res.code == 304) x.responseBody)))
        x.forwarder.pending.frontendWriter.writer x.responseSink := hsends
    have hcode : x.forwarder.proxyResponse.backend.res.code = x.received.code := by
      rw [received, hout]
      rfl
    have hreason : x.forwarder.proxyResponse.backend.res.reason = x.received.reason := by
      rw [received, hout]
      rfl
    rw [hclient, hcode, hreason] at hsends
    exact hsends
  · rw [hexchanger] at hrequest
    exact Side.handsBack_of_reaches hsize hfields requestSide_lawful requestSide_idles
      x.chunkSize_lt (request_paired hfresh) hfinal.reaches hrequest
  · have hresponse : responseSide.finish h x.fuel (ResponseBodyForwarder.new h
        x.forwarder.pending.options.bodyChunkSize x.responseBody (responseWriter
          (x.forwarder.pending.clientOptions.version == .http10) x.responseBody) x.responseSink) =
        (.ok (backendReader, frontendWriter), x.frontendSink) := by
      rw [hexchanger] at hresponse
      exact hresponse
    rw [hclient, hoptions] at hresponse
    exact Side.handsBack_of_reaches hsize hfields responseSide_lawful responseSide_idles
      x.chunkSize_lt (response_paired _ hreads.fresh) (.refl _) hresponse

omit hsize hfields in
/-- The fields of the final response announce the encoding of its body, as they are sent and as
    they are read back. -/
theorem sentFields_bodyLength (hfinal : IntoFinal h slots (!x.isHead) maxHead maxLine unread
    x.requestBodyForwarder x.pending x.forwarder interims head rest) :
    responseBodyLength x.isHead x.received.code x.sentFields =
        bodyLengthOf (responseWriter x.clientCannotChunk x.responseBody) ∧
      responseBodyLength x.isHead x.received.code (x.sentFields.map readBack) =
        bodyLengthOf (responseWriter x.clientCannotChunk x.responseBody) := by
  obtain ⟨r, recyclable, framing, -, -, -, hout⟩ := hfinal.finalOut
  let sent := (x.forwarder.edit x.responseHeaders).pending.withResponseHeaders x.now
    (x.forwarder.edit x.responseHeaders).proxyResponse.backend.res
  have hcode : sent.code = x.received.code := by
    show x.forwarder.proxyResponse.backend.res.code = _
    rw [received, hout]
    rfl
  have hreader : x.responseBody = BackendReader.bodyReader r slots maxHead maxLine
      (!x.isHead && !neverHasBody sent.code) recyclable framing := by
    rw [hcode, responseBody, hout]
    rfl
  have hlength := @responseBodyLength_responseFraming r slots maxHead maxLine x.isHead recyclable
    x.clientCannotChunk (x.isHead || x.received.code == 304) framing sent
  rw [← hreader, hcode] at hlength
  exact hlength

/-- The connection of the client was read up to the end of the request. -/
theorem readRequest (laws : h.RequestLaws) {sink s : Sink}
    {out : Option ConnectionReader × Option Sink}
    (hrequest : HandsBack requestSide h x.request.reader (requestWriter x.request.reader) sink out s)
    {fr : ConnectionReader} (hfr : out.1 = some fr) :
    ∃ w, x.frontendReader.reader.unread = w ++ fr.reader.unread ∧
      ReadRequest h x.frontendReader.parseSlots x.request.req w := by
  obtain ⟨head, r, recyclable, framing, hsplit, hhead, -, hframing, hreader⟩ := x.request_read laws
  obtain ⟨t, htail, hstands⟩ := hrequest.stands fr hfr
  rw [hreader] at htail
  obtain ⟨body, hunread, hcarries⟩ := carries_ofFraming hsize hfields htail
  refine ⟨head ++ body, ?_, head, body, rfl, hhead, ?_⟩
  · rw [hsplit, hunread, hstands, List.append_assoc]
  · rw [requestBodyLength, framedLength_of_framing .none .invalid hframing]
    exact hcarries.isBody

omit hsize hfields in
/-- The whole response stands on the connection of the client. -/
theorem sentResponse (hfinal : IntoFinal h slots (!x.isHead) maxHead maxLine unread
      x.requestBodyForwarder x.pending x.forwarder interims head rest)
    (hhead : Sends medium (responseHead x.received.code x.received.reason x.sentFields)
      x.forwarder.pending.frontendWriter.writer x.responseSink)
    {out : Option ConnectionReader × Option Sink}
    (hresponse : HandsBack responseSide h x.responseBody
      (responseWriter x.clientCannotChunk x.responseBody) x.responseSink out x.frontendSink)
    {fw : Sink} (hfw : out.2 = some fw) :
    ∃ w, fw.wire = x.frontendWriter.writer.wire ++
        (if x.request.req.version = .http11 then interims.flatMap RelayedInterim.sent else []) ++
          w ∧
      SentResponse h x.isHead x.received.code x.received.reason x.sentFields w := by
  obtain ⟨content, trailers, w, hwire, hencodes⟩ := hresponse.body
  refine ⟨_, ?_, w, rfl, ?_⟩
  · have hhead : x.responseSink.wire = x.forwarder.pending.frontendWriter.writer.wire ++ _ :=
      hhead.wire
    rw [hresponse.target_eq hfw, hwire, hhead, hfinal.wire, List.append_assoc _ _ w]
    rfl
  · rw [(x.sentFields_bodyLength hfinal).1]
    exact isBody_of_encodes hencodes

omit hsize hfields in
/-- The whole request stands on the connection of the backend. -/
theorem sentRequest
    (hforwarded : Sends medium (Httparse.requestHead x.proxyRequest.req.method x.path
      (ascii "HTTP/1.1") x.forwardedFields) x.backendWriter.writer x.requestSink)
    {out : Option ConnectionReader × Option Sink}
    (hrequest : HandsBack requestSide h x.request.reader (requestWriter x.request.reader)
      x.requestSink out x.backendSink) :
    ∃ w, x.backendSink.wire = x.backendWriter.writer.wire ++ w ∧
      SentRequest h x.proxyRequest.req.method x.path x.forwardedFields w := by
  obtain ⟨content, trailers, w, hwire, hencodes⟩ := hrequest.body
  refine ⟨_, ?_, w, rfl, ?_⟩
  · have hhead : x.requestSink.wire = x.backendWriter.writer.wire ++ _ := hforwarded.wire
    rw [hwire, hhead, List.append_assoc]
  · have hannounced := requestBodyLength_requestFraming x.request.reader
      (x.proxyRequest.intoBackendRequest.edit x.path x.requestHeaders).request
    have hreader : (x.proxyRequest.intoBackendRequest.edit x.path x.requestHeaders).bodyReader =
        x.request.reader := (FrontendProxyRequest.fromRequest_ok x.fromRequest).reader
    rw [forwardedFields, hreader, hannounced]
    exact isBody_of_encodes hencodes

end Finished

end Exchange

/-- Connections are handed back exactly when that is safe: for every exchange that is
    finished, with bodies of every framing, in pieces of every size, over connections that
    deliver and accept bytes as they like, with any number of interim responses, and with the
    fields of every message edited as the caller likes. -/
theorem finish_handedBack (hsize : h.ChunkSizeLaws) (hfields : h.FieldSectionLaws)
    (requestLaws : h.RequestLaws) (laws : h.ResponseLaws) (headLaws : h.ResponseHeadLaws)
    (x : Exchange h) : ∃ interims, HandedBack x interims := by
  obtain ⟨hforwarded, interims, head, rest, hfinal, -⟩ :=
    x.forwarded laws headLaws x.forwardsToFinal
  obtain ⟨frontendReader, target, backendReader, frontendWriter, hhead, hrequest, hresponse,
    hfrontend, hbackend⟩ := x.finished hsize hfields requestLaws hfinal
  obtain ⟨-, r, recyclable, framing, -, -, hpersists, -, hreader⟩ := x.request_read requestLaws
  obtain ⟨r', recyclable', hrest, hreceived, hreads⟩ := x.responseBody_reads hsize hfields hfinal
  -- the client's pair needs both halves, the backend's only what was read off it
  have hfrontendPair : ∀ c ∈ x.frontend, frontendReader = some c.1 ∧
      frontendWriter = some c.2.writer := by
    intro c hc
    rw [hfrontend] at hc
    obtain ⟨fr, hfr, hc⟩ := Option.bind_eq_some_iff.mp hc
    obtain ⟨fw, hfw, rfl⟩ := Option.map_eq_some_iff.mp hc
    exact ⟨hfr, hfw⟩
  have hbackendPair : ∀ c ∈ x.backend, backendReader = some c.1 ∧
      c.2.writer = x.backendSink := by
    intro c hc
    rw [hbackend] at hc
    obtain ⟨br, hbr, rfl⟩ := Option.map_eq_some_iff.mp hc
    exact ⟨hbr, rfl⟩
  refine ⟨interims, ⟨head, rest, hfinal.split, hfinal.isHead⟩, hfinal.whole, hfinal.code, ?_, ?_,
    ?_, ?_, ?_, ?_⟩
  -- the reader of one body and the writer of the other
  · have hboth : x.frontend.isSome = (frontendReader.isSome && frontendWriter.isSome) := by
      rw [hfrontend]
      cases frontendReader with
      | none => rfl
      | some fr =>
        cases frontendWriter with
        | none => rfl
        | some fw => rfl
    have hsource : frontendReader.isSome = x.request.reader.recyclable := hrequest.source
    have hwriter : frontendWriter.isSome = true ↔
        bodyLengthOf (responseWriter x.clientCannotChunk x.responseBody) ≠ .untilClose := by
      rw [hresponse.target_isSome]
      exact recyclable_iff_bodyLengthOf _
    rw [hboth, Bool.and_eq_true, hwriter, (x.sentFields_bodyLength hfinal).1, hsource, hreader,
      recyclable_ofFraming, hpersists]
  · rw [hbackend, Option.isSome_map, ← hreceived, ← hreads.recyclable_iff, ← hresponse.source]
  · intro c hc
    exact x.readRequest hsize hfields requestLaws hrequest (hfrontendPair c hc).1
  · intro c hc
    exact x.sentResponse hfinal hhead hresponse (hfrontendPair c hc).2
  -- a reader is only handed back behind a body that does not end with the connection
  · intro c hc
    obtain ⟨hbr, -⟩ := hbackendPair c hc
    have hrecyclable : x.responseBody.recyclable = true := by
      rw [← hresponse.source, hbr]
      rfl
    obtain ⟨t, htail, hstands⟩ := hresponse.stands c.1 hbr
    obtain ⟨body, hunread, hbody⟩ := hreads.extent t htail (hreads.recyclable_iff.mp hrecyclable).2
    refine ⟨head ++ body, ?_, head, body, rfl, hfinal.isHead, hbody⟩
    rw [hfinal.split, ← hrest, hunread, hstands]
    simp only [List.append_assoc]
  · intro c hc
    rw [(hbackendPair c hc).2]
    exact x.sentRequest hforwarded hrequest

/-- Two pipelined requests of a client, of which the second has begun to arrive. -/
def keptReader : FrontendReader :=
  ⟨⟨⟨[.data 80 (ascii "UT / HTTP/1.1\r\nHost: a\r\nConnection: Keep-Alive\r\nContent-"), .pending,
    .data 76 (ascii "ength: 3\r\n\r\nab"), .pending, .data 99 (ascii "GET")]⟩, .default⟩, ⟨4⟩⟩

def keptRead : Polled FrontendError FrontendRequest := keptReader.read reference 128 128

theorem keptRead_isOk : keptRead.isOk = true := by decide +kernel

/-- A sink that accepts two bytes, and is not ready. -/
def keptWriter : Sink := ⟨[], [.accept 2, .pending]⟩

def keptFromRequest : Polled FrontendRequestError FrontendProxyRequest :=
  .ofExcept (FrontendProxyRequest.fromRequest (keptRead.get keptRead_isOk) ⟨keptWriter⟩ .default)

theorem keptFromRequest_isOk : keptFromRequest.isOk = true := by decide +kernel

/-- A backend that sends an interim response, and is slow to send the final one. -/
def keptBackend : BackendReader :=
  ⟨⟨⟨[.data 72 (continueHead.1.drop 1), .pending, .data 72 (shortHead.1.drop 1), .pending,
    .data 104 (ascii "i")]⟩, .default⟩, ⟨4⟩⟩

def keptForward : Polled BackendRequestError BackendProxyResponseReader × Sink :=
  ((keptFromRequest.get keptFromRequest_isOk).intoBackendRequest.edit (ascii "/b")
    ⟨[(ascii "Host", ascii "b")]⟩).forward (keptBackend, ⟨keptWriter⟩)

theorem keptForward_isOk : keptForward.1.isOk = true := by decide +kernel

def keptStream : Polled BackendResponseError (BackendProxyResponseStream reference) :=
  (keptForward.1.get keptForward_isOk).readBackendResponse reference 3 keptForward.2

theorem keptStream_isOk : keptStream.isOk = true := by decide +kernel

def keptFinal : Polled InformationalProxyResponseForwardError
    (BackendFinalProxyResponseForwarder reference) × Sink :=
  (keptStream.get keptStream_isOk).intoFinal [1]

theorem keptFinal_isOk : keptFinal.1.isOk = true := by decide +kernel

def keptExchanger : Polled ProxyError (ProxyBodyExchanger reference) × Sink :=
  ((keptFinal.1.get keptFinal_isOk).edit ⟨[(ascii "Etag", ascii "x")]⟩).forwardResponseHead
    (ascii "now")

theorem keptExchanger_isOk : keptExchanger.1.isOk = true := by decide +kernel

def keptFinish : Polled ProxyError (Option (FrontendReader × FrontendWriter) ×
    Option (BackendReader × BackendWriter)) × Sink × Sink :=
  (keptExchanger.1.get keptExchanger_isOk).finish 60

theorem keptFinish_isOk : keptFinish.1.isOk = true := by decide +kernel

/-- It comes to two pairs, and two sinks. -/
theorem pairs_of_isOk {ε α β : Type} {y : Polled ε (α × β) × Sink × Sink}
    (hok : y.1.isOk = true) :
    y = (.ok ((y.1.get hok).1, (y.1.get hok).2), y.2.1, y.2.2) := eq_get hok

/-- Both connections of this exchange are kept. -/
def keptExchange : Exchange reference where
  options := .default
  chunkSize_lt := ProxyOptions.default_bodyChunkSize_lt
  frontendReader := keptReader
  frontendWriter := ⟨keptWriter⟩
  maxHeadLength := 128
  maxChunkHeaderLength := 128
  request := keptRead.get keptRead_isOk
  read := Polled.eq_ok_get keptRead_isOk
  proxyRequest := keptFromRequest.get keptFromRequest_isOk
  fromRequest := Polled.ofExcept_eq_ok.mp (Polled.eq_ok_get keptFromRequest_isOk)
  path := ascii "/b"
  requestHeaders := ⟨[(ascii "Host", ascii "b")]⟩
  backendReader := keptBackend
  backendWriter := ⟨keptWriter⟩
  responseReader := keptForward.1.get keptForward_isOk
  requestSink := keptForward.2
  forward := eq_get keptForward_isOk
  polls := 3
  stream := keptStream.get keptStream_isOk
  readBackendResponse := Polled.eq_ok_get keptStream_isOk
  forwarder := keptFinal.1.get keptFinal_isOk
  forwardsToFinal := forwardsToFinal_of_intoFinal (eq_get keptFinal_isOk)
  responseHeaders := ⟨[(ascii "Etag", ascii "x")]⟩
  now := ascii "now"
  exchanger := keptExchanger.1.get keptExchanger_isOk
  responseSink := keptExchanger.2
  forwardResponseHead := eq_get keptExchanger_isOk
  fuel := 60
  frontend := (keptFinish.1.get keptFinish_isOk).1
  backend := (keptFinish.1.get keptFinish_isOk).2
  backendSink := keptFinish.2.1
  frontendSink := keptFinish.2.2
  finish := pairs_of_isOk keptFinish_isOk

theorem finish_handedBack_kept : keptExchange.frontend.isSome = true ∧
    keptExchange.backend.isSome = true ∧ ∃ interims, HandedBack keptExchange interims :=
  ⟨by decide +kernel, by decide +kernel,
    finish_handedBack chunkSizeLaws fieldSectionLaws requestLaws responseLaws responseHeadLaws
      keptExchange⟩

end Jrpxy.Proxy
