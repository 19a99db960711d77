/-
  Jrpxy.Proxy.Transcript

  What goes over the wires of an exchange.

  An exchange takes one request off the client's connection and one answer off
  the backend's, and puts one of each on the other.  What is put on a
  connection carries the content of what was taken off the other one, whatever
  the two framings, and the trailers that may be passed on
  (`Exchange.transcribed`).
-/
import Jrpxy.Body.Content
import Jrpxy.Proxy.Reuse

namespace Jrpxy.Proxy

open Poll BodyRelay BlockWriter ChunkedCoding Ascii Util HttpMessage
open Body Body.Reader Body.Writer Frontend Backend

variable {h : Httparse}

/-! ## What is written, and what is read -/

/-- The trailers that are sent with a body of this length. -/
def trailersFor (trailers : Headers) : BodyLength → Headers
  | .chunked => sanitizeTrailers trailers
  | _ => .empty

/-- What is encoded for a writer carries its content, and its trailers if it is chunked. -/
theorem carries_of_encodes {eof : Bool} {content w : Bytes} {trailers : Headers}
    {writer : Unifier.Ready eof} (hencodes : Encodes h content (sanitizeTrailers trailers) w writer) :
    Carries h w content (trailersFor trailers (bodyLengthOf writer)) (bodyLengthOf writer) := by
  cases writer with
  | bodyless r => exact ⟨hencodes.1, hencodes.2, rfl⟩
  | cl r => exact ⟨hencodes.1, hencodes.2, rfl⟩
  | chunked r => exact ⟨(sanitizeTrailers trailers).headers.length, hencodes.2⟩
  | eof a r => exact ⟨hencodes, rfl⟩

/-- The reader of a response body is one of three: for no body, for one that ends with the
    connection, and for one of the framing of the head; and the recipient's rule says which. -/
theorem bodyReader_cases {res : Response} {framing : ParsedFraming}
    (hframing : res.framing = .ok framing) (r : BytesReader) (slots : ParseSlots)
    (maxHead maxLine : Nat) (isHead recyclable : Bool) :
    let reader := BackendReader.bodyReader r slots maxHead maxLine
      (!isHead && !neverHasBody res.code) recyclable framing
    let length := responseBodyLength isHead res.code res.headers.headers
    (reader = .bodyless ⟨r, slots⟩ recyclable ∧ length = .none) ∨
      (reader = .eof (.new r slots) ∧ length = .untilClose) ∨
      (reader = .ofFraming r slots maxLine maxHead recyclable framing ∧
        length = framing.bodyLength .none) := by
  dsimp only
  by_cases hbody : isHead = true ∨ (100 ≤ res.code ∧ res.code ≤ 199) ∨ res.code = 204 ∨
      res.code = 304
  · have hexpect : (!isHead && !neverHasBody res.code) = false := by
      rw [Bool.and_eq_false_iff, Bool.not_eq_false', Bool.not_eq_false']
      simpa [neverHasBody, or_assoc] using hbody
    rw [hexpect, responseBodyLength, if_pos hbody]
    exact .inl ⟨rfl, rfl⟩
  · have hexpect : (!isHead && !neverHasBody res.code) = true := by
      rw [← Bool.not_eq_false, Bool.and_eq_false_iff, Bool.not_eq_false', Bool.not_eq_false']
      simpa [neverHasBody, or_assoc] using hbody
    have hlength := framedLength_of_framing .untilClose .untilClose hframing
    rw [hexpect, responseBodyLength, if_neg hbody, hlength]
    cases framing with
    | noFraming => exact .inr (.inl ⟨rfl, rfl⟩)
    | length n => exact .inr (.inr ⟨rfl, rfl⟩)
    | chunked => exact .inr (.inr ⟨rfl, rfl⟩)

/-- The reader of a response that completes stands in front of a body of the length the
    recipient's rule announces, which carries what the reader owes. -/
theorem carries_bodyReader (hsize : h.ChunkSizeLaws) (hfields : h.FieldSectionLaws)
    {r : BytesReader} {slots : ParseSlots} {maxHead maxLine : Nat} {isHead recyclable : Bool}
    {res : Response} {framing : ParsedFraming} (hframing : res.framing = .ok framing)
    {reader : BackendBodyReader} (hreader : reader = BackendReader.bodyReader r slots maxHead
      maxLine (!isHead && !neverHasBody res.code) recyclable framing) {t : BodyEnd}
    (htail : (reader.owed h responseSide.last).tail = some t) :
    ∃ body, r.unread = body ++ t.rest ∧
      Carries h body (reader.owed h responseSide.last).body t.trailers
        (responseBodyLength isHead res.code res.headers.headers) := by
  rcases bodyReader_cases hframing r slots maxHead maxLine isHead recyclable with
    ⟨hcase, hlength⟩ | ⟨hcase, hlength⟩ | ⟨hcase, hlength⟩
  · obtain rfl := hreader.trans hcase
    cases htail
    rw [hlength]
    exact ⟨[], rfl, rfl, rfl, rfl⟩
  -- everything up to the close is the body, if it closes cleanly
  · obtain rfl := hreader.trans hcase
    have htail : (if r.io.Clean then some (BodyEnd.mk .empty []) else none) = some t := htail
    split at htail
    · cases htail
      rw [hlength]
      exact ⟨r.unread, (List.append_nil _).symm, rfl, rfl⟩
    · cases htail
  · obtain rfl := hreader.trans hcase
    rw [hlength]
    exact carries_ofFraming hsize hfields htail

/-! ## A message that is passed on -/

/-- A message was taken off one connection and put on another with this head: the bodies have
    the same content, each in the encoding that its own head announces. -/
def PassedOn (h : Httparse) (IsHead : Bytes → Prop) (length : BodyLength) (newHead : Bytes)
    (newLength : BodyLength) (taken put : Bytes) : Prop :=
  ∃ head body newBody content trailers,
    (taken = head ++ body ∧ IsHead head ∧ Carries h body content trailers length) ∧
    (put = newHead ++ newBody ∧ Carries h newBody content (trailersFor trailers newLength) newLength)

/-- What goes over the wires of an exchange: what is taken off the client's connection, put on
    the backend's, taken off that, and put on the client's; and the interim responses. -/
structure Transcript where
  asked : Bytes
  forwarded : Bytes
  answered : Bytes
  relayed : Bytes
  interims : List RelayedInterim

/-- The transcript of the exchanges from `x`, which has the client, to `z`, which has the
    origin: the request was passed on to the origin, and the answer, interim responses and the
    final one, to the client.  Of a single exchange, `x` is `z`. -/
structure Transcribes (x z : Exchange h) (t : Transcript) : Prop where
  request : PassedOn h (Frontend.IsHead h x.frontendReader.parseSlots · x.request.req)
    (requestBodyLength x.request.req.headers.headers)
    (Httparse.requestHead x.request.req.method z.path (ascii "HTTP/1.1") z.forwardedFields)
    (requestBodyLength z.forwardedFields) t.asked t.forwarded
  sameMethod : z.request.req.method = x.request.req.method
  sameLength : requestBodyLength z.forwardedFields =
    requestBodyLength x.request.req.headers.headers
  response : ∃ final sent, t.answered = t.interims.flatMap RelayedInterim.head ++ final ∧
    t.relayed = (if x.request.req.version = .http11 then t.interims.flatMap RelayedInterim.sent
      else []) ++ sent ∧
    PassedOn h (Backend.IsHead h z.backendReader.parseSlots · z.received)
      (responseBodyLength x.isHead z.received.code z.received.headers.headers)
      (responseHead z.received.code z.received.reason x.sentFields)
      (responseBodyLength x.isHead z.received.code x.sentFields) final sent
  sameCode : x.received.code = z.received.code
  sameReason : x.received.reason = z.received.reason
  whole : ∀ i ∈ t.interims, i.Whole h z.backendReader.parseSlots
  final : ¬ (100 ≤ z.received.code ∧ z.received.code ≤ 199)
  /-- Only to a client that cannot chunk does a body end with the connection. -/
  delimited : x.request.req.version = .http11 →
    responseBodyLength x.isHead z.received.code x.sentFields ≠ .untilClose
  /-- What is sent in chunks came in chunks, or up to the end of the connection. -/
  unsized : responseBodyLength x.isHead z.received.code x.sentFields = .chunked →
    responseBodyLength x.isHead z.received.code z.received.headers.headers ∈
      [.chunked, .untilClose]
  frontendReader : ∃ rest, x.frontendReader.reader.unread = t.asked ++ rest ∧
    ∀ c ∈ x.frontend, c.1.reader.unread = rest
  backendReader : ∃ rest, z.backendReader.reader.unread = t.answered ++ rest ∧
    ∀ c ∈ z.backend, c.1.reader.unread = rest
  backendSink : z.backendSink.wire = z.backendWriter.writer.wire ++ t.forwarded
  frontendSink : x.frontendSink.wire = x.frontendWriter.writer.wire ++ t.relayed
  backendWriter : ∀ c ∈ z.backend, c.2.writer = z.backendSink
  frontendWriter : ∀ c ∈ x.frontend, c.2.writer = x.frontendSink

namespace Exchange

variable (x : Exchange h)

/-- The request is forwarded with the method it came with. -/
theorem proxyRequest_method : x.proxyRequest.req.method = x.request.req.method := by
  rw [(FrontendProxyRequest.fromRequest_ok x.fromRequest).req]

section Finished

variable {slots : ParseSlots} {maxHead maxLine : Nat} {unread head rest : Bytes}
variable {interims : List RelayedInterim}
variable (hsize : h.ChunkSizeLaws) (hfields : h.FieldSectionLaws)
include hsize hfields

/-- Both bodies were delivered, if pieces have at least one byte. -/
theorem delivered (hpos : 1 ≤ x.options.bodyChunkSize) (laws : h.RequestLaws)
    (hfinal : IntoFinal h slots (!x.isHead) maxHead maxLine unread x.requestBodyForwarder
      x.pending x.forwarder interims head rest) :
    Delivered requestSide h x.request.reader (requestWriter x.request.reader) x.requestSink
        x.backendSink ∧
      Delivered responseSide h x.responseBody (responseWriter x.clientCannotChunk x.responseBody)
        x.responseSink x.frontendSink := by
  obtain ⟨hexchanger, -⟩ := forwardResponseHead_ok x.forwardResponseHead
  obtain ⟨frontendReader, backendReader, target, frontendWriter, hrequest, hresponse, -, -⟩ :=
    ProxyBodyExchanger.finish_ok x.finish
  have hfresh := FrontendReader.read_fresh laws x.read
  obtain ⟨_, _, -, -, hreads⟩ := x.responseBody_reads hsize hfields hfinal
  rw [hexchanger] at hrequest hresponse
  constructor
  -- the request body was forwarded while the responses were read
  · obtain ⟨acts, hacts⟩ := hfinal.reaches
    have hrequest : requestSide.finish h x.fuel x.forwarder.requestBodyForwarder =
        (.ok (frontendReader, target), x.backendSink) := hrequest
    rw [hacts] at hrequest
    exact Side.delivered hsize hfields requestSide_lawful hpos x.chunkSize_lt
      (request_paired hfresh) acts x.fuel hrequest
  · have hresponse : responseSide.finish h x.fuel (ResponseBodyForwarder.new h
        x.forwarder.pending.options.bodyChunkSize x.responseBody (responseWriter
          (x.forwarder.pending.clientOptions.version == .http10) x.responseBody) x.responseSink) =
        (.ok (backendReader, frontendWriter), x.frontendSink) := hresponse
    have hclient : x.forwarder.pending.clientOptions = ⟨x.isHead, x.request.req.version⟩ := by
      rw [hfinal.carried]
      rfl
    have hoptions : x.forwarder.pending.options = x.options := by
      rw [hfinal.carried]
      rfl
    rw [hclient, hoptions] at hresponse
    exact Side.delivered hsize hfields responseSide_lawful hpos x.chunkSize_lt
      (response_paired _ hreads.fresh) [] x.fuel hresponse

end Finished

/-- The request was taken off the client's connection, and its content put on the backend's. -/
theorem passedOn_request (hsize : h.ChunkSizeLaws) (hfields : h.FieldSectionLaws)
    (laws : h.RequestLaws)
    (hsends : Sends medium (Httparse.requestHead x.proxyRequest.req.method x.path
      (ascii "HTTP/1.1") x.forwardedFields) x.backendWriter.writer x.requestSink)
    (hdelivered : Delivered requestSide h x.request.reader (requestWriter x.request.reader)
      x.requestSink x.backendSink) :
    ∃ asked forwarded t, (x.request.reader.owed h requestSide.last).tail = some t ∧
      x.frontendReader.reader.unread = asked ++ t.rest ∧
      x.backendSink.wire = x.backendWriter.writer.wire ++ forwarded ∧
      PassedOn h (Frontend.IsHead h x.frontendReader.parseSlots · x.request.req)
        (requestBodyLength x.request.req.headers.headers)
        (Httparse.requestHead x.request.req.method x.path (ascii "HTTP/1.1") x.forwardedFields)
        (requestBodyLength x.forwardedFields) asked forwarded := by
  obtain ⟨head, r, recyclable, framing, hsplit, hhead, -, hframing, hreader⟩ := x.request_read laws
  obtain ⟨t, w, htail, hwire, hencodes⟩ := hdelivered
  have htail' := htail
  rw [hreader] at htail'
  obtain ⟨body, hunread, hbody⟩ := carries_ofFraming hsize hfields htail'
  rw [← hreader] at hbody
  have hlength : requestBodyLength x.request.req.headers.headers = framing.bodyLength .none :=
    framedLength_of_framing .none .invalid hframing
  have hreader' : (x.proxyRequest.intoBackendRequest.edit x.path x.requestHeaders).bodyReader =
      x.request.reader := (FrontendProxyRequest.fromRequest_ok x.fromRequest).reader
  have hnew : requestBodyLength x.forwardedFields = bodyLengthOf (requestWriter x.request.reader) := by
    rw [forwardedFields, hreader']
    exact requestBodyLength_requestFraming _ _
  refine ⟨head ++ body, _, t, htail, ?_, ?_, head, body, w,
    (x.request.reader.owed h requestSide.last).body, t.trailers, ⟨rfl, hhead, ?_⟩, rfl, ?_⟩
  · rw [hsplit, hunread, List.append_assoc]
  · have hsent : x.requestSink.wire = x.backendWriter.writer.wire ++ _ := hsends.wire
    rw [hwire, hsent, List.append_assoc, x.proxyRequest_method]
  · rw [hlength]
    exact hbody
  · rw [hnew]
    exact carries_of_encodes hencodes

/-- The final response was taken off the backend's connection, and its content put on the
    client's. -/
theorem passedOn_response {slots : ParseSlots} {maxHead maxLine : Nat} {unread head rest : Bytes}
    {interims : List RelayedInterim} (hsize : h.ChunkSizeLaws) (hfields : h.FieldSectionLaws)
    (hfinal : IntoFinal h slots (!x.isHead) maxHead maxLine unread x.requestBodyForwarder
      x.pending x.forwarder interims head rest)
    (hsends : Sends medium (responseHead x.received.code x.received.reason x.sentFields)
      x.forwarder.pending.frontendWriter.writer x.responseSink)
    (hdelivered : Delivered responseSide h x.responseBody
      (responseWriter x.clientCannotChunk x.responseBody) x.responseSink x.frontendSink) :
    ∃ final sent t, (x.responseBody.owed h responseSide.last).tail = some t ∧
      unread = interims.flatMap RelayedInterim.head ++ final ++ t.rest ∧
      x.frontendSink.wire = x.frontendWriter.writer.wire ++
        ((if x.request.req.version = .http11 then interims.flatMap RelayedInterim.sent else []) ++
          sent) ∧
      PassedOn h (Backend.IsHead h slots · x.received)
        (responseBodyLength x.isHead x.received.code x.received.headers.headers)
        (responseHead x.received.code x.received.reason x.sentFields)
        (responseBodyLength x.isHead x.received.code x.sentFields) final sent := by
  obtain ⟨r, recyclable, framing, hrest, -, hframing, hout⟩ := hfinal.finalOut
  obtain ⟨t, w, htail, hwire, hencodes⟩ := hdelivered
  have hframing : x.received.framing = .ok framing := hframing
  have hreader : x.responseBody = BackendReader.bodyReader r slots maxHead maxLine
      (!x.isHead && !neverHasBody x.received.code) recyclable framing := by
    rw [responseBody, hout]
    rfl
  obtain ⟨body, hunread, hbody⟩ := carries_bodyReader hsize hfields hframing hreader htail
  refine ⟨head ++ body, _, t, htail, ?_, ?_, head, body, w,
    (x.responseBody.owed h responseSide.last).body, t.trailers, ⟨rfl, hfinal.isHead, hbody⟩, rfl, ?_⟩
  · rw [hfinal.split, ← hrest, hunread]
    simp only [List.append_assoc]
  · have hsent : x.responseSink.wire = x.forwarder.pending.frontendWriter.writer.wire ++ _ :=
      hsends.wire
    rw [hwire, hsent, hfinal.wire]
    simp only [List.append_assoc]
    rfl
  · rw [(x.sentFields_bodyLength hfinal).1]
    exact carries_of_encodes hencodes

end Exchange

/-- A request body is forwarded in the framing it was read in. -/
theorem Exchange.requestLength (laws : h.RequestLaws) (x : Exchange h) :
    requestBodyLength x.forwardedFields = requestBodyLength x.request.req.headers.headers := by
  obtain ⟨head, r, recyclable, framing, -, -, -, hframing, hreader⟩ := x.request_read laws
  have hlength : requestBodyLength x.request.req.headers.headers = framing.bodyLength .none :=
    framedLength_of_framing .none .invalid hframing
  have hreader' : (x.proxyRequest.intoBackendRequest.edit x.path x.requestHeaders).bodyReader =
      x.request.reader := (FrontendProxyRequest.fromRequest_ok x.fromRequest).reader
  rw [hlength, forwardedFields, hreader', hreader, requestBodyLength_requestFraming]
  cases framing with
  | length n => exact congrArg _ (toNat_ofNat_of_lt (length_of_framing hframing))
  | chunked => rfl
  | noFraming => rfl

/-- How the length of a response body changes: in chunks only if it was not announced, and up
    to the end of the connection only for a client that cannot chunk. -/
theorem Exchange.responseLength (x : Exchange h) {slots : ParseSlots} {maxHead maxLine : Nat}
    {unread head rest : Bytes} {interims : List RelayedInterim}
    (hfinal : IntoFinal h slots (!x.isHead) maxHead maxLine unread x.requestBodyForwarder
      x.pending x.forwarder interims head rest) :
    (x.request.req.version = .http11 →
      responseBodyLength x.isHead x.received.code x.sentFields ≠ .untilClose) ∧
    (responseBodyLength x.isHead x.received.code x.sentFields = .chunked →
      responseBodyLength x.isHead x.received.code x.received.headers.headers ∈
        [.chunked, .untilClose]) := by
  obtain ⟨r, recyclable, framing, -, -, hframing, hout⟩ := hfinal.finalOut
  have hframing : x.received.framing = .ok framing := hframing
  have hreader : x.responseBody = BackendReader.bodyReader r slots maxHead maxLine
      (!x.isHead && !neverHasBody x.received.code) recyclable framing := by
    rw [responseBody, hout]
    rfl
  rw [(x.sentFields_bodyLength hfinal).1]
  -- no length is announced for a body in chunks, and for one up to the end
  have hunsized : ∀ {clientCannotChunk : Bool} {writer : FrontendBodyReady},
      writer = unsizedWriter clientCannotChunk →
      (x.request.req.version = .http11 → clientCannotChunk = false) →
      x.request.req.version = .http11 → bodyLengthOf writer ≠ .untilClose := by
    rintro clientCannotChunk writer rfl hclient hversion
    rw [hclient hversion]
    exact fun heq => by cases heq
  have hclient : x.request.req.version = .http11 → x.clientCannotChunk = false := by
    intro hversion
    rw [clientCannotChunk, hversion]
    rfl
  rcases bodyReader_cases hframing r slots maxHead maxLine x.isHead recyclable with
    ⟨hcase, hlength⟩ | ⟨hcase, hlength⟩ | ⟨hcase, hlength⟩
  · rw [hreader, hcase, hlength]
    exact ⟨fun _ heq => (by cases heq), fun heq => (by cases heq)⟩
  · rw [hreader, hcase, hlength]
    exact ⟨hunsized rfl hclient, fun _ => by simp⟩
  · rw [hreader, hcase, hlength]
    cases framing with
    | length n => exact ⟨fun _ heq => (by cases heq), fun heq => (by cases heq)⟩
    | chunked => exact ⟨hunsized rfl hclient, fun _ => by simp [ParsedFraming.bodyLength]⟩
    | noFraming => exact ⟨fun _ heq => (by cases heq), fun heq => (by cases heq)⟩

/-- An exchange that has come to its final response, and is finished, has a transcript. -/
theorem Exchange.transcribed_of_final (hsize : h.ChunkSizeLaws) (hfields : h.FieldSectionLaws)
    (laws : h.RequestLaws) (x : Exchange h) (hpos : 1 ≤ x.options.bodyChunkSize)
    (hforwarded : Sends medium (Httparse.requestHead x.proxyRequest.req.method x.path
      (ascii "HTTP/1.1") x.forwardedFields) x.backendWriter.writer x.requestSink)
    {interims : List RelayedInterim} {head rest : Bytes}
    (hfinal : IntoFinal h x.backendReader.parseSlots (!x.isHead) x.options.maxBackendHeadLength
      x.options.maxChunkHeaderLength x.backendReader.reader.unread x.requestBodyForwarder
      x.pending x.forwarder interims head rest) :
    ∃ t, Transcribes x x t ∧ t.interims = interims := by
  obtain ⟨frontendReader, target, backendReader, frontendWriter, hhead, hrequest, hresponse,
    hfrontend, hbackend⟩ := x.finished hsize hfields laws hfinal
  obtain ⟨hup, hdown⟩ := x.delivered hsize hfields hpos laws hfinal
  obtain ⟨asked, forwarded, t, htail, hasked, hforwardedWire, hpassed⟩ :=
    x.passedOn_request hsize hfields laws hforwarded hup
  obtain ⟨final, sent, t', htail', hanswered, hrelayed, hpassed'⟩ :=
    x.passedOn_response hsize hfields hfinal hhead hdown
  obtain ⟨hdelimited, hunsized⟩ := x.responseLength hfinal
  refine ⟨⟨asked, forwarded, interims.flatMap RelayedInterim.head ++ final, _, interims⟩,
    ⟨hpassed, rfl, x.requestLength laws, ⟨final, sent, rfl, rfl, hpassed'⟩, rfl, rfl, hfinal.whole,
      hfinal.code, hdelimited, hunsized, ⟨t.rest, hasked, ?_⟩, ⟨t'.rest, hanswered, ?_⟩, hforwardedWire,
      hrelayed, ?_, ?_⟩, rfl⟩
  -- a connection that is handed back stands where the body it was read off ends
  · intro c hc
    rw [hfrontend] at hc
    obtain ⟨fr, hfr, hc⟩ := Option.bind_eq_some_iff.mp hc
    obtain ⟨fw, hfw, rfl⟩ := Option.map_eq_some_iff.mp hc
    obtain ⟨t₁, htail₁, hstands⟩ := hrequest.stands fr hfr
    cases htail.symm.trans htail₁
    exact hstands
  · intro c hc
    rw [hbackend] at hc
    obtain ⟨br, hbr, rfl⟩ := Option.map_eq_some_iff.mp hc
    obtain ⟨t₁, htail₁, hstands⟩ := hresponse.stands br hbr
    cases htail'.symm.trans htail₁
    exact hstands
  · intro c hc
    rw [hbackend] at hc
    obtain ⟨br, -, rfl⟩ := Option.map_eq_some_iff.mp hc
    rfl
  · intro c hc
    rw [hfrontend] at hc
    obtain ⟨fr, -, hc⟩ := Option.bind_eq_some_iff.mp hc
    obtain ⟨fw, hfw, rfl⟩ := Option.map_eq_some_iff.mp hc
    exact hresponse.target_eq hfw

/-- Every exchange that is finished has a transcript, if pieces have at least one byte: for
    bodies of every framing, over connections that deliver and accept bytes as they like. -/
theorem Exchange.transcribed (hsize : h.ChunkSizeLaws) (hfields : h.FieldSectionLaws)
    (requestLaws : h.RequestLaws) (laws : h.ResponseLaws) (headLaws : h.ResponseHeadLaws)
    (x : Exchange h) (hpos : 1 ≤ x.options.bodyChunkSize) : ∃ t, Transcribes x x t := by
  obtain ⟨hforwarded, interims, head, rest, hfinal, -⟩ :=
    x.forwarded laws headLaws x.forwardsToFinal
  obtain ⟨t, ht, -⟩ := x.transcribed_of_final hsize hfields requestLaws hpos hforwarded hfinal
  exact ⟨t, ht⟩

end Jrpxy.Proxy
