/-
  Jrpxy.Proxy.Exchange

  One exchange: from the written request to the connections it leaves.

  While a response is read the request body is forwarded, for as long as the
  read takes.  The backend answers with a stream of responses, each rewrapped
  with the state of the exchange (`attachFrontendState`); informational ones
  are passed on until the final one comes; its head is written in the framing
  its body will have; and both bodies are copied to their end.
-/
import Jrpxy.Proxy.Response
import Jrpxy.Proxy.Body

namespace Jrpxy.Proxy

open Poll BodyRelay Ascii Util HttpMessage Body Body.Reader Body.Writer Frontend Backend

/-- Drive the request body forward while `fut` is awaited, here for this many polls. -/
def RequestBodyForwarder.forwardWhile {ε α : Type} (h : Httparse) (polls : Nat)
    (fut : Polled ε α) (self : RequestBodyForwarder h) :
    Polled ProxyCopyError (Except ε α) × RequestBodyForwarder h :=
  andThen (Run.forwardWhile polls ⟨self, none⟩) (·.relay) fun _ run => (fut.output, run.relay)

/-- Why no response head was read; the client can still be told. -/
structure BackendResponseError where
  pending : PendingFrontendResponse
  error : ProxyCopyError

/-- Why no further response head was read, behind an informational response. -/
structure BackendStreamError where
  pending : PendingFrontendResponse
  error : ProxyCopyError

/-- Why an informational response was not forwarded, or the next one not read. -/
inductive InformationalProxyResponseForwardError where
  | frontend (e : ProxyFrontendError)
  | backend (e : BackendStreamError)

variable (h : Httparse)

/-- An informational response, and what it takes to go on. -/
structure BackendInformationalProxyResponseForwarder where
  proxyInformationalResponse : BackendInformationalProxyResponse
  requestBodyForwarder : RequestBodyForwarder h
  pending : PendingFrontendResponse
  proxyStreamReader : NormalizedStreamReader

/-- The last response of a stream. -/
structure BackendFinalProxyResponseForwarder where
  requestBodyForwarder : RequestBodyForwarder h
  pending : PendingFrontendResponse
  proxyResponse : BackendFinalProxyResponse

/-- The responses of a backend come as a stream. -/
inductive BackendProxyResponseStream where
  | informational (forwarder : BackendInformationalProxyResponseForwarder h)
  | final (forwarder : BackendFinalProxyResponseForwarder h)

/-- An informational response was forwarded, or dropped if the client supports none. -/
inductive InformationalProxyResponseForwardResult where
  | forwarded (stream : BackendProxyResponseStream h)
  | dropped (stream : BackendProxyResponseStream h)

/-- Copies both bodies, once the response head has been forwarded. -/
structure ProxyBodyExchanger where
  options : ProxyOptions
  requestBodyForwarder : RequestBodyForwarder h
  responseBodyForwarder : ResponseBodyForwarder h

variable {h}

def InformationalProxyResponseForwardResult.intoInner :
    InformationalProxyResponseForwardResult h → BackendProxyResponseStream h
  | forwarded stream => stream
  | dropped stream => stream

/-- The response and its body, ready to be sent to the client. -/
def BackendFinalProxyResponse.intoFrontendResponse (self : BackendFinalProxyResponse) :
    Response × BackendBodyReader :=
  (self.backend.res, self.backend.reader)

def BackendInformationalProxyResponse.intoFrontendResponse
    (self : BackendInformationalProxyResponse) : Response :=
  self.res

/-- Fold the state of the exchange onto a response. -/
def attachFrontendState (stream : NormalizedResponseStream)
    (requestBodyForwarder : RequestBodyForwarder h) (pending : PendingFrontendResponse) :
    BackendProxyResponseStream h :=
  match stream with
  | .final proxyResponse => .final ⟨requestBodyForwarder, pending, proxyResponse⟩
  | .informational proxyInformationalResponse proxyStreamReader =>
    .informational ⟨proxyInformationalResponse, requestBodyForwarder, pending, proxyStreamReader⟩

/-- Read the first response of a backend; `sink` is the connection its request is on. -/
def BackendProxyResponseReader.readBackendResponse (h : Httparse) (polls : Nat)
    (self : BackendProxyResponseReader) (sink : Sink) :
    Polled BackendResponseError (BackendProxyResponseStream h) :=
  let pending := self.request.pending
  let requestBodyForwarder := RequestBodyForwarder.new h pending.options.bodyChunkSize
    self.request.bodyReader self.backendBodyWriter sink
  let allowBody := !pending.clientOptions.isHead
  let (readResult, requestBodyForwarder) := requestBodyForwarder.forwardWhile h polls
    (self.backendReader.read h allowBody pending.options.maxBackendHeadLength
      pending.options.maxChunkHeaderLength)
  let responseStream := readResult.bind fun r => .ofExcept (r.mapError .ofBackendError)
  let responseStream := responseStream.bind fun stream =>
    .ofExcept ((NormalizedResponseStream.new stream).mapError .backendError)
  (responseStream.mapErr (.mk pending)).bind fun stream =>
    .ok (attachFrontendState stream requestBodyForwarder pending)

/-- Forward an informational response, unless the client is one of HTTP/1.0, and read the
    next response. -/
def BackendInformationalProxyResponseForwarder.forwardInformationalResponse (polls : Nat)
    (self : BackendInformationalProxyResponseForwarder h) :
    Polled InformationalProxyResponseForwardError (InformationalProxyResponseForwardResult h) ×
      Sink :=
  let clientSupportsInformationalResponse := self.pending.clientOptions.version == .http11
  let sent : Polled ProxyFrontendError PendingFrontendResponse × Sink :=
    if clientSupportsInformationalResponse then
      self.pending.sendInformational self.proxyInformationalResponse.intoFrontendResponse
    else (.ok self.pending, self.pending.frontendWriter.writer)
  andThen (mapErr .frontend sent) id fun pending sink =>
    -- the client may stream its body only now, so it is forwarded during this read too
    let (readResult, requestBodyForwarder) := self.requestBodyForwarder.forwardWhile h polls
      (self.proxyStreamReader.read h)
    let responseStream := readResult.bind fun r => .ofExcept (r.mapError .backendError)
    ((responseStream.mapErr fun e => .backend ⟨pending, e⟩).bind fun stream =>
      let responseStream := attachFrontendState stream requestBodyForwarder pending
      .ok (if clientSupportsInformationalResponse then .forwarded responseStream
        else .dropped responseStream), sink)

/-- Forward informational responses until the final one comes; each number is that of the
    polls of the request body during one read. -/
def BackendProxyResponseStream.intoFinal :
    List Nat → BackendProxyResponseStream h →
      Polled InformationalProxyResponseForwardError (BackendFinalProxyResponseForwarder h) × Sink
  | _, .final forwarder => (.ok forwarder, forwarder.pending.frontendWriter.writer)
  | [], .informational forwarder => (.pending, forwarder.pending.frontendWriter.writer)
  | polls :: more, .informational forwarder =>
    andThen (forwarder.forwardInformationalResponse polls) id fun result _ =>
      result.intoInner.intoFinal more

/-- A written head, and the writer of one encoding of the body behind it. -/
def withReady {α : Type} (ready : α → FrontendBodyReady)
    (sent : Polled ProxyFrontendError (ProxyOptions × α) × Sink) :
    Polled ProxyFrontendError (ProxyOptions × FrontendBodyReady) × Sink :=
  andThen sent id fun (options, writer) sink => (.ok (options, ready writer), sink)

/-- Send the response head to the client, in the framing its body will have. -/
def BackendFinalProxyResponseForwarder.forwardResponseHead (now : Bytes)
    (self : BackendFinalProxyResponseForwarder h) :
    Polled ProxyError (ProxyBodyExchanger h) × Sink :=
  let isHead := self.pending.clientOptions.isHead
  let clientCannotChunk := self.pending.clientOptions.version == .http10
  let chunkSize := self.pending.options.bodyChunkSize
  let (response, backendBodyReader) := self.proxyResponse.intoFrontendResponse
  let sent : Polled ProxyFrontendError (ProxyOptions × FrontendBodyReady) × Sink :=
    match backendBodyReader with
    | .te _ _ =>
      if clientCannotChunk then withReady (.eof rfl) (self.pending.sendAsEof now response)
      else withReady .chunked (self.pending.sendAsChunked now response)
    | .cl r _ =>
      withReady .cl (self.pending.sendAsContentLength now response
        (UInt64.ofNat r.contentLength))
    | .bodyless _ _ =>
      -- framing headers describe the representation here, not an actual body
      if isHead || response.code == 304 then
        withReady .bodyless (self.pending.sendAsBodylessKeepFraming now response)
      else withReady .bodyless (self.pending.sendAsNoContent now response)
    | .eof _ =>
      if clientCannotChunk then withReady (.eof rfl) (self.pending.sendAsEof now response)
      else withReady .chunked (self.pending.sendAsChunked now response)
  andThen (mapErr .ofFrontendError sent) id fun (options, frontendBodyWriter) sink =>
    (.ok ⟨options, self.requestBodyForwarder,
      ResponseBodyForwarder.new h chunkSize backendBodyReader frontendBodyWriter sink⟩, sink)

/-- Copy both bodies to their end, each with at most `fuel` polls until it is through: the
    pairs that remain reusable, with the connections to the backend and to the client. -/
def ProxyBodyExchanger.finish (fuel : Nat) (self : ProxyBodyExchanger h) :
    Polled ProxyError (Option (FrontendReader × FrontendWriter) ×
      Option (BackendReader × BackendWriter)) × Sink × Sink :=
  let (f2b, backendSink) := self.requestBodyForwarder.finish h fuel
  let (b2f, frontendSink) := self.responseBodyForwarder.finish h fuel
  -- `join!` is ready when both are, and the response's error comes first
  let joined := f2b.output.bind fun f2bRes => b2f.output.bind fun b2fRes => .ofExcept do
    let (backendReader, frontendWriter) ← b2fRes.mapError ProxyError.copyError
    let (frontendReader, backendWriter) ← f2bRes.mapError ProxyError.copyError
    let backendConnection := backendReader.map fun br => (br, backendWriter)
    let frontendConnection := frontendReader.bind fun fr =>
      frontendWriter.map fun fw => (fr, fw)
    return (frontendConnection, backendConnection)
  (joined, backendSink, frontendSink)

end Jrpxy.Proxy
