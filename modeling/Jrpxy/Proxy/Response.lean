/-
  Jrpxy.Proxy.Response

  Responses on their way through the proxy.

  Every response of a backend's stream is stripped of its connection-scoped
  fields, the response as received kept beside it (`NormalizedResponseStream`).
  A pending frontend connection adds the proxy's fields and writes the head
  (`sendAs…`).  `now` is the time of day, as `Date` has it.
-/
import Jrpxy.Proxy.Request

namespace Jrpxy.Proxy

open Poll Ascii Util HttpMessage Body Body.Reader Body.Writer Frontend Backend

/-- A final response: as rewritten, and as received. -/
structure BackendFinalProxyResponse where
  backend : BackendResponse
  original : Response
  deriving DecidableEq, Repr

/-- An informational response: as rewritten, and as received. -/
structure BackendInformationalProxyResponse where
  res : Response
  original : Response
  deriving DecidableEq, Repr

/-- Reads the next response in a stream. -/
structure NormalizedStreamReader where
  reader : BackendStreamReader
  deriving DecidableEq, Repr

/-- A `ResponseStream` whose responses have their connection-scoped fields stripped. -/
inductive NormalizedResponseStream where
  | final (res : BackendFinalProxyResponse)
  | informational (res : BackendInformationalProxyResponse) (reader : NormalizedStreamReader)
  deriving DecidableEq, Repr

namespace NormalizedResponseStream

def new : ResponseStream → Except ProxyBackendError NormalizedResponseStream
  | .final backend => do
    let connectionTokens ← (getConnectionTokens backend.res.headers).mapError
      .invalidConnectionHeader
    let original := backend.res
    let headers := stripHopByHopHeaders backend.res.headers connectionTokens
    return .final ⟨{ backend with res := { backend.res with headers } }, original⟩
  | .informational res reader => do
    let connectionTokens ← (getConnectionTokens res.headers).mapError .invalidConnectionHeader
    let original := res
    let headers := stripHopByHopHeaders res.headers connectionTokens
    return .informational ⟨{ res with headers }, original⟩ ⟨reader⟩

/-- The rewritten response. -/
def res : NormalizedResponseStream → Response
  | final r => r.backend.res
  | informational r _ => r.res

/-- The response as received. -/
def original : NormalizedResponseStream → Response
  | final r => r.original
  | informational r _ => r.original

end NormalizedResponseStream

/-- Read the next response in the stream. -/
def NormalizedStreamReader.read (h : Httparse) (self : NormalizedStreamReader) :
    Polled ProxyBackendError NormalizedResponseStream :=
  ((self.reader.read h).mapErr .backendError).bind fun stream =>
    .ofExcept (NormalizedResponseStream.new stream)

namespace PendingFrontendResponse

variable (self : PendingFrontendResponse)

/-- The response with `Via` merged in. -/
def withProxyHeaders (response : Response) : Response :=
  { response with
    headers := insertProxyHeaders response.headers response.version self.options.receivedBy }

/-- The response with `Via` merged in, and `Date` if the backend sent none. -/
def withResponseHeaders (now : Bytes) (response : Response) : Response :=
  let response := self.withProxyHeaders response
  { response with headers := insertDateHeaderIfAbsent now response.headers }

/-- Send a 1xx response; the client still waits for the final one. -/
def sendInformational (response : Response) :
    Polled ProxyFrontendError PendingFrontendResponse × Sink :=
  let response := self.withProxyHeaders response
  andThen (mapErr .frontendError (self.frontendWriter.sendAsNoContent response)) id
    fun bodyWriter sink =>
      andThen (mapErr (.frontendError ∘ .bodyWriteError) (Flushing.finish bodyWriter.finish sink))
        id fun _ sink => (.ok { self with frontendWriter := ⟨sink⟩ }, sink)

/-- Send the response with a chunked body. -/
def sendAsChunked (now : Bytes) (response : Response) :
    Polled ProxyFrontendError (ProxyOptions × Chunked.Ready) × Sink :=
  let response := self.withResponseHeaders now response
  andThen (mapErr .frontendError (self.frontendWriter.sendAsChunked response)) id
    fun bodyWriter sink => (.ok (self.options, bodyWriter), sink)

/-- Send the response with a content-length delimited body. -/
def sendAsContentLength (now : Bytes) (response : Response) (bodyLen : UInt64) :
    Polled ProxyFrontendError (ProxyOptions × ContentLength.Ready) × Sink :=
  let response := self.withResponseHeaders now response
  andThen (mapErr .frontendError (self.frontendWriter.sendAsContentLength response bodyLen)) id
    fun bodyWriter sink => (.ok (self.options, bodyWriter), sink)

/-- Send the response with no body, preserving any framing headers from the origin. -/
def sendAsBodylessKeepFraming (now : Bytes) (response : Response) :
    Polled ProxyFrontendError (ProxyOptions × Bodyless.Ready) × Sink :=
  let response := self.withResponseHeaders now response
  andThen (mapErr .frontendError (self.frontendWriter.sendAsBodylessKeepFraming response)) id
    fun bodyWriter sink => (.ok (self.options, bodyWriter), sink)

/-- Send the response with no body and no framing headers. -/
def sendAsNoContent (now : Bytes) (response : Response) :
    Polled ProxyFrontendError (ProxyOptions × Bodyless.Ready) × Sink :=
  let response := self.withResponseHeaders now response
  andThen (mapErr .frontendError (self.frontendWriter.sendAsNoContent response)) id
    fun bodyWriter sink => (.ok (self.options, bodyWriter), sink)

/-- Send the response with a body that ends with the connection. -/
def sendAsEof (now : Bytes) (response : Response) :
    Polled ProxyFrontendError (ProxyOptions × Eof.Ready) × Sink :=
  let response := self.withResponseHeaders now response
  andThen (mapErr .frontendError (self.frontendWriter.sendAsEof response)) id
    fun bodyWriter sink => (.ok (self.options, bodyWriter), sink)

end PendingFrontendResponse

/-! ## An accepted response -/

/-- A response that is accepted lists only tokens as options, is stripped by them, and is
    kept as it was received. -/
theorem NormalizedResponseStream.new_final {backend : BackendResponse}
    {out : NormalizedResponseStream} (h : new (.final backend) = .ok out) :
    getConnectionTokens backend.res.headers = .ok (listedOptions backend.res.headers) ∧
      out = .final ⟨{ backend with res := { backend.res with
        headers := stripHopByHopHeaders backend.res.headers
          (listedOptions backend.res.headers) } }, backend.res⟩ := by
  unfold new at h
  dsimp only at h
  cases htokens : getConnectionTokens backend.res.headers with
  | error e =>
    rw [htokens] at h
    cases h
  | ok tokens =>
    obtain rfl := getConnectionTokens_ok htokens
    rw [htokens] at h
    cases h
    exact ⟨rfl, rfl⟩

theorem NormalizedResponseStream.new_informational {res : Response} {reader : BackendStreamReader}
    {out : NormalizedResponseStream} (h : new (.informational res reader) = .ok out) :
    getConnectionTokens res.headers = .ok (listedOptions res.headers) ∧
      out = .informational ⟨{ res with
        headers := stripHopByHopHeaders res.headers (listedOptions res.headers) }, res⟩
        ⟨reader⟩ := by
  unfold new at h
  dsimp only at h
  cases htokens : getConnectionTokens res.headers with
  | error e =>
    rw [htokens] at h
    cases h
  | ok tokens =>
    obtain rfl := getConnectionTokens_ok htokens
    rw [htokens] at h
    cases h
    exact ⟨rfl, rfl⟩

end Jrpxy.Proxy
