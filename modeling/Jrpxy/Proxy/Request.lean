/-
  Jrpxy.Proxy.Request

  Requests on their way through the proxy.

  A request from a client is validated, its target normalized and its
  connection-scoped fields stripped (`fromRequest`); `Via` is added
  (`intoBackendRequest`); and its head is written to a backend (`forward`).
  The request as received is kept beside the rewritten one.
-/
import Jrpxy.HttpMessage.ConnectionOptions
import Jrpxy.Proxy.HopByHop
import Jrpxy.Proxy.RequestTarget
import Jrpxy.Proxy.Options
import Jrpxy.Frontend.Writer
import Jrpxy.Backend.Writer

namespace Jrpxy.Proxy

open Poll Ascii Util HttpMessage Body Body.Reader Body.Writer Frontend Backend

/-- What a response depends on that its request said. -/
structure ClientOptions where
  isHead : Bool
  version : HttpVersion
  deriving DecidableEq, Repr

/-- A frontend connection that has not yet received a response. -/
structure PendingFrontendResponse where
  frontendWriter : FrontendWriter
  options : ProxyOptions
  clientOptions : ClientOptions

/-- A request that is rejected, with what is needed to answer it. -/
structure FrontendRequestError where
  request : FrontendRequest
  pending : PendingFrontendResponse
  error : ProxyFrontendError

/-- A proxy request received from the frontend: as rewritten, and as received. -/
structure FrontendProxyRequest where
  frontend : FrontendRequest
  original : Request
  pending : PendingFrontendResponse

/-- A request ready to be written to a backend. -/
structure BackendProxyRequest where
  request : Request
  bodyReader : FrontendBodyReader
  pending : PendingFrontendResponse

/-- Why the head was not written; the request can be sent to another backend. -/
structure BackendRequestError where
  request : BackendProxyRequest
  error : BackendError

/-- A written request, before its response is read. -/
structure BackendProxyResponseReader where
  request : BackendProxyRequest
  backendReader : BackendReader
  backendBodyWriter : BackendBodyReady

namespace FrontendProxyRequest

/-- Normalize the request-target and strip the connection-scoped fields. -/
def new (frontend : FrontendRequest) (pending : PendingFrontendResponse)
    (connectionTokens : List Bytes) : Except FrontendRequestError FrontendProxyRequest :=
  let original := frontend.req
  match normalize frontend.req with
  | .error e => .error ⟨frontend, pending, e⟩
  | .ok req =>
    let headers := stripHopByHopHeaders req.headers connectionTokens
    .ok ⟨{ frontend with req := { req with headers } }, original, pending⟩

/-- Validate a parsed request. -/
def fromRequest (request : FrontendRequest) (writer : FrontendWriter) (options : ProxyOptions) :
    Except FrontendRequestError FrontendProxyRequest :=
  let isHead := request.req.method == ascii "HEAD"
  let version := request.req.version
  let pending : PendingFrontendResponse := ⟨writer, options, ⟨isHead, version⟩⟩
  match getConnectionTokens request.req.headers with
  | .error e => .error ⟨request, pending, .invalidConnectionHeader e⟩
  | .ok connectionTokens =>
    -- these may be meant for the proxy itself, so the caller must intercept them
    let method := request.req.method
    if method == ascii "CONNECT" then .error ⟨request, pending, .connectNotSupported⟩
    else if method == ascii "TRACE" then .error ⟨request, pending, .traceNotSupported⟩
    else if method == ascii "OPTIONS" then .error ⟨request, pending, .optionsNotSupported⟩
    else
      let hostCount := (request.req.headers.getHeader (ascii "host")).length
      if 1 < hostCount then .error ⟨request, pending, .multipleHosts⟩
      else if version = .http11 ∧ hostCount = 0 then .error ⟨request, pending, .missingHost⟩
      else new request pending connectionTokens

/-- The rewritten request that will be forwarded upstream. -/
def req (self : FrontendProxyRequest) : Request := self.frontend.req

/-- Merge the proxy's fields in. -/
def intoBackendRequest (self : FrontendProxyRequest) : BackendProxyRequest :=
  let req := self.frontend.req
  let headers := insertProxyHeaders req.headers req.version self.pending.options.receivedBy
  ⟨{ req with headers }, self.frontend.reader, self.pending⟩

end FrontendProxyRequest

/-- Write the head to a backend connection, framed as the body will be. -/
def BackendProxyRequest.forward (self : BackendProxyRequest)
    (backendConnection : BackendReader × BackendWriter) :
    Polled BackendRequestError BackendProxyResponseReader × Sink :=
  let (backendReader, backendWriter) := backendConnection
  let written (x : Polled BackendError BackendBodyReady × Sink) :=
    andThen (mapErr (BackendRequestError.mk self) x) id fun backendBodyWriter sink =>
      (.ok ⟨self, backendReader, backendBodyWriter⟩, sink)
  match self.bodyReader with
  | .te _ _ => written (andThen (backendWriter.sendAsChunked self.request) id fun w sink =>
      (.ok (.chunked w), sink))
  | .cl r _ => written (andThen (backendWriter.sendAsContentLength self.request
      (UInt64.ofNat r.contentLength)) id fun w sink => (.ok (.cl w), sink))
  | .bodyless _ _ => written (andThen (backendWriter.sendAsBodyless self.request) id
      fun w sink => (.ok (.bodyless w), sink))

/-! ## An accepted request -/

/-- What an accepted request satisfies, and what it is rewritten to. -/
structure FrontendProxyRequest.Accepted (request : FrontendRequest) (writer : FrontendWriter)
    (options : ProxyOptions) (out : FrontendProxyRequest) : Prop where
  tokens : getConnectionTokens request.req.headers = .ok (listedOptions request.req.headers)
  method : request.req.method ∉ [ascii "CONNECT", ascii "TRACE", ascii "OPTIONS"]
  oneHost : (request.req.headers.getHeader (ascii "host")).length ≤ 1
  host : request.req.version = .http11 → request.req.headers.getHeader (ascii "host") ≠ []
  req : out.req = { request.req with
    path := normalizedPath request.req.path
    headers := stripHopByHopHeaders
      ⟨normalizedFields request.req.path request.req.headers.headers⟩
      (listedOptions request.req.headers) }
  reader : out.frontend.reader = request.reader
  original : out.original = request.req
  pending : out.pending = ⟨writer, options,
    ⟨request.req.method == ascii "HEAD", request.req.version⟩⟩

theorem getConnectionTokens_ok {headers : Headers} {tokens : List Bytes}
    (h : getConnectionTokens headers = .ok tokens) : tokens = listedOptions headers :=
  collectTokens_connectionTokens h

theorem FrontendProxyRequest.fromRequest_ok {request : FrontendRequest} {writer : FrontendWriter}
    {options : ProxyOptions} {out : FrontendProxyRequest}
    (h : fromRequest request writer options = .ok out) : Accepted request writer options out := by
  unfold fromRequest at h
  dsimp only at h
  cases htokens : getConnectionTokens request.req.headers with
  | error e =>
    rw [htokens] at h
    cases h
  | ok tokens =>
    obtain rfl := getConnectionTokens_ok htokens
    rw [htokens] at h
    dsimp only at h
    -- one check behind the other, each of which ends in an error of its own
    split at h
    · cases h
    · next hconnect =>
      split at h
      · cases h
      · next htrace =>
        split at h
        · cases h
        · next hoptions =>
          split at h
          · cases h
          · next hone =>
            split at h
            · cases h
            · next hmissing =>
              unfold FrontendProxyRequest.new at h
              dsimp only at h
              cases hnormal : normalize request.req with
              | error e =>
                rw [hnormal] at h
                cases h
              | ok req =>
                rw [hnormal] at h
                cases h
                refine ⟨htokens, ?_, by omega, ?_, ?_, rfl, rfl, rfl⟩
                · simp only [beq_iff_eq] at hconnect htrace hoptions
                  simp [hconnect, htrace, hoptions]
                · intro hversion hnil
                  exact hmissing ⟨hversion, by rw [hnil]; rfl⟩
                · rw [FrontendProxyRequest.req, normalize_ok hnormal]

end Jrpxy.Proxy
