/-
  Jrpxy.Proxy.Rewriting

  What rewriting a message takes away, and what it keeps.

  The fields that go are those whose name is connection-scoped by definition,
  or is an option of a `Connection` field as received, read by the list grammar
  (`rewritten_endToEnd`).  The client chooses these options, and the strip
  comes after everything that was checked or set: a `Host` the proxy insisted
  on is stripped too, if the client says so (`hasOneHost_iff`).
-/
import Jrpxy.Proxy.Response
import Jrpxy.HttpMessage.ConnectionOptions

namespace Jrpxy.Proxy

open Poll Ascii Util HttpMessage Body Body.Reader Frontend Backend

/-! ## Connection-scoped fields -/

/-- A field of this name goes no further than the connection on which these headers were
    received. -/
def ConnectionScoped (received : Headers) (name : Bytes) : Prop :=
  (∃ h ∈ hopByHopHeaders, eqIgnoreCase h name = true) ∨
    ∃ o ∈ listedOptions received, eqIgnoreCase o name = true

instance (received : Headers) (name : Bytes) : Decidable (ConnectionScoped received name) :=
  inferInstanceAs (Decidable (_ ∨ _))

theorem isHopByHop_iff {received : Headers} {name : Bytes} :
    isHopByHop name (listedOptions received) = true ↔ ConnectionScoped received name := by
  simp [isHopByHop, isStandardHopByHop, ConnectionScoped]

/-- Of these fields exactly the connection-scoped ones are missing. -/
structure EndToEnd (received : Headers) (fields rewritten : List Field) : Prop where
  none_left : ∀ f ∈ rewritten, ¬ ConnectionScoped received f.1
  rest_kept : rewritten = fields.filter fun f => ¬ ConnectionScoped received f.1

theorem strip_endToEnd (received : Headers) (fields : List Field) :
    EndToEnd received fields
      (stripHopByHopHeaders ⟨fields⟩ (listedOptions received)).headers := by
  have hkept : (stripHopByHopHeaders ⟨fields⟩ (listedOptions received)).headers =
      fields.filter fun f => ¬ ConnectionScoped received f.1 := by
    apply List.filter_congr
    intro f _
    rw [Bool.eq_iff_iff, Bool.not_eq_true', ← Bool.not_eq_true, isHopByHop_iff, decide_eq_true_iff]
  constructor
  · intro f hf
    rw [hkept] at hf
    exact of_decide_eq_true (List.mem_filter.mp hf).2
  · exact hkept

/-- What becomes of a request: it is end-to-end, its `Host` replaced by an authority; and
    it is kept as it was received. -/
structure RequestRewritten (request : FrontendRequest) (out : FrontendProxyRequest) : Prop where
  headers : authorityOf request.req.path = none →
    EndToEnd request.req.headers request.req.headers.headers out.req.headers.headers
  absolute : ∀ authority, authorityOf request.req.path = some authority →
    EndToEnd request.req.headers (replaceHost request.req.headers.headers authority)
      out.req.headers.headers
  rest : out.req = { request.req with
    path := normalizedPath request.req.path
    headers := out.req.headers }
  reader : out.frontend.reader = request.reader
  original : out.original = request.req

/-- What becomes of a response: it is end-to-end, and kept as it was received. -/
structure ResponseRewritten (received : Response) (out : NormalizedResponseStream) : Prop where
  headers : EndToEnd received.headers received.headers.headers out.res.headers.headers
  rest : out.res = { received with headers := out.res.headers }
  original : out.original = received

/-- Rewriting removes exactly the connection-scoped fields, of requests and of responses. -/
theorem rewritten_endToEnd :
    (∀ request writer options out,
      FrontendProxyRequest.fromRequest request writer options = .ok out →
      RequestRewritten request out) ∧
    ∀ stream out, NormalizedResponseStream.new stream = .ok out →
      ResponseRewritten stream.res out := by
  constructor
  · intro request writer options out hok
    obtain ⟨-, -, -, -, hreq, hreader, horiginal, -⟩ := FrontendProxyRequest.fromRequest_ok hok
    have hkept := strip_endToEnd request.req.headers
      (normalizedFields request.req.path request.req.headers.headers)
    refine ⟨?_, ?_, ?_, hreader, horiginal⟩
    · intro hform
      rw [normalizedFields, hform] at hkept
      rw [hreq, normalizedFields, hform]
      exact hkept
    · intro authority hform
      rw [normalizedFields, hform] at hkept
      rw [hreq, normalizedFields, hform]
      exact hkept
    · rw [hreq]
  · intro stream out hok
    cases stream with
    | final backend =>
      obtain ⟨-, rfl⟩ := NormalizedResponseStream.new_final hok
      exact ⟨strip_endToEnd backend.res.headers backend.res.headers.headers, rfl, rfl⟩
    | informational res reader =>
      obtain ⟨-, rfl⟩ := NormalizedResponseStream.new_informational hok
      exact ⟨strip_endToEnd res.headers res.headers.headers, rfl, rfl⟩

/-- A request whose options are listed in two fields and in both cases, and a response. -/
def taggedRequest : FrontendRequest :=
  ⟨⟨ascii "GET", ascii "http://b/x?y", .http11, ⟨[(ascii "Host", ascii "a"),
    (ascii "X-Tag", ascii "1"), (ascii "Connection", ascii "x-tag , CLOSE"),
    (ascii "Accept", ascii "*/*"), (ascii "TE", ascii "trailers"),
    (ascii "connection", ascii ",Keep-Alive"), (ascii "x-TAG", ascii "2"),
    (ascii "Accept", ascii "*/*")]⟩⟩, .bodyless ⟨.new ⟨[]⟩, ⟨8⟩⟩ false⟩

def taggedResponse : BackendResponse :=
  ⟨⟨.http11, 204, ascii "No Content", ⟨[(ascii "Upgrade", ascii "h2c"), (ascii "Etag", ascii "1"),
    (ascii "Connection", ascii "upgrade, etag"), (ascii "Via", ascii "1.1 b")]⟩⟩,
    .bodyless ⟨.new ⟨[]⟩, ⟨8⟩⟩ true⟩

theorem rewritten_endToEnd_tagged :
    (∃ out, FrontendProxyRequest.fromRequest taggedRequest ⟨⟨[], []⟩⟩ .default = .ok out ∧
      out.req.headers.headers = [(ascii "Accept", ascii "*/*"), (ascii "Accept", ascii "*/*"),
        (ascii "host", ascii "b")] ∧
      RequestRewritten taggedRequest out) ∧
    ∃ out, NormalizedResponseStream.new (.final taggedResponse) = .ok out ∧
      out.res.headers.headers = [(ascii "Via", ascii "1.1 b")] ∧
      ResponseRewritten taggedResponse.res out := by
  have hrequest : (FrontendProxyRequest.fromRequest taggedRequest ⟨⟨[], []⟩⟩ .default).toOption.map
      (fun out => out.req.headers.headers) = some [(ascii "Accept", ascii "*/*"),
        (ascii "Accept", ascii "*/*"), (ascii "host", ascii "b")] := by decide +kernel
  have hresponse : (NormalizedResponseStream.new (.final taggedResponse)).toOption.map
      (fun out => out.res.headers.headers) = some [(ascii "Via", ascii "1.1 b")] := by
    decide +kernel
  obtain ⟨out, hout, hheaders⟩ := exists_ok_of_map hrequest
  obtain ⟨out', hout', hheaders'⟩ := exists_ok_of_map hresponse
  exact ⟨⟨out, hout, hheaders, rewritten_endToEnd.1 taggedRequest ⟨⟨[], []⟩⟩ .default out hout⟩,
    out', hout', hheaders', rewritten_endToEnd.2 (.final taggedResponse) out' hout'⟩

/-! ## Host -/

/-- Exactly one `Host`, of the authority of the target or as the client has it. -/
structure HasOneHost (received : Request) (sent : Headers) : Prop where
  one : (sent.getHeader (ascii "host")).length = 1
  value : (sent.getHeader (ascii "host")).map Prod.snd = match authorityOf received.path with
    | some authority => [authority]
    | none => (received.headers.getHeader (ascii "host")).map Prod.snd

/-- A replaced `Host` is the only one. -/
theorem replaceHost_getHeader (fs : List Field) (authority : Bytes) :
    Headers.getHeader ⟨replaceHost fs authority⟩ (ascii "host") = [(ascii "host", authority)] := by
  have hnone : (fs.filter fun f => !isHost f.1).filter
      (fun f => eqIgnoreCase (ascii "host") f.1) = [] := by
    rw [List.filter_filter, List.filter_eq_nil_iff]
    intro f _ hboth
    rw [Bool.and_eq_true, isHost, eqIgnoreCase_symm f.1] at hboth
    rw [hboth.1] at hboth
    cases hboth.2
  rw [Headers.getHeader_headers, replaceHost, List.filter_append, hnone]
  rfl

/-- A request that must have a `Host` is sent with exactly one, if and only if none of its
    connection options says `host`. -/
theorem hasOneHost_iff {request : FrontendRequest} {writer : FrontendWriter}
    {options : ProxyOptions} {out : FrontendProxyRequest}
    (hok : FrontendProxyRequest.fromRequest request writer options = .ok out)
    (hmust : request.req.version = .http11 ∨ (authorityOf request.req.path).isSome = true) :
    HasOneHost request.req out.intoBackendRequest.request.headers ↔
      ∀ o ∈ listedOptions request.req.headers, eqIgnoreCase o (ascii "host") = false := by
  obtain ⟨-, -, hone, hhost, hreq, -, -, -⟩ := FrontendProxyRequest.fromRequest_ok hok
  have hsent : out.intoBackendRequest.request.headers.getHeader (ascii "host") =
      if isHopByHop (ascii "host") (listedOptions request.req.headers) then []
      else Headers.getHeader ⟨normalizedFields request.req.path request.req.headers.headers⟩
        (ascii "host") := by
    show (insertProxyHeaders out.req.headers out.req.version _).getHeader _ = _
    rw [insertProxyHeaders_getHeader _ _ _ (by decide), hreq, strip_getHeader]
  have hoption : isHopByHop (ascii "host") (listedOptions request.req.headers) = false ↔
      ∀ o ∈ listedOptions request.req.headers, eqIgnoreCase o (ascii "host") = false := by
    have hstandard : isStandardHopByHop (ascii "host") = false := by decide
    rw [isHopByHop, hstandard, Bool.false_or, List.any_eq_false]
    simp
  rw [← hoption]
  constructor
  -- an option that says `host` strips every `Host`
  · intro hhas
    cases hcase : isHopByHop (ascii "host") (listedOptions request.req.headers) with
    | false => rfl
    | true =>
      have hlen := hhas.one
      rw [hsent, if_pos hcase] at hlen
      cases hlen
  · intro hkept
    rw [if_neg (by simp [hkept])] at hsent
    unfold normalizedFields at hsent
    cases hform : authorityOf request.req.path with
    -- the target's authority has replaced the fields the client sent
    | some authority =>
      rw [hform] at hsent
      dsimp only at hsent
      rw [replaceHost_getHeader] at hsent
      constructor
      · rw [hsent]
        rfl
      · rw [hsent, hform]
        rfl
    -- the client's own `Host` is kept, of which there is one
    | none =>
      rw [hform] at hsent hmust
      have hversion : request.req.version = .http11 := by
        rcases hmust with hversion | hsome
        · exact hversion
        · cases hsome
      have hpos := List.length_pos_iff.mpr (hhost hversion)
      constructor
      · rw [hsent]
        show (request.req.headers.getHeader (ascii "host")).length = 1
        omega
      · rw [hsent, hform]

/-- `taggedRequest` names other options. -/
theorem hasOneHost_iff_tagged :
    ∃ out, FrontendProxyRequest.fromRequest taggedRequest ⟨⟨[], []⟩⟩ .default = .ok out ∧
      (HasOneHost taggedRequest.req out.intoBackendRequest.request.headers ↔
        ∀ o ∈ listedOptions taggedRequest.req.headers, eqIgnoreCase o (ascii "host") = false) := by
  have hrequest : (FrontendProxyRequest.fromRequest taggedRequest ⟨⟨[], []⟩⟩ .default).toOption.map
      (fun _ => ()) = some () := by decide +kernel
  obtain ⟨out, hout, -⟩ := exists_ok_of_map hrequest
  exact ⟨out, hout, hasOneHost_iff hout (.inl rfl)⟩

/-- `GET / HTTP/1.1` with a `Host`, and with `host` as a connection option. -/
def hostlessRequest : FrontendRequest :=
  ⟨⟨ascii "GET", ascii "/", .http11, ⟨[(ascii "Host", ascii "a"),
    (ascii "Connection", ascii "host")]⟩⟩, .bodyless ⟨.new ⟨[]⟩, ⟨8⟩⟩ true⟩

/-- It is accepted, and sent without a `Host`. -/
theorem hostlessRequest_has_no_host :
    ∃ out, FrontendProxyRequest.fromRequest hostlessRequest ⟨⟨[], []⟩⟩ .default = .ok out ∧
      hostlessRequest.req.version = .http11 ∧
      out.intoBackendRequest.request.headers.getHeader (ascii "host") = [] ∧
      ¬ HasOneHost hostlessRequest.req out.intoBackendRequest.request.headers := by
  have hrequest : (FrontendProxyRequest.fromRequest hostlessRequest ⟨⟨[], []⟩⟩
      .default).toOption.map
      (fun out => out.intoBackendRequest.request.headers.getHeader (ascii "host")) = some [] := by
    decide +kernel
  obtain ⟨out, hout, hnone⟩ := exists_ok_of_map hrequest
  refine ⟨out, hout, rfl, hnone, ?_⟩
  intro hhas
  have hone := hhas.one
  rw [hnone] at hone
  cases hone

end Jrpxy.Proxy
