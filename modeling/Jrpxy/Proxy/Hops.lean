/-
  Jrpxy.Proxy.Hops

  A request that goes from proxy to proxy.

  The head that is forwarded for an accepted request is read by the next proxy
  as it was written, and accepted by it if it has a `Host`; a request that came
  without one, or named it as a connection option, is refused
  (`nextHop_accepts_iff`).  From then on every hop adds its entry in `Via` and
  nothing else, so that a request which is sent round a loop of proxies is
  refused when their slots are full (`route_onlyVia`).
-/
import Mathlib.Data.List.Basic
import Jrpxy.Proxy.Messages
import Jrpxy.Proxy.Normalizing
import Jrpxy.Proxy.OneRequest

namespace Jrpxy.Proxy

open Poll BodyRelay Ascii Util HttpMessage Body Body.Reader Body.Writer Frontend Backend

open Httparse.Reference (reference requestLaws targetLaws requestSlotLaws)

variable {h : Httparse}

/-! ## What is accepted -/

/-- A request is not accepted if its target is not normalized. -/
theorem normalize_of_fromRequest {request : FrontendRequest} {writer : FrontendWriter}
    {options : ProxyOptions} {out : FrontendProxyRequest}
    (hok : FrontendProxyRequest.fromRequest request writer options = .ok out) :
    ∃ req, normalize request.req = .ok req := by
  cases hnormal : normalize request.req with
  | ok req => exact ⟨req, rfl⟩
  | error e =>
    unfold FrontendProxyRequest.fromRequest FrontendProxyRequest.new at hok
    rw [hnormal] at hok
    dsimp only at hok
    cases htokens : getConnectionTokens request.req.headers with
    | error e =>
      rw [htokens] at hok
      cases hok
    | ok tokens =>
      rw [htokens] at hok
      dsimp only at hok
      split_ifs at hok

/-- What is normalized for a method that is passed on begins with a slash. -/
theorem head_normalizedPath {req req' : Request} (hnormal : normalize req = .ok req')
    (hmethod : req.method ≠ ascii "OPTIONS") : (normalizedPath req.path).head? = some 47 := by
  rcases normalize_cases hnormal with ⟨-, horigin⟩ | ⟨-, -, hoptions⟩ |
    ⟨authority, path, hform, hvalid, -⟩
  · rw [normalizedPath, horigin]
    exact head_of_classify_origin horigin
  · exact absurd hoptions hmethod
  · rw [normalizedPath, hform]
    exact head_of_validateOriginForm hvalid

/-- Without a `Connection` field there are no connection options. -/
theorem getConnectionTokens_of_none {headers : Headers}
    (hnone : ∀ f ∈ headers.headers, eqIgnoreCase (ascii "connection") f.1 = false) :
    getConnectionTokens headers = .ok [] := by
  rw [getConnectionTokens, Headers.connectionTokens, Headers.getHeader_eq_nil hnone]
  rfl

/-- A request in origin-form without connection options is accepted as it is, if it has
    exactly one `Host`. -/
theorem fromRequest_origin {request : FrontendRequest} {writer : FrontendWriter}
    {options : ProxyOptions} (hversion : request.req.version = .http11)
    (hmethod : request.req.method ∉ [ascii "CONNECT", ascii "TRACE", ascii "OPTIONS"])
    (hslash : request.req.path.head? = some 47)
    (htokens : getConnectionTokens request.req.headers = .ok [])
    (hone : (request.req.headers.getHeader (ascii "host")).length ≤ 1) :
    (request.req.headers.getHeader (ascii "host") ≠ [] →
      ∃ accepted, FrontendProxyRequest.fromRequest request writer options = .ok accepted) ∧
    (request.req.headers.getHeader (ascii "host") = [] →
      FrontendProxyRequest.fromRequest request writer options =
        .error ⟨request, ⟨writer, options,
          ⟨request.req.method == ascii "HEAD", request.req.version⟩⟩, .missingHost⟩) := by
  simp only [List.mem_cons, List.not_mem_nil, or_false, not_or] at hmethod
  obtain ⟨hconnect, htrace, hoptions⟩ := hmethod
  unfold FrontendProxyRequest.fromRequest
  dsimp only
  rw [htokens]
  dsimp only
  rw [if_neg (by simpa using hconnect), if_neg (by simpa using htrace),
    if_neg (by simpa using hoptions), if_neg (by omega)]
  constructor
  · intro hhost
    have hpos := List.length_pos_iff.mpr hhost
    rw [if_neg (by omega), FrontendProxyRequest.new, normalize, classify_origin hslash]
    exact ⟨_, rfl⟩
  · intro hhost
    rw [if_pos ⟨hversion, by rw [hhost]; rfl⟩]

/-! ## What has nothing to trim -/

theorem readBack_of_trimmed {f : Field} (htrimmed : Trimmed f.2) : readBack f = f := by
  rw [readBack, trimOws_of_trimmed htrimmed]

/-- No visible character is whitespace. -/
theorem isOws_of_vchar {b : UInt8} (hvchar : isValidFieldVchar b = true) : isOws b = false := by
  have hall : ∀ b, isValidFieldVchar b = true → isOws b = false := forall_byte (by decide +kernel)
  exact hall b hvchar

/-- A part of a request-target has nothing to trim. -/
theorem normalizedFields_trimmed (targets : h.TargetLaws) {path : Bytes} (hpath : h.IsTarget path)
    {fs : List Field} (hfs : ∀ f ∈ fs, Trimmed f.2) :
    ∀ f ∈ normalizedFields path fs, Trimmed f.2 := by
  intro f hf
  unfold normalizedFields authorityOf at hf
  cases hform : classify path with
  | absolute authority pathAndQuery =>
    rw [hform] at hf
    obtain ⟨hmem, -⟩ := classify_absolute hform
    have hvchar : ∀ b ∈ authority, isOws b = false := fun b hb =>
      isOws_of_vchar (targets.uri_vchar (hpath.tokens b (hmem b hb)))
    rcases List.mem_append.mp hf with hf | hf
    · exact hfs f (List.mem_filter.mp hf).1
    · obtain rfl := List.mem_singleton.mp hf
      constructor
      · exact fun b hb => hvchar b (List.mem_of_mem_head? hb)
      · exact fun b hb => hvchar b (List.mem_of_mem_getLast? hb)
  | origin => exact hfs f (by rwa [hform] at hf)
  | asterisk => exact hfs f (by rwa [hform] at hf)
  | maybeAuthority => exact hfs f (by rwa [hform] at hf)
  | empty => exact hfs f (by rwa [hform] at hf)
  | malformed => exact hfs f (by rwa [hform] at hf)

/-- Nor has the proxy's entry in `Via`. -/
theorem viaField_trimmed (version : HttpVersion) {receivedBy : Bytes}
    (hvalid : isValidFieldName receivedBy = true) : Trimmed (viaField version receivedBy).2 := by
  obtain ⟨hne, htchar⟩ := isValidFieldName_iff.mp hvalid
  have hfirst : (viaField version receivedBy).2.head? = some 49 := by
    cases version with
    | http10 => rfl
    | http11 => rfl
  have hlast : (viaField version receivedBy).2.getLast? = receivedBy.getLast? := by
    show (_ ++ receivedBy).getLast? = _
    exact List.getLast?_append_of_ne_nil _ hne
  constructor
  · intro b hb
    rw [hfirst] at hb
    cases hb
    decide
  · intro b hb
    rw [hlast] at hb
    exact isOws_of_vchar (isValidFieldVchar_of_tchar (htchar b (List.mem_of_mem_getLast? hb)))

/-! ## Names of fields -/

/-- The names of the framing fields. -/
theorem name_of_framingFields {framing : WriteFraming} {f : Field}
    (hf : f ∈ framingFields framing) :
    f.1 = ascii "content-length" ∨ f.1 = ascii "transfer-encoding" := by
  cases framing with
  | length n =>
    obtain rfl := List.mem_singleton.mp hf
    exact .inl rfl
  | chunked =>
    obtain rfl := List.mem_singleton.mp hf
    exact .inr rfl
  | preserveFraming => cases hf
  | stripFraming => cases hf

/-- Names equal up to case frame alike. -/
theorem isFramingHeader_congr {a b : Bytes} (hsame : eqIgnoreCase a b = true) :
    isFramingHeader a = isFramingHeader b := by
  unfold isFramingHeader
  congr 1
  funext x
  rw [eqIgnoreCase_symm x, eqIgnoreCase_symm x]
  exact eqIgnoreCase_congr hsame x

/-- `Host` is connection-scoped if a connection option says so. -/
theorem isHopByHop_host {tokens : List Bytes} : isHopByHop (ascii "host") tokens = false ↔
    ∀ o ∈ tokens, eqIgnoreCase o (ascii "host") = false := by
  have hstandard : isStandardHopByHop (ascii "host") = false := by decide
  rw [isHopByHop, hstandard, Bool.false_or, List.any_eq_false]
  simp

/-! ## A hop -/

/-- A request that was read off a connection, and accepted. -/
structure Hop (h : Httparse) where
  options : ProxyOptions
  frontendReader : FrontendReader
  frontendWriter : FrontendWriter
  maxHeadLength : Nat
  maxChunkHeaderLength : Nat
  request : FrontendRequest
  proxyRequest : FrontendProxyRequest
  read : frontendReader.read h maxHeadLength maxChunkHeaderLength = .ok request
  fromRequest : FrontendProxyRequest.fromRequest request frontendWriter options = .ok proxyRequest

namespace Hop

variable (x : Hop h)

/-- The fields of the request that go on to the next hop. -/
def kept : List Field :=
  x.proxyRequest.req.headers.headers.filter fun f => !isFramingHeader f.1

/-- The entry in `Via` that is added. -/
def via : Field := viaField x.request.req.version x.options.receivedBy

/-- The framing that the body is forwarded with. -/
def framing : WriteFraming := requestFraming x.request.reader

/-- The head that is forwarded. -/
def head : Bytes :=
  Httparse.requestHead x.request.req.method (normalizedPath x.request.req.path)
    (ascii "HTTP/1.1") (x.kept ++ x.via :: framingFields x.framing)

/-- The request as the next hop reads it. -/
def onward : Request :=
  ⟨x.request.req.method, normalizedPath x.request.req.path, .http11,
    ⟨x.kept ++ x.via :: framingFields x.framing⟩⟩

/-- The request has a `Host` when it is forwarded: it came with one or with an authority, and
    no connection option says `host`. -/
def Hosted : Prop :=
  (∀ o ∈ listedOptions x.request.req.headers, eqIgnoreCase o (ascii "host") = false) ∧
    ((authorityOf x.request.req.path).isSome = true ∨
      x.request.req.headers.getHeader (ascii "host") ≠ [])

/-- The request was forwarded on a connection, and this reader stands in front of it. -/
def Before (self : FrontendReader) : Prop :=
  ∃ backendConnection out s rest,
    x.proxyRequest.intoBackendRequest.forward backendConnection = (.ok out, s) ∧
    backendConnection.2.writer.wire ++ self.reader.unread = s.wire ++ rest

theorem accepted : FrontendProxyRequest.Accepted x.request x.frontendWriter x.options
    x.proxyRequest :=
  FrontendProxyRequest.fromRequest_ok x.fromRequest

theorem kept_eq : x.kept = (stripHopByHopHeaders
    ⟨normalizedFields x.request.req.path x.request.req.headers.headers⟩
    (listedOptions x.request.req.headers)).headers.filter fun f => !isFramingHeader f.1 := by
  rw [kept, x.accepted.req]

/-- What goes on neither frames the body nor is connection-scoped. -/
theorem kept_endToEnd {f : Field} (hf : f ∈ x.kept) :
    isFramingHeader f.1 = false ∧ isStandardHopByHop f.1 = false := by
  rw [kept_eq] at hf
  obtain ⟨hf, hframing⟩ := List.mem_filter.mp hf
  exact ⟨by simpa using hframing, strip_not_standard hf⟩

/-- The parts of the head that is forwarded. -/
theorem forwarded_parts :
    x.proxyRequest.intoBackendRequest.request.method = x.request.req.method ∧
      x.proxyRequest.intoBackendRequest.request.path = normalizedPath x.request.req.path ∧
      Backend.writtenFields x.proxyRequest.intoBackendRequest.request x.framing =
        x.kept ++ x.via :: framingFields x.framing := by
  have hreq := x.accepted.req
  have hpending := x.accepted.pending
  have hmethod : x.proxyRequest.req.method = x.request.req.method := by rw [hreq]
  have hpath : x.proxyRequest.req.path = normalizedPath x.request.req.path := by rw [hreq]
  refine ⟨hmethod, hpath, ?_⟩
  have hheaders : x.proxyRequest.intoBackendRequest.request.headers.headers =
      x.proxyRequest.req.headers.headers ++ [x.via] := by
    show (insertProxyHeaders x.proxyRequest.req.headers x.proxyRequest.req.version
      x.proxyRequest.pending.options.receivedBy).headers = _
    rw [hpending, hreq]
    rfl
  have hvia : isFramingHeader x.via.1 = false :=
    (by decide : isFramingHeader (ascii "Via") = false)
  show (x.proxyRequest.intoBackendRequest.request.headers.headers.filter _) ++ _ = _
  rw [hheaders, List.filter_append, List.filter_cons_of_pos (by rw [hvia]; rfl), List.filter_nil,
    List.append_assoc]
  rfl

/-- What is read in front of a forwarded request begins with its head. -/
theorem Before.unread {x : Hop h} {self : FrontendReader} (hbefore : x.Before self) :
    ∃ rest, self.reader.unread = x.head ++ rest := by
  obtain ⟨backendConnection, out, s, rest, hforward, hwire⟩ := hbefore
  obtain ⟨-, hsends⟩ := BackendProxyRequest.forward_ok hforward
  have hbody : x.proxyRequest.intoBackendRequest.bodyReader = x.request.reader := x.accepted.reader
  obtain ⟨hmethod, hpath, hfields⟩ := x.forwarded_parts
  have hhead : s.wire = backendConnection.2.writer.wire ++ x.head := by
    have hwire := hsends.wire
    rw [hbody, hmethod, hpath] at hwire
    rw [head, ← hfields]
    exact hwire
  rw [hhead, List.append_assoc] at hwire
  exact ⟨rest, List.append_cancel_left hwire⟩

/-- The target that is forwarded begins with a slash. -/
theorem slash : (normalizedPath x.request.req.path).head? = some 47 := by
  obtain ⟨req', hnormal⟩ := normalize_of_fromRequest x.fromRequest
  have hmethod := x.accepted.method
  simp only [List.mem_cons, List.not_mem_nil, or_false, not_or] at hmethod
  exact head_normalizedPath hnormal hmethod.2.2

section Laws

variable (laws : h.RequestLaws) (targets : h.TargetLaws)
include laws

theorem wellFormed : WellFormed h x.request.req := (Frontend.read_ok laws x.read).1

/-- The framing that is read is the one the body is forwarded with. -/
theorem framing_parsed : x.request.req.framing = .ok x.framing.parsed := by
  obtain ⟨-, r, recyclable, framing, hframing, -, hreader⟩ := Frontend.read_ok laws x.read
  rw [hframing, Hop.framing, hreader, requestFraming_parsed]
  rintro n rfl
  exact length_of_framing hframing

/-- The fields that are forwarded can be read, and do not say anything of the connection. -/
theorem fields_valid (targets : h.TargetLaws) :
    Headers.Valid ⟨x.kept ++ x.via :: framingFields x.framing⟩ ∧
      ∀ f ∈ x.kept ++ x.via :: framingFields x.framing,
        eqIgnoreCase (ascii "connection") f.1 = false := by
  obtain ⟨hvalid, hopen⟩ := forwardedFields_valid targets (x.wellFormed laws) x.accepted
  obtain ⟨-, -, hfields⟩ := x.forwarded_parts
  rw [← hfields]
  refine ⟨Backend.writtenFields_valid hvalid x.framing, ?_⟩
  intro f hf
  rcases List.mem_append.mp hf with hf | hf
  · exact hopen f (List.mem_filter.mp hf).1
  · exact framingFields_not_connection _ f hf

/-- The fields that are forwarded are read as they are written. -/
theorem fields_readBack (targets : h.TargetLaws) :
    (x.kept ++ x.via :: framingFields x.framing).map readBack =
      x.kept ++ x.via :: framingFields x.framing := by
  have hkept : x.kept.map readBack = x.kept := by
    have htrimmed : ∀ f ∈ x.kept, readBack f = f := by
      intro f hf
      rw [kept_eq] at hf
      have hwf := x.wellFormed laws
      exact readBack_of_trimmed (normalizedFields_trimmed targets hwf.path hwf.trimmed f
        (List.mem_filter.mp (List.mem_filter.mp hf).1).1)
    rw [List.map_congr_left htrimmed, List.map_id']
  rw [List.map_append, hkept, List.map_cons, readBack_framingFields, via,
    readBack_of_trimmed (viaField_trimmed _ x.options.valid)]

/-- The framing is read as it was written. -/
theorem onward_framing (targets : h.TargetLaws) : x.onward.framing = .ok x.framing.parsed := by
  have hothers : ∀ f ∈ x.kept ++ [x.via], isFramingHeader f.1 = false := by
    intro f hf
    rcases List.mem_append.mp hf with hf | hf
    · exact (x.kept_endToEnd hf).1
    · obtain rfl := List.mem_singleton.mp hf
      exact (by decide : isFramingHeader (ascii "Via") = false)
  have hwritten := framing_written hothers (requestFraming_inRange x.request.reader)
  rw [List.append_assoc] at hwritten
  rw [Request.framing, onward, ← x.fields_readBack laws targets]
  exact hwritten

/-- A reader with room for the head reads the request as it was forwarded. -/
theorem Before.read (targets : h.TargetLaws) {x : Hop h} {self : FrontendReader}
    (hbefore : x.Before self) (hslots : x.onward.headers.headers.length ≤ self.parseSlots.slotCount)
    {maxHead : Nat} (hmax : x.head.length ≤ maxHead) (maxLine : Nat) :
    ∃ reader, self.read h maxHead maxLine = .ok ⟨x.onward, reader⟩ := by
  obtain ⟨rest, hunread⟩ := hbefore.unread
  obtain ⟨hvalid, hopen⟩ := x.fields_valid laws targets
  have hwf := x.wellFormed laws
  have hframing := x.onward_framing laws targets
  rw [onward, ← x.fields_readBack laws targets] at hframing
  obtain ⟨r, -, hread⟩ := FrontendReader.read_written laws hwf.method
    (isTarget_normalizedPath laws hwf.path) hvalid hslots hopen hframing hunread hmax maxLine
  rw [x.fields_readBack laws targets] at hread
  exact ⟨_, hread⟩

/-- The next hop has the request as it was forwarded, and a slot for each of its fields. -/
theorem Before.received (targets : h.TargetLaws) (slotLaws : h.RequestSlotLaws) {x y : Hop h}
    (hbefore : x.Before y.frontendReader) : y.request.req = x.onward ∧
      x.onward.headers.headers.length ≤ y.frontendReader.parseSlots.slotCount := by
  obtain ⟨rest, hunread⟩ := hbefore.unread
  obtain ⟨hvalid, -⟩ := x.fields_valid laws targets
  have hwf := x.wellFormed laws
  obtain ⟨head, r, -, -, hfound, hhead, -⟩ := FrontendReader.read_found laws y.read
  obtain ⟨p, version, hp, hversion, hreq⟩ := (isHead_iff laws).mp hhead
  -- with slots for the fields of both, both are the head in front of the stream
  let slots : ParseSlots := ⟨y.frontendReader.parseSlots.slotCount +
    x.onward.headers.headers.length⟩
  have hhead' : IsHead h slots head y.request.req :=
    (isHead_iff laws).mpr ⟨p, version, slotLaws.more_slots hp _, hversion, hreq⟩
  have hwritten : IsHead h slots x.head x.onward := by
    have hcount : x.onward.headers.headers.length ≤ slots.slotCount := Nat.le_add_left _ _
    have hwritten := Frontend.isHead_written laws hwf.method
      (isTarget_normalizedPath laws hwf.path) hvalid hcount
    rw [x.fields_readBack laws targets] at hwritten
    exact hwritten
  obtain ⟨-, hsame⟩ := hhead'.unique laws hwritten (hfound.symm.trans hunread)
  refine ⟨hsame, ?_⟩
  rw [← hsame, hreq]
  show (p.headers.map Httparse.Header.field).length ≤ _
  rw [List.length_map]
  exact laws.length_le hp

end Laws

/-! ## The host of a forwarded request -/

/-- Neither the proxy's `Via` nor a framing field is a `Host`. -/
theorem added_not_host {f : Field} (hf : f ∈ x.via :: framingFields x.framing) :
    eqIgnoreCase (ascii "host") f.1 = false := by
  rcases List.mem_cons.mp hf with rfl | hf
  · exact (by decide : eqIgnoreCase (ascii "host") (ascii "Via") = false)
  · rcases name_of_framingFields hf with hname | hname
    · rw [hname]
      decide
    · rw [hname]
      decide

/-- The `Host` of a forwarded request is the one it was rewritten to, unless it is stripped. -/
theorem onward_getHeader_host : x.onward.headers.getHeader (ascii "host") =
    if isHopByHop (ascii "host") (listedOptions x.request.req.headers) then []
    else Headers.getHeader ⟨normalizedFields x.request.req.path x.request.req.headers.headers⟩
      (ascii "host") := by
  have hadded : (x.via :: framingFields x.framing).filter
      (fun f => eqIgnoreCase (ascii "host") f.1) = [] := by
    rw [List.filter_eq_nil_iff]
    intro f hf
    rw [x.added_not_host hf]
    exact Bool.false_ne_true
  -- no framing field is a `Host`, so that those that were taken out do not matter
  have hframing : ∀ f : Field, eqIgnoreCase (ascii "host") f.1 = true →
      isFramingHeader f.1 = false := by
    intro f hf
    rw [← isFramingHeader_congr hf]
    decide
  rw [← strip_getHeader, onward, Headers.getHeader_headers, List.filter_append, hadded,
    List.append_nil, kept_eq, List.filter_filter]
  apply List.filter_congr
  intro f _
  cases hhost : eqIgnoreCase (ascii "host") f.1 with
  | false => rfl
  | true => rw [hframing f hhost]; rfl

/-- A forwarded request has at most one `Host`, and it has one if it is hosted. -/
theorem onward_host : (x.onward.headers.getHeader (ascii "host")).length ≤ 1 ∧
    (x.onward.headers.getHeader (ascii "host") ≠ [] ↔ x.Hosted) := by
  have hone := x.accepted.oneHost
  rw [onward_getHeader_host, Hosted, ← isHopByHop_host]
  cases hcase : isHopByHop (ascii "host") (listedOptions x.request.req.headers) with
  | true => simp
  | false =>
    rw [if_neg Bool.false_ne_true]
    cases hform : authorityOf x.request.req.path with
    | some authority =>
      rw [normalizedFields, hform]
      dsimp only
      rw [replaceHost_getHeader]
      simp
    | none =>
      rw [normalizedFields, hform]
      dsimp only
      refine ⟨hone, fun hhost => ⟨rfl, .inr hhost⟩, ?_⟩
      rintro ⟨-, hsome | hhost⟩
      · cases hsome
      · exact hhost

end Hop

/-! ## The next hop -/

/-- A request that is forwarded is read by whoever has room for its head, as it was written,
    and accepted if and only if it is hosted; otherwise it is refused for that reason. -/
theorem nextHop_accepts_iff (laws : h.RequestLaws) (targets : h.TargetLaws) (x : Hop h)
    {self : FrontendReader} (hbefore : x.Before self)
    (hslots : x.onward.headers.headers.length ≤ self.parseSlots.slotCount) {maxHead : Nat}
    (hmax : x.head.length ≤ maxHead) (maxLine : Nat) (writer : FrontendWriter)
    (options : ProxyOptions) :
    ∃ request, self.read h maxHead maxLine = .ok request ∧ request.req = x.onward ∧
      ((∃ accepted, FrontendProxyRequest.fromRequest request writer options = .ok accepted) ↔
        x.Hosted) ∧
      (¬ x.Hosted → ∃ e, FrontendProxyRequest.fromRequest request writer options = .error e ∧
        e.error = .missingHost) := by
  obtain ⟨reader, hread⟩ := hbefore.read laws targets hslots hmax maxLine
  obtain ⟨hone, hhost⟩ := x.onward_host
  obtain ⟨haccepts, hrefuses⟩ := @fromRequest_origin ⟨x.onward, reader⟩ writer options rfl
    x.accepted.method x.slash (getConnectionTokens_of_none (x.fields_valid laws targets).2) hone
  refine ⟨_, hread, rfl, ⟨?_, ?_⟩, ?_⟩
  · rintro ⟨accepted, hok⟩
    refine hhost.mp fun hnone => ?_
    rw [hrefuses hnone] at hok
    cases hok
  · exact fun hhosted => haccepts (hhost.mpr hhosted)
  · intro hnot
    refine ⟨_, hrefuses (Classical.not_not.mp fun hne => hnot (hhost.mp hne)), rfl⟩

/-- An old client's request, without a `Host`. -/
def oldReader : FrontendReader := ⟨⟨⟨[.data 71 (ascii "ET / HTTP/1.0\r\n\r\n")]⟩, .default⟩, ⟨4⟩⟩

def oldRead : Polled FrontendError FrontendRequest := oldReader.read reference 64 64

theorem oldRead_isOk : oldRead.isOk = true := by decide +kernel

def oldFromRequest : Polled FrontendRequestError FrontendProxyRequest :=
  .ofExcept (FrontendProxyRequest.fromRequest (oldRead.get oldRead_isOk) ⟨⟨[], []⟩⟩ .default)

theorem oldFromRequest_isOk : oldFromRequest.isOk = true := by decide +kernel

def oldHop : Hop reference where
  options := .default
  frontendReader := oldReader
  frontendWriter := ⟨⟨[], []⟩⟩
  maxHeadLength := 64
  maxChunkHeaderLength := 64
  request := oldRead.get oldRead_isOk
  proxyRequest := oldFromRequest.get oldFromRequest_isOk
  read := Polled.eq_ok_get oldRead_isOk
  fromRequest := Polled.ofExcept_eq_ok.mp (Polled.eq_ok_get oldFromRequest_isOk)

def oldForward : Polled BackendRequestError BackendProxyResponseReader × Sink :=
  oldHop.proxyRequest.intoBackendRequest.forward slowBackend

theorem oldForward_isOk : oldForward.1.isOk = true := by decide +kernel

/-- What is forwarded for it. -/
def oldForwarded : FrontendReader :=
  ⟨⟨⟨[.data 71 (ascii "ET / HTTP/1.1\r\nVia: "), .pending,
    .data 49 (ascii ".0 jrpxy\r\n\r\nPUT")]⟩, .default⟩, ⟨4⟩⟩

theorem oldHop_before : oldHop.Before oldForwarded :=
  ⟨slowBackend, _, _, ascii "PUT", eq_get oldForward_isOk, by decide +kernel⟩

theorem oldHop_not_hosted : ¬ oldHop.Hosted := by
  rintro ⟨-, hauthority | hhost⟩
  · have hnone : (authorityOf oldHop.request.req.path).isSome = false := by decide +kernel
    rw [hnone] at hauthority
    cases hauthority
  · exact hhost (by decide +kernel)

/-- It is refused behind a proxy that accepts it. -/
theorem nextHop_accepts_iff_old :
    ∃ request, oldForwarded.read reference 64 64 = .ok request ∧ request.req = oldHop.onward ∧
      ∃ e, FrontendProxyRequest.fromRequest request ⟨⟨[], []⟩⟩ .default = .error e ∧
        e.error = .missingHost := by
  obtain ⟨request, hread, hreq, -, hrefuses⟩ :=
    nextHop_accepts_iff requestLaws targetLaws oldHop oldHop_before (by decide +kernel)
      (show oldHop.head.length ≤ 64 by decide +kernel) 64 ⟨⟨[], []⟩⟩ .default
  exact ⟨request, hread, hreq, hrefuses oldHop_not_hosted⟩

/-! ## Any number of hops -/

/-- The request went from `x` to `z`, and these are the entries in `Via` that were added on
    the way. -/
inductive Route (x : Hop h) : List Field → Hop h → Prop where
  | here : Route x [] x
  | next {vias : List Field} {y z : Hop h} (way : Route x vias y)
      (before : y.Before z.frontendReader) : Route x (vias ++ [y.via]) z

/-- What a hop is sent is what was sent to the first one, with entries in `Via`. -/
structure OnlyVia (x z : Hop h) (vias : List Field) : Prop where
  head : z.head = Httparse.requestHead x.request.req.method (normalizedPath x.request.req.path)
    (ascii "HTTP/1.1") (x.kept ++ vias ++ z.via :: framingFields x.framing)
  /-- Of every hop but the first, which may strip the `Host`, the next one accepts it. -/
  hosted : vias ≠ [] → z.Hosted
  /-- The fields have to fit into the slots of the hop they are sent to. -/
  fits : vias ≠ [] →
    x.kept.length + vias.length ≤ z.frontendReader.parseSlots.slotCount

/-- The framing a body is written with is known from what is read of it. -/
theorem requestFraming_of_parsed {reader reader' : FrontendBodyReader}
    (hparsed : (requestFraming reader).parsed = (requestFraming reader').parsed) :
    requestFraming reader = requestFraming reader' := by
  have hstrips : ∀ reader, requestFraming reader ≠ .preserveFraming := by
    rintro (⟨inner, r⟩ | ⟨inner, r⟩ | ⟨inner, r⟩ | inner) heq
    · cases heq
    · cases heq
    · cases heq
    · exact inner.elim
  have hleft := hstrips reader
  have hright := hstrips reader'
  generalize requestFraming reader = framing at hparsed hleft
  generalize requestFraming reader' = framing' at hparsed hright
  cases framing with
  | preserveFraming => exact absurd rfl hleft
  | length n =>
    cases framing' with
    | length n' =>
      cases hparsed
      rfl
    | chunked => cases hparsed
    | preserveFraming => cases hparsed
    | stripFraming => cases hparsed
  | chunked =>
    cases framing' with
    | chunked => rfl
    | length n' => cases hparsed
    | preserveFraming => cases hparsed
    | stripFraming => cases hparsed
  | stripFraming =>
    cases framing' with
    | stripFraming => rfl
    | length n' => cases hparsed
    | chunked => cases hparsed
    | preserveFraming => exact absurd rfl hright

/-- One hop adds one entry in `Via`. -/
theorem Hop.Before.next (laws : h.RequestLaws) (targets : h.TargetLaws)
    (slotLaws : h.RequestSlotLaws) {y z : Hop h} (hbefore : y.Before z.frontendReader) :
    z.request.req.method = y.request.req.method ∧
      normalizedPath z.request.req.path = normalizedPath y.request.req.path ∧
      z.kept = y.kept ++ [y.via] ∧ z.framing = y.framing ∧ z.Hosted ∧
      y.kept.length + 1 ≤ z.frontendReader.parseSlots.slotCount := by
  obtain ⟨hreq, hslots⟩ := hbefore.received laws targets slotLaws
  have hform : classify z.request.req.path = .origin := by
    rw [hreq]
    exact classify_origin y.slash
  have hnone := getConnectionTokens_of_none (y.fields_valid laws targets).2
  have hoptions : listedOptions z.request.req.headers = [] := by
    rw [hreq]
    exact (getConnectionTokens_ok hnone).symm
  refine ⟨by rw [hreq]; rfl, ?_, ?_, ?_, ?_, ?_⟩
  · rw [normalizedPath, hform, hreq]
    rfl
  -- the framing field is taken out, and everything else is end-to-end
  · have hfields : normalizedFields z.request.req.path z.request.req.headers.headers =
        y.kept ++ y.via :: framingFields y.framing := by
      rw [normalizedFields, authorityOf, hform, hreq]
      rfl
    have hstays : ∀ f ∈ y.kept ++ [y.via],
        isFramingHeader f.1 = false ∧ isHopByHop f.1 [] = false := by
      intro f hf
      rcases List.mem_append.mp hf with hf | hf
      · obtain ⟨hframing, hstandard⟩ := y.kept_endToEnd hf
        exact ⟨hframing, by rw [isHopByHop, hstandard]; rfl⟩
      · obtain rfl := List.mem_singleton.mp hf
        exact (by decide : isFramingHeader (ascii "Via") = false ∧
          isHopByHop (ascii "Via") [] = false)
    rw [Hop.kept_eq, hoptions, hfields, stripHopByHopHeaders, Headers.retain, List.filter_filter]
    show List.filter _ (y.kept ++ ([y.via] ++ framingFields y.framing)) = _
    rw [← List.append_assoc, List.filter_append, List.filter_eq_self.mpr,
      List.filter_eq_nil_iff.mpr, List.append_nil]
    · intro f hf
      have hframing : isFramingHeader f.1 = true := by
        rcases name_of_framingFields hf with hname | hname
        · rw [hname]
          decide
        · rw [hname]
          decide
      simp [hframing]
    · intro f hf
      obtain ⟨hframing, hscoped⟩ := hstays f hf
      rw [hframing, hscoped]
      rfl
  · have hz := z.framing_parsed laws
    rw [hreq, y.onward_framing laws targets] at hz
    exact requestFraming_of_parsed (Except.ok.inj hz).symm
  -- it was accepted, so that it came with a `Host`
  · refine ⟨by rw [hoptions]; simp, .inr (z.accepted.host ?_)⟩
    rw [hreq]
    rfl
  · refine Nat.le_trans ?_ hslots
    simp only [onward, List.length_append, List.length_cons]
    omega

/-- However many hops a request takes, each adds its entry in `Via` and nothing else; every
    hop but the first finds a `Host`; and no request takes more hops than there are slots. -/
theorem route_onlyVia (laws : h.RequestLaws) (targets : h.TargetLaws)
    (slotLaws : h.RequestSlotLaws) {x z : Hop h} {vias : List Field} (hroute : Route x vias z) :
    OnlyVia x z vias := by
  have hparts : z.request.req.method = x.request.req.method ∧
      normalizedPath z.request.req.path = normalizedPath x.request.req.path ∧
      z.kept = x.kept ++ vias ∧ z.framing = x.framing := by
    induction hroute with
    | here => exact ⟨rfl, rfl, (List.append_nil _).symm, rfl⟩
    | next way before ih =>
      obtain ⟨hmethod, hpath, hkept, hframing⟩ := ih
      obtain ⟨hmethod', hpath', hkept', hframing', -, -⟩ := before.next laws targets slotLaws
      refine ⟨hmethod'.trans hmethod, hpath'.trans hpath, ?_, hframing'.trans hframing⟩
      rw [hkept', hkept, List.append_assoc]
  obtain ⟨hmethod, hpath, hkept, hframing⟩ := hparts
  constructor
  · rw [Hop.head, hmethod, hpath, hkept, hframing]
  · intro hne
    cases hroute with
    | here => exact absurd rfl hne
    | next way before =>
      obtain ⟨-, -, -, -, hhosted, -⟩ := before.next laws targets slotLaws
      exact hhosted
  · intro hne
    cases hroute with
    | here => exact absurd rfl hne
    | next way before =>
      obtain ⟨-, -, hkept', -, -, hfits⟩ := before.next laws targets slotLaws
      have hlength := congrArg List.length (hkept'.symm.trans hkept)
      simp only [List.length_append, List.length_singleton] at hlength hfits ⊢
      omega

/-- The hop of the request in absolute-form with a chunked body. -/
def wholeHop : Hop reference where
  options := .default
  frontendReader := wholeReader
  frontendWriter := ⟨⟨[], []⟩⟩
  maxHeadLength := 256
  maxChunkHeaderLength := 64
  request := wholeRequest
  proxyRequest := wholeFromRequest.get wholeFromRequest_isOk
  read := Polled.eq_ok_get wholeRead_isOk
  fromRequest := Polled.ofExcept_eq_ok.mp (Polled.eq_ok_get wholeFromRequest_isOk)

def wholeHopForward : Polled BackendRequestError BackendProxyResponseReader × Sink :=
  wholeHop.proxyRequest.intoBackendRequest.forward slowBackend

theorem wholeHopForward_isOk : wholeHopForward.1.isOk = true := by decide +kernel

/-- A reader that is sent what is forwarded for it, byte after byte. -/
def secondReader : FrontendReader :=
  ⟨⟨⟨(wholeHopForward.2.wire.drop 3).map fun b => .data b []⟩, .default⟩, ⟨3⟩⟩

def secondRead : Polled FrontendError FrontendRequest := secondReader.read reference 256 64

theorem secondRead_isOk : secondRead.isOk = true := by decide +kernel

def secondFromRequest : Polled FrontendRequestError FrontendProxyRequest :=
  .ofExcept (FrontendProxyRequest.fromRequest (secondRead.get secondRead_isOk) ⟨⟨[], []⟩⟩ .default)

theorem secondFromRequest_isOk : secondFromRequest.isOk = true := by decide +kernel

def secondHop : Hop reference where
  options := .default
  frontendReader := secondReader
  frontendWriter := ⟨⟨[], []⟩⟩
  maxHeadLength := 256
  maxChunkHeaderLength := 64
  request := secondRead.get secondRead_isOk
  proxyRequest := secondFromRequest.get secondFromRequest_isOk
  read := Polled.eq_ok_get secondRead_isOk
  fromRequest := Polled.ofExcept_eq_ok.mp (Polled.eq_ok_get secondFromRequest_isOk)

theorem wholeHop_before : wholeHop.Before secondReader :=
  ⟨slowBackend, _, _, [], eq_get wholeHopForward_isOk, by decide +kernel⟩

theorem route_onlyVia_second : OnlyVia wholeHop secondHop [wholeHop.via] :=
  route_onlyVia requestLaws targetLaws requestSlotLaws (.next .here wholeHop_before)

end Jrpxy.Proxy
