/-
  Jrpxy.Proxy.OneRequest

  One request in, one request out.

  A reader that disagrees with a writer about where a request ends lets a client
  smuggle a second one past the proxy.  What the proxy writes for a request is
  read again by the logic it reads requests with: the head is the one that was
  written, its framing is that of the body, and the body is the one the client
  sent, with nothing behind it (`forward_oneRequest`).
-/
import Jrpxy.Backend.WrittenHead
import Jrpxy.Frontend.Stream
import Jrpxy.Proxy.Outcome

namespace Jrpxy.Proxy

open Poll PullStream BodyRelay BlockWriter ChunkedCoding Ascii Util HttpMessage
open Body Body.Reader Body.Writer Frontend Backend

open Httparse.Reference (reference chunkSizeLaws fieldSectionLaws requestLaws targetLaws)

variable {h : Httparse}

/-! ## A body that is read through -/

/-- Draining hands the connection back, with these trailers if the body is chunked. -/
def DrainsWith (h : Httparse) (self : FrontendBodyReader) (next : FrontendReader)
    (trailers : Headers) : Prop :=
  match self with
  | .te inner recyclable => BodyReader.drainChunked h FrontendError.bodyReadError inner recyclable =
      .ok (some next, trailers)
  | self => self.drain h = .ok (some next) ∧ trailers = .empty

/-- Read to its end, whatever the sizes of the reads, the body has this content and these
    trailers, and no byte is left behind it. -/
def ReadsThrough (h : Httparse) (self : FrontendBodyReader) (content : Bytes)
    (trailers : Headers) : Prop :=
  ∀ maxLens : Nat → Nat, (∀ i, 1 ≤ maxLens i) → ∃ s next,
    (FrontendBodyReader.puller h).readAll maxLens self = (.ok (), content, s) ∧
      DrainsWith h s next trailers ∧ next.reader.unread = []

/-- A reader within its limits that owes this content and these trailers, of a connection
    that outlives the body and has nothing behind it. -/
structure Holds (h : Httparse) (reader : FrontendBodyReader) (content : Bytes)
    (trailers : Headers) : Prop where
  fits : reader.Fits h requestSide.last
  outlives : reader.recyclable = true
  body : (reader.owed h requestSide.last).body = content
  tail : (reader.owed h requestSide.last).tail = some ⟨trailers, []⟩

/-- A reader within its limits, of a connection that outlives the body, can be drained. -/
theorem drainsWith (hsize : h.ChunkSizeLaws) (hfields : h.FieldSectionLaws)
    {self : FrontendBodyReader} (houtlives : self.recyclable = true)
    (hfits : self.Fits h requestSide.last) {t : BodyEnd}
    (htail : (self.owed h requestSide.last).tail = some t) :
    ∃ next, DrainsWith h self next t.trailers ∧ next.reader.unread = t.rest := by
  have hplain : (∀ inner r, self ≠ .te inner r) →
      ∃ next, (self.drain h = .ok (some next) ∧ t.trailers = .empty) ∧
        next.reader.unread = t.rest := by
    intro hte
    obtain ⟨next, hdrain, hsome, hunread⟩ :=
      BodyReader.drain_eq (f := FrontendError.bodyReadError) hsize hfields hfits htail
    rw [houtlives] at hsome
    obtain ⟨next, rfl⟩ := Option.isSome_iff_exists.mp hsome
    exact ⟨next, ⟨hdrain, Side.trailers_empty requestSide_lawful hte htail⟩, hunread next rfl⟩
  cases self with
  | te inner r =>
    obtain ⟨next, hunread, hdrain⟩ :=
      BodyReader.drainChunked_eq (f := FrontendError.bodyReadError) hsize hfields r hfits htail
    have hr : r = true := houtlives
    subst hr
    exact ⟨next, hdrain, hunread⟩
  | bodyless inner r => exact hplain fun _ _ heq => by cases heq
  | cl inner r => exact hplain fun _ _ heq => by cases heq
  | eof inner => exact inner.elim

/-- Such a reader is read through. -/
theorem Holds.readsThrough (hsize : h.ChunkSizeLaws) (hfields : h.FieldSectionLaws)
    {self : FrontendBodyReader} {content : Bytes} {trailers : Headers}
    (hholds : Holds h self content trailers) : ReadsThrough h self content trailers := by
  intro maxLens hpos
  have hread := Puller.readAll_meets (FrontendBodyReader.puller_lawful hsize hfields)
    (fun _ => Nat.zero_le _) hpos self
  have hkept := Puller.readAll_kept (P := FrontendBodyReader.puller h)
    (K := fun s => BodyReader.recyclable s = true)
    (fun m r hr => (BodyReader.pollRead_recyclable m r).trans hr) maxLens hholds.outlives
  generalize (FrontendBodyReader.puller h).readAll maxLens self = x at hread hkept
  obtain ⟨_ | ⟨⟩ | e | _, out, s⟩ := x
  · exact hread.elim
  -- the reader is at its end, and draining it finds the trailers
  · obtain ⟨t, htail, hout, howed, hdone⟩ := hread
    cases hholds.tail.symm.trans htail
    have hout : out = content := hout.trans hholds.body
    subst hout
    have howed : BodyReader.owed h requestSide.last s = .ending ⟨trailers, []⟩ := howed
    have hfits : s.Fits h requestSide.last := Side.fits_of_done requestSide_lawful hdone
    have hstail : (BodyReader.owed h requestSide.last s).tail = some ⟨trailers, []⟩ := by
      rw [howed]
      rfl
    obtain ⟨next, hdrain, hunread⟩ := drainsWith hsize hfields hkept hfits hstail
    exact ⟨s, next, rfl, hdrain, hunread⟩
  · obtain ⟨htail, -⟩ := hread hholds.fits
    cases hholds.tail.symm.trans htail
  · exact hread.elim

/-! ## What is written is read back -/

/-- A request body that is encoded for its writer is held by the reader of its framing, if
    that has slots for the trailers and limits for its lines. -/
theorem holds_of_encodes (hsize : h.ChunkSizeLaws) (hfields : h.FieldSectionLaws)
    {reader : FrontendBodyReader} {content w : Bytes} {trailers : Headers}
    (hencodes : Encodes h content trailers w (requestWriter reader))
    (hvalid : trailers.Valid) (hempty : (∀ inner r, reader ≠ .te inner r) → trailers = .empty)
    {r : BytesReader} (hunread : r.unread = w) {slots : ParseSlots}
    (hslots : trailers.headers.length ≤ slots.slotCount) {maxLine maxHead : Nat}
    (hline : 18 ≤ maxLine) (hhead : (fieldLines trailers.headers).length + 2 ≤ maxHead) :
    Holds h (.ofFraming r slots maxLine maxHead true (requestFraming reader).parsed) content
      trailers := by
  subst hunread
  cases reader with
  -- the lines an encoder writes are within any limit of eighteen bytes
  | te inner b =>
    obtain ⟨⟨blocks, hw, -, hblocks⟩, hdecodes⟩ := hencodes
    obtain ⟨hbody, n, htail⟩ := hdecodes slots hslots
    have hfits := fits_encodeBody hsize hfields hblocks hvalid hslots [] hline hhead
    rw [List.append_nil, ← hw] at hfits
    refine ⟨(ChunkedBodyReader.fits_new r slots maxLine maxHead).mpr hfits, rfl, hbody, ?_⟩
    show (decode (recognisers h slots) r.unread).tail.map _ = _
    rw [htail]
    rfl
  | cl inner b =>
    have hnone := hempty fun _ _ heq => by cases heq
    obtain ⟨hw, hlength⟩ := hencodes
    have hlength : r.unread.length = (UInt64.ofNat inner.contentLength).toNat := hlength
    refine ⟨trivial, rfl, ?_, ?_⟩
    · show r.unread.take (UInt64.ofNat inner.contentLength).toNat = content
      rw [← hlength, List.take_length, hw]
    · show (if (UInt64.ofNat inner.contentLength).toNat ≤ r.unread.length then
        some (BodyEnd.mk .empty (r.unread.drop (UInt64.ofNat inner.contentLength).toNat))
        else none) = _
      rw [← hlength, if_pos (Nat.le_refl _), List.drop_length, hnone]
  | bodyless inner b =>
    have hnone := hempty fun _ _ heq => by cases heq
    obtain ⟨hw, hcontent⟩ := hencodes
    refine ⟨trivial, rfl, hcontent.symm, ?_⟩
    show some (BodyEnd.mk .empty r.unread) = _
    rw [hw, hnone]
  | eof inner => exact inner.elim

/-- A framing field is no `Connection` field. -/
theorem framingFields_not_connection (framing : WriteFraming) :
    ∀ f ∈ framingFields framing, eqIgnoreCase (ascii "connection") f.1 = false := by
  intro f hf
  cases framing with
  | length n =>
    obtain rfl := List.mem_singleton.mp hf
    exact (by decide : eqIgnoreCase (ascii "connection") (ascii "content-length") = false)
  | chunked =>
    obtain rfl := List.mem_singleton.mp hf
    decide
  | preserveFraming => cases hf
  | stripFraming => cases hf

/-- A length that is written fits in a `u64`. -/
theorem requestFraming_inRange (reader : FrontendBodyReader) : (requestFraming reader).InRange := by
  cases reader with
  | te inner r => trivial
  | cl inner r => exact (UInt64.ofNat inner.contentLength).toNat_lt
  | bodyless inner r => trivial
  | eof inner => exact inner.elim

/-- The framing a body was read with is the one it is written with. -/
theorem requestFraming_parsed {r : BytesReader} {slots : ParseSlots} {maxLine maxHead : Nat}
    {recyclable : Bool} {framing : ParsedFraming} (hlen : ∀ n, framing = .length n → n < 2 ^ 64) :
    (requestFraming (.ofFraming r slots maxLine maxHead recyclable framing)).parsed = framing := by
  cases framing with
  | length n =>
    show ParsedFraming.length (UInt64.ofNat n).toNat = _
    rw [toNat_ofNat_of_lt (hlen n rfl)]
  | chunked => rfl
  | noFraming => rfl

/-- The proxy's entry in `Via` is a valid value. -/
theorem isValidFieldValue_viaField (version : HttpVersion) {receivedBy : Bytes}
    (hvalid : isValidFieldName receivedBy = true) :
    isValidFieldValue (viaField version receivedBy).2 = true := by
  have hbehind : ∀ version : Bytes, (∀ b ∈ version, isFieldValueByte b = true) →
      isValidFieldValue (version ++ receivedBy) = true := by
    intro version hversion
    apply isValidFieldValue_iff.mpr
    intro b hb
    rcases List.mem_append.mp hb with hb | hb
    · exact hversion b hb
    · exact isFieldValueByte_of_vchar
        (isValidFieldVchar_of_tchar ((isValidFieldName_iff.mp hvalid).2 b hb))
  cases version with
  | http10 => exact hbehind (ascii "1.0" ++ ascii " ") (by decide +kernel)
  | http11 => exact hbehind (ascii "1.1" ++ ascii " ") (by decide +kernel)

/-- The fields an accepted request is forwarded with are valid, and none is `Connection`. -/
theorem forwardedFields_valid (targets : h.TargetLaws)
    {request : FrontendRequest} {writer : FrontendWriter} {options : ProxyOptions}
    {accepted : FrontendProxyRequest} (hwf : WellFormed h request.req)
    (haccepted : FrontendProxyRequest.Accepted request writer options accepted) :
    accepted.intoBackendRequest.request.headers.Valid ∧
      ∀ f ∈ accepted.intoBackendRequest.request.headers.headers,
        eqIgnoreCase (ascii "connection") f.1 = false := by
  have hreq : accepted.frontend.req = _ := haccepted.req
  have hheaders : accepted.intoBackendRequest.request.headers.headers =
      (stripHopByHopHeaders ⟨normalizedFields request.req.path request.req.headers.headers⟩
        (listedOptions request.req.headers)).headers ++
      [viaField request.req.version accepted.pending.options.receivedBy] := by
    show (insertProxyHeaders accepted.frontend.req.headers accepted.frontend.req.version _).headers
      = _
    rw [hreq]
    rfl
  constructor
  · intro f hf
    rw [hheaders] at hf
    rcases List.mem_append.mp hf with hf | hf
    · exact strip_valid (normalizedFields_valid targets hwf.path hwf.headers) _ f hf
    · obtain rfl := List.mem_singleton.mp hf
      exact ⟨(by decide +kernel : isValidFieldName (ascii "Via") = true),
        isValidFieldValue_viaField _ accepted.pending.options.valid⟩
  · intro f hf
    rw [hheaders] at hf
    rcases List.mem_append.mp hf with hf | hf
    · have hkept := strip_not_standard hf
      simp only [isStandardHopByHop, hopByHopHeaders, List.any_cons, List.any_nil,
        Bool.or_eq_false_iff] at hkept
      exact hkept.1
    · obtain rfl := List.mem_singleton.mp hf
      exact (by decide : eqIgnoreCase (ascii "connection") (ascii "Via") = false)

/-! ## One request -/

/-- Whoever reads `w` by the logic requests are read with, with enough slots and limits and in
    whatever segments it arrives, finds exactly one request: with this method, this target,
    this framing, this content and these trailers, and nothing behind it. -/
def RereadsAs (h : Httparse) (method path : Bytes) (framing : ParsedFraming) (content : Bytes)
    (trailers : Headers) (w : Bytes) : Prop :=
  ∃ slots limit, ∀ (self : FrontendReader) (maxHead maxLine : Nat),
    slots ≤ self.parseSlots.slotCount → limit ≤ maxHead → limit ≤ maxLine →
    self.reader.unread = w →
    ∃ out, self.read h maxHead maxLine = .ok out ∧ out.req.method = method ∧
      out.req.path = path ∧ out.req.framing = .ok framing ∧
      ReadsThrough h out.reader content trailers

/-- A head and an encoded body are one request. -/
theorem rereadsAs_of_encodes (laws : h.RequestLaws) (hsize : h.ChunkSizeLaws)
    (hfields : h.FieldSectionLaws) {req : Request} {reader : FrontendBodyReader}
    {content body : Bytes} {trailers : Headers} (hmethod : isValidFieldName req.method = true)
    (htarget : h.IsTarget req.path) (hheaders : req.headers.Valid)
    (hopen : ∀ f ∈ req.headers.headers, eqIgnoreCase (ascii "connection") f.1 = false)
    (hencodes : Encodes h content trailers body (requestWriter reader))
    (hvalid : trailers.Valid) (hempty : (∀ inner r, reader ≠ .te inner r) → trailers = .empty) :
    RereadsAs h req.method req.path (requestFraming reader).parsed content trailers
      (Httparse.requestHead req.method req.path (ascii "HTTP/1.1")
        (Backend.writtenFields req (requestFraming reader)) ++ body) := by
  let fields := Backend.writtenFields req (requestFraming reader)
  let head := Httparse.requestHead req.method req.path (ascii "HTTP/1.1") fields
  have hothers : ∀ f ∈ req.headers.headers.filter fun f => !isFramingHeader f.1,
      isFramingHeader f.1 = false := by
    intro f hf
    simpa using (List.mem_filter.mp hf).2
  have hframing : Headers.framing ⟨fields.map readBack⟩ = .ok (requestFraming reader).parsed :=
    framing_written hothers (requestFraming_inRange reader)
  have hclosed : ∀ f ∈ fields, eqIgnoreCase (ascii "connection") f.1 = false := by
    intro f hf
    rcases List.mem_append.mp hf with hf | hf
    · exact hopen f (List.mem_filter.mp hf).1
    · exact framingFields_not_connection _ f hf
  -- slots for the longer of the two field lists, and room for the longer of the two parts
  refine ⟨max fields.length trailers.headers.length,
    max head.length (18 + ((fieldLines trailers.headers).length + 2)), ?_⟩
  intro self maxHead maxLine hslots hhead hline hunread
  have hmax : head.length ≤ maxHead := Nat.le_trans (Nat.le_max_left _ _) hhead
  obtain ⟨r, hrest, hread⟩ := FrontendReader.read_written laws hmethod htarget
    (Backend.writtenFields_valid hheaders _) (Nat.le_trans (Nat.le_max_left _ _) hslots) hclosed
    hframing hunread hmax maxLine
  refine ⟨_, hread, rfl, rfl, hframing, ?_⟩
  exact (holds_of_encodes hsize hfields hencodes hvalid hempty hrest (by omega) (by omega)
    (by omega)).readsThrough hsize hfields

/-- What has come onto the backend's connection is one request: that of the client, with its
    target normalized, its body as it is decoded, and its trailers sanitized. -/
def OneRequestOn (h : Httparse) (request : FrontendRequest) (sink s : Sink) : Prop :=
  ∃ t framing w, (request.reader.owed h requestSide.last).tail = some t ∧
    request.req.framing = .ok framing ∧ s.wire = sink.wire ++ w ∧
    RereadsAs h request.req.method (normalizedPath request.req.path) framing
      (request.reader.owed h requestSide.last).body (sanitizeTrailers t.trailers) w

/-- Forwarding a request and finishing its body, after whatever calls. -/
structure ForwardsOne (h : Httparse) (request : FrontendRequest)
    (forwarded : Polled BackendRequestError BackendProxyResponseReader × Sink) (sink : Sink)
    (acts : List Act) : Prop where
  /-- Whenever both are successful, one request is on the connection. -/
  one : ∀ out s, forwarded = (.ok out, s) → ∀ fuel result s',
    RequestBodyForwarder.finish h fuel ((Run.mk (out.bodyForwarder h s) none).acts acts).2.relay =
      (.ok result, s') → OneRequestOn h request sink s'
  /-- They are, if the body is complete and within its limits and the sink accepts bytes. -/
  succeeds : (request.reader.owed h requestSide.last).tail.isSome = true →
    request.reader.Fits h requestSide.last → sink.Accepting →
    ∃ out s enough, forwarded = (.ok out, s) ∧ ∀ fuel, enough ≤ fuel → ∃ result s',
      RequestBodyForwarder.finish h fuel
        ((Run.mk (out.bodyForwarder h s) none).acts acts).2.relay = (.ok result, s')

/-- A sink that accepts bytes is sent the head. -/
theorem BackendProxyRequest.forward_isOk (self : BackendProxyRequest)
    (backendConnection : BackendReader × BackendWriter)
    (hacc : backendConnection.2.writer.Accepting) :
    (self.forward backendConnection).1.isOk = true := by
  have hmeets := self.forward_meets backendConnection
  generalize self.forward backendConnection = x at hmeets
  obtain ⟨_ | out | e | _, s⟩ := x
  · exact hmeets.elim
  · rfl
  · exact absurd hacc hmeets
  · exact hmeets.elim

section Accepted

variable {reader : FrontendReader} {maxHead maxLine : Nat} {request : FrontendRequest}
variable {writer : FrontendWriter} {options : ProxyOptions} {accepted : FrontendProxyRequest}
variable {backendConnection : BackendReader × BackendWriter}

/-- An accepted request is forwarded with its head, and goes on with its own body. -/
theorem forwarded_start (haccepted : FrontendProxyRequest.Accepted request writer options accepted)
    {out : BackendProxyResponseReader} {s : Sink}
    (hok : accepted.intoBackendRequest.forward backendConnection = (.ok out, s)) :
    (Run.mk (out.bodyForwarder h s) none) =
        requestSide.start h options.bodyChunkSize request.reader (requestWriter request.reader) s ∧
      Sends medium (Httparse.requestHead accepted.intoBackendRequest.request.method
        accepted.intoBackendRequest.request.path (ascii "HTTP/1.1")
        (Backend.writtenFields accepted.intoBackendRequest.request
          (requestFraming request.reader))) backendConnection.2.writer s := by
  have hbody : accepted.intoBackendRequest.bodyReader = request.reader := haccepted.reader
  have hoptions : accepted.intoBackendRequest.pending.options = options :=
    congrArg PendingFrontendResponse.options haccepted.pending
  obtain ⟨rfl, hsends⟩ := BackendProxyRequest.forward_ok hok
  rw [hbody] at hsends
  refine ⟨?_, hsends⟩
  rw [BackendProxyResponseReader.bodyForwarder, hoptions, hbody]
  rfl

/-- The head of an accepted request with its whole body behind it is one request. -/
theorem oneRequestOn_of_delivered (hsize : h.ChunkSizeLaws) (hfields : h.FieldSectionLaws)
    (laws : h.RequestLaws) (targets : h.TargetLaws)
    (hread : reader.read h maxHead maxLine = .ok request)
    (haccepted : FrontendProxyRequest.Accepted request writer options accepted) {sink s s' : Sink}
    (hsends : Sends medium (Httparse.requestHead accepted.intoBackendRequest.request.method
      accepted.intoBackendRequest.request.path (ascii "HTTP/1.1")
      (Backend.writtenFields accepted.intoBackendRequest.request
        (requestFraming request.reader))) sink s)
    (hdelivered : Delivered requestSide h request.reader (requestWriter request.reader) s s') :
    OneRequestOn h request sink s' := by
  obtain ⟨hwf, r, recyclable, framing, hframing, -, hreader⟩ := Frontend.read_ok laws hread
  have hfresh := FrontendReader.read_fresh laws hread
  obtain ⟨t, body, htail, hwire, hencodes⟩ := hdelivered
  -- the trailers are valid fields, and there are none unless the body is chunked
  have hvalid := (trailers_wellFormed hfields requestSide_lawful hfresh htail).1
  have hempty : (∀ inner r, request.reader ≠ .te inner r) →
      sanitizeTrailers t.trailers = .empty := by
    intro hte
    rw [Side.trailers_empty requestSide_lawful hte htail, sanitizeTrailers_empty]
  -- the head has the method of the request and its target, normalized
  obtain ⟨hheaders, hopen⟩ := forwardedFields_valid targets hwf haccepted
  have hreq : accepted.frontend.req = _ := haccepted.req
  have hmethod : accepted.intoBackendRequest.request.method = request.req.method := by
    show accepted.frontend.req.method = _
    rw [hreq]
  have hpath : accepted.intoBackendRequest.request.path = normalizedPath request.req.path := by
    show accepted.frontend.req.path = _
    rw [hreq]
  have hparsed : (requestFraming request.reader).parsed = framing := by
    rw [hreader]
    apply requestFraming_parsed
    rintro n rfl
    exact length_of_framing hframing
  have hrereads := rereadsAs_of_encodes laws hsize hfields (hmethod ▸ hwf.method)
    (hpath ▸ isTarget_normalizedPath laws hwf.path) hheaders hopen hencodes
    (sanitizeTrailers_valid hvalid) hempty
  rw [hmethod, hpath, hparsed] at hrereads
  have hhead : s.wire = sink.wire ++ _ := hsends.wire
  refine ⟨t, framing, _, htail, hframing, ?_, hrereads⟩
  rw [hwire, hhead, hmethod, hpath, List.append_assoc]

end Accepted

/-- One request in, one request out: for every connection a request is read off and accepted
    from, in whatever segments it arrives, for bodies of every framing in pieces of every
    size, with calls that may be dropped, and whatever part of a write the sink accepts. -/
theorem forward_oneRequest (hsize : h.ChunkSizeLaws) (hfields : h.FieldSectionLaws)
    (laws : h.RequestLaws) (targets : h.TargetLaws) {reader : FrontendReader}
    {maxHead maxLine : Nat} {request : FrontendRequest}
    (hread : reader.read h maxHead maxLine = .ok request) {writer : FrontendWriter}
    {options : ProxyOptions} {accepted : FrontendProxyRequest}
    (hfrom : FrontendProxyRequest.fromRequest request writer options = .ok accepted)
    (hpos : 1 ≤ options.bodyChunkSize) (hword : options.bodyChunkSize < 2 ^ 64)
    (backendConnection : BackendReader × BackendWriter) (acts : List Act) :
    ForwardsOne h request (accepted.intoBackendRequest.forward backendConnection)
      backendConnection.2.writer acts := by
  have haccepted := FrontendProxyRequest.fromRequest_ok hfrom
  have hpaired : Paired requestSide h request.reader (requestWriter request.reader) :=
    request_paired (FrontendReader.read_fresh laws hread)
  constructor
  · intro out s hok fuel result s' hfinish
    obtain ⟨hrun, hsends⟩ := forwarded_start haccepted hok
    rw [hrun] at hfinish
    have hdelivered : Delivered requestSide h request.reader (requestWriter request.reader) s s' :=
      delivered_of_value _ hfinish fun a s'' hx =>
        Side.delivered hsize hfields requestSide_lawful hpos hword hpaired acts fuel hx
    exact oneRequestOn_of_delivered hsize hfields laws targets hread haccepted hsends hdelivered
  · intro hcomplete hfits hacc
    obtain ⟨out, s, hok⟩ := exists_of_isOk
      (BackendProxyRequest.forward_isOk accepted.intoBackendRequest backendConnection hacc)
    obtain ⟨hrun, hsends⟩ := forwarded_start haccepted hok
    let run := requestSide.start h options.bodyChunkSize request.reader
      (requestWriter request.reader) s
    obtain ⟨enough, hready⟩ : ∃ enough, ∀ fuel, enough ≤ fuel →
        (requestSide.finish h fuel (run.acts acts).2.relay).1 ≠ .pending :=
      Side.finish_ready requestSide_lawful hsize hfields hpos hword hpaired.fills acts
    refine ⟨out, s, enough, hok, ?_⟩
    intro fuel hfuel
    have hready := hready fuel hfuel
    have hmeets : Meets (requestSide.finish h fuel (run.acts acts).2.relay)
        (requestSide.finishPost h request.reader (requestWriter request.reader) s) :=
      Side.finish_meets requestSide_lawful hsize hfields hpos hword hpaired.fills acts fuel
    rw [hrun, RequestBodyForwarder.finish]
    generalize requestSide.finish h fuel (run.acts acts).2.relay = x at hready hmeets
    obtain ⟨_ | ⟨next, back⟩ | e | _, s'⟩ := x
    · exact absurd rfl hready
    · exact ⟨_, s', rfl⟩
    -- an error is one of a source that is cut off, and this one is whole
    · have hnone := hmeets.1 ⟨hfits, hsends.accepting hacc⟩
      rw [hnone] at hcomplete
      cases hcomplete
    · exact hmeets.elim

/-- A request in absolute-form with a chunked body, a field that is nominated and a trailer
    that may not be passed on; it stops in its size line, and the next one is behind it. -/
def wholeReader : FrontendReader :=
  ⟨⟨⟨[.data 80 (ascii "OST http://b?q HTTP/1.1\r\nHost: a\r\nConnection: X, close\r\nX: 1\r\n"),
    .pending, .data 84 (ascii "ransfer-Encoding: chunked\r\n\r\n4"),
    .data 13 (ascii "\nWiki\r\n0\r\nhost: c\r\netag: x\r\n\r\nGET")]⟩, .default⟩, ⟨4⟩⟩

def wholeRead : Polled FrontendError FrontendRequest := wholeReader.read reference 256 64

theorem wholeRead_isOk : wholeRead.isOk = true := by decide +kernel

def wholeRequest : FrontendRequest := wholeRead.get wholeRead_isOk

def wholeFromRequest : Polled FrontendRequestError FrontendProxyRequest :=
  .ofExcept (FrontendProxyRequest.fromRequest wholeRequest ⟨⟨[], []⟩⟩ .default)

theorem wholeFromRequest_isOk : wholeFromRequest.isOk = true := by decide +kernel

/-- A backend whose connection has a message on it and accepts one byte at a time. -/
def slowBackend : BackendReader × BackendWriter :=
  (⟨.new ⟨[]⟩, ⟨4⟩⟩, ⟨⟨ascii "PUT", [.accept 1, .pending, .accept 1]⟩⟩)

def wholeForward : Polled BackendRequestError BackendProxyResponseReader × Sink :=
  (wholeFromRequest.get wholeFromRequest_isOk).intoBackendRequest.forward slowBackend

theorem wholeForward_isOk : wholeForward.1.isOk = true := by decide +kernel

def wholeFinish : Polled ProxyCopyError (Option FrontendReader × BackendWriter) × Sink :=
  RequestBodyForwarder.finish reference 60 ((Run.mk ((wholeForward.1.get
    wholeForward_isOk).bodyForwarder reference wholeForward.2) none).acts droppedCalls).2.relay

theorem wholeFinish_isOk : wholeFinish.1.isOk = true := by decide +kernel

theorem forward_oneRequest_whole :
    OneRequestOn reference wholeRequest slowBackend.2.writer wholeFinish.2 :=
  (forward_oneRequest chunkSizeLaws fieldSectionLaws requestLaws targetLaws
    (Polled.eq_ok_get wholeRead_isOk)
    (Polled.ofExcept_eq_ok.mp (Polled.eq_ok_get wholeFromRequest_isOk)) (by decide) (by decide)
    slowBackend droppedCalls).one _ _ (eq_get wholeForward_isOk) _ _ _ (eq_get wholeFinish_isOk)

end Jrpxy.Proxy
