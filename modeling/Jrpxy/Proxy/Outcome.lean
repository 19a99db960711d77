/-
  Jrpxy.Proxy.Outcome

  What the calls of an exchange have done when they succeed.

  A request that is forwarded was sent in the framing its body has
  (`forward_ok`).  A response that is read was a whole head in front of the
  connection that is handed out (`ReadOff`); on the way to the final one every
  interim response was sent to a client that supports them, and the request
  body has seen nothing but calls and drops (`ForwardsWith.intoFinal`).  A pair
  of bodies that is finished is two forwarders that are (`finish_ok`).
-/
import Jrpxy.Lib.Relay.Kept
import Jrpxy.Proxy.Interim
import Jrpxy.Proxy.ResponseFraming

namespace Jrpxy.Proxy

open Poll BodyRelay BlockWriter Ascii Util HttpMessage Body Body.Reader Body.Writer Frontend Backend

variable {h : Httparse}

/-! ## The request -/

/-- The framing that goes with the framing of a request body. -/
def requestFraming : FrontendBodyReader → WriteFraming
  | .te _ _ => .chunked
  | .cl r _ => .length (UInt64.ofNat r.contentLength).toNat
  | .bodyless _ _ => .stripFraming

/-- Whatever the framing, one head is written, and the writer of its body is gone on with. -/
theorem BackendProxyRequest.forward_eq (self : BackendProxyRequest)
    (backendConnection : BackendReader × BackendWriter) :
    self.forward backendConnection =
      andThen (mapErr (BackendRequestError.mk self ∘ BackendError.writeError)
        (writeRequestTo self.request (requestFraming self.bodyReader)
          backendConnection.2.writer)) id
        fun _ sink => (.ok ⟨self, backendConnection.1, requestWriter self.bodyReader⟩, sink) := by
  have hsent : ∀ {α : Type} (x : Polled IoError Unit × Sink) (ready : α)
      (put : α → BackendBodyReady),
      (andThen (mapErr (BackendRequestError.mk self) (andThen
        (sendHead BackendError.writeError x ready) id fun w sink => (.ok (put w), sink))) id
          fun writer sink =>
            (.ok (BackendProxyResponseReader.mk self backendConnection.1 writer), sink)) =
        andThen (mapErr (BackendRequestError.mk self ∘ BackendError.writeError) x) id
          fun _ sink =>
            (.ok (BackendProxyResponseReader.mk self backendConnection.1 (put ready)), sink) := by
    rintro α ⟨_ | _ | e | _, s⟩ ready put <;> rfl
  obtain ⟨request, bodyReader, pending⟩ := self
  cases bodyReader with
  | te inner r => exact hsent _ Chunked.Ready.mk .chunked
  | cl inner r => exact hsent _ (ContentLength.Ready.new (UInt64.ofNat inner.contentLength)) .cl
  | bodyless inner r => exact hsent _ Bodyless.Ready.mk .bodyless
  | eof inner => exact inner.elim

theorem BackendProxyRequest.forward_meets (self : BackendProxyRequest)
    (backendConnection : BackendReader × BackendWriter) :
    Meets (self.forward backendConnection) {
      pending := fun _ => False
      ok := fun out s => out = ⟨self, backendConnection.1, requestWriter self.bodyReader⟩ ∧
        Sends medium (Httparse.requestHead self.request.method self.request.path (ascii "HTTP/1.1")
          (Backend.writtenFields self.request (requestFraming self.bodyReader)))
          backendConnection.2.writer s
      err := fun _ _ => ¬ backendConnection.2.writer.Accepting } := by
  rw [forward_eq]
  have hwritten := writeRequestTo_meets self.request (requestFraming self.bodyReader)
    backendConnection.2.writer
  generalize writeRequestTo self.request _ backendConnection.2.writer = x at hwritten
  obtain ⟨_ | _ | e | _, s⟩ := x
  · exact hwritten.elim
  · exact ⟨rfl, hwritten⟩
  · exact hwritten
  · exact hwritten.elim

/-- A forwarded request was sent in the framing of its body, and goes on with its writer. -/
theorem BackendProxyRequest.forward_ok {self : BackendProxyRequest}
    {backendConnection : BackendReader × BackendWriter} {out : BackendProxyResponseReader}
    {sink : Sink} (hok : self.forward backendConnection = (.ok out, sink)) :
    out = ⟨self, backendConnection.1, requestWriter self.bodyReader⟩ ∧
      Sends medium (Httparse.requestHead self.request.method self.request.path (ascii "HTTP/1.1")
        (Backend.writtenFields self.request (requestFraming self.bodyReader)))
        backendConnection.2.writer sink := by
  have hmeets := self.forward_meets backendConnection
  rw [hok] at hmeets
  exact hmeets

/-! ## Responses that are read -/

/-- What comes to hand when a response is read: its whole head was in front of the
    connection, which is handed out behind it. -/
inductive ReadOff (h : Httparse) (slots : ParseSlots) (allowBody : Bool) (maxHead maxLine : Nat)
    (unread : Bytes) : NormalizedResponseStream → Prop where
  | final {head rest : Bytes} {received : Response} {out : BackendFinalProxyResponse}
      (split : unread = head ++ rest) (isHead : Backend.IsHead h slots head received)
      (code : ¬ (100 ≤ received.code ∧ received.code ≤ 199))
      (finalOut : FinalOut slots allowBody maxHead maxLine received rest out) :
      ReadOff h slots allowBody maxHead maxLine unread (.final out)
  | informational {head : Bytes} {r : BytesReader} {received : Response}
      (split : unread = head ++ r.unread) (isHead : Backend.IsHead h slots head received)
      (code : 100 ≤ received.code ∧ received.code ≤ 199) :
      ReadOff h slots allowBody maxHead maxLine unread
        (.informational ⟨strippedResponse received, received⟩
          ⟨⟨allowBody, maxHead, maxLine, ⟨r, slots⟩⟩⟩)

/-- A response that is read and accepted was read off the connection. -/
theorem readOff_of_read (laws : h.ResponseLaws) (headLaws : h.ResponseHeadLaws)
    {reader : BackendReader} {allowBody : Bool} {maxHead maxLine : Nat} {stream : ResponseStream}
    {normalized : NormalizedResponseStream}
    (hread : reader.read h allowBody maxHead maxLine = .ok stream)
    (hnew : NormalizedResponseStream.new stream = .ok normalized) :
    ReadOff h reader.parseSlots allowBody maxHead maxLine reader.reader.unread normalized := by
  obtain ⟨head, r, res, hsplit, hhead, hanswered⟩ := BackendReader.read_answered laws headLaws hread
  cases hanswered with
  | final recyclable framing hpers hframed hcode =>
    obtain ⟨-, rfl⟩ := NormalizedResponseStream.new_final hnew
    exact .final hsplit hhead hcode ⟨r, recyclable, framing, rfl, hpers, hframed, rfl⟩
  | informational hcode hunframed =>
    obtain ⟨-, rfl⟩ := NormalizedResponseStream.new_informational hnew
    exact .informational hsplit hhead hcode

/-- The next response of a stream. -/
theorem NormalizedStreamReader.read_ok (laws : h.ResponseLaws) (headLaws : h.ResponseHeadLaws)
    {allowBody : Bool} {maxHead maxLine : Nat} {r : BytesReader} {slots : ParseSlots}
    {normalized : NormalizedResponseStream}
    (hok : NormalizedStreamReader.read h ⟨⟨allowBody, maxHead, maxLine, ⟨r, slots⟩⟩⟩ =
      .ok normalized) :
    ReadOff h slots allowBody maxHead maxLine r.unread normalized := by
  obtain ⟨stream, hread, hnew⟩ := Polled.bind_eq_ok.mp hok
  have hread : BackendReader.read h ⟨r, slots⟩ allowBody maxHead maxLine = .ok stream :=
    Polled.mapErr_eq_ok.mp hread
  exact readOff_of_read laws headLaws hread (Polled.ofExcept_eq_ok.mp hnew)

/-- What is awaited while the request body is driven has come, and the forwarder has seen
    calls and a drop. -/
theorem RequestBodyForwarder.forwardWhile_ok {ε α : Type} {polls : Nat} {fut : Polled ε α}
    {self : RequestBodyForwarder h} {a : α}
    (hok : (self.forwardWhile h polls fut).1 = .ok (.ok a)) :
    fut = .ok a ∧ self.Reaches (self.forwardWhile h polls fut).2 := by
  rcases hforward : self.forwardWhile h polls fut with ⟨answer, forwarder⟩
  rw [hforward] at hok
  cases hok
  obtain ⟨⟨⟩, run, hrun, hout⟩ := andThen_eq_ok hforward
  refine ⟨Polled.output_eq_ok.mp (congrArg Prod.fst hout), ?_⟩
  have hreaches := Relay.reaches_forwardWhile self polls
  rw [hrun] at hreaches
  cases congrArg Prod.snd hout
  exact hreaches

/-- The first response is read while the request body is driven, and normalized. -/
theorem BackendProxyResponseReader.readBackendResponse_steps {self : BackendProxyResponseReader}
    {polls : Nat} {sink : Sink} {stream : BackendProxyResponseStream h}
    (hok : self.readBackendResponse h polls sink = .ok stream) :
    ∃ read normalized forwarder,
      stream = attachFrontendState normalized forwarder self.request.pending ∧
      (self.bodyForwarder h sink).Reaches forwarder ∧
      self.backendReader.read h (!self.request.pending.clientOptions.isHead)
        self.request.pending.options.maxBackendHeadLength
        self.request.pending.options.maxChunkHeaderLength = .ok read ∧
      NormalizedResponseStream.new read = .ok normalized := by
  unfold readBackendResponse at hok
  dsimp only at hok
  obtain ⟨normalized, hnormalized, hout⟩ := Polled.bind_eq_ok.mp hok
  cases hout
  obtain ⟨read, hread, hnew⟩ := Polled.bind_eq_ok.mp (Polled.mapErr_eq_ok.mp hnormalized)
  obtain ⟨result, hresult, hread⟩ := Polled.bind_eq_ok.mp hread
  have hread := mapError_eq_ok.mp (Polled.ofExcept_eq_ok.mp hread)
  subst hread
  obtain ⟨hfut, hreaches⟩ := RequestBodyForwarder.forwardWhile_ok hresult
  exact ⟨read, normalized, _, rfl, hreaches, hfut,
    mapError_eq_ok.mp (Polled.ofExcept_eq_ok.mp hnew)⟩

/-- The first response is read off the connection, while the request body is driven. -/
theorem BackendProxyResponseReader.readBackendResponse_ok (laws : h.ResponseLaws)
    (headLaws : h.ResponseHeadLaws) {self : BackendProxyResponseReader} {polls : Nat} {sink : Sink}
    {stream : BackendProxyResponseStream h}
    (hok : self.readBackendResponse h polls sink = .ok stream) :
    ∃ normalized forwarder, stream = attachFrontendState normalized forwarder self.request.pending ∧
      (self.bodyForwarder h sink).Reaches forwarder ∧
      ReadOff h self.backendReader.parseSlots (!self.request.pending.clientOptions.isHead)
        self.request.pending.options.maxBackendHeadLength
        self.request.pending.options.maxChunkHeaderLength self.backendReader.reader.unread
        normalized := by
  obtain ⟨read, normalized, forwarder, hstream, hreaches, hread, hnew⟩ :=
    readBackendResponse_steps hok
  exact ⟨normalized, forwarder, hstream, hreaches, readOff_of_read laws headLaws hread hnew⟩

/-! ## Informational responses -/

/-- The caller may edit the fields of an informational response before it is forwarded. -/
def BackendInformationalProxyResponseForwarder.edit
    (self : BackendInformationalProxyResponseForwarder h) (headers : Headers) :
    BackendInformationalProxyResponseForwarder h :=
  { self with proxyInformationalResponse :=
    { self.proxyInformationalResponse with
      res := { self.proxyInformationalResponse.res with headers } } }

/-- One round: the response is sent to a client that supports it, and the next one is read. -/
theorem forwardInformationalResponse_ok {self : BackendInformationalProxyResponseForwarder h}
    {polls : Nat} {result : InformationalProxyResponseForwardResult h} {sink : Sink}
    (hok : self.forwardInformationalResponse polls = (.ok result, sink)) :
    let response := self.proxyInformationalResponse.res
    ∃ normalized forwarder,
      result.intoInner = attachFrontendState normalized forwarder
        { self.pending with frontendWriter := ⟨sink⟩ } ∧
      self.proxyStreamReader.read h = .ok normalized ∧
      self.requestBodyForwarder.Reaches forwarder ∧
      sink.wire = self.pending.frontendWriter.writer.wire ++
        (if self.pending.clientOptions.version = .http11 then
          responseHead response.code response.reason
            (Frontend.writtenFields (self.pending.withProxyHeaders response) .stripFraming)
        else []) := by
  intro response
  unfold BackendInformationalProxyResponseForwarder.forwardInformationalResponse at hok
  dsimp only at hok
  obtain ⟨pending, sink', hsent, hrest⟩ := andThen_eq_ok hok
  have hsent := mapErr_eq_ok hsent
  -- the client's side: a head is sent to an HTTP/1.1 client, and nothing to an older one
  cases congrArg Prod.snd hrest
  have hpending : pending = { self.pending with frontendWriter := ⟨sink⟩ } ∧
      sink.wire = self.pending.frontendWriter.writer.wire ++
        (if self.pending.clientOptions.version = .http11 then
          responseHead response.code response.reason
            (Frontend.writtenFields (self.pending.withProxyHeaders response) .stripFraming)
        else []) := by
    cases hversion : self.pending.clientOptions.version with
    | http10 =>
      rw [hversion] at hsent
      cases hsent
      exact ⟨rfl, (List.append_nil _).symm⟩
    | http11 =>
      rw [hversion] at hsent
      have hmeets := self.pending.sendInformational_meets response
      rw [if_pos rfl]
      have hsent : self.pending.sendInformational response = (.ok pending, sink) := hsent
      rw [hsent] at hmeets
      exact ⟨hmeets.1, hmeets.2.wire⟩
  obtain ⟨rfl, hwire⟩ := hpending
  -- the backend's side: the request body is forwarded until the next response is read
  obtain ⟨normalized, hnormalized, hout⟩ := Polled.bind_eq_ok.mp (congrArg Prod.fst hrest)
  obtain ⟨read, hread, hinner⟩ := Polled.bind_eq_ok.mp (Polled.mapErr_eq_ok.mp hnormalized)
  have hinner := mapError_eq_ok.mp (Polled.ofExcept_eq_ok.mp hinner)
  subst hinner
  obtain ⟨hfut, hreaches⟩ := RequestBodyForwarder.forwardWhile_ok hread
  refine ⟨normalized, _, ?_, hfut, hreaches, hwire⟩
  obtain rfl := Polled.ok.inj hout
  split
  · rfl
  · rfl

/-- Informational responses are forwarded until the final one comes, with fields that satisfy
    `P`. -/
inductive ForwardsWith (P : Headers → Prop) :
    BackendProxyResponseStream h → BackendFinalProxyResponseForwarder h → Prop where
  | final (forwarder : BackendFinalProxyResponseForwarder h) :
      ForwardsWith P (.final forwarder) forwarder
  | informational {forwarder : BackendInformationalProxyResponseForwarder h} {headers : Headers}
      {polls : Nat} {result : InformationalProxyResponseForwardResult h} {sink : Sink}
      {out : BackendFinalProxyResponseForwarder h} (good : P headers)
      (forwarded : (forwarder.edit headers).forwardInformationalResponse polls =
        (.ok result, sink))
      (more : ForwardsWith P result.intoInner out) :
      ForwardsWith P (.informational forwarder) out

/-- They are forwarded with whatever fields the caller likes. -/
abbrev ForwardsToFinal (stream : BackendProxyResponseStream h)
    (out : BackendFinalProxyResponseForwarder h) : Prop :=
  ForwardsWith (fun _ => True) stream out

/-- A caller that edits nothing. -/
theorem forwardsToFinal_of_intoFinal {more : List Nat} {stream : BackendProxyResponseStream h}
    {out : BackendFinalProxyResponseForwarder h} {sink : Sink}
    (hok : stream.intoFinal more = (.ok out, sink)) : ForwardsToFinal stream out := by
  induction more generalizing stream with
  | nil =>
    cases stream with
    | final forwarder =>
      cases hok
      exact .final _
    | informational forwarder => cases hok
  | cons polls more ih =>
    cases stream with
    | final forwarder =>
      cases hok
      exact .final _
    | informational forwarder =>
      obtain ⟨result, sink', hround, hrest⟩ := andThen_eq_ok hok
      exact @ForwardsWith.informational _ _ forwarder
        forwarder.proxyInformationalResponse.res.headers polls _ _ _ trivial hround (ih hrest)

/-- An interim response that was relayed: its head as received, the response as received, and
    the fields it was sent with. -/
structure RelayedInterim where
  head : Bytes
  received : Response
  fields : List Field

/-- The head that was sent. -/
def RelayedInterim.sent (x : RelayedInterim) : Bytes :=
  responseHead x.received.code x.received.reason x.fields

/-- The head is a whole one of an interim response, and what was sent does not frame. -/
structure RelayedInterim.Whole (h : Httparse) (slots : ParseSlots) (x : RelayedInterim) : Prop where
  isHead : Backend.IsHead h slots x.head x.received
  code : 100 ≤ x.received.code ∧ x.received.code ≤ 199
  unframed : ∀ f ∈ x.fields, isFramingHeader f.1 = false

/-- Without its framing headers no response frames. -/
theorem writtenFields_stripFraming_unframed (res : Response) :
    ∀ f ∈ Frontend.writtenFields res .stripFraming, isFramingHeader f.1 = false := by
  intro f hf
  rw [Frontend.writtenFields, framingFields, List.append_nil] at hf
  simpa [WriteFraming.preservesFraming] using (List.mem_filter.mp hf).2

/-- What a caller has when it has forwarded all informational responses. -/
structure IntoFinal (h : Httparse) (slots : ParseSlots) (allowBody : Bool) (maxHead maxLine : Nat)
    (unread : Bytes) (forwarder : RequestBodyForwarder h) (pending : PendingFrontendResponse)
    (out : BackendFinalProxyResponseForwarder h) (interims : List RelayedInterim)
    (head rest : Bytes) : Prop where
  split : unread = interims.flatMap RelayedInterim.head ++ (head ++ rest)
  whole : ∀ x ∈ interims, x.Whole h slots
  isHead : Backend.IsHead h slots head out.proxyResponse.original
  code : ¬ (100 ≤ out.proxyResponse.original.code ∧ out.proxyResponse.original.code ≤ 199)
  finalOut : FinalOut slots allowBody maxHead maxLine out.proxyResponse.original rest
    out.proxyResponse
  reaches : forwarder.Reaches out.requestBodyForwarder
  carried : out.pending = { pending with frontendWriter := out.pending.frontendWriter }
  wire : out.pending.frontendWriter.writer.wire = pending.frontendWriter.writer.wire ++
    (if pending.clientOptions.version = .http11 then interims.flatMap RelayedInterim.sent else [])

/-- The fields an interim response was relayed with are those the caller made of it. -/
def RelayedInterim.MadeBy (P : Headers → Prop) (pending : PendingFrontendResponse)
    (i : RelayedInterim) : Prop :=
  ∃ headers, P headers ∧ i.fields = Frontend.writtenFields
    (pending.withProxyHeaders { strippedResponse i.received with headers }) .stripFraming

/-- Each round puts one head of the backend behind the proxy, and relays it as the caller made it,
    by induction on the rounds. -/
theorem ForwardsWith.intoFinal (laws : h.ResponseLaws) (headLaws : h.ResponseHeadLaws)
    {P : Headers → Prop} {slots : ParseSlots} {allowBody : Bool} {maxHead maxLine : Nat}
    {stream : BackendProxyResponseStream h} {out : BackendFinalProxyResponseForwarder h}
    (hdriven : ForwardsWith P stream out) :
    ∀ {normalized : NormalizedResponseStream} {forwarder : RequestBodyForwarder h}
      {pending : PendingFrontendResponse} {unread : Bytes},
      stream = attachFrontendState normalized forwarder pending →
      ReadOff h slots allowBody maxHead maxLine unread normalized →
      ∃ interims head rest, IntoFinal h slots allowBody maxHead maxLine unread forwarder pending
        out interims head rest ∧ ∀ i ∈ interims, i.MadeBy P pending := by
  induction hdriven with
  | final forwarder' =>
    intro normalized forwarder pending unread hstream hread
    -- the final response comes at once, and nothing of it has been edited
    cases hread with
    | informational hsplit hhead hcode => cases hstream
    | @final head' rest' received response hsplit hhead hcode hout =>
      cases hstream
      have horiginal : response.original = received := by
        obtain ⟨r, recyclable, framing, -, -, -, rfl⟩ := hout
        rfl
      subst horiginal
      refine ⟨[], head', rest', ⟨hsplit, by simp, hhead, hcode, hout, .refl _, rfl, ?_⟩, by simp⟩
      simp
  | @informational self headers polls result sink out good hforwarded hmore ih =>
    intro normalized forwarder pending unread hstream hread
    cases hread with
    | final hsplit hhead hcode hout => cases hstream
    | @informational head r received hsplit hhead hcode =>
      cases hstream
      obtain ⟨next, forwarder', hinner, hread, hreaches, hwire⟩ :=
        forwardInformationalResponse_ok hforwarded
      obtain ⟨interims, head', rest, hfinal, hmade⟩ := ih hinner
        (NormalizedStreamReader.read_ok laws headLaws hread)
      let fields := Frontend.writtenFields (pending.withProxyHeaders
        { strippedResponse received with headers }) .stripFraming
      have hwire : sink.wire = pending.frontendWriter.writer.wire ++
          (if pending.clientOptions.version = .http11 then
            RelayedInterim.sent ⟨head, received, fields⟩ else []) := hwire
      refine ⟨⟨head, received, fields⟩ :: interims, head', rest, ⟨?_, ?_, hfinal.isHead,
        hfinal.code, hfinal.finalOut, hreaches.trans hfinal.reaches, hfinal.carried, ?_⟩, ?_⟩
      · rw [hsplit, hfinal.split, List.flatMap_cons, List.append_assoc]
      · intro x hx
        rcases List.mem_cons.mp hx with rfl | hx
        · exact ⟨hhead, hcode, writtenFields_stripFraming_unframed _⟩
        · exact hfinal.whole x hx
      -- what the later rounds send stands behind what this one sends
      · have hothers : out.pending.frontendWriter.writer.wire = sink.wire ++
            (if pending.clientOptions.version = .http11 then
              interims.flatMap RelayedInterim.sent else []) := hfinal.wire
        rw [hothers, hwire, List.append_assoc, List.flatMap_cons]
        by_cases hversion : pending.clientOptions.version = .http11
        · simp only [if_pos hversion]
        · simp only [if_neg hversion, List.append_nil]
      · intro x hx
        rcases List.mem_cons.mp hx with rfl | hx
        · exact ⟨headers, good, rfl⟩
        · exact hmade x hx

/-! ## Both bodies -/

/-- A pair of bodies is finished when both forwarders are. -/
theorem ProxyBodyExchanger.finish_ok {self : ProxyBodyExchanger h} {fuel : Nat}
    {frontend : Option (FrontendReader × FrontendWriter)}
    {backend : Option (BackendReader × BackendWriter)} {backendSink frontendSink : Sink}
    (hok : self.finish fuel = (.ok (frontend, backend), backendSink, frontendSink)) :
    ∃ (frontendReader : Option FrontendReader) (backendReader : Option BackendReader)
      (target : Option Sink) (frontendWriter : Option Sink),
      requestSide.finish h fuel self.requestBodyForwarder =
        (.ok (frontendReader, target), backendSink) ∧
      responseSide.finish h fuel self.responseBodyForwarder =
        (.ok (backendReader, frontendWriter), frontendSink) ∧
      frontend = (frontendReader.bind fun fr => frontendWriter.map fun fw => (fr, ⟨fw⟩)) ∧
      backend = backendReader.map fun br => (br, ⟨backendSink⟩) := by
  unfold ProxyBodyExchanger.finish at hok
  rcases hf2b : self.requestBodyForwarder.finish h fuel with ⟨f2b, s⟩
  rcases hb2f : self.responseBodyForwarder.finish h fuel with ⟨b2f, s'⟩
  rw [hf2b, hb2f] at hok
  dsimp only at hok
  cases congrArg Prod.snd hok
  obtain ⟨f2bRes, hf, hrest⟩ := Polled.bind_eq_ok.mp (congrArg Prod.fst hok)
  obtain ⟨b2fRes, hb, hrest⟩ := Polled.bind_eq_ok.mp hrest
  have hrest := Polled.ofExcept_eq_ok.mp hrest
  cases b2fRes with
  | error e => cases hrest
  | ok b2fOut =>
    cases f2bRes with
    | error e => cases hrest
    | ok f2bOut =>
      -- both futures are ready, and neither is an error
      cases hrest
      cases Polled.output_eq_ok.mp hf
      cases Polled.output_eq_ok.mp hb
      obtain ⟨⟨fr, target⟩, s₁, hfinish, hout⟩ := andThen_eq_ok hf2b
      cases hout
      obtain ⟨⟨br, fw⟩, s₂, hfinish', hout'⟩ := andThen_eq_ok hb2f
      cases hout'
      refine ⟨fr, br, target, fw, hfinish, hfinish', ?_, rfl⟩
      cases fr with
      | none => rfl
      | some fr =>
        cases fw with
        | none => rfl
        | some fw => rfl

end Jrpxy.Proxy
