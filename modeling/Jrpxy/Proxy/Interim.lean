/-
  Jrpxy.Proxy.Interim

  Interim responses on their way to the client.

  A stream of responses passes three wrappers, each of which is taken apart
  and built again for every response.  `Ahead` says where a stream stands when
  one response has been read: what is in hand, what is in front of the
  connection, and what was carried along.  One round keeps it
  (`forwardInformationalResponse_ahead`), and by induction on the responses
  that are still to come so does the way to the final one (`intoFinal_ahead`).
-/
import Jrpxy.Backend.Stream
import Jrpxy.Proxy.Exchange
import Jrpxy.Proxy.Rewriting

namespace Jrpxy.Proxy

open Poll BodyRelay BlockWriter Ascii Util HttpMessage Body Body.Reader Body.Writer Frontend Backend

open Httparse.Reference (reference responseLaws responseHeadLaws)

variable {h : Httparse}

/-! ## What a client is sent -/

/-- The proxy's entry in `Via`. -/
def viaField (version : HttpVersion) (receivedBy : Bytes) : Field :=
  (ascii "Via", (match version with
    | .http10 => ascii "1.0"
    | .http11 => ascii "1.1") ++ ascii " " ++ receivedBy)

/-- The fields of a relayed interim response: those as received that are not
    connection-scoped, and the proxy's `Via`. -/
def relayedFields (receivedBy : Bytes) (received : Response) : List Field :=
  (received.headers.headers.filter fun f => ¬ ConnectionScoped received.headers f.1) ++
    [viaField received.version receivedBy]

/-- The head of a relayed interim response. -/
def relayedHead (receivedBy : Bytes) (received : Response) : Bytes :=
  responseHead received.code received.reason (relayedFields receivedBy received)

/-- A response without its connection-scoped fields. -/
def strippedResponse (received : Response) : Response :=
  { received with
    headers := stripHopByHopHeaders received.headers (listedOptions received.headers) }

theorem viaField_not_framing (version : HttpVersion) (receivedBy : Bytes) :
    isFramingHeader (viaField version receivedBy).1 = false :=
  (by decide : isFramingHeader (ascii "Via") = false)

/-- What does not frame as received does not frame when it is relayed. -/
theorem relayedFields_unframed {receivedBy : Bytes} {received : Response}
    (hunframed : ∀ f ∈ received.headers.headers, isFramingHeader f.1 = false) :
    ∀ f ∈ relayedFields receivedBy received, isFramingHeader f.1 = false := by
  intro f hf
  rcases List.mem_append.mp hf with hf | hf
  · exact hunframed f (List.mem_filter.mp hf).1
  · obtain rfl := List.mem_singleton.mp hf
    exact viaField_not_framing _ _

/-- The fields that are written for a stripped interim response. -/
theorem writtenFields_stripped (pending : PendingFrontendResponse) {received : Response}
    (hunframed : ∀ f ∈ received.headers.headers, isFramingHeader f.1 = false) :
    Frontend.writtenFields (pending.withProxyHeaders (strippedResponse received)) .stripFraming =
      relayedFields pending.options.receivedBy received := by
  have hkept := (strip_endToEnd received.headers received.headers.headers).rest_kept
  have hfields : (pending.withProxyHeaders (strippedResponse received)).headers.iter =
      relayedFields pending.options.receivedBy received := by
    show (stripHopByHopHeaders received.headers _).headers ++ _ = _
    rw [hkept]
    cases hversion : received.version <;> simp [relayedFields, viaField, hversion, strippedResponse]
  rw [Frontend.writtenFields, hfields, framingFields, List.append_nil, List.filter_eq_self]
  intro f hf
  rw [relayedFields_unframed hunframed f hf]
  rfl

/-- Sending an interim response sends its head, and keeps everything but the connection. -/
theorem PendingFrontendResponse.sendInformational_meets (self : PendingFrontendResponse)
    (response : Response) :
    Meets (self.sendInformational response) {
      pending := fun _ => False
      ok := fun pending s => pending = { self with frontendWriter := ⟨s⟩ } ∧
        Sends medium (responseHead response.code response.reason
          (Frontend.writtenFields (self.withProxyHeaders response) .stripFraming))
          self.frontendWriter.writer s
      err := fun _ _ => ¬ self.frontendWriter.writer.Accepting } := by
  unfold PendingFrontendResponse.sendInformational
  dsimp only
  -- the head, whose framing fields are stripped
  have hhead := self.frontendWriter.sendAs_meets (self.withProxyHeaders response) .stripFraming
    Bodyless.Ready.mk
  have hsent : Meets (mapErr ProxyFrontendError.frontendError
      (self.frontendWriter.sendAsNoContent (self.withProxyHeaders response))) {
        pending := fun _ => False
        ok := fun _ s => Sends medium (responseHead response.code response.reason
          (Frontend.writtenFields (self.withProxyHeaders response) .stripFraming))
          self.frontendWriter.writer s
        err := fun _ _ => ¬ self.frontendWriter.writer.Accepting } :=
    hhead.mapErr (fun _ hf => hf) (fun _ _ ho => ho.2) fun _ _ he => he
  refine hsent.andThen (fun _ hf => hf) (fun _ _ he => he) ?_
  intro bodyWriter s hsends
  -- and the end of a body that has no bytes, which flushes only
  have hflush : Meets (mapErr (ProxyFrontendError.frontendError ∘ FrontendError.bodyWriteError)
      (Flushing.finish bodyWriter.finish s)) {
        pending := fun _ => False
        ok := fun _ s' => Sends medium [] s s'
        err := fun _ _ => ¬ s.Accepting } :=
    (Flushing.finish_meets _ s).mapErr (fun _ hf => hf) (fun _ _ ho => ho) fun _ _ he => he
  refine hflush.andThen (fun _ hf => hf) (fun _ _ he hacc => he (hsends.accepting hacc)) ?_
  intro _ s' hnothing
  have hboth := hsends.trans hnothing
  rw [List.append_nil] at hboth
  exact ⟨rfl, hboth⟩

/-! ## A stream of responses -/

/-- What a final response comes to: it is stripped, it is kept as received, and the reader of
    its body stands in front of `rest`. -/
def FinalOut (slots : ParseSlots) (allowBody : Bool) (maxHead maxLine : Nat) (received : Response)
    (rest : Bytes) (out : BackendFinalProxyResponse) : Prop :=
  ∃ r recyclable framing, r.unread = rest ∧
    received.headers.connectionIsPersistent received.version = .ok recyclable ∧
    received.framing = .ok framing ∧
    out = ⟨⟨strippedResponse received, BackendReader.bodyReader r slots maxHead maxLine
      (allowBody && !neverHasBody received.code) recyclable framing⟩, received⟩

/-- An interim response whose `Connection` fields list tokens. -/
def Relayable (h : Httparse) (slots : ParseSlots) (maxHead : Nat) (x : Bytes × Response) : Prop :=
  Interim h slots maxHead x.1 x.2 ∧ ∃ tokens, getConnectionTokens x.2.headers = .ok tokens

/-- One response has been read of a stream of these interim responses, the final one and
    `rest`: the first is in hand, and the connection stands in front of the others. -/
def Ahead (slots : ParseSlots) (allowBody : Bool) (maxHead maxLine : Nat)
    (final : Bytes × Response) (rest : Bytes) :
    List (Bytes × Response) → NormalizedResponseStream → Prop
  | [], .final out => FinalOut slots allowBody maxHead maxLine final.2 rest out
  | x :: xs, .informational response reader =>
    response = ⟨strippedResponse x.2, x.2⟩ ∧
      ∃ r, reader = ⟨⟨allowBody, maxHead, maxLine, ⟨r, slots⟩⟩⟩ ∧
        r.unread = xs.flatMap Prod.fst ++ (final.1 ++ rest)
  | _, _ => False

/-- Options that can be read are those that are listed. -/
theorem tokens_listed {headers : Headers}
    (htokens : ∃ tokens, getConnectionTokens headers = .ok tokens) :
    getConnectionTokens headers = .ok (listedOptions headers) := by
  obtain ⟨tokens, hok⟩ := htokens
  obtain rfl := getConnectionTokens_ok hok
  exact hok

/-- Whether a connection is persistent cannot be said without its options. -/
theorem tokens_of_persistent {headers : Headers} {version : HttpVersion} {recyclable : Bool}
    (hpers : headers.connectionIsPersistent version = .ok recyclable) :
    ∃ tokens, getConnectionTokens headers = .ok tokens := by
  unfold Headers.connectionIsPersistent at hpers
  rcases htokens : collectTokens headers.connectionTokens with e | tokens
  · rw [htokens] at hpers
    cases hpers
  · exact ⟨tokens, htokens⟩

/-- Forward a request body during several reads, one after the other. -/
def RequestBodyForwarder.forwardEach (h : Httparse) :
    List Nat → RequestBodyForwarder h → Polled ProxyCopyError Unit × RequestBodyForwarder h
  | [], self => (.ok (), self)
  | polls :: more, self =>
    andThen (Run.forwardWhile polls ⟨self, none⟩) (·.relay) fun _ run => forwardEach h more run.relay

/-- Without an error in all of them, there is none in the first and none in the others. -/
theorem RequestBodyForwarder.forwardEach_cons {polls : Nat} {more : List Nat}
    {self self' : RequestBodyForwarder h}
    (hok : forwardEach h (polls :: more) self = (.ok (), self')) :
    ∃ run, Run.forwardWhile polls ⟨self, none⟩ = (.ok (), run) ∧
      forwardEach h more run.relay = (.ok (), self') := by
  rw [forwardEach] at hok
  generalize Run.forwardWhile polls ⟨self, none⟩ = x at hok ⊢
  obtain ⟨_ | ⟨⟩ | e | _, run⟩ := x
  · cases hok
  · exact ⟨run, rfl, hok⟩
  · cases hok
  · cases hok

section Stream

variable {slots : ParseSlots} {maxHead : Nat} {final : Bytes × Response} {rest : Bytes}
variable {interims : List (Bytes × Response)}
variable (laws : h.ResponseLaws) (headLaws : h.ResponseHeadLaws)
variable (hfinal : FinalHead h slots maxHead final.1 final.2)

include laws headLaws hfinal

/-- Reading in front of such a stream takes one response in hand. -/
theorem read_ahead (hinterims : ∀ x ∈ interims, Relayable h slots maxHead x)
    {reader : BackendReader} (hslots : reader.parseSlots = slots)
    (hunread : reader.reader.unread = interims.flatMap Prod.fst ++ (final.1 ++ rest))
    (allowBody : Bool) (maxLine : Nat) :
    ∃ stream normalized, reader.read h allowBody maxHead maxLine = .ok stream ∧
      NormalizedResponseStream.new stream = .ok normalized ∧
      Ahead slots allowBody maxHead maxLine final rest interims normalized := by
  subst hslots
  cases interims with
  -- the final response is next
  | nil =>
    obtain ⟨recyclable, framing, hpers, hframing, hread⟩ :=
      @BackendReader.read_finalHead h final.1 rest final.2 laws headLaws _ _ hfinal
    obtain ⟨r, hrest, hread⟩ := hread rfl hunread allowBody maxLine
    refine ⟨_, .final ⟨⟨strippedResponse final.2, _⟩, final.2⟩, hread, ?_, r, recyclable,
      framing, hrest, hpers, hframing, rfl⟩
    rw [NormalizedResponseStream.new, tokens_listed (tokens_of_persistent hpers)]
    rfl
  | cons x xs =>
    obtain ⟨hinterim, htokens⟩ := hinterims x List.mem_cons_self
    rw [List.flatMap_cons, List.append_assoc] at hunread
    obtain ⟨r, hrest, hread⟩ := BackendReader.read_interim laws headLaws hinterim hunread
      allowBody maxLine
    refine ⟨_, .informational ⟨strippedResponse x.2, x.2⟩ _, hread, ?_, rfl, r, rfl, hrest⟩
    rw [NormalizedResponseStream.new, tokens_listed htokens]
    rfl

/-- One round: the response in hand goes to a client that supports it, and the next one is
    taken in hand. -/
theorem forwardInformationalResponse_ahead {x : Bytes × Response}
    (hinterim : Interim h slots maxHead x.1 x.2)
    (hinterims : ∀ x ∈ interims, Relayable h slots maxHead x) {allowBody : Bool} {maxLine : Nat}
    {response : BackendInformationalProxyResponse} {reader : NormalizedStreamReader}
    (hahead : Ahead slots allowBody maxHead maxLine final rest (x :: interims)
      (.informational response reader))
    {forwarder : RequestBodyForwarder h} {polls : Nat} {run : Run (requestSide.ends h)}
    (hforward : Run.forwardWhile polls ⟨forwarder, none⟩ = (.ok (), run))
    {pending : PendingFrontendResponse}
    (haccepting : pending.clientOptions.version = .http11 →
      pending.frontendWriter.writer.Accepting) :
    ∃ result sink normalized,
      (BackendInformationalProxyResponseForwarder.mk response forwarder pending
        reader).forwardInformationalResponse polls = (.ok result, sink) ∧
      result.intoInner =
        attachFrontendState normalized run.relay { pending with frontendWriter := ⟨sink⟩ } ∧
      Ahead slots allowBody maxHead maxLine final rest interims normalized ∧
      sink.wire = pending.frontendWriter.writer.wire ++
        (if pending.clientOptions.version = .http11 then
          relayedHead pending.options.receivedBy x.2 else []) ∧
      (pending.clientOptions.version = .http11 → sink.Accepting) := by
  obtain ⟨rfl, r, rfl, hunread⟩ := hahead
  obtain ⟨stream, normalized, hread, hnew, hnext⟩ := read_ahead laws headLaws hfinal hinterims
    (rfl : ConnectionReader.parseSlots ⟨r, slots⟩ = slots) hunread allowBody maxLine
  have hstream : NormalizedStreamReader.read h ⟨⟨allowBody, maxHead, maxLine, ⟨r, slots⟩⟩⟩ =
      .ok normalized := by
    rw [NormalizedStreamReader.read, BackendStreamReader.read, hread, Polled.mapErr_ok,
      Polled.bind_ok, hnew, Polled.ofExcept_ok]
  have hmeanwhile : forwarder.forwardWhile h polls
      (NormalizedStreamReader.read h ⟨⟨allowBody, maxHead, maxLine, ⟨r, slots⟩⟩⟩) =
        (.ok (.ok normalized), run.relay) := by
    rw [RequestBodyForwarder.forwardWhile, hforward, hstream]
    rfl
  cases hversion : pending.clientOptions.version with
  | http10 =>
    -- the client is sent nothing, and its connection is not touched
    refine ⟨.dropped (attachFrontendState normalized run.relay pending),
      pending.frontendWriter.writer, normalized, ?_, rfl, hnext, ?_, ?_⟩
    · simp only [BackendInformationalProxyResponseForwarder.forwardInformationalResponse, hversion,
        hmeanwhile]
      rfl
    · rw [if_neg (by decide), List.append_nil]
    · intro hfalse
      cases hfalse
  | http11 =>
    have hsend := pending.sendInformational_meets (strippedResponse x.2)
    generalize hsent : pending.sendInformational (strippedResponse x.2) = y at hsend
    obtain ⟨_ | pending' | e | _, sink⟩ := y
    · exact hsend.elim
    · obtain ⟨rfl, hsends⟩ := hsend
      rw [writtenFields_stripped pending hinterim.unframed] at hsends
      refine ⟨.forwarded (attachFrontendState normalized run.relay
        { pending with frontendWriter := ⟨sink⟩ }), sink, normalized, ?_, rfl, hnext, ?_, ?_⟩
      · simp only [BackendInformationalProxyResponseForwarder.forwardInformationalResponse,
          hversion, hmeanwhile, BackendInformationalProxyResponse.intoFrontendResponse, hsent]
        rfl
      · rw [if_pos rfl]
        exact hsends.wire
      · intro _
        exact hsends.accepting (haccepting hversion)
    · exact absurd (haccepting hversion) hsend
    · exact hsend.elim

/-- All rounds, by induction on the interim responses that are still to come. -/
theorem intoFinal_ahead (hinterims : ∀ x ∈ interims, Relayable h slots maxHead x)
    {allowBody : Bool} {maxLine : Nat} {normalized : NormalizedResponseStream}
    (hahead : Ahead slots allowBody maxHead maxLine final rest interims normalized)
    {more : List Nat} (hmore : more.length = interims.length)
    {forwarder forwarder' : RequestBodyForwarder h}
    (hforward : RequestBodyForwarder.forwardEach h more forwarder = (.ok (), forwarder'))
    {pending : PendingFrontendResponse}
    (haccepting : pending.clientOptions.version = .http11 →
      pending.frontendWriter.writer.Accepting) :
    ∃ out sink,
      (attachFrontendState normalized forwarder pending).intoFinal more =
        (.ok ⟨forwarder', { pending with frontendWriter := ⟨sink⟩ }, out⟩, sink) ∧
      FinalOut slots allowBody maxHead maxLine final.2 rest out ∧
      sink.wire = pending.frontendWriter.writer.wire ++
        (if pending.clientOptions.version = .http11 then
          interims.flatMap fun x => relayedHead pending.options.receivedBy x.2 else []) := by
  induction interims generalizing normalized more forwarder pending with
  | nil =>
    cases normalized with
    | informational response reader => exact hahead.elim
    -- what is in hand is the final response, and nothing is sent
    | final out =>
      obtain rfl : more = [] := List.length_eq_zero_iff.mp hmore
      cases hforward
      refine ⟨out, pending.frontendWriter.writer, rfl, hahead, ?_⟩
      simp
  | cons x xs ih =>
    cases normalized with
    | final out => exact hahead.elim
    | informational response reader =>
      cases more with
      | nil => cases hmore
      | cons polls more =>
        obtain ⟨run, hfirst, hothers⟩ := RequestBodyForwarder.forwardEach_cons hforward
        have htail : ∀ y ∈ xs, Relayable h slots maxHead y :=
          fun y hy => hinterims y (List.mem_cons_of_mem x hy)
        obtain ⟨result, sink, next, hround, hinner, hnext, hwire, hstill⟩ :=
          forwardInformationalResponse_ahead laws headLaws hfinal
            (hinterims x List.mem_cons_self).1 htail hahead hfirst haccepting
        obtain ⟨out, sink', hrest, hout, hwire'⟩ := @ih htail next hnext more
          (Nat.succ.inj hmore) run.relay hothers { pending with frontendWriter := ⟨sink⟩ } hstill
        refine ⟨out, sink', ?_, hout, ?_⟩
        · rw [attachFrontendState, BackendProxyResponseStream.intoFinal, hround, andThen_ok, hinner]
          exact hrest
        -- the client's version is the same in every round
        · rw [hwire', hwire]
          cases hversion : pending.clientOptions.version with
          | http10 => simp
          | http11 => simp

end Stream

/-! ## Interim responses change nothing -/

/-- Two final responses that are the same, with readers of the same body. -/
structure SameFinal (expectBody : Bool) (out alone : BackendFinalProxyResponse) : Prop where
  res : out.backend.res = alone.backend.res
  original : out.original = alone.original
  body : ∃ r r' slots maxHead maxLine recyclable framing, r.unread = r'.unread ∧
    out.backend.reader =
      BackendReader.bodyReader r slots maxHead maxLine expectBody recyclable framing ∧
    alone.backend.reader =
      BackendReader.bodyReader r' slots maxHead maxLine expectBody recyclable framing

theorem FinalOut.same {slots : ParseSlots} {allowBody : Bool} {maxHead maxLine : Nat}
    {received : Response} {rest : Bytes} {out alone : BackendFinalProxyResponse}
    (hout : FinalOut slots allowBody maxHead maxLine received rest out)
    (halone : FinalOut slots allowBody maxHead maxLine received rest alone) :
    SameFinal (allowBody && !neverHasBody received.code) out alone := by
  obtain ⟨r, recyclable, framing, hrest, hpers, hframing, rfl⟩ := hout
  obtain ⟨r', recyclable', framing', hrest', hpers', hframing', rfl⟩ := halone
  cases hpers.symm.trans hpers'
  cases hframing.symm.trans hframing'
  exact ⟨rfl, rfl, r, r', slots, maxHead, maxLine, recyclable, framing, hrest.trans hrest'.symm,
    rfl, rfl⟩

/-- The forwarder of the request body, as it is before the first response is read. -/
def BackendProxyResponseReader.bodyForwarder (h : Httparse) (self : BackendProxyResponseReader)
    (sink : Sink) : RequestBodyForwarder h :=
  RequestBodyForwarder.new h self.request.pending.options.bodyChunkSize self.request.bodyReader
    self.backendBodyWriter sink

/-- The first read of a response, in front of such a stream. -/
theorem readBackendResponse_ahead (laws : h.ResponseLaws) (headLaws : h.ResponseHeadLaws)
    {interims : List (Bytes × Response)} {final : Bytes × Response} {rest : Bytes}
    {self : BackendProxyResponseReader}
    (hinterims : ∀ x ∈ interims, Relayable h self.backendReader.parseSlots
      self.request.pending.options.maxBackendHeadLength x)
    (hfinal : FinalHead h self.backendReader.parseSlots
      self.request.pending.options.maxBackendHeadLength final.1 final.2)
    (hunread : self.backendReader.reader.unread =
      interims.flatMap Prod.fst ++ (final.1 ++ rest))
    {polls : Nat} {sink : Sink} {run : Run (requestSide.ends h)}
    (hforward : Run.forwardWhile polls ⟨self.bodyForwarder h sink, none⟩ = (.ok (), run)) :
    ∃ normalized, self.readBackendResponse h polls sink =
        .ok (attachFrontendState normalized run.relay self.request.pending) ∧
      Ahead self.backendReader.parseSlots (!self.request.pending.clientOptions.isHead)
        self.request.pending.options.maxBackendHeadLength
        self.request.pending.options.maxChunkHeaderLength final rest interims normalized := by
  obtain ⟨stream, normalized, hread, hnew, hahead⟩ := read_ahead laws headLaws hfinal hinterims
    rfl hunread (!self.request.pending.clientOptions.isHead)
    self.request.pending.options.maxChunkHeaderLength
  refine ⟨normalized, ?_, hahead⟩
  rw [BackendProxyResponseReader.bodyForwarder] at hforward
  rw [BackendProxyResponseReader.readBackendResponse, RequestBodyForwarder.forwardWhile, hforward,
    hread]
  simp only [andThen_ok, Polled.output, Polled.bind_ok, mapError_ok, Polled.ofExcept_ok, hnew,
    Polled.mapErr_ok]

/-- What is to hold of a stream of interim responses and a final one, when a caller has
    driven it to the final one. -/
structure InterimRelayed (pending : PendingFrontendResponse) (interims : List (Bytes × Response))
    (received : Response) (forwarder alone : BackendFinalProxyResponseForwarder h)
    (sink : Sink) : Prop where
  /-- One head each, in order, to a client of HTTP/1.1, and nothing to one of HTTP/1.0. -/
  wire : sink.wire = pending.frontendWriter.writer.wire ++
    (if pending.clientOptions.version = .http11 then
      interims.flatMap fun x => relayedHead pending.options.receivedBy x.2 else [])
  unframed : ∀ x ∈ interims, ∀ f ∈ relayedFields pending.options.receivedBy x.2,
    isFramingHeader f.1 = false
  /-- The final one is what it is alone, with the same decision whether it has a body. -/
  same : SameFinal (!pending.clientOptions.isHead && !neverHasBody received.code)
    forwarder.proxyResponse alone.proxyResponse
  /-- What is carried along is not touched, the connection to the client apart. -/
  carried : forwarder.pending = { pending with frontendWriter := ⟨sink⟩ }
  carriedAlone : alone.pending = pending

/-- Interim responses are relayed faithfully, and change nothing about the final one: for
    every number of them, every segmentation of the stream and any polls of the request body
    meanwhile. -/
theorem interim_relayed (laws : h.ResponseLaws) (headLaws : h.ResponseHeadLaws)
    {interims : List (Bytes × Response)} {final : Bytes × Response} {rest : Bytes}
    {self : BackendProxyResponseReader}
    (hinterims : ∀ x ∈ interims, Relayable h self.backendReader.parseSlots
      self.request.pending.options.maxBackendHeadLength x)
    (hfinal : FinalHead h self.backendReader.parseSlots
      self.request.pending.options.maxBackendHeadLength final.1 final.2)
    (hunread : self.backendReader.reader.unread =
      interims.flatMap Prod.fst ++ (final.1 ++ rest))
    {polls : Nat} {more : List Nat} (hmore : more.length = interims.length) {backendSink : Sink}
    {body : RequestBodyForwarder h}
    (hforward : RequestBodyForwarder.forwardEach h (polls :: more)
      (self.bodyForwarder h backendSink) = (.ok (), body))
    (haccepting : self.request.pending.clientOptions.version = .http11 →
      self.request.pending.frontendWriter.writer.Accepting)
    {aloneReader : BackendReader} (hslots : aloneReader.parseSlots = self.backendReader.parseSlots)
    (halone : aloneReader.reader.unread = final.1 ++ rest) :
    ∃ stream forwarder sink alone,
      self.readBackendResponse h polls backendSink = .ok stream ∧
      stream.intoFinal more = (.ok forwarder, sink) ∧
      { self with backendReader := aloneReader }.readBackendResponse h polls backendSink =
        .ok (.final alone) ∧
      InterimRelayed self.request.pending interims final.2 forwarder alone sink ∧
      forwarder.requestBodyForwarder = body := by
  obtain ⟨run, hfirst, hothers⟩ := RequestBodyForwarder.forwardEach_cons hforward
  obtain ⟨normalized, hread, hahead⟩ := readBackendResponse_ahead laws headLaws hinterims hfinal
    hunread hfirst
  obtain ⟨out, sink, hdriven, hout, hwire⟩ := intoFinal_ahead laws headLaws hfinal hinterims hahead
    hmore hothers haccepting
  -- alone it is the final response of a stream without interim ones
  rw [← hslots] at hfinal
  obtain ⟨aloneNormalized, haloneRead, haloneAhead⟩ := @readBackendResponse_ahead h laws headLaws []
    final rest { self with backendReader := aloneReader } (by simp) hfinal halone polls backendSink
    run hfirst
  cases aloneNormalized with
  | informational response reader => exact haloneAhead.elim
  | final aloneOut =>
    rw [hslots] at haloneAhead
    have haloneOut : FinalOut _ _ _ _ final.2 rest aloneOut := haloneAhead
    refine ⟨_, _, sink, _, hread, hdriven, haloneRead, ⟨hwire, ?_, hout.same haloneOut, rfl, rfl⟩,
      rfl⟩
    exact fun x hx => relayedFields_unframed (hinterims x hx).1.unframed

/-- Two interim responses, one with an option that names another of its fields, and a final
    one with a body. -/
def continueHead : Bytes × Response :=
  (ascii "HTTP/1.1 100 Continue\r\nConnection: a\r\nA: 1\r\n\r\n",
    ⟨.http11, 100, ascii "Continue", ⟨[(ascii "Connection", ascii "a"), (ascii "A", ascii "1")]⟩⟩)

def hintsHead : Bytes × Response :=
  (ascii "HTTP/1.0 103 \r\nLink: b\r\n\r\n",
    ⟨.http10, 103, [], ⟨[(ascii "Link", ascii "b")]⟩⟩)

def shortHead : Bytes × Response :=
  (ascii "HTTP/1.1 200 OK\r\nContent-Length: 2\r\n\r\n",
    ⟨.http11, 200, ascii "OK", ⟨[(ascii "Content-Length", ascii "2")]⟩⟩)

/-- A request with a body of three bytes, of which the second part is late. -/
def expectingRequest : BackendProxyRequest :=
  ⟨⟨ascii "PUT", ascii "/", .http11, ⟨[(ascii "Host", ascii "a")]⟩⟩,
    .cl (.new 3 ⟨⟨[.data 97 [98], .pending, .data 99 []]⟩, .default⟩ ⟨4⟩) true,
    ⟨⟨⟨[], [.accept 1, .pending]⟩⟩, .default, ⟨false, .http11⟩⟩⟩

/-- Its connection: three bytes are buffered, and the rest comes in two parts, of which the
    first ends in the second status line. -/
def expectingReader : BackendProxyResponseReader :=
  ⟨expectingRequest, ⟨⟨⟨[.pending,
    .data 80 (ascii "/1.1 100 Continue\r\nConnection: a\r\nA: 1\r\n\r\nHTTP/1.0"), .pending,
    .data 32 (ascii "103 \r\nLink: b\r\n\r\n" ++ shortHead.1 ++ ascii "hi")]⟩,
    ⟨ascii "HTT", 3, by decide⟩⟩, ⟨4⟩⟩, .cl (.new 3)⟩

theorem interim_relayed_continue :
    ∃ stream forwarder sink alone,
      expectingReader.readBackendResponse reference 2 ⟨[], []⟩ = .ok stream ∧
      stream.intoFinal [3, 0] = (.ok forwarder, sink) ∧
      { expectingReader with
        backendReader := ⟨ParseSlots.buffered (shortHead.1 ++ ascii "hi"), ⟨4⟩⟩
      }.readBackendResponse reference 2 ⟨[], []⟩ = .ok (.final alone) ∧
      InterimRelayed expectingRequest.pending [continueHead, hintsHead] shortHead.2 forwarder alone
        sink := by
  have hheads : ∀ x ∈ [continueHead, hintsHead, shortHead], IsHead reference ⟨4⟩ x.1 x.2 := by
    intro x hx
    have hparse : ∀ x ∈ [continueHead, hintsHead, shortHead],
        (ParseSlots.parseResponse reference ⟨4⟩ (ParseSlots.buffered x.1)).1 = .ok (some x.2) ∧
        (ParseSlots.parseResponse reference ⟨4⟩ (ParseSlots.buffered x.1)).2.unread = [] := by
      decide +kernel
    obtain ⟨hok, hnil⟩ := hparse x hx
    exact ⟨_, Prod.ext hok rfl, hnil⟩
  have hinterims : ∀ x ∈ [continueHead, hintsHead], Relayable reference ⟨4⟩ 8192 x := by
    intro x hx
    have hplain : ∀ x ∈ [continueHead, hintsHead], x.1.length ≤ 8192 ∧
        (100 ≤ x.2.code ∧ x.2.code ≤ 199 ∧ x.2.code ≠ 101 ∧ x.2.code ≠ 102) ∧
        (∀ f ∈ x.2.headers.headers, isFramingHeader f.1 = false) ∧
        (getConnectionTokens x.2.headers).toOption.isSome = true := by decide +kernel
    obtain ⟨hfits, hcode, hunframed, htokens⟩ := hplain x hx
    refine ⟨⟨hheads x ?_, hfits, hcode, hunframed⟩, ?_⟩
    · simp only [List.mem_cons, List.not_mem_nil, or_false] at hx ⊢
      rcases hx with hx | hx
      · exact .inl hx
      · exact .inr (.inl hx)
    · rcases heq : getConnectionTokens x.2.headers with e | tokens
      · rw [heq] at htokens
        cases htokens
      · exact ⟨tokens, rfl⟩
  have haccepted : (BackendReader.responseOf shortHead.2 (.new ⟨[]⟩) ⟨4⟩ false 0 0).toOption.map id =
      some (.final ⟨shortHead.2, .bodyless ⟨.new ⟨[]⟩, ⟨4⟩⟩ true⟩) := by decide +kernel
  obtain ⟨_, haccepted, rfl⟩ := exists_ok_of_map haccepted
  have hfinal : FinalHead reference ⟨4⟩ 8192 shortHead.1 shortHead.2 :=
    ⟨hheads _ (by simp), by decide +kernel, _, _, _, _, _, _, haccepted⟩
  have hbody : (RequestBodyForwarder.forwardEach reference [2, 3, 0]
      (expectingReader.bodyForwarder reference ⟨[], []⟩)).1.isOk = true := by decide +kernel
  obtain ⟨_, body, hforward⟩ := exists_of_isOk hbody
  have haccepting : expectingRequest.pending.frontendWriter.writer.Accepting := by
    intro ev hev
    have hall : ∀ ev ∈ expectingRequest.pending.frontendWriter.writer.script,
        ev = .accept 1 ∨ ev = .pending := by decide
    rcases hall ev hev with rfl | rfl
    · simp
    · simp
  obtain ⟨stream, forwarder, sink, alone, hread, hdriven, halone, hrelayed, -⟩ :=
    @interim_relayed reference responseLaws responseHeadLaws [continueHead, hintsHead] shortHead
      (ascii "hi") expectingReader hinterims hfinal (by decide +kernel) 2 [3, 0] rfl ⟨[], []⟩ body
      hforward (fun _ => haccepting)
      ⟨ParseSlots.buffered (shortHead.1 ++ ascii "hi"), ⟨4⟩⟩ rfl (by decide +kernel)
  exact ⟨stream, forwarder, sink, alone, hread, hdriven, halone, hrelayed⟩

end Jrpxy.Proxy
