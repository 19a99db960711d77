/-
  Jrpxy.Proxy.Refusal

  A request that no backend answers.

  A caller gives up a request that was rejected, that it will not forward, or
  whose head none of its backends took; it holds the pending response then, and
  the body of the request.  It may send interim responses, sends a final one in
  a framing of its choice, writes the body of that, and drains the body of the
  request.  If both halves of the client's connection come back, exactly that
  request is read off it, and exactly one whole response is on it
  (`Refusal.answered`).
-/
import Mathlib.Logic.Relation
import Jrpxy.Body.Writer.Calls
import Jrpxy.Proxy.Transcript

namespace Jrpxy.Proxy

open Poll BodyRelay BlockWriter ChunkedCoding Ascii Util HttpMessage
open Body Body.Reader Body.Writer Frontend Backend

variable {h : Httparse}

/-! ## Giving up -/

/-- The request, and the pending response. -/
def FrontendRequestError.intoParts (self : FrontendRequestError) :
    FrontendRequest × PendingFrontendResponse :=
  (self.request, self.pending)

/-- The request, to be sent to another backend. -/
def BackendRequestError.intoBackendRequest (self : BackendRequestError) : BackendProxyRequest :=
  self.request

/-- The body of the request, and the pending response. -/
def BackendProxyRequest.intoPendingResponse (self : BackendProxyRequest) :
    FrontendBodyReader × PendingFrontendResponse :=
  (self.bodyReader, self.pending)

/-- A backend did not take the head, and the request is left. -/
def BackendProxyRequest.FailsTo (self self' : BackendProxyRequest) : Prop :=
  ∃ backendConnection e sink, self.forward backendConnection = (.err e, sink) ∧
    self' = e.intoBackendRequest

/-- How a caller comes to give up a request. -/
inductive GivenUp (request : FrontendRequest) (writer : FrontendWriter) (options : ProxyOptions) :
    FrontendBodyReader → PendingFrontendResponse → Prop where
  | rejected {e : FrontendRequestError}
      (rejects : FrontendProxyRequest.fromRequest request writer options = .error e) :
      GivenUp request writer options e.intoParts.1.reader e.intoParts.2
  | untaken {accepted : FrontendProxyRequest} {self : BackendProxyRequest} {path : Bytes}
      {headers : Headers}
      (accepts : FrontendProxyRequest.fromRequest request writer options = .ok accepted)
      (fails : Relation.ReflTransGen BackendProxyRequest.FailsTo
        (accepted.intoBackendRequest.edit path headers) self) :
      GivenUp request writer options self.intoPendingResponse.1 self.intoPendingResponse.2

/-- A request whose head is not written is left as it was. -/
theorem BackendProxyRequest.forward_error {self : BackendProxyRequest}
    {backendConnection : BackendReader × BackendWriter} {e : BackendRequestError} {sink : Sink}
    (herr : self.forward backendConnection = (.err e, sink)) : e.request = self := by
  have hwritten : ∀ {x : Polled BackendError BackendBodyReady × Sink},
      andThen (mapErr (BackendRequestError.mk self) x) id (fun backendBodyWriter sink =>
        (Polled.ok (BackendProxyResponseReader.mk self backendConnection.1 backendBodyWriter),
          sink)) = (.err e, sink) → e.request = self := by
    rintro ⟨_ | w | e' | _, s⟩ heq
    · cases heq
    · cases heq
    · cases heq
      rfl
    · cases heq
  unfold forward at herr
  dsimp only at herr
  split at herr
  · exact hwritten herr
  · exact hwritten herr
  · exact hwritten herr

/-- However many backends fail, the request is as it was. -/
theorem BackendProxyRequest.eq_of_fails {self self' : BackendProxyRequest}
    (hfails : Relation.ReflTransGen FailsTo self self') : self' = self := by
  induction hfails with
  | refl => rfl
  | tail _ hfail ih =>
    obtain ⟨backendConnection, e, sink, herr, rfl⟩ := hfail
    exact (BackendProxyRequest.forward_error herr).trans ih

/-- A rejected request is handed back as it was read. -/
theorem FrontendProxyRequest.fromRequest_error {request : FrontendRequest} {writer : FrontendWriter}
    {options : ProxyOptions} {e : FrontendRequestError}
    (herr : fromRequest request writer options = .error e) :
    e.request = request ∧ e.pending = ⟨writer, options,
      ⟨request.req.method == ascii "HEAD", request.req.version⟩⟩ := by
  unfold fromRequest at herr
  dsimp only at herr
  -- every check that fails hands back the request it was given
  repeat
    split at herr
    · cases herr
      exact ⟨rfl, rfl⟩
  unfold FrontendProxyRequest.new at herr
  dsimp only at herr
  split at herr
  · cases herr
    exact ⟨rfl, rfl⟩
  · cases herr

/-- Whichever way a request is given up, its body and the pending response are those it was
    read with. -/
theorem GivenUp.same {request : FrontendRequest} {writer : FrontendWriter} {options : ProxyOptions}
    {body : FrontendBodyReader} {pending : PendingFrontendResponse}
    (hgiven : GivenUp request writer options body pending) :
    body = request.reader ∧ pending = ⟨writer, options,
      ⟨request.req.method == ascii "HEAD", request.req.version⟩⟩ := by
  cases hgiven with
  | rejected rejects =>
    obtain ⟨hrequest, hpending⟩ := FrontendProxyRequest.fromRequest_error rejects
    exact ⟨congrArg FrontendRequest.reader hrequest, hpending⟩
  | untaken accepts fails =>
    have haccepted := FrontendProxyRequest.fromRequest_ok accepts
    obtain rfl := BackendProxyRequest.eq_of_fails fails
    exact ⟨haccepted.reader, haccepted.pending⟩

/-! ## Answering -/

/-- The ways a caller can answer by itself. -/
inductive OwnAnswer where
  | chunked
  | contentLength (bodyLen : UInt64)
  | bodylessKeepFraming
  | noContent
  deriving DecidableEq, Repr

namespace OwnAnswer

/-- The framing of the head. -/
def framing : OwnAnswer → WriteFraming
  | chunked => .chunked
  | contentLength bodyLen => .length bodyLen.toNat
  | bodylessKeepFraming => .preserveFraming
  | noContent => .stripFraming

/-- The body that is declared. -/
def declared : OwnAnswer → Unifier.Declared true
  | chunked => .chunked ()
  | contentLength bodyLen => .cl bodyLen
  | bodylessKeepFraming => .bodyless ()
  | noContent => .bodyless ()

/-- The length of that body. -/
def length : OwnAnswer → BodyLength
  | chunked => .chunked
  | contentLength bodyLen => .length bodyLen.toNat
  | bodylessKeepFraming => .none
  | noContent => .none

/-- It is an answer with a body exactly if a response with this code has one, and in chunks
    only to a client that knows them. -/
def Suits (self : OwnAnswer) (client : ClientOptions) (code : Nat) : Prop :=
  (self.length = .none ↔ client.isHead = true ∨ (100 ≤ code ∧ code ≤ 199) ∨ code = 204 ∨
    code = 304) ∧ (self = .chunked → client.version = .http11)

end OwnAnswer

/-- Send the head of an answer of the caller's own, and go on with the writer of its body. -/
def PendingFrontendResponse.sendOwn (self : PendingFrontendResponse) (answer : OwnAnswer)
    (now : Bytes) (response : Response) :
    Polled ProxyFrontendError (ProxyOptions × FrontendBodyReady) × Sink :=
  match answer with
  | .chunked => withReady .chunked (self.sendAsChunked now response)
  | .contentLength bodyLen => withReady .cl (self.sendAsContentLength now response bodyLen)
  | .bodylessKeepFraming => withReady .bodyless (self.sendAsBodylessKeepFraming now response)
  | .noContent => withReady .bodyless (self.sendAsNoContent now response)

/-- The writer of an answer is that of the body its head declares. -/
theorem PendingFrontendResponse.sendOwn_ok {self : PendingFrontendResponse} {answer : OwnAnswer}
    {now : Bytes} {response : Response} {out : ProxyOptions × FrontendBodyReady} {s : Sink}
    (hok : self.sendOwn answer now response = (.ok out, s)) :
    out.2 = answer.declared.ready ∧
      Sends medium (responseHead response.code response.reason
        (Frontend.writtenFields (self.withResponseHeaders now response) answer.framing))
        self.frontendWriter.writer s := by
  cases answer with
  | chunked =>
    obtain ⟨rfl, hsends⟩ := withReady_ok hok
    exact ⟨rfl, hsends⟩
  | contentLength bodyLen =>
    obtain ⟨rfl, hsends⟩ := withReady_ok hok
    exact ⟨rfl, hsends⟩
  | bodylessKeepFraming =>
    obtain ⟨rfl, hsends⟩ := withReady_ok hok
    exact ⟨rfl, hsends⟩
  | noContent =>
    obtain ⟨rfl, hsends⟩ := withReady_ok hok
    exact ⟨rfl, hsends⟩

/-- An answer that suits the request is read with the length it was written with. -/
theorem OwnAnswer.bodyLength {answer : OwnAnswer} {client : ClientOptions} {code : Nat}
    (hsuits : answer.Suits client code) (res : Response) :
    responseBodyLength client.isHead code (Frontend.writtenFields res answer.framing) =
      answer.length := by
  by_cases hnone : answer.length = .none
  · rw [responseBodyLength, if_pos (hsuits.1.mp hnone), hnone]
  · have hbody := fun hbody => hnone (hsuits.1.mpr hbody)
    have hpreserves : answer.framing.preservesFraming = false ∧
        answer.framing.bodyLength .untilClose = answer.length := by
      cases answer with
      | chunked => exact ⟨rfl, rfl⟩
      | contentLength bodyLen => exact ⟨rfl, rfl⟩
      | bodylessKeepFraming => exact absurd rfl hnone
      | noContent => exact absurd rfl hnone
    rw [(responseBodyLength_written hpreserves.1 hbody).1, hpreserves.2]

/-- What is complete carries its content. -/
theorem carries_of_complete (hsize : h.ChunkSizeLaws) (hfields : h.FieldSectionLaws)
    {answer : OwnAnswer} {w content : Bytes} (hcomplete : answer.declared.Complete w content) :
    Carries h w content .empty answer.length := by
  cases answer with
  | contentLength bodyLen =>
    obtain ⟨rfl, hlength⟩ := hcomplete
    exact ⟨rfl, hlength, rfl⟩
  | bodylessKeepFraming => exact ⟨hcomplete.1, hcomplete.2, rfl⟩
  | noContent => exact ⟨hcomplete.1, hcomplete.2, rfl⟩
  -- the chunks that went out are what an encoder writes for the same blocks
  | chunked =>
    obtain ⟨ds, hds, rfl, rfl⟩ := hcomplete
    have hall : ds.filter (· ≠ []) = ds :=
      List.filter_eq_self.mpr fun d hd => decide_eq_true (hds d hd).1
    have hblocks : ds.flatMap Unifier.chunk ++ ascii "0\r\n\r\n" = encodeBody ds .empty := by
      have hchunks := Unifier.chunked_blocks ds
      rw [hall, Chunked.framing_blocks] at hchunks
      rw [← hchunks]
      rfl
    have hvalid : Headers.Valid .empty := by
      intro f hf
      cases hf
    refine ⟨0, fun slots hslots => ?_⟩
    have hdecode := decode_encodeBody hsize hfields (fun d hd => (hds d hd).2) hvalid hslots []
    rw [List.append_nil] at hdecode
    rw [hblocks, hdecode]
    exact ⟨rfl, _, rfl⟩

/-! ## A refusal -/

/-- The head of an interim response of the caller's own. -/
def PendingFrontendResponse.interimHead (self : PendingFrontendResponse) (response : Response) :
    Bytes :=
  responseHead response.code response.reason
    (Frontend.writtenFields (self.withProxyHeaders response) .stripFraming)

/-- The caller sends these interim responses, one after the other. -/
inductive Informs : PendingFrontendResponse → List Response → PendingFrontendResponse → Prop where
  | nil (self : PendingFrontendResponse) : Informs self [] self
  | cons {self next out : PendingFrontendResponse} {response : Response} {more : List Response}
      {sink : Sink} (sends : self.sendInformational response = (.ok next, sink))
      (rest : Informs next more out) : Informs self (response :: more) out

/-- Interim responses leave the client waiting, and are on its connection one behind the
    other. -/
theorem Informs.sent {self out : PendingFrontendResponse} {responses : List Response}
    (hinforms : Informs self responses out) :
    out = { self with frontendWriter := out.frontendWriter } ∧
      out.frontendWriter.writer.wire = self.frontendWriter.writer.wire ++
        responses.flatMap self.interimHead := by
  induction hinforms with
  | nil self => exact ⟨rfl, (List.append_nil _).symm⟩
  | @cons self next out response more sink sends rest ih =>
    have hmeets := self.sendInformational_meets response
    rw [sends] at hmeets
    obtain ⟨hnext, hsends⟩ := hmeets
    subst hnext
    refine ⟨ih.1, ?_⟩
    have hwire : sink.wire = self.frontendWriter.writer.wire ++ self.interimHead response :=
      hsends.wire
    rw [ih.2, hwire, List.flatMap_cons, List.append_assoc]
    rfl

/-- One request that the caller answers by itself. -/
structure Refusal (h : Httparse) where
  options : ProxyOptions
  frontendReader : FrontendReader
  frontendWriter : FrontendWriter
  maxHeadLength : Nat
  maxChunkHeaderLength : Nat
  request : FrontendRequest
  read : frontendReader.read h maxHeadLength maxChunkHeaderLength = .ok request
  body : FrontendBodyReader
  pending : PendingFrontendResponse
  givenUp : GivenUp request frontendWriter options body pending
  interims : List Response
  answering : PendingFrontendResponse
  informs : Informs pending interims answering
  answer : OwnAnswer
  now : Bytes
  response : Response
  suits : answer.Suits answering.clientOptions response.code
  sent : ProxyOptions × FrontendBodyReady
  sink : Sink
  sendOwn : answering.sendOwn answer now response = (.ok sent, sink)
  calls : List Unifier.Call
  run : Unifier.Run true
  writes : (Unifier.Run.start sent.2 sink).steps FrontendError.bodyWriteError calls = some run
  /-- The reader is drained, or dropped. -/
  next : Option FrontendReader
  drains : ∀ fr ∈ next, body.drain h = .ok (some fr)

namespace Refusal

variable (x : Refusal h)

/-- The client does not expect a body. -/
def isHead : Bool := x.request.req.method == ascii "HEAD"

/-- The fields the answer is sent with. -/
def sentFields : List Field :=
  Frontend.writtenFields (x.answering.withResponseHeaders x.now x.response) x.answer.framing

/-- The connection of the client, if both of its halves came back. -/
def frontend : Option (FrontendReader × FrontendWriter) :=
  x.next.bind fun fr => x.run.phase.writer.map fun fw => (fr, ⟨fw⟩)

end Refusal

/-- A body that is drained is behind the connection that is left. -/
theorem FrontendBodyReader.drain_ok (hsize : h.ChunkSizeLaws) (hfields : h.FieldSectionLaws)
    {self : FrontendBodyReader} {next : FrontendReader} (hok : self.drain h = .ok (some next)) :
    ∃ t, (self.owed h requestSide.last).tail = some t ∧ next.reader.unread = t.rest := by
  have hrecycled : ∀ {recyclable : Bool} {c : ConnectionReader} {t : BodyEnd},
      BodyReader.recycle recyclable c = some next → c.reader.unread = t.rest →
      next.reader.unread = t.rest := by
    intro recyclable c t hrecycle hrest
    exact BodyReader.recycle_unread hrest next hrecycle
  cases self with
  | bodyless inner r =>
    have hok := Polled.ok.inj hok
    exact ⟨_, rfl, hrecycled hok rfl⟩
  | cl inner r =>
    obtain ⟨parts, hdrain, hnext⟩ := Polled.bind_eq_ok.mp hok
    have hmeets := ContentLengthBodyReader.drain_meets inner
    have hdrain := Polled.mapErr_eq_ok.mp hdrain
    generalize inner.drain = y at hdrain hmeets
    obtain ⟨y, s⟩ := y
    have hdrain : y = .ok parts := hdrain
    subst hdrain
    obtain ⟨t, htail, -, hrest⟩ := hmeets
    exact ⟨t, htail, hrecycled (Polled.ok.inj hnext) hrest⟩
  | te inner r =>
    obtain ⟨out, hdrain, hnext⟩ := Polled.bind_eq_ok.mp hok
    obtain ⟨parts, hparts, hout⟩ := Polled.bind_eq_ok.mp hdrain
    have hmeets := ChunkedBodyReader.drain_meets hsize hfields inner
    have hparts := Polled.mapErr_eq_ok.mp hparts
    generalize inner.drain h = y at hparts hmeets
    obtain ⟨y, s⟩ := y
    have hparts : y = .ok parts := hparts
    subst hparts
    cases hout
    obtain ⟨t, htail, -, hrest⟩ := hmeets
    exact ⟨t, htail, hrecycled (Polled.ok.inj hnext) hrest⟩
  | eof inner => exact inner.elim

/-- What goes over the wire of the client: one request off it, and on it the interim responses
    and one final response that carries what the caller was told is written. -/
structure Answers (x : Refusal h) (asked relayed rest : Bytes) : Prop where
  request : ∃ head body content trailers, asked = head ++ body ∧
    Frontend.IsHead h x.frontendReader.parseSlots head x.request.req ∧
    Carries h body content trailers (requestBodyLength x.request.req.headers.headers)
  response : ∃ w, relayed = x.interims.flatMap x.pending.interimHead ++
      (responseHead x.response.code x.response.reason x.sentFields ++ w) ∧
    Carries h w x.run.written .empty (responseBodyLength x.isHead x.response.code x.sentFields)
  frontendReader : x.frontendReader.reader.unread = asked ++ rest

/-- A connection that comes back from a refusal is behind exactly the request, and has exactly
    one whole answer on it: however the request was given up, whatever the caller called on the
    writer of the answer, and whatever was done of it. -/
theorem Refusal.answered (hsize : h.ChunkSizeLaws) (hfields : h.FieldSectionLaws)
    (laws : h.RequestLaws) (x : Refusal h) {c : FrontendReader × FrontendWriter}
    (hc : x.frontend = some c) : ∃ asked relayed, Answers x asked relayed c.1.reader.unread ∧
      c.2.writer.wire = x.frontendWriter.writer.wire ++ relayed := by
  obtain ⟨fr, hfr, hc⟩ := Option.bind_eq_some_iff.mp hc
  obtain ⟨fw, hfw, rfl⟩ := Option.map_eq_some_iff.mp hc
  obtain ⟨hbody, hpending⟩ := x.givenUp.same
  -- the request, up to the end of its body
  obtain ⟨head, r, recyclable, framing, hsplit, hhead, -, hframing, hreader⟩ :=
    FrontendReader.read_found laws x.read
  obtain ⟨t, htail, hrest⟩ := FrontendBodyReader.drain_ok hsize hfields (x.drains fr hfr)
  rw [hbody, hreader] at htail
  obtain ⟨body, hunread, hcarries⟩ := carries_ofFraming hsize hfields htail
  have hlength : requestBodyLength x.request.req.headers.headers = framing.bodyLength .none :=
    framedLength_of_framing .none .invalid hframing
  rw [← hlength] at hcarries
  -- the answer, up to the end of its body
  obtain ⟨hcarried, hinterims⟩ := x.informs.sent
  obtain ⟨hready, hsends⟩ := PendingFrontendResponse.sendOwn_ok x.sendOwn
  have hwrites := x.writes
  rw [hready] at hwrites
  have hstart : (Unifier.Run.start x.answer.declared.ready x.sink).Accounts
      FrontendError.bodyWriteError x.answer.declared [] := Idle.Wrote.nil
  obtain ⟨w, hwire, hrun⟩ := Unifier.steps_accounts x.calls (List.append_nil x.sink.wire).symm
    hstart hwrites
  have hphase := Unifier.Phase.eq_over hfw
  rw [Unifier.Run.Accounts, hphase] at hrun
  obtain ⟨rfl, hcomplete, -⟩ := hrun
  have hclient : x.answering.clientOptions = ⟨x.isHead, x.request.req.version⟩ := by
    rw [hcarried, hpending]
    rfl
  have hsuits := x.suits
  rw [hclient] at hsuits
  refine ⟨head ++ body, _, ⟨⟨head, body, _, t.trailers, rfl, hhead, hcarries⟩, ⟨w, rfl, ?_⟩, ?_⟩,
    ?_⟩
  · rw [sentFields, OwnAnswer.bodyLength hsuits]
    exact carries_of_complete hsize hfields hcomplete
  · rw [hsplit, hunread, hrest, List.append_assoc]
  · have hhead : x.sink.wire = x.answering.frontendWriter.writer.wire ++ _ := hsends.wire
    have hwriter : x.pending.frontendWriter.writer = x.frontendWriter.writer := by rw [hpending]
    rw [hwire, hhead, hinterims, hwriter]
    simp only [List.append_assoc]
    rfl

end Jrpxy.Proxy
