/-
  Jrpxy.Proxy.ResponseFraming

  A forwarded response head, and the body it announces.

  Three tables have to agree: which reader a response gets, which writer goes
  with it, and which framing the head is written with.  The client has none of
  them, only the method of its request, the code and the fields; read by its
  own rule they say what the writer will do (`forwardResponseHead_announces`).
-/
import Jrpxy.HttpMessage.BodyLength
import Jrpxy.Proxy.Exchange
import Jrpxy.Proxy.Forwarding

namespace Jrpxy.Proxy

open Poll BodyRelay BlockWriter Ascii Util HttpMessage Body Body.Reader Body.Writer Frontend Backend

open Httparse.Reference (reference)

variable {h : Httparse}

/-- How far the body of a writer goes. -/
def bodyLengthOf {eof : Bool} : Unifier.Ready eof → BodyLength
  | .bodyless _ => .none
  | .cl r => .length r.length.toNat
  | .chunked _ => .chunked
  | .eof _ _ => .untilClose

/-- The framing of a body whose end the client is not told in advance. -/
def unsizedFraming (clientCannotChunk : Bool) : WriteFraming :=
  if clientCannotChunk then .stripFraming else .chunked

/-- The framing that goes with the framing of a response body. -/
def responseFraming (clientCannotChunk keepFraming : Bool) : BackendBodyReader → WriteFraming
  | .te _ _ => unsizedFraming clientCannotChunk
  | .cl r _ => .length (UInt64.ofNat r.contentLength).toNat
  | .bodyless _ _ => if keepFraming then .preserveFraming else .stripFraming
  | .eof _ => unsizedFraming clientCannotChunk

/-! ## What is sent -/

/-- A head that was sent, and the writer it was sent with. -/
theorem withReady_ok {α : Type} {ready : α → FrontendBodyReady} {options : ProxyOptions}
    {writer : FrontendWriter} {res : Response} {framing : WriteFraming} {r : α}
    {out : ProxyOptions × FrontendBodyReady} {s : Sink}
    (h : withReady ready (andThen (mapErr .frontendError (writer.sendAs res framing r)) id
      fun bodyWriter sink => (.ok (options, bodyWriter), sink)) = (.ok out, s)) :
    out = (options, ready r) ∧
      Sends medium (responseHead res.code res.reason (writtenFields res framing)) writer.writer s := by
  have hmeets := writer.sendAs_meets res framing r
  generalize writer.sendAs res framing r = x at h hmeets
  obtain ⟨_ | a | e | _, s'⟩ := x
  · cases h
  · cases h
    obtain ⟨rfl, hsends⟩ := hmeets
    exact ⟨rfl, hsends⟩
  · cases h
  · cases h

/-- What forwarding the head comes to: the framing and the writer that go with the reader. -/
theorem forwardResponseHead_ok {self : BackendFinalProxyResponseForwarder h} {now : Bytes}
    {exchanger : ProxyBodyExchanger h} {sink : Sink}
    (hok : self.forwardResponseHead now = (.ok exchanger, sink)) :
    let reader := self.proxyResponse.backend.reader
    let res := self.pending.withResponseHeaders now self.proxyResponse.backend.res
    let clientCannotChunk := self.pending.clientOptions.version == .http10
    exchanger = ⟨self.pending.options, self.requestBodyForwarder,
        .new h self.pending.options.bodyChunkSize reader
          (responseWriter clientCannotChunk reader) sink⟩ ∧
      Sends medium (responseHead res.code res.reason (writtenFields res
        (responseFraming clientCannotChunk
          (self.pending.clientOptions.isHead || self.proxyResponse.backend.res.code == 304)
          reader))) self.pending.frontendWriter.writer sink := by
  obtain ⟨forwarder, pending, ⟨⟨res, reader⟩, original⟩⟩ := self
  unfold BackendFinalProxyResponseForwarder.forwardResponseHead at hok
  dsimp only [BackendFinalProxyResponse.intoFrontendResponse] at hok ⊢
  obtain ⟨⟨options, writer⟩, sink', hsent, hmade⟩ := andThen_eq_ok hok
  cases hmade
  have hsent := mapErr_eq_ok hsent
  generalize (pending.clientOptions.version == HttpVersion.http10) = clientCannotChunk at hsent ⊢
  generalize (pending.clientOptions.isHead || res.code == 304) = keepFraming at hsent ⊢
  -- every branch sends a head in its own framing and goes on with its own writer
  cases reader <;> cases clientCannotChunk <;> cases keepFraming
  all_goals
    obtain ⟨hout, hsends⟩ := withReady_ok hsent
    cases hout
    exact ⟨rfl, hsends⟩

/-! ## What the head says -/

/-- The proxy adds `Via` and `Date`, and changes nothing else. -/
theorem mem_withResponseHeaders {pending : PendingFrontendResponse} {now : Bytes} {res : Response}
    {f : Field} (hf : f ∈ (pending.withResponseHeaders now res).headers.headers) :
    f ∈ res.headers.headers ∨ f.1 = ascii "Via" ∨ f.1 = ascii "Date" := by
  have hvia : ∀ {g : Field}, g ∈ (pending.withProxyHeaders res).headers.headers →
      g ∈ res.headers.headers ∨ g.1 = ascii "Via" ∨ g.1 = ascii "Date" := by
    intro g hg
    rcases List.mem_append.mp hg with hg | hg
    · exact .inl hg
    · obtain rfl := List.mem_singleton.mp hg
      exact .inr (.inl rfl)
  have hf : f ∈ (insertDateHeaderIfAbsent now (pending.withProxyHeaders res).headers).headers := hf
  unfold insertDateHeaderIfAbsent at hf
  split at hf
  · exact hvia hf
  · rcases List.mem_append.mp hf with hf | hf
    · exact hvia hf
    · obtain rfl := List.mem_singleton.mp hf
      exact .inr (.inr rfl)

/-- No `Transfer-Encoding` is written, unless the framing is chunked. -/
theorem transferEncodingFields_written {res : Response} {framing : WriteFraming}
    (hres : ∀ f ∈ res.headers.headers, eqIgnoreCase f.1 (ascii "transfer-encoding") = false)
    (hframing : framing ≠ .chunked) : transferEncodingFields (Frontend.writtenFields res framing) = [] := by
  have hkept : transferEncodingFields (res.headers.iter.filter fun f =>
      framing.preservesFraming || !isFramingHeader f.1) = [] := by
    rw [transferEncodingFields, List.filter_eq_nil_iff]
    intro f hf
    rw [hres f (List.mem_filter.mp hf).1]
    exact Bool.false_ne_true
  have hadded : transferEncodingFields (framingFields framing) = [] := by
    cases framing with
    | length n => rfl
    | chunked => exact absurd rfl hframing
    | preserveFraming => rfl
    | stripFraming => rfl
  rw [Frontend.writtenFields, transferEncodingFields, List.filter_append]
  exact List.append_eq_nil_iff.mpr ⟨hkept, hadded⟩

/-- By the recipient's rule this head announces the encoding of this writer, and in terms a
    client of this version knows. -/
structure Announces (isHead : Bool) (version : HttpVersion) (code : Nat) (fields : List Field)
    (writer : FrontendBodyReady) : Prop where
  length : responseBodyLength isHead code fields = bodyLengthOf writer
  noCoding : version = .http10 → transferEncodingFields fields = []

/-- A framing that does not preserve anything is the only one that is announced. -/
theorem responseBodyLength_written {isHead : Bool} {code : Nat} {res : Response}
    {framing : WriteFraming} (hframing : framing.preservesFraming = false)
    (hbody : ¬ (isHead = true ∨ (100 ≤ code ∧ code ≤ 199) ∨ code = 204 ∨ code = 304)) :
    responseBodyLength isHead code (Frontend.writtenFields res framing) =
        framing.bodyLength .untilClose ∧
      responseBodyLength isHead code ((Frontend.writtenFields res framing).map readBack) =
        framing.bodyLength .untilClose := by
  have hothers : ∀ f ∈ res.headers.iter.filter fun f =>
      framing.preservesFraming || !isFramingHeader f.1, isFramingHeader f.1 = false := by
    intro f hf
    simpa [hframing] using (List.mem_filter.mp hf).2
  rw [responseBodyLength, responseBodyLength, if_neg hbody, if_neg hbody, Frontend.writtenFields,
    List.map_append, readBack_framingFields]
  constructor
  · exact framedLength_written _ _ hothers framing
  · refine framedLength_written _ _ ?_ framing
    intro f hf
    obtain ⟨g, hg, rfl⟩ := List.mem_map.mp hf
    exact hothers g hg

/-- To a client that cannot chunk no chunked framing is written. -/
theorem responseFraming_ne_chunked (keepFraming : Bool) (reader : BackendBodyReader) :
    responseFraming true keepFraming reader ≠ .chunked := by
  intro heq
  cases reader with
  | te inner r => cases heq
  | cl inner r => cases heq
  | bodyless inner r =>
    cases keepFraming with
    | true => cases heq
    | false => cases heq
  | eof inner => cases heq

/-- Only a response without a body is written with the framing headers it has. -/
theorem responseFraming_preserves {clientCannotChunk keepFraming : Bool}
    {reader : BackendBodyReader} (h : ∀ inner r, reader ≠ .bodyless inner r) :
    (responseFraming clientCannotChunk keepFraming reader).preservesFraming = false := by
  cases reader with
  | te inner r => cases clientCannotChunk <;> rfl
  | cl inner r => rfl
  | bodyless inner r => exact absurd rfl (h inner r)
  | eof inner => cases clientCannotChunk <;> rfl

/-- The framing and the writer that go with a reader agree, if there is a body. -/
theorem responseFraming_bodyLength {clientCannotChunk keepFraming : Bool}
    {reader : BackendBodyReader} (h : ∀ inner r, reader ≠ .bodyless inner r) :
    (responseFraming clientCannotChunk keepFraming reader).bodyLength .untilClose =
      bodyLengthOf (responseWriter clientCannotChunk reader) := by
  cases reader with
  | te inner r => cases clientCannotChunk <;> rfl
  | cl inner r => rfl
  | bodyless inner r => exact absurd rfl (h inner r)
  | eof inner => cases clientCannotChunk <;> rfl

/-- A response whose head is read has no body exactly if the client expects none. -/
theorem bodyReader_bodyless_iff {reader : BytesReader} {slots : ParseSlots}
    {maxHead maxLine code : Nat} {isHead recyclable : Bool} {framing : ParsedFraming} :
    (∃ inner r, BackendReader.bodyReader reader slots maxHead maxLine
        (!isHead && !neverHasBody code) recyclable framing = .bodyless inner r) ↔
      isHead = true ∨ (100 ≤ code ∧ code ≤ 199) ∨ code = 204 ∨ code = 304 := by
  have hexpect : (!isHead && !neverHasBody code) = false ↔
      isHead = true ∨ (100 ≤ code ∧ code ≤ 199) ∨ code = 204 ∨ code = 304 := by
    cases isHead with
    | true => simp
    | false =>
      simp [neverHasBody]
      omega
  rw [← hexpect]
  cases hcase : (!isHead && !neverHasBody code) with
  | false => exact iff_of_true ⟨_, _, rfl⟩ rfl
  | true =>
    apply iff_of_false
    · rintro ⟨inner, r, heq⟩
      cases framing <;> cases heq
    · exact Bool.noConfusion

/-- The framing that goes with the reader of a response announces the encoding of the writer
    that does, whatever other fields are sent: as they are written, and as they are read. -/
theorem responseBodyLength_responseFraming {r : BytesReader} {slots : ParseSlots}
    {maxHead maxLine : Nat} {isHead recyclable clientCannotChunk keepFraming : Bool}
    {framing : ParsedFraming} (res : Response) :
    let reader := BackendReader.bodyReader r slots maxHead maxLine
      (!isHead && !neverHasBody res.code) recyclable framing
    let fields := Frontend.writtenFields res (responseFraming clientCannotChunk keepFraming reader)
    let writer := responseWriter clientCannotChunk reader
    responseBodyLength isHead res.code fields = bodyLengthOf writer ∧
      responseBodyLength isHead res.code (fields.map readBack) = bodyLengthOf writer := by
  intro reader fields writer
  by_cases hbody : isHead = true ∨ (100 ≤ res.code ∧ res.code ≤ 199) ∨ res.code = 204 ∨
      res.code = 304
  -- without a body the fields say nothing, and the writer writes none
  · have hbodyless : ∃ inner rec, reader = .bodyless inner rec :=
      bodyReader_bodyless_iff.mpr hbody
    obtain ⟨inner, rec, hreader⟩ := hbodyless
    have hwriter : writer = .bodyless .mk := by
      show responseWriter _ reader = _
      rw [hreader]
      rfl
    rw [responseBodyLength, responseBodyLength, if_pos hbody, if_pos hbody, hwriter]
    exact ⟨rfl, rfl⟩
  -- with one, the framing fields are the written ones
  · have hnot : ∀ inner rec, reader ≠ .bodyless inner rec := by
      intro inner rec heq
      exact hbody (bodyReader_bodyless_iff.mp ⟨inner, rec, heq⟩)
    have hwritten := @responseBodyLength_written isHead res.code res
      (responseFraming clientCannotChunk keepFraming reader) (responseFraming_preserves hnot) hbody
    rw [responseFraming_bodyLength hnot] at hwritten
    exact hwritten

/-- The framing that is written is announced for the writer that goes with the reader, if
    the reader is the one that reading the response came to. -/
theorem announces_responseFraming {pending : PendingFrontendResponse} {now : Bytes}
    {backend : BackendResponse} {tokens : List Bytes} {reader : BackendReader}
    {maxHead maxLine : Nat}
    (hread : reader.read h (!pending.clientOptions.isHead) maxHead maxLine =
      .ok (.final backend)) :
    let isHead := pending.clientOptions.isHead
    let version := pending.clientOptions.version
    let stripped : Response := { backend.res with
      headers := stripHopByHopHeaders backend.res.headers tokens }
    let fields := Frontend.writtenFields (pending.withResponseHeaders now stripped)
      (responseFraming (version == .http10) (isHead || backend.res.code == 304) backend.reader)
    let writer := responseWriter (version == .http10) backend.reader
    Announces isHead version backend.res.code fields writer ∧
      Announces isHead version backend.res.code (fields.map readBack) writer := by
  intro isHead version stripped fields writer
  obtain ⟨-, r, recyclable, framing, -, -, -, hreader⟩ := read_final hread
  -- the strip leaves no transfer-encoding, and the proxy adds none
  have hnone : ∀ f ∈ (pending.withResponseHeaders now stripped).headers.headers,
      eqIgnoreCase f.1 (ascii "transfer-encoding") = false := by
    intro f hf
    rcases mem_withResponseHeaders hf with hf | hname | hname
    · have hkept := strip_not_standard hf
      simp only [isStandardHopByHop, hopByHopHeaders, List.any_cons, List.any_nil,
        Bool.or_eq_false_iff] at hkept
      rw [eqIgnoreCase_symm]
      exact hkept.2.2.2.2.2.1
    · rw [hname]
      decide
    · rw [hname]
      decide
  have hcoding : version = .http10 → transferEncodingFields fields = [] := by
    intro hversion
    apply transferEncodingFields_written hnone
    rw [hversion]
    exact responseFraming_ne_chunked _ _
  have hread' : transferEncodingFields (fields.map readBack) =
      (transferEncodingFields fields).map readBack := List.filter_map
  have hlength : responseBodyLength isHead backend.res.code fields = bodyLengthOf writer ∧
      responseBodyLength isHead backend.res.code (fields.map readBack) = bodyLengthOf writer := by
    show responseBodyLength isHead _ (Frontend.writtenFields _ (responseFraming _ _ backend.reader)) =
      bodyLengthOf (responseWriter _ backend.reader) ∧ responseBodyLength isHead _ (List.map readBack
        (Frontend.writtenFields _ (responseFraming _ _ backend.reader))) =
      bodyLengthOf (responseWriter _ backend.reader)
    rw [hreader]
    exact responseBodyLength_responseFraming (pending.withResponseHeaders now stripped)
  refine ⟨⟨hlength.1, hcoding⟩, hlength.2, ?_⟩
  intro hversion
  rw [hread', hcoding hversion]
  rfl

/-- A forwarded response head never lies about the body that follows: for every final
    response that is read, every client and every method, the code and the fields that are
    sent announce the encoding of the writer, and a client of HTTP/1.0 is sent no
    `Transfer-Encoding`. -/
theorem forwardResponseHead_announces {self : BackendFinalProxyResponseForwarder h}
    {reader : BackendReader} {maxHead maxLine : Nat} {backend : BackendResponse} {now : Bytes}
    {exchanger : ProxyBodyExchanger h} {sink : Sink}
    (hread : reader.read h (!self.pending.clientOptions.isHead) maxHead maxLine =
      .ok (.final backend))
    (hnew : NormalizedResponseStream.new (.final backend) = .ok (.final self.proxyResponse))
    (hok : self.forwardResponseHead now = (.ok exchanger, sink)) :
    ∃ fields writer,
      sink.wire = self.pending.frontendWriter.writer.wire ++
        responseHead backend.res.code backend.res.reason fields ∧
      exchanger.responseBodyForwarder = .new h self.pending.options.bodyChunkSize backend.reader
        writer sink ∧
      Announces self.pending.clientOptions.isHead self.pending.clientOptions.version
        backend.res.code fields writer ∧
      Announces self.pending.clientOptions.isHead self.pending.clientOptions.version
        backend.res.code (fields.map readBack) writer := by
  obtain ⟨-, hstripped⟩ := NormalizedResponseStream.new_final hnew
  injection hstripped with hresponse
  obtain ⟨rfl, hsends⟩ := forwardResponseHead_ok hok
  have hannounces := @announces_responseFraming h self.pending now backend
    (listedOptions backend.res.headers) reader maxHead maxLine hread
  rw [hresponse] at hsends ⊢
  exact ⟨_, _, hsends.wire, rfl, hannounces⟩

/-- A chunked response, with options that name a framing header and `Date`. -/
def chunkedHead : Bytes :=
  ascii "HTTP/1.1 200 OK\r\nDate: x\r\nTransfer-Encoding: chunked\r\n" ++
    ascii "Connection: date, transfer-encoding\r\n\r\n"

def chunkedBackend : BackendResponse :=
  ⟨⟨.http11, 200, ascii "OK", ⟨[(ascii "Date", ascii "x"),
    (ascii "Transfer-Encoding", ascii "chunked"),
    (ascii "Connection", ascii "date, transfer-encoding")]⟩⟩,
    .te (.new ⟨⟨[]⟩, ⟨List.replicate 35 0, 0, Nat.zero_le _⟩⟩ ⟨4⟩ 128 128) true⟩

/-- It is on its way to a client of HTTP/1.0. -/
def chunkedToOldClient : BackendFinalProxyResponseForwarder reference :=
  ⟨.new reference 8 (.bodyless ⟨.new ⟨[]⟩, ⟨4⟩⟩ true) (.bodyless .mk) ⟨[], []⟩,
    ⟨⟨⟨[], [.accept 3, .pending]⟩⟩, .default, ⟨false, .http10⟩⟩,
    ⟨{ chunkedBackend with res := { chunkedBackend.res with
      headers := stripHopByHopHeaders chunkedBackend.res.headers
        (listedOptions chunkedBackend.res.headers) } }, chunkedBackend.res⟩⟩

theorem forwardResponseHead_announces_chunked :
    ∃ exchanger sink fields writer,
      chunkedToOldClient.forwardResponseHead (ascii "now") = (.ok exchanger, sink) ∧
      sink.wire = [] ++ responseHead 200 (ascii "OK") fields ∧
      exchanger.responseBodyForwarder = .new reference 8192 chunkedBackend.reader writer sink ∧
      Announces false .http10 200 fields writer ∧
      Announces false .http10 200 (fields.map readBack) writer := by
  have hsent : (chunkedToOldClient.forwardResponseHead (ascii "now")).1.isOk = true := by
    decide +kernel
  obtain ⟨exchanger, sink, hok⟩ := exists_of_isOk hsent
  have hread : BackendReader.read reference
      ⟨⟨⟨[.pending, .data 72 (chunkedHead.drop 1)]⟩, .default⟩, ⟨4⟩⟩ true 128 128 =
        .ok (.final chunkedBackend) := by decide +kernel
  have hstripped : (NormalizedResponseStream.new (.final chunkedBackend)).toOption.map id =
      some (.final chunkedToOldClient.proxyResponse) := by decide +kernel
  obtain ⟨_, hnew, rfl⟩ := exists_ok_of_map hstripped
  obtain ⟨fields, writer, hannounces⟩ := forwardResponseHead_announces hread hnew hok
  exact ⟨exchanger, sink, fields, writer, hok, hannounces⟩

end Jrpxy.Proxy
