/-
  Jrpxy.Proxy.Representation

  The framing fields of a response that has no body.

  The response to a HEAD request and a 304 describe a representation, and
  their framing fields are part of the description.  Two steps decide what
  becomes of them: the strip at read time, which takes `Transfer-Encoding` for
  connection-scoped whatever the response is, and the framing of the written
  head, which lets both fields through.  So what the client is told is what the
  backend said exactly if the backend sent no `Transfer-Encoding`.
-/
import Jrpxy.Proxy.ResponseFraming

namespace Jrpxy.Proxy

open Poll Ascii Util HttpMessage Body Body.Reader Body.Writer Frontend Backend

open Httparse.Reference (reference)

variable {h : Httparse}

/-- The framing fields among these, in their order. -/
def framingFieldsOf (fields : List Field) : List Field := fields.filter fun f => isFramingHeader f.1

/-- The fields of a head that is sent with the framing headers it has. -/
def preservedFields (pending : PendingFrontendResponse) (now : Bytes) (res : Response) :
    List Field :=
  Frontend.writtenFields (pending.withResponseHeaders now res) .preserveFraming

/-! ## What the strip takes -/

/-- A framing header that no option names is stripped exactly if it is `Transfer-Encoding`. -/
theorem isHopByHop_of_framing {name : Bytes} (hname : isFramingHeader name = true)
    {tokens : List Bytes} (htokens : ∀ t ∈ tokens, isFramingHeader t = false) :
    isHopByHop name tokens = eqIgnoreCase (ascii "transfer-encoding") name := by
  have hnone : (tokens.any fun t => eqIgnoreCase t name) = false := by
    rw [List.any_eq_false]
    intro t ht heq
    obtain ⟨hlength, hcoding⟩ := isFramingHeader_eq_false.mp (htokens t ht)
    rw [eqIgnoreCase_congr heq] at hlength hcoding
    rw [isFramingHeader_eq_false.mpr ⟨hlength, hcoding⟩] at hname
    cases hname
  rw [isHopByHop, hnone, Bool.or_false]
  cases hcoding : eqIgnoreCase (ascii "transfer-encoding") name with
  | true =>
    rw [← isStandardHopByHop_congr hcoding]
    decide
  | false =>
    -- the other framing header is not in the table
    have hlength : eqIgnoreCase (ascii "content-length") name = true := by
      simpa [isFramingHeader, framingHeaders, hcoding] using hname
    rw [← isStandardHopByHop_congr hlength]
    decide

/-- A filter changes nothing of what another one keeps exactly if it takes none of that. -/
theorem filter_of_filter_eq_iff {α : Type} (p q : α → Bool) (l : List α) :
    (l.filter q).filter p = l.filter p ↔ ∀ a ∈ l, p a = true → q a = true := by
  constructor
  · intro heq a ha hp
    have hmem : a ∈ (l.filter q).filter p := heq ▸ List.mem_filter.mpr ⟨ha, hp⟩
    exact (List.mem_filter.mp (List.mem_filter.mp hmem).1).2
  · intro hall
    rw [List.filter_filter]
    apply List.filter_congr
    intro a ha
    cases hp : p a with
    | false => rfl
    | true => rw [hall a ha hp]; rfl

/-- The strip leaves the framing fields alone exactly if there is no `Transfer-Encoding`. -/
theorem framingFieldsOf_strip_iff {headers : Headers} {tokens : List Bytes}
    (htokens : ∀ t ∈ tokens, isFramingHeader t = false) :
    framingFieldsOf (stripHopByHopHeaders headers tokens).headers = framingFieldsOf headers.headers ↔
      headers.getHeader (ascii "transfer-encoding") = [] := by
  rw [framingFieldsOf, framingFieldsOf, stripHopByHopHeaders, Headers.retain,
    filter_of_filter_eq_iff, Headers.getHeader, List.filter_eq_nil_iff]
  apply forall₂_congr
  intro f _
  constructor
  · intro hkept hcoding
    have hframing : isFramingHeader f.1 = true := by
      simp [isFramingHeader, framingHeaders, hcoding]
    have hkept := hkept hframing
    rw [isHopByHop_of_framing hframing htokens, hcoding] at hkept
    cases hkept
  · intro hcoding hframing
    rw [isHopByHop_of_framing hframing htokens]
    simpa using hcoding

/-! ## What is sent -/

/-- The proxy adds no framing field, and a head whose framing is preserved loses none. -/
theorem framingFieldsOf_preserved (pending : PendingFrontendResponse) (now : Bytes)
    (res : Response) :
    framingFieldsOf (preservedFields pending now res) = framingFieldsOf res.headers.headers := by
  have hpush : ∀ (headers : Headers) (name value : Bytes), isFramingHeader name = false →
      framingFieldsOf (headers.pushRaw name value).headers = framingFieldsOf headers.headers := by
    intro headers name value hname
    rw [framingFieldsOf, Headers.pushRaw, List.filter_append,
      List.filter_cons_of_neg (by simp [hname]), List.filter_nil, List.append_nil]
    rfl
  have hvia : framingFieldsOf (pending.withProxyHeaders res).headers.headers =
      framingFieldsOf res.headers.headers := hpush _ _ _ (by decide)
  have hall : preservedFields pending now res =
      (pending.withResponseHeaders now res).headers.headers := by
    rw [preservedFields, Frontend.writtenFields]
    simp [WriteFraming.preservesFraming, Headers.iter, framingFields]
  rw [hall]
  show framingFieldsOf (insertDateHeaderIfAbsent now (pending.withProxyHeaders res).headers).headers
    = _
  unfold insertDateHeaderIfAbsent
  split
  · exact hvia
  · rw [hpush _ _ _ (by decide)]
    exact hvia

/-- A final response without a body is sent with the framing headers the strip left it. -/
theorem forwardResponseHead_preserves {self : BackendFinalProxyResponseForwarder h}
    {reader : BackendReader} {maxHead maxLine : Nat} {backend : BackendResponse} {now : Bytes}
    {exchanger : ProxyBodyExchanger h} {sink : Sink}
    (hread : reader.read h (!self.pending.clientOptions.isHead) maxHead maxLine =
      .ok (.final backend))
    (hnew : NormalizedResponseStream.new (.final backend) = .ok (.final self.proxyResponse))
    (hbodyless : self.pending.clientOptions.isHead = true ∨ backend.res.code = 304)
    (hok : self.forwardResponseHead now = (.ok exchanger, sink)) :
    sink.wire = self.pending.frontendWriter.writer.wire ++
      responseHead backend.res.code backend.res.reason
        (preservedFields self.pending now self.proxyResponse.backend.res) := by
  obtain ⟨-, hstripped⟩ := NormalizedResponseStream.new_final hnew
  injection hstripped with hresponse
  obtain ⟨-, r, recyclable, framing, -, -, -, hreader⟩ := read_final hread
  obtain ⟨-, hsends⟩ := forwardResponseHead_ok hok
  -- reading it came to a reader without a body, and so the framing is preserved
  have hnone : ∃ inner r, backend.reader = .bodyless inner r := by
    rw [hreader]
    apply bodyReader_bodyless_iff.mpr
    rcases hbodyless with hhead | hcode
    · exact .inl hhead
    · exact .inr (.inr (.inr hcode))
  obtain ⟨inner, r, hnone⟩ := hnone
  have hkeep : (self.pending.clientOptions.isHead || backend.res.code == 304) = true := by
    rcases hbodyless with hhead | hcode
    · rw [hhead]
      rfl
    · rw [hcode]
      exact Bool.or_true _
  have hwire := hsends.wire
  rw [hresponse] at hwire ⊢
  dsimp only at hwire
  rw [hnone, hkeep] at hwire
  exact hwire

/-- One head says of the representation what the other does: the same framing fields, with the
    same values and in the same order. -/
def SameFraming (sent received : List Field) : Prop :=
  framingFieldsOf sent = framingFieldsOf received

instance (sent received : List Field) : Decidable (SameFraming sent received) :=
  inferInstanceAs (Decidable (_ = _))

/-- For every final response to a HEAD request and every 304 that is read, whose options name no
    framing field, the head that is sent has the framing fields of the one received exactly if
    that has no `Transfer-Encoding`. -/
theorem sameFraming_iff {self : BackendFinalProxyResponseForwarder h} {reader : BackendReader}
    {maxHead maxLine : Nat} {backend : BackendResponse} {now : Bytes}
    {exchanger : ProxyBodyExchanger h} {sink : Sink}
    (hread : reader.read h (!self.pending.clientOptions.isHead) maxHead maxLine =
      .ok (.final backend))
    (hnew : NormalizedResponseStream.new (.final backend) = .ok (.final self.proxyResponse))
    (hbodyless : self.pending.clientOptions.isHead = true ∨ backend.res.code = 304)
    (hoptions : ∀ t ∈ listedOptions backend.res.headers, isFramingHeader t = false)
    (hok : self.forwardResponseHead now = (.ok exchanger, sink)) :
    let sent := preservedFields self.pending now self.proxyResponse.backend.res
    sink.wire = self.pending.frontendWriter.writer.wire ++
        responseHead backend.res.code backend.res.reason sent ∧
      (SameFraming sent backend.res.headers.headers ↔
        backend.res.headers.getHeader (ascii "transfer-encoding") = []) := by
  intro sent
  refine ⟨forwardResponseHead_preserves hread hnew hbodyless hok, ?_⟩
  obtain ⟨-, hstripped⟩ := NormalizedResponseStream.new_final hnew
  injection hstripped with hresponse
  have hsent : framingFieldsOf sent = framingFieldsOf
      (stripHopByHopHeaders backend.res.headers (listedOptions backend.res.headers)).headers := by
    rw [framingFieldsOf_preserved, hresponse]
  rw [SameFraming, hsent]
  exact framingFieldsOf_strip_iff hoptions

/-- A head with one field. -/
def headWith (field : Field) : Bytes :=
  ascii "HTTP/1.1 200 OK\r\n" ++ field.1 ++ ascii ": " ++ field.2 ++ ascii "\r\n\r\n"

/-- It is the response to a HEAD request, -/
def backendWith (field : Field) : BackendResponse :=
  ⟨⟨.http11, 200, ascii "OK", ⟨[field]⟩⟩,
    .bodyless ⟨⟨⟨[]⟩, ⟨List.replicate (128 - (headWith field).length) 0, 0, Nat.zero_le _⟩⟩, ⟨4⟩⟩
      true⟩

/-- on its way to the client. -/
def forwarderWith (field : Field) : BackendFinalProxyResponseForwarder reference :=
  ⟨.new reference 8 (.bodyless ⟨.new ⟨[]⟩, ⟨4⟩⟩ true) (.bodyless .mk) ⟨[], []⟩,
    ⟨⟨⟨[], [.accept 3, .pending]⟩⟩, .default, ⟨true, .http11⟩⟩,
    ⟨{ backendWith field with res := { (backendWith field).res with
      headers := stripHopByHopHeaders (backendWith field).res.headers
        (listedOptions (backendWith field).res.headers) } }, (backendWith field).res⟩⟩

/-- The connection the head is read from. -/
def readerWith (field : Field) : BackendReader :=
  ⟨.new ⟨[.pending, .data 72 ((headWith field).drop 1)]⟩, ⟨4⟩⟩

def fiveBytes : Field := (ascii "Content-Length", ascii "5")

def inChunks : Field := (ascii "Transfer-Encoding", ascii "chunked")

theorem sameFraming_iff_fiveBytes :
    ∃ exchanger sink, (forwarderWith fiveBytes).forwardResponseHead (ascii "now") =
        (.ok exchanger, sink) ∧
      let sent := preservedFields (forwarderWith fiveBytes).pending (ascii "now")
        (forwarderWith fiveBytes).proxyResponse.backend.res
      sink.wire = [] ++ responseHead 200 (ascii "OK") sent ∧
        (SameFraming sent [fiveBytes] ↔
          Headers.getHeader ⟨[fiveBytes]⟩ (ascii "transfer-encoding") = []) := by
  have hsent : ((forwarderWith fiveBytes).forwardResponseHead (ascii "now")).1.isOk = true := by
    decide +kernel
  obtain ⟨exchanger, sink, hok⟩ := exists_of_isOk hsent
  have hread : BackendReader.read reference (readerWith fiveBytes) false 128 128 =
      .ok (.final (backendWith fiveBytes)) := by decide +kernel
  have hstripped : (NormalizedResponseStream.new (.final (backendWith fiveBytes))).toOption.map id =
      some (.final (forwarderWith fiveBytes).proxyResponse) := by decide +kernel
  obtain ⟨_, hnew, rfl⟩ := exists_ok_of_map hstripped
  have hoptions : ∀ t ∈ listedOptions (backendWith fiveBytes).res.headers,
      isFramingHeader t = false := by decide +kernel
  exact ⟨exchanger, sink, hok, sameFraming_iff hread hnew (.inl rfl) hoptions hok⟩

/-- What the backend says of the representation is lost. -/
theorem inChunks_not_sameFraming :
    BackendReader.read reference (readerWith inChunks) false 128 128 =
        .ok (.final (backendWith inChunks)) ∧
      listedOptions (backendWith inChunks).res.headers = [] ∧
      ((forwarderWith inChunks).forwardResponseHead (ascii "now")).2.wire =
        responseHead 200 (ascii "OK") (preservedFields (forwarderWith inChunks).pending
          (ascii "now") (forwarderWith inChunks).proxyResponse.backend.res) ∧
      ¬ SameFraming (preservedFields (forwarderWith inChunks).pending (ascii "now")
        (forwarderWith inChunks).proxyResponse.backend.res) [inChunks] := by
  decide +kernel

end Jrpxy.Proxy
