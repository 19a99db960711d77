/-
  Jrpxy.Proxy.ResponseHops

  A response that goes back from proxy to proxy.

  The head of a final response that is sent to a client is read by a proxy in
  its place as it was written, and accepted, if its code has three digits; a
  code that was read with leading zeros is written without them, and refused
  (`nextHop_receives`).  Every hop adds its entry in `Via`; the first adds
  `Date`, if the origin sent none; nothing else changes, but that the last one
  does not chunk for a client that cannot read chunks (`return_onlyVia`).
-/
import Jrpxy.Proxy.Chain
import Jrpxy.Proxy.Hops

namespace Jrpxy.Proxy

open Poll BodyRelay BlockWriter Ascii Util HttpMessage Body Body.Reader Body.Writer Frontend Backend

open Httparse.Reference (reference responseLaws responseHeadLaws writtenResponseLaws
  responseSlotLaws)

variable {h : Httparse}

/-- A final response that was read off a connection and accepted, and whose head was sent to
    the client, at this time of day. -/
structure ResponseHop (h : Httparse) where
  backendReader : BackendReader
  forwarder : BackendFinalProxyResponseForwarder h
  backend : BackendResponse
  now : Bytes
  exchanger : ProxyBodyExchanger h
  sink : Sink
  read : backendReader.read h (!forwarder.pending.clientOptions.isHead)
    forwarder.pending.options.maxBackendHeadLength
    forwarder.pending.options.maxChunkHeaderLength = .ok (.final backend)
  new : NormalizedResponseStream.new (.final backend) = .ok (.final forwarder.proxyResponse)
  sent : forwarder.forwardResponseHead now = (.ok exchanger, sink)
  nowValid : isValidFieldValue now = true
  nowTrimmed : Trimmed now

/-- Framing headers that pass are not written a second time. -/
theorem framingFields_of_preserves {framing : WriteFraming}
    (hpreserves : framing.preservesFraming = true) : framingFields framing = [] := by
  cases framing with
  | preserveFraming => rfl
  | stripFraming => rfl
  | length n => cases hpreserves
  | chunked => cases hpreserves

namespace ResponseHop

variable (x : ResponseHop h)

/-- The client's side. -/
def pending : PendingFrontendResponse := x.forwarder.pending

/-- The client does not expect a body. -/
def isHead : Bool := x.pending.clientOptions.isHead

/-- The client cannot read chunks. -/
def clientCannotChunk : Bool := x.pending.clientOptions.version == .http10

/-- The framing that the head is sent with. -/
def framing : WriteFraming :=
  responseFraming x.clientCannotChunk (x.isHead || x.backend.res.code == 304) x.backend.reader

/-- The fields of the response that are sent on. -/
def kept : List Field :=
  (strippedResponse x.backend.res).headers.headers.filter fun f =>
    x.framing.preservesFraming || !isFramingHeader f.1

/-- The entry in `Via` that is added. -/
def via : Field := viaField x.backend.res.version x.pending.options.receivedBy

/-- The date that is added, if the response has none. -/
def date : List Field :=
  if Headers.getHeader ⟨x.kept⟩ (ascii "date") = [] then [(ascii "Date", x.now)] else []

/-- The fields that are sent. -/
def fields : List Field := x.kept ++ x.via :: x.date ++ framingFields x.framing

/-- The head that is sent. -/
def head : Bytes := responseHead x.backend.res.code x.backend.res.reason x.fields

/-- The response as it is read again. -/
def onward : Response := ⟨.http11, x.backend.res.code, x.backend.res.reason, ⟨x.fields⟩⟩

/-- This reader stands in front of what was sent. -/
def Before (self : BackendReader) : Prop :=
  ∃ rest, x.pending.frontendWriter.writer.wire ++ self.reader.unread = x.sink.wire ++ rest

/-- A response that is accepted is stripped of what is connection-scoped. -/
theorem response_eq : getConnectionTokens x.backend.res.headers =
      .ok (listedOptions x.backend.res.headers) ∧
    x.forwarder.proxyResponse =
      ⟨{ x.backend with res := strippedResponse x.backend.res }, x.backend.res⟩ := by
  obtain ⟨htokens, hout⟩ := NormalizedResponseStream.new_final x.new
  exact ⟨htokens, NormalizedResponseStream.final.inj hout⟩

/-- What goes on is not connection-scoped. -/
theorem kept_not_standard {f : Field} (hf : f ∈ x.kept) : isStandardHopByHop f.1 = false :=
  strip_not_standard (List.mem_filter.mp hf).1

/-- Taking out framing headers leaves a `Date`. -/
theorem getHeader_date : (strippedResponse x.backend.res).headers.getHeader (ascii "date") =
    Headers.getHeader ⟨x.kept⟩ (ascii "date") := by
  rw [Headers.getHeader, Headers.getHeader, kept, List.filter_filter]
  apply List.filter_congr
  intro f _
  cases hdate : eqIgnoreCase (ascii "date") f.1 with
  | false => rfl
  | true =>
    have hframing : isFramingHeader f.1 = false := by
      rw [← isFramingHeader_congr hdate]
      decide
    rw [hframing]
    simp

/-- The fields that are added. -/
theorem eq_of_added {f : Field} (hf : f ∈ x.via :: x.date) :
    f = x.via ∨ f = (ascii "Date", x.now) := by
  rcases List.mem_cons.mp hf with rfl | hf
  · exact .inl rfl
  · unfold date at hf
    split at hf
    · exact .inr (List.mem_singleton.mp hf)
    · cases hf

/-- They neither frame the body nor are connection-scoped. -/
theorem added_endToEnd {f : Field} (hf : f ∈ x.via :: x.date) :
    isFramingHeader f.1 = false ∧ isStandardHopByHop f.1 = false := by
  rcases x.eq_of_added hf with rfl | rfl
  · exact (by decide : isFramingHeader (ascii "Via") = false ∧
      isStandardHopByHop (ascii "Via") = false)
  · exact (by decide : isFramingHeader (ascii "Date") = false ∧
      isStandardHopByHop (ascii "Date") = false)

/-- The fields that are written. -/
theorem writtenFields_eq : Frontend.writtenFields
    (x.pending.withResponseHeaders x.now (strippedResponse x.backend.res)) x.framing = x.fields := by
  have hheaders : (x.pending.withResponseHeaders x.now
      (strippedResponse x.backend.res)).headers.headers =
        (strippedResponse x.backend.res).headers.headers ++ x.via :: x.date := by
    let headers : Headers := ⟨(strippedResponse x.backend.res).headers.headers ++ [x.via]⟩
    have hdate : headers.getHeader (ascii "date") = Headers.getHeader ⟨x.kept⟩ (ascii "date") := by
      rw [← getHeader_date, Headers.getHeader, List.filter_append]
      exact List.append_nil _
    show (insertDateHeaderIfAbsent x.now headers).headers = _
    rw [insertDateHeaderIfAbsent, hdate, date]
    by_cases hnone : Headers.getHeader ⟨x.kept⟩ (ascii "date") = []
    · rw [if_neg (not_not.mpr hnone), if_pos hnone]
      exact List.append_assoc _ _ _
    · rw [if_pos hnone, if_neg hnone]
  have hall : (x.via :: x.date).filter (fun f => x.framing.preservesFraming || !isFramingHeader f.1)
      = x.via :: x.date := by
    apply List.filter_eq_self.mpr
    intro f hf
    rw [(x.added_endToEnd hf).1]
    simp
  show List.filter _ (x.pending.withResponseHeaders x.now
    (strippedResponse x.backend.res)).headers.headers ++ _ = _
  rw [hheaders, List.filter_append, hall]
  rfl

/-- What stands in front of the reader is the head. -/
theorem Before.unread {x : ResponseHop h} {self : BackendReader} (hbefore : x.Before self) :
    ∃ rest, self.reader.unread = x.head ++ rest := by
  obtain ⟨rest, hwire⟩ := hbefore
  obtain ⟨-, hresponse⟩ := x.response_eq
  obtain ⟨-, hsends⟩ := forwardResponseHead_ok x.sent
  have hhead : x.sink.wire = x.pending.frontendWriter.writer.wire ++ x.head := by
    have hwire := hsends.wire
    rw [hresponse] at hwire
    rw [head, ← writtenFields_eq]
    exact hwire
  rw [hhead, List.append_assoc] at hwire
  exact ⟨rest, List.append_cancel_left hwire⟩

/-! ## The framing of what is sent -/

/-- The framing of a stripped header list. -/
theorem framing_stripped {headers : Headers} {received : ParsedFraming}
    (hframing : headers.framing = .ok received) (tokens : List Bytes) :
    ∃ framing, (stripHopByHopHeaders headers tokens).framing = .ok framing ∧
      (received = .noFraming → framing = .noFraming) := by
  have hnamed : ∀ (fs : List Field) (name : Bytes),
      (fs.filter fun f => eqIgnoreCase f.1 name) = Headers.getHeader ⟨fs⟩ name := by
    intro fs name
    rw [Headers.getHeader]
    apply List.filter_congr
    intro f _
    rw [eqIgnoreCase_symm]
  have hcoding : transferEncodingFields (stripHopByHopHeaders headers tokens).headers = [] := by
    rw [transferEncodingFields, hnamed]
    have hscoped : isHopByHop (ascii "transfer-encoding") tokens = true := by
      rw [isHopByHop, (by decide : isStandardHopByHop (ascii "transfer-encoding") = true)]
      rfl
    exact (strip_getHeader headers tokens _).trans (if_pos hscoped)
  have hlengths : contentLengthFields (stripHopByHopHeaders headers tokens).headers =
      if isHopByHop (ascii "content-length") tokens then [] else
        contentLengthFields headers.headers := by
    rw [contentLengthFields, contentLengthFields, hnamed, hnamed]
    exact strip_getHeader headers tokens _
  have hrule := framing_iff_rule.mp hframing
  -- a length is left if it is not named as an option, and never a coding
  have hnone : contentLengthFields (stripHopByHopHeaders headers tokens).headers = [] →
      (stripHopByHopHeaders headers tokens).framing = .ok .noFraming :=
    fun hnil => framing_iff_rule.mpr ⟨hnil, hcoding⟩
  cases received with
  | length n =>
    obtain ⟨-, hsome, hlt, hdenotes⟩ := hrule
    by_cases hscoped : isHopByHop (ascii "content-length") tokens = true
    · rw [if_pos hscoped] at hlengths
      exact ⟨.noFraming, hnone hlengths, fun heq => by cases heq⟩
    · rw [if_neg hscoped] at hlengths
      have hlength : FramingRule (stripHopByHopHeaders headers tokens).headers (.length n) := by
        refine ⟨hcoding, ?_, hlt, ?_⟩
        · rw [hlengths]
          exact hsome
        · rw [hlengths]
          exact hdenotes
      exact ⟨.length n, framing_iff_rule.mpr hlength, fun heq => by cases heq⟩
  | chunked =>
    obtain ⟨hnil, -⟩ := hrule
    rw [hnil, ite_self] at hlengths
    exact ⟨.noFraming, hnone hlengths, fun heq => by cases heq⟩
  | noFraming =>
    obtain ⟨hnil, -⟩ := hrule
    rw [hnil, ite_self] at hlengths
    exact ⟨.noFraming, hnone hlengths, fun _ => rfl⟩

/-- The framing that a response is sent with when it was read with this one. -/
def sentFraming (clientCannotChunk isHead : Bool) (code : Nat) (received : ParsedFraming) :
    WriteFraming :=
  if isHead || code == 304 then .preserveFraming
  else if neverHasBody code then .stripFraming
  else
    match received with
    | .length n => .length n
    | .chunked => unsizedFraming clientCannotChunk
    | .noFraming => unsizedFraming clientCannotChunk

/-- The reader of a response and the framing it is sent with go by the same table. -/
theorem responseFraming_bodyReader {r : BytesReader} {slots : ParseSlots}
    {maxHead maxLine code : Nat} {clientCannotChunk isHead recyclable : Bool}
    {received : ParsedFraming} (hlt : ∀ n, received = .length n → n < 2 ^ 64) :
    responseFraming clientCannotChunk (isHead || code == 304)
      (BackendReader.bodyReader r slots maxHead maxLine (!isHead && !neverHasBody code) recyclable
        received) = sentFraming clientCannotChunk isHead code received := by
  unfold sentFraming
  have hbodyless : (!isHead && !neverHasBody code) = false →
      BackendReader.bodyReader r slots maxHead maxLine (!isHead && !neverHasBody code) recyclable
        received = .bodyless ⟨r, slots⟩ recyclable := by
    intro hnone
    rw [hnone]
    rfl
  by_cases hkeep : (isHead || code == 304) = true
  · have hnone : (!isHead && !neverHasBody code) = false := by
      rcases Bool.or_eq_true_iff.mp hkeep with rfl | hcode
      · rfl
      · rw [neverHasBody, hcode, Bool.or_true, Bool.not_true, Bool.and_false]
    rw [hbodyless hnone, if_pos hkeep, hkeep]
    rfl
  · rw [if_neg hkeep]
    rw [Bool.not_eq_true] at hkeep
    by_cases hnever : neverHasBody code = true
    · have hnone : (!isHead && !neverHasBody code) = false := by
        rw [hnever, Bool.not_true, Bool.and_false]
      rw [hbodyless hnone, if_pos hnever, hkeep]
      rfl
    · rw [if_neg hnever]
      rw [Bool.not_eq_true] at hnever
      have hbody : (!isHead && !neverHasBody code) = true := by
        rw [(Bool.or_eq_false_iff.mp hkeep).1, hnever]
        rfl
      rw [hbody]
      cases received with
      | length n => exact congrArg WriteFraming.length (toNat_ofNat_of_lt (hlt n rfl))
      | chunked => rfl
      | noFraming => rfl

/-- The framing is that of the response, as far as it has a body. -/
theorem framing_eq : ∃ received, x.backend.res.framing = .ok received ∧
    (x.backend.res.code = 204 → received = .noFraming) ∧
    x.backend.res.isInformational = none ∧
    x.framing = sentFraming x.clientCannotChunk x.isHead x.backend.res.code received := by
  obtain ⟨hinfo, r, recyclable, received, hframing, -, hempty, hreader⟩ := read_final x.read
  refine ⟨received, hframing, hempty, hinfo, ?_⟩
  rw [framing, hreader]
  apply responseFraming_bodyReader
  rintro n rfl
  exact length_of_framing hframing

/-- The framing for this client of a body that was sent on with this one. -/
def toClient (clientCannotChunk : Bool) : WriteFraming → WriteFraming
  | .chunked => unsizedFraming clientCannotChunk
  | .length n => .length n
  | .preserveFraming => .preserveFraming
  | .stripFraming => .stripFraming

theorem toClient_false (framing : WriteFraming) : toClient false framing = framing := by
  cases framing <;> rfl

/-- Framing headers pass if there is no body they could frame. -/
theorem sentFraming_preserves {clientCannotChunk isHead : Bool} {code : Nat}
    {received : ParsedFraming} :
    (sentFraming clientCannotChunk isHead code received).preservesFraming =
      (isHead || code == 304) := by
  unfold sentFraming
  by_cases hkeep : (isHead || code == 304) = true
  · rw [if_pos hkeep, hkeep]
    rfl
  · rw [if_neg hkeep]
    rw [Bool.not_eq_true] at hkeep
    rw [hkeep]
    split
    · rfl
    · cases received <;> cases clientCannotChunk <;> rfl

/-- What is sent in chunks, or with a length, is read so and sent on so. -/
theorem sentFraming_again {clientCannotChunk isHead : Bool} {code : Nat}
    {received again : ParsedFraming}
    (hagain : (sentFraming false isHead code received).preservesFraming = false →
      again = (sentFraming false isHead code received).parsed) :
    sentFraming clientCannotChunk isHead code again =
      toClient clientCannotChunk (sentFraming false isHead code received) := by
  unfold sentFraming at hagain ⊢
  by_cases hkeep : (isHead || code == 304) = true
  · rw [if_pos hkeep, if_pos hkeep]
    rfl
  · rw [if_neg hkeep] at hagain ⊢
    rw [if_neg hkeep]
    by_cases hnever : neverHasBody code = true
    · rw [if_pos hnever, if_pos hnever]
      rfl
    · rw [if_neg hnever] at hagain ⊢
      rw [if_neg hnever]
      cases received with
      | length n =>
        rw [hagain rfl]
        rfl
      | chunked =>
        rw [hagain rfl]
        rfl
      | noFraming =>
        rw [hagain rfl]
        rfl

theorem sentFraming_inRange {clientCannotChunk isHead : Bool} {code : Nat}
    {received : ParsedFraming} (hlt : ∀ n, received = .length n → n < 2 ^ 64) :
    (sentFraming clientCannotChunk isHead code received).InRange := by
  unfold sentFraming
  split
  · trivial
  · split
    · trivial
    · cases received with
      | length n => exact hlt n rfl
      | chunked => cases clientCannotChunk <;> trivial
      | noFraming => cases clientCannotChunk <;> trivial

/-! ## What is read of it -/

section Laws

variable (laws : h.ResponseLaws) (headLaws : h.ResponseHeadLaws)
include laws headLaws

/-- The response that was received had a whole head, of fields without whitespace around their
    values. -/
theorem received : ∃ head rest, x.backendReader.reader.unread = head ++ rest ∧
    Backend.IsHead h x.backendReader.parseSlots head x.backend.res ∧
    x.backend.res.headers.Valid ∧ ∀ f ∈ x.backend.res.headers.headers, Trimmed f.2 := by
  obtain ⟨head, r, res, hunread, hhead, hanswered⟩ :=
    BackendReader.read_answered laws headLaws x.read
  obtain rfl : res = x.backend.res := by
    generalize hstream : ResponseStream.final x.backend = stream at hanswered
    cases hanswered with
    | final recyclable framing => rw [ResponseStream.final.inj hstream]
    | informational code => cases hstream
  refine ⟨head, r.unread, hunread, hhead, ?_⟩
  obtain ⟨p, version, hp, -, -, hres⟩ := hhead.parts laws
  obtain ⟨-, -, hfields⟩ := headLaws.sound hp
  rw [hres]
  constructor
  · intro f hf
    obtain ⟨y, hy, rfl⟩ := List.mem_map.mp hf
    exact ⟨(hfields y hy).1, (hfields y hy).2.1⟩
  · intro f hf
    obtain ⟨y, hy, rfl⟩ := List.mem_map.mp hf
    exact (hfields y hy).2.2

/-- What is sent is valid, with nothing to trim. -/
theorem fields_valid : Headers.Valid ⟨x.fields⟩ ∧ x.fields.map readBack = x.fields := by
  obtain ⟨-, -, -, -, hvalid, htrimmed⟩ := x.received laws headLaws
  have hkept : ∀ f ∈ x.kept, (isValidFieldName f.1 = true ∧ isValidFieldValue f.2 = true) ∧
      Trimmed f.2 := by
    intro f hf
    have hmem : f ∈ x.backend.res.headers.headers :=
      (List.mem_filter.mp (List.mem_filter.mp hf).1).1
    exact ⟨hvalid f hmem, htrimmed f hmem⟩
  have hadded : ∀ f ∈ x.via :: x.date,
      (isValidFieldName f.1 = true ∧ isValidFieldValue f.2 = true) ∧ Trimmed f.2 := by
    intro f hf
    rcases x.eq_of_added hf with rfl | rfl
    · exact ⟨⟨(by decide +kernel : isValidFieldName (ascii "Via") = true),
        isValidFieldValue_viaField _ x.pending.options.valid⟩,
        viaField_trimmed _ x.pending.options.valid⟩
    · exact ⟨⟨(by decide +kernel : isValidFieldName (ascii "Date") = true), x.nowValid⟩,
        x.nowTrimmed⟩
  have hothers : ∀ f ∈ x.kept ++ x.via :: x.date,
      (isValidFieldName f.1 = true ∧ isValidFieldValue f.2 = true) ∧ Trimmed f.2 := by
    intro f hf
    rcases List.mem_append.mp hf with hf | hf
    · exact hkept f hf
    · exact hadded f hf
  constructor
  · intro f hf
    rcases List.mem_append.mp hf with hf | hf
    · exact (hothers f hf).1
    · exact framingFields_valid x.framing f hf
  · have hsame : (x.kept ++ x.via :: x.date).map readBack = x.kept ++ x.via :: x.date := by
      rw [List.map_congr_left fun f hf => readBack_of_trimmed (hothers f hf).2, List.map_id']
    rw [fields, List.map_append, hsame, readBack_framingFields]

omit laws headLaws in
/-- Nothing that is sent says anything of the connection. -/
theorem fields_not_connection : ∀ f ∈ x.fields, eqIgnoreCase (ascii "connection") f.1 = false := by
  have hstandard : ∀ f : Field, isStandardHopByHop f.1 = false →
      eqIgnoreCase (ascii "connection") f.1 = false := by
    intro f hf
    simp only [isStandardHopByHop, hopByHopHeaders, List.any_cons, List.any_nil,
      Bool.or_eq_false_iff] at hf
    exact hf.1
  intro f hf
  rcases List.mem_append.mp hf with hf | hf
  · rcases List.mem_append.mp hf with hf | hf
    · exact hstandard f (x.kept_not_standard hf)
    · exact hstandard f (x.added_endToEnd hf).2
  · exact framingFields_not_connection _ f hf

omit laws headLaws in
/-- The framing that is read of the fields that are sent: the one they were sent with, or what
    is left of that of a body which is not sent. -/
theorem onward_framing {received : ParsedFraming}
    (hframing : x.backend.res.framing = .ok received)
    (hsent : x.framing = sentFraming x.clientCannotChunk x.isHead x.backend.res.code received)
    (hsame : x.fields.map readBack = x.fields) :
    ∃ again, x.onward.framing = .ok again ∧ (received = .noFraming → x.backend.res.code = 204 →
        again = .noFraming) ∧
      (x.framing.preservesFraming = false → again = x.framing.parsed) := by
  cases hpreserves : x.framing.preservesFraming with
  | true =>
    obtain ⟨again, hagain, hnone⟩ := framing_stripped hframing (listedOptions x.backend.res.headers)
    have hnothing := framingFields_of_preserves hpreserves
    refine ⟨again, ?_, fun hreceived _ => hnone hreceived, fun heq => by cases heq⟩
    have hkept : x.kept = (stripHopByHopHeaders x.backend.res.headers
        (listedOptions x.backend.res.headers)).headers := by
      rw [kept, hpreserves]
      exact List.filter_eq_self.mpr fun _ _ => rfl
    have hadded : (x.via :: x.date).filter (fun f => isFramingHeader f.1) = [] := by
      rw [List.filter_eq_nil_iff]
      intro f hf
      rw [(x.added_endToEnd hf).1]
      exact Bool.false_ne_true
    rw [← hagain, Response.framing, onward, fields, hnothing, List.append_nil, hkept]
    apply Headers.framing_congr
    rw [List.filter_append, hadded, List.append_nil]
    rfl
  | false =>
    have hothers : ∀ f ∈ x.kept ++ x.via :: x.date, isFramingHeader f.1 = false := by
      intro f hf
      rcases List.mem_append.mp hf with hf | hf
      · have hframed := (List.mem_filter.mp hf).2
        rw [hpreserves] at hframed
        simpa using hframed
      · exact (x.added_endToEnd hf).1
    have hrange : x.framing.InRange := by
      rw [hsent]
      apply sentFraming_inRange
      rintro n rfl
      exact length_of_framing hframing
    have hwritten := framing_written hothers hrange
    have hsame' : (x.kept ++ x.via :: x.date ++ framingFields x.framing).map readBack =
        x.kept ++ x.via :: x.date ++ framingFields x.framing := hsame
    rw [hsame'] at hwritten
    refine ⟨x.framing.parsed, hwritten, ?_, fun _ => rfl⟩
    rintro rfl hcode
    rw [hsent, hcode]
    cases hhead : x.isHead with
    | true => rfl
    | false => rfl

/-- The head that is sent can be read again, if its code has three digits. -/
theorem isHead_sent (written : h.WrittenResponseLaws) (hcode : 100 ≤ x.backend.res.code)
    {slots : ParseSlots} (hslots : x.fields.length ≤ slots.slotCount) :
    Backend.IsHead h slots x.head x.onward := by
  obtain ⟨head, -, -, hhead, -⟩ := x.received laws headLaws
  obtain ⟨hvalid, hsame⟩ := x.fields_valid laws headLaws
  have hwritable := writable_of_isHead laws headLaws hhead hcode hvalid (Nat.le_refl _)
  have hread := hwritable.isHead laws written hslots
  rw [hsame] at hread
  exact hread

end Laws

/-- A code of fewer than three digits is followed by a space too early. -/
theorem head_of_short (hcode : x.backend.res.code < 100) : ∃ a b c s,
    x.head = ascii "HTTP/1.1 " ++ a :: b :: c :: s ∧ (isDigit b = false ∨ isDigit c = false) := by
  have hlen : (digits 10 x.backend.res.code).length ≤ 2 := by
    rw [digits, List.length_map]
    exact (Nat.length_toDigits_le_iff (by decide) (by decide)).mpr hcode
  have hsplit : x.head = ascii "HTTP/1.1 " ++ (digits 10 x.backend.res.code ++ (32 ::
      (x.backend.res.reason ++ 13 :: (10 :: fieldLines x.fields ++ ascii "\r\n")))) := by
    simp [head, responseHead, ascii]
  have hne := digits_ne_nil 10 x.backend.res.code
  rw [hsplit]
  generalize digits 10 x.backend.res.code = code at hlen hne
  rcases code with _ | ⟨a, _ | ⟨b, _ | ⟨c, code⟩⟩⟩
  · exact absurd rfl hne
  · obtain ⟨c, s, hrest⟩ := List.exists_cons_of_ne_nil
      (List.append_ne_nil_of_right_ne_nil x.backend.res.reason (List.cons_ne_nil 13
        (10 :: fieldLines x.fields ++ ascii "\r\n")))
    exact ⟨a, 32, c, s, by rw [hrest]; rfl, .inl rfl⟩
  · exact ⟨a, b, 32, _, rfl, .inr rfl⟩
  · simp only [List.length_cons] at hlen
    omega

end ResponseHop

/-! ## The next hop -/

/-- A response whose options can be read is accepted. -/
theorem new_of_tokens {backend : BackendResponse} (htokens : getConnectionTokens
    backend.res.headers = .ok (listedOptions backend.res.headers)) :
    NormalizedResponseStream.new (.final backend) = .ok (.final
      ⟨{ backend with res := strippedResponse backend.res }, backend.res⟩) := by
  rw [NormalizedResponseStream.new]
  dsimp only
  rw [htokens]
  rfl

/-- A reader with room for the head accepts the response as it was sent if its code has three
    digits, and no response at all otherwise. -/
theorem nextHop_receives (laws : h.ResponseLaws) (headLaws : h.ResponseHeadLaws)
    (written : h.WrittenResponseLaws) (slotLaws : h.ResponseSlotLaws) (x : ResponseHop h)
    {self : BackendReader} (hbefore : x.Before self)
    (hslots : x.fields.length ≤ self.parseSlots.slotCount) {maxHead : Nat}
    (hmax : x.head.length ≤ maxHead) (allowBody : Bool) (maxLine : Nat) :
    (100 ≤ x.backend.res.code → ∃ reader out,
      self.read h allowBody maxHead maxLine = .ok (.final ⟨x.onward, reader⟩) ∧
      NormalizedResponseStream.new (.final ⟨x.onward, reader⟩) = .ok (.final out)) ∧
    (x.backend.res.code < 100 → ∀ stream,
      self.read h allowBody maxHead maxLine ≠ .ok stream) := by
  obtain ⟨rest, hunread⟩ := hbefore.unread
  constructor
  · intro hcode
    obtain ⟨received, hframing, hempty, hinfo, hsent⟩ := x.framing_eq
    obtain ⟨-, hsame⟩ := x.fields_valid laws headLaws
    obtain ⟨again, hagain, hnone, -⟩ := x.onward_framing hframing hsent hsame
    obtain ⟨r, hhead, -⟩ := BackendReader.head_eq laws headLaws
      (x.isHead_sent laws headLaws written hcode hslots) hmax hunread
    have hpass : BackendReader.Passes x.onward again := by
      refine ⟨hagain, ?_, ?_, ?_⟩
      · rintro ⟨h204, hframed⟩
        rw [hnone (hempty h204) h204] at hframed
        cases hframed
      · rintro ⟨hsome, -⟩
        have hinfo' : x.onward.isInformational = none := hinfo
        rw [hinfo'] at hsome
        cases hsome
      · rintro ⟨hversion, -⟩
        cases hversion
    have hopen : ∀ f ∈ x.onward.headers.headers, eqIgnoreCase (ascii "connection") f.1 = false :=
      x.fields_not_connection
    have hread : self.read h allowBody maxHead maxLine = .ok (.final ⟨x.onward,
        BackendReader.bodyReader r self.parseSlots maxHead maxLine
          (allowBody && !neverHasBody x.onward.code) true again⟩) := by
      rw [BackendReader.read, hhead]
      dsimp only
      rw [Polled.bind_ok, BackendReader.responseOf_final_eq hpass hinfo
        (connectionIsPersistent_of_none hopen)]
      rfl
    have hnoTokens := getConnectionTokens_of_none hopen
    have htokens : getConnectionTokens x.onward.headers = .ok (listedOptions x.onward.headers) := by
      rw [← getConnectionTokens_ok hnoTokens]
      exact hnoTokens
    exact ⟨_, _, hread, new_of_tokens htokens⟩
  · intro hcode stream hread
    obtain ⟨head, r, res, hfound, hhead, -⟩ := BackendReader.read_answered laws headLaws hread
    obtain ⟨p, version, hp, -⟩ := hhead.parts laws
    have hwhole := (headLaws.parser self.parseSlots.slotCount).complete_append hp r.unread
    obtain ⟨a, b, c, s, hshort, hdigit⟩ := x.head_of_short hcode
    rw [← hfound, hunread, hshort, List.append_assoc] at hwhole
    obtain ⟨-, hb, hc⟩ := slotLaws.digits hwhole
    rw [hb, hc] at hdigit
    rcases hdigit with hdigit | hdigit
    · cases hdigit
    · cases hdigit

/-- The final response, if one was read. -/
def finalOf : Polled BackendError ResponseStream → Option BackendResponse
  | .ok (.final backend) => some backend
  | _ => none

theorem eq_of_finalOf {x : Polled BackendError ResponseStream} (hsome : (finalOf x).isSome = true) :
    x = .ok (.final ((finalOf x).get hsome)) := by
  rcases x with _ | (backend | ⟨res, reader⟩) | e | _
  · cases hsome
  · rfl
  · cases hsome
  · cases hsome
  · cases hsome

/-- The hop of a response that is read off this reader and sent to this client. -/
def ResponseHop.ofReader (reader : BackendReader) (pending : PendingFrontendResponse)
    (requestBodyForwarder : RequestBodyForwarder h) (now : Bytes) (backend : BackendResponse)
    (hread : reader.read h (!pending.clientOptions.isHead) pending.options.maxBackendHeadLength
      pending.options.maxChunkHeaderLength = .ok (.final backend))
    (htokens : getConnectionTokens backend.res.headers = .ok (listedOptions backend.res.headers))
    (hsent : ((BackendFinalProxyResponseForwarder.mk requestBodyForwarder pending
      ⟨{ backend with res := strippedResponse backend.res }, backend.res⟩).forwardResponseHead
        now).1.isOk = true)
    (hvalid : isValidFieldValue now = true) (htrimmed : Trimmed now) : ResponseHop h where
  backendReader := reader
  forwarder := ⟨requestBodyForwarder, pending,
    ⟨{ backend with res := strippedResponse backend.res }, backend.res⟩⟩
  backend := backend
  now := now
  exchanger := _
  sink := _
  read := hread
  new := new_of_tokens htokens
  sent := eq_get hsent
  nowValid := hvalid
  nowTrimmed := htrimmed

/-- A request body that is done with. -/
def doneForwarder : RequestBodyForwarder reference :=
  .new reference 8 (.bodyless ⟨.new ⟨[]⟩, ⟨4⟩⟩ true) (.bodyless .mk) ⟨[], []⟩

/-- A response of HTTP/1.0 that ends with its connection, with an option that names a field. -/
def originReader : BackendReader :=
  ⟨⟨⟨[.data 72 (ascii "TTP/1.0 200 OK\r\nConnection: x\r"), .pending,
    .data 10 (ascii "X: 1\r\nETag: a\r\n\r\nWiki")]⟩, .default⟩, ⟨4⟩⟩

def originPending : PendingFrontendResponse :=
  ⟨⟨⟨ascii "PUT", [.accept 3, .pending]⟩⟩, .default, ⟨false, .http11⟩⟩

def originFinal : Option BackendResponse := finalOf (originReader.read reference
  (!originPending.clientOptions.isHead) originPending.options.maxBackendHeadLength
  originPending.options.maxChunkHeaderLength)

theorem originFinal_isSome : originFinal.isSome = true := by decide +kernel

def originHop : ResponseHop reference :=
  .ofReader originReader originPending doneForwarder (ascii "now") (originFinal.get originFinal_isSome)
    (eq_of_finalOf originFinal_isSome) (by decide +kernel) (by decide +kernel) (by decide +kernel)
    (by decide +kernel)

/-- A reader that is sent what goes to its client, byte after byte. -/
def nearReader : BackendReader :=
  ⟨⟨⟨(originHop.sink.wire.drop 3).map fun b => .data b []⟩, .default⟩, ⟨4⟩⟩

theorem originHop_before : originHop.Before nearReader := ⟨[], by decide +kernel⟩

theorem nextHop_receives_origin :
    (100 ≤ originHop.backend.res.code → ∃ reader out,
      nearReader.read reference true 256 64 = .ok (.final ⟨originHop.onward, reader⟩) ∧
      NormalizedResponseStream.new (.final ⟨originHop.onward, reader⟩) = .ok (.final out)) ∧
    (originHop.backend.res.code < 100 → ∀ stream,
      nearReader.read reference true 256 64 ≠ .ok stream) :=
  nextHop_receives responseLaws responseHeadLaws writtenResponseLaws responseSlotLaws originHop
    originHop_before (by decide +kernel) (by decide +kernel) true 64

/-! ## A way back -/

/-- What was sent to the client is what the next hop reads, which asked for it. -/
structure ResponseHop.Leads (x y : ResponseHop h) : Prop where
  before : x.Before y.backendReader
  client : x.pending.clientOptions = ⟨y.isHead, .http11⟩

/-- A response goes back from hop to hop; between the first and the last these entries in
    `Via` are added. -/
inductive ReturnRoute : ResponseHop h → List Field → ResponseHop h → Prop where
  | first {x z : ResponseHop h} (leads : x.Leads z) : ReturnRoute x [] z
  | next {x y z : ResponseHop h} {vias : List Field} (way : ReturnRoute x vias y)
      (leads : y.Leads z) : ReturnRoute x (vias ++ [y.via]) z

namespace ResponseHop

/-- It was asked with the method that it is asked with, and by a client that reads chunks. -/
theorem Leads.client_eq {x y : ResponseHop h} (hleads : x.Leads y) :
    x.isHead = y.isHead ∧ x.clientCannotChunk = false := by
  rw [isHead, clientCannotChunk, hleads.client]
  exact ⟨rfl, rfl⟩

section Returning

variable (laws : h.ResponseLaws) (headLaws : h.ResponseHeadLaws)
  (written : h.WrittenResponseLaws) (slotLaws : h.ResponseSlotLaws)
include laws headLaws written slotLaws

/-- The next hop has the response as it was sent, and a slot for each of its fields. -/
theorem Leads.received {x y : ResponseHop h} (hleads : x.Leads y)
    (hcode : 100 ≤ x.backend.res.code) : y.backend.res = x.onward ∧
      x.fields.length ≤ y.backendReader.parseSlots.slotCount := by
  obtain ⟨rest, hunread⟩ := hleads.before.unread
  obtain ⟨head, rest', hfound, hhead, -⟩ := y.received laws headLaws
  -- with slots for the fields of both, both are the head in front of the stream
  have hmore := Backend.IsHead.more laws slotLaws hhead x.fields.length
  have hsent : Backend.IsHead h ⟨y.backendReader.parseSlots.slotCount + x.fields.length⟩ x.head
      x.onward := x.isHead_sent laws headLaws written hcode (Nat.le_add_left _ _)
  obtain ⟨-, hsame⟩ := hmore.unique laws headLaws hsent (hfound.symm.trans hunread)
  refine ⟨hsame, ?_⟩
  obtain ⟨p, version, hp, -, -, hres⟩ := hhead.parts laws
  have hfields : x.fields = p.headers.map Httparse.Header.field := by
    have hheaders := congrArg (fun res => res.headers.headers) (hsame.symm.trans hres)
    exact hheaders
  rw [hfields, List.length_map]
  exact (laws.length_le hp).2

omit laws headLaws written slotLaws in
/-- A date is among what is sent, whether it was added or not. -/
theorem date_sent (x : ResponseHop h) :
    Headers.getHeader ⟨x.kept ++ x.via :: x.date⟩ (ascii "date") ≠ [] := by
  rw [Headers.getHeader, List.filter_append]
  intro hnil
  obtain ⟨hkept, hadded⟩ := List.append_eq_nil_iff.mp hnil
  have hnone : Headers.getHeader ⟨x.kept⟩ (ascii "date") = [] := hkept
  rw [date, if_pos hnone] at hadded
  cases hadded

/-- The next hop keeps all that was sent but the framing, and frames its body in the same way
    unless its own client cannot read chunks. -/
theorem Leads.next {x y : ResponseHop h} (hleads : x.Leads y) (hcode : 100 ≤ x.backend.res.code) :
    y.backend.res.code = x.backend.res.code ∧ y.backend.res.reason = x.backend.res.reason ∧
      y.kept = x.kept ++ x.via :: x.date ∧ y.date = [] ∧
      y.framing = toClient y.clientCannotChunk x.framing ∧
      x.fields.length ≤ y.backendReader.parseSlots.slotCount := by
  obtain ⟨hres, hslots⟩ := hleads.received laws headLaws written slotLaws hcode
  obtain ⟨received, hframing, -, -, hsent⟩ := x.framing_eq
  obtain ⟨-, hsame⟩ := x.fields_valid laws headLaws
  obtain ⟨again, hagain, -, hparsed⟩ := x.onward_framing hframing hsent hsame
  obtain ⟨received', hframing', -, -, hsent'⟩ := y.framing_eq
  obtain ⟨hhead, hchunks⟩ := hleads.client_eq
  have hcode' : y.backend.res.code = x.backend.res.code := by rw [hres]; rfl
  obtain rfl : received' = again := by
    rw [hres] at hframing'
    exact Except.ok.inj (hframing'.symm.trans hagain)
  rw [hchunks] at hsent
  rw [hcode', ← hhead] at hsent'
  rw [hsent] at hparsed
  have hagain' : sentFraming y.clientCannotChunk x.isHead x.backend.res.code received' = _ :=
    sentFraming_again hparsed
  have hpreserves : y.framing.preservesFraming = x.framing.preservesFraming := by
    rw [hsent, hsent', sentFraming_preserves, sentFraming_preserves]
  have hkept : y.kept = x.kept ++ x.via :: x.date := by
    have hoptions : listedOptions y.backend.res.headers = [] := by
      rw [hres]
      exact (getConnectionTokens_ok (getConnectionTokens_of_none x.fields_not_connection)).symm
    have hstays : ∀ f ∈ x.kept ++ x.via :: x.date,
        ((x.framing.preservesFraming || !isFramingHeader f.1) && !isHopByHop f.1 []) = true := by
      intro f hf
      rcases List.mem_append.mp hf with hf | hf
      · rw [(List.mem_filter.mp hf).2, isHopByHop, x.kept_not_standard hf]
        rfl
      · obtain ⟨hframed, hstandard⟩ := x.added_endToEnd hf
        rw [hframed, isHopByHop, hstandard, Bool.not_false, Bool.or_true]
        rfl
    have hgoes : ∀ f ∈ framingFields x.framing,
        ¬ ((x.framing.preservesFraming || !isFramingHeader f.1) && !isHopByHop f.1 []) = true := by
      intro f hf
      have hframed : isFramingHeader f.1 = true := by
        rcases name_of_framingFields hf with hname | hname
        · rw [hname]
          decide
        · rw [hname]
          decide
      cases hpasses : x.framing.preservesFraming with
      | true =>
        rw [framingFields_of_preserves hpasses] at hf
        cases hf
      | false =>
        rw [hframed]
        exact Bool.false_ne_true
    rw [kept, hpreserves, strippedResponse, hoptions, hres, stripHopByHopHeaders, Headers.retain,
      List.filter_filter]
    show List.filter _ (x.kept ++ x.via :: x.date ++ framingFields x.framing) = _
    rw [List.filter_append, List.filter_eq_self.mpr hstays, List.filter_eq_nil_iff.mpr hgoes,
      List.append_nil]
  refine ⟨hcode', by rw [hres]; rfl, hkept, ?_, ?_, hslots⟩
  · rw [date, hkept, if_neg x.date_sent]
  · rw [hsent', hsent]
    exact hagain'

end Returning

/-- What reaches the end of a way of this many entries in `Via`: the status, the fields that
    the first hop sent, the entries that were added and one more; and the framing that the
    first hop sent, as the last client reads it. -/
structure OnlyVia (x z : ResponseHop h) (vias : List Field) : Prop where
  head : z.head = responseHead x.backend.res.code x.backend.res.reason
    (x.kept ++ x.via :: x.date ++ vias ++ z.via ::
      framingFields (toClient z.clientCannotChunk x.framing))
  slots : x.kept.length + 1 + x.date.length + vias.length ≤ z.backendReader.parseSlots.slotCount

end ResponseHop

/-- However many hops a response takes back to its client, each adds its entry in `Via` and the
    first a `Date` if there is none; everything else is as the first hop received it, and the
    body is framed as the first hop framed it, or ends with the connection where it was chunked
    and the client cannot read chunks. -/
theorem return_onlyVia (laws : h.ResponseLaws) (headLaws : h.ResponseHeadLaws)
    (written : h.WrittenResponseLaws) (slotLaws : h.ResponseSlotLaws) {x z : ResponseHop h}
    {vias : List Field} (hroute : ReturnRoute x vias z) (hcode : 100 ≤ x.backend.res.code) :
    ResponseHop.OnlyVia x z vias := by
  have hparts : z.backend.res.code = x.backend.res.code ∧
      z.backend.res.reason = x.backend.res.reason ∧ z.kept = x.kept ++ x.via :: x.date ++ vias ∧
      z.date = [] ∧ z.framing = ResponseHop.toClient z.clientCannotChunk x.framing ∧
      x.kept.length + 1 + x.date.length + vias.length ≤ z.backendReader.parseSlots.slotCount := by
    induction hroute with
    | first leads =>
      obtain ⟨hcode', hreason, hkept, hdate, hframing, hslots⟩ :=
        leads.next laws headLaws written slotLaws hcode
      refine ⟨hcode', hreason, hkept.trans (List.append_nil _).symm, hdate, hframing, ?_⟩
      simp only [ResponseHop.fields, List.length_append, List.length_cons] at hslots
      simp only [List.length_nil]
      omega
    | next way leads ih =>
      obtain ⟨hcode', hreason, hkept, hdate, hframing, -⟩ := ih
      obtain ⟨hcode'', hreason', hkept', hdate', hframing', hslots⟩ :=
        leads.next laws headLaws written slotLaws (by rw [hcode']; exact hcode)
      rw [hdate] at hkept'
      refine ⟨hcode''.trans hcode', hreason'.trans hreason, ?_, hdate', ?_, ?_⟩
      · rw [hkept', hkept, List.append_assoc]
      -- the hop in between frames the body as the first did, since its client reads chunks
      · rw [hframing', hframing, leads.client_eq.2, ResponseHop.toClient_false]
      · simp only [ResponseHop.fields, hkept, List.length_append, List.length_cons] at hslots
        simp only [List.length_append, List.length_cons, List.length_nil]
        omega
  obtain ⟨hcode', hreason, hkept, hdate, hframing, hslots⟩ := hparts
  constructor
  · rw [ResponseHop.head, ResponseHop.fields, hcode', hreason, hkept, hdate, hframing]
    simp only [List.append_assoc, List.cons_append, List.nil_append]
  · exact hslots

def nearPending : PendingFrontendResponse := ⟨⟨⟨[], [.pending]⟩⟩, .default, ⟨false, .http10⟩⟩

def nearFinal : Option BackendResponse := finalOf (nearReader.read reference
  (!nearPending.clientOptions.isHead) nearPending.options.maxBackendHeadLength
  nearPending.options.maxChunkHeaderLength)

theorem nearFinal_isSome : nearFinal.isSome = true := by decide +kernel

/-- It is sent to a client that cannot read chunks. -/
def nearHop : ResponseHop reference :=
  .ofReader nearReader nearPending doneForwarder (ascii "then") (nearFinal.get nearFinal_isSome)
    (eq_of_finalOf nearFinal_isSome) (by decide +kernel) (by decide +kernel) (by decide +kernel)
    (by decide +kernel)

theorem return_onlyVia_near : ResponseHop.OnlyVia originHop nearHop [] :=
  return_onlyVia responseLaws responseHeadLaws writtenResponseLaws responseSlotLaws
    (.first ⟨originHop_before, rfl⟩) (by decide +kernel)

end Jrpxy.Proxy
