/-
  Jrpxy.Backend.Reader

  Reading responses from a backend.
-/
import Jrpxy.HttpMessage.ReadHead
import Jrpxy.Body.Reader.Unifier

namespace Jrpxy.Backend

open Poll PullStream Incremental Ascii Util HttpMessage Body Body.Reader

/-- Possible errors from interacting with backends. -/
inductive BackendError where
  | writeError (e : IoError)
  | bodyWriteError (e : BodyError)
  | readError (e : IoError)
  | bodyReadError (e : BodyError)
  | firstReadEOF
  | unexpectedEOF
  | httpResponseParseError (e : MessageError)
  | headerError (e : HeaderError)
  | invalidConnectionHeader (e : ConnectionTokenParserError)
  | httpSwitchingProtocolsUnsupported
  | httpProcessingUnsupported
  | maxHeadLenExceeded (len max : Nat)
  | framingHeadersOnInformationalResponse
  | framingHeadersOn204NoContentResponse
  | transferEncodingOnHttp10Server
  deriving DecidableEq, Repr

/-- A connection from which responses are read. -/
abbrev BackendReader := ConnectionReader

/-- A response body; one framing of it ends with the connection. -/
abbrev BackendBodyReader := BodyReader EofBodyReader

def headErrors : HeadErrors BackendError where
  parseError := .httpResponseParseError
  readError := .readError
  maxHeadLenExceeded := .maxHeadLenExceeded
  firstReadEOF := .firstReadEOF
  unexpectedEOF := .unexpectedEOF

/-- A response, and the reader of its body. -/
structure BackendResponse where
  res : Response
  reader : BackendBodyReader
  deriving DecidableEq, Repr

/-- A connection in the middle of a response, behind an informational one. -/
structure BackendStreamReader where
  allowBody : Bool
  maxHeadLength : Nat
  maxChunkHeaderLength : Nat
  reader : BackendReader
  deriving DecidableEq, Repr

inductive ResponseStream where
  | final (res : BackendResponse)
  | informational (res : Response) (reader : BackendStreamReader)
  deriving DecidableEq, Repr

/-- The response, final or not. -/
def ResponseStream.res : ResponseStream → Response
  | .final r => r.res
  | .informational res _ => res

/-- The status codes whose responses have no body. -/
def neverHasBody (code : Nat) : Bool := (100 ≤ code && code ≤ 199) || code == 204 || code == 304

namespace BackendReader

/-- Create a new reader with a maximum number of headers. -/
def new (io : Source) (maxHeaders : Nat) : BackendReader := ⟨.new io, ⟨maxHeaders⟩⟩

/-- Wait for the full backend head to be available. -/
def head (h : Httparse) (self : BackendReader) (maxHeadLength : Nat) :
    Polled BackendError Response × BytesReader :=
  readHead headErrors (self.parseSlots.parseResponse h) maxHeadLength self.reader

/-- The body reader of a final response. -/
def bodyReader (reader : BytesReader) (parseSlots : ParseSlots)
    (maxHeadLength maxChunkHeaderLength : Nat) (expectBody recyclable : Bool)
    (framing : ParsedFraming) : BackendBodyReader :=
  let isNoFraming := framing.isNoFraming
  if !expectBody then .bodyless ⟨reader, parseSlots⟩ recyclable
  else if isNoFraming && expectBody then
    -- the body is terminated by connection close
    .eof (.new reader parseSlots)
  else .ofFraming reader parseSlots maxChunkHeaderLength maxHeadLength recyclable framing

/-- What a read response comes to, once its head is parsed. -/
def responseOf (res : Response) (reader : BytesReader) (parseSlots : ParseSlots)
    (allowBody : Bool) (maxHeadLength maxChunkHeaderLength : Nat) :
    Except BackendError ResponseStream := do
  let framing ← res.framing.mapError .headerError
  if res.code = 204 ∧ !framing.isNoFraming then
    .error .framingHeadersOn204NoContentResponse
  else if res.isInformational.isSome ∧ !framing.isNoFraming then
    .error .framingHeadersOnInformationalResponse
  else if res.version = .http10 ∧ res.headers.getHeader (ascii "transfer-encoding") ≠ [] then
    .error .transferEncodingOnHttp10Server
  else
    let expectBody := allowBody && !neverHasBody res.code
    match res.isInformational with
    | some 101 => .error .httpSwitchingProtocolsUnsupported
    | some 102 => .error .httpProcessingUnsupported
    | some _ =>
      return .informational res ⟨allowBody, maxHeadLength, maxChunkHeaderLength,
        ⟨reader, parseSlots⟩⟩
    | none =>
      let recyclable ← (res.headers.connectionIsPersistent res.version).mapError
        .invalidConnectionHeader
      return .final ⟨res, bodyReader reader parseSlots maxHeadLength maxChunkHeaderLength
        expectBody recyclable framing⟩

/-- Read a response; without `allowBody` it has no body whatever its headers say. -/
def read (h : Httparse) (self : BackendReader) (allowBody : Bool)
    (maxHeadLength maxChunkHeaderLength : Nat) : Polled BackendError ResponseStream :=
  let (answer, reader) := self.head h maxHeadLength
  answer.bind fun res =>
    .ofExcept (responseOf res reader self.parseSlots allowBody maxHeadLength maxChunkHeaderLength)

end BackendReader

/-- Read on behind an informational response. -/
def BackendStreamReader.read (h : Httparse) (self : BackendStreamReader) :
    Polled BackendError ResponseStream :=
  BackendReader.read h self.reader self.allowBody self.maxHeadLength self.maxChunkHeaderLength

namespace BackendBodyReader

variable (h : Httparse)

/-- Read up to `maxLen` bytes from the body; `none` when it is complete. -/
def read (maxLen : Nat) (self : BackendBodyReader) :
    Polled BackendError (Option Bytes) × BackendBodyReader :=
  BodyReader.read h EofBodyReader.puller .bodyReadError maxLen self

/-- Drain the body, discarding any trailers. -/
def drain (self : BackendBodyReader) : Polled BackendError (Option BackendReader) :=
  BodyReader.drain h .bodyReadError self

end BackendBodyReader

/-! ## What is made of a head -/

namespace BackendReader

variable {res : Response} {reader : BytesReader} {parseSlots : ParseSlots} {allowBody : Bool}
  {maxHeadLength maxChunkHeaderLength : Nat}

/-- The checks that a head passes before a response is made of it. -/
structure Passes (res : Response) (framing : ParsedFraming) : Prop where
  framed : res.framing = .ok framing
  noContent : ¬ (res.code = 204 ∧ !framing.isNoFraming)
  unframed : ¬ (res.isInformational.isSome ∧ !framing.isNoFraming)
  coding : ¬ (res.version = .http10 ∧ res.headers.getHeader (ascii "transfer-encoding") ≠ [])

theorem eq_noFraming_of_isNoFraming {framing : ParsedFraming} (h : framing.isNoFraming = true) :
    framing = .noFraming := by
  cases framing with
  | noFraming => rfl
  | length n => cases h
  | chunked => cases h

/-- A 204 response that passes has no framing. -/
theorem Passes.noFraming_of_noContent {framing : ParsedFraming} (h : Passes res framing)
    (hcode : res.code = 204) : framing = .noFraming := by
  apply eq_noFraming_of_isNoFraming
  simpa [hcode] using h.noContent

/-- An informational response that passes has no framing. -/
theorem Passes.noFraming_of_informational {framing : ParsedFraming} (h : Passes res framing)
    {code : Nat} (hinfo : res.isInformational = some code) : framing = .noFraming := by
  apply eq_noFraming_of_isNoFraming
  simpa [hinfo] using h.unframed

/-- A final head that passes comes with its body reader. -/
theorem responseOf_final_eq {framing : ParsedFraming} (hpass : Passes res framing)
    (hinfo : res.isInformational = none) {recyclable : Bool}
    (hpers : res.headers.connectionIsPersistent res.version = .ok recyclable) :
    responseOf res reader parseSlots allowBody maxHeadLength maxChunkHeaderLength =
      .ok (.final ⟨res, bodyReader reader parseSlots maxHeadLength maxChunkHeaderLength
        (allowBody && !neverHasBody res.code) recyclable framing⟩) := by
  rw [responseOf, hpass.framed]
  simp only [mapError_ok, bind, Except.bind]
  rw [if_neg hpass.noContent, if_neg hpass.unframed, if_neg hpass.coding, hinfo, hpers]
  rfl

/-- An informational head that passes, of a code the proxy supports, comes with the
    connection behind it. -/
theorem responseOf_informational_eq {framing : ParsedFraming} (hpass : Passes res framing)
    {code : Nat} (hinfo : res.isInformational = some code) (h101 : code ≠ 101)
    (h102 : code ≠ 102) :
    responseOf res reader parseSlots allowBody maxHeadLength maxChunkHeaderLength =
      .ok (.informational res ⟨allowBody, maxHeadLength, maxChunkHeaderLength,
        ⟨reader, parseSlots⟩⟩) := by
  rw [responseOf, hpass.framed]
  simp only [mapError_ok, bind, Except.bind]
  rw [if_neg hpass.noContent, if_neg hpass.unframed, if_neg hpass.coding, hinfo]
  split
  · next heq => exact absurd (Option.some.inj heq) h101
  · next heq => exact absurd (Option.some.inj heq) h102
  · rfl
  · next heq => cases heq

/-- What is made of a head: it passes the checks, and is final or informational. -/
theorem responseOf_cases {stream : ResponseStream}
    (hok : responseOf res reader parseSlots allowBody maxHeadLength maxChunkHeaderLength =
      .ok stream) :
    ∃ framing, Passes res framing ∧
      ((res.isInformational = none ∧ ∃ recyclable,
          res.headers.connectionIsPersistent res.version = .ok recyclable ∧
          stream = .final ⟨res, bodyReader reader parseSlots maxHeadLength maxChunkHeaderLength
            (allowBody && !neverHasBody res.code) recyclable framing⟩) ∨
        ∃ code, res.isInformational = some code ∧
          stream = .informational res ⟨allowBody, maxHeadLength, maxChunkHeaderLength,
            ⟨reader, parseSlots⟩⟩) := by
  unfold responseOf at hok
  cases hframing : res.framing with
  | error e =>
    rw [hframing] at hok
    cases hok
  | ok framing =>
    rw [hframing] at hok
    simp only [mapError_ok, bind, Except.bind] at hok
    -- the three checks in the order in which they are made
    split at hok
    · cases hok
    next h204 =>
    split at hok
    · cases hok
    next hunframed =>
    split at hok
    · cases hok
    next hcoding =>
    refine ⟨framing, ⟨hframing, h204, hunframed, hcoding⟩, ?_⟩
    cases hinfo : res.isInformational with
    | none =>
      rw [hinfo] at hok
      cases hpers : res.headers.connectionIsPersistent res.version with
      | error e =>
        rw [hpers] at hok
        cases hok
      | ok recyclable =>
        rw [hpers] at hok
        cases hok
        exact .inl ⟨rfl, recyclable, rfl, rfl⟩
    | some code =>
      rw [hinfo] at hok
      split at hok
      · cases hok
      · cases hok
      · cases hok
        exact .inr ⟨code, rfl, rfl⟩
      · next heq => cases heq

end BackendReader

/-- Which bodies a final response that was read can have: the decision table of `read`. -/
theorem read_final {h : Httparse} {self : BackendReader} {allowBody : Bool}
    {maxHead maxLine : Nat} {out : BackendResponse}
    (hread : BackendReader.read h self allowBody maxHead maxLine = .ok (.final out)) :
    out.res.isInformational = none ∧
    ∃ (reader : BytesReader) (recyclable : Bool) (framing : ParsedFraming),
      out.res.framing = .ok framing ∧
      out.res.headers.connectionIsPersistent out.res.version = .ok recyclable ∧
      (out.res.code = 204 → framing = .noFraming) ∧
      out.reader = BackendReader.bodyReader reader self.parseSlots maxHead maxLine
        (allowBody && !neverHasBody out.res.code) recyclable framing := by
  obtain ⟨res, hhead, hof⟩ := Polled.bind_eq_ok.mp hread
  obtain ⟨framing, hpass, ⟨hinfo, recyclable, hpers, heq⟩ | ⟨code, -, heq⟩⟩ :=
    BackendReader.responseOf_cases (Polled.ofExcept_eq_ok.mp hof)
  · cases heq
    exact ⟨hinfo, _, recyclable, framing, hpass.framed, hpers, hpass.noFraming_of_noContent, rfl⟩
  · cases heq

end Jrpxy.Backend
