/-
  Jrpxy.Frontend.Reader

  Reading requests from a client.
-/
import Jrpxy.HttpMessage.ReadHead
import Jrpxy.Body.Reader.Unifier

namespace Jrpxy.Frontend

open Poll PullStream Incremental Ascii Util HttpMessage Body Body.Reader

/-- Possible errors from interacting with frontends. -/
inductive FrontendError where
  | writeError (e : IoError)
  | bodyWriteError (e : BodyError)
  | readError (e : IoError)
  | bodyReadError (e : BodyError)
  | firstReadEOF
  | unexpectedEOF
  | httpRequestParseError (e : MessageError)
  | headerError (e : HeaderError)
  | invalidConnectionHeader (e : ConnectionTokenParserError)
  | maxHeadLenExceeded (len max : Nat)
  | transferEncodingOnHttp10
  deriving DecidableEq, Repr

/-- A connection from which requests are read. -/
abbrev FrontendReader := ConnectionReader

/-- A request body: no framing of it ends with the connection. -/
abbrev FrontendBodyReader := BodyReader Empty

def headErrors : HeadErrors FrontendError where
  parseError := .httpRequestParseError
  readError := .readError
  maxHeadLenExceeded := .maxHeadLenExceeded
  firstReadEOF := .firstReadEOF
  unexpectedEOF := .unexpectedEOF

/-- A request, and the reader of its body. -/
structure FrontendRequest where
  req : Request
  reader : FrontendBodyReader
  deriving DecidableEq, Repr

namespace FrontendReader

/-- Create a new reader with a maximum number of headers. -/
def new (io : Source) (maxHeaders : Nat) : FrontendReader := ⟨.new io, ⟨maxHeaders⟩⟩

/-- Wait for the full frontend head to be available. -/
def head (h : Httparse) (self : FrontendReader) (maxHeadLength : Nat) :
    Polled FrontendError Request × BytesReader :=
  readHead headErrors (self.parseSlots.parseRequest h) maxHeadLength self.reader

/-- What a read request comes to, once its head is parsed. -/
def requestOf (req : Request) (reader : BytesReader) (parseSlots : ParseSlots)
    (maxHeadLength maxChunkHeaderLength : Nat) : Except FrontendError FrontendRequest := do
  if req.version = .http10 ∧ req.headers.getHeader (ascii "transfer-encoding") ≠ [] then
    .error .transferEncodingOnHttp10
  else
    let recyclable ← (req.headers.connectionIsPersistent req.version).mapError
      .invalidConnectionHeader
    let framing ← req.framing.mapError .headerError
    return ⟨req, .ofFraming reader parseSlots maxChunkHeaderLength maxHeadLength recyclable
      framing⟩

/-- Read a request from the frontend. -/
def read (h : Httparse) (self : FrontendReader) (maxHeadLength maxChunkHeaderLength : Nat) :
    Polled FrontendError FrontendRequest :=
  let (answer, reader) := self.head h maxHeadLength
  answer.bind fun req =>
    .ofExcept (requestOf req reader self.parseSlots maxHeadLength maxChunkHeaderLength)

end FrontendReader

namespace FrontendBodyReader

variable (h : Httparse)

/-- Read up to `maxLen` bytes from the body; `none` when it is complete. -/
def read (maxLen : Nat) (self : FrontendBodyReader) :
    Polled FrontendError (Option Bytes) × FrontendBodyReader :=
  BodyReader.read h .absent .bodyReadError maxLen self

/-- Drain all remaining bytes from the body. -/
def drain (self : FrontendBodyReader) : Polled FrontendError (Option FrontendReader) :=
  BodyReader.drain h .bodyReadError self

/-- The body as a stream of reads. -/
def puller : Puller FrontendBodyReader FrontendError BodyEnd :=
  BodyReader.puller h .absent .bodyReadError

/-- Every poll pays off what it hands out. -/
theorem puller_lawful {h : Httparse} (hsize : h.ChunkSizeLaws) (hfields : h.FieldSectionLaws) :
    (puller h).Lawful 0 :=
  BodyReader.puller_lawful hsize hfields Puller.absent_lawful

end FrontendBodyReader

/-! ## A request that was read -/

variable {h : Httparse}

theorem parseRequest_patient (slots : ParseSlots) (laws : h.RequestLaws) :
    HeadParser.Patient (slots.parseRequest h) := by
  intro r r' heq
  rcases hp : h.parseRequest slots.slotCount r.asBytes with e | (_ | ⟨n, p⟩)
  · rw [ParseSlots.parseRequest_error hp] at heq
    cases heq
  · rw [ParseSlots.parseRequest_incomplete hp] at heq
    cases heq
    rfl
  · cases hv : HttpVersion.tryFrom p.version with
    | error v =>
      rw [ParseSlots.parseRequest_version hp hv] at heq
      cases heq
    | ok version =>
      obtain ⟨buf', hparse, -⟩ := ParseSlots.parseRequest_complete laws hp hv
      rw [hparse] at heq
      cases heq

/-- A method, a request-target and fields a request line and header section can carry. -/
structure WellFormed (h : Httparse) (req : Request) : Prop where
  method : isValidFieldName req.method = true
  path : h.IsTarget req.path
  headers : req.headers.Valid
  trimmed : ∀ f ∈ req.headers.headers, Trimmed f.2

/-- What the parser finds is well-formed. -/
theorem wellFormed_of_parseRequest (laws : h.RequestLaws) {slots : ParseSlots}
    {r r' : BytesReader} {req : Request} (hparse : slots.parseRequest h r = (.ok (some req), r')) :
    WellFormed h req := by
  obtain ⟨n, p, version, hp, -, rfl, -⟩ := ParseSlots.parseRequest_found laws hparse
  obtain ⟨hmethod, hpath, hfields⟩ := laws.sound hp
  refine ⟨hmethod, hpath, ?_, ?_⟩
  · intro f hf
    obtain ⟨x, hx, rfl⟩ := List.mem_map.mp hf
    exact ⟨(hfields x hx).1, (hfields x hx).2.1⟩
  · intro f hf
    obtain ⟨x, hx, rfl⟩ := List.mem_map.mp hf
    exact (hfields x hx).2.2

/-- What is made of a head that is accepted. -/
theorem FrontendReader.requestOf_ok {req : Request} {reader : BytesReader} {slots : ParseSlots}
    {maxHead maxLine : Nat} {out : FrontendRequest}
    (hof : requestOf req reader slots maxHead maxLine = .ok out) :
    out.req = req ∧ ∃ recyclable framing,
      req.headers.connectionIsPersistent req.version = .ok recyclable ∧
      req.framing = .ok framing ∧
      out.reader = .ofFraming reader slots maxLine maxHead recyclable framing := by
  unfold requestOf at hof
  split at hof
  · cases hof
  · cases hpers : req.headers.connectionIsPersistent req.version with
    | error e =>
      rw [hpers] at hof
      cases hof
    | ok recyclable =>
      cases hframing : req.framing with
      | error e =>
        rw [hpers, hframing] at hof
        cases hof
      | ok framing =>
        rw [hpers, hframing] at hof
        cases hof
        exact ⟨rfl, recyclable, framing, rfl, rfl, rfl⟩

/-- A request that is read comes of its head and of what is behind that. -/
theorem FrontendReader.read_steps {self : FrontendReader} {maxHead maxLine : Nat}
    {out : FrontendRequest} (hread : self.read h maxHead maxLine = .ok out) :
    ∃ r recyclable framing, self.head h maxHead = (.ok out.req, r) ∧
      out.req.headers.connectionIsPersistent out.req.version = .ok recyclable ∧
      out.req.framing = .ok framing ∧
      out.reader = .ofFraming r self.parseSlots maxLine maxHead recyclable framing := by
  unfold FrontendReader.read at hread
  rcases hhead : self.head h maxHead with ⟨answer, r⟩
  rw [hhead] at hread
  obtain ⟨req, rfl, hof⟩ := Polled.bind_eq_ok.mp hread
  obtain ⟨rfl, recyclable, framing, hparts⟩ := requestOf_ok (Polled.ofExcept_eq_ok.mp hof)
  exact ⟨r, recyclable, framing, rfl, hparts⟩

/-- A request that is read is well-formed, and what its body reader starts on is the
    framing its headers announce. -/
theorem read_ok (laws : h.RequestLaws) {self : FrontendReader} {maxHead maxLine : Nat}
    {out : FrontendRequest} (hread : self.read h maxHead maxLine = .ok out) :
    WellFormed h out.req ∧ ∃ (reader : BytesReader) (recyclable : Bool) (framing : ParsedFraming),
      out.req.framing = .ok framing ∧
      out.req.headers.connectionIsPersistent out.req.version = .ok recyclable ∧
      out.reader = .ofFraming reader self.parseSlots maxLine maxHead recyclable framing := by
  obtain ⟨reader, recyclable, framing, hhead, hpers, hframing, hreader⟩ :=
    FrontendReader.read_steps hread
  obtain ⟨r, -, hparse⟩ := readHead_ok (parseRequest_patient self.parseSlots laws) hhead
  exact ⟨wellFormed_of_parseRequest laws hparse, reader, recyclable, framing, hframing, hpers,
    hreader⟩

end Jrpxy.Frontend
