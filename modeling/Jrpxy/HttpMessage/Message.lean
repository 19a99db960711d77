/-
  Jrpxy.HttpMessage.Message

  Messages, and parsing them off a buffered reader.

  The third-party parser returns slices borrowed from the buffer.  The program
  turns each into a `Span` by pointer arithmetic (`Span.fromSubslice`, guarded
  by assertions), splits the head off the buffer and slices it again
  (`Span.sliceFrom`).  Both steps answer `none` where the program would panic,
  and a panic anywhere is the answer of the whole parse.
-/
import Jrpxy.Httparse
import Jrpxy.Util.IoBuffer

namespace Jrpxy.HttpMessage

open Poll Incremental Util

/-- Errors produced while parsing a message. -/
inductive MessageError where
  | parse (e : Httparse.Error)
  | httpVersion (version : UInt8)
  deriving DecidableEq, Repr

/-! ## Messages -/

structure Request where
  method : Bytes
  path : Bytes
  version : HttpVersion
  headers : Headers
  deriving DecidableEq, Repr

namespace Request

/-- Replace the path after validating it as origin-form. -/
def setOriginFormPath (req : Request) (path : Bytes) : Except OriginFormError Request := do
  validateOriginForm path
  return { req with path }

def framing (req : Request) : Except HeaderError ParsedFraming := req.headers.framing

/-- Remove the headers that satisfy `pred`: the removed ones and the request. -/
def removeHeaders (req : Request) (pred : Field → Bool) : Headers × Request :=
  let (removed, headers) := req.headers.remove pred
  (removed, { req with headers })

end Request

structure Response where
  version : HttpVersion
  code : Nat
  reason : Bytes
  headers : Headers
  deriving DecidableEq, Repr

namespace Response

def framing (res : Response) : Except HeaderError ParsedFraming := res.headers.framing

/-- `some 1xx` when the response is informational. -/
def isInformational (res : Response) : Option Nat :=
  if 100 ≤ res.code && res.code < 200 then some res.code else none

end Response

/-! ## Spans -/

/-- Where a slice lies in its buffer. -/
structure Span where
  offset : Nat
  len : Nat
  deriving DecidableEq, Repr

namespace Span

/-- The span of `sub` in `buf`; `none` when one of the assertions fails. -/
def fromSubslice (buf : Bytes) (sub : Httparse.Slice) : Option Span :=
  if 0 ≤ sub.start then
    if sub.start + sub.bytes.length ≤ buf.length then
      some ⟨sub.start.toNat, sub.bytes.length⟩
    else none
  else none

/-- The bytes of a span; `none` when it is out of range. -/
def sliceFrom (span : Span) (buf : Bytes) : Option Bytes :=
  if span.offset + span.len ≤ buf.length then some ((buf.drop span.offset).take span.len)
  else none

/-- A part of the first `n` bytes has a span in the buffer, and slicing these
    bytes by it gives the part back. -/
theorem fromSubslice_eq {buf : Bytes} {n : Nat} {sub : Httparse.Slice}
    (h : sub.Within (buf.take n)) :
    ∃ span, fromSubslice buf sub = some span ∧ span.sliceFrom (buf.take n) = some sub.bytes := by
  obtain ⟨hpos, hle, hbytes⟩ := h
  have hlen : (buf.take n).length ≤ buf.length := by
    rw [List.length_take]
    omega
  refine ⟨⟨sub.start.toNat, sub.bytes.length⟩, ?_, ?_⟩
  · rw [fromSubslice, if_pos hpos, if_pos (by omega)]
  · rw [sliceFrom, if_pos (by simp only; omega), ← hbytes]

/-- A slice outside the buffer fails an assertion. -/
theorem fromSubslice_eq_none {buf : Bytes} {sub : Httparse.Slice} (h : sub.Outside buf) :
    fromSubslice buf sub = none := by
  unfold fromSubslice
  rcases h with h | h
  · rw [if_neg (by omega)]
  · split
    · rw [if_neg (by omega)]
    · rfl

end Span

/-- The spans of one header. -/
structure HeaderOffset where
  name : Span
  value : Span
  deriving DecidableEq, Repr

/-- The spans of one parsed header. -/
def headerOffset (buf : Bytes) (i : Httparse.Header) : Option HeaderOffset := do
  let name ← Span.fromSubslice buf i.name
  let value ← Span.fromSubslice buf i.value
  return ⟨name, value⟩

/-- Populate the offsets from parsed headers; `none` also when the slots are too few. -/
def populateHeaderOffsets (slots : Nat) (buf : Bytes) (headers : List Httparse.Header) :
    Option (List HeaderOffset) :=
  if headers.length ≤ slots then headers.mapM (headerOffset buf) else none

/-- The field of one header, sliced from the head. -/
def sliceHeader (headBuf : Bytes) (h : HeaderOffset) : Option Field := do
  let name ← h.name.sliceFrom headBuf
  let value ← h.value.sliceFrom headBuf
  return (name, value)

def populateHeaders (offsets : List HeaderOffset) (headBuf : Bytes) : Option Headers := do
  let headers ← offsets.mapM (sliceHeader headBuf)
  return ⟨headers⟩

structure RequestOffset where
  method : Span
  path : Span
  version : HttpVersion
  headers : List HeaderOffset
  deriving DecidableEq, Repr

structure ResponseOffset where
  version : HttpVersion
  code : Nat
  reason : Span
  headers : List HeaderOffset
  deriving DecidableEq, Repr

/-- Parse a request head to offsets, with the length of the head. -/
def RequestOffset.parse (h : Httparse) (slots : Nat) (buf : Bytes) :
    Option (Except MessageError (Option (RequestOffset × Nat))) :=
  match h.parseRequest slots buf with
  | .ok .incomplete => some (.ok none)
  | .error e => some (.error (.parse e))
  | .ok (.complete (headLen, req)) =>
    match HttpVersion.tryFrom req.version with
    | .error v => some (.error (.httpVersion v))
    | .ok version => do
      let headers ← populateHeaderOffsets slots buf req.headers
      let method ← Span.fromSubslice buf req.method
      let path ← Span.fromSubslice buf req.path
      return .ok (some (⟨method, path, version, headers⟩, headLen))

/-- Parse a response head to offsets, with the length of the head. -/
def ResponseOffset.parse (h : Httparse) (slots : Nat) (buf : Bytes) :
    Option (Except MessageError (Option (ResponseOffset × Nat))) :=
  match h.parseResponse slots buf with
  | .ok .incomplete => some (.ok none)
  | .error e => some (.error (.parse e))
  | .ok (.complete (headLen, res)) =>
    match HttpVersion.tryFrom res.version with
    | .error v => some (.error (.httpVersion v))
    | .ok version => do
      let headers ← populateHeaderOffsets slots buf res.headers
      let reason ← Span.fromSubslice buf res.reason
      return .ok (some (⟨version, res.code, reason, headers⟩, headLen))

/-! ## Parsing off a reader -/

/-- Space for parsed headers: how many there are room for. -/
structure ParseSlots where
  slotCount : Nat
  deriving DecidableEq, Repr

namespace ParseSlots

/-- Slice the request out of the split-off head. -/
def sliceRequest (req : RequestOffset) (headBuf : Bytes) : Option Request := do
  let method ← req.method.sliceFrom headBuf
  let path ← req.path.sliceFrom headBuf
  let headers ← populateHeaders req.headers headBuf
  return ⟨method, path, req.version, headers⟩

/-- Slice the response out of the split-off head. -/
def sliceResponse (res : ResponseOffset) (headBuf : Bytes) : Option Response := do
  let reason ← res.reason.sliceFrom headBuf
  let headers ← populateHeaders res.headers headBuf
  return ⟨res.version, res.code, reason, headers⟩

/-- Split `len` bytes off the reader and slice a value out of them. -/
def splitAndSlice {α : Type} (buf : BytesReader) (len : Nat) (slice : Bytes → Option α) :
    Polled MessageError (Option α) × BytesReader :=
  match buf.splitTo len with
  | none => (.panic, buf)
  | some (headBuf, buf) =>
    match slice headBuf with
    | none => (.panic, buf)
    | some a => (.ok (some a), buf)

/-- Parse a request; `none` asks for more bytes. -/
def parseRequest (h : Httparse) (self : ParseSlots) (buf : BytesReader) :
    Polled MessageError (Option Request) × BytesReader :=
  match RequestOffset.parse h self.slotCount buf.asBytes with
  | none => (.panic, buf)
  | some (.error e) => (.err e, buf)
  | some (.ok none) => (.ok none, buf)
  | some (.ok (some (req, headLen))) => splitAndSlice buf headLen (sliceRequest req)

/-- Parse a response; `none` asks for more bytes. -/
def parseResponse (h : Httparse) (self : ParseSlots) (buf : BytesReader) :
    Polled MessageError (Option Response) × BytesReader :=
  match ResponseOffset.parse h self.slotCount buf.asBytes with
  | none => (.panic, buf)
  | some (.error e) => (.err e, buf)
  | some (.ok none) => (.ok none, buf)
  | some (.ok (some (res, headLen))) => splitAndSlice buf headLen (sliceResponse res)

/-- Parse a field section; `none` asks for more bytes. -/
def parseHeaders (h : Httparse) (self : ParseSlots) (buf : BytesReader) :
    Polled MessageError (Option Headers) × BytesReader :=
  match h.parseHeaders self.slotCount buf.asBytes with
  | .error e => (.err (.parse e), buf)
  | .ok .incomplete => (.ok none, buf)
  | .ok (.complete (len, headers)) =>
    match populateHeaderOffsets self.slotCount (buf.asBytes.take len) headers with
    | none => (.panic, buf)
    | some offsets => splitAndSlice buf len (populateHeaders offsets)

end ParseSlots

/-! ## Offsets and slicing undo each other -/

theorem headerOffset_eq {buf : Bytes} {n : Nat} {i : Httparse.Header}
    (h : i.Within (buf.take n)) :
    ∃ o, headerOffset buf i = some o ∧ sliceHeader (buf.take n) o = some i.field := by
  obtain ⟨name, hname, hname'⟩ := Span.fromSubslice_eq h.1
  obtain ⟨value, hvalue, hvalue'⟩ := Span.fromSubslice_eq h.2
  refine ⟨⟨name, value⟩, ?_, ?_⟩
  · rw [headerOffset, hname, hvalue]
    rfl
  · rw [sliceHeader, hname', hvalue']
    rfl

/-- Headers that are parts of the head survive the way through offsets. -/
theorem populate_eq {slots : Nat} {buf : Bytes} {n : Nat} {hs : List Httparse.Header}
    (hlen : hs.length ≤ slots) (h : ∀ x ∈ hs, x.Within (buf.take n)) :
    ∃ os, populateHeaderOffsets slots buf hs = some os ∧
      populateHeaders os (buf.take n) = some ⟨hs.map Httparse.Header.field⟩ := by
  have hmap : ∃ os, hs.mapM (headerOffset buf) = some os ∧
      os.mapM (sliceHeader (buf.take n)) = some (hs.map Httparse.Header.field) := by
    clear hlen
    induction hs with
    | nil => exact ⟨[], rfl, rfl⟩
    | cons x xs ih =>
      obtain ⟨o, ho, ho'⟩ := headerOffset_eq (h x List.mem_cons_self)
      obtain ⟨os, hos, hos'⟩ := ih fun y hy => h y (List.mem_cons_of_mem x hy)
      refine ⟨o :: os, ?_, ?_⟩
      · rw [List.mapM_cons, ho, hos]
        rfl
      · rw [List.mapM_cons, ho', hos']
        rfl
  obtain ⟨os, hos, hos'⟩ := hmap
  refine ⟨os, ?_, ?_⟩
  · rw [populateHeaderOffsets, if_pos hlen, hos]
  · rw [populateHeaders, hos']
    rfl

namespace ParseSlots

/-- Splitting off a head that was parsed from the buffer. -/
theorem splitAndSlice_eq {α : Type} {buf : BytesReader} {len : Nat} {slice : Bytes → Option α}
    {a : α} (hlen : len ≤ buf.len) (hslice : slice (buf.asBytes.take len) = some a) :
    ∃ buf', splitAndSlice buf len slice = (.ok (some a), buf') ∧
      buf.splitTo len = some (buf.asBytes.take len, buf') := by
  obtain ⟨buf', hsplit, -, -⟩ := BytesReader.splitTo_eq hlen
  refine ⟨buf', ?_, hsplit⟩
  simp only [splitAndSlice, hsplit, hslice]

variable {h : Httparse} {slots : ParseSlots} {buf : BytesReader}

/-! ### Field sections -/

theorem parseHeaders_error {e : Httparse.Error}
    (hp : h.parseHeaders slots.slotCount buf.asBytes = .error e) :
    slots.parseHeaders h buf = (.err (.parse e), buf) := by
  simp only [parseHeaders, hp]

theorem parseHeaders_incomplete
    (hp : h.parseHeaders slots.slotCount buf.asBytes = .ok .incomplete) :
    slots.parseHeaders h buf = (.ok none, buf) := by
  simp only [parseHeaders, hp]

/-- A complete field section is split off and its fields returned. -/
theorem parseHeaders_complete (laws : h.FieldSectionLaws) {n : Nat} {hs : List Httparse.Header}
    (hp : h.parseHeaders slots.slotCount buf.asBytes = .ok (.complete (n, hs))) :
    ∃ buf', slots.parseHeaders h buf = (.ok (some ⟨hs.map Httparse.Header.field⟩), buf') ∧
      buf.splitTo n = some (buf.asBytes.take n, buf') := by
  have hn := (laws.parser slots.slotCount).length_le hp
  rw [BytesReader.length_asBytes] at hn
  -- the offsets are taken from the section alone, not from the whole buffer
  obtain ⟨os, hos, hos'⟩ := @populate_eq _ (buf.asBytes.take n) n hs
    (laws.length_le hp) (by
      rw [List.take_take, Nat.min_self]
      exact laws.within hp)
  rw [List.take_take, Nat.min_self] at hos'
  obtain ⟨buf', heq, hsplit⟩ := splitAndSlice_eq hn hos'
  refine ⟨buf', ?_, hsplit⟩
  simp only [parseHeaders, hp, hos, heq]

/-! ### Request heads -/

theorem parseRequest_error {e : Httparse.Error}
    (hp : h.parseRequest slots.slotCount buf.asBytes = .error e) :
    slots.parseRequest h buf = (.err (.parse e), buf) := by
  simp only [parseRequest, RequestOffset.parse, hp]

theorem parseRequest_incomplete
    (hp : h.parseRequest slots.slotCount buf.asBytes = .ok .incomplete) :
    slots.parseRequest h buf = (.ok none, buf) := by
  simp only [parseRequest, RequestOffset.parse, hp]

theorem parseRequest_version {n : Nat} {p : Httparse.RequestParts} {v : UInt8}
    (hp : h.parseRequest slots.slotCount buf.asBytes = .ok (.complete (n, p)))
    (hv : HttpVersion.tryFrom p.version = .error v) :
    slots.parseRequest h buf = (.err (.httpVersion v), buf) := by
  simp only [parseRequest, RequestOffset.parse, hp, hv]

/-- A complete request head of a supported version is split off. -/
theorem parseRequest_complete (laws : h.RequestLaws) {n : Nat} {p : Httparse.RequestParts}
    {version : HttpVersion}
    (hp : h.parseRequest slots.slotCount buf.asBytes = .ok (.complete (n, p)))
    (hv : HttpVersion.tryFrom p.version = .ok version) :
    ∃ buf', slots.parseRequest h buf =
        (.ok (some ⟨p.method.bytes, p.path.bytes, version,
          ⟨p.headers.map Httparse.Header.field⟩⟩), buf') ∧
      buf.splitTo n = some (buf.asBytes.take n, buf') := by
  have hn := (laws.parser slots.slotCount).length_le hp
  rw [BytesReader.length_asBytes] at hn
  -- every slice of the parser is a part of the buffer, and comes back out of what is split off
  obtain ⟨hmethod, hpath, hheaders⟩ := laws.within hp
  obtain ⟨method, hm, hm'⟩ := Span.fromSubslice_eq hmethod
  obtain ⟨path, hpa, hpa'⟩ := Span.fromSubslice_eq hpath
  obtain ⟨os, hos, hos'⟩ := populate_eq (laws.length_le hp) hheaders
  have hparse : RequestOffset.parse h slots.slotCount buf.asBytes =
      some (.ok (some (⟨method, path, version, os⟩, n))) := by
    simp only [RequestOffset.parse, hp, hv, hos, hm, hpa]
    rfl
  have hslice : sliceRequest ⟨method, path, version, os⟩ (buf.asBytes.take n) =
      some ⟨p.method.bytes, p.path.bytes, version, ⟨p.headers.map Httparse.Header.field⟩⟩ := by
    simp only [sliceRequest, hm', hpa', hos']
    rfl
  obtain ⟨buf', heq, hsplit⟩ := splitAndSlice_eq hn hslice
  refine ⟨buf', ?_, hsplit⟩
  simp only [parseRequest, hparse, heq]

/-- A request that is returned was a complete head, and is split off. -/
theorem parseRequest_found (laws : h.RequestLaws) {req : Request} {buf' : BytesReader}
    (hok : slots.parseRequest h buf = (.ok (some req), buf')) :
    ∃ n p version, h.parseRequest slots.slotCount buf.asBytes = .ok (.complete (n, p)) ∧
      HttpVersion.tryFrom p.version = .ok version ∧
      req = ⟨p.method.bytes, p.path.bytes, version, ⟨p.headers.map Httparse.Header.field⟩⟩ ∧
      buf.splitTo n = some (buf.asBytes.take n, buf') := by
  rcases hp : h.parseRequest slots.slotCount buf.asBytes with e | (_ | ⟨n, p⟩)
  · rw [parseRequest_error hp] at hok
    cases hok
  · rw [parseRequest_incomplete hp] at hok
    cases hok
  · cases hv : HttpVersion.tryFrom p.version with
    | error v =>
      rw [parseRequest_version hp hv] at hok
      cases hok
    | ok version =>
      obtain ⟨_, heq, hsplit⟩ := parseRequest_complete laws hp hv
      rw [heq] at hok
      cases hok
      exact ⟨n, p, version, rfl, hv, rfl, hsplit⟩

/-! ### Response heads -/

/-- A complete response head of a supported version is split off when its
    reason phrase lies in it. -/
theorem parseResponse_complete (laws : h.ResponseLaws) {n : Nat} {p : Httparse.ResponseParts}
    {version : HttpVersion}
    (hp : h.parseResponse slots.slotCount buf.asBytes = .ok (.complete (n, p)))
    (hv : HttpVersion.tryFrom p.version = .ok version)
    (hreason : p.reason.Within (buf.asBytes.take n)) :
    ∃ buf', slots.parseResponse h buf =
        (.ok (some ⟨version, p.code, p.reason.bytes,
          ⟨p.headers.map Httparse.Header.field⟩⟩), buf') ∧
      buf.splitTo n = some (buf.asBytes.take n, buf') := by
  obtain ⟨hn, hlen⟩ := laws.length_le hp
  rw [BytesReader.length_asBytes] at hn
  obtain ⟨reason, hr, hr'⟩ := Span.fromSubslice_eq hreason
  obtain ⟨os, hos, hos'⟩ := populate_eq hlen (laws.within hp)
  have hparse : ResponseOffset.parse h slots.slotCount buf.asBytes =
      some (.ok (some (⟨version, p.code, reason, os⟩, n))) := by
    simp only [ResponseOffset.parse, hp, hv, hos, hr]
    rfl
  have hslice : sliceResponse ⟨version, p.code, reason, os⟩ (buf.asBytes.take n) =
      some ⟨version, p.code, p.reason.bytes, ⟨p.headers.map Httparse.Header.field⟩⟩ := by
    simp only [sliceResponse, hr', hos']
    rfl
  obtain ⟨buf', heq, hsplit⟩ := splitAndSlice_eq hn hslice
  refine ⟨buf', ?_, hsplit⟩
  simp only [parseResponse, hparse, heq]

theorem parseResponse_error {e : Httparse.Error}
    (hp : h.parseResponse slots.slotCount buf.asBytes = .error e) :
    slots.parseResponse h buf = (.err (.parse e), buf) := by
  simp only [parseResponse, ResponseOffset.parse, hp]

theorem parseResponse_incomplete
    (hp : h.parseResponse slots.slotCount buf.asBytes = .ok .incomplete) :
    slots.parseResponse h buf = (.ok none, buf) := by
  simp only [parseResponse, ResponseOffset.parse, hp]

theorem parseResponse_version {n : Nat} {p : Httparse.ResponseParts} {v : UInt8}
    (hp : h.parseResponse slots.slotCount buf.asBytes = .ok (.complete (n, p)))
    (hv : HttpVersion.tryFrom p.version = .error v) :
    slots.parseResponse h buf = (.err (.httpVersion v), buf) := by
  simp only [parseResponse, ResponseOffset.parse, hp, hv]

/-- A reason phrase outside the buffer fails an assertion of `Span::from_subslice`. -/
theorem parseResponse_panic (laws : h.ResponseLaws) {n : Nat} {p : Httparse.ResponseParts}
    {version : HttpVersion}
    (hp : h.parseResponse slots.slotCount buf.asBytes = .ok (.complete (n, p)))
    (hv : HttpVersion.tryFrom p.version = .ok version)
    (hreason : p.reason.Outside buf.asBytes) :
    slots.parseResponse h buf = (.panic, buf) := by
  obtain ⟨-, hlen⟩ := laws.length_le hp
  obtain ⟨os, hos, -⟩ := populate_eq hlen (laws.within hp)
  have hparse : ResponseOffset.parse h slots.slotCount buf.asBytes = none := by
    simp only [ResponseOffset.parse, hp, hv, hos, Span.fromSubslice_eq_none hreason]
    rfl
  simp only [parseResponse, hparse]

/-- What parsing a response comes to, by what the third-party parser says of the bytes. -/
theorem parseResponse_cases (laws : h.ResponseLaws) (slots : ParseSlots) (buf : BytesReader) :
    (∃ e, slots.parseResponse h buf = (.err e, buf)) ∨
    (h.parseResponse slots.slotCount buf.asBytes = .ok .incomplete ∧
      slots.parseResponse h buf = (.ok none, buf)) ∨
    slots.parseResponse h buf = (.panic, buf) ∨
    ∃ n p version buf', h.parseResponse slots.slotCount buf.asBytes = .ok (.complete (n, p)) ∧
      slots.parseResponse h buf = (.ok (some ⟨version, p.code, p.reason.bytes,
        ⟨p.headers.map Httparse.Header.field⟩⟩), buf') ∧
      buf.splitTo n = some (buf.asBytes.take n, buf') := by
  rcases hp : h.parseResponse slots.slotCount buf.asBytes with e | (_ | ⟨n, p⟩)
  · exact .inl ⟨_, parseResponse_error hp⟩
  · exact .inr (.inl ⟨rfl, parseResponse_incomplete hp⟩)
  · cases hv : HttpVersion.tryFrom p.version with
    | error v => exact .inl ⟨_, parseResponse_version hp hv⟩
    | ok version =>
      cases hreason : Httparse.asciiReason buf.asBytes with
      | none =>
        have hpanic := parseResponse_panic laws hp hv (laws.static hp hreason).1
        exact .inr (.inr (.inl hpanic))
      | some phrase =>
        have hwithin := (laws.reason hp hreason).1
        obtain ⟨buf', hok, hsplit⟩ := parseResponse_complete laws hp hv hwithin
        exact .inr (.inr (.inr ⟨n, p, version, buf', rfl, hok, hsplit⟩))

/-- A response that is returned was a complete head with its reason phrase in it, and is
    split off. -/
theorem parseResponse_found (laws : h.ResponseLaws) {res : Response} {buf' : BytesReader}
    (hok : slots.parseResponse h buf = (.ok (some res), buf')) :
    ∃ n p version, h.parseResponse slots.slotCount buf.asBytes = .ok (.complete (n, p)) ∧
      HttpVersion.tryFrom p.version = .ok version ∧ p.reason.Within (buf.asBytes.take n) ∧
      res = ⟨version, p.code, p.reason.bytes, ⟨p.headers.map Httparse.Header.field⟩⟩ ∧
      buf.splitTo n = some (buf.asBytes.take n, buf') := by
  rcases hp : h.parseResponse slots.slotCount buf.asBytes with e | (_ | ⟨n, p⟩)
  · rw [parseResponse_error hp] at hok
    cases hok
  · rw [parseResponse_incomplete hp] at hok
    cases hok
  · cases hv : HttpVersion.tryFrom p.version with
    | error v =>
      rw [parseResponse_version hp hv] at hok
      cases hok
    | ok version =>
      cases hreason : Httparse.asciiReason buf.asBytes with
      -- without a phrase in the buffer, the offset arithmetic panics
      | none =>
        rw [parseResponse_panic laws hp hv (laws.static hp hreason).1] at hok
        cases hok
      | some phrase =>
        have hwithin := (laws.reason hp hreason).1
        obtain ⟨_, heq, hsplit⟩ := parseResponse_complete laws hp hv hwithin
        rw [heq] at hok
        cases hok
        exact ⟨n, p, version, rfl, hv, hwithin, rfl, hsplit⟩

end ParseSlots

end Jrpxy.HttpMessage
