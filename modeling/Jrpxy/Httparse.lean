/-
  Jrpxy.Httparse

  The third-party parser, as a parameter.

  `Httparse` bundles the four entry points the program calls.  What they
  return of the input are borrowed slices; a `Slice` keeps where it points
  relative to the start of the buffer, since the program converts these
  positions to offsets.  Beside the parameter stand the documented facts the
  program relies on, grouped by the grammar they are about; a result names
  the groups it uses.
-/
import Jrpxy.Lib.StreamParser
import Jrpxy.Lib.Utf8
import Jrpxy.HttpMessage.Header

namespace Jrpxy

open Incremental Ascii Utf8 Util HttpMessage

namespace Httparse

/-- Errors of the head and field-section parsers. -/
inductive Error where
  | headerName
  | headerValue
  | newLine
  | status
  | token
  | tooManyHeaders
  | version
  deriving DecidableEq, Repr

/-- The error of the chunk-size parser. -/
inductive InvalidChunkSize where
  | mk
  deriving DecidableEq, Repr

/-- A borrowed slice: how far from the start of the parsed buffer it begins, and
    its bytes.  A slice of something else begins anywhere. -/
structure Slice where
  start : Int
  bytes : Bytes
  deriving DecidableEq, Repr

/-- The slice is a part of `buf`. -/
def Slice.Within (s : Slice) (buf : Bytes) : Prop :=
  0 ≤ s.start ∧ s.start + s.bytes.length ≤ buf.length ∧
    s.bytes = (buf.drop s.start.toNat).take s.bytes.length

instance (s : Slice) (buf : Bytes) : Decidable (s.Within buf) :=
  inferInstanceAs (Decidable (_ ∧ _ ∧ _))

/-- The slice lies outside `buf`, whichever side. -/
def Slice.Outside (s : Slice) (buf : Bytes) : Prop := s.start < 0 ∨ (buf.length : Int) < s.start

structure Header where
  name : Slice
  value : Slice
  deriving DecidableEq, Repr

namespace Header

/-- The bytes of a parsed header. -/
def field (h : Header) : Field := (h.name.bytes, h.value.bytes)

/-- Name and value are parts of `buf`. -/
def Within (h : Header) (buf : Bytes) : Prop := h.name.Within buf ∧ h.value.Within buf

instance (h : Header) (buf : Bytes) : Decidable (h.Within buf) :=
  inferInstanceAs (Decidable (_ ∧ _))

/-- A token, and a value of field bytes without surrounding whitespace. -/
def WellFormed (h : Header) : Prop :=
  isValidFieldName h.name.bytes = true ∧ isValidFieldValue h.value.bytes = true ∧
    Trimmed h.value.bytes

end Header

/-- What a complete request head parses to. -/
structure RequestParts where
  method : Slice
  path : Slice
  version : UInt8
  headers : List Header
  deriving DecidableEq, Repr

/-- What a complete response head parses to. -/
structure ResponseParts where
  version : UInt8
  code : Nat
  reason : Slice
  headers : List Header
  deriving DecidableEq, Repr

end Httparse

/-- The entry points the program calls, and the parser's request-target bytes.
    The number of header slots is the first argument of the three that fill slots. -/
structure Httparse where
  isUriToken : UInt8 → Bool
  parseChunkSize : Bytes → Except Httparse.InvalidChunkSize (Status (Nat × Nat))
  parseHeaders : Nat → Bytes → Except Httparse.Error (Status (Nat × List Httparse.Header))
  parseRequest : Nat → Bytes → Except Httparse.Error (Status (Nat × Httparse.RequestParts))
  parseResponse : Nat → Bytes → Except Httparse.Error (Status (Nat × Httparse.ResponseParts))

namespace Httparse

/-! ## Chunk sizes -/

/-- What the program relies on of `parse_chunk_size`. -/
structure ChunkSizeLaws (h : Httparse) : Prop where
  parser : StreamParser h.parseChunkSize
  /-- The value fits in a `u64`. -/
  size_lt : ∀ {s n v}, h.parseChunkSize s = .ok (.complete (n, v)) → v < 2 ^ 64
  /-- `1*16HEXDIG CRLF` is a size line. -/
  hex : ∀ {hs v}, hs ≠ [] → hs.length ≤ 16 → (∀ b ∈ hs, isHexDigit b = true) →
    value 16 hs = some v →
    ∀ s, h.parseChunkSize (hs ++ ascii "\r\n" ++ s) = .ok (.complete (hs.length + 2, v))
  /-- A size line begins with a digit, whitespace, an extension or the line end. -/
  first : ∀ {b}, isHexDigit b = false → b ∉ ascii " \t;\r" →
    ∀ s, ∃ e, h.parseChunkSize (b :: s) = .error e

/-- Nothing is no size line. -/
theorem ChunkSizeLaws.nil {h : Httparse} (laws : h.ChunkSizeLaws) :
    h.parseChunkSize [] = .ok .incomplete := by
  have hzero := @laws.hex (ascii "0") 0 (by decide) (by decide) (by decide +kernel) rfl []
  exact laws.parser.incomplete_of_take (k := 0) hzero (Nat.succ_pos _)

/-! ## Field sections -/

/-- What the program relies on of `parse_headers`. -/
structure FieldSectionLaws (h : Httparse) : Prop where
  parser : ∀ slots, StreamParser (h.parseHeaders slots)
  /-- Names and values are sub-slices of the section. -/
  within : ∀ {slots s n hs}, h.parseHeaders slots s = .ok (.complete (n, hs)) →
    ∀ x ∈ hs, x.Within (s.take n)
  length_le : ∀ {slots s n hs}, h.parseHeaders slots s = .ok (.complete (n, hs)) →
    hs.length ≤ slots
  sound : ∀ {slots s n hs}, h.parseHeaders slots s = .ok (.complete (n, hs)) →
    ∀ x ∈ hs, x.WellFormed
  /-- More slots than a section needs change nothing. -/
  more_slots : ∀ {slots s n hs}, h.parseHeaders slots s = .ok (.complete (n, hs)) →
    ∀ k, h.parseHeaders (slots + k) s = .ok (.complete (n, hs))
  /-- `*( field-line CRLF ) CRLF` is a field section. -/
  complete : ∀ {slots fs}, Headers.Valid ⟨fs⟩ → fs.length ≤ slots →
    ∀ s, ∃ hs, h.parseHeaders slots (fieldLines fs ++ ascii "\r\n" ++ s) =
        .ok (.complete ((fieldLines fs).length + 2, hs)) ∧
      hs.map Header.field = fs.map fun f => (f.1, trimOws f.2)

/-- Nothing is no field section. -/
theorem FieldSectionLaws.nil {h : Httparse} (laws : h.FieldSectionLaws) (slots : Nat) :
    h.parseHeaders slots [] = .ok .incomplete := by
  obtain ⟨hs, hempty, -⟩ := @laws.complete slots [] (by simp [Headers.Valid])
    (Nat.zero_le slots) []
  exact (laws.parser slots).incomplete_of_take (k := 0) hempty (by decide)

/-! ## Request heads -/

/-- A request-target the parser accepts: its bytes one by one, and the whole as a text. -/
structure IsTarget (h : Httparse) (path : Bytes) : Prop where
  ne_nil : path ≠ []
  tokens : ∀ b ∈ path, h.isUriToken b = true
  utf8 : IsUtf8 path

/-- A request head as it is written on the wire. -/
def requestHead (method path version : Bytes) (fs : List Field) : Bytes :=
  method ++ ascii " " ++ path ++ ascii " " ++ version ++ ascii "\r\n" ++
    fieldLines fs ++ ascii "\r\n"

/-- What the program relies on of the request parser. -/
structure RequestLaws (h : Httparse) : Prop where
  parser : ∀ slots, StreamParser (h.parseRequest slots)
  within : ∀ {slots s n p}, h.parseRequest slots s = .ok (.complete (n, p)) →
    p.method.Within (s.take n) ∧ p.path.Within (s.take n) ∧ ∀ x ∈ p.headers, x.Within (s.take n)
  length_le : ∀ {slots s n p}, h.parseRequest slots s = .ok (.complete (n, p)) →
    p.headers.length ≤ slots
  sound : ∀ {slots s n p}, h.parseRequest slots s = .ok (.complete (n, p)) →
    isValidFieldName p.method.bytes = true ∧ h.IsTarget p.path.bytes ∧
      ∀ x ∈ p.headers, x.WellFormed
  /-- A request line and a field section are a request head. -/
  complete : ∀ {slots method path fs}, isValidFieldName method = true → h.IsTarget path →
    Headers.Valid ⟨fs⟩ → fs.length ≤ slots →
    ∀ s, ∃ p, h.parseRequest slots
        (requestHead method path (ascii "HTTP/1.1") fs ++ s) =
          .ok (.complete ((requestHead method path (ascii "HTTP/1.1") fs).length, p)) ∧
      p.method.bytes = method ∧ p.path.bytes = path ∧ p.version = 1 ∧
      p.headers.map Header.field = fs.map fun f => (f.1, trimOws f.2)
  /-- Every byte of an origin-form target is accepted in a request line. -/
  uri_token : ∀ {b}, isValidPathQueryChar b = true ∨ b = 37 → h.isUriToken b = true

/-- What the program relies on of the request parser, when it makes a field of a part of a
    request-target. -/
structure TargetLaws (h : Httparse) : Prop where
  /-- No byte of a request-target is whitespace or a control character. -/
  uri_vchar : ∀ {b}, h.isUriToken b = true → isValidFieldVchar b = true

/-- What the program relies on of the request parser, whatever the number of its slots. -/
structure RequestSlotLaws (h : Httparse) : Prop where
  /-- More slots than a head needs change nothing. -/
  more_slots : ∀ {slots s n p}, h.parseRequest slots s = .ok (.complete (n, p)) →
    ∀ k, h.parseRequest (slots + k) s = .ok (.complete (n, p))

/-! ## Response heads -/

/-- CR or LF. -/
def isLineEnd (b : UInt8) : Bool := b == 13 || b == 10

/-- The status line of a response, empty lines before it skipped. -/
def statusLine (s : Bytes) : Bytes := (s.dropWhile isLineEnd).takeWhile fun b => !isLineEnd b

/-- The reason phrase, if the status line has one (`HTTP-version SP 3DIGIT SP
    reason-phrase`, the phrase possibly empty) and it has no obs-text in it. -/
def asciiReason (s : Bytes) : Option Bytes :=
  match (statusLine s).drop 12 with
  | 32 :: phrase => if phrase.all (· < 128) then some phrase else none
  | _ => none

/-- What the program relies on of the response parser: where its slices point. -/
structure ResponseLaws (h : Httparse) : Prop where
  length_le : ∀ {slots s n p}, h.parseResponse slots s = .ok (.complete (n, p)) →
    n ≤ s.length ∧ p.headers.length ≤ slots
  within : ∀ {slots s n p}, h.parseResponse slots s = .ok (.complete (n, p)) →
    ∀ x ∈ p.headers, x.Within (s.take n)
  /-- The reason phrase is a sub-slice of the head. -/
  reason : ∀ {slots s n p phrase}, h.parseResponse slots s = .ok (.complete (n, p)) →
    asciiReason s = some phrase → p.reason.Within (s.take n) ∧ p.reason.bytes = phrase
  /-- Otherwise it is the static empty string. -/
  static : ∀ {slots s n p}, h.parseResponse slots s = .ok (.complete (n, p)) →
    asciiReason s = none → p.reason.Outside s ∧ p.reason.bytes = []

/-- What the program relies on of the response parser: what a head is made of. -/
structure ResponseHeadLaws (h : Httparse) : Prop where
  parser : ∀ slots, StreamParser (h.parseResponse slots)
  /-- The code has three digits. -/
  sound : ∀ {slots s n p}, h.parseResponse slots s = .ok (.complete (n, p)) →
    p.code < 1000 ∧ isValidFieldValue p.reason.bytes = true ∧ ∀ x ∈ p.headers, x.WellFormed

end Httparse

end Jrpxy
