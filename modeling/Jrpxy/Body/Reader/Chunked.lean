/-
  Jrpxy.Body.Reader.Chunked

  The chunked body reader: three nested state machines.

  `ChunkHeadReader` reads a size line or the end of the body,
  `ChunkDataReader` one chunk and its footer, and `ChunkedBodyReader` passes
  the connection from one to the other; a state is taken out for the poll and
  put back unless the poll failed.

  Each state owes the caller what the one-shot decoder makes of the bytes not
  read yet (`decoded`), from the point in the coding where the state stands.
  One specification per machine says that a poll keeps this up, so that the
  whole reader is a lawful `Puller` over the decoder (`puller_lawful`).
-/
import Jrpxy.Body.Reader
import Jrpxy.Lib.ChunkedCoding

namespace Jrpxy.Body.Reader

open Poll PullStream Incremental ChunkedCoding Util HttpMessage

/-- The extensions of a chunk header, as its bytes. -/
structure ChunkExtensions where
  chunkHeaderBytes : Bytes
  deriving DecidableEq, Repr

inductive PollNextChunk where
  | data (size : Nat) (chunkHeader : Bytes)
  | final (chunkHeader : Bytes) (trailers : Headers)
  deriving DecidableEq, Repr

inductive ChunkHeadReaderState where
  | readingSize
  | readingTrailers (chunkHeaderBytes : Bytes)
  | ready (next : PollNextChunk)
  deriving DecidableEq, Repr

structure ChunkHeadReader where
  reader : BytesReader
  parseSlots : ParseSlots
  maxChunkHeaderLength : Nat
  maxTrailerLength : Nat
  state : ChunkHeadReaderState
  deriving DecidableEq, Repr

inductive ChunkBodyState where
  | inBody
  | inFooterNeedCR
  | inFooterNeedLF
  | done
  deriving DecidableEq, Repr

structure ChunkDataReader where
  reader : BytesReader
  parseSlots : ParseSlots
  maxChunkHeaderLength : Nat
  maxTrailerLength : Nat
  size : Nat
  extensions : ChunkExtensions
  remaining : Nat
  state : ChunkBodyState
  deriving DecidableEq, Repr

structure FinalChunkReader where
  reader : BytesReader
  parseSlots : ParseSlots
  extensions : ChunkExtensions
  trailers : Headers
  deriving DecidableEq, Repr

def FinalChunkReader.intoParts (self : FinalChunkReader) : BytesReader × ParseSlots × Headers :=
  (self.reader, self.parseSlots, self.trailers)

inductive NextChunk where
  | data (r : ChunkDataReader)
  | final (r : FinalChunkReader)
  deriving DecidableEq, Repr

/-! ## Between chunks -/

namespace ChunkHeadReader

def new (reader : BytesReader) (parseSlots : ParseSlots)
    (maxChunkHeaderLength maxTrailerLength : Nat) : ChunkHeadReader :=
  ⟨reader, parseSlots, maxChunkHeaderLength, maxTrailerLength, .readingSize⟩

/-- The rounds of the loop in state `ReadingSize`. -/
def pollSize (h : Httparse) : Nat → ChunkHeadReader → Polled BodyError Unit × ChunkHeadReader
  | 0, self => (.pending, self)
  | fuel + 1, self =>
    andThen (pollEnsure self.reader) (fun reader => { self with reader }) fun _ reader =>
      match h.parseChunkSize reader.asBytes with
      | .error e => (.err (.invalidChunkHeader e), { self with reader })
      | .ok .incomplete =>
        if reader.len ≥ self.maxChunkHeaderLength then
          (.err (.chunkHeaderTooLong self.maxChunkHeaderLength), { self with reader })
        else
          andThen (pollExtend reader) (fun reader => { self with reader }) fun _ reader =>
            pollSize h fuel { self with reader }
      | .ok (.complete (headerLen, chunkSize)) =>
        match reader.splitTo headerLen with
        | none => (.panic, { self with reader })
        | some (chunkHeaderBytes, reader) =>
          if chunkSize = 0 then
            (.ok (), { self with reader, state := .readingTrailers chunkHeaderBytes })
          else
            (.ok (), { self with reader, state := .ready (.data chunkSize chunkHeaderBytes) })

/-- The rounds of the loop in state `ReadingTrailers`. -/
def pollTrailers (h : Httparse) (chunkHeaderBytes : Bytes) :
    Nat → ChunkHeadReader → Polled BodyError Unit × ChunkHeadReader
  | 0, self => (.pending, self)
  | fuel + 1, self =>
    andThen (pollEnsure self.reader) (fun reader => { self with reader }) fun _ reader =>
      match self.parseSlots.parseHeaders h reader with
      | (.err e, reader) =>
        match mapTrailerError e with
        | some e => (.err e, { self with reader })
        | none => (.panic, { self with reader })
      | (.ok none, reader) =>
        if reader.len ≥ self.maxTrailerLength then
          (.err (.trailerError (.maxLengthExceeded self.maxTrailerLength)), { self with reader })
        else
          andThen (pollExtend reader) (fun reader => { self with reader }) fun _ reader =>
            pollTrailers h chunkHeaderBytes fuel { self with reader }
      | (.ok (some trailers), reader) =>
        (.ok (), { self with reader, state := .ready (.final chunkHeaderBytes trailers) })
      | (_, reader) => (.panic, { self with reader })

/-- Poll for the next chunk. -/
def pollReadChunk (h : Httparse) (self : ChunkHeadReader) :
    Polled BodyError Unit × ChunkHeadReader :=
  match self.state with
  | .readingSize =>
    andThen (pollSize h (self.reader.weight + 1) self) id fun _ self =>
      match self.state with
      | .readingTrailers chunkHeaderBytes =>
        pollTrailers h chunkHeaderBytes (self.reader.weight + 1) self
      | _ => (.ok (), self)
  | .readingTrailers chunkHeaderBytes =>
    pollTrailers h chunkHeaderBytes (self.reader.weight + 1) self
  | .ready _ => (.ok (), self)

/-- `none` when polling has not been driven to completion. -/
def finish (self : ChunkHeadReader) : Option NextChunk :=
  match self.state with
  | .readingSize => none
  | .readingTrailers _ => none
  | .ready (.data size chunkHeader) =>
    some (.data {
      reader := self.reader
      parseSlots := self.parseSlots
      maxChunkHeaderLength := self.maxChunkHeaderLength
      maxTrailerLength := self.maxTrailerLength
      size
      extensions := ⟨chunkHeader⟩
      remaining := size
      state := .inBody })
  | .ready (.final chunkHeader trailers) =>
    some (.final {
      reader := self.reader
      parseSlots := self.parseSlots
      extensions := ⟨chunkHeader⟩
      trailers })

end ChunkHeadReader

/-! ## Within a chunk -/

namespace ChunkDataReader

/-- State `InFooterNeedLF`. -/
def pollFooterLF (self : ChunkDataReader) :
    Polled BodyError (Option Bytes) × ChunkDataReader :=
  andThen (pollEnsure self.reader) (fun reader => { self with reader }) fun _ reader =>
    match reader.getU8 with
    | none => (.panic, { self with reader })
    | some (b, reader) =>
      if b = 10 then (.ok none, { self with reader, state := .done })
      else (.err (.invalidChunkFooter 10 b), { self with reader })

/-- State `InFooterNeedCR`. -/
def pollFooterCR (self : ChunkDataReader) :
    Polled BodyError (Option Bytes) × ChunkDataReader :=
  andThen (pollEnsure self.reader) (fun reader => { self with reader }) fun _ reader =>
    match reader.getU8 with
    | none => (.panic, { self with reader })
    | some (b, reader) =>
      if b = 13 then pollFooterLF { self with reader, state := .inFooterNeedLF }
      else (.err (.invalidChunkFooter 13 b), { self with reader })

/-- Poll for up to `maxLen` bytes of this chunk; `none` behind its footer. -/
def pollRead (maxLen : Nat) (self : ChunkDataReader) :
    Polled BodyError (Option Bytes) × ChunkDataReader :=
  match self.state with
  | .inBody =>
    if self.remaining = 0 then pollFooterCR { self with state := .inFooterNeedCR }
    else
      andThen (pollEnsure self.reader) (fun reader => { self with reader }) fun _ reader =>
        let len := min (min self.remaining reader.len) maxLen
        match reader.splitTo len with
        | none => (.panic, { self with reader })
        | some (bytes, reader) =>
          (.ok (some bytes), { self with reader, remaining := self.remaining - len })
  | .inFooterNeedCR => pollFooterCR self
  | .inFooterNeedLF => pollFooterLF self
  | .done => (.ok none, self)

/-- `none` when the chunk is not fully drained. -/
def finish (self : ChunkDataReader) : Option ChunkHeadReader :=
  match self.state with
  | .done =>
    some (.new self.reader self.parseSlots self.maxChunkHeaderLength self.maxTrailerLength)
  | _ => none

end ChunkDataReader

/-! ## The whole body -/

inductive ChunkedBodyChunkStream where
  | inChunk (reader : ChunkDataReader)
  | betweenChunk (reader : ChunkHeadReader)
  | done (reader : FinalChunkReader)
  deriving DecidableEq, Repr

/-- `inner` is left empty by an error. -/
structure ChunkedBodyReader where
  inner : Option ChunkedBodyChunkStream
  deriving DecidableEq, Repr

namespace ChunkedBodyChunkStream

/-- One round of the loop of `poll_read`: an answer with what is put back, or the
    state of the next round. -/
def round (h : Httparse) (maxLen : Nat) : ChunkedBodyChunkStream →
    (Polled BodyError (Option Bytes) × Option ChunkedBodyChunkStream) ⊕ ChunkedBodyChunkStream
  | .inChunk reader =>
    match reader.pollRead maxLen with
    | (.pending, reader) => .inl (.pending, some (.inChunk reader))
    | (.err e, _) => .inl (.err e, none)
    | (.ok (some bytes), reader) => .inl (.ok (some bytes), some (.inChunk reader))
    | (.ok none, reader) =>
      match reader.finish with
      | some head => .inr (.betweenChunk head)
      | none => .inl (.panic, none)
    | (.panic, _) => .inl (.panic, none)
  | .betweenChunk reader =>
    match reader.pollReadChunk h with
    | (.pending, reader) => .inl (.pending, some (.betweenChunk reader))
    | (.err e, _) => .inl (.err e, none)
    | (.ok (), reader) =>
      match reader.finish with
      | some (.data r) => .inr (.inChunk r)
      | some (.final r) => .inr (.done r)
      | none => .inl (.panic, none)
    | (.panic, _) => .inl (.panic, none)
  | .done reader => .inl (.ok none, some (.done reader))

/-- The loop of `poll_read`. -/
def rounds (h : Httparse) (maxLen : Nat) : Nat → ChunkedBodyChunkStream →
    Polled BodyError (Option Bytes) × Option ChunkedBodyChunkStream
  | 0, current => (.pending, some current)
  | fuel + 1, current =>
    match round h maxLen current with
    | .inl answer => answer
    | .inr next => rounds h maxLen fuel next

/-- The connection the state holds. -/
def reader : ChunkedBodyChunkStream → BytesReader
  | .inChunk r => r.reader
  | .betweenChunk r => r.reader
  | .done r => r.reader

end ChunkedBodyChunkStream

namespace ChunkedBodyReader

def new (reader : BytesReader) (parseSlots : ParseSlots)
    (maxChunkHeaderLength maxTrailerLength : Nat) : ChunkedBodyReader :=
  ⟨some (.betweenChunk (.new reader parseSlots maxChunkHeaderLength maxTrailerLength))⟩

def drained (self : ChunkedBodyReader) : Bool :=
  match self.inner with
  | none => true
  | some (.done _) => true
  | _ => false

/-- `none` before the body is fully drained and after an error. -/
def finish (self : ChunkedBodyReader) : Option (BytesReader × ParseSlots × Headers) :=
  match self.inner with
  | some (.done r) => some r.intoParts
  | _ => none

/-- No poll takes more than four rounds: through the end of a chunk, a chunk
    head, and into the next chunk. -/
def pollRead (h : Httparse) (maxLen : Nat) (self : ChunkedBodyReader) :
    Polled BodyError (Option Bytes) × ChunkedBodyReader :=
  match self.inner with
  | none => (.err .readAfterError, self)
  | some current =>
    let (answer, inner) := current.rounds h maxLen 4
    (answer, ⟨inner⟩)

/-- How much polling and reading is left. -/
def weight (self : ChunkedBodyReader) : Nat :=
  match self.inner with
  | none => 0
  | some current => current.reader.weight

def read (h : Httparse) (maxLen : Nat) (self : ChunkedBodyReader) :
    Polled BodyError (Option Bytes) × ChunkedBodyReader :=
  blockOn (pollRead h maxLen) (self.weight + 1) self

def pollDrain (h : Httparse) (self : ChunkedBodyReader) :
    Polled BodyError Unit × ChunkedBodyReader :=
  Puller.drainLoop (pollRead h drainSize) (self.weight + 1) self

/-- Drain the body and return the inner parts and the trailers. -/
def drain (h : Httparse) (self : ChunkedBodyReader) :
    Polled BodyError (BytesReader × ParseSlots × Headers) × ChunkedBodyReader :=
  andThen (blockOn (pollDrain h) (self.weight + 1) self) id fun _ self =>
    match self.finish with
    | none => (.panic, self)
    | some parts => (.ok parts, self)

end ChunkedBodyReader

/-! ## What the states owe -/

/-- The recognisers a reader with this many slots uses. -/
def recognisers (h : Httparse) (slots : ParseSlots) : Recognisers Headers where
  sizeError := Httparse.InvalidChunkSize
  fieldsError := Httparse.Error
  size := h.parseChunkSize
  fields s := (h.parseHeaders slots.slotCount s).map
    (Status.mapItem fun hs => ⟨hs.map Httparse.Header.field⟩)

theorem recognisers_lawful {h : Httparse} (hsize : h.ChunkSizeLaws)
    (hfields : h.FieldSectionLaws) (slots : ParseSlots) : (recognisers h slots).Lawful where
  size := hsize.parser
  fields := (hfields.parser slots.slotCount).map _

/-- The trailers of a decoded body are well-formed fields, no more than there are slots. -/
theorem decode_trailers {h : Httparse} (hfields : h.FieldSectionLaws) {slots : ParseSlots}
    {s : Bytes} {t : Tail Headers} (htail : (decode (recognisers h slots) s).tail = some t) :
    t.trailers.Valid ∧ (∀ f ∈ t.trailers.headers, Trimmed f.2) ∧
      t.trailers.headers.length ≤ slots.slotCount := by
  obtain ⟨s', hsection⟩ := decode_tail_fields htail
  simp only [recognisers] at hsection
  rcases hp : h.parseHeaders slots.slotCount s' with e | (_ | ⟨n, hs⟩)
  · rw [hp] at hsection; cases hsection
  · rw [hp] at hsection; cases hsection
  · rw [hp] at hsection
    obtain ⟨length, trailers, rest⟩ := t
    cases hsection
    refine ⟨?_, ?_, ?_⟩
    · intro f hf
      obtain ⟨x, hx, rfl⟩ := List.mem_map.mp hf
      exact ⟨(hfields.sound hp x hx).1, (hfields.sound hp x hx).2.1⟩
    · intro f hf
      obtain ⟨x, hx, rfl⟩ := List.mem_map.mp hf
      exact (hfields.sound hp x hx).2.2
    · rw [List.length_map]
      exact hfields.length_le hp

/-- More slots than the trailers of a complete body need change nothing. -/
theorem decode_more_slots {h : Httparse} (hfields : h.FieldSectionLaws) {slots more : ParseSlots}
    (hle : slots.slotCount ≤ more.slotCount) {s : Bytes} {t : Tail Headers}
    (htail : (decode (recognisers h slots) s).tail = some t) :
    decode (recognisers h more) s = decode (recognisers h slots) s := by
  obtain ⟨k, hk⟩ := Nat.exists_eq_add_of_le hle
  refine decode_mono (R := recognisers h slots) (S := recognisers h more) (fun hs => hs) ?_ htail
  intro s n t hs
  simp only [recognisers] at hs ⊢
  rcases hp : h.parseHeaders slots.slotCount s with e | (_ | ⟨m, hds⟩)
  · rw [hp] at hs
    cases hs
  · rw [hp] at hs
    cases hs
  · rw [hp] at hs
    rw [hk, hfields.more_slots hp]
    exact hs

/-- What a caller is owed of a decoded body. -/
def toOwed (x : Decoded Headers) : Owed BodyEnd :=
  ⟨x.body, x.tail.map fun t => ⟨t.trailers, t.rest⟩⟩

@[simp] theorem toOwed_addLine (n : Nat) (x : Decoded Headers) :
    toOwed (x.addLine n) = toOwed x := rfl

@[simp] theorem toOwed_prepend (d : Bytes) (x : Decoded Headers) :
    toOwed (x.prepend d) = (toOwed x).prepend d := rfl

@[simp] theorem toOwed_fault : toOwed .fault = .fault := rfl

/-- A state as its caller sees it: what it owes, whether what is ahead is within
    its limits, and how much polling is left. -/
structure View where
  owed : Owed BodyEnd
  Fits : Prop
  weight : Nat

/-- The second state owes what the first did. -/
def View.Keeps (x y : View) : Prop := y.owed = x.owed ∧ (x.Fits → y.Fits) ∧ y.weight ≤ x.weight

theorem View.Keeps.trans {x y z : View} (h : x.Keeps y) (h' : y.Keeps z) : x.Keeps z :=
  ⟨h'.1.trans h.1, h'.2.1 ∘ h.2.1, Nat.le_trans h'.2.2 h.2.2⟩

/-- States with the same limits that make the same of the bytes ahead. -/
theorem View.keeps_of_decoded {x y : Decoded Headers}
    {line line' trailer trailer' weight weight' : Nat} (hdec : y = x) (hline : line' = line) (htrailer : trailer' = trailer)
    (hweight : weight' ≤ weight) :
    View.Keeps ⟨toOwed x, x.Fits line trailer, weight⟩
      ⟨toOwed y, y.Fits line' trailer', weight'⟩ := by
  subst hdec hline htrailer
  exact ⟨rfl, id, hweight⟩

variable (h : Httparse)

/-- What a chunk head reader makes of the bytes ahead. -/
def ChunkHeadReader.decoded (self : ChunkHeadReader) : Decoded Headers :=
  match self.state with
  | .readingSize => decode (recognisers h self.parseSlots) self.reader.unread
  | .readingTrailers _ => decodeTail (recognisers h self.parseSlots) self.reader.unread
  | .ready (.data size _) => decodeData (recognisers h self.parseSlots) size self.reader.unread
  | .ready (.final _ trailers) => ⟨[], [], some ⟨0, trailers, self.reader.unread⟩⟩

/-- What a chunk data reader makes of the bytes ahead. -/
def ChunkDataReader.decoded (self : ChunkDataReader) : Decoded Headers :=
  match self.state with
  | .inBody => decodeData (recognisers h self.parseSlots) self.remaining self.reader.unread
  | .inFooterNeedCR => decodeFooter (recognisers h self.parseSlots) self.reader.unread
  | .inFooterNeedLF => decodeLF (recognisers h self.parseSlots) self.reader.unread
  | .done => decode (recognisers h self.parseSlots) self.reader.unread

def ChunkHeadReader.view (self : ChunkHeadReader) : View where
  owed := toOwed (self.decoded h)
  Fits := (self.decoded h).Fits self.maxChunkHeaderLength self.maxTrailerLength
  weight := self.reader.weight

def ChunkDataReader.view (self : ChunkDataReader) : View where
  owed := toOwed (self.decoded h)
  Fits := (self.decoded h).Fits self.maxChunkHeaderLength self.maxTrailerLength
  weight := self.reader.weight

def ChunkedBodyChunkStream.view : ChunkedBodyChunkStream → View
  | .inChunk r => r.view h
  | .betweenChunk r => r.view h
  | .done r => ⟨.ending ⟨r.trailers, r.reader.unread⟩, True, r.reader.weight⟩

variable {h}

/-! ## A chunk head, specified -/

namespace ChunkHeadReader

/-- Only what is unread matters of the connection. -/
theorem keeps_reader {self : ChunkHeadReader} {reader : BytesReader}
    (hunread : reader.unread = self.reader.unread) (hweight : reader.weight ≤ self.reader.weight) :
    (self.view h).Keeps (view h { self with reader }) :=
  View.keeps_of_decoded (by simp only [decoded, hunread]) rfl rfl hweight

/-- What one poll of a chunk head may do. -/
def headPost (h : Httparse) (Ready : ChunkHeadReader → Prop) (self : ChunkHeadReader) :
    Post BodyError Unit ChunkHeadReader where
  pending s := (self.view h).Keeps (s.view h) ∧ s.reader.weight < self.reader.weight
  ok _ s := (self.view h).Keeps (s.view h) ∧ Ready s
  err _ _ := (self.view h).Fits → (self.view h).owed = .fault

/-- From a state that owes the same. -/
theorem headPost_of_keeps {Ready : ChunkHeadReader → Prop} {self s : ChunkHeadReader}
    {x : Polled BodyError Unit × ChunkHeadReader} (hk : (self.view h).Keeps (s.view h))
    (hx : Meets x (headPost h Ready s)) : Meets x (headPost h Ready self) := by
  refine hx.mono ?_ ?_ ?_
  · rintro s' ⟨hk', hw⟩
    exact ⟨hk.trans hk', Nat.lt_of_lt_of_le hw hk.2.2⟩
  · rintro - s' ⟨hk', hready⟩
    exact ⟨hk.trans hk', hready⟩
  · intro e s' herr hf
    exact hk.1.symm.trans (herr (hk.2.1 hf))

/-- The loop around an incomplete line or section: it goes on with more bytes, and fails when
    there are none. -/
theorem headPost_extend {Ready : ChunkHeadReader → Prop} {self : ChunkHeadReader}
    {reader : BytesReader} {k : Unit → BytesReader → Polled BodyError Unit × ChunkHeadReader}
    (hunread : reader.unread = self.reader.unread) (hweight : reader.weight ≤ self.reader.weight)
    (hend : reader.asBytes = self.reader.unread → (self.view h).owed = .fault)
    (hnext : ∀ s : BytesReader, s.unread = self.reader.unread → s.weight < self.reader.weight →
      Meets (k () s) (headPost h Ready { self with reader := s })) :
    Meets (andThen (pollExtend reader) (fun reader => { self with reader }) k)
      (headPost h Ready self) := by
  refine (pollExtend_unread reader).andThen ?_ ?_ ?_
  · rintro s ⟨hs, hw⟩
    have hless := Nat.lt_of_lt_of_le hw hweight
    exact ⟨keeps_reader (hs.trans hunread) (Nat.le_of_lt hless), hless⟩
  · rintro e s ⟨hall, -⟩ _
    exact hend (hall.trans hunread)
  · rintro - s ⟨hs, hw⟩
    have hless := Nat.lt_of_lt_of_le hw hweight
    have hs := hs.trans hunread
    exact headPost_of_keeps (keeps_reader hs (Nat.le_of_lt hless)) (hnext s hs hless)

/-- Behind a size line stands data of the announced length, or the trailer section. -/
def SizeRead (self : ChunkHeadReader) : Prop :=
  (∃ b, self.state = .readingTrailers b) ∨
    ∃ size b, self.state = .ready (.data size b) ∧ size ≠ 0

/-- The trailer section has been read. -/
def TrailersRead (self : ChunkHeadReader) : Prop :=
  ∃ b trailers, self.state = .ready (.final b trailers)

/-- A chunk head is ready; a chunk without data was not read just now. -/
def HeadRead (self s : ChunkHeadReader) : Prop :=
  ∃ next, s.state = .ready next ∧ ∀ b, next = .data 0 b → self.state = .ready next

/-- A size line read off the bytes ahead leaves what is owed as it is. -/
theorem keeps_of_addLine {self s : ChunkHeadReader} {n : Nat}
    (hline : self.decoded h = (s.decoded h).addLine n)
    (hheader : s.maxChunkHeaderLength = self.maxChunkHeaderLength)
    (htrailer : s.maxTrailerLength = self.maxTrailerLength)
    (hweight : s.reader.weight ≤ self.reader.weight) :
    (self.view h).Keeps (s.view h) := by
  refine ⟨?_, ?_, hweight⟩
  · show toOwed (s.decoded h) = toOwed (self.decoded h)
    rw [hline, toOwed_addLine]
  · intro hfits
    have hfits : (self.decoded h).Fits _ _ := hfits
    rw [hline, Decoded.fits_addLine] at hfits
    show (s.decoded h).Fits s.maxChunkHeaderLength s.maxTrailerLength
    rw [hheader, htrailer]
    exact hfits.2

/-- An error is right as long as the bytes ahead hold no complete size line. -/
theorem fault_of_no_line {self : ChunkHeadReader} (hstate : self.state = .readingSize)
    (hnone : ∀ n v, h.parseChunkSize self.reader.unread ≠ .ok (.complete (n, v))) :
    (self.view h).owed = .fault := by
  have hdec : self.decoded h = decode (recognisers h self.parseSlots) self.reader.unread := by
    simp only [decoded, hstate]
  show toOwed (self.decoded h) = .fault
  rw [hdec, decode_fault _ hnone, toOwed_fault]

/-- A size line that does not end within its limit: one that fits would have been complete
    by now. -/
theorem fault_of_long_line (laws : h.ChunkSizeLaws) {self : ChunkHeadReader}
    {reader : BytesReader} (hstate : self.state = .readingSize)
    (hunread : reader.unread = self.reader.unread)
    (hparse : h.parseChunkSize reader.asBytes = .ok .incomplete)
    (hlong : self.maxChunkHeaderLength ≤ reader.len) (hfits : (self.view h).Fits) :
    (self.view h).owed = .fault := by
  apply fault_of_no_line hstate
  intro n v hc
  have hdec : self.decoded h = decode (recognisers h self.parseSlots) self.reader.unread := by
    simp only [decoded, hstate]
  have hfits : (self.decoded h).Fits _ _ := hfits
  rw [hdec] at hfits
  have hle : n ≤ self.maxChunkHeaderLength :=
    size_le_of_fits (R := recognisers h self.parseSlots) hc hfits
  rw [← hunread] at hc
  have hlt : reader.asBytes.length < n := laws.parser.lt_of_incomplete hparse hc
  rw [BytesReader.length_asBytes] at hlt
  omega

theorem pollSize_meets (laws : h.ChunkSizeLaws) (fuel : Nat) (self : ChunkHeadReader)
    (hstate : self.state = .readingSize) (hfuel : self.reader.weight < fuel) :
    Meets (pollSize h fuel self) (headPost h SizeRead self) := by
  induction fuel generalizing self with
  | zero => omega
  | succ fuel ih =>
    rw [pollSize]
    refine (pollEnsure_meets self.reader).andThen ?_ ?_ ?_
    · rintro reader ⟨hunread, -, hweight⟩
      exact ⟨keeps_reader hunread (Nat.le_of_lt hweight), hweight⟩
    · rintro e reader ⟨hunread, -⟩ _
      apply fault_of_no_line hstate
      intro n v hc
      rw [hunread, laws.nil] at hc
      cases hc
    · rintro - reader ⟨-, hunread, -, hweight⟩
      have hbuf : reader.asBytes ++ reader.io.stream = self.reader.unread := hunread
      rcases hparse : h.parseChunkSize reader.asBytes with e | (_ | ⟨n, size⟩)
      · intro _
        apply fault_of_no_line hstate
        rw [← hbuf]
        exact laws.parser.not_complete_of_error hparse _
      · simp only
        split
        · next hlong => exact fault_of_long_line laws hstate hunread hparse hlong
        · refine headPost_extend hunread hweight ?_ ?_
          · intro hall
            apply fault_of_no_line hstate
            intro n v hc
            rw [← hall, hparse] at hc
            cases hc
          · intro s _ hless
            exact ih { self with reader := s } hstate
              (Nat.lt_of_lt_of_le hless (Nat.le_of_lt_succ hfuel))
      · have hn := laws.parser.length_le hparse
        rw [BytesReader.length_asBytes] at hn
        obtain ⟨reader', hsplit, -, -⟩ := BytesReader.splitTo_eq hn
        obtain ⟨-, -, -, -, hw, -⟩ := BytesReader.unread_splitTo hsplit
        have hcomplete : h.parseChunkSize self.reader.unread = .ok (.complete (n, size)) := by
          rw [← hbuf]
          exact laws.parser.complete_append hparse _
        have hdrop : self.reader.unread.drop n = reader'.unread := by
          rw [BytesReader.unread_eq_drop_of_splitTo hsplit, hunread]
        have hdec : self.decoded h =
            decode (recognisers h self.parseSlots) self.reader.unread := by
          simp only [decoded, hstate]
        have hweight : reader'.weight ≤ self.reader.weight := by omega
        simp only [hsplit]
        -- zero announces the trailer section, anything else that much data
        by_cases hsize : size = 0
        · subst hsize
          rw [if_pos rfl]
          refine ⟨keeps_of_addLine (n := n) ?_ rfl rfl hweight, .inl ⟨_, rfl⟩⟩
          rw [hdec, decode_last _ hcomplete, hdrop]
          rfl
        · rw [if_neg hsize]
          refine ⟨keeps_of_addLine (n := n) ?_ rfl rfl hweight, .inr ⟨_, _, rfl, hsize⟩⟩
          rw [hdec, decode_more _ hcomplete hsize, hdrop]
          rfl

/-- A trailer section complete in the bytes ahead is what is decoded there. -/
theorem decoded_of_trailers {self : ChunkHeadReader} {bytes : Bytes} {n : Nat}
    {hs : List Httparse.Header} (hstate : self.state = .readingTrailers bytes)
    (hcomplete : h.parseHeaders self.parseSlots.slotCount self.reader.unread =
      .ok (.complete (n, hs))) :
    self.decoded h =
      ⟨[], [], some ⟨n, ⟨hs.map Httparse.Header.field⟩, self.reader.unread.drop n⟩⟩ := by
  simp only [decoded, hstate]
  apply decodeTail_complete
  show (h.parseHeaders self.parseSlots.slotCount self.reader.unread).map _ = _
  rw [hcomplete]
  rfl

/-- An error is right as long as the bytes ahead hold no complete trailer section. -/
theorem fault_of_no_trailers {self : ChunkHeadReader} {bytes : Bytes}
    (hstate : self.state = .readingTrailers bytes)
    (hnone : ∀ n hs, h.parseHeaders self.parseSlots.slotCount self.reader.unread ≠
      .ok (.complete (n, hs))) :
    (self.view h).owed = .fault := by
  have hdec : self.decoded h =
      decodeTail (recognisers h self.parseSlots) self.reader.unread := by
    simp only [decoded, hstate]
  show toOwed (self.decoded h) = .fault
  rw [hdec, decodeTail_fault, toOwed_fault]
  intro n t hc
  have hfields : (recognisers h self.parseSlots).fields self.reader.unread =
      (h.parseHeaders self.parseSlots.slotCount self.reader.unread).map _ := rfl
  rw [hfields] at hc
  rcases hp : h.parseHeaders self.parseSlots.slotCount self.reader.unread with
    e | (_ | ⟨m, hs⟩)
  · rw [hp] at hc; cases hc
  · rw [hp] at hc; cases hc
  · exact hnone m hs hp

/-- A trailer section that does not end within its limit: one that fits would have been
    complete by now. -/
theorem fault_of_long_trailers (laws : h.FieldSectionLaws) {self : ChunkHeadReader}
    {bytes : Bytes} {reader : BytesReader} (hstate : self.state = .readingTrailers bytes)
    (hunread : reader.unread = self.reader.unread)
    (hparse : h.parseHeaders self.parseSlots.slotCount reader.asBytes = .ok .incomplete)
    (hlong : self.maxTrailerLength ≤ reader.len) (hfits : (self.view h).Fits) :
    (self.view h).owed = .fault := by
  apply fault_of_no_trailers hstate
  intro n hs hc
  have hfits : (self.decoded h).Fits _ _ := hfits
  rw [decoded_of_trailers hstate hc] at hfits
  have hle : n ≤ self.maxTrailerLength := hfits.2 _ rfl
  rw [← hunread] at hc
  have hlt : reader.asBytes.length < n :=
    (laws.parser self.parseSlots.slotCount).lt_of_incomplete hparse hc
  rw [BytesReader.length_asBytes] at hlt
  omega

theorem pollTrailers_meets (laws : h.FieldSectionLaws) (fuel : Nat) (self : ChunkHeadReader)
    {bytes : Bytes} (hstate : self.state = .readingTrailers bytes)
    (hfuel : self.reader.weight < fuel) :
    Meets (pollTrailers h bytes fuel self) (headPost h TrailersRead self) := by
  induction fuel generalizing self with
  | zero => omega
  | succ fuel ih =>
    have hparser := laws.parser self.parseSlots.slotCount
    rw [pollTrailers]
    refine (pollEnsure_meets self.reader).andThen ?_ ?_ ?_
    · rintro reader ⟨hunread, -, hweight⟩
      exact ⟨keeps_reader hunread (Nat.le_of_lt hweight), hweight⟩
    · rintro e reader ⟨hunread, -⟩ _
      apply fault_of_no_trailers hstate
      intro n v hc
      rw [hunread, laws.nil] at hc
      cases hc
    · rintro - reader ⟨-, hunread, -, hweight⟩
      have hbuf : reader.asBytes ++ reader.io.stream = self.reader.unread := hunread
      rcases hparse : h.parseHeaders self.parseSlots.slotCount reader.asBytes with
        e | (_ | ⟨n, hs⟩)
      · obtain ⟨t, ht, -⟩ := mapTrailerError_parse e
        simp only [ParseSlots.parseHeaders_error hparse, ht]
        intro _
        apply fault_of_no_trailers hstate
        rw [← hbuf]
        exact hparser.not_complete_of_error hparse _
      · simp only [ParseSlots.parseHeaders_incomplete hparse]
        split
        · next hlong => exact fault_of_long_trailers laws hstate hunread hparse hlong
        · refine headPost_extend hunread hweight ?_ ?_
          · intro hall
            apply fault_of_no_trailers hstate
            intro n v hc
            rw [← hall, hparse] at hc
            cases hc
          · intro s _ hless
            exact ih { self with reader := s } hstate
              (Nat.lt_of_lt_of_le hless (Nat.le_of_lt_succ hfuel))
      · obtain ⟨reader', heq, hsplit⟩ := ParseSlots.parseHeaders_complete laws hparse
        obtain ⟨-, -, -, -, hw, -⟩ := BytesReader.unread_splitTo hsplit
        have hcomplete : h.parseHeaders self.parseSlots.slotCount self.reader.unread =
            .ok (.complete (n, hs)) := by
          rw [← hbuf]
          exact hparser.complete_append hparse _
        have hdrop : self.reader.unread.drop n = reader'.unread := by
          rw [BytesReader.unread_eq_drop_of_splitTo hsplit, hunread]
        have hend := decoded_of_trailers hstate hcomplete
        rw [hdrop] at hend
        simp only [heq]
        -- what was decoded ahead is the section just read, with nothing left to hold to a limit
        refine ⟨⟨?_, ?_, by show reader'.weight ≤ self.reader.weight; omega⟩, ⟨_, _, rfl⟩⟩
        · show toOwed _ = toOwed (self.decoded h)
          rw [hend]
          rfl
        · intro _
          exact ⟨by simp [decoded], by simp [decoded]⟩

/-- One poll for the next chunk keeps what is owed; a ready answer leaves a head
    that can be finished, an error comes only where the stream is at fault. -/
theorem pollReadChunk_meets (hsize : h.ChunkSizeLaws) (hfields : h.FieldSectionLaws)
    (self : ChunkHeadReader) :
    Meets (self.pollReadChunk h) (headPost h (HeadRead self) self) := by
  have htrailers : ∀ s b, s.state = .readingTrailers b →
      Meets (pollTrailers h b (s.reader.weight + 1) s) (headPost h (HeadRead self) s) := by
    intro s b hs
    refine (pollTrailers_meets hfields _ s hs (Nat.lt_succ_self _)).mono (fun _ hp => hp) ?_
      (fun _ _ he => he)
    rintro - s' ⟨hk, b', trailers, hs'⟩
    exact ⟨hk, _, hs', fun _ hdata => by cases hdata⟩
  rcases hstate : self.state with _ | bytes | next
  · simp only [pollReadChunk, hstate]
    refine (pollSize_meets hsize _ self hstate (Nat.lt_succ_self _)).andThen (fun _ hp => hp)
      (fun _ _ he => he) ?_
    rintro - s ⟨hk, ⟨b, hs⟩ | ⟨size, b, hs, hne⟩⟩
    · simp only [hs]
      exact headPost_of_keeps hk (htrailers s b hs)
    · simp only [hs]
      exact ⟨hk, _, hs, fun _ hdata => absurd (by injection hdata) hne⟩
  · simp only [pollReadChunk, hstate]
    exact htrailers self bytes hstate
  · simp only [pollReadChunk, hstate]
    exact ⟨⟨rfl, id, Nat.le_refl _⟩, next, hstate, fun _ _ => hstate⟩

end ChunkHeadReader

/-! ## A chunk, specified -/

namespace ChunkDataReader

/-- What one poll of a chunk for at most `m` bytes may do. -/
def dataPost (h : Httparse) (m : Nat) (self : ChunkDataReader) :
    Post BodyError (Option Bytes) ChunkDataReader where
  pending s := (self.view h).Keeps (s.view h) ∧ s.reader.weight < self.reader.weight
  ok
    | some d, s => (self.view h).owed = (s.view h).owed.prepend d ∧
        ((self.view h).Fits → (s.view h).Fits) ∧ d.length ≤ m ∧ (0 < m → d ≠ []) ∧
        s.reader.weight + d.length ≤ self.reader.weight
    | none, s => (self.view h).Keeps (s.view h) ∧ s.state = .done
  err _ _ := (self.view h).owed = .fault

theorem keeps_reader {self : ChunkDataReader} {reader : BytesReader}
    (hunread : reader.unread = self.reader.unread) (hweight : reader.weight ≤ self.reader.weight) :
    (self.view h).Keeps (view h { self with reader }) :=
  View.keeps_of_decoded (by simp only [decoded, hunread]) rfl rfl hweight

/-- A state that makes the same of the bytes ahead. -/
theorem keeps_of_decoded {self s : ChunkDataReader} (hdec : s.decoded h = self.decoded h)
    (hline : s.maxChunkHeaderLength = self.maxChunkHeaderLength)
    (htrailer : s.maxTrailerLength = self.maxTrailerLength)
    (hweight : s.reader.weight ≤ self.reader.weight) : (self.view h).Keeps (s.view h) :=
  View.keeps_of_decoded hdec hline htrailer hweight

theorem dataPost_of_keeps {m : Nat} {self s : ChunkDataReader}
    {x : Polled BodyError (Option Bytes) × ChunkDataReader}
    (hk : (self.view h).Keeps (s.view h)) (hx : Meets x (dataPost h m s)) :
    Meets x (dataPost h m self) := by
  refine hx.mono ?_ ?_ ?_
  · rintro s' ⟨hk', hw⟩
    exact ⟨hk.trans hk', Nat.lt_of_lt_of_le hw hk.2.2⟩
  · rintro (_ | d) s'
    · rintro ⟨hk', hdone⟩
      exact ⟨hk.trans hk', hdone⟩
    · rintro ⟨howed, hf, hlen, hne, hw⟩
      exact ⟨hk.1.symm.trans howed, hf ∘ hk.2.1, hlen, hne, Nat.le_trans hw hk.2.2⟩
  · intro e s' herr
    exact hk.1.symm.trans herr

theorem pollFooterLF_meets (m : Nat) (self : ChunkDataReader)
    (hstate : self.state = .inFooterNeedLF) :
    Meets self.pollFooterLF (dataPost h m self) := by
  have hdec : self.decoded h = decodeLF (recognisers h self.parseSlots) self.reader.unread := by
    simp only [decoded, hstate]
  unfold pollFooterLF
  refine (pollEnsure_meets self.reader).andThen ?_ ?_ ?_
  · rintro reader ⟨hunread, -, hweight⟩
    exact ⟨keeps_reader hunread (Nat.le_of_lt hweight), hweight⟩
  · rintro e reader ⟨hunread, -⟩
    show toOwed (self.decoded h) = .fault
    rw [hdec, hunread]
    rfl
  · rintro - reader ⟨hne, hunread, -, hweight⟩
    obtain ⟨b, reader', hget, hcons, hw, -⟩ := BytesReader.getU8_eq hne
    rw [← hunread, hcons] at hdec
    simp only [hget]
    -- anything but a line feed is an error, here and for the decoder
    by_cases hb : b = 10
    · subst hb
      rw [if_pos rfl]
      exact ⟨keeps_of_decoded hdec.symm rfl rfl (by show reader'.weight ≤ _; omega), rfl⟩
    · rw [if_neg hb]
      show toOwed (self.decoded h) = .fault
      rw [hdec]
      simp [decodeLF, hb]

theorem pollFooterCR_meets (m : Nat) (self : ChunkDataReader)
    (hstate : self.state = .inFooterNeedCR) :
    Meets self.pollFooterCR (dataPost h m self) := by
  have hdec : self.decoded h =
      decodeFooter (recognisers h self.parseSlots) self.reader.unread := by
    simp only [decoded, hstate]
  unfold pollFooterCR
  refine (pollEnsure_meets self.reader).andThen ?_ ?_ ?_
  · rintro reader ⟨hunread, -, hweight⟩
    exact ⟨keeps_reader hunread (Nat.le_of_lt hweight), hweight⟩
  · rintro e reader ⟨hunread, -⟩
    show toOwed (self.decoded h) = .fault
    rw [hdec, hunread]
    rfl
  · rintro - reader ⟨hne, hunread, -, hweight⟩
    obtain ⟨b, reader', hget, hcons, hw, -⟩ := BytesReader.getU8_eq hne
    rw [← hunread, hcons] at hdec
    simp only [hget]
    -- behind the carriage return the same poll goes on with the line feed
    by_cases hb : b = 13
    · subst hb
      rw [if_pos rfl]
      refine dataPost_of_keeps
        (s := { self with reader := reader', state := .inFooterNeedLF })
        (keeps_of_decoded hdec.symm rfl rfl ?_) (pollFooterLF_meets m _ rfl)
      show reader'.weight ≤ self.reader.weight
      omega
    · rw [if_neg hb]
      show toOwed (self.decoded h) = .fault
      rw [hdec]
      simp [decodeFooter, hb]

/-- One poll of a chunk pays off what it hands out; the chunk ends behind its footer. -/
theorem pollRead_meets (m : Nat) (self : ChunkDataReader) :
    Meets (self.pollRead m) (dataPost h m self) := by
  rcases hstate : self.state with _ | _ | _ | _
  · have hdec : self.decoded h =
        decodeData (recognisers h self.parseSlots) self.remaining self.reader.unread := by
      simp only [decoded, hstate]
    simp only [pollRead, hstate]
    by_cases hrem : self.remaining = 0
    -- all of the data is out: the poll goes on with the footer
    · rw [if_pos hrem]
      refine dataPost_of_keeps (s := { self with state := .inFooterNeedCR })
        (keeps_of_decoded ?_ rfl rfl (Nat.le_refl _)) (pollFooterCR_meets m _ rfl)
      rw [hdec, hrem, decodeData_zero]
      rfl
    · rw [if_neg hrem]
      refine (pollEnsure_meets self.reader).andThen ?_ ?_ ?_
      · rintro reader ⟨hunread, -, hweight⟩
        refine ⟨?_, hweight⟩
        have hk := @keeps_reader h self reader hunread (Nat.le_of_lt hweight)
        rwa [hstate] at hk
      · rintro e reader ⟨hunread, -⟩
        show toOwed (self.decoded h) = .fault
        rw [hdec, hunread, decodeData, if_pos (by simp only [List.length_nil]; omega)]
        rfl
      · rintro - reader ⟨hne, hunread, -, hweight⟩
        have hbuf : 0 < reader.len := by
          rw [← BytesReader.length_asBytes]
          exact List.length_pos_iff.mpr hne
        -- a piece ends with the chunk, with what is buffered, or with what was asked for
        obtain ⟨reader', hsplit, -, -⟩ := BytesReader.splitTo_eq
          (show min (min self.remaining reader.len) m ≤ reader.len by omega)
        obtain ⟨-, hparts, -, hlen, hw, -⟩ := BytesReader.unread_splitTo hsplit
        simp only [hsplit]
        generalize hd : reader.asBytes.take (min (min self.remaining reader.len) m) = d at *
        have hpays : self.decoded h = (decodeData (recognisers h self.parseSlots)
            (self.remaining - d.length) reader'.unread).prepend d := by
          rw [hdec, ← hunread, hparts, decodeData_append _ (by omega)]
        rw [hlen] at hpays
        refine ⟨?_, ?_, by omega, ?_, by show reader'.weight + _ ≤ _; omega⟩
        · show toOwed (self.decoded h) = (toOwed _).prepend d
          rw [hpays, toOwed_prepend]
          rfl
        · intro hfits
          have hfits : (self.decoded h).Fits _ _ := hfits
          rw [hpays, Decoded.fits_prepend] at hfits
          exact hfits
        · intro hpos hnil
          rw [hnil, List.length_nil] at hlen
          omega
  · simp only [pollRead, hstate]
    exact pollFooterCR_meets m self hstate
  · simp only [pollRead, hstate]
    exact pollFooterLF_meets m self hstate
  · simp only [pollRead, hstate]
    exact ⟨⟨rfl, id, Nat.le_refl _⟩, hstate⟩

/-- A chunk does not end before its data. -/
theorem pollRead_ne_none {m : Nat} {self : ChunkDataReader} (hstate : self.state = .inBody)
    (hrem : self.remaining ≠ 0) : (self.pollRead m).1 ≠ .ok none := by
  simp only [pollRead, hstate, if_neg hrem]
  rcases pollEnsure self.reader with ⟨_ | _ | _ | _, reader⟩
  · exact fun hc => by cases hc
  · rw [andThen_ok]
    split <;> exact fun hc => by cases hc
  · exact fun hc => by cases hc
  · exact fun hc => by cases hc

end ChunkDataReader

/-! ## The whole reader, specified -/

namespace ChunkedBodyChunkStream

theorem view_weight (self : ChunkedBodyChunkStream) :
    (self.view h).weight = self.reader.weight := by
  cases self <;> rfl

/-- How many rounds a state can take before it answers. -/
def rank : ChunkedBodyChunkStream → Nat
  | .done _ => 1
  | .inChunk r => if r.state = .inBody ∧ r.remaining ≠ 0 then 1 else 3
  | .betweenChunk r =>
    match r.state with
    | .ready (.data size _) => if size = 0 then 4 else 2
    | _ => 2

theorem two_le_rank (r : ChunkHeadReader) : 2 ≤ rank (.betweenChunk r) := by
  simp only [rank]
  split
  · split <;> omega
  · omega

theorem rank_pos (self : ChunkedBodyChunkStream) : 0 < self.rank := by
  cases self with
  | done r => exact Nat.one_pos
  | inChunk r =>
    simp only [rank]
    split <;> omega
  | betweenChunk r => exact Nat.lt_of_lt_of_le Nat.two_pos (two_le_rank r)

theorem rank_le (self : ChunkedBodyChunkStream) : self.rank ≤ 4 := by
  cases self with
  | done r => simp [rank]
  | inChunk r =>
    simp only [rank]
    split <;> omega
  | betweenChunk r =>
    simp only [rank]
    split
    · split <;> omega
    · omega

end ChunkedBodyChunkStream

namespace ChunkedBodyReader

/-- What the reader owes: nothing after an error, else what its state owes. -/
def owed (h : Httparse) (self : ChunkedBodyReader) : Owed BodyEnd :=
  match self.inner with
  | none => .fault
  | some current => (current.view h).owed

def Fits (h : Httparse) (self : ChunkedBodyReader) : Prop :=
  match self.inner with
  | none => True
  | some current => (current.view h).Fits

def puller (h : Httparse) : Puller ChunkedBodyReader BodyError BodyEnd where
  poll := pollRead h
  owed := owed h
  weight := weight
  Fits := Fits h
  Done self := ∃ r, self.inner = some (.done r)

/-- One round either answers as one poll may, or goes on to a state that owes the
    same and has fewer rounds to go. -/
theorem round_spec (hsize : h.ChunkSizeLaws) (hfields : h.FieldSectionLaws) (m : Nat)
    (current : ChunkedBodyChunkStream) :
    match current.round h m with
    | .inl (answer, inner) => Meets (answer, (⟨inner⟩ : ChunkedBodyReader))
        ((puller h).post m ⟨some current⟩)
    | .inr next => (current.view h).Keeps (next.view h) ∧ next.rank < current.rank := by
  cases current with
  | done r => exact ⟨_, rfl, rfl, r, rfl⟩
  | inChunk r =>
    have hpoll := ChunkDataReader.pollRead_meets (h := h) m r
    have hdata := @ChunkDataReader.pollRead_ne_none m r
    simp only [ChunkedBodyChunkStream.round]
    generalize r.pollRead m = x at hpoll hdata
    obtain ⟨_ | (_ | d) | e | _, s⟩ := x
    · obtain ⟨hk, hw⟩ := hpoll
      exact ⟨hk.1, hk.2.1, hw⟩
    -- a chunk that has ended goes on between two chunks
    · obtain ⟨hk, hdone⟩ := hpoll
      simp only [ChunkDataReader.finish, hdone]
      refine ⟨hk.trans ⟨?_, ?_, Nat.le_refl _⟩, ?_⟩
      · show toOwed (decode _ _) = toOwed (s.decoded h)
        simp only [ChunkDataReader.decoded, hdone]
        rfl
      · intro hfits
        have hfits : (s.decoded h).Fits _ _ := hfits
        simp only [ChunkDataReader.decoded, hdone] at hfits
        exact hfits
      -- it can only have ended where no data was left
      · have hrank : ¬ (r.state = .inBody ∧ r.remaining ≠ 0) := fun hb => hdata hb.1 hb.2 rfl
        simp only [ChunkedBodyChunkStream.rank, if_neg hrank, ChunkHeadReader.new]
        omega
    · obtain ⟨howed, hfits, hlen, hne, hw⟩ := hpoll
      exact ⟨howed, hfits, hlen, hne, hw⟩
    · exact fun _ => hpoll
    · exact hpoll
  | betweenChunk r =>
    have hpoll := ChunkHeadReader.pollReadChunk_meets hsize hfields r
    simp only [ChunkedBodyChunkStream.round]
    generalize r.pollReadChunk h = x at hpoll
    obtain ⟨_ | _ | e | _, s⟩ := x
    · obtain ⟨hk, hw⟩ := hpoll
      exact ⟨hk.1, hk.2.1, hw⟩
    · obtain ⟨hk, next, hs, hzero⟩ := hpoll
      cases next with
      | data size b =>
        simp only [ChunkHeadReader.finish, hs]
        refine ⟨hk.trans ⟨?_, ?_, Nat.le_refl _⟩, ?_⟩
        · show toOwed (decodeData _ _ _) = toOwed (s.decoded h)
          simp only [ChunkHeadReader.decoded, hs]
        · intro hfits
          have hfits : (s.decoded h).Fits _ _ := hfits
          simp only [ChunkHeadReader.decoded, hs] at hfits
          exact hfits
        · by_cases hz : size = 0
          -- no size line announces a chunk without data: this head was ready before
          · have hr := hzero b (by rw [hz])
            simp [ChunkedBodyChunkStream.rank, hr, hz]
          · refine Nat.lt_of_lt_of_le ?_ (ChunkedBodyChunkStream.two_le_rank r)
            simp [ChunkedBodyChunkStream.rank, hz]
      | final b trailers =>
        simp only [ChunkHeadReader.finish, hs]
        refine ⟨hk.trans ⟨?_, fun _ => trivial, Nat.le_refl _⟩, ?_⟩
        · show Owed.ending _ = toOwed (s.decoded h)
          simp only [ChunkHeadReader.decoded, hs]
          rfl
        · exact Nat.lt_of_lt_of_le Nat.one_lt_two (ChunkedBodyChunkStream.two_le_rank r)
    · exact hpoll
    · exact hpoll

/-- The loop answers within the rounds its state has to go. -/
theorem rounds_meets (hsize : h.ChunkSizeLaws) (hfields : h.FieldSectionLaws) (m fuel : Nat)
    (current : ChunkedBodyChunkStream) (hfuel : current.rank ≤ fuel) :
    Meets ((current.rounds h m fuel).1, (⟨(current.rounds h m fuel).2⟩ : ChunkedBodyReader))
      ((puller h).post m ⟨some current⟩) := by
  induction fuel generalizing current with
  | zero => exact absurd current.rank_pos (by omega)
  | succ fuel ih =>
    have hround := round_spec hsize hfields m current
    rw [ChunkedBodyChunkStream.rounds]
    generalize current.round h m = x at hround ⊢
    rcases x with ⟨answer, inner⟩ | next
    · exact hround
    · obtain ⟨hk, hrank⟩ := hround
      have hweight := hk.2.2
      rw [ChunkedBodyChunkStream.view_weight, ChunkedBodyChunkStream.view_weight] at hweight
      have howed : (puller h).owed ⟨some next⟩ = (puller h).owed ⟨some current⟩ := hk.1
      exact Puller.post_of_owed_eq howed hk.2.1 hweight
        (ih next (by omega))

/-- Every poll of the chunked reader pays off what it hands out, over what the
    one-shot decoder makes of the stream. -/
theorem puller_lawful (hsize : h.ChunkSizeLaws) (hfields : h.FieldSectionLaws) :
    (puller h).Lawful 0 := by
  rintro m ⟨_ | current⟩ -
  · exact fun _ => rfl
  · exact rounds_meets hsize hfields m 4 current current.rank_le

/-- A round that answers leaves no state exactly if it fails. -/
theorem isNone_round {m : Nat} {current : ChunkedBodyChunkStream}
    {answer : Polled BodyError (Option Bytes)} {inner : Option ChunkedBodyChunkStream}
    (heq : current.round h m = .inl (answer, inner)) : inner.isNone = answer.failed := by
  cases current with
  | done r =>
    cases heq
    rfl
  | inChunk r =>
    simp only [ChunkedBodyChunkStream.round] at heq
    split at heq
    · cases heq
      rfl
    · cases heq
      rfl
    · cases heq
      rfl
    -- the chunk ends here: the round goes on, unless its end is not there
    · split at heq
      · cases heq
      · cases heq
        rfl
    · cases heq
      rfl
  | betweenChunk r =>
    simp only [ChunkedBodyChunkStream.round] at heq
    split at heq
    · cases heq
      rfl
    · cases heq
      rfl
    · split at heq
      · cases heq
      · cases heq
      · cases heq
        rfl
    · cases heq
      rfl

/-- The answer of the loop is that of one of its rounds. -/
theorem rounds_answer {P : Polled BodyError (Option Bytes) × Option ChunkedBodyChunkStream → Prop}
    {m : Nat} (hspent : ∀ current : ChunkedBodyChunkStream, P (current.rounds h m 0))
    (hround : ∀ (current : ChunkedBodyChunkStream) answer,
      current.round h m = .inl answer → P answer)
    (fuel : Nat) (current : ChunkedBodyChunkStream) : P (current.rounds h m fuel) := by
  induction fuel generalizing current with
  | zero => exact hspent current
  | succ fuel ih =>
    rw [ChunkedBodyChunkStream.rounds]
    split
    · next answer hanswer => exact hround current _ hanswer
    · next next _ => exact ih next

/-- Exactly a failed poll leaves no state. -/
theorem isNone_pollRead (m : Nat) (self : ChunkedBodyReader) :
    (pollRead h m self).2.inner.isNone = (pollRead h m self).1.failed := by
  obtain ⟨_ | current⟩ := self
  · rfl
  · exact rounds_answer (P := fun x => x.2.isNone = x.1.failed) (fun _ => rfl)
      (fun _ _ hanswer => isNone_round hanswer) 4 current

/-- An error leaves no state. -/
theorem inner_of_err {m : Nat} {self s : ChunkedBodyReader} {e : BodyError}
    (herr : pollRead h m self = (.err e, s)) : s.inner = none := by
  have hnone := @isNone_pollRead h m self
  rw [herr] at hnone
  exact Option.isNone_iff_eq_none.mp hnone

/-- Behind an error there are only errors. -/
theorem pollRead_none (m : Nat) {self : ChunkedBodyReader} (hnone : self.inner = none) :
    pollRead h m self = (.err .readAfterError, self) := by
  obtain ⟨inner⟩ := self
  cases hnone
  rfl

/-- A new reader owes what the decoder makes of the whole stream. -/
theorem owed_new (reader : BytesReader) (slots : ParseSlots) (maxLine maxTrailer : Nat) :
    (puller h).owed (new reader slots maxLine maxTrailer) =
      toOwed (decode (recognisers h slots) reader.unread) := rfl

/-- The limits of a new reader are about the whole stream. -/
theorem fits_new (reader : BytesReader) (slots : ParseSlots) (maxLine maxTrailer : Nat) :
    (puller h).Fits (new reader slots maxLine maxTrailer) ↔
      (decode (recognisers h slots) reader.unread).Fits maxLine maxTrailer := Iff.rfl

/-- At the end nothing is ahead that could exceed a limit. -/
theorem fits_of_done {self : ChunkedBodyReader} (hdone : (puller h).Done self) : self.Fits h := by
  obtain ⟨r, hr⟩ := hdone
  rw [Fits, hr]
  trivial

/-- A reader at the end gives back its connection and the trailers. -/
theorem finish_of_done {self : ChunkedBodyReader} (hdone : (puller h).Done self) {t : BodyEnd}
    (howed : (puller h).owed self = .ending t) :
    ∃ reader slots, self.finish = some (reader, slots, t.trailers) ∧ reader.unread = t.rest := by
  obtain ⟨r, hr⟩ := hdone
  obtain ⟨inner⟩ := self
  cases hr
  have heq : BodyEnd.mk r.trailers r.reader.unread = t := by
    have htail := congrArg Owed.tail howed
    exact Option.some.inj htail
  subst heq
  exact ⟨r.reader, r.parseSlots, rfl, rfl⟩

/-- A drain gives the connection back behind the body, with the trailers, if the body
    is complete. -/
theorem drain_meets (hsize : h.ChunkSizeLaws) (hfields : h.FieldSectionLaws)
    (self : ChunkedBodyReader) :
    Meets (self.drain h) {
      pending := fun _ => False
      ok := fun parts _ => ∃ t, (self.owed h).tail = some t ∧ parts.2.2 = t.trailers ∧
        parts.1.unread = t.rest
      err := fun _ _ => self.Fits h → (self.owed h).tail = none } := by
  have hdrain := Puller.drain_meets (puller_lawful hsize hfields) (Nat.zero_le drainSize)
    (by decide) self
  refine hdrain.andThen (fun _ hf => hf) (fun _ _ he => he) ?_
  rintro - s ⟨t, htail, howed, hdone⟩
  obtain ⟨reader, slots, hfinish, hrest⟩ := finish_of_done hdone howed
  rw [hfinish]
  exact ⟨t, htail, rfl, hrest⟩

end ChunkedBodyReader

end Jrpxy.Body.Reader
