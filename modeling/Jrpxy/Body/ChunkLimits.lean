/-
  Jrpxy.Body.ChunkLimits

  The limits on size lines and trailer sections.

  A length is compared with its limit only when the parser asks for more.  So
  a line that is not buffered whole is rejected for its length if and only if
  it is too long, whatever the delivery (`pollSize_length`,
  `pollTrailers_length`), and one that is buffered whole never is.  The limits
  are enforced on a stream if and only if it has nothing they would stop
  (`enforcesLimits_iff`).
-/
import Jrpxy.Body.Coding
import Jrpxy.HttpMessage.ResponseHead

namespace Jrpxy.Body

open Poll PullStream Incremental ChunkedCoding Ascii Util HttpMessage Reader
open Httparse.Reference (reference chunkSizeLaws fieldSectionLaws)
open ParseSlots (buffered buffered_asBytes buffered_unread)

/-- An item at the start of `s` is longer than `max`, or will be when it is complete. -/
def TooLong {ε α : Type} (max : Nat) (s : Bytes) : Except ε (Status (Nat × α)) → Prop
  | .ok (.complete (n, _)) => max < n
  | .ok .incomplete => s ≠ [] ∧ max ≤ s.length
  | .error _ => False

/-- Once as much as the limit has arrived and more is asked for, the item is too long. -/
theorem tooLong_of_incomplete {ε α : Type} {parse : Bytes → Except ε (Status (Nat × α))}
    (hp : StreamParser parse) {p t s : Bytes} {max : Nat} (hincomplete : parse p = .ok .incomplete)
    (hne : p ≠ []) (hmax : max ≤ p.length) (hs : p ++ t = s) (hok : ∀ e, parse s ≠ .error e) :
    TooLong max s (parse s) := by
  subst hs
  rcases hparse : parse (p ++ t) with e | (_ | ⟨n, a⟩)
  · exact hok e hparse
  · refine ⟨by simp [hne], ?_⟩
    rw [List.length_append]
    omega
  · have hlt := hp.lt_of_incomplete hincomplete hparse
    exact Nat.lt_of_le_of_lt hmax hlt

namespace Reader.ChunkHeadReader

variable {h : Httparse}

/-- Read the next chunk. -/
def readChunk (h : Httparse) (self : ChunkHeadReader) :
    Polled BodyError NextChunk × ChunkHeadReader :=
  andThen (blockOn (pollReadChunk h) (self.reader.weight + 1) self) id fun _ self =>
    match self.finish with
    | none => (.panic, self)
    | some next => (.ok next, self)

/-- The state differs in what is buffered at most. -/
def SameItem (self s : ChunkHeadReader) : Prop :=
  s.state = self.state ∧ s.reader.unread = self.reader.unread ∧
    s.parseSlots = self.parseSlots ∧ s.maxChunkHeaderLength = self.maxChunkHeaderLength ∧
    s.maxTrailerLength = self.maxTrailerLength

theorem SameItem.of_unread {self : ChunkHeadReader} {reader : BytesReader}
    (hunread : reader.unread = self.reader.unread) : SameItem self { self with reader } :=
  ⟨rfl, hunread, rfl, rfl, rfl⟩

theorem SameItem.trans {r s t : ChunkHeadReader} (hrs : SameItem r s) (hst : SameItem s t) :
    SameItem r t :=
  ⟨hst.1.trans hrs.1, hst.2.1.trans hrs.2.1, hst.2.2.1.trans hrs.2.2.1,
    hst.2.2.2.1.trans hrs.2.2.2.1, hst.2.2.2.2.trans hrs.2.2.2.2⟩

/-- What the rounds on one item may do: an error is about the length if and only if the
    item is too long. -/
def lengthPost {ε α : Type} (tooLong : BodyError) (max : Nat)
    (parse : Bytes → Except ε (Status (Nat × α))) (self : ChunkHeadReader) :
    Post BodyError Unit ChunkHeadReader where
  pending s := SameItem self s
  ok _ s := s.state ≠ .readingSize ∧ ∃ n a, parse self.reader.unread = .ok (.complete (n, a))
  err e s := s.state = self.state ∧
    (e = tooLong ↔ TooLong max self.reader.unread (parse self.reader.unread))

theorem lengthPost_of_sameItem {ε α : Type} {tooLong : BodyError} {max : Nat}
    {parse : Bytes → Except ε (Status (Nat × α))} {self s : ChunkHeadReader}
    {x : Polled BodyError Unit × ChunkHeadReader} (hsame : SameItem self s)
    (hx : Meets x (lengthPost tooLong max parse s)) : Meets x (lengthPost tooLong max parse self) := by
  obtain ⟨hstate, hunread, -⟩ := id hsame
  refine hx.mono ?_ ?_ ?_
  · exact fun s' hs' => hsame.trans hs'
  · rintro - s' ⟨hpast, hcomplete⟩
    rw [hunread] at hcomplete
    exact ⟨hpast, hcomplete⟩
  · rintro e s' ⟨hs', herr⟩
    rw [hunread] at herr
    exact ⟨hs'.trans hstate, herr⟩

/-- On an item that is not complete the rounds end at the limit, and ask for more below it. -/
theorem incomplete_length {ε α : Type} {tooLong : BodyError} {max : Nat}
    {parse : Bytes → Except ε (Status (Nat × α))} (hp : StreamParser parse)
    {self : ChunkHeadReader} {reader : BytesReader}
    {rounds : ChunkHeadReader → Polled BodyError Unit × ChunkHeadReader}
    (hincomplete : parse reader.asBytes = .ok .incomplete) (hne : reader.asBytes ≠ [])
    (hunread : reader.unread = self.reader.unread) (hok : ∀ e, parse self.reader.unread ≠ .error e)
    (htooLong : ∀ e, BodyError.ofReaderBufferError e ≠ tooLong)
    (hrounds : ∀ s : BytesReader, s.unread = self.reader.unread →
      Meets (rounds { self with reader := s }) (lengthPost tooLong max parse { self with reader := s })) :
    Meets (if reader.len ≥ max then (.err tooLong, { self with reader }) else
        andThen (pollExtend reader) (fun reader => { self with reader }) fun _ reader =>
          rounds { self with reader })
      (lengthPost tooLong max parse self) := by
  split
  -- the limit is reached, and the item goes on
  · next hlen =>
    refine ⟨rfl, iff_of_true rfl ?_⟩
    rw [← BytesReader.length_asBytes] at hlen
    exact tooLong_of_incomplete hp hincomplete hne hlen hunread hok
  · next hlen =>
    refine (pollExtend_unread reader).andThen ?_ ?_ ?_
    · rintro s ⟨hs, -⟩
      exact .of_unread (hs.trans hunread)
    -- the stream ends before the limit, and so the item is not too long
    · rintro e s ⟨hall, e', rfl⟩
      refine ⟨rfl, iff_of_false (htooLong e') ?_⟩
      rw [← hunread, ← hall, hincomplete]
      rintro ⟨-, hmax⟩
      rw [BytesReader.length_asBytes] at hmax
      exact hlen hmax
    · rintro - s ⟨hs, -⟩
      have hs := hs.trans hunread
      exact lengthPost_of_sameItem (.of_unread hs) (hrounds s hs)

/-- The rounds on a size line that is not malformed. -/
theorem pollSize_length (laws : h.ChunkSizeLaws) (fuel : Nat) (self : ChunkHeadReader)
    (hstate : self.state = .readingSize)
    (hline : ∀ e, h.parseChunkSize self.reader.unread ≠ .error e) :
    Meets (pollSize h fuel self) (lengthPost (.chunkHeaderTooLong self.maxChunkHeaderLength)
      self.maxChunkHeaderLength h.parseChunkSize self) := by
  induction fuel generalizing self with
  | zero => exact ⟨rfl, rfl, rfl, rfl, rfl⟩
  | succ fuel ih =>
    rw [pollSize]
    refine (pollEnsure_meets self.reader).andThen ?_ ?_ ?_
    · rintro reader ⟨hunread, -⟩
      exact .of_unread hunread
    -- the stream ends in front of the item
    · rintro e reader ⟨hnil, e', rfl⟩
      refine ⟨rfl, iff_of_false (BodyError.ofReaderBufferError_ne e' _).1 ?_⟩
      rw [hnil, laws.nil]
      exact fun hlong => hlong.1 rfl
    · rintro - reader ⟨hne, hunread, -⟩
      have hbuf : reader.asBytes ++ reader.io.stream = self.reader.unread := hunread
      rcases hparse : h.parseChunkSize reader.asBytes with e | (_ | ⟨n, size⟩)
      · obtain ⟨e', he'⟩ := laws.parser.error_append hparse reader.io.stream
        rw [hbuf] at he'
        exact absurd he' (hline e')
      · refine incomplete_length laws.parser hparse hne hunread hline
          (fun e' => (BodyError.ofReaderBufferError_ne e' _).1) ?_
        intro s hs
        exact ih { self with reader := s } hstate (by rw [hs]; exact hline)
      · have hn := laws.parser.length_le hparse
        rw [BytesReader.length_asBytes] at hn
        obtain ⟨reader', hsplit, -, -⟩ := BytesReader.splitTo_eq hn
        have hcomplete := laws.parser.complete_append hparse reader.io.stream
        rw [hbuf] at hcomplete
        simp only [hsplit]
        split
        · exact ⟨(by intro h; cases h), n, size, hcomplete⟩
        · exact ⟨(by intro h; cases h), n, size, hcomplete⟩

/-- The rounds on a trailer section that is not malformed. -/
theorem pollTrailers_length (laws : h.FieldSectionLaws) {bytes : Bytes} (fuel : Nat)
    (self : ChunkHeadReader) (hstate : self.state = .readingTrailers bytes)
    (hsection : ∀ e, h.parseHeaders self.parseSlots.slotCount self.reader.unread ≠ .error e) :
    Meets (pollTrailers h bytes fuel self)
      (lengthPost (.trailerError (.maxLengthExceeded self.maxTrailerLength))
        self.maxTrailerLength (h.parseHeaders self.parseSlots.slotCount) self) := by
  have hparser := laws.parser self.parseSlots.slotCount
  induction fuel generalizing self with
  | zero => exact ⟨rfl, rfl, rfl, rfl, rfl⟩
  | succ fuel ih =>
    rw [pollTrailers]
    refine (pollEnsure_meets self.reader).andThen ?_ ?_ ?_
    · rintro reader ⟨hunread, -⟩
      exact .of_unread hunread
    -- the stream ends in front of the item
    · rintro e reader ⟨hnil, e', rfl⟩
      refine ⟨rfl, iff_of_false (BodyError.ofReaderBufferError_ne e' _).2 ?_⟩
      rw [hnil, laws.nil]
      exact fun hlong => hlong.1 rfl
    · rintro - reader ⟨hne, hunread, -⟩
      have hbuf : reader.asBytes ++ reader.io.stream = self.reader.unread := hunread
      rcases hparse : h.parseHeaders self.parseSlots.slotCount reader.asBytes with
        e | (_ | ⟨n, hs⟩)
      · obtain ⟨e', he'⟩ := hparser.error_append hparse reader.io.stream
        rw [hbuf] at he'
        exact absurd he' (hsection e')
      · simp only [ParseSlots.parseHeaders_incomplete hparse]
        refine incomplete_length hparser hparse hne hunread hsection
          (fun e' => (BodyError.ofReaderBufferError_ne e' _).2) ?_
        intro s hs
        exact ih { self with reader := s } hstate (by rw [hs]; exact hsection) hparser
      · obtain ⟨reader', heq, -⟩ := ParseSlots.parseHeaders_complete laws hparse
        have hcomplete := hparser.complete_append hparse reader.io.stream
        rw [hbuf] at hcomplete
        simp only [heq]
        exact ⟨(by intro h; cases h), n, hs, hcomplete⟩

/-- Behind the size line no error is about its length. -/
theorem pollTrailers_past (laws : h.FieldSectionLaws) (bytes : Bytes) (max fuel : Nat)
    (self : ChunkHeadReader) (hpast : self.state ≠ .readingSize) :
    Meets (pollTrailers h bytes fuel self) {
      pending := fun s => s.state ≠ .readingSize
      ok := fun _ _ => True
      err := fun e _ => e ≠ .chunkHeaderTooLong max } := by
  induction fuel generalizing self with
  | zero => exact hpast
  | succ fuel ih =>
    rw [pollTrailers]
    refine (pollEnsure_meets self.reader).andThen ?_ ?_ ?_
    · exact fun _ _ => hpast
    · rintro e reader ⟨-, e', rfl⟩
      exact (BodyError.ofReaderBufferError_ne e' max).1
    · rintro - reader -
      rcases hparse : h.parseHeaders self.parseSlots.slotCount reader.asBytes with
        e | (_ | ⟨n, hs⟩)
      · obtain ⟨t, ht, -⟩ := mapTrailerError_parse e
        simp only [ParseSlots.parseHeaders_error hparse, ht]
        intro h
        cases h
      -- the limit that can be exceeded here is that of the trailers
      · simp only [ParseSlots.parseHeaders_incomplete hparse]
        split
        · intro h
          cases h
        · refine (pollExtend_meets reader).andThen ?_ ?_ ?_
          · exact fun _ _ => hpast
          · rintro e s ⟨-, e', rfl⟩
            exact (BodyError.ofReaderBufferError_ne e' max).1
          · rintro - s -
            exact ih { self with reader := s } hpast
      · obtain ⟨reader', heq, -⟩ := ParseSlots.parseHeaders_complete laws hparse
        simp only [heq]
        exact trivial

theorem pollReadChunk_past (laws : h.FieldSectionLaws) (max : Nat) (self : ChunkHeadReader)
    (hpast : self.state ≠ .readingSize) :
    Meets (self.pollReadChunk h) {
      pending := fun s => s.state ≠ .readingSize
      ok := fun _ _ => True
      err := fun e _ => e ≠ .chunkHeaderTooLong max } := by
  rcases hstate : self.state with _ | bytes | next
  · exact absurd hstate hpast
  · simp only [pollReadChunk, hstate]
    exact pollTrailers_past laws bytes max _ self hpast
  · simp only [pollReadChunk, hstate]
    trivial

/-- One poll on a size line that is not malformed. -/
theorem pollReadChunk_line (hsize : h.ChunkSizeLaws) (hfields : h.FieldSectionLaws)
    (self : ChunkHeadReader) (hstate : self.state = .readingSize)
    (hline : ∀ e, h.parseChunkSize self.reader.unread ≠ .error e) :
    Meets (self.pollReadChunk h) {
      pending := fun s => SameItem self s ∨ s.state ≠ .readingSize ∧
        ∃ n v, h.parseChunkSize self.reader.unread = .ok (.complete (n, v))
      ok := fun _ _ => ∃ n v, h.parseChunkSize self.reader.unread = .ok (.complete (n, v))
      err := fun e _ => (e = .chunkHeaderTooLong self.maxChunkHeaderLength ↔
          TooLong self.maxChunkHeaderLength self.reader.unread
            (h.parseChunkSize self.reader.unread)) ∨
        e ≠ .chunkHeaderTooLong self.maxChunkHeaderLength ∧
          ∃ n v, h.parseChunkSize self.reader.unread = .ok (.complete (n, v)) } := by
  simp only [pollReadChunk, hstate]
  refine (pollSize_length hsize _ self hstate hline).andThen ?_ ?_ ?_
  · exact fun s hs => .inl hs
  · exact fun e s herr => .inl herr.2
  · rintro - s ⟨hpast, hcomplete⟩
    rcases hs : s.state with _ | bytes | next
    · exact absurd hs hpast
    · refine (pollTrailers_past hfields bytes self.maxChunkHeaderLength _ s hpast).mono ?_ ?_ ?_
      · exact fun s' hs' => .inr ⟨hs', hcomplete⟩
      · exact fun _ _ _ => hcomplete
      · exact fun e s' he => .inr ⟨he, hcomplete⟩
    · exact hcomplete

/-- A whole read of the next chunk is not pending. -/
theorem blockOn_pollReadChunk_ready (hsize : h.ChunkSizeLaws) (hfields : h.FieldSectionLaws)
    (self : ChunkHeadReader) :
    (blockOn (pollReadChunk h) (self.reader.weight + 1) self).1 ≠ .pending := by
  refine blockOn_ready (I := fun _ => True) (μ := fun s => s.reader.weight) ?_ _ self trivial
    (Nat.lt_succ_self _)
  intro s s' _ heq
  have hpost := pollReadChunk_meets hsize hfields s
  rw [heq] at hpost
  exact ⟨trivial, hpost.2⟩

/-- An error of the next chunk is an error of its polls. -/
theorem readChunk_eq_err {self : ChunkHeadReader} {e : BodyError} :
    (self.readChunk h).1 = .err e ↔
      (blockOn (pollReadChunk h) (self.reader.weight + 1) self).1 = .err e := by
  unfold readChunk
  generalize blockOn (pollReadChunk h) (self.reader.weight + 1) self = x
  obtain ⟨_ | _ | e' | _, s⟩ := x
  · exact ⟨(by intro h; cases h), (by intro h; cases h)⟩
  · simp only [andThen_ok]
    cases s.finish with
    | none => exact ⟨(by intro h; cases h), (by intro h; cases h)⟩
    | some next => exact ⟨(by intro h; cases h), (by intro h; cases h)⟩
  · exact ⟨fun h => congrArg _ (Polled.err.inj h), fun h => congrArg _ (Polled.err.inj h)⟩
  · exact ⟨(by intro h; cases h), (by intro h; cases h)⟩

/-- The next chunk fails with an error exactly under the condition under which its polls do. -/
theorem readChunk_err_iff (hsize : h.ChunkSizeLaws) (hfields : h.FieldSectionLaws)
    {self : ChunkHeadReader} {J : ChunkHeadReader → Prop} {e : BodyError} {P : Prop}
    (hrun : Meets (blockOn (pollReadChunk h) (self.reader.weight + 1) self) {
      pending := J
      ok := fun _ _ => ¬ P
      err := fun e' _ => e' = e ↔ P }) :
    (self.readChunk h).1 = .err e ↔ P := by
  have hready := blockOn_pollReadChunk_ready hsize hfields self
  rw [readChunk_eq_err]
  generalize blockOn (pollReadChunk h) (self.reader.weight + 1) self = x at hready hrun ⊢
  obtain ⟨_ | _ | e' | _, s⟩ := x
  · exact absurd rfl hready
  · exact iff_of_false (by intro h; cases h) hrun
  · exact ⟨fun heq => hrun.mp (Polled.err.inj heq), fun hP => congrArg _ (hrun.mpr hP)⟩
  · exact hrun.elim

/-- A size line that is within the limit, or not complete, is rejected for its length if
    and only if it is too long. -/
theorem readChunk_line_iff (hsize : h.ChunkSizeLaws) (hfields : h.FieldSectionLaws)
    (self : ChunkHeadReader) (hstate : self.state = .readingSize)
    (hline : ∀ e, h.parseChunkSize self.reader.unread ≠ .error e)
    (hfit : ∀ n v, h.parseChunkSize self.reader.unread = .ok (.complete (n, v)) →
      n ≤ self.maxChunkHeaderLength) :
    (self.readChunk h).1 = .err (.chunkHeaderTooLong self.maxChunkHeaderLength) ↔
      TooLong self.maxChunkHeaderLength self.reader.unread
        (h.parseChunkSize self.reader.unread) := by
  have hshort : (∃ n v, h.parseChunkSize self.reader.unread = .ok (.complete (n, v))) →
      ¬ TooLong self.maxChunkHeaderLength self.reader.unread
        (h.parseChunkSize self.reader.unread) := by
    rintro ⟨n, v, hcomplete⟩ hlong
    rw [hcomplete] at hlong
    exact absurd (hfit n v hcomplete) (Nat.not_le_of_lt hlong)
  -- between the polls the reader is on the size line, or behind one that is within the limit
  refine readChunk_err_iff hsize hfields (blockOn_meets
    (I := fun s => SameItem self s ∨ s.state ≠ .readingSize ∧
      ∃ n v, h.parseChunkSize self.reader.unread = .ok (.complete (n, v))) rfl ?_ _
    (.inl ⟨rfl, rfl, rfl, rfl, rfl⟩))
  rintro s (hsame | ⟨hpast, hcomplete⟩)
  · obtain ⟨hs, hunread, -, hmax, -⟩ := id hsame
    have hpoll := pollReadChunk_line hsize hfields s (hs.trans hstate) (by rw [hunread]; exact hline)
    rw [hunread, hmax] at hpoll
    refine hpoll.mono ?_ (fun _ _ hcomplete => hshort hcomplete) ?_
    · rintro s' (hsame' | hpast)
      · exact .inl (hsame.trans hsame')
      · exact .inr hpast
    · rintro e s' (herr | ⟨hne, hcomplete⟩)
      · exact herr
      · exact iff_of_false hne (hshort hcomplete)
  · refine (pollReadChunk_past hfields self.maxChunkHeaderLength s hpast).mono ?_ ?_ ?_
    · exact fun s' hs' => .inr ⟨hs', hcomplete⟩
    · exact fun _ _ _ => hshort hcomplete
    · exact fun e s' hne => iff_of_false hne (hshort hcomplete)

/-- A trailer section that is within the limit, or not complete, is rejected for its
    length if and only if it is too long. -/
theorem readChunk_trailers_iff (hsize : h.ChunkSizeLaws) (hfields : h.FieldSectionLaws)
    {bytes : Bytes} (self : ChunkHeadReader) (hstate : self.state = .readingTrailers bytes)
    (hsection : ∀ e, h.parseHeaders self.parseSlots.slotCount self.reader.unread ≠ .error e)
    (hfit : ∀ n hs, h.parseHeaders self.parseSlots.slotCount self.reader.unread =
      .ok (.complete (n, hs)) → n ≤ self.maxTrailerLength) :
    (self.readChunk h).1 = .err (.trailerError (.maxLengthExceeded self.maxTrailerLength)) ↔
      TooLong self.maxTrailerLength self.reader.unread
        (h.parseHeaders self.parseSlots.slotCount self.reader.unread) := by
  have hrun : Meets (blockOn (pollReadChunk h) (self.reader.weight + 1) self)
      (lengthPost (.trailerError (.maxLengthExceeded self.maxTrailerLength))
        self.maxTrailerLength (h.parseHeaders self.parseSlots.slotCount) self) := by
    refine blockOn_meets (I := SameItem self) rfl ?_ _ ⟨rfl, rfl, rfl, rfl, rfl⟩
    intro s hsame
    obtain ⟨hs, hunread, hslots, -, hmax⟩ := id hsame
    rw [hstate] at hs
    have hpoll := pollTrailers_length hfields (s.reader.weight + 1) s hs
      (by rw [hunread, hslots]; exact hsection)
    simp only [pollReadChunk, hs]
    apply lengthPost_of_sameItem hsame
    rw [← hmax, ← hslots]
    exact hpoll
  refine readChunk_err_iff hsize hfields (hrun.mono (fun _ h => h) ?_ ?_)
  · rintro - s ⟨-, n, hs, hcomplete⟩ hlong
    rw [hcomplete] at hlong
    exact absurd (hfit n hs hcomplete) (Nat.not_le_of_lt hlong)
  · exact fun e s herr => herr.2

/-! ### What is buffered whole -/

theorem pollEnsure_of_ne_nil {r : BytesReader} (hne : r.asBytes ≠ []) :
    pollEnsure r = (.ok (), r) := by
  have hempty : r.isEmpty ≠ true := fun h => hne (BytesReader.isEmpty_iff.mp h)
  rw [pollEnsure, BytesReader.pollEnsure, if_pos (by simpa using hempty)]
  rfl

/-- A size line that is buffered whole is not rejected for its length. -/
theorem readChunk_buffered_line (hsize : h.ChunkSizeLaws) (hfields : h.FieldSectionLaws)
    (self : ChunkHeadReader) (hstate : self.state = .readingSize) {n v : Nat}
    (hcomplete : h.parseChunkSize self.reader.asBytes = .ok (.complete (n, v))) (max : Nat) :
    (self.readChunk h).1 ≠ .err (.chunkHeaderTooLong max) := by
  have hne : self.reader.asBytes ≠ [] := by
    intro hnil
    rw [hnil, hsize.nil] at hcomplete
    cases hcomplete
  have hn := hsize.parser.length_le hcomplete
  rw [BytesReader.length_asBytes] at hn
  obtain ⟨reader', hsplit, -, -⟩ := BytesReader.splitTo_eq hn
  refine (readChunk_err_iff hsize hfields (P := False) (blockOn_meets
    (I := fun s => s = self ∨ s.state ≠ .readingSize) rfl ?_ _ (.inl rfl))).mp
  -- the first poll gets behind the size line, and no later one comes back to it
  rintro s (rfl | hpast)
  · simp only [pollReadChunk, hstate, pollSize, pollEnsure_of_ne_nil hne, andThen_ok, hcomplete,
      hsplit]
    split
    · refine (pollTrailers_past hfields _ max _ _ ?_).mono ?_ ?_ ?_
      · intro h
        cases h
      · exact fun s' hs' => .inr hs'
      · exact fun _ _ _ => id
      · exact fun e s' hne => iff_of_false hne id
    · exact id
  · refine (pollReadChunk_past hfields max s hpast).mono ?_ ?_ ?_
    · exact fun s' hs' => .inr hs'
    · exact fun _ _ _ => id
    · exact fun e s' hne => iff_of_false hne id

/-- A trailer section that is buffered whole is not rejected for its length. -/
theorem readChunk_buffered_trailers (hfields : h.FieldSectionLaws) {bytes : Bytes}
    (self : ChunkHeadReader) (hstate : self.state = .readingTrailers bytes) {n : Nat}
    {hs : List Httparse.Header}
    (hcomplete : h.parseHeaders self.parseSlots.slotCount self.reader.asBytes =
      .ok (.complete (n, hs))) (e : BodyError) :
    (self.readChunk h).1 ≠ .err e := by
  have hne : self.reader.asBytes ≠ [] := by
    intro hnil
    rw [hnil, hfields.nil] at hcomplete
    cases hcomplete
  obtain ⟨reader', heq, -⟩ := ParseSlots.parseHeaders_complete hfields hcomplete
  rw [Ne, readChunk_eq_err, blockOn]
  simp only [pollReadChunk, hstate, pollTrailers, pollEnsure_of_ne_nil hne, andThen_ok, heq]
  intro h
  cases h

end Reader.ChunkHeadReader

/-! ## Limits, whatever the delivery -/

/-- Two runs end the same way: both accept or both reject, having handed out the same. -/
def SameVerdict (x y : Polled BodyError Unit × Bytes × ChunkedBodyReader) : Prop :=
  x.1.isOk = y.1.isOk ∧ x.2.1 = y.2.1

/-- What the limits are to guarantee of a stream, however it is delivered and however much
    of it is buffered already: one verdict, and at every size line and trailer section
    that is not malformed a rejection for its length exactly if it is too long. -/
structure EnforcesLimits (h : Httparse) (slots : ParseSlots) (maxLine maxTrailer : Nat)
    (stream : Bytes) : Prop where
  verdict : ∀ r r' : BytesReader, r.unread = stream → r'.unread = stream →
    ∀ maxLens maxLens' : Nat → Nat, (∀ i, 1 ≤ maxLens i) → (∀ i, 1 ≤ maxLens' i) →
      SameVerdict
        ((ChunkedBodyReader.puller h).readAll maxLens (.new r slots maxLine maxTrailer))
        ((ChunkedBodyReader.puller h).readAll maxLens' (.new r' slots maxLine maxTrailer))
  line : ∀ s, LineAt (recognisers h slots) stream s → (∀ e, h.parseChunkSize s ≠ .error e) →
    ∀ r : BytesReader, r.unread = s →
      (((ChunkHeadReader.new r slots maxLine maxTrailer).readChunk h).1 =
          .err (.chunkHeaderTooLong maxLine) ↔
        TooLong maxLine s (h.parseChunkSize s))
  trailers : ∀ s, SectionAt (recognisers h slots) stream s →
    (∀ e, h.parseHeaders slots.slotCount s ≠ .error e) →
    ∀ (r : BytesReader) (bytes : Bytes), r.unread = s →
      ((ChunkHeadReader.readChunk h
          ⟨r, slots, maxLine, maxTrailer, .readingTrailers bytes⟩).1 =
          .err (.trailerError (.maxLengthExceeded maxTrailer)) ↔
        TooLong maxTrailer s (h.parseHeaders slots.slotCount s))

variable {h : Httparse}

/-- Within the limits, every delivery comes to what the decoder makes of the stream. -/
theorem sameVerdict_of_fits (hsize : h.ChunkSizeLaws) (hfields : h.FieldSectionLaws)
    {slots : ParseSlots} {maxLine maxTrailer : Nat} {r r' : BytesReader}
    (hunread : r'.unread = r.unread)
    (hfits : (decode (recognisers h slots) r.unread).Fits maxLine maxTrailer)
    {maxLens maxLens' : Nat → Nat} (hpos : ∀ i, 1 ≤ maxLens i) (hpos' : ∀ i, 1 ≤ maxLens' i) :
    SameVerdict ((ChunkedBodyReader.puller h).readAll maxLens (.new r slots maxLine maxTrailer))
      ((ChunkedBodyReader.puller h).readAll maxLens' (.new r' slots maxLine maxTrailer)) := by
  have hread := readAll_eq_decode hsize hfields r slots hfits hpos
  have hread' := readAll_eq_decode hsize hfields r' slots (hunread ▸ hfits) hpos'
  have hdata := hread'.data
  have houtcome := hread.outcome
  have houtcome' := hread'.outcome
  rw [hunread] at hdata houtcome'
  refine ⟨?_, hread.data.trans hdata.symm⟩
  cases htail : (decode (recognisers h slots) r.unread).tail with
  | none =>
    rw [htail] at houtcome houtcome'
    obtain ⟨e, he⟩ := houtcome
    obtain ⟨e', he'⟩ := houtcome'
    rw [he, he']
    rfl
  | some t =>
    rw [htail] at houtcome houtcome'
    rw [houtcome.1, houtcome'.1]

/-- The limits are enforced on a stream, whatever its delivery, if and only if no complete
    size line and no complete trailer section of it is beyond them. -/
theorem enforcesLimits_iff (hsize : h.ChunkSizeLaws) (hfields : h.FieldSectionLaws)
    (slots : ParseSlots) (maxLine maxTrailer : Nat) (stream : Bytes) :
    EnforcesLimits h slots maxLine maxTrailer stream ↔
      (decode (recognisers h slots) stream).Fits maxLine maxTrailer := by
  have hfield : ∀ s, (recognisers h slots).fields s =
      (h.parseHeaders slots.slotCount s).map (Status.mapItem _) := fun _ => rfl
  constructor
  · intro henforces
    -- a delivery that has everything buffered lets every complete item through
    apply fits_iff.mpr
    constructor
    · intro s n len hat hcomplete
      have hline : h.parseChunkSize s = .ok (.complete (n, len)) := hcomplete
      apply Nat.le_of_not_lt
      intro hlong
      have hlimit := henforces.line s hat (by rw [hline]; intro _ h; cases h)
        (buffered s) (buffered_unread s)
      rw [hline] at hlimit
      have hbuffered : h.parseChunkSize (buffered s).asBytes = .ok (.complete (n, len)) := by
        rw [buffered_asBytes, hline]
      exact ChunkHeadReader.readChunk_buffered_line hsize hfields
        (.new (buffered s) slots maxLine maxTrailer) rfl hbuffered maxLine (hlimit.mpr hlong)
    · intro s n t hat hcomplete
      rw [hfield] at hcomplete
      rcases hsection : h.parseHeaders slots.slotCount s with e | (_ | ⟨m, hs⟩)
      · rw [hsection] at hcomplete; cases hcomplete
      · rw [hsection] at hcomplete; cases hcomplete
      · rw [hsection] at hcomplete
        cases hcomplete
        apply Nat.le_of_not_lt
        intro hlong
        have hlimit := henforces.trailers s hat (by rw [hsection]; intro _ h; cases h) (buffered s) []
          (buffered_unread s)
        rw [hsection] at hlimit
        have hbuffered : h.parseHeaders slots.slotCount (buffered s).asBytes =
            .ok (.complete (n, hs)) := by
          rw [buffered_asBytes, hsection]
        exact ChunkHeadReader.readChunk_buffered_trailers hfields
          ⟨buffered s, slots, maxLine, maxTrailer, .readingTrailers []⟩ rfl hbuffered _
          (hlimit.mpr hlong)
  · intro hfits
    obtain ⟨hlines, hsections⟩ := fits_iff.mp hfits
    constructor
    · rintro r r' rfl hunread maxLens maxLens' hpos hpos'
      exact sameVerdict_of_fits hsize hfields hunread hfits hpos hpos'
    · rintro s hat hok r rfl
      exact ChunkHeadReader.readChunk_line_iff hsize hfields (.new r slots maxLine maxTrailer) rfl hok
        fun n v hcomplete => hlines r.unread n v hat hcomplete
    · rintro s hat hok r bytes rfl
      refine ChunkHeadReader.readChunk_trailers_iff hsize hfields
        ⟨r, slots, maxLine, maxTrailer, .readingTrailers bytes⟩ rfl hok ?_
      intro n hs hcomplete
      refine hsections r.unread n ⟨hs.map Httparse.Header.field⟩ hat ?_
      rw [hfield, hcomplete]
      rfl

/-- A body of two chunks and no trailers is within the limits of 18 and 2 bytes. -/
theorem enforcesLimits_iff_wiki :
    EnforcesLimits reference ⟨4⟩ 18 2 (encodeBody [ascii "Wiki", ascii "pedia"] .empty) := by
  apply (enforcesLimits_iff chunkSizeLaws fieldSectionLaws ⟨4⟩ 18 2 _).mpr
  rw [← List.append_nil (encodeBody _ _)]
  exact fits_encodeBody chunkSizeLaws fieldSectionLaws (by simp [ascii]) (by decide +kernel)
    (by decide) [] (by decide) (by decide)

/-- A size line of 40 bytes, delivered in one segment or byte by byte. -/
def longLine : Bytes := ascii "1;ext=aaaaaaaaaaaaaaaaaaaaaaaaaaaaaaaa\r\nX\r\n0\r\n\r\n"

def inOneSegment : BytesReader := ⟨⟨[.data 49 longLine.tail]⟩, .default⟩

def byteByByte : BytesReader := ⟨⟨longLine.map fun b => .data b []⟩, .default⟩

/-- One delivery of the line gets past a limit of 16, the other does not. -/
theorem longLine_verdicts :
    inOneSegment.unread = longLine ∧ byteByByte.unread = longLine ∧
    ((ChunkedBodyReader.puller reference).readAll (fun _ => 8)
      (.new inOneSegment ⟨4⟩ 16 64)).1 = .ok () ∧
    ((ChunkedBodyReader.puller reference).readAll (fun _ => 8)
      (.new byteByByte ⟨4⟩ 16 64)).1 = .err (.chunkHeaderTooLong 16) ∧
    ¬ EnforcesLimits reference ⟨4⟩ 16 64 longLine := by
  have hone : inOneSegment.unread = longLine := by decide +kernel
  have hbytes : byteByByte.unread = longLine := by decide +kernel
  have haccept : ((ChunkedBodyReader.puller reference).readAll (fun _ => 8)
    (.new inOneSegment ⟨4⟩ 16 64)).1 = .ok () := by decide +kernel
  have hreject : ((ChunkedBodyReader.puller reference).readAll (fun _ => 8)
    (.new byteByByte ⟨4⟩ 16 64)).1 = .err (.chunkHeaderTooLong 16) := by decide +kernel
  refine ⟨hone, hbytes, haccept, hreject, fun henforces => ?_⟩
  have hpos : ∀ i, 1 ≤ (fun _ : Nat => 8) i := fun _ => Nat.le_of_ble_eq_true rfl
  obtain ⟨hsame, -⟩ := henforces.verdict inOneSegment byteByByte hone hbytes _ _ hpos hpos
  rw [haccept, hreject] at hsame
  cases hsame

end Jrpxy.Body
