/-
  Jrpxy.Body.Buffering

  What a peer can make the proxy buffer of a chunked body.

  The buffer is filled at four places: for data and footers when it is empty,
  and for size lines and trailer sections also while it is below their limit.
  So it holds at most one fill more than the larger limit, in every state of
  the three machines and over any calls.
-/
import Jrpxy.Util.Buffering
import Jrpxy.HttpMessage.HeadBuffering
import Jrpxy.Lib.PullStream.Calls
import Jrpxy.Body.ChunkLimits

namespace Jrpxy.Body.Reader

open Poll PullStream Incremental ChunkedCoding Util HttpMessage Relation

/-- A fill is one of `ioFillLen` bytes, for a buffer that is empty or below a limit. -/
def chunkAsks (maxLine maxTrailer buffered len : Nat) : Prop :=
  len = ioFillLen ∧ (buffered = 0 ∨ buffered < maxLine ∨ buffered < maxTrailer)

variable {maxLine maxTrailer : Nat}

/-- No fill goes beyond the larger limit by more than its own length. -/
theorem chunkAsks_le {buffered len : Nat} (h : chunkAsks maxLine maxTrailer buffered len) :
    buffered + len ≤ ioFillLen + max maxLine maxTrailer := by
  obtain ⟨rfl, hbuffered⟩ := h
  omega

theorem pollEnsure_fills (r : BytesReader) :
    Fills (chunkAsks maxLine maxTrailer) r (pollEnsure r).2 :=
  BytesReader.pollEnsure_fills ⟨rfl, .inl rfl⟩ r

theorem pollExtend_fills {r : BytesReader} (h : r.len < maxLine ∨ r.len < maxTrailer) :
    Fills (chunkAsks maxLine maxTrailer) r (pollExtend r).2 :=
  BytesReader.pollExtend_fills ⟨rfl, .inr h⟩

/-! ## Between chunks -/

namespace ChunkHeadReader

variable {h : Httparse}

/-- A head reader goes on with the connection, under the same limits. -/
structure Goes (r s : ChunkHeadReader) : Prop where
  line : s.maxChunkHeaderLength = r.maxChunkHeaderLength
  trailer : s.maxTrailerLength = r.maxTrailerLength
  accesses : Accesses (chunkAsks r.maxChunkHeaderLength r.maxTrailerLength) r.reader s.reader

theorem Goes.trans {r s t : ChunkHeadReader} (hrs : Goes r s) (hst : Goes s t) : Goes r t := by
  obtain ⟨hline, htrailer, haccesses⟩ := hst
  rw [hrs.line, hrs.trailer] at haccesses
  exact ⟨hline.trans hrs.line, htrailer.trans hrs.trailer, hrs.accesses.trans haccesses⟩

/-- A poll of one item goes on with the connection; unless it is ready, it has only filled the
    buffer. -/
structure Reads (r : ChunkHeadReader) (x : Polled BodyError Unit × ChunkHeadReader) : Prop
    extends Goes r x.2 where
  fills : x.1 = .pending ∨ (∃ e, x.1 = .err e) →
    Fills (chunkAsks r.maxChunkHeaderLength r.maxTrailerLength) r.reader x.2.reader

/-- A poll that has only filled the buffer. -/
theorem Reads.of_fills {self : ChunkHeadReader} {reader : BytesReader} {state : ChunkHeadReaderState}
    (hfills : Fills (chunkAsks self.maxChunkHeaderLength self.maxTrailerLength) self.reader reader)
    (answer : Polled BodyError Unit) : Reads self (answer, { self with reader, state }) :=
  ⟨⟨rfl, rfl, hfills.accesses⟩, fun _ => hfills⟩

/-- A poll that takes what it found. -/
theorem Reads.of_take {self : ChunkHeadReader} {reader reader' : BytesReader}
    {state : ChunkHeadReaderState} {answer : Polled BodyError Unit}
    (hfills : Fills (chunkAsks self.maxChunkHeaderLength self.maxTrailerLength) self.reader reader)
    (htake : Accesses (chunkAsks self.maxChunkHeaderLength self.maxTrailerLength) reader reader')
    (hanswer : answer = .ok () ∨ answer = .panic) :
    Reads self (answer, { self with reader := reader', state }) := by
  refine ⟨⟨rfl, rfl, hfills.accesses.trans htake⟩, ?_⟩
  rcases hanswer with rfl | rfl
  · rintro (h | ⟨e, h⟩) <;> cases h
  · rintro (h | ⟨e, h⟩) <;> cases h

/-- The rest of a poll behind a fill. -/
theorem Reads.behind {self : ChunkHeadReader} {reader : BytesReader}
    {x : Polled BodyError Unit × ChunkHeadReader}
    (hfills : Fills (chunkAsks self.maxChunkHeaderLength self.maxTrailerLength) self.reader reader)
    (hx : Reads { self with reader } x) : Reads self x :=
  ⟨⟨hx.line, hx.trailer, hfills.accesses.trans hx.accesses⟩, fun h => hfills.trans (hx.fills h)⟩

/-- A poll that begins by filling an empty buffer. -/
theorem Reads.of_ensure {self : ChunkHeadReader}
    {rest : Unit → BytesReader → Polled BodyError Unit × ChunkHeadReader}
    (hrest : ∀ reader,
      Fills (chunkAsks self.maxChunkHeaderLength self.maxTrailerLength) self.reader reader →
      Reads self (rest () reader)) :
    Reads self
      (andThen (pollEnsure self.reader) (fun reader => { self with reader }) rest) := by
  have hensure := @pollEnsure_fills self.maxChunkHeaderLength self.maxTrailerLength self.reader
  generalize pollEnsure self.reader = x at hensure ⊢
  obtain ⟨_ | _ | e | _, reader⟩ := x
  · exact .of_fills hensure .pending
  · exact hrest reader hensure
  · exact .of_fills hensure _
  · exact .of_fills hensure _

/-- Another round, with more in a buffer that was below a limit. -/
theorem Reads.of_extend {self : ChunkHeadReader} {reader : BytesReader}
    {next : ChunkHeadReader → Polled BodyError Unit × ChunkHeadReader}
    (hfills : Fills (chunkAsks self.maxChunkHeaderLength self.maxTrailerLength) self.reader reader)
    (hshort : reader.len < self.maxChunkHeaderLength ∨ reader.len < self.maxTrailerLength)
    (hnext : ∀ s, Reads s (next s)) :
    Reads self (andThen (pollExtend reader) (fun reader => { self with reader })
      fun _ reader => next { self with reader }) := by
  have hextend := hfills.trans (pollExtend_fills hshort)
  generalize pollExtend reader = x at hextend ⊢
  obtain ⟨_ | _ | e | _, reader'⟩ := x
  · exact .of_fills hextend .pending
  · exact .behind hextend (hnext _)
  · exact .of_fills hextend _
  · exact .of_fills hextend _

theorem pollSize_reads (fuel : Nat) (self : ChunkHeadReader) :
    Reads self (pollSize h fuel self) := by
  induction fuel generalizing self with
  | zero => exact .of_fills .refl .pending
  | succ fuel ih =>
    rw [pollSize]
    apply Reads.of_ensure
    intro reader hfills
    split
    · exact .of_fills hfills _
    · split
      · exact .of_fills hfills _
      · next hlen => exact .of_extend hfills (.inl (Nat.lt_of_not_le hlen)) ih
    · next headerLen chunkSize _ =>
      split
      · exact .of_fills hfills _
      · next bytes reader' hsplit =>
        split
        · exact .of_take hfills (.single (.splitTo hsplit)) (.inl rfl)
        · exact .of_take hfills (.single (.splitTo hsplit)) (.inl rfl)

/-- Parsing trailers leaves the buffer alone, or takes the section it found. -/
theorem parseHeaders_cases (slots : ParseSlots) (r : BytesReader) :
    (∃ e, slots.parseHeaders h r = (.err e, r)) ∨ slots.parseHeaders h r = (.ok none, r) ∨
      ((∃ trailers, (slots.parseHeaders h r).1 = .ok (some trailers)) ∨
        (slots.parseHeaders h r).1 = .panic) ∧
        Accesses (chunkAsks maxLine maxTrailer) r (slots.parseHeaders h r).2 := by
  unfold ParseSlots.parseHeaders
  split
  · exact .inl ⟨_, rfl⟩
  · exact .inr (.inl rfl)
  · next len headers _ =>
    split
    · exact .inr (.inr ⟨.inr rfl, .refl⟩)
    · next offsets _ =>
      refine .inr (.inr ⟨?_, ?_⟩)
      · unfold ParseSlots.splitAndSlice
        split
        · exact .inr rfl
        · split
          · exact .inr rfl
          · exact .inl ⟨_, rfl⟩
      · rcases ParseSlots.splitAndSlice_takes r len (populateHeaders offsets) with
          hsame | ⟨bytes, hsplit⟩
        · rw [hsame]
        · exact .single (.splitTo hsplit)

theorem pollTrailers_reads (bytes : Bytes) (fuel : Nat) (self : ChunkHeadReader) :
    Reads self (pollTrailers h bytes fuel self) := by
  induction fuel generalizing self with
  | zero => exact .of_fills .refl .pending
  | succ fuel ih =>
    rw [pollTrailers]
    apply Reads.of_ensure
    intro reader hfills
    rcases @parseHeaders_cases self.maxChunkHeaderLength self.maxTrailerLength h self.parseSlots
      reader with ⟨e, hparse⟩ | hparse | ⟨hready, htake⟩
    · simp only [hparse]
      split <;> exact .of_fills hfills _
    -- the section goes on behind what is buffered
    · simp only [hparse]
      split
      · exact .of_fills hfills _
      · next hlen => exact .of_extend hfills (.inr (Nat.lt_of_not_le hlen)) ih
    · generalize self.parseSlots.parseHeaders h reader = y at hready htake ⊢
      obtain ⟨answer, reader'⟩ := y
      rcases hready with ⟨trailers, rfl⟩ | rfl
      · exact .of_take hfills htake (.inl rfl)
      · exact .of_take hfills htake (.inr rfl)

/-- The two phases of a poll, one behind the other. -/
theorem pollReadChunk_goes (self : ChunkHeadReader) : Goes self (pollReadChunk h self).2 := by
  unfold pollReadChunk
  split
  · have hsize := (@pollSize_reads h (self.reader.weight + 1) self).toGoes
    generalize pollSize h (self.reader.weight + 1) self = x at hsize ⊢
    obtain ⟨_ | _ | e | _, s⟩ := x
    · exact hsize
    · simp only [andThen_ok]
      split
      · next bytes _ =>
        exact hsize.trans (pollTrailers_reads bytes (s.reader.weight + 1) s).toGoes
      · exact hsize
    · exact hsize
    · exact hsize
  · exact (pollTrailers_reads _ _ self).toGoes
  · exact ⟨rfl, rfl, .refl⟩

/-- What the rounds on an item that does not end may do: they only fill the buffer, and an
    error is about the length if and only if the item is too long. -/
def endlessPost (tooLong : BodyError) (long : Prop) (r : ChunkHeadReader) :
    Post BodyError Unit ChunkHeadReader where
  pending s := SameItem r s ∧
    Fills (chunkAsks r.maxChunkHeaderLength r.maxTrailerLength) r.reader s.reader
  ok _ _ := False
  err e s := (e = tooLong ↔ long) ∧
    Fills (chunkAsks r.maxChunkHeaderLength r.maxTrailerLength) r.reader s.reader

theorem endless_of_length {ε α : Type} {tooLong : BodyError} {max : Nat}
    {parse : Bytes → Except ε (Status (Nat × α))} {self : ChunkHeadReader}
    {x : Polled BodyError Unit × ChunkHeadReader}
    (hend : parse self.reader.unread = .ok .incomplete)
    (hlength : Meets x (lengthPost tooLong max parse self)) (hreads : Reads self x) :
    Meets x (endlessPost tooLong (self.reader.unread ≠ [] ∧ max ≤ self.reader.unread.length)
      self) := by
  obtain ⟨_ | _ | e | _, s⟩ := x
  · exact ⟨hlength, hreads.fills (.inl rfl)⟩
  · obtain ⟨-, n, a, hcomplete⟩ := hlength
    rw [hend] at hcomplete
    cases hcomplete
  · have herr := hlength.2
    rw [hend] at herr
    exact ⟨herr, hreads.fills (.inr ⟨e, rfl⟩)⟩
  · exact hlength

/-- The rounds on a size line that does not end. -/
theorem pollSize_endless (laws : h.ChunkSizeLaws) (fuel : Nat) {self : ChunkHeadReader}
    (hstate : self.state = .readingSize)
    (hend : h.parseChunkSize self.reader.unread = .ok .incomplete) :
    Meets (pollSize h fuel self) (endlessPost (.chunkHeaderTooLong self.maxChunkHeaderLength)
      (self.reader.unread ≠ [] ∧ self.maxChunkHeaderLength ≤ self.reader.unread.length) self) :=
  endless_of_length hend (pollSize_length laws fuel self hstate
    (by rw [hend]; intro e he; cases he)) (pollSize_reads fuel self)

/-- The rounds on a trailer section that does not end. -/
theorem pollTrailers_endless (laws : h.FieldSectionLaws) (fuel : Nat) {self : ChunkHeadReader}
    {bytes : Bytes} (hstate : self.state = .readingTrailers bytes)
    (hend : h.parseHeaders self.parseSlots.slotCount self.reader.unread = .ok .incomplete) :
    Meets (pollTrailers h bytes fuel self)
      (endlessPost (.trailerError (.maxLengthExceeded self.maxTrailerLength))
        (self.reader.unread ≠ [] ∧ self.maxTrailerLength ≤ self.reader.unread.length) self) :=
  endless_of_length hend (pollTrailers_length laws fuel self hstate
    (by rw [hend]; intro e he; cases he)) (pollTrailers_reads bytes fuel self)

/-- The reader stands behind the size line of the last chunk, of `n` bytes. -/
structure LastLine (n : Nat) (r s : ChunkHeadReader) : Prop where
  state : ∃ bytes, s.state = .readingTrailers bytes
  unread : s.reader.unread = r.reader.unread.drop n
  slots : s.parseSlots = r.parseSlots
  line : s.maxChunkHeaderLength = r.maxChunkHeaderLength
  trailer : s.maxTrailerLength = r.maxTrailerLength
  found : ∃ mid, Accesses (chunkAsks r.maxChunkHeaderLength r.maxTrailerLength) r.reader mid ∧
    n ≤ mid.len
  passes : Passes (chunkAsks r.maxChunkHeaderLength r.maxTrailerLength) n r.reader s.reader

/-- Filling the buffer before changes nothing about that. -/
theorem LastLine.of_same {n : Nat} {r r' s : ChunkHeadReader} (hsame : SameItem r r')
    (hfills : Fills (chunkAsks r.maxChunkHeaderLength r.maxTrailerLength) r.reader r'.reader)
    (hs : LastLine n r' s) : LastLine n r s := by
  obtain ⟨-, hunread, hslots, hline, htrailer⟩ := hsame
  obtain ⟨hstate, hrest, hslots', hline', htrailer', ⟨mid, hmid, hn⟩, hpasses⟩ := hs
  rw [hline, htrailer] at hmid hpasses
  have hall := (Fills.passes hfills).trans hpasses
  rw [Nat.zero_add] at hall
  exact ⟨hstate, hrest.trans (congrArg _ hunread), hslots'.trans hslots, hline'.trans hline,
    htrailer'.trans htrailer, ⟨mid, hfills.accesses.trans hmid, hn⟩, hall⟩

/-- Taking the line, once all of it is buffered. -/
theorem LastLine.of_splitTo {self : ChunkHeadReader} {n : Nat} {reader reader' : BytesReader}
    {bytes : Bytes}
    (hfills : Fills (chunkAsks self.maxChunkHeaderLength self.maxTrailerLength) self.reader reader)
    (hunread : reader.unread = self.reader.unread) (hn : n ≤ reader.len)
    (hsplit : reader.splitTo n = some (bytes, reader')) :
    LastLine n self { self with reader := reader', state := .readingTrailers bytes } := by
  have hdrop := BytesReader.unread_eq_drop_of_splitTo hsplit
  have hall := hfills.passes.trans (.of_splitTo hsplit)
  rw [Nat.zero_add] at hall
  rw [hunread] at hdrop
  exact ⟨⟨bytes, rfl⟩, hdrop, rfl, rfl, rfl, ⟨reader, hfills.accesses, hn⟩, hall⟩

/-- The rounds on the size line of the last chunk: only a line beyond the limit fails. -/
theorem pollSize_last (laws : h.ChunkSizeLaws) (fuel : Nat) {self : ChunkHeadReader} {n : Nat}
    (hstate : self.state = .readingSize)
    (hline : h.parseChunkSize self.reader.unread = .ok (.complete (n, 0))) :
    Meets (pollSize h fuel self) {
      pending := fun s => SameItem self s ∧
        Fills (chunkAsks self.maxChunkHeaderLength self.maxTrailerLength) self.reader s.reader
      ok := fun _ s => LastLine n self s
      err := fun _ s => self.maxChunkHeaderLength < n ∧
        Fills (chunkAsks self.maxChunkHeaderLength self.maxTrailerLength) self.reader s.reader } := by
  induction fuel generalizing self with
  | zero => exact ⟨⟨rfl, rfl, rfl, rfl, rfl⟩, .refl⟩
  | succ fuel ih =>
    have hensure := @pollEnsure_fills self.maxChunkHeaderLength self.maxTrailerLength self.reader
    have hmeets := pollEnsure_meets self.reader
    rw [pollSize]
    generalize pollEnsure self.reader = x at hensure hmeets ⊢
    obtain ⟨_ | _ | e | _, reader⟩ := x
    · exact ⟨.of_unread hmeets.1, hensure⟩
    · obtain ⟨-, hunread, -⟩ := hmeets
      have hbuf : reader.asBytes ++ reader.io.stream = self.reader.unread := hunread
      simp only [andThen_ok]
      rcases hparse : h.parseChunkSize reader.asBytes with e | (_ | ⟨m, size⟩)
      · obtain ⟨e', he'⟩ := laws.parser.error_append hparse reader.io.stream
        rw [hbuf, hline] at he'
        cases he'
      -- the line goes on behind what is buffered
      · simp only
        rw [← hbuf] at hline
        have hlt := laws.parser.lt_of_incomplete hparse hline
        rw [BytesReader.length_asBytes] at hlt
        split
        · next hlen => exact ⟨Nat.lt_of_le_of_lt hlen hlt, hensure⟩
        · next hlen =>
          have hextend := hensure.trans
            (@pollExtend_fills self.maxChunkHeaderLength self.maxTrailerLength reader (by omega))
          have hmeets := pollExtend_unread reader
          generalize pollExtend reader = y at hextend hmeets ⊢
          obtain ⟨_ | _ | e | _, reader'⟩ := y
          · exact ⟨.of_unread (hmeets.1.trans hunread), hextend⟩
          · have hsame := hmeets.1.trans hunread
            rw [hbuf, ← hsame] at hline
            refine (@ih { self with reader := reader' } hstate hline).mono ?_ ?_ ?_
            · rintro s ⟨hs, hfills⟩
              exact ⟨SameItem.trans (.of_unread hsame) hs, hextend.trans hfills⟩
            · exact fun _ s hs => .of_same (.of_unread hsame) hextend hs
            · rintro e s ⟨hlong, hfills⟩
              exact ⟨hlong, hextend.trans hfills⟩
          · have hall : reader.asBytes = reader.unread := hmeets.1
            rw [hbuf, ← hunread, ← hall, hparse] at hline
            cases hline
          · exact hmeets.elim
      -- all of the line is buffered, and is taken
      · have hcomplete := laws.parser.complete_append hparse reader.io.stream
        rw [hbuf, hline] at hcomplete
        cases hcomplete
        have hn := laws.parser.length_le hparse
        rw [BytesReader.length_asBytes] at hn
        obtain ⟨reader', hsplit, -, -⟩ := BytesReader.splitTo_eq hn
        simp only [hsplit, if_pos]
        exact .of_splitTo hensure hunread hn hsplit
    · rw [hmeets.1, laws.nil] at hline
      cases hline
    · exact hmeets.elim

/-- What the polls on a last chunk may do, whose size line has `n` bytes and whose trailer section
    does not end. -/
def lastPost (n : Nat) (r : ChunkHeadReader) : Post BodyError Unit ChunkHeadReader where
  pending s := SameItem r s ∧
      Fills (chunkAsks r.maxChunkHeaderLength r.maxTrailerLength) r.reader s.reader ∨
    LastLine n r s
  ok _ _ := False
  err e s :=
    (n ≤ r.maxChunkHeaderLength → (e = .trailerError (.maxLengthExceeded r.maxTrailerLength) ↔
      r.reader.unread.drop n ≠ [] ∧ r.maxTrailerLength ≤ (r.reader.unread.drop n).length)) ∧
    ∃ mid taken, Accesses (chunkAsks r.maxChunkHeaderLength r.maxTrailerLength) r.reader mid ∧
      taken ≤ mid.len ∧
      Passes (chunkAsks r.maxChunkHeaderLength r.maxTrailerLength) taken r.reader s.reader

/-- The rounds behind the size line. -/
theorem pollTrailers_last (laws : h.FieldSectionLaws) (fuel : Nat) {r s : ChunkHeadReader} {n : Nat}
    {bytes : Bytes} (hs : LastLine n r s) (hstate : s.state = .readingTrailers bytes)
    (hend : h.parseHeaders r.parseSlots.slotCount (r.reader.unread.drop n) = .ok .incomplete) :
    Meets (pollTrailers h bytes fuel s) (lastPost n r) := by
  obtain ⟨-, hunread, hslots, hline, htrailer, ⟨mid, hmid, hn⟩, hpasses⟩ := hs
  have hrounds := pollTrailers_endless laws fuel hstate (by rw [hunread, hslots]; exact hend)
  rw [endlessPost, hunread, hline, htrailer] at hrounds
  refine hrounds.mono ?_ (fun _ _ hf => hf) ?_
  · rintro s' ⟨⟨hstate', hunread', hslots', hline', htrailer'⟩, hfills⟩
    exact .inr ⟨⟨bytes, hstate'.trans hstate⟩, hunread'.trans hunread, hslots'.trans hslots,
      hline'.trans hline, htrailer'.trans htrailer, ⟨mid, hmid, hn⟩, hpasses.trans hfills.passes⟩
  · rintro e s' ⟨herr, hfills⟩
    exact ⟨fun _ => herr, mid, n, hmid, hn, hpasses.trans hfills.passes⟩

theorem pollReadChunk_last (hsize : h.ChunkSizeLaws) (hfields : h.FieldSectionLaws)
    {r s : ChunkHeadReader} {n : Nat} (hstate : r.state = .readingSize)
    (hline : h.parseChunkSize r.reader.unread = .ok (.complete (n, 0)))
    (hend : h.parseHeaders r.parseSlots.slotCount (r.reader.unread.drop n) = .ok .incomplete)
    (hs : (lastPost n r).pending s) : Meets (s.pollReadChunk h) (lastPost n r) := by
  rcases hs with ⟨hsame, hfills⟩ | hs
  · obtain ⟨hs, hunread, hslots, hmaxLine, hmaxTrailer⟩ := id hsame
    simp only [pollReadChunk, hs.trans hstate]
    refine (pollSize_last hsize _ (hs.trans hstate) (by rw [hunread]; exact hline)).andThen ?_ ?_ ?_
    · rintro s' ⟨hsame', hfills'⟩
      rw [hmaxLine, hmaxTrailer] at hfills'
      exact .inl ⟨hsame.trans hsame', hfills.trans hfills'⟩
    -- a size line that fails is beyond its limit
    · rintro e s' ⟨hlong, hfills'⟩
      rw [hmaxLine, hmaxTrailer] at hfills'
      rw [hmaxLine] at hlong
      exact ⟨fun hle => absurd hle (Nat.not_le_of_lt hlong), r.reader, 0, .refl, Nat.zero_le _,
        Fills.passes (hfills.trans hfills')⟩
    · intro _ s' hs'
      have hlast := LastLine.of_same hsame hfills hs'
      obtain ⟨bytes, hstate'⟩ := hs'.state
      simp only [hstate']
      exact pollTrailers_last hfields _ hlast hstate' hend
  · obtain ⟨bytes, hstate'⟩ := hs.state
    simp only [pollReadChunk, hstate']
    exact pollTrailers_last hfields _ hs hstate' hend

theorem pollReadChunk_endlessLine (laws : h.ChunkSizeLaws) {self : ChunkHeadReader}
    (hstate : self.state = .readingSize)
    (hend : h.parseChunkSize self.reader.unread = .ok .incomplete) :
    Meets (self.pollReadChunk h) (endlessPost (.chunkHeaderTooLong self.maxChunkHeaderLength)
      (self.reader.unread ≠ [] ∧ self.maxChunkHeaderLength ≤ self.reader.unread.length) self) := by
  simp only [pollReadChunk, hstate]
  exact (pollSize_endless laws _ hstate hend).andThen (fun _ hs => hs) (fun _ _ he => he)
    (fun _ _ hf => hf.elim)

theorem pollReadChunk_endlessTrailers (laws : h.FieldSectionLaws) {self : ChunkHeadReader}
    {bytes : Bytes} (hstate : self.state = .readingTrailers bytes)
    (hend : h.parseHeaders self.parseSlots.slotCount self.reader.unread = .ok .incomplete) :
    Meets (self.pollReadChunk h)
      (endlessPost (.trailerError (.maxLengthExceeded self.maxTrailerLength))
        (self.reader.unread ≠ [] ∧ self.maxTrailerLength ≤ self.reader.unread.length) self) := by
  simp only [pollReadChunk, hstate]
  exact pollTrailers_endless laws _ hstate hend

/-- If no poll is ready, and every error is as `blame` says, so is that of the whole read. -/
theorem readChunk_rejects (hsize : h.ChunkSizeLaws) (hfields : h.FieldSectionLaws)
    {self : ChunkHeadReader} (I : ChunkHeadReader → Prop)
    (blame : BodyError → ChunkHeadReader → Prop) (hself : I self)
    (hpoll : ∀ s, I s → Meets (pollReadChunk h s)
      { pending := I, ok := fun _ _ => False, err := blame }) :
    ∃ e s, readChunk h self = (.err e, s) ∧ blame e s := by
  have hrun := blockOn_meets (P := { pending := I, ok := fun _ _ => False, err := blame }) rfl hpoll
    (self.reader.weight + 1) hself
  have hready := blockOn_pollReadChunk_ready hsize hfields self
  unfold readChunk
  generalize blockOn (pollReadChunk h) (self.reader.weight + 1) self = x at hready hrun ⊢
  obtain ⟨_ | _ | e | _, s⟩ := x
  · exact absurd rfl hready
  · exact hrun.elim
  · exact ⟨e, s, rfl, hrun⟩
  · exact hrun.elim

end ChunkHeadReader

/-! ## Within a chunk -/

namespace ChunkDataReader

/-- A chunk reader goes on with the connection, under the same limits. -/
structure Goes (r s : ChunkDataReader) : Prop where
  line : s.maxChunkHeaderLength = r.maxChunkHeaderLength
  trailer : s.maxTrailerLength = r.maxTrailerLength
  accesses : Accesses (chunkAsks r.maxChunkHeaderLength r.maxTrailerLength) r.reader s.reader

/-- A poll that begins by filling an empty buffer. -/
theorem Goes.of_ensure {self : ChunkDataReader}
    {rest : Unit → BytesReader → Polled BodyError (Option Bytes) × ChunkDataReader}
    (hrest : ∀ reader,
      Accesses (chunkAsks self.maxChunkHeaderLength self.maxTrailerLength) self.reader reader →
      Goes self (rest () reader).2) :
    Goes self
      (andThen (pollEnsure self.reader) (fun reader => { self with reader }) rest).2 := by
  have hensure := (@pollEnsure_fills self.maxChunkHeaderLength self.maxTrailerLength
    self.reader).accesses
  generalize pollEnsure self.reader = x at hensure ⊢
  obtain ⟨_ | _ | e | _, reader⟩ := x
  · exact ⟨rfl, rfl, hensure⟩
  · exact hrest reader hensure
  · exact ⟨rfl, rfl, hensure⟩
  · exact ⟨rfl, rfl, hensure⟩

theorem pollFooterLF_goes (self : ChunkDataReader) : Goes self (pollFooterLF self).2 := by
  apply Goes.of_ensure
  intro reader hensure
  split
  · exact ⟨rfl, rfl, hensure⟩
  · next b reader' hget =>
    have htaken := hensure.tail (.getU8 hget)
    split <;> exact ⟨rfl, rfl, htaken⟩

theorem pollFooterCR_goes (self : ChunkDataReader) : Goes self (pollFooterCR self).2 := by
  apply Goes.of_ensure
  intro reader hensure
  split
  · exact ⟨rfl, rfl, hensure⟩
  · next b reader' hget =>
    have htaken := hensure.tail (.getU8 hget)
    split
    -- the LF may be buffered already
    · have hrest := pollFooterLF_goes { self with reader := reader', state := .inFooterNeedLF }
      exact ⟨hrest.line, hrest.trailer, htaken.trans hrest.accesses⟩
    · exact ⟨rfl, rfl, htaken⟩

theorem pollRead_goes (maxLen : Nat) (self : ChunkDataReader) :
    Goes self (pollRead maxLen self).2 := by
  unfold pollRead
  split
  · split
    · have hfooter := pollFooterCR_goes { self with state := .inFooterNeedCR }
      exact ⟨hfooter.line, hfooter.trailer, hfooter.accesses⟩
    · apply Goes.of_ensure
      intro reader hensure
      dsimp only
      split
      · exact ⟨rfl, rfl, hensure⟩
      · next bytes reader' hsplit => exact ⟨rfl, rfl, hensure.tail (.splitTo hsplit)⟩
  · exact pollFooterCR_goes self
  · exact pollFooterLF_goes self
  · exact ⟨rfl, rfl, .refl⟩

end ChunkDataReader

/-! ## The whole body -/

namespace ChunkedBodyChunkStream

variable {h : Httparse} {reader : BytesReader}

/-- What a round leaves: the state of the next round, or the one that is put back. -/
def left : (Polled BodyError (Option Bytes) × Option ChunkedBodyChunkStream) ⊕
    ChunkedBodyChunkStream → Option ChunkedBodyChunkStream
  | .inl (_, inner) => inner
  | .inr next => some next

/-- One round of a call. -/
inductive Step (h : Httparse) : ChunkedBodyChunkStream → ChunkedBodyChunkStream → Prop where
  | mk {current next : ChunkedBodyChunkStream} (maxLen : Nat)
      (heq : left (current.round h maxLen) = some next) : Step h current next

/-- The states that rounds lead to. -/
abbrev Reaches (h : Httparse) : ChunkedBodyChunkStream → ChunkedBodyChunkStream → Prop :=
  ReflTransGen (Step h)

/-- The connection as the poll of a round leaves it, whatever it answers. -/
def polled (h : Httparse) (maxLen : Nat) : ChunkedBodyChunkStream → BytesReader
  | .inChunk r => (r.pollRead maxLen).2.reader
  | .betweenChunk r => (r.pollReadChunk h).2.reader
  | .done r => r.reader

/-- A state under these limits, that goes on with this connection. -/
def Within (maxLine maxTrailer : Nat) (reader : BytesReader) : ChunkedBodyChunkStream → Prop
  | .inChunk r => r.maxChunkHeaderLength = maxLine ∧ r.maxTrailerLength = maxTrailer ∧
      Accesses (chunkAsks maxLine maxTrailer) reader r.reader
  | .betweenChunk r => r.maxChunkHeaderLength = maxLine ∧ r.maxTrailerLength = maxTrailer ∧
      Accesses (chunkAsks maxLine maxTrailer) reader r.reader
  | .done r => Accesses (chunkAsks maxLine maxTrailer) reader r.reader

theorem Within.accesses {current : ChunkedBodyChunkStream}
    (hwithin : current.Within maxLine maxTrailer reader) :
    Accesses (chunkAsks maxLine maxTrailer) reader current.reader := by
  cases current with
  | inChunk r => exact hwithin.2.2
  | betweenChunk r => exact hwithin.2.2
  | done r => exact hwithin

theorem within_head {r s : ChunkHeadReader} (hgoes : ChunkHeadReader.Goes r s)
    (hwithin : Within maxLine maxTrailer reader (.betweenChunk r)) :
    Within maxLine maxTrailer reader (.betweenChunk s) := by
  obtain ⟨rfl, rfl, haccesses⟩ := hwithin
  exact ⟨hgoes.line, hgoes.trailer, haccesses.trans hgoes.accesses⟩

theorem within_data {r s : ChunkDataReader} (hgoes : ChunkDataReader.Goes r s)
    (hwithin : Within maxLine maxTrailer reader (.inChunk r)) :
    Within maxLine maxTrailer reader (.inChunk s) := by
  obtain ⟨rfl, rfl, haccesses⟩ := hwithin
  exact ⟨hgoes.line, hgoes.trailer, haccesses.trans hgoes.accesses⟩

/-- Also the poll of a round goes on with the connection. -/
theorem Within.polled {current : ChunkedBodyChunkStream}
    (hwithin : current.Within maxLine maxTrailer reader) (maxLen : Nat) :
    Accesses (chunkAsks maxLine maxTrailer) reader (current.polled h maxLen) := by
  cases current with
  | inChunk r => exact (within_data (ChunkDataReader.pollRead_goes maxLen r) hwithin).2.2
  | betweenChunk r => exact (within_head (ChunkHeadReader.pollReadChunk_goes r) hwithin).2.2
  | done r => exact hwithin

/-- What a finished head reader passes on. -/
theorem within_finish_head {r : ChunkHeadReader} {next : NextChunk}
    (hfinish : r.finish = some next) (hwithin : Within maxLine maxTrailer reader (.betweenChunk r)) :
    (∀ d, next = .data d → Within maxLine maxTrailer reader (.inChunk d)) ∧
      ∀ f, next = .final f → Within maxLine maxTrailer reader (.done f) := by
  unfold ChunkHeadReader.finish at hfinish
  split at hfinish
  · cases hfinish
  · cases hfinish
  · cases hfinish
    refine ⟨?_, ?_⟩
    · rintro d hd
      cases hd
      exact hwithin
    · rintro f hf
      cases hf
  · cases hfinish
    refine ⟨?_, ?_⟩
    · rintro d hd
      cases hd
    · rintro f hf
      cases hf
      exact hwithin.2.2

theorem within_finish_data {r : ChunkDataReader} {head : ChunkHeadReader}
    (hfinish : r.finish = some head) (hwithin : Within maxLine maxTrailer reader (.inChunk r)) :
    Within maxLine maxTrailer reader (.betweenChunk head) := by
  unfold ChunkDataReader.finish at hfinish
  split at hfinish
  · cases hfinish
    exact hwithin
  · cases hfinish

/-- Every round stays under the limits and with the connection. -/
theorem Step.within {current next : ChunkedBodyChunkStream} (hstep : Step h current next)
    (hwithin : current.Within maxLine maxTrailer reader) :
    next.Within maxLine maxTrailer reader := by
  obtain ⟨maxLen, heq⟩ := hstep
  cases current with
  | inChunk r =>
    have hpoll := within_data (ChunkDataReader.pollRead_goes maxLen r) hwithin
    simp only [round] at heq
    generalize r.pollRead maxLen = x at heq hpoll
    obtain ⟨_ | (_ | d) | e | _, s⟩ := x
    · cases heq
      exact hpoll
    -- the chunk ends here, and its connection is passed on
    · simp only at heq
      split at heq
      · next head hfinish =>
        cases heq
        exact within_finish_data hfinish hpoll
      · cases heq
    · cases heq
      exact hpoll
    · cases heq
    · cases heq
  | betweenChunk r =>
    have hpoll := within_head (@ChunkHeadReader.pollReadChunk_goes h r) hwithin
    simp only [round] at heq
    generalize r.pollReadChunk h = x at heq hpoll
    obtain ⟨_ | _ | e | _, s⟩ := x
    · cases heq
      exact hpoll
    · simp only at heq
      split at heq
      · next d hfinish =>
        cases heq
        exact (within_finish_head hfinish hpoll).1 d rfl
      · next f hfinish =>
        cases heq
        exact (within_finish_head hfinish hpoll).2 f rfl
      · cases heq
    · cases heq
    · cases heq
  | done r =>
    cases heq
    exact hwithin

/-- So does any number of rounds. -/
theorem Reaches.within {start current : ChunkedBodyChunkStream} (h' : Reaches h start current)
    (hwithin : start.Within maxLine maxTrailer reader) :
    current.Within maxLine maxTrailer reader := by
  induction h' with
  | refl => exact hwithin
  | tail _ hstep ih => exact hstep.within ih

/-- What the loop puts back, rounds lead to. -/
theorem rounds_reaches (maxLen fuel : Nat) {current next : ChunkedBodyChunkStream}
    (hback : (current.rounds h maxLen fuel).2 = some next) : Reaches h current next := by
  induction fuel generalizing current with
  | zero =>
    cases hback
    exact .refl
  | succ fuel ih =>
    rw [rounds] at hback
    split at hback
    · next answer heq => exact .single ⟨maxLen, (congrArg left heq).trans hback⟩
    · next current' heq => exact .head ⟨maxLen, congrArg left heq⟩ (ih hback)

end ChunkedBodyChunkStream

namespace ChunkedBodyReader

variable {h : Httparse}

open ChunkedBodyChunkStream (Reaches)

/-- A reader holds nothing, or a state that rounds have led to. -/
def Follows (h : Httparse) (start : ChunkedBodyChunkStream) (self : ChunkedBodyReader) : Prop :=
  ∀ current, self.inner = some current → Reaches h start current

variable {start : ChunkedBodyChunkStream}

theorem pollRead_follows (maxLen : Nat) {self : ChunkedBodyReader} (hself : self.Follows h start) :
    (pollRead h maxLen self).2.Follows h start := by
  obtain ⟨_ | current⟩ := self
  · exact hself
  · exact fun next hnext =>
      (hself current rfl).trans (ChunkedBodyChunkStream.rounds_reaches maxLen 4 hnext)

/-- Every call, whatever it answers, leaves a state that rounds have led to. -/
theorem call_follows (c : Call) {self : ChunkedBodyReader} (hself : self.Follows h start) :
    (call (pollRead h) (pollDrain h) c self).2.Follows h start :=
  call_kept (fun m _ hr => pollRead_follows m hr)
    (fun _ hr => drainLoop_kept (fun _ hr => pollRead_follows drainSize hr) _ hr) c hself

/-- A read that starts between two chunks fails as the read of the chunk head does. -/
theorem read_betweenChunk_err (maxLen : Nat) {r s : ChunkHeadReader} {e : BodyError}
    (hread : r.readChunk h = (.err e, s)) :
    read h maxLen ⟨some (.betweenChunk r)⟩ = (.err e, ⟨none⟩) := by
  have hblock : ∀ fuel (r : ChunkHeadReader),
      (blockOn (ChunkHeadReader.pollReadChunk h) fuel r).1 = .err e →
      blockOn (pollRead h maxLen) fuel ⟨some (.betweenChunk r)⟩ = (.err e, ⟨none⟩) := by
    intro fuel
    induction fuel with
    | zero =>
      intro r hr
      cases hr
    | succ fuel ih =>
      intro r hr
      rw [blockOn] at hr ⊢
      simp only [pollRead, ChunkedBodyChunkStream.rounds, ChunkedBodyChunkStream.round]
      generalize r.pollReadChunk h = x at hr ⊢
      obtain ⟨_ | _ | e' | _, r'⟩ := x
      · exact ih r' hr
      · cases hr
      · cases hr
        rfl
      · cases hr
  exact hblock _ r (ChunkHeadReader.readChunk_eq_err.mp (congrArg Prod.fst hread))

/-- Reading on from `r` fails, with an error that is as `blame` says, when what was buffered and
    delivered is no more than `room`. -/
def Rejects (h : Httparse) (room : Nat) (blame : BodyError → Prop) (r : ChunkHeadReader) : Prop :=
  ∃ e s d, r.readChunk h = (.err e, s) ∧
    (∀ maxLen, read h maxLen ⟨some (.betweenChunk r)⟩ = (.err e, ⟨none⟩)) ∧
    r.reader.io.bytes = d ++ s.reader.io.bytes ∧ r.reader.len + d.length ≤ room ∧ blame e

/-- What the calls on a chunked body that starts on `reader` can make the buffer hold: in every
    round and between, no more than a fill beyond the larger limit, or than there was.  A
    size line or a trailer section that does not end is rejected when no more than that
    has been delivered of it, because of its limit if the stream reaches to it. -/
structure ChunkBuffering (h : Httparse) (slots : ParseSlots) (maxLine maxTrailer : Nat)
    (reader : BytesReader) : Prop where
  passes : ∀ cs, (calls (pollRead h) (pollDrain h) cs
    (new reader slots maxLine maxTrailer)).2.Follows h
      (.betweenChunk (.new reader slots maxLine maxTrailer))
  accesses : ∀ current, Reaches h (.betweenChunk (.new reader slots maxLine maxTrailer)) current →
    Accesses (chunkAsks maxLine maxTrailer) reader current.reader ∧
      ∀ maxLen, Accesses (chunkAsks maxLine maxTrailer) reader (current.polled h maxLen)
  bounded : ∀ s, Accesses (chunkAsks maxLine maxTrailer) reader s →
    s.len ≤ max reader.len (4096 + max maxLine maxTrailer)
  line : ∀ r, Reaches h (.betweenChunk (.new reader slots maxLine maxTrailer)) (.betweenChunk r) →
    r.state = .readingSize → h.parseChunkSize r.reader.unread = .ok .incomplete →
    Rejects h (max reader.len (4096 + max maxLine maxTrailer))
      (fun e => e = .chunkHeaderTooLong maxLine ↔
        r.reader.unread ≠ [] ∧ maxLine ≤ r.reader.unread.length) r
  trailers : ∀ r bytes,
    Reaches h (.betweenChunk (.new reader slots maxLine maxTrailer)) (.betweenChunk r) →
    r.state = .readingTrailers bytes →
    h.parseHeaders r.parseSlots.slotCount r.reader.unread = .ok .incomplete →
    Rejects h (max reader.len (4096 + max maxLine maxTrailer))
      (fun e => e = .trailerError (.maxLengthExceeded maxTrailer) ↔
        r.reader.unread ≠ [] ∧ maxTrailer ≤ r.reader.unread.length) r
  lastChunk : ∀ r n,
    Reaches h (.betweenChunk (.new reader slots maxLine maxTrailer)) (.betweenChunk r) →
    r.state = .readingSize → h.parseChunkSize r.reader.unread = .ok (.complete (n, 0)) →
    h.parseHeaders r.parseSlots.slotCount (r.reader.unread.drop n) = .ok .incomplete →
    Rejects h (2 * max reader.len (4096 + max maxLine maxTrailer))
      (fun e => n ≤ maxLine → (e = .trailerError (.maxLengthExceeded maxTrailer) ↔
        r.reader.unread.drop n ≠ [] ∧ maxTrailer ≤ (r.reader.unread.drop n).length)) r

theorem bounded_of_accesses {reader s : BytesReader}
    (h : Accesses (chunkAsks maxLine maxTrailer) reader s) :
    s.len ≤ max reader.len (4096 + max maxLine maxTrailer) :=
  h.len_le fun _ _ hasks => chunkAsks_le hasks

/-- A read that fails, in a state that goes on with `reader`, is a rejection. -/
theorem Rejects.of_passes {reader : BytesReader} {r s : ChunkHeadReader} {e : BodyError}
    {blame : BodyError → Prop} {taken room : Nat}
    (hwithin : ChunkedBodyChunkStream.Within maxLine maxTrailer reader (.betweenChunk r))
    (hread : r.readChunk h = (.err e, s))
    (hpasses : Passes (chunkAsks r.maxChunkHeaderLength r.maxTrailerLength) taken r.reader s.reader)
    (hroom : taken + max reader.len (4096 + max maxLine maxTrailer) ≤ room) (hblame : blame e) :
    Rejects h room blame r := by
  obtain ⟨rfl, rfl, haccesses⟩ := hwithin
  obtain ⟨d, hio, hlen⟩ := hpasses.delivered_le (fun _ _ hasks => chunkAsks_le hasks)
  have hbefore := bounded_of_accesses haccesses
  refine ⟨e, s, d, hread, fun maxLen => read_betweenChunk_err maxLen hread, hio, ?_, hblame⟩
  simp only [ioFillLen] at hlen
  omega

/-- An item that does not end. -/
theorem rejects_endless (hsize : h.ChunkSizeLaws) (hfields : h.FieldSectionLaws)
    {reader : BytesReader} {r : ChunkHeadReader} {tooLong : BodyError} {long : Prop}
    (hwithin : ChunkedBodyChunkStream.Within maxLine maxTrailer reader (.betweenChunk r))
    (hpoll : ∀ s, ChunkHeadReader.SameItem r s →
      Meets (s.pollReadChunk h) (s.endlessPost tooLong long)) :
    Rejects h (max reader.len (4096 + max maxLine maxTrailer)) (fun e => e = tooLong ↔ long) r := by
  obtain ⟨e, s, hread, herr, hfills⟩ := ChunkHeadReader.readChunk_rejects hsize hfields
    (fun s => ChunkHeadReader.SameItem r s ∧
      Fills (chunkAsks r.maxChunkHeaderLength r.maxTrailerLength) r.reader s.reader)
    (fun e s => (e = tooLong ↔ long) ∧
      Fills (chunkAsks r.maxChunkHeaderLength r.maxTrailerLength) r.reader s.reader)
    ⟨⟨rfl, rfl, rfl, rfl, rfl⟩, .refl⟩ (by
      rintro s ⟨hsame, hfills⟩
      obtain ⟨-, -, -, hline, htrailer⟩ := id hsame
      have hone := hpoll s hsame
      rw [ChunkHeadReader.endlessPost, hline, htrailer] at hone
      refine hone.mono ?_ (fun _ _ hf => hf) ?_
      · exact fun s' hs' => ⟨hsame.trans hs'.1, hfills.trans hs'.2⟩
      · exact fun e s' he => ⟨he.1, hfills.trans he.2⟩)
  exact .of_passes hwithin hread hfills.passes (by omega) herr

/-- A trailer section that does not end, behind the size line of the last chunk. -/
theorem rejects_last (hsize : h.ChunkSizeLaws) (hfields : h.FieldSectionLaws)
    {reader : BytesReader} {r : ChunkHeadReader} {n : Nat}
    (hwithin : ChunkedBodyChunkStream.Within maxLine maxTrailer reader (.betweenChunk r))
    (hstate : r.state = .readingSize)
    (hline : h.parseChunkSize r.reader.unread = .ok (.complete (n, 0)))
    (hend : h.parseHeaders r.parseSlots.slotCount (r.reader.unread.drop n) = .ok .incomplete) :
    Rejects h (2 * max reader.len (4096 + max maxLine maxTrailer))
      (fun e => n ≤ maxLine → (e = .trailerError (.maxLengthExceeded maxTrailer) ↔
        r.reader.unread.drop n ≠ [] ∧ maxTrailer ≤ (r.reader.unread.drop n).length)) r := by
  obtain ⟨hmaxLine, hmaxTrailer, haccesses⟩ := id hwithin
  obtain ⟨e, s, hread, herr, mid, taken, hmid, htaken, hpasses⟩ :=
    ChunkHeadReader.readChunk_rejects hsize hfields (ChunkHeadReader.lastPost n r).pending
      (ChunkHeadReader.lastPost n r).err (.inl ⟨⟨rfl, rfl, rfl, rfl, rfl⟩, .refl⟩)
      fun s hs => ChunkHeadReader.pollReadChunk_last hsize hfields hstate hline hend hs
  rw [hmaxLine, hmaxTrailer] at herr
  have hmid' := hmid
  rw [hmaxLine, hmaxTrailer] at hmid'
  have hbound := bounded_of_accesses (haccesses.trans hmid')
  exact .of_passes hwithin hread hpasses (by omega) herr

theorem chunkBuffering (hsize : h.ChunkSizeLaws) (hfields : h.FieldSectionLaws) (slots : ParseSlots)
    (maxLine maxTrailer : Nat) (reader : BytesReader) :
    ChunkBuffering h slots maxLine maxTrailer reader := by
  have hwithin : ∀ current,
      Reaches h (.betweenChunk (.new reader slots maxLine maxTrailer)) current →
      current.Within maxLine maxTrailer reader :=
    fun current hreaches => hreaches.within ⟨rfl, rfl, .refl⟩
  constructor
  case passes =>
    intro cs
    refine calls_kept (fun c _ hr => call_follows c hr) cs ?_
    rintro current ⟨⟩
    exact .refl
  case accesses =>
    exact fun current hreaches =>
      ⟨(hwithin current hreaches).accesses, fun maxLen => (hwithin current hreaches).polled maxLen⟩
  case bounded => exact fun s hs => bounded_of_accesses hs
  case line =>
    intro r hreaches hstate hend
    have hr := hwithin _ hreaches
    refine rejects_endless hsize hfields hr ?_
    rintro s ⟨hs, hunread, -, hline, -⟩
    have hone := ChunkHeadReader.pollReadChunk_endlessLine hsize (hs.trans hstate)
      (by rw [hunread]; exact hend)
    rw [hunread, hline, hr.1] at hone
    exact hone
  case trailers =>
    intro r bytes hreaches hstate hend
    have hr := hwithin _ hreaches
    refine rejects_endless hsize hfields hr ?_
    rintro s ⟨hs, hunread, hslots, -, htrailer⟩
    have hone := ChunkHeadReader.pollReadChunk_endlessTrailers hfields (hs.trans hstate)
      (by rw [hunread, hslots]; exact hend)
    rw [hunread, htrailer, hr.2.1] at hone
    exact hone
  case lastChunk =>
    exact fun r n hreaches hstate hline hend =>
      rejects_last hsize hfields (hwithin _ hreaches) hstate hline hend

end ChunkedBodyReader

end Jrpxy.Body.Reader
