/-
  Jrpxy.Body.Coding

  The chunked reader and the chunked writer against the chunked coding.

  Reading a body to its end comes to what the one-shot decoder makes of the
  stream, however the stream is delivered (`readAll_eq_decode`).  What the
  writer sends is the encoding of its blocks, so reading it back gives the
  blocks (`readAll_writeBody`), and neither a proper beginning of it nor an
  aborted body is ever taken for a complete one (`neverEnds_of_incomplete`).
-/
import Jrpxy.Body.Reader.Unifier
import Jrpxy.Body.Writer.Chunked
import Jrpxy.Httparse.Reference

namespace Jrpxy.Body

open Poll PullStream BlockWriter ChunkedCoding Ascii Util HttpMessage
open Reader Writer Writer.Chunked
open Httparse.Reference (reference chunkSizeLaws fieldSectionLaws)

variable {h : Httparse}

/-! ## Reading to the end -/

/-- The run of reads to the end, by its outcome. -/
theorem readAll_meets (hsize : h.ChunkSizeLaws) (hfields : h.FieldSectionLaws)
    (reader : BytesReader) (slots : ParseSlots) {maxLine maxTrailer : Nat}
    (hfits : (decode (recognisers h slots) reader.unread).Fits maxLine maxTrailer)
    {maxLens : Nat → Nat} (hpos : ∀ i, 1 ≤ maxLens i) :
    Meets ((ChunkedBodyReader.puller h).readAll maxLens (.new reader slots maxLine maxTrailer)) {
      pending := fun _ => False
      ok := fun _ x => ∃ t, (decode (recognisers h slots) reader.unread).tail = some t ∧
        x.1 = (decode (recognisers h slots) reader.unread).body ∧
        ∃ reader' slots', x.2.finish = some (reader', slots', t.trailers) ∧
          reader'.unread = t.rest
      err := fun _ x => (decode (recognisers h slots) reader.unread).tail = none ∧
        x.1 = (decode (recognisers h slots) reader.unread).body } := by
  have hlawful := ChunkedBodyReader.puller_lawful hsize hfields
  refine (Puller.readAll_meets hlawful (fun _ => Nat.zero_le _) hpos _).mono (fun _ hf => hf) ?_ ?_
  · rintro - ⟨out, s⟩ ⟨t, htail, hout, howed, hdone⟩
    rw [ChunkedBodyReader.owed_new] at htail hout
    obtain ⟨tail, hdecoded, rfl⟩ := Option.map_eq_some_iff.mp htail
    exact ⟨tail, hdecoded, hout, ChunkedBodyReader.finish_of_done hdone howed⟩
  · rintro e ⟨out, s⟩ herr
    obtain ⟨htail, hout⟩ := herr ((ChunkedBodyReader.fits_new reader slots _ _).mpr hfits)
    rw [ChunkedBodyReader.owed_new] at htail hout
    exact ⟨Option.map_eq_none_iff.mp htail, hout⟩

/-! ## What the writer sends -/

/-- The chunks of a body, and its end. -/
def encodeBody (blocks : List Bytes) (trailers : Headers) : Bytes :=
  encodeChunks sizeLine blocks ++ finishData trailers

/-- A whole body: one cycle per block, and the end with trailers. -/
def writeBody (blocks : List Bytes) (trailers : Headers) (sink : Sink) :
    Polled BodyError Unit × Sink :=
  andThen (driveChunks blocks .mk sink) id fun ready sink =>
    (ready.finishWithTrailers trailers).finish sink

/-- A body given up: one cycle per block, and the poison byte. -/
def writeAborted (blocks : List Bytes) (sink : Sink) : Polled BodyError Unit × Sink :=
  andThen (driveChunks blocks .mk sink) id fun ready sink => ready.abort.abort sink

theorem driveChunks_meets {blocks : List Bytes} (hblocks : ∀ d ∈ blocks, d.length < 2 ^ 64)
    (sink : Sink) :
    Meets (driveChunks blocks .mk sink) {
      pending := fun _ => False
      ok := fun _ s => Sends medium (encodeChunks sizeLine blocks) sink s
      err := fun _ _ => ¬ sink.Accepting } := by
  have hroom : (phases.idle Ready.mk).Admits blocks.flatten.length := by
    intro k hk
    cases hk
  refine (runBlocks_meets phases_lawful _ hroom hblocks sink).mono (fun _ hf => hf) ?_ (fun _ _ he => he)
  rintro r s ⟨hsends, -⟩
  rw [← framing_blocks]
  exact hsends

theorem writeBody_meets {blocks : List Bytes} (hblocks : ∀ d ∈ blocks, d.length < 2 ^ 64)
    (trailers : Headers) (sink : Sink) :
    Meets (writeBody blocks trailers sink) {
      pending := fun _ => False
      ok := fun _ s => Sends medium (encodeBody blocks trailers) sink s
      err := fun _ _ => ¬ sink.Accepting } := by
  refine (driveChunks_meets hblocks sink).andThen (fun _ hf => hf) (fun _ _ he => he) ?_
  rintro r s hsends
  refine (finish_meets (r.finishWithTrailers trailers) s).mono (fun _ hf => hf) ?_
    (fun _ _ hacc ha => hacc (hsends.accepting ha))
  exact fun _ s' hsends' => hsends.trans hsends'

theorem writeAborted_meets {blocks : List Bytes} (hblocks : ∀ d ∈ blocks, d.length < 2 ^ 64)
    (sink : Sink) :
    Meets (writeAborted blocks sink) {
      pending := fun _ => False
      ok := fun _ s => Sends medium (encodeChunks sizeLine blocks ++ poison) sink s
      err := fun _ _ => ¬ sink.Accepting } := by
  refine (driveChunks_meets hblocks sink).andThen (fun _ hf => hf) (fun _ _ he => he) ?_
  rintro ⟨⟩ s hsends
  refine (abort_meets s).mono (fun _ hf => hf) ?_ (fun _ _ hacc ha => hacc (hsends.accepting ha))
  exact fun _ s' hsends' => hsends.trans hsends'

/-! ## What the reader makes of it -/

/-- The size line of a `u64` announces it. -/
theorem reads_sizeLine (hsize : h.ChunkSizeLaws) (slots : ParseSlots) {n : Nat}
    (hn : n < 2 ^ 64) : (recognisers h slots).Reads sizeLine n := by
  intro s
  have hlen : (digits 16 n).length ≤ 16 := digits_length_le (by decide) (by decide) hn
  have hhex : ∀ b ∈ digits 16 n, isHexDigit b = true :=
    forall_mem_digits (by decide) (fun _ hd => isHexDigit_digit hd) n
  show h.parseChunkSize (sizeLine n ++ s) = _
  rw [sizeLine, hsize.hex (digits_ne_nil 16 n) hlen hhex (value_digits (by decide) (by decide) n) s,
    List.length_append]
  rfl

/-- A size line has at most eighteen bytes. -/
theorem sizeLine_length_le {n : Nat} (hn : n < 2 ^ 64) : (sizeLine n).length ≤ 18 := by
  have hline := length_sizeLine_le (UInt64.ofNat n)
  rwa [toNat_ofNat_of_lt hn] at hline

/-- The end of a body decodes to its trailers, values trimmed. -/
theorem decode_finishData (hsize : h.ChunkSizeLaws) (hfields : h.FieldSectionLaws)
    {slots : ParseSlots} {trailers : Headers} (htrailers : trailers.Valid)
    (hslots : trailers.headers.length ≤ slots.slotCount) (suffix : Bytes) :
    decode (recognisers h slots) (finishData trailers ++ suffix) =
      ⟨[3], [], some ⟨(fieldLines trailers.headers).length + 2,
        ⟨trailers.headers.map fun f => (f.1, trimOws f.2)⟩, suffix⟩⟩ := by
  have hzero : (recognisers h slots).Reads sizeLine 0 := reads_sizeLine hsize slots (by decide)
  obtain ⟨hs, hsection, hmap⟩ := hfields.complete htrailers hslots suffix
  have hshape : finishData trailers ++ suffix =
      sizeLine 0 ++ (fieldLines trailers.headers ++ ascii "\r\n" ++ suffix) := by
    rw [finishData, show sizeLine 0 = ascii "0\r\n" from rfl]
    simp only [List.append_assoc]
  have hrecognised : (recognisers h slots).fields
      (fieldLines trailers.headers ++ ascii "\r\n" ++ suffix) =
        .ok (.complete ((fieldLines trailers.headers).length + 2,
          ⟨trailers.headers.map fun f => (f.1, trimOws f.2)⟩)) := by
    rw [← hmap]
    simp only [recognisers, hsection]
    rfl
  rw [hshape, decode_last _ (hzero _), List.drop_left, decodeTail_complete _ hrecognised]
  have hdrop : (fieldLines trailers.headers ++ ascii "\r\n" ++ suffix).drop
      ((fieldLines trailers.headers).length + 2) = suffix := by
    rw [show (fieldLines trailers.headers).length + 2 =
      (fieldLines trailers.headers ++ ascii "\r\n").length by rw [List.length_append]; rfl]
    exact List.drop_left
  rw [hdrop]
  rfl

/-- A whole encoded body decodes to its blocks and trailers. -/
theorem decode_encodeBody (hsize : h.ChunkSizeLaws) (hfields : h.FieldSectionLaws)
    {slots : ParseSlots} {blocks : List Bytes} (hblocks : ∀ d ∈ blocks, d.length < 2 ^ 64)
    {trailers : Headers} (htrailers : trailers.Valid)
    (hslots : trailers.headers.length ≤ slots.slotCount) (suffix : Bytes) :
    decode (recognisers h slots) (encodeBody blocks trailers ++ suffix) =
      { sizeLines := (blocks.filter fun d => !d.isEmpty).map (fun d => (sizeLine d.length).length)
          ++ [3]
        body := blocks.flatten
        tail := some ⟨(fieldLines trailers.headers).length + 2,
          ⟨trailers.headers.map fun f => (f.1, trimOws f.2)⟩, suffix⟩ } := by
  rw [encodeBody, List.append_assoc, decode_chunks fun d hd _ =>
    reads_sizeLine hsize slots (hblocks d hd), decode_finishData hsize hfields htrailers hslots]
  simp only [List.append_nil]

/-- The limits an encoded body needs. -/
theorem fits_encodeBody (hsize : h.ChunkSizeLaws) (hfields : h.FieldSectionLaws)
    {slots : ParseSlots} {blocks : List Bytes} (hblocks : ∀ d ∈ blocks, d.length < 2 ^ 64)
    {trailers : Headers} (htrailers : trailers.Valid)
    (hslots : trailers.headers.length ≤ slots.slotCount) (suffix : Bytes)
    {maxLine maxTrailer : Nat} (hline : 18 ≤ maxLine)
    (htrailer : (fieldLines trailers.headers).length + 2 ≤ maxTrailer) :
    (decode (recognisers h slots) (encodeBody blocks trailers ++ suffix)).Fits
      maxLine maxTrailer := by
  rw [decode_encodeBody hsize hfields hblocks htrailers hslots]
  refine ⟨?_, ?_⟩
  · intro n hn
    rcases List.mem_append.mp hn with hn | hn
    · obtain ⟨d, hd, rfl⟩ := List.mem_map.mp hn
      have hle := sizeLine_length_le (hblocks d (List.mem_filter.mp hd).1)
      omega
    · rw [List.mem_singleton.mp hn]
      omega
  · intro t ht
    cases ht
    exact htrailer

/-- An encoded body is a complete chunked body. -/
theorem completeBody_encodeBody (hsize : h.ChunkSizeLaws) (hfields : h.FieldSectionLaws)
    {slots : ParseSlots} {blocks : List Bytes} (hblocks : ∀ d ∈ blocks, d.length < 2 ^ 64)
    {trailers : Headers} (htrailers : trailers.Valid)
    (hslots : trailers.headers.length ≤ slots.slotCount) {maxLine maxTrailer : Nat}
    (hline : 18 ≤ maxLine) (htrailer : (fieldLines trailers.headers).length + 2 ≤ maxTrailer) :
    BodyReader.CompleteBody h slots maxLine maxTrailer (encodeBody blocks trailers) .chunked := by
  have hdecode := decode_encodeBody hsize hfields hblocks htrailers hslots []
  have hfits := fits_encodeBody hsize hfields hblocks htrailers hslots [] hline htrailer
  rw [List.append_nil] at hdecode hfits
  exact ⟨hfits, _, congrArg Decoded.tail hdecode, rfl⟩

/-! ## Reading comes to decoding -/

/-- What reading a chunked body to its end is to come to: success and failure as the
    one-shot decoder says, its data, and behind a complete body its trailers and the
    bytes after it. -/
structure ReadsAsDecoded (h : Httparse) (slots : ParseSlots) (reader : BytesReader)
    (x : Polled BodyError Unit × Bytes × ChunkedBodyReader) : Prop where
  data : x.2.1 = (decode (recognisers h slots) reader.unread).body
  outcome : match (decode (recognisers h slots) reader.unread).tail with
    | some t => x.1 = .ok () ∧ ∃ reader' slots',
        x.2.2.finish = some (reader', slots', t.trailers) ∧ reader'.unread = t.rest
    | none => ∃ e, x.1 = .err e

/-- Reading a chunked body to its end comes to what the decoder makes of the whole
    stream, whatever the delivery and the read sizes. -/
theorem readAll_eq_decode (hsize : h.ChunkSizeLaws) (hfields : h.FieldSectionLaws)
    (reader : BytesReader) (slots : ParseSlots) {maxLine maxTrailer : Nat}
    (hfits : (decode (recognisers h slots) reader.unread).Fits maxLine maxTrailer)
    {maxLens : Nat → Nat} (hpos : ∀ i, 1 ≤ maxLens i) :
    ReadsAsDecoded h slots reader
      ((ChunkedBodyReader.puller h).readAll maxLens (.new reader slots maxLine maxTrailer)) := by
  have hread := readAll_meets hsize hfields reader slots hfits hpos
  generalize (ChunkedBodyReader.puller h).readAll maxLens
    (.new reader slots maxLine maxTrailer) = y at hread ⊢
  obtain ⟨_ | _ | e | _, out, s⟩ := y
  · exact hread.elim
  · obtain ⟨t, htail, hout, hfinish⟩ := hread
    refine ⟨hout, ?_⟩
    rw [htail]
    exact ⟨rfl, hfinish⟩
  · obtain ⟨htail, hout⟩ := hread
    refine ⟨hout, ?_⟩
    rw [htail]
    exact ⟨e, rfl⟩
  · exact hread.elim

/-- Two chunks delivered in two segments with a stop in a size line. -/
def wiki : BytesReader :=
  ⟨⟨[.data 52 (ascii "\r\nWiki\r\n5"), .pending, .data 13 (ascii "\npedia\r\n0\r\n\r\nGET")]⟩,
    .default⟩

theorem readAll_eq_decode_wiki :
    wiki.unread = encodeBody [ascii "Wiki", ascii "pedia"] .empty ++ ascii "GET" ∧
      ReadsAsDecoded reference ⟨4⟩ wiki
        ((ChunkedBodyReader.puller reference).readAll (fun _ => 3) (.new wiki ⟨4⟩ 18 2)) := by
  have hunread : wiki.unread = encodeBody [ascii "Wiki", ascii "pedia"] .empty ++ ascii "GET" := by
    decide +kernel
  have hfits : (decode (recognisers reference ⟨4⟩) wiki.unread).Fits 18 2 := by
    rw [hunread]
    exact fits_encodeBody chunkSizeLaws fieldSectionLaws (by simp [ascii]) (by decide +kernel)
      (by decide) (ascii "GET") (by decide) (by decide)
  have hpos : ∀ i, 1 ≤ (fun _ : Nat => 3) i := fun _ => Nat.le_of_ble_eq_true rfl
  exact ⟨hunread, readAll_eq_decode chunkSizeLaws fieldSectionLaws wiki ⟨4⟩ hfits hpos⟩

/-! ## The round trip -/

/-- The writer sends the blocks and trailers, and what it sends is read back, with
    anything behind it, as the concatenation of the blocks and the trailers with
    trimmed values; exactly what stands behind is left unread. -/
def RoundTrips (h : Httparse) (blocks : List Bytes) (trailers : Headers) (sink : Sink) : Prop :=
  ∃ bytes sink', writeBody blocks trailers sink = (.ok (), sink') ∧
    sink'.wire = sink.wire ++ bytes ∧
    ∀ (suffix : Bytes) (reader : BytesReader) (slots : ParseSlots) (maxLine maxTrailer : Nat)
      (maxLens : Nat → Nat), reader.unread = bytes ++ suffix →
      trailers.headers.length ≤ slots.slotCount → 18 ≤ maxLine →
      (fieldLines trailers.headers).length + 2 ≤ maxTrailer → (∀ i, 1 ≤ maxLens i) →
      ∃ s reader' slots', (ChunkedBodyReader.puller h).readAll maxLens
          (.new reader slots maxLine maxTrailer) = (.ok (), blocks.flatten, s) ∧
        s.finish = some (reader', slots',
          ⟨trailers.headers.map fun f => (f.1, trimOws f.2)⟩) ∧
        reader'.unread = suffix

/-- Every list of blocks and valid trailers makes the round trip through a sink that
    accepts bytes. -/
theorem readAll_writeBody (hsize : h.ChunkSizeLaws) (hfields : h.FieldSectionLaws)
    {blocks : List Bytes} (hblocks : ∀ d ∈ blocks, d.length < 2 ^ 64)
    {trailers : Headers} (htrailers : trailers.Valid) {sink : Sink} (hacc : sink.Accepting) :
    RoundTrips h blocks trailers sink := by
  have hwrite := writeBody_meets hblocks trailers sink
  generalize hx : writeBody blocks trailers sink = x at hwrite
  obtain ⟨_ | _ | e | _, sink'⟩ := x
  · exact hwrite.elim
  · refine ⟨_, sink', hx, hwrite.wire, ?_⟩
    intro suffix reader slots maxLine maxTrailer maxLens hunread hslots hline htrailer hpos
    have hfits := fits_encodeBody hsize hfields hblocks htrailers hslots suffix hline htrailer
    rw [← hunread] at hfits
    have hread := readAll_meets hsize hfields reader slots hfits hpos
    rw [hunread, decode_encodeBody hsize hfields hblocks htrailers hslots] at hread
    generalize (ChunkedBodyReader.puller h).readAll maxLens
      (.new reader slots maxLine maxTrailer) = y at hread
    obtain ⟨_ | _ | e | _, out, s⟩ := y
    · exact hread.elim
    · obtain ⟨t, ht, hout, reader', slots', hfinish, hrest⟩ := hread
      cases ht
      have hout : out = blocks.flatten := hout
      subst hout
      exact ⟨s, reader', slots', rfl, hfinish, hrest⟩
    · cases hread.1
    · exact hread.elim
  · exact absurd hacc hwrite
  · exact hwrite.elim

/-- Two blocks, an empty one between them and one trailer, through a sink that takes
    three bytes, is not ready, and then takes one. -/
theorem readAll_writeBody_wiki :
    RoundTrips reference [ascii "Wiki", [], ascii "pedia"] ⟨[(ascii "etag", ascii " x ")]⟩
      ⟨[], [.accept 3, .pending, .accept 1]⟩ :=
  readAll_writeBody chunkSizeLaws fieldSectionLaws (by simp [ascii]) (by decide +kernel)
    (by simp [Sink.Accepting])

/-! ## Incomplete bodies -/

/-- Reading ends in an error, and no read, whatever its size, reports the end of the body. -/
def NeverEnds (h : Httparse) (reader : ChunkedBodyReader) : Prop :=
  (∀ maxLens : Nat → Nat, (∀ i, 1 ≤ maxLens i) →
    Meets ((ChunkedBodyReader.puller h).readAll maxLens reader) {
      pending := fun _ => False
      ok := fun _ _ => False
      err := fun _ _ => True }) ∧
  ∀ ms : List Nat, Meets (Puller.readEach (ChunkedBodyReader.read h) ms reader) {
    pending := fun _ => False
    ok := fun answers _ => none ∉ answers
    err := fun _ _ => True }

/-- A stream the decoder finds no end in never ends. -/
theorem neverEnds_of_tail (hsize : h.ChunkSizeLaws) (hfields : h.FieldSectionLaws)
    {reader : BytesReader} {slots : ParseSlots}
    (htail : (decode (recognisers h slots) reader.unread).tail = none) (maxLine maxTrailer : Nat) :
    NeverEnds h (.new reader slots maxLine maxTrailer) := by
  have hlawful := ChunkedBodyReader.puller_lawful hsize hfields
  have hnone : ((ChunkedBodyReader.puller h).owed
      (.new reader slots maxLine maxTrailer)).tail = none := by
    rw [ChunkedBodyReader.owed_new]
    exact Option.map_eq_none_iff.mpr htail
  refine ⟨fun maxLens hpos => ?_, fun ms => ?_⟩
  · refine (Puller.readAll_meets hlawful (fun _ => Nat.zero_le _) hpos _).mono (fun _ hf => hf) ?_
      (fun _ _ _ => trivial)
    rintro - x ⟨t, ht, -⟩
    rw [hnone] at ht
    cases ht
  -- a read that hands out data leaves a reader with no end ahead either
  · refine (Puller.readEach_meets
      (I := fun r => ((ChunkedBodyReader.puller h).owed r).tail = none)
      (Q := fun answer => answer ≠ none) (E := True) ?_ ms hnone).mono (fun _ hf => hf) ?_
      (fun _ _ _ => trivial)
    · intro m r hr
      refine (Puller.read_meets hlawful (Nat.zero_le m) r).mono (fun _ hf => hf) ?_
        (fun _ _ _ => trivial)
      rintro (_ | d) s
      · rintro ⟨t, ht, -⟩
        rw [ht] at hr
        cases hr
      · rintro ⟨howed, -⟩
        rw [howed] at hr
        exact ⟨by simp, hr⟩
    · rintro answers s ⟨hall, -⟩ hmem
      exact hall none hmem rfl

/-- Cut short anywhere, an encoded body has no end, whatever the slots. -/
theorem decode_cut_encodeBody (hsize : h.ChunkSizeLaws) (hfields : h.FieldSectionLaws)
    (slots : ParseSlots) {blocks : List Bytes} (hblocks : ∀ d ∈ blocks, d.length < 2 ^ 64)
    {trailers : Headers} (htrailers : trailers.Valid) {p u : Bytes}
    (hcut : encodeBody blocks trailers = p ++ u) (hu : u ≠ []) :
    (decode (recognisers h slots) p).tail = none := by
  -- with slots for all trailers there is no end, so there is none with fewer
  let more : ParseSlots := ⟨slots.slotCount + trailers.headers.length⟩
  have hmore := @decode_encodeBody h hsize hfields more blocks hblocks trailers htrailers
    (Nat.le_add_left _ _) []
  rw [List.append_nil, hcut] at hmore
  have hnone := decode_cut (recognisers_lawful hsize hfields more)
    (congrArg Decoded.tail hmore) rfl hu
  rcases htail : (decode (recognisers h slots) p).tail with _ | t
  · rfl
  · have hsame : decode (recognisers h more) p = decode (recognisers h slots) p :=
      decode_more_slots hfields (Nat.le_add_right _ _) htail
    rw [hsame, htail] at hnone
    cases hnone

/-- Behind complete chunks and the poison byte there is nothing, whatever follows. -/
theorem decode_aborted (hsize : h.ChunkSizeLaws) (slots : ParseSlots) {blocks : List Bytes}
    (hblocks : ∀ d ∈ blocks, d.length < 2 ^ 64) (junk : Bytes) :
    decode (recognisers h slots) (encodeChunks sizeLine blocks ++ poison ++ junk) =
      { sizeLines := (blocks.filter fun d => !d.isEmpty).map fun d => (sizeLine d.length).length
        body := blocks.flatten
        tail := none } := by
  obtain ⟨e, he⟩ := hsize.first (b := 120) (by decide) (by decide) junk
  have hfault : decode (recognisers h slots) (poison ++ junk) = .fault := by
    refine decode_fault _ fun n len hok => ?_
    have hok : h.parseChunkSize (120 :: junk) = .ok (.complete (n, len)) := hok
    rw [he] at hok
    cases hok
  rw [List.append_assoc, decode_chunks fun d hd _ => reads_sizeLine hsize slots (hblocks d hd),
    hfault]
  simp

/-- No proper beginning of what the writer sends for these blocks, and any trailers, is
    ever taken for a complete body. -/
def CutsNeverEnd (h : Httparse) (blocks : List Bytes) : Prop :=
  ∀ (trailers : Headers) (sink sink' : Sink), trailers.Valid →
    writeBody blocks trailers sink = (.ok (), sink') →
    ∃ bytes, sink'.wire = sink.wire ++ bytes ∧
      ∀ (p u : Bytes) (reader : BytesReader) (slots : ParseSlots) (maxLine maxTrailer : Nat),
        bytes = p ++ u → u ≠ [] → reader.unread = p →
        NeverEnds h (.new reader slots maxLine maxTrailer)

/-- What the writer sends for these blocks and an abort is never taken for a complete
    body, whatever follows; exactly the blocks' data is returned before the error. -/
def AbortsNeverEnd (h : Httparse) (blocks : List Bytes) : Prop :=
  ∀ sink sink' : Sink, writeAborted blocks sink = (.ok (), sink') →
    ∃ bytes, sink'.wire = sink.wire ++ bytes ∧
      ∀ (junk : Bytes) (reader : BytesReader) (slots : ParseSlots) (maxLine maxTrailer : Nat),
        reader.unread = bytes ++ junk →
        NeverEnds h (.new reader slots maxLine maxTrailer) ∧
        (18 ≤ maxLine → ∀ maxLens : Nat → Nat, (∀ i, 1 ≤ maxLens i) →
          ((ChunkedBodyReader.puller h).readAll maxLens
            (.new reader slots maxLine maxTrailer)).2.1 = blocks.flatten)

/-- An incomplete body is never taken for a complete one. -/
theorem neverEnds_of_incomplete (hsize : h.ChunkSizeLaws) (hfields : h.FieldSectionLaws)
    {blocks : List Bytes} (hblocks : ∀ d ∈ blocks, d.length < 2 ^ 64) :
    CutsNeverEnd h blocks ∧ AbortsNeverEnd h blocks := by
  refine ⟨?_, ?_⟩
  -- a proper part of what was written, with nothing behind it
  · intro trailers sink sink' htrailers hok
    have hwrite := writeBody_meets hblocks trailers sink
    rw [hok] at hwrite
    refine ⟨_, hwrite.wire, ?_⟩
    rintro p u reader slots maxLine maxTrailer hcut hu rfl
    exact neverEnds_of_tail hsize hfields
      (decode_cut_encodeBody hsize hfields slots hblocks htrailers hcut hu) _ _
  -- the poison byte is where a size line should be, whatever follows
  · intro sink sink' hok
    have hwrite := writeAborted_meets hblocks sink
    rw [hok] at hwrite
    refine ⟨_, hwrite.wire, ?_⟩
    intro junk reader slots maxLine maxTrailer hunread
    have hdecode := decode_aborted hsize slots hblocks junk
    rw [← hunread] at hdecode
    refine ⟨neverEnds_of_tail hsize hfields (by rw [hdecode]) _ _, ?_⟩
    intro hline maxLens hpos
    have hfits : (decode (recognisers h slots) reader.unread).Fits maxLine maxTrailer := by
      rw [hdecode]
      refine ⟨?_, by simp⟩
      intro n hn
      obtain ⟨d, hd, rfl⟩ := List.mem_map.mp hn
      have hle := sizeLine_length_le (hblocks d (List.mem_filter.mp hd).1)
      omega
    have hread := readAll_meets hsize hfields reader slots hfits hpos
    rw [hdecode] at hread
    generalize (ChunkedBodyReader.puller h).readAll maxLens
      (.new reader slots maxLine maxTrailer) = y at hread
    obtain ⟨_ | _ | e | _, out, s⟩ := y
    · exact hread.elim
    · obtain ⟨t, ht, -⟩ := hread
      cases ht
    · exact hread.2
    · exact hread.elim

theorem neverEnds_of_incomplete_wiki :
    CutsNeverEnd reference [ascii "Wiki", ascii "pedia"] ∧
      AbortsNeverEnd reference [ascii "Wiki", ascii "pedia"] :=
  neverEnds_of_incomplete chunkSizeLaws fieldSectionLaws (by simp [ascii])

end Jrpxy.Body
