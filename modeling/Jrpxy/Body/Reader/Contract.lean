/-
  Jrpxy.Body.Reader.Contract

  One read contract for the three body readers.

  Polls of any sizes, none at all included, in any order and behind errors:
  a content-length reader and a chunked one keep to the contract of
  `PullStream.Contract` in every run.  A reader to the end of the connection
  does unless it is polled for no bytes when none are buffered and some are
  ready: it then takes the empty answer for the end.
-/
import Jrpxy.Body.Reader.Chunked
import Jrpxy.Httparse.Reference
import Jrpxy.Lib.PullStream.Contract

namespace Jrpxy.Body.Reader

open Poll PullStream ChunkedCoding Util HttpMessage
open Httparse.Reference (reference chunkSizeLaws fieldSectionLaws)

/-! ## A declared length -/

namespace ContentLengthBodyReader

/-- The reader has handed out `got` of the bytes `all` of its connection, and counted them. -/
def HandedOut (length : Nat) (all got : Bytes) (self : ContentLengthBodyReader) : Prop :=
  self.length = length ∧ got.length = self.offset ∧ all = got ++ self.reader.bytes

theorem pollRead_contract (length : Nat) (all : Bytes) (m : Nat) (got : Bytes)
    (self : ContentLengthBodyReader) (hself : HandedOut length all got self) :
    Meets (pollRead m self)
      (contractPost (HandedOut length all) (all.take length) (length ≤ all.length) m got) := by
  obtain ⟨rfl, hgot, hall⟩ := hself
  have hoff := self.offset_le
  have hkept : ∀ reader : BytesReader, reader.bytes = self.reader.bytes →
      HandedOut self.length all got { self with reader } := by
    intro reader hbytes
    refine ⟨rfl, hgot, ?_⟩
    rw [hbytes]
    exact hall
  unfold pollRead
  by_cases hrem : self.remaining = 0
  -- at the declared length all of the body has been handed out
  · rw [if_pos hrem]
    have hlen : self.length = got.length := by
      unfold remaining at hrem
      omega
    refine ⟨?_, ?_, rfl, hgot, hall⟩
    · rw [hlen, hall, List.take_left]
    · rw [hlen, hall, List.length_append]
      exact Nat.le_add_right _ _
  · rw [if_neg hrem]
    have hensure : Meets (pollEnsure self.reader) {
        pending := fun s => s.bytes = self.reader.bytes
        ok := fun _ s => s.bytes = self.reader.bytes
        err := fun _ s => s.bytes = self.reader.bytes } :=
      (BytesReader.pollEnsure_bytes ioFillLen self.reader).mapErr (fun _ h => h) (fun _ _ h => h)
        (fun _ _ h => h)
    refine hensure.andThen hkept (fun _ => hkept) ?_
    intro _ reader hbytes
    -- a piece is within what is buffered, what was asked for, and the declared length
    obtain ⟨hle, hmax, hfits⟩ := self.readLen_le reader.len m
    obtain ⟨reader', hsplit, -, -⟩ := BytesReader.splitTo_eq hle
    obtain ⟨-, -, -, hlen, -, -⟩ := BytesReader.unread_splitTo hsplit
    have hparts := BytesReader.bytes_splitTo hsplit
    simp only [hsplit]
    refine ⟨by omega, rfl, ?_, ?_⟩
    · rw [List.length_append, hlen, hgot]
    · rw [hall, ← hbytes, hparts, List.append_assoc]

/-- Every run of polls of a new reader keeps to the contract. -/
theorem contract (length : Nat) (reader : BytesReader) (parseSlots : ParseSlots) (ms : List Nat) :
    Contract (reader.bytes.take length) (length ≤ reader.bytes.length) []
      (polls pollRead ms (new length reader parseSlots)).1 := by
  refine polls_contract (C := fun _ _ => True) (I := HandedOut length reader.bytes) ?_
    (fun m got r _ hr => pollRead_contract length reader.bytes m got r hr) ms ⟨rfl, rfl, rfl⟩
    (eachPoll_true _ _ _)
  -- what is counted is within the declared length
  rintro got r ⟨hlen, hgot, hall⟩
  have hoff := r.offset_le
  rw [hall, List.take_append]
  rw [List.take_of_length_le (by omega)]
  exact List.prefix_append _ _

end ContentLengthBodyReader

/-! ## Chunked -/

namespace ChunkedBodyReader

variable {h : Httparse}

/-- The reader has handed out `got` of a body of which it owes the rest, or has failed. -/
def HandedOut (h : Httparse) (whole : Owed BodyEnd) (got : Bytes) (self : ChunkedBodyReader) :
    Prop :=
  whole = (self.owed h).prepend got ∨ self.inner = none ∧ got <+: whole.body

theorem HandedOut.ahead {whole : Owed BodyEnd} {got : Bytes} {self : ChunkedBodyReader}
    (hself : HandedOut h whole got self) : got <+: whole.body := by
  rcases hself with rfl | ⟨-, hahead⟩
  · exact List.prefix_append _ _
  · exact hahead

theorem pollRead_contract (hsize : h.ChunkSizeLaws) (hfields : h.FieldSectionLaws)
    (whole : Owed BodyEnd) (m : Nat) (got : Bytes) (self : ChunkedBodyReader)
    (hself : HandedOut h whole got self) :
    Meets (pollRead h m self)
      (contractPost (HandedOut h whole) whole.body (whole.tail.isSome = true) m got) := by
  rcases hself with howed | ⟨hnone, hahead⟩
  -- as long as no poll has failed, what was handed out and what is owed are the whole body
  · have hlawful : Meets (pollRead h m self) ((puller h).post m self) :=
      puller_lawful hsize hfields m self (Nat.zero_le m)
    generalize hx : pollRead h m self = x at hlawful
    obtain ⟨_ | (_ | d) | e | _, s⟩ := x
    · obtain ⟨hsame, -⟩ := hlawful
      have hsame : s.owed h = self.owed h := hsame
      refine .inl ?_
      rw [hsame]
      exact howed
    · obtain ⟨t, hself, hs, -⟩ := hlawful
      have hself : self.owed h = .ending t := hself
      have hs : s.owed h = .ending t := hs
      rw [hself] at howed
      refine ⟨?_, ?_, .inl ?_⟩
      · rw [howed]
        exact (List.append_nil got).symm
      · rw [howed]
        rfl
      · rw [hs]
        exact howed
    · obtain ⟨hpaid, -, hlen, -⟩ := hlawful
      have hpaid : self.owed h = (s.owed h).prepend d := hpaid
      refine ⟨hlen, .inl ?_⟩
      rw [howed, hpaid, Owed.prepend_prepend]
    · exact .inr ⟨inner_of_err hx, HandedOut.ahead (.inl howed)⟩
    · exact hlawful
  -- behind an error every poll is an error
  · rw [pollRead_none m hnone]
    exact .inr ⟨hnone, hahead⟩

/-- Every run of polls of a new reader keeps to the contract, over what the decoder makes of
    the stream. -/
theorem contract (hsize : h.ChunkSizeLaws) (hfields : h.FieldSectionLaws) (reader : BytesReader)
    (parseSlots : ParseSlots) (maxLine maxTrailer : Nat) (ms : List Nat) :
    Contract (decode (recognisers h parseSlots) reader.unread).body
      ((decode (recognisers h parseSlots) reader.unread).tail.isSome = true) []
      (polls (pollRead h) ms (new reader parseSlots maxLine maxTrailer)).1 := by
  have htail : ((decode (recognisers h parseSlots) reader.unread).tail.isSome = true) =
      ((toOwed (decode (recognisers h parseSlots) reader.unread)).tail.isSome = true) := by
    rw [toOwed, Option.isSome_map]
  rw [htail]
  have hnew : HandedOut h (toOwed (decode (recognisers h parseSlots) reader.unread)) []
      (new reader parseSlots maxLine maxTrailer) := .inl rfl
  exact polls_contract (C := fun _ _ => True) (fun hr => hr.ahead)
    (fun m got r _ hr => pollRead_contract hsize hfields _ m got r hr) ms hnew
    (eachPoll_true _ _ _)

end ChunkedBodyReader

/-! ## Delimited by the end of the connection -/

namespace EofBodyReader

/-- The reader has handed out `got` of the bytes `all` of its connection, and stands at the end
    only behind all of them. -/
def HandedOut (all got : Bytes) (self : EofBodyReader) : Prop :=
  all = got ++ self.reader.bytes ∧ (self.eof = true → self.reader.bytes = [])

/-- A poll for no bytes, with none buffered and some ready. -/
def AsksForNothing (m : Nat) (self : EofBodyReader) : Prop :=
  m = 0 ∧ self.eof = false ∧ self.reader.isEmpty = true ∧ self.reader.io.HasData

theorem take_contract (all : Bytes) (m : Nat) (got : Bytes) {self : EofBodyReader}
    (heof : self.eof = false) (hall : all = got ++ self.reader.bytes) :
    Meets (take m self) (contractPost (HandedOut all) all True m got) := by
  obtain ⟨reader', hsplit, -, -⟩ := BytesReader.splitTo_eq (Nat.min_le_left self.reader.len m)
  obtain ⟨-, -, -, hlen, -, -⟩ := BytesReader.unread_splitTo hsplit
  have hparts := BytesReader.bytes_splitTo hsplit
  unfold take
  rw [hsplit]
  refine ⟨by omega, ?_, fun hend => ?_⟩
  · show all = (got ++ _) ++ reader'.bytes
    rw [hall, hparts, List.append_assoc]
  · have hend : self.eof = true := hend
    rw [heof] at hend
    cases hend

theorem pollRead_contract (all : Bytes) (m : Nat) (got : Bytes) (self : EofBodyReader)
    (hasks : ¬ AsksForNothing m self) (hself : HandedOut all got self) :
    Meets (pollRead m self) (contractPost (HandedOut all) all True m got) := by
  obtain ⟨hall, hend⟩ := hself
  unfold pollRead
  by_cases heof : self.eof = true
  · rw [if_pos heof]
    refine ⟨?_, trivial, hall, hend⟩
    rw [hall, hend heof, List.append_nil]
  rw [if_neg heof]
  rw [Bool.not_eq_true] at heof
  by_cases hempty : self.reader.isEmpty = true
  · rw [if_neg (by simp [hempty])]
    have hnil := BytesReader.isEmpty_iff.mp hempty
    have hfill := BytesReader.doFill_bytes m self.reader
    unfold BytesReader.pollRead
    generalize self.reader.doFill m = x at hfill
    have hkept : ∀ reader : BytesReader, reader.bytes = self.reader.bytes →
        HandedOut all got { self with reader } := by
      intro reader hbytes
      refine ⟨?_, fun h => ?_⟩
      · rw [hbytes]
        exact hall
      · cases heof.symm.trans h
    obtain ⟨_ | n | e | _, reader⟩ := x
    · exact hkept reader hfill
    · obtain ⟨hbytes, -, hzero⟩ := hfill
      simp only [mapErr_mk, Polled.mapErr_ok, andThen_ok]
      by_cases hn : n = 0
      -- a fill of no bytes is the end, as this poll does not ask for nothing
      · rw [if_pos hn]
        have hio : self.reader.io.bytes = [] :=
          (hzero hn).resolve_left fun hdata => hasks ⟨hdata.1, heof, hempty, hdata.2⟩
        have hrest : self.reader.bytes = [] := by rw [BytesReader.bytes, hnil, hio]; rfl
        refine ⟨?_, trivial, ?_, fun _ => ?_⟩
        · rw [hall, hrest, List.append_nil]
        · show all = got ++ reader.bytes
          rw [hbytes]
          exact hall
        · show reader.bytes = []
          rw [hbytes, hrest]
      · rw [if_neg hn]
        exact take_contract all m got heof (hkept reader hbytes).1
    · exact hkept reader hfill
    · exact hfill
  · rw [if_pos (by simpa using hempty)]
    exact take_contract all m got heof hall

/-- Polled for no bytes with none buffered and some ready, the reader takes itself to be at
    the end. -/
theorem pollRead_of_asksForNothing {m : Nat} {self : EofBodyReader} (h : AsksForNothing m self) :
    (pollRead m self).1 = .ok none := by
  obtain ⟨rfl, heof, hempty, hdata⟩ := h
  unfold pollRead
  rw [if_neg (by simp [heof]), if_neg (by simp [hempty])]
  simp only [BytesReader.pollRead, BytesReader.doFill, Source.pollRead_zero hdata]
  rfl

/-- A run of polls of a new reader keeps to the contract exactly if no poll asks for nothing
    with nothing buffered and something ready. -/
theorem contract_iff (reader : BytesReader) (parseSlots : ParseSlots) (ms : List Nat) :
    Contract reader.bytes True [] (polls pollRead ms (new reader parseSlots)).1 ↔
      EachPoll (fun m r => ¬ AsksForNothing m r) pollRead ms (new reader parseSlots) := by
  have hnew : HandedOut reader.bytes [] (new reader parseSlots) := ⟨rfl, fun h => by cases h⟩
  constructor
  · refine eachPoll_of_contract (pollRead_contract reader.bytes) ?_ ms hnew
    rintro m got r answers hasks ⟨hall, -⟩ hcontract
    have hasks := Classical.not_not.mp hasks
    rw [pollRead_of_asksForNothing hasks] at hcontract
    -- the end is reported in front of what is ready
    have hrest : r.reader.bytes = [] := by
      have hgot := hcontract.1
      rw [hall] at hgot
      exact (List.append_right_eq_self.mp hgot.symm)
    exact hasks.2.2.2.bytes_ne_nil (List.append_eq_nil_iff.mp hrest).2
  · intro hsteps
    refine polls_contract ?_ (pollRead_contract reader.bytes) ms hnew hsteps
    rintro got r ⟨hall, -⟩
    rw [hall]
    exact List.prefix_append _ _

end EofBodyReader

/-! ## One contract -/

/-- Polled with these sizes, whatever the answers, each of the three readers of a connection
    keeps to the contract: over the declared length of its bytes, over what the decoder makes
    of them, and over all of them. -/
structure HonourContract (h : Httparse) (reader : BytesReader) (parseSlots : ParseSlots)
    (length maxLine maxTrailer : Nat) (maxLens : List Nat) : Prop where
  cl : Contract (reader.bytes.take length) (length ≤ reader.bytes.length) []
    (polls ContentLengthBodyReader.pollRead maxLens (.new length reader parseSlots)).1
  te : Contract (decode (recognisers h parseSlots) reader.unread).body
    ((decode (recognisers h parseSlots) reader.unread).tail.isSome = true) []
    (polls (ChunkedBodyReader.pollRead h) maxLens (.new reader parseSlots maxLine maxTrailer)).1
  eof : Contract reader.bytes True []
    (polls EofBodyReader.pollRead maxLens (.new reader parseSlots)).1

/-- No poll of a run asks the reader to the end of the connection for nothing when nothing is
    buffered and something is ready. -/
def NeverAsksForNothing (reader : BytesReader) (parseSlots : ParseSlots) (maxLens : List Nat) :
    Prop :=
  EachPoll (fun m r => ¬ EofBodyReader.AsksForNothing m r) EofBodyReader.pollRead maxLens
    (.new reader parseSlots)

/-- The three readers of any stream, polled with any sizes, honour one contract exactly if that
    of the end of the connection is never asked for nothing in front of data. -/
theorem honourContract_iff {h : Httparse} (hsize : h.ChunkSizeLaws) (hfields : h.FieldSectionLaws)
    (reader : BytesReader) (parseSlots : ParseSlots) (length maxLine maxTrailer : Nat)
    (maxLens : List Nat) :
    HonourContract h reader parseSlots length maxLine maxTrailer maxLens ↔
      NeverAsksForNothing reader parseSlots maxLens := by
  constructor
  · intro hcontract
    exact (EofBodyReader.contract_iff reader parseSlots maxLens).mp hcontract.eof
  · intro hnever
    exact ⟨ContentLengthBodyReader.contract length reader parseSlots maxLens,
      ChunkedBodyReader.contract hsize hfields reader parseSlots maxLine maxTrailer maxLens,
      (EofBodyReader.contract_iff reader parseSlots maxLens).mpr hnever⟩

/-- A connection with a segment of one byte, and then its end. -/
def oneByte : BytesReader := .new ⟨[.data 97 []]⟩

theorem honourContract_iff_oneByte :
    HonourContract reference oneByte ⟨4⟩ 1 18 64 [1, 0, 1] ↔
      NeverAsksForNothing oneByte ⟨4⟩ [1, 0, 1] :=
  honourContract_iff chunkSizeLaws fieldSectionLaws oneByte ⟨4⟩ 1 18 64 [1, 0, 1]

/-- A read for no bytes, and the end is reported in front of the byte that is ready. -/
theorem oneByte_breaks_contract : ¬ HonourContract reference oneByte ⟨4⟩ 1 18 64 [0] := by
  intro hcontract
  have heof := hcontract.eof.1
  have hbytes : oneByte.bytes = [97] := rfl
  rw [hbytes] at heof
  cases heof

end Jrpxy.Body.Reader
