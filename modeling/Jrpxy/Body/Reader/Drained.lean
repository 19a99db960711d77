/-
  Jrpxy.Body.Reader.Drained

  What it means that a reader says it is drained.

  A caller that reads and drains in any order, and goes on after errors, may
  ask at any moment whether the body is drained.  A content-length reader that
  says so has consumed the whole body, answers the next read with the end and
  can be finished.  A chunked reader that says so has and can as long as no
  call has failed; behind a failure it says so too, but fails the next read and
  cannot be finished.
-/
import Jrpxy.Body.Reader.Contract
import Jrpxy.Lib.PullStream.Calls

namespace Jrpxy.Body.Reader

open Poll PullStream ChunkedCoding Util HttpMessage
open Httparse.Reference (reference chunkSizeLaws fieldSectionLaws)

/-! ## A declared length -/

namespace ContentLengthBodyReader

/-- If the reader says it is drained, the body of this length in front of the bytes of the
    connection is consumed, the next read is at the end, and the reader can be finished. -/
def DrainedMeansDrained (all : Bytes) (length : Nat) (self : ContentLengthBodyReader) : Prop :=
  self.drained = true →
    (length ≤ all.length ∧ self.reader.bytes = all.drop length) ∧
      (∀ m, (pollRead m self).1 = .ok none) ∧ self.finish = some (self.reader, self.parseSlots)

/-- The reader has counted what it has handed out, whatever that was. -/
def Counted (length : Nat) (all : Bytes) (self : ContentLengthBodyReader) : Prop :=
  ∃ got, HandedOut length all got self

theorem pollRead_counted (length : Nat) (all : Bytes) (m : Nat) (self : ContentLengthBodyReader)
    (hself : Counted length all self) :
    Meets (pollRead m self) { pending := Counted length all
                              ok := fun _ => Counted length all
                              err := fun _ => Counted length all } := by
  obtain ⟨got, hself⟩ := hself
  refine (pollRead_contract length all m got self hself).mono (fun _ h => ⟨got, h⟩) ?_
    (fun _ _ h => ⟨got, h⟩)
  rintro (_ | d) s h
  · exact ⟨got, h.2.2⟩
  · exact ⟨got ++ d, h.2⟩

theorem drainedMeansDrained_of_counted {length : Nat} {all : Bytes} {self : ContentLengthBodyReader}
    (hself : Counted length all self) : DrainedMeansDrained all length self := by
  obtain ⟨got, rfl, hgot, hall⟩ := hself
  intro hdrained
  have hoff := self.offset_le
  have hrem : self.remaining = 0 := beq_iff_eq.mp hdrained
  have heq : self.offset = self.length := by
    unfold remaining at hrem
    omega
  rw [heq] at hgot
  refine ⟨⟨?_, ?_⟩, fun m => ?_, if_pos heq⟩
  · rw [hall, List.length_append, hgot]
    exact Nat.le_add_right _ _
  · rw [hall, ← hgot, List.drop_left]
  · rw [pollRead, if_pos hrem]

/-- After any calls, whatever they answered. -/
theorem drainedMeansDrained (length : Nat) (reader : BytesReader) (parseSlots : ParseSlots)
    (cs : List Call) :
    DrainedMeansDrained reader.bytes length
      (calls pollRead pollDrain cs (new length reader parseSlots)).2 := by
  have hpoll := pollRead_counted length reader.bytes
  apply drainedMeansDrained_of_counted
  refine calls_keep (K := Counted length reader.bytes) ?_ cs ⟨[], rfl, rfl, rfl⟩
  intro c r hr
  exact call_meets hpoll (fun r hr => drainLoop_keep (fun r hr => hpoll drainSize r hr) _ hr) c hr

end ContentLengthBodyReader

/-! ## Chunked -/

namespace ChunkedBodyReader

variable {h : Httparse}

/-- If the reader says it is drained, the body in front of these bytes is consumed with its
    trailer section, the next read is at the end, and the reader can be finished. -/
def DrainedMeansDrained (h : Httparse) (unread : Bytes) (parseSlots : ParseSlots)
    (self : ChunkedBodyReader) : Prop :=
  self.drained = true →
    (∃ t reader slots, (decode (recognisers h parseSlots) unread).tail = some t ∧
      self.finish = some (reader, slots, t.trailers) ∧ reader.unread = t.rest) ∧
    ∀ m, (pollRead h m self).1 = .ok none

/-- The reader has its state, and the same end ahead. -/
def Going (h : Httparse) (tail : Option BodyEnd) (self : ChunkedBodyReader) : Prop :=
  self.inner.isSome = true ∧ (self.owed h).tail = tail

/-- The reader has lost its state. -/
def Lost (self : ChunkedBodyReader) : Prop := self.inner = none

theorem pollRead_going (hsize : h.ChunkSizeLaws) (hfields : h.FieldSectionLaws)
    (tail : Option BodyEnd) (m : Nat) (self : ChunkedBodyReader) (hself : Going h tail self) :
    Meets (pollRead h m self) { pending := Going h tail
                                ok := fun _ => Going h tail
                                err := fun _ => Lost } := by
  have hlawful : Meets (pollRead h m self) ((puller h).post m self) :=
    puller_lawful hsize hfields m self (Nat.zero_le m)
  have hstate := isNone_pollRead (h := h) m self
  obtain ⟨-, htail⟩ := hself
  generalize pollRead h m self = x at hlawful hstate
  obtain ⟨_ | (_ | d) | e | _, s⟩ := x
  -- only a failure takes the inner state, and what is handed out is in front of the end
  · have howed : s.owed h = self.owed h := hlawful.1
    refine ⟨by simpa [Polled.failed] using hstate, ?_⟩
    rw [howed, htail]
  · obtain ⟨t, hself, hs, -⟩ := hlawful
    have hself : self.owed h = .ending t := hself
    have hs : s.owed h = .ending t := hs
    refine ⟨by simpa [Polled.failed] using hstate, ?_⟩
    rw [hs, ← hself, htail]
  · have howed : self.owed h = (s.owed h).prepend d := hlawful.1
    refine ⟨by simpa [Polled.failed] using hstate, ?_⟩
    rw [← htail, howed]
    rfl
  · exact Option.isNone_iff_eq_none.mp hstate
  · exact hlawful

/-- A lost reader fails every call. -/
theorem call_lost (c : Call) {self : ChunkedBodyReader} (hself : Lost self) :
    Meets (call (pollRead h) (pollDrain h) c self)
      { pending := fun _ => False, ok := fun _ _ => False, err := fun _ => Lost } := by
  cases c with
  | read m =>
    rw [call, pollRead_none m hself]
    exact hself
  | drain =>
    rw [call, pollDrain, Puller.drainLoop, pollRead_none drainSize hself]
    exact hself

/-- A reader that has its state means what it says. -/
theorem drainedMeansDrained_of_going {unread : Bytes} {parseSlots : ParseSlots}
    {self : ChunkedBodyReader}
    (hself : Going h (toOwed (decode (recognisers h parseSlots) unread)).tail self) :
    DrainedMeansDrained h unread parseSlots self := by
  obtain ⟨hsome, htail⟩ := hself
  intro hdrained
  obtain ⟨_ | current⟩ := self
  · cases hsome
  cases current with
  | inChunk r => cases hdrained
  | betweenChunk r => cases hdrained
  | done r =>
    have htail : some (BodyEnd.mk r.trailers r.reader.unread) =
        (decode (recognisers h parseSlots) unread).tail.map fun t => ⟨t.trailers, t.rest⟩ := htail
    obtain ⟨t, ht, heq⟩ := Option.map_eq_some_iff.mp htail.symm
    obtain ⟨htrailers, hrest⟩ := BodyEnd.mk.inj heq
    refine ⟨⟨t, r.reader, r.parseSlots, ht, ?_, hrest.symm⟩, fun _ => rfl⟩
    rw [htrailers]
    rfl

/-- A lost reader does not. -/
theorem not_drainedMeansDrained_of_lost {unread : Bytes} {parseSlots : ParseSlots}
    {self : ChunkedBodyReader} (hself : Lost self) :
    ¬ DrainedMeansDrained h unread parseSlots self := by
  intro hmeans
  obtain ⟨inner⟩ := self
  cases hself
  have hread := (hmeans rfl).2 0
  cases hread

/-- After any calls a reader means what it says exactly if none of them has failed. -/
theorem means_iff_noneFailed (hsize : h.ChunkSizeLaws) (hfields : h.FieldSectionLaws)
    (reader : BytesReader) (parseSlots : ParseSlots) (maxLine maxTrailer : Nat) (cs : List Call) :
    DrainedMeansDrained h reader.unread parseSlots
        (calls (pollRead h) (pollDrain h) cs (new reader parseSlots maxLine maxTrailer)).2 ↔
      NoneFailed
        (calls (pollRead h) (pollDrain h) cs (new reader parseSlots maxLine maxTrailer)).1 := by
  have hpoll := pollRead_going hsize hfields
    (toOwed (decode (recognisers h parseSlots) reader.unread)).tail
  have hdrain := fun r hr => drainLoop_keep (fun r hr => hpoll drainSize r hr) (weight r + 1)
    (r := r) hr
  have hcases := calls_cases (call_meets hpoll hdrain) call_lost cs
    (r := new reader parseSlots maxLine maxTrailer) ⟨rfl, rfl⟩
  rcases hcases with ⟨hnone, hgoing⟩ | ⟨hfailed, hlost⟩
  · exact iff_of_true (drainedMeansDrained_of_going hgoing) hnone
  · exact iff_of_false (not_drainedMeansDrained_of_lost hlost) hfailed

end ChunkedBodyReader

/-! ## Both readers -/

/-- After these calls each of the two readers of a connection means it if it says that it is
    drained. -/
structure DrainedMeansDrained (h : Httparse) (reader : BytesReader) (parseSlots : ParseSlots)
    (length maxLine maxTrailer : Nat) (cs : List Call) : Prop where
  cl : ContentLengthBodyReader.DrainedMeansDrained reader.bytes length
    (calls ContentLengthBodyReader.pollRead ContentLengthBodyReader.pollDrain cs
      (.new length reader parseSlots)).2
  te : ChunkedBodyReader.DrainedMeansDrained h reader.unread parseSlots
    (calls (ChunkedBodyReader.pollRead h) (ChunkedBodyReader.pollDrain h) cs
      (.new reader parseSlots maxLine maxTrailer)).2

/-- No call on a chunked reader of this connection has failed. -/
def ChunkedNeverFailed (h : Httparse) (reader : BytesReader) (parseSlots : ParseSlots)
    (maxLine maxTrailer : Nat) (cs : List Call) : Prop :=
  NoneFailed (calls (ChunkedBodyReader.pollRead h) (ChunkedBodyReader.pollDrain h) cs
    (.new reader parseSlots maxLine maxTrailer)).1

/-- On any stream and after any reads and drains the readers mean it when they say that they
    are drained, exactly if no call on the chunked one has failed. -/
theorem drainedMeansDrained_iff {h : Httparse} (hsize : h.ChunkSizeLaws)
    (hfields : h.FieldSectionLaws) (reader : BytesReader) (parseSlots : ParseSlots)
    (length maxLine maxTrailer : Nat) (cs : List Call) :
    DrainedMeansDrained h reader parseSlots length maxLine maxTrailer cs ↔
      ChunkedNeverFailed h reader parseSlots maxLine maxTrailer cs := by
  have hte := ChunkedBodyReader.means_iff_noneFailed hsize hfields reader parseSlots maxLine
    maxTrailer cs
  constructor
  · intro hmeans
    exact hte.mp hmeans.te
  · intro hnone
    exact ⟨ContentLengthBodyReader.drainedMeansDrained length reader parseSlots cs, hte.mpr hnone⟩

theorem drainedMeansDrained_iff_oneByte :
    DrainedMeansDrained reference oneByte ⟨4⟩ 1 18 64 [.read 1, .drain] ↔
      ChunkedNeverFailed reference oneByte ⟨4⟩ 18 64 [.read 1, .drain] :=
  drainedMeansDrained_iff chunkSizeLaws fieldSectionLaws oneByte ⟨4⟩ 1 18 64 [.read 1, .drain]

/-- A connection whose first byte begins no size line. -/
def noChunk : BytesReader := .new ⟨[.data 120 []]⟩

/-- A chunked reader that has failed says it is drained. -/
theorem failedReader_says_drained :
    (calls (ChunkedBodyReader.pollRead reference) (ChunkedBodyReader.pollDrain reference)
      [.read 1] (.new noChunk ⟨4⟩ 18 64)).2.drained = true ∧
      ¬ DrainedMeansDrained reference noChunk ⟨4⟩ 1 18 64 [.read 1] := by
  have hlost : (calls (ChunkedBodyReader.pollRead reference) (ChunkedBodyReader.pollDrain reference)
      [.read 1] (.new noChunk ⟨4⟩ 18 64)).2.inner.isNone = true := by decide +kernel
  have hlost := Option.isNone_iff_eq_none.mp hlost
  refine ⟨?_, fun hmeans => ChunkedBodyReader.not_drainedMeansDrained_of_lost hlost hmeans.te⟩
  rw [ChunkedBodyReader.drained, hlost]

end Jrpxy.Body.Reader
