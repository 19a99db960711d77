/-
  Jrpxy.HttpMessage.HeadBuffering

  What a peer can make the proxy buffer of a head.

  A read never asks for more than the limit leaves room for, so the limit
  bounds the buffer in every round; and a head that does not end is rejected
  once the limit is reached.
-/
import Jrpxy.Util.Buffering
import Jrpxy.HttpMessage.HeadLimit

namespace Jrpxy.HttpMessage

open Poll Incremental Util

variable {ε ε' α β : Type}

/-- A read is asked for no more than the limit leaves room for. -/
def headAsks (maxHeadLength buffered len : Nat) : Prop := buffered + len ≤ maxHeadLength

/-- A parser takes the head it finds out of the buffer, and does nothing else to it. -/
def HeadParser.Takes (parse : HeadParser α) : Prop :=
  ∀ r, (parse r).2 = r ∨ ∃ n bytes, r.splitTo n = some (bytes, (parse r).2)

/-- A parser that finds a part of a head asks for more. -/
def HeadParser.Waits (parse : HeadParser α)
    (recognise : Bytes → Except ε' (Status (Nat × β))) : Prop :=
  ∀ r, recognise r.asBytes = .ok .incomplete → parse r = (.ok none, r)

/-- Splitting off and slicing takes the head, or nothing. -/
theorem ParseSlots.splitAndSlice_takes (buf : BytesReader) (len : Nat)
    (slice : Bytes → Option α) :
    (splitAndSlice buf len slice).2 = buf ∨
      ∃ bytes, buf.splitTo len = some (bytes, (splitAndSlice buf len slice).2) := by
  unfold splitAndSlice
  split
  · exact .inl rfl
  · next headBuf rest hsplit =>
    refine .inr ⟨headBuf, ?_⟩
    split <;> exact hsplit

theorem ParseSlots.parseRequest_takes (h : Httparse) (slots : ParseSlots) :
    HeadParser.Takes (slots.parseRequest h) := by
  intro r
  unfold parseRequest
  split
  · exact .inl rfl
  · exact .inl rfl
  · exact .inl rfl
  · next req headLen _ =>
    rcases splitAndSlice_takes r headLen (sliceRequest req) with hsame | ⟨bytes, hsplit⟩
    · exact .inl hsame
    · exact .inr ⟨headLen, bytes, hsplit⟩

theorem ParseSlots.parseResponse_takes (h : Httparse) (slots : ParseSlots) :
    HeadParser.Takes (slots.parseResponse h) := by
  intro r
  unfold parseResponse
  split
  · exact .inl rfl
  · exact .inl rfl
  · exact .inl rfl
  · next res headLen _ =>
    rcases splitAndSlice_takes r headLen (sliceResponse res) with hsame | ⟨bytes, hsplit⟩
    · exact .inl hsame
    · exact .inr ⟨headLen, bytes, hsplit⟩

variable {errors : HeadErrors ε} {parse : HeadParser α} {maxHeadLength : Nat}

theorem HeadParser.Takes.accesses (htakes : parse.Takes) (reader : BytesReader) :
    Accesses (headAsks maxHeadLength) reader (parse reader).2 := by
  rcases htakes reader with hsame | ⟨n, bytes, hsplit⟩
  · rw [hsame]
  · exact .single (.splitTo hsplit)

/-- After any number of rounds, fills within the limit and a take lead to the buffer. -/
theorem readHeadLoop_accesses (htakes : parse.Takes) (fuel : Nat) (reader : BytesReader) :
    Accesses (headAsks maxHeadLength) reader
      (readHeadLoop errors parse maxHeadLength fuel reader).2 := by
  induction fuel generalizing reader with
  | zero => exact .refl
  | succ fuel ih =>
    have hparse := @HeadParser.Takes.accesses _ parse maxHeadLength htakes reader
    rw [readHeadLoop]
    generalize parse reader = x at hparse ⊢
    obtain ⟨_ | (_ | head) | e | _, r⟩ := x
    · exact hparse
    · simp only [mapErr_mk, Polled.mapErr_ok, andThen_ok]
      split
      · exact hparse
      · next hlen =>
        have hasks : headAsks maxHeadLength r.len (maxHeadLength - r.len) := by
          unfold headAsks
          omega
        -- below the limit, a read asks for no more than it leaves
        have hread := hparse.trans (BytesReader.read_fills hasks (r.weight + 1)).accesses
        rw [← BytesReader.read] at hread
        generalize r.read (maxHeadLength - r.len) = y at hread ⊢
        obtain ⟨_ | n | e | _, s⟩ := y
        · exact hread
        · simp only [mapErr_mk, Polled.mapErr_ok, andThen_ok]
          split
          · exact hread
          · exact hread.trans (ih s)
        · exact hread
        · exact hread
    · exact hparse
    · exact hparse
    · exact hparse

variable {recognise : Bytes → Except ε' (Status (Nat × β))}

/-- What starts an item that does not end does not end either. -/
theorem incomplete_of_append {p t : Bytes} (hp : StreamParser recognise)
    (h : recognise (p ++ t) = .ok .incomplete) : recognise p = .ok .incomplete := by
  rcases hres : recognise p with e | (_ | ⟨n, a⟩)
  · obtain ⟨e', he'⟩ := hp.error_append hres t
    rw [he'] at h
    cases h
  · rfl
  · rw [hp.complete_append hres t] at h
    cases h

/-- The rounds on a head that does not end: reading on only fills the buffer, and stops with
    an error, which is that of the limit if the stream is long enough. -/
theorem readHeadLoop_endless (hp : StreamParser recognise) (hwaits : parse.Waits recognise)
    {fuel : Nat} {reader : BytesReader} (hend : recognise reader.unread = .ok .incomplete)
    (hfuel : reader.weight < fuel) :
    ∃ e s, readHeadLoop errors parse maxHeadLength fuel reader = (.err e, s) ∧
      Fills (headAsks maxHeadLength) reader s ∧
      (maxHeadLength ≤ reader.unread.length → e = errors.maxHeadLenExceeded s.len maxHeadLength) := by
  induction fuel generalizing reader with
  | zero => omega
  | succ fuel ih =>
    have hparse := hwaits reader (incomplete_of_append hp hend)
    simp only [readHeadLoop, hparse, mapErr_mk, Polled.mapErr_ok, andThen_ok]
    by_cases hlen : maxHeadLength ≤ reader.len
    · rw [if_pos hlen]
      exact ⟨_, reader, rfl, .refl, fun _ => rfl⟩
    · rw [if_neg hlen]
      have hasks : headAsks maxHeadLength reader.len (maxHeadLength - reader.len) := by
        unfold headAsks
        omega
      -- a stream that reaches to the limit is not all buffered yet
      have hmore : reader.io.stream = [] → ¬ maxHeadLength ≤ reader.unread.length := by
        intro hnil
        rw [BytesReader.unread, hnil, List.append_nil, BytesReader.length_asBytes]
        exact hlen
      have hfills := BytesReader.read_fills hasks (reader.weight + 1)
      rw [← BytesReader.read] at hfills
      have hread := @BytesReader.read_meets (maxHeadLength - reader.len) (by omega) reader
      generalize reader.read (maxHeadLength - reader.len) = x at hfills hread
      obtain ⟨_ | n | e | _, r⟩ := x
      · exact hread.elim
      · obtain ⟨hunread, hweight, heof⟩ := hread
        simp only [mapErr_mk, Polled.mapErr_ok, andThen_ok]
        by_cases hn : n = 0
        · rw [if_pos hn]
          exact ⟨_, r, rfl, hfills, fun hmax => absurd hmax (hmore (heof hn))⟩
        · rw [if_neg hn]
          obtain ⟨e, s, hloop, hrest, herr⟩ := ih (hunread ▸ hend) (by omega)
          exact ⟨e, s, hloop, hfills.trans hrest, fun hmax => herr (hunread ▸ hmax)⟩
      · exact ⟨_, r, rfl, hfills, fun hmax => absurd hmax (hmore hread)⟩
      · exact hread.elim

/-- What a call of `head` that starts on `reader` can make the buffer hold: behind every round,
    and behind every poll of the read in the next one, no more than the limit or than there
    was; and a head that does not end is rejected when no more than that has been
    delivered, because of the limit if the stream reaches to it. -/
structure HeadBuffering (errors : HeadErrors ε) (parse : HeadParser α)
    (recognise : Bytes → Except ε' (Status (Nat × β))) (maxHeadLength : Nat)
    (reader : BytesReader) : Prop where
  passes : ∀ rounds, Accesses (headAsks maxHeadLength) reader
    (readHeadLoop errors parse maxHeadLength rounds reader).2
  polls : ∀ rounds r, readHeadLoop errors parse maxHeadLength rounds reader = (.pending, r) →
    r.len < maxHeadLength → ∀ polls, Accesses (headAsks maxHeadLength) reader
      (blockOn (BytesReader.pollRead (maxHeadLength - r.len)) polls r).2
  bounded : ∀ s, Accesses (headAsks maxHeadLength) reader s →
    s.len ≤ max reader.len maxHeadLength
  rejects : recognise reader.unread = .ok .incomplete →
    ∃ e s d, readHead errors parse maxHeadLength reader = (.err e, s) ∧
      reader.io.bytes = d ++ s.io.bytes ∧ reader.len + d.length ≤ max reader.len maxHeadLength ∧
      (maxHeadLength ≤ reader.unread.length → e = errors.maxHeadLenExceeded s.len maxHeadLength)

theorem headBuffering (htakes : parse.Takes) (hp : StreamParser recognise)
    (hwaits : parse.Waits recognise) (errors : HeadErrors ε) (maxHeadLength : Nat)
    (reader : BytesReader) : HeadBuffering errors parse recognise maxHeadLength reader := by
  have hbounded : ∀ s, Accesses (headAsks maxHeadLength) reader s →
      s.len ≤ max reader.len maxHeadLength :=
    fun _ h => h.len_le fun _ _ hasks => hasks
  have hpasses := fun rounds =>
    @readHeadLoop_accesses _ _ errors parse maxHeadLength htakes rounds reader
  refine ⟨hpasses, ?_, hbounded, fun hend => ?_⟩
  · intro rounds r hrounds hlen polls
    have hround := hpasses rounds
    rw [hrounds] at hround
    have hasks : headAsks maxHeadLength r.len (maxHeadLength - r.len) := by
      unfold headAsks
      omega
    exact hround.trans (BytesReader.read_fills hasks polls).accesses
  obtain ⟨e, s, hread, hfills, herr⟩ := @readHeadLoop_endless _ _ _ _ errors parse maxHeadLength
    recognise hp hwaits (reader.weight + 1) reader hend (Nat.lt_succ_self _)
  obtain ⟨d, hbytes, hio⟩ := hfills.delivered
  have hlen := congrArg List.length hbytes
  rw [List.length_append, BytesReader.length_asBytes, BytesReader.length_asBytes] at hlen
  exact ⟨e, s, d, hread, hio, hlen ▸ hbounded s hfills.accesses, herr⟩

end Jrpxy.HttpMessage
