/-
  Jrpxy.Body.Reader.Concluding

  Readers that are read for no bytes.

  A read for no bytes is answered with an empty piece as long as there is data
  and so makes no progress: the data stays buffered, and the next read has the
  same answer (`BodyReader.repeats`).  Where there is none, each reader comes to
  its end as with any other read (`BodyReader.concludes`): a reader with a
  declared length has nothing remaining, a chunked one never stands in a chunk,
  and one that ends with the connection takes the empty answer for the end that
  it is.
-/
import Jrpxy.Body.Reader.Unifier
import Jrpxy.Lib.Relay.Concluding

namespace Jrpxy.Body.Reader

open Poll PullStream ChunkedCoding Util HttpMessage

/-- A buffer that is not empty is ensured already. -/
theorem pollEnsure_of_ne {r : BytesReader} (hne : r.asBytes ≠ []) : pollEnsure r = (.ok (), r) := by
  have hempty : r.isEmpty = false :=
    Bool.eq_false_iff.mpr fun h => hne (BytesReader.isEmpty_iff.mp h)
  rw [pollEnsure, BytesReader.pollEnsure, hempty]
  rfl

/-- Splitting off no bytes leaves the buffer as it is. -/
theorem splitTo_zero (r : BytesReader) :
    ∃ r', r.splitTo 0 = some ([], r') ∧ r'.asBytes = r.asBytes := by
  obtain ⟨r', hsplit, hbytes, -⟩ := BytesReader.splitTo_eq (Nat.zero_le r.len)
  exact ⟨r', hsplit, hbytes⟩

/-- What is ensured is still buffered when no bytes are split off. -/
theorem buffered_of_split {r r' r'' : BytesReader} {bytes : Bytes}
    (hensure : pollEnsure r = (.ok (), r')) (hsplit : r'.splitTo 0 = some (bytes, r'')) :
    r''.asBytes ≠ [] := by
  have hmeets := pollEnsure_meets r
  rw [hensure] at hmeets
  obtain ⟨r₀, hzero, hbytes⟩ := splitTo_zero r'
  rw [hsplit] at hzero
  cases hzero
  rw [hbytes]
  exact hmeets.1

/-! ## A declared length -/

namespace ContentLengthBodyReader

/-- A read for no bytes that hands out a piece leaves data of the body in the buffer. -/
theorem buffered_of_piece {self s : ContentLengthBodyReader} {d : Bytes}
    (hpiece : pollRead 0 self = (.ok (some d), s)) : s.remaining ≠ 0 ∧ s.reader.asBytes ≠ [] := by
  unfold pollRead at hpiece
  split at hpiece
  · cases hpiece
  · next hmore =>
    obtain ⟨_, reader, hensure, hrest⟩ := andThen_eq_ok hpiece
    have hlen : self.readLen reader.len 0 = 0 := Nat.min_zero _
    simp only [hlen] at hrest
    split at hrest
    · cases hrest
    · next hsplit =>
      cases hrest
      exact ⟨hmore, buffered_of_split hensure hsplit⟩

/-- There a read for no bytes has one. -/
theorem pollRead_zero {self : ContentLengthBodyReader} (hmore : self.remaining ≠ 0)
    (hne : self.reader.asBytes ≠ []) : (pollRead 0 self).1 = .ok (some []) := by
  obtain ⟨r', hsplit, -⟩ := splitTo_zero self.reader
  have hlen : self.readLen self.reader.len 0 = 0 := Nat.min_zero _
  rw [pollRead, if_neg hmore, pollEnsure_of_ne hne]
  simp only [andThen_ok, hlen, hsplit]

theorem repeats : puller.Repeats 0 := by
  intro self s d hpiece
  obtain ⟨hmore, hne⟩ := buffered_of_piece hpiece
  exact pollRead_zero hmore hne

/-- A piece is handed out of a body with data only. -/
theorem owed_of_piece {m : Nat} {self s : ContentLengthBodyReader} {d : Bytes} {t : BodyEnd}
    (hpiece : pollRead m self = (.ok (some d), s)) : self.owed ≠ .ending t := by
  intro howed
  have hnone : self.remaining = 0 := by
    have hbody : self.reader.unread.take self.remaining = [] := congrArg Owed.body howed
    have htail : (if self.remaining ≤ self.reader.unread.length then
        some (BodyEnd.mk .empty (self.reader.unread.drop self.remaining)) else none) = some t :=
      congrArg Owed.tail howed
    split at htail
    · next hle =>
      have htake := congrArg List.length hbody
      rw [List.length_take, List.length_nil] at htake
      omega
    · cases htail
  rw [pollRead, if_pos hnone] at hpiece
  cases hpiece

theorem concludes (m : Nat) : puller.ConcludesOwed m :=
  puller_lawful.concludes (Nat.zero_le m) fun _ _ _ _ => owed_of_piece

end ContentLengthBodyReader

/-! ## Chunks -/

namespace ChunkDataReader

theorem pollFooterLF_ne {self s : ChunkDataReader} {d : Bytes} :
    self.pollFooterLF ≠ (.ok (some d), s) := by
  intro heq
  obtain ⟨_, reader, -, hrest⟩ := andThen_eq_ok heq
  split at hrest
  · cases hrest
  · split at hrest
    · cases hrest
    · cases hrest

theorem pollFooterCR_ne {self s : ChunkDataReader} {d : Bytes} :
    self.pollFooterCR ≠ (.ok (some d), s) := by
  intro heq
  obtain ⟨_, reader, -, hrest⟩ := andThen_eq_ok heq
  split at hrest
  · cases hrest
  · split at hrest
    · exact pollFooterLF_ne hrest
    · cases hrest

/-- A reader in front of data of its chunk, of which some is buffered. -/
structure InBody (r : ChunkDataReader) : Prop where
  state : r.state = .inBody
  more : r.remaining ≠ 0
  buffered : r.reader.asBytes ≠ []

/-- There a read for no bytes has a piece, and leaves it so. -/
theorem InBody.pollRead_zero {self : ChunkDataReader} (h : self.InBody) :
    ∃ s, self.pollRead 0 = (.ok (some []), s) := by
  obtain ⟨r', hsplit, -⟩ := splitTo_zero self.reader
  refine ⟨{ self with reader := r' }, ?_⟩
  unfold pollRead
  rw [h.state]
  simp only [if_neg h.more, pollEnsure_of_ne h.buffered, andThen_ok, Nat.min_zero, hsplit,
    Nat.sub_zero]

/-- A read for no bytes that hands out a piece stands in front of data of its chunk. -/
theorem inBody_of_piece {self s : ChunkDataReader} {d : Bytes}
    (hpiece : self.pollRead 0 = (.ok (some d), s)) : s.InBody := by
  unfold pollRead at hpiece
  split at hpiece
  · next hstate =>
    split at hpiece
    · exact absurd hpiece pollFooterCR_ne
    · next hmore =>
      obtain ⟨_, reader, hensure, hrest⟩ := andThen_eq_ok hpiece
      simp only [Nat.min_zero, Nat.sub_zero] at hrest
      split at hrest
      · cases hrest
      · next hsplit =>
        cases hrest
        exact ⟨hstate, hmore, buffered_of_split hensure hsplit⟩
  · exact absurd hpiece pollFooterCR_ne
  · exact absurd hpiece pollFooterLF_ne
  · cases hpiece

end ChunkDataReader

namespace ChunkedBodyReader

variable {h : Httparse}

/-- A round that hands out data does so inside a chunk. -/
theorem inChunk_of_round {current : ChunkedBodyChunkStream} {d : Bytes}
    {inner : Option ChunkedBodyChunkStream}
    (heq : current.round h 0 = .inl (.ok (some d), inner)) :
    ∃ r, inner = some (.inChunk r) ∧ r.InBody := by
  cases current with
  | done r => cases heq
  | inChunk r =>
    simp only [ChunkedBodyChunkStream.round] at heq
    split at heq
    · cases heq
    · cases heq
    · next bytes reader hread =>
      cases heq
      exact ⟨reader, rfl, ChunkDataReader.inBody_of_piece hread⟩
    · split at heq
      · cases heq
      · cases heq
    · cases heq
  | betweenChunk r =>
    -- between two chunks a round reads a head, and hands nothing out
    simp only [ChunkedBodyChunkStream.round] at heq
    split at heq
    · cases heq
    · cases heq
    · split at heq
      · cases heq
      · cases heq
      · cases heq
    · cases heq

/-- So does the whole reader. -/
theorem inChunk_of_piece {self s : ChunkedBodyReader} {d : Bytes}
    (hpiece : pollRead h 0 self = (.ok (some d), s)) :
    ∃ r, s.inner = some (.inChunk r) ∧ r.InBody := by
  obtain ⟨_ | current⟩ := self
  · cases hpiece
  · obtain ⟨inner⟩ := s
    have hanswer : (current.rounds h 0 4).1 = .ok (some d) := congrArg Prod.fst hpiece
    have hput : (current.rounds h 0 4).2 = inner :=
      congrArg ChunkedBodyReader.inner (congrArg Prod.snd hpiece)
    have hrounds := rounds_answer (h := h) (m := 0)
      (P := fun x => x.1 = .ok (some d) → ∃ r, x.2 = some (.inChunk r) ∧ r.InBody)
      (fun _ heq => by cases heq) (fun _ answer hround heq => by
        obtain ⟨_, inner⟩ := answer
        cases heq
        exact inChunk_of_round hround) 4 current
    rw [hput] at hrounds
    exact hrounds hanswer

theorem repeats : (puller h).Repeats 0 := by
  intro self s d hpiece
  obtain ⟨r, hinner, hr⟩ := inChunk_of_piece hpiece
  obtain ⟨inner⟩ := s
  cases hinner
  obtain ⟨r', hread⟩ := hr.pollRead_zero
  show ((ChunkedBodyChunkStream.inChunk r).rounds h 0 4).1 = _
  simp only [ChunkedBodyChunkStream.rounds, ChunkedBodyChunkStream.round, hread]

theorem concludes (hsize : h.ChunkSizeLaws) (hfields : h.FieldSectionLaws) :
    (puller h).ConcludesOwed 0 := by
  refine (puller_lawful hsize hfields).concludes (Nat.le_refl 0) ?_
  rintro self d s t hpiece howed
  have hpost := puller_lawful hsize hfields 0 self (Nat.le_refl 0)
  rw [hpiece] at hpost
  obtain ⟨hkeeps, -, hlen, -⟩ := hpost
  obtain rfl := List.length_eq_zero_iff.mp (Nat.le_zero.mp hlen)
  -- behind the empty piece the same is owed, and data first of all
  obtain ⟨r, hinner, hstate, hmore, -⟩ := inChunk_of_piece hpiece
  have hafter : toOwed (decodeData (recognisers h r.parseSlots) r.remaining r.reader.unread) =
      .ending t := by
    have hs : (puller h).owed s = toOwed (r.decoded h) := by
      obtain ⟨inner⟩ := s
      cases hinner
      rfl
    rw [← howed, hkeeps, hs, ChunkDataReader.decoded, hstate]
    rfl
  obtain ⟨t', htail, -⟩ := Option.map_eq_some_iff.mp (congrArg Owed.tail hafter)
  exact decodeData_body_ne_nil _ hmore htail (congrArg Owed.body hafter)

end ChunkedBodyReader

/-! ## Delimited by the end of the connection -/

namespace EofBodyReader

/-- Polled with no room, a source fills nothing in, and a wait uses up some of it. -/
theorem pollFill_zero (reader : BytesReader) :
    Meets (reader.pollRead 0) {
      pending := fun s => s.weight < reader.weight
      ok := fun n _ => n = 0
      err := fun _ _ => True } := by
  obtain ⟨⟨_ | ⟨_ | ⟨b, bs⟩ | e, es⟩⟩, buffer⟩ := reader
  · rfl
  · show buffer.position + Source.weightOf es < buffer.position + (1 + Source.weightOf es)
    omega
  · rfl
  · trivial

/-- Splitting off no bytes hands out an empty piece. -/
theorem take_zero (self : EofBodyReader) :
    ∃ r', take 0 self = (.ok (some []), { self with reader := r' }) ∧
      r'.asBytes = self.reader.asBytes := by
  obtain ⟨r', hsplit, hbytes⟩ := splitTo_zero self.reader
  refine ⟨r', ?_, hbytes⟩
  rw [take, Nat.min_zero, hsplit]

/-- What a read for no bytes comes to: an empty piece of buffered data, or what the source
    says. -/
theorem pollRead_zero (self : EofBodyReader) :
    Meets (pollRead 0 self) {
      pending := fun s => s.reader.weight < self.reader.weight
      ok := fun
        | some d, s => d = [] ∧ s.eof = false ∧ s.reader.asBytes ≠ []
        | none, _ => True
      err := fun _ _ => True } := by
  unfold pollRead
  cases heof : self.eof with
  | true => trivial
  | false =>
    rw [if_neg Bool.false_ne_true]
    by_cases hempty : self.reader.isEmpty = true
    · rw [if_neg (by simp [hempty])]
      have hfill := pollFill_zero self.reader
      generalize self.reader.pollRead 0 = x at hfill
      obtain ⟨_ | n | e | _, reader⟩ := x
      · exact hfill
      · have hn : n = 0 := hfill
        subst hn
        trivial
      · trivial
      · exact hfill
    · rw [if_pos (by simpa using hempty)]
      obtain ⟨r', htake, hbytes⟩ := take_zero self
      rw [htake]
      refine ⟨rfl, heof, ?_⟩
      rw [hbytes]
      exact fun hnil => hempty (BytesReader.isEmpty_iff.mpr hnil)

theorem settles : puller.Settles 0 := by
  intro self s hpoll
  have hmeets := pollRead_zero self
  rw [show pollRead 0 self = _ from hpoll] at hmeets
  exact hmeets

theorem repeats : puller.Repeats 0 := by
  intro self s d hpiece
  have hmeets := pollRead_zero self
  rw [show pollRead 0 self = _ from hpiece] at hmeets
  obtain ⟨-, heof, hne⟩ := hmeets
  have hempty : s.reader.isEmpty = false :=
    Bool.eq_false_iff.mpr fun h => hne (BytesReader.isEmpty_iff.mp h)
  obtain ⟨r', htake, -⟩ := take_zero s
  show (pollRead 0 s).1 = _
  rw [pollRead, heof, if_neg Bool.false_ne_true, hempty]
  exact congrArg Prod.fst htake

/-- A source that is at its end answers a read for no bytes as any other one. -/
theorem concludes : puller.ConcludesOwed 0 := by
  rintro t self ⟨-, howed⟩
  show Meets (pollRead 0 self) _
  have howed : self.owed = .ending t := howed
  cases heof : self.eof with
  | true =>
    rw [pollRead, if_pos heof]
    exact ⟨rfl, howed, heof⟩
  | false =>
    rw [owed_of_not_eof heof] at howed
    obtain ⟨hbuffer, hstream⟩ : self.reader.asBytes = [] ∧ self.reader.io.stream = [] :=
      List.append_eq_nil_iff.mp (congrArg Owed.body howed)
    have htail : (if self.reader.io.Clean then some (BodyEnd.mk .empty []) else none) = some t :=
      congrArg Owed.tail howed
    split at htail
    · next hclean =>
      cases htail
      -- the buffer is empty, so the poll asks the connection, which is at its clean end
      rw [pollRead, if_neg (by simp [heof]),
        if_neg (by simp [BytesReader.isEmpty_iff.mpr hbuffer])]
      have hfill := Source.pollRead_of_stream_nil 0 hstream hclean
      unfold BytesReader.pollRead BytesReader.doFill
      generalize self.reader.io.pollRead 0 = x at hfill
      obtain ⟨_ | d | e | _, io⟩ := x
      · obtain ⟨hnil, hclean', hweight⟩ := hfill
        have hbuffer' : (self.reader.buffer.reserve 0).asBytes = [] :=
          (ReaderBuffer.asBytes_reserve _ _).trans hbuffer
        refine ⟨⟨trivial, ?_⟩, Nat.add_lt_add_left hweight _⟩
        have hwaits : ∀ s : EofBodyReader, s.eof = false → s.reader.asBytes = [] →
            s.reader.io.stream = [] → s.reader.io.Clean → s.owed = .ending ⟨.empty, []⟩ := by
          intro s hs hbytes hrest hend
          rw [owed_of_not_eof hs, BytesReader.unread, hbytes, hrest, if_pos hend]
          rfl
        exact hwaits _ heof hbuffer' hnil hclean'
      · obtain ⟨rfl, rfl⟩ := hfill
        have hends : ∀ s : EofBodyReader, s.eof = true → puller.owed s = .ending ⟨.empty, []⟩ :=
          fun s hs => owed_of_eof hs
        exact ⟨rfl, hends _ rfl, rfl⟩
      · exact hfill.elim
      · exact hfill.elim
    · cases htail

end EofBodyReader

/-! ## Any of them -/

/-- A poll of a part concludes the whole. -/
theorem concludePost_wrap {ρ ρ' ε ε' : Type} {P : Puller ρ ε BodyEnd} (Q : Puller ρ' ε' BodyEnd)
    (f : ε → ε') (put : ρ → ρ') (howed : ∀ r, Q.owed (put r) = P.owed r)
    (hfits : ∀ r, P.Fits r → Q.Fits (put r)) (hweight : ∀ r, Q.weight (put r) = P.weight r)
    (hdone : ∀ r, P.Done r → Q.Done (put r)) {t : BodyEnd} {r : ρ}
    {x : Polled ε (Option Bytes) × ρ}
    (h : Meets x (P.concludePost (P.EndsIn t) (P.EndedIn t) r)) :
    Meets (wrap f put x) (Q.concludePost (Q.EndsIn t) (Q.EndedIn t) (put r)) := by
  refine h.wrap ?_ ?_ (fun _ _ hf => hf)
  · rintro s ⟨⟨hf, hs⟩, hlt⟩
    refine ⟨⟨hfits s hf, (howed s).trans hs⟩, ?_⟩
    rw [hweight, hweight]
    exact hlt
  · rintro a s ⟨ha, hs, hd⟩
    exact ⟨ha, (howed s).trans hs, hdone s hd⟩

/-- Reads for no bytes come to the end of every reader that owes nothing else, if they do in
    the fourth framing. -/
theorem BodyReader.concludes {E ε : Type} {h : Httparse} {last : Puller E BodyError BodyEnd}
    {f : BodyError → ε} (hsize : h.ChunkSizeLaws) (hfields : h.FieldSectionLaws)
    (hlast : last.ConcludesOwed 0) : (BodyReader.puller h last f).ConcludesOwed 0 := by
  rintro t self ⟨hfits, howed⟩
  cases self with
  | bodyless inner r => exact ⟨rfl, howed, trivial⟩
  | cl inner r =>
    exact concludePost_wrap (BodyReader.puller h last f) f (BodyReader.cl · r) (fun _ => rfl)
      (fun _ hf => hf) (fun _ => rfl) (fun _ hd => hd)
      (ContentLengthBodyReader.concludes 0 t inner ⟨hfits, howed⟩)
  | te inner r =>
    exact concludePost_wrap (BodyReader.puller h last f) f (BodyReader.te · r) (fun _ => rfl)
      (fun _ hf => hf) (fun _ => rfl) (fun _ hd => hd)
      (ChunkedBodyReader.concludes hsize hfields t inner ⟨hfits, howed⟩)
  | eof inner =>
    exact concludePost_wrap (BodyReader.puller h last f) f BodyReader.eof (fun _ => rfl)
      (fun _ hf => hf) (fun _ => rfl) (fun _ hd => hd) (hlast t inner ⟨hfits, howed⟩)

section Unified

variable {E ε : Type} {h : Httparse} {last : Puller E BodyError BodyEnd} {f : BodyError → ε}

/-- A read for no bytes that waits uses up some of any reader. -/
theorem BodyReader.settles (hsize : h.ChunkSizeLaws) (hfields : h.FieldSectionLaws)
    (hlast : last.Settles 0) : (BodyReader.puller h last f).Settles 0 := by
  intro self s hpoll
  cases self with
  | bodyless inner r => cases hpoll
  | cl inner r =>
    exact Puller.settles_wrap (BodyReader.puller h last f) f (BodyReader.cl · r) (fun _ => rfl)
      (ContentLengthBodyReader.puller_lawful.settles (Nat.le_refl 0)) hpoll
  | te inner r =>
    exact Puller.settles_wrap (BodyReader.puller h last f) f (BodyReader.te · r) (fun _ => rfl)
      ((ChunkedBodyReader.puller_lawful hsize hfields).settles (Nat.le_refl 0)) hpoll
  | eof inner =>
    exact Puller.settles_wrap (BodyReader.puller h last f) f BodyReader.eof (fun _ => rfl) hlast
      hpoll

/-- Behind a piece that is read for no bytes there is another one. -/
theorem BodyReader.repeats (hlast : last.Repeats 0) : (BodyReader.puller h last f).Repeats 0 := by
  intro self s d hpoll
  cases self with
  | bodyless inner r => cases hpoll
  | cl inner r =>
    obtain ⟨s', rfl, hagain⟩ := Puller.repeats_wrap f (BodyReader.cl · r)
      ContentLengthBodyReader.repeats hpoll
    exact hagain
  | te inner r =>
    obtain ⟨s', rfl, hagain⟩ := Puller.repeats_wrap f (BodyReader.te · r)
      ChunkedBodyReader.repeats hpoll
    exact hagain
  | eof inner =>
    obtain ⟨s', rfl, hagain⟩ := Puller.repeats_wrap f BodyReader.eof hlast hpoll
    exact hagain

end Unified

end Jrpxy.Body.Reader
