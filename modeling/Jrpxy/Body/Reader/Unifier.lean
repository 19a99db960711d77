/-
  Jrpxy.Body.Reader.Unifier

  The body reader of one side of the proxy, whatever the framing.

  Requests and responses share the three self-delimited framings, and with each
  the flag that says whether the connection can be used again.  Responses have
  a fourth framing, which ends with the connection; `E` is its reader, and is
  empty for requests.  The two sides wrap errors differently.
-/
import Jrpxy.Body.Reader.Chunked

namespace Jrpxy.Body.Reader

open Poll PullStream ChunkedCoding Util HttpMessage

/-- A connection between two messages. -/
structure ConnectionReader where
  reader : BytesReader
  parseSlots : ParseSlots
  deriving DecidableEq, Repr

/-- The reader of a message body. -/
inductive BodyReader (E : Type) where
  | bodyless (inner : BodylessBodyReader) (recyclable : Bool)
  | cl (inner : ContentLengthBodyReader) (recyclable : Bool)
  | te (inner : ChunkedBodyReader) (recyclable : Bool)
  | eof (inner : E)
  deriving DecidableEq, Repr

namespace BodyReader

variable {E ε : Type}

/-- The reader of a self-delimited body. -/
def ofFraming (reader : BytesReader) (parseSlots : ParseSlots)
    (maxChunkHeaderLength maxHeadLength : Nat) (recyclable : Bool) : ParsedFraming → BodyReader E
  | .length len => .cl (.new len reader parseSlots) recyclable
  | .chunked => .te (.new reader parseSlots maxChunkHeaderLength maxHeadLength) recyclable
  | .noFraming => .bodyless ⟨reader, parseSlots⟩ recyclable

/-- As a reader is created: nothing is read of a chunked body, and no byte counted off a
    declared length, which is a `u64`. -/
def Fresh : BodyReader E → Prop
  | bodyless _ _ => True
  | cl inner _ => inner.offset = 0 ∧ inner.length < 2 ^ 64
  | te inner _ => ∃ reader parseSlots maxChunkHeaderLength maxHeadLength,
      inner = .new reader parseSlots maxChunkHeaderLength maxHeadLength
  | eof _ => True

theorem fresh_ofFraming (reader : BytesReader) (parseSlots : ParseSlots)
    (maxChunkHeaderLength maxHeadLength : Nat) (recyclable : Bool) {framing : ParsedFraming}
    (hlen : ∀ n, framing = .length n → n < 2 ^ 64) :
    Fresh (ofFraming reader parseSlots maxChunkHeaderLength maxHeadLength recyclable framing :
      BodyReader E) := by
  cases framing with
  | length n => exact ⟨rfl, hlen n rfl⟩
  | chunked => exact ⟨_, _, _, _, rfl⟩
  | noFraming => trivial

/-- The connection outlives the body. -/
def recyclable : BodyReader E → Bool
  | bodyless _ r => r
  | cl _ r => r
  | te _ r => r
  | eof _ => false

section Reading

variable (h : Httparse) (last : Puller E BodyError BodyEnd) (f : BodyError → ε)

/-- One poll for up to `maxLen` bytes. -/
def pollRead (maxLen : Nat) : BodyReader E → Polled ε (Option Bytes) × BodyReader E
  | bodyless inner r => (.ok none, bodyless inner r)
  | cl inner r => wrap f (cl · r) (inner.pollRead maxLen)
  | te inner r => wrap f (te · r) (inner.pollRead h maxLen)
  | eof inner => wrap f eof (last.poll maxLen inner)

/-- Read up to `maxLen` bytes; `none` when the body is complete. -/
def read (maxLen : Nat) : BodyReader E → Polled ε (Option Bytes) × BodyReader E
  | bodyless inner r => (.ok none, bodyless inner r)
  | cl inner r => wrap f (cl · r) (inner.read maxLen)
  | te inner r => wrap f (te · r) (inner.read h maxLen)
  | eof inner => wrap f eof (last.read maxLen inner)

/-- What the reader owes. -/
def owed : BodyReader E → Owed BodyEnd
  | bodyless inner _ => .ending ⟨.empty, inner.reader.unread⟩
  | cl inner _ => inner.owed
  | te inner _ => inner.owed h
  | eof inner => last.owed inner

/-- What is ahead is within the limits. -/
def Fits : BodyReader E → Prop
  | bodyless _ _ => True
  | cl _ _ => True
  | te inner _ => inner.Fits h
  | eof inner => last.Fits inner

/-- How much polling and reading is left. -/
def weight : BodyReader E → Nat
  | bodyless inner _ => inner.reader.weight
  | cl inner _ => inner.reader.weight
  | te inner _ => inner.weight
  | eof inner => last.weight inner

/-- The body has been read to its end. -/
def Done : BodyReader E → Prop
  | bodyless _ _ => True
  | cl inner _ => ContentLengthBodyReader.puller.Done inner
  | te inner _ => (ChunkedBodyReader.puller h).Done inner
  | eof inner => last.Done inner

def puller : Puller (BodyReader E) ε BodyEnd where
  poll := pollRead h last f
  owed := owed h last
  weight := weight last
  Fits := Fits h last
  Done := Done h last

end Reading

/-! ## Draining -/

section Draining

variable (h : Httparse) (f : BodyError → ε)

/-- The connection of a drained body, if it can be used again. -/
def recycle (recyclable : Bool) (next : ConnectionReader) : Option ConnectionReader :=
  if recyclable then some next else none

/-- Drain a chunked body: the connection, and the trailers in any case. -/
def drainChunked (inner : ChunkedBodyReader) (recyclable : Bool) :
    Polled ε (Option ConnectionReader × Headers) :=
  ((inner.drain h).1.mapErr f).bind fun (reader, parseSlots, trailers) =>
    .ok (recycle recyclable ⟨reader, parseSlots⟩, trailers)

/-- Drain the rest of the body. -/
def drain : BodyReader E → Polled ε (Option ConnectionReader)
  | bodyless inner r => .ok (recycle r ⟨inner.drain.1, inner.drain.2⟩)
  | cl inner r =>
    (inner.drain.1.mapErr f).bind fun (reader, parseSlots) =>
      .ok (recycle r ⟨reader, parseSlots⟩)
  | te inner r => (drainChunked h f inner r).bind fun (next, _) => .ok next
  | eof _ => .ok none

end Draining

/-! ## What polls and drains may do -/

section Specs

variable {h : Httparse} {last : Puller E BodyError BodyEnd} {f : BodyError → ε}

/-- Every poll pays off what it hands out, if those of the fourth framing do. -/
theorem puller_lawful (hsize : h.ChunkSizeLaws) (hfields : h.FieldSectionLaws) {lo : Nat}
    (hlast : last.Lawful lo) : (puller h last f).Lawful lo := by
  intro m self hm
  cases self with
  | bodyless inner r => exact ⟨_, rfl, rfl, trivial⟩
  | cl inner r =>
    have hinner := ContentLengthBodyReader.puller_lawful m inner (Nat.zero_le m)
    exact Puller.wrap_meets (puller h last f) f (cl · r) (fun _ => rfl) (fun _ => Iff.rfl)
      (fun _ => rfl) (fun _ hd => hd) hinner
  | te inner r =>
    have hinner := ChunkedBodyReader.puller_lawful hsize hfields m inner (Nat.zero_le m)
    exact Puller.wrap_meets (puller h last f) f (te · r) (fun _ => rfl) (fun _ => Iff.rfl)
      (fun _ => rfl) (fun _ hd => hd) hinner
  | eof inner =>
    exact Puller.wrap_meets (puller h last f) f eof (fun _ => rfl) (fun _ => Iff.rfl)
      (fun _ => rfl) (fun _ hd => hd) (hlast m inner hm)

/-- The connection behind a drained body. -/
theorem recycle_unread {t : BodyEnd} {recyclable : Bool} {next : ConnectionReader}
    (hrest : next.reader.unread = t.rest) :
    ∀ c ∈ recycle recyclable next, c.reader.unread = t.rest := by
  intro c hc
  unfold recycle at hc
  split at hc
  · cases hc
    exact hrest
  · cases hc

theorem recycle_isSome (recyclable : Bool) (next : ConnectionReader) :
    (recycle recyclable next).isSome = recyclable := by
  cases recyclable <;> rfl

/-- A drained connection is handed back exactly if it outlives the body. -/
theorem drain_isSome {self : BodyReader E} {next : Option ConnectionReader}
    (h : self.drain h f = .ok next) : next.isSome = self.recyclable := by
  cases self with
  | bodyless inner r =>
    cases h
    exact recycle_isSome _ _
  | cl inner r =>
    obtain ⟨parts, -, hnext⟩ := Polled.bind_eq_ok.mp h
    cases hnext
    exact recycle_isSome _ _
  | te inner r =>
    obtain ⟨out, hdrain, hnext⟩ := Polled.bind_eq_ok.mp h
    obtain ⟨parts, -, hout⟩ := Polled.bind_eq_ok.mp hdrain
    cases hout
    cases hnext
    exact recycle_isSome _ _
  | eof inner =>
    cases h
    rfl

theorem drainChunked_isSome {inner : ChunkedBodyReader} {recyclable : Bool}
    {out : Option ConnectionReader × Headers} (h : drainChunked h f inner recyclable = .ok out) :
    out.1.isSome = recyclable := by
  obtain ⟨parts, -, hout⟩ := Polled.bind_eq_ok.mp h
  cases hout
  exact recycle_isSome _ _

/-- Whether the connection outlives the body does not change while it is read. -/
theorem pollRead_recyclable (maxLen : Nat) (self : BodyReader E) :
    (pollRead h last f maxLen self).2.recyclable = self.recyclable := by
  cases self with
  | bodyless inner r => rfl
  | cl inner r => rfl
  | te inner r => rfl
  | eof inner => rfl

/-- Draining a chunked body within its limits. -/
theorem drainChunked_eq (hsize : h.ChunkSizeLaws) (hfields : h.FieldSectionLaws)
    {inner : ChunkedBodyReader} (recyclable : Bool) (hfits : inner.Fits h) {t : BodyEnd}
    (htail : (inner.owed h).tail = some t) :
    ∃ next : ConnectionReader, next.reader.unread = t.rest ∧
      drainChunked h f inner recyclable =
        .ok (recycle recyclable next, t.trailers) := by
  have hdrain := ChunkedBodyReader.drain_meets hsize hfields inner
  unfold drainChunked
  generalize inner.drain h = x at hdrain
  obtain ⟨_ | ⟨reader, slots, trailers⟩ | e | _, s⟩ := x
  · exact hdrain.elim
  · obtain ⟨t', htail', htrailers, hrest⟩ := hdrain
    cases htail.symm.trans htail'
    have htrailers : trailers = t.trailers := htrailers
    subst htrailers
    exact ⟨⟨reader, slots⟩, hrest, rfl⟩
  · have hnone := hdrain hfits
    rw [htail] at hnone
    cases hnone
  · exact hdrain.elim

/-- A complete body within its limits can be drained, and a connection that is handed
    back stands behind it. -/
theorem drain_eq (hsize : h.ChunkSizeLaws) (hfields : h.FieldSectionLaws)
    {self : BodyReader E} (hfits : self.Fits h last) {t : BodyEnd}
    (htail : (self.owed h last).tail = some t) :
    ∃ next, self.drain h f = .ok next ∧ next.isSome = self.recyclable ∧
      ∀ c ∈ next, c.reader.unread = t.rest := by
  cases self with
  | bodyless inner r =>
    cases htail
    exact ⟨_, rfl, recycle_isSome _ _, recycle_unread rfl⟩
  | cl inner r =>
    have hdrain := ContentLengthBodyReader.drain_meets inner
    simp only [drain]
    generalize inner.drain = x at hdrain ⊢
    obtain ⟨_ | ⟨reader, slots⟩ | e | _, s⟩ := x
    · exact hdrain.elim
    · obtain ⟨t', htail', -, hrest⟩ := hdrain
      cases htail.symm.trans htail'
      have hrest : (ConnectionReader.mk reader slots).reader.unread = t.rest := hrest
      exact ⟨_, rfl, recycle_isSome _ _, recycle_unread hrest⟩
    · cases htail.symm.trans hdrain
    · exact hdrain.elim
  | te inner r =>
    obtain ⟨next, hrest, hdrain⟩ := drainChunked_eq (f := f) hsize hfields r hfits htail
    refine ⟨recycle r next, ?_, recycle_isSome _ _, recycle_unread hrest⟩
    rw [drain, hdrain, Polled.bind_ok]
  | eof inner =>
    exact ⟨none, rfl, rfl, by simp⟩

/-! ## One message behind the other -/

/-- `body` is exactly one body of this framing, with size lines and a trailer section
    within the limits. -/
def CompleteBody (h : Httparse) (parseSlots : ParseSlots) (maxLine maxTrailer : Nat)
    (body : Bytes) : ParsedFraming → Prop
  | .noFraming => body = []
  | .length n => body.length = n
  | .chunked => (decode (recognisers h parseSlots) body).Fits maxLine maxTrailer ∧
      ∃ t, (decode (recognisers h parseSlots) body).tail = some t ∧ t.rest = []

/-- The connection outlives the body, which is within its limits, and holds `rest`
    behind it. -/
def Stands (h : Httparse) (last : Puller E BodyError BodyEnd) (rest : Bytes)
    (self : BodyReader E) : Prop :=
  self.recyclable = true ∧ self.Fits h last ∧
    ∃ t, (self.owed h last).tail = some t ∧ t.rest = rest

/-- A reader created in front of a complete body, however much of it is buffered. -/
theorem stands_ofFraming (hsize : h.ChunkSizeLaws) (hfields : h.FieldSectionLaws)
    {parseSlots : ParseSlots} {maxLine maxTrailer : Nat} {framing : ParsedFraming}
    {body rest : Bytes} (hbody : CompleteBody h parseSlots maxLine maxTrailer body framing)
    {reader : BytesReader} (hunread : reader.unread = body ++ rest) :
    Stands h last rest (ofFraming reader parseSlots maxLine maxTrailer true framing) := by
  cases framing with
  | noFraming =>
    have hbody : body = [] := hbody
    subst hbody
    exact ⟨rfl, trivial, ⟨.empty, reader.unread⟩, rfl, hunread⟩
  | length n =>
    have hbody : body.length = n := hbody
    subst hbody
    have hle : body.length ≤ reader.unread.length := by
      rw [hunread, List.length_append]
      omega
    refine ⟨rfl, trivial, ⟨.empty, reader.unread.drop body.length⟩, if_pos hle, ?_⟩
    show reader.unread.drop body.length = rest
    rw [hunread, List.drop_left]
  -- what stands behind a complete body does not change how it is decoded
  | chunked =>
    obtain ⟨hfits, t, htail, hrest⟩ := hbody
    have hdecode := decode_append (recognisers_lawful hsize hfields parseSlots) htail rest
    rw [← hunread] at hdecode
    refine ⟨rfl, ?_, ⟨t.trailers, t.rest ++ rest⟩, ?_, ?_⟩
    · refine (ChunkedBodyReader.fits_new reader parseSlots maxLine maxTrailer).mpr ?_
      rw [hdecode]
      exact Decoded.fits_append.mpr hfits
    · show (toOwed (decode (recognisers h parseSlots) reader.unread)).tail = _
      rw [hdecode]
      simp only [toOwed, Decoded.append_tail, htail, Option.map_some]
    · show t.rest ++ rest = rest
      rw [hrest, List.nil_append]

/-- Any read, for any number of bytes, leaves the same bytes behind the body. -/
theorem read_stands (hsize : h.ChunkSizeLaws) (hfields : h.FieldSectionLaws) {rest : Bytes}
    (m : Nat) {self : BodyReader E} (hself : Stands h last rest self) :
    Meets (self.read h last f m) {
      pending := fun _ => False
      ok := fun _ s => Stands h last rest s
      err := fun _ _ => False } := by
  obtain ⟨hrec, hfits, t, htail, hrest⟩ := hself
  cases self with
  | bodyless inner r => exact ⟨hrec, trivial, t, htail, hrest⟩
  | cl inner r =>
    show Meets (wrap f (cl · r) (ContentLengthBodyReader.puller.read m inner)) _
    refine (Puller.read_keeps ContentLengthBodyReader.puller_lawful (Nat.zero_le m)
      (fun _ _ => trivial) trivial htail).wrap (fun _ hf => hf) ?_ (fun _ _ he => he)
    rintro - s ⟨-, htail'⟩
    exact ⟨hrec, trivial, t, htail', hrest⟩
  | te inner r =>
    show Meets (wrap f (te · r) ((ChunkedBodyReader.puller h).read m inner)) _
    refine (Puller.read_keeps (ChunkedBodyReader.puller_lawful hsize hfields) (Nat.zero_le m)
      (fun _ => ChunkedBodyReader.fits_of_done) hfits htail).wrap (fun _ hf => hf) ?_
      (fun _ _ he => he)
    rintro - s ⟨hfits', htail'⟩
    exact ⟨hrec, hfits', t, htail', hrest⟩
  | eof inner => cases hrec

/-- A drain behind any reads hands the connection back in front of `rest`. -/
theorem drain_stands (hsize : h.ChunkSizeLaws) (hfields : h.FieldSectionLaws) {rest : Bytes}
    {self : BodyReader E} (hself : Stands h last rest self) :
    ∃ next, self.drain h f = .ok (some next) ∧ next.reader.unread = rest := by
  obtain ⟨hrec, hfits, t, htail, hrest⟩ := hself
  obtain ⟨next, hdrain, hsome, hunread⟩ := drain_eq (f := f) hsize hfields hfits htail
  rw [hrec] at hsome
  obtain ⟨c, rfl⟩ := Option.isSome_iff_exists.mp hsome
  exact ⟨c, hdrain, (hunread c rfl).trans hrest⟩

/-- Reads of any sizes, and then a drain, leave exactly the bytes behind the body. -/
theorem reads_drain (hsize : h.ChunkSizeLaws) (hfields : h.FieldSectionLaws) {rest : Bytes}
    (maxLens : List Nat) {self : BodyReader E} (hself : Stands h last rest self) :
    ∃ answers s next, Puller.readEach (read h last f) maxLens self = (.ok answers, s) ∧
      s.drain h f = .ok (some next) ∧ next.reader.unread = rest := by
  have hreads := Puller.readEach_meets (I := Stands h last rest) (Q := fun _ => True)
    (E := False) (fun m r hr => (read_stands (f := f) hsize hfields m hr).mono (fun _ hf => hf)
      (fun _ _ ho => ⟨trivial, ho⟩) (fun _ _ he => he)) maxLens hself
  generalize Puller.readEach (read h last f) maxLens self = x at hreads
  obtain ⟨_ | answers | e | _, s⟩ := x
  · exact hreads.elim
  · obtain ⟨next, hdrain, hrest⟩ := drain_stands (f := f) hsize hfields hreads.2
    exact ⟨answers, s, next, rfl, hdrain, hrest⟩
  · exact hreads.elim
  · exact hreads.elim

end Specs

end BodyReader

end Jrpxy.Body.Reader
