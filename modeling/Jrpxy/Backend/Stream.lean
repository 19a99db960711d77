/-
  Jrpxy.Backend.Stream

  A stream of responses on one connection.

  What reading a response comes to is a matter of the bytes, not of how they
  arrive: a head that is parsed when it lies in the buffer alone is read
  wherever its connection stands in front of it, and the connection then
  stands behind it (`head_eq`).  An informational response is handed out with
  the connection (`read_interim`), and a final one with the reader of its body,
  which depends on the bytes behind the head and on nothing before it
  (`read_finalHead`).
-/
import Jrpxy.Backend.Reader
import Jrpxy.HttpMessage.ResponseHead
import Jrpxy.HttpMessage.FramingRule

namespace Jrpxy.Backend

open Poll PullStream Incremental Ascii Util HttpMessage Body Body.Reader
open ParseSlots (buffered buffered_asBytes buffered_unread)

variable {h : Httparse} {slots : ParseSlots} {head rest : Bytes} {res : Response}

/-- `head` is one whole response head, and it is parsed to `res`. -/
def IsHead (h : Httparse) (slots : ParseSlots) (head : Bytes) (res : Response) : Prop :=
  ∃ r, slots.parseResponse h (buffered head) = (.ok (some res), r) ∧ r.unread = []

/-- What the third-party parser says of a whole head. -/
theorem IsHead.parts (laws : h.ResponseLaws) (hhead : IsHead h slots head res) :
    ∃ p version, h.parseResponse slots.slotCount head = .ok (.complete (head.length, p)) ∧
      HttpVersion.tryFrom p.version = .ok version ∧ p.reason.Within head ∧
      res = ⟨version, p.code, p.reason.bytes, ⟨p.headers.map Httparse.Header.field⟩⟩ := by
  obtain ⟨r, hparse, hnil⟩ := hhead
  obtain ⟨n, p, version, hp, hv, hwithin, rfl, hsplit⟩ := ParseSlots.parseResponse_found laws hparse
  have hrest := BytesReader.unread_eq_drop_of_splitTo hsplit
  rw [hnil, buffered_unread] at hrest
  have hall : head.length ≤ n := List.drop_eq_nil_iff.mp hrest.symm
  rw [buffered_asBytes] at hp hwithin
  have hle := (laws.length_le hp).1
  obtain rfl : n = head.length := by omega
  rw [List.take_length] at hwithin
  exact ⟨p, version, hp, hv, hwithin, rfl⟩

/-- What lies in the buffer of a connection in front of a whole head. -/
theorem answer_of_isHead (headLaws : h.ResponseHeadLaws) {p : Httparse.ResponseParts}
    (hp : h.parseResponse slots.slotCount head = .ok (.complete (head.length, p)))
    {r : BytesReader} (hr : r.unread = head ++ rest) :
    h.parseResponse slots.slotCount r.asBytes =
      if head.length ≤ r.len then .ok (.complete (head.length, p)) else .ok .incomplete := by
  have hparser := headLaws.parser slots.slotCount
  have hfull := hparser.complete_append hp rest
  rw [← hr, BytesReader.unread] at hfull
  rw [← BytesReader.length_asBytes]
  exact hparser.answer_of_append hfull

/-- The parser of responses finds whole heads. -/
theorem parseResponse_streams (laws : h.ResponseLaws) (headLaws : h.ResponseHeadLaws)
    (slots : ParseSlots) : HeadParser.Streams (slots.parseResponse h) (IsHead h slots) where
  patient := by
    intro r r' heq
    rcases ParseSlots.parseResponse_cases laws slots r with ⟨e, h⟩ | ⟨-, h⟩ | h | ⟨_, _, _, _, -, h, -⟩
    all_goals
      rw [h] at heq
      cases heq
    rfl
  found := by
    intro r r' res hok
    obtain ⟨n, p, version, hp, hv, hwithin, rfl, hsplit⟩ :=
      ParseSlots.parseResponse_found laws hok
    obtain ⟨-, hparts, -, hlen, -, -⟩ := BytesReader.unread_splitTo hsplit
    refine ⟨r.asBytes.take n, hparts, ?_⟩
    -- the head alone is as complete as it is in the buffer
    have halone := (headLaws.parser slots.slotCount).complete_take hp (Nat.le_refl n)
    have hbuffered : (buffered (r.asBytes.take n)).asBytes = r.asBytes.take n :=
      buffered_asBytes _
    rw [← hbuffered] at halone
    obtain ⟨alone, hok', hsplit'⟩ := ParseSlots.parseResponse_complete laws halone hv (by
      rw [hbuffered, List.take_take, Nat.min_self]
      exact hwithin)
    refine ⟨alone, hok', ?_⟩
    rw [BytesReader.unread_eq_drop_of_splitTo hsplit', buffered_unread]
    exact List.drop_eq_nil_iff.mpr (Nat.le_of_eq hlen)
  short := by
    intro head rest res r hhead hr hlt
    obtain ⟨p, version, hp, -⟩ := hhead.parts laws
    apply ParseSlots.parseResponse_incomplete
    rw [answer_of_isHead headLaws hp hr, if_neg (by omega)]
  long := by
    intro head rest res r hhead hr hle
    obtain ⟨p, version, hp, hv, hwithin, rfl⟩ := hhead.parts laws
    have hcomplete := answer_of_isHead headLaws hp hr
    rw [if_pos hle] at hcomplete
    have htake : r.asBytes.take head.length = head := by
      rw [← BytesReader.length_asBytes] at hle
      rw [BytesReader.unread] at hr
      have hsame := congrArg (List.take head.length) hr
      rwa [List.take_append_of_le_length hle, List.take_left] at hsame
    obtain ⟨r', hok, hsplit⟩ := ParseSlots.parseResponse_complete laws hcomplete hv
      (by rw [htake]; exact hwithin)
    refine ⟨r', hok, ?_⟩
    rw [BytesReader.unread_eq_drop_of_splitTo hsplit, hr, List.drop_left]

/-- A whole head that the connection stands in front of is read, however it is delivered. -/
theorem BackendReader.head_eq (laws : h.ResponseLaws) (headLaws : h.ResponseHeadLaws)
    {self : BackendReader} {maxHead : Nat} (hhead : IsHead h self.parseSlots head res)
    (hmax : head.length ≤ maxHead) (hunread : self.reader.unread = head ++ rest) :
    ∃ r, self.head h maxHead = (.ok res, r) ∧ r.unread = rest :=
  readHead_whole (parseResponse_streams laws headLaws self.parseSlots) hhead hmax hunread

/-- A head that is read is a whole one, and the connection stands behind it. -/
theorem BackendReader.head_found (laws : h.ResponseLaws) (headLaws : h.ResponseHeadLaws)
    {self : BackendReader} {maxHead : Nat} {r : BytesReader}
    (hok : self.head h maxHead = (.ok res, r)) :
    ∃ head, self.reader.unread = head ++ r.unread ∧ IsHead h self.parseSlots head res :=
  readHead_found (parseResponse_streams laws headLaws self.parseSlots) hok

/-- What an informational response of a stream is like: it is a whole head within the
    limit, of a code the proxy supports, and it does not frame a body. -/
structure Interim (h : Httparse) (slots : ParseSlots) (maxHead : Nat) (head : Bytes)
    (res : Response) : Prop where
  isHead : IsHead h slots head res
  fits : head.length ≤ maxHead
  code : 100 ≤ res.code ∧ res.code ≤ 199 ∧ res.code ≠ 101 ∧ res.code ≠ 102
  unframed : ∀ f ∈ res.headers.headers, isFramingHeader f.1 = false

/-- What a final response of a stream is like: it is a whole head within the limit, and it
    is accepted in front of some body. -/
structure FinalHead (h : Httparse) (slots : ParseSlots) (maxHead : Nat) (head : Bytes)
    (res : Response) : Prop where
  isHead : IsHead h slots head res
  fits : head.length ≤ maxHead
  accepted : ∃ reader parseSlots allowBody maxHeadLength maxChunkHeaderLength out,
    BackendReader.responseOf res reader parseSlots allowBody maxHeadLength
      maxChunkHeaderLength = .ok (.final out)

/-- Headers that do not frame announce no framing. -/
theorem framing_of_unframed {headers : Headers}
    (hunframed : ∀ f ∈ headers.headers, isFramingHeader f.1 = false) :
    headers.framing = .ok .noFraming := by
  have hnone : headers.headers.filter (fun f => isFramingHeader f.1) =
      ([] : List Field).filter fun f => isFramingHeader f.1 := by
    rw [List.filter_eq_nil_iff.mpr fun f hf => by rw [hunframed f hf]; exact Bool.false_ne_true]
    rfl
  exact Headers.framing_congr hnone

theorem transferEncoding_of_unframed {headers : Headers}
    (hunframed : ∀ f ∈ headers.headers, isFramingHeader f.1 = false) :
    headers.getHeader (ascii "transfer-encoding") = [] := by
  rw [Headers.getHeader, List.filter_eq_nil_iff]
  intro f hf
  rw [eqIgnoreCase_symm, (isFramingHeader_eq_false.mp (hunframed f hf)).2]
  exact Bool.false_ne_true

/-- An informational response is handed out with the connection behind it. -/
theorem Interim.responseOf {maxHead : Nat} (hinterim : Interim h slots maxHead head res)
    (reader : BytesReader) (parseSlots : ParseSlots) (allowBody : Bool)
    (maxHeadLength maxChunkHeaderLength : Nat) :
    BackendReader.responseOf res reader parseSlots allowBody maxHeadLength
        maxChunkHeaderLength =
      .ok (.informational res ⟨allowBody, maxHeadLength, maxChunkHeaderLength,
        ⟨reader, parseSlots⟩⟩) := by
  obtain ⟨-, -, ⟨hlow, hhigh, h101, h102⟩, hunframed⟩ := hinterim
  have hinfo : res.isInformational = some res.code := by
    rw [Response.isInformational, if_pos]
    simp
    omega
  have hpass : BackendReader.Passes res .noFraming := by
    refine ⟨framing_of_unframed hunframed, fun hframed => ?_, fun hframed => ?_, fun hcoded => ?_⟩
    · cases hframed.2
    · cases hframed.2
    · exact hcoded.2 (transferEncoding_of_unframed hunframed)
  exact BackendReader.responseOf_informational_eq hpass hinfo h101 h102

/-- An informational response of a stream is read, and the connection stands behind it. -/
theorem BackendReader.read_interim (laws : h.ResponseLaws) (headLaws : h.ResponseHeadLaws)
    {self : BackendReader} {maxHead : Nat}
    (hinterim : Interim h self.parseSlots maxHead head res)
    (hunread : self.reader.unread = head ++ rest) (allowBody : Bool) (maxLine : Nat) :
    ∃ r, r.unread = rest ∧ self.read h allowBody maxHead maxLine =
      .ok (.informational res ⟨allowBody, maxHead, maxLine, ⟨r, self.parseSlots⟩⟩) := by
  obtain ⟨r, hhead, hrest⟩ := BackendReader.head_eq laws headLaws hinterim.isHead hinterim.fits
    hunread
  refine ⟨r, hrest, ?_⟩
  rw [BackendReader.read, hhead]
  dsimp only
  rw [Polled.bind_ok, hinterim.responseOf, Polled.ofExcept_ok]

/-- Whether a final response is accepted, whether its connection is persistent and how its
    body is framed is a matter of the response alone. -/
theorem BackendReader.responseOf_final {reader : BytesReader} {parseSlots : ParseSlots}
    {allowBody : Bool} {maxHead maxLine : Nat} {out : BackendResponse}
    (hok : responseOf res reader parseSlots allowBody maxHead maxLine = .ok (.final out)) :
    ∃ recyclable framing,
      res.headers.connectionIsPersistent res.version = .ok recyclable ∧
      res.framing = .ok framing ∧
      ∀ reader parseSlots allowBody maxHead maxLine,
        responseOf res reader parseSlots allowBody maxHead maxLine =
          .ok (.final ⟨res, bodyReader reader parseSlots maxHead maxLine
            (allowBody && !neverHasBody res.code) recyclable framing⟩) := by
  obtain ⟨framing, hpass, ⟨hinfo, recyclable, hpers, -⟩ | ⟨code, -, heq⟩⟩ := responseOf_cases hok
  · exact ⟨recyclable, framing, hpers, hpass.framed, fun _ _ _ _ _ =>
      responseOf_final_eq hpass hinfo hpers⟩
  · cases heq

/-- A final response of a stream is read, and its body begins behind it. -/
theorem BackendReader.read_finalHead (laws : h.ResponseLaws) (headLaws : h.ResponseHeadLaws)
    {slots : ParseSlots} {maxHead : Nat} (hfinal : FinalHead h slots maxHead head res) :
    ∃ recyclable framing,
      res.headers.connectionIsPersistent res.version = .ok recyclable ∧
      res.framing = .ok framing ∧
      ∀ {self : BackendReader}, self.parseSlots = slots → self.reader.unread = head ++ rest →
      ∀ allowBody maxLine, ∃ r, r.unread = rest ∧ self.read h allowBody maxHead maxLine =
        .ok (.final ⟨res, bodyReader r slots maxHead maxLine
          (allowBody && !neverHasBody res.code) recyclable framing⟩) := by
  obtain ⟨hhead, hfits, reader, parseSlots, allowBody, maxHead', maxLine', out, hok⟩ := hfinal
  obtain ⟨recyclable, framing, hpers, hframing, hresponse⟩ := responseOf_final hok
  refine ⟨recyclable, framing, hpers, hframing, ?_⟩
  rintro self rfl hunread allowBody maxLine
  obtain ⟨r, hread, hrest⟩ := BackendReader.head_eq laws headLaws hhead hfits hunread
  refine ⟨r, hrest, ?_⟩
  rw [BackendReader.read, hread]
  dsimp only
  rw [Polled.bind_ok, hresponse, Polled.ofExcept_ok]

/-! ## A response that was read -/

/-- What a response that is read comes to, by its head. -/
inductive Answered (slots : ParseSlots) (allowBody : Bool) (maxHead maxLine : Nat) (r : BytesReader)
    (res : Response) : ResponseStream → Prop where
  | final (recyclable : Bool) (framing : ParsedFraming)
      (persistent : res.headers.connectionIsPersistent res.version = .ok recyclable)
      (framed : res.framing = .ok framing) (code : ¬ (100 ≤ res.code ∧ res.code ≤ 199)) :
      Answered slots allowBody maxHead maxLine r res (.final ⟨res, BackendReader.bodyReader r slots
        maxHead maxLine (allowBody && !neverHasBody res.code) recyclable framing⟩)
  | informational (code : 100 ≤ res.code ∧ res.code ≤ 199)
      (unframed : ∀ f ∈ res.headers.headers, isFramingHeader f.1 = false) :
      Answered slots allowBody maxHead maxLine r res
        (.informational res ⟨allowBody, maxHead, maxLine, ⟨r, slots⟩⟩)

/-- Headers without a framing have no framing headers. -/
theorem unframed_of_framing {headers : Headers} (hframing : headers.framing = .ok .noFraming) :
    ∀ f ∈ headers.headers, isFramingHeader f.1 = false := by
  obtain ⟨hlengths, hcodings⟩ := framing_iff_rule.mp hframing
  intro f hf
  rw [isFramingHeader_eq_false]
  constructor
  · simpa using List.filter_eq_nil_iff.mp hlengths f hf
  · simpa using List.filter_eq_nil_iff.mp hcodings f hf

theorem isInformational_eq_none {res : Response} (hnone : res.isInformational = none) :
    ¬ (100 ≤ res.code ∧ res.code ≤ 199) := by
  rintro ⟨hlow, hhigh⟩
  have hinfo : (decide (100 ≤ res.code) && decide (res.code < 200)) = true := by
    simp only [Bool.and_eq_true, decide_eq_true_eq]
    omega
  rw [Response.isInformational, if_pos hinfo] at hnone
  cases hnone

theorem isInformational_eq_some {res : Response} {code : Nat}
    (hsome : res.isInformational = some code) : 100 ≤ res.code ∧ res.code ≤ 199 := by
  unfold Response.isInformational at hsome
  split at hsome
  · next hinfo =>
    simp only [Bool.and_eq_true, decide_eq_true_eq] at hinfo
    omega
  · cases hsome

/-- What is made of a response head. -/
theorem BackendReader.responseOf_answered {res : Response} {reader : BytesReader}
    {slots : ParseSlots} {allowBody : Bool} {maxHead maxLine : Nat} {stream : ResponseStream}
    (hok : responseOf res reader slots allowBody maxHead maxLine = .ok stream) :
    Answered slots allowBody maxHead maxLine reader res stream := by
  obtain ⟨framing, hpass, ⟨hinfo, recyclable, hpers, rfl⟩ | ⟨code, hinfo, rfl⟩⟩ :=
    responseOf_cases hok
  · exact .final recyclable framing hpers hpass.framed (isInformational_eq_none hinfo)
  · have hframing := hpass.framed
    rw [hpass.noFraming_of_informational hinfo] at hframing
    exact .informational (isInformational_eq_some hinfo) (unframed_of_framing hframing)

/-- A response that is read was a whole head, with the connection behind it. -/
theorem BackendReader.read_answered {reader : BackendReader} (laws : h.ResponseLaws)
    (headLaws : h.ResponseHeadLaws) {allowBody : Bool} {maxHead maxLine : Nat} {stream : ResponseStream}
    (hok : reader.read h allowBody maxHead maxLine = .ok stream) :
    ∃ head r res, reader.reader.unread = head ++ r.unread ∧
      IsHead h reader.parseSlots head res ∧
      Answered reader.parseSlots allowBody maxHead maxLine r res stream := by
  unfold read at hok
  rcases hhead : reader.head h maxHead with ⟨answer, r⟩
  rw [hhead] at hok
  obtain ⟨res, rfl, hof⟩ := Polled.bind_eq_ok.mp hok
  obtain ⟨head, hunread, hwhole⟩ := BackendReader.head_found laws headLaws hhead
  exact ⟨head, r, res, hunread, hwhole, responseOf_answered (Polled.ofExcept_eq_ok.mp hof)⟩

end Jrpxy.Backend
