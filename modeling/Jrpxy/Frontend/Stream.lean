/-
  Jrpxy.Frontend.Stream

  A stream of requests on one connection.

  As for responses, what reading a request comes to is a matter of the bytes
  and not of how they arrive: a request that is read was a whole head, with
  the connection behind it in front of the body (`read_found`), and a whole
  head that the connection stands in front of is read (`head_eq`).
-/
import Jrpxy.Body.Extent
import Jrpxy.Frontend.Reader
import Jrpxy.HttpMessage.ResponseHead

namespace Jrpxy.Frontend

open Poll PullStream Incremental Ascii Util HttpMessage Body Body.Reader
open ParseSlots (buffered buffered_asBytes buffered_unread)

variable {h : Httparse} {slots : ParseSlots} {head rest : Bytes} {req : Request}

/-- `head` is one whole request head, and it is parsed to `req`. -/
def IsHead (h : Httparse) (slots : ParseSlots) (head : Bytes) (req : Request) : Prop :=
  ∃ r, slots.parseRequest h (buffered head) = (.ok (some req), r) ∧ r.unread = []

/-- What the third-party parser says of a whole head. -/
theorem isHead_iff (laws : h.RequestLaws) :
    IsHead h slots head req ↔
      ∃ p version, h.parseRequest slots.slotCount head = .ok (.complete (head.length, p)) ∧
        HttpVersion.tryFrom p.version = .ok version ∧
        req = ⟨p.method.bytes, p.path.bytes, version,
          ⟨p.headers.map Httparse.Header.field⟩⟩ := by
  constructor
  · rintro ⟨r, hparse, hnil⟩
    obtain ⟨n, p, version, hp, hv, rfl, hsplit⟩ := ParseSlots.parseRequest_found laws hparse
    have hrest := BytesReader.unread_eq_drop_of_splitTo hsplit
    rw [hnil, buffered_unread] at hrest
    have hall : head.length ≤ n := List.drop_eq_nil_iff.mp hrest.symm
    rw [buffered_asBytes] at hp
    have hle := (laws.parser slots.slotCount).length_le hp
    obtain rfl : n = head.length := by omega
    exact ⟨p, version, hp, hv, rfl⟩
  · rintro ⟨p, version, hp, hv, rfl⟩
    have hbuffered : (buffered head).asBytes = head := buffered_asBytes head
    rw [← hbuffered] at hp
    obtain ⟨r, hok, hsplit⟩ := ParseSlots.parseRequest_complete laws hp hv
    refine ⟨r, hok, ?_⟩
    rw [BytesReader.unread_eq_drop_of_splitTo hsplit, buffered_unread, buffered_asBytes]
    exact List.drop_length

/-- What lies in the buffer of a connection in front of a whole head. -/
theorem answer_of_isHead (laws : h.RequestLaws) {p : Httparse.RequestParts}
    (hp : h.parseRequest slots.slotCount head = .ok (.complete (head.length, p)))
    {r : BytesReader} (hr : r.unread = head ++ rest) :
    h.parseRequest slots.slotCount r.asBytes =
      if head.length ≤ r.len then .ok (.complete (head.length, p)) else .ok .incomplete := by
  have hparser := laws.parser slots.slotCount
  have hfull := hparser.complete_append hp rest
  rw [← hr, BytesReader.unread] at hfull
  rw [← BytesReader.length_asBytes]
  exact hparser.answer_of_append hfull

/-- The parser of requests finds whole heads. -/
theorem parseRequest_streams (laws : h.RequestLaws) (slots : ParseSlots) :
    HeadParser.Streams (slots.parseRequest h) (IsHead h slots) where
  patient := parseRequest_patient slots laws
  found := by
    intro r r' req hok
    obtain ⟨n, p, version, hp, hv, rfl, hsplit⟩ := ParseSlots.parseRequest_found laws hok
    obtain ⟨-, hparts, -, hlen, -, -⟩ := BytesReader.unread_splitTo hsplit
    -- the head alone is as complete as it is in the buffer
    have halone := (laws.parser slots.slotCount).complete_take hp (Nat.le_refl n)
    refine ⟨r.asBytes.take n, hparts, (isHead_iff laws).mpr ⟨p, version, ?_, hv, rfl⟩⟩
    rw [hlen]
    exact halone
  short := by
    intro head rest req r hhead hr hlt
    obtain ⟨p, version, hp, -⟩ := (isHead_iff laws).mp hhead
    apply ParseSlots.parseRequest_incomplete
    rw [answer_of_isHead laws hp hr, if_neg (by omega)]
  long := by
    intro head rest req r hhead hr hle
    obtain ⟨p, version, hp, hv, rfl⟩ := (isHead_iff laws).mp hhead
    have hcomplete := answer_of_isHead laws hp hr
    rw [if_pos hle] at hcomplete
    obtain ⟨r', hok, hsplit⟩ := ParseSlots.parseRequest_complete laws hcomplete hv
    refine ⟨r', hok, ?_⟩
    rw [BytesReader.unread_eq_drop_of_splitTo hsplit, hr, List.drop_left]

/-- A whole head that the connection stands in front of is read, however it is delivered. -/
theorem FrontendReader.head_eq (laws : h.RequestLaws) {self : FrontendReader} {maxHead : Nat}
    (hhead : IsHead h self.parseSlots head req) (hmax : head.length ≤ maxHead)
    (hunread : self.reader.unread = head ++ rest) :
    ∃ r, self.head h maxHead = (.ok req, r) ∧ r.unread = rest :=
  readHead_whole (parseRequest_streams laws self.parseSlots) hhead hmax hunread

/-- A request that is read was a whole head, and its body begins behind it. -/
theorem FrontendReader.read_found (laws : h.RequestLaws) {self : FrontendReader}
    {maxHead maxLine : Nat} {out : FrontendRequest}
    (hread : self.read h maxHead maxLine = .ok out) :
    ∃ head r recyclable framing, self.reader.unread = head ++ r.unread ∧
      IsHead h self.parseSlots head out.req ∧
      out.req.headers.connectionIsPersistent out.req.version = .ok recyclable ∧
      out.req.framing = .ok framing ∧
      out.reader = .ofFraming r self.parseSlots maxLine maxHead recyclable framing := by
  obtain ⟨r, recyclable, framing, hhead, hparts⟩ := read_steps hread
  obtain ⟨head, hunread, hwhole⟩ := readHead_found (parseRequest_streams laws self.parseSlots) hhead
  exact ⟨head, r, recyclable, framing, hunread, hwhole, hparts⟩

/-- The reader of a request body is fresh when the request is read. -/
theorem FrontendReader.read_fresh (laws : h.RequestLaws) {self : FrontendReader}
    {maxHead maxLine : Nat} {out : FrontendRequest}
    (hread : self.read h maxHead maxLine = .ok out) : out.reader.Fresh := by
  obtain ⟨head, r, recyclable, framing, -, -, -, hframing, hreader⟩ := read_found laws hread
  rw [hreader]
  exact fresh_of_framing hframing r _ _ _ _

/-! ## A head that was written -/

/-- Without a `Connection` field a connection of HTTP/1.1 stays open. -/
theorem connectionIsPersistent_of_none {headers : Headers}
    (hnone : ∀ f ∈ headers.headers, eqIgnoreCase (ascii "connection") f.1 = false) :
    headers.connectionIsPersistent .http11 = .ok true := by
  rw [Headers.connectionIsPersistent, Headers.connectionTokens, Headers.getHeader_eq_nil hnone]
  rfl

/-- A head that was written with valid fields, none of them `Connection`, is read as the
    request it was written for, with the framing it was written with. -/
theorem FrontendReader.read_written (laws : h.RequestLaws) {self : FrontendReader}
    {method path : Bytes} {fs : List Field} {framing : ParsedFraming}
    (hmethod : isValidFieldName method = true) (htarget : h.IsTarget path)
    (hvalid : Headers.Valid ⟨fs⟩) (hslots : fs.length ≤ self.parseSlots.slotCount)
    (hopen : ∀ f ∈ fs, eqIgnoreCase (ascii "connection") f.1 = false)
    (hframing : Headers.framing ⟨fs.map readBack⟩ = .ok framing)
    (hunread : self.reader.unread =
      Httparse.requestHead method path (ascii "HTTP/1.1") fs ++ rest) {maxHead : Nat}
    (hmax : (Httparse.requestHead method path (ascii "HTTP/1.1") fs).length ≤ maxHead)
    (maxLine : Nat) :
    ∃ r, r.unread = rest ∧ self.read h maxHead maxLine =
      .ok ⟨⟨method, path, .http11, ⟨fs.map readBack⟩⟩,
        .ofFraming r self.parseSlots maxLine maxHead true framing⟩ := by
  obtain ⟨p, hp, hpmethod, hppath, hversion, hfields⟩ :=
    laws.complete hmethod htarget hvalid hslots []
  rw [List.append_nil] at hp
  have hhead : IsHead h self.parseSlots (Httparse.requestHead method path (ascii "HTTP/1.1") fs)
      ⟨method, path, .http11, ⟨fs.map readBack⟩⟩ := by
    refine (isHead_iff laws).mpr ⟨p, .http11, hp, ?_, ?_⟩
    · rw [hversion]
      rfl
    · rw [hpmethod, hppath, hfields]
      rfl
  obtain ⟨r, hread, hrest⟩ := FrontendReader.head_eq laws hhead hmax hunread
  have hpersistent : Headers.connectionIsPersistent ⟨fs.map readBack⟩ .http11 = .ok true := by
    apply connectionIsPersistent_of_none
    intro f hf
    obtain ⟨g, hg, rfl⟩ := List.mem_map.mp hf
    exact hopen g hg
  refine ⟨r, hrest, ?_⟩
  rw [FrontendReader.read, hread]
  dsimp only
  rw [Polled.bind_ok, FrontendReader.requestOf, if_neg (by simp), hpersistent, Request.framing,
    hframing]
  rfl

end Jrpxy.Frontend
