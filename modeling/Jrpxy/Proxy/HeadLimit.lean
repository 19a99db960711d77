/-
  Jrpxy.Proxy.HeadLimit

  The limit on the length of a head, on every message of a connection.

  Reading a body fills the buffer with up to `ioFillLen` bytes, so a reader
  that was handed back by a drained message may hold the whole next head,
  longer than the limit.  Such a head is parsed before its length is looked
  at.
-/
import Jrpxy.HttpMessage.HeadLimit
import Jrpxy.Httparse.Reference
import Jrpxy.Frontend.Reader
import Jrpxy.Backend.Reader

namespace Jrpxy

open Poll Incremental Ascii Util HttpMessage

namespace HttpMessage.ParseSlots

variable {h : Httparse}

/-- The request parser splits off what the third-party parser finds. -/
theorem parseRequest_finds (laws : h.RequestLaws) (slots : ParseSlots) :
    HeadParser.Finds (slots.parseRequest h) (h.parseRequest slots.slotCount) where
  streamParser := laws.parser slots.slotCount
  none {r r'} heq := by
    rcases hp : h.parseRequest slots.slotCount r.asBytes with e | (_ | ⟨n, p⟩)
    · rw [parseRequest_error hp] at heq
      cases heq
    · rw [parseRequest_incomplete hp] at heq
      cases heq
      exact ⟨rfl, rfl⟩
    · cases hv : HttpVersion.tryFrom p.version with
      | error v =>
        rw [parseRequest_version hp hv] at heq
        cases heq
      | ok version =>
        obtain ⟨buf', hok, -⟩ := parseRequest_complete laws hp hv
        rw [hok] at heq
        cases heq
  some {r r' a} heq := by
    rcases hp : h.parseRequest slots.slotCount r.asBytes with e | (_ | ⟨n, p⟩)
    · rw [parseRequest_error hp] at heq
      cases heq
    · rw [parseRequest_incomplete hp] at heq
      cases heq
    · cases hv : HttpVersion.tryFrom p.version with
      | error v =>
        rw [parseRequest_version hp hv] at heq
        cases heq
      | ok version =>
        obtain ⟨buf', hok, hsplit⟩ := parseRequest_complete laws hp hv
        rw [hok] at heq
        cases heq
        exact ⟨n, p, rfl, hsplit⟩

/-- The response parser splits off what the third-party parser finds. -/
theorem parseResponse_finds (laws : h.ResponseLaws) (hhead : h.ResponseHeadLaws)
    (slots : ParseSlots) :
    HeadParser.Finds (slots.parseResponse h) (h.parseResponse slots.slotCount) where
  streamParser := hhead.parser slots.slotCount
  none {r r'} heq := by
    rcases parseResponse_cases laws slots r with
      ⟨e, herr⟩ | ⟨hp, hnone⟩ | hpanic | ⟨n, p, version, buf', -, hok, -⟩
    · rw [herr] at heq
      cases heq
    · rw [hnone] at heq
      cases heq
      exact ⟨rfl, hp⟩
    · rw [hpanic] at heq
      cases heq
    · rw [hok] at heq
      cases heq
  some {r r' a} heq := by
    rcases parseResponse_cases laws slots r with
      ⟨e, herr⟩ | ⟨-, hnone⟩ | hpanic | ⟨n, p, version, buf', hp, hok, hsplit⟩
    · rw [herr] at heq
      cases heq
    · rw [hnone] at heq
      cases heq
    · rw [hpanic] at heq
      cases heq
    · rw [hok] at heq
      cases heq
      exact ⟨n, p, hp, hsplit⟩

end HttpMessage.ParseSlots

theorem Frontend.headErrors_limitDistinct : Frontend.headErrors.LimitDistinct := by
  constructor <;> exact nofun

theorem Backend.headErrors_limitDistinct : Backend.headErrors.LimitDistinct := by
  constructor <;> exact nofun

namespace Proxy

open Httparse (requestHead)
open Httparse.Reference (reference requestLaws responseLaws responseHeadLaws)

/-- What the limit is to guarantee of reading a request head. -/
def HonoursRequestLimit (h : Httparse) (reader : Frontend.FrontendReader)
    (maxHeadLength : Nat) : Prop :=
  HonoursLimit Frontend.headErrors (h.parseRequest reader.parseSlots.slotCount) maxHeadLength
    reader.reader (reader.head h maxHeadLength)

/-- What the limit is to guarantee of reading a response head. -/
def HonoursResponseLimit (h : Httparse) (reader : Backend.BackendReader)
    (maxHeadLength : Nat) : Prop :=
  HonoursLimit Backend.headErrors (h.parseResponse reader.parseSlots.slotCount) maxHeadLength
    reader.reader (reader.head h maxHeadLength)

/-- In every state of a connection, the head-length limit is honoured if and only if the
    buffer does not hold a complete, longer head already. -/
theorem headLimit_iff {h : Httparse} (hreq : h.RequestLaws) (hres : h.ResponseLaws)
    (hhead : h.ResponseHeadLaws) (maxHeadLength : Nat) :
    (∀ reader : Frontend.FrontendReader, HonoursRequestLimit h reader maxHeadLength ↔
      ¬ HoldsLongHead (reader.parseSlots.parseRequest h)
        (h.parseRequest reader.parseSlots.slotCount) maxHeadLength reader.reader) ∧
    (∀ reader : Backend.BackendReader, HonoursResponseLimit h reader maxHeadLength ↔
      ¬ HoldsLongHead (reader.parseSlots.parseResponse h)
        (h.parseResponse reader.parseSlots.slotCount) maxHeadLength reader.reader) := by
  constructor
  · intro reader
    exact honoursLimit_iff (ParseSlots.parseRequest_finds hreq _)
      Frontend.headErrors_limitDistinct maxHeadLength reader.reader
  · intro reader
    exact honoursLimit_iff (ParseSlots.parseResponse_finds hres hhead _)
      Backend.headErrors_limitDistinct maxHeadLength reader.reader

/-- A request with a body of 20 bytes, and behind it a request with a head of 80. -/
def pipelined : Source :=
  ⟨[.data 80 (ascii "OST / HTTP/1.1\r\nHost: h\r\nContent-Length: 20\r\n\r\n" ++
    ascii "01234567890123456789GET / HTTP/1.1\r\nHost: h\r\nX: " ++
    List.replicate 48 97 ++ ascii "\r\n\r\n")]⟩

/-- On a connection as it is handed over, the first head is within the limit. -/
theorem headLimit_iff_tagged :
    HonoursRequestLimit reference (.new pipelined 8) 64 ∧
    HonoursResponseLimit reference (.new ⟨[]⟩ 8) 64 := by
  obtain ⟨hrequest, hresponse⟩ := headLimit_iff requestLaws responseLaws responseHeadLaws 64
  constructor
  · apply (hrequest _).mpr
    exact not_holdsLongHead (ParseSlots.parseRequest_finds requestLaws _) (by decide)
  · apply (hresponse _).mpr
    exact not_holdsLongHead (ParseSlots.parseResponse_finds responseLaws responseHeadLaws _)
      (by decide)

/-- The reader of `pipelined`, handed back behind the first request. -/
def drainedReader : Polled Frontend.FrontendError (Option Frontend.FrontendReader) :=
  ((Frontend.FrontendReader.new pipelined 8).read reference 64 64).bind fun req =>
    Frontend.FrontendBodyReader.drain reference req.reader

/-- Whether the limit of 64 lets a head of 80 bytes through. -/
def exceedsLimit : Polled Frontend.FrontendError (Option Frontend.FrontendReader) → Bool
  | .ok (some reader) =>
    (reader.head reference 64).1.isOk &&
      reader.reader.unread.length == (reader.head reference 64).2.unread.length + 80
  | _ => false

/-- The drained body leaves the whole second head buffered, and its 80 bytes get past a
    limit of 64. -/
theorem drainedReader_exceedsLimit :
    ∃ reader req rest, drainedReader = .ok (some reader) ∧
      reader.head reference 64 = (.ok req, rest) ∧
      ¬ HonoursRequestLimit reference reader 64 := by
  have hrun : exceedsLimit drainedReader = true := by decide +kernel
  rcases hdrained : drainedReader with _ | (_ | reader) | e | _
  · rw [hdrained] at hrun; cases hrun
  · rw [hdrained] at hrun; cases hrun
  · rw [hdrained, exceedsLimit, Bool.and_eq_true, beq_iff_eq] at hrun
    obtain ⟨hok, hlen⟩ := hrun
    obtain ⟨req, rest, hhead⟩ := exists_of_isOk hok
    rw [hhead] at hlen
    refine ⟨reader, req, rest, rfl, hhead, ?_⟩
    intro hhonours
    obtain ⟨head, hunread, hshort⟩ := hhonours.within req rest hhead
    rw [hunread, List.length_append] at hlen
    dsimp only at hlen
    omega
  · rw [hdrained] at hrun; cases hrun
  · rw [hdrained] at hrun; cases hrun

end Proxy

end Jrpxy
