/-
  Jrpxy.Body.Extent

  Where a body ends.

  `IsBody` says, for each length a recipient can work out of a head, which
  bytes are exactly one body of it.
-/
import Jrpxy.HttpMessage.BodyLength
import Jrpxy.Body.Reader.Unifier

namespace Jrpxy.Body

open PullStream ChunkedCoding Util HttpMessage Body.Reader

/-- `body` is exactly one body of this length; in chunks, for every recipient that has slots
    for its trailers. -/
def IsBody (h : Httparse) (body : Bytes) : BodyLength → Prop
  | .none => body = []
  | .chunked => ∃ least, ∀ slots : ParseSlots, least ≤ slots.slotCount →
      ∃ t, (decode (recognisers h slots) body).tail = some t ∧ t.rest = []
  | .length n => body.length = n
  | .untilClose => True
  | .invalid => False

variable {h : Httparse}

/-- A reader that is created with the framing of a head is fresh: the length is a `u64`. -/
theorem fresh_of_framing {E : Type} {headers : Headers} {framing : ParsedFraming}
    (hframing : headers.framing = .ok framing) (reader : BytesReader) (slots : ParseSlots)
    (maxLine maxHead : Nat) (recyclable : Bool) :
    BodyReader.Fresh (.ofFraming reader slots maxLine maxHead recyclable framing :
      BodyReader E) := by
  apply BodyReader.fresh_ofFraming
  rintro n rfl
  exact length_of_framing hframing

end Jrpxy.Body
