/-
  Jrpxy.Body.Content

  What a body carries.

  `IsBody` says which bytes are one body of a length; `Carries` says what one
  stands for: the content, and behind a chunked body the trailers.
  What a reader owes is what the bytes in front of it carry
  (`carries_ofFraming`).
-/
import Jrpxy.Body.Extent

namespace Jrpxy.Body

open PullStream ChunkedCoding Util HttpMessage Body.Reader

/-- `body` is exactly one body of this length, with this content and these trailers; in
    chunks, for every recipient that has slots for the trailers. -/
def Carries (h : Httparse) (body content : Bytes) (trailers : Headers) : BodyLength → Prop
  | .none => body = [] ∧ content = [] ∧ trailers = .empty
  | .chunked => ∃ least, ∀ slots : ParseSlots, least ≤ slots.slotCount →
      (decode (recognisers h slots) body).body = content ∧
      ∃ n, (decode (recognisers h slots) body).tail = some ⟨n, trailers, []⟩
  | .length n => body = content ∧ body.length = n ∧ trailers = .empty
  | .untilClose => body = content ∧ trailers = .empty
  | .invalid => False

variable {h : Httparse}

/-- What carries something is one body. -/
theorem Carries.isBody {body content : Bytes} {trailers : Headers} {length : BodyLength}
    (hcarries : Carries h body content trailers length) : IsBody h body length := by
  cases length with
  | none => exact hcarries.1
  | chunked =>
    obtain ⟨least, hslots⟩ := hcarries
    refine ⟨least, fun slots hle => ?_⟩
    obtain ⟨-, n, htail⟩ := hslots slots hle
    exact ⟨_, htail, rfl⟩
  | length n => exact hcarries.2.1
  | untilClose => trivial
  | invalid => exact hcarries.elim

/-- Bytes carry one thing at most. -/
theorem Carries.unique {body content content' : Bytes} {trailers trailers' : Headers}
    {length : BodyLength} (hcarries : Carries h body content trailers length)
    (hcarries' : Carries h body content' trailers' length) :
    content = content' ∧ trailers = trailers' := by
  cases length with
  | none => exact ⟨hcarries.2.1.trans hcarries'.2.1.symm, hcarries.2.2.trans hcarries'.2.2.symm⟩
  -- a recipient with slots enough for both
  | chunked =>
    obtain ⟨least, hslots⟩ := hcarries
    obtain ⟨least', hslots'⟩ := hcarries'
    obtain ⟨hbody, n, htail⟩ := hslots ⟨max least least'⟩ (Nat.le_max_left _ _)
    obtain ⟨hbody', n', htail'⟩ := hslots' ⟨max least least'⟩ (Nat.le_max_right _ _)
    cases htail.symm.trans htail'
    exact ⟨hbody.symm.trans hbody', rfl⟩
  | length n => exact ⟨hcarries.1.symm.trans hcarries'.1, hcarries.2.2.trans hcarries'.2.2.symm⟩
  | untilClose => exact ⟨hcarries.1.symm.trans hcarries'.1, hcarries.2.trans hcarries'.2.symm⟩
  | invalid => exact hcarries.elim

/-- A body whose end is found carries what is decoded up to there. -/
theorem carries_of_decode (hsize : h.ChunkSizeLaws) (hfields : h.FieldSectionLaws)
    {slots : ParseSlots} {s : Bytes} {t : Tail Headers}
    (htail : (decode (recognisers h slots) s).tail = some t) :
    ∃ body, s = body ++ t.rest ∧
      Carries h body (decode (recognisers h slots) s).body t.trailers .chunked := by
  have hlawful := recognisers_lawful hsize hfields slots
  obtain ⟨body, hs, hbody⟩ := decode_split hlawful htail
  have hcontent : (decode (recognisers h slots) s).body =
      (decode (recognisers h slots) body).body := by
    conv => lhs; rw [hs, decode_append hlawful hbody]
    rfl
  refine ⟨body, hs, slots.slotCount, ?_⟩
  intro more hmore
  rw [decode_more_slots hfields hmore hbody]
  exact ⟨hcontent.symm, _, hbody⟩

/-- A reader that is created in front of a body that completes stands in front of one that
    carries what the reader owes. -/
theorem carries_ofFraming {E : Type} {last : Puller E BodyError BodyEnd} (hsize : h.ChunkSizeLaws)
    (hfields : h.FieldSectionLaws) {reader : BytesReader} {slots : ParseSlots}
    {maxLine maxTrailer : Nat} {recyclable : Bool} {framing : ParsedFraming} {t : BodyEnd}
    (htail : ((BodyReader.ofFraming reader slots maxLine maxTrailer recyclable framing :
      BodyReader E).owed h last).tail = some t) :
    ∃ body, reader.unread = body ++ t.rest ∧
      Carries h body ((BodyReader.ofFraming reader slots maxLine maxTrailer recyclable framing :
        BodyReader E).owed h last).body t.trailers (framing.bodyLength .none) := by
  cases framing with
  | noFraming =>
    cases htail
    exact ⟨[], rfl, rfl, rfl, rfl⟩
  | length n =>
    have htail : (if n ≤ reader.unread.length then
        some (BodyEnd.mk .empty (reader.unread.drop n)) else none) = some t := htail
    by_cases hle : n ≤ reader.unread.length
    · rw [if_pos hle] at htail
      cases htail
      exact ⟨reader.unread.take n, (List.take_append_drop n _).symm, rfl,
        List.length_take_of_le hle, rfl⟩
    · rw [if_neg hle] at htail
      cases htail
  | chunked =>
    obtain ⟨t', htail', rfl⟩ := Option.map_eq_some_iff.mp htail
    exact carries_of_decode hsize hfields htail'

end Jrpxy.Body
