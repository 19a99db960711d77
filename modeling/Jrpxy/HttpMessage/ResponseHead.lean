/-
  Jrpxy.HttpMessage.ResponseHead

  When a complete response head is parsed and when it panics.

  The third-party parser hands out the static empty string for a reason phrase
  that is absent or has obs-text in it.  That string is no part of the buffer,
  so the pointer arithmetic of `Span::from_subslice` asserts.  The parse
  succeeds exactly for the status lines that have an ASCII reason phrase, the
  empty one included.
-/
import Jrpxy.HttpMessage.Message
import Jrpxy.Httparse.Reference

namespace Jrpxy.HttpMessage

open Poll Incremental Ascii Util
open Httparse.Reference (reference responseLaws staticEmpty)

namespace ParseSlots

variable {h : Httparse} {slots : ParseSlots} {buf : BytesReader}

/-- What parsing a complete head is to return: the code, the reason phrase, empty when
    there is none or it has obs-text in it, and the headers; with the head split off. -/
def ReturnsResponse (h : Httparse) (slots : ParseSlots) (buf : BytesReader) (n : Nat)
    (version : HttpVersion) (p : Httparse.ResponseParts) : Prop :=
  ∃ buf', slots.parseResponse h buf =
      (.ok (some ⟨version, p.code, (Httparse.asciiReason buf.asBytes).getD [],
        ⟨p.headers.map Httparse.Header.field⟩⟩), buf') ∧
    buf.splitTo n = some (buf.asBytes.take n, buf')

/-- A complete response head is returned if and only if its status line has a
    reason phrase, possibly empty, without obs-text. -/
theorem parseResponse_returns_iff (laws : h.ResponseLaws) {n : Nat}
    {p : Httparse.ResponseParts} {version : HttpVersion}
    (hp : h.parseResponse slots.slotCount buf.asBytes = .ok (.complete (n, p)))
    (hv : HttpVersion.tryFrom p.version = .ok version) :
    ReturnsResponse h slots buf n version p ↔
      (Httparse.asciiReason buf.asBytes).isSome = true := by
  rcases hreason : Httparse.asciiReason buf.asBytes with _ | phrase
  -- the static empty string: the head is not returned
  · obtain ⟨houtside, -⟩ := laws.static hp hreason
    have hpanic := parseResponse_panic laws hp hv houtside
    constructor
    · rintro ⟨buf', hok, -⟩
      rw [hpanic] at hok
      cases hok
    · intro hsome
      cases hsome
  · obtain ⟨hwithin, hbytes⟩ := laws.reason hp hreason
    obtain ⟨buf', hok, hsplit⟩ := parseResponse_complete laws hp hv hwithin
    rw [hbytes] at hok
    refine ⟨fun _ => rfl, fun _ => ⟨buf', ?_, hsplit⟩⟩
    rw [hok, hreason, Option.getD_some]

/-- A reader whose buffer holds `bytes` and whose source has ended. -/
def buffered (bytes : Bytes) : BytesReader :=
  ⟨⟨[]⟩, ⟨bytes, bytes.length, Nat.le_refl _⟩⟩

/-- A status line with an empty reason phrase is returned. -/
theorem parseResponse_returns_iff_ok :
    ReturnsResponse reference ⟨4⟩ (buffered (ascii "HTTP/1.1 204 \r\n\r\n")) 17 .http11
        ⟨1, 204, ⟨13, []⟩, []⟩ ↔
      (Httparse.asciiReason (ascii "HTTP/1.1 204 \r\n\r\n")).isSome = true :=
  parseResponse_returns_iff responseLaws rfl rfl

@[simp] theorem buffered_asBytes (bytes : Bytes) : (buffered bytes).asBytes = bytes :=
  List.take_length

@[simp] theorem buffered_unread (bytes : Bytes) : (buffered bytes).unread = bytes := by
  rw [BytesReader.unread, buffered_asBytes]
  exact List.append_nil bytes

/-- `HTTP/1.1 200` with no reason phrase at all is a complete head within the
    slots, and parsing it panics. -/
theorem parseResponse_no_reason :
    reference.ResponseLaws ∧
      reference.parseResponse 4 (buffered (ascii "HTTP/1.1 200\r\n\r\n")).asBytes =
        .ok (.complete (16, ⟨1, 200, staticEmpty, []⟩)) ∧
      ((ParseSlots.mk 4).parseResponse reference
        (buffered (ascii "HTTP/1.1 200\r\n\r\n"))).1 = .panic ∧
      ¬ ReturnsResponse reference ⟨4⟩ (buffered (ascii "HTTP/1.1 200\r\n\r\n")) 16
        .http11 ⟨1, 200, staticEmpty, []⟩ := by
  have hpanic : ((ParseSlots.mk 4).parseResponse reference
      (buffered (ascii "HTTP/1.1 200\r\n\r\n"))).1 = .panic := by decide
  refine ⟨responseLaws, rfl, hpanic, ?_⟩
  rintro ⟨buf', hok, -⟩
  rw [hok] at hpanic
  cases hpanic

end ParseSlots

end Jrpxy.HttpMessage
