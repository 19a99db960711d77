/-
  Jrpxy.Backend.WrittenHead

  A written request head, as the grammar reads it.

  Nothing in a method, a target or a field can move a boundary of the head, and
  no framing field the client sent is left beside the one the proxy writes.
-/
import Jrpxy.Backend.Writer
import Jrpxy.HttpMessage.HeadGrammar

namespace Jrpxy.Backend

open Poll BlockWriter Ascii Util HttpMessage
open HttpHead hiding Field

/-- Whatever bytes come behind it, `head` is read as `p` and in no other way, and no byte
    behind it is used up. -/
structure ReadsAs (p : RequestParts) (head : Bytes) : Prop where
  parses : RequestHead p head
  only : ∀ suffix p' head' rest, RequestHead p' head' → head ++ suffix = head' ++ rest →
    p' = p ∧ head' = head ∧ rest = suffix

/-- What parses is read in one way. -/
theorem readsAs_of_parses {p : RequestParts} {head : Bytes} (h : RequestHead p head) :
    ReadsAs p head where
  parses := h
  only suffix p' head' rest h' heq := by
    obtain ⟨rfl, rfl⟩ := h.unique h' heq
    exact ⟨rfl, rfl, (List.append_cancel_left heq).symm⟩

/-- The fields of a written head as they are read: those that are no framing fields, and
    the one that is. -/
def sentFields (req : Request) (framing : WriteFraming) : List Field :=
  (req.headers.headers.filter fun f => !isFramingHeader f.1).map readBack ++
    (framingFields framing).map readBack

theorem version_http11 : Version (ascii "HTTP/1.1") := ⟨49, 49, rfl, rfl, rfl⟩

theorem writtenFields_valid {req : Request} (h : req.headers.Valid) (framing : WriteFraming) :
    Headers.Valid ⟨writtenFields req framing⟩ := by
  intro f hf
  rcases List.mem_append.mp hf with hf | hf
  · exact h f (List.mem_filter.mp hf).1
  · exact framingFields_valid framing f hf

/-- The bytes of a head are derived from the grammar. -/
theorem requestHead_parses {req : Request} (hmethod : isValidFieldName req.method = true)
    (htarget : isValidRequestTarget req.path = true) (hheaders : req.headers.Valid)
    (framing : WriteFraming) :
    RequestHead ⟨req.method, req.path, ascii "HTTP/1.1", sentFields req framing⟩
      (Httparse.requestHead req.method req.path (ascii "HTTP/1.1") (writtenFields req framing)) := by
  have hsection := fieldSection_written (writtenFields_valid hheaders framing)
  rw [writtenFields, List.map_append] at hsection
  rw [isValidRequestTarget, Bool.and_eq_true, List.all_eq_true] at htarget
  refine ⟨token_of_isValidFieldName hmethod, ⟨?_, ?_⟩, version_http11, _, hsection, ?_⟩
  · simpa using htarget.1
  · intro b hb
    rw [isFieldVchar_eq]
    exact htarget.2 b hb
  · simp [Httparse.requestHead, writtenFields, ascii, crlf, Headers.iter]

/-- A request head that is written is read as the request it was written for, with the
    proxy's own framing and no other: for every token, every target and all fields that
    `push` accepts. -/
theorem writeRequestTo_readsAs {req : Request} (hmethod : isValidFieldName req.method = true)
    (htarget : isValidRequestTarget req.path = true) (hheaders : req.headers.Valid)
    {framing : WriteFraming} (hrange : framing.InRange) (sink : Sink) :
    (sink.Accepting → (writeRequestTo req framing sink).1 = .ok ()) ∧
    ∀ s, writeRequestTo req framing sink = (.ok (), s) →
      ∃ head, s.wire = sink.wire ++ head ∧
        ReadsAs ⟨req.method, req.path, ascii "HTTP/1.1", sentFields req framing⟩ head ∧
        Headers.framing ⟨sentFields req framing⟩ = .ok framing.parsed := by
  have hmeets := writeRequestTo_meets req framing sink
  constructor
  · intro hacc
    generalize writeRequestTo req framing sink = x at hmeets
    obtain ⟨_ | a | e | _, s⟩ := x
    · exact hmeets.elim
    · rfl
    · exact absurd hacc hmeets
    · exact hmeets.elim
  · intro s hok
    rw [hok] at hmeets
    refine ⟨_, hmeets.1, ?_, ?_⟩
    · exact readsAs_of_parses (requestHead_parses hmethod htarget hheaders framing)
    · rw [sentFields, ← List.map_append]
      apply framing_written _ hrange
      intro f hf
      simpa using (List.mem_filter.mp hf).2

/-- A request with framing fields in three spellings, and a value with space around it. -/
def smuggledRequest : Request :=
  ⟨ascii "POST", ascii "/a?b", .http11, ⟨[(ascii "Content-Length", ascii "3"),
    (ascii "X", ascii " a:b "), (ascii "TRANSFER-encoding", ascii "chunked"),
    (ascii "content-length", ascii "4, 4")]⟩⟩

theorem writeRequestTo_readsAs_smuggled :
    ∃ s head, writeRequestTo smuggledRequest (.length 10) ⟨[], [.accept 2, .pending]⟩ = (.ok (), s) ∧
      s.wire = head ∧
      ReadsAs ⟨ascii "POST", ascii "/a?b", ascii "HTTP/1.1",
        [(ascii "X", ascii "a:b"), (ascii "content-length", ascii "10")]⟩ head ∧
      Headers.framing ⟨[(ascii "X", ascii "a:b"), (ascii "content-length", ascii "10")]⟩ =
        .ok (.length 10) := by
  have hok : (writeRequestTo smuggledRequest (.length 10) ⟨[], [.accept 2, .pending]⟩).1.isOk =
      true := by decide +kernel
  obtain ⟨u, s, hs⟩ := exists_of_isOk hok
  have hvalid : smuggledRequest.headers.Valid := by decide +kernel
  obtain ⟨-, hreads⟩ := @writeRequestTo_readsAs smuggledRequest (by decide +kernel)
    (by decide +kernel) hvalid (.length 10) (show 10 < 2 ^ 64 by decide) ⟨[], [.accept 2, .pending]⟩
  obtain ⟨head, hwire, hreads, hframing⟩ := hreads s hs
  have hfields : sentFields smuggledRequest (.length 10) =
      [(ascii "X", ascii "a:b"), (ascii "content-length", ascii "10")] := by decide +kernel
  rw [hfields] at hreads hframing
  exact ⟨s, head, hs, hwire, hreads, hframing⟩

end Jrpxy.Backend
