/-
  Jrpxy.Frontend.WrittenHead

  A written response head, as the grammar reads it.

  The status code is written as a number, without leading zeros, and neither a
  builder nor the parser of backend responses bounds it.  So a head is read
  back exactly for the codes that have three digits
  (`writeResponseTo_readsBack_iff`).
-/
import Jrpxy.Frontend.Writer
import Jrpxy.HttpMessage.Builder
import Jrpxy.HttpMessage.HeadGrammar
import Jrpxy.Httparse.Reference

namespace Jrpxy.Frontend

open Poll BlockWriter Ascii Util HttpMessage
open HttpHead hiding Field
open Httparse.Reference (reference responseLaws responseHeadLaws)

/-! ## Responses that are written -/

/-- The response comes from a builder or from a backend. -/
inductive Supplied (h : Httparse) (res : Response) : Prop where
  | built (builder : ResponseBuilder) (hbuild : builder.build = .ok res)
  | parsed (slots : ParseSlots) (buf buf' : BytesReader)
      (hparse : slots.parseResponse h buf = (.ok (some res), buf'))

/-- Either way it has a valid reason phrase and valid fields. -/
theorem Supplied.valid {h : Httparse} (laws : h.ResponseLaws) (headLaws : h.ResponseHeadLaws)
    {res : Response} (hres : Supplied h res) :
    isValidFieldValue res.reason = true ∧ res.headers.Valid := by
  cases hres with
  | built builder hbuild => exact ResponseBuilder.build_ok hbuild
  | parsed slots buf buf' hparse =>
    rcases ParseSlots.parseResponse_cases laws slots buf with
      ⟨e, heq⟩ | ⟨-, heq⟩ | heq | ⟨n, p, version, r, hp, heq, -⟩
    · rw [heq] at hparse
      cases hparse
    · rw [heq] at hparse
      cases hparse
    · rw [heq] at hparse
      cases hparse
    · rw [heq] at hparse
      cases hparse
      obtain ⟨-, hreason, hfields⟩ := headLaws.sound hp
      constructor
      · exact hreason
      · intro f hf
        obtain ⟨x, hx, rfl⟩ := List.mem_map.mp hf
        exact ⟨(hfields x hx).1, (hfields x hx).2.1⟩

/-! ## Reading the head back -/

/-- Whatever bytes come behind it, `head` is read as a head with this code, this reason
    phrase and these fields, and in no other way; no byte behind it is used up; and a
    framing that is announced is the one that is read. -/
structure ReadsBack (res : Response) (framing : WriteFraming) (fields : List Field)
    (head : Bytes) : Prop where
  parses : ∃ code, value 10 code = some res.code ∧
    HttpHead.ResponseHead ⟨ascii "HTTP/1.1", code, res.reason, fields⟩ head
  only : ∀ suffix p head' rest, HttpHead.ResponseHead p head' →
    head ++ suffix = head' ++ rest →
    value 10 p.code = some res.code ∧ p.reason = res.reason ∧ p.fields = fields ∧
      head' = head ∧ rest = suffix
  framed : framing ≠ .preserveFraming → framing ≠ .stripFraming →
    Headers.framing ⟨fields⟩ = .ok framing.parsed

/-- Whatever is written for this response is read back as having these fields. -/
def WrittenAs (res : Response) (framing : WriteFraming) (fields : List Field) : Prop :=
  ∀ sink s, writeResponseTo res framing sink = (.ok (), s) →
    ∃ head, s.wire = sink.wire ++ head ∧ ReadsBack res framing fields head

theorem writtenFields_valid {res : Response} (h : res.headers.Valid) (framing : WriteFraming) :
    Headers.Valid ⟨writtenFields res framing⟩ := by
  intro f hf
  rcases List.mem_append.mp hf with hf | hf
  · exact h f (List.mem_filter.mp hf).1
  · exact framingFields_valid framing f hf

/-- Three digits are what the numbers from 100 to 999 have. -/
theorem length_digits_eq_three {n : Nat} :
    (digits 10 n).length = 3 ↔ 100 ≤ n ∧ n ≤ 999 := by
  have htwo : (digits 10 n).length ≤ 2 ↔ n < 10 ^ 2 := by
    rw [digits, List.length_map]
    exact Nat.length_toDigits_le_iff (by decide) (by decide)
  have hthree : (digits 10 n).length ≤ 3 ↔ n < 10 ^ 3 := by
    rw [digits, List.length_map]
    exact Nat.length_toDigits_le_iff (by decide) (by decide)
  omega

theorem isDigit_digits (n : Nat) : ∀ b ∈ digits 10 n, isDigit b = true :=
  forall_mem_digits (by decide) (fun _ hd => isDigit_digit hd) n

/-- A written head has the shape of the grammar, its code apart. -/
theorem responseHead_eq (code : Nat) (reason : Bytes) (fs : List Field) :
    responseHead code reason fs = ascii "HTTP/1.1" ++
      32 :: (digits 10 code ++ 32 :: (reason ++ crlf ++ (fieldLines fs ++ crlf))) := by
  simp [responseHead, ascii, crlf]

/-- What parses at all has a code of three digits. -/
theorem code_of_parses {code : Nat} {reason : Bytes} {fs : List Field}
    {p : HttpHead.ResponseParts} (h : HttpHead.ResponseHead p (responseHead code reason fs)) :
    100 ≤ code ∧ code ≤ 999 := by
  obtain ⟨version, code', reason', fields⟩ := p
  obtain ⟨hversion, ⟨hlen, hdigits⟩, -, rest, -, heq⟩ := h
  rw [responseHead_eq] at heq
  obtain ⟨-, htail⟩ := cut_unique (by decide +kernel) (fun b hb => (hversion.ne b hb).2) heq
  obtain ⟨rfl, -⟩ := cut_unique (fun b hb => (HttpHead.ne_of_isDigit (isDigit_digits code b hb)).2)
    (fun b hb => (HttpHead.ne_of_isDigit (hdigits b hb)).2) htail
  exact length_digits_eq_three.mp hlen

/-- A code of three digits is read back with all that was written. -/
theorem responseHead_readsBack {res : Response} (hreason : isValidFieldValue res.reason = true)
    (hheaders : res.headers.Valid) {framing : WriteFraming} (hrange : framing.InRange)
    (hcode : 100 ≤ res.code ∧ res.code ≤ 999) :
    ReadsBack res framing ((writtenFields res framing).map readBack)
      (responseHead res.code res.reason (writtenFields res framing)) := by
  have hvalue : value 10 (digits 10 res.code) = some res.code :=
    value_digits (by decide) (by decide) res.code
  have hparses : HttpHead.ResponseHead ⟨ascii "HTTP/1.1", digits 10 res.code, res.reason,
      (writtenFields res framing).map readBack⟩
      (responseHead res.code res.reason (writtenFields res framing)) := by
    have hsection := fieldSection_written (writtenFields_valid hheaders framing)
    refine ⟨⟨49, 49, rfl, rfl, rfl⟩, ⟨length_digits_eq_three.mpr hcode, ?_⟩, ?_, _, hsection, ?_⟩
    · exact isDigit_digits res.code
    · exact text_of_isValidFieldValue hreason
    · exact responseHead_eq res.code res.reason (writtenFields res framing)
  refine ⟨⟨_, hvalue, hparses⟩, ?_, ?_⟩
  · intro suffix p head' rest h' heq
    obtain ⟨rfl, rfl⟩ := hparses.unique h' heq
    exact ⟨hvalue, rfl, rfl, rfl, (List.append_cancel_left heq).symm⟩
  · intro hpreserve hstrip
    have hkept : framing.preservesFraming = false := by
      cases framing with
      | preserveFraming => exact absurd rfl hpreserve
      | length n => rfl
      | chunked => rfl
      | stripFraming => rfl
    apply framing_written _ hrange
    intro f hf
    have hf := (List.mem_filter.mp hf).2
    simpa [hkept] using hf

theorem writeResponseTo_wire {res : Response} {framing : WriteFraming} {sink s : Sink}
    (h : writeResponseTo res framing sink = (.ok (), s)) :
    s.wire = sink.wire ++ responseHead res.code res.reason (writtenFields res framing) := by
  have hmeets := writeResponseTo_meets res framing sink
  rw [h] at hmeets
  exact hmeets.1

/-- What is read back has a code of three digits. -/
theorem code_of_writtenAs {res : Response} {framing : WriteFraming} {fields : List Field}
    (h : WrittenAs res framing fields) :
    (100 ≤ res.code ∧ res.code ≤ 999) ∧
      ReadsBack res framing fields (responseHead res.code res.reason (writtenFields res framing)) := by
  have hmeets := writeResponseTo_meets res framing ⟨[], []⟩
  have hready : ∃ s, writeResponseTo res framing ⟨[], []⟩ = (.ok (), s) := by
    generalize writeResponseTo res framing ⟨[], []⟩ = x at hmeets
    obtain ⟨_ | a | e | _, s⟩ := x
    · exact hmeets.elim
    · exact ⟨s, rfl⟩
    · exact absurd (nofun : Sink.Accepting ⟨[], []⟩) hmeets
    · exact hmeets.elim
  obtain ⟨s, hs⟩ := hready
  obtain ⟨head, hwire, hreads⟩ := h ⟨[], []⟩ s hs
  rw [writeResponseTo_wire hs] at hwire
  obtain rfl : responseHead res.code res.reason (writtenFields res framing) = head :=
    List.append_cancel_left hwire
  obtain ⟨code, -, hparses⟩ := hreads.parses
  exact ⟨code_of_parses hparses, hreads⟩

/-- Fields that are read back as they are were written trimmed. -/
theorem trimmed_of_fieldSection {fs : List Field} {x : Bytes} (h : FieldSection fs x) :
    ∀ f ∈ fs, Trimmed f.2 := by
  induction h with
  | nil => exact nofun
  | cons hline hrest ih =>
    intro f hf
    rcases List.mem_cons.mp hf with rfl | hf
    · have htrim : trimOws f.2 = f.2 := hline.2.2.1
      rw [← htrim]
      exact trimmed_trimOws f.2
    · exact ih f hf

/-- A response head is well-formed and is read back as it was meant if and only if its
    code has three digits, for every response that is built or parsed and every framing:
    up to whitespace around a field value, which the grammar does not count to it; and byte
    for byte if no value has any. -/
theorem writeResponseTo_readsBack_iff {h : Httparse} (laws : h.ResponseLaws)
    (headLaws : h.ResponseHeadLaws) {res : Response} (hres : Supplied h res)
    {framing : WriteFraming} (hrange : framing.InRange) :
    (WrittenAs res framing ((writtenFields res framing).map readBack) ↔
      100 ≤ res.code ∧ res.code ≤ 999) ∧
    (WrittenAs res framing (writtenFields res framing) ↔
      (100 ≤ res.code ∧ res.code ≤ 999) ∧ ∀ f ∈ writtenFields res framing, Trimmed f.2) := by
  obtain ⟨hreason, hheaders⟩ := hres.valid laws headLaws
  constructor
  · constructor
    · exact fun hwritten => (code_of_writtenAs hwritten).1
    · intro hcode sink s hok
      exact ⟨_, writeResponseTo_wire hok, responseHead_readsBack hreason hheaders hrange hcode⟩
  · constructor
    · intro hwritten
      obtain ⟨hcode, hreads⟩ := code_of_writtenAs hwritten
      obtain ⟨code, -, -, -, -, rest, hsection, -⟩ := hreads.parses
      exact ⟨hcode, trimmed_of_fieldSection hsection⟩
    · rintro ⟨hcode, htrimmed⟩ sink s hok
      have hsame : (writtenFields res framing).map readBack = writtenFields res framing := by
        conv => rhs; rw [← List.map_id (writtenFields res framing)]
        apply List.map_congr_left
        intro f hf
        rw [readBack, trimOws_of_trimmed (htrimmed f hf)]
        rfl
      have hreads := responseHead_readsBack hreason hheaders hrange hcode
      rw [hsame] at hreads
      exact ⟨_, writeResponseTo_wire hok, hreads⟩

/-- A status line whose code begins with zeros. -/
def zeroPadded : BytesReader :=
  ⟨⟨[]⟩, ⟨ascii "HTTP/1.1 007 OK\r\nA: b\r\n\r\n", 25, by decide⟩⟩

/-- What is parsed of it. -/
def agentResponse : Response := ⟨.http11, 7, ascii "OK", ⟨[(ascii "A", ascii "b")]⟩⟩

theorem agentResponse_supplied : Supplied reference agentResponse := by
  have hparse : (ParseSlots.parseResponse reference ⟨4⟩ zeroPadded).1 =
      .ok (some agentResponse) := by decide +kernel
  exact .parsed ⟨4⟩ zeroPadded _ (Prod.ext hparse rfl)

theorem writeResponseTo_readsBack_iff_agent :
    (WrittenAs agentResponse .chunked ((writtenFields agentResponse .chunked).map readBack) ↔
      100 ≤ agentResponse.code ∧ agentResponse.code ≤ 999) ∧
    (WrittenAs agentResponse .chunked (writtenFields agentResponse .chunked) ↔
      (100 ≤ agentResponse.code ∧ agentResponse.code ≤ 999) ∧
        ∀ f ∈ writtenFields agentResponse .chunked, Trimmed f.2) :=
  writeResponseTo_readsBack_iff responseLaws responseHeadLaws agentResponse_supplied
    (show WriteFraming.InRange .chunked from trivial)

/-- The parser accepts `007`, a builder accepts 7, and what is written for either is
    `HTTP/1.1 7 OK`, which is no status line. -/
theorem agentResponse_not_written :
    Supplied reference agentResponse ∧
      ResponseBuilder.build ⟨some .http11, some 7, some (ascii "OK"),
        [(ascii "A", ascii "b")]⟩ = .ok agentResponse ∧
      responseHead agentResponse.code agentResponse.reason (writtenFields agentResponse .chunked) =
        ascii "HTTP/1.1 7 OK\r\nA: b\r\ntransfer-encoding: chunked\r\n\r\n" ∧
      ¬ WrittenAs agentResponse .chunked ((writtenFields agentResponse .chunked).map readBack) := by
  refine ⟨agentResponse_supplied, rfl, by decide +kernel, ?_⟩
  intro hwritten
  exact absurd (code_of_writtenAs hwritten).1.1 (by decide)

end Jrpxy.Frontend
