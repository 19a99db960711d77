/-
  Jrpxy.Httparse.WrittenResponse

  The response parser, given what the program writes.

  Responses that are written for a client may be read by another proxy.  What
  that relies on of the third-party parser is some laws more; the reference
  parser keeps them.
-/
import Jrpxy.Frontend.Writer
import Jrpxy.Httparse.Reference

namespace Jrpxy

open Incremental Ascii Util HttpMessage
open Frontend (responseHead)

namespace Httparse

/-- What the program relies on of the response parser, when it reads what it wrote. -/
structure WrittenResponseLaws (h : Httparse) : Prop where
  /-- A status line with a code of three digits and an ASCII reason phrase, possibly empty,
      and a field section are a response head. -/
  complete : ∀ {slots code reason fs}, 100 ≤ code → code ≤ 999 →
    isValidFieldValue reason = true → reason.all (· < 128) = true → Headers.Valid ⟨fs⟩ →
    fs.length ≤ slots →
    ∀ s, ∃ p, h.parseResponse slots (responseHead code reason fs ++ s) =
        .ok (.complete ((responseHead code reason fs).length, p)) ∧
      p.version = 1 ∧ p.code = code ∧
      p.headers.map Header.field = fs.map fun f => (f.1, trimOws f.2)

/-- What the program relies on of the response parser, whatever the number of its slots. -/
structure ResponseSlotLaws (h : Httparse) : Prop where
  /-- More slots than a head needs change nothing. -/
  more_slots : ∀ {slots s n p}, h.parseResponse slots s = .ok (.complete (n, p)) →
    ∀ k, h.parseResponse (slots + k) s = .ok (.complete (n, p))
  /-- The status code is three digits. -/
  digits : ∀ {slots a b c s n p},
    h.parseResponse slots (ascii "HTTP/1.1 " ++ a :: b :: c :: s) = .ok (.complete (n, p)) →
    isDigit a = true ∧ isDigit b = true ∧ isDigit c = true

namespace Reference

/-- A number of three digits. -/
theorem digits_three {n : Nat} (hlow : 100 ≤ n) (hhigh : n ≤ 999) :
    digits 10 n = [digit (n / 100), digit (n / 10 % 10), digit (n % 10)] := by
  rw [digits_eq (by decide), if_neg (by omega), digits_eq (by decide), if_neg (by omega),
    digits_eq (by decide), if_pos (by omega), show n / 10 / 10 % 10 = n / 100 by omega]
  rfl

theorem parseDigit_digit {d : Nat} (hd : d < 10) (s : Bytes) :
    parseDigit (digit d :: s) = .ok (.complete (1, d)) := by
  have hall : ∀ d : Fin 10, isDigit (digit d) = true ∧ (digit d).toNat - 48 = d.val := by decide
  obtain ⟨hdigit, hvalue⟩ := hall ⟨d, hd⟩
  exact element_cons (by rw [if_pos hdigit, hvalue]) s

/-- A written status line is the bytes of the grammar. -/
theorem responseHead_shape {code : Nat} (hlow : 100 ≤ code) (hhigh : code ≤ 999) (reason : Bytes)
    (fs : List Field) (s : Bytes) :
    responseHead code reason fs ++ s = ascii "HTTP/1.1" ++ ([32] ++
      ([digit (code / 100)] ++ ([digit (code / 10 % 10)] ++ ([digit (code % 10)] ++
        (32 :: ((reason ++ [13]) ++ (([10] ++ (fieldLines fs ++ ascii "\r\n")) ++ s))))))) := by
  rw [responseHead, digits_three hlow hhigh]
  simp [show ascii "HTTP/1.1 " = ascii "HTTP/1.1" ++ [32] from rfl,
    show ascii " " = [32] from rfl, show ascii "\r\n" = [13, 10] from rfl]

/-- What stands behind the code of a written head is recognised. -/
theorem restOfResponse_render {slots off code : Nat} {reason : Bytes} {fs : List Field}
    (hreason : isValidFieldValue reason = true) (hascii : reason.all (· < 128) = true)
    (hfs : Headers.Valid ⟨fs⟩) (hlen : fs.length ≤ slots) (s : Bytes) :
    ∃ p, restOfResponse slots off 1 code 32
        ((reason ++ [13]) ++ (([10] ++ (fieldLines fs ++ ascii "\r\n")) ++ s)) =
          .ok (.complete (reason.length + 1 + (1 + ((fieldLines fs).length + 2)), p)) ∧
      p.version = 1 ∧ p.code = code ∧
      p.headers.map Header.field = fs.map fun f => (f.1, trimOws f.2) := by
  obtain ⟨hs, hsec, hfields⟩ := fieldSection_render slots (off + (reason.length + 1) + 1) hfs hlen s
  refine ⟨⟨1, code, ⟨off, reason⟩, hs⟩, ?_, rfl, rfl, hfields⟩
  have hword : word isFieldValueByte (fun w e => (Except.ok (w, e) : Except Error (Bytes × UInt8)))
      ((reason ++ [13]) ++ (([10] ++ (fieldLines fs ++ ascii "\r\n")) ++ s)) =
        .ok (.complete ((reason ++ [13]).length, (reason, 13))) := by
    rw [List.append_assoc, List.singleton_append,
      word_append (isValidFieldValue_iff.mp hreason) (by decide), List.length_append]
    rfl
  have hrest : restOfHead .status slots (off + (reason ++ [13]).length) 13
      (([10] ++ (fieldLines fs ++ ascii "\r\n")) ++ s) =
        .ok (.complete (1 + ((fieldLines fs).length + 2), hs)) := by
    rw [restOfHead, List.append_assoc, seq_append (lineEnd_crlf _ _ _), List.length_append,
      show ([13] : Bytes).length = 1 from rfl, show ([10] : Bytes).length = 1 from rfl, hsec,
      Answer.shift_complete]
  rw [restOfResponse, if_pos rfl, seq_append hword]
  dsimp only
  rw [seq_of_complete hrest]
  simp only [yields, Answer.shift_complete, reasonSlice, if_pos hascii, List.length_append,
    show ([13] : Bytes).length = 1 from rfl]
  rfl

/-- A rendered response head is recognised. -/
theorem parseResponse_render {slots code : Nat} {reason : Bytes} {fs : List Field}
    (hlow : 100 ≤ code) (hhigh : code ≤ 999) (hreason : isValidFieldValue reason = true)
    (hascii : reason.all (· < 128) = true) (hfs : Headers.Valid ⟨fs⟩) (hlen : fs.length ≤ slots)
    (s : Bytes) :
    ∃ p, parseResponse slots (responseHead code reason fs ++ s) =
        .ok (.complete ((responseHead code reason fs).length, p)) ∧
      p.version = 1 ∧ p.code = code ∧
      p.headers.map Header.field = fs.map fun f => (f.1, trimOws f.2) := by
  have hversion : ∀ t, parseVersion (ascii "HTTP/1.1" ++ t) =
      .ok (.complete ((ascii "HTTP/1.1").length, 1)) := by
    intro t
    rw [parseVersion, show ascii "HTTP/1.1" ++ t = ascii "HTTP/1." ++ (49 :: t) from rfl,
      seq_append (exactly_append _ _ _)]
    rfl
  have hcode : 100 * (code / 100) + 10 * (code / 10 % 10) + code % 10 = code := by omega
  obtain ⟨p, hrest, hversion', hcode', hfields⟩ := @restOfResponse_render slots
    ((ascii "HTTP/1.1").length + (([32] : Bytes).length + ([digit (code / 100)].length +
      ([digit (code / 10 % 10)].length + ([digit (code % 10)].length + 1)))))
    (100 * (code / 100) + 10 * (code / 10 % 10) + code % 10) reason fs hreason hascii hfs hlen s
  refine ⟨p, ?_, hversion', hcode'.trans hcode, hfields⟩
  rw [responseHead_shape hlow hhigh, parseResponse, seq_append (hversion _),
    seq_append (exactly_append _ _ _), seq_append (parseDigit_digit (by omega) _),
    seq_append (parseDigit_digit (by omega) _), seq_append (parseDigit_digit (by omega) _),
    seq_element rfl, hrest]
  simp only [Answer.shift_complete, responseHead, digits_three hlow hhigh, List.length_append,
    List.length_cons, List.length_nil, show (ascii "HTTP/1.1 ").length = 9 from rfl,
    show (ascii "HTTP/1.1").length = 8 from rfl,
    show (ascii " ").length = 1 from rfl, show (ascii "\r\n").length = 2 from rfl]
  congr 3
  omega

theorem writtenResponseLaws : reference.WrittenResponseLaws where
  complete hlow hhigh hreason hascii hfs hlen s :=
    parseResponse_render hlow hhigh hreason hascii hfs hlen s

/-- What follows the status code has room with more slots too. -/
theorem restOfResponse_more {slots off n : Nat} {version : UInt8} {code : Nat} {d : UInt8}
    {s : Bytes} {p : ResponseParts}
    (h : restOfResponse slots off version code d s = .ok (.complete (n, p))) (k : Nat) :
    restOfResponse (slots + k) off version code d s = .ok (.complete (n, p)) := by
  unfold restOfResponse at h ⊢
  split at h
  · next hd =>
    rw [if_pos hd]
    obtain ⟨k₁, m, ⟨w, e⟩, hword, h₁, rfl⟩ := seq_complete h
    obtain ⟨k₂, m, headers, hheaders, hp, rfl⟩ := seq_complete h₁
    rw [seq_of_complete hword]
    dsimp only
    rw [seq_of_complete (restOfHead_more hheaders k), hp]
    rfl
  · next hd =>
    rw [if_neg hd]
    obtain ⟨k₁, m, headers, hheaders, hp, rfl⟩ := seq_complete h
    rw [seq_of_complete (restOfHead_more hheaders k), hp]
    rfl

/-- Only the field section has to do with slots. -/
theorem parseResponse_more {slots n : Nat} {s : Bytes} {p : ResponseParts}
    (h : parseResponse slots s = .ok (.complete (n, p))) (k : Nat) :
    parseResponse (slots + k) s = .ok (.complete (n, p)) := by
  obtain ⟨k₁, n₁, version, hversion, h₁, rfl⟩ := seq_complete h
  obtain ⟨k₂, n₂, _, hsp, h₂, rfl⟩ := seq_complete h₁
  obtain ⟨k₃, n₃, a, ha, h₃, rfl⟩ := seq_complete h₂
  obtain ⟨k₄, n₄, b, hb, h₄, rfl⟩ := seq_complete h₃
  obtain ⟨k₅, n₅, c, hc, h₅, rfl⟩ := seq_complete h₄
  obtain ⟨k₆, n₆, d, hd, hrest, rfl⟩ := seq_complete h₅
  rw [parseResponse, seq_of_complete hversion, seq_of_complete hsp, seq_of_complete ha,
    seq_of_complete hb, seq_of_complete hc, seq_of_complete hd, restOfResponse_more hrest k]
  rfl

theorem responseSlotLaws : reference.ResponseSlotLaws where
  more_slots h k := parseResponse_more h k
  digits := by
    intro slots a b c s n p h
    have hparse : parseResponse slots (ascii "HTTP/1.1 " ++ a :: b :: c :: s) =
      .ok (.complete (n, p)) := h
    obtain ⟨x, a', b', c', d, rest, m, version, code, hsplit, -, ⟨-, ha, hb, hc⟩, -⟩ :=
      parseResponse_parts hparse
    have hline : ascii "HTTP/1.1 " = ascii "HTTP/1." ++ [49, 32] := by decide +kernel
    rw [hline, List.append_assoc] at hsplit
    have hcode : [49, 32] ++ a :: b :: c :: s = x :: 32 :: a' :: b' :: c' :: d :: rest :=
      List.append_cancel_left hsplit
    simp only [List.cons_append, List.nil_append, List.cons.injEq] at hcode
    obtain ⟨-, -, rfl, rfl, rfl, -⟩ := hcode
    exact ⟨ha, hb, hc⟩

end Reference

end Httparse

end Jrpxy
