/-
  Jrpxy.HttpMessage.BodyLength

  How far the body behind a head goes, as a recipient works it out.

  This is the recipient's rule, by itself: it knows the method of the request,
  the status code and the fields of the head, and nothing of how the program
  reads or writes one.  What the program accepts is what the rule finds
  (`framedLength_of_framing`), and so is what it writes (`framedLength_written`).
-/
import Jrpxy.HttpMessage.FramingRule
import Jrpxy.HttpMessage.HeadGrammar

namespace Jrpxy.HttpMessage

open Ascii Util SepList

/-- How far a body goes. -/
inductive BodyLength where
  | none
  | chunked
  | length (n : Nat)
  | untilClose
  | invalid
  deriving DecidableEq, Repr

/-- The value of a non-empty string of digits. -/
def decimal (e : Bytes) : Option Nat :=
  if e ≠ [] ∧ e.all isDigit then value 10 e else none

/-- The codings that all `Transfer-Encoding` fields list, in order. -/
def listedCodings (fs : List Field) : List Bytes :=
  (transferEncodingFields fs).flatMap fun f => nonEmptyElements f.2

/-- The length that these elements denote, if all denote the same. -/
def agreedLength : List Bytes → Option Nat
  | [] => none
  | e :: es => (decimal e).filter fun n => es.all fun e => decimal e = some n

/-- The length the framing headers announce: a last coding `chunked` goes before everything,
    another one leaves `unchunked`; then the content length, a repeated one only if it is
    the same; and without any framing header `unframed`. -/
def framedLength (unframed unchunked : BodyLength) (fs : List Field) : BodyLength :=
  match (listedCodings fs).getLast? with
  | some coding => if eqIgnoreCase coding (ascii "chunked") then .chunked else unchunked
  | none =>
    if lengthElements fs = [] then unframed
    else
      match agreedLength (lengthElements fs) with
      | some n => .length n
      | none => .invalid

/-- The body behind a request head. -/
def requestBodyLength (fs : List Field) : BodyLength := framedLength .none .invalid fs

/-- The body behind a response head: none for `HEAD` and for the codes 1xx, 204 and 304,
    whatever the fields say. -/
def responseBodyLength (isHead : Bool) (code : Nat) (fs : List Field) : BodyLength :=
  if isHead = true ∨ (100 ≤ code ∧ code ≤ 199) ∨ code = 204 ∨ code = 304 then .none
  else framedLength .untilClose .untilClose fs

/-! ## What is read -/

/-- The length a parsed framing stands for. -/
def ParsedFraming.bodyLength (unframed : BodyLength) : ParsedFraming → BodyLength
  | .length n => .length n
  | .chunked => .chunked
  | .noFraming => unframed

theorem decimal_of_denotes {n : Nat} {e : Bytes} (h : Denotes n e) : decimal e = some n := by
  rw [decimal, if_pos ⟨h.ne_nil, List.all_eq_true.mpr h.digits⟩, h.value]

/-- Elements that all denote one length agree on it. -/
theorem agreedLength_of_denotes {n : Nat} {es : List Bytes} (hne : es ≠ [])
    (hall : ∀ e ∈ es, Denotes n e) : agreedLength es = some n := by
  cases es with
  | nil => exact absurd rfl hne
  | cons e es =>
    obtain ⟨he, hes⟩ := List.forall_mem_cons.mp hall
    rw [agreedLength, decimal_of_denotes he, Option.filter_some, if_pos]
    rw [List.all_eq_true]
    intro e' he'
    simp [decimal_of_denotes (hes e' he')]

/-- The framing the program accepts is the one a recipient finds by its own rule. -/
theorem framedLength_of_framing (unframed unchunked : BodyLength) {headers : Headers}
    {framing : ParsedFraming} (h : headers.framing = .ok framing) :
    framedLength unframed unchunked headers.headers = framing.bodyLength unframed := by
  have hrule := framing_iff_rule.mp h
  cases framing with
  -- no coding is listed, and all lengths agree
  | length n =>
    obtain ⟨hcodings, hne, -, hall⟩ := hrule
    have hlisted : listedCodings headers.headers = [] := by rw [listedCodings, hcodings]; rfl
    have hne : lengthElements headers.headers ≠ [] := fun h => hne (lengthElements_eq_nil.mp h)
    have hagreed : agreedLength (lengthElements headers.headers) = some n := by
      apply agreedLength_of_denotes hne
      intro e he
      obtain ⟨f, hf, he⟩ := List.mem_flatMap.mp he
      exact hall f hf e he
    rw [framedLength, hlisted]
    simp only [List.getLast?_nil, if_neg hne, hagreed]
    rfl
  -- the one coding that is listed is the last one
  | chunked =>
    obtain ⟨-, f, hf, c, hc, hchunked⟩ := hrule
    have hlisted : listedCodings headers.headers = [c] := by
      rw [listedCodings, hf, List.flatMap_singleton, hc]
    rw [framedLength, hlisted]
    simp only [List.getLast?_singleton, if_pos hchunked]
    rfl
  | noFraming =>
    obtain ⟨hlengths, hcodings⟩ := hrule
    have hlisted : listedCodings headers.headers = [] := by rw [listedCodings, hcodings]; rfl
    have hnone : lengthElements headers.headers = [] := lengthElements_eq_nil.mpr hlengths
    rw [framedLength, hlisted]
    simp only [List.getLast?_nil, if_pos hnone]
    rfl

/-! ## What is written -/

theorem decimal_digits (n : Nat) : decimal (digits 10 n) = some n := by
  have hall : ∀ b ∈ digits 10 n, isDigit b = true :=
    forall_mem_digits (by decide) (fun d hd => isDigit_digit hd) n
  rw [decimal, if_pos ⟨digits_ne_nil 10 n, by simpa using hall⟩]
  exact value_digits (by decide) (by decide) n

/-- A numeral is a list of one element. -/
theorem listElements_digits (n : Nat) : listElements (digits 10 n) = [digits 10 n] := by
  have hdigit : ∀ b ∈ digits 10 n, b ≠ 9 ∧ b ≠ 32 ∧ b ≠ 44 :=
    forall_mem_digits (by decide) (fun d hd => ne_of_isDigit (isDigit_digit hd)) n
  have hcomma : 44 ∉ digits 10 n := fun hmem => (hdigit 44 hmem).2.2 rfl
  rw [listElements, elements_of_not_mem hcomma, trim_of_none]
  intro b hb
  simp [isOws, hdigit b hb]

/-- Framing headers are a part of the fields of either name. -/
theorem filter_framing {fs fs' : List Field} {p : Field → Bool}
    (hp : ∀ f, p f = true → isFramingHeader f.1 = true)
    (h : fs.filter (fun f => isFramingHeader f.1) = fs'.filter fun f => isFramingHeader f.1) :
    fs.filter p = fs'.filter p := by
  have hboth : ∀ gs : List Field,
      (gs.filter fun f => isFramingHeader f.1).filter p = gs.filter p := by
    intro gs
    rw [List.filter_filter]
    apply List.filter_congr
    intro f _
    cases hf : p f with
    | false => rfl
    | true => rw [hp f hf, Bool.and_true]
  rw [← hboth fs, h, hboth fs']

/-- Only framing headers count. -/
theorem framedLength_congr {unframed unchunked : BodyLength} {fs fs' : List Field}
    (h : fs.filter (fun f => isFramingHeader f.1) = fs'.filter fun f => isFramingHeader f.1) :
    framedLength unframed unchunked fs = framedLength unframed unchunked fs' := by
  have hcl : contentLengthFields fs = contentLengthFields fs' := by
    refine filter_framing ?_ h
    intro f hf
    rw [← Bool.not_eq_false, isFramingHeader_eq_false, hf]
    simp
  have hte : transferEncodingFields fs = transferEncodingFields fs' := by
    refine filter_framing ?_ h
    intro f hf
    rw [← Bool.not_eq_false, isFramingHeader_eq_false, hf]
    simp
  rw [framedLength, framedLength, listedCodings, listedCodings, lengthElements, lengthElements,
    hcl, hte]

/-- The length a written framing announces. -/
def WriteFraming.bodyLength (unframed : BodyLength) : WriteFraming → BodyLength
  | .length n => .length n
  | .chunked => .chunked
  | _ => unframed

/-- The framing field alone announces its framing. -/
theorem framedLength_framingFields (unframed unchunked : BodyLength) (framing : WriteFraming) :
    framedLength unframed unchunked (framingFields framing) = framing.bodyLength unframed := by
  cases framing with
  | length n =>
    have hcodings : listedCodings [(ascii "content-length", digits 10 n)] = [] := rfl
    have hlengths : lengthElements [(ascii "content-length", digits 10 n)] = [digits 10 n] := by
      have hfields : contentLengthFields [(ascii "content-length", digits 10 n)] =
          [(ascii "content-length", digits 10 n)] := rfl
      rw [lengthElements, hfields, List.flatMap_singleton, listElements_digits]
    have hagreed : agreedLength [digits 10 n] = some n := by
      rw [agreedLength, decimal_digits]
      rfl
    rw [framingFields, framedLength, hcodings, hlengths]
    simp [hagreed, WriteFraming.bodyLength]
  | chunked =>
    have hcodings : listedCodings [(ascii "transfer-encoding", ascii "chunked")] =
        [ascii "chunked"] := by decide +kernel
    rw [framingFields, framedLength, hcodings]
    rfl
  | preserveFraming => rfl
  | stripFraming => rfl

/-- Beside fields that do not frame, the framing that is written is the one announced. -/
theorem framedLength_written (unframed unchunked : BodyLength) {fs : List Field}
    (hfs : ∀ f ∈ fs, isFramingHeader f.1 = false) (framing : WriteFraming) :
    framedLength unframed unchunked (fs ++ framingFields framing) =
      framing.bodyLength unframed := by
  rw [← framedLength_framingFields unframed unchunked framing]
  apply framedLength_congr
  have hnone : fs.filter (fun f => isFramingHeader f.1) = [] := by
    rw [List.filter_eq_nil_iff]
    intro f hf
    rw [hfs f hf]
    exact Bool.false_ne_true
  rw [List.filter_append, hnone, List.nil_append]

/-- The framing field has nothing to trim. -/
theorem readBack_framingFields (framing : WriteFraming) :
    (framingFields framing).map readBack = framingFields framing := by
  cases framing with
  | length n =>
    have hows : ∀ b ∈ digits 10 n, isOws b = false := by
      refine forall_mem_digits (by decide) (fun d hd => ?_) n
      have hne := ne_of_isDigit (isDigit_digit hd)
      simp [isOws, hne]
    have htrim : trimOws (digits 10 n) = digits 10 n := by
      apply trimOws_of_trimmed
      constructor
      · exact fun b hb => hows b (List.mem_of_mem_head? hb)
      · exact fun b hb => hows b (List.mem_of_mem_getLast? hb)
    simp [framingFields, readBack, htrim]
  | chunked => rfl
  | preserveFraming => rfl
  | stripFraming => rfl

end Jrpxy.HttpMessage
