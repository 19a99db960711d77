/-
  Jrpxy.HttpMessage.HeadGrammar

  Heads as they are written, read by the grammar.

  The tables of the source are the byte classes of the grammar, so a valid
  field is a field line when it is written, with its value trimmed.  The
  framing field a writer adds is the only one there is, and is read back as
  the framing it stands for (`framing_written`).
-/
import Jrpxy.HttpMessage.WriteHead
import Jrpxy.Lib.HttpHead

namespace Jrpxy.HttpMessage

open Ascii Util SepList HttpHead

/-! ## The tables and the grammar -/

theorem isTchar_eq (b : UInt8) : isTchar b = isValidTchar b :=
  forall_byte (p := fun b => isTchar b = isValidTchar b) (by decide +kernel) b

theorem isFieldVchar_eq (b : UInt8) : isFieldVchar b = isValidFieldVchar b :=
  forall_byte (p := fun b => isFieldVchar b = isValidFieldVchar b) (by decide +kernel) b

theorem isText_eq (b : UInt8) : isText b = isFieldValueByte b := by
  rw [isText, isFieldVchar_eq, isSpace, isFieldValueByte, Bool.or_assoc]

theorem token_of_isValidFieldName {name : Bytes} (h : isValidFieldName name = true) :
    Token name := by
  obtain ⟨hne, hall⟩ := isValidFieldName_iff.mp h
  constructor
  · exact hne
  · intro b hb
    rw [isTchar_eq]
    exact hall b hb

theorem text_of_isValidFieldValue {value : Bytes} (h : isValidFieldValue value = true) :
    Text value := by
  intro b hb
  rw [isText_eq]
  exact isValidFieldValue_iff.mp h b hb

/-! ## Fields -/

/-- A field as it is read back: surrounding whitespace is no part of the value. -/
def readBack (f : Field) : Field := (f.1, trimOws f.2)

theorem fieldLine_written {f : Field} (hname : isValidFieldName f.1 = true)
    (hvalue : isValidFieldValue f.2 = true) :
    ∃ line, FieldLine (readBack f) line ∧ fieldLine f = line ++ crlf := by
  obtain ⟨before, behind, hsplit, hbefore, hbehind⟩ := exists_trim isOws f.2
  have htrim : trim isSpace (trim isOws f.2) = trim isOws f.2 := by
    conv => rhs; rw [hsplit]
    exact ((trim_append_right hbehind _).trans (trim_append_left hbefore _)).symm
  refine ⟨f.1 ++ 58 :: (32 :: before ++ trim isOws f.2 ++ behind), ?_, ?_⟩
  · refine ⟨token_of_isValidFieldName hname, ?_, htrim, 32 :: before, behind, ?_, hbehind, rfl⟩
    · exact text_of_isValidFieldValue (isValidFieldValue_trimOws hvalue)
    · intro b hb
      rcases List.mem_cons.mp hb with rfl | hb
      · rfl
      · exact hbefore b hb
  · rw [fieldLine]
    conv => lhs; rw [hsplit]
    simp [ascii, crlf]

/-- Valid fields are written as a field section. -/
theorem fieldSection_written {fs : List Field} (h : Headers.Valid ⟨fs⟩) :
    FieldSection (fs.map readBack) (fieldLines fs ++ crlf) := by
  induction fs with
  | nil => exact .nil
  | cons f fs ih =>
    obtain ⟨hname, hvalue⟩ := h f List.mem_cons_self
    obtain ⟨line, hline, hwritten⟩ := fieldLine_written hname hvalue
    have hrest := ih fun g hg => h g (List.mem_cons_of_mem f hg)
    rw [fieldLines_cons, hwritten, List.append_assoc]
    exact .cons hline hrest

/-! ## The framing field -/

/-- What a written framing is read back as, unless the fields are passed on as they are. -/
def WriteFraming.parsed : WriteFraming → ParsedFraming
  | .length n => .length n
  | .chunked => .chunked
  | .preserveFraming => .noFraming
  | .stripFraming => .noFraming

/-- A length that is written fits in a `u64`. -/
def WriteFraming.InRange : WriteFraming → Prop
  | .length n => n < 2 ^ 64
  | _ => True

theorem framingFields_valid (framing : WriteFraming) : Headers.Valid ⟨framingFields framing⟩ := by
  cases framing with
  | length n =>
    intro f hf
    obtain rfl := List.mem_singleton.mp hf
    constructor
    · exact (by decide : isValidFieldName (ascii "content-length") = true)
    · have hdigits : ∀ b ∈ digits 10 n, isFieldValueByte b = true :=
        forall_mem_digits (by decide) (fun d hd =>
          isFieldValueByte_of_vchar (isValidFieldVchar_of_isDigit (isDigit_digit hd))) n
      exact isValidFieldValue_iff.mpr hdigits
  | chunked => decide
  | preserveFraming => decide
  | stripFraming => decide

/-- No framing field but the written one is left to be read. -/
theorem framing_written {fs : List Field} (hfs : ∀ f ∈ fs, isFramingHeader f.1 = false)
    {framing : WriteFraming} (hrange : framing.InRange) :
    Headers.framing ⟨(fs ++ framingFields framing).map readBack⟩ = .ok framing.parsed := by
  have hother : ((fs.map readBack).filter fun f => isFramingHeader f.1) = [] := by
    rw [List.filter_eq_nil_iff]
    intro f hf
    obtain ⟨g, hg, rfl⟩ := List.mem_map.mp hf
    rw [Bool.not_eq_true]
    exact hfs g hg
  have hcongr : Headers.framing ⟨(fs ++ framingFields framing).map readBack⟩ =
      Headers.framing ⟨(framingFields framing).map readBack⟩ := by
    apply Headers.framing_congr
    rw [List.map_append, List.filter_append, hother, List.nil_append]
  rw [hcongr]
  cases framing with
  -- the digits that are written denote the length
  | length n =>
    have hcl := contentLengthList_digits hrange (trimOws (trimOws (digits 10 n)))
    have hname : eqIgnoreCase (ascii "content-length") (ascii "content-length") = true := by simp
    have hscan : framingScan none 0 none [readBack (ascii "content-length", digits 10 n)] =
        .ok (some n, 0, none) := by
      have htrim : trimOws (trimOws (digits 10 n)) = trimOws (digits 10 n) :=
        trimOws_of_trimmed (trimmed_trimOws _)
      rw [htrim] at hcl
      rw [readBack, framingScan, if_pos hname]
      dsimp only
      rw [htrim, hcl]
      rfl
    rw [framingFields, List.map_singleton, Headers.framing, hscan]
    rfl
  | chunked => rfl
  | preserveFraming => rfl
  | stripFraming => rfl

end Jrpxy.HttpMessage
