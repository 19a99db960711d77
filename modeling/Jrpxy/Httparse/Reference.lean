/-
  Jrpxy.Httparse.Reference

  A concrete parser with the properties the program relies on.

  It recognises the same grammars as the third-party parser on well-formed
  input (no empty lines before a start line here) and returns slices with
  their true positions.  It shows that the laws can be met, and it is what
  concrete runs are evaluated with.
-/
import Jrpxy.Httparse

namespace Jrpxy.Httparse.Reference

open Incremental Ascii Utf8 Util HttpMessage

/-! ## Chunk sizes -/

/-- LF, after the CR of a size line. -/
def sizeLF (v : Nat) : Bytes → Answer InvalidChunkSize Nat :=
  element fun b => if b = 10 then .ok v else .error .mk

/-- A chunk extension, to the CR. -/
def sizeExt (v : Nat) : Bytes → Answer InvalidChunkSize Nat :=
  seq (word (· != 13) fun _ _ => .ok ()) fun _ _ => sizeLF v

/-- Whitespace behind the digits. -/
def sizeOws (v : Nat) : Bytes → Answer InvalidChunkSize Nat :=
  seq (word isOws fun _ d => if d = 13 ∨ d = 59 then .ok d else .error .mk) fun _ d =>
    if d = 13 then sizeLF v else sizeExt v

/-- At most sixteen digits, and a byte that may follow them. -/
def sizeDigits (w : Bytes) (d : UInt8) : Except InvalidChunkSize (Nat × UInt8) :=
  if w.length ≤ 16 ∧ d ∈ ascii " \t;\r" then .ok ((value 16 w).getD 0 % 2 ^ 64, d)
  else .error .mk

/-- What follows the digits. -/
def sizeRest (x : Nat × UInt8) : Bytes → Answer InvalidChunkSize Nat :=
  if x.2 = 13 then sizeLF x.1 else if x.2 = 59 then sizeExt x.1 else sizeOws x.1

/-- A chunk-size line. -/
def parseChunkSize : Bytes → Answer InvalidChunkSize Nat :=
  seq (word isHexDigit sizeDigits) fun _ => sizeRest

theorem sizeLF_streamParser (v : Nat) : StreamParser (sizeLF v) := element_streamParser _

theorem sizeExt_streamParser (v : Nat) : StreamParser (sizeExt v) :=
  (word_streamParser _ _).seq fun _ _ => sizeLF_streamParser v

theorem sizeOws_streamParser (v : Nat) : StreamParser (sizeOws v) := by
  refine (word_streamParser _ _).seq fun _ d => ?_
  by_cases hd : d = 13
  · simpa [hd] using sizeLF_streamParser v
  · simpa [hd] using sizeExt_streamParser v

theorem sizeRest_streamParser (x : Nat × UInt8) : StreamParser (sizeRest x) := by
  unfold sizeRest
  by_cases hcr : x.2 = 13
  · simpa [hcr] using sizeLF_streamParser x.1
  by_cases hext : x.2 = 59
  · simpa [hcr, hext] using sizeExt_streamParser x.1
  · simpa [hcr, hext] using sizeOws_streamParser x.1

theorem sizeLF_value {v v' n : Nat} {s : Bytes} (h : sizeLF v s = .ok (.complete (n, v'))) :
    v' = v := by
  obtain ⟨b, rest, -, hc, -⟩ := element_complete h
  split at hc
  · cases hc
    rfl
  · cases hc

theorem sizeExt_value {v v' n : Nat} {s : Bytes} (h : sizeExt v s = .ok (.complete (n, v'))) :
    v' = v := by
  obtain ⟨_, _, _, _, hlf, _⟩ := seq_complete h
  exact sizeLF_value hlf

/-- Nothing behind the digits changes the value. -/
theorem sizeRest_value {x : Nat × UInt8} {v n : Nat} {s : Bytes}
    (h : sizeRest x s = .ok (.complete (n, v))) : v = x.1 := by
  unfold sizeRest at h
  split at h
  · exact sizeLF_value h
  · split at h
    · exact sizeExt_value h
    · obtain ⟨_, _, d, _, hd, _⟩ := seq_complete h
      split at hd
      · exact sizeLF_value hd
      · exact sizeExt_value hd

theorem parseChunkSize_streamParser : StreamParser parseChunkSize :=
  (word_streamParser _ _).seq fun _ x => sizeRest_streamParser x

/-- The digits, whatever follows them. -/
theorem parseChunkSize_lt {s : Bytes} {n v : Nat}
    (h : parseChunkSize s = .ok (.complete (n, v))) : v < 2 ^ 64 := by
  obtain ⟨_, _, x, hdigits, hrest, -⟩ := seq_complete h
  obtain ⟨w, d, rest, -, -, -, hc, -⟩ := word_complete hdigits
  rw [sizeRest_value hrest]
  unfold sizeDigits at hc
  split at hc
  · cases hc
    exact Nat.mod_lt _ (by decide)
  · cases hc

/-- Sixteen digits fit, so nothing of their value is lost. -/
theorem parseChunkSize_hex {hs : Bytes} {v : Nat} (hlen : hs.length ≤ 16)
    (hhex : ∀ b ∈ hs, isHexDigit b = true) (hv : value 16 hs = some v) (s : Bytes) :
    parseChunkSize (hs ++ ascii "\r\n" ++ s) = .ok (.complete (hs.length + 2, v)) := by
  have hlt : v < 2 ^ 64 := by
    have hpow := value_lt hs hv
    have hle : 16 ^ hs.length ≤ 16 ^ 16 := Nat.pow_le_pow_right (by decide) hlen
    omega
  have hdigits : sizeDigits hs 13 = .ok (v, 13) := by
    rw [sizeDigits, if_pos ⟨hlen, by decide⟩, hv, Option.getD_some, Nat.mod_eq_of_lt hlt]
  have hshape : hs ++ ascii "\r\n" ++ s = hs ++ 13 :: 10 :: s := by simp [ascii]
  rw [hshape, parseChunkSize, seq_word hhex (by decide) hdigits]
  rfl

/-- A byte that begins no size line is rejected at once. -/
theorem parseChunkSize_first {b : UInt8} (hb : isHexDigit b = false)
    (hmem : b ∉ ascii " \t;\r") (s : Bytes) : parseChunkSize (b :: s) = .error .mk := by
  have hcheck : sizeDigits [] b = .error .mk := by
    rw [sizeDigits, if_neg fun h => hmem h.2]
  have hword := @word_append _ _ _ isHexDigit sizeDigits [] b (by simp) hb s
  rw [List.nil_append, hcheck] at hword
  rw [parseChunkSize, seq, hword]
  rfl

/-! ## Field sections -/

/-- LF, after the CR of a line. -/
def lineLF {α : Type} (e : Error) (a : α) : Bytes → Answer Error α :=
  element fun b => if b = 10 then .ok a else .error e

/-- The end of a line whose first byte `d` has been read. -/
def lineEnd {α : Type} (e : Error) (d : UInt8) (a : α) : Bytes → Answer Error α :=
  if d = 10 then yields a else if d = 13 then lineLF e a else rejects e

/-- Trim trailing whitespace. -/
def trimEnd (value : Bytes) : Bytes := (value.reverse.dropWhile isOws).reverse

/-- The value of a field line; `d` is its first byte that is not whitespace and
    `off` where that lies. -/
def headerValue (name : Slice) (off : Nat) (d : UInt8) : Bytes → Answer Error Header :=
  if isFieldValueByte d then
    seq (word isFieldValueByte fun w e => .ok (w, e)) fun _ (w, e) =>
      lineEnd .headerValue e ⟨name, ⟨off, trimEnd (d :: w)⟩⟩
  else lineEnd .headerValue d ⟨name, ⟨off, []⟩⟩

/-- A field line at `off` whose first byte `b` has been read. -/
def headerLine (off : Nat) (b : UInt8) : Bytes → Answer Error Header :=
  seq (word isValidTchar fun w d =>
      if isValidTchar b = true ∧ d = 58 then .ok (b :: w) else .error .headerName) fun _ name =>
    seq (word isOws fun w d => .ok (w, d)) fun _ (ws, d) =>
      headerValue ⟨off, name⟩ (off + name.length + 1 + ws.length) d

/-- At most `slots` field lines and an empty line, from `off`. -/
def fieldSection : Nat → Nat → Bytes → Answer Error (List Header)
  | 0, _ =>
    seq (element Except.ok) fun _ b =>
      if b = 13 ∨ b = 10 then lineEnd .newLine b [] else rejects .tooManyHeaders
  | slots + 1, off =>
    seq (element Except.ok) fun _ b =>
      if b = 13 ∨ b = 10 then lineEnd .newLine b []
      else
        seq (headerLine off b) fun n x =>
          seq (fieldSection slots (off + 1 + n)) fun _ xs => yields (x :: xs)

/-- A field section. -/
def parseHeaders (slots : Nat) : Bytes → Answer Error (List Header) := fieldSection slots 0

theorem lineEnd_streamParser {α : Type} (e : Error) (d : UInt8) (a : α) :
    StreamParser (lineEnd e d a) := by
  unfold lineEnd
  by_cases hlf : d = 10
  · rw [if_pos hlf]
    exact yields_streamParser a
  rw [if_neg hlf]
  by_cases hcr : d = 13
  · rw [if_pos hcr]
    exact element_streamParser _
  · rw [if_neg hcr]
    exact rejects_streamParser e

theorem headerValue_streamParser (name : Slice) (off : Nat) (d : UInt8) :
    StreamParser (headerValue name off d) := by
  unfold headerValue
  by_cases hd : isFieldValueByte d = true
  · rw [if_pos hd]
    exact (word_streamParser _ _).seq fun _ _ => lineEnd_streamParser _ _ _
  · rw [if_neg hd]
    exact lineEnd_streamParser _ _ _

theorem headerLine_streamParser (off : Nat) (b : UInt8) : StreamParser (headerLine off b) :=
  (word_streamParser _ _).seq fun _ _ =>
    (word_streamParser _ _).seq fun _ _ => headerValue_streamParser _ _ _

theorem fieldSection_streamParser (slots off : Nat) : StreamParser (fieldSection slots off) := by
  induction slots generalizing off with
  | zero =>
    refine (element_streamParser _).seq fun _ b => ?_
    by_cases hb : b = 13 ∨ b = 10
    · rw [if_pos hb]
      exact lineEnd_streamParser _ _ _
    · rw [if_neg hb]
      exact rejects_streamParser _
  | succ slots ih =>
    refine (element_streamParser _).seq fun _ b => ?_
    by_cases hb : b = 13 ∨ b = 10
    · rw [if_pos hb]
      exact lineEnd_streamParser _ _ _
    · rw [if_neg hb]
      exact (headerLine_streamParser _ _).seq fun n _ => (ih _).seq fun _ _ => yields_streamParser _

/-! ### What is recognised -/

/-- A slice that stands where it says it does. -/
theorem within_of_append (pre post : Bytes) {buf bytes : Bytes} {off : Nat}
    (h : buf = pre ++ bytes ++ post) (hoff : off = pre.length) :
    Slice.Within ⟨off, bytes⟩ buf := by
  subst h hoff
  refine ⟨Int.natCast_nonneg _, ?_, ?_⟩
  · simp only [List.length_append]
    omega
  · simp

/-- A slice within a part lies within the whole. -/
theorem Within.append {sl : Slice} {buf : Bytes} (h : sl.Within buf) (post : Bytes) :
    sl.Within (buf ++ post) := by
  obtain ⟨hpos, hle, hbytes⟩ := h
  refine ⟨hpos, by rw [List.length_append]; omega, ?_⟩
  have hstart : sl.start.toNat ≤ buf.length := by omega
  rw [List.drop_append_of_le_length hstart, List.take_append_of_le_length, ← hbytes]
  rw [List.length_drop]
  omega

theorem lineEnd_complete {α : Type} {e : Error} {d : UInt8} {a a' : α} {s : Bytes} {n : Nat}
    (h : lineEnd e d a s = .ok (.complete (n, a'))) : a' = a ∧ n ≤ s.length := by
  refine ⟨?_, (lineEnd_streamParser e d a).length_le h⟩
  unfold lineEnd at h
  split at h
  · cases h
    rfl
  · split at h
    · obtain ⟨b, rest, -, hc, -⟩ := element_complete h
      split at hc
      · cases hc
        rfl
      · cases hc
    · cases h

/-- A line ends with LF, with or without CR. -/
theorem isLineEnd_of_lineEnd {α : Type} {e : Error} {d : UInt8} {a a' : α} {s : Bytes} {n : Nat}
    (h : lineEnd e d a s = .ok (.complete (n, a'))) : isLineEnd d = true := by
  unfold lineEnd at h
  split at h
  · next hlf => rw [hlf]; rfl
  · split at h
    · next hcr => rw [hcr]; rfl
    · cases h

theorem trimEnd_eq (value : Bytes) : ∃ ws, value = trimEnd value ++ ws := by
  obtain ⟨l, hl⟩ := List.dropWhile_suffix isOws (l := value.reverse)
  refine ⟨l.reverse, ?_⟩
  rw [trimEnd, ← List.reverse_append, hl, List.reverse_reverse]

/-- A value that does not begin with whitespace is trimmed at its end. -/
theorem trimmed_trimEnd {d : UInt8} (hd : isOws d = false) (w : Bytes) :
    Trimmed (trimEnd (d :: w)) := by
  have heq : trimEnd (d :: w) = trimOws (d :: w) := by
    rw [trimOws, List.dropWhile_cons_of_neg (by simp [hd])]
    rfl
  rw [heq]
  exact trimmed_trimOws _

/-- A field value lies where it says it does, and is well-formed. -/
theorem headerValue_complete (pre : Bytes) {name : Slice} {off : Nat} {d : UInt8} {s : Bytes}
    {n : Nat} {x : Header} (h : headerValue name off d s = .ok (.complete (n, x)))
    (hd : isOws d = false) (hpre : off = pre.length) :
    n ≤ s.length ∧ x.name = name ∧ x.value.Within (pre ++ d :: s.take n) ∧
      isValidFieldValue x.value.bytes = true ∧ Trimmed x.value.bytes := by
  refine ⟨(headerValue_streamParser name off d).length_le h, ?_⟩
  unfold headerValue at h
  split at h
  · next hvalue =>
    obtain ⟨k, m, ⟨w, e⟩, hword, hend, rfl⟩ := seq_complete h
    obtain ⟨w', e', rest, rfl, hw, -, hc, rfl⟩ := word_complete hword
    cases hc
    obtain ⟨rfl, -⟩ := lineEnd_complete hend
    have hvalid : isValidFieldValue (d :: w) = true := by
      rw [isValidFieldValue_iff]
      intro b hb
      rcases List.mem_cons.mp hb with rfl | hb
      · exact hvalue
      · exact hw b hb
    -- what is trimmed off stands behind the value in the buffer
    obtain ⟨ws, hws⟩ := trimEnd_eq (d :: w)
    refine ⟨rfl, ?_, ?_, trimmed_trimEnd hd w⟩
    · refine within_of_append pre (ws ++ (e :: rest).take (m + 1)) ?_ hpre
      have htake : (w ++ e :: rest).take (w.length + 1 + m) = w ++ (e :: rest).take (m + 1) := by
        rw [Nat.add_assoc, Nat.add_comm 1 m, List.take_length_add_append]
      rw [htake, ← List.cons_append]
      conv => lhs; rw [hws]
      simp
    · rw [isValidFieldValue_iff] at hvalid ⊢
      intro b hb
      apply hvalid
      rw [hws]
      exact List.mem_append_left ws hb
  · obtain ⟨rfl, -⟩ := lineEnd_complete h
    refine ⟨rfl, ?_, rfl, ?_⟩
    · exact within_of_append pre (d :: s.take n) (by simp) hpre
    · exact ⟨by simp, by simp⟩

/-- A field line lies where it says it does, and is well-formed. -/
theorem headerLine_complete (pre : Bytes) {off : Nat} {b : UInt8} {s : Bytes} {n : Nat} {x : Header}
    (h : headerLine off b s = .ok (.complete (n, x))) (hpre : off = pre.length) :
    x.Within (pre ++ b :: s.take n) ∧ x.WellFormed := by
  obtain ⟨k, m, name, hname, hrest, rfl⟩ := seq_complete h
  obtain ⟨w, c, rest, rfl, hw, -, hc, rfl⟩ := word_complete hname
  split at hc
  · next hb =>
    cases hc
    have hdrop : (w ++ c :: rest).drop (w.length + 1) = rest := by
      rw [List.drop_length_add_append]
      rfl
    rw [hdrop] at hrest
    obtain ⟨k, m, ⟨ws, d⟩, hows, hvalue, rfl⟩ := seq_complete hrest
    obtain ⟨ws', d', rest', rfl, -, hd, hc, rfl⟩ := word_complete hows
    cases hc
    have hdrop : (ws ++ d :: rest').drop (ws.length + 1) = rest' := by
      rw [List.drop_length_add_append]
      rfl
    rw [hdrop] at hvalue
    -- what stands before the value
    obtain ⟨-, hxname, hwithin, hvalid, htrim⟩ :=
      headerValue_complete (pre ++ b :: w ++ c :: ws) hvalue hd (by
        simp only [List.length_append, List.length_cons]
        omega)
    have hbuf : pre ++ b :: (w ++ c :: (ws ++ d :: rest')).take
          (w.length + 1 + (ws.length + 1 + m)) =
        pre ++ b :: w ++ c :: ws ++ d :: rest'.take m := by
      have h1 : (w ++ c :: (ws ++ d :: rest')).take (w.length + 1 + (ws.length + 1 + m)) =
          w ++ (c :: (ws ++ d :: rest')).take (ws.length + 1 + m + 1) := by
        rw [show w.length + 1 + (ws.length + 1 + m) = w.length + (ws.length + 1 + m + 1) by omega,
          List.take_length_add_append]
      have h2 : (ws ++ d :: rest').take (ws.length + 1 + m) = ws ++ (d :: rest').take (m + 1) := by
        rw [show ws.length + 1 + m = ws.length + (m + 1) by omega, List.take_length_add_append]
      rw [h1, List.take_succ_cons, h2, List.take_succ_cons]
      simp
    rw [hbuf]
    refine ⟨⟨?_, hwithin⟩, ?_, hvalid, htrim⟩
    · rw [hxname]
      exact within_of_append pre (c :: ws ++ d :: rest'.take m) (by simp) hpre
    · rw [hxname, isValidFieldName_iff]
      refine ⟨by simp, fun y hy => ?_⟩
      rcases List.mem_cons.mp hy with rfl | hy
      · exact hb.1
      · exact hw y hy
  · cases hc

/-- The headers of a section lie where they say they do, and are well-formed. -/
theorem fieldSection_complete (pre : Bytes) {slots off : Nat} {s : Bytes} {n : Nat}
    {hs : List Header} (h : fieldSection slots off s = .ok (.complete (n, hs))) (hpre : off = pre.length) :
    hs.length ≤ slots ∧ ∀ x ∈ hs, x.Within (pre ++ s.take n) ∧ x.WellFormed := by
  induction slots generalizing off s pre n hs with
  | zero =>
    obtain ⟨k, m, b, -, hend, rfl⟩ := seq_complete h
    split at hend
    · obtain ⟨rfl, -⟩ := lineEnd_complete hend
      exact ⟨Nat.le_refl _, by simp⟩
    · cases hend
  | succ slots ih =>
    obtain ⟨k, m, b, hb, hend, rfl⟩ := seq_complete h
    obtain ⟨b', rest, rfl, hc, rfl⟩ := element_complete hb
    cases hc
    split at hend
    · obtain ⟨rfl, -⟩ := lineEnd_complete hend
      exact ⟨Nat.zero_le _, by simp⟩
    · obtain ⟨k, m, x, hline, hmore, rfl⟩ := seq_complete hend
      obtain ⟨k', m', xs, hsec, hy, rfl⟩ := seq_complete hmore
      cases hy
      rw [List.drop_succ_cons, List.drop_zero] at hline hsec
      have hk := (headerLine_streamParser off b).length_le hline
      obtain ⟨hxw, hxf⟩ := headerLine_complete pre hline hpre
      -- the rest of the section lies behind this line
      obtain ⟨hlen, hxs⟩ := ih (pre ++ b :: rest.take k) hsec (by
        rw [List.length_append, List.length_cons, List.length_take, Nat.min_eq_left hk]
        omega)
      have hbuf : pre ++ (b :: rest).take (1 + (k + (k' + 0))) =
          pre ++ b :: rest.take k ++ (rest.drop k).take k' := by
        rw [Nat.add_zero, Nat.add_comm 1, List.take_succ_cons, List.take_add]
        simp
      rw [hbuf]
      refine ⟨by rw [List.length_cons]; omega, fun y hy => ?_⟩
      rcases List.mem_cons.mp hy with rfl | hy
      · exact ⟨⟨Within.append hxw.1 _, Within.append hxw.2 _⟩, hxf⟩
      · exact hxs y hy

/-- A section that has room still has room with more slots. -/
theorem fieldSection_more {slots off : Nat} {s : Bytes} {n : Nat} {hs : List Header}
    (h : fieldSection slots off s = .ok (.complete (n, hs))) (k : Nat) :
    fieldSection (slots + k) off s = .ok (.complete (n, hs)) := by
  induction slots generalizing off s n hs with
  | zero =>
    obtain ⟨k₁, m, b, hb, hend, rfl⟩ := seq_complete h
    split at hend
    · next hcr =>
      cases k with
      | zero => exact h
      | succ k =>
        rw [Nat.zero_add, fieldSection, seq_of_complete hb, if_pos hcr, hend]
        rfl
    · cases hend
  | succ slots ih =>
    obtain ⟨k₁, m, b, hb, hend, rfl⟩ := seq_complete h
    rw [Nat.add_right_comm, fieldSection, seq_of_complete hb]
    split at hend
    · next hcr =>
      rw [if_pos hcr, hend]
      rfl
    · next hcr =>
      obtain ⟨k₂, m₂, x, hline, hmore, rfl⟩ := seq_complete hend
      obtain ⟨k₃, m₃, xs, hsec, hy, rfl⟩ := seq_complete hmore
      cases hy
      rw [if_neg hcr, seq_of_complete hline, seq_of_complete (ih hsec)]
      rfl

/-! ### What is written is recognised -/

theorem lineEnd_crlf {α : Type} (e : Error) (a : α) (s : Bytes) :
    lineEnd e 13 a (10 :: s) = .ok (.complete (1, a)) := rfl

/-- A value behind its leading whitespace, with the line end. -/
theorem headerValue_render (name : Slice) (off : Nat) {d : UInt8} {t : Bytes} (s : Bytes)
    (h : isValidFieldValue (d :: t) = true) :
    headerValue name off d (t ++ 13 :: 10 :: s) =
      .ok (.complete (t.length + 2, ⟨name, ⟨off, trimEnd (d :: t)⟩⟩)) := by
  rw [isValidFieldValue_iff] at h
  rw [headerValue, if_pos (h d List.mem_cons_self),
    seq_word (fun b hb => h b (List.mem_cons_of_mem d hb)) (by decide) rfl]
  rfl

/-- A rendered field line is recognised, and its value trimmed. -/
theorem headerLine_render (off : Nat) {b : UInt8} {w value : Bytes}
    (hname : isValidFieldName (b :: w) = true) (hvalue : isValidFieldValue value = true)
    (s : Bytes) :
    ∃ x, headerLine off b (w ++ ascii ": " ++ value ++ ascii "\r\n" ++ s) =
        .ok (.complete (w.length + value.length + 4, x)) ∧ x.field = (b :: w, trimOws value) := by
  rw [isValidFieldName_iff] at hname
  have htchar := hname.2
  have hshape : w ++ ascii ": " ++ value ++ ascii "\r\n" ++ s =
      w ++ 58 :: 32 :: (value ++ 13 :: 10 :: s) := by
    simp [ascii]
  rw [hshape, headerLine,
    seq_word (a := b :: w) (fun y hy => htchar y (List.mem_cons_of_mem b hy)) (by decide)
      (by rw [if_pos ⟨htchar b List.mem_cons_self, rfl⟩])]
  -- the whitespace in front of the value is ours and its own
  have hsplit := List.takeWhile_append_dropWhile (p := isOws) (l := value)
  have hows : ∀ y ∈ 32 :: value.takeWhile isOws, isOws y = true := by
    intro y hy
    rcases List.mem_cons.mp hy with rfl | hy
    · rfl
    · exact List.all_eq_true.mp List.all_takeWhile y hy
  rcases hdrop : value.dropWhile isOws with _ | ⟨d, t⟩
  -- there is nothing else: the value found is empty
  · rw [hdrop, List.append_nil] at hsplit
    have htrim : trimOws value = [] := by rw [trimOws, hdrop]; rfl
    rw [hsplit] at hows
    rw [← List.cons_append, seq_word hows (by decide) rfl]
    refine ⟨⟨⟨off, b :: w⟩, ⟨(off + (b :: w).length + 1 + (32 :: value).length : Nat), []⟩⟩, ?_,
      by rw [htrim]; rfl⟩
    simp only
    rw [headerValue, if_neg (by decide), lineEnd_crlf, Answer.shift_complete,
      Answer.shift_complete, List.length_cons]
    congr 3
    omega
  -- the value found begins behind it, and is trimmed at its end
  · rw [hdrop] at hsplit
    have hd : isOws d = false := by
      have hnot := List.head?_dropWhile_not isOws value
      rw [hdrop] at hnot
      simpa using hnot
    have htrim : trimOws value = trimEnd (d :: t) := by rw [trimOws, hdrop]; rfl
    have hvalid : isValidFieldValue (d :: t) = true := by
      rw [isValidFieldValue_iff] at hvalue ⊢
      intro y hy
      apply hvalue
      rw [← hsplit]
      exact List.mem_append_right _ hy
    have hlen : value.length = (value.takeWhile isOws).length + (t.length + 1) := by
      conv => lhs; rw [← hsplit]
      simp
    have hval : 32 :: (value ++ 13 :: 10 :: s) =
        (32 :: value.takeWhile isOws) ++ d :: (t ++ 13 :: 10 :: s) := by
      conv => lhs; rw [← hsplit]
      simp
    rw [hval, seq_word hows hd rfl]
    refine ⟨⟨⟨off, b :: w⟩, ⟨(off + (b :: w).length + 1 +
      (32 :: value.takeWhile isOws).length : Nat), trimEnd (d :: t)⟩⟩, ?_, by rw [htrim]; rfl⟩
    simp only
    rw [headerValue_render _ _ s hvalid, Answer.shift_complete, Answer.shift_complete,
      List.length_cons]
    congr 3
    omega

/-- A rendered field section is recognised, and its values trimmed. -/
theorem fieldSection_render (slots off : Nat) {fs : List Field} (hfs : Headers.Valid ⟨fs⟩)
    (hlen : fs.length ≤ slots) (s : Bytes) :
    ∃ hs, fieldSection slots off (fieldLines fs ++ ascii "\r\n" ++ s) =
        .ok (.complete ((fieldLines fs).length + 2, hs)) ∧
      hs.map Header.field = fs.map fun f => (f.1, trimOws f.2) := by
  induction fs generalizing slots off with
  | nil =>
    refine ⟨[], ?_, rfl⟩
    cases slots with
    | zero => rfl
    | succ slots => rfl
  | cons f fs ih =>
    obtain ⟨name, value⟩ := f
    obtain ⟨hname, hvalue⟩ := hfs (name, value) List.mem_cons_self
    rcases name with _ | ⟨b, w⟩
    · exact absurd rfl (isValidFieldName_iff.mp hname).1
    cases slots with
    | zero => exact absurd hlen (by simp)
    | succ slots =>
      have hb := ne_of_isValidTchar ((isValidFieldName_iff.mp hname).2 b List.mem_cons_self)
      obtain ⟨x, hx, hfield⟩ := headerLine_render off hname hvalue
        (fieldLines fs ++ ascii "\r\n" ++ s)
      obtain ⟨xs, hxs, hfields⟩ := ih slots (off + 1 + (w.length + value.length + 4))
        (fun g hg => hfs g (List.mem_cons_of_mem _ hg)) (Nat.le_of_succ_le_succ hlen)
      refine ⟨x :: xs, ?_, by rw [List.map_cons, hfield, hfields]; rfl⟩
      have hshape : fieldLines ((b :: w, value) :: fs) ++ ascii "\r\n" ++ s =
          b :: (w ++ ascii ": " ++ value ++ ascii "\r\n" ++
            (fieldLines fs ++ ascii "\r\n" ++ s)) := by
        simp [fieldLine]
      have hll : (w ++ ascii ": " ++ value ++ ascii "\r\n").length =
          w.length + value.length + 4 := by
        simp only [List.length_append, show (ascii ": ").length = 2 from rfl,
          show (ascii "\r\n").length = 2 from rfl]
        omega
      rw [hshape, fieldSection, seq_element rfl, if_neg (by simp [hb]),
        seq_append (by rw [hll]; exact hx), hll, seq_append (a := xs) (x := fieldLines fs ++
          ascii "\r\n") (by rw [hxs, List.length_append]; rfl)]
      simp only [yields, Answer.shift_complete, fieldLines_cons, List.length_append, fieldLine,
        List.length_cons, show (ascii ": ").length = 2 from rfl,
        show (ascii "\r\n").length = 2 from rfl]
      congr 3
      omega

/-! ## Start lines -/

/-- These bytes and no others. -/
def exactly (e : Error) : Bytes → Bytes → Answer Error Unit
  | [] => yields ()
  | b :: bs => seq (element fun x => if x = b then .ok () else .error e) fun _ _ => exactly e bs

/-- `HTTP/1.0` or `HTTP/1.1`, as the minor version. -/
def parseVersion : Bytes → Answer Error UInt8 :=
  seq (exactly .version (ascii "HTTP/1.")) fun _ _ =>
    element fun x => if x = 48 then .ok 0 else if x = 49 then .ok 1 else .error .version

/-- The end of a start line and the field section behind it, at `off`. -/
def restOfHead (e : Error) (slots off : Nat) (d : UInt8) : Bytes → Answer Error (List Header) :=
  seq (lineEnd e d ()) fun k _ => fieldSection slots (off + k)

/-- A word of a start line, up to the space behind it, where the whole is checked. -/
def startWord (p : UInt8 → Bool) (check : Bytes → Bool) : Bytes → Answer Error Bytes :=
  word p fun w d => if w ≠ [] ∧ check w = true ∧ d = 32 then .ok w else .error .token

/-- A request head. -/
def parseRequest (slots : Nat) : Bytes → Answer Error RequestParts :=
  seq (startWord isValidTchar fun _ => true) fun k₁ method =>
    seq (startWord isValidFieldVchar fun w => decide (IsUtf8 w)) fun k₂ path =>
      seq parseVersion fun k₃ version =>
        seq (element Except.ok) fun k₄ d =>
          seq (restOfHead .newLine slots (k₁ + (k₂ + (k₃ + k₄))) d) fun _ headers =>
            yields ⟨⟨0, method⟩, ⟨k₁, path⟩, version, headers⟩

/-- A decimal digit. -/
def parseDigit : Bytes → Answer Error Nat :=
  element fun b => if isDigit b then .ok (b.toNat - 48) else .error .status

/-- The static empty string; it is nowhere in a buffer. -/
def staticEmpty : Slice := ⟨-1, []⟩

/-- The reason phrase at `off`. -/
def reasonSlice (off : Nat) (phrase : Bytes) : Slice :=
  if phrase.all (· < 128) then ⟨off, phrase⟩ else staticEmpty

/-- What follows the status code. -/
def restOfResponse (slots off : Nat) (version : UInt8) (code : Nat) (d : UInt8) :
    Bytes → Answer Error ResponseParts :=
  if d = 32 then
    seq (word isFieldValueByte fun w e => .ok (w, e)) fun k (w, e) =>
      seq (restOfHead .status slots (off + k) e) fun _ headers =>
        yields ⟨version, code, reasonSlice off w, headers⟩
  else
    seq (restOfHead .status slots off d) fun _ headers =>
      yields ⟨version, code, staticEmpty, headers⟩

/-- A response head. -/
def parseResponse (slots : Nat) : Bytes → Answer Error ResponseParts :=
  seq parseVersion fun k₁ version =>
    seq (exactly .status [32]) fun k₂ _ =>
      seq parseDigit fun k₃ a => seq parseDigit fun k₄ b => seq parseDigit fun k₅ c =>
        seq (element Except.ok) fun k₆ d =>
          restOfResponse slots (k₁ + (k₂ + (k₃ + (k₄ + (k₅ + k₆))))) version
            (100 * a + 10 * b + c) d

/-- The parser. -/
def reference : Httparse where
  isUriToken := isValidFieldVchar
  parseChunkSize := parseChunkSize
  parseHeaders := parseHeaders
  parseRequest := parseRequest
  parseResponse := parseResponse

theorem exactly_streamParser (e : Error) (bs : Bytes) : StreamParser (exactly e bs) := by
  induction bs with
  | nil => exact yields_streamParser ()
  | cons b bs ih => exact (element_streamParser _).seq fun _ _ => ih

theorem exactly_complete {e : Error} {bs s : Bytes} {n : Nat} {a : Unit}
    (h : exactly e bs s = .ok (.complete (n, a))) : ∃ rest, s = bs ++ rest ∧ n = bs.length := by
  induction bs generalizing s n with
  | nil =>
    cases h
    exact ⟨s, rfl, rfl⟩
  | cons b bs ih =>
    obtain ⟨k, m, _, hb, hrest, rfl⟩ := seq_complete h
    obtain ⟨x, rest, rfl, hc, rfl⟩ := element_complete hb
    split at hc
    · next hx =>
      obtain ⟨rest', hrest', rfl⟩ := ih hrest
      rw [List.drop_succ_cons, List.drop_zero] at hrest'
      exact ⟨rest', by rw [hrest', hx]; rfl, by rw [List.length_cons, Nat.add_comm]⟩
    · cases hc

theorem exactly_append (e : Error) (bs s : Bytes) :
    exactly e bs (bs ++ s) = .ok (.complete (bs.length, ())) := by
  induction bs with
  | nil => rfl
  | cons b bs ih =>
    have hb : (if b = b then Except.ok () else Except.error e : Except Error Unit) = .ok () :=
      if_pos rfl
    rw [exactly, List.cons_append, seq_element (f := fun x => if x = b then _ else _) hb, ih,
      Answer.shift_complete, List.length_cons, Nat.add_comm]

theorem parseVersion_streamParser : StreamParser parseVersion :=
  (exactly_streamParser _ _).seq fun _ _ => element_streamParser _

theorem parseVersion_complete {s : Bytes} {n : Nat} {v : UInt8}
    (h : parseVersion s = .ok (.complete (n, v))) :
    ∃ x rest, s = ascii "HTTP/1." ++ x :: rest ∧ isDigit x = true ∧ n = 8 := by
  obtain ⟨k, m, _, hlit, hx, rfl⟩ := seq_complete h
  obtain ⟨rest, rfl, rfl⟩ := exactly_complete hlit
  rw [List.drop_left] at hx
  obtain ⟨x, rest', rfl, hc, rfl⟩ := element_complete hx
  refine ⟨x, rest', rfl, ?_, rfl⟩
  split at hc
  · next h => rw [h]; rfl
  · split at hc
    · next h => rw [h]; rfl
    · cases hc

theorem restOfHead_streamParser (e : Error) (slots off : Nat) (d : UInt8) :
    StreamParser (restOfHead e slots off d) :=
  (lineEnd_streamParser _ _ _).seq fun _ _ => fieldSection_streamParser _ _

/-- The headers behind a start line lie where they say they do. -/
theorem restOfHead_complete (pre : Bytes) {e : Error} {slots off : Nat} {d : UInt8} {s : Bytes}
    {n : Nat} {hs : List Header} (h : restOfHead e slots off d s = .ok (.complete (n, hs)))
    (hpre : off = pre.length) :
    hs.length ≤ slots ∧ ∀ x ∈ hs, x.Within (pre ++ s.take n) ∧ x.WellFormed := by
  obtain ⟨k, m, _, hend, hsec, rfl⟩ := seq_complete h
  have hk := (lineEnd_complete hend).2
  have hfields := fieldSection_complete (pre ++ s.take k) hsec (by
    rw [List.length_append, List.length_take, Nat.min_eq_left hk, hpre])
  rwa [List.append_assoc, ← List.take_add] at hfields

theorem startWord_streamParser (p : UInt8 → Bool) (check : Bytes → Bool) :
    StreamParser (startWord p check) :=
  word_streamParser _ _

theorem startWord_complete {p : UInt8 → Bool} {check : Bytes → Bool} {s w : Bytes} {n : Nat}
    (h : startWord p check s = .ok (.complete (n, w))) :
    ∃ rest, s = w ++ 32 :: rest ∧ w ≠ [] ∧ (∀ b ∈ w, p b = true) ∧ check w = true ∧
      n = w.length + 1 := by
  obtain ⟨w', d, rest, rfl, hw, -, hc, rfl⟩ := word_complete h
  split at hc
  · next hd =>
    obtain ⟨hne, hcheck, rfl⟩ := hd
    cases hc
    exact ⟨rest, rfl, hne, hw, hcheck, rfl⟩
  · cases hc

theorem startWord_append {p : UInt8 → Bool} {check : Bytes → Bool} {w : Bytes} (hne : w ≠ [])
    (hw : ∀ b ∈ w, p b = true) (hcheck : check w = true) (hsp : p 32 = false) (s : Bytes) :
    startWord p check ((w ++ [32]) ++ s) = .ok (.complete ((w ++ [32]).length, w)) := by
  rw [List.append_assoc, List.singleton_append, startWord, word_append hw hsp,
    if_pos ⟨hne, hcheck, rfl⟩, List.length_append]
  rfl

theorem parseRequest_streamParser (slots : Nat) : StreamParser (parseRequest slots) :=
  (startWord_streamParser _ _).seq fun _ _ => (startWord_streamParser _ _).seq fun _ _ =>
    parseVersion_streamParser.seq fun _ _ => (element_streamParser _).seq fun _ _ =>
      (restOfHead_streamParser _ _ _ _).seq fun _ _ => yields_streamParser _

/-- What a complete request head is made of, and where. -/
theorem parseRequest_complete {slots n : Nat} {s : Bytes} {p : RequestParts}
    (h : parseRequest slots s = .ok (.complete (n, p))) :
    isValidFieldName p.method.bytes = true ∧
      reference.IsTarget p.path.bytes ∧ p.method.Within (s.take n) ∧ p.path.Within (s.take n) ∧
      p.headers.length ≤ slots ∧ ∀ x ∈ p.headers, x.Within (s.take n) ∧ x.WellFormed := by
  obtain ⟨k₁, n₁, method, hmethod, h₁, rfl⟩ := seq_complete h
  obtain ⟨s₁, rfl, hmne, hmall, -, rfl⟩ := startWord_complete hmethod
  rw [List.drop_length_add_append] at h₁
  obtain ⟨k₂, n₂, path, hpath, h₂, rfl⟩ := seq_complete h₁
  obtain ⟨s₂, hs₁, hpne, hpall, hutf8, rfl⟩ := startWord_complete hpath
  rw [List.drop_succ_cons, List.drop_zero] at hs₁ h₂
  subst hs₁
  rw [List.drop_length_add_append, List.drop_succ_cons, List.drop_zero] at h₂
  obtain ⟨k₃, n₃, version, hversion, h₃, rfl⟩ := seq_complete h₂
  have hk₃ := parseVersion_streamParser.length_le hversion
  obtain ⟨k₄, n₄, d, hd, h₄, rfl⟩ := seq_complete h₃
  have hk₄ := (element_streamParser _).length_le hd
  obtain ⟨k₅, n₅, headers, hheaders, hp, rfl⟩ := seq_complete h₄
  cases hp
  rw [List.length_drop] at hk₄
  -- the start line, and the whole head
  have hsplit : ∀ m, (method ++ 32 :: (path ++ 32 :: s₂)).take
        (method.length + 1 + (path.length + 1 + m)) =
      method ++ 32 :: (path ++ 32 :: s₂.take m) := by
    intro m
    rw [show method.length + 1 + (path.length + 1 + m) =
      method.length + (path.length + (m + 1) + 1) by omega, List.take_length_add_append,
      List.take_succ_cons, List.take_length_add_append, List.take_succ_cons]
  have hfields := restOfHead_complete
    (method ++ 32 :: (path ++ 32 :: s₂.take (k₃ + k₄))) hheaders (by
      simp only [List.length_append, List.length_cons, List.length_take]
      omega)
  rw [List.drop_drop] at hfields
  have hhead : (method ++ 32 :: (path ++ 32 :: s₂)).take
        (method.length + 1 + (path.length + 1 + (k₃ + (k₄ + (k₅ + 0))))) =
      method ++ 32 :: (path ++ 32 :: s₂.take (k₃ + k₄)) ++ (s₂.drop (k₃ + k₄)).take k₅ := by
    rw [hsplit, Nat.add_zero, ← Nat.add_assoc, List.take_add (i := k₃ + k₄)]
    simp
  rw [hhead]
  refine ⟨?_, ⟨hpne, hpall, of_decide_eq_true hutf8⟩, ?_, ?_, hfields.1, hfields.2⟩
  · rw [isValidFieldName_iff]
    exact ⟨hmne, hmall⟩
  · exact within_of_append [] (32 :: (path ++ 32 :: s₂.take (k₃ + k₄)) ++
      (s₂.drop (k₃ + k₄)).take k₅) (by simp) rfl
  · exact within_of_append (method ++ [32]) (32 :: s₂.take (k₃ + k₄) ++
      (s₂.drop (k₃ + k₄)).take k₅) (by simp) (by simp)

/-- A target is checked as a whole: the two bytes of a character, and the same two the other way
    round. -/
example : (parseRequest 0 (ascii "GET /" ++ [0xc3, 0xa9] ++ ascii " HTTP/1.1\r\n\r\n")).isOk = true ∧
    parseRequest 0 (ascii "GET /" ++ [0xa9, 0xc3] ++ ascii " HTTP/1.1\r\n\r\n") =
      .error .token := by
  decide +kernel

/-- A rendered request head is recognised. -/
theorem parseRequest_render {slots : Nat} {method path : Bytes} {fs : List Field}
    (hmethod : isValidFieldName method = true) (hpath : reference.IsTarget path)
    (hfs : Headers.Valid ⟨fs⟩) (hlen : fs.length ≤ slots) (s : Bytes) :
    ∃ p, parseRequest slots (requestHead method path (ascii "HTTP/1.1") fs ++ s) =
        .ok (.complete ((requestHead method path (ascii "HTTP/1.1") fs).length, p)) ∧
      p.method.bytes = method ∧ p.path.bytes = path ∧ p.version = 1 ∧
      p.headers.map Header.field = fs.map fun f => (f.1, trimOws f.2) := by
  obtain ⟨hmne, hmall⟩ := isValidFieldName_iff.mp hmethod
  have hshape : requestHead method path (ascii "HTTP/1.1") fs ++ s =
      (method ++ [32]) ++ ((path ++ [32]) ++ (ascii "HTTP/1.1" ++
        (13 :: ([10] ++ (fieldLines fs ++ ascii "\r\n" ++ s))))) := by
    simp [requestHead, show ascii " " = [32] from rfl, show ascii "\r\n" = [13, 10] from rfl]
  have hversion : ∀ t, parseVersion (ascii "HTTP/1.1" ++ t) =
      .ok (.complete ((ascii "HTTP/1.1").length, 1)) := by
    intro t
    rw [parseVersion, show ascii "HTTP/1.1" ++ t = ascii "HTTP/1." ++ (49 :: t) from rfl,
      seq_append (exactly_append _ _ _)]
    rfl
  -- the slices of the fields are counted from the start of the head
  obtain ⟨hs, hsec, hfields⟩ := fieldSection_render slots
    ((method ++ [32]).length + ((path ++ [32]).length + ((ascii "HTTP/1.1").length + 1)) + 1)
    hfs hlen s
  refine ⟨⟨⟨0, method⟩, ⟨(method ++ [32]).length, path⟩, 1, hs⟩, ?_, rfl, rfl, rfl, hfields⟩
  have hrest : restOfHead .newLine slots ((method ++ [32]).length + ((path ++ [32]).length +
      ((ascii "HTTP/1.1").length + 1))) 13
        (([10] ++ (fieldLines fs ++ ascii "\r\n")) ++ s) =
      .ok (.complete (([10] ++ (fieldLines fs ++ ascii "\r\n")).length, hs)) := by
    rw [restOfHead, List.append_assoc, seq_append (x := [10]) (lineEnd_crlf _ _ _),
      show ([10] : Bytes).length = 1 from rfl, hsec, Answer.shift_complete]
    simp only [List.length_append, show ([10] : Bytes).length = 1 from rfl,
      show (ascii "\r\n").length = 2 from rfl]
  have htarget : ∀ t, startWord isValidFieldVchar (fun w => decide (IsUtf8 w))
      ((path ++ [32]) ++ t) = .ok (.complete ((path ++ [32]).length, path)) :=
    startWord_append hpath.ne_nil hpath.tokens (decide_eq_true hpath.utf8) (by decide)
  rw [hshape, parseRequest, seq_append (startWord_append hmne hmall rfl (by decide) _),
    seq_append (htarget _), seq_append (hversion _),
    seq_element rfl, ← List.append_assoc [10], seq_append hrest]
  simp only [yields, Answer.shift_complete, requestHead, List.length_append,
    show ([32] : Bytes).length = 1 from rfl, show ([10] : Bytes).length = 1 from rfl,
    show (ascii " ").length = 1 from rfl, show (ascii "\r\n").length = 2 from rfl]
  congr 3
  omega

theorem parseDigit_complete {s : Bytes} {n v : Nat} (h : parseDigit s = .ok (.complete (n, v))) :
    ∃ b rest, s = b :: rest ∧ isDigit b = true ∧ n = 1 ∧ v < 10 := by
  obtain ⟨b, rest, rfl, hc, rfl⟩ := element_complete h
  split at hc
  · next hb =>
    cases hc
    have hle : b.toNat - 48 < 10 := by
      simp only [isDigit, Bool.and_eq_true, decide_eq_true_eq, UInt8.le_iff_toNat_le] at hb
      have h57 : (57 : UInt8).toNat = 57 := rfl
      omega
    exact ⟨b, rest, rfl, hb, rfl, hle⟩
  · cases hc

theorem restOfResponse_streamParser (slots off : Nat) (version : UInt8) (code : Nat) (d : UInt8) :
    StreamParser (restOfResponse slots off version code d) := by
  unfold restOfResponse
  by_cases hd : d = 32
  · rw [if_pos hd]
    exact (word_streamParser _ _).seq fun _ _ =>
      (restOfHead_streamParser _ _ _ _).seq fun _ _ => yields_streamParser _
  · rw [if_neg hd]
    exact (restOfHead_streamParser _ _ _ _).seq fun _ _ => yields_streamParser _

theorem parseResponse_streamParser (slots : Nat) : StreamParser (parseResponse slots) :=
  parseVersion_streamParser.seq fun _ _ => (exactly_streamParser _ _).seq fun _ _ =>
    (element_streamParser _).seq fun _ _ => (element_streamParser _).seq fun _ _ =>
      (element_streamParser _).seq fun _ _ => (element_streamParser _).seq fun _ _ =>
        restOfResponse_streamParser _ _ _ _ _

/-- What follows the status code, and where: with a reason phrase or without one. -/
theorem restOfResponse_complete (pre : Bytes) {slots off : Nat} {version d : UInt8} {code n : Nat}
    {s : Bytes} {p : ResponseParts}
    (h : restOfResponse slots off version code d s = .ok (.complete (n, p)))
    (hpre : off = pre.length) :
    (p.headers.length ≤ slots ∧ ∀ x ∈ p.headers, x.Within (pre ++ s.take n) ∧ x.WellFormed) ∧
      p.code = code ∧
      ((d = 32 ∧ ∃ w e rest, s = w ++ e :: rest ∧ w.length ≤ n ∧
          (∀ b ∈ w, isFieldValueByte b = true) ∧ isLineEnd e = true ∧
          p.reason = reasonSlice off w) ∨
        (isLineEnd d = true ∧ p.reason = staticEmpty)) := by
  unfold restOfResponse at h
  split at h
  · next hd =>
    obtain ⟨k, m, ⟨w, e⟩, hword, h₁, rfl⟩ := seq_complete h
    obtain ⟨w', e', rest, rfl, hw, -, hc, rfl⟩ := word_complete hword
    cases hc
    obtain ⟨k, m, headers, hheaders, hp, rfl⟩ := seq_complete h₁
    cases hp
    obtain ⟨_, _, _, hend, _, _⟩ := seq_complete hheaders
    have hlen : (w ++ [e]).length = w.length + 1 := by simp
    have hfields := restOfHead_complete (pre ++ (w ++ [e])) hheaders (by
      rw [List.length_append, hlen, hpre])
    have hsplit : w ++ e :: rest = (w ++ [e]) ++ rest := by simp
    rw [hsplit, ← hlen, List.drop_left, List.append_assoc] at hfields
    refine ⟨⟨hfields.1, fun x hx => ?_⟩, rfl, .inl ⟨hd, w, e, rest, rfl, by omega, hw,
      isLineEnd_of_lineEnd hend, rfl⟩⟩
    rw [hsplit, ← hlen, List.take_length_add_append, Nat.add_zero]
    exact hfields.2 x hx
  · obtain ⟨k, m, headers, hheaders, hp, rfl⟩ := seq_complete h
    cases hp
    obtain ⟨_, _, _, hend, _, _⟩ := seq_complete hheaders
    have hfields := restOfHead_complete pre hheaders hpre
    exact ⟨hfields, rfl, .inr ⟨isLineEnd_of_lineEnd hend, rfl⟩⟩

/-- The bytes of a status line, up to its code, hold no line end. -/
theorem statusLine_eq {x a b c d : UInt8} (hx : isDigit x = true) (ha : isDigit a = true)
    (hb : isDigit b = true) (hc : isDigit c = true) (rest : Bytes) :
    (statusLine (ascii "HTTP/1." ++ x :: 32 :: a :: b :: c :: d :: rest)).drop 12 =
      (d :: rest).takeWhile fun y => !isLineEnd y := by
  have hdigit : ∀ y : UInt8, isDigit y = true → (!isLineEnd y) = true :=
    forall_byte (by decide +kernel)
  have hfirst : (ascii "HTTP/1." ++ x :: 32 :: a :: b :: c :: d :: rest) =
      (ascii "HTTP/1." ++ [x, 32, a, b, c]) ++ d :: rest := by simp
  have hmem : ∀ y ∈ ascii "HTTP/1." ++ [x, 32, a, b, c], (!isLineEnd y) = true := by
    intro y hy
    simp only [List.mem_append, List.mem_cons, List.not_mem_nil, or_false] at hy
    rcases hy with hy | rfl | rfl | rfl | rfl | rfl
    · revert y
      decide +kernel
    · exact hdigit _ hx
    · rfl
    · exact hdigit _ ha
    · exact hdigit _ hb
    · exact hdigit _ hc
  have hskip : (ascii "HTTP/1." ++ x :: 32 :: a :: b :: c :: d :: rest).dropWhile isLineEnd =
      ascii "HTTP/1." ++ x :: 32 :: a :: b :: c :: d :: rest := rfl
  rw [statusLine, hskip, hfirst, List.takeWhile_append_of_pos hmem]
  rfl

/-- The reason phrase of a status line with a blank behind the code. -/
theorem asciiReason_phrase {x a b c e : UInt8} (hx : isDigit x = true) (ha : isDigit a = true)
    (hb : isDigit b = true) (hc : isDigit c = true) {w : Bytes}
    (hw : ∀ y ∈ w, isFieldValueByte y = true) (he : isLineEnd e = true) (rest : Bytes) :
    asciiReason (ascii "HTTP/1." ++ x :: 32 :: a :: b :: c :: 32 :: (w ++ e :: rest)) =
      if w.all (· < 128) then some w else none := by
  have hmem : ∀ y ∈ (32 : UInt8) :: w, (!isLineEnd y) = true := by
    intro y hy
    rcases List.mem_cons.mp hy with rfl | hy
    · rfl
    · have hne := ne_of_isFieldValueByte (hw y hy)
      simp [isLineEnd, hne]
  have hword : ((32 : UInt8) :: (w ++ e :: rest)).takeWhile (fun y => !isLineEnd y) =
      32 :: w := by
    rw [← List.cons_append, List.takeWhile_append_of_pos hmem,
      List.takeWhile_cons_of_neg (by simp [he]), List.append_nil]
  rw [asciiReason, statusLine_eq hx ha hb hc, hword]
  rfl

/-- A status line that ends behind the code has no reason phrase. -/
theorem asciiReason_none {x a b c d : UInt8} (hx : isDigit x = true) (ha : isDigit a = true)
    (hb : isDigit b = true) (hc : isDigit c = true) (hd : isLineEnd d = true) (rest : Bytes) :
    asciiReason (ascii "HTTP/1." ++ x :: 32 :: a :: b :: c :: d :: rest) = none := by
  have hword : (d :: rest).takeWhile (fun y => !isLineEnd y) = [] :=
    List.takeWhile_cons_of_neg (by simp [hd])
  rw [asciiReason, statusLine_eq hx ha hb hc, hword]

/-- The status line of a complete response head: thirteen bytes up to the one behind the
    code, and the rest. -/
theorem parseResponse_parts {slots n : Nat} {s : Bytes} {p : ResponseParts}
    (h : parseResponse slots s = .ok (.complete (n, p))) :
    ∃ x a b c d rest m version code, s = ascii "HTTP/1." ++ x :: 32 :: a :: b :: c :: d :: rest ∧
      n = 13 + m ∧ (isDigit x = true ∧ isDigit a = true ∧ isDigit b = true ∧ isDigit c = true) ∧
      code < 1000 ∧ restOfResponse slots 13 version code d rest = .ok (.complete (m, p)) := by
  obtain ⟨_, n₁, version, hversion, h₁, rfl⟩ := seq_complete h
  obtain ⟨x, s₁, rfl, hx, rfl⟩ := parseVersion_complete hversion
  obtain ⟨_, n₂, _, hsp, h₂, rfl⟩ := seq_complete h₁
  obtain ⟨s₂, hs₁, rfl⟩ := exactly_complete hsp
  have hs₁ : s₁ = 32 :: s₂ := hs₁
  subst hs₁
  -- the three digits of the code
  obtain ⟨_, n₃, va, ha, h₃, rfl⟩ := seq_complete h₂
  obtain ⟨a, s₃, hs₂, hda, rfl, hva⟩ := parseDigit_complete ha
  have hs₂ : s₂ = a :: s₃ := hs₂
  subst hs₂
  obtain ⟨_, n₄, vb, hb, h₄, rfl⟩ := seq_complete h₃
  obtain ⟨b, s₄, hs₃, hdb, rfl, hvb⟩ := parseDigit_complete hb
  have hs₃ : s₃ = b :: s₄ := hs₃
  subst hs₃
  obtain ⟨_, n₅, vc, hc, h₅, rfl⟩ := seq_complete h₄
  obtain ⟨c, s₅, hs₄, hdc, rfl, hvc⟩ := parseDigit_complete hc
  have hs₄ : s₄ = c :: s₅ := hs₄
  subst hs₄
  obtain ⟨_, n₆, d, hd, h₆, rfl⟩ := seq_complete h₅
  obtain ⟨d', s₆, hs₅, hd, rfl⟩ := element_complete hd
  have hs₅ : s₅ = d' :: s₆ := hs₅
  subst hs₅
  cases hd
  refine ⟨x, a, b, c, d, s₆, n₆, version, 100 * va + 10 * vb + vc, rfl, ?_,
    ⟨hx, hda, hdb, hdc⟩, by omega, h₆⟩
  rw [show ([32] : Bytes).length = 1 from rfl]
  omega

/-- What a complete response head is made of, and where. -/
theorem parseResponse_complete {slots n : Nat} {s : Bytes} {p : ResponseParts}
    (h : parseResponse slots s = .ok (.complete (n, p))) :
    (p.headers.length ≤ slots ∧ ∀ x ∈ p.headers, x.Within (s.take n) ∧ x.WellFormed) ∧
      (p.code < 1000 ∧ isValidFieldValue p.reason.bytes = true) ∧
      (∀ phrase, asciiReason s = some phrase →
        p.reason.Within (s.take n) ∧ p.reason.bytes = phrase) ∧
      (asciiReason s = none → p.reason = staticEmpty) := by
  obtain ⟨x, a, b, c, d, s', m, version, code, rfl, rfl, ⟨hx, ha, hb, hc⟩, hcode₁, hrest⟩ :=
    parseResponse_parts h
  have hhead : (ascii "HTTP/1." ++ x :: 32 :: a :: b :: c :: d :: s').take (13 + m) =
      ascii "HTTP/1." ++ [x, 32, a, b, c, d] ++ s'.take m := by
    rw [Nat.add_comm]
    rfl
  obtain ⟨hfields, hcode, hreason⟩ := restOfResponse_complete
    (ascii "HTTP/1." ++ [x, 32, a, b, c, d]) hrest rfl
  refine ⟨⟨hfields.1, fun y hy => hhead ▸ hfields.2 y hy⟩, ⟨by omega, ?_⟩, ?_⟩
  · rcases hreason with ⟨-, w, -, -, -, -, hw, -, hp⟩ | ⟨-, hp⟩
    · rw [hp, reasonSlice]
      split
      · exact isValidFieldValue_iff.mpr hw
      · rfl
    · rw [hp]
      rfl
  rcases hreason with ⟨rfl, w, e, rest, rfl, hle, hw, he, hp⟩ | ⟨hd, hp⟩
  · rw [reasonSlice] at hp
    rw [asciiReason_phrase hx ha hb hc hw he]
    by_cases hall : w.all (· < 128) = true
    · rw [if_pos hall] at hp
      rw [if_pos hall, hp]
      refine ⟨fun phrase hphrase => ?_, nofun⟩
      cases hphrase
      refine ⟨?_, rfl⟩
      have htake : (w ++ e :: rest).take m = w ++ (e :: rest).take (m - w.length) := by
        conv => lhs; rw [show m = w.length + (m - w.length) by omega]
        rw [List.take_length_add_append]
      exact hhead ▸ within_of_append (ascii "HTTP/1." ++ [x, 32, a, b, c, 32])
        ((e :: rest).take (m - w.length)) (by simp [htake]) rfl
    -- a phrase that is not ASCII is left out
    · rw [if_neg hall] at hp
      rw [if_neg hall, hp]
      exact ⟨nofun, fun _ => rfl⟩
  · rw [asciiReason_none hx ha hb hc hd]
    exact ⟨nofun, fun _ => hp⟩

/-! ## The laws -/

theorem chunkSizeLaws : reference.ChunkSizeLaws where
  parser := parseChunkSize_streamParser
  size_lt h := parseChunkSize_lt h
  hex _ hlen hhex hv s := parseChunkSize_hex hlen hhex hv s
  first hb hmem s := ⟨_, parseChunkSize_first hb hmem s⟩

theorem fieldSectionLaws : reference.FieldSectionLaws where
  parser slots := fieldSection_streamParser slots 0
  within h x hx := ((fieldSection_complete [] h rfl).2 x hx).1
  length_le h := (fieldSection_complete [] h rfl).1
  sound h x hx := ((fieldSection_complete [] h rfl).2 x hx).2
  more_slots h k := fieldSection_more h k
  complete hfs hlen s := fieldSection_render _ 0 hfs hlen s

/-- Every byte of an origin-form target is a visible character. -/
theorem isValidFieldVchar_of_path {b : UInt8} (h : isValidPathQueryChar b = true ∨ b = 37) :
    isValidFieldVchar b = true := by
  have hall : ∀ b, isValidPathQueryChar b = true ∨ b = 37 → isValidFieldVchar b = true :=
    forall_byte (by decide +kernel)
  exact hall b h

theorem requestLaws : reference.RequestLaws where
  parser := parseRequest_streamParser
  within h := by
    obtain ⟨-, -, hmethod, hpath, -, hheaders⟩ := parseRequest_complete h
    exact ⟨hmethod, hpath, fun x hx => (hheaders x hx).1⟩
  length_le h := by
    obtain ⟨-, -, -, -, hlen, -⟩ := parseRequest_complete h
    exact hlen
  sound h := by
    obtain ⟨hmethod, hpath, -, -, -, hheaders⟩ := parseRequest_complete h
    exact ⟨hmethod, hpath, fun x hx => (hheaders x hx).2⟩
  complete hmethod hpath hfs hlen s := parseRequest_render hmethod hpath hfs hlen s
  uri_token h := isValidFieldVchar_of_path h

theorem targetLaws : reference.TargetLaws where
  uri_vchar h := h

/-- A rest of a head that has room still has room with more slots. -/
theorem restOfHead_more {e : Error} {slots off n : Nat} {d : UInt8} {s : Bytes} {hs : List Header}
    (h : restOfHead e slots off d s = .ok (.complete (n, hs))) (k : Nat) :
    restOfHead e (slots + k) off d s = .ok (.complete (n, hs)) := by
  obtain ⟨k₁, m, u, hend, hsection, rfl⟩ := seq_complete h
  rw [restOfHead, seq_of_complete hend, fieldSection_more hsection k]
  rfl

/-- Only the field section has to do with slots. -/
theorem parseRequest_more {slots n : Nat} {s : Bytes} {p : RequestParts}
    (h : parseRequest slots s = .ok (.complete (n, p))) (k : Nat) :
    parseRequest (slots + k) s = .ok (.complete (n, p)) := by
  obtain ⟨k₁, n₁, method, hmethod, h₁, rfl⟩ := seq_complete h
  obtain ⟨k₂, n₂, path, hpath, h₂, rfl⟩ := seq_complete h₁
  obtain ⟨k₃, n₃, version, hversion, h₃, rfl⟩ := seq_complete h₂
  obtain ⟨k₄, n₄, d, hd, h₄, rfl⟩ := seq_complete h₃
  obtain ⟨k₅, n₅, headers, hheaders, hp, rfl⟩ := seq_complete h₄
  rw [parseRequest, seq_of_complete hmethod, seq_of_complete hpath, seq_of_complete hversion,
    seq_of_complete hd, seq_of_complete (restOfHead_more hheaders k), hp]
  rfl

theorem requestSlotLaws : reference.RequestSlotLaws where
  more_slots h k := parseRequest_more h k

theorem responseLaws : reference.ResponseLaws where
  length_le h := ⟨(parseResponse_streamParser _).length_le h, (parseResponse_complete h).1.1⟩
  within h x hx := ((parseResponse_complete h).1.2 x hx).1
  reason h hphrase := (parseResponse_complete h).2.2.1 _ hphrase
  static h hnone := by
    rw [(parseResponse_complete h).2.2.2 hnone]
    exact ⟨.inl (by decide), rfl⟩

theorem responseHeadLaws : reference.ResponseHeadLaws where
  parser := parseResponse_streamParser
  sound h := by
    obtain ⟨hheaders, ⟨hcode, hreason⟩, -⟩ := parseResponse_complete h
    exact ⟨hcode, hreason, fun x hx => (hheaders.2 x hx).2⟩

end Jrpxy.Httparse.Reference
