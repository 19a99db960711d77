/-
  Jrpxy.Lib.ChunkedCoding

  The chunked transfer coding, decoded in one shot.

  A chunked message body is a sequence of chunks (size line, data, CRLF), a
  size line announcing zero, and a trailer section.  The size-line and
  trailer-section recognisers are parameters; `decode` runs them over the
  whole stream and says what a body reader owes its caller: the data, and
  either the trailers with the bytes that follow them or nothing if the
  stream is malformed or cut short.  `decodeData`, `decodeFooter` and
  `decodeLF` are the same from the middle of a chunk.

  The main facts are that a complete body stays complete and keeps its
  meaning whatever follows it (`decode_append`), hence that no proper
  beginning of a complete body is one (`decode_cut`), and that decoding
  undoes encoding chunk by chunk (`decode_chunk`, `decode_chunks`).
-/
import Jrpxy.Lib.StreamParser

namespace ChunkedCoding

open Incremental

/-- The two recognisers the coding rests on. -/
structure Recognisers (τ : Type) where
  sizeError : Type
  fieldsError : Type
  size : List UInt8 → Except sizeError (Status (Nat × Nat))
  fields : List UInt8 → Except fieldsError (Status (Nat × τ))

/-- Both recognisers are stream parsers. -/
structure Recognisers.Lawful {τ : Type} (R : Recognisers τ) : Prop where
  size : StreamParser R.size
  fields : StreamParser R.fields

/-- How a complete body ends: the length of its trailer section, the trailers,
    and the bytes after the body. -/
structure Tail (τ : Type) where
  sectionLength : Nat
  trailers : τ
  rest : List UInt8

/-- What a stream holds of a chunked body: the lengths of its size lines, its
    data, and its end when the body is complete. -/
structure Decoded (τ : Type) where
  sizeLines : List Nat
  body : List UInt8
  tail : Option (Tail τ)

variable {τ : Type}

namespace Decoded

/-- A body that ends in a fault right here. -/
def fault : Decoded τ := ⟨[], [], none⟩

/-- Put data in front. -/
def prepend (d : List UInt8) (x : Decoded τ) : Decoded τ := { x with body := d ++ x.body }

/-- Put a size line in front. -/
def addLine (n : Nat) (x : Decoded τ) : Decoded τ := { x with sizeLines := n :: x.sizeLines }

/-- More bytes after the end of a complete body. -/
def append (x : Decoded τ) (u : List UInt8) : Decoded τ :=
  { x with tail := x.tail.map fun t => { t with rest := t.rest ++ u } }

/-- The size lines and the trailer section are within these limits. -/
def Fits (maxLine maxTrailer : Nat) (x : Decoded τ) : Prop :=
  (∀ n ∈ x.sizeLines, n ≤ maxLine) ∧ ∀ t ∈ x.tail, t.sectionLength ≤ maxTrailer

@[simp] theorem fault_sizeLines : (fault : Decoded τ).sizeLines = [] := rfl
@[simp] theorem fault_body : (fault : Decoded τ).body = [] := rfl
@[simp] theorem fault_tail : (fault : Decoded τ).tail = none := rfl
@[simp] theorem prepend_sizeLines (d : List UInt8) (x : Decoded τ) :
    (x.prepend d).sizeLines = x.sizeLines := rfl
@[simp] theorem prepend_body (d : List UInt8) (x : Decoded τ) :
    (x.prepend d).body = d ++ x.body := rfl
@[simp] theorem prepend_tail (d : List UInt8) (x : Decoded τ) :
    (x.prepend d).tail = x.tail := rfl
@[simp] theorem addLine_sizeLines (n : Nat) (x : Decoded τ) :
    (x.addLine n).sizeLines = n :: x.sizeLines := rfl
@[simp] theorem addLine_body (n : Nat) (x : Decoded τ) : (x.addLine n).body = x.body := rfl
@[simp] theorem addLine_tail (n : Nat) (x : Decoded τ) : (x.addLine n).tail = x.tail := rfl
@[simp] theorem prepend_nil (x : Decoded τ) : x.prepend [] = x := rfl

theorem prepend_prepend (d e : List UInt8) (x : Decoded τ) :
    (x.prepend e).prepend d = x.prepend (d ++ e) := by
  simp [prepend]

theorem append_prepend (d u : List UInt8) (x : Decoded τ) :
    (x.prepend d).append u = (x.append u).prepend d := rfl

theorem append_addLine (n : Nat) (u : List UInt8) (x : Decoded τ) :
    (x.addLine n).append u = (x.append u).addLine n := rfl

@[simp] theorem append_tail (x : Decoded τ) (u : List UInt8) :
    (x.append u).tail = x.tail.map fun t => { t with rest := t.rest ++ u } := rfl

@[simp] theorem append_body (x : Decoded τ) (u : List UInt8) : (x.append u).body = x.body := rfl

@[simp] theorem append_sizeLines (x : Decoded τ) (u : List UInt8) :
    (x.append u).sizeLines = x.sizeLines := rfl

theorem fits_prepend {maxLine maxTrailer : Nat} {d : List UInt8} {x : Decoded τ} :
    (x.prepend d).Fits maxLine maxTrailer ↔ x.Fits maxLine maxTrailer := Iff.rfl

theorem fits_addLine {maxLine maxTrailer n : Nat} {x : Decoded τ} :
    (x.addLine n).Fits maxLine maxTrailer ↔ n ≤ maxLine ∧ x.Fits maxLine maxTrailer := by
  simp only [Fits, addLine_sizeLines, addLine_tail, List.forall_mem_cons, and_assoc]

theorem fits_append {maxLine maxTrailer : Nat} {u : List UInt8} {x : Decoded τ} :
    (x.append u).Fits maxLine maxTrailer ↔ x.Fits maxLine maxTrailer := by
  cases htail : x.tail with
  | none => simp [Fits, htail]
  | some t => simp [Fits, htail]

end Decoded

/-! ## The one-shot decoder -/

variable (R : Recognisers τ)

/-- The trailer section and what follows it. -/
def decodeTail (s : List UInt8) : Decoded τ :=
  match R.fields s with
  | .ok (.complete (n, t)) => ⟨[], [], some ⟨n, t, s.drop n⟩⟩
  | _ => .fault

/-- Decode a stream that stands at the start of a size line. -/
def decode (s : List UInt8) : Decoded τ :=
  match R.size s with
  | .ok (.complete (n, 0)) => (decodeTail R (s.drop n)).addLine n
  | .ok (.complete (n, len + 1)) =>
    if (s.drop n).length < len + 1 then ⟨[n], s.drop n, none⟩
    else
      match hrest : (s.drop n).drop (len + 1) with
      | 13 :: 10 :: rest => ((decode rest).prepend ((s.drop n).take (len + 1))).addLine n
      | _ => ⟨[n], (s.drop n).take (len + 1), none⟩
  | _ => .fault
termination_by s.length
decreasing_by
  have h := congrArg List.length hrest
  simp only [List.length_drop, List.length_cons] at h
  omega

/-- Decode from behind the CR of a chunk footer. -/
def decodeLF : List UInt8 → Decoded τ
  | 10 :: rest => decode R rest
  | _ => .fault

/-- Decode from behind the data of a chunk. -/
def decodeFooter : List UInt8 → Decoded τ
  | 13 :: rest => decodeLF R rest
  | _ => .fault

/-- Decode from inside a chunk of which `len` bytes are still to come. -/
def decodeData (len : Nat) (s : List UInt8) : Decoded τ :=
  if s.length < len then ⟨[], s, none⟩
  else (decodeFooter R (s.drop len)).prepend (s.take len)

/-- The decoder in terms of its parts. -/
theorem decode_eq (s : List UInt8) :
    decode R s =
      match R.size s with
      | .ok (.complete (n, 0)) => (decodeTail R (s.drop n)).addLine n
      | .ok (.complete (n, len + 1)) => (decodeData R (len + 1) (s.drop n)).addLine n
      | _ => .fault := by
  rw [decode]
  split
  · rfl
  · next n len h =>
    simp only [decodeData]
    split
    · rfl
    · split
      · next rest hrest => rw [hrest]; rfl
      · next hrest =>
        have hfault : decodeFooter R ((s.drop n).drop (len + 1)) = .fault := by
          unfold decodeFooter
          split
          · next rest hcr =>
            unfold decodeLF
            split
            · next rest' => exact absurd hcr (hrest _)
            · rfl
          · rfl
        rw [hfault]
        simp [Decoded.prepend, Decoded.addLine, Decoded.fault]
  · rfl

/-- A complete size line that announces zero is followed by the trailer section. -/
theorem decode_last {s : List UInt8} {n : Nat} (h : R.size s = .ok (.complete (n, 0))) :
    decode R s = (decodeTail R (s.drop n)).addLine n := by
  rw [decode_eq, h]

/-- A complete size line that announces data is followed by the data. -/
theorem decode_more {s : List UInt8} {n len : Nat}
    (h : R.size s = .ok (.complete (n, len))) (hlen : len ≠ 0) :
    decode R s = (decodeData R len (s.drop n)).addLine n := by
  obtain ⟨k, rfl⟩ := Nat.exists_eq_succ_of_ne_zero hlen
  rw [decode_eq, h]

/-- Without a complete size line there is nothing to decode. -/
theorem decode_fault {s : List UInt8} (h : ∀ n len, R.size s ≠ .ok (.complete (n, len))) :
    decode R s = .fault := by
  rw [decode_eq]
  split
  · next n heq => exact absurd heq (h n 0)
  · next n len heq => exact absurd heq (h n (len + 1))
  · rfl

/-- Data is decoded piece by piece. -/
theorem decodeData_append {len : Nat} {d : List UInt8} (h : d.length ≤ len) (s : List UInt8) :
    decodeData R len (d ++ s) = (decodeData R (len - d.length) s).prepend d := by
  unfold decodeData
  by_cases hshort : s.length < len - d.length
  · rw [if_pos hshort, if_pos (by rw [List.length_append]; omega)]
    rfl
  · rw [if_neg hshort, if_neg (by rw [List.length_append]; omega), Decoded.prepend_prepend,
      List.drop_append, List.take_append, List.drop_of_length_le h, List.take_of_length_le h]
    rfl

/-- Behind the data of a chunk stands its footer. -/
theorem decodeData_zero (s : List UInt8) : decodeData R 0 s = decodeFooter R s := by
  simp [decodeData]

/-- A complete body has the data that is still to come of its chunk. -/
theorem decodeData_body_ne_nil {len : Nat} (hlen : len ≠ 0) {s : List UInt8} {t : Tail τ}
    (htail : (decodeData R len s).tail = some t) : (decodeData R len s).body ≠ [] := by
  unfold decodeData at htail ⊢
  by_cases hshort : s.length < len
  · rw [if_pos hshort] at htail
    cases htail
  · rw [if_neg hshort, Decoded.prepend_body]
    intro hnil
    have htake := congrArg List.length (List.append_eq_nil_iff.mp hnil).1
    rw [List.length_take, List.length_nil] at htake
    omega

/-- A trailer section that is not there leaves a fault. -/
theorem decodeTail_fault {s : List UInt8} (h : ∀ n t, R.fields s ≠ .ok (.complete (n, t))) :
    decodeTail R s = .fault := by
  unfold decodeTail
  split
  · next n t heq => exact absurd heq (h n t)
  · rfl

theorem decodeTail_complete {s : List UInt8} {n : Nat} {t : τ}
    (h : R.fields s = .ok (.complete (n, t))) :
    decodeTail R s = ⟨[], [], some ⟨n, t, s.drop n⟩⟩ := by
  simp only [decodeTail, h]

/-- The size line of a body within the limits. -/
theorem size_le_of_fits {s : List UInt8} {n len maxLine maxTrailer : Nat}
    (h : R.size s = .ok (.complete (n, len))) (hfits : (decode R s).Fits maxLine maxTrailer) :
    n ≤ maxLine := by
  cases len with
  | zero =>
    rw [decode_last R h, Decoded.fits_addLine] at hfits
    exact hfits.1
  | succ len =>
    rw [decode_more R h (by simp), Decoded.fits_addLine] at hfits
    exact hfits.1

/-- Behind a chunk stands the next size line. -/
theorem decode_data_crlf {s data rest : List UInt8} {n : Nat}
    (hsize : R.size s = .ok (.complete (n, data.length))) (hdata : data ≠ [])
    (hdrop : s.drop n = data ++ 13 :: 10 :: rest) :
    decode R s = ((decode R rest).prepend data).addLine n := by
  have hlen : data.length ≠ 0 := fun h0 => hdata (List.length_eq_zero_iff.mp h0)
  rw [decode_more R hsize hlen, hdrop, decodeData_append R (Nat.le_refl _), Nat.sub_self,
    decodeData_zero]
  rfl

/-- The footer of a chunk is CRLF, or nothing is decoded from there on. -/
theorem decodeFooter_cases (s : List UInt8) :
    (∃ rest, s = 13 :: 10 :: rest) ∨ decodeFooter R s = .fault := by
  unfold decodeFooter
  split
  · unfold decodeLF
    split
    · next rest => exact .inl ⟨rest, rfl⟩
    · exact .inr rfl
  · exact .inr rfl

/-! ## Induction along a stream -/

variable {R}

/-- A stream begins with no size line, with the last one, with one whose data is cut off or
    lacks its footer, or with a whole chunk. -/
theorem decode_induction {P : List UInt8 → Prop}
    (fault : ∀ s, (∀ n len, R.size s ≠ .ok (.complete (n, len))) → P s)
    (last : ∀ s n, R.size s = .ok (.complete (n, 0)) → P s)
    (broken : ∀ s n len data, R.size s = .ok (.complete (n, len)) →
      decode R s = ⟨[n], data, none⟩ → P s)
    (chunk : ∀ s n data rest, R.size s = .ok (.complete (n, data.length)) → data ≠ [] →
      s.drop n = data ++ 13 :: 10 :: rest → P rest → P s)
    (s : List UInt8) : P s := by
  induction hk : s.length using Nat.strongRecOn generalizing s with
  | ind k ih =>
    subst hk
    by_cases hline : ∃ n len, R.size s = .ok (.complete (n, len))
    · obtain ⟨n, len, hsize⟩ := hline
      by_cases hlen : len = 0
      · subst hlen
        exact last s n hsize
      by_cases hshort : (s.drop n).length < len
      -- the stream ends inside the data
      · refine broken s n len (s.drop n) hsize ?_
        rw [decode_more R hsize hlen, decodeData, if_pos hshort]
        rfl
      have htake : ((s.drop n).take len).length = len :=
        List.length_take_of_le (Nat.le_of_not_lt hshort)
      rcases decodeFooter_cases R ((s.drop n).drop len) with ⟨rest, hrest⟩ | hfault
      · have hdrop : s.drop n = (s.drop n).take len ++ 13 :: 10 :: rest := by
          rw [← hrest, List.take_append_drop]
        have hne : (s.drop n).take len ≠ [] := by
          intro hnil
          rw [hnil] at htake
          exact hlen htake.symm
        have hlt : rest.length < s.length := by
          have hl := congrArg List.length hrest
          simp only [List.length_drop, List.length_cons] at hl
          omega
        rw [← htake] at hsize
        exact chunk s n _ rest hsize hne hdrop (ih rest.length hlt rest rfl)
      -- the data is not followed by CRLF
      · refine broken s n len ((s.drop n).take len) hsize ?_
        rw [decode_more R hsize hlen, decodeData, if_neg hshort, hfault]
        simp [Decoded.prepend, Decoded.addLine, Decoded.fault]
    · exact fault s fun n len h => hline ⟨n, len, h⟩

/-- A complete body is the last size line with the trailer section, or a chunk in front of a
    complete body. -/
theorem complete_induction {P : List UInt8 → Tail τ → Prop}
    (last : ∀ s n m a, R.size s = .ok (.complete (n, 0)) →
      R.fields (s.drop n) = .ok (.complete (m, a)) → P s ⟨m, a, (s.drop n).drop m⟩)
    (chunk : ∀ s n data rest t, R.size s = .ok (.complete (n, data.length)) → data ≠ [] →
      s.drop n = data ++ 13 :: 10 :: rest → (decode R rest).tail = some t → P rest t → P s t)
    {s : List UInt8} {t : Tail τ} (h : (decode R s).tail = some t) : P s t := by
  induction s using decode_induction (R := R) with
  | fault s hfault =>
    rw [decode_fault R hfault] at h
    cases h
  | last s n hsize =>
    rw [decode_last R hsize, Decoded.addLine_tail] at h
    unfold decodeTail at h
    split at h
    · next m a hfields =>
      cases h
      exact last s n m a hsize hfields
    · cases h
  | broken s n len data hsize hbroken =>
    rw [hbroken] at h
    cases h
  | chunk s n data rest hsize hdata hdrop ih =>
    rw [decode_data_crlf R hsize hdata hdrop] at h
    exact chunk s n data rest t hsize hdata hdrop h (ih h)

/-! ## Complete bodies -/

section Lawful

variable (hR : R.Lawful)
include hR

/-- A complete body is complete whatever follows it, and means the same. -/
theorem decode_append {s : List UInt8} {t : Tail τ} (h : (decode R s).tail = some t)
    (u : List UInt8) : decode R (s ++ u) = (decode R s).append u := by
  refine complete_induction (P := fun s _ => decode R (s ++ u) = (decode R s).append u)
    ?_ ?_ h
  · intro s n m a hsize hfields
    have hn := hR.size.length_le hsize
    have hm := hR.fields.length_le hfields
    have hfields' := hR.fields.complete_append hfields u
    rw [← List.drop_append_of_le_length hn] at hfields'
    rw [decode_last R hsize, decode_last R (hR.size.complete_append hsize u),
      decodeTail_complete R hfields, decodeTail_complete R hfields',
      List.drop_append_of_le_length hn, List.drop_append_of_le_length hm]
    rfl
  · intro s n data rest t hsize hdata hdrop _ ih
    have hn := hR.size.length_le hsize
    have hdrop' : (s ++ u).drop n = data ++ 13 :: 10 :: (rest ++ u) := by
      rw [List.drop_append_of_le_length hn, hdrop, List.append_assoc]
      rfl
    rw [decode_data_crlf R hsize hdata hdrop,
      decode_data_crlf R (hR.size.complete_append hsize u) hdata hdrop', ih,
      Decoded.append_addLine, Decoded.append_prepend]

/-- A stream that begins with a complete body is the body, complete by itself, and what
    stands behind it. -/
theorem decode_split {s : List UInt8} {t : Tail τ} (h : (decode R s).tail = some t) :
    ∃ p, s = p ++ t.rest ∧ (decode R p).tail = some { t with rest := [] } := by
  refine complete_induction
    (P := fun s t => ∃ p, s = p ++ t.rest ∧ (decode R p).tail = some { t with rest := [] })
    ?_ ?_ h
  · intro s n m a hsize hfields
    have hlen : (s.take n).length = n := List.length_take_of_le (hR.size.length_le hsize)
    have hline := hR.size.stable hsize ((s.drop n).take m)
    have hsection := hR.fields.complete_take hfields (Nat.le_refl m)
    refine ⟨s.take n ++ (s.drop n).take m, ?_, ?_⟩
    · rw [List.append_assoc, List.take_append_drop, List.take_append_drop]
    · rw [decode_last R hline, List.drop_left' hlen, Decoded.addLine_tail,
        decodeTail_complete R hsection]
      simp
  · intro s n data rest t hsize hdata hdrop _ ih
    obtain ⟨p, hp, hdecode⟩ := ih
    have hlen : (s.take n).length = n := List.length_take_of_le (hR.size.length_le hsize)
    have hline := hR.size.stable hsize (data ++ 13 :: 10 :: p)
    refine ⟨s.take n ++ (data ++ 13 :: 10 :: p), ?_, ?_⟩
    · calc s = s.take n ++ s.drop n := (List.take_append_drop n s).symm
        _ = _ := by
          rw [hdrop, hp]
          simp
    · rw [decode_data_crlf R hline hdata (List.drop_left' hlen)]
      exact hdecode

omit hR in
/-- A body that is complete for one pair of recognisers is complete, and the same, for
    another that recognises at least as many trailer sections. -/
theorem decode_mono {S : Recognisers τ} (hsize : ∀ {s n len},
      R.size s = .ok (.complete (n, len)) → S.size s = .ok (.complete (n, len)))
    (hfields : ∀ {s n t}, R.fields s = .ok (.complete (n, t)) →
      S.fields s = .ok (.complete (n, t)))
    {s : List UInt8} {t : Tail τ} (h : (decode R s).tail = some t) : decode S s = decode R s := by
  refine complete_induction (P := fun s _ => decode S s = decode R s)
    ?_ ?_ h
  · intro s n m a hs hf
    rw [decode_last R hs, decode_last S (hsize hs), decodeTail_complete R hf,
      decodeTail_complete S (hfields hf)]
  · intro s n data rest t hs hdata hdrop _ ih
    rw [decode_data_crlf R hs hdata hdrop, decode_data_crlf S (hsize hs) hdata hdrop, ih]

omit hR in
/-- The trailers of a complete body are what the recogniser of the section returned. -/
theorem decode_tail_fields {s : List UInt8} {t : Tail τ} (h : (decode R s).tail = some t) :
    ∃ s', R.fields s' = .ok (.complete (t.sectionLength, t.trailers)) := by
  refine complete_induction
    (P := fun _ t => ∃ s', R.fields s' = .ok (.complete (t.sectionLength, t.trailers)))
    ?_ ?_ h
  · intro s n m a _ hfields
    exact ⟨s.drop n, hfields⟩
  · intro s n data rest t _ _ _ _ ih
    exact ih

/-- No proper beginning of a complete body is complete. -/
theorem decode_cut {p u : List UInt8} {t : Tail τ} (h : (decode R (p ++ u)).tail = some t)
    (hrest : t.rest = []) (hu : u ≠ []) : (decode R p).tail = none := by
  rcases hp : (decode R p).tail with _ | t'
  · rfl
  · rw [decode_append hR hp u, Decoded.append_tail, hp] at h
    cases h
    exact absurd hrest (by simp [hu])

end Lawful

/-! ## Where size lines and trailer sections start -/

variable (R)

/-- `LineAt s u`: decoding `s` comes to a size line, or to what should be one, at the
    start of `u`. -/
inductive LineAt : List UInt8 → List UInt8 → Prop where
  | start (s : List UInt8) : LineAt s s
  | chunk {s u rest data : List UInt8} {n : Nat} :
      R.size s = .ok (.complete (n, data.length)) → data ≠ [] →
      s.drop n = data ++ 13 :: 10 :: rest → LineAt rest u → LineAt s u

/-- `SectionAt s u`: decoding `s` comes to the trailer section at the start of `u`. -/
def SectionAt (s u : List UInt8) : Prop :=
  ∃ l n, LineAt R s l ∧ R.size l = .ok (.complete (n, 0)) ∧ u = l.drop n

variable {R}

/-- A body is within the limits if and only if every size line and the trailer section
    that decoding comes to are. -/
theorem fits_iff {s : List UInt8} {maxLine maxTrailer : Nat} :
    (decode R s).Fits maxLine maxTrailer ↔
      (∀ u n len, LineAt R s u → R.size u = .ok (.complete (n, len)) → n ≤ maxLine) ∧
      ∀ u n t, SectionAt R s u → R.fields u = .ok (.complete (n, t)) → n ≤ maxTrailer := by
  constructor
  -- the limits hold of what is left at every size line, by induction on how it is come to
  · intro hfits
    have hline : ∀ u, LineAt R s u → (decode R u).Fits maxLine maxTrailer := by
      intro u hat
      induction hat with
      | start s => exact hfits
      | chunk hsize hdata hdrop _ ih =>
        rw [decode_data_crlf R hsize hdata hdrop, Decoded.fits_addLine, Decoded.fits_prepend] at hfits
        exact ih hfits.2
    constructor
    · intro u n len hat hsize
      exact size_le_of_fits R hsize (hline u hat)
    · rintro - n t ⟨l, k, hat, hsize, rfl⟩ hfields
      have hlast := hline l hat
      rw [decode_last R hsize, Decoded.fits_addLine, decodeTail_complete R hfields] at hlast
      exact hlast.2.2 _ rfl
  -- conversely each line that is decoded is one of them, by induction on the decoder
  · rintro ⟨hlines, hsections⟩
    induction s using decode_induction (R := R) with
    | fault s hfault =>
      rw [decode_fault R hfault]
      exact ⟨by simp, by simp⟩
    | last s n hsize =>
      rw [decode_last R hsize, Decoded.fits_addLine]
      refine ⟨hlines s n 0 (.start s) hsize, ?_⟩
      unfold decodeTail
      split
      · next m t hfields =>
        have hm := hsections _ m t ⟨s, n, .start s, hsize, rfl⟩ hfields
        exact ⟨by simp, by simpa using hm⟩
      · exact ⟨by simp, by simp⟩
    | broken s n len data hsize hbroken =>
      rw [hbroken]
      exact ⟨by simpa using hlines s n len (.start s) hsize, by simp⟩
    | chunk s n data rest hsize hdata hdrop ih =>
      rw [decode_data_crlf R hsize hdata hdrop, Decoded.fits_addLine, Decoded.fits_prepend]
      have hnext : ∀ {u}, LineAt R rest u → LineAt R s u := fun hat =>
        .chunk hsize hdata hdrop hat
      refine ⟨hlines s n _ (.start s) hsize, ih ?_ ?_⟩
      · exact fun u m len hat => hlines u m len (hnext hat)
      · rintro u m t ⟨l, j, hat, hj⟩
        exact hsections u m t ⟨l, j, hnext hat, hj⟩

/-! ## Encoding -/

/-- One block of data as a chunk; an empty block must not be written, as it would
    end the body. -/
def encodeChunk (line : Nat → List UInt8) (d : List UInt8) : List UInt8 :=
  if d.isEmpty then [] else line d.length ++ d ++ [13, 10]

/-- A sequence of blocks. -/
def encodeChunks (line : Nat → List UInt8) (ds : List (List UInt8)) : List UInt8 :=
  ds.flatMap (encodeChunk line)

@[simp] theorem encodeChunk_nil (line : Nat → List UInt8) : encodeChunk line [] = [] := rfl

theorem encodeChunk_of_ne_nil (line : Nat → List UInt8) {d : List UInt8} (h : d ≠ []) :
    encodeChunk line d = line d.length ++ d ++ [13, 10] := by
  simp [encodeChunk, h]

@[simp] theorem encodeChunks_nil (line : Nat → List UInt8) : encodeChunks line [] = [] := rfl

@[simp] theorem encodeChunks_cons (line : Nat → List UInt8) (d : List UInt8)
    (ds : List (List UInt8)) :
    encodeChunks line (d :: ds) = encodeChunk line d ++ encodeChunks line ds := rfl

/-- `line n` is recognised as a size line that announces `n`. -/
def Recognisers.Reads (line : Nat → List UInt8) (n : Nat) : Prop :=
  ∀ s, R.size (line n ++ s) = .ok (.complete ((line n).length, n))


/-- Decoding peels off one encoded block. -/
theorem decode_chunk {line : Nat → List UInt8} {d : List UInt8} (hd : d ≠ [])
    (hline : R.Reads line d.length) (s : List UInt8) :
    decode R (encodeChunk line d ++ s) =
      ((decode R s).prepend d).addLine (line d.length).length := by
  have hlen : d.length ≠ 0 := by simpa using hd
  rw [encodeChunk_of_ne_nil line hd, List.append_assoc, List.append_assoc,
    decode_more R (hline _) hlen, List.drop_left]
  congr 1
  rw [decodeData, if_neg (by simp), List.drop_left, List.take_left]
  rfl

/-- Decoding peels off any number of encoded blocks: their data comes first, and
    the tail is that of what follows. -/
theorem decode_chunks {line : Nat → List UInt8} {ds : List (List UInt8)}
    (hline : ∀ d ∈ ds, d ≠ [] → R.Reads line d.length) (s : List UInt8) :
    decode R (encodeChunks line ds ++ s) =
      { sizeLines := (ds.filter fun d => !d.isEmpty).map (fun d => (line d.length).length) ++
          (decode R s).sizeLines
        body := ds.flatten ++ (decode R s).body
        tail := (decode R s).tail } := by
  induction ds with
  | nil => rfl
  | cons d ds ih =>
    have ih := ih fun e he => hline e (List.mem_cons_of_mem d he)
    by_cases hd : d = []
    · subst hd
      simpa using ih
    · rw [encodeChunks_cons, List.append_assoc,
        decode_chunk hd (hline d List.mem_cons_self hd), ih]
      simp [Decoded.prepend, Decoded.addLine, hd]

end ChunkedCoding
