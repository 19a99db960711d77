/-
  Jrpxy.HttpMessage.HeadLimit

  What the limit on the length of a head comes to.

  The loop tries to parse before it looks at the limit, and reads no further
  than the limit.  So a head that fits is never rejected for its length; and
  one that does not fit is read only if it lies in the buffer, complete, before
  the first read (`honoursLimit_iff`).
-/
import Jrpxy.HttpMessage.ReadHead

namespace Jrpxy.HttpMessage

open Poll Incremental Util

variable {ε ε' α β : Type}

/-- A head parser finds what `recognise` recognises in the buffer, and splits it off. -/
structure HeadParser.Finds (parse : HeadParser α)
    (recognise : Bytes → Except ε' (Status (Nat × β))) : Prop where
  streamParser : StreamParser recognise
  none : ∀ {r r'}, parse r = (.ok none, r') → r' = r ∧ recognise r.asBytes = .ok .incomplete
  some : ∀ {r r' a}, parse r = (.ok (some a), r') →
    ∃ n p, recognise r.asBytes = .ok (.complete (n, p)) ∧
      r.splitTo n = .some (r.asBytes.take n, r')

/-- The error about the limit is none of the others. -/
structure HeadErrors.LimitDistinct (errors : HeadErrors ε) : Prop where
  parseError : ∀ e len max, errors.parseError e ≠ errors.maxHeadLenExceeded len max
  readError : ∀ e len max, errors.readError e ≠ errors.maxHeadLenExceeded len max
  firstReadEOF : ∀ len max, errors.firstReadEOF ≠ errors.maxHeadLenExceeded len max
  unexpectedEOF : ∀ len max, errors.unexpectedEOF ≠ errors.maxHeadLenExceeded len max

/-- What the limit is to guarantee of one call: what is read is within it, and a head
    within it, of which some may be missing, is not rejected for its length. -/
structure HonoursLimit (errors : HeadErrors ε)
    (recognise : Bytes → Except ε' (Status (Nat × β))) (maxHeadLength : Nat)
    (reader : BytesReader) (answer : Polled ε α × BytesReader) : Prop where
  within : ∀ a r, answer = (.ok a, r) →
    ∃ head, reader.unread = head ++ r.unread ∧ head.length ≤ maxHeadLength
  accepted : ∀ n p rest, recognise (reader.unread ++ rest) = .ok (.complete (n, p)) →
    n ≤ maxHeadLength → ∀ len max, answer.1 ≠ .err (errors.maxHeadLenExceeded len max)

/-- The buffer holds a complete head longer than the limit, and it parses. -/
def HoldsLongHead (parse : HeadParser α) (recognise : Bytes → Except ε' (Status (Nat × β)))
    (maxHeadLength : Nat) (reader : BytesReader) : Prop :=
  ∃ n p a r, recognise reader.asBytes = .ok (.complete (n, p)) ∧ maxHeadLength < n ∧
    parse reader = (.ok (some a), r)

section

variable {errors : HeadErrors ε} {parse : HeadParser α}
variable {recognise : Bytes → Except ε' (Status (Nat × β))} {maxHeadLength : Nat}
variable (hfinds : parse.Finds recognise)

include hfinds

/-- A buffer within the limit holds no head beyond it. -/
theorem not_holdsLongHead {reader : BytesReader} (hlen : reader.len ≤ maxHeadLength) :
    ¬ HoldsLongHead parse recognise maxHeadLength reader := by
  rintro ⟨n, p, a, r, hcomplete, hlong, -⟩
  have hle := hfinds.streamParser.length_le hcomplete
  rw [BytesReader.length_asBytes] at hle
  omega

/-- Every round but the first starts on a buffer within the limit. -/
theorem readHeadLoop_within {fuel : Nat} {reader r : BytesReader} {a : α}
    (hnot : ¬ HoldsLongHead parse recognise maxHeadLength reader)
    (hok : readHeadLoop errors parse maxHeadLength fuel reader = (.ok a, r)) :
    ∃ head, reader.unread = head ++ r.unread ∧ head.length ≤ maxHeadLength := by
  induction fuel generalizing reader with
  | zero => cases hok
  | succ fuel ih =>
    obtain hparse | ⟨r₁, hunread₁, hlen₁, hrest⟩ :=
      readHeadLoop_ok (fun h => (hfinds.none h).1) hok
    · obtain ⟨n, p, hcomplete, hsplit⟩ := hfinds.some hparse
      obtain ⟨-, hunread, -, hlen, -, -⟩ := BytesReader.unread_splitTo hsplit
      refine ⟨_, hunread, ?_⟩
      rw [hlen]
      apply Nat.le_of_not_lt
      intro hlong
      exact hnot ⟨n, p, a, r, hcomplete, hlong, hparse⟩
    -- what is read on stays within the limit
    · obtain ⟨head, hunread, hshort⟩ := ih (not_holdsLongHead hfinds hlen₁) hrest
      exact ⟨head, hunread₁.symm.trans hunread, hshort⟩

/-- Within the limit, the parser finds the head before the limit is reached. -/
theorem readHeadLoop_accepted (hdistinct : errors.LimitDistinct) {fuel n : Nat} {p : β}
    {rest : Bytes} {reader : BytesReader}
    (hcomplete : recognise (reader.unread ++ rest) = .ok (.complete (n, p)))
    (hn : n ≤ maxHeadLength) (len max : Nat) :
    (readHeadLoop errors parse maxHeadLength fuel reader).1 ≠
      .err (errors.maxHeadLenExceeded len max) := by
  induction fuel generalizing reader with
  | zero =>
    intro h
    cases h
  | succ fuel ih =>
    rw [readHeadLoop]
    rcases hparse : parse reader with ⟨_ | (_ | head) | e | _, r₁⟩
    · intro h
      cases h
    -- what is incomplete is shorter than the head, and so below the limit
    · obtain ⟨rfl, hincomplete⟩ := hfinds.none hparse
      rw [BytesReader.unread, List.append_assoc] at hcomplete
      have hlt := hfinds.streamParser.lt_of_incomplete hincomplete hcomplete
      rw [BytesReader.length_asBytes] at hlt
      simp only [mapErr_mk, Polled.mapErr_ok, andThen_ok]
      rw [if_neg (by omega)]
      have hread := @BytesReader.read_meets (maxHeadLength - r₁.len) (by omega) r₁
      generalize r₁.read (maxHeadLength - r₁.len) = x at hread
      obtain ⟨_ | k | e | _, r₂⟩ := x
      · intro h
        cases h
      · simp only [mapErr_mk, Polled.mapErr_ok, andThen_ok]
        split
        · split
          · exact fun h => hdistinct.firstReadEOF len max (Polled.err.inj h)
          · exact fun h => hdistinct.unexpectedEOF len max (Polled.err.inj h)
        · apply ih
          rw [hread.1, BytesReader.unread, List.append_assoc]
          exact hcomplete
      · exact fun h => hdistinct.readError e len max (Polled.err.inj h)
      · intro h
        cases h
    · intro h
      cases h
    · exact fun h => hdistinct.parseError e len max (Polled.err.inj h)
    · intro h
      cases h

/-- The limit is honoured if and only if the buffer does not hold a longer head already:
    for every buffer, every continuation of the stream and every segmentation of it. -/
theorem honoursLimit_iff (hdistinct : errors.LimitDistinct) (maxHeadLength : Nat)
    (reader : BytesReader) :
    HonoursLimit errors recognise maxHeadLength reader
        (readHead errors parse maxHeadLength reader) ↔
      ¬ HoldsLongHead parse recognise maxHeadLength reader := by
  constructor
  · rintro hhonours ⟨n, p, a, r, hcomplete, hlong, hparse⟩
    have hok : readHead errors parse maxHeadLength reader = (.ok a, r) := by
      rw [readHead, readHeadLoop, hparse]
      rfl
    obtain ⟨head, hunread, hshort⟩ := hhonours.within a r hok
    obtain ⟨n', p', hcomplete', hsplit⟩ := hfinds.some hparse
    obtain ⟨-, hunread', -, hlen, -, -⟩ := BytesReader.unread_splitTo hsplit
    rw [hcomplete] at hcomplete'
    cases hcomplete'
    rw [hunread'] at hunread
    have hsame := congrArg List.length (List.append_cancel_right hunread)
    omega
  · intro hnot
    constructor
    · exact fun a r hok => readHeadLoop_within hfinds hnot hok
    · exact fun n p rest hcomplete hn len max =>
        readHeadLoop_accepted hfinds hdistinct hcomplete hn len max

end

end Jrpxy.HttpMessage
