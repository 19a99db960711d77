/-
  Jrpxy.Body.Writer

  Body writers for messages without a body, with a declared length, and
  delimited by the end of the connection.

  A writer owns its sink in the program.  Here the sink is passed beside it:
  what has gone out on the wire outlives a writer that is dropped on an error.
  Each writer is a `Phases` with no framing of its own; they differ in how
  much data they admit.
-/
import Jrpxy.Body.Error

namespace Jrpxy.Body.Writer

open Poll BlockWriter Util

/-! ## Machine integers -/

/-- A length that a `u64` can hold. -/
theorem toNat_ofNat_of_lt {n : Nat} (h : n < 2 ^ 64) : (UInt64.ofNat n).toNat = n := by
  rw [UInt64.toNat_ofNat', Nat.mod_eq_of_lt h]

/-- A sum that stays within a `u64` does not wrap. -/
theorem toNat_add_of_le {a b limit : UInt64} (h : a.toNat + b.toNat ≤ limit.toNat) :
    (a + b).toNat = a.toNat + b.toNat := by
  have hlt := limit.toNat_lt
  rw [UInt64.toNat_add]
  exact Nat.mod_eq_of_lt (by omega)

/-- An offset that advances within a limit counts exactly. -/
theorem toNat_add_ofNat_of_le {offset limit : UInt64} {n : Nat}
    (h : offset.toNat + n ≤ limit.toNat) : (offset + UInt64.ofNat n).toNat = offset.toNat + n := by
  have hlt := limit.toNat_lt
  have hn := toNat_ofNat_of_lt (show n < 2 ^ 64 by omega)
  rw [@toNat_add_of_le offset (UInt64.ofNat n) limit (by omega), hn]

/-! ## Polls the writers share -/

/-- The loop `while written < data.len()` around `poll_write(&data[written..])`; the
    counter is a machine integer that wraps by `wrap`. -/
def pollSendLoop (wrap : Nat → Nat) (data : Bytes) :
    Nat → Nat → Sink → Polled BodyError Unit × Nat × Sink
  | 0, written, sink => (.ok (), written, sink)
  | fuel + 1, written, sink =>
    if written < data.length then
      match sink.pollWrite (data.drop written) with
      | (.ok 0, sink) => (.err (.bodyWriteError .writeZero), written, sink)
      | (.ok w, sink) => pollSendLoop wrap data fuel (wrap (written + w)) sink
      | (.err e, sink) => (.err (.bodyWriteError e), written, sink)
      | (.pending, sink) => (.pending, written, sink)
      | (.panic, sink) => (.panic, written, sink)
    else (.ok (), written, sink)

/-- Send what is left of `data`; every round sends at least one byte of it. -/
def pollSend (wrap : Nat → Nat) (data : Bytes) (written : Nat) (sink : Sink) :
    Polled BodyError Unit × Nat × Sink :=
  pollSendLoop wrap data (data.length - written) written sink

/-- `poll_flush`, with the error of the body writers. -/
def pollFlush (sink : Sink) : Polled BodyError Unit × Sink :=
  mapErr .bodyWriteError sink.pollFlush

/-- Write some of `buffer`, which must fit between `offset` and `maxLength`. -/
def pollWriteBounded (maxLength : UInt64) (buffer : Bytes) (offset : UInt64) (sink : Sink) :
    Polled BodyError Nat × UInt64 × Sink :=
  let target := offset.toNat + buffer.length
  -- a complete write of this buffer would overflow the size of a u64
  if 2 ^ 64 ≤ target then (.err (.bodyOverflow maxLength.toNat), offset, sink)
  -- a complete write of this buffer would overflow the allowed length
  else if maxLength.toNat < target then (.err (.bodyOverflow maxLength.toNat), offset, sink)
  else
    match sink.pollWrite buffer with
    | (.ok len, sink) => (.ok len, offset + UInt64.ofNat len, sink)
    | (.err e, sink) => (.err (.bodyWriteError e), offset, sink)
    | (.pending, sink) => (.pending, offset, sink)
    | (.panic, sink) => (.panic, offset, sink)

/-- A flush sends nothing. -/
theorem pollFlush_meets (s : Sink) :
    Meets (pollFlush s) {
      pending := fun s' => Sends medium [] s s' ∧ s'.weight < s.weight
      ok := fun _ s' => Sends medium [] s s'
      err := fun _ s' => s'.wire = s.wire ∧ ¬ s.Accepting } := by
  refine (Sink.pollFlush_meets s).mapErr ?_ ?_ (fun _ _ h => h)
  · rintro s' ⟨hwire, hacc, hweight⟩
    exact ⟨⟨hwire.trans (List.append_nil _).symm, hacc, Nat.le_of_lt hweight⟩, hweight⟩
  · rintro - s' ⟨hwire, hacc, hweight⟩
    exact ⟨hwire.trans (List.append_nil _).symm, hacc, hweight⟩

/-- What sending the rest of `data` comes to, and where the counter stands. -/
def sentPost (data : Bytes) (written : Nat) (s : Sink) : Post BodyError Unit (Nat × Sink) where
  pending := fun (k, s') => s'.weight < s.weight ∧
    ∃ x, Sends medium x s s' ∧ data.drop written = x ++ data.drop k
  ok := fun _ (k, s') => data.drop k = [] ∧ Sends medium (data.drop written) s s'
  err := fun _ (_, s') => ¬ s.Accepting ∧
    ∃ x y, data.drop written = x ++ y ∧ s'.wire = s.wire ++ x

/-- When nothing is left, nothing is sent. -/
theorem sent_done {data : Bytes} {written : Nat} (hle : data.length ≤ written) (s : Sink) :
    Meets (.ok (), written, s) (sentPost data written s) := by
  have hnil := List.drop_eq_nil_iff.mpr hle
  exact ⟨hnil, by rw [hnil]; exact Sends.refl _ _⟩

theorem pollSendLoop_meets {wrap : Nat → Nat} {data : Bytes}
    (hwrap : ∀ k ≤ data.length, wrap k = k) (fuel written : Nat) (s : Sink)
    (hfuel : data.length - written ≤ fuel) :
    Meets (pollSendLoop wrap data fuel written s) (sentPost data written s) := by
  induction fuel generalizing written s with
  | zero => exact sent_done (by omega) s
  | succ fuel ih =>
    rw [pollSendLoop]
    by_cases hlt : written < data.length
    · rw [if_pos hlt]
      have hne : data.drop written ≠ [] := by
        intro hnil
        rw [List.drop_eq_nil_iff] at hnil
        omega
      have hpoll := Sink.pollWrite_sends (data.drop written) s
      generalize s.pollWrite (data.drop written) = x at hpoll
      obtain ⟨_ | n | e | _, s'⟩ := x
      · exact ⟨hpoll.2, [], hpoll.1, rfl⟩
      · obtain ⟨hsends, hn, hzero⟩ := hpoll
        rw [List.length_drop] at hn
        cases n with
        | zero =>
          -- `WriteZero`
          exact ⟨(hzero hne rfl).2, [], data.drop written, rfl, hsends.wire⟩
        | succ n =>
          have hsplit : data.drop written =
              (data.drop written).take (n + 1) ++ data.drop (written + (n + 1)) := by
            rw [← List.drop_drop, List.take_append_drop]
          simp only
          rw [hwrap _ (by omega)]
          refine (ih (written + (n + 1)) s' (by omega)).mono ?_ ?_ ?_
          · rintro ⟨k, s''⟩ ⟨hweight, x, hx, hleft⟩
            have hw := hsends.weight
            refine ⟨Nat.lt_of_lt_of_le hweight hw, _, hsends.trans hx, ?_⟩
            rw [List.append_assoc, ← hleft, ← hsplit]
          · rintro - ⟨k, s''⟩ ⟨hk, hx⟩
            refine ⟨hk, ?_⟩
            rw [hsplit]
            exact hsends.trans hx
          · rintro e ⟨k, s''⟩ ⟨hacc, x, y, hleft, hwire⟩
            refine ⟨fun h => hacc (hsends.accepting h),
              (data.drop written).take (n + 1) ++ x, y, ?_, ?_⟩
            · rw [List.append_assoc, ← hleft, ← hsplit]
            · have hw : s'.wire = s.wire ++ (data.drop written).take (n + 1) := hsends.wire
              rw [hwire, hw, List.append_assoc]
      · exact ⟨hpoll.2, [], data.drop written, rfl, by simpa using hpoll.1⟩
      · exact hpoll
    · rw [if_neg hlt]
      exact sent_done (by omega) s

/-- A poll sends some of what is left, and is ready when nothing is. -/
theorem pollSend_meets {wrap : Nat → Nat} {data : Bytes}
    (hwrap : ∀ k ≤ data.length, wrap k = k) (written : Nat) (s : Sink) :
    Meets (pollSend wrap data written s) (sentPost data written s) :=
  pollSendLoop_meets hwrap _ written s (Nat.le_refl _)

/-- A buffer that fits is handed to the sink, and the offset advances by what was taken. -/
theorem pollWriteBounded_meets {maxLength offset : UInt64} {buffer : Bytes} (hne : buffer ≠ [])
    (hfit : buffer.length ≤ maxLength.toNat - offset.toNat) (s : Sink) :
    Meets (pollWriteBounded maxLength buffer offset s) {
      pending := fun (o, s') => Sends medium [] s s' ∧ o = offset ∧ s'.weight < s.weight
      ok := fun n (o, s') => Sends medium (buffer.take n) s s' ∧ n ≤ buffer.length ∧
        maxLength.toNat - o.toNat = maxLength.toNat - offset.toNat - n ∧
        (n = 0 → s'.weight < s.weight ∧ ¬ s.Accepting)
      err := fun _ (_, s') => s'.wire = s.wire ∧ ¬ s.Accepting } := by
  have hpos := List.length_pos_iff.mpr hne
  have hmax := maxLength.toNat_lt
  have hle : offset.toNat + buffer.length ≤ maxLength.toNat := by omega
  unfold pollWriteBounded
  rw [if_neg (by omega), if_neg (by omega)]
  have hpoll := Sink.pollWrite_sends buffer s
  generalize s.pollWrite buffer = x at hpoll
  obtain ⟨_ | n | e | _, s'⟩ := x
  · exact ⟨hpoll.1, rfl, hpoll.2⟩
  · obtain ⟨hsends, hn, hzero⟩ := hpoll
    refine ⟨hsends, hn, ?_, hzero hne⟩
    have hsum : offset.toNat + n ≤ maxLength.toNat := by omega
    rw [toNat_add_ofNat_of_le hsum]
    omega
  · exact hpoll
  · exact hpoll

/-- A buffer that does not fit is refused, and nothing is written. -/
theorem pollWriteBounded_overflow {maxLength offset : UInt64} {buffer : Bytes}
    (hbig : maxLength.toNat < offset.toNat + buffer.length) (s : Sink) :
    pollWriteBounded maxLength buffer offset s =
      (.err (.bodyOverflow maxLength.toNat), offset, s) := by
  unfold pollWriteBounded
  by_cases hwrap : 2 ^ 64 ≤ offset.toNat + buffer.length
  · rw [if_pos hwrap]
  · rw [if_neg hwrap, if_pos hbig]

end Jrpxy.Body.Writer
