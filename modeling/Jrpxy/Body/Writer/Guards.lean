/-
  Jrpxy.Body.Writer.Guards

  The guards of the body writers.

  The counters a writer keeps say how many bytes of a head, of a chunk or of a
  foot have gone out, also behind a poll that failed, and a transition looks
  at them before it lets the writer through.
-/
import Jrpxy.Body.Writer.Unifier
import Jrpxy.Lib.BlockWriter.Ledger

namespace Jrpxy.Body.Writer

open Poll BlockWriter Util

/-! ## Polls the writers share -/

/-- Whatever the answer, the counter moves by what went out. -/
theorem pollSendLoop_advances {wrap : Nat → Nat} {data : Bytes}
    (hwrap : ∀ k ≤ data.length, wrap k = k) (fuel written : Nat) (s : Sink) :
    ∃ d, (pollSendLoop wrap data fuel written s).2.2.wire = s.wire ++ d ∧
      data.drop written = d ++ data.drop (pollSendLoop wrap data fuel written s).2.1 := by
  induction fuel generalizing written s with
  | zero => exact ⟨[], by simp [pollSendLoop], rfl⟩
  | succ fuel ih =>
    rw [pollSendLoop]
    by_cases hlt : written < data.length
    · rw [if_pos hlt]
      have hpoll := Sink.pollWrite_sends (data.drop written) s
      generalize s.pollWrite (data.drop written) = x at hpoll
      obtain ⟨_ | n | e | _, s'⟩ := x
      · exact ⟨[], hpoll.1.wire, rfl⟩
      · obtain ⟨hsends, hn, -⟩ := hpoll
        rw [List.length_drop] at hn
        cases n with
        -- a refusal is an error, and the counter stays where it was
        | zero => exact ⟨[], hsends.wire, rfl⟩
        | succ n =>
          simp only
          rw [hwrap _ (by omega)]
          obtain ⟨d, hwire, hdrop⟩ := ih (written + (n + 1)) s'
          refine ⟨(data.drop written).take (n + 1) ++ d, ?_, ?_⟩
          · rw [hwire, show s'.wire = s.wire ++ _ from hsends.wire, List.append_assoc]
          · rw [List.append_assoc, ← hdrop, ← List.drop_drop, List.take_append_drop]
      · exact ⟨[], by simpa using hpoll.1, rfl⟩
      · exact hpoll.elim
    · rw [if_neg hlt]
      exact ⟨[], by simp, rfl⟩

/-- Sending a line under a counter accounts for what went out of it. -/
theorem advances_pollSend {τ : Type} (wrap : Nat → Nat) (view : τ → Framed) (data : Bytes)
    (written : Nat) (put : Nat → τ)
    (hview : ∀ k, view (put k) = { view (put written) with left := data.drop k })
    (hwrap : ∀ k ≤ data.length, wrap k = k) (s : Sink) :
    Advances medium view (put written) s (match pollSend wrap data written s with
      | (answer, k, s') => (answer, put k, s')) := by
  have hloop := pollSendLoop_advances hwrap (data.length - written) written s
  unfold pollSend
  generalize pollSendLoop wrap data (data.length - written) written s = x at hloop
  obtain ⟨answer, k, s'⟩ := x
  obtain ⟨d, hwire, hdrop⟩ := hloop
  refine ⟨d, hwire, ?_⟩
  show view (put written) = { view (put k) with left := d ++ (view (put k)).left }
  rw [hview k]
  simp only
  rw [← hdrop]
  exact hview written

/-- A write under an offset accounts for what it took, also of a buffer that is refused. -/
theorem takes_pollWriteBounded {τ : Type} {view : τ → Writing} (maxLength offset : UInt64)
    (put : UInt64 → τ)
    (hview : ∀ o, view (put o) = { view (put offset) with left := maxLength.toNat - o.toNat })
    (buf : Bytes) (s : Sink) :
    Takes medium view buf (put offset) s (match pollWriteBounded maxLength buf offset s with
      | (answer, o, s') => (answer, put o, s')) := by
  have hleft := congrArg Writing.left (hview offset)
  have hmax := maxLength.toNat_lt
  by_cases hbig : maxLength.toNat < offset.toNat + buf.length
  · rw [pollWriteBounded_overflow hbig]
    exact ⟨rfl, rfl⟩
  · rw [pollWriteBounded, if_neg (by omega), if_neg hbig]
    have hpoll := Sink.pollWrite_sends buf s
    generalize s.pollWrite buf = x at hpoll
    obtain ⟨_ | n | e | _, s'⟩ := x
    · exact ⟨by simpa using hpoll.1.wire, rfl⟩
    · obtain ⟨hsends, hn, -⟩ := hpoll
      have hsum : offset.toNat + n ≤ maxLength.toNat := by omega
      refine ⟨hn, ?_, hsends.wire, ?_⟩
      · rw [hleft]
        show n ≤ maxLength.toNat - offset.toNat
        omega
      · rw [hview, hleft, toNat_add_ofNat_of_le hsum, Nat.sub_sub]
    · exact ⟨hpoll.1, rfl⟩
    · exact hpoll.elim

/-! ## Each encoding -/

theorem Bodyless.phases_guarded : Bodyless.phases.Guarded medium (2 ^ 64) where
  openBlock := by
    intro n r o hn hok
    have hzero : n = 0 := by
      apply Nat.eq_zero_of_not_pos
      intro hpos
      have hlt : (0 : UInt64) < UInt64.ofNat n := by
        rw [UInt64.lt_iff_toNat_lt, toNat_ofNat_of_lt hn]
        exact hpos
      have hopen : Bodyless.Ready.open r (UInt64.ofNat n) = .error (.bodyOverflow 0) := if_pos hlt
      cases hopen.symm.trans hok
    subst hzero
    exact ⟨fun _ _ => Nat.zero_le _, rfl⟩
  pollOpen o s := .refl medium _ o s _
  intoWrite _ := ⟨rfl, rfl⟩
  pollWrite buf w s := by
    cases buf with
    | nil => exact ⟨Nat.zero_le _, Nat.le_refl _, (List.append_nil _).symm, rfl⟩
    | cons b bs => exact ⟨rfl, rfl⟩
  intoClose _ := ⟨rfl, rfl⟩
  pollClose c s := .refl medium _ c s _
  intoReady _ := ⟨rfl, rfl⟩

theorem ContentLength.phases_guarded : ContentLength.phases.Guarded medium (2 ^ 64) where
  openBlock := by
    intro n r o hn hok
    have hlen := toNat_ofNat_of_lt hn
    have hoff := r.offset_le
    -- a block that is opened is within what is left of the declared length
    by_cases hfits : r.offset.toNat + (UInt64.ofNat n).toNat ≤ r.length.toNat
    · have hopen := ContentLength.Ready.open_eq hfits
      cases hopen.symm.trans hok
      rw [hlen] at hfits
      refine ⟨?_, ?_⟩
      · intro k hk
        cases hk
        omega
      · show Framed.mk (idle _ _) _ _ = Framed.mk (idle _ _) _ _
        simp only [hlen, idle, Nat.sub_sub]
        rfl
    · have hopen := ContentLength.Ready.open_overflow (Nat.lt_of_not_le hfits)
      cases hopen.symm.trans hok
  pollOpen o s := .refl medium _ o s _
  intoWrite := by
    intro o w hok
    cases hok
    exact ⟨rfl, rfl⟩
  pollWrite buf w s := takes_pollWriteBounded w.chunkLength w.chunkOffset
    (fun chunkOffset => { w with chunkOffset }) (fun _ => rfl) buf s
  intoClose := by
    intro w c hok
    by_cases hlt : w.chunkOffset < w.chunkLength
    · have hclose : w.intoClose = .error _ := if_pos hlt
      cases hclose.symm.trans hok
    · have hclose : w.intoClose = .ok _ := if_neg hlt
      cases hclose.symm.trans hok
      rw [UInt64.lt_iff_toNat_lt] at hlt
      refine ⟨?_, ?_⟩
      · show w.chunkLength.toNat - w.chunkOffset.toNat = 0
        omega
      -- behind the block the offset counts it
      · show Framed.mk (idle _ _) _ _ = Framed.mk (idle _ _) _ _
        rw [w.offset_le]
        rfl
  pollClose c s := .refl medium _ c s _
  intoReady := by
    intro c r hok
    cases hok
    exact ⟨rfl, rfl⟩

theorem Chunked.phases_guarded : Chunked.phases.Guarded medium (2 ^ 64) where
  openBlock := by
    intro n r o hn hok
    obtain ⟨o', ho', hopening⟩ :=
      Chunked.phases_lawful.openBlock (r := r) (fun _ h => by cases h) hn
    cases ho'.symm.trans hok
    exact ⟨fun _ h => (by cases h), hopening⟩
  pollOpen o s := advances_pollSend wrapU8 _ o.header o.written
    (fun written => { o with written }) (fun _ => rfl) (wrapU8_eq o.header_le) s
  intoWrite := by
    intro o w hok
    by_cases hlt : o.written < o.header.length
    · have hwrite : o.intoWrite = .error _ := if_pos hlt
      cases hwrite.symm.trans hok
    · have hwrite : o.intoWrite = .ok _ := if_neg hlt
      cases hwrite.symm.trans hok
      exact ⟨List.drop_eq_nil_iff.mpr (Nat.le_of_not_lt hlt), rfl⟩
  pollWrite buf w s := takes_pollWriteBounded w.chunkLength w.chunkOffset
    (fun chunkOffset => { w with chunkOffset }) (fun _ => rfl) buf s
  intoClose := by
    intro w c hok
    by_cases hlt : w.chunkOffset < w.chunkLength
    · have hclose : w.intoClose = .error _ := if_pos hlt
      cases hclose.symm.trans hok
    · rw [UInt64.lt_iff_toNat_lt] at hlt
      have hleft : w.chunkLength.toNat - w.chunkOffset.toNat = 0 := by omega
      obtain ⟨c', hc', hclosing⟩ := Chunked.phases_lawful.intoClose (w := w) hleft
      cases hc'.symm.trans hok
      exact ⟨hleft, hclosing⟩
  pollClose c s := advances_pollSend wrapU8 _ _ c.footerWritten
    (fun footerWritten => { c with footerWritten })
    (fun _ => rfl) (wrapU8_eq (Nat.le_trans (List.length_take_le' _ _) (by decide))) s
  intoReady := by
    intro c r hok
    by_cases hlt : c.footerWritten < c.footerLen
    · have hready : c.intoReady = .error _ := if_pos hlt
      cases hready.symm.trans hok
    · refine ⟨List.drop_eq_nil_iff.mpr ?_, rfl⟩
      rw [List.length_take, Nat.min_eq_left c.footerLen_le]
      exact Nat.le_of_not_lt hlt

theorem Eof.phases_guarded : Eof.phases.Guarded medium (2 ^ 64) where
  openBlock := by
    intro n r o hn hok
    obtain ⟨o', ho', hopening⟩ :=
      Eof.phases_lawful.openBlock (r := r) (fun _ h => by cases h) hn
    cases ho'.symm.trans hok
    exact ⟨fun _ h => (by cases h), hopening⟩
  pollOpen o s := .refl medium _ o s _
  intoWrite := by
    intro o w hok
    cases hok
    exact ⟨rfl, rfl⟩
  pollWrite buf w s := takes_pollWriteBounded w.chunkLength w.chunkOffset
    (fun chunkOffset => { w with chunkOffset }) (fun _ => rfl) buf s
  intoClose := by
    intro w c hok
    by_cases hlt : w.chunkOffset < w.chunkLength
    · have hclose : w.intoClose = .error _ := if_pos hlt
      cases hclose.symm.trans hok
    · rw [UInt64.lt_iff_toNat_lt] at hlt
      have hleft : w.chunkLength.toNat - w.chunkOffset.toNat = 0 := by omega
      exact ⟨hleft, rfl⟩
  pollClose c s := .refl medium _ c s _
  intoReady _ := ⟨rfl, rfl⟩

/-! ## Any encoding -/

namespace Unifier

variable {eof : Bool}

/-- A call of the whole that succeeds is a call of the part that succeeds. -/
theorem exists_part_ok {ε α β : Type} (f : BodyError → ε) (put : α → β) {x : Except BodyError α}
    {b : β} (h : (x.mapError f).map put = .ok b) : ∃ a, x = .ok a ∧ put a = b := by
  obtain e | a := x
  · cases h
  · cases h
    exact ⟨a, rfl, rfl⟩

theorem phases_guarded (eof : Bool) {ε : Type} (f : BodyError → ε) :
    (phases eof f).Guarded medium (2 ^ 64) where
  openBlock := by
    intro n r o hn hok
    cases r with
    | bodyless r =>
      obtain ⟨_, hpart, rfl⟩ := exists_part_ok f Encoding.bodyless (x := r.open (UInt64.ofNat n)) hok
      exact Bodyless.phases_guarded.openBlock (r := r) hn hpart
    | cl r =>
      obtain ⟨_, hpart, rfl⟩ := exists_part_ok f Encoding.cl (x := r.open (UInt64.ofNat n)) hok
      exact ContentLength.phases_guarded.openBlock (r := r) hn hpart
    | chunked r =>
      cases hok
      exact Chunked.phases_guarded.openBlock (r := r) hn rfl
    | eof a r =>
      cases hok
      exact Eof.phases_guarded.openBlock (r := r) hn rfl
  pollOpen := by
    intro o s
    cases o with
    | bodyless o => exact (Bodyless.phases_guarded.pollOpen o s).wrap f Encoding.bodyless fun _ => rfl
    | cl o => exact (ContentLength.phases_guarded.pollOpen o s).wrap f Encoding.cl fun _ => rfl
    | chunked o => exact (Chunked.phases_guarded.pollOpen o s).wrap f Encoding.chunked fun _ => rfl
    | eof a o => exact (Eof.phases_guarded.pollOpen o s).wrap f (Encoding.eof a) fun _ => rfl
  intoWrite := by
    intro o w hok
    cases o with
    | bodyless o =>
      obtain ⟨_, hpart, rfl⟩ := exists_part_ok f Encoding.bodyless (x := o.intoWrite) hok
      exact Bodyless.phases_guarded.intoWrite (o := o) hpart
    | cl o =>
      obtain ⟨_, hpart, rfl⟩ := exists_part_ok f Encoding.cl (x := o.intoWrite) hok
      exact ContentLength.phases_guarded.intoWrite (o := o) hpart
    | chunked o =>
      obtain ⟨_, hpart, rfl⟩ := exists_part_ok f Encoding.chunked (x := o.intoWrite) hok
      exact Chunked.phases_guarded.intoWrite (o := o) hpart
    | eof a o =>
      obtain ⟨_, hpart, rfl⟩ := exists_part_ok f (Encoding.eof a) (x := o.intoWrite) hok
      exact Eof.phases_guarded.intoWrite (o := o) hpart
  pollWrite := by
    intro buf w s
    cases w with
    | bodyless w => exact (Bodyless.phases_guarded.pollWrite buf w s).wrap f Encoding.bodyless fun _ => rfl
    | cl w => exact (ContentLength.phases_guarded.pollWrite buf w s).wrap f Encoding.cl fun _ => rfl
    | chunked w => exact (Chunked.phases_guarded.pollWrite buf w s).wrap f Encoding.chunked fun _ => rfl
    | eof a w => exact (Eof.phases_guarded.pollWrite buf w s).wrap f (Encoding.eof a) fun _ => rfl
  intoClose := by
    intro w c hok
    cases w with
    | bodyless w =>
      obtain ⟨_, hpart, rfl⟩ := exists_part_ok f Encoding.bodyless (x := w.intoClose) hok
      exact Bodyless.phases_guarded.intoClose (w := w) hpart
    | cl w =>
      obtain ⟨_, hpart, rfl⟩ := exists_part_ok f Encoding.cl (x := w.intoClose) hok
      exact ContentLength.phases_guarded.intoClose (w := w) hpart
    | chunked w =>
      obtain ⟨_, hpart, rfl⟩ := exists_part_ok f Encoding.chunked (x := w.intoClose) hok
      exact Chunked.phases_guarded.intoClose (w := w) hpart
    | eof a w =>
      obtain ⟨_, hpart, rfl⟩ := exists_part_ok f (Encoding.eof a) (x := w.intoClose) hok
      exact Eof.phases_guarded.intoClose (w := w) hpart
  pollClose := by
    intro c s
    cases c with
    | bodyless c => exact (Bodyless.phases_guarded.pollClose c s).wrap f Encoding.bodyless fun _ => rfl
    | cl c => exact (ContentLength.phases_guarded.pollClose c s).wrap f Encoding.cl fun _ => rfl
    | chunked c => exact (Chunked.phases_guarded.pollClose c s).wrap f Encoding.chunked fun _ => rfl
    | eof a c => exact (Eof.phases_guarded.pollClose c s).wrap f (Encoding.eof a) fun _ => rfl
  intoReady := by
    intro c r hok
    cases c with
    | bodyless c =>
      obtain ⟨_, hpart, rfl⟩ := exists_part_ok f Encoding.bodyless (x := c.intoReady) hok
      exact Bodyless.phases_guarded.intoReady (c := c) hpart
    | cl c =>
      obtain ⟨_, hpart, rfl⟩ := exists_part_ok f Encoding.cl (x := c.intoReady) hok
      exact ContentLength.phases_guarded.intoReady (c := c) hpart
    | chunked c =>
      obtain ⟨_, hpart, rfl⟩ := exists_part_ok f Encoding.chunked (x := c.intoReady) hok
      exact Chunked.phases_guarded.intoReady (c := c) hpart
    | eof a c =>
      obtain ⟨_, hpart, rfl⟩ := exists_part_ok f (Encoding.eof a) (x := c.intoReady) hok
      exact Eof.phases_guarded.intoReady (c := c) hpart

end Unifier

end Jrpxy.Body.Writer
