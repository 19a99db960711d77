/-
  Jrpxy.Body.Writer.Stalled

  The body writers in front of a sink that takes nothing.

  The guard against a write of nothing is coded in the loop of each poll that
  sends framing, and in that of the end of a chunked body; every one of them
  answers `WriteZero` (`phases_stalls`, `pollFinish_stalled`), also when the sink
  takes some of the framing first (`phases_notices`).  The poll that writes data
  has no guard of its own, in any encoding.
-/
import Jrpxy.Body.Writer.Unifier
import Jrpxy.Lib.BlockWriter.Stall

namespace Jrpxy.Util

/-- The sink takes nothing of its next `n` writes. -/
def Sink.Refuses (n : Nat) (s : Sink) : Prop :=
  ∃ script, s.script = List.replicate n (.accept 0) ++ script

theorem Sink.Refuses.fewer {n : Nat} {s : Sink} (h : s.Refuses (n + 1)) : s.Refuses n := by
  obtain ⟨script, hscript⟩ := h
  refine ⟨.accept 0 :: script, ?_⟩
  rw [hscript, List.replicate_succ', List.append_assoc]
  rfl

/-- All of `n` refusals are still to come, behind whatever answers. -/
def Sink.Ahead (n : Nat) (s : Sink) : Prop :=
  ∃ before, s.script = before ++ List.replicate n (.accept 0)

/-- At least one answer comes before `n` refusals. -/
def Sink.Before (n : Nat) (s : Sink) : Prop :=
  ∃ ev before, s.script = ev :: before ++ List.replicate n (.accept 0)

theorem Sink.Before.ahead {n : Nat} {s : Sink} (h : s.Before n) : s.Ahead n := by
  obtain ⟨ev, before, hscript⟩ := h
  exact ⟨ev :: before, hscript⟩

/-- One write uses up one answer. -/
theorem Sink.Before.pollWrite {n : Nat} {s : Sink} (h : s.Before n) (buf : Bytes) :
    (s.pollWrite buf).2.Ahead n := by
  obtain ⟨ev, before, hscript⟩ := h
  refine ⟨before, ?_⟩
  rw [Sink.pollWrite, hscript]
  cases ev with
  | pending => rfl
  | accept k => rfl
  | error e => rfl

/-- A write that is refused uses up one refusal. -/
theorem Sink.pollWrite_refused {n : Nat} {s : Sink} (h : s.Refuses (n + 1)) (buf : Bytes) :
    ∃ s', s.pollWrite buf = (.ok 0, s') ∧ s'.Refuses n := by
  obtain ⟨script, hscript⟩ := h
  refine ⟨⟨s.wire ++ buf.take 0, List.replicate n (.accept 0) ++ script⟩, ?_, script, rfl⟩
  rw [pollWrite, hscript, List.replicate_succ, List.cons_append]
  simp only [Nat.zero_min]

end Jrpxy.Util

namespace Jrpxy.Body.Writer

open Poll BlockWriter Util HttpMessage

/-! ## Polls the writers share -/

/-- When nothing is left to send, the sink is not touched. -/
theorem pollSend_sent (wrap : Nat → Nat) {data : Bytes} {written : Nat}
    (hnil : data.drop written = []) (s : Sink) :
    pollSend wrap data written s = (.ok (), written, s) := by
  have hle := List.drop_eq_nil_iff.mp hnil
  rw [pollSend, Nat.sub_eq_zero_of_le hle]
  rfl

/-- When something is, a refusal is `WriteZero`. -/
theorem pollSend_refused (wrap : Nat → Nat) {data : Bytes} {written n : Nat} {s : Sink}
    (hs : s.Refuses (n + 1)) (hne : data.drop written ≠ []) :
    (pollSend wrap data written s).1 = .err (.bodyWriteError .writeZero) := by
  have hlt : written < data.length := by
    rw [Ne, List.drop_eq_nil_iff] at hne
    omega
  obtain ⟨fuel, hfuel⟩ := Nat.exists_eq_add_of_lt hlt
  obtain ⟨s', hwrite, -⟩ := Sink.pollWrite_refused hs (data.drop written)
  have hrounds : data.length - written = fuel + 1 := by omega
  rw [pollSend, hrounds, pollSendLoop, if_pos hlt, hwrite]
  rfl

/-- A buffer that fits is refused without an error. -/
theorem pollWriteBounded_refused {maxLength offset : UInt64} {buffer : Bytes} {n : Nat} {s : Sink}
    (hs : s.Refuses (n + 1)) (hne : buffer ≠ [])
    (hfit : buffer.length ≤ maxLength.toNat - offset.toNat) :
    ∃ s', pollWriteBounded maxLength buffer offset s = (.ok 0, offset, s') ∧ s'.Refuses n := by
  obtain ⟨s', hwrite, hs'⟩ := Sink.pollWrite_refused hs buffer
  have hpos := List.length_pos_iff.mpr hne
  have hmax := maxLength.toNat_lt
  have hoffset : offset + UInt64.ofNat 0 = offset := by simp
  refine ⟨s', ?_, hs'⟩
  unfold pollWriteBounded
  rw [if_neg (by omega), if_neg (by omega), hwrite]
  simp only [hoffset]

/-- A stall that begins while this sends is `WriteZero`. -/
theorem pollSend_notices (wrap : Nat → Nat) (data : Bytes) (written : Nat) {n : Nat} {s : Sink}
    (hs : s.Ahead n) :
    (pollSend wrap data written s).1 = .err (.bodyWriteError .writeZero) ∨
      (pollSend wrap data written s).2.2.Ahead n := by
  unfold pollSend
  generalize data.length - written = fuel
  induction fuel generalizing written s with
  | zero => exact .inr hs
  | succ fuel ih =>
    rw [pollSendLoop]
    split
    · obtain ⟨before, hscript⟩ := hs
      cases before with
      | cons ev before =>
        have hahead := Sink.Before.pollWrite ⟨ev, before, hscript⟩ (data.drop written)
        generalize s.pollWrite (data.drop written) = x at hahead
        obtain ⟨_ | (_ | k) | e | _, s'⟩ := x
        · exact .inr hahead
        · exact .inl rfl
        · exact ih _ hahead
        · exact .inr hahead
        · exact .inr hahead
      | nil =>
        cases n with
        | zero => exact .inr ⟨_, (List.append_nil _).symm⟩
        | succ n =>
          obtain ⟨s', hwrite, -⟩ := Sink.pollWrite_refused
            (⟨[], hscript.trans (List.append_nil _).symm⟩ : s.Refuses (n + 1)) (data.drop written)
          rw [hwrite]
          exact .inl rfl
    · exact .inr hs

theorem pollWriteBounded_notices {maxLength offset : UInt64} {buffer : Bytes} {n : Nat} {s : Sink}
    (hs : s.Before n) : (pollWriteBounded maxLength buffer offset s).2.2.Ahead n := by
  have hahead := hs.pollWrite buffer
  unfold pollWriteBounded
  simp only
  split
  · exact hs.ahead
  · split
    · exact hs.ahead
    · generalize s.pollWrite buffer = x at hahead
      obtain ⟨_ | k | e | _, s'⟩ := x
      · exact hahead
      · exact hahead
      · exact hahead
      · exact hahead

/-! ## Each writer -/

theorem Bodyless.phases_stalls :
    Bodyless.phases.Stalls Sink.Refuses (.bodyWriteError .writeZero) where
  fewer := Sink.Refuses.fewer
  openSent _ _ := rfl
  openOwed _ hleft := absurd rfl hleft
  write _ hne hlen := absurd (List.length_eq_zero_iff.mp (Nat.le_zero.mp hlen)) hne
  closeSent _ _ := rfl
  closeOwed _ hleft := absurd rfl hleft

theorem Bodyless.phases_notices (n : Nat) :
    Bodyless.phases.Notices (Sink.Before n) (Sink.Ahead n) (.bodyWriteError .writeZero) where
  ahead := Sink.Before.ahead
  pollOpen hs := .inr hs.ahead
  pollWrite := by
    intro buf w s hs
    show (Bodyless.Write.pollWrite w buf s).2.2.Ahead n
    unfold Bodyless.Write.pollWrite
    split
    · exact hs.ahead
    · exact hs.ahead
  pollClose hs := .inr hs.ahead

/-- A writer that puts nothing but data on the wire, and keeps how much of a block is written. -/
structure Unframed (W : Phases Sink BodyError) (maxLength offset : W.Write → UInt64)
    (put : W.Write → UInt64 → W.Write) : Prop where
  opening : ∀ o, (W.opening o).left = []
  pollOpen : ∀ o s, W.pollOpen o s = (.ok (), o, s)
  writing : ∀ w, (W.writing w).left = (maxLength w).toNat - (offset w).toNat
  put_offset : ∀ w, put w (offset w) = w
  pollWrite : ∀ buf w s, W.pollWrite buf w s =
    ((pollWriteBounded (maxLength w) buf (offset w) s).1,
      put w (pollWriteBounded (maxLength w) buf (offset w) s).2.1,
      (pollWriteBounded (maxLength w) buf (offset w) s).2.2)
  closing : ∀ c, (W.closing c).left = []
  pollClose : ∀ c s, W.pollClose c s = (.ok (), c, s)

namespace Unframed

variable {W : Phases Sink BodyError} {maxLength offset : W.Write → UInt64}
variable {put : W.Write → UInt64 → W.Write} (hW : Unframed W maxLength offset put)
include hW

theorem stalls : W.Stalls Sink.Refuses (.bodyWriteError .writeZero) where
  fewer := Sink.Refuses.fewer
  openSent s _ := hW.pollOpen _ s
  openOwed _ hleft := absurd (hW.opening _) hleft
  write := by
    intro buf w n s hs hne hlen
    rw [hW.writing] at hlen
    obtain ⟨s', hwrite, hs'⟩ := pollWriteBounded_refused hs hne hlen
    refine ⟨s', ?_, hs'⟩
    rw [hW.pollWrite, hwrite, hW.put_offset]
  closeSent s _ := hW.pollClose _ s
  closeOwed _ hleft := absurd (hW.closing _) hleft

theorem notices (n : Nat) :
    W.Notices (Sink.Before n) (Sink.Ahead n) (.bodyWriteError .writeZero) where
  ahead := Sink.Before.ahead
  pollOpen := by
    intro o s hs
    rw [hW.pollOpen]
    exact .inr hs.ahead
  pollWrite := by
    intro buf w s hs
    rw [hW.pollWrite]
    exact pollWriteBounded_notices hs
  pollClose := by
    intro c s hs
    rw [hW.pollClose]
    exact .inr hs.ahead

end Unframed

theorem ContentLength.phases_unframed : Unframed ContentLength.phases
    ContentLength.Write.chunkLength ContentLength.Write.chunkOffset
    fun w chunkOffset => { w with chunkOffset } where
  opening _ := rfl
  pollOpen _ _ := rfl
  writing _ := rfl
  put_offset _ := rfl
  pollWrite _ _ _ := rfl
  closing _ := rfl
  pollClose _ _ := rfl

theorem Eof.phases_unframed : Unframed Eof.phases Eof.Write.chunkLength Eof.Write.chunkOffset
    fun w chunkOffset => { w with chunkOffset } where
  opening _ := rfl
  pollOpen _ _ := rfl
  writing _ := rfl
  put_offset _ := rfl
  pollWrite _ _ _ := rfl
  closing _ := rfl
  pollClose _ _ := rfl

namespace Chunked

theorem phases_stalls : Chunked.phases.Stalls Sink.Refuses (.bodyWriteError .writeZero) where
  fewer := Sink.Refuses.fewer
  openSent := by
    intro o s hleft
    have hsend := pollSend_sent wrapU8 (show o.header.drop o.written = [] from hleft) s
    simp only [phases, Open.pollOpen, hsend]
    rfl
  openOwed := by
    intro o n s hs hleft
    exact @pollSend_refused wrapU8 o.header o.written n s hs hleft
  write := by
    intro buf w n s hs hne hlen
    obtain ⟨s', hwrite, hs'⟩ := pollWriteBounded_refused hs hne hlen
    refine ⟨s', ?_, hs'⟩
    simp only [phases, Write.pollWrite, hwrite]
    rfl
  closeSent := by
    intro c s hleft
    have hsend := pollSend_sent wrapU8
      (show (chunkFooter.take c.footerLen).drop c.footerWritten = [] from hleft) s
    simp only [phases, Close.pollClose, hsend]
    rfl
  closeOwed := by
    intro c n s hs hleft
    exact pollSend_refused wrapU8 hs hleft

theorem phases_notices (n : Nat) :
    Chunked.phases.Notices (Sink.Before n) (Sink.Ahead n) (.bodyWriteError .writeZero) where
  ahead := Sink.Before.ahead
  pollOpen hs := pollSend_notices wrapU8 _ _ hs.ahead
  pollWrite hs := pollWriteBounded_notices hs
  pollClose hs := pollSend_notices wrapU8 _ _ hs.ahead

/-- The end of the body. -/
theorem pollFinish_stalled {n : Nat} {s : Sink} (hs : s.Refuses (n + 1)) {f : Finish}
    (hleft : f.data.drop f.written ≠ []) :
    (f.pollFinish s).1 = .err (.bodyWriteError .writeZero) := by
  have herr := pollSend_refused id hs hleft
  rw [Finish.pollFinish]
  generalize pollSend id f.data f.written s = x at herr
  obtain ⟨answer, written, s'⟩ := x
  cases herr
  rfl

/-- Ending a body fails. -/
theorem finish_stalled {n : Nat} {s : Sink} (hs : s.Refuses (n + 1)) (trailers : Headers) :
    ((Finish.new trailers).finish s).1 = .err (.bodyWriteError .writeZero) := by
  have hleft : (finishData trailers).drop 0 ≠ [] := by simp [finishData, Ascii.ascii]
  have herr := @pollFinish_stalled n s hs (Finish.new trailers) hleft
  rw [Finish.finish, blockOn]
  generalize (Finish.new trailers).pollFinish s = x at herr
  obtain ⟨answer, f, s'⟩ := x
  cases herr
  rfl

end Chunked

/-! ## Any of them -/

namespace Unifier

variable {eof : Bool} {ε : Type}

theorem phases_stalls (eof : Bool) (f : BodyError → ε) :
    (phases eof f).Stalls Sink.Refuses (f (.bodyWriteError .writeZero)) where
  fewer := Sink.Refuses.fewer
  openSent := by
    intro o s hleft
    cases o with
    | bodyless o => rfl
    | cl o => rfl
    | chunked o =>
      have hsent : o.pollOpen s = (.ok (), o, s) := Chunked.phases_stalls.openSent s hleft
      show wrap f (fun x => (Encoding.chunked x.1, x.2)) (o.pollOpen s) = _
      rw [hsent]
      rfl
    | eof a o => rfl
  openOwed := by
    intro o n s hs hleft
    -- only a chunk has a head that could be owed
    cases o with
    | bodyless o => exact absurd rfl hleft
    | cl o => exact absurd rfl hleft
    | chunked o =>
      have howed : (o.pollOpen s).1 = _ := Chunked.phases_stalls.openOwed hs hleft
      show (o.pollOpen s).1.mapErr f = _
      rw [howed]
      rfl
    | eof a o => exact absurd rfl hleft
  write := by
    intro buf w n s hs hne hlen
    -- no write phase turns the refusal into an error
    have hpart : ∀ {W : Phases Sink BodyError} {w : W.Write} (put : W.Write → Write eof),
        W.Stalls Sink.Refuses (.bodyWriteError .writeZero) → buf.length ≤ (W.writing w).left →
        ∃ s', wrap f (fun x => (put x.1, x.2)) (W.pollWrite buf w s) = (.ok 0, put w, s') ∧
          s'.Refuses n := by
      intro W w put hW hlen
      obtain ⟨s', hwrite, hs'⟩ := hW.write hs hne hlen
      refine ⟨s', ?_, hs'⟩
      rw [hwrite]
      rfl
    cases w with
    | bodyless w => exact hpart Encoding.bodyless Bodyless.phases_stalls hlen
    | cl w => exact hpart Encoding.cl ContentLength.phases_unframed.stalls hlen
    | chunked w => exact hpart Encoding.chunked Chunked.phases_stalls hlen
    | eof a w => exact hpart (Encoding.eof a) Eof.phases_unframed.stalls hlen
  closeSent := by
    intro c s hleft
    cases c with
    | bodyless c => rfl
    | cl c => rfl
    | chunked c =>
      have hsent : c.pollClose s = (.ok (), c, s) := Chunked.phases_stalls.closeSent s hleft
      show wrap f (fun x => (Encoding.chunked x.1, x.2)) (c.pollClose s) = _
      rw [hsent]
      rfl
    | eof a c => rfl
  closeOwed := by
    intro c n s hs hleft
    cases c with
    | bodyless c => exact absurd rfl hleft
    | cl c => exact absurd rfl hleft
    | chunked c =>
      have howed : (c.pollClose s).1 = _ := Chunked.phases_stalls.closeOwed hs hleft
      show (c.pollClose s).1.mapErr f = _
      rw [howed]
      rfl
    | eof a c => exact absurd rfl hleft

/-- A stall within one call is noticed in every encoding. -/
theorem phases_notices (eof : Bool) (f : BodyError → ε) (n : Nat) :
    (phases eof f).Notices (Sink.Before n) (Sink.Ahead n) (f (.bodyWriteError .writeZero)) where
  ahead := Sink.Before.ahead
  pollOpen := by
    intro o s hs
    cases o with
    | chunked o =>
      exact ((Chunked.phases_notices n).pollOpen (o := o) hs).imp_left (congrArg (Polled.mapErr f))
    | bodyless o => exact .inr hs.ahead
    | cl o => exact .inr hs.ahead
    | eof a o => exact .inr hs.ahead
  pollWrite := by
    intro buf w s hs
    cases w with
    | bodyless w => exact @(Bodyless.phases_notices n).pollWrite buf w s hs
    | cl w => exact @(ContentLength.phases_unframed.notices n).pollWrite buf w s hs
    | chunked w => exact @(Chunked.phases_notices n).pollWrite buf w s hs
    | eof a w => exact @(Eof.phases_unframed.notices n).pollWrite buf w s hs
  pollClose := by
    intro c s hs
    cases c with
    | chunked c =>
      exact ((Chunked.phases_notices n).pollClose (c := c) hs).imp_left (congrArg (Polled.mapErr f))
    | bodyless c => exact .inr hs.ahead
    | cl c => exact .inr hs.ahead
    | eof a c => exact .inr hs.ahead

/-- Ending a chunked body fails. -/
theorem finish_stalled (f : BodyError → ε) {n : Nat} {s : Sink} (hs : s.Refuses (n + 1))
    (trailers : Headers) :
    (Finish.finish f (.chunked (.new trailers) : Finish eof) s).1 =
      .err (f (.bodyWriteError .writeZero)) := by
  have hpoll : (Finish.pollFinish f (.chunked (.new trailers) : Finish eof) s).1 =
      .err (f (.bodyWriteError .writeZero)) := by
    show ((Chunked.Finish.new trailers).pollFinish s).1.mapErr f = _
    rw [Chunked.pollFinish_stalled hs
      (by simp [Chunked.Finish.new, Chunked.finishData, Ascii.ascii])]
    rfl
  rw [Finish.finish, blockOn]
  generalize Finish.pollFinish f (.chunked (.new trailers) : Finish eof) s = x at hpoll
  obtain ⟨answer, next, s'⟩ := x
  cases hpoll
  rfl

/-- The calls that drive a phase to its end fail with `WriteZero`: opening and closing while
    framing is owed, writing a whole buffer, and ending a chunked body. -/
structure DrivesFail (eof : Bool) (f : BodyError → ε) (s : Sink) : Prop where
  opening : ∀ {o}, ((phases eof f).opening o).left ≠ [] →
    ((phases eof f).runOpen medium o s).1 = .err (f (.bodyWriteError .writeZero))
  writeAll : ∀ {buf w}, buf ≠ [] → buf.length ≤ ((phases eof f).writing w).left → ∀ fuel,
    ((phases eof f).runWriteAll medium (f (.bodyWriteError .writeZero)) (fuel + 1) buf w s).1 =
      .err (f (.bodyWriteError .writeZero))
  closing : ∀ {c}, ((phases eof f).closing c).left ≠ [] →
    ((phases eof f).runClose medium c s).1 = .err (f (.bodyWriteError .writeZero))
  finish : ∀ trailers, (Finish.finish f (.chunked (.new trailers) : Finish eof) s).1 =
    .err (f (.bodyWriteError .writeZero))

/-- On their own all of them notice a sink that takes nothing. -/
theorem drives_fail (eof : Bool) (f : BodyError → ε) {n : Nat} {s : Sink}
    (hs : s.Refuses (n + 1)) : DrivesFail eof f s where
  opening := runOpen_stalled (phases_stalls eof f) hs
  writeAll hne hlen fuel := runWriteAll_stalled (phases_stalls eof f) hs hne hlen fuel
  closing := runClose_stalled (phases_stalls eof f) hs
  finish := finish_stalled f hs

end Unifier

end Jrpxy.Body.Writer
