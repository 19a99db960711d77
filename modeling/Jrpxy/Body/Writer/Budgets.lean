/-
  Jrpxy.Body.Writer.Budgets

  The two budgets of the content-length writer.

  A writer with a declared length counts the whole body against the length and
  each block against the length it was opened with, all in machine integers.
  In every run of calls, on every sink, the counters are the number of bytes
  the sink has accepted (`steps_tallies`); so no subtraction and no sum wraps,
  and the three checks (`open`, `poll_write`, `finish`) decide exactly what
  they are for, up to the largest length there is (`run_exact`).
-/
import Jrpxy.Body.Writer.Calls

namespace Jrpxy.Body.Writer

open Poll BlockWriter Util

/-! ## One write -/

/-- A difference that does not wrap. -/
theorem toNat_sub_of_le {a b : UInt64} (h : b.toNat ≤ a.toNat) :
    (a - b).toNat = a.toNat - b.toNat :=
  UInt64.toNat_sub_of_le a b (UInt64.le_iff_toNat_le.mpr h)

/-- How many bytes an answer says were taken. -/
def takenBy (k : Nat) : Polled IoError Nat → Prop
  | .ok n => n = k
  | .panic => False
  | _ => k = 0

/-- A sink takes no more than it is offered, and puts it on the wire. -/
theorem pollWrite_taken (buffer : Bytes) (s : Sink) :
    ∃ k ≤ buffer.length, (s.pollWrite buffer).2.wire.length = s.wire.length + k ∧
      takenBy k (s.pollWrite buffer).1 := by
  have hsends := Sink.pollWrite_sends buffer s
  generalize s.pollWrite buffer = x at hsends
  obtain ⟨_ | n | e | _, s'⟩ := x
  · have hwire : s'.wire = s.wire ++ [] := hsends.1.wire
    refine ⟨0, Nat.zero_le _, ?_, rfl⟩
    rw [hwire, List.append_nil]
    rfl
  · obtain ⟨hwire, hn, -⟩ := hsends
    refine ⟨n, hn, ?_, rfl⟩
    have hwire : s'.wire = s.wire ++ buffer.take n := hwire.wire
    rw [hwire, List.length_append, List.length_take, Nat.min_eq_left hn]
  · have hwire : s'.wire = s.wire := hsends.1
    refine ⟨0, Nat.zero_le _, ?_, rfl⟩
    rw [hwire]
    rfl
  · exact hsends.elim

/-- A buffer that fits is handed to the sink, whose answer it is, and the offset counts what
    the sink took. -/
theorem pollWriteBounded_fits {maxLength offset : UInt64} {buffer : Bytes}
    (hfits : offset.toNat + buffer.length ≤ maxLength.toNat) (s : Sink) :
    (pollWriteBounded maxLength buffer offset s).1 =
        (s.pollWrite buffer).1.mapErr .bodyWriteError ∧
      (pollWriteBounded maxLength buffer offset s).2.2 = (s.pollWrite buffer).2 ∧
      ∃ k ≤ buffer.length, (s.pollWrite buffer).2.wire.length = s.wire.length + k ∧
        (pollWriteBounded maxLength buffer offset s).2.1.toNat = offset.toNat + k := by
  have hmax := maxLength.toNat_lt
  obtain ⟨k, hk, hlen, hn⟩ := pollWrite_taken buffer s
  unfold pollWriteBounded
  rw [if_neg (by omega), if_neg (by omega)]
  generalize s.pollWrite buffer = x at hlen hn
  obtain ⟨_ | n | e | _, s'⟩ := x
  · refine ⟨rfl, rfl, k, hk, hlen, ?_⟩
    rw [hn]
    rfl
  · cases hn
    refine ⟨rfl, rfl, k, hk, hlen, ?_⟩
    show (offset + UInt64.ofNat k).toNat = offset.toNat + k
    have hsum : offset.toNat + k ≤ maxLength.toNat := by omega
    exact toNat_add_ofNat_of_le hsum
  · refine ⟨rfl, rfl, k, hk, hlen, ?_⟩
    rw [hn]
    rfl
  · exact hn.elim

/-! ## Runs -/

namespace Unifier

variable {eof : Bool} {ε : Type}

/-- In a body of this length of which the sink has accepted `sent` bytes, what the counters
    say. -/
def Phase.Tallies (length : UInt64) (sent : Nat) : Phase eof → Prop
  | .ready (.cl r) => r.length = length ∧ sent = r.offset.toNat
  | .opening (.cl o) => o.totalLength = length ∧ sent = o.offset.toNat
  | .writing (.cl w) => w.totalLength = length ∧ w.chunkOffset.toNat ≤ w.chunkLength.toNat ∧
      sent = w.offset.toNat + w.chunkOffset.toNat
  | .closing (.cl c) => c.totalLength = length ∧ sent = c.offset.toNat
  | .finishing (.cl _) => sent = length.toNat
  | .aborting (.cl _) => True
  | .ended _ => sent = length.toNat
  | .dropped => True
  | _ => False

/-- What the sink of a run has accepted since `base` bytes were on the wire is what the
    counters say. -/
def Run.Tallies (length : UInt64) (base : Nat) (run : Run eof) : Prop :=
  ∃ sent, run.sink.wire.length = base + sent ∧ run.phase.Tallies length sent

variable {f : BodyError → ε} {length : UInt64} {base : Nat}

/-- A call of a block of the declared length that succeeds is one of the part. -/
theorem open_cl_ok {r : ContentLength.Ready} {n : UInt64} {o : Open eof}
    (h : Ready.open f n (.cl r : Ready eof) = .ok o) :
    ∃ (hfits : r.offset.toNat + n.toNat ≤ r.length.toNat),
      o = .cl ⟨r.length, r.offset, n, hfits⟩ := by
  obtain ⟨part, hpart, rfl⟩ := exists_part_ok f Encoding.cl (x := r.open n) h
  by_cases hfits : r.offset.toNat + n.toNat ≤ r.length.toNat
  · cases (ContentLength.Ready.open_eq hfits).symm.trans hpart
    exact ⟨hfits, rfl⟩
  · cases (ContentLength.Ready.open_overflow (Nat.lt_of_not_le hfits)).symm.trans hpart

/-- A block is left behind its last byte, and the offset counts it then. -/
theorem intoClose_cl_ok {w : ContentLength.Write} {c : Close eof}
    (h : Write.intoClose f (.cl w : Write eof) = .ok c) :
    w.chunkLength.toNat ≤ w.chunkOffset.toNat ∧ ∃ part : ContentLength.Close, c = .cl part ∧
      part.totalLength = w.totalLength ∧
      part.offset.toNat = w.offset.toNat + w.chunkLength.toNat := by
  obtain ⟨part, hpart, rfl⟩ := exists_part_ok f Encoding.cl (x := w.intoClose) h
  unfold ContentLength.Write.intoClose at hpart
  split at hpart
  · cases hpart
  · next hdone =>
    cases hpart
    rw [UInt64.lt_iff_toNat_lt] at hdone
    exact ⟨Nat.le_of_not_lt hdone, _, rfl, rfl, w.offset_le⟩

/-- One write in a block. -/
theorem pollWrite_tallies {w : ContentLength.Write} (buffer : Bytes) {sink : Sink} {sent : Nat}
    (hsink : sink.wire.length = base + sent)
    (hw : (Phase.writing (.cl w) : Phase eof).Tallies length sent) :
    ∃ sent', (Write.pollWrite f (.cl w : Write eof) buffer sink).2.2.wire.length = base + sent' ∧
      (Phase.writing (Write.pollWrite f (.cl w : Write eof) buffer sink).2.1).Tallies length
        sent' := by
  obtain ⟨hlength, hle, hsent⟩ := hw
  show ∃ sent', (pollWriteBounded w.chunkLength buffer w.chunkOffset sink).2.2.wire.length =
      base + sent' ∧ w.totalLength = length ∧
      (pollWriteBounded w.chunkLength buffer w.chunkOffset sink).2.1.toNat ≤ w.chunkLength.toNat ∧
      sent' = w.offset.toNat +
        (pollWriteBounded w.chunkLength buffer w.chunkOffset sink).2.1.toNat
  by_cases hfits : w.chunkOffset.toNat + buffer.length ≤ w.chunkLength.toNat
  · obtain ⟨-, hsame, k, hk, hlen, hoffset⟩ := pollWriteBounded_fits hfits sink
    rw [hsame, hoffset]
    refine ⟨sent + k, by omega, hlength, by omega, by omega⟩
  · rw [pollWriteBounded_overflow (Nat.lt_of_not_le hfits)]
    exact ⟨sent, hsink, hlength, hle, hsent⟩

/-- Of a transition that fails nothing is counted. -/
theorem tallies_next {α : Type} {x : Except ε α} {k : α → Phase eof} {sent : Nat}
    (hok : ∀ a, x = .ok a → (k a).Tallies length sent) : (Phase.next x k).Tallies length sent := by
  cases x with
  | ok a => exact hok a rfl
  | error e => trivial

/-- One call keeps the tally. -/
theorem step_tallies {run run' : Run eof} {call : Call} (hrun : run.Tallies length base)
    (hstep : run.step f call = some run') : run'.Tallies length base := by
  have hmade := Run.made_of_step hstep
  obtain ⟨sent, hsink, hphase⟩ := hrun
  obtain ⟨phase, sink, written, flushed⟩ := run
  dsimp only at hsink hphase hmade
  cases phase with
  | ready r =>
    cases r with
    | cl r =>
      obtain ⟨hlength, hsent⟩ := hphase
      cases hmade with
      | openBlock _ n =>
        refine ⟨sent, hsink, tallies_next fun o hopen => ?_⟩
        obtain ⟨hfits, rfl⟩ := open_cl_ok hopen
        exact ⟨hlength, hsent⟩
      -- the body is finished when the offset is its length
      | finish =>
        refine ⟨sent, hsink, tallies_next fun x hfinish => ?_⟩
        obtain ⟨hdone, rfl⟩ := finish_cl_ok hfinish
        show sent = length.toNat
        rw [hsent, hdone, hlength]
      | abort => exact ⟨sent, hsink, trivial⟩
    | _ => exact hphase.elim
  | opening o =>
    cases o with
    | cl o =>
      obtain ⟨hlength, hsent⟩ := hphase
      cases hmade with
      | pollOpen => exact ⟨sent, hsink, hlength, hsent⟩
      | intoWrite => exact ⟨sent, hsink, hlength, Nat.zero_le _, hsent⟩
    | _ => exact hphase.elim
  | writing w =>
    cases w with
    | cl w =>
      cases hmade with
      | pollWrite _ buffer =>
        exact @pollWrite_tallies eof ε f length base w buffer sink sent hsink hphase
      -- behind the block its length is counted on the offset
      | intoClose =>
        obtain ⟨hlength, hle, hsent⟩ := hphase
        refine ⟨sent, hsink, tallies_next fun c hclose => ?_⟩
        obtain ⟨hdone, part, rfl, htotal, hoffset⟩ := intoClose_cl_ok hclose
        refine ⟨htotal.trans hlength, ?_⟩
        rw [hsent, hoffset, Nat.le_antisymm hle hdone]
    | _ => exact hphase.elim
  | closing c =>
    cases c with
    | cl c =>
      cases hmade with
      | pollClose => exact ⟨sent, hsink, hphase⟩
      | intoReady => exact ⟨sent, hsink, hphase⟩
    | _ => exact hphase.elim
  | finishing x =>
    cases x with
    | cl x =>
      cases hmade with
      | pollFinish =>
        refine ⟨sent, ?_, hphase⟩
        show (x.pollFinish sink).2.2.wire.length = base + sent
        rw [pollFinish_wire]
        exact hsink
      | intoWriter => exact ⟨sent, hsink, tallies_next fun _ _ => hphase⟩
    | _ => exact hphase.elim
  | aborting x =>
    cases x with
    | cl x =>
      cases hmade with
      | pollAbort =>
        refine ⟨sent, ?_, trivial⟩
        show (x.pollFinish sink).2.2.wire.length = base + sent
        rw [pollFinish_wire]
        exact hsink
      | discard => exact ⟨sent, hsink, tallies_next fun _ _ => trivial⟩
    | _ => exact hphase.elim
  | ended writer => cases hmade
  | dropped => cases hmade

/-- Any sequence of calls keeps the tally. -/
theorem steps_tallies (calls : List Call) {run run' : Run eof} (hrun : run.Tallies length base)
    (hsteps : run.steps f calls = some run') : run'.Tallies length base := by
  induction calls generalizing run with
  | nil =>
    cases hsteps
    exact hrun
  | cons call calls ih =>
    rw [Run.steps] at hsteps
    obtain ⟨run₁, hstep, hrest⟩ := Option.bind_eq_some_iff.mp hsteps
    exact ih (step_tallies hrun hstep) hrest

/-! ## What the counters decide -/

/-- Between two blocks: the offset is what was accepted, a block is admitted exactly if it is
    within what is left, and the body can be finished exactly if all of it was accepted. -/
structure ReadyExact (f : BodyError → ε) (eof : Bool) (length : UInt64) (sent : Nat)
    (r : ContentLength.Ready) : Prop where
  length_eq : r.length = length
  offset_eq : r.offset.toNat = sent
  offset_le : r.offset ≤ r.length
  remaining : r.remaining.toNat = r.length.toNat - r.offset.toNat
  opens : ∀ n, (∃ o, Ready.open f n (.cl r : Ready eof) = .ok o) ↔ n ≤ r.remaining
  refuses : ∀ n, ¬ n ≤ r.remaining →
    Ready.open f n (.cl r : Ready eof) = .error (f (.bodyOverflow length.toNat))
  finishes : (∃ x, Ready.finish f (.cl r : Ready eof) = .ok x) ↔ sent = length.toNat

/-- In a block: its length is within what is left of the body, and a buffer is handed to the
    sink exactly if it is within what is left of the block; else nothing is written. -/
structure WriteExact (f : BodyError → ε) (eof : Bool) (length : UInt64) (sent : Nat)
    (w : ContentLength.Write) : Prop where
  length_eq : w.totalLength = length
  accepted : w.offset.toNat + w.chunkOffset.toNat = sent
  fits : w.offset.toNat + w.chunkLength.toNat ≤ w.totalLength.toNat
  sum : (w.offset + w.chunkLength).toNat = w.offset.toNat + w.chunkLength.toNat
  chunkOffset_le : w.chunkOffset ≤ w.chunkLength
  chunkRemaining : w.chunkRemaining.toNat = w.chunkLength.toNat - w.chunkOffset.toNat
  writes : ∀ (buffer : Bytes) (s : Sink), buffer.length ≤ w.chunkRemaining.toNat →
    (Write.pollWrite f (.cl w : Write eof) buffer s).1 =
        (s.pollWrite buffer).1.mapErr (f ∘ .bodyWriteError) ∧
      (Write.pollWrite f (.cl w : Write eof) buffer s).2.2 = (s.pollWrite buffer).2
  refuses : ∀ (buffer : Bytes) (s : Sink), ¬ buffer.length ≤ w.chunkRemaining.toNat →
    Write.pollWrite f (.cl w : Write eof) buffer s =
      (.err (f (.bodyOverflow w.chunkLength.toNat)), .cl w, s)

/-- What holds of each state of the writer when the sink has accepted `sent` bytes of a body
    of this length. -/
def Phase.Exact (f : BodyError → ε) (length : UInt64) (sent : Nat) : Phase eof → Prop
  | .ready (.cl r) => ReadyExact f eof length sent r
  | .opening (.cl o) => o.totalLength = length ∧ o.offset.toNat = sent ∧
      o.offset.toNat + o.chunkLength.toNat ≤ o.totalLength.toNat
  | .writing (.cl w) => WriteExact f eof length sent w
  | .closing (.cl c) => c.totalLength = length ∧ c.offset.toNat = sent ∧ c.offset ≤ c.totalLength
  | .finishing (.cl _) => sent = length.toNat
  | .aborting (.cl _) => True
  | .ended _ => sent = length.toNat
  | .dropped => True
  | _ => False

theorem readyExact_of_tallies {r : ContentLength.Ready} {sent : Nat}
    (h : (Phase.ready (.cl r) : Phase eof).Tallies length sent) :
    ReadyExact f eof length sent r := by
  obtain ⟨rfl, rfl⟩ := h
  have hoff := r.offset_le
  have hrem : r.remaining.toNat = r.length.toNat - r.offset.toNat := toNat_sub_of_le hoff
  have hadmits : ∀ n : UInt64, n ≤ r.remaining ↔ r.offset.toNat + n.toNat ≤ r.length.toNat := by
    intro n
    rw [UInt64.le_iff_toNat_le, hrem]
    omega
  refine ⟨rfl, rfl, UInt64.le_iff_toNat_le.mpr hoff, hrem, fun n => ?_, fun n hn => ?_, ?_⟩
  · rw [hadmits]
    constructor
    · rintro ⟨o, ho⟩
      obtain ⟨hfits, -⟩ := open_cl_ok ho
      exact hfits
    · intro hfits
      refine ⟨.cl ⟨r.length, r.offset, n, hfits⟩, ?_⟩
      rw [Ready.open, ContentLength.Ready.open_eq hfits]
      rfl
  -- both the checked sum and the comparison refuse with the declared length
  · rw [hadmits] at hn
    rw [Ready.open, ContentLength.Ready.open_overflow (Nat.lt_of_not_le hn)]
    rfl
  · constructor
    · rintro ⟨x, hx⟩
      exact (finish_cl_ok hx).1
    · intro hdone
      have hpart : r.finish = .ok ⟨false⟩ := by
        apply if_neg
        rw [UInt64.lt_iff_toNat_lt]
        omega
      refine ⟨.cl ⟨false⟩, ?_⟩
      rw [Ready.finish, hpart]
      rfl

theorem writeExact_of_tallies {w : ContentLength.Write} {sent : Nat}
    (h : (Phase.writing (.cl w) : Phase eof).Tallies length sent) :
    WriteExact f eof length sent w := by
  obtain ⟨rfl, hle, rfl⟩ := h
  have hrem : w.chunkRemaining.toNat = w.chunkLength.toNat - w.chunkOffset.toNat :=
    toNat_sub_of_le hle
  refine ⟨rfl, rfl, w.fits, w.offset_le, UInt64.le_iff_toNat_le.mpr hle, hrem, ?_, ?_⟩
  · intro buffer s hfits
    rw [hrem] at hfits
    obtain ⟨hanswer, hsame, -⟩ := pollWriteBounded_fits
      (show w.chunkOffset.toNat + buffer.length ≤ w.chunkLength.toNat by omega) s
    refine ⟨?_, hsame⟩
    show (pollWriteBounded w.chunkLength buffer w.chunkOffset s).1.mapErr f = _
    rw [hanswer]
    cases (s.pollWrite buffer).1 <;> rfl
  · intro buffer s hbig
    rw [hrem] at hbig
    have hrefused := pollWriteBounded_overflow
      (show w.chunkLength.toNat < w.chunkOffset.toNat + buffer.length by omega) s
    simp only [Write.pollWrite, ContentLength.Write.pollWrite, hrefused]
    rfl

/-- The counters decide exactly. -/
theorem exact_of_tallies {phase : Phase eof} {sent : Nat} (h : phase.Tallies length sent) :
    phase.Exact f length sent := by
  cases phase with
  | ready r =>
    cases r with
    | cl r => exact readyExact_of_tallies h
    | _ => exact h.elim
  | opening o =>
    cases o with
    | cl o => exact ⟨h.1, h.2.symm, o.fits⟩
    | _ => exact h.elim
  | writing w =>
    cases w with
    | cl w => exact writeExact_of_tallies h
    | _ => exact h.elim
  | closing c =>
    cases c with
    | cl c => exact ⟨h.1, h.2.symm, UInt64.le_iff_toNat_le.mpr c.offset_le⟩
    | _ => exact h.elim
  | finishing x =>
    cases x with
    | cl x => exact h
    | _ => exact h.elim
  | aborting x =>
    cases x with
    | cl x => trivial
    | _ => exact h.elim
  | ended writer => exact h
  | dropped => trivial

/-- Whatever the declared length, the calls and the sink: the counters of the writer are the
    bytes the sink has accepted, none of them wraps, and the checks decide exactly. -/
theorem run_exact (f : BodyError → ε) (length : UInt64) (sink : Sink) (calls : List Call)
    {run : Run eof}
    (hsteps : (Run.start (Declared.ready (.cl length)) sink).steps f calls = some run) :
    ∃ sent, run.sink.wire.length = sink.wire.length + sent ∧ run.phase.Exact f length sent := by
  have hstart : (Run.start (Declared.ready (.cl length) : Ready eof) sink).Tallies length
      sink.wire.length := ⟨0, rfl, rfl, rfl⟩
  obtain ⟨sent, hsink, hphase⟩ := steps_tallies calls hstart hsteps
  exact ⟨sent, hsink, exact_of_tallies hphase⟩

/-- The largest length. -/
def brimLength : UInt64 := 0xffffffffffffffff

/-- A block that is too long by one byte behind a partial write. -/
def brimCalls : List Call :=
  [.openBlock 3, .pollOpen, .intoWrite, .pollWrite [1, 2, 3, 4], .pollWrite [1, 2, 3],
    .pollWrite [2, 3], .intoClose, .intoReady]

theorem run_exact_brim :
    ∃ run : Run false, (Run.start (Declared.ready (.cl brimLength)) ⟨[], [.accept 1]⟩).steps id
        brimCalls = some run ∧
      ∃ sent, run.sink.wire.length = 0 + sent ∧ run.phase.Exact id brimLength sent := by
  have hrun : ((Run.start (Declared.ready (.cl brimLength) : Ready false)
      ⟨[], [.accept 1]⟩).steps id brimCalls).isSome = true := by decide +kernel
  obtain ⟨run, hsteps⟩ := Option.isSome_iff_exists.mp hrun
  exact ⟨run, hsteps, run_exact id brimLength ⟨[], [.accept 1]⟩ brimCalls hsteps⟩

end Unifier

end Jrpxy.Body.Writer
