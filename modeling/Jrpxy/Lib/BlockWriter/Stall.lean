/-
  Jrpxy.Lib.BlockWriter.Stall

  Writers on a medium that takes nothing.

  A medium may answer a write with no bytes taken, and go on doing so.  The
  calls that send framing take that for an error (`Phases.Stalls`), also when
  it begins after some of their writes (`Phases.Notices`).  The call that writes
  data hands the answer on, so it is for its caller to tell: the loop that
  writes a whole buffer does (`runWriteAll_stalled`).
-/
import Jrpxy.Lib.BlockWriter

namespace BlockWriter

open Poll

namespace Framing

/-- Something stands in front of every block with data. -/
def Headed (F : Framing) : Prop := ∀ n, n ≠ 0 → F.head n ≠ []

end Framing

variable {σ ε : Type}

/-- What each call does on a medium that refuses its next writes, as many as `Refuses` says:
    framing that is owed is the error `zero`, and of data nothing is written. -/
structure Phases.Stalls (W : Phases σ ε) (Refuses : Nat → σ → Prop) (zero : ε) : Prop where
  fewer : ∀ {n s}, Refuses (n + 1) s → Refuses n s
  openSent : ∀ {o} s, (W.opening o).left = [] → W.pollOpen o s = (.ok (), o, s)
  openOwed : ∀ {o n s}, Refuses (n + 1) s → (W.opening o).left ≠ [] →
    (W.pollOpen o s).1 = .err zero
  write : ∀ {buf w n s}, Refuses (n + 1) s → buf ≠ [] → buf.length ≤ (W.writing w).left →
    ∃ s', W.pollWrite buf w s = (.ok 0, w, s') ∧ Refuses n s'
  closeSent : ∀ {c} s, (W.closing c).left = [] → W.pollClose c s = (.ok (), c, s)
  closeOwed : ∀ {c n s}, Refuses (n + 1) s → (W.closing c).left ≠ [] →
    (W.pollClose c s).1 = .err zero

/-- What each call does on a medium that takes bytes `Before` it refuses its writes: sending
    framing it comes to the error `zero` or has all refusals still `Ahead`, and a write of data
    is one write. -/
structure Phases.Notices (W : Phases σ ε) (Before Ahead : σ → Prop) (zero : ε) : Prop where
  ahead : ∀ {s}, Before s → Ahead s
  pollOpen : ∀ {o s}, Before s → (W.pollOpen o s).1 = .err zero ∨ Ahead (W.pollOpen o s).2.2
  pollWrite : ∀ {buf w s}, Before s → Ahead (W.pollWrite buf w s).2.2
  pollClose : ∀ {c s}, Before s → (W.pollClose c s).1 = .err zero ∨ Ahead (W.pollClose c s).2.2

section Driving

variable {W : Phases σ ε} {M : Medium σ} {Refuses : Nat → σ → Prop} {zero : ε} {n : Nat} {s : σ}
variable (hW : W.Stalls Refuses zero) (hs : Refuses (n + 1) s)
include hW hs

/-- Sending the head of a block to the end fails. -/
theorem runOpen_stalled {o : W.Open} (hleft : (W.opening o).left ≠ []) :
    (W.runOpen M o s).1 = .err zero := by
  have herr := hW.openOwed hs hleft
  rw [Phases.runOpen, blockOn]
  generalize W.pollOpen o s = x at herr
  obtain ⟨answer, o', s'⟩ := x
  cases herr
  rfl

/-- Writing a whole buffer fails. -/
theorem runWriteAll_stalled {buf : List UInt8} {w : W.Write} (hne : buf ≠ [])
    (hlen : buf.length ≤ (W.writing w).left) (fuel : Nat) :
    (W.runWriteAll M zero (fuel + 1) buf w s).1 = .err zero := by
  obtain ⟨s', hwrite, -⟩ := hW.write hs hne hlen
  rw [Phases.runWriteAll, if_neg (by simpa using hne), blockOn]
  simp only [hwrite, andThen_ok, if_true]

/-- Sending the foot of a block to the end fails. -/
theorem runClose_stalled {c : W.Close} (hleft : (W.closing c).left ≠ []) :
    (W.runClose M c s).1 = .err zero := by
  have herr := hW.closeOwed hs hleft
  rw [Phases.runClose, blockOn]
  generalize W.pollClose c s = x at herr
  obtain ⟨answer, c', s'⟩ := x
  cases herr
  rfl

end Driving

end BlockWriter
