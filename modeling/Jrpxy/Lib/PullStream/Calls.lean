/-
  Jrpxy.Lib.PullStream.Calls

  Histories of calls on a reader.

  A caller reads and drains in any order, and goes on whatever the answers
  are.  `calls_keep` is for what every call keeps; `calls_cases` is for a
  reader that is lost with its first failure: either no call has failed and the
  invariant holds, or one has and the reader is lost.
-/
import Jrpxy.Lib.PullStream

namespace PullStream

open Poll

variable {ρ ε : Type}

/-- What a caller may ask for: a poll of a read, or a poll of a drain. -/
inductive Call where
  | read (maxLen : Nat)
  | drain
  deriving DecidableEq, Repr

section Calling

variable (poll : Nat → ρ → Polled ε (Option (List UInt8)) × ρ) (drain : ρ → Polled ε Unit × ρ)

/-- One call: whether it went well, and the state it leaves. -/
def call (c : Call) (r : ρ) : Polled ε Unit × ρ :=
  match c with
  | .read m => andThen (poll m r) id fun _ r => (.ok (), r)
  | .drain => drain r

/-- Calls one after the other, whatever they answer. -/
def calls : List Call → ρ → List (Polled ε Unit) × ρ
  | [], r => ([], r)
  | c :: cs, r =>
    let (answer, r) := call poll drain c r
    let (answers, r) := calls cs r
    (answer :: answers, r)

/-- No call has failed. -/
def NoneFailed (answers : List (Polled ε Unit)) : Prop := ∀ a ∈ answers, a.failed = false

end Calling

variable {poll : Nat → ρ → Polled ε (Option (List UInt8)) × ρ} {drain : ρ → Polled ε Unit × ρ}
variable {K Z : ρ → Prop}

/-- A poll of a drain stops where it is, or answers as a poll of a read does there. -/
theorem drainLoop_stops {poll : ρ → Polled ε (Option (List UInt8)) × ρ}
    (hpiece : ∀ {r d s}, K r → poll r = (.ok (some d), s) → K s) (fuel : Nat) {r : ρ} (hr : K r) :
    ∃ r', K r' ∧ (Puller.drainLoop poll fuel r = (.pending, r') ∨
      Puller.drainLoop poll fuel r = andThen (poll r') id fun _ s => (.ok (), s)) := by
  induction fuel generalizing r with
  | zero => exact ⟨r, hr, .inl rfl⟩
  | succ fuel ih =>
    rw [Puller.drainLoop]
    rcases hone : poll r with ⟨_ | (_ | d) | e | _, s⟩
    -- a piece is discarded, and the loop goes on
    case ok.some => exact ih (hpiece hr hone)
    all_goals exact ⟨r, hr, .inr (by rw [hone]; rfl)⟩

/-- What every poll of a read keeps, a poll of a drain keeps. -/
theorem drainLoop_keep {poll : ρ → Polled ε (Option (List UInt8)) × ρ}
    (hpoll : ∀ r, K r → Meets (poll r) { pending := K, ok := fun _ => K, err := fun _ => Z })
    (fuel : Nat) {r : ρ} (hr : K r) :
    Meets (Puller.drainLoop poll fuel r) { pending := K, ok := fun _ => K, err := fun _ => Z } := by
  have hpiece : ∀ {r d s}, K r → poll r = (.ok (some d), s) → K s := by
    intro r d s hr hone
    have hmeets := hpoll r hr
    rw [hone] at hmeets
    exact hmeets
  obtain ⟨r', hr', hstops | hstops⟩ := drainLoop_stops hpiece fuel hr
  · rw [hstops]
    exact hr'
  · rw [hstops]
    exact (hpoll r' hr').andThen (fun _ h => h) (fun _ _ h => h) (fun _ _ h => h)

/-- What a poll of a read and a poll of a drain do, a call does. -/
theorem call_meets
    (hpoll : ∀ m r, K r → Meets (poll m r) { pending := K, ok := fun _ => K, err := fun _ => Z })
    (hdrain : ∀ r, K r → Meets (drain r) { pending := K, ok := fun _ => K, err := fun _ => Z })
    (c : Call) {r : ρ} (hr : K r) :
    Meets (call poll drain c r) { pending := K, ok := fun _ => K, err := fun _ => Z } := by
  cases c with
  | read m =>
    exact (hpoll m r hr).andThen (fun _ h => h) (fun _ _ h => h) (fun _ _ h => h)
  | drain => exact hdrain r hr

/-- The answer is mapped, and the state is kept. -/
theorem andThen_kept {α : Type} {x : Polled ε α × ρ} (hx : K x.2) :
    K (andThen x id fun _ s => ((.ok () : Polled ε Unit), s)).2 := by
  obtain ⟨_ | a | e | _, s⟩ := x <;> exact hx

/-- What the state behind every poll of a read keeps, that behind a poll of a drain keeps. -/
theorem drainLoop_kept {poll : ρ → Polled ε (Option (List UInt8)) × ρ}
    (hpoll : ∀ r, K r → K (poll r).2) (fuel : Nat) {r : ρ} (hr : K r) :
    K (Puller.drainLoop poll fuel r).2 := by
  have hpiece : ∀ {r d s}, K r → poll r = (.ok (some d), s) → K s := by
    intro r d s hr hone
    have hstate := hpoll r hr
    rw [hone] at hstate
    exact hstate
  obtain ⟨r', hr', hstops | hstops⟩ := drainLoop_stops hpiece fuel hr
  · rw [hstops]
    exact hr'
  · rw [hstops]
    exact andThen_kept (hpoll r' hr')

theorem call_kept (hpoll : ∀ m r, K r → K (poll m r).2) (hdrain : ∀ r, K r → K (drain r).2)
    (c : Call) {r : ρ} (hr : K r) : K (call poll drain c r).2 := by
  cases c with
  | read m => exact andThen_kept (hpoll m r hr)
  | drain => exact hdrain r hr

/-- What the state behind every call keeps, every history keeps. -/
theorem calls_kept (hcall : ∀ c {r}, K r → K (call poll drain c r).2) (cs : List Call) {r : ρ}
    (hr : K r) : K (calls poll drain cs r).2 := by
  induction cs generalizing r with
  | nil => exact hr
  | cons c cs ih => exact ih (hcall c hr)

/-- What every call keeps, whatever it answers, every history keeps. -/
theorem calls_keep
    (hcall : ∀ c {r}, K r → Meets (call poll drain c r) { pending := K, ok := fun _ => K, err := fun _ => K })
    (cs : List Call) {r : ρ} (hr : K r) : K (calls poll drain cs r).2 := by
  refine calls_kept (fun c r hr => ?_) cs hr
  have hone := hcall c hr
  generalize call poll drain c r = x at hone ⊢
  obtain ⟨_ | _ | e | _, s⟩ := x
  · exact hone
  · exact hone
  · exact hone
  · exact hone.elim

/-- A reader that is lost with its first failure, and fails ever after: no call has failed and
    the invariant holds, or one has failed and the reader is lost. -/
theorem calls_cases
    (hcall : ∀ c {r}, K r → Meets (call poll drain c r) { pending := K, ok := fun _ => K, err := fun _ => Z })
    (hlost : ∀ c {r}, Z r → Meets (call poll drain c r)
      { pending := fun _ => False, ok := fun _ _ => False, err := fun _ => Z })
    (cs : List Call) {r : ρ} (hr : K r) :
    NoneFailed (calls poll drain cs r).1 ∧ K (calls poll drain cs r).2 ∨
      ¬ NoneFailed (calls poll drain cs r).1 ∧ Z (calls poll drain cs r).2 := by
  -- a lost reader stays so
  have hstays : ∀ (cs : List Call) {r : ρ}, Z r → Z (calls poll drain cs r).2 := by
    intro cs r hr
    refine calls_keep (fun c r hr => ?_) cs hr
    exact (hlost c hr).mono (fun _ h => h.elim) (fun _ _ h => h.elim) (fun _ _ h => h)
  induction cs generalizing r with
  | nil => exact .inl ⟨by simp [calls, NoneFailed], hr⟩
  | cons c cs ih =>
    have hone := hcall c hr
    rw [calls]
    generalize call poll drain c r = x at hone
    have hgoes : ∀ a : Polled ε Unit, a.failed = false → ∀ s, K s →
        NoneFailed (a :: (calls poll drain cs s).1) ∧ K (calls poll drain cs s).2 ∨
          ¬ NoneFailed (a :: (calls poll drain cs s).1) ∧ Z (calls poll drain cs s).2 := by
      intro a ha s hs
      have hiff : NoneFailed (a :: (calls poll drain cs s).1) ↔
          NoneFailed (calls poll drain cs s).1 := by
        rw [NoneFailed, List.forall_mem_cons]
        exact and_iff_right ha
      rw [hiff]
      exact ih hs
    obtain ⟨_ | _ | e | _, s⟩ := x
    · exact hgoes .pending rfl s hone
    · exact hgoes (.ok ()) rfl s hone
    · refine .inr ⟨fun hnone => ?_, hstays cs hone⟩
      have hfirst := hnone (.err e) List.mem_cons_self
      cases hfirst
    · exact hone.elim

end PullStream
