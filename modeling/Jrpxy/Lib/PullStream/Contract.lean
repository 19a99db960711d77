/-
  Jrpxy.Lib.PullStream.Contract

  What a caller may rely on, poll after poll.

  A caller polls as often as it likes, each time for as many bytes as it likes,
  and goes on after an error.  The contract is about what it has been handed at
  every moment of that: no block is longer than was asked for, all blocks
  together are a beginning of the body, and the end is only reported behind
  the whole body.  It holds of every run if each poll keeps an invariant of
  what was handed out and of the state (`polls_contract`).
-/
import Jrpxy.Lib.PullStream

namespace PullStream

open Poll

variable {ρ ε : Type}

/-- Polls one after the other, whatever they answer: the answers, each with the size that was
    asked for, and the state they leave. -/
def polls (poll : Nat → ρ → Polled ε (Option (List UInt8)) × ρ) :
    List Nat → ρ → List (Nat × Polled ε (Option (List UInt8))) × ρ
  | [], r => ([], r)
  | m :: ms, r =>
    let (answer, r) := poll m r
    let (answers, r) := polls poll ms r
    ((m, answer) :: answers, r)

/-- The answers to a caller that was handed `got` before are about this body, which is there as
    a whole or not. -/
def Contract (body : List UInt8) (whole : Prop) :
    List UInt8 → List (Nat × Polled ε (Option (List UInt8))) → Prop
  | got, [] => got <+: body
  | got, (m, .ok (some d)) :: answers =>
    got <+: body ∧ d.length ≤ m ∧ Contract body whole (got ++ d) answers
  | got, (_, .ok none) :: answers => got = body ∧ whole ∧ Contract body whole got answers
  | got, (_, .pending) :: answers => Contract body whole got answers
  | got, (_, .err _) :: answers => Contract body whole got answers
  | _, (_, .panic) :: _ => False

/-- What a caller has been handed behind one more answer. -/
def gotAfter (got : List UInt8) : Polled ε (Option (List UInt8)) → List UInt8
  | .ok (some d) => got ++ d
  | _ => got

/-- Every poll is made in a state that meets a condition. -/
def EachPoll (C : Nat → ρ → Prop) (poll : Nat → ρ → Polled ε (Option (List UInt8)) × ρ) :
    List Nat → ρ → Prop
  | [], _ => True
  | m :: ms, r => C m r ∧ EachPoll C poll ms (poll m r).2

/-- What one poll may do, of a reader that has handed out `got` and with invariant `I`. -/
def contractPost (I : List UInt8 → ρ → Prop) (body : List UInt8) (whole : Prop) (m : Nat)
    (got : List UInt8) : Post ε (Option (List UInt8)) ρ where
  pending := I got
  ok
    | some d, s => d.length ≤ m ∧ I (got ++ d) s
    | none, s => got = body ∧ whole ∧ I got s
  err _ := I got

theorem eachPoll_true (poll : Nat → ρ → Polled ε (Option (List UInt8)) × ρ) (ms : List Nat)
    (r : ρ) : EachPoll (fun _ _ => True) poll ms r := by
  induction ms generalizing r with
  | nil => trivial
  | cons m ms ih => exact ⟨trivial, ih _⟩

variable {poll : Nat → ρ → Polled ε (Option (List UInt8)) × ρ} {I : List UInt8 → ρ → Prop}
variable {body : List UInt8} {whole : Prop} {C : Nat → ρ → Prop}

/-- If each poll keeps the invariant, under a condition, every run of polls that meet the
    condition keeps to the contract. -/
theorem polls_contract (hahead : ∀ {got r}, I got r → got <+: body)
    (hpoll : ∀ m got r, C m r → I got r → Meets (poll m r) (contractPost I body whole m got))
    (ms : List Nat) {got : List UInt8} {r : ρ} (hr : I got r) (hsteps : EachPoll C poll ms r) :
    Contract body whole got (polls poll ms r).1 := by
  induction ms generalizing got r with
  | nil => exact hahead hr
  | cons m ms ih =>
    obtain ⟨hcond, hsteps⟩ := hsteps
    have hmeets := hpoll m got r hcond hr
    rw [polls]
    generalize poll m r = x at hmeets hsteps
    obtain ⟨_ | (_ | d) | e | _, s⟩ := x
    · exact ih hmeets hsteps
    · obtain ⟨hgot, hwhole, hs⟩ := hmeets
      exact ⟨hgot, hwhole, ih hs hsteps⟩
    · obtain ⟨hlen, hs⟩ := hmeets
      exact ⟨hahead hr, hlen, ih hs hsteps⟩
    · exact ih hmeets hsteps
    · exact hmeets

/-- What keeps to the contract from the start on, keeps to it behind the first poll. -/
theorem Contract.tail {got : List UInt8} {m : Nat} {a : Polled ε (Option (List UInt8))}
    {answers : List (Nat × Polled ε (Option (List UInt8)))}
    (h : Contract body whole got ((m, a) :: answers)) :
    Contract body whole (gotAfter got a) answers := by
  obtain _ | (_ | d) | e | _ := a
  · exact h
  · exact h.2.2
  · exact h.2.2
  · exact h
  · exact h.elim

/-- Every poll of a run that keeps to the contract meets the condition, if without it the
    contract is broken at once. -/
theorem eachPoll_of_contract
    (hkeep : ∀ m got r, C m r → I got r → Meets (poll m r) (contractPost I body whole m got))
    (hbreak : ∀ m got r answers, ¬ C m r → I got r →
      ¬ Contract body whole got ((m, (poll m r).1) :: answers))
    (ms : List Nat) {got : List UInt8} {r : ρ} (hr : I got r)
    (hcontract : Contract body whole got (polls poll ms r).1) : EachPoll C poll ms r := by
  induction ms generalizing got r with
  | nil => trivial
  | cons m ms ih =>
    rw [polls] at hcontract
    by_cases hcond : C m r
    · refine ⟨hcond, ?_⟩
      have hmeets := hkeep m got r hcond hr
      have htail := hcontract.tail
      generalize poll m r = x at hmeets hcontract htail
      obtain ⟨_ | (_ | d) | e | _, s⟩ := x
      · exact ih hmeets htail
      · exact ih hmeets.2.2 htail
      · exact ih hmeets.2 htail
      · exact ih hmeets htail
      · exact hmeets.elim
    · exact absurd hcontract (hbreak m got r _ hcond hr)

end PullStream
