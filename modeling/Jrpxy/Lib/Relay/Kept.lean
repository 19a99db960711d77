/-
  Jrpxy.Lib.Relay.Kept

  What calls keep, whatever the piece size.

  A relay that is asked for pieces of no bytes has no measure and no progress,
  but some of its calls still end.  What one call keeps of a relay holds when a
  run ends (`forwardAll_kept`); in particular what the polls of the source keep
  of the reader (`forward_reader`), and the whole sender as long as nothing but
  empty pieces is handed out (`forward_untouched`).
-/
import Jrpxy.Lib.Relay.Runs

namespace BodyRelay

open Poll PullStream BlockWriter

variable {ρ σ ε₁ ε₂ η ω : Type} {C : Ends ρ σ ε₁ ε₂ η ω}

/-- What a poll answers when there is nothing to hand out: an empty piece, in a state with `J`,
    or the end, in one with `Z` too. -/
def nothingPost {ε : Type} (J Z : ρ → Prop) : Post ε (Option (List UInt8)) ρ where
  pending := J
  ok
    | some d, s => d = [] ∧ J s
    | none, s => J s ∧ Z s
  err _ _ := True

/-- Polled for pieces of this size in a state with `J`, the source hands out nothing but empty
    pieces, keeps `J`, and comes to its end in a state with `Z`. -/
def HandsOutNothing (P : Puller ρ ε₁ ω) (m : Nat) (J Z : ρ → Prop) : Prop :=
  ∀ r, J r → Meets (P.poll m r) (nothingPost J Z)

/-! ## One call -/

namespace Relay

variable {x y : Relay C}

/-- A call of a relay that has not failed reads, with nothing in hand and more to come, or
    steps the writer; a failed one answers so. -/
theorem forward_cases (x : Relay C) :
    x.errored = true ∧ x.forward = (.err C.afterError, x) ∨
    x.errored = false ∧ x.sender.pending = [] ∧ x.readDone = false ∧
      x.forward = latch x.pollRead ∨
    x.errored = false ∧ x.forward = latch x.pollStep := by
  cases herr : x.errored with
  | true => exact .inl ⟨rfl, by simp [forward, start, herr]⟩
  | false =>
    refine .inr ?_
    by_cases hread : x.sender.pending = [] ∧ x.readDone = false
    · exact .inl ⟨rfl, hread.1, hread.2, by simp [forward, start, herr, hread, resume]⟩
    · refine .inr ⟨rfl, ?_⟩
      simp only [forward, start, herr, Bool.false_eq_true, if_false]
      rw [if_neg (by simpa using hread)]
      rfl

/-- An error changes nothing else. -/
theorem latch_reader (z : Polled η Bool × Relay C) : (latch z).2.reader = z.2.reader := by
  obtain ⟨_ | b | e | _, z⟩ := z
  · rfl
  · rfl
  · rfl
  · rfl

/-- What every poll of the source keeps, a call keeps of the reader. -/
theorem forward_reader {R : ρ → Prop} (hR : ∀ m r, R r → R (C.source.poll m r).2)
    (h : R x.reader) : R x.forward.2.reader := by
  rcases forward_cases x with ⟨-, heq⟩ | ⟨-, -, -, heq⟩ | ⟨-, heq⟩
  · rw [heq]
    exact h
  · rw [heq, latch_reader, pollRead]
    have hpoll := hR x.chunkSize x.reader h
    generalize C.source.poll x.chunkSize x.reader = z at hpoll
    obtain ⟨_ | (_ | d) | e | _, r⟩ := z
    · exact hpoll
    · exact hpoll
    · exact hpoll
    · exact hpoll
    · exact hpoll
  · rw [heq, latch_reader, pollStep]
    generalize x.sender.stepOnce C = z
    obtain ⟨_ | (_ | _) | e | _, sender⟩ := z
    · exact h
    · exact h
    · exact h
    · exact h
    · exact h

/-- A step that needs input was one between two blocks, with nothing in hand. -/
theorem ready_of_needInput {s s' : Sender C.target} (h : s.stepOnce C = (.ok .needInput, s')) :
    s' = s ∧ s.pending = [] ∧ ∃ r, s.writer = .ready r := by
  have hsays := s.says_stepOnce.needsInput
  rw [h] at hsays
  exact hsays rfl

/-- A call that finds the body through finds a relay that is finished, and leaves it so. -/
theorem forward_through (h : x.forward = (.ok true, y)) :
    y = x ∧ x.errored = false ∧ x.Finished := by
  rcases forward_cases x with ⟨-, heq⟩ | ⟨-, -, -, heq⟩ | ⟨herr, heq⟩
  · rw [heq] at h
    cases h
  · rw [heq, pollRead] at h
    generalize C.source.poll x.chunkSize x.reader = z at h
    obtain ⟨_ | (_ | d) | e | _, r⟩ := z
    all_goals cases h
  · rw [heq, pollStep] at h
    generalize hz : x.sender.stepOnce C = z at h
    obtain ⟨_ | (_ | _) | e | _, sender⟩ := z
    · cases h
    · obtain ⟨rfl, hnil, hready⟩ := ready_of_needInput hz
      have hanswer : x.readDone = true := Polled.ok.inj (congrArg Prod.fst h)
      have hsame : x = y := congrArg Prod.snd h
      exact ⟨hsame.symm, herr, hanswer, hnil, hready⟩
    · cases h
    · cases h
    · cases h

/-! ## Empty pieces -/

/-- The relay has failed, or it has taken no byte in hand and its sender is as it was. -/
def Untouched (m : Nat) (J Z : ρ → Prop) (sender : Sender C.target) (x : Relay C) : Prop :=
  x.errored = true ∨
    x.chunkSize = m ∧ x.sender = sender ∧ J x.reader ∧ (x.readDone = true → Z x.reader)

/-- As long as nothing but empty pieces is handed out, a call leaves the sender alone. -/
theorem forward_untouched {m : Nat} {J Z : ρ → Prop} (hsource : HandsOutNothing C.source m J Z)
    {sender : Sender C.target} (hnil : sender.pending = []) {r : C.target.Ready}
    (hready : sender.writer = .ready r) (hx : x.Untouched m J Z sender) :
    x.forward.2.Untouched m J Z sender := by
  rcases forward_cases x with ⟨-, heq⟩ | ⟨herr, hpending, hmore, heq⟩ | ⟨herr, heq⟩
  · rw [heq]
    exact hx
  -- a piece that is read is empty, as the one in hand was
  · rcases hx with hfailed | ⟨rfl, hsender, hJ, hZ⟩
    · rw [hfailed] at herr
      cases herr
    have hpoll := hsource x.reader hJ
    have hgoing : ∀ {P : Prop}, x.readDone = true → P := by
      intro P hdone
      rw [hmore] at hdone
      cases hdone
    rw [heq, pollRead]
    generalize C.source.poll x.chunkSize x.reader = z at hpoll
    obtain ⟨_ | (_ | d) | e | _, s⟩ := z
    · exact .inr ⟨rfl, hsender, hpoll, hgoing⟩
    · exact .inr ⟨rfl, hsender, hpoll.1, fun _ => hpoll.2⟩
    · obtain ⟨rfl, hs⟩ := hpoll
      refine .inr ⟨rfl, ?_, hs, hgoing⟩
      rw [← hsender, ← hpending]
      rfl
    · exact .inl rfl
    · exact hpoll.elim
  -- a sender between blocks with nothing in hand does nothing
  · rcases hx with hfailed | ⟨hsize, hsender, hJ, hZ⟩
    · rw [hfailed] at herr
      cases herr
    have hstep : x.sender.stepOnce C = (.ok .needInput, x.sender) := by
      rw [hsender, Sender.stepOnce, hready]
      simp [hnil]
    rw [heq, pollStep, hstep]
    exact .inr ⟨hsize, hsender, hJ, hZ⟩

end Relay

/-! ## Runs -/

namespace Run

variable {self : Run C} {K : Relay C → Prop} (hK : ∀ x, K x → K x.forward.2)
include hK

theorem act_kept (h : self.Settled) (hk : K self.relay) (a : Act) : K (self.act a).2.relay := by
  cases a with
  | poll =>
    show K self.poll.2.relay
    rw [(poll_eq h).2]
    exact hK _ hk
  | drop => exact hk

/-- What a call keeps, a run keeps, polled and dropped as it may be. -/
theorem acts_kept (h : self.Settled) (hk : K self.relay) (as : List Act) :
    K (self.acts as).2.relay := by
  induction as generalizing self with
  | nil => exact hk
  | cons a as ih => exact ih (act_settled h a) (act_kept hK h hk a)

/-- Calling until the body is through ends in a relay that is finished, and keeps what a call
    keeps. -/
theorem forwardAll_kept (fuel : Nat) (h : self.Settled) (hk : K self.relay) {run : Run C}
    (hok : self.forwardAll fuel = (.ok (), run)) :
    K run.relay ∧ run.relay.errored = false ∧ run.relay.Finished := by
  induction fuel generalizing self with
  | zero => cases hok
  | succ fuel ih =>
    have hnext := hK _ hk
    have hsettled := poll_settled h
    obtain ⟨hanswer, hrelay⟩ := poll_eq h
    rw [forwardAll] at hok
    rw [← hrelay] at hnext
    generalize hy : self.poll = y at hok hnext hsettled hanswer hrelay
    obtain ⟨_ | (_ | _) | e | _, y⟩ := y
    · exact ih hsettled hnext hok
    · exact ih hsettled hnext hok
    · cases hok
      obtain ⟨hsame, herr, hfinished⟩ := Relay.forward_through
        (Prod.ext hanswer.symm hrelay.symm : self.relay.forward = (.ok true, run.relay))
      rw [hsame]
      exact ⟨hk, herr, hfinished⟩
    · cases hok
    · cases hok

omit hK in
/-- One call is enough for a relay that is finished, and leaves it so. -/
theorem forwardAll_finished {x : Relay C} (halive : x.errored = false) (hfinished : x.Finished)
    (fuel : Nat) : (Run.mk x none).forwardAll (fuel + 1) = (.ok (), ⟨x, none⟩) := by
  obtain ⟨chunkSize, readDone, errored, reader, writer, pending, medium⟩ := x
  obtain ⟨hdone, hnil, r, hready⟩ := hfinished
  cases halive
  cases hdone
  cases hnil
  cases hready
  rfl

/-- While every call waits or leaves more to do, calling comes to no end. -/
theorem forwardAll_going (hgoes : ∀ x, K x → x.forward.1 = .pending ∨ x.forward.1 = .ok false)
    (fuel : Nat) (h : self.Settled) (hk : K self.relay) : (self.forwardAll fuel).1 = .pending := by
  induction fuel generalizing self with
  | zero => rfl
  | succ fuel ih =>
    have hnext := hK _ hk
    have hanswer := hgoes _ hk
    have hsettled := poll_settled h
    rw [← (poll_eq h).1] at hanswer
    rw [← (poll_eq h).2] at hnext
    rw [forwardAll]
    generalize self.poll = y at hnext hanswer hsettled
    obtain ⟨answer, y⟩ := y
    rcases hanswer with rfl | rfl
    · exact ih hsettled hnext
    · exact ih hsettled hnext

end Run

/-! ## From one relay to another -/

/-- Calls of `x`, of which the last may be dropped, end in `y`. -/
def Relay.Reaches (x y : Relay C) : Prop := ∃ as, y = ((Run.mk x none).acts as).2.relay

theorem Run.acts_append (self : Run C) (as bs : List Act) :
    (self.acts (as ++ bs)).2 = ((self.acts as).2.acts bs).2 := by
  induction as generalizing self with
  | nil => rfl
  | cons a as ih => exact ih (self.act a).2

theorem Relay.Reaches.refl (x : Relay C) : x.Reaches x := ⟨[], rfl⟩

theorem Relay.Reaches.trans {x y z : Relay C} (hxy : x.Reaches y) (hyz : y.Reaches z) :
    x.Reaches z := by
  obtain ⟨as, rfl⟩ := hxy
  obtain ⟨bs, rfl⟩ := hyz
  exact ⟨as ++ .drop :: bs, by rw [Run.acts_append]; rfl⟩

/-- Relaying while something else happens is calls and a drop. -/
theorem Relay.reaches_forwardWhile (x : Relay C) (polls : Nat) :
    x.Reaches (Run.forwardWhile polls ⟨x, none⟩).2.relay := by
  obtain ⟨as, has⟩ := @Run.forwardWhile_eq _ _ _ _ _ _ C ⟨x, none⟩ polls
  exact ⟨as, congrArg Run.relay has⟩

end BodyRelay
