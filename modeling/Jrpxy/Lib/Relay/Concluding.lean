/-
  Jrpxy.Lib.Relay.Concluding

  Relaying nothing but the end of a source.

  A relay that asks for pieces of no bytes makes no progress through data.
  But a source may come to its end all the same, after as many polls as its
  weight says (`Concludes`): because it owes nothing else, or because its next
  read is taken for the end (`concludes_of_read`).  Then a relay that has taken
  nothing in hand ends with its sender as it was: one call keeps it so or finds
  the body through (`forward_concludes`), and by induction the calls up to the
  end do (`forwardAll_concludes`).
-/
import Jrpxy.Lib.Relay.Kept

namespace PullStream.Puller

open Poll

variable {ρ ε ω : Type}

/-- What a poll may do on the way to the end: it waits in a state with `K`, or is at the end, in
    one with `Z`. -/
def concludePost (P : Puller ρ ε ω) (K Z : ρ → Prop) (r : ρ) : Post ε (Option (List UInt8)) ρ where
  pending s := K s ∧ P.weight s < P.weight r
  ok a s := a = none ∧ Z s
  err _ _ := False

/-- Polled for pieces of this size in a state with `K`, the source comes to its end, in one
    with `Z`. -/
def Concludes (P : Puller ρ ε ω) (m : Nat) (K Z : ρ → Prop) : Prop :=
  ∀ r, K r → Meets (P.poll m r) (P.concludePost K Z r)

/-- The source is within its limits and owes nothing but its end. -/
def EndsIn (P : Puller ρ ε ω) (t : ω) (r : ρ) : Prop := P.Fits r ∧ P.owed r = .ending t

/-- The source is at its end. -/
def EndedIn (P : Puller ρ ε ω) (t : ω) (r : ρ) : Prop := P.owed r = .ending t ∧ P.Done r

/-- A source that owes nothing but its end comes to it. -/
def ConcludesOwed (P : Puller ρ ε ω) (m : Nat) : Prop :=
  ∀ t, P.Concludes m (P.EndsIn t) (P.EndedIn t)

/-- A lawful source that hands out a piece only of a body with data. -/
theorem Lawful.concludes {P : Puller ρ ε ω} {lo m : Nat} (h : P.Lawful lo) (hm : lo ≤ m)
    (hpiece : ∀ r d s t, P.poll m r = (.ok (some d), s) → P.owed r ≠ .ending t) :
    P.ConcludesOwed m := by
  rintro t r ⟨hfits, howed⟩
  have hpost := h m r hm
  have hnone : ∀ d s, P.poll m r ≠ (.ok (some d), s) := fun d s heq => hpiece r d s t heq howed
  generalize P.poll m r = x at hpost hnone
  obtain ⟨_ | (_ | d) | e | _, s⟩ := x
  · obtain ⟨hs, hf, hweight⟩ := hpost
    exact ⟨⟨hf hfits, hs.trans howed⟩, hweight⟩
  · obtain ⟨t', hr, hs, hdone⟩ := hpost
    rw [howed] at hr
    have htail : some t = some t' := congrArg Owed.tail hr
    cases htail
    exact ⟨rfl, hs, hdone⟩
  · exact absurd rfl (hnone d s)
  · have hfault : P.owed r = .fault := hpost hfits
    rw [howed] at hfault
    have htail : some t = none := congrArg Owed.tail hfault
    cases htail
  · exact hpost

end PullStream.Puller

namespace BodyRelay

open Poll PullStream BlockWriter

variable {ρ σ ε₁ ε₂ η ω : Type} {C : Ends ρ σ ε₁ ε₂ η ω}

/-- A source that hands out nothing is at its end if the next read says so. -/
theorem concludes_of_read {P : Puller ρ ε₁ ω} {m : Nat} {J Z : ρ → Prop}
    (h : HandsOutNothing P m J Z) (hsettles : P.Settles m) :
    P.Concludes m (fun r => J r ∧ (P.read m r).1 = .ok none) fun s => J s ∧ Z s := by
  rintro r ⟨hJ, hread⟩
  have hpost := h r hJ
  generalize hpoll : P.poll m r = x at hpost
  obtain ⟨a, s⟩ := x
  by_cases ha : a = .pending
  · subst ha
    refine ⟨⟨hpost, ?_⟩, hsettles r s hpoll⟩
    rw [Puller.read_of_pending hsettles hpoll]
    exact hread
  · rw [Puller.read_of_ready (by rw [hpoll]; exact ha), hpoll] at hread
    have hread : a = .ok none := hread
    subst hread
    exact ⟨rfl, hpost⟩

/-- A read of a source that hands out nothing is the end, an empty piece or an error. -/
theorem read_of_nothing {P : Puller ρ ε₁ ω} {m : Nat} {J Z : ρ → Prop}
    (h : HandsOutNothing P m J Z) (hsettles : P.Settles m) {r : ρ} (hr : J r) :
    (P.read m r).1 = .ok none ∨ (P.read m r).1 = .ok (some []) ∨ ∃ e, (P.read m r).1 = .err e := by
  have hread : Meets (P.read m r) (nothingPost J Z) :=
    blockOn_meets (I := J) rfl h _ hr
  have hready := Puller.read_ready hsettles r
  generalize P.read m r = x at hread hready
  obtain ⟨_ | (_ | d) | e | _, s⟩ := x
  · exact absurd rfl hready
  · exact .inl rfl
  · cases hread.1
    exact .inr (.inl rfl)
  · exact .inr (.inr ⟨e, rfl⟩)
  · exact hread.elim

/-! ## One call -/

/-- The relay has not failed and has taken no byte in hand, and its source is on the way to its
    end, or there. -/
structure Relay.Concluding (m : Nat) (K Z : ρ → Prop) (sender : Sender C.target) (x : Relay C) :
    Prop where
  alive : x.errored = false
  size : x.chunkSize = m
  untouched : x.sender = sender
  reading : x.readDone = false → K x.reader
  done : x.readDone = true → Z x.reader

/-- Every poll of the reader uses up some of this. -/
def Relay.reads (x : Relay C) : Nat := if x.readDone then 0 else C.source.weight x.reader + 1

/-- What one call may do. -/
def concludingPost (m : Nat) (K Z : ρ → Prop) (sender : Sender C.target) (x : Relay C) :
    Post η Bool (Relay C) where
  pending y := y.Concluding m K Z sender ∧ y.reads < x.reads
  ok finished y := y.Concluding m K Z sender ∧
    if finished then y.readDone = true else y.reads < x.reads
  err _ _ := False

variable {m : Nat} {K Z : ρ → Prop} {sender : Sender C.target} {x : Relay C} {r : C.target.Ready}
variable (hsource : C.source.Concludes m K Z) (hnil : sender.pending = [])
  (hready : sender.writer = .ready r)
include hsource hnil hready

/-- A call goes on, or finds the body through. -/
theorem Relay.forward_concludes (hx : x.Concluding m K Z sender) :
    Meets x.forward (concludingPost m K Z sender x) := by
  have hpending : x.sender.pending = [] := by rw [hx.untouched, hnil]
  obtain rfl := hx.size
  cases hdone : x.readDone with
  | false =>
    have hpoll := hsource x.reader (hx.reading hdone)
    have hstart : x.start = some .read := by simp [Relay.start, hx.alive, hpending, hdone]
    have hgoing : ∀ {P : Prop}, x.readDone = true → P := by
      intro P htrue
      rw [hdone] at htrue
      cases htrue
    rw [Relay.forward, hstart]
    simp only [Relay.resume, Relay.pollRead]
    generalize C.source.poll x.chunkSize x.reader = z at hpoll
    obtain ⟨_ | a | e | _, reader⟩ := z
    · obtain ⟨hreading, hweight⟩ := hpoll
      refine ⟨⟨hx.alive, rfl, hx.untouched, fun _ => hreading, hgoing⟩, ?_⟩
      simp only [Relay.reads, hdone, Bool.false_eq_true, if_false]
      omega
    · obtain ⟨rfl, hend⟩ := hpoll
      refine ⟨⟨hx.alive, rfl, hx.untouched, Bool.noConfusion, fun _ => hend⟩, ?_⟩
      simp [Relay.reads, hdone]
    · exact hpoll.elim
    · exact hpoll.elim
  | true =>
    -- with nothing in hand and nothing to read, the writer waits for input
    have hstart : x.start = some .step := by simp [Relay.start, hx.alive, hdone]
    have hstep : x.sender.stepOnce C = (.ok .needInput, x.sender) := by
      rw [hx.untouched, Sender.stepOnce, hready]
      simp [hnil]
    rw [Relay.forward, hstart]
    simp only [Relay.resume, Relay.pollStep, hstep, Relay.latch]
    refine ⟨hx, ?_⟩
    rw [if_pos hdone]
    exact hdone

/-! ## Runs of calls -/

/-- More polls than are left to the reader are enough. -/
theorem Run.forwardAll_concludes (fuel : Nat) {self : Run C} (h : self.Settled)
    (hx : self.relay.Concluding m K Z sender) (hfuel : self.relay.reads < fuel) :
    ∃ run, self.forwardAll fuel = (.ok (), run) ∧ run.relay.Concluding m K Z sender ∧
      run.relay.readDone = true := by
  induction fuel generalizing self with
  | zero => omega
  | succ fuel ih =>
    have hpoll := Run.poll_of_forward h (Relay.forward_concludes hsource hnil hready hx)
    rw [Run.forwardAll]
    generalize self.poll = y at hpoll
    obtain ⟨_ | (_ | _) | e | _, y⟩ := y
    · obtain ⟨hsettled, hy, hlt⟩ := hpoll
      exact ih hsettled hy (by omega)
    · obtain ⟨hsettled, hy, hlt⟩ := hpoll
      have hlt : y.relay.reads < self.relay.reads := hlt
      exact ih hsettled hy (by omega)
    · exact ⟨y, rfl, hpoll.2⟩
    · exact hpoll.2.elim
    · exact hpoll.elim

end BodyRelay
