/-
  Jrpxy.Lib.Relay.Runs

  Runs of a relay: calls of `forward`, polled or dropped while they wait.

  A `Task` says what the relay is to do: what its source owed at first, and
  behind which bytes its sink starts.  `Good` is the invariant of a relay that
  has not failed, `Halted` that of one that has; one call keeps the first or
  ends in the second (`forward_meets`).  A call that waits would, if dropped,
  be begun again in the same place (`Settled`), so what the calls do does not
  depend on which of them are dropped, and a run is a number of calls
  (`acts_keeps`).  A measure that every call lowers bounds their number until
  the body is through (`forwardAll_meets`).
-/
import Jrpxy.Lib.Relay

namespace BodyRelay

open Poll PullStream BlockWriter

variable {ρ σ ε₁ ε₂ η ω : Type} {C : Ends ρ σ ε₁ ε₂ η ω}

/-! ## Invariants -/

/-- What a relay is to do: relay what is owed, behind `base`, from the idle view `view`. -/
structure Task (σ ω : Type) where
  medium : Medium σ
  limit : Nat
  view : Idle
  base : List UInt8
  owed : Owed ω

/-- The relay has not failed: what it has read is on its way, and the rest is still owed.
    `F` says that no limit of the reader and no fault of the sink is in the way. -/
structure Relay.Good (T : Task σ ω) (F : Prop) (x : Relay C) : Prop where
  alive : x.errored = false
  sent : ∃ data, x.sender.Progress T.medium T.limit T.view T.base data ∧
    T.owed = (C.source.owed x.reader).prepend data
  ended : x.readDone = true → ∃ t, C.source.owed x.reader = .ending t ∧ C.source.Done x.reader
  fits : F → x.readDone = false → C.source.Fits x.reader
  accepting : F → T.medium.Accepting x.sender.medium
  positive : 0 < x.chunkSize
  bounded : x.chunkSize < T.limit

/-- What is on the wire begins a relayed body. -/
def Relay.Behind (T : Task σ ω) (x : Relay C) : Prop :=
  BodyRelay.Behind T.medium T.limit T.view T.base T.owed.body x.sender.medium

/-- The relay has failed. -/
def Relay.Halted (T : Task σ ω) (x : Relay C) : Prop := x.errored = true ∧ x.Behind T

/-- The body is through. -/
def Relay.Finished (x : Relay C) : Prop :=
  x.readDone = true ∧ x.sender.pending = [] ∧ ∃ r, x.sender.writer = .ready r

/-- Every call uses up some of this. -/
def Relay.measure (T : Task σ ω) (x : Relay C) : Nat :=
  (if x.readDone then 0 else 5 * C.source.weight x.reader + 1) + x.sender.measure T.medium

/-- What one call may do, if an error leaves the relay as `H` says. -/
def callPost (T : Task σ ω) (F : Prop) (H : Relay C → Prop) (x : Relay C) :
    Post η Bool (Relay C) where
  pending y := y.Good T F ∧ y.measure T < x.measure T
  ok finished y := y.Good T F ∧ if finished then y.Finished else y.measure T < x.measure T
  err _ y := H y ∧ (F → T.owed.tail = none)

variable {T : Task σ ω} {F : Prop} {x : Relay C}

/-- A relay starts out good. -/
theorem Relay.new_good {chunkSize : Nat} {reader : ρ} {r : C.target.Ready} {s : σ} {M : Medium σ}
    {limit : Nat} (hpos : 0 < chunkSize) (hlt : chunkSize < limit) :
    (Relay.new chunkSize reader r s : Relay C).Good
      ⟨M, limit, C.target.idle r, M.wire s, C.source.owed reader⟩
      (C.source.Fits reader ∧ M.Accepting s) where
  alive := rfl
  sent := by
    refine ⟨[], ⟨[], [], [], ?_, ⟨rfl, ?_, rfl⟩, rfl, by simp, Nat.lt_trans hpos hlt⟩, rfl⟩
    · exact (List.append_nil _).symm
    · simp [Idle.spend]
  ended := nofun
  fits hF _ := hF.1
  accepting hF := hF.2
  positive := hpos
  bounded := hlt

/-- A good relay has sent a beginning of a relayed body. -/
theorem Relay.Good.behind (hx : x.Good T F) : x.Behind T := by
  obtain ⟨data, hsent, howed⟩ := hx.sent
  obtain ⟨w, hwire, hrelayed⟩ := hsent.behind
  refine ⟨w, hwire, ?_⟩
  rw [howed]
  exact hrelayed.append _

/-- When a good relay is finished, the whole body is out in whole blocks, and the reader
    is at the end. -/
theorem Relay.Good.finished (hx : x.Good T F) (hfin : x.Finished) :
    ∃ r t bs, x.sender.writer = .ready r ∧ T.owed.tail = some t ∧
      C.source.owed x.reader = .ending t ∧ C.source.Done x.reader ∧
      T.medium.wire x.sender.medium = T.base ++ T.view.framing.blocks bs ∧
      bs.flatten = T.owed.body ∧ (∀ d ∈ bs, d.length < T.limit) ∧
      C.target.idle r = T.view.spend T.owed.body.length := by
  obtain ⟨hdone, hnil, r, hready⟩ := hfin
  obtain ⟨data, ⟨w, bs, cur, hwire, hsent, hdata, hbs, -⟩, howed⟩ := hx.sent
  obtain ⟨t, hending, hend⟩ := hx.ended hdone
  rw [hready] at hsent
  obtain ⟨rfl, hidle, rfl⟩ := hsent
  have hflat : bs.flatten = T.owed.body := by
    rw [howed, hending, ← hdata, hnil]
    simp
  have htail : T.owed.tail = some t := by
    rw [howed, hending]
    rfl
  exact ⟨r, t, bs, hready, htail, hending, hend, hwire, hflat, hbs, hflat ▸ hidle⟩

/-! ## One call -/

/-- A new piece may be taken in hand whenever there is none. -/
theorem Sender.Progress.refill {W : Phases σ ε₂} {M : Medium σ} {limit : Nat} {v : Idle}
    {base data buf : List UInt8} {y : Sender W} (hy : y.Progress M limit v base data)
    (hnil : y.pending = []) (hlen : buf.length < limit) :
    Sender.Progress M limit v base (data ++ buf) { y with pending := buf } := by
  obtain ⟨writer, pending, s⟩ := y
  obtain ⟨w, bs, cur, hwire, hsent, rfl, hbs, -⟩ := hy
  subst hnil
  cases writer with
  | poisoned => exact hsent.elim
  | ready r =>
    obtain ⟨rfl, hidle, hw⟩ := hsent
    exact ⟨w, bs, [], hwire, ⟨rfl, hidle, hw⟩, by simp, hbs, by simpa using hlen⟩
  | opening o => exact absurd rfl hsent.2.1
  | writing o => exact absurd rfl hsent.1
  | closing c =>
    obtain ⟨rfl, hidle, hw⟩ := hsent
    exact ⟨w, bs, [], hwire, ⟨rfl, hidle, hw⟩, by simp, hbs, by simpa using hlen⟩

theorem Sender.Progress.measure_refill {W : Phases σ ε₂} {M : Medium σ} {limit : Nat} {v : Idle}
    {base data buf : List UInt8} {y : Sender W} (hy : y.Progress M limit v base data)
    (hnil : y.pending = []) :
    Sender.measure M { y with pending := buf } = y.measure M + blockCost buf.length := by
  obtain ⟨writer, pending, s⟩ := y
  obtain ⟨w, bs, cur, hwire, hsent, rfl, hbs, -⟩ := hy
  subst hnil
  cases writer with
  | poisoned => exact hsent.elim
  | ready r => simp [Sender.measure, blockCost]
  | opening o => exact absurd rfl hsent.2.1
  | writing o => exact absurd rfl hsent.1
  | closing c => simp [Sender.measure, blockCost, Nat.add_assoc]

/-- Reading the next piece. -/
theorem Relay.pollRead_meets (hS : C.source.Lawful 1) (hx : x.Good T F)
    (hnil : x.sender.pending = []) (hmore : x.readDone = false) :
    Meets x.pollRead (callPost T F (Relay.Behind T) x) := by
  have hpoll := hS x.chunkSize x.reader hx.positive
  have hbehind := hx.behind
  obtain ⟨data, hsent, howed⟩ := hx.sent
  simp only [Relay.pollRead]
  generalize C.source.poll x.chunkSize x.reader = y at hpoll
  obtain ⟨_ | (_ | buf) | e | _, reader⟩ := y
  -- the source is not ready, and owes what it owed
  · obtain ⟨hsame, hfits, hweight⟩ := hpoll
    refine ⟨⟨hx.alive, ⟨data, hsent, ?_⟩, ?_, ?_, hx.accepting, hx.positive, hx.bounded⟩, ?_⟩
    · rw [howed, hsame]
    · exact fun h => absurd h (by simp [hmore])
    · exact fun hF h => hfits (hx.fits hF h)
    · simp only [Relay.measure, hmore, Bool.false_eq_true, if_false]
      omega
  -- the source is at its end: all of the body is sent or in hand
  · obtain ⟨t, hbefore, hafter, hdone⟩ := hpoll
    refine ⟨⟨hx.alive, ⟨data, hsent, ?_⟩, ?_, nofun, hx.accepting, hx.positive, hx.bounded⟩, ?_⟩
    · rw [howed, hbefore, hafter]
    · exact fun _ => ⟨t, hafter, hdone⟩
    · simp only [Relay.measure, hmore, Bool.false_eq_true, if_true, if_false]
      omega
  -- a piece moves from what is owed to what is in hand
  · obtain ⟨hsplit, hfits, hlen, hne, hweight⟩ := hpoll
    have hpos := hx.positive
    have hbuf := hne hpos
    have hlt := Nat.lt_of_le_of_lt hlen hx.bounded
    refine ⟨⟨hx.alive, ⟨data ++ buf, hsent.refill hnil hlt, ?_⟩, ?_, ?_, hx.accepting,
      hx.positive, hx.bounded⟩, ?_⟩
    · rw [howed, hsplit, Owed.prepend_prepend]
    · exact fun h => absurd h (by simp [hmore])
    · exact fun hF h => hfits (hx.fits hF h)
    · have hcost := @Sender.Progress.measure_refill _ _ _ _ _ _ _ _ buf _ hsent hnil
      rw [blockCost_of_ne hbuf] at hcost
      have hsize := List.length_pos_iff.mpr hbuf
      simp only [Relay.measure, hmore, Bool.false_eq_true, if_false, hcost]
      omega
  · refine ⟨hbehind, fun hF => ?_⟩
    rw [howed, hpoll (hx.fits hF hmore)]
    rfl
  · exact hpoll.elim

/-- One step of the writer, when there is something to do or nothing more to read. -/
theorem Relay.pollStep_meets (hW : C.target.Lawful T.medium T.limit)
    (hroom : T.view.Admits T.owed.body.length) (hx : x.Good T F)
    (hbusy : ¬ (x.sender.pending = [] ∧ x.readDone = false)) :
    Meets x.pollStep (callPost T F (Relay.Behind T) x) := by
  obtain ⟨data, hsent, howed⟩ := hx.sent
  have hadmits : T.view.Admits data.length := fun k hk => by
    have hall := hroom k hk
    rw [howed, Owed.prepend_body, List.length_append] at hall
    omega
  have hstep := stepOnce_meets hW hadmits hsent
  simp only [Relay.pollStep]
  generalize x.sender.stepOnce C = y at hstep
  obtain ⟨_ | (_ | _) | e | _, sender⟩ := y
  -- the step moves data on within the sender and the wire, and touches nothing else
  · obtain ⟨hsent', -, hmeasure, hacc⟩ := hstep
    refine ⟨⟨hx.alive, ⟨data, hsent', howed⟩, hx.ended, hx.fits, hacc ∘ hx.accepting,
      hx.positive, hx.bounded⟩, ?_⟩
    exact Nat.add_lt_add_left hmeasure _
  -- it asks for more only when everything is sent, and then there is no more to read
  · obtain ⟨rfl, hnil, hready⟩ := hstep
    have hdone : x.readDone = true := by simpa [hnil] using hbusy
    refine ⟨hx, ?_⟩
    rw [if_pos hdone]
    exact ⟨hdone, hnil, hready⟩
  · obtain ⟨hsent', hmeasure, hacc⟩ := hstep
    refine ⟨⟨hx.alive, ⟨data, hsent', howed⟩, hx.ended, hx.fits, hacc ∘ hx.accepting,
      hx.positive, hx.bounded⟩, ?_⟩
    exact Nat.add_lt_add_left hmeasure _
  · obtain ⟨⟨w, hwire, hrelayed⟩, hacc⟩ := hstep
    refine ⟨⟨w, hwire, ?_⟩, fun hF => absurd (hx.accepting hF) hacc⟩
    rw [howed]
    exact hrelayed.append _
  · exact hstep.elim

/-- Latching an error leaves every other answer alone. -/
theorem Relay.latch_meets {P : Post η Bool (Relay C)} {E : η → Relay C → Prop}
    {y : Polled η Bool × Relay C} (h : Meets y P)
    (hlatch : ∀ e z, P.err e z → E e { z with errored := true }) :
    Meets (Relay.latch y) { P with err := E } := by
  obtain ⟨_ | a | e | _, y⟩ := y
  · exact h
  · exact h
  · exact hlatch e y h
  · exact h.elim

/-- The rule of a call of a relay that has not failed: it reads with nothing in hand and more
    to come, steps the writer otherwise, and latches an error of either. -/
theorem Relay.forward_rule {P : Post η Bool (Relay C)} {E : η → Relay C → Prop}
    (halive : x.errored = false)
    (hread : x.sender.pending = [] → x.readDone = false → Meets x.pollRead P)
    (hstep : ¬ (x.sender.pending = [] ∧ x.readDone = false) → Meets x.pollStep P)
    (hlatch : ∀ e z, P.err e z → E e { z with errored := true }) :
    Meets x.forward { P with err := E } := by
  simp only [Relay.forward, Relay.start, halive, Bool.false_eq_true, if_false]
  by_cases hmore : x.sender.pending = [] ∧ x.readDone = false
  · rw [if_pos (by simpa using hmore)]
    exact latch_meets (hread hmore.1 hmore.2) hlatch
  · rw [if_neg (by simpa using hmore)]
    exact latch_meets (hstep hmore) hlatch

/-- One call keeps a relay good, or halts it. -/
theorem Relay.forward_meets (hS : C.source.Lawful 1) (hW : C.target.Lawful T.medium T.limit)
    (hroom : T.view.Admits T.owed.body.length) (hx : x.Good T F) :
    Meets x.forward (callPost T F (Relay.Halted T) x) := by
  apply Relay.forward_rule hx.alive (P := callPost T F (Relay.Behind T) x)
  · exact pollRead_meets hS hx
  · exact pollStep_meets hW hroom hx
  · rintro e y ⟨hbehind, hcause⟩
    exact ⟨⟨rfl, hbehind⟩, hcause⟩

/-! ## Waiting and dropped calls -/

/-- A call that waits would be begun again in the same place. -/
def Run.Settled (self : Run C) : Prop := ∀ a, self.call = some a → self.relay.start = some a

theorem Run.settled_of_none {relay : Relay C} : Run.Settled ⟨relay, none⟩ := nofun

/-- What the answer of a step says, whatever the target: while it waits the piece in hand is the
    same, and it needs input between two blocks, with nothing in hand. -/
structure Sender.Says (y : Sender C.target) (x : Polled η StepOutcome × Sender C.target) :
    Prop where
  waits : x.1 = .pending → x.2.pending = y.pending
  needsInput : x.1 = .ok .needInput → x.2 = y ∧ y.pending = [] ∧ ∃ r, y.writer = .ready r

/-- Going on in another phase, or failing, is neither. -/
theorem Sender.says_enter {α : Type} (y z : Sender C.target) (s : σ)
    (phase : α → WriterState C.target) (r : Except ε₂ α) : y.Says (z.enter C s phase r) := by
  cases r with
  | ok a => exact ⟨(by intro h; cases h), (by intro h; cases h)⟩
  | error e => exact ⟨(by intro h; cases h), (by intro h; cases h)⟩

theorem Sender.says_stepOnce (y : Sender C.target) : y.Says (y.stepOnce C) := by
  obtain ⟨writer, pending, medium⟩ := y
  have hother : ∀ {x : Polled η StepOutcome × Sender C.target}, x.1 ≠ .pending →
      x.1 ≠ .ok .needInput → Sender.Says ⟨writer, pending, medium⟩ x := fun hwait hneed =>
    ⟨fun h => absurd h hwait, fun h => absurd h hneed⟩
  have hwaits : ∀ (writer' : WriterState C.target) (s : σ),
      Sender.Says ⟨writer, pending, medium⟩ (.pending, ⟨writer', pending, s⟩) := fun _ _ =>
    ⟨fun _ => rfl, (by intro h; cases h)⟩
  cases writer with
  | poisoned => exact hother (by intro h; cases h) (by intro h; cases h)
  | ready r =>
    simp only [Sender.stepOnce]
    split
    · next hempty =>
      exact ⟨(by intro h; cases h), fun _ => ⟨rfl, by simpa using hempty, r, rfl⟩⟩
    · exact says_enter _ _ _ _ _
  | opening o =>
    simp only [Sender.stepOnce]
    split
    · exact hwaits _ _
    · exact says_enter _ _ _ _ _
    · exact hother (by intro h; cases h) (by intro h; cases h)
    · exact hother (by intro h; cases h) (by intro h; cases h)
  | writing w =>
    simp only [Sender.stepOnce]
    split
    · exact hwaits _ _
    · split
      · exact says_enter _ _ _ _ _
      · exact hother (by intro h; cases h) (by intro h; cases h)
    · exact hother (by intro h; cases h) (by intro h; cases h)
    · exact hother (by intro h; cases h) (by intro h; cases h)
  | closing c =>
    simp only [Sender.stepOnce]
    split
    · exact hwaits _ _
    · exact says_enter _ _ _ _ _
    · exact hother (by intro h; cases h) (by intro h; cases h)
    · exact hother (by intro h; cases h) (by intro h; cases h)

/-- What waits there would start there. -/
theorem Relay.start_of_waiting {a : Await} {y : Relay C} (hstart : x.start = some a)
    (h : x.resume a = (.pending, y)) : y.start = some a := by
  cases a with
  | read =>
    simp only [Relay.resume, Relay.pollRead] at h
    generalize C.source.poll x.chunkSize x.reader = z at h
    obtain ⟨_ | (_ | buf) | e | _, reader⟩ := z
    all_goals cases h
    exact hstart
  | step =>
    simp only [Relay.resume, Relay.pollStep] at h
    generalize hz : x.sender.stepOnce C = z at h
    obtain ⟨_ | (_ | _) | e | _, sender⟩ := z
    all_goals cases h
    have hsame : sender.pending = x.sender.pending := by
      have hsays := (Sender.says_stepOnce x.sender).waits
      rw [hz] at hsays
      exact hsays rfl
    simp only [Relay.start] at hstart ⊢
    rw [hsame]
    exact hstart

namespace Run

variable {self : Run C}

/-- Polling a settled run is calling `forward`, whether or not a call was waiting. -/
theorem poll_eq (h : self.Settled) : self.poll.1 = self.relay.forward.1 ∧
    self.poll.2.relay = self.relay.forward.2 := by
  have hstart : (self.call <|> self.relay.start) = self.relay.start := by
    cases hcall : self.call with
    | none => rfl
    | some a => exact (h a hcall).symm
  simp only [poll, hstart, Relay.forward]
  cases self.relay.start with
  | none => exact ⟨rfl, rfl⟩
  | some a =>
    dsimp only
    generalize self.relay.resume a = z
    obtain ⟨_ | b | e | _, relay⟩ := z
    · exact ⟨rfl, rfl⟩
    · exact ⟨rfl, rfl⟩
    · exact ⟨rfl, rfl⟩
    · exact ⟨rfl, rfl⟩

theorem poll_settled (h : self.Settled) : self.poll.2.Settled := by
  have hstart : (self.call <|> self.relay.start) = self.relay.start := by
    cases hcall : self.call with
    | none => rfl
    | some a => exact (h a hcall).symm
  simp only [poll, hstart]
  cases ha : self.relay.start with
  | none => exact settled_of_none
  | some a =>
    dsimp only
    generalize hz : self.relay.resume a = z
    obtain ⟨_ | b | e | _, relay⟩ := z
    · rintro a' heq
      cases heq
      exact Relay.start_of_waiting ha hz
    · exact settled_of_none
    · exact settled_of_none
    · exact settled_of_none

/-- What a call may do, polling a settled run may do, and leaves it settled. -/
theorem poll_of_forward (h : self.Settled) {P : Post η Bool (Relay C)}
    (hP : Meets self.relay.forward P) :
    Meets self.poll {
      pending := fun y => y.Settled ∧ P.pending y.relay
      ok := fun finished y => y.Settled ∧ P.ok finished y.relay
      err := fun e y => y.Settled ∧ P.err e y.relay } := by
  have hsettled := poll_settled h
  obtain ⟨hanswer, hrelay⟩ := poll_eq h
  have heq : self.relay.forward = (self.poll.1, self.poll.2.relay) :=
    Prod.ext hanswer.symm hrelay.symm
  rw [heq] at hP
  generalize self.poll = y at hP hsettled
  obtain ⟨_ | finished | e | _, y⟩ := y
  · exact ⟨hsettled, hP⟩
  · exact ⟨hsettled, hP⟩
  · exact ⟨hsettled, hP⟩
  · exact hP.elim

theorem act_settled (h : self.Settled) (a : Act) : (self.act a).2.Settled := by
  cases a with
  | poll => exact poll_settled h
  | drop => exact settled_of_none

theorem acts_settled (h : self.Settled) (as : List Act) : (self.acts as).2.Settled := by
  induction as generalizing self with
  | nil => exact h
  | cons a as ih => exact ih (act_settled h a)

/-! ## Runs -/

/-- Relaying while something else happens is a run of polls and a drop. -/
theorem forwardWhile_eq (polls : Nat) :
    ∃ as, (self.forwardWhile polls).2 = (self.acts as).2 := by
  induction polls generalizing self with
  | zero => exact ⟨[.drop], rfl⟩
  | succ polls ih =>
    have hmore : ∀ y : Run C, self.poll.2 = y →
        ∃ as, (y.forwardWhile polls).2 = (self.acts as).2 := by
      rintro y rfl
      obtain ⟨as, has⟩ := @ih self.poll.2
      exact ⟨.poll :: as, has⟩
    rw [forwardWhile]
    have hone : self.poll.2 = (self.acts [.poll]).2 := rfl
    generalize hy : self.poll = y at hmore hone
    obtain ⟨_ | (_ | _) | e | _, y⟩ := y
    · exact hmore y rfl
    · exact hmore y rfl
    · refine ⟨[.poll, .drop], ?_⟩
      show _ = { self.poll.2 with call := none }
      rw [hy]
    · exact ⟨[.poll], hone⟩
    · exact ⟨[.poll], hone⟩

/-- A relay that has failed answers every call so, and does nothing. -/
theorem poll_errored (h : self.Settled) (herr : self.relay.errored = true) :
    self.poll = (.err C.afterError, ⟨self.relay, none⟩) := by
  have hstart : self.relay.start = none := by rw [Relay.start, if_pos herr]
  have hcall : self.call = none := by
    cases hcall : self.call with
    | none => rfl
    | some a =>
      have hsome := h a hcall
      rw [hstart] at hsome
      cases hsome
  simp only [poll, hcall, hstart]
  rfl

/-- A call that answers an error leaves the relay failed. -/
theorem errored_of_err (h : self.Settled) {e : η} (herr : self.poll.1 = .err e) :
    self.poll.2.relay.errored = true := by
  obtain ⟨hanswer, hrelay⟩ := poll_eq h
  rw [hrelay]
  rw [hanswer] at herr
  simp only [Relay.forward] at herr ⊢
  cases ha : self.relay.start with
  | none =>
    simp only [Relay.start] at ha
    split at ha
    · assumption
    · split at ha
      all_goals cases ha
  | some a =>
    rw [ha] at herr
    simp only at herr ⊢
    have hlatch : ∀ y : Polled η Bool × Relay C, (Relay.latch y).1 = .err e →
        (Relay.latch y).2.errored = true := by
      rintro ⟨_ | b | e' | _, y⟩ hy
      all_goals cases hy
      rfl
    cases a with
    | read => exact hlatch _ herr
    | step => exact hlatch _ herr

/-- After an error every later call answers `afterError`, and the relay stays as it is. -/
theorem acts_errored (h : self.Settled) (herr : self.relay.errored = true) (as : List Act) :
    (∀ y ∈ (self.acts as).1, y = .err C.afterError) ∧ (self.acts as).2.relay = self.relay := by
  induction as generalizing self with
  | nil => exact ⟨by simp [acts], rfl⟩
  | cons a as ih =>
    have hact : (∀ y ∈ (self.act a).1, y = .err C.afterError) ∧
        (self.act a).2.relay = self.relay := by
      cases a with
      | poll => simp [act, poll_errored h herr]
      | drop => simp [act]
    obtain ⟨hanswer, hrelay⟩ := hact
    obtain ⟨hanswers, hrest⟩ := ih (act_settled h a) (hrelay ▸ herr)
    exact ⟨List.forall_mem_append.mpr ⟨hanswer, hanswers⟩, hrest.trans hrelay⟩

/-- Once a call has answered an error, the relay has failed. -/
theorem errored_of_mem (h : self.Settled) (as : List Act) {e : η}
    (he : .err e ∈ (self.acts as).1) : (self.acts as).2.relay.errored = true := by
  induction as generalizing self with
  | nil => cases he
  | cons a as ih =>
    have hnext := act_settled h a
    rcases List.mem_append.mp he with hfirst | hrest
    · have herr : (self.act a).2.relay.errored = true := by
        cases a with
        | poll =>
          rw [List.mem_singleton] at hfirst
          exact errored_of_err h hfirst.symm
        | drop => cases hfirst
      have hkeep := (acts_errored hnext herr as).2
      show ((self.act a).2.acts as).2.relay.errored = true
      rw [hkeep]
      exact herr
    · exact ih hnext hrest

/-- Good or failed: what every run keeps. -/
def Sound (T : Task σ ω) (F : Prop) (self : Run C) : Prop :=
  self.Settled ∧ (self.relay.Good T F ∨ self.relay.Halted T ∧ (F → T.owed.tail = none))

/-- In a sound run the wire holds a beginning of a relayed body. -/
theorem Sound.behind (h : self.Sound T F) : self.relay.Behind T := by
  obtain ⟨-, hgood | hhalted⟩ := h
  · exact hgood.behind
  · exact hhalted.1.2

section Running

variable (hS : C.source.Lawful 1) (hW : C.target.Lawful T.medium T.limit)
  (hroom : T.view.Admits T.owed.body.length)
include hS hW hroom

/-- One poll of a good relay. -/
theorem poll_meets (h : self.Settled) (hgood : self.relay.Good T F) :
    Meets self.poll {
      pending := fun y => y.Settled ∧ y.relay.Good T F ∧ y.relay.measure T < self.relay.measure T
      ok := fun finished y => y.Settled ∧ y.relay.Good T F ∧
        if finished then y.relay.Finished else y.relay.measure T < self.relay.measure T
      err := fun _ y => y.Settled ∧ y.relay.Halted T ∧ (F → T.owed.tail = none) } :=
  poll_of_forward h (Relay.forward_meets hS hW hroom hgood)

/-- One act keeps a run sound. -/
theorem act_keeps (h : self.Sound T F) (a : Act) : (self.act a).2.Sound T F := by
  refine ⟨act_settled h.1 a, ?_⟩
  cases a with
  | drop => exact h.2
  | poll =>
    rcases h.2 with hgood | hhalted
    · have hpoll := poll_meets hS hW hroom h.1 hgood
      simp only [act]
      generalize self.poll = y at hpoll
      obtain ⟨_ | finished | e | _, y⟩ := y
      · exact .inl hpoll.2.1
      · exact .inl hpoll.2.1
      · exact .inr hpoll.2
      · exact hpoll.elim
    · simp only [act, poll_errored h.1 hhalted.1.1]
      exact .inr hhalted

/-- Whatever is polled and dropped, a run stays sound. -/
theorem acts_keeps (h : self.Sound T F) (as : List Act) : (self.acts as).2.Sound T F := by
  induction as generalizing self with
  | nil => exact h
  | cons a as ih => exact ih (act_keeps hS hW hroom h a)

/-- Calling `forward` until the body is through. -/
theorem forwardAll_meets (fuel : Nat) (h : self.Sound T F) :
    Meets (self.forwardAll fuel) {
      pending := fun y => y.Sound T F
      ok := fun _ y => y.relay.Good T F ∧ y.relay.Finished
      err := fun _ y => y.relay.Halted T ∧ (F → T.owed.tail = none) } := by
  induction fuel generalizing self with
  | zero => exact h
  | succ fuel ih =>
    rw [forwardAll]
    rcases h.2 with hgood | hhalted
    · have hpoll := poll_meets hS hW hroom h.1 hgood
      generalize self.poll = y at hpoll
      obtain ⟨_ | (_ | _) | e | _, y⟩ := y
      · exact ih ⟨hpoll.1, .inl hpoll.2.1⟩
      · exact ih ⟨hpoll.1, .inl hpoll.2.1⟩
      · exact hpoll.2
      · exact hpoll.2
      · exact hpoll.elim
    · rw [poll_errored h.1 hhalted.1.1]
      exact hhalted

/-- The measure of a run: none when the relay has failed. -/
def measure (T : Task σ ω) (self : Run C) : Nat :=
  if self.relay.errored then 0 else self.relay.measure T

/-- More calls than the measure says are enough. -/
theorem forwardAll_ready (fuel : Nat) (h : self.Sound T F)
    (hfuel : self.measure T < fuel) : (self.forwardAll fuel).1 ≠ .pending := by
  induction fuel generalizing self with
  | zero => omega
  | succ fuel ih =>
    rw [forwardAll]
    rcases h.2 with hgood | hhalted
    · have hpoll := poll_meets hS hW hroom h.1 hgood
      rw [measure, hgood.alive, if_neg Bool.false_ne_true] at hfuel
      have hnext : ∀ y : Run C, y.Settled → y.relay.Good T F →
          y.relay.measure T < self.relay.measure T → (y.forwardAll fuel).1 ≠ .pending := by
        intro y hy hy' hlt
        refine ih ⟨hy, .inl hy'⟩ ?_
        rw [measure, hy'.alive, if_neg Bool.false_ne_true]
        omega
      generalize self.poll = y at hpoll
      obtain ⟨_ | (_ | _) | e | _, y⟩ := y
      · exact hnext y hpoll.1 hpoll.2.1 hpoll.2.2
      · exact hnext y hpoll.1 hpoll.2.1 hpoll.2.2
      · exact nofun
      · exact nofun
      · exact hpoll.elim
    · rw [poll_errored h.1 hhalted.1.1]
      exact nofun

end Running

end Run

end BodyRelay
