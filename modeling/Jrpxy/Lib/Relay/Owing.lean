/-
  Jrpxy.Lib.Relay.Owing

  What the open block owes is what is in hand.

  A block is opened for the piece in hand, and the piece shrinks as it is
  written.  So while a block is open or being written, as many of its bytes
  are still to come as are in hand, whether or not the writer has room for
  the body, whatever the piece size, and over calls that wait, are dropped or
  fail (`Run.acts_owing`).  A step that ends the data of a block can therefore
  close it, and only a relay that has failed has lost its writer.  A relay
  that is through has polled its source to the end (`Run.findsEnd_of_acts`).
-/
import Jrpxy.Lib.BlockWriter.Ledger
import Jrpxy.Lib.Relay.Kept

namespace BodyRelay

open Poll PullStream BlockWriter

variable {ρ σ ε₁ ε₂ η ω : Type} {C : Ends ρ σ ε₁ ε₂ η ω} {M : Medium σ} {limit : Nat}

/-- No poll of the source panics, or hands out more than it was asked for. -/
def Modest (P : Puller ρ ε₁ ω) : Prop :=
  ∀ m r, Meets (P.poll m r) {
    pending := fun _ => True
    ok := fun d _ => ∀ b ∈ d, b.length ≤ m
    err := fun _ _ => True }

/-- The open block owes what is in hand, and that is something. -/
def WriterState.Owing {W : Phases σ ε₂} (pending : List UInt8) : WriterState W → Prop
  | .opening o => pending ≠ [] ∧ (W.opening o).data = pending.length
  | .writing w => pending ≠ [] ∧ (W.writing w).left = pending.length
  | _ => True

/-- The writer owes what is in hand, which is shorter than the limit on a block. -/
structure Sender.Owing {W : Phases σ ε₂} (limit : Nat) (x : Sender W) : Prop where
  writer : x.writer.Owing x.pending
  short : x.pending.length < limit

/-- So it does, and only a relay that has failed has lost its writer. -/
structure Relay.Owing (limit : Nat) (x : Relay C) : Prop where
  sender : x.sender.Owing limit
  chunkSize : x.chunkSize < limit
  alive : x.errored = false → x.sender.writer ≠ .poisoned

/-- What a step may leave: a failed one, no writer. -/
def owingPost (limit : Nat) : Post η StepOutcome (Sender C.target) where
  pending y := y.Owing limit ∧ y.writer ≠ .poisoned
  ok _ y := y.Owing limit ∧ y.writer ≠ .poisoned
  err _ y := y.Owing limit

theorem Sender.fail_owing {x : Sender C.target} (s : σ) (e : ε₂) (hlen : x.pending.length < limit) :
    Meets (x.fail C s e) (owingPost limit) := ⟨trivial, hlen⟩

/-- Going on in a phase that owes what is in hand. -/
theorem Sender.enter_owing {x : Sender C.target} {s : σ} {α : Type} {phase : α → WriterState C.target}
    {r : Except ε₂ α} (hlen : x.pending.length < limit)
    (hphase : ∀ a, r = .ok a → (phase a).Owing x.pending ∧ phase a ≠ .poisoned) :
    Meets (x.enter C s phase r) (owingPost limit) := by
  cases r with
  | ok a => exact ⟨⟨(hphase a rfl).1, hlen⟩, (hphase a rfl).2⟩
  | error e => exact fail_owing s e hlen

section Stepping

variable (hW : C.target.Lawful M limit) (hG : C.target.Guarded M limit)
include hW hG

theorem Sender.opening_owing {o : C.target.Open} {pending : List UInt8} {s : σ}
    (hx : Sender.Owing limit ⟨.opening o, pending, s⟩) :
    Meets (Sender.stepOnce C ⟨.opening o, pending, s⟩) (owingPost limit) := by
  obtain ⟨⟨hne, hdata⟩, hlen⟩ := hx
  have hpoll := hW.pollOpen o s
  have hadvances := hG.pollOpen o s
  simp only [stepOnce]
  generalize C.target.pollOpen o s = x at hpoll hadvances
  obtain ⟨_ | _ | e | _, o', s'⟩ := x
  -- the head goes out, and the size of the block stays
  all_goals
    obtain ⟨d, -, hview⟩ := hadvances
    have hsame : (C.target.opening o).data = (C.target.opening o').data := by rw [hview]
  · exact ⟨⟨⟨hne, hsame.symm.trans hdata⟩, hlen⟩, by intro h; cases h⟩
  · refine enter_owing hlen fun w hw => ⟨⟨hne, ?_⟩, by intro h; cases h⟩
    rw [(hG.intoWrite hw).2]
    exact hsame.symm.trans hdata
  · exact fail_owing s' e hlen
  · exact hpoll.elim

theorem Sender.writing_owing {w : C.target.Write} {pending : List UInt8} {s : σ}
    (hx : Sender.Owing limit ⟨.writing w, pending, s⟩) :
    Meets (Sender.stepOnce C ⟨.writing w, pending, s⟩) (owingPost limit) := by
  obtain ⟨⟨hne, hleft⟩, hlen⟩ := hx
  dsimp only at hne hleft hlen
  have hpoll := hW.pollWrite (w := w) s hne (Nat.le_of_eq hleft.symm)
  have htakes := hG.pollWrite pending w s
  simp only [stepOnce]
  generalize C.target.pollWrite pending w s = x at hpoll htakes
  obtain ⟨_ | n | e | _, w', s'⟩ := x
  · obtain ⟨-, hview⟩ := htakes
    refine ⟨⟨⟨hne, ?_⟩, hlen⟩, by intro h; cases h⟩
    rw [hview]
    exact hleft
  -- what the block was given is no longer in hand
  · obtain ⟨-, -, -, hview⟩ := htakes
    have hshort : (pending.drop n).length < limit := by
      rw [List.length_drop]
      omega
    dsimp only
    split
    -- the piece is written, and with it the block
    · exact enter_owing hshort fun c _ => ⟨trivial, by intro h; cases h⟩
    · next hmore =>
      refine ⟨⟨⟨by simpa using hmore, ?_⟩, hshort⟩, by intro h; cases h⟩
      rw [hview, List.length_drop, hleft]
  · exact fail_owing s' e hlen
  · exact hpoll.elim

/-- Every step keeps it, and loses the writer only with an error. -/
theorem Sender.stepOnce_owing {x : Sender C.target} (hx : x.Owing limit)
    (halive : x.writer ≠ .poisoned) : Meets (x.stepOnce C) (owingPost limit) := by
  obtain ⟨writer, pending, s⟩ := x
  cases writer with
  | poisoned => exact absurd rfl halive
  | ready r =>
    simp only [stepOnce]
    split
    · exact ⟨hx, halive⟩
    · next hmore =>
      refine enter_owing hx.short fun o ho => ⟨⟨by simpa using hmore, ?_⟩, by intro h; cases h⟩
      rw [(hG.openBlock hx.short ho).2]
  | opening o => exact opening_owing hW hG hx
  | writing w => exact writing_owing hW hG hx
  | closing c =>
    have hpoll := hW.pollClose c s
    simp only [stepOnce]
    generalize C.target.pollClose c s = x at hpoll
    obtain ⟨_ | _ | e | _, c', s'⟩ := x
    · exact ⟨⟨trivial, hx.short⟩, by intro h; cases h⟩
    · exact enter_owing hx.short fun r _ => ⟨trivial, by intro h; cases h⟩
    · exact fail_owing s' e hx.short
    · exact hpoll.elim

/-- A write that takes all that is in hand takes the rest of the block, which can be closed. -/
theorem Sender.Owing.closes {w w' : C.target.Write} {pending : List UInt8} {s s' : σ} {n : Nat}
    (hx : Sender.Owing limit ⟨.writing w, pending, s⟩)
    (hwrite : C.target.pollWrite pending w s = (.ok n, w', s')) (hall : pending.drop n = []) :
    ∃ c, C.target.intoClose w' = .ok c := by
  obtain ⟨⟨-, hleft⟩, -⟩ := hx
  have htakes := hG.pollWrite pending w s
  rw [hwrite] at htakes
  obtain ⟨-, -, -, hview⟩ := htakes
  have hle := List.drop_eq_nil_iff.mp hall
  have hdone : (C.target.writing w').left = 0 := by
    rw [hview]
    show (C.target.writing w).left - n = 0
    dsimp only at hleft
    omega
  obtain ⟨c, hc, -⟩ := hW.intoClose hdone
  exact ⟨c, hc⟩

end Stepping

/-! ## One call -/

/-- With nothing in hand no block owes anything, and any piece may be taken in hand. -/
theorem WriterState.Owing.refill {W : Phases σ ε₂} {writer : WriterState W} (d : List UInt8)
    (h : writer.Owing []) : writer.Owing d := by
  cases writer with
  | opening o => exact absurd rfl h.1
  | writing w => exact absurd rfl h.1
  | _ => trivial

namespace Relay

variable {x : Relay C}

/-- The piece that is read is shorter than the limit, as the pieces asked for are. -/
theorem pollRead_owing (hP : Modest C.source) (hx : x.Owing limit)
    (hnil : x.sender.pending = []) : (latch x.pollRead).2.Owing limit := by
  obtain ⟨⟨hwriter, hshort⟩, hsize, halive⟩ := hx
  have hpoll := hP x.chunkSize x.reader
  rw [pollRead]
  generalize C.source.poll x.chunkSize x.reader = z at hpoll
  obtain ⟨_ | (_ | d) | e | _, r⟩ := z
  · exact ⟨⟨hwriter, hshort⟩, hsize, halive⟩
  · exact ⟨⟨hwriter, hshort⟩, hsize, halive⟩
  -- between two blocks, or closing one, the next piece is taken in hand
  · rw [hnil] at hwriter
    exact ⟨⟨hwriter.refill d, Nat.lt_of_le_of_lt (hpoll d rfl) hsize⟩, hsize, halive⟩
  · exact ⟨⟨hwriter, hshort⟩, hsize, by intro h; cases h⟩
  · exact hpoll.elim

section Calling

variable (hW : C.target.Lawful M limit) (hG : C.target.Guarded M limit)
include hW hG

theorem pollStep_owing (hx : x.Owing limit) (herr : x.errored = false) :
    (latch x.pollStep).2.Owing limit := by
  obtain ⟨hsender, hsize, halive⟩ := hx
  have hstep := Sender.stepOnce_owing hW hG hsender (halive herr)
  rw [pollStep]
  generalize x.sender.stepOnce C = z at hstep
  obtain ⟨_ | (_ | _) | e | _, y⟩ := z
  · exact ⟨hstep.1, hsize, fun _ => hstep.2⟩
  · exact ⟨hstep.1, hsize, fun _ => hstep.2⟩
  · exact ⟨hstep.1, hsize, fun _ => hstep.2⟩
  · exact ⟨hstep, hsize, by intro h; cases h⟩
  · exact hstep.elim

theorem forward_owing (hP : Modest C.source) (hx : x.Owing limit) : x.forward.2.Owing limit := by
  rcases forward_cases x with ⟨-, heq⟩ | ⟨-, hnil, -, heq⟩ | ⟨herr, heq⟩
  · rw [heq]
    exact hx
  · rw [heq]
    exact pollRead_owing hP hx hnil
  · rw [heq]
    exact pollStep_owing hW hG hx herr

end Calling

end Relay

/-! ## Runs -/

theorem Relay.new_owing {chunkSize : Nat} (reader : ρ) (ready : C.target.Ready) (medium : σ)
    (hsize : chunkSize < limit) : (Relay.new chunkSize reader ready medium : Relay C).Owing limit :=
  ⟨⟨trivial, Nat.zero_lt_of_lt hsize⟩, hsize, by intro _ h; cases h⟩

/-- After any calls, dropped or not, the open block owes what is in hand. -/
theorem Run.acts_owing (hW : C.target.Lawful M limit) (hG : C.target.Guarded M limit)
    (hP : Modest C.source) {self : Run C} (h : self.Settled) (hx : self.relay.Owing limit)
    (as : List Act) : (self.acts as).2.relay.Owing limit :=
  acts_kept (fun _ => Relay.forward_owing hW hG hP) h hx as

/-! ## The end of the source -/

/-- The next poll is one of the source, and finds it at its end. -/
def Run.FindsEnd (self : Run C) : Prop :=
  (self.call <|> self.relay.start) = some .read ∧
    (C.source.poll self.relay.chunkSize self.relay.reader).1 = .ok none

/-- Only such a poll marks the source as read to its end. -/
theorem Run.findsEnd_of_poll {self : Run C} (hbefore : self.relay.readDone = false)
    (hafter : self.poll.2.relay.readDone = true) : self.FindsEnd := by
  unfold poll at hafter
  unfold FindsEnd
  generalize (self.call <|> self.relay.start) = await at hafter ⊢
  have hsame : ∀ {P : Prop}, self.relay.readDone = true → P := by
    intro P hdone
    rw [hbefore] at hdone
    cases hdone
  cases await with
  | none => exact hsame hafter
  | some a =>
    cases a with
    | read =>
      refine ⟨rfl, ?_⟩
      simp only [Relay.resume, Relay.pollRead] at hafter
      generalize C.source.poll self.relay.chunkSize self.relay.reader = z at hafter ⊢
      obtain ⟨_ | (_ | d) | e | _, r⟩ := z
      · exact hsame hafter
      · rfl
      · exact hsame hafter
      · exact hsame hafter
      · exact hsame hafter
    -- a step of the writer does not look at the source
    | step =>
      simp only [Relay.resume, Relay.pollStep] at hafter
      generalize self.relay.sender.stepOnce C = z at hafter
      obtain ⟨_ | (_ | _) | e | _, sender⟩ := z
      · exact hsame hafter
      · exact hsame hafter
      · exact hsame hafter
      · exact hsame hafter
      · exact hsame hafter

/-- A run that has marked the source as read to its end polled it there before. -/
theorem Run.findsEnd_of_acts {self : Run C} (as : List Act)
    (hbefore : self.relay.readDone = false) (hafter : (self.acts as).2.relay.readDone = true) :
    ∃ before after, as = before ++ .poll :: after ∧ (self.acts before).2.FindsEnd := by
  induction as generalizing self with
  | nil =>
    rw [show (self.acts []).2.relay.readDone = false from hbefore] at hafter
    cases hafter
  | cons a as ih =>
    cases hnext : (self.act a).2.relay.readDone with
    | true =>
      cases a with
      | poll => exact ⟨[], as, rfl, findsEnd_of_poll hbefore hnext⟩
      | drop =>
        rw [show (self.act .drop).2.relay.readDone = false from hbefore] at hnext
        cases hnext
    -- not yet: it is one of the later polls
    | false =>
      obtain ⟨before, after, rfl, hfinds⟩ := ih hnext hafter
      exact ⟨a :: before, after, rfl, hfinds⟩

/-- A poll that finds the body through changes nothing, and finds the relay finished. -/
theorem Run.poll_through {self : Run C} (h : self.Settled) (hok : self.poll.1 = .ok true) :
    self.poll.2.relay = self.relay ∧ self.relay.Finished := by
  obtain ⟨hanswer, hrelay⟩ := poll_eq h
  obtain ⟨hsame, -, hfinished⟩ := Relay.forward_through
    (Prod.ext (hanswer.symm.trans hok) hrelay.symm :
      self.relay.forward = (.ok true, self.poll.2.relay))
  exact ⟨hsame, hfinished⟩

end BodyRelay
