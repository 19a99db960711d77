/-
  Jrpxy.Lib.Relay.Held

  How far a relay is behind its source.

  A relay reads a piece only when it has none in hand.  So at every moment the
  source's bytes are in three places: some are on the wire, one piece at most
  is in hand, and the rest is still with the source (`Run.acts_accounted`).
  What is on the wire is whole blocks and a part of one, whose data the
  recipient has already (`SoFar`); and a piece in hand is on the wire after as
  many polls as a measure of the sender allows, whether or not the source has
  more (`Run.flushes`).
-/
import Jrpxy.Lib.Relay.Owing

namespace BodyRelay

open Poll PullStream BlockWriter

variable {ρ σ ε₁ ε₂ η ω : Type} {C : Ends ρ σ ε₁ ε₂ η ω} {M : Medium σ} {limit : Nat}
variable {start : Idle} {base data : List UInt8}

/-! ## What has gone out -/

/-- In each phase, what went out is accounted for as the writer's ledger has it. -/
def WriterState.Told {W : Phases σ ε₂} (start : Idle) (limit : Nat) (sent content : List UInt8) :
    WriterState W → Prop
  | .poisoned => False
  | .ready r => Idle.Wrote start limit (W.idle r) sent content
  | .opening o => Framed.Opening start limit (W.opening o) sent content
  | .writing w => Writing.Filling start limit (W.writing w) sent content
  | .closing c => Framed.Closing start limit (W.closing c) sent content

/-- What went out behind `base` carries all of `data` but the piece in hand. -/
def Sender.Accounts {W : Phases σ ε₂} (M : Medium σ) (limit : Nat) (start : Idle)
    (base data : List UInt8) (x : Sender W) : Prop :=
  ∃ sent content, M.wire x.medium = base ++ sent ∧ x.writer.Told start limit sent content ∧
    content ++ x.pending = data

/-- Whole blocks, and of one more a beginning: of its head, or its head, some of its data, and
    when all of that is there a beginning of its foot. -/
inductive SoFar (F : Framing) (limit : Nat) : List UInt8 → List UInt8 → Prop where
  | head {ds : List (List UInt8)} {begun left : List UInt8} {n : Nat}
      (short : ∀ d ∈ ds, d.length < limit) (lt : n < limit) (split : F.head n = begun ++ left) :
      SoFar F limit (F.blocks ds ++ begun) ds.flatten
  | data {ds : List (List UInt8)} {d : List UInt8} {n : Nat}
      (short : ∀ d ∈ ds, d.length < limit) (lt : n < limit) (le : d.length ≤ n) :
      SoFar F limit (F.blocks ds ++ F.head n ++ d) (ds.flatten ++ d)
  | foot {ds : List (List UInt8)} {d begun left : List UInt8}
      (short : ∀ d ∈ ds, d.length < limit) (lt : d.length < limit)
      (split : F.foot d.length = begun ++ left) :
      SoFar F limit (F.blocks ds ++ F.head d.length ++ d ++ begun) (ds.flatten ++ d)

/-- What the ledger tells is one of these. -/
theorem WriterState.Told.soFar {W : Phases σ ε₂} {sent content : List UInt8} {writer : WriterState W}
    (hlimit : 0 < limit) (htold : writer.Told start limit sent content) :
    SoFar start.framing limit sent content := by
  cases writer with
  | poisoned => exact htold.elim
  | ready r =>
    obtain ⟨-, -, ds, rfl, rfl, hshort⟩ := htold
    have hsofar := SoFar.head hshort hlimit (List.nil_append (start.framing.head 0)).symm
    rw [List.append_nil] at hsofar
    exact hsofar
  | opening o =>
    obtain ⟨idle, before, begun, ⟨-, -, ds, rfl, rfl, hshort⟩, -, hlt, -, rfl, hsplit⟩ := htold
    exact .head hshort hlt hsplit
  | writing w =>
    obtain ⟨idle, before, told, d, ⟨-, -, ds, rfl, rfl, hshort⟩, -, hlt, -, rfl, rfl, hlen⟩ := htold
    exact .data hshort hlt (by omega)
  | closing c =>
    obtain ⟨idle, before, told, d, begun, ⟨-, -, ds, rfl, rfl, hshort⟩, -, hlt, -, rfl, rfl,
      hsplit⟩ := htold
    exact .foot hshort hlt hsplit

/-- Without framing it is the data. -/
theorem SoFar.eq_of_plain {sent content : List UInt8} (h : SoFar .plain limit sent content) :
    sent = content := by
  have hnil : ∀ {begun left : List UInt8}, [] = begun ++ left → begun = [] :=
    fun hsplit => (List.append_eq_nil_iff.mp hsplit.symm).1
  cases h with
  | head short lt split => rw [hnil split, Framing.blocks_plain, List.append_nil]
  | data short lt le => rw [Framing.blocks_plain, show Framing.plain.head _ = [] from rfl,
      List.append_nil]
  | foot short lt split => rw [hnil split, Framing.blocks_plain,
      show Framing.plain.head _ = [] from rfl, List.append_nil, List.append_nil]

/-! ## One step -/

/-- What a step may leave, with at most `held` bytes in hand. -/
def accountsPost (M : Medium σ) (limit : Nat) (start : Idle) (base data : List UInt8) (held : Nat) :
    Post η StepOutcome (Sender C.target) where
  pending y := y.Accounts M limit start base data ∧ y.pending.length ≤ held
  ok _ y := y.Accounts M limit start base data ∧ y.pending.length ≤ held
  err _ y := y.pending.length ≤ held

/-- Going on in a phase that tells of what has gone out. -/
theorem Sender.enter_accounts {x : Sender C.target} {s : σ} {α : Type}
    {phase : α → WriterState C.target} {r : Except ε₂ α} {sent content : List UInt8} {held : Nat}
    (hwire : M.wire s = base ++ sent) (hdata : content ++ x.pending = data)
    (hheld : x.pending.length ≤ held)
    (hphase : ∀ a, r = .ok a → (phase a).Told start limit sent content) :
    Meets (x.enter C s phase r) (accountsPost M limit start base data held) := by
  cases r with
  | ok a => exact ⟨⟨sent, content, hwire, hphase a rfl, hdata⟩, hheld⟩
  | error e => exact hheld

section Stepping

variable (hW : C.target.Lawful M limit) (hG : C.target.Guarded M limit) {held : Nat}
include hW hG

theorem Sender.opening_accounts {o : C.target.Open} {pending : List UInt8} {s : σ}
    (hx : Sender.Accounts M limit start base data ⟨.opening o, pending, s⟩)
    (hheld : pending.length ≤ held) :
    Meets (Sender.stepOnce C ⟨.opening o, pending, s⟩)
      (accountsPost M limit start base data held) := by
  obtain ⟨sent, content, hwire, htold, hdata⟩ := hx
  have hpoll := hW.pollOpen o s
  have hadvances := hG.pollOpen o s
  simp only [stepOnce]
  generalize C.target.pollOpen o s = x at hpoll hadvances
  obtain ⟨_ | _ | e | _, o', s'⟩ := x
  -- a beginning of the head is out
  all_goals
    obtain ⟨d, hadded, hview⟩ := hadvances
    have hwire' : M.wire s' = base ++ (sent ++ d) := by
      rw [hadded, hwire, List.append_assoc]
    have htold' : Framed.Opening start limit (C.target.opening o') (sent ++ d) content :=
      Framed.Opening.sends htold hview
  · exact ⟨⟨_, content, hwire', htold', hdata⟩, hheld⟩
  · refine enter_accounts hwire' hdata hheld fun w hw => ?_
    obtain ⟨hleft, hwriting⟩ := hG.intoWrite hw
    show Writing.Filling start limit (C.target.writing w) _ _
    rw [hwriting]
    exact htold'.filling hleft
  · exact hheld
  · exact hpoll.elim

theorem Sender.writing_accounts {w : C.target.Write} {pending : List UInt8} {s : σ}
    (hx : Sender.Accounts M limit start base data ⟨.writing w, pending, s⟩)
    (howing : Sender.Owing limit ⟨.writing w, pending, s⟩) (hheld : pending.length ≤ held) :
    Meets (Sender.stepOnce C ⟨.writing w, pending, s⟩)
      (accountsPost M limit start base data held) := by
  obtain ⟨sent, content, hwire, htold, hdata⟩ := hx
  obtain ⟨⟨hne, hleft⟩, -⟩ := howing
  dsimp only at hne hleft hdata
  have hpoll := hW.pollWrite (w := w) s hne (Nat.le_of_eq hleft.symm)
  have htakes := hG.pollWrite pending w s
  simp only [stepOnce]
  generalize C.target.pollWrite pending w s = x at hpoll htakes
  obtain ⟨_ | n | e | _, w', s'⟩ := x
  · obtain ⟨hsame, hview⟩ := htakes
    refine ⟨⟨sent, content, hsame.trans hwire, ?_, hdata⟩, hheld⟩
    show Writing.Filling start limit (C.target.writing w') _ _
    rw [hview]
    exact htold
  -- a beginning of the piece goes from what is in hand to what is out
  · obtain ⟨hn, hroom, hadded, hview⟩ := htakes
    have hlen : (pending.take n).length = n := List.length_take_of_le hn
    have hwire' : M.wire s' = base ++ (sent ++ pending.take n) := by
      rw [hadded, hwire, List.append_assoc]
    have hdata' : (content ++ pending.take n) ++ pending.drop n = data := by
      rw [List.append_assoc, List.take_append_drop, hdata]
    have hheld' : (pending.drop n).length ≤ held := by
      rw [List.length_drop]
      omega
    have htold' : Writing.Filling start limit (C.target.writing w') (sent ++ pending.take n)
        (content ++ pending.take n) := by
      have hfilling := Writing.Filling.takes (d := pending.take n) htold (by rw [hlen]; exact hroom)
      rw [hlen, ← hview] at hfilling
      exact hfilling
    dsimp only
    split
    · refine enter_accounts hwire' hdata' hheld' fun c hc => ?_
      obtain ⟨hdone, hclosing⟩ := hG.intoClose hc
      show Framed.Closing start limit (C.target.closing c) _ _
      rw [hclosing]
      exact htold'.closing hdone
    · exact ⟨⟨_, _, hwire', htold', hdata'⟩, hheld'⟩
  · exact hheld
  · exact hpoll.elim

/-- Every step accounts for what it sends, and takes nothing in hand. -/
theorem Sender.stepOnce_accounts {x : Sender C.target} (hx : x.Accounts M limit start base data)
    (howing : x.Owing limit) (hheld : x.pending.length ≤ held) :
    Meets (x.stepOnce C) (accountsPost M limit start base data held) := by
  obtain ⟨writer, pending, s⟩ := x
  cases writer with
  | poisoned =>
    obtain ⟨sent, content, -, htold, -⟩ := hx
    exact htold.elim
  | ready r =>
    obtain ⟨sent, content, hwire, htold, hdata⟩ := hx
    simp only [stepOnce]
    split
    · exact ⟨⟨sent, content, hwire, htold, hdata⟩, hheld⟩
    · refine enter_accounts hwire hdata hheld fun o ho => ?_
      obtain ⟨hadmits, hopening⟩ := hG.openBlock howing.short ho
      show Framed.Opening start limit (C.target.opening o) _ _
      rw [hopening]
      exact Idle.Wrote.opening htold howing.short hadmits
  | opening o => exact opening_accounts hW hG hx hheld
  | writing w => exact writing_accounts hW hG hx howing hheld
  | closing c =>
    obtain ⟨sent, content, hwire, htold, hdata⟩ := hx
    have hpoll := hW.pollClose c s
    have hadvances := hG.pollClose c s
    simp only [stepOnce]
    generalize C.target.pollClose c s = x at hpoll hadvances
    obtain ⟨_ | _ | e | _, c', s'⟩ := x
    all_goals
      obtain ⟨d, hadded, hview⟩ := hadvances
      have hwire' : M.wire s' = base ++ (sent ++ d) := by
        rw [hadded, hwire, List.append_assoc]
      have htold' : Framed.Closing start limit (C.target.closing c') (sent ++ d) content :=
        Framed.Closing.sends htold hview
    · exact ⟨⟨_, content, hwire', htold', hdata⟩, hheld⟩
    · refine enter_accounts hwire' hdata hheld fun r hr => ?_
      obtain ⟨hleft, hidle⟩ := hG.intoReady hr
      show Idle.Wrote start limit (C.target.idle r) _ _
      rw [hidle]
      exact htold'.wrote hleft
    · exact hheld
    · exact hpoll.elim

end Stepping

/-! ## One call -/

namespace Relay

/-- With at most one piece in hand, and unless it has failed, the relay has everything on the
    wire that it read before. -/
structure Accounted (M : Medium σ) (limit : Nat) (start : Idle) (base : List UInt8)
    (owed : Owed ω) (m : Nat) (x : Relay C) : Prop where
  owing : x.Owing limit
  size : x.chunkSize = m
  held : x.sender.pending.length ≤ m
  sent : x.errored = false → ∃ data, x.sender.Accounts M limit start base data ∧
    owed = (C.source.owed x.reader).prepend data

variable {x : Relay C} {owed : Owed ω} {m : Nat}

theorem new_accounted {reader : ρ} {r : C.target.Ready} {s : σ} (hlt : m < limit) :
    (Relay.new m reader r s : Relay C).Accounted M limit (C.target.idle r) (M.wire s)
      (C.source.owed reader) m where
  owing := new_owing reader r s hlt
  size := rfl
  held := Nat.zero_le _
  sent _ := ⟨[], ⟨[], [], (List.append_nil _).symm, Idle.Wrote.nil, rfl⟩, rfl⟩

/-- A piece that is read goes from what is owed to what is in hand. -/
theorem pollRead_accounted (hS : C.source.Lawful 1) (hP : Modest C.source) (hpos : 0 < m)
    (hx : x.Accounted M limit start base owed m) (hnil : x.sender.pending = [])
    (herr : x.errored = false) :
    (latch x.pollRead).2.Accounted M limit start base owed m := by
  have howing := pollRead_owing hP hx.owing hnil
  obtain ⟨data, hsent, howed⟩ := hx.sent herr
  obtain ⟨hold, hsize, hheld, -⟩ := hx
  have hpoll := hS x.chunkSize x.reader (by rw [hsize]; exact hpos)
  rw [pollRead] at howing ⊢
  generalize C.source.poll x.chunkSize x.reader = z at hpoll howing
  obtain ⟨_ | (_ | d) | e | _, r⟩ := z
  · exact ⟨howing, hsize, hheld, fun _ =>
      ⟨data, hsent, howed.trans (congrArg (Owed.prepend data) hpoll.1.symm)⟩⟩
  · obtain ⟨t, hbefore, hafter, -⟩ := hpoll
    refine ⟨howing, hsize, hheld, fun _ => ⟨data, hsent, ?_⟩⟩
    rw [howed, hbefore, ← hafter]
    rfl
  · obtain ⟨hsplit, -, hlen, -⟩ := hpoll
    rw [hsize] at hlen
    refine ⟨howing, hsize, hlen, fun _ => ⟨data ++ d, ?_, ?_⟩⟩
    · obtain ⟨sent, content, hwire, htold, hdata⟩ := hsent
      rw [hnil, List.append_nil] at hdata
      exact ⟨sent, content, hwire, htold, by rw [hdata]; rfl⟩
    · rw [howed, hsplit, Owed.prepend_prepend]
      rfl
  · exact ⟨howing, hsize, hheld, fun hfalse => by cases hfalse⟩
  · exact hpoll.elim

section Calling

variable (hW : C.target.Lawful M limit) (hG : C.target.Guarded M limit)
include hW hG

theorem pollStep_accounted (hx : x.Accounted M limit start base owed m)
    (herr : x.errored = false) : (latch x.pollStep).2.Accounted M limit start base owed m := by
  have howing := pollStep_owing hW hG hx.owing herr
  obtain ⟨data, hsent, howed⟩ := hx.sent herr
  obtain ⟨hold, hsize, hheld, -⟩ := hx
  have hstep := Sender.stepOnce_accounts hW hG hsent hold.sender hheld
  rw [pollStep] at howing ⊢
  generalize x.sender.stepOnce C = z at hstep howing
  obtain ⟨_ | (_ | _) | e | _, y⟩ := z
  · exact ⟨howing, hsize, hstep.2, fun _ => ⟨data, hstep.1, howed⟩⟩
  · exact ⟨howing, hsize, hstep.2, fun _ => ⟨data, hstep.1, howed⟩⟩
  · exact ⟨howing, hsize, hstep.2, fun _ => ⟨data, hstep.1, howed⟩⟩
  · exact ⟨howing, hsize, hstep, fun hfalse => by cases hfalse⟩
  · exact hstep.elim

/-- Every call accounts for what it reads and for what it sends. -/
theorem forward_accounted (hS : C.source.Lawful 1) (hP : Modest C.source) (hpos : 0 < m)
    (hx : x.Accounted M limit start base owed m) :
    x.forward.2.Accounted M limit start base owed m := by
  rcases forward_cases x with ⟨-, heq⟩ | ⟨herr, hnil, -, heq⟩ | ⟨herr, heq⟩
  · rw [heq]
    exact hx
  · rw [heq]
    exact pollRead_accounted hS hP hpos hx hnil herr
  · rw [heq]
    exact pollStep_accounted hW hG hx herr

end Calling

/-- With something in hand, a call sends some of it and leaves the source alone, if the medium
    accepts bytes. -/
theorem forward_flushes {T : Task σ ω} {F : Prop} (hW : C.target.Lawful T.medium T.limit)
    (hroom : T.view.Admits T.owed.body.length) (hx : x.Good T F)
    (hacc : T.medium.Accepting x.sender.medium) (hne : x.sender.pending ≠ []) :
    x.forward.2.Good T F ∧ x.forward.2.reader = x.reader ∧
      T.medium.Accepting x.forward.2.sender.medium ∧
      x.forward.2.sender.measure T.medium < x.sender.measure T.medium := by
  rcases forward_cases x with ⟨herr, -⟩ | ⟨-, hnil, -⟩ | ⟨-, heq⟩
  · rw [hx.alive] at herr
    cases herr
  · exact absurd hnil hne
  · obtain ⟨data, hsent, howed⟩ := hx.sent
    have hadmits : T.view.Admits data.length := fun k hk => by
      have hall := hroom k hk
      rw [howed, Owed.prepend_body, List.length_append] at hall
      omega
    have hstep := stepOnce_meets hW hadmits hsent
    rw [heq, pollStep]
    generalize x.sender.stepOnce C = y at hstep
    obtain ⟨_ | (_ | _) | e | _, sender⟩ := y
    · obtain ⟨hsent', -, hmeasure, hkept⟩ := hstep
      exact ⟨⟨hx.alive, ⟨data, hsent', howed⟩, hx.ended, hx.fits, hkept ∘ hx.accepting,
        hx.positive, hx.bounded⟩, rfl, hkept hacc, hmeasure⟩
    · exact absurd hstep.2.1 hne
    · obtain ⟨hsent', hmeasure, hkept⟩ := hstep
      exact ⟨⟨hx.alive, ⟨data, hsent', howed⟩, hx.ended, hx.fits, hkept ∘ hx.accepting,
        hx.positive, hx.bounded⟩, rfl, hkept hacc, hmeasure⟩
    · exact absurd hacc hstep.2
    · exact hstep.elim

end Relay

/-! ## Runs -/

namespace Run

variable {self : Run C}

/-- After any calls, dropped or not, everything that was read is on the wire or in hand. -/
theorem acts_accounted (hW : C.target.Lawful M limit) (hG : C.target.Guarded M limit)
    (hS : C.source.Lawful 1) (hP : Modest C.source) {owed : Owed ω} {m : Nat} (hpos : 0 < m)
    (h : self.Settled) (hx : self.relay.Accounted M limit start base owed m) (as : List Act) :
    (self.acts as).2.relay.Accounted M limit start base owed m :=
  acts_kept (fun _ => Relay.forward_accounted hW hG hS hP hpos) h hx as

/-- What is in hand is on the wire after so many polls, and nothing more is read for it. -/
theorem flushes {T : Task σ ω} {F : Prop} (hW : C.target.Lawful T.medium T.limit)
    (hroom : T.view.Admits T.owed.body.length) (h : self.Settled) (hgood : self.relay.Good T F)
    (hacc : T.medium.Accepting self.relay.sender.medium) :
    ∃ n ≤ self.relay.sender.measure T.medium, ∃ run,
      (self.acts (List.replicate n .poll)).2 = run ∧ run.relay.errored = false ∧
        run.relay.reader = self.relay.reader ∧ run.relay.sender.pending = [] := by
  -- the measure of the sender falls as long as there is something in hand
  generalize hm : self.relay.sender.measure T.medium = m
  induction m using Nat.strongRecOn generalizing self with
  | ind m ih =>
    by_cases hnil : self.relay.sender.pending = []
    · exact ⟨0, Nat.zero_le _, _, rfl, hgood.alive, rfl, hnil⟩
    · obtain ⟨hgood', hreader, hacc', hlt⟩ := Relay.forward_flushes hW hroom hgood hacc hnil
      obtain ⟨-, hrelay⟩ := poll_eq h
      rw [← hrelay] at hgood' hreader hacc' hlt
      obtain ⟨n, hn, run, hrun, herr, hsame, hflushed⟩ :=
        ih _ (hm ▸ hlt) (poll_settled h) hgood' hacc' rfl
      refine ⟨n + 1, by omega, run, ?_, herr, hsame.trans hreader, hflushed⟩
      rw [← hrun]
      rfl

end Run

end BodyRelay
