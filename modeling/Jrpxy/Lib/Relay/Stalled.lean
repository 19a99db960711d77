/-
  Jrpxy.Lib.Relay.Stalled

  Relays whose sink has stopped taking bytes.

  A stall that begins within a call, after some of its writes, is an error of
  that call (`forward_notices`).  What becomes of one that begins between two
  calls depends on what comes first.  If a read fails before anything is
  written, that ends it (`forwardAll_readFails`).  If framing is sent next the
  write is an error, and until then every call uses up some of what is left to
  read (`forward_framingNext`), so calling comes to an end too
  (`forwardAll_framingNext`).  If data is sent next the relay stays in the write
  phase, and no call ever fails (`forwardAll_dataNext`); nor does one when the
  source hands out pieces of no bytes (`forwardAll_readsNothing`).
-/
import Jrpxy.Lib.Relay.Kept
import Jrpxy.Lib.BlockWriter.Stall

namespace BodyRelay

open Poll PullStream BlockWriter

variable {ρ σ ε₁ ε₂ η ω : Type} {C : Ends ρ σ ε₁ ε₂ η ω}

/-! ## The next read -/

namespace Relay

/-- With nothing in hand and more to come the relay reads, and this is the answer. -/
def Reads (x : Relay C) (answer : Polled ε₁ (Option (List UInt8))) : Prop :=
  x.sender.pending = [] ∧ x.readDone = false ∧
    (C.source.read x.chunkSize x.reader).1 = answer

variable {x : Relay C} {answer : Polled ε₁ (Option (List UInt8))}

/-- A poll of the read waits for the same answer, or has it. -/
theorem poll_reads (hsettles : C.source.Settles x.chunkSize) (h : x.Reads answer) :
    (∃ s, C.source.poll x.chunkSize x.reader = (.pending, s) ∧
      C.source.weight s < C.source.weight x.reader ∧ Reads { x with reader := s } answer) ∨
    ∃ s, C.source.poll x.chunkSize x.reader = (answer, s) := by
  obtain ⟨hnil, hmore, hread⟩ := h
  cases hpoll : C.source.poll x.chunkSize x.reader with
  | mk a s =>
    by_cases ha : a = .pending
    · subst ha
      refine .inl ⟨s, rfl, hsettles _ _ hpoll, hnil, hmore, ?_⟩
      rw [← hread, ← Puller.read_of_pending hsettles hpoll]
    · refine .inr ⟨s, ?_⟩
      rw [← hread, Puller.read_of_ready (by rw [hpoll]; exact ha), hpoll]

/-- A relay that reads calls for nothing else. -/
theorem forward_of_reads (halive : x.errored = false) (h : x.Reads answer) :
    x.forward = latch x.pollRead := by
  have hstart : x.start = some .read := by simp [start, halive, h.1, h.2.1]
  rw [forward, hstart]
  rfl

end Relay

/-- When the next read fails, calling comes to an error. -/
theorem Run.forwardAll_readFails (fuel : Nat) {self : Run C} {e : ε₁} (h : self.Settled)
    (hsettles : C.source.Settles self.relay.chunkSize) (halive : self.relay.errored = false)
    (hreads : self.relay.Reads (.err e)) (hfuel : C.source.weight self.relay.reader < fuel) :
    ∃ e, (self.forwardAll fuel).1 = .err e := by
  induction fuel generalizing self with
  | zero => omega
  | succ fuel ih =>
    have hsettled := Run.poll_settled h
    obtain ⟨hanswer, hrelay⟩ := Run.poll_eq h
    rw [Relay.forward_of_reads halive hreads, Relay.pollRead] at hanswer hrelay
    rw [Run.forwardAll]
    generalize self.poll = y at hsettled hanswer hrelay
    obtain ⟨a, y⟩ := y
    rcases Relay.poll_reads hsettles hreads with ⟨s, hpoll, hweight, hreads'⟩ | ⟨s, hpoll⟩
    · rw [hpoll] at hanswer hrelay
      have hanswer : a = .pending := hanswer
      have hrelay : y.relay = { self.relay with reader := s } := hrelay
      subst hanswer
      refine ih hsettled ?_ ?_ ?_ ?_
      · rw [hrelay]
        exact hsettles
      · rw [hrelay]
        exact halive
      · rw [hrelay]
        exact hreads'
      · rw [hrelay]
        show C.source.weight s < fuel
        omega
    · rw [hpoll] at hanswer
      have hanswer : a = .err (C.readError e) := hanswer
      subst hanswer
      exact ⟨_, rfl⟩

/-- While the source hands out pieces of no bytes, and goes on to, calling comes to no end. -/
theorem Run.forwardAll_readsNothing {m : Nat} (hsettles : C.source.Settles m)
    (hrepeats : C.source.Repeats m) (fuel : Nat) {self : Run C} (h : self.Settled)
    (hsize : self.relay.chunkSize = m) (halive : self.relay.errored = false)
    (hreads : self.relay.Reads (.ok (some []))) : (self.forwardAll fuel).1 = .pending := by
  have hgoes : ∀ x : Relay C, x.chunkSize = m → x.errored = false → x.Reads (.ok (some [])) →
      (x.forward.1 = .pending ∨ x.forward.1 = .ok false) ∧ x.forward.2.chunkSize = m ∧
        x.forward.2.errored = false ∧ x.forward.2.Reads (.ok (some [])) := by
    rintro x rfl halive hreads
    rw [Relay.forward_of_reads halive hreads, Relay.pollRead]
    rcases Relay.poll_reads hsettles hreads with ⟨s, hpoll, -, hreads'⟩ | ⟨s, hpoll⟩
    · rw [hpoll]
      exact ⟨.inl rfl, rfl, halive, hreads'⟩
    -- behind an empty piece there is another one
    · have hagain := hrepeats _ _ _ hpoll
      rw [hpoll]
      refine ⟨.inr rfl, rfl, halive, rfl, hreads.2.1, ?_⟩
      show (C.source.read x.chunkSize s).1 = _
      rw [Puller.read_of_ready (by rw [hagain]; simp), hagain]
  refine Run.forwardAll_going
    (K := fun x : Relay C => x.chunkSize = m ∧ x.errored = false ∧ x.Reads (.ok (some [])))
    (fun x hx => (hgoes x hx.1 hx.2.1 hx.2.2).2) (fun x hx => (hgoes x hx.1 hx.2.1 hx.2.2).1) fuel h
    ⟨hsize, halive, hreads⟩

/-! ## A stall within a call -/

section Noticing

variable {Before Ahead : σ → Prop} {zero : ε₂} (hW : C.target.Notices Before Ahead zero)

/-- Going on in another phase does not touch the medium. -/
theorem Sender.enter_ahead (x : Sender C.target) {s : σ} {α : Type}
    (phase : α → WriterState C.target) (a : Except ε₂ α) (hs : Ahead s) :
    Ahead (x.enter C s phase a).2.medium := by
  cases a with
  | ok a => exact hs
  | error e => exact hs

include hW in
/-- A step in which the stall begins is an error; any other leaves the whole stall ahead. -/
theorem Sender.stepOnce_notices (x : Sender C.target) (hs : Before x.medium) :
    (∃ e, (x.stepOnce C).1 = .err e) ∨ Ahead (x.stepOnce C).2.medium := by
  obtain ⟨writer, pending, medium⟩ := x
  have hahead : Ahead medium := hW.ahead hs
  cases writer with
  | poisoned => exact .inr hahead
  | ready r =>
    simp only [stepOnce]
    split
    · exact .inr hahead
    · exact .inr (enter_ahead _ _ _ hahead)
  | opening o =>
    have hopen := @Phases.Notices.pollOpen _ _ _ _ _ _ hW o _ hs
    simp only [stepOnce]
    generalize C.target.pollOpen o medium = y at hopen
    obtain ⟨_ | a | e | _, o', s⟩ := y
    · exact .inr (hopen.resolve_left fun heq => by cases heq)
    · exact .inr (enter_ahead _ _ _ (hopen.resolve_left fun heq => by cases heq))
    · exact .inl ⟨_, rfl⟩
    · exact .inr (hopen.resolve_left fun heq => by cases heq)
  | writing w =>
    have hwrite := @Phases.Notices.pollWrite _ _ _ _ _ _ hW pending w _ hs
    simp only [stepOnce]
    generalize C.target.pollWrite pending w medium = y at hwrite
    obtain ⟨_ | k | e | _, w', s⟩ := y
    · exact .inr hwrite
    · refine .inr ?_
      simp only
      split
      · exact enter_ahead _ _ _ hwrite
      · exact hwrite
    · exact .inl ⟨_, rfl⟩
    · exact .inr hwrite
  | closing c =>
    have hclose := @Phases.Notices.pollClose _ _ _ _ _ _ hW c _ hs
    simp only [stepOnce]
    generalize C.target.pollClose c medium = y at hclose
    obtain ⟨_ | a | e | _, c', s⟩ := y
    · exact .inr (hclose.resolve_left fun heq => by cases heq)
    · exact .inr (enter_ahead _ _ _ (hclose.resolve_left fun heq => by cases heq))
    · exact .inl ⟨_, rfl⟩
    · exact .inr (hclose.resolve_left fun heq => by cases heq)

include hW in
/-- So does a call. -/
theorem Relay.forward_notices {x : Relay C} (hs : Before x.sender.medium) :
    (∃ e, x.forward.1 = .err e) ∨ Ahead x.forward.2.sender.medium := by
  have hahead := hW.ahead hs
  have hstep := Sender.stepOnce_notices hW x.sender hs
  rcases forward_cases x with ⟨-, heq⟩ | ⟨-, -, -, heq⟩ | ⟨-, heq⟩
  · exact .inl ⟨_, congrArg Prod.fst heq⟩
  -- a read leaves the medium alone
  · rw [heq, pollRead]
    generalize C.source.poll x.chunkSize x.reader = z
    obtain ⟨_ | (_ | d) | e | _, r⟩ := z
    · exact .inr hahead
    · exact .inr hahead
    · exact .inr hahead
    · exact .inl ⟨_, rfl⟩
    · exact .inr hahead
  · rw [heq, pollStep]
    generalize x.sender.stepOnce C = z at hstep
    obtain ⟨_ | (_ | _) | e | _, sender⟩ := z
    · exact .inr (hstep.resolve_left (by simp))
    · exact .inr (hstep.resolve_left (by simp))
    · exact .inr (hstep.resolve_left (by simp))
    · exact .inl ⟨_, rfl⟩
    · exact .inr (hstep.resolve_left (by simp))

end Noticing

/-! ## What is sent next -/

/-- Data of a block is sent next; between two blocks, if `between`. -/
def WriterState.DataFirst {W : Phases σ ε₂} (between : Prop) : WriterState W → Prop
  | .poisoned => False
  | .ready _ => between
  | .opening o => (W.opening o).left = []
  | .writing _ => True
  | .closing c => (W.closing c).left = [] ∧ between

/-- Framing is sent next; between two blocks, if `between`. -/
def WriterState.FramingFirst {W : Phases σ ε₂} (between : Prop) : WriterState W → Prop
  | .poisoned => False
  | .ready _ => between
  | .opening o => (W.opening o).left ≠ []
  | .writing _ => False
  | .closing c => (W.closing c).left ≠ [] ∨ between

theorem WriterState.DataFirst.imp {W : Phases σ ε₂} {between between' : Prop}
    {writer : WriterState W} (h : writer.DataFirst between) (himp : between → between') :
    writer.DataFirst between' := by
  cases writer with
  | poisoned => exact h
  | ready r => exact himp h
  | opening o => exact h
  | writing w => exact h
  | closing c => exact ⟨h.1, himp h.2⟩

namespace Relay

/-- No write of framing and no failing read comes first: data of a block is to be written; or the
    relay is between two blocks, and there is no framing or the next piece has no bytes. -/
def Unguarded (F : Framing) (x : Relay C) : Prop :=
  x.sender.writer.DataFirst ((∀ e, ¬ x.Reads (.err e)) ∧ (F = .plain ∨ x.Reads (.ok (some []))))

/-- What the relay sends next is data, in hand or read next. -/
def DataNext (F : Framing) (x : Relay C) : Prop :=
  x.sender.writer.DataFirst
    (F = .plain ∧ (x.sender.pending ≠ [] ∨ ∃ d, d ≠ [] ∧ x.Reads (.ok (some d))))

/-- What it sends next is framing, if it sends anything. -/
def FramingNext (F : Framing) (x : Relay C) : Prop := x.sender.writer.FramingFirst F.Headed

/-- Bytes are still to be sent: the end that a framing with heads has, what is not on the wire of
    the body, or what a truncated source does not bring. -/
def Owes (T : Task σ ω) (x : Relay C) : Prop :=
  T.view.framing.Headed ∨ T.medium.wire x.sender.medium ≠ T.base ++ T.owed.body ∨
    T.owed.tail = none

variable {T : Task σ ω} {P : Prop} {x : Relay C}

/-- Where something would notice, and it is not the next read, framing is sent next. -/
theorem framingNext_of_guarded (hx : x.Good T P) {F : Framing} (hframing : F = .plain ∨ F.Headed)
    (hguarded : ¬ x.Unguarded F) (hreads : ∀ e, ¬ x.Reads (.err e)) : x.FramingNext F := by
  obtain ⟨data, ⟨w, bs, cur, -, hsent, -⟩, -⟩ := hx.sent
  unfold Unguarded at hguarded
  unfold FramingNext
  have hbetween : ¬ ((∀ e, ¬ x.Reads (.err e)) ∧ (F = .plain ∨ x.Reads (.ok (some [])))) →
      F.Headed := fun hnot => hframing.resolve_left fun hplain => hnot ⟨hreads, .inl hplain⟩
  cases hwriter : x.sender.writer with
  | poisoned =>
    rw [hwriter] at hsent
    exact hsent.elim
  | ready r =>
    rw [hwriter] at hguarded
    exact hbetween hguarded
  | opening o =>
    rw [hwriter] at hguarded
    exact hguarded
  | writing w =>
    rw [hwriter] at hguarded
    exact absurd trivial hguarded
  | closing c =>
    rw [hwriter] at hguarded
    by_cases hleft : (C.target.closing c).left = []
    · exact .inr (hbetween fun h => hguarded ⟨hleft, h⟩)
    · exact .inl hleft

/-- Between two blocks without framing, with nothing in hand and nothing to read, all is sent. -/
theorem not_owes_of_ending (hx : x.Good T P) (hplain : T.view.framing = .plain) {t : ω}
    (hnil : x.sender.pending = []) (hbetween : x.sender.writer.DataFirst True)
    (hending : C.source.owed x.reader = .ending t) : ¬ x.Owes T := by
  obtain ⟨data, ⟨w, bs, cur, hwire, hsent, rfl, -⟩, howed⟩ := hx.sent
  rw [hending] at howed
  have hw : cur = [] ∧ w = T.view.framing.blocks bs := by
    cases hwriter : x.sender.writer with
    | poisoned =>
      rw [hwriter] at hsent
      exact hsent.elim
    | ready r =>
      rw [hwriter] at hsent
      exact ⟨hsent.1, hsent.2.2⟩
    | opening o =>
      rw [hwriter] at hsent
      exact absurd hnil hsent.2.1
    | writing o =>
      rw [hwriter] at hsent
      exact absurd hnil hsent.1
    | closing c =>
      rw [hwriter] at hsent hbetween
      refine ⟨hsent.1, ?_⟩
      rw [← hsent.2.2, hbetween.1, List.append_nil]
  obtain ⟨rfl, rfl⟩ := hw
  rintro (hheaded | hwanting | htail)
  · rw [hplain] at hheaded
    exact hheaded 1 Nat.one_ne_zero rfl
  · apply hwanting
    rw [hwire, howed, hplain, hnil]
    simp
  · rw [howed] at htail
    cases htail

/-- A good relay that owes bytes, and where nothing would notice, sends data next. -/
theorem dataNext_of_unguarded (hS : C.source.Lawful 1) (hx : x.Good T P) (howes : x.Owes T)
    (hunguarded : x.Unguarded T.view.framing) : x.DataNext T.view.framing := by
  have hread := Puller.read_meets hS hx.positive x.reader
  have hbetween : x.sender.writer.DataFirst True := hunguarded.imp fun _ => trivial
  refine hunguarded.imp ?_
  rintro ⟨hfine, hplain | ⟨-, -, hnothing⟩⟩
  · refine ⟨hplain, ?_⟩
    by_cases hnil : x.sender.pending = []
    · refine .inr ?_
      cases hdone : x.readDone with
      | true =>
        obtain ⟨t, hending, -⟩ := hx.ended hdone
        exact absurd howes (not_owes_of_ending hx hplain hnil hbetween hending)
      | false =>
        have hreads : ∀ a, (C.source.read x.chunkSize x.reader).1 = a → x.Reads a := fun _ ha =>
          ⟨hnil, hdone, ha⟩
        generalize C.source.read x.chunkSize x.reader = y at hread hreads
        obtain ⟨_ | (_ | d) | e | _, s⟩ := y
        · exact hread.elim
        · obtain ⟨t, hending, -⟩ := hread
          exact absurd howes (not_owes_of_ending hx hplain hnil hbetween hending)
        · exact ⟨d, hread.2.2.2.1 hx.positive, hreads _ rfl⟩
        · exact absurd (hreads _ rfl) (hfine e)
        · exact hread.elim
    · exact .inl hnil
  -- a piece that was asked for has bytes
  · generalize C.source.read x.chunkSize x.reader = y at hread hnothing
    obtain ⟨a, s⟩ := y
    cases hnothing
    exact absurd rfl (hread.2.2.2.1 hx.positive)

/-- With nothing in hand the data is read next. -/
theorem reads_of_dataNext (hx : x.Good T P) (hnil : x.sender.pending = []) {F : Framing}
    (hdata : x.DataNext F) :
    x.sender.writer.DataFirst (F = .plain) ∧ ∃ d, d ≠ [] ∧ x.Reads (.ok (some d)) := by
  refine ⟨hdata.imp And.left, ?_⟩
  obtain ⟨data, ⟨w, bs, cur, -, hsent, -⟩, -⟩ := hx.sent
  unfold DataNext at hdata
  cases hwriter : x.sender.writer with
  | poisoned =>
    rw [hwriter] at hsent
    exact hsent.elim
  | ready r =>
    rw [hwriter] at hdata
    exact hdata.2.resolve_left fun hne => hne hnil
  | opening o =>
    rw [hwriter] at hsent
    exact absurd hnil hsent.2.1
  | writing w =>
    rw [hwriter] at hsent
    exact absurd hnil hsent.1
  | closing c =>
    rw [hwriter] at hdata
    exact hdata.2.2.resolve_left fun hne => hne hnil

end Relay

/-! ## Framing next -/

/-- What is left to do of the writer before it sends framing or waits for input. -/
def Sender.stepsLeft {W : Phases σ ε₂} (x : Sender W) : Nat :=
  match x.writer with
  | .closing _ => 3
  | .ready _ => if x.pending = [] then 0 else 2
  | .opening _ => 1
  | _ => 0

/-- A new piece in hand is no more than two steps. -/
theorem Sender.stepsLeft_refill {W : Phases σ ε₂} (x : Sender W) (d : List UInt8) :
    Sender.stepsLeft { x with pending := d } ≤ x.stepsLeft + 2 := by
  obtain ⟨writer, pending, medium⟩ := x
  cases writer with
  | ready r =>
    simp only [Sender.stepsLeft]
    split
    · omega
    · omega
  | _ => exact Nat.le_add_right _ 2

/-- Every call up to the next write of framing uses up some of this. -/
def Relay.stepsLeft (x : Relay C) : Nat :=
  4 * (if x.readDone then 0 else C.source.weight x.reader + 1) + x.sender.stepsLeft

/-- What a call may do when framing is sent next. -/
def framingNextPost (Refuses : Nat → σ → Prop) (F : Framing) (n : Nat) (x : Relay C) :
    Post η Bool (Relay C) where
  pending y := y.FramingNext F ∧ Refuses (n + 1) y.sender.medium ∧ y.stepsLeft < x.stepsLeft
  ok finished y := y.FramingNext F ∧ Refuses (n + 1) y.sender.medium ∧
    (finished = false → y.stepsLeft < x.stepsLeft)
  err _ _ := True

section FramingNext

variable {T : Task σ ω} {P : Prop} {x : Relay C} {Refuses : Nat → σ → Prop} {zero : ε₂} {n : Nat}

/-- What is in hand between two blocks is admitted. -/
theorem Relay.admits_of_ready (hroom : T.view.Admits T.owed.body.length) {r : C.target.Ready}
    {bs : List (List UInt8)} {pending data : List UInt8} {rest : Owed ω}
    (hidle : C.target.idle r = T.view.spend bs.flatten.length) (howed : T.owed = rest.prepend data)
    (hdata : bs.flatten ++ ([] ++ pending) = data) :
    (C.target.idle r).Admits pending.length := by
  rw [hidle]
  refine Idle.Admits.spend fun k hk => ?_
  have hall := hroom k hk
  rw [howed, Owed.prepend_body, ← hdata] at hall
  simp only [List.length_append, List.length_nil] at hall
  omega

/-- Reading the next piece. -/
theorem Relay.pollRead_framingNext (hS : C.source.Lawful 1) (hpos : 0 < x.chunkSize)
    (hmore : x.readDone = false) {F : Framing} (hnext : x.FramingNext F)
    (hs : Refuses (n + 1) x.sender.medium) :
    Meets x.pollRead (framingNextPost Refuses F n x) := by
  have hpoll := hS x.chunkSize x.reader hpos
  simp only [Relay.pollRead]
  generalize C.source.poll x.chunkSize x.reader = y at hpoll
  obtain ⟨_ | (_ | d) | e | _, reader⟩ := y
  · obtain ⟨-, -, hweight⟩ := hpoll
    refine ⟨hnext, hs, ?_⟩
    simp only [Relay.stepsLeft, hmore, Bool.false_eq_true, if_false]
    omega
  -- the end of the source: nothing is added to what is in hand
  · refine ⟨hnext, hs, fun _ => ?_⟩
    simp only [Relay.stepsLeft, hmore, Bool.false_eq_true, if_true, if_false]
    omega
  -- a piece that is read leaves the source with less by as much
  · obtain ⟨-, -, -, hne, hweight⟩ := hpoll
    refine ⟨hnext, hs, fun _ => ?_⟩
    have hlen := List.length_pos_iff.mpr (hne hpos)
    have hsteps := x.sender.stepsLeft_refill d
    simp only [Relay.stepsLeft, hmore, Bool.false_eq_true, if_false]
    omega
  · trivial
  · exact hpoll.elim

/-- One step of the writer. -/
theorem Relay.pollStep_framingNext (hL : C.target.Lawful T.medium T.limit)
    (hW : C.target.Stalls Refuses zero) (hroom : T.view.Admits T.owed.body.length)
    (hx : x.Good T P) (hbusy : ¬ (x.sender.pending = [] ∧ x.readDone = false))
    (hnext : x.FramingNext T.view.framing) (hs : Refuses (n + 1) x.sender.medium) :
    Meets x.pollStep (framingNextPost Refuses T.view.framing n x) := by
  obtain ⟨data, ⟨w, bs, cur, -, hsent, hdata, -, hlen⟩, howed⟩ := hx.sent
  obtain ⟨chunkSize, readDone, errored, reader, ⟨writer, pending, medium⟩⟩ := x
  simp only [Relay.pollStep]
  cases writer with
  | poisoned => exact hsent.elim
  | ready r =>
    obtain ⟨rfl, hidle, -⟩ := hsent
    by_cases hnil : pending = []
    · subst hnil
      have hdone : readDone = true := by simpa using hbusy
      subst hdone
      exact ⟨hnext, hs, Bool.noConfusion⟩
    -- the block is admitted, and its head comes next
    · have hheaded : T.view.framing.Headed := hnext
      have hadmits := Relay.admits_of_ready hroom hidle howed hdata
      obtain ⟨o, ho, hview⟩ := hL.openBlock hadmits (by simpa using hlen)
      have hopen : (C.target.opening o).left ≠ [] := by
        rw [hview, hidle]
        exact hheaded _ (by simpa using hnil)
      simp only [Sender.stepOnce, if_neg (show ¬ pending.isEmpty = true by simpa using hnil), ho,
        Sender.enter]
      refine ⟨hopen, hs, fun _ => ?_⟩
      simp only [Relay.stepsLeft, Sender.stepsLeft, if_neg hnil]
      omega
  | opening o =>
    -- the rest of the head is refused, and that is an error
    have herr := hW.openOwed hs hnext
    simp only [Sender.stepOnce]
    generalize C.target.pollOpen o medium = y at herr
    obtain ⟨answer, o', s'⟩ := y
    cases herr
    trivial
  | writing w => exact hnext.elim
  | closing c =>
    simp only [Sender.stepOnce]
    by_cases hleft : (C.target.closing c).left = []
    -- nothing is left of the block, so closing it needs no write
    · obtain ⟨r, hready, -⟩ := hL.intoReady hleft
      simp only [hW.closeSent medium hleft, hready, Sender.enter]
      refine ⟨hnext.resolve_left fun hne => hne hleft, hs, fun _ => ?_⟩
      have hpiece : (if pending = [] then 0 else 2) ≤ 2 := by
        split
        · omega
        · omega
      simp only [Relay.stepsLeft, Sender.stepsLeft]
      omega
    · have herr := hW.closeOwed hs hleft
      generalize C.target.pollClose c medium = y at herr
      obtain ⟨answer, c', s'⟩ := y
      cases herr
      trivial

variable (hS : C.source.Lawful 1) (hL : C.target.Lawful T.medium T.limit)
  (hW : C.target.Stalls Refuses zero) (hroom : T.view.Admits T.owed.body.length)
include hS hL hW hroom

/-- One call: the relay stays good, and framing stays next, until it finds the body through. -/
theorem Relay.forward_framingNext (hx : x.Good T P) (hnext : x.FramingNext T.view.framing)
    (hs : Refuses (n + 1) x.sender.medium) :
    Meets x.forward {
      pending := fun y => y.Good T P ∧ (framingNextPost Refuses T.view.framing n x).pending y
      ok := fun finished y => (y.Good T P ∧ (finished = true → y.Finished)) ∧
        (framingNextPost Refuses T.view.framing n x).ok finished y
      err := fun _ _ => True } := by
  have hcall : Meets x.forward (framingNextPost Refuses T.view.framing n x) := by
    apply Relay.forward_rule hx.alive (P := framingNextPost Refuses T.view.framing n x)
    · exact fun _ hmore => pollRead_framingNext hS hx.positive hmore hnext hs
    · exact fun hread => pollStep_framingNext hL hW hroom hx hread hnext hs
    · exact fun _ _ _ => trivial
  refine ((Relay.forward_meets hS hL hroom hx).and hcall).mono ?_ ?_ (fun _ _ _ => trivial)
  · exact fun y hy => ⟨hy.1.1, hy.2⟩
  · rintro finished y ⟨⟨hgood, hend⟩, hnext⟩
    refine ⟨⟨hgood, fun htrue => ?_⟩, hnext⟩
    rw [if_pos htrue] at hend
    exact hend

/-- Calling comes to an error, or to the end with framing next. -/
theorem Run.forwardAll_framingNext (fuel : Nat) {self : Run C} (h : self.Settled)
    (hx : self.relay.Good T P) (hnext : self.relay.FramingNext T.view.framing)
    (hs : Refuses (n + 1) self.relay.sender.medium) (hfuel : self.relay.stepsLeft < fuel) :
    Meets (self.forwardAll fuel) {
      pending := fun _ => False
      ok := fun _ run => run.relay.Good T P ∧ run.relay.Finished ∧
        run.relay.FramingNext T.view.framing ∧ Refuses (n + 1) run.relay.sender.medium
      err := fun _ _ => True } := by
  induction fuel generalizing self with
  | zero => omega
  | succ fuel ih =>
    have hpoll := Run.poll_of_forward h
      (Relay.forward_framingNext hS hL hW hroom hx hnext hs)
    rw [Run.forwardAll]
    generalize self.poll = y at hpoll
    obtain ⟨_ | (_ | _) | e | _, y⟩ := y
    · obtain ⟨hsettled, hgood, hnext', hs', hlt⟩ := hpoll
      exact ih hsettled hgood hnext' hs' (by omega)
    · obtain ⟨hsettled, ⟨hgood, -⟩, hnext', hs', hlt⟩ := hpoll
      have hlt := hlt rfl
      exact ih hsettled hgood hnext' hs' (by omega)
    · obtain ⟨-, ⟨hgood, hfinished⟩, hnext', hs', -⟩ := hpoll
      exact ⟨hgood, hfinished rfl, hnext', hs'⟩
    · trivial
    · exact hpoll

end FramingNext

/-! ## Data next -/

section DataNext

variable {T : Task σ ω} {P : Prop} {x : Relay C} {Refuses : Nat → σ → Prop} {zero : ε₂} {n : Nat}

/-- What a call may do when data is sent next: go on, with one write less to be refused. -/
def dataNextPost (Refuses : Nat → σ → Prop) (F : Framing) (n : Nat) : Post η Bool (Relay C) where
  pending y := y.DataNext F ∧ Refuses n y.sender.medium
  ok finished y := finished = false ∧ y.DataNext F ∧ Refuses n y.sender.medium
  err _ _ := False

/-- Reading the next piece. -/
theorem Relay.pollRead_dataNext (hS : C.source.Lawful 1) (hx : x.Good T P)
    (hnil : x.sender.pending = []) {F : Framing} (hdata : x.DataNext F)
    (hs : Refuses n x.sender.medium) : Meets x.pollRead (dataNextPost Refuses F n) := by
  obtain ⟨hbetween, d, hd, hreads⟩ := Relay.reads_of_dataNext hx hnil hdata
  simp only [Relay.pollRead]
  rcases Relay.poll_reads (hS.settles hx.positive) hreads with ⟨s, hpoll, -, hreads'⟩ | ⟨s, hpoll⟩
  · rw [hpoll]
    exact ⟨hbetween.imp fun hplain => ⟨hplain, .inr ⟨d, hd, hreads'⟩⟩, hs⟩
  · rw [hpoll]
    exact ⟨rfl, hbetween.imp fun hplain => ⟨hplain, .inl hd⟩, hs⟩

/-- One step of the writer. -/
theorem Relay.pollStep_dataNext (hL : C.target.Lawful T.medium T.limit)
    (hW : C.target.Stalls Refuses zero) (hroom : T.view.Admits T.owed.body.length)
    (hx : x.Good T P) (hbusy : ¬ (x.sender.pending = [] ∧ x.readDone = false))
    (hdata : x.DataNext T.view.framing) (hs : Refuses (n + 1) x.sender.medium) :
    Meets x.pollStep (dataNextPost Refuses T.view.framing n) := by
  obtain ⟨data, ⟨w, bs, cur, -, hsent, hsplit, -, hlen⟩, howed⟩ := hx.sent
  have hs' := hW.fewer hs
  obtain ⟨chunkSize, readDone, errored, reader, ⟨writer, pending, medium⟩⟩ := x
  simp only [Relay.pollStep]
  cases writer with
  | poisoned => exact hsent.elim
  | ready r =>
    obtain ⟨rfl, hidle, -⟩ := hsent
    by_cases hnil : pending = []
    -- with nothing in hand the data would have to be read
    · obtain ⟨d, -, -, hmore, -⟩ := hdata.2.resolve_left fun hne => hne hnil
      exact absurd ⟨hnil, hmore⟩ hbusy
    · have hadmits := Relay.admits_of_ready hroom hidle howed hsplit
      obtain ⟨o, ho, hview⟩ := hL.openBlock hadmits (by simpa using hlen)
      have hopen : (C.target.opening o).left = [] := by
        rw [hview, hidle]
        show T.view.framing.head pending.length = []
        rw [hdata.1]
        rfl
      simp only [Sender.stepOnce, if_neg (show ¬ pending.isEmpty = true by simpa using hnil), ho,
        Sender.enter]
      exact ⟨rfl, hopen, hs'⟩
  | opening o =>
    have hleft : (C.target.opening o).left = [] := hdata
    obtain ⟨y, hwrite, -⟩ := hL.intoWrite hleft
    simp only [Sender.stepOnce, hW.openSent medium hleft, hwrite, Sender.enter]
    exact ⟨rfl, trivial, hs'⟩
  | writing y =>
    -- the write phase hands the refusal on, and stays as it is
    obtain ⟨hne, hview, -⟩ := hsent
    have hfit : pending.length ≤ (C.target.writing y).left := Nat.le_of_eq (by rw [hview])
    obtain ⟨s', hwrite, hrefuses⟩ := hW.write hs hne hfit
    have hmore : pending.isEmpty = false := by simpa using hne
    simp only [Sender.stepOnce, hwrite, List.drop_zero, hmore, Bool.false_eq_true, if_false]
    exact ⟨rfl, trivial, hrefuses⟩
  | closing c =>
    obtain ⟨hleft, hahead⟩ := hdata
    obtain ⟨r, hready, -⟩ := hL.intoReady hleft
    simp only [Sender.stepOnce, hW.closeSent medium hleft, hready, Sender.enter]
    exact ⟨rfl, hahead, hs'⟩

variable (hS : C.source.Lawful 1) (hL : C.target.Lawful T.medium T.limit)
  (hW : C.target.Stalls Refuses zero) (hroom : T.view.Admits T.owed.body.length)
include hS hL hW hroom

/-- One call neither fails nor finds the body through, and data stays next. -/
theorem Relay.forward_dataNext (hx : x.Good T P) (hdata : x.DataNext T.view.framing)
    (hs : Refuses (n + 1) x.sender.medium) :
    Meets x.forward {
      pending := fun y => y.Good T P ∧
        (@dataNextPost _ _ _ _ _ _ C Refuses T.view.framing n).pending y
      ok := fun finished y => y.Good T P ∧
        (@dataNextPost _ _ _ _ _ _ C Refuses T.view.framing n).ok finished y
      err := fun _ _ => False } := by
  have hcall : Meets x.forward (dataNextPost Refuses T.view.framing n) := by
    apply Relay.forward_rule hx.alive (P := dataNextPost Refuses T.view.framing n)
    · exact fun hnil _ => pollRead_dataNext hS hx hnil hdata (hW.fewer hs)
    · exact fun hread => pollStep_dataNext hL hW hroom hx hread hdata hs
    · exact fun _ _ hfalse => hfalse
  refine ((Relay.forward_meets hS hL hroom hx).and hcall).mono ?_ ?_ ?_
  · exact fun y hy => ⟨hy.1.1, hy.2⟩
  · exact fun finished y hy => ⟨hy.1.1, hy.2⟩
  · exact fun e y hy => hy.2

/-- As long as the sink refuses, calling comes to no end. -/
theorem Run.forwardAll_dataNext (fuel : Nat) {self : Run C} (h : self.Settled)
    (hx : self.relay.Good T P) (hdata : self.relay.DataNext T.view.framing)
    (hs : Refuses fuel self.relay.sender.medium) :
    (self.forwardAll fuel).1 = .pending := by
  induction fuel generalizing self with
  | zero => rfl
  | succ fuel ih =>
    have hpoll := Run.poll_of_forward h (Relay.forward_dataNext hS hL hW hroom hx hdata hs)
    rw [Run.forwardAll]
    generalize self.poll = y at hpoll
    obtain ⟨_ | finished | e | _, y⟩ := y
    · obtain ⟨hsettled, hgood, hdata', hs'⟩ := hpoll
      exact ih hsettled hgood hdata' hs'
    · obtain ⟨hsettled, hgood, rfl, hdata', hs'⟩ := hpoll
      exact ih hsettled hgood hdata' hs'
    · exact hpoll.2.elim
    · exact hpoll.elim

end DataNext

end BodyRelay
