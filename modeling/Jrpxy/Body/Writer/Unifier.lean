/-
  Jrpxy.Body.Writer.Unifier

  The body writer of one side of the proxy, whatever the encoding.

  Requests and responses share three encodings; responses have a fourth, which
  ends with the connection.  `eof` says whether it is there: it is for writers
  towards a client, and is not for writers towards a backend.  The two sides
  wrap errors differently.
-/
import Jrpxy.Body.Writer.Chunked

namespace Jrpxy.Body.Writer.Unifier

open Poll BlockWriter Util HttpMessage

/-- One state of a body writer, in one of its encodings. -/
inductive Encoding (eof : Bool) (B C K E : Type) where
  | bodyless (x : B)
  | cl (x : C)
  | chunked (x : K)
  | eof (allowed : eof = true) (x : E)
  deriving DecidableEq, Repr

variable {eof : Bool} {ε : Type}

/-- Idle state. -/
abbrev Ready (eof : Bool) := Encoding eof Bodyless.Ready ContentLength.Ready Chunked.Ready Eof.Ready

abbrev Open (eof : Bool) := Encoding eof Bodyless.Open ContentLength.Open Chunked.Open Eof.Open

abbrev Write (eof : Bool) :=
  Encoding eof Bodyless.Write ContentLength.Write Chunked.Write Eof.Write

abbrev Close (eof : Bool) :=
  Encoding eof Bodyless.Close ContentLength.Close Chunked.Close Eof.Close

/-- Terminal state. -/
abbrev Finish (eof : Bool) :=
  Encoding eof Bodyless.Finish ContentLength.Finish Chunked.Finish Eof.Finish

section Dispatch

variable (f : BodyError → ε)

/-- Begin a new chunk of `length` bytes. -/
def Ready.open (length : UInt64) : Ready eof → Except ε (Open eof)
  | .bodyless r => ((r.open length).mapError f).map .bodyless
  | .cl r => ((r.open length).mapError f).map .cl
  | .chunked r => .ok (.chunked (r.open length))
  | .eof a r => .ok (.eof a (r.open length))

/-- Terminate the body cleanly. -/
def Ready.finish : Ready eof → Except ε (Finish eof)
  | .bodyless r => .ok (.bodyless r.finish)
  | .cl r => (r.finish.mapError f).map .cl
  | .chunked r => .ok (.chunked r.finish)
  | .eof a r => .ok (.eof a r.finish)

def Open.pollOpen (self : Open eof) (sink : Sink) : Polled ε Unit × Open eof × Sink :=
  match self with
  | .bodyless o => wrap f (fun x => (.bodyless x.1, x.2)) (o.pollOpen sink)
  | .cl o => wrap f (fun x => (.cl x.1, x.2)) (o.pollOpen sink)
  | .chunked o => wrap f (fun x => (.chunked x.1, x.2)) (o.pollOpen sink)
  | .eof a o => wrap f (fun x => (.eof a x.1, x.2)) (o.pollOpen sink)

def Open.intoWrite : Open eof → Except ε (Write eof)
  | .bodyless o => (o.intoWrite.mapError f).map .bodyless
  | .cl o => (o.intoWrite.mapError f).map .cl
  | .chunked o => (o.intoWrite.mapError f).map .chunked
  | .eof a o => (o.intoWrite.mapError f).map (.eof a)

/-- Write `buffer`; the answer is the number of bytes written. -/
def Write.pollWrite (self : Write eof) (buffer : Bytes) (sink : Sink) :
    Polled ε Nat × Write eof × Sink :=
  match self with
  | .bodyless w => wrap f (fun x => (.bodyless x.1, x.2)) (w.pollWrite buffer sink)
  | .cl w => wrap f (fun x => (.cl x.1, x.2)) (w.pollWrite buffer sink)
  | .chunked w => wrap f (fun x => (.chunked x.1, x.2)) (w.pollWrite buffer sink)
  | .eof a w => wrap f (fun x => (.eof a x.1, x.2)) (w.pollWrite buffer sink)

def Write.intoClose : Write eof → Except ε (Close eof)
  | .bodyless w => (w.intoClose.mapError f).map .bodyless
  | .cl w => (w.intoClose.mapError f).map .cl
  | .chunked w => (w.intoClose.mapError f).map .chunked
  | .eof a w => (w.intoClose.mapError f).map (.eof a)

def Close.pollClose (self : Close eof) (sink : Sink) : Polled ε Unit × Close eof × Sink :=
  match self with
  | .bodyless c => wrap f (fun x => (.bodyless x.1, x.2)) (c.pollClose sink)
  | .cl c => wrap f (fun x => (.cl x.1, x.2)) (c.pollClose sink)
  | .chunked c => wrap f (fun x => (.chunked x.1, x.2)) (c.pollClose sink)
  | .eof a c => wrap f (fun x => (.eof a x.1, x.2)) (c.pollClose sink)

def Close.intoReady : Close eof → Except ε (Ready eof)
  | .bodyless c => (c.intoReady.mapError f).map .bodyless
  | .cl c => (c.intoReady.mapError f).map .cl
  | .chunked c => (c.intoReady.mapError f).map .chunked
  | .eof a c => (c.intoReady.mapError f).map (.eof a)

def Finish.pollFinish (self : Finish eof) (sink : Sink) : Polled ε Unit × Finish eof × Sink :=
  match self with
  | .bodyless x => wrap f (fun x => (.bodyless x.1, x.2)) (x.pollFinish sink)
  | .cl x => wrap f (fun x => (.cl x.1, x.2)) (x.pollFinish sink)
  | .chunked x => wrap f (fun x => (.chunked x.1, x.2)) (x.pollFinish sink)
  | .eof a x => wrap f (fun x => (.eof a x.1, x.2)) (x.pollFinish sink)

/-- Give the sink back, if the connection outlives the body. -/
def Finish.intoWriter (self : Finish eof) (sink : Sink) : Except ε (Option Sink) :=
  match self with
  | .bodyless x => (x.intoWriter.mapError f).map fun _ => some sink
  | .cl x => (x.intoWriter.mapError f).map fun _ => some sink
  | .chunked x => (x.intoWriter.mapError f).map fun _ => some sink
  | .eof _ x => (x.intoWriter.mapError f).map fun _ => none

/-- `finish().await` -/
def Finish.finish (self : Finish eof) (sink : Sink) : Polled ε (Option Sink) × Sink :=
  andThen (blockOn (fun x : Finish eof × Sink => Finish.pollFinish f x.1 x.2) (sink.weight + 1)
    (self, sink)) (·.2) fun _ x => (.ofExcept (Finish.intoWriter f x.1 x.2), x.2)

end Dispatch

/-- The phases of any encoding. -/
def phases (eof : Bool) (f : BodyError → ε) : Phases Sink ε where
  Ready := Ready eof
  Open := Open eof
  Write := Write eof
  Close := Close eof
  openBlock n r := Ready.open f (UInt64.ofNat n) r
  pollOpen := Open.pollOpen f
  intoWrite := Open.intoWrite f
  pollWrite buffer w := Write.pollWrite f w buffer
  intoClose := Write.intoClose f
  pollClose := Close.pollClose f
  intoReady := Close.intoReady f
  idle
    | .bodyless r => Bodyless.phases.idle r
    | .cl r => ContentLength.phases.idle r
    | .chunked r => Chunked.phases.idle r
    | .eof _ r => Eof.phases.idle r
  opening
    | .bodyless o => Bodyless.phases.opening o
    | .cl o => ContentLength.phases.opening o
    | .chunked o => Chunked.phases.opening o
    | .eof _ o => Eof.phases.opening o
  writing
    | .bodyless w => Bodyless.phases.writing w
    | .cl w => ContentLength.phases.writing w
    | .chunked w => Chunked.phases.writing w
    | .eof _ w => Eof.phases.writing w
  closing
    | .bodyless c => Bodyless.phases.closing c
    | .cl c => ContentLength.phases.closing c
    | .chunked c => Chunked.phases.closing c
    | .eof _ c => Eof.phases.closing c

/-! ## What the phases send -/

/-- A call of a part that succeeds is a call of the whole that succeeds. -/
theorem ok_of_part {α β : Type} (f : BodyError → ε) {x : Except BodyError α} (put : α → β)
    {P : α → Prop} {Q : β → Prop} (hx : ∃ a, x = .ok a ∧ P a)
    (hPQ : ∀ a, P a → Q (put a)) :
    ∃ b, (x.mapError f).map put = .ok b ∧ Q b := by
  obtain ⟨a, rfl, ha⟩ := hx
  exact ⟨put a, rfl, hPQ a ha⟩

theorem phases_lawful (eof : Bool) (f : BodyError → ε) :
    (phases eof f).Lawful medium (2 ^ 64) where
  openBlock := by
    intro n r hroom hn
    cases r with
    | bodyless r =>
      exact ok_of_part f Encoding.bodyless
        (Bodyless.phases_lawful.openBlock (r := r) hroom hn) fun _ h => h
    | cl r =>
      exact ok_of_part f Encoding.cl
        (ContentLength.phases_lawful.openBlock (r := r) hroom hn) fun _ h => h
    | chunked r =>
      obtain ⟨o, ho, hview⟩ := Chunked.phases_lawful.openBlock (r := r) hroom hn
      cases ho
      exact ⟨_, rfl, hview⟩
    | eof a r =>
      obtain ⟨o, ho, hview⟩ := Eof.phases_lawful.openBlock (r := r) hroom hn
      cases ho
      exact ⟨_, rfl, hview⟩
  pollOpen := by
    intro o s
    cases o with
    | bodyless o =>
      exact sendPost_wrap f Encoding.bodyless (fun _ => rfl) (Bodyless.phases_lawful.pollOpen o s)
    | cl o =>
      exact sendPost_wrap f Encoding.cl (fun _ => rfl) (ContentLength.phases_lawful.pollOpen o s)
    | chunked o =>
      exact sendPost_wrap f Encoding.chunked (fun _ => rfl) (Chunked.phases_lawful.pollOpen o s)
    | eof a o =>
      exact sendPost_wrap f (Encoding.eof a) (fun _ => rfl) (Eof.phases_lawful.pollOpen o s)
  intoWrite := by
    intro o hleft
    cases o with
    | bodyless o =>
      exact ok_of_part f Encoding.bodyless
        (Bodyless.phases_lawful.intoWrite (o := o) hleft) fun _ h => h
    | cl o =>
      exact ok_of_part f Encoding.cl
        (ContentLength.phases_lawful.intoWrite (o := o) hleft) fun _ h => h
    | chunked o =>
      exact ok_of_part f Encoding.chunked
        (Chunked.phases_lawful.intoWrite (o := o) hleft) fun _ h => h
    | eof a o =>
      exact ok_of_part f (Encoding.eof a) (Eof.phases_lawful.intoWrite (o := o) hleft) fun _ h => h
  pollWrite := by
    intro buf w s hne hlen
    -- the writer of each encoding is seen as the whole is
    cases w with
    | bodyless w =>
      exact dataPost_wrap f Encoding.bodyless (fun _ => rfl)
        (Bodyless.phases_lawful.pollWrite (w := w) s hne hlen)
    | cl w =>
      exact dataPost_wrap f Encoding.cl (fun _ => rfl)
        (ContentLength.phases_lawful.pollWrite (w := w) s hne hlen)
    | chunked w =>
      exact dataPost_wrap f Encoding.chunked (fun _ => rfl)
        (Chunked.phases_lawful.pollWrite (w := w) s hne hlen)
    | eof a w =>
      exact dataPost_wrap f (Encoding.eof a) (fun _ => rfl)
        (Eof.phases_lawful.pollWrite (w := w) s hne hlen)
  intoClose := by
    intro w hleft
    cases w with
    | bodyless w =>
      exact ok_of_part f Encoding.bodyless
        (Bodyless.phases_lawful.intoClose (w := w) hleft) fun _ h => h
    | cl w =>
      exact ok_of_part f Encoding.cl
        (ContentLength.phases_lawful.intoClose (w := w) hleft) fun _ h => h
    | chunked w =>
      exact ok_of_part f Encoding.chunked
        (Chunked.phases_lawful.intoClose (w := w) hleft) fun _ h => h
    | eof a w =>
      exact ok_of_part f (Encoding.eof a) (Eof.phases_lawful.intoClose (w := w) hleft) fun _ h => h
  pollClose := by
    intro c s
    cases c with
    | bodyless c =>
      exact sendPost_wrap f Encoding.bodyless (fun _ => rfl) (Bodyless.phases_lawful.pollClose c s)
    | cl c =>
      exact sendPost_wrap f Encoding.cl (fun _ => rfl) (ContentLength.phases_lawful.pollClose c s)
    | chunked c =>
      exact sendPost_wrap f Encoding.chunked (fun _ => rfl) (Chunked.phases_lawful.pollClose c s)
    | eof a c =>
      exact sendPost_wrap f (Encoding.eof a) (fun _ => rfl) (Eof.phases_lawful.pollClose c s)
  intoReady := by
    intro c hleft
    cases c with
    | bodyless c =>
      exact ok_of_part f Encoding.bodyless
        (Bodyless.phases_lawful.intoReady (c := c) hleft) fun _ h => h
    | cl c =>
      exact ok_of_part f Encoding.cl
        (ContentLength.phases_lawful.intoReady (c := c) hleft) fun _ h => h
    | chunked c =>
      exact ok_of_part f Encoding.chunked
        (Chunked.phases_lawful.intoReady (c := c) hleft) fun _ h => h
    | eof a c =>
      exact ok_of_part f (Encoding.eof a) (Eof.phases_lawful.intoReady (c := c) hleft) fun _ h => h

/-! ## Ending the body -/

/-- What stands behind the last block. -/
def Ready.terminator : Ready eof → Bytes
  | .chunked _ => Chunked.finishData .empty
  | _ => []

/-- The connection outlives the body. -/
def Ready.recyclable : Ready eof → Bool
  | .eof _ _ => false
  | _ => true

/-- Ending the body of a part. -/
theorem finish_of_part (f : BodyError → ε) {X : Type} (put : X → Finish eof)
    {poll : X → Sink → Polled BodyError Unit × X × Sink} {into : X → Except BodyError Unit}
    (hpoll : ∀ x s, Finish.pollFinish f (put x) s = wrap f (fun y => (put y.1, y.2)) (poll x s))
    (next : Sink → Option Sink)
    (hinto : ∀ x s, Finish.intoWriter f (put x) s = ((into x).mapError f).map fun _ => next s)
    {x : X} {s : Sink} {left : Bytes}
    (h : Meets (andThen (blockOn (fun y : X × Sink => poll y.1 y.2) (s.weight + 1) (x, s))
        (·.2) fun _ y => (.ofExcept (into y.1), y.2)) {
      pending := fun _ => False
      ok := fun _ s' => Sends medium left s s'
      err := fun _ _ => ¬ s.Accepting }) :
    Meets (Finish.finish f (put x) s) {
      pending := fun _ => False
      ok := fun answer s' => Sends medium left s s' ∧ answer = next s'
      err := fun _ _ => ¬ s.Accepting } := by
  have hrun : blockOn (fun y : Finish eof × Sink => Finish.pollFinish f y.1 y.2) (s.weight + 1)
      (put x, s) = wrap f (fun y => (put y.1, y.2))
        (blockOn (fun y : X × Sink => poll y.1 y.2) (s.weight + 1) (x, s)) :=
    blockOn_wrap (fun y : X × Sink => (put y.1, y.2)) (fun y => hpoll y.1 y.2) (s.weight + 1)
      (x, s)
  rw [Finish.finish, hrun]
  generalize blockOn (fun y : X × Sink => poll y.1 y.2) (s.weight + 1) (x, s) = z at h
  obtain ⟨_ | a | e | _, x', s'⟩ := z
  · exact h
  · simp only [andThen_ok] at h
    show Meets (Polled.ofExcept (Finish.intoWriter f (put x') s'), s') _
    rw [hinto]
    generalize into x' = u at h ⊢
    obtain e | u := u
    · exact h
    · exact ⟨h, rfl⟩
  · exact h
  · exact h

/-- Ending a body that owes nothing sends the end and gives the sink back, if the
    connection outlives the body. -/
theorem finish_meets (f : BodyError → ε) {r : Ready eof}
    (hspent : ∀ k ∈ ((phases eof f).idle r).room, k = 0) :
    ∃ x, Ready.finish f r = .ok x ∧ ∀ s, Meets (Finish.finish f x s) {
      pending := fun _ => False
      ok := fun next s' => Sends medium (Ready.terminator r) s s' ∧
        next = if Ready.recyclable r then some s' else none
      err := fun _ _ => ¬ s.Accepting } := by
  cases r with
  | bodyless r =>
    exact ⟨_, rfl, fun s => finish_of_part f Encoding.bodyless (fun _ _ => rfl) some
      (fun _ _ => rfl) (Flushing.finish_meets _ s)⟩
  | cl r =>
    have hroom : r.length.toNat - r.offset.toNat = 0 := hspent _ rfl
    have hdone : ¬ r.offset < r.length := by
      rw [UInt64.lt_iff_toNat_lt]
      omega
    have hfinish : r.finish = .ok ⟨false⟩ := if_neg hdone
    refine ⟨.cl ⟨false⟩, ?_, fun s => finish_of_part f Encoding.cl (fun _ _ => rfl) some
      (fun _ _ => rfl) (Flushing.finish_meets _ s)⟩
    rw [Ready.finish, hfinish]
    rfl
  | chunked r =>
    exact ⟨_, rfl, fun s => finish_of_part f Encoding.chunked (fun _ _ => rfl) some
      (fun _ _ => rfl) (Chunked.finish_meets _ s)⟩
  | eof a r =>
    exact ⟨_, rfl, fun s => finish_of_part f (Encoding.eof a) (fun _ _ => rfl) (fun _ => none)
      (fun _ _ => rfl) (Flushing.finish_meets _ s)⟩

/-- A declared length that is not reached cannot be finished. -/
theorem finish_error (f : BodyError → ε) {r : ContentLength.Ready}
    (hleft : r.offset.toNat < r.length.toNat) :
    Ready.finish f (.cl r : Ready eof) =
      .error (f (.incompleteBody r.length.toNat r.offset.toNat)) := by
  have hlt : r.offset < r.length := UInt64.lt_iff_toNat_lt.mpr hleft
  rw [Ready.finish, ContentLength.Ready.finish, if_pos hlt]
  rfl

end Jrpxy.Body.Writer.Unifier
