/-
  Jrpxy.Lib.Polled

  Poll-style computations with an explicit state.

  A poll of a fallible future is a state transformer whose answer is one of
  four: not ready yet, ready with a value, ready with an error, or a panic.
  `andThen` is the `ready!`/`?` combination (anything but a value ends the
  whole poll, and what was changed stays changed); `blockOn` is an executor
  that polls one future until it is ready.

  `Meets x P` is the specification of one poll: a postcondition for each kind
  of answer, with no postcondition a panic could meet.  The rules below
  compose such specifications, so callers cite the specification of a poll
  function and never unfold it.
-/

namespace Poll

/-- What one poll of a fallible future comes to. -/
inductive Polled (ε α : Type) where
  | pending
  | ok (a : α)
  | err (e : ε)
  | panic
  deriving DecidableEq, Repr

variable {ε ε' α β σ τ : Type}

namespace Polled

/-- Rewrap the error. -/
def mapErr (f : ε → ε') : Polled ε α → Polled ε' α
  | pending => pending
  | ok a => ok a
  | err e => err (f e)
  | panic => panic

/-- Continue with a ready value. -/
def bind (x : Polled ε α) (k : α → Polled ε β) : Polled ε β :=
  match x with
  | pending => pending
  | ok a => k a
  | err e => err e
  | panic => panic

/-- The answer of a call that never waits. -/
def ofExcept : Except ε α → Polled ε α
  | .ok a => ok a
  | .error e => err e

@[simp] theorem mapErr_pending (f : ε → ε') :
    (pending : Polled ε α).mapErr f = pending := rfl
@[simp] theorem mapErr_ok (f : ε → ε') (a : α) :
    (ok a : Polled ε α).mapErr f = ok a := rfl
@[simp] theorem mapErr_err (f : ε → ε') (e : ε) :
    (err e : Polled ε α).mapErr f = err (f e) := rfl
@[simp] theorem mapErr_panic (f : ε → ε') :
    (panic : Polled ε α).mapErr f = panic := rfl
@[simp] theorem bind_pending (k : α → Polled ε β) : (pending : Polled ε α).bind k = pending := rfl
@[simp] theorem bind_ok (a : α) (k : α → Polled ε β) : (ok a : Polled ε α).bind k = k a := rfl
@[simp] theorem bind_err (e : ε) (k : α → Polled ε β) : (err e : Polled ε α).bind k = err e := rfl
@[simp] theorem bind_panic (k : α → Polled ε β) : (panic : Polled ε α).bind k = panic := rfl
@[simp] theorem ofExcept_ok (a : α) : ofExcept (.ok a : Except ε α) = ok a := rfl
@[simp] theorem ofExcept_error (e : ε) : ofExcept (.error e : Except ε α) = err e := rfl

/-- What a fallible future puts out when it is ready, value or error. -/
def output : Polled ε α → Polled ε' (Except ε α)
  | pending => pending
  | ok a => ok (.ok a)
  | err e => ok (.error e)
  | panic => panic

/-- The answer is a value. -/
def isOk : Polled ε α → Bool
  | ok _ => true
  | _ => false

/-- The answer is an error or a panic. -/
def failed : Polled ε α → Bool
  | err _ => true
  | panic => true
  | _ => false

/-- The value of an answer that is one. -/
def get : (x : Polled ε α) → x.isOk = true → α
  | ok a, _ => a
  | pending, h => absurd h Bool.false_ne_true
  | err _, h => absurd h Bool.false_ne_true
  | panic, h => absurd h Bool.false_ne_true

theorem eq_ok_get {x : Polled ε α} (h : x.isOk = true) : x = .ok (x.get h) := by
  cases x with
  | ok a => rfl
  | pending => cases h
  | err e => cases h
  | panic => cases h

/-- A continuation that is ready was reached with a ready value. -/
theorem bind_eq_ok {x : Polled ε α} {k : α → Polled ε β} {b : β} :
    x.bind k = .ok b ↔ ∃ a, x = .ok a ∧ k a = .ok b := by
  cases x <;> simp [bind]

/-- What is made of the value does not change whether there is one. -/
theorem bind_ok_eq_pending {x : Polled ε α} {g : α → β} :
    (x.bind fun a => .ok (g a)) = .pending ↔ x = .pending := by
  cases x <;> simp [bind]

theorem mapErr_eq_ok {f : ε → ε'} {x : Polled ε α} {a : α} : x.mapErr f = .ok a ↔ x = .ok a := by
  cases x <;> simp [mapErr]

theorem ofExcept_eq_ok {x : Except ε α} {a : α} : ofExcept x = .ok a ↔ x = .ok a := by
  cases x <;> simp [ofExcept]

theorem output_eq_ok {x : Polled ε α} {a : α} :
    (x.output : Polled ε' (Except ε α)) = .ok (.ok a) ↔ x = .ok a := by
  cases x <;> simp [output]

end Polled

theorem eq_get {x : Polled ε α × σ} (h : x.1.isOk = true) : x = (.ok (x.1.get h), x.2) :=
  Prod.ext (Polled.eq_ok_get h) rfl

/-- A poll that answers with a value. -/
theorem exists_of_isOk {x : Polled ε α × σ} (h : x.1.isOk = true) : ∃ a s, x = (.ok a, s) := by
  obtain ⟨_ | a | e | _, s⟩ := x
  · cases h
  · exact ⟨a, s, rfl⟩
  · cases h
  · cases h

@[simp] theorem mapError_ok (f : ε → ε') (a : α) :
    (Except.ok a : Except ε α).mapError f = .ok a := rfl
@[simp] theorem mapError_error (f : ε → ε') (e : ε) :
    (Except.error e : Except ε α).mapError f = .error (f e) := rfl

theorem mapError_eq_ok {f : ε → ε'} {x : Except ε α} {a : α} :
    x.mapError f = .ok a ↔ x = .ok a := by
  cases x <;> simp

/-- A call that succeeds with a value of which `f` is known. -/
theorem exists_ok_of_map {x : Except ε α} {f : α → β} {b : β} (h : x.toOption.map f = some b) :
    ∃ a, x = .ok a ∧ f a = b := by
  cases x with
  | error e => cases h
  | ok a => exact ⟨a, rfl, Option.some.inj h⟩

namespace Polled

/-- Continue with a ready value, and with the knowledge that it is the one. -/
def attempt : (x : Polled ε α) → (∀ a, x = .ok a → Option β) → Option β
  | ok a, k => k a rfl
  | pending, _ => none
  | err _, _ => none
  | panic, _ => none

/-- What comes of it comes of a ready value. -/
theorem attempt_eq_some {x : Polled ε α} {k : ∀ a, x = .ok a → Option β} {b : β}
    (h : x.attempt k = some b) : ∃ a ha, k a ha = some b := by
  cases x with
  | ok a => exact ⟨a, rfl, h⟩
  | pending => cases h
  | err e => cases h
  | panic => cases h

end Polled

/-- The same for a poll that hands back a state. -/
def attempt (x : Polled ε α × σ) (k : ∀ a s, x = (.ok a, s) → Option β) : Option β :=
  x.1.attempt fun a h => k a x.2 (Prod.ext h rfl)

theorem attempt_eq_some {x : Polled ε α × σ} {k : ∀ a s, x = (.ok a, s) → Option β} {b : β}
    (h : attempt x k = some b) : ∃ a s ha, k a s ha = some b := by
  obtain ⟨a, ha, h⟩ := Polled.attempt_eq_some h
  exact ⟨a, x.2, Prod.ext ha rfl, h⟩

/-- Continue with `k` on a ready value; any other answer is the answer of the
    whole poll, with the callee's state put back by `put`. -/
def andThen (x : Polled ε α × σ) (put : σ → τ) (k : α → σ → Polled ε β × τ) :
    Polled ε β × τ :=
  match x with
  | (.ok a, s) => k a s
  | (.pending, s) => (.pending, put s)
  | (.err e, s) => (.err e, put s)
  | (.panic, s) => (.panic, put s)

@[simp] theorem andThen_ok (a : α) (s : σ) (put : σ → τ) (k : α → σ → Polled ε β × τ) :
    andThen (.ok a, s) put k = k a s := rfl
@[simp] theorem andThen_pending (s : σ) (put : σ → τ) (k : α → σ → Polled ε β × τ) :
    andThen (.pending, s) put k = (.pending, put s) := rfl
@[simp] theorem andThen_err (e : ε) (s : σ) (put : σ → τ) (k : α → σ → Polled ε β × τ) :
    andThen (.err e, s) put k = (.err e, put s) := rfl
@[simp] theorem andThen_panic (s : σ) (put : σ → τ) (k : α → σ → Polled ε β × τ) :
    andThen (.panic, s) put k = (.panic, put s) := rfl

/-- A poll that is ready with a value went on from one. -/
theorem andThen_eq_ok {x : Polled ε α × σ} {put : σ → τ} {k : α → σ → Polled ε β × τ} {b : β}
    {t : τ} (h : andThen x put k = (.ok b, t)) : ∃ a s, x = (.ok a, s) ∧ k a s = (.ok b, t) := by
  obtain ⟨_ | a | e | _, s⟩ := x
  · cases h
  · exact ⟨a, s, rfl, h⟩
  · cases h
  · cases h

/-- Making something of the value alone leaves the state of the callee. -/
theorem andThen_value (x : Polled ε α × σ) (g : α → σ → β) :
    andThen x id (fun a s => (.ok (g a s), s)) = (x.1.bind fun a => .ok (g a x.2), x.2) := by
  obtain ⟨r, s⟩ := x
  cases r <;> rfl

/-- Rewrap the error of a poll. -/
def mapErr (f : ε → ε') (x : Polled ε α × σ) : Polled ε' α × σ := (x.1.mapErr f, x.2)

@[simp] theorem mapErr_mk (f : ε → ε') (r : Polled ε α) (s : σ) :
    mapErr f (r, s) = (r.mapErr f, s) := rfl

theorem mapErr_eq_ok {f : ε → ε'} {x : Polled ε α × σ} {a : α} {s : σ}
    (h : mapErr f x = (.ok a, s)) : x = (.ok a, s) := by
  obtain ⟨_ | a | e | _, s'⟩ := x
  · cases h
  · cases h
    rfl
  · cases h
  · cases h

/-- The poll of a part, as a poll of the whole: the error rewrapped, the part put back. -/
def wrap (f : ε → ε') (put : σ → τ) (x : Polled ε α × σ) : Polled ε' α × τ :=
  (x.1.mapErr f, put x.2)

/-! ## Specifications of one poll -/

/-- A postcondition for each kind of answer other than a panic. -/
structure Post (ε α σ : Type) where
  pending : σ → Prop
  ok : α → σ → Prop
  err : ε → σ → Prop

/-- The poll answered as `P` allows; in particular it did not panic. -/
def Meets (x : Polled ε α × σ) (P : Post ε α σ) : Prop :=
  match x with
  | (.pending, s) => P.pending s
  | (.ok a, s) => P.ok a s
  | (.err e, s) => P.err e s
  | (.panic, _) => False

@[simp] theorem meets_pending (s : σ) (P : Post ε α σ) :
    Meets (.pending, s) P ↔ P.pending s := Iff.rfl
@[simp] theorem meets_ok (a : α) (s : σ) (P : Post ε α σ) :
    Meets (.ok a, s) P ↔ P.ok a s := Iff.rfl
@[simp] theorem meets_err (e : ε) (s : σ) (P : Post ε α σ) :
    Meets (.err e, s) P ↔ P.err e s := Iff.rfl
@[simp] theorem meets_panic (s : σ) (P : Post ε α σ) :
    Meets (.panic, s) P ↔ False := Iff.rfl

/-- A specification may be weakened answer by answer. -/
theorem Meets.mono {x : Polled ε α × σ} {P Q : Post ε α σ} (h : Meets x P)
    (hp : ∀ s, P.pending s → Q.pending s) (ho : ∀ a s, P.ok a s → Q.ok a s)
    (he : ∀ e s, P.err e s → Q.err e s) : Meets x Q := by
  obtain ⟨r, s⟩ := x
  cases r with
  | pending => exact hp s h
  | ok a => exact ho a s h
  | err e => exact he e s h
  | panic => exact h

/-- Two specifications that a poll meets, it meets at once. -/
theorem Meets.and {x : Polled ε α × σ} {P Q : Post ε α σ} (h : Meets x P) (h' : Meets x Q) :
    Meets x {
      pending := fun s => P.pending s ∧ Q.pending s
      ok := fun a s => P.ok a s ∧ Q.ok a s
      err := fun e s => P.err e s ∧ Q.err e s } := by
  obtain ⟨r, s⟩ := x
  cases r with
  | pending => exact ⟨h, h'⟩
  | ok a => exact ⟨h, h'⟩
  | err e => exact ⟨h, h'⟩
  | panic => exact h

/-- What every answer leaves the state with. -/
theorem Meets.state {x : Polled ε α × σ} {P : Post ε α σ} {U : σ → Prop} (h : Meets x P)
    (hp : ∀ s, P.pending s → U s) (ho : ∀ a s, P.ok a s → U s) (he : ∀ e s, P.err e s → U s) :
    U x.2 := by
  obtain ⟨r, s⟩ := x
  cases r with
  | pending => exact hp s h
  | ok a => exact ho a s h
  | err e => exact he e s h
  | panic => exact h.elim

/-- A value that the specification excludes is not the answer. -/
theorem Meets.ne_ok {x : Polled ε α × σ} {P : Post ε α σ} (h : Meets x P) {a : α}
    (ho : ∀ s, ¬ P.ok a s) : x.1 ≠ .ok a := by
  obtain ⟨r, s⟩ := x
  rintro rfl
  exact ho s h

/-- Ready without a value, a poll has failed. -/
theorem Meets.err_of_ready {x : Polled ε α × σ} {P : Post ε α σ} (h : Meets x P)
    (ho : ∀ a s, ¬ P.ok a s) (hready : x.1 ≠ .pending) : ∃ e, x.1 = .err e := by
  obtain ⟨r, s⟩ := x
  cases r with
  | pending => exact absurd rfl hready
  | ok a => exact absurd h (ho a s)
  | err e => exact ⟨e, rfl⟩
  | panic => exact h.elim

/-- The rule of `andThen`: the early answers meet the caller's specification
    once the callee's state is put back, and the continuation meets it from
    every value the callee can be ready with. -/
theorem Meets.andThen {x : Polled ε α × σ} {P : Post ε α σ} {Q : Post ε β τ}
    {put : σ → τ} {k : α → σ → Polled ε β × τ} (h : Meets x P)
    (hp : ∀ s, P.pending s → Q.pending (put s))
    (he : ∀ e s, P.err e s → Q.err e (put s))
    (ho : ∀ a s, P.ok a s → Meets (k a s) Q) :
    Meets (Poll.andThen x put k) Q := by
  obtain ⟨r, s⟩ := x
  cases r with
  | pending => exact hp s h
  | ok a => exact ho a s h
  | err e => exact he e s h
  | panic => exact h

/-- The rule of `mapErr`. -/
theorem Meets.mapErr {x : Polled ε α × σ} {P : Post ε α σ} {Q : Post ε' α σ} {f : ε → ε'}
    (h : Meets x P) (hp : ∀ s, P.pending s → Q.pending s) (ho : ∀ a s, P.ok a s → Q.ok a s)
    (he : ∀ e s, P.err e s → Q.err (f e) s) : Meets (Poll.mapErr f x) Q := by
  obtain ⟨r, s⟩ := x
  cases r with
  | pending => exact hp s h
  | ok a => exact ho a s h
  | err e => exact he e s h
  | panic => exact h

/-- The rule of `wrap`. -/
theorem Meets.wrap {x : Polled ε α × σ} {P : Post ε α σ} {Q : Post ε' α τ} {f : ε → ε'}
    {put : σ → τ} (h : Meets x P) (hp : ∀ s, P.pending s → Q.pending (put s))
    (ho : ∀ a s, P.ok a s → Q.ok a (put s)) (he : ∀ e s, P.err e s → Q.err (f e) (put s)) :
    Meets (Poll.wrap f put x) Q := by
  obtain ⟨r, s⟩ := x
  cases r with
  | pending => exact hp s h
  | ok a => exact ho a s h
  | err e => exact he e s h
  | panic => exact h

/-! ## Running a future -/

/-- Poll `f` until it is ready, at most `fuel` times.  The answer is `pending`
    exactly when the polls ran out. -/
def blockOn (f : σ → Polled ε α × σ) : Nat → σ → Polled ε α × σ
  | 0, s => (.pending, s)
  | fuel + 1, s =>
    match f s with
    | (.pending, s') => blockOn f fuel s'
    | r => r

/-- What every pending poll preserves and every ready poll ends in is what the
    whole run ends in. -/
theorem blockOn_meets {f : σ → Polled ε α × σ} {I : σ → Prop} {P : Post ε α σ}
    (hpend : P.pending = I)
    (hstep : ∀ s, I s → Meets (f s) P) (fuel : Nat) {s : σ} (hs : I s) :
    Meets (blockOn f fuel s) P := by
  induction fuel generalizing s with
  | zero =>
    rw [blockOn, meets_pending, hpend]
    exact hs
  | succ fuel ih =>
    have h := hstep s hs
    rw [blockOn]
    split
    · next s' heq =>
      rw [heq, meets_pending, hpend] at h
      exact ih h
    · next r hne =>
      exact h

/-- What every poll keeps, the whole run keeps. -/
theorem blockOn_kept {f : σ → Polled ε α × σ} {K : σ → Prop} (hK : ∀ s, K s → K (f s).2)
    (fuel : Nat) {s : σ} (hs : K s) : K (blockOn f fuel s).2 := by
  induction fuel generalizing s with
  | zero => exact hs
  | succ fuel ih =>
    have hnext := hK s hs
    rw [blockOn]
    generalize f s = x at hnext
    obtain ⟨_ | a | e | _, s'⟩ := x
    · exact ih hnext
    · exact hnext
    · exact hnext
    · exact hnext

/-- If every pending poll from an `I`-state lowers `μ`, then more polls than
    `μ` says are enough. -/
theorem blockOn_ready {f : σ → Polled ε α × σ} {I : σ → Prop} {μ : σ → Nat}
    (hstep : ∀ s s', I s → f s = (.pending, s') → I s' ∧ μ s' < μ s) :
    ∀ (fuel : Nat) (s : σ), I s → μ s < fuel → (blockOn f fuel s).1 ≠ .pending := by
  intro fuel
  induction fuel with
  | zero => intro s _ h; omega
  | succ fuel ih =>
    intro s hs hμ
    rw [blockOn]
    split
    · next s' heq =>
      obtain ⟨hs', hlt⟩ := hstep s s' hs heq
      exact ih s' hs' (by omega)
    · next r hne =>
      intro hp
      exact hne (f s).2 (Prod.ext hp rfl)

/-- Once a run is ready, more polls change nothing. -/
theorem blockOn_add {f : σ → Polled ε α × σ} {fuel : Nat} {s : σ}
    (h : (blockOn f fuel s).1 ≠ .pending) (k : Nat) : blockOn f (fuel + k) s = blockOn f fuel s := by
  induction fuel generalizing s with
  | zero => exact absurd rfl h
  | succ fuel ih =>
    rw [blockOn] at h
    rw [Nat.add_right_comm, blockOn, blockOn]
    generalize f s = x at h
    obtain ⟨_ | a | e | _, s'⟩ := x
    · exact ih h
    · rfl
    · rfl
    · rfl

/-- Polling a part until it is ready is polling the whole until it is ready. -/
theorem blockOn_wrap {f : ε → ε'} (put : σ → τ) {g : τ → Polled ε' α × τ}
    {h : σ → Polled ε α × σ} (hg : ∀ s, g (put s) = wrap f put (h s)) (fuel : Nat) (s : σ) :
    blockOn g fuel (put s) = wrap f put (blockOn h fuel s) := by
  induction fuel generalizing s with
  | zero => rfl
  | succ fuel ih =>
    rw [blockOn, blockOn, hg]
    generalize h s = x
    obtain ⟨_ | a | e | _, s'⟩ := x
    · exact ih s'
    · rfl
    · rfl
    · rfl

end Poll
