/-
  Jrpxy.Lib.PullStream

  Readers that hand out a body piece by piece.

  A `Puller` is a poll function together with what its states still owe: some
  data, and then an end or a fault.  `Lawful` says that every poll pays off
  what it hands out and nothing else; it is stated once, for one poll, and
  every driver below inherits it by induction: reading (`read_meets`),
  draining (`drain_meets`), and reading to the end with a read size chosen
  anew for each read (`readAll_meets`).

  `Fits` stands for limits a reader may enforce: only a reader within its
  limits must not report an error before the fault.  `weight` bounds the
  number of polls, so no driver runs out of fuel.
-/
import Jrpxy.Lib.Polled

namespace PullStream

open Poll

/-- Data still to come, and what comes behind it: an end or a fault. -/
structure Owed (ω : Type) where
  body : List UInt8
  tail : Option ω

namespace Owed

variable {ω : Type}

/-- Nothing but a fault. -/
def fault : Owed ω := ⟨[], none⟩

/-- Nothing but the end. -/
def ending (t : ω) : Owed ω := ⟨[], some t⟩

/-- Put data in front. -/
def prepend (d : List UInt8) (x : Owed ω) : Owed ω := ⟨d ++ x.body, x.tail⟩

@[simp] theorem prepend_body (d : List UInt8) (x : Owed ω) : (x.prepend d).body = d ++ x.body := rfl
@[simp] theorem prepend_tail (d : List UInt8) (x : Owed ω) : (x.prepend d).tail = x.tail := rfl
@[simp] theorem prepend_nil (x : Owed ω) : x.prepend [] = x := rfl
@[simp] theorem ending_body (t : ω) : (ending t).body = [] := rfl
@[simp] theorem ending_tail (t : ω) : (ending t).tail = some t := rfl
@[simp] theorem fault_body : (fault : Owed ω).body = [] := rfl
@[simp] theorem fault_tail : (fault : Owed ω).tail = none := rfl

theorem prepend_prepend (d e : List UInt8) (x : Owed ω) :
    (x.prepend e).prepend d = x.prepend (d ++ e) := by
  simp [prepend]

end Owed

/-- A poll function that hands out data, and what its states owe. -/
structure Puller (ρ ε ω : Type) where
  poll : Nat → ρ → Polled ε (Option (List UInt8)) × ρ
  owed : ρ → Owed ω
  weight : ρ → Nat
  Fits : ρ → Prop
  Done : ρ → Prop

variable {ρ ε ω : Type}

namespace Puller

/-- What one poll for at most `m` bytes may do. -/
def post (P : Puller ρ ε ω) (m : Nat) (r : ρ) : Post ε (Option (List UInt8)) ρ where
  pending s := P.owed s = P.owed r ∧ (P.Fits r → P.Fits s) ∧ P.weight s < P.weight r
  ok
    | some d, s => P.owed r = (P.owed s).prepend d ∧ (P.Fits r → P.Fits s) ∧ d.length ≤ m ∧
        (0 < m → d ≠ []) ∧ P.weight s + d.length ≤ P.weight r
    | none, s => ∃ t, P.owed r = .ending t ∧ P.owed s = .ending t ∧ P.Done s
  err _ _ := P.Fits r → P.owed r = .fault

/-- Every poll for at least `lo` bytes keeps to `post`. -/
def Lawful (P : Puller ρ ε ω) (lo : Nat) : Prop := ∀ m r, lo ≤ m → Meets (P.poll m r) (P.post m r)

theorem Lawful.mono {P : Puller ρ ε ω} {lo lo' : Nat} (h : P.Lawful lo) (hle : lo ≤ lo') :
    P.Lawful lo' := fun m r hm => h m r (Nat.le_trans hle hm)

/-- What a poll may do from a state that owes the same, it may do from here. -/
theorem post_of_owed_eq {P : Puller ρ ε ω} {m : Nat} {r r' : ρ}
    {x : Polled ε (Option (List UInt8)) × ρ} (howed : P.owed r' = P.owed r)
    (hfits : P.Fits r → P.Fits r') (hweight : P.weight r' ≤ P.weight r)
    (h : Meets x (P.post m r')) : Meets x (P.post m r) := by
  refine h.mono ?_ ?_ ?_
  · rintro s ⟨hs, hf, hw⟩
    exact ⟨hs.trans howed, hf ∘ hfits, by omega⟩
  · rintro (_ | d) s
    · rintro ⟨t, hr, hs, hdone⟩
      exact ⟨t, howed ▸ hr, hs, hdone⟩
    · rintro ⟨hs, hf, hlen, hne, hw⟩
      exact ⟨howed ▸ hs, hf ∘ hfits, hlen, hne, by omega⟩
  · intro e s herr hf
    exact howed ▸ herr (hfits hf)

/-- A puller that has no states. -/
def absent : Puller Empty ε ω where
  poll _ r := nomatch r
  owed r := nomatch r
  weight r := nomatch r
  Fits r := nomatch r
  Done r := nomatch r

theorem absent_lawful : (absent : Puller Empty ε ω).Lawful 0 := nofun

/-- A poll of a part keeps to `post` of the whole, when the whole owes what the part
    does. -/
theorem wrap_meets {ρ' ε' : Type} {P : Puller ρ ε ω} (Q : Puller ρ' ε' ω) (f : ε → ε')
    (put : ρ → ρ') (howed : ∀ r, Q.owed (put r) = P.owed r)
    (hfits : ∀ r, Q.Fits (put r) ↔ P.Fits r) (hweight : ∀ r, Q.weight (put r) = P.weight r)
    (hdone : ∀ r, P.Done r → Q.Done (put r)) {m : Nat} {r : ρ}
    {x : Polled ε (Option (List UInt8)) × ρ} (h : Meets x (P.post m r)) :
    Meets (wrap f put x) (Q.post m (put r)) := by
  refine h.wrap ?_ ?_ ?_
  · rintro s ⟨hs, hf, hw⟩
    refine ⟨?_, ?_, ?_⟩
    · rw [howed, howed, hs]
    · rw [hfits, hfits]
      exact hf
    · rw [hweight, hweight]
      exact hw
  · rintro (_ | d) s
    · rintro ⟨t, hr, hs, hd⟩
      exact ⟨t, (howed r).trans hr, (howed s).trans hs, hdone s hd⟩
    · rintro ⟨hs, hf, hlen, hne, hw⟩
      refine ⟨?_, ?_, hlen, hne, ?_⟩
      · rw [howed, howed, hs]
      · rw [hfits, hfits]
        exact hf
      · rw [hweight, hweight]
        exact hw
  · intro e s herr hf
    exact (howed r).trans (herr ((hfits r).mp hf))

variable (P : Puller ρ ε ω)

/-! ## One read -/

/-- Poll one read until it is ready. -/
def read (m : Nat) (r : ρ) : Polled ε (Option (List UInt8)) × ρ :=
  blockOn (P.poll m) (P.weight r + 1) r

/-- A poll for at most `m` bytes that waits uses up some of the weight. -/
def Settles (m : Nat) : Prop := ∀ r s, P.poll m r = (.pending, s) → P.weight s < P.weight r

theorem Lawful.settles {P : Puller ρ ε ω} {lo m : Nat} (h : P.Lawful lo) (hm : lo ≤ m) :
    P.Settles m := by
  intro r s hpoll
  have hpost := h m r hm
  rw [hpoll] at hpost
  exact hpost.2.2

/-- Behind a piece there is another one, polled for at most `m` bytes, and it has none. -/
def Repeats (m : Nat) : Prop :=
  ∀ r s d, P.poll m r = (.ok (some d), s) → (P.poll m s).1 = .ok (some [])

section Settling

variable {P : Puller ρ ε ω} {m : Nat} {r s : ρ}

/-- A read never waits for ever. -/
theorem read_ready (h : P.Settles m) (r : ρ) : (P.read m r).1 ≠ .pending :=
  blockOn_ready (I := fun _ => True) (μ := P.weight) (fun r s _ hpoll => ⟨trivial, h r s hpoll⟩) _ r
    trivial (Nat.lt_succ_self _)

/-- What is read behind a poll that waits is what is read. -/
theorem read_of_pending (h : P.Settles m) (hpoll : P.poll m r = (.pending, s)) :
    P.read m s = P.read m r := by
  obtain ⟨k, hk⟩ := Nat.exists_eq_add_of_lt (h r s hpoll)
  have hweight : P.weight r = P.weight s + 1 + k := by omega
  have hread : P.read m r = blockOn (P.poll m) (P.weight r) s := by rw [read, blockOn, hpoll]
  rw [hread, hweight]
  exact (blockOn_add (read_ready h s) k).symm

theorem read_of_ready (hready : (P.poll m r).1 ≠ .pending) : P.read m r = P.poll m r := by
  rw [read, blockOn]
  generalize P.poll m r = x at hready
  obtain ⟨_ | a | e | _, s⟩ := x
  · exact absurd rfl hready
  · rfl
  · rfl
  · rfl

/-- A poll of a part that waits uses up some of the whole. -/
theorem settles_wrap {ρ' ε' : Type} (Q : Puller ρ' ε' ω) (f : ε → ε') (put : ρ → ρ')
    (hweight : ∀ r, Q.weight (put r) = P.weight r) (h : P.Settles m) {s' : ρ'}
    (hpoll : wrap f put (P.poll m r) = (.pending, s')) : Q.weight s' < Q.weight (put r) := by
  generalize hx : P.poll m r = x at hpoll
  obtain ⟨_ | a | e | _, s⟩ := x
  · cases hpoll
    rw [hweight, hweight]
    exact h r s hx
  · cases hpoll
  · cases hpoll
  · cases hpoll

/-- Behind a piece of a part there is another one of the part. -/
theorem repeats_wrap {ρ' ε' : Type} (f : ε → ε') (put : ρ → ρ') (h : P.Repeats m)
    {d : List UInt8} {s' : ρ'} (hpoll : wrap f put (P.poll m r) = (.ok (some d), s')) :
    ∃ s, s' = put s ∧ (wrap f put (P.poll m s)).1 = .ok (some []) := by
  generalize hx : P.poll m r = x at hpoll
  obtain ⟨_ | a | e | _, s⟩ := x
  · cases hpoll
  · cases hpoll
    exact ⟨s, rfl, congrArg (Polled.mapErr f) (h r s d hx)⟩
  · cases hpoll
  · cases hpoll

end Settling

/-- A whole read is ready, and keeps to `post` as one poll does. -/
theorem read_meets {P : Puller ρ ε ω} {lo m : Nat} (h : P.Lawful lo) (hm : lo ≤ m) (r : ρ) :
    Meets (P.read m r) { P.post m r with pending := fun _ => False } := by
  have hready := read_ready (h.settles hm) r
  have hrun : Meets (P.read m r) { P.post m r with
      pending := fun s => P.owed s = P.owed r ∧ (P.Fits r → P.Fits s) ∧ P.weight s ≤ P.weight r } := by
    refine blockOn_meets (I := fun s => P.owed s = P.owed r ∧ (P.Fits r → P.Fits s) ∧
      P.weight s ≤ P.weight r) rfl ?_ _ ⟨rfl, id, Nat.le_refl _⟩
    rintro s ⟨howed, hfits, hweight⟩
    refine (post_of_owed_eq howed hfits hweight (h m s hm)).mono ?_ (fun _ _ ho => ho)
      (fun _ _ he => he)
    rintro s' ⟨howed', hfits', hweight'⟩
    exact ⟨howed', hfits', Nat.le_of_lt hweight'⟩
  generalize P.read m r = x at hready hrun
  obtain ⟨_ | a | e | _, s⟩ := x
  · exact absurd rfl hready
  · exact hrun
  · exact hrun
  · exact hrun

/-- A read that is not an error leaves the same end ahead, within limits. -/
theorem read_keeps {P : Puller ρ ε ω} {lo m : Nat} (h : P.Lawful lo) (hm : lo ≤ m) {r : ρ}
    (hdone : ∀ s, P.Done s → P.Fits s) (hfits : P.Fits r) {t : ω}
    (htail : (P.owed r).tail = some t) :
    Meets (P.read m r) {
      pending := fun _ => False
      ok := fun _ s => P.Fits s ∧ (P.owed s).tail = some t
      err := fun _ _ => False } := by
  refine (read_meets h hm r).mono (fun _ hf => hf) ?_ ?_
  · rintro (_ | d) s
    · rintro ⟨t', hr, hs, hd⟩
      rw [hr] at htail
      exact ⟨hdone s hd, by rw [hs]; exact htail⟩
    · rintro ⟨howed, hf, -⟩
      rw [howed] at htail
      exact ⟨hf hfits, htail⟩
  · intro e s herr
    rw [herr hfits] at htail
    cases htail

/-! ## Reads one after the other -/

/-- Read with each of these sizes in turn, up to the first error. -/
def readEach {α : Type} (read : Nat → ρ → Polled ε α × ρ) :
    List Nat → ρ → Polled ε (List α) × ρ
  | [], r => (.ok [], r)
  | m :: ms, r =>
    andThen (read m r) id fun a r =>
      andThen (readEach read ms r) id fun as r => (.ok (a :: as), r)

/-- What one read preserves, any sequence of reads does. -/
theorem readEach_meets {α : Type} {read : Nat → ρ → Polled ε α × ρ} {I : ρ → Prop}
    {Q : α → Prop} {E : Prop}
    (hstep : ∀ m r, I r → Meets (read m r) {
      pending := fun _ => False
      ok := fun a s => Q a ∧ I s
      err := fun _ _ => E }) (ms : List Nat) {r : ρ} (hr : I r) :
    Meets (readEach read ms r) {
      pending := fun _ => False
      ok := fun as s => (∀ a ∈ as, Q a) ∧ I s
      err := fun _ _ => E } := by
  induction ms generalizing r with
  | nil => exact ⟨by simp, hr⟩
  | cons m ms ih =>
    refine (hstep m r hr).andThen (fun _ h => h) (fun _ _ h => h) ?_
    rintro a s ⟨ha, hs⟩
    refine (ih hs).andThen (fun _ h => h) (fun _ _ h => h) ?_
    rintro as s' ⟨has, hs'⟩
    exact ⟨List.forall_mem_cons.mpr ⟨ha, has⟩, hs'⟩

/-! ## Draining -/

/-- The loop of one poll of a drain: discard what is ready. -/
def drainLoop (poll : ρ → Polled ε (Option (List UInt8)) × ρ) : Nat → ρ → Polled ε Unit × ρ
  | 0, r => (.pending, r)
  | fuel + 1, r =>
    match poll r with
    | (.ok (some _), r) => drainLoop poll fuel r
    | (.ok none, r) => (.ok (), r)
    | (.pending, r) => (.pending, r)
    | (.err e, r) => (.err e, r)
    | (.panic, r) => (.panic, r)

/-- One poll of a drain with reads of `m` bytes. -/
def pollDrain (m : Nat) (r : ρ) : Polled ε Unit × ρ := drainLoop (P.poll m) (P.weight r + 1) r

/-- Poll a drain until it is ready. -/
def drain (m : Nat) (r : ρ) : Polled ε Unit × ρ := blockOn (P.pollDrain m) (P.weight r + 1) r

/-- What a drain comes to. -/
def drainPost (r : ρ) : Post ε Unit ρ where
  pending s := (P.owed s).tail = (P.owed r).tail ∧ (P.Fits r → P.Fits s) ∧ P.weight s < P.weight r
  ok _ s := ∃ t, (P.owed r).tail = some t ∧ P.owed s = .ending t ∧ P.Done s
  err _ _ := P.Fits r → (P.owed r).tail = none

theorem drainLoop_meets {P : Puller ρ ε ω} {lo m : Nat} (h : P.Lawful lo) (hm : lo ≤ m)
    (hpos : 0 < m) (fuel : Nat) (r : ρ) (hfuel : P.weight r < fuel) :
    Meets (drainLoop (P.poll m) fuel r) (P.drainPost r) := by
  induction fuel generalizing r with
  | zero => omega
  | succ fuel ih =>
    have hpost := h m r hm
    rw [drainLoop]
    generalize P.poll m r = x at hpost
    obtain ⟨_ | (_ | d) | e | _, s⟩ := x
    · obtain ⟨howed, hfits, hweight⟩ := hpost
      exact ⟨by rw [howed], hfits, hweight⟩
    · obtain ⟨t, hr, hs, hdone⟩ := hpost
      exact ⟨t, by rw [hr]; rfl, hs, hdone⟩
    -- a block that is dropped is not empty, so the weight goes down
    · obtain ⟨howed, hfits, -, hne, hweight⟩ := hpost
      have hd := List.length_pos_iff.mpr (hne hpos)
      have htail : (P.owed r).tail = (P.owed s).tail := by rw [howed]; rfl
      refine (ih s (by omega)).mono ?_ ?_ ?_
      · rintro s' ⟨ht, hf, hw⟩
        exact ⟨ht.trans htail.symm, hf ∘ hfits, by omega⟩
      · rintro - s' ⟨t, ht, hs', hdone⟩
        exact ⟨t, htail.trans ht, hs', hdone⟩
      · intro e s' herr hf
        exact htail.trans (herr (hfits hf))
    · intro hf
      have hfault : P.owed r = .fault := hpost hf
      rw [hfault]
      rfl
    · exact hpost

/-- A drain is ready in the end, and succeeds exactly when the body is complete. -/
theorem drain_meets {P : Puller ρ ε ω} {lo m : Nat} (h : P.Lawful lo) (hm : lo ≤ m)
    (hpos : 0 < m) (r : ρ) :
    Meets (P.drain m r) { P.drainPost r with pending := fun _ => False } := by
  have hstep : ∀ s, Meets (P.pollDrain m s) (P.drainPost s) := fun s =>
    drainLoop_meets h hm hpos _ s (Nat.lt_succ_self _)
  have hready : (P.drain m r).1 ≠ .pending := by
    refine blockOn_ready (I := fun _ => True) (μ := P.weight) ?_ _ r trivial (Nat.lt_succ_self _)
    intro s s' _ heq
    have hpost := hstep s
    rw [heq] at hpost
    exact ⟨trivial, hpost.2.2⟩
  have hrun : Meets (P.drain m r) { P.drainPost r with
      pending := fun s => (P.owed s).tail = (P.owed r).tail ∧ (P.Fits r → P.Fits s) } := by
    refine blockOn_meets (I := fun s => (P.owed s).tail = (P.owed r).tail ∧
      (P.Fits r → P.Fits s)) rfl ?_ _ ⟨rfl, id⟩
    rintro s ⟨htail, hfits⟩
    refine (hstep s).mono ?_ ?_ ?_
    · rintro s' ⟨ht, hf, -⟩
      exact ⟨ht.trans htail, hf ∘ hfits⟩
    · rintro - s' ⟨t, ht, hs', hdone⟩
      exact ⟨t, htail.symm.trans ht, hs', hdone⟩
    · intro e s' herr hf
      exact htail.symm.trans (herr (hfits hf))
  generalize P.drain m r = x at hready hrun
  obtain ⟨_ | a | e | _, s⟩ := x
  · exact absurd rfl hready
  · exact hrun
  · exact hrun
  · exact hrun

/-! ## Reading to the end -/

/-- Read until the end or an error, the `i`-th read asking for `maxLens i` bytes;
    the answer comes with the data handed out. -/
def readAllFrom (maxLens : Nat → Nat) : Nat → Nat → List UInt8 → ρ →
    Polled ε Unit × List UInt8 × ρ
  | 0, _, acc, r => (.pending, acc, r)
  | fuel + 1, i, acc, r =>
    match P.read (maxLens i) r with
    | (.ok (some d), r) => readAllFrom maxLens fuel (i + 1) (acc ++ d) r
    | (.ok none, r) => (.ok (), acc, r)
    | (.pending, r) => (.pending, acc, r)
    | (.err e, r) => (.err e, acc, r)
    | (.panic, r) => (.panic, acc, r)

/-- Read everything. -/
def readAll (maxLens : Nat → Nat) (r : ρ) : Polled ε Unit × List UInt8 × ρ :=
  P.readAllFrom maxLens (P.weight r + 1) 0 [] r

/-- What reading everything comes to: the data owed, and then the end or the fault. -/
def readAllPost (acc : List UInt8) (r : ρ) : Post ε Unit (List UInt8 × ρ) where
  pending _ := False
  ok _ s := ∃ t, (P.owed r).tail = some t ∧ s.1 = acc ++ (P.owed r).body ∧
    P.owed s.2 = .ending t ∧ P.Done s.2
  err _ s := P.Fits r → (P.owed r).tail = none ∧ s.1 = acc ++ (P.owed r).body

theorem readAllFrom_meets {P : Puller ρ ε ω} {lo : Nat} (h : P.Lawful lo)
    {maxLens : Nat → Nat} (hlo : ∀ i, lo ≤ maxLens i) (hpos : ∀ i, 0 < maxLens i)
    (fuel i : Nat) (acc : List UInt8) (r : ρ) (hfuel : P.weight r < fuel) :
    Meets (P.readAllFrom maxLens fuel i acc r) (P.readAllPost acc r) := by
  induction fuel generalizing i acc r with
  | zero => omega
  | succ fuel ih =>
    have hread := read_meets h (hlo i) r
    rw [readAllFrom]
    generalize P.read (maxLens i) r = x at hread
    obtain ⟨_ | (_ | d) | e | _, s⟩ := x
    · exact hread
    · obtain ⟨t, hr, hs, hdone⟩ := hread
      exact ⟨t, by rw [hr]; rfl, by rw [hr]; simp, hs, hdone⟩
    -- what was read so far and what is still owed are the body in every round
    · obtain ⟨howed, hfits, -, hne, hweight⟩ := hread
      have hd := List.length_pos_iff.mpr (hne (hpos i))
      refine (ih (i + 1) (acc ++ d) s (by omega)).mono (fun _ hf => hf) ?_ ?_
      · rintro - ⟨out, s'⟩ ⟨t, ht, hout, hs', hdone⟩
        refine ⟨t, by rw [howed]; exact ht, ?_, hs', hdone⟩
        rw [hout, howed, Owed.prepend_body, List.append_assoc]
      · rintro e ⟨out, s'⟩ herr hf
        obtain ⟨ht, hout⟩ := herr (hfits hf)
        refine ⟨by rw [howed]; exact ht, ?_⟩
        rw [hout, howed, Owed.prepend_body, List.append_assoc]
    · intro hf
      have hfault : P.owed r = .fault := hread hf
      rw [hfault]
      simp
    · exact hread

/-- Reading everything ends, with exactly the data owed before the end or the
    fault, whatever the read sizes. -/
theorem readAll_meets {P : Puller ρ ε ω} {lo : Nat} (h : P.Lawful lo) {maxLens : Nat → Nat}
    (hlo : ∀ i, lo ≤ maxLens i) (hpos : ∀ i, 0 < maxLens i) (r : ρ) :
    Meets (P.readAll maxLens r) (P.readAllPost [] r) :=
  readAllFrom_meets h hlo hpos _ 0 [] r (Nat.lt_succ_self _)

/-- What every poll keeps of the reader, reading everything keeps. -/
theorem readAll_kept {P : Puller ρ ε ω} {K : ρ → Prop} (hK : ∀ m r, K r → K (P.poll m r).2)
    (maxLens : Nat → Nat) {r : ρ} (hr : K r) : K (P.readAll maxLens r).2.2 := by
  have hfrom : ∀ fuel i acc r, K r → K (P.readAllFrom maxLens fuel i acc r).2.2 := by
    intro fuel
    induction fuel with
    | zero => exact fun i acc r hr => hr
    | succ fuel ih =>
      intro i acc r hr
      have hread : K (P.read (maxLens i) r).2 := blockOn_kept (hK (maxLens i)) _ hr
      rw [readAllFrom]
      generalize P.read (maxLens i) r = x at hread
      obtain ⟨_ | (_ | d) | e | _, s⟩ := x
      · exact hread
      · exact hread
      · exact ih _ _ _ hread
      · exact hread
      · exact hread
  exact hfrom _ _ _ _ hr

end Puller

end PullStream
