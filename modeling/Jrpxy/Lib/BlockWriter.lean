/-
  Jrpxy.Lib.BlockWriter

  Writers that frame a body block by block.

  A `Framing` says what stands on the wire in front of and behind a block of
  `n` bytes.  `Relayed F body w` says that the bytes `w` are the beginning of
  a framing of a beginning of `body`: what a writer has sent at any moment.

  A `Phases` is a writer that opens, writes and closes one block at a time,
  each phase a type of its own, with what is still to be sent in each of them
  (the views).  `Lawful` says what one call does to the wire and to the view;
  a `Medium` is where the bytes go.
-/
import Jrpxy.Lib.Polled

namespace BlockWriter

open Poll

/-! ## Framings -/

/-- What stands in front of and behind a block of `n` bytes. -/
structure Framing where
  head : Nat → List UInt8
  foot : Nat → List UInt8

namespace Framing

/-- No framing at all. -/
def plain : Framing := ⟨fun _ => [], fun _ => []⟩

/-- One framed block. -/
def block (F : Framing) (d : List UInt8) : List UInt8 := F.head d.length ++ d ++ F.foot d.length

/-- A sequence of framed blocks. -/
def blocks (F : Framing) (ds : List (List UInt8)) : List UInt8 := ds.flatMap F.block

@[simp] theorem blocks_nil (F : Framing) : F.blocks [] = [] := rfl

theorem blocks_concat (F : Framing) (ds : List (List UInt8)) (d : List UInt8) :
    F.blocks (ds ++ [d]) = F.blocks ds ++ F.block d := by
  simp [blocks]

@[simp] theorem blocks_plain (ds : List (List UInt8)) : plain.blocks ds = ds.flatten := by
  induction ds with
  | nil => rfl
  | cons d ds ih =>
    rw [List.flatten_cons, ← ih]
    simp [blocks, block, plain]

end Framing

/-- `w` begins a framing, in blocks shorter than `limit`, of a beginning of `body`. -/
def Relayed (F : Framing) (limit : Nat) (body w : List UInt8) : Prop :=
  ∃ ds u rest, w ++ u = F.blocks ds ∧ ds.flatten ++ rest = body ∧ ∀ d ∈ ds, d.length < limit

namespace Relayed

variable {F : Framing} {limit : Nat} {body w : List UInt8}

/-- What relays a beginning of a body relays the body. -/
theorem append (h : Relayed F limit body w) (more : List UInt8) :
    Relayed F limit (body ++ more) w := by
  obtain ⟨ds, u, rest, hw, hbody, hlen⟩ := h
  exact ⟨ds, u, rest ++ more, hw, by rw [← List.append_assoc, hbody], hlen⟩

/-- Without framing the wire holds a beginning of the body. -/
theorem plain_isPrefix (h : Relayed .plain limit body w) : w <+: body := by
  obtain ⟨ds, u, rest, hw, hbody, -⟩ := h
  refine ⟨u ++ rest, ?_⟩
  rw [← List.append_assoc, hw, Framing.blocks_plain, hbody]

end Relayed

/-! ## Phases -/

/-- Where bytes are written: what has arrived, and how it behaves. -/
structure Medium (σ : Type) where
  wire : σ → List UInt8
  Accepting : σ → Prop
  weight : σ → Nat

/-- Between two blocks: the framing, and how much more data is admitted, if that is limited. -/
structure Idle where
  framing : Framing
  room : Option Nat

/-- A block being opened or closed: the bytes of its head or foot still to be sent,
    and how much data comes behind them. -/
structure Framed where
  idle : Idle
  data : Nat
  left : List UInt8

/-- A block of `size` bytes being written: how many of them are still to come. -/
structure Writing where
  idle : Idle
  size : Nat
  left : Nat

/-- A writer that opens, writes and closes one block at a time. -/
structure Phases (σ ε : Type) where
  Ready : Type
  Open : Type
  Write : Type
  Close : Type
  openBlock : Nat → Ready → Except ε Open
  pollOpen : Open → σ → Polled ε Unit × Open × σ
  intoWrite : Open → Except ε Write
  pollWrite : List UInt8 → Write → σ → Polled ε Nat × Write × σ
  intoClose : Write → Except ε Close
  pollClose : Close → σ → Polled ε Unit × Close × σ
  intoReady : Close → Except ε Ready
  idle : Ready → Idle
  opening : Open → Framed
  writing : Write → Writing
  closing : Close → Framed

namespace Idle

/-- `n` more bytes are admitted. -/
def Admits (v : Idle) (n : Nat) : Prop := ∀ r ∈ v.room, n ≤ r

/-- After `n` more bytes. -/
def spend (v : Idle) (n : Nat) : Idle := { v with room := v.room.map (· - n) }

theorem spend_spend (v : Idle) (m n : Nat) : (v.spend m).spend n = v.spend (m + n) := by
  simp [spend, Function.comp_def, Nat.sub_sub]

/-- Room for some bytes and more is, after the first, room for the rest. -/
theorem Admits.spend {v : Idle} {m n : Nat} (h : v.Admits (m + n)) : (v.spend m).Admits n := by
  intro k hk
  obtain ⟨r, hr, rfl⟩ := Option.map_eq_some_iff.mp hk
  have hle := h r hr
  omega

@[simp] theorem spend_framing (v : Idle) (n : Nat) : (v.spend n).framing = v.framing := rfl

end Idle

variable {σ τ ε : Type}

/-- Some bytes went out, and nothing else happened to the medium. -/
structure Sends (M : Medium σ) (x : List UInt8) (s s' : σ) : Prop where
  wire : M.wire s' = M.wire s ++ x
  accepting : M.Accepting s → M.Accepting s'
  weight : M.weight s' ≤ M.weight s

namespace Sends

variable {M : Medium σ} {x y : List UInt8} {s s' s'' : σ}

theorem refl (M : Medium σ) (s : σ) : Sends M [] s s := ⟨by simp, id, Nat.le_refl _⟩

theorem trans (h : Sends M x s s') (h' : Sends M y s' s'') : Sends M (x ++ y) s s'' :=
  ⟨by rw [h'.wire, h.wire, List.append_assoc], h'.accepting ∘ h.accepting,
    Nat.le_trans h'.weight h.weight⟩

end Sends

/-- Sending the head or the foot of a block: a poll sends some of what is left,
    and is ready when nothing is. -/
def sendPost (M : Medium σ) (view : τ → Framed) (t : τ) (s : σ) : Post ε Unit (τ × σ) where
  pending := fun (t', s') => ∃ x, Sends M x s s' ∧
    view t = { view t' with left := x ++ (view t').left } ∧ M.weight s' < M.weight s
  ok := fun _ (t', s') => Sends M (view t).left s s' ∧ view t' = { view t with left := [] }
  err := fun _ (_, s') => (∃ x y, (view t).left = x ++ y ∧ M.wire s' = M.wire s ++ x) ∧
    ¬ M.Accepting s

/-- Sending data of a block: a poll sends a beginning of the buffer; when it sends
    nothing the medium is not accepting, and has at least moved on. -/
def dataPost (M : Medium σ) (view : τ → Writing) (buf : List UInt8) (t : τ) (s : σ) :
    Post ε Nat (τ × σ) where
  pending := fun (t', s') => Sends M [] s s' ∧ view t' = view t ∧ M.weight s' < M.weight s
  ok := fun n (t', s') => Sends M (buf.take n) s s' ∧ n ≤ buf.length ∧
    view t' = { view t with left := (view t).left - n } ∧
    (n = 0 → M.weight s' < M.weight s ∧ ¬ M.Accepting s)
  err := fun _ (_, s') => M.wire s' = M.wire s ∧ ¬ M.Accepting s

/-- Sending of a part is sending of the whole, when the whole is seen as the part is. -/
theorem sendPost_wrap {τ' ε' : Type} {M : Medium σ} {view : τ → Framed} {view' : τ' → Framed}
    (f : ε → ε') (put : τ → τ') (hview : ∀ t, view' (put t) = view t) {t : τ} {s : σ}
    {x : Polled ε Unit × τ × σ} (h : Meets x (sendPost M view t s)) :
    Meets (wrap f (fun y => (put y.1, y.2)) x) (sendPost M view' (put t) s) := by
  refine h.wrap ?_ ?_ ?_
  · rintro ⟨t', s'⟩ ⟨x, hx, hsplit, hweight⟩
    refine ⟨x, hx, ?_, hweight⟩
    rw [hview, hview]
    exact hsplit
  · rintro - ⟨t', s'⟩ ⟨hsends, hsplit⟩
    refine ⟨?_, ?_⟩
    · rw [hview]
      exact hsends
    · rw [hview, hview]
      exact hsplit
  · rintro e ⟨t', s'⟩ ⟨hleft, hacc⟩
    refine ⟨?_, hacc⟩
    rw [hview]
    exact hleft

/-- Writing of a part is writing of the whole. -/
theorem dataPost_wrap {τ' ε' : Type} {M : Medium σ} {view : τ → Writing} {view' : τ' → Writing}
    (f : ε → ε') (put : τ → τ') (hview : ∀ t, view' (put t) = view t) {buf : List UInt8}
    {t : τ} {s : σ} {x : Polled ε Nat × τ × σ} (h : Meets x (dataPost M view buf t s)) :
    Meets (wrap f (fun y => (put y.1, y.2)) x) (dataPost M view' buf (put t) s) := by
  refine h.wrap ?_ ?_ (fun _ _ he => he)
  · rintro ⟨t', s'⟩ ⟨hsends, hsame, hweight⟩
    exact ⟨hsends, by rw [hview, hview, hsame], hweight⟩
  · rintro n ⟨t', s'⟩ ⟨hsends, hn, hrest, hzero⟩
    refine ⟨hsends, hn, ?_, hzero⟩
    rw [hview, hview]
    exact hrest

/-- What each call does to the wire and to the view, for blocks shorter than `limit`. -/
structure Phases.Lawful (W : Phases σ ε) (M : Medium σ) (limit : Nat) : Prop where
  openBlock : ∀ {n r}, (W.idle r).Admits n → n < limit → ∃ o, W.openBlock n r = .ok o ∧
    W.opening o = ⟨(W.idle r).spend n, n, (W.idle r).framing.head n⟩
  pollOpen : ∀ o s, Meets (W.pollOpen o s) (sendPost M W.opening o s)
  intoWrite : ∀ {o}, (W.opening o).left = [] → ∃ w, W.intoWrite o = .ok w ∧
    W.writing w = ⟨(W.opening o).idle, (W.opening o).data, (W.opening o).data⟩
  pollWrite : ∀ {buf w} s, buf ≠ [] → buf.length ≤ (W.writing w).left →
    Meets (W.pollWrite buf w s) (dataPost M W.writing buf w s)
  intoClose : ∀ {w}, (W.writing w).left = 0 → ∃ c, W.intoClose w = .ok c ∧
    W.closing c = ⟨(W.writing w).idle, 0, (W.writing w).idle.framing.foot (W.writing w).size⟩
  pollClose : ∀ c s, Meets (W.pollClose c s) (sendPost M W.closing c s)
  intoReady : ∀ {c}, (W.closing c).left = [] → ∃ r, W.intoReady c = .ok r ∧
    W.idle r = (W.closing c).idle

/-! ## Driving a block -/

namespace Phases

variable (W : Phases σ ε) (M : Medium σ)

/-- Poll until the head of the block is sent. -/
def runOpen (o : W.Open) (s : σ) : Polled ε W.Write × σ :=
  andThen (blockOn (fun x : W.Open × σ => W.pollOpen x.1 x.2) (M.weight s + 1) (o, s)) (·.2)
    fun _ x => (.ofExcept (W.intoWrite x.1), x.2)

/-- Write until the buffer is empty; a write of nothing is the error `zero`. -/
def runWriteAll (zero : ε) : Nat → List UInt8 → W.Write → σ → Polled ε W.Write × σ
  | 0, _, w, s => (.ok w, s)
  | fuel + 1, buf, w, s =>
    if buf.isEmpty then (.ok w, s)
    else
      andThen (blockOn (fun x : W.Write × σ => W.pollWrite buf x.1 x.2) (M.weight s + 1) (w, s))
        (·.2) fun n x =>
        if n = 0 then (.err zero, x.2) else runWriteAll zero fuel (buf.drop n) x.1 x.2

/-- Poll until the foot of the block is sent. -/
def runClose (c : W.Close) (s : σ) : Polled ε W.Ready × σ :=
  andThen (blockOn (fun x : W.Close × σ => W.pollClose x.1 x.2) (M.weight s + 1) (c, s)) (·.2)
    fun _ x => (.ofExcept (W.intoReady x.1), x.2)

/-- One block from opening to closing. -/
def runBlock (zero : ε) (d : List UInt8) (r : W.Ready) (s : σ) : Polled ε W.Ready × σ :=
  andThen (.ofExcept (W.openBlock d.length r), s) id fun o s =>
  andThen (W.runOpen M o s) id fun w s =>
  andThen (W.runWriteAll M zero d.length d w s) id fun w s =>
  andThen (.ofExcept (W.intoClose w), s) id fun c s => W.runClose M c s

/-- A sequence of blocks. -/
def runBlocks (zero : ε) : List (List UInt8) → W.Ready → σ → Polled ε W.Ready × σ
  | [], r, s => (.ok r, s)
  | d :: ds, r, s => andThen (W.runBlock M zero d r s) id fun r s => runBlocks zero ds r s

end Phases

section Driving

variable {W : Phases σ ε} {M : Medium σ} {limit : Nat}

/-- Sending what is left to the end, and what else a ready poll establishes. -/
theorem send_meets {poll : τ → σ → Polled ε Unit × τ × σ} (view : τ → Framed) (Q : τ → Prop)
    (hpoll : ∀ t s, Meets (poll t s) { sendPost M view t s with
      ok := fun a x => (sendPost (ε := ε) M view t s).ok a x ∧ Q x.1 }) (t : τ) (s : σ) :
    Meets (blockOn (fun x : τ × σ => poll x.1 x.2) (M.weight s + 1) (t, s)) {
      pending := fun _ => False
      ok := fun _ (t', s') => Sends M (view t).left s s' ∧
        view t' = { view t with left := [] } ∧ Q t'
      err := fun _ _ => ¬ M.Accepting s } := by
  -- every pending poll uses up some of the schedule, so there are fewer of them than fuel
  have hready : (blockOn (fun x : τ × σ => poll x.1 x.2) (M.weight s + 1) (t, s)).1 ≠
      .pending := by
    refine blockOn_ready (I := fun _ => True) (μ := fun x => M.weight x.2) ?_ _ (t, s) trivial
      (Nat.lt_succ_self _)
    rintro ⟨t₁, s₁⟩ ⟨t₂, s₂⟩ _ heq
    have hpost := hpoll t₁ s₁
    simp only at heq
    rw [heq] at hpost
    obtain ⟨x, -, -, hweight⟩ := hpost
    exact ⟨trivial, hweight⟩
  -- what is sent and what is left make up what was to be sent
  have hrun : Meets (blockOn (fun x : τ × σ => poll x.1 x.2) (M.weight s + 1) (t, s)) {
      pending := fun x : τ × σ => ∃ y, Sends M y s x.2 ∧
        view t = { view x.1 with left := y ++ (view x.1).left }
      ok := fun _ x => Sends M (view t).left s x.2 ∧ view x.1 = { view t with left := [] } ∧
        Q x.1
      err := fun _ _ => ¬ M.Accepting s } := by
    refine blockOn_meets rfl ?_ _ ⟨[], Sends.refl M s, rfl⟩
    rintro ⟨t₁, s₁⟩ ⟨y, hy, hview⟩
    refine (hpoll t₁ s₁).mono ?_ ?_ ?_
    · rintro ⟨t₂, s₂⟩ ⟨x, hx, hview', -⟩
      refine ⟨y ++ x, hy.trans hx, ?_⟩
      simp only at hview
      rw [hview, hview', List.append_assoc]
    · rintro - ⟨t₂, s₂⟩ ⟨⟨hx, hview'⟩, hQ⟩
      simp only at hview
      refine ⟨?_, ?_, hQ⟩
      · rw [hview]
        exact hy.trans hx
      · simp only
        rw [hview', hview]
    · rintro e ⟨t₂, s₂⟩ ⟨-, hacc⟩
      exact fun h => hacc (hy.accepting h)
  generalize blockOn (fun x : τ × σ => poll x.1 x.2) (M.weight s + 1) (t, s) = x at hready hrun
  obtain ⟨_ | a | e | _, t', s'⟩ := x
  · exact absurd rfl hready
  · exact hrun
  · exact hrun
  · exact hrun

/-- A poll that sends nothing while it waits, polled until it is ready. -/
theorem blockOn_quiet {α : Type} {poll : σ → Polled ε α × σ} (Q : σ → α → σ → Prop)
    (hQ : ∀ {s s' a s''}, Sends M [] s s' → Q s' a s'' → Q s a s'')
    (hpoll : ∀ s, Meets (poll s) {
      pending := fun s' => Sends M [] s s' ∧ M.weight s' < M.weight s
      ok := Q s
      err := fun _ _ => ¬ M.Accepting s }) (s : σ) :
    Meets (blockOn poll (M.weight s + 1) s) {
      pending := fun _ => False
      ok := Q s
      err := fun _ _ => ¬ M.Accepting s } := by
  have hready : (blockOn poll (M.weight s + 1) s).1 ≠ .pending := by
    refine blockOn_ready (I := fun _ => True) (μ := M.weight) ?_ _ s trivial (Nat.lt_succ_self _)
    intro s₁ s₂ _ heq
    have hpost := hpoll s₁
    rw [heq] at hpost
    exact ⟨trivial, hpost.2⟩
  have hrun : Meets (blockOn poll (M.weight s + 1) s) {
      pending := fun s' => Sends M [] s s'
      ok := Q s
      err := fun _ _ => ¬ M.Accepting s } := by
    refine blockOn_meets rfl ?_ _ (Sends.refl M s)
    intro s₁ hsends
    refine (hpoll s₁).mono ?_ ?_ ?_
    · exact fun s₂ h => hsends.trans h.1
    · exact fun a s₂ h => hQ hsends h
    · exact fun _ _ hacc h => hacc (hsends.accepting h)
  generalize blockOn poll (M.weight s + 1) s = x at hready hrun
  obtain ⟨_ | a | e | _, s'⟩ := x
  · exact absurd rfl hready
  · exact hrun
  · exact hrun
  · exact hrun

/-- Sending the head or the foot of a block to the end. -/
theorem send_framed {poll : τ → σ → Polled ε Unit × τ × σ} {view : τ → Framed}
    (hpoll : ∀ t s, Meets (poll t s) (sendPost M view t s)) (t : τ) (s : σ) :
    Meets (blockOn (fun x : τ × σ => poll x.1 x.2) (M.weight s + 1) (t, s)) {
      pending := fun _ => False
      ok := fun _ (t', s') => Sends M (view t).left s s' ∧ view t' = { view t with left := [] }
      err := fun _ _ => ¬ M.Accepting s } :=
  (send_meets view (fun _ => True) (fun t s => (hpoll t s).mono (fun _ h => h)
    (fun _ _ h => ⟨h, trivial⟩) (fun _ _ h => h)) t s).mono (fun _ h => h)
    (fun _ _ h => ⟨h.1, h.2.1⟩) (fun _ _ h => h)

/-- When the buffer is empty, the block is written. -/
theorem wrote_all {buf : List UInt8} {w : W.Write} (hnil : buf = [])
    (hlen : buf.length = (W.writing w).left) (s : σ) :
    Sends M buf s s ∧ W.writing w = { W.writing w with left := 0 } := by
  subst hnil
  refine ⟨Sends.refl M s, ?_⟩
  rw [← show (W.writing w).left = 0 from hlen.symm]

variable (hW : W.Lawful M limit)
include hW

theorem runOpen_meets (o : W.Open) (s : σ) :
    Meets (W.runOpen M o s) {
      pending := fun _ => False
      ok := fun w s' => Sends M (W.opening o).left s s' ∧
        W.writing w = ⟨(W.opening o).idle, (W.opening o).data, (W.opening o).data⟩
      err := fun _ _ => ¬ M.Accepting s } := by
  refine (send_framed hW.pollOpen o s).andThen (fun _ h => h) (fun _ _ h => h) ?_
  rintro - ⟨o', s'⟩ ⟨hsends, hview⟩
  obtain ⟨w, hw, hwview⟩ := hW.intoWrite (o := o') (by rw [hview])
  simp only [hw, Polled.ofExcept_ok]
  refine ⟨hsends, ?_⟩
  rw [hwview, hview]

theorem runClose_meets (c : W.Close) (s : σ) :
    Meets (W.runClose M c s) {
      pending := fun _ => False
      ok := fun r s' => Sends M (W.closing c).left s s' ∧ W.idle r = (W.closing c).idle
      err := fun _ _ => ¬ M.Accepting s } := by
  refine (send_framed hW.pollClose c s).andThen (fun _ h => h) (fun _ _ h => h) ?_
  rintro - ⟨c', s'⟩ ⟨hsends, hview⟩
  obtain ⟨r, hr, hidle⟩ := hW.intoReady (c := c') (by rw [hview])
  simp only [hr, Polled.ofExcept_ok]
  refine ⟨hsends, ?_⟩
  rw [hidle, hview]

/-- One ready answer of the write phase. -/
theorem write_meets {buf : List UInt8} {w : W.Write} (hne : buf ≠ [])
    (hlen : buf.length ≤ (W.writing w).left) (s : σ) :
    Meets (blockOn (fun x : W.Write × σ => W.pollWrite buf x.1 x.2) (M.weight s + 1) (w, s)) {
      pending := fun _ => False
      ok := fun n (w', s') => Sends M (buf.take n) s s' ∧ n ≤ buf.length ∧
        W.writing w' = { W.writing w with left := (W.writing w).left - n } ∧
        (n = 0 → ¬ M.Accepting s)
      err := fun _ _ => ¬ M.Accepting s } := by
  have hready : (blockOn (fun x : W.Write × σ => W.pollWrite buf x.1 x.2) (M.weight s + 1)
      (w, s)).1 ≠ .pending := by
    refine blockOn_ready (I := fun x => W.writing x.1 = W.writing w) (μ := fun x => M.weight x.2)
      ?_ _ (w, s) rfl (Nat.lt_succ_self _)
    rintro ⟨w₁, s₁⟩ ⟨w₂, s₂⟩ hview heq
    simp only at hview heq
    have hpost := hW.pollWrite s₁ hne (w := w₁) (by rw [hview]; exact hlen)
    rw [heq] at hpost
    obtain ⟨-, hview', hweight⟩ := hpost
    exact ⟨hview'.trans hview, hweight⟩
  -- a poll that waits has sent nothing and left the block as it was
  have hrun : Meets (blockOn (fun x : W.Write × σ => W.pollWrite buf x.1 x.2) (M.weight s + 1)
      (w, s)) {
      pending := fun x => Sends M [] s x.2 ∧ W.writing x.1 = W.writing w
      ok := fun n (w', s') => Sends M (buf.take n) s s' ∧ n ≤ buf.length ∧
        W.writing w' = { W.writing w with left := (W.writing w).left - n } ∧
        (n = 0 → ¬ M.Accepting s)
      err := fun _ _ => ¬ M.Accepting s } := by
    refine blockOn_meets rfl ?_ _ ⟨Sends.refl M s, rfl⟩
    rintro ⟨w₁, s₁⟩ ⟨hsends, hview⟩
    simp only at hview
    refine (hW.pollWrite s₁ hne (by rw [hview]; exact hlen)).mono ?_ ?_ ?_
    · rintro ⟨w₂, s₂⟩ ⟨hsends', hview', -⟩
      exact ⟨hsends.trans hsends', hview'.trans hview⟩
    · rintro n ⟨w₂, s₂⟩ ⟨hsends', hn, hview', hzero⟩
      refine ⟨hsends.trans hsends', hn, ?_, fun h0 hacc => (hzero h0).2 (hsends.accepting hacc)⟩
      rw [hview', hview]
    · rintro e ⟨w₂, s₂⟩ ⟨-, hacc⟩
      exact fun h => hacc (hsends.accepting h)
  generalize blockOn (fun x : W.Write × σ => W.pollWrite buf x.1 x.2) (M.weight s + 1) (w, s) = x
    at hready hrun
  obtain ⟨_ | a | e | _, w', s'⟩ := x
  · exact absurd rfl hready
  · exact hrun
  · exact hrun
  · exact hrun

theorem runWriteAll_meets (zero : ε) (fuel : Nat) {buf : List UInt8} {w : W.Write} (s : σ)
    (hfuel : buf.length ≤ fuel) (hlen : buf.length = (W.writing w).left) :
    Meets (W.runWriteAll M zero fuel buf w s) {
      pending := fun _ => False
      ok := fun w' s' => Sends M buf s s' ∧ W.writing w' = { W.writing w with left := 0 }
      err := fun _ _ => ¬ M.Accepting s } := by
  induction fuel generalizing buf w s with
  | zero => exact wrote_all (List.length_eq_zero_iff.mp (Nat.le_zero.mp hfuel)) hlen s
  | succ fuel ih =>
    rw [Phases.runWriteAll]
    by_cases hne : buf = []
    · rw [if_pos (by simp [hne])]
      exact wrote_all hne hlen s
    · rw [if_neg (by simp [hne])]
      refine (write_meets hW hne (Nat.le_of_eq hlen) s).andThen (fun _ h => h) (fun _ _ h => h) ?_
      rintro n ⟨w', s'⟩ ⟨hsends, hn, hview, hzero⟩
      by_cases h0 : n = 0
      · simp only [h0, if_true]
        exact hzero h0
      · simp only [h0, if_false]
        refine (ih s' (by rw [List.length_drop]; omega)
          (by rw [List.length_drop, hview, hlen])).mono (fun _ h => h) ?_ ?_
        · rintro w'' s'' ⟨hsends', hview'⟩
          refine ⟨?_, ?_⟩
          · rw [← List.take_append_drop n buf]
            exact hsends.trans hsends'
          · rw [hview', hview]
        · exact fun _ _ hacc h => hacc (hsends.accepting h)

/-- A block that is admitted goes out framed, or the medium is not accepting. -/
theorem runBlock_meets (zero : ε) {d : List UInt8} {r : W.Ready}
    (hroom : (W.idle r).Admits d.length) (hlen : d.length < limit) (s : σ) :
    Meets (W.runBlock M zero d r s) {
      pending := fun _ => False
      ok := fun r' s' => Sends M ((W.idle r).framing.block d) s s' ∧
        W.idle r' = (W.idle r).spend d.length
      err := fun _ _ => ¬ M.Accepting s } := by
  obtain ⟨o, ho, hoview⟩ := hW.openBlock hroom hlen
  simp only [Phases.runBlock, ho, Polled.ofExcept_ok, andThen_ok]
  refine (runOpen_meets hW o s).andThen (fun _ h => h) (fun _ _ h => h) ?_
  rintro w s₁ ⟨hsends, hwview⟩
  rw [hoview] at hsends hwview
  refine (runWriteAll_meets hW zero _ s₁ (Nat.le_refl _) (by rw [hwview])).andThen (fun _ h => h)
    (fun _ _ hacc h => hacc (hsends.accepting h)) ?_
  rintro w' s₂ ⟨hsends', hwview'⟩
  have hall := hsends.trans hsends'
  obtain ⟨c, hc, hcview⟩ := hW.intoClose (w := w') (by rw [hwview'])
  simp only [hc, Polled.ofExcept_ok, andThen_ok]
  refine (runClose_meets hW c s₂).mono (fun _ h => h) ?_
    (fun _ _ hacc h => hacc (hall.accepting h))
  rintro r' s₃ ⟨hsends'', hidle⟩
  rw [hcview, hwview', hwview] at hsends'' hidle
  exact ⟨hall.trans hsends'', hidle⟩

/-- Blocks that are admitted go out framed one after the other. -/
theorem runBlocks_meets (zero : ε) {ds : List (List UInt8)} {r : W.Ready}
    (hroom : (W.idle r).Admits ds.flatten.length) (hlen : ∀ d ∈ ds, d.length < limit) (s : σ) :
    Meets (W.runBlocks M zero ds r s) {
      pending := fun _ => False
      ok := fun r' s' => Sends M ((W.idle r).framing.blocks ds) s s' ∧
        W.idle r' = (W.idle r).spend ds.flatten.length
      err := fun _ _ => ¬ M.Accepting s } := by
  induction ds generalizing r s with
  | nil => exact ⟨Sends.refl M s, by simp [Idle.spend]⟩
  | cons d ds ih =>
    simp only [List.flatten_cons, List.length_append] at hroom ⊢
    have hfirst : (W.idle r).Admits d.length := fun k hk => by
      have := hroom k hk
      omega
    refine (runBlock_meets hW zero hfirst (hlen d List.mem_cons_self) s).andThen (fun _ h => h)
      (fun _ _ h => h) ?_
    rintro r' s' ⟨hsends, hidle⟩
    have hrest : (W.idle r').Admits ds.flatten.length := hidle ▸ Idle.Admits.spend hroom
    refine (ih hrest (fun e he => hlen e (List.mem_cons_of_mem d he)) s').mono (fun _ h => h) ?_
      (fun _ _ hacc h => hacc (hsends.accepting h))
    rintro r'' s'' ⟨hsends', hidle'⟩
    rw [hidle] at hsends' hidle'
    refine ⟨hsends.trans hsends', ?_⟩
    rw [hidle', Idle.spend_spend]

end Driving

end BlockWriter
