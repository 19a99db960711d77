/-
  Jrpxy.Lib.BlockWriter.Ledger

  Block writers in the hands of any caller.

  A caller may make any call at any time: poll too little or too often, write
  with any buffer, move on too early, go on after an error.  `Guarded` is what
  a writer must do all the same: a poll, whatever its answer, accounts for
  the bytes that went out, and a transition succeeds only when nothing is left.

  The ledger says what has gone out since the body began, and which of it the
  caller was told is data: whole blocks (`Wrote`), and of the block at hand a
  beginning of its head, all of its head and some data, or all of its data and
  a beginning of its foot.  Each call of a guarded writer keeps it.
-/
import Jrpxy.Lib.BlockWriter

namespace BlockWriter

open Poll

variable {σ τ ε : Type}

/-! ## Guarded writers -/

/-- A poll, whatever its answer, sends a beginning of what is left. -/
def Advances (M : Medium σ) (view : τ → Framed) (t : τ) (s : σ) (x : Polled ε Unit × τ × σ) :
    Prop :=
  ∃ d, M.wire x.2.2 = M.wire s ++ d ∧ view t = { view x.2.1 with left := d ++ (view x.2.1).left }

/-- A poll sends as much of the buffer as it reports, and nothing unless it is ready. -/
def Takes (M : Medium σ) (view : τ → Writing) (buf : List UInt8) (t : τ) (s : σ)
    (x : Polled ε Nat × τ × σ) : Prop :=
  match x with
  | (.ok n, t', s') => n ≤ buf.length ∧ n ≤ (view t).left ∧ M.wire s' = M.wire s ++ buf.take n ∧
      view t' = { view t with left := (view t).left - n }
  | (_, t', s') => M.wire s' = M.wire s ∧ view t' = view t

theorem Advances.refl (M : Medium σ) (view : τ → Framed) (t : τ) (s : σ) (a : Polled ε Unit) :
    Advances M view t s (a, t, s) :=
  ⟨[], by simp, by simp⟩

/-- What a part accounts for, the whole does, when the whole is seen as the part is. -/
theorem Advances.wrap {τ' ε' : Type} {M : Medium σ} {view : τ → Framed} {view' : τ' → Framed}
    (f : ε → ε') (put : τ → τ') (hview : ∀ t, view' (put t) = view t) {t : τ} {s : σ}
    {x : Polled ε Unit × τ × σ} (h : Advances M view t s x) :
    Advances M view' (put t) s (Poll.wrap f (fun y => (put y.1, y.2)) x) := by
  obtain ⟨d, hwire, hleft⟩ := h
  refine ⟨d, hwire, ?_⟩
  show view' (put t) = { view' (put x.2.1) with left := d ++ (view' (put x.2.1)).left }
  rw [hview, hview]
  exact hleft

theorem Takes.wrap {τ' ε' : Type} {M : Medium σ} {view : τ → Writing} {view' : τ' → Writing}
    (f : ε → ε') (put : τ → τ') (hview : ∀ t, view' (put t) = view t) {buf : List UInt8} {t : τ}
    {s : σ} {x : Polled ε Nat × τ × σ} (h : Takes M view buf t s x) :
    Takes M view' buf (put t) s (Poll.wrap f (fun y => (put y.1, y.2)) x) := by
  obtain ⟨_ | n | e | _, t', s'⟩ := x
  · obtain ⟨hwire, hsame⟩ := h
    exact ⟨hwire, by rw [hview, hview, hsame]⟩
  · obtain ⟨hbuf, hleft, hwire, hsame⟩ := h
    refine ⟨hbuf, ?_, hwire, ?_⟩
    · rw [hview]
      exact hleft
    · rw [hview, hview]
      exact hsame
  · obtain ⟨hwire, hsame⟩ := h
    exact ⟨hwire, by rw [hview, hview, hsame]⟩
  · obtain ⟨hwire, hsame⟩ := h
    exact ⟨hwire, by rw [hview, hview, hsame]⟩

/-- What each call guards, for blocks shorter than `limit`. -/
structure Phases.Guarded (W : Phases σ ε) (M : Medium σ) (limit : Nat) : Prop where
  openBlock : ∀ {n r o}, n < limit → W.openBlock n r = .ok o → (W.idle r).Admits n ∧
    W.opening o = ⟨(W.idle r).spend n, n, (W.idle r).framing.head n⟩
  pollOpen : ∀ o s, Advances M W.opening o s (W.pollOpen o s)
  intoWrite : ∀ {o w}, W.intoWrite o = .ok w → (W.opening o).left = [] ∧
    W.writing w = ⟨(W.opening o).idle, (W.opening o).data, (W.opening o).data⟩
  pollWrite : ∀ buf w s, Takes M W.writing buf w s (W.pollWrite buf w s)
  intoClose : ∀ {w c}, W.intoClose w = .ok c → (W.writing w).left = 0 ∧
    W.closing c = ⟨(W.writing w).idle, 0, (W.writing w).idle.framing.foot (W.writing w).size⟩
  pollClose : ∀ c s, Advances M W.closing c s (W.pollClose c s)
  intoReady : ∀ {c r}, W.intoReady c = .ok r → (W.closing c).left = [] ∧
    W.idle r = (W.closing c).idle

/-! ## The ledger -/

section

variable (start : Idle) (limit : Nat)

/-- Whole blocks went out since `start`, and their data is what the caller was told. -/
def Idle.Wrote (v : Idle) (sent content : List UInt8) : Prop :=
  start.Admits content.length ∧ v = start.spend content.length ∧
    ∃ ds, sent = start.framing.blocks ds ∧ content = ds.flatten ∧ ∀ d ∈ ds, d.length < limit

/-- Behind whole blocks, a beginning of the head of the next one went out. -/
def Framed.Opening (v : Framed) (sent content : List UInt8) : Prop :=
  ∃ idle before begun, Idle.Wrote start limit idle before content ∧ idle.Admits v.data ∧
    v.data < limit ∧ v.idle = idle.spend v.data ∧ sent = before ++ begun ∧
    start.framing.head v.data = begun ++ v.left

/-- Behind the head of a block, some of its data went out. -/
def Writing.Filling (v : Writing) (sent content : List UInt8) : Prop :=
  ∃ idle before told d, Idle.Wrote start limit idle before told ∧ idle.Admits v.size ∧
    v.size < limit ∧ v.idle = idle.spend v.size ∧ content = told ++ d ∧
    sent = before ++ start.framing.head v.size ++ d ∧ d.length + v.left = v.size

/-- Behind the data of a block, a beginning of its foot went out. -/
def Framed.Closing (v : Framed) (sent content : List UInt8) : Prop :=
  ∃ idle before told d begun, Idle.Wrote start limit idle before told ∧ idle.Admits d.length ∧
    d.length < limit ∧ v.idle = idle.spend d.length ∧ content = told ++ d ∧
    sent = before ++ start.framing.head d.length ++ d ++ begun ∧
    start.framing.foot d.length = begun ++ v.left

end

section

variable {start : Idle} {limit : Nat}

/-- At the start nothing has gone out. -/
theorem Idle.Wrote.nil : Idle.Wrote start limit start [] [] := by
  refine ⟨fun _ _ => Nat.zero_le _, ?_, [], rfl, rfl, nofun⟩
  obtain ⟨framing, room⟩ := start
  cases room <;> rfl

/-- Only data uses up room. -/
theorem Idle.Wrote.framing {v : Idle} {sent content : List UInt8}
    (h : Idle.Wrote start limit v sent content) : v.framing = start.framing := by
  rw [h.2.1]
  rfl

theorem Idle.Wrote.opening {v : Idle} {sent content : List UInt8} {n : Nat}
    (h : Idle.Wrote start limit v sent content) (hn : n < limit) (hadmits : v.Admits n) :
    Framed.Opening start limit ⟨v.spend n, n, v.framing.head n⟩ sent content :=
  ⟨v, sent, [], h, hadmits, hn, rfl, (List.append_nil _).symm, by rw [h.framing]; rfl⟩

theorem Framed.Opening.sends {v v' : Framed} {sent content d : List UInt8}
    (h : Framed.Opening start limit v sent content) (hd : v = { v' with left := d ++ v'.left }) :
    Framed.Opening start limit v' (sent ++ d) content := by
  obtain ⟨idle, before, begun, hwrote, hadmits, hn, hidle, rfl, hhead⟩ := h
  subst hd
  refine ⟨idle, before, begun ++ d, hwrote, hadmits, hn, hidle, ?_, ?_⟩
  · rw [List.append_assoc]
  · rw [List.append_assoc]
    exact hhead

theorem Framed.Opening.filling {v : Framed} {sent content : List UInt8}
    (h : Framed.Opening start limit v sent content) (hleft : v.left = []) :
    Writing.Filling start limit ⟨v.idle, v.data, v.data⟩ sent content := by
  obtain ⟨idle, before, begun, hwrote, hadmits, hn, hidle, rfl, hhead⟩ := h
  rw [hleft, List.append_nil] at hhead
  refine ⟨idle, before, content, [], hwrote, hadmits, hn, hidle, ?_, ?_, Nat.zero_add _⟩
  · rw [List.append_nil]
  · rw [List.append_nil, hhead]

theorem Writing.Filling.takes {v : Writing} {sent content d : List UInt8}
    (h : Writing.Filling start limit v sent content) (hd : d.length ≤ v.left) :
    Writing.Filling start limit { v with left := v.left - d.length } (sent ++ d) (content ++ d) := by
  obtain ⟨idle, before, told, d₀, hwrote, hadmits, hn, hidle, rfl, rfl, hlen⟩ := h
  refine ⟨idle, before, told, d₀ ++ d, hwrote, hadmits, hn, hidle, ?_, ?_, ?_⟩
  · rw [List.append_assoc]
  · rw [List.append_assoc]
  · rw [List.length_append]
    show d₀.length + d.length + (v.left - d.length) = v.size
    omega

theorem Writing.Filling.closing {v : Writing} {sent content : List UInt8}
    (h : Writing.Filling start limit v sent content) (hleft : v.left = 0) :
    Framed.Closing start limit ⟨v.idle, 0, v.idle.framing.foot v.size⟩ sent content := by
  obtain ⟨idle, before, told, d, hwrote, hadmits, hn, hidle, hcontent, hsent, hlen⟩ := h
  have hsize : v.size = d.length := by omega
  rw [hsize] at hadmits hn hidle hsent
  refine ⟨idle, before, told, d, [], hwrote, hadmits, hn, hidle, hcontent, ?_, ?_⟩
  · rw [List.append_nil]
    exact hsent
  · show start.framing.foot d.length = v.idle.framing.foot v.size
    rw [hsize, hidle, Idle.spend_framing, hwrote.framing]

theorem Framed.Closing.sends {v v' : Framed} {sent content d : List UInt8}
    (h : Framed.Closing start limit v sent content) (hd : v = { v' with left := d ++ v'.left }) :
    Framed.Closing start limit v' (sent ++ d) content := by
  obtain ⟨idle, before, told, d₀, begun, hwrote, hadmits, hn, hidle, hcontent, rfl, hfoot⟩ := h
  subst hd
  refine ⟨idle, before, told, d₀, begun ++ d, hwrote, hadmits, hn, hidle, hcontent, ?_, ?_⟩
  · rw [List.append_assoc _ begun]
  · rw [List.append_assoc]
    exact hfoot

theorem Framed.Closing.wrote {v : Framed} {sent content : List UInt8}
    (h : Framed.Closing start limit v sent content) (hleft : v.left = []) :
    Idle.Wrote start limit v.idle sent content := by
  obtain ⟨idle, before, told, d, begun, hwrote, hadmits, hn, hidle, rfl, rfl, hfoot⟩ := h
  obtain ⟨hroom, rfl, ds, rfl, rfl, hlen⟩ := hwrote
  rw [hleft, List.append_nil] at hfoot
  refine ⟨?_, ?_, ds ++ [d], ?_, by simp, ?_⟩
  · intro r hr
    have hfirst := hroom r hr
    have hrest := hadmits (r - ds.flatten.length) (by
      rw [Idle.spend, hr]
      rfl)
    rw [List.length_append]
    omega
  · rw [hidle, Idle.spend_spend, List.length_append]
  · rw [Framing.blocks_concat, Framing.block, hfoot]
    simp only [List.append_assoc]
  · intro x hx
    rcases List.mem_append.mp hx with hx | hx
    · exact hlen x hx
    · cases List.mem_singleton.mp hx
      exact hn

end

end BlockWriter
