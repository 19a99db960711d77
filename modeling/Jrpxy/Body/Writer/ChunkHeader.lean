/-
  Jrpxy.Body.Writer.ChunkHeader

  The chunk header in its buffer of eighteen bytes.

  `Chunked.Open` holds the line that is sent and counts in natural numbers.
  Here it is the struct of the source: an array that is formatted into, a
  length and a counter of one byte each, and a loop that sends a slice of the
  array.  It sends what `Chunked.Open` sends (`pollOpen_toOpen`), and the
  counters are exact in every state of a run (`Reaches.sent`).
-/
import Mathlib.Data.List.TakeDrop
import Mathlib.Logic.Relation
import Jrpxy.Lib.Cursor
import Jrpxy.Body.Coding
import Jrpxy.Body.Writer.Guards

namespace Jrpxy.Body.Writer.ChunkHeader

open Poll BlockWriter Ascii Util Relation
open Chunked (maxChunkHeadLen sizeLine wrapU8)

/-- Open state: the chunk header, formatted into an array. -/
structure Open where
  header : Bytes
  headerLen : UInt8
  written : UInt8
  chunkLength : UInt64
  /-- The type of the array. -/
  header_length : header.length = maxChunkHeadLen
  deriving DecidableEq, Repr

/-- What `write!(cursor, "{chunk_length:x}\r\n")` writes, piece by piece. -/
def headerPieces (chunkLength : UInt64) : List Bytes :=
  [digits 16 chunkLength.toNat, ascii "\r\n"]

namespace Open

/-- `none` when the header does not fit, where the source panics. -/
def new (chunkLength : UInt64) : Option Open :=
  if chunkLength = 0 then
    some ⟨List.replicate maxChunkHeadLen 0, 0, 0, chunkLength, List.length_replicate⟩
  else
    (Cursor.writePieces (headerPieces chunkLength) (.new 0)).map fun cursor =>
      ⟨cursor.inner, UInt8.ofNat cursor.position, 0, chunkLength, cursor.length_inner⟩

/-- Transition to `Write`. -/
def intoWrite (self : Open) : Except BodyError Chunked.Write :=
  if self.written < self.headerLen then
    .error (.incompleteChunkHeader self.headerLen.toNat self.written.toNat)
  else .ok ⟨self.chunkLength, 0⟩

/-- The valid bytes of the array. -/
def line (self : Open) : Bytes := self.header.take self.headerLen.toNat

/-- `&self.header[self.written..self.header_len]`; `none` when it is out of bounds. -/
def unwritten (self : Open) : Option Bytes :=
  if self.written ≤ self.headerLen ∧ self.headerLen.toNat ≤ self.header.length then
    some (self.line.drop self.written.toNat)
  else none

/-- One round of the loop of `poll_open`: an answer, or the state of the next round. -/
def round (self : Open) (sink : Sink) :
    (Polled BodyError Unit × Open × Sink) ⊕ (Open × Sink) :=
  if self.written < self.headerLen then
    match self.unwritten with
    | none => .inl (.panic, self, sink)
    | some buf =>
      match sink.pollWrite buf with
      | (.ok 0, sink) => .inl (.err (.bodyWriteError .writeZero), self, sink)
      | (.ok w, sink) => .inr ({ self with written := self.written + UInt8.ofNat w }, sink)
      | (.err e, sink) => .inl (.err (.bodyWriteError e), self, sink)
      | (.pending, sink) => .inl (.pending, self, sink)
      | (.panic, sink) => .inl (.panic, self, sink)
  else .inl (.ok (), self, sink)

/-- The loop of `poll_open`. -/
def rounds : Nat → Open → Sink → Polled BodyError Unit × Open × Sink
  | 0, self, sink => (.panic, self, sink)
  | fuel + 1, self, sink =>
    match self.round sink with
    | .inl answer => answer
    | .inr (self, sink) => rounds fuel self sink

/-- Every round but the last sends at least one of the valid bytes. -/
def pollOpen (self : Open) (sink : Sink) : Polled BodyError Unit × Open × Sink :=
  rounds (maxChunkHeadLen + 1) self sink

/-! ## Formatting -/

/-- What is opened for a chunk with data: its size line, counted right, none of it sent. -/
structure Holds (n : UInt64) (o : Open) : Prop where
  line : o.line = sizeLine n.toNat
  headerLen : o.headerLen.toNat = (sizeLine n.toNat).length
  written : o.written = 0
  chunkLength : o.chunkLength = n

/-- The size line of a `u64` fits the array, and its length the counter. -/
theorem new_holds {chunkLength : UInt64} (hpos : chunkLength ≠ 0) :
    ∃ self, new chunkLength = some self ∧ Holds chunkLength self := by
  have hflatten : (headerPieces chunkLength).flatten = sizeLine chunkLength.toNat := by
    simp [headerPieces, sizeLine]
  have hfits := Chunked.length_sizeLine_le chunkLength
  obtain ⟨cursor, hcursor, hposition, hfilled⟩ :=
    @Cursor.writePieces_eq UInt8 maxChunkHeadLen (headerPieces chunkLength) (.new 0)
      (by rw [hflatten]; exact Nat.le_trans (Nat.le_of_eq (Nat.zero_add _)) hfits)
  rw [hflatten] at hposition hfilled
  have hlen : cursor.position = (sizeLine chunkLength.toNat).length :=
    hposition.trans (Nat.zero_add _)
  -- eighteen is a `u8`
  have hcount : (UInt8.ofNat cursor.position).toNat = cursor.position := by
    have hmax : maxChunkHeadLen = 18 := rfl
    rw [UInt8.toNat_ofNat']
    exact Nat.mod_eq_of_lt (by omega)
  refine ⟨⟨cursor.inner, UInt8.ofNat cursor.position, 0, chunkLength, cursor.length_inner⟩, ?_, ?_⟩
  · rw [new, if_neg hpos, hcursor]
    rfl
  · refine ⟨?_, hcount.trans hlen, rfl, rfl⟩
    show cursor.inner.take (UInt8.ofNat cursor.position).toNat = _
    rw [hcount]
    exact hfilled

/-! ## Sending -/

/-- The length does not go beyond the array. -/
def Fits (self : Open) : Prop := self.headerLen.toNat ≤ maxChunkHeadLen

theorem Holds.fits {chunkLength : UInt64} {self : Open} (h : Holds chunkLength self) : self.Fits := by
  rw [Fits, h.headerLen]
  exact Chunked.length_sizeLine_le chunkLength

theorem length_line {self : Open} (hfits : self.Fits) : self.line.length = self.headerLen.toNat := by
  rw [line, List.length_take, self.header_length]
  exact Nat.min_eq_left hfits

/-- A counter that stays within the length does not wrap. -/
theorem toNat_add_written {self : Open} {w : Nat}
    (hle : self.written.toNat + w ≤ self.headerLen.toNat) :
    (UInt8.ofNat w).toNat = w ∧
      (self.written + UInt8.ofNat w).toNat = self.written.toNat + w := by
  have hlt := self.headerLen.toNat_lt
  have hw : (UInt8.ofNat w).toNat = w := by
    rw [UInt8.toNat_ofNat']
    exact Nat.mod_eq_of_lt (by omega)
  refine ⟨hw, ?_⟩
  rw [UInt8.toNat_add, hw]
  exact Nat.mod_eq_of_lt (by omega)

theorem unwritten_eq {self : Open} (hfits : self.Fits)
    (hle : self.written.toNat ≤ self.headerLen.toNat) :
    self.unwritten = some (self.line.drop self.written.toNat) := by
  refine if_pos ⟨UInt8.le_iff_toNat_le.mpr hle, ?_⟩
  rw [self.header_length]
  exact hfits

/-- What a round can do: answer when everything is sent, send some bytes of what is left and
    count them, or answer without having sent any. -/
theorem round_cases {self : Open} (hfits : self.Fits) (s : Sink) :
    (self.headerLen.toNat ≤ self.written.toNat ∧ self.round s = .inl (.ok (), self, s)) ∨
    (∃ w s', 0 < w ∧ self.written.toNat + w ≤ self.headerLen.toNat ∧
      s.pollWrite (self.line.drop self.written.toNat) = (.ok w, s') ∧
      s'.wire = s.wire ++ (self.line.drop self.written.toNat).take w ∧
      self.round s = .inr ({ self with written := self.written + UInt8.ofNat w }, s')) ∨
    (∃ answer s', (answer = .pending ∨ ∃ e, answer = .err e) ∧ s'.wire = s.wire ∧
      self.written.toNat < self.headerLen.toNat ∧ self.round s = .inl (answer, self, s')) := by
  by_cases hlt : self.written < self.headerLen
  · have hltNat := UInt8.lt_iff_toNat_lt.mp hlt
    have hunwritten := unwritten_eq hfits (Nat.le_of_lt hltNat)
    have hpoll := Sink.pollWrite_meets (self.line.drop self.written.toNat) s
    simp only [round, if_pos hlt, hunwritten]
    generalize s.pollWrite (self.line.drop self.written.toNat) = x at hpoll
    obtain ⟨_ | w | e | _, s'⟩ := x
    · exact .inr (.inr ⟨_, s', .inl rfl, hpoll.1, hltNat, rfl⟩)
    · obtain ⟨hle, hwire, -⟩ := hpoll
      rw [List.length_drop, length_line hfits] at hle
      -- `WriteZero` when the sink takes nothing
      cases w with
      | zero => exact .inr (.inr ⟨_, s', .inr ⟨_, rfl⟩, by simpa using hwire, hltNat, rfl⟩)
      | succ w => exact .inr (.inl ⟨w + 1, s', Nat.succ_pos w, by omega, rfl, hwire, rfl⟩)
    · exact .inr (.inr ⟨_, s', .inr ⟨_, rfl⟩, hpoll.1, hltNat, rfl⟩)
    · exact hpoll.elim
  · refine .inl ⟨?_, if_neg hlt⟩
    rw [UInt8.lt_iff_toNat_lt] at hlt
    omega

/-! ## As a line and a number -/

/-- The line that is sent, and how much of it. -/
def toOpen (self : Open) : Chunked.Open :=
  ⟨self.line, self.written.toNat, self.chunkLength,
    Nat.le_trans (List.length_take_le' _ _) (Nat.le_of_eq self.header_length)⟩

theorem Holds.toOpen {chunkLength : UInt64} {self : Open} (h : Holds chunkLength self)
    (hpos : chunkLength ≠ 0) : self.toOpen = Chunked.Open.new chunkLength := by
  rw [Chunked.Open.new, if_neg hpos]
  simp only [Open.toOpen, h.line, h.written, h.chunkLength]
  rfl

/-- The rounds are those on the line, under a counter of type `Nat` that wraps. -/
theorem rounds_eq {self : Open} (hfits : self.Fits) (s : Sink) {fuel k : Nat}
    (hfuel : self.headerLen.toNat - self.written.toNat < fuel)
    (hk : self.headerLen.toNat - self.written.toNat ≤ k) :
    ∃ written, (self.rounds fuel s).2.1 = { self with written } ∧
      pollSendLoop wrapU8 self.line k self.written.toNat s =
        ((self.rounds fuel s).1, written.toNat, (self.rounds fuel s).2.2) := by
  induction fuel generalizing self s k with
  | zero => omega
  | succ fuel ih =>
    have hlen := length_line hfits
    by_cases hlt : self.written.toNat < self.headerLen.toNat
    · cases k with
      | zero => omega
      -- both loops write the same bytes, and see the same answer
      | succ k =>
        have hlt' : self.written < self.headerLen := UInt8.lt_iff_toNat_lt.mpr hlt
        have hunwritten := unwritten_eq hfits (Nat.le_of_lt hlt)
        have hpoll := Sink.pollWrite_meets (self.line.drop self.written.toNat) s
        simp only [rounds, round, if_pos hlt', hunwritten, pollSendLoop, hlen, if_pos hlt]
        generalize s.pollWrite (self.line.drop self.written.toNat) = x at hpoll
        obtain ⟨_ | w | e | _, s'⟩ := x
        · exact ⟨self.written, rfl, rfl⟩
        · cases w with
          | zero => exact ⟨self.written, rfl, rfl⟩
          | succ w =>
            obtain ⟨hle, -⟩ := hpoll
            rw [List.length_drop, hlen] at hle
            have hsum := (@toNat_add_written self (w + 1) (by omega)).2
            obtain ⟨written, hself, hloop⟩ :=
              @ih { self with written := self.written + UInt8.ofNat (w + 1) } hfits s' k
                (by simp only [hsum]; omega) (by simp only [hsum]; omega)
            refine ⟨written, hself, ?_⟩
            -- a counter within the line does not wrap
            have hwrap := @Chunked.wrapU8_eq self.line (by rw [hlen]; exact hfits)
              (self.written.toNat + (w + 1)) (by omega)
            simp only [hsum] at hloop
            simp only [hwrap]
            exact hloop
        · exact ⟨self.written, rfl, rfl⟩
        · exact hpoll.elim
    · have hdone : ¬ self.written < self.headerLen := by rwa [UInt8.lt_iff_toNat_lt]
      refine ⟨self.written, by rw [rounds, round, if_neg hdone], ?_⟩
      cases k with
      | zero => rw [rounds, round, if_neg hdone, pollSendLoop]
      | succ k => rw [rounds, round, if_neg hdone, pollSendLoop, if_neg (by omega)]

/-- A poll is one of `Chunked.Open`. -/
theorem pollOpen_toOpen {self : Open} (hfits : self.Fits) (s : Sink) :
    ∃ written, (self.pollOpen s).2.1 = { self with written } ∧
      self.toOpen.pollOpen s =
        ((self.pollOpen s).1, (self.pollOpen s).2.1.toOpen, (self.pollOpen s).2.2) := by
  have hmax : self.headerLen.toNat ≤ maxChunkHeadLen := hfits
  have hlen := length_line hfits
  obtain ⟨written, hself, hloop⟩ := @rounds_eq self hfits s (maxChunkHeadLen + 1)
    (self.line.length - self.written.toNat) (by omega) (by omega)
  refine ⟨written, hself, ?_⟩
  rw [← pollOpen] at hself hloop
  rw [Chunked.Open.pollOpen, pollSend]
  simp only [toOpen, hloop, hself]
  rfl

/-- One poll sends what is left, or fails, or has waited for the sink. -/
theorem pollOpen_meets {self : Open} (hfits : self.Fits) (s : Sink) :
    Meets (self.pollOpen s) {
      pending := fun _ => True
      ok := fun _ x => x.2.wire = s.wire ++ self.line.drop self.written.toNat
      err := fun _ _ => ¬ s.Accepting } := by
  obtain ⟨written, -, hsame⟩ := pollOpen_toOpen hfits s
  have hsame : Chunked.phases.pollOpen self.toOpen s =
    ((self.pollOpen s).1, (self.pollOpen s).2.1.toOpen, (self.pollOpen s).2.2) := hsame
  have hopen := Chunked.phases_lawful.pollOpen self.toOpen s
  rw [hsame] at hopen
  generalize self.pollOpen s = x at hopen
  obtain ⟨_ | _ | e | _, o, s'⟩ := x
  · trivial
  · exact hopen.1.wire
  · exact hopen.2
  · exact hopen

/-- Polled until it is ready, it answers as `Chunked.Open` does. -/
theorem blockOn_toOpen (fuel : Nat) {self : Open} (hfits : self.Fits) (s : Sink) :
    (blockOn (fun x : Chunked.Open × Sink => x.1.pollOpen x.2) fuel (self.toOpen, s)).1 =
      (blockOn (fun x : Open × Sink => x.1.pollOpen x.2) fuel (self, s)).1 := by
  induction fuel generalizing self s with
  | zero => rfl
  | succ fuel ih =>
    obtain ⟨written, hself, hsame⟩ := pollOpen_toOpen hfits s
    rw [blockOn, blockOn]
    simp only [hsame]
    generalize self.pollOpen s = x at hself
    obtain ⟨_ | _ | e | _, o, s'⟩ := x
    · obtain rfl := hself
      exact @ih { self with written } hfits s'
    · rfl
    · rfl
    · rfl

/-- A sink that accepts bytes takes the whole header. -/
theorem accepted {self : Open} (hfits : self.Fits) {s : Sink} (hs : s.Accepting) :
    (blockOn (fun x : Open × Sink => x.1.pollOpen x.2) (s.weight + 1) (self, s)).1 = .ok () := by
  have hrun := send_meets (M := medium) Chunked.phases.opening
    (fun _ => True) (fun t s => (Chunked.phases_lawful.pollOpen t s).mono (fun _ h => h)
      (fun _ _ h => ⟨h, trivial⟩) (fun _ _ h => h)) self.toOpen s
  have hsame := blockOn_toOpen (s.weight + 1) hfits s
  rw [← hsame]
  change Meets (blockOn (fun x : Chunked.Open × Sink => x.1.pollOpen x.2) (s.weight + 1)
    (self.toOpen, s)) _ at hrun
  generalize blockOn (fun x : Chunked.Open × Sink => x.1.pollOpen x.2) (s.weight + 1)
    (self.toOpen, s) = x at hrun ⊢
  obtain ⟨_ | _ | e | _, y⟩ := x
  · exact hrun.elim
  · rfl
  · exact absurd hs hrun
  · exact hrun.elim

/-! ## Runs -/

/-- The state behind a round, whether it answers or goes on. -/
def next (o : Open) (s : Sink) : Open × Sink :=
  match o.round s with
  | .inl (_, x) => x
  | .inr x => x

/-- One round; behind one that answers the caller polls again, or does not. -/
inductive Step : Open × Sink → Open × Sink → Prop where
  | mk (o : Open) (s : Sink) : Step (o, s) (o.next s)

/-- The states of any polls, one after the other. -/
abbrev Reaches : Open × Sink → Open × Sink → Prop := ReflTransGen Step

/-- The header is what it was, and as much of it is on the wire as is counted. -/
structure Sent (start : Open × Sink) (x : Open × Sink) : Prop where
  header : x.1.header = start.1.header
  headerLen : x.1.headerLen = start.1.headerLen
  chunkLength : x.1.chunkLength = start.1.chunkLength
  written_le : x.1.written ≤ x.1.headerLen
  wire : x.2.wire = start.2.wire ++ start.1.line.take x.1.written.toNat

theorem Sent.line {start x : Open × Sink} (h : Sent start x) : x.1.line = start.1.line := by
  rw [Open.line, Open.line, h.header, h.headerLen]

theorem Sent.fits {start x : Open × Sink} (h : Sent start x) (hfits : start.1.Fits) : x.1.Fits := by
  rw [Fits, h.headerLen]
  exact hfits

/-- Every round sends what it counts. -/
theorem Step.sent {start x y : Open × Sink} (hfits : start.1.Fits) (hx : Sent start x)
    (hstep : Step x y) : Sent start y := by
  obtain ⟨hheader, hheaderLen, hchunkLength, hle, hwire⟩ := id hx
  obtain ⟨o, s⟩ := hstep
  unfold next
  rcases round_cases (hx.fits hfits) s with
    ⟨-, h⟩ | ⟨w, s', -, hw, -, hsent, h⟩ | ⟨answer, s', -, hsent, -, h⟩
  · rw [h]
    exact hx
  · rw [h]
    have hsum := (toNat_add_written hw).2
    refine ⟨hheader, hheaderLen, hchunkLength, ?_, ?_⟩
    · rw [UInt8.le_iff_toNat_le, hsum]
      exact hw
    · have hline : o.line = start.1.line := hx.line
      rw [hsent, hwire, hline, hsum, List.append_assoc, ← List.take_add]
  · rw [h]
    exact ⟨hheader, hheaderLen, hchunkLength, hle, hsent.trans hwire⟩

/-- So does every run, from a header of which nothing is sent. -/
theorem Reaches.sent {start x : Open × Sink} (hfits : start.1.Fits) (hfresh : start.1.written = 0)
    (h : Reaches start x) : Sent start x := by
  induction h with
  | refl =>
    refine ⟨rfl, rfl, rfl, ?_, ?_⟩
    · rw [hfresh]
      exact UInt8.zero_le
    · rw [hfresh]
      exact (List.append_nil _).symm
  | tail _ hstep ih => exact hstep.sent hfits ih

theorem rounds_reaches (fuel : Nat) (o : Open) (s : Sink) : Reaches (o, s) (rounds fuel o s).2 := by
  induction fuel generalizing o s with
  | zero => exact .refl
  | succ fuel ih =>
    have hstep := Step.mk o s
    rw [next] at hstep
    rw [rounds]
    generalize o.round s = x at hstep ⊢
    rcases x with answer | ⟨o', s'⟩
    · exact .single hstep
    · exact .head hstep (ih o' s')

/-! ## The header of a chunk -/

/-- The header is a size line: lower-case hexadecimal that reads back as the length. -/
structure Represents (h : Httparse) (n : UInt64) (o : Open) : Prop where
  length : o.line.length = o.headerLen.toNat ∧ o.headerLen.toNat ≤ 18
  line : ∃ hex, o.line = hex ++ ascii "\r\n" ∧ hex ≠ [] ∧
    (∀ b ∈ hex, isDigit b = true ∨ 97 ≤ b ∧ b ≤ 102) ∧ hex.head? ≠ some 48 ∧
    value 16 hex = some n.toNat
  reads : ∀ s, h.parseChunkSize (o.line ++ s) = .ok (.complete (o.headerLen.toNat, n.toNat))

/-- Any polls send the header once: in every state as much of it is on the wire as is counted,
    and the counter is exact; only what is sent whole is ready and lets the data through. -/
structure Resumes (n : UInt64) (o : Open) : Prop where
  polls : ∀ s x, Reaches (o, s) x → Reaches (o, s) (x.1.pollOpen x.2).2
  sent : ∀ s x, Reaches (o, s) x → Sent (o, s) x
  counts : ∀ s x y, Reaches (o, s) x → x.1.round x.2 = .inr y → ∃ w,
    x.2.pollWrite (x.1.line.drop x.1.written.toNat) = (.ok w, y.2) ∧
      (UInt8.ofNat w).toNat = w ∧ y.1.written.toNat = x.1.written.toNat + w
  answers : ∀ s x, Reaches (o, s) x → (x.1.pollOpen x.2).1 ≠ .panic
  ready : ∀ s x, Reaches (o, s) x → (x.1.pollOpen x.2).1 = .ok () →
    (x.1.pollOpen x.2).2.2.wire = s.wire ++ o.line
  intoWrite : ∀ s x, Reaches (o, s) x →
    ((∃ w, x.1.intoWrite = .ok w) ↔ x.2.wire = s.wire ++ o.line) ∧
      ∀ w, x.1.intoWrite = .ok w → w = ⟨n, 0⟩
  accepted : ∀ s, s.Accepting →
    (blockOn (fun x : Open × Sink => x.1.pollOpen x.2) (s.weight + 1) (o, s)).1 = .ok ()

/-- The size line of a positive length. -/
theorem Holds.represents {h : Httparse} (laws : h.ChunkSizeLaws) {n : UInt64} {o : Open}
    (hpos : n ≠ 0) (ho : Holds n o) : Represents h n o := by
  have hne : n.toNat ≠ 0 := fun hzero => hpos (UInt64.toNat_inj.mp hzero)
  refine ⟨⟨length_line ho.fits, ho.fits⟩, ⟨digits 16 n.toNat, ho.line, digits_ne_nil 16 _, ?_,
    digits_head_ne_zero (by decide) (by decide) hne, value_digits (by decide) (by decide) _⟩, ?_⟩
  · have hlower : ∀ d : Fin 16, isDigit (digit d) = true ∨ 97 ≤ digit d ∧ digit d ≤ 102 := by decide
    exact forall_mem_digits (by decide) (fun d hd => hlower ⟨d, hd⟩) n.toNat
  · intro s
    rw [ho.line, ho.headerLen]
    exact Body.reads_sizeLine laws ⟨0⟩ n.toNat_lt s

/-- What the counter says, the wire does. -/
theorem Sent.wire_iff {start x : Open × Sink} (hx : Sent start x) (hfits : start.1.Fits) :
    (∃ w, x.1.intoWrite = .ok w) ↔ x.2.wire = start.2.wire ++ start.1.line := by
  have hlen := length_line hfits
  have hall : x.2.wire = start.2.wire ++ start.1.line ↔
      start.1.headerLen.toNat ≤ x.1.written.toNat := by
    rw [hx.wire, List.append_cancel_left_eq, List.take_eq_self_iff, hlen]
  rw [hall, ← hx.headerLen, intoWrite]
  split
  · next hlt =>
    rw [UInt8.lt_iff_toNat_lt] at hlt
    exact iff_of_false (by rintro ⟨w, h⟩; cases h) (by omega)
  · next hlt =>
    rw [UInt8.lt_iff_toNat_lt] at hlt
    exact iff_of_true ⟨_, rfl⟩ (by omega)

/-- A header that is represented right is sent right. -/
theorem Holds.resumes {n : UInt64} {o : Open} (ho : Holds n o) : Resumes n o := by
  have hsent : ∀ s x, Reaches (o, s) x → Sent (o, s) x :=
    fun s x hx => Reaches.sent ho.fits ho.written hx
  have hfits : ∀ s x, Reaches (o, s) x → x.1.Fits := fun s x hx => (hsent s x hx).fits ho.fits
  constructor
  case polls => exact fun s x hx => hx.trans (rounds_reaches _ x.1 x.2)
  case sent => exact hsent
  case counts =>
    intro s x y hx hround
    rcases round_cases (hfits s x hx) x.2 with
      ⟨-, h⟩ | ⟨w, s', -, hw, hpoll, -, h⟩ | ⟨answer, s', -, -, -, h⟩
    · rw [h] at hround
      cases hround
    · rw [h] at hround
      cases hround
      exact ⟨w, hpoll, toNat_add_written hw⟩
    · rw [h] at hround
      cases hround
  -- what is unwritten is a slice of the line in every state, so no poll panics
  case answers =>
    intro s x hx hpanic
    have hmeets := pollOpen_meets (hfits s x hx) x.2
    generalize x.1.pollOpen x.2 = y at hmeets hpanic
    obtain ⟨answer, y⟩ := y
    obtain rfl : answer = .panic := hpanic
    exact hmeets
  case ready =>
    intro s x hx hok
    have hmeets := pollOpen_meets (hfits s x hx) x.2
    generalize x.1.pollOpen x.2 = y at hmeets hok ⊢
    obtain ⟨answer, y⟩ := y
    obtain rfl : answer = .ok () := hok
    have hwire : y.2.wire = x.2.wire ++ x.1.line.drop x.1.written.toNat := hmeets
    rw [hwire, (hsent s x hx).wire, (hsent s x hx).line, List.append_assoc, List.take_append_drop]
  case intoWrite =>
    intro s x hx
    refine ⟨(hsent s x hx).wire_iff ho.fits, fun w hw => ?_⟩
    rw [Open.intoWrite] at hw
    split at hw
    · cases hw
    · cases hw
      rw [(hsent s x hx).chunkLength, ho.chunkLength]
  case accepted => exact fun s hs => Open.accepted ho.fits hs

/-- Every positive length of a chunk has a header that represents it and is sent once. -/
theorem new_represents {h : Httparse} (laws : h.ChunkSizeLaws) {n : UInt64} (hpos : n ≠ 0) :
    ∃ o, Open.new n = some o ∧ Represents h n o ∧ Resumes n o := by
  obtain ⟨o, hnew, ho⟩ := new_holds hpos
  exact ⟨o, hnew, ho.represents laws hpos, ho.resumes⟩

/-- The longest header fills the array. -/
theorem new_represents_max :
    ∃ o, Open.new 0xffffffffffffffff = some o ∧ o.header = ascii "ffffffffffffffff\r\n" ∧
      Represents Httparse.Reference.reference 0xffffffffffffffff o ∧
      Resumes 0xffffffffffffffff o := by
  obtain ⟨o, hnew, hrepresents, hresumes⟩ :=
    @new_represents _ Httparse.Reference.chunkSizeLaws 0xffffffffffffffff (by decide)
  refine ⟨o, hnew, ?_, hrepresents, hresumes⟩
  have hheader : (Open.new 0xffffffffffffffff).map Open.header =
      some (ascii "ffffffffffffffff\r\n") := by decide +kernel
  rw [hnew] at hheader
  exact Option.some.inj hheader

end Open

end Jrpxy.Body.Writer.ChunkHeader
