/-
  Jrpxy.Util.Io

  The two ends of the program: what is read from and what is written to.

  Both ends follow a script.  A `Source` says, poll by poll, whether the I/O
  is not ready, has bytes, or fails; a spent script is end of file.  A `Sink`
  says, poll by poll, whether it is not ready, how many bytes it accepts, or
  that it fails; a spent script accepts everything.  Every finite run of a
  real connection follows some script, so a fact about every script is a fact
  about every delivery of the bytes and every pattern of partial writes.
-/
import Jrpxy.Lib.BlockWriter
import Jrpxy.Util.Parse

namespace Jrpxy.Util

open Poll BlockWriter

/-- An I/O error; `write_zero` is the one the program makes itself. -/
inductive IoError where
  | writeZero
  | other (code : Nat)
  deriving DecidableEq, Repr

/-! ## Sources -/

/-- What the I/O below a reader does at one poll; a segment has at least one byte. -/
inductive ReadEvent where
  | pending
  | data (b : UInt8) (bs : Bytes)
  | error (e : IoError)
  deriving DecidableEq, Repr

/-- The I/O below a reader. -/
structure Source where
  events : List ReadEvent
  deriving DecidableEq, Repr

namespace Source

/-- Poll for up to `space` bytes; an empty answer is end of file. -/
def pollRead (space : Nat) (s : Source) : Polled IoError Bytes × Source :=
  match s.events with
  | [] => (.ok [], s)
  | .pending :: es => (.pending, ⟨es⟩)
  | .error e :: es => (.err e, ⟨es⟩)
  | .data b bs :: es =>
    match space with
    | 0 => (.ok [], s)
    | k + 1 =>
      match bs.drop k with
      | [] => (.ok (b :: bs), ⟨es⟩)
      | c :: cs => (.ok (b :: bs.take k), ⟨.data c cs :: es⟩)

/-- The bytes delivered before the first error. -/
def streamOf : List ReadEvent → Bytes
  | [] => []
  | .pending :: es => streamOf es
  | .error _ :: _ => []
  | .data b bs :: es => b :: bs ++ streamOf es

/-- The bytes the source still delivers. -/
def stream (s : Source) : Bytes := streamOf s.events

/-- All bytes of the events, those behind an error too. -/
def bytesOf : List ReadEvent → Bytes
  | [] => []
  | .data b bs :: es => b :: bs ++ bytesOf es
  | _ :: es => bytesOf es

/-- The bytes the source still delivers to a reader that goes on after errors. -/
def bytes (s : Source) : Bytes := bytesOf s.events

/-- A poll would find bytes. -/
def HasData (s : Source) : Prop := ∃ b bs es, s.events = .data b bs :: es

/-- The event is an error. -/
def isError : ReadEvent → Bool
  | .error _ => true
  | _ => false

/-- The source ends with end of file, not with an error. -/
def Clean (s : Source) : Prop := ∀ ev ∈ s.events, isError ev = false

instance (s : Source) : Decidable s.Clean :=
  inferInstanceAs (Decidable (∀ ev ∈ s.events, isError ev = false))

/-- Every poll uses up some of this, and every byte read two of it. -/
def weightOf : List ReadEvent → Nat
  | [] => 0
  | .data _ bs :: es => 2 * (bs.length + 1) + 1 + weightOf es
  | _ :: es => 1 + weightOf es

/-- How much polling is left in the source. -/
def weight (s : Source) : Nat := weightOf s.events

@[simp] theorem clean_pending {es : List ReadEvent} :
    Clean ⟨.pending :: es⟩ ↔ Clean ⟨es⟩ := by simp [Clean, isError]

@[simp] theorem clean_data {b : UInt8} {bs : Bytes} {es : List ReadEvent} :
    Clean ⟨.data b bs :: es⟩ ↔ Clean ⟨es⟩ := by simp [Clean, isError]

@[simp] theorem not_clean_error {e : IoError} {es : List ReadEvent} :
    ¬ Clean ⟨.error e :: es⟩ := by simp [Clean, isError]

/-- One poll of a source with room for at least one byte. -/
theorem pollRead_meets {space : Nat} (hspace : 0 < space) (s : Source) :
    Meets (s.pollRead space) {
      pending := fun s' => s'.stream = s.stream ∧ (s'.Clean ↔ s.Clean) ∧ s'.weight < s.weight
      ok := fun d s' => d.length ≤ space ∧ s.stream = d ++ s'.stream ∧ (s'.Clean ↔ s.Clean) ∧
        s'.weight + 2 * d.length ≤ s.weight ∧ (d = [] → s.stream = [] ∧ s.Clean ∧ s' = s)
      err := fun _ s' => s.stream = [] ∧ ¬ s.Clean ∧ s'.weight < s.weight } := by
  obtain ⟨events⟩ := s
  obtain ⟨k, rfl⟩ := Nat.exists_eq_succ_of_ne_zero (Nat.pos_iff_ne_zero.mp hspace)
  rcases events with _ | ⟨_ | ⟨b, bs⟩ | e, es⟩
  · simp [pollRead, stream, streamOf, Clean]
  · simp [pollRead, stream, streamOf, weight, weightOf]
  · simp only [pollRead]
    rcases hdrop : bs.drop k with _ | ⟨c, cs⟩
    · have hle : bs.length ≤ k := List.drop_eq_nil_iff.mp hdrop
      simp only [meets_ok, List.length_cons, clean_data]
      refine ⟨by omega, rfl, trivial, ?_, fun h => absurd h (by simp)⟩
      simp only [weight, weightOf]
      omega
    · have hbs : bs = bs.take k ++ c :: cs := by rw [← hdrop, List.take_append_drop]
      have hlen : bs.length = (bs.take k).length + (cs.length + 1) := by
        conv => lhs; rw [hbs]
        simp
      have htake : (bs.take k).length ≤ k := by rw [List.length_take]; omega
      simp only [meets_ok, List.length_cons, clean_data]
      refine ⟨by omega, ?_, trivial, ?_, fun h => absurd h (by simp)⟩
      · show b :: (bs ++ streamOf es) = b :: (bs.take k ++ (c :: cs ++ streamOf es))
        rw [← List.append_assoc, ← hbs]
      · simp only [weight, weightOf]
        omega
  · simp [pollRead, stream, streamOf, weight, weightOf]

/-- One poll, with room or without: it hands out bytes from the front, and nothing only
    without room or at the end. -/
theorem pollRead_bytes (space : Nat) (s : Source) :
    Meets (s.pollRead space) {
      pending := fun s' => s'.bytes = s.bytes
      ok := fun d s' => s.bytes = d ++ s'.bytes ∧
        (d = [] → space = 0 ∧ s.HasData ∨ s.bytes = [])
      err := fun _ s' => s'.bytes = s.bytes } := by
  obtain ⟨events⟩ := s
  rcases events with _ | ⟨_ | ⟨b, bs⟩ | e, es⟩
  · exact ⟨rfl, fun _ => .inr rfl⟩
  · exact rfl
  · cases space with
    | zero => exact ⟨rfl, fun _ => .inl ⟨rfl, b, bs, es, rfl⟩⟩
    | succ k =>
      have hbs := List.take_append_drop k bs
      simp only [pollRead]
      generalize bs.drop k = rest at hbs
      cases rest with
      | nil => exact ⟨rfl, fun h => by cases h⟩
      | cons c cs =>
        refine ⟨?_, fun h => by cases h⟩
        show b :: (bs ++ bytesOf es) = b :: (bs.take k ++ (c :: cs ++ bytesOf es))
        rw [← List.append_assoc, hbs]
  · exact rfl

/-- At a clean end a poll waits or finds nothing, with room or without. -/
theorem pollRead_of_stream_nil (space : Nat) {s : Source} (hnil : s.stream = [])
    (hclean : s.Clean) :
    Meets (s.pollRead space) {
      pending := fun s' => s'.stream = [] ∧ s'.Clean ∧ s'.weight < s.weight
      ok := fun d s' => d = [] ∧ s' = s
      err := fun _ _ => False } := by
  obtain ⟨events⟩ := s
  rcases events with _ | ⟨_ | ⟨b, bs⟩ | e, es⟩
  · exact ⟨rfl, rfl⟩
  · refine ⟨hnil, clean_pending.mp hclean, ?_⟩
    show weightOf es < 1 + weightOf es
    omega
  · cases hnil
  · exact absurd hclean not_clean_error

/-- Without room the data that is ready is not taken. -/
theorem pollRead_zero {s : Source} (h : s.HasData) : s.pollRead 0 = (.ok [], s) := by
  obtain ⟨events⟩ := s
  obtain ⟨b, bs, es, rfl⟩ := h
  rfl

/-- Data that is ready is among the bytes to come. -/
theorem HasData.bytes_ne_nil {s : Source} (h : s.HasData) : s.bytes ≠ [] := by
  obtain ⟨events⟩ := s
  obtain ⟨b, bs, es, rfl⟩ := h
  exact List.cons_ne_nil _ _

end Source

/-! ## Sinks -/

/-- What the I/O below a writer does at one poll. -/
inductive WriteEvent where
  | pending
  | accept (n : Nat)
  | error (e : IoError)
  deriving DecidableEq, Repr

/-- The I/O below a writer: the bytes it has accepted, and what it does next. -/
structure Sink where
  wire : Bytes
  script : List WriteEvent
  deriving DecidableEq, Repr

namespace Sink

/-- Poll to write `buf`; the answer is how many of its bytes were accepted. -/
def pollWrite (buf : Bytes) (s : Sink) : Polled IoError Nat × Sink :=
  match s.script with
  | [] => (.ok buf.length, ⟨s.wire ++ buf, []⟩)
  | .pending :: es => (.pending, ⟨s.wire, es⟩)
  | .accept n :: es => (.ok (min n buf.length), ⟨s.wire ++ buf.take n, es⟩)
  | .error e :: es => (.err e, ⟨s.wire, es⟩)

/-- Poll to flush. -/
def pollFlush (s : Sink) : Polled IoError Unit × Sink :=
  match s.script with
  | [] => (.ok (), s)
  | .pending :: es => (.pending, ⟨s.wire, es⟩)
  | .accept _ :: es => (.ok (), ⟨s.wire, es⟩)
  | .error e :: es => (.err e, ⟨s.wire, es⟩)

/-- The sink never fails, and every write accepts at least one byte. -/
def Accepting (s : Sink) : Prop :=
  ∀ ev ∈ s.script, ev ≠ .accept 0 ∧ ∀ e, ev ≠ .error e

/-- How many polls the script still answers. -/
def weight (s : Sink) : Nat := s.script.length

/-- What any poll leaves of an accepting sink. -/
theorem Accepting.tail {wire wire' : Bytes} {ev : WriteEvent} {es : List WriteEvent}
    (h : Accepting ⟨wire, ev :: es⟩) : Accepting ⟨wire', es⟩ :=
  fun e he => h e (List.mem_cons_of_mem ev he)

/-- One write: a beginning of the buffer goes out, and from a sink that accepts
    bytes a ready answer is a write of at least one byte of a non-empty buffer;
    a write of nothing uses up some of the script. -/
theorem pollWrite_meets (buf : Bytes) (s : Sink) :
    Meets (s.pollWrite buf) {
      pending := fun s' => s'.wire = s.wire ∧ (s.Accepting → s'.Accepting) ∧ s'.weight < s.weight
      ok := fun n s' => n ≤ buf.length ∧ s'.wire = s.wire ++ buf.take n ∧
        (s.Accepting → s'.Accepting ∧ (buf ≠ [] → 0 < n)) ∧ s'.weight ≤ s.weight ∧
        (buf ≠ [] → n = 0 → s'.weight < s.weight)
      err := fun _ s' => s'.wire = s.wire ∧ ¬ s.Accepting } := by
  obtain ⟨wire, script⟩ := s
  rcases script with _ | ⟨_ | n | e, es⟩
  · simp only [pollWrite, meets_ok, List.take_length, Nat.le_refl, true_and]
    exact ⟨fun h => ⟨fun e he => h e he, List.length_pos_iff.mpr⟩, Nat.le_refl _,
      fun hbuf hzero => absurd (List.length_eq_zero_iff.mp hzero) hbuf⟩
  · exact ⟨rfl, Accepting.tail, by simp [weight]⟩
  · refine ⟨Nat.min_le_right _ _, ?_, fun h => ⟨h.tail, fun hbuf => ?_⟩, by simp [weight],
      fun _ _ => by simp [weight]⟩
    · show wire ++ buf.take n = wire ++ buf.take (min n buf.length)
      rw [List.take_eq_take_min]
    · have hn : n ≠ 0 := fun h0 => (h _ List.mem_cons_self).1 (by rw [h0])
      have hb := List.length_pos_iff.mpr hbuf
      omega
  · exact ⟨rfl, fun h => (h _ List.mem_cons_self).2 e rfl⟩

/-- One flush. -/
theorem pollFlush_meets (s : Sink) :
    Meets s.pollFlush {
      pending := fun s' => s'.wire = s.wire ∧ (s.Accepting → s'.Accepting) ∧ s'.weight < s.weight
      ok := fun _ s' => s'.wire = s.wire ∧ (s.Accepting → s'.Accepting) ∧ s'.weight ≤ s.weight
      err := fun _ s' => s'.wire = s.wire ∧ ¬ s.Accepting } := by
  obtain ⟨wire, script⟩ := s
  rcases script with _ | ⟨_ | n | e, es⟩
  · exact ⟨rfl, id, Nat.le_refl _⟩
  · exact ⟨rfl, Accepting.tail, by simp [weight]⟩
  · exact ⟨rfl, Accepting.tail, by simp [weight]⟩
  · exact ⟨rfl, fun h => (h _ List.mem_cons_self).2 e rfl⟩

end Sink

/-- The wire a message goes out on. -/
def medium : Medium Sink := ⟨Sink.wire, Sink.Accepting, Sink.weight⟩

/-- One `poll_write`, as what it does to the medium. -/
theorem Sink.pollWrite_sends (buf : Bytes) (s : Sink) :
    Meets (s.pollWrite buf) {
      pending := fun s' => Sends medium [] s s' ∧ s'.weight < s.weight
      ok := fun n s' => Sends medium (buf.take n) s s' ∧ n ≤ buf.length ∧
        (buf ≠ [] → n = 0 → s'.weight < s.weight ∧ ¬ s.Accepting)
      err := fun _ s' => s'.wire = s.wire ∧ ¬ s.Accepting } := by
  refine (pollWrite_meets buf s).mono ?_ ?_ (fun _ _ h => h)
  · rintro s' ⟨hwire, hacc, hweight⟩
    exact ⟨⟨hwire.trans (List.append_nil _).symm, hacc, Nat.le_of_lt hweight⟩, hweight⟩
  · rintro n s' ⟨hn, hwire, hacc, hweight, hzero⟩
    refine ⟨⟨hwire, fun h => (hacc h).1, hweight⟩, hn, fun hbuf h0 => ⟨hzero hbuf h0, fun h => ?_⟩⟩
    have hpos := (hacc h).2 hbuf
    omega

end Jrpxy.Util
