/-
  Jrpxy.HttpMessage.WriteHead

  Writing a message head to a sink.

  A head goes out in pieces, each written to its end before the next, and is
  flushed.  Both sides write header lines and the framing line the same way.
-/
import Jrpxy.HttpMessage.Header
import Jrpxy.Util.Io

namespace Jrpxy.HttpMessage

open Poll BlockWriter Ascii Util

/-! ## Writing pieces -/

/-- `write_all(buf).await`: every round sends at least one byte; a write of nothing is an
    error. -/
def writeAllLoop : Nat → Bytes → Sink → Polled IoError Unit × Sink
  | 0, _, sink => (.ok (), sink)
  | fuel + 1, buf, sink =>
    if buf.isEmpty then (.ok (), sink)
    else
      andThen (blockOn (fun sink => sink.pollWrite buf) (sink.weight + 1) sink) id fun n sink =>
        if n = 0 then (.err .writeZero, sink) else writeAllLoop fuel (buf.drop n) sink

def writeAll (buf : Bytes) (sink : Sink) : Polled IoError Unit × Sink :=
  writeAllLoop buf.length buf sink

/-- `flush().await` -/
def flush (sink : Sink) : Polled IoError Unit × Sink :=
  blockOn Sink.pollFlush (sink.weight + 1) sink

/-- Pieces written one after the other, and a flush. -/
def writePieces : List Bytes → Sink → Polled IoError Unit × Sink
  | [], sink => flush sink
  | piece :: pieces, sink => andThen (writeAll piece sink) id fun _ sink => writePieces pieces sink

/-- A head that has been written, and what comes behind it. -/
def sendHead {ε α : Type} (f : IoError → ε) (written : Polled IoError Unit × Sink) (ready : α) :
    Polled ε α × Sink :=
  andThen (mapErr f written) id fun _ w => (.ok ready, w)

/-- The pieces of one header line. -/
def headerPieces (f : Field) : List Bytes := [f.1, ascii ": ", f.2, ascii "\r\n"]

/-- The field of a framing instruction, as it is written. -/
def framingFields : WriteFraming → List Field
  | .preserveFraming => []
  | .stripFraming => []
  | .length l => [(ascii "content-length", digits 10 l)]
  | .chunked => [(ascii "transfer-encoding", ascii "chunked")]

/-- The framing line, formatted before it is written, if there is one. -/
def framingPieces (framing : WriteFraming) : List Bytes := (framingFields framing).map fieldLine

/-! ## What is written -/

/-- One `poll_write`, polled until it is ready. -/
theorem pollWrite_ready {buf : Bytes} (hne : buf ≠ []) (s : Sink) :
    Meets (blockOn (fun sink => sink.pollWrite buf) (s.weight + 1) s) {
      pending := fun _ => False
      ok := fun n s' => Sends medium (buf.take n) s s' ∧ n ≤ buf.length ∧
        (n = 0 → ¬ s.Accepting)
      err := fun _ _ => ¬ s.Accepting } := by
  refine blockOn_quiet (M := medium) (fun s n s' => Sends medium (buf.take n) s s' ∧
    n ≤ buf.length ∧ (n = 0 → ¬ s.Accepting)) ?_ ?_ s
  · rintro s s' n s'' hquiet ⟨hsends, hn, hzero⟩
    exact ⟨hquiet.trans hsends, hn, fun h0 hacc => hzero h0 (hquiet.accepting hacc)⟩
  · intro s
    refine (Sink.pollWrite_sends buf s).mono (fun _ h => h) ?_ (fun _ _ h => h.2)
    rintro n s' ⟨hsends, hn, hzero⟩
    exact ⟨hsends, hn, fun h0 => (hzero hne h0).2⟩

theorem writeAllLoop_meets (fuel : Nat) {buf : Bytes} (hfuel : buf.length ≤ fuel) (s : Sink) :
    Meets (writeAllLoop fuel buf s) {
      pending := fun _ => False
      ok := fun _ s' => Sends medium buf s s'
      err := fun _ _ => ¬ s.Accepting } := by
  induction fuel generalizing buf s with
  | zero =>
    have hnil : buf = [] := List.length_eq_zero_iff.mp (Nat.le_zero.mp hfuel)
    rw [hnil]
    exact Sends.refl _ s
  | succ fuel ih =>
    rw [writeAllLoop]
    by_cases hne : buf = []
    · rw [if_pos (by simp [hne]), hne]
      exact Sends.refl _ s
    · rw [if_neg (by simp [hne])]
      refine (pollWrite_ready hne s).andThen (fun _ h => h) (fun _ _ h => h) ?_
      rintro n s' ⟨hsends, hn, hzero⟩
      by_cases h0 : n = 0
      · rw [if_pos h0]
        exact hzero h0
      · rw [if_neg h0]
        refine (ih (by rw [List.length_drop]; omega) s').mono (fun _ h => h) ?_
          (fun _ _ hacc h => hacc (hsends.accepting h))
        intro _ s'' hrest
        rw [← List.take_append_drop n buf]
        exact hsends.trans hrest

/-- `write_all` sends the buffer, or the sink is not accepting. -/
theorem writeAll_meets (buf : Bytes) (s : Sink) :
    Meets (writeAll buf s) {
      pending := fun _ => False
      ok := fun _ s' => Sends medium buf s s'
      err := fun _ _ => ¬ s.Accepting } :=
  writeAllLoop_meets _ (Nat.le_refl _) s

theorem flush_meets (s : Sink) :
    Meets (flush s) {
      pending := fun _ => False
      ok := fun _ s' => Sends medium [] s s'
      err := fun _ _ => ¬ s.Accepting } := by
  refine blockOn_quiet (M := medium) (fun s _ s' => Sends medium [] s s') ?_ ?_ s
  · exact fun hquiet hsends => hquiet.trans hsends
  · intro s
    refine (Sink.pollFlush_meets s).mono ?_ ?_ (fun _ _ h => h.2)
    · rintro s' ⟨hwire, hacc, hweight⟩
      exact ⟨⟨hwire.trans (List.append_nil _).symm, hacc, Nat.le_of_lt hweight⟩, hweight⟩
    · rintro - s' ⟨hwire, hacc, hweight⟩
      exact ⟨hwire.trans (List.append_nil _).symm, hacc, hweight⟩

/-- Pieces go out in order, or the sink is not accepting. -/
theorem writePieces_meets (pieces : List Bytes) (s : Sink) :
    Meets (writePieces pieces s) {
      pending := fun _ => False
      ok := fun _ s' => Sends medium pieces.flatten s s'
      err := fun _ _ => ¬ s.Accepting } := by
  induction pieces generalizing s with
  | nil => exact flush_meets s
  | cons piece pieces ih =>
    refine (writeAll_meets piece s).andThen (fun _ h => h) (fun _ _ h => h) ?_
    intro _ s' hsends
    refine (ih s').mono (fun _ h => h) ?_ (fun _ _ hacc h => hacc (hsends.accepting h))
    exact fun _ s'' hrest => hsends.trans hrest

/-- The header pieces of a list of fields are its field lines. -/
theorem flatten_headerPieces (fs : List Field) :
    (fs.flatMap headerPieces).flatten = fieldLines fs := by
  induction fs with
  | nil => rfl
  | cons f fs ih =>
    rw [List.flatMap_cons, List.flatten_append, ih, fieldLines_cons]
    simp [headerPieces, fieldLine]

theorem flatten_framingPieces (framing : WriteFraming) :
    (framingPieces framing).flatten = fieldLines (framingFields framing) := by
  simp [framingPieces, fieldLines, List.flatMap]

/-- Header lines, the framing line and the empty line behind them. -/
theorem flatten_fieldPieces (fs : List Field) (framing : WriteFraming) :
    (fs.flatMap headerPieces ++ framingPieces framing ++ [ascii "\r\n"]).flatten =
      fieldLines (fs ++ framingFields framing) ++ ascii "\r\n" := by
  rw [List.flatten_append, List.flatten_append, flatten_headerPieces, flatten_framingPieces,
    fieldLines_append]
  simp

/-- What writing the head sends, sending the head does. -/
theorem sendHead_meets {ε α : Type} (f : IoError → ε) (ready : α) {head : Bytes} {s : Sink}
    {written : Polled IoError Unit × Sink}
    (hwritten : Meets written {
      pending := fun _ => False
      ok := fun _ s' => Sends medium head s s'
      err := fun _ _ => ¬ s.Accepting }) :
    Meets (sendHead f written ready) {
      pending := fun _ => False
      ok := fun r s' => r = ready ∧ Sends medium head s s'
      err := fun _ _ => ¬ s.Accepting } := by
  obtain ⟨_ | a | e | _, s'⟩ := written
  · exact hwritten
  · exact ⟨rfl, hwritten⟩
  · exact hwritten
  · exact hwritten

end Jrpxy.HttpMessage
