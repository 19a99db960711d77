/-
  Jrpxy.Proxy.FlowControl

  How far a forwarder is behind.

  A forwarder holds one piece of a body at most, however fast its source and
  however slow its sink: at every moment between two calls the body is what the
  recipient has of it already, the piece in hand, and what the source still
  has.  And it holds no byte back: the piece in hand goes out whether or not
  the source has more (`flowControlled`).
-/
import Jrpxy.Lib.Relay.Held
import Jrpxy.Proxy.Completion

namespace Jrpxy.Proxy

open Poll PullStream Incremental BodyRelay BlockWriter ChunkedCoding Ascii Util HttpMessage
open Body Body.Reader Body.Writer
open Frontend Backend
open Chunked (sizeLine chunkFooter)
open Httparse.Reference (reference chunkSizeLaws fieldSectionLaws)

variable {E ε₁ ε₂ : Type} {S : Side E ε₁ ε₂} {h : Httparse}

/-! ## What the recipient has -/

/-- The data that the recipient of a body in this encoding finds in its first bytes. -/
def contentSoFar (h : Httparse) (slots : ParseSlots) {eof : Bool} :
    Unifier.Ready eof → Bytes → Bytes
  | .chunked _, w => (decode (recognisers h slots) w).body
  | _, w => w

/-- Nothing has no data. -/
theorem decode_nil_body (hsize : h.ChunkSizeLaws) (slots : ParseSlots) :
    (decode (recognisers h slots) []).body = [] := by
  rw [decode_fault]
  · rfl
  · intro n len hcomplete
    cases hsize.nil.symm.trans hcomplete

theorem decodeData_nil_body (slots : ParseSlots) (n : Nat) :
    (decodeData (recognisers h slots) n []).body = [] := by
  unfold decodeData
  split
  · rfl
  · rw [List.take_nil, List.drop_nil, Decoded.prepend_nil]
    rfl

/-- A beginning of a size line has no data. -/
theorem decode_begun (hsize : h.ChunkSizeLaws) (slots : ParseSlots) {n : Nat} (hn : n < 2 ^ 64)
    (hne : n ≠ 0) {begun left : Bytes} (hsplit : sizeLine n = begun ++ left) :
    (decode (recognisers h slots) begun).body = [] := by
  have hwhole := reads_sizeLine hsize slots hn []
  rw [List.append_nil, hsplit] at hwhole
  have hanswer := hsize.parser.answer_of_append hwhole
  by_cases hle : (begun ++ left).length ≤ begun.length
  -- the line is complete, and no data is behind it
  · rw [if_pos hle] at hanswer
    have hnil : begun.drop (begun ++ left).length = [] :=
      List.drop_eq_nil_of_le (Nat.le_trans (Nat.le_add_right _ _)
        (Nat.le_of_eq List.length_append.symm))
    rw [decode_more (recognisers h slots) hanswer hne, Decoded.addLine_body, hnil,
      decodeData_nil_body]
  · rw [if_neg hle] at hanswer
    rw [decode_fault]
    · rfl
    · intro k len hcomplete
      cases hanswer.symm.trans hcomplete

/-- A beginning of the end of a chunk has no data. -/
theorem decodeFooter_begun (hsize : h.ChunkSizeLaws) (slots : ParseSlots) {begun left : Bytes}
    (hsplit : chunkFooter = begun ++ left) :
    (decodeFooter (recognisers h slots) begun).body = [] := by
  rcases decodeFooter_cases (recognisers h slots) begun with ⟨rest, rfl⟩ | hfault
  · have hlen := congrArg List.length hsplit
    simp only [List.length_append, List.length_cons] at hlen
    have hrest : rest = [] := by
      apply List.length_eq_zero_iff.mp
      have htwo : chunkFooter.length = 2 := rfl
      omega
    rw [hrest]
    exact decode_nil_body hsize slots
  · rw [hfault]
    rfl

/-- Some of the data of a chunk, and when all of it is there a beginning of its end. -/
theorem decode_line_data (hsize : h.ChunkSizeLaws) (slots : ParseSlots) {n : Nat} {d begun : Bytes}
    (hn : n < 2 ^ 64) (hle : d.length ≤ n)
    (hbegun : (decodeData (recognisers h slots) (n - d.length) begun).body = []) :
    (decode (recognisers h slots) (Chunked.framing.head n ++ d ++ begun)).body =
      if n = 0 then (decode (recognisers h slots) begun).body else d := by
  by_cases hzero : n = 0
  · subst hzero
    rw [List.eq_nil_of_length_eq_zero (Nat.le_zero.mp hle)]
    rfl
  · have hhead : Chunked.framing.head n = sizeLine n := if_neg hzero
    rw [hhead, List.append_assoc, decode_more _ (reads_sizeLine hsize slots hn _) hzero,
      Decoded.addLine_body, List.drop_left, decodeData_append _ hle, Decoded.prepend_body, hbegun,
      List.append_nil, if_neg hzero]

/-- Whoever decodes what has gone out of chunked data has that data. -/
theorem decode_soFar (hsize : h.ChunkSizeLaws) (slots : ParseSlots) {sent content : Bytes}
    (hsofar : SoFar Chunked.framing (2 ^ 64) sent content) :
    (decode (recognisers h slots) sent).body = content := by
  have hblocks : ∀ {ds : List Bytes}, (∀ d ∈ ds, d.length < 2 ^ 64) → ∀ s,
      (decode (recognisers h slots) (Chunked.framing.blocks ds ++ s)).body =
        ds.flatten ++ (decode (recognisers h slots) s).body := by
    intro ds hshort s
    rw [Chunked.framing_blocks,
      decode_chunks fun d hd _ => reads_sizeLine hsize slots (hshort d hd)]
  cases hsofar with
  | @head ds begun left n short lt split =>
    have hbegun : (decode (recognisers h slots) begun).body = [] := by
      by_cases hzero : n = 0
      · subst hzero
        rw [(List.append_eq_nil_iff.mp split.symm).1]
        exact decode_nil_body hsize slots
      · have hhead : Chunked.framing.head n = sizeLine n := if_neg hzero
        exact decode_begun hsize slots lt hzero (hhead.symm.trans split)
    rw [hblocks short, hbegun, List.append_nil]
  | @data ds d n short lt le =>
    have hdata := decode_line_data hsize slots lt le (decodeData_nil_body slots (n - d.length))
    rw [List.append_nil] at hdata
    rw [List.append_assoc, hblocks short, hdata]
    split
    · next hzero =>
      rw [decode_nil_body hsize slots, List.eq_nil_of_length_eq_zero (by omega : d.length = 0)]
    · rfl
  | @foot ds d begun left short lt split =>
    have hfooter : (decodeData (recognisers h slots) (d.length - d.length) begun).body = [] := by
      rw [Nat.sub_self, decodeData_zero]
      by_cases hzero : d.length = 0
      · have hfoot : Chunked.framing.foot d.length = [] := if_pos hzero
        rw [(List.append_eq_nil_iff.mp (hfoot.symm.trans split).symm).1]
        rfl
      · have hfoot : Chunked.framing.foot d.length = chunkFooter := if_neg hzero
        exact decodeFooter_begun hsize slots (hfoot.symm.trans split)
    have hdata := decode_line_data hsize slots lt (Nat.le_refl _) hfooter
    rw [List.append_assoc, List.append_assoc, ← List.append_assoc _ d, hblocks short, hdata]
    split
    · next hzero =>
      have hfoot : Chunked.framing.foot d.length = [] := if_pos hzero
      rw [(List.append_eq_nil_iff.mp (hfoot.symm.trans split).symm).1, decode_nil_body hsize slots,
        List.eq_nil_of_length_eq_zero hzero]
    · rfl

/-- Whatever the encoding, the recipient has what is accounted for. -/
theorem contentSoFar_of_soFar (hsize : h.ChunkSizeLaws) (slots : ParseSlots) {eof : Bool}
    {writer : Unifier.Ready eof} {sent content : Bytes}
    (hsofar : SoFar (idleOf writer).framing (2 ^ 64) sent content) :
    contentSoFar h slots writer sent = content := by
  cases writer with
  | chunked r => exact decode_soFar hsize slots hsofar
  | bodyless r => exact hsofar.eq_of_plain
  | cl r => exact hsofar.eq_of_plain
  | eof a r => exact hsofar.eq_of_plain

/-! ## Between the calls -/

/-- After these calls, at most one piece is in hand; unless the forwarder has failed, the
    recipient has all of what was read before it, and it will have that piece after some more
    polls, and without more of the source, if the sink accepts bytes. -/
structure Side.FlowControlled (S : Side E ε₁ ε₂) (h : Httparse) (chunkSize : Nat)
    (reader : BodyReader E) (writer : Unifier.Ready S.eof) (sink : Sink) (as : List Act) :
    Prop where
  held : (S.after h chunkSize reader writer sink as).relay.sender.pending.length ≤ chunkSize
  shown : (S.after h chunkSize reader writer sink as).relay.errored = false →
    ∃ w, (S.after h chunkSize reader writer sink as).relay.sender.medium.wire = sink.wire ++ w ∧
      ∀ slots, (reader.owed h S.last).body = contentSoFar h slots writer w ++
        (S.after h chunkSize reader writer sink as).relay.sender.pending ++
          ((S.after h chunkSize reader writer sink as).relay.reader.owed h S.last).body
  flushes : (S.after h chunkSize reader writer sink as).relay.errored = false →
    (S.after h chunkSize reader writer sink as).relay.sender.medium.Accepting →
    ∃ n run, ((S.after h chunkSize reader writer sink as).acts (List.replicate n .poll)).2 = run ∧
      run.relay.errored = false ∧ run.relay.sender.pending = [] ∧
      run.relay.reader = (S.after h chunkSize reader writer sink as).relay.reader ∧
      ∃ w, run.relay.sender.medium.wire = sink.wire ++ w ∧
        ∀ slots, (reader.owed h S.last).body = contentSoFar h slots writer w ++
          ((S.after h chunkSize reader writer sink as).relay.reader.owed h S.last).body

section After

variable (hS : S.Lawful) (hidles : S.Idles) (hsize : h.ChunkSizeLaws) (hfields : h.FieldSectionLaws)
variable {chunkSize : Nat} (hpos : 1 ≤ chunkSize) (hword : chunkSize < 2 ^ 64)
variable {reader : BodyReader E} {writer : Unifier.Ready S.eof} {sink : Sink}
include hS hidles hsize hfields hpos hword

/-- What is on the wire after any calls, and what is in hand. -/
theorem Side.after_shown (as : List Act) :
    (S.after h chunkSize reader writer sink as).relay.sender.pending.length ≤ chunkSize ∧
    ((S.after h chunkSize reader writer sink as).relay.errored = false →
      ∃ w, (S.after h chunkSize reader writer sink as).relay.sender.medium.wire = sink.wire ++ w ∧
        ∀ slots, (reader.owed h S.last).body = contentSoFar h slots writer w ++
          (S.after h chunkSize reader writer sink as).relay.sender.pending ++
            ((S.after h chunkSize reader writer sink as).relay.reader.owed h S.last).body) := by
  have hnew : (S.start h chunkSize reader writer sink).relay.Accounted medium (2 ^ 64)
      (idleOf writer) sink.wire (reader.owed h S.last) chunkSize :=
    Relay.new_accounted (C := S.ends h) (M := medium) hword
  have hafter : (S.after h chunkSize reader writer sink as).relay.Accounted medium (2 ^ 64)
      (idleOf writer) sink.wire (reader.owed h S.last) chunkSize :=
    Run.acts_accounted (Unifier.phases_lawful S.eof S.writeFailed)
      (Unifier.phases_guarded S.eof S.writeFailed) (Side.source_lawful hS hsize hfields)
      (Side.source_modest hS hidles hsize hfields) hpos Run.settled_of_none hnew as
  refine ⟨hafter.held, fun herr => ?_⟩
  obtain ⟨data, ⟨w, content, hwire, htold, hdata⟩, howed⟩ := hafter.sent herr
  refine ⟨w, hwire, fun slots => ?_⟩
  rw [contentSoFar_of_soFar hsize slots (htold.soFar (by decide)), hdata]
  exact congrArg Owed.body howed

/-- A forwarder that is paired with its sink is flow-controlled. -/
theorem Side.after_flowControlled (hpaired : Paired S h reader writer) (as : List Act) :
    S.FlowControlled h chunkSize reader writer sink as where
  held := (Side.after_shown hS hidles hsize hfields hpos hword as).1
  shown := (Side.after_shown hS hidles hsize hfields hpos hword as).2
  flushes := by
    intro herr hacc
    obtain ⟨hsettled, hgood | hhalted⟩ : (S.after h chunkSize reader writer sink as).Sound
        (S.task h reader writer sink) (S.Clear h reader sink) :=
      Side.acts_sound hS hsize hfields hpos hword hpaired.fills as
    · obtain ⟨n, -, run, hrun, herr', hreader, hnil⟩ := Run.flushes
        (Side.target_lawful S h reader writer sink) hpaired.fills.admits hsettled hgood hacc
      refine ⟨n, run, hrun, herr', hnil, hreader, ?_⟩
      have hall : S.after h chunkSize reader writer sink (as ++ List.replicate n .poll) = run := by
        rw [← hrun, Side.after, Run.acts_append]
        rfl
      have hshown : (S.after h chunkSize reader writer sink
          (as ++ List.replicate n .poll)).relay.errored = false → _ :=
        (Side.after_shown hS hidles hsize hfields hpos hword (as ++ List.replicate n .poll)).2
      rw [hall, hnil, hreader] at hshown
      simp only [List.append_nil] at hshown
      exact hshown herr'
    · rw [hhalted.1.1] at herr
      cases herr

end After

/-- Both forwarders are flow-controlled after any calls, polled and dropped: for every reader of
    a new body, in whatever pieces it comes and goes. -/
theorem flowControlled (hsize : h.ChunkSizeLaws) (hfields : h.FieldSectionLaws) {chunkSize : Nat}
    (hpos : 1 ≤ chunkSize) (hword : chunkSize < 2 ^ 64) (sink : Sink) (as : List Act) :
    (∀ reader : FrontendBodyReader, reader.Fresh →
      requestSide.FlowControlled h chunkSize reader (requestWriter reader) sink as) ∧
    ∀ (clientCannotChunk : Bool) (reader : BackendBodyReader), reader.Fresh →
      responseSide.FlowControlled h chunkSize reader (responseWriter clientCannotChunk reader) sink
        as := by
  refine ⟨fun reader hfresh => ?_, fun clientCannotChunk reader hfresh => ?_⟩
  · exact Side.after_flowControlled requestSide_lawful requestSide_idles hsize hfields hpos hword
      (request_paired hfresh) as
  · exact Side.after_flowControlled responseSide_lawful responseSide_idles hsize hfields hpos hword
      (response_paired clientCannotChunk hfresh) as

/-- A chunk of which a part is in hand, and a body that ends with its connection. -/
theorem flowControlled_wiki :
    requestSide.FlowControlled reference 3 wikiRequest (requestWriter wikiRequest) slowSink
      droppedCalls ∧
    responseSide.FlowControlled reference 3 wikiResponse (responseWriter false wikiResponse)
      slowSink droppedCalls := by
  obtain ⟨hrequest, hresponse⟩ := @flowControlled reference chunkSizeLaws fieldSectionLaws 3
    (by decide) (by decide) slowSink droppedCalls
  exact ⟨hrequest wikiRequest ⟨_, _, _, _, rfl⟩, hresponse false wikiResponse trivial⟩

end Jrpxy.Proxy
