/-
  Jrpxy.Proxy.Completion

  A forwarder says that the body is through only when it is.

  Whatever the reader still has to hand out and the writer room for, with any
  piece size and after any calls, the open block owes the bytes in hand
  (`Side.after_owing`).  So the write of the last of them leaves a block that
  can be closed, no write overflows its block, and a forwarder that has read
  its source to the end and has nothing in hand is between two blocks, which
  is all that `finish` asks of it (`forward_completes`).
-/
import Jrpxy.Body.Writer.Budgets
import Jrpxy.Lib.Relay.Owing
import Jrpxy.Proxy.HandBack

namespace Jrpxy.Proxy

open Poll PullStream BlockWriter BodyRelay Util HttpMessage
open Body Body.Reader Body.Writer
open Frontend Backend
open Httparse.Reference (reference chunkSizeLaws fieldSectionLaws)

variable {E ε₁ ε₂ : Type} {S : Side E ε₁ ε₂} {h : Httparse}

/-! ## The source -/

/-- No reader hands out more than it was asked for, also when that is nothing. -/
theorem Side.source_modest (hS : S.Lawful) (hidles : S.Idles) (hsize : h.ChunkSizeLaws)
    (hfields : h.FieldSectionLaws) : Modest (S.ends h).source := by
  intro m r
  rcases Nat.eq_zero_or_pos m with rfl | hpos
  -- asked for nothing, a reader may have more to come, or take itself to be at the end
  · have hsame : NothingTaken S h r r := ⟨Iff.rfl, fun _ => rfl⟩
    refine (Side.handsOutNothing hsize hfields hidles r hsame).mono (fun _ _ => trivial) ?_
      (fun _ _ _ => trivial)
    rintro (_ | d) s hok b hb
    · cases hb
    · cases hb
      rw [hok.1]
      exact Nat.le_refl 0
  · refine (Side.source_lawful hS hsize hfields m r hpos).mono (fun _ _ => trivial) ?_
      (fun _ _ _ => trivial)
    rintro (_ | d) s hok b hb
    · cases hb
    · cases hb
      obtain ⟨-, -, hlen, -⟩ := hok
      exact hlen

/-! ## The target -/

/-- A write of bytes that the block owes is answered by the sink. -/
theorem Unifier.pollWrite_owed {eof : Bool} {f : BodyError → ε₂} {w : Unifier.Write eof}
    {buffer : Bytes} (hne : buffer ≠ [])
    (howed : ((Unifier.phases eof f).writing w).left = buffer.length) (sink : Sink) :
    (Unifier.Write.pollWrite f w buffer sink).1 =
      (sink.pollWrite buffer).1.mapErr (f ∘ .bodyWriteError) := by
  have hpos := List.length_pos_iff.mpr hne
  have hbounded : ∀ {maxLength offset : UInt64},
      maxLength.toNat - offset.toNat = buffer.length →
      ((pollWriteBounded maxLength buffer offset sink).1.mapErr f) =
        (sink.pollWrite buffer).1.mapErr (f ∘ .bodyWriteError) := by
    intro maxLength offset hleft
    rw [(@pollWriteBounded_fits maxLength offset buffer (by omega) sink).1]
    cases (sink.pollWrite buffer).1 with
    | _ => rfl
  cases w with
  -- a block of no body owes nothing
  | bodyless w =>
    have hzero : 0 = buffer.length := howed
    omega
  | cl w => exact hbounded howed
  | chunked w => exact hbounded howed
  | eof a w => exact hbounded howed

/-! ## Between the calls -/

/-- A forwarder after these calls of `forward`, polled and dropped. -/
def Side.after (S : Side E ε₁ ε₂) (h : Httparse) (chunkSize : Nat) (reader : BodyReader E)
    (writer : Unifier.Ready S.eof) (sink : Sink) (as : List Act) : Run (S.ends h) :=
  ((S.start h chunkSize reader writer sink).acts as).2

/-- The writer is there, its block owes what is in hand, and the step that writes it neither
    overflows the block nor fails to close it. -/
structure Side.InStep (S : Side E ε₁ ε₂) (h : Httparse) (relay : Relay (S.ends h)) : Prop where
  alive : relay.errored = false → relay.sender.writer ≠ .poisoned
  opening : ∀ o, relay.sender.writer = .opening o →
    ((S.ends h).target.opening o).data = relay.sender.pending.length
  writing : ∀ w, relay.sender.writer = .writing w →
    ((S.ends h).target.writing w).left = relay.sender.pending.length
  fits : ∀ w k, relay.sender.writer = .writing w →
    ((S.ends h).target.pollWrite relay.sender.pending w relay.sender.medium).1 ≠
      .err (S.writeFailed (.bodyOverflow k))
  closes : ∀ w w' n sink, relay.sender.writer = .writing w →
    (S.ends h).target.pollWrite relay.sender.pending w relay.sender.medium = (.ok n, w', sink) →
    relay.sender.pending.drop n = [] → ∃ c, (S.ends h).target.intoClose w' = .ok c

/-- After these calls the forwarder is in step; it says that the body is through only when it
    has seen the end of the source and has nothing in hand, between two blocks; and when it is
    through in `finish`, `into_ready` succeeds. -/
structure Side.Completes (S : Side E ε₁ ε₂) (h : Httparse) (chunkSize : Nat)
    (reader : BodyReader E) (writer : Unifier.Ready S.eof) (sink : Sink) (as : List Act) :
    Prop where
  inStep : S.InStep h (S.after h chunkSize reader writer sink as).relay
  through : (S.after h chunkSize reader writer sink as).poll.1 = .ok true →
    (S.after h chunkSize reader writer sink as).poll.2.relay.Finished ∧
      ∃ before rest, as = before ++ .poll :: rest ∧
        (S.after h chunkSize reader writer sink before).FindsEnd
  ready : ∀ fuel run, Run.forwardAll fuel
      ⟨(S.after h chunkSize reader writer sink as).relay, none⟩ = (.ok (), run) →
    ∃ r, S.intoReady h run.relay.sender.writer = .ok r

/-- What is in hand is what the block owes, and that is what keeps the forwarder in step. -/
theorem Side.inStep_of_owing (hwrite : Function.Injective S.writeFailed)
    {relay : Relay (S.ends h)} (hrelay : relay.Owing (2 ^ 64)) : S.InStep h relay := by
  obtain ⟨chunkSize, readDone, errored, reader, writer, pending, medium⟩ := relay
  obtain ⟨howing, -, halive⟩ := hrelay
  refine ⟨halive, ?_, ?_, ?_, ?_⟩
  · rintro o rfl
    exact howing.writer.2
  · rintro w rfl
    exact howing.writer.2
  · rintro w k rfl herr
    have hanswer : ((S.ends h).target.pollWrite pending w medium).1 = _ :=
      Unifier.pollWrite_owed howing.writer.1 howing.writer.2 medium
    rw [hanswer] at herr
    -- an error of the sink is no overflow
    generalize (medium.pollWrite pending).1 = answer at herr
    cases answer with
    | err e => cases hwrite (Polled.err.inj herr)
    | _ => cases herr
  · rintro w w' n sink rfl hpoll hall
    exact howing.closes (Unifier.phases_lawful S.eof S.writeFailed)
      (Unifier.phases_guarded S.eof S.writeFailed) hpoll hall

section After

variable (hS : S.Lawful) (hidles : S.Idles) (hwrite : Function.Injective S.writeFailed)
variable (hsize : h.ChunkSizeLaws) (hfields : h.FieldSectionLaws)
variable {chunkSize : Nat} (hword : chunkSize < 2 ^ 64)
variable (reader : BodyReader E) (writer : Unifier.Ready S.eof) (sink : Sink) (as : List Act)
include hS hidles hsize hfields hword

theorem Side.after_owing :
    (S.after h chunkSize reader writer sink as).relay.Owing (2 ^ 64) := by
  have hnew : (S.start h chunkSize reader writer sink).relay.Owing (2 ^ 64) :=
    @Relay.new_owing _ _ _ _ _ _ (S.ends h) _ chunkSize reader writer sink hword
  exact Run.acts_owing (Unifier.phases_lawful S.eof S.writeFailed)
    (Unifier.phases_guarded S.eof S.writeFailed) (Side.source_modest hS hidles hsize hfields)
    Run.settled_of_none hnew as

include hwrite

theorem Side.after_completes : S.Completes h chunkSize reader writer sink as where
  inStep := Side.inStep_of_owing hwrite
    (Side.after_owing hS hidles hsize hfields hword reader writer sink as)
  through := by
    intro hok
    have hsettled : (S.after h chunkSize reader writer sink as).Settled :=
      Run.acts_settled Run.settled_of_none as
    obtain ⟨hsame, hfinished⟩ := Run.poll_through hsettled hok
    rw [hsame]
    exact ⟨hfinished, Run.findsEnd_of_acts as rfl hfinished.1⟩
  ready := by
    intro fuel run hall
    obtain ⟨-, -, -, -, r, hready⟩ := Run.forwardAll_kept (K := fun _ => True)
      (fun _ _ => trivial) fuel Run.settled_of_none trivial hall
    rw [hready]
    exact ⟨r, rfl⟩

end After

/-! ## The two forwarders -/

/-- Both forwarders, whatever the reader and the writer they are made of, are in step after any
    calls, say only then that the body is through when it is, and never finish in the middle
    of a block. -/
theorem forward_completes (hsize : h.ChunkSizeLaws) (hfields : h.FieldSectionLaws)
    {chunkSize : Nat} (hword : chunkSize < 2 ^ 64) (sink : Sink) (as : List Act) :
    (∀ (reader : FrontendBodyReader) (writer : BackendBodyReady),
      requestSide.Completes h chunkSize reader writer sink as) ∧
    (∀ (reader : BackendBodyReader) (writer : FrontendBodyReady),
      responseSide.Completes h chunkSize reader writer sink as) := by
  refine ⟨fun reader writer => ?_, fun reader writer => ?_⟩
  · have hwrite : Function.Injective requestSide.writeFailed :=
      fun _ _ heq => BackendError.bodyWriteError.inj heq
    exact @Side.after_completes _ _ _ requestSide h requestSide_lawful requestSide_idles hwrite
      hsize hfields chunkSize hword reader writer sink as
  · have hwrite : Function.Injective responseSide.writeFailed :=
      fun _ _ heq => FrontendError.bodyWriteError.inj heq
    exact @Side.after_completes _ _ _ responseSide h responseSide_lawful responseSide_idles hwrite
      hsize hfields chunkSize hword reader writer sink as

/-- A declared length with no room for the last of four bytes. -/
def narrowResponse : FrontendBodyReady := .cl (.new 3)

/-- Chunks that are forwarded whole, and a body that is too long. -/
theorem forward_completes_wiki :
    (requestSide.after reference 3 wikiRequest (requestWriter wikiRequest) slowSink
      (droppedCalls ++ List.replicate 24 .poll)).poll.2.relay.Finished ∧
    responseSide.InStep reference (responseSide.after reference 3 wikiResponse narrowResponse
      slowSink (droppedCalls ++ List.replicate 24 .poll)).relay := by
  obtain ⟨hrequest, hresponse⟩ := @forward_completes reference chunkSizeLaws fieldSectionLaws 3
    (by decide) slowSink (droppedCalls ++ List.replicate 24 .poll)
  refine ⟨?_, (hresponse wikiResponse narrowResponse).inStep⟩
  exact ((hrequest wikiRequest (requestWriter wikiRequest)).through (by decide +kernel)).1

end Jrpxy.Proxy
