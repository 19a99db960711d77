/-
  Jrpxy.Proxy.Session

  Connections that are used again and again.

  A proxy holds any number of connections to clients and to backends, and
  pairs them up for one exchange after the other; many exchanges are under way
  at once, and a request may also be refused.  A keeper of such connections
  lends them and takes back what is handed back (`Lending`).  Whatever the
  order, on every connection that is still held the messages stand whole, one
  behind the other, each beside the one it was passed on from
  (`session_transcribed`).
-/
import Jrpxy.Lib.Lending
import Jrpxy.Proxy.Refusal

namespace Jrpxy.Proxy

open Lending Util HttpMessage Body Frontend Backend

open Httparse.Reference (reference chunkSizeLaws fieldSectionLaws requestLaws responseLaws
  responseHeadLaws)

variable {h : Httparse} {κ : Type}

/-- The names connections are held under. -/
inductive ConnectionName (κ : Type) where
  | client (c : κ)
  | backend (b : κ)
  deriving DecidableEq

/-- What is held under a name. -/
abbrev Connection : ConnectionName κ → Type
  | .client _ => FrontendReader × FrontendWriter
  | .backend _ => BackendReader × BackendWriter

/-- What connections are lent to: an exchange, a refusal, or something that uses one up. -/
inductive Job (h : Httparse) (κ : Type) where
  | exchange (x : Exchange h) (pos : 1 ≤ x.options.bodyChunkSize) (client backend : κ)
  | refusal (x : Refusal h) (client : κ)
  | lost (name : ConnectionName κ) (connection : Connection name)

variable [DecidableEq κ]

/-- The connections a job takes. -/
def Job.takes : Job h κ → (name : ConnectionName κ) → Option (Connection name)
  | .exchange x _ client _, .client c =>
    if c = client then some (x.frontendReader, x.frontendWriter) else none
  | .exchange x _ _ backend, .backend b =>
    if b = backend then some (x.backendReader, x.backendWriter) else none
  | .refusal x client, .client c =>
    if c = client then some (x.frontendReader, x.frontendWriter) else none
  | .refusal _ _, .backend _ => none
  | .lost name connection, name' => if hname : name = name' then some (hname ▸ connection) else none

/-- The connections it hands back. -/
def Job.leaves : Job h κ → (name : ConnectionName κ) → Option (Connection name)
  | .exchange x _ client _, .client c => if c = client then x.frontend else none
  | .exchange x _ _ backend, .backend b => if b = backend then x.backend else none
  | .refusal x client, .client c => if c = client then x.frontend else none
  | .refusal _ _, .backend _ => none
  | .lost _ _, _ => none

/-- The terms on which connections are lent. -/
def terms (h : Httparse) (κ : Type) [DecidableEq κ] :
    Terms (ConnectionName κ) Connection (Job h κ) :=
  ⟨Job.takes, Job.leaves⟩

/-- When an exchange has ended, idle is what it hands back. -/
theorem Job.idle_returns (k : Keeper (ConnectionName κ) Connection (Job h κ)) (x : Exchange h)
    (pos : 1 ≤ x.options.bodyChunkSize) (c b : κ) (running : List (Job h κ)) :
    (k.returns (terms h κ) (.exchange x pos c b) running).idle (.client c) = x.frontend ∧
      (k.returns (terms h κ) (.exchange x pos c b) running).idle (.backend b) = x.backend := by
  have hclient : (terms h κ).Uses (.exchange x pos c b) (.client c) :=
    congrArg Option.isSome (if_pos rfl)
  have hbackend : (terms h κ).Uses (.exchange x pos c b) (.backend b) :=
    congrArg Option.isSome (if_pos rfl)
  rw [Keeper.returns_idle _ k running hclient, Keeper.returns_idle _ k running hbackend]
  exact ⟨if_pos rfl, if_pos rfl⟩

/-- What the transcript of a job says of the job. -/
def Job.Told (t : Transcript) : Job h κ → Prop
  | .exchange x _ _ _ => Transcribes x x t
  | .refusal x _ => ∀ c, x.frontend = some c →
      Answers x t.asked t.relayed c.1.reader.unread ∧
        c.2.writer.wire = x.frontendWriter.writer.wire ++ t.relayed
  | .lost _ _ => True

omit [DecidableEq κ] in
/-- Every job has a transcript. -/
theorem Job.told (hsize : h.ChunkSizeLaws) (hfields : h.FieldSectionLaws)
    (requestLaws : h.RequestLaws) (laws : h.ResponseLaws) (headLaws : h.ResponseHeadLaws)
    (job : Job h κ) : ∃ t, job.Told t := by
  cases job with
  | exchange x pos client backend =>
    exact x.transcribed hsize hfields requestLaws laws headLaws pos
  | refusal x client =>
    cases hfrontend : x.frontend with
    | none =>
      refine ⟨⟨[], [], [], [], []⟩, fun c hc => ?_⟩
      rw [hfrontend] at hc
      cases hc
    | some c =>
      obtain ⟨asked, relayed, hanswers, hwire⟩ := x.answered hsize hfields requestLaws hfrontend
      refine ⟨⟨asked, [], [], relayed, []⟩, fun c' hc' => ?_⟩
      cases hfrontend.symm.trans hc'
      exact ⟨hanswers, hwire⟩
  | lost name connection => exact ⟨⟨[], [], [], [], []⟩, trivial⟩

/-! ## What a job does to a connection -/

section OneJob

variable {job : Job h κ} {t : Transcript}

/-- A client's connection that is handed back has the request read off it, and the answer
    written on it. -/
theorem Job.Told.client (htold : job.Told t) {n : κ}
    {c c' : FrontendReader × FrontendWriter}
    (htakes : job.takes (.client n) = some c) (hleaves : job.leaves (.client n) = some c') :
    c.1.reader.unread = t.asked ++ c'.1.reader.unread ∧
      c'.2.writer.wire = c.2.writer.wire ++ t.relayed := by
  cases job with
  | exchange x pos client backend =>
    simp only [Job.takes, Job.leaves] at htakes hleaves
    split at htakes
    · next hn =>
      rw [if_pos hn] at hleaves
      cases htakes
      obtain ⟨rest, hasked, hrest⟩ := htold.frontendReader
      rw [hrest c' hleaves, htold.frontendWriter c' hleaves]
      exact ⟨hasked, htold.frontendSink⟩
    · cases htakes
  | refusal x client =>
    simp only [Job.takes, Job.leaves] at htakes hleaves
    split at htakes
    · next hn =>
      rw [if_pos hn] at hleaves
      cases htakes
      obtain ⟨hanswers, hwire⟩ := htold c' hleaves
      exact ⟨hanswers.frontendReader, hwire⟩
    · cases htakes
  | lost name connection => cases hleaves

/-- A backend's connection that is handed back has the answer read off it, and the request
    written on it. -/
theorem Job.Told.backend (htold : job.Told t) {n : κ}
    {c c' : BackendReader × BackendWriter}
    (htakes : job.takes (.backend n) = some c) (hleaves : job.leaves (.backend n) = some c') :
    c.1.reader.unread = t.answered ++ c'.1.reader.unread ∧
      c'.2.writer.wire = c.2.writer.wire ++ t.forwarded := by
  cases job with
  | exchange x pos client backend =>
    simp only [Job.takes, Job.leaves] at htakes hleaves
    split at htakes
    · next hn =>
      rw [if_pos hn] at hleaves
      cases htakes
      obtain ⟨rest, hanswered, hrest⟩ := htold.backendReader
      rw [hrest c' hleaves, htold.backendWriter c' hleaves]
      exact ⟨hanswered, htold.backendSink⟩
    · cases htakes
  | refusal x client => cases htakes
  | lost name connection => cases hleaves

end OneJob

/-! ## Every session -/

/-- What is read off every connection that is held, and written on it, is what the jobs of its
    log read and wrote, in order; they all handed it back; and no two jobs share a
    connection. -/
structure Transcribed (τ : Job h κ → Transcript)
    (k : Keeper (ConnectionName κ) Connection (Job h κ)) : Prop where
  client : ∀ n (c : FrontendReader × FrontendWriter), k.Holds (terms h κ) (.client n) c →
    ∃ c₀ : FrontendReader × FrontendWriter, k.opened (.client n) = some c₀ ∧
      c₀.1.reader.unread = ((k.log (.client n)).map fun job => (τ job).asked).flatten ++
        c.1.reader.unread ∧
      c.2.writer.wire = c₀.2.writer.wire ++
        ((k.log (.client n)).map fun job => (τ job).relayed).flatten
  backend : ∀ n (c : BackendReader × BackendWriter), k.Holds (terms h κ) (.backend n) c →
    ∃ c₀ : BackendReader × BackendWriter, k.opened (.backend n) = some c₀ ∧
      c₀.1.reader.unread = ((k.log (.backend n)).map fun job => (τ job).answered).flatten ++
        c.1.reader.unread ∧
      c.2.writer.wire = c₀.2.writer.wire ++
        ((k.log (.backend n)).map fun job => (τ job).forwarded).flatten
  whole : ∀ name c, k.Holds (terms h κ) name c → ∀ job ∈ k.log name,
    (job.takes name).isSome = true ∧ (job.leaves name).isSome = true
  apart : k.running.Pairwise fun job job' =>
    ∀ name, ¬ ((job.takes name).isSome = true ∧ (job'.takes name).isSome = true)

/-- A keeper that is sound is transcribed. -/
theorem transcribed_of_sound {τ : Job h κ → Transcript} (htold : ∀ job : Job h κ, job.Told (τ job))
    {k : Keeper (ConnectionName κ) Connection (Job h κ)} (hk : k.Sound (terms h κ)) :
    Transcribed τ k where
  client n c hholds := by
    obtain ⟨c₀, hopened, hlinked⟩ := hk.linked hholds
    refine ⟨c₀, hopened, ?_, ?_⟩
    · exact hlinked.consumed (fun c : FrontendReader × FrontendWriter => c.1.reader.unread)
        (τ · |>.asked) fun job _ _ htakes hleaves => ((htold job).client htakes hleaves).1
    · exact hlinked.produced (fun c : FrontendReader × FrontendWriter => c.2.writer.wire)
        (τ · |>.relayed) fun job _ _ htakes hleaves => ((htold job).client htakes hleaves).2
  backend n c hholds := by
    obtain ⟨c₀, hopened, hlinked⟩ := hk.linked hholds
    refine ⟨c₀, hopened, ?_, ?_⟩
    · exact hlinked.consumed (fun c : BackendReader × BackendWriter => c.1.reader.unread)
        (τ · |>.answered) fun job _ _ htakes hleaves => ((htold job).backend htakes hleaves).1
    · exact hlinked.produced (fun c : BackendReader × BackendWriter => c.2.writer.wire)
        (τ · |>.forwarded) fun job _ _ htakes hleaves => ((htold job).backend htakes hleaves).2
  whole name c hholds job hjob := by
    obtain ⟨c₀, -, hlinked⟩ := hk.linked hholds
    obtain ⟨s, s', htakes, hleaves⟩ := hlinked.each job hjob
    exact ⟨Option.isSome_iff_exists.mpr ⟨s, htakes⟩, Option.isSome_iff_exists.mpr ⟨s', hleaves⟩⟩
  apart := hk.apart

/-- In every session, each job has a transcript, and every connection that is held has gone
    through the transcripts of its jobs, in order: with any number of clients and backends,
    their exchanges interleaved in any order, and any of them refused or lost. -/
theorem session_transcribed (hsize : h.ChunkSizeLaws) (hfields : h.FieldSectionLaws)
    (requestLaws : h.RequestLaws) (laws : h.ResponseLaws) (headLaws : h.ResponseHeadLaws) :
    ∃ τ : Job h κ → Transcript, (∀ job : Job h κ, job.Told (τ job)) ∧
      ∀ k, Reachable (terms h κ) k → Transcribed τ k := by
  obtain ⟨τ, htold⟩ := Classical.axiomOfChoice
    (fun job : Job h κ => job.told hsize hfields requestLaws laws headLaws)
  exact ⟨τ, htold, fun k hreach => transcribed_of_sound htold hreach.sound⟩

/-- The exchange of the client 1 with the backend 2. -/
def keptJob : Job reference Nat :=
  .exchange keptExchange (show 1 ≤ ProxyOptions.default.bodyChunkSize by decide) 1 2

/-- A keeper of these two connections, from which that exchange took them. -/
def keptLent : Keeper (ConnectionName Nat) Connection (Job reference Nat) :=
  ((Keeper.new.opens (.client 1) (keptExchange.frontendReader, keptExchange.frontendWriter)).opens
    (.backend 2) (keptExchange.backendReader, keptExchange.backendWriter)).lends
    (terms reference Nat) keptJob

/-- The same keeper, when they are handed back. -/
def keptReturned : Keeper (ConnectionName Nat) Connection (Job reference Nat) :=
  keptLent.returns (terms reference Nat) keptJob []

theorem keptReturned_reachable : Reachable (terms reference Nat) keptReturned := by
  have hopened : Reachable (terms reference Nat) _ :=
    (Relation.ReflTransGen.refl.tail (.opens (.client 1)
      (keptExchange.frontendReader, keptExchange.frontendWriter) rfl)).tail
        (.opens (.backend 2) (keptExchange.backendReader, keptExchange.backendWriter) rfl)
  refine (hopened.tail (.lends keptJob ?_)).tail (.returns keptJob [] [] rfl)
  intro name c htakes
  cases name with
  | client n =>
    have htakes : (if n = 1 then some (keptExchange.frontendReader, keptExchange.frontendWriter)
      else none) = some c := htakes
    split at htakes
    · next hn =>
      subst hn
      exact htakes
    · cases htakes
  | backend n =>
    have htakes : (if n = 2 then some (keptExchange.backendReader, keptExchange.backendWriter)
      else none) = some c := htakes
    split at htakes
    · next hn =>
      subst hn
      exact htakes
    · cases htakes

theorem session_transcribed_kept :
    ∃ τ : Job reference Nat → Transcript, (∀ job : Job reference Nat, job.Told (τ job)) ∧
      (keptReturned.idle (.client 1)).isSome = true ∧
      (keptReturned.idle (.backend 2)).isSome = true ∧ Transcribed τ keptReturned := by
  obtain ⟨τ, htold, hall⟩ : ∃ τ : Job reference Nat → Transcript,
      (∀ job : Job reference Nat, job.Told (τ job)) ∧
        ∀ k, Reachable (terms reference Nat) k → Transcribed τ k :=
    session_transcribed chunkSizeLaws fieldSectionLaws requestLaws responseLaws responseHeadLaws
  obtain ⟨hclient, hbackend⟩ := Job.idle_returns keptLent keptExchange
    (show 1 ≤ ProxyOptions.default.bodyChunkSize by decide) 1 2 []
  rw [keptReturned, keptJob, hclient, hbackend]
  exact ⟨τ, htold, by decide +kernel, by decide +kernel, hall _ keptReturned_reachable⟩

end Jrpxy.Proxy
