/-
  Jrpxy.Lib.Lending

  Resources that are lent to jobs, and come back changed.

  A keeper holds resources under names.  A job takes some of them away, and
  when it is done leaves some of them, in whatever state, or none; many jobs
  may be under way at once, and they begin and end in any order.  What a
  resource went through since it was opened is the list of the jobs it was
  lent to (`Linked`); what every job does to it adds up over that list
  (`Linked.consumed`, `Linked.produced`).
-/
import Mathlib.Logic.Function.Basic
import Mathlib.Logic.Relation
import Mathlib.Data.List.Forall2

namespace Lending

variable {ν : Type} {ρ : ν → Type} {ι : Type}

/-- What a kind of jobs takes, and what it leaves of what it takes. -/
structure Terms (ν : Type) (ρ : ν → Type) (ι : Type) where
  takes : ι → (n : ν) → Option (ρ n)
  leaves : ι → (n : ν) → Option (ρ n)

/-- The resources that are idle, each as it was when it was opened, the jobs that are under
    way, and those that are done with each resource. -/
structure Keeper (ν : Type) (ρ : ν → Type) (ι : Type) where
  idle : (n : ν) → Option (ρ n)
  opened : (n : ν) → Option (ρ n)
  running : List ι
  log : ν → List ι

/-- Nothing has been opened. -/
def Keeper.new : Keeper ν ρ ι := ⟨fun _ => none, fun _ => none, [], fun _ => []⟩

variable (T : Terms ν ρ ι)

/-- The job uses what is kept under this name. -/
def Terms.Uses (job : ι) (n : ν) : Prop := (T.takes job n).isSome = true

instance (job : ι) (n : ν) : Decidable (T.Uses job n) :=
  inferInstanceAs (Decidable ((T.takes job n).isSome = true))

/-- A resource under a new name. -/
def Keeper.opens [DecidableEq ν] (k : Keeper ν ρ ι) (n : ν) (r : ρ n) : Keeper ν ρ ι :=
  { k with
    idle := Function.update k.idle n (some r)
    opened := Function.update k.opened n (some r) }

/-- What is idle is closed. -/
def Keeper.closes [DecidableEq ν] (k : Keeper ν ρ ι) (n : ν) : Keeper ν ρ ι :=
  { k with idle := Function.update k.idle n none }

/-- A job begins. -/
def Keeper.lends (k : Keeper ν ρ ι) (job : ι) : Keeper ν ρ ι :=
  { k with
    idle := fun n => if T.Uses job n then none else k.idle n
    running := job :: k.running }

/-- A job that is under way ends. -/
def Keeper.returns (k : Keeper ν ρ ι) (job : ι) (running : List ι) : Keeper ν ρ ι :=
  { k with
    idle := fun n => if T.Uses job n then T.leaves job n else k.idle n
    running
    log := fun n => if T.Uses job n then k.log n ++ [job] else k.log n }

/-- What the job leaves is idle when it has ended. -/
theorem Keeper.returns_idle (k : Keeper ν ρ ι) {job : ι} (running : List ι) {n : ν}
    (huses : T.Uses job n) : (k.returns T job running).idle n = T.leaves job n :=
  if_pos huses

/-- One step of a keeper. -/
inductive Step [DecidableEq ν] (k : Keeper ν ρ ι) : Keeper ν ρ ι → Prop where
  | opens (n : ν) (r : ρ n) (fresh : k.opened n = none) : Step k (k.opens n r)
  | closes (n : ν) : Step k (k.closes n)
  | lends (job : ι) (there : ∀ n r, T.takes job n = some r → k.idle n = some r) :
      Step k (k.lends T job)
  | returns (job : ι) (before after : List ι) (under : k.running = before ++ job :: after) :
      Step k (k.returns T job (before ++ after))

/-- The keepers that any steps lead to. -/
def Reachable [DecidableEq ν] (k : Keeper ν ρ ι) : Prop := Relation.ReflTransGen (Step T) .new k

/-- A resource that was lent to these jobs, one after the other. -/
inductive Linked (n : ν) (r : ρ n) : List ι → ρ n → Prop where
  | nil : Linked n r [] r
  | snoc {jobs : List ι} {r' r'' : ρ n} {job : ι} (before : Linked n r jobs r')
      (taken : T.takes job n = some r') (left : T.leaves job n = some r'') :
      Linked n r (jobs ++ [job]) r''

variable {T}

/-! ## What adds up -/

section Adding

variable {α : Type} {n : ν} {r r' : ρ n} {jobs : List ι}

/-- Jobs that use up a resource from its front have used up what each of them did, in order. -/
theorem Linked.consumed (read : ρ n → List α) (piece : ι → List α)
    (hpiece : ∀ job r r', T.takes job n = some r → T.leaves job n = some r' →
      read r = piece job ++ read r')
    (hlinked : Linked T n r jobs r') : read r = (jobs.map piece).flatten ++ read r' := by
  induction hlinked with
  | nil => rfl
  | snoc before taken left ih =>
    rw [ih, hpiece _ _ _ taken left]
    simp only [List.map_append, List.flatten_append, List.map_cons, List.map_nil, List.flatten_cons,
      List.flatten_nil, List.append_nil, List.append_assoc]

/-- Jobs that add to a resource at its end have added what each of them did, in order. -/
theorem Linked.produced (written : ρ n → List α) (piece : ι → List α)
    (hpiece : ∀ job r r', T.takes job n = some r → T.leaves job n = some r' →
      written r' = written r ++ piece job)
    (hlinked : Linked T n r jobs r') : written r' = written r ++ (jobs.map piece).flatten := by
  induction hlinked with
  | nil => exact (List.append_nil _).symm
  | snoc before taken left ih =>
    rw [hpiece _ _ _ taken left, ih]
    simp only [List.map_append, List.flatten_append, List.map_cons, List.map_nil, List.flatten_cons,
      List.flatten_nil, List.append_nil, List.append_assoc]

/-- Every job of the list took the resource, and left it. -/
theorem Linked.each (hlinked : Linked T n r jobs r') :
    ∀ job ∈ jobs, ∃ s s', T.takes job n = some s ∧ T.leaves job n = some s' := by
  induction hlinked with
  | nil => exact fun _ hjob => absurd hjob List.not_mem_nil
  | snoc before taken left ih =>
    intro job hjob
    rcases List.mem_append.mp hjob with hjob | hjob
    · exact ih job hjob
    · obtain rfl := List.mem_singleton.mp hjob
      exact ⟨_, _, taken, left⟩

end Adding

/-! ## Every reachable keeper -/

/-- The resource is idle, or was lent to a job that is under way. -/
def Keeper.Holds (T : Terms ν ρ ι) (k : Keeper ν ρ ι) (n : ν) (r : ρ n) : Prop :=
  k.idle n = some r ∨ ∃ job ∈ k.running, T.takes job n = some r

/-- Where a resource is, and what it went through: idle or with one job, it is linked to what
    was opened by the jobs that are done with it, and no two jobs share it. -/
structure Keeper.Sound (T : Terms ν ρ ι) (k : Keeper ν ρ ι) : Prop where
  idle : ∀ n r, k.idle n = some r → ∃ r₀, k.opened n = some r₀ ∧ Linked T n r₀ (k.log n) r
  lent : ∀ job ∈ k.running, ∀ n r, T.takes job n = some r →
    ∃ r₀, k.opened n = some r₀ ∧ Linked T n r₀ (k.log n) r
  away : ∀ job ∈ k.running, ∀ n, T.Uses job n → k.idle n = none
  apart : k.running.Pairwise fun job job' => ∀ n, ¬ (T.Uses job n ∧ T.Uses job' n)
  unused : ∀ n, k.opened n = none → k.log n = []

theorem Keeper.sound_new : (Keeper.new : Keeper ν ρ ι).Sound T where
  idle _ _ hidle := by cases hidle
  lent _ hjob := absurd hjob List.not_mem_nil
  away _ hjob := absurd hjob List.not_mem_nil
  apart := .nil
  unused _ _ := rfl

/-- What is lent was opened. -/
theorem Keeper.Sound.opened_of_uses {k : Keeper ν ρ ι} (hk : k.Sound T) {job : ι}
    (hjob : job ∈ k.running) {n : ν} (huses : T.Uses job n) : k.opened n ≠ none := by
  obtain ⟨r, hr⟩ := Option.isSome_iff_exists.mp huses
  obtain ⟨r₀, hopened, -⟩ := hk.lent job hjob n r hr
  rw [hopened]
  exact Option.some_ne_none r₀

theorem Keeper.Sound.opens [DecidableEq ν] {k : Keeper ν ρ ι} (hk : k.Sound T) {n : ν} (r : ρ n)
    (hfresh : k.opened n = none) : (k.opens n r).Sound T := by
  have hother : ∀ job ∈ k.running, ∀ m, T.Uses job m → m ≠ n := by
    rintro job hjob m huses rfl
    exact hk.opened_of_uses hjob huses hfresh
  refine ⟨?_, ?_, ?_, hk.apart, ?_⟩
  · intro m r' hidle
    by_cases hm : m = n
    · subst hm
      simp only [Keeper.opens, Function.update_self, Option.some.injEq] at hidle
      subst hidle
      refine ⟨r, Function.update_self .., ?_⟩
      show Linked T m r (k.log m) r
      rw [hk.unused m hfresh]
      exact .nil
    · simp only [Keeper.opens, Function.update_of_ne hm] at hidle ⊢
      exact hk.idle m r' hidle
  · intro job hjob m r' htakes
    have hm := hother job hjob m (Option.isSome_iff_exists.mpr ⟨r', htakes⟩)
    simp only [Keeper.opens, Function.update_of_ne hm]
    exact hk.lent job hjob m r' htakes
  · intro job hjob m huses
    simp only [Keeper.opens, Function.update_of_ne (hother job hjob m huses)]
    exact hk.away job hjob m huses
  · intro m hnone
    by_cases hm : m = n
    · subst hm
      exact hk.unused m hfresh
    · simp only [Keeper.opens, Function.update_of_ne hm] at hnone
      exact hk.unused m hnone

theorem Keeper.Sound.closes [DecidableEq ν] {k : Keeper ν ρ ι} (hk : k.Sound T) (n : ν) :
    (k.closes n).Sound T := by
  refine ⟨?_, hk.lent, ?_, hk.apart, hk.unused⟩
  · intro m r hidle
    by_cases hm : m = n
    · subst hm
      simp only [Keeper.closes, Function.update_self] at hidle
      cases hidle
    · simp only [Keeper.closes, Function.update_of_ne hm] at hidle
      exact hk.idle m r hidle
  · intro job hjob m huses
    by_cases hm : m = n
    · subst hm
      exact Function.update_self ..
    · simp only [Keeper.closes, Function.update_of_ne hm]
      exact hk.away job hjob m huses

theorem Keeper.Sound.lends {k : Keeper ν ρ ι} (hk : k.Sound T) {job : ι}
    (hthere : ∀ n r, T.takes job n = some r → k.idle n = some r) : (k.lends T job).Sound T := by
  refine ⟨?_, ?_, ?_, List.pairwise_cons.mpr ⟨?_, hk.apart⟩, hk.unused⟩
  · intro n r hidle
    simp only [Keeper.lends] at hidle
    split at hidle
    · cases hidle
    · exact hk.idle n r hidle
  -- the new job has what was idle, and the others have what they had
  · intro job' hjob' n r htakes
    rcases List.mem_cons.mp hjob' with rfl | hjob'
    · exact hk.idle n r (hthere n r htakes)
    · exact hk.lent job' hjob' n r htakes
  · intro job' hjob' n huses
    simp only [Keeper.lends]
    split
    · rfl
    · next hnot =>
      rcases List.mem_cons.mp hjob' with rfl | hjob'
      · exact absurd huses hnot
      · exact hk.away job' hjob' n huses
  · rintro job' hjob' n ⟨huses, huses'⟩
    obtain ⟨r, hr⟩ := Option.isSome_iff_exists.mp huses
    have hidle := hthere n r hr
    rw [hk.away job' hjob' n huses'] at hidle
    cases hidle

theorem Keeper.Sound.returns {k : Keeper ν ρ ι} (hk : k.Sound T) {job : ι}
    {before after : List ι} (hunder : k.running = before ++ job :: after) :
    (k.returns T job (before ++ after)).Sound T := by
  have hjob : job ∈ k.running := by rw [hunder]; simp
  have hrest : ∀ job' ∈ before ++ after, job' ∈ k.running := by
    intro job' hjob'
    rw [hunder]
    rcases List.mem_append.mp hjob' with h | h
    · exact List.mem_append_left _ h
    · exact List.mem_append_right _ (List.mem_cons_of_mem _ h)
  -- the others use other names, so that nothing changes for them
  have hpair := hk.apart
  rw [hunder, List.pairwise_append, List.pairwise_cons] at hpair
  obtain ⟨hbefore, ⟨hjobafter, hafter⟩, hcross⟩ := hpair
  have hothers : ∀ job' ∈ before ++ after, ∀ n, T.Uses job' n → ¬ T.Uses job n := by
    intro job' hjob' n huses' huses
    rcases List.mem_append.mp hjob' with h | h
    · exact hcross job' h job List.mem_cons_self n ⟨huses', huses⟩
    · exact hjobafter job' h n ⟨huses, huses'⟩
  refine ⟨?_, ?_, ?_, ?_, ?_⟩
  · intro n r hidle
    simp only [Keeper.returns] at hidle ⊢
    split at hidle
    · next huses =>
      obtain ⟨r', hr'⟩ := Option.isSome_iff_exists.mp huses
      obtain ⟨r₀, hopened, hlinked⟩ := hk.lent job hjob n r' hr'
      rw [if_pos huses]
      exact ⟨r₀, hopened, .snoc hlinked hr' hidle⟩
    · next hnot =>
      rw [if_neg hnot]
      exact hk.idle n r hidle
  · intro job' hjob' n r htakes
    have hnot := hothers job' hjob' n (Option.isSome_iff_exists.mpr ⟨r, htakes⟩)
    simp only [Keeper.returns, if_neg hnot]
    exact hk.lent job' (hrest job' hjob') n r htakes
  · intro job' hjob' n huses
    simp only [Keeper.returns, if_neg (hothers job' hjob' n huses)]
    exact hk.away job' (hrest job' hjob') n huses
  · refine List.pairwise_append.mpr ⟨hbefore, hafter, ?_⟩
    intro job' hjob' job'' hjob''
    exact hcross job' hjob' job'' (List.mem_cons_of_mem _ hjob'')
  · intro n hnone
    have hnot : ¬ T.Uses job n := fun huses => hk.opened_of_uses hjob huses hnone
    simp only [Keeper.returns, if_neg hnot]
    exact hk.unused n hnone

/-- What is held is linked to what was opened. -/
theorem Keeper.Sound.linked {k : Keeper ν ρ ι} (hk : k.Sound T) {n : ν} {r : ρ n}
    (hholds : k.Holds T n r) : ∃ r₀, k.opened n = some r₀ ∧ Linked T n r₀ (k.log n) r := by
  rcases hholds with hidle | ⟨job, hjob, htakes⟩
  · exact hk.idle n r hidle
  · exact hk.lent job hjob n r htakes

variable [DecidableEq ν]

/-- One step keeps a keeper sound. -/
theorem Keeper.Sound.step {k k' : Keeper ν ρ ι} (hk : k.Sound T) (hstep : Step T k k') :
    k'.Sound T := by
  cases hstep with
  | opens n r fresh => exact hk.opens r fresh
  | closes n => exact hk.closes n
  | lends job there => exact hk.lends there
  | returns job before after under => exact hk.returns under

/-- Every reachable keeper is sound. -/
theorem Reachable.sound {k : Keeper ν ρ ι} (hreach : Reachable T k) : k.Sound T := by
  induction hreach with
  | refl => exact Keeper.sound_new
  | tail _ hstep ih => exact ih.step hstep

end Lending
