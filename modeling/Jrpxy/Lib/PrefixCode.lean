/-
  Jrpxy.Lib.PrefixCode

  Repetition of words none of which starts another.

  Over such a code a string parses from the left in one way: what follows a
  repetition inside a longer one is itself a repetition (`of_append`).  A scan
  that takes word after word and stops where none starts has therefore found
  the longest prefix that is a repetition (`length_le_of_stuck`).
-/
import Mathlib.Computability.Language

namespace PrefixCode

open scoped Computability

/-! ## Repetition of a sum -/

section Kleene

variable {K : Type} [KleeneAlgebra K] (a b : K)

/-- A repetition of either of two is one of the first, again after every one of the second. -/
theorem kstar_add : (a + b)∗ = a∗ * (b * a∗)∗ := by
  have ha : a∗ ≤ (a + b)∗ := kstar_mono le_self_add
  have hb : b ≤ (a + b)∗ := le_trans le_add_self le_kstar
  apply le_antisymm
  · -- the right side starts with nothing, and takes either of the two in front
    have h1 : 1 ≤ a∗ * (b * a∗)∗ := one_le_mul one_le_kstar one_le_kstar
    refine kstar_le_of_mul_le_right h1 ?_
    rw [add_mul]
    refine add_le ?_ ?_
    · rw [← mul_assoc]
      exact mul_le_mul_left mul_kstar_le_kstar _
    · rw [← mul_assoc]
      refine le_trans mul_kstar_le_kstar ?_
      exact le_mul_of_one_le_left' one_le_kstar
  · have hba : (b * a∗)∗ ≤ (a + b)∗ := by
      have hmul : b * a∗ ≤ (a + b)∗ := by
        rw [← kstar_mul_kstar (a + b)]
        exact mul_le_mul' hb ha
      have hstar := kstar_mono hmul
      rwa [kstar_idem] at hstar
    have hprod := mul_le_mul' ha hba
    rwa [kstar_mul_kstar] at hprod

/-- The same, cut at the first one of the second. -/
theorem kstar_add_eq_first : (a + b)∗ = a∗ * (1 + b * (a + b)∗) := by
  calc (a + b)∗ = a∗ * (b * a∗)∗ := kstar_add a b
    _ = a∗ * (1 + b * a∗ * (b * a∗)∗) := by rw [one_add_mul_kstar]
    _ = a∗ * (1 + b * (a + b)∗) := by rw [kstar_add a b, mul_assoc b]

end Kleene

/-! ## Codes -/

section Code

variable {α : Type} {T : Language α}

/-- No word is empty, and none starts another. -/
structure IsPrefixCode (T : Language α) : Prop where
  ne_nil : ∀ w ∈ T, w ≠ []
  eq_of_prefix : ∀ u ∈ T, ∀ w ∈ T, u <+: w → u = w

/-- No word starts the string. -/
def Stuck (T : Language α) (s : List α) : Prop := ∀ w ∈ T, ¬ w <+: s

theorem append_mem_kstar {u v : List α} (hu : u ∈ T∗) (hv : v ∈ T∗) : u ++ v ∈ T∗ := by
  rw [← kstar_mul_kstar T]
  exact Language.append_mem_mul hu hv

theorem mem_kstar_of_mem {w : List α} (hw : w ∈ T) : w ∈ T∗ :=
  (le_kstar : T ≤ T∗) hw

/-- A repetition is empty or starts with a word. -/
theorem kstar_cases {s : List α} (hs : s ∈ T∗) :
    s = [] ∨ ∃ w ∈ T, ∃ t ∈ T∗, s = w ++ t := by
  rw [← one_add_mul_kstar, Language.mem_add, Language.mem_one, Language.mem_mul] at hs
  rcases hs with hnil | ⟨w, hw, t, ht, hst⟩
  · exact .inl hnil
  · exact .inr ⟨w, hw, t, ht, hst.symm⟩

variable (hT : IsPrefixCode T)

include hT

/-- A word in front can be taken off. -/
theorem IsPrefixCode.of_word_append {w s : List α} (hw : w ∈ T) (hs : w ++ s ∈ T∗) : s ∈ T∗ := by
  rcases kstar_cases hs with hnil | ⟨w', hw', t, ht, hst⟩
  · exact absurd (List.append_eq_nil_iff.mp hnil).1 (hT.ne_nil w hw)
  · have hcmp := List.prefix_or_prefix_of_prefix
      (List.prefix_append w s) (hst ▸ List.prefix_append w' t)
    have heq : w = w' := by
      rcases hcmp with h | h
      · exact hT.eq_of_prefix w hw w' hw' h
      · exact (hT.eq_of_prefix w' hw' w hw h).symm
    subst heq
    exact List.append_cancel_left hst ▸ ht

/-- A repetition in front can be taken off. -/
theorem IsPrefixCode.of_append {u v : List α} (hu : u ∈ T∗) (huv : u ++ v ∈ T∗) : v ∈ T∗ := by
  obtain ⟨ws, rfl, hws⟩ := Language.mem_kstar.mp hu
  clear hu
  induction ws with
  | nil => exact huv
  | cons w ws ih =>
    rw [List.flatten_cons, List.append_assoc] at huv
    have hrest := hT.of_word_append (hws w List.mem_cons_self) huv
    exact ih (fun y hy => hws y (List.mem_cons_of_mem w hy)) hrest

omit hT in
/-- Where the scan is stuck, only the empty repetition fits. -/
theorem eq_nil_of_stuck {u s : List α} (hs : Stuck T s) (hu : u ∈ T∗) (hus : u <+: s) :
    u = [] := by
  rcases kstar_cases hu with hnil | ⟨w, hw, t, -, rfl⟩
  · exact hnil
  · exact absurd ((List.prefix_append w t).trans hus) (hs w hw)

/-- A repetition the scan found before it got stuck is the longest that starts the string. -/
theorem IsPrefixCode.length_le_of_stuck {u s v : List α} (hu : u ∈ T∗) (hs : Stuck T s)
    (hv : v ∈ T∗) (hvs : v <+: u ++ s) : v.length ≤ u.length := by
  by_contra hlt
  have huv : u <+: v :=
    List.prefix_of_prefix_length_le (List.prefix_append u s) hvs (by omega)
  obtain ⟨t, rfl⟩ := huv
  have ht : t ∈ T∗ := hT.of_append hu hv
  have hnil := eq_nil_of_stuck hs ht ((List.prefix_append_right_inj u).mp hvs)
  subst hnil
  simp at hlt

end Code

end PrefixCode
