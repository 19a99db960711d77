/-
  Jrpxy.Lib.SepList

  Lists written as elements between separators, with optional whitespace
  around each element.

  `elements` is the reading by splitting: cut at every separator, trim every
  piece.  Whitespace at the ends of the whole does not matter to it
  (`elements_trim`), and a scanner is compared with it one separator at a time
  (`elements_append_sep`).
-/

namespace SepList

variable {α : Type}

/-- Take whitespace off both ends. -/
def trim (ws : α → Bool) (v : List α) : List α := ((v.dropWhile ws).reverse.dropWhile ws).reverse

/-- The trimmed pieces between separators. -/
def elements [BEq α] (sep : α) (ws : α → Bool) (v : List α) : List (List α) :=
  (v.splitOn sep).map (trim ws)

section Trim

variable {ws : α → Bool} {x v : List α}

theorem trim_append_left (hx : ∀ a ∈ x, ws a = true) (v : List α) :
    trim ws (x ++ v) = trim ws v := by
  rw [trim, List.dropWhile_append_of_pos hx, trim]

theorem trim_append_right (hx : ∀ a ∈ x, ws a = true) (v : List α) :
    trim ws (v ++ x) = trim ws v := by
  have hrev : ∀ a ∈ x.reverse, ws a = true := fun a ha => hx a (List.mem_reverse.mp ha)
  rw [trim, trim, List.dropWhile_append]
  split
  · next hempty =>
    rw [List.isEmpty_iff.mp hempty]
    have hnil : (x ++ []).dropWhile ws = [] := List.dropWhile_append_of_pos hx
    rw [List.append_nil] at hnil
    rw [hnil]
  · rw [List.reverse_append, List.dropWhile_append_of_pos hrev]

/-- What trimming takes off is whitespace. -/
theorem exists_trim (ws : α → Bool) (v : List α) :
    ∃ x y, v = x ++ trim ws v ++ y ∧ (∀ a ∈ x, ws a = true) ∧ ∀ a ∈ y, ws a = true := by
  refine ⟨v.takeWhile ws, ((v.dropWhile ws).reverse.takeWhile ws).reverse, ?_, ?_, ?_⟩
  · have hmiddle : trim ws v ++ ((v.dropWhile ws).reverse.takeWhile ws).reverse =
        v.dropWhile ws := by
      rw [trim, ← List.reverse_append, List.takeWhile_append_dropWhile, List.reverse_reverse]
    rw [List.append_assoc, hmiddle, List.takeWhile_append_dropWhile]
  · exact fun a ha => List.all_eq_true.mp List.all_takeWhile a ha
  · exact fun a ha => List.all_eq_true.mp List.all_takeWhile a (List.mem_reverse.mp ha)

/-- What holds no whitespace is left alone. -/
theorem trim_of_none (hv : ∀ a ∈ v, ws a = false) : trim ws v = v := by
  have hdrop : ∀ l : List α, (∀ a ∈ l, ws a = false) → l.dropWhile ws = l := by
    intro l hl
    cases l with
    | nil => rfl
    | cons a l => rw [List.dropWhile_cons_of_neg (by simp [hl a (by simp)])]
  rw [trim, hdrop v hv, hdrop _ fun a ha => hv a (List.mem_reverse.mp ha), List.reverse_reverse]

/-- What is no whitespace stays. -/
theorem mem_trim {a : α} (ha : a ∈ v) (hws : ws a = false) : a ∈ trim ws v := by
  obtain ⟨x, y, hv, hx, hy⟩ := exists_trim ws v
  rw [hv, List.mem_append, List.mem_append] at ha
  rcases ha with (hmem | hmem) | hmem
  · rw [hx a hmem] at hws
    cases hws
  · exact hmem
  · rw [hy a hmem] at hws
    cases hws

/-- A part that is not all whitespace ends the taking off. -/
theorem dropWhile_append_of_not {u : List α} (hu : ∃ a ∈ u, ws a = false) (v : List α) :
    (u ++ v).dropWhile ws = u.dropWhile ws ++ v := by
  obtain ⟨a, ha, hws⟩ := hu
  rw [List.dropWhile_append, if_neg]
  intro hempty
  have htake : u.takeWhile ws = u := by
    have hsplit := List.takeWhile_append_dropWhile (p := ws) (l := u)
    rwa [List.isEmpty_iff.mp hempty, List.append_nil] at hsplit
  rw [← htake] at ha
  rw [List.all_eq_true.mp List.all_takeWhile a ha] at hws
  cases hws

/-- What stands between two parts that are not all whitespace stays. -/
theorem mem_trim_between {u v : List α} (hu : ∃ a ∈ u, ws a = false)
    (hv : ∃ a ∈ v, ws a = false) (w : α) : w ∈ trim ws (u ++ w :: v) := by
  have hv' : ∃ a ∈ v.reverse, ws a = false := by
    obtain ⟨a, ha, hws⟩ := hv
    exact ⟨a, List.mem_reverse.mpr ha, hws⟩
  rw [trim, dropWhile_append_of_not hu, List.reverse_append, List.reverse_cons, List.append_assoc,
    dropWhile_append_of_not hv']
  simp

end Trim

section Elements

/-- Whitespace is no separator. -/
theorem sep_not_mem {sep : α} {ws : α → Bool} {x : List α} (hsep : ws sep = false)
    (hx : ∀ a ∈ x, ws a = true) : sep ∉ x := by
  intro hmem
  rw [hx sep hmem] at hsep
  cases hsep

variable [BEq α] [LawfulBEq α] {sep : α} {ws : α → Bool} {x v : List α}

theorem elements_of_not_mem (h : sep ∉ v) : elements sep ws v = [trim ws v] := by
  rw [elements, List.splitOn_eq_singleton h, List.map_singleton]

theorem elements_append_sep (h : sep ∉ x) (v : List α) :
    elements sep ws (x ++ sep :: v) = trim ws x :: elements sep ws v := by
  rw [elements, List.splitOn_append_cons_self_of_not_mem h, List.map_cons, elements]

variable (hsep : ws sep = false)
include hsep

theorem elements_append_left (hx : ∀ a ∈ x, ws a = true) (v : List α) :
    elements sep ws (x ++ v) = elements sep ws v := by
  have hnot := sep_not_mem hsep hx
  by_cases hv : sep ∈ v
  · obtain ⟨y, z, rfl, hy⟩ := List.eq_append_cons_of_mem hv
    have hxy : sep ∉ x ++ y := by
      rw [List.mem_append]
      exact fun h => h.elim hnot hy
    rw [← List.append_assoc, elements_append_sep hxy, elements_append_sep hy, trim_append_left hx]
  · have hxv : sep ∉ x ++ v := by
      rw [List.mem_append]
      exact fun h => h.elim hnot hv
    rw [elements_of_not_mem hxv, elements_of_not_mem hv, trim_append_left hx]

theorem elements_append_right (hx : ∀ a ∈ x, ws a = true) (v : List α) :
    elements sep ws (v ++ x) = elements sep ws v := by
  induction hlen : v.length using Nat.strongRecOn generalizing v with
  | ind n ih =>
    by_cases hv : sep ∈ v
    · obtain ⟨y, z, rfl, hy⟩ := List.eq_append_cons_of_mem hv
      have hz : z.length < n := by
        rw [← hlen, List.length_append, List.length_cons]
        omega
      rw [List.append_assoc, List.cons_append, elements_append_sep hy, elements_append_sep hy,
        ih z.length hz z rfl]
    · have hvx : sep ∉ v ++ x := by
        rw [List.mem_append]
        exact fun h => h.elim hv (sep_not_mem hsep hx)
      rw [elements_of_not_mem hvx, elements_of_not_mem hv, trim_append_right hx]

/-- Whitespace around the whole list does not matter. -/
theorem elements_trim (v : List α) : elements sep ws (trim ws v) = elements sep ws v := by
  obtain ⟨x, y, hv, hx, hy⟩ := exists_trim ws v
  conv => rhs; rw [hv]
  rw [elements_append_right hsep hy, elements_append_left hsep hx]

end Elements

end SepList
