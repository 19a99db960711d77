/-
  Jrpxy.Lib.StreamParser

  Incremental recognisers of the head of a stream.

  A stream parser is handed everything that has arrived so far and answers
  that it needs more, that the stream is malformed, or that a complete item
  occupies the first `n` elements.  `StreamParser` says what makes such a
  function usable on a stream cut into pieces: a complete answer depends on
  the item's own elements only, and a malformed stream stays malformed
  whatever follows.  It follows that every proper beginning of a complete
  item is answered by "needs more" (`incomplete_of_take`), and that the answer
  on the whole stream is reached whatever the pieces are.

  Recognisers of one element and of a run of elements are stream parsers, and
  so are two in sequence (`StreamParser.seq`); each comes with what it
  recognises and with what it answers on input of that shape.
-/

namespace Incremental

/-- What an incremental parser says about the elements it was shown. -/
inductive Status (α : Type) where
  | incomplete
  | complete (a : α)
  deriving DecidableEq, Repr

variable {β ε α : Type}

/-- Compute something from the item. -/
def Status.mapItem {γ : Type} (f : α → γ) : Status (Nat × α) → Status (Nat × γ)
  | .incomplete => .incomplete
  | .complete (n, a) => .complete (n, f a)

/-- The answers of `parse` are the answers of one left-to-right recogniser
    that stops as soon as it can. -/
structure StreamParser (parse : List β → Except ε (Status (Nat × α))) : Prop where
  /-- An item lies within what was shown. -/
  length_le : ∀ {s n a}, parse s = .ok (.complete (n, a)) → n ≤ s.length
  /-- A complete item is recognised from its own elements, whatever follows. -/
  stable : ∀ {s n a}, parse s = .ok (.complete (n, a)) →
    ∀ t, parse (s.take n ++ t) = .ok (.complete (n, a))
  /-- A malformed stream stays malformed. -/
  error_append : ∀ {s e}, parse s = .error e → ∀ t, ∃ e', parse (s ++ t) = .error e'

namespace StreamParser

variable {parse : List β → Except ε (Status (Nat × α))} (hp : StreamParser parse)
include hp

/-- More input does not change a complete answer. -/
theorem complete_append {s : List β} {n : Nat} {a : α}
    (h : parse s = .ok (.complete (n, a))) (t : List β) :
    parse (s ++ t) = .ok (.complete (n, a)) := by
  have h' := hp.stable h (s.drop n ++ t)
  rwa [← List.append_assoc, List.take_append_drop] at h'

/-- Of two items in front of one stream neither is the beginning of the other. -/
theorem complete_unique {s s' rest rest' : List β} {a a' : α}
    (h : parse s = .ok (.complete (s.length, a)))
    (h' : parse s' = .ok (.complete (s'.length, a')))
    (hsame : s ++ rest = s' ++ rest') : s = s' ∧ a = a' := by
  have hwhole := hp.complete_append h rest
  rw [hsame, hp.complete_append h' rest'] at hwhole
  obtain ⟨hlength, rfl⟩ := Prod.mk.inj (Status.complete.inj (Except.ok.inj hwhole))
  exact ⟨List.append_inj_left hsame hlength.symm, rfl⟩

/-- The item alone is recognised. -/
theorem complete_take {s : List β} {n k : Nat} {a : α}
    (h : parse s = .ok (.complete (n, a))) (hk : n ≤ k) :
    parse (s.take k) = .ok (.complete (n, a)) := by
  have h' := hp.stable h ((s.take k).drop n)
  have hsplit : s.take n ++ (s.take k).drop n = s.take k :=
    calc s.take n ++ (s.take k).drop n
        = (s.take k).take n ++ (s.take k).drop n := by rw [List.take_take, Nat.min_eq_left hk]
      _ = s.take k := List.take_append_drop n _
  rwa [hsplit] at h'

/-- Every proper beginning of an item asks for more. -/
theorem incomplete_of_take {s : List β} {n k : Nat} {a : α}
    (h : parse s = .ok (.complete (n, a))) (hk : k < n) :
    parse (s.take k) = .ok .incomplete := by
  have hn := hp.length_le h
  rcases hres : parse (s.take k) with e | (_ | ⟨m, b⟩)
  · obtain ⟨e', he'⟩ := hp.error_append hres (s.drop k)
    rw [List.take_append_drop, h] at he'
    cases he'
  · rfl
  · have hm := hp.length_le hres
    have hfull := hp.complete_append hres (s.drop k)
    rw [List.take_append_drop, h] at hfull
    rw [List.length_take] at hm
    cases hfull
    omega

/-- The answer on a beginning `p` of the stream `p ++ t` whose answer is
    complete: the same answer once the item has arrived, "needs more" before. -/
theorem answer_of_append {p t : List β} {n : Nat} {a : α}
    (h : parse (p ++ t) = .ok (.complete (n, a))) :
    parse p = if n ≤ p.length then .ok (.complete (n, a)) else .ok .incomplete := by
  have htake : (p ++ t).take p.length = p := List.take_left
  split
  · next hle =>
    have h' := hp.complete_take h hle
    rwa [htake] at h'
  · next hlt =>
    have h' := hp.incomplete_of_take h (Nat.lt_of_not_le hlt)
    rwa [htake] at h'

/-- Behind a malformed beginning nothing is complete. -/
theorem not_complete_of_error {p : List β} {e : ε} (h : parse p = .error e) (t : List β)
    (n : Nat) (a : α) : parse (p ++ t) ≠ .ok (.complete (n, a)) := by
  obtain ⟨e', he'⟩ := hp.error_append h t
  rw [he']
  exact fun hc => by cases hc

/-- While more is asked for, the item has not arrived. -/
theorem lt_of_incomplete {p t : List β} {n : Nat} {a : α} (h : parse p = .ok .incomplete)
    (hc : parse (p ++ t) = .ok (.complete (n, a))) : p.length < n := by
  apply Nat.lt_of_not_le
  intro hle
  rw [hp.answer_of_append hc, if_pos hle] at h
  cases h

/-- What is computed from the item does not matter. -/
theorem map {γ : Type} (f : α → γ) :
    StreamParser fun s => (parse s).map (Status.mapItem f) where
  length_le {s n c} h := by
    rcases hs : parse s with e | (_ | ⟨m, a⟩)
    · simp [hs, Except.map] at h
    · simp [hs, Except.map, Status.mapItem] at h
    · simp only [hs, Except.map, Status.mapItem] at h
      cases h
      exact hp.length_le hs
  stable {s n c} h t := by
    rcases hs : parse s with e | (_ | ⟨m, a⟩)
    · simp [hs, Except.map] at h
    · simp [hs, Except.map, Status.mapItem] at h
    · simp only [hs, Except.map, Status.mapItem] at h ⊢
      cases h
      rw [hp.stable hs t]
  error_append {s e} h t := by
    rcases hs : parse s with e' | (_ | ⟨m, a⟩)
    · obtain ⟨e'', he''⟩ := hp.error_append hs t
      exact ⟨e'', by simp only [he'', Except.map]⟩
    · simp [hs, Except.map] at h
    · simp [hs, Except.map] at h

end StreamParser

/-! ## Composition -/

/-- What a parser answers. -/
abbrev Answer (ε α : Type) := Except ε (Status (Nat × α))

/-- An item behind `k` elements already recognised. -/
def Answer.shift (k : Nat) (x : Answer ε α) : Answer ε α :=
  x.map fun
    | .incomplete => .incomplete
    | .complete (n, a) => .complete (k + n, a)

@[simp] theorem Answer.shift_complete (k n : Nat) (a : α) :
    Answer.shift k (.ok (.complete (n, a)) : Answer ε α) = .ok (.complete (k + n, a)) := rfl

/-- Recognise nothing. -/
def yields (a : α) : List β → Answer ε α := fun _ => .ok (.complete (0, a))

/-- Reject everything. -/
def rejects (e : ε) : List β → Answer ε α := fun _ => .error e

/-- Recognise one element. -/
def element (check : β → Except ε α) : List β → Answer ε α
  | [] => .ok .incomplete
  | b :: _ => (check b).map fun a => .complete (1, a)

/-- Recognise a run of elements and the element that ends it. -/
def word (p : β → Bool) (check : List β → β → Except ε α) (s : List β) : Answer ε α :=
  match s.dropWhile p with
  | [] => .ok .incomplete
  | d :: _ => (check (s.takeWhile p) d).map fun a => .complete ((s.takeWhile p).length + 1, a)

/-- One parser behind another, which is told how much the first recognised. -/
def seq {γ : Type} (parse : List β → Answer ε α) (next : Nat → α → List β → Answer ε γ)
    (s : List β) : Answer ε γ :=
  match parse s with
  | .error e => .error e
  | .ok .incomplete => .ok .incomplete
  | .ok (.complete (n, a)) => (next n a (s.drop n)).shift n

theorem yields_streamParser (a : α) : StreamParser (yields a : List β → Answer ε α) where
  length_le h := by
    cases h
    exact Nat.zero_le _
  stable h t := by
    cases h
    rfl
  error_append h := by cases h

theorem rejects_streamParser (e : ε) : StreamParser (rejects e : List β → Answer ε α) where
  length_le h := by cases h
  stable h := by cases h
  error_append _ _ := ⟨e, rfl⟩

theorem element_complete {check : β → Except ε α} {s : List β} {n : Nat} {a : α}
    (h : element check s = .ok (.complete (n, a))) :
    ∃ b rest, s = b :: rest ∧ check b = .ok a ∧ n = 1 := by
  cases s with
  | nil => cases h
  | cons b rest =>
    rw [element] at h
    rcases hc : check b with e | a'
    · rw [hc] at h; cases h
    · rw [hc] at h
      cases h
      exact ⟨b, rest, rfl, hc, rfl⟩

theorem element_cons {check : β → Except ε α} {b : β} {a : α} (h : check b = .ok a)
    (s : List β) : element check (b :: s) = .ok (.complete (1, a)) := by
  rw [element, h]
  rfl

theorem element_streamParser (check : β → Except ε α) : StreamParser (element check) where
  length_le h := by
    obtain ⟨b, rest, rfl, -, rfl⟩ := element_complete h
    exact Nat.le_add_left 1 rest.length
  stable h t := by
    obtain ⟨b, rest, rfl, hc, rfl⟩ := element_complete h
    exact element_cons hc _
  error_append {s e} h t := by
    cases s with
    | nil => cases h
    | cons b rest => exact ⟨e, h⟩

/-- A run of elements that ends is recognised whatever follows. -/
theorem word_append {p : β → Bool} {check : List β → β → Except ε α} {w : List β} {d : β}
    (hw : ∀ b ∈ w, p b = true) (hd : p d = false) (s : List β) :
    word p check (w ++ d :: s) =
      (check w d).map fun a => .complete (w.length + 1, a) := by
  have hdrop : (w ++ d :: s).dropWhile p = d :: s := by
    rw [List.dropWhile_append_of_pos hw, List.dropWhile_cons_of_neg (by simp [hd])]
  have htake : (w ++ d :: s).takeWhile p = w := by
    rw [List.takeWhile_append_of_pos hw, List.takeWhile_cons_of_neg (by simp [hd]),
      List.append_nil]
  rw [word, hdrop, htake]

/-- Either a run has not ended yet, or it has. -/
theorem word_cases (p : β → Bool) (s : List β) :
    s.dropWhile p = [] ∨ ∃ w d rest, s = w ++ d :: rest ∧ (∀ b ∈ w, p b = true) ∧ p d = false := by
  rcases hdrop : s.dropWhile p with _ | ⟨d, rest⟩
  · exact .inl rfl
  · refine .inr ⟨s.takeWhile p, d, rest, ?_, ?_, ?_⟩
    · rw [← hdrop, List.takeWhile_append_dropWhile]
    · exact List.all_eq_true.mp List.all_takeWhile
    · have hnot := List.head?_dropWhile_not p s
      rw [hdrop] at hnot
      simpa using hnot

theorem word_complete {p : β → Bool} {check : List β → β → Except ε α} {s : List β} {n : Nat}
    {a : α} (h : word p check s = .ok (.complete (n, a))) :
    ∃ w d rest, s = w ++ d :: rest ∧ (∀ b ∈ w, p b = true) ∧ p d = false ∧
      check w d = .ok a ∧ n = w.length + 1 := by
  rcases word_cases p s with hnil | ⟨w, d, rest, rfl, hw, hd⟩
  · rw [word, hnil] at h
    cases h
  · rw [word_append hw hd] at h
    rcases hc : check w d with e | a'
    · rw [hc] at h; cases h
    · rw [hc] at h
      cases h
      exact ⟨w, d, rest, rfl, hw, hd, hc, rfl⟩

theorem word_streamParser (p : β → Bool) (check : List β → β → Except ε α) :
    StreamParser (word p check) where
  length_le h := by
    obtain ⟨w, d, rest, rfl, -, -, -, rfl⟩ := word_complete h
    rw [List.length_append, List.length_cons]
    omega
  stable h t := by
    obtain ⟨w, d, rest, rfl, hw, hd, hc, rfl⟩ := word_complete h
    have htake : (w ++ d :: rest).take (w.length + 1) = w ++ [d] := by
      rw [show w ++ d :: rest = (w ++ [d]) ++ rest by simp,
        show w.length + 1 = (w ++ [d]).length by simp, List.take_left]
    rw [htake, List.append_assoc, List.singleton_append, word_append hw hd, hc]
    rfl
  error_append {s e} h t := by
    rcases word_cases p s with hnil | ⟨w, d, rest, rfl, hw, hd⟩
    · rw [word, hnil] at h
      cases h
    · rw [word_append hw hd] at h
      refine ⟨e, ?_⟩
      rw [List.append_assoc, List.cons_append, word_append hw hd, h]

theorem seq_complete {γ : Type} {parse : List β → Answer ε α} {next : Nat → α → List β → Answer ε γ}
    {s : List β} {n : Nat} {c : γ} (h : seq parse next s = .ok (.complete (n, c))) :
    ∃ k m a, parse s = .ok (.complete (k, a)) ∧
      next k a (s.drop k) = .ok (.complete (m, c)) ∧ n = k + m := by
  unfold seq at h
  rcases hp : parse s with e | (_ | ⟨k, a⟩)
  · rw [hp] at h; cases h
  · rw [hp] at h; cases h
  · simp only [hp] at h
    rcases hn : next k a (s.drop k) with e | (_ | ⟨m, c'⟩)
    · rw [hn] at h; cases h
    · rw [hn] at h; cases h
    · rw [hn] at h
      cases h
      exact ⟨k, m, a, rfl, hn, rfl⟩

/-- The second parser runs behind a complete first one. -/
theorem seq_of_complete {γ : Type} {parse : List β → Answer ε α}
    {next : Nat → α → List β → Answer ε γ} {s : List β} {k : Nat} {a : α}
    (h : parse s = .ok (.complete (k, a))) :
    seq parse next s = (next k a (s.drop k)).shift k := by
  simp only [seq, h]

/-- Running the second parser behind what the first recognised. -/
theorem seq_append {γ : Type} {parse : List β → Answer ε α} {next : Nat → α → List β → Answer ε γ}
    {x y : List β} {a : α} (h : parse (x ++ y) = .ok (.complete (x.length, a))) :
    seq parse next (x ++ y) = (next x.length a y).shift x.length := by
  rw [seq_of_complete h, List.drop_left]

/-- A parser behind a run of elements. -/
theorem seq_word {γ : Type} {p : β → Bool} {check : List β → β → Except ε α}
    {next : Nat → α → List β → Answer ε γ} {w : List β} {d : β} {a : α}
    (hw : ∀ b ∈ w, p b = true) (hd : p d = false) (hc : check w d = .ok a) (s : List β) :
    seq (word p check) next (w ++ d :: s) = (next (w.length + 1) a s).shift (w.length + 1) := by
  have hlen : (w ++ [d]).length = w.length + 1 := by simp
  have hword : word p check ((w ++ [d]) ++ s) = .ok (.complete ((w ++ [d]).length, a)) := by
    rw [List.append_assoc, List.singleton_append, word_append hw hd, hc, hlen]
    rfl
  rw [show w ++ d :: s = (w ++ [d]) ++ s by simp, seq_append hword, hlen]

/-- A parser behind one element. -/
theorem seq_element {γ : Type} {f : β → Except ε α} {next : Nat → α → List β → Answer ε γ}
    {b : β} {a : α} (hc : f b = .ok a) (s : List β) :
    seq (element f) next (b :: s) = (next 1 a s).shift 1 :=
  seq_append (x := [b]) (element_cons hc s)

/-- Two stream parsers in sequence are one. -/
theorem StreamParser.seq {γ : Type} {parse : List β → Answer ε α}
    {next : Nat → α → List β → Answer ε γ} (hp : StreamParser parse)
    (hn : ∀ n a, StreamParser (next n a)) : StreamParser (seq parse next) where
  length_le h := by
    obtain ⟨k, m, a, hk, hm, rfl⟩ := seq_complete h
    have hk' := hp.length_le hk
    have hm' := (hn k a).length_le hm
    rw [List.length_drop] at hm'
    omega
  stable {s n c} h t := by
    obtain ⟨k, m, a, hk, hm, rfl⟩ := seq_complete h
    have hle := hp.length_le hk
    have hlen : (s.take k).length = k := by rw [List.length_take, Nat.min_eq_left hle]
    have hsplit : s.take (k + m) ++ t = s.take k ++ ((s.drop k).take m ++ t) := by
      rw [List.take_add, List.append_assoc]
    have hfirst := hp.stable hk ((s.drop k).take m ++ t)
    rw [hsplit, seq_append (a := a) (by rw [hlen]; exact hfirst), hlen, (hn k a).stable hm t,
      Answer.shift_complete]
  error_append {s e} h t := by
    unfold Incremental.seq at h ⊢
    rcases hparse : parse s with e' | (_ | ⟨k, a⟩)
    · obtain ⟨e'', he''⟩ := hp.error_append hparse t
      exact ⟨e'', by rw [he'']⟩
    · rw [hparse] at h; cases h
    · rw [hparse] at h
      rw [hp.complete_append hparse t]
      have hle := hp.length_le hparse
      simp only at h ⊢
      rcases hnext : next k a (s.drop k) with e' | (_ | ⟨m, c⟩)
      · obtain ⟨e'', he''⟩ := (hn k a).error_append hnext t
        exact ⟨e'', by rw [List.drop_append_of_le_length hle, he'']; rfl⟩
      · rw [hnext] at h; cases h
      · rw [hnext] at h; cases h

end Incremental
