/-
  Jrpxy.Lib.Ascii

  ASCII classes of bytes, comparison ignoring case, and numerals.

  `digits base n` is the numeral of `n` without leading zeros, lower case, as
  `{:x}` and `{}` print it; `value base` reads a digit string of either case.
  Reading undoes printing (`value_digits`), and a numeral below `base ^ k` has
  at most `k` digits (`digits_length_le`).
-/
import Mathlib.Algebra.Group.Nat.Defs

namespace Ascii

/-- The bytes of an ASCII string literal. -/
def ascii (s : String) : List UInt8 := s.toList.map fun c => UInt8.ofNat c.toNat

/-- A property of all bytes is checked on the 256 of them. -/
theorem forall_byte {p : UInt8 → Prop} (h : ∀ n : Fin 256, p (UInt8.ofNat n)) (b : UInt8) : p b := by
  have hb := h ⟨b.toNat, b.toNat_lt⟩
  simpa using hb

/-! ## Classes -/

/-- `0`..`9` -/
def isDigit (b : UInt8) : Bool := 48 ≤ b && b ≤ 57

/-- `A`..`Z`, `a`..`z` -/
def isAlphabetic (b : UInt8) : Bool := (65 ≤ b && b ≤ 90) || (97 ≤ b && b ≤ 122)

/-- A letter or a digit. -/
def isAlphanumeric (b : UInt8) : Bool := isAlphabetic b || isDigit b

/-- `0`..`9`, `A`..`F`, `a`..`f` -/
def isHexDigit (b : UInt8) : Bool := isDigit b || (65 ≤ b && b ≤ 70) || (97 ≤ b && b ≤ 102)

/-! ## Comparison ignoring case -/

/-- Upper-case letters become lower case; every other byte stays. -/
def toLower (b : UInt8) : UInt8 := if 65 ≤ b && b ≤ 90 then b + 32 else b

/-- Equal up to the case of ASCII letters. -/
def eqIgnoreCase (a b : List UInt8) : Bool := a.map toLower == b.map toLower

theorem eqIgnoreCase_iff {a b : List UInt8} :
    eqIgnoreCase a b = true ↔ a.map toLower = b.map toLower := by
  simp [eqIgnoreCase]

@[simp] theorem eqIgnoreCase_refl (a : List UInt8) : eqIgnoreCase a a = true := by
  simp [eqIgnoreCase]

theorem eqIgnoreCase_symm (a b : List UInt8) : eqIgnoreCase a b = eqIgnoreCase b a := by
  rw [Bool.eq_iff_iff, eqIgnoreCase_iff, eqIgnoreCase_iff, eq_comm]

theorem eqIgnoreCase_trans {a b c : List UInt8} (hab : eqIgnoreCase a b = true)
    (hbc : eqIgnoreCase b c = true) : eqIgnoreCase a c = true := by
  rw [eqIgnoreCase_iff] at hab hbc ⊢
  rw [hab, hbc]

/-- Names equal to one name compare alike with every other. -/
theorem eqIgnoreCase_congr {a b : List UInt8} (hab : eqIgnoreCase a b = true) (c : List UInt8) :
    eqIgnoreCase a c = eqIgnoreCase b c := by
  rw [eqIgnoreCase_iff] at hab
  simp [eqIgnoreCase, hab]

/-! ## Numerals -/

/-- The value of a digit of either case, in bases up to sixteen. -/
def digitValue (b : UInt8) : Option Nat :=
  if isDigit b then some (b.toNat - 48)
  else if 97 ≤ b && b ≤ 102 then some (b.toNat - 87)
  else if 65 ≤ b && b ≤ 70 then some (b.toNat - 55)
  else none

/-- One more digit at the end of a number. -/
def pushDigit (base : Nat) (acc : Option Nat) (b : UInt8) : Option Nat :=
  acc.bind fun v => (digitValue b).bind fun d => if d < base then some (base * v + d) else none

/-- The value of a digit string; `none` when a byte is not a digit of the base. -/
def value (base : Nat) (bs : List UInt8) : Option Nat := bs.foldl (pushDigit base) (some 0)

/-- The digit of value `d`. -/
def digit (d : Nat) : UInt8 := UInt8.ofNat d.digitChar.toNat

/-- The numeral of `n`, most significant digit first. -/
def digits (base n : Nat) : List UInt8 :=
  (Nat.toDigits base n).map fun c => UInt8.ofNat c.toNat

theorem value_append (base : Nat) (bs : List UInt8) (b : UInt8) :
    value base (bs ++ [b]) = pushDigit base (value base bs) b := by
  simp [value, List.foldl_append]

theorem digitValue_digit {d : Nat} (h : d < 16) : digitValue (digit d) = some d := by
  have hall : ∀ d : Fin 16, digitValue (digit d) = some d.val := by decide
  exact hall ⟨d, h⟩

theorem isHexDigit_digit {d : Nat} (h : d < 16) : isHexDigit (digit d) = true := by
  have hall : ∀ d : Fin 16, isHexDigit (digit d) = true := by decide
  exact hall ⟨d, h⟩

theorem isDigit_digit {d : Nat} (h : d < 10) : isDigit (digit d) = true := by
  have hall : ∀ d : Fin 10, isDigit (digit d) = true := by decide
  exact hall ⟨d, h⟩

/-- The last digit comes off the end. -/
theorem digits_eq {base : Nat} (hb : 1 < base) (n : Nat) :
    digits base n = (if n < base then [] else digits base (n / base)) ++ [digit (n % base)] := by
  unfold digits digit
  rw [Nat.toDigits_eq_if hb]
  split
  · next h => simp [Nat.mod_eq_of_lt h]
  · simp

theorem digits_ne_nil (base n : Nat) : digits base n ≠ [] := by
  simp [digits, Nat.toDigits_ne_nil]

/-- Reading undoes printing. -/
theorem value_digits {base : Nat} (hb : 1 < base) (hb' : base ≤ 16) (n : Nat) :
    value base (digits base n) = some n := by
  induction n using Nat.strongRecOn with
  | ind n ih =>
    have hd : n % base < base := Nat.mod_lt n (by omega)
    rw [digits_eq hb, value_append, pushDigit]
    split
    · next h =>
      rw [Nat.mod_eq_of_lt h]
      simp [value, digitValue_digit (show n < 16 by omega), h]
    · next h =>
      rw [ih (n / base) (Nat.div_lt_self (by omega) hb)]
      simp only [Option.bind_some, digitValue_digit (show n % base < 16 by omega), hd, if_true]
      rw [Nat.div_add_mod]

/-- A digit string of length `k` is worth less than `base ^ k`. -/
theorem value_lt {base : Nat} (bs : List UInt8) :
    ∀ {v}, value base bs = some v → v < base ^ bs.length := by
  rw [← List.reverse_reverse bs]
  induction bs.reverse with
  | nil =>
    intro v h
    cases h
    exact Nat.zero_lt_one
  | cons b rev ih =>
    intro v h
    rw [List.reverse_cons, value_append, pushDigit, Option.bind_eq_some_iff] at h
    obtain ⟨u, hu, h⟩ := h
    rw [Option.bind_eq_some_iff] at h
    obtain ⟨d, -, h⟩ := h
    split at h
    · next hd =>
      cases h
      have hmul := Nat.mul_le_mul_left base (Nat.succ_le_of_lt (ih hu))
      rw [List.reverse_cons, List.length_append, List.length_singleton, Nat.pow_succ']
      rw [Nat.mul_succ] at hmul
      omega
    · cases h

/-- What every digit of the base satisfies, every byte of a numeral does. -/
theorem forall_mem_digits {base : Nat} (hb : 1 < base) {p : UInt8 → Prop}
    (hp : ∀ d, d < base → p (digit d)) (n : Nat) : ∀ b ∈ digits base n, p b := by
  induction n using Nat.strongRecOn with
  | ind n ih =>
    intro b hmem
    rw [digits_eq hb, List.mem_append] at hmem
    rcases hmem with hmem | hmem
    · split at hmem
      · cases hmem
      · exact ih (n / base) (Nat.div_lt_self (by omega) hb) b hmem
    · rw [List.mem_singleton.mp hmem]
      exact hp _ (Nat.mod_lt n (by omega))

/-- A number below `base ^ k` has at most `k` digits. -/
theorem digits_length_le {base n k : Nat} (hb : 1 < base) (hk : 0 < k) (h : n < base ^ k) :
    (digits base n).length ≤ k := by
  rw [digits, List.length_map]
  exact (Nat.length_toDigits_le_iff hb hk).mpr h

/-- A numeral of a positive number does not begin with a zero. -/
theorem digits_head_ne_zero {base n : Nat} (hb : 1 < base) (hb' : base ≤ 16) (hn : n ≠ 0) :
    (digits base n).head? ≠ some 48 := by
  have hdigit : ∀ d : Fin 16, d.val ≠ 0 → digit d ≠ 48 := by decide
  induction n using Nat.strongRecOn with
  | ind n ih =>
    rw [digits_eq hb]
    split
    · next h =>
      rw [Nat.mod_eq_of_lt h, List.nil_append, List.head?_cons]
      intro heq
      exact hdigit ⟨n, by omega⟩ hn (Option.some.inj heq)
    -- the first digit is that of the number without the last
    · next h =>
      rw [List.head?_append, List.head?_eq_some_head (digits_ne_nil base _), Option.some_or,
        ← List.head?_eq_some_head (digits_ne_nil base _)]
      exact ih (n / base) (Nat.div_lt_self (by omega) hb)
        (Nat.ne_of_gt (Nat.div_pos (by omega) (by omega)))

end Ascii
