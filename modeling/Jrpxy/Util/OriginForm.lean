/-
  Jrpxy.Util.OriginForm

  `validateOriginForm` against the grammar of an origin-form target.

  The grammar nests one repetition in another and allows a second part after
  the first `?`.  Its repetitions collapse: a target is a `/` and then any
  number of tokens, each one byte of the lookup table or a `%HH` triple
  (`originForm_eq`).  The tokens are a prefix code, so the loop's scan finds
  the longest prefix that is a target, and its error stands right behind it.
-/
import Mathlib.Order.Bounds.Basic
import Jrpxy.Lib.PrefixCode
import Jrpxy.Util.Parse

namespace Jrpxy.Util

open Ascii PrefixCode
open scoped Computability

/-! ## The grammar -/

/-- One byte of a class. -/
def oneOf (p : UInt8 → Bool) : Language UInt8 := {w | ∃ b, p b = true ∧ w = [b]}

/-- `ALPHA / DIGIT / "-" / "." / "_" / "~"` -/
def isUnreserved (b : UInt8) : Bool := isAlphanumeric b || (ascii "-._~").contains b

/-- `"!" / "$" / "&" / "'" / "(" / ")" / "*" / "+" / "," / ";" / "="` -/
def isSubDelim (b : UInt8) : Bool := (ascii "!$&'()*+,;=").contains b

/-- `unreserved / sub-delims / ":" / "@"`: a `pchar` of one byte. -/
def isPlainPchar (b : UInt8) : Bool := isUnreserved b || isSubDelim b || b == 58 || b == 64

/-- `"%" HEXDIG HEXDIG` -/
def pctEncoded : Language UInt8 :=
  {w | ∃ h1 h2, isHexDigit h1 = true ∧ isHexDigit h2 = true ∧ w = [37, h1, h2]}

def pchar : Language UInt8 := oneOf isPlainPchar + pctEncoded

/-- `*pchar` -/
def segment : Language UInt8 := pchar∗

/-- `1*( "/" segment )` -/
def absolutePath : Language UInt8 := {[47]} * segment * ({[47]} * segment)∗

/-- `*( pchar / "/" / "?" )` -/
def query : Language UInt8 := (pchar + {[47]} + {[63]})∗

/-- `absolute-path [ "?" query ]` -/
def originForm : Language UInt8 := absolutePath * (1 + {[63]} * query)

/-! ## Tokens -/

/-- What one round of the loop takes. -/
def pathQueryToken : Language UInt8 := oneOf isValidPathQueryChar + pctEncoded

theorem mem_pathQueryToken {w : Bytes} : w ∈ pathQueryToken ↔
    (∃ b, isValidPathQueryChar b = true ∧ w = [b]) ∨
      ∃ h1 h2, isHexDigit h1 = true ∧ isHexDigit h2 = true ∧ w = [37, h1, h2] :=
  Iff.rfl

/-- The lookup table holds the bytes of the grammar. -/
theorem isValidPathQueryChar_eq (b : UInt8) :
    isValidPathQueryChar b = (isPlainPchar b || b == 47 || b == 63) :=
  forall_byte (p := fun b => isValidPathQueryChar b = (isPlainPchar b || b == 47 || b == 63))
    (by decide +kernel) b

/-- `%` is read as the first byte of a triple only. -/
theorem isValidPathQueryChar_percent : isValidPathQueryChar 37 = false := by decide

theorem pathQueryToken_eq : pathQueryToken = pchar + {[47]} + {[63]} := by
  ext w
  simp only [Language.mem_add, pchar, mem_pathQueryToken, isValidPathQueryChar_eq]
  constructor
  · rintro (⟨b, hb, rfl⟩ | hpct)
    · simp only [Bool.or_eq_true, beq_iff_eq] at hb
      rcases hb with (hb | rfl) | rfl
      · exact .inl (.inl (.inl ⟨b, hb, rfl⟩))
      · exact .inl (.inr rfl)
      · exact .inr rfl
    · exact .inl (.inl (.inr hpct))
  · rintro (((⟨b, hb, rfl⟩ | hpct) | hslash) | hmark)
    · exact .inl ⟨b, by simp [hb], rfl⟩
    · exact .inr hpct
    · exact .inl ⟨47, by decide, hslash⟩
    · exact .inl ⟨63, by decide, hmark⟩

/-- The repetitions of the grammar collapse into one. -/
theorem originForm_eq : originForm = {[47]} * pathQueryToken∗ := by
  have hpath : absolutePath = {[47]} * (pchar + {[47]})∗ := by
    rw [absolutePath, segment, mul_assoc, ← kstar_add]
  rw [originForm, hpath, query, mul_assoc, ← kstar_add_eq_first, pathQueryToken_eq]

theorem mem_originForm {p : Bytes} :
    p ∈ originForm ↔ ∃ rest ∈ pathQueryToken∗, p = 47 :: rest := by
  rw [originForm_eq, Language.mem_mul]
  constructor
  · rintro ⟨w, rfl, rest, hrest, rfl⟩
    exact ⟨rest, hrest, rfl⟩
  · rintro ⟨rest, hrest, rfl⟩
    exact ⟨[47], rfl, rest, hrest, rfl⟩

theorem cons_mem_originForm {rest : Bytes} :
    47 :: rest ∈ originForm ↔ rest ∈ pathQueryToken∗ := by
  simp [mem_originForm]

/-- A byte of the table is no `%`, so the tokens are a prefix code. -/
theorem isPrefixCode_pathQueryToken : IsPrefixCode pathQueryToken := by
  constructor
  · rintro w (⟨b, -, rfl⟩ | ⟨h1, h2, -, -, rfl⟩) <;> exact List.cons_ne_nil _ _
  · rintro u (⟨b, hb, rfl⟩ | ⟨h1, h2, -, -, rfl⟩) w (⟨b', hb', rfl⟩ | ⟨h1', h2', -, -, rfl⟩) huw
    · simpa using huw
    · obtain rfl : b = 37 := by simpa using huw
      rw [isValidPathQueryChar_percent] at hb
      cases hb
    · simp at huw
    · simpa using huw

/-! ## What a round of the loop does -/

/-- The error of the loop at offset `i`, where it reads `b`. -/
def faultAt (i : Nat) (b : UInt8) : OriginFormError :=
  if b = 37 then .invalidPercentEncoding i else .invalidCharacter i b

/-- A token is taken whole. -/
theorem validateOriginFormLoop_token {w : Bytes} (hw : w ∈ pathQueryToken) (i : Nat)
    (rest : Bytes) :
    validateOriginFormLoop i (w ++ rest) = validateOriginFormLoop (i + w.length) rest := by
  rcases hw with ⟨b, hb, rfl⟩ | ⟨h1, h2, hh1, hh2, rfl⟩
  · rw [List.singleton_append, validateOriginFormLoop.eq_def]
    simp [hb]
  · simp [validateOriginFormLoop, isValidPathQueryChar_percent, hh1, hh2]

/-- Where no token starts, the byte read is at fault. -/
theorem validateOriginFormLoop_stuck {b : UInt8} {rest : Bytes}
    (hstuck : Stuck pathQueryToken (b :: rest)) (i : Nat) :
    validateOriginFormLoop i (b :: rest) = .error (faultAt i b) := by
  have hchar : isValidPathQueryChar b = false := by
    by_contra hb
    exact hstuck [b] (.inl ⟨b, by simpa using hb, rfl⟩) ⟨rest, rfl⟩
  by_cases hpct : b = 37
  · subst hpct
    rcases rest with _ | ⟨h1, _ | ⟨h2, rest'⟩⟩
    · simp [validateOriginFormLoop, hchar, faultAt]
    · simp [validateOriginFormLoop, hchar, faultAt]
    · have hhex : ¬ (isHexDigit h1 = true ∧ isHexDigit h2 = true) := fun h =>
        hstuck [37, h1, h2] (.inr ⟨h1, h2, h.1, h.2, rfl⟩) ⟨rest', rfl⟩
      simp [validateOriginFormLoop, hchar, faultAt, hhex]
  · rw [validateOriginFormLoop.eq_def]
    simp [hchar, hpct, faultAt]

/-- The loop takes tokens up to the end, or to where none starts. -/
theorem validateOriginFormLoop_cases (i : Nat) (s : Bytes) :
    (s ∈ pathQueryToken∗ ∧ validateOriginFormLoop i s = .ok ()) ∨
      ∃ good b bad, s = good ++ b :: bad ∧ good ∈ pathQueryToken∗ ∧
        Stuck pathQueryToken (b :: bad) ∧
        validateOriginFormLoop i s = .error (faultAt (i + good.length) b) := by
  induction hn : s.length using Nat.strongRecOn generalizing i s with
  | ind n ih =>
    cases s with
    | nil => exact .inl ⟨Language.nil_mem_kstar _, rfl⟩
    | cons b bad =>
      by_cases hstuck : Stuck pathQueryToken (b :: bad)
      · exact .inr ⟨[], b, bad, rfl, Language.nil_mem_kstar _, hstuck,
          validateOriginFormLoop_stuck hstuck i⟩
      · -- a token starts here, and the rest is shorter
        simp only [Stuck, not_forall, not_not] at hstuck
        obtain ⟨w, hw, rest, hrest⟩ := hstuck
        have hpos := List.length_pos_iff.mpr (isPrefixCode_pathQueryToken.ne_nil w hw)
        have hlen := congrArg List.length hrest
        rw [List.length_append] at hlen
        rw [← hrest, validateOriginFormLoop_token hw]
        rcases ih rest.length (by omega) (i + w.length) rest rfl with
          ⟨hmem, hok⟩ | ⟨good, c, bad', hsplit, hgood, hstuck, herr⟩
        · exact .inl ⟨append_mem_kstar (mem_kstar_of_mem hw) hmem, hok⟩
        · refine .inr ⟨w ++ good, c, bad', by rw [hsplit, List.append_assoc],
            append_mem_kstar (mem_kstar_of_mem hw) hgood, hstuck, ?_⟩
          rw [herr, List.length_append, Nat.add_assoc]

/-! ## The loop over an index -/

/-- `while i < path.len()`, for `fuel` rounds at most; `none` when they do not suffice or
    `path` is indexed out of bounds. -/
def validateOriginFormFrom (path : Bytes) :
    Nat → Nat → Option (Except OriginFormError Unit)
  | 0, _ => none
  | fuel + 1, i =>
    if i < path.length then
      path[i]?.bind fun b =>
        if isValidPathQueryChar b then validateOriginFormFrom path fuel (i + 1)
        else if b == 37 then
          match path[i + 1]?, path[i + 2]? with
          | some h1, some h2 =>
            if isHexDigit h1 && isHexDigit h2 then validateOriginFormFrom path fuel (i + 3)
            else some (.error (.invalidPercentEncoding i))
          | _, _ => some (.error (.invalidPercentEncoding i))
        else some (.error (.invalidCharacter i b))
    else some (.ok ())

/-- `validateOriginForm` as the source writes it, over an index. -/
def validateOriginFormIndexed (path : Bytes) : Option (Except OriginFormError Unit) :=
  if path.isEmpty then some (.error .empty)
  else path[0]?.bind fun b =>
    if b != 47 then some (.error .notAbsolutePath)
    else validateOriginFormFrom path path.length 1

/-- A round for every byte that is left, and one to notice the end. -/
theorem validateOriginFormFrom_eq (path : Bytes) : ∀ (fuel i : Nat), i ≤ path.length →
    path.length - i < fuel →
    validateOriginFormFrom path fuel i = some (validateOriginFormLoop i (path.drop i)) := by
  intro fuel
  induction fuel with
  | zero =>
    intro i _ hfuel
    omega
  | succ fuel ih =>
    intro i hi hfuel
    rw [validateOriginFormFrom]
    split
    · next hlt =>
      have hdrop := List.drop_eq_getElem_cons hlt
      have hnext : ∀ k, path[i + 1 + k]? = (path.drop (i + 1))[k]? := fun k =>
        List.getElem?_drop.symm
      rw [List.getElem?_eq_getElem hlt, Option.bind_some, hdrop]
      generalize path[i] = b
      by_cases hchar : isValidPathQueryChar b = true
      · rw [if_pos hchar, ih (i + 1) hlt (by omega), validateOriginFormLoop.eq_def _ (b :: _)]
        simp only [hchar, if_true]
      · by_cases hpct : (b == 37) = true
        · -- the two bytes looked ahead at are the first two of the rest
          rw [hnext 0, hnext 1]
          rcases hrest : path.drop (i + 1) with _ | ⟨h1, _ | ⟨h2, rest'⟩⟩
          · simp [validateOriginFormLoop, hchar, hpct]
          · simp [validateOriginFormLoop, hchar, hpct]
          · by_cases hhex : (isHexDigit h1 && isHexDigit h2) = true
            · -- three bytes on, the rest is behind the triple
              have hlen := congrArg List.length hrest
              rw [List.length_drop, List.length_cons, List.length_cons] at hlen
              have htriple : path.drop (i + 3) = rest' := by
                rw [← List.drop_drop (i := 2) (j := i + 1), hrest]
                rfl
              have hround := ih (i + 3) (by omega) (by omega)
              rw [htriple] at hround
              simp [validateOriginFormLoop, hchar, hpct, hhex, hround]
            · simp [validateOriginFormLoop, hchar, hpct, hhex]
        · rw [validateOriginFormLoop.eq_def]
          simp [hchar, hpct]
    · next hge =>
      rw [List.drop_eq_nil_of_le (by omega), validateOriginFormLoop]

/-- The loop over the index ends within its fuel and within bounds, as the one over the rest
    of the path. -/
theorem validateOriginFormIndexed_eq (path : Bytes) :
    validateOriginFormIndexed path = some (validateOriginForm path) := by
  cases path with
  | nil => rfl
  | cons b rest =>
    have hloop := validateOriginFormFrom_eq (b :: rest) (b :: rest).length 1
      (by simp) (by simp)
    simp only [validateOriginFormIndexed, validateOriginForm, hloop]
    by_cases hb : b = 47 <;> simp [hb]

/-! ## The first fault -/

/-- `n` is the length of the longest prefix of `p` that is itself a target. -/
def LongestValidPrefix (p : Bytes) (n : Nat) : Prop :=
  IsGreatest {k | k ≤ p.length ∧ p.take k ∈ originForm} n

/-- What the error says of `p`. -/
def PointsAtFault (p : Bytes) : OriginFormError → Prop
  | .empty => p = []
  | .notAbsolutePath => p ≠ [] ∧ p.head? ≠ some 47
  | .invalidPercentEncoding offset =>
    p.head? = some 47 ∧ LongestValidPrefix p offset ∧ p[offset]? = some 37
  | .invalidCharacter offset byte =>
    p.head? = some 47 ∧ LongestValidPrefix p offset ∧ p[offset]? = some byte ∧ byte ≠ 37

/-- Tokens up to where none starts are the longest valid prefix. -/
theorem longestValidPrefix_of_stuck {good bad : Bytes} (hgood : good ∈ pathQueryToken∗)
    (hstuck : Stuck pathQueryToken bad) :
    LongestValidPrefix (47 :: (good ++ bad)) (1 + good.length) := by
  rw [Nat.add_comm]
  constructor
  · refine ⟨by simp, ?_⟩
    rw [List.take_succ_cons, List.take_left, cons_mem_originForm]
    exact hgood
  · rintro k ⟨hlen, hk⟩
    cases k with
    | zero => exact Nat.zero_le _
    | succ k =>
      rw [List.take_succ_cons, cons_mem_originForm] at hk
      -- a longer one would go on with a token where none starts
      have hle := isPrefixCode_pathQueryToken.length_le_of_stuck hgood hstuck hk
        (List.take_prefix k _)
      rw [List.length_take] at hle
      rw [List.length_cons] at hlen
      omega

/-- The verdict on a path that is no target points at the fault. -/
theorem validateOriginForm_cases (p : Bytes) :
    (p ∈ originForm ∧ validateOriginForm p = .ok ()) ∨
      ∃ e, p ∉ originForm ∧ PointsAtFault p e ∧ validateOriginForm p = .error e := by
  cases p with
  | nil =>
    refine .inr ⟨.empty, ?_, rfl, rfl⟩
    simp [mem_originForm]
  | cons c rest =>
    by_cases hc : c = 47
    · subst hc
      have hloop : validateOriginForm (47 :: rest) = validateOriginFormLoop 1 rest := by
        simp [validateOriginForm]
      rw [hloop, cons_mem_originForm]
      rcases validateOriginFormLoop_cases 1 rest with
        ⟨hmem, hok⟩ | ⟨good, b, bad, rfl, hgood, hstuck, herr⟩
      · exact .inl ⟨hmem, hok⟩
      · refine .inr ⟨faultAt (1 + good.length) b, ?_, ?_, herr⟩
        · -- what is behind the tokens would be a repetition of its own
          intro hmem
          have hbad := isPrefixCode_pathQueryToken.of_append hgood hmem
          exact List.cons_ne_nil b bad (eq_nil_of_stuck hstuck hbad (List.prefix_refl _))
        · have hlongest := longestValidPrefix_of_stuck hgood hstuck
          have hat : (47 :: (good ++ b :: bad))[1 + good.length]? = some b := by
            rw [Nat.add_comm, List.getElem?_cons_succ, List.getElem?_append_right (Nat.le_refl _)]
            simp
          rw [faultAt]
          split
          · next hb => exact ⟨rfl, hlongest, hb ▸ hat⟩
          · next hb => exact ⟨rfl, hlongest, hat, hb⟩
    · refine .inr ⟨.notAbsolutePath, ?_, ⟨List.cons_ne_nil c rest, ?_⟩, ?_⟩
      · simp [mem_originForm, hc]
      · simpa using hc
      · simp [validateOriginForm, hc]

/-- A path has one first fault. -/
theorem PointsAtFault.unique {p : Bytes} {e e' : OriginFormError} (h : PointsAtFault p e)
    (h' : PointsAtFault p e') : e = e' := by
  have hlen : ∀ {n n'}, LongestValidPrefix p n → LongestValidPrefix p n' → n = n' :=
    fun hn hn' => hn.unique hn'
  cases e with
  | empty => cases e' <;> simp_all [PointsAtFault]
  | notAbsolutePath => cases e' <;> simp_all [PointsAtFault]
  | invalidCharacter n b =>
    cases e' with
    | empty | notAbsolutePath => simp_all [PointsAtFault]
    | invalidCharacter n' b' =>
      -- the same length, and the same byte there
      obtain rfl := hlen h.2.1 h'.2.1
      rw [Option.some.inj (h.2.2.1.symm.trans h'.2.2.1)]
    | invalidPercentEncoding n' =>
      obtain rfl := hlen h.2.1 h'.2.1
      exact absurd (Option.some.inj (h.2.2.1.symm.trans h'.2.2)) h.2.2.2
  | invalidPercentEncoding n =>
    cases e' with
    | empty | notAbsolutePath => simp_all [PointsAtFault]
    | invalidCharacter n' b' =>
      obtain rfl := hlen h.2.1 h'.2.1
      exact absurd (Option.some.inj (h'.2.2.1.symm.trans h.2.2)) h'.2.2.2
    | invalidPercentEncoding n' => rw [hlen h.2.1 h'.2.1]

/-- The validator accepts the grammar, and its error points at the first fault; the loop
    over the index computes it, without leaving the path. -/
theorem validateOriginForm_exact (p : Bytes) :
    validateOriginFormIndexed p = some (validateOriginForm p) ∧
      (validateOriginForm p = .ok () ↔ p ∈ originForm) ∧
      ∀ e, validateOriginForm p = .error e ↔ p ∉ originForm ∧ PointsAtFault p e := by
  refine ⟨validateOriginFormIndexed_eq p, ?_⟩
  rcases validateOriginForm_cases p with ⟨hmem, hok⟩ | ⟨e, hnot, hfault, herr⟩
  · rw [hok]
    simp [hmem]
  · rw [herr]
    refine ⟨by simp [hnot], fun e' => ⟨?_, ?_⟩⟩
    · intro heq
      cases heq
      exact ⟨hnot, hfault⟩
    · rintro ⟨-, hfault'⟩
      rw [hfault.unique hfault']

end Jrpxy.Util
