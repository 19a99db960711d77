/-
  Jrpxy.Util.Parse

  The byte classes and small validators every layer shares.

  The three lookup tables are the source's, row by row.  The lemmas below say
  what the rest of the development needs of them: which separators a class
  excludes, and that one class lies within another.
-/
import Jrpxy.Lib.Ascii

namespace Jrpxy

/-- A string of bytes. -/
abbrev Bytes := List UInt8

namespace Util

open Ascii

/-! ## Lookup tables -/

/-- Lookup table for `tchar`. -/
def tcharLookup : List UInt8 := [
    0, 0, 0, 0, 0, 0, 0, 0, 0, 0, 0, 0, 0, 0, 0, 0,
    0, 0, 0, 0, 0, 0, 0, 0, 0, 0, 0, 0, 0, 0, 0, 0,
    0, 1, 0, 1, 1, 1, 1, 1, 0, 0, 1, 1, 0, 1, 1, 0,
    1, 1, 1, 1, 1, 1, 1, 1, 1, 1, 0, 0, 0, 0, 0, 0,
    0, 1, 1, 1, 1, 1, 1, 1, 1, 1, 1, 1, 1, 1, 1, 1,
    1, 1, 1, 1, 1, 1, 1, 1, 1, 1, 1, 0, 0, 0, 1, 1,
    1, 1, 1, 1, 1, 1, 1, 1, 1, 1, 1, 1, 1, 1, 1, 1,
    1, 1, 1, 1, 1, 1, 1, 1, 1, 1, 1, 0, 1, 0, 1, 0,
    0, 0, 0, 0, 0, 0, 0, 0, 0, 0, 0, 0, 0, 0, 0, 0,
    0, 0, 0, 0, 0, 0, 0, 0, 0, 0, 0, 0, 0, 0, 0, 0,
    0, 0, 0, 0, 0, 0, 0, 0, 0, 0, 0, 0, 0, 0, 0, 0,
    0, 0, 0, 0, 0, 0, 0, 0, 0, 0, 0, 0, 0, 0, 0, 0,
    0, 0, 0, 0, 0, 0, 0, 0, 0, 0, 0, 0, 0, 0, 0, 0,
    0, 0, 0, 0, 0, 0, 0, 0, 0, 0, 0, 0, 0, 0, 0, 0,
    0, 0, 0, 0, 0, 0, 0, 0, 0, 0, 0, 0, 0, 0, 0, 0,
    0, 0, 0, 0, 0, 0, 0, 0, 0, 0, 0, 0, 0, 0, 0, 0]

/-- Lookup table for `field-vchar`. -/
def fieldVcharLookup : List UInt8 := [
    0, 0, 0, 0, 0, 0, 0, 0, 0, 0, 0, 0, 0, 0, 0, 0,
    0, 0, 0, 0, 0, 0, 0, 0, 0, 0, 0, 0, 0, 0, 0, 0,
    0, 1, 1, 1, 1, 1, 1, 1, 1, 1, 1, 1, 1, 1, 1, 1,
    1, 1, 1, 1, 1, 1, 1, 1, 1, 1, 1, 1, 1, 1, 1, 1,
    1, 1, 1, 1, 1, 1, 1, 1, 1, 1, 1, 1, 1, 1, 1, 1,
    1, 1, 1, 1, 1, 1, 1, 1, 1, 1, 1, 1, 1, 1, 1, 1,
    1, 1, 1, 1, 1, 1, 1, 1, 1, 1, 1, 1, 1, 1, 1, 1,
    1, 1, 1, 1, 1, 1, 1, 1, 1, 1, 1, 1, 1, 1, 1, 0,
    1, 1, 1, 1, 1, 1, 1, 1, 1, 1, 1, 1, 1, 1, 1, 1,
    1, 1, 1, 1, 1, 1, 1, 1, 1, 1, 1, 1, 1, 1, 1, 1,
    1, 1, 1, 1, 1, 1, 1, 1, 1, 1, 1, 1, 1, 1, 1, 1,
    1, 1, 1, 1, 1, 1, 1, 1, 1, 1, 1, 1, 1, 1, 1, 1,
    1, 1, 1, 1, 1, 1, 1, 1, 1, 1, 1, 1, 1, 1, 1, 1,
    1, 1, 1, 1, 1, 1, 1, 1, 1, 1, 1, 1, 1, 1, 1, 1,
    1, 1, 1, 1, 1, 1, 1, 1, 1, 1, 1, 1, 1, 1, 1, 1,
    1, 1, 1, 1, 1, 1, 1, 1, 1, 1, 1, 1, 1, 1, 1, 1]

/-- Lookup table for `pchar / "/" / "?"`, without `%`. -/
def pathQueryCharLookup : List UInt8 := [
    0, 0, 0, 0, 0, 0, 0, 0, 0, 0, 0, 0, 0, 0, 0, 0,
    0, 0, 0, 0, 0, 0, 0, 0, 0, 0, 0, 0, 0, 0, 0, 0,
    0, 1, 0, 0, 1, 0, 1, 1, 1, 1, 1, 1, 1, 1, 1, 1,
    1, 1, 1, 1, 1, 1, 1, 1, 1, 1, 1, 1, 0, 1, 0, 1,
    1, 1, 1, 1, 1, 1, 1, 1, 1, 1, 1, 1, 1, 1, 1, 1,
    1, 1, 1, 1, 1, 1, 1, 1, 1, 1, 1, 0, 0, 0, 0, 1,
    0, 1, 1, 1, 1, 1, 1, 1, 1, 1, 1, 1, 1, 1, 1, 1,
    1, 1, 1, 1, 1, 1, 1, 1, 1, 1, 1, 0, 0, 0, 1, 0,
    0, 0, 0, 0, 0, 0, 0, 0, 0, 0, 0, 0, 0, 0, 0, 0,
    0, 0, 0, 0, 0, 0, 0, 0, 0, 0, 0, 0, 0, 0, 0, 0,
    0, 0, 0, 0, 0, 0, 0, 0, 0, 0, 0, 0, 0, 0, 0, 0,
    0, 0, 0, 0, 0, 0, 0, 0, 0, 0, 0, 0, 0, 0, 0, 0,
    0, 0, 0, 0, 0, 0, 0, 0, 0, 0, 0, 0, 0, 0, 0, 0,
    0, 0, 0, 0, 0, 0, 0, 0, 0, 0, 0, 0, 0, 0, 0, 0,
    0, 0, 0, 0, 0, 0, 0, 0, 0, 0, 0, 0, 0, 0, 0, 0,
    0, 0, 0, 0, 0, 0, 0, 0, 0, 0, 0, 0, 0, 0, 0, 0]

def isValidTchar (byte : UInt8) : Bool := tcharLookup.getD byte.toNat 0 == 1

def isValidFieldVchar (byte : UInt8) : Bool := fieldVcharLookup.getD byte.toNat 0 == 1

def isValidPathQueryChar (byte : UInt8) : Bool := pathQueryCharLookup.getD byte.toNat 0 == 1

/-! ## Validators -/

/-- A non-empty token. -/
def isValidFieldName (name : Bytes) : Bool := !name.isEmpty && name.all isValidTchar

/-- A byte a field value may hold. -/
def isFieldValueByte (b : UInt8) : Bool := isValidFieldVchar b || b == 32 || b == 9

/-- Every byte is a `field-vchar`, SP or HTAB. -/
def isValidFieldValue (value : Bytes) : Bool := value.all isFieldValueByte

/-- Non-empty, and every byte is a `field-vchar`. -/
def isValidRequestTarget (target : Bytes) : Bool :=
  !target.isEmpty && target.all isValidFieldVchar

/-- Optional whitespace: SP or HTAB. -/
def isOws (b : UInt8) : Bool := b == 32 || b == 9

/-- Trim leading and trailing optional whitespace. -/
def trimOws (value : Bytes) : Bytes :=
  ((value.dropWhile isOws).reverse.dropWhile isOws).reverse

/-- Errors of `validateOriginForm`. -/
inductive OriginFormError where
  | empty
  | notAbsolutePath
  | invalidCharacter (offset : Nat) (byte : UInt8)
  | invalidPercentEncoding (offset : Nat)
  deriving DecidableEq, Repr

/-- The loop of `validateOriginForm`, at offset `i`. -/
def validateOriginFormLoop : Nat → Bytes → Except OriginFormError Unit
  | _, [] => .ok ()
  | i, b :: rest =>
    if isValidPathQueryChar b then validateOriginFormLoop (i + 1) rest
    else if b == 37 then
      match rest with
      | h1 :: h2 :: rest' =>
        if isHexDigit h1 && isHexDigit h2 then validateOriginFormLoop (i + 3) rest'
        else .error (.invalidPercentEncoding i)
      | _ => .error (.invalidPercentEncoding i)
    else .error (.invalidCharacter i b)

/-- Validate `path` as an origin-form request-target. -/
def validateOriginForm (path : Bytes) : Except OriginFormError Unit :=
  match path with
  | [] => .error .empty
  | b :: rest => if b != 47 then .error .notAbsolutePath else validateOriginFormLoop 1 rest

/-! ## What the classes exclude -/

/-- A `tchar` is none of the separators the grammars use. -/
theorem ne_of_isValidTchar {b : UInt8} (h : isValidTchar b = true) :
    b ≠ 9 ∧ b ≠ 10 ∧ b ≠ 13 ∧ b ≠ 32 ∧ b ≠ 44 ∧ b ≠ 58 := by
  revert h
  exact forall_byte (p := fun b => isValidTchar b = true →
    b ≠ 9 ∧ b ≠ 10 ∧ b ≠ 13 ∧ b ≠ 32 ∧ b ≠ 44 ∧ b ≠ 58) (by decide +kernel) b

/-- A `tchar` is a `field-vchar`. -/
theorem isValidFieldVchar_of_tchar {b : UInt8} (h : isValidTchar b = true) :
    isValidFieldVchar b = true := by
  revert h
  exact forall_byte (p := fun b => isValidTchar b = true → isValidFieldVchar b = true)
    (by decide +kernel) b

/-- A `field-vchar` is no whitespace, CR or LF. -/
theorem ne_of_isValidFieldVchar {b : UInt8} (h : isValidFieldVchar b = true) :
    b ≠ 9 ∧ b ≠ 10 ∧ b ≠ 13 ∧ b ≠ 32 := by
  revert h
  exact forall_byte (p := fun b => isValidFieldVchar b = true →
    b ≠ 9 ∧ b ≠ 10 ∧ b ≠ 13 ∧ b ≠ 32) (by decide +kernel) b

/-- Digits are `field-vchar`s. -/
theorem isValidFieldVchar_of_isDigit {b : UInt8} (h : isDigit b = true) :
    isValidFieldVchar b = true := by
  revert h
  exact forall_byte (p := fun b => isDigit b = true → isValidFieldVchar b = true)
    (by decide +kernel) b

/-- Digits are no separators. -/
theorem ne_of_isDigit {b : UInt8} (h : isDigit b = true) : b ≠ 9 ∧ b ≠ 32 ∧ b ≠ 44 := by
  revert h
  exact forall_byte (p := fun b => isDigit b = true → b ≠ 9 ∧ b ≠ 32 ∧ b ≠ 44)
    (by decide +kernel) b

theorem isFieldValueByte_of_vchar {b : UInt8} (h : isValidFieldVchar b = true) :
    isFieldValueByte b = true := by
  simp [isFieldValueByte, h]

/-- A field-value byte neither ends a line nor starts one. -/
theorem ne_of_isFieldValueByte {b : UInt8} (h : isFieldValueByte b = true) :
    b ≠ 10 ∧ b ≠ 13 := by
  simp only [isFieldValueByte, Bool.or_eq_true, beq_iff_eq] at h
  rcases h with (h | rfl) | rfl
  · have hne := ne_of_isValidFieldVchar h
    exact ⟨hne.2.1, hne.2.2.1⟩
  · decide
  · decide

theorem isValidFieldName_iff {name : Bytes} :
    isValidFieldName name = true ↔ name ≠ [] ∧ ∀ b ∈ name, isValidTchar b = true := by
  simp [isValidFieldName]

theorem isValidFieldValue_iff {value : Bytes} :
    isValidFieldValue value = true ↔ ∀ b ∈ value, isFieldValueByte b = true := by
  simp [isValidFieldValue]

/-! ## Trimming -/

theorem mem_of_mem_trimOws {b : UInt8} {value : Bytes} (h : b ∈ trimOws value) : b ∈ value := by
  rw [trimOws, List.mem_reverse] at h
  have h1 := (List.dropWhile_suffix isOws).subset h
  rw [List.mem_reverse] at h1
  exact (List.dropWhile_suffix isOws).subset h1

/-- Trimming keeps a value valid. -/
theorem isValidFieldValue_trimOws {value : Bytes} (h : isValidFieldValue value = true) :
    isValidFieldValue (trimOws value) = true := by
  rw [isValidFieldValue_iff] at h ⊢
  exact fun b hb => h b (mem_of_mem_trimOws hb)

/-- Neither end of `value` is whitespace. -/
def Trimmed (value : Bytes) : Prop :=
  (∀ b ∈ value.head?, isOws b = false) ∧ ∀ b ∈ value.getLast?, isOws b = false

instance (value : Bytes) : Decidable (Trimmed value) :=
  inferInstanceAs (Decidable ((∀ b ∈ value.head?, isOws b = false) ∧
    ∀ b ∈ value.getLast?, isOws b = false))

theorem dropWhile_of_head {p : UInt8 → Bool} {l : Bytes} (h : ∀ b ∈ l.head?, p b = false) :
    l.dropWhile p = l := by
  cases l with
  | nil => rfl
  | cons b rest => simp [h b (by simp)]

/-- A trimmed value is left alone. -/
theorem trimOws_of_trimmed {value : Bytes} (h : Trimmed value) : trimOws value = value := by
  rw [trimOws, dropWhile_of_head h.1, dropWhile_of_head (l := value.reverse), List.reverse_reverse]
  rw [List.head?_reverse]
  exact h.2

/-- Trimming trims. -/
theorem trimmed_trimOws (value : Bytes) : Trimmed (trimOws value) := by
  have hhead : ∀ l : Bytes, ∀ b ∈ (l.dropWhile isOws).head?, isOws b = false := by
    intro l b hb
    have hnot := List.head?_dropWhile_not isOws l
    rw [Option.mem_def.mp hb] at hnot
    simpa using hnot
  refine ⟨?_, ?_⟩
  · intro b hb
    rw [trimOws, List.head?_reverse] at hb
    -- the last byte of what is left in reverse is the first that was not whitespace
    have hsuffix := List.dropWhile_suffix isOws (l := (value.dropWhile isOws).reverse)
    obtain ⟨l, hl⟩ := hsuffix
    apply hhead value b
    rw [← List.getLast?_reverse, ← hl, List.getLast?_append, Option.mem_def.mp hb]
    rfl
  · intro b hb
    rw [trimOws, List.getLast?_reverse] at hb
    exact hhead _ b hb

end Util

end Jrpxy
