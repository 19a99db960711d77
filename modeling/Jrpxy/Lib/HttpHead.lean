/-
  Jrpxy.Lib.HttpHead

  The grammar of HTTP/1.1 message heads.

  A head is a start line, field lines and an empty line, each ended by CRLF.
  The grammar is a relation between a head and its bytes.  It is unambiguous on
  streams: a stream begins with at most one head, of one content
  (`RequestHead.unique`, `ResponseHead.unique`), so that whatever stands behind
  a head, nobody who follows the grammar can read another message into it.
-/
import Jrpxy.Lib.Ascii
import Jrpxy.Lib.SepList

namespace HttpHead

open Ascii SepList

/-! ## Bytes -/

/-- `tchar`: a letter, a digit, or one of fifteen marks. -/
def isTchar (b : UInt8) : Bool :=
  isAlphanumeric b ||
    [33, 35, 36, 37, 38, 39, 42, 43, 45, 46, 94, 95, 96, 124, 126].contains b

/-- `VCHAR / obs-text` -/
def isFieldVchar (b : UInt8) : Bool := (33 ≤ b && b ≤ 126) || 128 ≤ b

/-- SP or HTAB. -/
def isSpace (b : UInt8) : Bool := b == 32 || b == 9

/-- What a field value or a reason phrase is made of. -/
def isText (b : UInt8) : Bool := isFieldVchar b || isSpace b

/-- `1*tchar` -/
def Token (t : List UInt8) : Prop := t ≠ [] ∧ ∀ b ∈ t, isTchar b = true

/-- `*( HTAB / SP / VCHAR / obs-text )` -/
def Text (t : List UInt8) : Prop := ∀ b ∈ t, isText b = true

/-- `OWS` -/
def Ows (t : List UInt8) : Prop := ∀ b ∈ t, isSpace b = true

/-! ## Field lines -/

/-- A field name and a field value. -/
abbrev Field := List UInt8 × List UInt8

def crlf : List UInt8 := [13, 10]

/-- `field-name ":" OWS field-value OWS`; the value has no whitespace at its ends. -/
def FieldLine (f : Field) (line : List UInt8) : Prop :=
  Token f.1 ∧ Text f.2 ∧ trim isSpace f.2 = f.2 ∧
    ∃ before behind, Ows before ∧ Ows behind ∧
      line = f.1 ++ 58 :: (before ++ f.2 ++ behind)

/-- `*( field-line CRLF ) CRLF` -/
inductive FieldSection : List Field → List UInt8 → Prop where
  | nil : FieldSection [] crlf
  | cons {f : Field} {line : List UInt8} {fs : List Field} {rest : List UInt8}
      (hline : FieldLine f line) (hrest : FieldSection fs rest) :
      FieldSection (f :: fs) (line ++ crlf ++ rest)

/-! ## Start lines -/

/-- `"HTTP/" DIGIT "." DIGIT` -/
def Version (v : List UInt8) : Prop :=
  ∃ major minor, isDigit major = true ∧ isDigit minor = true ∧
    v = ascii "HTTP/" ++ [major, 46, minor]

/-- What the head of a request says. -/
structure RequestParts where
  method : List UInt8
  target : List UInt8
  version : List UInt8
  fields : List Field
  deriving DecidableEq, Repr

/-- `method SP request-target SP HTTP-version CRLF` and a field section.  The target ends at
    the space; which of its forms it has is for the recipient to find out. -/
def RequestHead (p : RequestParts) (head : List UInt8) : Prop :=
  Token p.method ∧ (p.target ≠ [] ∧ ∀ b ∈ p.target, isFieldVchar b = true) ∧ Version p.version ∧
    ∃ rest, FieldSection p.fields rest ∧
      head = p.method ++ 32 :: (p.target ++ 32 :: (p.version ++ crlf ++ rest))

/-- What the head of a response says. -/
structure ResponseParts where
  version : List UInt8
  code : List UInt8
  reason : List UInt8
  fields : List Field
  deriving DecidableEq, Repr

/-- `HTTP-version SP 3DIGIT SP [ reason-phrase ] CRLF` and a field section. -/
def ResponseHead (p : ResponseParts) (head : List UInt8) : Prop :=
  Version p.version ∧ (p.code.length = 3 ∧ ∀ b ∈ p.code, isDigit b = true) ∧ Text p.reason ∧
    ∃ rest, FieldSection p.fields rest ∧
      head = p.version ++ 32 :: (p.code ++ 32 :: (p.reason ++ crlf ++ rest))

/-! ## What a boundary cannot be part of -/

theorem ne_of_isTchar {b : UInt8} (h : isTchar b = true) : b ≠ 13 ∧ b ≠ 32 ∧ b ≠ 58 := by
  revert h
  exact forall_byte (p := fun b => isTchar b = true → b ≠ 13 ∧ b ≠ 32 ∧ b ≠ 58)
    (by decide +kernel) b

theorem ne_of_isFieldVchar {b : UInt8} (h : isFieldVchar b = true) : b ≠ 13 ∧ b ≠ 32 := by
  revert h
  exact forall_byte (p := fun b => isFieldVchar b = true → b ≠ 13 ∧ b ≠ 32) (by decide +kernel) b

theorem ne_of_isText {b : UInt8} (h : isText b = true) : b ≠ 13 := by
  revert h
  exact forall_byte (p := fun b => isText b = true → b ≠ 13) (by decide +kernel) b

theorem ne_of_isDigit {b : UInt8} (h : isDigit b = true) : b ≠ 13 ∧ b ≠ 32 := by
  revert h
  exact forall_byte (p := fun b => isDigit b = true → b ≠ 13 ∧ b ≠ 32) (by decide +kernel) b

/-- Two parts that do not hold their separator end at the same place. -/
theorem cut_unique {s : UInt8} {x x' y y' : List UInt8} (hx : ∀ b ∈ x, b ≠ s)
    (hx' : ∀ b ∈ x', b ≠ s) (h : x ++ s :: y = x' ++ s :: y') : x = x' ∧ y = y' := by
  induction x generalizing x' with
  | nil =>
    cases x' with
    | nil => exact ⟨rfl, (List.cons.inj h).2⟩
    | cons a x' => exact absurd (List.cons.inj h).1.symm (hx' a List.mem_cons_self)
  | cons a x ih =>
    cases x' with
    | nil => exact absurd (List.cons.inj h).1 (hx a List.mem_cons_self)
    | cons a' x' =>
      obtain ⟨hhead, htail⟩ := List.cons.inj h
      obtain ⟨rfl, hy⟩ := ih (fun b hb => hx b (List.mem_cons_of_mem a hb))
        (fun b hb => hx' b (List.mem_cons_of_mem a' hb)) htail
      exact ⟨by rw [hhead], hy⟩

/-- Two lines end at the same place. -/
theorem line_unique {x x' y y' : List UInt8} (hx : ∀ b ∈ x, b ≠ 13) (hx' : ∀ b ∈ x', b ≠ 13)
    (h : x ++ crlf ++ y = x' ++ crlf ++ y') : x = x' ∧ y = y' := by
  rw [List.append_assoc, List.append_assoc] at h
  obtain ⟨hline, hrest⟩ := @cut_unique 13 _ _ (10 :: y) (10 :: y') hx hx' h
  exact ⟨hline, (List.cons.inj hrest).2⟩

/-! ## One reading -/

/-- A field line has no line end in it, and does not begin with one. -/
theorem FieldLine.ne {f : Field} {line : List UInt8} (h : FieldLine f line) :
    ∀ b ∈ line, b ≠ 13 := by
  obtain ⟨htoken, htext, -, before, behind, hbefore, hbehind, rfl⟩ := h
  intro b hb
  rw [List.mem_append, List.mem_cons, List.mem_append, List.mem_append] at hb
  have hspace : ∀ b, isSpace b = true → b ≠ 13 := by
    intro b hb
    apply ne_of_isText
    simp [isText, hb]
  rcases hb with hb | rfl | (hb | hb) | hb
  · exact (ne_of_isTchar (htoken.2 b hb)).1
  · decide
  · exact hspace b (hbefore b hb)
  · exact ne_of_isText (htext b hb)
  · exact hspace b (hbehind b hb)

/-- A line is the line of one field. -/
theorem FieldLine.unique {f f' : Field} {line : List UInt8} (h : FieldLine f line)
    (h' : FieldLine f' line) : f = f' := by
  obtain ⟨htoken, -, htrim, before, behind, hbefore, hbehind, rfl⟩ := h
  obtain ⟨htoken', -, htrim', before', behind', hbefore', hbehind', heq⟩ := h'
  obtain ⟨hname, hvalue⟩ := cut_unique (s := 58) (fun b hb => (ne_of_isTchar (htoken.2 b hb)).2.2)
    (fun b hb => (ne_of_isTchar (htoken'.2 b hb)).2.2) heq
  have hboth := congrArg (trim isSpace) hvalue
  rw [trim_append_right hbehind, trim_append_left hbefore, htrim, trim_append_right hbehind',
    trim_append_left hbefore', htrim'] at hboth
  exact Prod.ext hname hboth

/-- A stream begins with one field section. -/
theorem FieldSection.unique {fs fs' : List Field} {x x' y y' : List UInt8}
    (h : FieldSection fs x) (h' : FieldSection fs' x') (heq : x ++ y = x' ++ y') :
    fs = fs' ∧ x = x' := by
  -- a field line begins with its name, the empty line with CR
  have hfirst : ∀ {f : Field} {line rest z : List UInt8}, FieldLine f line →
      crlf ++ z ≠ line ++ crlf ++ rest := by
    intro f line rest z hline hne
    have hline' := hline.ne
    obtain ⟨htoken, -, -, before, behind, -, -, rfl⟩ := hline
    obtain ⟨b, w, hname⟩ := List.exists_cons_of_ne_nil htoken.1
    rw [hname] at hne hline'
    exact hline' b (by simp) (List.cons.inj hne).1.symm
  induction h generalizing fs' x' with
  | nil =>
    cases h' with
    | nil => exact ⟨rfl, rfl⟩
    | cons hline' hrest' =>
      rw [List.append_assoc] at heq
      exact absurd heq (hfirst hline')
  | cons hline hrest ih =>
    cases h' with
    | nil =>
      rw [List.append_assoc] at heq
      exact absurd heq.symm (hfirst hline)
    | cons hline' hrest' =>
      rw [List.append_assoc, List.append_assoc (_ ++ crlf)] at heq
      obtain ⟨rfl, hmore⟩ := line_unique hline.ne hline'.ne heq
      obtain ⟨rfl, rfl⟩ := ih hrest' hmore
      exact ⟨by rw [hline.unique hline'], rfl⟩

theorem Version.ne {v : List UInt8} (h : Version v) : ∀ b ∈ v, b ≠ 13 ∧ b ≠ 32 := by
  obtain ⟨major, minor, hmajor, hminor, rfl⟩ := h
  intro b hb
  rw [List.mem_append] at hb
  rcases hb with hb | hb
  · revert b
    decide +kernel
  · simp only [List.mem_cons, List.not_mem_nil, or_false] at hb
    rcases hb with rfl | rfl | rfl
    · exact ne_of_isDigit hmajor
    · decide
    · exact ne_of_isDigit hminor

/-- A stream begins with one request head. -/
theorem RequestHead.unique {p p' : RequestParts} {x x' y y' : List UInt8} (h : RequestHead p x)
    (h' : RequestHead p' x') (heq : x ++ y = x' ++ y') : p = p' ∧ x = x' := by
  obtain ⟨method, target, version, fields⟩ := p
  obtain ⟨method', target', version', fields'⟩ := p'
  obtain ⟨hmethod, htarget, hversion, rest, hrest, rfl⟩ := h
  obtain ⟨hmethod', htarget', hversion', rest', hrest', rfl⟩ := h'
  dsimp only at *
  simp only [List.append_assoc, List.cons_append] at heq
  obtain ⟨rfl, htail⟩ := cut_unique (fun b hb => (ne_of_isTchar (hmethod.2 b hb)).2.1)
    (fun b hb => (ne_of_isTchar (hmethod'.2 b hb)).2.1) heq
  obtain ⟨rfl, hline⟩ := cut_unique (fun b hb => (ne_of_isFieldVchar (htarget.2 b hb)).2)
    (fun b hb => (ne_of_isFieldVchar (htarget'.2 b hb)).2) htail
  rw [← List.append_assoc, ← List.append_assoc version'] at hline
  obtain ⟨rfl, hsection⟩ := line_unique (fun b hb => (hversion.ne b hb).1)
    (fun b hb => (hversion'.ne b hb).1) hline
  obtain ⟨rfl, rfl⟩ := hrest.unique hrest' hsection
  exact ⟨rfl, rfl⟩

/-- A stream begins with one response head. -/
theorem ResponseHead.unique {p p' : ResponseParts} {x x' y y' : List UInt8}
    (h : ResponseHead p x) (h' : ResponseHead p' x') (heq : x ++ y = x' ++ y') :
    p = p' ∧ x = x' := by
  obtain ⟨version, code, reason, fields⟩ := p
  obtain ⟨version', code', reason', fields'⟩ := p'
  obtain ⟨hversion, hcode, hreason, rest, hrest, rfl⟩ := h
  obtain ⟨hversion', hcode', hreason', rest', hrest', rfl⟩ := h'
  dsimp only at *
  simp only [List.append_assoc, List.cons_append] at heq
  obtain ⟨rfl, htail⟩ := cut_unique (fun b hb => (hversion.ne b hb).2)
    (fun b hb => (hversion'.ne b hb).2) heq
  obtain ⟨rfl, hline⟩ := cut_unique (fun b hb => (ne_of_isDigit (hcode.2 b hb)).2)
    (fun b hb => (ne_of_isDigit (hcode'.2 b hb)).2) htail
  rw [← List.append_assoc, ← List.append_assoc reason'] at hline
  obtain ⟨rfl, hsection⟩ := line_unique (fun b hb => ne_of_isText (hreason b hb))
    (fun b hb => ne_of_isText (hreason' b hb)) hline
  obtain ⟨rfl, rfl⟩ := hrest.unique hrest' hsection
  exact ⟨rfl, rfl⟩

end HttpHead
