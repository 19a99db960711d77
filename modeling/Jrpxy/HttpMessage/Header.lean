/-
  Jrpxy.HttpMessage.Header

  Header lists, the framing they announce, and the connection options they
  carry.
-/
import Jrpxy.HttpMessage.Framing

namespace Jrpxy.HttpMessage

open Ascii Util

/-- A field name and its value. -/
abbrev Field := Bytes × Bytes

/-- Errors from interpreting headers.  The source keeps offending bytes as lossily
    decoded strings; here they are the bytes. -/
inductive HeaderError where
  | invalidContentLength (value : Bytes)
  | conflictingContentLength (old new : Nat)
  | multipleTransferEncodingHeaders
  | unsupportedTransferEncoding (value : Bytes)
  | bothTeAndCl
  deriving DecidableEq, Repr

/-- Why `Headers.push` rejects a field. -/
inductive FieldError where
  | invalidName
  | invalidValue
  deriving DecidableEq, Repr

inductive ConnectionTokenParserError where
  | illegalChar (byte : UInt8)
  deriving DecidableEq, Repr

/-- A set of headers. -/
structure Headers where
  headers : List Field
  deriving DecidableEq, Repr

/-- A field as it is written on the wire. -/
def fieldLine (f : Field) : Bytes := f.1 ++ ascii ": " ++ f.2 ++ ascii "\r\n"

/-- The field lines of a header or trailer section. -/
def fieldLines (fs : List Field) : Bytes := fs.flatMap fieldLine

@[simp] theorem fieldLines_nil : fieldLines [] = [] := rfl

@[simp] theorem fieldLines_cons (f : Field) (fs : List Field) :
    fieldLines (f :: fs) = fieldLine f ++ fieldLines fs := rfl

theorem fieldLines_append (fs gs : List Field) :
    fieldLines (fs ++ gs) = fieldLines fs ++ fieldLines gs := by
  simp [fieldLines]

/-! ## Connection options -/

/-- Drop leading SP and HTAB. -/
def skipWhitespace (val : Bytes) : Bytes := val.dropWhile fun b => b == 9 || b == 32

/-- The rounds of `TokenParser::next`; each uses up at least one byte. -/
def tokenParserRounds : Nat → Bytes → List (Except ConnectionTokenParserError Bytes)
  | 0, _ => []
  | fuel + 1, inner =>
    if inner.isEmpty then []
    else
      let tok := inner.takeWhile isValidTchar
      match skipWhitespace (inner.dropWhile isValidTchar) with
      | [] => if tok.isEmpty then tokenParserRounds fuel [] else [.ok tok]
      | next :: rest =>
        -- an illegal byte drops the remaining bytes, so the iterator ends here
        if next != 44 then [.error (.illegalChar next)]
        else if tok.isEmpty then tokenParserRounds fuel (skipWhitespace rest)
        else .ok tok :: tokenParserRounds fuel (skipWhitespace rest)

/-- The items of `TokenParser` on one `Connection` value. -/
def tokenParser (value : Bytes) : List (Except ConnectionTokenParserError Bytes) :=
  tokenParserRounds value.length value

/-- The items up to the first error. -/
def collectTokens {ε α : Type} : List (Except ε α) → Except ε (List α)
  | [] => .ok []
  | .error e :: _ => .error e
  | .ok a :: rest => (collectTokens rest).map (a :: ·)

/-! ## Transfer codings and content lengths -/

/-- `str::parse::<u64>` on bytes already known to be digits. -/
def parseU64 (digits : Bytes) : Option Nat :=
  if digits.isEmpty then none else (value 10 digits).filter (· < 2 ^ 64)

/-- The members of one `Content-Length` value, against the value seen so far. -/
def contentLengthList (value : Bytes) : Option Nat → List Bytes → Except HeaderError (Option Nat)
  | cl, [] => .ok cl
  | cl, raw :: rest =>
    let trimmed := trimOws raw
    if !trimmed.all isDigit then .error (.invalidContentLength trimmed)
    else
      match parseU64 trimmed with
      | none => .error (.invalidContentLength value)
      | some clVal =>
        match cl with
        | none => contentLengthList value (some clVal) rest
        | some old =>
          if old != clVal then .error (.conflictingContentLength old clVal)
          else contentLengthList value (some clVal) rest

/-- How many `chunked` codings a `Transfer-Encoding` list has, if nothing else. -/
def countChunked : Nat → List Bytes → Except HeaderError Nat
  | n, [] => .ok n
  | n, raw :: rest =>
    let coding := trimOws raw
    if coding.isEmpty then countChunked n rest
    else if !eqIgnoreCase coding (ascii "chunked") then
      .error (.unsupportedTransferEncoding coding)
    else countChunked (n + 1) rest

/-- The value names exactly the `chunked` coding. -/
def ensureSoleChunkedCoding (value : Bytes) : Except HeaderError Unit := do
  let n ← countChunked 0 (value.splitOn 44)
  if n != 1 then .error (.unsupportedTransferEncoding (trimOws value)) else .ok ()

/-- The scan of `framing` over the header list. -/
def framingScan : Option Nat → Nat → Option Bytes → List Field →
    Except HeaderError (Option Nat × Nat × Option Bytes)
  | cl, te, teValue, [] => .ok (cl, te, teValue)
  | cl, te, teValue, (name, value) :: rest =>
    if eqIgnoreCase name (ascii "content-length") then do
      let value := trimOws value
      let cl ← contentLengthList value cl (value.splitOn 44)
      framingScan cl te teValue rest
    else if eqIgnoreCase name (ascii "transfer-encoding") then
      framingScan cl (te + 1) (some value) rest
    else framingScan cl te teValue rest

namespace Headers

/-- No headers. -/
def empty : Headers := ⟨[]⟩

/-- Add a field after validating it. -/
def push (h : Headers) (name value : Bytes) : Except FieldError Headers :=
  if !isValidFieldName name then .error .invalidName
  else if !isValidFieldValue value then .error .invalidValue
  else .ok ⟨h.headers ++ [(name, value)]⟩

/-- Add a field without validating it. -/
def pushRaw (h : Headers) (name value : Bytes) : Headers := ⟨h.headers ++ [(name, value)]⟩

def iter (h : Headers) : List Field := h.headers

/-- The fields named `name`, ignoring case. -/
def getHeader (h : Headers) (name : Bytes) : List Field :=
  h.headers.filter fun f => eqIgnoreCase name f.1

/-- The framing the headers announce. -/
def framing (h : Headers) : Except HeaderError ParsedFraming := do
  let (cl, teHeaders, teValue) ← framingScan none 0 none h.headers
  let te ← match teHeaders, teValue with
    | 0, _ => .ok false
    | 1, some value => (ensureSoleChunkedCoding value).map fun _ => true
    | _, _ => .error .multipleTransferEncodingHeaders
  match cl, te with
  | none, true => .ok .chunked
  | none, false => .ok .noFraming
  | some _, true => .error .bothTeAndCl
  | some cl, false => .ok (.length cl)

/-- The options of all `Connection` fields. -/
def connectionTokens (h : Headers) : List (Except ConnectionTokenParserError Bytes) :=
  (h.getHeader (ascii "connection")).flatMap fun f => tokenParser f.2

/-- A connection that carries a message of this version with these headers stays open. -/
def connectionIsPersistent (h : Headers) (version : HttpVersion) :
    Except ConnectionTokenParserError Bool := do
  let tokens ← collectTokens h.connectionTokens
  let close := tokens.any fun t => eqIgnoreCase t (ascii "close")
  let keepAlive := tokens.any fun t =>
    !eqIgnoreCase t (ascii "close") && eqIgnoreCase t (ascii "keep-alive")
  return match version with
    | .http11 => !close
    | .http10 => keepAlive && !close

/-- Keep the fields that satisfy `pred`. -/
def retain (h : Headers) (pred : Field → Bool) : Headers := ⟨h.headers.filter pred⟩

/-- Take out the fields that satisfy `pred`: the removed ones and what is left. -/
def remove (h : Headers) (pred : Field → Bool) : Headers × Headers :=
  (⟨h.headers.filter pred⟩, ⟨h.headers.filter fun f => !pred f⟩)

/-- Every field has a valid name and a valid value. -/
def Valid (h : Headers) : Prop :=
  ∀ f ∈ h.headers, isValidFieldName f.1 = true ∧ isValidFieldValue f.2 = true

instance (h : Headers) : Decidable h.Valid :=
  inferInstanceAs (Decidable (∀ f ∈ h.headers, _))

/-- None of the fields has this name. -/
theorem getHeader_eq_nil {h : Headers} {name : Bytes}
    (hnone : ∀ f ∈ h.headers, eqIgnoreCase name f.1 = false) : h.getHeader name = [] := by
  rw [getHeader, List.filter_eq_nil_iff]
  intro f hf
  rw [hnone f hf]
  exact Bool.false_ne_true

@[simp] theorem getHeader_headers (fs : List Field) (name : Bytes) :
    getHeader ⟨fs⟩ name = fs.filter fun f => eqIgnoreCase name f.1 := rfl

/-- `push` accepts exactly the valid fields. -/
theorem push_eq_ok {h h' : Headers} {name value : Bytes} :
    h.push name value = .ok h' ↔ isValidFieldName name = true ∧ isValidFieldValue value = true ∧
      h' = ⟨h.headers ++ [(name, value)]⟩ := by
  unfold push
  cases isValidFieldName name <;> cases isValidFieldValue value <;> simp [eq_comm]

theorem Valid.retain {h : Headers} (hv : h.Valid) (pred : Field → Bool) : (h.retain pred).Valid :=
  fun f hf => hv f (List.mem_filter.mp hf).1

end Headers

/-! ## The scan and its parts -/

/-- Fields of other names do not matter to the scan. -/
theorem framingScan_filter (fs : List Field) (cl : Option Nat) (te : Nat)
    (teValue : Option Bytes) :
    framingScan cl te teValue (fs.filter fun f => isFramingHeader f.1) =
      framingScan cl te teValue fs := by
  induction fs generalizing cl te teValue with
  | nil => rfl
  | cons f fs ih =>
    obtain ⟨name, value⟩ := f
    by_cases hframing : isFramingHeader name = true
    · rw [List.filter_cons_of_pos (by simpa using hframing), framingScan, framingScan]
      split
      · simp only [ih]
      · split
        · exact ih cl (te + 1) (some value)
        · exact ih cl te teValue
    · rw [Bool.not_eq_true] at hframing
      obtain ⟨hcl, hte⟩ := isFramingHeader_eq_false.mp hframing
      rw [List.filter_cons_of_neg (by simp [hframing]), framingScan, hcl, hte, ih]
      rfl

/-- Only the framing headers decide the framing. -/
theorem Headers.framing_congr {fs fs' : List Field}
    (h : (fs.filter fun f => isFramingHeader f.1) = fs'.filter fun f => isFramingHeader f.1) :
    Headers.framing ⟨fs⟩ = Headers.framing ⟨fs'⟩ := by
  unfold Headers.framing
  rw [← framingScan_filter fs, ← framingScan_filter fs', h]

/-- The written form of a `u64` reads back as itself. -/
theorem parseU64_digits {n : Nat} (h : n < 2 ^ 64) : parseU64 (digits 10 n) = some n := by
  rw [parseU64, if_neg (by simpa using digits_ne_nil 10 n),
    value_digits (by decide) (by decide)]
  exact Option.filter_eq_some_iff.mpr ⟨rfl, decide_eq_true h⟩

/-- A numeral has no comma in it and nothing to trim. -/
theorem contentLengthList_digits {n : Nat} (h : n < 2 ^ 64) (value : Bytes) :
    contentLengthList value none ((trimOws (digits 10 n)).splitOn 44) = .ok (some n) := by
  have hdigit : ∀ b ∈ digits 10 n, isDigit b = true :=
    forall_mem_digits (by decide) (fun d hd => isDigit_digit hd) n
  have hows : ∀ b ∈ digits 10 n, isOws b = false := fun b hb => by
    have hne := ne_of_isDigit (hdigit b hb)
    simp [isOws, hne]
  have htrim : trimOws (digits 10 n) = digits 10 n := by
    apply trimOws_of_trimmed
    constructor
    · intro b hb
      exact hows b (List.mem_of_mem_head? hb)
    · intro b hb
      exact hows b (List.mem_of_mem_getLast? hb)
  have hcomma : (digits 10 n).splitOn 44 = [digits 10 n] := by
    apply List.splitOn_eq_singleton
    intro hmem
    exact (ne_of_isDigit (hdigit 44 hmem)).2.2 rfl
  rw [htrim, hcomma, contentLengthList, htrim]
  have hall : (digits 10 n).all isDigit = true := by simpa using hdigit
  rw [hall, parseU64_digits h]
  rfl

end Jrpxy.HttpMessage
