/-
  Jrpxy.HttpMessage.ReadHead

  Reading a message head off a connection.

  Both sides run the same loop: parse what is buffered; if the parser wants
  more, read more, up to a limit.  They differ in the parser and in the names
  of the errors.
-/
import Jrpxy.HttpMessage.Message

namespace Jrpxy.HttpMessage

open Poll Incremental Util

/-- How one side names what can go wrong with a head. -/
structure HeadErrors (ε : Type) where
  parseError : MessageError → ε
  readError : IoError → ε
  maxHeadLenExceeded : Nat → Nat → ε
  firstReadEOF : ε
  unexpectedEOF : ε

variable {ε α : Type}

/-- A parser of heads off a buffered reader; `none` asks for more bytes. -/
abbrev HeadParser (α : Type) := BytesReader → Polled MessageError (Option α) × BytesReader

/-- The rounds of `head`; every read that adds bytes uses up some of the source. -/
def readHeadLoop (errors : HeadErrors ε) (parse : HeadParser α) (maxHeadLength : Nat) :
    Nat → BytesReader → Polled ε α × BytesReader
  | 0, reader => (.pending, reader)
  | fuel + 1, reader =>
    andThen (mapErr errors.parseError (parse reader)) id fun found reader =>
      match found with
      | some head => (.ok head, reader)
      | none =>
        if maxHeadLength ≤ reader.len then
          (.err (errors.maxHeadLenExceeded reader.len maxHeadLength), reader)
        else
          let firstRead := reader.isEmpty
          andThen (mapErr errors.readError (reader.read (maxHeadLength - reader.len))) id
            fun len reader =>
              if len = 0 then
                (.err (if firstRead then errors.firstReadEOF else errors.unexpectedEOF), reader)
              else readHeadLoop errors parse maxHeadLength fuel reader

/-- Wait for the full head to be available. -/
def readHead (errors : HeadErrors ε) (parse : HeadParser α) (maxHeadLength : Nat)
    (reader : BytesReader) : Polled ε α × BytesReader :=
  readHeadLoop errors parse maxHeadLength (reader.weight + 1) reader

/-- A parser that wants more bytes leaves the reader alone. -/
def HeadParser.Patient (parse : HeadParser α) : Prop :=
  ∀ {r r'}, parse r = (.ok none, r') → r' = r

/-- A parser of heads in a stream, where `Whole head a` says that `head` is one whole head
    and is parsed to `a`: it finds a whole head in front of what it leaves, and every whole
    head that the connection stands in front of, once it is buffered. -/
structure HeadParser.Streams (parse : HeadParser α) (Whole : Bytes → α → Prop) : Prop where
  patient : parse.Patient
  found : ∀ {r r' a}, parse r = (.ok (some a), r') →
    ∃ head, r.unread = head ++ r'.unread ∧ Whole head a
  short : ∀ {head rest a} {r : BytesReader}, Whole head a → r.unread = head ++ rest →
    r.len < head.length → parse r = (.ok none, r)
  long : ∀ {head rest a} {r : BytesReader}, Whole head a → r.unread = head ++ rest →
    head.length ≤ r.len → ∃ r', parse r = (.ok (some a), r') ∧ r'.unread = rest

variable {errors : HeadErrors ε} {parse : HeadParser α} {maxHeadLength : Nat}

/-- A round that comes to a head found it in the buffer, or read on below the limit. -/
theorem readHeadLoop_ok (hpatient : parse.Patient) {fuel : Nat} {reader reader' : BytesReader}
    {head : α}
    (h : readHeadLoop errors parse maxHeadLength (fuel + 1) reader = (.ok head, reader')) :
    parse reader = (.ok (some head), reader') ∨
      ∃ r : BytesReader, r.unread = reader.unread ∧ r.len ≤ maxHeadLength ∧
        readHeadLoop errors parse maxHeadLength fuel r = (.ok head, reader') := by
  rw [readHeadLoop] at h
  rcases hparse : parse reader with ⟨_ | (_ | a) | e | _, r⟩
  · rw [hparse] at h
    cases h
  · obtain rfl := hpatient hparse
    simp only [hparse, mapErr_mk, Polled.mapErr_ok, andThen_ok] at h
    split at h
    · cases h
    · have hread := @BytesReader.read_meets (maxHeadLength - r.len) (by omega) r
      have hadded := @BytesReader.read_len (maxHeadLength - r.len) (by omega) r
      generalize r.read (maxHeadLength - r.len) = x at h hread hadded
      obtain ⟨_ | n | e | _, r₁⟩ := x
      · exact hread.elim
      · simp only [mapErr_mk, Polled.mapErr_ok, andThen_ok] at h
        split at h
        · cases h
        · obtain ⟨hle, hlen⟩ := hadded
          exact .inr ⟨r₁, hread.1, by omega, h⟩
      · cases h
      · exact hread.elim
  · simp only [hparse, mapErr_mk, Polled.mapErr_ok, andThen_ok] at h
    cases h
    exact .inl rfl
  · rw [hparse] at h
    cases h
  · rw [hparse] at h
    cases h

/-- A head that is read was parsed off a buffer of the same connection. -/
theorem readHead_ok (hpatient : parse.Patient) {reader reader' : BytesReader} {head : α}
    (h : readHead errors parse maxHeadLength reader = (.ok head, reader')) :
    ∃ r, r.unread = reader.unread ∧ parse r = (.ok (some head), reader') := by
  unfold readHead at h
  generalize reader.weight + 1 = fuel at h
  induction fuel generalizing reader with
  | zero => cases h
  | succ fuel ih =>
    obtain hparse | ⟨r, hr, -, hrest⟩ := readHeadLoop_ok hpatient h
    · exact ⟨reader, rfl, hparse⟩
    · obtain ⟨r₂, hunread, hparse⟩ := ih hrest
      exact ⟨r₂, hunread.trans hr, hparse⟩

/-- A head of `n` bytes that the connection has, within the limit, is read, however it
    is delivered, if the parser finds it in every buffer that holds it and asks for
    more otherwise. -/
theorem readHead_meets {head : α} {n : Nat} {s : Bytes} (hmax : n ≤ maxHeadLength)
    (hlen : n ≤ s.length)
    (hshort : ∀ {r : BytesReader}, r.unread = s → r.len < n → parse r = (.ok none, r))
    (hlong : ∀ {r : BytesReader}, r.unread = s → n ≤ r.len →
      ∃ r', parse r = (.ok (some head), r') ∧ r'.unread = s.drop n)
    {reader : BytesReader} (hunread : reader.unread = s) :
    Meets (readHead errors parse maxHeadLength reader) {
      pending := fun _ => False
      ok := fun a r => a = head ∧ r.unread = s.drop n
      err := fun _ _ => False } := by
  have hloop : ∀ fuel (r : BytesReader), r.unread = s → r.weight < fuel →
      Meets (readHeadLoop errors parse maxHeadLength fuel r) {
        pending := fun _ => False
        ok := fun a r => a = head ∧ r.unread = s.drop n
        err := fun _ _ => False } := by
    intro fuel
    induction fuel with
    | zero =>
      intro r _ hweight
      omega
    | succ fuel ih =>
      intro r hr hweight
      rw [readHeadLoop]
      by_cases hbuf : n ≤ r.len
      · obtain ⟨r', hparse, hdrop⟩ := hlong hr hbuf
        simp only [hparse, mapErr_mk, Polled.mapErr_ok, andThen_ok]
        exact ⟨rfl, hdrop⟩
      -- the source has bytes left, since the buffer does not hold the head yet
      · have hstream : r.io.stream ≠ [] := by
          intro hnil
          have hall : r.asBytes.length = s.length := by
            rw [← hr, BytesReader.unread, hnil, List.append_nil]
          rw [BytesReader.length_asBytes] at hall
          omega
        simp only [hshort hr (by omega), mapErr_mk, Polled.mapErr_ok, andThen_ok]
        rw [if_neg (by omega)]
        have hread := @BytesReader.read_meets (maxHeadLength - r.len) (by omega) r
        generalize r.read (maxHeadLength - r.len) = x at hread
        obtain ⟨_ | k | e | _, r₁⟩ := x
        · exact hread.elim
        · obtain ⟨hunread₁, hweight₁, heof⟩ := hread
          have hk : k ≠ 0 := fun h0 => hstream (heof h0)
          simp only [mapErr_mk, Polled.mapErr_ok, andThen_ok, if_neg hk]
          exact ih r₁ (hunread₁.trans hr) (by omega)
        · exact hstream hread
        · exact hread.elim
  exact hloop _ reader hunread (Nat.lt_succ_self _)

/-! ## Heads in a stream -/

variable {Whole : Bytes → α → Prop}

/-- A head that is read is a whole one, and the connection stands behind it. -/
theorem readHead_found (hparse : parse.Streams Whole) {reader reader' : BytesReader} {a : α}
    (h : readHead errors parse maxHeadLength reader = (.ok a, reader')) :
    ∃ head, reader.unread = head ++ reader'.unread ∧ Whole head a := by
  obtain ⟨r, hunread, hfound⟩ := readHead_ok hparse.patient h
  rw [← hunread]
  exact hparse.found hfound

/-- A whole head within the limit is read, however it is delivered. -/
theorem readHead_whole (hparse : parse.Streams Whole) {head rest : Bytes} {a : α}
    (hwhole : Whole head a) (hmax : head.length ≤ maxHeadLength) {reader : BytesReader}
    (hunread : reader.unread = head ++ rest) :
    ∃ r, readHead errors parse maxHeadLength reader = (.ok a, r) ∧ r.unread = rest := by
  have hmeets := @readHead_meets _ _ errors parse maxHeadLength a head.length (head ++ rest) hmax
    (by simp) (hparse.short hwhole) ?_ reader hunread
  · generalize readHead errors parse maxHeadLength reader = x at hmeets
    obtain ⟨_ | a' | e | _, r⟩ := x
    · exact hmeets.elim
    · obtain ⟨rfl, hrest⟩ := hmeets
      exact ⟨r, rfl, hrest.trans List.drop_left⟩
    · exact hmeets.elim
    · exact hmeets.elim
  · intro r hr hlen
    obtain ⟨r', hok, hrest⟩ := hparse.long hwhole hr hlen
    exact ⟨r', hok, hrest.trans List.drop_left.symm⟩

end Jrpxy.HttpMessage
