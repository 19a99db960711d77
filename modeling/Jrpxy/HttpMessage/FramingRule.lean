/-
  Jrpxy.HttpMessage.FramingRule

  The framing of a header list, as a rule about its two framing headers.

  `Headers.framing` scans the list once, with two accumulators and early
  returns.  What the scan makes of the content lengths composes over the
  elements (`Lengths.append_iff`), so it can be read off all of them at once
  (`framingScan_iff`), and the verdict is the rule (`framing_iff_rule`).
-/
import Jrpxy.HttpMessage.FieldList

namespace Jrpxy.HttpMessage

open Ascii Util SepList

/-! ## The rule -/

def contentLengthFields (fs : List Field) : List Field :=
  fs.filter fun f => eqIgnoreCase f.1 (ascii "content-length")

def transferEncodingFields (fs : List Field) : List Field :=
  fs.filter fun f => eqIgnoreCase f.1 (ascii "transfer-encoding")

/-- `e` is a non-empty string of digits with the value `n`. -/
structure Denotes (n : Nat) (e : Bytes) : Prop where
  ne_nil : e ≠ []
  digits : ∀ b ∈ e, isDigit b = true
  value : value 10 e = some n

/-- The value names exactly one coding, `chunked`. -/
def SoleChunked (value : Bytes) : Prop :=
  ∃ c, nonEmptyElements value = [c] ∧ eqIgnoreCase c (ascii "chunked") = true

/-- The framing the two framing headers stand for. -/
def FramingRule (fs : List Field) : ParsedFraming → Prop
  | .length n => transferEncodingFields fs = [] ∧ contentLengthFields fs ≠ [] ∧ n < 2 ^ 64 ∧
      ∀ f ∈ contentLengthFields fs, ∀ e ∈ listElements f.2, Denotes n e
  | .chunked => contentLengthFields fs = [] ∧
      ∃ f, transferEncodingFields fs = [f] ∧ SoleChunked f.2
  | .noFraming => contentLengthFields fs = [] ∧ transferEncodingFields fs = []

/-! ## Content lengths -/

/-- From the value `cl` seen so far to the value `cl'` over these elements. -/
def Lengths (cl cl' : Option Nat) (es : List Bytes) : Prop :=
  (es = [] ∧ cl' = cl) ∨
    ∃ n, cl' = some n ∧ n < 2 ^ 64 ∧ (cl = none ∨ cl = some n) ∧ es ≠ [] ∧ ∀ e ∈ es, Denotes n e

theorem lengths_nil {cl cl' : Option Nat} : Lengths cl cl' [] ↔ cl' = cl := by
  simp [Lengths]

/-- Values seen earlier and later must be one value. -/
theorem Lengths.append_iff {cl cl' : Option Nat} {es es' : List Bytes} :
    Lengths cl cl' (es ++ es') ↔ ∃ c, Lengths cl c es ∧ Lengths c cl' es' := by
  constructor
  · rintro (⟨hnil, rfl⟩ | ⟨n, rfl, hn, hcl, hne, hall⟩)
    · obtain ⟨rfl, rfl⟩ := List.append_eq_nil_iff.mp hnil
      exact ⟨cl', .inl ⟨rfl, rfl⟩, .inl ⟨rfl, rfl⟩⟩
    · rw [List.forall_mem_append] at hall
      by_cases hes : es = []
      · subst hes
        exact ⟨cl, .inl ⟨rfl, rfl⟩, .inr ⟨n, rfl, hn, hcl, hne, hall.2⟩⟩
      · refine ⟨some n, .inr ⟨n, rfl, hn, hcl, hes, hall.1⟩, ?_⟩
        by_cases hes' : es' = []
        · exact .inl ⟨hes', rfl⟩
        · exact .inr ⟨n, rfl, hn, .inr rfl, hes', hall.2⟩
  · rintro ⟨c, ⟨rfl, rfl⟩ | ⟨n, rfl, hn, hcl, hne, hall⟩, h'⟩
    · rwa [List.nil_append]
    · refine .inr ?_
      rcases h' with ⟨rfl, rfl⟩ | ⟨m, rfl, hm, hc, hne', hall'⟩
      · refine ⟨n, rfl, hn, hcl, ?_, ?_⟩
        · rwa [List.append_nil]
        · rwa [List.append_nil]
      · have hsame : m = n := by
          rcases hc with hc | hc
          · cases hc
          · exact (Option.some.inj hc).symm
        subst hsame
        exact ⟨m, rfl, hm, hcl, by simp [hne], List.forall_mem_append.mpr ⟨hall, hall'⟩⟩

/-- A digit string is read as a `u64` exactly if it denotes one. -/
theorem parseU64_iff {e : Bytes} (he : ∀ b ∈ e, isDigit b = true) {n : Nat} :
    parseU64 e = some n ↔ n < 2 ^ 64 ∧ Denotes n e := by
  unfold parseU64
  by_cases hnil : e = []
  · rw [if_pos (by simp [hnil])]
    exact iff_of_false nofun fun h => h.2.ne_nil hnil
  · rw [if_neg (by simpa using hnil), Option.filter_eq_some_iff, decide_eq_true_iff]
    exact ⟨fun h => ⟨h.2, hnil, he, h.1⟩, fun h => ⟨h.2.value, h.1⟩⟩

theorem Denotes.unique {n m : Nat} {e : Bytes} (hn : Denotes n e) (hm : Denotes m e) : m = n := by
  have h := hm.value
  rw [hn.value] at h
  exact (Option.some.inj h).symm

/-- An element in front of the others is a number, and the others repeat it. -/
theorem lengths_cons {cl cl' : Option Nat} {e : Bytes} {es : List Bytes} :
    Lengths cl cl' (e :: es) ↔ ∃ n, n < 2 ^ 64 ∧ Denotes n e ∧ (cl = none ∨ cl = some n) ∧
      Lengths (some n) cl' es := by
  have hone : ∀ c, Lengths cl c [e] ↔
      ∃ n, c = some n ∧ n < 2 ^ 64 ∧ (cl = none ∨ cl = some n) ∧ Denotes n e := by
    intro c
    simp [Lengths]
  rw [← List.singleton_append, Lengths.append_iff]
  simp only [hone]
  constructor
  · rintro ⟨c, ⟨n, rfl, hn, hcl, hdenotes⟩, hrest⟩
    exact ⟨n, hn, hdenotes, hcl, hrest⟩
  · rintro ⟨n, hn, hdenotes, hcl, hrest⟩
    exact ⟨some n, ⟨n, rfl, hn, hcl, hdenotes⟩, hrest⟩

theorem lengths_cons_of_denotes {cl cl' : Option Nat} {e : Bytes} {es : List Bytes} {n : Nat}
    (hn : n < 2 ^ 64) (he : Denotes n e) :
    Lengths cl cl' (e :: es) ↔ (cl = none ∨ cl = some n) ∧ Lengths (some n) cl' es := by
  rw [lengths_cons]
  constructor
  · rintro ⟨m, -, hm, hcl, hrest⟩
    obtain rfl := he.unique hm
    exact ⟨hcl, hrest⟩
  · rintro ⟨hcl, hrest⟩
    exact ⟨n, hn, he, hcl, hrest⟩

/-- What the loop over one value does. -/
theorem contentLengthList_iff {value : Bytes} {cl cl' : Option Nat} {raws : List Bytes} :
    contentLengthList value cl raws = .ok cl' ↔ Lengths cl cl' (raws.map trimOws) := by
  induction raws generalizing cl with
  | nil =>
    rw [contentLengthList, List.map_nil, lengths_nil]
    exact ⟨fun h => (Except.ok.inj h).symm, fun h => congrArg _ h.symm⟩
  | cons raw raws ih =>
    rw [contentLengthList, List.map_cons]
    by_cases hdigits : (trimOws raw).all isDigit = true
    · rw [if_neg (by simp [hdigits])]
      have hall : ∀ b ∈ trimOws raw, isDigit b = true := by simpa using hdigits
      cases hparse : parseU64 (trimOws raw) with
      | none =>
        refine iff_of_false (by intro h; cases h) ?_
        rw [lengths_cons]
        rintro ⟨n, hn, hdenotes, -⟩
        rw [(parseU64_iff hall).mpr ⟨hn, hdenotes⟩] at hparse
        cases hparse
      | some n =>
        obtain ⟨hn, hdenotes⟩ := (parseU64_iff hall).mp hparse
        rw [lengths_cons_of_denotes hn hdenotes]
        cases cl with
        | none => simp [ih]
        -- a second value is the first one again, or an error
        | some old =>
          by_cases hold : old = n
          · subst hold
            simp [ih]
          · simp [hold]
    · rw [if_pos (by simpa using hdigits)]
      refine iff_of_false (by intro h; cases h) ?_
      rw [lengths_cons]
      rintro ⟨n, -, hdenotes, -⟩
      exact hdigits (by simpa using hdenotes.digits)

/-- The elements of all content-length values. -/
def lengthElements (fs : List Field) : List Bytes :=
  (contentLengthFields fs).flatMap fun f => listElements f.2

/-- What the scan over a header list does. -/
theorem framingScan_iff {cl cl' : Option Nat} {te te' : Nat} {teValue teValue' : Option Bytes}
    {fs : List Field} :
    framingScan cl te teValue fs = .ok (cl', te', teValue') ↔
      Lengths cl cl' (lengthElements fs) ∧ te' = te + (transferEncodingFields fs).length ∧
        teValue' = (transferEncodingFields fs).foldl (fun _ f => some f.2) teValue := by
  induction fs generalizing cl te teValue with
  | nil =>
    simp only [framingScan, lengthElements, contentLengthFields, transferEncodingFields,
      List.filter_nil, List.flatMap_nil, lengths_nil, List.length_nil, List.foldl_nil,
      Except.ok.injEq, Prod.mk.injEq, Nat.add_zero]
    exact ⟨fun h => ⟨h.1.symm, h.2.1.symm, h.2.2.symm⟩, fun h => ⟨h.1.symm, h.2.1.symm, h.2.2.symm⟩⟩
  | cons f fs ih =>
    obtain ⟨name, val⟩ := f
    rw [framingScan]
    by_cases hcl : eqIgnoreCase name (ascii "content-length") = true
    -- the two names are different, so the field counts for one of them
    · have hte : eqIgnoreCase name (ascii "transfer-encoding") = false := by
        rw [eqIgnoreCase_congr hcl]
        decide +kernel
      have hels : lengthElements ((name, val) :: fs) = listElements val ++ lengthElements fs := by
        simp [lengthElements, contentLengthFields, hcl]
      have hfields : transferEncodingFields ((name, val) :: fs) = transferEncodingFields fs := by
        simp [transferEncodingFields, hte]
      have hsplit : ((trimOws val).splitOn 44).map trimOws = listElements val :=
        elements_trim (by decide) val
      rw [if_pos hcl, hels, hfields, Lengths.append_iff]
      show ((contentLengthList (trimOws val) cl ((trimOws val).splitOn 44)).bind fun cl =>
        framingScan cl te teValue fs) = .ok (cl', te', teValue') ↔ _
      rcases hlist : contentLengthList (trimOws val) cl ((trimOws val).splitOn 44) with e | c
      · refine iff_of_false (by intro h; cases h) ?_
        rintro ⟨⟨c, hc, -⟩, -⟩
        rw [← hsplit, ← @contentLengthList_iff (trimOws val), hlist] at hc
        cases hc
      · have hc := contentLengthList_iff.mp hlist
        rw [hsplit] at hc
        have honly : ∀ c', Lengths cl c' (listElements val) → c' = c := by
          intro c' hc'
          rw [← hsplit, ← @contentLengthList_iff (trimOws val), hlist] at hc'
          exact (Except.ok.inj hc').symm
        refine Iff.trans ih (and_congr_left fun _ => ?_)
        constructor
        · exact fun h => ⟨c, hc, h⟩
        · rintro ⟨c', hc', h⟩
          rwa [honly c' hc'] at h
    · have hels : lengthElements ((name, val) :: fs) = lengthElements fs := by
        simp [lengthElements, contentLengthFields, hcl]
      rw [if_neg hcl, hels]
      by_cases hte : eqIgnoreCase name (ascii "transfer-encoding") = true
      · have hfields : transferEncodingFields ((name, val) :: fs) =
            (name, val) :: transferEncodingFields fs := by
          simp [transferEncodingFields, hte]
        rw [if_pos hte, hfields, ih, List.length_cons, List.foldl_cons]
        simp only [Nat.add_assoc, Nat.add_comm 1]
      · have hfields : transferEncodingFields ((name, val) :: fs) = transferEncodingFields fs := by
          simp [transferEncodingFields, hte]
        rw [if_neg hte, hfields, ih]

/-! ## The coding -/

/-- Only `chunked` codings and empty elements are counted. -/
theorem countChunked_iff {k n : Nat} {raws : List Bytes} :
    countChunked k raws = .ok n ↔
      (∀ c ∈ (raws.map trimOws).filter (fun e => !e.isEmpty),
        eqIgnoreCase c (ascii "chunked") = true) ∧
      n = k + ((raws.map trimOws).filter fun e => !e.isEmpty).length := by
  induction raws generalizing k with
  | nil =>
    simp only [countChunked, List.map_nil, List.filter_nil, List.length_nil, Nat.add_zero]
    exact ⟨fun h => ⟨nofun, (Except.ok.inj h).symm⟩, fun h => congrArg _ h.2.symm⟩
  | cons raw raws ih =>
    rw [countChunked, List.map_cons]
    by_cases hempty : (trimOws raw).isEmpty = true
    · rw [if_pos hempty, List.filter_cons, if_neg (by simp [hempty]), ih]
    · have hkept : (trimOws raw :: raws.map trimOws).filter (fun e => !e.isEmpty) =
          trimOws raw :: (raws.map trimOws).filter fun e => !e.isEmpty := by
        rw [List.filter_cons, if_pos (by simpa using hempty)]
      rw [if_neg hempty, hkept]
      by_cases hchunked : eqIgnoreCase (trimOws raw) (ascii "chunked") = true
      · rw [if_neg (by simp [hchunked]), ih, List.length_cons, List.forall_mem_cons]
        simp only [hchunked, true_and, Nat.add_assoc, Nat.add_comm 1]
      · rw [if_pos (by simpa using hchunked)]
        refine iff_of_false nofun fun h => hchunked (h.1 _ (by simp))

/-- A value is accepted exactly if it names `chunked` alone. -/
theorem ensureSoleChunkedCoding_iff {value : Bytes} :
    ensureSoleChunkedCoding value = .ok () ↔ SoleChunked value := by
  have hels : (value.splitOn 44).map trimOws = listElements value := rfl
  have hcount : ∀ n, countChunked 0 (value.splitOn 44) = .ok n ↔
      (∀ c ∈ nonEmptyElements value, eqIgnoreCase c (ascii "chunked") = true) ∧
        n = (nonEmptyElements value).length := by
    intro n
    rw [countChunked_iff, hels, Nat.zero_add]
    rfl
  have hsole : SoleChunked value ↔ countChunked 0 (value.splitOn 44) = .ok 1 := by
    rw [hcount]
    constructor
    · rintro ⟨c, hc, hchunked⟩
      rw [hc]
      exact ⟨by simpa using hchunked, rfl⟩
    · rintro ⟨hall, hone⟩
      obtain ⟨c, hc⟩ := List.length_eq_one_iff.mp hone.symm
      exact ⟨c, hc, hall c (by simp [hc])⟩
  rw [hsole]
  show ((countChunked 0 (value.splitOn 44)).bind fun n =>
    if n != 1 then .error (.unsupportedTransferEncoding (trimOws value)) else .ok ()) = .ok () ↔ _
  rcases countChunked 0 (value.splitOn 44) with e | n
  · exact iff_of_false nofun nofun
  · by_cases hn : n = 1
    · subst hn
      exact iff_of_true rfl rfl
    · refine iff_of_false ?_ fun h => hn (Except.ok.inj h)
      show (if n != 1 then _ else _) ≠ _
      rw [if_pos (by simpa using hn)]
      exact nofun

/-! ## The verdict -/

section

variable {fs : List Field} {cl : Option Nat} (hcl : Lengths none cl (lengthElements fs))

include hcl

theorem framing_of_no_te (hte : transferEncodingFields fs = []) :
    Headers.framing ⟨fs⟩ = .ok (cl.elim .noFraming .length) := by
  have hscan : framingScan none 0 none fs = .ok (cl, 0, none) :=
    framingScan_iff.mpr ⟨hcl, by rw [hte]; rfl, by rw [hte]; rfl⟩
  unfold Headers.framing
  rw [hscan]
  cases cl <;> rfl

theorem framing_of_te {f : Field} (hte : transferEncodingFields fs = [f]) :
    Headers.framing ⟨fs⟩ = (ensureSoleChunkedCoding f.2).bind fun _ =>
      cl.elim (.ok .chunked) fun _ => .error .bothTeAndCl := by
  have hscan : framingScan none 0 none fs = .ok (cl, 1, some f.2) :=
    framingScan_iff.mpr ⟨hcl, by rw [hte]; rfl, by rw [hte]; rfl⟩
  unfold Headers.framing
  rw [hscan]
  cases hcoding : ensureSoleChunkedCoding f.2 with
  | error e => simp [bind, Except.bind, Except.map, hcoding]
  | ok u => cases cl <;> simp [bind, Except.bind, Except.map, hcoding]

theorem framing_of_tes {f g : Field} {rest : List Field}
    (hte : transferEncodingFields fs = f :: g :: rest) :
    Headers.framing ⟨fs⟩ = .error .multipleTransferEncodingHeaders := by
  have hscan : framingScan none 0 none fs = .ok (cl, _, _) := framingScan_iff.mpr ⟨hcl, rfl, rfl⟩
  rw [hte, List.length_cons, List.length_cons, Nat.zero_add] at hscan
  unfold Headers.framing
  rw [hscan]
  rfl

end

/-- The framing, by what the scan found. -/
theorem framing_ok_iff {fs : List Field} {r : ParsedFraming} :
    Headers.framing ⟨fs⟩ = .ok r ↔ ∃ cl, Lengths none cl (lengthElements fs) ∧
      ((transferEncodingFields fs = [] ∧
          r = match cl with | none => .noFraming | some n => .length n) ∨
        (cl = none ∧ r = .chunked ∧ ∃ f, transferEncodingFields fs = [f] ∧ SoleChunked f.2)) := by
  constructor
  · intro hok
    have hfound : ∃ cl, Lengths none cl (lengthElements fs) := by
      have hbind : (framingScan none 0 none fs).bind _ = .ok r := hok
      rcases hscan : framingScan none 0 none fs with e | ⟨cl, te, teValue⟩
      · rw [hscan] at hbind
        cases hbind
      · exact ⟨cl, (framingScan_iff.mp hscan).1⟩
    obtain ⟨cl, hcl⟩ := hfound
    refine ⟨cl, hcl, ?_⟩
    -- none, one or more fields that name transfer codings
    rcases hte : transferEncodingFields fs with _ | ⟨f, _ | ⟨g, rest⟩⟩
    · rw [framing_of_no_te hcl hte] at hok
      cases hok
      exact .inl ⟨rfl, by cases cl <;> rfl⟩
    · rw [framing_of_te hcl hte] at hok
      cases hcoding : ensureSoleChunkedCoding f.2 with
      | error e =>
        rw [hcoding] at hok
        cases hok
      | ok u =>
        rw [hcoding] at hok
        cases cl with
        | none =>
          cases hok
          exact .inr ⟨rfl, rfl, f, rfl, ensureSoleChunkedCoding_iff.mp hcoding⟩
        | some n => cases hok
    · rw [framing_of_tes hcl hte] at hok
      cases hok
  · rintro ⟨cl, hcl, ⟨hte, rfl⟩ | ⟨rfl, rfl, f, hte, hsole⟩⟩
    · rw [framing_of_no_te hcl hte]
      cases cl <;> rfl
    · rw [framing_of_te hcl hte, ensureSoleChunkedCoding_iff.mpr hsole]
      rfl

theorem lengthElements_eq_nil {fs : List Field} :
    lengthElements fs = [] ↔ contentLengthFields fs = [] := by
  rw [lengthElements, List.flatMap_eq_nil_iff]
  constructor
  · intro h
    cases hcl : contentLengthFields fs with
    | nil => rfl
    | cons f rest =>
      rw [hcl] at h
      exact absurd (h f (by simp)) (by simp [listElements, elements])
  · intro h
    simp [h]

/-- `framing` is the rule. -/
theorem framing_iff_rule {fs : List Field} {r : ParsedFraming} :
    Headers.framing ⟨fs⟩ = .ok r ↔ FramingRule fs r := by
  rw [framing_ok_iff]
  constructor
  · rintro ⟨cl, hcl, ⟨hte, rfl⟩ | ⟨rfl, rfl, hchunked⟩⟩
    -- no value was found if and only if there are no elements
    · rcases hcl with ⟨hnil, rfl⟩ | ⟨n, rfl, hn, -, hne, hall⟩
      · exact ⟨lengthElements_eq_nil.mp hnil, hte⟩
      · refine ⟨hte, fun h => hne (lengthElements_eq_nil.mpr h), hn, ?_⟩
        exact fun f hf e he => hall e (List.mem_flatMap.mpr ⟨f, hf, he⟩)
    · rcases hcl with ⟨hnil, -⟩ | ⟨n, hn, -⟩
      · exact ⟨lengthElements_eq_nil.mp hnil, hchunked⟩
      · cases hn
  · intro hrule
    cases r with
    | length n =>
      obtain ⟨hte, hne, hn, hall⟩ := hrule
      refine ⟨some n, .inr ⟨n, rfl, hn, .inl rfl, ?_, ?_⟩, .inl ⟨hte, rfl⟩⟩
      · exact fun h => hne (lengthElements_eq_nil.mp h)
      · intro e he
        obtain ⟨f, hf, he⟩ := List.mem_flatMap.mp he
        exact hall f hf e he
    | chunked =>
      obtain ⟨hcl, hchunked⟩ := hrule
      exact ⟨none, .inl ⟨lengthElements_eq_nil.mpr hcl, rfl⟩, .inr ⟨rfl, rfl, hchunked⟩⟩
    | noFraming =>
      obtain ⟨hcl, hte⟩ := hrule
      exact ⟨none, .inl ⟨lengthElements_eq_nil.mpr hcl, rfl⟩, .inl ⟨hte, rfl⟩⟩

/-! ## Order and other fields -/

/-- A length that is read is a `u64`. -/
theorem length_of_framing {headers : Headers} {n : Nat}
    (hframing : headers.framing = .ok (.length n)) : n < 2 ^ 64 := by
  obtain ⟨-, -, hlt, -⟩ := framing_iff_rule.mp hframing
  exact hlt

/-- The fields of a framing name are all among the framing headers. -/
theorem filter_framingHeaders {name : Bytes} (hname : isFramingHeader name = true)
    (fs : List Field) :
    (fs.filter fun f => isFramingHeader f.1).filter (fun f => eqIgnoreCase f.1 name) =
      fs.filter fun f => eqIgnoreCase f.1 name := by
  rw [List.filter_filter]
  refine List.filter_congr fun f _ => ?_
  cases heq : eqIgnoreCase f.1 name with
  | false => rfl
  | true =>
    have hframing : isFramingHeader f.1 = true := by
      obtain ⟨x, hx, hxn⟩ := List.any_eq_true.mp hname
      refine List.any_eq_true.mpr ⟨x, hx, ?_⟩
      rw [eqIgnoreCase_symm] at heq
      exact eqIgnoreCase_trans hxn heq
    rw [hframing]
    rfl

/-- The rule is about the framing headers, in whatever order. -/
theorem FramingRule.of_perm {fs fs' : List Field}
    (h : List.Perm (fs.filter fun f => isFramingHeader f.1)
      (fs'.filter fun f => isFramingHeader f.1)) {r : ParsedFraming} (hrule : FramingRule fs r) :
    FramingRule fs' r := by
  have hcl : List.Perm (contentLengthFields fs) (contentLengthFields fs') := by
    have hperm := h.filter fun f => eqIgnoreCase f.1 (ascii "content-length")
    have hname : isFramingHeader (ascii "content-length") = true := by decide +kernel
    rwa [filter_framingHeaders hname, filter_framingHeaders hname] at hperm
  have hte : List.Perm (transferEncodingFields fs) (transferEncodingFields fs') := by
    have hperm := h.filter fun f => eqIgnoreCase f.1 (ascii "transfer-encoding")
    have hname : isFramingHeader (ascii "transfer-encoding") = true := by decide +kernel
    rwa [filter_framingHeaders hname, filter_framingHeaders hname] at hperm
  cases r with
  | length n =>
    obtain ⟨hnil, hne, hn, hall⟩ := hrule
    rw [hnil] at hte
    refine ⟨List.nil_perm.mp hte, fun hnil' => ?_, hn, fun f hf => hall f (hcl.mem_iff.mpr hf)⟩
    rw [hnil'] at hcl
    exact hne (List.perm_nil.mp hcl)
  | chunked =>
    obtain ⟨hnil, f, hf, hsole⟩ := hrule
    rw [hnil] at hcl
    rw [hf] at hte
    exact ⟨List.nil_perm.mp hcl, f, (List.singleton_perm.mp hte).symm, hsole⟩
  | noFraming =>
    obtain ⟨hnil, hnil'⟩ := hrule
    rw [hnil] at hcl
    rw [hnil'] at hte
    exact ⟨List.nil_perm.mp hcl, List.nil_perm.mp hte⟩

/-- What `framing` answers for this header list: the framing of the rule, and an error if
    the rule has none; and the same for every list with the same framing headers in any
    order and any other fields. -/
structure FramedByRule (fs : List Field) : Prop where
  ok : ∀ r, Headers.framing ⟨fs⟩ = .ok r ↔ FramingRule fs r
  error : (∃ e, Headers.framing ⟨fs⟩ = .error e) ↔ ∀ r, ¬ FramingRule fs r
  order : ∀ fs', List.Perm (fs.filter fun f => isFramingHeader f.1)
    (fs'.filter fun f => isFramingHeader f.1) →
      ∀ r, Headers.framing ⟨fs'⟩ = .ok r ↔ Headers.framing ⟨fs⟩ = .ok r

theorem framedByRule (fs : List Field) : FramedByRule fs where
  ok _ := framing_iff_rule
  error := by
    rcases hframing : Headers.framing ⟨fs⟩ with e | r
    · refine iff_of_true ⟨e, rfl⟩ fun r hrule => ?_
      rw [← framing_iff_rule, hframing] at hrule
      cases hrule
    · exact iff_of_false nofun fun h => h r (framing_iff_rule.mp hframing)
  order fs' hperm r := by
    rw [framing_iff_rule, framing_iff_rule]
    exact ⟨fun hrule => hrule.of_perm hperm.symm, fun hrule => hrule.of_perm hperm⟩

/-- A repeated length agrees with itself, whatever stands between. -/
example : Headers.framing ⟨[(ascii "Content-Length", ascii "5 ,05"), (ascii "a", ascii "b"),
    (ascii "content-length", ascii "5")]⟩ = .ok (.length 5) := by
  rfl

end Jrpxy.HttpMessage
