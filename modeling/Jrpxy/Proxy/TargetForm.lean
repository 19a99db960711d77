/-
  Jrpxy.Proxy.TargetForm

  The absolute-form of a request-target.

  A target is cut at the first byte that is not of its scheme, at the first
  that ends its authority and at the first `#`.  No slice of these is out of
  bounds, and they find the one way in which the target is a scheme, an
  authority, a path and query, and a fragment (`parseAbsoluteForm_decomposes`).
-/
import Jrpxy.Lib.Scan
import Jrpxy.Proxy.RequestTarget

namespace Jrpxy.Proxy

open Ascii Util HttpMessage Scan

/-! ## Cutting a target -/

/-- The origin-form of the path and query that stands at `start` in the target. -/
def originFormAt (target : Bytes) (start : Nat) (pathQuery : Bytes) : Option Bytes :=
  match pathQuery with
  | [] => some (ascii "/")
  | b :: _ =>
    if b == 63 then some (ascii "/" ++ pathQuery)
    -- `slice_ref`
    else slice? target start (start + pathQuery.length)

/-- What stands at `start`, behind the separator of the scheme. -/
def authorityAndPathAt (target : Bytes) (start : Nat) : Option RequestTargetForm := do
  let afterScheme ← slice? target start target.length
  let authorityEnd := stop (fun b => !isAuthorityEnd b) afterScheme
  let authority ← slice? afterScheme 0 authorityEnd
  if authority.isEmpty then some .malformed
  else if authority.contains 64 then some .malformed
  else
    let pathQuery ← slice? afterScheme authorityEnd afterScheme.length
    let fragmentStart := stop (· != 35) pathQuery
    let pathQuery ← slice? pathQuery 0 fragmentStart
    let pathAndQuery ← originFormAt target (start + authorityEnd) pathQuery
    let authority ← slice? target start (start + authority.length)
    some (.absolute authority pathAndQuery)

/-- `parse_absolute_form` with its slices; `none` when one of them is out of bounds. -/
def parseAbsoluteFormAt (target : Bytes) : Option RequestTargetForm :=
  match target with
  | [] => some .empty
  | first :: _ =>
    if !isAlphabetic first then some .malformed
    else
      let schemeEnd := stop isSchemeByte target
      if target.length < schemeEnd + 3 then some .maybeAuthority
      else do
        let separator ← slice? target schemeEnd (schemeEnd + 3)
        if separator != ascii "://" then some .maybeAuthority
        else authorityAndPathAt target (schemeEnd + 3)

/-- A part of the target is found where it stands. -/
theorem slice?_part {target before part behind : Bytes} (h : target = before ++ (part ++ behind)) :
    slice? target before.length (before.length + part.length) = some part := by
  have hle : before.length + part.length ≤ target.length := by
    rw [h, List.length_append, List.length_append]
    omega
  rw [slice?_shift hle, h, List.drop_left, List.take_left]

theorem originFormAt_eq {target before pathQuery behind : Bytes}
    (h : target = before ++ (pathQuery ++ behind)) :
    originFormAt target before.length pathQuery = some (originFormOf pathQuery) := by
  unfold originFormAt originFormOf
  cases pathQuery with
  | nil => rfl
  | cons b rest =>
    dsimp only
    by_cases hquery : (b == 63) = true
    · rw [if_pos hquery, if_pos hquery]
    · rw [if_neg hquery, if_neg hquery]
      exact slice?_part h

theorem authorityAndPathAt_eq (before afterScheme : Bytes) :
    let authority := afterScheme.takeWhile fun b => !isAuthorityEnd b
    authorityAndPathAt (before ++ afterScheme) before.length =
      some (if authority.isEmpty then .malformed
        else if authority.contains 64 then .malformed
        else .absolute authority (originFormOf
          ((afterScheme.dropWhile fun b => !isAuthorityEnd b).takeWhile (· != 35)))) := by
  intro authority
  have hlen : before.length ≤ (before ++ afterScheme).length := by
    rw [List.length_append]
    omega
  have hcut := cut_of_stop (fun b => !isAuthorityEnd b) afterScheme
  have hauthority : stop (fun b => !isAuthorityEnd b) afterScheme = authority.length := by
    show _ = (afterScheme.takeWhile fun b => !isAuthorityEnd b).length
    rw [← take_stop, List.length_take_of_le (stop_le _ _)]
  unfold authorityAndPathAt
  simp only [slice?_to_end hlen, List.drop_left, slice?_before, slice?_behind, bind, Option.bind]
  split
  · rfl
  · split
    · rfl
    -- both parts are where they were cut off
    · have hpath := (cut_of_stop (· != 35) (afterScheme.dropWhile fun b => !isAuthorityEnd b)).eq
      have htarget : before ++ afterScheme = (before ++ authority) ++
          ((afterScheme.dropWhile fun b => !isAuthorityEnd b).takeWhile (· != 35) ++
            (afterScheme.dropWhile fun b => !isAuthorityEnd b).dropWhile (· != 35)) := by
        rw [← hpath, List.append_assoc, ← hcut.eq]
      have horigin := originFormAt_eq htarget
      rw [List.length_append, ← hauthority] at horigin
      have hpart : before ++ afterScheme = before ++ (authority ++
          afterScheme.dropWhile fun b => !isAuthorityEnd b) := by
        rw [← hcut.eq]
      have hslice : slice? (before ++ afterScheme) before.length (before.length +
          (afterScheme.takeWhile fun b => !isAuthorityEnd b).length) = some authority :=
        slice?_part hpart
      simp only [horigin, hslice]

/-- Every slice is within bounds, and stands where a scan stopped. -/
theorem parseAbsoluteFormAt_eq (target : Bytes) :
    parseAbsoluteFormAt target = some (parseAbsoluteForm target) := by
  unfold parseAbsoluteFormAt parseAbsoluteForm
  cases target with
  | nil => rfl
  | cons first rest =>
    dsimp only
    by_cases halpha : (!isAlphabetic first) = true
    · rw [if_pos halpha, if_pos halpha]
    · rw [if_neg halpha, if_neg halpha]
      generalize htarget : first :: rest = target
      have hrest := drop_stop isSchemeByte target
      by_cases hshort : target.length < stop isSchemeByte target + 3
      -- fewer than three bytes are no separator
      · rw [if_pos hshort]
        have hne : (target.dropWhile isSchemeByte).take 3 ≠ ascii "://" := by
          intro heq
          have hlen := congrArg List.length heq
          rw [← hrest, List.length_take, List.length_drop] at hlen
          have hthree : (ascii "://").length = 3 := rfl
          omega
        rw [if_pos (by simpa using hne)]
      · rw [if_neg hshort]
        have hin : stop isSchemeByte target + 3 ≤ target.length := Nat.le_of_not_lt hshort
        rw [slice?_shift hin, hrest]
        by_cases hsep : ((target.dropWhile isSchemeByte).take 3 != ascii "://") = true
        · rw [if_pos hsep]
          exact if_pos hsep
        · rw [if_neg hsep]
          have hafter : (target.dropWhile isSchemeByte).drop 3 =
              target.drop (stop isSchemeByte target + 3) := by
            rw [← hrest, List.drop_drop]
          have hparts := authorityAndPathAt_eq (target.take (stop isSchemeByte target + 3))
            (target.drop (stop isSchemeByte target + 3))
          rw [List.take_append_drop, List.length_take_of_le hin] at hparts
          rw [hafter]
          exact (if_neg hsep).trans hparts

/-! ## The parts of a target -/

/-- `target` is a scheme, `://`, an authority, a path and query, and a fragment. -/
structure AbsoluteForm (target scheme authority pathQuery fragment : Bytes) : Prop where
  eq : target = scheme ++ (ascii "://" ++ (authority ++ (pathQuery ++ fragment)))
  scheme : ∃ first rest, scheme = first :: rest ∧ isAlphabetic first = true ∧
    ∀ b ∈ rest, isSchemeByte b = true
  authority : authority ≠ [] ∧ ∀ b ∈ authority, b ∉ ascii "/?#@"
  pathQuery : (∀ b ∈ pathQuery.head?, b ∈ ascii "/?") ∧ ∀ b ∈ pathQuery, b ∉ ascii "#"
  fragment : ∀ b ∈ fragment.head?, b ∈ ascii "#"

/-- The origin-form of a path and query. -/
structure ForwardedAs (pathQuery pathAndQuery : Bytes) : Prop where
  empty : pathQuery = [] → pathAndQuery = ascii "/"
  query : pathQuery.head? = some 63 → pathAndQuery = ascii "/" ++ pathQuery
  path : pathQuery.head? = some 47 → pathAndQuery = pathQuery

/-- What stands behind the scheme and three more bytes. -/
def afterScheme (target : Bytes) : Bytes := (target.dropWhile isSchemeByte).drop 3

def authorityIn (target : Bytes) : Bytes := (afterScheme target).takeWhile fun b => !isAuthorityEnd b

/-- What stands behind the authority. -/
def afterAuthority (target : Bytes) : Bytes :=
  (afterScheme target).dropWhile fun b => !isAuthorityEnd b

def pathQueryIn (target : Bytes) : Bytes := (afterAuthority target).takeWhile (· != 35)

def fragmentIn (target : Bytes) : Bytes := (afterAuthority target).dropWhile (· != 35)

theorem isSchemeByte_of_isAlphabetic {b : UInt8} (h : isAlphabetic b = true) :
    isSchemeByte b = true := by
  simp [isSchemeByte, isAlphanumeric, h]

theorem isAuthorityEnd_iff {b : UInt8} : isAuthorityEnd b = true ↔ b ∈ ascii "/?#" :=
  forall_byte (p := fun b => isAuthorityEnd b = true ↔ b ∈ ascii "/?#") (by decide +kernel) b

theorem mem_ascii_hash {b : UInt8} : b ∈ ascii "#" ↔ b = 35 := by
  simp [ascii]

namespace AbsoluteForm

variable {target scheme authority pathQuery fragment : Bytes}

/-- The scheme ends at the colon, which is no byte of a scheme. -/
theorem cut_scheme (h : AbsoluteForm target scheme authority pathQuery fragment) :
    Cut isSchemeByte target scheme (ascii "://" ++ (authority ++ (pathQuery ++ fragment))) := by
  obtain ⟨first, rest, rfl, hfirst, hrest⟩ := h.scheme
  refine ⟨h.eq, ?_, ?_⟩
  · intro b hb
    rcases List.mem_cons.mp hb with rfl | hb
    · exact isSchemeByte_of_isAlphabetic hfirst
    · exact hrest b hb
  · intro b hb
    cases hb
    decide

/-- The authority ends where a path, a query or a fragment begins. -/
theorem cut_authority (h : AbsoluteForm target scheme authority pathQuery fragment) :
    Cut (fun b => !isAuthorityEnd b) (authority ++ (pathQuery ++ fragment)) authority
      (pathQuery ++ fragment) := by
  refine ⟨rfl, ?_, ?_⟩
  · intro b hb
    have hnot := h.authority.2 b hb
    rw [Bool.not_eq_true', ← Bool.not_eq_true, isAuthorityEnd_iff]
    have hsub : ascii "/?#" ⊆ ascii "/?#@" := by decide
    exact fun hend => hnot (hsub hend)
  · intro b hb
    rw [Bool.not_eq_false', isAuthorityEnd_iff]
    cases pathQuery with
    -- without path and query the fragment stands behind it
    | nil =>
      have hb := h.fragment b hb
      have hsub : ascii "#" ⊆ ascii "/?#" := by decide
      exact hsub hb
    | cons c rest =>
      have hb := h.pathQuery.1 b hb
      have hsub : ascii "/?" ⊆ ascii "/?#" := by decide
      exact hsub hb

theorem cut_pathQuery (h : AbsoluteForm target scheme authority pathQuery fragment) :
    Cut (· != 35) (pathQuery ++ fragment) pathQuery fragment := by
  refine ⟨rfl, ?_, ?_⟩
  · intro b hb
    have hnot := h.pathQuery.2 b hb
    rw [mem_ascii_hash] at hnot
    simpa using hnot
  · intro b hb
    have hb := mem_ascii_hash.mp (h.fragment b hb)
    simpa using hb

end AbsoluteForm

/-- The parts of a target are where the scans stop. -/
theorem AbsoluteForm.parts {target scheme authority pathQuery fragment : Bytes}
    (h : AbsoluteForm target scheme authority pathQuery fragment) :
    scheme = target.takeWhile isSchemeByte ∧ authority = authorityIn target ∧
      pathQuery = pathQueryIn target ∧ fragment = fragmentIn target ∧
      (target.dropWhile isSchemeByte).take 3 = ascii "://" := by
  obtain ⟨heq, hbehind⟩ := h.cut_scheme.unique
  have hafter : afterScheme target = authority ++ (pathQuery ++ fragment) := by
    rw [afterScheme, ← hbehind]
    rfl
  -- each scan goes on where the one before stopped
  obtain ⟨hauthority, hrest⟩ := h.cut_authority.unique
  rw [← hafter] at hauthority hrest
  have hrest : pathQuery ++ fragment = afterAuthority target := hrest
  obtain ⟨hpath, hfragment⟩ := h.cut_pathQuery.unique
  rw [hrest] at hpath hfragment
  refine ⟨heq, hauthority, hpath, hfragment, ?_⟩
  rw [← hbehind]
  rfl

/-- What the parser asks of a target in absolute-form. -/
structure LooksAbsolute (target : Bytes) : Prop where
  first : ∃ first rest, target = first :: rest ∧ isAlphabetic first = true
  separator : (target.dropWhile isSchemeByte).take 3 = ascii "://"
  authority : authorityIn target ≠ []
  noUserinfo : 64 ∉ authorityIn target

/-- A target that looks like it is in absolute-form. -/
theorem LooksAbsolute.absoluteForm {target : Bytes} (h : LooksAbsolute target) :
    AbsoluteForm target (target.takeWhile isSchemeByte) (authorityIn target) (pathQueryIn target)
      (fragmentIn target) := by
  have hscheme := cut_of_stop isSchemeByte target
  have hauthority := cut_of_stop (fun b => !isAuthorityEnd b) (afterScheme target)
  have hpath := cut_of_stop (· != 35) (afterAuthority target)
  constructor
  · have hsep : target.dropWhile isSchemeByte = ascii "://" ++ afterScheme target := by
      rw [← h.separator, afterScheme, List.take_append_drop]
    have hafter : afterScheme target = authorityIn target ++ afterAuthority target := hauthority.eq
    have hbehind : afterAuthority target = pathQueryIn target ++ fragmentIn target := hpath.eq
    rw [← hbehind, ← hafter, ← hsep]
    exact hscheme.eq
  · obtain ⟨first, rest, rfl, hfirst⟩ := h.first
    rw [List.takeWhile_cons_of_pos (isSchemeByte_of_isAlphabetic hfirst)]
    exact ⟨first, _, rfl, hfirst, List.all_eq_true.mp List.all_takeWhile⟩
  · refine ⟨h.authority, ?_⟩
    intro b hb hmem
    have hnot := hauthority.holds b hb
    rw [Bool.not_eq_true', ← Bool.not_eq_true, isAuthorityEnd_iff] at hnot
    have hsub : ascii "/?#@" ⊆ 64 :: ascii "/?#" := by decide
    rcases List.mem_cons.mp (hsub hmem) with rfl | hend
    · exact h.noUserinfo hb
    · exact hnot hend
  · constructor
    -- the first byte behind the authority ends it, and is no `#` if it is kept
    · intro b hb
      have hend := hauthority.stops
      rw [pathQueryIn] at hb
      rw [← afterAuthority] at hend
      cases hrest : afterAuthority target with
      | nil =>
        rw [hrest] at hb
        cases hb
      | cons c rest =>
        rw [hrest] at hb hend
        have hc := hend c rfl
        rw [Bool.not_eq_false', isAuthorityEnd_iff] at hc
        by_cases hhash : (c != 35) = true
        · rw [List.takeWhile_cons, if_pos hhash] at hb
          cases hb
          have hsub : ascii "/?#" ⊆ 35 :: ascii "/?" := by decide
          exact (List.mem_cons.mp (hsub hc)).resolve_left (by simpa using hhash)
        · rw [List.takeWhile_cons, if_neg hhash] at hb
          cases hb
    · intro b hb hhash
      have hne := hpath.holds b hb
      rw [mem_ascii_hash.mp hhash] at hne
      cases hne
  · intro b hb
    have heq := hpath.stops b hb
    rw [mem_ascii_hash]
    simpa using heq

/-- What looks like absolute-form is parsed into its parts. -/
theorem parseAbsoluteForm_absolute_iff {target authority pathAndQuery : Bytes} :
    parseAbsoluteForm target = .absolute authority pathAndQuery ↔
      LooksAbsolute target ∧ authority = authorityIn target ∧
        pathAndQuery = originFormOf (pathQueryIn target) := by
  unfold parseAbsoluteForm
  cases target with
  | nil =>
    refine ⟨fun h => (by cases h), fun h => ?_⟩
    obtain ⟨first, rest, heq, -⟩ := h.1.first
    cases heq
  | cons first rest =>
    dsimp only
    generalize htarget : first :: rest = target
    by_cases halpha : (!isAlphabetic first) = true
    · rw [if_pos halpha]
      refine ⟨fun h => (by cases h), fun h => ?_⟩
      obtain ⟨first', rest', heq, hfirst⟩ := h.1.first
      rw [← htarget] at heq
      cases heq
      rw [hfirst] at halpha
      cases halpha
    rw [if_neg halpha]
    -- the checks of the source, in its order
    by_cases hsep : ((target.dropWhile isSchemeByte).take 3 != ascii "://") = true
    · rw [if_pos hsep]
      refine ⟨fun h => (by cases h), fun h => ?_⟩
      simp [h.1.separator] at hsep
    rw [if_neg hsep]
    by_cases hempty : (authorityIn target).isEmpty = true
    · refine ⟨fun h => ?_, fun h => absurd (List.isEmpty_iff.mp hempty) h.1.authority⟩
      have h := (if_pos hempty).symm.trans h
      cases h
    by_cases huser : (authorityIn target).contains 64 = true
    · refine ⟨fun h => ?_, fun h => ?_⟩
      · have h := ((if_neg hempty).trans (if_pos huser)).symm.trans h
        cases h
      · exact absurd (List.contains_iff_mem.mp huser) h.1.noUserinfo
    have hparsed : (if (authorityIn target).isEmpty = true then RequestTargetForm.malformed
        else if (authorityIn target).contains 64 = true then .malformed
        else .absolute (authorityIn target) (originFormOf (pathQueryIn target))) =
        .absolute (authorityIn target) (originFormOf (pathQueryIn target)) := by
      rw [if_neg hempty, if_neg huser]
    have hlooks : LooksAbsolute target := by
      refine ⟨⟨first, rest, htarget.symm, by simpa using halpha⟩, by simpa using hsep, ?_, ?_⟩
      · exact fun hnil => hempty (List.isEmpty_iff.mpr hnil)
      · exact fun hmem => huser (List.contains_iff_mem.mpr hmem)
    constructor
    · intro h
      have h := hparsed.symm.trans h
      injection h with hauthority hpath
      exact ⟨hlooks, hauthority.symm, hpath.symm⟩
    · rintro ⟨-, rfl, rfl⟩
      exact hparsed

/-- A path and query begins with `/` or `?`, if it is not empty. -/
theorem forwardedAs_iff {pathQuery pathAndQuery : Bytes}
    (h : ∀ b ∈ pathQuery.head?, b ∈ ascii "/?") :
    ForwardedAs pathQuery pathAndQuery ↔ pathAndQuery = originFormOf pathQuery := by
  cases pathQuery with
  | nil =>
    constructor
    · exact fun hforwarded => hforwarded.empty rfl
    · rintro rfl
      exact ⟨fun _ => rfl, by simp, by simp⟩
  | cons b rest =>
    have hb : b = 47 ∨ b = 63 := by
      have hmem := h b rfl
      simpa [ascii] using hmem
    rcases hb with rfl | rfl
    · constructor
      · exact fun hforwarded => hforwarded.path rfl
      · rintro rfl
        exact ⟨by simp, by simp, fun _ => rfl⟩
    · constructor
      · exact fun hforwarded => hforwarded.query rfl
      · rintro rfl
        exact ⟨by simp, fun _ => rfl, by simp⟩

/-- An origin-form begins with a slash, and has no fragment if the path and query has none. -/
theorem originFormOf_shape {pathQuery : Bytes} (hhead : ∀ b ∈ pathQuery.head?, b ∈ ascii "/?")
    (hnone : ∀ b ∈ pathQuery, b ∉ ascii "#") :
    (originFormOf pathQuery).head? = some 47 ∧ ∀ b ∈ originFormOf pathQuery, b ∉ ascii "#" := by
  constructor
  · cases pathQuery with
    | nil => rfl
    | cons b rest =>
      have hb : b = 47 ∨ b = 63 := by
        have hmem := hhead b rfl
        simpa [ascii] using hmem
      rcases hb with rfl | rfl
      · rfl
      · rfl
  · intro b hb
    rcases mem_originFormOf.2 b hb with rfl | hb
    · decide
    · exact hnone b hb

/-- A target is decomposed exactly: no slice is out of bounds; it is found to be in
    absolute-form if and only if it is, in the one way there is. -/
structure DecomposedExactly (target : Bytes) : Prop where
  inBounds : (parseAbsoluteFormAt target).isSome = true
  absolute_iff : ∀ authority pathAndQuery,
    parseAbsoluteFormAt target = some (.absolute authority pathAndQuery) ↔
      ∃ scheme pathQuery fragment, AbsoluteForm target scheme authority pathQuery fragment ∧
        ForwardedAs pathQuery pathAndQuery
  unique : ∀ {scheme authority pathQuery fragment scheme' authority' pathQuery' fragment'},
    AbsoluteForm target scheme authority pathQuery fragment →
    AbsoluteForm target scheme' authority' pathQuery' fragment' →
    scheme = scheme' ∧ authority = authority' ∧ pathQuery = pathQuery' ∧ fragment = fragment'
  shape : ∀ authority pathAndQuery,
    parseAbsoluteFormAt target = some (.absolute authority pathAndQuery) →
      pathAndQuery.head? = some 47 ∧ ∀ b ∈ pathAndQuery, b ∉ ascii "#"

/-- What is in absolute-form looks so. -/
theorem AbsoluteForm.looksAbsolute {target scheme authority pathQuery fragment : Bytes}
    (h : AbsoluteForm target scheme authority pathQuery fragment) : LooksAbsolute target := by
  obtain ⟨-, rfl, -, -, hsep⟩ := h.parts
  refine ⟨?_, hsep, h.authority.1, fun hat => h.authority.2 64 hat (by decide)⟩
  obtain ⟨first, rest, rfl, hfirst, -⟩ := h.scheme
  exact ⟨first, _, h.eq, hfirst⟩

/-- Every byte string is decomposed exactly. -/
theorem parseAbsoluteForm_decomposes (target : Bytes) : DecomposedExactly target := by
  have hparse := parseAbsoluteFormAt_eq target
  constructor
  · rw [hparse]
    rfl
  · intro authority pathAndQuery
    rw [hparse, Option.some.injEq, parseAbsoluteForm_absolute_iff]
    constructor
    · rintro ⟨hlooks, rfl, rfl⟩
      have hform := hlooks.absoluteForm
      exact ⟨_, _, _, hform, (forwardedAs_iff hform.pathQuery.1).mpr rfl⟩
    · rintro ⟨scheme, pathQuery, fragment, hform, hforwarded⟩
      obtain ⟨-, hauthority, hpath, -, -⟩ := hform.parts
      refine ⟨hform.looksAbsolute, hauthority, ?_⟩
      rw [(forwardedAs_iff hform.pathQuery.1).mp hforwarded, hpath]
  · intro scheme authority pathQuery fragment scheme' authority' pathQuery' fragment' hform hform'
    obtain ⟨rfl, rfl, rfl, rfl, -⟩ := hform.parts
    obtain ⟨rfl, rfl, rfl, rfl, -⟩ := hform'.parts
    exact ⟨rfl, rfl, rfl, rfl⟩
  · intro authority pathAndQuery hparsed
    rw [hparse, Option.some.injEq, parseAbsoluteForm_absolute_iff] at hparsed
    obtain ⟨hlooks, -, rfl⟩ := hparsed
    have hform := hlooks.absoluteForm
    exact originFormOf_shape hform.pathQuery.1 hform.pathQuery.2

/-- A query directly behind the authority, with delimiters in the parts behind it. -/
example : parseAbsoluteFormAt (ascii "h+2://a:8?b/c?://@d#e#f") =
    some (.absolute (ascii "a:8") (ascii "/?b/c?://@d")) := by
  decide +kernel

end Jrpxy.Proxy
