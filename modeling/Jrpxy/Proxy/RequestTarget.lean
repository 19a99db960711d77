/-
  Jrpxy.Proxy.RequestTarget

  Classifying a request-target, and rewriting it for the backend.

  A target in absolute-form names the authority and the path; `normalize`
  leaves the path as the target and makes the authority the only `Host`.
-/
import Jrpxy.HttpMessage.Message
import Jrpxy.Proxy.Error

namespace Jrpxy.Proxy

open Ascii Utf8 Util HttpMessage

/-- The forms of a request-target, and what is in none of them. -/
inductive RequestTargetForm where
  | origin
  | asterisk
  | absolute (authority pathAndQuery : Bytes)
  -- a letter in front and no `://` behind the scheme; no more is checked
  | maybeAuthority
  | empty
  | malformed
  deriving DecidableEq, Repr

/-- A byte of a scheme, behind the first. -/
def isSchemeByte (b : UInt8) : Bool := isAlphanumeric b || b == 43 || b == 45 || b == 46

/-- `/`, `?` or `#`: the authority ends here. -/
def isAuthorityEnd (b : UInt8) : Bool := b == 47 || b == 63 || b == 35

/-- The origin-form of a path and query; an absent path is `/`. -/
def originFormOf (pathQuery : Bytes) : Bytes :=
  match pathQuery with
  | [] => ascii "/"
  | b :: _ => if b == 63 then ascii "/" ++ pathQuery else pathQuery

/-- Parse `scheme "://" authority path-abempty [ "?" query ]`. -/
def parseAbsoluteForm (target : Bytes) : RequestTargetForm :=
  match target with
  | [] => .empty
  | first :: _ =>
    if !isAlphabetic first then .malformed
    else
      let rest := target.dropWhile isSchemeByte
      if rest.take 3 != ascii "://" then .maybeAuthority
      else
        let afterScheme := rest.drop 3
        let authority := afterScheme.takeWhile fun b => !isAuthorityEnd b
        if authority.isEmpty then .malformed
        -- userinfo is not forwarded, and neither is a fragment
        else if authority.contains 64 then .malformed
        else
          let pathQuery := (afterScheme.dropWhile fun b => !isAuthorityEnd b).takeWhile (· != 35)
          .absolute authority (originFormOf pathQuery)

/-- Classify a request-target by its first byte and overall shape. -/
def classify (target : Bytes) : RequestTargetForm :=
  if target == ascii "*" then .asterisk
  else
    match target with
    | [] => .empty
    | first :: _ =>
      if first == 47 then .origin
      else if isAlphabetic first then parseAbsoluteForm target
      else .malformed

/-- The name is `host`. -/
def isHost (name : Bytes) : Bool := eqIgnoreCase name (ascii "host")

/-- Validate the request-target and rewrite the request into a forward-safe form. -/
def normalize (req : Request) : Except ProxyFrontendError Request :=
  match classify req.path with
  | .origin => .ok req
  | .asterisk =>
    if req.method == ascii "OPTIONS" then .ok req else .error .asteriskFormNotAllowed
  | .absolute authority pathAndQuery => do
    let req ← (req.setOriginFormPath pathAndQuery).mapError fun _ => .malformedRequestTarget
    let (_, req) := req.removeHeaders fun f => isHost f.1
    return { req with headers := req.headers.pushRaw (ascii "host") authority }
  | .maybeAuthority => .error .authorityFormNotAllowed
  | .empty | .malformed => .error .malformedRequestTarget

/-! ## What normalizing does -/

/-- The authority of a target in absolute-form. -/
def authorityOf (target : Bytes) : Option Bytes :=
  match classify target with
  | .absolute authority _ => some authority
  | _ => none

/-- The fields with their `Host` replaced. -/
def replaceHost (fs : List Field) (authority : Bytes) : List Field :=
  (fs.filter fun f => !isHost f.1) ++ [(ascii "host", authority)]

/-- What `normalize` makes of a request-target. -/
def normalizedPath (target : Bytes) : Bytes :=
  match classify target with
  | .absolute _ pathAndQuery => pathAndQuery
  | _ => target

/-- What `normalize` makes of the fields of a request. -/
def normalizedFields (target : Bytes) (fs : List Field) : List Field :=
  match authorityOf target with
  | some authority => replaceHost fs authority
  | none => fs

/-- The forms of the requests that are normalized. -/
theorem normalize_cases {req req' : Request} (h : normalize req = .ok req') :
    req' = req ∧ classify req.path = .origin ∨
    req' = req ∧ classify req.path = .asterisk ∧ req.method = ascii "OPTIONS" ∨
    ∃ authority pathAndQuery, classify req.path = .absolute authority pathAndQuery ∧
      validateOriginForm pathAndQuery = .ok () ∧
      req' = { req with
        path := pathAndQuery
        headers := ⟨replaceHost req.headers.headers authority⟩ } := by
  unfold normalize at h
  cases hform : classify req.path with
  | origin =>
    rw [hform] at h
    cases h
    exact .inl ⟨rfl, rfl⟩
  | asterisk =>
    rw [hform] at h
    dsimp only at h
    split at h
    · next hoptions =>
      cases h
      exact .inr (.inl ⟨rfl, rfl, by simpa using hoptions⟩)
    · cases h
  | absolute authority path =>
    rw [hform] at h
    unfold Request.setOriginFormPath at h
    dsimp only at h
    cases hvalid : validateOriginForm path with
    | error e =>
      rw [hvalid] at h
      cases h
    | ok _ =>
      rw [hvalid] at h
      cases h
      exact .inr (.inr ⟨authority, path, rfl, hvalid, rfl⟩)
  -- the other forms are errors
  | maybeAuthority =>
    rw [hform] at h
    cases h
  | empty =>
    rw [hform] at h
    cases h
  | malformed =>
    rw [hform] at h
    cases h

/-- A request that is normalized has its path and its fields rewritten by its form. -/
theorem normalize_ok {req req' : Request} (h : normalize req = .ok req') :
    req' = { req with
      path := normalizedPath req.path
      headers := ⟨normalizedFields req.path req.headers.headers⟩ } := by
  unfold normalizedPath normalizedFields authorityOf
  rcases normalize_cases h with
    ⟨rfl, hform⟩ | ⟨rfl, hform, -⟩ | ⟨authority, path, hform, -, rfl⟩
  · rw [hform]
  · rw [hform]
  · rw [hform]

/-! ## What a rewritten request is made of -/

/-- Parsing as absolute-form takes the parts behind the scheme, or comes to no form at all. -/
theorem parseAbsoluteForm_cases (target : Bytes) :
    (let afterScheme := (target.dropWhile isSchemeByte).drop 3
    parseAbsoluteForm target = .absolute (afterScheme.takeWhile fun b => !isAuthorityEnd b)
      (originFormOf ((afterScheme.dropWhile fun b => !isAuthorityEnd b).takeWhile (· != 35)))) ∨
    parseAbsoluteForm target = .empty ∨ parseAbsoluteForm target = .malformed ∨
      parseAbsoluteForm target = .maybeAuthority := by
  unfold parseAbsoluteForm
  cases target with
  | nil => exact .inr (.inl rfl)
  | cons first rest =>
    dsimp only
    split
    · exact .inr (.inr (.inl rfl))
    · split
      · exact .inr (.inr (.inr rfl))
      · split
        · exact .inr (.inr (.inl rfl))
        · split
          · exact .inr (.inr (.inl rfl))
          · exact .inl rfl

/-- Only a target that begins with neither a slash nor an asterisk is parsed. -/
theorem classify_cases (target : Bytes) :
    classify target = .origin ∧ target.head? = some 47 ∨
    classify target = .asterisk ∧ target = ascii "*" ∨
    classify target = parseAbsoluteForm target ∨
    classify target = .empty ∨ classify target = .malformed := by
  unfold classify
  split
  · next hasterisk => exact .inr (.inl ⟨rfl, eq_of_beq hasterisk⟩)
  · cases target with
    | nil => exact .inr (.inr (.inr (.inl rfl)))
    | cons first rest =>
      dsimp only
      split
      · next hslash => exact .inl ⟨rfl, congrArg some (eq_of_beq hslash)⟩
      · split
        · exact .inr (.inr (.inl rfl))
        · exact .inr (.inr (.inr (.inr rfl)))

/-- What parsing as absolute-form comes to. -/
theorem parseAbsoluteForm_of_classify {target authority pathAndQuery : Bytes}
    (h : classify target = .absolute authority pathAndQuery) :
    parseAbsoluteForm target = .absolute authority pathAndQuery := by
  rcases classify_cases target with ⟨hform, -⟩ | ⟨hform, -⟩ | hform | hform | hform
  · cases hform.symm.trans h
  · cases hform.symm.trans h
  · exact hform.symm.trans h
  · cases hform.symm.trans h
  · cases hform.symm.trans h

/-- The parts of a target in absolute-form are taken out of it. -/
theorem classify_absolute {target authority pathAndQuery : Bytes}
    (h : classify target = .absolute authority pathAndQuery) :
    (∀ b ∈ authority, b ∈ target) ∧
      ∃ pathQuery, pathAndQuery = originFormOf pathQuery ∧ (∀ b ∈ pathQuery, b ∈ target) ∧
        (IsUtf8 target → IsUtf8 pathQuery) := by
  have hparse := parseAbsoluteForm_of_classify h
  -- whatever stands behind the scheme is a part of the target
  have hbehind : ∀ {b}, b ∈ (target.dropWhile isSchemeByte).drop 3 → b ∈ target := fun hb =>
    (List.dropWhile_sublist _).subset (List.mem_of_mem_drop hb)
  rcases parseAbsoluteForm_cases target with hform | hform | hform | hform
  · cases hform.symm.trans hparse
    refine ⟨fun b hb => hbehind ((List.takeWhile_sublist _).subset hb), _, rfl, fun b hb => ?_,
      fun htarget => ?_⟩
    · exact hbehind ((List.dropWhile_sublist _).subset ((List.takeWhile_sublist _).subset hb))
    -- path and query begin at an ASCII delimiter, and so does what is cut off behind them
    · have hdelimiter : ∀ b, (!isAuthorityEnd b) = false → b < 128 :=
        forall_byte (by decide +kernel)
      have hfragment : ∀ b : UInt8, (b != 35) = false → b < 128 := forall_byte (by decide +kernel)
      refine IsUtf8.takeWhile hfragment (htarget.of_suffix ?_ (head_dropWhile hdelimiter _))
      exact (List.dropWhile_suffix _).trans
        ((List.drop_suffix _ _).trans (List.dropWhile_suffix _))
  · cases hform.symm.trans hparse
  · cases hform.symm.trans hparse
  · cases hform.symm.trans hparse

/-- An origin-form is not empty, and adds nothing but a slash. -/
theorem mem_originFormOf {pathQuery : Bytes} :
    originFormOf pathQuery ≠ [] ∧ ∀ b ∈ originFormOf pathQuery, b = 47 ∨ b ∈ pathQuery := by
  cases pathQuery with
  | nil => exact ⟨by decide, fun b hb => .inl (by simpa [originFormOf, ascii] using hb)⟩
  | cons first rest =>
    unfold originFormOf
    dsimp only
    split
    · exact ⟨by simp [ascii], fun b hb => by simpa [ascii] using hb⟩
    · exact ⟨by simp, fun b hb => .inr hb⟩

/-- An origin-form is a text if the path and query are one. -/
theorem isUtf8_originFormOf {pathQuery : Bytes} (h : IsUtf8 pathQuery) :
    IsUtf8 (originFormOf pathQuery) := by
  have hslash : IsUtf8 (ascii "/") := isUtf8_singleton (by decide)
  cases pathQuery with
  | nil => exact hslash
  | cons first rest =>
    unfold originFormOf
    dsimp only
    split
    · exact hslash.append h
    · exact h

section WellFormed

variable {h : Httparse} {path : Bytes}

/-- A target stays one when it is normalized. -/
theorem isTarget_normalizedPath (laws : h.RequestLaws) (hpath : h.IsTarget path) :
    h.IsTarget (normalizedPath path) := by
  unfold normalizedPath
  split
  · next authority pathAndQuery hform =>
    obtain ⟨-, pathQuery, rfl, hmem, hutf8⟩ := classify_absolute hform
    refine ⟨mem_originFormOf.1, fun b hb => ?_, isUtf8_originFormOf (hutf8 hpath.utf8)⟩
    rcases mem_originFormOf.2 b hb with rfl | hb
    · exact laws.uri_token (.inl (by decide +kernel))
    · exact hpath.tokens b (hmem b hb)
  · exact hpath

/-- Valid fields stay valid when they are normalized. -/
theorem normalizedFields_valid (laws : h.TargetLaws) (hpath : h.IsTarget path) {fs : List Field}
    (hfs : Headers.Valid ⟨fs⟩) : Headers.Valid ⟨normalizedFields path fs⟩ := by
  unfold normalizedFields authorityOf
  split
  · next authority hauthority =>
    split at hauthority
    · next authority' pathAndQuery hform =>
      cases hauthority
      obtain ⟨hmem, -⟩ := classify_absolute hform
      intro f hf
      rcases List.mem_append.mp hf with hf | hf
      · exact hfs f (List.mem_filter.mp hf).1
      · obtain rfl := List.mem_singleton.mp hf
        refine ⟨(by decide +kernel : isValidFieldName (ascii "host") = true), ?_⟩
        apply isValidFieldValue_iff.mpr
        intro b hb
        exact isFieldValueByte_of_vchar (laws.uri_vchar (hpath.tokens b (hmem b hb)))
    · cases hauthority
  · exact hfs

end WellFormed

end Jrpxy.Proxy
