/-
  Jrpxy.Proxy.Normalizing

  What normalizing a request does, and which targets it lets through.

  Normalizing works on the request in place.  It fails before it changes
  anything, or leaves a request it would not change again
  (`normalize_contract`).  The path of a target in absolute-form is validated
  before it is set; a target that begins with a slash is passed on unread, so
  what is passed on is valid exactly if such a target is (`onlyForms_iff`).
-/
import Jrpxy.Proxy.TargetForm

namespace Jrpxy.Proxy

open Ascii Util HttpMessage

/-! ## In place -/

/-- `Request::set_origin_form_path`: the answer, and the request it leaves. -/
def setOriginFormPathInPlace (path : Bytes) (req : Request) :
    Except OriginFormError Unit × Request :=
  match validateOriginForm path with
  | .error e => (.error e, req)
  | .ok _ => (.ok (), { req with path })

/-- `normalize`: the answer, and the request it leaves. -/
def normalizeInPlace (req : Request) : Except ProxyFrontendError Unit × Request :=
  match classify req.path with
  | .origin => (.ok (), req)
  | .asterisk =>
    if req.method == ascii "OPTIONS" then (.ok (), req) else (.error .asteriskFormNotAllowed, req)
  | .absolute authority pathAndQuery =>
    match setOriginFormPathInPlace pathAndQuery req with
    | (.error _, req) => (.error .malformedRequestTarget, req)
    | (.ok _, req) =>
      let (_, req) := req.removeHeaders fun f => isHost f.1
      (.ok (), { req with headers := req.headers.pushRaw (ascii "host") authority })
  | .maybeAuthority => (.error .authorityFormNotAllowed, req)
  | .empty | .malformed => (.error .malformedRequestTarget, req)

/-- A failure leaves the request as it was. -/
theorem normalizeInPlace_eq (req : Request) :
    normalizeInPlace req = match normalize req with
      | .ok req' => (.ok (), req')
      | .error e => (.error e, req) := by
  unfold normalizeInPlace normalize
  cases classify req.path with
  | origin => rfl
  | asterisk =>
    dsimp only
    split
    · rfl
    · rfl
  | absolute authority path =>
    dsimp only
    unfold setOriginFormPathInPlace Request.setOriginFormPath
    cases hvalid : validateOriginForm path with
    | error e => rfl
    | ok _ => rfl
  | maybeAuthority => rfl
  | empty => rfl
  | malformed => rfl

/-! ## A second time -/

/-- An origin-form begins with a slash. -/
theorem head_of_validateOriginForm {path : Bytes} (h : validateOriginForm path = .ok ()) :
    path.head? = some 47 := by
  unfold validateOriginForm at h
  cases path with
  | nil => cases h
  | cons b rest =>
    dsimp only at h
    split at h
    · cases h
    · next hslash =>
      have hb : b = 47 := by simpa using hslash
      rw [hb]
      rfl

/-- What begins with a slash is taken for an origin-form. -/
theorem classify_origin {target : Bytes} (h : target.head? = some 47) :
    classify target = .origin := by
  cases target with
  | nil => cases h
  | cons b rest =>
    cases h
    rfl

/-- Parsing as absolute-form finds nothing to be in another form. -/
theorem parseAbsoluteForm_ne {target : Bytes} {form : RequestTargetForm}
    (h : classify target = form) (horigin : form = .origin ∨ form = .asterisk) :
    classify target ≠ parseAbsoluteForm target := by
  intro hparse
  rw [h] at hparse
  rcases parseAbsoluteForm_cases target with hform | hform | hform | hform
  all_goals
    rw [hform] at hparse
    subst hparse
    rcases horigin with heq | heq
    · cases heq
    · cases heq

/-- Only what begins with a slash is. -/
theorem head_of_classify_origin {target : Bytes} (h : classify target = .origin) :
    target.head? = some 47 := by
  rcases classify_cases target with ⟨-, hhead⟩ | ⟨hform, -⟩ | hform | hform | hform
  · exact hhead
  · cases hform.symm.trans h
  · exact absurd hform (parseAbsoluteForm_ne h (.inl rfl))
  · cases hform.symm.trans h
  · cases hform.symm.trans h

/-- What normalizing made of a request, it would not change. -/
theorem normalize_again {req req' : Request} (h : normalize req = .ok req') :
    normalize req' = .ok req' := by
  rcases normalize_cases h with ⟨rfl, -⟩ | ⟨rfl, -⟩ | ⟨authority, path, -, hvalid, rfl⟩
  · exact h
  · exact h
  · unfold normalize
    dsimp only
    rw [classify_origin (head_of_validateOriginForm hvalid)]

/-- Normalizing is atomic, idempotent and minimal for this request. -/
structure NormalizeContract (req : Request) : Prop where
  atomic : ∀ e req', normalizeInPlace req = (.error e, req') → req' = req
  idempotent : ∀ req', normalizeInPlace req = (.ok (), req') →
    normalizeInPlace req' = (.ok (), req')
  rest_kept : ∀ req', normalizeInPlace req = (.ok (), req') →
    req'.method = req.method ∧ req'.version = req.version ∧
      (req'.headers.headers.filter fun f => !isHost f.1) =
        req.headers.headers.filter fun f => !isHost f.1
  /-- Nothing changes, except for a target in absolute-form. -/
  unchanged : ∀ req', normalizeInPlace req = (.ok (), req') →
    (∀ authority path, classify req.path ≠ .absolute authority path) → req' = req
  absolute : ∀ authority path req', classify req.path = .absolute authority path →
    normalizeInPlace req = (.ok (), req') →
      req'.path = path ∧
        (req'.headers.headers.filter fun f => isHost f.1) = [(ascii "host", authority)]

/-- A replaced `Host` is the only one, and the other fields stay. -/
theorem replaceHost_filter (fs : List Field) (authority : Bytes) :
    ((replaceHost fs authority).filter fun f => !isHost f.1) = (fs.filter fun f => !isHost f.1) ∧
      ((replaceHost fs authority).filter fun f => isHost f.1) = [(ascii "host", authority)] := by
  have hhost : isHost (ascii "host") = true := by decide
  have hnone : ((fs.filter fun f => !isHost f.1).filter fun f => isHost f.1) = [] := by
    rw [List.filter_eq_nil_iff]
    intro f hf
    simpa using (List.mem_filter.mp hf).2
  rw [replaceHost, List.filter_append, List.filter_append, List.filter_filter, hnone]
  simp [hhost]

/-- A request that is normalized in place. -/
theorem normalizeInPlace_ok {req req' : Request} :
    normalizeInPlace req = (.ok (), req') ↔ normalize req = .ok req' := by
  rw [normalizeInPlace_eq]
  cases normalize req with
  | ok out => simp
  | error e => simp

/-- Every request, whatever its target and its fields. -/
theorem normalize_contract (req : Request) : NormalizeContract req := by
  constructor
  · intro e req' hfailed
    rw [normalizeInPlace_eq] at hfailed
    cases hnormal : normalize req with
    | ok out =>
      rw [hnormal] at hfailed
      cases hfailed
    | error e' =>
      rw [hnormal] at hfailed
      cases hfailed
      rfl
  · intro req' hok
    rw [normalizeInPlace_ok] at hok ⊢
    exact normalize_again hok
  · intro req' hok
    rcases normalize_cases (normalizeInPlace_ok.mp hok) with
      ⟨rfl, -⟩ | ⟨rfl, -⟩ | ⟨authority, path, -, -, rfl⟩
    · exact ⟨rfl, rfl, rfl⟩
    · exact ⟨rfl, rfl, rfl⟩
    · exact ⟨rfl, rfl, (replaceHost_filter _ _).1⟩
  · intro req' hok hnot
    rcases normalize_cases (normalizeInPlace_ok.mp hok) with
      ⟨rfl, -⟩ | ⟨rfl, -⟩ | ⟨authority, path, hform, -⟩
    · rfl
    · rfl
    · exact absurd hform (hnot authority path)
  · intro authority path req' hform hok
    rcases normalize_cases (normalizeInPlace_ok.mp hok) with
      ⟨-, horigin⟩ | ⟨-, hasterisk, -⟩ | ⟨authority', path', hform', -, rfl⟩
    · rw [hform] at horigin
      cases horigin
    · rw [hform] at hasterisk
      cases hasterisk
    · rw [hform] at hform'
      cases hform'
      exact ⟨rfl, (replaceHost_filter _ _).2⟩

/-! ## What gets through -/

/-- A target in one of the forms a proxy is sent: origin-form, absolute-form, and asterisk-form
    with `OPTIONS`. -/
inductive InForm (method target : Bytes) : Prop where
  | origin (valid : validateOriginForm target = .ok ())
  | absolute {scheme authority pathQuery fragment : Bytes}
      (form : AbsoluteForm target scheme authority pathQuery fragment)
  | asterisk (eq : target = ascii "*") (options : method = ascii "OPTIONS")

/-- Only these forms get through for this request, and what is forwarded is valid. -/
structure OnlyForms (req : Request) : Prop where
  valid : ∀ req', normalizeInPlace req = (.ok (), req') →
    req'.path = ascii "*" ∧ req'.method = ascii "OPTIONS" ∨ validateOriginForm req'.path = .ok ()
  rejected : ¬ InForm req.method req.path → ∃ e, normalizeInPlace req = (.error e, req)

/-- What is taken for an asterisk is one. -/
theorem eq_of_classify_asterisk {target : Bytes} (h : classify target = .asterisk) :
    target = ascii "*" := by
  rcases classify_cases target with ⟨hform, -⟩ | ⟨-, hasterisk⟩ | hform | hform | hform
  · cases hform.symm.trans h
  · exact hasterisk
  · exact absurd hform (parseAbsoluteForm_ne h (.inr rfl))
  · cases hform.symm.trans h
  · cases hform.symm.trans h

/-- What is taken for absolute-form is in absolute-form. -/
theorem absoluteForm_of_classify {target authority path : Bytes}
    (h : classify target = .absolute authority path) :
    ∃ scheme pathQuery fragment, AbsoluteForm target scheme authority pathQuery fragment := by
  obtain ⟨hlooks, rfl, -⟩ := parseAbsoluteForm_absolute_iff.mp (parseAbsoluteForm_of_classify h)
  exact ⟨_, _, _, hlooks.absoluteForm⟩

/-- Only the forms get through, and what is forwarded is valid, if and only if a target that
    begins with a slash is a valid origin-form: for every method, target and fields. -/
theorem onlyForms_iff (req : Request) :
    OnlyForms req ↔ (req.path.head? = some 47 → validateOriginForm req.path = .ok ()) := by
  constructor
  · intro honly hslash
    have hok : normalizeInPlace req = (.ok (), req) := by
      rw [normalizeInPlace_ok, normalize, classify_origin hslash]
    rcases honly.valid req hok with ⟨hstar, -⟩ | hvalid
    · rw [hstar] at hslash
      cases hslash
    · exact hvalid
  · intro hslash
    constructor
    -- absolute-form is validated as it is rewritten, origin-form only by the assumption
    · intro req' hok
      rcases normalize_cases (normalizeInPlace_ok.mp hok) with
        ⟨rfl, horigin⟩ | ⟨rfl, hasterisk, hoptions⟩ | ⟨authority, path, -, hvalid, rfl⟩
      · exact .inr (hslash (head_of_classify_origin horigin))
      · exact .inl ⟨eq_of_classify_asterisk hasterisk, hoptions⟩
      · exact .inr hvalid
    · intro hnot
      rw [normalizeInPlace_eq]
      cases hnormal : normalize req with
      | error e => exact ⟨e, rfl⟩
      | ok req' =>
        refine absurd ?_ hnot
        rcases normalize_cases hnormal with
          ⟨-, horigin⟩ | ⟨-, hasterisk, hoptions⟩ | ⟨authority, path, hform, -⟩
        · exact .origin (hslash (head_of_classify_origin horigin))
        · exact .asterisk (eq_of_classify_asterisk hasterisk) hoptions
        · obtain ⟨scheme, pathQuery, fragment, habsolute⟩ := absoluteForm_of_classify hform
          exact .absolute habsolute

/-- `GET /a#b HTTP/1.1` with a `Host`. -/
def fragmentRequest : Request :=
  ⟨ascii "GET", ascii "/a#b", .http11, ⟨[(ascii "Host", ascii "a")]⟩⟩

/-- It is normalized and passed on with its fragment, which no origin-form has. -/
theorem fragmentRequest_gets_through :
    normalizeInPlace fragmentRequest = (.ok (), fragmentRequest) ∧
      validateOriginForm fragmentRequest.path = .error (.invalidCharacter 2 35) ∧
      ¬ OnlyForms fragmentRequest := by
  have hok : normalizeInPlace fragmentRequest = (.ok (), fragmentRequest) := by decide +kernel
  have hinvalid : validateOriginForm fragmentRequest.path = .error (.invalidCharacter 2 35) := by
    decide +kernel
  refine ⟨hok, hinvalid, ?_⟩
  intro honly
  rcases honly.valid _ hok with ⟨hstar, -⟩ | hvalid
  · exact absurd hstar (by decide +kernel)
  · rw [hinvalid] at hvalid
    cases hvalid

end Jrpxy.Proxy
