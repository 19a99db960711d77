/-
  Jrpxy.HttpMessage.Builder

  Builders of messages, which check what they are given.
-/
import Jrpxy.HttpMessage.Message

namespace Jrpxy.HttpMessage

open Util

/-- Why a message is not built. -/
inductive BuildError where
  | missingMethod
  | missingPath
  | missingVersion
  | missingCode
  | missingResult
  | invalidMethod (method : Bytes)
  | invalidPath (path : Bytes)
  | invalidReason (reason : Bytes)
  | invalidFieldName (name : Bytes)
  | invalidFieldValue (value : Bytes)
  deriving DecidableEq, Repr

/-- The builder's error for what `push` says of a field. -/
def buildErrorForField (error : FieldError) (name value : Bytes) : BuildError :=
  match error with
  | .invalidName => .invalidFieldName name
  | .invalidValue => .invalidFieldValue value

/-- The builders' loop over the fields: the checked push is the only check of them. -/
def pushFields : Headers → List Field → Except BuildError Headers
  | headers, [] => .ok headers
  | headers, (name, value) :: rest =>
    match headers.push name value with
    | .error e => .error (buildErrorForField e name value)
    | .ok headers => pushFields headers rest

/-- Fields are pushed if all of them are valid. -/
theorem pushFields_ok {fs : List Field} {headers out : Headers} :
    pushFields headers fs = .ok out ↔ Headers.Valid ⟨fs⟩ ∧ out = ⟨headers.headers ++ fs⟩ := by
  induction fs generalizing headers with
  | nil =>
    rw [List.append_nil]
    constructor
    · intro h
      cases h
      exact ⟨nofun, rfl⟩
    · rintro ⟨-, rfl⟩
      rfl
  | cons f fs ih =>
    obtain ⟨name, value⟩ := f
    rw [pushFields]
    cases hpush : headers.push name value with
    | error e =>
      apply iff_of_false
      · exact nofun
      · rintro ⟨hvalid, -⟩
        obtain ⟨hname, hvalue⟩ := hvalid (name, value) List.mem_cons_self
        have hok : headers.push name value = .ok ⟨headers.headers ++ [(name, value)]⟩ :=
          Headers.push_eq_ok.mpr ⟨hname, hvalue, rfl⟩
        rw [hpush] at hok
        cases hok
    | ok headers' =>
      obtain ⟨hname, hvalue, rfl⟩ := Headers.push_eq_ok.mp hpush
      have hcons : Headers.Valid ⟨(name, value) :: fs⟩ ↔ Headers.Valid ⟨fs⟩ :=
        List.forall_mem_cons.trans (and_iff_right ⟨hname, hvalue⟩)
      rw [hcons]
      dsimp only
      rw [ih, List.append_assoc]
      rfl

/-- A builder for a request. -/
structure RequestBuilder where
  method : Option Bytes := none
  path : Option Bytes := none
  version : Option HttpVersion := none
  headers : List Field := []
  deriving DecidableEq, Repr

/-- Build the request after checking for request validity. -/
def RequestBuilder.build (self : RequestBuilder) : Except BuildError Request :=
  match self.method with
  | none => .error .missingMethod
  | some method =>
    match self.path with
    | none => .error .missingPath
    | some path =>
      match self.version with
      | none => .error .missingVersion
      | some version =>
        if !method.all isValidTchar then .error (.invalidMethod method)
        else if !isValidRequestTarget path then .error (.invalidPath path)
        else (pushFields .empty self.headers).map fun headers => ⟨method, path, version, headers⟩

/-- A builder for a response; the code is any `u16`. -/
structure ResponseBuilder where
  version : Option HttpVersion := none
  code : Option UInt16 := none
  reason : Option Bytes := none
  headers : List Field := []
  deriving DecidableEq, Repr

/-- Build the response after checking for response validity. -/
def ResponseBuilder.build (self : ResponseBuilder) : Except BuildError Response :=
  match self.version with
  | none => .error .missingVersion
  | some version =>
    match self.code with
    | none => .error .missingCode
    | some code =>
      match self.reason with
      | none => .error .missingResult
      | some reason =>
        -- a reason-phrase draws from the same byte set as a field value
        if !isValidFieldValue reason then .error (.invalidReason reason)
        else
          (pushFields .empty self.headers).map fun headers =>
            ⟨version, code.toNat, reason, headers⟩

/-- A response that is built has a valid reason phrase and valid fields. -/
theorem ResponseBuilder.build_ok {self : ResponseBuilder} {res : Response}
    (h : self.build = .ok res) : isValidFieldValue res.reason = true ∧ res.headers.Valid := by
  unfold build at h
  split at h
  · cases h
  · split at h
    · cases h
    · split at h
      · cases h
      · split at h
        · cases h
        · next hreason =>
          cases hpush : pushFields .empty self.headers with
          | error e =>
            rw [hpush] at h
            cases h
          | ok headers =>
            rw [hpush] at h
            cases h
            obtain ⟨hvalid, rfl⟩ := pushFields_ok.mp hpush
            exact ⟨by simpa using hreason, hvalid⟩

end Jrpxy.HttpMessage
