/-
  Jrpxy.Backend.BuiltHead

  Requests made with the builder, and the heads they are written as.

  Four checks stand between a builder and its request.  Those of the path and
  of the fields are the grammar's own; that of the method forgets that a token
  is not empty, so a head can be written that begins with the space behind its
  method (`not_requestHead_of_empty_method`).  Nothing else is let through.
-/
import Jrpxy.Backend.WrittenHead
import Jrpxy.HttpMessage.Builder

namespace Jrpxy.HttpMessage

open Ascii Util
open HttpHead hiding Field

/-! ## The checks and the grammar -/

theorem token_iff {name : Bytes} : Token name ↔ isValidFieldName name = true := by
  rw [isValidFieldName_iff, Token]
  simp only [isTchar_eq]

theorem text_iff {value : Bytes} : Text value ↔ isValidFieldValue value = true := by
  rw [isValidFieldValue_iff, Text]
  simp only [isText_eq]

theorem isValidRequestTarget_iff {target : Bytes} :
    isValidRequestTarget target = true ↔ target ≠ [] ∧ ∀ b ∈ target, isFieldVchar b = true := by
  simp [isValidRequestTarget, isFieldVchar_eq]

/-- The method's check asks for a token, or for nothing. -/
theorem all_isValidTchar_iff {method : Bytes} :
    method.all isValidTchar = true ↔ method = [] ∨ Token method := by
  rw [token_iff, isValidFieldName_iff, List.all_eq_true]
  cases method with
  | nil => simp
  | cons b rest => simp

/-- A head whose method is empty is no head. -/
theorem not_requestHead_of_empty_method (path version : Bytes) (fs : List Field)
    (p : RequestParts) : ¬ RequestHead p (Httparse.requestHead [] path version fs) := by
  rintro ⟨⟨hne, hmethod⟩, -, -, rest, -, hhead⟩
  cases hp : p.method with
  | nil => exact hne hp
  | cons b method =>
    -- the first byte would be of the method, but it is the space
    rw [hp] at hhead hmethod
    have hb : b = 32 := by
      simpa [Httparse.requestHead, ascii] using (congrArg List.head? hhead).symm
    exact (ne_of_isTchar (hmethod b List.mem_cons_self)).2.1 hb

/-! ## What is built -/

namespace RequestBuilder

/-- The builder that was given the parts of `req`, in their order. -/
def ofRequest (req : Request) : RequestBuilder :=
  ⟨some req.method, some req.path, some req.version, req.headers.headers⟩

/-- A builder builds what it was given, if the four checks pass. -/
theorem build_eq_ok {self : RequestBuilder} {req : Request} :
    self.build = .ok req ↔ self = ofRequest req ∧ (req.method = [] ∨ Token req.method) ∧
      isValidRequestTarget req.path = true ∧ req.headers.Valid := by
  constructor
  · intro h
    unfold build at h
    split at h
    · cases h
    · next method hmethod =>
      split at h
      · cases h
      · next path hpath =>
        split at h
        · cases h
        · next version hversion =>
          -- the parts are there, and each is checked
          split at h
          · cases h
          · next htchar =>
            split at h
            · cases h
            · next htarget =>
              cases hpush : pushFields .empty self.headers with
              | error e =>
                rw [hpush] at h
                cases h
              | ok headers =>
                rw [hpush] at h
                cases h
                obtain ⟨hvalid, rfl⟩ := pushFields_ok.mp hpush
                refine ⟨?_, all_isValidTchar_iff.mp (by simpa using htchar), by simpa using htarget,
                  hvalid⟩
                rw [ofRequest, ← hmethod, ← hpath, ← hversion]
                rfl
  · rintro ⟨rfl, hmethod, htarget, hvalid⟩
    have hpush : pushFields .empty req.headers.headers = .ok req.headers :=
      pushFields_ok.mpr ⟨hvalid, rfl⟩
    simp only [build, ofRequest, all_isValidTchar_iff.mpr hmethod, htarget, hpush]
    rfl

/-- Every part was given, and is what a head has there. -/
def Serializable (self : RequestBuilder) : Prop :=
  ∃ method path version, self.method = some method ∧ self.path = some path ∧
    self.version = some version ∧ Token method ∧
    (path ≠ [] ∧ ∀ b ∈ path, isFieldVchar b = true) ∧ ∀ f ∈ self.headers, Token f.1 ∧ Text f.2

/-- `build` accepts what can be written as a head, and the request holds what was given. -/
structure BuildsExactly (b : RequestBuilder) : Prop where
  accepts : (∃ req, b.build = .ok req) ↔ b.Serializable
  holds : ∀ req, b.build = .ok req →
    b.method = some req.method ∧ b.path = some req.path ∧
      b.version = some req.version ∧ b.headers = req.headers.headers
  serializes : ∀ req, b.build = .ok req → ∀ framing, ∃ p, RequestHead p
    (Httparse.requestHead req.method req.path (ascii "HTTP/1.1")
      (Backend.writtenFields req framing))

/-- The method given is empty, and every other part is what a head has there. -/
def EmptyMethodOnly (self : RequestBuilder) : Prop :=
  self.method = some [] ∧ ∃ path version, self.path = some path ∧ self.version = some version ∧
    isValidRequestTarget path = true ∧ Headers.Valid ⟨self.headers⟩

theorem serializable_iff {self : RequestBuilder} :
    self.Serializable ↔ ∃ req, self = ofRequest req ∧ Token req.method ∧
      isValidRequestTarget req.path = true ∧ req.headers.Valid := by
  constructor
  · rintro ⟨method, path, version, hm, hp, hv, hmethod, hpath, hheaders⟩
    refine ⟨⟨method, path, version, ⟨self.headers⟩⟩, ?_, hmethod,
      isValidRequestTarget_iff.mpr hpath, ?_⟩
    · rw [ofRequest, ← hm, ← hp, ← hv]
    · intro f hf
      exact ⟨token_iff.mp (hheaders f hf).1, text_iff.mp (hheaders f hf).2⟩
  · rintro ⟨req, rfl, hmethod, htarget, hvalid⟩
    refine ⟨req.method, req.path, req.version, rfl, rfl, rfl, hmethod,
      isValidRequestTarget_iff.mp htarget, fun f hf => ?_⟩
    exact ⟨token_iff.mpr (hvalid f hf).1, text_iff.mpr (hvalid f hf).2⟩

/-- What is built from other than an empty method has a token for its method. -/
theorem token_of_build {self : RequestBuilder} {req : Request} (h : self.build = .ok req)
    (hempty : ¬ self.EmptyMethodOnly) : Token req.method := by
  obtain ⟨rfl, hmethod | hmethod, htarget, hvalid⟩ := build_eq_ok.mp h
  · have hgiven : (ofRequest req).method = some [] := congrArg some hmethod
    exact absurd ⟨hgiven, req.path, req.version, rfl, rfl, htarget, hvalid⟩ hempty
  · exact hmethod

/-- `build` accepts exactly what can be written as a head, and keeps it, unless the method
    given is empty and nothing else is wrong. -/
theorem buildsExactly_iff (self : RequestBuilder) :
    self.BuildsExactly ↔ ¬ self.EmptyMethodOnly := by
  constructor
  · rintro ⟨haccepts, -, -⟩ ⟨hm, path, version, hp, hv, htarget, hvalid⟩
    -- an empty method passes its check, but it is no token
    have hbuild : self.build = .ok ⟨[], path, version, ⟨self.headers⟩⟩ := by
      refine build_eq_ok.mpr ⟨?_, .inl rfl, htarget, hvalid⟩
      rw [ofRequest, ← hm, ← hp, ← hv]
    obtain ⟨method, -, -, hm', -, -, htoken, -⟩ := haccepts.mp ⟨_, hbuild⟩
    rw [hm] at hm'
    cases hm'
    exact htoken.1 rfl
  · intro hempty
    refine ⟨⟨?_, ?_⟩, ?_, ?_⟩
    · rintro ⟨req, h⟩
      obtain ⟨heq, -, htarget, hvalid⟩ := build_eq_ok.mp h
      exact serializable_iff.mpr ⟨req, heq, token_of_build h hempty, htarget, hvalid⟩
    · intro h
      obtain ⟨req, heq, hmethod, htarget, hvalid⟩ := serializable_iff.mp h
      exact ⟨req, build_eq_ok.mpr ⟨heq, .inr hmethod, htarget, hvalid⟩⟩
    · intro req h
      obtain ⟨rfl, -⟩ := build_eq_ok.mp h
      exact ⟨rfl, rfl, rfl, rfl⟩
    · intro req h framing
      obtain ⟨-, -, htarget, hvalid⟩ := build_eq_ok.mp h
      exact ⟨_, Backend.requestHead_parses (token_iff.mp (token_of_build h hempty)) htarget hvalid
        framing⟩

/-- A builder given an empty method, the path `/` and a version. -/
def emptyMethod : RequestBuilder := ⟨some [], some (ascii "/"), some .http11, []⟩

/-- It builds a request, which is written as no head. -/
theorem emptyMethod_builds :
    emptyMethod.build = .ok ⟨[], ascii "/", .http11, ⟨[]⟩⟩ ∧ ¬ emptyMethod.Serializable ∧
      ¬ emptyMethod.BuildsExactly := by
  have hbuild : emptyMethod.build = .ok ⟨[], ascii "/", .http11, ⟨[]⟩⟩ := rfl
  have hnot : ¬ emptyMethod.Serializable := by
    rintro ⟨method, -, -, hm, -, -, htoken, -⟩
    cases hm
    exact htoken.1 rfl
  exact ⟨hbuild, hnot, fun h => hnot (h.accepts.mp ⟨_, hbuild⟩)⟩

end RequestBuilder

end Jrpxy.HttpMessage
