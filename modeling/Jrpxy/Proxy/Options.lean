/-
  Jrpxy.Proxy.Options

  Configuration governing proxy behavior.
-/
import Jrpxy.Util.Parse

namespace Jrpxy.Proxy

open Ascii Util

/-- Why options are rejected. -/
inductive ProxyOptionsError where
  | emptyReceivedBy
  | illegalReceivedByByte (byte : UInt8)
  deriving DecidableEq, Repr

/-- Options used to govern the behavior of the proxy; the pseudonym of `Via` is a token. -/
structure ProxyOptions where
  maxBackendHeadLength : Nat
  maxChunkHeaderLength : Nat
  bodyChunkSize : Nat
  receivedBy : Bytes
  valid : isValidFieldName receivedBy = true

/-- Options before they are validated. -/
structure ProxyOptionsBuilder where
  maxBackendHeadLength : Nat := 8192
  maxChunkHeaderLength : Nat := 8192
  bodyChunkSize : Nat := 8192
  receivedBy : Bytes := ascii "jrpxy"
  deriving DecidableEq, Repr

/-- A `Via` pseudonym must be a non-empty token. -/
def validateReceivedBy (receivedBy : Bytes) : Except ProxyOptionsError Unit :=
  if receivedBy.isEmpty then .error .emptyReceivedBy
  else
    match receivedBy.find? fun b => !isValidTchar b with
    | some byte => .error (.illegalReceivedByByte byte)
    | none => .ok ()

/-- What is validated is a token. -/
theorem isValidFieldName_of_validate {receivedBy : Bytes}
    (h : validateReceivedBy receivedBy = .ok ()) : isValidFieldName receivedBy = true := by
  unfold validateReceivedBy at h
  split at h
  · cases h
  · next hne =>
    split at h
    · cases h
    · next hnone =>
      apply isValidFieldName_iff.mpr
      constructor
      · intro hnil
        exact hne (by rw [hnil]; rfl)
      · intro b hb
        simpa using List.find?_eq_none.mp hnone b hb

/-- Validate the accumulated options. -/
def ProxyOptionsBuilder.build (self : ProxyOptionsBuilder) : Except ProxyOptionsError ProxyOptions :=
  match h : validateReceivedBy self.receivedBy with
  | .error e => .error e
  | .ok () => .ok ⟨self.maxBackendHeadLength, self.maxChunkHeaderLength, self.bodyChunkSize,
      self.receivedBy, isValidFieldName_of_validate h⟩

/-- `Default` -/
def ProxyOptions.default : ProxyOptions := ⟨8192, 8192, 8192, ascii "jrpxy", by decide⟩

/-- The defaults pass their own check. -/
theorem ProxyOptionsBuilder.build_default :
    ProxyOptionsBuilder.build {} = .ok ProxyOptions.default := rfl

/-- A block of the default size has a `u64` length. -/
theorem ProxyOptions.default_bodyChunkSize_lt : ProxyOptions.default.bodyChunkSize < 2 ^ 64 := by
  decide

end Jrpxy.Proxy
