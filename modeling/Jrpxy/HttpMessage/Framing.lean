/-
  Jrpxy.HttpMessage.Framing

  HTTP versions, and the framing read from a message head or written to one.
-/
import Jrpxy.Util.Parse

namespace Jrpxy.HttpMessage

open Ascii

/-- The supported HTTP versions. -/
inductive HttpVersion where
  | http10
  | http11
  deriving DecidableEq, Repr

namespace HttpVersion

/-- `TryFrom<u8>`: the minor version. -/
def tryFrom : UInt8 → Except UInt8 HttpVersion
  | 0 => .ok http10
  | 1 => .ok http11
  | value => .error value

end HttpVersion

/-- The framing of a message as parsed from its headers. -/
inductive ParsedFraming where
  | length (len : Nat)
  | chunked
  | noFraming
  deriving DecidableEq, Repr

def ParsedFraming.isNoFraming : ParsedFraming → Bool
  | noFraming => true
  | _ => false

/-- The framing instruction used when writing a message head. -/
inductive WriteFraming where
  | length (len : Nat)
  | chunked
  | preserveFraming
  | stripFraming
  deriving DecidableEq, Repr

namespace WriteFraming

def preservesFraming : WriteFraming → Bool
  | preserveFraming => true
  | _ => false

end WriteFraming

def framingHeaders : List Bytes := [ascii "content-length", ascii "transfer-encoding"]

/-- `name` is `content-length` or `transfer-encoding`. -/
def isFramingHeader (name : Bytes) : Bool := framingHeaders.any fun h => eqIgnoreCase h name

/-- A header that is no framing header has neither of the two names. -/
theorem isFramingHeader_eq_false {name : Bytes} :
    isFramingHeader name = false ↔ eqIgnoreCase name (ascii "content-length") = false ∧
      eqIgnoreCase name (ascii "transfer-encoding") = false := by
  simp [isFramingHeader, framingHeaders, eqIgnoreCase_symm name]

end Jrpxy.HttpMessage
