/-
  Jrpxy.Body.Error

  Errors of body readers, body writers and body forwarders.
-/
import Jrpxy.HttpMessage.Message

namespace Jrpxy.Body

open Poll Util HttpMessage

inductive TrailerError where
  | invalidField (e : Httparse.Error)
  | tooManyFields
  | maxLengthExceeded (max : Nat)
  deriving DecidableEq, Repr

inductive BodyError where
  | bodyOverflow (max : Nat)
  | bodyWriteError (e : IoError)
  | bodyReadError (e : IoError)
  | incompleteBody (expected actual : Nat)
  | invalidChunkHeader (e : Httparse.InvalidChunkSize)
  | chunkHeaderTooLong (max : Nat)
  | incompleteChunkHeader (expected actual : Nat)
  | incompleteChunkFooter (expected actual : Nat)
  | incompleteFinish (expected actual : Nat)
  | unflushedFinish
  | unflushedAbort
  | trailerError (e : TrailerError)
  | unexpectedEOF
  | invalidChunkFooter (expected actual : UInt8)
  | readAfterError
  | writeAfterError
  | forwardAfterError
  deriving DecidableEq, Repr

/-- `From<ReaderBufferError>` -/
def BodyError.ofReaderBufferError : ReaderBufferError → BodyError
  | .io e => .bodyReadError e
  | .unexpectedEOF => .unexpectedEOF

/-- What the buffered reader reports is never about a length. -/
theorem BodyError.ofReaderBufferError_ne (e : ReaderBufferError) (max : Nat) :
    ofReaderBufferError e ≠ .chunkHeaderTooLong max ∧
      ofReaderBufferError e ≠ .trailerError (.maxLengthExceeded max) := by
  cases e <;> exact ⟨nofun, nofun⟩

/-- The error of a trailer section; `none` for the errors a field section cannot give. -/
def mapTrailerError : MessageError → Option BodyError
  | .parse .tooManyHeaders => some (.trailerError .tooManyFields)
  | .parse e => some (.trailerError (.invalidField e))
  | _ => none

/-- Whatever the field-section parser reports is a trailer error, though none about the
    length. -/
theorem mapTrailerError_parse (e : Httparse.Error) :
    ∃ t, mapTrailerError (.parse e) = some (.trailerError t) ∧
      ∀ max, t ≠ .maxLengthExceeded max := by
  cases e <;> exact ⟨_, rfl, nofun⟩

end Jrpxy.Body
