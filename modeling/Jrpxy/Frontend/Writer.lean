/-
  Jrpxy.Frontend.Writer

  Writing responses to a client.

  The head is written by `sendAs…`, each with the framing of its name, and the
  answer is the writer of the body that the head announces.  The sink of a
  writer is passed on beside it.
-/
import Jrpxy.Frontend.Reader
import Jrpxy.Body.Writer.Unifier
import Jrpxy.HttpMessage.WriteHead

namespace Jrpxy.Frontend

open Poll BlockWriter Ascii Util HttpMessage Body Body.Writer

/-- Connection-level writer. -/
structure FrontendWriter where
  writer : Sink
  deriving DecidableEq, Repr

/-- A response body writer between two chunks, of any of the four encodings. -/
abbrev FrontendBodyReady := Unifier.Ready true

/-- The fields of a written response head; framing headers pass through only for a
    head that stands for a body that is not sent. -/
def writtenFields (res : Response) (framing : WriteFraming) : List Field :=
  res.headers.iter.filter (fun f => framing.preservesFraming || !isFramingHeader f.1) ++
    framingFields framing

/-- Write a response head, always as HTTP/1.1. -/
def writeResponseTo (res : Response) (framing : WriteFraming) (w : Sink) :
    Polled IoError Unit × Sink :=
  writePieces
    ([ascii "HTTP/1.1", ascii " ", digits 10 res.code, ascii " ", res.reason, ascii "\r\n"] ++
      ((res.headers.iter.filter fun f =>
          framing.preservesFraming || !isFramingHeader f.1).flatMap headerPieces ++
        framingPieces framing ++ [ascii "\r\n"])) w

namespace FrontendWriter

/-- Write a head, and go on with the writer of the body. -/
def sendAs {α : Type} (self : FrontendWriter) (response : Response) (framing : WriteFraming)
    (ready : α) : Polled FrontendError α × Sink :=
  sendHead .writeError (writeResponseTo response framing self.writer) ready

/-- Send the head of a body terminated by connection close. -/
def sendAsEof (self : FrontendWriter) (response : Response) :
    Polled FrontendError Eof.Ready × Sink :=
  self.sendAs response .stripFraming .mk

def sendAsChunked (self : FrontendWriter) (response : Response) :
    Polled FrontendError Chunked.Ready × Sink :=
  self.sendAs response .chunked .mk

def sendAsContentLength (self : FrontendWriter) (response : Response) (bodyLen : UInt64) :
    Polled FrontendError ContentLength.Ready × Sink :=
  self.sendAs response (.length bodyLen.toNat) (.new bodyLen)

/-- Send a head with no body, preserving any framing headers. -/
def sendAsBodylessKeepFraming (self : FrontendWriter) (response : Response) :
    Polled FrontendError Bodyless.Ready × Sink :=
  self.sendAs response .preserveFraming .mk

/-- Send a head with no body, stripping any framing headers. -/
def sendAsNoContent (self : FrontendWriter) (response : Response) :
    Polled FrontendError Bodyless.Ready × Sink :=
  self.sendAs response .stripFraming .mk

end FrontendWriter

/-- A response head as it is written on the wire. -/
def responseHead (code : Nat) (reason : Bytes) (fs : List Field) : Bytes :=
  ascii "HTTP/1.1 " ++ digits 10 code ++ ascii " " ++ reason ++ ascii "\r\n" ++
    fieldLines fs ++ ascii "\r\n"

/-- A response head that is written is the status line and the written fields. -/
theorem writeResponseTo_meets (res : Response) (framing : WriteFraming) (s : Sink) :
    Meets (writeResponseTo res framing s) {
      pending := fun _ => False
      ok := fun _ s' => Sends medium
        (responseHead res.code res.reason (writtenFields res framing)) s s'
      err := fun _ _ => ¬ s.Accepting } := by
  refine (writePieces_meets _ s).mono (fun _ h => h) ?_ (fun _ _ h => h)
  intro _ s' hsends
  have hline : ascii "HTTP/1.1 " = ascii "HTTP/1.1" ++ ascii " " := rfl
  rw [List.flatten_append, flatten_fieldPieces] at hsends
  simpa [responseHead, hline, writtenFields, List.append_assoc] using hsends

theorem FrontendWriter.sendAs_meets {α : Type} (self : FrontendWriter) (response : Response)
    (framing : WriteFraming) (ready : α) :
    Meets (self.sendAs response framing ready) {
      pending := fun _ => False
      ok := fun r s => r = ready ∧ Sends medium
        (responseHead response.code response.reason (writtenFields response framing))
        self.writer s
      err := fun _ _ => ¬ self.writer.Accepting } :=
  sendHead_meets _ ready (writeResponseTo_meets response framing self.writer)

end Jrpxy.Frontend
