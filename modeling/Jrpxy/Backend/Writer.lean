/-
  Jrpxy.Backend.Writer

  Writing requests to a backend.

  The head is written by `sendAs…`, each with the framing of its name, and the
  answer is the writer of the body that the head announces.  The sink of a
  writer is passed on beside it.
-/
import Jrpxy.Backend.Reader
import Jrpxy.Body.Writer.Unifier
import Jrpxy.HttpMessage.WriteHead

namespace Jrpxy.Backend

open Poll BlockWriter Ascii Util HttpMessage Body Body.Writer

/-- Connection-level writer. -/
structure BackendWriter where
  writer : Sink
  deriving DecidableEq, Repr

/-- A request body writer between two chunks: no encoding of it ends with the connection. -/
abbrev BackendBodyReady := Unifier.Ready false

/-- The fields of a written request head; framing headers never pass through. -/
def writtenFields (req : Request) (framing : WriteFraming) : List Field :=
  req.headers.iter.filter (fun f => !isFramingHeader f.1) ++ framingFields framing

/-- Write a request head, always as HTTP/1.1.  No caller asks for `preserveFraming`,
    which a debug assertion forbids. -/
def writeRequestTo (req : Request) (framing : WriteFraming) (w : Sink) :
    Polled IoError Unit × Sink :=
  writePieces
    ([req.method, ascii " ", req.path, ascii " ", ascii "HTTP/1.1", ascii "\r\n"] ++
      ((req.headers.iter.filter fun f => !isFramingHeader f.1).flatMap headerPieces ++
        framingPieces framing ++ [ascii "\r\n"])) w

namespace BackendWriter

/-- Write a head, and go on with the writer of the body. -/
def sendAs {α : Type} (self : BackendWriter) (request : Request) (framing : WriteFraming)
    (ready : α) : Polled BackendError α × Sink :=
  sendHead .writeError (writeRequestTo request framing self.writer) ready

def sendAsChunked (self : BackendWriter) (request : Request) :
    Polled BackendError Chunked.Ready × Sink :=
  self.sendAs request .chunked .mk

def sendAsContentLength (self : BackendWriter) (request : Request) (bodyLen : UInt64) :
    Polled BackendError ContentLength.Ready × Sink :=
  self.sendAs request (.length bodyLen.toNat) (.new bodyLen)

/-- Send the request without a body, eliding any framing headers. -/
def sendAsBodyless (self : BackendWriter) (request : Request) :
    Polled BackendError Bodyless.Ready × Sink :=
  self.sendAs request .stripFraming .mk

end BackendWriter

/-- A request head that is written is the request line and the written fields. -/
theorem writeRequestTo_meets (req : Request) (framing : WriteFraming) (s : Sink) :
    Meets (writeRequestTo req framing s) {
      pending := fun _ => False
      ok := fun _ s' => Sends medium
        (Httparse.requestHead req.method req.path (ascii "HTTP/1.1") (writtenFields req framing))
        s s'
      err := fun _ _ => ¬ s.Accepting } := by
  refine (writePieces_meets _ s).mono (fun _ h => h) ?_ (fun _ _ h => h)
  intro _ s' hsends
  rw [List.flatten_append, flatten_fieldPieces] at hsends
  simpa [Httparse.requestHead, writtenFields, List.append_assoc] using hsends

end Jrpxy.Backend
