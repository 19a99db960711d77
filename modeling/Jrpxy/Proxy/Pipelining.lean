/-
  Jrpxy.Proxy.Pipelining

  One message behind the other on a connection that stays open.

  Body readers fill their buffer past the end of the body, so the next message
  begins somewhere between the buffer and the source.  Whatever was read before
  the drain, the connection is handed back exactly in front of it.
-/
import Jrpxy.Frontend.Reader
import Jrpxy.Backend.Reader
import Jrpxy.Body.Coding

namespace Jrpxy.Proxy

open Poll PullStream ChunkedCoding Ascii Util HttpMessage Body Body.Reader
open Frontend Backend
open Httparse.Reference (reference chunkSizeLaws fieldSectionLaws)

/-- Created for a body of this framing, the readers of both sides can be read from
    with these sizes and then drained, and hand the connection back in front of `rest`. -/
structure DrainsTo (h : Httparse) (framing : ParsedFraming) (reader : BytesReader)
    (parseSlots : ParseSlots) (maxLine maxTrailer : Nat) (maxLens : List Nat) (rest : Bytes) :
    Prop where
  frontend : ∃ answers s next, Puller.readEach (FrontendBodyReader.read h) maxLens
      (.ofFraming reader parseSlots maxLine maxTrailer true framing) = (.ok answers, s) ∧
    FrontendBodyReader.drain h s = .ok (some next) ∧ next.reader.unread = rest
  backend : ∃ answers s next, Puller.readEach (BackendBodyReader.read h) maxLens
      (.ofFraming reader parseSlots maxLine maxTrailer true framing) = (.ok answers, s) ∧
    BackendBodyReader.drain h s = .ok (some next) ∧ next.reader.unread = rest

/-- A complete body of a persistent message, read in part or not at all and then
    drained, leaves exactly the bytes behind it. -/
theorem drainsTo_rest {h : Httparse} (hsize : h.ChunkSizeLaws) (hfields : h.FieldSectionLaws)
    {framing : ParsedFraming} {parseSlots : ParseSlots} {maxLine maxTrailer : Nat}
    {body rest : Bytes}
    (hbody : BodyReader.CompleteBody h parseSlots maxLine maxTrailer body framing)
    {reader : BytesReader} (hunread : reader.unread = body ++ rest) (maxLens : List Nat) :
    DrainsTo h framing reader parseSlots maxLine maxTrailer maxLens rest := by
  refine ⟨?_, ?_⟩
  · exact BodyReader.reads_drain hsize hfields maxLens
      (BodyReader.stands_ofFraming hsize hfields hbody hunread)
  · exact BodyReader.reads_drain hsize hfields maxLens
      (BodyReader.stands_ofFraming hsize hfields hbody hunread)

/-- A chunked body with the next request behind it: the buffer ends inside the first
    chunk, the source stops before the second, and two reads end inside a chunk. -/
theorem drainsTo_rest_wiki :
    DrainsTo reference .chunked
      ⟨⟨[.pending, .data 107 (ascii "i\r\n5\r"), .data 10 (ascii "pedia\r\n0\r\n\r\nGET /")]⟩,
        ⟨ascii "4\r\nWi", 5, by decide⟩⟩
      ⟨4⟩ 18 2 [0, 3] (ascii "GET /") := by
  have hbody : BodyReader.CompleteBody reference ⟨4⟩ 18 2
      (encodeBody [ascii "Wiki", ascii "pedia"] .empty) .chunked :=
    completeBody_encodeBody chunkSizeLaws fieldSectionLaws (by simp [ascii]) (by decide +kernel)
      (by decide) (by decide) (by decide)
  exact drainsTo_rest chunkSizeLaws fieldSectionLaws hbody (by decide +kernel) [0, 3]

end Jrpxy.Proxy
