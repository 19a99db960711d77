/-
  Jrpxy.Proxy.Buffering

  What a peer can make the proxy buffer.

  Heads are read within their limit, and chunked bodies within one fill of
  theirs, on the connections of both sides and from any state of a connection.
-/
import Jrpxy.Body.Buffering
import Jrpxy.Frontend.Reader
import Jrpxy.Backend.Reader
import Jrpxy.Httparse.Reference

namespace Jrpxy.Proxy

open Poll Incremental Ascii Util HttpMessage
open Body.Reader (ChunkedBodyReader)
open Httparse.Reference (reference requestLaws responseHeadLaws chunkSizeLaws fieldSectionLaws)

/-- Reading heads and chunked bodies keeps the buffer within the limits, and rejects what does
    not end. -/
theorem boundedBuffering {h : Httparse} (hreq : h.RequestLaws) (hhead : h.ResponseHeadLaws)
    (hsize : h.ChunkSizeLaws) (hfields : h.FieldSectionLaws) :
    (∀ (reader : Frontend.FrontendReader) maxHeadLength,
      HeadBuffering Frontend.headErrors (reader.parseSlots.parseRequest h)
        (h.parseRequest reader.parseSlots.slotCount) maxHeadLength reader.reader) ∧
    (∀ (reader : Backend.BackendReader) maxHeadLength,
      HeadBuffering Backend.headErrors (reader.parseSlots.parseResponse h)
        (h.parseResponse reader.parseSlots.slotCount) maxHeadLength reader.reader) ∧
    ∀ slots maxChunkHeaderLength maxTrailerLength reader,
      ChunkedBodyReader.ChunkBuffering h slots maxChunkHeaderLength maxTrailerLength reader := by
  refine ⟨fun reader maxHeadLength => ?_, fun reader maxHeadLength => ?_,
    ChunkedBodyReader.chunkBuffering hsize hfields⟩
  · exact headBuffering (ParseSlots.parseRequest_takes h _) (hreq.parser _)
      (fun r hr => ParseSlots.parseRequest_incomplete hr) _ maxHeadLength reader.reader
  · exact headBuffering (ParseSlots.parseResponse_takes h _) (hhead.parser _)
      (fun r hr => ParseSlots.parseResponse_incomplete hr) _ maxHeadLength reader.reader

/-- A request line and a size line that go on and on. -/
def endlessHead : Frontend.FrontendReader :=
  .new ⟨[.data 71 (ascii "ET /aaaaaaaaaaaa"), .pending, .data 97 (ascii "aaaaaaaaaaaaaaaaa")]⟩ 4

def endlessLine : BytesReader :=
  .new ⟨[.data 49 (ascii ";ext=aaaaaaaaaaaa"), .pending, .data 97 (ascii "aaaaaaaaaaaaaaaaa")]⟩

/-- Limits of 24 and 16 bytes end them. -/
theorem boundedBuffering_endless :
    (∃ n, (endlessHead.head reference 24).1 = .err (.maxHeadLenExceeded n 24)) ∧
    ChunkedBodyReader.Rejects reference 4160 (fun e => e = .chunkHeaderTooLong 16)
      (.new endlessLine ⟨4⟩ 16 64) := by
  obtain ⟨hrequest, -, hchunks⟩ :=
    boundedBuffering requestLaws responseHeadLaws chunkSizeLaws fieldSectionLaws
  constructor
  · obtain ⟨e, s, d, hread, -, -, herr⟩ := (hrequest endlessHead 24).rejects rfl
    have he := herr (by decide +kernel)
    refine ⟨s.len, ?_⟩
    rw [Frontend.FrontendReader.head, hread, he]
    rfl
  · obtain ⟨e, s, d, hread, hpoll, hio, hroom, herr⟩ := (hchunks ⟨4⟩ 16 64 endlessLine).line
      (.new endlessLine ⟨4⟩ 16 64) .refl rfl rfl
    exact ⟨e, s, d, hread, hpoll, hio, hroom, herr.mpr (by decide +kernel)⟩

end Jrpxy.Proxy
