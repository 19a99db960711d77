import Jrpxy.Lib.Polled
import Jrpxy.Lib.StreamParser
import Jrpxy.Lib.Utf8
import Jrpxy.Lib.ChunkedCoding
import Jrpxy.Lib.Ascii
import Jrpxy.Util.Parse
import Jrpxy.Lib.PrefixCode
import Jrpxy.Util.OriginForm
import Jrpxy.Util.Io
import Jrpxy.Util.IoBuffer
import Jrpxy.Util.Fifo
import Jrpxy.HttpMessage.Framing
import Jrpxy.HttpMessage.Header
import Jrpxy.Httparse
import Jrpxy.Httparse.Reference
import Jrpxy.HttpMessage.ResponseHead
import Jrpxy.HttpMessage.Message
import Jrpxy.Lib.PullStream
import Jrpxy.Body.Error
import Jrpxy.Body.Reader
import Jrpxy.Body.Reader.Chunked
import Jrpxy.Body.Writer
import Jrpxy.Body.Writer.Plain
import Jrpxy.Body.Writer.Chunked
import Jrpxy.Body.Coding
import Jrpxy.Body.Reader.Unifier
import Jrpxy.HttpMessage.ReadHead
import Jrpxy.Backend.Reader
import Jrpxy.Frontend.Reader
import Jrpxy.Proxy.Pipelining
import Jrpxy.Lib.Relay
import Jrpxy.Lib.Relay.Runs
import Jrpxy.Body.Writer.Unifier
import Jrpxy.HttpMessage.WriteHead
import Jrpxy.Backend.Writer
import Jrpxy.Frontend.Writer
import Jrpxy.Proxy.Error
import Jrpxy.Proxy.HopByHop
import Jrpxy.Proxy.Body
import Jrpxy.Proxy.Forwarding
import Jrpxy.HttpMessage.ConnectionOptions
import Jrpxy.HttpMessage.FramingRule
import Jrpxy.Proxy.RequestTarget
import Jrpxy.Proxy.Options
import Jrpxy.Proxy.Request
import Jrpxy.Proxy.Response
import Jrpxy.Proxy.Rewriting
import Jrpxy.Lib.HttpHead
import Jrpxy.HttpMessage.HeadGrammar
import Jrpxy.Backend.WrittenHead
import Jrpxy.HttpMessage.Builder
import Jrpxy.Backend.BuiltHead
import Jrpxy.Frontend.WrittenHead
import Jrpxy.HttpMessage.HeadLimit
import Jrpxy.Proxy.HeadLimit
import Jrpxy.Body.ChunkLimits
import Jrpxy.Body.Writer.Guards
import Jrpxy.Body.Writer.Calls
import Jrpxy.HttpMessage.BodyLength
import Jrpxy.Proxy.Exchange
import Jrpxy.Proxy.ResponseFraming
import Jrpxy.Backend.Stream
import Jrpxy.Proxy.Interim
import Jrpxy.Frontend.Stream
import Jrpxy.Body.Extent
import Jrpxy.Lib.Relay.Kept
import Jrpxy.Proxy.HandBack
import Jrpxy.Proxy.Outcome
import Jrpxy.Proxy.Reuse
import Jrpxy.Proxy.OneRequest
import Jrpxy.Proxy.Trailers
import Jrpxy.Lib.Scan
import Jrpxy.Proxy.Normalizing
import Jrpxy.Lib.PullStream.Contract
import Jrpxy.Body.Reader.Contract
import Jrpxy.Body.Reader.Drained
import Jrpxy.Body.Writer.Budgets
import Jrpxy.Proxy.Representation
import Jrpxy.Lib.Relay.Concluding
import Jrpxy.Body.Reader.Concluding
import Jrpxy.Proxy.Termination
import Jrpxy.Lib.BlockWriter.Stall
import Jrpxy.Lib.Relay.Stalled
import Jrpxy.Body.Writer.Stalled
import Jrpxy.Proxy.Stall
import Jrpxy.Util.Buffering
import Jrpxy.HttpMessage.HeadBuffering
import Jrpxy.Body.Buffering
import Jrpxy.Proxy.Buffering
import Jrpxy.Lib.Cursor
import Jrpxy.Body.Writer.ChunkHeader
import Jrpxy.Lib.Relay.Owing
import Jrpxy.Proxy.Completion
import Jrpxy.Lib.Lending
import Jrpxy.Body.Content
import Jrpxy.Proxy.Transcript
import Jrpxy.Proxy.Refusal
import Jrpxy.Proxy.Session
import Jrpxy.Httparse.WrittenResponse
import Jrpxy.Proxy.Messages
import Jrpxy.Proxy.Progress
import Jrpxy.Proxy.Chain
import Jrpxy.Proxy.Hops
import Jrpxy.Lib.Relay.Held
import Jrpxy.Proxy.FlowControl
import Jrpxy.Proxy.Retry
import Jrpxy.Proxy.ResponseHops
