import Nghttp2Corosio.Stream.BodyEnd
import Nghttp2Corosio.Stream.Producer
import Nghttp2Corosio.Stream.EmptyBuffers
import Nghttp2Corosio.Stream.Overtaking
import Nghttp2Corosio.Stream.HeadInvariant
import Nghttp2Corosio.Session.SendLoop
import Nghttp2Corosio.Session.Teardown
import Nghttp2Corosio.Session.Credit
import Nghttp2Corosio.Stream.EndOfBody
import Nghttp2Corosio.Session.EndOfBody
import Nghttp2Corosio.Session.Transmit
import Nghttp2Corosio.Stream.HeaderBlocks
import Nghttp2Corosio.Session.Message
import Nghttp2Corosio.Session.HeaderCapture
import Nghttp2Corosio.Session.Isolation
import Nghttp2Corosio.Handler.Echo
import Nghttp2Corosio.Handler.EchoInvariant
import Nghttp2Corosio.Runs.Pool
import Nghttp2Corosio.Server.Tasks
import Nghttp2Corosio.Server.Drain
import Nghttp2Corosio.Server.Control
import Nghttp2Corosio.Handler.ExchangeInvariant
import Nghttp2Corosio.Handler.Backpressure
import Nghttp2Corosio.Handler.Quiescence
import Nghttp2Corosio.Stream.Effort
import Nghttp2Corosio.Handler.Liveness
import Nghttp2Corosio.Handler.ExchangeHead
import Nghttp2Corosio.Connection.RoundTrip
import Nghttp2Corosio.Connection.Sharing
import Nghttp2Corosio.Session.Ownership
import Nghttp2Corosio.Session.Ownership
import Nghttp2Corosio.Connection.RoundTrip
import Nghttp2Corosio.Connection.Sharing
