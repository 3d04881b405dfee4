import EchoStream.Foundation.Run
import EchoStream.Foundation.Trace
import EchoStream.Foundation.Tasks
import EchoStream.Foundation.Lockstep
import EchoStream.Foundation.Formats
import EchoStream.Proto.Messages
import EchoStream.Proto.Postcard
import EchoStream.Proto.Endpoint
import EchoStream.Core.Handler
import EchoStream.Core.Chain
import EchoStream.Core.Dispatch
import EchoStream.Core.Request
import EchoStream.Core.RpcChannel
import EchoStream.Core.RpcPending
import EchoStream.Transport.Ws
import EchoStream.Core.EventChannel
import EchoStream.Core.NestedCalls
import EchoStream.Plugins.Auth
import EchoStream.Core.Lifecycle
import EchoStream.Core.Pick
import EchoStream.Plugins.Reconnect
import EchoStream.Core.Broadcast
import EchoStream.Core.SessionHooks
import EchoStream.Core.InboundStreams
import EchoStream.Core.Stream
import EchoStream.Core.StateMachine
import EchoStream.Core.Connection
import EchoStream.Core.StreamTrip
import EchoStream.Core.AcceptLoop
import EchoStream.Transport.WsStreams
import EchoStream.Transport.WsRouting
import EchoStream.Transport.WsStreamEnds
import EchoStream.Transport.WsStreamFrames
import EchoStream.Core.ChannelSwitch
import EchoStream.Core.OutboundStreams
import EchoStream.Transport.WsFrames
import EchoStream.Web.Handle
import EchoStream.Web.FrameReader
import EchoStream.Web.Receive
import EchoStream.Web.Operations
import EchoStream.Web.OnRpc
import EchoStream.Web.StreamReceiver
import EchoStream.Web.ChannelPeers
import EchoStream.Transport.WsStreamWhole
import EchoStream.Web.StreamOut
import EchoStream.Core.ServerHooks
import EchoStream.Core.Shutdown
import EchoStream.Plugins.Heartbeat
import EchoStream.Plugins.HeartbeatSweep
import EchoStream.Foundation.Reading
import EchoStream.Foundation.Zigzag
import EchoStream.Foundation.Float64
import EchoStream.Foundation.Utf8
import EchoStream.Proto.Payload
import EchoStream.Proto.DynamicCodec
import EchoStream.Proto.DynamicLimits
import EchoStream.Proto.DynamicWidths
import EchoStream.Bindings.JsValues
import EchoStream.Bindings.NodeCodec
import EchoStream.Bindings.PythonCodec
import EchoStream.Bindings.WasmCodec
import EchoStream.Bindings.Encoders
import EchoStream.Bindings.Lists
import EchoStream.Bindings.Arguments
import EchoStream.Bindings.Values
import EchoStream.Bindings.RustPython
import EchoStream.Bindings.PythonNode
import EchoStream.Bindings.Agreement
import EchoStream.Bindings.EncodeValues
import EchoStream.Bindings.EncodeSchemas
import EchoStream.Proto.Reencoding
import EchoStream.Proto.SingleValues
import EchoStream.Proto.ListLimits
import EchoStream.Proto.FrameReads
import EchoStream.Foundation.Decimal
import EchoStream.Proto.Metadata
import EchoStream.Extensions.Av
import EchoStream.Extensions.File
import EchoStream.Extensions.FileTrip
import EchoStream.Plugins.Metrics
import EchoStream.Middlewares.Transform
import EchoStream.Core.Registry
import EchoStream.Core.RegistryRaces
import EchoStream.Core.Listeners
import EchoStream.Web.Unregister
import EchoStream.Core.RecvFrames
import EchoStream.Foundation.MarkedTasks
import EchoStream.Core.ChainOrder
import EchoStream.Middlewares.Answers
import EchoStream.Extensions.AvTrip
import EchoStream.Extensions.FileDest
import EchoStream.Plugins.HeartbeatClient
import EchoStream.Bindings.StreamMetadata
import EchoStream.Bindings.MessageBridge
import EchoStream.Plugins.Retry
import EchoStream.Proto.ExactVarints
import EchoStream.Core.Sessions
import EchoStream.Foundation.Queues
import EchoStream.Transport.WsLink
import EchoStream.Core.MuxedTrip
import EchoStream.Transport.WsPush
import EchoStream.Transport.WsCalls
import EchoStream.Bindings.WasmSchemas
import EchoStream.Bindings.NodeHandlers
import EchoStream.Bindings.LanguageTrip
import EchoStream.Derive.Expand
import EchoStream.Plugins.MetricsRaces
import EchoStream.Bindings.PythonCalls
import EchoStream.Foundation.Lossy
import EchoStream.Core.Datagrams
