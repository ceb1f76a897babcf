import WsGateway.Lib.Runs
import WsGateway.Lib.Simulation
import WsGateway.Lib.Views
import WsGateway.Lib.SpinLock
import WsGateway.Lib.CallService
import WsGateway.Lib.Lists
import WsGateway.Lib.Bytes
import WsGateway.Lib.Cql
import WsGateway.Lib.Stream
import WsGateway.Lib.Fields
import WsGateway.Lib.HeaderText
import WsGateway.Lib.Chunked
import WsGateway.Lib.Interleave
import WsGateway.Lib.Progressions
import WsGateway.Registry.Component
import WsGateway.Registry.Callbacks
import WsGateway.Registry.LiveSockets
import WsGateway.Registry.SharedTable
import WsGateway.Registry.Calls
import WsGateway.Registry.HalfSteps
import WsGateway.Registry.FailedWrites
import WsGateway.Registry.ClientIds
import WsGateway.Registry.MapLock
import WsGateway.Registry.Fleet
import WsGateway.Startup.Split
import WsGateway.Startup.Ipv4
import WsGateway.Startup.Settings
import WsGateway.Startup.ListeningPorts
import WsGateway.Scylla.Statements
import WsGateway.Scylla.HostView
import WsGateway.Scylla.TextWrites
import WsGateway.Scylla.DatabasePort
import WsGateway.Scylla.NodePorts
import WsGateway.Http.Parser
import WsGateway.Http.Scan
import WsGateway.Http.Safety
import WsGateway.Http.Rendering
import WsGateway.Http.Boundary
import WsGateway.Http.LineEnds
import WsGateway.Http.OptionalWhitespace
import WsGateway.Http.HeaderLines
import WsGateway.Http.Client
import WsGateway.Http.Identity
import WsGateway.Http.Framing
import WsGateway.Http.Splitting
import WsGateway.Http.IterationOrder
import WsGateway.Http.Forwarding
import WsGateway.Http.Response
import WsGateway.Http.Decoding
import WsGateway.Http.AnswerFraming
import WsGateway.Session.Coroutine
import WsGateway.Session.Sockets
import WsGateway.Session.Answers
import WsGateway.Session.Service
import WsGateway.Session.Order
import WsGateway.Session.Frames
import WsGateway.Session.Reassembly
import WsGateway.Session.BackendPorts
import WsGateway.Session.Completion
import WsGateway.Session.Isolation
import WsGateway.App.Server
import WsGateway.App.Delivery
