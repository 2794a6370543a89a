import KwinApi.Lib.Region
import KwinApi.Lib.Ring
import KwinApi.Lib.ByteOrder
import KwinApi.Lib.Framing
import KwinApi.Proto.Protocol
import KwinApi.Proto.TxBuffer
import KwinApi.Proto.RxBuffer
import KwinApi.Proto.Client
import KwinApi.Proto.Decoder
import KwinApi.Proto.Reader
import KwinApi.Daemon.Poll
import KwinApi.Daemon.Config
import KwinApi.Daemon.Session
import KwinApi.Daemon.DaemonObject
import KwinApi.Daemon.PollProtocol
import KwinApi.Daemon.Backpressure
import KwinApi.Lib.Claims
import KwinApi.Lib.Watches
import KwinApi.Script.KWin
import KwinApi.Script.Jsonrpc
import KwinApi.Script.TokenTable
import KwinApi.Script.Script
import KwinApi.Script.Registry
import KwinApi.Script.Ownership
import KwinApi.Script.Transition
import KwinApi.Script.Lifecycle
import KwinApi.Script.Connections
import KwinApi.Script.WindowWatch
import KwinApi.Script.Loops
import KwinApi.Daemon.Interest
import KwinApi.Lib.Json
import KwinApi.Lib.JsonParse
import KwinApi.Proto.Splice
import KwinApi.Relay.Batch
import KwinApi.Daemon.FileUtil
import KwinApi.Native.Host
import KwinApi.Proto.Ample
import KwinApi.Relay.Bridge
import KwinApi.Script.Update
import KwinApi.Daemon.Server
import KwinApi.Daemon.Teardown
import KwinApi.Relay.Handover
import KwinApi.Daemon.Names
import KwinApi.Daemon.Settings
import KwinApi.Daemon.JsonString
import KwinApi.Daemon.DbusService
import KwinApi.Lib.EarlyReturn
import KwinApi.Daemon.KwinClient
import KwinApi.Daemon.Listener
import KwinApi.Daemon.Main
import KwinApi.Daemon.Shutdown
import KwinApi.Daemon.Outbound
import KwinApi.Lib.Caller
import KwinApi.Relay.Control
import KwinApi.Relay.Delivery
import KwinApi.Relay.Refusal
import KwinApi.Daemon.Isolation
import KwinApi.Lib.Mirror
import KwinApi.Script.Mirror
import KwinApi.Script.WorkspaceWatch
import KwinApi.Daemon.SocketServer
import KwinApi.Relay.Conversation
import KwinApi.Daemon.Intake
import KwinApi.Lib.Fair
import KwinApi.Relay.Alive
import KwinApi.Relay.Progress
import KwinApi.Relay.Convergence
