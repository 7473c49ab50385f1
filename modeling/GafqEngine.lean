import GafqEngine.Transition.Run
import GafqEngine.CLib.Integer
import GafqEngine.CLib.Buffer
import GafqEngine.CLib.Text
import GafqEngine.Framing.Codec
import GafqEngine.SocketMsg.Basic
import GafqEngine.SocketMsg.Operations
import GafqEngine.SocketMsg.Frame
import GafqEngine.SocketMsg.ReadLoop
import GafqEngine.SocketMsg.RoundTrip
import GafqEngine.SocketMsg.Report
import GafqEngine.Gafq.Value
import GafqEngine.ScriptEngine.Basic
import GafqEngine.ScriptEngine.Handover
import GafqEngine.ScriptEngine.Service
import GafqEngine.ScriptEngine.Stack
import GafqEngine.SendData.Basic
import GafqEngine.SendData.Outbound
import GafqEngine.Kernel.Socket
import GafqEngine.Kernel.Descriptors
import GafqEngine.Kernel.LifeCycle
import GafqEngine.EpollLoop.Basic
import GafqEngine.EpollLoop.Inbound
import GafqEngine.EpollLoop.Buffer
import GafqEngine.EpollLoop.Isolation
import GafqEngine.EpollLoop.Headers
import GafqEngine.EpollLoop.LifeCycle
import GafqEngine.Script.Basic
import GafqEngine.Script.Execute
import GafqEngine.Script.Host
import GafqEngine.Script.Relay
import GafqEngine.Script.Reload
import GafqEngine.Script.SendArguments
import GafqEngine.Server.Basic
import GafqEngine.Server.Identity
import GafqEngine.Server.Survival
import GafqEngine.WritePump.Basic
import GafqEngine.WritePump.Order
import GafqEngine.ChatClient.Input
import GafqEngine.ChatClient.Delivery
import GafqEngine.Scan.Cursor
import GafqEngine.Gafq.Table
import GafqEngine.Json.Decode
import GafqEngine.Json.Text
import GafqEngine.Json.Steps
import GafqEngine.Scan.Classes
import GafqEngine.Json.Escapes
import GafqEngine.Json.Sound
import GafqEngine.Json.Complete
import GafqEngine.Json.Utf8
import GafqEngine.Json.Errors
import GafqEngine.Json.Unicode
import GafqEngine.Json.Encode
import GafqEngine.Json.Writing
import GafqEngine.Json.RoundTrip
import GafqEngine.Json.Fields
import GafqEngine.Json.Normal
import GafqEngine.Script.Documents
import GafqEngine.Script.Statuses
import GafqEngine.Transition.Eventually
import GafqEngine.EpollLoop.Arrival
import GafqEngine.Server.Accounting
import GafqEngine.Server.Draining
import GafqEngine.Server.Network
import GafqEngine.Connection.Basic
import GafqEngine.Connection.Shutdown
import GafqEngine.Server.Chat
