import EngSocket.Foundation.Machine
import EngSocket.Foundation.Memory
import EngSocket.Foundation.BigEndian
import EngSocket.Foundation.Decoder
import EngSocket.Foundation.Outbox
import EngSocket.Foundation.Ledger
import EngSocket.Foundation.FirstFit
import EngSocket.Foundation.Simulation
import EngSocket.Foundation.Mailbox
import EngSocket.Foundation.Progress
import EngSocket.Foundation.Peak
import EngSocket.Foundation.OrderedMap
import EngSocket.Foundation.Purge
import EngSocket.Foundation.Lifetime
import EngSocket.Message.Buffer
import EngSocket.Message.NetMessage
import EngSocket.Message.Writing
import EngSocket.Message.Typed
import EngSocket.Message.Custody
import EngSocket.Message.Growth
import EngSocket.Message.Pool
import EngSocket.Connection.Manager
import EngSocket.Connection.Update
import EngSocket.Connection.Effects
import EngSocket.Connection.Moves
import EngSocket.Connection.Soundness
import EngSocket.Connection.Lifecycle
import EngSocket.Connection.Safety
import EngSocket.Connection.Holdings
import EngSocket.Connection.Dialling
import EngSocket.Connection.Timeout
import EngSocket.Connection.Encryption
import EngSocket.Wire.Frame
import EngSocket.Reception.Message
import EngSocket.Reception.Link
import EngSocket.Reception.Splitting
import EngSocket.Reception.Window
import EngSocket.Reception.RoundTrip
import EngSocket.Reception.Delivery
import EngSocket.Reception.Shape
import EngSocket.Reception.Sessions
import EngSocket.Reception.Announced
import EngSocket.Reception.Asking
import EngSocket.Reception.Crashes
import EngSocket.Transmission.Queue
import EngSocket.Transmission.Blocking
import EngSocket.Transmission.Integrity
import EngSocket.Transmission.Relay
import EngSocket.Transmission.Ending
import EngSocket.Transmission.Uniform
import EngSocket.Script.World
import EngSocket.Script.Ownership
import EngSocket.Script.Leaks
import EngSocket.Script.Sending
import EngSocket.Script.Reading
import EngSocket.Script.Encryption
import EngSocket.Script.Soundness
import EngSocket.Script.Crashes
import EngSocket.Script.Bounds
import EngSocket.Script.Recycling
import EngSocket.Script.Sockets
import EngSocket.Script.Registry
import EngSocket.Script.Naming
import EngSocket.Network.Session
import EngSocket.Network.Mailboxes
import EngSocket.Network.Progress
import EngSocket.Lua.State
import EngSocket.Lua.Rules
import EngSocket.Binding.LuaPlus
import EngSocket.Binding.Push
import EngSocket.Binding.Register
import EngSocket.Binding.Heap
import EngSocket.Binding.Names
import EngSocket.Binding.Calls
import EngSocket.Binding.Objects
import EngSocket.Binding.Owners
import EngSocket.Binding.Lifetimes
import EngSocket.Binding.Sockets
