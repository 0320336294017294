import EngSocket.Connection.Update

/-!
# Script objects and the whole process

A script holds `CLuaMsg` objects and calls them and any number of connection
managers, one call at a time. `World.machine` takes the script's calls and the
answers of the operating system; an event at which the program would crash is
refused, so that its runs are the ones that do not crash.

A holder of a message carries the message itself in place of the pointer to it.
That no two holders ever have the same address is
`EngSocket.World.ownership`.
-/

namespace EngSocket

open Foundation

structure CLuaMsg where
  m_pMsg : Option NetMessage

/-- `CLuaMsg::CLuaMsg`. -/
def CLuaMsg.new : CLuaMsg := { m_pMsg := none }

/-- A process with its managers and script objects. -/
structure World where
  process : Process
  managers : List CConnectionManager
  /-- The `CLuaMsg` objects by number, with none in place of one that the
  garbage collector has destroyed. -/
  luaMsgs : List (Option CLuaMsg)
  /-- The manager that is in the middle of an `Update`. -/
  busy : Option (Nat × Point)

/-- A host name, up to its terminating zero, that `m_server` has no room for. -/
abbrev OverlongName := { name : String // 128 ≤ name.utf8ByteSize }

inductive WorldEvent
  | newManager
  | newLuaMsg
  /-- `gc_T` destroys a `CLuaMsg`. -/
  | gcLuaMsg (lua : Nat)
  | CreateNewMessage (lua : Nat)
  | LoadMsg (lua manager : Nat)
  | SendMsg (lua manager : Nat)
  | BeginForWrite (lua : Nat)
  | WriteRaw (lua : Nat) (buf : List UInt8)
  | EndForWrite (lua : Nat)
  | GetSize (lua : Nat)
  | ReadRaw (lua : Nat) (size : Int)
  /-- A `Connect` of which `DoConnect` copies the host name beyond the end of
  `m_server`. -/
  | overlongConnect (manager : Nat) (addr : OverlongName)
  /-- `SocketObject::Restart`. -/
  | Restart (manager : Nat)
  /-- A call on a manager, or the answer to a call of its `Update`. -/
  | manager (manager : Nat) (event : Event)

namespace World

/-- A process that has done nothing yet. -/
def initial (grants : Nat → Bool) (junk : Nat → Memory UInt8) : World where
  process := .initial grants junk
  managers := []
  luaMsgs := []
  busy := none

/-- The `CLuaMsg` of a number, unless it has been destroyed. -/
def luaMsg (world : World) (lua : Nat) : Option CLuaMsg := (world.luaMsgs[lua]?).join

/-- The message of a `CLuaMsg`; none for the null pointer. -/
def message (world : World) (lua : Nat) : Option NetMessage :=
  (world.luaMsg lua).bind CLuaMsg.m_pMsg

def setMessage (lua : Nat) (message : Option NetMessage) (world : World) : World :=
  { world with luaMsgs := world.luaMsgs.set lua (some { m_pMsg := message }) }

/-- Store a manager back with what a call on it has left. -/
def settle (manager : Nat) (control : Control) (world : World) : Option World :=
  match control with
  | .idle endpoint =>
      some { world with
        process := endpoint.process
        managers := world.managers.set manager endpoint.manager
        busy := none }
  | .waiting point endpoint =>
      some { world with
        process := endpoint.process
        managers := world.managers.set manager endpoint.manager
        busy := some (manager, point) }
  | .aborted _ _ => none

/-- Where a manager stands, unless another one is in the middle of an `Update`. -/
def control (manager : Nat) (endpoint : Endpoint) (world : World) : Option Control :=
  match world.busy with
  | none => some (.idle endpoint)
  | some (running, point) => if running = manager then some (.waiting point endpoint) else none

/-- A call on a manager, or an answer to its `Update`. -/
def manage (manager : Nat) (event : Event) (world : World) : Option World :=
  if event.ofManager then do
    let current ← world.managers[manager]?
    let control ← world.control manager { process := world.process, manager := current }
    let control ← Endpoint.machine.step control event
    world.settle manager control
  else none

/-- `CLuaMsg::CreateNewMessage`. -/
def CreateNewMessage (lua : Nat) (world : World) : Option World := do
  let _ ← world.luaMsg lua
  let (message, process) := NetMessage.new 512 world.process
  return { world with process }.setMessage lua (some message)

/-- `CLuaMsg::LoadMsg`. -/
def LoadMsg (lua manager : Nat) (world : World) : Option World := do
  let _ ← world.luaMsg lua
  let current ← world.managers[manager]?
  let endpoint : Endpoint := { process := world.process, manager := current }
  let (message, endpoint) ← endpoint.LoadMsg.toOption
  let world := { world with managers := world.managers.set manager endpoint.manager }
  return world.setMessage lua (some message)

/-- `CLuaMsg::SendMsg`. -/
def SendMsg (lua manager : Nat) (world : World) : Option World := do
  let message ← world.message lua
  let current ← world.managers[manager]?
  let endpoint : Endpoint := { process := world.process, manager := current }
  let world :=
    { world with managers := world.managers.set manager (endpoint.SendMsg message).manager }
  return world.setMessage lua none

/-- A method that touches nothing but its message. -/
def onlyMessage (method : NetMessage → NetMessage) (message : NetMessage) (process : Process) :
    Except Abort (NetMessage × Process) := .ok (method message, process)

/-- A method of `NetMessage` called through a `CLuaMsg`. -/
def onMessage (lua : Nat) (method : NetMessage → Process → Except Abort (NetMessage × Process))
    (world : World) : Option World := do
  let message ← world.message lua
  let (message, process) ← (method message world.process).toOption
  return { world with process }.setMessage lua (some message)

/-- `CLuaMsg::WriteRaw`. The cast `(int)size` keeps the low 32 bits of the length;
what it makes negative is a `memcpy` that no buffer has room for. -/
def WriteRaw (lua : Nat) (buf : List UInt8) (world : World) : Option World :=
  world.onMessage lua fun message process =>
    message.wRaw (buf.take (buf.length % 4294967296)) process

/-- `CLuaMsg::ReadRaw`. A negative size is one of nearly `2 ^ 64` bytes to
`lua_pushlstring`, which reads all over the memory to hash them. -/
def ReadRaw (lua : Nat) (size : Int) (world : World) : Option World :=
  if 0 ≤ size then world.onMessage lua (onlyMessage fun message => (message.rRaw size).2)
  else none

/-- `CLuaMsg::~CLuaMsg`. -/
def gcLuaMsg (lua : Nat) (world : World) : Option World := do
  let luaMsg ← world.luaMsg lua
  let process :=
    match luaMsg.m_pMsg with
    | some message => message.delete world.process
    | none => world.process
  return { world with process, luaMsgs := world.luaMsgs.set lua none }

/-- `SocketObject::Restart`: the destructor of the manager runs `Close` and
`ClearCached`, and a new manager takes its place. -/
def Restart (manager : Nat) (world : World) : Option World := do
  let current ← world.managers[manager]?
  let endpoint : Endpoint := { process := world.process, manager := current }
  return { world with
    process := endpoint.Close.ClearCached.process
    managers := world.managers.set manager CConnectionManager.new }

/-- What the script does while no `Update` is in progress. -/
def script (world : World) : WorldEvent → Option World
  | .newManager => some { world with managers := world.managers ++ [CConnectionManager.new] }
  | .newLuaMsg => some { world with luaMsgs := world.luaMsgs ++ [some CLuaMsg.new] }
  | .gcLuaMsg lua => world.gcLuaMsg lua
  | .CreateNewMessage lua => world.CreateNewMessage lua
  | .LoadMsg lua manager => world.LoadMsg lua manager
  | .SendMsg lua manager => world.SendMsg lua manager
  | .BeginForWrite lua => world.onMessage lua (onlyMessage NetMessage.beginForWrite)
  | .WriteRaw lua buf => world.WriteRaw lua buf
  | .EndForWrite lua => world.onMessage lua fun message process => message.endForWrite process
  | .GetSize lua => world.onMessage lua (onlyMessage id)
  | .ReadRaw lua size => world.ReadRaw lua size
  | .overlongConnect _ _ => none
  | .Restart manager => world.Restart manager
  | .manager _ _ => none

/-- The process as a machine. -/
def machine : Machine World WorldEvent where
  step world event :=
    match event with
    | .manager manager event => world.manage manager event
    | event => if world.busy.isNone then world.script event else none

/-- A `ReadRaw` that goes through is one of a size that is not negative. -/
theorem ReadRaw_cases {world next : World} {lua : Nat} {size : Int}
    (done : world.ReadRaw lua size = some next) :
    0 ≤ size ∧
      world.onMessage lua (onlyMessage fun message => (message.rRaw size).2) = some next := by
  unfold World.ReadRaw at done
  split at done
  · next nonnegative => exact ⟨nonnegative, done⟩
  · cases done

end World

end EngSocket
