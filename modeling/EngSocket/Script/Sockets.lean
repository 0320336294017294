import EngSocket.Foundation.OrderedMap
import EngSocket.Foundation.Simulation
import EngSocket.Script.World
import Mathlib.Data.Nat.Basic

/-!
# Socket objects

A script does not name a manager. It calls methods of `SocketObject`s, global
functions, which are for the object with the name `defaultSocket`, and the methods of
`CLuaMsg` that look an object up by its name. An object makes its manager the first
time it is called, and leaves it behind, closed and cleared, when it is collected.

`Program.machine` is the process with its objects. Each of its steps is a run of
`World.machine` (`EngSocket.Program.refines`).
-/

namespace EngSocket

open Foundation

/-- A `SocketObject`, with the number of its manager in place of the pointer to it. -/
structure SocketObject where
  m_socketObjectName : String
  m_pConnectionMgr : Option Nat
  deriving DecidableEq, Repr

/-- `SocketObject::SocketObject`. -/
def SocketObject.new (instClassName : String) : SocketObject where
  m_socketObjectName := instClassName
  m_pConnectionMgr := none

/-- A process and its socket objects. `s_objList` is a set of pointers, which is
searched in the order of the addresses. -/
structure Program where
  world : World
  s_objList : OrderedMap Nat SocketObject

/-- What a script calls on a `SocketObject`. The options that `KeepAlived` sets are
the operating system's. -/
inductive SocketCall
  | HasPendingMsg
  | CloseConnection
  | ConnectToServer (addr : ServerName) (port : Int) (dial : Dial)
  | KeepAlived
  | InitPike
  | ReConnectToServer (dial : Dial)
  | UpdateNetMsg (dt : Int)

/-- The call on the manager, unless nothing changes there. -/
def SocketCall.event : SocketCall → Option Event
  | .HasPendingMsg | .KeepAlived => none
  | .CloseConnection => some .CloseConnection
  | .ConnectToServer addr port dial => some (.Connect addr port dial)
  | .InitPike => some .InitEncrypt
  | .ReConnectToServer dial => some (.ReConnect dial)
  | .UpdateNetMsg dt => some (.Update dt)

/-- What a script does to a `CLuaMsg` without a socket. -/
def WorldEvent.ofLuaMsg : WorldEvent → Bool
  | .newLuaMsg | .gcLuaMsg _ | .CreateNewMessage _ | .BeginForWrite _ | .WriteRaw _ _
  | .EndForWrite _ | .GetSize _ | .ReadRaw _ _ => true
  | .newManager | .LoadMsg _ _ | .SendMsg _ _ | .overlongConnect _ _ | .Restart _
  | .manager _ _ => false

inductive ProgramEvent
  /-- The allocator places a new object. -/
  | newSocket (address : Nat) (instClassName : String)
  /-- `gc_T` destroys a `SocketObject`. -/
  | gcSocket (address : Nat)
  | Restart (address : Nat)
  | method (address : Nat) (call : SocketCall)
  /-- The function of the same name in `socketext`. -/
  | global (call : SocketCall)
  /-- With a name if the script gives one. -/
  | LoadMsg (lua : Nat) (socketname : Option String)
  | SendMsg (lua : Nat) (socketname : Option String)
  | luaMsg (event : WorldEvent)
  /-- The operating system answers the `Update` in progress. -/
  | reply (reply : Reply)

namespace Program

def initial (grants : Nat → Bool) (junk : Nat → Memory UInt8) : Program where
  world := .initial grants junk
  s_objList := .empty

def GetSocketByName (socketname : String) (program : Program) : Option (Nat × SocketObject) :=
  program.s_objList.first fun object => object.m_socketObjectName = socketname

def GetDefaultSocket (program : Program) : Option (Nat × SocketObject) :=
  program.GetSocketByName "defaultSocket"

/-- The object that `LoadMsg` and `SendMsg` are for. -/
def socket (socketname : Option String) (program : Program) : Option (Nat × SocketObject) :=
  match socketname with
  | none => program.GetDefaultSocket
  | some socketname => program.GetSocketByName socketname

/-- The manager of an object. -/
def managerOf (address : Nat) (program : Program) : Option Nat :=
  (program.s_objList.get address).bind SocketObject.m_pConnectionMgr

/-- `SocketObject::GetConnection`, which makes the manager if there is none yet. -/
def GetConnection (address : Nat) (program : Program) : Option (Nat × Program) := do
  let object ← program.s_objList.get address
  match object.m_pConnectionMgr with
  | some manager => return (manager, program)
  | none =>
      let manager := program.world.managers.length
      let world :=
        { program.world with managers := program.world.managers ++ [CConnectionManager.new] }
      let object := { object with m_pConnectionMgr := some manager }
      return (manager, { world, s_objList := program.s_objList.put address object })

/-- A call on the manager of an object. -/
def onSocket (address : Nat) (call : Nat → World → Option World) (program : Program) :
    Option Program := do
  let (manager, program) ← program.GetConnection address
  let world ← call manager program.world
  return { program with world }

/-- `SocketObject::SocketObject` at an address that is not in use. -/
def newSocket (address : Nat) (instClassName : String) (program : Program) : Option Program :=
  if (program.s_objList.get address).isNone then
    some { program with
      s_objList := program.s_objList.put address (SocketObject.new instClassName) }
  else none

/-- `Close` and `ClearCached` on a manager, if there is one. -/
def closing : Option Nat → World → Option World
  | some manager, world => world.manage manager .CloseConnection
  | none, world => some world

/-- `SocketObject::~SocketObject`. The manager is closed and cleared but not deleted. -/
def gcSocket (address : Nat) (program : Program) : Option Program := do
  let object ← program.s_objList.get address
  let world ← closing object.m_pConnectionMgr program.world
  return { world, s_objList := program.s_objList.erase address }

/-- `SocketObject::Restart`. The new manager has the number of the deleted one. -/
def Restart (address : Nat) (program : Program) : Option Program := do
  let object ← program.s_objList.get address
  match object.m_pConnectionMgr with
  | some _ => program.onSocket address World.Restart
  | none => program.onSocket address fun _ world => some world

/-- A method of `SocketObject`, from the manager on. -/
def calling (call : SocketCall) (manager : Nat) (world : World) : Option World :=
  match call.event with
  | none => some world
  | some event => world.manage manager event

/-- What the script does while no `Update` is in progress. -/
def script (program : Program) : ProgramEvent → Option Program
  | .newSocket address instClassName => program.newSocket address instClassName
  | .gcSocket address => program.gcSocket address
  | .Restart address => program.Restart address
  | .method address call => program.onSocket address (calling call)
  | .global call => do
      let (address, _) ← program.GetDefaultSocket
      program.onSocket address (calling call)
  | .LoadMsg lua socketname => do
      let (address, _) ← program.socket socketname
      program.onSocket address (World.LoadMsg lua)
  | .SendMsg lua socketname => do
      let (address, _) ← program.socket socketname
      program.onSocket address (World.SendMsg lua)
  | .luaMsg event =>
      if event.ofLuaMsg then do
        let world ← program.world.script event
        return { program with world }
      else none
  | .reply _ => none

/-- The manager in the middle of an `Update` has its answer. -/
def answer (reply : Reply) (program : Program) : Option Program := do
  let (manager, _) ← program.world.busy
  let world ← program.world.manage manager (.reply reply)
  return { program with world }

/-- The process with its socket objects as a machine. -/
def machine : Machine Program ProgramEvent where
  step program event :=
    match event with
    | .reply reply => program.answer reply
    | event => if program.world.busy.isNone then program.script event else none

/-! ## Steps -/

/-- The object that an event is for. An answer is for the object whose manager waits. -/
def target (program : Program) : ProgramEvent → Option Nat
  | .newSocket address _ | .gcSocket address | .Restart address | .method address _ =>
      some address
  | .global _ => program.GetDefaultSocket.map Prod.fst
  | .LoadMsg _ socketname | .SendMsg _ socketname => (program.socket socketname).map Prod.fst
  | .luaMsg _ => none
  | .reply _ => program.world.busy.bind fun running =>
      (program.s_objList.first fun object => object.m_pConnectionMgr = some running.1).map Prod.fst

/-- What an event calls on the manager of an object. -/
def callOf (program : Program) : ProgramEvent → Nat → World → Option World
  | .Restart address =>
      if (program.managerOf address).isSome then World.Restart else fun _ world => some world
  | .method _ call | .global call => calling call
  | .LoadMsg lua _ => World.LoadMsg lua
  | .SendMsg lua _ => World.SendMsg lua
  | .newSocket _ _ | .gcSocket _ | .luaMsg _ | .reply _ => fun _ _ => none

/-- What a program can do. -/
inductive Step (program : Program) : ProgramEvent → Program → Prop
  | newSocket {address : Nat} {instClassName : String} (idle : program.world.busy = none)
      (fresh : program.s_objList.get address = none) :
      Step program (.newSocket address instClassName) { program with
        s_objList := program.s_objList.put address (SocketObject.new instClassName) }
  | gcSocket {address : Nat} {object : SocketObject} {world : World}
      (idle : program.world.busy = none) (here : program.s_objList.get address = some object)
      (closes : closing object.m_pConnectionMgr program.world = some world) :
      Step program (.gcSocket address) { world, s_objList := program.s_objList.erase address }
  | onSocket {event : ProgramEvent} {address : Nat} {next : Program}
      (idle : program.world.busy = none) (for_ : program.target event = some address)
      (called : program.onSocket address (program.callOf event) = some next) :
      Step program event next
  | luaMsg {event : WorldEvent} {world : World} (idle : program.world.busy = none)
      (own : event.ofLuaMsg = true) (done : program.world.script event = some world) :
      Step program (.luaMsg event) { program with world }
  | reply {reply : Reply} {manager : Nat} {point : Point} {world : World}
      (waits : program.world.busy = some (manager, point))
      (done : program.world.manage manager (.reply reply) = some world) :
      Step program (.reply reply) { program with world }

variable {program next : Program} {address : Nat}

/-- The manager of an object depends on its entry alone. -/
theorem managerOf_congr (same : next.s_objList.get address = program.s_objList.get address) :
    next.managerOf address = program.managerOf address := by
  rw [managerOf, same, managerOf]

/-- **What `GetConnection` returns**: the manager of the object, which is a new one if
there was none. -/
theorem GetConnection_cases {manager : Nat} {middle : Program}
    (connects : program.GetConnection address = some (manager, middle)) :
    middle.managerOf address = some manager ∧
      (∀ other ≠ address, middle.s_objList.get other = program.s_objList.get other) ∧
        (program.managerOf address = some manager ∧ middle = program ∨
          program.managerOf address = none ∧ manager = program.world.managers.length ∧
            middle.world = { program.world with
              managers := program.world.managers ++ [CConnectionManager.new] }) := by
  obtain ⟨object, here, connects⟩ := Option.bind_eq_some_iff.mp connects
  have has : program.managerOf address = object.m_pConnectionMgr := by
    rw [managerOf, here, Option.bind_some]
  cases connected : object.m_pConnectionMgr with
  | some number =>
      simp only [connected] at connects
      cases connects
      rw [connected] at has
      exact ⟨has, fun _ _ => rfl, Or.inl ⟨has, rfl⟩⟩
  | none =>
      simp only [connected] at connects
      cases connects
      rw [connected] at has
      refine ⟨?_, fun other apart => OrderedMap.get_put_of_ne apart _ _, Or.inr ⟨has, rfl, rfl⟩⟩
      rw [managerOf, OrderedMap.get_put_self, Option.bind_some]

/-- `GetConnection` begins no `Update`. -/
theorem GetConnection_busy {manager : Nat} {middle : Program}
    (connects : program.GetConnection address = some (manager, middle)) :
    middle.world.busy = program.world.busy := by
  obtain ⟨-, -, ⟨-, rfl⟩ | ⟨-, -, grown⟩⟩ := GetConnection_cases connects
  · rfl
  · rw [grown]

/-- A call on an object is a call on the manager that `GetConnection` returns. -/
theorem onSocket_cases {call : Nat → World → Option World}
    (done : program.onSocket address call = some next) :
    ∃ manager middle, program.GetConnection address = some (manager, middle) ∧
      ∃ world, call manager middle.world = some world ∧ next = { middle with world } := by
  obtain ⟨⟨manager, middle⟩, connects, done⟩ := Option.bind_eq_some_iff.mp done
  obtain ⟨world, called, done⟩ := Option.bind_eq_some_iff.mp done
  exact ⟨manager, middle, connects, world, called, (Option.some.inj done).symm⟩

theorem named_cases {found : Option (Nat × SocketObject)} {call : Nat → World → Option World}
    (done : (found.bind fun entry => program.onSocket entry.1 call) = some next) :
    ∃ address, found.map Prod.fst = some address ∧ program.onSocket address call = some next := by
  obtain ⟨entry, rfl, done⟩ := Option.bind_eq_some_iff.mp done
  exact ⟨entry.1, rfl, done⟩

/-- What the script does is a step. -/
theorem step_script {event : ProgramEvent} (idle : program.world.busy = none)
    (done : program.script event = some next) : program.Step event next := by
  cases event with
  | newSocket address instClassName =>
      change program.newSocket address instClassName = some next at done
      unfold Program.newSocket at done
      split at done
      · next fresh =>
          cases done
          exact .newSocket idle (Option.isNone_iff_eq_none.mp fresh)
      · cases done
  | gcSocket address =>
      obtain ⟨object, here, done⟩ := Option.bind_eq_some_iff.mp done
      obtain ⟨world, closes, done⟩ := Option.bind_eq_some_iff.mp done
      obtain rfl := Option.some.inj done
      exact .gcSocket idle here closes
  | Restart address =>
      obtain ⟨object, here, done⟩ := Option.bind_eq_some_iff.mp done
      refine .onSocket idle rfl ?_
      rw [callOf, managerOf, here, Option.bind_some]
      cases connected : object.m_pConnectionMgr with
      | none =>
          simp only [connected] at done
          exact done
      | some manager =>
          simp only [connected] at done
          exact done
  | method address call => exact .onSocket idle rfl done
  | global call =>
      obtain ⟨address, for_, done⟩ := named_cases done
      exact .onSocket idle for_ done
  | LoadMsg lua socketname =>
      obtain ⟨address, for_, done⟩ := named_cases done
      exact .onSocket idle for_ done
  | SendMsg lua socketname =>
      obtain ⟨address, for_, done⟩ := named_cases done
      exact .onSocket idle for_ done
  | luaMsg event =>
      change (if event.ofLuaMsg then _ else none) = some next at done
      split at done
      · next own =>
          obtain ⟨world, scripted, same⟩ := Option.bind_eq_some_iff.mp done
          obtain rfl := Option.some.inj same
          exact .luaMsg idle own scripted
      · cases done
  | reply reply => cases done

/-- **What a step does.** -/
theorem step_spec {event : ProgramEvent} (stepped : machine.step program event = some next) :
    program.Step event next := by
  cases event with
  | reply reply =>
      obtain ⟨⟨manager, point⟩, waits, done⟩ := Option.bind_eq_some_iff.mp stepped
      obtain ⟨world, managed, same⟩ := Option.bind_eq_some_iff.mp done
      obtain rfl := Option.some.inj same
      exact .reply waits managed
  | _ =>
      cases busy : program.world.busy with
      | none =>
          simp only [machine, busy, Option.isNone_none, ↓reduceIte] at stepped
          exact step_script busy stepped
      | some running =>
          simp only [machine, busy, Option.isNone_some, Bool.false_eq_true, ↓reduceIte] at stepped
          cases stepped

/-! ## The process below -/

/-- What a call on the manager of an object is in the process. -/
def callEvents (program : Program) : ProgramEvent → Nat → List WorldEvent
  | .Restart address, manager =>
      if (program.managerOf address).isSome then [.Restart manager] else []
  | .method _ call, manager | .global call, manager =>
      call.event.toList.map (WorldEvent.manager manager)
  | .LoadMsg lua _, manager => [.LoadMsg lua manager]
  | .SendMsg lua _, manager => [.SendMsg lua manager]
  | .newSocket _ _, _ | .gcSocket _, _ | .luaMsg _, _ | .reply _, _ => []

/-- The events of a call, after that of making the manager. -/
def connectEvents (program : Program) (event : ProgramEvent) (address : Nat) : List WorldEvent :=
  match program.managerOf address with
  | some manager => program.callEvents event manager
  | none => .newManager :: program.callEvents event program.world.managers.length

/-- What a step is in the process. -/
def worldEvents (program : Program) : ProgramEvent → List WorldEvent
  | .newSocket _ _ => []
  | .gcSocket address =>
      (program.managerOf address).toList.map fun manager => .manager manager .CloseConnection
  | .luaMsg event => [event]
  | .reply reply => program.world.busy.toList.map fun running => .manager running.1 (.reply reply)
  | event => (program.target event).toList.flatMap (program.connectEvents event)

/-- A call on a manager is a run of the process. -/
theorem run_callEvents {event : ProgramEvent} {manager : Nat} {world after : World}
    (idle : world.busy = none) (called : program.callOf event manager world = some after) :
    World.machine.run world (program.callEvents event manager) = some after := by
  have calls (call : SocketCall) (called : calling call manager world = some after) :
      World.machine.run world (call.event.toList.map (WorldEvent.manager manager)) =
        some after := by
    unfold calling at called
    cases event : call.event with
    | none =>
        simp only [event] at called
        exact called
    | some event =>
        simp only [event] at called
        exact (Option.bind_eq_some_iff).mpr ⟨after, called, rfl⟩
  have scripts (event : WorldEvent) (called : world.script event = some after)
      (alone : World.machine.step world event =
        if world.busy.isNone then world.script event else none) :
      World.machine.run world [event] = some after := by
    rw [Machine.run_cons, alone, idle, Option.isNone_none, if_pos rfl, called]
    rfl
  cases event with
  | Restart address =>
      rw [callOf] at called
      rw [callEvents]
      split at called
      · next has =>
          rw [if_pos has]
          exact scripts (.Restart manager) called rfl
      · next lacks =>
          rw [if_neg lacks]
          exact called
  | method address call => exact calls call called
  | global call => exact calls call called
  | LoadMsg lua socketname => exact scripts (.LoadMsg lua manager) called rfl
  | SendMsg lua socketname => exact scripts (.SendMsg lua manager) called rfl
  | newSocket address instClassName => cases called
  | gcSocket address => cases called
  | luaMsg event => cases called
  | reply reply => cases called

theorem worldEvents_of_call {event : ProgramEvent} {manager : Nat} {world after : World}
    (for_ : program.target event = some address)
    (called : program.callOf event manager world = some after) :
    program.worldEvents event = program.connectEvents event address := by
  have single : (program.target event).toList.flatMap (program.connectEvents event) =
      program.connectEvents event address := by
    rw [for_]
    exact List.flatMap_singleton _ _
  cases event with
  | Restart address => exact single
  | method address call => exact single
  | global call => exact single
  | LoadMsg lua socketname => exact single
  | SendMsg lua socketname => exact single
  | newSocket address instClassName => cases called
  | gcSocket address => cases called
  | luaMsg event => cases called
  | reply reply => cases called

/-- The manager that a call makes is new in the process, too. -/
theorem run_connectEvents {event : ProgramEvent} (idle : program.world.busy = none)
    (for_ : program.target event = some address)
    (done : program.onSocket address (program.callOf event) = some next) :
    World.machine.run program.world (program.worldEvents event) = some next.world := by
  obtain ⟨manager, middle, connects, world, called, rfl⟩ := onSocket_cases done
  have waiting := (GetConnection_busy connects).trans idle
  have below := run_callEvents waiting called
  rw [worldEvents_of_call for_ called]
  unfold connectEvents
  obtain ⟨-, -, ⟨has, rfl⟩ | ⟨lacks, rfl, grown⟩⟩ := GetConnection_cases connects
  · simp only [has]
    exact below
  · rw [grown] at below
    simp only [lacks, Machine.run_cons, World.machine, idle, Option.isNone_none, ↓reduceIte,
      World.script, Option.bind_some]
    rw [← idle]
    exact below

/-- **A step of the program** is a run of its process. -/
theorem refines : Simulation machine World.machine (fun _ _ => True) worldEvents
    fun program world => program.world = world := by
  rintro program _ event next - rfl stepped
  refine ⟨next.world, ?_, rfl⟩
  cases step_spec stepped with
  | newSocket idle fresh => rfl
  | @gcSocket address object world idle here closes =>
      have has : program.managerOf address = object.m_pConnectionMgr := by
        rw [managerOf, here, Option.bind_some]
      rw [worldEvents, has]
      cases connected : object.m_pConnectionMgr with
      | none =>
          rw [connected] at closes
          exact closes
      | some manager =>
          rw [connected] at closes
          exact Option.bind_eq_some_iff.mpr ⟨world, closes, rfl⟩
  | onSocket idle for_ called => exact run_connectEvents idle for_ called
  | @luaMsg event world idle own done =>
      have stepped : World.machine.step program.world event = some world := by
        cases event with
        | manager manager event => cases own
        | _ =>
            simp only [World.machine, idle, Option.isNone_none, ↓reduceIte]
            exact done
      exact Option.bind_eq_some_iff.mpr ⟨world, stepped, rfl⟩
  | @reply reply manager point world waits done =>
      rw [worldEvents, waits]
      exact Option.bind_eq_some_iff.mpr ⟨world, done, rfl⟩

end Program

end EngSocket
