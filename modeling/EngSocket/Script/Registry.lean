import EngSocket.Script.Crashes
import EngSocket.Script.Sockets

/-!
# Managers and the socket objects they belong to

A manager is made for one `SocketObject` and no other object ever has it
(`EngSocket.Program.registry`). `SocketObject::~SocketObject` forgets its manager, which
is never deleted; it has no socket and no message by then, so that all that is lost is
the manager itself.
-/

namespace EngSocket

open Foundation

/-- Neither a socket nor a message. -/
def CConnectionManager.Closed (manager : CConnectionManager) : Prop :=
  manager.m_pSocket = none ∧ manager.messages = []

theorem Endpoint.CloseConnection_closed (endpoint : Endpoint) :
    endpoint.CloseConnection.manager.Closed := ⟨endpoint.Close_socket, rfl⟩

namespace World

/-- A step that changes no manager but one, and leaves no other one in the middle of an
`Update`. -/
structure Concerns (manager : Nat) (world next : World) : Prop where
  length : next.managers.length = world.managers.length
  others : ∀ other ≠ manager, next.managers[other]? = world.managers[other]?
  busy : ∀ running point, next.busy = some (running, point) → running = manager

variable {world next : World} {manager : Nat}

theorem Concerns.refl (idle : world.busy = none) (manager : Nat) : Concerns manager world world :=
  ⟨rfl, fun _ _ => rfl, fun _ _ busy => by rw [idle] at busy; cases busy⟩

/-- A manager put in the place of another one. -/
theorem Concerns.set {current : CConnectionManager}
    (managers : next.managers = world.managers.set manager current)
    (busy : ∀ running point, next.busy = some (running, point) → running = manager) :
    Concerns manager world next := by
  refine ⟨?_, fun other apart => ?_, busy⟩
  · rw [managers, List.length_set]
  · rw [managers, List.getElem?_set_ne (Ne.symm apart)]

/-- A call on a manager leaves the others alone. -/
theorem manage_concerns {event : Event} (done : world.manage manager event = some next) :
    Concerns manager world next := by
  have own : event.ofManager = true := by
    by_contra other
    rw [World.manage, if_neg other] at done
    cases done
  rw [manage_eq own] at done
  obtain ⟨control, -, done⟩ := Option.bind_eq_some_iff.mp done
  obtain ⟨after, -, settled⟩ := Option.bind_eq_some_iff.mp done
  obtain ⟨busy, rfl, waits⟩ := settle_cases settled
  exact .set rfl fun running point midway => (waits running point midway).1

/-- So does `LoadMsg`. -/
theorem LoadMsg_concerns {lua : Nat} (idle : world.busy = none)
    (done : world.LoadMsg lua manager = some next) : Concerns manager world next := by
  obtain ⟨luaMsg, -, done⟩ := Option.bind_eq_some_iff.mp done
  obtain ⟨current, -, done⟩ := Option.bind_eq_some_iff.mp done
  obtain ⟨loaded, -, done⟩ := Option.bind_eq_some_iff.mp done
  obtain rfl := Option.some.inj done
  exact .set rfl (Concerns.refl idle manager).busy

/-- So does `SendMsg`. -/
theorem SendMsg_concerns {lua : Nat} (idle : world.busy = none)
    (done : world.SendMsg lua manager = some next) : Concerns manager world next := by
  obtain ⟨message, -, done⟩ := Option.bind_eq_some_iff.mp done
  obtain ⟨current, -, done⟩ := Option.bind_eq_some_iff.mp done
  obtain rfl := Option.some.inj done
  exact .set rfl (Concerns.refl idle manager).busy

/-- So does `Restart`. -/
theorem Restart_concerns (idle : world.busy = none)
    (done : world.Restart manager = some next) : Concerns manager world next := by
  obtain ⟨current, -, done⟩ := Option.bind_eq_some_iff.mp done
  obtain rfl := Option.some.inj done
  exact .set rfl (Concerns.refl idle manager).busy

/-- What a script does to a `CLuaMsg` leaves the managers alone. -/
theorem script_managers {event : WorldEvent} (own : event.ofLuaMsg = true)
    (done : world.script event = some next) : next.managers = world.managers := by
  have onMessage (lua : Nat) (method : NetMessage → Process → Except Abort (NetMessage × Process))
      (done : world.onMessage lua method = some next) : next.managers = world.managers := by
    obtain ⟨message, -, done⟩ := Option.bind_eq_some_iff.mp done
    obtain ⟨returned, -, done⟩ := Option.bind_eq_some_iff.mp done
    cases done
    rfl
  cases event with
  | newLuaMsg =>
      cases done
      rfl
  | gcLuaMsg lua =>
      obtain ⟨luaMsg, -, done⟩ := Option.bind_eq_some_iff.mp done
      cases done
      rfl
  | CreateNewMessage lua =>
      obtain ⟨luaMsg, -, done⟩ := Option.bind_eq_some_iff.mp done
      cases done
      rfl
  | BeginForWrite lua => exact onMessage lua _ done
  | WriteRaw lua buf => exact onMessage lua _ done
  | EndForWrite lua => exact onMessage lua _ done
  | GetSize lua => exact onMessage lua _ done
  | ReadRaw lua size => exact onMessage lua _ (ReadRaw_cases done).2
  | newManager | LoadMsg lua manager | SendMsg lua manager | overlongConnect manager addr
  | Restart manager | manager manager event => cases own

/-- What closing an idle manager leaves. -/
theorem manage_CloseConnection (idle : world.busy = none)
    (done : world.manage manager .CloseConnection = some next) :
    (∀ current ∈ next.managers[manager]?, current.Closed) ∧ next.busy = none := by
  rw [manage_eq rfl] at done
  obtain ⟨control, stands, done⟩ := Option.bind_eq_some_iff.mp done
  obtain ⟨current, here, stands⟩ := Option.bind_eq_some_iff.mp stands
  rw [World.control, idle] at stands
  obtain rfl := Option.some.inj stands
  obtain ⟨after, stepped, settled⟩ := Option.bind_eq_some_iff.mp done
  obtain rfl := Option.some.inj stepped
  obtain rfl := Option.some.inj settled
  refine ⟨fun current member => ?_, rfl⟩
  rw [List.getElem?_set_self (List.getElem?_eq_some_iff.mp here).1] at member
  exact Option.some.inj member ▸ Endpoint.CloseConnection_closed _

end World

namespace Program

/-- Managers and objects of a program between two events. -/
structure Registered (program : Program) : Prop where
  /-- No two objects have the same manager. -/
  apart : ∀ address other manager, program.managerOf address = some manager →
    program.managerOf other = some manager → address = other
  made : ∀ address manager, program.managerOf address = some manager →
    manager < program.world.managers.length
  /-- A manager without an object is closed. -/
  closed : ∀ (manager : Nat) current, program.world.managers[manager]? = some current →
    (∃ address, program.managerOf address = some manager) ∨ current.Closed
  /-- The `Update` in progress is an object's. -/
  busy : ∀ manager point, program.world.busy = some (manager, point) →
    ∃ address, program.managerOf address = some manager

variable {program next : Program} {address : Nat}

/-- What is left of a program in which one manager has changed that belongs to an
object. -/
theorem Registered.concerns (registered : program.Registered) {manager : Nat}
    (owner : program.managerOf address = some manager) {world : World}
    (concerns : World.Concerns manager program.world world) :
    Registered { program with world } where
  apart := registered.apart
  made := fun other manager has => concerns.length ▸ registered.made other manager has
  closed := by
    intro other current here
    by_cases same : other = manager
    · exact Or.inl ⟨address, same ▸ owner⟩
    · rw [concerns.others other same] at here
      exact registered.closed other current here
  busy := fun running point midway => ⟨address, concerns.busy running point midway ▸ owner⟩

/-- `GetConnection` gives an object a manager that no other object has. -/
theorem Registered.GetConnection (registered : program.Registered) (idle : program.world.busy = none)
    {manager : Nat} {middle : Program}
    (connects : program.GetConnection address = some (manager, middle)) : middle.Registered := by
  obtain ⟨has, others, ⟨-, rfl⟩ | ⟨lacks, rfl, grown⟩⟩ := GetConnection_cases connects
  · exact registered
  · have old : ∀ other manager, other ≠ address → middle.managerOf other = some manager →
        program.managerOf other = some manager := fun other manager apart found =>
      (managerOf_congr (others other apart)).symm.trans found
    have below : ∀ other manager, other ≠ address → middle.managerOf other = some manager →
        manager < program.world.managers.length := fun other manager apart found =>
      registered.made other manager (old other manager apart found)
    refine ⟨?_, ?_, ?_, ?_⟩
    · intro first second manager finds found
      by_cases here : first = address <;> by_cases there : second = address
      · exact here.trans there.symm
      · have same := Option.some.inj (has.symm.trans (here ▸ finds))
        exact absurd (below second manager there found) (by omega)
      · have same := Option.some.inj (has.symm.trans (there ▸ found))
        exact absurd (below first manager here finds) (by omega)
      · exact registered.apart first second manager (old first manager here finds)
          (old second manager there found)
    · intro other manager found
      rw [grown, List.length_append]
      by_cases here : other = address
      · have same := Option.some.inj (has.symm.trans (here ▸ found))
        exact same ▸ Nat.lt_succ_self _
      · exact Nat.lt_succ_of_lt (below other manager here found)
    · intro manager current here
      rw [grown] at here
      rcases Nat.lt_or_ge manager program.world.managers.length with early | late
      · rw [List.getElem?_append_left early] at here
        rcases registered.closed manager current here with ⟨other, found⟩ | closed
        · refine Or.inl ⟨other, ?_⟩
          have apart : other ≠ address := by
            rintro rfl
            rw [lacks] at found
            cases found
          exact (managerOf_congr (others other apart)).trans found
        · exact Or.inr closed
      · rw [List.getElem?_append_right late] at here
        have new := List.mem_singleton.mp (List.mem_of_getElem? here)
        exact Or.inr (new ▸ ⟨rfl, rfl⟩)
    · intro manager point midway
      rw [grown, idle] at midway
      cases midway

/-- A call that concerns no manager but the one it is for. -/
def Local (call : Nat → World → Option World) : Prop :=
  ∀ manager world next, world.busy = none → call manager world = some next →
    World.Concerns manager world next

/-- The methods of a socket object call its manager only. -/
theorem local_calling (call : SocketCall) : Local (calling call) := by
  intro manager world next idle done
  unfold calling at done
  split at done
  · cases done
    exact .refl idle manager
  · exact World.manage_concerns done

theorem local_LoadMsg (lua : Nat) : Local (World.LoadMsg lua) :=
  fun _ _ _ idle done => World.LoadMsg_concerns idle done

theorem local_SendMsg (lua : Nat) : Local (World.SendMsg lua) :=
  fun _ _ _ idle done => World.SendMsg_concerns idle done

theorem local_Restart : Local World.Restart :=
  fun _ _ _ idle done => World.Restart_concerns idle done

/-- **A call** on an object keeps the managers apart. -/
theorem Registered.onSocket (registered : program.Registered) (idle : program.world.busy = none)
    {call : Nat → World → Option World} (alone : Local call)
    (done : program.onSocket address call = some next) : next.Registered := by
  obtain ⟨manager, middle, connects, world, called, rfl⟩ := onSocket_cases done
  have waiting := (GetConnection_busy connects).trans idle
  exact (registered.GetConnection idle connects).concerns (GetConnection_cases connects).1
    (alone manager middle.world world waiting called)

/-- So do all calls that an event makes. -/
theorem local_callOf (program : Program) (event : ProgramEvent) : Local (program.callOf event) := by
  have same : Local fun _ world => some world := by
    intro manager world next idle done
    cases done
    exact .refl idle manager
  cases event with
  | Restart address =>
      rw [callOf]
      split
      · exact local_Restart
      · exact same
  | method address call => exact local_calling call
  | global call => exact local_calling call
  | LoadMsg lua socketname => exact local_LoadMsg lua
  | SendMsg lua socketname => exact local_SendMsg lua
  | newSocket _ _ | gcSocket _ | luaMsg _ | reply _ => exact fun _ _ _ _ done => by cases done

/-- A new object has no manager, and the others keep theirs. -/
theorem managerOf_newSocket (fresh : program.s_objList.get address = none) (name : String)
    (other : Nat) :
    managerOf other { program with
      s_objList := program.s_objList.put address (SocketObject.new name) } =
      program.managerOf other := by
  by_cases same : other = address
  · rw [managerOf, managerOf, same, OrderedMap.get_put_self, fresh]
    rfl
  · exact managerOf_congr (OrderedMap.get_put_of_ne same _ _)

/-- **A new object** shares its manager with none. -/
theorem Registered.newSocket (registered : program.Registered)
    (fresh : program.s_objList.get address = none) (name : String) :
    Registered { program with
      s_objList := program.s_objList.put address (SocketObject.new name) } := by
  have same := managerOf_newSocket fresh name
  refine ⟨fun first second manager => ?_, fun other manager => ?_, ?_, ?_⟩
  · rw [same, same]
    exact registered.apart first second manager
  · rw [same]
    exact registered.made other manager
  · intro manager current here
    simp only [same]
    exact registered.closed manager current here
  · intro manager point midway
    simp only [same]
    exact registered.busy manager point midway

/-- What is left once an object has gone. -/
theorem managerOf_gcSocket {world : World} {other manager : Nat} :
    managerOf other { world, s_objList := program.s_objList.erase address } = some manager ↔
      other ≠ address ∧ program.managerOf other = some manager := by
  by_cases same : other = address
  · rw [managerOf, same, OrderedMap.get_erase_self]
    exact iff_of_false (fun found => by cases found) fun found => found.1 rfl
  · rw [managerOf, OrderedMap.get_erase_of_ne same, ← managerOf]
    exact (and_iff_right same).symm

/-- **An object that goes** leaves a manager that is closed and cleared. -/
theorem Registered.gcSocket (registered : program.Registered) (idle : program.world.busy = none)
    {object : SocketObject} (here : program.s_objList.get address = some object) {world : World}
    (closes : closing object.m_pConnectionMgr program.world = some world) :
    Registered { world, s_objList := program.s_objList.erase address } := by
  have has : program.managerOf address = object.m_pConnectionMgr := by
    rw [managerOf, here, Option.bind_some]
  have left_ : world.managers.length = program.world.managers.length ∧ world.busy = none ∧
      ∀ (manager : Nat) current, world.managers[manager]? = some current →
        (∃ other ≠ address, program.managerOf other = some manager) ∨ current.Closed := by
    cases connected : object.m_pConnectionMgr with
    | none =>
        rw [connected] at closes has
        cases closes
        refine ⟨rfl, idle, fun manager current place => ?_⟩
        refine (registered.closed manager current place).imp_left ?_
        rintro ⟨other, found⟩
        refine ⟨other, ?_, found⟩
        rintro rfl
        rw [has] at found
        cases found
    | some closed =>
        rw [connected] at closes has
        obtain ⟨emptied, waits⟩ := World.manage_CloseConnection idle closes
        have concerns := World.manage_concerns closes
        refine ⟨concerns.length, waits, fun manager current place => ?_⟩
        by_cases same : manager = closed
        · exact Or.inr (emptied current (same ▸ place))
        · rw [concerns.others manager same] at place
          refine (registered.closed manager current place).imp_left ?_
          rintro ⟨other, found⟩
          refine ⟨other, ?_, found⟩
          rintro rfl
          exact same (Option.some.inj (found.symm.trans has))
  obtain ⟨length, waits, orphans⟩ := left_
  refine ⟨fun first second manager finds found => ?_, fun other manager found => ?_, ?_, ?_⟩
  · exact registered.apart first second manager (managerOf_gcSocket.mp finds).2
      (managerOf_gcSocket.mp found).2
  · exact length ▸ registered.made other manager (managerOf_gcSocket.mp found).2
  · intro manager current place
    refine (orphans manager current place).imp_left ?_
    rintro ⟨other, apart, found⟩
    exact ⟨other, managerOf_gcSocket.mpr ⟨apart, found⟩⟩
  · intro manager point midway
    rw [waits] at midway
    cases midway

/-- **The registry is kept** by every step. -/
theorem Registered.step {event : ProgramEvent} (registered : program.Registered)
    (stepped : machine.step program event = some next) : next.Registered := by
  cases step_spec stepped with
  | newSocket idle fresh => exact registered.newSocket fresh _
  | gcSocket idle here closes => exact registered.gcSocket idle here closes
  | onSocket idle for_ called => exact registered.onSocket idle (local_callOf program event) called
  | luaMsg idle own done =>
      have managers := World.script_managers own done
      have waits := (World.script_busy done).trans idle
      refine ⟨registered.apart, fun address manager found => ?_, ?_, fun manager point midway => ?_⟩
      · exact managers ▸ registered.made address manager found
      · exact managers ▸ registered.closed
      · rw [waits] at midway
        cases midway
  | @reply reply manager point world waits done =>
      obtain ⟨address, owner⟩ := registered.busy manager point waits
      exact registered.concerns owner (World.manage_concerns done)

theorem registered_initial (grants : Nat → Bool) (junk : Nat → Memory UInt8) :
    (initial grants junk).Registered := by
  refine ⟨fun _ _ _ found => ?_, fun _ _ found => ?_, fun manager current here => ?_,
    fun manager point midway => ?_⟩
  · cases found
  · cases found
  · exact absurd here (by simp only [initial, World.initial, List.getElem?_nil, reduceCtorEq,
      not_false_eq_true])
  · cases midway

/-- Managers and objects belong together after every run. -/
theorem registered_of_run (grants : Nat → Bool) (junk : Nat → Memory UInt8)
    {events : List ProgramEvent}
    (reached : machine.run (initial grants junk) events = some program) : program.Registered :=
  Machine.state_invariant Registered (fun _ _ _ _ registered stepped => registered.step stepped)
    (Machine.Meets.of_forall (fun _ _ => trivial) events _) reached
    (registered_initial grants junk)

/-- Where the messages of a program are. -/
structure Housed (program : Program) : Prop where
  registered : program.Registered
  once : program.world.OwnedOnce
  /-- A message is a script object's, or stands in a list of an object's manager. -/
  holder : ∀ message ∈ program.world.messages,
    (∃ lua, program.world.message lua = some message) ∨
      ∃ address manager, program.managerOf address = some manager ∧
        ∃ current ∈ program.world.managers[manager]?, message ∈ current.messages

theorem Registered.holder (registered : program.Registered) {message : NetMessage}
    (held : message ∈ program.world.messages) :
    (∃ lua, program.world.message lua = some message) ∨
      ∃ address manager, program.managerOf address = some manager ∧
        ∃ current ∈ program.world.managers[manager]?, message ∈ current.messages := by
  rcases List.mem_append.mp held with scripted | queued
  · left
    obtain ⟨slot, listed, held⟩ := List.mem_flatMap.mp scripted
    obtain ⟨lua, here⟩ := List.mem_iff_getElem?.mp listed
    refine ⟨lua, ?_⟩
    rw [World.message, World.luaMsg, here]
    exact Option.mem_toList.mp held
  · right
    obtain ⟨current, listed, held⟩ := List.mem_flatMap.mp queued
    obtain ⟨manager, here⟩ := List.mem_iff_getElem?.mp listed
    rcases registered.closed manager current here with ⟨address, owner⟩ | closed
    · exact ⟨address, manager, owner, current, here, held⟩
    · rw [closed.2] at held
      cases held

/-- **Managers and messages are accounted for** in every run: no manager is shared, one
whose object is gone is closed, and no message is anywhere but with one script object or
in one list of an object's manager. -/
theorem registry (grants : Nat → Bool) (junk : Nat → Memory UInt8) {events : List ProgramEvent}
    (reached : machine.run (initial grants junk) events = some program) : program.Housed := by
  have registered := registered_of_run grants junk reached
  obtain ⟨world, below, rfl⟩ := refines.run (Machine.Meets.of_forall (fun _ _ => trivial) events _)
    reached (rfl : (initial grants junk).world = World.initial grants junk)
  exact ⟨registered, World.ownership grants junk below, fun _ held => registered.holder held⟩

/-- The managers of the objects at 4 and 8, and the addresses of what is held and of
what was deleted. -/
def sights (program : Program) : List (Option Nat) × List Nat × List Nat :=
  ([program.managerOf 4, program.managerOf 8],
    program.world.messages.map NetMessage.address, program.world.process.deleted)

/-- Two objects are made, and each of them is sent a message. -/
def sharing : List ProgramEvent :=
  [.newSocket 8 "defaultSocket", .newSocket 4 "chat", .luaMsg .newLuaMsg,
    .luaMsg (.CreateNewMessage 0), .SendMsg 0 (some "chat"), .luaMsg (.CreateNewMessage 0),
    .SendMsg 0 none]

theorem registry_of_sharing :
    ∃ program, machine.run (initial (fun _ => true) fun _ _ => 0) (sharing ++ [.gcSocket 4]) =
        some program ∧
      program.sights = ([none, some 1], [1], [0]) ∧
        program.Housed := by
  have ran : (machine.run (initial (fun _ => true) fun _ _ => 0) (sharing ++ [.gcSocket 4])).map
      sights = some ([none, some 1], [1], [0]) := by
    decide +kernel
  obtain ⟨program, reached, seen⟩ := Option.map_eq_some_iff.mp ran
  exact ⟨program, reached, seen, registry _ _ reached⟩

/-! ## Other objects -/

/-- An object and its manager are as before. -/
structure AgreesAt (address : Nat) (program next : Program) : Prop where
  object : next.s_objList.get address = program.s_objList.get address
  manager : ∀ manager, program.managerOf address = some manager →
    next.world.managers[manager]? = program.world.managers[manager]?

theorem AgreesAt.refl (address : Nat) (program : Program) : AgreesAt address program program :=
  ⟨rfl, fun _ _ => rfl⟩

theorem AgreesAt.trans {middle : Program} (first : AgreesAt address program middle)
    (second : AgreesAt address middle next) : AgreesAt address program next := by
  refine ⟨second.object.trans first.object, fun manager has => ?_⟩
  rw [second.manager manager ((managerOf_congr first.object).trans has), first.manager manager has]

/-- To the other objects it makes no difference that one gets a manager. -/
theorem GetConnection_agrees {other manager : Nat} {middle : Program}
    (registered : program.Registered)
    (connects : program.GetConnection address = some (manager, middle)) (apart : other ≠ address) :
    AgreesAt other program middle := by
  obtain ⟨-, others, kept⟩ := GetConnection_cases connects
  refine ⟨others other apart, fun number has => ?_⟩
  obtain ⟨-, rfl⟩ | ⟨-, -, grown⟩ := kept
  · rfl
  · rw [grown]
    exact List.getElem?_append_left (registered.made other number has)

/-- What waits for an answer belongs to the object that the answer is for. -/
theorem Registered.waiting (registered : program.Registered) {reply : Reply} {manager : Nat}
    {point : Point} (waits : program.world.busy = some (manager, point))
    (owner : program.managerOf address = some manager) :
    program.target (.reply reply) = some address := by
  obtain ⟨object, here, connected⟩ := Option.bind_eq_some_iff.mp owner
  rw [target, waits, Option.bind_some]
  cases found : program.s_objList.first fun object => object.m_pConnectionMgr = some manager with
  | none =>
      have refused := OrderedMap.first_eq_none_iff.mp found address object here
      exact absurd connected (of_decide_eq_false refused)
  | some entry =>
      obtain ⟨there, accepted, -⟩ := OrderedMap.first_eq_some_iff.mp found
      have has : program.managerOf entry.1 = some manager := by
        rw [managerOf, there]
        exact of_decide_eq_true accepted
      exact congrArg some (registered.apart entry.1 address manager has owner)

/-- A step changes the object that it is for, and no other one. -/
theorem Registered.step_agrees {event : ProgramEvent} (registered : program.Registered)
    (stepped : machine.step program event = some next)
    (elsewhere : program.target event ≠ some address) : AgreesAt address program next := by
  cases step_spec stepped with
  | @newSocket other instClassName idle fresh =>
      have apart : address ≠ other := by
        rintro rfl
        exact elsewhere rfl
      exact ⟨OrderedMap.get_put_of_ne apart _ _, fun _ _ => rfl⟩
  | @gcSocket other object world idle here closes =>
      have apart : address ≠ other := by
        rintro rfl
        exact elsewhere rfl
      refine ⟨OrderedMap.get_erase_of_ne apart _, fun manager has => ?_⟩
      cases connected : object.m_pConnectionMgr with
      | none =>
          rw [connected] at closes
          cases closes
          rfl
      | some closed =>
          rw [connected] at closes
          refine (World.manage_concerns closes).others manager ?_
          rintro rfl
          have owner : program.managerOf other = some manager := by
            rw [managerOf, here, Option.bind_some, connected]
          exact apart (registered.apart address other manager has owner)
  | @onSocket event other next idle for_ called =>
      have apart : address ≠ other := by
        rintro rfl
        exact elsewhere for_
      obtain ⟨manager, middle, connects, world, done, rfl⟩ := onSocket_cases called
      have agrees := GetConnection_agrees registered connects apart
      have kept := registered.GetConnection idle connects
      have waits := (GetConnection_busy connects).trans idle
      refine agrees.trans ⟨rfl, fun number has => ?_⟩
      refine (local_callOf program event manager middle.world world waits done).others number ?_
      rintro rfl
      exact apart (kept.apart address other number has (GetConnection_cases connects).1)
  | luaMsg idle own done =>
      exact ⟨rfl, fun manager _ => congrArg (·[manager]?) (World.script_managers own done)⟩
  | @reply reply manager point world waits done =>
      refine ⟨rfl, fun number has => (World.manage_concerns done).others number ?_⟩
      rintro rfl
      exact elsewhere (registered.waiting waits has)

/-- **Sockets do not interfere.** In a run in which no event is for an object, whatever
happens to the others, the object and its manager stay as they are. -/
theorem untouched (grants : Nat → Bool) (junk : Nat → Memory UInt8)
    {before events : List ProgramEvent} {final : Program}
    (reached : machine.run (initial grants junk) before = some program)
    (ran : machine.run program events = some final)
    (elsewhere : machine.Meets (fun program event => program.target event ≠ some address)
      program events) : AgreesAt address program final := by
  have registered := registered_of_run grants junk reached
  refine (Machine.state_invariant (fun state => state.Registered ∧ AgreesAt address program state)
    ?_ elsewhere ran ⟨registered, .refl address program⟩).2
  rintro state event next other ⟨registered, agrees⟩ stepped
  exact ⟨registered.step stepped, agrees.trans (registered.step_agrees stepped other)⟩

/-- The default socket is connected, used and collected. -/
def elsewhere : List ProgramEvent :=
  [.global (.ConnectToServer ⟨"server", by decide⟩ 80
      { addresses := some [{ createSocket := 3, connectTo := 0, errno := 0 }], select := .quiet }),
    .global (.UpdateNetMsg 1), .reply (.select .quiet), .method 8 (.UpdateNetMsg 1),
    .reply (.select .writable), .luaMsg (.CreateNewMessage 0), .SendMsg 0 none, .gcSocket 8]

theorem untouched_of_elsewhere :
    ∃ program final, machine.run (initial (fun _ => true) fun _ _ => 0) sharing = some program ∧
      machine.run program elsewhere = some final ∧ AgreesAt 4 program final ∧
        final.sights = ([some 0, none], [0], [2, 1]) := by
  have ran : (machine.run (initial (fun _ => true) fun _ _ => 0) (sharing ++ elsewhere)).map
      sights = some ([some 0, none], [0], [2, 1]) := by decide +kernel
  have apart : (machine.run (initial (fun _ => true) fun _ _ => 0) sharing).all fun program =>
      decide (machine.Meets (fun program event => program.target event ≠ some 4)
        program elsewhere) := by decide +kernel
  obtain ⟨final, reached, seen⟩ := Option.map_eq_some_iff.mp ran
  rw [Machine.run_append] at reached
  obtain ⟨program, first, second⟩ := Option.bind_eq_some_iff.mp reached
  rw [first, Option.all_some] at apart
  exact ⟨program, final, first, second, untouched _ _ first second (of_decide_eq_true apart), seen⟩

end Program

end EngSocket
