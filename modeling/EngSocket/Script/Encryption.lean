import EngSocket.Connection.Encryption
import EngSocket.Script.Ownership

/-!
# A process without encryption

`SocketObject::InitPike` is offered to scripts as the start of an encryption. Whenever
and however often it is called, every message, buffer, socket and answer in the process
is the same as if it had not been called (`EngSocket.World.run_without_InitPike`); in
particular the bytes on the wire are those of the messages.
-/

namespace EngSocket

open Foundation

/-- The manager of which an event calls `InitEncrypt`. -/
def WorldEvent.initialises : WorldEvent → Option Nat
  | .manager number .InitEncrypt => some number
  | _ => none

namespace World

/-- A process in which no manager has been initialised for encryption. -/
def plain (world : World) : World :=
  { world with managers := world.managers.map CConnectionManager.plain }

variable (world : World)

theorem plain_managers (manager : Nat) : world.plain.managers[manager]? =
    (world.managers[manager]?).map CConnectionManager.plain := List.getElem?_map

theorem plain_set (manager : Nat) (current : CConnectionManager) :
    world.plain.managers.set manager current.plain =
      (world.managers.set manager current).map CConnectionManager.plain := List.map_set.symm

/-- A manager is stored back alike. -/
theorem settle_plain (manager : Nat) (control : Control) :
    world.plain.settle manager control.plain = (world.settle manager control).map plain := by
  cases control with
  | idle endpoint =>
      refine congrArg some ?_
      change World.mk _ (world.plain.managers.set manager endpoint.manager.plain) _ _ = _
      rw [plain_set]
      rfl
  | waiting point endpoint =>
      refine congrArg some ?_
      change World.mk _ (world.plain.managers.set manager endpoint.manager.plain) _ _ = _
      rw [plain_set]
      rfl
  | aborted reason endpoint => rfl

/-- A manager stands where it stands without the flag. -/
theorem control_plain (manager : Nat) (endpoint : Endpoint) :
    world.plain.control manager endpoint.plain =
      (world.control manager endpoint).map Control.plain := by
  have busy : world.plain.busy = world.busy := rfl
  unfold World.control
  rw [busy]
  cases world.busy with
  | none => rfl
  | some running =>
      simp only
      split
      · rfl
      · rfl

/-- **A manager takes every event alike** but `InitEncrypt`. -/
theorem manage_plain {event : Event} (other : event ≠ .InitEncrypt) (manager : Nat) :
    world.plain.manage manager event = (world.manage manager event).map plain := by
  unfold World.manage
  split
  · change ((world.plain.managers[manager]?).bind _) = ((world.managers[manager]?).bind _).map plain
    rw [plain_managers]
    cases world.managers[manager]? with
    | none => rfl
    | some current =>
        let endpoint : Endpoint := { process := world.process, manager := current }
        change (world.plain.control manager endpoint.plain).bind _ =
          ((world.control manager endpoint).bind _).map plain
        rw [control_plain]
        cases world.control manager endpoint with
        | none => rfl
        | some control =>
            change (Endpoint.machine.step control.plain event).bind _ =
              ((Endpoint.machine.step control event).bind _).map plain
            rw [Endpoint.step_plain other]
            cases Endpoint.machine.step control event with
            | none => rfl
            | some after => exact world.settle_plain manager after
  · rfl

/-- A `CLuaMsg` loads the same message. -/
theorem LoadMsg_plain (lua manager : Nat) :
    world.plain.LoadMsg lua manager = (world.LoadMsg lua manager).map plain := by
  have luaMsg : world.plain.luaMsg lua = world.luaMsg lua := rfl
  unfold World.LoadMsg
  rw [luaMsg, plain_managers]
  cases world.luaMsg lua with
  | none => rfl
  | some luaMsg =>
      cases world.managers[manager]? with
      | none => rfl
      | some current =>
          let endpoint : Endpoint := { process := world.process, manager := current }
          change (endpoint.plain.LoadMsg.toOption).bind _ = (endpoint.LoadMsg.toOption.bind _).map _
          rw [Endpoint.LoadMsg_plain]
          cases endpoint.LoadMsg with
          | error reason => rfl
          | ok loaded =>
              refine congrArg some ?_
              change setMessage lua _ { world with
                managers := world.plain.managers.set manager loaded.2.manager.plain } = _
              rw [plain_set]
              rfl

/-- A `CLuaMsg` sends its message alike. -/
theorem SendMsg_plain (lua manager : Nat) :
    world.plain.SendMsg lua manager = (world.SendMsg lua manager).map plain := by
  have message : world.plain.message lua = world.message lua := rfl
  unfold World.SendMsg
  rw [message, plain_managers]
  cases world.message lua with
  | none => rfl
  | some message =>
      cases world.managers[manager]? with
      | none => rfl
      | some current =>
          let endpoint : Endpoint := { process := world.process, manager := current }
          refine congrArg some ?_
          let sent := (endpoint.SendMsg message).manager
          change setMessage lua _
            { world with managers := world.plain.managers.set manager sent.plain } = _
          rw [plain_set]
          rfl

/-- A manager that is new has the flag unset. -/
theorem Restart_plain (manager : Nat) :
    world.plain.Restart manager = (world.Restart manager).map plain := by
  unfold World.Restart
  rw [plain_managers]
  cases world.managers[manager]? with
  | none => rfl
  | some current =>
      let endpoint : Endpoint := { process := world.process, manager := current }
      have process : endpoint.plain.CloseConnection.process = endpoint.CloseConnection.process := by
        rw [Endpoint.CloseConnection_plain]
        rfl
      refine congrArg some ?_
      change World.mk endpoint.plain.CloseConnection.process
        (world.plain.managers.set manager CConnectionManager.new.plain) _ _ = _
      rw [process, plain_set]
      rfl

/-- **The script does the same** to objects and messages. -/
theorem script_plain (event : WorldEvent) :
    world.plain.script event = (world.script event).map plain := by
  have onMessage (lua : Nat) (method : NetMessage → Process → Except Abort (NetMessage × Process)) :
      world.plain.onMessage lua method = (world.onMessage lua method).map plain := by
    have message : world.plain.message lua = world.message lua := rfl
    have process : world.plain.process = world.process := rfl
    unfold World.onMessage
    rw [message, process]
    cases world.message lua with
    | none => rfl
    | some message =>
        simp only [bind, Option.bind]
        cases (method message world.process).toOption with
        | none => rfl
        | some returned => rfl
  have luaMsg (lua : Nat) : world.plain.luaMsg lua = world.luaMsg lua := rfl
  cases event with
  | newManager => exact congrArg some (by simp only [plain, List.map_append]; rfl)
  | newLuaMsg => rfl
  | gcLuaMsg lua =>
      change world.plain.gcLuaMsg lua = (world.gcLuaMsg lua).map plain
      unfold World.gcLuaMsg
      rw [luaMsg]
      cases world.luaMsg lua with
      | none => rfl
      | some luaMsg => rfl
  | CreateNewMessage lua =>
      change world.plain.CreateNewMessage lua = (world.CreateNewMessage lua).map plain
      unfold World.CreateNewMessage
      rw [luaMsg]
      cases world.luaMsg lua with
      | none => rfl
      | some luaMsg => rfl
  | LoadMsg lua manager => exact world.LoadMsg_plain lua manager
  | SendMsg lua manager => exact world.SendMsg_plain lua manager
  | BeginForWrite lua => exact onMessage lua _
  | WriteRaw lua buf => exact onMessage lua _
  | EndForWrite lua => exact onMessage lua _
  | GetSize lua => exact onMessage lua _
  | ReadRaw lua size =>
      change world.plain.ReadRaw lua size = (world.ReadRaw lua size).map plain
      unfold World.ReadRaw
      split
      · exact onMessage lua _
      · rfl
  | overlongConnect manager addr => rfl
  | Restart manager => exact world.Restart_plain manager
  | manager manager event => rfl

/-- **No other event looks at the flag.** -/
theorem step_plain {event : WorldEvent} (other : event.initialises.isNone = true) :
    machine.step world.plain event = (machine.step world event).map plain := by
  cases event with
  | manager manager event =>
      refine world.manage_plain ?_ manager
      rintro rfl
      cases other
  | _ =>
      change (if world.busy.isNone then world.plain.script _ else none) =
        (if world.busy.isNone then world.script _ else none).map plain
      rw [script_plain]
      split
      · rfl
      · rfl

/-- While no `Update` is in progress, `InitPike` returns and leaves the rest alone. -/
theorem step_InitEncrypt {manager : Nat} (idle : world.busy = none)
    (made : manager < world.managers.length) :
    ∃ next, machine.step world (.manager manager .InitEncrypt) = some next ∧
      next.plain = world.plain := by
  have here : world.managers[manager]? = some world.managers[manager] :=
    List.getElem?_eq_getElem made
  let endpoint : Endpoint := { process := world.process, manager := world.managers[manager] }
  refine ⟨{ world with managers := world.managers.set manager endpoint.InitEncrypt.manager }, ?_, ?_⟩
  · have own : Event.InitEncrypt.ofManager = true := rfl
    change world.manage manager .InitEncrypt = _
    rw [World.manage, if_pos own, here]
    simp only [bind, Option.bind, World.control, idle, Endpoint.machine, Endpoint.call,
      World.settle]
    rfl
  · have same : endpoint.InitEncrypt.manager.plain = world.managers[manager].plain :=
      congrArg Endpoint.manager endpoint.InitEncrypt_plain
    have unchanged : (world.managers.set manager endpoint.InitEncrypt.manager).map
        CConnectionManager.plain = world.managers.map CConnectionManager.plain := by
      rw [List.map_set, same]
      refine List.ext_getElem? fun other => ?_
      by_cases apart : manager = other
      · subst apart
        rw [List.getElem?_set_self (by rwa [List.length_map]), List.getElem?_map, here]
        rfl
      · exact List.getElem?_set_ne apart
    simp only [plain, unchanged]

/-- A call of `InitPike` is for a manager that is there, while no `Update` is in progress. -/
def Ready (world : World) (event : WorldEvent) : Prop :=
  ∀ manager ∈ event.initialises, world.busy = none ∧ manager < world.managers.length

instance (world : World) (event : WorldEvent) : Decidable (world.Ready event) :=
  inferInstanceAs (Decidable (∀ manager ∈ event.initialises, _))

/-- **`InitPike` makes no difference**: but for the flag, a process ends as it does without
any of its calls, and with them it crashes only if it does without them. -/
theorem run_without_InitPike (grants : Nat → Bool) (junk : Nat → Memory UInt8)
    {events : List WorldEvent} (ready : machine.Meets Ready (initial grants junk) events) :
    (machine.run (initial grants junk) events).map plain =
      machine.run (initial grants junk)
        (events.filter fun event => event.initialises.isNone) := by
  refine Machine.run_purge (fun world event kept => world.step_plain kept)
    (fun world event dropped can => ?_) ready
  obtain ⟨manager, calls⟩ := Option.isSome_iff_exists.mp (Option.isNone_eq_false_iff.mp dropped)
  obtain ⟨idle, made⟩ := can manager calls
  unfold WorldEvent.initialises at calls
  split at calls
  · cases calls
    exact world.step_InitEncrypt idle made
  · cases calls

/-- `InitPike` before a message is sent, while it waits and after it has left. -/
def initialising : List WorldEvent :=
  .newManager :: .newLuaMsg :: .manager 0 .InitEncrypt ::
    establishing.map (WorldEvent.manager 0) ++
      [.manager 0 .InitEncrypt, .CreateNewMessage 0, .BeginForWrite 0, .WriteRaw 0 [7],
        .EndForWrite 0, .SendMsg 0 0, .manager 0 .InitEncrypt, .manager 0 (.Update 1),
        .manager 0 (.reply (.select .writable)), .manager 0 (.reply (.send 3)),
        .manager 0 (.reply (.select .quiet)), .manager 0 .InitEncrypt]

theorem run_without_InitPike_initialising :
    (machine.run (initial (fun _ => true) fun _ _ => 0) initialising).isSome = true ∧
      (machine.run (initial (fun _ => true) fun _ _ => 0) initialising).map plain =
        machine.run (initial (fun _ => true) fun _ _ => 0)
          (initialising.filter fun event => event.initialises.isNone) :=
  ⟨by decide +kernel, run_without_InitPike _ _ (by decide +kernel)⟩

end World

end EngSocket
