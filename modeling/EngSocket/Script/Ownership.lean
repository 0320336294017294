import EngSocket.Connection.Holdings
import EngSocket.Script.World

/-!
# Who owns a message

A message is held by a `CLuaMsg` or stands in a list of a manager. In every run of
the process each live message has at most one holder
(`EngSocket.World.ownership`).

`CreateNewMessage` and `LoadMsg` assign to `m_pMsg` without looking at it. A message
whose only pointer they overwrite stays live without a holder for good; this is
the only way to lose one.
-/

namespace EngSocket

open Foundation

open NetMessage (entries)

/-- The message that a `CLuaMsg` holds, if it is still there and has one. -/
def CLuaMsg.messages (slot : Option CLuaMsg) : List NetMessage :=
  (slot.bind CLuaMsg.m_pMsg).toList

def CConnectionManager.messages (manager : CConnectionManager) : List NetMessage :=
  manager.m_sendList ++ manager.m_recvList

/-- The `CLuaMsg` to whose `m_pMsg` an event assigns a message. -/
def WorldEvent.fills : WorldEvent → Option Nat
  | .CreateNewMessage lua => some lua
  | .LoadMsg lua _ => some lua
  | _ => none

namespace World

/-- What all holders hold. -/
def messages (world : World) : List NetMessage :=
  world.luaMsgs.flatMap CLuaMsg.messages ++ world.managers.flatMap CConnectionManager.messages

/-- The messages to which an event overwrites a pointer. -/
def overwritten (world : World) (event : WorldEvent) : List NetMessage :=
  (event.fills.bind world.message).toList

/-- What all holders hold, by addresses and holder by holder. -/
def held (world : World) : Multiset (Nat × Nat) :=
  (world.luaMsgs.map fun slot => entries (CLuaMsg.messages slot)).sum +
    (world.managers.map CConnectionManager.held).sum

/-- The live messages are those held, once each, and those that leaked. -/
structure Owned (leaked : Multiset (Nat × Nat)) (world : World) : Prop where
  accounts : world.process.Accounts
  live : (world.process.live : Multiset (Nat × Nat)) = world.held + leaked

/-- The manager that is in the middle of an `Update` is at its point. -/
def Armed (world : World) : Prop :=
  ∀ manager point current, world.busy = some (manager, point) →
    world.managers[manager]? = some current →
      (Control.waiting point { process := world.process, manager := current }).Armed

variable {world next : World} {leaked : Multiset (Nat × Nat)}

theorem entries_flatMap {Holder : Type} (messages : Holder → List NetMessage)
    (holders : List Holder) :
    entries (holders.flatMap messages) =
      (holders.map fun holder => entries (messages holder)).sum := by
  induction holders with
  | nil => rfl
  | cons holder holders ih =>
      rw [List.flatMap_cons, NetMessage.entries_append, ih, List.map_cons, List.sum_cons]

/-- The messages that are held, counted by their holders. -/
theorem entries_messages (world : World) : entries world.messages = world.held := by
  have manager (manager : CConnectionManager) :
      entries manager.messages = manager.held := NetMessage.entries_append _ _
  rw [messages, NetMessage.entries_append, entries_flatMap, entries_flatMap, held]
  simp only [manager]

/-! ## Steps of the script -/

theorem luaMsg_eq_some {lua : Nat} {luaMsg : CLuaMsg} :
    world.luaMsg lua = some luaMsg ↔ world.luaMsgs[lua]? = some (some luaMsg) := by
  unfold World.luaMsg
  exact Option.join_eq_some_iff

/-- A message is in the slot of its `CLuaMsg`. -/
theorem message_eq_some {lua : Nat} {message : NetMessage}
    (present : world.message lua = some message) :
    world.luaMsgs[lua]? = some (some { m_pMsg := some message }) := by
  obtain ⟨luaMsg, here, holds⟩ := Option.bind_eq_some_iff.mp present
  rw [luaMsg_eq_some.mp here, ← holds]

/-- One holder among the script objects, and what it can be filled with. -/
theorem held_luaMsgs {lua : Nat} {slot : Option CLuaMsg} (here : world.luaMsgs[lua]? = some slot) :
    ∃ rest, world.held = entries (CLuaMsg.messages slot) + rest ∧
      ∀ other process busy,
        World.held { world with luaMsgs := world.luaMsgs.set lua other, process, busy } =
          entries (CLuaMsg.messages other) + rest := by
  obtain ⟨rest, before, after⟩ :=
    sum_map_besides (fun slot => entries (CLuaMsg.messages slot)) here
  refine ⟨rest + (world.managers.map CConnectionManager.held).sum, ?_, fun other _ _ => ?_⟩
  · rw [held, before, add_assoc]
  · rw [← add_assoc, ← after other]
    rfl

/-- One holder among the managers, and what can take its place. -/
theorem held_managers {manager : Nat} {current : CConnectionManager}
    (here : world.managers[manager]? = some current) :
    ∃ rest, world.held = current.held + rest ∧
      ∀ other process busy,
        World.held { world with managers := world.managers.set manager other, process, busy } =
          other.held + rest := by
  obtain ⟨rest, before, after⟩ := sum_map_besides CConnectionManager.held here
  refine ⟨rest + (world.luaMsgs.map fun slot => entries (CLuaMsg.messages slot)).sum, ?_,
    fun other _ _ => ?_⟩
  · rw [held, before, add_comm, add_assoc]
  · rw [← add_assoc, ← after other, add_comm]
    rfl

theorem overwritten_of_luaMsg {lua : Nat} {luaMsg : CLuaMsg}
    (here : world.luaMsg lua = some luaMsg) :
    (world.message lua).toList = CLuaMsg.messages (some luaMsg) := by
  rw [message, here]
  rfl

/-- `CreateNewMessage` leaks the message that it overwrites, if there is one. -/
theorem Owned.CreateNewMessage {lua : Nat} (owned : world.Owned leaked)
    (done : world.CreateNewMessage lua = some next) :
    next.Owned (entries (world.message lua).toList + leaked) := by
  obtain ⟨luaMsg, here, done⟩ := Option.bind_eq_some_iff.mp done
  obtain ⟨rest, before, after⟩ := held_luaMsgs (luaMsg_eq_some.mp here)
  obtain ⟨accounts, live⟩ := NetMessage.new_accounts owned.accounts 512
  rw [overwritten_of_luaMsg here]
  cases done
  refine ⟨accounts, ?_⟩
  let created := (NetMessage.new 512 world.process).1
  calc ((NetMessage.new 512 world.process).2.live : Multiset (Nat × Nat))
      = {created.entry} + (entries (CLuaMsg.messages (some luaMsg)) + rest + leaked) := by
        rw [live, owned.live, before]
        rfl
    _ = {created.entry} + rest + (entries (CLuaMsg.messages (some luaMsg)) + leaked) := by
        ac_rfl
    _ = _ := congrArg (· + _) (after (some { m_pMsg := some created }) _ _).symm

/-- A message loaded from a manager leaves its list. -/
theorem held_LoadMsg {endpoint after : Endpoint} {loaded : NetMessage}
    (loads : endpoint.LoadMsg = .ok (loaded, after)) :
    after.process = endpoint.process ∧
      endpoint.manager.held = {loaded.entry} + after.manager.held := by
  obtain ⟨message, rest, front, rfl, rfl⟩ := Endpoint.LoadMsg_ok loads
  refine ⟨rfl, ?_⟩
  change entries endpoint.manager.m_sendList + entries endpoint.manager.m_recvList =
    {message.entry} + (entries endpoint.manager.m_sendList +
      entries (endpoint.RemoveMsg message.address).manager.m_recvList)
  rw [Endpoint.RemoveMsg_front front, front, NetMessage.entries_cons, Multiset.add_cons,
    Multiset.singleton_add]

/-- So does `LoadMsg`. -/
theorem Owned.LoadMsg {lua manager : Nat} (owned : world.Owned leaked)
    (done : world.LoadMsg lua manager = some next) :
    next.Owned (entries (world.message lua).toList + leaked) := by
  obtain ⟨luaMsg, slot, done⟩ := Option.bind_eq_some_iff.mp done
  obtain ⟨current, here, done⟩ := Option.bind_eq_some_iff.mp done
  obtain ⟨⟨loaded, after⟩, loads, done⟩ := Option.bind_eq_some_iff.mp done
  obtain ⟨process, taken⟩ := held_LoadMsg (toOption_eq_some loads)
  obtain rfl := Option.some.inj done
  obtain ⟨others, before, left⟩ := held_managers here
  let unloaded : World :=
    { world with managers := world.managers.set manager after.manager }
  have slot' : unloaded.luaMsg lua = some luaMsg := slot
  obtain ⟨rest, middle, filled⟩ := held_luaMsgs (luaMsg_eq_some.mp slot')
  rw [overwritten_of_luaMsg slot]
  refine ⟨owned.accounts, ?_⟩
  calc (world.process.live : Multiset (Nat × Nat))
      = {loaded.entry} + (after.manager.held + others) + leaked := by
        rw [owned.live, before, taken]
        ac_rfl
    _ = {loaded.entry} + (entries (CLuaMsg.messages (some luaMsg)) + rest) + leaked := by
        rw [← middle, ← left after.manager world.process world.busy]
    _ = {loaded.entry} + rest + (entries (CLuaMsg.messages (some luaMsg)) + leaked) := by
        ac_rfl
    _ = _ := congrArg (· + _) (filled (some { m_pMsg := some loaded }) _ _).symm

/-- `SendMsg` hands a message on. -/
theorem Owned.SendMsg {lua manager : Nat} (owned : world.Owned leaked)
    (done : world.SendMsg lua manager = some next) : next.Owned leaked := by
  obtain ⟨message, present, done⟩ := Option.bind_eq_some_iff.mp done
  obtain ⟨current, here, done⟩ := Option.bind_eq_some_iff.mp done
  obtain ⟨others, before, queued⟩ := held_managers here
  let sent : CConnectionManager :=
    (Endpoint.SendMsg message { process := world.process, manager := current }).manager
  have held : sent.held = {message.entry} + current.held := by
    change entries (current.m_sendList ++ [Endpoint.EncodeMsg message.ResetForSend]) +
      entries current.m_recvList = _
    rw [NetMessage.entries_append, add_comm (entries _), add_assoc]
    rfl
  let loaded : World := { world with managers := world.managers.set manager sent }
  have slot : loaded.luaMsgs[lua]? = some (some { m_pMsg := some message }) :=
    message_eq_some present
  obtain ⟨rest, middle, emptied⟩ := held_luaMsgs slot
  cases done
  refine ⟨owned.accounts, ?_⟩
  have moved : {message.entry} + (current.held + others) = {message.entry} + rest := by
    rw [← add_assoc, ← held, ← queued sent world.process world.busy]
    exact middle
  calc (world.process.live : Multiset (Nat × Nat))
      = rest + leaked := by rw [owned.live, before, add_left_cancel moved]
    _ = _ := congrArg (· + _)
      ((emptied (some { m_pMsg := none }) world.process world.busy).trans (zero_add rest)).symm

theorem onlyMessage_keeps {method : NetMessage → NetMessage}
    (keeps : ∀ message process, NetMessage.Keeps message process (method message) process)
    (message : NetMessage) (process : Process) (after : NetMessage) (left : Process)
    (returned : onlyMessage method message process = .ok (after, left)) :
    message.Keeps process after left := by
  cases returned
  exact keeps message process

/-- A message changed through its `CLuaMsg` stays where it is. -/
theorem Owned.onMessage {lua : Nat}
    {method : NetMessage → Process → Except Abort (NetMessage × Process)}
    (keeps : ∀ message process after left, method message process = .ok (after, left) →
      message.Keeps process after left)
    (owned : world.Owned leaked) (done : world.onMessage lua method = some next) :
    next.Owned leaked := by
  obtain ⟨message, present, done⟩ := Option.bind_eq_some_iff.mp done
  obtain ⟨⟨after, left⟩, returned, done⟩ := Option.bind_eq_some_iff.mp done
  obtain rfl := Option.some.inj done
  have kept := keeps _ _ _ _ (toOption_eq_some returned)
  obtain ⟨requests, rfl⟩ := kept.requests
  obtain ⟨rest, before, filled⟩ := held_luaMsgs (message_eq_some present)
  refine ⟨owned.accounts, ?_⟩
  have same : entries (CLuaMsg.messages (some { m_pMsg := some after })) =
      entries (CLuaMsg.messages (some { m_pMsg := some message })) := by
    change after.entry ::ₘ 0 = message.entry ::ₘ 0
    rw [kept.entry]
  calc (world.process.live : Multiset (Nat × Nat))
      = entries (CLuaMsg.messages (some { m_pMsg := some after })) + rest + leaked := by
        rw [owned.live, before, same]
    _ = _ := congrArg (· + _) (filled (some { m_pMsg := some after }) _ _).symm

/-- `gc_T` deletes the message of its object. -/
theorem Owned.gcLuaMsg {lua : Nat} (owned : world.Owned leaked)
    (done : world.gcLuaMsg lua = some next) : next.Owned leaked := by
  obtain ⟨⟨message⟩, slot, done⟩ := Option.bind_eq_some_iff.mp done
  obtain rfl := Option.some.inj done
  obtain ⟨rest, before, emptied⟩ := held_luaMsgs (luaMsg_eq_some.mp slot)
  have live := owned.live
  cases message with
  | none =>
      refine ⟨owned.accounts, ?_⟩
      rw [before] at live
      exact live.trans (congrArg (· + _) (emptied none _ _).symm)
  | some message =>
      have front : (world.process.live : Multiset (Nat × Nat)) =
          message.entry ::ₘ (rest + leaked) := by
        rw [live, before, add_assoc, ← Multiset.singleton_add]
        rfl
      obtain ⟨accounts, left⟩ := NetMessage.delete_accounts owned.accounts front
      refine ⟨accounts, left.trans ?_⟩
      exact congrArg (· + _) ((emptied none _ _).trans (zero_add rest)).symm

/-- A manager's messages among those of all holders. -/
theorem Owned.manager {manager : Nat} {current : CConnectionManager} (owned : world.Owned leaked)
    (here : world.managers[manager]? = some current) :
    ∃ others, Endpoint.Holds others { process := world.process, manager := current } ∧
      ∀ after busy, Endpoint.Holds others after →
        World.Owned leaked { world with
          process := after.process
          managers := world.managers.set manager after.manager
          busy } := by
  obtain ⟨rest, before, left⟩ := held_managers here
  refine ⟨rest + leaked, ⟨owned.accounts, ?_⟩, fun after busy holds => ⟨holds.accounts, ?_⟩⟩
  · rw [owned.live, before, add_assoc]
  · rw [left after.manager after.process busy, add_assoc]
    exact holds.live

/-- `Restart` deletes what the old manager holds. -/
theorem Owned.Restart {manager : Nat} (owned : world.Owned leaked)
    (done : world.Restart manager = some next) : next.Owned leaked := by
  obtain ⟨current, here, done⟩ := Option.bind_eq_some_iff.mp done
  obtain rfl := Option.some.inj done
  obtain ⟨others, holds, stored⟩ := owned.manager here
  have cleared := holds.CloseConnection
  exact stored { process := _, manager := .new } world.busy ⟨cleared.accounts, cleared.live⟩

/-- What settling a manager leaves. -/
theorem settle_cases {manager : Nat} {control : Control}
    (settled : world.settle manager control = some next) :
    ∃ busy, next = { world with
        process := control.endpoint.process
        managers := world.managers.set manager control.endpoint.manager
        busy } ∧
      ∀ running point, busy = some (running, point) →
        running = manager ∧ control = .waiting point control.endpoint := by
  cases control with
  | idle endpoint =>
      obtain rfl := Option.some.inj settled
      exact ⟨none, rfl, fun _ _ running => by cases running⟩
  | waiting point endpoint =>
      obtain rfl := Option.some.inj settled
      refine ⟨some (manager, point), rfl, fun running other same => ?_⟩
      cases same
      exact ⟨rfl, rfl⟩
  | aborted reason endpoint => cases settled

/-- What happens to a manager is a step of its machine which is the manager's own. -/
theorem manage_cases {manager : Nat} {event : Event} (armed : world.Armed)
    (done : world.manage manager event = some next) :
    ∃ current control after, world.managers[manager]? = some current ∧
      control.endpoint = { process := world.process, manager := current } ∧ control.Armed ∧
        event.ofManager = true ∧ Endpoint.machine.step control event = some after ∧
          world.settle manager after = some next := by
  unfold World.manage at done
  split at done
  · next own =>
      obtain ⟨current, here, done⟩ := Option.bind_eq_some_iff.mp done
      obtain ⟨control, stands, done⟩ := Option.bind_eq_some_iff.mp done
      obtain ⟨after, stepped, settled⟩ := Option.bind_eq_some_iff.mp done
      refine ⟨current, control, after, here, ?_, ?_, own, stepped, settled⟩
      all_goals
        unfold World.control at stands
        split at stands
      · cases stands
        rfl
      · split at stands
        · cases stands
          rfl
        · cases stands
      · cases stands
        trivial
      · next running point busy =>
          split at stands
          · next same =>
              cases stands
              exact armed running point current busy (same ▸ here)
          · cases stands
  · cases done

/-- **A manager** leaks nothing. -/
theorem Owned.manage {manager : Nat} {event : Event} (owned : world.Owned leaked)
    (armed : world.Armed) (done : world.manage manager event = some next) :
    next.Owned leaked := by
  obtain ⟨current, control, after, here, same, ready, own, stepped, settled⟩ :=
    manage_cases armed done
  obtain ⟨others, holds, stored⟩ := owned.manager here
  rw [← same] at holds
  obtain ⟨busy, rfl, -⟩ := settle_cases settled
  exact stored after.endpoint busy (Control.Holds.step holds ready own stepped)

/-! ## Steps of the process -/

/-- While the script runs, no manager is in the middle of an `Update`. -/
theorem script_busy {event : WorldEvent} (done : world.script event = some next) :
    next.busy = world.busy := by
  have onMessage (lua : Nat) (method : NetMessage → Process → Except Abort (NetMessage × Process))
      (done : world.onMessage lua method = some next) : next.busy = world.busy := by
    obtain ⟨message, -, done⟩ := Option.bind_eq_some_iff.mp done
    obtain ⟨returned, -, done⟩ := Option.bind_eq_some_iff.mp done
    cases done
    rfl
  cases event with
  | newManager =>
      cases done
      rfl
  | newLuaMsg =>
      cases done
      rfl
  | gcLuaMsg lua =>
      obtain ⟨luaMsg, -, done⟩ := Option.bind_eq_some_iff.mp done
      cases done
      rfl
  | CreateNewMessage lua =>
      obtain ⟨luaMsg, -, done⟩ := Option.bind_eq_some_iff.mp done
      cases done
      rfl
  | LoadMsg lua manager =>
      obtain ⟨luaMsg, -, done⟩ := Option.bind_eq_some_iff.mp done
      obtain ⟨current, -, done⟩ := Option.bind_eq_some_iff.mp done
      obtain ⟨loaded, -, done⟩ := Option.bind_eq_some_iff.mp done
      cases done
      rfl
  | SendMsg lua manager =>
      obtain ⟨message, -, done⟩ := Option.bind_eq_some_iff.mp done
      obtain ⟨current, -, done⟩ := Option.bind_eq_some_iff.mp done
      cases done
      rfl
  | BeginForWrite lua => exact onMessage lua _ done
  | WriteRaw lua buf => exact onMessage lua _ done
  | EndForWrite lua => exact onMessage lua _ done
  | GetSize lua => exact onMessage lua _ done
  | ReadRaw lua size => exact onMessage lua _ (ReadRaw_cases done).2
  | overlongConnect manager addr => cases done
  | Restart manager =>
      obtain ⟨current, -, done⟩ := Option.bind_eq_some_iff.mp done
      cases done
      rfl
  | manager manager event => cases done

/-- An event is taken by a manager or, while none is busy, by the script. -/
theorem step_cases {event : WorldEvent} (stepped : machine.step world event = some next) :
    (∃ manager call, event = .manager manager call ∧ world.manage manager call = some next) ∨
      world.busy = none ∧ world.script event = some next := by
  cases event with
  | manager manager call => exact Or.inl ⟨manager, call, rfl, stepped⟩
  | _ =>
      right
      cases busy : world.busy with
      | none =>
          simp only [machine, busy, Option.isNone_none, ↓reduceIte] at stepped
          exact ⟨rfl, stepped⟩
      | some running =>
          simp only [machine, busy, Option.isNone_some, Bool.false_eq_true, ↓reduceIte] at stepped
          cases stepped

theorem Armed.step {event : WorldEvent} (armed : world.Armed)
    (stepped : machine.step world event = some next) : next.Armed := by
  rcases step_cases stepped with ⟨manager, call, rfl, done⟩ | ⟨idle, done⟩
  · obtain ⟨current, control, after, here, -, ready, -, moved, settled⟩ := manage_cases armed done
    obtain ⟨busy, rfl, waits⟩ := settle_cases settled
    intro running point other midway place
    obtain ⟨rfl, waiting⟩ := waits running point midway
    rw [List.getElem?_set_self (List.getElem?_eq_some_iff.mp here).1] at place
    cases place
    have armed := Control.Armed.step ready moved
    rw [waiting] at armed
    exact armed
  · intro running point other midway
    rw [script_busy done, idle] at midway
    cases midway

/-- **Ownership is kept** but for what an event overwrites. -/
theorem Owned.step {event : WorldEvent} (owned : world.Owned leaked) (armed : world.Armed)
    (stepped : machine.step world event = some next) :
    next.Owned (entries (world.overwritten event) + leaked) := by
  rcases step_cases stepped with ⟨manager, call, rfl, done⟩ | ⟨-, done⟩
  · exact (zero_add leaked).symm ▸ owned.manage armed done
  · cases event with
    | newManager =>
        cases done
        refine ⟨owned.accounts, ?_⟩
        have held : World.held { world with
            managers := world.managers ++ [CConnectionManager.new] } = world.held := by
          simp only [World.held, List.map_append, List.sum_append]
          exact congrArg (_ + ·) (add_zero _)
        exact owned.live.trans (by rw [held]; exact congrArg _ (zero_add leaked).symm)
    | newLuaMsg =>
        cases done
        refine ⟨owned.accounts, ?_⟩
        have held : World.held { world with
            luaMsgs := world.luaMsgs ++ [some CLuaMsg.new] } = world.held := by
          simp only [World.held, List.map_append, List.sum_append]
          exact congrArg (· + _) (add_zero _)
        exact owned.live.trans (by rw [held]; exact congrArg _ (zero_add leaked).symm)
    | gcLuaMsg lua => exact (zero_add leaked).symm ▸ owned.gcLuaMsg done
    | CreateNewMessage lua => exact owned.CreateNewMessage done
    | LoadMsg lua manager => exact owned.LoadMsg done
    | SendMsg lua manager => exact (zero_add leaked).symm ▸ owned.SendMsg done
    | BeginForWrite lua =>
        exact (zero_add leaked).symm ▸
          owned.onMessage (onlyMessage_keeps NetMessage.beginForWrite_keeps) done
    | WriteRaw lua buf =>
        exact (zero_add leaked).symm ▸ owned.onMessage (fun _ _ _ _ returned =>
          (NetMessage.wRaw_writes returned).toKeeps) done
    | EndForWrite lua =>
        exact (zero_add leaked).symm ▸ owned.onMessage (fun _ _ _ _ returned =>
          (NetMessage.endForWrite_keeps returned).1) done
    | GetSize lua =>
        exact (zero_add leaked).symm ▸
          owned.onMessage (onlyMessage_keeps NetMessage.Keeps.refl) done
    | ReadRaw lua size =>
        exact (zero_add leaked).symm ▸
          owned.onMessage (onlyMessage_keeps (NetMessage.rRaw_keeps size)) (ReadRaw_cases done).2
    | overlongConnect manager addr => cases done
    | Restart manager => exact (zero_add leaked).symm ▸ owned.Restart done
    | manager manager event => cases done

/-! ## Runs -/

/-- The record of what has leaked. -/
def leak (leaked : Multiset (Nat × Nat)) (world : World) (event : WorldEvent) :
    Multiset (Nat × Nat) := entries (world.overwritten event) + leaked

/-- Every live message is held or has leaked after every run. -/
theorem owned_of_run (grants : Nat → Bool) (junk : Nat → Memory UInt8) {events : List WorldEvent}
    (reached : machine.run (initial grants junk) events = some world) :
    world.Owned (machine.watch leak 0 (initial grants junk) events) := by
  have idle : (initial grants junk).Armed := by
    intro manager point current midway
    cases midway
  have start : (initial grants junk).Owned 0 := ⟨Process.accounts_initial grants junk, rfl⟩
  refine (Machine.invariant leak (fun leaked world => world.Owned leaked ∧ world.Armed) ?_ 0
    (Machine.Meets.of_forall (fun _ _ => trivial) events _) reached ⟨start, idle⟩).1
  rintro leaked world event next - ⟨owned, armed⟩ stepped
  exact ⟨owned.step armed stepped, armed.step stepped⟩

/-- Who holds what, and which buffer is whose. -/
structure OwnedOnce (world : World) : Prop where
  /-- No message is held in two places. -/
  held : (world.messages.map NetMessage.address).Nodup
  /-- What is held is live, with the buffer that it has there. -/
  live : ∀ message ∈ world.messages, message.entry ∈ world.process.live
  /-- No message is deleted twice, and none that was deleted is live. -/
  deleted : (world.process.live.map Prod.fst ++ world.process.deleted).Nodup
  /-- No buffer is twice in the pool, with two live messages, or in both places. -/
  buffers : (world.process.m_pool.map MemBuffer.address ++ world.process.live.map Prod.snd).Nodup

/-- What is held is live. -/
theorem Owned.mem_live (owned : world.Owned leaked) {message : NetMessage}
    (member : message ∈ world.messages) : message.entry ∈ world.process.live := by
  have held : message.entry ∈ world.held := by
    rw [← entries_messages]
    exact List.mem_map_of_mem member
  rw [← Multiset.mem_coe, owned.live]
  exact Multiset.mem_add.mpr (Or.inl held)

theorem Owned.ownedOnce (owned : world.Owned leaked) : world.OwnedOnce where
  held := by
    have unique := Ledger.Sound.held_nodup owned.accounts owned.live
    rw [← entries_messages, entries, Multiset.map_coe, List.map_map] at unique
    exact unique
  live := fun _ member => owned.mem_live member
  deleted := by
    rw [← Multiset.coe_nodup, ← Multiset.coe_add]
    exact Ledger.Sound.keys_nodup owned.accounts
  buffers := by
    rw [← Multiset.coe_nodup, ← Multiset.coe_add, add_comm]
    exact Ledger.Sound.parts_nodup owned.accounts

/-- **No double ownership**, whatever the script does and the sockets answer. -/
theorem ownership (grants : Nat → Bool) (junk : Nat → Memory UInt8) {events : List WorldEvent}
    (reached : machine.run (initial grants junk) events = some world) : world.OwnedOnce :=
  (owned_of_run grants junk reached).ownedOnce

/-- The addresses of what is held, of what is live, of what was deleted and of
what is in the pool. -/
def addresses (world : World) : List Nat × List (Nat × Nat) × List Nat × List Nat :=
  (world.messages.map NetMessage.address, world.process.live, world.process.deleted,
    world.process.m_pool.map MemBuffer.address)

/-- A message is written, sent and deleted, and its buffer goes to the next one,
which is received and loaded before the manager is destroyed. -/
def recycling : List WorldEvent :=
  .newManager :: .newLuaMsg :: establishing.map (WorldEvent.manager 0) ++
    [.CreateNewMessage 0, .BeginForWrite 0, .WriteRaw 0 [7], .EndForWrite 0, .SendMsg 0 0,
      .manager 0 (.Update 1),
      .manager 0 (.reply (.select { ret := 2, read := true, write := true, error := false })),
      .manager 0 (.reply (.send 3)), .manager 0 (.reply (.select .readable)),
      .manager 0 (.reply (.recv [0, 1])), .manager 0 (.reply (.select .readable)),
      .manager 0 (.reply (.recv [9])), .manager 0 (.reply (.select .quiet)), .LoadMsg 0 0,
      .Restart 0]

theorem ownership_of_recycling :
    ∃ world, machine.run (initial (fun _ => true) fun _ _ => 0) recycling = some world ∧
      world.addresses = ([1], [(1, 0)], [0], [1, 2, 3, 4, 5, 6, 7, 8, 9, 10]) ∧
        world.OwnedOnce := by
  have ran : (machine.run (initial (fun _ => true) fun _ _ => 0) recycling).map addresses =
      some ([1], [(1, 0)], [0], [1, 2, 3, 4, 5, 6, 7, 8, 9, 10]) := by decide +kernel
  obtain ⟨world, reached, seen⟩ := Option.map_eq_some_iff.mp ran
  exact ⟨world, reached, seen, ownership _ _ reached⟩

end World

end EngSocket
