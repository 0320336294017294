import EngSocket.Reception.Shape
import EngSocket.Script.Ownership
import EngSocket.Transmission.Ending

/-!
# What a script can queue

Whatever calls made it, a message that a `CLuaMsg` holds has one of few layouts
(`EngSocket.World.Laid`), and the loop on it ends exactly if its size is known and
its end an `int` when `SendMsg` is called (`EngSocket.World.sendsOut_iff`). A new
message that nothing was written to, one that was received up to its header and
one that was ended without a beginning are of negative size.
-/

namespace EngSocket

open Foundation

namespace NetMessage

variable {message after : NetMessage} {process left : Process}

/-- A writer leaves size and layout as they are. -/
theorem Laid.of_writes (laid : message.Laid) (writes : message.Writes process after left) :
    after.Laid := by
  obtain ⟨size, layout⟩ := laid
  refine ⟨writes.size.trans_lt size, ?_⟩
  rw [writes.size, writes.headSize, writes.start]
  exact layout

/-- `endForWrite` takes one of two layouts, whatever was there. -/
theorem laid_of_endForWrite (done : message.endForWrite process = .ok (after, left)) :
    after.Laid := by
  obtain ⟨-, size, -, header⟩ := endForWrite_keeps done
  refine ⟨size.trans_lt (int32_lt _), ?_⟩
  rcases header with ⟨-, head, start⟩ | ⟨short, head, start⟩
  · exact Or.inl ⟨start, Or.inr (Or.inr head)⟩
  · exact Or.inr ⟨start, head, short⟩

/-- A message that is loaded has the layout it was received with. -/
theorem Incoming.laid (incoming : message.Incoming) : message.ResetForRead.Laid where
  size := incoming.size
  layout := Or.inl ⟨incoming.start, incoming.headSize.elim Or.inl fun four => Or.inr (Or.inl four)⟩

/-- A new message has no size yet. -/
theorem laid_of_new (size : Int) (process : Process) : (new size process).1.Laid where
  size := (by decide : (-1 : Int) < 2147483648)
  layout := Or.inl ⟨rfl, Or.inl rfl⟩

end NetMessage

/-- All that a manager holds for a script has come from the peer. -/
def CConnectionManager.Incoming (manager : CConnectionManager) : Prop :=
  ∀ message ∈ manager.m_recvList, message.Incoming

/-- **A move keeps the layout** of what was received. -/
theorem Endpoint.Move.incoming {event : Event} {before after : Endpoint}
    (move : Move event before after) (incoming : before.manager.Incoming) :
    after.manager.Incoming := by
  cases move with
  | same same =>
      intro message member
      exact incoming message (same.recvList ▸ member)
  | deleteReceived front =>
      intro message member
      exact incoming message (front ▸ List.mem_cons_of_mem _ member)
  | push ended =>
      intro message member
      rw [pushNewMessage_recvList] at member
      rcases List.mem_append.mp member with old | new
      · exact incoming message old
      · rw [List.mem_singleton.mp new]
        exact (NetMessage.Received.new 512 before.process).toIncoming
  | @received message filled after older process bytes called nonempty back incomplete stored
      received =>
      unfold CConnectionManager.Incoming at incoming
      rw [back, List.forall_mem_append, List.forall_mem_singleton] at incoming
      intro other member
      rcases List.mem_append.mp member with old | new
      · exact incoming.1 other old
      · rw [List.mem_singleton.mp new]
        exact (incoming.2.of_writes
          (NetMessage.storeAtCursor_writes stored before.process)).onReceive received
  | load called front =>
      intro message member
      exact incoming message (List.mem_of_mem_eraseP member)
  | _ => exact incoming

namespace World

/-- The messages of the script objects are laid out, and those received are as the
peer can make them. -/
structure Laid (world : World) : Prop where
  luaMsgs : ∀ slot ∈ world.luaMsgs, ∀ message ∈ CLuaMsg.messages slot, message.Laid
  managers : ∀ manager ∈ world.managers, manager.Incoming

variable {world next : World}

theorem Laid.setMessage (laid : world.Laid) {message : Option NetMessage}
    (filled : ∀ other ∈ message, other.Laid) (lua : Nat) :
    (world.setMessage lua message).Laid := by
  refine ⟨fun slot member => ?_, laid.managers⟩
  rcases List.mem_or_eq_of_mem_set member with old | rfl
  · exact laid.luaMsgs slot old
  · intro other held
    exact filled other (Option.mem_toList.mp held)

theorem Laid.setManager (laid : world.Laid) {after : CConnectionManager}
    (incoming : after.Incoming) (manager : Nat) (process : Process) (busy : Option (Nat × Point)) :
    Laid { world with process, managers := world.managers.set manager after, busy } := by
  refine ⟨laid.luaMsgs, fun other member => ?_⟩
  rcases List.mem_or_eq_of_mem_set member with old | rfl
  · exact laid.managers other old
  · exact incoming

theorem Laid.message (laid : world.Laid) {lua : Nat} {message : NetMessage}
    (holds : world.message lua = some message) : message.Laid := by
  apply laid.luaMsgs _ (List.mem_of_getElem? (message_eq_some holds)) message
  exact List.mem_singleton_self message

theorem Laid.onMessage (laid : world.Laid) {lua : Nat}
    {method : NetMessage → Process → Except Abort (NetMessage × Process)}
    (keeps : ∀ message process after left, message.Laid →
      method message process = .ok (after, left) → after.Laid)
    (done : world.onMessage lua method = some next) : next.Laid := by
  obtain ⟨message, holds, done⟩ := Option.bind_eq_some_iff.mp done
  obtain ⟨⟨after, left⟩, returned, done⟩ := Option.bind_eq_some_iff.mp done
  obtain rfl := Option.some.inj done
  have kept := keeps message world.process after left (laid.message holds)
    (toOption_eq_some returned)
  have moved : Laid { world with process := left } := ⟨laid.luaMsgs, laid.managers⟩
  exact moved.setMessage (fun other same => Option.some.inj same ▸ kept) lua

/-- A script loads what was received. -/
theorem Laid.LoadMsg {lua manager : Nat} (laid : world.Laid)
    (done : world.LoadMsg lua manager = some next) : next.Laid := by
  obtain ⟨luaMsg, -, done⟩ := Option.bind_eq_some_iff.mp done
  obtain ⟨current, here, done⟩ := Option.bind_eq_some_iff.mp done
  obtain ⟨⟨loaded, after⟩, loads, done⟩ := Option.bind_eq_some_iff.mp done
  obtain rfl := Option.some.inj done
  obtain ⟨message, rest, front, rfl, rfl⟩ := Endpoint.LoadMsg_ok (toOption_eq_some loads)
  have incoming := laid.managers current (List.mem_of_getElem? here)
  have queued : message ∈ current.m_recvList := by
    change current.m_recvList = message :: rest at front
    rw [front]
    exact List.mem_cons_self
  apply Laid.setMessage ?_ fun other same => Option.some.inj same ▸ (incoming message queued).laid
  apply laid.setManager
  intro other member
  exact incoming other (List.mem_of_mem_eraseP member)

/-- A `CLuaMsg` that has sent its message has none. -/
theorem Laid.SendMsg {lua manager : Nat} (laid : world.Laid)
    (done : world.SendMsg lua manager = some next) : next.Laid := by
  obtain ⟨message, -, done⟩ := Option.bind_eq_some_iff.mp done
  obtain ⟨current, here, done⟩ := Option.bind_eq_some_iff.mp done
  obtain rfl := Option.some.inj done
  apply Laid.setMessage ?_ fun other none_ => absurd none_ (Option.not_mem_none other)
  have incoming : CConnectionManager.Incoming
      (Endpoint.SendMsg message { process := world.process, manager := current }).manager :=
    laid.managers current (List.mem_of_getElem? here)
  exact laid.setManager incoming manager world.process world.busy

/-- **Every step keeps the layouts.** -/
theorem Laid.step {event : WorldEvent} (laid : world.Laid) (armed : world.Armed)
    (stepped : machine.step world event = some next) : next.Laid := by
  rcases step_cases stepped with ⟨manager, call, rfl, done⟩ | ⟨-, done⟩
  · obtain ⟨current, control, after, here, same, ready, -, moved, settled⟩ :=
      manage_cases armed done
    obtain ⟨busy, rfl, -⟩ := settle_cases settled
    apply laid.setManager
    apply (Control.moves ready moved).keep fun _ _ move incoming => move.incoming incoming
    rw [same]
    exact laid.managers current (List.mem_of_getElem? here)
  · cases event with
    | newManager =>
        cases done
        refine ⟨laid.luaMsgs, fun manager member => ?_⟩
        rcases List.mem_append.mp member with old | new
        · exact laid.managers manager old
        · rw [List.mem_singleton.mp new]
          exact List.forall_mem_nil _
    | newLuaMsg =>
        cases done
        refine ⟨fun slot member => ?_, laid.managers⟩
        rcases List.mem_append.mp member with old | new
        · exact laid.luaMsgs slot old
        · rw [List.mem_singleton.mp new]
          exact List.forall_mem_nil _
    | gcLuaMsg lua =>
        obtain ⟨luaMsg, -, done⟩ := Option.bind_eq_some_iff.mp done
        obtain rfl := Option.some.inj done
        refine ⟨fun slot member => ?_, laid.managers⟩
        rcases List.mem_or_eq_of_mem_set member with old | rfl
        · exact laid.luaMsgs slot old
        · exact List.forall_mem_nil _
    | CreateNewMessage lua =>
        obtain ⟨luaMsg, -, done⟩ := Option.bind_eq_some_iff.mp done
        have after : next = World.setMessage lua (some (NetMessage.new 512 world.process).1)
            { world with process := (NetMessage.new 512 world.process).2 } :=
          (Option.some.inj done).symm
        have moved : Laid { world with process := (NetMessage.new 512 world.process).2 } :=
          ⟨laid.luaMsgs, laid.managers⟩
        rw [after]
        refine moved.setMessage ?_ lua
        intro other same
        exact Option.some.inj same ▸ NetMessage.laid_of_new 512 world.process
    | LoadMsg lua manager => exact laid.LoadMsg done
    | SendMsg lua manager => exact laid.SendMsg done
    | BeginForWrite lua =>
        apply laid.onMessage ?_ done
        intro message process after left laid returned
        cases returned
        exact ⟨laid.size, laid.layout⟩
    | WriteRaw lua buf =>
        apply laid.onMessage ?_ done
        intro message process after left laid returned
        exact laid.of_writes (NetMessage.wRaw_writes returned)
    | EndForWrite lua =>
        apply laid.onMessage ?_ done
        intro message process after left laid returned
        exact NetMessage.laid_of_endForWrite returned
    | GetSize lua =>
        apply laid.onMessage ?_ done
        intro message process after left laid returned
        cases returned
        exact laid
    | overlongConnect manager addr => cases done
    | ReadRaw lua size =>
        apply laid.onMessage ?_ (ReadRaw_cases done).2
        intro message process after left laid returned
        cases returned
        unfold NetMessage.rRaw
        split
        · exact laid
        · exact ⟨laid.size, laid.layout⟩
    | Restart manager =>
        obtain ⟨current, here, done⟩ := Option.bind_eq_some_iff.mp done
        obtain rfl := Option.some.inj done
        have empty : CConnectionManager.new.Incoming := fun other => List.not_mem_nil.elim
        exact laid.setManager empty manager _ _
    | manager manager event => cases done

/-- Every message is laid out in one of the known ways after every run. -/
theorem laid_of_run {grants : Nat → Bool} {junk : Nat → Memory UInt8} {events : List WorldEvent}
    (reached : machine.run (initial grants junk) events = some world) : world.Laid := by
  have idle : (initial grants junk).Armed := by
    intro manager point current midway
    cases midway
  have start : (initial grants junk).Laid := by
    refine ⟨fun slot member => ?_, fun manager member => ?_⟩
    · cases member
    · cases member
  refine (Machine.state_invariant (fun world => world.Laid ∧ world.Armed) ?_
    (Machine.Meets.of_forall (fun _ _ => trivial) events _) reached ⟨start, idle⟩).1
  rintro world event next - ⟨laid, armed⟩ stepped
  exact ⟨laid.step armed stepped, armed.step stepped⟩

/-- **Every message that a script can queue.** After any run, `SendMsg` puts the
message that a `CLuaMsg` holds at the end of a send list, and `Update` sends it out
exactly if its size is known and its end an `int`. -/
theorem sendsOut_iff {grants : Nat → Bool} {junk : Nat → Memory UInt8} {events : List WorldEvent}
    (reached : machine.run (initial grants junk) events = some world) {lua manager : Nat}
    {message : NetMessage} (holds : world.message lua = some message)
    (queued : machine.step world (.SendMsg lua manager) = some next) :
    ∃ before after : CConnectionManager,
      world.managers[manager]? = some before ∧ next.managers[manager]? = some after ∧
        after.m_sendList = before.m_sendList ++ [message.ResetForSend] ∧
          (message.ResetForSend.SendsOut ↔
            0 ≤ message.m_size ∧ message.m_size + message.m_headSize < 2147483648) := by
  have laid := (laid_of_run reached).message holds
  rcases step_cases queued with ⟨other, call, same, -⟩ | ⟨-, done⟩
  · cases same
  · obtain ⟨same, held, done⟩ := Option.bind_eq_some_iff.mp done
    obtain ⟨before, here, done⟩ := Option.bind_eq_some_iff.mp done
    obtain rfl := Option.some.inj done
    cases holds.symm.trans held
    refine ⟨before, (Endpoint.SendMsg message
      { process := world.process, manager := before }).manager, here, ?_, rfl, laid.loop_ends_iff⟩
    exact List.getElem?_set_self (List.getElem?_eq_some_iff.mp here).1

/-- A message with a payload of one byte is created, written and ended. -/
def writing : List WorldEvent :=
  [.newManager, .newLuaMsg, .CreateNewMessage 0, .BeginForWrite 0, .WriteRaw 0 [7], .EndForWrite 0]

theorem sendsOut_of_writing :
    ∃ world message, machine.run (initial (fun _ => true) fun _ _ => 0) writing = some world ∧
      world.message 0 = some message ∧ message.ResetForSend.SendsOut := by
  have ran : ((machine.run (initial (fun _ => true) fun _ _ => 0) writing).bind fun world =>
      (world.message 0).bind fun message => (machine.step world (.SendMsg 0 0)).map fun _ =>
        (message.m_size, message.m_headSize)) = some (1, 2) := by decide +kernel
  obtain ⟨world, reached, ran⟩ := Option.bind_eq_some_iff.mp ran
  obtain ⟨message, holds, ran⟩ := Option.bind_eq_some_iff.mp ran
  obtain ⟨next, queued, numbers⟩ := Option.map_eq_some_iff.mp ran
  obtain ⟨size, headSize⟩ := Prod.mk.inj numbers
  obtain ⟨before, after, -, -, -, ends⟩ := sendsOut_iff reached holds queued
  exact ⟨world, message, reached, holds, ends.mpr ⟨by omega, by omega⟩⟩

/-- A new message is queued as it is: one byte of it is sent, and then none, for ever. -/
theorem not_sendsOut_of_new :
    ∃ world message next,
      machine.run (initial (fun _ => true) fun _ _ => 0)
          [.newManager, .newLuaMsg, .CreateNewMessage 0] = some world ∧
        world.message 0 = some message ∧ machine.step world (.SendMsg 0 0) = some next ∧
          message.ResetForSend.SendsForever ∧ ¬ message.ResetForSend.SendsOut := by
  have ran : ((machine.run (initial (fun _ => true) fun _ _ => 0)
      [.newManager, .newLuaMsg, .CreateNewMessage 0]).bind fun world =>
        (world.message 0).bind fun message => (machine.step world (.SendMsg 0 0)).map fun _ =>
          message.m_size) = some (-1) := by decide +kernel
  obtain ⟨world, reached, ran⟩ := Option.bind_eq_some_iff.mp ran
  obtain ⟨message, holds, ran⟩ := Option.bind_eq_some_iff.mp ran
  obtain ⟨next, queued, size⟩ := Option.map_eq_some_iff.mp ran
  have forever := ((laid_of_run reached).message holds).sendsForever (by omega)
  exact ⟨world, message, next, reached, holds, queued, forever, forever.not_sendsOut⟩

end World

end EngSocket
