import EngSocket.Script.Ownership

/-!
# Sound buffers in a whole process

As long as the allocator refuses nothing, every buffer that a script object, a
manager or the pool has was made with 512, 1024 or 65536 bytes and has only been
doubled since. No call of the script and no answer of a socket makes a difference
(`EngSocket.World.Sound.step`).
-/

namespace EngSocket

open Foundation

namespace World

/-- Nothing is refused, and every buffer in the process has a sound capacity. -/
structure Sound (world : World) : Prop where
  generous : world.process.Generous
  pool : world.process.PoolSound
  luaMsgs : ∀ slot ∈ world.luaMsgs, ∀ message ∈ CLuaMsg.messages slot, message.m_buffer.Sound
  managers : ∀ manager ∈ world.managers, ∀ message ∈ manager.messages, message.m_buffer.Sound

variable {world next : World}

/-- The message of a `CLuaMsg` has a sound buffer. -/
theorem Sound.message (sound : world.Sound) {lua : Nat} {message : NetMessage}
    (holds : world.message lua = some message) : message.m_buffer.Sound :=
  sound.luaMsgs _ (List.mem_of_getElem? (message_eq_some holds)) message
    (List.mem_singleton_self message)

/-- A manager of a sound process is sound. -/
theorem Sound.endpoint (sound : world.Sound) {manager : Nat} {current : CConnectionManager}
    (here : world.managers[manager]? = some current) :
    Endpoint.Sound { process := world.process, manager := current } := by
  have messages := sound.managers current (List.mem_of_getElem? here)
  refine ⟨sound.generous, sound.pool, fun message member => ?_, fun message member => ?_⟩
  · exact messages message (List.mem_append_left _ member)
  · exact messages message (List.mem_append_right _ member)

/-- A manager is stored back with what a sound call has left. -/
theorem Sound.setManager (sound : world.Sound) {after : Endpoint} (kept : after.Sound)
    (manager : Nat) (busy : Option (Nat × Point)) :
    Sound { world with
      process := after.process, managers := world.managers.set manager after.manager, busy } := by
  refine ⟨kept.generous, kept.pool, sound.luaMsgs, fun other member => ?_⟩
  rcases List.mem_or_eq_of_mem_set member with old | rfl
  · exact sound.managers other old
  · intro message listed
    rcases List.mem_append.mp listed with sending | received
    · exact kept.sendList message sending
    · exact kept.recvList message received

/-- Another pool, and another message for a script object. -/
theorem Sound.setMessage (sound : world.Sound) {process : Process} (generous : process.Generous)
    (pool : process.PoolSound) {message : Option NetMessage}
    (filled : ∀ other ∈ message, other.m_buffer.Sound) (lua : Nat) :
    Sound (setMessage lua message { world with process }) := by
  refine ⟨generous, pool, fun slot member => ?_, sound.managers⟩
  rcases List.mem_or_eq_of_mem_set member with old | rfl
  · exact sound.luaMsgs slot old
  · intro other held
    exact filled other (Option.mem_toList.mp held)

/-! ## Steps -/

theorem Sound.CreateNewMessage {lua : Nat} (sound : world.Sound)
    (done : world.CreateNewMessage lua = some next) : next.Sound := by
  obtain ⟨luaMsg, -, done⟩ := Option.bind_eq_some_iff.mp done
  obtain rfl := Option.some.inj done
  obtain ⟨buffer, left⟩ := Process.Stocked.require_message sound.pool sound.generous.supplies
  have generous := (NetMessage.new_sound sound.generous sound.pool).2
  exact sound.setMessage generous left (fun other same => Option.some.inj same ▸ buffer) lua

theorem Sound.LoadMsg {lua manager : Nat} (sound : world.Sound)
    (done : world.LoadMsg lua manager = some next) : next.Sound := by
  obtain ⟨luaMsg, -, done⟩ := Option.bind_eq_some_iff.mp done
  obtain ⟨current, here, done⟩ := Option.bind_eq_some_iff.mp done
  obtain ⟨⟨loaded, after⟩, loads, done⟩ := Option.bind_eq_some_iff.mp done
  obtain rfl := Option.some.inj done
  obtain ⟨message, rest, front, rfl, rfl⟩ := Endpoint.LoadMsg_ok (toOption_eq_some loads)
  have endpoint := sound.endpoint here
  have queued : message ∈ current.m_recvList := by
    change current.m_recvList = message :: rest at front
    rw [front]
    exact List.mem_cons_self
  have removed := (Endpoint.Move.load rfl front).sound trivial endpoint
  have taken := sound.setManager removed manager world.busy
  refine taken.setMessage taken.generous taken.pool ?_ lua
  intro other same
  exact Option.some.inj same ▸ endpoint.recvList message queued

theorem Sound.SendMsg {lua manager : Nat} (sound : world.Sound)
    (done : world.SendMsg lua manager = some next) : next.Sound := by
  obtain ⟨message, holds, done⟩ := Option.bind_eq_some_iff.mp done
  obtain ⟨current, here, done⟩ := Option.bind_eq_some_iff.mp done
  obtain rfl := Option.some.inj done
  have queued := (Endpoint.Move.queue message rfl).sound (sound.message holds) (sound.endpoint here)
  have moved := sound.setManager queued manager world.busy
  exact moved.setMessage moved.generous moved.pool
    (fun other none_ => absurd none_ (Option.not_mem_none other)) lua

/-- A message changed through its `CLuaMsg` keeps a sound buffer. -/
theorem Sound.onMessage {lua : Nat}
    {method : NetMessage → Process → Except Abort (NetMessage × Process)}
    (keeps : ∀ message process after left, method message process = .ok (after, left) →
      message.Keeps process after left)
    (sound : world.Sound) (done : world.onMessage lua method = some next) : next.Sound := by
  obtain ⟨message, holds, done⟩ := Option.bind_eq_some_iff.mp done
  obtain ⟨⟨after, left⟩, returned, done⟩ := Option.bind_eq_some_iff.mp done
  obtain rfl := Option.some.inj done
  have kept := keeps message world.process after left (toOption_eq_some returned)
  obtain ⟨requests, rfl⟩ := kept.requests
  have generous : Process.Generous { world.process with requests } := sound.generous
  exact sound.setMessage generous sound.pool
    (fun other same => Option.some.inj same ▸ kept.sound (sound.message holds)) lua

/-- `gc_T` gives the buffer of the message back to the pool. -/
theorem Sound.gcLuaMsg {lua : Nat} (sound : world.Sound)
    (done : world.gcLuaMsg lua = some next) : next.Sound := by
  obtain ⟨⟨message⟩, slot, done⟩ := Option.bind_eq_some_iff.mp done
  obtain rfl := Option.some.inj done
  have others : ∀ slot ∈ world.luaMsgs.set lua none, ∀ message ∈ CLuaMsg.messages slot,
      message.m_buffer.Sound := by
    intro slot member
    rcases List.mem_or_eq_of_mem_set member with old | rfl
    · exact sound.luaMsgs slot old
    · exact List.forall_mem_nil _
  cases message with
  | none => exact ⟨sound.generous, sound.pool, others, sound.managers⟩
  | some message =>
      have here : message.m_buffer.Sound :=
        sound.luaMsgs _ (List.mem_of_getElem? (luaMsg_eq_some.mp slot)) message
          (List.mem_singleton_self message)
      exact ⟨sound.generous, Endpoint.Stocked.delete sound.pool here, others, sound.managers⟩

/-- `Restart` gives the buffers of the old manager back to the pool. -/
theorem Sound.Restart {manager : Nat} (sound : world.Sound)
    (done : world.Restart manager = some next) : next.Sound := by
  obtain ⟨current, here, done⟩ := Option.bind_eq_some_iff.mp done
  obtain rfl := Option.some.inj done
  let cleared := Endpoint.CloseConnection { process := world.process, manager := current }
  have kept : cleared.Sound :=
    (Endpoint.CloseConnection_moves _ : Endpoint.Moves .CloseConnection _ cleared).keep
      (fun _ _ move => move.sound trivial) (sound.endpoint here)
  have replaced : Endpoint.Sound { process := cleared.process, manager := .new } :=
    ⟨kept.generous, kept.pool, List.forall_mem_nil _, List.forall_mem_nil _⟩
  exact sound.setManager replaced manager world.busy

/-- **A manager** keeps the buffers sound at every event. -/
theorem Sound.manage {manager : Nat} {event : Event} (sound : world.Sound) (armed : world.Armed)
    (done : world.manage manager event = some next) : next.Sound := by
  obtain ⟨current, control, after, here, same, ready, own, stepped, settled⟩ :=
    manage_cases armed done
  have endpoint := sound.endpoint here
  rw [← same] at endpoint
  have allowed : event.Sound := by
    cases event with
    | SendMsg message => cases own
    | _ => trivial
  obtain ⟨busy, rfl, -⟩ := settle_cases settled
  exact sound.setManager (Control.Sound.step endpoint ready allowed stepped) manager busy

/-- **Soundness is kept** by every step of the process. -/
theorem Sound.step {event : WorldEvent} (sound : world.Sound) (armed : world.Armed)
    (stepped : machine.step world event = some next) : next.Sound := by
  rcases step_cases stepped with ⟨manager, call, rfl, done⟩ | ⟨-, done⟩
  · exact sound.manage armed done
  · cases event with
    | newManager =>
        cases done
        refine ⟨sound.generous, sound.pool, sound.luaMsgs, fun manager member => ?_⟩
        rcases List.mem_append.mp member with old | new
        · exact sound.managers manager old
        · rw [List.mem_singleton.mp new]
          exact List.forall_mem_nil _
    | newLuaMsg =>
        cases done
        refine ⟨sound.generous, sound.pool, fun slot member => ?_, sound.managers⟩
        rcases List.mem_append.mp member with old | new
        · exact sound.luaMsgs slot old
        · rw [List.mem_singleton.mp new]
          exact List.forall_mem_nil _
    | gcLuaMsg lua => exact sound.gcLuaMsg done
    | CreateNewMessage lua => exact sound.CreateNewMessage done
    | LoadMsg lua manager => exact sound.LoadMsg done
    | SendMsg lua manager => exact sound.SendMsg done
    | BeginForWrite lua =>
        exact sound.onMessage (onlyMessage_keeps NetMessage.beginForWrite_keeps) done
    | WriteRaw lua buf =>
        exact sound.onMessage
          (fun _ _ _ _ returned => (NetMessage.wRaw_writes returned).toKeeps) done
    | EndForWrite lua =>
        exact sound.onMessage
          (fun _ _ _ _ returned => (NetMessage.endForWrite_keeps returned).1) done
    | GetSize lua => exact sound.onMessage (onlyMessage_keeps NetMessage.Keeps.refl) done
    | ReadRaw lua size =>
        exact sound.onMessage (onlyMessage_keeps (NetMessage.rRaw_keeps size)) (ReadRaw_cases done).2
    | overlongConnect manager addr => cases done
    | Restart manager => exact sound.Restart done
    | manager manager event => cases done

/-- At first there are no buffers. -/
theorem sound_initial (junk : Nat → Memory UInt8) : (initial (fun _ => true) junk).Sound :=
  ⟨fun _ => rfl, List.forall_mem_nil _, List.forall_mem_nil _, List.forall_mem_nil _⟩

theorem armed_initial (grants : Nat → Bool) (junk : Nat → Memory UInt8) :
    (initial grants junk).Armed := by
  intro manager point current midway
  cases midway

end World

end EngSocket
