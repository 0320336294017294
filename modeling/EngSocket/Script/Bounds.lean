import EngSocket.Script.Crashes
import EngSocket.Transmission.Queue

/-!
# What is read of a block

`send` is handed a block and a number of bytes, and the `dump` in `LoadMsg` walks over
as many bytes as a message says to have. Neither goes beyond the block, in any run in
which scripts end what they have begun to write and peers announce lengths that a buffer
can hold (`EngSocket.World.reads_inside`).
-/

namespace EngSocket

open Foundation

namespace NetMessage

/-- The bytes that `dump` prints. -/
def dump (message : NetMessage) : List UInt8 :=
  message.m_buffer.m_buf.read 0 (int32 (message.m_size + message.m_headSize)).toNat

/-- Header and payload lie in the block. -/
structure Contained (message : NetMessage) : Prop where
  start : 0 ≤ message.m_bufStartPos
  length : 0 ≤ message.m_headSize + message.m_size
  fits : message.m_bufStartPos + message.m_headSize + message.m_size ≤ message.m_buffer.m_size

/-- A message to be sent: the cursor is between the ends of what lies in the block. -/
structure Outgoing (message : NetMessage) : Prop extends Contained message where
  low : message.m_bufStartPos ≤ message.m_curPos
  high : message.m_curPos ≤ message.m_bufStartPos + message.m_headSize + message.m_size

variable {message after : NetMessage} {process left : Process}

/-- Nothing but the cursor and a larger block. -/
theorem Contained.of_same (contained : message.Contained)
    (start : after.m_bufStartPos = message.m_bufStartPos)
    (headSize : after.m_headSize = message.m_headSize) (size : after.m_size = message.m_size)
    (grown : message.m_buffer.m_size ≤ after.m_buffer.m_size) : after.Contained := by
  obtain ⟨low, length, fits⟩ := contained
  exact ⟨by omega, by omega, by omega⟩

/-- **What is being received** lies in its block. -/
theorem InReception.contained (received : message.InReception) : message.Contained := by
  rcases received with ⟨phase, reading⟩ | ⟨item, complete⟩
  · obtain ⟨-, start, size, headSize, -, -, room, -, -⟩ := reading
    obtain ⟨stage, got⟩ := phase
    cases stage with
    | short =>
        simp only [Stage.head, Stage.width, Stage.sizeField, Stage.headSize, List.length_nil] at *
        exact ⟨by omega, by omega, by omega⟩
    | long =>
        simp only [Stage.head, Stage.width, Stage.sizeField, Stage.headSize, List.length_nil] at *
        exact ⟨by omega, by omega, by omega⟩
    | body head =>
        simp only [Stage.head, Stage.width, Stage.sizeField, Stage.headSize] at *
        exact ⟨by omega, by omega, by omega⟩
  · obtain ⟨-, start, size, headSize, -, -, room, -⟩ := complete
    exact ⟨by omega, by omega, by omega⟩

theorem wRaw_contained (sound : message.m_buffer.Sound) (generous : process.Generous)
    {buf : List UInt8} (contained : message.Contained)
    (done : message.wRaw buf process = .ok (after, left)) : after.Contained := by
  have room := (wRaw_returns_iff sound generous buf).mp ⟨_, _, done⟩
  cases buf with
  | nil =>
      obtain ⟨grown, requests, written, extension⟩ := wRaw_nil sound generous room
      cases written.symm.trans done
      exact contained.of_same rfl rfl rfl extension.size
  | cons byte rest =>
      obtain ⟨low, bounded⟩ := room
      obtain ⟨grown, requests, written, -, extension, -⟩ :=
        wRaw_appends (byte :: rest) message process sound.roomy generous low bounded
      cases written.symm.trans done
      exact contained.of_same rfl rfl rfl extension.size

/-- `endForWrite` fills in a header below the cursor, for which there is room. -/
theorem endForWrite_capacity (roomy : message.m_buffer.Roomy)
    (done : message.endForWrite process = .ok (after, left)) :
    after.m_buffer.m_size = message.m_buffer.m_size := by
  have least := roomy.least
  have ranged := roomy.ranged
  unfold endForWrite at done
  simp only [bind, Except.bind] at done
  split at done
  · rw [wUShort_eq (by simp only; omega) (by simp only; omega) (by exact ranged)] at done
    simp only at done
    rw [wUInt_eq (by simp only [put, length_bigEndianBytes]; omega)
      (by simp only [put, length_bigEndianBytes]; omega) (by exact ranged)] at done
    cases done
    rfl
  · rw [wUShort_eq (by simp only; omega) (by simp only; omega) (by exact ranged)] at done
    cases done
    rfl

/-- The payload ends where the cursor was. -/
theorem endForWrite_contained (roomy : message.m_buffer.Roomy) (begun : 6 ≤ message.m_curPos)
    (inside : message.m_curPos ≤ message.m_buffer.m_size)
    (done : message.endForWrite process = .ok (after, left)) : after.Contained := by
  have ranged : message.m_buffer.m_size < 2147483648 := roomy.ranged
  have capacity := endForWrite_capacity roomy done
  obtain ⟨-, size, -, header⟩ := endForWrite_keeps done
  rw [int32_of_range (by omega) (by omega)] at size
  rcases header with ⟨-, headSize, start⟩ | ⟨-, headSize, start⟩
  · exact ⟨by omega, by omega, by omega⟩
  · exact ⟨by omega, by omega, by omega⟩

theorem Contained.resetForSend (contained : message.Contained) : message.ResetForSend.Outgoing where
  toContained := contained.of_same rfl rfl rfl le_rfl
  low := le_rfl
  high := by
    have length := contained.length
    simp only [ResetForSend]
    omega

/-- What `send` is asked to take. -/
theorem Outgoing.getSendCap_eq (outgoing : message.Outgoing) (sound : message.m_buffer.Sound) :
    message.getSendCap =
      message.m_bufStartPos + message.m_headSize + message.m_size - message.m_curPos := by
  have bounds := sound.size_bounds
  obtain ⟨⟨start, length, fits⟩, low, high⟩ := outgoing
  unfold getSendCap
  rw [int32_of_range (by omega) (by omega)]
  omega

theorem Outgoing.onSend (outgoing : message.Outgoing) (sound : message.m_buffer.Sound) {size : Int}
    (some_ : 0 ≤ size) (asked : size ≤ message.getSendCap) : (message.onSend size).Outgoing := by
  have bounds := sound.size_bounds
  rw [outgoing.getSendCap_eq sound] at asked
  obtain ⟨⟨start, length, fits⟩, low, high⟩ := outgoing
  have moved : (message.onSend size).m_curPos = message.m_curPos + size :=
    int32_of_range (by omega) (by omega)
  refine ⟨⟨start, length, fits⟩, ?_, ?_⟩
  · rw [moved]
    exact low.trans (by omega)
  · rw [moved]
    change _ ≤ message.m_bufStartPos + message.m_headSize + message.m_size
    omega

end NetMessage

/-- A message in `m_sendList` after a step was there before, or is what a `Send` has made
of the first one. -/
theorem Control.sendList_step {control next : Control} {event : Event} (armed : control.Armed)
    (own : event.ofManager = true) (stepped : Endpoint.machine.step control event = some next) :
    ∀ message ∈ next.endpoint.manager.m_sendList,
      message ∈ control.endpoint.manager.m_sendList ∨
        ∃ sizeSended front, event = .reply (.send sizeSended) ∧ 0 ≤ sizeSended ∧
          control.endpoint.manager.m_sendList.head? = some front ∧
            message = front.onSend sizeSended := by
  have moved (quiet : ∀ sizeSended, event ≠ .reply (.send sizeSended)) :
      ∀ message ∈ next.endpoint.manager.m_sendList,
        message ∈ control.endpoint.manager.m_sendList := by
    refine @Endpoint.Moves.keep event (fun endpoint => ∀ message ∈ endpoint.manager.m_sendList,
      message ∈ control.endpoint.manager.m_sendList) _ _ (Control.moves armed stepped)
      (fun before after move kept => ?_) fun message member => member
    cases move with
    | same same => exact same.sendList ▸ kept
    | address => exact kept
    | deleteSent front =>
        intro message member
        exact kept message (front ▸ List.mem_cons_of_mem _ member)
    | deleteReceived front => exact kept
    | push => exact kept
    | sent sizeSended called some_ front => exact absurd called (quiet sizeSended)
    | received bytes called nonempty back incomplete stored received => exact kept
    | load called front => exact kept
    | queue message called =>
        rw [called] at own
        cases own
  intro message member
  cases event with
  | reply reply =>
      cases reply with
      | send sizeSended =>
          rcases Endpoint.step_cases stepped with ⟨endpoint, rfl, called⟩ |
            ⟨point, endpoint, reply, rfl, same, resumed⟩
          · cases called
          · cases same
            cases point with
            | send =>
                obtain ⟨-, front, rest, list, -⟩ := armed
                have first : (Control.waiting .send endpoint).endpoint.manager.m_sendList.head? =
                    some front := by
                  rw [Control.endpoint, list, List.head?_cons]
                have later : ∀ other ∈ rest, other ∈ endpoint.manager.m_sendList :=
                  fun other member => list ▸ List.mem_cons_of_mem front member
                rcases Endpoint.resume_send list resumed with ⟨-, rfl⟩ | ⟨some_, ⟨-, rfl⟩ | ⟨-, rfl⟩⟩
                · exact Or.inl ((Endpoint.OnError_same .SendZeroByte endpoint).sendList ▸ member)
                · exact Or.inl (later message member)
                · rcases List.mem_cons.mp member with rfl | old
                  · exact Or.inr ⟨sizeSended, front, rfl, some_, first, rfl⟩
                  · exact Or.inl (later message old)
            | _ => cases resumed
      | _ => exact Or.inl (moved (fun _ => by simp only [ne_eq, Event.reply.injEq, reduceCtorEq,
          not_false_eq_true]) message member)
  | _ => exact Or.inl (moved (fun _ => Event.noConfusion) message member)

namespace World

/-- Every message that can be sent lies in its block. -/
structure Bounded (world : World) : Prop where
  luaMsgs : ∀ slot ∈ world.luaMsgs, ∀ message ∈ CLuaMsg.messages slot, message.Contained
  sendLists : ∀ manager ∈ world.managers, ∀ message ∈ manager.m_sendList, message.Outgoing

/-- A script ends a message that it has begun, with the cursor in the block, and `send`
takes no more than it was asked to. -/
def Orderly (world : World) : WorldEvent → Prop
  | .EndForWrite lua => ∀ message ∈ world.message lua,
      6 ≤ message.m_curPos ∧ message.m_curPos ≤ message.m_buffer.m_size
  | .manager manager event => ∀ control ∈ world.standing manager, control.Sends event
  | _ => True

variable {world next : World}

theorem Bounded.message (bounded : world.Bounded) {lua : Nat} {message : NetMessage}
    (holds : world.message lua = some message) : message.Contained :=
  bounded.luaMsgs _ (List.mem_of_getElem? (message_eq_some holds)) message
    (List.mem_singleton_self message)

/-- Another message for a script object. -/
theorem Bounded.setMessage (bounded : world.Bounded) {process : Process}
    {message : Option NetMessage} (filled : ∀ other ∈ message, other.Contained) (lua : Nat) :
    Bounded (setMessage lua message { world with process }) := by
  refine ⟨fun slot member => ?_, bounded.sendLists⟩
  rcases List.mem_or_eq_of_mem_set member with old | rfl
  · exact bounded.luaMsgs slot old
  · intro other held
    exact filled other (Option.mem_toList.mp held)

theorem Bounded.setManager (bounded : world.Bounded) (process : Process)
    {current : CConnectionManager} (queued : ∀ message ∈ current.m_sendList, message.Outgoing)
    (manager : Nat) (busy : Option (Nat × Point)) :
    Bounded { world with process, managers := world.managers.set manager current, busy } := by
  refine ⟨bounded.luaMsgs, fun other member => ?_⟩
  rcases List.mem_or_eq_of_mem_set member with old | rfl
  · exact bounded.sendLists other old
  · exact queued

theorem Bounded.onMessage {lua : Nat}
    {method : NetMessage → Process → Except Abort (NetMessage × Process)}
    (keeps : ∀ message after left, world.message lua = some message → message.Contained →
      method message world.process = .ok (after, left) → after.Contained)
    (bounded : world.Bounded) (done : world.onMessage lua method = some next) : next.Bounded := by
  obtain ⟨message, holds, done⟩ := Option.bind_eq_some_iff.mp done
  obtain ⟨⟨after, left⟩, returned, done⟩ := Option.bind_eq_some_iff.mp done
  obtain rfl := Option.some.inj done
  have kept := keeps message after left holds (bounded.message holds) (toOption_eq_some returned)
  exact bounded.setMessage (fun other same => Option.some.inj same ▸ kept) lua

theorem Bounded.manage {manager : Nat} {event : Event} (bounded : world.Bounded)
    (sound : world.Sound) (armed : world.Armed)
    (orderly : ∀ control ∈ world.standing manager, control.Sends event)
    (done : world.manage manager event = some next) : next.Bounded := by
  obtain ⟨current, control, after, here, stands, same, ready, own, stepped, settled⟩ :=
    manage_standing armed done
  obtain ⟨busy, rfl, -⟩ := settle_cases settled
  have list : control.endpoint.manager.m_sendList = current.m_sendList := by rw [same]
  have queued := bounded.sendLists current (List.mem_of_getElem? here)
  refine bounded.setManager _ (fun message member => ?_) manager busy
  rcases Control.sendList_step ready own stepped message member with
    old | ⟨sizeSended, front, rfl, some_, first, rfl⟩
  · exact queued message (list ▸ old)
  · have listed : front ∈ current.m_sendList := list ▸ List.mem_of_head? first
    have buffer := (sound.endpoint here).sendList front listed
    rcases orderly control stands with refused | ⟨-, asked⟩
    · omega
    · exact (queued front listed).onSend buffer some_ (asked front first)

/-- **The bounds are kept** by every step. -/
theorem Bounded.step {event : WorldEvent} (bounded : world.Bounded) (sound : world.Sound)
    (armed : world.Armed) (received : world.InReception) (orderly : world.Orderly event)
    (stepped : machine.step world event = some next) : next.Bounded := by
  rcases step_cases stepped with ⟨manager, call, rfl, done⟩ | ⟨-, done⟩
  · exact bounded.manage sound armed orderly done
  · cases event with
    | newManager =>
        cases done
        refine ⟨bounded.luaMsgs, fun manager member => ?_⟩
        rcases List.mem_append.mp member with old | new
        · exact bounded.sendLists manager old
        · rw [List.mem_singleton.mp new]
          exact List.forall_mem_nil _
    | newLuaMsg =>
        cases done
        refine ⟨fun slot member => ?_, bounded.sendLists⟩
        rcases List.mem_append.mp member with old | new
        · exact bounded.luaMsgs slot old
        · rw [List.mem_singleton.mp new]
          exact List.forall_mem_nil _
    | gcLuaMsg lua =>
        obtain ⟨luaMsg, -, done⟩ := Option.bind_eq_some_iff.mp done
        cases done
        refine ⟨fun slot member => ?_, bounded.sendLists⟩
        rcases List.mem_or_eq_of_mem_set member with old | rfl
        · exact bounded.luaMsgs slot old
        · exact List.forall_mem_nil _
    | CreateNewMessage lua =>
        obtain ⟨luaMsg, -, done⟩ := Option.bind_eq_some_iff.mp done
        obtain rfl := Option.some.inj done
        have new : (NetMessage.new 512 world.process).1.Contained :=
          NetMessage.InReception.contained (Or.inl ⟨_, Reading.new sound.generous sound.pool⟩)
        exact bounded.setMessage (fun other same => Option.some.inj same ▸ new) lua
    | LoadMsg lua manager =>
        obtain ⟨luaMsg, -, done⟩ := Option.bind_eq_some_iff.mp done
        obtain ⟨current, here, done⟩ := Option.bind_eq_some_iff.mp done
        obtain ⟨⟨loaded, after⟩, loads, done⟩ := Option.bind_eq_some_iff.mp done
        obtain rfl := Option.some.inj done
        obtain ⟨message, rest, front, rfl, rfl⟩ := Endpoint.LoadMsg_ok (toOption_eq_some loads)
        change current.m_recvList = message :: rest at front
        have listed := List.mem_of_getElem? here
        have contained := (received current listed message (front ▸ List.mem_cons_self)).contained
        have loaded : message.ResetForRead.Contained := contained.of_same rfl rfl rfl le_rfl
        let unloaded := (Endpoint.RemoveMsg message.address
          { process := world.process, manager := current }).manager
        have queued : ∀ other ∈ unloaded.m_sendList, other.Outgoing :=
          bounded.sendLists current listed
        exact (bounded.setManager world.process queued manager world.busy).setMessage
          (fun other same => Option.some.inj same ▸ loaded) lua
    | SendMsg lua manager =>
        obtain ⟨message, holds, done⟩ := Option.bind_eq_some_iff.mp done
        obtain ⟨current, here, done⟩ := Option.bind_eq_some_iff.mp done
        obtain rfl := Option.some.inj done
        refine Bounded.setMessage (bounded.setManager world.process ?_ manager world.busy)
          (fun other none_ => absurd none_ (Option.not_mem_none other)) lua
        intro other member
        rcases List.mem_append.mp member with old | new
        · exact bounded.sendLists current (List.mem_of_getElem? here) other old
        · rw [List.mem_singleton.mp new]
          exact (bounded.message holds).resetForSend
    | BeginForWrite lua =>
        refine bounded.onMessage (fun message after left _ contained returned => ?_) done
        cases returned
        exact contained.of_same rfl rfl rfl le_rfl
    | WriteRaw lua buf =>
        exact bounded.onMessage (fun message after left holds contained returned =>
          NetMessage.wRaw_contained (sound.message holds) sound.generous contained returned) done
    | EndForWrite lua =>
        refine bounded.onMessage (fun message after left holds _ returned => ?_) done
        obtain ⟨begun, inside⟩ := orderly message holds
        exact NetMessage.endForWrite_contained (sound.message holds).roomy begun inside returned
    | GetSize lua =>
        refine bounded.onMessage (fun message after left _ contained returned => ?_) done
        cases returned
        exact contained
    | overlongConnect manager addr => cases done
    | ReadRaw lua size =>
        refine bounded.onMessage (fun message after left _ contained returned => ?_)
          (ReadRaw_cases done).2
        cases returned
        unfold NetMessage.rRaw
        split
        · exact contained
        · exact contained.of_same rfl rfl rfl le_rfl
    | Restart manager =>
        obtain ⟨current, -, done⟩ := Option.bind_eq_some_iff.mp done
        obtain rfl := Option.some.inj done
        exact bounded.setManager _ (List.forall_mem_nil _) manager world.busy
    | manager manager event => cases done

/-- What is read of blocks: a `dump` of a received message and the `Send` that waits. -/
structure ReadsInside (world : World) : Prop where
  dumped : ∀ manager ∈ world.managers, ∀ message ∈ manager.m_recvList,
    (message.dump.length : Int) ≤ message.m_buffer.m_size
  sent : ∀ manager, world.busy = some (manager, .send) →
    ∀ current ∈ world.managers[manager]?, ∀ message ∈ current.m_sendList.head?,
      0 ≤ message.m_curPos ∧ 0 ≤ message.getSendCap ∧
        message.m_curPos + message.getSendCap ≤ message.m_buffer.m_size

/-- **Reads stay in the block**, whatever is received and however it is split. -/
theorem reads_inside (junk : Nat → Memory UInt8) {events : List WorldEvent}
    (polite : machine.Meets Polite (initial (fun _ => true) junk) events)
    (orderly : machine.Meets Orderly (initial (fun _ => true) junk) events)
    (reached : machine.run (initial (fun _ => true) junk) events = some world) :
    world.ReadsInside := by
  obtain ⟨⟨sound, armed⟩, received, bounded⟩ := Machine.state_invariant
    (fun world => (world.Sound ∧ world.Armed) ∧ world.InReception ∧ world.Bounded)
    (fun _ _ _ guard holds stepped =>
      ⟨⟨holds.1.1.step holds.1.2 stepped, holds.1.2.step stepped⟩,
        holds.2.1.step holds.1.1 holds.1.2 guard.1 stepped,
        holds.2.2.step holds.1.1 holds.1.2 holds.2.1 guard.2 stepped⟩)
    (polite.and orderly) reached
    ⟨⟨sound_initial junk, armed_initial _ junk⟩, List.forall_mem_nil _,
      List.forall_mem_nil _, List.forall_mem_nil _⟩
  refine ⟨fun manager member message listed => ?_, fun manager _ current here message first => ?_⟩
  · have bounds := (sound.managers manager member message
      (List.mem_append_right _ listed)).size_bounds
    obtain ⟨start, length, fits⟩ := (received manager member message listed).contained
    rw [NetMessage.dump, Memory.length_read, int32_of_range (by omega) (by omega)]
    omega
  · have listed := List.mem_of_head? first
    have member := List.mem_of_getElem? here
    have outgoing := bounded.sendLists current member message listed
    have buffer := sound.managers current member message (List.mem_append_left _ listed)
    rw [outgoing.getSendCap_eq buffer]
    obtain ⟨⟨start, length, fits⟩, low, high⟩ := outgoing
    omega

instance (world : World) : DecidablePred world.Orderly
  | .EndForWrite lua => inferInstanceAs (Decidable (∀ message ∈ world.message lua,
      6 ≤ message.m_curPos ∧ message.m_curPos ≤ message.m_buffer.m_size))
  | .manager manager event =>
      inferInstanceAs (Decidable (∀ control ∈ world.standing manager, control.Sends event))
  | .newManager | .newLuaMsg | .gcLuaMsg _ | .CreateNewMessage _ | .LoadMsg _ _ | .SendMsg _ _
  | .BeginForWrite _ | .WriteRaw _ _ | .GetSize _ | .ReadRaw _ _ | .overlongConnect _ _
  | .Restart _ => .isTrue trivial

/-- Up to the `Send` of the message that is written. -/
theorem reads_inside_recycling :
    ∃ world, machine.run (initial (fun _ => true) fun _ _ => 0) (recycling.take 14) = some world ∧
      world.busy = some (0, .send) ∧ world.ReadsInside := by
  have ran : (machine.run (initial (fun _ => true) fun _ _ => 0) (recycling.take 14)).map busy =
      some (some (0, .send)) := by decide +kernel
  obtain ⟨world, reached, waits⟩ := Option.map_eq_some_iff.mp ran
  exact ⟨world, reached, waits,
    reads_inside _ (by decide +kernel) (by decide +kernel) reached⟩

end World

end EngSocket
