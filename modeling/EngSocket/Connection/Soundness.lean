import EngSocket.Connection.Moves

/-!
# Sound buffers along a run

A property of buffers that new ones come with and that a `Recv` keeps holds of
every buffer that a manager or the pool has (`EngSocket.Endpoint.Move.stocked`).
Two such properties are followed: that a capacity is an `int`, and that it was
reached by doubling, as long as the allocator refuses nothing
(`EngSocket.Control.Sound.step`). What the peer sends and the script calls makes
no difference.
-/

namespace EngSocket

open Foundation

/-- Every buffer in reach has a property. -/
structure Endpoint.Stocked (good : MemBuffer → Prop) (endpoint : Endpoint) : Prop where
  pool : endpoint.process.Stocked good
  sendList : ∀ message ∈ endpoint.manager.m_sendList, good message.m_buffer
  recvList : ∀ message ∈ endpoint.manager.m_recvList, good message.m_buffer

/-- Nothing is refused, and every buffer in reach has a sound capacity. -/
structure Endpoint.Sound (endpoint : Endpoint) : Prop where
  generous : endpoint.process.Generous
  pool : endpoint.process.PoolSound
  sendList : ∀ message ∈ endpoint.manager.m_sendList, message.m_buffer.Sound
  recvList : ∀ message ∈ endpoint.manager.m_recvList, message.m_buffer.Sound

def Control.Sound (control : Control) : Prop := control.endpoint.Sound

/-- A script only sends messages whose buffers have a property. -/
def Event.Queues (good : MemBuffer → Prop) : Event → Prop
  | .SendMsg message => good message.m_buffer
  | _ => True

instance (good : MemBuffer → Prop) [DecidablePred good] : DecidablePred (Event.Queues good)
  | .SendMsg message => inferInstanceAs (Decidable (good message.m_buffer))
  | .Connect _ _ _ | .ReConnect _ | .Close | .CloseConnection | .InitEncrypt | .LoadMsg
  | .Update _ | .reply _ => .isTrue trivial

/-- A script only sends messages whose buffers are sound. -/
def Event.Sound : Event → Prop
  | .SendMsg message => message.m_buffer.Sound
  | _ => True

namespace Endpoint

variable {endpoint : Endpoint} {good : MemBuffer → Prop}

theorem Stocked.delete {process : Process} (stocked : process.Stocked good) {message : NetMessage}
    (returned : good message.m_buffer) : (message.delete process).Stocked good :=
  Process.Stocked.release stocked returned

/-- **A move keeps the buffers good** if new buffers are and a `Recv` keeps them so. -/
theorem Move.stocked {event : Event} {before after : Endpoint} (move : Move event before after)
    (supplies : ∀ size ∈ [512, 1024, 65536], before.process.Supplies good size)
    (keeps : ∀ (message : NetMessage) (process : Process) (after : NetMessage) (left : Process),
      message.Keeps process after left → good message.m_buffer → good after.m_buffer)
    (queues : event.Queues good) (stocked : before.Stocked good) : after.Stocked good := by
  obtain ⟨pool, sendList, recvList⟩ := stocked
  cases move with
  | same same =>
      obtain ⟨sendSame, recvSame, -, descriptors, process⟩ := same
      refine ⟨?_, by rw [sendSame]; exact sendList, by rw [recvSame]; exact recvList⟩
      rw [process]
      exact pool
  | address => exact ⟨pool, sendList, recvList⟩
  | deleteSent front =>
      rw [front, List.forall_mem_cons] at sendList
      exact ⟨Stocked.delete pool sendList.1, sendList.2, recvList⟩
  | deleteReceived front =>
      rw [front, List.forall_mem_cons] at recvList
      exact ⟨Stocked.delete pool recvList.1, sendList, recvList.2⟩
  | push =>
      obtain ⟨buffer, left⟩ := pool.require_message supplies
      refine ⟨left, sendList, fun other member => ?_⟩
      rcases List.mem_append.mp member with old | new
      · exact recvList other old
      · rw [List.mem_singleton.mp new]
        exact buffer
  | sent sizeSended called some_ front =>
      rw [front, List.forall_mem_cons] at sendList
      exact ⟨pool, List.forall_mem_cons.mpr sendList, recvList⟩
  | received bytes called nonempty back incomplete stored received =>
      have kept := NetMessage.received_keeps stored received
      obtain ⟨requests, rfl⟩ := kept.requests
      rw [back, List.forall_mem_append, List.forall_mem_singleton] at recvList
      refine ⟨pool, sendList, fun other member => ?_⟩
      rcases List.mem_append.mp member with old | new
      · exact recvList.1 other old
      · rw [List.mem_singleton.mp new]
        exact keeps _ _ _ _ kept recvList.2
  | load called front =>
      exact ⟨pool, sendList, fun other member => recvList other (List.mem_of_mem_eraseP member)⟩
  | queue message called =>
      rw [called] at queues
      refine ⟨pool, fun other member => ?_, recvList⟩
      rcases List.mem_append.mp member with old | new
      · exact sendList other old
      · rw [List.mem_singleton.mp new]
        exact queues

/-! ## The two properties -/

theorem Sound.stocked (sound : endpoint.Sound) : endpoint.Stocked MemBuffer.Sound :=
  ⟨sound.pool, sound.sendList, sound.recvList⟩

/-- A move makes no difference to what the allocator grants. -/
theorem Move.grants {event : Event} {before after : Endpoint} (move : Move event before after) :
    after.process.grants = before.process.grants := by
  cases move with
  | same same =>
      obtain ⟨-, -, -, descriptors, process⟩ := same
      rw [process]
  | push => exact (Process.require_same 512 before.process).grants
  | received bytes called nonempty back incomplete stored received =>
      obtain ⟨requests, rfl⟩ := (NetMessage.received_keeps stored received).requests
      rfl
  | _ => rfl

/-- **Soundness is kept** by every move whose event is sound. -/
theorem Move.sound {event : Event} {before after : Endpoint} (move : Move event before after)
    (allowed : event.Sound) (sound : before.Sound) : after.Sound := by
  have stocked := move.stocked sound.generous.supplies
    (fun _ _ _ _ kept => kept.sound) (by cases event <;> exact allowed) sound.stocked
  refine ⟨fun request => ?_, stocked.pool, stocked.sendList, stocked.recvList⟩
  rw [move.grants]
  exact sound.generous request

/-- A capacity that is an `int` stays one. -/
theorem Move.ranged {event : Event} {before after : Endpoint} (move : Move event before after)
    (allowed : event.Queues MemBuffer.Ranged) (ranged : before.Stocked MemBuffer.Ranged) :
    after.Stocked MemBuffer.Ranged := by
  apply move.stocked ?_ (fun _ _ _ _ kept => kept.ranged) allowed ranged
  intro size member
  apply Process.supplies_ranged
  simp only [List.mem_cons, List.not_mem_nil, or_false] at member
  omega

/-- A new message comes with a sound buffer and leaves the pool sound. -/
theorem SameMessages.sound {after : Endpoint} (same : endpoint.SameMessages after)
    (sound : endpoint.Sound) : after.Sound :=
  (Move.same same : Move .InitEncrypt endpoint after).sound trivial sound

end Endpoint

/-- **Soundness is kept** by every step whose event is sound. -/
theorem Control.Sound.step {control next : Control} {event : Event} (sound : control.Sound)
    (armed : control.Armed) (allowed : event.Sound)
    (stepped : Endpoint.machine.step control event = some next) : next.Sound :=
  (Control.moves armed stepped).keep (fun _ _ move => move.sound allowed) sound

/-- A manager whose connection has just been established, in a process that has
done nothing else and whose requests are all granted. -/
def Endpoint.justConnected : Endpoint where
  process := .fresh
  manager := { CConnectionManager.new with
    m_port := 80
    m_pSocket := some { CSocketCommon.new with m_socket := 3 }
    m_netState := .Connected }

/-- The calls that bring a new manager to an established connection. -/
def establishing : List Event :=
  [.Connect ⟨"peer", by decide⟩ 80
      { addresses := some [{ createSocket := 3, connectTo := 0, errno := 0 }], select := .quiet },
    .Update 1, .reply (.select .quiet), .Update 1, .reply (.select .writable)]

theorem Endpoint.justConnected_sound : Endpoint.justConnected.Sound :=
  ⟨fun _ => rfl, List.forall_mem_nil _, List.forall_mem_nil _, List.forall_mem_nil _⟩

end EngSocket
