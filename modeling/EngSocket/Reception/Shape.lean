import EngSocket.Connection.Soundness

/-!
# The shape of the receive queue

`Update` fills the message at the back of `m_recvList` and `HasPendingMsg` looks at
the one at the front. Only the message at the back is ever incomplete, and a
complete one has its cursor at the end of its payload, so that the front tells
whether anything complete is queued (`EngSocket.Control.queue_shape`).
-/

namespace EngSocket

open Foundation

/-- The size and the layout of a message that `m_recvList` holds, whatever the
peer sent. -/
structure NetMessage.Incoming (message : NetMessage) : Prop where
  start : message.m_bufStartPos = 0
  size : message.m_size < 2147483648
  headSize : message.m_headSize = 2 ∨ message.m_headSize = 4

/-- A message in `m_recvList` with its cursor. -/
structure NetMessage.Received (message : NetMessage) : Prop extends Incoming message where
  low : 0 ≤ message.m_curPos
  high : message.m_curPos < 2147483648

namespace NetMessage

variable {message filled after : NetMessage} {process left : Process}

theorem Received.new (size : Int) (process : Process) : (new size process).1.Received where
  start := rfl
  size := (by decide : (-1 : Int) < 2147483648)
  headSize := Or.inl rfl
  low := le_rfl
  high := (by decide : (0 : Int) < 2147483648)

/-- A complete message has its cursor at the end of its payload: the sum in
`isEnd` does not wrap, since no cursor is negative. -/
theorem Received.cursor_of_isEnd (received : message.Received) (ended : message.isEnd = true) :
    message.m_curPos = message.m_headSize + message.m_size := by
  obtain ⟨⟨start, size, headSize⟩, low, -⟩ := received
  unfold isEnd at ended
  split at ended
  · cases ended
  · next known =>
      have equal := of_decide_eq_true ended
      rw [start] at equal
      by_cases small : message.m_size + message.m_headSize < 2147483648
      · rw [int32_of_range (by omega) (by omega)] at equal
        omega
      · unfold int32 at equal
        omega

theorem Incoming.of_writes (incoming : message.Incoming)
    (writes : message.Writes process after left) : after.Incoming :=
  ⟨writes.start.trans incoming.start, writes.size.trans_lt incoming.size,
    writes.headSize.symm ▸ incoming.headSize⟩

/-- Whatever length a `Recv` completes is taken as an `int`. -/
theorem Incoming.onReceive {size : Int} (incoming : message.Incoming)
    (done : message.onReceive size process = .ok (after, left)) : after.Incoming := by
  obtain ⟨start, small, headSize⟩ := incoming
  rcases onReceive_cases done with ⟨rfl, -⟩ | ⟨rfl, -⟩ | ⟨length, checked⟩ | ⟨length, -, checked⟩
  · exact ⟨start, small, headSize⟩
  · exact ⟨start, (by decide : (-2 : Int) < 2147483648), Or.inr rfl⟩
  · apply Incoming.of_writes ?_ (checkBufSize_writes checked)
    exact ⟨rfl, lt_trans (Int.ofNat_lt.mpr length.toNat_lt) (by norm_num), Or.inl rfl⟩
  · apply Incoming.of_writes ?_ (checkBufSize_writes checked)
    exact ⟨rfl, int32_lt _, headSize⟩

/-- A cursor beyond the buffer stores nothing, so that it stays an `int`: the
bytes lie in the buffer, whose capacity is one. -/
theorem Received.receive {bytes : List UInt8} (received : message.Received)
    (ranged : message.m_buffer.Ranged) (stored : message.storeAtCursor bytes = .ok filled)
    (done : filled.onReceive bytes.length process = .ok (after, left)) : after.Received := by
  obtain ⟨incoming, low, high⟩ := received
  have laid := (incoming.of_writes (storeAtCursor_writes stored process)).onReceive done
  obtain ⟨⟨-, inside⟩, rfl⟩ := storeAtCursor_ok stored
  unfold MemBuffer.Ranged at ranged
  have cursor : int32 (message.m_curPos + bytes.length) = message.m_curPos + bytes.length :=
    int32_of_range (by omega) (by omega)
  have headSize := incoming.headSize
  rcases onReceive_cases done with ⟨rfl, -⟩ | ⟨rfl, -⟩ | ⟨length, checked⟩ | ⟨length, -, checked⟩
  · exact ⟨laid, by simp only [cursor]; omega, by simp only [cursor]; omega⟩
  · exact ⟨laid, le_rfl, (by decide : (0 : Int) < 2147483648)⟩
  · refine ⟨laid, ?_, ?_⟩
    · rw [checkBufSize_same checked]
      exact (by decide : (0 : Int) ≤ 2)
    · rw [checkBufSize_same checked]
      exact (by decide : (2 : Int) < 2147483648)
  · refine ⟨laid, ?_, ?_⟩
    · rw [checkBufSize_same checked]
      change 0 ≤ message.m_headSize
      omega
    · rw [checkBufSize_same checked]
      change message.m_headSize < 2147483648
      omega

end NetMessage

/-- Every message but the one at the back is complete. -/
structure Endpoint.Shaped (endpoint : Endpoint) : Prop where
  received : ∀ message ∈ endpoint.manager.m_recvList, message.Received
  complete : ∀ message ∈ endpoint.manager.m_recvList.dropLast, message.isEnd = true

namespace Endpoint

variable {endpoint : Endpoint} {event : Event}

theorem Shaped.of_recvList {after : Endpoint} (shaped : endpoint.Shaped)
    (same : after.manager.m_recvList = endpoint.manager.m_recvList) : after.Shaped :=
  ⟨by rw [same]; exact shaped.received, by rw [same]; exact shaped.complete⟩

/-- Without the message at the front the rest has the shape. -/
theorem Shaped.tail {after : Endpoint} {message : NetMessage} {rest : List NetMessage}
    (shaped : endpoint.Shaped) (front : endpoint.manager.m_recvList = message :: rest)
    (popped : after.manager.m_recvList = rest) : after.Shaped := by
  obtain ⟨received, complete⟩ := shaped
  rw [front] at received complete
  constructor
  · rw [popped]
    exact (List.forall_mem_cons.mp received).2
  · rw [popped]
    intro other member
    apply complete other
    cases rest with
    | nil => cases member
    | cons second rest => exact List.mem_cons_of_mem message member

/-- **A move keeps the shape.** -/
theorem Move.shaped {before after : Endpoint} (move : Move event before after)
    (ranged : before.Stocked MemBuffer.Ranged) (shaped : before.Shaped) : after.Shaped := by
  cases move with
  | same same => exact shaped.of_recvList same.recvList
  | address addr port => exact shaped.of_recvList rfl
  | deleteSent front => exact shaped.of_recvList rfl
  | deleteReceived front => exact shaped.tail front rfl
  | push ended =>
      obtain ⟨received, complete⟩ := shaped
      constructor
      · rw [pushNewMessage_recvList]
        intro other member
        rcases List.mem_append.mp member with old | new
        · exact received other old
        · rw [List.mem_singleton.mp new]
          exact NetMessage.Received.new 512 before.process
      · -- Those before the new message are the earlier ones and the earlier last one.
        rw [pushNewMessage_recvList, List.dropLast_concat]
        intro other member
        rcases List.eq_nil_or_concat' before.manager.m_recvList with none_ | ⟨older, last, back⟩
        · rw [none_] at member
          cases member
        · rw [back, List.dropLast_concat] at complete
          rw [back] at member ended
          rcases List.mem_append.mp member with old | new
          · exact complete other old
          · rw [List.mem_singleton.mp new]
            exact ended last (by rw [List.getLast?_concat]; rfl)
  | sent sizeSended called some_ front => exact shaped.of_recvList rfl
  | @received message filled after older process bytes called nonempty back incomplete stored
      received =>
      obtain ⟨all, complete⟩ := shaped
      have buffers := ranged.recvList
      rw [back, List.forall_mem_append, List.forall_mem_singleton] at all buffers
      rw [back, List.dropLast_concat] at complete
      constructor
      · intro other member
        rcases List.mem_append.mp member with old | new
        · exact all.1 other old
        · rw [List.mem_singleton.mp new]
          exact all.2.receive buffers.2 stored received
      · change ∀ message ∈ (older ++ [after]).dropLast, message.isEnd = true
        rw [List.dropLast_concat]
        exact complete
  | load called front => exact shaped.tail front (RemoveMsg_front front)
  | queue message called => exact shaped.of_recvList rfl

/-- The front tells whether anything complete is queued. -/
theorem Shaped.hasPendingMsg_iff (shaped : endpoint.Shaped) :
    endpoint.HasPendingMsg = true ↔
      ∃ message ∈ endpoint.manager.m_recvList, message.isEnd = true := by
  obtain ⟨-, complete⟩ := shaped
  unfold HasPendingMsg getMsg
  cases list : endpoint.manager.m_recvList with
  | nil =>
      constructor
      · intro pending
        cases pending
      · rintro ⟨message, member, -⟩
        cases member
  | cons front rest =>
      rw [list] at complete
      constructor
      · intro pending
        exact ⟨front, List.mem_cons_self, pending⟩
      · rintro ⟨message, member, ended⟩
        cases rest with
        | nil =>
            rw [← List.mem_singleton.mp member]
            exact ended
        | cons second rest => exact complete front List.mem_cons_self

end Endpoint

/-- Buffers and queue after a run. -/
structure Control.Queued (control : Control) : Prop where
  armed : control.Armed
  ranged : control.endpoint.Stocked MemBuffer.Ranged
  shaped : control.endpoint.Shaped

theorem Control.Queued.step {control next : Control} {event : Event} (queued : control.Queued)
    (allowed : event.Queues MemBuffer.Ranged)
    (stepped : Endpoint.machine.step control event = some next) : next.Queued := by
  have both := @Endpoint.Moves.keep event
    (fun endpoint => endpoint.Stocked MemBuffer.Ranged ∧ endpoint.Shaped) _ _
    (Control.moves queued.armed stepped)
    (fun _ _ move kept => ⟨move.ranged allowed kept.1, move.shaped kept.1 kept.2⟩)
    ⟨queued.ranged, queued.shaped⟩
  exact ⟨queued.armed.step stepped, both.1, both.2⟩

/-- **The shape of the receive queue.** After every run, whatever the peer sent
and wherever it failed, all messages but the last one are complete, a complete
one has its cursor at its end, and `HasPendingMsg` finds it. -/
theorem Control.queue_shape {process : Process} (ranged : process.Stocked MemBuffer.Ranged)
    {events : List Event} {control : Control}
    (meets : Endpoint.machine.Meets (fun _ event => event.Queues MemBuffer.Ranged)
      (.idle (.new process)) events)
    (reached : Endpoint.machine.run (.idle (.new process)) events = some control) :
    (∀ message ∈ control.endpoint.manager.m_recvList.dropLast, message.isEnd = true) ∧
      (∀ message ∈ control.endpoint.manager.m_recvList, message.isEnd = true →
        message.m_curPos = message.m_headSize + message.m_size ∧ message.m_bufStartPos = 0) ∧
      (control.endpoint.HasPendingMsg = true ↔
        ∃ message ∈ control.endpoint.manager.m_recvList, message.isEnd = true) := by
  have start : (Control.idle (.new process)).Queued :=
    ⟨trivial, ⟨ranged, List.forall_mem_nil _, List.forall_mem_nil _⟩,
      ⟨List.forall_mem_nil _, List.forall_mem_nil _⟩⟩
  have queued : control.Queued := Machine.state_invariant Control.Queued
    (fun _ _ _ allowed queued stepped => queued.step allowed stepped) meets reached start
  refine ⟨queued.shaped.complete, ?_, queued.shaped.hasPendingMsg_iff⟩
  intro message member ended
  have received := queued.shaped.received message member
  exact ⟨received.cursor_of_isEnd ended, received.start⟩

/-- One payload is read whole, and of the next header half. -/
def midHeader : List Event :=
  establishing ++ [.Update 1, .reply (.select .readable), .reply (.recv [0, 1]),
    .reply (.select .readable), .reply (.recv [65]), .reply (.select .readable),
    .reply (.recv [0]), .reply (.select .quiet)]

theorem Control.queue_shape_of_midHeader :
    ∃ control, Endpoint.machine.run (.idle (.new .fresh)) midHeader = some control ∧
      (∀ message ∈ control.endpoint.manager.m_recvList.dropLast, message.isEnd = true) ∧
        (∀ message ∈ control.endpoint.manager.m_recvList, message.isEnd = true →
          message.m_curPos = message.m_headSize + message.m_size ∧ message.m_bufStartPos = 0) ∧
        ∃ message ∈ control.endpoint.manager.m_recvList, message.isEnd = true := by
  have ran : (Endpoint.machine.run (.idle (.new .fresh)) midHeader).map
      (fun control => control.endpoint.HasPendingMsg) = some true := by decide
  obtain ⟨control, reached, pending⟩ := Option.map_eq_some_iff.mp ran
  obtain ⟨complete, atEnd, found⟩ :=
    @Control.queue_shape .fresh (List.forall_mem_nil _) _ _ (by decide) reached
  exact ⟨control, reached, complete, atEnd, found.mp pending⟩

end EngSocket
