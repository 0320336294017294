import EngSocket.Reception.Shape

/-!
# What a `Recv` asks for

A return value of zero from `Recv` ends the connection, since it is what the kernel
answers when the peer has closed. It is also the answer to a call that asks for no
bytes. `getReadCap` and `isEnd` compute with the same three fields in different ways,
and no message on which they differ is ever chosen: `Update` asks for at least one byte,
whatever the peer sends (`EngSocket.Control.asks_for_bytes`).
-/

namespace EngSocket

open Foundation

namespace NetMessage

/-- The cursor of a message of known size is behind the header and not beyond the end. -/
def InBody (message : NetMessage) : Prop :=
  0 ≤ message.m_size →
    message.m_headSize ≤ message.m_curPos ∧ message.m_curPos ≤ message.m_headSize + message.m_size

/-- What `recv` gives for the bytes asked for; `closed` says that the peer has closed. -/
def RecvGives (closed : Prop) (bytes : List UInt8) (message : NetMessage) : Prop :=
  bytes.length ≤ message.getReadCap ∧ (bytes = [] → message.getReadCap = 0 ∨ closed)

variable {message filled after : NetMessage} {process left : Process}

theorem inBody_of_negative (negative : message.m_size < 0) : message.InBody :=
  fun known => absurd known (not_le.mpr negative)

/-- In a body the capacity is what is missing of it; neither difference wraps. -/
theorem InBody.getReadCap_eq (inBody : message.InBody) (received : message.Received)
    (known : 0 ≤ message.m_size) :
    message.getReadCap = message.m_headSize + message.m_size - message.m_curPos := by
  obtain ⟨atLeast, atMost⟩ := inBody known
  have size := received.size
  rw [getReadCap, if_pos known, int32_of_range (by omega) (by omega)]
  omega

/-- **An incomplete message has bytes missing**, although `isEnd` may wrap. -/
theorem InBody.getReadCap_pos (inBody : message.InBody) (received : message.Received)
    (incomplete : message.isEnd = false) : 0 < message.getReadCap := by
  by_cases known : 0 ≤ message.m_size
  · rw [inBody.getReadCap_eq received known]
    obtain ⟨atLeast, atMost⟩ := inBody known
    obtain ⟨⟨start, size, headSize⟩, -, high⟩ := received
    rw [isEnd, if_neg (not_lt.mpr known), start] at incomplete
    have apart := of_decide_eq_false incomplete
    by_cases small : message.m_size + message.m_headSize < 2147483648
    · rw [int32_of_range (by omega) (by omega)] at apart
      omega
    · -- The end is beyond every `int`, and the cursor is an `int`.
      omega
  · rw [getReadCap, if_neg known]
    split
    · decide
    · decide

/-- **A `Recv` of at most the bytes asked for** leaves the cursor in the body. -/
theorem InBody.receive {bytes : List UInt8} (inBody : message.InBody)
    (received : message.Received) (ranged : message.m_buffer.Ranged)
    (asked : (bytes.length : Int) ≤ message.getReadCap)
    (stored : message.storeAtCursor bytes = .ok filled)
    (done : filled.onReceive bytes.length process = .ok (after, left)) : after.InBody := by
  obtain ⟨⟨-, inside⟩, rfl⟩ := storeAtCursor_ok stored
  unfold MemBuffer.Ranged at ranged
  have low := received.low
  rcases onReceive_cases done with ⟨rfl, -⟩ | ⟨rfl, -⟩ | ⟨length, checked⟩ | ⟨length, -, checked⟩
  · intro known
    have known : 0 ≤ message.m_size := known
    obtain ⟨atLeast, atMost⟩ := inBody known
    rw [inBody.getReadCap_eq received known] at asked
    have cursor : int32 (message.m_curPos + bytes.length) = message.m_curPos + bytes.length :=
      int32_of_range (by omega) (by omega)
    simp only [cursor]
    omega
  · exact inBody_of_negative (by decide : (-2 : Int) < 0)
  · intro known
    rw [checkBufSize_same checked] at known ⊢
    exact ⟨le_rfl, le_add_of_nonneg_right known⟩
  · intro known
    rw [checkBufSize_same checked] at known ⊢
    exact ⟨le_rfl, le_add_of_nonneg_right known⟩

end NetMessage

/-- A `Recv` answers with at most the bytes it was asked for. -/
def Control.AtMostAsked (control : Control) : Event → Prop
  | .reply (.recv bytes) =>
      ∀ message ∈ control.endpoint.manager.m_recvList.getLast?,
        (bytes.length : Int) ≤ message.getReadCap
  | _ => True

/-- Every message of known size has its cursor in its body. -/
def Control.InBody (control : Control) : Prop :=
  ∀ message ∈ control.endpoint.manager.m_recvList, message.InBody

theorem Control.InBody.step {control next : Control} {event : Event} (all : control.InBody)
    (queued : control.Queued) (asked : control.AtMostAsked event)
    (stepped : Endpoint.machine.step control event = some next) : next.InBody := by
  intro message member
  rcases Control.recvList_step queued.armed stepped message member with
    old | ⟨after, -, rfl⟩ | ⟨last, filled, bytes, process, rfl, -, there, -, stored, received⟩
  · exact all message old
  · exact NetMessage.inBody_of_negative (by decide : (-1 : Int) < 0)
  · have listed := List.mem_of_getLast? there
    exact (all last listed).receive (queued.shaped.received last listed)
      (queued.ranged.recvList last listed) (asked last there) stored received

/-- **`Update` never asks for zero bytes**: the message chosen for a `Recv` has bytes
missing, so that no bytes are an answer only of a peer that has closed. -/
theorem Control.asks_for_bytes {process : Process} (ranged : process.Stocked MemBuffer.Ranged)
    {events : List Event} {endpoint : Endpoint}
    (meets : Endpoint.machine.Meets
      (fun control event => event.Queues MemBuffer.Ranged ∧ control.AtMostAsked event)
      (.idle (.new process)) events)
    (reached : Endpoint.machine.run (.idle (.new process)) events =
      some (.waiting .recv endpoint)) :
    ∃ message, endpoint.manager.m_recvList.getLast? = some message ∧ message.isEnd = false ∧
      0 < message.getReadCap ∧
        ∀ (closed : Prop) (bytes : List UInt8), message.RecvGives closed bytes →
          bytes = [] → closed := by
  have started : (Control.idle (.new process)).Queued ∧ (Control.idle (.new process)).InBody :=
    ⟨⟨trivial, ⟨ranged, List.forall_mem_nil _, List.forall_mem_nil _⟩,
      ⟨List.forall_mem_nil _, List.forall_mem_nil _⟩⟩, List.forall_mem_nil _⟩
  obtain ⟨queued, inBody⟩ := Machine.state_invariant
    (fun control => control.Queued ∧ control.InBody)
    (fun _ _ _ allowed holds stepped =>
      ⟨holds.1.step allowed.1 stepped, holds.2.step holds.1 allowed.2 stepped⟩)
    meets reached started
  obtain ⟨-, older, message, back, incomplete⟩ := queued.armed
  have last : endpoint.manager.m_recvList.getLast? = some message := by
    rw [back, List.getLast?_concat]
  have listed := List.mem_of_getLast? last
  have positive := (inBody message listed).getReadCap_pos
    (queued.shaped.received message listed) incomplete
  refine ⟨message, last, incomplete, positive, ?_⟩
  intro closed bytes gives none_
  rcases gives.2 none_ with zero | ended
  · exact absurd zero positive.ne'
  · exact ended

instance (control : Control) : DecidablePred control.AtMostAsked
  | .reply (.recv bytes) => inferInstanceAs (Decidable
      (∀ message ∈ control.endpoint.manager.m_recvList.getLast?,
        (bytes.length : Int) ≤ message.getReadCap))
  | .reply (.select _) | .reply (.send _) | .reply .recvFailed => .isTrue trivial
  | .Connect _ _ _ | .ReConnect _ | .Close | .CloseConnection | .SendMsg _ | .InitEncrypt
  | .LoadMsg | .Update _ => .isTrue trivial

/-- The manager of a `Recv` that waits for its answer. -/
def Control.atRecv : Control → Option Endpoint
  | .waiting .recv endpoint => some endpoint
  | .idle _ | .waiting _ _ | .aborted _ _ => none

theorem Control.eq_waiting_of_atRecv {control : Control} {endpoint : Endpoint}
    (there : control.atRecv = some endpoint) : control = .waiting .recv endpoint := by
  cases control with
  | waiting point after =>
      cases point with
      | recv => exact congrArg (Control.waiting .recv) (Option.some.inj there)
      | _ => cases there
  | _ => cases there

/-- An empty frame, and a payload that is read to its end. -/
def emptyThenFull : List Event :=
  establishing ++ [.Update 1, .reply (.select .readable), .reply (.recv [0, 0]),
    .reply (.select .readable), .reply (.recv [0, 1]), .reply (.select .readable),
    .reply (.recv [65]), .reply (.select .readable)]

theorem Control.asks_for_bytes_of_emptyThenFull :
    ∃ endpoint, Endpoint.machine.run (.idle (.new .fresh)) emptyThenFull =
        some (.waiting .recv endpoint) ∧
      ∃ message, endpoint.manager.m_recvList.getLast? = some message ∧ 0 < message.getReadCap := by
  have ran : ((Endpoint.machine.run (.idle (.new .fresh)) emptyThenFull).bind
      Control.atRecv).isSome = true := by decide
  obtain ⟨endpoint, there⟩ := Option.isSome_iff_exists.mp ran
  obtain ⟨control, reached, there⟩ := Option.bind_eq_some_iff.mp there
  obtain rfl := Control.eq_waiting_of_atRecv there
  obtain ⟨message, last, -, positive, -⟩ :=
    @Control.asks_for_bytes .fresh (List.forall_mem_nil _) _ _ (by decide) reached
  exact ⟨endpoint, reached, message, last, positive⟩

end EngSocket
