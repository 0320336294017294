import EngSocket.Transmission.Queue

/-!
# Sends that would block

A `send` on a full descriptor returns `-1`, which `Update` takes for a broken
connection. Its loop on a message asks until the message is complete, so a
message that the kernel accepts in parts ends there; a connection is kept exactly
as long as no `Send` would block (`EngSocket.Control.keepsSending_iff`).
-/

namespace EngSocket

open Foundation

/-- What an `Update` meets while nothing is to be received: no `select` fails, and
a `Send` has some of the bytes accepted or would block. -/
def Control.MayBlock (control : Control) : Event → Prop
  | .Update _ => True
  | .reply (.select reply) => reply.failed = false ∧ reply.read = false
  | .reply (.send sizeSended) => sizeSended = -1 ∨ 1 ≤ sizeSended ∧
      ∀ message ∈ control.endpoint.manager.m_sendList.head?, sizeSended ≤ message.getSendCap
  | _ => False

/-- The kernel's answer to a `Send` on a full descriptor. -/
def Event.WouldBlock : Event → Prop
  | .reply (.send sizeSended) => sizeSended = -1
  | _ => False

/-- The connection is up, and the bytes accepted and those that are left in the
queue are the frames. -/
def Control.KeepsSending (frames : List (List UInt8)) (accepted : List UInt8) (control : Control) :
    Prop :=
  control.endpoint.GetState = .Connected ∧
    accepted ++ (control.endpoint.manager.m_sendList.map fun message => message.parcel.left).flatten =
      frames.flatten

/-- An `Update` that has ended with an error. -/
def Control.Dropped (control : Control) : Prop :=
  ∃ endpoint, control = .idle endpoint ∧ endpoint.manager.m_pSocket = none ∧
    endpoint.GetState = .ConnectError

variable {control next : Control} {event : Event}

theorem Control.MayBlock.sending (allowed : control.MayBlock event) : control.Sending event := by
  cases event with
  | Update dt => trivial
  | reply reply =>
      cases reply with
      | send sizeSended =>
          rcases allowed with blocked | ⟨some_, asked⟩
          · exact Or.inl blocked
          · exact Or.inr ⟨by omega, asked⟩
      | _ => trivial
  | _ => exact absurd allowed id

/-- A `Send` that would block drops the connection. -/
theorem Control.dropped_of_wouldBlock (armed : control.Armed) (blocks : event.WouldBlock)
    (stepped : Endpoint.machine.step control event = some next) : next.Dropped := by
  rcases Endpoint.step_cases stepped with ⟨endpoint, rfl, called⟩ |
    ⟨point, endpoint, reply, rfl, rfl, resumed⟩
  · cases event with
    | reply reply => cases called
    | _ => exact absurd blocks id
  · cases reply with
    | send sizeSended =>
        cases point with
        | send =>
            obtain ⟨-, message, rest, front, -⟩ := armed
            have negative : sizeSended = -1 := blocks
            rcases Endpoint.resume_send front resumed with ⟨-, rfl⟩ | ⟨some_, -⟩
            · exact ⟨_, rfl, endpoint.OnError_socket _, endpoint.OnError_state _⟩
            · exact absurd negative (by omega)
        | _ => cases resumed
    | _ => exact absurd blocks id

/-- Any other call leaves an established connection up. -/
theorem Control.connected_of_not_wouldBlock (armed : control.Armed)
    (connected : control.endpoint.GetState = .Connected) (allowed : control.MayBlock event)
    (flows : ¬ event.WouldBlock) (stepped : Endpoint.machine.step control event = some next) :
    next.endpoint.GetState = .Connected := by
  rcases Endpoint.step_cases stepped with ⟨endpoint, rfl, called⟩ |
    ⟨point, endpoint, reply, rfl, rfl, resumed⟩
  · cases event with
    | Update dt =>
        rcases Endpoint.call_Update called with rfl | ⟨rfl, -⟩
        · exact connected
        · exact connected
    | reply reply => cases called
    | _ => exact absurd allowed id
  · obtain ⟨⟨socket, present⟩, about⟩ := armed
    rcases Endpoint.resume_cases resumed with ⟨answer, rfl, continues⟩ | ⟨sizeSended, rfl, rfl⟩ |
      ⟨bytes, rfl, rfl, nonempty⟩ | ⟨rfl, ends⟩
    · exact (Endpoint.resume_select_connected allowed.1 present connected resumed).2
    · obtain ⟨message, rest, front, -⟩ := about
      rcases Endpoint.resume_send front resumed with ⟨negative, rfl⟩ | ⟨-, ⟨-, rfl⟩ | ⟨-, rfl⟩⟩
      · rcases allowed with rfl | ⟨some_, -⟩
        · exact absurd rfl flows
        · exact absurd negative (by omega)
      · exact connected
      · exact connected
    · exact absurd allowed id
    · rcases ends with rfl | rfl
      · exact absurd allowed id
      · exact absurd allowed id

/-- A dropped connection stays so: `Update` returns at once. -/
theorem Control.Dropped.step (dropped : control.Dropped) (allowed : control.MayBlock event)
    (stepped : Endpoint.machine.step control event = some next) : next.Dropped := by
  obtain ⟨endpoint, rfl, null, state⟩ := dropped
  cases event with
  | Update dt =>
      have returns : endpoint.Update dt = .idle endpoint := by
        rw [Endpoint.Update, null]
      cases returns.symm.trans (Option.some.inj stepped)
      exact ⟨endpoint, rfl, null, state⟩
  | reply reply => cases stepped
  | _ => exact absurd allowed id

/-- A connection is up exactly as long as no `Send` has blocked. -/
theorem Control.connected_iff {events : List Event} {final : Control} (armed : control.Armed)
    (connected : control.endpoint.GetState = .Connected)
    (meets : Endpoint.machine.Meets Control.MayBlock control events)
    (reached : Endpoint.machine.run control events = some final) :
    final.endpoint.GetState = .Connected ↔ ∀ event ∈ events, ¬ event.WouldBlock := by
  induction events generalizing control with
  | nil =>
      cases reached
      exact ⟨fun _ => List.forall_mem_nil _, fun _ => connected⟩
  | cons event events ih =>
      obtain ⟨next, stepped, rest⟩ := Machine.run_cons_eq_some.mp reached
      rw [Machine.meets_cons_of_step stepped] at meets
      obtain ⟨allowed, later⟩ := meets
      rw [List.forall_mem_cons]
      by_cases blocks : event.WouldBlock
      · have dropped := Machine.state_invariant Control.Dropped
          (fun _ _ _ allowed dropped stepped => dropped.step allowed stepped) later rest
          (Control.dropped_of_wouldBlock armed blocks stepped)
        obtain ⟨endpoint, rfl, -, state⟩ := dropped
        constructor
        · intro stays
          exact absurd (state.symm.trans stays) NetConState.noConfusion
        · intro flows
          exact absurd blocks flows.1
      · rw [ih (armed.step stepped)
          (Control.connected_of_not_wouldBlock armed connected allowed blocks stepped) later rest]
        exact ⟨fun flows => ⟨blocks, flows⟩, fun flows => flows.2⟩

/-- **A queue is sent on** exactly as long as no `Send` would block. -/
theorem Control.keepsSending_iff {endpoint : Endpoint} {events : List Event} {final : Control}
    (connected : endpoint.GetState = .Connected)
    (ended : ∀ message ∈ endpoint.manager.m_sendList, message.Ended)
    (meets : Endpoint.machine.Meets Control.MayBlock (.idle endpoint) events)
    (reached : Endpoint.machine.run (.idle endpoint) events = some final) :
    final.KeepsSending (endpoint.manager.m_sendList.map NetMessage.wire)
        ((Control.idle endpoint).accepted events) ↔
      ∀ event ∈ events, ¬ event.WouldBlock := by
  have queue := Control.accepted_queue (Endpoint.queue_of_ended ended)
    (meets.mono fun _ _ allowed => allowed.sending) reached
  have conserved := queue.accounted.accepted_append
  rw [List.map_map] at conserved
  have armed : (Control.idle endpoint).Armed := trivial
  rw [← Control.connected_iff armed connected meets reached]
  exact ⟨fun keeps => keeps.1, fun stays => ⟨stays, conserved⟩⟩

instance (control : Control) : DecidablePred control.MayBlock
  | .Update _ => .isTrue trivial
  | .reply (.select reply) => inferInstanceAs (Decidable (reply.failed = false ∧ reply.read = false))
  | .reply (.send sizeSended) => inferInstanceAs (Decidable (sizeSended = -1 ∨ 1 ≤ sizeSended ∧
      ∀ message ∈ control.endpoint.manager.m_sendList.head?, sizeSended ≤ message.getSendCap))
  | .reply (.recv _) | .reply .recvFailed => .isFalse id
  | .Connect _ _ _ | .ReConnect _ | .Close | .CloseConnection | .SendMsg _ | .InitEncrypt
  | .LoadMsg => .isFalse id

instance : DecidablePred Event.WouldBlock
  | .reply (.send sizeSended) => inferInstanceAs (Decidable (sizeSended = -1))
  | .reply (.select _) | .reply (.recv _) | .reply .recvFailed => .isFalse id
  | .Connect _ _ _ | .ReConnect _ | .Close | .CloseConnection | .SendMsg _ | .InitEncrypt
  | .LoadMsg | .Update _ => .isFalse id

/-- An established connection with one message to send. -/
def Endpoint.justQueued : Endpoint := Endpoint.justConnected.SendMsg .zeroByte

theorem Endpoint.justQueued_ended :
    ∀ message ∈ Endpoint.justQueued.manager.m_sendList, message.Ended := by
  intro message member
  rw [List.mem_singleton.mp member]
  exact NetMessage.zeroByte_ended

/-- The three bytes of the frame are accepted in two parts. -/
theorem Control.keepsSending_of_two_parts :
    ∃ final, Endpoint.machine.run (.idle .justQueued)
        ([.Update 1] ++ [Reply.select .writable, .send 2, .send 1, .select .quiet].map .reply) =
          some final ∧
      final.KeepsSending (Endpoint.justQueued.manager.m_sendList.map NetMessage.wire)
        ((Control.idle .justQueued).accepted
          ([.Update 1] ++ [Reply.select .writable, .send 2, .send 1, .select .quiet].map .reply)) := by
  have runs : (Endpoint.machine.run (.idle .justQueued)
      ([.Update 1] ++ [Reply.select .writable, .send 2, .send 1, .select .quiet].map
        .reply)).isSome = true := by decide
  obtain ⟨final, reached⟩ := Option.isSome_iff_exists.mp runs
  exact ⟨final, reached, (Control.keepsSending_iff rfl Endpoint.justQueued_ended (by decide)
    reached).mpr (by decide)⟩

/-- The kernel accepts one byte of three and is full. -/
theorem Control.not_keepsSending_of_full :
    ¬ ∀ (endpoint : Endpoint) (events : List Event) (final : Control),
      endpoint.GetState = .Connected →
        (∀ message ∈ endpoint.manager.m_sendList, message.Ended) →
        Endpoint.machine.Meets Control.MayBlock (.idle endpoint) events →
        Endpoint.machine.run (.idle endpoint) events = some final →
        final.KeepsSending (endpoint.manager.m_sendList.map NetMessage.wire)
          ((Control.idle endpoint).accepted events) := by
  intro claimed
  have ran : (Endpoint.machine.run (.idle .justQueued)
      ([.Update 1] ++ [Reply.select .writable, .send 1, .send (-1)].map .reply)).map
        (fun control => control.endpoint.GetState) = some .ConnectError := by decide
  obtain ⟨final, reached, state⟩ := Option.map_eq_some_iff.mp ran
  have keeps := claimed .justQueued _ final rfl Endpoint.justQueued_ended (by decide) reached
  exact absurd (state.symm.trans keeps.1) NetConState.noConfusion

end EngSocket
