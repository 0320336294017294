import EngSocket.Connection.Soundness

/-!
# Sockets that are gone

`Update` looks at the state after its first `CheckState` only. When a later one
fails, the loops read a flag of the socket that `OnError` has just deleted
(`EngSocket.Endpoint.resume_select_failed`), so an `Update` handles the failures
of `select` exactly if only the first answer is one
(`EngSocket.Control.handlesFailures_iff`).
-/

namespace EngSocket

open Foundation

/-- A call that waits is made on a socket, and none was made on the null pointer. -/
def Control.OnSocket : Control → Prop
  | .idle _ => True
  | .waiting _ endpoint => endpoint.manager.m_pSocket.isSome = true
  | .aborted reason _ => reason ≠ .nullSocket

instance : DecidablePred Control.OnSocket
  | .idle _ => .isTrue trivial
  | .waiting _ endpoint => inferInstanceAs (Decidable (endpoint.manager.m_pSocket.isSome = true))
  | .aborted reason _ => inferInstanceAs (Decidable (reason ≠ .nullSocket))

/-- No method of the socket is called on the null pointer, and an `Update` has
returned with the error once one of its `CheckState` calls has failed. -/
def Control.HandlesFailures (replies : List Reply) (control : Control) : Prop :=
  control.OnSocket ∧ ∀ answer, .select answer ∈ replies → answer.failed = true →
    ∃ after, control = .idle after ∧ after.GetState = .ConnectError

/-- No answer of `select` is a failure. -/
def NoneFailed (replies : List Reply) : Prop :=
  ∀ answer, .select answer ∈ replies → answer.failed = false

/-- The first `CheckState` is over. -/
def Control.PastFirst : Control → Prop
  | .waiting (.checkFirst _) _ => False
  | _ => True

namespace NetMessage

variable {message : NetMessage} {process : Process} {reason : Abort}

theorem storeAtCursor_error {bytes : List UInt8}
    (failed : message.storeAtCursor bytes = .error reason) : reason = .overrun := by
  unfold storeAtCursor MemBuffer.store at failed
  split at failed
  · cases failed
  · cases failed
    rfl

theorem checkBufSize_error {size : Int}
    (failed : message.checkBufSize size process = .error reason) :
    reason = .endless := by
  unfold checkBufSize at failed
  split at failed
  · cases failed
  · cases failed
    rfl

theorem onReceive_error {size : Int} (failed : message.onReceive size process = .error reason) :
    reason = .endless := by
  unfold onReceive at failed
  simp only at failed
  split at failed
  · cases failed
  · split at failed
    · split at failed
      · cases failed
      · exact checkBufSize_error failed
    · split at failed
      · exact checkBufSize_error failed
      · cases failed

end NetMessage

namespace Endpoint

variable {endpoint : Endpoint}

/-- **A `select` that fails.** Only after the first `CheckState` does `Update`
return; in its loops the next call is on the null pointer. -/
theorem resume_select_failed {point : Point} {answer : SelectReply} {control : Control}
    {socket : CSocketCommon} (failed : answer.failed = true)
    (present : endpoint.manager.m_pSocket = some socket)
    (resumed : endpoint.resume point (.select answer) = some control) :
    ∃ after : Endpoint, after.manager.m_pSocket = none ∧ after.GetState = .ConnectError ∧
      ((∃ dt, point = .checkFirst dt ∧ control = .idle after) ∨
        (∀ dt, point ≠ .checkFirst dt) ∧ control = .aborted .nullSocket after) := by
  obtain ⟨after, checked, -, null, state⟩ := CheckState_of_failed failed present
  refine ⟨after, null, state, ?_⟩
  cases point with
  | checkFirst dt =>
      cases resumed
      refine Or.inl ⟨dt, rfl, ?_⟩
      simp only [checkStateThen, checked, afterFirstCheck, state, ↓reduceIte]
  | send => cases resumed
  | checkSend =>
      cases resumed
      refine Or.inr ⟨fun _ => Point.noConfusion, ?_⟩
      simp only [checkStateThen, checked, sendLoop, null]
  | recv => cases resumed
  | checkRecv =>
      cases resumed
      refine Or.inr ⟨fun _ => Point.noConfusion, ?_⟩
      simp only [checkStateThen, checked, recvLoop, null]

theorem Continues.pastFirst {control : Control} (continues : endpoint.Continues control) :
    control.PastFirst := by
  cases continues <;> trivial

/-- Armed calls are made on a socket. -/
theorem onSocket_of_armed {control : Control} (armed : control.Armed)
    (running : ∀ after, control ≠ .aborted .nullSocket after) : control.OnSocket := by
  cases control with
  | idle after => trivial
  | waiting point after =>
      obtain ⟨⟨socket, present⟩, -⟩ := armed
      exact Option.isSome_iff_exists.mpr ⟨socket, present⟩
  | aborted reason after =>
      rintro rfl
      exact running after rfl

/-- **Any other answer** leads to a call on the socket or to the return. -/
theorem resume_of_not_failed {point : Point} {reply : Reply} {control : Control}
    (armed : (Control.waiting point endpoint).Armed)
    (succeeded : ∀ answer, reply = .select answer → answer.failed = false)
    (resumed : endpoint.resume point reply = some control) :
    control.OnSocket ∧ control.PastFirst := by
  have armed' := resume_armed armed resumed
  obtain ⟨⟨socket, present⟩, about⟩ := armed
  rcases resume_cases resumed with ⟨answer, rfl, continues⟩ | ⟨sizeSended, rfl, rfl⟩ |
    ⟨bytes, rfl, rfl, nonempty⟩ | ⟨rfl, ends⟩
  · refine ⟨onSocket_of_armed armed' fun after => ?_, continues.pastFirst⟩
    exact resume_select_ne_aborted (succeeded answer rfl) present resumed .nullSocket after
  · obtain ⟨message, rest, front, -⟩ := about
    rcases resume_send front resumed with ⟨-, rfl⟩ | ⟨-, ⟨-, rfl⟩ | ⟨-, rfl⟩⟩
    · exact ⟨trivial, trivial⟩
    · exact ⟨onSocket_of_armed armed' fun _ => Control.noConfusion, trivial⟩
    · exact ⟨onSocket_of_armed armed' fun _ => Control.noConfusion, trivial⟩
  · obtain ⟨older, message, back, -⟩ := about
    rcases resume_recv back nonempty resumed with ⟨reason, failed, rfl⟩ |
      ⟨filled, -, ⟨reason, failed, rfl⟩ | ⟨after, process, -, rfl⟩⟩
    · rw [NetMessage.storeAtCursor_error failed]
      exact ⟨Abort.noConfusion, trivial⟩
    · rw [NetMessage.onReceive_error failed]
      exact ⟨Abort.noConfusion, trivial⟩
    · exact ⟨onSocket_of_armed armed' fun _ => Control.noConfusion, trivial⟩
  · obtain ⟨older, message, back, -⟩ := about
    rw [resume_recv_closed back ends resumed]
    exact ⟨trivial, trivial⟩

/-- A call that has returned or crashed takes no more answers. -/
theorem run_replies {control final : Control} {replies : List Reply}
    (reached : machine.run control (replies.map .reply) = some final)
    (ended : ∀ point endpoint, control ≠ .waiting point endpoint) :
    replies = [] ∧ final = control := by
  cases replies with
  | nil => exact ⟨rfl, (Option.some.inj reached).symm⟩
  | cons reply replies =>
      obtain ⟨next, stepped, -⟩ := Machine.run_cons_eq_some.mp reached
      rcases step_cases stepped with ⟨endpoint, -, called⟩ | ⟨point, endpoint, _, rfl, -, -⟩
      · cases called
      · exact absurd rfl (ended point endpoint)

end Endpoint

theorem noneFailed_cons {reply : Reply} {replies : List Reply}
    (succeeded : ∀ answer, reply = .select answer → answer.failed = false) :
    NoneFailed (reply :: replies) ↔ NoneFailed replies := by
  constructor
  · intro none_ answer member
    exact none_ answer (List.mem_cons_of_mem _ member)
  · intro none_ answer member
    rcases List.mem_cons.mp member with here | later
    · exact succeeded answer here.symm
    · exact none_ answer later

theorem noneFailed_nil : NoneFailed [] := fun _ member => absurd member List.not_mem_nil

theorem Control.HandlesFailures.nil {control : Control} (onSocket : control.OnSocket) :
    control.HandlesFailures [] :=
  ⟨onSocket, fun _ member => absurd member List.not_mem_nil⟩

theorem Control.handlesFailures_cons {control : Control} {reply : Reply} {replies : List Reply}
    (succeeded : ∀ answer, reply = .select answer → answer.failed = false) :
    control.HandlesFailures (reply :: replies) ↔ control.HandlesFailures replies := by
  apply and_congr_right
  intro _
  constructor
  · intro handles answer member
    exact handles answer (List.mem_cons_of_mem _ member)
  · intro handles answer member failed
    rcases List.mem_cons.mp member with here | later
    · exact absurd (failed.symm.trans (succeeded answer here.symm)) Bool.noConfusion
    · exact handles answer later failed

/-- Behind the first `CheckState` no failure is handled. The induction is on the
answers; at the first failure the run ends on the null pointer. -/
theorem Control.handlesFailures_iff_noneFailed {control final : Control} {replies : List Reply}
    (armed : control.Armed) (onSocket : control.OnSocket) (pastFirst : control.PastFirst)
    (reached : Endpoint.machine.run control (replies.map .reply) = some final) :
    final.HandlesFailures replies ↔ NoneFailed replies := by
  induction replies generalizing control with
  | nil =>
      cases reached
      exact ⟨fun _ => noneFailed_nil, fun _ => .nil onSocket⟩
  | cons reply replies ih =>
      obtain ⟨next, stepped, rest⟩ := Machine.run_cons_eq_some.mp reached
      rcases Endpoint.step_cases stepped with ⟨endpoint, -, called⟩ |
        ⟨point, endpoint, _, rfl, same, resumed⟩
      · cases called
      cases same
      by_cases succeeded : ∀ answer, reply = .select answer → answer.failed = false
      · have onward := Endpoint.resume_of_not_failed armed succeeded resumed
        rw [Control.handlesFailures_cons succeeded, noneFailed_cons succeeded]
        exact ih (armed.step stepped) onward.1 onward.2 rest
      · push Not at succeeded
        obtain ⟨answer, rfl, notSucceeded⟩ := succeeded
        have failed := Bool.eq_true_of_not_eq_false notSucceeded
        obtain ⟨⟨socket, present⟩, -⟩ := armed
        obtain ⟨after, -, -, ⟨dt, rfl, rfl⟩ | ⟨-, rfl⟩⟩ :=
          Endpoint.resume_select_failed failed present resumed
        · exact absurd pastFirst id
        · obtain ⟨-, rfl⟩ := Endpoint.run_replies rest fun _ _ => Control.noConfusion
          constructor
          · intro handles
            exact absurd rfl handles.1
          · intro none_
            exact absurd (none_ answer List.mem_cons_self) notSucceeded

/-- **An `Update` handles the failures of `select`** exactly if none comes after
its first answer. -/
theorem Control.handlesFailures_iff {endpoint : Endpoint} {dt : Int} {replies : List Reply}
    {final : Control}
    (reached : Endpoint.machine.run (.idle endpoint) (.Update dt :: replies.map .reply) =
      some final) :
    final.HandlesFailures replies ↔ NoneFailed replies.tail := by
  obtain ⟨next, stepped, rest⟩ := Machine.run_cons_eq_some.mp reached
  rcases Endpoint.call_Update stepped with rfl | ⟨rfl, socket, present⟩
  · obtain ⟨rfl, rfl⟩ := Endpoint.run_replies rest fun _ _ => Control.noConfusion
    exact ⟨fun _ => noneFailed_nil, fun _ => .nil trivial⟩
  · have onSocket : (Control.waiting (.checkFirst dt) endpoint).OnSocket :=
      Option.isSome_iff_exists.mpr ⟨socket, present⟩
    have armed : (Control.waiting (.checkFirst dt) endpoint).Armed := ⟨⟨socket, present⟩, trivial⟩
    cases replies with
    | nil =>
        cases rest
        exact ⟨fun _ => noneFailed_nil, fun _ => .nil onSocket⟩
    | cons reply replies =>
        obtain ⟨after, stepped, rest⟩ := Machine.run_cons_eq_some.mp rest
        have resumed : endpoint.resume (.checkFirst dt) reply = some after := stepped
        by_cases succeeded : ∀ answer, reply = .select answer → answer.failed = false
        · have onward := Endpoint.resume_of_not_failed armed succeeded resumed
          rw [Control.handlesFailures_cons succeeded]
          exact Control.handlesFailures_iff_noneFailed (armed.step stepped) onward.1 onward.2 rest
        · push Not at succeeded
          obtain ⟨answer, rfl, notSucceeded⟩ := succeeded
          have failed := Bool.eq_true_of_not_eq_false notSucceeded
          obtain ⟨closed, -, state, ⟨-, -, rfl⟩ | ⟨notFirst, -⟩⟩ :=
            Endpoint.resume_select_failed failed present resumed
          · obtain ⟨rfl, rfl⟩ := Endpoint.run_replies rest fun _ _ => Control.noConfusion
            exact ⟨fun _ => noneFailed_nil, fun _ => ⟨trivial, fun _ _ _ => ⟨closed, rfl, state⟩⟩⟩
          · exact absurd rfl (notFirst dt)

/-- An error on the descriptor. -/
def SelectReply.broken : SelectReply := { ret := 1, read := false, write := false, error := true }

theorem Control.handlesFailures_of_broken_at_once :
    ∃ final, Endpoint.machine.run (.idle .justConnected)
        (.Update 1 :: [Reply.select .broken].map .reply) = some final ∧
      final.HandlesFailures [.select .broken] := by
  have runs : (Endpoint.machine.run (.idle .justConnected)
      (.Update 1 :: [Reply.select .broken].map .reply)).isSome = true := by decide
  obtain ⟨final, reached⟩ := Option.isSome_iff_exists.mp runs
  exact ⟨final, reached, (Control.handlesFailures_iff reached).mpr noneFailed_nil⟩

/-- The peer sends two bytes and breaks the connection. -/
theorem Control.not_handlesFailures_of_broken_later :
    ¬ ∀ (process : Process) (events : List Event) (endpoint : Endpoint) (dt : Int)
        (replies : List Reply) (final : Control),
      Endpoint.machine.run (.idle (.new process)) events = some (.idle endpoint) →
        Endpoint.machine.run (.idle endpoint) (.Update dt :: replies.map .reply) = some final →
          final.HandlesFailures replies := by
  intro claimed
  have connects : ((Endpoint.machine.run (.idle (.new .fresh)) establishing).bind
      Control.returned).isSome = true := by decide
  obtain ⟨endpoint, connected⟩ := Option.isSome_iff_exists.mp connects
  obtain ⟨control, connected, returned⟩ := Option.bind_eq_some_iff.mp connected
  obtain rfl := Control.eq_idle_of_returned returned
  have crashes : (Endpoint.machine.run (.idle (.new .fresh)) (establishing ++ (.Update 1 ::
      [Reply.select .readable, .recv [0, 1], .select .broken].map .reply))).map
        (fun control => decide control.OnSocket) = some false := by decide
  obtain ⟨final, reached, crashed⟩ := Option.map_eq_some_iff.mp crashes
  rw [Machine.run_append, connected] at reached
  have handles := claimed _ _ endpoint 1 _ final connected reached
  exact absurd handles.1 (of_decide_eq_false crashed)

end EngSocket
