import EngSocket.Reception.Announced
import EngSocket.Reception.Window

/-!
# What crashes a manager

A call or an answer does not return in four cases only: a `select` fails after the
first one of an `Update`; a `Recv` goes on beyond the block of its message; the
length that it completes is one for which no buffer is large enough; `LoadMsg` is
called when nothing was received (`EngSocket.Control.returns_iff`).
-/

namespace EngSocket

open Foundation

/-- The call for which an `Update` waits gives an answer of this kind. -/
def Point.awaits : Point → Reply → Bool
  | .checkFirst _, .select _ | .checkSend, .select _ | .checkRecv, .select _ => true
  | .send, .send _ => true
  | .recv, .recv _ | .recv, .recvFailed => true
  | _, _ => false

def Point.isFirst : Point → Bool
  | .checkFirst _ => true
  | _ => false

/-- The event can happen: a call outside of `Update`, or an answer to the call for
which `Update` waits. -/
def Control.expects : Control → Event → Bool
  | .idle _, .reply _ => false
  | .idle _, _ => true
  | .waiting point _, .reply reply => point.awaits reply
  | _, _ => false

/-- The bytes fit behind the cursor, and if they complete a length of four bytes, a
buffer can hold it with its header. -/
def NetMessage.Takes (bytes : List UInt8) (message : NetMessage) : Prop :=
  (0 ≤ message.m_curPos ∧ message.m_curPos + bytes.length ≤ message.m_buffer.m_size) ∧
    (message.m_size = -2 → message.m_curPos + bytes.length = message.m_headSize →
      int32 (message.m_headSize + int32 (message.filled bytes).longHeader.toNat) ≤ 1073741824)

/-- The event is none of those that crash. -/
def Control.Survives : Control → Event → Prop
  | .idle endpoint, .LoadMsg => endpoint.manager.m_recvList ≠ []
  | .waiting point _, .reply (.select answer) => answer.failed = true → point.isFirst = true
  | .waiting _ endpoint, .reply (.recv bytes) =>
      bytes ≠ [] → ∀ message ∈ endpoint.manager.m_recvList.getLast?, message.Takes bytes
  | _, _ => True

instance (bytes : List UInt8) (message : NetMessage) : Decidable (message.Takes bytes) :=
  inferInstanceAs (Decidable ((_ ∧ _) ∧ (_ → _)))

instance decidableSurvives : ∀ (control : Control) (event : Event),
    Decidable (control.Survives event)
  | .idle endpoint, .LoadMsg =>
      decidable_of_iff (endpoint.manager.m_recvList.isEmpty = false) List.isEmpty_eq_false_iff
  | .waiting point _, .reply (.select answer) =>
      inferInstanceAs (Decidable (answer.failed = true → point.isFirst = true))
  | .waiting _ endpoint, .reply (.recv bytes) => inferInstanceAs (Decidable
      (bytes ≠ [] → ∀ message ∈ endpoint.manager.m_recvList.getLast?, message.Takes bytes))
  | .waiting _ _, .reply (.send _) | .waiting _ _, .reply .recvFailed => .isTrue trivial
  | .waiting _ _, .Connect _ _ _ | .waiting _ _, .ReConnect _ | .waiting _ _, .Close
  | .waiting _ _, .CloseConnection | .waiting _ _, .SendMsg _ | .waiting _ _, .InitEncrypt
  | .waiting _ _, .LoadMsg | .waiting _ _, .Update _ => .isTrue trivial
  | .idle _, .Connect _ _ _ | .idle _, .ReConnect _ | .idle _, .Close | .idle _, .CloseConnection
  | .idle _, .SendMsg _ | .idle _, .InitEncrypt | .idle _, .Update _ | .idle _, .reply _ =>
      .isTrue trivial
  | .aborted _ _, _ => .isTrue trivial

namespace NetMessage

variable {message : NetMessage} {process : Process}

/-- On a sound buffer room is made exactly up to `2 ^ 30` bytes. -/
theorem checkBufSize_isSome_iff {size : Int} (sound : message.m_buffer.Sound)
    (generous : process.Generous) :
    (∃ after left, message.checkBufSize size process = .ok (after, left)) ↔
      int32 (message.m_curPos + size) ≤ 1073741824 := by
  constructor
  · rintro ⟨after, left, done⟩
    by_contra beyond
    cases done.symm.trans (checkBufSize_of_gt sound (not_le.mp beyond) process)
  · intro bounded
    obtain ⟨grown, requests, done, -⟩ := checkBufSize_of_le sound generous bounded
    exact ⟨_, _, done⟩

/-- **What a `Recv` takes.** -/
theorem takes_iff (sound : message.m_buffer.Sound) (generous : process.Generous)
    (bytes : List UInt8) :
    (∃ filled after left, message.storeAtCursor bytes = .ok filled ∧
      filled.onReceive bytes.length process = .ok (after, left)) ↔ message.Takes bytes := by
  have bounds := sound.size_bounds
  by_cases inside : 0 ≤ message.m_curPos ∧
      message.m_curPos + bytes.length ≤ message.m_buffer.m_size
  · have stored := storeAtCursor_of_le bytes inside.1 inside.2
    have returns : (∃ filled after left, message.storeAtCursor bytes = .ok filled ∧
        filled.onReceive bytes.length process = .ok (after, left)) ↔
          ∃ after left, (message.filled bytes).onReceive bytes.length process =
            .ok (after, left) := by
      constructor
      · rintro ⟨filled, after, left, same, received⟩
        cases stored.symm.trans same
        exact ⟨after, left, received⟩
      · rintro ⟨after, left, received⟩
        exact ⟨_, after, left, stored, received⟩
    rw [returns, onReceive_filled (by omega) (by omega), Takes, and_iff_right inside]
    have kept : (message.advanced bytes).m_size = message.m_size ∧
        (message.advanced bytes).m_curPos = message.m_curPos + bytes.length ∧
          (message.advanced bytes).m_headSize = message.m_headSize := ⟨rfl, rfl, rfl⟩
    obtain ⟨size, cursor, headSize⟩ := kept
    simp only [size, cursor, headSize]
    split
    · exact iff_of_true ⟨_, _, rfl⟩ fun long => by omega
    · split
      · next short =>
          have other (long : message.m_size = -2) : False := by omega
          split
          · exact iff_of_true ⟨_, _, rfl⟩ fun long => (other long).elim
          · refine iff_of_true ?_ fun long => (other long).elim
            have below := (message.advanced bytes).shortHeader.toNat_lt
            refine (checkBufSize_isSome_iff (by exact sound) generous).mpr ?_
            simp only
            rw [int32_of_range (by omega) (by omega)]
            omega
      · split
        · next long =>
            refine (checkBufSize_isSome_iff (by exact sound) generous).trans ?_
            exact ⟨fun bounded _ _ => bounded, fun bounded => bounded long.1 long.2⟩
        · next neither =>
            exact iff_of_true ⟨_, _, rfl⟩ fun long whole => absurd ⟨long, whole⟩ neither
  · apply iff_of_false
    · rintro ⟨filled, after, left, stored, -⟩
      exact inside (storeAtCursor_ok stored).1
    · exact fun takes => inside takes.1

end NetMessage

namespace Endpoint

variable {endpoint : Endpoint}

/-- A call on an idle manager returns, unless it is a `LoadMsg` from nothing. -/
theorem call_returns_iff {event : Event} (expects : (Control.idle endpoint).expects event = true) :
    (∃ next, endpoint.call event = some next ∧ ¬ next.IsAborted) ↔
      (Control.idle endpoint).Survives event := by
  cases event with
  | Connect addr port dial =>
      obtain ⟨control, called⟩ : ∃ control, endpoint.call (.Connect addr port dial) =
        some control := ⟨_, rfl⟩
      obtain ⟨result, after, -, rfl, -⟩ := call_Connect called
      exact iff_of_true ⟨_, called, id⟩ trivial
  | ReConnect dial =>
      obtain ⟨control, called⟩ : ∃ control, endpoint.call (.ReConnect dial) = some control :=
        ⟨_, rfl⟩
      obtain ⟨after, -, rfl, -⟩ := call_ReConnect called
      exact iff_of_true ⟨_, called, id⟩ trivial
  | LoadMsg =>
      obtain ⟨control, called⟩ : ∃ control, endpoint.call .LoadMsg = some control := ⟨_, rfl⟩
      rcases call_LoadMsg called with ⟨none_, rfl⟩ | ⟨message, rest, front, rfl⟩
      · apply iff_of_false
        · rintro ⟨next, same, returned⟩
          cases called.symm.trans same
          exact returned trivial
        · exact fun survives => survives none_
      · refine iff_of_true ⟨_, called, id⟩ fun none_ => ?_
        cases front.symm.trans none_
  | Update dt =>
      obtain ⟨control, called⟩ : ∃ control, endpoint.call (.Update dt) = some control := ⟨_, rfl⟩
      rcases call_Update called with rfl | ⟨rfl, -⟩
      · exact iff_of_true ⟨_, called, id⟩ trivial
      · exact iff_of_true ⟨_, called, id⟩ trivial
  | reply reply => exact absurd expects Bool.false_ne_true
  | _ => exact iff_of_true ⟨_, rfl, id⟩ trivial

/-- An answer of `select` returns, unless it is a failure after the first. -/
theorem resume_select_returns_iff {point : Point} {answer : SelectReply} {control : Control}
    {socket : CSocketCommon} (present : endpoint.manager.m_pSocket = some socket)
    (resumed : endpoint.resume point (.select answer) = some control) :
    ¬ control.IsAborted ↔ (answer.failed = true → point.isFirst = true) := by
  by_cases failed : answer.failed = true
  · obtain ⟨after, -, -, ⟨dt, rfl, rfl⟩ | ⟨later, rfl⟩⟩ :=
      resume_select_failed failed present resumed
    · exact iff_of_true id fun _ => rfl
    · apply iff_of_false
      · exact fun returned => returned trivial
      · intro first
        cases point with
        | checkFirst dt => exact later dt rfl
        | _ => exact Bool.false_ne_true (first failed)
  · refine iff_of_true ?_ fun fails => absurd fails failed
    have running := resume_select_ne_aborted (Bool.eq_false_iff.mpr failed) present resumed
    cases control with
    | aborted reason after => exact absurd rfl (running reason after)
    | _ => exact id

/-- A `Recv` returns, unless its message does not take the bytes. -/
theorem resume_recv_returns_iff {bytes : List UInt8} {control : Control} {message : NetMessage}
    {older : List NetMessage} (sound : endpoint.Sound)
    (back : endpoint.manager.m_recvList = older ++ [message])
    (resumed : endpoint.resume .recv (.recv bytes) = some control) :
    ¬ control.IsAborted ↔ (bytes ≠ [] → message.Takes bytes) := by
  by_cases ends : bytes = []
  · rw [resume_recv_closed back (Or.inl (congrArg Reply.recv ends)) resumed]
    exact iff_of_true id fun nonempty => absurd ends nonempty
  · rw [← NetMessage.takes_iff (sound.recvList message ?_) sound.generous]
    · rcases resume_recv back ends resumed with ⟨reason, refused, rfl⟩ |
        ⟨filled, stored, ⟨reason, refused, rfl⟩ | ⟨after, process, received, rfl⟩⟩
      · apply iff_of_false
        · exact fun returned => returned trivial
        · intro takes
          obtain ⟨filled, after, left, stored, -⟩ := takes ends
          cases refused.symm.trans stored
      · apply iff_of_false
        · exact fun returned => returned trivial
        · intro takes
          obtain ⟨filled', after, left, stored', received⟩ := takes ends
          cases stored.symm.trans stored'
          cases refused.symm.trans received
      · exact iff_of_true id fun _ => ⟨filled, after, process, stored, received⟩
    · rw [back]
      exact List.mem_append_right _ (List.mem_singleton_self message)

/-- An answer for which `Update` waits. -/
theorem resume_returns_iff {point : Point} {reply : Reply} (sound : endpoint.Sound)
    (armed : (Control.waiting point endpoint).Armed) (awaits : point.awaits reply = true) :
    (∃ next, endpoint.resume point reply = some next ∧ ¬ next.IsAborted) ↔
      (Control.waiting point endpoint).Survives (.reply reply) := by
  obtain ⟨next, resumed⟩ : ∃ next, endpoint.resume point reply = some next := by
    cases point <;> cases reply <;> first | exact ⟨_, rfl⟩ | exact absurd awaits Bool.false_ne_true
  have only : (∃ next, endpoint.resume point reply = some next ∧ ¬ next.IsAborted) ↔
      ¬ next.IsAborted := by
    constructor
    · rintro ⟨other, same, returned⟩
      cases resumed.symm.trans same
      exact returned
    · exact fun returned => ⟨next, resumed, returned⟩
  rw [only]
  obtain ⟨⟨socket, present⟩, about⟩ := armed
  cases reply with
  | select answer => exact resume_select_returns_iff present resumed
  | send sizeSended =>
      cases point with
      | send =>
          obtain ⟨message, rest, front, -⟩ := about
          rcases resume_send front resumed with ⟨-, rfl⟩ | ⟨-, ⟨-, rfl⟩ | ⟨-, rfl⟩⟩
          · exact iff_of_true id trivial
          · exact iff_of_true id trivial
          · exact iff_of_true id trivial
      | _ => exact absurd awaits Bool.false_ne_true
  | recv bytes =>
      cases point with
      | recv =>
          obtain ⟨older, message, back, -⟩ := about
          have survives : (Control.waiting .recv endpoint).Survives (.reply (.recv bytes)) ↔
              (bytes ≠ [] → ∀ last ∈ endpoint.manager.m_recvList.getLast?, last.Takes bytes) :=
            Iff.rfl
          rw [resume_recv_returns_iff sound back resumed, survives, back, List.getLast?_concat]
          simp only [Option.mem_some_iff, forall_eq']
      | _ => exact absurd awaits Bool.false_ne_true
  | recvFailed =>
      cases point with
      | recv =>
          obtain ⟨older, message, back, -⟩ := about
          rw [resume_recv_closed back (Or.inr rfl) resumed]
          exact iff_of_true id trivial
      | _ => exact absurd awaits Bool.false_ne_true

end Endpoint

/-- **What returns.** An event that can happen to a manager is handled to its end
exactly if it is none of those that crash. -/
theorem Control.returns_iff {control : Control} {event : Event} (sound : control.Sound)
    (armed : control.Armed) (expects : control.expects event = true) :
    (∃ next, Endpoint.machine.step control event = some next ∧ ¬ next.IsAborted) ↔
      control.Survives event := by
  cases control with
  | idle endpoint => exact Endpoint.call_returns_iff expects
  | waiting point endpoint =>
      cases event with
      | reply reply => exact Endpoint.resume_returns_iff sound armed expects
      | _ => exact absurd expects Bool.false_ne_true
  | aborted reason endpoint => exact absurd expects Bool.false_ne_true

/-! ## Peers that behave -/

/-- The bytes are some of those asked for, they do not go on beyond the header that
they are part of, and the length that they complete is one that a buffer can hold. -/
def NetMessage.Suits (bytes : List UInt8) (message : NetMessage) : Prop :=
  bytes.length ≤ message.getReadCap ∧ message.HarmlessHeader bytes ∧
    (message.m_size = -2 → message.m_curPos + bytes.length = message.m_headSize →
      bigEndian (message.m_buffer.m_buf.read 0 message.m_curPos.toNat ++ bytes) ≤ 1073741820)

instance (bytes : List UInt8) (message : NetMessage) : Decidable (message.Suits bytes) :=
  inferInstanceAs (Decidable (_ ∧ _ ∧ (_ → _)))

theorem int32_announced {length : Nat} (bounded : length ≤ 1073741820) :
    int32 (4 + int32 length) ≤ 1073741824 := by
  have value : int32 length = length := int32_of_range (by omega) (by omega)
  rw [value, int32_of_range (by omega) (by omega)]
  omega

/-- **What suits a message is taken by it.** Only while a length of four bytes is read
does its value matter. -/
theorem Reading.takes {phase : Phase} {message : NetMessage} {bytes : List UInt8}
    (reading : Reading phase message) (suits : message.Suits bytes) : message.Takes bytes := by
  obtain ⟨asked, harmless, limit⟩ := suits
  have covered := reading.covered_of_le (reading.covers_of_harmless harmless) asked
  obtain ⟨stored, holds⟩ := reading.storeAtCursor_eq bytes covered
  refine ⟨(NetMessage.storeAtCursor_ok stored).1, fun size whole => ?_⟩
  have below := limit size whole
  have cursor := reading.cursor
  have headSize := reading.headSize
  have known := reading.size
  have before := reading.bytes
  obtain ⟨stage, got⟩ := phase
  cases stage with
  | short =>
      simp only [Stage.sizeField] at known
      omega
  | body head =>
      simp only [Stage.sizeField] at known
      omega
  | long =>
      simp only [Stage.head, Stage.headSize, List.length_nil, Nat.zero_add, List.nil_append] at *
      have four : got.length + bytes.length = 4 := by omega
      have length : (message.filled bytes).longHeader.toNat = bigEndian (got ++ bytes) := by
        rw [NetMessage.longHeader_toNat, ← four, holds]
      have seen : message.m_curPos.toNat = got.length := by omega
      rw [seen, before] at below
      rw [length, headSize]
      exact int32_announced below

/-- The peer and the network behave: what comes suits the message that it is for, and
`select` fails only where `Update` looks at the state. -/
def Control.Polite : Control → Event → Prop
  | .waiting point _, .reply (.select answer) => answer.failed = true → point.isFirst = true
  | .waiting _ endpoint, .reply (.recv bytes) =>
      ∀ message ∈ endpoint.manager.m_recvList.getLast?, message.Suits bytes
  | _, _ => True

instance decidablePolite : ∀ (control : Control) (event : Event), Decidable (control.Polite event)
  | .waiting point _, .reply (.select answer) =>
      inferInstanceAs (Decidable (answer.failed = true → point.isFirst = true))
  | .waiting _ endpoint, .reply (.recv bytes) => inferInstanceAs (Decidable
      (∀ message ∈ endpoint.manager.m_recvList.getLast?, message.Suits bytes))
  | .waiting _ _, .reply (.send _) | .waiting _ _, .reply .recvFailed => .isTrue trivial
  | .waiting _ _, .Connect _ _ _ | .waiting _ _, .ReConnect _ | .waiting _ _, .Close
  | .waiting _ _, .CloseConnection | .waiting _ _, .SendMsg _ | .waiting _ _, .InitEncrypt
  | .waiting _ _, .LoadMsg | .waiting _ _, .Update _ => .isTrue trivial
  | .idle _, _ | .aborted _ _, _ => .isTrue trivial

namespace Control

variable {control next : Control} {event : Event}

/-- A manager whose messages are all in reception keeps them there. -/
theorem InReception.step_of_polite (all : control.InReception) (sound : control.Sound)
    (armed : control.Armed) (own : event.ofManager = true) (polite : control.Polite event)
    (stepped : Endpoint.machine.step control event = some next) : next.InReception := by
  rcases Endpoint.step_cases stepped with ⟨endpoint, rfl, called⟩ |
    ⟨point, endpoint, reply, rfl, rfl, resumed⟩
  · cases event with
    | SendMsg message => cases own
    | reply reply => cases called
    | _ => exact all.step sound armed (by trivial) (by trivial) stepped
  · cases reply with
    | recv bytes =>
        refine all.step sound armed ?_ ?_ stepped
        · exact fun message last => (polite message last).1
        · exact fun message last => (polite message last).2.1
    | _ => exact all.step sound armed (by trivial) (by trivial) stepped

/-- **Who behaves crashes no manager.** -/
theorem Polite.survives (polite : control.Polite event) (all : control.InReception)
    (armed : control.Armed) (own : event.ofManager = true) (expects : control.expects event = true) :
    control.Survives event := by
  cases control with
  | idle endpoint =>
      cases event with
      | LoadMsg => cases own
      | _ => trivial
  | aborted reason endpoint => cases expects
  | waiting point endpoint =>
      cases event with
      | reply reply =>
          cases reply with
          | select answer => exact polite
          | recv bytes =>
              intro nonempty message last
              obtain ⟨-, about⟩ := armed
              cases point with
              | recv =>
                  obtain ⟨older, back, list, incomplete⟩ := about
                  have same : back = message := by
                    rw [list, List.getLast?_concat] at last
                    exact Option.some.inj last
                  subst same
                  obtain ⟨phase, reading⟩ :=
                    (all back (List.mem_of_getLast? last)).reading_of_not_end incomplete
                  exact reading.takes (polite back last)
              | _ => cases expects
          | _ => trivial
      | _ => cases expects

end Control

end EngSocket
