import EngSocket.Connection.Soundness
import EngSocket.Message.Writing
import EngSocket.Foundation.Outbox

/-!
# The send queue as an outbox

A queued message is a parcel: the bytes from `m_bufStartPos` to the cursor have
gone, those from the cursor on are left. `Endpoint.Queue` says that `m_sendList`
is accounted for by an outbox and that no message in it is complete; every answer
that an `Update` waits for keeps it (`EngSocket.Endpoint.Queue.resume`).
-/

namespace EngSocket

open Foundation

namespace NetMessage

/-- What of a message has gone and what is left to send. -/
def parcel (message : NetMessage) : Parcel UInt8 where
  gone := message.m_buffer.m_buf.read message.m_bufStartPos
    (message.m_curPos - message.m_bufStartPos).toNat
  left := message.m_buffer.m_buf.read message.m_curPos message.getSendCap.toNat

/-- Header and payload lie within the offsets of an `int`, and there is a header. -/
structure Layout (message : NetMessage) : Prop where
  start : 0 ≤ message.m_bufStartPos
  header : 0 < message.m_headSize
  least : -2147483648 ≤ message.m_size
  fits : message.m_bufStartPos + message.m_headSize + message.m_size < 2147483648

/-- A message as `endForWrite` has left it. The subtraction of the six reserved
bytes from the cursor did not overflow. -/
def Ended (message : NetMessage) : Prop :=
  ∃ (before : NetMessage) (process left : Process),
    (-2147483642 ≤ before.m_curPos ∧ before.m_curPos < 2147483648) ∧
      before.endForWrite process = .ok (message, left)

/-- A message with its cursor between the ends of what is to be sent. -/
structure Sendable (message : NetMessage) : Prop extends Layout message where
  low : message.m_bufStartPos ≤ message.m_curPos
  high : message.m_curPos ≤ message.m_bufStartPos + message.m_headSize + message.m_size ∨
    message.m_curPos = message.m_bufStartPos

variable {message : NetMessage}

/-- Either header ends at offset 6, where the payload begins. -/
theorem Ended.layout (ended : message.Ended) :
    message.Layout ∧ message.m_curPos = message.m_bufStartPos := by
  obtain ⟨before, process, left, range, done⟩ := ended
  obtain ⟨-, size, cursor, header⟩ := endForWrite_keeps done
  rw [int32_of_range (by omega) (by omega)] at size
  refine ⟨?_, cursor⟩
  rcases header with ⟨-, head, start⟩ | ⟨-, head, start⟩
  · exact ⟨by omega, by omega, by omega, by omega⟩
  · exact ⟨by omega, by omega, by omega, by omega⟩

theorem Sendable.getSendCap_eq (sendable : message.Sendable) :
    message.getSendCap =
      message.m_bufStartPos + message.m_headSize + message.m_size - message.m_curPos := by
  obtain ⟨⟨start, header, least, fits⟩, low, high⟩ := sendable
  unfold getSendCap
  rw [int32_of_range (by omega) (by omega)]
  omega

theorem Sendable.whole_parcel (sendable : message.Sendable) :
    message.parcel.whole = message.wire := by
  have cap := sendable.getSendCap_eq
  obtain ⟨⟨start, header, least, fits⟩, low, high⟩ := sendable
  have lengths : (message.m_curPos - message.m_bufStartPos).toNat + message.getSendCap.toNat =
      (message.m_headSize + message.m_size).toNat := by
    rw [cap]
    omega
  have cursor : message.m_curPos = message.m_bufStartPos +
      ((message.m_curPos - message.m_bufStartPos).toNat : Int) := by omega
  unfold Parcel.whole parcel wire
  rw [← lengths, Memory.read_add, ← cursor]

/-- A message is complete once nothing is left of it. -/
theorem Sendable.isEnd_iff (sendable : message.Sendable) :
    message.isEnd = true ↔ 0 ≤ message.m_size ∧ message.getSendCap = 0 := by
  rw [sendable.getSendCap_eq]
  obtain ⟨⟨start, header, least, fits⟩, low, high⟩ := sendable
  unfold isEnd
  by_cases negative : message.m_size < 0
  · simp only [negative, ↓reduceIte, Bool.false_eq_true, false_iff]
    omega
  · have sum : int32 (message.m_size + message.m_headSize + message.m_bufStartPos) =
        message.m_size + message.m_headSize + message.m_bufStartPos :=
      int32_of_range (by omega) (by omega)
    simp only [negative, ↓reduceIte, sum, decide_eq_true_eq]
    omega

/-- `SendMsg` puts the cursor in front of the header. -/
theorem Layout.ResetForSend (layout : message.Layout) :
    message.ResetForSend.Sendable ∧
      message.ResetForSend.parcel = { gone := [], left := message.wire } ∧
        message.ResetForSend.isEnd = false := by
  have sendable : message.ResetForSend.Sendable :=
    ⟨⟨layout.start, layout.header, layout.least, layout.fits⟩, le_rfl, Or.inr rfl⟩
  have gone : message.ResetForSend.parcel.gone = [] := by
    change message.m_buffer.m_buf.read _ (message.m_bufStartPos - message.m_bufStartPos).toNat = []
    rw [sub_self, Int.toNat_zero, Memory.read_zero]
  have whole := sendable.whole_parcel
  rw [Parcel.whole, gone, List.nil_append] at whole
  refine ⟨sendable, ?_, ?_⟩
  · exact congrArg₂ Parcel.mk gone whole
  · apply Bool.eq_false_iff.mpr
    intro ended
    obtain ⟨known, nothing⟩ := sendable.isEnd_iff.mp ended
    rw [sendable.getSendCap_eq] at nothing
    have header := layout.header
    change 0 ≤ message.m_size at known
    change message.m_bufStartPos + message.m_headSize + message.m_size -
      message.m_bufStartPos = 0 at nothing
    omega

/-- The bytes that the kernel takes when a `Send` returns their number. -/
def taken (sizeSended : Int) (message : NetMessage) : List UInt8 :=
  message.m_buffer.m_buf.read message.m_curPos sizeSended.toNat

/-- A `Send` moves the cursor, and so many bytes fewer are left. -/
theorem Sendable.onSend_cursor (sendable : message.Sendable) {sizeSended : Int}
    (some_ : 0 ≤ sizeSended) (asked : sizeSended ≤ message.getSendCap) :
    (message.onSend sizeSended).Sendable ∧
      (message.onSend sizeSended).m_curPos = message.m_curPos + sizeSended ∧
        (message.onSend sizeSended).getSendCap = message.getSendCap - sizeSended := by
  have cap := sendable.getSendCap_eq
  obtain ⟨⟨start, header, least, fits⟩, low, high⟩ := sendable
  have cursor : (message.onSend sizeSended).m_curPos = message.m_curPos + sizeSended :=
    int32_of_range (by omega) (by omega)
  have next : (message.onSend sizeSended).Sendable := by
    refine ⟨⟨start, header, least, fits⟩, ?_, Or.inl ?_⟩
    · rw [cursor]
      exact low.trans (by omega)
    · rw [cursor]
      change message.m_curPos + sizeSended ≤
        message.m_bufStartPos + message.m_headSize + message.m_size
      omega
  refine ⟨next, cursor, ?_⟩
  rw [next.getSendCap_eq, cap, cursor, sub_sub]
  rfl

/-- A `Send` moves the bytes it has taken from what is left to what has gone. -/
theorem Sendable.onSend (sendable : message.Sendable) {sizeSended : Int} (some_ : 0 ≤ sizeSended)
    (asked : sizeSended ≤ message.getSendCap) :
    (message.onSend sizeSended).Sendable ∧
      message.parcel.left = message.taken sizeSended ++ (message.onSend sizeSended).parcel.left ∧
        (message.onSend sizeSended).parcel.gone = message.parcel.gone ++ message.taken sizeSended := by
  obtain ⟨next, cursor, cap⟩ := sendable.onSend_cursor some_ asked
  have low := sendable.low
  refine ⟨next, ?_, ?_⟩
  · have lengths : message.getSendCap.toNat =
        sizeSended.toNat + (message.onSend sizeSended).getSendCap.toNat := by omega
    change message.m_buffer.m_buf.read message.m_curPos message.getSendCap.toNat =
      message.taken sizeSended ++ message.m_buffer.m_buf.read
        (message.onSend sizeSended).m_curPos (message.onSend sizeSended).getSendCap.toNat
    rw [lengths, Memory.read_add, Int.toNat_of_nonneg some_, cursor]
    rfl
  · have lengths : (message.m_curPos + sizeSended - message.m_bufStartPos).toNat =
        (message.m_curPos - message.m_bufStartPos).toNat + sizeSended.toNat := by omega
    have position : message.m_bufStartPos +
        ((message.m_curPos - message.m_bufStartPos).toNat : Int) = message.m_curPos := by omega
    change message.m_buffer.m_buf.read message.m_bufStartPos
      ((message.onSend sizeSended).m_curPos - message.m_bufStartPos).toNat = _
    rw [cursor, lengths, Memory.read_add, position]
    rfl

/-- Nothing is left of a complete message. -/
theorem Sendable.left_of_isEnd (sendable : message.Sendable) (ended : message.isEnd = true) :
    message.parcel.left = [] := by
  unfold parcel
  rw [(sendable.isEnd_iff.mp ended).2, Int.toNat_zero, Memory.read_zero]

end NetMessage

/-- The bytes that the kernel takes from a manager at an event. -/
def Control.gives (control : Control) : Event → List UInt8
  | .reply (.send sizeSended) =>
      match control with
      | .waiting .send endpoint =>
          match endpoint.manager.m_sendList with
          | message :: _ => message.taken sizeSended
          | [] => []
      | _ => []
  | _ => []

/-- `send` returns `-1` or at most the number of bytes asked for. -/
def Control.Sends (control : Control) : Event → Prop
  | .reply (.send sizeSended) => sizeSended = -1 ∨ 0 ≤ sizeSended ∧
      ∀ message ∈ control.endpoint.manager.m_sendList.head?, sizeSended ≤ message.getSendCap
  | _ => True

/-- The queue is accounted for, and every message in it has bytes left or no size. -/
structure Endpoint.Queue (outbox : Outbox UInt8) (endpoint : Endpoint) : Prop where
  accounted : outbox.Accounted (endpoint.manager.m_sendList.map NetMessage.parcel)
  sendable : ∀ message ∈ endpoint.manager.m_sendList, message.Sendable
  incomplete : ∀ message ∈ endpoint.manager.m_sendList, message.isEnd = false

namespace Endpoint

variable {endpoint : Endpoint} {outbox : Outbox UInt8}

theorem SameMessages.queue {after : Endpoint} (same : endpoint.SameMessages after)
    (queue : endpoint.Queue outbox) : after.Queue outbox := by
  obtain ⟨accounted, sendable, incomplete⟩ := queue
  rw [← same.sendList] at accounted sendable incomplete
  exact ⟨accounted, sendable, incomplete⟩

/-- From an answer of `select` to the next call nothing leaves the queue: no
message in it is complete. -/
theorem Continues.queue {control : Control} (continues : endpoint.Continues control)
    (queue : endpoint.Queue outbox) : control.endpoint.Queue outbox := by
  cases continues with
  | returned same => exact same.queue queue
  | crashed same => exact same.queue queue
  | recv same =>
      obtain ⟨accounted, sendable, incomplete⟩ := same.queue queue
      refine ⟨?_, ?_, ?_⟩
      all_goals simp only [Control.endpoint, pickMessage_sendList]
      · exact accounted
      · exact sendable
      · exact incomplete
  | send same => exact same.queue queue
  | sent same socket present message rest front complete =>
      have queued := (same.queue queue).incomplete message (by rw [front]; exact List.mem_cons_self)
      exact absurd (complete.symm.trans queued) Bool.noConfusion

/-- **One `Send`.** The bytes taken are accounted for, and the message leaves
exactly if none is left. -/
theorem Queue.afterSend {sizeSended : Int} {control : Control} {message : NetMessage}
    {rest : List NetMessage} (queue : endpoint.Queue outbox)
    (front : endpoint.manager.m_sendList = message :: rest)
    (asked : sizeSended = -1 ∨ 0 ≤ sizeSended ∧ sizeSended ≤ message.getSendCap)
    (resumed : endpoint.resume .send (.send sizeSended) = some control) :
    control.endpoint.Queue (outbox.accept (message.taken sizeSended)) := by
  rcases resume_send front resumed with ⟨failed, rfl⟩ | ⟨some_, outcome⟩
  · have nothing : message.taken sizeSended = [] := by
      unfold NetMessage.taken
      rw [show sizeSended.toNat = 0 by omega, Memory.read_zero]
    rw [nothing, Outbox.accept_nil]
    exact (OnError_same .SendZeroByte endpoint).queue queue
  · obtain ⟨accounted, sendable, incomplete⟩ := queue
    rw [front] at accounted sendable incomplete
    have atMost : sizeSended ≤ message.getSendCap := by
      rcases asked with rfl | ⟨-, atMost⟩
      · exact absurd some_ (by decide)
      · exact atMost
    obtain ⟨next, left, gone⟩ := (sendable message List.mem_cons_self).onSend some_ atMost
    have advanced : (outbox.accept (message.taken sizeSended)).Accounted
        ((message.onSend sizeSended).parcel :: rest.map NetMessage.parcel) := by
      have before : message.parcel = { gone := message.parcel.gone
                                       left := message.taken sizeSended ++
                                         (message.onSend sizeSended).parcel.left } :=
        congrArg (Parcel.mk message.parcel.gone) left
      rw [List.map_cons, before] at accounted
      have moved := accounted.accept
      rw [← gone] at moved
      exact moved
    have later : ∀ other ∈ rest, other.Sendable ∧ other.isEnd = false := fun other member =>
      ⟨sendable other (List.mem_cons_of_mem _ member),
        incomplete other (List.mem_cons_of_mem _ member)⟩
    rcases outcome with ⟨ended, rfl⟩ | ⟨unsent, rfl⟩
    · have finished := next.left_of_isEnd ended
      have departs : (message.onSend sizeSended).parcel =
          { gone := (message.onSend sizeSended).parcel.gone, left := [] } :=
        congrArg (Parcel.mk (message.onSend sizeSended).parcel.gone) finished
      rw [departs] at advanced
      exact ⟨advanced.leave, fun other member => (later other member).1,
        fun other member => (later other member).2⟩
    · refine ⟨advanced, ?_, ?_⟩
      · intro other member
        rcases List.mem_cons.mp member with rfl | tail
        · exact next
        · exact (later other tail).1
      · intro other member
        rcases List.mem_cons.mp member with rfl | tail
        · exact unsent
        · exact (later other tail).2

/-- **The queue along an `Update`.** Every answer keeps the account, with the bytes
that it moves to the kernel. -/
theorem Queue.resume {point : Point} {reply : Reply} {control : Control}
    (queue : endpoint.Queue outbox) (armed : (Control.waiting point endpoint).Armed)
    (sends : (Control.waiting point endpoint).Sends (.reply reply))
    (resumed : endpoint.resume point reply = some control) :
    control.endpoint.Queue
      (outbox.accept ((Control.waiting point endpoint).gives (.reply reply))) := by
  obtain ⟨-, about⟩ := armed
  rcases resume_cases resumed with ⟨answer, rfl, continues⟩ | ⟨sizeSended, rfl, rfl⟩ |
    ⟨bytes, rfl, rfl, nonempty⟩ | ⟨rfl, ends⟩
  · change control.endpoint.Queue (outbox.accept [])
    rw [Outbox.accept_nil]
    exact continues.queue queue
  · obtain ⟨message, rest, front, -⟩ := about
    have first : message ∈ endpoint.manager.m_sendList.head? := by
      rw [front]
      rfl
    simp only [Control.gives, front]
    apply queue.afterSend front _ resumed
    rcases sends with blocked | ⟨some_, asked⟩
    · exact Or.inl blocked
    · exact Or.inr ⟨some_, asked message first⟩
  · obtain ⟨older, message, back, -⟩ := about
    change control.endpoint.Queue (outbox.accept [])
    rw [Outbox.accept_nil]
    rcases resume_recv back nonempty resumed with ⟨reason, -, rfl⟩ |
      ⟨filled, -, ⟨reason, -, rfl⟩ | ⟨after, process, -, rfl⟩⟩
    · exact queue
    · exact queue
    · exact ⟨queue.accounted, queue.sendable, queue.incomplete⟩
  · obtain ⟨older, message, back, -⟩ := about
    have none_ : (Control.waiting .recv endpoint).gives (.reply reply) = [] := by
      rcases ends with rfl | rfl <;> rfl
    rw [none_, Outbox.accept_nil, resume_recv_closed back ends resumed]
    exact (OnError_same .RecvZeroByte endpoint).queue queue

/-- `SendMsg` queues what the message has on the wire. -/
theorem Queue.SendMsg (queue : endpoint.Queue outbox) {message : NetMessage}
    (layout : message.Layout) : (endpoint.SendMsg message).Queue (outbox.queue message.wire) := by
  obtain ⟨sendable, parcel, incomplete⟩ := layout.ResetForSend
  refine ⟨?_, ?_, ?_⟩
  · have queued := queue.accounted.queue message.wire
    rw [← parcel] at queued
    simp only [Endpoint.SendMsg, modify, EncodeMsg, List.map_append, List.map_cons, List.map_nil]
    exact queued
  · intro other member
    rcases List.mem_append.mp member with earlier | new
    · exact queue.sendable other earlier
    · rw [List.mem_singleton.mp new]
      exact sendable
  · intro other member
    rcases List.mem_append.mp member with earlier | new
    · exact queue.incomplete other earlier
    · rw [List.mem_singleton.mp new]
      exact incomplete

/-- A queue of messages on which no `Send` was made yet. -/
theorem queue_of_ended (ended : ∀ message ∈ endpoint.manager.m_sendList, message.Ended) :
    endpoint.Queue { queued := endpoint.manager.m_sendList.map NetMessage.wire, accepted := [] } := by
  have ready (message : NetMessage) (member : message ∈ endpoint.manager.m_sendList) :
      message.Sendable ∧ message.parcel = { gone := [], left := message.wire } ∧
        message.isEnd = false := by
    obtain ⟨layout, cursor⟩ := (ended message member).layout
    obtain ⟨address, size, headSize, start, curPos, buffer⟩ := message
    cases cursor
    exact layout.ResetForSend
  have parcels : endpoint.manager.m_sendList.map NetMessage.parcel =
      (endpoint.manager.m_sendList.map NetMessage.wire).map fun unit => { gone := [], left := unit } := by
    rw [List.map_map]
    exact List.map_congr_left fun message member => (ready message member).2.1
  refine ⟨?_, fun message member => (ready message member).1,
    fun message member => (ready message member).2.2⟩
  rw [parcels]
  exact Outbox.accounted_fresh _

/-- An emptied queue is that of a new outbox. -/
theorem queue_of_nil (none_ : endpoint.manager.m_sendList = []) : endpoint.Queue .empty := by
  refine ⟨?_, ?_, ?_⟩
  all_goals rw [none_]
  · exact Outbox.accounted_empty
  · exact List.forall_mem_nil _
  · exact List.forall_mem_nil _

/-- What an accounted queue is: the messages whose bytes were all accepted have
left it, and those which have bytes left are in it. -/
theorem Queue.departed (queue : endpoint.Queue outbox) :
    ∃ departed, outbox.queued = departed ++ endpoint.manager.m_sendList.map NetMessage.wire ∧
      departed.flatten <+: outbox.accepted ∧
        ∀ message rest, endpoint.manager.m_sendList = message :: rest → 0 ≤ message.m_size →
          outbox.accepted.length < (departed ++ [message.wire]).flatten.length := by
  obtain ⟨⟨departed, queued, accepted, untouched⟩, sendable, incomplete⟩ := queue
  have wires : (endpoint.manager.m_sendList.map NetMessage.parcel).map Parcel.whole =
      endpoint.manager.m_sendList.map NetMessage.wire := by
    rw [List.map_map]
    exact List.map_congr_left fun message member => (sendable message member).whole_parcel
  refine ⟨departed, by rw [queued, wires], ⟨_, accepted.symm⟩, ?_⟩
  intro message rest front known
  rw [front] at accepted untouched sendable incomplete
  rw [List.map_cons, List.tail_cons] at untouched
  have here := sendable message List.mem_cons_self
  have left : 0 < message.getSendCap := by
    have unfinished : ¬ (0 ≤ message.m_size ∧ message.getSendCap = 0) := by
      rw [← here.isEnd_iff, incomplete message List.mem_cons_self]
      exact Bool.noConfusion
    have cap := here.getSendCap_eq
    obtain ⟨⟨start, header, least, fits⟩, low, high⟩ := here
    omega
  have split : message.wire.length = message.parcel.gone.length + message.getSendCap.toNat := by
    rw [← here.whole_parcel, Parcel.whole, List.length_append]
    exact congrArg _ (Memory.length_read _ _ _)
  rw [accepted, List.map_cons, List.map_cons, List.flatten_cons, Outbox.flatten_gone untouched,
    List.append_nil, List.flatten_append, List.length_append, List.length_append,
    List.flatten_singleton, split]
  omega

end Endpoint

/-! ## What a run sends -/

/-- `Update` is all that is called, whatever it is answered. -/
def Control.Sending (control : Control) : Event → Prop
  | .Update _ => True
  | .reply reply => control.Sends (.reply reply)
  | _ => False

/-- The bytes that the kernel accepts along a run. -/
def Control.accepted (control : Control) (events : List Event) : List UInt8 :=
  Endpoint.machine.watch (fun accepted control event => accepted ++ control.gives event) [] control
    events

/-- An `Update` and what answers it keep the queue accounted for. -/
theorem Endpoint.queue_step {units : List (List UInt8)} {accepted : List UInt8}
    {control next : Control} {event : Event} (armed : control.Armed)
    (queue : control.endpoint.Queue { queued := units, accepted })
    (allowed : control.Sending event) (stepped : machine.step control event = some next) :
    next.endpoint.Queue { queued := units, accepted := accepted ++ control.gives event } := by
  rcases step_cases stepped with ⟨endpoint, rfl, called⟩ |
    ⟨point, endpoint, reply, rfl, rfl, resumed⟩
  · cases event with
    | Update dt =>
        change next.endpoint.Queue { queued := units, accepted := accepted ++ [] }
        rw [List.append_nil]
        rcases Endpoint.call_Update called with rfl | ⟨rfl, -⟩
        · exact queue
        · exact queue
    | reply reply => cases called
    | _ => exact absurd allowed id
  · exact queue.resume armed allowed resumed

/-- **What a run sends** is accounted for by the queue that it started with. -/
theorem Control.accepted_queue {endpoint : Endpoint} {units : List (List UInt8)}
    {events : List Event} {final : Control}
    (queue : endpoint.Queue { queued := units, accepted := [] })
    (meets : Endpoint.machine.Meets Control.Sending (.idle endpoint) events)
    (reached : Endpoint.machine.run (.idle endpoint) events = some final) :
    final.endpoint.Queue
      { queued := units, accepted := (Control.idle endpoint).accepted events } :=
  (Machine.invariant (fun accepted control event => accepted ++ control.gives event)
    (fun accepted control =>
      control.Armed ∧ control.endpoint.Queue { queued := units, accepted })
    (fun _ _ _ _ allowed holds stepped =>
      ⟨holds.1.step stepped, Endpoint.queue_step holds.1 holds.2 allowed stepped⟩)
    [] meets reached ⟨trivial, queue⟩).2

instance (control : Control) : DecidablePred control.Sends
  | .reply (.send sizeSended) => inferInstanceAs (Decidable (sizeSended = -1 ∨ 0 ≤ sizeSended ∧
      ∀ message ∈ control.endpoint.manager.m_sendList.head?, sizeSended ≤ message.getSendCap))
  | .reply (.select _) | .reply (.recv _) | .reply .recvFailed => .isTrue trivial
  | .Connect _ _ _ | .ReConnect _ | .Close | .CloseConnection | .SendMsg _ | .InitEncrypt
  | .LoadMsg | .Update _ => .isTrue trivial

/-- A message in which a zero byte has been written. -/
def NetMessage.zeroDraft : NetMessage where
  address := 0
  m_size := -1
  m_headSize := 2
  m_bufStartPos := 0
  m_curPos := 7
  m_buffer := { address := 0, m_size := 512, m_buf := fun _ => 0 }

/-- The message as `endForWrite` leaves it. -/
def NetMessage.zeroByte : NetMessage :=
  match NetMessage.zeroDraft.endForWrite .fresh with
  | .ok (message, _) => message
  | .error _ => .zeroDraft

theorem NetMessage.zeroByte_ended : NetMessage.zeroByte.Ended := by
  have drafted : Drafted [0] zeroDraft := ⟨⟨by decide, by decide⟩, rfl, rfl, by decide⟩
  obtain ⟨after, done, -⟩ := drafted.endForWrite .fresh
  have same : zeroByte = after := by
    rw [zeroByte, done]
  exact ⟨zeroDraft, _, _, by decide, same ▸ done⟩

end EngSocket
