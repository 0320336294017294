import EngSocket.Connection.Safety
import EngSocket.Foundation.Mailbox
import EngSocket.Message.Typed
import EngSocket.Reception.Delivery
import EngSocket.Reception.Window
import EngSocket.Transmission.Integrity

/-!
# Two managers at the ends of a connection

`Session.machine` runs two managers, each with the bytes on their way to it: what
the kernel of one accepts is added to what the other has not received. Their
steps interleave in any way.

What a script sees of a session is that it posts payloads with `SendMsg` and
fetches payloads with `LoadMsg` (`EngSocket.Session.visible`). Under the conditions
of `EngSocket.Session.Healthy` a receiver stays with the frame reader until its
connection ends (`EngSocket.Control.Stands.step`), and keeps what it has then.
-/

namespace EngSocket

open Foundation

inductive Side
  | near
  | far
  deriving DecidableEq, Repr

def Side.other : Side → Side
  | .near => .far
  | .far => .near

@[simp] theorem Side.other_other (side : Side) : side.other.other = side := by
  cases side <;> rfl

theorem Side.other_ne (side : Side) : side.other ≠ side := by
  cases side <;> exact Side.noConfusion

theorem Side.eq_or_eq_other (which side : Side) : which = side ∨ which = side.other := by
  cases which <;> cases side <;> decide

/-- What a script reads of a message from its beginning to its end. -/
def NetMessage.contents (message : NetMessage) : List UInt8 :=
  (message.ResetForRead.rRaw message.getSize).1

namespace Session

/-- More bytes on their way to a manager. -/
def deliver (bytes : List UInt8) (link : Link) : Link :=
  { link with unread := link.unread ++ bytes }

/-- A step of one side. The bytes that its kernel takes are on their way to the other. -/
def machine : Machine (Side → Link) (Side × Event) where
  step links event :=
    (Link.machine.step (links event.1) event.2).map fun link =>
      Function.update (Function.update links event.1 link) event.1.other
        (deliver ((links event.1).control.gives event.2) (links event.1.other))

/-- What a script posts to the other side. -/
def posts : Event → List (List UInt8)
  | .SendMsg message => [message.contents]
  | _ => []

/-- What a script fetches. -/
def fetches (control : Control) (event : Event) : List (List UInt8) :=
  (control.loads event).map NetMessage.contents

/-- What is visible of a step: letters posted to the other side and fetched on this one. -/
def visible (links : Side → Link) (event : Side × Event) :
    List (Side × Mailbox.Action (List UInt8)) :=
  (posts event.2).map (fun letter => (event.1.other, .post letter)) ++
    (fetches (links event.1).control event.2).map fun letter => (event.1, .fetch letter)

end Session

/-- A piece does not go on beyond the header which the message is in. -/
def NetMessage.StaysInHeader (piece : List UInt8) (message : NetMessage) : Prop :=
  message.m_size < 0 → message.m_curPos + piece.length ≤ message.m_headSize

/-- What may happen to one side. A script sends messages that it has written, and
loads those that are pending; `select` fails at the head of an `Update` only, and
`recv` stores no more than it was asked for and not beyond a header. Any `send` or
`recv` may fail, the peer may close, and so may the script. -/
def Control.Healthy (control : Control) : Event → Prop
  | .SendMsg message => ∃ payload, payload.length ≤ 1073741824 - 6 ∧ message.WrittenAs payload
  | .LoadMsg => control.endpoint.HasPendingMsg = true
  | .Update _ | .InitEncrypt | .Close | .reply .recvFailed => True
  | .reply (.select reply) =>
      reply.failed = false ∨ ∃ dt endpoint, control = .waiting (.checkFirst dt) endpoint
  | .reply (.send sizeSended) => control.Sends (.reply (.send sizeSended))
  | .reply (.recv bytes) => ∀ message ∈ control.endpoint.manager.m_recvList.getLast?,
      bytes.length ≤ message.getReadCap ∧ message.StaysInHeader bytes
  | .Connect _ _ _ | .ReConnect _ | .CloseConnection => False

/-- What may happen to a session. -/
def Session.Healthy (links : Side → Link) (event : Side × Event) : Prop :=
  (links event.1).control.Healthy event.2

/-! ## Messages -/

namespace NetMessage

variable {message : NetMessage} {payload : List UInt8}

/-- What a received message carries is its contents. -/
theorem Carries.contents_eq (carries : message.Carries payload) : message.contents = payload :=
  carries.2.2

/-- What was written to a message is its contents. -/
theorem Finished.contents_eq (finished : Finished payload message) :
    message.contents = payload := by
  obtain ⟨-, held⟩ := finished.holds
  rw [contents, getSize, finished.size, rRaw_eq held.low held.bounded]
  exact held.read

/-- Writing in pieces keeps the message and its buffer. -/
theorem wRawAll_keeps {parts : List (List UInt8)} {before : NetMessage} {process left : Process}
    (done : wRawAll parts before process = .ok (message, left)) :
    before.Keeps process message left := by
  induction parts generalizing before process with
  | nil =>
      cases done
      exact .refl _ _
  | cons part parts ih =>
      obtain ⟨⟨next, middle⟩, written, rest⟩ := bind_eq_ok done
      exact (wRaw_writes written).toKeeps.trans (ih rest)

/-- A message that was written holds its payload, in a sound buffer. -/
theorem WrittenAs.finished (bounded : payload.length ≤ 1073741824 - 6)
    (written : message.WrittenAs payload) :
    Finished payload message ∧ message.m_buffer.Sound ∧ message.Ended := by
  obtain ⟨before, process, left, parts, sound, generous, rfl, written⟩ := written
  obtain ⟨⟨drafted, middle⟩, parted, ended⟩ := bind_eq_ok written
  have keeps := (beginForWrite_keeps before process).trans (wRawAll_keeps parted)
  obtain ⟨after, requests, parted', draft⟩ :=
    (Drafted.beginForWrite sound.roomy).writeAll wRaw_appends parts
      (by rw [List.nil_append, List.flatMap_id']; omega) generous
  rw [← wRawAll_eq] at parted'
  cases parted'.symm.trans parted
  obtain ⟨result, ended', finished⟩ := draft.endForWrite { process with requests }
  cases ended'.symm.trans ended
  rw [List.nil_append, List.flatMap_id'] at finished draft
  have cursor := draft.cursor
  exact ⟨finished, (endForWrite_keeps ended).1.sound (keeps.sound sound), drafted, _, _,
    ⟨by omega, by omega⟩, ended⟩

end NetMessage

/-! ## Places of the receiver -/

/-- Complete messages, and behind them at most one that is not. -/
def Held (items : List Item) (list : List NetMessage) : Prop :=
  ∃ done rest, list = done ++ rest ∧ rest.length ≤ 1 ∧ (∀ message ∈ rest, message.isEnd = false) ∧
    List.Forall₂ Complete items done

/-- The receiver is where the reader is, or its connection has ended. -/
def Control.Stands (read : Phase × List Item) (control : Control) : Prop :=
  control.Tracks read ∨
    ∃ endpoint, control = .idle endpoint ∧ endpoint.manager.m_pSocket = none ∧
      Held read.2 endpoint.manager.m_recvList

variable {read : Phase × List Item} {items : List Item} {control next : Control} {event : Event}
  {endpoint : Endpoint}

/-- Complete messages hold the payloads of their items. -/
theorem map_contents {done : List NetMessage} (complete : List.Forall₂ Complete items done) :
    done.map NetMessage.contents = items.map Item.payload := by
  induction complete with
  | nil => rfl
  | cons first _ ih => rw [List.map_cons, List.map_cons, ih, first.carries.contents_eq]

/-- The oldest message that is complete is the oldest letter. -/
theorem Held.front {message : NetMessage} {rest : List NetMessage}
    (held : Held items (message :: rest)) (ended : message.isEnd = true) :
    ∃ item others, items = item :: others ∧ Complete item message ∧ Held others rest := by
  obtain ⟨done, tail, list, few, open_, complete⟩ := held
  cases complete with
  | nil =>
      have unfinished := open_ message (by rw [← List.nil_append tail, ← list]; exact .head _)
      exact absurd (ended.symm.trans unfinished) Bool.noConfusion
  | cons first others =>
      cases list
      exact ⟨_, _, rfl, first, _, tail, rfl, few, open_, others⟩

/-- A receiver in its place has not crashed. -/
theorem Control.Stands.running (stands : control.Stands read) (reason : Abort) (after : Endpoint) :
    control ≠ .aborted reason after := by
  rcases stands with tracks | ⟨endpoint, rfl, -⟩
  · exact tracks.split.1 reason after
  · exact Control.noConfusion

theorem Control.Stands.held (stands : control.Stands read) :
    Held read.2 control.endpoint.manager.m_recvList := by
  rcases stands with tracks | ⟨endpoint, rfl, -, held⟩
  · exact tracks.split.2
  · exact held

/-- Of a healthy call only `LoadMsg` touches `m_recvList`, and none connects. -/
theorem Endpoint.call_healthy (healthy : (Control.idle endpoint).Healthy event)
    (loads : event ≠ .LoadMsg) (called : endpoint.call event = some next) :
    (∃ after : Endpoint, next = .idle after ∧
      after.manager.m_recvList = endpoint.manager.m_recvList ∧
        (endpoint.manager.m_pSocket = none → after.manager.m_pSocket = none)) ∨
      ∃ dt socket, next = .waiting (.checkFirst dt) endpoint ∧
        endpoint.manager.m_pSocket = some socket := by
  cases event with
  | Close =>
      cases called
      exact Or.inl ⟨_, rfl, endpoint.Close_same.recvList, fun _ => endpoint.Close_socket⟩
  | SendMsg message =>
      cases called
      exact Or.inl ⟨_, rfl, rfl, id⟩
  | InitEncrypt =>
      cases called
      exact Or.inl ⟨_, rfl, rfl, id⟩
  | Update dt =>
      rcases Endpoint.call_Update called with rfl | ⟨rfl, socket, present⟩
      · exact Or.inl ⟨endpoint, rfl, rfl, id⟩
      · exact Or.inr ⟨dt, socket, rfl, present⟩
  | LoadMsg => exact absurd rfl loads
  | reply reply => cases called
  | _ => exact absurd healthy id

/-- A healthy answer of `select` crashes nothing. -/
theorem Endpoint.resume_select_healthy {point : Point} {answer : SelectReply}
    (armed : (Control.waiting point endpoint).Armed)
    (healthy : (Control.waiting point endpoint).Healthy (.reply (.select answer)))
    (resumed : endpoint.resume point (.select answer) = some next) (reason : Abort)
    (after : Endpoint) : next ≠ .aborted reason after := by
  obtain ⟨⟨socket, present⟩, -⟩ := armed
  cases outcome : answer.failed with
  | false => exact Endpoint.resume_select_ne_aborted outcome present resumed reason after
  | true =>
      obtain ⟨left, -, -, ⟨dt, -, rfl⟩ | ⟨later, -⟩⟩ :=
        Endpoint.resume_select_failed outcome present resumed
      · exact Control.noConfusion
      · rcases healthy with succeeded | ⟨dt, other, same⟩
        · exact absurd (outcome.symm.trans succeeded) Bool.noConfusion
        · cases same
          exact absurd rfl (later dt)

/-- A `Recv` that stays in its header stays in it for the decoder. -/
theorem Reading.covers_of_staysInHeader {phase : Phase} {message : NetMessage}
    (reading : Reading phase message) {piece : List UInt8} (stays : message.StaysInHeader piece) :
    phase.Covers piece := by
  have cursor := reading.cursor
  have size := reading.size
  have headSize := reading.headSize
  obtain ⟨stage, got⟩ := phase
  cases stage with
  | body head => trivial
  | _ =>
      simp only [Stage.head, Stage.sizeField, Stage.headSize, List.length_nil] at *
      have within := stays (by omega)
      simp only [Phase.Covers, Stage.width]
      omega

/-- **A healthy step keeps the place.** -/
theorem Control.Stands.step (stands : control.Stands read) (sound : control.Sound)
    (armed : control.Armed) (healthy : control.Healthy event) (loads : event ≠ .LoadMsg)
    (bounded : (frameDecoder.feed read.1 event.piece).1.Bounded)
    (stepped : Endpoint.machine.step control event = some next) :
    next.Stands ((frameDecoder.feed read.1 event.piece).1,
      read.2 ++ (frameDecoder.feed read.1 event.piece).2) := by
  rcases Endpoint.step_cases stepped with ⟨endpoint, rfl, called⟩ |
    ⟨point, endpoint, reply, rfl, rfl, resumed⟩
  · have silent : event.piece = [] := by
      cases event with
      | reply reply => cases called
      | _ => rfl
    rw [silent, Decoder.feed_nil, List.append_nil]
    rcases Endpoint.call_healthy healthy loads called with ⟨after, rfl, same, null⟩ |
      ⟨dt, socket, rfl, present⟩
    · rcases stands with tracks | ⟨other, idle, absent, held⟩
      · have settled : Settled read endpoint.manager.m_recvList := tracks
        exact Or.inl (same ▸ settled : Settled read after.manager.m_recvList)
      · cases idle
        exact Or.inr ⟨after, rfl, null absent, same ▸ held⟩
    · rcases stands with tracks | ⟨other, idle, absent, -⟩
      · exact Or.inl tracks
      · cases idle
        cases absent.symm.trans present
  · have tracks : (Control.waiting point endpoint).Tracks read := by
      rcases stands with tracks | ⟨other, idle, -⟩
      · exact tracks
      · cases idle
    rcases Endpoint.resume_cases resumed with ⟨answer, rfl, continues⟩ | ⟨sizeSended, rfl, rfl⟩ |
      ⟨bytes, rfl, rfl, nonempty⟩ | ⟨rfl, ends⟩
    · have running := Endpoint.resume_select_healthy armed healthy resumed
      have settled : Settled read endpoint.manager.m_recvList := by
        cases point with
        | recv => cases resumed
        | _ => exact tracks
      simp only [Event.piece, Decoder.feed_nil, List.append_nil]
      exact Or.inl (settled.continues sound continues running)
    · exact Or.inl (tracks.step sound armed trivial (List.forall_mem_nil _) bounded stepped)
    · have expecting : Expecting read endpoint.manager.m_recvList := tracks
      obtain ⟨done, message, -, reading, back⟩ := expecting
      have last : endpoint.manager.m_recvList.getLast? = some message := by
        rw [back, List.getLast?_concat]
      refine Or.inl (tracks.step sound armed ⟨nonempty, fun other member => (healthy other member).1⟩
        (fun piece member => ?_) bounded stepped)
      rw [List.mem_singleton.mp member]
      exact reading.covers_of_staysInHeader (healthy message last).2
    · -- The message being received stays behind, incomplete.
      have silent : (Event.reply reply).piece = [] := by rcases ends with rfl | rfl <;> rfl
      have expecting : Expecting read endpoint.manager.m_recvList := tracks
      obtain ⟨done, message, complete, reading, back⟩ := expecting
      rw [silent, Decoder.feed_nil, List.append_nil]
      refine Or.inr ⟨_, Endpoint.resume_recv_closed back ends resumed, endpoint.OnError_socket _,
        done, [message], ?_, le_rfl, ?_, complete⟩
      · exact (Endpoint.OnError_same .RecvZeroByte endpoint).recvList.trans back
      · rw [List.forall_mem_singleton]
        exact reading.isEnd_eq

/-- **A message that is pending** is the first item that waits. -/
theorem Control.Stands.load (stands : control.Stands read)
    (pending : control.endpoint.HasPendingMsg = true)
    (stepped : Endpoint.machine.step control .LoadMsg = some next) :
    ∃ item others message, read.2 = item :: others ∧ control.loads .LoadMsg = [message] ∧
      Complete item message ∧ next.Stands (read.1, others) := by
  obtain ⟨endpoint, rfl, called⟩ := Endpoint.step_LoadMsg stepped
  rcases Endpoint.call_LoadMsg called with ⟨none_, -⟩ | ⟨message, rest, front, rfl⟩
  · simp only [Control.endpoint, Endpoint.HasPendingMsg, Endpoint.getMsg, none_, List.head?_nil,
      Bool.false_eq_true] at pending
  · simp only [Control.endpoint, Endpoint.HasPendingMsg, Endpoint.getMsg, front,
      List.head?_cons] at pending
    have given : (Control.idle endpoint).loads .LoadMsg = [message] := by
      simp only [Control.loads, Endpoint.getMsg, front, List.head?_cons, Option.toList_some]
    have left := Endpoint.RemoveMsg_front front
    rcases stands with tracks | ⟨other, idle, absent, held⟩
    · have settled : Settled read endpoint.manager.m_recvList := tracks
      rw [front] at settled
      obtain ⟨item, others, same, complete, settled⟩ := settled.front pending
      refine ⟨item, others, message, same, given, complete, Or.inl ?_⟩
      rw [← left] at settled
      exact settled
    · cases idle
      rw [front] at held
      obtain ⟨item, others, same, complete, held⟩ := held.front pending
      rw [← left] at held
      exact ⟨item, others, message, same, given, complete, Or.inr ⟨_, rfl, absent, held⟩⟩

end EngSocket
