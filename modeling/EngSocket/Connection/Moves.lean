import EngSocket.Connection.Effects

/-!
# The moves of a manager

A manager that waits inside `Update` has a socket, and the message that a `Send`
or a `Recv` is about is there and incomplete (`EngSocket.Control.Armed.step`).
Every step is a sequence of elementary moves (`EngSocket.Control.moves`), each of
which touches at most one message, so that what all moves keep every step keeps
(`EngSocket.Endpoint.Moves.keep`).
-/

namespace EngSocket

open Foundation

/-- While a call of `Update` waits, what it is made on is there. -/
def Control.Armed : Control → Prop
  | .waiting point endpoint =>
      (∃ socket, endpoint.manager.m_pSocket = some socket) ∧
        match point with
        | .send => ∃ message rest,
            endpoint.manager.m_sendList = message :: rest ∧ message.isEnd = false
        | .recv => ∃ older message,
            endpoint.manager.m_recvList = older ++ [message] ∧ message.isEnd = false
        | _ => True
  | _ => True

namespace Endpoint

variable {endpoint : Endpoint}

/-- A step is a call on an idle manager or an answer to a waiting one. -/
theorem step_cases {control next : Control} {event : Event}
    (stepped : machine.step control event = some next) :
    (∃ endpoint, control = .idle endpoint ∧ endpoint.call event = some next) ∨
      ∃ point endpoint reply, control = .waiting point endpoint ∧ event = .reply reply ∧
        endpoint.resume point reply = some next := by
  cases control with
  | idle endpoint => exact Or.inl ⟨endpoint, rfl, stepped⟩
  | waiting point endpoint =>
      cases event with
      | reply reply => exact Or.inr ⟨point, endpoint, reply, rfl, rfl, stepped⟩
      | _ => cases stepped
  | aborted reason endpoint => cases stepped

/-- An answer is one of `select`, of `send`, of `recv` with bytes, or one of
`recv` that ends the connection. -/
theorem resume_cases {point : Point} {reply : Reply} {control : Control}
    (resumed : endpoint.resume point reply = some control) :
    (∃ answer, reply = .select answer ∧ endpoint.Continues control) ∨
      (∃ sizeSended, point = .send ∧ reply = .send sizeSended) ∨
        (∃ bytes, point = .recv ∧ reply = .recv bytes ∧ bytes ≠ []) ∨
          (point = .recv ∧ (reply = .recv [] ∨ reply = .recvFailed)) := by
  cases reply with
  | select answer => exact Or.inl ⟨answer, rfl, resume_select resumed⟩
  | send sizeSended =>
      cases point with
      | send => exact Or.inr (Or.inl ⟨sizeSended, rfl, rfl⟩)
      | _ => cases resumed
  | recv bytes =>
      cases point with
      | recv =>
          by_cases empty : bytes = []
          · subst empty
            exact Or.inr (Or.inr (Or.inr ⟨rfl, Or.inl rfl⟩))
          · exact Or.inr (Or.inr (Or.inl ⟨bytes, rfl, rfl, empty⟩))
      | _ => cases resumed
  | recvFailed =>
      cases point with
      | recv => exact Or.inr (Or.inr (Or.inr ⟨rfl, Or.inr rfl⟩))
      | _ => cases resumed

/-- An `Update` does nothing, or waits for the first `select` with a socket. -/
theorem Update_cases (dt : Int) (endpoint : Endpoint) :
    endpoint.Update dt = .idle endpoint ∨
      endpoint.Update dt = .waiting (.checkFirst dt) endpoint ∧
        ∃ socket, endpoint.manager.m_pSocket = some socket := by
  unfold Update
  cases present : endpoint.manager.m_pSocket with
  | none => exact Or.inl rfl
  | some socket =>
      simp only
      split
      · exact Or.inl rfl
      · exact Or.inr ⟨rfl, socket, rfl⟩

/-- `Update` on an idle manager returns at once or goes to its first `CheckState`. -/
theorem call_Update {dt : Int} {control : Control}
    (called : endpoint.call (.Update dt) = some control) :
    control = .idle endpoint ∨
      control = .waiting (.checkFirst dt) endpoint ∧
        ∃ socket, endpoint.manager.m_pSocket = some socket := by
  obtain rfl : endpoint.Update dt = control := Option.some.inj called
  exact endpoint.Update_cases dt

/-! ## Waiting calls -/

@[simp] theorem pickMessage_socket (endpoint : Endpoint) :
    endpoint.pickMessage.manager.m_pSocket = endpoint.manager.m_pSocket := by
  unfold pickMessage
  split
  · split <;> rfl
  · rfl

@[simp] theorem pickMessage_port (endpoint : Endpoint) :
    endpoint.pickMessage.manager.m_port = endpoint.manager.m_port := by
  unfold pickMessage
  split
  · split <;> rfl
  · rfl

/-- An empty list gets a message to receive. -/
theorem pickMessage_of_nil (none_ : endpoint.manager.m_recvList = []) :
    endpoint.pickMessage = endpoint.pushNewMessage := by
  simp only [pickMessage, none_, List.getLast?_nil]

/-- So does one whose last message is complete. -/
theorem pickMessage_of_ended {older : List NetMessage} {message : NetMessage}
    (back : endpoint.manager.m_recvList = older ++ [message]) (ended : message.isEnd = true) :
    endpoint.pickMessage = endpoint.pushNewMessage := by
  simp only [pickMessage, back, List.getLast?_concat, ended, ↓reduceIte]

/-- A last message that is not complete goes on. -/
theorem pickMessage_of_open {older : List NetMessage} {message : NetMessage}
    (back : endpoint.manager.m_recvList = older ++ [message]) (open_ : message.isEnd = false) :
    endpoint.pickMessage = endpoint := by
  simp only [pickMessage, back, List.getLast?_concat, open_, Bool.false_eq_true, ↓reduceIte]

/-- The message picked for a `Recv` is the last one and incomplete. -/
theorem pickMessage_back (endpoint : Endpoint) :
    ∃ older message, endpoint.pickMessage.manager.m_recvList = older ++ [message] ∧
      message.isEnd = false := by
  rcases List.eq_nil_or_concat' endpoint.manager.m_recvList with none_ | ⟨older, message, back⟩
  · rw [pickMessage_of_nil none_]
    exact ⟨_, _, rfl, rfl⟩
  · cases ended : message.isEnd with
    | false =>
        rw [pickMessage_of_open back ended]
        exact ⟨older, message, back, ended⟩
    | true =>
        rw [pickMessage_of_ended back ended]
        exact ⟨_, _, rfl, rfl⟩

/-- Where an `Update` waits there is a socket. -/
theorem Continues.armed {control : Control} (continues : endpoint.Continues control) :
    control.Armed := by
  cases continues with
  | returned same => trivial
  | crashed same => trivial
  | recv same socket present =>
      exact ⟨⟨socket, by rw [pickMessage_socket, present]⟩, pickMessage_back _⟩
  | send same socket present message rest front unsent =>
      exact ⟨⟨socket, present⟩, message, rest, front, unsent⟩
  | sent same socket present => exact ⟨⟨socket, present⟩, trivial⟩

theorem finished_armed (endpoint : Endpoint) (result : Except Abort Endpoint) :
    (endpoint.finished result).Armed := by
  cases result <;> trivial

/-- It is still there when the `Update` waits again. -/
theorem resume_armed {point : Point} {reply : Reply} {control : Control}
    (armed : (Control.waiting point endpoint).Armed)
    (resumed : endpoint.resume point reply = some control) : control.Armed := by
  obtain ⟨⟨socket, present⟩, about⟩ := armed
  rcases resume_cases resumed with ⟨answer, rfl, continues⟩ | ⟨sizeSended, rfl, rfl⟩ |
    ⟨bytes, rfl, rfl, nonempty⟩ | ⟨rfl, ends⟩
  · exact continues.armed
  · obtain ⟨message, rest, front, -⟩ := about
    rcases resume_send front resumed with ⟨-, rfl⟩ | ⟨-, ⟨-, rfl⟩ | ⟨unsent, rfl⟩⟩
    · trivial
    · exact ⟨⟨socket, present⟩, trivial⟩
    · exact ⟨⟨socket, present⟩, _, rest, rfl, unsent⟩
  · obtain ⟨older, message, back, -⟩ := about
    rcases resume_recv back nonempty resumed with ⟨reason, -, rfl⟩ |
      ⟨filled, -, ⟨reason, -, rfl⟩ | ⟨after, process, -, rfl⟩⟩
    · trivial
    · trivial
    · exact ⟨⟨socket, present⟩, trivial⟩
  · obtain ⟨older, message, back, -⟩ := about
    rw [resume_recv_closed back ends resumed]
    trivial

/-- An `Update` does not touch the port. -/
theorem resume_port {point : Point} {reply : Reply} {control : Control}
    (armed : (Control.waiting point endpoint).Armed)
    (resumed : endpoint.resume point reply = some control) :
    control.endpoint.manager.m_port = endpoint.manager.m_port := by
  obtain ⟨-, about⟩ := armed
  rcases resume_cases resumed with ⟨answer, rfl, continues⟩ | ⟨sizeSended, rfl, rfl⟩ |
    ⟨bytes, rfl, rfl, nonempty⟩ | ⟨rfl, ends⟩
  · cases continues with
    | returned same => exact same.port
    | crashed same => exact same.port
    | recv same => exact (pickMessage_port _).trans same.port
    | send same => exact same.port
    | sent same => exact same.port
  · obtain ⟨message, rest, front, -⟩ := about
    rcases resume_send front resumed with ⟨-, rfl⟩ | ⟨-, ⟨-, rfl⟩ | ⟨-, rfl⟩⟩
    · exact (OnError_same .SendZeroByte endpoint).port
    · rfl
    · rfl
  · obtain ⟨older, message, back, -⟩ := about
    rcases resume_recv back nonempty resumed with ⟨reason, -, rfl⟩ |
      ⟨filled, -, ⟨reason, -, rfl⟩ | ⟨after, process, -, rfl⟩⟩ <;> rfl
  · obtain ⟨older, message, back, -⟩ := about
    rw [resume_recv_closed back ends resumed]
    exact (OnError_same .RecvZeroByte endpoint).port

end Endpoint

/-- Every step keeps it so. -/
theorem Control.Armed.step {control next : Control} {event : Event} (armed : control.Armed)
    (stepped : Endpoint.machine.step control event = some next) : next.Armed := by
  rcases Endpoint.step_cases stepped with ⟨endpoint, rfl, called⟩ |
    ⟨point, endpoint, reply, rfl, rfl, resumed⟩
  · cases event with
    | Connect addr port dial =>
        cases called
        exact endpoint.finished_armed _
    | ReConnect dial =>
        cases called
        exact endpoint.finished_armed _
    | LoadMsg =>
        cases called
        exact endpoint.finished_armed _
    | Update dt =>
        rcases Endpoint.call_Update called with rfl | ⟨rfl, present⟩
        · trivial
        · exact ⟨present, trivial⟩
    | reply reply => cases called
    | _ =>
        cases called
        trivial
  · exact Endpoint.resume_armed armed resumed

namespace Endpoint

/-! ## Moves -/

/-- The endpoint once its oldest message received has been deleted. -/
def popReceived (message : NetMessage) (rest : List NetMessage) (endpoint : Endpoint) :
    Endpoint where
  process := message.delete endpoint.process
  manager := { endpoint.manager with m_recvList := rest }

/-- What can happen to the messages at an event, one message at a time. -/
inductive Move (event : Event) : Endpoint → Endpoint → Prop
  | same {before after : Endpoint} (same : before.SameMessages after) : Move event before after
  | address (before : Endpoint) (addr : ServerName) (port : Int) :
      Move event before (before.setAddress addr port)
  | deleteSent {before : Endpoint} {message : NetMessage} {rest : List NetMessage}
      (front : before.manager.m_sendList = message :: rest) :
      Move event before (before.popSent message rest)
  | deleteReceived {before : Endpoint} {message : NetMessage} {rest : List NetMessage}
      (front : before.manager.m_recvList = message :: rest) :
      Move event before (before.popReceived message rest)
  | push {before : Endpoint}
      (ended : ∀ message ∈ before.manager.m_recvList.getLast?, message.isEnd = true) :
      Move event before before.pushNewMessage
  | sent {before : Endpoint} {message : NetMessage} {rest : List NetMessage} (sizeSended : Int)
      (called : event = .reply (.send sizeSended)) (some_ : 0 ≤ sizeSended)
      (front : before.manager.m_sendList = message :: rest) :
      Move event before { before with
        manager := { before.manager with m_sendList := message.onSend sizeSended :: rest } }
  | received {before : Endpoint} {message filled after : NetMessage} {older : List NetMessage}
      {process : Process} (bytes : List UInt8) (called : event = .reply (.recv bytes))
      (nonempty : bytes ≠ []) (back : before.manager.m_recvList = older ++ [message])
      (incomplete : message.isEnd = false) (stored : message.storeAtCursor bytes = .ok filled)
      (received : filled.onReceive bytes.length before.process = .ok (after, process)) :
      Move event before
        { process, manager := { before.manager with m_recvList := older ++ [after] } }
  | load {before : Endpoint} {message : NetMessage} {rest : List NetMessage}
      (called : event = .LoadMsg) (front : before.manager.m_recvList = message :: rest) :
      Move event before (before.RemoveMsg message.address)
  | queue {before : Endpoint} (message : NetMessage) (called : event = .SendMsg message) :
      Move event before (before.SendMsg message)

/-- Moves one after the other. -/
abbrev Moves (event : Event) : Endpoint → Endpoint → Prop := Relation.ReflTransGen (Move event)

variable {endpoint : Endpoint} {event : Event}

theorem SameMessages.moves {after : Endpoint} (same : endpoint.SameMessages after) :
    endpoint.Moves event after := .single (.same same)

/-- The first loop of `ClearCached`. -/
theorem deleteAllSent_moves {messages : List NetMessage}
    (list : endpoint.manager.m_sendList = messages) :
    endpoint.Moves event
      { process := messages.foldl (fun process message => message.delete process) endpoint.process
        manager := { endpoint.manager with m_sendList := [] } } := by
  induction messages generalizing endpoint with
  | nil => exact SameMessages.moves ⟨list.symm, rfl, rfl, _, rfl⟩
  | cons message rest ih => exact .head (.deleteSent list) (@ih (endpoint.popSent message rest) rfl)

/-- The second loop of `ClearCached`. -/
theorem deleteAllReceived_moves {messages : List NetMessage}
    (list : endpoint.manager.m_recvList = messages) :
    endpoint.Moves event
      { process := messages.foldl (fun process message => message.delete process) endpoint.process
        manager := { endpoint.manager with m_recvList := [] } } := by
  induction messages generalizing endpoint with
  | nil => exact SameMessages.moves ⟨rfl, list.symm, rfl, _, rfl⟩
  | cons message rest ih =>
      exact .head (.deleteReceived list) (@ih (endpoint.popReceived message rest) rfl)

/-- `ClearCached` deletes the messages one by one. -/
theorem ClearCached_moves (endpoint : Endpoint) : endpoint.Moves event endpoint.ClearCached :=
  (deleteAllSent_moves rfl).trans (deleteAllReceived_moves rfl)

/-- So does `CloseConnection`. -/
theorem CloseConnection_moves (endpoint : Endpoint) :
    endpoint.Moves event endpoint.CloseConnection :=
  endpoint.Close_same.moves.trans endpoint.Close.ClearCached_moves

/-- Picking a message makes one at most. -/
theorem pickMessage_moves (endpoint : Endpoint) : endpoint.Moves event endpoint.pickMessage := by
  unfold pickMessage
  split
  · next message last =>
      split
      · next ended =>
          apply Relation.ReflTransGen.single
          apply Move.push
          intro other same
          cases last.symm.trans same
          exact ended
      · exact .refl
  · next none_ =>
      apply Relation.ReflTransGen.single
      apply Move.push
      intro other same
      cases none_.symm.trans same

theorem Continues.moves {control : Control} (continues : endpoint.Continues control) :
    endpoint.Moves event control.endpoint := by
  cases continues with
  | returned same => exact same.moves
  | crashed same => exact same.moves
  | recv same => exact same.moves.trans (pickMessage_moves _)
  | send same => exact same.moves
  | sent same socket present message rest front => exact same.moves.tail (.deleteSent front)

/-- **An answer** is a row of moves. -/
theorem resume_moves {point : Point} {reply : Reply} {control : Control}
    (armed : (Control.waiting point endpoint).Armed)
    (resumed : endpoint.resume point reply = some control) :
    endpoint.Moves (.reply reply) control.endpoint := by
  obtain ⟨-, about⟩ := armed
  rcases resume_cases resumed with ⟨answer, rfl, continues⟩ | ⟨sizeSended, rfl, rfl⟩ |
    ⟨bytes, rfl, rfl, nonempty⟩ | ⟨rfl, ends⟩
  · exact continues.moves
  · obtain ⟨message, rest, front, -⟩ := about
    rcases resume_send front resumed with ⟨-, rfl⟩ | ⟨some_, ⟨-, rfl⟩ | ⟨-, rfl⟩⟩
    · exact (OnError_same .SendZeroByte endpoint).moves
    · have advanced := Relation.ReflTransGen.single (Move.sent sizeSended rfl some_ front)
      exact advanced.tail (.deleteSent rfl)
    · exact .single (.sent sizeSended rfl some_ front)
  · obtain ⟨older, message, back, incomplete⟩ := about
    rcases resume_recv back nonempty resumed with ⟨reason, -, rfl⟩ |
      ⟨filled, stored, ⟨reason, -, rfl⟩ | ⟨after, process, received, rfl⟩⟩
    · exact .refl
    · exact .refl
    · exact .single (.received bytes rfl nonempty back incomplete stored received)
  · obtain ⟨older, message, back, -⟩ := about
    rw [resume_recv_closed back ends resumed]
    exact (OnError_same .RecvZeroByte endpoint).moves

/-- **A call** is a row of moves. -/
theorem call_moves {control : Control} (called : endpoint.call event = some control) :
    endpoint.Moves event control.endpoint := by
  cases event with
  | Connect addr port dial =>
      obtain ⟨result, after, -, rfl, effect⟩ := call_Connect called
      split at effect
      · exact (Relation.ReflTransGen.single (.address endpoint addr port)).trans effect.moves
      · exact (endpoint.CloseConnection_moves.tail (.address _ addr port)).trans effect.moves
  | ReConnect dial =>
      obtain ⟨after, -, rfl, effect⟩ := call_ReConnect called
      split at effect
      · rw [effect]
        exact .refl
      · exact endpoint.CloseConnection_moves.trans effect.moves
  | Close =>
      cases called
      exact endpoint.Close_same.moves
  | CloseConnection =>
      cases called
      exact endpoint.CloseConnection_moves
  | SendMsg message =>
      cases called
      exact .single (.queue message rfl)
  | InitEncrypt =>
      cases called
      apply SameMessages.moves
      exact ⟨List.map_id _, rfl, rfl, _, rfl⟩
  | LoadMsg =>
      rcases call_LoadMsg called with ⟨-, rfl⟩ | ⟨message, rest, front, rfl⟩
      · exact .refl
      · exact .single (.load rfl front)
  | Update dt =>
      rcases call_Update called with rfl | ⟨rfl, -⟩
      · exact .refl
      · exact .refl
  | reply reply => cases called

/-- Messages are only ever constructed. -/
theorem Move.nextMessage_le {before after : Endpoint} (move : Move event before after) :
    before.process.nextMessage ≤ after.process.nextMessage := by
  cases move with
  | same same =>
      obtain ⟨-, -, -, descriptors, process⟩ := same
      rw [process]
  | push =>
      have made := (Process.require_same 512 before.process).nextMessage
      exact made.symm.le.trans (Nat.le_succ _)
  | received bytes called nonempty back incomplete stored received =>
      obtain ⟨requests, rfl⟩ := (NetMessage.received_keeps stored received).requests
      exact le_rfl
  | _ => exact le_rfl

/-- What every move keeps, a sequence of them keeps. -/
theorem Moves.keep {property : Endpoint → Prop} {before after : Endpoint}
    (moves : before.Moves event after)
    (move : ∀ before after : Endpoint, Move event before after → property before → property after)
    (holds : property before) : property after := by
  induction moves with
  | refl => exact holds
  | tail _ last ih => exact move _ _ last ih

/-- No address is minted twice. -/
theorem Moves.nextMessage_le {before after : Endpoint} (moves : before.Moves event after) :
    before.process.nextMessage ≤ after.process.nextMessage := by
  induction moves with
  | refl => exact le_rfl
  | tail _ last ih => exact ih.trans last.nextMessage_le

/-! ## The messages received -/

/-- A call leaves `m_recvList` alone, empties it or takes its front out. -/
theorem call_recvList {control : Control}
    (called : endpoint.call event = some control) :
    ∀ message ∈ control.endpoint.manager.m_recvList, message ∈ endpoint.manager.m_recvList := by
  have cleared {after : Endpoint} (none_ : after.manager.m_recvList = []) :
      ∀ message ∈ after.manager.m_recvList, message ∈ endpoint.manager.m_recvList := by
    rw [none_]
    exact List.forall_mem_nil _
  have kept {after : Endpoint} (same : after.manager.m_recvList = endpoint.manager.m_recvList) :
      ∀ message ∈ after.manager.m_recvList, message ∈ endpoint.manager.m_recvList := by
    rw [same]
    exact fun _ member => member
  cases event with
  | Connect addr port dial =>
      obtain ⟨result, after, -, rfl, effect⟩ := call_Connect called
      split at effect
      · exact kept effect.recvList
      · exact cleared effect.recvList
  | ReConnect dial =>
      obtain ⟨after, -, rfl, effect⟩ := call_ReConnect called
      split at effect
      · rw [effect]
        exact fun _ member => member
      · exact cleared effect.recvList
  | Close =>
      cases called
      exact kept endpoint.Close_same.recvList
  | CloseConnection =>
      cases called
      exact List.forall_mem_nil _
  | SendMsg message =>
      cases called
      exact fun _ member => member
  | InitEncrypt =>
      cases called
      exact fun _ member => member
  | LoadMsg =>
      rcases call_LoadMsg called with ⟨-, rfl⟩ | ⟨message, rest, -, rfl⟩
      · exact fun _ member => member
      · exact fun _ member => List.mem_of_mem_eraseP member
  | Update dt =>
      rcases call_Update called with rfl | ⟨rfl, -⟩
      · exact fun _ member => member
      · exact fun _ member => member
  | reply reply => cases called

/-- What an answer makes of `m_recvList`. -/
inductive Fills (reply : Reply) (endpoint : Endpoint) : List NetMessage → Prop
  | same : Fills reply endpoint endpoint.manager.m_recvList
  | pushed {after : Endpoint} (same : endpoint.SameMessages after)
      (ended : ∀ message ∈ endpoint.manager.m_recvList.getLast?, message.isEnd = true) :
      Fills reply endpoint (endpoint.manager.m_recvList ++ [(NetMessage.new 512 after.process).1])
  | received {last filled after : NetMessage} {older : List NetMessage} {bytes : List UInt8}
      {process : Process} (called : reply = .recv bytes) (nonempty : bytes ≠ [])
      (back : endpoint.manager.m_recvList = older ++ [last]) (incomplete : last.isEnd = false)
      (stored : last.storeAtCursor bytes = .ok filled)
      (received : filled.onReceive bytes.length endpoint.process = .ok (after, process)) :
      Fills reply endpoint (older ++ [after])

theorem SameMessages.fills {reply : Reply} {after : Endpoint} (same : endpoint.SameMessages after) :
    endpoint.Fills reply after.manager.m_recvList := by
  rw [same.recvList]
  exact .same

theorem SameMessages.pickMessage_fills {reply : Reply} {after : Endpoint}
    (same : endpoint.SameMessages after) :
    endpoint.Fills reply after.pickMessage.manager.m_recvList := by
  rcases List.eq_nil_or_concat' after.manager.m_recvList with none_ | ⟨older, last, back⟩
  · rw [pickMessage_of_nil none_, pushNewMessage_recvList, same.recvList]
    refine .pushed same fun message member => ?_
    rw [← same.recvList, none_] at member
    cases member
  · cases ended : last.isEnd with
    | true =>
        rw [pickMessage_of_ended back ended, pushNewMessage_recvList, same.recvList]
        refine .pushed same fun message member => ?_
        rw [← same.recvList, back, List.getLast?_concat] at member
        cases member
        exact ended
    | false =>
        rw [pickMessage_of_open back ended]
        exact same.fills

/-- **The messages received** after an answer. -/
theorem resume_fills {point : Point} {reply : Reply} {control : Control}
    (armed : (Control.waiting point endpoint).Armed)
    (resumed : endpoint.resume point reply = some control) :
    endpoint.Fills reply control.endpoint.manager.m_recvList := by
  obtain ⟨-, about⟩ := armed
  rcases resume_cases resumed with ⟨answer, rfl, continues⟩ | ⟨sizeSended, rfl, rfl⟩ |
    ⟨bytes, rfl, rfl, nonempty⟩ | ⟨rfl, ends⟩
  · cases continues with
    | returned same => exact same.fills
    | crashed same => exact same.fills
    | recv same => exact same.pickMessage_fills
    | send same => exact same.fills
    | sent same => exact same.fills
  · obtain ⟨front, rest, list, -⟩ := about
    rcases resume_send list resumed with ⟨-, rfl⟩ | ⟨-, ⟨-, rfl⟩ | ⟨-, rfl⟩⟩
    · exact (OnError_same .SendZeroByte endpoint).fills
    · exact .same
    · exact .same
  · obtain ⟨older, last, back, incomplete⟩ := about
    rcases resume_recv back nonempty resumed with ⟨reason, -, rfl⟩ |
      ⟨filled, stored, ⟨reason, -, rfl⟩ | ⟨after, process, received, rfl⟩⟩
    · exact .same
    · exact .same
    · exact .received rfl nonempty back incomplete stored received
  · obtain ⟨older, last, back, -⟩ := about
    rw [resume_recv_closed back ends resumed]
    exact (OnError_same .RecvZeroByte endpoint).fills

end Endpoint

/-- **Every step is a sequence of moves.** -/
theorem Control.moves {control next : Control} {event : Event} (armed : control.Armed)
    (stepped : Endpoint.machine.step control event = some next) :
    control.endpoint.Moves event next.endpoint := by
  rcases Endpoint.step_cases stepped with ⟨endpoint, rfl, called⟩ |
    ⟨point, endpoint, reply, rfl, rfl, resumed⟩
  · exact Endpoint.call_moves called
  · exact Endpoint.resume_moves armed resumed

/-- A message in `m_recvList` after a step was there before, is new, or is what a `Recv`
has made of the last one. -/
theorem Control.recvList_step {control next : Control} {event : Event} (armed : control.Armed)
    (stepped : Endpoint.machine.step control event = some next) :
    ∀ message ∈ next.endpoint.manager.m_recvList,
      message ∈ control.endpoint.manager.m_recvList ∨
        (∃ after, control.endpoint.SameMessages after ∧
          message = (NetMessage.new 512 after.process).1) ∨
          ∃ last filled bytes process, event = .reply (.recv bytes) ∧ bytes ≠ [] ∧
            control.endpoint.manager.m_recvList.getLast? = some last ∧ last.isEnd = false ∧
              last.storeAtCursor bytes = .ok filled ∧
                filled.onReceive bytes.length control.endpoint.process =
                  .ok (message, process) := by
  intro message member
  rcases Endpoint.step_cases stepped with ⟨endpoint, rfl, called⟩ |
    ⟨point, endpoint, reply, rfl, rfl, resumed⟩
  · exact Or.inl (Endpoint.call_recvList called message member)
  · have fills := Endpoint.resume_fills armed resumed
    generalize next.endpoint.manager.m_recvList = list at member fills
    cases fills with
    | same => exact Or.inl member
    | pushed same ended =>
        rcases List.mem_append.mp member with old | new
        · exact Or.inl old
        · exact Or.inr (Or.inl ⟨_, same, List.mem_singleton.mp new⟩)
    | @received last filled after older bytes process called nonempty back incomplete stored
        received =>
        rcases List.mem_append.mp member with old | new
        · refine Or.inl ?_
          rw [Control.endpoint, back]
          exact List.mem_append_left _ old
        · have there : endpoint.manager.m_recvList.getLast? = some last := by
            rw [back, List.getLast?_concat]
          obtain rfl := List.mem_singleton.mp new
          exact Or.inr (Or.inr ⟨last, filled, bytes, process, congrArg Event.reply called,
            nonempty, there, incomplete, stored, received⟩)

end EngSocket
