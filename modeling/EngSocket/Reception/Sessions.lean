import EngSocket.Connection.Soundness

/-!
# Sessions

Each call of `Connect` or `ReConnect` begins a session. However the connection of
a session ends, in the middle of a header or of a body, what was read from it
stays apart from what is read later: no message is given bytes of two sessions,
each session starts with a new message, and `LoadMsg` hands out messages of the
current one only (`EngSocket.Control.sessions_apart`).
-/

namespace EngSocket

open Foundation

/-- The bytes that one `Recv` put into a message, given by its address. -/
structure Read where
  session : Nat
  message : Nat
  bytes : List UInt8

/-- What an observer notes: the number of the session, the first address that a
message constructed in it can have, and every `Recv` so far. -/
structure Sessions where
  session : Nat
  since : Nat
  reads : List Read

/-- The message that a `Recv` in progress fills, with the bytes it stores. -/
def Control.fills : Control → Event → List (NetMessage × List UInt8)
  | .waiting .recv endpoint, .reply (.recv bytes) =>
      match endpoint.manager.m_recvList.getLast? with
      | some message => if bytes = [] then [] else [(message, bytes)]
      | none => []
  | _, _ => []

namespace Sessions

/-- Nothing has happened. -/
def initial : Sessions := { session := 0, since := 0, reads := [] }

def note (record : Sessions) (control : Control) (event : Event) : Sessions :=
  if event.dials then
    { record with
      session := record.session + 1, since := control.endpoint.process.nextMessage }
  else
    { record with
      reads := record.reads ++ (control.fills event).map fun (message, bytes) =>
        { session := record.session, message := message.address, bytes } }

/-- What the messages in the queue and the ones seen before have to do with the
sessions. -/
structure Apart (record : Sessions) (endpoint : Endpoint) : Prop where
  since : record.since ≤ endpoint.process.nextMessage
  queued : ∀ message ∈ endpoint.manager.m_recvList,
    record.since ≤ message.address ∧ message.address < endpoint.process.nextMessage
  seen : ∀ read ∈ record.reads, read.message < endpoint.process.nextMessage
  current : ∀ read ∈ record.reads, record.since ≤ read.message → read.session = record.session
  isolated : ∀ first ∈ record.reads, ∀ second ∈ record.reads,
    first.message = second.message → first.session = second.session
  fresh : ∀ message ∈ endpoint.manager.m_recvList,
    (∀ read ∈ record.reads, read.message ≠ message.address) →
      message.m_size = -1 ∧ message.m_curPos = 0 ∧ message.m_headSize = 2

variable {record : Sessions} {endpoint : Endpoint} {event : Event}

/-- The messages stay, and as many as before were constructed. -/
theorem Apart.of_subset {after : Endpoint} (apart : record.Apart endpoint)
    (made : after.process.nextMessage = endpoint.process.nextMessage)
    (subset : ∀ message ∈ after.manager.m_recvList, message ∈ endpoint.manager.m_recvList) :
    record.Apart after where
  since := made ▸ apart.since
  queued := fun message member => made ▸ apart.queued message (subset message member)
  seen := fun read member => made ▸ apart.seen read member
  current := apart.current
  isolated := apart.isolated
  fresh := fun message member => apart.fresh message (subset message member)

/-- A message that is pushed gets an address which no other one has had. -/
theorem Apart.push (apart : record.Apart endpoint) : record.Apart endpoint.pushNewMessage := by
  have made : endpoint.pushNewMessage.process.nextMessage = endpoint.process.nextMessage + 1 :=
    congrArg (· + 1) ((Process.require_same 512 endpoint.process).nextMessage)
  have address : (NetMessage.new 512 endpoint.process).1.address = endpoint.process.nextMessage :=
    (Process.require_same 512 endpoint.process).nextMessage
  constructor
  · rw [made]
    exact apart.since.trans (Nat.le_succ _)
  · intro message member
    rw [made]
    rw [Endpoint.pushNewMessage_recvList] at member
    rcases List.mem_append.mp member with old | new
    · have bounds := apart.queued message old
      exact ⟨bounds.1, bounds.2.trans (Nat.lt_succ_self _)⟩
    · rw [List.mem_singleton.mp new, address]
      exact ⟨apart.since, Nat.lt_succ_self _⟩
  · intro read member
    rw [made]
    exact (apart.seen read member).trans (Nat.lt_succ_self _)
  · exact apart.current
  · exact apart.isolated
  · intro message member untouched
    rw [Endpoint.pushNewMessage_recvList] at member
    rcases List.mem_append.mp member with old | new
    · exact apart.fresh message old untouched
    · rw [List.mem_singleton.mp new]
      exact ⟨rfl, rfl, rfl⟩

/-- A move in which no bytes are read. -/
theorem Apart.move {before after : Endpoint} (apart : record.Apart before)
    (silent : ∀ bytes, event = .reply (.recv bytes) → bytes = [])
    (move : Endpoint.Move event before after) : record.Apart after := by
  cases move with
  | same same =>
      obtain ⟨-, recvList, -, descriptors, process⟩ := same
      apply apart.of_subset
      · rw [process]
      · rw [recvList]
        exact fun _ member => member
  | address addr port => exact apart.of_subset rfl fun _ member => member
  | deleteSent front => exact apart.of_subset rfl fun _ member => member
  | deleteReceived front =>
      refine apart.of_subset rfl ?_
      rw [front]
      exact fun _ member => List.mem_cons_of_mem _ member
  | push ended => exact apart.push
  | sent sizeSended called some_ front => exact apart.of_subset rfl fun _ member => member
  | received bytes called nonempty back incomplete stored received =>
      exact absurd (silent bytes called) nonempty
  | load called front => exact apart.of_subset rfl fun _ member => List.mem_of_mem_eraseP member
  | queue message called => exact apart.of_subset rfl fun _ member => member

/-- A dial that has emptied the queue begins a session. -/
theorem Apart.dial {before : Endpoint} (seen : record.Apart before) (apart : record.Apart endpoint)
    (later : before.process.nextMessage ≤ endpoint.process.nextMessage)
    (emptied : endpoint.manager.m_recvList = []) :
    Apart { record with session := record.session + 1, since := before.process.nextMessage }
      endpoint where
  since := later
  queued := by
    rw [emptied]
    exact fun _ member => absurd member List.not_mem_nil
  seen := apart.seen
  current := fun read member above => absurd above (not_le.mpr (seen.seen read member))
  isolated := apart.isolated
  fresh := by
    rw [emptied]
    exact fun _ member => absurd member List.not_mem_nil

/-- A `Recv` into the message at the back. -/
theorem Apart.received {bytes : List UInt8} {message after : NetMessage} {process : Process}
    {older : List NetMessage} (apart : record.Apart endpoint)
    (back : endpoint.manager.m_recvList = older ++ [message])
    (kept : message.Keeps endpoint.process after process) :
    Apart
      { record with
        reads := record.reads ++
          [{ session := record.session, message := message.address, bytes }] }
      { process, manager := { endpoint.manager with m_recvList := older ++ [after] } } := by
  obtain ⟨requests, rfl⟩ := kept.requests
  have here := apart.queued message
    (by rw [back]; exact List.mem_append_right _ (List.mem_singleton_self message))
  have older_ : ∀ other ∈ older, other ∈ endpoint.manager.m_recvList := by
    intro other member
    rw [back]
    exact List.mem_append_left _ member
  -- Whatever was read into this message before was read in this session.
  have same : ∀ read ∈ record.reads, read.message = message.address →
      read.session = record.session := by
    intro read member equal
    exact apart.current read member (equal ▸ here.1)
  constructor
  · exact apart.since
  · intro other member
    rcases List.mem_append.mp member with old | new
    · exact apart.queued other (older_ other old)
    · rw [List.mem_singleton.mp new, kept.address]
      exact here
  · intro read member
    rcases List.mem_append.mp member with old | new
    · exact apart.seen read old
    · rw [List.mem_singleton.mp new]
      exact here.2
  · intro read member above
    rcases List.mem_append.mp member with old | new
    · exact apart.current read old above
    · rw [List.mem_singleton.mp new]
  · intro first firstMember second secondMember equal
    rcases List.mem_append.mp firstMember with firstOld | firstNew
    · rcases List.mem_append.mp secondMember with secondOld | secondNew
      · exact apart.isolated first firstOld second secondOld equal
      · rw [List.mem_singleton.mp secondNew] at equal ⊢
        exact same first firstOld equal
    · rw [List.mem_singleton.mp firstNew] at equal ⊢
      rcases List.mem_append.mp secondMember with secondOld | secondNew
      · exact (same second secondOld equal.symm).symm
      · rw [List.mem_singleton.mp secondNew]
  · intro other member untouched
    rcases List.mem_append.mp member with old | new
    · apply apart.fresh other (older_ other old)
      exact fun read seen => untouched read (List.mem_append_left _ seen)
    · rw [List.mem_singleton.mp new] at untouched
      have touched := untouched _ (List.mem_append_right _ (List.mem_singleton_self _))
      exact absurd kept.address.symm touched

/-! ## Steps -/

/-- A manager follows its sessions. Before its first dial it has neither a socket
nor anything received. -/
structure Follows (record : Sessions) (control : Control) : Prop where
  armed : control.Armed
  undialled : control.endpoint.manager.m_port = -1 →
    control.endpoint.manager.m_pSocket = none ∧ control.endpoint.manager.m_recvList = []
  apart : record.Apart control.endpoint

end Sessions

/-- `Connect` is given a port other than `-1`. -/
def Event.NamesPort : Event → Prop
  | .Connect _ port _ => port ≠ -1
  | _ => True

namespace Sessions

variable {record : Sessions} {control next : Control} {event : Event} {endpoint : Endpoint}

/-- A step in which no bytes are read and which is no dial. -/
theorem note_of_silent (dials : event.dials = false) (silent : control.fills event = []) :
    record.note control event = record := by
  simp only [note, dials, silent, Bool.false_eq_true, ↓reduceIte, List.map_nil, List.append_nil]

theorem Follows.connect (follows : record.Follows (.idle endpoint)) {addr : ServerName} {port : Int}
    {dial : Dial} (named : port ≠ -1)
    (called : endpoint.call (.Connect addr port dial) = some next) :
    (record.note (.idle endpoint) (.Connect addr port dial)).Follows next := by
  have moves := Endpoint.call_moves called
  have apart := moves.keep (fun _ _ move kept => kept.move (by rintro _ ⟨⟩) move) follows.apart
  have later := moves.nextMessage_le
  obtain ⟨result, after, -, rfl, effect⟩ := Endpoint.call_Connect called
  have emptied : after.manager.m_recvList = [] ∧ after.manager.m_port = port := by
    split at effect
    · next undialled => exact ⟨effect.recvList.trans (follows.undialled undialled).2, effect.port⟩
    · exact ⟨effect.recvList, effect.port⟩
  exact ⟨trivial, fun unset => absurd (emptied.2.symm.trans unset) named,
    follows.apart.dial apart later emptied.1⟩

theorem Follows.reconnect (follows : record.Follows (.idle endpoint)) {dial : Dial}
    (called : endpoint.call (.ReConnect dial) = some next) :
    (record.note (.idle endpoint) (.ReConnect dial)).Follows next := by
  have moves := Endpoint.call_moves called
  have apart := moves.keep (fun _ _ move kept => kept.move (by rintro _ ⟨⟩) move) follows.apart
  have later := moves.nextMessage_le
  obtain ⟨after, -, rfl, effect⟩ := Endpoint.call_ReConnect called
  split at effect
  · next undialled =>
      subst effect
      exact ⟨trivial, follows.undialled, follows.apart.dial apart later
        (follows.undialled undialled).2⟩
  · next dialled =>
      have port : after.manager.m_port = endpoint.manager.m_port :=
        effect.port.trans endpoint.Close_same.port
      exact ⟨trivial, fun unset => absurd (port.symm.trans unset) dialled,
        follows.apart.dial apart later effect.recvList⟩

/-- **A call** that is no dial reads nothing. -/
theorem Follows.call (follows : record.Follows (.idle endpoint)) (dials : event.dials = false)
    (called : endpoint.call event = some next) :
    (record.note (.idle endpoint) event).Follows next := by
  have armed : next.Armed := follows.armed.step called
  have apart := (Endpoint.call_moves called).keep
    (fun _ _ move kept => kept.move (by rintro bytes rfl; cases called) move) follows.apart
  rw [note_of_silent dials rfl]
  refine ⟨armed, ?_, apart⟩
  have kept := follows.undialled
  cases event with
  | Connect addr port dial => cases dials
  | ReConnect dial => cases dials
  | Close =>
      cases called
      intro unset
      have same := endpoint.Close_same
      exact ⟨endpoint.Close_socket, same.recvList.trans (kept (same.port.symm.trans unset)).2⟩
  | CloseConnection =>
      cases called
      exact fun _ => ⟨endpoint.Close_socket, rfl⟩
  | LoadMsg =>
      rcases Endpoint.call_LoadMsg called with ⟨-, rfl⟩ | ⟨message, rest, front, rfl⟩
      · exact kept
      · intro unset
        cases front.symm.trans (kept unset).2
  | Update dt =>
      rcases Endpoint.call_Update called with rfl | ⟨rfl, -⟩
      · exact kept
      · exact kept
  | reply reply => cases called
  | _ =>
      cases called
      exact kept

/-- **One step.** -/
theorem Follows.step (follows : record.Follows control) (named : event.NamesPort)
    (stepped : Endpoint.machine.step control event = some next) :
    (record.note control event).Follows next := by
  have armed := follows.armed.step stepped
  rcases Endpoint.step_cases stepped with ⟨endpoint, rfl, called⟩ |
    ⟨point, endpoint, reply, rfl, rfl, resumed⟩
  · cases event with
    | Connect addr port dial => exact follows.connect named called
    | ReConnect dial => exact follows.reconnect called
    | _ => exact follows.call rfl called
  · have undialled : next.endpoint.manager.m_port = -1 →
        next.endpoint.manager.m_pSocket = none ∧ next.endpoint.manager.m_recvList = [] := by
      rw [Endpoint.resume_port follows.armed resumed]
      intro unset
      obtain ⟨⟨socket, present⟩, -⟩ := follows.armed
      exact absurd (present.symm.trans (follows.undialled unset).1) (Option.some_ne_none socket)
    by_cases reads : ∃ bytes, reply = .recv bytes ∧ bytes ≠ []
    · obtain ⟨bytes, rfl, nonempty⟩ := reads
      cases point with
      | recv =>
          obtain ⟨-, older, message, back, -⟩ := follows.armed
          have fills : (Control.waiting .recv endpoint).fills (.reply (.recv bytes)) =
              [(message, bytes)] := by
            simp only [Control.fills, back, List.getLast?_concat, nonempty, ↓reduceIte]
          have noted : record.note (.waiting .recv endpoint) (.reply (.recv bytes)) =
              { record with
                reads := record.reads ++
                  [{ session := record.session, message := message.address, bytes }] } := by
            simp only [note, Event.dials, fills, Bool.false_eq_true, ↓reduceIte, List.map_cons,
              List.map_nil]
          rw [noted]
          refine ⟨armed, undialled, ?_⟩
          have unmoved := @Apart.received record endpoint bytes message _ _ older follows.apart back
            (.refl message _)
          have endpoint_eq : { endpoint with
              manager := { endpoint.manager with m_recvList := older ++ [message] } } = endpoint := by
            rw [← back]
          change Apart _ { endpoint with
            manager := { endpoint.manager with m_recvList := older ++ [message] } } at unmoved
          rw [endpoint_eq] at unmoved
          rcases Endpoint.resume_recv back nonempty resumed with ⟨reason, -, rfl⟩ |
            ⟨filled, stored, ⟨reason, -, rfl⟩ | ⟨after, process, received, rfl⟩⟩
          · exact unmoved
          · exact unmoved
          · exact follows.apart.received back (NetMessage.received_keeps stored received)
      | _ => cases resumed
    · have silent : (Control.waiting point endpoint).fills (.reply reply) = [] := by
        cases reply with
        | recv bytes =>
            have empty : bytes = [] := by
              by_contra nonempty
              exact reads ⟨bytes, rfl, nonempty⟩
            cases point with
            | recv =>
                simp only [Control.fills, empty, ↓reduceIte]
                split <;> rfl
            | _ => rfl
        | _ => cases point <;> rfl
      rw [note_of_silent rfl silent]
      refine ⟨armed, undialled, (Endpoint.resume_moves follows.armed resumed).keep ?_ follows.apart⟩
      intro before after move kept
      apply kept.move ?_ move
      rintro bytes ⟨⟩
      by_contra nonempty
      exact reads ⟨bytes, rfl, nonempty⟩

end Sessions

/-- **Sessions stay apart.** No message is given bytes of two sessions; the first
`Recv` of a session goes into a new message; and `LoadMsg` hands out messages
that were constructed after the last dial, with bytes of this session only. -/
theorem Control.sessions_apart (process : Process) {events : List Event} {final : Control}
    (meets : Endpoint.machine.Meets (fun _ event => event.NamesPort) (.idle (.new process)) events)
    (reached : Endpoint.machine.run (.idle (.new process)) events = some final) :
    let record := Endpoint.machine.watch Sessions.note .initial (.idle (.new process)) events
    (∀ first ∈ record.reads, ∀ second ∈ record.reads,
        first.message = second.message → first.session = second.session) ∧
      (∀ endpoint, final = .waiting .recv endpoint →
        (∀ read ∈ record.reads, read.session ≠ record.session) →
          ∃ message, endpoint.manager.m_recvList.getLast? = some message ∧
            message.m_size = -1 ∧ message.m_curPos = 0 ∧ message.m_headSize = 2 ∧
              ∀ read ∈ record.reads, read.message ≠ message.address) ∧
      ∀ endpoint loaded after, final = .idle endpoint → endpoint.LoadMsg = .ok (loaded, after) →
        record.since ≤ loaded.address ∧
          ∀ read ∈ record.reads, read.message = loaded.address → read.session = record.session := by
  intro record
  have started : Sessions.initial.Follows (.idle (.new process)) :=
    ⟨trivial, fun _ => ⟨rfl, rfl⟩, Nat.zero_le _, List.forall_mem_nil _, List.forall_mem_nil _,
      List.forall_mem_nil _, List.forall_mem_nil _, List.forall_mem_nil _⟩
  have follows : record.Follows final := Machine.invariant Sessions.note Sessions.Follows
    (fun _ _ _ _ named follows stepped => follows.step named stepped) .initial meets reached started
  obtain ⟨armed, -, apart⟩ := follows
  refine ⟨apart.isolated, ?_, ?_⟩
  · rintro endpoint rfl first
    obtain ⟨-, older, message, back, -⟩ := armed
    have queued : message ∈ endpoint.manager.m_recvList := by
      rw [back]
      exact List.mem_append_right _ (List.mem_singleton_self message)
    have untouched : ∀ read ∈ record.reads, read.message ≠ message.address := by
      intro read member same
      apply first read member
      exact apart.current read member (same ▸ (apart.queued message queued).1)
    obtain ⟨size, cursor, headSize⟩ := apart.fresh message queued untouched
    exact ⟨message, by rw [back, List.getLast?_concat], size, cursor, headSize, untouched⟩
  · rintro endpoint loaded after rfl done
    obtain ⟨message, rest, front, rfl, -⟩ := Endpoint.LoadMsg_ok done
    have queued : message ∈ endpoint.manager.m_recvList := by
      rw [front]
      exact List.mem_cons_self
    have bounds := apart.queued message queued
    refine ⟨bounds.1, fun read member same => apart.current read member ?_⟩
    exact (show read.message = message.address from same) ▸ bounds.1

instance : DecidablePred Event.NamesPort
  | .Connect _ port _ => inferInstanceAs (Decidable (port ≠ -1))
  | .ReConnect _ | .Close | .CloseConnection | .SendMsg _ | .InitEncrypt | .LoadMsg
  | .Update _ | .reply _ => .isTrue trivial

/-- The peer closes in the middle of a body; the next connection brings a whole frame. -/
def cutOff : List Event :=
  establishing ++ [.Update 1, .reply (.select .readable), .reply (.recv [0, 2]),
    .reply (.select .readable), .reply (.recv [65]), .reply (.select .readable), .reply (.recv []),
    .ReConnect
      { addresses := some [{ createSocket := 4, connectTo := 0, errno := 0 }], select := .quiet },
    .Update 1, .reply (.select .quiet), .Update 1, .reply (.select .writable), .Update 1,
    .reply (.select .readable), .reply (.recv [0, 1]), .reply (.select .readable),
    .reply (.recv [66]), .reply (.select .quiet)]

/-- Two of the reads belong to each session; `LoadMsg` hands out what the second one brought. -/
theorem Control.sessions_apart_of_cutOff :
    ∃ endpoint, Endpoint.machine.run (.idle (.new .fresh)) cutOff = some (.idle endpoint) ∧
      ∃ loaded after, endpoint.LoadMsg = .ok (loaded, after) ∧
        let record := Endpoint.machine.watch Sessions.note .initial (.idle (.new .fresh)) cutOff
        record.reads.map (fun read => (read.session, read.message)) =
            [(1, 0), (1, 0), (2, 1), (2, 1)] ∧
          ∀ read ∈ record.reads, read.message = loaded.address → read.session = record.session := by
  have ran : (Endpoint.machine.run (.idle (.new .fresh)) cutOff).bind (fun control =>
      control.returned.bind fun endpoint => endpoint.LoadMsg.toOption.map fun loaded =>
        loaded.1.address) = some 1 := by decide
  obtain ⟨final, reached, loads⟩ := Option.bind_eq_some_iff.mp ran
  obtain ⟨endpoint, returned, message⟩ := Option.bind_eq_some_iff.mp loads
  obtain rfl := Control.eq_idle_of_returned returned
  cases loaded : endpoint.LoadMsg with
  | ok result =>
      obtain ⟨-, -, current⟩ := Control.sessions_apart .fresh (by decide) reached
      exact ⟨endpoint, reached, result.1, result.2, loaded, by decide,
        (current endpoint result.1 result.2 rfl loaded).2⟩
  | error reason =>
      rw [loaded] at message
      cases message

end EngSocket
