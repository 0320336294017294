import EngSocket.Connection.Lifecycle
import EngSocket.Foundation.Progress
import EngSocket.Network.Mailboxes

/-!
# Sessions that can go on

As long as both connections stand and no `Recv` waits for bytes that were never
sent, a session can be completed: some answers of the operating system and calls of
the scripts empty both lists and both streams and hand out every letter
(`EngSocket.Session.can_complete`). The measure of what is left to do counts a byte
that is to be sent twice, as it has to be received then.
-/

namespace EngSocket

open Foundation

namespace Endpoint

/-- How many bytes are left to send. -/
def unsent (endpoint : Endpoint) : Nat :=
  (endpoint.manager.m_sendList.map fun message => message.getSendCap.toNat).sum

/-- How many messages wait to be loaded. -/
def completed (endpoint : Endpoint) : Nat :=
  endpoint.manager.m_recvList.countP NetMessage.isEnd

variable {endpoint : Endpoint}

theorem SameMessages.unsent {after : Endpoint} (same : endpoint.SameMessages after) :
    after.unsent = endpoint.unsent := by
  rw [Endpoint.unsent, same.sendList]
  rfl

theorem SameMessages.completed {after : Endpoint} (same : endpoint.SameMessages after) :
    after.completed = endpoint.completed := by
  rw [Endpoint.completed, same.recvList]
  rfl

theorem pickMessage_completed (endpoint : Endpoint) :
    endpoint.pickMessage.completed = endpoint.completed := by
  have pushed : endpoint.pushNewMessage.completed = endpoint.completed := by
    rw [completed, pushNewMessage_recvList, List.countP_append]
    rfl
  unfold pickMessage
  split
  · split
    · exact pushed
    · rfl
  · exact pushed

/-- If the descriptor can be written, `Update` returns only once everything is sent. -/
theorem resume_select_writable {point : Point} {answer : SelectReply} {after : Endpoint}
    {socket : CSocketCommon} (succeeded : answer.failed = false)
    (present : endpoint.manager.m_pSocket = some socket) (connected : endpoint.GetState = .Connected)
    (write : answer.write = true) (sends : point ≠ .checkRecv)
    (resumed : endpoint.resume point (.select answer) = some (.idle after)) :
    after.manager.m_sendList = [] := by
  let flagged : Endpoint := endpoint.modify fun manager =>
    { manager with
      m_pSocket := some { socket with m_writeFlag := answer.write, m_readFlag := answer.read } }
  have present' : flagged.manager.m_pSocket =
      some { socket with m_writeFlag := answer.write, m_readFlag := answer.read } := rfl
  have connected' : flagged.GetState = .Connected := connected
  have emptied (returned : flagged.sendLoop = .idle after) : after.manager.m_sendList = [] := by
    simp only [sendLoop, present', write, ↓reduceIte] at returned
    split at returned
    · next none_ =>
        simp only [recvLoop, present'] at returned
        split at returned
        · cases returned
        · rw [← Control.idle.inj returned]
          exact none_
    · unfold sendMessage at returned
      split at returned <;> cases returned
  cases point with
  | checkFirst dt =>
      have returned := Option.some.inj resumed
      rw [checkStateThen, CheckState_of_not_failed succeeded present] at returned
      change flagged.afterFirstCheck dt = .idle after at returned
      rw [afterFirstCheck, connected', if_neg (by decide), if_neg (by decide)] at returned
      exact emptied returned
  | checkSend =>
      have returned := Option.some.inj resumed
      rw [checkStateThen, CheckState_of_not_failed succeeded present] at returned
      exact emptied returned
  | checkRecv => exact absurd rfl sends
  | _ => cases resumed

end Endpoint

/-! ## One side -/

/-- How far a manager is from its next `Send` or `Recv`. -/
def Link.distance (link : Link) : Nat :=
  match link.control with
  | .idle endpoint =>
      if endpoint.manager.m_sendList.isEmpty && link.unread.isEmpty then 0 else 3
  | .waiting (.checkFirst _) _ => 2
  | .waiting .send _ | .waiting .recv _ => 1
  | .waiting .checkSend _ | .waiting .checkRecv _ => 4
  | .aborted _ _ => 0

/-- What one side has still to do. -/
def Link.effort (link : Link) : Nat :=
  32 * link.control.endpoint.unsent + 16 * link.unread.length +
    8 * link.control.endpoint.completed + link.distance

/-- The connection stands, and no `Recv` waits in vain. -/
structure Link.Alive (link : Link) : Prop where
  coherent : link.control.endpoint.Coherent
  connected : link.control.endpoint.GetState = .Connected
  fed : ∀ endpoint, link.control = .waiting .recv endpoint → link.unread ≠ []

/-- There is nothing left to do. -/
def Link.Rests (link : Link) : Prop :=
  ∃ endpoint, link.control = .idle endpoint ∧ endpoint.manager.m_sendList = [] ∧
    link.unread = [] ∧ endpoint.HasPendingMsg = false

/-- Whether it is an `Update`, a `LoadMsg` or an answer. -/
def Event.completes : Event → Bool
  | .Update _ | .LoadMsg | .reply _ => true
  | _ => false

theorem Session.posts_of_completes {event : Event} (completes : event.completes = true) :
    posts event = [] := by
  cases event with
  | SendMsg message => cases completes
  | _ => rfl

/-- A healthy step that completes and leaves less to do, also for the other side, which
is to receive what is given. -/
structure Link.Advances (link : Link) (event : Event) (next : Link) : Prop where
  healthy : link.control.Healthy event
  completes : event.completes = true
  stepped : Link.machine.step link event = some next
  alive : next.Alive
  less : next.effort + 19 * (link.control.gives event).length < link.effort

namespace Link

variable {link : Link} {endpoint : Endpoint}

theorem Alive.socket (alive : link.Alive) :
    ∃ socket, link.control.endpoint.manager.m_pSocket = some socket :=
  Option.isSome_iff_exists.mp (alive.coherent.mpr (Or.inr alive.connected))

/-- An event that takes nothing from the stream. -/
theorem step_of_silent {control after : Control} {event : Event} (unread : List UInt8)
    (silent : event.piece = []) (moved : Endpoint.machine.step control event = some after) :
    Link.machine.step { control, unread } event = some { control := after, unread } := by
  simp only [Link.machine, silent, List.nil_prefix, ↓reduceIte, moved, Option.map_some,
    List.length_nil, List.drop_zero]

/-- An idle manager has nothing left to do, or loads a message, or starts an `Update`. -/
theorem Alive.progress_idle {unread : List UInt8}
    (alive : Alive { control := .idle endpoint, unread }) :
    Rests { control := .idle endpoint, unread } ∨
      ∃ event next, Advances { control := .idle endpoint, unread } event next := by
  obtain ⟨socket, present⟩ := alive.socket
  by_cases quiet : endpoint.manager.m_sendList = [] ∧ unread = []
  · obtain ⟨sent, empty⟩ := quiet
    cases pending : endpoint.HasPendingMsg with
    | false => exact Or.inl ⟨endpoint, rfl, sent, empty, pending⟩
    | true =>
        have called : endpoint.call .LoadMsg =
            some (endpoint.finished (endpoint.LoadMsg.map Prod.snd)) := rfl
        rcases Endpoint.call_LoadMsg called with ⟨none_, -⟩ | ⟨message, rest, front, loaded⟩
        · simp only [Endpoint.HasPendingMsg, Endpoint.getMsg, none_, List.head?_nil,
            Bool.false_eq_true] at pending
        · have ended := pending
          simp only [Endpoint.HasPendingMsg, Endpoint.getMsg, front, List.head?_cons] at ended
          have fewer : (endpoint.RemoveMsg message.address).completed + 1 = endpoint.completed := by
            rw [Endpoint.completed, Endpoint.completed, Endpoint.RemoveMsg_front front, front,
              List.countP_cons_of_pos ended]
          rw [loaded] at called
          refine Or.inr ⟨.LoadMsg, _, pending, rfl, step_of_silent unread rfl called,
            ⟨alive.coherent, alive.connected, fun _ same => ?_⟩, ?_⟩
          · cases same
          · have same : (endpoint.RemoveMsg message.address).unsent = endpoint.unsent := rfl
            have still : (endpoint.RemoveMsg message.address).manager.m_sendList =
              endpoint.manager.m_sendList := rfl
            simp only [effort, distance, Control.gives, Control.endpoint, List.length_nil, same,
              still]
            omega
  · have connected : endpoint.GetState = .Connected := alive.connected
    have present : endpoint.manager.m_pSocket = some socket := present
    have moved : Endpoint.machine.step (.idle endpoint) (.Update 0) =
        some (.waiting (.checkFirst 0) endpoint) := by
      simp only [Endpoint.machine, Endpoint.call, Endpoint.Update, present, connected,
        reduceCtorEq, or_self, ↓reduceIte]
    have work : (endpoint.manager.m_sendList.isEmpty && unread.isEmpty) = false := by
      rw [Bool.eq_false_iff, ne_eq, Bool.and_eq_true, List.isEmpty_iff, List.isEmpty_iff]
      exact quiet
    refine Or.inr ⟨.Update 0, _, trivial, rfl, step_of_silent unread rfl moved,
      ⟨alive.coherent, alive.connected, fun _ same => ?_⟩, ?_⟩
    · cases same
    · simp only [effort, distance, work, Control.gives, Control.endpoint, List.length_nil,
        Bool.false_eq_true, ↓reduceIte]
      omega

/-- What `select` answers when it can be told by the lists and the stream. -/
def truth (link : Link) : SelectReply where
  ret := 0
  read := !link.unread.isEmpty
  write := !link.control.endpoint.manager.m_sendList.isEmpty
  error := false

/-- A `select` that tells the truth. -/
theorem Alive.progress_select {unread : List UInt8} {point : Point} {control : Control}
    (alive : Alive { control := .waiting point endpoint, unread })
    (armed : (Control.waiting point endpoint).Armed)
    (incomplete : ∀ message ∈ endpoint.manager.m_sendList, message.isEnd = false)
    (resumed : endpoint.resume point
      (.select (truth { control := .waiting point endpoint, unread })) = some control) :
    ∃ event next, Advances { control := .waiting point endpoint, unread } event next := by
  obtain ⟨socket, present⟩ := alive.socket
  have moved : Endpoint.machine.step (.waiting point endpoint) (.reply (.select
      (truth { control := .waiting point endpoint, unread }))) = some control := resumed
  have continues := Endpoint.resume_select resumed
  obtain ⟨heeds, connected⟩ :=
    Endpoint.resume_select_connected rfl present alive.connected resumed
  have running := Endpoint.resume_select_ne_aborted rfl present resumed
  have coherent := Control.coherent_step alive.coherent armed moved
  have healthy : (Control.waiting point endpoint).Healthy (.reply (.select
      (truth { control := .waiting point endpoint, unread }))) := Or.inl rfl
  refine ⟨_, _, healthy, rfl, step_of_silent unread rfl moved,
    ⟨coherent, connected, fun after same => ?_⟩, ?_⟩
  · simp only at same
    subst same
    rintro rfl
    cases heeds
  · have far : 2 ≤ distance { control := .waiting point endpoint, unread } := by
      cases point with
      | checkFirst dt => exact le_rfl
      | checkSend => exact (by decide : 2 ≤ 4)
      | checkRecv => exact (by decide : 2 ≤ 4)
      | _ => cases resumed
    cases continues with
    | @returned after same =>
        have empty : unread.isEmpty = true := by
          have silent : (!unread.isEmpty) = false := heeds
          rwa [Bool.not_eq_false'] at silent
        have nearer : distance { control := .idle after, unread } <
            distance { control := .waiting point endpoint, unread } := by
          by_cases received : point = .checkRecv
          · subst received
            simp only [distance]
            split <;> decide
          · have sent : after.manager.m_sendList = [] := by
              cases write : (truth { control := .waiting point endpoint, unread }).write with
              | true =>
                  exact Endpoint.resume_select_writable rfl present alive.connected write received
                    resumed
              | false =>
                  rw [same.sendList]
                  have none_ : (!endpoint.manager.m_sendList.isEmpty) = false := write
                  rw [Bool.not_eq_false'] at none_
                  exact List.isEmpty_iff.mp none_
            have rests : distance { control := .idle after, unread } = 0 := by
              simp only [distance, sent, empty, List.isEmpty_nil,
                Bool.and_self, ↓reduceIte]
            omega
        simp only [effort, Control.endpoint, Control.gives, List.length_nil, same.completed,
          same.unsent]
        omega
    | crashed same null => exact absurd rfl (running _ _)
    | @recv after same =>
        have kept := (Endpoint.pickMessage_completed _).trans same.completed
        have unsent : after.pickMessage.unsent = endpoint.unsent := by
          rw [Endpoint.unsent, Endpoint.pickMessage_sendList]
          exact same.unsent
        have near : distance { control := .waiting .recv after.pickMessage, unread } = 1 := rfl
        simp only [effort, Control.endpoint, Control.gives, List.length_nil, kept, unsent, near]
        omega
    | @send after same =>
        have near : distance { control := .waiting .send after, unread } = 1 := rfl
        simp only [effort, Control.endpoint, Control.gives, List.length_nil, same.completed,
          same.unsent, near]
        omega
    | sent same socket present message rest front complete =>
        have queued := incomplete message (by rw [← same.sendList, front]; exact .head _)
        exact absurd (complete.symm.trans queued) Bool.noConfusion

/-- A `Send` that is given all it asks for. -/
theorem Alive.progress_send {unread : List UInt8}
    (alive : Alive { control := .waiting .send endpoint, unread })
    (armed : (Control.waiting .send endpoint).Armed) (sized : endpoint.Sized)
    (sendable : ∀ message ∈ endpoint.manager.m_sendList, message.Sendable) :
    ∃ event next, Advances { control := .waiting .send endpoint, unread } event next := by
  obtain ⟨-, message, rest, front, unfinished⟩ := armed
  have here : message ∈ endpoint.manager.m_sendList := by
    rw [front]
    exact List.mem_cons_self
  have known := sized message here
  have some_ : 0 < message.getSendCap := by
    have open_ : message.getSendCap ≠ 0 := fun nothing =>
      Bool.false_ne_true (unfinished.symm.trans
        ((sendable message here).isEnd_iff.mpr ⟨known, nothing⟩))
    have cap := (sendable message here).getSendCap_eq
    obtain ⟨⟨start, header, least, fits⟩, low, high⟩ := sendable message here
    omega
  obtain ⟨after, -, left⟩ := (sendable message here).onSend_cursor some_.le le_rfl
  have ended : (message.onSend message.getSendCap).isEnd = true :=
    after.isEnd_iff.mpr ⟨known, left.trans (sub_self _)⟩
  have moved : Endpoint.machine.step (.waiting .send endpoint)
      (.reply (.send message.getSendCap)) = some (endpoint.afterSend message.getSendCap) := rfl
  rcases Endpoint.resume_send front moved with ⟨failed, -⟩ | ⟨-, ⟨-, next⟩ | ⟨open_, -⟩⟩
  · omega
  · rw [next] at moved
    have healthy : (Control.waiting .send endpoint).Healthy
        (.reply (.send message.getSendCap)) := by
      refine Or.inr ⟨some_.le, fun other first => ?_⟩
      simp only [Control.endpoint, front, List.head?_cons, Option.mem_some_iff] at first
      rw [first]
    refine ⟨_, _, healthy, rfl, step_of_silent unread rfl moved,
      ⟨alive.coherent, alive.connected, fun _ same => ?_⟩, ?_⟩
    · cases same
    · have taken : (message.taken message.getSendCap).length = message.getSendCap.toNat :=
        Memory.length_read _ _ _
      have before : endpoint.unsent = message.getSendCap.toNat +
          (endpoint.popSent (message.onSend message.getSendCap) rest).unsent := by
        rw [Endpoint.unsent, front, List.map_cons, List.sum_cons]
        rfl
      have kept : (endpoint.popSent (message.onSend message.getSendCap) rest).completed =
          endpoint.completed := rfl
      simp only [effort, distance, Control.endpoint, Control.gives, front, taken, before, kept]
      omega
  · exact absurd (ended.symm.trans open_) Bool.noConfusion

/-- A `Recv` that is given what is there of the part being read. -/
theorem Alive.progress_recv {unread : List UInt8} {read : Phase × List Item}
    (alive : Alive { control := .waiting .recv endpoint, unread })
    (armed : (Control.waiting .recv endpoint).Armed)
    (expecting : Expecting read endpoint.manager.m_recvList)
    (running : ∀ event next, (Control.waiting .recv endpoint).Healthy event →
      Link.machine.step { control := .waiting .recv endpoint, unread } event = some next →
        ∀ reason after, next.control ≠ .aborted reason after) :
    ∃ event next, Advances { control := .waiting .recv endpoint, unread } event next := by
  obtain ⟨done, message, -, reading, back⟩ := expecting
  have left : unread ≠ [] := alive.fed endpoint rfl
  have incomplete := reading.incomplete
  have more := List.length_pos_iff.mpr left
  let bytes := unread.take (read.1.stage.width - read.1.got.length)
  have length : 1 ≤ bytes.length ∧ bytes.length ≤ read.1.stage.width - read.1.got.length := by
    rw [List.length_take]
    omega
  have taken : bytes <+: unread := List.take_prefix _ _
  have nonempty : bytes ≠ [] := List.length_pos_iff.mp (by omega)
  have asked : bytes.length ≤ message.getReadCap ∧ message.StaysInHeader bytes := by
    have cap := reading.getReadCap_eq
    have size := reading.size
    have headSize := reading.headSize
    have cursor := reading.cursor
    unfold NetMessage.StaysInHeader
    generalize read.1 = phase at *
    obtain ⟨stage, got⟩ := phase
    cases stage with
    | short =>
        simp only [Stage.width, Stage.head, Stage.headSize, List.length_nil] at *
        omega
    | long =>
        simp only [Stage.width, Stage.head, Stage.headSize, List.length_nil] at *
        omega
    | body head =>
        simp only [Stage.sizeField] at size
        simp only at cap incomplete length
        omega
  have healthy : (Control.waiting .recv endpoint).Healthy (.reply (.recv bytes)) := by
    intro other last
    simp only [Control.endpoint, back, List.getLast?_concat, Option.mem_some_iff] at last
    exact last ▸ asked
  have resumed : endpoint.resume .recv (.recv bytes) = some (endpoint.afterRecv bytes) := rfl
  have moved : Endpoint.machine.step (.waiting .recv endpoint) (.reply (.recv bytes)) =
      some (endpoint.afterRecv bytes) := rfl
  have stepped : Link.machine.step { control := .waiting .recv endpoint, unread }
      (.reply (.recv bytes)) =
        some { control := endpoint.afterRecv bytes, unread := unread.drop bytes.length } := by
    simp only [Link.machine, Event.piece, taken, ↓reduceIte, moved, Option.map_some]
  have goes := running _ _ healthy stepped
  have coherent := Control.coherent_step alive.coherent armed moved
  simp only at goes
  rcases Endpoint.resume_recv back nonempty resumed with ⟨reason, -, next⟩ |
    ⟨filled, -, ⟨reason, -, next⟩ | ⟨after, process, -, next⟩⟩
  · exact absurd next (goes _ _)
  · exact absurd next (goes _ _)
  · rw [next] at coherent stepped
    have less (reached : Endpoint) (received : reached.manager.m_recvList = done ++ [after])
        (same : reached.manager.m_sendList = endpoint.manager.m_sendList) :
        effort { control := .waiting .checkRecv reached, unread := unread.drop bytes.length } <
          effort { control := .waiting .recv endpoint, unread } := by
      have completes : reached.completed ≤ endpoint.completed + 1 := by
        rw [Endpoint.completed, Endpoint.completed, back, received, List.countP_append,
          List.countP_append]
        have one := List.countP_le_length (p := NetMessage.isEnd) (l := [after])
        rw [List.length_singleton] at one
        omega
      have unsent : reached.unsent = endpoint.unsent := by
        rw [Endpoint.unsent, same]
        rfl
      have drop := taken.length_le
      simp only [effort, distance, Control.endpoint, List.length_drop, unsent]
      omega
    refine ⟨_, _, healthy, rfl, stepped, ⟨coherent, alive.connected, fun _ same => ?_⟩, ?_⟩
    · cases same
    · exact less _ rfl rfl

/-- **One side goes on** unless there is nothing left to do. -/
theorem Alive.progress {outbox : Outbox UInt8} {read : Phase × List Item} (alive : link.Alive)
    (armed : link.control.Armed) (sized : link.control.endpoint.Sized)
    (queue : link.control.endpoint.Queue outbox) (stands : link.control.Stands read)
    (running : ∀ event next, link.control.Healthy event →
      Link.machine.step link event = some next →
        ∀ reason after, next.control ≠ .aborted reason after) :
    link.Rests ∨ ∃ event next, link.Advances event next := by
  have tracks : link.control.Tracks read := by
    rcases stands with tracks | ⟨endpoint, idle, absent, -⟩
    · exact tracks
    · obtain ⟨socket, present⟩ := alive.socket
      rw [idle] at present
      cases absent.symm.trans present
  obtain ⟨control, unread⟩ := link
  cases control with
  | idle endpoint => exact alive.progress_idle
  | waiting point endpoint =>
      right
      cases point with
      | send => exact alive.progress_send armed sized queue.sendable
      | recv => exact alive.progress_recv armed tracks running
      | _ => exact alive.progress_select armed queue.incomplete rfl
  | aborted reason endpoint => exact absurd rfl (stands.running reason endpoint)

/-- More bytes to receive. -/
theorem effort_deliver_le (bytes : List UInt8) (link : Link) :
    (Session.deliver bytes link).effort ≤ link.effort + 19 * bytes.length := by
  obtain ⟨control, unread⟩ := link
  rcases List.eq_nil_or_concat' bytes with rfl | ⟨first, last, rfl⟩
  · rw [Session.deliver, List.append_nil]
    exact Nat.le_add_right _ _
  · have near : distance { control, unread := unread ++ (first ++ [last]) } ≤
        distance { control, unread } + 3 := by
      cases control with
      | idle endpoint =>
          simp only [distance]
          split <;> omega
      | waiting point endpoint => cases point <;> exact Nat.le_add_right _ _
      | aborted reason endpoint => exact Nat.le_add_right _ _
    simp only [effort, Session.deliver, List.length_append, List.length_singleton] at near ⊢
    omega

theorem Alive.deliver (alive : link.Alive) (bytes : List UInt8) :
    (Session.deliver bytes link).Alive :=
  ⟨alive.coherent, alive.connected, fun endpoint waits =>
    List.append_ne_nil_of_left_ne_nil (alive.fed endpoint waits) bytes⟩

end Link

/-! ## Both sides -/

namespace Session

variable {links final : Side → Link} {events : List (Side × Event)}

/-- A healthy `Update`, `LoadMsg` or answer. -/
def Completing (links : Side → Link) (event : Side × Event) : Prop :=
  Healthy links event ∧ event.2.completes = true

/-- What both sides have still to do. -/
def effort (links : Side → Link) : Nat := (links .near).effort + (links .far).effort

/-- A session whose connections stand. -/
structure GoesOn (links : Side → Link) : Prop where
  joined : ∃ letters, Joined links letters
  sized : ∀ side, (links side).control.endpoint.Sized
  alive : ∀ side, (links side).Alive

theorem effort_eq (links : Side → Link) (side : Side) :
    effort links = (links side).effort + (links side.other).effort := by
  cases side
  · rfl
  · exact Nat.add_comm _ _

/-- The sizes stay known. -/
theorem sized_step {event : Side × Event} (healthy : Healthy links event)
    (joined : ∃ letters, Joined links letters)
    (sized : ∀ side, (links side).control.endpoint.Sized)
    (stepped : machine.step links event = some final) (side : Side) :
    (final side).control.endpoint.Sized := by
  obtain ⟨letters, joined⟩ := joined
  obtain ⟨link, taken, here, there⟩ := step_eq_some stepped
  obtain ⟨moved, -⟩ := Link.step_eq_some taken
  rcases side.eq_or_eq_other event.1 with rfl | rfl
  · rw [here]
    have known : event.2.Sized := by
      obtain ⟨which, event⟩ := event
      cases event with
      | SendMsg message =>
          obtain ⟨payload, bounded, written⟩ := healthy
          change 0 ≤ message.m_size
          rw [(written.finished bounded).1.size]
          exact Int.natCast_nonneg _
      | _ => trivial
    exact Control.sized_step (joined.armed _) known moved (sized _)
  · rw [there]
    exact sized _

/-- A step of one side that leaves less to do leaves less for the session. -/
theorem GoesOn.step (goesOn : GoesOn links) {side : Side} {event : Event} {next : Link}
    (advances : (links side).Advances event next) :
    ∃ event after, Completing links event ∧ machine.step links event = some after ∧
      GoesOn after ∧ effort after < effort links := by
  obtain ⟨allowed, completes, taken, alive, less⟩ := advances
  have healthy : Healthy links (side, event) := allowed
  obtain ⟨letters, joined⟩ := goesOn.joined
  have stepped : machine.step links (side, event) = some (Function.update
      (Function.update links side next) side.other
        (deliver ((links side).control.gives event) (links side.other))) := by
    simp only [machine, taken, Option.map_some]
  obtain ⟨link, taken', here, there⟩ := step_eq_some stepped
  obtain rfl := Option.some.inj (taken.symm.trans taken')
  simp only at here there
  obtain ⟨after, -, joined'⟩ := simulates links letters (side, event) _ healthy joined stepped
  refine ⟨_, _, ⟨healthy, completes⟩, stepped, ⟨⟨after, joined'⟩,
    sized_step healthy goesOn.joined goesOn.sized stepped, fun which => ?_⟩, ?_⟩
  · rcases which.eq_or_eq_other side with rfl | rfl
    · rw [here]
      exact alive
    · rw [there]
      exact (goesOn.alive _).deliver _
  · have more := Link.effort_deliver_le ((links side).control.gives event) (links side.other)
    rw [effort_eq _ side, effort_eq links side, here, there]
    omega

theorem GoesOn.progress (goesOn : GoesOn links) :
    (∀ side, (links side).Rests) ∨
      ∃ event after, Completing links event ∧ machine.step links event = some after ∧
        GoesOn after ∧ effort after < effort links := by
  obtain ⟨letters, joined⟩ := goesOn.joined
  have one (side : Side) :
      (links side).Rests ∨ ∃ event next, (links side).Advances event next := by
    obtain ⟨passage, joins⟩ := joined.passage side
    obtain ⟨outgoing, sends⟩ := joined.passage side.other
    rw [Side.other_other] at sends
    refine (goesOn.alive side).progress (joined.armed side) (goesOn.sized side)
      sends.sends.queue joins.place fun event next healthy taken => ?_
    obtain ⟨moved, left, -, joins⟩ :=
      joins.receive (joined.sound side) (joined.armed side) healthy taken
    exact joins.place.running
  rcases one .near with near | ⟨event, next, advances⟩
  · rcases one .far with far | ⟨event, next, advances⟩
    · left
      intro side
      cases side
      · exact near
      · exact far
    · exact Or.inr (goesOn.step advances)
  · exact Or.inr (goesOn.step advances)

theorem posted_nil_of_completing {more : List (Side × Event)}
    (meets : machine.Meets Completing links more) (reached : machine.run links more = some final)
    (side : Side) : posted side links more = [] := by
  induction more generalizing links with
  | nil => rfl
  | cons event more ih =>
      obtain ⟨next, stepped, rest⟩ := Machine.run_cons_eq_some.mp reached
      rw [Machine.meets_cons_of_step stepped] at meets
      have later := ih meets.2 rest
      unfold posted at later ⊢
      rw [Machine.observe_cons_of_step stepped, Machine.eventsOf_append, List.filterMap_append,
        later, List.append_nil, visible, posts_of_completes meets.1.2, List.map_nil, List.nil_append]
      rw [List.filterMap_eq_nil_iff]
      intro action member
      obtain ⟨addressed, kept, rfl⟩ := List.mem_map.mp member
      obtain ⟨letter, -, rfl⟩ := List.mem_map.mp (List.mem_of_mem_filter kept)
      rfl

theorem Established.sized (established : Established links) (side : Side) :
    (links side).control.endpoint.Sized := by
  obtain ⟨endpoint, same, -, unsent, -⟩ := established side
  rw [same, Endpoint.Sized, Control.endpoint, unsent]
  exact List.forall_mem_nil _

/-- **A session can be completed.** From every state of a session in which both
connections stand and no `Recv` waits for bytes that were never sent, some healthy
run of `Update`s, `LoadMsg`s and answers hands out every letter posted so far. -/
theorem can_complete (established : Established links)
    (meets : machine.Meets Healthy links events) (reached : machine.run links events = some final)
    (alive : ∀ side, (final side).Alive) :
    ∃ more last, machine.Meets Completing final more ∧ machine.run final more = some last ∧
      (∀ side, (last side).Rests) ∧
        ∀ side, fetched side links (events ++ more) = posted side links events := by
  have goesOn : GoesOn final := by
    obtain ⟨joined, sized⟩ := Machine.state_invariant
      (fun links => (∃ letters, Joined links letters) ∧
        ∀ side, (links side).control.endpoint.Sized)
      (fun links event next healthy holds stepped => by
        obtain ⟨⟨letters, joined⟩, sized⟩ := holds
        obtain ⟨after, -, joined'⟩ := simulates links letters event next healthy joined stepped
        exact ⟨⟨after, joined'⟩, sized_step healthy ⟨letters, joined⟩ sized stepped⟩)
      meets reached ⟨⟨_, established.joined⟩, established.sized⟩
    exact ⟨joined, sized, alive⟩
  obtain ⟨more, last, completing, rest, rests⟩ :=
    Machine.CanReach.of_measure effort (fun _ goesOn => GoesOn.progress goesOn)
      goesOn
  refine ⟨more, last, completing, rest, rests, fun side => ?_⟩
  have whole := meets.append reached (completing.mono fun _ _ step => step.1)
  have ran : machine.run links (events ++ more) = some last := by
    rw [Machine.run_append, reached, Option.bind_some, rest]
  obtain ⟨sender, there, sent, -, -⟩ := rests side.other
  obtain ⟨receiver, here, -, empty, quiet⟩ := rests side
  obtain ⟨done, left, list, -, ended, -, split⟩ := nothing_lost established whole ran side
    (by rw [there]; exact sent) empty
  have none_ : done = [] := by
    cases done with
    | nil => rfl
    | cons message done =>
        rw [here] at list
        simp only [Control.endpoint] at list
        simp only [Endpoint.HasPendingMsg, Endpoint.getMsg, list, List.cons_append,
          List.head?_cons] at quiet
        exact absurd (quiet.symm.trans (ended message List.mem_cons_self)) Bool.noConfusion
  have nothing := posted_nil_of_completing completing rest side
  rw [none_, List.map_nil, List.append_nil] at split
  rw [← split]
  unfold posted at nothing ⊢
  rw [Machine.observe_append more reached, Machine.eventsOf_append, List.filterMap_append,
    nothing, List.append_nil]

/-- One side has posted a letter, and nothing else has happened. -/
theorem can_complete_of_greeting :
    ∃ more last, machine.run start ((.near, .SendMsg (.letter [[65]])) :: more) = some last ∧
      fetched .far start ((.near, .SendMsg (.letter [[65]])) :: more) = [[65]] := by
  let sent : Side → Link := Function.update (Function.update start .near
    { control := .idle (Endpoint.justConnected.SendMsg (.letter [[65]])), unread := [] }) .far
      (start .far)
  have stepped : machine.step start (.near, .SendMsg (.letter [[65]])) = some sent := rfl
  have reached : machine.run start [(.near, .SendMsg (.letter [[65]]))] = some sent :=
    Machine.run_cons_eq_some.mpr ⟨sent, stepped, rfl⟩
  have meets : machine.Meets Healthy start [(.near, .SendMsg (.letter [[65]]))] :=
    (Machine.meets_cons_of_step stepped).mpr
      ⟨⟨[65], by decide, NetMessage.letter_writtenAs [[65]] (by decide)⟩, trivial⟩
  have alive : ∀ side, (sent side).Alive := by
    intro side
    cases side <;>
      exact ⟨Endpoint.coherent_of_open rfl (Or.inr rfl), rfl, fun _ => Control.noConfusion⟩
  obtain ⟨more, last, -, rest, -, all⟩ := can_complete start_established meets reached alive
  refine ⟨more, last, Machine.run_cons_eq_some.mpr ⟨sent, stepped, rest⟩, (all .far).trans ?_⟩
  decide

end Session

end EngSocket
