import EngSocket.Connection.Safety
import EngSocket.Reception.Link

/-!
# Announced lengths

Behind the marker a peer announces a length of 32 bits, and `onReceive` stores it
in an `int`. The message is then received at that length, or the connection ends
with an error, exactly if doubling the buffer reaches header and body
(`EngSocket.Control.honours_iff`). A larger length leaves `checkBufSize` running,
and from `2 ^ 31 - 4` on the sums overflow and nothing is refused.
-/

namespace EngSocket

open Foundation

/-- The marker has been read, and nothing of the length. -/
structure NetMessage.Marked (message : NetMessage) : Prop where
  size : message.m_size = -2
  headSize : message.m_headSize = 4
  start : message.m_bufStartPos = 0
  cursor : message.m_curPos = 0
  room : 4 ≤ message.m_buffer.m_size
  ranged : message.m_buffer.Ranged

/-- The length has been read, and there is room for header and body. -/
structure NetMessage.Announced (length : Nat) (message : NetMessage) : Prop where
  size : message.m_size = length
  headSize : message.m_headSize = 4
  start : message.m_bufStartPos = 0
  room : 4 + length ≤ message.m_buffer.m_size
  ranged : message.m_buffer.Ranged

/-- A message as `new` leaves it. -/
structure NetMessage.Fresh (message : NetMessage) : Prop where
  size : message.m_size = -1
  headSize : message.m_headSize = 2
  start : message.m_bufStartPos = 0
  cursor : message.m_curPos = 0

namespace NetMessage

variable {message : NetMessage} {process : Process} {length : Nat}

/-- A message that has read nothing before the marker. -/
theorem Fresh.marked (fresh : message.Fresh) (room : 4 ≤ message.m_buffer.m_size)
    (ranged : message.m_buffer.Ranged) (process : Process) :
    message.storeAtCursor [255, 255] = .ok (message.filled [255, 255]) ∧
      ∃ after, (message.filled [255, 255]).onReceive 2 process = .ok (after, process) ∧
        after.Marked := by
  obtain ⟨size, headSize, start, cursor⟩ := fresh
  refine ⟨storeAtCursor_of_le _ (by omega) ?_,
    { message.advanced [255, 255] with m_curPos := 0, m_size := -2, m_headSize := 4 }, ?_,
    ⟨rfl, rfl, start, rfl, room, ranged⟩⟩
  · rw [cursor]
    exact (by norm_num : (0 : Int) + 2 ≤ 4).trans room
  · have value : (message.advanced [255, 255]).shortHeader = 0xFFFF := by
      rw [← UInt16.toNat_inj, shortHeader_toNat]
      have same := Memory.read_write_self message.m_buffer.m_buf message.m_curPos
        ([255, 255] : List UInt8)
      rw [cursor] at same
      simp only [advanced, filled, cursor]
      exact congrArg bigEndian same
    have known : ¬ 0 ≤ (message.advanced [255, 255]).m_size := by
      change ¬ 0 ≤ message.m_size
      omega
    have short : (message.advanced [255, 255]).m_size = -1 ∧
        (message.advanced [255, 255]).m_curPos = (message.advanced [255, 255]).m_headSize := by
      change message.m_size = -1 ∧ message.m_curPos + 2 = message.m_headSize
      omega
    refine (@onReceive_filled message process [255, 255] ?_ ?_).trans ?_
    · rw [cursor]
      decide
    · rw [cursor]
      decide
    · rw [if_neg known, if_pos short, if_pos value]

/-- **What becomes of an announcement.** The length is the number that the four
bytes make. -/
theorem Marked.receive (marked : message.Marked) {header : List UInt8} (whole : header.length = 4)
    (process : Process) :
    message.storeAtCursor header = .ok (message.filled header) ∧
      (message.filled header).onReceive header.length process =
        { message.filled header with
          m_size := int32 (bigEndian header), m_curPos := 4 }.checkBufSize
            (int32 (bigEndian header)) process := by
  obtain ⟨size, headSize, start, cursor, room, ranged⟩ := marked
  have length : (header.length : Int) = 4 := by omega
  refine ⟨storeAtCursor_of_le header (by omega) (by omega), ?_⟩
  have value : (message.advanced header).longHeader.toNat = bigEndian header := by
    rw [longHeader_toNat]
    have same := Memory.read_write_self message.m_buffer.m_buf message.m_curPos header
    rw [cursor, whole] at same
    simp only [advanced, NetMessage.filled, cursor]
    exact congrArg bigEndian same
  rw [onReceive_filled (by omega) (by omega)]
  simp only [value]
  have notKnown : ¬ 0 ≤ (message.advanced header).m_size := by
    change ¬ 0 ≤ message.m_size
    omega
  have notShort : ¬ ((message.advanced header).m_size = -1 ∧
      (message.advanced header).m_curPos = (message.advanced header).m_headSize) := by
    change ¬ (message.m_size = -1 ∧ _)
    omega
  have long : (message.advanced header).m_size = -2 ∧
      (message.advanced header).m_curPos = (message.advanced header).m_headSize := by
    change message.m_size = -2 ∧ message.m_curPos + header.length = message.m_headSize
    omega
  rw [if_neg notKnown, if_neg notShort, if_pos long]
  have entered : { message.advanced header with
        m_size := int32 (bigEndian header), m_curPos := (message.advanced header).m_headSize,
        m_bufStartPos := 0 } =
      { message.filled header with m_size := int32 (bigEndian header), m_curPos := 4 } := by
    simp only [advanced, NetMessage.filled, headSize, start]
  rw [entered]

/-- A length that doubling reaches is announced. -/
theorem Marked.announced (marked : message.Marked) {header : List UInt8}
    (whole : header.length = 4)
    (reaches : message.m_buffer.Reaches (4 + bigEndian header) process) :
    ∃ after requests,
      (message.filled header).onReceive header.length process =
          .ok (after, { process with requests }) ∧
        after.Announced (bigEndian header) ∧ after.m_curPos = 4 := by
  have room := marked.room
  obtain ⟨doublings, enough, range, granted⟩ := reaches
  rw [(marked.receive whole process).2, int32_of_range (by omega) (by omega)]
  have demand : int32 (4 + (bigEndian header : Int)) = 4 + bigEndian header :=
    int32_of_range (by omega) (by omega)
  obtain ⟨grown, requests, done, doubled⟩ := @checkBufSize_of_reaches
    { message.filled header with m_size := bigEndian header, m_curPos := 4 } process
    (bigEndian header) (by simp only [NetMessage.filled]; omega)
    (by simp only [demand]; exact ⟨doublings, enough, range, granted⟩)
  refine ⟨_, requests, done, ⟨rfl, marked.headSize, marked.start, ?_, doubled.range⟩, rfl⟩
  exact (demand ▸ doubled.covers : 4 + (bigEndian header : Int) ≤ grown.m_size)

/-- A length that an `int` holds with its header, and that doubling does not reach. -/
theorem Marked.endless (marked : message.Marked) {header : List UInt8} (whole : header.length = 4)
    (small : bigEndian header < 2147483644)
    (out : ¬ message.m_buffer.Reaches (4 + bigEndian header) process) :
    (message.filled header).onReceive header.length process = .error .endless := by
  have room := marked.room
  have demand : int32 (4 + (bigEndian header : Int)) = 4 + bigEndian header :=
    int32_of_range (by omega) (by omega)
  rw [(marked.receive whole process).2, int32_of_range (by omega) (by omega)]
  refine checkBufSize_of_not_reaches ?_ ?_ ?_
  · simp only [NetMessage.filled]
    omega
  · exact marked.ranged
  · simp only [demand]
    exact out

/-- A length that overflows is taken as it is, and the buffer does not grow. -/
theorem Marked.overflows (marked : message.Marked) {header : List UInt8} (whole : header.length = 4)
    (large : 2147483644 ≤ bigEndian header) (process : Process) :
    (message.filled header).onReceive header.length process =
      .ok ({ message.filled header with m_size := int32 (bigEndian header), m_curPos := 4 },
        process) := by
  have room := marked.room
  have value := bigEndian_lt header
  rw [whole] at value
  rw [(marked.receive whole process).2]
  apply checkBufSize_of_enough
  simp only [NetMessage.filled]
  unfold int32
  omega

/-- The body is complete when the cursor has passed it. -/
theorem Announced.isEnd_iff (announced : message.Announced length) :
    message.isEnd = true ↔ message.m_curPos = 4 + length := by
  obtain ⟨size, headSize, start, room, ranged⟩ := announced
  unfold MemBuffer.Ranged at ranged
  have known : ¬ message.m_size < 0 := by omega
  rw [isEnd, if_neg known, decide_eq_true_iff, size, headSize, start,
    int32_of_range (by omega) (by omega)]
  omega

/-- What is asked for is what is missing of the body. -/
theorem Announced.getReadCap_eq (announced : message.Announced length) {got : Nat}
    (cursor : message.m_curPos = 4 + got) (within : got ≤ length) :
    message.getReadCap = length - got := by
  obtain ⟨size, headSize, start, room, ranged⟩ := announced
  unfold MemBuffer.Ranged at ranged
  have known : 0 ≤ message.m_size := by omega
  rw [getReadCap, if_pos known, size, headSize, cursor, int32_of_range (by omega) (by omega)]
  omega

/-- A piece of the body moves the cursor. -/
theorem Announced.receive (announced : message.Announced length) {got : Nat}
    (cursor : message.m_curPos = 4 + got) {bytes : List UInt8}
    (within : got + bytes.length ≤ length) (process : Process) :
    ∃ after, message.storeAtCursor bytes = .ok (message.filled bytes) ∧
      (message.filled bytes).onReceive bytes.length process = .ok (after, process) ∧
        after.Announced length ∧ after.m_curPos = 4 + (got + bytes.length : Nat) := by
  obtain ⟨size, headSize, start, room, ranged⟩ := announced
  have small := ranged
  unfold MemBuffer.Ranged at small
  have known : 0 ≤ (message.advanced bytes).m_size := by
    change 0 ≤ message.m_size
    omega
  refine ⟨message.advanced bytes, storeAtCursor_of_le bytes (by omega) (by omega), ?_,
    ⟨size, headSize, start, room, ranged⟩, ?_⟩
  · rw [onReceive_filled (by omega) (by omega)]
    exact if_pos known
  · change message.m_curPos + bytes.length = _
    omega

end NetMessage

/-! ## The law -/

/-- An error has ended the connection. -/
def Control.Failed (control : Control) : Prop :=
  control.endpoint.manager.m_pSocket = none ∧ control.endpoint.GetState = .ConnectError

def Control.IsAborted : Control → Prop
  | .aborted _ _ => True
  | _ => False

def Control.InRecv : Control → Prop
  | .waiting .recv _ => True
  | _ => False

/-- What happens to a manager while it receives: `Update` with answers of at most
the bytes that were asked for, and calls that concern what is sent. -/
def Control.Receives (control : Control) : Event → Prop
  | .Update _ | .SendMsg _ | .InitEncrypt => True
  | .reply (.recv bytes) => ∀ message ∈ control.endpoint.manager.m_recvList.getLast?,
      bytes.length ≤ message.getReadCap
  | .reply _ => True
  | _ => False

/-- The connection has ended with an error, or the message behind the older ones
has the announced length and is complete once so many bytes have come; the next
`Recv` is into a new one. -/
def Control.Honours (length : Nat) (older : List NetMessage) (got : Nat) (control : Control) :
    Prop :=
  control.Failed ∨
    ∃ (message : NetMessage) (newer : List NetMessage),
      control.endpoint.manager.m_recvList = older ++ message :: newer ∧
        message.m_size = length ∧ message.m_headSize = 4 ∧
          (message.isEnd = true ↔ length ≤ got) ∧ (got < length → newer = []) ∧
            (got ≤ length → ¬ control.IsAborted) ∧
              (got = length → control.InRecv → ∃ next : NetMessage, newer = [next] ∧ next.Fresh)

/-- How far the message with the announced length is. -/
inductive Control.Honouring (length : Nat) (older : List NetMessage) (got : Nat)
    (control : Control) : Prop
  | failed (failed : control.Failed)
  | body (message : NetMessage)
      (list : control.endpoint.manager.m_recvList = older ++ [message])
      (announced : message.Announced length) (cursor : message.m_curPos = 4 + got)
      (incomplete : got < length) (running : ¬ control.IsAborted)
  | complete (message : NetMessage)
      (list : control.endpoint.manager.m_recvList = older ++ [message])
      (announced : message.Announced length) (cursor : message.m_curPos = 4 + length)
      (all : got = length) (running : ¬ control.IsAborted) (outside : ¬ control.InRecv)
  | next (message next : NetMessage)
      (list : control.endpoint.manager.m_recvList = older ++ [message, next])
      (announced : message.Announced length) (cursor : message.m_curPos = 4 + length)
      (all : got = length) (running : ¬ control.IsAborted) (inRecv : control.InRecv)
      (fresh : next.Fresh)
  | later (message last : NetMessage) (newer : List NetMessage)
      (list : control.endpoint.manager.m_recvList = older ++ message :: newer ++ [last])
      (announced : message.Announced length) (cursor : message.m_curPos = 4 + length)
      (more : length < got)

namespace Control

variable {length got : Nat} {older : List NetMessage} {control next : Control} {event : Event}

theorem Honouring.honours (honouring : control.Honouring length older got) :
    control.Honours length older got := by
  cases honouring with
  | failed failed => exact Or.inl failed
  | body message list announced cursor incomplete running =>
      refine Or.inr ⟨message, [], list, announced.size, announced.headSize, ?_, fun _ => rfl,
        fun _ => running, fun all => absurd all incomplete.ne⟩
      rw [announced.isEnd_iff, cursor]
      omega
  | complete message list announced cursor all running outside =>
      refine Or.inr ⟨message, [], list, announced.size, announced.headSize, ?_, fun _ => rfl,
        fun _ => running, fun _ inRecv => absurd inRecv outside⟩
      rw [announced.isEnd_iff, cursor]
      omega
  | next message next list announced cursor all running inRecv fresh =>
      refine Or.inr ⟨message, [next], list, announced.size, announced.headSize, ?_,
        fun fewer => absurd all fewer.ne, fun _ => running, fun _ _ => ⟨next, rfl, fresh⟩⟩
      rw [announced.isEnd_iff, cursor]
      omega
  | later message last newer list announced cursor more =>
      refine Or.inr ⟨message, newer ++ [last], ?_, announced.size, announced.headSize, ?_,
        fun fewer => absurd more fewer.not_gt, fun atMost => absurd more atMost.not_gt,
        fun all => absurd all more.ne'⟩
      · rw [list, List.append_assoc, List.cons_append]
      · rw [announced.isEnd_iff, cursor]
        omega

/-- A step outside of `Recv` that leaves the messages received alone. -/
theorem Honouring.of_same (honouring : control.Honouring length older got)
    (list : next.endpoint.manager.m_recvList = control.endpoint.manager.m_recvList)
    (failed : control.Failed → next.Failed) (here : ¬ control.InRecv) (there : ¬ next.InRecv)
    (running : ¬ next.IsAborted) : next.Honouring length older got := by
  cases honouring with
  | failed ended => exact .failed (failed ended)
  | body message same announced cursor incomplete =>
      exact .body message (list.trans same) announced cursor incomplete running
  | complete message same announced cursor all =>
      exact .complete message (list.trans same) announced cursor all running there
  | next message next same announced cursor all _ inRecv => exact absurd inRecv here
  | later message last newer same announced cursor more =>
      exact .later message last newer (list.trans same) announced cursor more

theorem not_failed_of_armed {point : Point} {endpoint : Endpoint}
    (armed : (Control.waiting point endpoint).Armed) : ¬ (waiting point endpoint).Failed := by
  rintro ⟨null, -⟩
  obtain ⟨⟨socket, present⟩, -⟩ := armed
  exact Option.some_ne_none socket (present.symm.trans null)

/-- `Update` goes on to a `Recv`. -/
theorem Honouring.recv {endpoint : Endpoint} (honouring : control.Honouring length older got)
    (list : endpoint.manager.m_recvList = control.endpoint.manager.m_recvList)
    (live : ¬ control.Failed) (here : ¬ control.InRecv) :
    (waiting .recv endpoint.pickMessage).Honouring length older got := by
  cases honouring with
  | failed ended => exact absurd ended live
  | body message same announced cursor incomplete =>
      have open_ : message.isEnd = false := by
        rw [Bool.eq_false_iff, Ne, announced.isEnd_iff, cursor]
        omega
      rw [Endpoint.pickMessage_of_open (list.trans same) open_]
      exact .body message (list.trans same) announced cursor incomplete id
  | complete message same announced cursor all =>
      have ended : message.isEnd = true := announced.isEnd_iff.mpr cursor
      rw [Endpoint.pickMessage_of_ended (list.trans same) ended]
      refine .next message (NetMessage.new 512 endpoint.process).1 ?_ announced cursor all id
        trivial
        ⟨rfl, rfl, rfl, rfl⟩
      change endpoint.pushNewMessage.manager.m_recvList = _
      rw [Endpoint.pushNewMessage_recvList, list, same, List.append_assoc, List.cons_append,
        List.nil_append]
  | next message next same announced cursor all _ inRecv => exact absurd inRecv here
  | later message last newer same announced cursor more =>
      by_cases ended : last.isEnd = true
      · rw [Endpoint.pickMessage_of_ended (list.trans same) ended]
        refine .later message (NetMessage.new 512 endpoint.process).1 (newer ++ [last]) ?_ announced
          cursor more
        change endpoint.pushNewMessage.manager.m_recvList = _
        rw [Endpoint.pushNewMessage_recvList, list, same]
        simp only [List.append_assoc, List.cons_append, List.nil_append]
      · rw [Endpoint.pickMessage_of_open (list.trans same) (Bool.eq_false_of_not_eq_true ended)]
        exact .later message last newer (list.trans same) announced cursor more

/-- A `Recv` beyond the announced body, whatever it leads to. -/
theorem Honouring.beyond {endpoint : Endpoint} {bytes : List UInt8} {message last : NetMessage}
    {newer : List NetMessage}
    (list : endpoint.manager.m_recvList = older ++ message :: newer ++ [last])
    (announced : message.Announced length) (cursor : message.m_curPos = 4 + length)
    (atLeast : length ≤ got) (nonempty : bytes ≠ [])
    (resumed : endpoint.resume .recv (.recv bytes) = some next) :
    next.Honouring length older (got + bytes.length) := by
  have more : length < got + bytes.length := by
    have some_ := List.length_pos_iff.mpr nonempty
    omega
  rcases Endpoint.resume_recv list nonempty resumed with ⟨reason, -, rfl⟩ |
    ⟨filled, -, ⟨reason, -, rfl⟩ | ⟨after, process, -, rfl⟩⟩
  · exact .later message last newer list announced cursor more
  · exact .later message last newer list announced cursor more
  · exact .later message after newer rfl announced cursor more

/-- A `Recv` with bytes. -/
theorem Honouring.received {endpoint : Endpoint} {bytes : List UInt8}
    (honouring : (waiting .recv endpoint).Honouring length older got)
    (armed : (waiting .recv endpoint).Armed) (nonempty : bytes ≠ [])
    (receives : (waiting .recv endpoint).Receives (.reply (.recv bytes)))
    (resumed : endpoint.resume .recv (.recv bytes) = some next) :
    next.Honouring length older (got + bytes.length) := by
  cases honouring with
  | failed ended => exact absurd ended (not_failed_of_armed armed)
  | complete message list announced cursor all running outside => exact absurd trivial outside
  | next message next list announced cursor all running inRecv fresh =>
      have split_ : endpoint.manager.m_recvList = older ++ message :: [] ++ [next] := by
        rw [List.append_assoc]
        exact list
      exact Honouring.beyond split_ announced cursor all.ge nonempty resumed
  | later message last newer list announced cursor more =>
      exact Honouring.beyond list announced cursor more.le nonempty resumed
  | body message list announced cursor incomplete running =>
      have asked := receives message (by
        change message ∈ endpoint.manager.m_recvList.getLast?
        rw [show endpoint.manager.m_recvList = older ++ [message] from list,
          List.getLast?_concat]
        rfl)
      rw [announced.getReadCap_eq cursor incomplete.le] at asked
      have within : got + bytes.length ≤ length := by omega
      obtain ⟨after, stored, received, kept, moved⟩ :=
        announced.receive cursor within endpoint.process
      rcases Endpoint.resume_recv list nonempty resumed with ⟨reason, refused, -⟩ |
        ⟨filled, stored', ⟨reason, refused, -⟩ | ⟨after', process, received', rfl⟩⟩
      · cases stored.symm.trans refused
      · cases stored.symm.trans stored'
        cases received.symm.trans refused
      · cases stored.symm.trans stored'
        cases received.symm.trans received'
        rcases within.lt_or_eq with below | all
        · exact .body after rfl kept moved below id
        · rw [all] at moved ⊢
          exact .complete after rfl kept moved rfl id id

/-- A call on a manager that is in no `Update`. -/
theorem Honouring.call {endpoint : Endpoint}
    (honouring : (idle endpoint).Honouring length older got)
    (receives : (idle endpoint).Receives event) (called : endpoint.call event = some next) :
    next.Honouring length older got := by
  cases event with
  | Update dt =>
      rcases Endpoint.call_Update called with rfl | ⟨rfl, socket, present⟩
      · exact honouring
      · refine honouring.of_same rfl (fun failed => ?_) id id id
        exact absurd (present.symm.trans failed.1) (Option.some_ne_none socket)
  | SendMsg message =>
      cases called
      exact honouring.of_same rfl id id id id
  | InitEncrypt =>
      cases called
      exact honouring.of_same rfl id id id id
  | reply reply => cases called
  | _ => exact absurd receives id

/-- **One step** while a message of an announced length is received. -/
theorem Honouring.step (honouring : control.Honouring length older got) (armed : control.Armed)
    (receives : control.Receives event)
    (stepped : Endpoint.machine.step control event = some next) :
    next.Honouring length older (got + event.piece.length) := by
  rcases Endpoint.step_cases stepped with ⟨endpoint, rfl, called⟩ |
    ⟨point, endpoint, reply, rfl, rfl, resumed⟩
  · cases event with
    | reply reply => cases called
    | _ => exact honouring.call receives called
  · have live := not_failed_of_armed armed
    have failed {code : NetErrorCode} : (idle (endpoint.OnError code)).Failed :=
      ⟨Endpoint.OnError_socket code endpoint, rfl⟩
    rcases Endpoint.resume_cases resumed with ⟨answer, rfl, continues⟩ | ⟨sizeSended, rfl, rfl⟩ |
      ⟨bytes, rfl, rfl, nonempty⟩ | ⟨rfl, ends⟩
    · change next.Honouring length older got
      obtain ⟨⟨socket, present⟩, -⟩ := armed
      have outside : ¬ (waiting point endpoint).InRecv := by
        cases point with
        | recv => cases resumed
        | _ => exact id
      by_cases fails : answer.failed = true
      · obtain ⟨after, null, state, ⟨dt, -, rfl⟩ | ⟨-, rfl⟩⟩ :=
          Endpoint.resume_select_failed fails present resumed
        · exact .failed ⟨null, state⟩
        · exact .failed ⟨null, state⟩
      · have running := Endpoint.resume_select_ne_aborted (Bool.eq_false_iff.mpr fails) present
          resumed
        have never : ¬ (waiting point endpoint).Failed := live
        cases continues with
        | returned same =>
            exact honouring.of_same same.recvList (fun ended => absurd ended never) outside id id
        | crashed same null => exact absurd rfl (running _ _)
        | recv same => exact honouring.recv same.recvList never outside
        | send same =>
            exact honouring.of_same same.recvList (fun ended => absurd ended never) outside id id
        | sent same =>
            exact honouring.of_same same.recvList (fun ended => absurd ended never) outside id id
    · change next.Honouring length older got
      obtain ⟨-, message, rest, front, -⟩ := armed
      rcases Endpoint.resume_send front resumed with ⟨-, rfl⟩ | ⟨-, ⟨-, rfl⟩ | ⟨-, rfl⟩⟩
      · exact .failed failed
      · exact honouring.of_same rfl (fun ended => absurd ended live) id id id
      · exact honouring.of_same rfl (fun ended => absurd ended live) id id id
    · exact honouring.received armed nonempty receives resumed
    · obtain ⟨-, older, message, back, -⟩ := armed
      rw [Endpoint.resume_recv_closed back ends resumed]
      exact .failed failed

end Control

/-! ## Announcements -/

section

variable {endpoint : Endpoint} {older : List NetMessage} {message : NetMessage}
  {header : List UInt8} {next : Control}

/-- The announcement of a length that doubling reaches. -/
theorem NetMessage.Marked.honouring (marked : message.Marked)
    (back : endpoint.manager.m_recvList = older ++ [message]) (whole : header.length = 4)
    (reaches : message.m_buffer.Reaches (4 + bigEndian header) endpoint.process)
    (stepped : Endpoint.machine.step (.waiting .recv endpoint) (.reply (.recv header)) =
      some next) :
    next.Honouring (bigEndian header) older 0 := by
  have nonempty : header ≠ [] := List.ne_nil_of_length_pos (by omega)
  have stored := (marked.receive whole endpoint.process).1
  obtain ⟨after, requests, received, announced, cursor⟩ := marked.announced whole reaches
  rcases Endpoint.resume_recv back nonempty stepped with ⟨reason, refused, -⟩ |
    ⟨filled, stored', ⟨reason, refused, -⟩ | ⟨after', process, received', rfl⟩⟩
  · cases stored.symm.trans refused
  · cases stored.symm.trans stored'
    cases received.symm.trans refused
  · cases stored.symm.trans stored'
    cases received.symm.trans received'
    by_cases empty : bigEndian header = 0
    · rw [empty] at announced ⊢
      exact .complete after rfl announced cursor rfl id id
    · exact .body after rfl announced cursor (Nat.pos_of_ne_zero empty) id

/-- Four more bytes are asked for. -/
theorem NetMessage.Marked.receives (marked : message.Marked)
    (back : endpoint.manager.m_recvList = older ++ [message]) (whole : header.length = 4) :
    (Control.waiting .recv endpoint).Receives (.reply (.recv header)) := by
  intro other last
  change other ∈ endpoint.manager.m_recvList.getLast? at last
  rw [back, List.getLast?_concat, Option.mem_some_iff] at last
  have unknown : ¬ (0 : Int) ≤ message.m_size ∧ message.m_size ≠ -1 := by
    have size := marked.size
    omega
  rw [← last, NetMessage.getReadCap, if_neg unknown.1, if_neg unknown.2]
  omega

/-- A manager with a socket whose last message is not the announced one. -/
theorem Control.not_honours_of_size (control : Control) {length got : Nat} {socket : CSocketCommon}
    (present : control.endpoint.manager.m_pSocket = some socket)
    (back : control.endpoint.manager.m_recvList = older ++ [message])
    (other : message.m_size ≠ length) : ¬ control.Honours length older got := by
  rintro (⟨null, -⟩ | ⟨message', newer, list, size, -⟩)
  · cases present.symm.trans null
  · cases List.append_cancel_left (back.symm.trans list)
    exact other size

/-- A length that doubling does not reach, with `int` sums that do not overflow:
the buffer is doubled for ever. -/
theorem NetMessage.Marked.endless_step (marked : message.Marked)
    (back : endpoint.manager.m_recvList = older ++ [message]) (whole : header.length = 4)
    (small : bigEndian header < 2147483644)
    (out : ¬ message.m_buffer.Reaches (4 + bigEndian header) endpoint.process) :
    Endpoint.machine.step (.waiting .recv endpoint) (.reply (.recv header)) =
      some (.aborted .endless endpoint) := by
  have nonempty : header ≠ [] := List.ne_nil_of_length_pos (by omega)
  have stored := (marked.receive whole endpoint.process).1
  have endless := marked.endless whole small out
  obtain ⟨next, stepped⟩ : ∃ next,
      Endpoint.machine.step (.waiting .recv endpoint) (.reply (.recv header)) = some next :=
    ⟨_, rfl⟩
  rw [stepped]
  rcases Endpoint.resume_recv back nonempty stepped with ⟨reason, refused, -⟩ |
    ⟨filled, stored', ⟨reason, refused, rfl⟩ | ⟨after, process, received, -⟩⟩
  · cases stored.symm.trans refused
  · cases stored.symm.trans stored'
    cases endless.symm.trans refused
    rfl
  · cases stored.symm.trans stored'
    cases endless.symm.trans received

/-- The message that has taken a length which overflows. -/
def NetMessage.overflowing (header : List UInt8) (message : NetMessage) : NetMessage :=
  { message.filled header with m_size := int32 (bigEndian header), m_curPos := 4 }

theorem NetMessage.overflowing_fields (header : List UInt8) (message : NetMessage) :
    (message.overflowing header).m_size = int32 (bigEndian header) ∧
      (message.overflowing header).m_curPos = 4 ∧
        (message.overflowing header).m_headSize = message.m_headSize ∧
          (message.overflowing header).m_bufStartPos = message.m_bufStartPos ∧
            (message.overflowing header).m_buffer.m_size = message.m_buffer.m_size := by
  unfold overflowing filled
  refine ⟨?_, ?_, ?_, ?_, ?_⟩
  all_goals with_reducible rfl

/-- The manager whose last message has taken it. -/
def Endpoint.overflowing (older : List NetMessage) (message : NetMessage) (header : List UInt8)
    (endpoint : Endpoint) : Endpoint :=
  { endpoint with
    manager := { endpoint.manager with m_recvList := older ++ [message.overflowing header] } }

/-- A length that overflows is taken without an error. -/
theorem NetMessage.Marked.overflowing_step (marked : message.Marked)
    (back : endpoint.manager.m_recvList = older ++ [message]) (whole : header.length = 4)
    (large : 2147483644 ≤ bigEndian header) :
    Endpoint.machine.step (.waiting .recv endpoint) (.reply (.recv header)) =
      some (.waiting .checkRecv (endpoint.overflowing older message header)) := by
  have nonempty : header ≠ [] := List.ne_nil_of_length_pos (by omega)
  have stored := (marked.receive whole endpoint.process).1
  have taken := marked.overflows whole large endpoint.process
  obtain ⟨next, stepped⟩ : ∃ next,
      Endpoint.machine.step (.waiting .recv endpoint) (.reply (.recv header)) = some next :=
    ⟨_, rfl⟩
  rw [stepped]
  rcases Endpoint.resume_recv back nonempty stepped with ⟨reason, refused, -⟩ |
    ⟨filled, stored', ⟨reason, refused, -⟩ | ⟨after, process, received, rfl⟩⟩
  · cases stored.symm.trans refused
  · cases stored.symm.trans stored'
    cases taken.symm.trans refused
  · cases stored.symm.trans stored'
    cases taken.symm.trans received
    rfl

/-- A length from `2 ^ 31 - 4` on that stays positive: the message is not complete
at any length, and the next `Recv` may store beyond the buffer. -/
theorem NetMessage.Marked.overrun (marked : message.Marked) (older : List NetMessage)
    {socket : CSocketCommon}
    (present : endpoint.manager.m_pSocket = some socket)
    (large : 2147483644 ≤ bigEndian header) (positive : bigEndian header < 2147483648)
    {bytes : List UInt8} (length : (bytes.length : Int) = message.m_buffer.m_size - 3) :
    ∃ final,
      Endpoint.machine.Meets Control.Receives
          (.waiting .checkRecv (endpoint.overflowing older message header))
          [.reply (.select .readable), .reply (.recv bytes)] ∧
        Endpoint.machine.run (.waiting .checkRecv (endpoint.overflowing older message header))
          [.reply (.select .readable), .reply (.recv bytes)] = some final ∧
        final.IsAborted ∧ ¬ final.Failed ∧
          final.endpoint.manager.m_recvList = older ++ [message.overflowing header] := by
  obtain ⟨-, head, origin, -, room, ranged⟩ := marked
  unfold MemBuffer.Ranged at ranged
  have nonempty : bytes ≠ [] := List.ne_nil_of_length_pos (by omega)
  obtain ⟨size, cursor, headSize, start, capacity⟩ := message.overflowing_fields header
  rw [int32_of_range (by omega) (by omega)] at size
  rw [head] at headSize
  rw [origin] at start
  have known : 0 ≤ (message.overflowing header).m_size := by omega
  have open_ : (message.overflowing header).isEnd = false := by
    have wrapped : ¬ (4 : Int) = int32 (bigEndian header + 4 + 0) := by
      unfold int32
      omega
    rw [NetMessage.isEnd, if_neg (not_lt.mpr known), size, cursor, headSize, start]
    exact decide_eq_false wrapped
  let flagged : Endpoint := (endpoint.overflowing older message header).modify fun manager =>
    { manager with m_pSocket := some { socket with m_writeFlag := false, m_readFlag := true } }
  have list : flagged.manager.m_recvList = older ++ [message.overflowing header] := rfl
  have first : Endpoint.machine.step
      (.waiting .checkRecv (endpoint.overflowing older message header))
      (.reply (.select .readable)) = some (.waiting .recv flagged) := by
    change some ((endpoint.overflowing older message header).checkStateThen .readable
      Endpoint.recvLoop) = _
    have there : (endpoint.overflowing older message header).manager.m_pSocket = some socket :=
      present
    have quiet : SelectReply.readable.failed = false := rfl
    rw [Endpoint.checkStateThen, Endpoint.CheckState_of_not_failed quiet there]
    change some (Control.waiting .recv flagged.pickMessage) = _
    rw [Endpoint.pickMessage_of_open list open_]
  obtain ⟨final, second⟩ : ∃ final,
      Endpoint.machine.step (.waiting .recv flagged) (.reply (.recv bytes)) = some final :=
    ⟨_, rfl⟩
  have refused : (message.overflowing header).storeAtCursor bytes = .error .overrun := by
    have beyond : ¬ (0 ≤ (4 : Int) ∧
        (4 : Int) + bytes.length ≤ (message.overflowing header).m_buffer.m_size) := by
      omega
    rw [NetMessage.storeAtCursor, MemBuffer.store, cursor, if_neg beyond]
    rfl
  have back : flagged.manager.m_recvList = older ++ [message.overflowing header] := rfl
  refine ⟨final, ?_, ?_, ?_⟩
  · rw [Machine.meets_cons_of_step first, Machine.meets_cons_of_step second]
    refine ⟨trivial, ?_, trivial⟩
    intro other last
    change other ∈ flagged.manager.m_recvList.getLast? at last
    rw [back, List.getLast?_concat, Option.mem_some_iff] at last
    rw [← last, NetMessage.getReadCap, if_pos known, size, cursor, headSize,
      int32_of_range (by omega) (by omega)]
    omega
  · rw [Machine.run_cons, first, Option.bind_some, Machine.run_cons, second]
    rfl
  · rcases Endpoint.resume_recv back nonempty second with ⟨reason, -, rfl⟩ |
      ⟨filled, stored, -⟩
    · exact ⟨trivial, fun ended => Option.some_ne_none _ ended.1, back⟩
    · cases refused.symm.trans stored

/-- A length that doubling does not reach is neither honoured nor refused. -/
theorem NetMessage.Marked.not_honours (marked : message.Marked) {socket : CSocketCommon}
    (present : endpoint.manager.m_pSocket = some socket)
    (back : endpoint.manager.m_recvList = older ++ [message]) (whole : header.length = 4)
    (out : ¬ message.m_buffer.Reaches (4 + bigEndian header) endpoint.process) :
    ∃ events final,
      Endpoint.machine.Meets Control.Receives (.waiting .recv endpoint)
          (.reply (.recv header) :: events) ∧
        Endpoint.machine.run (.waiting .recv endpoint) (.reply (.recv header) :: events) =
          some final ∧
        ¬ final.Honours (bigEndian header) older (received events).flatten.length := by
  have admitted := marked.receives back whole
  have ranged := marked.ranged
  have room := marked.room
  unfold MemBuffer.Ranged at ranged
  by_cases small : bigEndian header < 2147483644
  · have stepped := marked.endless_step back whole small out
    refine ⟨[], .aborted .endless endpoint, ?_, ?_, ?_⟩
    · exact (Machine.meets_cons_of_step stepped).mpr ⟨admitted, trivial⟩
    · rw [Machine.run_cons, stepped]
      rfl
    · apply Control.not_honours_of_size (.aborted .endless endpoint) present back
      have size := marked.size
      omega
  · have stepped := marked.overflowing_step back whole (not_lt.mp small)
    by_cases positive : bigEndian header < 2147483648
    · have length : ((List.replicate (message.m_buffer.m_size - 3).toNat (0 : UInt8)).length : Int) =
          message.m_buffer.m_size - 3 := by
        rw [List.length_replicate]
        omega
      obtain ⟨final, meets, reached, aborted, live, list⟩ :=
        marked.overrun older present (not_lt.mp small) positive length
      refine ⟨[.reply (.select .readable), .reply (.recv (List.replicate
        (message.m_buffer.m_size - 3).toNat (0 : UInt8)))], final, ?_, ?_, ?_⟩
      · exact (Machine.meets_cons_of_step stepped).mpr ⟨admitted, meets⟩
      · rw [Machine.run_cons, stepped]
        exact reached
      · have got : (received [.reply (.select .readable), .reply (.recv (List.replicate
            (message.m_buffer.m_size - 3).toNat (0 : UInt8)))]).flatten.length =
              (message.m_buffer.m_size - 3).toNat := by
          simp [received, Event.pieces]
        rw [got]
        rintro (failed | ⟨message', newer, -, -, -, -, -, running, -⟩)
        · exact live failed
        · exact running (by omega) aborted
    · refine ⟨[], .waiting .checkRecv (endpoint.overflowing older message header), ?_, ?_, ?_⟩
      · exact (Machine.meets_cons_of_step stepped).mpr ⟨admitted, trivial⟩
      · rw [Machine.run_cons, stepped]
        rfl
      · apply Control.not_honours_of_size
          (.waiting .checkRecv (endpoint.overflowing older message header)) present rfl
        change int32 (bigEndian header) ≠ bigEndian header
        unfold int32
        omega

end

/-- The bytes of a 32-bit number make it. -/
theorem bigEndian_uint32 (v : UInt32) : bigEndian (bigEndianBytes 4 v.toNat) = v.toNat :=
  bigEndian_bigEndianBytes v.toNat_lt

/-- **Announced lengths.** While `Update` waits for the four bytes behind a marker,
every number that they can make is honoured or refused in all that follows exactly
if doubling reaches header and body. -/
theorem Control.honours_iff {endpoint : Endpoint} {older : List NetMessage} {message : NetMessage}
    {socket : CSocketCommon} (present : endpoint.manager.m_pSocket = some socket)
    (back : endpoint.manager.m_recvList = older ++ [message]) (marked : message.Marked)
    (v : UInt32) :
    (∀ events final,
      Endpoint.machine.Meets Control.Receives (.waiting .recv endpoint)
          (.reply (.recv (bigEndianBytes 4 v.toNat)) :: events) →
        Endpoint.machine.run (.waiting .recv endpoint)
            (.reply (.recv (bigEndianBytes 4 v.toNat)) :: events) = some final →
          final.Honours v.toNat older (received events).flatten.length) ↔
      message.m_buffer.Reaches (4 + v.toNat) endpoint.process := by
  have whole : (bigEndianBytes 4 v.toNat).length = 4 := length_bigEndianBytes 4 v.toNat
  have value := bigEndian_uint32 v
  constructor
  · intro honours
    by_contra out
    rw [← value] at out
    obtain ⟨events, final, meets, reached, fails⟩ := marked.not_honours present back whole out
    rw [value] at fails
    exact fails (honours events final meets reached)
  · intro reaches events final meets reached
    rw [← value] at reaches ⊢
    obtain ⟨next, stepped, rest⟩ := Machine.run_cons_eq_some.mp reached
    have first := marked.honouring back whole reaches stepped
    have armed : (Control.waiting .recv endpoint).Armed := by
      refine ⟨⟨socket, present⟩, older, message, back, ?_⟩
      have unknown : message.m_size < 0 := by
        have size := marked.size
        omega
      rw [NetMessage.isEnd, if_pos unknown]
    have holds := Machine.emit_invariant Event.pieces
      (fun pieces control => control.Honouring (bigEndian (bigEndianBytes 4 v.toNat)) older
        pieces.flatten.length ∧ control.Armed)
      (fun pieces control event next receives holds stepped => by
        refine ⟨?_, holds.2.step stepped⟩
        rw [List.flatten_append, List.length_append, event.flatten_pieces]
        exact holds.1.step holds.2 receives stepped)
      ((Machine.meets_cons_of_step stepped).mp meets).2 rest ⟨first, armed.step stepped⟩
    exact holds.1.honours

/-- A manager whose only message has read its marker. -/
def Endpoint.atMarker : Endpoint where
  process := (NetMessage.new 512 .fresh).2
  manager := { Endpoint.justConnected.manager with
    m_recvList := [{ (NetMessage.new 512 .fresh).1 with m_size := -2, m_headSize := 4 }] }

instance (control : Control) : DecidablePred control.Receives
  | .Update _ | .SendMsg _ | .InitEncrypt => .isTrue trivial
  | .reply (.recv bytes) => inferInstanceAs (Decidable
      (∀ message ∈ control.endpoint.manager.m_recvList.getLast?,
        bytes.length ≤ message.getReadCap))
  | .reply (.select _) | .reply (.send _) | .reply .recvFailed => .isTrue trivial
  | .Connect _ _ _ | .ReConnect _ | .Close | .CloseConnection | .LoadMsg => .isFalse id

/-- A length of two, and a body in two pieces. -/
theorem Control.honours_of_atMarker :
    ∃ final, Endpoint.machine.run (.waiting .recv .atMarker)
        (.reply (.recv [0, 0, 0, 2]) :: [.select .readable, .recv [65], .select .readable,
          .recv [66], .select .readable].map .reply) = some final ∧
      final.Honours 2 [] 2 := by
  have runs : (Endpoint.machine.run (.waiting .recv .atMarker)
      (.reply (.recv [0, 0, 0, 2]) :: [Reply.select .readable, .recv [65], .select .readable,
        .recv [66], .select .readable].map .reply)).isSome = true := by decide
  obtain ⟨final, reached⟩ := Option.isSome_iff_exists.mp runs
  refine ⟨final, reached, ?_⟩
  have honours := @Control.honours_iff .atMarker [] _ _ rfl rfl
    ⟨rfl, rfl, rfl, rfl, by decide, by decide⟩ 2
  have granted : ∀ request < 0,
      Endpoint.atMarker.process.grants (Endpoint.atMarker.process.requests + request) = true :=
    fun _ below => absurd below (Nat.not_lt_zero _)
  exact honours.mpr ⟨0, by decide, by decide, granted⟩ _ final (by decide) reached

/-- The peer announces `2 ^ 32 - 3`. -/
def announcing : List Event :=
  establishing ++ [.Update 1, .reply (.select .readable), .reply (.recv [255, 255]),
    .reply (.select .readable), .reply (.recv [255, 255, 255, 253])]

/-- The connection goes on, and the size is negative. -/
theorem Control.not_honours_of_announcing :
    ∃ final, Endpoint.machine.run (.idle (.new .fresh)) announcing = some final ∧
      ¬ final.Honours 4294967293 [] 0 := by
  have ran : (Endpoint.machine.run (.idle (.new .fresh)) announcing).map (fun control =>
      (control.endpoint.manager.m_pSocket.isSome,
        control.endpoint.manager.m_recvList.map NetMessage.m_size)) = some (true, [-3]) := by
    decide
  obtain ⟨final, reached, shows⟩ := Option.map_eq_some_iff.mp ran
  obtain ⟨open_, sizes⟩ := Prod.mk.inj shows
  refine ⟨final, reached, ?_⟩
  obtain ⟨socket, present⟩ := Option.isSome_iff_exists.mp open_
  rintro (⟨null, -⟩ | ⟨message, newer, list, size, -⟩)
  · cases present.symm.trans null
  · rw [list, List.nil_append, List.map_cons] at sizes
    have negative := (List.cons.inj sizes).1
    omega

end EngSocket
