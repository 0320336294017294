import EngSocket.Connection.Update

/-!
# What a step can do

`Update` touches messages at four places only: the `Send` at the front of
`m_sendList`, the deletion that follows, the choice of the message for a `Recv`,
and the `Recv`. `Endpoint.Continues` lists what can happen from an answer of
`select` to the next call, and the theorems about `resume` say the same of the
other answers, so that an invariant of the messages needs no more than these
cases.
-/

namespace EngSocket

open Foundation

/-- The manager between two calls. -/
def Control.returned : Control → Option Endpoint
  | .idle endpoint => some endpoint
  | .waiting _ _ | .aborted _ _ => none

theorem Control.eq_idle_of_returned {control : Control} {endpoint : Endpoint}
    (returned : control.returned = some endpoint) : control = .idle endpoint := by
  cases control with
  | idle after => exact congrArg Control.idle (Option.some.inj returned)
  | waiting point after => cases returned
  | aborted reason after => cases returned

theorem toOption_eq_some {Value Failure : Type} {result : Except Failure Value} {value : Value}
    (returned : result.toOption = some value) : result = .ok value := by
  cases result with
  | error reason => cases returned
  | ok other => exact congrArg Except.ok (Option.some.inj returned)

/-- Nothing but the socket, the state, the timer, the flags and the table of
descriptors differs. -/
structure Endpoint.SameMessages (before after : Endpoint) : Prop where
  sendList : after.manager.m_sendList = before.manager.m_sendList
  recvList : after.manager.m_recvList = before.manager.m_recvList
  port : after.manager.m_port = before.manager.m_port
  process : ∃ descriptors, after.process = { before.process with descriptors }

namespace Endpoint

variable {endpoint : Endpoint}

theorem SameMessages.refl (endpoint : Endpoint) : endpoint.SameMessages endpoint :=
  ⟨rfl, rfl, rfl, endpoint.process.descriptors, rfl⟩

/-- What two calls leave alone both of them leave alone. -/
theorem SameMessages.trans {first second third : Endpoint} (earlier : first.SameMessages second)
    (later : second.SameMessages third) : first.SameMessages third where
  sendList := later.sendList.trans earlier.sendList
  recvList := later.recvList.trans earlier.recvList
  port := later.port.trans earlier.port
  process := by
    obtain ⟨descriptors, process⟩ := later.process
    obtain ⟨middle, process'⟩ := earlier.process
    exact ⟨descriptors, by rw [process, process']⟩

theorem Close_of_null (null : endpoint.manager.m_pSocket = none) :
    endpoint.Close = endpoint.modify fun manager => { manager with m_encryptInited := false } := by
  simp only [Close, modify, null]

theorem Close_of_socket {socket : CSocketCommon}
    (present : endpoint.manager.m_pSocket = some socket) :
    endpoint.Close = (endpoint.CloseSocket socket).modify fun manager =>
      { manager with
        m_encryptInited := false, m_pSocket := none, m_netState := .Disconnected } := by
  simp only [Close, modify, CloseSocket, present]

/-- `Close` leaves the messages alone. -/
theorem Close_same (endpoint : Endpoint) : endpoint.SameMessages endpoint.Close := by
  cases present : endpoint.manager.m_pSocket with
  | none =>
      rw [Close_of_null present]
      exact ⟨rfl, rfl, rfl, _, rfl⟩
  | some socket =>
      rw [Close_of_socket present]
      exact ⟨rfl, rfl, rfl, _, rfl⟩

@[simp] theorem Close_socket (endpoint : Endpoint) : endpoint.Close.manager.m_pSocket = none := by
  cases present : endpoint.manager.m_pSocket with
  | none => rw [Close_of_null present, modify, present]
  | some socket => rw [Close_of_socket present, modify]

/-- `OnError` leaves the messages alone. -/
theorem OnError_same (code : NetErrorCode) (endpoint : Endpoint) :
    endpoint.SameMessages (endpoint.OnError code) :=
  endpoint.Close_same.trans ⟨rfl, rfl, rfl, _, rfl⟩

@[simp] theorem OnError_socket (code : NetErrorCode) (endpoint : Endpoint) :
    (endpoint.OnError code).manager.m_pSocket = none := endpoint.Close_socket

@[simp] theorem OnError_state (code : NetErrorCode) (endpoint : Endpoint) :
    (endpoint.OnError code).GetState = .ConnectError := rfl

/-- `OnTimeOut` leaves the messages alone. -/
theorem OnTimeOut_same (endpoint : Endpoint) : endpoint.SameMessages endpoint.OnTimeOut :=
  endpoint.Close_same.trans ⟨rfl, rfl, rfl, _, rfl⟩

/-- A `select` that fails closes the socket and records the error. -/
theorem CheckState_of_failed {reply : SelectReply} (failed : reply.failed = true)
    {socket : CSocketCommon} (present : endpoint.manager.m_pSocket = some socket) :
    ∃ after, endpoint.CheckState reply = .ok (false, after) ∧ endpoint.SameMessages after ∧
      after.manager.m_pSocket = none ∧ after.GetState = .ConnectError := by
  let quieted : Endpoint := endpoint.modify fun manager =>
    { manager with m_pSocket := some { socket with m_writeFlag := false, m_readFlag := false } }
  have same : endpoint.SameMessages quieted := ⟨rfl, rfl, rfl, _, rfl⟩
  have reported (code : NetErrorCode) : endpoint.SameMessages (quieted.OnError code) ∧
      (quieted.OnError code).manager.m_pSocket = none ∧
        (quieted.OnError code).GetState = .ConnectError :=
    ⟨same.trans (OnError_same code quieted), OnError_socket code quieted, rfl⟩
  simp only [CheckState, present, failed, ↓reduceIte]
  split
  · exact ⟨_, rfl, reported .ConnectToServer⟩
  · exact ⟨_, rfl, reported .Select⟩

/-- A `select` that succeeds sets the two flags of the socket. -/
theorem CheckState_of_not_failed {reply : SelectReply} (succeeded : reply.failed = false)
    {socket : CSocketCommon} (present : endpoint.manager.m_pSocket = some socket) :
    endpoint.CheckState reply =
      .ok (true, endpoint.modify fun manager => { manager with
        m_pSocket := some { socket with
          m_writeFlag := reply.write, m_readFlag := reply.read } }) := by
  simp only [CheckState, present, succeeded, Bool.false_eq_true, ↓reduceIte]

/-- `CheckState` calls a method of the socket without a test. -/
theorem CheckState_of_null (reply : SelectReply) (null : endpoint.manager.m_pSocket = none) :
    endpoint.CheckState reply = .error .nullSocket := by
  simp only [CheckState, null]

/-- The endpoint once its front message has been deleted and popped. -/
def popSent (message : NetMessage) (rest : List NetMessage) (endpoint : Endpoint) : Endpoint where
  process := message.delete endpoint.process
  manager := { endpoint.manager with m_sendList := rest }

/-- What `Update` does from an endpoint to its next call or its return, when it
starts by looking at the flags. -/
inductive Continues (endpoint : Endpoint) : Control → Prop
  | returned {after : Endpoint} (same : endpoint.SameMessages after) :
      Continues endpoint (.idle after)
  | crashed {after : Endpoint} (same : endpoint.SameMessages after)
      (null : after.manager.m_pSocket = none) : Continues endpoint (.aborted .nullSocket after)
  | recv {after : Endpoint} (same : endpoint.SameMessages after) (socket : CSocketCommon)
      (present : after.manager.m_pSocket = some socket) :
      Continues endpoint (.waiting .recv after.pickMessage)
  | send {after : Endpoint} (same : endpoint.SameMessages after) (socket : CSocketCommon)
      (present : after.manager.m_pSocket = some socket) (message : NetMessage)
      (rest : List NetMessage) (front : after.manager.m_sendList = message :: rest)
      (unsent : message.isEnd = false) : Continues endpoint (.waiting .send after)
  | sent {after : Endpoint} (same : endpoint.SameMessages after) (socket : CSocketCommon)
      (present : after.manager.m_pSocket = some socket) (message : NetMessage)
      (rest : List NetMessage) (front : after.manager.m_sendList = message :: rest)
      (complete : message.isEnd = true) :
      Continues endpoint (.waiting .checkSend (after.popSent message rest))

theorem Continues.of_same {before after : Endpoint} {control : Control}
    (same : before.SameMessages after) (continues : after.Continues control) :
    before.Continues control := by
  cases continues with
  | returned later => exact .returned (same.trans later)
  | crashed later null => exact .crashed (same.trans later) null
  | recv later socket present => exact .recv (same.trans later) socket present
  | send later socket present message rest front unsent =>
      exact .send (same.trans later) socket present message rest front unsent
  | sent later socket present message rest front complete =>
      exact .sent (same.trans later) socket present message rest front complete

/-- The loop that receives waits for a `Recv`, or goes on to the one that sends. -/
theorem recvLoop_continues (endpoint : Endpoint) : endpoint.Continues endpoint.recvLoop := by
  unfold recvLoop
  cases present : endpoint.manager.m_pSocket with
  | none => exact .crashed (.refl endpoint) present
  | some socket =>
      simp only
      split
      · exact .recv (.refl endpoint) socket present
      · exact .returned (.refl endpoint)

/-- The loop that sends waits for a `Send`, or ends the `Update`. -/
theorem sendLoop_continues (endpoint : Endpoint) : endpoint.Continues endpoint.sendLoop := by
  unfold sendLoop
  cases present : endpoint.manager.m_pSocket with
  | none => exact .crashed (.refl endpoint) present
  | some socket =>
      simp only
      split
      · cases front : endpoint.manager.m_sendList with
        | nil => exact endpoint.recvLoop_continues
        | cons message rest =>
            simp only [sendMessage]
            cases ended : message.isEnd
            · have unchanged : { endpoint with manager := { endpoint.manager with
                  m_sendList := message :: rest } } = endpoint := by
                rw [← front]
              simp only [Bool.false_eq_true, ↓reduceIte, unchanged]
              exact .send (.refl endpoint) socket present message rest front ended
            · exact .sent (.refl endpoint) socket present message rest front ended
      · exact endpoint.recvLoop_continues

/-- A connection that is awaited ends the `Update` or waits for another `select`. -/
theorem awaitConnection_continues (dt : Int) (endpoint : Endpoint) :
    endpoint.Continues (endpoint.awaitConnection dt) := by
  unfold awaitConnection
  cases present : endpoint.manager.m_pSocket with
  | none => exact .crashed (.refl endpoint) present
  | some socket =>
      simp only
      split
      · split
        · exact .returned ⟨rfl, rfl, rfl, _, rfl⟩
        · exact .returned ⟨rfl, rfl, rfl, _, rfl⟩
      · split
        · refine .returned (SameMessages.trans ?_ (OnTimeOut_same _))
          exact ⟨rfl, rfl, rfl, _, rfl⟩
        · exact .returned ⟨rfl, rfl, rfl, _, rfl⟩

/-- `CheckState` followed by code that looks at the flags. A successful `select`
on a socket does not crash the code behind it, as long as that code itself
crashes only on the null pointer. -/
theorem checkStateThen_continues (reply : SelectReply) {next : Endpoint → Control}
    (continues : ∀ current : Endpoint, current.Continues (next current)) (endpoint : Endpoint) :
    endpoint.Continues (endpoint.checkStateThen reply next) := by
  unfold checkStateThen
  cases present : endpoint.manager.m_pSocket with
  | none =>
      rw [CheckState_of_null reply present]
      exact .crashed (.refl endpoint) present
  | some socket =>
      cases outcome : reply.failed with
      | true =>
          obtain ⟨after, checked, same, -⟩ := CheckState_of_failed outcome present
          rw [checked]
          exact (continues after).of_same same
      | false =>
          rw [CheckState_of_not_failed outcome present]
          refine Continues.of_same ?_ (continues _)
          exact ⟨rfl, rfl, rfl, _, rfl⟩

/-- An `Update` goes on as its state says. -/
theorem afterFirstCheck_continues (dt : Int) (endpoint : Endpoint) :
    endpoint.Continues (endpoint.afterFirstCheck dt) := by
  unfold afterFirstCheck
  split
  · exact .returned (.refl endpoint)
  · split
    · exact endpoint.awaitConnection_continues dt
    · exact endpoint.sendLoop_continues

/-- **An answer of `select`.** -/
theorem resume_select {point : Point} {reply : SelectReply} {control : Control}
    (resumed : endpoint.resume point (.select reply) = some control) :
    endpoint.Continues control := by
  cases point with
  | checkFirst dt =>
      cases resumed
      exact checkStateThen_continues reply (afterFirstCheck_continues dt) endpoint
  | send => cases resumed
  | checkSend =>
      cases resumed
      exact checkStateThen_continues reply sendLoop_continues endpoint
  | recv => cases resumed
  | checkRecv =>
      cases resumed
      exact checkStateThen_continues reply recvLoop_continues endpoint

/-- With a socket the loop that receives does not crash. -/
theorem recvLoop_ne_aborted {socket : CSocketCommon}
    (present : endpoint.manager.m_pSocket = some socket) (reason : Abort) (after : Endpoint) :
    endpoint.recvLoop ≠ .aborted reason after := by
  simp only [recvLoop, present]
  split <;> exact Control.noConfusion

/-- With a socket the loop that sends does not crash. -/
theorem sendLoop_ne_aborted {socket : CSocketCommon}
    (present : endpoint.manager.m_pSocket = some socket) (reason : Abort) (after : Endpoint) :
    endpoint.sendLoop ≠ .aborted reason after := by
  simp only [sendLoop, present]
  split
  · split
    · exact recvLoop_ne_aborted present reason after
    · unfold sendMessage
      split <;> exact Control.noConfusion
  · exact recvLoop_ne_aborted present reason after

theorem afterFirstCheck_ne_aborted {socket : CSocketCommon} (dt : Int)
    (present : endpoint.manager.m_pSocket = some socket) (reason : Abort) (after : Endpoint) :
    endpoint.afterFirstCheck dt ≠ .aborted reason after := by
  simp only [afterFirstCheck, awaitConnection, present]
  split
  · exact Control.noConfusion
  · split
    · split <;> split <;> exact Control.noConfusion
    · exact sendLoop_ne_aborted present reason after

/-- A successful `select` on a socket which is there leads to no null pointer. -/
theorem resume_select_ne_aborted {point : Point} {reply : SelectReply} {control : Control}
    {socket : CSocketCommon} (succeeded : reply.failed = false)
    (present : endpoint.manager.m_pSocket = some socket)
    (resumed : endpoint.resume point (.select reply) = some control) (reason : Abort)
    (after : Endpoint) : control ≠ .aborted reason after := by
  have flagged : (endpoint.modify fun manager =>
      { manager with
        m_pSocket := some { socket with m_writeFlag := reply.write, m_readFlag := reply.read } }
      ).manager.m_pSocket =
        some { socket with m_writeFlag := reply.write, m_readFlag := reply.read } := rfl
  cases point with
  | checkFirst dt =>
      cases resumed
      rw [checkStateThen, CheckState_of_not_failed succeeded present]
      exact afterFirstCheck_ne_aborted dt flagged reason after
  | send => cases resumed
  | checkSend =>
      cases resumed
      rw [checkStateThen, CheckState_of_not_failed succeeded present]
      exact sendLoop_ne_aborted flagged reason after
  | recv => cases resumed
  | checkRecv =>
      cases resumed
      rw [checkStateThen, CheckState_of_not_failed succeeded present]
      exact recvLoop_ne_aborted flagged reason after

/-- `Update` waits in `Recv` only if the descriptor can be read, and returns only
if it cannot. -/
def HeedsRead (read : Bool) : Control → Prop
  | .idle _ => read = false
  | .waiting .recv _ => read = true
  | _ => True

theorem pushNewMessage_recvList (endpoint : Endpoint) :
    endpoint.pushNewMessage.manager.m_recvList =
      endpoint.manager.m_recvList ++ [(NetMessage.new 512 endpoint.process).1] := rfl

@[simp] theorem pickMessage_sendList (endpoint : Endpoint) :
    endpoint.pickMessage.manager.m_sendList = endpoint.manager.m_sendList := by
  unfold pickMessage
  split
  · split <;> rfl
  · rfl

/-- Picking a message to receive changes no state. -/
theorem pickMessage_state (endpoint : Endpoint) :
    endpoint.pickMessage.GetState = endpoint.GetState := by
  unfold pickMessage
  split
  · split <;> rfl
  · rfl

/-- Whether there is a `Recv` is what `select` has said. -/
theorem recvLoop_heedsRead {socket : CSocketCommon}
    (present : endpoint.manager.m_pSocket = some socket) :
    HeedsRead socket.m_readFlag endpoint.recvLoop ∧
      endpoint.recvLoop.endpoint.GetState = endpoint.GetState := by
  simp only [recvLoop, present]
  cases flag : socket.m_readFlag
  · exact ⟨rfl, rfl⟩
  · exact ⟨rfl, endpoint.pickMessage_state⟩

theorem sendLoop_heedsRead {socket : CSocketCommon}
    (present : endpoint.manager.m_pSocket = some socket) :
    HeedsRead socket.m_readFlag endpoint.sendLoop ∧
      endpoint.sendLoop.endpoint.GetState = endpoint.GetState := by
  simp only [sendLoop, present]
  split
  · split
    · exact recvLoop_heedsRead present
    · unfold sendMessage
      split
      · exact ⟨trivial, rfl⟩
      · exact ⟨trivial, rfl⟩
  · exact recvLoop_heedsRead present

/-- On an established connection a successful `select` leaves it so. -/
theorem resume_select_connected {point : Point} {reply : SelectReply} {control : Control}
    {socket : CSocketCommon} (succeeded : reply.failed = false)
    (present : endpoint.manager.m_pSocket = some socket)
    (connected : endpoint.GetState = .Connected)
    (resumed : endpoint.resume point (.select reply) = some control) :
    HeedsRead reply.read control ∧ control.endpoint.GetState = .Connected := by
  let flagged : Endpoint := endpoint.modify fun manager =>
    { manager with
      m_pSocket := some { socket with m_writeFlag := reply.write, m_readFlag := reply.read } }
  have present' : flagged.manager.m_pSocket =
      some { socket with m_writeFlag := reply.write, m_readFlag := reply.read } := rfl
  have connected' : flagged.GetState = .Connected := connected
  rw [← connected']
  cases point with
  | checkFirst dt =>
      cases resumed
      rw [checkStateThen, CheckState_of_not_failed succeeded present]
      have loops : flagged.afterFirstCheck dt = flagged.sendLoop := by
        rw [afterFirstCheck, connected', if_neg (by decide), if_neg (by decide)]
      change HeedsRead reply.read (flagged.afterFirstCheck dt) ∧
        (flagged.afterFirstCheck dt).endpoint.GetState = flagged.GetState
      rw [loops]
      exact sendLoop_heedsRead present'
  | send => cases resumed
  | checkSend =>
      cases resumed
      rw [checkStateThen, CheckState_of_not_failed succeeded present]
      exact sendLoop_heedsRead present'
  | recv => cases resumed
  | checkRecv =>
      cases resumed
      rw [checkStateThen, CheckState_of_not_failed succeeded present]
      exact recvLoop_heedsRead present'

/-- **An answer of `send`.** -/
theorem resume_send {sizeSended : Int} {control : Control} {message : NetMessage}
    {rest : List NetMessage} (front : endpoint.manager.m_sendList = message :: rest)
    (resumed : endpoint.resume .send (.send sizeSended) = some control) :
    (sizeSended < 0 ∧ control = .idle (endpoint.OnError .SendZeroByte)) ∨
      (0 ≤ sizeSended ∧
        ((message.onSend sizeSended).isEnd = true ∧
            control = .waiting .checkSend (endpoint.popSent (message.onSend sizeSended) rest) ∨
          (message.onSend sizeSended).isEnd = false ∧
            control = .waiting .send { endpoint with
              manager := { endpoint.manager with
                m_sendList := message.onSend sizeSended :: rest } })) := by
  cases resumed
  unfold afterSend
  rw [front]
  by_cases error : sizeSended < 0
  · exact Or.inl ⟨error, if_pos error⟩
  · refine Or.inr ⟨by omega, ?_⟩
    simp only [error, ↓reduceIte, sendMessage]
    cases ended : (message.onSend sizeSended).isEnd
    · exact Or.inr ⟨rfl, rfl⟩
    · exact Or.inl ⟨rfl, rfl⟩

/-- **An answer of `recv` with bytes.** -/
theorem resume_recv {bytes : List UInt8} {control : Control} {message : NetMessage}
    {older : List NetMessage} (back : endpoint.manager.m_recvList = older ++ [message])
    (nonempty : bytes ≠ []) (resumed : endpoint.resume .recv (.recv bytes) = some control) :
    (∃ reason, message.storeAtCursor bytes = .error reason ∧ control = .aborted reason endpoint) ∨
      ∃ filled, message.storeAtCursor bytes = .ok filled ∧
        ((∃ reason, filled.onReceive bytes.length endpoint.process = .error reason ∧
            control = .aborted reason endpoint) ∨
          ∃ after process, filled.onReceive bytes.length endpoint.process = .ok (after, process) ∧
            control = .waiting .checkRecv
              { process
                manager := { endpoint.manager with m_recvList := older ++ [after] } }) := by
  cases resumed
  have last : endpoint.manager.m_recvList.getLast? = some message := by
    rw [back, List.getLast?_concat]
  have positive : ¬ bytes.length ≤ 0 := by
    rw [Nat.le_zero, List.length_eq_zero_iff]
    exact nonempty
  simp only [afterRecv, last, positive, ↓reduceIte]
  cases stored : message.storeAtCursor bytes with
  | error reason => exact Or.inl ⟨reason, rfl, rfl⟩
  | ok filled =>
      refine Or.inr ⟨filled, rfl, ?_⟩
      simp only
      cases received : filled.onReceive bytes.length endpoint.process with
      | error reason => exact Or.inl ⟨reason, rfl, rfl⟩
      | ok result =>
          refine Or.inr ⟨result.1, result.2, rfl, ?_⟩
          simp only [setLastReceived, modify, back, List.dropLast_concat]

/-- A `recv` that ends the connection. -/
theorem resume_recv_closed {reply : Reply} {control : Control} {message : NetMessage}
    {older : List NetMessage} (back : endpoint.manager.m_recvList = older ++ [message])
    (ends : reply = .recv [] ∨ reply = .recvFailed)
    (resumed : endpoint.resume .recv reply = some control) :
    control = .idle (endpoint.OnError .RecvZeroByte) := by
  have last : endpoint.manager.m_recvList.getLast? = some message := by
    rw [back, List.getLast?_concat]
  rcases ends with rfl | rfl
  · cases resumed
    simp only [afterRecv, last, List.length_nil, le_refl, ↓reduceIte]
  · cases resumed
    rfl

/-! ## Dialling -/

theorem CreateSocket_same (address : AddrInfo) (endpoint : Endpoint) :
    endpoint.SameMessages (endpoint.CreateSocket address) := by
  refine ⟨rfl, rfl, rfl, ?_⟩
  simp only [CreateSocket]
  split
  · exact ⟨_, rfl⟩
  · exact ⟨_, rfl⟩

/-- What the loop over the addresses comes to: it stops on a socket, or the function
returns through `OnError`. -/
inductive Tried (endpoint : Endpoint) : Bool × Endpoint → Prop
  | stopped {reached : Endpoint} (same : endpoint.SameMessages reached) (socket : CSocketCommon)
      (present : reached.manager.m_pSocket = some socket) : Tried endpoint (true, reached)
  | returned {reached : Endpoint} (same : endpoint.SameMessages reached)
      (errorCode : NetErrorCode) : Tried endpoint (false, reached.OnError errorCode)

theorem Tried.of_same {before after : Endpoint} {outcome : Bool × Endpoint}
    (same : before.SameMessages after) (tried : after.Tried outcome) : before.Tried outcome := by
  cases tried with
  | stopped later socket present => exact .stopped (same.trans later) socket present
  | returned later errorCode => exact .returned (same.trans later) errorCode

/-- Trying addresses opens and closes sockets and nothing else. -/
theorem tryAddresses_tried (addresses : List AddrInfo) {socket : CSocketCommon}
    (present : endpoint.manager.m_pSocket = some socket) :
    endpoint.Tried (endpoint.tryAddresses addresses) := by
  induction addresses generalizing endpoint socket with
  | nil => exact .stopped (.refl endpoint) socket present
  | cons address next ih =>
      have created : (endpoint.CreateSocket address).manager.m_pSocket =
          some { socket with m_socket := address.createSocket } := by
        simp only [CreateSocket, present, Option.map_some]
      have same := CreateSocket_same address endpoint
      have continued := (ih created).of_same same
      unfold tryAddresses
      simp only
      split
      · split
        · exact continued
        · exact .returned same .CreateSocket
      · split
        · split
          · split
            · exact continued
            · exact .stopped same _ created
          · exact continued
        · split
          · split
            · exact continued
            · exact .returned same .ConnectToServer
          · exact .stopped same _ created

/-- The manager with which `DoConnect` enters its loop. -/
def opened (addr : ServerName) (port : Int) (endpoint : Endpoint) : Endpoint :=
  (endpoint.setAddress addr port).modify fun manager =>
    { manager with m_pSocket := some CSocketCommon.new }

/-- The manager with which `DoConnect` calls `CheckState`. -/
def awaiting (endpoint : Endpoint) : Endpoint :=
  endpoint.modify fun manager =>
    { manager with m_netState := .Connecting, m_tOutTimer := CONNECT_TIMEOUT }

section DoConnect

variable {addr : ServerName} {port : Int} {dial : Dial} {addresses : List AddrInfo}
  {reached : Endpoint}

/-- A name that is not resolved is a DNS error. -/
theorem DoConnect_of_none (unresolved : dial.addresses = none) :
    endpoint.DoConnect addr port dial =
      .ok (false, (endpoint.setAddress addr port).OnError .DNSError) := by
  simp only [DoConnect, unresolved]

/-- `DoConnect` fails if no address can be connected to. -/
theorem DoConnect_of_false (resolved : dial.addresses = some addresses)
    (tried : (endpoint.opened addr port).tryAddresses addresses = (false, reached)) :
    endpoint.DoConnect addr port dial = .ok (false, reached) := by
  unfold opened at tried
  simp only [DoConnect, resolved, tried]

/-- An address that can be connected to is waited for. -/
theorem DoConnect_of_true (resolved : dial.addresses = some addresses)
    (tried : (endpoint.opened addr port).tryAddresses addresses = (true, reached)) :
    endpoint.DoConnect addr port dial = reached.awaiting.CheckState dial.select := by
  unfold opened at tried
  simp only [DoConnect, resolved, tried, awaiting]

end DoConnect

/-- **A dial** fails through `OnError`, or leaves it to `CheckState`. -/
theorem DoConnect_cases (addr : ServerName) (port : Int) (dial : Dial) (endpoint : Endpoint) :
    (∃ (reached : Endpoint) (errorCode : NetErrorCode),
      endpoint.DoConnect addr port dial = .ok (false, reached.OnError errorCode) ∧
        (endpoint.setAddress addr port).SameMessages reached) ∨
      ∃ (reached : Endpoint) (socket : CSocketCommon),
        endpoint.DoConnect addr port dial = reached.awaiting.CheckState dial.select ∧
          (endpoint.setAddress addr port).SameMessages reached.awaiting ∧
            reached.awaiting.manager.m_pSocket = some socket := by
  cases resolved : dial.addresses with
  | none => exact Or.inl ⟨_, _, DoConnect_of_none resolved, .refl _⟩
  | some addresses =>
      have same : (endpoint.setAddress addr port).SameMessages (endpoint.opened addr port) :=
        ⟨rfl, rfl, rfl, _, rfl⟩
      have present : (endpoint.opened addr port).manager.m_pSocket = some CSocketCommon.new := rfl
      have tried := tryAddresses_tried addresses present
      cases shape : (endpoint.opened addr port).tryAddresses addresses with
      | mk flag reached =>
      rw [shape] at tried
      cases tried with
      | returned later errorCode =>
          exact Or.inl ⟨_, errorCode, DoConnect_of_false resolved shape, same.trans later⟩
      | stopped later socket present =>
          refine Or.inr ⟨reached, socket, DoConnect_of_true resolved shape, ?_, present⟩
          exact (same.trans later).trans ⟨rfl, rfl, rfl, _, rfl⟩

/-- `DoConnect` returns, and but for the address leaves the messages alone. -/
theorem DoConnect_effect (addr : ServerName) (port : Int) (dial : Dial) (endpoint : Endpoint) :
    ∃ result after, endpoint.DoConnect addr port dial = .ok (result, after) ∧
      (endpoint.setAddress addr port).SameMessages after := by
  rcases endpoint.DoConnect_cases addr port dial with
    ⟨reached, errorCode, failed, same⟩ | ⟨reached, socket, checks, same, present⟩
  · exact ⟨_, _, failed, same.trans (OnError_same errorCode reached)⟩
  · rw [checks]
    cases outcome : dial.select.failed with
    | true =>
        obtain ⟨after, checked, checkedSame, -⟩ := CheckState_of_failed outcome present
        exact ⟨_, after, checked, same.trans checkedSame⟩
    | false =>
        refine ⟨_, _, CheckState_of_not_failed outcome present, same.trans ?_⟩
        exact ⟨rfl, rfl, rfl, _, rfl⟩

/-- `Connect` empties the lists unless it is the first one. -/
theorem Connect_effect (addr : ServerName) (port : Int) (dial : Dial) (endpoint : Endpoint) :
    ∃ result after, endpoint.Connect addr port dial = .ok (result, after) ∧
      if endpoint.manager.m_port = -1 then (endpoint.setAddress addr port).SameMessages after
      else (endpoint.CloseConnection.setAddress addr port).SameMessages after := by
  unfold Connect
  split
  · exact endpoint.DoConnect_effect addr port dial
  · exact endpoint.CloseConnection.DoConnect_effect addr port dial

/-- `ClearCached` on empty lists changes nothing. -/
theorem ClearCached_of_empty (send : endpoint.manager.m_sendList = [])
    (recv : endpoint.manager.m_recvList = []) : endpoint.ClearCached = endpoint := by
  obtain ⟨process, manager⟩ := endpoint
  obtain ⟨server, port, sendList, recvList, socket, state, encrypt, timer⟩ := manager
  cases send
  cases recv
  rfl

/-- `ReConnect` empties the lists if there was a `Connect`. -/
theorem ReConnect_effect (dial : Dial) (endpoint : Endpoint) :
    ∃ after, endpoint.ReConnect dial = .ok after ∧
      if endpoint.manager.m_port = -1 then after = endpoint
      else endpoint.CloseConnection.SameMessages after := by
  unfold ReConnect
  split
  · exact ⟨endpoint, rfl, rfl⟩
  · next opened =>
      let cleared := endpoint.CloseConnection
      obtain ⟨result, after, done, effect⟩ :=
        cleared.Connect_effect cleared.manager.m_server cleared.manager.m_port dial
      have port : cleared.manager.m_port = endpoint.manager.m_port := endpoint.Close_same.port
      rw [port, if_neg opened] at effect
      have again : cleared.CloseConnection = cleared.Close :=
        ClearCached_of_empty cleared.Close_same.sendList cleared.Close_same.recvList
      rw [again] at effect
      have address : cleared.SameMessages
          (cleared.Close.setAddress cleared.manager.m_server endpoint.manager.m_port) := by
        obtain ⟨sendList, recvList, -, process⟩ := cleared.Close_same
        exact ⟨sendList, recvList, port.symm, process⟩
      refine ⟨after, ?_, address.trans effect⟩
      exact congrArg (Except.map Prod.snd) done

/-- A `Connect` on an idle manager returns. -/
theorem call_Connect {addr : ServerName} {port : Int} {dial : Dial} {control : Control}
    (called : endpoint.call (.Connect addr port dial) = some control) :
    ∃ result after, endpoint.Connect addr port dial = .ok (result, after) ∧
      control = .idle after ∧
        if endpoint.manager.m_port = -1 then (endpoint.setAddress addr port).SameMessages after
        else (endpoint.CloseConnection.setAddress addr port).SameMessages after := by
  obtain ⟨result, after, done, effect⟩ := endpoint.Connect_effect addr port dial
  simp only [call, done, Except.map, finished, Option.some.injEq] at called
  exact ⟨result, after, done, called.symm, effect⟩

/-- So does a `ReConnect`. -/
theorem call_ReConnect {dial : Dial} {control : Control}
    (called : endpoint.call (.ReConnect dial) = some control) :
    ∃ after, endpoint.ReConnect dial = .ok after ∧ control = .idle after ∧
      if endpoint.manager.m_port = -1 then after = endpoint
      else endpoint.CloseConnection.SameMessages after := by
  obtain ⟨after, done, effect⟩ := endpoint.ReConnect_effect dial
  simp only [call, done, finished, Option.some.injEq] at called
  exact ⟨after, done, called.symm, effect⟩

/-! ## Loading -/

/-- `RemoveMsg` takes the oldest message off the list. -/
theorem RemoveMsg_front {message : NetMessage} {rest : List NetMessage}
    (front : endpoint.manager.m_recvList = message :: rest) :
    (endpoint.RemoveMsg message.address).manager.m_recvList = rest := by
  simp only [RemoveMsg, modify, front, decide_true, List.eraseP_cons_of_pos]

/-- `LoadMsg` crashes on an empty list and takes the front of any other. -/
theorem call_LoadMsg {control : Control} (called : endpoint.call .LoadMsg = some control) :
    (endpoint.manager.m_recvList = [] ∧ control = .aborted .nullMessage endpoint) ∨
      ∃ message rest, endpoint.manager.m_recvList = message :: rest ∧
        control = .idle (endpoint.RemoveMsg message.address) := by
  cases list : endpoint.manager.m_recvList with
  | nil =>
      simp only [call, LoadMsg, getMsg, list, List.head?_nil, Except.map, finished] at called
      cases called
      exact Or.inl ⟨rfl, rfl⟩
  | cons message rest =>
      simp only [call, LoadMsg, getMsg, list, List.head?_cons, Except.map, finished] at called
      cases called
      exact Or.inr ⟨message, rest, rfl, rfl⟩

/-- A `LoadMsg` that does not crash takes the front of the list. -/
theorem LoadMsg_ok {loaded : NetMessage} {after : Endpoint}
    (done : endpoint.LoadMsg = .ok (loaded, after)) :
    ∃ message rest, endpoint.manager.m_recvList = message :: rest ∧
      loaded = message.ResetForRead ∧ after = endpoint.RemoveMsg message.address := by
  unfold LoadMsg getMsg at done
  cases list : endpoint.manager.m_recvList with
  | nil =>
      rw [list] at done
      cases done
  | cons message rest =>
      rw [list] at done
      cases done
      exact ⟨message, rest, rfl, rfl, rfl⟩

end Endpoint

end EngSocket
