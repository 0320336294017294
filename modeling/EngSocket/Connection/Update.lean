import EngSocket.Connection.Manager
import EngSocket.Foundation.Machine

/-!
# `Update` and the manager as a machine

`Update` decides nothing between two of its calls on the operating system, so it
is cut at these calls: a `Point` says which call waits for its answer, and
`Endpoint.resume` runs from the answer to the next call or to the return. The
loops of the source come back to `sendLoop`, `sendMessage` and `recvLoop`.

`Endpoint.machine` adds the other calls that a program makes on a manager. They
are taken when no `Update` is in progress.
-/

namespace EngSocket

open Foundation

/-- The call of `Update` that waits for its answer. -/
inductive Point
  /-- `CheckState` at the head of `Update(dt)`. -/
  | checkFirst (dt : Int)
  /-- `Send` in the loop on the message at the front of `m_sendList`. -/
  | send
  /-- `CheckState` after a message has left `m_sendList`. -/
  | checkSend
  /-- `Recv` into the message at the back of `m_recvList`. -/
  | recv
  /-- `CheckState` after a `Recv`. -/
  | checkRecv
  deriving DecidableEq, Repr

/-- What the operating system answers. -/
inductive Reply
  | select (reply : SelectReply)
  /-- The return value of `send`. -/
  | send (sizeSended : Int)
  /-- The bytes that `recv` stored; none when the peer has closed. -/
  | recv (bytes : List UInt8)
  /-- `recv` returned a negative value. -/
  | recvFailed
  deriving DecidableEq, Repr

/-- A manager between two calls, in the middle of an `Update`, or after a call
that does not return. -/
inductive Control
  | idle (endpoint : Endpoint)
  | waiting (point : Point) (endpoint : Endpoint)
  | aborted (reason : Abort) (endpoint : Endpoint)

def Control.endpoint : Control → Endpoint
  | .idle endpoint => endpoint
  | .waiting _ endpoint => endpoint
  | .aborted _ endpoint => endpoint

namespace Endpoint

/-- `pMessage = new NetMessage(); m_recvList.push_back(pMessage);` -/
def pushNewMessage (endpoint : Endpoint) : Endpoint :=
  let (message, process) := NetMessage.new 512 endpoint.process
  { process
    manager := { endpoint.manager with m_recvList := endpoint.manager.m_recvList ++ [message] } }

/-- The choice of the message that the next `Recv` fills: the last one of
`m_recvList` if it is incomplete, otherwise a new one. -/
def pickMessage (endpoint : Endpoint) : Endpoint :=
  match endpoint.manager.m_recvList.getLast? with
  | some message => if message.isEnd then endpoint.pushNewMessage else endpoint
  | none => endpoint.pushNewMessage

/-- `while (m_pSocket->getReadFlag())`, up to the `Recv`. -/
def recvLoop (endpoint : Endpoint) : Control :=
  match endpoint.manager.m_pSocket with
  | none => .aborted .nullSocket endpoint
  | some socket =>
      if socket.m_readFlag then .waiting .recv endpoint.pickMessage else .idle endpoint

/-- `while (!pMessage->isEnd())` on the front of `m_sendList`, up to the `Send`
or to the `CheckState` which follows once the message is deleted and popped. -/
def sendMessage (message : NetMessage) (rest : List NetMessage) (endpoint : Endpoint) : Control :=
  if message.isEnd then
    .waiting .checkSend
      { process := message.delete endpoint.process
        manager := { endpoint.manager with m_sendList := rest } }
  else
    .waiting .send { endpoint with
      manager := { endpoint.manager with m_sendList := message :: rest } }

/-- `while (m_pSocket->getWriteFlag())`, up to the next call. -/
def sendLoop (endpoint : Endpoint) : Control :=
  match endpoint.manager.m_pSocket with
  | none => .aborted .nullSocket endpoint
  | some socket =>
      if socket.m_writeFlag then
        match endpoint.manager.m_sendList with
        | [] => endpoint.recvLoop
        | message :: rest => endpoint.sendMessage message rest
      else endpoint.recvLoop

/-- `Update(dt)` up to its first `CheckState`. -/
def Update (dt : Int) (endpoint : Endpoint) : Control :=
  match endpoint.manager.m_pSocket with
  | none => .idle endpoint
  | some _ =>
      if endpoint.GetState = .ConnectTimeOut ∨ endpoint.GetState = .ConnectError ∨
          endpoint.GetState = .Disconnected then .idle endpoint
      else .waiting (.checkFirst dt) endpoint

/-- The branch of `Update` for a manager that is connecting. -/
def awaitConnection (dt : Int) (endpoint : Endpoint) : Control :=
  match endpoint.manager.m_pSocket with
  | none => .aborted .nullSocket endpoint
  | some socket =>
      let elapse (endpoint : Endpoint) : Endpoint := endpoint.modify fun manager =>
        { manager with m_tOutTimer := int32 (manager.m_tOutTimer - dt) }
      if socket.m_writeFlag then
        if CONNECT_TIMEOUT ≠ endpoint.manager.m_tOutTimer then .idle endpoint.OnSuccess
        else .idle (elapse endpoint)
      else
        let endpoint := elapse endpoint
        if endpoint.manager.m_tOutTimer ≤ 0 then
          .idle (endpoint.modify fun manager => { manager with m_tOutTimer := -1 }).OnTimeOut
        else .idle endpoint

/-- `CheckState` inside `Update`; its return value is not looked at. -/
def checkStateThen (reply : SelectReply) (continue_ : Endpoint → Control) (endpoint : Endpoint) :
    Control :=
  match endpoint.CheckState reply with
  | .ok (_, endpoint) => continue_ endpoint
  | .error reason => .aborted reason endpoint

/-- From the first `CheckState` on. -/
def afterFirstCheck (dt : Int) (endpoint : Endpoint) : Control :=
  if endpoint.GetState = .ConnectError then .idle endpoint
  else if endpoint.GetState = .Connecting then endpoint.awaitConnection dt
  else endpoint.sendLoop

/-- From the return of a `Send` on. The kernel has taken the bytes at the cursor. -/
def afterSend (sizeSended : Int) (endpoint : Endpoint) : Control :=
  match endpoint.manager.m_sendList with
  | [] => .aborted .nullMessage endpoint
  | message :: rest =>
      if sizeSended < 0 then .idle (endpoint.OnError .SendZeroByte)
      else endpoint.sendMessage (message.onSend sizeSended) rest

/-- Replace the message that a `Recv` filled. -/
def setLastReceived (message : NetMessage) (endpoint : Endpoint) : Endpoint :=
  endpoint.modify fun manager =>
    { manager with m_recvList := manager.m_recvList.dropLast ++ [message] }

/-- From the return of a `Recv` on. `DecodeBuf`, called once the size is known,
leaves the bytes alone. -/
def afterRecv (bytes : List UInt8) (endpoint : Endpoint) : Control :=
  match endpoint.manager.m_recvList.getLast? with
  | none => .aborted .nullMessage endpoint
  | some message =>
      if bytes.length ≤ 0 then .idle (endpoint.OnError .RecvZeroByte)
      else
        match message.storeAtCursor bytes with
        | .error reason => .aborted reason endpoint
        | .ok message =>
            match message.onReceive bytes.length endpoint.process with
            | .error reason => .aborted reason endpoint
            | .ok (message, process) =>
                .waiting .checkRecv ({ endpoint with process }.setLastReceived message)

/-- `Update` from an answer to the next call; undefined on an answer to another
call than the one which waits. -/
def resume (point : Point) (reply : Reply) (endpoint : Endpoint) : Option Control :=
  match point, reply with
  | .checkFirst dt, .select reply => some (endpoint.checkStateThen reply (afterFirstCheck dt))
  | .send, .send sizeSended => some (endpoint.afterSend sizeSended)
  | .checkSend, .select reply => some (endpoint.checkStateThen reply sendLoop)
  | .recv, .recv bytes => some (endpoint.afterRecv bytes)
  | .recv, .recvFailed => some (.idle (endpoint.OnError .RecvZeroByte))
  | .checkRecv, .select reply => some (endpoint.checkStateThen reply recvLoop)
  | _, _ => none

/-- `CLuaMsg::LoadMsg` on the manager: take the front of `m_recvList`, whatever
its state, and put its cursor at the payload. `dump` only prints. -/
def LoadMsg (endpoint : Endpoint) : Except Abort (NetMessage × Endpoint) :=
  match endpoint.getMsg with
  | none => .error .nullMessage
  | some message => .ok (message.ResetForRead, endpoint.RemoveMsg message.address)

end Endpoint

/-- What can happen to a manager. -/
inductive Event
  | Connect (addr : ServerName) (port : Int) (dial : Dial)
  | ReConnect (dial : Dial)
  | Close
  | CloseConnection
  | SendMsg (message : NetMessage)
  | InitEncrypt
  | LoadMsg
  | Update (dt : Int)
  | reply (reply : Reply)

/-- `SendMsg` and `LoadMsg` reach a manager only through a `CLuaMsg`. -/
def Event.ofManager : Event → Bool
  | .SendMsg _ => false
  | .LoadMsg => false
  | _ => true

/-- Whether a call dials the peer. -/
def Event.dials : Event → Bool
  | .Connect _ _ _ => true
  | .ReConnect _ => true
  | _ => false

namespace Endpoint

/-- The outcome of a call that has returned or failed to. -/
def finished (before : Endpoint) : Except Abort Endpoint → Control
  | .ok endpoint => .idle endpoint
  | .error reason => .aborted reason before

/-- A call on a manager that is not in the middle of an `Update`. -/
def call (endpoint : Endpoint) : Event → Option Control
  | .Connect addr port dial =>
      some (endpoint.finished ((endpoint.Connect addr port dial).map Prod.snd))
  | .ReConnect dial => some (endpoint.finished (endpoint.ReConnect dial))
  | .Close => some (.idle endpoint.Close)
  | .CloseConnection => some (.idle endpoint.CloseConnection)
  | .SendMsg message => some (.idle (endpoint.SendMsg message))
  | .InitEncrypt => some (.idle endpoint.InitEncrypt)
  | .LoadMsg => some (endpoint.finished (endpoint.LoadMsg.map Prod.snd))
  | .Update dt => some (endpoint.Update dt)
  | .reply _ => none

/-- A manager as a machine. -/
def machine : Machine Control Event where
  step
    | .idle endpoint, event => endpoint.call event
    | .waiting point endpoint, .reply reply => endpoint.resume point reply
    | _, _ => none

end Endpoint

end EngSocket
