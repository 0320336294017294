import EngSocket.Connection.Effects
import EngSocket.Connection.Update
import EngSocket.Foundation.Purge

/-!
# The encryption that is none

`InitEncrypt` sets `m_encryptInited` and passes the messages of `m_sendList` to
`EncodeMsg`. `EncodeMsg` and `DecodeBuf` look at the flag and do nothing in either case,
so that no call of a manager and no answer to it depends on the flag
(`EngSocket.Endpoint.step_plain`).
-/

namespace EngSocket

open Foundation

/-- A manager as if it had never been initialised for encryption. -/
def CConnectionManager.plain (manager : CConnectionManager) : CConnectionManager :=
  { manager with m_encryptInited := false }

def Endpoint.plain (endpoint : Endpoint) : Endpoint := endpoint.modify CConnectionManager.plain

def Control.plain : Control → Control
  | .idle endpoint => .idle endpoint.plain
  | .waiting point endpoint => .waiting point endpoint.plain
  | .aborted reason endpoint => .aborted reason endpoint.plain

namespace Endpoint

variable (endpoint : Endpoint)

@[simp] theorem plain_socket : endpoint.plain.manager.m_pSocket = endpoint.manager.m_pSocket := rfl

@[simp] theorem plain_sendList :
    endpoint.plain.manager.m_sendList = endpoint.manager.m_sendList := rfl

@[simp] theorem plain_recvList :
    endpoint.plain.manager.m_recvList = endpoint.manager.m_recvList := rfl

@[simp] theorem plain_port : endpoint.plain.manager.m_port = endpoint.manager.m_port := rfl

@[simp] theorem plain_GetState : endpoint.plain.GetState = endpoint.GetState := rfl

/-- `Close` does not look at the flag. -/
theorem Close_plain : endpoint.plain.Close = endpoint.Close.plain := by
  unfold Close
  cases socket : endpoint.manager.m_pSocket with
  | none => simp only [plain, modify, CConnectionManager.plain, socket]
  | some socket => simp only [plain, modify, CConnectionManager.plain, CloseSocket, socket]

/-- `CloseConnection` does not look at the flag. -/
theorem CloseConnection_plain : endpoint.plain.CloseConnection = endpoint.CloseConnection.plain := by
  unfold CloseConnection
  rw [Close_plain]
  rfl

/-- `OnError` does not look at the flag. -/
theorem OnError_plain (code : NetErrorCode) :
    endpoint.plain.OnError code = (endpoint.OnError code).plain := by
  unfold OnError
  rw [Close_plain]
  rfl

/-- `OnTimeOut` does not look at the flag. -/
theorem OnTimeOut_plain : endpoint.plain.OnTimeOut = endpoint.OnTimeOut.plain := by
  unfold OnTimeOut
  rw [Close_plain]
  rfl

/-- What a call returns, with the flag erased. -/
def plainResult (returned : Bool × Endpoint) : Bool × Endpoint := (returned.1, returned.2.plain)

/-- Neither its result nor what `CheckState` leaves depends on the flag. -/
theorem CheckState_plain (reply : SelectReply) :
    endpoint.plain.CheckState reply = (endpoint.CheckState reply).map plainResult := by
  unfold CheckState
  rw [plain_socket]
  cases endpoint.manager.m_pSocket with
  | none => rfl
  | some socket =>
      simp only
      split
      · let broken := endpoint.modify fun manager => { manager with
          m_pSocket := some { socket with m_writeFlag := false, m_readFlag := false } }
        change (if broken.GetState = .Connecting then _ else _) =
          (if broken.GetState = .Connecting then _ else _ : Except Abort _).map plainResult
        split
        · exact congrArg (fun after => Except.ok (false, after)) (broken.OnError_plain _)
        · exact congrArg (fun after => Except.ok (false, after)) (broken.OnError_plain _)
      · rfl

/-- The same addresses are tried, with the same end. -/
theorem tryAddresses_plain (addresses : List AddrInfo) (endpoint : Endpoint) :
    endpoint.plain.tryAddresses addresses = plainResult (endpoint.tryAddresses addresses) := by
  induction addresses generalizing endpoint with
  | nil => rfl
  | cons address next ih =>
      have created : endpoint.plain.CreateSocket address = (endpoint.CreateSocket address).plain :=
        rfl
      unfold tryAddresses
      simp only [created, ih, OnError_plain, apply_ite plainResult]
      rfl

theorem setAddress_plain (addr : ServerName) (port : Int) :
    endpoint.plain.setAddress addr port = (endpoint.setAddress addr port).plain := rfl

/-- `DoConnect` does not look at the flag. -/
theorem DoConnect_plain (addr : ServerName) (port : Int) (dial : Dial) :
    endpoint.plain.DoConnect addr port dial =
      (endpoint.DoConnect addr port dial).map plainResult := by
  unfold DoConnect
  rw [setAddress_plain]
  cases dial.addresses with
  | none => exact congrArg (fun after => Except.ok (false, after)) (OnError_plain _ _)
  | some addresses =>
      let opened := (endpoint.setAddress addr port).modify fun manager =>
        { manager with m_pSocket := some CSocketCommon.new }
      have tried : ((endpoint.setAddress addr port).plain.modify fun manager =>
          { manager with m_pSocket := some CSocketCommon.new }).tryAddresses addresses =
            plainResult (opened.tryAddresses addresses) := tryAddresses_plain addresses opened
      simp only [tried]
      obtain ⟨flag, after⟩ := opened.tryAddresses addresses
      cases flag with
      | false => rfl
      | true =>
          let connecting := after.modify fun manager =>
            { manager with m_netState := .Connecting, m_tOutTimer := CONNECT_TIMEOUT }
          exact connecting.CheckState_plain dial.select

/-- `Connect` does not look at the flag, and starts over alike. -/
theorem Connect_plain (addr : ServerName) (port : Int) (dial : Dial) :
    endpoint.plain.Connect addr port dial =
      (endpoint.Connect addr port dial).map plainResult := by
  have cleared : endpoint.plain.Close.ClearCached = endpoint.Close.ClearCached.plain :=
    endpoint.CloseConnection_plain
  unfold Connect
  rw [plain_port, cleared, DoConnect_plain, DoConnect_plain]
  split
  · rfl
  · rfl

/-- `ReConnect` does not look at the flag. -/
theorem ReConnect_plain (dial : Dial) :
    endpoint.plain.ReConnect dial = (endpoint.ReConnect dial).map plain := by
  have cleared : endpoint.plain.Close.ClearCached = endpoint.Close.ClearCached.plain :=
    endpoint.CloseConnection_plain
  unfold ReConnect
  simp only [plain_port, cleared, Connect_plain]
  split
  · rfl
  · have same : endpoint.Close.ClearCached.plain.manager.m_server =
        endpoint.Close.ClearCached.manager.m_server := rfl
    rw [same]
    cases endpoint.Close.ClearCached.Connect endpoint.Close.ClearCached.manager.m_server
        endpoint.Close.ClearCached.manager.m_port dial with
    | error reason => rfl
    | ok returned => rfl

/-! ## `Update` -/

/-- The message that is received next is the same one. -/
theorem pickMessage_plain : endpoint.plain.pickMessage = endpoint.pickMessage.plain := by
  unfold pickMessage
  rw [plain_recvList]
  cases endpoint.manager.m_recvList.getLast? with
  | none => rfl
  | some message =>
      simp only
      split
      · rfl
      · rfl

/-- The loop that receives goes the same way. -/
theorem recvLoop_plain : endpoint.plain.recvLoop = endpoint.recvLoop.plain := by
  unfold recvLoop
  rw [plain_socket, pickMessage_plain]
  cases endpoint.manager.m_pSocket with
  | none => rfl
  | some socket =>
      simp only
      split
      · rfl
      · rfl

/-- `EncodeMsg` changes nothing, so that the same bytes go out. -/
theorem sendMessage_plain (message : NetMessage) (rest : List NetMessage) :
    endpoint.plain.sendMessage message rest = (endpoint.sendMessage message rest).plain := by
  unfold sendMessage
  split
  · rfl
  · rfl

/-- The loop that sends goes the same way. -/
theorem sendLoop_plain : endpoint.plain.sendLoop = endpoint.sendLoop.plain := by
  unfold sendLoop
  rw [plain_socket, plain_sendList, recvLoop_plain]
  cases endpoint.manager.m_pSocket with
  | none => rfl
  | some socket =>
      simp only
      split
      · cases endpoint.manager.m_sendList with
        | nil => rfl
        | cons message rest => exact endpoint.sendMessage_plain message rest
      · rfl

/-- An `Update` begins alike. -/
theorem Update_plain (dt : Int) : endpoint.plain.Update dt = (endpoint.Update dt).plain := by
  unfold Update
  rw [plain_socket, plain_GetState]
  cases endpoint.manager.m_pSocket with
  | none => rfl
  | some socket =>
      simp only
      split
      · rfl
      · rfl

theorem awaitConnection_plain (dt : Int) :
    endpoint.plain.awaitConnection dt = (endpoint.awaitConnection dt).plain := by
  let elapsed := endpoint.modify fun manager =>
    { manager with m_tOutTimer := int32 (manager.m_tOutTimer - dt) }
  have timer : endpoint.plain.manager.m_tOutTimer = endpoint.manager.m_tOutTimer := rfl
  have later : (endpoint.plain.modify fun manager =>
      { manager with m_tOutTimer := int32 (manager.m_tOutTimer - dt) }) = elapsed.plain := rfl
  have left_ : elapsed.plain.manager.m_tOutTimer = elapsed.manager.m_tOutTimer := rfl
  unfold awaitConnection
  rw [plain_socket, timer]
  cases endpoint.manager.m_pSocket with
  | none => rfl
  | some socket =>
      simp only [later, left_]
      split
      · split
        · rfl
        · rfl
      · split
        · exact congrArg Control.idle (OnTimeOut_plain (elapsed.modify fun manager =>
            { manager with m_tOutTimer := -1 }))
        · rfl

/-- What follows a `CheckState` is alike if every continuation is. -/
theorem checkStateThen_plain (reply : SelectReply) {continue_ : Endpoint → Control}
    (continues : ∀ endpoint : Endpoint, continue_ endpoint.plain = (continue_ endpoint).plain) :
    endpoint.plain.checkStateThen reply continue_ =
      (endpoint.checkStateThen reply continue_).plain := by
  unfold checkStateThen
  rw [CheckState_plain]
  cases endpoint.CheckState reply with
  | error reason => rfl
  | ok returned => exact continues returned.2

theorem afterFirstCheck_plain (dt : Int) :
    endpoint.plain.afterFirstCheck dt = (endpoint.afterFirstCheck dt).plain := by
  unfold afterFirstCheck
  rw [plain_GetState, awaitConnection_plain, sendLoop_plain]
  split
  · rfl
  · split
    · rfl
    · rfl

/-- What an `Update` does with the answer of a `Send` is alike. -/
theorem afterSend_plain (sizeSended : Int) :
    endpoint.plain.afterSend sizeSended = (endpoint.afterSend sizeSended).plain := by
  unfold afterSend
  rw [plain_sendList, OnError_plain]
  cases endpoint.manager.m_sendList with
  | nil => rfl
  | cons message rest =>
      simp only
      split
      · rfl
      · exact endpoint.sendMessage_plain _ rest

/-- `DecodeMsg` changes nothing, so that the same bytes are taken in. -/
theorem afterRecv_plain (bytes : List UInt8) :
    endpoint.plain.afterRecv bytes = (endpoint.afterRecv bytes).plain := by
  have process : endpoint.plain.process = endpoint.process := rfl
  unfold afterRecv
  rw [plain_recvList, OnError_plain, process]
  cases endpoint.manager.m_recvList.getLast? with
  | none => rfl
  | some message =>
      simp only
      split
      · rfl
      · cases message.storeAtCursor bytes with
        | error reason => rfl
        | ok message =>
            simp only
            cases message.onReceive bytes.length endpoint.process with
            | error reason => rfl
            | ok returned => rfl

/-- **Every answer** moves an `Update` on alike. -/
theorem resume_plain (point : Point) (reply : Reply) :
    endpoint.plain.resume point reply = (endpoint.resume point reply).map Control.plain := by
  cases point <;> cases reply
  all_goals try rfl
  case checkFirst.select dt reply =>
    exact congrArg some (endpoint.checkStateThen_plain reply fun e => e.afterFirstCheck_plain dt)
  case send.send sizeSended => exact congrArg some (endpoint.afterSend_plain sizeSended)
  case checkSend.select reply =>
    exact congrArg some (endpoint.checkStateThen_plain reply sendLoop_plain)
  case recv.recv bytes => exact congrArg some (endpoint.afterRecv_plain bytes)
  case recv.recvFailed => exact congrArg (fun after => some (Control.idle after)) (OnError_plain _ _)
  case checkRecv.select reply =>
    exact congrArg some (endpoint.checkStateThen_plain reply recvLoop_plain)

/-! ## Calls -/

/-- `LoadMsg` hands out the same message. -/
theorem LoadMsg_plain : endpoint.plain.LoadMsg =
    endpoint.LoadMsg.map fun loaded => (loaded.1, loaded.2.plain) := by
  have getMsg : endpoint.plain.getMsg = endpoint.getMsg := rfl
  unfold LoadMsg
  rw [getMsg]
  cases endpoint.getMsg with
  | none => rfl
  | some message => rfl

theorem finished_plain {before : Endpoint} {returned : Except Abort Endpoint} :
    before.plain.finished (returned.map plain) = (before.finished returned).plain := by
  cases returned with
  | error reason => rfl
  | ok after => rfl

/-- **Every call** but `InitEncrypt` is alike. -/
theorem call_plain {event : Event} (other : event ≠ .InitEncrypt) :
    endpoint.plain.call event = (endpoint.call event).map Control.plain := by
  cases event with
  | Connect addr port dial =>
      have returned : (endpoint.plain.Connect addr port dial).map Prod.snd =
          ((endpoint.Connect addr port dial).map Prod.snd).map plain := by
        rw [Connect_plain]
        cases endpoint.Connect addr port dial with
        | error reason => rfl
        | ok returned => rfl
      exact congrArg some ((congrArg _ returned).trans finished_plain)
  | ReConnect dial =>
      exact congrArg some ((congrArg _ (endpoint.ReConnect_plain dial)).trans finished_plain)
  | Close => exact congrArg (fun after => some (Control.idle after)) endpoint.Close_plain
  | CloseConnection =>
      exact congrArg (fun after => some (Control.idle after)) endpoint.CloseConnection_plain
  | SendMsg message => rfl
  | InitEncrypt => exact absurd rfl other
  | LoadMsg =>
      have returned : endpoint.plain.LoadMsg.map Prod.snd =
          (endpoint.LoadMsg.map Prod.snd).map plain := by
        rw [LoadMsg_plain]
        cases endpoint.LoadMsg with
        | error reason => rfl
        | ok loaded => rfl
      exact congrArg some ((congrArg _ returned).trans finished_plain)
  | Update dt => exact congrArg some (endpoint.Update_plain dt)
  | reply reply => rfl

/-- **Nothing depends on the flag** but what `InitEncrypt` itself leaves. -/
theorem step_plain {event : Event} (other : event ≠ .InitEncrypt) (control : Control) :
    machine.step control.plain event = (machine.step control event).map Control.plain := by
  cases control with
  | idle endpoint => exact endpoint.call_plain other
  | waiting point endpoint =>
      cases event with
      | reply reply => exact endpoint.resume_plain point reply
      | _ => rfl
  | aborted reason endpoint => rfl

/-- `InitEncrypt` changes nothing but the flag. -/
theorem InitEncrypt_plain : endpoint.InitEncrypt.plain = endpoint.plain := by
  have same : endpoint.manager.m_sendList.map EncodeMsg = endpoint.manager.m_sendList :=
    List.map_id _
  unfold InitEncrypt
  simp only [plain, modify, CConnectionManager.plain, same]

end Endpoint

end EngSocket
