import EngSocket.Message.NetMessage

/-!
# Connection managers

The state of a `CConnectionManager` and the operations that run to their end
without waiting for an answer between two decisions. What the operating system
answers is an argument: the outcome of `select` (`SelectReply`), and for a dial
the addresses found and what becomes of each (`Dial`).
-/

namespace EngSocket

def CONNECT_TIMEOUT : Int := 5000

inductive NetConState
  | Connecting
  | ConnectTimeOut
  | ConnectError
  | Connected
  | Disconnected
  deriving DecidableEq, Repr

inductive NetErrorCode
  | CreateSocket
  | ConnectToServer
  | Select
  | RecvZeroByte
  | SendZeroByte
  | DNSError
  | ConnectTimeOut
  deriving DecidableEq, Repr

/-- A `CSocketCommon` on POSIX. -/
structure CSocketCommon where
  m_readFlag : Bool
  m_writeFlag : Bool
  m_socket : Int
  deriving DecidableEq, Repr

/-- `CSocketCommon::CSocketCommon()`. -/
def CSocketCommon.new : CSocketCommon where
  m_readFlag := false
  m_writeFlag := false
  m_socket := -1

/-- A host name that fits `m_server[128]` with its terminating zero. -/
abbrev ServerName := { name : String // name.utf8ByteSize < 128 }

structure CConnectionManager where
  m_server : ServerName
  m_port : Int
  m_sendList : List NetMessage
  m_recvList : List NetMessage
  m_pSocket : Option CSocketCommon
  m_netState : NetConState
  m_encryptInited : Bool
  m_tOutTimer : Int

/-- `CConnectionManager::CConnectionManager()`. -/
def CConnectionManager.new : CConnectionManager where
  m_server := ⟨"", by decide⟩
  m_port := -1
  m_sendList := []
  m_recvList := []
  m_pSocket := none
  m_netState := .Disconnected
  m_encryptInited := false
  m_tOutTimer := -1

/-- What `select` returns and which of the three sets still hold the descriptor. -/
structure SelectReply where
  ret : Int
  read : Bool
  write : Bool
  error : Bool
  deriving DecidableEq, Repr

/-- `ret < 0 || FD_ISSET(socketFD, &t_error)`. -/
def SelectReply.failed (reply : SelectReply) : Bool := reply.ret < 0 || reply.error

/-- The descriptor can be read. -/
def SelectReply.readable : SelectReply := { ret := 1, read := true, write := false, error := false }

/-- The descriptor can be written. -/
def SelectReply.writable : SelectReply := { ret := 1, read := false, write := true, error := false }

/-- There is nothing to do. -/
def SelectReply.quiet : SelectReply := { ret := 0, read := false, write := false, error := false }

/-- What becomes of one resolved address: the result of `socket`, the result of
`connect`, and `errno` after the call that was made last. -/
structure AddrInfo where
  createSocket : Int
  connectTo : Int
  errno : Int
  deriving DecidableEq, Repr

/-- The answers to one `DoConnect`: the resolved list, if `getaddrinfo`
succeeds, and the `select` of its last line, if that is reached. -/
structure Dial where
  addresses : Option (List AddrInfo)
  select : SelectReply
  deriving DecidableEq, Repr

def EINPROGRESS : Int := 115
def EAFNOSUPPORT : Int := 97
def EPROTONOSUPPORT : Int := 93

/-- A connection manager within its process. -/
structure Endpoint where
  process : Process
  manager : CConnectionManager

namespace Endpoint

/-- A manager that has just been constructed. -/
def new (process : Process) : Endpoint := { process, manager := .new }

def GetState (endpoint : Endpoint) : NetConState := endpoint.manager.m_netState

/-- Change the manager's fields. -/
def modify (change : CConnectionManager → CConnectionManager) (endpoint : Endpoint) : Endpoint :=
  { endpoint with manager := change endpoint.manager }

/-- `CSocketCommon::CloseSocket`; the object is deleted right after. -/
def CloseSocket (socket : CSocketCommon) (endpoint : Endpoint) : Endpoint :=
  { endpoint with
    process := { endpoint.process with
      descriptors := endpoint.process.descriptors.erase socket.m_socket } }

def Close (endpoint : Endpoint) : Endpoint :=
  let endpoint := endpoint.modify fun manager => { manager with m_encryptInited := false }
  match endpoint.manager.m_pSocket with
  | none => endpoint
  | some socket =>
      (endpoint.CloseSocket socket).modify fun manager =>
        { manager with m_pSocket := none, m_netState := .Disconnected }

/-- Both loops of `ClearCached`. -/
def ClearCached (endpoint : Endpoint) : Endpoint where
  process :=
    endpoint.manager.m_recvList.foldl (fun process message => message.delete process)
      (endpoint.manager.m_sendList.foldl (fun process message => message.delete process)
        endpoint.process)
  manager := { endpoint.manager with m_sendList := [], m_recvList := [] }

/-- The error code is only printed. -/
def OnError (_errorCode : NetErrorCode) (endpoint : Endpoint) : Endpoint :=
  endpoint.Close.modify fun manager => { manager with m_netState := .ConnectError }

def OnTimeOut (endpoint : Endpoint) : Endpoint :=
  endpoint.Close.modify fun manager =>
    { manager with m_tOutTimer := -1, m_netState := .ConnectTimeOut }

def OnSuccess (endpoint : Endpoint) : Endpoint :=
  endpoint.modify fun manager => { manager with m_netState := .Connected, m_tOutTimer := -1 }

/-- `CheckState`, with its return value, on the outcome of `select`. -/
def CheckState (reply : SelectReply) (endpoint : Endpoint) : Except Abort (Bool × Endpoint) :=
  match endpoint.manager.m_pSocket with
  | none => .error .nullSocket
  | some socket =>
      if reply.failed then
        let endpoint := endpoint.modify fun manager => { manager with
          m_pSocket := some { socket with m_writeFlag := false, m_readFlag := false } }
        if endpoint.GetState = .Connecting then .ok (false, endpoint.OnError .ConnectToServer)
        else .ok (false, endpoint.OnError .Select)
      else
        .ok (true, endpoint.modify fun manager => { manager with
          m_pSocket := some { socket with m_writeFlag := reply.write, m_readFlag := reply.read } })

/-- `m_pSocket->CreateSocket(..)`: the object takes whatever `socket` returned. -/
def CreateSocket (address : AddrInfo) (endpoint : Endpoint) : Endpoint where
  process :=
    if address.createSocket = -1 then endpoint.process
    else { endpoint.process with
      descriptors := address.createSocket :: endpoint.process.descriptors }
  manager := { endpoint.manager with
    m_pSocket := endpoint.manager.m_pSocket.map fun socket =>
      { socket with m_socket := address.createSocket } }

/-- The loop of `DoConnect` over the addresses. The flag is false when the
function returned from within the loop. -/
def tryAddresses : List AddrInfo → Endpoint → Bool × Endpoint
  | [], endpoint => (true, endpoint)
  | address :: next, endpoint =>
      let endpoint := endpoint.CreateSocket address
      let ret := address.createSocket
      if ret = -1 then
        if next ≠ [] then tryAddresses next endpoint
        else (false, endpoint.OnError .CreateSocket)
      else if ret < 0 then
        if address.errno = EAFNOSUPPORT ∨ address.errno = EPROTONOSUPPORT then
          if next ≠ [] then tryAddresses next endpoint else (true, endpoint)
        else tryAddresses next endpoint
      else if address.connectTo = -1 ∧ address.errno ≠ EINPROGRESS then
        if next ≠ [] then tryAddresses next endpoint
        else (false, endpoint.OnError .ConnectToServer)
      else (true, endpoint)

/-- `memcpy(m_server, ..)` and `m_port = port`. -/
def setAddress (addr : ServerName) (port : Int) (endpoint : Endpoint) : Endpoint :=
  endpoint.modify fun manager => { manager with m_server := addr, m_port := port }

def DoConnect (addr : ServerName) (port : Int) (dial : Dial) (endpoint : Endpoint) :
    Except Abort (Bool × Endpoint) :=
  let endpoint := endpoint.setAddress addr port
  match dial.addresses with
  | none => .ok (false, endpoint.OnError .DNSError)
  | some addresses =>
      let endpoint := endpoint.modify fun manager =>
        { manager with m_pSocket := some CSocketCommon.new }
      match endpoint.tryAddresses addresses with
      | (false, endpoint) => .ok (false, endpoint)
      | (true, endpoint) =>
          let endpoint := endpoint.modify fun manager =>
            { manager with m_netState := .Connecting, m_tOutTimer := CONNECT_TIMEOUT }
          endpoint.CheckState dial.select

def Connect (addr : ServerName) (port : Int) (dial : Dial) (endpoint : Endpoint) :
    Except Abort (Bool × Endpoint) :=
  if endpoint.manager.m_port = -1 then endpoint.DoConnect addr port dial
  else endpoint.Close.ClearCached.DoConnect addr port dial

def ReConnect (dial : Dial) (endpoint : Endpoint) : Except Abort Endpoint :=
  if endpoint.manager.m_port = -1 then .ok endpoint
  else do
    let endpoint := endpoint.Close.ClearCached
    let (_, endpoint) ← endpoint.Connect endpoint.manager.m_server endpoint.manager.m_port dial
    return endpoint

/-- `SocketObject::CloseConnection`. -/
def CloseConnection (endpoint : Endpoint) : Endpoint := endpoint.Close.ClearCached

/-- `EncodeMsg`: both of its branches are empty. -/
def EncodeMsg (message : NetMessage) : NetMessage := message

def SendMsg (message : NetMessage) (endpoint : Endpoint) : Endpoint :=
  endpoint.modify fun manager =>
    { manager with m_sendList := manager.m_sendList ++ [EncodeMsg message.ResetForSend] }

def InitEncrypt (endpoint : Endpoint) : Endpoint :=
  endpoint.modify fun manager =>
    { manager with m_encryptInited := true, m_sendList := manager.m_sendList.map EncodeMsg }

def getMsg (endpoint : Endpoint) : Option NetMessage := endpoint.manager.m_recvList.head?

/-- `RemoveMsg` takes out the first entry with the given address. -/
def RemoveMsg (address : Nat) (endpoint : Endpoint) : Endpoint :=
  endpoint.modify fun manager => { manager with
    m_recvList := manager.m_recvList.eraseP fun message => message.address = address }

/-- `SocketObject::HasPendingMsg`. -/
def HasPendingMsg (endpoint : Endpoint) : Bool :=
  match endpoint.getMsg with
  | some message => message.isEnd
  | none => false

end Endpoint

end EngSocket
