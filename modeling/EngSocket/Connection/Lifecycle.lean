import EngSocket.Connection.Soundness

/-!
# Socket and state

`DoConnect`, `OnError`, `OnTimeOut`, `OnSuccess` and `Close` set `m_pSocket` and
`m_netState` one after the other. Whenever one of the calls has returned, the two
agree: there is a socket exactly in the states Connecting and Connected
(`EngSocket.Control.socket_iff_state`).
-/

namespace EngSocket

open Foundation

namespace Endpoint

/-- The manager is connecting or connected. -/
def IsOpen (endpoint : Endpoint) : Prop :=
  endpoint.GetState = .Connecting ∨ endpoint.GetState = .Connected

/-- There is a socket exactly if the manager is connecting or connected. -/
def Coherent (endpoint : Endpoint) : Prop :=
  endpoint.manager.m_pSocket.isSome = true ↔ endpoint.IsOpen

/-- `Update` does nothing, and only a dial changes the state. -/
structure Dormant (endpoint : Endpoint) : Prop where
  update : ∀ dt, endpoint.Update dt = .idle endpoint
  state : ∀ event next, event.dials = false →
    machine.step (.idle endpoint) event = some next → next.endpoint.GetState = endpoint.GetState

/-- Neither the socket nor the state differs. -/
structure SameConnection (before after : Endpoint) : Prop where
  socket : after.manager.m_pSocket = before.manager.m_pSocket
  state : after.GetState = before.GetState

variable {endpoint : Endpoint}

/-- Without a socket a manager is neither connecting nor connected. -/
theorem coherent_of_closed (state : NetConState) (null : endpoint.manager.m_pSocket = none)
    (here : endpoint.GetState = state) (closed : state ≠ .Connecting ∧ state ≠ .Connected) :
    endpoint.Coherent := by
  unfold Coherent IsOpen
  rw [null, here]
  constructor
  · intro present
    exact absurd present Bool.noConfusion
  · rintro (connecting | connected)
    · exact absurd connecting closed.1
    · exact absurd connected closed.2

/-- With a socket it is one or the other. -/
theorem coherent_of_open {socket : CSocketCommon}
    (present : endpoint.manager.m_pSocket = some socket) (isOpen : endpoint.IsOpen) :
    endpoint.Coherent := by
  unfold Coherent
  rw [present]
  exact ⟨fun _ => isOpen, fun _ => rfl⟩

theorem Coherent.isOpen (coherent : endpoint.Coherent) {socket : CSocketCommon}
    (present : endpoint.manager.m_pSocket = some socket) : endpoint.IsOpen := by
  apply coherent.mp
  rw [present]
  rfl

/-- What can become of a connection at an event that is no dial. -/
inductive Passes (before after : Endpoint) : Prop
  | kept (socket : after.manager.m_pSocket.isSome = before.manager.m_pSocket.isSome)
      (state : after.GetState = before.GetState)
  | closed (null : after.manager.m_pSocket = none)
      (state : after.GetState ≠ .Connecting ∧ after.GetState ≠ .Connected)
  | succeeded (connecting : before.GetState = .Connecting)
      (socket : after.manager.m_pSocket.isSome = true) (state : after.GetState = .Connected)

/-- What keeps socket and state is allowed. -/
theorem SameConnection.passes {after : Endpoint} (same : endpoint.SameConnection after) :
    endpoint.Passes after :=
  .kept (congrArg Option.isSome same.socket) same.state

theorem Passes.refl (endpoint : Endpoint) : endpoint.Passes endpoint := .kept rfl rfl

/-- Steps that are allowed are allowed one after the other. -/
theorem Passes.trans {first second third : Endpoint} (earlier : first.Passes second)
    (later : second.Passes third) : first.Passes third := by
  cases later with
  | kept socket state =>
      cases earlier with
      | kept before same => exact .kept (socket.trans before) (state.trans same)
      | closed null closed =>
          rw [null, Option.isSome_none, Option.isSome_eq_false_iff, Option.isNone_iff_eq_none]
            at socket
          exact .closed socket (state.symm ▸ closed)
      | succeeded connecting present connected =>
          exact .succeeded connecting (socket.trans present) (state.trans connected)
  | closed null state => exact .closed null state
  | succeeded connecting socket state =>
      cases earlier with
      | kept before same => exact .succeeded (same.symm.trans connecting) socket state
      | closed null closed => exact absurd connecting closed.1
      | succeeded connecting' present connected =>
          exact absurd (connected.symm.trans connecting) NetConState.noConfusion

/-- A manager whose socket and state agree passes into one of which that holds too. -/
theorem Passes.coherent {after : Endpoint} (passes : endpoint.Passes after)
    (coherent : endpoint.Coherent) : after.Coherent := by
  unfold Coherent IsOpen at *
  cases passes with
  | kept socket state =>
      rw [socket, state]
      exact coherent
  | closed null state => exact coherent_of_closed _ null rfl state
  | succeeded connecting socket state => exact ⟨fun _ => Or.inr state, fun _ => socket⟩

/-- Only a dial makes a manager connect. -/
theorem Passes.not_connecting {after : Endpoint} (passes : endpoint.Passes after)
    (settled : endpoint.GetState ≠ .Connecting) : after.GetState ≠ .Connecting := by
  cases passes with
  | kept socket state =>
      rw [state]
      exact settled
  | closed null state => exact state.1
  | succeeded connecting socket state => exact absurd connecting settled

/-- `Close` leaves the state alone when there is no socket. -/
theorem Close_passes (endpoint : Endpoint) : endpoint.Passes endpoint.Close := by
  cases present : endpoint.manager.m_pSocket with
  | none =>
      rw [Close_of_null present]
      exact .kept rfl rfl
  | some socket =>
      rw [Close_of_socket present]
      exact .closed rfl ⟨NetConState.noConfusion, NetConState.noConfusion⟩

/-- `OnError` closes the socket. -/
theorem OnError_passes (code : NetErrorCode) (endpoint : Endpoint) :
    endpoint.Passes (endpoint.OnError code) :=
  .closed (OnError_socket code endpoint) ⟨NetConState.noConfusion, NetConState.noConfusion⟩

/-- `OnError` leaves neither a socket nor a connection. -/
theorem OnError_coherent (code : NetErrorCode) (endpoint : Endpoint) :
    (endpoint.OnError code).Coherent :=
  coherent_of_closed .ConnectError (OnError_socket code endpoint) rfl (by decide)

/-! ## `Update` -/

theorem recvLoop_sameConnection (endpoint : Endpoint) :
    endpoint.SameConnection endpoint.recvLoop.endpoint := by
  unfold recvLoop
  split
  · exact ⟨rfl, rfl⟩
  · split
    · exact ⟨endpoint.pickMessage_socket, endpoint.pickMessage_state⟩
    · exact ⟨rfl, rfl⟩

theorem sendMessage_sameConnection (message : NetMessage) (rest : List NetMessage)
    (endpoint : Endpoint) :
    endpoint.SameConnection (endpoint.sendMessage message rest).endpoint := by
  unfold sendMessage
  split
  · exact ⟨rfl, rfl⟩
  · exact ⟨rfl, rfl⟩

theorem sendLoop_sameConnection (endpoint : Endpoint) :
    endpoint.SameConnection endpoint.sendLoop.endpoint := by
  unfold sendLoop
  split
  · exact ⟨rfl, rfl⟩
  · split
    · split
      · exact endpoint.recvLoop_sameConnection
      · exact sendMessage_sameConnection _ _ endpoint
    · exact endpoint.recvLoop_sameConnection

/-- A connection that is awaited stands, is given up or is awaited further. -/
theorem awaitConnection_passes (connecting : endpoint.GetState = .Connecting) (dt : Int) :
    endpoint.Passes (endpoint.awaitConnection dt).endpoint := by
  unfold awaitConnection
  split
  · exact .refl endpoint
  · next socket present =>
      split
      · split
        · exact .succeeded connecting (congrArg Option.isSome present) rfl
        · exact .kept rfl rfl
      · simp only
        split
        · exact .closed (Close_socket _) ⟨NetConState.noConfusion, NetConState.noConfusion⟩
        · exact .kept rfl rfl

/-- So does the part of an `Update` behind its first `CheckState`. -/
theorem afterFirstCheck_passes (dt : Int) (endpoint : Endpoint) :
    endpoint.Passes (endpoint.afterFirstCheck dt).endpoint := by
  unfold afterFirstCheck
  split
  · exact .refl endpoint
  · split
    · next connecting => exact awaitConnection_passes connecting dt
    · exact endpoint.sendLoop_sameConnection.passes

/-- `CheckState` closes the connection or keeps it up. -/
theorem CheckState_passes {reply : SelectReply} {result : Bool} {after : Endpoint}
    (done : endpoint.CheckState reply = .ok (result, after)) : endpoint.Passes after := by
  cases present : endpoint.manager.m_pSocket with
  | none => cases (CheckState_of_null reply present).symm.trans done
  | some socket =>
      cases outcome : reply.failed with
      | true =>
          obtain ⟨closed, checked, -, null, state⟩ := CheckState_of_failed outcome present
          cases checked.symm.trans done
          refine .closed null ?_
          rw [state]
          exact ⟨NetConState.noConfusion, NetConState.noConfusion⟩
      | false =>
          cases (CheckState_of_not_failed outcome present).symm.trans done
          exact .kept (congrArg Option.isSome present).symm rfl

/-- A `CheckState` that fails closes the socket. -/
theorem checkStateThen_passes (reply : SelectReply) {next : Endpoint → Control}
    (passes : ∀ current : Endpoint, current.Passes (next current).endpoint)
    (endpoint : Endpoint) : endpoint.Passes (endpoint.checkStateThen reply next).endpoint := by
  unfold checkStateThen
  split
  · next result after done => exact (CheckState_passes done).trans (passes after)
  · exact .refl endpoint

/-- **No answer** brings a socket or begins to connect. -/
theorem resume_passes {point : Point} {reply : Reply} {control : Control}
    (armed : (Control.waiting point endpoint).Armed)
    (resumed : endpoint.resume point reply = some control) :
    endpoint.Passes control.endpoint := by
  obtain ⟨-, about⟩ := armed
  cases point with
  | checkFirst dt =>
      cases reply with
      | select answer =>
          cases resumed
          exact checkStateThen_passes answer (afterFirstCheck_passes dt) endpoint
      | _ => cases resumed
  | checkSend =>
      cases reply with
      | select answer =>
          cases resumed
          exact checkStateThen_passes answer
            (fun current => current.sendLoop_sameConnection.passes) endpoint
      | _ => cases resumed
  | checkRecv =>
      cases reply with
      | select answer =>
          cases resumed
          exact checkStateThen_passes answer
            (fun current => current.recvLoop_sameConnection.passes) endpoint
      | _ => cases resumed
  | send =>
      cases reply with
      | send sizeSended =>
          obtain ⟨message, rest, front, -⟩ := about
          rcases resume_send front resumed with ⟨-, rfl⟩ | ⟨-, ⟨-, rfl⟩ | ⟨-, rfl⟩⟩
          · exact OnError_passes .SendZeroByte endpoint
          · exact .kept rfl rfl
          · exact .kept rfl rfl
      | _ => cases resumed
  | recv =>
      obtain ⟨older, message, back, -⟩ := about
      rcases resume_cases resumed with ⟨answer, rfl, -⟩ | ⟨sizeSended, sends, -⟩ |
        ⟨bytes, -, rfl, nonempty⟩ | ⟨-, ends⟩
      · cases resumed
      · cases sends
      · rcases resume_recv back nonempty resumed with ⟨reason, -, rfl⟩ |
          ⟨filled, -, ⟨reason, -, rfl⟩ | ⟨after, process, -, rfl⟩⟩
        · exact .refl endpoint
        · exact .refl endpoint
        · exact .kept rfl rfl
      · rw [resume_recv_closed back ends resumed]
        exact OnError_passes .RecvZeroByte endpoint

/-- **No call** but `Connect` and `ReConnect` does. -/
theorem call_passes {event : Event} {control : Control} (own : event.dials = false)
    (called : endpoint.call event = some control) : endpoint.Passes control.endpoint := by
  cases event with
  | Connect addr port dial => cases own
  | ReConnect dial => cases own
  | Close =>
      cases called
      exact endpoint.Close_passes
  | CloseConnection =>
      cases called
      exact endpoint.Close_passes.trans (.kept rfl rfl)
  | LoadMsg =>
      rcases call_LoadMsg called with ⟨-, rfl⟩ | ⟨message, rest, -, rfl⟩
      · exact .refl endpoint
      · exact .kept rfl rfl
  | Update dt =>
      rcases call_Update called with rfl | ⟨rfl, -⟩
      · exact .refl endpoint
      · exact .refl endpoint
  | reply reply => cases called
  | _ =>
      cases called
      exact .kept rfl rfl

/-! ## Dialling -/

/-- Whatever becomes of the addresses, `DoConnect` leaves socket and state in
agreement. -/
theorem DoConnect_coherent {addr : ServerName} {port : Int} {dial : Dial} {result : Bool}
    {after : Endpoint} (done : endpoint.DoConnect addr port dial = .ok (result, after)) :
    after.Coherent := by
  rcases endpoint.DoConnect_cases addr port dial with
    ⟨reached, errorCode, failed, -⟩ | ⟨reached, socket, checks, -, present⟩
  · cases failed.symm.trans done
    exact OnError_coherent errorCode reached
  · rw [checks] at done
    exact (CheckState_passes done).coherent (coherent_of_open present (Or.inl rfl))

/-- `Connect` leaves socket and state in agreement, whatever was before. -/
theorem Connect_coherent {addr : ServerName} {port : Int} {dial : Dial} {result : Bool}
    {after : Endpoint} (done : endpoint.Connect addr port dial = .ok (result, after)) :
    after.Coherent := by
  unfold Connect at done
  split at done
  · exact DoConnect_coherent done
  · exact DoConnect_coherent done

/-- `ReConnect` keeps them in agreement. -/
theorem Coherent.ReConnect (coherent : endpoint.Coherent) {dial : Dial} {after : Endpoint}
    (done : endpoint.ReConnect dial = .ok after) : after.Coherent := by
  unfold Endpoint.ReConnect at done
  split at done
  · cases done
    exact coherent
  · obtain ⟨⟨result, dialled⟩, connects, done⟩ := NetMessage.bind_eq_ok done
    cases done
    exact Connect_coherent connects

/-- So does every call. -/
theorem Coherent.call {event : Event} {control : Control} (coherent : endpoint.Coherent)
    (called : endpoint.call event = some control) : control.endpoint.Coherent := by
  cases event with
  | Connect addr port dial =>
      obtain ⟨result, after, done, rfl, -⟩ := call_Connect called
      exact Connect_coherent done
  | ReConnect dial =>
      obtain ⟨after, done, rfl, -⟩ := call_ReConnect called
      exact coherent.ReConnect done
  | _ => exact (call_passes rfl called).coherent coherent

end Endpoint

open Endpoint

/-- So does every step. -/
theorem Control.coherent_step {control next : Control} {event : Event}
    (coherent : control.endpoint.Coherent) (armed : control.Armed)
    (stepped : machine.step control event = some next) : next.endpoint.Coherent := by
  rcases step_cases stepped with ⟨endpoint, rfl, called⟩ |
    ⟨point, endpoint, reply, rfl, rfl, resumed⟩
  · exact Coherent.call coherent called
  · exact (resume_passes armed resumed).coherent coherent

/-- **Without a dial** a connection is kept, closed, or comes up. -/
theorem Control.passes_step {control next : Control} {event : Event} (armed : control.Armed)
    (own : event.dials = false) (stepped : machine.step control event = some next) :
    control.endpoint.Passes next.endpoint := by
  rcases step_cases stepped with ⟨endpoint, rfl, called⟩ |
    ⟨point, endpoint, reply, rfl, rfl, resumed⟩
  · exact call_passes own called
  · exact resume_passes armed resumed

/-- A manager that is neither connecting nor connected has no socket, and without
one `Update` returns at once. -/
theorem Endpoint.Coherent.dormant {endpoint : Endpoint} (coherent : endpoint.Coherent)
    (closed : ¬ endpoint.IsOpen) : endpoint.Dormant where
  update := by
    intro dt
    rcases endpoint.Update_cases dt with still | ⟨-, socket, present⟩
    · exact still
    · exact absurd (coherent.isOpen present) closed
  state := by
    intro event next own stepped
    have null : endpoint.manager.m_pSocket = none := by
      cases present : endpoint.manager.m_pSocket with
      | none => rfl
      | some socket => exact absurd (coherent.isOpen present) closed
    cases event with
    | Connect addr port dial => cases own
    | ReConnect dial => cases own
    | Close =>
        cases stepped
        change endpoint.Close.GetState = _
        rw [Close_of_null null]
        rfl
    | CloseConnection =>
        cases stepped
        change endpoint.Close.GetState = _
        rw [Close_of_null null]
        rfl
    | LoadMsg =>
        rcases call_LoadMsg stepped with ⟨-, rfl⟩ | ⟨message, rest, -, rfl⟩
        · rfl
        · rfl
    | Update dt =>
        rcases call_Update stepped with rfl | ⟨-, socket, present⟩
        · rfl
        · cases null.symm.trans present
    | reply reply => cases stepped
    | _ =>
        cases stepped
        rfl

/-- **Socket and state agree** after every operation, and a manager without a
connection stays as it is until it is told to dial. -/
theorem Control.socket_iff_state (process : Process) {events : List Event} {control : Control}
    (reached : machine.run (.idle (.new process)) events = some control) :
    (control.endpoint.manager.m_pSocket.isSome = true ↔
        control.endpoint.GetState = .Connecting ∨ control.endpoint.GetState = .Connected) ∧
      (¬ (control.endpoint.GetState = .Connecting ∨ control.endpoint.GetState = .Connected) →
        control.endpoint.Dormant) := by
  have start : (Endpoint.new process).Coherent :=
    coherent_of_closed .Disconnected rfl rfl (by decide)
  have coherent : control.endpoint.Coherent :=
    (Machine.state_invariant (fun control => control.Armed ∧ control.endpoint.Coherent)
      (fun _ _ _ _ holds stepped =>
        ⟨holds.1.step stepped, Control.coherent_step holds.2 holds.1 stepped⟩)
      (Machine.Meets.of_forall (fun _ _ => trivial) events _) reached ⟨trivial, start⟩).2
  exact ⟨coherent, coherent.dormant⟩

theorem Control.socket_iff_state_of_establishing :
    ∃ control, machine.run (.idle (.new .fresh)) (establishing ++ [.Close]) = some control ∧
      (control.endpoint.manager.m_pSocket.isSome = true ↔
          control.endpoint.GetState = .Connecting ∨ control.endpoint.GetState = .Connected) ∧
        control.endpoint.Dormant := by
  have ran : (machine.run (.idle (.new .fresh)) (establishing ++ [.Close])).map
      (fun control => control.endpoint.GetState) = some .Disconnected := by decide
  obtain ⟨control, reached, state⟩ := Option.map_eq_some_iff.mp ran
  obtain ⟨agrees, dormant⟩ := Control.socket_iff_state .fresh reached
  exact ⟨control, reached, agrees, dormant (by rw [state]; decide)⟩

end EngSocket
