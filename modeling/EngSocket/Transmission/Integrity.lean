import EngSocket.Transmission.Queue

/-!
# Stream integrity

An observer notes what a program queues on a manager and what the socket of each
connection accepts. Over every run, with errors and new connections in between,
the queue of the manager is what remains of the note
(`EngSocket.Transmission.Follows.step`), so that each socket is given whole frames
in order (`EngSocket.Control.transmits`). A message of a negative size, which is never
complete, is the exception (`EngSocket.Control.not_transmits_of_unbegun`).
-/

namespace EngSocket

open Foundation

/-- The messages queued since the last reset, the bytes which the socket of the
current connection has accepted, and whether there was a `Connect`. -/
structure Transmission where
  outbox : Outbox UInt8
  dialled : Bool

namespace Transmission

/-- Nothing has happened. -/
def initial : Transmission := { outbox := .empty, dialled := false }

/-- What the observer notes. `CloseConnection` and every connection but the first
one start over; the first one is given what is queued already. -/
def note (record : Transmission) (control : Control) : Event → Transmission
  | .Connect _ _ _ =>
      { outbox := if record.dialled then .empty else { record.outbox with accepted := [] }
        dialled := true }
  | .ReConnect _ => if record.dialled then { record with outbox := .empty } else record
  | .CloseConnection => { record with outbox := .empty }
  | .SendMsg message => { record with outbox := record.outbox.queue message.wire }
  | event => { record with outbox := record.outbox.accept (control.gives event) }

end Transmission

/-- No port is `-1`, messages are finished before they are sent, and `send` returns
`-1` or at most what was asked for. -/
def Control.Regular (control : Control) : Event → Prop
  | .Connect _ port _ => port ≠ -1
  | .SendMsg message => message.Ended
  | event => control.Sends event

namespace Transmission

variable {record : Transmission} {control next : Control} {event : Event} {endpoint : Endpoint}

/-- The manager is where the observer has seen it go: before its first dial it has
neither port nor socket. -/
structure Follows (record : Transmission) (control : Control) : Prop where
  armed : control.Armed
  queue : control.endpoint.Queue record.outbox
  dialled : record.dialled = true → control.endpoint.manager.m_port ≠ -1
  undialled : record.dialled = false → control.endpoint.manager.m_port = -1 ∧
    control.endpoint.manager.m_pSocket = none ∧ record.outbox.accepted = []

/-- A call that leaves the messages and a missing socket as they are. -/
theorem Follows.of_same (follows : record.Follows control) (armed : next.Armed)
    (same : control.endpoint.SameMessages next.endpoint)
    (null : control.endpoint.manager.m_pSocket = none → next.endpoint.manager.m_pSocket = none) :
    record.Follows next where
  armed := armed
  queue := same.queue follows.queue
  dialled := by
    intro dialled
    rw [same.port]
    exact follows.dialled dialled
  undialled := by
    intro undialled
    obtain ⟨port, absent, nothing⟩ := follows.undialled undialled
    exact ⟨same.port.trans port, null absent, nothing⟩

theorem Follows.connect (follows : record.Follows (.idle endpoint)) {addr : ServerName} {port : Int}
    (dial : Dial) (regular : port ≠ -1)
    (called : endpoint.call (.Connect addr port dial) = some next) :
    (record.note (.idle endpoint) (.Connect addr port dial)).Follows next := by
  obtain ⟨result, after, -, rfl, effect⟩ := Endpoint.call_Connect called
  cases dialled : record.dialled with
  | true =>
      have set : endpoint.manager.m_port ≠ -1 := follows.dialled dialled
      rw [if_neg set] at effect
      simp only [note, dialled, ↓reduceIte]
      refine ⟨trivial, Endpoint.queue_of_nil effect.sendList, fun _ => ?_, Bool.noConfusion⟩
      rw [Control.endpoint, effect.port]
      exact regular
  | false =>
      obtain ⟨port, -, nothing⟩ := follows.undialled dialled
      have unset : endpoint.manager.m_port = -1 := port
      rw [if_pos unset] at effect
      have unchanged : { record.outbox with accepted := [] } = record.outbox := by
        rw [← nothing]
      simp only [note, dialled, Bool.false_eq_true, ↓reduceIte, unchanged]
      refine ⟨trivial, effect.queue ?_, fun _ => ?_, Bool.noConfusion⟩
      · exact ⟨follows.queue.accounted, follows.queue.sendable, follows.queue.incomplete⟩
      · rw [Control.endpoint, effect.port]
        exact regular

theorem Follows.reconnect (follows : record.Follows (.idle endpoint)) (dial : Dial)
    (called : endpoint.call (.ReConnect dial) = some next) :
    (record.note (.idle endpoint) (.ReConnect dial)).Follows next := by
  obtain ⟨after, -, rfl, effect⟩ := Endpoint.call_ReConnect called
  cases dialled : record.dialled with
  | true =>
      have set : endpoint.manager.m_port ≠ -1 := follows.dialled dialled
      rw [if_neg set] at effect
      simp only [note, dialled, ↓reduceIte]
      refine ⟨trivial, Endpoint.queue_of_nil effect.sendList, fun _ => ?_, Bool.noConfusion⟩
      rw [Control.endpoint, effect.port]
      exact endpoint.Close_same.port.trans_ne set
  | false =>
      have unset : endpoint.manager.m_port = -1 := (follows.undialled dialled).1
      rw [if_pos unset] at effect
      simp only [note, dialled, Bool.false_eq_true, ↓reduceIte, effect]
      exact follows

theorem Follows.closeConnection (follows : record.Follows (.idle endpoint)) :
    (record.note (.idle endpoint) .CloseConnection).Follows (.idle endpoint.CloseConnection) where
  armed := trivial
  queue := Endpoint.queue_of_nil rfl
  dialled := fun dialled => endpoint.Close_same.port.trans_ne (follows.dialled dialled)
  undialled := fun undialled =>
    ⟨endpoint.Close_same.port.trans (follows.undialled undialled).1, endpoint.Close_socket, rfl⟩

theorem Follows.sendMsg (follows : record.Follows (.idle endpoint)) {message : NetMessage}
    (ended : message.Ended) :
    (record.note (.idle endpoint) (.SendMsg message)).Follows (.idle (endpoint.SendMsg message)) where
  armed := trivial
  queue := Endpoint.Queue.SendMsg follows.queue ended.layout.1
  dialled := follows.dialled
  undialled := follows.undialled

/-- **A call** on an idle manager keeps the note. -/
theorem Follows.call (follows : record.Follows (.idle endpoint))
    (regular : (Control.idle endpoint).Regular event) (armed : next.Armed)
    (called : endpoint.call event = some next) :
    (record.note (.idle endpoint) event).Follows next := by
  have unchanged : { record with outbox := record.outbox.accept [] } = record := by
    rw [Outbox.accept_nil]
  cases event with
  | Connect addr port dial => exact follows.connect dial regular called
  | ReConnect dial => exact follows.reconnect dial called
  | CloseConnection =>
      cases called
      exact follows.closeConnection
  | SendMsg message =>
      cases called
      exact follows.sendMsg regular
  | Close =>
      cases called
      change Follows { record with outbox := record.outbox.accept [] } _
      rw [unchanged]
      exact follows.of_same trivial endpoint.Close_same fun _ => endpoint.Close_socket
  | InitEncrypt =>
      cases called
      change Follows { record with outbox := record.outbox.accept [] } _
      rw [unchanged]
      exact follows.of_same trivial ⟨List.map_id _, rfl, rfl, _, rfl⟩ id
  | LoadMsg =>
      change Follows { record with outbox := record.outbox.accept [] } _
      rw [unchanged]
      rcases Endpoint.call_LoadMsg called with ⟨-, rfl⟩ | ⟨message, rest, -, rfl⟩
      · exact follows.of_same trivial (.refl endpoint) id
      · exact ⟨trivial, ⟨follows.queue.accounted, follows.queue.sendable,
            follows.queue.incomplete⟩, follows.dialled, follows.undialled⟩
  | Update dt =>
      change Follows { record with outbox := record.outbox.accept [] } _
      rw [unchanged]
      rcases Endpoint.call_Update called with rfl | ⟨rfl, -⟩
      · exact follows
      · exact follows.of_same armed (.refl endpoint) id
  | reply reply => cases called

/-- **The note is kept** by every regular step. -/
theorem Follows.step (follows : record.Follows control) (regular : control.Regular event)
    (stepped : Endpoint.machine.step control event = some next) :
    (record.note control event).Follows next := by
  have armed := follows.armed.step stepped
  rcases Endpoint.step_cases stepped with ⟨endpoint, rfl, called⟩ |
    ⟨point, endpoint, reply, rfl, rfl, resumed⟩
  · exact follows.call regular armed called
  · obtain ⟨⟨socket, present⟩, -⟩ := follows.armed
    refine ⟨armed, follows.queue.resume follows.armed regular resumed, fun dialled => ?_,
      fun undialled => ?_⟩
    · rw [Endpoint.resume_port follows.armed resumed]
      exact follows.dialled dialled
    · have null := (follows.undialled undialled).2.1
      exact absurd (present.symm.trans null) (Option.some_ne_none socket)

/-- **The note is kept** over every regular run of a new manager. -/
theorem follows_of_run (process : Process) {events : List Event} {final : Control}
    (meets : Endpoint.machine.Meets Control.Regular (.idle (.new process)) events)
    (reached : Endpoint.machine.run (.idle (.new process)) events = some final) :
    (Endpoint.machine.watch note .initial (.idle (.new process)) events).Follows final := by
  have started : Transmission.initial.Follows (.idle (.new process)) :=
    ⟨trivial, Endpoint.queue_of_nil rfl, Bool.noConfusion, fun _ => ⟨rfl, rfl, rfl⟩⟩
  exact Machine.invariant note Follows
    (fun _ _ _ _ regular follows stepped => follows.step regular stepped) .initial meets reached
    started

/-- What a socket has accepted is a beginning of the frames queued for it; the messages
whose frames it has accepted whole, and only these, have left the queue. -/
def Intact (outbox : Outbox UInt8) (control : Control) : Prop :=
  outbox.accepted <+: outbox.queued.flatten ∧
    ∃ departed,
      outbox.queued = departed ++ control.endpoint.manager.m_sendList.map NetMessage.wire ∧
        departed.flatten <+: outbox.accepted ∧
          ∀ message rest, control.endpoint.manager.m_sendList = message :: rest →
            outbox.accepted.length < (departed ++ [message.wire]).flatten.length

end Transmission

/-- No message of a negative size is queued: `endForWrite` found the cursor at the
payload or behind it. -/
def Event.Sized : Event → Prop
  | .SendMsg message => 0 ≤ message.m_size
  | _ => True

namespace Endpoint

/-- The sizes of the messages to send are known. -/
def Sized (endpoint : Endpoint) : Prop :=
  ∀ message ∈ endpoint.manager.m_sendList, 0 ≤ message.m_size

/-- The messages in the queue keep their sizes. -/
theorem Move.sized {event : Event} {before after : Endpoint} (move : Move event before after)
    (known : event.Sized) (sized : before.Sized) : after.Sized := by
  unfold Sized at *
  cases move with
  | same same =>
      rw [same.sendList]
      exact sized
  | deleteSent front => exact fun message member => sized message (front ▸ .tail _ member)
  | sent sizeSended called some_ front =>
      rw [front, List.forall_mem_cons] at sized
      exact List.forall_mem_cons.mpr sized
  | queue message called =>
      subst called
      exact List.forall_mem_append.mpr ⟨sized, List.forall_mem_singleton.mpr known⟩
  | _ => exact sized

end Endpoint

theorem Control.sized_step {control next : Control} {event : Event} (armed : control.Armed)
    (known : event.Sized) (stepped : Endpoint.machine.step control event = some next)
    (sized : control.endpoint.Sized) : next.endpoint.Sized :=
  (Control.moves armed stepped).keep (fun _ _ move => move.sized known) sized

/-- **Stream integrity.** While no message of a negative size is queued, what the socket
of a connection has accepted is a beginning of the frames queued for it; the messages
whose frames it has accepted whole, and only these, have left the queue. -/
theorem Control.transmits (process : Process) {events : List Event} {final : Control}
    (meets : Endpoint.machine.Meets Control.Regular (.idle (.new process)) events)
    (sized : ∀ event ∈ events, event.Sized)
    (reached : Endpoint.machine.run (.idle (.new process)) events = some final) :
    Transmission.Intact
      (Endpoint.machine.watch Transmission.note .initial (.idle (.new process)) events).outbox
      final := by
  have follows := Transmission.follows_of_run process meets reached
  have all : final.Armed ∧ final.endpoint.Sized :=
    Machine.state_invariant (fun control => control.Armed ∧ control.endpoint.Sized)
      (fun _ _ _ known holds stepped =>
        ⟨holds.1.step stepped, Control.sized_step holds.1 known stepped holds.2⟩)
      (Machine.Meets.of_forall_mem sized _) reached ⟨trivial, List.forall_mem_nil _⟩
  obtain ⟨departed, queued, gone, waits⟩ := follows.queue.departed
  refine ⟨follows.queue.accounted.accepted_prefix, departed, queued, gone, ?_⟩
  intro message rest front
  exact waits message rest front (all.2 message (front ▸ List.mem_cons_self))

/-- A regular event that queues nothing. -/
def Control.RegularCall (control : Control) : Event → Prop
  | .Connect _ port _ => port ≠ -1
  | .SendMsg _ => False
  | event => control.Sends event

instance : DecidablePred Event.Sized
  | .SendMsg message => inferInstanceAs (Decidable (0 ≤ message.m_size))
  | .Connect _ _ _ | .ReConnect _ | .Close | .CloseConnection | .InitEncrypt | .LoadMsg
  | .Update _ | .reply _ => .isTrue trivial

instance (control : Control) : DecidablePred control.RegularCall
  | .Connect _ port _ => inferInstanceAs (Decidable (port ≠ -1))
  | .SendMsg _ => .isFalse id
  | .reply reply => inferInstanceAs (Decidable (control.Sends (.reply reply)))
  | .ReConnect _ | .Close | .CloseConnection | .InitEncrypt | .LoadMsg | .Update _ =>
      .isTrue trivial

theorem Control.RegularCall.regular {control : Control} {event : Event}
    (call : control.RegularCall event) : control.Regular event := by
  cases event with
  | SendMsg message => exact absurd call id
  | _ => exact call

/-- A message is queued before the first `Connect`; two bytes of it are accepted,
and the next `Send` fails. -/
def interrupted : List Event :=
  .SendMsg .zeroByte ::
    (establishing ++ .Update 1 :: [Reply.select .writable, .send 2, .send (-1)].map .reply)

theorem Control.transmits_of_interrupted :
    ∃ final, Endpoint.machine.run (.idle (.new .fresh)) interrupted = some final ∧
      let outbox :=
        (Endpoint.machine.watch Transmission.note .initial (.idle (.new .fresh)) interrupted).outbox
      outbox.accepted = [0, 1] ∧ Transmission.Intact outbox final := by
  have runs : (Endpoint.machine.run (.idle (.new .fresh)) interrupted).isSome = true := by decide
  have later : Endpoint.machine.Meets Control.RegularCall
      (.idle ((Endpoint.new .fresh).SendMsg .zeroByte)) interrupted.tail := by decide
  have meets : Endpoint.machine.Meets Control.Regular (.idle (.new .fresh)) interrupted :=
    (Machine.meets_cons_of_step rfl).mpr
      ⟨NetMessage.zeroByte_ended, later.mono fun _ _ call => call.regular⟩
  have sized : ∀ event ∈ interrupted, event.Sized := by decide
  obtain ⟨final, reached⟩ := Option.isSome_iff_exists.mp runs
  exact ⟨final, reached, by decide, Control.transmits .fresh meets sized reached⟩

/-! ## A message of a negative size -/

/-- Five bytes are written to a new message without `beginForWrite`. -/
def NetMessage.unbegunDraft : NetMessage :=
  match (NetMessage.new 512 .fresh).1.wRaw [1, 2, 3, 4, 5] .fresh with
  | .ok (message, _) => message
  | .error _ => .zeroDraft

/-- What `endForWrite` makes of it: `m_size` is `-1`. -/
def NetMessage.unbegun : NetMessage :=
  match NetMessage.unbegunDraft.endForWrite .fresh with
  | .ok (message, _) => message
  | .error _ => .unbegunDraft

theorem NetMessage.unbegun_ended : NetMessage.unbegun.Ended := by
  have returns : (unbegunDraft.endForWrite .fresh).toOption.isSome = true := by decide
  obtain ⟨⟨after, left⟩, returned⟩ := Option.isSome_iff_exists.mp returns
  have done := toOption_eq_some returned
  have same : unbegun = after := by
    rw [unbegun, done]
  exact ⟨unbegunDraft, _, _, by decide, same ▸ done⟩

/-- The one byte on the wire is accepted, and the message stays. -/
def stuck : List Event :=
  .SendMsg .unbegun ::
    (establishing ++ .Update 1 :: [Reply.select .writable, .send 1, .send 0].map .reply)

/-- **A negative size breaks it**: a message stays in `m_sendList` whose last byte was
accepted. -/
theorem Control.not_transmits_of_unbegun :
    ¬ ∀ (process : Process) (events : List Event) (final : Control),
      Endpoint.machine.Meets Control.Regular (.idle (.new process)) events →
        Endpoint.machine.run (.idle (.new process)) events = some final →
          Transmission.Intact
            (Endpoint.machine.watch Transmission.note .initial (.idle (.new process)) events).outbox
            final := by
  intro claimed
  have ran : (Endpoint.machine.run (.idle (.new .fresh)) stuck).map
      (fun control => control.endpoint.manager.m_sendList.map NetMessage.wire) = some [[255]] := by
    decide
  have later : Endpoint.machine.Meets Control.RegularCall
      (.idle ((Endpoint.new .fresh).SendMsg .unbegun)) stuck.tail := by decide
  have meets : Endpoint.machine.Meets Control.Regular (.idle (.new .fresh)) stuck :=
    (Machine.meets_cons_of_step rfl).mpr
      ⟨NetMessage.unbegun_ended, later.mono fun _ _ call => call.regular⟩
  obtain ⟨final, reached, wires⟩ := Option.map_eq_some_iff.mp ran
  obtain ⟨-, departed, queued, -, waits⟩ := claimed .fresh stuck final meets reached
  obtain ⟨message, rest, front, wire, -⟩ := List.map_eq_cons_iff.mp wires
  have noted : (Endpoint.machine.watch Transmission.note .initial (.idle (.new .fresh))
      stuck).outbox.queued = [[255]] := by decide
  have accepted : (Endpoint.machine.watch Transmission.note .initial (.idle (.new .fresh))
      stuck).outbox.accepted = [255] := by decide
  have before := waits message rest front
  rw [noted, wires] at queued
  have none_ : departed = [] := List.self_eq_append_left.mp queued
  rw [accepted, none_, wire] at before
  exact lt_irrefl _ before

end EngSocket
