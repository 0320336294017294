import EngSocket.Network.Session

/-!
# Sessions as mailboxes

One direction of a session is followed by a `Passage`, which each step of the
sender (`EngSocket.Passage.Joins.send`) and of the receiver
(`EngSocket.Passage.Joins.receive`) moves on. Both directions together make the
session simulate a mailbox for each side (`EngSocket.Session.simulates`): whatever
the interleaving and however the bytes are cut, letters are fetched in the order in
which they were posted, and none is lost while the connection lasts.
-/

namespace EngSocket

open Foundation

/-- What has happened in one direction: the frames queued and the bytes accepted at
one end, the bytes received at the other, and of what was read from them the items
that were fetched and those that wait. -/
structure Passage where
  frames : List Frame
  accepted : List UInt8
  consumed : List UInt8
  fetched : List Item
  waiting : List Item

/-- The sender and the receiver are at the ends of the passage, and the letters are
those on their way. -/
structure Passage.Joins (passage : Passage) (sender : Control) (receiver : Link)
    (letters : List (List UInt8)) : Prop where
  valid : ∀ frame ∈ passage.frames, frame.Valid
  sends : Transmission.Follows
    { outbox := { queued := passage.frames.map Frame.bytes, accepted := passage.accepted }
      dialled := true } sender
  stream : passage.consumed ++ receiver.unread = passage.accepted
  emitted : (frameDecoder.feed frameDecoder.start passage.consumed).2 =
    passage.fetched ++ passage.waiting
  letters : passage.frames.map Frame.payload = passage.fetched.map Item.payload ++ letters
  place : receiver.control.Stands
    ((frameDecoder.feed frameDecoder.start passage.consumed).1, passage.waiting)

namespace Passage

variable {control next sender : Control} {event : Event} {passage : Passage}
  {receiver after : Link} {letters : List (List UInt8)}

theorem regular_of_healthy (healthy : control.Healthy event) : control.Regular event := by
  cases event with
  | SendMsg message =>
      obtain ⟨payload, bounded, written⟩ := healthy
      exact (written.finished bounded).2.2
  | Connect => exact absurd healthy id
  | reply reply =>
      cases reply with
      | send sizeSended => exact healthy
      | _ => trivial
  | _ => trivial

/-- **A step of the sender.** -/
theorem Joins.send (joins : passage.Joins sender receiver letters) (healthy : sender.Healthy event)
    (stepped : Endpoint.machine.step sender event = some next) :
    ∃ moved : Passage, moved.Joins next (Session.deliver (sender.gives event) receiver)
      (letters ++ Session.posts event) := by
  have follows := joins.sends.step (regular_of_healthy healthy) stepped
  have stream : passage.consumed ++ (receiver.unread ++ sender.gives event) =
      passage.accepted ++ sender.gives event := by
    rw [← List.append_assoc, joins.stream]
  cases event with
  | SendMsg message =>
      obtain ⟨payload, bounded, written⟩ := healthy
      obtain ⟨finished, -⟩ := written.finished bounded
      refine ⟨{ passage with frames := passage.frames ++ [Frame.of payload] },
        ?_, ?_, ?_, joins.emitted, ?_, joins.place⟩
      · exact List.forall_mem_append.mpr
          ⟨joins.valid, List.forall_mem_singleton.mpr (Frame.valid_of bounded)⟩
      · simp only [Transmission.note, Outbox.queue, finished.wire] at follows
        simp only [List.map_append, List.map_cons, List.map_nil]
        exact follows
      · exact stream.trans (List.append_nil _)
      · simp only [Session.posts, finished.contents_eq, List.map_append, List.map_cons,
          List.map_nil, Frame.payload_of, joins.letters, List.append_assoc]
  | Connect => exact absurd healthy id
  | ReConnect => exact absurd healthy id
  | CloseConnection => exact absurd healthy id
  | _ =>
      refine ⟨{ passage with accepted := passage.accepted ++ sender.gives _ },
        joins.valid, follows, stream, joins.emitted, ?_, joins.place⟩
      change _ = _ ++ (letters ++ [])
      rw [List.append_nil]
      exact joins.letters

/-- What was received is a beginning of the frames queued. -/
theorem Joins.consumed_prefix (joins : passage.Joins sender receiver letters) :
    passage.consumed ++ receiver.unread <+: (passage.frames.map Frame.bytes).flatten := by
  rw [joins.stream]
  exact joins.sends.queue.accounted.accepted_prefix

/-- The items that wait are the first letters. -/
theorem Joins.waiting_prefix (joins : passage.Joins sender receiver letters) :
    passage.waiting.map Item.payload <+: letters := by
  have read := feed_arrived joins.valid ((List.prefix_append _ _).trans joins.consumed_prefix)
  obtain ⟨rest, frames⟩ := Frame.arrived_prefix passage.frames passage.consumed.length
  have payloads := joins.letters
  rw [← frames, List.map_append, ← Frame.map_item_payload, ← read, joins.emitted, List.map_append,
    List.append_assoc] at payloads
  exact ⟨_, List.append_cancel_left payloads⟩

/-- **A step of the receiver.** What it fetches is the first letters. -/
theorem Joins.receive (joins : passage.Joins sender receiver letters)
    (sound : receiver.control.Sound) (armed : receiver.control.Armed)
    (healthy : receiver.control.Healthy event)
    (stepped : Link.machine.step receiver event = some after) :
    ∃ (moved : Passage) (left : List (List UInt8)),
      letters = Session.fetches receiver.control event ++ left ∧ moved.Joins sender after left := by
  obtain ⟨taken, unread⟩ := Link.step_eq_some stepped
  by_cases loads : event = .LoadMsg
  · subst loads
    obtain ⟨item, others, message, waiting, given, complete, place⟩ :=
      joins.place.load healthy taken
    obtain ⟨left, first⟩ := joins.waiting_prefix
    have contents := complete.carries.contents_eq
    simp only at waiting
    rw [waiting, List.map_cons, List.cons_append] at first
    refine ⟨{ passage with fetched := passage.fetched ++ [item], waiting := others },
      others.map Item.payload ++ left, ?_, joins.valid, joins.sends, ?_, ?_, ?_, place⟩
    · simp only [Session.fetches, given, List.map_cons, List.map_nil, contents]
      exact first.symm
    · exact (congrArg _ (show after.unread = receiver.unread from unread)).trans joins.stream
    · rw [joins.emitted, waiting, List.append_assoc]
      rfl
    · rw [joins.letters, ← first, List.map_append, List.append_assoc]
      rfl
  · have silent : Session.fetches receiver.control event = [] := by
      cases event with
      | LoadMsg => exact absurd rfl loads
      | _ => rfl
    have stream : passage.consumed ++ event.piece ++ after.unread = passage.accepted := by
      rw [List.append_assoc, unread, joins.stream]
    have bounded := bounded_of_prefix joins.valid
      (((List.prefix_append _ _).trans (by rw [stream, ← joins.stream])).trans
        joins.consumed_prefix : passage.consumed ++ event.piece <+: _)
    rw [Decoder.feed_append] at bounded
    have place := joins.place.step sound armed healthy loads bounded taken
    refine ⟨{ passage with
        consumed := passage.consumed ++ event.piece
        waiting := passage.waiting ++ (frameDecoder.feed
          (frameDecoder.feed frameDecoder.start passage.consumed).1 event.piece).2 }, letters,
      by rw [silent, List.nil_append], joins.valid, joins.sends, stream, ?_, joins.letters, ?_⟩
    · rw [Decoder.feed_append, joins.emitted, List.append_assoc]
    · rw [Decoder.feed_append]
      exact place

end Passage

/-! ## Both directions -/

namespace Session

variable {links next : Side → Link} {letters : Side → List (List UInt8)}

/-- The two sides are at the ends of two passages, with the letters to each side. -/
structure Joined (links : Side → Link) (letters : Side → List (List UInt8)) : Prop where
  sound : ∀ side, (links side).control.Sound
  armed : ∀ side, (links side).control.Armed
  passage : ∀ side, ∃ passage : Passage,
    passage.Joins (links side.other).control (links side) (letters side)

/-- A side after a step of this side. -/
theorem step_eq_some {event : Side × Event} (stepped : machine.step links event = some next) :
    ∃ link, Link.machine.step (links event.1) event.2 = some link ∧ next event.1 = link ∧
      next event.1.other =
        deliver ((links event.1).control.gives event.2) (links event.1.other) := by
  obtain ⟨link, taken, rfl⟩ := Option.map_eq_some_iff.mp stepped
  refine ⟨link, taken, ?_, Function.update_self _ _ _⟩
  rw [Function.update_of_ne event.1.other_ne.symm, Function.update_self]

theorem sound_of_healthy {control : Control} {event : Event} (healthy : control.Healthy event) :
    event.Sound := by
  cases event with
  | SendMsg message =>
      obtain ⟨payload, bounded, written⟩ := healthy
      exact (written.finished bounded).2.1
  | _ => trivial

/-- What is visible of a step moves the mailboxes. -/
theorem run_visible {event : Side × Event} {left : List (List UInt8)}
    (fetched : letters event.1 = fetches (links event.1).control event.2 ++ left) :
    Mailbox.machine.family.run letters (visible links event) =
      some (Function.update (Function.update letters event.1.other
        (letters event.1.other ++ posts event.2)) event.1 left) := by
  have posted := Machine.run_family_map (Mailbox.run_post (letters event.1.other) (posts event.2))
  have kept : Function.update letters event.1.other (letters event.1.other ++ posts event.2)
      event.1 = fetches (links event.1).control event.2 ++ left := by
    rw [Function.update_of_ne event.1.other_ne.symm, fetched]
  have emptied := Mailbox.run_fetch (fetches (links event.1).control event.2) left
  rw [← kept] at emptied
  have loaded := Machine.run_family_map emptied
  rw [List.map_map] at posted loaded
  rw [visible, Machine.run_append]
  exact (congrArg (Option.bind · _) posted).trans loaded

/-- **A session is a mailbox for each side.** -/
theorem simulates :
    Simulation machine Mailbox.machine.family Healthy visible Joined := by
  intro links letters event next healthy joined stepped
  obtain ⟨side, event⟩ := event
  obtain ⟨link, taken, here, there⟩ := step_eq_some stepped
  simp only at taken here there
  obtain ⟨moved, -⟩ := Link.step_eq_some taken
  have sound := (joined.sound side).step (joined.armed side) (sound_of_healthy healthy) moved
  have armed := (joined.armed side).step moved
  obtain ⟨incoming, joins⟩ := joined.passage side
  obtain ⟨incoming', left, fetched, joins⟩ :=
    joins.receive (joined.sound side) (joined.armed side) healthy taken
  obtain ⟨outgoing, sends⟩ := joined.passage side.other
  rw [Side.other_other] at sends
  obtain ⟨outgoing', sends⟩ := sends.send healthy moved
  have apart := side.other_ne
  refine ⟨_, run_visible fetched, ⟨fun which => ?_, fun which => ?_, fun which => ?_⟩⟩
  all_goals rcases which.eq_or_eq_other side with rfl | rfl
  · rw [here]
    exact sound
  · rw [there]
    exact joined.sound _
  · rw [here]
    exact armed
  · rw [there]
    exact joined.armed _
  · rw [here, there, Function.update_self]
    exact ⟨incoming', joins⟩
  · rw [Side.other_other, here, there, Function.update_of_ne apart, Function.update_self]
    exact ⟨outgoing', sends⟩

/-! ## Whole sessions -/

/-- The connection has just been established, and nothing was queued or received. -/
def Established (links : Side → Link) : Prop :=
  ∀ side, ∃ endpoint : Endpoint, links side = { control := .idle endpoint, unread := [] } ∧
    endpoint.Sound ∧ endpoint.manager.m_sendList = [] ∧ endpoint.manager.m_recvList = [] ∧
      endpoint.manager.m_port ≠ -1

/-- The letters posted to a side along a run. -/
def posted (side : Side) (links : Side → Link) (events : List (Side × Event)) :
    List (List UInt8) :=
  (Machine.eventsOf side (machine.observe visible links events)).filterMap Mailbox.Action.posted

/-- The letters fetched on a side along a run. -/
def fetched (side : Side) (links : Side → Link) (events : List (Side × Event)) :
    List (List UInt8) :=
  (Machine.eventsOf side (machine.observe visible links events)).filterMap Mailbox.Action.fetched

theorem Established.joined (established : Established links) : Joined links fun _ => [] := by
  refine ⟨fun side => ?_, fun side => ?_, fun side => ?_⟩
  · obtain ⟨endpoint, same, sound, -⟩ := established side
    rw [same]
    exact sound
  · obtain ⟨endpoint, same, -⟩ := established side
    rw [same]
    trivial
  · obtain ⟨sender, there, -, unsent, -, port⟩ := established side.other
    obtain ⟨receiver, here, -, -, unread, -⟩ := established side
    rw [there, here]
    exact ⟨⟨[], [], [], [], []⟩, List.forall_mem_nil _,
      ⟨trivial, Endpoint.queue_of_nil unsent, fun _ => port, Bool.noConfusion⟩, rfl, rfl, rfl,
      Or.inl ⟨[], .nil, Or.inl ⟨rfl, unread⟩⟩⟩

/-- **A run of a session** is a run of the mailboxes. -/
theorem Established.run (established : Established links) {final : Side → Link}
    {events : List (Side × Event)} (meets : machine.Meets Healthy links events)
    (reached : machine.run links events = some final) :
    ∃ letters, Joined final letters ∧
      ∀ side, posted side links events = fetched side links events ++ letters side := by
  obtain ⟨letters, ran, joined⟩ := simulates.run meets reached established.joined
  exact ⟨letters, joined, fun side => Mailbox.conserves (Machine.run_family ran side)⟩

/-- The complete messages of the receiver hold the first letters; they are all the
letters once the sender's list and the stream are empty. -/
theorem Joined.waiting (joined : Joined links letters) (side : Side) :
    ∃ done rest, (links side).control.endpoint.manager.m_recvList = done ++ rest ∧
      rest.length ≤ 1 ∧ (∀ message ∈ done, message.isEnd = true) ∧
        (∀ message ∈ rest, message.isEnd = false) ∧
        ∃ underway, letters side = done.map NetMessage.contents ++ underway ∧
          ((links side.other).control.endpoint.manager.m_sendList = [] →
            (links side).unread = [] → underway = []) := by
  obtain ⟨passage, joins⟩ := joined.passage side
  obtain ⟨done, rest, list, few, open_, complete⟩ := joins.place.held
  have contents : done.map NetMessage.contents = passage.waiting.map Item.payload :=
    map_contents complete
  have ended : ∀ message ∈ done, message.isEnd = true := by
    intro message member
    obtain ⟨item, complete⟩ := exists_of_forall₂_mem complete member
    exact complete.isEnd_eq
  obtain ⟨underway, first⟩ := joins.waiting_prefix
  refine ⟨done, rest, list, few, ended, open_, underway, by rw [contents, first],
    fun sent empty => ?_⟩
  have conserved := joins.sends.queue.accounted.accepted_append
  rw [sent, List.map_nil, List.map_nil, List.flatten_nil, List.append_nil] at conserved
  change passage.accepted = (passage.frames.map Frame.bytes).flatten at conserved
  have stream := joins.stream
  rw [empty, List.append_nil] at stream
  have emitted := joins.emitted
  rw [stream, conserved, feed_frames joins.valid] at emitted
  simp only at emitted
  have all := joins.letters
  rw [← Frame.map_item_payload, emitted, List.map_append] at all
  have same := List.append_cancel_left all
  rw [← first] at same
  exact List.append_right_eq_self.mp same.symm

/-- **Nothing is lost.** Once the sender's list and the stream are empty, every
letter that was posted to a side was fetched or waits there, complete. -/
theorem nothing_lost (established : Established links) {final : Side → Link}
    {events : List (Side × Event)} (meets : machine.Meets Healthy links events)
    (reached : machine.run links events = some final) (side : Side)
    (sent : (final side.other).control.endpoint.manager.m_sendList = [])
    (empty : (final side).unread = []) :
    ∃ done rest, (final side).control.endpoint.manager.m_recvList = done ++ rest ∧
      rest.length ≤ 1 ∧ (∀ message ∈ done, message.isEnd = true) ∧
        (∀ message ∈ rest, message.isEnd = false) ∧
          posted side links events =
            fetched side links events ++ done.map NetMessage.contents := by
  obtain ⟨letters, joined, conserved⟩ := established.run meets reached
  obtain ⟨done, rest, list, few, ended, open_, underway, split, all⟩ := joined.waiting side
  rw [all sent empty, List.append_nil] at split
  exact ⟨done, rest, list, few, ended, open_, split ▸ conserved side⟩

end Session

/-- A healthy event that queues nothing. -/
def Control.HealthyCall (control : Control) : Event → Prop
  | .LoadMsg => control.endpoint.HasPendingMsg = true
  | .Update _ | .InitEncrypt | .Close | .reply .recvFailed => True
  | .reply (.select reply) => reply.failed = false
  | .reply (.send sizeSended) => control.Sends (.reply (.send sizeSended))
  | .reply (.recv bytes) => ∀ message ∈ control.endpoint.manager.m_recvList.getLast?,
      bytes.length ≤ message.getReadCap ∧ message.StaysInHeader bytes
  | .SendMsg _ | .Connect _ _ _ | .ReConnect _ | .CloseConnection => False

instance (piece : List UInt8) (message : NetMessage) : Decidable (message.StaysInHeader piece) :=
  inferInstanceAs (Decidable (_ → _))

instance (control : Control) : DecidablePred control.HealthyCall
  | .LoadMsg => inferInstanceAs (Decidable (control.endpoint.HasPendingMsg = true))
  | .Update _ | .InitEncrypt | .Close | .reply .recvFailed => .isTrue trivial
  | .reply (.select reply) => inferInstanceAs (Decidable (reply.failed = false))
  | .reply (.send sizeSended) =>
      inferInstanceAs (Decidable (control.Sends (.reply (.send sizeSended))))
  | .reply (.recv bytes) => inferInstanceAs (Decidable
      (∀ message ∈ control.endpoint.manager.m_recvList.getLast?,
        bytes.length ≤ message.getReadCap ∧ message.StaysInHeader bytes))
  | .SendMsg _ | .Connect _ _ _ | .ReConnect _ | .CloseConnection => .isFalse id

theorem Control.HealthyCall.healthy {control : Control} {event : Event}
    (call : control.HealthyCall event) : control.Healthy event := by
  cases event with
  | SendMsg message => exact absurd call id
  | reply reply =>
      cases reply with
      | select reply => exact Or.inl call
      | _ => exact call
  | _ => exact call

/-- A message in which some bytes were written, piece by piece. -/
def NetMessage.letter (parts : List (List UInt8)) : NetMessage :=
  match (NetMessage.new 512 .fresh).1.write parts .fresh with
  | .ok (message, _) => message
  | .error _ => .zeroDraft

theorem NetMessage.letter_writtenAs (parts : List (List UInt8))
    (bounded : parts.flatten.length ≤ 1073741824 - 6) :
    (letter parts).WrittenAs parts.flatten := by
  have generous : Process.fresh.Generous := fun _ => rfl
  obtain ⟨buffer, -⟩ := NetMessage.new_sound generous (List.forall_mem_nil _)
  obtain ⟨message, requests, written, -⟩ := NetMessage.write_eq parts buffer bounded generous
  have same : letter parts = message := by
    rw [letter, written]
  exact ⟨_, _, _, _, buffer, generous, rfl, same ▸ written⟩

namespace Session

/-- Each side posts a letter; the far one receives and loads first what was sent to it. -/
def greets : List (Side × Event) :=
  [(.near, .SendMsg (.letter [[65]])), (.far, .SendMsg (.letter [[66], [67]])),
    (.near, .Update 1), (.near, .reply (.select .writable)), (.near, .reply (.send 3)),
    (.near, .reply (.select .quiet)), (.far, .Update 1), (.far, .reply (.select .writable)),
    (.far, .reply (.send 4)), (.far, .reply (.select .readable)), (.far, .reply (.recv [0, 1])),
    (.far, .reply (.select .readable)), (.far, .reply (.recv [65])),
    (.far, .reply (.select .quiet)), (.far, .LoadMsg), (.near, .Update 1),
    (.near, .reply (.select .readable)), (.near, .reply (.recv [0, 2])),
    (.near, .reply (.select .readable)), (.near, .reply (.recv [66, 67])),
    (.near, .reply (.select .quiet)), (.near, .LoadMsg)]

/-- Both sides of a connection that has just been established. -/
def start : Side → Link := fun _ => { control := .idle .justConnected, unread := [] }

theorem start_established : Established start := fun _ =>
  ⟨.justConnected, rfl, Endpoint.justConnected_sound, rfl, rfl, by decide⟩

theorem greets_healthy : machine.Meets Healthy start greets := by
  refine (Machine.meets_cons_of_step rfl).mpr
    ⟨⟨_, by decide, NetMessage.letter_writtenAs [[65]] (by decide)⟩,
      (Machine.meets_cons_of_step rfl).mpr
        ⟨⟨_, by decide, NetMessage.letter_writtenAs [[66], [67]] (by decide)⟩, ?_⟩⟩
  exact @Machine.Meets.mono _ _ machine
    (fun links event => (links event.1).control.HealthyCall event.2) _
    (fun _ _ call => call.healthy) _ _ (by decide +kernel)

theorem nothing_lost_of_greets :
    ∃ final, machine.run start greets = some final ∧
      ∃ done rest, (final .far).control.endpoint.manager.m_recvList = done ++ rest ∧
        posted .far start greets =
          fetched .far start greets ++ done.map NetMessage.contents := by
  have ran : (machine.run start greets).map (fun final =>
      ((final .near).control.endpoint.manager.m_sendList.length, (final .far).unread)) =
        some (0, []) := by decide +kernel
  obtain ⟨final, reached, quiet⟩ := Option.map_eq_some_iff.mp ran
  obtain ⟨sent, empty⟩ := Prod.mk.inj quiet
  obtain ⟨done, rest, list, -, -, -, split⟩ := nothing_lost start_established greets_healthy reached
    .far (List.length_eq_zero_iff.mp sent) empty
  exact ⟨final, reached, done, rest, list, split⟩

end Session

end EngSocket
