import EngSocket.Reception.Link

/-!
# How the network may cut the stream

The messages that a receiver ends with are the payloads of the frames exactly if
no `Recv` went on beyond the two-byte header or the four-byte length in which it
began. In a body the receiver asks for what is missing; in a header it asks for
the whole header whatever it has of it.
-/

namespace EngSocket

open Foundation

/-- `m_recvList` holds messages with these payloads, all complete. -/
def Control.Delivers (payloads : List (List UInt8)) (control : Control) : Prop :=
  List.Forall₂ NetMessage.Carries payloads control.endpoint.manager.m_recvList

instance (control : Control) : DecidablePred control.Admits
  | .Update _ | .reply (.send _) => .isTrue trivial
  | .reply (.select reply) => inferInstanceAs (Decidable (reply.failed = false))
  | .reply (.recv bytes) => inferInstanceAs (Decidable (bytes ≠ [] ∧
      ∀ message ∈ control.endpoint.manager.m_recvList.getLast?,
        bytes.length ≤ message.getReadCap))
  | .reply .recvFailed => .isFalse id
  | .Connect _ _ _ | .ReConnect _ | .Close | .CloseConnection | .SendMsg _ | .InitEncrypt
  | .LoadMsg => .isFalse id

theorem Settled.carries {read : Phase × List Item} {list : List NetMessage}
    (settled : Settled read list) (atStart : read.1 = frameDecoder.start) :
    List.Forall₂ NetMessage.Carries (read.2.map Item.payload) list := by
  obtain ⟨done, complete, ⟨-, rfl⟩ | ⟨within, -⟩⟩ := settled
  · rw [List.forall₂_map_left_iff]
    exact complete.imp fun _ _ ended => ended.carries
  · exact absurd atStart within

/-- A receiver that reads as the frames are written holds their payloads at the end. -/
theorem Link.Follows.delivers {frames : List Frame} (valid : ∀ frame ∈ frames, frame.Valid)
    {pieces : List (List UInt8)} {link : Link}
    (follows : link.Follows (frames.map Frame.bytes).flatten pieces)
    (tracks : link.control.Tracks (frameDecoder.feed frameDecoder.start pieces.flatten))
    (consumed : link.unread = [] ∨ ∃ reason after, link.control = .aborted reason after)
    (between : ∀ after, link.control ≠ .waiting .recv after) :
    link.control.Delivers (frames.map Frame.payload) := by
  have whole : pieces.flatten = (frames.map Frame.bytes).flatten := by
    rcases consumed with empty | ⟨reason, after, crash⟩
    · simpa only [empty, List.append_nil] using follows.taken
    · exact absurd crash (tracks.split.1 reason after)
  rw [whole, feed_frames valid] at tracks
  rw [Control.Delivers, ← Frame.map_item_payload]
  exact (tracks.settled between).carries rfl

theorem Control.GoesAstray.not_delivers {control : Control} (astray : control.GoesAstray)
    (payloads : List (List UInt8)) : ¬ control.Delivers payloads := by
  intro delivers
  obtain ⟨older, message, back, lost⟩ := astray
  have member : message ∈ control.endpoint.manager.m_recvList := by
    rw [back]
    exact List.mem_append_right _ (List.mem_singleton_self message)
  obtain ⟨payload, carries⟩ := exists_of_forall₂_mem delivers member
  exact Bool.false_ne_true (lost.isEnd_eq.symm.trans carries.1)

/-- **Splittings that are harmless.** Once the stream is consumed, or the receiver
has crashed on the way, it holds the frames' payloads exactly if no `Recv` crossed
the end of the header in which it began. -/
theorem Link.delivers_iff {frames : List Frame} (valid : ∀ frame ∈ frames, frame.Valid)
    {endpoint : Endpoint} (sound : endpoint.Sound) (fresh : endpoint.manager.m_recvList = [])
    {events : List Event} {final : Link}
    (meets : Link.machine.Meets (fun link event => link.control.Admits event)
      { control := .idle endpoint, unread := (frames.map Frame.bytes).flatten } events)
    (reached : Link.machine.run
      { control := .idle endpoint, unread := (frames.map Frame.bytes).flatten } events =
        some final)
    (consumed : final.unread = [] ∨ ∃ reason after, final.control = .aborted reason after)
    (between : ∀ after, final.control ≠ .waiting .recv after) :
    final.control.Delivers (frames.map Frame.payload) ↔
      HeadersUncrossed frameDecoder.start (received events) := by
  have follows := Link.Follows.run valid sound fresh meets reached
  rcases follows.place with ⟨uncrossed, tracks⟩ | ⟨crossed, astray⟩
  · exact iff_of_true (follows.delivers valid tracks consumed between) uncrossed
  · exact iff_of_false (astray.not_delivers _) crossed

/-- An `Update` which receives pieces, up to the answer of the last `select`. -/
def receiving (pieces : List (List UInt8)) (last : SelectReply) : List Event :=
  .Update 0 :: pieces.flatMap (fun piece => [.reply (.select .readable), .reply (.recv piece)]) ++
    [.reply (.select last)]

/-- The receiver at the start of a stream. -/
def Link.atStart (frames : List Frame) : Link where
  control := .idle .justConnected
  unread := (frames.map Frame.bytes).flatten

def Control.isIdle : Control → Bool
  | .idle _ => true
  | _ => false

/-- What is left of the stream, whether the manager is idle, and of each message
its `m_size` and whether it is complete. -/
def Link.outcome (link : Link) : List UInt8 × Bool × List (Int × Bool) :=
  (link.unread, link.control.isIdle,
    link.control.endpoint.manager.m_recvList.map fun message => (message.m_size, message.isEnd))

theorem Link.delivers_iff_short :
    ∃ final,
      Link.machine.run (.atStart [.short [65]]) (receiving [[0, 1], [65]] .quiet) = some final ∧
      (final.control.Delivers [[65]] ↔ HeadersUncrossed frameDecoder.start [[0, 1], [65]]) := by
  have ran :
      (Link.machine.run (.atStart [.short [65]]) (receiving [[0, 1], [65]] .quiet)).map outcome =
        some ([], true, [(1, true)]) := by decide
  obtain ⟨final, reached, outcome⟩ := Option.map_eq_some_iff.mp ran
  have valid : ∀ frame ∈ [Frame.short [65]], frame.Valid := by decide
  refine ⟨final, reached, Link.delivers_iff valid Endpoint.justConnected_sound rfl (by decide)
    reached (Or.inl (congrArg Prod.fst outcome)) ?_⟩
  intro after waits
  have idle : final.control.isIdle = true := congrArg (fun seen => seen.2.1) outcome
  rw [waits] at idle
  exact Bool.false_ne_true idle

/-- A header cut after its first byte: the next `Recv` asks for two bytes again,
gets one of the payload, and the frame is never recognised. -/
theorem Link.not_delivers_of_cut_header :
    ¬ ∀ (frames : List Frame) (endpoint : Endpoint) (events : List Event) (final : Link),
      (∀ frame ∈ frames, frame.Valid) → endpoint.Sound → endpoint.manager.m_recvList = [] →
        Link.machine.Meets (fun link event => link.control.Admits event)
          { control := .idle endpoint, unread := (frames.map Frame.bytes).flatten } events →
        Link.machine.run
          { control := .idle endpoint, unread := (frames.map Frame.bytes).flatten } events =
            some final →
        final.unread = [] → final.control.isIdle = true →
          final.control.Delivers (frames.map Frame.payload) := by
  intro claimed
  have ran :
      (Link.machine.run (.atStart [.short [65]]) (receiving [[0], [1, 65]] .quiet)).map outcome =
        some ([], true, [(-1, false)]) := by decide
  obtain ⟨final, reached, outcome⟩ := Option.map_eq_some_iff.mp ran
  have delivers := claimed [.short [65]] .justConnected _ final (by decide)
    Endpoint.justConnected_sound rfl (by decide) reached (congrArg Prod.fst outcome)
    (congrArg (fun seen => seen.2.1) outcome)
  have ended : final.control.endpoint.manager.m_recvList.map NetMessage.isEnd = [false] := by
    have seen := congrArg (fun seen => seen.2.2.map Prod.snd) outcome
    rw [Link.outcome, List.map_map] at seen
    exact seen
  unfold Control.Delivers at delivers
  cases messages : final.control.endpoint.manager.m_recvList with
  | nil =>
      rw [messages] at ended
      cases ended
  | cons message rest =>
      rw [messages] at ended delivers
      cases delivers with
      | cons carries _ =>
          rw [List.map_cons, carries.1] at ended
          cases ended

end EngSocket
