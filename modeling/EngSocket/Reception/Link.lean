import EngSocket.Connection.Soundness
import EngSocket.Reception.Message

/-!
# A receiver at the end of a stream

`Link.machine` is a manager together with what its peer has sent and it has not
received: a `Recv` takes any bytes from the front of the stream. `Control.Tracks`
relates the manager to the frame reader after the same bytes, and
`Control.GoesAstray` is where it is once a `Recv` has gone on beyond a header.
-/

namespace EngSocket

open Foundation

/-- A manager and the bytes on their way to it. -/
structure Link where
  control : Control
  unread : List UInt8

/-- What an event takes from the stream. -/
def Event.piece : Event → List UInt8
  | .reply (.recv bytes) => bytes
  | _ => []

/-- The bytes that an event gives to a `Recv`, if it is one. -/
def Event.pieces : Event → List (List UInt8)
  | .reply (.recv bytes) => [bytes]
  | _ => []

/-- The bytes of each `Recv`, in order. -/
def received (events : List Event) : List (List UInt8) := events.flatMap Event.pieces

def Link.machine : Machine Link Event where
  step link event :=
    if event.piece <+: link.unread then
      (Endpoint.machine.step link.control event).map fun control =>
        { control, unread := link.unread.drop event.piece.length }
    else none

/-- Nothing goes wrong: `Update` is all that is called, no `select` fails, and a
`Recv` has at least one byte and at most those that it asked for. -/
def Control.Admits (control : Control) : Event → Prop
  | .Update _ => True
  | .reply (.select reply) => reply.failed = false
  | .reply (.send _) => True
  | .reply (.recv bytes) => bytes ≠ [] ∧
      ∀ message ∈ control.endpoint.manager.m_recvList.getLast?, bytes.length ≤ message.getReadCap
  | _ => False

theorem Link.step_eq_some {link next : Link} {event : Event}
    (stepped : Link.machine.step link event = some next) :
    Endpoint.machine.step link.control event = some next.control ∧
      event.piece ++ next.unread = link.unread := by
  simp only [Link.machine, Option.ite_none_right_eq_some, Option.map_eq_some_iff] at stepped
  obtain ⟨initial, control, stepped, rfl⟩ := stepped
  obtain ⟨rest, same⟩ := initial
  refine ⟨stepped, ?_⟩
  rw [← same, List.drop_left]

/-- An event is a `Recv` or takes nothing from the stream. -/
theorem Event.pieces_cases (event : Event) :
    event.pieces = [] ∧ event.piece = [] ∨ ∃ bytes, event = .reply (.recv bytes) := by
  cases event with
  | reply reply =>
      cases reply with
      | recv bytes => exact Or.inr ⟨bytes, rfl⟩
      | _ => exact Or.inl ⟨rfl, rfl⟩
  | _ => exact Or.inl ⟨rfl, rfl⟩

theorem Event.flatten_pieces (event : Event) : event.pieces.flatten = event.piece := by
  rcases event.pieces_cases with ⟨pieces, piece⟩ | ⟨bytes, rfl⟩
  · rw [pieces, piece, List.flatten_nil]
  · exact List.append_nil bytes

/-- Only a manager that waits in `Recv` takes bytes. -/
theorem Endpoint.step_recv {control next : Control} {bytes : List UInt8}
    (stepped : Endpoint.machine.step control (.reply (.recv bytes)) = some next) :
    ∃ endpoint, control = .waiting .recv endpoint ∧
      endpoint.resume .recv (.recv bytes) = some next := by
  rcases Endpoint.step_cases stepped with ⟨endpoint, rfl, called⟩ |
    ⟨point, endpoint, reply, rfl, same, resumed⟩
  · cases called
  · cases same
    cases point with
    | recv => exact ⟨endpoint, rfl, resumed⟩
    | _ => cases resumed

/-- What is sound and armed stays so along a run of the link. -/
theorem Link.sound_armed_step {link next : Link} {event : Event}
    (holds : link.control.Sound ∧ link.control.Armed) (allowed : link.control.Admits event)
    (stepped : Link.machine.step link event = some next) :
    next.control.Sound ∧ next.control.Armed := by
  have stepped := (Link.step_eq_some stepped).1
  refine ⟨holds.1.step holds.2 ?_ stepped, holds.2.step stepped⟩
  cases event with
  | SendMsg message => exact absurd allowed id
  | _ => trivial

/-! ## The receiver and the reader -/

/-- `m_recvList` between two calls of `Recv`: the items read so far and, within a
frame, the message being read. -/
def Settled (read : Phase × List Item) (list : List NetMessage) : Prop :=
  ∃ done, List.Forall₂ Complete read.2 done ∧
    (read.1 = frameDecoder.start ∧ list = done ∨
      read.1 ≠ frameDecoder.start ∧ ∃ message, Reading read.1 message ∧ list = done ++ [message])

/-- `m_recvList` while a `Recv` waits: the message being read is there in any case. -/
def Expecting (read : Phase × List Item) (list : List NetMessage) : Prop :=
  ∃ done message, List.Forall₂ Complete read.2 done ∧ Reading read.1 message ∧
    list = done ++ [message]

/-- The manager is where the reader is. -/
def Control.Tracks (read : Phase × List Item) : Control → Prop
  | .waiting .recv endpoint => Expecting read endpoint.manager.m_recvList
  | .idle endpoint | .waiting _ endpoint => Settled read endpoint.manager.m_recvList
  | .aborted _ _ => False

/-- The message being read is lost. -/
def Control.GoesAstray (control : Control) : Prop :=
  ∃ older message, control.endpoint.manager.m_recvList = older ++ [message] ∧ Lost message

variable {endpoint : Endpoint} {read : Phase × List Item}

/-- Behind the complete messages there is at most the one being read. -/
theorem Control.Tracks.split {control : Control} (tracks : control.Tracks read) :
    (∀ reason after, control ≠ .aborted reason after) ∧
      ∃ done rest, control.endpoint.manager.m_recvList = done ++ rest ∧ rest.length ≤ 1 ∧
        (∀ message ∈ rest, message.isEnd = false) ∧ List.Forall₂ Complete read.2 done := by
  have settled {list : List NetMessage} (settled : Settled read list) :
      ∃ done rest, list = done ++ rest ∧ rest.length ≤ 1 ∧
        (∀ message ∈ rest, message.isEnd = false) ∧ List.Forall₂ Complete read.2 done := by
    obtain ⟨done, complete, ⟨-, rfl⟩ | ⟨-, message, reading, rfl⟩⟩ := settled
    · exact ⟨list, [], (List.append_nil list).symm, Nat.zero_le 1, List.forall_mem_nil _, complete⟩
    · refine ⟨done, [message], rfl, le_rfl, fun other member => ?_, complete⟩
      rw [List.mem_singleton.mp member]
      exact reading.isEnd_eq
  cases control with
  | idle endpoint => exact ⟨fun _ _ => Control.noConfusion, settled tracks⟩
  | waiting point endpoint =>
      refine ⟨fun _ _ => Control.noConfusion, ?_⟩
      cases point with
      | recv =>
          obtain ⟨done, message, complete, reading, back⟩ := tracks
          refine ⟨done, [message], back, le_rfl, fun other member => ?_, complete⟩
          rw [List.mem_singleton.mp member]
          exact reading.isEnd_eq
      | _ => exact settled tracks
  | aborted reason endpoint => exact tracks.elim

/-- Outside a `Recv` the receiver has what the reader has. -/
theorem Control.Tracks.settled {control : Control} (tracks : control.Tracks read)
    (between : ∀ after, control ≠ .waiting .recv after) :
    Settled read control.endpoint.manager.m_recvList := by
  cases control with
  | idle after => exact tracks
  | waiting point after =>
      cases point with
      | recv => exact absurd rfl (between after)
      | _ => exact tracks
  | aborted reason after => exact tracks.elim

theorem exists_of_forall₂_mem {first second : Type*} {related : first → second → Prop}
    {left : List first} {right : List second} {value : second}
    (all : List.Forall₂ related left right) (member : value ∈ right) :
    ∃ other, related other value := by
  induction all with
  | nil => cases member
  | cons head _ ih =>
      rcases List.mem_cons.mp member with rfl | later
      · exact ⟨_, head⟩
      · exact ih later

theorem Settled.pickMessage (settled : Settled read endpoint.manager.m_recvList)
    (sound : endpoint.Sound) : Expecting read endpoint.pickMessage.manager.m_recvList := by
  obtain ⟨done, complete, ⟨atStart, same⟩ | ⟨-, message, reading, back⟩⟩ := settled
  · have pushed : Expecting read endpoint.pushNewMessage.manager.m_recvList := by
      refine ⟨done, _, complete, ?_, congrArg (· ++ [_]) same⟩
      rw [atStart]
      exact Reading.new sound.generous sound.pool
    unfold Endpoint.pickMessage
    cases last : endpoint.manager.m_recvList.getLast? with
    | none => exact pushed
    | some message =>
        have member := List.mem_of_getLast? last
        rw [same] at member
        obtain ⟨item, ended⟩ := exists_of_forall₂_mem complete member
        simp only [ended.isEnd_eq, ↓reduceIte]
        exact pushed
  · unfold Endpoint.pickMessage
    simp only [back, List.getLast?_concat, reading.isEnd_eq, Bool.false_eq_true, ↓reduceIte]
    exact ⟨done, message, complete, reading, rfl⟩

/-- What `select` leads to: the manager stays with the reader. -/
theorem Settled.continues {control : Control}
    (settled : Settled read endpoint.manager.m_recvList) (sound : endpoint.Sound)
    (continues : endpoint.Continues control)
    (running : ∀ reason after, control ≠ .aborted reason after) : control.Tracks read := by
  cases continues with
  | returned same => exact (same.recvList ▸ settled : Settled read _)
  | crashed same null => exact absurd rfl (running _ _)
  | recv same =>
      have settled := same.recvList ▸ settled
      exact settled.pickMessage (same.sound sound)
  | send same => exact (same.recvList ▸ settled : Settled read _)
  | sent same => exact (same.recvList ▸ settled : Settled read _)

/-- A piece that ends within the header it begins in, or within the body. -/
theorem Reading.covered_of_le {phase : Phase} {message : NetMessage}
    (reading : Reading phase message) {piece : List UInt8} (covers : phase.Covers piece)
    (asked : piece.length ≤ message.getReadCap) :
    phase.got.length + piece.length ≤ phase.stage.width := by
  have incomplete := reading.incomplete
  rw [reading.getReadCap_eq] at asked
  obtain ⟨stage, got⟩ := phase
  cases stage with
  | short => exact covers
  | long => exact covers
  | body head =>
      simp only at asked
      simp only at incomplete ⊢
      omega

/-- A `Recv` that does not cross the end of a header moves the manager as its
bytes move the reader. -/
theorem Expecting.resume {bytes : List UInt8} {control : Control}
    (expecting : Expecting read endpoint.manager.m_recvList) (sound : endpoint.Sound)
    (nonempty : bytes ≠ [])
    (asked : ∀ message ∈ endpoint.manager.m_recvList.getLast?, bytes.length ≤ message.getReadCap)
    (covers : read.1.Covers bytes) (bounded : (frameDecoder.feed read.1 bytes).1.Bounded)
    (resumed : endpoint.resume .recv (.recv bytes) = some control) :
    ∃ after, control = .waiting .checkRecv after ∧
      Settled ((frameDecoder.feed read.1 bytes).1, read.2 ++ (frameDecoder.feed read.1 bytes).2)
        after.manager.m_recvList := by
  obtain ⟨done, message, complete, reading, back⟩ := expecting
  have covered := reading.covered_of_le covers
    (asked message (by rw [back, List.getLast?_concat, Option.mem_some_iff]))
  obtain ⟨stored, -⟩ := reading.storeAtCursor_eq bytes covered
  obtain ⟨after, requests, received, decoded, -, -⟩ :=
    reading.receive nonempty covered sound.generous bounded
  rcases Endpoint.resume_recv back nonempty resumed with ⟨reason, refused, -⟩ |
    ⟨filled, stored', ⟨reason, refused, -⟩ | ⟨after', process, received', rfl⟩⟩
  · cases stored.symm.trans refused
  · cases stored.symm.trans stored'
    cases received.symm.trans refused
  · cases stored.symm.trans stored'
    cases received.symm.trans received'
    refine ⟨_, rfl, ?_⟩
    have silent (none_ : (frameDecoder.feed read.1 bytes).2 = []) :=
      feed_ne_start nonempty none_
    generalize frameDecoder.feed read.1 bytes = next at decoded silent
    cases decoded with
    | reading reading =>
        exact ⟨done, by rw [List.append_nil]; exact complete,
          Or.inr ⟨silent rfl, after, reading, rfl⟩⟩
    | complete ended =>
        exact ⟨done ++ [after], List.rel_append complete (.cons ended .nil), Or.inl ⟨rfl, rfl⟩⟩

/-- A `Recv` that goes on beyond the header it begins in loses the message. -/
theorem Expecting.astray {bytes : List UInt8} {control : Control}
    (expecting : Expecting read endpoint.manager.m_recvList) (nonempty : bytes ≠ [])
    (asked : ∀ message ∈ endpoint.manager.m_recvList.getLast?, bytes.length ≤ message.getReadCap)
    (crosses : ¬ read.1.Covers bytes)
    (resumed : endpoint.resume .recv (.recv bytes) = some control) : control.GoesAstray := by
  obtain ⟨done, message, -, reading, back⟩ := expecting
  obtain ⟨low, -, inside⟩ := reading.windowInside
  have within := asked message (by rw [back, List.getLast?_concat, Option.mem_some_iff])
  have stored := NetMessage.storeAtCursor_of_le bytes low (by omega)
  obtain ⟨received, lost⟩ := reading.lost endpoint.process crosses stored
  rcases Endpoint.resume_recv back nonempty resumed with ⟨reason, refused, -⟩ |
    ⟨filled, stored', ⟨reason, refused, -⟩ | ⟨after, process, received', rfl⟩⟩
  · cases stored.symm.trans refused
  · cases stored.symm.trans stored'
    cases received.symm.trans refused
  · cases stored.symm.trans stored'
    cases received.symm.trans received'
    exact ⟨done, _, rfl, lost⟩

/-! ## Runs -/

/-- As long as no `Recv` goes on beyond a header, the manager is where the reader
is after the same bytes. -/
theorem Control.Tracks.step {control next : Control} {event : Event} (tracks : control.Tracks read)
    (sound : control.Sound) (armed : control.Armed) (admits : control.Admits event)
    (covers : ∀ piece ∈ event.pieces, read.1.Covers piece)
    (bounded : (frameDecoder.feed read.1 event.piece).1.Bounded)
    (stepped : Endpoint.machine.step control event = some next) :
    next.Tracks ((frameDecoder.feed read.1 event.piece).1,
      read.2 ++ (frameDecoder.feed read.1 event.piece).2) := by
  rcases Endpoint.step_cases stepped with ⟨endpoint, rfl, called⟩ |
    ⟨point, endpoint, reply, rfl, rfl, resumed⟩
  · cases event with
    | Update dt =>
        simp only [Event.piece, Decoder.feed_nil, List.append_nil]
        rcases Endpoint.call_Update called with rfl | ⟨rfl, -⟩
        · exact tracks
        · exact tracks
    | reply reply => cases called
    | _ => exact absurd admits id
  · rcases Endpoint.resume_cases resumed with ⟨answer, rfl, continues⟩ | ⟨sizeSended, rfl, rfl⟩ |
      ⟨bytes, rfl, rfl, nonempty⟩ | ⟨rfl, rfl | rfl⟩
    · simp only [Event.piece, Decoder.feed_nil, List.append_nil]
      obtain ⟨⟨socket, present⟩, -⟩ := armed
      refine Settled.continues ?_ sound continues
        (Endpoint.resume_select_ne_aborted admits present resumed)
      cases point with
      | recv => cases resumed
      | _ => exact tracks
    · simp only [Event.piece, Decoder.feed_nil, List.append_nil]
      obtain ⟨-, message, rest, front, -⟩ := armed
      rcases Endpoint.resume_send front resumed with ⟨-, rfl⟩ | ⟨-, ⟨-, rfl⟩ | ⟨-, rfl⟩⟩
      · change Settled read (endpoint.OnError .SendZeroByte).manager.m_recvList
        rw [(Endpoint.OnError_same .SendZeroByte endpoint).recvList]
        exact tracks
      · exact tracks
      · exact tracks
    · obtain ⟨after, rfl, settled⟩ :=
        Expecting.resume tracks sound nonempty admits.2
          (covers bytes (List.mem_singleton_self bytes)) bounded resumed
      exact settled
    · exact absurd rfl admits.1
    · exact absurd admits id

/-- A lost message stays lost and stays the last one. -/
theorem Control.GoesAstray.step {control next : Control} {event : Event}
    (astray : control.GoesAstray) (armed : control.Armed) (admits : control.Admits event)
    (stepped : Endpoint.machine.step control event = some next) : next.GoesAstray := by
  rcases Endpoint.step_cases stepped with ⟨endpoint, rfl, called⟩ |
    ⟨point, endpoint, reply, rfl, rfl, resumed⟩
  · cases event with
    | Update dt =>
        rcases Endpoint.call_Update called with rfl | ⟨rfl, -⟩
        · exact astray
        · exact astray
    | reply reply => cases called
    | _ => exact absurd admits id
  · have fills := Endpoint.resume_fills armed resumed
    unfold GoesAstray at astray ⊢
    generalize next.endpoint.manager.m_recvList = list at fills ⊢
    cases fills with
    | same => exact astray
    | pushed same ended =>
        obtain ⟨older, message, back, lost⟩ := astray
        have last : endpoint.manager.m_recvList.getLast? = some message :=
          (congrArg List.getLast? back).trans List.getLast?_concat
        have closed := ended message last
        exact absurd (lost.isEnd_eq.symm.trans closed) Bool.noConfusion
    | received called nonempty back incomplete stored received =>
        obtain ⟨older, message, back', lost⟩ := astray
        obtain ⟨rfl, same⟩ := List.append_inj' (back'.symm.trans back) rfl
        cases same
        obtain ⟨received', lost'⟩ := lost.receive endpoint.process stored
        cases received'.symm.trans received
        exact ⟨older, _, rfl, lost'⟩

/-- Where a receiver is which has taken some pieces of a stream. -/
structure Link.Follows (stream : List UInt8) (pieces : List (List UInt8)) (link : Link) : Prop where
  taken : pieces.flatten ++ link.unread = stream
  sound : link.control.Sound
  armed : link.control.Armed
  place : HeadersUncrossed frameDecoder.start pieces ∧
      link.control.Tracks (frameDecoder.feed frameDecoder.start pieces.flatten) ∨
    ¬ HeadersUncrossed frameDecoder.start pieces ∧ link.control.GoesAstray

/-- Before the first piece. -/
theorem Link.Follows.start (sound : endpoint.Sound) (fresh : endpoint.manager.m_recvList = [])
    {stream : List UInt8} :
    Link.Follows stream [] { control := .idle endpoint, unread := stream } where
  taken := rfl
  sound := sound
  armed := trivial
  place := Or.inl ⟨trivial, [], .nil, Or.inl ⟨rfl, fresh⟩⟩

theorem along_pieces {condition : Phase → List UInt8 → Prop} {pieces : List (List UInt8)}
    (event : Event) :
    frameDecoder.Along condition frameDecoder.start (pieces ++ event.pieces) ↔
      frameDecoder.Along condition frameDecoder.start pieces ∧ ∀ piece ∈ event.pieces,
        condition (frameDecoder.feed frameDecoder.start pieces.flatten).1 piece := by
  rw [Decoder.along_append]
  refine and_congr_right fun _ => ?_
  rcases event.pieces_cases with ⟨none_, -⟩ | ⟨bytes, rfl⟩
  · simp only [none_, Decoder.Along, List.not_mem_nil, false_implies, implies_true]
  · simp only [Event.pieces, Decoder.Along, and_true, List.mem_singleton, forall_eq]

/-- A `Recv` that goes on beyond a header leads astray. -/
theorem Control.Tracks.astray {control next : Control} {event : Event}
    (tracks : control.Tracks read) (admits : control.Admits event)
    (crosses : ¬ ∀ piece ∈ event.pieces, read.1.Covers piece)
    (stepped : Endpoint.machine.step control event = some next) : next.GoesAstray := by
  obtain ⟨piece, taken, uncovered⟩ : ∃ piece ∈ event.pieces, ¬ read.1.Covers piece := by
    simpa only [not_forall, exists_prop] using crosses
  rcases event.pieces_cases with ⟨none_, -⟩ | ⟨bytes, rfl⟩
  · rw [none_] at taken
    cases taken
  · rw [List.mem_singleton.mp taken] at uncovered
    obtain ⟨endpoint, rfl, resumed⟩ := Endpoint.step_recv stepped
    exact Expecting.astray tracks admits.1 admits.2 uncovered resumed

/-- **One step of the receiver.** It stays with the reader, or goes astray for good. -/
theorem Link.Follows.step {stream : List UInt8} {frames : List Frame}
    (valid : ∀ frame ∈ frames, frame.Valid) (sent : stream = (frames.map Frame.bytes).flatten)
    {pieces : List (List UInt8)} {link next : Link} {event : Event}
    (follows : link.Follows stream pieces) (admits : link.control.Admits event)
    (stepped : Link.machine.step link event = some next) :
    next.Follows stream (pieces ++ event.pieces) := by
  obtain ⟨sound, armed⟩ :=
    Link.sound_armed_step ⟨follows.sound, follows.armed⟩ admits stepped
  obtain ⟨moved, unread⟩ := Link.step_eq_some stepped
  have read : (pieces ++ event.pieces).flatten = pieces.flatten ++ event.piece := by
    rw [List.flatten_append, event.flatten_pieces]
  have taken : (pieces ++ event.pieces).flatten ++ next.unread = stream := by
    rw [read, List.append_assoc, unread, follows.taken]
  refine ⟨taken, sound, armed, ?_⟩
  rw [HeadersUncrossed, along_pieces, read, Decoder.feed_append]
  rcases follows.place with ⟨uncrossed, tracks⟩ | ⟨crossed, astray⟩
  · by_cases covers : ∀ piece ∈ event.pieces,
        (frameDecoder.feed frameDecoder.start pieces.flatten).1.Covers piece
    · have initial : pieces.flatten ++ event.piece <+: (frames.map Frame.bytes).flatten := by
        rw [← sent, ← taken, read]
        exact List.prefix_append _ _
      have bounded := bounded_of_prefix valid initial
      rw [Decoder.feed_append] at bounded
      exact Or.inl ⟨⟨uncrossed, covers⟩,
        tracks.step follows.sound follows.armed admits covers bounded moved⟩
    · exact Or.inr ⟨fun both => covers both.2, tracks.astray admits covers moved⟩
  · exact Or.inr ⟨fun both => crossed both.1, astray.step follows.armed admits moved⟩

/-- **Whole runs of the receiver** on a stream of valid frames. -/
theorem Link.Follows.run {frames : List Frame} (valid : ∀ frame ∈ frames, frame.Valid)
    {endpoint : Endpoint} (sound : endpoint.Sound) (fresh : endpoint.manager.m_recvList = [])
    {events : List Event} {final : Link}
    (meets : Link.machine.Meets (fun link event => link.control.Admits event)
      { control := .idle endpoint, unread := (frames.map Frame.bytes).flatten } events)
    (reached : Link.machine.run
      { control := .idle endpoint, unread := (frames.map Frame.bytes).flatten } events =
        some final) :
    final.Follows (frames.map Frame.bytes).flatten (received events) := by
  exact Machine.emit_invariant Event.pieces (Link.Follows (frames.map Frame.bytes).flatten)
    (fun _ _ _ _ admits follows stepped => follows.step valid rfl admits stepped) meets reached
    (.start sound fresh)

end EngSocket
