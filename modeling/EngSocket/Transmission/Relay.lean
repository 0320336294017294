import EngSocket.Reception.Delivery
import EngSocket.Transmission.Queue

/-!
# Relaying a received message

A message that was received keeps the bytes of its length in front of its payload,
and `SendMsg` sends them as they are. For a frame with the two-byte header this is
the frame again. The marker of an extended frame is not kept, so that its
four-byte length goes out without it, and the receiver takes the upper two bytes
for the length of another frame (`EngSocket.Link.relays_iff`).
-/

namespace EngSocket

open Foundation

/-- A `Recv` that reads a header has as many bytes as it asked for, or all that are
left. -/
def Link.FillsHeaders (link : Link) : Event → Prop
  | .reply (.recv bytes) =>
      ∀ message ∈ link.control.endpoint.manager.m_recvList.getLast?, message.m_size < 0 →
        bytes.length = message.getReadCap ∨ bytes = link.unread
  | _ => True

/-- A receiver whose headers are filled as far as the stream goes. -/
def Link.AdmitsWhole (link : Link) (event : Event) : Prop :=
  link.control.Admits event ∧ link.FillsHeaders event

/-! ## Receivers of whole frames -/

variable {stream : List UInt8} {pieces : List (List UInt8)} {link next : Link}

/-- A stream of frames has the whole of every header. -/
theorem Link.Reads.fillsHeaders {frames : List Frame} (valid : ∀ frame ∈ frames, frame.Valid)
    (sent : stream = (frames.map Frame.bytes).flatten) {event : Event}
    (reads : link.Reads stream pieces) (allowed : link.AdmitsWhole event)
    (stepped : Link.machine.step link event = some next) : link.control.FillsHeaders event := by
  obtain ⟨admits, fills⟩ := allowed
  rcases event.pieces_cases with ⟨none_, -⟩ | ⟨bytes, rfl⟩
  · cases event with
    | reply reply =>
        cases reply with
        | recv bytes => cases none_
        | _ => trivial
    | _ => trivial
  · intro message last unknown
    rcases fills message last unknown with filled | all
    · exact filled
    · obtain ⟨endpoint, waits, -⟩ := Endpoint.step_recv (Link.step_eq_some stepped).1
      have tracks := reads.tracks
      rw [waits] at tracks last admits
      obtain ⟨done, other, -, reading, back⟩ : Expecting _ endpoint.manager.m_recvList := tracks
      have here : endpoint.manager.m_recvList.getLast? = some other := by
        rw [back, List.getLast?_concat]
      cases here.symm.trans last
      have ends : (frameDecoder.feed (frameDecoder.feed frameDecoder.start pieces.flatten).1
          link.unread).1 = frameDecoder.start := by
        have whole := congrArg Prod.fst (feed_frames valid)
        rw [← sent, ← reads.taken, Decoder.feed_append] at whole
        exact whole
      have enough := rest_of_part (all ▸ admits.1) ends
      have asked := admits.2 message here
      have size := reading.size
      have cap := reading.getReadCap_eq
      have aligned := reads.aligned
      rw [← all] at enough
      generalize (frameDecoder.feed frameDecoder.start pieces.flatten).1 = phase at *
      obtain ⟨stage, got⟩ := phase
      cases stage with
      | short =>
          obtain rfl : got = [] := aligned
          simp only [Stage.width, List.length_nil] at enough cap
          omega
      | long =>
          obtain rfl : got = [] := aligned
          simp only [Stage.width, List.length_nil] at enough cap
          omega
      | body head =>
          simp only [Stage.sizeField] at size
          omega

/-- Once it has taken a stream of frames, or crashed, a receiver holds the payloads. -/
theorem Link.delivers_of_fillsHeaders {frames : List Frame}
    (valid : ∀ frame ∈ frames, frame.Valid) {endpoint : Endpoint} (sound : endpoint.Sound)
    (fresh : endpoint.manager.m_recvList = []) {events : List Event} {final : Link}
    (meets : Link.machine.Meets Link.AdmitsWhole
      { control := .idle endpoint, unread := (frames.map Frame.bytes).flatten } events)
    (reached : Link.machine.run
      { control := .idle endpoint, unread := (frames.map Frame.bytes).flatten } events =
        some final)
    (consumed : final.unread = [] ∨ ∃ reason after, final.control = .aborted reason after)
    (between : ∀ after, final.control ≠ .waiting .recv after) :
    final.control.Delivers (frames.map Frame.payload) := by
  have reads : final.Reads (frames.map Frame.bytes).flatten (received events) :=
    Machine.emit_invariant Event.pieces (Link.Reads (frames.map Frame.bytes).flatten)
      (fun _ _ _ _ allowed reads stepped => reads.step valid rfl allowed.1
        (reads.fillsHeaders valid rfl allowed stepped) stepped) meets reached (.start sound fresh)
  exact reads.toFollows.delivers valid reads.tracks consumed between

/-! ## Receivers that have read one header -/

/-- The first message has this size. -/
def Control.FrontSize (size : Int) (control : Control) : Prop :=
  ∃ message rest, control.endpoint.manager.m_recvList = message :: rest ∧ message.m_size = size

/-- A message whose size is known keeps it. -/
theorem NetMessage.onReceive_size {message after : NetMessage} {process left : Process} {size : Int}
    (known : 0 ≤ message.m_size) (done : message.onReceive size process = .ok (after, left)) :
    after.m_size = message.m_size := by
  unfold onReceive at done
  rw [if_pos known] at done
  cases done
  rfl

/-- A size that is known stays. -/
theorem Control.FrontSize.step {size : Int} {control next : Control} {event : Event}
    (first : control.FrontSize size) (known : 0 ≤ size) (armed : control.Armed)
    (admits : control.Admits event)
    (stepped : Endpoint.machine.step control event = some next) : next.FrontSize size := by
  rcases Endpoint.step_cases stepped with ⟨endpoint, rfl, called⟩ |
    ⟨point, endpoint, reply, rfl, rfl, resumed⟩
  · cases event with
    | Update dt =>
        rcases Endpoint.call_Update called with rfl | ⟨rfl, -⟩
        · exact first
        · exact first
    | reply reply => cases called
    | _ => exact absurd admits id
  · have fills := Endpoint.resume_fills armed resumed
    unfold FrontSize at first ⊢
    generalize next.endpoint.manager.m_recvList = list at fills ⊢
    obtain ⟨message, rest, front, has⟩ := first
    rw [Control.endpoint] at front
    cases fills with
    | same => exact ⟨message, rest, front, has⟩
    | pushed same ended => exact ⟨message, _, congrArg (· ++ [_]) front, has⟩
    | @received last filled after older bytes process called nonempty back incomplete stored
        received =>
        have list : message :: rest = older ++ [last] := front.symm.trans back
        cases older with
        | nil =>
            cases list
            have sizes := (NetMessage.storeAtCursor_writes stored endpoint.process).size
            refine ⟨after, [], rfl, ?_⟩
            rw [NetMessage.onReceive_size (by rw [sizes, has]; exact known) received, sizes, has]
        | cons other older =>
            cases list
            exact ⟨message, older ++ [after], rfl, has⟩

/-- Behind its first header the receiver has a message of the size announced. -/
theorem Control.Tracks.frontSize {head : List UInt8} {control : Control}
    (tracks : control.Tracks (enterBody head)) : control.FrontSize (bigEndian head) := by
  have settled {list : List NetMessage} (settled : Settled (enterBody head) list) :
      ∃ message rest, list = message :: rest ∧ message.m_size = bigEndian head := by
    unfold enterBody at settled
    split at settled
    · next empty =>
        obtain ⟨done, complete, ⟨-, rfl⟩ | ⟨within, -⟩⟩ := settled
        · cases complete with
          | cons first none_ =>
              cases none_
              refine ⟨_, [], rfl, ?_⟩
              rw [first.size, empty]
              rfl
        · exact absurd rfl within
    · obtain ⟨done, none_, ⟨atStart, -⟩ | ⟨-, message, reading, rfl⟩⟩ := settled
      · exact absurd (congrArg Phase.stage atStart) Stage.noConfusion
      · cases none_
        exact ⟨message, [], rfl, reading.size⟩
  cases control with
  | idle endpoint => exact settled tracks
  | waiting point endpoint =>
      cases point with
      | recv =>
          obtain ⟨done, message, complete, reading, back⟩ := tracks
          rw [Control.FrontSize, Control.endpoint, back]
          unfold enterBody at complete reading
          split at complete
          · next empty =>
              cases complete with
              | cons first none_ =>
                  cases none_
                  refine ⟨_, [message], rfl, ?_⟩
                  rw [first.size, empty]
                  rfl
          · next positive =>
              rw [if_neg positive] at reading
              cases complete
              exact ⟨message, [], rfl, reading.size⟩
      | _ => exact settled tracks
  | aborted reason endpoint => exact tracks.elim

/-- The first header of a stream is not a marker and has been read, or nothing has. -/
structure Link.Misled (head rest : List UInt8) (link : Link) : Prop where
  sound : link.control.Sound
  armed : link.control.Armed
  place : link.unread = head ++ rest ∧ link.control.Tracks (frameDecoder.start, []) ∨
    link.control.FrontSize (bigEndian head)

theorem Link.Misled.step {head rest : List UInt8} (two : head.length = 2) (left : rest ≠ [])
    (notMarker : bigEndian head ≠ 0xFFFF) {event : Event} (misled : link.Misled head rest)
    (allowed : link.AdmitsWhole event) (stepped : Link.machine.step link event = some next) :
    next.Misled head rest := by
  obtain ⟨sound, armed, place⟩ := misled
  obtain ⟨admits, fills⟩ := allowed
  obtain ⟨sound', armed'⟩ := Link.sound_armed_step ⟨sound, armed⟩ admits stepped
  obtain ⟨moved, unread⟩ := Link.step_eq_some stepped
  refine ⟨sound', armed', ?_⟩
  rcases place with ⟨whole, tracks⟩ | first
  · rcases event.pieces_cases with ⟨none_, nothing⟩ | ⟨bytes, rfl⟩
    · have still := tracks.step sound armed admits (by rw [none_]; exact List.forall_mem_nil _)
        (by rw [nothing]; trivial) moved
      rw [nothing] at still unread
      exact Or.inl ⟨unread.trans whole, still⟩
    · -- The first `Recv` reads the two bytes of the header.
      obtain ⟨endpoint, waits, -⟩ := Endpoint.step_recv moved
      have expecting := tracks
      rw [waits] at expecting
      obtain ⟨done, message, -, reading, back⟩ : Expecting _ endpoint.manager.m_recvList := expecting
      have last : link.control.endpoint.manager.m_recvList.getLast? = some message := by
        rw [waits, Control.endpoint, back, List.getLast?_concat]
      have asked := admits.2 message last
      have cap : message.getReadCap = 2 := reading.getReadCap_eq
      have size : message.m_size = -1 := reading.size
      have more := List.length_pos_iff.mpr left
      have length : bytes.length = 2 := by
        rcases fills message last (by omega) with filled | all
        · omega
        · rw [whole] at all
          rw [all, List.length_append] at asked
          omega
      rw [whole] at unread
      obtain ⟨rfl, -⟩ := List.append_inj unread (length.trans two.symm)
      have covers : ∀ piece ∈ (Event.reply (.recv bytes)).pieces,
          (frameDecoder.start : Phase).Covers piece := by
        intro piece member
        rw [List.mem_singleton.mp member]
        change 0 + bytes.length ≤ 2
        omega
      have fed := feed_short_header bytes length notMarker
      have bounded : (frameDecoder.feed frameDecoder.start bytes).1.Bounded := by
        have below := bigEndian_lt bytes
        rw [length] at below
        rw [fed, enterBody]
        split
        · trivial
        · exact ⟨by omega, by omega⟩
      have entered := tracks.step sound armed admits covers bounded moved
      simp only [Event.piece, fed, List.nil_append] at entered
      exact Or.inr entered.frontSize
  · exact Or.inr (first.step (Int.natCast_nonneg _) armed admits moved)

/-- A receiver of a stream whose first header announces another length than that of
the payload does not end with that payload alone. -/
theorem Link.not_delivers_of_misled {head rest payload : List UInt8} (two : head.length = 2)
    (left : rest ≠ []) (notMarker : bigEndian head ≠ 0xFFFF)
    (other : bigEndian head ≠ payload.length) {endpoint : Endpoint} (sound : endpoint.Sound)
    (fresh : endpoint.manager.m_recvList = []) {events : List Event} {final : Link}
    (meets : Link.machine.Meets Link.AdmitsWhole
      { control := .idle endpoint, unread := head ++ rest } events)
    (reached : Link.machine.run { control := .idle endpoint, unread := head ++ rest } events =
      some final)
    (consumed : final.unread = [] ∨ ∃ reason after, final.control = .aborted reason after) :
    ¬ final.control.Delivers [payload] := by
  have started : Link.Misled head rest { control := .idle endpoint, unread := head ++ rest } :=
    ⟨sound, trivial, Or.inl ⟨rfl, [], .nil, Or.inl ⟨rfl, fresh⟩⟩⟩
  have misled := Machine.state_invariant (Link.Misled head rest)
    (fun _ _ _ allowed misled stepped => misled.step two left notMarker allowed stepped) meets
    reached started
  rcases misled.place with ⟨whole, tracks⟩ | ⟨message, others, front, size⟩
  · rcases consumed with empty | ⟨reason, after, crash⟩
    · rw [empty] at whole
      exact absurd (List.append_eq_nil_iff.mp whole.symm).2 left
    · exact absurd crash (tracks.split.1 reason after)
  · intro delivers
    rw [Control.Delivers, front] at delivers
    cases delivers with
    | cons carries _ =>
        have has : message.m_size = payload.length := carries.2.1
        exact other (Int.ofNat_inj.mp (size.symm.trans has))

/-! ## What is relayed -/

/-- The bytes that an extended frame has left once its marker is dropped. -/
theorem bigEndianBytes_four (value : Nat) :
    bigEndianBytes 4 value = bigEndianBytes 2 (value / 65536) ++ bigEndianBytes 2 value := by
  have quotient : value / 256 / 256 = value / 65536 := Nat.div_div_eq_div_mul value 256 256
  simp only [bigEndianBytes, List.nil_append, ← quotient, List.cons_append]

/-- A message which was received as a frame of a stream, and which `LoadMsg` took
when it was pending. -/
inductive NetMessage.ReceivedAs (frame : Frame) (message : NetMessage) : Prop
  | loaded {frames : List Frame} {receiver current left : Endpoint} {events : List Event}
      {unread : List UInt8} (valid : ∀ frame ∈ frames, frame.Valid) (sound : receiver.Sound)
      (fresh : receiver.manager.m_recvList = [])
      (meets : Link.machine.Meets
        (fun link event => link.control.AdmitsLoads event ∧ link.control.Pending event)
        { control := .idle receiver, unread := (frames.map Frame.bytes).flatten } events)
      (reached : Link.machine.run
        { control := .idle receiver, unread := (frames.map Frame.bytes).flatten } events =
          some { control := .idle current, unread })
      (next : frames[(Link.handed
        { control := .idle receiver, unread := (frames.map Frame.bytes).flatten }
          events).length]? = some frame)
      (pending : current.HasPendingMsg = true)
      (loaded : current.LoadMsg = .ok (message, left)) : ReceivedAs frame message

/-- The bytes which the kernel accepts for a message that is passed to `SendMsg`,
behind those of the messages queued before, once the queue is empty. -/
inductive NetMessage.SentAs (bytes : List UInt8) (message : NetMessage) : Prop
  | sent {sender : Endpoint} {events : List Event} {final : Control}
      (ended : ∀ earlier ∈ sender.manager.m_sendList, earlier.Ended)
      (meets : Endpoint.machine.Meets Control.Sending (.idle (sender.SendMsg message)) events)
      (reached : Endpoint.machine.run (.idle (sender.SendMsg message)) events = some final)
      (emptied : final.endpoint.manager.m_sendList = [])
      (accepted : (Control.idle (sender.SendMsg message)).accepted events =
        (sender.manager.m_sendList.map NetMessage.wire).flatten ++ bytes) : SentAs bytes message

/-- One `ReadRaw` after the other. -/
def NetMessage.readAll (sizes : List Int) (message : NetMessage) : NetMessage :=
  sizes.foldl (fun message size => (message.rRaw size).2) message

/-- Reading moves the cursor and nothing else. -/
theorem NetMessage.readAll_eq (sizes : List Int) (message : NetMessage) :
    ∃ cursor, message.readAll sizes = { message with m_curPos := cursor } := by
  induction sizes generalizing message with
  | nil => exact ⟨message.m_curPos, rfl⟩
  | cons size sizes ih =>
      obtain ⟨cursor, rest⟩ := ih (message.rRaw size).2
      refine ⟨cursor, rest.trans ?_⟩
      unfold rRaw
      split <;> rfl

/-- A message that was received holds the bytes of its length and its payload. -/
theorem Complete.wire_eq {item : Item} {message : NetMessage} (complete : Complete item message) :
    message.wire = item.head ++ item.payload := by
  obtain ⟨-, start, size, headSize, -, bytes, -, -⟩ := complete
  have length : (message.m_headSize + message.m_size).toNat =
      item.head.length + item.payload.length := by
    rw [headSize, size]
    omega
  rw [NetMessage.wire, start, length, bytes]

theorem Complete.layout {item : Item} {message : NetMessage} (complete : Complete item message)
    (header : item.head ≠ []) : message.Layout := by
  have bounds := complete.sound.size_bounds
  have positive := List.length_pos_iff.mpr header
  obtain ⟨-, start, size, headSize, -, -, room, -⟩ := complete
  exact ⟨by omega, by omega, by omega, by omega⟩

theorem NetMessage.ReceivedAs.complete {frame : Frame} {message : NetMessage}
    (received : message.ReceivedAs frame) :
    frame.Valid ∧ ∃ original cursor, Complete frame.item original ∧
      message = { original with m_curPos := cursor } := by
  obtain ⟨valid, sound, fresh, meets, reached, next, pending, loaded⟩ := received
  next frames receiver current left events unread =>
  obtain ⟨-, -, consumed, out, waiting, taken, emitted, carried, -, tracks⟩ :=
    Link.HandsOut.run valid sound fresh meets reached
  have settled : Settled _ current.manager.m_recvList := tracks
  cases list : current.manager.m_recvList with
  | nil =>
      simp only [Endpoint.HasPendingMsg, Endpoint.getMsg, list, List.head?_nil,
        Bool.false_eq_true] at pending
  | cons original rest =>
      simp only [Endpoint.HasPendingMsg, Endpoint.getMsg, list, List.head?_cons] at pending
      simp only [Endpoint.LoadMsg, Endpoint.getMsg, list, List.head?_cons, Except.ok.injEq,
        Prod.mk.injEq] at loaded
      rw [list] at settled
      obtain ⟨item, items, same, complete, -⟩ := settled.front pending
      simp only at same
      subst same
      -- The message is the one behind those which were handed out before.
      have count : (Link.handed
          { control := .idle receiver, unread := (frames.map Frame.bytes).flatten }
            events).length = out.length := by
        rw [← List.length_map Item.payload]
        exact carried.length_eq.symm
      obtain ⟨later, whole⟩ := Frame.arrived_prefix frames consumed.length
      rw [feed_arrived valid ⟨_, taken⟩] at emitted
      have place : (Frame.arrived frames consumed.length)[out.length]?.map Frame.item =
          some item := by
        rw [← List.getElem?_map, emitted, List.getElem?_append_right le_rfl, Nat.sub_self]
        rfl
      obtain ⟨arrived, here, rfl⟩ := Option.map_eq_some_iff.mp place
      have inside := (List.getElem?_eq_some_iff.mp here).1
      rw [count, ← whole, List.getElem?_append_left inside, here] at next
      cases next
      have member : frame ∈ frames := by
        rw [← whole]
        exact List.mem_append_left _ (List.mem_of_getElem? here)
      exact ⟨valid frame member, original, _, complete, loaded.1.symm⟩

/-- Whatever was read of it, a message that was received goes out as the bytes of
its length and its payload, without the marker. -/
theorem NetMessage.SentAs.bytes_eq {frame : Frame} {message : NetMessage} {bytes : List UInt8}
    (received : message.ReceivedAs frame) (sizes : List Int)
    (sent : (message.readAll sizes).SentAs bytes) : bytes = frame.item.head ++ frame.payload := by
  obtain ⟨-, original, cursor, complete, rfl⟩ := received.complete
  obtain ⟨moved, read⟩ := readAll_eq sizes { original with m_curPos := cursor }
  rw [read] at sent
  obtain ⟨ended, meets, reached, emptied, accepted⟩ := sent
  have header : frame.item.head ≠ [] := by
    cases frame <;> exact List.ne_nil_of_length_pos (by simp [Frame.item])
  have layout := complete.layout header
  have wire := complete.wire_eq
  have layout' : NetMessage.Layout { original with m_curPos := moved } :=
    ⟨layout.start, layout.header, layout.least, layout.fits⟩
  have wire' : NetMessage.wire { original with m_curPos := moved } =
      frame.item.head ++ frame.payload := wire.trans (by rw [Frame.item_payload])
  have queue := Control.accepted_queue ((Endpoint.queue_of_ended ended).SendMsg layout') meets reached
  have conserved := queue.accounted.accepted_append
  rw [emptied, List.map_nil, List.map_nil, List.flatten_nil, List.append_nil] at conserved
  have whole := accepted.symm.trans conserved
  rw [List.flatten_append, List.flatten_singleton, wire'] at whole
  exact List.append_cancel_left whole

/-- **What can be relayed.** A receiver of what is sent for a received message ends
with its payload alone exactly if the message came with the two-byte header. -/
theorem Link.relays_iff {frame : Frame} {message : NetMessage} (received : message.ReceivedAs frame)
    (sizes : List Int) {bytes : List UInt8} (sent : (message.readAll sizes).SentAs bytes)
    {endpoint : Endpoint} (sound : endpoint.Sound) (fresh : endpoint.manager.m_recvList = [])
    {events : List Event} {final : Link}
    (meets : Link.machine.Meets Link.AdmitsWhole { control := .idle endpoint, unread := bytes }
      events)
    (reached : Link.machine.run { control := .idle endpoint, unread := bytes } events = some final)
    (consumed : final.unread = [] ∨ ∃ reason after, final.control = .aborted reason after)
    (between : ∀ after, final.control ≠ .waiting .recv after) :
    final.control.Delivers [frame.payload] ↔ frame.marker = [] := by
  obtain rfl := sent.bytes_eq received sizes
  have valid := received.complete.1
  cases frame with
  | short payload =>
      refine iff_of_true ?_ rfl
      have stream : ([Frame.short payload].map Frame.bytes).flatten =
          (Frame.short payload).item.head ++ payload := List.append_nil _
      have alone : ∀ frame ∈ [Frame.short payload], frame.Valid := by
        intro other member
        rw [List.mem_singleton.mp member]
        exact valid
      rw [Frame.payload, ← stream] at meets reached
      exact Link.delivers_of_fillsHeaders alone sound fresh meets reached consumed between
  | long payload =>
      refine iff_of_false ?_ (List.cons_ne_nil _ _)
      change ¬ final.control.Delivers [payload]
      have bound : payload.length ≤ 1073741824 - 4 := valid
      have split : (Frame.long payload).item.head ++ payload =
          bigEndianBytes 2 (payload.length / 65536) ++
            (bigEndianBytes 2 payload.length ++ payload) := by
        rw [← List.append_assoc, ← bigEndianBytes_four]
        rfl
      by_cases empty : payload.length = 0
      · -- Four zero bytes are two empty frames.
        obtain rfl := List.length_eq_zero_iff.mp empty
        have stream : ([Frame.short [], Frame.short []].map Frame.bytes).flatten =
            (Frame.long []).item.head ++ [] := rfl
        rw [Frame.payload, ← stream] at meets reached
        have delivers := Link.delivers_of_fillsHeaders (by decide) sound fresh meets reached
          consumed between
        intro claimed
        have twice := List.Forall₂.length_eq delivers
        rw [← List.Forall₂.length_eq claimed] at twice
        exact absurd twice (by decide)
      · have announced : bigEndian (bigEndianBytes 2 (payload.length / 65536)) =
            payload.length / 65536 := bigEndian_bigEndianBytes (by omega)
        rw [Frame.payload, split] at meets reached
        exact Link.not_delivers_of_misled (length_bigEndianBytes _ _)
          (List.ne_nil_of_length_pos (by simp)) (by omega) (by omega) sound fresh meets reached
          consumed

instance (control : Control) : DecidablePred control.Sending
  | .Update _ => .isTrue trivial
  | .reply reply => inferInstanceAs (Decidable (control.Sends (.reply reply)))
  | .Connect _ _ _ | .ReConnect _ | .Close | .CloseConnection | .SendMsg _ | .InitEncrypt
  | .LoadMsg => .isFalse id

instance (link : Link) : DecidablePred link.FillsHeaders
  | .reply (.recv bytes) => inferInstanceAs (Decidable
      (∀ message ∈ link.control.endpoint.manager.m_recvList.getLast?, message.m_size < 0 →
        bytes.length = message.getReadCap ∨ bytes = link.unread))
  | .reply (.select _) | .reply (.send _) | .reply .recvFailed => .isTrue trivial
  | .Connect _ _ _ | .ReConnect _ | .Close | .CloseConnection | .SendMsg _ | .InitEncrypt
  | .LoadMsg | .Update _ => .isTrue trivial

instance (link : Link) : DecidablePred link.AdmitsWhole := fun event =>
  inferInstanceAs (Decidable (link.control.Admits event ∧ _))

/-- The message that `LoadMsg` takes, if there is one pending. -/
def Link.pendingMsg (link : Link) : Option NetMessage :=
  match link.control with
  | .idle endpoint =>
      if endpoint.HasPendingMsg then endpoint.LoadMsg.toOption.map Prod.fst else none
  | _ => none

/-- The message taken from a receiver of one frame. -/
theorem NetMessage.receivedAs_of_pendingMsg {frame : Frame} {message : NetMessage}
    {events : List Event} (valid : frame.Valid)
    (meets : Link.machine.Meets
      (fun link event => link.control.AdmitsLoads event ∧ link.control.Pending event)
      (.atStart [frame]) events)
    (first : (Link.handed (.atStart [frame]) events).length = 0)
    (taken : (Link.machine.run (.atStart [frame]) events).bind Link.pendingMsg = some message) :
    message.ReceivedAs frame := by
  obtain ⟨⟨control, unread⟩, reached, pending⟩ := Option.bind_eq_some_iff.mp taken
  have alone : ∀ other ∈ [frame], other.Valid := by
    intro other member
    rw [List.mem_singleton.mp member]
    exact valid
  cases control with
  | idle current =>
      simp only [Link.pendingMsg, Option.ite_none_right_eq_some, Option.map_eq_some_iff,
        Prod.exists, exists_and_right, exists_eq_right] at pending
      obtain ⟨pending, left, loaded⟩ := pending
      cases result : current.LoadMsg with
      | error reason =>
          rw [result] at loaded
          cases loaded
      | ok value =>
          rw [result] at loaded
          cases loaded
          have next : [frame][(Link.handed (.atStart [frame]) events).length]? = some frame := by
            rw [first]
            rfl
          exact .loaded alone Endpoint.justConnected_sound rfl meets reached next pending result
  | _ => cases pending

/-- A received frame with the two-byte header. -/
def NetMessage.shortReceived : NetMessage :=
  ((Link.machine.run (.atStart [.short [65]]) (receiving [[0, 1], [65]] .quiet)).bind
    Link.pendingMsg).get (by decide)

theorem NetMessage.receivedAs_shortReceived : shortReceived.ReceivedAs (.short [65]) :=
  receivedAs_of_pendingMsg (by decide) (by decide) (by decide) (Option.some_get _).symm

/-- A received frame with the marker and the four-byte length. -/
def NetMessage.longReceived : NetMessage :=
  ((Link.machine.run (.atStart [.long [65]])
    (receiving [[255, 255], [0, 0, 0, 1], [65]] .quiet)).bind Link.pendingMsg).get (by decide)

/-- A connection with nothing else to send sends all of the message at once. -/
theorem NetMessage.sentAs_of_run {message : NetMessage} {bytes : List UInt8}
    (meets : Endpoint.machine.Meets Control.Sending (.idle (Endpoint.justConnected.SendMsg message))
      ([.Update 1] ++ [Reply.select .writable, .send bytes.length, .select .quiet].map .reply))
    (ran : (Endpoint.machine.run (.idle (Endpoint.justConnected.SendMsg message))
      ([.Update 1] ++ [Reply.select .writable, .send bytes.length, .select .quiet].map .reply)).map
        (fun control => control.endpoint.manager.m_sendList.length) = some 0)
    (accepted : (Control.idle (Endpoint.justConnected.SendMsg message)).accepted
      ([.Update 1] ++ [Reply.select .writable, .send bytes.length, .select .quiet].map .reply) =
        bytes) : message.SentAs bytes := by
  obtain ⟨final, reached, emptied⟩ := Option.map_eq_some_iff.mp ran
  exact .sent (fun _ none_ => absurd none_ List.not_mem_nil) meets reached
    (List.length_eq_zero_iff.mp emptied) accepted

theorem Link.relays_iff_short :
    ∃ final, Link.machine.run { control := .idle .justConnected, unread := [0, 1, 65] }
        (receiving [[0, 1], [65]] .quiet) = some final ∧
      (final.control.Delivers [[65]] ↔ (Frame.short [65]).marker = []) := by
  have sent : (NetMessage.shortReceived.readAll [1]).SentAs [0, 1, 65] :=
    NetMessage.sentAs_of_run (by decide +kernel) (by decide +kernel) (by decide +kernel)
  have ran : (Link.machine.run { control := .idle .justConnected, unread := [0, 1, 65] }
      (receiving [[0, 1], [65]] .quiet)).map outcome = some ([], true, [(1, true)]) := by decide
  obtain ⟨final, reached, outcome⟩ := Option.map_eq_some_iff.mp ran
  refine ⟨final, reached, Link.relays_iff NetMessage.receivedAs_shortReceived [1] sent
    Endpoint.justConnected_sound rfl (by decide) reached (Or.inl (congrArg Prod.fst outcome)) ?_⟩
  intro after waits
  have idle : final.control.isIdle = true := congrArg (fun seen => seen.2.1) outcome
  rw [waits] at idle
  exact Bool.false_ne_true idle

/-- The payload `A` of an extended frame arrives behind an empty message. -/
theorem Link.not_relays_of_marker :
    ¬ ∀ (frame : Frame) (message : NetMessage) (sizes : List Int) (bytes : List UInt8)
        (endpoint : Endpoint) (events : List Event) (final : Link),
      message.ReceivedAs frame → (message.readAll sizes).SentAs bytes → endpoint.Sound →
        endpoint.manager.m_recvList = [] →
        Link.machine.Meets Link.AdmitsWhole { control := .idle endpoint, unread := bytes } events →
        Link.machine.run { control := .idle endpoint, unread := bytes } events = some final →
        final.unread = [] → final.control.isIdle = true →
          final.control.Delivers [frame.payload] := by
  intro claimed
  have received : NetMessage.longReceived.ReceivedAs (.long [65]) :=
    NetMessage.receivedAs_of_pendingMsg (by decide) (by decide) (by decide) (Option.some_get _).symm
  have sent : (NetMessage.longReceived.readAll [1]).SentAs [0, 0, 0, 1, 65] :=
    NetMessage.sentAs_of_run (by decide +kernel) (by decide +kernel) (by decide +kernel)
  have ran : (Link.machine.run { control := .idle .justConnected, unread := [0, 0, 0, 1, 65] }
      (receiving [[0, 0], [0, 1], [65]] .quiet)).map outcome =
        some ([], true, [(0, true), (1, true)]) := by decide
  obtain ⟨final, reached, outcome⟩ := Option.map_eq_some_iff.mp ran
  have delivers := claimed _ _ [1] _ .justConnected _ final received sent
    Endpoint.justConnected_sound rfl (by decide) reached (congrArg Prod.fst outcome)
    (congrArg (fun seen => seen.2.1) outcome)
  have two : final.control.endpoint.manager.m_recvList.length = 2 := by
    have seen := congrArg (fun seen => seen.2.2.length) outcome
    rw [Link.outcome, List.length_map] at seen
    exact seen
  rw [← List.Forall₂.length_eq delivers] at two
  exact absurd two (by decide)

end EngSocket
