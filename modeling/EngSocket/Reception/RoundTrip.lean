import EngSocket.Message.Writing
import EngSocket.Reception.Splitting
import Mathlib.Algebra.BigOperators.Group.List.Basic

/-!
# From the sender's buffers to the receiver's

What `beginForWrite`, `wRaw` and `endForWrite` put together, a receiver whose
header reads are filled takes apart again. Such a receiver never reads across the
end of a part of a frame (`EngSocket.Link.Reads`), so it stays with the frame
reader; and as long as `select` reports the bytes that are left, `Update` does not
return before it has read them all (`EngSocket.Link.round_trip`).
-/

namespace EngSocket

open Foundation

/-- The message was written with the payload, in any number of parts. -/
def NetMessage.WrittenAs (payload : List UInt8) (message : NetMessage) : Prop :=
  ∃ (before : NetMessage) (process left : Process) (parts : List (List UInt8)),
    before.m_buffer.Sound ∧ process.Generous ∧ parts.flatten = payload ∧
      before.write parts process = .ok (message, left)

/-- A `Recv` that reads a header has as many bytes as it asked for. -/
def Control.FillsHeaders (control : Control) : Event → Prop
  | .reply (.recv bytes) =>
      ∀ message ∈ control.endpoint.manager.m_recvList.getLast?,
        message.m_size < 0 → bytes.length = message.getReadCap
  | _ => True

/-- `select` reports a readable descriptor exactly while bytes are left, and no
`Send` fails. -/
def Link.Tells (link : Link) : Event → Prop
  | .reply (.select reply) => reply.read = true ↔ link.unread ≠ []
  | .reply (.send sizeSended) => 0 ≤ sizeSended
  | _ => True

/-! ## Headers read at once -/

/-- Nothing has been read of a header. -/
def Phase.Aligned (phase : Phase) : Prop :=
  match phase.stage with
  | .body _ => True
  | _ => phase.got = []

theorem Stage.aligned_finish (stage : Stage) (bytes : List UInt8) :
    (stage.finish bytes).1.Aligned := by
  have entered (head : List UInt8) : (enterBody head).1.Aligned := by
    unfold enterBody
    split
    · rfl
    · trivial
  cases stage with
  | short =>
      simp only [Stage.finish]
      split
      · rfl
      · exact entered bytes
  | long => exact entered bytes
  | body head => rfl

variable {phase : Phase} {piece : List UInt8}

/-- A piece that fills a header, or reads some of a body, leaves no header half read. -/
theorem aligned_feed (nonempty : piece ≠ []) (holds : phase.Holds piece)
    (fills : (∃ head, phase.stage = .body head) ∨ piece.length = phase.stage.width) :
    (frameDecoder.feed phase piece).1.Aligned := by
  obtain ⟨stage, got⟩ := phase
  rcases Nat.lt_or_eq_of_le holds with below | full
  · rw [feed_of_lt stage got piece below]
    rcases fills with ⟨head, same⟩ | filled
    · simp only at same
      subst same
      trivial
    · simp only at filled below
      omega
  · rw [feed_of_eq stage got piece nonempty full]
    exact stage.aligned_finish _

/-- The rest of a stream has the rest of the part that is being read. -/
theorem rest_of_part {unread : List UInt8} (left : unread ≠ [])
    (ends : (frameDecoder.feed phase unread).1 = frameDecoder.start) :
    phase.stage.width ≤ phase.got.length + unread.length := by
  by_contra short
  rw [feed_of_lt phase.stage phase.got unread (by omega)] at ends
  exact left (List.append_eq_nil_iff.mp (congrArg Phase.got ends)).2

/-- A `Recv` which fills its header, if it reads one, stays within its part. -/
theorem Reading.holds_of_fills {message : NetMessage} (reading : Reading phase message)
    (aligned : phase.Aligned) (asked : piece.length ≤ message.getReadCap)
    (fills : message.m_size < 0 → piece.length = message.getReadCap) :
    phase.Holds piece ∧ ((∃ head, phase.stage = .body head) ∨ piece.length = phase.stage.width) := by
  have size := reading.size
  have incomplete := reading.incomplete
  have cap := reading.getReadCap_eq
  obtain ⟨stage, got⟩ := phase
  unfold Phase.Holds
  cases stage with
  | short =>
      obtain rfl : got = [] := aligned
      simp only [Stage.sizeField, Stage.width, List.length_nil] at *
      have filled := fills (by omega)
      exact ⟨by omega, Or.inr (by omega)⟩
  | long =>
      obtain rfl : got = [] := aligned
      simp only [Stage.sizeField, Stage.width, List.length_nil] at *
      have filled := fills (by omega)
      exact ⟨by omega, Or.inr (by omega)⟩
  | body head =>
      simp only at cap incomplete ⊢
      exact ⟨by omega, Or.inl ⟨head, rfl⟩⟩

theorem Phase.Holds.covers (holds : phase.Holds piece) : phase.Covers piece := by
  unfold Phase.Covers
  split
  · trivial
  · exact holds

/-- Pieces that fill the headers they begin in stay within their parts. -/
theorem Control.Tracks.holds_of_fills {read : Phase × List Item} {control next : Control}
    {event : Event} (tracks : control.Tracks read) (aligned : read.1.Aligned)
    (admits : control.Admits event) (fills : control.FillsHeaders event)
    (stepped : Endpoint.machine.step control event = some next) :
    (∀ piece ∈ event.pieces, read.1.Holds piece) ∧
      (frameDecoder.feed read.1 event.piece).1.Aligned := by
  rcases event.pieces_cases with ⟨none_, nothing⟩ | ⟨bytes, rfl⟩
  · rw [none_, nothing]
    exact ⟨List.forall_mem_nil _, aligned⟩
  · obtain ⟨endpoint, rfl, -⟩ := Endpoint.step_recv stepped
    obtain ⟨done, message, -, reading, back⟩ : Expecting read endpoint.manager.m_recvList := tracks
    have last : endpoint.manager.m_recvList.getLast? = some message := by
      rw [back, List.getLast?_concat]
    obtain ⟨holds, filled⟩ :=
      reading.holds_of_fills aligned (admits.2 message last) (fills message last)
    refine ⟨fun piece taken => ?_, aligned_feed admits.1 holds filled⟩
    rw [List.mem_singleton.mp taken]
    exact holds

/-! ## A receiver whose headers are filled -/

/-- A receiver which has taken some pieces of a stream and always filled its headers. -/
structure Link.Reads (stream : List UInt8) (pieces : List (List UInt8)) (link : Link) : Prop
    extends Link.Follows stream pieces link where
  whole : frameDecoder.Along Phase.Holds frameDecoder.start pieces
  aligned : (frameDecoder.feed frameDecoder.start pieces.flatten).1.Aligned

variable {stream : List UInt8} {pieces : List (List UInt8)} {link next : Link}

/-- Before the first piece. -/
theorem Link.Reads.start {endpoint : Endpoint} (sound : endpoint.Sound)
    (fresh : endpoint.manager.m_recvList = []) :
    Link.Reads stream [] { control := .idle endpoint, unread := stream } where
  toFollows := .start sound fresh
  whole := trivial
  aligned := rfl

theorem Link.Reads.tracks (reads : link.Reads stream pieces) :
    link.control.Tracks (frameDecoder.feed frameDecoder.start pieces.flatten) := by
  rcases reads.place with ⟨-, tracks⟩ | ⟨crossed, -⟩
  · exact tracks
  · exact absurd (Decoder.Along.mono (fun _ _ holds => Phase.Holds.covers holds) reads.whole) crossed

theorem Link.Reads.step {frames : List Frame} (valid : ∀ frame ∈ frames, frame.Valid)
    (sent : stream = (frames.map Frame.bytes).flatten) {event : Event}
    (reads : link.Reads stream pieces) (admits : link.control.Admits event)
    (fills : link.control.FillsHeaders event)
    (stepped : Link.machine.step link event = some next) :
    next.Reads stream (pieces ++ event.pieces) := by
  obtain ⟨holds, aligned⟩ :=
    reads.tracks.holds_of_fills reads.aligned admits fills (Link.step_eq_some stepped).1
  refine ⟨reads.toFollows.step valid sent admits stepped,
    (along_pieces event).mpr ⟨reads.whole, holds⟩, ?_⟩
  rw [List.flatten_append, event.flatten_pieces, Decoder.feed_append]
  exact aligned

/-- Where an established connection is while `select` tells what is left. -/
def Link.UpToDate (link : Link) : Prop :=
  link.control.endpoint.GetState = .Connected ∧
    match link.control with
    | .idle _ => link.unread = []
    | .waiting .recv _ => link.unread ≠ []
    | _ => True

theorem Link.UpToDate.step {event : Event} (current : link.UpToDate) (armed : link.control.Armed)
    (running : ∀ reason after, next.control ≠ .aborted reason after)
    (admits : link.control.Admits event) (tells : link.Tells event)
    (stepped : Link.machine.step link event = some next) : next.UpToDate := by
  obtain ⟨moved, same⟩ := Link.step_eq_some stepped
  obtain ⟨control, unread⟩ := link
  obtain ⟨control', unread'⟩ := next
  obtain ⟨connected, place⟩ := current
  simp only at moved same running armed admits connected place
  rcases Endpoint.step_cases moved with ⟨endpoint, rfl, called⟩ |
    ⟨point, endpoint, reply, rfl, rfl, resumed⟩
  · cases event with
    | Update dt =>
        rcases Endpoint.call_Update called with rfl | ⟨rfl, -⟩
        · exact ⟨connected, same.trans place⟩
        · exact ⟨connected, trivial⟩
    | reply reply => cases called
    | _ => exact absurd admits id
  · obtain ⟨⟨socket, present⟩, about⟩ := armed
    rcases Endpoint.resume_cases resumed with ⟨answer, rfl, -⟩ | ⟨sizeSended, rfl, rfl⟩ |
      ⟨bytes, rfl, rfl, nonempty⟩ | ⟨rfl, rfl | rfl⟩
    · obtain ⟨heeds, connected'⟩ :=
        Endpoint.resume_select_connected admits present connected resumed
      obtain rfl : unread' = unread := same
      refine ⟨connected', ?_⟩
      have told : answer.read = true ↔ unread' ≠ [] := tells
      cases control' with
      | idle after =>
          have silent : answer.read = false := heeds
          rw [silent] at told
          exact not_not.mp fun left => Bool.false_ne_true (told.mpr left)
      | waiting point after =>
          cases point with
          | recv => exact told.mp heeds
          | _ => trivial
      | aborted reason after => exact absurd rfl (running reason after)
    · obtain ⟨message, rest, front, -⟩ := about
      have sent : 0 ≤ sizeSended := tells
      rcases Endpoint.resume_send front resumed with ⟨failed, -⟩ | ⟨-, ⟨-, rfl⟩ | ⟨-, rfl⟩⟩
      · omega
      · exact ⟨connected, trivial⟩
      · exact ⟨connected, trivial⟩
    · obtain ⟨older, message, back, -⟩ := about
      rcases Endpoint.resume_recv back nonempty resumed with ⟨reason, -, rfl⟩ |
        ⟨filled, -, ⟨reason, -, rfl⟩ | ⟨after, process, -, rfl⟩⟩
      · exact absurd rfl (running _ _)
      · exact absurd rfl (running _ _)
      · exact ⟨connected, trivial⟩
    · exact absurd rfl admits.1
    · exact absurd admits id

/-- What a run of the receiver may do in the round trip. -/
def Link.Faithful (link : Link) (event : Event) : Prop :=
  link.control.Admits event ∧ link.control.FillsHeaders event ∧ link.Tells event

theorem Link.exists_step (link : Link) (event : Event) {control : Control}
    (moved : Endpoint.machine.step link.control event = some control)
    (taken : event.piece <+: link.unread) : ∃ next, Link.machine.step link event = some next := by
  simp only [Link.machine, taken, ↓reduceIte, moved, Option.map_some]
  exact ⟨_, rfl⟩

/-- The bytes that a receiver asks for are there: it can go on. -/
theorem Link.Reads.exists_reply {frames : List Frame} (valid : ∀ frame ∈ frames, frame.Valid)
    (sent : stream = (frames.map Frame.bytes).flatten) (reads : link.Reads stream pieces)
    (current : link.UpToDate) {point : Point} {endpoint : Endpoint}
    (waits : link.control = .waiting point endpoint) :
    ∃ reply next, link.Faithful (.reply reply) ∧
      Link.machine.step link (.reply reply) = some next := by
  have tracks := reads.tracks
  obtain ⟨control, unread⟩ := link
  simp only at waits
  subst waits
  let answer : SelectReply :=
    { ret := 0, read := decide (unread ≠ []), write := false, error := false }
  have told : Link.Faithful { control := .waiting point endpoint, unread }
      (.reply (.select answer)) :=
    ⟨rfl, trivial, decide_eq_true_iff⟩
  cases point with
  | checkFirst dt =>
      obtain ⟨next, stepped⟩ := Link.exists_step { control := .waiting (.checkFirst dt) endpoint, unread }
        (.reply (.select answer)) rfl List.nil_prefix
      exact ⟨_, next, told, stepped⟩
  | send =>
      obtain ⟨next, stepped⟩ := Link.exists_step { control := .waiting .send endpoint, unread }
        (.reply (.send 0)) rfl List.nil_prefix
      exact ⟨.send 0, next, ⟨trivial, trivial, (le_rfl : (0 : Int) ≤ 0)⟩, stepped⟩
  | checkSend =>
      obtain ⟨next, stepped⟩ := Link.exists_step { control := .waiting .checkSend endpoint, unread }
        (.reply (.select answer)) rfl List.nil_prefix
      exact ⟨_, next, told, stepped⟩
  | checkRecv =>
      obtain ⟨next, stepped⟩ := Link.exists_step { control := .waiting .checkRecv endpoint, unread }
        (.reply (.select answer)) rfl List.nil_prefix
      exact ⟨_, next, told, stepped⟩
  | recv =>
      have left : unread ≠ [] := current.2
      obtain ⟨done, message, -, reading, back⟩ : Expecting _ endpoint.manager.m_recvList := tracks
      have last : endpoint.manager.m_recvList.getLast? = some message := by
        rw [back, List.getLast?_concat]
      have ends : (frameDecoder.feed (frameDecoder.feed frameDecoder.start pieces.flatten).1
          unread).1 = frameDecoder.start := by
        have whole := congrArg Prod.fst (feed_frames valid)
        rw [← sent, ← reads.taken, Decoder.feed_append] at whole
        exact whole
      have enough := rest_of_part left ends
      have aligned := reads.aligned
      generalize (frameDecoder.feed frameDecoder.start pieces.flatten).1 = phase at *
      -- All that is missing of the part.
      let bytes := unread.take (phase.stage.width - phase.got.length)
      have incomplete := reading.incomplete
      have length : bytes.length = phase.stage.width - phase.got.length := by
        rw [List.length_take]
        omega
      have cap : (bytes.length : Int) = message.getReadCap := by
        rw [length, reading.getReadCap_eq]
        obtain ⟨stage, got⟩ := phase
        cases stage with
        | short =>
            obtain rfl : got = [] := aligned
            rfl
        | long =>
            obtain rfl : got = [] := aligned
            rfl
        | body head => exact Nat.cast_sub incomplete.le
      have nonempty : bytes ≠ [] := by
        rw [← List.length_pos_iff, length]
        omega
      obtain ⟨next, stepped⟩ := Link.exists_step { control := .waiting .recv endpoint, unread }
        (.reply (.recv bytes)) rfl (List.take_prefix _ _)
      refine ⟨.recv bytes, next, ⟨⟨nonempty, ?_⟩, ?_, trivial⟩, stepped⟩
      · intro other member
        cases last.symm.trans member
        exact cap.le
      · intro other member _
        cases last.symm.trans member
        exact cap

/-- A message that was written goes out as the frame of its payload. -/
theorem NetMessage.WrittenAs.wire_eq {payload : List UInt8} {message : NetMessage}
    (bounded : payload.length ≤ 1073741824 - 6) (written : message.WrittenAs payload) :
    message.wire = (Frame.of payload).bytes := by
  obtain ⟨before, process, left, parts, sound, generous, rfl, written⟩ := written
  obtain ⟨after, requests, written', finished⟩ := NetMessage.write_eq parts sound bounded generous
  cases written'.symm.trans written
  exact finished.wire

theorem wire_of_written {payloads : List (List UInt8)} {messages : List NetMessage}
    (bounded : ∀ payload ∈ payloads, payload.length ≤ 1073741824 - 6)
    (written : List.Forall₂ NetMessage.WrittenAs payloads messages) :
    messages.map NetMessage.wire = (payloads.map Frame.of).map Frame.bytes := by
  induction written with
  | nil => rfl
  | cons here _ ih =>
      simp only [List.map_cons]
      rw [here.wire_eq (bounded _ List.mem_cons_self),
        ih fun payload member => bounded payload (List.mem_cons_of_mem _ member)]

/-- Every piece of a faithful run has at least a byte. -/
theorem received_ne_nil {events : List Event} {final : Link}
    (meets : Link.machine.Meets Link.Faithful link events)
    (reached : Link.machine.run link events = some final) :
    ∀ piece ∈ received events, piece ≠ [] := by
  refine Machine.emit_invariant Event.pieces (fun pieces _ => ∀ piece ∈ pieces, piece ≠ []) ?_
    meets reached (List.forall_mem_nil _)
  intro pieces link event next allowed nonempty _ piece member
  rcases List.mem_append.mp member with old | new
  · exact nonempty piece old
  · rcases event.pieces_cases with ⟨none_, -⟩ | ⟨bytes, rfl⟩
    · rw [none_] at new
      cases new
    · rw [List.mem_singleton.mp new]
      exact allowed.1.1

/-- Pieces that have at least a byte are no more than their bytes. -/
theorem length_le_flatten {pieces : List (List UInt8)} (nonempty : ∀ piece ∈ pieces, piece ≠ []) :
    pieces.length ≤ pieces.flatten.length := by
  have counted := List.length_le_sum_of_one_le (pieces.map List.length) fun length member => by
    obtain ⟨piece, taken, rfl⟩ := List.mem_map.mp member
    exact List.length_pos_iff.mpr (nonempty piece taken)
  rwa [List.length_map, ← List.length_flatten] at counted

/-- **A faithful run in `Update`** reads as the frames are written, and is in the middle
of it or has read all. -/
theorem Link.Reads.run {frames : List Frame} (valid : ∀ frame ∈ frames, frame.Valid)
    (reads : link.Reads (frames.map Frame.bytes).flatten []) (current : link.UpToDate)
    {events : List Event} {final : Link} (meets : Link.machine.Meets Link.Faithful link events)
    (reached : Link.machine.run link events = some final) :
    final.Reads (frames.map Frame.bytes).flatten (received events) ∧ final.UpToDate := by
  refine Machine.emit_invariant Event.pieces
    (fun pieces link => link.Reads (frames.map Frame.bytes).flatten pieces ∧ link.UpToDate) ?_
    meets reached ⟨reads, current⟩
  rintro pieces link event next allowed ⟨reads, current⟩ stepped
  have after := reads.step valid rfl allowed.1 allowed.2.1 stepped
  exact ⟨after, current.step reads.armed after.tracks.split.1 allowed.1 allowed.2.2 stepped⟩

/-- **The codec round trip.** Messages that were written, one after the other on
the wire, and a connected receiver in `Update` whose header reads are filled. It
does not crash, makes at most one `Recv` for each byte, can always go on before it
returns, and once it has returned it has read every byte, holds the payloads in
order and has in no `Recv` read across the end of a frame. -/
theorem Link.round_trip {payloads : List (List UInt8)} {messages : List NetMessage}
    (bounded : ∀ payload ∈ payloads, payload.length ≤ 1073741824 - 6)
    (written : List.Forall₂ NetMessage.WrittenAs payloads messages)
    {endpoint : Endpoint} (sound : endpoint.Sound) (fresh : endpoint.manager.m_recvList = [])
    {socket : CSocketCommon} (present : endpoint.manager.m_pSocket = some socket)
    (connected : endpoint.GetState = .Connected) {dt : Int} {events : List Event} {final : Link}
    (meets : Link.machine.Meets Link.Faithful
      { control := .idle endpoint, unread := (messages.map NetMessage.wire).flatten }
      (.Update dt :: events))
    (reached : Link.machine.run
      { control := .idle endpoint, unread := (messages.map NetMessage.wire).flatten }
      (.Update dt :: events) = some final) :
    (∀ reason after, final.control ≠ .aborted reason after) ∧
      (received events).length ≤ (messages.map NetMessage.wire).flatten.length ∧
        (∀ point after, final.control = .waiting point after →
          ∃ reply next, final.Faithful (.reply reply) ∧
            Link.machine.step final (.reply reply) = some next) ∧
          ∀ after, final.control = .idle after →
            final.unread = [] ∧ final.control.Delivers payloads ∧
              ∃ groups : List (List (List UInt8)), groups.flatten = received events ∧
                groups.map List.flatten = messages.map NetMessage.wire := by
  rw [wire_of_written bounded written] at meets reached ⊢
  have valid : ∀ frame ∈ payloads.map Frame.of, frame.Valid := by
    intro frame member
    obtain ⟨payload, listed, rfl⟩ := List.mem_map.mp member
    exact Frame.valid_of (bounded payload listed)
  have carried : (payloads.map Frame.of).map Frame.payload = payloads := by
    simp only [List.map_map, Function.comp_def, Frame.payload_of, List.map_id']
  generalize payloads.map Frame.of = frames at *
  obtain ⟨started, first, rest⟩ := Machine.run_cons_eq_some.mp reached
  obtain rfl : started =
      { control := .waiting (.checkFirst dt) endpoint, unread := (frames.map Frame.bytes).flatten } := by
    have waits : endpoint.Update dt = .waiting (.checkFirst dt) endpoint := by
      simp only [Endpoint.Update, present, connected, reduceCtorEq, or_self, ↓reduceIte]
    obtain ⟨moved, unread⟩ := Link.step_eq_some first
    obtain ⟨control, left⟩ := started
    cases waits.symm.trans (Option.some.inj moved)
    cases unread
    rfl
  obtain ⟨allowed, meets⟩ := (Machine.meets_cons_of_step first).mp meets
  have entered := (Link.Reads.start sound fresh).step valid rfl allowed.1 allowed.2.1 first
  obtain ⟨reads, current⟩ := Link.Reads.run valid entered ⟨connected, trivial⟩ meets rest
  have nonempty := received_ne_nil meets rest
  refine ⟨reads.tracks.split.1, ?_,
    fun point after waits => reads.exists_reply valid rfl current waits, ?_⟩
  · rw [← reads.taken, List.length_append]
    exact Nat.le_add_right_of_le (length_le_flatten nonempty)
  · intro after idle
    have empty : final.unread = [] := by
      have place := current.2
      rw [idle] at place
      exact place
    have whole : (received events).flatten = (frames.map Frame.bytes).flatten := by
      simpa only [empty, List.append_nil] using reads.taken
    refine ⟨empty, ?_, exists_groups valid nonempty reads.whole whole⟩
    rw [← carried]
    refine reads.toFollows.delivers valid reads.tracks (Or.inl empty) fun other waits => ?_
    cases idle.symm.trans waits

instance (control : Control) : DecidablePred control.FillsHeaders
  | .reply (.recv bytes) => inferInstanceAs (Decidable
      (∀ message ∈ control.endpoint.manager.m_recvList.getLast?,
        message.m_size < 0 → bytes.length = message.getReadCap))
  | .reply (.select _) | .reply (.send _) | .reply .recvFailed => .isTrue trivial
  | .Connect _ _ _ | .ReConnect _ | .Close | .CloseConnection | .SendMsg _ | .InitEncrypt
  | .LoadMsg | .Update _ => .isTrue trivial

instance (link : Link) : DecidablePred link.Tells
  | .reply (.select reply) => inferInstanceAs (Decidable (reply.read = true ↔ link.unread ≠ []))
  | .reply (.send sizeSended) => inferInstanceAs (Decidable (0 ≤ sizeSended))
  | .reply (.recv _) | .reply .recvFailed => .isTrue trivial
  | .Connect _ _ _ | .ReConnect _ | .Close | .CloseConnection | .SendMsg _ | .InitEncrypt
  | .LoadMsg | .Update _ => .isTrue trivial

instance (link : Link) : DecidablePred link.Faithful := fun event =>
  inferInstanceAs (Decidable (link.control.Admits event ∧ _))

/-- Two messages on the wire, the payload of the second one in two `wRaw`. -/
theorem Link.round_trip_short :
    ∃ first second final, NetMessage.WrittenAs [65] first ∧
      NetMessage.WrittenAs [66, 67] second ∧
        Link.machine.run
          { control := .idle .justConnected, unread := [first.wire, second.wire].flatten }
          (receiving [[0, 1], [65], [0, 2], [66], [67]] .quiet) = some final ∧
        final.control.Delivers [[65], [66, 67]] := by
  have generous : Process.fresh.Generous := fun _ => rfl
  obtain ⟨buffer, generous'⟩ := NetMessage.new_sound generous (List.forall_mem_nil _)
  obtain ⟨first, requests, written, finished⟩ :=
    NetMessage.write_eq [[], [65]] buffer (by decide) generous'
  obtain ⟨second, requests', written', finished'⟩ :=
    NetMessage.write_eq [[66], [67]] buffer (by decide) generous'
  have writtenFirst : NetMessage.WrittenAs [65] first :=
    ⟨_, _, _, _, buffer, generous', rfl, written⟩
  have writtenSecond : NetMessage.WrittenAs [66, 67] second :=
    ⟨_, _, _, _, buffer, generous', rfl, written'⟩
  have stream : [first.wire, second.wire].flatten = [0, 1, 65, 0, 2, 66, 67] := by
    rw [finished.wire, finished'.wire]
    decide
  have ran : (Link.machine.run
      { control := .idle .justConnected, unread := [0, 1, 65, 0, 2, 66, 67] }
      (receiving [[0, 1], [65], [0, 2], [66], [67]] .quiet)).map outcome =
        some ([], true, [(1, true), (2, true)]) := by decide
  obtain ⟨final, reached, outcome⟩ := Option.map_eq_some_iff.mp ran
  refine ⟨first, second, final, writtenFirst, writtenSecond, by rw [stream]; exact reached, ?_⟩
  have meets : Link.machine.Meets Link.Faithful
      { control := .idle .justConnected, unread := [first.wire, second.wire].flatten }
      (receiving [[0, 1], [65], [0, 2], [66], [67]] .quiet) := by
    rw [stream]
    decide
  rw [← stream] at reached
  have arrives := Link.round_trip (by decide) (.cons writtenFirst (.cons writtenSecond .nil))
    Endpoint.justConnected_sound rfl rfl rfl meets reached
  cases control : final.control with
  | idle after =>
      rw [← control]
      exact (arrives.2.2.2 after control).2.1
  | _ =>
      have idle : final.control.isIdle = true := congrArg (fun seen => seen.2.1) outcome
      rw [control] at idle
      cases idle

end EngSocket
