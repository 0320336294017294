import EngSocket.Reception.Splitting

/-!
# The window of a `Recv`

Against a peer that sends anything at all. The window stays in the buffer as long
as no `Recv` goes on beyond a header and no four-byte length is so large that its
sum with the cursor overflows. A smaller length which no buffer has room for is
never answered at all.
-/

namespace EngSocket

open Foundation

/-- The window of the `Recv` which waits lies in its message's buffer. -/
def Control.WindowInside : Control → Prop
  | .waiting .recv endpoint =>
      ∃ message, endpoint.manager.m_recvList.getLast? = some message ∧ message.WindowInside
  | _ => True

/-- What the world may do to a receiver: a script sends messages with sound
buffers, and `recv` stores no more than it was asked for. -/
def Control.Permits (control : Control) : Event → Prop
  | .SendMsg message => message.m_buffer.Sound
  | .reply (.recv bytes) =>
      ∀ message ∈ control.endpoint.manager.m_recvList.getLast?, bytes.length ≤ message.getReadCap
  | _ => True

/-- The bytes of a `Recv` do not go on beyond the header they are part of, and do
not complete a four-byte length from `2 ^ 31 - 4` on. -/
def NetMessage.HarmlessHeader (bytes : List UInt8) (message : NetMessage) : Prop :=
  message.m_size < 0 →
    message.m_curPos + bytes.length ≤ message.m_headSize ∧
      (message.m_size = -2 → message.m_curPos + bytes.length = message.m_headSize →
        bigEndian (message.m_buffer.m_buf.read 0 message.m_curPos.toNat ++ bytes) < 2147483644)

/-- The condition on a step: a `Recv` reads its header harmlessly. -/
def Control.Harmless (control : Control) : Event → Prop
  | .reply (.recv bytes) =>
      ∀ message ∈ control.endpoint.manager.m_recvList.getLast?, message.HarmlessHeader bytes
  | _ => True

/-- A message somewhere in its reception. -/
def NetMessage.InReception (message : NetMessage) : Prop :=
  (∃ phase, Reading phase message) ∨ ∃ item, Complete item message

variable {phase : Phase} {message : NetMessage} {process : Process}

theorem Reading.covers_of_harmless (reading : Reading phase message) {piece : List UInt8}
    (harmless : message.HarmlessHeader piece) : phase.Covers piece := by
  have cursor := reading.cursor
  have size := reading.size
  have headSize := reading.headSize
  obtain ⟨stage, got⟩ := phase
  cases stage with
  | short =>
      simp only [Stage.head, Stage.sizeField, Stage.headSize, List.length_nil] at *
      have within := (harmless (by omega)).1
      simp only [Phase.Covers, Stage.width]
      omega
  | long =>
      simp only [Stage.head, Stage.sizeField, Stage.headSize, List.length_nil] at *
      have within := (harmless (by omega)).1
      simp only [Phase.Covers, Stage.width]
      omega
  | body head => trivial

/-- A piece within the part being read moves the message on, unless it announces
a length without end. -/
theorem Reading.receive_or_endless (reading : Reading phase message) {piece : List UInt8}
    (nonempty : piece ≠ []) (covered : phase.got.length + piece.length ≤ phase.stage.width)
    (harmless : message.HarmlessHeader piece) (generous : process.Generous) :
    (message.filled piece).onReceive piece.length process = .error .endless ∨
      ∃ after requests,
        (message.filled piece).onReceive piece.length process =
            .ok (after, { process with requests }) ∧
          after.InReception := by
  by_cases bounded : (frameDecoder.feed phase piece).1.Bounded
  · obtain ⟨after, requests, received, decoded, -, -⟩ :=
      reading.receive nonempty covered generous bounded
    refine Or.inr ⟨after, requests, received, ?_⟩
    generalize frameDecoder.feed phase piece = next at decoded
    cases decoded with
    | reading reading => exact Or.inl ⟨_, reading⟩
    | complete complete => exact Or.inr ⟨_, complete⟩
  · -- Only a four-byte length can announce more than a buffer has room for.
    have bounds := reading.sound.size_bounds
    have room := reading.room
    have small := reading.small
    obtain ⟨stage, got⟩ := phase
    have entered (head : List UInt8) (few : head.length ≤ 4)
        (fits : head.length + bigEndian head ≤ 1073741824) : (enterBody head).1.Bounded := by
      unfold enterBody
      split
      · trivial
      · exact ⟨few, fits⟩
    rcases Nat.lt_or_eq_of_le covered with below | full
    · rw [feed_of_lt stage got piece below] at bounded
      cases stage with
      | body head =>
          simp only [Stage.head, Stage.width] at room small
          exact absurd ⟨small, by omega⟩ bounded
      | _ => exact absurd trivial bounded
    · rw [feed_of_eq stage got piece nonempty full] at bounded
      have length : (got ++ piece).length = stage.width := by rw [List.length_append, full]
      cases stage with
      | short =>
          have value := bigEndian_lt (got ++ piece)
          rw [length] at value
          simp only [Stage.finish] at bounded
          split at bounded
          · exact absurd trivial bounded
          · refine absurd (entered _ ?_ ?_) bounded
            · rw [length]
              decide
            · rw [length]
              norm_num [Stage.width] at value ⊢
              omega
      | long =>
          refine Or.inl (reading.receive_endless full ?_ ?_ _)
          · by_contra fits
            refine bounded (entered _ length.le ?_)
            rw [length]
            simp only [Stage.width]
            omega
          · have cursor := reading.cursor
            have size := reading.size
            have headSize := reading.headSize
            have bytes := reading.bytes
            simp only [Stage.head, Stage.sizeField, Stage.headSize, Stage.width, List.length_nil,
              Nat.zero_add, List.nil_append] at *
            have before : message.m_curPos.toNat = got.length := by omega
            have below := (harmless (by omega)).2 size (by omega)
            rw [before, bytes] at below
            exact below
      | body head => exact absurd trivial bounded

/-- Every message of the receiver is somewhere in its reception. -/
def Control.InReception (control : Control) : Prop :=
  ∀ message ∈ control.endpoint.manager.m_recvList, message.InReception

/-- An incomplete message in reception is one that is being read. -/
theorem NetMessage.InReception.reading_of_not_end (inReception : message.InReception)
    (incomplete : message.isEnd = false) : ∃ phase, Reading phase message := by
  rcases inReception with reading | ⟨item, complete⟩
  · exact reading
  · exact absurd (complete.isEnd_eq.symm.trans incomplete) Bool.noConfusion

/-- **One step against any peer.** -/
theorem Control.InReception.step {control next : Control} {event : Event}
    (all : control.InReception) (sound : control.Sound) (armed : control.Armed)
    (permits : control.Permits event) (harmless : control.Harmless event)
    (stepped : Endpoint.machine.step control event = some next) : next.InReception := by
  intro message member
  rcases Control.recvList_step armed stepped message member with
    old | ⟨after, same, rfl⟩ | ⟨last, filled, bytes, process, rfl, nonempty, there, incomplete,
      stored, received⟩
  · exact all message old
  · have supplied := same.sound sound
    exact Or.inl ⟨_, Reading.new supplied.generous supplied.pool⟩
  · obtain ⟨phase, reading⟩ :=
      (all last (List.mem_of_getLast? there)).reading_of_not_end incomplete
    have header := harmless last there
    have covered := reading.covered_of_le (reading.covers_of_harmless header) (permits last there)
    obtain ⟨stored', -⟩ := reading.storeAtCursor_eq bytes covered
    cases stored'.symm.trans stored
    rcases reading.receive_or_endless nonempty covered header sound.generous with
      endless | ⟨after, requests, received', inReception⟩
    · cases endless.symm.trans received
    · cases received'.symm.trans received
      exact inReception

/-- **The window stays in the buffer** at every state of every run whose headers
are read harmlessly. -/
theorem Control.windowInside_of_harmless {endpoint : Endpoint} (sound : endpoint.Sound)
    (fresh : endpoint.manager.m_recvList = []) {events : List Event} {final : Control}
    (meets : Endpoint.machine.Meets
      (fun control event => control.Permits event ∧ control.Harmless event) (.idle endpoint) events)
    (reached : Endpoint.machine.run (.idle endpoint) events = some final) :
    final.WindowInside := by
  have holds := Machine.state_invariant
    (fun control => control.Sound ∧ control.Armed ∧ control.InReception)
    (fun control event next allowed holds stepped => by
      obtain ⟨sound, armed, all⟩ := holds
      refine ⟨sound.step armed ?_ stepped, armed.step stepped,
        all.step sound armed allowed.1 allowed.2 stepped⟩
      cases event with
      | SendMsg message => exact allowed.1
      | _ => trivial)
    meets reached ⟨sound, trivial, by
      intro message member
      rw [show (Control.idle endpoint).endpoint.manager.m_recvList = [] from fresh] at member
      cases member⟩
  obtain ⟨-, armed, all⟩ := holds
  cases final with
  | waiting point after =>
      cases point with
      | recv =>
          obtain ⟨-, older, message, back, incomplete⟩ := armed
          have last : after.manager.m_recvList.getLast? = some message := by
            rw [back, List.getLast?_concat]
          obtain ⟨phase, reading⟩ :=
            (all message (List.mem_of_getLast? last)).reading_of_not_end incomplete
          exact ⟨message, last, reading.windowInside⟩
      | _ => trivial
  | _ => trivial

instance (control : Control) : DecidablePred control.Permits
  | .SendMsg message => inferInstanceAs (Decidable
      (∃ doublings ≤ 21, message.m_buffer.m_size = 512 * 2 ^ doublings))
  | .reply (.recv bytes) => inferInstanceAs (Decidable
      (∀ message ∈ control.endpoint.manager.m_recvList.getLast?,
        bytes.length ≤ message.getReadCap))
  | .reply (.select _) | .reply (.send _) | .reply .recvFailed => .isTrue trivial
  | .Connect _ _ _ | .ReConnect _ | .Close | .CloseConnection | .InitEncrypt | .LoadMsg
  | .Update _ => .isTrue trivial

instance (bytes : List UInt8) (message : NetMessage) : Decidable (message.HarmlessHeader bytes) :=
  inferInstanceAs (Decidable (_ → _))

instance (control : Control) : DecidablePred control.Harmless
  | .reply (.recv bytes) => inferInstanceAs (Decidable
      (∀ message ∈ control.endpoint.manager.m_recvList.getLast?, message.HarmlessHeader bytes))
  | .reply (.select _) | .reply (.send _) | .reply .recvFailed => .isTrue trivial
  | .Connect _ _ _ | .ReConnect _ | .Close | .CloseConnection | .SendMsg _ | .InitEncrypt
  | .LoadMsg | .Update _ => .isTrue trivial

theorem Control.windowInside_of_two_pieces :
    ∃ final, Endpoint.machine.run (.idle .justConnected)
        (receiving [[255, 255], [0, 1], [0, 0], [65]] .readable) = some final ∧
      final.WindowInside := by
  have runs : (Endpoint.machine.run (.idle .justConnected)
      (receiving [[255, 255], [0, 1], [0, 0], [65]] .readable)).isSome = true := by decide
  obtain ⟨final, reached⟩ := Option.isSome_iff_exists.mp runs
  exact ⟨final, reached, Control.windowInside_of_harmless Endpoint.justConnected_sound rfl
    (by decide) reached⟩

/-- A peer that announces the length `2 ^ 32 - 3`. -/
def hostilePieces : List (List UInt8) :=
  [[255, 255], [255, 255, 255, 253]] ++ List.replicate 127 [0, 0, 0, 0]

/-- The length is stored as `-3` and nothing checks it, so the receiver goes on
asking for four bytes until its window leaves the 512 bytes of the buffer. -/
theorem Control.not_windowInside_of_negative_length :
    ¬ ∀ (endpoint : Endpoint) (events : List Event) (final : Control),
      endpoint.Sound → endpoint.manager.m_recvList = [] →
        Endpoint.machine.Meets Control.Permits (.idle endpoint) events →
        Endpoint.machine.run (.idle endpoint) events = some final → final.WindowInside := by
  intro claimed
  have ran : ((Endpoint.machine.run (.idle .justConnected)
      (receiving hostilePieces .readable)).map fun control =>
        match control with
        | .waiting .recv endpoint => endpoint.manager.m_recvList.getLast?.map fun message =>
            (message.m_curPos, message.getReadCap, message.m_buffer.m_size)
        | _ => none) = some (some (512, 4, 512)) := by
    decide +kernel
  obtain ⟨final, reached, window⟩ := Option.map_eq_some_iff.mp ran
  have inside := claimed .justConnected _ final Endpoint.justConnected_sound rfl
    (by decide +kernel) reached
  cases final with
  | waiting point after =>
      cases point with
      | recv =>
          obtain ⟨message, last, -, -, within⟩ := inside
          simp only [last, Option.map_some, Option.some.injEq, Prod.mk.injEq] at window
          omega
      | _ => cases window
  | _ => cases window

end EngSocket
