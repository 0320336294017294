import EngSocket.Message.NetMessage
import EngSocket.Wire.Frame

/-!
# Messages being received

`Reading` says which phase of the frame reader a message under reception is in,
and `Complete` which item a complete one holds. A piece of the stream that does
not cross the end of the part being read moves the message as it moves the
reader (`EngSocket.Reading.receive`); a piece that crosses the end of a header
leaves the message `Lost`.
-/

namespace EngSocket

open Foundation

namespace Stage

/-- The bytes that stay in the buffer in front of the part. -/
def head : Stage → List UInt8
  | .body head => head
  | _ => []

/-- `m_size` while the part is read. -/
def sizeField : Stage → Int
  | .short => -1
  | .long => -2
  | .body head => bigEndian head

/-- `m_headSize` while the part is read. -/
def headSize : Stage → Int
  | .short => 2
  | .long => 4
  | .body head => head.length

end Stage

/-- The message is incomplete, and what it has received is the phase. -/
structure Reading (phase : Phase) (message : NetMessage) : Prop where
  sound : message.m_buffer.Sound
  start : message.m_bufStartPos = 0
  size : message.m_size = phase.stage.sizeField
  headSize : message.m_headSize = phase.stage.headSize
  cursor : message.m_curPos = phase.stage.head.length + phase.got.length
  bytes : message.m_buffer.m_buf.read 0 (phase.stage.head.length + phase.got.length) =
    phase.stage.head ++ phase.got
  room : (phase.stage.head.length + phase.stage.width : Nat) ≤ message.m_buffer.m_size
  incomplete : phase.got.length < phase.stage.width
  small : phase.stage.head.length ≤ 4

/-- The message is complete, and what it has received is the item. -/
structure Complete (item : Item) (message : NetMessage) : Prop where
  sound : message.m_buffer.Sound
  start : message.m_bufStartPos = 0
  size : message.m_size = item.payload.length
  headSize : message.m_headSize = item.head.length
  cursor : message.m_curPos = (item.head.length + item.payload.length : Nat)
  bytes : message.m_buffer.m_buf.read 0 (item.head.length + item.payload.length) =
    item.head ++ item.payload
  room : (item.head.length + item.payload.length : Nat) ≤ message.m_buffer.m_size
  small : item.head.length ≤ 4

/-- The message is what the reader makes of it. -/
inductive Decoded : Phase × List Item → NetMessage → Prop
  | reading {phase : Phase} {message : NetMessage} (reading : Reading phase message) :
      Decoded (phase, []) message
  | complete {item : Item} {message : NetMessage} (complete : Complete item message) :
      Decoded (frameDecoder.start, [item]) message

variable {phase : Phase} {item : Item} {message : NetMessage} {process : Process}

theorem Reading.isEnd_eq (reading : Reading phase message) : message.isEnd = false := by
  have bounds := reading.sound.size_bounds
  obtain ⟨-, start, size, headSize, cursor, -, room, incomplete, -⟩ := reading
  obtain ⟨stage, got⟩ := phase
  cases stage with
  | short => simp [NetMessage.isEnd, size, Stage.sizeField]
  | long => simp [NetMessage.isEnd, size, Stage.sizeField]
  | body head =>
      simp only [Stage.sizeField, Stage.headSize, Stage.head, Stage.width] at *
      have differ : ¬ message.m_curPos =
          int32 (message.m_size + message.m_headSize + message.m_bufStartPos) := by
        rw [int32_of_range (by omega) (by omega)]
        omega
      simp only [NetMessage.isEnd, differ, decide_false, ite_self]

theorem Complete.isEnd_eq (complete : Complete item message) : message.isEnd = true := by
  have bounds := complete.sound.size_bounds
  obtain ⟨-, start, size, headSize, cursor, -, room, -⟩ := complete
  have known : ¬ message.m_size < 0 := by omega
  have same : message.m_curPos =
      int32 (message.m_size + message.m_headSize + message.m_bufStartPos) := by
    rw [int32_of_range (by omega) (by omega)]
    omega
  simp only [NetMessage.isEnd, known, ↓reduceIte, same, decide_true]

/-- In a header the receiver asks for the whole header again; in a body it asks
for what is missing. -/
theorem Reading.getReadCap_eq (reading : Reading phase message) :
    message.getReadCap =
      match phase.stage with
      | .short => 2
      | .long => 4
      | .body _ => phase.stage.width - phase.got.length := by
  have bounds := reading.sound.size_bounds
  obtain ⟨-, -, size, headSize, cursor, -, room, incomplete, small⟩ := reading
  obtain ⟨stage, got⟩ := phase
  cases stage with
  | short => simp [NetMessage.getReadCap, size, Stage.sizeField]
  | long => simp [NetMessage.getReadCap, size, Stage.sizeField]
  | body head =>
      simp only [Stage.sizeField, Stage.headSize, Stage.head, Stage.width] at *
      have known : 0 ≤ message.m_size := by omega
      simp only [NetMessage.getReadCap, known, ↓reduceIte]
      rw [int32_of_range (by omega) (by omega)]
      omega

/-- A new message is at the start of a frame. -/
theorem Reading.new (generous : process.Generous) (sound : process.PoolSound) :
    Reading frameDecoder.start (NetMessage.new 512 process).1 := by
  have buffer := (NetMessage.new_sound generous sound).1
  have bounds := buffer.size_bounds
  exact
    { sound := buffer
      start := rfl
      size := rfl
      headSize := rfl
      cursor := rfl
      bytes := rfl
      room := by
        change ((0 + 2 : Nat) : Int) ≤ (NetMessage.new 512 process).1.m_buffer.m_size
        omega
      incomplete := by decide
      small := by decide }

/-! ## One piece -/

/-- The message after the kernel has stored a piece at its cursor. -/
def NetMessage.filled (message : NetMessage) (piece : List UInt8) : NetMessage :=
  { message with
    m_buffer := { message.m_buffer with
      m_buf := message.m_buffer.m_buf.write message.m_curPos piece } }

/-- A piece within the part being read fits in the buffer behind what was read. -/
theorem Reading.storeAtCursor_eq (reading : Reading phase message) (piece : List UInt8)
    (covered : phase.got.length + piece.length ≤ phase.stage.width) :
    message.storeAtCursor piece = .ok (message.filled piece) ∧
      (message.filled piece).m_buffer.m_buf.read 0
          (phase.stage.head.length + (phase.got.length + piece.length)) =
        phase.stage.head ++ (phase.got ++ piece) := by
  have cursor := reading.cursor
  have room := reading.room
  refine ⟨NetMessage.storeAtCursor_of_le piece (by omega) (by omega), ?_⟩
  have extended := Memory.read_write_extend message.m_buffer.m_buf 0
    (phase.stage.head.length + phase.got.length) piece
  rw [reading.bytes, Nat.cast_add, zero_add, ← cursor, Nat.add_assoc, List.append_assoc] at extended
  exact extended

/-- Entering a body: the buffer grows to hold it. -/
theorem enterBody_decoded {head : List UInt8} (message : NetMessage) (sound : message.m_buffer.Sound)
    (start : message.m_bufStartPos = 0) (size : message.m_size = bigEndian head)
    (headSize : message.m_headSize = head.length) (cursor : message.m_curPos = head.length)
    (bytes : message.m_buffer.m_buf.read 0 head.length = head) (small : head.length ≤ 4)
    (fits : head.length + bigEndian head ≤ 1073741824) (generous : process.Generous) :
    ∃ after requests,
      message.checkBufSize message.m_size process = .ok (after, { process with requests }) ∧
        Decoded (enterBody head) after ∧ after.address = message.address ∧
          after.m_buffer.address = message.m_buffer.address := by
  have bounds := sound.size_bounds
  have demand : int32 (message.m_curPos + message.m_size) = head.length + bigEndian head := by
    rw [int32_of_range (by omega) (by omega), cursor, size]
  obtain ⟨grown, requests, result, grownSound, extension, covers⟩ :=
    NetMessage.checkBufSize_of_le sound generous (by rw [demand]; omega)
  rw [demand] at covers
  have kept : grown.m_buf.read 0 head.length = head := by
    rw [extension.read_eq (by omega), bytes]
  refine ⟨_, requests, result, ?_, rfl, extension.address⟩
  by_cases empty : bigEndian head = 0
  · simp only [enterBody, empty, ↓reduceIte]
    refine .complete ⟨grownSound, start, ?_, headSize, ?_, ?_, ?_, small⟩
    · simp only [size, empty, List.length_nil]
    · simp only [cursor, List.length_nil, Nat.add_zero]
    · simpa only [List.length_nil, Nat.add_zero, List.append_nil] using kept
    · simp only [List.length_nil]
      omega
  · simp only [enterBody, empty, ↓reduceIte]
    refine .reading ⟨grownSound, start, size, headSize, ?_, ?_, ?_, ?_, small⟩
    · simp only [cursor, Stage.head, List.length_nil, Nat.cast_zero, add_zero]
    · simpa only [Stage.head, List.length_nil, Nat.add_zero, List.append_nil] using kept
    · simp only [Stage.head, Stage.width, Nat.cast_add]
      exact covers
    · simp only [List.length_nil, Stage.width]
      omega

/-- The message after `onReceive` has moved the cursor. -/
def NetMessage.advanced (message : NetMessage) (piece : List UInt8) : NetMessage :=
  { message.filled piece with m_curPos := message.m_curPos + piece.length }

/-- `onReceive` moves the cursor, and only then looks at a header. -/
theorem NetMessage.onReceive_filled {piece : List UInt8}
    (range : -2147483648 ≤ message.m_curPos + piece.length)
    (range' : message.m_curPos + piece.length < 2147483648) :
    (message.filled piece).onReceive piece.length process =
      (let message := message.advanced piece
       if 0 ≤ message.m_size then .ok (message, process)
       else if message.m_size = -1 ∧ message.m_curPos = message.m_headSize then
         if message.shortHeader = 0xFFFF then
           .ok ({ message with m_curPos := 0, m_size := -2, m_headSize := 4 }, process)
         else
           { message with
             m_size := message.shortHeader.toNat, m_headSize := 2, m_curPos := 2,
             m_bufStartPos := 0 }.checkBufSize message.shortHeader.toNat process
       else if message.m_size = -2 ∧ message.m_curPos = message.m_headSize then
         { message with
           m_size := int32 message.longHeader.toNat, m_curPos := message.m_headSize,
           m_bufStartPos := 0 }.checkBufSize (int32 message.longHeader.toNat) process
       else .ok (message, process)) := by
  unfold onReceive
  simp only [filled, advanced, int32_of_range range range']
  rfl

/-- A piece that does not complete the part being read is added to it. -/
theorem Reading.receive_of_lt (reading : Reading phase message) (process : Process)
    {piece : List UInt8}
    (below : phase.got.length + piece.length < phase.stage.width) :
    (message.filled piece).onReceive piece.length process = .ok (message.advanced piece, process) ∧
      Reading { phase with got := phase.got ++ piece } (message.advanced piece) := by
  have bounds := reading.sound.size_bounds
  have bytes := (reading.storeAtCursor_eq piece below.le).2
  obtain ⟨sound, start, size, headSize, cursor, -, room, incomplete, small⟩ := reading
  obtain ⟨stage, got⟩ := phase
  simp only at *
  constructor
  · rw [NetMessage.onReceive_filled (by omega) (by omega)]
    have size' : (message.advanced piece).m_size = message.m_size := rfl
    have headSize' : (message.advanced piece).m_headSize = message.m_headSize := rfl
    have cursor' : (message.advanced piece).m_curPos = message.m_curPos + piece.length := rfl
    -- In a header the cursor is not at the head size yet; in a body nothing is looked at.
    cases stage with
    | short =>
        simp only [Stage.sizeField, Stage.headSize, Stage.head, Stage.width, List.length_nil] at *
        rw [size', headSize', cursor', if_neg (by omega), if_neg (by omega), if_neg (by omega)]
    | long =>
        simp only [Stage.sizeField, Stage.headSize, Stage.head, Stage.width, List.length_nil] at *
        rw [size', headSize', cursor', if_neg (by omega), if_neg (by omega), if_neg (by omega)]
    | body head =>
        simp only [Stage.sizeField, Stage.headSize, Stage.head, Stage.width] at *
        rw [size', if_pos (by omega)]
  · refine ⟨sound, start, size, headSize, ?_, ?_, room, ?_, small⟩
    · simp only [NetMessage.advanced, List.length_append]
      omega
    · simp only [List.length_append]
      exact bytes
    · simp only [List.length_append]
      exact below

/-- A piece that completes the part being read finishes it, if the buffer has
room for the body that is announced. -/
theorem Reading.receive_of_eq (reading : Reading phase message) {piece : List UInt8}
    (full : phase.got.length + piece.length = phase.stage.width) (generous : process.Generous)
    (bounded : (phase.stage.finish (phase.got ++ piece)).1.Bounded) :
    ∃ after requests,
      (message.filled piece).onReceive piece.length process =
          .ok (after, { process with requests }) ∧
        Decoded (phase.stage.finish (phase.got ++ piece)) after ∧
          after.address = message.address ∧ after.m_buffer.address = message.m_buffer.address := by
  have bounds := reading.sound.size_bounds
  have bytes := (reading.storeAtCursor_eq piece full.le).2
  obtain ⟨sound, start, size, headSize, cursor, -, room, incomplete, small⟩ := reading
  obtain ⟨stage, got⟩ := phase
  simp only at *
  rw [NetMessage.onReceive_filled (by omega) (by omega)]
  have size' : (message.advanced piece).m_size = message.m_size := rfl
  have headSize' : (message.advanced piece).m_headSize = message.m_headSize := rfl
  have cursor' : (message.advanced piece).m_curPos = message.m_curPos + piece.length := rfl
  have sound' : (message.advanced piece).m_buffer.Sound := sound
  cases stage with
  | short =>
      simp only [Stage.sizeField, Stage.headSize, Stage.head, Stage.width, List.length_nil,
        Nat.zero_add, List.nil_append] at *
      have value : (message.advanced piece).shortHeader.toNat = bigEndian (got ++ piece) := by
        rw [NetMessage.shortHeader_toNat, ← bytes, full]
        rfl
      have below := (message.advanced piece).shortHeader.toNat_lt
      rw [size', headSize', cursor', if_neg (by omega), if_pos (by omega)]
      by_cases marker : (message.advanced piece).shortHeader = 0xFFFF
      · have marked : bigEndian (got ++ piece) = 0xFFFF := by
          rw [← value, marker]
          rfl
        rw [if_pos marker, Stage.finish, if_pos marked]
        refine ⟨_, process.requests, rfl, .reading ?_, rfl, rfl⟩
        exact ⟨sound', start, rfl, rfl, rfl, rfl, (by decide : (0 + 4 : Nat) ≤ (512 : Int)).trans bounds.1,
          by decide, by decide⟩
      · have unmarked : bigEndian (got ++ piece) ≠ 0xFFFF := fun marked =>
          marker (UInt16.toNat_inj.mp (by rw [value, marked]; rfl))
        rw [if_neg marker, Stage.finish, if_neg unmarked]
        have two : (got ++ piece).length = 2 := by rw [List.length_append, full]
        exact enterBody_decoded { message.advanced piece with
            m_size := (message.advanced piece).shortHeader.toNat, m_headSize := 2, m_curPos := 2,
            m_bufStartPos := 0 } sound' rfl (by rw [value]) (by rw [two]; rfl) (by rw [two]; rfl)
          (by rw [two, ← full]; exact bytes) (by omega) (by omega) generous
  | long =>
      simp only [Stage.sizeField, Stage.headSize, Stage.head, Stage.width, List.length_nil,
        Nat.zero_add, List.nil_append] at *
      have value : (message.advanced piece).longHeader.toNat = bigEndian (got ++ piece) := by
        rw [NetMessage.longHeader_toNat, ← bytes, full]
        rfl
      have four : (got ++ piece).length = 4 := by rw [List.length_append, full]
      have fits : (got ++ piece).length + bigEndian (got ++ piece) ≤ 1073741824 := by
        by_cases empty : bigEndian (got ++ piece) = 0
        · rw [four, empty]
          decide
        · rw [Stage.finish, enterBody, if_neg empty, Phase.bounded_body] at bounded
          exact bounded.2
      have stored : int32 (message.advanced piece).longHeader.toNat =
          (bigEndian (got ++ piece) : Int) := by
        rw [int32_of_range (by omega) (by omega), value]
      rw [size', headSize', cursor', if_neg (by omega), if_neg (by omega), if_pos (by omega),
        Stage.finish]
      exact enterBody_decoded { message.advanced piece with
          m_size := int32 (message.advanced piece).longHeader.toNat, m_curPos := message.m_headSize,
          m_bufStartPos := 0 } sound' rfl stored (by rw [four]; exact headSize)
        (by rw [four]; exact headSize) (by rw [four, ← full]; exact bytes) four.le fits generous
  | body head =>
      simp only [Stage.sizeField, Stage.headSize, Stage.head, Stage.width] at *
      rw [size', if_pos (by omega)]
      have length : (got ++ piece).length = bigEndian head := by rw [List.length_append, full]
      refine ⟨_, process.requests, rfl, .complete ⟨sound', start, ?_, headSize, ?_, ?_, ?_, small⟩,
        rfl, rfl⟩
      · simp only [length]
        exact size
      · simp only [length]
        omega
      · simp only [List.length_append]
        exact bytes
      · simp only [length]
        exact room

/-- **Reception refines reading.** A nonempty piece that stays within the part
being read does to the message what its bytes do to the frame reader. -/
theorem Reading.receive (reading : Reading phase message) {piece : List UInt8}
    (nonempty : piece ≠ []) (covered : phase.got.length + piece.length ≤ phase.stage.width)
    (generous : process.Generous) (bounded : (frameDecoder.feed phase piece).1.Bounded) :
    ∃ after requests,
      (message.filled piece).onReceive piece.length process =
          .ok (after, { process with requests }) ∧
        Decoded (frameDecoder.feed phase piece) after ∧
          after.address = message.address ∧ after.m_buffer.address = message.m_buffer.address := by
  obtain ⟨stage, got⟩ := phase
  rcases Nat.lt_or_eq_of_le covered with below | full
  · have received := reading.receive_of_lt process below
    rw [feed_of_lt stage got piece below]
    exact ⟨_, process.requests, received.1, .reading received.2, rfl, rfl⟩
  · rw [feed_of_eq stage got piece nonempty full] at bounded ⊢
    exact reading.receive_of_eq full generous bounded

/-- A length that a buffer has no room for is never answered: the buffer is
doubled for ever. Beyond `2 ^ 31 - 4` the sum with the cursor overflows. -/
theorem Reading.receive_endless {got piece : List UInt8}
    (reading : Reading { stage := .long, got } message) (full : got.length + piece.length = 4)
    (beyond : 1073741824 < 4 + bigEndian (got ++ piece))
    (below : bigEndian (got ++ piece) < 2147483644) (process : Process) :
    (message.filled piece).onReceive piece.length process = .error .endless := by
  have bounds := reading.sound.size_bounds
  have bytes := (reading.storeAtCursor_eq piece full.le).2
  obtain ⟨sound, start, size, headSize, cursor, -, room, incomplete, small⟩ := reading
  simp only [Stage.sizeField, Stage.headSize, Stage.head, Stage.width, List.length_nil,
    Nat.zero_add, List.nil_append] at *
  rw [NetMessage.onReceive_filled (by omega) (by omega)]
  simp only
  have value : (message.advanced piece).longHeader.toNat = bigEndian (got ++ piece) := by
    rw [NetMessage.longHeader_toNat, ← bytes, full]
    rfl
  have stored : int32 (message.advanced piece).longHeader.toNat =
      (bigEndian (got ++ piece) : Int) := by
    rw [int32_of_range (by omega) (by omega), value]
  have size' : (message.advanced piece).m_size = message.m_size := rfl
  have headSize' : (message.advanced piece).m_headSize = message.m_headSize := rfl
  have cursor' : (message.advanced piece).m_curPos = message.m_curPos + piece.length := rfl
  have sound' : (message.advanced piece).m_buffer.Sound := sound
  rw [size', headSize', cursor', if_neg (by omega), if_neg (by omega), if_pos (by omega), stored]
  refine NetMessage.checkBufSize_of_gt ?_ ?_ process
  · exact sound'
  · simp only [headSize]
    rw [int32_of_range (by omega) (by omega)]
    omega

/-- The window of a `Recv` lies in the buffer. -/
def NetMessage.WindowInside (message : NetMessage) : Prop :=
  0 ≤ message.m_curPos ∧ 0 ≤ message.getReadCap ∧
    message.m_curPos + message.getReadCap ≤ message.m_buffer.m_size

theorem Reading.windowInside (reading : Reading phase message) : message.WindowInside := by
  have bounds := reading.sound.size_bounds
  have asked := reading.getReadCap_eq
  obtain ⟨-, -, -, -, cursor, -, room, incomplete, -⟩ := reading
  obtain ⟨stage, got⟩ := phase
  unfold NetMessage.WindowInside
  cases stage with
  | short =>
      simp only [Stage.head, Stage.width, List.length_nil] at *
      omega
  | long =>
      simp only [Stage.head, Stage.width, List.length_nil] at *
      omega
  | body head =>
      simp only [Stage.head, Stage.width] at *
      omega

/-! ## Pieces that go too far -/

/-- A header was overshot. The cursor is past the head size, and as the two are
compared for equality the header is never looked at again. -/
structure Lost (message : NetMessage) : Prop where
  sound : message.m_buffer.Sound
  header : message.m_size = -1 ∧ message.m_headSize = 2 ∨
    message.m_size = -2 ∧ message.m_headSize = 4
  passed : message.m_headSize < message.m_curPos

theorem Lost.isEnd_eq (lost : Lost message) : message.isEnd = false := by
  have negative : message.m_size < 0 := by
    rcases lost.header with ⟨size, -⟩ | ⟨size, -⟩ <;> omega
  simp only [NetMessage.isEnd, negative, ↓reduceIte]

/-- A piece that takes the cursor past the head size loses the message. -/
theorem Lost.of_passed (process : Process) {piece : List UInt8} {stored : NetMessage}
    (sound : message.m_buffer.Sound)
    (header : message.m_size = -1 ∧ message.m_headSize = 2 ∨
      message.m_size = -2 ∧ message.m_headSize = 4)
    (passed : message.m_headSize < message.m_curPos + piece.length)
    (done : message.storeAtCursor piece = .ok stored) :
    stored.onReceive piece.length process = .ok (message.advanced piece, process) ∧
      Lost (message.advanced piece) := by
  have bounds := sound.size_bounds
  obtain ⟨⟨low, within⟩, rfl⟩ := NetMessage.storeAtCursor_ok done
  have size' : (message.advanced piece).m_size = message.m_size := rfl
  have headSize' : (message.advanced piece).m_headSize = message.m_headSize := rfl
  have cursor' : (message.advanced piece).m_curPos = message.m_curPos + piece.length := rfl
  refine ⟨?_, sound, header, passed⟩
  change (message.filled piece).onReceive piece.length process = _
  rw [NetMessage.onReceive_filled (by omega) (by omega)]
  simp only
  rw [size', headSize', cursor', if_neg (by omega), if_neg (by omega), if_neg (by omega)]

/-- Once lost, a message stays lost whatever it receives. -/
theorem Lost.receive (lost : Lost message) (process : Process) {piece : List UInt8}
    {stored : NetMessage}
    (done : message.storeAtCursor piece = .ok stored) :
    stored.onReceive piece.length process = .ok (message.advanced piece, process) ∧
      Lost (message.advanced piece) :=
  Lost.of_passed process lost.sound lost.header (by have := lost.passed; omega) done

/-- A piece that goes on beyond the header it begins in loses the message. -/
theorem Reading.lost (reading : Reading phase message) (process : Process) {piece : List UInt8}
    (crosses : ¬ phase.Covers piece) {stored : NetMessage}
    (done : message.storeAtCursor piece = .ok stored) :
    stored.onReceive piece.length process = .ok (message.advanced piece, process) ∧
      Lost (message.advanced piece) := by
  obtain ⟨sound, -, size, headSize, cursor, -, -, -, -⟩ := reading
  obtain ⟨stage, got⟩ := phase
  cases stage with
  | short =>
      simp only [Phase.Covers, Stage.width, Stage.sizeField, Stage.headSize, Stage.head,
        List.length_nil] at *
      exact Lost.of_passed process sound (Or.inl ⟨size, headSize⟩) (by omega) done
  | long =>
      simp only [Phase.Covers, Stage.width, Stage.sizeField, Stage.headSize, Stage.head,
        List.length_nil] at *
      exact Lost.of_passed process sound (Or.inr ⟨size, headSize⟩) (by omega) done
  | body head => exact absurd trivial crosses

/-! ## What the script sees -/

/-- The message is complete, and a reader of its payload reads the given bytes. -/
def NetMessage.Carries (payload : List UInt8) (message : NetMessage) : Prop :=
  message.isEnd = true ∧ message.getSize = payload.length ∧
    (message.ResetForRead.rRaw message.getSize).1 = payload

theorem Complete.carries (complete : Complete item message) : message.Carries item.payload := by
  have bounds := complete.sound.size_bounds
  refine ⟨complete.isEnd_eq, complete.size, ?_⟩
  obtain ⟨-, start, size, headSize, -, bytes, room, -⟩ := complete
  have cursor : message.ResetForRead.m_curPos = 0 + (item.head.length : Nat) := by
    simp only [NetMessage.ResetForRead, start, headSize]
    rw [int32_of_range (by omega) (by omega)]
  rw [Memory.read_add] at bytes
  have payload := (List.append_inj bytes (Memory.length_read _ _ _)).2
  unfold NetMessage.rRaw NetMessage.getSize
  by_cases empty : item.payload = []
  · rw [size, empty]
    rfl
  · have positive : 0 < item.payload.length := List.length_pos_iff.mpr empty
    rw [if_neg (by omega), cursor, size, Int.toNat_natCast]
    exact payload

end EngSocket
