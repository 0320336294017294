import EngSocket.Message.NetMessage
import EngSocket.Wire.Frame

/-!
# Writing messages

A script writes a payload behind the six bytes that `beginForWrite` reserves, and
`endForWrite` puts the header in front of it: two bytes at offset 4, or six at
offset 0. Either way the bytes from `m_bufStartPos` on are those of the frame
(`EngSocket.NetMessage.write_eq`).
-/

namespace EngSocket

open Foundation

/-- The frame in which a payload is sent. -/
def Frame.of (payload : List UInt8) : Frame :=
  if payload.length < 0xFFFF then .short payload else .long payload

@[simp] theorem Frame.payload_of (payload : List UInt8) : (Frame.of payload).payload = payload := by
  unfold Frame.of
  split <;> rfl

/-- A payload of at most `2 ^ 30 - 6` bytes fits into a frame. -/
theorem Frame.valid_of {payload : List UInt8} (bounded : payload.length ≤ 1073741824 - 6) :
    (Frame.of payload).Valid := by
  unfold Frame.of
  split
  · assumption
  · exact bounded.trans (by decide)

namespace NetMessage

/-- The header and payload of a message as they go out. -/
def wire (message : NetMessage) : List UInt8 :=
  message.m_buffer.m_buf.read message.m_bufStartPos (message.m_headSize + message.m_size).toNat

/-- One `wRaw` after the other. -/
def wRawAll : List (List UInt8) → NetMessage → Process → Except Abort (NetMessage × Process)
  | [], message, process => .ok (message, process)
  | part :: parts, message, process => do
      let (message, process) ← message.wRaw part process
      wRawAll parts message process

/-- `beginForWrite`, any number of `wRaw` and `endForWrite`. -/
def write (parts : List (List UInt8)) (message : NetMessage) (process : Process) :
    Except Abort (NetMessage × Process) := do
  let (message, process) ← wRawAll parts message.beginForWrite process
  message.endForWrite process

variable {message : NetMessage} {process : Process}

/-- The message after some bytes were put at its cursor. -/
def put (message : NetMessage) (bytes : List UInt8) : NetMessage :=
  { message with
    m_curPos := message.m_curPos + bytes.length
    m_buffer := { message.m_buffer with
      m_buf := message.m_buffer.m_buf.write message.m_curPos bytes } }

/-- What is put in two parts is put in one. -/
theorem put_put (message : NetMessage) (first second : List UInt8) :
    (message.put first).put second = message.put (first ++ second) := by
  simp only [put, Memory.write_write, List.length_append, Nat.cast_add, add_assoc]

/-- One byte is put where there is room. -/
theorem setBufValue_eq {value : UInt8} (low : 0 ≤ message.m_curPos)
    (within : message.m_curPos + 1 ≤ message.m_buffer.m_size)
    (ranged : message.m_buffer.Ranged) :
    message.setBufValue value = .ok (message.put [value]) := by
  unfold MemBuffer.Ranged at ranged
  unfold setBufValue
  rw [storeAtCursor_of_le _ low (by simpa only [List.length_singleton, Nat.cast_one] using within)]
  simp only [bind, Except.bind, pure, Except.pure, put, List.length_singleton, Nat.cast_one]
  rw [int32_of_range (by omega) (by omega)]

/-- One `setBufValue` for each byte. -/
def setBufValues : List UInt8 → NetMessage → Except Abort NetMessage
  | [], message => .ok message
  | value :: values, message => do
      let message ← message.setBufValue value
      setBufValues values message

/-- Bytes are put one by one where there is room. -/
theorem setBufValues_eq {bytes : List UInt8} (low : 0 ≤ message.m_curPos)
    (within : message.m_curPos + bytes.length ≤ message.m_buffer.m_size)
    (ranged : message.m_buffer.Ranged) : message.setBufValues bytes = .ok (message.put bytes) := by
  induction bytes generalizing message with
  | nil =>
      have nothing : message.put [] = message := by
        unfold put
        rw [List.length_nil, Nat.cast_zero, add_zero, Memory.write_nil]
      rw [nothing, setBufValues]
  | cons value bytes ih =>
      rw [List.length_cons] at within
      have behind : message.m_curPos + 1 + (bytes.length : Int) ≤ message.m_buffer.m_size := by
        push_cast at within
        omega
      rw [setBufValues, setBufValue_eq low (by omega) ranged]
      change (message.put [value]).setBufValues bytes = _
      rw [@ih (message.put [value]) (by change 0 ≤ message.m_curPos + 1; omega) behind ranged,
        put_put, List.singleton_append]

/-- What the writers of numbers have in common: they make room, and put one byte
after the other. -/
def wBytes (bytes : List UInt8) (message : NetMessage) (process : Process) :
    Except Abort (NetMessage × Process) := do
  let (message, process) ← message.checkBufSize bytes.length process
  let message ← message.setBufValues bytes
  return (message, process)

/-- `wUShort` writes two bytes, the high one first. -/
theorem wUShort_eq_wBytes (v : UInt16) (message : NetMessage) (process : Process) :
    message.wUShort v process = message.wBytes (bigEndianBytes 2 v.toNat) process := by
  have bytes : bigEndianBytes 2 v.toNat = [(v >>> 8).toUInt8, v.toUInt8] := by
    simp only [bigEndianBytes, List.nil_append, List.singleton_append, List.cons.injEq, and_true,
      ← UInt8.toNat_inj]
    constructor
    · simp [Nat.shiftRight_eq_div_pow]
    · simp
  rw [bytes]
  simp only [wUShort, wBytes, setBufValues, bind_assoc, List.length_cons, List.length_nil]
  rfl

/-- `wUInt` writes four bytes, the highest one first. -/
theorem wUInt_eq_wBytes (v : UInt32) (message : NetMessage) (process : Process) :
    message.wUInt v process = message.wBytes (bigEndianBytes 4 v.toNat) process := by
  have bytes : bigEndianBytes 4 v.toNat =
      [(v >>> 24).toUInt8, (v >>> 16).toUInt8, (v >>> 8).toUInt8, v.toUInt8] := by
    simp only [bigEndianBytes, List.nil_append, List.cons_append, List.cons.injEq, and_true,
      ← UInt8.toNat_inj]
    refine ⟨?_, ?_, ?_, ?_⟩ <;> simp [Nat.shiftRight_eq_div_pow, Nat.div_div_eq_div_mul]
  rw [bytes]
  simp only [wUInt, wBytes, setBufValues, bind_assoc, List.length_cons, List.length_nil]
  rfl

/-- Within the capacity nothing grows. -/
theorem wBytes_eq {bytes : List UInt8} (low : 0 ≤ message.m_curPos)
    (within : message.m_curPos + bytes.length ≤ message.m_buffer.m_size)
    (ranged : message.m_buffer.Ranged) :
    message.wBytes bytes process = .ok (message.put bytes, process) := by
  have bounds := ranged
  unfold MemBuffer.Ranged at bounds
  unfold wBytes
  rw [checkBufSize_of_enough (by rw [int32_of_range (by omega) (by omega)]; exact within)]
  simp only [bind, Except.bind]
  rw [setBufValues_eq low within ranged]
  rfl

/-- Where there is room, `wUShort` does not grow the buffer. -/
theorem wUShort_eq {v : UInt16} (low : 0 ≤ message.m_curPos)
    (within : message.m_curPos + 2 ≤ message.m_buffer.m_size) (ranged : message.m_buffer.Ranged) :
    message.wUShort v process = .ok (message.put (bigEndianBytes 2 v.toNat), process) := by
  rw [wUShort_eq_wBytes, wBytes_eq low (by rw [length_bigEndianBytes]; exact within) ranged]

/-- Where there is room, `wUInt` does not grow the buffer. -/
theorem wUInt_eq {v : UInt32} (low : 0 ≤ message.m_curPos)
    (within : message.m_curPos + 4 ≤ message.m_buffer.m_size) (ranged : message.m_buffer.Ranged) :
    message.wUInt v process = .ok (message.put (bigEndianBytes 4 v.toNat), process) := by
  rw [wUInt_eq_wBytes, wBytes_eq low (by rw [length_bigEndianBytes]; exact within) ranged]

/-! ## Drafts -/

/-- The writer puts some bytes at the cursor, and enlarges the buffer before if it
has to. -/
def Appends (part : List UInt8)
    (writer : NetMessage → Process → Except Abort (NetMessage × Process)) : Prop :=
  ∀ (message : NetMessage) (process : Process), message.m_buffer.Roomy → process.Generous →
    0 ≤ message.m_curPos → message.m_curPos + part.length ≤ 1073741824 →
      ∃ grown requests,
        writer message process =
            .ok ({ message with m_buffer := grown }.put part, { process with requests }) ∧
          grown.Roomy ∧ message.m_buffer.Grown grown ∧
            message.m_curPos + part.length ≤ grown.m_size

/-- Writing byte by byte appends, once the buffer has grown. -/
theorem wBytes_appends (bytes : List UInt8) : Appends bytes (wBytes bytes) := by
  intro message process roomy generous low bounded
  obtain ⟨grown, requests, checked, grownRoomy, extension, covers⟩ :=
    checkBufSize_of_roomy roomy generous low (Nat.cast_nonneg bytes.length) bounded
  have placed : setBufValues bytes { message with m_buffer := grown } =
      .ok ({ message with m_buffer := grown }.put bytes) :=
    setBufValues_eq low covers grownRoomy.ranged
  refine ⟨grown, requests, ?_, grownRoomy, extension, covers⟩
  unfold wBytes
  rw [checked]
  simp only [bind, Except.bind]
  rw [placed]
  rfl

/-- `wRaw` appends, once the buffer has grown. -/
theorem wRaw_appends (buf : List UInt8) : Appends buf (wRaw buf) := by
  intro message process roomy generous low bounded
  obtain ⟨grown, requests, checked, grownRoomy, extension, covers⟩ :=
    checkBufSize_of_roomy roomy generous low (Nat.cast_nonneg buf.length) bounded
  have copied : copyAtCursor buf { message with m_buffer := grown } = .ok
      { message with m_buffer := { grown with m_buf := grown.m_buf.write message.m_curPos buf } } :=
    copyAtCursor_of_le buf low covers
  refine ⟨grown, requests, ?_, grownRoomy, extension, covers⟩
  unfold wRaw
  rw [checked]
  simp only [bind, Except.bind]
  rw [copied]
  simp only [pure, Except.pure]
  rw [int32_of_range (by omega) (by omega)]
  rfl

/-- A message in which a payload has been written so far, behind the six bytes
that are kept free. -/
structure Drafted (payload : List UInt8) (message : NetMessage) : Prop where
  roomy : message.m_buffer.Roomy
  cursor : message.m_curPos = 6 + payload.length
  bytes : message.m_buffer.m_buf.read 6 payload.length = payload
  room : 6 + payload.length ≤ message.m_buffer.m_size

/-- `beginForWrite` begins with an empty payload, behind the six free bytes. -/
theorem Drafted.beginForWrite (roomy : message.m_buffer.Roomy) :
    Drafted [] message.beginForWrite where
  roomy := roomy
  cursor := rfl
  bytes := rfl
  room := by
    have least := roomy.least
    change 6 + (0 : Int) ≤ message.m_buffer.m_size
    omega

/-- One more writer. -/
theorem Drafted.append {payload part : List UInt8}
    {writer : NetMessage → Process → Except Abort (NetMessage × Process)}
    (drafted : Drafted payload message) (appends : Appends part writer)
    (bounded : 6 + (payload ++ part).length ≤ 1073741824) (generous : process.Generous) :
    ∃ after requests, writer message process = .ok (after, { process with requests }) ∧
      Drafted (payload ++ part) after := by
  obtain ⟨roomy, cursor, bytes, room⟩ := drafted
  rw [List.length_append] at bounded
  obtain ⟨grown, requests, written, grownRoomy, extension, covers⟩ :=
    appends message process roomy generous (by omega) (by omega)
  have kept : grown.m_buf.read 6 payload.length = payload := by
    rw [extension.read_eq room, bytes]
  refine ⟨_, requests, written, ⟨grownRoomy.least, grownRoomy.ranged⟩, ?_, ?_, ?_⟩
  · change message.m_curPos + part.length = _
    rw [List.length_append]
    omega
  · have extended := Memory.read_write_extend grown.m_buf 6 payload.length part
    rw [kept, ← cursor, ← List.length_append] at extended
    exact extended
  · change _ ≤ grown.m_size
    rw [List.length_append]
    omega

/-- One writer after the other. -/
def writeAll {Part : Type} (writer : Part → NetMessage → Process →
    Except Abort (NetMessage × Process)) :
    List Part → NetMessage → Process → Except Abort (NetMessage × Process)
  | [], message, process => .ok (message, process)
  | part :: parts, message, process => do
      let (message, process) ← writer part message process
      writeAll writer parts message process

theorem wRawAll_eq (parts : List (List UInt8)) (message : NetMessage) (process : Process) :
    wRawAll parts message process = writeAll wRaw parts message process := by
  induction parts generalizing message process with
  | nil => rfl
  | cons part parts ih => simp only [wRawAll, writeAll, ih]

/-- **Any number of writers.** The induction carries what was written so far. -/
theorem Drafted.writeAll {Part : Type} {bytes : Part → List UInt8}
    {writer : Part → NetMessage → Process → Except Abort (NetMessage × Process)}
    (appends : ∀ part, Appends (bytes part) (writer part)) {payload : List UInt8}
    (drafted : Drafted payload message) (parts : List Part)
    (bounded : 6 + (payload ++ parts.flatMap bytes).length ≤ 1073741824)
    (generous : process.Generous) :
    ∃ after requests,
      NetMessage.writeAll writer parts message process = .ok (after, { process with requests }) ∧
        Drafted (payload ++ parts.flatMap bytes) after := by
  induction parts generalizing payload message process with
  | nil => exact ⟨message, process.requests, rfl, by rwa [List.flatMap_nil, List.append_nil]⟩
  | cons part parts ih =>
      rw [List.flatMap_cons, ← List.append_assoc] at bounded ⊢
      obtain ⟨next, requests, written, drafted⟩ := drafted.append (appends part)
        (by rw [List.length_append] at bounded; omega) generous
      obtain ⟨after, requests', rest, drafted⟩ :=
        @ih next { process with requests } (payload ++ bytes part) drafted bounded generous
      refine ⟨after, requests', ?_, drafted⟩
      simp only [NetMessage.writeAll, written, bind, Except.bind]
      exact rest

/-! ## Finished messages -/

/-- A message that holds the frame of a payload and has its cursor in front of it. -/
structure Finished (payload : List UInt8) (message : NetMessage) : Prop where
  roomy : message.m_buffer.Roomy
  size : message.m_size = payload.length
  start : 0 ≤ message.m_bufStartPos
  headSize : 0 ≤ message.m_headSize
  cursor : message.m_curPos = message.m_bufStartPos
  room : message.m_bufStartPos + (message.m_headSize + message.m_size) ≤ message.m_buffer.m_size
  wire : message.wire = (Frame.of payload).bytes

/-- The header is as long as `m_headSize` says. -/
theorem Finished.headSize_eq {payload : List UInt8} (finished : Finished payload message) :
    message.m_headSize = ((Frame.of payload).marker ++ (Frame.of payload).item.head).length := by
  have lengths := congrArg List.length finished.wire
  have size := finished.size
  have headSize := finished.headSize
  rw [NetMessage.wire, Memory.length_read, Frame.bytes, Frame.payload_of, ← List.append_assoc,
    List.length_append] at lengths
  omega

/-- **`endForWrite`** puts the header of its length in front of the payload. -/
theorem Drafted.endForWrite {payload : List UInt8} (drafted : Drafted payload message)
    (process : Process) :
    ∃ after, message.endForWrite process = .ok (after, process) ∧ Finished payload after := by
  have ranged := drafted.roomy.ranged
  have bounds := ranged
  unfold MemBuffer.Ranged at bounds
  obtain ⟨roomy, cursor, bytes, room⟩ := drafted
  have structLen : int32 (message.m_curPos - 6) = payload.length := by
    rw [int32_of_range (by omega) (by omega)]
    omega
  unfold NetMessage.endForWrite
  simp only [structLen]
  by_cases extended : (0xFFFF : Int) ≤ payload.length
  · -- Six bytes from offset 0: the marker and the length in four.
    have value : (UInt32.ofInt (payload.length : Int)).toNat = payload.length := by
      simp only [UInt32.ofInt, UInt32.toNat_ofNat']
      omega
    have long : (Frame.of payload).bytes =
        bigEndianBytes 2 (0xFFFF : UInt16).toNat ++ bigEndianBytes 4 payload.length ++ payload := by
      rw [Frame.of, if_neg (by omega), List.append_assoc]
      rfl
    rw [if_pos extended]
    simp only [bind, Except.bind]
    rw [wUShort_eq (by simp only; omega) (by simp only; omega) (by exact ranged)]
    simp only
    rw [wUInt_eq (by simp only [put, length_bigEndianBytes]; omega)
      (by simp only [put, length_bigEndianBytes]; omega) (by exact ranged), put_put]
    simp only [put, value]
    have head : (0 : Int) ≤ 6 := by decide
    refine ⟨_, rfl, ⟨roomy.least, roomy.ranged⟩, rfl, le_rfl, head, rfl, ?_, ?_⟩
    · change (0 : Int) + (6 + payload.length) ≤ message.m_buffer.m_size
      omega
    · have front := Memory.read_write_front message.m_buffer.m_buf 0
        (bigEndianBytes 2 (0xFFFF : UInt16).toNat ++ bigEndianBytes 4 payload.length) payload.length
      rw [List.length_append, length_bigEndianBytes, length_bigEndianBytes] at front
      have whole : ((6 : Int) + payload.length).toNat = 2 + 4 + payload.length := by omega
      rw [long, wire, whole, front]
      exact congrArg _ bytes
  · -- Two bytes from offset 4: the length.
    have value : (UInt16.ofInt (payload.length : Int)).toNat = payload.length := by
      simp only [UInt16.ofInt, UInt16.toNat_ofNat']
      omega
    have short : (Frame.of payload).bytes = bigEndianBytes 2 payload.length ++ payload := by
      rw [Frame.of, if_pos (by omega)]
      rfl
    rw [if_neg extended]
    simp only [bind, Except.bind]
    rw [wUShort_eq (by simp only; omega) (by simp only; omega) (by exact ranged)]
    simp only [put, value]
    have start : (0 : Int) ≤ 4 := by decide
    have head : (0 : Int) ≤ 2 := by decide
    refine ⟨_, rfl, ⟨roomy.least, roomy.ranged⟩, rfl, start, head, rfl, ?_, ?_⟩
    · change (4 : Int) + (2 + payload.length) ≤ message.m_buffer.m_size
      omega
    · have front := Memory.read_write_front message.m_buffer.m_buf 4
        (bigEndianBytes 2 payload.length) payload.length
      rw [length_bigEndianBytes] at front
      have whole : ((2 : Int) + payload.length).toNat = 2 + payload.length := by omega
      rw [short, wire, whole, front]
      exact congrArg _ bytes

/-- **What is written is a frame.** Whatever writers a payload is put together
with, the message that results goes out as the payload's frame. -/
theorem writeAll_eq {Part : Type} {bytes : Part → List UInt8}
    {writer : Part → NetMessage → Process → Except Abort (NetMessage × Process)}
    (appends : ∀ part, Appends (bytes part) (writer part)) (parts : List Part)
    (roomy : message.m_buffer.Roomy)
    (bounded : (parts.flatMap bytes).length ≤ 1073741824 - 6) (generous : process.Generous) :
    ∃ drafted after requests,
      writeAll writer parts message.beginForWrite process =
          .ok (drafted, { process with requests }) ∧
        drafted.endForWrite { process with requests } = .ok (after, { process with requests }) ∧
          Finished (parts.flatMap bytes) after := by
  obtain ⟨drafted, requests, written, draft⟩ :=
    (Drafted.beginForWrite roomy).writeAll appends parts (by rw [List.nil_append]; omega) generous
  obtain ⟨after, ended, finished⟩ := draft.endForWrite { process with requests }
  exact ⟨drafted, after, requests, written, ended, finished⟩

/-- So it is for a payload that is cut into `wRaw` calls. -/
theorem write_eq (parts : List (List UInt8)) (sound : message.m_buffer.Sound)
    (bounded : parts.flatten.length ≤ 1073741824 - 6) (generous : process.Generous) :
    ∃ after requests, message.write parts process = .ok (after, { process with requests }) ∧
      Finished parts.flatten after := by
  rw [← List.flatMap_id] at bounded ⊢
  obtain ⟨drafted, after, requests, written, ended, finished⟩ :=
    writeAll_eq wRaw_appends parts sound.roomy bounded generous
  refine ⟨after, requests, ?_, finished⟩
  simp only [write, wRawAll_eq, written, bind, Except.bind]
  exact ended

end NetMessage

end EngSocket
