import EngSocket.Message.Buffer
import EngSocket.Foundation.BigEndian

/-!
# Messages

A `NetMessage` is a cursor over a buffer with a header in front of a payload.
The same four numbers serve a message being received, where `m_size` is `-1`
while the two-byte header is missing and `-2` while the four-byte length is, and
a message being written or sent.
-/

namespace EngSocket

open Foundation

/-- A `NetMessage`, at the address `new` gave it. -/
structure NetMessage where
  address : Nat
  m_size : Int
  m_headSize : Int
  m_bufStartPos : Int
  m_curPos : Int
  m_buffer : MemBuffer

namespace NetMessage

/-- `new NetMessage(size)`. -/
def new (size : Int) (process : Process) : NetMessage × Process :=
  let (buffer, process) := process.require size
  let address := process.nextMessage
  ({ address, m_size := -1, m_headSize := 2, m_bufStartPos := 0, m_curPos := 0,
      m_buffer := buffer },
    { process with
      nextMessage := address + 1
      live := process.live ++ [(address, buffer.address)] })

/-- `delete` on a message: its destructor gives the buffer back to the pool. -/
def delete (message : NetMessage) (process : Process) : Process :=
  let process := process.release message.m_buffer
  { process with
    live := process.live.filter fun entry => entry.1 ≠ message.address
    deleted := message.address :: process.deleted }

def getSize (message : NetMessage) : Int := message.m_size

def isEnd (message : NetMessage) : Bool :=
  if message.m_size < 0 then false
  else message.m_curPos = int32 (message.m_size + message.m_headSize + message.m_bufStartPos)

def ResetForSend (message : NetMessage) : NetMessage :=
  { message with m_curPos := message.m_bufStartPos }

def ResetForRead (message : NetMessage) : NetMessage :=
  { message with m_curPos := int32 (message.m_bufStartPos + message.m_headSize) }

def getReadCap (message : NetMessage) : Int :=
  if 0 ≤ message.m_size then int32 (message.m_size - message.m_curPos + message.m_headSize)
  else if message.m_size = -1 then 2
  else 4

def getSendCap (message : NetMessage) : Int :=
  int32 (message.m_size - message.m_curPos + message.m_bufStartPos + message.m_headSize)

def onSend (size : Int) (message : NetMessage) : NetMessage :=
  { message with m_curPos := int32 (message.m_curPos + size) }

/-- The loop `while (m_curPos + size > m_buffer->getSize())`. By
`MemBuffer.enlargeUntil_cutoff` it runs forever when 33 tests do not end it. -/
def checkBufSize (size : Int) (message : NetMessage) (process : Process) :
    Except Abort (NetMessage × Process) :=
  match message.m_buffer.enlargeUntil (int32 (message.m_curPos + size)) 33 process with
  | some (buffer, process) => .ok ({ message with m_buffer := buffer }, process)
  | none => .error .endless

/-- The first two bytes of the buffer, as `onReceive` puts them together. -/
def shortHeader (message : NetMessage) : UInt16 :=
  (message.m_buffer.m_buf 0).toUInt16 <<< 8 ||| (message.m_buffer.m_buf 1).toUInt16

/-- The first four bytes of the buffer, as `onReceive` puts them together. -/
def longHeader (message : NetMessage) : UInt32 :=
  (message.m_buffer.m_buf 0).toUInt32 <<< 24 ||| (message.m_buffer.m_buf 1).toUInt32 <<< 16 |||
    (message.m_buffer.m_buf 2).toUInt32 <<< 8 ||| (message.m_buffer.m_buf 3).toUInt32

def onReceive (size : Int) (message : NetMessage) (process : Process) :
    Except Abort (NetMessage × Process) :=
  let message := { message with m_curPos := int32 (message.m_curPos + size) }
  if 0 ≤ message.m_size then .ok (message, process)
  else if message.m_size = -1 ∧ message.m_curPos = message.m_headSize then
    let val := message.shortHeader
    if val = 0xFFFF then
      .ok ({ message with m_curPos := 0, m_size := -2, m_headSize := 4 }, process)
    else
      -- The cursor is put at the new head size, which is two again.
      let message :=
        { message with m_size := val.toNat, m_headSize := 2, m_curPos := 2, m_bufStartPos := 0 }
      message.checkBufSize message.m_size process
  else if message.m_size = -2 ∧ message.m_curPos = message.m_headSize then
    let val := message.longHeader
    let message :=
      { message with
        m_size := int32 val.toNat, m_curPos := message.m_headSize, m_bufStartPos := 0 }
    message.checkBufSize message.m_size process
  else .ok (message, process)

/-- `memcpy` to the cursor, or the kernel's copy into the window of a `Recv`. -/
def storeAtCursor (bytes : List UInt8) (message : NetMessage) : Except Abort NetMessage := do
  let buffer ← message.m_buffer.store message.m_curPos bytes
  return { message with m_buffer := buffer }

def setBufValue (value : UInt8) (message : NetMessage) : Except Abort NetMessage := do
  let message ← message.storeAtCursor [value]
  return { message with m_curPos := int32 (message.m_curPos + 1) }

def wUShort (v : UInt16) (message : NetMessage) (process : Process) :
    Except Abort (NetMessage × Process) := do
  let (message, process) ← message.checkBufSize 2 process
  let message ← message.setBufValue (v >>> 8).toUInt8
  let message ← message.setBufValue v.toUInt8
  return (message, process)

def wUInt (v : UInt32) (message : NetMessage) (process : Process) :
    Except Abort (NetMessage × Process) := do
  let (message, process) ← message.checkBufSize 4 process
  let message ← message.setBufValue (v >>> 24).toUInt8
  let message ← message.setBufValue (v >>> 16).toUInt8
  let message ← message.setBufValue (v >>> 8).toUInt8
  let message ← message.setBufValue v.toUInt8
  return (message, process)

/-- `memcpy` to the cursor in `wRaw`. Of no bytes it stores nothing, wherever the
cursor is. -/
def copyAtCursor (buf : List UInt8) (message : NetMessage) : Except Abort NetMessage :=
  if buf.isEmpty then .ok message else message.storeAtCursor buf

def wRaw (buf : List UInt8) (message : NetMessage) (process : Process) :
    Except Abort (NetMessage × Process) := do
  let (message, process) ← message.checkBufSize buf.length process
  let message ← message.copyAtCursor buf
  return ({ message with m_curPos := int32 (message.m_curPos + buf.length) }, process)

/-- `rRaw`: the bytes at the returned pointer, as many as asked for. -/
def rRaw (sz : Int) (message : NetMessage) : List UInt8 × NetMessage :=
  if sz ≤ 0 then ([], message)
  else
    (message.m_buffer.m_buf.read message.m_curPos sz.toNat,
      { message with m_curPos := int32 (message.m_curPos + sz) })

def beginForWrite (message : NetMessage) : NetMessage := { message with m_curPos := 6 }

def endForWrite (message : NetMessage) (process : Process) :
    Except Abort (NetMessage × Process) := do
  let structLen := int32 (message.m_curPos - 6)
  let message := { message with m_size := structLen }
  if 0xFFFF ≤ message.m_size then
    let message := { message with m_headSize := 6, m_curPos := 0 }
    let (message, process) ← message.wUShort 0xFFFF process
    let (message, process) ← message.wUInt (UInt32.ofInt message.m_size) process
    return ({ message with m_curPos := 0, m_bufStartPos := 0 }, process)
  else
    let message := { message with m_headSize := 2, m_curPos := 4 }
    let (message, process) ← message.wUShort (UInt16.ofInt message.m_size) process
    return ({ message with m_curPos := 4, m_bufStartPos := 4 }, process)

/-! ## What the methods do -/

variable {message : NetMessage} {process : Process}

/-- Bytes are stored where the buffer has room for them. -/
theorem storeAtCursor_of_le (bytes : List UInt8) (low : 0 ≤ message.m_curPos)
    (within : message.m_curPos + bytes.length ≤ message.m_buffer.m_size) :
    message.storeAtCursor bytes =
      .ok { message with
        m_buffer := { message.m_buffer with
          m_buf := message.m_buffer.m_buf.write message.m_curPos bytes } } := by
  have inside : 0 ≤ message.m_curPos ∧
      message.m_curPos + bytes.length ≤ message.m_buffer.m_size := ⟨low, within⟩
  unfold storeAtCursor MemBuffer.store
  rw [if_pos inside]
  rfl

/-- They are stored nowhere else. -/
theorem storeAtCursor_ok {bytes : List UInt8} {stored : NetMessage}
    (done : message.storeAtCursor bytes = .ok stored) :
    (0 ≤ message.m_curPos ∧ message.m_curPos + bytes.length ≤ message.m_buffer.m_size) ∧
      stored = { message with
        m_buffer := { message.m_buffer with
          m_buf := message.m_buffer.m_buf.write message.m_curPos bytes } } := by
  by_cases inside : 0 ≤ message.m_curPos ∧
      message.m_curPos + bytes.length ≤ message.m_buffer.m_size
  · rw [storeAtCursor_of_le bytes inside.1 inside.2] at done
    exact ⟨inside, (Except.ok.inj done).symm⟩
  · unfold storeAtCursor MemBuffer.store at done
    rw [if_neg inside] at done
    cases done

/-- Bytes are copied where the buffer has room for them. -/
theorem copyAtCursor_of_le (buf : List UInt8) (low : 0 ≤ message.m_curPos)
    (within : message.m_curPos + buf.length ≤ message.m_buffer.m_size) :
    message.copyAtCursor buf =
      .ok { message with
        m_buffer := { message.m_buffer with
          m_buf := message.m_buffer.m_buf.write message.m_curPos buf } } := by
  unfold copyAtCursor
  cases buf with
  | nil => rw [Memory.write_nil, List.isEmpty_nil, if_pos rfl]
  | cons byte rest => exact storeAtCursor_of_le (byte :: rest) low within

/-- Enough capacity is left alone. -/
theorem checkBufSize_of_enough {size : Int}
    (enough : int32 (message.m_curPos + size) ≤ message.m_buffer.m_size) :
    message.checkBufSize size process = .ok (message, process) := by
  have notShort : ¬ int32 (message.m_curPos + size) > message.m_buffer.m_size := by omega
  rw [checkBufSize, MemBuffer.enlargeUntil, if_neg notShort]

/-- A demand that doubling reaches is met, and only the buffer grows. -/
theorem checkBufSize_of_reaches {size : Int} (positive : 0 < message.m_buffer.m_size)
    (reaches : message.m_buffer.Reaches (int32 (message.m_curPos + size)) process) :
    ∃ grown requests,
      message.checkBufSize size process =
          .ok ({ message with m_buffer := grown }, { process with requests }) ∧
        message.m_buffer.Doubled (int32 (message.m_curPos + size)) grown := by
  obtain ⟨grown, requests, result, doubled⟩ :=
    MemBuffer.enlargeUntil_of_reaches positive reaches
  refine ⟨grown, requests, ?_, doubled⟩
  rw [checkBufSize, result]

/-- Any other demand is never met. -/
theorem checkBufSize_of_not_reaches {size : Int} (positive : 0 < message.m_buffer.m_size)
    (ranged : message.m_buffer.Ranged)
    (out : ¬ message.m_buffer.Reaches (int32 (message.m_curPos + size)) process) :
    message.checkBufSize size process = .error .endless := by
  rw [checkBufSize, MemBuffer.enlargeUntil_of_not_reaches 33 positive ranged out]

/-- A demand of at most `2 ^ 30` bytes is met, and only the buffer grows. -/
theorem checkBufSize_of_le {size : Int} (sound : message.m_buffer.Sound)
    (generous : process.Generous) (bounded : int32 (message.m_curPos + size) ≤ 1073741824) :
    ∃ grown requests,
      message.checkBufSize size process =
          .ok ({ message with m_buffer := grown }, { process with requests }) ∧
        grown.Sound ∧ message.m_buffer.Grown grown ∧
          int32 (message.m_curPos + size) ≤ grown.m_size := by
  have bounds := sound.size_bounds
  obtain ⟨grown, requests, result, doubled⟩ :=
    checkBufSize_of_reaches (by omega) (sound.reaches bounded generous)
  exact ⟨grown, requests, result, doubled.sound sound, doubled.toGrown, doubled.covers⟩

/-- So it is whatever the capacity was, and the bytes written so far are kept. -/
theorem checkBufSize_of_roomy {size : Int} (roomy : message.m_buffer.Roomy)
    (generous : process.Generous) (low : 0 ≤ message.m_curPos) (nonnegative : 0 ≤ size)
    (bounded : message.m_curPos + size ≤ 1073741824) :
    ∃ grown requests,
      message.checkBufSize size process =
          .ok ({ message with m_buffer := grown }, { process with requests }) ∧
        grown.Roomy ∧ message.m_buffer.Grown grown ∧ message.m_curPos + size ≤ grown.m_size := by
  have least := roomy.least
  have demand : int32 (message.m_curPos + size) = message.m_curPos + size :=
    int32_of_range (by omega) (by omega)
  have reaches : message.m_buffer.Reaches (int32 (message.m_curPos + size)) process :=
    MemBuffer.reaches_of_le (by omega) roomy.ranged (by omega) generous
  obtain ⟨grown, requests, result, doubled⟩ := checkBufSize_of_reaches (by omega) reaches
  exact ⟨grown, requests, result, doubled.roomy roomy, doubled.toGrown, demand ▸ doubled.covers⟩

/-- A demand beyond `2 ^ 30` bytes never ends. -/
theorem checkBufSize_of_gt {size : Int} (sound : message.m_buffer.Sound)
    (beyond : 1073741824 < int32 (message.m_curPos + size)) (process : Process) :
    message.checkBufSize size process = .error .endless := by
  have bounds := sound.size_bounds
  exact checkBufSize_of_not_reaches (by omega) (by unfold MemBuffer.Ranged; omega)
    (sound.not_reaches beyond)

/-- A new message comes with a sound buffer. -/
theorem new_sound (generous : process.Generous) (pool : process.PoolSound) :
    (new 512 process).1.m_buffer.Sound ∧ (new 512 process).2.Generous := by
  refine ⟨(Process.Stocked.require_message pool generous.supplies).1, fun request => ?_⟩
  change (process.require 512).2.grants request = true
  rw [(Process.require_same 512 process).grants]
  exact generous request

/-! ## What the methods keep -/

/-- What every method that returns keeps: the object, its buffer and the process
up to the count of requests; a capacity that is an `int`, and one reached by
doubling. -/
structure Keeps (before : NetMessage) (process : Process) (after : NetMessage) (left : Process) :
    Prop where
  address : after.address = before.address
  buffer : after.m_buffer.address = before.m_buffer.address
  requests : ∃ requests, left = { process with requests }
  ranged : before.m_buffer.Ranged → after.m_buffer.Ranged
  sound : before.m_buffer.Sound → after.m_buffer.Sound

variable {after : NetMessage} {left : Process}

theorem Keeps.refl (message : NetMessage) (process : Process) :
    message.Keeps process message process :=
  ⟨rfl, rfl, ⟨process.requests, rfl⟩, id, id⟩

/-- What two methods keep both of them keep. -/
theorem Keeps.trans {second third : NetMessage} {middle last : Process}
    (earlier : message.Keeps process second middle) (later : second.Keeps middle third last) :
    message.Keeps process third last where
  address := later.address.trans earlier.address
  buffer := later.buffer.trans earlier.buffer
  requests := by
    obtain ⟨requests, rfl⟩ := later.requests
    obtain ⟨earlierRequests, rfl⟩ := earlier.requests
    exact ⟨requests, rfl⟩
  ranged := fun ranged => later.ranged (earlier.ranged ranged)
  sound := fun sound => later.sound (earlier.sound sound)

/-- Two actions that return have both returned. -/
theorem bind_eq_ok {first second : Type} {action : Except Abort first}
    {next : first → Except Abort second} {result : second} (done : action >>= next = .ok result) :
    ∃ value, action = .ok value ∧ next value = .ok result := by
  cases action with
  | error reason => cases done
  | ok value => exact ⟨value, rfl, done⟩

/-- What every method that writes keeps besides: the size and the layout. -/
structure Writes (before : NetMessage) (process : Process) (after : NetMessage) (left : Process) :
    Prop extends Keeps before process after left where
  size : after.m_size = before.m_size
  headSize : after.m_headSize = before.m_headSize
  start : after.m_bufStartPos = before.m_bufStartPos

theorem Writes.trans {second third : NetMessage} {middle last : Process}
    (earlier : message.Writes process second middle) (later : second.Writes middle third last) :
    message.Writes process third last where
  toKeeps := earlier.toKeeps.trans later.toKeeps
  size := later.size.trans earlier.size
  headSize := later.headSize.trans earlier.headSize
  start := later.start.trans earlier.start

/-- Only the buffer is another one. -/
theorem checkBufSize_same {size : Int}
    (done : message.checkBufSize size process = .ok (after, left)) :
    after = { message with m_buffer := after.m_buffer } := by
  unfold checkBufSize at done
  split at done
  · cases done
    rfl
  · cases done

/-- `checkBufSize` changes the buffer alone. -/
theorem checkBufSize_writes {size : Int}
    (done : message.checkBufSize size process = .ok (after, left)) :
    message.Writes process after left := by
  unfold checkBufSize at done
  cases enlarged : message.m_buffer.enlargeUntil (int32 (message.m_curPos + size)) 33 process with
  | none =>
      rw [enlarged] at done
      cases done
  | some result =>
      obtain ⟨address, requests⟩ := MemBuffer.enlargeUntil_some enlarged
      rw [enlarged] at done
      cases done
      refine ⟨⟨rfl, address, requests, fun ranged => ranged.enlargeUntil enlarged, ?_⟩,
        rfl, rfl, rfl⟩
      intro sound
      have bounds := sound.size_bounds
      exact (MemBuffer.enlargeUntil_some_doubled (by omega) (by omega) enlarged).sound sound

theorem storeAtCursor_writes {bytes : List UInt8} (done : message.storeAtCursor bytes = .ok after)
    (process : Process) : message.Writes process after process := by
  obtain ⟨-, rfl⟩ := storeAtCursor_ok done
  exact ⟨⟨rfl, rfl, ⟨process.requests, rfl⟩, id, id⟩, rfl, rfl, rfl⟩

theorem copyAtCursor_writes {buf : List UInt8} (done : message.copyAtCursor buf = .ok after)
    (process : Process) : message.Writes process after process := by
  unfold copyAtCursor at done
  split at done
  · cases done
    exact ⟨Keeps.refl message process, rfl, rfl, rfl⟩
  · exact storeAtCursor_writes done process

/-- What `onReceive` does once it has moved the cursor: nothing, or it takes up the
marker, a length of two bytes or one of four. -/
theorem onReceive_cases {size : Int}
    (done : message.onReceive size process = .ok (after, left)) :
    let moved := { message with m_curPos := int32 (message.m_curPos + size) }
    (after = moved ∧ left = process) ∨
      (after = { moved with m_curPos := 0, m_size := -2, m_headSize := 4 } ∧ left = process) ∨
      (∃ length : UInt16,
        { moved with m_size := length.toNat, m_headSize := 2, m_curPos := 2, m_bufStartPos := 0
          }.checkBufSize length.toNat process = .ok (after, left)) ∨
      ∃ length : UInt32,
        moved.m_curPos = message.m_headSize ∧
          { moved with m_size := int32 length.toNat, m_curPos := message.m_headSize,
                       m_bufStartPos := 0
            }.checkBufSize (int32 length.toNat) process = .ok (after, left) := by
  intro moved
  unfold onReceive at done
  simp only at done
  split at done
  · exact Or.inl (Prod.mk.inj (Except.ok.inj done.symm))
  · split at done
    · split at done
      · exact Or.inr (Or.inl (Prod.mk.inj (Except.ok.inj done.symm)))
      · exact Or.inr (Or.inr (Or.inl ⟨_, done⟩))
    · split at done
      · next long => exact Or.inr (Or.inr (Or.inr ⟨_, long.2, done⟩))
      · exact Or.inl (Prod.mk.inj (Except.ok.inj done.symm))

/-- `onReceive` keeps the object and its buffer. -/
theorem onReceive_keeps {size : Int} (done : message.onReceive size process = .ok (after, left)) :
    message.Keeps process after left := by
  rcases onReceive_cases done with ⟨rfl, rfl⟩ | ⟨rfl, rfl⟩ | ⟨length, checked⟩ |
    ⟨length, -, checked⟩
  · exact ⟨rfl, rfl, ⟨_, rfl⟩, id, id⟩
  · exact ⟨rfl, rfl, ⟨_, rfl⟩, id, id⟩
  · have kept := checkBufSize_writes checked
    exact ⟨kept.address, kept.buffer, kept.requests, kept.ranged, kept.sound⟩
  · have kept := checkBufSize_writes checked
    exact ⟨kept.address, kept.buffer, kept.requests, kept.ranged, kept.sound⟩

/-- What a `Recv` leaves of its message. -/
theorem received_keeps {bytes : List UInt8} {filled : NetMessage}
    (stored : message.storeAtCursor bytes = .ok filled)
    (received : filled.onReceive bytes.length process = .ok (after, left)) :
    message.Keeps process after left :=
  (storeAtCursor_writes stored process).toKeeps.trans (onReceive_keeps received)

theorem setBufValue_writes {value : UInt8} (done : message.setBufValue value = .ok after)
    (process : Process) : message.Writes process after process := by
  obtain ⟨stored, done, moved⟩ := bind_eq_ok done
  have kept := storeAtCursor_writes done process
  cases moved
  exact ⟨⟨kept.address, kept.buffer, kept.requests, kept.ranged, kept.sound⟩, kept.size,
    kept.headSize, kept.start⟩

theorem wUShort_writes {v : UInt16} (done : message.wUShort v process = .ok (after, left)) :
    message.Writes process after left := by
  obtain ⟨⟨checked, middle⟩, check, done⟩ := bind_eq_ok done
  obtain ⟨first, high, done⟩ := bind_eq_ok done
  obtain ⟨second, low, done⟩ := bind_eq_ok done
  cases done
  exact ((checkBufSize_writes check).trans (setBufValue_writes high left)).trans
    (setBufValue_writes low left)

theorem wUInt_writes {v : UInt32} (done : message.wUInt v process = .ok (after, left)) :
    message.Writes process after left := by
  obtain ⟨⟨checked, middle⟩, check, done⟩ := bind_eq_ok done
  obtain ⟨first, highest, done⟩ := bind_eq_ok done
  obtain ⟨second, high, done⟩ := bind_eq_ok done
  obtain ⟨third, low, done⟩ := bind_eq_ok done
  obtain ⟨fourth, lowest, done⟩ := bind_eq_ok done
  cases done
  exact ((((checkBufSize_writes check).trans (setBufValue_writes highest left)).trans
    (setBufValue_writes high left)).trans (setBufValue_writes low left)).trans
    (setBufValue_writes lowest left)

/-- `wRaw` keeps size and layout. -/
theorem wRaw_writes {buf : List UInt8} (done : message.wRaw buf process = .ok (after, left)) :
    message.Writes process after left := by
  obtain ⟨⟨checked, middle⟩, check, done⟩ := bind_eq_ok done
  obtain ⟨stored, store, done⟩ := bind_eq_ok done
  have kept := (checkBufSize_writes check).trans (copyAtCursor_writes store middle)
  cases done
  exact ⟨⟨kept.address, kept.buffer, kept.requests, kept.ranged, kept.sound⟩, kept.size,
    kept.headSize, kept.start⟩

theorem beginForWrite_keeps (message : NetMessage) (process : Process) :
    message.Keeps process message.beginForWrite process :=
  ⟨rfl, rfl, ⟨_, rfl⟩, id, id⟩

/-- `rRaw` moves nothing but the cursor. -/
theorem rRaw_keeps (sz : Int) (message : NetMessage) (process : Process) :
    message.Keeps process (message.rRaw sz).2 process := by
  unfold rRaw
  split
  · exact Keeps.refl message process
  · exact ⟨rfl, rfl, ⟨_, rfl⟩, id, id⟩

/-- `endForWrite` puts one of two headers in front of what was written and the
cursor in front of the header. -/
theorem endForWrite_keeps (done : message.endForWrite process = .ok (after, left)) :
    message.Keeps process after left ∧ after.m_size = int32 (message.m_curPos - 6) ∧
      after.m_curPos = after.m_bufStartPos ∧
        (0xFFFF ≤ after.m_size ∧ after.m_headSize = 6 ∧ after.m_bufStartPos = 0 ∨
          after.m_size < 0xFFFF ∧ after.m_headSize = 2 ∧ after.m_bufStartPos = 4) := by
  unfold endForWrite at done
  simp only at done
  split at done
  · next extended =>
      obtain ⟨⟨marked, middle⟩, marker, done⟩ := bind_eq_ok done
      obtain ⟨⟨written, last⟩, length, done⟩ := bind_eq_ok done
      have kept := (wUShort_writes marker).trans (wUInt_writes length)
      cases done
      exact ⟨⟨kept.address, kept.buffer, kept.requests, kept.ranged, kept.sound⟩, kept.size, rfl,
        Or.inl ⟨kept.size ▸ extended, kept.headSize, rfl⟩⟩
  · next short =>
      obtain ⟨⟨written, last⟩, length, done⟩ := bind_eq_ok done
      have kept := wUShort_writes length
      cases done
      exact ⟨⟨kept.address, kept.buffer, kept.requests, kept.ranged, kept.sound⟩, kept.size, rfl,
        Or.inr ⟨kept.size ▸ not_le.mp short, kept.headSize, rfl⟩⟩

/-! ## The headers as numbers -/

/-- The header of two bytes is a number, the high byte first. -/
theorem shortHeader_toNat (message : NetMessage) :
    message.shortHeader.toNat = bigEndian (message.m_buffer.m_buf.read 0 2) := by
  rw [shortHeader, toNat_uint16_of_bytes]
  simp [Memory.read_succ]

/-- So is the one of four bytes. -/
theorem longHeader_toNat (message : NetMessage) :
    message.longHeader.toNat = bigEndian (message.m_buffer.m_buf.read 0 4) := by
  rw [longHeader, toNat_uint32_of_bytes]
  simp [Memory.read_succ]

end NetMessage

end EngSocket
