import EngSocket.Message.Writing
import Mathlib.Data.Int.Order.Basic

/-!
# Typed values

Every writer puts the bytes of its value at the cursor, most significant first,
whatever technique it uses (`EngSocket.Value.write_appends`), and on these bytes
the matching reader gives the value back and moves the cursor behind them
(`EngSocket.Value.read_eq`). A `float` and a `double` are their bit patterns, and
the memory of a `double` has its least significant byte first.
-/

namespace EngSocket

open Foundation

namespace NetMessage

/-! ## Writers -/

/-- `(v >> shift) & 0xFF`. -/
def byteAt (shift : Nat) (v : Int) : UInt8 := UInt8.ofInt (v >>> shift)

def wShort (v : Int16) : NetMessage → Process → Except Abort (NetMessage × Process) :=
  wBytes [byteAt 8 v.toInt, UInt8.ofInt v.toInt]

def wInt (v : Int32) : NetMessage → Process → Except Abort (NetMessage × Process) :=
  wBytes [byteAt 24 v.toInt, byteAt 16 v.toInt, byteAt 8 v.toInt, UInt8.ofInt v.toInt]

def wInt8 (v : Int8) : NetMessage → Process → Except Abort (NetMessage × Process) :=
  wBytes [UInt8.ofInt v.toInt]

def wUInt8 (v : UInt8) : NetMessage → Process → Except Abort (NetMessage × Process) := wBytes [v]

def wBoolean (v : Bool) : NetMessage → Process → Except Abort (NetMessage × Process) :=
  wBytes [if v then 1 else 0]

/-- `ival` is the memory of `v`, taken for an `int`. -/
def wFloat (v : UInt32) : NetMessage → Process → Except Abort (NetMessage × Process) :=
  let ival := v.toInt32
  wBytes [byteAt 24 ival.toInt, byteAt 16 ival.toInt, byteAt 8 ival.toInt, UInt8.ofInt ival.toInt]

/-- `buf` is the memory of `v`. -/
def wDouble (v : UInt64) : NetMessage → Process → Except Abort (NetMessage × Process) :=
  let buf (index : UInt64) : UInt8 := (v >>> (8 * index)).toUInt8
  wBytes [buf 7, buf 6, buf 5, buf 4, buf 3, buf 2, buf 1, buf 0]

/-- `*(m_buffer->getBuf(p)) = value`, one after the other. -/
def storeAll : List (Int × UInt8) → NetMessage → Except Abort NetMessage
  | [], message => .ok message
  | (p, value) :: stores, message => do
      let buffer ← message.m_buffer.store p [value]
      storeAll stores { message with m_buffer := buffer }

/-- The cursor moves first, and the bytes are stored from the last one on. -/
def wInt64 (v : Int64) (message : NetMessage) (process : Process) :
    Except Abort (NetMessage × Process) := do
  let (message, process) ← message.checkBufSize 8 process
  let p1 := message.m_curPos
  let p2 := int32 (p1 + 1)
  let p3 := int32 (p2 + 1)
  let p4 := int32 (p3 + 1)
  let p5 := int32 (p4 + 1)
  let p6 := int32 (p5 + 1)
  let p7 := int32 (p6 + 1)
  let p8 := int32 (p7 + 1)
  let v := v.toInt
  let message ← { message with m_curPos := int32 (p8 + 1) }.storeAll
    [(p8, UInt8.ofInt v), (p7, byteAt 8 v), (p6, byteAt 16 v), (p5, byteAt 24 v), (p4, byteAt 32 v),
      (p3, byteAt 40 v), (p2, byteAt 48 v), (p1, byteAt 56 v)]
  return (message, process)

def wString (str : List UInt8) (message : NetMessage) (process : Process) :
    Except Abort (NetMessage × Process) := do
  let (message, process) ← message.checkBufSize (int32 (4 + str.length)) process
  let (message, process) ← message.wInt (Int32.ofInt str.length) process
  let message ← message.storeAtCursor str
  return ({ message with m_curPos := int32 (message.m_curPos + str.length) }, process)

/-! ## Readers -/

def getBufValue (message : NetMessage) : UInt8 × NetMessage :=
  (message.m_buffer.m_buf message.m_curPos,
    { message with m_curPos := int32 (message.m_curPos + 1) })

def rUShort (message : NetMessage) : UInt16 × NetMessage :=
  let (first, message) := message.getBufValue
  let (second, message) := message.getBufValue
  (first.toUInt16 <<< 8 ||| second.toUInt16, message)

/-- What is shifted is narrowed to a `short`. -/
def rShort (message : NetMessage) : Int16 × NetMessage :=
  let (first, message) := message.getBufValue
  let (second, message) := message.getBufValue
  ((first.toUInt16 <<< 8).toInt16 ||| second.toUInt16.toInt16, message)

def rInt8 (message : NetMessage) : Int8 × NetMessage :=
  let (first, message) := message.getBufValue
  (first.toInt8, message)

def rUInt8 (message : NetMessage) : UInt8 × NetMessage := message.getBufValue

def rBoolean (message : NetMessage) : Bool × NetMessage :=
  let (first, message) := message.getBufValue
  (first != 0, message)

def rInt (message : NetMessage) : Int32 × NetMessage :=
  let (first, message) := message.getBufValue
  let (second, message) := message.getBufValue
  let (third, message) := message.getBufValue
  let (fourth, message) := message.getBufValue
  ((first.toUInt32 <<< 24).toInt32 ||| (second.toUInt32 <<< 16).toInt32 |||
    (third.toUInt32 <<< 8).toInt32 ||| fourth.toUInt32.toInt32, message)

def rUInt (message : NetMessage) : UInt32 × NetMessage :=
  let (first, message) := message.getBufValue
  let (second, message) := message.getBufValue
  let (third, message) := message.getBufValue
  let (fourth, message) := message.getBufValue
  (first.toUInt32 <<< 24 ||| second.toUInt32 <<< 16 ||| third.toUInt32 <<< 8 ||| fourth.toUInt32,
    message)

/-- `ival` is the memory of `val`, taken for an `int`. -/
def rFloat (message : NetMessage) : UInt32 × NetMessage :=
  let (ival, message) := message.rInt
  (ival.toUInt32, message)

def rInt64 (message : NetMessage) : Int64 × NetMessage :=
  let (first, message) := message.getBufValue
  let (second, message) := message.getBufValue
  let (third, message) := message.getBufValue
  let (fourth, message) := message.getBufValue
  let (fifth, message) := message.getBufValue
  let (sixth, message) := message.getBufValue
  let (seventh, message) := message.getBufValue
  let (eighth, message) := message.getBufValue
  let val := first.toUInt64.toInt64
  let val := val <<< 8 + second.toUInt64.toInt64
  let val := val <<< 8 + third.toUInt64.toInt64
  let val := val <<< 8 + fourth.toUInt64.toInt64
  let val := val <<< 8 + fifth.toUInt64.toInt64
  let val := val <<< 8 + sixth.toUInt64.toInt64
  let val := val <<< 8 + seventh.toUInt64.toInt64
  let val := val <<< 8 + eighth.toUInt64.toInt64
  (val, message)

/-- The bytes go to the memory of `val` from its last one on. -/
def rDouble (message : NetMessage) : UInt64 × NetMessage :=
  let (buf7, message) := message.getBufValue
  let (buf6, message) := message.getBufValue
  let (buf5, message) := message.getBufValue
  let (buf4, message) := message.getBufValue
  let (buf3, message) := message.getBufValue
  let (buf2, message) := message.getBufValue
  let (buf1, message) := message.getBufValue
  let (buf0, message) := message.getBufValue
  (buf0.toUInt64 ||| buf1.toUInt64 <<< 8 ||| buf2.toUInt64 <<< 16 ||| buf3.toUInt64 <<< 24 |||
    buf4.toUInt64 <<< 32 ||| buf5.toUInt64 <<< 40 ||| buf6.toUInt64 <<< 48 |||
      buf7.toUInt64 <<< 56, message)

/-- `rString`: the bytes at the returned pointer, and the `size` that it sets. -/
def rString (message : NetMessage) : List UInt8 × Int × NetMessage :=
  let (size, message) := message.rInt
  if size.toInt ≤ 0 then ([], size.toInt, message)
  else
    (message.m_buffer.m_buf.read message.m_curPos size.toInt.toNat, size.toInt,
      { message with m_curPos := int32 (message.m_curPos + size.toInt) })

end NetMessage

/-! ## Values -/

inductive Value
  | int8 (v : Int8)
  | uint8 (v : UInt8)
  | short (v : Int16)
  | ushort (v : UInt16)
  | int (v : Int32)
  | uint (v : UInt32)
  | int64 (v : Int64)
  | boolean (v : Bool)
  | float (v : UInt32)
  | double (v : UInt64)
  | string (str : List UInt8)
  | raw (buf : List UInt8)
  deriving DecidableEq

/-- What a reader gives back, with the size that `rString` sets. -/
inductive Returned
  | value (value : Value)
  | string (str : List UInt8) (size : Int)
  deriving DecidableEq

/-- A reader, and for `rRaw` its argument. -/
inductive Kind
  | int8 | uint8 | short | ushort | int | uint | int64 | boolean | float | double | string
  | raw (sz : Int)
  deriving DecidableEq

namespace Value

/-- The bytes of a value. -/
def bytes : Value → List UInt8
  | .int8 v => bigEndianBytes 1 v.toUInt8.toNat
  | .uint8 v => bigEndianBytes 1 v.toNat
  | .short v => bigEndianBytes 2 v.toUInt16.toNat
  | .ushort v => bigEndianBytes 2 v.toNat
  | .int v => bigEndianBytes 4 v.toUInt32.toNat
  | .uint v => bigEndianBytes 4 v.toNat
  | .int64 v => bigEndianBytes 8 v.toUInt64.toNat
  | .boolean v => bigEndianBytes 1 v.toNat
  | .float v => bigEndianBytes 4 v.toNat
  | .double v => bigEndianBytes 8 v.toNat
  | .string str => bigEndianBytes 4 str.length ++ str
  | .raw buf => buf

/-- The writer of a value. -/
def write : Value → NetMessage → Process → Except Abort (NetMessage × Process)
  | .int8 v => NetMessage.wInt8 v
  | .uint8 v => NetMessage.wUInt8 v
  | .short v => NetMessage.wShort v
  | .ushort v => NetMessage.wUShort v
  | .int v => NetMessage.wInt v
  | .uint v => NetMessage.wUInt v
  | .int64 v => NetMessage.wInt64 v
  | .boolean v => NetMessage.wBoolean v
  | .float v => NetMessage.wFloat v
  | .double v => NetMessage.wDouble v
  | .string str => NetMessage.wString str
  | .raw buf => NetMessage.wRaw buf

/-- The matching reader. -/
def kind : Value → Kind
  | .int8 _ => .int8
  | .uint8 _ => .uint8
  | .short _ => .short
  | .ushort _ => .ushort
  | .int _ => .int
  | .uint _ => .uint
  | .int64 _ => .int64
  | .boolean _ => .boolean
  | .float _ => .float
  | .double _ => .double
  | .string _ => .string
  | .raw buf => .raw buf.length

/-- What the matching reader should give back. -/
def returned : Value → Returned
  | .string str => .string str str.length
  | value => .value value

end Value

/-- Call a reader. -/
def Kind.read (message : NetMessage) : Kind → Returned × NetMessage
  | .int8 => message.rInt8.map (Returned.value ∘ Value.int8) id
  | .uint8 => message.rUInt8.map (Returned.value ∘ Value.uint8) id
  | .short => message.rShort.map (Returned.value ∘ Value.short) id
  | .ushort => message.rUShort.map (Returned.value ∘ Value.ushort) id
  | .int => message.rInt.map (Returned.value ∘ Value.int) id
  | .uint => message.rUInt.map (Returned.value ∘ Value.uint) id
  | .int64 => message.rInt64.map (Returned.value ∘ Value.int64) id
  | .boolean => message.rBoolean.map (Returned.value ∘ Value.boolean) id
  | .float => message.rFloat.map (Returned.value ∘ Value.float) id
  | .double => message.rDouble.map (Returned.value ∘ Value.double) id
  | .string =>
      let (str, size, message) := message.rString
      (.string str size, message)
  | .raw sz => (message.rRaw sz).map (Returned.value ∘ Value.raw) id

/-! ## What the writers put -/

namespace NetMessage

variable {message : NetMessage} {process : Process}

/-- `wShort` writes two bytes, the sign included. -/
theorem wShort_eq (v : Int16) : wShort v = wBytes (bigEndianBytes 2 v.toUInt16.toNat) := by
  have bytes := @shiftedBytes_toInt 2 v.toBitVec
  simp only [shiftedBytes, mul_zero, mul_one, Int.shiftRight_zero] at bytes
  exact congrArg wBytes bytes

/-- `wInt` writes four bytes, the sign included. -/
theorem wInt_eq (v : Int32) : wInt v = wBytes (bigEndianBytes 4 v.toUInt32.toNat) := by
  have bytes := @shiftedBytes_toInt 4 v.toBitVec
  simp only [shiftedBytes, mul_zero, mul_one, Int.shiftRight_zero] at bytes
  exact congrArg wBytes bytes

theorem wInt8_eq (v : Int8) : wInt8 v = wBytes (bigEndianBytes 1 v.toUInt8.toNat) := by
  have bytes := @shiftedBytes_toInt 1 v.toBitVec
  simp only [shiftedBytes, mul_zero, Int.shiftRight_zero] at bytes
  exact congrArg wBytes bytes

theorem wUInt8_eq (v : UInt8) : wUInt8 v = wBytes (bigEndianBytes 1 v.toNat) := by
  have bytes : bigEndianBytes 1 v.toNat = [v] := by
    simp only [bigEndianBytes, List.nil_append, UInt8.ofNat_toNat]
  rw [bytes]
  rfl

/-- `wBoolean` writes one byte, which is zero or one. -/
theorem wBoolean_eq (v : Bool) : wBoolean v = wBytes (bigEndianBytes 1 v.toNat) := by
  cases v <;> rfl

theorem wFloat_eq (v : UInt32) : wFloat v = wBytes (bigEndianBytes 4 v.toNat) :=
  wInt_eq v.toInt32

/-- `wDouble` writes eight bytes, the highest one first. -/
theorem wDouble_eq (v : UInt64) : wDouble v = wBytes (bigEndianBytes 8 v.toNat) := by
  have bytes : bigEndianBytes 8 v.toNat =
      [(v >>> (8 * 7)).toUInt8, (v >>> (8 * 6)).toUInt8, (v >>> (8 * 5)).toUInt8,
        (v >>> (8 * 4)).toUInt8, (v >>> (8 * 3)).toUInt8, (v >>> (8 * 2)).toUInt8,
        (v >>> (8 * 1)).toUInt8, (v >>> (8 * 0)).toUInt8] := by
    simp only [bigEndianBytes, List.nil_append, List.cons_append, List.cons.injEq, and_true,
      ← UInt8.toNat_inj]
    refine ⟨?_, ?_, ?_, ?_, ?_, ?_, ?_, ?_⟩ <;>
      simp [Nat.shiftRight_eq_div_pow, Nat.div_div_eq_div_mul]
  rw [bytes]
  rfl

/-- The message after some bytes were stored at an offset. -/
def placed (p : Int) (cells : List UInt8) (message : NetMessage) : NetMessage :=
  { message with
    m_buffer := { message.m_buffer with m_buf := message.m_buffer.m_buf.write p cells } }

/-- Stores from the last byte to the first. -/
def downward (p : Int) : List UInt8 → List (Int × UInt8)
  | [] => []
  | value :: values => downward (p + 1) values ++ [(p, value)]

/-- Two rows of stores are one after the other. -/
theorem storeAll_append (first second : List (Int × UInt8)) (message : NetMessage) :
    message.storeAll (first ++ second) = message.storeAll first >>= storeAll second := by
  induction first generalizing message with
  | nil => rfl
  | cons store first ih =>
      rw [List.cons_append, storeAll, storeAll, bind_assoc]
      exact congrArg _ (funext fun buffer => ih _)

/-- Storing the last byte first makes no difference. -/
theorem storeAll_downward {p : Int} {values : List UInt8} (low : 0 ≤ p)
    (within : p + values.length ≤ message.m_buffer.m_size) :
    message.storeAll (downward p values) = .ok (message.placed p values) := by
  induction values generalizing p with
  | nil =>
      rw [placed, Memory.write_nil]
      rfl
  | cons value values ih =>
      rw [List.length_cons] at within
      push_cast at within
      have inside : 0 ≤ p ∧ p + ([value].length : Int) ≤ message.m_buffer.m_size := by
        rw [List.length_singleton]
        omega
      rw [downward, storeAll_append, ih (by omega) (by omega)]
      change storeAll [(p, value)] (message.placed (p + 1) values) = _
      unfold storeAll MemBuffer.store placed
      rw [if_pos inside, Memory.write_cons message.m_buffer.m_buf p value values]
      rfl

/-- `wInt64` appends eight bytes, though it stores them from the last one on. -/
theorem wInt64_appends (v : Int64) : Appends (bigEndianBytes 8 v.toUInt64.toNat) (wInt64 v) := by
  intro message process roomy generous low bounded
  rw [length_bigEndianBytes] at bounded
  obtain ⟨grown, requests, checked, grownRoomy, extension, covers⟩ :=
    checkBufSize_of_roomy roomy generous low (by decide) bounded
  refine ⟨grown, requests, ?_, grownRoomy, extension, by rw [length_bigEndianBytes]; exact covers⟩
  have bytes : shiftedBytes 8 v.toInt = bigEndianBytes 8 v.toUInt64.toNat :=
    @shiftedBytes_toInt 8 v.toBitVec
  have next (offset : Int) (above : 0 ≤ offset) (below : offset < 1073741824) :
      int32 (offset + 1) = offset + 1 := int32_of_range (by omega) (by omega)
  have stored := @storeAll_downward
    { message with m_curPos := message.m_curPos + 8, m_buffer := grown } message.m_curPos
      (shiftedBytes 8 v.toInt) low (by
        rw [bytes, length_bigEndianBytes]
        exact covers)
  simp only [shiftedBytes, downward, List.nil_append, List.cons_append, Nat.reduceMul,
    Int.shiftRight_zero] at stored bytes
  rw [Nat.cast_ofNat] at checked bounded
  have eight : message.m_curPos + 1 + 1 + 1 + 1 + 1 + 1 + 1 + 1 = message.m_curPos + 8 := by omega
  have behind : int32 (message.m_curPos + 8) = message.m_curPos + 8 :=
    int32_of_range (by omega) (by omega)
  unfold wInt64
  rw [checked]
  simp (disch := omega) only [bind, Except.bind, next, eight, behind, byteAt]
  rw [stored, ← bytes]
  rfl

/-- A length that fits in an `int`. -/
theorem toNat_toUInt32_ofInt {length : Nat} (small : length < 2147483648) :
    (Int32.ofInt (length : Int)).toUInt32.toNat = length := by
  have word : (Int32.ofInt (length : Int)).toUInt32 = UInt32.ofNat length :=
    UInt32.toBitVec_inj.mp (BitVec.ofInt_natCast 32 length)
  rw [word, UInt32.toNat_ofNat', Nat.mod_eq_of_lt (by omega)]

/-- `wString` writes the length in four bytes and then the bytes. -/
theorem wString_appends (str : List UInt8) :
    Appends (bigEndianBytes 4 str.length ++ str) (wString str) := by
  intro message process roomy generous low bounded
  rw [List.length_append, length_bigEndianBytes] at bounded ⊢
  push_cast at bounded ⊢
  have whole : int32 (4 + str.length) = 4 + str.length := int32_of_range (by omega) (by omega)
  obtain ⟨grown, requests, checked, grownRoomy, extension, covers⟩ :=
    checkBufSize_of_roomy roomy generous low (by omega : (0 : Int) ≤ 4 + str.length) bounded
  refine ⟨grown, requests, ?_, grownRoomy, extension, covers⟩
  let enough := { message with m_buffer := grown }
  let prefixed := enough.put (bigEndianBytes 4 str.length)
  have counted : wInt (Int32.ofInt str.length) enough { process with requests } =
      .ok (prefixed, { process with requests }) := by
    rw [wInt_eq, toNat_toUInt32_ofInt (by omega)]
    apply @wBytes_eq enough
    · exact low
    · rw [length_bigEndianBytes]
      change message.m_curPos + 4 ≤ grown.m_size
      omega
    · exact grownRoomy.ranged
  have cursor : prefixed.m_curPos = message.m_curPos + 4 := by
    change message.m_curPos + ((bigEndianBytes 4 str.length).length : Int) = _
    rw [length_bigEndianBytes, Nat.cast_ofNat]
  have copied : prefixed.storeAtCursor str = _ :=
    storeAtCursor_of_le str (by omega) (by
      rw [cursor, add_assoc]
      exact covers)
  unfold wString
  rw [whole, checked]
  change (wInt (Int32.ofInt str.length) enough { process with requests } >>= _) = _
  rw [counted]
  change (prefixed.storeAtCursor str >>= _) = _
  rw [copied, ← put_put]
  change Except.ok (_, _) = Except.ok (_, _)
  rw [int32_of_range (by rw [cursor]; omega) (by rw [cursor]; omega)]
  rfl

end NetMessage

/-- **Every writer** appends the bytes of its value. -/
theorem Value.write_appends (value : Value) : NetMessage.Appends value.bytes value.write := by
  have number {bytes : List UInt8}
      {writer : NetMessage → Process → Except Abort (NetMessage × Process)}
      (same : writer = NetMessage.wBytes bytes) : NetMessage.Appends bytes writer := by
    rw [same]
    exact NetMessage.wBytes_appends bytes
  cases value with
  | int8 v => exact number (NetMessage.wInt8_eq v)
  | uint8 v => exact number (NetMessage.wUInt8_eq v)
  | short v => exact number (NetMessage.wShort_eq v)
  | ushort v => exact number (funext₂ (NetMessage.wUShort_eq_wBytes v))
  | int v => exact number (NetMessage.wInt_eq v)
  | uint v => exact number (funext₂ (NetMessage.wUInt_eq_wBytes v))
  | int64 v => exact NetMessage.wInt64_appends v
  | boolean v => exact number (NetMessage.wBoolean_eq v)
  | float v => exact number (NetMessage.wFloat_eq v)
  | double v => exact number (NetMessage.wDouble_eq v)
  | string str => exact NetMessage.wString_appends str
  | raw buf => exact NetMessage.wRaw_appends buf

/-! ## What the readers give back -/

namespace NetMessage

variable {message : NetMessage}

/-- The message with its cursor further on. -/
def skip (distance : Int) (message : NetMessage) : NetMessage :=
  { message with m_curPos := message.m_curPos + distance }

@[simp] theorem skip_m_curPos (distance : Int) (message : NetMessage) :
    (message.skip distance).m_curPos = message.m_curPos + distance := rfl

@[simp] theorem skip_m_buffer (distance : Int) (message : NetMessage) :
    (message.skip distance).m_buffer = message.m_buffer := rfl

theorem skip_skip (first second : Int) (message : NetMessage) :
    (message.skip first).skip second = message.skip (first + second) := by
  simp only [skip, add_assoc]

/-- A byte is read at the cursor, which moves on. -/
theorem getBufValue_eq (low : 0 ≤ message.m_curPos) (bounded : message.m_curPos + 1 < 2147483648) :
    message.getBufValue = (message.m_buffer.m_buf message.m_curPos, message.skip 1) := by
  rw [getBufValue, int32_of_range (by omega) bounded]
  rfl

/-- The reader takes some bytes at the cursor for a number. -/
def Reads {Number : Type} (width : Nat) (toNat : Number → Nat)
    (reader : NetMessage → Number × NetMessage) : Prop :=
  ∀ message : NetMessage, 0 ≤ message.m_curPos → message.m_curPos + width < 2147483648 →
    toNat (reader message).1 = bigEndian (message.m_buffer.m_buf.read message.m_curPos width) ∧
      (reader message).2 = message.skip width

theorem rUInt8_reads : Reads 1 UInt8.toNat rUInt8 := by
  intro message low bounded
  rw [rUInt8, getBufValue_eq low bounded, Memory.read_succ, Memory.read_zero]
  simp [bigEndian]

/-- `rUShort` puts two bytes together. -/
theorem rUShort_reads : Reads 2 UInt16.toNat rUShort := by
  intro message low bounded
  simp (disch := first | omega | (simp only [skip_m_curPos]; omega)) only [rUShort,
    getBufValue_eq, skip_skip, skip_m_buffer, skip_m_curPos, toNat_uint16_of_bytes]
  simp [Memory.read_succ]

/-- `rUInt` puts four bytes together. -/
theorem rUInt_reads : Reads 4 UInt32.toNat rUInt := by
  intro message low bounded
  simp (disch := first | omega | (simp only [skip_m_curPos]; omega)) only [rUInt,
    getBufValue_eq, skip_skip, skip_m_buffer, skip_m_curPos, toNat_uint32_of_bytes]
  simp [Memory.read_succ]

/-- `rDouble` puts eight bytes together, the first one highest. -/
theorem rDouble_reads : Reads 8 UInt64.toNat rDouble := by
  intro message low bounded
  simp (disch := first | omega | (simp only [skip_m_curPos]; omega)) only [rDouble,
    getBufValue_eq, skip_skip, skip_m_buffer, skip_m_curPos, toNat_uint64_of_bytes]
  simp [Memory.read_succ]

/-- `rInt64` shifts eight bytes in, one after the other. -/
theorem rInt64_reads : Reads 8 (fun v : Int64 => v.toUInt64.toNat) rInt64 := by
  intro message low bounded
  simp (disch := first | omega | (simp only [skip_m_curPos]; omega)) only [rInt64,
    getBufValue_eq, skip_skip, skip_m_buffer, skip_m_curPos]
  refine ⟨(toNat_uint64_of_sums _ _ _ _ _ _ _ _).trans ?_, rfl⟩
  simp [Memory.read_succ]

/-! A signed word has the bits of an unsigned one. -/

theorem rInt8_reads : Reads 1 (fun v : Int8 => v.toUInt8.toNat) rInt8 := rUInt8_reads

theorem rShort_reads : Reads 2 (fun v : Int16 => v.toUInt16.toNat) rShort := rUShort_reads

theorem rInt_reads : Reads 4 (fun v : Int32 => v.toUInt32.toNat) rInt := rUInt_reads

theorem rFloat_reads : Reads 4 UInt32.toNat rFloat := rUInt_reads

/-- `rRaw` hands out as many bytes as it was asked for. -/
theorem rRaw_eq (low : 0 ≤ message.m_curPos) {sz : Nat}
    (bounded : message.m_curPos + sz < 2147483648) :
    message.rRaw sz = (message.m_buffer.m_buf.read message.m_curPos sz, message.skip sz) := by
  unfold rRaw
  split
  · next none_ =>
      obtain rfl : sz = 0 := by omega
      simp only [Memory.read_zero, skip, Nat.cast_zero, add_zero]
  · rw [int32_of_range (by omega) bounded, Int.toNat_natCast]
    rfl

/-- The bytes from the cursor on. -/
structure Holds (bytes : List UInt8) (message : NetMessage) : Prop where
  low : 0 ≤ message.m_curPos
  bounded : message.m_curPos + bytes.length < 2147483648
  read : message.m_buffer.m_buf.read message.m_curPos bytes.length = bytes

/-- What lies at the cursor lies in two parts, one behind the other. -/
theorem Holds.append {first second : List UInt8} (holds : message.Holds (first ++ second)) :
    message.Holds first ∧ (message.skip first.length).Holds second := by
  obtain ⟨low, bounded, read⟩ := holds
  rw [List.length_append] at bounded read
  rw [Memory.read_add] at read
  obtain ⟨front, behind⟩ := List.append_inj read (Memory.length_read _ _ _)
  refine ⟨⟨low, by omega, front⟩, ⟨?_, ?_, behind⟩⟩
  · rw [skip_m_curPos]
    omega
  · rw [skip_m_curPos]
    omega

/-- **A reader gives a number back** whose bytes lie at the cursor. -/
theorem Reads.eq {Number : Type} {width : Nat} {toNat : Number → Nat}
    {reader : NetMessage → Number × NetMessage} (reads : Reads width toNat reader)
    (injective : Function.Injective toNat) {v : Number} (fits : toNat v < 256 ^ width)
    (holds : message.Holds (bigEndianBytes width (toNat v))) :
    reader message = (v, message.skip width) := by
  obtain ⟨low, bounded, read⟩ := holds
  rw [length_bigEndianBytes] at bounded read
  obtain ⟨value, moved⟩ := reads message low bounded
  rw [read, bigEndian_bigEndianBytes fits] at value
  exact Prod.ext (injective value) moved

theorem toNat_toUInt32_injective : Function.Injective fun v : Int32 => v.toUInt32.toNat :=
  fun _ _ same => congrArg Int32.ofUInt32 (UInt32.toNat_inj.mp same)

/-- A word taken for an `int`. -/
theorem toInt_eq_int32 (v : Int32) : v.toInt = int32 v.toUInt32.toNat := by
  have below := v.toUInt32.toNat_lt
  change v.toBitVec.toInt = int32 v.toBitVec.toNat
  rw [BitVec.toInt_eq_toNat_cond]
  change v.toBitVec.toNat < 2 ^ 32 at below
  unfold int32
  split <;> omega

/-- `rBoolean` gives back what `wBoolean` has written. -/
theorem rBoolean_eq {v : Bool} (holds : message.Holds (bigEndianBytes 1 v.toNat)) :
    message.rBoolean = (v, message.skip 1) := by
  obtain ⟨low, bounded, read⟩ := holds
  have byte : message.m_buffer.m_buf message.m_curPos = UInt8.ofNat v.toNat := by
    have first := congrArg List.head? read
    rw [length_bigEndianBytes, Memory.read_cons] at first
    exact Option.some.inj first
  rw [rBoolean, getBufValue_eq low bounded]
  simp only [byte]
  cases v <;> rfl

/-- Behind its length a string is a raw block. -/
theorem rString_eq_rRaw (message : NetMessage) :
    message.rString =
      ((message.rInt.2.rRaw message.rInt.1.toInt).1, message.rInt.1.toInt,
        (message.rInt.2.rRaw message.rInt.1.toInt).2) := by
  unfold rString rRaw
  by_cases none_ : message.rInt.1.toInt ≤ 0
  · simp only [if_pos none_]
  · simp only [if_neg none_]

/-- `rString` gives back the bytes and their number. -/
theorem rString_eq {str : List UInt8}
    (holds : message.Holds (bigEndianBytes 4 str.length ++ str)) :
    message.rString = (str, (str.length : Int), message.skip (4 + str.length : Nat)) := by
  have bounded := holds.bounded
  have low := holds.low
  rw [List.length_append, length_bigEndianBytes] at bounded
  obtain ⟨counted, held⟩ := holds.append
  rw [length_bigEndianBytes] at held
  have word : (Int32.ofInt (str.length : Int)).toUInt32.toNat = str.length :=
    toNat_toUInt32_ofInt (by omega)
  rw [← word] at counted
  have size := rInt_reads.eq toNat_toUInt32_injective (by rw [word]; omega) counted
  have value : (Int32.ofInt (str.length : Int)).toInt = str.length :=
    Int32.toInt_ofInt_of_le (by omega) (by omega)
  rw [rString_eq_rRaw, size]
  simp only [value]
  rw [rRaw_eq held.low held.bounded, held.read, skip_skip]
  rfl

/-- A finished message holds its payload behind the header. -/
theorem Finished.holds {payload : List UInt8} (finished : Finished payload message) :
    message.ResetForRead.m_curPos = message.m_bufStartPos + message.m_headSize ∧
      message.ResetForRead.Holds payload := by
  have ranged := finished.roomy.ranged
  have header := finished.headSize_eq
  unfold MemBuffer.Ranged at ranged
  obtain ⟨-, size, start, headSize, -, room, wire⟩ := finished
  have cursor : message.ResetForRead.m_curPos = message.m_bufStartPos + message.m_headSize :=
    int32_of_range (by omega) (by omega)
  have length : (message.m_headSize + message.m_size).toNat =
      ((Frame.of payload).marker ++ (Frame.of payload).item.head).length + payload.length := by
    omega
  rw [NetMessage.wire, length, Memory.read_add, Frame.bytes, Frame.payload_of,
    ← List.append_assoc] at wire
  have behind := (List.append_inj wire (Memory.length_read _ _ _)).2
  rw [← header, ← cursor] at behind
  refine ⟨cursor, ⟨?_, ?_, behind⟩⟩ <;> omega

end NetMessage

/-- A reader inverts its writer. -/
theorem Value.read_eq (value : Value) {message : NetMessage} (holds : message.Holds value.bytes) :
    value.kind.read message = (value.returned, message.skip value.bytes.length) := by
  have number {Number : Type} {width : Nat} {toNat : Number → Nat}
      {reader : NetMessage → Number × NetMessage} (reads : NetMessage.Reads width toNat reader)
      (injective : Function.Injective toNat) {v : Number} (fits : toNat v < 256 ^ width)
      (holds : message.Holds (bigEndianBytes width (toNat v))) (embed : Number → Value) :
      (reader message).map (Returned.value ∘ embed) id = (Returned.value (embed v),
        message.skip (bigEndianBytes width (toNat v)).length) := by
    rw [reads.eq injective fits holds, length_bigEndianBytes]
    rfl
  cases value with
  | int8 v =>
      exact number NetMessage.rInt8_reads
        (fun _ _ same => congrArg Int8.ofUInt8 (UInt8.toNat_inj.mp same)) v.toUInt8.toNat_lt holds _
  | uint8 v =>
      exact number NetMessage.rUInt8_reads (fun _ _ => UInt8.toNat_inj.mp) v.toNat_lt holds _
  | short v =>
      exact number NetMessage.rShort_reads
        (fun _ _ same => congrArg Int16.ofUInt16 (UInt16.toNat_inj.mp same)) v.toUInt16.toNat_lt
        holds _
  | ushort v =>
      exact number NetMessage.rUShort_reads (fun _ _ => UInt16.toNat_inj.mp) v.toNat_lt holds _
  | int v =>
      exact number NetMessage.rInt_reads NetMessage.toNat_toUInt32_injective v.toUInt32.toNat_lt
        holds _
  | uint v =>
      exact number NetMessage.rUInt_reads (fun _ _ => UInt32.toNat_inj.mp) v.toNat_lt holds _
  | int64 v =>
      exact number NetMessage.rInt64_reads
        (fun _ _ same => congrArg Int64.ofUInt64 (UInt64.toNat_inj.mp same)) v.toUInt64.toNat_lt
        holds _
  | boolean v =>
      simp only [kind, Kind.read, NetMessage.rBoolean_eq holds, Value.bytes, length_bigEndianBytes]
      rfl
  | float v =>
      exact number NetMessage.rFloat_reads (fun _ _ => UInt32.toNat_inj.mp) v.toNat_lt holds _
  | double v =>
      exact number NetMessage.rDouble_reads (fun _ _ => UInt64.toNat_inj.mp) v.toNat_lt holds _
  | string str =>
      simp only [kind, Kind.read, NetMessage.rString_eq holds, Value.bytes, List.length_append,
        length_bigEndianBytes]
      rfl
  | raw buf =>
      have bounded : message.m_curPos + buf.length < 2147483648 := holds.bounded
      have block : message.m_buffer.m_buf.read message.m_curPos buf.length = buf := holds.read
      simp only [kind, Kind.read, NetMessage.rRaw_eq holds.low bounded, block]
      rfl

/-! ## Any number of values -/

/-- One reader after the other. -/
def Kind.readAll : List Kind → NetMessage → List Returned × NetMessage
  | [], message => ([], message)
  | kind :: kinds, message =>
      let (returned, message) := kind.read message
      let (others, message) := readAll kinds message
      (returned :: others, message)

/-- The readers, applied in the order of the writers, give the values back. -/
theorem Value.readAll_eq (values : List Value) {message : NetMessage}
    (holds : message.Holds (values.flatMap bytes)) :
    Kind.readAll (values.map kind) message =
      (values.map returned, message.skip (values.flatMap bytes).length) := by
  induction values generalizing message with
  | nil => simp only [List.map_nil, Kind.readAll, List.flatMap_nil, List.length_nil,
      NetMessage.skip, Nat.cast_zero, add_zero]
  | cons value values ih =>
      rw [List.flatMap_cons] at holds
      obtain ⟨first, others⟩ := holds.append
      simp only [List.map_cons, Kind.readAll, value.read_eq first, ih others, NetMessage.skip_skip,
        List.flatMap_cons, List.length_append, Nat.cast_add]

/-- `beginForWrite`, any number of writers and `endForWrite`. -/
def NetMessage.writeValues (values : List Value) (message : NetMessage) (process : Process) :
    Except Abort (NetMessage × Process) := do
  let (message, process) ← NetMessage.writeAll Value.write values message.beginForWrite process
  message.endForWrite process

variable {message : NetMessage} {process : Process}

/-- **Values are written** as the payload that their bytes make up. -/
theorem NetMessage.writeValues_eq (values : List Value) (roomy : message.m_buffer.Roomy)
    (bounded : (values.flatMap Value.bytes).length ≤ 1073741824 - 6)
    (generous : process.Generous) :
    ∃ after requests, message.writeValues values process = .ok (after, { process with requests }) ∧
      Finished (values.flatMap Value.bytes) after := by
  obtain ⟨drafted, after, requests, written, ended, finished⟩ :=
    writeAll_eq Value.write_appends values roomy bounded generous
  refine ⟨after, requests, ?_, finished⟩
  simp only [writeValues, written, bind, Except.bind]
  exact ended

/-- What was written is read back. -/
theorem NetMessage.Finished.readAll_eq {values : List Value}
    (finished : Finished (values.flatMap Value.bytes) message) :
    ∃ read, Kind.readAll (values.map Value.kind) message.ResetForRead =
        (values.map Value.returned, read) ∧
      read.m_curPos = message.m_bufStartPos + message.m_headSize + message.m_size := by
  obtain ⟨cursor, holds⟩ := finished.holds
  refine ⟨_, Value.readAll_eq values holds, ?_⟩
  rw [skip_m_curPos, cursor, finished.size]

end EngSocket
