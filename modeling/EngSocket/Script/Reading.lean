import EngSocket.Message.Typed
import EngSocket.Transmission.Relay

/-!
# Reading what was received

On the message that a receiver makes of a frame, however the network cut the
stream, the readers give back the values whose bytes are the payload
(`EngSocket.NetMessage.values_round_trip`). They look at no bound: a length that is
greater than what is left of the payload returns what the buffer holds behind it
(`EngSocket.NetMessage.readsInside_iff`).
-/

namespace EngSocket

open Foundation

/-! ## Messages that a receiver made of a frame -/

/-- A message that a receiver made of a frame of a stream. It is complete and lies
in `m_recvList`, however the stream was cut between the headers, or `LoadMsg` took
it when it was pending. -/
inductive NetMessage.DecodedAs (frame : Frame) (message : NetMessage) : Prop
  | listed {frames : List Frame} {receiver : Endpoint} {events : List Event} {final : Link}
      {index : Nat} (valid : ∀ frame ∈ frames, frame.Valid) (sound : receiver.Sound)
      (fresh : receiver.manager.m_recvList = [])
      (meets : Link.machine.Meets (fun link event => link.control.Admits event)
        { control := .idle receiver, unread := (frames.map Frame.bytes).flatten } events)
      (reached : Link.machine.run
        { control := .idle receiver, unread := (frames.map Frame.bytes).flatten } events =
          some final)
      (uncrossed : HeadersUncrossed frameDecoder.start (received events))
      (next : frames[index]? = some frame)
      (place : final.control.endpoint.manager.m_recvList[index]? = some message)
      (ended : message.isEnd = true) : DecodedAs frame message
  | loaded (received : message.ReceivedAs frame) : DecodedAs frame message

variable {frame : Frame} {message : NetMessage}

theorem NetMessage.DecodedAs.complete (decoded : message.DecodedAs frame) :
    frame.Valid ∧ ∃ original cursor, Complete frame.item original ∧
      message = { original with m_curPos := cursor } := by
  cases decoded with
  | @listed frames receiver events final index valid sound fresh meets reached uncrossed next place
      ended =>
      have follows := Link.Follows.run valid sound fresh meets reached
      rcases follows.place with ⟨-, tracks⟩ | ⟨crossed, -⟩
      · obtain ⟨-, done, rest, list, -, incomplete, complete⟩ := tracks.split
        rw [feed_arrived valid ⟨_, follows.taken⟩] at complete
        -- A complete message is not the one that is being read.
        have inside : index < done.length := by
          by_contra beyond
          rw [list, List.getElem?_append_right (not_lt.mp beyond)] at place
          have open_ := incomplete message (List.mem_of_getElem? place)
          exact Bool.false_ne_true (open_.symm.trans ended)
        rw [list, List.getElem?_append_left inside] at place
        have first := Frame.arrived_prefix frames (received events).flatten.length
        have whole := List.prefix_iff_eq_append.mp first
        have lengths := complete.length_eq
        rw [List.length_map] at lengths
        rw [← whole, List.getElem?_append_left (lengths ▸ inside)] at next
        obtain ⟨here, rfl⟩ := List.getElem?_eq_some_iff.mp next
        obtain ⟨there, rfl⟩ := List.getElem?_eq_some_iff.mp place
        have item := complete.get (by rw [List.length_map]; exact here) there
        rw [List.get_eq_getElem, List.get_eq_getElem, List.getElem_map] at item
        exact ⟨valid _ (first.subset (List.getElem_mem here)), _, _, item, rfl⟩
      · exact absurd uncrossed crossed
  | loaded received => exact received.complete

/-- A message of which these bytes are left to read, up to the end of its payload. -/
structure NetMessage.LeftToRead (left : List UInt8) (message : NetMessage) : Prop
    extends Holds left message where
  header : 0 ≤ message.m_headSize
  behind : message.m_headSize ≤ message.m_curPos
  ends : message.m_curPos + left.length = message.m_headSize + message.m_size
  fits : message.m_headSize + message.m_size ≤ 1073741824

theorem NetMessage.DecodedAs.leftToRead (decoded : message.DecodedAs frame) :
    message.m_bufStartPos = 0 ∧ message.ResetForRead.LeftToRead frame.payload := by
  obtain ⟨valid, original, cursor, complete, rfl⟩ := decoded.complete
  obtain ⟨-, -, fits⟩ := valid.fits
  obtain ⟨-, start, size, headSize, -, bytes, -, small⟩ := complete
  rw [Frame.item_payload] at size bytes
  have front : NetMessage.m_curPos (ResetForRead { original with m_curPos := cursor }) =
      frame.item.head.length := by
    change int32 (original.m_bufStartPos + original.m_headSize) = _
    rw [start, headSize, zero_add, int32_of_range (by omega) (by omega)]
  have payload : original.m_buffer.m_buf.read frame.item.head.length frame.payload.length =
      frame.payload := by
    rw [Memory.read_add, zero_add] at bytes
    exact (List.append_inj bytes (Memory.length_read _ _ _)).2
  refine ⟨start, ⟨⟨?_, ?_, ?_⟩, ?_, ?_, ?_, ?_⟩⟩
  · rw [front]
    exact Int.natCast_nonneg _
  · rw [front]
    omega
  · rw [front]
    exact payload
  · change 0 ≤ original.m_headSize
    rw [headSize]
    exact Int.natCast_nonneg _
  · rw [front]
    exact headSize.le
  · rw [front]
    change _ = original.m_headSize + original.m_size
    rw [headSize, size]
  · change original.m_headSize + original.m_size ≤ _
    rw [headSize, size]
    omega

/-! ## Values -/

/-- The readers that match some values give the values back, and end at the end of
the payload. -/
def NetMessage.GivesBack (values : List Value) (message : NetMessage) : Prop :=
  ∃ read, Kind.readAll (values.map Value.kind) message.ResetForRead =
      (values.map Value.returned, read) ∧
    read.m_curPos = message.m_bufStartPos + message.m_headSize + message.m_size

theorem NetMessage.DecodedAs.givesBack {values : List Value}
    (payload : frame.payload = values.flatMap Value.bytes) (decoded : message.DecodedAs frame) :
    message.GivesBack values := by
  obtain ⟨start, left⟩ := decoded.leftToRead
  have ends := left.ends
  have holds := left.toHolds
  rw [payload] at ends holds
  refine ⟨_, Value.readAll_eq values holds, ?_⟩
  rw [skip_m_curPos, ends, start, zero_add]
  rfl

/-- **Values survive the way.** Any values that fit into a message are written
within the capacity of its buffer (a byte beyond it would be an error), and are
given back by the readers, by those of the sender and by those of any receiver that
made a message of what was sent. -/
theorem NetMessage.values_round_trip (values : List Value) {process : Process}
    (roomy : message.m_buffer.Roomy)
    (bounded : (values.flatMap Value.bytes).length ≤ 1073741824 - 6)
    (generous : process.Generous) :
    ∃ after requests, message.writeValues values process = .ok (after, { process with requests }) ∧
      after.GivesBack values ∧
        ∀ (frame : Frame) (received : NetMessage), frame.bytes = after.wire →
          received.DecodedAs frame → received.GivesBack values := by
  obtain ⟨after, requests, written, finished⟩ := writeValues_eq values roomy bounded generous
  refine ⟨after, requests, written, finished.readAll_eq, ?_⟩
  intro frame received sent decoded
  apply decoded.givesBack
  rw [finished.wire] at sent
  have here := decoded.complete.1.feed_frame
  rw [sent, (Frame.valid_of bounded).feed_frame, Prod.mk.injEq] at here
  have item := (List.singleton_inj.mp here.2).symm
  rw [← Frame.item_payload, item, Frame.item_payload, Frame.payload_of]

/-- Values of several sizes, with a string and negative numbers among them. -/
def Value.mixed : List Value := [.short (-300), .string [72, 105], .int64 (-2), .uint8 65]

/-- The frame that they are sent in, received in three pieces. -/
def NetMessage.mixedReceived : NetMessage :=
  ((Link.machine.run (.atStart [.short (Value.mixed.flatMap Value.bytes)])
    (receiving [[0, 17], [254, 212, 0, 0, 0], [2, 72, 105] ++ Value.bytes (.int64 (-2)) ++ [65]]
      .quiet)).bind Link.pendingMsg).get (by decide +kernel)

theorem NetMessage.receivedAs_mixedReceived :
    mixedReceived.ReceivedAs (.short (Value.mixed.flatMap Value.bytes)) :=
  receivedAs_of_pendingMsg (by decide +kernel) (by decide +kernel) (by decide +kernel)
    (Option.some_get _).symm

theorem NetMessage.values_round_trip_short :
    ∃ after requests,
      (new 512 .fresh).1.writeValues Value.mixed (new 512 .fresh).2 =
          .ok (after, { (new 512 .fresh).2 with requests }) ∧
        after.GivesBack Value.mixed ∧ mixedReceived.GivesBack Value.mixed := by
  have generous : Process.fresh.Generous := fun _ => rfl
  obtain ⟨sound, generous'⟩ := new_sound generous (fun _ none_ => absurd none_ List.not_mem_nil)
  obtain ⟨after, requests, written, own, back⟩ :=
    values_round_trip Value.mixed sound.roomy (by decide) generous'
  obtain ⟨other, _, written', finished⟩ :=
    writeValues_eq Value.mixed sound.roomy (by decide) generous'
  obtain rfl : after = other := congrArg Prod.fst (Except.ok.inj (written.symm.trans written'))
  have sent : (Frame.short (Value.mixed.flatMap Value.bytes)).bytes = after.wire := by
    rw [finished.wire]
    decide
  exact ⟨after, requests, written, own, back _ _ sent (.loaded receivedAs_mixedReceived)⟩

/-! ## Bounds -/

/-- Where a returned pointer points: to the literal `""`, or into the buffer. -/
inductive Pointer
  | literal
  | inBuffer (offset : Int)

/-- A returned pointer and the length that is reported with it. -/
structure Block where
  pointer : Pointer
  length : Int

/-- The bytes of the block are those of a range of offsets. A block without a
length has no bytes. -/
def Block.Within (low high : Int) (block : Block) : Prop :=
  match block.pointer with
  | .literal => block.length ≤ 0
  | .inBuffer offset => low ≤ offset ∧ offset + block.length ≤ high

namespace NetMessage

/-- What `rRaw` returns, with the length that it was asked for. -/
def rRawBlock (sz : Int) (message : NetMessage) : Block where
  pointer := if sz ≤ 0 then .literal else .inBuffer message.m_curPos
  length := sz

/-- What `rString` returns, with the length that it sets. -/
def rStringBlock (message : NetMessage) : Block :=
  let (size, message) := message.rInt
  { pointer := if size.toInt ≤ 0 then .literal else .inBuffer message.m_curPos
    length := size.toInt }

/-- What `CLuaMsg::ReadRaw` hands to `lua_pushlstring`, which takes the `int` for a
`size_t`. -/
def ReadRawBlock (size : Int) (message : NetMessage) : Block where
  pointer := (message.rRawBlock size).pointer
  length := size % 18446744073709551616

end NetMessage

/-- A call that reads a block. -/
inductive BlockRead
  | ReadRaw (n : Int32)
  | rRaw (sz : Int32)
  | rString

namespace BlockRead

/-- What a call returns. -/
def block (message : NetMessage) : BlockRead → Block
  | ReadRaw n => message.ReadRawBlock n.toInt
  | rRaw sz => message.rRawBlock sz.toInt
  | rString => message.rStringBlock

/-- What a call leaves. -/
def after (message : NetMessage) : BlockRead → NetMessage
  | ReadRaw n => (message.rRaw n.toInt).2
  | rRaw sz => (message.rRaw sz.toInt).2
  | rString => message.rString.2.2

/-- The length that stands in front of a string. -/
def announced (left : List UInt8) : Int := int32 (bigEndian (left.take 4))

/-- A call asks for nothing beyond what is left of the payload. -/
def Fits (left : List UInt8) : BlockRead → Prop
  | ReadRaw n => 0 ≤ n.toInt ∧ n.toInt ≤ left.length
  | rRaw sz => sz.toInt ≤ left.length
  | rString => 4 ≤ left.length ∧ 4 + announced left ≤ left.length

/-- What a call leaves of the payload. -/
def rest (left : List UInt8) : BlockRead → List UInt8
  | ReadRaw n => left.drop n.toInt.toNat
  | rRaw sz => left.drop sz.toInt.toNat
  | rString => left.drop (4 + (announced left).toNat)

/-- One call after the other asks for nothing beyond what is left. -/
def AllFit : List UInt8 → List BlockRead → Prop
  | _, [] => True
  | left, read :: reads => read.Fits left ∧ AllFit (read.rest left) reads

end BlockRead

/-- The cursor is in the payload or at its end. -/
def NetMessage.CursorInside (message : NetMessage) : Prop :=
  message.m_headSize ≤ message.m_curPos ∧
    message.m_curPos ≤ message.m_headSize + message.m_size

/-- Every block that is returned lies in the payload, and the cursor never leaves it. -/
def NetMessage.ReadsInside : List BlockRead → NetMessage → Prop
  | [], message => message.CursorInside
  | read :: reads, message =>
      message.CursorInside ∧
        (read.block message).Within message.m_headSize (message.m_headSize + message.m_size) ∧
          ReadsInside reads (read.after message)

theorem NetMessage.ReadsInside.cursorInside {reads : List BlockRead}
    (inside : message.ReadsInside reads) : message.CursorInside := by
  cases reads with
  | nil => exact inside
  | cons read reads => exact inside.1

variable {left : List UInt8}

/-- A raw block that goes on too far. -/
theorem NetMessage.rRawBlock_not_within {sz low high : Int} (positive : 0 < sz)
    (beyond : high < message.m_curPos + sz) : ¬ (message.rRawBlock sz).Within low high := by
  rw [rRawBlock, if_neg (not_le.mpr positive)]
  intro within
  exact absurd within.2 (not_le.mpr beyond)

/-- A length that is not negative is the same as a `size_t`. -/
theorem NetMessage.ReadRawBlock_eq {n : Int32} (nonnegative : 0 ≤ n.toInt) :
    message.ReadRawBlock n.toInt = message.rRawBlock n.toInt := by
  have below := n.toInt_lt
  have size : n.toInt % 18446744073709551616 = n.toInt := by omega
  rw [ReadRawBlock, size]
  rfl

/-- Behind its length a string is a raw block. -/
theorem NetMessage.rString_block (message : NetMessage) :
    BlockRead.rString.block message = message.rInt.2.rRawBlock message.rInt.1.toInt ∧
      BlockRead.rString.after message = (message.rInt.2.rRaw message.rInt.1.toInt).2 :=
  ⟨rfl, congrArg (fun returned => returned.2.2) (rString_eq_rRaw message)⟩

namespace NetMessage.LeftToRead

theorem cursorInside (toRead : message.LeftToRead left) : message.CursorInside := by
  have ends := toRead.ends
  exact ⟨toRead.behind, by omega⟩

theorem skip {count : Nat} (toRead : message.LeftToRead left) (within : count ≤ left.length) :
    (message.skip count).LeftToRead (left.drop count) := by
  have holds := toRead.toHolds
  rw [← List.take_append_drop count left] at holds
  have rest := holds.append.2
  rw [List.length_take, min_eq_left within] at rest
  obtain ⟨-, header, behind, ends, fits⟩ := toRead
  refine ⟨rest, header, ?_, ?_, fits⟩
  · exact behind.trans (by rw [skip_m_curPos]; omega)
  · rw [skip_m_curPos, List.length_drop]
    change _ = message.m_headSize + message.m_size
    omega

/-- A raw block within what is left. -/
theorem rRaw {sz : Int} (toRead : message.LeftToRead left) (fits : sz ≤ left.length) :
    (message.rRawBlock sz).Within message.m_headSize (message.m_headSize + message.m_size) ∧
      (message.rRaw sz).2.LeftToRead (left.drop sz.toNat) := by
  by_cases none_ : sz ≤ 0
  · have nothing : sz.toNat = 0 := by omega
    rw [rRawBlock, NetMessage.rRaw, if_pos none_, if_pos none_, nothing]
    exact ⟨none_, toRead⟩
  · obtain ⟨count, rfl⟩ := Int.eq_ofNat_of_zero_le (not_le.mp none_).le
    have within : count ≤ left.length := Int.ofNat_le.mp fits
    have ends := toRead.ends
    have bounded := toRead.bounded
    have inside : message.m_curPos + (count : Int) ≤ message.m_headSize + message.m_size := by omega
    rw [rRawBlock, if_neg none_, NetMessage.rRaw_eq toRead.low (by omega), Int.toNat_natCast]
    exact ⟨⟨toRead.behind, inside⟩, toRead.skip within⟩

/-- The length in front of a string, and the cursor behind it. -/
theorem rInt (toRead : message.LeftToRead left) :
    message.rInt.1.toInt = int32 (bigEndian (message.m_buffer.m_buf.read message.m_curPos 4)) ∧
      message.rInt.2 = message.skip 4 := by
  have ends := toRead.ends
  have fits := toRead.fits
  obtain ⟨value, moved⟩ := rInt_reads message toRead.low (by omega)
  refine ⟨?_, moved⟩
  rw [← value]
  exact toInt_eq_int32 _

theorem rInt_announced (toRead : message.LeftToRead left) (four : 4 ≤ left.length) :
    message.rInt.1.toInt = BlockRead.announced left := by
  have holds := toRead.toHolds
  rw [← List.take_append_drop 4 left] at holds
  have prefixed := holds.append.1.read
  rw [List.length_take, min_eq_left four] at prefixed
  rw [toRead.rInt.1, prefixed, BlockRead.announced]

end NetMessage.LeftToRead

/-- **One call.** It stays in the payload and leaves its rest, if it fits. -/
theorem BlockRead.Fits.step {read : BlockRead} (fits : read.Fits left)
    (toRead : message.LeftToRead left) :
    (read.block message).Within message.m_headSize (message.m_headSize + message.m_size) ∧
      (read.after message).LeftToRead (read.rest left) := by
  cases read with
  | ReadRaw n =>
      obtain ⟨nonnegative, enough⟩ := fits
      rw [block, NetMessage.ReadRawBlock_eq nonnegative]
      exact toRead.rRaw enough
  | rRaw sz => exact toRead.rRaw fits
  | rString =>
      obtain ⟨four, enough⟩ := fits
      have raw := (toRead.skip four).rRaw (by rw [List.length_drop]; omega :
        announced left ≤ (left.drop 4).length)
      obtain ⟨returned, moved⟩ := message.rString_block
      rw [toRead.rInt_announced four, toRead.rInt.2] at returned moved
      rw [List.drop_drop] at raw
      rw [returned, moved]
      exact raw

/-- Otherwise the block goes on beyond the payload, or the cursor does. -/
theorem BlockRead.not_inside_of_not_fits {read : BlockRead} (beyond : ¬ read.Fits left)
    (toRead : message.LeftToRead left)
    (within : (read.block message).Within message.m_headSize
      (message.m_headSize + message.m_size)) :
    ¬ (read.after message).CursorInside := by
  have ends := toRead.ends
  cases read with
  | ReadRaw n =>
      by_cases nonnegative : 0 ≤ n.toInt
      · have longer : ¬ n.toInt ≤ left.length := fun enough => beyond ⟨nonnegative, enough⟩
        rw [block, NetMessage.ReadRawBlock_eq nonnegative] at within
        exact absurd within (NetMessage.rRawBlock_not_within (by omega) (by omega))
      · -- The literal is returned with a length beyond all memory.
        have low := n.le_toInt
        rw [block, NetMessage.ReadRawBlock, NetMessage.rRawBlock, if_pos (by omega)] at within
        simp only [Block.Within] at within
        omega
  | rRaw sz =>
      have longer : (left.length : Int) < sz.toInt := not_le.mp beyond
      exact absurd within (NetMessage.rRawBlock_not_within (by omega) (by omega))
  | rString =>
      obtain ⟨returned, moved⟩ := message.rString_block
      rw [toRead.rInt.2] at returned moved
      rw [returned] at within
      by_cases four : 4 ≤ left.length
      · have longer : ¬ 4 + announced left ≤ left.length := fun enough => beyond ⟨four, enough⟩
        have announces := toRead.rInt_announced four
        refine absurd within (NetMessage.rRawBlock_not_within (by omega) ?_)
        rw [NetMessage.skip_m_curPos]
        omega
      · -- The length itself goes on beyond the payload.
        by_cases none_ : message.rInt.1.toInt ≤ 0
        · intro inside
          rw [moved, NetMessage.rRaw, if_pos none_] at inside
          have high : message.m_curPos + 4 ≤ message.m_headSize + message.m_size := inside.2
          omega
        · refine absurd within (NetMessage.rRawBlock_not_within (not_le.mp none_) ?_)
          rw [NetMessage.skip_m_curPos]
          omega

/-- The whole sequence stays in the payload exactly if it fits. -/
theorem NetMessage.LeftToRead.readsInside_iff_allFit (toRead : message.LeftToRead left)
    (reads : List BlockRead) : message.ReadsInside reads ↔ BlockRead.AllFit left reads := by
  induction reads generalizing message left with
  | nil => exact iff_of_true toRead.cursorInside trivial
  | cons read reads ih =>
      by_cases fits : read.Fits left
      · obtain ⟨within, rest⟩ := fits.step toRead
        constructor
        · exact fun inside => ⟨fits, (ih rest).mp inside.2.2⟩
        · exact fun all => ⟨toRead.cursorInside, within, (ih rest).mpr all.2⟩
      · apply iff_of_false
        · exact fun inside =>
            BlockRead.not_inside_of_not_fits fits toRead inside.2.1 inside.2.2.cursorInside
        · exact fun all => fits all.1

/-- **What may be read.** Of a message that a receiver made of a frame, any calls
return blocks of its payload and keep the cursor in it exactly if each of them asks
for nothing beyond what is left of the payload. -/
theorem NetMessage.readsInside_iff (decoded : message.DecodedAs frame) (reads : List BlockRead) :
    message.ResetForRead.ReadsInside reads ↔ BlockRead.AllFit frame.payload reads :=
  decoded.leftToRead.2.readsInside_iff_allFit reads

theorem NetMessage.readsInside_of_shortReceived :
    shortReceived.ResetForRead.ReadsInside [.ReadRaw 1, .rRaw 0] ↔
      BlockRead.AllFit [65] [.ReadRaw 1, .rRaw 0] := by
  exact readsInside_iff (.loaded receivedAs_shortReceived) [.ReadRaw 1, .rRaw 0]

/-- Of the payload `A` two bytes are read. -/
theorem NetMessage.not_readsInside_of_long_read :
    ¬ ∀ (frame : Frame) (message : NetMessage) (reads : List BlockRead),
      message.DecodedAs frame → message.ResetForRead.ReadsInside reads := by
  intro claimed
  have decoded : shortReceived.DecodedAs (.short [65]) := .loaded receivedAs_shortReceived
  have inside := claimed _ _ [.ReadRaw 2] decoded
  have left := decoded.leftToRead.2
  have all := (left.readsInside_iff_allFit [.ReadRaw 2]).mp inside
  have enough : (2 : Int32).toInt ≤ ([65] : List UInt8).length := all.1.2
  exact absurd enough (by decide)

end EngSocket
