import EngSocket.Message.Typed
import EngSocket.Transmission.Queue

/-!
# Nothing stale goes out

A buffer comes back from the pool with the bytes of its last message, and
`beginForWrite` resets nothing but the cursor. What is sent for a message is
nevertheless the frame of what was written into it
(`EngSocket.NetMessage.Finished.sends`), so that two messages in which the same
values were written go out alike, whatever they and their buffers were before
(`EngSocket.NetMessage.writeValues_alike`).
-/

namespace EngSocket

open Foundation

namespace NetMessage

variable {message : NetMessage}

theorem Finished.layout {payload : List UInt8} (finished : Finished payload message) :
    message.Layout := by
  have header := finished.headSize_eq
  have ranged := finished.roomy.ranged
  have nonempty : 0 < ((Frame.of payload).marker ++ (Frame.of payload).item.head).length := by
    apply List.length_pos_of_ne_nil
    cases Frame.of payload <;> exact List.cons_ne_nil _ _
  unfold MemBuffer.Ranged at ranged
  obtain ⟨-, size, start, -, -, room, -⟩ := finished
  exact ⟨start, by omega, by omega, by omega⟩

/-- What `Update` sends of a finished message is the frame of its payload. -/
theorem Finished.sends {payload : List UInt8} (finished : Finished payload message) :
    message.ResetForSend.getSendCap = (Frame.of payload).bytes.length ∧
      message.ResetForSend.parcel = { gone := [], left := (Frame.of payload).bytes } := by
  obtain ⟨-, reset, -⟩ := finished.layout.ResetForSend
  rw [finished.wire] at reset
  refine ⟨?_, reset⟩
  have cap := finished.layout.ResetForSend.1.getSendCap_eq
  have header := finished.headSize_eq
  have size := finished.size
  rw [Frame.bytes, Frame.payload_of, ← List.append_assoc, List.length_append, cap]
  change message.m_bufStartPos + message.m_headSize + message.m_size - message.m_bufStartPos = _
  omega

/-- **What goes out is what was written.** Two messages in which the same values
were written have the same size and header, and what `Update` sends of them is the
same. -/
theorem writeValues_alike (values : List Value) {first second : NetMessage} {here there : Process}
    (roomy : first.m_buffer.Roomy) (roomy' : second.m_buffer.Roomy)
    (bounded : (values.flatMap Value.bytes).length ≤ 1073741824 - 6)
    (generous : here.Generous) (generous' : there.Generous) :
    ∃ one other left left',
      first.writeValues values here = .ok (one, left) ∧
        second.writeValues values there = .ok (other, left') ∧
          one.getSize = other.getSize ∧ one.m_headSize = other.m_headSize ∧
            one.ResetForSend.getSendCap = other.ResetForSend.getSendCap ∧
              one.ResetForSend.parcel.left = other.ResetForSend.parcel.left := by
  obtain ⟨one, requests, written, finished⟩ := writeValues_eq values roomy bounded generous
  obtain ⟨other, requests', written', finished'⟩ := writeValues_eq values roomy' bounded generous'
  have sends := finished.sends
  have sends' := finished'.sends
  refine ⟨one, other, _, _, written, written', ?_, ?_, ?_, ?_⟩
  · exact finished.size.trans finished'.size.symm
  · exact finished.headSize_eq.trans finished'.headSize_eq.symm
  · exact sends.1.trans sends'.1.symm
  · rw [sends.2, sends'.2]

/-- A message that was being received, in a buffer with an odd capacity. -/
def midway : NetMessage where
  address := 7
  m_size := -2
  m_headSize := 4
  m_bufStartPos := 0
  m_curPos := 3
  m_buffer := { address := 5, m_size := 700, m_buf := fun _ => 0xAA }

theorem writeValues_alike_midway :
    ∃ one other left left',
      (new 512 .fresh).1.writeValues [.int (-2), .string [65]] (new 512 .fresh).2 =
          .ok (one, left) ∧
        midway.writeValues [.int (-2), .string [65]] .fresh = .ok (other, left') ∧
          one.getSize = other.getSize ∧ one.m_headSize = other.m_headSize ∧
            one.ResetForSend.getSendCap = other.ResetForSend.getSendCap ∧
              one.ResetForSend.parcel.left = other.ResetForSend.parcel.left := by
  have generous : Process.fresh.Generous := fun _ => rfl
  obtain ⟨sound, generous'⟩ := new_sound generous (fun _ none_ => absurd none_ List.not_mem_nil)
  have roomy : midway.m_buffer.Roomy := ⟨by decide, by decide⟩
  exact writeValues_alike [.int (-2), .string [65]] sound.roomy roomy (by decide) generous' generous

end NetMessage

end EngSocket
