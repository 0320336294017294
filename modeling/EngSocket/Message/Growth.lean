import EngSocket.Message.NetMessage

/-!
# Growth on demand

`checkBufSize` doubles the capacity until it meets the demand. The loop looks at
the capacity only: it does not see that a request was refused, which has left the
capacity zero, nor that no `int` holds the next double. It ends, with the buffer
as it should be, exactly if doubling reaches the demand before either happens
(`EngSocket.NetMessage.growsAtomically_iff`).
-/

namespace EngSocket

open Foundation

/-- Another buffer has the same bytes within the earlier capacity. -/
def MemBuffer.SameBytes (before after : MemBuffer) : Prop :=
  ∀ offset < before.m_size, after.m_buf offset = before.m_buf offset

namespace NetMessage

/-- `checkBufSize` ends. Either there is room for the demand and the earlier bytes
are unchanged, or the buffer is as it was. -/
def GrowsAtomically (size : Int) (message : NetMessage) (process : Process) : Prop :=
  ∃ after left, message.checkBufSize size process = .ok (after, left) ∧
    message.m_buffer.SameBytes after.m_buffer ∧
      (message.m_curPos + size ≤ after.m_buffer.m_size ∨
        after.m_buffer.m_size = message.m_buffer.m_size)

variable {message : NetMessage} {process : Process}

/-- **Growth.** For a cursor within the buffer and a demand that is an `int`. -/
theorem growsAtomically_iff {size : Int} (capacity : 512 ≤ message.m_buffer.m_size)
    (ranged : message.m_buffer.Ranged)
    (cursor : 0 ≤ message.m_curPos ∧ message.m_curPos ≤ message.m_buffer.m_size)
    (nonnegative : 0 ≤ size) (bounded : message.m_curPos + size ≤ 2147483647) :
    message.GrowsAtomically size process ↔
      message.m_buffer.Reaches (message.m_curPos + size) process := by
  have demand : int32 (message.m_curPos + size) = message.m_curPos + size :=
    int32_of_range (by omega) (by omega)
  constructor
  · rintro ⟨after, left, done, -⟩
    by_contra out
    have endless := checkBufSize_of_not_reaches (by omega) ranged (demand.symm ▸ out)
    cases done.symm.trans endless
  · intro reaches
    obtain ⟨grown, requests, done, doubled⟩ :=
      checkBufSize_of_reaches (by omega) (demand.symm ▸ reaches)
    exact ⟨_, _, done, doubled.kept, Or.inl (demand ▸ doubled.covers)⟩

theorem growsAtomically_of_fresh :
    (new 512 .fresh).1.GrowsAtomically 1000 (new 512 .fresh).2 :=
  (growsAtomically_iff (by decide) (by decide) (by decide) (by decide) (by decide)).mpr
    ⟨1, by decide, by decide, fun _ _ => rfl⟩

end NetMessage

/-- A process whose allocator grants what fills the pool and nothing after that. -/
def Process.exhausted : Process := .initial (fun request => request < 11) fun _ _ => 0

namespace NetMessage

/-- A refused request, and a demand beyond `2 ^ 30` bytes with every request granted. -/
theorem not_growsAtomically :
    let tight := new 512 .exhausted
    let ample := new 512 .fresh
    (tight.1.m_buffer.m_size = 512 ∧ tight.1.m_curPos = 0 ∧ ¬ tight.1.GrowsAtomically 513 tight.2) ∧
      ample.1.m_buffer.m_size = 512 ∧ ample.1.m_curPos = 0 ∧
        ¬ ample.1.GrowsAtomically 1073741825 ample.2 := by
  have refused : ((new 512 .exhausted).1.checkBufSize 513
      (new 512 .exhausted).2).toOption.isNone = true := by decide
  have overflows : ((new 512 .fresh).1.checkBufSize 1073741825
      (new 512 .fresh).2).toOption.isNone = true := by decide
  refine ⟨⟨by decide, rfl, ?_⟩, by decide, rfl, ?_⟩
  · rintro ⟨after, left, done, -⟩
    rw [done] at refused
    cases refused
  · rintro ⟨after, left, done, -⟩
    rw [done] at overflows
    cases overflows

end NetMessage

end EngSocket
