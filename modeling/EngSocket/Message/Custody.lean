import EngSocket.Foundation.Ledger
import EngSocket.Message.NetMessage

/-!
# Messages and buffers as a ledger

The messages of a process with their buffers and the pool make a ledger
(`EngSocket.Process.ledger`) in which every address given out by `new` is accounted
for exactly once. `require`, the constructor and the destructor of `NetMessage`
keep it so (`EngSocket.Process.Accounts`).
-/

namespace EngSocket

open Foundation

/-- A message and its buffer by their addresses. -/
def NetMessage.entry (message : NetMessage) : Nat × Nat :=
  (message.address, message.m_buffer.address)

def NetMessage.entries (messages : List NetMessage) : Multiset (Nat × Nat) :=
  (messages.map NetMessage.entry : Multiset (Nat × Nat))

namespace Process

variable {process : Process}

/-- The live and the deleted messages, and the buffers in the pool. -/
def ledger (process : Process) : Ledger Nat Nat where
  live := process.live
  retired := process.deleted
  spare := (process.m_pool.map MemBuffer.address : List Nat)

/-- Every message and every buffer ever made is accounted for exactly once. -/
def Accounts (process : Process) : Prop :=
  process.ledger.Sound (Multiset.range process.nextMessage) (Multiset.range process.nextBuffer)

theorem accounts_initial (grants : Nat → Bool) (junk : Nat → Memory UInt8) :
    (initial grants junk).Accounts := Ledger.sound_empty

/-! ## The pool -/

/-- The process with a buffer put back in front of its pool. -/
def returned (buffer : MemBuffer) (process : Process) : Process :=
  { process with m_pool := buffer :: process.m_pool }

/-- The order of the pool does not matter. -/
theorem Accounts.of_perm {after : Process} (accounts : process.Accounts)
    (same : process.SameObjects after) (buffers : after.nextBuffer = process.nextBuffer)
    (pool : after.m_pool.Perm process.m_pool) : after.Accounts := by
  have spare : (after.m_pool.map MemBuffer.address : Multiset Nat) =
      (process.m_pool.map MemBuffer.address : List Nat) :=
    Multiset.coe_eq_coe.mpr (pool.map MemBuffer.address)
  unfold Accounts ledger
  rw [same.live, same.deleted, same.nextMessage, buffers, spare]
  exact accounts

/-- A new buffer, put in the pool. -/
theorem Accounts.newMemBuffer (accounts : process.Accounts) (size : Int) :
    ((process.newMemBuffer size).2.returned (process.newMemBuffer size).1).Accounts := by
  have minted := Ledger.Sound.mint accounts (Multiset.notMem_range_self (n := process.nextBuffer))
  rw [← Multiset.range_succ] at minted
  have address : (process.newMemBuffer size).1.address = process.nextBuffer :=
    newMemBuffer_address size process
  rw [newMemBuffer_process]
  unfold Accounts ledger returned
  rw [List.map_cons, address]
  exact minted

theorem Accounts.pushNew (accounts : process.Accounts) (size : Int) :
    (process.pushNew size).Accounts :=
  (accounts.newMemBuffer size).of_perm ⟨rfl, rfl, rfl, rfl⟩ rfl (List.perm_append_singleton _ _)

theorem Accounts.Init (accounts : process.Accounts) : process.Init.Accounts := by
  unfold Process.Init
  generalize List.replicate 5 (512 : Int) ++ List.replicate 5 1024 ++ [65536] = sizes
  induction sizes generalizing process with
  | nil => exact accounts
  | cons size sizes ih => exact ih (accounts.pushNew size)

/-- The buffer that `require` hands out was in the pool or is new. -/
theorem Accounts.require (accounts : process.Accounts) (size : Int) :
    ((process.require size).2.returned (process.require size).1).Accounts := by
  unfold Process.require
  extract_lets filled
  have accounts : filled.Accounts := by
    by_cases empty : process.m_pool.isEmpty
    · rw [show filled = process.Init from if_pos empty]
      exact accounts.Init
    · rw [show filled = process from if_neg empty]
      exact accounts
  split
  · split
    · next buffer pool front =>
        refine accounts.of_perm ⟨rfl, rfl, rfl, rfl⟩ rfl ?_
        change (buffer :: pool).Perm filled.m_pool
        rw [front]
    · exact accounts.newMemBuffer size
  · split
    · next buffer found =>
        refine accounts.of_perm ⟨rfl, rfl, rfl, rfl⟩ rfl ?_
        obtain ⟨fits, older, newer, split_, misfits⟩ := List.find?_eq_some_iff_append.mp found
        change (buffer :: filled.m_pool.eraseP _).Perm filled.m_pool
        have passed : ∀ other ∈ older, ¬ decide (size ≤ other.m_size) = true :=
          fun other member => by simpa using misfits other member
        rw [split_, List.eraseP_append_right _ passed]
        simp only [List.eraseP_cons, fits, cond_true]
        exact List.perm_middle.symm
    · exact accounts.newMemBuffer size

/-- A buffer taken out of the pool becomes that of a new message. -/
theorem Accounts.construct {buffer : MemBuffer} (drawn : (process.returned buffer).Accounts) :
    Accounts { process with
        nextMessage := process.nextMessage + 1
        live := process.live ++ [(process.nextMessage, buffer.address)] } ∧
      ((process.live ++ [(process.nextMessage, buffer.address)] : List (Nat × Nat)) :
        Multiset (Nat × Nat)) = (process.nextMessage, buffer.address) ::ₘ process.live := by
  have live : ((process.live ++ [(process.nextMessage, buffer.address)] : List (Nat × Nat)) :
      Multiset (Nat × Nat)) = (process.nextMessage, buffer.address) ::ₘ process.live :=
    Multiset.coe_eq_coe.mpr (List.perm_append_singleton _ _)
  have taken : (process.returned buffer).ledger.spare = buffer.address ::ₘ process.ledger.spare :=
    rfl
  have created := Ledger.Sound.create drawn
    (Multiset.notMem_range_self (n := process.nextMessage)) taken
  refine ⟨?_, live⟩
  unfold Accounts ledger
  rw [live, Multiset.range_succ]
  exact created

end Process

/-! ## Construction and destruction -/

namespace NetMessage

variable {process : Process}

/-- A new message is live with a buffer of its own. -/
theorem new_accounts (accounts : process.Accounts) (size : Int) :
    (new size process).2.Accounts ∧
      ((new size process).2.live : Multiset (Nat × Nat)) =
        (new size process).1.entry ::ₘ (process.live : Multiset (Nat × Nat)) := by
  rw [← (process.require_same size).live]
  exact (accounts.require size).construct

/-- Deleting a live message retires it and gives its buffer back. -/
theorem delete_accounts {message : NetMessage} {rest : Multiset (Nat × Nat)}
    (accounts : process.Accounts)
    (owned : (process.live : Multiset (Nat × Nat)) = message.entry ::ₘ rest) :
    (message.delete process).Accounts ∧
      ((message.delete process).live : Multiset (Nat × Nat)) = rest := by
  have retired := Ledger.Sound.retire accounts owned
  have left := Ledger.Sound.filter_live accounts owned
  have pool : ((message.delete process).m_pool.map MemBuffer.address : Multiset Nat) =
      message.m_buffer.address ::ₘ (process.m_pool.map MemBuffer.address : List Nat) :=
    Multiset.coe_eq_coe.mpr ((List.perm_orderedInsert _ message.m_buffer process.m_pool).map _)
  refine ⟨?_, left⟩
  unfold Process.Accounts Process.ledger
  rw [pool]
  exact retired

end NetMessage

end EngSocket
