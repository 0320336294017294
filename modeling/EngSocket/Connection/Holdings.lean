import EngSocket.Connection.Soundness
import EngSocket.Message.Custody

/-!
# What a manager holds

A manager holds the messages in its two lists; all other live messages belong to
somebody else. Whatever a manager does on its own, it makes and deletes no
messages but those it holds (`EngSocket.Control.Holds.step`).
-/

namespace EngSocket

open Foundation

namespace NetMessage

@[simp] theorem entries_nil : entries [] = 0 := rfl

@[simp] theorem entries_cons (message : NetMessage) (messages : List NetMessage) :
    entries (message :: messages) = message.entry ::ₘ entries messages := rfl

@[simp] theorem entries_append (first second : List NetMessage) :
    entries (first ++ second) = entries first + entries second := by
  rw [entries, List.map_append, ← Multiset.coe_add]
  rfl

/-- A method that keeps a message and its buffer keeps its entry. -/
theorem Keeps.entry {before after : NetMessage} {process left : Process}
    (kept : before.Keeps process after left) : after.entry = before.entry := by
  unfold NetMessage.entry
  rw [kept.address, kept.buffer]

end NetMessage

open NetMessage (entries)

/-- The messages that a manager holds. -/
def CConnectionManager.held (manager : CConnectionManager) : Multiset (Nat × Nat) :=
  entries manager.m_sendList + entries manager.m_recvList

/-- Every live message is held by the manager or is one of the others. -/
structure Endpoint.Holds (others : Multiset (Nat × Nat)) (endpoint : Endpoint) : Prop where
  accounts : endpoint.process.Accounts
  live : (endpoint.process.live : Multiset (Nat × Nat)) = endpoint.manager.held + others

def Control.Holds (others : Multiset (Nat × Nat)) (control : Control) : Prop :=
  control.endpoint.Holds others

namespace Endpoint

variable {endpoint : Endpoint} {others : Multiset (Nat × Nat)}

/-- A step that neither makes nor deletes a message and keeps the entries of
the lists. -/
theorem Holds.of_same {after : Endpoint} (holds : endpoint.Holds others)
    (process : ∃ descriptors requests,
      after.process = { endpoint.process with descriptors, requests })
    (held : after.manager.held = endpoint.manager.held) : after.Holds others := by
  obtain ⟨descriptors, requests, process⟩ := process
  exact
    { accounts := by rw [process]; exact holds.accounts
      live := by rw [process, held]; exact holds.live }

/-- What changes no message changes no holder. -/
theorem SameMessages.holds {after : Endpoint} (same : endpoint.SameMessages after)
    (holds : endpoint.Holds others) : after.Holds others := by
  obtain ⟨sendList, recvList, -, descriptors, process⟩ := same
  apply holds.of_same ⟨descriptors, _, process⟩
  unfold CConnectionManager.held
  rw [sendList, recvList]

/-- **A move of a manager's own** makes and deletes no messages but those it holds. -/
theorem Move.holds {event : Event} {before after : Endpoint} (move : Move event before after)
    (own : event.ofManager = true) (holds : before.Holds others) : after.Holds others := by
  cases move with
  | same same => exact same.holds holds
  | address addr port => exact holds.of_same ⟨_, _, rfl⟩ rfl
  | deleteSent front =>
      have live := holds.live
      rw [CConnectionManager.held, front, NetMessage.entries_cons, Multiset.cons_add,
        Multiset.cons_add] at live
      obtain ⟨accounts, left⟩ := NetMessage.delete_accounts holds.accounts live
      exact ⟨accounts, left⟩
  | deleteReceived front =>
      have live := holds.live
      rw [CConnectionManager.held, front, NetMessage.entries_cons, Multiset.add_cons,
        Multiset.cons_add] at live
      obtain ⟨accounts, left⟩ := NetMessage.delete_accounts holds.accounts live
      exact ⟨accounts, left⟩
  | push =>
      obtain ⟨accounts, live⟩ := NetMessage.new_accounts holds.accounts 512
      refine ⟨accounts, live.trans ?_⟩
      rw [holds.live]
      change _ = entries before.manager.m_sendList +
        entries (before.manager.m_recvList ++ [(NetMessage.new 512 before.process).1]) + others
      rw [NetMessage.entries_append, NetMessage.entries_cons, NetMessage.entries_nil,
        Multiset.add_cons, Multiset.add_cons, Multiset.cons_add, add_zero]
      rfl
  | sent sizeSended called some_ front =>
      refine holds.of_same ⟨_, _, rfl⟩ ?_
      unfold CConnectionManager.held
      rw [front]
      rfl
  | @received message filled after older process bytes called nonempty back incomplete stored
      received =>
      have kept := NetMessage.received_keeps stored received
      obtain ⟨requests, rfl⟩ := kept.requests
      refine holds.of_same ⟨_, requests, rfl⟩ ?_
      change entries before.manager.m_sendList + entries (older ++ [after]) =
        entries before.manager.m_sendList + entries before.manager.m_recvList
      rw [back, NetMessage.entries_append, NetMessage.entries_append, NetMessage.entries_cons,
        NetMessage.entries_cons, kept.entry]
  | load called front =>
      rw [called] at own
      cases own
  | queue message called =>
      rw [called] at own
      cases own

/-- `CloseConnection` deletes what the manager holds, and nothing else. -/
theorem Holds.CloseConnection (holds : endpoint.Holds others) :
    endpoint.CloseConnection.Holds others :=
  (endpoint.CloseConnection_moves : endpoint.Moves .CloseConnection _).keep
    (fun _ _ move => move.holds rfl) holds

end Endpoint

/-- **A manager's own doings** leave the messages of others alone. -/
theorem Control.Holds.step {control next : Control} {event : Event}
    {others : Multiset (Nat × Nat)} (holds : control.Holds others) (armed : control.Armed)
    (own : event.ofManager = true)
    (stepped : Endpoint.machine.step control event = some next) : next.Holds others :=
  (Control.moves armed stepped).keep (fun _ _ move => move.holds own) holds

end EngSocket
