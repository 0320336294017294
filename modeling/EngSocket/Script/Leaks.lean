import EngSocket.Script.Ownership

/-!
# Lost messages

A message that was created and not deleted can be lost in one way: a `LoadMsg` or
`CreateNewMessage` on a `CLuaMsg` that has a message already. `~CLuaMsg` deletes the
message it has and `SendMsg` clears the pointer it hands over, but these two assign
to it as it is. A run loses nothing exactly if none of its steps does this.
-/

namespace EngSocket

open Foundation

open NetMessage (entries)

namespace World

/-- Every message that is live has a holder, and every buffer is back in the pool
when nobody holds a message. -/
structure NothingLost (world : World) : Prop where
  held : ∀ entry ∈ world.process.live, entry ∈ world.messages.map NetMessage.entry
  returned : world.messages = [] →
    ∀ address < world.process.nextBuffer, address ∈ world.process.m_pool.map MemBuffer.address

/-- The event overwrites no pointer to a message. -/
def Spares (world : World) (event : WorldEvent) : Prop := world.overwritten event = []

instance (world : World) (event : WorldEvent) : Decidable (world.Spares event) :=
  inferInstanceAs (Decidable (world.overwritten event = []))

variable {world : World} {leaked : Multiset (Nat × Nat)}

theorem Owned.leaked_eq_zero_iff (owned : world.Owned leaked) : leaked = 0 ↔ world.NothingLost := by
  have everywhere : (∀ entry ∈ world.process.live, entry ∈ world.messages.map NetMessage.entry) ↔
      leaked = 0 := by
    have held := Ledger.Sound.forall_held_iff owned.accounts owned.live
    rw [← entries_messages] at held
    exact held
  refine ⟨fun none_ => ⟨everywhere.mpr none_, ?_⟩, fun kept => everywhere.mp kept.held⟩
  intro empty address minted
  have live := owned.live
  rw [← entries_messages, empty, none_] at live
  have pool : (world.process.m_pool.map MemBuffer.address : Multiset Nat) =
      Multiset.range world.process.nextBuffer := by
    have parts := owned.accounts.parts
    change (world.process.live : Multiset (Nat × Nat)).map Prod.snd + _ = _ at parts
    rw [live] at parts
    exact (zero_add _).symm.trans parts
  rw [← Multiset.mem_coe, pool]
  exact Multiset.mem_range.mpr minted

/-- **A run loses nothing** exactly if it overwrites no pointer to a message. -/
theorem nothingLost_iff (grants : Nat → Bool) (junk : Nat → Memory UInt8)
    {events : List WorldEvent} (reached : machine.run (initial grants junk) events = some world) :
    world.NothingLost ↔ machine.Meets Spares (initial grants junk) events := by
  have spares (world : World) (event : WorldEvent) :
      entries (world.overwritten event) = 0 ↔ world.Spares event := by
    unfold entries Spares
    rw [Multiset.coe_eq_zero, List.map_eq_nil_iff]
  rw [← (owned_of_run grants junk reached).leaked_eq_zero_iff]
  refine (watch_eq_zero_iff (fun world event => entries (world.overwritten event)) reached).trans ?_
  constructor
  · rintro ⟨-, meets⟩
    exact meets.mono fun world event => (spares world event).mp
  · intro meets
    exact ⟨rfl, meets.mono fun world event => (spares world event).mpr⟩

theorem nothingLost_of_destroyed :
    ∃ world, machine.run (initial (fun _ => true) fun _ _ => 0)
        [.newLuaMsg, .CreateNewMessage 0, .gcLuaMsg 0] = some world ∧ world.NothingLost := by
  have ran : ((machine.run (initial (fun _ => true) fun _ _ => 0)
      [.newLuaMsg, .CreateNewMessage 0, .gcLuaMsg 0]).map addresses).isSome := by decide +kernel
  rw [Option.isSome_map] at ran
  obtain ⟨world, reached⟩ := Option.isSome_iff_exists.mp ran
  exact ⟨world, reached, (nothingLost_iff _ _ reached).mpr (by decide +kernel)⟩

/-- The second `CreateNewMessage` on one `CLuaMsg` loses the message of the first. -/
theorem not_nothingLost_of_overwritten :
    ¬ ∀ (grants : Nat → Bool) (junk : Nat → Memory UInt8) (events : List WorldEvent)
        (world : World),
      machine.run (initial grants junk) events = some world → world.NothingLost := by
  intro claimed
  have ran : (machine.run (initial (fun _ => true) fun _ _ => 0)
      [.newLuaMsg, .CreateNewMessage 0, .CreateNewMessage 0]).map addresses =
        some ([1], [(0, 0), (1, 1)], [], [2, 3, 4, 5, 6, 7, 8, 9, 10]) := by decide +kernel
  obtain ⟨world, reached, seen⟩ := Option.map_eq_some_iff.mp ran
  have live : (0, 0) ∈ world.process.live := by
    rw [show world.process.live = [(0, 0), (1, 1)] from congrArg (fun seen => seen.2.1) seen]
    decide
  obtain ⟨message, holds, same⟩ := List.mem_map.mp ((claimed _ _ _ _ reached).held _ live)
  have held : message.address ∈ world.addresses.1 := List.mem_map_of_mem holds
  rw [seen, show message.address = 0 from congrArg Prod.fst same] at held
  exact absurd held (by decide)

end World

end EngSocket
