import EngSocket.Foundation.Machine
import Mathlib.Algebra.BigOperators.Group.List.Basic
import Mathlib.Algebra.Group.Units.Basic
import Mathlib.Algebra.Order.Group.Multiset
import Mathlib.Data.Multiset.Filter
import Mathlib.Data.Multiset.OrderedMonoid
import Mathlib.Data.Multiset.Range

/-!
# Ledgers of objects and their parts

A ledger counts objects, each of which uses one part. An object that was issued is
live or retired, a part that was minted is used by a live object or spare, and each
exactly once (`Foundation.Ledger.Sound`). Minting a part, creating an object from a
spare part and retiring an object keep a ledger sound. Whatever holds live objects
without overlap holds none twice and none that was retired.
-/

namespace Foundation

/-- Live objects with the part that each uses, retired objects, and spare parts. -/
structure Ledger (Key Part : Type*) where
  live : Multiset (Key × Part)
  retired : Multiset Key
  spare : Multiset Part

namespace Ledger

variable {Key Part : Type*}

/-- All that was issued and minted is accounted for exactly once. -/
structure Sound (issued : Multiset Key) (minted : Multiset Part) (ledger : Ledger Key Part) :
    Prop where
  keys : ledger.live.map Prod.fst + ledger.retired = issued
  parts : ledger.live.map Prod.snd + ledger.spare = minted
  issued : issued.Nodup
  minted : minted.Nodup

variable {ledger : Ledger Key Part} {issued : Multiset Key} {minted : Multiset Part}
  {key : Key} {part : Part}

theorem sound_empty : Sound 0 0 ({ live := 0, retired := 0, spare := 0 } : Ledger Key Part) :=
  ⟨rfl, rfl, Multiset.nodup_zero, Multiset.nodup_zero⟩

/-- A new part is spare. -/
theorem Sound.mint (sound : ledger.Sound issued minted) (new : part ∉ minted) :
    Sound issued (part ::ₘ minted) { ledger with spare := part ::ₘ ledger.spare } where
  keys := sound.keys
  parts := by
    rw [← sound.parts, Multiset.add_cons]
  issued := sound.issued
  minted := Multiset.nodup_cons.mpr ⟨new, sound.minted⟩

/-- A new object takes a spare part. -/
theorem Sound.create {spare : Multiset Part} (sound : ledger.Sound issued minted)
    (new : key ∉ issued) (taken : ledger.spare = part ::ₘ spare) :
    Sound (key ::ₘ issued) minted
      { ledger with live := (key, part) ::ₘ ledger.live, spare := spare } where
  keys := by
    rw [← sound.keys, Multiset.map_cons, Multiset.cons_add]
  parts := by
    rw [← sound.parts, taken, Multiset.map_cons, Multiset.cons_add, Multiset.add_cons]
  issued := Multiset.nodup_cons.mpr ⟨new, sound.issued⟩
  minted := sound.minted

theorem Sound.keys_nodup (sound : ledger.Sound issued minted) :
    (ledger.live.map Prod.fst + ledger.retired).Nodup := sound.keys.symm ▸ sound.issued

theorem Sound.parts_nodup (sound : ledger.Sound issued minted) :
    (ledger.live.map Prod.snd + ledger.spare).Nodup := sound.parts.symm ▸ sound.minted

theorem Sound.live_nodup (sound : ledger.Sound issued minted) :
    (ledger.live.map Prod.fst).Nodup := (Multiset.nodup_add.mp sound.keys_nodup).1

/-- Filtering a live object out leaves the others. -/
theorem Sound.filter_live [DecidableEq Key] (sound : ledger.Sound issued minted)
    {rest : Multiset (Key × Part)} (owned : ledger.live = (key, part) ::ₘ rest) :
    ledger.live.filter (fun entry => entry.1 ≠ key) = rest := by
  have unique := sound.live_nodup
  rw [owned, Multiset.map_cons, Multiset.nodup_cons] at unique
  have gone : ¬ ((key, part) : Key × Part).1 ≠ key := fun differ => differ rfl
  rw [owned, Multiset.filter_cons_of_neg rest gone]
  apply Multiset.filter_eq_self.mpr
  intro entry member same
  have twice := Multiset.mem_map_of_mem Prod.fst member
  rw [same] at twice
  exact unique.1 twice

/-- A live object is retired, and its part is spare again. -/
theorem Sound.retire [DecidableEq Key] (sound : ledger.Sound issued minted)
    {rest : Multiset (Key × Part)} (owned : ledger.live = (key, part) ::ₘ rest) :
    Sound issued minted
      { live := ledger.live.filter fun entry => entry.1 ≠ key
        retired := key ::ₘ ledger.retired
        spare := part ::ₘ ledger.spare } where
  keys := by
    rw [sound.filter_live owned, ← sound.keys, owned, Multiset.map_cons, Multiset.cons_add,
      Multiset.add_cons]
  parts := by
    rw [sound.filter_live owned, ← sound.parts, owned, Multiset.map_cons, Multiset.cons_add,
      Multiset.add_cons]
  issued := sound.issued
  minted := sound.minted

/-! ## Holders -/

variable {held leaked : Multiset (Key × Part)}

/-- What is held without overlap is held once. -/
theorem Sound.held_nodup (sound : ledger.Sound issued minted)
    (split : ledger.live = held + leaked) : (held.map Prod.fst).Nodup := by
  have unique := sound.live_nodup
  rw [split, Multiset.map_add] at unique
  exact (Multiset.nodup_add.mp unique).1

/-- Everything live is held exactly if nothing has leaked. -/
theorem Sound.forall_held_iff (sound : ledger.Sound issued minted)
    (split : ledger.live = held + leaked) : (∀ entry ∈ ledger.live, entry ∈ held) ↔ leaked = 0 := by
  constructor
  · intro kept
    apply Multiset.eq_zero_of_forall_notMem
    intro entry member
    have unique := Multiset.Nodup.of_map Prod.fst sound.live_nodup
    have live : entry ∈ ledger.live := by
      rw [split]
      exact Multiset.mem_add.mpr (Or.inr member)
    rw [split] at unique
    exact Multiset.disjoint_left.mp (Multiset.nodup_add.mp unique).2.2 (kept entry live) member
  · rintro rfl entry member
    rwa [split, add_zero] at member

end Ledger

/-! ## Runs -/

/-- What a run leaks is nothing exactly if none of its steps leaks. -/
theorem watch_eq_zero_iff {State Event Thing : Type*} {M : Machine State Event}
    (leak : State → Event → Multiset Thing) {leaked : Multiset Thing} {state final : State}
    {events : List Event} (reached : M.run state events = some final) :
    M.watch (fun leaked state event => leak state event + leaked) leaked state events = 0 ↔
      leaked = 0 ∧ M.Meets (fun state event => leak state event = 0) state events := by
  induction events generalizing leaked state with
  | nil => exact ⟨fun none_ => ⟨none_, trivial⟩, And.left⟩
  | cons event events ih =>
      obtain ⟨next, stepped, rest⟩ := Machine.run_cons_eq_some.mp reached
      rw [Machine.watch_cons_of_step stepped, Machine.meets_cons_of_step stepped, ih rest,
        AddLeftCancelMonoid.add_eq_zero, and_assoc, and_left_comm]

/-! ## Places -/

/-- The contents of a list of places are those of one place and the rest, also
after that place was filled anew. -/
theorem sum_map_besides {Place Thing : Type*} (contents : Place → Multiset Thing)
    {places : List Place} {index : Nat} {place : Place} (here : places[index]? = some place) :
    ∃ rest, (places.map contents).sum = contents place + rest ∧
      ∀ other, ((places.set index other).map contents).sum = contents other + rest := by
  obtain ⟨inside, rfl⟩ := List.getElem?_eq_some_iff.mp here
  refine ⟨((places.eraseIdx index).map contents).sum, ?_, fun other => ?_⟩
  · rw [← List.sum_cons, ← List.map_cons]
    exact ((List.getElem_cons_eraseIdx_perm inside).symm.map contents).sum_eq
  · rw [← List.sum_cons, ← List.map_cons]
    exact ((List.set_perm_cons_eraseIdx inside other).map contents).sum_eq

end Foundation
