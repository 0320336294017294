import EngSocket.Foundation.Machine
import Mathlib.Order.MinMax

/-!
# The greatest value along a run

`Foundation.Machine.peak` is the greatest value that a measure of the state takes at
any state of a run, the first and the last one included. A property of peak and state
that every step preserves holds after every run (`Foundation.Machine.peak_invariant`).
-/

namespace Foundation

namespace Machine

variable {State Event : Type*} {M : Machine State Event} {measure : State → Nat}

/-- The greatest value of a measure along the run on some events. -/
def peak (M : Machine State Event) (measure : State → Nat) : State → List Event → Nat
  | state, [] => measure state
  | state, event :: events =>
      match M.step state event with
      | some next => max (measure state) (peak M measure next events)
      | none => measure state

theorem peak_cons_of_step {state next : State} {event : Event} {events : List Event}
    (stepped : M.step state event = some next) :
    M.peak measure state (event :: events) = max (measure state) (M.peak measure next events) := by
  simp only [peak, stepped]

theorem measure_le_peak (state : State) (events : List Event) :
    measure state ≤ M.peak measure state events := by
  cases events with
  | nil => exact le_rfl
  | cons event events =>
      cases stepped : M.step state event with
      | none => simp only [peak, stepped, le_refl]
      | some next =>
          rw [peak_cons_of_step stepped]
          exact le_max_left _ _

/-- The rule, behind a beginning that has reached a value already. -/
theorem peak_invariant_from {property : Nat → State → Prop}
    (preserved : ∀ highest state event next, property highest state →
      M.step state event = some next → property (max highest (measure next)) next)
    {events : List Event} {state final : State} {highest : Nat}
    (reached : M.run state events = some final) (above : measure state ≤ highest)
    (holds : property highest state) :
    property (max highest (M.peak measure state events)) final := by
  induction events generalizing state highest with
  | nil =>
      cases reached
      rwa [peak, max_eq_left above]
  | cons event events ih =>
      obtain ⟨next, stepped, rest⟩ := run_cons_eq_some.mp reached
      have onward := ih rest (le_max_right highest (measure next))
        (preserved highest state event next holds stepped)
      rw [max_assoc, max_eq_right (measure_le_peak next events)] at onward
      rw [peak_cons_of_step stepped, ← max_assoc, max_eq_left above]
      exact onward

/-- **The peak rule.** -/
theorem peak_invariant {property : Nat → State → Prop}
    (preserved : ∀ highest state event next, property highest state →
      M.step state event = some next → property (max highest (measure next)) next)
    {events : List Event} {state final : State} (reached : M.run state events = some final)
    (holds : property (measure state) state) : property (M.peak measure state events) final := by
  have whole := peak_invariant_from preserved reached le_rfl holds
  rwa [max_eq_right (measure_le_peak state events)] at whole

end Machine

end Foundation
