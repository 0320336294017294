import EngSocket.Foundation.Machine

/-!
# Goals that can be reached

From a state a goal can be reached under a condition if some run under the condition
leads there. If in every state that has a property the goal is reached already, or
some step under the condition keeps the property and lowers a measure, then it can
be reached from all of them (`Foundation.Machine.CanReach.of_measure`).
-/

namespace Foundation

namespace Machine

variable {State Event : Type*} {M : Machine State Event} {condition : State → Event → Prop}
  {goal : State → Prop} {state next : State}

/-- A run under the condition and then another one. -/
theorem Meets.append {middle : State} {first second : List Event}
    (earlier : M.Meets condition state first) (reached : M.run state first = some middle)
    (later : M.Meets condition middle second) : M.Meets condition state (first ++ second) := by
  induction first generalizing state with
  | nil =>
      cases reached
      exact later
  | cons event first ih =>
      obtain ⟨next, stepped, rest⟩ := run_cons_eq_some.mp reached
      rw [meets_cons_of_step stepped] at earlier
      rw [List.cons_append, meets_cons_of_step stepped]
      exact ⟨earlier.1, ih earlier.2 rest⟩

/-- **The refusal rule.** Where a property of the state tells which events under a
guard are taken, a run under the guard goes through exactly if all its events are. -/
theorem isSome_run_iff {guard safe : State → Event → Prop} (property : State → Prop)
    (preserved : ∀ state event next, guard state event → property state →
      M.step state event = some next → property next)
    (decides : ∀ state event, guard state event → property state →
      ((M.step state event).isSome = true ↔ safe state event))
    {events : List Event} {state : State} (meets : M.Meets guard state events)
    (holds : property state) : (M.run state events).isSome = true ↔ M.Meets safe state events := by
  induction events generalizing state with
  | nil => exact iff_of_true rfl trivial
  | cons event events ih =>
      have here := decides state event meets.1 holds
      cases stepped : M.step state event with
      | none =>
          rw [stepped] at here
          apply iff_of_false
          · rw [run_cons, stepped]
            exact Bool.false_ne_true
          · exact fun later => Bool.false_ne_true (here.mpr later.1)
      | some next =>
          rw [stepped] at here
          rw [meets_cons_of_step stepped] at meets ⊢
          rw [run_cons, stepped, Option.bind_some,
            ih meets.2 (preserved state event next meets.1 holds stepped)]
          exact (and_iff_right (here.mp rfl)).symm

/-- Some run under the condition ends in the goal. -/
def CanReach (M : Machine State Event) (condition : State → Event → Prop) (goal : State → Prop)
    (state : State) : Prop :=
  ∃ events final, M.Meets condition state events ∧ M.run state events = some final ∧ goal final

theorem CanReach.of_goal (reached : goal state) : M.CanReach condition goal state :=
  ⟨[], state, trivial, rfl, reached⟩

theorem CanReach.of_step {event : Event} (allowed : condition state event)
    (stepped : M.step state event = some next) (later : M.CanReach condition goal next) :
    M.CanReach condition goal state := by
  obtain ⟨events, final, meets, reached, goal⟩ := later
  exact ⟨event :: events, final, (meets_cons_of_step stepped).mpr ⟨allowed, meets⟩,
    run_cons_eq_some.mpr ⟨next, stepped, reached⟩, goal⟩

/-- **The progress rule.** -/
theorem CanReach.of_measure (measure : State → Nat) {property : State → Prop}
    (progress : ∀ state, property state → goal state ∨
      ∃ event next, condition state event ∧ M.step state event = some next ∧ property next ∧
        measure next < measure state) (holds : property state) :
    M.CanReach condition goal state := by
  induction left : measure state using Nat.strongRecOn generalizing state with
  | ind count ih =>
      subst left
      rcases progress state holds with reached | ⟨event, next, allowed, stepped, kept, less⟩
      · exact .of_goal reached
      · exact .of_step allowed stepped (ih _ less kept rfl)

end Machine

end Foundation
