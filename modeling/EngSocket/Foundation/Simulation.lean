import EngSocket.Foundation.Machine
import Mathlib.Logic.Function.Basic

/-!
# Simulation

A machine simulates another one if every step of the first is a run of the second
on what is visible of the step (`Foundation.Simulation`). What is visible of a whole
run is then a run of the second machine (`Foundation.Simulation.run`), so that
whatever the second one never does the first one never shows.

`Foundation.Machine.family` runs independent copies of one machine, and a run of the
family is a run of each copy on the events which are for it.
-/

namespace Foundation

namespace Machine

variable {State Event Action : Type*} (M : Machine State Event)

/-- What is visible of a run. -/
def observe (visible : State → Event → List Action) (state : State) (events : List Event) :
    List Action :=
  M.watch (fun actions state event => actions ++ visible state event) [] state events

variable {M} in
/-- What was visible before stays in front. -/
theorem watch_append_visible {visible : State → Event → List Action} (before : List Action)
    (state : State) (events : List Event) :
    M.watch (fun actions state event => actions ++ visible state event) before state events =
      before ++ M.observe visible state events := by
  unfold observe
  induction events generalizing before state with
  | nil => exact (List.append_nil before).symm
  | cons event events ih =>
      cases stepped : M.step state event with
      | none =>
          simp only [watch, stepped, List.append_nil]
      | some next =>
          rw [watch_cons_of_step stepped, watch_cons_of_step stepped, ih, ih ([] ++ _),
            List.nil_append, List.append_assoc]

variable {M} in
theorem observe_cons_of_step {visible : State → Event → List Action} {state next : State}
    {event : Event} {events : List Event} (stepped : M.step state event = some next) :
    M.observe visible state (event :: events) =
      visible state event ++ M.observe visible next events := by
  rw [observe, watch_cons_of_step stepped, List.nil_append, watch_append_visible]

variable {M} in
theorem observe_append {visible : State → Event → List Action} {state middle : State}
    {first : List Event} (second : List Event) (reached : M.run state first = some middle) :
    M.observe visible state (first ++ second) =
      M.observe visible state first ++ M.observe visible middle second := by
  induction first generalizing state with
  | nil =>
      cases reached
      rfl
  | cons event first ih =>
      obtain ⟨next, stepped, rest⟩ := run_cons_eq_some.mp reached
      rw [List.cons_append, observe_cons_of_step stepped, observe_cons_of_step stepped, ih rest,
        List.append_assoc]

/-- What is left out of what is visible is left out of every step. -/
theorem observe_filter (keep : Action → Bool) (visible : State → Event → List Action)
    (state : State) (events : List Event) :
    M.observe (fun state event => (visible state event).filter keep) state events =
      (M.observe visible state events).filter keep := by
  induction events generalizing state with
  | nil => rfl
  | cons event events ih =>
      cases stepped : M.step state event with
      | none => simp only [observe, watch, stepped, List.filter_nil]
      | some next =>
          rw [observe_cons_of_step stepped, observe_cons_of_step stepped, ih, List.filter_append]

/-- Copies of a machine, one for each index, that take their events independently. -/
def family {Index : Type*} [DecidableEq Index] : Machine (Index → State) (Index × Event) where
  step states event :=
    (M.step (states event.1) event.2).map fun next => Function.update states event.1 next

variable {M}

/-- The events for one of the copies. -/
def eventsOf {Index : Type*} [DecidableEq Index] (index : Index) (events : List (Index × Event)) :
    List Event :=
  (events.filter fun event => event.1 = index).map Prod.snd

theorem eventsOf_append {Index : Type*} [DecidableEq Index] (index : Index)
    (first second : List (Index × Event)) :
    eventsOf index (first ++ second) = eventsOf index first ++ eventsOf index second := by
  rw [eventsOf, List.filter_append, List.map_append]
  rfl

/-- **A run of a family** is a run of each of its copies. -/
theorem run_family {Index : Type*} [DecidableEq Index] {states final : Index → State}
    {events : List (Index × Event)} (reached : M.family.run states events = some final)
    (index : Index) : M.run (states index) (eventsOf index events) = some (final index) := by
  induction events generalizing states with
  | nil =>
      cases reached
      rfl
  | cons event events ih =>
      obtain ⟨next, stepped, rest⟩ := run_cons_eq_some.mp reached
      obtain ⟨after, taken, rfl⟩ := Option.map_eq_some_iff.mp stepped
      have later := ih rest
      obtain ⟨other, event⟩ := event
      by_cases here : other = index
      · subst here
        rw [Function.update_self] at later
        have first : eventsOf other ((other, event) :: events) =
            event :: eventsOf other events := by
          simp only [eventsOf, List.filter_cons, decide_true, ↓reduceIte, List.map_cons]
        rw [first, run_cons, taken, Option.bind_some, later]
      · rw [Function.update_of_ne (Ne.symm here)] at later
        have none_ : eventsOf index ((other, event) :: events) = eventsOf index events := by
          simp only [eventsOf, List.filter_cons, here, decide_false, Bool.false_eq_true,
            ↓reduceIte]
        rw [none_, later]

/-- Events for one copy move that one alone. -/
theorem run_family_map {Index : Type*} [DecidableEq Index] {states : Index → State} {index : Index}
    {events : List Event} {after : State} (reached : M.run (states index) events = some after) :
    M.family.run states (events.map fun event => (index, event)) =
      some (Function.update states index after) := by
  induction events generalizing states with
  | nil =>
      cases reached
      rw [Function.update_eq_self]
      rfl
  | cons event events ih =>
      obtain ⟨next, stepped, rest⟩ := run_cons_eq_some.mp reached
      have later := @ih (Function.update states index next) (by rwa [Function.update_self])
      rw [Function.update_idem] at later
      have first : M.family.step states (index, event) =
          some (Function.update states index next) := by
        simp only [family, stepped, Option.map_some]
      rw [List.map_cons, run_cons, first]
      exact later

end Machine

/-- Every step that meets the condition is a run of the other machine on what is visible
of it, from related states to related states. -/
def Simulation {State Event Spec Action : Type*} (concrete : Machine State Event)
    (abstract : Machine Spec Action) (condition : State → Event → Prop)
    (visible : State → Event → List Action) (related : State → Spec → Prop) : Prop :=
  ∀ state spec event next, condition state event → related state spec →
    concrete.step state event = some next →
      ∃ after, abstract.run spec (visible state event) = some after ∧ related next after

namespace Simulation

variable {State Event Spec Action : Type*} {concrete : Machine State Event}
  {abstract : Machine Spec Action} {condition : State → Event → Prop}
  {visible : State → Event → List Action} {related : State → Spec → Prop}

/-- **What is visible of a run** is a run of the other machine. -/
theorem run (simulation : Simulation concrete abstract condition visible related)
    {state final : State} {spec : Spec} {events : List Event}
    (meets : concrete.Meets condition state events)
    (reached : concrete.run state events = some final) (start : related state spec) :
    ∃ after, abstract.run spec (concrete.observe visible state events) = some after ∧
      related final after := by
  refine Machine.invariant (fun actions state event => actions ++ visible state event)
    (fun actions state => ∃ after, abstract.run spec actions = some after ∧ related state after)
    ?_ [] meets reached ⟨spec, rfl, start⟩
  rintro actions state event next allowed ⟨middle, shown, holds⟩ stepped
  obtain ⟨after, ran, holds⟩ := simulation state middle event next allowed holds stepped
  refine ⟨after, ?_, holds⟩
  rw [Machine.run_append, shown, Option.bind_some, ran]

end Simulation

end Foundation
