import Mathlib.Data.List.Basic
import Mathlib.Data.Option.Basic

/-!
# Runs of partial machines

A machine takes an event at a state or refuses it. A run is a list of events
taken one after the other. Two things are followed beside a run: a *condition*
on every step, stated on the state before it and its event
(`Foundation.Machine.Meets`), and a *record* that an observer keeps of it
(`Foundation.Machine.watch`). The rule `Foundation.Machine.invariant` derives a
property of record and state over whole runs from what one step preserves.
-/

namespace Foundation

/-- A machine whose step is defined exactly on the events it takes. -/
structure Machine (State Event : Type*) where
  step : State → Event → Option State

namespace Machine

variable {State Event Record : Type*} (M : Machine State Event)

/-- The state after a list of events; undefined when one of them is refused. -/
def run : State → List Event → Option State
  | state, [] => some state
  | state, event :: events => (M.step state event).bind fun next => run next events

/-- Every step of the run from `state` meets a condition on the state before it
and its event. -/
def Meets (condition : State → Event → Prop) : State → List Event → Prop
  | _, [] => True
  | state, event :: events =>
      condition state event ∧
        match M.step state event with
        | some next => Meets condition next events
        | none => True

/-- The record an observer has after a run, noting the state before each step
and its event. -/
def watch (note : Record → State → Event → Record) : Record → State → List Event → Record
  | record, _, [] => record
  | record, state, event :: events =>
      match M.step state event with
      | some next => watch note (note record state event) next events
      | none => record

instance decidableMeets (condition : State → Event → Prop)
    [∀ state event, Decidable (condition state event)] :
    ∀ state events, Decidable (M.Meets condition state events)
  | _, [] => .isTrue trivial
  | state, event :: events =>
      match stepped : M.step state event with
      | none => decidable_of_iff (condition state event) (by simp only [Meets, stepped, and_true])
      | some next =>
          have := decidableMeets condition next events
          decidable_of_iff (condition state event ∧ M.Meets condition next events)
            (by simp only [Meets, stepped])

variable {M}

@[simp] theorem run_nil (state : State) : M.run state [] = some state := rfl

@[simp] theorem run_cons (state : State) (event : Event) (events : List Event) :
    M.run state (event :: events) = (M.step state event).bind fun next => M.run next events := rfl

theorem run_cons_eq_some {state final : State} {event : Event} {events : List Event} :
    M.run state (event :: events) = some final ↔
      ∃ next, M.step state event = some next ∧ M.run next events = some final := by
  rw [run_cons, Option.bind_eq_some_iff]

theorem run_append (state : State) (first second : List Event) :
    M.run state (first ++ second) = (M.run state first).bind fun middle => M.run middle second := by
  induction first generalizing state with
  | nil => rfl
  | cons event first ih =>
      rw [List.cons_append, run_cons, run_cons, Option.bind_assoc]
      exact congrArg _ (funext fun next => ih next)

@[simp] theorem meets_nil (condition : State → Event → Prop) (state : State) :
    M.Meets condition state [] := trivial

theorem meets_cons_of_step {condition : State → Event → Prop} {state next : State} {event : Event}
    {events : List Event} (stepped : M.step state event = some next) :
    M.Meets condition state (event :: events) ↔
      condition state event ∧ M.Meets condition next events := by
  simp only [Meets, stepped]

/-- What holds at every step is met by every run. -/
theorem Meets.of_forall {condition : State → Event → Prop}
    (always : ∀ state event, condition state event) (events : List Event) (state : State) :
    M.Meets condition state events := by
  induction events generalizing state with
  | nil => trivial
  | cons event events ih =>
      unfold Meets
      refine ⟨always state event, ?_⟩
      cases M.step state event with
      | none => trivial
      | some next => exact ih next

/-- A condition on the events alone is met by every run on events that have it. -/
theorem Meets.of_forall_mem {condition : Event → Prop} {events : List Event}
    (all : ∀ event ∈ events, condition event) (state : State) :
    M.Meets (fun _ event => condition event) state events := by
  induction events generalizing state with
  | nil => trivial
  | cons event events ih =>
      rw [List.forall_mem_cons] at all
      unfold Meets
      refine ⟨all.1, ?_⟩
      cases M.step state event with
      | none => trivial
      | some next => exact ih all.2 next

/-- A condition that implies another is met by fewer runs. -/
theorem Meets.mono {condition weaker : State → Event → Prop}
    (implies : ∀ state event, condition state event → weaker state event) {events : List Event}
    {state : State} (meets : M.Meets condition state events) : M.Meets weaker state events := by
  induction events generalizing state with
  | nil => trivial
  | cons event events ih =>
      unfold Meets at meets ⊢
      refine ⟨implies state event meets.1, ?_⟩
      cases stepped : M.step state event with
      | none => trivial
      | some next =>
          simp only [stepped] at meets
          exact ih meets.2

theorem Meets.and {condition other : State → Event → Prop} {state : State} {events : List Event}
    (first : M.Meets condition state events) (second : M.Meets other state events) :
    M.Meets (fun state event => condition state event ∧ other state event) state events := by
  induction events generalizing state with
  | nil => trivial
  | cons event events ih =>
      unfold Meets at first second ⊢
      refine ⟨⟨first.1, second.1⟩, ?_⟩
      cases stepped : M.step state event with
      | none => trivial
      | some next =>
          simp only [stepped] at first second
          exact ih first.2 second.2

@[simp] theorem watch_nil (note : Record → State → Event → Record) (record : Record)
    (state : State) : M.watch note record state [] = record := rfl

theorem watch_cons_of_step {note : Record → State → Event → Record} {record : Record}
    {state next : State} {event : Event} {events : List Event}
    (stepped : M.step state event = some next) :
    M.watch note record state (event :: events) =
      M.watch note (note record state event) next events := by
  simp only [watch, stepped]

/-- A record of what the events put out is read off the events. -/
theorem watch_emit {Output : Type*} (emit : Event → List Output) {record : List Output}
    {state final : State} {events : List Event} (reached : M.run state events = some final) :
    M.watch (fun record _ event => record ++ emit event) record state events =
      record ++ events.flatMap emit := by
  induction events generalizing state record with
  | nil => simp only [watch_nil, List.flatMap_nil, List.append_nil]
  | cons event events ih =>
      obtain ⟨next, stepped, rest⟩ := run_cons_eq_some.mp reached
      rw [watch_cons_of_step stepped, ih rest, List.flatMap_cons, List.append_assoc]

/-- A record of the events alone is read off the events. -/
theorem watch_foldl (note : Record → Event → Record) {record : Record} {state final : State}
    {events : List Event} (reached : M.run state events = some final) :
    M.watch (fun record _ event => note record event) record state events =
      events.foldl note record := by
  induction events generalizing state record with
  | nil => rfl
  | cons event events ih =>
      obtain ⟨next, stepped, rest⟩ := run_cons_eq_some.mp reached
      rw [watch_cons_of_step stepped, ih rest, List.foldl_cons]

/-- A record that counts the steps. -/
theorem watch_count {count : Nat} {state final : State} {events : List Event}
    (reached : M.run state events = some final) :
    M.watch (fun count _ _ => count + 1) count state events = count + events.length := by
  induction events generalizing count state with
  | nil => rfl
  | cons event events ih =>
      obtain ⟨next, stepped, rest⟩ := run_cons_eq_some.mp reached
      rw [watch_cons_of_step stepped, ih rest, List.length_cons, Nat.add_assoc,
        Nat.add_comm 1 events.length]

/-- **The invariant rule.** A property of record and state that every step under
the condition preserves holds after every run under the condition. -/
theorem invariant {condition : State → Event → Prop} (note : Record → State → Event → Record)
    (property : Record → State → Prop)
    (preserved : ∀ record state event next, condition state event → property record state →
      M.step state event = some next → property (note record state event) next) (record : Record)
    {events : List Event} {state final : State} (meets : M.Meets condition state events)
    (reached : M.run state events = some final) (holds : property record state) :
    property (M.watch note record state events) final := by
  induction events generalizing record state with
  | nil =>
      cases reached
      exact holds
  | cons event events ih =>
      obtain ⟨next, stepped, rest⟩ := run_cons_eq_some.mp reached
      rw [meets_cons_of_step stepped] at meets
      rw [watch_cons_of_step stepped]
      exact ih _ meets.2 rest (preserved record state event next meets.1 holds stepped)

/-- The invariant rule for what the events put out. -/
theorem emit_invariant {Output : Type*} {condition : State → Event → Prop}
    (emit : Event → List Output) (property : List Output → State → Prop)
    (preserved : ∀ emitted state event next, condition state event → property emitted state →
      M.step state event = some next → property (emitted ++ emit event) next)
    {events : List Event} {state final : State} (meets : M.Meets condition state events)
    (reached : M.run state events = some final) (holds : property [] state) :
    property (events.flatMap emit) final := by
  have watched := invariant (fun emitted _ event => emitted ++ emit event) property preserved []
    meets reached holds
  rwa [watch_emit emit reached, List.nil_append] at watched

/-- The invariant rule for a property of the state alone. -/
theorem state_invariant {condition : State → Event → Prop} (property : State → Prop)
    (preserved : ∀ state event next, condition state event → property state →
      M.step state event = some next → property next)
    {events : List Event} {state final : State} (meets : M.Meets condition state events)
    (reached : M.run state events = some final) (holds : property state) : property final :=
  invariant (fun (record : Unit) _ _ => record) (fun _ => property)
    (fun _ state event next allowed => preserved state event next allowed) () meets reached holds

/-- **The breaking rule.** What a step that breaks a condition brings about, and
every step preserves, holds after every run that does not meet the condition. -/
theorem of_not_meets {guard condition : State → Event → Prop}
    (note : Record → State → Event → Record) (sound broken : Record → State → Prop)
    (preserved : ∀ record state event next, guard state event → sound record state →
      M.step state event = some next → sound (note record state event) next)
    (breaks : ∀ record state event next, guard state event → sound record state →
      ¬ condition state event → M.step state event = some next →
        broken (note record state event) next)
    (kept : ∀ record state event next, guard state event → broken record state →
      M.step state event = some next → broken (note record state event) next)
    (record : Record) {events : List Event} {state final : State}
    (meets : M.Meets guard state events) (reached : M.run state events = some final)
    (holds : sound record state) (fails : ¬ M.Meets condition state events) :
    broken (M.watch note record state events) final := by
  induction events generalizing record state with
  | nil => exact absurd trivial fails
  | cons event events ih =>
      obtain ⟨next, stepped, rest⟩ := run_cons_eq_some.mp reached
      rw [meets_cons_of_step stepped] at meets fails
      rw [watch_cons_of_step stepped]
      by_cases here : condition state event
      · exact ih _ meets.2 rest (preserved record state event next meets.1 holds stepped)
          fun later => fails ⟨here, later⟩
      · exact invariant note broken kept _ meets.2 rest
          (breaks record state event next meets.1 holds here stepped)

end Machine

end Foundation
