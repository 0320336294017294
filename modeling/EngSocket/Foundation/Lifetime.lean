import EngSocket.Foundation.Machine
import Mathlib.Logic.Function.Basic

/-!
# Lifetimes of objects

Objects of several classes are made at addresses that are free, are called while they
exist, and are destroyed once. A run of `Foundation.Lifetime.machine` never touches an
object that does not exist or is of another class.
-/

namespace Foundation

namespace Lifetime

variable {Address Class : Type*}

inductive Action (Address Class : Type*)
  | construct (address : Address) (class_ : Class)
  | invoke (address : Address) (class_ : Class)
  | destroy (address : Address) (class_ : Class)
  deriving DecidableEq, Repr

/-- The objects that exist, by their addresses. -/
def machine [DecidableEq Address] [DecidableEq Class] :
    Machine (Address → Option Class) (Action Address Class) where
  step objects
    | .construct address class_ =>
        if objects address = none then some (Function.update objects address (some class_))
        else none
    | .invoke address class_ => if objects address = some class_ then some objects else none
    | .destroy address class_ =>
        if objects address = some class_ then some (Function.update objects address none)
        else none

/-- Whether an object is made or destroyed. -/
def Action.alters : Action Address Class → Bool
  | .construct _ _ | .destroy _ _ => true
  | .invoke _ _ => false

/-- Whether objects of a class are made or destroyed. -/
def Action.changes [DecidableEq Class] (class_ : Class) : Action Address Class → Bool
  | .construct _ other | .destroy _ other => other = class_
  | .invoke _ _ => false

theorem filter_alters_changes [DecidableEq Class] (class_ : Class)
    (actions : List (Action Address Class)) :
    (actions.filter Action.alters).filter (Action.changes class_) =
      actions.filter (Action.changes class_) := by
  rw [List.filter_filter]
  refine List.filter_congr fun action _ => ?_
  cases action with
  | construct address other => exact Bool.and_true _
  | invoke address other => rfl
  | destroy address other => exact Bool.and_true _

/-- The objects of a class. -/
def only [DecidableEq Class] (class_ : Class) (objects : Address → Option Class) :
    Address → Option Class :=
  fun address => if objects address = some class_ then some class_ else none

variable [DecidableEq Address] [DecidableEq Class] {objects final : Address → Option Class}
  {class_ : Class}

theorem only_update_self (address : Address) :
    only class_ (Function.update objects address (some class_)) =
      Function.update (only class_ objects) address (some class_) := by
  funext other
  by_cases same : other = address
  · subst same
    simp only [only, Function.update_self, ↓reduceIte]
  · simp only [only, Function.update_of_ne same]

/-- What is of another class before and after does not count. -/
theorem only_update_of_ne {address : Address} {value : Option Class}
    (before : objects address ≠ some class_) (after : value ≠ some class_) :
    only class_ (Function.update objects address value) = only class_ objects := by
  funext other
  by_cases same : other = address
  · subst same
    simp only [only, Function.update_self, if_neg before, if_neg after]
  · simp only [only, Function.update_of_ne same]

theorem only_update_none (address : Address) :
    only class_ (Function.update objects address none) =
      Function.update (only class_ objects) address none := by
  funext other
  by_cases same : other = address
  · subst same
    simp only [only, Function.update_self, reduceCtorEq, ↓reduceIte]
  · simp only [only, Function.update_of_ne same]

/-- **The objects of one class** live as what is made and destroyed of the class says. -/
theorem run_only {actions : List (Action Address Class)}
    (reached : machine.run objects actions = some final) :
    machine.run (only class_ objects) (actions.filter (Action.changes class_)) =
      some (only class_ final) := by
  induction actions generalizing objects with
  | nil =>
      cases reached
      rfl
  | cons action actions ih =>
      obtain ⟨next, stepped, rest⟩ := Machine.run_cons_eq_some.mp reached
      have later := ih rest
      cases action with
      | construct address other =>
          obtain ⟨free, after⟩ := Option.ite_none_right_eq_some.mp stepped
          cases after
          by_cases own : other = class_
          · subst own
            have kept : Action.changes other (.construct address other) = true := decide_eq_true rfl
            have empty : only other objects address = none := by
              simp only [only, free, reduceCtorEq, ↓reduceIte]
            rw [only_update_self] at later
            rw [List.filter_cons_of_pos kept, Machine.run_cons]
            simp only [machine, if_pos empty, Option.bind_some]
            exact later
          · have dropped : Action.changes class_ (.construct address other) ≠ true :=
              fun same => own (of_decide_eq_true same)
            rw [only_update_of_ne (free ▸ (Option.some_ne_none _).symm)
              fun same => own (Option.some.inj same)] at later
            rw [List.filter_cons_of_neg dropped]
            exact later
      | invoke address other =>
          obtain ⟨-, after⟩ := Option.ite_none_right_eq_some.mp stepped
          cases after
          rw [List.filter_cons_of_neg Bool.false_ne_true]
          exact later
      | destroy address other =>
          obtain ⟨here, after⟩ := Option.ite_none_right_eq_some.mp stepped
          cases after
          by_cases own : other = class_
          · subst own
            have kept : Action.changes other (.destroy address other) = true := decide_eq_true rfl
            have exists_ : only other objects address = some other := if_pos here
            rw [only_update_none] at later
            rw [List.filter_cons_of_pos kept, Machine.run_cons]
            simp only [machine, if_pos exists_, Option.bind_some]
            exact later
          · have dropped : Action.changes class_ (.destroy address other) ≠ true :=
              fun same => own (of_decide_eq_true same)
            rw [only_update_of_ne (fun same => own (Option.some.inj (here.symm.trans same)))
              (Option.some_ne_none _).symm] at later
            rw [List.filter_cons_of_neg dropped]
            exact later

end Lifetime

end Foundation
