import EngSocket.Foundation.Simulation
import Mathlib.Data.List.Infix

/-!
# Mailboxes

A mailbox keeps letters in the order in which they were posted and gives them out
in that order. Over a run nothing is lost, made up, repeated or out of order: what
was there and what was posted is what was fetched and what is left
(`Foundation.Mailbox.conserves`).
-/

namespace Foundation

namespace Mailbox

variable {Letter : Type*} [DecidableEq Letter]

inductive Action (Letter : Type*)
  | post (letter : Letter)
  | fetch (letter : Letter)
  deriving DecidableEq, Repr

def Action.posted : Action Letter → Option Letter
  | .post letter => some letter
  | .fetch _ => none

def Action.fetched : Action Letter → Option Letter
  | .post _ => none
  | .fetch letter => some letter

/-- Only the oldest letter can be fetched. -/
def machine : Machine (List Letter) (Action Letter) where
  step
    | letters, .post letter => some (letters ++ [letter])
    | first :: letters, .fetch letter => if letter = first then some letters else none
    | [], .fetch _ => none

theorem run_post (letters posted : List Letter) :
    machine.run letters (posted.map .post) = some (letters ++ posted) := by
  induction posted generalizing letters with
  | nil =>
      rw [List.append_nil]
      rfl
  | cons letter posted ih =>
      rw [List.map_cons, Machine.run_cons]
      change machine.run (letters ++ [letter]) _ = _
      rw [ih, List.append_assoc, List.singleton_append]

theorem run_fetch (fetched left : List Letter) :
    machine.run (fetched ++ left) (fetched.map .fetch) = some left := by
  induction fetched with
  | nil => rfl
  | cons letter fetched ih =>
      have first : machine.step (letter :: (fetched ++ left)) (.fetch letter) =
          some (fetched ++ left) := if_pos rfl
      rw [List.map_cons, List.cons_append, Machine.run_cons, first]
      exact ih

/-- **Conservation.** What was there and what was posted is what was fetched and what
is left, in this order. -/
theorem conserves {letters left : List Letter} {actions : List (Action Letter)}
    (reached : machine.run letters actions = some left) :
    letters ++ actions.filterMap Action.posted = actions.filterMap Action.fetched ++ left := by
  induction actions generalizing letters with
  | nil =>
      cases reached
      exact List.append_nil _
  | cons action actions ih =>
      obtain ⟨next, stepped, rest⟩ := Machine.run_cons_eq_some.mp reached
      cases action with
      | post letter =>
          cases stepped
          have later := ih rest
          rw [List.append_assoc] at later
          exact later
      | fetch letter =>
          cases letters with
          | nil => cases stepped
          | cons first letters =>
              simp only [machine, Option.ite_none_right_eq_some] at stepped
              obtain ⟨rfl, taken⟩ := stepped
              cases taken
              exact congrArg (letter :: ·) (ih rest)

end Mailbox

end Foundation
