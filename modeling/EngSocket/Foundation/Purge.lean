import EngSocket.Foundation.Machine

/-!
# Events that make no difference

Some events may be dropped from every run if they change nothing but a part of the
state that no other event looks at. What is left of the state when that part is
erased is then what the run without these events reaches
(`Foundation.Machine.run_purge`).
-/

namespace Foundation

namespace Machine

variable {State Event : Type*} {M : Machine State Event}

/-- **The purging rule.** Kept events do not look at what is erased, and dropped ones,
where they can happen, change nothing else. -/
theorem run_purge {keep : Event → Bool} {erase : State → State} {can : State → Event → Prop}
    (kept : ∀ state event, keep event = true →
      M.step (erase state) event = (M.step state event).map erase)
    (dropped : ∀ state event, keep event = false → can state event →
      ∃ next, M.step state event = some next ∧ erase next = erase state)
    {events : List Event} {state : State} (meets : M.Meets can state events) :
    (M.run state events).map erase = M.run (erase state) (events.filter keep) := by
  induction events generalizing state with
  | nil => rfl
  | cons event events ih =>
      cases keeps : keep event with
      | true =>
          rw [List.filter_cons_of_pos keeps, run_cons, run_cons, kept state event keeps]
          cases stepped : M.step state event with
          | none => rfl
          | some next => exact ih ((meets_cons_of_step stepped).mp meets).2
      | false =>
          have happens : can state event := by
            unfold Meets at meets
            exact meets.1
          obtain ⟨next, stepped, same⟩ := dropped state event keeps happens
          rw [List.filter_cons_of_neg (by rw [keeps]; exact Bool.false_ne_true), run_cons, stepped,
            ← same]
          exact ih ((meets_cons_of_step stepped).mp meets).2

end Machine

end Foundation
