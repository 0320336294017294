import Mathlib.Data.List.Sort

/-!
# First fit in an ordered list

In a list that is ordered by a key, the first item whose key reaches a bound is
one of the least keys that reach it. Taking that item out and inserting an item
in front of the first one with as large a key keep the order.
-/

namespace Foundation

variable {Item Key : Type*} [LinearOrder Key]

/-- The keys of the items never decrease. -/
def OrderedBy (key : Item → Key) (items : List Item) : Prop :=
  items.Pairwise fun first second => key first ≤ key second

namespace OrderedBy

variable {key : Item → Key} {items : List Item}

/-- What leaves an ordered list leaves it ordered. -/
theorem sublist {fewer : List Item} (ordered : OrderedBy key items) (kept : fewer.Sublist items) :
    OrderedBy key fewer := List.Pairwise.sublist kept ordered

theorem orderedInsert [DecidableRel fun first second : Item => key first ≤ key second]
    (ordered : OrderedBy key items) (item : Item) :
    OrderedBy key (items.orderedInsert (fun first second => key first ≤ key second) item) := by
  have total : Std.Total fun first second : Item => key first ≤ key second :=
    ⟨fun first second => le_total (key first) (key second)⟩
  have transitive : IsTrans Item fun first second => key first ≤ key second :=
    ⟨fun _ _ _ earlier later => earlier.trans later⟩
  exact List.Pairwise.orderedInsert item items ordered

/-- The first item has the least key. -/
theorem head_le {first item : Item} {rest : List Item} (ordered : OrderedBy key (first :: rest))
    (member : item ∈ first :: rest) : key first ≤ key item := by
  rcases List.mem_cons.mp member with rfl | later
  · exact le_rfl
  · exact (List.pairwise_cons.mp ordered).1 item later

/-- **First fit is best fit.** -/
theorem find?_le (ordered : OrderedBy key items) {fits : Item → Bool} {found item : Item}
    (first : items.find? fits = some found) (member : item ∈ items) (fit : fits item = true) :
    key found ≤ key item := by
  obtain ⟨-, before, behind, rfl, unfit⟩ := List.find?_eq_some_iff_append.mp first
  rcases List.mem_append.mp member with early | late
  · have refused := unfit item early
    rw [fit] at refused
    cases refused
  · exact (ordered.sublist (List.sublist_append_right before _)).head_le late

end OrderedBy

/-- The first item that fits and the items without it are all the items. -/
theorem cons_eraseP_perm {items : List Item} {fits : Item → Bool} {found : Item}
    (first : items.find? fits = some found) : (found :: items.eraseP fits).Perm items := by
  obtain ⟨fit, before, behind, rfl, unfit⟩ := List.find?_eq_some_iff_append.mp first
  have none_ : ∀ item ∈ before, ¬ fits item = true := by
    intro item early
    have refused := unfit item early
    rwa [Bool.not_eq_true', ← Bool.not_eq_true] at refused
  rw [List.eraseP_append_right _ none_, List.eraseP_cons_of_pos fit]
  exact List.perm_middle.symm

end Foundation
