import Mathlib.Data.List.Nodup
import Mathlib.Data.Prod.Basic
import Mathlib.Order.Lattice

/-!
# Maps kept in the order of their keys

An `OrderedMap` is a list of entries whose keys increase strictly. It is read by its
keys (`Foundation.OrderedMap.get`), of which the operations are described key by key,
and searched for a value from the least key on (`Foundation.OrderedMap.first`), which
finds the accepted value of least key.
-/

namespace Foundation

/-- A map as the list of its entries in the order of their keys. -/
structure OrderedMap (Key Value : Type*) [LinearOrder Key] where
  entries : List (Key × Value)
  sorted : entries.Pairwise fun first second => first.1 < second.1

namespace OrderedMap

variable {Key Value : Type*} [LinearOrder Key]

def empty : OrderedMap Key Value where
  entries := []
  sorted := .nil

/-- The value of a key. -/
def get (key : Key) (map : OrderedMap Key Value) : Option Value :=
  (map.entries.find? fun entry => entry.1 = key).map Prod.snd

/-- The entry of least key whose value is accepted. -/
def first (accepts : Value → Bool) (map : OrderedMap Key Value) : Option (Key × Value) :=
  map.entries.find? fun entry => accepts entry.2

/-- An entry stored at its place, instead of the one of its key if there is one. -/
def place (key : Key) (value : Value) : List (Key × Value) → List (Key × Value)
  | [] => [(key, value)]
  | entry :: entries =>
      if key < entry.1 then (key, value) :: entry :: entries
      else if entry.1 = key then (key, value) :: entries
      else entry :: place key value entries

/-- Placing an entry replaces the one with its key and no other. -/
theorem mem_place {key : Key} {value : Value} {entries : List (Key × Value)}
    (sorted : entries.Pairwise fun first second => first.1 < second.1) {entry : Key × Value} :
    entry ∈ place key value entries ↔
      entry = (key, value) ∨ entry ∈ entries ∧ entry.1 ≠ key := by
  induction entries with
  | nil => simp only [place, List.mem_singleton, List.not_mem_nil, false_and, or_false]
  | cons head entries ih =>
      rw [List.pairwise_cons] at sorted
      unfold place
      split
      · next below =>
          have apart : ∀ other ∈ head :: entries, other.1 ≠ key := by
            rintro other (_ | ⟨_, later⟩)
            · exact ne_of_gt below
            · exact ne_of_gt (below.trans (sorted.1 other later))
          rw [List.mem_cons]
          exact or_congr_right ⟨fun member => ⟨member, apart entry member⟩, And.left⟩
      · split
        · next same =>
            have apart : ∀ other ∈ entries, other.1 ≠ key := fun other later =>
              same ▸ ne_of_gt (sorted.1 other later)
            rw [List.mem_cons, List.mem_cons]
            constructor
            · rintro (rfl | later)
              · exact Or.inl rfl
              · exact Or.inr ⟨Or.inr later, apart entry later⟩
            · rintro (rfl | ⟨rfl | later, other⟩)
              · exact Or.inl rfl
              · exact absurd same other
              · exact Or.inr later
        · next other =>
            rw [List.mem_cons, List.mem_cons, ih sorted.2]
            constructor
            · rintro (rfl | rfl | ⟨later, apart⟩)
              · exact Or.inr ⟨Or.inl rfl, other⟩
              · exact Or.inl rfl
              · exact Or.inr ⟨Or.inr later, apart⟩
            · rintro (rfl | ⟨rfl | later, apart⟩)
              · exact Or.inr (Or.inl rfl)
              · exact Or.inl rfl
              · exact Or.inr (Or.inr ⟨later, apart⟩)

/-- An entry is placed where the order wants it. -/
theorem sorted_place (key : Key) (value : Value) {entries : List (Key × Value)}
    (sorted : entries.Pairwise fun first second => first.1 < second.1) :
    (place key value entries).Pairwise fun first second => first.1 < second.1 := by
  induction entries with
  | nil => exact List.pairwise_singleton _ _
  | cons head entries ih =>
      have tail := List.pairwise_cons.mp sorted
      unfold place
      split
      · next below =>
          refine List.pairwise_cons.mpr ⟨?_, sorted⟩
          rintro other (_ | ⟨_, later⟩)
          · exact below
          · exact below.trans (tail.1 other later)
      · split
        · next same =>
            exact List.pairwise_cons.mpr ⟨fun other later => same ▸ tail.1 other later, tail.2⟩
        · next apart =>
            refine List.pairwise_cons.mpr ⟨fun other member => ?_, ih tail.2⟩
            rcases (mem_place tail.2).mp member with rfl | ⟨later, -⟩
            · exact lt_of_le_of_ne (not_lt.mp ‹_›) apart
            · exact tail.1 other later

/-- The map with a value for a key. -/
def put (key : Key) (value : Value) (map : OrderedMap Key Value) : OrderedMap Key Value where
  entries := place key value map.entries
  sorted := sorted_place key value map.sorted

/-- The map without a key. -/
def erase (key : Key) (map : OrderedMap Key Value) : OrderedMap Key Value where
  entries := map.entries.filter fun entry => entry.1 ≠ key
  sorted := map.sorted.filter _

variable {map : OrderedMap Key Value} {key other : Key} {value : Value}

/-- A key has one entry at most. -/
theorem eq_of_mem {first second : Key × Value} (here : first ∈ map.entries)
    (there : second ∈ map.entries) (same : first.1 = second.1) : first = second := by
  have keys : (map.entries.map Prod.fst).Nodup :=
    List.pairwise_map.mpr (map.sorted.imp fun below => ne_of_lt below)
  exact List.inj_on_of_nodup_map keys here there same

/-- A map finds exactly its entries. -/
theorem get_eq_some : map.get key = some value ↔ (key, value) ∈ map.entries := by
  constructor
  · intro read
    obtain ⟨entry, found, rfl⟩ := Option.map_eq_some_iff.mp read
    have accepted := List.find?_some found
    have same : entry.1 = key := of_decide_eq_true accepted
    exact same ▸ List.mem_of_find?_eq_some found
  · intro member
    cases found : map.entries.find? fun entry => entry.1 = key with
    | none =>
        have apart := List.find?_eq_none.mp found (key, value) member
        exact absurd (decide_eq_true rfl) apart
    | some entry =>
        have accepted := List.find?_some found
        have same : entry.1 = key := of_decide_eq_true accepted
        have listed := List.mem_of_find?_eq_some found
        rw [get, found, eq_of_mem listed member same]
        rfl

@[simp] theorem get_put_self (key : Key) (value : Value) (map : OrderedMap Key Value) :
    (map.put key value).get key = some value :=
  get_eq_some.mpr ((mem_place map.sorted).mpr (Or.inl rfl))

/-- Other keys keep their values when one is put. -/
theorem get_put_of_ne (apart : other ≠ key) (value : Value) (map : OrderedMap Key Value) :
    (map.put key value).get other = map.get other := by
  refine Option.ext fun found => ?_
  rw [get_eq_some, get_eq_some]
  refine (mem_place map.sorted).trans ⟨?_, fun member => Or.inr ⟨member, apart⟩⟩
  rintro (same | ⟨member, -⟩)
  · exact absurd (congrArg Prod.fst same) apart
  · exact member

@[simp] theorem get_erase_self (key : Key) (map : OrderedMap Key Value) :
    (map.erase key).get key = none := by
  refine Option.eq_none_iff_forall_ne_some.mpr fun value found => ?_
  have kept := (List.mem_filter.mp (get_eq_some.mp found)).2
  exact of_decide_eq_true kept rfl

/-- Other keys keep their values when one is erased. -/
theorem get_erase_of_ne (apart : other ≠ key) (map : OrderedMap Key Value) :
    (map.erase key).get other = map.get other := by
  refine Option.ext fun found => ?_
  rw [get_eq_some, get_eq_some]
  exact List.mem_filter.trans (and_iff_left (decide_eq_true apart))

/-- **The first entry** that is accepted has the least key of all that are. -/
theorem least_of_first {accepts : Value → Bool} {entry : Key × Value}
    (found : map.first accepts = some entry) :
    map.get entry.1 = some entry.2 ∧ accepts entry.2 = true ∧
      ∀ key value, map.get key = some value → accepts value = true → entry.1 ≤ key := by
  obtain ⟨accepted, before, after, split, refused⟩ := List.find?_eq_some_iff_append.mp found
  refine ⟨get_eq_some.mpr (List.mem_of_find?_eq_some found), accepted, ?_⟩
  intro key value here accepts
  have sorted := map.sorted
  rw [split, List.pairwise_append] at sorted
  have member := get_eq_some.mp here
  rw [split, List.mem_append, List.mem_cons] at member
  rcases member with early | rfl | late
  · have refused := refused (key, value) early
    simp only [accepts, Bool.not_true, Bool.false_eq_true] at refused
  · exact le_rfl
  · exact le_of_lt ((List.pairwise_cons.mp sorted.2.1).1 (key, value) late)

/-- **What a search finds**: an accepted value, and none at a smaller key. -/
theorem first_eq_some_iff {accepts : Value → Bool} {entry : Key × Value} :
    map.first accepts = some entry ↔
      map.get entry.1 = some entry.2 ∧ accepts entry.2 = true ∧
        ∀ key value, map.get key = some value → accepts value = true → entry.1 ≤ key := by
  refine ⟨least_of_first, ?_⟩
  rintro ⟨here, accepted, least⟩
  cases found : map.first accepts with
  | none =>
      have refused := List.find?_eq_none.mp found entry (get_eq_some.mp here)
      exact absurd accepted refused
  | some other =>
      obtain ⟨there, passes, smallest⟩ := least_of_first found
      have same : other.1 = entry.1 :=
        le_antisymm (smallest entry.1 entry.2 here accepted) (least other.1 other.2 there passes)
      exact congrArg some (eq_of_mem (get_eq_some.mp there) (get_eq_some.mp here) same)

/-- Nothing is found exactly if no value is accepted. -/
theorem first_eq_none_iff {accepts : Value → Bool} :
    map.first accepts = none ↔ ∀ key value, map.get key = some value → accepts value = false := by
  constructor
  · intro none_ key value here
    exact Bool.eq_false_iff.mpr (List.find?_eq_none.mp none_ (key, value) (get_eq_some.mp here))
  · intro refused
    refine List.find?_eq_none.mpr fun entry member => ?_
    exact Bool.eq_false_iff.mp (refused entry.1 entry.2 (get_eq_some.mpr member))

end OrderedMap

end Foundation
