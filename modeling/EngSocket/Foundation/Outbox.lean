import Mathlib.Data.List.Infix

/-!
# Outgoing queues

An outbox is the account of a queue of units which go out symbol by symbol: the
units queued since the last reset and the symbols accepted since. A queue is
`Foundation.Outbox.Accounted` by an outbox if what was accepted is the units that
have left and the part gone of the first one that waits. Queueing, accepting and
leaving keep the account, and in an accounted queue no symbol is skipped, repeated
or out of order (`Foundation.Outbox.Accounted.accepted_append`).
-/

namespace Foundation

/-- A unit on its way out: the symbols that have gone and those that are left. -/
structure Parcel (Symbol : Type*) where
  gone : List Symbol
  left : List Symbol

def Parcel.whole {Symbol : Type*} (parcel : Parcel Symbol) : List Symbol :=
  parcel.gone ++ parcel.left

/-- The units queued and the symbols accepted since the last reset. -/
structure Outbox (Symbol : Type*) where
  queued : List (List Symbol)
  accepted : List Symbol

namespace Outbox

variable {Symbol : Type*} {outbox : Outbox Symbol} {waiting rest : List (Parcel Symbol)}

/-- Nothing was queued yet. -/
def empty : Outbox Symbol := { queued := [], accepted := [] }

def queue (unit : List Symbol) (outbox : Outbox Symbol) : Outbox Symbol :=
  { outbox with queued := outbox.queued ++ [unit] }

def accept (symbols : List Symbol) (outbox : Outbox Symbol) : Outbox Symbol :=
  { outbox with accepted := outbox.accepted ++ symbols }

@[simp] theorem accept_nil (outbox : Outbox Symbol) : outbox.accept [] = outbox := by
  rw [accept, List.append_nil]

/-- Some units have departed; these and what is gone of the first one that waits
are what was accepted. -/
structure AccountedAfter (outbox : Outbox Symbol) (departed : List (List Symbol))
    (waiting : List (Parcel Symbol)) : Prop where
  queued : outbox.queued = departed ++ waiting.map Parcel.whole
  accepted : outbox.accepted = departed.flatten ++ (waiting.map Parcel.gone).flatten
  untouched : ∀ parcel ∈ waiting.tail, parcel.gone = []

/-- The queue is what remains of the outbox. -/
def Accounted (outbox : Outbox Symbol) (waiting : List (Parcel Symbol)) : Prop :=
  ∃ departed, outbox.AccountedAfter departed waiting

/-- Nothing is gone of units that are untouched. -/
theorem flatten_gone {parcels : List (Parcel Symbol)}
    (untouched : ∀ parcel ∈ parcels, parcel.gone = []) :
    (parcels.map Parcel.gone).flatten = [] := by
  apply List.flatten_eq_nil_iff.mpr
  intro part member
  obtain ⟨parcel, later, rfl⟩ := List.mem_map.mp member
  exact untouched parcel later

theorem map_whole {parcels : List (Parcel Symbol)}
    (untouched : ∀ parcel ∈ parcels, parcel.gone = []) :
    parcels.map Parcel.whole = parcels.map Parcel.left := by
  apply List.map_congr_left
  intro parcel member
  rw [Parcel.whole, untouched parcel member, List.nil_append]

theorem accounted_empty : (empty : Outbox Symbol).Accounted [] :=
  ⟨[], rfl, rfl, List.forall_mem_nil _⟩

/-- Units of which nothing has gone are accounted for by themselves. -/
theorem accounted_fresh (units : List (List Symbol)) :
    Accounted { queued := units, accepted := [] }
      (units.map fun unit => { gone := [], left := unit }) := by
  have untouched : ∀ parcel ∈ units.map fun unit => ({ gone := [], left := unit } : Parcel Symbol),
      parcel.gone = [] := by
    intro parcel member
    obtain ⟨unit, -, rfl⟩ := List.mem_map.mp member
    rfl
  refine ⟨[], ?_, ?_, fun parcel member => untouched parcel (List.mem_of_mem_tail member)⟩
  · rw [map_whole untouched, List.map_map, List.nil_append]
    exact (List.map_id units).symm
  · rw [flatten_gone untouched]
    rfl

/-- A new unit goes to the end of the queue. -/
theorem Accounted.queue (accounted : outbox.Accounted waiting) (unit : List Symbol) :
    (outbox.queue unit).Accounted (waiting ++ [{ gone := [], left := unit }]) := by
  obtain ⟨departed, queued, accepted, untouched⟩ := accounted
  refine ⟨departed, ?_, ?_, ?_⟩
  · simp only [Outbox.queue, queued, List.map_append, List.map_cons, List.map_nil, Parcel.whole,
      List.nil_append, List.append_assoc]
  · simp only [Outbox.queue, accepted, List.map_append, List.map_cons, List.map_nil,
      List.flatten_append, List.flatten_cons, List.flatten_nil, List.append_nil]
  · intro parcel member
    cases waiting with
    | nil => cases member
    | cons first waiting =>
        rcases List.mem_append.mp member with earlier | new
        · exact untouched parcel earlier
        · rw [List.mem_singleton.mp new]

/-- The first unit goes on. -/
theorem Accounted.accept {gone symbols remaining : List Symbol}
    (accounted : outbox.Accounted ({ gone, left := symbols ++ remaining } :: rest)) :
    (outbox.accept symbols).Accounted
      ({ gone := gone ++ symbols, left := remaining } :: rest) := by
  obtain ⟨departed, queued, accepted, untouched⟩ := accounted
  refine ⟨departed, ?_, ?_, untouched⟩
  all_goals rw [List.tail_cons] at untouched
  · simp only [Outbox.accept, queued, List.map_cons, Parcel.whole, List.append_assoc]
  · simp only [Outbox.accept, accepted, List.map_cons, List.flatten_cons,
      flatten_gone untouched, List.append_nil, List.append_assoc]

/-- A unit of which nothing is left leaves. -/
theorem Accounted.leave {gone : List Symbol}
    (accounted : outbox.Accounted ({ gone, left := [] } :: rest)) : outbox.Accounted rest := by
  obtain ⟨departed, queued, accepted, untouched⟩ := accounted
  refine ⟨departed ++ [gone], ?_, ?_, ?_⟩
  · simp only [queued, List.map_cons, Parcel.whole, List.append_nil, List.append_assoc,
      List.singleton_append]
  · simp only [accepted, List.map_cons, List.flatten_cons, List.flatten_append, List.flatten_nil,
      List.append_nil, List.append_assoc]
  · intro parcel member
    exact untouched parcel (List.mem_of_mem_tail member)

/-- **Conservation.** What was accepted and what is left is what was queued. -/
theorem Accounted.accepted_append (accounted : outbox.Accounted waiting) :
    outbox.accepted ++ (waiting.map Parcel.left).flatten = outbox.queued.flatten := by
  obtain ⟨departed, queued, accepted, untouched⟩ := accounted
  rw [queued, accepted, List.flatten_append]
  cases waiting with
  | nil => simp only [List.map_nil, List.flatten_nil, List.append_nil]
  | cons first waiting =>
      rw [List.tail_cons] at untouched
      simp only [List.map_cons, List.flatten_cons, flatten_gone untouched, map_whole untouched,
        Parcel.whole, List.append_nil, List.append_assoc]

/-- What was accepted is a beginning of what was queued. -/
theorem Accounted.accepted_prefix (accounted : outbox.Accounted waiting) :
    outbox.accepted <+: outbox.queued.flatten := ⟨_, accounted.accepted_append⟩

end Outbox

end Foundation
