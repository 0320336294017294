import EngSocket.Foundation.FirstFit
import EngSocket.Foundation.Machine
import EngSocket.Message.Buffer

/-!
# The order of the pool

`release` looks for the first buffer that is at least as large, and `require` for
the first that is large enough. Whatever the buffers grew to while they were out,
the pool is ordered by capacity, so that `require` finds a best fit, and what it
does not hand out it keeps (`EngSocket.PoolUse.ordered_best_fit`).
-/

namespace EngSocket

open Foundation

/-- The pool and the buffers that are out of it, in the order in which they left. -/
structure PoolUse where
  process : Process
  out : List MemBuffer

inductive PoolEvent
  | require (size : Int)
  | enlarge (index : Nat)
  | release (index : Nat)
  deriving DecidableEq

namespace PoolUse

def initial (grants : Nat → Bool) (junk : Nat → Memory UInt8) : PoolUse where
  process := .initial grants junk
  out := []

def machine : Machine PoolUse PoolEvent where
  step pool event :=
    match event with
    | .require size =>
        let (buffer, process) := pool.process.require size
        some { process, out := pool.out ++ [buffer] }
    | .enlarge index => do
        let buffer ← pool.out[index]?
        let (buffer, process) := buffer.enlarge pool.process
        return { process, out := pool.out.set index buffer }
    | .release index => do
        let buffer ← pool.out[index]?
        return { process := pool.process.release buffer, out := pool.out.eraseIdx index }

/-- The sizes asked for are not negative, and no capacity overflows. -/
def Permits (pool : PoolUse) : PoolEvent → Prop
  | .require size => 0 ≤ size
  | .enlarge index => ∀ buffer ∈ pool.out[index]?, buffer.m_size < 1073741824
  | .release _ => True

instance (pool : PoolUse) : DecidablePred pool.Permits
  | .require size => inferInstanceAs (Decidable (0 ≤ size))
  | .enlarge index =>
      inferInstanceAs (Decidable (∀ buffer ∈ pool.out[index]?, buffer.m_size < 1073741824))
  | .release _ => .isTrue trivial

end PoolUse

namespace Process

variable {process : Process}

/-- The process in which `require` looks for a buffer. -/
def afterInit (process : Process) : Process :=
  if process.m_pool.isEmpty then process.Init else process

/-- The pool is ordered by capacity. -/
def Ordered (process : Process) : Prop := OrderedBy MemBuffer.m_size process.m_pool

/-- What `require` does: it takes out a smallest buffer that is large enough, or
it makes a new one because there is none. -/
inductive BestFit (size : Int) (process : Process) (buffer : MemBuffer) (after : Process) : Prop
  | pooled (rest : (buffer :: after.m_pool).Perm process.afterInit.m_pool)
      (enough : size ≤ buffer.m_size)
      (best : ∀ other ∈ process.afterInit.m_pool, size ≤ other.m_size →
        buffer.m_size ≤ other.m_size)
  | made (rest : after.m_pool = process.afterInit.m_pool) (exactly : buffer.m_size = size)
      (address : buffer.address = process.afterInit.nextBuffer)
      (none : ∀ other ∈ process.afterInit.m_pool, other.m_size < size)

/-- The capacities of the buffers that `Init` makes. -/
def initSizes : List Int := List.replicate 5 512 ++ List.replicate 5 1024 ++ [65536]

/-- `Init` adds buffers of these capacities. -/
theorem Init_pool (succeeds : process.Generous) :
    ∃ added, process.Init.m_pool = process.m_pool ++ added ∧
      added.map MemBuffer.m_size = initSizes := by
  have nonnegative : ∀ size ∈ initSizes, 0 ≤ size := by decide
  change ∃ added, (initSizes.foldl pushNew process).m_pool = _ ∧ _
  generalize initSizes = sizes at nonnegative
  induction sizes generalizing process with
  | nil => exact ⟨[], (List.append_nil _).symm, rfl⟩
  | cons size sizes ih =>
      have next : (process.pushNew size).Generous := by
        intro request
        rw [(pushNew_same size process).grants]
        exact succeeds request
      obtain ⟨added, pool, capacities⟩ :=
        ih next fun other member => nonnegative other (List.mem_cons_of_mem _ member)
      refine ⟨(process.newMemBuffer size).1 :: added, ?_, ?_⟩
      · rw [List.foldl_cons, pool, pushNew_pool, List.append_assoc, List.singleton_append]
      · rw [List.map_cons, capacities,
          newMemBuffer_size (nonnegative size List.mem_cons_self) (succeeds _)]

theorem afterInit_grants (process : Process) : process.afterInit.grants = process.grants :=
  process.filled_same.grants

/-- The pool in which `require` looks is not empty, and ordered. -/
theorem Ordered.afterInit (ordered : process.Ordered) (succeeds : process.Generous) :
    process.afterInit.Ordered ∧ process.afterInit.m_pool ≠ [] := by
  unfold Process.afterInit
  by_cases empty : process.m_pool = []
  · obtain ⟨added, pool, capacities⟩ := Init_pool succeeds
    rw [empty, List.nil_append] at pool
    rw [if_pos (List.isEmpty_iff.mpr empty), Ordered, pool]
    constructor
    · have sizes : initSizes.Pairwise (· ≤ ·) := by decide
      rw [← capacities] at sizes
      exact List.pairwise_map.mp sizes
    · rintro rfl
      cases capacities
  · rw [if_neg (by rwa [List.isEmpty_iff])]
    exact ⟨ordered, empty⟩

/-- No buffer is made with a negative capacity. -/
theorem supplies_nonnegative {size : Int} (nonnegative : 0 ≤ size) (process : Process) :
    process.Supplies (fun buffer => 0 ≤ buffer.m_size) size := by
  intro current _
  rcases newMemBuffer_size_cases size current with granted | refused
  · exact granted.symm ▸ nonnegative
  · exact refused.ge

theorem Stocked.afterInit_nonnegative
    (stocked : process.Stocked fun buffer => 0 ≤ buffer.m_size) :
    process.afterInit.Stocked fun buffer => 0 ≤ buffer.m_size := by
  unfold Process.afterInit
  split
  · apply stocked.Init
    intro size member
    have nonnegative : ∀ capacity ∈ [512, 1024, (65536 : Int)], 0 ≤ capacity := by decide
    exact supplies_nonnegative (nonnegative size member) process
  · exact stocked

/-- `require` takes the first buffer, or the first that is large enough, or makes one. -/
theorem require_cases (size : Int) (process : Process) :
    (∃ first rest, size = 0 ∧ process.afterInit.m_pool = first :: rest ∧
        process.require size = (first, { process.afterInit with m_pool := rest })) ∨
      (∃ found, process.afterInit.m_pool.find? (fun buffer => size ≤ buffer.m_size) = some found ∧
        process.require size = (found, { process.afterInit with
          m_pool := process.afterInit.m_pool.eraseP fun buffer => size ≤ buffer.m_size })) ∨
      (process.afterInit.m_pool = [] ∨
          ∀ other ∈ process.afterInit.m_pool, other.m_size < size) ∧
        process.require size = process.afterInit.newMemBuffer size := by
  unfold Process.require
  rw [← Process.afterInit]
  generalize process.afterInit = current
  by_cases zero : size = 0
  · cases pool : current.m_pool with
    | cons first rest => exact Or.inl ⟨first, rest, zero, rfl, by simp only [if_pos zero, pool]⟩
    | nil => exact Or.inr (Or.inr ⟨Or.inl rfl, by simp only [if_pos zero, pool]⟩)
  · cases search : current.m_pool.find? fun buffer => size ≤ buffer.m_size with
    | some found => exact Or.inr (Or.inl ⟨found, rfl, by simp only [if_neg zero, search]⟩)
    | none =>
        refine Or.inr (Or.inr ⟨Or.inr fun other member => ?_, by simp only [if_neg zero, search]⟩)
        have unfit := List.find?_eq_none.mp search other member
        simpa only [decide_eq_true_eq, not_le] using unfit

/-- **What `require` does** in an ordered pool. -/
theorem Ordered.require (ordered : process.Ordered) (succeeds : process.Generous) {size : Int}
    (nonnegative : 0 ≤ size) (stocked : process.Stocked fun buffer => 0 ≤ buffer.m_size) :
    process.BestFit size (process.require size).1 (process.require size).2 ∧
      (process.require size).2.Ordered := by
  have filled := stocked.afterInit_nonnegative
  obtain ⟨ordered, nonempty⟩ := ordered.afterInit succeeds
  rcases require_cases size process with ⟨first, rest, zero, pool, taken⟩ |
    ⟨found, search, taken⟩ | ⟨unfit, taken⟩
  · rw [taken]
    have sorted : OrderedBy MemBuffer.m_size (first :: rest) := pool ▸ ordered
    refine ⟨.pooled ?_ ?_ ?_, sorted.sublist (List.sublist_cons_self first rest)⟩
    · exact List.Perm.of_eq pool.symm
    · rw [zero]
      exact filled first (pool ▸ List.mem_cons_self)
    · intro other member _
      exact sorted.head_le (pool ▸ member)
  · rw [taken]
    refine ⟨.pooled (cons_eraseP_perm search) ?_ ?_, ordered.sublist (List.eraseP_sublist ..)⟩
    · simpa only [decide_eq_true_eq] using List.find?_some search
    · intro other member enough
      exact ordered.find?_le search member (decide_eq_true enough)
  · rw [taken]
    have granted : process.afterInit.grants process.afterInit.requests = true := by
      rw [afterInit_grants]
      exact succeeds _
    have smaller := unfit.resolve_left nonempty
    refine ⟨.made ?_ (newMemBuffer_size nonnegative granted) (newMemBuffer_address ..) smaller, ?_⟩
    · rw [newMemBuffer_process]
    · rw [Process.Ordered, newMemBuffer_process]
      exact ordered

theorem BestFit.enough {size : Int} {buffer : MemBuffer} {after : Process}
    (fit : process.BestFit size buffer after) : size ≤ buffer.m_size := by
  cases fit with
  | pooled rest enough best => exact enough
  | made rest exactly address none => exact exactly.ge

/-- The smallest buffer is what a demand of zero gets. -/
theorem BestFit.smallest {buffer : MemBuffer} {after : Process}
    (fit : process.BestFit 0 buffer after)
    (nonnegative : process.afterInit.Stocked fun buffer => 0 ≤ buffer.m_size) :
    ∀ other ∈ process.afterInit.m_pool, buffer.m_size ≤ other.m_size := by
  intro other member
  have large := nonnegative other member
  cases fit with
  | pooled rest enough best => exact best other member large
  | made rest exactly address none => exact absurd (none other member) large.not_gt

theorem Ordered.release (ordered : process.Ordered) (buffer : MemBuffer) :
    (process.release buffer).Ordered := OrderedBy.orderedInsert ordered buffer

/-- `release` adds the buffer to the pool and nothing else. -/
theorem release_perm (buffer : MemBuffer) (process : Process) :
    (process.release buffer).m_pool.Perm (buffer :: process.m_pool) :=
  List.perm_orderedInsert _ buffer process.m_pool

end Process

/-! ## Runs -/

namespace PoolUse

variable {pool next : PoolUse} {event : PoolEvent}

/-- What every step keeps. -/
structure Kept (pool : PoolUse) : Prop where
  succeeds : pool.process.Generous
  ordered : pool.process.Ordered
  stocked : pool.process.Stocked fun buffer => 0 ≤ buffer.m_size
  out : ∀ buffer ∈ pool.out, 0 ≤ buffer.m_size

theorem step_cases (stepped : machine.step pool event = some next) :
    (∃ size, event = .require size ∧
        next = { process := (pool.process.require size).2
                 out := pool.out ++ [(pool.process.require size).1] }) ∨
      (∃ index buffer, event = .enlarge index ∧ pool.out[index]? = some buffer ∧
        next = { process := (buffer.enlarge pool.process).2
                 out := pool.out.set index (buffer.enlarge pool.process).1 }) ∨
      ∃ index buffer, event = .release index ∧ pool.out[index]? = some buffer ∧
        next = { process := pool.process.release buffer, out := pool.out.eraseIdx index } := by
  cases event with
  | require size => exact Or.inl ⟨size, rfl, (Option.some.inj stepped).symm⟩
  | enlarge index =>
      obtain ⟨buffer, there, grown⟩ := Option.bind_eq_some_iff.mp stepped
      exact Or.inr (Or.inl ⟨index, buffer, rfl, there, (Option.some.inj grown).symm⟩)
  | release index =>
      obtain ⟨buffer, there, returned⟩ := Option.bind_eq_some_iff.mp stepped
      exact Or.inr (Or.inr ⟨index, buffer, rfl, there, (Option.some.inj returned).symm⟩)

theorem Kept.step (kept : pool.Kept) (permits : pool.Permits event)
    (stepped : machine.step pool event = some next) : next.Kept := by
  obtain ⟨succeeds, ordered, stocked, out⟩ := kept
  rcases step_cases stepped with ⟨size, rfl, rfl⟩ | ⟨index, buffer, rfl, there, rfl⟩ |
    ⟨index, buffer, rfl, there, rfl⟩
  · have nonnegative : ∀ capacity ∈ [512, 1024, 65536, size], 0 ≤ capacity := by
      simp only [List.forall_mem_cons]
      exact ⟨by decide, by decide, by decide, permits, List.forall_mem_nil _⟩
    obtain ⟨handed, left⟩ := stocked.require fun capacity member =>
      Process.supplies_nonnegative (nonnegative capacity member) pool.process
    refine ⟨?_, (ordered.require succeeds permits stocked).2, left, ?_⟩
    · intro request
      change (pool.process.require size).2.grants request = true
      rw [(Process.require_same size pool.process).grants]
      exact succeeds request
    · intro buffer member
      rcases List.mem_append.mp member with before | new
      · exact out buffer before
      · exact List.mem_singleton.mp new ▸ handed
  · have nonnegative := out buffer (List.mem_of_getElem? there)
    have size := (MemBuffer.enlarge_granted (succeeds _) nonnegative (permits buffer there)).1
    rw [MemBuffer.enlarge_process]
    refine ⟨succeeds, ordered, stocked, ?_⟩
    intro other member
    rcases List.mem_or_eq_of_mem_set member with before | rfl
    · exact out other before
    · omega
  · refine ⟨succeeds, ordered.release buffer, ?_, ?_⟩
    · exact stocked.release (out buffer (List.mem_of_getElem? there))
    · intro other member
      exact out other (List.mem_of_mem_eraseIdx member)

theorem kept {grants : Nat → Bool} {junk : Nat → Memory UInt8}
    (succeeds : ∀ request, grants request = true) {events : List PoolEvent}
    (meets : machine.Meets Permits (initial grants junk) events)
    (reached : machine.run (initial grants junk) events = some pool) : pool.Kept :=
  Machine.state_invariant Kept (fun _ _ _ permits kept stepped => kept.step permits stepped) meets
    reached ⟨succeeds, List.Pairwise.nil, List.forall_mem_nil _, List.forall_mem_nil _⟩

/-- **Order and best fit** after every sequence of calls. -/
theorem ordered_best_fit {grants : Nat → Bool} {junk : Nat → Memory UInt8}
    (succeeds : ∀ request, grants request = true) {events : List PoolEvent}
    (meets : machine.Meets Permits (initial grants junk) events)
    (reached : machine.run (initial grants junk) events = some pool) :
    pool.process.Ordered ∧
      (∀ size, 0 ≤ size →
        size ≤ (pool.process.require size).1.m_size ∧
          pool.process.BestFit size (pool.process.require size).1 (pool.process.require size).2) ∧
      (∀ other ∈ pool.process.afterInit.m_pool,
        (pool.process.require 0).1.m_size ≤ other.m_size) ∧
      (∀ buffer ∈ pool.out,
        (pool.process.release buffer).m_pool.Perm (buffer :: pool.process.m_pool) ∧
          (buffer.enlarge pool.process).2.m_pool = pool.process.m_pool) ∧
      (pool.process.m_pool ≠ [] → pool.process.afterInit = pool.process) ∧
      (pool.process.m_pool = [] →
        pool.process.afterInit.m_pool.map MemBuffer.m_size = Process.initSizes) := by
  obtain ⟨succeeds, ordered, stocked, out⟩ := kept succeeds meets reached
  refine ⟨ordered, ?_, ?_, ?_, ?_, ?_⟩
  · intro size nonnegative
    have fit := (ordered.require succeeds nonnegative stocked).1
    exact ⟨fit.enough, fit⟩
  · exact (ordered.require succeeds le_rfl stocked).1.smallest stocked.afterInit_nonnegative
  · intro buffer member
    refine ⟨Process.release_perm buffer pool.process, ?_⟩
    rw [MemBuffer.enlarge_process]
  · intro nonempty
    rw [Process.afterInit, if_neg (by rwa [List.isEmpty_iff])]
  · intro empty
    obtain ⟨added, filled, capacities⟩ := Process.Init_pool succeeds
    rw [Process.afterInit, if_pos (List.isEmpty_iff.mpr empty), filled, empty, List.nil_append]
    exact capacities

/-- A buffer that grew to 2048 bytes while it was out comes back between those of
1024 and the one of 65536. -/
theorem ordered_best_fit_of_growth :
    ∃ pool, machine.run (initial (fun _ => true) fun _ _ => 0)
        [.require 512, .require 512, .enlarge 0, .enlarge 0, .release 0, .require 1025] =
          some pool ∧
      pool.out.map MemBuffer.m_size = [512, 2048] ∧ pool.process.Ordered := by
  have ran : (machine.run (initial (fun _ => true) fun _ _ => 0)
      [.require 512, .require 512, .enlarge 0, .enlarge 0, .release 0, .require 1025]).map
        (fun pool => pool.out.map MemBuffer.m_size) = some [512, 2048] := by decide
  obtain ⟨pool, reached, sizes⟩ := Option.map_eq_some_iff.mp ran
  exact ⟨pool, reached, sizes,
    (ordered_best_fit (fun _ => rfl) (by decide) reached).1⟩

end PoolUse

end EngSocket
