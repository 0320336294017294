import EngSocket.Foundation.Memory
import Mathlib.Data.List.Sort
import Mathlib.Tactic.Linarith
import Mathlib.Tactic.NormNum

/-!
# Buffers, their pool, and the process they live in

`MemBuffer` is the growing block of bytes under a message and `CMessageBufPool`
the one list in which the buffers that no message uses wait. Both are shared by
everything that runs in the process, as are the allocator, the objects built so
far and the open descriptors; `Process` gathers them.
-/

namespace EngSocket

open Foundation

/-- The C++ `int` with the same residue modulo `2 ^ 32`. -/
def int32 (value : Int) : Int := (value + 2147483648) % 4294967296 - 2147483648

/-- A sum that does not overflow is what it is. -/
theorem int32_of_range {value : Int} (low : -2147483648 ≤ value) (high : value < 2147483648) :
    int32 value = value := by
  unfold int32
  omega

theorem int32_lt (value : Int) : int32 value < 2147483648 := by
  unfold int32
  omega

/-- How a call fails to return to its caller. -/
inductive Abort
  /-- A method of `CSocketCommon` is called on the null pointer. -/
  | nullSocket
  /-- A method of `NetMessage` is called on the null pointer. -/
  | nullMessage
  /-- Bytes are stored outside the block of the buffer. -/
  | overrun
  /-- The loop of `checkBufSize` runs forever. -/
  | endless
  deriving DecidableEq, Repr

/-- A `MemBuffer`, at the address `new` gave it. `m_size` is the capacity;
`m_buf` holds what is in memory at each offset from the block's start. A block
that could not be allocated has capacity zero. -/
structure MemBuffer where
  address : Nat
  m_size : Int
  m_buf : Memory UInt8

/-- What the objects of one process share. -/
structure Process where
  /-- The list of `CMessageBufPool`. -/
  m_pool : List MemBuffer
  /-- Whether the allocator grants its `n`-th request. -/
  grants : Nat → Bool
  /-- The contents with which the block of the `n`-th request comes. -/
  junk : Nat → Memory UInt8
  /-- How many requests were made. -/
  requests : Nat
  /-- The address of the next `MemBuffer`. -/
  nextBuffer : Nat
  /-- The address of the next `NetMessage`. -/
  nextMessage : Nat
  /-- The `NetMessage`s constructed and not yet destroyed, each with the
  address of its buffer. -/
  live : List (Nat × Nat)
  /-- The addresses given to `delete` so far, the last one first. -/
  deleted : List Nat
  /-- The descriptors the kernel holds open. -/
  descriptors : List Int

/-- A process that has done nothing yet. -/
def Process.initial (grants : Nat → Bool) (junk : Nat → Memory UInt8) : Process where
  m_pool := []
  grants := grants
  junk := junk
  requests := 0
  nextBuffer := 0
  nextMessage := 0
  live := []
  deleted := []
  descriptors := []

/-- A new process whose requests are all granted, with blocks of zeros. -/
def Process.fresh : Process := .initial (fun _ => true) fun _ _ => 0

/-- `malloc` and `realloc`: the contents of the block, if the request is granted.
A negative `int` is a `size_t` beyond what any allocator grants. -/
def Process.allocate (size : Int) (process : Process) : Option (Memory UInt8) × Process :=
  (if 0 ≤ size ∧ process.grants process.requests then some (process.junk process.requests)
    else none,
    { process with requests := process.requests + 1 })

/-- `MemBuffer::MemBuffer`. -/
def Process.newMemBuffer (size : Int) (process : Process) : MemBuffer × Process :=
  let address := process.nextBuffer
  let (block, process) := process.allocate size
  let process := { process with nextBuffer := address + 1 }
  match block with
  | some contents => ({ address, m_size := size, m_buf := contents }, process)
  | none => ({ address, m_size := 0, m_buf := fun _ => 0 }, process)

/-- `MemBuffer::enlarge` with its default argument. A refused `realloc` leaves
capacity zero and frees the block. -/
def MemBuffer.enlarge (buffer : MemBuffer) (process : Process) : MemBuffer × Process :=
  let size := int32 (buffer.m_size * 2)
  let (block, process) := process.allocate size
  match block with
  | some contents =>
      ({ buffer with m_size := size, m_buf := buffer.m_buf.resize buffer.m_size contents }, process)
  | none => ({ buffer with m_size := 0 }, process)

/-- The loop `while (need > getSize()) enlarge();`, cut off after a number of
tests of its condition. -/
def MemBuffer.enlargeUntil (need : Int) :
    Nat → MemBuffer → Process → Option (MemBuffer × Process)
  | 0, _, _ => none
  | tests + 1, buffer, process =>
      if need > buffer.m_size then
        let (buffer, process) := buffer.enlarge process
        enlargeUntil need tests buffer process
      else some (buffer, process)

/-- Store bytes in the block from an offset on. -/
def MemBuffer.store (offset : Int) (bytes : List UInt8) (buffer : MemBuffer) :
    Except Abort MemBuffer :=
  if 0 ≤ offset ∧ offset + bytes.length ≤ buffer.m_size then
    .ok { buffer with m_buf := buffer.m_buf.write offset bytes }
  else .error .overrun

namespace Process

/-- `m_pool.push_back(new MemBuffer(size))`. -/
def pushNew (process : Process) (size : Int) : Process :=
  let (buffer, process) := process.newMemBuffer size
  { process with m_pool := process.m_pool ++ [buffer] }

/-- `CMessageBufPool::Init`. -/
def Init (process : Process) : Process :=
  (List.replicate 5 (512 : Int) ++ List.replicate 5 1024 ++ [65536]).foldl pushNew process

/-- `CMessageBufPool::require`. The pool is not empty once `Init` has run, so
the last case of the first `match` does not arise. -/
def require (size : Int) (process : Process) : MemBuffer × Process :=
  let process := if process.m_pool.isEmpty then process.Init else process
  if size = 0 then
    match process.m_pool with
    | buffer :: pool => (buffer, { process with m_pool := pool })
    | [] => process.newMemBuffer size
  else
    match process.m_pool.find? fun buffer => size ≤ buffer.m_size with
    | some buffer =>
        (buffer, { process with
          m_pool := process.m_pool.eraseP fun buffer => size ≤ buffer.m_size })
    | none => process.newMemBuffer size

/-- `CMessageBufPool::release`. The pool exists by the time a buffer has been
taken from it, so `m_hasInit` holds. -/
def release (buffer : MemBuffer) (process : Process) : Process :=
  { process with
    m_pool := process.m_pool.orderedInsert (fun first second => first.m_size ≤ second.m_size)
      buffer }

end Process

/-! ## Growth

Capacities begin at 512, 1024 or 65536 and are only ever doubled. -/

/-- A capacity that doubling reaches without overflowing `int`. -/
def MemBuffer.Sound (buffer : MemBuffer) : Prop :=
  ∃ doublings ≤ 21, buffer.m_size = 512 * 2 ^ doublings

/-- A capacity that an `int` holds. -/
def MemBuffer.Ranged (buffer : MemBuffer) : Prop := buffer.m_size < 2147483648

instance (buffer : MemBuffer) : Decidable buffer.Ranged :=
  inferInstanceAs (Decidable (buffer.m_size < 2147483648))

/-- A capacity of at least what a message asks for that an `int` holds. -/
structure MemBuffer.Roomy (buffer : MemBuffer) : Prop where
  least : 512 ≤ buffer.m_size
  ranged : buffer.Ranged

/-- The allocator refuses nothing. -/
def Process.Generous (process : Process) : Prop := ∀ request, process.grants request = true

/-- A buffer that was enlarged: the same object with at least the capacity and
the same bytes within the earlier one. -/
structure MemBuffer.Grown (before after : MemBuffer) : Prop where
  address : after.address = before.address
  size : before.m_size ≤ after.m_size
  kept : ∀ offset < before.m_size, after.m_buf offset = before.m_buf offset

namespace MemBuffer

variable {buffer : MemBuffer} {process : Process}

theorem Grown.refl (buffer : MemBuffer) : buffer.Grown buffer := ⟨rfl, le_rfl, fun _ _ => rfl⟩

/-- Growing in two steps is growing. -/
theorem Grown.trans {first second third : MemBuffer} (earlier : first.Grown second)
    (later : second.Grown third) : first.Grown third where
  address := later.address.trans earlier.address
  size := earlier.size.trans later.size
  kept := fun offset below =>
    (later.kept offset (lt_of_lt_of_le below earlier.size)).trans (earlier.kept offset below)

/-- Growth keeps every window inside the earlier capacity. -/
theorem Grown.read_eq {before after : MemBuffer} (grown : before.Grown after) {start : Int}
    {length : Nat} (within : start + length ≤ before.m_size) :
    after.m_buf.read start length = before.m_buf.read start length :=
  Memory.read_congr fun offset _ high => grown.kept offset (by omega)

/-- 512 bytes doubled up to 21 times are at most `2 ^ 30`. -/
theorem size_of_doublings {doublings : Nat} (atMost : doublings ≤ 21) :
    512 ≤ (512 : Int) * 2 ^ doublings ∧ (512 : Int) * 2 ^ doublings ≤ 1073741824 := by
  have low : (2 : Int) ^ 0 ≤ 2 ^ doublings := pow_le_pow_right₀ (by norm_num) (Nat.zero_le _)
  have high : (2 : Int) ^ doublings ≤ 2 ^ 21 := pow_le_pow_right₀ (by norm_num) atMost
  norm_num at low high
  omega

/-- A sound buffer has between 512 and `2 ^ 30` bytes. -/
theorem Sound.size_bounds (sound : buffer.Sound) :
    512 ≤ buffer.m_size ∧ buffer.m_size ≤ 1073741824 := by
  obtain ⟨doublings, atMost, size⟩ := sound
  rw [size]
  exact size_of_doublings atMost

/-! ### One enlargement -/

/-- Enlarging counts one request to the allocator and changes nothing else of
the process. -/
theorem enlarge_process (buffer : MemBuffer) (process : Process) :
    (buffer.enlarge process).2 = { process with requests := process.requests + 1 } := by
  simp only [enlarge, Process.allocate]
  split <;> rfl

/-- `enlarge` keeps the object, wherever the block goes. -/
theorem enlarge_address (buffer : MemBuffer) (process : Process) :
    (buffer.enlarge process).1.address = buffer.address := by
  simp only [enlarge, Process.allocate]
  split <;> rfl

/-- A granted request for a capacity that is an `int` doubles the block. -/
theorem enlarge_granted (granted : process.grants process.requests = true)
    (nonnegative : 0 ≤ buffer.m_size) (small : buffer.m_size < 1073741824) :
    (buffer.enlarge process).1.m_size = buffer.m_size * 2 ∧
      buffer.Grown (buffer.enlarge process).1 := by
  have size : int32 (buffer.m_size * 2) = buffer.m_size * 2 :=
    int32_of_range (by omega) (by omega)
  have allowed : 0 ≤ buffer.m_size * 2 ∧ process.grants process.requests = true :=
    ⟨by omega, granted⟩
  have enlarged : buffer.enlarge process =
      ({ buffer with
          m_size := buffer.m_size * 2
          m_buf := buffer.m_buf.resize buffer.m_size (process.junk process.requests) },
        { process with requests := process.requests + 1 }) := by
    simp only [enlarge, Process.allocate, size, if_pos allowed]
  rw [enlarged]
  refine ⟨rfl, rfl, ?_, ?_⟩
  · change buffer.m_size ≤ buffer.m_size * 2
    omega
  · intro offset below
    exact if_pos below

/-- Any other request empties the buffer. -/
theorem enlarge_refused (low : 0 ≤ buffer.m_size) (high : buffer.m_size < 2147483648)
    (refused : ¬ (buffer.m_size < 1073741824 ∧ process.grants process.requests = true)) :
    (buffer.enlarge process).1.m_size = 0 := by
  have denied : ¬ (0 ≤ int32 (buffer.m_size * 2) ∧ process.grants process.requests = true) := by
    rintro ⟨nonnegative, granted⟩
    apply refused
    refine ⟨?_, granted⟩
    unfold int32 at nonnegative
    omega
  simp only [enlarge, Process.allocate, if_neg denied]

/-! ### The loop -/

/-- The loop keeps the object and counts its requests. -/
theorem enlargeUntil_some {need : Int} {tests : Nat} {after : MemBuffer} {left : Process}
    (done : buffer.enlargeUntil need tests process = some (after, left)) :
    after.address = buffer.address ∧ ∃ requests, left = { process with requests } := by
  induction tests generalizing buffer process with
  | zero => cases done
  | succ tests ih =>
      unfold enlargeUntil at done
      by_cases short : need > buffer.m_size
      · rw [if_pos short] at done
        obtain ⟨address, requests, rest⟩ := @ih (buffer.enlarge process).1
          (buffer.enlarge process).2 done
        rw [enlarge_process] at rest
        exact ⟨address.trans (enlarge_address buffer process), requests, rest⟩
      · rw [if_neg short] at done
        cases done
        exact ⟨rfl, _, rfl⟩

/-- The demand is met by a number of doublings which stay within `int`, and for
which the allocator grants its next requests. -/
def Reaches (need : Int) (buffer : MemBuffer) (process : Process) : Prop :=
  ∃ doublings : Nat, need ≤ buffer.m_size * 2 ^ doublings ∧
    buffer.m_size * 2 ^ doublings < 2147483648 ∧
      ∀ request < doublings, process.grants (process.requests + request) = true

/-- A buffer that the loop has enlarged by doubling it a number of times. -/
structure Doubled (need : Int) (before after : MemBuffer) : Prop extends Grown before after where
  covers : need ≤ after.m_size
  doubled : ∃ doublings : Nat, after.m_size = before.m_size * 2 ^ doublings
  range : after.m_size < 2147483648

theorem two_pow_pos (doublings : Nat) : (0 : Int) < 2 ^ doublings := pow_pos (by norm_num) doublings

/-- A positive capacity is doubled at most thirty times within `int`. -/
theorem doublings_le {size : Int} {doublings : Nat} (positive : 0 < size)
    (range : size * 2 ^ doublings < 2147483648) : doublings ≤ 30 := by
  by_contra many
  have wide : (2 : Int) ^ 31 ≤ 2 ^ doublings := pow_le_pow_right₀ (by norm_num) (by omega)
  have one : 1 * 2 ^ doublings ≤ size * 2 ^ doublings :=
    mul_le_mul_of_nonneg_right positive (two_pow_pos doublings).le
  norm_num at wide
  omega

/-- **The loop ends** when doubling reaches the demand. The induction is on the
doublings that reach it. -/
theorem enlargeUntil_doubled {need : Int} {doublings : Nat} (tests : Nat)
    (enough : doublings < tests) (positive : 0 < buffer.m_size)
    (reaches : need ≤ buffer.m_size * 2 ^ doublings)
    (range : buffer.m_size * 2 ^ doublings < 2147483648)
    (granted : ∀ request < doublings, process.grants (process.requests + request) = true) :
    ∃ after requests,
      buffer.enlargeUntil need tests process = some (after, { process with requests }) ∧
        Doubled need buffer after := by
  obtain ⟨tests, rfl⟩ : ∃ others, tests = others + 1 := ⟨tests - 1, by omega⟩
  induction doublings generalizing buffer process tests with
  | zero =>
      rw [pow_zero, mul_one] at reaches range
      refine ⟨buffer, process.requests, ?_, Grown.refl buffer, reaches, ⟨0, ?_⟩, range⟩
      · rw [enlargeUntil, if_neg (by omega)]
      · rw [pow_zero, mul_one]
  | succ doublings ih =>
      have twice : buffer.m_size * 2 ^ (doublings + 1) = buffer.m_size * 2 * 2 ^ doublings := by
        rw [pow_succ', mul_assoc]
      have one : 1 ≤ (2 : Int) ^ doublings := two_pow_pos doublings
      have below : buffer.m_size * 2 < 2147483648 := by
        have wider : buffer.m_size * 2 * 1 ≤ buffer.m_size * 2 * 2 ^ doublings :=
          mul_le_mul_of_nonneg_left one (by omega)
        omega
      by_cases short : need > buffer.m_size
      · have first : process.grants process.requests = true := granted 0 (Nat.succ_pos doublings)
        obtain ⟨size, grown⟩ := enlarge_granted first positive.le (by omega)
        obtain ⟨tests, rfl⟩ : ∃ others, tests = others + 1 := ⟨tests - 1, by omega⟩
        obtain ⟨after, requests, result, doubled⟩ :=
          @ih (buffer.enlarge process).1 (buffer.enlarge process).2 (by omega)
            (by rw [size, ← twice]; exact reaches) (by rw [size, ← twice]; exact range)
            (by
              intro request below
              rw [enlarge_process]
              have next := granted (request + 1) (by omega)
              rwa [Nat.add_comm request 1, ← Nat.add_assoc] at next) tests (by omega)
        refine ⟨after, requests, ?_, grown.trans doubled.toGrown, doubled.covers, ?_,
          doubled.range⟩
        · rw [enlargeUntil, if_pos short]
          exact result.trans (by rw [enlarge_process])
        · obtain ⟨times, doubled⟩ := doubled.doubled
          refine ⟨times + 1, ?_⟩
          rw [doubled, size, pow_succ', mul_assoc]
      · refine ⟨buffer, process.requests, ?_, Grown.refl buffer, not_lt.mp short, ⟨0, ?_⟩, ?_⟩
        · rw [enlargeUntil, if_neg short]
        · rw [pow_zero, mul_one]
        · omega

/-- A demand that doubling reaches is met within 33 tests. -/
theorem enlargeUntil_of_reaches {need : Int} (positive : 0 < buffer.m_size)
    (reaches : buffer.Reaches need process) :
    ∃ after requests,
      buffer.enlargeUntil need 33 process = some (after, { process with requests }) ∧
        Doubled need buffer after := by
  obtain ⟨doublings, enough, range, granted⟩ := reaches
  have few := doublings_le positive range
  exact enlargeUntil_doubled 33 (by omega) positive enough range granted

/-- Whatever the allocator answers, enlarging doubles modulo `2 ^ 32` or empties. -/
theorem enlarge_size_cases (buffer : MemBuffer) (process : Process) :
    (buffer.enlarge process).1.m_size = int32 (buffer.m_size * 2) ∨
      (buffer.enlarge process).1.m_size = 0 := by
  simp only [enlarge, Process.allocate]
  split
  · exact Or.inl rfl
  · exact Or.inr rfl

theorem enlarge_ranged (buffer : MemBuffer) (process : Process) :
    (buffer.enlarge process).1.Ranged := by
  unfold Ranged
  rcases enlarge_size_cases buffer process with doubled | empty
  · rw [doubled]
    unfold int32
    omega
  · omega

/-- The capacity stays an `int`. -/
theorem Ranged.enlargeUntil {need : Int} {tests : Nat} {after : MemBuffer} {left : Process}
    (ranged : buffer.Ranged)
    (done : buffer.enlargeUntil need tests process = some (after, left)) : after.Ranged := by
  induction tests generalizing buffer process with
  | zero => cases done
  | succ tests ih =>
      unfold MemBuffer.enlargeUntil at done
      by_cases short : need > buffer.m_size
      · rw [if_pos short] at done
        exact ih (enlarge_ranged buffer process) done
      · rw [if_neg short] at done
        cases done
        exact ranged

/-- Doubling an `int` adds a factor of two, up to the overflow. -/
theorem enlarge_dvd (process : Process) {power : Nat}
    (divides : (2 : Int) ^ power ∣ buffer.m_size) :
    (2 : Int) ^ min (power + 1) 32 ∣ (buffer.enlarge process).1.m_size := by
  have modulus : (2 : Int) ^ min (power + 1) 32 ∣ 4294967296 :=
    pow_dvd_pow (2 : Int) (Nat.min_le_right (power + 1) 32)
  have double : (2 : Int) ^ min (power + 1) 32 ∣ buffer.m_size * 2 :=
    (pow_dvd_pow (2 : Int) (Nat.min_le_left (power + 1) 32)).trans
      (by rw [pow_succ]; exact mul_dvd_mul_right divides 2)
  rcases enlarge_size_cases buffer process with doubled | empty
  · have shifted : int32 (buffer.m_size * 2) =
        buffer.m_size * 2 - 4294967296 * ((buffer.m_size * 2 + 2147483648) / 4294967296) := by
      unfold int32
      omega
    rw [doubled, shifted]
    exact Int.dvd_sub double (dvd_mul_of_dvd_left modulus _)
  · rw [empty]
    exact dvd_zero _

/-- A capacity that does not meet the demand and can only become zero. -/
theorem enlargeUntil_of_zero {need : Int} (positive : 0 < need) (tests : Nat)
    (empty : buffer.m_size = 0) : buffer.enlargeUntil need tests process = none := by
  induction tests generalizing buffer process with
  | zero => rfl
  | succ tests ih =>
      have short : need > buffer.m_size := by omega
      have stays : (buffer.enlarge process).1.m_size = 0 := by
        rcases enlarge_size_cases buffer process with doubled | zero
        · rw [doubled, empty]
          rfl
        · exact zero
      rw [enlargeUntil, if_pos short]
      exact ih stays

/-- The cut-off loses nothing: after 32 enlargements the capacity is zero for
good, so a loop still running at the 33rd test never ends. The induction is on
the tests left, which with the power of two in the capacity make 32. -/
theorem enlargeUntil_cutoff {need : Int} (left power : Nat) (sum : left + power = 32)
    (divides : (2 : Int) ^ power ∣ buffer.m_size) (low : -2147483648 ≤ buffer.m_size)
    (high : buffer.m_size < 2147483648)
    (running : buffer.enlargeUntil need (left + 1) process = none) (tests : Nat) :
    buffer.enlargeUntil need tests process = none := by
  induction left generalizing buffer process power tests with
  | zero =>
      obtain rfl : power = 32 := by omega
      have empty : buffer.m_size = 0 := by
        obtain ⟨factor, equal⟩ := divides
        norm_num at equal
        omega
      have positive : 0 < need := by
        by_contra met
        have notShort : ¬ need > buffer.m_size := by omega
        rw [enlargeUntil, if_neg notShort] at running
        exact Option.some_ne_none _ running
      exact enlargeUntil_of_zero positive tests empty
  | succ left ih =>
      have short : need > buffer.m_size := by
        by_contra met
        rw [enlargeUntil, if_neg met] at running
        exact Option.some_ne_none _ running
      rw [enlargeUntil, if_pos short] at running
      have next := enlarge_dvd process divides
      rw [Nat.min_eq_left (by omega)] at next
      have range : -2147483648 ≤ (buffer.enlarge process).1.m_size ∧
          (buffer.enlarge process).1.m_size < 2147483648 := by
        rcases enlarge_size_cases buffer process with doubled | zero
        · rw [doubled]
          unfold int32
          omega
        · omega
      cases tests with
      | zero => rfl
      | succ tests =>
          rw [enlargeUntil, if_pos short]
          exact ih (power + 1) (by omega) next range.1 range.2 running tests

/-- **Otherwise the loop never ends.** The capacity becomes zero, by a request
that is refused or one that no `int` holds. -/
theorem enlargeUntil_of_not_reaches {need : Int} (tests : Nat) (positive : 0 < buffer.m_size)
    (range : buffer.m_size < 2147483648) (out : ¬ buffer.Reaches need process) :
    buffer.enlargeUntil need tests process = none := by
  induction tests generalizing buffer process with
  | zero => rfl
  | succ tests ih =>
      have short : need > buffer.m_size := by
        by_contra met
        apply out
        refine ⟨0, ?_, ?_, fun request below => absurd below (Nat.not_lt_zero request)⟩
        · rw [pow_zero, mul_one]
          omega
        · rw [pow_zero, mul_one]
          exact range
      rw [enlargeUntil, if_pos short]
      by_cases doubles : buffer.m_size < 1073741824 ∧ process.grants process.requests = true
      · obtain ⟨small, granted⟩ := doubles
        obtain ⟨size, -⟩ := enlarge_granted granted positive.le small
        apply @ih (buffer.enlarge process).1 (buffer.enlarge process).2
        · omega
        · omega
        · rintro ⟨doublings, enough, within, later⟩
          have twice : (buffer.enlarge process).1.m_size * 2 ^ doublings =
              buffer.m_size * 2 ^ (doublings + 1) := by
            rw [size, pow_succ', mul_assoc]
          rw [enlarge_process] at later
          refine out ⟨doublings + 1, twice ▸ enough, twice ▸ within, ?_⟩
          intro request below
          cases request with
          | zero => exact granted
          | succ request =>
              have next := later request (by omega)
              change process.grants (process.requests + 1 + request) = true at next
              rwa [Nat.add_assoc, Nat.add_comm 1 request] at next
      · exact enlargeUntil_of_zero (by omega) tests (enlarge_refused positive.le range doubles)

/-- A loop that has ended has doubled the buffer. -/
theorem enlargeUntil_some_doubled {need : Int} {after : MemBuffer} {left : Process}
    (positive : 0 < buffer.m_size) (range : buffer.m_size < 2147483648)
    (done : buffer.enlargeUntil need 33 process = some (after, left)) :
    buffer.Doubled need after := by
  by_cases reaches : buffer.Reaches need process
  · obtain ⟨grown, requests, result, doubled⟩ := enlargeUntil_of_reaches positive reaches
    cases done.symm.trans result
    exact doubled
  · cases done.symm.trans (enlargeUntil_of_not_reaches 33 positive range reaches)

/-! ### Capacities reached by doubling -/

/-- **What an `int` holds of doubling.** The last double below a demand of at most
`2 ^ 30` is below `2 ^ 30` too, so that the next one is an `int`. -/
theorem reaches_of_le {need : Int} (positive : 0 < buffer.m_size) (ranged : buffer.Ranged)
    (bounded : need ≤ 1073741824) (generous : process.Generous) : buffer.Reaches need process := by
  have exists_ : ∃ doublings : Nat, need ≤ buffer.m_size * 2 ^ doublings := by
    refine ⟨30, bounded.trans ?_⟩
    norm_num
    omega
  refine ⟨Nat.find exists_, Nat.find_spec exists_, ?_, fun request _ => generous _⟩
  cases found : Nat.find exists_ with
  | zero =>
      rw [pow_zero, mul_one]
      exact ranged
  | succ doublings =>
      have short : ¬ need ≤ buffer.m_size * 2 ^ doublings := Nat.find_min exists_ (by omega)
      rw [pow_succ, ← mul_assoc]
      omega

theorem Sound.roomy (sound : buffer.Sound) : buffer.Roomy := by
  have bounds := sound.size_bounds
  exact ⟨bounds.1, by unfold Ranged; omega⟩

/-- A sound buffer reaches every demand of up to `2 ^ 30` bytes. -/
theorem Sound.reaches (sound : buffer.Sound) {need : Int} (bounded : need ≤ 1073741824)
    (generous : process.Generous) : buffer.Reaches need process :=
  reaches_of_le (by have := sound.size_bounds; omega) sound.roomy.ranged bounded generous

/-- Doubling a sound capacity within `int` leaves it sound. -/
theorem Doubled.sound {need : Int} {after : MemBuffer} (doubled : Doubled need buffer after)
    (sound : buffer.Sound) : after.Sound := by
  obtain ⟨doublings, -, size⟩ := sound
  obtain ⟨times, doubled_⟩ := doubled.doubled
  have whole : after.m_size = 512 * 2 ^ (doublings + times) := by
    rw [doubled_, size, pow_add, mul_assoc]
  refine ⟨doublings + times, ?_, whole⟩
  by_contra many
  have wide : (2 : Int) ^ 22 ≤ 2 ^ (doublings + times) :=
    pow_le_pow_right₀ (by norm_num) (by omega)
  have range := doubled.range
  norm_num at wide
  omega

theorem Doubled.roomy {need : Int} {after : MemBuffer} (doubled : Doubled need buffer after)
    (roomy : buffer.Roomy) : after.Roomy := ⟨roomy.least.trans doubled.size, doubled.range⟩

/-- Doubling never reaches a demand beyond `2 ^ 30`. -/
theorem Sound.not_reaches (sound : buffer.Sound) {need : Int} (beyond : 1073741824 < need) :
    ¬ buffer.Reaches need process := by
  rintro ⟨doublings, enough, within, -⟩
  obtain ⟨earlier, -, size⟩ := sound
  rw [size, mul_assoc, ← pow_add] at enough within
  have few : earlier + doublings < 22 := by
    by_contra many
    have wide : (2 : Int) ^ 22 ≤ 2 ^ (earlier + doublings) :=
      pow_le_pow_right₀ (by norm_num) (by omega)
    norm_num at wide
    omega
  have top := (size_of_doublings (show earlier + doublings ≤ 21 by omega)).2
  omega

end MemBuffer

namespace Process

variable {process : Process}

/-- Every buffer waiting in the pool has a property. -/
def Stocked (good : MemBuffer → Prop) (process : Process) : Prop :=
  ∀ buffer ∈ process.m_pool, good buffer

/-- Every buffer waiting in the pool has a capacity reached by doubling. -/
def PoolSound (process : Process) : Prop := process.Stocked MemBuffer.Sound

/-- Whatever was requested before, a new buffer of a capacity has a property. -/
def Supplies (good : MemBuffer → Prop) (size : Int) (process : Process) : Prop :=
  ∀ current : Process, current.grants = process.grants → good (current.newMemBuffer size).1

/-- A new buffer counts one request and takes the next address. -/
theorem newMemBuffer_process (size : Int) (process : Process) :
    (process.newMemBuffer size).2 =
      { process with
        requests := process.requests + 1, nextBuffer := process.nextBuffer + 1 } := by
  simp only [newMemBuffer, allocate]
  split <;> rfl

/-- The same messages have been made and deleted, and the allocator answers as
before. -/
structure SameObjects (before after : Process) : Prop where
  grants : after.grants = before.grants
  live : after.live = before.live
  deleted : after.deleted = before.deleted
  nextMessage : after.nextMessage = before.nextMessage

theorem SameObjects.refl (process : Process) : process.SameObjects process := ⟨rfl, rfl, rfl, rfl⟩

/-- Calls that make no messages make none together. -/
theorem SameObjects.trans {first second third : Process} (earlier : first.SameObjects second)
    (later : second.SameObjects third) : first.SameObjects third where
  grants := later.grants.trans earlier.grants
  live := later.live.trans earlier.live
  deleted := later.deleted.trans earlier.deleted
  nextMessage := later.nextMessage.trans earlier.nextMessage

theorem newMemBuffer_same (size : Int) (process : Process) :
    process.SameObjects (process.newMemBuffer size).2 := by
  rw [newMemBuffer_process]
  exact ⟨rfl, rfl, rfl, rfl⟩

theorem pushNew_same (size : Int) (process : Process) :
    process.SameObjects (process.pushNew size) := by
  obtain ⟨grants, live, deleted, nextMessage⟩ := newMemBuffer_same size process
  exact ⟨grants, live, deleted, nextMessage⟩

theorem Init_same (process : Process) : process.SameObjects process.Init := by
  unfold Process.Init
  generalize List.replicate 5 (512 : Int) ++ List.replicate 5 1024 ++ [65536] = sizes
  induction sizes generalizing process with
  | nil => exact .refl process
  | cons size sizes ih => exact (pushNew_same size process).trans (ih (process.pushNew size))

/-- The process in which `require` looks for a buffer. -/
theorem filled_same (process : Process) :
    process.SameObjects (if process.m_pool.isEmpty then process.Init else process) := by
  split
  · exact process.Init_same
  · exact .refl process

/-- `require` makes no message. -/
theorem require_same (size : Int) (process : Process) :
    process.SameObjects (process.require size).2 := by
  have same := process.filled_same
  unfold Process.require
  generalize (if process.m_pool.isEmpty then process.Init else process) = current at same
  simp only
  split
  · split
    · exact same.trans ⟨rfl, rfl, rfl, rfl⟩
    · exact same.trans (newMemBuffer_same size current)
  · split
    · exact same.trans ⟨rfl, rfl, rfl, rfl⟩
    · exact same.trans (newMemBuffer_same size current)

theorem newMemBuffer_address (size : Int) (process : Process) :
    (process.newMemBuffer size).1.address = process.nextBuffer := by
  simp only [newMemBuffer, allocate]
  split <;> rfl

/-- A buffer has the size that was asked for, or none if `malloc` has failed. -/
theorem newMemBuffer_size_cases (size : Int) (process : Process) :
    (process.newMemBuffer size).1.m_size = size ∨ (process.newMemBuffer size).1.m_size = 0 := by
  simp only [newMemBuffer, allocate]
  split
  · exact Or.inl rfl
  · exact Or.inr rfl

/-- It has that size if the request is granted. -/
theorem newMemBuffer_size {size : Int} (nonnegative : 0 ≤ size)
    (granted : process.grants process.requests = true) :
    (process.newMemBuffer size).1.m_size = size := by
  have allowed : 0 ≤ size ∧ process.grants process.requests = true := ⟨nonnegative, granted⟩
  simp only [newMemBuffer, allocate, if_pos allowed]

theorem pushNew_pool (size : Int) (process : Process) :
    (process.pushNew size).m_pool = process.m_pool ++ [(process.newMemBuffer size).1] := by
  change (process.newMemBuffer size).2.m_pool ++ [(process.newMemBuffer size).1] = _
  rw [newMemBuffer_process]

section

variable {good : MemBuffer → Prop}

theorem Supplies.of_grants {size : Int} {current : Process} (supplies : process.Supplies good size)
    (same : current.grants = process.grants) : current.Supplies good size :=
  fun later later_same => supplies later (later_same.trans same)

theorem Stocked.pushNew (stocked : process.Stocked good) {size : Int}
    (supplies : process.Supplies good size) : (process.pushNew size).Stocked good := by
  intro buffer member
  rw [pushNew_pool, List.mem_append, List.mem_singleton] at member
  rcases member with old | rfl
  · exact stocked buffer old
  · exact supplies process rfl

/-- A batch is as good as its buffers. -/
theorem Stocked.Init (stocked : process.Stocked good)
    (supplies : ∀ size ∈ [512, 1024, 65536], process.Supplies good size) :
    process.Init.Stocked good := by
  have capacities : ∀ size ∈ List.replicate 5 (512 : Int) ++ List.replicate 5 1024 ++ [65536],
      process.Supplies good size := by
    intro size member
    simp only [List.mem_append, List.mem_replicate, List.mem_singleton] at member
    rcases member with (⟨-, rfl⟩ | ⟨-, rfl⟩) | rfl
    · exact supplies 512 (by decide)
    · exact supplies 1024 (by decide)
    · exact supplies 65536 (by decide)
  unfold Process.Init
  generalize List.replicate 5 (512 : Int) ++ List.replicate 5 1024 ++ [65536] = sizes at capacities
  clear supplies
  induction sizes generalizing process with
  | nil => exact stocked
  | cons size sizes ih =>
      apply @ih (process.pushNew size) (stocked.pushNew (capacities size List.mem_cons_self))
      intro other member
      exact (capacities other (List.mem_cons_of_mem _ member)).of_grants
        (pushNew_same size process).grants

/-- A buffer handed out was in the pool or is new, and nothing else enters the
pool but the buffers of `Init`. -/
theorem Stocked.require (stocked : process.Stocked good) {size : Int}
    (supplies : ∀ capacity ∈ [512, 1024, 65536, size], process.Supplies good capacity) :
    good (process.require size).1 ∧ (process.require size).2.Stocked good := by
  have filled : (if process.m_pool.isEmpty then process.Init else process).Stocked good := by
    split
    · apply stocked.Init
      intro capacity member
      apply supplies capacity
      simp only [List.mem_cons, List.not_mem_nil, or_false] at member ⊢
      tauto
    · exact stocked
  have grants := process.filled_same.grants
  unfold Process.require
  generalize (if process.m_pool.isEmpty then process.Init else process) = current at filled grants
  have made : good (current.newMemBuffer size).1 ∧ (current.newMemBuffer size).2.Stocked good := by
    rw [newMemBuffer_process]
    exact ⟨supplies size (by simp) current grants, filled⟩
  simp only
  split
  · split
    · next buffer pool front =>
        have both : ∀ other ∈ buffer :: pool, good other := front ▸ filled
        exact ⟨both buffer List.mem_cons_self,
          fun other member => both other (List.mem_cons_of_mem _ member)⟩
    · exact made
  · split
    · next buffer found =>
        exact ⟨filled buffer (List.mem_of_find?_eq_some found),
          fun other member => filled other (List.mem_of_mem_eraseP member)⟩
    · exact made

/-- A good buffer can go back to the pool. -/
theorem Stocked.release (stocked : process.Stocked good) {buffer : MemBuffer}
    (returned : good buffer) : (process.release buffer).Stocked good := by
  intro other member
  simp only [Process.release, List.mem_orderedInsert] at member
  rcases member with rfl | old
  · exact returned
  · exact stocked other old

end

theorem supplies_ranged {size : Int} (small : size < 2147483648) (process : Process) :
    process.Supplies MemBuffer.Ranged size := by
  intro current _
  unfold MemBuffer.Ranged
  rcases newMemBuffer_size_cases size current with granted | refused
  · omega
  · omega

theorem Generous.supplies_doubled (generous : process.Generous) (doublings : Nat)
    (atMost : doublings ≤ 21) : process.Supplies MemBuffer.Sound (512 * 2 ^ doublings) := by
  intro current same
  have bounds := MemBuffer.size_of_doublings atMost
  refine ⟨doublings, atMost, newMemBuffer_size (by omega) ?_⟩
  rw [same]
  exact generous _

/-- The capacities of `Init` are sound. -/
theorem Generous.supplies (generous : process.Generous) :
    ∀ size ∈ [512, 1024, 65536], process.Supplies MemBuffer.Sound size := by
  intro size member
  simp only [List.mem_cons, List.not_mem_nil, or_false] at member
  rcases member with rfl | rfl | rfl
  · exact generous.supplies_doubled 0 (by omega)
  · exact generous.supplies_doubled 1 (by omega)
  · exact generous.supplies_doubled 7 (by omega)

/-- A buffer required at the size every message asks for comes from what `Init`
supplies. -/
theorem Stocked.require_message {good : MemBuffer → Prop} (stocked : process.Stocked good)
    (supplies : ∀ size ∈ [512, 1024, 65536], process.Supplies good size) :
    good (process.require 512).1 ∧ (process.require 512).2.Stocked good := by
  have all : ∀ capacity ∈ [512, 1024, 65536, (512 : Int)], process.Supplies good capacity := by
    intro capacity member
    apply supplies capacity
    simp only [List.mem_cons, List.not_mem_nil, or_false] at member ⊢
    tauto
  exact stocked.require all

end Process

end EngSocket
