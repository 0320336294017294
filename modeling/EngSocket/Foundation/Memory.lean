import Mathlib.Data.List.Basic
import Mathlib.Data.List.GetD
import Mathlib.Data.Int.Basic
import Mathlib.Data.Int.Cast.Lemmas
import Mathlib.Algebra.Order.Ring.Int

/-!
# Blocks of memory

A block is the contents of memory by offset from the start of the block; what
lies outside the block's bounds is whatever memory holds there. `read` copies a
window out, `write` copies one in, and `resize` is a reallocation which keeps
the first cells and takes the others from elsewhere.
-/

namespace Foundation

/-- Memory contents by offset. -/
abbrev Memory (Cell : Type*) := Int → Cell

namespace Memory

variable {Cell : Type*}

/-- The cells of the window of `length` cells at `start`. -/
def read (memory : Memory Cell) (start : Int) (length : Nat) : List Cell :=
  (List.range length).map fun index : Nat => memory (start + index)

/-- Copy cells over the window that begins at `start`. -/
def write (memory : Memory Cell) (start : Int) (cells : List Cell) : Memory Cell := fun offset =>
  if offset < start then memory offset
  else cells.getD (offset - start).toNat (memory offset)

/-- Keep the cells below `bound` and take the others from `rest`. -/
def resize (memory : Memory Cell) (bound : Int) (rest : Memory Cell) : Memory Cell := fun offset =>
  if offset < bound then memory offset else rest offset

@[simp] theorem length_read (memory : Memory Cell) (start : Int) (length : Nat) :
    (memory.read start length).length = length := by
  simp only [read, List.length_map, List.length_range]

@[simp] theorem read_zero (memory : Memory Cell) (start : Int) : memory.read start 0 = [] := rfl

theorem read_succ (memory : Memory Cell) (start : Int) (length : Nat) :
    memory.read start (length + 1) = memory.read start length ++ [memory (start + length)] := by
  simp only [read, List.range_succ, List.map_append, List.map_cons, List.map_nil]

theorem read_congr {memory other : Memory Cell} {start : Int} {length : Nat}
    (same : ∀ offset, start ≤ offset → offset < start + length → memory offset = other offset) :
    memory.read start length = other.read start length := by
  unfold read
  apply List.map_congr_left
  intro index member
  rw [List.mem_range] at member
  exact same _ (by omega) (by omega)

/-- Adjacent windows read as one. -/
theorem read_add (memory : Memory Cell) (start : Int) (first second : Nat) :
    memory.read start (first + second) =
      memory.read start first ++ memory.read (start + first) second := by
  induction second with
  | zero => simp only [Nat.add_zero, read_zero, List.append_nil]
  | succ second ih =>
      rw [← Nat.add_assoc, read_succ, ih, read_succ, List.append_assoc, Nat.cast_add, add_assoc]

theorem write_of_lt (memory : Memory Cell) {start offset : Int} (cells : List Cell)
    (before : offset < start) : memory.write start cells offset = memory offset := by
  simp only [write, before, ↓reduceIte]

theorem write_of_le (memory : Memory Cell) {start offset : Int} (cells : List Cell)
    (after : start + cells.length ≤ offset) :
    memory.write start cells offset = memory offset := by
  have inside : ¬ offset < start := by omega
  have beyond : cells.length ≤ (offset - start).toNat := by omega
  simp only [write, inside, ↓reduceIte]
  exact List.getD_eq_default _ _ beyond

@[simp] theorem write_nil (memory : Memory Cell) (start : Int) :
    memory.write start [] = memory := by
  funext offset
  simp only [write, List.getD_nil, ite_self]

/-- Writing leaves every window outside the written one unchanged. -/
theorem read_write_of_disjoint (memory : Memory Cell) {start target : Int} {length : Nat}
    (cells : List Cell)
    (disjoint : start + length ≤ target ∨ target + cells.length ≤ start) :
    (memory.write target cells).read start length = memory.read start length := by
  apply read_congr
  intro offset low high
  rcases disjoint with before | after
  · exact write_of_lt memory cells (by omega)
  · exact write_of_le memory cells (by omega)

/-- What was written is what is read back. -/
@[simp] theorem read_write_self (memory : Memory Cell) (start : Int) (cells : List Cell) :
    (memory.write start cells).read start cells.length = cells := by
  apply List.ext_getElem
  · exact length_read _ _ _
  · intro index inside bound
    have notBefore : ¬ start + (index : Int) < start := by omega
    have position : (start + (index : Int) - start).toNat = index := by omega
    simp only [read, List.getElem_map, List.getElem_range, write, notBefore, ↓reduceIte, position]
    exact List.getD_eq_getElem _ _ bound

/-- A write that continues a window extends what the window reads. -/
theorem read_write_extend (memory : Memory Cell) (start : Int) (length : Nat) (cells : List Cell) :
    (memory.write (start + length) cells).read start (length + cells.length) =
      memory.read start length ++ cells := by
  rw [read_add, read_write_self, read_write_of_disjoint memory cells (Or.inl le_rfl)]

/-- A write in front of a window is read before what the window reads. -/
theorem read_write_front (memory : Memory Cell) (start : Int) (cells : List Cell) (length : Nat) :
    (memory.write start cells).read start (cells.length + length) =
      cells ++ memory.read (start + cells.length) length := by
  rw [read_add, read_write_self, read_write_of_disjoint memory cells (Or.inr le_rfl)]

/-- Two writes side by side are one. -/
theorem write_write (memory : Memory Cell) (start : Int) (first second : List Cell) :
    (memory.write start first).write (start + first.length) second =
      memory.write start (first ++ second) := by
  funext offset
  by_cases before : offset < start
  · rw [write_of_lt _ _ (by omega), write_of_lt _ _ before, write_of_lt _ _ before]
  by_cases within : offset < start + first.length
  · rw [write_of_lt _ _ within]
    simp only [write, before, ↓reduceIte]
    rw [List.getD_append _ _ _ _ (by omega)]
  · have position : (offset - (start + first.length)).toNat =
        (offset - start).toNat - first.length := by omega
    rw [write, if_neg within, write_of_le memory first (by omega)]
    simp only [write, before, ↓reduceIte]
    rw [List.getD_append_right _ _ _ _ (by omega), position]

/-- So they are with the second one first. -/
theorem write_write_front (memory : Memory Cell) (start : Int) (first second : List Cell) :
    (memory.write (start + first.length) second).write start first =
      memory.write start (first ++ second) := by
  rw [← write_write]
  funext offset
  by_cases before : offset < start + first.length
  · rw [write_of_lt _ second before]
    by_cases early : offset < start
    · rw [write_of_lt _ _ early, write_of_lt _ _ early, write_of_lt _ _ (by omega)]
    · have inside : (offset - start).toNat < first.length := by omega
      simp only [write, early, ↓reduceIte]
      rw [List.getD_eq_getElem _ _ inside, List.getD_eq_getElem _ _ inside]
  · rw [write_of_le _ first (by omega)]
    simp only [write, before, ↓reduceIte]
    by_cases inside : (offset - (start + first.length)).toNat < second.length
    · rw [List.getD_eq_getElem _ _ inside, List.getD_eq_getElem _ _ inside]
    · rw [List.getD_eq_default _ _ (by omega), List.getD_eq_default _ _ (by omega)]
      have early : ¬ offset < start := by omega
      rw [if_neg early, List.getD_eq_default _ _ (by omega)]

theorem write_cons (memory : Memory Cell) (start : Int) (cell : Cell) (cells : List Cell) :
    memory.write start (cell :: cells) = (memory.write (start + 1) cells).write start [cell] :=
  (memory.write_write_front start [cell] cells).symm

theorem read_cons (memory : Memory Cell) (start : Int) (length : Nat) :
    memory.read start (length + 1) = memory start :: memory.read (start + 1) length := by
  have split_ := memory.read_add start 1 length
  rw [Nat.add_comm 1 length] at split_
  rw [split_, read_succ, read_zero, List.nil_append, Nat.cast_zero, add_zero,
    List.singleton_append, Nat.cast_one]

end Memory

end Foundation
