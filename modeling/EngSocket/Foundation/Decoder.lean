import Mathlib.Data.List.Basic

/-!
# Incremental decoders

A decoder reads one symbol at a time, moving between phases and emitting items.
Where a stream is cut does not matter (`Foundation.Decoder.feed_append`), and a
decoder which reads each codeword from its start phase back to it, emitting the
coded item alone, inverts every concatenation of codewords
(`Foundation.Decoder.feed_codewords`).
-/

namespace Foundation

/-- A deterministic reader of symbols which emits items. -/
structure Decoder (Phase Symbol Item : Type*) where
  start : Phase
  step : Phase → Symbol → Phase × List Item

namespace Decoder

variable {Phase Symbol Item : Type*} (D : Decoder Phase Symbol Item)

/-- The phase after some symbols, and the items emitted on the way. -/
def feed : Phase → List Symbol → Phase × List Item
  | phase, [] => (phase, [])
  | phase, symbol :: symbols =>
      let (next, items) := D.step phase symbol
      let (final, more) := feed next symbols
      (final, items ++ more)

variable {D}

@[simp] theorem feed_nil (phase : Phase) : D.feed phase [] = (phase, []) := rfl

theorem feed_cons (phase : Phase) (symbol : Symbol) (symbols : List Symbol) :
    D.feed phase (symbol :: symbols) =
      ((D.feed (D.step phase symbol).1 symbols).1,
        (D.step phase symbol).2 ++ (D.feed (D.step phase symbol).1 symbols).2) := rfl

/-- A stream is decoded in two parts like in one. -/
theorem feed_append (phase : Phase) (first second : List Symbol) :
    D.feed phase (first ++ second) =
      ((D.feed (D.feed phase first).1 second).1,
        (D.feed phase first).2 ++ (D.feed (D.feed phase first).1 second).2) := by
  induction first generalizing phase with
  | nil => rfl
  | cons symbol first ih =>
      rw [List.cons_append, feed_cons, ih, feed_cons, List.append_assoc]

/-- Every piece meets a condition at the phase in which it begins. -/
def Along (D : Decoder Phase Symbol Item) (condition : Phase → List Symbol → Prop) :
    Phase → List (List Symbol) → Prop
  | _, [] => True
  | phase, piece :: pieces =>
      condition phase piece ∧ Along D condition (D.feed phase piece).1 pieces

/-- A condition that implies another is met by fewer streams. -/
theorem Along.mono {condition weaker : Phase → List Symbol → Prop}
    (implies : ∀ phase piece, condition phase piece → weaker phase piece) {phase : Phase}
    {pieces : List (List Symbol)} (along : D.Along condition phase pieces) :
    D.Along weaker phase pieces := by
  induction pieces generalizing phase with
  | nil => trivial
  | cons piece pieces ih => exact ⟨implies _ _ along.1, ih along.2⟩

/-- A condition is met along two parts, the second from where the first has ended. -/
theorem along_append {condition : Phase → List Symbol → Prop} {phase : Phase}
    {first second : List (List Symbol)} :
    D.Along condition phase (first ++ second) ↔
      D.Along condition phase first ∧
        D.Along condition (D.feed phase first.flatten).1 second := by
  induction first generalizing phase with
  | nil => simp only [List.nil_append, Along, List.flatten_nil, feed_nil, true_and]
  | cons piece first ih =>
      simp only [List.cons_append, Along, ih, List.flatten_cons, feed_append, and_assoc]

/-- **Codewords are recovered.** A decoder that reads every codeword of a code
from its start phase back to it, emitting the coded item, recovers the items of
every concatenation of codewords. -/
theorem feed_codewords {Code : Type*} (word : Code → List Symbol) (item : Code → Item)
    (codes : List Code)
    (reads : ∀ code ∈ codes, D.feed D.start (word code) = (D.start, [item code])) :
    D.feed D.start (codes.map word).flatten = (D.start, codes.map item) := by
  induction codes with
  | nil => rfl
  | cons code codes ih =>
      rw [List.map_cons, List.flatten_cons, feed_append, reads code List.mem_cons_self,
        ih fun other member => reads other (List.mem_cons_of_mem _ member)]
      rfl

end Decoder

end Foundation
