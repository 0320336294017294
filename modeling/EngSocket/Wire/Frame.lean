import EngSocket.Foundation.BigEndian
import EngSocket.Foundation.Decoder
import Mathlib.Data.List.Infix

/-!
# Frames on the wire

The abstract side of the protocol. A frame is a payload behind its length, in
two bytes or, behind the marker `0xFFFF`, in four. `frameDecoder` reads frames
byte by byte; it says what the receiver is for, and being a reader of single
bytes it cannot depend on how the network cuts a stream.
-/

namespace EngSocket

open Foundation

/-- A frame with a two-byte or a four-byte length. -/
inductive Frame
  | short (payload : List UInt8)
  | long (payload : List UInt8)
  deriving DecidableEq, Repr

/-- What is kept of a frame: the bytes of its length and its payload. -/
structure Item where
  head : List UInt8
  payload : List UInt8
  deriving DecidableEq, Repr

namespace Frame

def payload : Frame → List UInt8
  | short payload => payload
  | long payload => payload

def item : Frame → Item
  | short payload => { head := bigEndianBytes 2 payload.length, payload }
  | long payload => { head := bigEndianBytes 4 payload.length, payload }

/-- What stands in front of the length. -/
def marker : Frame → List UInt8
  | short _ => []
  | long _ => [0xFF, 0xFF]

def bytes (frame : Frame) : List UInt8 := frame.marker ++ (frame.item.head ++ frame.payload)

/-- A two-byte length is below the marker; a four-byte one leaves room for its
header in a buffer of `2 ^ 30` bytes. -/
def Valid : Frame → Prop
  | short payload => payload.length < 0xFFFF
  | long payload => payload.length ≤ 1073741824 - 4

instance : DecidablePred Valid
  | short payload => inferInstanceAs (Decidable (payload.length < 0xFFFF))
  | long payload => inferInstanceAs (Decidable (payload.length ≤ 1073741824 - 4))

@[simp] theorem item_payload (frame : Frame) : frame.item.payload = frame.payload := by
  cases frame <;> rfl

theorem map_item_payload (frames : List Frame) :
    (frames.map Frame.item).map Item.payload = frames.map Frame.payload := by
  rw [List.map_map]
  exact List.map_congr_left fun frame _ => frame.item_payload

end Frame

/-- The part of a frame that is being read. A body comes with the bytes that
announced its length. -/
inductive Stage
  | short
  | long
  | body (head : List UInt8)
  deriving DecidableEq, Repr

/-- A part of a frame and what has been read of it. -/
structure Phase where
  stage : Stage
  got : List UInt8
  deriving DecidableEq, Repr

/-- How many bytes the part has. -/
def Stage.width : Stage → Nat
  | .short => 2
  | .long => 4
  | .body head => bigEndian head

/-- The length is known; an empty body is complete at once. -/
def enterBody (head : List UInt8) : Phase × List Item :=
  if bigEndian head = 0 then ({ stage := .short, got := [] }, [{ head, payload := [] }])
  else ({ stage := .body head, got := [] }, [])

/-- The bytes of a part are complete. -/
def Stage.finish : Stage → List UInt8 → Phase × List Item
  | .short, bytes =>
      if bigEndian bytes = 0xFFFF then ({ stage := .long, got := [] }, []) else enterBody bytes
  | .long, bytes => enterBody bytes
  | .body head, bytes => ({ stage := .short, got := [] }, [{ head, payload := bytes }])

/-- The reader of frames, one byte at a time. -/
def frameDecoder : Decoder Phase UInt8 Item where
  start := { stage := .short, got := [] }
  step phase byte :=
    if phase.got.length + 1 < phase.stage.width then
      ({ phase with got := phase.got ++ [byte] }, [])
    else phase.stage.finish (phase.got ++ [byte])

/-- Bytes that do not complete the current part are collected. -/
theorem feed_of_lt (stage : Stage) (got bytes : List UInt8)
    (below : got.length + bytes.length < stage.width) :
    frameDecoder.feed { stage, got } bytes = ({ stage, got := got ++ bytes }, []) := by
  induction bytes generalizing got with
  | nil => simp only [Decoder.feed_nil, List.append_nil]
  | cons byte bytes ih =>
      rw [List.length_cons] at below
      have open_ : got.length + 1 < stage.width := by omega
      have rest := ih (got ++ [byte]) (by rw [List.length_append, List.length_singleton]; omega)
      simp only [Decoder.feed_cons, frameDecoder, open_, ↓reduceIte] at rest ⊢
      rw [rest]
      simp only [List.append_assoc, List.singleton_append, List.append_nil]

/-- Bytes that complete the current part finish it. -/
theorem feed_of_eq (stage : Stage) (got bytes : List UInt8) (nonempty : bytes ≠ [])
    (full : got.length + bytes.length = stage.width) :
    frameDecoder.feed { stage, got } bytes = stage.finish (got ++ bytes) := by
  obtain ⟨first, last, rfl⟩ : ∃ first last, bytes = first ++ [last] :=
    ⟨_, _, (List.dropLast_append_getLast nonempty).symm⟩
  rw [List.length_append, List.length_singleton] at full
  rw [Decoder.feed_append, feed_of_lt stage got first (by omega)]
  have closes : ¬ (got ++ first).length + 1 < stage.width := by
    rw [List.length_append]
    omega
  simp only [Decoder.feed_cons, frameDecoder, closes, ↓reduceIte, Decoder.feed_nil, List.nil_append,
    List.append_nil, List.append_assoc]

/-- A byte after which nothing is emitted leaves the reader within a frame. -/
theorem step_ne_start {phase : Phase} {byte : UInt8}
    (silent : (frameDecoder.step phase byte).2 = []) :
    (frameDecoder.step phase byte).1 ≠ frameDecoder.start := by
  have entered (head : List UInt8) (silent : (enterBody head).2 = []) :
      (enterBody head).1 ≠ frameDecoder.start := by
    unfold enterBody at silent ⊢
    split
    · next empty => simp only [empty, ↓reduceIte, reduceCtorEq] at silent
    · simp only [frameDecoder, ne_eq, Phase.mk.injEq, reduceCtorEq, false_and, not_false_eq_true]
  obtain ⟨stage, got⟩ := phase
  simp only [frameDecoder] at silent ⊢
  split
  · simp only [ne_eq, Phase.mk.injEq, List.append_eq_nil_iff, List.cons_ne_self, and_false,
      not_false_eq_true]
  · next full =>
      rw [if_neg full] at silent
      cases stage with
      | short =>
          simp only [Stage.finish] at silent ⊢
          by_cases marked : bigEndian (got ++ [byte]) = 0xFFFF
          · simp only [marked, ↓reduceIte, ne_eq, Phase.mk.injEq, reduceCtorEq, false_and,
              not_false_eq_true]
          · rw [if_neg marked] at silent ⊢
            exact entered _ silent
      | long => exact entered _ silent
      | body head => simp only [Stage.finish, reduceCtorEq] at silent

theorem feed_ne_start {phase : Phase} {bytes : List UInt8} (nonempty : bytes ≠ [])
    (silent : (frameDecoder.feed phase bytes).2 = []) :
    (frameDecoder.feed phase bytes).1 ≠ frameDecoder.start := by
  obtain ⟨first, last, rfl⟩ : ∃ first last, bytes = first ++ [last] :=
    ⟨_, _, (List.dropLast_append_getLast nonempty).symm⟩
  rw [Decoder.feed_append] at silent ⊢
  have quiet := (List.append_eq_nil_iff.mp silent).2
  simp only [Decoder.feed_cons, Decoder.feed_nil, List.append_nil] at quiet ⊢
  exact step_ne_start quiet

/-- Reading a whole payload behind a header which has just been completed. -/
theorem feed_enterBody (head payload : List UInt8) (announced : bigEndian head = payload.length) :
    (let entered := enterBody head
     ((frameDecoder.feed entered.1 payload).1, entered.2 ++ (frameDecoder.feed entered.1 payload).2)) =
      (frameDecoder.start, [{ head, payload }]) := by
  by_cases empty : payload = []
  · subst empty
    have zero : bigEndian head = 0 := announced
    simp only [enterBody, zero, ↓reduceIte, Decoder.feed_nil, List.append_nil]
    rfl
  · have positive : bigEndian head ≠ 0 := by
      rw [announced]
      exact fun zero => empty (List.length_eq_zero_iff.mp zero)
    simp only [enterBody, positive, ↓reduceIte, List.nil_append]
    rw [feed_of_eq (.body head) [] payload empty (by simp [Stage.width, announced])]
    rfl

theorem Frame.Valid.fits {frame : Frame} (valid : frame.Valid) :
    frame.item.head.length ≤ 4 ∧ bigEndian frame.item.head = frame.payload.length ∧
      frame.item.head.length + frame.payload.length ≤ 1073741824 := by
  cases frame with
  | short payload =>
      have bound : payload.length < 0xFFFF := valid
      simp only [Frame.item, Frame.payload, length_bigEndianBytes]
      exact ⟨by omega, bigEndian_bigEndianBytes (by omega), by omega⟩
  | long payload =>
      have bound : payload.length ≤ 1073741824 - 4 := valid
      simp only [Frame.item, Frame.payload, length_bigEndianBytes]
      exact ⟨by omega, bigEndian_bigEndianBytes (by omega), by omega⟩

/-- A phase that a buffer of `2 ^ 30` bytes has room for. -/
def Phase.Bounded (phase : Phase) : Prop :=
  match phase.stage with
  | .body head => head.length ≤ 4 ∧ head.length + bigEndian head ≤ 1073741824
  | _ => True

theorem Phase.bounded_body {head got : List UInt8} :
    Phase.Bounded { stage := .body head, got } ↔
      head.length ≤ 4 ∧ head.length + bigEndian head ≤ 1073741824 := Iff.rfl

private theorem prefix_append_cases {read first second : List UInt8}
    (initial : read <+: first ++ second) :
    read.length < first.length ∨ ∃ rest, read = first ++ rest ∧ rest <+: second := by
  by_cases shorter : read.length < first.length
  · exact Or.inl shorter
  · obtain ⟨rest, rfl⟩ :=
      List.prefix_of_prefix_length_le (List.prefix_append first second) initial (by omega)
    exact Or.inr ⟨rest, rfl, (List.prefix_append_right_inj first).mp initial⟩

theorem feed_short_header (head : List UInt8) (two : head.length = 2)
    (notMarker : bigEndian head ≠ 0xFFFF) :
    frameDecoder.feed frameDecoder.start head = enterBody head := by
  have nonempty : head ≠ [] := by
    rintro rfl
    cases two
  have fed := feed_of_eq .short [] head nonempty (by simpa [Stage.width] using two)
  rw [show frameDecoder.start = { stage := .short, got := [] } from rfl, fed]
  simp only [Stage.finish, notMarker, ↓reduceIte, List.nil_append]

theorem feed_marker :
    frameDecoder.feed frameDecoder.start [0xFF, 0xFF] = ({ stage := .long, got := [] }, []) := rfl

theorem feed_long_header (head : List UInt8) (four : head.length = 4) :
    frameDecoder.feed { stage := .long, got := [] } head = enterBody head := by
  have nonempty : head ≠ [] := by
    rintro rfl
    cases four
  exact feed_of_eq .long [] head nonempty (by simpa [Stage.width] using four)

/-- Behind the marker and the length the reader is in the body. -/
theorem Frame.Valid.feed_header {frame : Frame} (valid : frame.Valid) (tail : List UInt8) :
    frameDecoder.feed frameDecoder.start (frame.marker ++ (frame.item.head ++ tail)) =
      (let entered := enterBody frame.item.head
       ((frameDecoder.feed entered.1 tail).1,
        entered.2 ++ (frameDecoder.feed entered.1 tail).2)) := by
  cases frame with
  | short payload =>
      have bound : payload.length < 0xFFFF := valid
      have announced : bigEndian (bigEndianBytes 2 payload.length) = payload.length :=
        bigEndian_bigEndianBytes (by omega)
      simp only [Frame.marker, Frame.item, List.nil_append]
      rw [Decoder.feed_append, feed_short_header _ (length_bigEndianBytes _ _)
        (by rw [announced]; omega)]
  | long payload =>
      simp only [Frame.marker, Frame.item]
      rw [Decoder.feed_append, feed_marker, Decoder.feed_append,
        feed_long_header _ (length_bigEndianBytes _ _)]
      rfl

/-- **A frame is a codeword.** Its bytes lead from the start back to the start
and emit its item. -/
theorem Frame.Valid.feed_frame {frame : Frame} (valid : frame.Valid) :
    frameDecoder.feed frameDecoder.start frame.bytes = (frameDecoder.start, [frame.item]) := by
  rw [Frame.bytes, valid.feed_header, feed_enterBody _ _ valid.fits.2.1]
  cases frame <;> rfl

theorem feed_frames {frames : List Frame} (valid : ∀ frame ∈ frames, frame.Valid) :
    frameDecoder.feed frameDecoder.start (frames.map Frame.bytes).flatten =
      (frameDecoder.start, frames.map Frame.item) :=
  Decoder.feed_codewords Frame.bytes Frame.item frames fun frame member =>
    (valid frame member).feed_frame

/-- Reading some of a payload stays within its body. -/
theorem bounded_enterBody {head payload rest : List UInt8} (small : head.length ≤ 4)
    (announced : bigEndian head = payload.length)
    (fits : head.length + payload.length ≤ 1073741824) (initial : rest <+: payload) :
    (frameDecoder.feed (enterBody head).1 rest).1.Bounded := by
  rcases Nat.lt_or_ge rest.length payload.length with some_ | all
  · have positive : bigEndian head ≠ 0 := by omega
    simp only [enterBody, positive, ↓reduceIte]
    rw [feed_of_lt (.body head) [] rest (by simp only [List.length_nil, Stage.width]; omega)]
    exact ⟨small, by omega⟩
  · obtain rfl := initial.eq_of_length_le all
    have whole := congrArg Prod.fst (feed_enterBody head rest announced)
    simp only at whole
    rw [whole]
    trivial

theorem Frame.Valid.bounded {frame : Frame} (valid : frame.Valid) {read : List UInt8}
    (initial : read <+: frame.bytes) :
    (frameDecoder.feed frameDecoder.start read).1.Bounded := by
  obtain ⟨small, announced, fits⟩ := valid.fits
  -- The bytes end within the marker, within the length or within the payload.
  rcases prefix_append_cases initial with within | ⟨rest, rfl, beyond⟩
  · have less : read.length < 2 := lt_of_lt_of_le within (by cases frame <;> simp [Frame.marker])
    have fed := feed_of_lt .short [] read (by simpa [Stage.width] using less)
    rw [show frameDecoder.start = { stage := .short, got := [] } from rfl, fed]
    trivial
  · rcases prefix_append_cases beyond with within | ⟨tail, rfl, inside⟩
    · cases frame with
      | short payload =>
          simp only [Frame.item, length_bigEndianBytes] at within
          have fed := feed_of_lt .short [] rest (by simpa [Stage.width] using within)
          rw [show frameDecoder.start = { stage := .short, got := [] } from rfl]
          simp only [Frame.marker, List.nil_append, fed]
          trivial
      | long payload =>
          simp only [Frame.item, length_bigEndianBytes] at within
          simp only [Frame.marker]
          rw [Decoder.feed_append, feed_marker,
            feed_of_lt .long [] rest (by simpa [Stage.width] using within)]
          trivial
    · rw [valid.feed_header]
      exact bounded_enterBody small announced fits inside

/-- Along a stream of valid frames the reader never meets a length that a
buffer has no room for. -/
theorem bounded_of_prefix {frames : List Frame} (valid : ∀ frame ∈ frames, frame.Valid)
    {read : List UInt8} (initial : read <+: (frames.map Frame.bytes).flatten) :
    (frameDecoder.feed frameDecoder.start read).1.Bounded := by
  induction frames generalizing read with
  | nil =>
      obtain rfl := List.prefix_nil.mp initial
      trivial
  | cons frame frames ih =>
      have here := valid frame List.mem_cons_self
      rw [List.map_cons, List.flatten_cons] at initial
      rcases prefix_append_cases initial with within | ⟨rest, rfl, later⟩
      · exact here.bounded
          (List.prefix_of_prefix_length_le initial (List.prefix_append _ _) (by omega))
      · rw [Decoder.feed_append, here.feed_frame]
        exact ih (fun other member => valid other (List.mem_cons_of_mem _ member)) later

/-! ## Frames that have arrived -/

/-- A beginning of a frame that is not the whole frame emits nothing. -/
theorem Frame.Valid.feed_partial {frame : Frame} (valid : frame.Valid) {read : List UInt8}
    (initial : read <+: frame.bytes) (short : read.length < frame.bytes.length) :
    (frameDecoder.feed frameDecoder.start read).2 = [] := by
  obtain ⟨rest, same⟩ := initial
  have nonempty : rest ≠ [] := by
    rintro rfl
    rw [List.append_nil] at same
    rw [same] at short
    exact lt_irrefl _ short
  have whole := valid.feed_frame
  rw [← same, Decoder.feed_append] at whole
  have ends := congrArg Prod.fst whole
  rcases List.append_eq_singleton_iff.mp (congrArg Prod.snd whole) with
    ⟨silent, -⟩ | ⟨-, silent⟩
  · exact silent
  · exact absurd ends (feed_ne_start nonempty silent)

/-- The frames that lie within the first bytes of a stream. -/
def Frame.arrived : List Frame → Nat → List Frame
  | [], _ => []
  | frame :: frames, count =>
      if frame.bytes.length ≤ count then
        frame :: arrived frames (count - frame.bytes.length)
      else []

theorem Frame.arrived_prefix (frames : List Frame) (count : Nat) :
    Frame.arrived frames count <+: frames := by
  induction frames generalizing count with
  | nil => exact List.nil_prefix
  | cons frame frames ih =>
      unfold Frame.arrived
      split
      · exact (List.prefix_cons_inj frame).mpr (ih _)
      · exact List.nil_prefix

/-- The reader has emitted the frames that have arrived. -/
theorem feed_arrived {frames : List Frame} (valid : ∀ frame ∈ frames, frame.Valid)
    {read : List UInt8} (initial : read <+: (frames.map Frame.bytes).flatten) :
    (frameDecoder.feed frameDecoder.start read).2 =
      (Frame.arrived frames read.length).map Frame.item := by
  induction frames generalizing read with
  | nil =>
      obtain rfl := List.prefix_nil.mp initial
      rfl
  | cons frame frames ih =>
      have here := valid frame List.mem_cons_self
      rw [List.map_cons, List.flatten_cons] at initial
      rcases prefix_append_cases initial with within | ⟨rest, rfl, later⟩
      · rw [Frame.arrived, if_neg (by omega)]
        exact here.feed_partial
          (List.prefix_of_prefix_length_le initial (List.prefix_append _ _) within.le) within
      · rw [Decoder.feed_append, here.feed_frame, Frame.arrived, List.length_append,
          if_pos (by omega), Nat.add_sub_cancel_left]
        simp only [List.map_cons, List.singleton_append, List.cons.injEq, true_and]
        exact ih (fun other member => valid other (List.mem_cons_of_mem _ member)) later

/-! ## Cuts -/

/-- A piece of the stream that does not go on beyond the header in which it
begins. A piece that begins in a body is not restricted. -/
def Phase.Covers (phase : Phase) (piece : List UInt8) : Prop :=
  match phase.stage with
  | .body _ => True
  | _ => phase.got.length + piece.length ≤ phase.stage.width

/-- No piece of the stream goes on beyond the end of a two-byte header or of a
four-byte length in which it begins. -/
def HeadersUncrossed (phase : Phase) (pieces : List (List UInt8)) : Prop :=
  frameDecoder.Along Phase.Covers phase pieces

/-- A piece that ends within the part in which it begins. -/
def Phase.Holds (phase : Phase) (piece : List UInt8) : Prop :=
  phase.got.length + piece.length ≤ phase.stage.width

/-- Pieces that stay within their parts stop at the end of a frame. -/
theorem exists_cut {pieces : List (List UInt8)} {phase : Phase} {bytes rest : List UInt8}
    (within : frameDecoder.Along Phase.Holds phase pieces)
    (ends : (frameDecoder.feed phase bytes).1 = frameDecoder.start)
    (stream : pieces.flatten = bytes ++ rest) :
    ∃ first second, pieces = first ++ second ∧ first.flatten = bytes := by
  induction pieces generalizing phase bytes with
  | nil =>
      obtain ⟨rfl, -⟩ := List.append_eq_nil_iff.mp stream.symm
      exact ⟨[], [], rfl, rfl⟩
  | cons piece pieces ih =>
      by_cases done : bytes = []
      · exact ⟨[], piece :: pieces, rfl, done.symm⟩
      · rw [List.flatten_cons] at stream
        rcases List.append_eq_append_iff.mp stream with ⟨left, rfl, later⟩ | ⟨extra, rfl, later⟩
        · rw [Decoder.feed_append] at ends
          obtain ⟨first, second, rfl, whole⟩ := ih within.2 ends later
          exact ⟨piece :: first, second, rfl, by rw [List.flatten_cons, whole]⟩
        · -- Otherwise the frame would end before the part which the piece is within.
          by_cases exact_ : extra = []
          · subst exact_
            exact ⟨[bytes], pieces, by rw [List.append_nil]; rfl, List.append_nil bytes⟩
          · have holds : phase.got.length + (bytes ++ extra).length ≤ phase.stage.width := within.1
            have longer := List.length_pos_iff.mpr exact_
            rw [List.length_append] at holds
            rw [feed_of_lt phase.stage phase.got bytes (by omega)] at ends
            have none_ := congrArg Phase.got ends
            exact absurd (List.append_eq_nil_iff.mp none_).2 done

/-- **No piece crosses from one frame into the next** if the pieces stay within
their parts: the pieces fall into groups, one for each frame. -/
theorem exists_groups {frames : List Frame} (valid : ∀ frame ∈ frames, frame.Valid)
    {pieces : List (List UInt8)} (nonempty : ∀ piece ∈ pieces, piece ≠ [])
    (within : frameDecoder.Along Phase.Holds frameDecoder.start pieces)
    (stream : pieces.flatten = (frames.map Frame.bytes).flatten) :
    ∃ groups : List (List (List UInt8)),
      groups.flatten = pieces ∧ groups.map List.flatten = frames.map Frame.bytes := by
  induction frames generalizing pieces with
  | nil =>
      refine ⟨[], ?_, rfl⟩
      cases pieces with
      | nil => rfl
      | cons piece pieces =>
          exact absurd (List.append_eq_nil_iff.mp stream).1 (nonempty piece List.mem_cons_self)
  | cons frame frames ih =>
      have fed := (valid frame List.mem_cons_self).feed_frame
      obtain ⟨first, second, rfl, whole⟩ := exists_cut within (congrArg Prod.fst fed) stream
      rw [List.flatten_append, whole, List.map_cons, List.flatten_cons] at stream
      obtain ⟨-, later⟩ := Decoder.along_append.mp within
      rw [whole, fed] at later
      obtain ⟨groups, same, mapped⟩ := ih (fun other member => valid other
        (List.mem_cons_of_mem _ member)) (fun piece member => nonempty piece
        (List.mem_append_right _ member)) later (List.append_cancel_left stream)
      exact ⟨first :: groups, by rw [List.flatten_cons, same],
        by rw [List.map_cons, List.map_cons, mapped, whole]⟩

end EngSocket
