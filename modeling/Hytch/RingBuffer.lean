import Mathlib.Algebra.Group.Nat.Defs
import Hytch.BoundedTail

/-!
The scrollback ring of `ring_buffer.rs`. `buf`, `head` and `len` are the
physical state; every index and slice is checked, so `none` is a panic. The
representation relation reads the ring as a bounded tail of everything that
was appended, and each operation is proved against that reading.
-/

namespace Hytch

open BoundedTail

universe u
variable {Cell : Type u}

structure RingBuffer (Cell : Type u) where
  buf : List Cell
  /-- Physical index of the oldest valid cell. -/
  head : Nat
  /-- Number of valid cells. -/
  len : Nat

namespace RingBuffer

def new [Inhabited Cell] (capacity : Nat) : Option (RingBuffer Cell) :=
  if capacity.isPowerOfTwo then
    some { buf := List.replicate capacity default, head := 0, len := 0 }
  else none

def capacity (ring : RingBuffer Cell) : Nat := ring.buf.length

@[simp] theorem capacity_mk (buf : List Cell) (head len : Nat) :
    ({ buf := buf, head := head, len := len } : RingBuffer Cell).capacity = buf.length := rfl

/-- The two copies of `append`: up to the physical end, then the rest at the
front. -/
def copyWrapping (buf : List Cell) (writePos : Nat) (data : List Cell) : Option (List Cell) := do
  let firstLen := min (buf.length - writePos) data.length
  let first ← slice? data 0 firstLen
  let buf ← copyFromSlice? buf writePos (writePos + firstLen) first
  if firstLen < data.length then
    let rest ← slice? data firstLen data.length
    copyFromSlice? buf 0 rest.length rest
  else some buf

def append (ring : RingBuffer Cell) (data : List Cell) : Option (RingBuffer Cell) :=
  if data.isEmpty then some ring
  else do
    let cap := ring.capacity
    let mask := cap - 1
    let data ← (
      if data.length ≥ cap then slice? data (data.length - cap) data.length else some data)
    let writePos := (ring.head + ring.len) &&& mask
    let buf ← copyWrapping ring.buf writePos data
    let newTotal := ring.len + data.length
    if newTotal > cap then
      some { buf := buf, head := (writePos + data.length) &&& mask, len := cap }
    else some { buf := buf, head := ring.head, len := newTotal }

def snapshot (ring : RingBuffer Cell) : Option (List Cell) :=
  (List.range ring.len).mapM fun i => ring.buf[(ring.head + i) &&& (ring.capacity - 1)]?

def appendAll : RingBuffer Cell → List (List Cell) → Option (RingBuffer Cell)
  | ring, [] => some ring
  | ring, data :: rest => (append ring data).bind fun next => appendAll next rest

/-- The logical contents, oldest first, laid out from `head` modulo the
capacity. -/
structure Represents (ring : RingBuffer Cell) (contents : List Cell) : Prop where
  powerOfTwo : ring.capacity.isPowerOfTwo
  headInRange : ring.head < ring.capacity
  lenExact : ring.len = contents.length
  lenBound : contents.length ≤ ring.capacity
  layout : ∀ i, i < contents.length →
    ring.buf[(ring.head + i) % ring.capacity]? = contents[i]?

theorem mask_is_mod (capacity : Nat) (power : capacity.isPowerOfTwo) (index : Nat) :
    index &&& (capacity - 1) = index % capacity := by
  obtain ⟨exponent, rfl⟩ := power
  exact Nat.and_two_pow_sub_one_eq_mod index exponent

theorem lap_position (capacity start offset : Nat) (inRange : start < capacity)
    (bound : offset < capacity) :
    (start + offset) % capacity =
      if start + offset < capacity then start + offset else start + offset - capacity := by
  split
  · exact Nat.mod_eq_of_lt ‹_›
  · rw [Nat.mod_eq_sub_mod (by omega), Nat.mod_eq_of_lt (by omega)]

/-- The data fills the buffer up to its physical end and starts over at the front. -/
theorem copy_around_exact (buf : List Cell) (writePos : Nat) (data : List Cell)
    (inRange : writePos < buf.length) (fits : data.length ≤ buf.length)
    (wraps : buf.length - writePos < data.length) :
    ∃ copied, copyWrapping buf writePos data = some copied ∧ copied.length = buf.length ∧
      ∀ i, i < buf.length → copied[(writePos + i) % buf.length]? =
        if i < data.length then data[i]? else buf[(writePos + i) % buf.length]? := by
  have firstLen : min (buf.length - writePos) data.length = buf.length - writePos := by omega
  let first := data.take (buf.length - writePos)
  let rest := data.drop (buf.length - writePos)
  have firstLength : first.length = buf.length - writePos := by
    simp only [first, List.length_take]
    omega
  have restLength : rest.length = data.length - (buf.length - writePos) := by
    simp only [rest, List.length_drop]
  let middle := buf.take writePos ++ first ++ buf.drop (writePos + first.length)
  have firstBound : writePos + first.length ≤ buf.length := by omega
  have middleLength : middle.length = buf.length := copied_length buf first writePos firstBound
  have restBound : 0 + rest.length ≤ middle.length := by omega
  refine ⟨middle.take 0 ++ rest ++ middle.drop (0 + rest.length), ?_, ?_, ?_⟩
  · have firstCopy := copyFromSlice_ok buf first writePos firstBound
    have restCopy := copyFromSlice_ok middle rest 0 restBound
    rw [firstLength] at firstCopy
    rw [Nat.zero_add] at restCopy
    simp only [copyWrapping, firstLen, slice_front data _ (Nat.le_of_lt wraps), wraps,
      Option.bind_eq_bind, Option.bind_some, ↓reduceIte,
      slice_back data _ (Nat.le_of_lt wraps)]
    rw [show copyFromSlice? buf writePos (writePos + (buf.length - writePos))
      (data.take (buf.length - writePos)) = some middle by
        simpa only [middle, firstLength] using firstCopy]
    simpa only [Option.bind_some, Nat.zero_add] using restCopy
  · rw [copied_length middle rest 0 restBound, middleLength]
  · intro i bound
    rw [copied_getElem middle rest 0 _ restBound, copied_getElem buf first writePos _ firstBound,
      lap_position buf.length writePos i inRange bound]
    by_cases lap : writePos + i < buf.length
    · have inFirst : i < data.length := by omega
      have beyondRest : ¬ (0 ≤ writePos + i ∧ writePos + i < 0 + rest.length) := by omega
      have insideFirst : writePos ≤ writePos + i ∧ writePos + i < writePos + first.length := by
        omega
      simp only [lap, ↓reduceIte, beyondRest, insideFirst, and_self, inFirst,
        Nat.add_sub_cancel_left, first]
      exact List.getElem?_take_of_lt (by omega)
    · simp only [lap, ↓reduceIte]
      by_cases inRest : i < data.length
      · have insideRest : 0 ≤ writePos + i - buf.length ∧
            writePos + i - buf.length < 0 + rest.length := by omega
        simp only [insideRest, and_self, ↓reduceIte, inRest, rest, List.getElem?_drop]
        congr 1
        omega
      · have beyondRest : ¬ (0 ≤ writePos + i - buf.length ∧
            writePos + i - buf.length < 0 + rest.length) := by omega
        have beforeFirst : ¬ (writePos ≤ writePos + i - buf.length ∧
            writePos + i - buf.length < writePos + first.length) := by omega
        simp only [beyondRest, beforeFirst, inRest, ↓reduceIte]

theorem copy_straight_exact (buf : List Cell) (writePos : Nat) (data : List Cell)
    (inRange : writePos < buf.length) (straight : ¬ buf.length - writePos < data.length) :
    ∃ copied, copyWrapping buf writePos data = some copied ∧ copied.length = buf.length ∧
      ∀ i, i < buf.length → copied[(writePos + i) % buf.length]? =
        if i < data.length then data[i]? else buf[(writePos + i) % buf.length]? := by
  have firstLen : min (buf.length - writePos) data.length = data.length := by omega
  have dataBound : writePos + data.length ≤ buf.length := by omega
  refine ⟨buf.take writePos ++ data ++ buf.drop (writePos + data.length), ?_,
    copied_length buf data writePos dataBound, ?_⟩
  · simp [copyWrapping, firstLen, slice_front data _ (Nat.le_refl _),
      copyFromSlice_ok buf data writePos dataBound]
  · intro i bound
    rw [copied_getElem buf data writePos _ dataBound,
      lap_position buf.length writePos i inRange bound]
    by_cases inData : i < data.length
    · have lap : writePos + i < buf.length := by omega
      have inside : writePos ≤ writePos + i ∧ writePos + i < writePos + data.length := by omega
      simp only [lap, ↓reduceIte, inside, and_self, inData, Nat.add_sub_cancel_left]
    · have outside : ¬ (writePos ≤ (if writePos + i < buf.length then writePos + i
          else writePos + i - buf.length) ∧ (if writePos + i < buf.length then writePos + i
          else writePos + i - buf.length) < writePos + data.length) := by
        split <;> omega
      rw [if_neg outside, if_neg inData]

/-- A wrapping copy never leaves the buffer; read back lap by lap from the
write position it shows the data first and the untouched cells after it. -/
theorem copy_wrapping_exact (buf : List Cell) (writePos : Nat) (data : List Cell)
    (inRange : writePos < buf.length) (fits : data.length ≤ buf.length) :
    ∃ copied, copyWrapping buf writePos data = some copied ∧ copied.length = buf.length ∧
      ∀ i, i < buf.length → copied[(writePos + i) % buf.length]? =
        if i < data.length then data[i]? else buf[(writePos + i) % buf.length]? := by
  by_cases wraps : buf.length - writePos < data.length
  · exact copy_around_exact buf writePos data inRange fits wraps
  · exact copy_straight_exact buf writePos data inRange wraps

theorem new_represents [Inhabited Cell] (capacity : Nat) (power : capacity.isPowerOfTwo) :
    ∃ ring : RingBuffer Cell, new capacity = some ring ∧ ring.capacity = capacity ∧
      Represents ring [] := by
  refine ⟨{ buf := List.replicate capacity default, head := 0, len := 0 }, by simp [new, power],
    by simp [capacity_mk], ?_⟩
  exact {
    powerOfTwo := by simpa [capacity_mk] using power
    headInRange := by simpa [capacity_mk] using Nat.pos_of_isPowerOfTwo power
    lenExact := rfl
    lenBound := Nat.zero_le _
    layout := fun i bound => absurd bound (Nat.not_lt_zero i) }

theorem append_under_capacity (ring : RingBuffer Cell) (contents data buf : List Cell)
    (rep : Represents ring contents) (length : buf.length = ring.capacity)
    (copied : ∀ i, i < ring.capacity → buf[((ring.head + ring.len) % ring.capacity + i) %
      ring.capacity]? = if i < data.length then data[i]?
        else ring.buf[((ring.head + ring.len) % ring.capacity + i) % ring.capacity]?)
    (fits : ring.len + data.length ≤ ring.capacity) :
    Represents { buf := buf, head := ring.head, len := ring.len + data.length }
      (contents ++ data) := by
  have lenExact := rep.lenExact
  refine ⟨by simpa [capacity_mk, length] using rep.powerOfTwo,
    by simpa [capacity_mk, length] using rep.headInRange,
    by simp [lenExact], by simpa [capacity_mk, length, ← lenExact] using fits, ?_⟩
  intro i bound
  rw [List.length_append] at bound
  simp only [capacity_mk, length]
  by_cases old : i < contents.length
  · -- the old cell sits a lap behind the write position
    have place := copied (ring.capacity - ring.len + i) (by omega)
    have lap : ((ring.head + ring.len) % ring.capacity + (ring.capacity - ring.len + i)) %
        ring.capacity = (ring.head + i) % ring.capacity := by
      rw [Nat.mod_add_mod, show ring.head + ring.len + (ring.capacity - ring.len + i) =
        ring.head + i + ring.capacity by omega, Nat.add_mod_right]
    rw [lap, if_neg (by omega), rep.layout i old] at place
    rw [List.getElem?_append_left old]
    exact place
  · have place := copied (i - ring.len) (by omega)
    have ahead : ((ring.head + ring.len) % ring.capacity + (i - ring.len)) % ring.capacity =
        (ring.head + i) % ring.capacity := by
      rw [Nat.mod_add_mod, show ring.head + ring.len + (i - ring.len) = ring.head + i by omega]
    rw [ahead, if_pos (by omega)] at place
    rw [List.getElem?_append_right (by omega), ← lenExact]
    exact place

theorem append_over_capacity (ring : RingBuffer Cell) (contents data buf : List Cell)
    (rep : Represents ring contents) (length : buf.length = ring.capacity)
    (copied : ∀ i, i < ring.capacity → buf[((ring.head + ring.len) % ring.capacity + i) %
      ring.capacity]? = if i < data.length then data[i]?
        else ring.buf[((ring.head + ring.len) % ring.capacity + i) % ring.capacity]?)
    (short : data.length ≤ ring.capacity)
    (overflows : ring.capacity < ring.len + data.length) :
    Represents
      { buf := buf
        head := ((ring.head + ring.len) % ring.capacity + data.length) % ring.capacity
        len := ring.capacity }
      ((contents ++ data).rtake ring.capacity) := by
  have lenExact := rep.lenExact
  have lenBound := rep.lenBound
  have positive : 0 < ring.capacity := by have := rep.headInRange; omega
  have kept : ((contents ++ data).rtake ring.capacity).length = ring.capacity := by
    rw [rtake_length, List.length_append]
    omega
  refine ⟨by simpa [capacity_mk, length] using rep.powerOfTwo,
    by simpa [capacity_mk, length] using Nat.mod_lt _ positive,
    kept.symm, by simp [length, kept], ?_⟩
  intro i bound
  rw [kept] at bound
  have logical : ((contents ++ data).rtake ring.capacity)[i]? =
      (contents ++ data)[contents.length + data.length - ring.capacity + i]? := by
    rw [List.rtake, List.getElem?_drop, List.length_append]
  simp only [capacity_mk, length, Nat.mod_add_mod, logical]
  by_cases old : data.length + i < ring.capacity
  · -- not reached by the copy: the index of an old cell, one lap on
    have place := copied (data.length + i) old
    rw [if_neg (by omega), Nat.mod_add_mod] at place
    have lap : ring.head + ring.len + (data.length + i) =
        ring.head + (contents.length + data.length - ring.capacity + i) + ring.capacity := by
      omega
    have unlapped : ring.head + ring.len + data.length + i =
        ring.head + ring.len + (data.length + i) := by omega
    rw [unlapped, place, lap, Nat.add_mod_right, rep.layout _ (by omega),
      List.getElem?_append_left (by omega)]
  · have place := copied (data.length + i - ring.capacity) (by omega)
    rw [if_pos (by omega), Nat.mod_add_mod] at place
    have lap : ring.head + ring.len + data.length + i =
        ring.head + ring.len + (data.length + i - ring.capacity) + ring.capacity := by
      omega
    rw [lap, Nat.add_mod_right, place, List.getElem?_append_right (by omega)]
    congr 1
    omega

/-- One append never indexes out of bounds and leaves the bounded tail of the
contents followed by the data. -/
theorem append_represents (ring : RingBuffer Cell) (contents data : List Cell)
    (rep : Represents ring contents) :
    ∃ next, append ring data = some next ∧ next.capacity = ring.capacity ∧
      Represents next ((contents ++ data).rtake ring.capacity) := by
  cases empty : data.isEmpty with
  | true =>
    have nothing : data = [] := List.isEmpty_iff.mp empty
    refine ⟨ring, by simp [append, empty], rfl, ?_⟩
    rw [nothing, List.append_nil, rtake_of_length_le contents ring.capacity rep.lenBound]
    exact rep
  | false =>
    -- of an oversized slice only the last `capacity` cells are copied
    let tail := data.rtake ring.capacity
    have tailLength : tail.length = min data.length ring.capacity := rtake_length _ _
    have shortened : (if data.length ≥ ring.capacity then
        slice? data (data.length - ring.capacity) data.length else some data) = some tail := by
      split
      · exact slice_back data _ (by omega)
      · exact congrArg some (rtake_of_length_le data ring.capacity (by omega)).symm
    have positive : 0 < ring.capacity := by have := rep.headInRange; omega
    obtain ⟨buf, copy, length, copied⟩ := copy_wrapping_exact ring.buf
      ((ring.head + ring.len) % ring.capacity) tail (Nat.mod_lt _ positive)
      (by rw [tailLength]; exact Nat.min_le_right _ _)
    have sameTail : (contents ++ tail).rtake ring.capacity =
        (contents ++ data).rtake ring.capacity := rtake_append_rtake contents data ring.capacity
    by_cases overflows : ring.len + tail.length > ring.capacity
    · refine ⟨{ buf := buf
                head := ((ring.head + ring.len) % ring.capacity + tail.length) % ring.capacity
                len := ring.capacity }, ?_, length, ?_⟩
      · simp only [append, empty, Bool.false_eq_true, ↓reduceIte, Option.bind_eq_bind, shortened,
          mask_is_mod _ rep.powerOfTwo, Option.bind_some, copy, overflows]
      · rw [← sameTail]
        exact append_over_capacity ring contents tail buf rep length copied
          (by rw [tailLength]; exact Nat.min_le_right _ _) overflows
    · refine ⟨{ buf := buf, head := ring.head, len := ring.len + tail.length }, ?_, length, ?_⟩
      · simp only [append, empty, Bool.false_eq_true, ↓reduceIte, Option.bind_eq_bind, shortened,
          mask_is_mod _ rep.powerOfTwo, Option.bind_some, copy, overflows]
      · rw [← sameTail, rtake_of_length_le _ _ (by
          rw [List.length_append, ← rep.lenExact]
          omega)]
        exact append_under_capacity ring contents tail buf rep length copied (by omega)

theorem snapshot_exact (ring : RingBuffer Cell) (contents : List Cell)
    (rep : Represents ring contents) : snapshot ring = some contents := by
  have oldestFirst : ∀ count, count ≤ contents.length →
      (List.range count).mapM (fun i => ring.buf[(ring.head + i) &&& (ring.capacity - 1)]?) =
        some (contents.take count) := by
    intro count bound
    induction count with
    | zero => simp
    | succ count ih =>
      have present : ring.buf[(ring.head + count) &&& (ring.capacity - 1)]? =
          some contents[count] := by
        rw [mask_is_mod _ rep.powerOfTwo, rep.layout count bound, List.getElem?_eq_getElem bound]
      rw [List.range_succ, List.mapM_append, ih (Nat.le_of_succ_le bound)]
      simp [present]
  rw [snapshot, rep.lenExact, oldestFirst _ (Nat.le_refl _), List.take_length]

/-- Every history of appends, from any represented state. -/
theorem append_all_represents (slices : List (List Cell)) (ring : RingBuffer Cell)
    (contents : List Cell) (rep : Represents ring contents) :
    ∃ last, appendAll ring slices = some last ∧ last.capacity = ring.capacity ∧
      Represents last ((contents ++ slices.flatten).rtake ring.capacity) := by
  induction slices generalizing ring contents with
  | nil =>
    refine ⟨ring, rfl, rfl, ?_⟩
    rw [List.flatten_nil, List.append_nil, rtake_of_length_le contents _ rep.lenBound]
    exact rep
  | cons data rest ih =>
    obtain ⟨next, appended, sameCapacity, nextRep⟩ := append_represents ring contents data rep
    obtain ⟨last, run, lastCapacity, lastRep⟩ := ih next _ nextRep
    refine ⟨last, by simp [appendAll, appended, run], lastCapacity.trans sameCapacity, ?_⟩
    rw [sameCapacity, rtake_rtake_append, List.append_assoc] at lastRep
    exact lastRep

/-- The ring is a bounded tail: whatever slices were appended, no index was
out of range and the snapshot is the last `capacity` cells of the history. -/
theorem ring_refines_bounded_tail [Inhabited Cell] (exponent : Nat) (slices : List (List Cell)) :
    ∃ ring last : RingBuffer Cell, new (2 ^ exponent) = some ring ∧
      appendAll ring slices = some last ∧
      snapshot last = some (slices.flatten.rtake (2 ^ exponent)) ∧
      last.len = min slices.flatten.length (2 ^ exponent) := by
  have power : (2 ^ exponent).isPowerOfTwo := ⟨exponent, rfl⟩
  obtain ⟨ring, created, capacity, rep⟩ : ∃ ring : RingBuffer Cell,
      new (2 ^ exponent) = some ring ∧ ring.capacity = 2 ^ exponent ∧ Represents ring [] :=
    new_represents (2 ^ exponent) power
  obtain ⟨last, run, _, lastRep⟩ := append_all_represents slices ring [] rep
  rw [List.nil_append, capacity] at lastRep
  exact ⟨ring, last, created, run, snapshot_exact last _ lastRep,
    by rw [lastRep.lenExact, rtake_length]⟩

end RingBuffer
end Hytch
