import Hytch.LogBoundaries

/-!
Escape sequences with intermediate bytes, as the designation of a character
set: ESC, bytes 0x20 to 0x2F, one final byte. The trim looks at the second byte
only and takes every such sequence for closed there, so a cut behind it stays
where it is.
-/

namespace Hytch.IntermediateEscapes

open SafeTrim LogHistory LogBoundaries

structure IntermediateEscape where
  intermediates : List UInt8
  final : UInt8
  some_intermediate : intermediates ≠ []
  intermediate : ∀ byte ∈ intermediates, 0x20 ≤ byte ∧ byte ≤ 0x2f
  ends : 0x30 ≤ final ∧ final ≤ 0x7e
  short : intermediates.length + 2 ≤ 64

def IntermediateEscape.bytes (escape : IntermediateEscape) : List UInt8 :=
  esc :: (escape.intermediates ++ [escape.final])

/-- Where the content left by a trim begins in the stream. -/
def startOf (cap : Nat) (stream : List UInt8) : Nat :=
  stream.length - (rotated cap stream).length

theorem start_of_drops (cap count : Nat) (stream : List UInt8) (drops : Drops id cap stream count) :
    startOf cap stream = count := by
  have inside := drops_inside id cap stream count drops
  rw [startOf, rotated_eq cap count stream drops, List.length_drop]
  omega

theorem rotated_from_start (cap : Nat) (stream : List UInt8) :
    rotated cap stream = stream.drop (startOf cap stream) := by
  obtain ⟨count, drops, same⟩ := rotated_drops cap stream
  rw [start_of_drops cap count stream drops, same]

theorem getElem_middle (front middle back : List UInt8) (index : Nat)
    (inside : index < middle.length) :
    (front ++ middle ++ back)[front.length + index]? = middle[index]? := by
  rw [List.append_assoc, List.getElem?_append_right (Nat.le_add_right _ _), Nat.add_sub_cancel_left,
    List.getElem?_append_left inside]

namespace IntermediateEscape

variable (escape : IntermediateEscape)

theorem bytes_length : escape.bytes.length = escape.intermediates.length + 2 := by
  simp [bytes]

theorem rest_plain (byte : UInt8) (member : byte ∈ escape.intermediates ++ [escape.final]) :
    byte ≠ esc ∧ isContinuation byte = false := by
  have range : 0x20 ≤ byte.toNat ∧ byte.toNat ≤ 0x7e := by
    rcases List.mem_append.mp member with early | last
    · have low := UInt8.le_iff_toNat_le.mp (escape.intermediate byte early).1
      have high := UInt8.le_iff_toNat_le.mp (escape.intermediate byte early).2
      exact ⟨low, Nat.le_trans high (by decide)⟩
    · rw [List.mem_singleton.mp last]
      have low := UInt8.le_iff_toNat_le.mp escape.ends.1
      have high := UInt8.le_iff_toNat_le.mp escape.ends.2
      exact ⟨Nat.le_trans (by decide) low, high⟩
  constructor
  · intro same
    rw [same] at range
    exact absurd range.1 (by decide)
  · rw [Bool.eq_false_iff, Ne, isContinuation_iff]
    omega

theorem byte_inside (index : Nat) (positive : 0 < index) (inside : index < escape.bytes.length) :
    ∃ byte, escape.bytes[index]? = some byte ∧ byte ≠ esc ∧ isContinuation byte = false := by
  obtain ⟨index, rfl⟩ := Nat.exists_eq_add_of_lt positive
  rw [Nat.zero_add] at inside ⊢
  have room : index < (escape.intermediates ++ [escape.final]).length := by
    simpa [bytes] using inside
  refine ⟨(escape.intermediates ++ [escape.final])[index], ?_, ?_⟩
  · rw [bytes, List.getElem?_cons_succ, List.getElem?_eq_getElem room]
  · exact escape.rest_plain _ (List.getElem_mem room)

/-- The second byte already counts as the end. -/
theorem terminated_iff (count : Nat) (positive : 0 < count) :
    escapeSequenceTerminated (escape.bytes.take count) = true ↔ 2 ≤ count := by
  obtain ⟨first, rest, shape⟩ := List.exists_cons_of_ne_nil escape.some_intermediate
  have range := escape.intermediate first (by rw [shape]; exact List.mem_cons_self)
  have other : first ≠ 0x5b := by
    intro same
    rw [same] at range
    exact absurd range.2 (by decide)
  rw [bytes, shape]
  match count with
  | 1 => simp [escapeSequenceTerminated]
  | count + 2 => simp [escapeSequenceTerminated, other]

end IntermediateEscape

section Cut

variable (front back : List UInt8) (escape : IntermediateEscape)

theorem cut_behind_esc :
    TrimPoint (front ++ escape.bytes ++ back) (front.length + 1) front.length := by
  have size := escape.bytes_length
  have starts := getElem_middle front escape.bytes back 0 (by omega)
  apply TrimPoint.escape
  constructor
  · exact Nat.lt_succ_self _
  · exact Nat.add_le_add_left (by decide) _
  · exact starts
  · intro later after before
    omega
  · have one : ((front ++ escape.bytes ++ back).drop front.length).take
        (front.length + 1 - front.length) = escape.bytes.take 1 := by
      rw [List.append_assoc, List.drop_left, Nat.add_sub_cancel_left,
        List.take_append_of_le_length (by omega)]
    rw [one, Bool.eq_false_iff, Ne, escape.terminated_iff 1 (by decide)]
    decide

theorem none_open_inside (offset position : Nat) (after : 2 ≤ offset)
    (before : offset < escape.bytes.length) :
    ¬ OpenEscape (front ++ escape.bytes ++ back) (front.length + offset) position := by
  intro opened
  have early := opened.before
  rcases Nat.lt_trichotomy position front.length with less | same | more
  · -- the ESC of the sequence is a later one
    have found := getElem_middle front escape.bytes back 0 (by omega)
    exact opened.last front.length less (by omega) found
  · have unterminated := opened.unterminated
    have inside : ((front ++ escape.bytes ++ back).drop position).take
        (front.length + offset - position) = escape.bytes.take offset := by
      rw [same, List.append_assoc, List.drop_left, Nat.add_sub_cancel_left,
        List.take_append_of_le_length (by omega)]
    rw [inside, (escape.terminated_iff offset (by omega)).mpr after] at unterminated
    cases unterminated
  · obtain ⟨byte, there, other, _⟩ := escape.byte_inside (position - front.length) (by omega) (by omega)
    have starts := opened.starts
    have place : position = front.length + (position - front.length) := by omega
    rw [place, getElem_middle front escape.bytes back _ (by omega), there] at starts
    cases starts
    exact other rfl

/-- So a cut there stays where it is, inside the sequence. -/
theorem cut_behind_second_byte (offset : Nat) (after : 2 ≤ offset)
    (before : offset < escape.bytes.length) :
    TrimPoint (front ++ escape.bytes ++ back) (front.length + offset) (front.length + offset) := by
  obtain ⟨byte, there, _, starts⟩ := escape.byte_inside offset (by omega) before
  refine .character (fun position => none_open_inside front back escape offset position after before) ?_
  constructor
  · exact Nat.le_refl _
  · simp only [List.length_append]
    omega
  · intro position from_cut short
    omega
  · intro other also
    rw [getElem_middle front escape.bytes back offset before, there] at also
    cases also
    exact starts

/-- A trim whose cut falls inside the sequence leaves a file that begins at or before
its ESC, or at or after its end, just when the cut falls right behind the ESC. -/
theorem sequence_not_split_iff (cap : Nat)
    (across : front.length < (front ++ escape.bytes ++ back).length - cap ∧
      (front ++ escape.bytes ++ back).length - cap < front.length + escape.bytes.length) :
    rotated cap (front ++ escape.bytes ++ back) =
        (front ++ escape.bytes ++ back).drop (startOf cap (front ++ escape.bytes ++ back)) ∧
      ((startOf cap (front ++ escape.bytes ++ back) ≤ front.length ∨
        front.length + escape.bytes.length ≤ startOf cap (front ++ escape.bytes ++ back)) ↔
        (front ++ escape.bytes ++ back).length - cap = front.length + 1) := by
  refine ⟨rotated_from_start cap _, ?_⟩
  have large : cap < (front ++ escape.bytes ++ back).length := by omega
  obtain ⟨offset, same⟩ := Nat.exists_eq_add_of_le (Nat.le_of_lt across.1)
  rw [same] at across ⊢
  by_cases first : offset = 1
  · have start := start_of_drops cap front.length _
      (.trims large (by rw [List.map_id, same, first]; exact cut_behind_esc front back escape))
    rw [start]
    exact iff_of_true (Or.inl (Nat.le_refl _)) (by omega)
  · have start := start_of_drops cap (front.length + offset) _
      (.trims large (by
        rw [List.map_id, same]
        exact cut_behind_second_byte front back escape offset (by omega) (by omega)))
    rw [start]
    exact iff_of_false (by omega) (by omega)

end Cut

/-- `ESC ( B`, the designation of ASCII. -/
def designateAscii : IntermediateEscape where
  intermediates := [0x28]
  final := 0x42
  some_intermediate := by decide
  intermediate := by
    intro byte member
    rw [List.mem_singleton.mp member]
    decide
  ends := by decide
  short := by decide

/-- With a cap of two bytes its ESC and everything before it survive a cut behind the ESC. -/
theorem sequence_kept_whole :
    startOf 2 ([0x61] ++ designateAscii.bytes ++ []) ≤ [(0x61 : UInt8)].length ∨
      [(0x61 : UInt8)].length + designateAscii.bytes.length ≤
        startOf 2 ([0x61] ++ designateAscii.bytes ++ []) :=
  (sequence_not_split_iff [0x61] [] designateAscii 2 (by decide)).2.mpr (by decide)

/-- With a cap of one byte the file begins with the final byte of the sequence. -/
theorem sequence_split :
    rotated 1 ([0x61] ++ designateAscii.bytes ++ []) = [0x42] ∧
      ¬ (startOf 1 ([0x61] ++ designateAscii.bytes ++ []) ≤ [(0x61 : UInt8)].length ∨
        [(0x61 : UInt8)].length + designateAscii.bytes.length ≤
          startOf 1 ([0x61] ++ designateAscii.bytes ++ [])) := by
  decide

end Hytch.IntermediateEscapes
