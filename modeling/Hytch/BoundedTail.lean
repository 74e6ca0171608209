import Mathlib.Data.List.DropRight

/-!
The last `limit` elements of a growing list, and slices that check their
bounds. `List.rtake` is the bounded tail; the lemmas say how it absorbs what
an earlier trim already dropped. A checked slice answers `none` where an
indexing expression would abort the program.
-/

namespace Hytch.BoundedTail

universe u
variable {Item : Type u}

theorem rtake_length (items : List Item) (limit : Nat) :
    (items.rtake limit).length = min items.length limit := by
  simp only [List.rtake, List.length_drop]
  omega

theorem rtake_of_length_le (items : List Item) (limit : Nat)
    (fits : items.length ≤ limit) : items.rtake limit = items := by
  have none_dropped : items.length - limit = 0 := by omega
  simp [List.rtake, none_dropped]

theorem rtake_append_of_le_length (older newer : List Item) (limit : Nat)
    (covered : limit ≤ newer.length) :
    (older ++ newer).rtake limit = newer.rtake limit := by
  have past_older : (older ++ newer).length - limit = older.length + (newer.length - limit) := by
    rw [List.length_append]
    omega
  rw [List.rtake, past_older, List.drop_length_add_append, List.rtake]

theorem rtake_rtake_append (older newer : List Item) (limit : Nat) :
    (older.rtake limit ++ newer).rtake limit = (older ++ newer).rtake limit := by
  by_cases fits : older.length ≤ limit
  · rw [rtake_of_length_le older limit fits]
  · have split_older : older.take (older.length - limit) ++ older.rtake limit = older :=
      List.take_append_drop (older.length - limit) older
    have covered : limit ≤ (older.rtake limit ++ newer).length := by
      rw [List.length_append, rtake_length]
      omega
    calc (older.rtake limit ++ newer).rtake limit
        = (older.take (older.length - limit) ++ (older.rtake limit ++ newer)).rtake limit :=
          (rtake_append_of_le_length _ _ limit covered).symm
      _ = (older ++ newer).rtake limit := by rw [← List.append_assoc, split_older]

theorem rtake_append_rtake (older newer : List Item) (limit : Nat) :
    (older ++ newer.rtake limit).rtake limit = (older ++ newer).rtake limit := by
  by_cases fits : newer.length ≤ limit
  · rw [rtake_of_length_le newer limit fits]
  · have covered : limit ≤ (newer.rtake limit).length := by
      rw [rtake_length]
      omega
    rw [rtake_append_of_le_length older (newer.rtake limit) limit covered,
      rtake_append_of_le_length older newer limit (by omega), rtake_of_length_le]
    rw [rtake_length]
    omega

/-- `&items[start..stop]`. -/
def slice? (items : List Item) (start stop : Nat) : Option (List Item) :=
  if start ≤ stop ∧ stop ≤ items.length then some ((items.drop start).take (stop - start))
  else none

/-- `target[start..stop].copy_from_slice(source)`. -/
def copyFromSlice? (target : List Item) (start stop : Nat) (source : List Item) :
    Option (List Item) :=
  if start ≤ stop ∧ stop ≤ target.length ∧ source.length = stop - start then
    some (target.take start ++ source ++ target.drop stop)
  else none

theorem slice_front (items : List Item) (stop : Nat) (bound : stop ≤ items.length) :
    slice? items 0 stop = some (items.take stop) := by
  simp [slice?, bound]

theorem slice_back (items : List Item) (start : Nat) (bound : start ≤ items.length) :
    slice? items start items.length = some (items.drop start) := by
  simp [slice?, bound, List.take_of_length_le]

theorem copyFromSlice_ok (target source : List Item) (start : Nat)
    (bound : start + source.length ≤ target.length) :
    copyFromSlice? target start (start + source.length) source =
      some (target.take start ++ source ++ target.drop (start + source.length)) := by
  simp [copyFromSlice?, bound]

theorem copied_length (target source : List Item) (start : Nat)
    (bound : start + source.length ≤ target.length) :
    (target.take start ++ source ++ target.drop (start + source.length)).length =
      target.length := by
  simp only [List.length_append, List.length_take, List.length_drop]
  omega

/-- Reading back after a copy: the source inside the copied range, the old
cell everywhere else. -/
theorem copied_getElem (target source : List Item) (start index : Nat)
    (bound : start + source.length ≤ target.length) :
    (target.take start ++ source ++ target.drop (start + source.length))[index]? =
      if start ≤ index ∧ index < start + source.length then source[index - start]?
      else target[index]? := by
  have front : (target.take start).length = start := by
    rw [List.length_take]
    omega
  by_cases before : index < start
  · have outside : ¬ (start ≤ index ∧ index < start + source.length) := by omega
    rw [if_neg outside, List.append_assoc, List.getElem?_append_left (by omega),
      List.getElem?_take_of_lt before]
  · by_cases inside : index < start + source.length
    · rw [if_pos ⟨by omega, inside⟩, List.append_assoc, List.getElem?_append_right (by omega),
        List.getElem?_append_left (by omega), front]
    · rw [if_neg (fun both => inside both.2), List.getElem?_append_right
        (by rw [List.length_append]; omega), List.length_append, front, List.getElem?_drop]
      congr 1
      omega

end Hytch.BoundedTail
