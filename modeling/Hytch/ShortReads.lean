import Mathlib.Data.List.Nodup
import Hytch.RotationStages

/-!
A rotation whose one read returns fewer bytes than it asked for. Fewer than the
lookback are a panic; otherwise what was not read is gone, and it is the newest
part of the log. The bytes are numbered, so that two equal ones are told apart.
-/

namespace Hytch.ShortReads

open FilePrograms FileFaults RotationStages SafeTrim

/-- Each byte with its place in the file. -/
def numbered (bytes : List UInt8) : List (UInt8 × Nat) := bytes.zipIdx

/-- An end of the file, down to its newest byte; a cap of zero keeps none. -/
def KeepsNewest (cap : Nat) (content after : List (UInt8 × Nat)) : Prop :=
  after <:+ content ∧ (0 < cap → after.getLast? = content.getLast?)

section Rotation

variable {Cell : Type} (octet : Cell → UInt8) [Inhabited Cell]

theorem rotation_short (cap limit : Nat) (file : File Cell) (large : cap < file.content.length)
    (asked : limit ≤ cap + lookbackOf cap file.content.length) :
    execUnder (shortReads limit) (rotateLogFile octet cap) 0 file =
      (tailOf octet (lookbackOf cap file.content.length) ((window cap file.content).take limit)).map
        fun tail => (.ok (), atEnd tail) := by
  have ran : execUnder (shortReads limit) (stagedRotation octet cap) 0 file =
      execUnder (shortReads limit) (afterRead octet (lookbackOf cap file.content.length)
        ((window cap file.content).take limit)) 3
        { content := file.content, cursor := readStartOf cap file.content.length + limit } := by
    let positioned : File Cell :=
      { content := file.content, cursor := readStartOf cap file.content.length }
    let asked_for := cap + lookbackOf cap file.content.length
    have reads : min limit (positioned.available asked_for) = limit := by
      rw [available_window cap file.content large, Nat.min_eq_left asked]
    change execUnder (shortReads limit) (ite (file.content.length > cap) _ _) 1 _ = _
    rw [if_pos large]
    change execUnder (shortReads limit) (afterRead octet (lookbackOf cap file.content.length)
      (positioned.read (min limit (positioned.available asked_for))).1) 3
      (positioned.read (min limit (positioned.available asked_for))).2 = _
    rw [reads]
    rfl
  rw [rotate_staged, ran, afterRead]
  cases tailOf octet (lookbackOf cap file.content.length) ((window cap file.content).take limit) with
  | none => rfl
  | some tail =>
    let read_on : File Cell :=
      { content := file.content, cursor := readStartOf cap file.content.length + limit }
    change some (Except.ok (), atEnd ({ read_on.setLen 0 with cursor := 0 }.write tail).content) = _
    have rewritten : ({ content := [], cursor := 0 } : File Cell).write tail = atEnd tail :=
      File.write_at_end [] tail
    rw [File.setLen_zero, rewritten]
    rfl

end Rotation

section Numbered

variable (bytes : List UInt8)

theorem numbered_length : (numbered bytes).length = bytes.length := List.length_zipIdx

theorem numbered_bytes : (numbered bytes).map Prod.fst = bytes := List.zipIdx_map_fst 0 bytes

theorem numbered_injective (first second : Nat) (byte : UInt8 × Nat)
    (one : (numbered bytes)[first]? = some byte) (two : (numbered bytes)[second]? = some byte) :
    first = second := by
  rw [numbered, List.getElem?_zipIdx] at one two
  obtain ⟨_, _, rfl⟩ := Option.map_eq_some_iff.mp one
  obtain ⟨_, _, same⟩ := Option.map_eq_some_iff.mp two
  have := congrArg Prod.snd same
  simp only [Nat.zero_add] at this
  exact this.symm

theorem slice_reaches_end (start count : Nat) (inside : start + count ≤ bytes.length)
    (positive : 0 < bytes.length)
    (newest : (((numbered bytes).drop start).take count).getLast? = (numbered bytes).getLast?) :
    0 < count ∧ start + count = bytes.length := by
  have length := numbered_length bytes
  have slice_length : (((numbered bytes).drop start).take count).length = count := by
    rw [List.length_take, List.length_drop]
    omega
  rw [List.getLast?_eq_getElem?, List.getLast?_eq_getElem?, slice_length, length] at newest
  have last := List.getElem?_eq_getElem (l := numbered bytes) (i := bytes.length - 1) (by omega)
  rw [last] at newest
  have some_left : 0 < count := by
    by_contra none_left
    rw [List.getElem?_eq_none (by rw [slice_length]; omega)] at newest
    cases newest
  rw [List.getElem?_take_of_lt (by omega), List.getElem?_drop] at newest
  have same := numbered_injective bytes _ _ _ newest last
  exact ⟨some_left, by omega⟩

end Numbered

theorem keeps_newest_drop_iff (bytes : List UInt8) (cap point : Nat) (positive : 0 < bytes.length) :
    KeepsNewest cap (numbered bytes) ((numbered bytes).drop point) ↔
      cap = 0 ∨ point < bytes.length := by
  have length := numbered_length bytes
  have some_newest : (numbered bytes).getLast? ≠ none := by
    rw [Ne, List.getLast?_eq_none_iff]
    intro empty
    rw [empty, List.length_nil] at length
    omega
  rw [KeepsNewest, List.getLast?_drop, length]
  by_cases before : point < bytes.length
  · rw [if_neg (by omega)]
    exact iff_of_true ⟨List.drop_suffix _ _, fun _ => rfl⟩ (Or.inr before)
  · rw [if_pos (by omega)]
    constructor
    · rintro ⟨_, newest⟩
      by_contra neither
      exact some_newest (newest (by omega)).symm
    · rintro (none_kept | short)
      · exact ⟨List.drop_suffix _ _, fun some_kept => by omega⟩
      · omega

section Windows

variable (bytes : List UInt8) (cap : Nat) (large : cap < bytes.length)

include large

/-- With the whole window read, what is left is what one trim of the file keeps. -/
theorem whole_window_keeps_iff :
    (∃ tail, tailOf Prod.fst (lookbackOf cap bytes.length) (window cap (numbered bytes)) = some tail ∧
        KeepsNewest cap (numbered bytes) tail) ↔
      cap = 0 ∨ (∃ position, OpenEscape bytes (bytes.length - cap) position) ∨
        CharacterBehind bytes (bytes.length - cap) := by
  obtain ⟨point, trims, kept⟩ := tail_of_window Prod.fst cap (numbered bytes)
  rw [numbered_length] at kept trims
  rw [numbered_bytes] at trims
  have reduced : (∃ tail, some ((numbered bytes).drop point) = some tail ∧
      KeepsNewest cap (numbered bytes) tail) ↔
      KeepsNewest cap (numbered bytes) ((numbered bytes).drop point) := by
    constructor
    · rintro ⟨tail, same, keeps⟩
      cases same
      exact keeps
    · intro keeps
      exact ⟨_, rfl, keeps⟩
  rw [kept, reduced, keeps_newest_drop_iff bytes cap point (by omega)]
  rcases Nat.eq_zero_or_pos cap with none_kept | positive
  · exact iff_of_true (Or.inl none_kept) (Or.inl none_kept)
  · rw [trim_point_before_end_iff bytes _ point (by omega) trims]

theorem part_of_window_loses (limit : Nat) (part : limit < cap + lookbackOf cap bytes.length)
    (tail : List (UInt8 × Nat))
    (kept : tailOf Prod.fst (lookbackOf cap bytes.length)
      ((window cap (numbered bytes)).take limit) = some tail) :
    ¬ KeepsNewest cap (numbered bytes) tail := by
  have length := numbered_length bytes
  have window_size := window_length cap (numbered bytes) (by omega)
  rw [length] at window_size
  have read_length : ((window cap (numbered bytes)).take limit).length = limit := by
    rw [List.length_take]
    omega
  rintro ⟨_, newest⟩
  rcases Nat.lt_or_ge limit (lookbackOf cap bytes.length) with short | enough
  · rw [tail_of_short Prod.fst _ _ (by omega)] at kept
    cases kept
  · obtain ⟨start, inside, some_tail⟩ := tail_of_some Prod.fst (lookbackOf cap bytes.length)
      ((window cap (numbered bytes)).take limit) (by omega)
    rw [kept] at some_tail
    cases some_tail
    -- the slice of the file that is kept ends where the read ended
    have last := newest (by omega)
    have read_start : readStartOf cap bytes.length + (cap + lookbackOf cap bytes.length) =
        bytes.length := by
      rw [window, List.length_drop, length] at window_size
      omega
    rw [window, length, List.drop_take, List.drop_drop] at last
    have reached := slice_reaches_end bytes _ _ (by omega) (by omega) last
    omega

end Windows

/-- A rotation whose read returns `limit` bytes comes to its end with the newest bytes
of the file just when the read returned all it was asked for, and what is behind
the cut does not only continue a character. -/
theorem short_read_keeps_newest_iff (bytes : List UInt8) (cap limit cursor : Nat)
    (large : cap < bytes.length) (asked : limit ≤ cap + lookbackOf cap bytes.length) :
    (∃ after, execUnder (shortReads limit) (rotateLogFile Prod.fst cap) 0
        { content := numbered bytes, cursor := cursor } = some (.ok (), after) ∧
      KeepsNewest cap (numbered bytes) after.content) ↔
      limit = cap + lookbackOf cap bytes.length ∧
        (cap = 0 ∨ (∃ position, OpenEscape bytes (bytes.length - cap) position) ∨
          CharacterBehind bytes (bytes.length - cap)) := by
  have length := numbered_length bytes
  have window_size := window_length cap (numbered bytes) (by omega)
  rw [length] at window_size
  have ran := rotation_short Prod.fst cap limit { content := numbered bytes, cursor := cursor }
    (by simpa only [length] using large) (by simpa only [length] using asked)
  simp only [length] at ran
  have ends : (∃ after, execUnder (shortReads limit) (rotateLogFile Prod.fst cap) 0
        { content := numbered bytes, cursor := cursor } = some (.ok (), after) ∧
      KeepsNewest cap (numbered bytes) after.content) ↔
      ∃ tail, tailOf Prod.fst (lookbackOf cap bytes.length)
          ((window cap (numbered bytes)).take limit) = some tail ∧
        KeepsNewest cap (numbered bytes) tail := by
    rw [ran]
    constructor
    · rintro ⟨after, ended, keeps⟩
      obtain ⟨tail, kept, same⟩ := Option.map_eq_some_iff.mp ended
      cases same
      exact ⟨tail, kept, keeps⟩
    · rintro ⟨tail, kept, keeps⟩
      exact ⟨atEnd tail, by rw [kept, Option.map_some], keeps⟩
  rw [ends]
  rcases Nat.lt_or_ge limit (cap + lookbackOf cap bytes.length) with part | all
  · refine iff_of_false ?_ (fun both => by omega)
    rintro ⟨tail, kept, keeps⟩
    exact part_of_window_loses bytes cap large limit part tail kept keeps
  · have whole : limit = cap + lookbackOf cap bytes.length := Nat.le_antisymm asked all
    rw [List.take_of_length_le (by omega), whole_window_keeps_iff bytes cap large]
    exact ⟨fun newest => ⟨whole, newest⟩, fun both => both.2⟩

/-- Two bytes under a cap of one, read whole. -/
theorem whole_read_keeps_newest :
    ∃ after, execUnder (shortReads 2) (rotateLogFile Prod.fst 1) 0
        { content := numbered [0x61, 0x62], cursor := 0 } = some (.ok (), after) ∧
      KeepsNewest 1 (numbered [0x61, 0x62]) after.content :=
  (short_read_keeps_newest_iff [0x61, 0x62] 1 2 0 (by decide) (by decide)).mpr
    ⟨by decide, Or.inr (Or.inr ⟨1, 0x62, by decide, rfl, by decide⟩)⟩

/-- Of abc under a cap of two, a read of two bytes leaves b; under a cap of one, a
read of one byte is a panic. -/
theorem short_read_loses_newest :
    execUnder (shortReads 2) (rotateLogFile Prod.fst 2) 0
        { content := numbered [0x61, 0x62, 0x63], cursor := 0 } =
      some (.ok (), atEnd [(0x62, 1)]) ∧
    ¬ [(0x62, 1)] <:+ numbered [0x61, 0x62, 0x63] ∧
    execUnder (shortReads 1) (rotateLogFile Prod.fst 1) 0
      { content := numbered [0x61, 0x62, 0x63], cursor := 0 } = none := by
  refine ⟨rfl, by decide, rfl⟩

end Hytch.ShortReads
