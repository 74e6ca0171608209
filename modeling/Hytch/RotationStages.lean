import Hytch.SessionLog
import Hytch.FileFaults

/-!
A rotation taken apart at its read: the window it asks for, and what it does
with the bytes it gets, be they all of the window or fewer.
-/

namespace Hytch.RotationStages

open BoundedTail FilePrograms FileFaults SafeTrim

variable {Cell : Type} (octet : Cell → UInt8)

def lookbackOf (maxSize size : Nat) : Nat := min escapeLookback (size - maxSize)

def readStartOf (maxSize size : Nat) : Nat := size - maxSize - lookbackOf maxSize size

/-- The bytes a rotation asks for. -/
def window (maxSize : Nat) (content : List Cell) : List Cell :=
  content.drop (readStartOf maxSize content.length)

/-- What is kept of the bytes that were read; `none` is an index out of bounds. -/
def tailOf (lookback : Nat) (buf : List Cell) : Option (List Cell) :=
  (safeTrimStart (buf.map octet) lookback).map fun safeStart => buf.drop safeStart

/-- `rotateLogFile` from `set_len` on. -/
def rewrite (tail : List Cell) : FileTask Cell IoError Unit := do
  FileTask.setLen 0
  let _ ← FileTask.seekStart 0
  FileTask.writeAll tail
  let _ ← FileTask.seekEnd
  pure ()

/-- `rotateLogFile` once its read has returned. -/
def afterRead (lookback : Nat) (buf : List Cell) : FileTask Cell IoError Unit :=
  (tailOf octet lookback buf).elim .panicked rewrite

/-- `rotateLogFile` on a file found to be over the cap. -/
def trim (maxSize size : Nat) : FileTask Cell IoError Unit := do
  let _ ← FileTask.seekStart (readStartOf maxSize size)
  let buf ← FileTask.read (maxSize + lookbackOf maxSize size)
  afterRead octet (lookbackOf maxSize size) buf

/-- `rotateLogFile` with its stages named. -/
def stagedRotation (maxSize : Nat) : FileTask Cell IoError Unit := do
  let size ← FileTask.seekEnd
  if size > maxSize then trim octet maxSize size
  else do
    let _ ← FileTask.seekEnd
    pure ()

theorem rotate_staged (maxSize : Nat) :
    rotateLogFile octet maxSize = stagedRotation octet maxSize := by
  unfold rotateLogFile stagedRotation trim
  refine bind_congr ?_
  intro size
  by_cases large : size > maxSize
  · rw [if_pos large, if_pos large]
    refine bind_congr ?_
    intro _
    refine bind_congr ?_
    intro buf
    unfold afterRead tailOf lookbackOf
    cases safeTrimStart (buf.map octet) (min escapeLookback (size - maxSize)) with
    | none => rfl
    | some safeStart => rfl
  · rw [if_neg large, if_neg large]

theorem rewrite_exec [Inhabited Cell] (tail : List Cell) (file : File Cell) :
    (rewrite tail).exec file = some (.ok (), atEnd tail) := by
  have rewritten : ({ content := [], cursor := 0 } : File Cell).write tail = atEnd tail :=
    File.write_at_end [] tail
  simp only [rewrite, FileTask.exec_setLen, FileTask.exec_seekStart, FileTask.exec_writeAll,
    FileTask.exec_seekEnd, FileTask.exec_pure, File.setLen_zero, rewritten]
  rfl

theorem rewrite_within (tail : List Cell) : Within 4 (rewrite tail) :=
  within_then _ _ 1 3 (within_request (.setLen 0)) fun _ =>
    within_then _ _ 1 2 (within_request (.seekStart 0)) fun _ =>
      within_then _ _ 1 1 (within_request (.writeAll tail)) fun _ =>
        within_then _ _ 1 0 (within_request .seekEnd) fun _ => trivial

theorem after_read_within (lookback : Nat) (buf : List Cell) :
    Within 4 (afterRead octet lookback buf) := by
  rw [afterRead]
  cases tailOf octet lookback buf with
  | none => trivial
  | some tail => exact rewrite_within tail

theorem rotate_within (maxSize : Nat) : Within 7 (rotateLogFile octet maxSize) := by
  rw [rotate_staged]
  refine within_then _ _ 1 6 (within_request .seekEnd) ?_
  intro size
  by_cases large : size > maxSize
  · rw [if_pos large]
    exact within_then _ _ 1 5 (within_request (.seekStart _)) fun _ =>
      within_then _ _ 1 4 (within_request (.read _)) fun _ => after_read_within octet _ _
  · rw [if_neg large]
    exact within_more _ 1 6 (by decide) (within_then _ _ 1 0 (within_request .seekEnd) fun _ => trivial)

section Window

variable (maxSize : Nat) (content : List Cell)

theorem lookback_positive (large : maxSize < content.length) :
    1 ≤ lookbackOf maxSize content.length := by
  simp only [lookbackOf, escapeLookback]
  omega

theorem window_length (large : maxSize < content.length) :
    (window maxSize content).length = maxSize + lookbackOf maxSize content.length := by
  simp only [window, readStartOf, lookbackOf, List.length_drop]
  omega

theorem read_window (count : Nat) :
    ({ content := content, cursor := readStartOf maxSize content.length } : File Cell).read count =
      ((window maxSize content).take count,
        { content := content, cursor := readStartOf maxSize content.length + count }) := rfl

theorem available_window (large : maxSize < content.length) :
    ({ content := content, cursor := readStartOf maxSize content.length } : File Cell).available
      (maxSize + lookbackOf maxSize content.length) =
        maxSize + lookbackOf maxSize content.length := by
  have length := window_length maxSize content large
  rw [window, List.length_drop] at length
  rw [File.available, length, Nat.min_self]

theorem tail_of_short (lookback : Nat) (buf : List Cell) (short : buf.length < lookback) :
    tailOf octet lookback buf = none := by
  simp [tailOf, safeTrimStart, slice?, Nat.not_le.mpr short]

theorem tail_of_some (lookback : Nat) (buf : List Cell) (enough : lookback ≤ buf.length) :
    ∃ start, start ≤ buf.length ∧ tailOf octet lookback buf = some (buf.drop start) := by
  obtain ⟨start, found, trims⟩ := safe_trim_start_meets (buf.map octet) lookback
    (by rwa [List.length_map])
  have inside := trim_point_inside _ lookback start trims
  rw [List.length_map] at inside
  exact ⟨start, inside, by rw [tailOf, found, Option.map_some]⟩

theorem tail_of_window :
    ∃ point, TrimPoint (content.map octet) (content.length - maxSize) point ∧
      tailOf octet (lookbackOf maxSize content.length) (window maxSize content) =
        some (content.drop point) := by
  obtain ⟨start, found, trims⟩ := window_decides (content.map octet) (content.length - maxSize)
    (by rw [List.length_map]; exact Nat.sub_le _ _)
  refine ⟨_, trims, ?_⟩
  rw [← List.map_drop] at found
  have kept := congrArg (Option.map fun safeStart => (window maxSize content).drop safeStart) found
  rw [Option.map_some, window, List.drop_drop] at kept
  exact kept

end Window

section Behind

variable (bytes : List UInt8)

/-- Some character starts in what a trim at the cut would keep. -/
def CharacterBehind (cut : Nat) : Prop :=
  ∃ index byte, cut ≤ index ∧ bytes[index]? = some byte ∧ isContinuation byte = false

/-- A trim leaves nothing where continuation bytes go on to the end. -/
theorem trim_point_before_end_iff (cut point : Nat) (inside : cut ≤ bytes.length)
    (trims : TrimPoint bytes cut point) :
    point < bytes.length ↔
      (∃ position, OpenEscape bytes cut position) ∨ CharacterBehind bytes cut := by
  cases trims with
  | escape opened =>
    have before := opened.before
    exact iff_of_true (by omega) (Or.inl ⟨point, opened⟩)
  | character closed skips =>
    constructor
    · intro before
      have there := List.getElem?_eq_getElem before
      exact Or.inr ⟨point, _, skips.forward, there, skips.stops _ there⟩
    · rintro (⟨position, opened⟩ | ⟨index, byte, behind, there, starts⟩)
      · exact absurd opened (closed position)
      · by_contra ended
        obtain ⟨short, _⟩ := List.getElem?_eq_some_iff.mp there
        obtain ⟨other, also, continues⟩ := skips.continues index behind (by omega)
        rw [there] at also
        cases also
        rw [starts] at continues
        cases continues

/-- A trim keeps everything only where an escape sequence is open from the first byte on. -/
theorem trim_point_zero_iff (cut point : Nat) (positive : 0 < cut) (trims : TrimPoint bytes cut point) :
    point = 0 ↔ OpenEscape bytes cut 0 := by
  cases trims with
  | escape opened =>
    constructor
    · intro first
      rwa [first] at opened
    · exact open_escape_unique bytes cut point 0 opened
  | character closed skips =>
    have forward := skips.forward
    exact iff_of_false (by omega) (closed 0)

end Behind

section Append

/-- `append` once its `write_all` has returned. -/
def afterWrite (log : SessionLog) (data : List Cell) :
    Program Cell IoError (Except IoError Unit × SessionLog) :=
  let grown := { log with currentSize := log.currentSize + data.length }
  if grown.currentSize > grown.maxSize then
    Program.bind (do
      rotateLogFile octet grown.maxSize
      FileTask.metadataLen : FileTask Cell IoError Nat) fun
      | .error fault => .done (.error fault, grown)
      | .ok currentSize => .done (.ok (), { grown with currentSize := currentSize })
  else .done (.ok (), grown)

theorem append_after_write (log : SessionLog) (data : List Cell) :
    SessionLog.append octet log data =
      Program.bind (FileTask.writeAll data : FileTask Cell IoError Unit) fun
        | .error fault => .done (.error fault, log)
        | .ok () => afterWrite octet log data := rfl

/-- `append` once its rotation has returned. -/
def finish (grown : SessionLog) :
    Except IoError Unit → Program Cell IoError (Except IoError Unit × SessionLog)
  | .error fault => .done (.error fault, grown)
  | .ok () => .call .metadataLen fun
      | .error fault => .done (.error fault, grown)
      | .ok currentSize => .done (.ok (), { grown with currentSize := currentSize })

theorem after_write_over (log : SessionLog) (file : File Cell) (content data : List Cell)
    (holds : log.Holds file content) (large : log.maxSize < (content ++ data).length) :
    afterWrite octet log data =
      Program.bind (rotateLogFile octet log.maxSize)
        (finish { log with currentSize := (content ++ data).length }) := by
  have size : log.currentSize + data.length = (content ++ data).length := by
    rw [holds.size, List.length_append]
  have exceeds : (content ++ data).length > log.maxSize := large
  simp only [afterWrite, size, if_pos exceeds]
  change Program.bind (Program.bind (rotateLogFile octet log.maxSize) _) _ = _
  rw [bind_assoc]
  congr 1
  funext outcome
  cases outcome with
  | error fault => rfl
  | ok =>
    refine congrArg (Program.call Operation.metadataLen) (funext ?_)
    intro answer
    cases answer with
    | ok size => rfl
    | error fault => rfl

theorem after_write_fits (log : SessionLog) (file : File Cell) (content data : List Cell)
    (holds : log.Holds file content) (small : (content ++ data).length ≤ log.maxSize) :
    afterWrite octet log data =
      .done (.ok (), { log with currentSize := (content ++ data).length }) := by
  have size : log.currentSize + data.length = (content ++ data).length := by
    rw [holds.size, List.length_append]
  have fits : ¬ (content ++ data).length > log.maxSize := Nat.not_lt.mpr small
  simp only [afterWrite, size, if_neg fits]

theorem holds_write [Inhabited Cell] (log : SessionLog) (file : File Cell) (content data : List Cell)
    (holds : log.Holds file content) : file.write data = atEnd (content ++ data) := by
  rw [holds.file]
  exact File.write_at_end content data

end Append

end Hytch.RotationStages
