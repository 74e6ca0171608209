import Hytch.StandardValues
import Hytch.FilePrograms
import Hytch.SafeTrim

/-!
`session_log.rs`: the on-disk log as programs over its file. The cells of the
file are arbitrary; `octet` is the byte the trim looks at. `rot` is what one
trim leaves, and each operation is shown to leave exactly that.
-/

namespace Hytch

open BoundedTail FilePrograms SafeTrim

variable {Cell : Type} (octet : Cell → UInt8)

def rotateLogFile (maxSize : Nat) : FileTask Cell IoError Unit := do
  let size ← FileTask.seekEnd
  if size > maxSize then do
    let naiveStart := size - maxSize
    let lookback := min escapeLookback naiveStart
    let readStart := naiveStart - lookback
    let _ ← FileTask.seekStart readStart
    -- a single read; what it does not return is gone after `setLen 0`
    let buf ← FileTask.read (maxSize + lookback)
    match safeTrimStart (buf.map octet) lookback with
    | none => .panicked
    | some safeStart => do
        let tail := buf.drop safeStart
        FileTask.setLen 0
        let _ ← FileTask.seekStart 0
        FileTask.writeAll tail
        let _ ← FileTask.seekEnd
        pure ()
  else do
    let _ ← FileTask.seekEnd
    pure ()

structure SessionLog where
  maxSize : Nat
  currentSize : Nat
  deriving DecidableEq

namespace SessionLog

/-- `SessionLog::open` on the file found or created at the path. -/
def openLog (maxSize : Nat) : FileTask Cell IoError SessionLog := do
  rotateLogFile octet maxSize
  let currentSize ← FileTask.metadataLen
  pure { maxSize := maxSize, currentSize := currentSize }

/-- The log is returned also on an error: its size may have been updated by then. -/
def append (log : SessionLog) (data : List Cell) :
    Program Cell IoError (Except IoError Unit × SessionLog) :=
  Program.bind (FileTask.writeAll data : FileTask Cell IoError Unit) fun
    | .error fault => .done (.error fault, log)
    | .ok () =>
        let grown := { log with currentSize := log.currentSize + data.length }
        if grown.currentSize > grown.maxSize then
          let rotated : FileTask Cell IoError Nat := do
            rotateLogFile octet grown.maxSize
            FileTask.metadataLen
          Program.bind rotated fun
            | .error fault => .done (.error fault, grown)
            | .ok currentSize => .done (.ok (), { grown with currentSize := currentSize })
        else .done (.ok (), grown)

end SessionLog

def atEnd (content : List Cell) : File Cell := { content := content, cursor := content.length }

/-- How many bytes a trim to `cap` drops from the front. -/
inductive Drops (cap : Nat) (stream : List Cell) : Nat → Prop where
  | fits (small : stream.length ≤ cap) : Drops cap stream 0
  | trims {point : Nat} (large : cap < stream.length)
      (point_at : TrimPoint (stream.map octet) (stream.length - cap) point) :
      Drops cap stream point

theorem drops_unique (cap : Nat) (stream : List Cell) (first second : Nat)
    (one : Drops octet cap stream first) (two : Drops octet cap stream second) : first = second := by
  cases one with
  | fits small =>
    cases two with
    | fits => rfl
    | trims large => omega
  | trims large one =>
    cases two with
    | fits small => omega
    | trims _ two => exact trim_point_unique _ _ first second one two

theorem drops_inside (cap : Nat) (stream : List Cell) (count : Nat)
    (drops : Drops octet cap stream count) : count ≤ stream.length := by
  cases drops with
  | fits small => exact Nat.zero_le _
  | trims large trims => simpa using trim_point_inside _ _ count trims

variable [Inhabited Cell]

/-- The window read before the cut decides the cut of the whole stream. -/
theorem window_decides (stream : List UInt8) (cut : Nat) (inside : cut ≤ stream.length) :
    ∃ start, safeTrimStart (stream.drop (cut - min escapeLookback cut)) (min escapeLookback cut) =
        some start ∧ TrimPoint stream cut (cut - min escapeLookback cut + start) := by
  have back : cut - min escapeLookback cut + min escapeLookback cut = cut :=
    Nat.sub_add_cancel (Nat.min_le_right _ _)
  have covered : min escapeLookback cut ≤ (stream.drop (cut - min escapeLookback cut)).length := by
    rw [List.length_drop]
    omega
  obtain ⟨start, found, trims⟩ := safe_trim_start_meets _ _ covered
  refine ⟨start, found, ?_⟩
  have whole := trim_point_shift stream (cut - min escapeLookback cut) (min escapeLookback cut) start
    (by omega) (fun position opened => by have := opened.near; omega) trims
  rwa [back] at whole

theorem rotate_exec (cap : Nat) (file : File Cell) :
    ∃ count, Drops octet cap file.content count ∧
      (rotateLogFile octet cap).exec file = some (.ok (), atEnd (file.content.drop count)) := by
  by_cases large : file.content.length > cap
  · obtain ⟨start, found, trims⟩ := window_decides (file.content.map octet)
      (file.content.length - cap) (by rw [List.length_map]; exact Nat.sub_le _ _)
    refine ⟨_, .trims large trims, ?_⟩
    have read_all (content : List Cell) (position room : Nat)
        (enough : content.length - position ≤ room) :
        (({ content := content, cursor := position } : File Cell).read
          (({ content := content, cursor := position } : File Cell).available room)).1 =
          content.drop position := by
      simp only [File.read, File.available, Nat.min_eq_right enough]
      rw [List.take_of_length_le (by rw [List.length_drop])]
    have read_tail := read_all file.content
      (file.content.length - cap - min escapeLookback (file.content.length - cap))
      (cap + min escapeLookback (file.content.length - cap)) (by omega)
    rw [← List.map_drop] at found
    -- up to the read, then the rewrite of the emptied file
    simp only [rotateLogFile, FileTask.exec_seekEnd, if_pos large, FileTask.exec_seekStart,
      FileTask.exec_read, read_tail, found]
    simp only [FileTask.exec_setLen, FileTask.exec_seekStart, FileTask.exec_writeAll,
      FileTask.exec_seekEnd, FileTask.exec_pure, File.setLen_zero]
    have rewritten (tail : List Cell) : ({ content := [], cursor := 0 } : File Cell).write tail =
        atEnd tail := File.write_at_end [] tail
    rw [rewritten, List.drop_drop]
    rfl
  · refine ⟨0, .fits (by omega), ?_⟩
    simp only [rotateLogFile, FileTask.exec_seekEnd, if_neg large]
    rfl

namespace SessionLog

/-- A log between two calls: positioned at its end, its size known. -/
structure Holds (log : SessionLog) (file : File Cell) (content : List Cell) : Prop where
  file : file = atEnd content
  size : log.currentSize = content.length

theorem open_exec (cap : Nat) (file : File Cell) :
    ∃ count log, Drops octet cap file.content count ∧
      (openLog octet cap).exec file = some (.ok log, atEnd (file.content.drop count)) ∧
      log.maxSize = cap ∧ Holds log (atEnd (file.content.drop count)) (file.content.drop count) := by
  obtain ⟨count, drops, rotated⟩ := rotate_exec octet cap file
  refine ⟨count, { maxSize := cap, currentSize := (file.content.drop count).length }, drops, ?_,
    rfl, { file := rfl, size := rfl }⟩
  rw [openLog, FileTask.exec_task _ _ _ _ _ rotated]
  rfl

theorem append_exec_congr (log : SessionLog) (data : List Cell) (file other : File Cell)
    (same : file.write data = other.write data) :
    (append octet log data).exec file = (append octet log data).exec other := by
  have started (file : File Cell) : (FileTask.writeAll data : FileTask Cell IoError Unit).exec file =
      some (.ok (), file.write data) := rfl
  rw [append, Program.exec_bind, Program.exec_bind, started, started, same]

/-- An append is a trim of the log with the data behind it. -/
theorem append_exec (log : SessionLog) (file : File Cell) (content data : List Cell)
    (holds : Holds log file content) :
    ∃ count after, Drops octet log.maxSize (content ++ data) count ∧
      (append octet log data).exec file =
        some ((.ok (), after), atEnd ((content ++ data).drop count)) ∧
      after.maxSize = log.maxSize ∧
      Holds after (atEnd ((content ++ data).drop count)) ((content ++ data).drop count) := by
  have written : file.write data = atEnd (content ++ data) := by
    rw [holds.file]
    exact File.write_at_end content data
  have size : log.currentSize + data.length = (content ++ data).length := by
    rw [holds.size, List.length_append]
  have started : (FileTask.writeAll data : FileTask Cell IoError Unit).exec file =
      some (.ok (), atEnd (content ++ data)) := by
    rw [← written]
    rfl
  by_cases exceeds : (content ++ data).length > log.maxSize
  · obtain ⟨count, drops, rotated⟩ := rotate_exec octet log.maxSize (atEnd (content ++ data))
    refine ⟨count, { maxSize := log.maxSize, currentSize := ((content ++ data).drop count).length },
      drops, ?_, rfl, { file := rfl, size := rfl }⟩
    rw [append, Program.exec_bind, started, Option.bind_some]
    simp only [size, if_pos exceeds]
    rw [Program.exec_bind, FileTask.exec_task _ _ _ _ _ rotated]
    rfl
  · refine ⟨0, { maxSize := log.maxSize, currentSize := (content ++ data).length },
      .fits (by omega), ?_, rfl, { file := rfl, size := rfl }⟩
    rw [append, Program.exec_bind, started, Option.bind_some]
    simp only [size, if_neg exceeds]
    rfl

end SessionLog

end Hytch
