import Hytch.RotationStages

/-!
A daemon killed while it rotates its log. The rotation empties the file before
it writes the kept bytes back, so between the two only what has been written
again is on disk.
-/

namespace Hytch.CrashedRotation

open FilePrograms FileFaults RotationStages SafeTrim

variable {Cell : Type} (octet : Cell → UInt8)

section Crash

variable [Inhabited Cell] {Result : Type}

/-- Where a process is killed: the file still holds, in one piece, what the program
would have left in it had it gone on. -/
def Survives (residual : Program Cell IoError Result) (file : File Cell) : Prop :=
  ∀ result last, residual.exec file = some (result, last) → last.content <:+: file.content

/-- Killed no later than before `set_len`, the fourth call, or with all the kept bytes
written again behind the fifth. -/
def KilledSafely (cap : Nat) (content : List Cell) (counts : List Nat) : Prop :=
  counts.length ≤ 3 ∨
    ∀ tail, tailOf octet (lookbackOf cap content.length)
        ((window cap content).take (counts.getD 2 0)) = some tail →
      tail.length ≤ (counts.drop 5).sum

variable (rest : Except IoError Unit → Program Cell IoError Result)

theorem survives_iff (residual : Program Cell IoError Result) (file : File Cell) (kept : List Cell)
    (ends : ∃ result last, residual.exec file = some (result, last) ∧ last.content = kept) :
    Survives residual file ↔ kept <:+: file.content := by
  obtain ⟨result, last, ran, same⟩ := ends
  constructor
  · intro survives
    rw [← same]
    exact survives result last ran
  · intro inside other final also
    rw [ran] at also
    cases also
    rwa [same]

omit [Inhabited Cell] in
theorem infix_take_iff (tail : List Cell) (count : Nat) :
    tail <:+: tail.take count ↔ tail.length ≤ count := by
  constructor
  · intro inside
    have shorter := inside.length_le
    rw [List.length_take] at shorter
    omega
  · intro all
    exact ⟨[], [], by simp [List.take_of_length_le all]⟩

theorem rewrite_ends (tail : List Cell) (file : File Cell) (quiet : ∀ outcome, Quiet (rest outcome)) :
    ∃ result last, (Program.bind (rewrite tail) rest).exec file = some (result, last) ∧
      last.content = tail := by
  rw [Program.exec_bind, RotationStages.rewrite_exec, Option.bind_some]
  exact quiet_exec (rest (.ok ())) (atEnd tail) (quiet _)

theorem write_crash (tail : List Cell) (next : Except IoError Unit → Program Cell IoError Result)
    (file after : File Cell) (counts : List Nat) (residual : Program Cell IoError Result)
    (emptied : file = { content := [], cursor := 0 }) (quiet : Quiet (next (.ok ())))
    (ran : runSteps (.call (.writeAll tail) next) file counts = some (residual, after)) :
    Survives residual after ↔ tail.length ≤ counts.sum := by
  have written (data : List Cell) : file.write data = atEnd data := by
    rw [emptied]
    exact File.write_at_end [] data
  rcases write_run tail next residual file after counts ran with
    ⟨short, going_on, so_far⟩ | ⟨earlier, later, split, all, onward⟩
  · have whole : after.write (tail.drop counts.sum) = atEnd tail := by
      rw [so_far, File.write_write, List.take_append_drop, written]
    have ends : ∃ result last, residual.exec after = some (result, last) ∧ last.content = tail := by
      rw [going_on, Program.exec, File.perform, whole]
      exact quiet_exec (next (.ok ())) (atEnd tail) quiet
    rw [survives_iff residual after tail ends, so_far, written]
    exact infix_take_iff tail counts.sum
  · rw [written] at onward
    obtain ⟨still, same⟩ := quiet_run (next (.ok ())) residual (atEnd tail) after later quiet onward
    obtain ⟨result, last, ended, unchanged⟩ := quiet_exec residual after still
    rw [survives_iff residual after tail ⟨result, last, ended, unchanged.trans same⟩, same, split,
      List.sum_append]
    exact iff_of_true List.infix_rfl (by omega)

theorem rewrite_crash (tail : List Cell) (file after : File Cell) (counts : List Nat)
    (residual : Program Cell IoError Result) (quiet : ∀ outcome, Quiet (rest outcome))
    (begun : counts ≠ [])
    (ran : runSteps (Program.bind (rewrite tail) rest) file counts = some (residual, after)) :
    Survives residual after ↔ tail.length ≤ (counts.drop 2).sum := by
  have emptied : (file.setLen 0) = { content := [], cursor := file.cursor } := File.setLen_zero file
  match counts, begun with
  | [_], _ =>
    cases ran
    refine Iff.trans (survives_iff _ _ tail (rewrite_ends rest tail file quiet)) ?_
    change tail <:+: (file.setLen 0).content ↔ _
    rw [emptied]
    simp
  | _ :: _ :: writes, _ =>
    refine write_crash tail _ { file.setLen 0 with cursor := 0 } after writes residual ?_ ?_ ran
    · rw [emptied]
    · intro answer
      cases answer with
      | ok position => exact quiet (.ok ())
      | error fault => exact quiet (.error fault)

theorem read_crash (lookback : Nat) (buf : List Cell) (file after : File Cell) (counts : List Nat)
    (residual : Program Cell IoError Result) (quiet : ∀ outcome, Quiet (rest outcome))
    (inside : buf <:+: file.content)
    (ran : runSteps (Program.bind (afterRead octet lookback buf) rest) file counts =
      some (residual, after)) :
    Survives residual after ↔ counts = [] ∨
      ∀ tail, tailOf octet lookback buf = some tail → tail.length ≤ (counts.drop 2).sum := by
  cases found : tailOf octet lookback buf with
  | none =>
    rw [afterRead, found] at ran
    cases counts with
    | nil =>
      cases ran
      exact iff_of_true (by intro result last ended; cases ended) (Or.inl rfl)
    | cons count counts => cases ran
  | some tail =>
    rw [afterRead, found, Option.elim_some] at ran
    cases counts with
    | nil =>
      cases ran
      refine iff_of_true ?_ (Or.inl rfl)
      rw [survives_iff _ _ tail (rewrite_ends rest tail file quiet)]
      obtain ⟨start, _, kept⟩ := Option.map_eq_some_iff.mp found
      rw [← kept]
      exact (List.drop_suffix start buf).isInfix.trans inside
    | cons count counts =>
      rw [rewrite_crash rest tail file after (count :: counts) residual quiet (by simp) ran]
      simp

theorem trim_crash (cap : Nat) (file after : File Cell) (counts : List Nat)
    (residual : Program Cell IoError Result) (quiet : ∀ outcome, Quiet (rest outcome))
    (ends : ∃ result last, (Program.bind (trim octet cap file.content.length) rest).exec file =
      some (result, last) ∧ last.content <:+ file.content)
    (ran : runSteps (Program.bind (trim octet cap file.content.length) rest) file counts =
      some (residual, after)) :
    Survives residual after ↔ counts.length ≤ 2 ∨
      ∀ tail, tailOf octet (lookbackOf cap file.content.length)
          ((window cap file.content).take (counts.getD 1 0)) = some tail →
        tail.length ≤ (counts.drop 4).sum := by
  obtain ⟨result, last, ended, kept⟩ := ends
  match counts with
  | [] =>
    cases ran
    rw [survives_iff _ _ _ ⟨result, last, ended, rfl⟩]
    exact iff_of_true kept.isInfix (Or.inl (by simp))
  | [_] =>
    cases ran
    refine Iff.trans (survives_iff _ _ _ ⟨result, last, ended, rfl⟩) ?_
    exact iff_of_true kept.isInfix (Or.inl (by simp))
  | _ :: count :: counts =>
    have from_read := read_run (cap + lookbackOf cap file.content.length) count _ residual
      { file with cursor := readStartOf cap file.content.length } after counts ran
    rw [read_window] at from_read
    have buf_inside : (window cap file.content).take count <:+: file.content :=
      (List.take_prefix _ _).isInfix.trans (List.drop_suffix _ _).isInfix
    have crash := read_crash octet rest (lookbackOf cap file.content.length)
      ((window cap file.content).take count)
      { content := file.content, cursor := readStartOf cap file.content.length + count } after counts
      residual quiet buf_inside from_read
    rw [crash]
    cases counts with
    | nil => simp
    | cons next counts => simp

/-- Every point of a rotation of a log over its cap. -/
theorem rotation_crash (cap : Nat) (file after : File Cell) (counts : List Nat)
    (residual : Program Cell IoError Result) (quiet : ∀ outcome, Quiet (rest outcome))
    (large : cap < file.content.length)
    (ran : runSteps (Program.bind (rotateLogFile octet cap) rest) file counts = some (residual, after)) :
    Survives residual after ↔ KilledSafely octet cap file.content counts := by
  obtain ⟨count, _, rotated⟩ := rotate_exec octet cap file
  obtain ⟨result, last, ended, kept⟩ := quiet_exec (rest (.ok ())) (atEnd (file.content.drop count))
    (quiet _)
  have ends : (Program.bind (rotateLogFile octet cap) rest).exec file = some (result, last) := by
    rw [Program.exec_bind, rotated, Option.bind_some, ended]
  have inside : last.content <:+ file.content := by
    rw [kept]
    exact List.drop_suffix count file.content
  rw [rotate_staged] at ran ends
  cases counts with
  | nil =>
    cases ran
    rw [survives_iff _ _ _ ⟨result, last, ends, rfl⟩]
    exact iff_of_true inside.isInfix (Or.inl (by simp))
  | cons first counts =>
    -- the first call finds the file over its cap
    change runSteps (Program.bind (ite (file.content.length > cap) _ _) rest)
      { file with cursor := file.content.length } counts = _ at ran
    change (Program.bind (ite (file.content.length > cap) _ _) rest).exec
      { file with cursor := file.content.length } = _ at ends
    rw [if_pos large] at ran ends
    rw [trim_crash octet rest cap { file with cursor := file.content.length } after counts residual
      quiet ⟨result, last, ends, inside⟩ ran, KilledSafely]
    exact or_congr Nat.succ_le_succ_iff.symm Iff.rfl

end Crash

variable [Inhabited Cell]

theorem open_crash (cap cursor : Nat) (content : List Cell) (counts : List Nat)
    (residual : FileTask Cell IoError SessionLog) (after : File Cell) (large : cap < content.length)
    (ran : runSteps (SessionLog.openLog octet cap) { content := content, cursor := cursor } counts =
      some (residual, after)) :
    Survives residual after ↔ KilledSafely octet cap content counts := by
  refine rotation_crash octet _ cap { content := content, cursor := cursor } after counts residual ?_
    large ran
  intro outcome
  cases outcome with
  | ok => exact fun answer => by cases answer <;> trivial
  | error fault => trivial

theorem append_crash (log : SessionLog) (file : File Cell) (content data : List Cell)
    (counts : List Nat) (residual : Program Cell IoError (Except IoError Unit × SessionLog))
    (after : File Cell) (holds : log.Holds file content)
    (large : log.maxSize < (content ++ data).length)
    (ran : runSteps (afterWrite octet log data) (file.write data) counts = some (residual, after)) :
    Survives residual after ↔ KilledSafely octet log.maxSize (content ++ data) counts := by
  rw [after_write_over octet log file content data holds large, holds_write log file content data holds] at ran
  refine rotation_crash octet _ log.maxSize (atEnd (content ++ data)) after counts residual ?_ large ran
  intro outcome
  cases outcome with
  | ok => exact fun answer => by cases answer <;> trivial
  | error fault => trivial

/-- A process killed between two calls of a rotation, in `open` or in `append`, leaves
what the rotation would have kept just when it is killed before the file is emptied
or after all of that has been written again. -/
theorem crash_in_rotation_iff :
    (∀ (cap cursor : Nat) (content : List Cell) (counts : List Nat)
        (residual : FileTask Cell IoError SessionLog) (after : File Cell), cap < content.length →
      runSteps (SessionLog.openLog octet cap) { content := content, cursor := cursor } counts =
        some (residual, after) →
      (Survives residual after ↔ KilledSafely octet cap content counts)) ∧
    ∀ (log : SessionLog) (file : File Cell) (content data : List Cell) (counts : List Nat)
        (residual : Program Cell IoError (Except IoError Unit × SessionLog)) (after : File Cell),
      log.Holds file content → log.maxSize < (content ++ data).length →
      runSteps (afterWrite octet log data) (file.write data) counts = some (residual, after) →
      (Survives residual after ↔ KilledSafely octet log.maxSize (content ++ data) counts) :=
  ⟨open_crash octet, append_crash octet⟩

/-- Killed behind the read, or when all of the kept byte has been written back. -/
theorem crash_in_rotation_survived :
    (∃ residual after, runSteps (SessionLog.openLog (id : UInt8 → UInt8) 1)
        { content := [0x61, 0x62], cursor := 0 } [0, 0, 2] = some (residual, after) ∧
      after.content = [0x61, 0x62] ∧ Survives residual after) ∧
    ∃ residual after, runSteps (afterWrite (id : UInt8 → UInt8) { maxSize := 1, currentSize := 1 } [0x62])
        ((atEnd [0x61]).write [0x62]) [0, 0, 2, 0, 0, 1] = some (residual, after) ∧
      after.content = [0x62] ∧ Survives residual after := by
  obtain ⟨opening, appending⟩ := crash_in_rotation_iff (id : UInt8 → UInt8)
  constructor
  · refine ⟨_, _, rfl, rfl, ?_⟩
    exact (opening 1 0 [0x61, 0x62] [0, 0, 2] _ _ (by decide) rfl).mpr (.inl (Nat.le_refl _))
  · refine ⟨_, _, rfl, rfl, ?_⟩
    have last := appending { maxSize := 1, currentSize := 1 } (atEnd [0x61]) [0x61] [0x62]
      [0, 0, 2, 0, 0, 1] _ _ { file := rfl, size := rfl } (by decide) rfl
    refine last.mpr (.inr ?_)
    intro tail cut
    cases cut
    decide

/-- Killed right after `set_len`, a daemon that trims abc to two bytes leaves an empty log. -/
theorem crash_empties_log :
    ∃ residual after, runSteps (SessionLog.openLog (id : UInt8 → UInt8) 2)
        { content := [0x61, 0x62, 0x63], cursor := 0 } [0, 0, 3, 0] = some (residual, after) ∧
      after.content = [] ∧ ¬ Survives residual after := by
  refine ⟨_, _, rfl, rfl, ?_⟩
  intro survives
  have kept : [0x62, 0x63] <:+: ([] : List UInt8) :=
    survives (.ok { maxSize := 2, currentSize := 2 }) (atEnd [0x62, 0x63]) rfl
  exact absurd kept (by decide)

end Hytch.CrashedRotation
