import Mathlib.Algebra.GroupWithZero.Nat
import Mathlib.Tactic.ByContra
import Hytch.FilePrograms

/-!
Programs over one file under a system that does not do all it is asked: reads
that return less than there is, an operation that fails, a process killed
between two system calls. A system answers each operation by its number in the
program; a schedule of counts drives a program one system call at a time.
-/

namespace Hytch.FileFaults

open FilePrograms

universe u
variable {Cell : Type} {Fault : Type} {Result Other : Type u}

/-- The answer to each operation, numbered from the start of the program. -/
abbrev System (Cell Fault : Type) :=
  Nat → File Cell → (operation : Operation Cell) → Except Fault operation.Answer × File Cell

/-- What `write_all` has written when one of its writes fails: never all of the data. -/
def broken (data : List Cell) (moved : Nat) : List Cell := data.dropLast.take moved

section Systems

variable [Inhabited Cell]

def complete : System Cell Fault := fun _ file operation =>
  (.ok (file.perform operation).1, (file.perform operation).2)

/-- Reads return at most `limit`. -/
def shortReads (limit : Nat) : System Cell Fault := fun _ file operation =>
  match operation with
  | .read room =>
      (.ok (file.read (min limit (file.available room))).1,
        (file.read (min limit (file.available room))).2)
  | other => (.ok (file.perform other).1, (file.perform other).2)

/-- The operation of this number fails; a write that has nothing to write cannot. -/
def failsAt (number moved : Nat) (fault : Fault) : System Cell Fault := fun time file operation =>
  if time = number then
    match operation with
    | .writeAll data =>
        if data = [] then (.ok (), file) else (.error fault, file.write (broken data moved))
    | _ => (.error fault, file)
  else (.ok (file.perform operation).1, (file.perform operation).2)

end Systems

/-- The whole program under a system; `none` when it panics. -/
def execUnder (system : System Cell Fault) : Program Cell Fault Result → Nat → File Cell →
    Option (Result × File Cell)
  | .done result, _, file => some (result, file)
  | .panicked, _, _ => none
  | .call operation next, time, file =>
      execUnder system (next (system time file operation).1) (time + 1) (system time file operation).2

/-- One system call after the other, with the bytes each moves; where the schedule
ends the process is killed. -/
def runSteps [Inhabited Cell] : Program Cell Fault Result → File Cell → List Nat →
    Option (Program Cell Fault Result × File Cell)
  | program, file, [] => some (program, file)
  | program, file, count :: counts =>
      (program.step file count).bind fun next => runSteps next.1 next.2 counts

/-- At most so many operations, whatever the answers. -/
def Within : Nat → Program Cell Fault Result → Prop
  | _, .done _ => True
  | _, .panicked => True
  | 0, .call _ _ => False
  | count + 1, .call _ next => ∀ answer, Within count (next answer)

theorem within_more (program : Program Cell Fault Result) (count more : Nat) (least : count ≤ more)
    (within : Within count program) : Within more program := by
  induction program generalizing count more with
  | done result => cases more <;> trivial
  | panicked => cases more <;> trivial
  | call operation next ih =>
    cases count with
    | zero => exact False.elim within
    | succ count =>
      cases more with
      | zero => omega
      | succ more => exact fun answer => ih answer count more (by omega) (within answer)

theorem within_bind (program : Program Cell Fault Result) (rest : Result → Program Cell Fault Other)
    (count later : Nat) (within : Within count program) (after : ∀ result, Within later (rest result)) :
    Within (count + later) (program.bind rest) := by
  induction program generalizing count with
  | done result => exact within_more (rest result) later _ (Nat.le_add_left _ _) (after result)
  | panicked => cases count + later <;> trivial
  | call operation next ih =>
    cases count with
    | zero => exact False.elim within
    | succ count =>
      rw [Nat.succ_add]
      exact fun answer => ih answer count (within answer)

theorem within_request (operation : Operation Cell) :
    Within 1 (FileTask.request operation : FileTask Cell Fault operation.Answer) :=
  fun _ => trivial

theorem within_then {Value After : Type} (task : FileTask Cell Fault Value)
    (rest : Value → FileTask Cell Fault After) (count later : Nat) (within : Within count task)
    (after : ∀ value, Within later (rest value)) :
    Within (count + later) (task >>= rest : FileTask Cell Fault After) := by
  refine within_bind task _ count later within ?_
  intro outcome
  cases outcome with
  | ok value => exact after value
  | error fault => cases later <;> trivial

section Execution

variable [Inhabited Cell] (system : System Cell Fault)

theorem exec_under_complete (program : Program Cell Fault Result) (time : Nat) (file : File Cell) :
    execUnder complete program time file = program.exec file := by
  induction program generalizing time file with
  | done result => rfl
  | panicked => rfl
  | call operation next ih => exact ih _ _ _

omit [Inhabited Cell] in
theorem exec_under_congr (other : System Cell Fault) (program : Program Cell Fault Result)
    (count time : Nat) (file : File Cell) (within : Within count program)
    (agrees : ∀ later, time ≤ later → later < time + count → system later = other later) :
    execUnder system program time file = execUnder other program time file := by
  induction program generalizing count time file with
  | done result => rfl
  | panicked => rfl
  | call operation next ih =>
    cases count with
    | zero => exact False.elim within
    | succ count =>
      rw [execUnder, execUnder, agrees time (Nat.le_refl _) (by omega)]
      exact ih _ count (time + 1) _ (within _) fun later after before => agrees later (by omega) (by omega)

theorem fails_at_other (number moved time : Nat) (fault : Fault) (other : time ≠ number) :
    (failsAt number moved fault : System Cell Fault) time = complete time := by
  funext file operation
  exact if_neg other

/-! One operation, answered in full or failed. -/

variable (operation : Operation Cell)
  (next : Except Fault operation.Answer → Program Cell Fault Result) (time : Nat)
  (file after : File Cell)

theorem exec_under_call (full : system time = complete time) :
    execUnder system (.call operation next) time file =
      execUnder system (next (.ok (file.perform operation).1)) (time + 1)
        (file.perform operation).2 := by
  rw [execUnder, full]
  rfl

omit [Inhabited Cell] in
theorem exec_under_failed (fault : Fault)
    (failed : system time file operation = (.error fault, after)) :
    execUnder system (.call operation next) time file =
      execUnder system (next (.error fault)) (time + 1) after := by
  rw [execUnder, failed]

end Execution

/-- The program comes to its end and leaves the content of the file alone. -/
def Quiet : Program Cell Fault Result → Prop
  | .done _ => True
  | .panicked => False
  | .call (.setLen _) _ => False
  | .call (.writeAll _) _ => False
  | .call (.seekStart _) next => ∀ answer, Quiet (next answer)
  | .call .seekEnd next => ∀ answer, Quiet (next answer)
  | .call (.read _) next => ∀ answer, Quiet (next answer)
  | .call .metadataLen next => ∀ answer, Quiet (next answer)

section Quietness

variable [Inhabited Cell]

theorem quiet_exec (program : Program Cell Fault Result) (file : File Cell) (quiet : Quiet program) :
    ∃ result after, program.exec file = some (result, after) ∧ after.content = file.content := by
  induction program generalizing file with
  | done value => exact ⟨value, file, rfl, rfl⟩
  | panicked => exact False.elim quiet
  | call operation next ih =>
    cases operation with
    | setLen length => exact False.elim quiet
    | writeAll data => exact False.elim quiet
    | seekStart position => exact ih (.ok position) { file with cursor := position } (quiet _)
    | seekEnd =>
      exact ih (.ok file.content.length) { file with cursor := file.content.length } (quiet _)
    | read room =>
      exact ih (.ok (file.read (file.available room)).1) (file.read (file.available room)).2 (quiet _)
    | metadataLen => exact ih (.ok file.content.length) file (quiet _)

theorem quiet_step (program next : Program Cell Fault Result) (file after : File Cell) (count : Nat)
    (quiet : Quiet program) (taken : program.step file count = some (next, after)) :
    Quiet next ∧ after.content = file.content := by
  cases program with
  | done result => cases taken
  | panicked => cases taken
  | call operation rest =>
    cases operation with
    | setLen length => exact False.elim quiet
    | writeAll data => exact False.elim quiet
    | seekStart position =>
      cases taken
      exact ⟨quiet _, rfl⟩
    | seekEnd =>
      cases taken
      exact ⟨quiet _, rfl⟩
    | read room =>
      simp only [Program.step] at taken
      split at taken
      · cases taken
        exact ⟨quiet _, rfl⟩
      · cases taken
    | metadataLen =>
      cases taken
      exact ⟨quiet _, rfl⟩

theorem quiet_run (program next : Program Cell Fault Result) (file after : File Cell)
    (counts : List Nat) (quiet : Quiet program)
    (ran : runSteps program file counts = some (next, after)) :
    Quiet next ∧ after.content = file.content := by
  induction counts generalizing program file with
  | nil =>
    cases ran
    exact ⟨quiet, rfl⟩
  | cons count counts ih =>
    obtain ⟨⟨middle, between⟩, taken, later⟩ := Option.bind_eq_some_iff.mp ran
    obtain ⟨still, same⟩ := quiet_step program middle file between count quiet taken
    obtain ⟨quiet_end, unchanged⟩ := ih middle between still later
    exact ⟨quiet_end, unchanged.trans same⟩

end Quietness

theorem bind_assoc {Last : Type u} (program : Program Cell Fault Result)
    (rest : Result → Program Cell Fault Other) (final : Other → Program Cell Fault Last) :
    (program.bind rest).bind final = program.bind fun result => (rest result).bind final := by
  induction program with
  | done result => rfl
  | panicked => rfl
  | call operation next ih => exact congrArg (Program.call operation) (funext ih)

theorem read_run [Inhabited Cell] (room count : Nat)
    (next : Except Fault (List Cell) → Program Cell Fault Result)
    (residual : Program Cell Fault Result) (file after : File Cell) (counts : List Nat)
    (ran : runSteps (.call (.read room) next) file (count :: counts) = some (residual, after)) :
    runSteps (next (.ok (file.read count).1)) (file.read count).2 counts = some (residual, after) := by
  obtain ⟨⟨middle, between⟩, taken, later⟩ := Option.bind_eq_some_iff.mp ran
  simp only [Program.step] at taken
  split at taken
  · cases taken
    exact later
  · cases taken

/-- A write in pieces: it is still going on, or it has come to its end some calls ago. -/
theorem write_run [Inhabited Cell] (data : List Cell)
    (next : Except Fault Unit → Program Cell Fault Result) (residual : Program Cell Fault Result)
    (file after : File Cell) (counts : List Nat)
    (ran : runSteps (.call (.writeAll data) next) file counts = some (residual, after)) :
    (counts.sum ≤ data.length ∧ residual = .call (.writeAll (data.drop counts.sum)) next ∧
      after = file.write (data.take counts.sum)) ∨
    ∃ earlier later, counts = earlier ++ later ∧ data.length ≤ earlier.sum ∧
      runSteps (next (.ok ())) (file.write data) later = some (residual, after) := by
  induction counts generalizing data file with
  | nil =>
    cases ran
    exact Or.inl ⟨Nat.zero_le _, by simp, by simp⟩
  | cons count counts ih =>
    obtain ⟨⟨middle, between⟩, taken, later⟩ := Option.bind_eq_some_iff.mp ran
    simp only [Program.step] at taken
    split at taken
    · rename_i nothing
      cases taken
      refine Or.inr ⟨[count], counts, rfl, by simp [nothing], ?_⟩
      rw [nothing, File.write_nil]
      exact later
    · split at taken
      · rename_i moved
        cases taken
        rcases ih (data.drop count) (file.write (data.take count)) later with
          ⟨short, rest, written⟩ | ⟨earlier, tail, split, all, onward⟩
        · refine Or.inl ⟨?_, ?_, ?_⟩
          · rw [List.length_drop] at short
            rw [List.sum_cons]
            omega
          · rw [rest, List.drop_drop, List.sum_cons]
          · rw [written, File.write_write, ← List.take_add, List.sum_cons]
        · refine Or.inr ⟨count :: earlier, tail, by rw [split, List.cons_append], ?_, ?_⟩
          · rw [List.length_drop] at all
            rw [List.sum_cons]
            omega
          · rwa [File.write_write, List.take_append_drop] at onward
      · cases taken

end Hytch.FileFaults
