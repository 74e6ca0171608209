import Mathlib.Data.List.TakeDrop

/-!
Programs over one open file. A program is the sequence of file operations it
issues, each followed by what it does with the answer. `exec` runs it alone
with every operation complete; `step` performs one system call, where a read
may return less than was asked and a long write goes out piece by piece, and
`fail` ends a write half way. `Keeps` is the proof rule for the second reading:
a ghost value that explains the file's content in every state between two
system calls.
-/

namespace Hytch.FilePrograms

universe u v
variable {Cell : Type} {Fault : Type} {Result Other : Type u}

structure File (Cell : Type) where
  content : List Cell
  cursor : Nat
  deriving DecidableEq

inductive Operation (Cell : Type) where
  | seekStart (position : Nat)
  | seekEnd
  | read (room : Nat)
  | setLen (length : Nat)
  | writeAll (data : List Cell)
  | metadataLen

abbrev Operation.Answer : Operation Cell → Type
  | .seekStart _ => Nat
  | .seekEnd => Nat
  | .read _ => List Cell
  | .setLen _ => Unit
  | .writeAll _ => Unit
  | .metadataLen => Nat

inductive Program (Cell Fault : Type) (Result : Type u) where
  | done (result : Result)
  | panicked
  | call (operation : Operation Cell)
      (next : Except Fault operation.Answer → Program Cell Fault Result)

namespace File

variable [Inhabited Cell]

/-- The content up to the cursor; a cursor past the end leaves a hole of zeros. -/
def before (file : File Cell) : List Cell :=
  file.content.take file.cursor ++
    List.replicate (file.cursor - file.content.length) default

/-- Writing nothing has no effect, not even past the end. -/
def write (file : File Cell) (data : List Cell) : File Cell :=
  if data = [] then file
  else { content := file.before ++ data ++ file.content.drop (file.cursor + data.length)
         cursor := file.cursor + data.length }

def setLen (file : File Cell) (length : Nat) : File Cell :=
  { file with content := file.content.take length ++
                List.replicate (length - file.content.length) default }

def available (file : File Cell) (room : Nat) : Nat :=
  min room (file.content.length - file.cursor)

def read (file : File Cell) (count : Nat) : List Cell × File Cell :=
  ((file.content.drop file.cursor).take count, { file with cursor := file.cursor + count })

/-- An operation that completes in one go. -/
def perform (file : File Cell) : (operation : Operation Cell) → operation.Answer × File Cell
  | .seekStart position => (position, { file with cursor := position })
  | .seekEnd => (file.content.length, { file with cursor := file.content.length })
  | .read room => file.read (file.available room)
  | .setLen length => ((), file.setLen length)
  | .writeAll data => ((), file.write data)
  | .metadataLen => (file.content.length, file)

theorem before_length (file : File Cell) : file.before.length = file.cursor := by
  simp only [before, List.length_append, List.length_take, List.length_replicate]
  omega

@[simp] theorem write_nil (file : File Cell) : file.write [] = file := by
  simp [write]

theorem write_at_end (content data : List Cell) :
    ({ content := content, cursor := content.length } : File Cell).write data =
      { content := content ++ data, cursor := (content ++ data).length } := by
  by_cases nothing : data = []
  · simp [nothing]
  · simp [write, nothing, before]

theorem write_write (file : File Cell) (first second : List Cell) :
    (file.write first).write second = file.write (first ++ second) := by
  by_cases none_first : first = []
  · simp [none_first]
  · by_cases none_second : second = []
    · simp [none_second]
    · have reached : (file.before ++ first).length = file.cursor + first.length := by
        rw [List.length_append, before_length]
      have written : file.write first =
          { content := file.before ++ first ++ file.content.drop (file.cursor + first.length)
            cursor := file.cursor + first.length } := by
        simp [write, none_first]
      have inside : (file.write first).before = file.before ++ first := by
        rw [written, before, ← reached, List.take_left]
        simp
      have behind : (file.write first).content.drop
          (file.cursor + first.length + second.length) =
          file.content.drop (file.cursor + (first.length + second.length)) := by
        rw [written, ← reached, List.drop_length_add_append, reached, List.drop_drop,
          Nat.add_assoc]
      have cursor : (file.write first).cursor = file.cursor + first.length := by rw [written]
      have both : first ++ second ≠ [] := by simp [none_first]
      rw [write, if_neg none_second, inside, cursor, behind]
      simp [write, both, Nat.add_assoc]

theorem setLen_zero (file : File Cell) : file.setLen 0 = { content := [], cursor := file.cursor } := by
  simp [setLen]

end File

namespace Program

def bind : Program Cell Fault Result → (Result → Program Cell Fault Other) →
    Program Cell Fault Other
  | done result, rest => rest result
  | panicked, _ => panicked
  | call operation next, rest => call operation fun answer => (next answer).bind rest

variable [Inhabited Cell]

/-- The whole program alone on its file; `none` when it panics. -/
def exec : Program Cell Fault Result → File Cell → Option (Result × File Cell)
  | done result, file => some (result, file)
  | panicked, _ => none
  | call operation next, file =>
      let (answer, after) := file.perform operation
      (next (.ok answer)).exec after

theorem exec_bind (program : Program Cell Fault Result)
    (rest : Result → Program Cell Fault Other) (file : File Cell) :
    (program.bind rest).exec file =
      (program.exec file).bind fun outcome => (rest outcome.1).exec outcome.2 := by
  induction program generalizing file with
  | done result => rfl
  | panicked => rfl
  | call operation next ih => exact ih _ _

/-- One system call of a program, `count` being the bytes it moves. -/
def step : Program Cell Fault Result → File Cell → Nat →
    Option (Program Cell Fault Result × File Cell)
  | done _, _, _ => none
  | panicked, _, _ => none
  | call (.read room) next, file, count =>
      -- nothing is returned only where nothing is left
      if count ≤ file.available room ∧ (0 < count ∨ file.available room = 0) then
        let (bytes, after) := file.read count
        some (next (.ok bytes), after)
      else none
  | call (.writeAll data) next, file, count =>
      if data = [] then some (next (.ok ()), file)
      -- the loop of `write_all`: what is left is written by the next calls
      else if 0 < count ∧ count ≤ data.length then
        some (call (.writeAll (data.drop count)) next, file.write (data.take count))
      else none
  | call operation next, file, _ =>
      let (answer, after) := file.perform operation
      some (next (.ok answer), after)

/-- A write that cannot go on, as on a full disk; what it has moved stays. The
other operations on an open file succeed. -/
def fail : Program Cell Fault Result → Fault → Option (Program Cell Fault Result)
  | call (.writeAll data) next, fault => if data = [] then none else some (next (.error fault))
  | _, _ => none

end Program

/-- A fallible program: `?` leaves it with the fault. -/
abbrev FileTask (Cell Fault : Type) (Value : Type) := Program Cell Fault (Except Fault Value)

namespace FileTask

variable {Value After : Type}

def pure (value : Value) : FileTask Cell Fault Value := .done (.ok value)

def andThen (task : FileTask Cell Fault Value) (rest : Value → FileTask Cell Fault After) :
    FileTask Cell Fault After :=
  Program.bind task fun
    | .ok value => rest value
    | .error fault => .done (.error fault)

instance : Monad (FileTask Cell Fault) where
  pure := pure
  bind := andThen

def request (operation : Operation Cell) : FileTask Cell Fault operation.Answer :=
  .call operation .done

def seekStart (position : Nat) : FileTask Cell Fault Nat := request (.seekStart position)
def seekEnd : FileTask Cell Fault Nat := request .seekEnd
def read (room : Nat) : FileTask Cell Fault (List Cell) := request (.read room)
def setLen (length : Nat) : FileTask Cell Fault Unit := request (.setLen length)
def writeAll (data : List Cell) : FileTask Cell Fault Unit := request (.writeAll data)
def metadataLen : FileTask Cell Fault Nat := request .metadataLen

variable [Inhabited Cell]

/-! What each operation does to a program that goes on with its answer. -/

variable (rest : Value → FileTask Cell Fault After) (file : File Cell)

@[simp] theorem exec_pure (value : Value) :
    (Pure.pure value : FileTask Cell Fault Value).exec file = some (.ok value, file) := rfl

@[simp] theorem exec_seekStart (position : Nat) (rest : Nat → FileTask Cell Fault After) :
    (seekStart position >>= rest).exec file =
      (rest position).exec { file with cursor := position } := rfl

@[simp] theorem exec_seekEnd (rest : Nat → FileTask Cell Fault After) :
    (seekEnd >>= rest).exec file =
      (rest file.content.length).exec { file with cursor := file.content.length } := rfl

@[simp] theorem exec_read (room : Nat) (rest : List Cell → FileTask Cell Fault After) :
    (read room >>= rest).exec file =
      (rest (file.read (file.available room)).1).exec (file.read (file.available room)).2 := rfl

@[simp] theorem exec_setLen (length : Nat) (rest : Unit → FileTask Cell Fault After) :
    (setLen length >>= rest).exec file = (rest ()).exec (file.setLen length) := rfl

@[simp] theorem exec_writeAll (data : List Cell) (rest : Unit → FileTask Cell Fault After) :
    (writeAll data >>= rest).exec file = (rest ()).exec (file.write data) := rfl

theorem exec_task (task : FileTask Cell Fault Value) (value : Value) (after : File Cell)
    (ran : task.exec file = some (.ok value, after)) :
    (task >>= rest).exec file = (rest value).exec after := by
  have bound := Program.exec_bind task (fun
    | .ok value => rest value
    | .error fault => .done (.error fault)) file
  rw [ran] at bound
  exact bound

end FileTask

namespace File

variable [Inhabited Cell]

/-- The answers an operation may give; `returns` says which reads may be short. -/
def Answers (returns : Nat → Nat → Prop) (file : File Cell) :
    (operation : Operation Cell) → operation.Answer → File Cell → Prop
  | .read room, bytes, after => ∃ count, count ≤ file.available room ∧
      returns (file.available room) count ∧ (bytes, after) = file.read count
  | operation, answer, after => (answer, after) = file.perform operation

/-- Files that can be seen while an operation is still going on. -/
def Partway (file : File Cell) : Operation Cell → File Cell → Prop
  | .writeAll data, middle => ∃ count, middle = file.write (data.take count)
  | _, _ => False

end File

/-- How a ghost value explains the content of a file, and how it may change. -/
structure Discipline (Cell : Type) (Ghost : Type v) where
  explains : Ghost → List Cell → Prop
  advances : Ghost → Ghost → Prop
  stays : ∀ ghost, advances ghost ghost
  onward : ∀ ghost later last, advances ghost later → advances later last → advances ghost last
  returns : Nat → Nat → Prop
  /-- Writes may fail. -/
  fails : Prop

section Interleaved

variable {Ghost : Type v} [Inhabited Cell] (discipline : Discipline Cell Ghost)

/-- In every state the program stops in, the ghost value explains the file; at
the end the result holds as well. After a failed write the ghost value may move
once more, to explain what the write has left. -/
def Keeps (finished : Ghost → File Cell → Result → Prop) :
    Program Cell Fault Result → File Cell → Ghost → Prop
  | .done result, file, ghost => discipline.explains ghost file.content ∧ finished ghost file result
  | .panicked, file, ghost => discipline.explains ghost file.content
  | .call operation next, file, ghost =>
      discipline.explains ghost file.content ∧
        ∃ later, discipline.advances ghost later ∧
          (∀ middle, file.Partway operation middle → discipline.explains later middle.content) ∧
          (∀ middle fault, file.Partway operation middle → discipline.fails →
            ∃ last, discipline.advances later last ∧
              Keeps finished (next (.error fault)) middle last) ∧
          ∀ answer after, file.Answers discipline.returns operation answer after →
            Keeps finished (next (.ok answer)) after later

variable (finished : Ghost → File Cell → Result → Prop)

theorem keeps_explains (program : Program Cell Fault Result) (file : File Cell) (ghost : Ghost)
    (kept : Keeps discipline finished program file ghost) :
    discipline.explains ghost file.content := by
  cases program with
  | done result => exact kept.1
  | panicked => exact kept
  | call operation next => exact kept.1

/-- A read of the program that is due returns an amount the discipline allows. -/
def ReadsAs (returns : Nat → Nat → Prop) (program : Program Cell Fault Result) (file : File Cell)
    (count : Nat) : Prop :=
  match program with
  | .call (.read room) _ => returns (file.available room) count
  | _ => True

/-- Done with complete reads, the steps of a program add up to its execution. -/
theorem exec_step (program next : Program Cell Fault Result) (file after : File Cell) (count : Nat)
    (complete : ReadsAs (fun available count => count = available) program file count)
    (taken : program.step file count = some (next, after)) : next.exec after = program.exec file := by
  cases program with
  | done result => cases taken
  | panicked => cases taken
  | call operation rest =>
    cases operation with
    | read room =>
      simp only [Program.step] at taken
      split at taken
      · cases taken
        have all : count = file.available room := complete
        rw [all]
        rfl
      · cases taken
    | writeAll data =>
      simp only [Program.step] at taken
      split at taken
      · rename_i nothing
        cases taken
        rw [Program.exec, nothing]
        simp [File.perform]
      · split at taken
        · cases taken
          simp [Program.exec, File.perform, File.write_write]
        · cases taken
    | seekStart position =>
      cases taken
      rfl
    | seekEnd =>
      cases taken
      rfl
    | setLen length =>
      cases taken
      rfl
    | metadataLen =>
      cases taken
      rfl

theorem keeps_step (program next : Program Cell Fault Result) (file after : File Cell)
    (count : Nat) (ghost : Ghost) (kept : Keeps discipline finished program file ghost)
    (allowed : ReadsAs discipline.returns program file count)
    (taken : program.step file count = some (next, after)) :
    ∃ later, discipline.advances ghost later ∧ Keeps discipline finished next after later := by
  cases program with
  | done result => cases taken
  | panicked => cases taken
  | call operation rest =>
    obtain ⟨_, later, advance, during, broken, goes_on⟩ := kept
    cases operation with
    | read room =>
      simp only [Program.step] at taken
      split at taken
      · rename_i moved
        cases taken
        exact ⟨later, advance, goes_on _ _ ⟨count, moved.1, allowed, rfl⟩⟩
      · cases taken
    | writeAll data =>
      simp only [Program.step] at taken
      split at taken
      · rename_i nothing
        cases taken
        refine ⟨later, advance, goes_on () file ?_⟩
        simp [File.Answers, File.perform, nothing]
      · split at taken
        · cases taken
          -- the ghost value moves at the first piece and stays for the others
          refine ⟨later, advance, during _ ⟨count, rfl⟩, later, discipline.stays later, ?_, ?_, ?_⟩
          · rintro middle ⟨more, rfl⟩
            apply during
            exact ⟨count + more, by rw [File.write_write, ← List.take_add]⟩
          · rintro middle fault ⟨more, rfl⟩
            apply broken
            exact ⟨count + more, by rw [File.write_write, ← List.take_add]⟩
          · intro answer finally_at answered
            apply goes_on answer finally_at
            simpa [File.Answers, File.perform, File.write_write] using answered
        · cases taken
    | seekStart position =>
      cases taken
      exact ⟨later, advance, goes_on _ _ rfl⟩
    | seekEnd =>
      cases taken
      exact ⟨later, advance, goes_on _ _ rfl⟩
    | setLen length =>
      cases taken
      exact ⟨later, advance, goes_on _ _ rfl⟩
    | metadataLen =>
      cases taken
      exact ⟨later, advance, goes_on _ _ rfl⟩

theorem keeps_fail (program next : Program Cell Fault Result) (file : File Cell) (fault : Fault)
    (ghost : Ghost) (kept : Keeps discipline finished program file ghost)
    (allowed : discipline.fails) (taken : program.fail fault = some next) :
    ∃ later, discipline.advances ghost later ∧ Keeps discipline finished next file later := by
  cases program with
  | done result => cases taken
  | panicked => cases taken
  | call operation rest =>
    obtain ⟨_, later, advance, _, broken, _⟩ := kept
    cases operation with
    | writeAll data =>
      simp only [Program.fail] at taken
      split at taken
      · cases taken
      · cases taken
        -- nothing of what is left was written
        have here : file.Partway (.writeAll data) file :=
          ⟨0, by rw [List.take_zero, File.write_nil]⟩
        obtain ⟨last, further, goes_on⟩ := broken file fault here allowed
        exact ⟨last, discipline.onward ghost later last advance further, goes_on⟩
    | seekStart position => cases taken
    | seekEnd => cases taken
    | read room => cases taken
    | setLen length => cases taken
    | metadataLen => cases taken

theorem keeps_bind (between : Ghost → File Cell → Other → Prop)
    (program : Program Cell Fault Other) (rest : Other → Program Cell Fault Result)
    (file : File Cell) (ghost : Ghost) (kept : Keeps discipline between program file ghost)
    (goes_on : ∀ result file ghost, discipline.explains ghost file.content →
      between ghost file result → Keeps discipline finished (rest result) file ghost) :
    Keeps discipline finished (program.bind rest) file ghost := by
  induction program generalizing file ghost with
  | done result => exact goes_on result file ghost kept.1 kept.2
  | panicked => exact kept
  | call operation next ih =>
    obtain ⟨explained, later, advance, during, broken, answered⟩ := kept
    refine ⟨explained, later, advance, during, ?_, ?_⟩
    · intro middle fault partway allowed
      obtain ⟨last, further, after⟩ := broken middle fault partway allowed
      exact ⟨last, further, ih (.error fault) middle last after⟩
    · intro answer after given
      exact ih (.ok answer) after later (answered answer after given)

/-! One rule for each operation of a task. -/

variable {Value After : Type} (finished : Ghost → File Cell → Except Fault After → Prop)
  (file : File Cell) (ghost : Ghost)

theorem keeps_pure (value : After) (explained : discipline.explains ghost file.content)
    (holds : finished ghost file (.ok value)) :
    Keeps discipline finished (Pure.pure value : FileTask Cell Fault After) file ghost :=
  ⟨explained, holds⟩

theorem keeps_seekStart (position : Nat) (rest : Nat → FileTask Cell Fault After)
    (explained : discipline.explains ghost file.content)
    (goes_on : Keeps discipline finished (rest position) { file with cursor := position } ghost) :
    Keeps discipline finished (FileTask.seekStart position >>= rest : FileTask Cell Fault After) file ghost := by
  refine ⟨explained, ghost, discipline.stays ghost, fun middle never => False.elim never,
    fun middle fault never => False.elim never, ?_⟩
  rintro answer after ⟨⟩
  exact goes_on

theorem keeps_seekEnd (rest : Nat → FileTask Cell Fault After)
    (explained : discipline.explains ghost file.content)
    (goes_on : Keeps discipline finished (rest file.content.length)
      { file with cursor := file.content.length } ghost) :
    Keeps discipline finished (FileTask.seekEnd >>= rest : FileTask Cell Fault After) file ghost := by
  refine ⟨explained, ghost, discipline.stays ghost, fun middle never => False.elim never,
    fun middle fault never => False.elim never, ?_⟩
  rintro answer after ⟨⟩
  exact goes_on

theorem keeps_read (room : Nat) (rest : List Cell → FileTask Cell Fault After)
    (explained : discipline.explains ghost file.content)
    (goes_on : ∀ count, count ≤ file.available room →
      discipline.returns (file.available room) count →
      Keeps discipline finished (rest (file.read count).1) (file.read count).2 ghost) :
    Keeps discipline finished (FileTask.read room >>= rest : FileTask Cell Fault After) file ghost := by
  refine ⟨explained, ghost, discipline.stays ghost, fun middle never => False.elim never,
    fun middle fault never => False.elim never, ?_⟩
  rintro bytes after ⟨count, bound, returned, same⟩
  cases same
  exact goes_on count bound returned

theorem keeps_setLen (length : Nat) (later : Ghost) (rest : Unit → FileTask Cell Fault After)
    (explained : discipline.explains ghost file.content) (advance : discipline.advances ghost later)
    (goes_on : Keeps discipline finished (rest ()) (file.setLen length) later) :
    Keeps discipline finished (FileTask.setLen length >>= rest : FileTask Cell Fault After) file ghost := by
  refine ⟨explained, later, advance, fun middle never => False.elim never,
    fun middle fault never => False.elim never, ?_⟩
  rintro answer after ⟨⟩
  exact goes_on

theorem keeps_writeAll (data : List Cell) (rest : Unit → FileTask Cell Fault After)
    (during : ∀ count, discipline.explains ghost (file.write (data.take count)).content)
    (broken : ∀ count fault, discipline.fails → ∃ last, discipline.advances ghost last ∧
      discipline.explains last (file.write (data.take count)).content ∧
      finished last (file.write (data.take count)) (.error fault))
    (goes_on : Keeps discipline finished (rest ()) (file.write data) ghost) :
    Keeps discipline finished (FileTask.writeAll data >>= rest : FileTask Cell Fault After) file ghost := by
  have explained := during 0
  rw [List.take_zero, File.write_nil] at explained
  refine ⟨explained, ghost, discipline.stays ghost, ?_, ?_, ?_⟩
  · rintro middle ⟨count, rfl⟩
    exact during count
  · rintro middle fault ⟨count, rfl⟩ allowed
    exact broken count fault allowed
  · rintro answer after ⟨⟩
    exact goes_on

end Interleaved

end Hytch.FilePrograms
