import Hytch.SessionLog

/-!
`spawn_log_writer`: the thread that owns the session log. It takes chunks from
an unbounded channel and runs `append` on the file one system call at a time,
so others may look at the file in between. A write may fail half way; the thread
drops the error and goes on with the next chunk. `Explains` ties the file, the
call in progress and the channel to the content the log is heading for.
-/

namespace Hytch

open FilePrograms

variable {Cell : Type}

inductive WriterThread (Cell : Type) where
  /-- Logging is disabled. -/
  | off
  | waiting (log : SessionLog)
  | appending (call : Program Cell IoError (Except IoError Unit × SessionLog))

structure LogWriter (Cell : Type) where
  file : File Cell
  thread : WriterThread Cell
  queue : List (List Cell)

inductive WriterEvent where
  | receive
  /-- One system call moving `count` bytes. -/
  | systemCall (count : Nat)
  | writeFails (fault : IoError)
  | returned

namespace LogWriter

def send (writer : LogWriter Cell) (chunk : List Cell) : LogWriter Cell :=
  { writer with queue := writer.queue ++ [chunk] }

variable [Inhabited Cell] (octet : Cell → UInt8)

/-- `path` holds `content` before the daemon starts; without a cap the file is left alone. -/
def start (content : List Cell) : Option Nat → Option (LogWriter Cell)
  | none => some { file := { content := content, cursor := 0 }, thread := .off, queue := [] }
  | some maxSize =>
      match (SessionLog.openLog octet maxSize).exec { content := content, cursor := 0 } with
      | some (.ok log, file) => some { file := file, thread := .waiting log, queue := [] }
      | _ => none

/-- `while let Some(chunk) = rx.blocking_recv() { let _ = log.append(&chunk); }` -/
def step (writer : LogWriter Cell) : WriterEvent → Option (LogWriter Cell)
  | .receive =>
      match writer.thread, writer.queue with
      | .waiting log, chunk :: rest =>
          some { writer with thread := .appending (log.append octet chunk), queue := rest }
      | _, _ => none
  | .systemCall count =>
      match writer.thread with
      | .appending call =>
          (call.step writer.file count).map fun (call, file) =>
            { writer with thread := .appending call, file := file }
      | _ => none
  | .writeFails fault =>
      match writer.thread with
      | .appending call => (call.fail fault).map fun call => { writer with thread := .appending call }
      | _ => none
  | .returned =>
      match writer.thread with
      -- `let _ =`: an error is dropped, and the log is used again as it is
      | .appending (.done (_, log)) => some { writer with thread := .waiting log }
      | _ => none

end LogWriter

/-- The file shows an initial part of where the log is heading. A trim only drops
bytes; when its read was complete it drops them from the front. A failed write
drops what it had not written. -/
def logDiscipline (Cell : Type) (complete : Prop) : Discipline Cell (List Cell) where
  explains goal content := content <+: goal
  advances goal later := later.Sublist goal ∧ (complete → later <:+ goal)
  stays goal := ⟨List.Sublist.refl goal, fun _ => List.suffix_refl goal⟩
  onward _ _ _ first second :=
    ⟨second.1.trans first.1, fun all => (second.2 all).trans (first.2 all)⟩
  returns available count := complete → count = available
  fails := ¬ complete

theorem broken_write (complete : Prop) (goal content : List Cell) (less : content.Sublist goal) (fails : ¬ complete) :
    (logDiscipline Cell complete).advances goal content :=
  ⟨less, fun all => absurd all fails⟩

section Rotation

variable [Inhabited Cell] (octet : Cell → UInt8) (complete : Prop)

theorem written_at_end (content data : List Cell) :
    (atEnd content).write data = atEnd (content ++ data) := File.write_at_end content data

theorem rewrite_keeps (file : File Cell) (goal tail : List Cell) (shown : file.content <+: goal)
    (inside : tail.Sublist goal) (at_front : complete → tail <:+ goal) :
    Keeps (logDiscipline Cell complete) (fun goal file _ => file = atEnd goal)
      (do FileTask.setLen 0
          let _ ← FileTask.seekStart 0
          FileTask.writeAll tail
          let _ ← FileTask.seekEnd
          pure () : FileTask Cell IoError Unit) file goal := by
  have nothing : ([] : List Cell) <+: tail := List.nil_prefix
  have whole : tail <+: tail := List.prefix_refl tail
  apply keeps_setLen (logDiscipline Cell complete) _ _ _ _ tail _ shown ⟨inside, at_front⟩
  rw [File.setLen_zero]
  apply keeps_seekStart _ _ _ _ _ _ nothing
  have written (data : List Cell) : ({ content := [], cursor := 0 } : File Cell).write data =
      atEnd data := written_at_end [] data
  apply keeps_writeAll
  · intro count
    rw [written]
    exact List.take_prefix count tail
  · intro count fault fails
    refine ⟨tail.take count, broken_write complete tail _ (List.take_sublist count tail) fails, ?_⟩
    rw [written]
    exact ⟨List.prefix_refl _, rfl⟩
  · rw [written]
    apply keeps_seekEnd _ _ _ _ _ whole
    exact keeps_pure _ _ _ _ _ whole rfl

theorem rotate_keeps (maxSize : Nat) (content : List Cell) :
    Keeps (logDiscipline Cell complete) (fun goal file _ => file = atEnd goal)
      (rotateLogFile octet maxSize) (atEnd content) content := by
  have same : content <+: content := List.prefix_refl content
  apply keeps_seekEnd _ _ _ _ _ same
  split
  · apply keeps_seekStart _ _ _ _ _ _ same
    apply keeps_read _ _ _ _ _ _ same
    intro count bound returned
    split
    · -- the buffer was too short to look at: the thread panics
      exact same
    · apply rewrite_keeps complete _ _ _ same
      · exact (List.drop_sublist _ _).trans ((List.take_sublist _ _).trans (List.drop_sublist _ _))
      · intro all
        have everything := returned all
        simp only [File.read, File.available, atEnd] at everything ⊢
        rw [List.take_of_length_le (by rw [List.length_drop]; omega), List.drop_drop]
        exact List.drop_suffix _ _
  · apply keeps_seekEnd _ _ _ _ _ same
    exact keeps_pure _ _ _ _ _ same rfl

theorem write_all_keeps (content data : List Cell) :
    Keeps (logDiscipline Cell complete) (fun goal file _ => file = atEnd goal)
      (FileTask.writeAll data : FileTask Cell IoError Unit) (atEnd content) (content ++ data) := by
  have partly (count : Nat) : content ++ data.take count <+: content ++ data :=
    (List.prefix_append_right_inj content).mpr (List.take_prefix count data)
  refine ⟨List.prefix_append content data, _, (logDiscipline Cell complete).stays _, ?_, ?_, ?_⟩
  · rintro middle ⟨count, rfl⟩
    rw [written_at_end]
    exact partly count
  · rintro middle fault ⟨count, rfl⟩ fails
    refine ⟨content ++ data.take count, broken_write complete _ _ (partly count).sublist fails, ?_⟩
    rw [written_at_end]
    exact ⟨List.prefix_refl _, rfl⟩
  · rintro answer after answered
    have written : after = atEnd (content ++ data) := by
      rw [← written_at_end]
      exact congrArg Prod.snd answered
    rw [written]
    exact ⟨List.prefix_refl _, rfl⟩

theorem measured_rotation_keeps (maxSize : Nat) (content : List Cell) :
    Keeps (logDiscipline Cell complete) (fun goal file _ => file = atEnd goal)
      (do rotateLogFile octet maxSize
          FileTask.metadataLen : FileTask Cell IoError Nat) (atEnd content) content := by
  apply keeps_bind _ _ _ _ _ _ _ (rotate_keeps octet complete maxSize content)
  rintro (fault | _) file goal shown rfl
  · exact ⟨shown, rfl⟩
  · refine ⟨shown, goal, (logDiscipline Cell complete).stays goal,
      fun middle never => False.elim never, fun middle fault never => False.elim never, ?_⟩
    rintro answer after ⟨⟩
    exact ⟨shown, rfl⟩

/-- An append heads for the log with the data behind it. Whether its size is
right only decides when the log is trimmed. -/
theorem append_keeps (log : SessionLog) (content data : List Cell) :
    Keeps (logDiscipline Cell complete) (fun goal file _ => file = atEnd goal)
      (log.append octet data) (atEnd content) (content ++ data) := by
  apply keeps_bind _ _ _ _ _ _ _ (write_all_keeps complete content data)
  rintro (fault | _) file goal shown rfl
  · exact ⟨shown, rfl⟩
  · by_cases exceeds : log.currentSize + data.length > log.maxSize
    · -- the rotation starts from the goal the write has reached
      simp only [if_pos exceeds]
      apply keeps_bind _ _ _ _ _ _ _ (measured_rotation_keeps octet complete log.maxSize _)
      rintro (fault | currentSize) file goal shown rfl
      · exact ⟨shown, rfl⟩
      · exact ⟨shown, rfl⟩
    · simp only [if_neg exceeds]
      exact ⟨shown, rfl⟩

end Rotation

namespace LogWriter

variable (complete : Prop)

/-- `goal` is the log once the call in progress has returned. -/
def Explains [Inhabited Cell] (writer : LogWriter Cell) (goal : List Cell) : Prop :=
  match writer.thread with
  | .off => writer.file.content = goal ∧ writer.queue = []
  | .waiting _ => writer.file = atEnd goal
  | .appending call =>
      Keeps (logDiscipline Cell complete) (fun goal file _ => file = atEnd goal) call writer.file goal

/-- Everything logged or on its way to the log. -/
def whole (writer : LogWriter Cell) (goal : List Cell) : List Cell := goal ++ writer.queue.flatten

/-- A due read of the log by the writer returns everything it asked for, and a
write does not fail. -/
def Completes (writer : LogWriter Cell) : WriterEvent → Prop
  | .systemCall count =>
      match writer.thread with
      | .appending call => ReadsAs (fun available count => count = available) call writer.file count
      | _ => True
  | .writeFails _ => False
  | _ => True

variable [Inhabited Cell] (octet : Cell → UInt8)

theorem explains_shown (writer : LogWriter Cell) (goal : List Cell)
    (explains : writer.Explains complete goal) : writer.file.content <+: goal := by
  unfold Explains at explains
  split at explains
  · exact explains.1 ▸ List.prefix_refl _
  · rw [explains]
    exact List.prefix_refl goal
  · exact keeps_explains _ _ _ _ _ explains

/-- What a step of the writer does to the log it is heading for: nothing, or it
drops bytes that were already logged. -/
theorem writer_step (writer next : LogWriter Cell) (event : WriterEvent) (goal : List Cell)
    (explains : writer.Explains complete goal)
    (completes : complete → writer.Completes event)
    (taken : writer.step octet event = some next) :
    ∃ later, next.Explains complete later ∧ (next.whole later).Sublist (writer.whole goal) ∧
      (complete → next.whole later <:+ writer.whole goal) ∧
      (next.thread = .off ↔ writer.thread = .off) := by
  cases event with
  | receive =>
    simp only [step] at taken
    split at taken
    · rename_i log chunk rest waiting queue
      cases taken
      simp only [Explains, waiting] at explains
      have same : goal ++ chunk ++ rest.flatten = writer.whole goal := by
        simp [whole, queue]
      refine ⟨goal ++ chunk, ?_, ?_, ?_, by simp [waiting]⟩
      · have appended := append_keeps octet complete log goal chunk
        rwa [← explains] at appended
      · exact same ▸ List.Sublist.refl _
      · exact fun _ => same ▸ List.suffix_refl _
    · cases taken
  | systemCall count =>
    simp only [step] at taken
    split at taken
    · rename_i call appending
      obtain ⟨⟨call', file'⟩, moved, rfl⟩ := Option.map_eq_some_iff.mp taken
      simp only [Explains, appending] at explains
      have allowed : ReadsAs (logDiscipline Cell complete).returns call writer.file count := by
        unfold ReadsAs
        split
        · intro all
          have full := completes all
          simpa only [Completes, appending, ReadsAs] using full
        · trivial
      obtain ⟨later, advance, kept⟩ := keeps_step _ _ call call' writer.file file' count goal
        explains allowed moved
      refine ⟨later, kept, advance.1.append (List.Sublist.refl _), ?_, by simp [appending]⟩
      intro all
      obtain ⟨dropped, same⟩ := advance.2 all
      exact ⟨dropped, by simp only [whole, ← same, List.append_assoc]⟩
    · cases taken
  | writeFails fault =>
    have fails : ¬ complete := fun all => completes all
    simp only [step] at taken
    split at taken
    · rename_i call appending
      obtain ⟨call', failed, rfl⟩ := Option.map_eq_some_iff.mp taken
      simp only [Explains, appending] at explains
      obtain ⟨later, advance, kept⟩ := keeps_fail _ _ call call' writer.file fault goal explains
        fails failed
      exact ⟨later, kept, advance.1.append (List.Sublist.refl _), fun all => absurd all fails,
        by simp [appending]⟩
    · cases taken
  | returned =>
    simp only [step] at taken
    split at taken
    · rename_i result log appending
      cases taken
      simp only [Explains, appending, Keeps] at explains
      exact ⟨goal, explains.2, List.Sublist.refl _, fun _ => List.suffix_refl _, by simp [appending]⟩
    · cases taken

theorem step_off (writer : LogWriter Cell) (event : WriterEvent) (off : writer.thread = .off) :
    writer.step octet event = none := by
  cases event <;> simp [step, off]

theorem send_explains (writer : LogWriter Cell) (goal chunk : List Cell)
    (logging : writer.thread ≠ .off) (explains : writer.Explains complete goal) :
    (writer.send chunk).Explains complete goal ∧
      (writer.send chunk).whole goal = writer.whole goal ++ chunk := by
  constructor
  · unfold Explains at explains ⊢
    simp only [send]
    split at explains
    · contradiction
    · exact explains
    · exact explains
  · simp [whole, send]

theorem start_explains (content : List Cell) (logging : Option Nat) :
    ∃ writer goal, start octet content logging = some writer ∧ writer.Explains complete goal ∧
      writer.whole goal <:+ content ∧ writer.queue = [] ∧ (writer.thread = .off ↔ logging = none) := by
  cases logging with
  | none =>
    exact ⟨_, content, rfl, ⟨rfl, rfl⟩, by simp [whole], rfl, by simp⟩
  | some maxSize =>
    obtain ⟨count, log, _, opened, _, holds⟩ := SessionLog.open_exec octet maxSize
      ({ content := content, cursor := 0 } : File Cell)
    refine ⟨{ file := _, thread := .waiting log, queue := [] }, content.drop count, ?_, holds.file, ?_,
      rfl, by simp⟩
    · simp only [start, opened]
      rfl
    · simpa [whole] using List.drop_suffix count content

end LogWriter

end Hytch
