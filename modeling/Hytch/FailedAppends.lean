import Hytch.Runs
import Hytch.RotationStages

/-!
Appends one operation of which may fail, the caller carrying on with the next
chunk as the log writer does. The log is usable while the cursor is at the end of
the file and the size it keeps is the file's; which failures leave it so depends
on the operation that fails.
-/

namespace Hytch.FailedAppends

open FilePrograms FileFaults RotationStages Runs SafeTrim

variable {Cell : Type} (octet : Cell → UInt8)

/-- The operation of an append that fails, and how much of a write gets through. -/
structure Failure where
  number : Nat
  moved : Nat
  fault : IoError

structure AppendCall (Cell : Type) where
  data : List Cell
  failure : Option Failure

/-- The log between two appends. -/
structure LogState (Cell : Type) where
  log : SessionLog
  file : File Cell

def Usable (state : LogState Cell) : Prop :=
  state.file.cursor = state.file.content.length ∧ state.log.currentSize = state.file.content.length

section Code

variable [Inhabited Cell]

def systemOf : Option Failure → System Cell IoError
  | none => complete
  | some failure => failsAt failure.number failure.moved failure.fault

/-- One append, `Ok` or `Err`; the error is ignored. -/
def appendStep (state : LogState Cell) (call : AppendCall Cell) : Option (LogState Cell) :=
  (execUnder (systemOf call.failure) (state.log.append octet call.data) 0 state.file).map
    fun outcome => { log := outcome.1.2, file := outcome.2 }

end Code

/-- The failures an append gets over, `stream` being the log with the data behind it.
The operations are numbered: the data is written (0), then, only over the cap, the
end is sought (1), the window's start is sought (2), the window is read (3), the
file is emptied (4), its start is sought (5), the tail is written (6), the end is
sought (7) and the size is read (8). -/
def HarmlessAt (cap : Nat) (stream data : List Cell) (failure : Failure) : Prop :=
  match failure.number with
  | 0 => broken data failure.moved = []
  | 3 => stream.length ≤ cap
  | 5 => stream.length ≤ cap
  | 6 => stream.length ≤ cap ∨
      ¬ ((∃ position, OpenEscape (stream.map octet) (stream.length - cap) position) ∨
        CharacterBehind (stream.map octet) (stream.length - cap))
  | 7 => stream.length ≤ cap ∨ OpenEscape (stream.map octet) (stream.length - cap) 0
  | 8 => stream.length ≤ cap ∨ OpenEscape (stream.map octet) (stream.length - cap) 0
  | _ => True

def Harmless (state : LogState Cell) (call : AppendCall Cell) : Prop :=
  ∀ failure, call.failure = some failure →
    HarmlessAt octet state.log.maxSize (state.file.content ++ call.data) call.data failure

theorem broken_shorter (data : List Cell) (moved : Nat) (some_data : data ≠ []) :
    (broken data moved).length < data.length := by
  have positive := List.length_pos_iff.mpr some_data
  rw [broken, List.length_take, List.length_dropLast]
  omega

theorem after_write_within (log : SessionLog) (data : List Cell) :
    Within 8 (afterWrite octet log data) := by
  have rotated (grown : SessionLog) : Within 8 (do
      rotateLogFile octet grown.maxSize
      FileTask.metadataLen : FileTask Cell IoError Nat) :=
    within_then _ _ 7 1 (rotate_within octet _) fun _ => within_request .metadataLen
  unfold afterWrite
  simp only
  split
  · refine within_bind _ _ 8 0 (rotated _) ?_
    intro result
    cases result with
    | error fault => trivial
    | ok size => trivial
  · trivial

theorem append_within (log : SessionLog) (data : List Cell) :
    Within 9 (log.append octet data) := by
  rw [append_after_write]
  refine within_bind _ _ 1 8 (within_request (.writeAll data)) ?_
  intro outcome
  cases outcome with
  | error fault => trivial
  | ok => exact after_write_within octet log data

section Stages

variable [Inhabited Cell] (system : System Cell IoError)

theorem after_data (log : SessionLog) (file : File Cell) (data : List Cell)
    (full : system 0 = complete 0) :
    execUnder system (log.append octet data) 0 file =
      execUnder system (afterWrite octet log data) 1 (file.write data) := by
  rw [append_after_write]
  change execUnder system (.call (.writeAll data) _) 0 file = _
  rw [exec_under_call system _ _ 0 file full]
  rfl

variable {Result : Type} (rest : Except IoError Unit → Program Cell IoError Result)
  (cap : Nat) (stream : List Cell)

theorem to_trim (large : cap < stream.length) (full : system 1 = complete 1) :
    execUnder system (Program.bind (rotateLogFile octet cap) rest) 1 (atEnd stream) =
      execUnder system (Program.bind (trim octet cap stream.length) rest) 2 (atEnd stream) := by
  rw [rotate_staged]
  change execUnder system (.call .seekEnd _) 1 (atEnd stream) = _
  rw [exec_under_call system _ _ 1 _ full]
  change execUnder system (Program.bind (ite (stream.length > cap) _ _) rest) 2 (atEnd stream) = _
  rw [if_pos large]
  rfl

theorem to_rewrite (tail : List Cell) (large : cap < stream.length)
    (kept : tailOf octet (lookbackOf cap stream.length) (window cap stream) = some tail)
    (full : system 2 = complete 2) (full_read : system 3 = complete 3) :
    execUnder system (Program.bind (trim octet cap stream.length) rest) 2 (atEnd stream) =
      execUnder system (Program.bind (rewrite tail) rest) 4 (atEnd stream) := by
  have at_stream_end : readStartOf cap stream.length + (cap + lookbackOf cap stream.length) =
      stream.length := by
    have size := window_length cap stream large
    rw [window, List.length_drop] at size
    have := lookback_positive cap stream large
    omega
  change execUnder system (.call (.seekStart _) _) 2 (atEnd stream) = _
  rw [exec_under_call system _ _ 2 _ full]
  change execUnder system (.call (.read _) _) 3
    { content := stream, cursor := readStartOf cap stream.length } = _
  rw [exec_under_call system _ _ 3 _ full_read]
  simp only [File.perform, available_window cap stream large]
  rw [read_window, List.take_of_length_le (Nat.le_of_eq (window_length cap stream large)),
    at_stream_end]
  change execUnder system (Program.bind (afterRead octet _ _) rest) 4 (atEnd stream) = _
  rw [afterRead, kept]
  rfl

end Stages

section Rewriting

variable [Inhabited Cell] (grown : SessionLog) (tail : List Cell) (file : File Cell) (moved : Nat)
  (fault : IoError)

theorem rewritten (tail : List Cell) (file : File Cell) :
    ({ file.setLen 0 with cursor := 0 } : File Cell).write tail = atEnd tail := by
  rw [File.setLen_zero]
  exact File.write_at_end [] tail

theorem fails_at_seek_zero :
    execUnder (failsAt 5 moved fault) (Program.bind (rewrite tail) (finish grown)) 4 file =
      some ((.error fault, grown), file.setLen 0) := rfl

theorem fails_at_write_tail (some_tail : tail ≠ []) :
    execUnder (failsAt 6 moved fault) (Program.bind (rewrite tail) (finish grown)) 4 file =
      some ((.error fault, grown), atEnd (broken tail moved)) := by
  change execUnder (failsAt 6 moved fault) (.call (.setLen 0) _) 4 file = _
  rw [exec_under_call _ _ _ 4 file (fails_at_other 6 moved 4 fault (by decide))]
  change execUnder (failsAt 6 moved fault) (.call (.seekStart 0) _) 5 (file.setLen 0) = _
  rw [exec_under_call _ _ _ 5 _ (fails_at_other 6 moved 5 fault (by decide))]
  change execUnder (failsAt 6 moved fault) (.call (.writeAll tail) _) 6
    { file.setLen 0 with cursor := 0 } = _
  rw [exec_under_failed _ _ _ 6 _ (atEnd (broken tail moved)) fault]
  · rfl
  · rw [← rewritten (broken tail moved) file]
    simp only [failsAt, if_true, if_neg some_tail]

theorem fails_at_last_seek :
    execUnder (failsAt 7 moved fault) (Program.bind (rewrite tail) (finish grown)) 4 file =
      some ((.error fault, grown), atEnd tail) := by
  rw [← rewritten tail file]
  rfl

theorem fails_at_metadata :
    execUnder (failsAt 8 moved fault) (Program.bind (rewrite tail) (finish grown)) 4 file =
      some ((.error fault, grown), atEnd tail) := by
  change some ((Except.error fault, grown),
    atEnd (({ file.setLen 0 with cursor := 0 } : File Cell).write tail).content) = _
  rw [rewritten tail file]
  rfl

end Rewriting

section Step

variable [Inhabited Cell] (log : SessionLog) (file : File Cell) (content data : List Cell)
  (moved : Nat) (fault : IoError)

omit [Inhabited Cell] in
theorem usable_at_end (log : SessionLog) (content : List Cell) :
    Usable { log := log, file := atEnd content } ↔ log.currentSize = content.length :=
  ⟨fun usable => usable.2, fun size => ⟨rfl, size⟩⟩

theorem complete_usable (holds : log.Holds file content)
    (outcome : (Except IoError Unit × SessionLog) × File Cell)
    (ran : execUnder complete (log.append octet data) 0 file = some outcome) :
    Usable { log := outcome.1.2, file := outcome.2 } := by
  obtain ⟨count, after, _, appended, _, held⟩ := log.append_exec octet file content data holds
  rw [exec_under_complete, appended] at ran
  cases ran
  exact (usable_at_end after _).mpr held.size

/-- A failed write of the data is harmless only if it has written nothing. -/
theorem data_fails_usable_iff (holds : log.Holds file content)
    (outcome : (Except IoError Unit × SessionLog) × File Cell)
    (ran : execUnder (failsAt 0 moved fault) (log.append octet data) 0 file = some outcome) :
    Usable { log := outcome.1.2, file := outcome.2 } ↔ broken data moved = [] := by
  by_cases nothing : data = []
  · have same : execUnder (failsAt 0 moved fault) (log.append octet data) 0 file =
        execUnder complete (log.append octet data) 0 file := by
      rw [after_data octet complete log file data rfl, nothing, File.write_nil]
      exact exec_under_congr _ _ (afterWrite octet log []) 8 1 file (after_write_within octet log [])
        fun later after _ => fails_at_other 0 moved later fault (by omega)
    rw [same] at ran
    refine iff_of_true (complete_usable octet log file content data holds outcome ran) ?_
    rw [nothing, broken, List.dropLast_nil, List.take_nil]
  · rw [append_after_write] at ran
    change execUnder _ (.call (.writeAll data) _) 0 file = _ at ran
    rw [exec_under_failed _ _ _ 0 file (atEnd (content ++ broken data moved)) fault] at ran
    · cases ran
      rw [usable_at_end, holds.size, List.length_append]
      constructor
      · intro size
        exact List.length_eq_zero_iff.mp (by omega)
      · intro none_moved
        rw [none_moved]
        rfl
    · rw [← holds_write log file content _ holds]
      simp only [failsAt, if_true, if_neg nothing]

/-- A failed write of the tail is harmless only if there is no tail. -/
theorem tail_fails_usable_iff (log : SessionLog) (stream tail : List Cell)
    (inside : tail.length ≤ stream.length)
    (outcome : (Except IoError Unit × SessionLog) × File Cell)
    (ran : execUnder (failsAt 6 moved fault) (Program.bind (rewrite tail)
      (finish { log with currentSize := stream.length })) 4 (atEnd stream) = some outcome) :
    Usable { log := outcome.1.2, file := outcome.2 } ↔ tail = [] := by
  by_cases nothing : tail = []
  · rw [nothing] at ran ⊢
    cases ran
    exact iff_of_true ⟨rfl, rfl⟩ rfl
  · rw [fails_at_write_tail _ _ _ moved fault nothing] at ran
    cases ran
    have shorter := broken_shorter tail moved nothing
    refine iff_of_false ?_ nothing
    rw [usable_at_end]
    change ¬ stream.length = _
    omega

/-- Once the file is being rewritten, with what a trim at `point` keeps. -/
theorem rewrite_fails_usable_iff (log : SessionLog) (stream : List Cell) (point number : Nat)
    (begun : 4 ≤ number) (early : number < 9) (large : log.maxSize < stream.length)
    (trims : TrimPoint (stream.map octet) (stream.length - log.maxSize) point)
    (outcome : (Except IoError Unit × SessionLog) × File Cell)
    (ran : execUnder (failsAt number moved fault) (Program.bind (rewrite (stream.drop point))
      (finish { log with currentSize := stream.length })) 4 (atEnd stream) = some outcome) :
    Usable { log := outcome.1.2, file := outcome.2 } ↔
      HarmlessAt octet log.maxSize stream data { number := number, moved := moved, fault := fault } := by
  have not_fits : ¬ stream.length ≤ log.maxSize := Nat.not_le.mpr large
  have left := trim_point_before_end_iff (stream.map octet) _ point (by simp) trims
  have inside := trim_point_inside _ _ point trims
  rw [List.length_map] at left inside
  -- what the last two operations would have made known is the length of the kept bytes
  have last_ops : stream.length = (stream.drop point).length ↔
      stream.length ≤ log.maxSize ∨ OpenEscape (stream.map octet) (stream.length - log.maxSize) 0 := by
    rw [← trim_point_zero_iff _ _ point (by omega) trims, List.length_drop]
    omega
  obtain ⟨number, rfl⟩ := Nat.exists_eq_add_of_le begun
  match number with
  | 0 =>
    cases ran
    exact iff_of_true ((usable_at_end _ stream).mpr rfl) trivial
  | 1 =>
    rw [fails_at_seek_zero] at ran
    cases ran
    refine iff_of_false ?_ not_fits
    rw [File.setLen_zero]
    rintro ⟨position, _⟩
    have emptied : stream.length = 0 := position
    omega
  | 2 =>
    have shorter : (stream.drop point).length ≤ stream.length := by
      rw [List.length_drop]
      omega
    rw [tail_fails_usable_iff moved fault log stream _ shorter outcome ran, List.drop_eq_nil_iff,
      ← Nat.not_lt, left]
    exact ⟨Or.inr, fun harmless => harmless.resolve_left not_fits⟩
  | 3 =>
    rw [fails_at_last_seek] at ran
    cases ran
    exact (usable_at_end _ _).trans last_ops
  | 4 =>
    rw [fails_at_metadata] at ran
    cases ran
    exact (usable_at_end _ _).trans last_ops
  | number + 5 => omega

theorem rotation_fails_usable_iff (holds : log.Holds file content) (number : Nat)
    (begun : 0 < number) (early : number < 9) (large : log.maxSize < (content ++ data).length)
    (outcome : (Except IoError Unit × SessionLog) × File Cell)
    (ran : execUnder (failsAt number moved fault) (log.append octet data) 0 file = some outcome) :
    Usable { log := outcome.1.2, file := outcome.2 } ↔
      HarmlessAt octet log.maxSize (content ++ data) data
        { number := number, moved := moved, fault := fault } := by
  obtain ⟨point, trims, kept⟩ := tail_of_window octet log.maxSize (content ++ data)
  rw [after_data octet _ log file data (fails_at_other number moved 0 fault (by omega)),
    after_write_over octet log file content data holds large,
    holds_write log file content data holds] at ran
  generalize content ++ data = stream at *
  match number with
  | 1 =>
    cases ran
    exact iff_of_true ((usable_at_end _ stream).mpr rfl) trivial
  | 2 =>
    rw [to_trim octet _ _ log.maxSize stream large (fails_at_other 2 moved 1 fault (by decide))] at ran
    cases ran
    exact iff_of_true ((usable_at_end _ stream).mpr rfl) trivial
  | 3 =>
    rw [to_trim octet _ _ log.maxSize stream large (fails_at_other 3 moved 1 fault (by decide))] at ran
    cases ran
    refine iff_of_false ?_ (Nat.not_le.mpr large)
    -- the cursor stands where the read should have begun
    rintro ⟨position, _⟩
    have positive := lookback_positive log.maxSize stream large
    have short : readStartOf log.maxSize stream.length = stream.length := position
    rw [readStartOf] at short
    omega
  | number + 4 =>
    rw [to_trim octet _ _ log.maxSize stream large
        (fails_at_other (number + 4) moved 1 fault (by omega)),
      to_rewrite octet _ _ log.maxSize stream _ large kept
        (fails_at_other (number + 4) moved 2 fault (by omega))
        (fails_at_other (number + 4) moved 3 fault (by omega))] at ran
    exact rewrite_fails_usable_iff octet data moved fault log stream point (number + 4) (by omega)
      early large trims outcome ran

omit [Inhabited Cell] in
theorem harmless_fits (cap : Nat) (stream : List Cell) (failure : Failure)
    (begun : failure.number ≠ 0) (small : stream.length ≤ cap) :
    HarmlessAt octet cap stream data failure := by
  unfold HarmlessAt
  split
  · exact absurd ‹_› begun
  · exact small
  · exact small
  · exact Or.inl small
  · exact Or.inl small
  · exact Or.inl small
  · trivial

omit [Inhabited Cell] in
theorem harmless_past (cap : Nat) (stream : List Cell) (failure : Failure)
    (past : 9 ≤ failure.number) : HarmlessAt octet cap stream data failure := by
  unfold HarmlessAt
  split
  all_goals first | omega | trivial

theorem fails_usable_iff (holds : log.Holds file content) (failure : Failure)
    (outcome : (Except IoError Unit × SessionLog) × File Cell)
    (ran : execUnder (failsAt failure.number failure.moved failure.fault) (log.append octet data) 0
      file = some outcome) :
    Usable { log := outcome.1.2, file := outcome.2 } ↔
      HarmlessAt octet log.maxSize (content ++ data) data failure := by
  obtain ⟨number, moved, fault⟩ := failure
  rcases Nat.eq_zero_or_pos number with first | begun
  · rw [first] at ran ⊢
    exact data_fails_usable_iff octet log file content data moved fault holds outcome ran
  · rcases Nat.lt_or_ge number 9 with early | past
    · rcases Nat.lt_or_ge log.maxSize (content ++ data).length with large | small
      · exact rotation_fails_usable_iff octet log file content data moved fault holds number begun
          early large outcome ran
      · rw [after_data octet _ log file data (fails_at_other number moved 0 fault (by omega)),
          after_write_fits octet log file content data holds small,
          holds_write log file content data holds] at ran
        cases ran
        exact iff_of_true ((usable_at_end _ _).mpr rfl)
          (harmless_fits octet data _ _ _ (by simpa using Nat.ne_of_gt begun) small)
    · have agrees := exec_under_congr (failsAt number moved fault) complete (log.append octet data) 9 0
        file (append_within octet log data) fun later _ before =>
          fails_at_other number moved later fault (by omega)
      simp only [agrees] at ran
      exact iff_of_true (complete_usable octet log file content data holds outcome ran)
        (harmless_past octet data _ _ _ past)

/-- One append leaves a usable log usable just when its failure is harmless. -/
theorem append_usable_iff (state : LogState Cell) (call : AppendCall Cell) (next : LogState Cell)
    (usable : Usable state) (taken : appendStep octet state call = some next) :
    Usable next ↔ Harmless octet state call := by
  have holds : state.log.Holds state.file state.file.content :=
    { file := by rw [atEnd, ← usable.1], size := usable.2 }
  obtain ⟨outcome, ran, rfl⟩ := Option.map_eq_some_iff.mp taken
  rw [Harmless]
  cases call with
  | mk data failure =>
    cases failure with
    | none =>
      exact iff_of_true (complete_usable octet _ _ _ data holds outcome ran)
        (by intro failure none_failed; cases none_failed)
    | some failure =>
      rw [fails_usable_iff octet _ _ _ data holds failure outcome ran]
      constructor
      · intro harmless other same
        cases same
        exact harmless
      · exact fun harmless => harmless failure rfl

end Step

/-- From a log just opened, in any run of appends of which each may fail in one
operation: the log is usable after every append just when no failure is one that an
append does not get over. -/
theorem appends_usable_iff [Inhabited Cell] (cap : Nat) (content : List Cell) (log : SessionLog)
    (file : File Cell) (calls : List (AppendCall Cell)) (last : LogState Cell)
    (opened : (SessionLog.openLog octet cap).exec { content := content, cursor := 0 } =
      some (.ok log, file))
    (ran : run (appendStep octet) { log := log, file := file } calls = some last) :
    Throughout (appendStep octet) Usable { log := log, file := file } calls ↔
      Meets (appendStep octet) (Harmless octet) { log := log, file := file } calls := by
  obtain ⟨count, known, _, also, _, holds⟩ := SessionLog.open_exec octet cap
    ({ content := content, cursor := 0 } : File Cell)
  rw [opened] at also
  cases also
  exact throughout_iff_meets_step (appendStep octet) Usable (Harmless octet)
    (append_usable_iff octet) _ last calls ((usable_at_end log _).mpr holds.size) ran

def ioFault : IoError := { kind := .other, message := "Input/output error (os error 5)" }

/-- A first write that moves nothing leaves the empty log usable. -/
theorem appends_usable_unwritten :
    Throughout (appendStep (id : UInt8 → UInt8)) Usable
      { log := { maxSize := 2, currentSize := 0 }, file := atEnd [] }
      [{ data := [0x61, 0x62], failure := some { number := 0, moved := 0, fault := ioFault } }] :=
  (appends_usable_iff id 2 [] { maxSize := 2, currentSize := 0 } (atEnd [])
    [{ data := [0x61, 0x62], failure := some { number := 0, moved := 0, fault := ioFault } }]
    { log := { maxSize := 2, currentSize := 0 }, file := atEnd [] } rfl rfl).mpr
    ⟨by intro failure same; cases same; rfl, fun _ _ => trivial⟩

/-- A cap of two: ab is appended, the append of c fails in its read and leaves the cursor
at the start of the file; d then overwrites a and is itself lost to the trim. -/
theorem failed_read_overwrites :
    ∃ broken last, run (appendStep (id : UInt8 → UInt8))
        { log := { maxSize := 2, currentSize := 0 }, file := atEnd [] }
        [{ data := [0x61, 0x62], failure := none },
          { data := [0x63], failure := some { number := 3, moved := 0, fault := ioFault } }] =
        some broken ∧
      ¬ Usable broken ∧
      appendStep id broken { data := [0x64], failure := none } = some last ∧
      last.file.content = [0x62, 0x63] := by
  refine ⟨_, _, rfl, ?_, rfl, rfl⟩
  rintro ⟨position, _⟩
  exact absurd position (by decide)

end Hytch.FailedAppends
