import Hytch.DaemonRun

/-!
The end of a daemon whose child is gone. A closed pty is always ready to be read, and reading
goes before connections and pushes: whatever backlog there is, the loop only empties its
commands and the rest of the output, and leaves. Behind it the log writer empties its channel.
-/

namespace Hytch.WindingDown

open FilePrograms HandleClient DaemonRun Runs

section Writer

variable {Cell : Type} [Inhabited Cell] (octet : Cell → UInt8)

/-- A disk that is not full. -/
def Faultless : WriterEvent → Prop
  | .writeFails _ => False
  | _ => True

/-- The call in progress is over, and the channel as it was. -/
def CallOver (queue : List (List Cell)) (writer : LogWriter Cell) : Prop :=
  writer.queue = queue ∧
    (writer.thread = .appending .panicked ∨ ∃ result, writer.thread = .appending (.done result))

/-- The thread has left its loop, or will as soon as the channel is closed. -/
def WriterDone (writer : LogWriter Cell) : Prop :=
  writer.thread = .appending .panicked ∨ writer.queue = [] ∧ ∃ log, writer.thread = .waiting log

theorem call_ends (call : Program Cell IoError (Except IoError Unit × SessionLog))
    (writer : LogWriter Cell) (appending : writer.thread = .appending call) :
    Reaches (LogWriter.step octet) Faultless writer (CallOver writer.queue) := by
  induction call generalizing writer with
  | done result => exact reaches_here _ _ _ _ ⟨rfl, .inr ⟨result, appending⟩⟩
  | panicked => exact reaches_here _ _ _ _ ⟨rfl, .inl appending⟩
  | call operation next ih =>
    have goes (count : Nat) (answer : operation.Answer) (file : File Cell)
        (moved : (Program.call operation next).step writer.file count = some (next (.ok answer), file)) :
        Reaches (LogWriter.step octet) Faultless writer (CallOver writer.queue) := by
      apply reaches_step _ _ _ _ { writer with thread := .appending (next (.ok answer)), file := file }
        (.systemCall count) trivial
      · simp [LogWriter.step, appending, moved]
      · exact ih (.ok answer) { writer with thread := .appending (next (.ok answer)), file := file } rfl
    cases operation with
    | seekStart position => exact goes 0 _ _ rfl
    | seekEnd => exact goes 0 _ _ rfl
    | setLen length => exact goes 0 _ _ rfl
    | metadataLen => exact goes 0 _ _ rfl
    | read room =>
      apply goes (writer.file.available room)
      exact if_pos ⟨Nat.le_refl _, (Nat.eq_zero_or_pos _).symm⟩
    | writeAll data =>
      by_cases nothing : data = []
      · exact goes 0 () writer.file (if_pos nothing)
      · -- all of it in one piece, and then nothing more
        let file := writer.file.write (data.take data.length)
        let rest : Program Cell IoError (Except IoError Unit × SessionLog) :=
          .call (.writeAll (data.drop data.length)) next
        have some_data := List.length_pos_iff.mpr nothing
        have written : (Program.call (.writeAll data) next).step writer.file data.length =
            some (rest, file) := by
          simp [Program.step, nothing, rest, file]
        apply reaches_step _ _ _ _ { writer with thread := .appending rest, file := file }
          (.systemCall data.length) trivial
        · simp [LogWriter.step, appending, written]
        · apply reaches_step _ _ _ _ { writer with thread := .appending (next (.ok ())), file := file }
            (.systemCall 0) trivial
          · simp [LogWriter.step, Program.step, rest]
          · exact ih (.ok ()) { writer with thread := .appending (next (.ok ())), file := file } rfl

theorem drains_appending (queue : List (List Cell))
    (drains : ∀ (writer : LogWriter Cell) log, writer.thread = .waiting log → writer.queue = queue →
      Reaches (LogWriter.step octet) Faultless writer WriterDone)
    (writer : LogWriter Cell) (call : Program Cell IoError (Except IoError Unit × SessionLog))
    (appending : writer.thread = .appending call) (waits : writer.queue = queue) :
    Reaches (LogWriter.step octet) Faultless writer WriterDone := by
  apply reaches_trans _ _ _ _ (CallOver writer.queue) (call_ends octet call writer appending)
  rintro after ⟨same, panicked | ⟨⟨outcome, log⟩, done⟩⟩
  · exact reaches_here _ _ _ _ (.inl panicked)
  · apply reaches_step _ _ _ _ { after with thread := .waiting log } .returned trivial
    · simp [LogWriter.step, done]
    · exact drains _ log rfl (same.trans waits)

theorem drains_waiting (queue : List (List Cell)) (writer : LogWriter Cell) (log : SessionLog)
    (waiting : writer.thread = .waiting log) (waits : writer.queue = queue) :
    Reaches (LogWriter.step octet) Faultless writer WriterDone := by
  induction queue generalizing writer log with
  | nil => exact reaches_here _ _ _ _ (.inr ⟨waits, log, waiting⟩)
  | cons chunk rest ih =>
    apply reaches_step _ _ _ _
      { writer with thread := .appending (log.append octet chunk), queue := rest } .receive trivial
    · simp [LogWriter.step, waiting, waits]
    · exact drains_appending octet rest ih _ _ rfl rfl

theorem writer_drains (writer : LogWriter Cell) (logs : writer.thread ≠ .off) :
    Reaches (LogWriter.step octet) Faultless writer WriterDone := by
  cases thread : writer.thread with
  | off => exact absurd thread logs
  | waiting log => exact drains_waiting octet writer.queue writer log thread rfl
  | appending call =>
    exact drains_appending octet writer.queue (drains_waiting octet writer.queue) writer call thread rfl

end Writer

def ofDaemon : DaemonEvent → Prop
  | .select _ => True
  | .handOff => True
  | .writeEnds _ => True
  | .reaped _ => True
  | .shutDown _ => True
  | .joined => True
  | .unlinked => True
  | .writer _ => True
  | _ => False

def Returned (daemon : Daemon) : Prop := ∃ reason, daemon.phase = .returned reason

section Leaving

theorem writer_lifts (allowed : DaemonEvent → Prop) (may : ∀ event, allowed (.writer event))
    (target : LogWriter UInt8 → Prop) (daemon : Daemon)
    (reaches : Reaches (LogWriter.step id) Faultless daemon.writer target) :
    Reaches Daemon.step allowed daemon fun after =>
      ∃ writer appended, target writer ∧
        after = { daemon with writer := writer, appended := appended } := by
  obtain ⟨more, writer, faultless, ran, there⟩ := reaches
  induction more generalizing daemon with
  | nil =>
    cases ran
    exact reaches_here _ _ _ _ ⟨daemon.writer, daemon.appended, there, rfl⟩
  | cons event rest ih =>
    obtain ⟨middle, moved, later⟩ := run_cons _ _ _ _ _ ran
    let next : Daemon := { daemon with
      writer := middle, appended := daemon.appended ++ received daemon.writer event }
    apply reaches_step _ _ _ _ next (.writer event) (may event)
    · simp [Daemon.step, moved, next]
    · exact ih next (fun other member => faultless other (List.mem_cons_of_mem _ member)) later

variable (daemon : Daemon)

theorem returns_unlinking (reason : ShutdownReason) (unlinking : daemon.phase = .unlinking reason) :
    Reaches Daemon.step ofDaemon daemon Returned := by
  let hub : Hub UInt8 := { daemon.hub with serving := false, pushQueue := [], controlQueue := [] }
  apply reaches_step _ _ _ _ { daemon with hub := hub, phase := .returned reason } .unlinked trivial
  · simp [Daemon.step, unlinking, Hub.step, hub]
  · exact reaches_here _ _ _ _ ⟨reason, rfl⟩

theorem returns_draining (reason : ShutdownReason) (draining : daemon.phase = .draining reason)
    (logs : daemon.writer.thread ≠ .off) : Reaches Daemon.step ofDaemon daemon Returned := by
  apply reaches_trans _ _ _ _ _ (writer_lifts ofDaemon (fun _ => trivial) WriterDone daemon
    (writer_drains id daemon.writer logs))
  rintro after ⟨writer, appended, done, rfl⟩
  have ended : ({ daemon with writer := writer, appended := appended } : Daemon).writerEnded = true := by
    rcases done with panicked | ⟨nothing, log, waiting⟩
    · simp [Daemon.writerEnded, panicked]
    · simp [Daemon.writerEnded, nothing, waiting]
  apply reaches_step _ _ _ _
    { daemon with writer := writer, appended := appended, phase := .unlinking reason } .joined trivial
  · rw [draining] at ended
    simp [Daemon.step, draining, ended]
  · exact returns_unlinking _ reason rfl

theorem returns_leaving (reason : ShutdownReason) (leaving : daemon.phase = .leaving reason) :
    Reaches Daemon.step ofDaemon daemon Returned := by
  cases logging : daemon.logging with
  | true =>
    apply reaches_step _ _ _ _
      { daemon with phase := .draining reason, writer := daemon.writer.send (marker 0) } (.shutDown 0)
      trivial
    · simp [Daemon.step, leaving, logging]
    · apply returns_draining _ reason rfl
      intro off
      have off : daemon.writer.thread = .off := off
      simp [Daemon.logging, off] at logging
  | false =>
    apply reaches_step _ _ _ _ { daemon with phase := .unlinking reason } (.shutDown 0) trivial
    · simp [Daemon.step, leaving, logging]
    · exact returns_unlinking _ reason rfl

theorem returns_waiting (waiting : daemon.phase = .waiting) (dead : daemon.pty.alive = false) :
    Reaches Daemon.step ofDaemon daemon Returned := by
  apply reaches_step _ _ _ _ { daemon with phase := .leaving (.childExited none) } (.reaped none) trivial
  · simp [Daemon.step, waiting, dead]
  · exact returns_leaving _ (.childExited none) rfl

/-- The pty goes before everything but a command. -/
theorem pick_read (quiet : daemon.hub.controlQueue = []) (ready : daemon.ready .read = true) :
    daemon.pick = some .read := by
  have nothing : daemon.ready .control = false := by simp [Daemon.ready, quiet]
  simp [Daemon.pick, nothing, ready]

theorem pick_closed (quiet : daemon.hub.controlQueue = []) (closed : daemon.pty.slaveOpen = false) :
    daemon.pick = some .read :=
  pick_read daemon quiet (by simp [Daemon.ready, closed])

theorem takes_command (command : ControlCommand) (rest : List ControlCommand)
    (selecting : daemon.phase = .selecting) (queue : daemon.hub.controlQueue = command :: rest) :
    daemon.step (.select 0) = some { daemon with
      hub := { daemon.hub with controlQueue := rest }
      taken := daemon.taken ++ [.command command] } := by
  have picked := pick_control daemon (by simp [queue])
  simp [Daemon.step, selecting, Daemon.select, picked, Daemon.onControl, queue, Hub.step]

theorem reads_byte (byte : UInt8) (bytes : List UInt8) (fanout : Fanout UInt8)
    (selecting : daemon.phase = .selecting) (picked : daemon.pick = some .read)
    (output : daemon.pty.output = byte :: bytes)
    (pushed : daemon.hub.fanout.push [byte] = some fanout) :
    daemon.step (.select 1) = some { daemon with
      hub := { daemon.hub with fanout := fanout }
      phase := .handingOff [byte]
      pty := { daemon.pty with output := bytes }
      taken := daemon.taken ++ [.read [byte]] } := by
  simp [Daemon.step, selecting, Daemon.select, picked, Daemon.onRead, output, bufferSize, Hub.step,
    pushed]

theorem reads_end (selecting : daemon.phase = .selecting) (quiet : daemon.hub.controlQueue = [])
    (closed : daemon.pty.slaveOpen = false) (nothing : daemon.pty.output = []) :
    daemon.step (.select 0) =
      some { daemon with phase := .waiting, taken := daemon.taken ++ [.read []] } := by
  have picked := pick_closed daemon quiet closed
  simp [Daemon.step, selecting, Daemon.select, picked, Daemon.onRead, nothing]

/-- By induction on the commands and bytes that are left. -/
theorem returns_selecting (scrollback left : Nat) (output : List UInt8)
    (amount : daemon.hub.controlQueue.length + daemon.pty.output.length = left)
    (selecting : daemon.phase = .selecting) (dead : daemon.pty.alive = false)
    (closed : daemon.pty.slaveOpen = false) (ring : daemon.hub.fanout.Represents scrollback output) :
    Reaches Daemon.step ofDaemon daemon Returned := by
  induction left using Nat.strongRecOn generalizing daemon output with
  | _ left ih =>
    cases queue : daemon.hub.controlQueue with
    | cons command rest =>
      apply reaches_step _ _ _ _ _ (.select 0) trivial
        (takes_command daemon command rest selecting queue)
      refine ih (rest.length + daemon.pty.output.length) ?_ _ output rfl selecting dead closed ring
      rw [queue, List.length_cons] at amount
      omega
    | nil =>
      cases rest : daemon.pty.output with
      | nil =>
        apply reaches_step _ _ _ _ _ (.select 0) trivial
          (reads_end daemon selecting queue closed rest)
        exact returns_waiting _ rfl dead
      | cons byte bytes =>
        obtain ⟨fanout, pushed, _, further⟩ :=
          Fanout.push_represents daemon.hub.fanout scrollback output [byte] ring
        let handing : Daemon := { daemon with
          hub := { daemon.hub with fanout := fanout }
          phase := .handingOff [byte]
          pty := { daemon.pty with output := bytes }
          taken := daemon.taken ++ [.read [byte]] }
        apply reaches_step _ _ _ _ handing (.select 1) trivial
          (reads_byte daemon byte bytes fanout selecting (pick_closed daemon queue closed) rest pushed)
        apply reaches_step _ _ _ _ _ .handOff trivial (show handing.step .handOff = _ from rfl)
        refine ih (handing.hub.controlQueue.length + bytes.length) ?_ _ _ rfl rfl dead closed further
        have empty : handing.hub.controlQueue = [] := queue
        rw [queue, rest, List.length_cons] at amount
        rw [empty]
        omega

theorem returns_orphan (scrollback : Nat) (output : List UInt8) (dead : daemon.pty.alive = false)
    (closed : daemon.pty.slaveOpen = false) (ring : daemon.hub.fanout.Represents scrollback output)
    (logs : ∀ reason, daemon.phase = .draining reason → daemon.writer.thread ≠ .off) :
    Reaches Daemon.step ofDaemon daemon Returned := by
  cases phase : daemon.phase with
  | selecting => exact returns_selecting daemon scrollback _ output rfl phase dead closed ring
  | handingOff chunk =>
    let next : Daemon := { daemon with
      phase := .selecting
      writer := if daemon.logging then daemon.writer.send chunk else daemon.writer }
    apply reaches_step _ _ _ _ next .handOff trivial
    · simp [Daemon.step, phase, next]
    · exact returns_selecting next scrollback _ output rfl rfl dead closed ring
  | writing payload rest =>
    let outcome : WriteOutcome := if rest.isEmpty then .completed else .timedOut
    have ends : Daemon.endsAs rest outcome = true := by
      cases rest <;> rfl
    let next : Daemon := { daemon with
      phase := .selecting
      written := daemon.written ++
        [{ payload := payload, delivered := payload.take (payload.length - rest.length)
           outcome := outcome }] }
    apply reaches_step _ _ _ _ next (.writeEnds outcome) trivial
    · simp [Daemon.step, phase, ends, next]
    · exact returns_selecting next scrollback _ output rfl rfl dead closed ring
  | waiting => exact returns_waiting daemon phase dead
  | leaving reason => exact returns_leaving daemon reason phase
  | draining reason => exact returns_draining daemon reason phase (logs reason phase)
  | unlinking reason => exact returns_unlinking daemon reason phase
  | returned reason => exact reaches_here _ _ _ _ ⟨reason, phase⟩

end Leaving

section Counting

/-- What the loop has still to do before it leaves. -/
def remaining (daemon : Daemon) : Nat :=
  daemon.hub.controlQueue.length + daemon.pty.output.length + if daemon.phase.looping then 1 else 0

def isSelect : DaemonEvent → Bool
  | .select _ => true
  | _ => false

/-- The iterations that served a client or its connection. -/
def served (taken : List Taken) : List Taken :=
  taken.filter fun
    | .accept _ => true
    | .push _ => true
    | _ => false

/-- Why `run` is about to return, once the loop is behind it. -/
def ending : LoopPhase → Option ShutdownReason
  | .leaving reason => some reason
  | .draining reason => some reason
  | .unlinking reason => some reason
  | .returned reason => some reason
  | _ => none

/-- The reason was there, or is that the child has exited. -/
def Exits (daemon next : Daemon) : Prop :=
  ∀ reason, ending next.phase = some reason →
    ending daemon.phase = some reason ∨ ∃ code, reason = .childExited code

theorem exits_same (daemon next : Daemon) (same : ending next.phase = ending daemon.phase) :
    Exits daemon next := by
  intro reason ends
  exact .inl (same.symm.trans ends)

theorem exits_looping (daemon next : Daemon) (loops : ending next.phase = none) :
    Exits daemon next := by
  intro reason ends
  cases loops.symm.trans ends

/-- One step behind the end of the child: every iteration uses something up. -/
structure UsesUp (daemon next : Daemon) (event : DaemonEvent) : Prop where
  closed : next.pty.slaveOpen = false
  less : (if isSelect event then 1 else 0) + remaining next + (commandsPut daemon.enqueued).length ≤
    remaining daemon + (commandsPut next.enqueued).length
  noneServed : served next.taken = served daemon.taken
  exits : Exits daemon next

variable (daemon next : Daemon) (event : DaemonEvent)
variable (closed : daemon.pty.slaveOpen = false) (taken : daemon.step event = some next)
include closed taken

theorem outside_uses_up (shut : event ≠ .slave true) (outside : event.outside = true) :
    UsesUp daemon next event := by
  cases event with
  | childWrites bytes => simp [Daemon.step, closed] at taken
  | slave isOpen =>
    cases taken
    refine ⟨?_, by simp [isSelect, remaining], rfl, exits_same _ _ rfl⟩
    cases isOpen
    · rfl
    · exact absurd rfl shut
  | connects id =>
    obtain ⟨_, taken⟩ := Option.ite_none_right_eq_some.mp taken
    cases taken
    exact ⟨closed, by simp [isSelect, remaining], rfl, exits_same _ _ rfl⟩
  | childExits =>
    cases taken
    exact ⟨closed, by simp [isSelect, remaining], rfl, exits_same _ _ rfl⟩
  | terminate =>
    cases taken
    exact ⟨closed, by simp [isSelect, remaining], rfl, exits_same _ _ rfl⟩
  | interrupt =>
    cases taken
    exact ⟨closed, by simp [isSelect, remaining], rfl, exits_same _ _ rfl⟩
  | _ => cases outside

theorem select_reads (count : Nat) (same : event = .select count) (selecting : daemon.phase = .selecting)
    (quiet : daemon.hub.controlQueue = []) :
    next.phase = .waiting ∨ ∃ chunk, next.phase = .handingOff chunk := by
  subst same
  simp only [Daemon.step, if_pos selecting, Daemon.select, pick_closed daemon quiet closed,
    Daemon.onRead] at taken
  split at taken
  · cases taken
    exact .inl rfl
  · obtain ⟨_, taken⟩ := Option.ite_none_right_eq_some.mp taken
    obtain ⟨hub, _, rfl⟩ := Option.map_eq_some_iff.mp taken
    exact .inr ⟨_, rfl⟩

theorem uses_up (shut : event ≠ .slave true) : UsesUp daemon next event := by
  cases daemon_step_cases daemon next event taken with
  | outside kind input alive =>
    exact outside_uses_up daemon _ event closed taken shut kind
  | task own awaits moved =>
    obtain ⟨_, control, _⟩ := task_queues _ _ _ own moved
    refine ⟨closed, ?_, rfl, exits_same _ _ rfl⟩
    simp only [isSelect, remaining, control, commandsPut_append, List.length_append,
      Bool.false_eq_true, if_false]
    omega
  | command selecting queue moved =>
    obtain ⟨_, control, _⟩ := take_control_queues _ _ _ _ queue moved
    refine ⟨closed, ?_, by simp [served], exits_same _ _ rfl⟩
    simp only [isSelect, remaining, control, List.length_append, List.length_singleton, if_true]
    omega
  | read selecting quiet bound pushed =>
    obtain ⟨_, control, _⟩ := output_queues _ _ _ pushed
    refine ⟨closed, ?_, by simp [served], exits_looping _ _ rfl⟩
    simp only [isSelect, remaining, selecting, ← control, List.length_drop, LoopPhase.looping]
    simp
    omega
  | ended selecting quiet nothing shut =>
    refine ⟨closed, ?_, by simp [served], exits_looping _ _ rfl⟩
    simp only [isSelect, remaining, selecting, LoopPhase.looping]
    simp
    omega
  -- a pty that is always ready leaves no turn to the other branches
  | accept selecting quiet waiting accepted =>
    rcases select_reads daemon _ _ closed taken _ rfl selecting quiet with same | ⟨chunk, same⟩
    · cases selecting.symm.trans same
    · cases selecting.symm.trans same
  | push selecting quiet queue moved =>
    rcases select_reads daemon _ _ closed taken _ rfl selecting quiet with same | ⟨chunk, same⟩
    · cases same
    · cases same
  | signaled selecting quiet signal =>
    rcases select_reads daemon _ _ closed taken _ rfl selecting quiet with same | ⟨chunk, same⟩
    · cases same
    · cases same
  | handOff pending =>
    exact ⟨closed, by simp [isSelect, remaining, pending, LoopPhase.looping], rfl,
      exits_looping _ _ rfl⟩
  | ptyWrite writing bound =>
    exact ⟨closed, by simp [isSelect, remaining, writing, LoopPhase.looping], rfl,
      exits_looping _ _ rfl⟩
  | writeEnds writing ends =>
    exact ⟨closed, by simp [isSelect, remaining, writing, LoopPhase.looping], rfl,
      exits_looping _ _ rfl⟩
  | @reaped code waiting dead =>
    refine ⟨closed, by simp [isSelect, remaining, waiting, LoopPhase.looping], rfl, ?_⟩
    intro reason ends
    cases ends
    exact .inr ⟨code, rfl⟩
  | marked leaving logging =>
    exact ⟨closed, by simp [isSelect, remaining, leaving, LoopPhase.looping], rfl,
      exits_same _ _ (by rw [leaving]; rfl)⟩
  | unmarked leaving silent =>
    exact ⟨closed, by simp [isSelect, remaining, leaving, LoopPhase.looping], rfl,
      exits_same _ _ (by rw [leaving]; rfl)⟩
  | joined draining ended =>
    exact ⟨closed, by simp [isSelect, remaining, draining, LoopPhase.looping], rfl,
      exits_same _ _ (by rw [draining]; rfl)⟩
  | unlinked unlinking stopped =>
    cases stopped
    exact ⟨closed, by simp [isSelect, remaining, LoopPhase.looping]; omega, rfl,
      exits_same _ _ (by rw [unlinking]; rfl)⟩
  | writer moved => exact ⟨closed, by simp [isSelect, remaining], rfl, exits_same _ _ rfl⟩

end Counting

section Orphans

/-- A loop that waits for its log writer has one. -/
def Joins (daemon : Daemon) : Prop :=
  ∀ reason, daemon.phase = .draining reason → daemon.writer.thread ≠ .off

theorem joins_step (daemon next : Daemon) (event : DaemonEvent) (joins : Joins daemon)
    (taken : daemon.step event = some next) : Joins next := by
  intro reason draining
  cases daemon_step_cases daemon next event taken with
  | marked leaving logging =>
    intro off
    have off : daemon.writer.thread = .off := off
    simp [Daemon.logging, off] at logging
  | writer moved => exact (writer_works_off _ _ _ moved).2.1
  | outside kind input alive => exact joins reason draining
  | task own awaits moved => exact joins reason draining
  | command selecting queue moved => exact joins reason draining
  | accept selecting quiet waiting accepted => exact joins reason draining
  | _ => cases draining

theorem joins_run (start last : Daemon) (events : List DaemonEvent)
    (selecting : start.phase = .selecting) (ran : run Daemon.step start events = some last) :
    Joins last := by
  refine run_invariant Daemon.step Joins
    (fun state event next joins taken => joins_step state next event joins taken)
    start last events ?_ ran
  intro reason draining
  cases selecting.symm.trans draining

/-- What has come of the end of the child by the end of a run. -/
structure UsedUp (daemon : Daemon) (more : List DaemonEvent) (last : Daemon) : Prop where
  closed : last.pty.slaveOpen = false
  /-- Only new commands keep the loop going. -/
  bounded : more.countP isSelect + remaining last + (commandsPut daemon.enqueued).length ≤
    remaining daemon + (commandsPut last.enqueued).length
  /-- No connection is accepted and no push tried. -/
  noneServed : served last.taken = served daemon.taken
  /-- A signal is not noticed. -/
  exits : Exits daemon last

/-- What is sure from the moment the child is gone and nobody holds the slave. -/
structure WindsDown (daemon : Daemon) : Prop where
  /-- The daemon needs nobody to come to its end. -/
  returns : Reaches Daemon.step ofDaemon daemon Returned
  /-- Nobody can keep it from there. -/
  usesUp : ∀ last more, (∀ event ∈ more, event ≠ .slave true) →
    run Daemon.step daemon more = some last → UsedUp daemon more last

theorem exits_trans (daemon middle last : Daemon) (first : Exits daemon middle)
    (second : Exits middle last) : Exits daemon last := by
  intro reason ends
  rcases second reason ends with before | exited
  · exact first reason before
  · exact .inr exited

theorem used_up (daemon last : Daemon) (more : List DaemonEvent)
    (closed : daemon.pty.slaveOpen = false) (shut : ∀ event ∈ more, event ≠ .slave true)
    (ran : run Daemon.step daemon more = some last) : UsedUp daemon more last := by
  refine run_guarded_invariant Daemon.step (fun _ event => event ≠ .slave true) (UsedUp daemon) ?_
    [] more daemon last ⟨closed, by simp, rfl, exits_same _ _ rfl⟩
    (meets_of_forall Daemon.step (· ≠ .slave true) daemon more shut) ran
  intro past state event next used shut taken
  have uses := uses_up state next event used.closed taken shut
  refine ⟨uses.closed, ?_, uses.noneServed.trans used.noneServed,
    exits_trans daemon state next used.exits uses.exits⟩
  have before := used.bounded
  have here := uses.less
  rw [List.countP_append, List.countP_singleton]
  omega

/-- Whatever the daemon was doing when its child went away. -/
theorem orphan_winds_down (scrollback : Nat) (content : List UInt8) (logging : Option Nat)
    (start daemon : Daemon) (events : List DaemonEvent)
    (started : Daemon.start scrollback content logging = some start)
    (ran : run Daemon.step start events = some daemon) (dead : daemon.pty.alive = false)
    (closed : daemon.pty.slaveOpen = false) : WindsDown daemon := by
  have fansOut := fans_out_run scrollback content logging start daemon events started ran
  obtain ⟨hub, writer, _, _, rfl⟩ := start_cases scrollback content logging start started
  constructor
  · exact returns_orphan daemon scrollback _ dead closed fansOut.represents
      (joins_run _ daemon events rfl ran)
  · intro last more shut went
    exact used_up daemon last more closed shut went

theorem orphan_winds_down_idle :
    let gone : Daemon := { idle with
      pty := { output := [104, 105], slaveOpen := false, alive := false, input := [] } }
    run Daemon.step idle [.childWrites [104, 105], .slave false, .childExits] = some gone ∧
      WindsDown gone :=
  ⟨rfl, orphan_winds_down 8 [] none idle _ _ start_idle
    (show run Daemon.step idle [.childWrites [104, 105], .slave false, .childExits] = _ from rfl)
    rfl rfl⟩

end Orphans

end Hytch.WindingDown
