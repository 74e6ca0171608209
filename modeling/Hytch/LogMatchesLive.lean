import Hytch.LogHistory
import Hytch.DaemonRun

/-!
The two sinks of the pty output. Every chunk goes to the fanout at once and to
the log through an unbounded channel and another thread. `InStep` compares them
in every state of the loop, `Settled` says what the log file holds once the
calls of that thread have returned; the end of `run` waits for exactly that.
-/

namespace Hytch.LogMatchesLive

open FilePrograms SafeTrim LogHistory HandleClient Attachments DaemonRun Runs

/-- The log after its chunks were appended one by one. -/
def loggedBytes (cap : Nat) : List UInt8 → List (List UInt8) → List UInt8
  | content, [] => content
  | content, chunk :: rest => loggedBytes cap (rotated cap (content ++ chunk)) rest

theorem logged_bytes_append (cap : Nat) (content last : List UInt8) (chunks : List (List UInt8)) :
    loggedBytes cap content (chunks ++ [last]) =
      rotated cap (loggedBytes cap content chunks ++ last) := by
  induction chunks generalizing content with
  | nil => rfl
  | cons chunk rest ih => exact ih _

/-- The log holds `content` once the call in progress has returned. -/
inductive Settled (cap : Nat) (writer : LogWriter UInt8) (content : List UInt8) : Prop where
  | waiting {log : SessionLog} (thread : writer.thread = .waiting log)
      (holds : log.Holds writer.file content) (same : log.maxSize = cap) : Settled cap writer content
  | appending {log : SessionLog} {call : Program UInt8 IoError (Except IoError Unit × SessionLog)}
      (thread : writer.thread = .appending call)
      (finishes : call.exec writer.file = some ((.ok (), log), atEnd content))
      (holds : log.Holds (atEnd content) content) (same : log.maxSize = cap) :
      Settled cap writer content

theorem settled_waiting (cap : Nat) (writer : LogWriter UInt8) (content : List UInt8)
    (log : SessionLog) (settled : Settled cap writer content) (thread : writer.thread = .waiting log) :
    log.Holds writer.file content ∧ log.maxSize = cap := by
  cases settled with
  | waiting also holds same =>
    rw [thread] at also
    cases also
    exact ⟨holds, same⟩
  | appending also finishes holds same =>
    rw [thread] at also
    cases also

theorem settled_appending (cap : Nat) (writer : LogWriter UInt8) (content : List UInt8)
    (call : Program UInt8 IoError (Except IoError Unit × SessionLog))
    (settled : Settled cap writer content) (thread : writer.thread = .appending call) :
    ∃ log, call.exec writer.file = some ((.ok (), log), atEnd content) ∧
      log.Holds (atEnd content) content ∧ log.maxSize = cap := by
  cases settled with
  | waiting also holds same =>
    rw [thread] at also
    cases also
  | appending also finishes holds same =>
    rw [thread] at also
    cases also
    exact ⟨_, finishes, holds, same⟩

theorem settled_step (cap : Nat) (writer next : LogWriter UInt8) (event : WriterEvent)
    (content : List UInt8) (settled : Settled cap writer content)
    (completes : writer.Completes event) (taken : writer.step id event = some next) :
    Settled cap next (loggedBytes cap content (received writer event)) ∧
      received writer event ++ next.queue = writer.queue := by
  cases event with
  | receive =>
    simp only [LogWriter.step] at taken
    split at taken
    · rename_i log chunk rest thread queue
      cases taken
      obtain ⟨holds, same⟩ := settled_waiting cap writer content log settled thread
      obtain ⟨count, after, drops, ran, kept, held⟩ := log.append_exec id writer.file content chunk holds
      rw [same] at drops kept
      have reached := rotated_eq cap count (content ++ chunk) drops
      simp only [received, queue, List.take_succ_cons, List.take_zero]
      refine ⟨.appending rfl ?_ ?_ kept, rfl⟩
      · rw [loggedBytes, loggedBytes, reached]
        exact ran
      · rw [loggedBytes, loggedBytes, reached]
        exact held
    · cases taken
  | systemCall count =>
    simp only [LogWriter.step] at taken
    split at taken
    · rename_i call thread
      obtain ⟨⟨after, file⟩, moved, rfl⟩ := Option.map_eq_some_iff.mp taken
      obtain ⟨log, finishes, holds, same⟩ := settled_appending cap writer content call settled thread
      have complete : ReadsAs (fun available count => count = available) call writer.file count := by
        simpa only [LogWriter.Completes, thread] using completes
      have ran := exec_step call after writer.file file count complete moved
      exact ⟨.appending rfl (ran.trans finishes) holds same, rfl⟩
    · cases taken
  | writeFails fault => exact absurd completes id
  | returned =>
    simp only [LogWriter.step] at taken
    split at taken
    · rename_i result log thread
      cases taken
      obtain ⟨after, finishes, holds, same⟩ := settled_appending cap writer content _ settled thread
      simp only [Program.exec, Option.some.injEq, Prod.mk.injEq] at finishes
      obtain ⟨⟨_, rfl⟩, file⟩ := finishes
      refine ⟨.waiting rfl ?_ same, rfl⟩
      simp only [received, loggedBytes, file]
      exact holds
    · cases taken

theorem settled_on (cap : Nat) (writer : LogWriter UInt8) (content : List UInt8)
    (settled : Settled cap writer content) : writer.thread ≠ .off := by
  cases settled with
  | waiting thread holds same => simp [thread]
  | appending thread finishes holds same => simp [thread]

theorem settled_send (cap : Nat) (writer : LogWriter UInt8) (content chunk : List UInt8)
    (settled : Settled cap writer content) : Settled cap (writer.send chunk) content := by
  cases settled with
  | waiting thread holds same => exact .waiting thread holds same
  | appending thread finishes holds same => exact .appending thread finishes holds same

theorem settled_ended (cap : Nat) (daemon : Daemon) (content : List UInt8)
    (settled : Settled cap daemon.writer content) (ended : daemon.writerEnded = true) :
    daemon.writer.queue = [] ∧ ∃ log, daemon.writer.thread = .waiting log := by
  cases settled with
  | @waiting log thread holds same =>
    refine ⟨?_, log, thread⟩
    cases queue : daemon.writer.queue with
    | nil => rfl
    | cons chunk rest => simp [Daemon.writerEnded, thread, queue] at ended
  | @appending log call thread finishes holds same =>
    cases call with
    | panicked => cases finishes
    | done result => simp [Daemon.writerEnded, thread] at ended
    | call operation rest => simp [Daemon.writerEnded, thread] at ended

/-- The step does not cut a file operation of the log writer short. -/
def FilesComplete (daemon : Daemon) : DaemonEvent → Prop
  | .writer event => daemon.writer.Completes event
  | _ => True

/-- The chunks appended, and those on their way to the log, against the chunks
pushed to the fanout. -/
def InStep (phase : LoopPhase) (appended : List (List UInt8)) (writer : LogWriter UInt8)
    (sent : List (List UInt8)) : Prop :=
  match phase with
  | .handingOff chunk => appended ++ writer.queue ++ [chunk] = sent
  | .draining _ => ∃ elapsed, appended ++ writer.queue = sent ++ [marker elapsed]
  | .unlinking _ => ∃ elapsed log, writer.queue = [] ∧ writer.thread = .waiting log ∧
      appended = sent ++ [marker elapsed]
  | .returned _ => ∃ elapsed log, writer.queue = [] ∧ writer.thread = .waiting log ∧
      appended = sent ++ [marker elapsed]
  | _ => appended ++ writer.queue = sent

structure Recorded (cap : Nat) (content : List UInt8) (daemon : Daemon) : Prop where
  settled : Settled cap daemon.writer (loggedBytes cap content daemon.appended)
  inStep : InStep daemon.phase daemon.appended daemon.writer daemon.hub.fanout.tx.sent

theorem logged_bytes_split (cap : Nat) (content : List UInt8) (first second : List (List UInt8)) :
    loggedBytes cap content (first ++ second) = loggedBytes cap (loggedBytes cap content first) second := by
  induction first generalizing content with
  | nil => rfl
  | cons chunk rest ih => exact ih _

/-- A step of the log writer moves a chunk on, and nothing once it is idle for good. -/
theorem in_step_writer (phase : LoopPhase) (appended : List (List UInt8)) (writer next : LogWriter UInt8)
    (event : WriterEvent) (sent : List (List UInt8)) (inStep : InStep phase appended writer sent)
    (order : received writer event ++ next.queue = writer.queue)
    (taken : writer.step id event = some next) :
    InStep phase (appended ++ received writer event) next sent := by
  have moved : appended ++ received writer event ++ next.queue = appended ++ writer.queue := by
    rw [List.append_assoc, order]
  have nothing_left (log : SessionLog) (empty : writer.queue = []) (idle : writer.thread = .waiting log) :
      False := by
    cases event <;> simp [LogWriter.step, empty, idle] at taken
  cases phase with
  | handingOff chunk =>
    simp only [InStep] at inStep ⊢
    rw [moved, inStep]
  | draining reason =>
    obtain ⟨elapsed, marked⟩ := inStep
    exact ⟨elapsed, moved.trans marked⟩
  | unlinking reason =>
    obtain ⟨elapsed, log, empty, idle, _⟩ := inStep
    exact (nothing_left log empty idle).elim
  | returned reason =>
    obtain ⟨elapsed, log, empty, idle, _⟩ := inStep
    exact (nothing_left log empty idle).elim
  | _ => exact moved.trans inStep

theorem recorded_step (cap : Nat) (content : List UInt8) (daemon next : Daemon) (event : DaemonEvent)
    (recorded : Recorded cap content daemon) (complete : FilesComplete daemon event)
    (taken : daemon.step event = some next) : Recorded cap content next := by
  obtain ⟨settled, inStep⟩ := recorded
  have logging : daemon.logging = true := by
    have on := settled_on cap daemon.writer _ settled
    unfold Daemon.logging
    split
    · contradiction
    · rfl
  have quiet (event : HubEvent UInt8) (hub : Hub UInt8) (other : ∀ chunk, event ≠ .output chunk)
      (moved : daemon.hub.step event = some hub) : hub.fanout = daemon.hub.fanout :=
    hub_step_quiet daemon.hub hub event other moved
  cases daemon_step_cases daemon next event taken with
  | outside kind input alive => exact ⟨settled, inStep⟩
  | @task event hub own awaits moved =>
    refine ⟨settled, ?_⟩
    rw [quiet event hub (by rintro chunk rfl; cases own) moved]
    exact inStep
  | command selecting queue moved =>
    refine ⟨settled, ?_⟩
    rw [quiet _ _ (by simp) moved]
    exact inStep
  | @read count hub selecting _ bound pushed =>
    refine ⟨settled, ?_⟩
    rw [selecting] at inStep
    simp only [InStep] at inStep ⊢
    rw [inStep, hub_step_output daemon.hub hub _ pushed]
  | ended selecting _ nothing closed =>
    rw [selecting] at inStep
    exact ⟨settled, inStep⟩
  | accept selecting _ waiting accepted =>
    refine ⟨settled, ?_⟩
    rw [quiet _ _ (by simp) accepted]
    exact inStep
  | push selecting _ queue moved =>
    rw [selecting] at inStep
    refine ⟨settled, ?_⟩
    rw [quiet _ _ (by simp) moved]
    exact inStep
  | signaled selecting _ signal =>
    rw [selecting] at inStep
    exact ⟨settled, inStep⟩
  | @handOff chunk pending =>
    rw [pending] at inStep
    rw [if_pos logging]
    refine ⟨settled_send cap daemon.writer _ chunk settled, ?_⟩
    simp only [InStep, LogWriter.send] at inStep ⊢
    rw [← List.append_assoc, inStep]
  | ptyWrite writing bound =>
    rw [writing] at inStep
    exact ⟨settled, inStep⟩
  | writeEnds writing ends =>
    rw [writing] at inStep
    exact ⟨settled, inStep⟩
  | reaped waiting dead =>
    rw [waiting] at inStep
    exact ⟨settled, inStep⟩
  | @marked elapsed reason leaving _ =>
    rw [leaving] at inStep
    refine ⟨settled_send cap daemon.writer _ _ settled, elapsed, ?_⟩
    simp only [InStep, LogWriter.send] at inStep ⊢
    rw [← List.append_assoc, inStep]
  | unmarked leaving silent =>
    rw [logging] at silent
    cases silent
  | joined draining ended =>
    rw [draining] at inStep
    obtain ⟨elapsed, order⟩ := inStep
    obtain ⟨empty, log, idle⟩ := settled_ended cap daemon _ settled ended
    rw [empty, List.append_nil] at order
    exact ⟨settled, elapsed, log, empty, idle, order⟩
  | unlinked unlinking stopped =>
    rw [unlinking] at inStep
    cases stopped
    exact ⟨settled, inStep⟩
  | @writer event writer moved =>
    obtain ⟨after, order⟩ := settled_step cap daemon.writer writer event _ settled complete moved
    refine ⟨?_, in_step_writer _ _ _ _ event _ inStep order moved⟩
    rwa [logged_bytes_split]

theorem marker_starts (elapsed : Nat) : ∃ rest, marker elapsed = 0x0d :: rest := by
  have front : utf8 "\r\n[hytch: session ended after " =
      0x0d :: (utf8 "\r\n[hytch: session ended after ").tail := by decide +kernel
  have split : marker elapsed = utf8 "\r\n[hytch: session ended after " ++
      (utf8 (formatAge elapsed) ++ utf8 "]\r\n") := by
    simp [marker, utf8]
  exact ⟨_, by rw [split, front, List.cons_append]⟩

theorem recorded_start (scrollback cap : Nat) (content : List UInt8) (start : Daemon)
    (started : Daemon.start scrollback content (some cap) = some start) :
    ∃ opened, Recorded cap opened start := by
  obtain ⟨hub, writer, created, logging, rfl⟩ := start_cases scrollback content (some cap) start started
  obtain ⟨count, log, _, ran, same, holds⟩ := SessionLog.open_exec id cap
    ({ content := content, cursor := 0 } : File UInt8)
  simp only [LogWriter.start, ran, Option.some.injEq] at logging
  subst logging
  refine ⟨content.drop count, .waiting rfl holds same, ?_⟩
  obtain ⟨fanout, fresh, rfl⟩ := hub_start_cases _ _ _ created
  simp only [InStep, Fanout.new_unsent scrollback broadcastCapacity fanout fresh]
  rfl

/-- When `run` has returned, the log was given the chunks of the fanout, in
their order, then the marker, and every append has returned. -/
theorem log_matches_live (scrollback cap : Nat) (content : List UInt8) (start last : Daemon)
    (events : List DaemonEvent) (reason : ShutdownReason)
    (started : Daemon.start scrollback content (some cap) = some start)
    (complete : Meets Daemon.step FilesComplete start events)
    (ran : run Daemon.step start events = some last) (returned : last.phase = .returned reason) :
    ∃ elapsed log, last.appended = last.hub.fanout.tx.sent ++ [marker elapsed] ∧
      last.writer.queue = [] ∧ last.writer.thread = .waiting log ∧
      ((marker elapsed).length ≤ cap → marker elapsed <:+ last.writer.file.content) := by
  obtain ⟨opened, initial⟩ := recorded_start scrollback cap content start started
  have recorded := run_guarded_invariant Daemon.step FilesComplete
    (fun _ state => Recorded cap opened state)
    (fun _ state event next kept allowed taken =>
      recorded_step cap opened state next event kept allowed taken)
    [] events start last initial complete ran
  obtain ⟨settled, inStep⟩ := recorded
  rw [returned] at inStep
  obtain ⟨elapsed, log, empty, idle, order⟩ := inStep
  refine ⟨elapsed, log, order, empty, idle, ?_⟩
  intro fits
  have shown : last.writer.file.content = loggedBytes cap opened last.appended := by
    cases settled with
    | waiting thread holds same =>
      rw [holds.file]
      rfl
    | appending thread finishes holds same =>
      rw [idle] at thread
      cases thread
  rw [shown, order, logged_bytes_append]
  apply rotated_keeps_end cap _ _ fits
  intro byte first
  obtain ⟨rest, starts⟩ := marker_starts elapsed
  rw [starts] at first
  cases first
  decide

/-- The idle daemon with an empty log capped at 64 bytes. -/
def logging : Daemon :=
  { idle with
    writer := { file := atEnd [], thread := .waiting { maxSize := 64, currentSize := 0 }, queue := [] } }

theorem start_logging : Daemon.start 8 [] (some 64) = some logging := by
  have started := start_idle
  simp only [Daemon.start, Option.bind_eq_bind, Option.bind_eq_some_iff, Option.some.injEq] at started ⊢
  obtain ⟨hub, created, writer, _, same⟩ := started
  refine ⟨hub, created, _, rfl, ?_⟩
  have hubs : hub = idle.hub := congrArg Daemon.hub same
  rw [hubs]
  rfl

/-- One byte of output, then SIGTERM. -/
def signaledRun : List DaemonEvent :=
  [.childWrites [0x61], .select 1, .handOff, .writer .receive, .writer (.systemCall 1),
    .writer (.systemCall 0), .writer .returned, .terminate, .select 0, .shutDown 5, .writer .receive,
    .writer (.systemCall 35), .writer (.systemCall 0), .writer .returned, .joined, .unlinked]

theorem log_matches_live_signaled : ∃ last, Daemon.start 8 [] (some 64) = some logging ∧
    run Daemon.step logging signaledRun = some last ∧ last.phase = .returned .daemonSignaled ∧
      ∃ elapsed log, last.appended = last.hub.fanout.tx.sent ++ [marker elapsed] ∧
        last.writer.queue = [] ∧ last.writer.thread = .waiting log ∧
        ((marker elapsed).length ≤ 64 → marker elapsed <:+ last.writer.file.content) := by
  refine ⟨_, start_logging, rfl, rfl, ?_⟩
  refine log_matches_live 8 64 [] logging _ signaledRun .daemonSignaled start_logging ?_ rfl rfl
  -- one output chunk appended, then the signal and the marker
  apply meets_cons _ _ _ _ _ _ rfl trivial
  apply meets_cons _ _ _ _ _ _ rfl trivial
  apply meets_cons _ _ _ _ _ _ rfl trivial
  apply meets_cons _ _ _ _ _ _ rfl trivial
  apply meets_cons _ _ _ _ _ _ rfl trivial
  apply meets_cons _ _ _ _ _ _ rfl trivial
  apply meets_cons _ _ _ _ _ _ rfl trivial
  apply meets_cons _ _ _ _ _ _ rfl trivial
  apply meets_cons _ _ _ _ _ _ rfl trivial
  apply meets_cons _ _ _ _ _ _ rfl trivial
  apply meets_cons _ _ _ _ _ _ rfl trivial
  apply meets_cons _ _ _ _ _ _ rfl trivial
  apply meets_cons _ _ _ _ _ _ rfl trivial
  apply meets_cons _ _ _ _ _ _ rfl trivial
  apply meets_cons _ _ _ _ _ _ rfl trivial
  exact meets_cons _ _ _ _ _ _ rfl trivial trivial

end Hytch.LogMatchesLive
