import Hytch.LogMatchesLive

/-!
A log that cannot be written holds up nobody. The loop hands its chunks to an unbounded channel,
and what the thread behind it does, or that it has died, is of no account before the loop has
been left and the thread is joined.
-/

namespace Hytch.SlowDisk

open FilePrograms DaemonRun Runs

/-- Of a thread only that there is one. -/
def threadWithout : WriterThread UInt8 → WriterThread UInt8
  | .off => .off
  | _ => .appending .panicked

/-- Of the log only what it has been sent. -/
def without (daemon : Daemon) : Daemon :=
  { daemon with
    writer :=
      { file := { content := [], cursor := 0 }
        thread := threadWithout daemon.writer.thread
        queue := daemon.appended ++ daemon.writer.queue }
    appended := [] }

def ofWriter : DaemonEvent → Bool
  | .writer _ => true
  | _ => false

/-- A daemon does not come to join its writer. -/
def BeforeJoin (event : DaemonEvent) : Prop := event ≠ .joined

variable (daemon : Daemon)

theorem thread_there (thread : WriterThread UInt8) (there : thread ≠ .off) :
    threadWithout thread = .appending .panicked := by
  cases thread with
  | off => exact absurd rfl there
  | _ => rfl

theorem without_logging : (without daemon).logging = daemon.logging := by
  simp only [Daemon.logging, without]
  cases daemon.writer.thread <;> rfl

theorem without_send (chunk : List UInt8) :
    (without daemon).writer.send chunk =
      (without { daemon with writer := daemon.writer.send chunk }).writer := by
  simp [without, LogWriter.send]

theorem without_select (count : Nat) :
    (without daemon).select count = (daemon.select count).map without := by
  have same : (without daemon).pick = daemon.pick := rfl
  have hub : (without daemon).hub = daemon.hub := rfl
  have pty : (without daemon).pty = daemon.pty := rfl
  have backlog : (without daemon).backlog = daemon.backlog := rfl
  unfold Daemon.select
  rw [same]
  cases daemon.pick with
  | none => rfl
  | some branch =>
    cases branch with
    | control =>
      simp only [Daemon.onControl, hub]
      split
      · rfl
      · rw [Option.map_map]
        rfl
    | read =>
      simp only [Daemon.onRead, hub, pty]
      split
      · rfl
      · split
        · rw [Option.map_map]
          rfl
        · rfl
    | accept =>
      simp only [Daemon.onAccept, hub, backlog]
      split
      · rfl
      · rw [Option.map_map]
        rfl
    | push =>
      simp only [Daemon.onPush, hub]
      split
      · rfl
      · rw [Option.map_map]
        rfl
    | sigterm => rfl
    | sigint => rfl

theorem without_step (event : DaemonEvent) (working : BeforeJoin event)
    (seen : ofWriter event = false) :
    (without daemon).step event = (daemon.step event).map without := by
  have hub : (without daemon).hub = daemon.hub := rfl
  have phase : (without daemon).phase = daemon.phase := rfl
  have pty : (without daemon).pty = daemon.pty := rfl
  have backlog : (without daemon).backlog = daemon.backlog := rfl
  cases event with
  | childWrites bytes =>
    simp only [Daemon.step, pty]
    split <;> rfl
  | slave isOpen => rfl
  | childExits => rfl
  | terminate => rfl
  | interrupt => rfl
  | connects id =>
    simp only [Daemon.step, hub, backlog]
    split <;> rfl
  | task event =>
    simp only [Daemon.step, hub, phase]
    split
    · rw [Option.map_map]
      rfl
    · rfl
  | select count =>
    simp only [Daemon.step, phase]
    split
    · exact without_select daemon count
    · rfl
  | handOff =>
    simp only [Daemon.step, phase, without_logging, without_send]
    split
    · split <;> rfl
    · rfl
  | ptyWrite count =>
    simp only [Daemon.step, phase, pty]
    split
    · split <;> rfl
    · rfl
  | writeEnds outcome =>
    simp only [Daemon.step, phase]
    split
    · split <;> rfl
    · rfl
  | reaped code =>
    simp only [Daemon.step, phase, pty]
    split <;> rfl
  | shutDown elapsed =>
    simp only [Daemon.step, phase, without_logging, without_send]
    split
    · split <;> rfl
    · rfl
  | joined => exact absurd rfl working
  | unlinked =>
    simp only [Daemon.step, hub, phase]
    split
    · rw [Option.map_map]
      rfl
    · rfl
  | writer event => cases seen

theorem unseen_step (next : Daemon) (event : DaemonEvent) (hidden : ofWriter event = true)
    (taken : daemon.step event = some next) : without next = without daemon := by
  cases event with
  | writer event =>
    obtain ⟨writer, moved, rfl⟩ := Option.map_eq_some_iff.mp taken
    obtain ⟨sent, after, before⟩ := writer_works_off daemon.writer writer event moved
    simp only [without]
    rw [thread_there writer.thread after, thread_there daemon.writer.thread before,
      List.append_assoc, sent]
  | _ => cases hidden

/-- Two daemons that differ in how far the log has been written alone. -/
structure Unaffected (last other : Daemon) : Prop where
  hub : other.hub = last.hub
  phase : other.phase = last.phase
  pty : other.pty = last.pty
  backlog : other.backlog = last.backlog
  taken : other.taken = last.taken
  enqueued : other.enqueued = last.enqueued
  written : other.written = last.written
  sent : other.appended ++ other.writer.queue = last.appended ++ last.writer.queue

/-- However far the thread gets, everyone else gets as far with a thread that does nothing. -/
theorem slow_disk_unnoticed (last : Daemon) (events : List DaemonEvent)
    (ran : run Daemon.step daemon events = some last)
    (working : ∀ event ∈ events, BeforeJoin event) :
    ∃ other, run Daemon.step daemon (events.filter fun event => !ofWriter event) = some other ∧
      Unaffected last other := by
  have erased := run_erased Daemon.step without ofWriter BeforeJoin
    (fun state event working seen => without_step state event working seen) (fun _ _ => True)
    (fun state event next hidden _ taken => unseen_step state next event hidden taken)
    daemon last events working
    (meets_of_forall Daemon.step (fun event => ofWriter event = true → True) daemon events
      fun _ _ _ => trivial) ran
  obtain ⟨other, went, same⟩ := Option.map_eq_some_iff.mp erased
  have writer : (without other).writer = (without last).writer := congrArg Daemon.writer same
  refine ⟨other, went, ?_⟩
  constructor
  · exact (congrArg Daemon.hub same :)
  · exact (congrArg Daemon.phase same :)
  · exact (congrArg Daemon.pty same :)
  · exact (congrArg Daemon.backlog same :)
  · exact (congrArg Daemon.taken same :)
  · exact (congrArg Daemon.enqueued same :)
  · exact (congrArg Daemon.written same :)
  · exact (congrArg LogWriter.queue writer :)

/-- Two reads of output with a thread that has got half way through the first. -/
def halfWritten : List DaemonEvent :=
  [.childWrites [0x61, 0x62], .select 2, .handOff, .writer .receive, .writer (.systemCall 1),
    .childWrites [0x63], .select 1, .handOff]

theorem slow_disk_unnoticed_half : ∃ last,
    run Daemon.step LogMatchesLive.logging halfWritten = some last ∧
      last.writer.file.content = [0x61] ∧ last.hub.fanout.tx.sent = [[0x61, 0x62], [0x63]] ∧
      ∃ other, run Daemon.step LogMatchesLive.logging
          (halfWritten.filter fun event => !ofWriter event) = some other ∧ Unaffected last other := by
  refine ⟨_, rfl, rfl, rfl, ?_⟩
  apply slow_disk_unnoticed LogMatchesLive.logging _ halfWritten rfl
  simp [halfWritten, BeforeJoin]

end Hytch.SlowDisk
