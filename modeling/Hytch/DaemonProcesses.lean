import Hytch.Connections
import Hytch.DaemonLifecycle
import Hytch.SlowDisk
import Hytch.WindingDown

/-!
The daemon processes of one name, each with its child and its clients, on the socket path and
the log file they have in common. A second run of the name opens and trims the log before its
bind fails. Seen from outside this is the machine of the life cycle, and seen from inside, but
for the log, each of them is a daemon that runs alone: what holds of either holds here.
-/

namespace Hytch.DaemonProcesses

open FilePrograms DaemonLifecycle HandleClient DaemonRun Connections Runs SlowDisk WindingDown

/-- `run_daemon_foreground`; a process exits with eight bits of it. -/
def exitCode : ShutdownReason → Nat
  | .childExited code => (code.getD 0 % 256).toNat
  | .daemonSignaled => 0

def returnedWith : LoopPhase → Option ShutdownReason
  | .returned reason => some reason
  | _ => none

def lifePhase : LoopPhase → Phase
  | .selecting => .serving
  | .handingOff _ => .serving
  | .writing _ _ => .serving
  | .waiting => .serving
  | .leaving reason => .closing (exitCode reason)
  | .draining reason => .closing (exitCode reason)
  | .unlinking reason => .closing (exitCode reason)
  | .returned reason => .exited (.code (exitCode reason))

inductive Process where
  | creatingDir
  | spawningProgram
  | openingLog
  /-- In `SessionLog::open`, one system call at a time. -/
  | rotating (call : FileTask UInt8 IoError SessionLog) (cursor : Nat)
  | binding (thread : WriterThread UInt8) (cursor : Nat)
  | running (system : System) (on : returnedWith system.daemon.phase = none)
  | exited (status : ExitStatus)
  | panicked

namespace Process

/-- To the life cycle a panic is a crash. -/
def phase : Process → Phase
  | .creatingDir => .creatingDir
  | .spawningProgram => .spawningProgram
  | .openingLog => .openingLog
  | .rotating _ _ => .openingLog
  | .binding _ _ => .binding
  | .running system _ => lifePhase system.daemon.phase
  | .exited status => .exited status
  | .panicked => .exited .killed

def ended : Process → Bool
  | .exited _ => true
  | .panicked => true
  | _ => false

/-- `main` exits as soon as `run` has returned. -/
def ofSystem (system : System) : Process :=
  match on : returnedWith system.daemon.phase with
  | none => .running system on
  | some reason => .exited (.code (exitCode reason))

/-- What the loop begins with; the writer has been started before the bind. -/
def begin (scrollback : Nat) (writer : LogWriter UInt8) : Option Daemon :=
  (Daemon.start scrollback [] none).map fun daemon => { daemon with writer := writer }

/-- The next step of `run` up to the bind, beside the system calls on the log; `?` ends the
process with code 1. `scrollback` and `logging` are what the daemon is given. -/
def startUp (pid : Nat) (node : Node) (log : List UInt8) (succeeds : Bool) (scrollback : Nat)
    (logging : Option Nat) : Process → Option (Process × Node)
  | .creatingDir => some (if succeeds then .spawningProgram else .exited (.code 1), node)
  | .spawningProgram => some (if succeeds then .openingLog else .exited (.code 1), node)
  | .openingLog =>
      match logging with
      | none => some (.binding .off 0, node)
      | some maxSize =>
          some (if succeeds then .rotating (SessionLog.openLog id maxSize) 0 else .exited (.code 1), node)
  | .rotating (.done (.ok log)) cursor => some (.binding (.waiting log) cursor, node)
  | .rotating (.done (.error _)) _ => some (.exited (.code 1), node)
  | .rotating .panicked _ => some (.panicked, node)
  | .binding thread cursor =>
      if succeeds ∧ node = .absent then
        (begin scrollback { file := { content := log, cursor := cursor }, thread := thread, queue := [] }).map
          fun daemon => (ofSystem (System.start daemon), .socket pid)
      else some (.exited (.code 1), node)
  | _ => none

end Process

structure Processes where
  node : Node
  /-- What is in the log file of the name. -/
  log : List UInt8
  processes : Nat → Option Process

inductive ProcessEvent where
  | launch (pid : Nat)
  | startUp (pid : Nat) (succeeds : Bool) (scrollback : Nat) (logging : Option Nat)
  /-- One system call of `SessionLog::open`. -/
  | systemCall (pid count : Nat)
  | writeFails (pid : Nat) (fault : IoError)
  | steps (pid : Nat) (event : SystemEvent)
  | crash (pid : Nat)
  | reboot

namespace Processes

def initial (log : List UInt8) : Processes :=
  { node := .absent, log := log, processes := fun _ => none }

def set (world : Processes) (pid : Nat) (process : Process) (node : Node) (log : List UInt8) :
    Processes :=
  { node := node, log := log, processes := Function.update world.processes pid (some process) }

/-- A running daemon and its writer find in the file what has been put there since. -/
def seen (world : Processes) (system : System) : System :=
  { system with daemon := { system.daemon with writer := { system.daemon.writer with
      file := { system.daemon.writer.file with content := world.log } } } }

def step (world : Processes) : ProcessEvent → Option Processes
  | .launch pid =>
      match world.processes pid with
      | none => some (world.set pid .creatingDir world.node world.log)
      | some _ => none
  | .startUp pid succeeds scrollback logging =>
      (world.processes pid).bind fun process =>
        (process.startUp pid world.node world.log succeeds scrollback logging).map fun (after, node) =>
          world.set pid after node world.log
  | .systemCall pid count =>
      match world.processes pid with
      | some (.rotating call cursor) =>
          (call.step { content := world.log, cursor := cursor } count).map fun (call, file) =>
            world.set pid (.rotating call file.cursor) world.node file.content
      | _ => none
  | .writeFails pid fault =>
      match world.processes pid with
      | some (.rotating call cursor) =>
          (call.fail fault).map fun call =>
            world.set pid (.rotating call cursor) world.node world.log
      | _ => none
  | .steps pid event =>
      match world.processes pid with
      | some (.running system _) =>
          ((world.seen system).step event).map fun next =>
            -- the last thing `run` does is `remove_file`
            let node := if returnedWith next.daemon.phase = none then world.node else .absent
            world.set pid (Process.ofSystem next) node next.daemon.writer.file.content
      | _ => none
  | .crash pid =>
      (world.processes pid).bind fun process =>
        if process.ended then none
        else some (world.set pid (.exited .killed) world.node world.log)
  -- socket and log are on disk
  | .reboot => some { world with processes := fun _ => none }

/-- The life cycle, without what is inside the processes. -/
def machine (world : Processes) : Machine :=
  { node := world.node, daemons := Option.map Process.phase ∘ world.processes }

end Processes

/-- But for how far its log has been written the daemon has got where it is by its own steps. -/
def RunsAlone (system : System) : Prop :=
  ∃ scrollback logging daemon events own,
    Daemon.start scrollback [] logging = some daemon ∧
      run System.step (System.start daemon) events = some own ∧
      own.wire = system.wire ∧ Unaffected system.daemon own.daemon

/-- What may be relied on among several daemons of one name. -/
structure Composed (world : Processes) : Prop where
  lifeCycle : ∃ actions, run Machine.step Machine.initial actions = some world.machine
  alone : ∀ pid system on, world.processes pid = some (.running system on) → RunsAlone system
  owner : ∀ pid system on, world.processes pid = some (.running system on) →
    world.node = .socket pid

section Phases

theorem phase_of_system (system : System) :
    (Process.ofSystem system).phase = lifePhase system.daemon.phase := by
  unfold Process.ofSystem
  split
  · rfl
  · rename_i reason ceased
    cases phase : system.daemon.phase <;> rw [phase] at ceased <;> cases ceased
    rfl

inductive LifeStep (before after : LoopPhase) : Prop where
  | same (phase : lifePhase after = lifePhase before) (on : returnedWith after = none) :
      LifeStep before after
  | leaves {code : Nat} (serving : lifePhase before = .serving) (closing : lifePhase after = .closing code)
      (on : returnedWith after = none) : LifeStep before after
  | unlinks {code : Nat} (closing : lifePhase before = .closing code)
      (exited : lifePhase after = .exited (.code code)) (ceased : returnedWith after ≠ none) :
      LifeStep before after

theorem life_step (daemon next : Daemon) (event : DaemonEvent)
    (on : returnedWith daemon.phase = none) (taken : daemon.step event = some next) :
    LifeStep daemon.phase next.phase := by
  cases daemon_step_cases daemon next event taken with
  | outside kind input alive => exact .same rfl on
  | task own awaits moved => exact .same rfl on
  | writer moved => exact .same rfl on
  | command selecting queue moved => exact .same rfl on
  | accept selecting quiet waiting accepted => exact .same rfl on
  | read selecting quiet bound pushed => exact .same (by rw [selecting]; rfl) rfl
  | ended selecting quiet nothing closed => exact .same (by rw [selecting]; rfl) rfl
  | push selecting quiet queue moved => exact .same (by rw [selecting]; rfl) rfl
  | handOff pending => exact .same (by rw [pending]; rfl) rfl
  | ptyWrite writing bound => exact .same (by rw [writing]; rfl) rfl
  | writeEnds writing ends => exact .same (by rw [writing]; rfl) rfl
  | signaled selecting quiet signal => exact .leaves (by rw [selecting]; rfl) rfl rfl
  | reaped waiting dead => exact .leaves (by rw [waiting]; rfl) rfl rfl
  | marked leaving logging => exact .same (by rw [leaving]; rfl) rfl
  | unmarked leaving silent => exact .same (by rw [leaving]; rfl) rfl
  | joined draining ended => exact .same (by rw [draining]; rfl) rfl
  | unlinked unlinking stopped => exact .unlinks (by rw [unlinking]; rfl) rfl (Option.some_ne_none _)

theorem life_step_system (system next : System) (event : SystemEvent)
    (on : returnedWith system.daemon.phase = none) (taken : system.step event = some next) :
    LifeStep system.daemon.phase next.daemon.phase := by
  rcases system_moves system next event taken with same | ⟨moved, stepped⟩
  · exact .same (by rw [same]) (by rw [same]; exact on)
  · exact life_step system.daemon next.daemon moved on stepped

end Phases

section Steps

variable (world next : Processes) (event : ProcessEvent)

inductive ProcessStep (world : Processes) : ProcessEvent → Processes → Prop where
  | launch {pid : Nat} (fresh : world.processes pid = none) :
      ProcessStep world (.launch pid) (world.set pid .creatingDir world.node world.log)
  | startUp {pid scrollback : Nat} {succeeds : Bool} {logging : Option Nat} {process after : Process}
      {node : Node} (known : world.processes pid = some process)
      (took : process.startUp pid world.node world.log succeeds scrollback logging = some (after, node)) :
      ProcessStep world (.startUp pid succeeds scrollback logging) (world.set pid after node world.log)
  | rotates {pid cursor : Nat} {event : ProcessEvent} {call : FileTask UInt8 IoError SessionLog}
      {later : FileTask UInt8 IoError SessionLog} (file : File UInt8)
      (known : world.processes pid = some (.rotating call cursor)) :
      ProcessStep world event (world.set pid (.rotating later file.cursor) world.node file.content)
  | steps {pid : Nat} {event : SystemEvent} {system next : System}
      {on : returnedWith system.daemon.phase = none}
      (known : world.processes pid = some (.running system on))
      (moved : (world.seen system).step event = some next) :
      ProcessStep world (.steps pid event) (world.set pid (Process.ofSystem next)
        (if returnedWith next.daemon.phase = none then world.node else .absent)
        next.daemon.writer.file.content)
  | crash {pid : Nat} {process : Process} (known : world.processes pid = some process)
      (lives : process.ended = false) :
      ProcessStep world (.crash pid) (world.set pid (.exited .killed) world.node world.log)
  | reboot : ProcessStep world .reboot { world with processes := fun _ => none }

theorem process_step_cases (taken : world.step event = some next) : ProcessStep world event next := by
  cases event with
  | launch pid =>
    simp only [Processes.step] at taken
    split at taken
    · rename_i fresh
      cases taken
      exact .launch fresh
    · cases taken
  | startUp pid succeeds scrollback logging =>
    obtain ⟨process, known, taken⟩ := Option.bind_eq_some_iff.mp taken
    obtain ⟨⟨after, node⟩, took, rfl⟩ := Option.map_eq_some_iff.mp taken
    exact .startUp known took
  | systemCall pid count =>
    simp only [Processes.step] at taken
    split at taken
    · rename_i call cursor known
      obtain ⟨⟨later, file⟩, moved, rfl⟩ := Option.map_eq_some_iff.mp taken
      exact .rotates file known
    · cases taken
  | writeFails pid fault =>
    simp only [Processes.step] at taken
    split at taken
    · rename_i call cursor known
      obtain ⟨later, failed, rfl⟩ := Option.map_eq_some_iff.mp taken
      exact .rotates { content := world.log, cursor := cursor } known
    · cases taken
  | steps pid event =>
    simp only [Processes.step] at taken
    split at taken
    · rename_i system on known
      obtain ⟨after, moved, rfl⟩ := Option.map_eq_some_iff.mp taken
      exact .steps known moved
    · cases taken
  | crash pid =>
    obtain ⟨process, known, taken⟩ := Option.bind_eq_some_iff.mp taken
    split at taken
    · cases taken
    · rename_i lives
      cases taken
      exact .crash known (Bool.eq_false_iff.mpr lives)
  | reboot =>
    cases taken
    exact .reboot

theorem living_phase (process : Process) (lives : process.ended = false) (status : ExitStatus) :
    process.phase ≠ .exited status := by
  intro ceased
  cases process with
  | running system on =>
    cases phase : system.daemon.phase <;> simp [Process.phase, lifePhase, phase] at ceased
    rw [phase] at on
    cases on
  | exited status => cases lives
  | panicked => cases lives
  | _ => cases ceased

theorem begin_cases (scrollback : Nat) (writer : LogWriter UInt8) (daemon : Daemon)
    (begun : Process.begin scrollback writer = some daemon) :
    ∃ fresh, Daemon.start scrollback [] none = some fresh ∧ fresh.phase = .selecting ∧
      daemon = { fresh with writer := writer } := by
  obtain ⟨fresh, started, rfl⟩ := Option.map_eq_some_iff.mp begun
  obtain ⟨hub, other, _, _, rfl⟩ := start_cases scrollback [] none fresh started
  exact ⟨_, started, rfl, rfl⟩

/-- A step of the start-up is one of the life cycle, is part of the rotation, or is a panic. -/
theorem start_up_life (pid scrollback : Nat) (node free : Node) (log : List UInt8) (succeeds : Bool)
    (logging : Option Nat) (process after : Process)
    (took : process.startUp pid node log succeeds scrollback logging = some (after, free)) :
    (after.phase = process.phase ∧ free = node) ∨
      (process.ended = false ∧ after = .panicked ∧ free = node) ∨
      ∃ goes, DaemonLifecycle.startUp pid node goes process.phase = some (after.phase, free) := by
  cases process with
  | creatingDir =>
    cases took
    exact .inr (.inr ⟨succeeds, by cases succeeds <;> rfl⟩)
  | spawningProgram =>
    cases took
    exact .inr (.inr ⟨succeeds, by cases succeeds <;> rfl⟩)
  | openingLog =>
    cases logging with
    | none =>
      cases took
      exact .inr (.inr ⟨true, rfl⟩)
    | some maxSize =>
      cases took
      cases succeeds with
      | true => exact .inl ⟨rfl, rfl⟩
      | false => exact .inr (.inr ⟨false, rfl⟩)
  | rotating call cursor =>
    cases call with
    | done result =>
      cases result with
      | ok log =>
        cases took
        exact .inr (.inr ⟨true, rfl⟩)
      | error fault =>
        cases took
        exact .inr (.inr ⟨false, rfl⟩)
    | panicked =>
      cases took
      exact .inr (.inl ⟨rfl, rfl, rfl⟩)
    | call operation rest => cases took
  | binding thread cursor =>
    refine .inr (.inr ⟨succeeds, ?_⟩)
    simp only [Process.startUp] at took
    change DaemonLifecycle.startUp pid node succeeds .binding = _
    rw [DaemonLifecycle.startUp]
    split at took
    · rename_i unbound
      obtain ⟨daemon, begun, same⟩ := Option.map_eq_some_iff.mp took
      obtain ⟨fresh, _, selecting, rfl⟩ := begin_cases scrollback _ daemon begun
      cases same
      rw [if_pos unbound, phase_of_system]
      exact congrArg (fun phase => some (lifePhase phase, Node.socket pid)) selecting.symm
    · rename_i taken
      cases took
      rw [if_neg taken]
      rfl
  | running system on => cases took
  | exited status => cases took
  | panicked => cases took

theorem machine_set (pid : Nat) (process : Process) (node : Node) (log : List UInt8) :
    (world.set pid process node log).machine =
      { world.machine.setPhase pid process.phase with node := node } := by
  simp only [Processes.machine, Processes.set, Machine.setPhase, Function.comp_update]
  rfl

theorem machine_known (pid : Nat) (process : Process) (known : world.processes pid = some process) :
    world.machine.daemons pid = some process.phase := by
  simp [Processes.machine, known]

theorem machine_still (pid : Nat) (process after : Process) (log : List UInt8)
    (known : world.processes pid = some process) (same : after.phase = process.phase) :
    (world.set pid after world.node log).machine = world.machine := by
  have unchanged : Function.update world.machine.daemons pid (some process.phase) =
      world.machine.daemons :=
    Function.update_eq_self_iff.mpr (machine_known world pid process known).symm
  rw [machine_set, same, Machine.setPhase, unchanged]
  rfl

theorem machine_crash (pid : Nat) (process : Process) (known : world.processes pid = some process)
    (lives : process.ended = false) :
    world.machine.step (.crash pid) = some (world.machine.setPhase pid (.exited .killed)) := by
  have phase := living_phase process lives
  rw [Machine.step, machine_known world pid process known]
  split
  · rename_i gone
    cases gone
  · rename_i status ceased
    exact absurd (Option.some.inj ceased) (phase status)
  · rfl

/-- Every step is one of the life cycle, or is not seen from outside. -/
theorem process_refines (taken : world.step event = some next) :
    ∃ actions, run Machine.step world.machine actions = some next.machine := by
  have once (action : MachineEvent) (moved : world.machine.step action = some next.machine) :
      ∃ actions, run Machine.step world.machine actions = some next.machine :=
    ⟨[action], by rw [run, moved]; rfl⟩
  cases process_step_cases world next event taken with
  | @launch pid fresh =>
    apply once (.launch pid)
    have unknown : world.machine.daemons pid = none := by simp [Processes.machine, fresh]
    rw [machine_set, Machine.step, unknown]
    rfl
  | @startUp pid scrollback succeeds logging process after node known took =>
    rcases start_up_life pid scrollback world.node node world.log succeeds logging process after took with
      ⟨same, rfl⟩ | ⟨lives, rfl, rfl⟩ | ⟨goes, starts⟩
    · exact ⟨[], congrArg some (machine_still world pid process after _ known same).symm⟩
    · apply once (.crash pid)
      rw [machine_crash world pid process known lives, machine_set]
      rfl
    · apply once (.startUp pid goes)
      rw [machine_set, Machine.step, machine_known world pid process known, Option.bind_some]
      exact congrArg (Option.map _) starts
  | @rotates pid cursor _ call later file known =>
    exact ⟨[], congrArg some (machine_still world pid _ (.rotating later file.cursor) _ known rfl).symm⟩
  | @steps pid event system next on known moved =>
    have running := machine_known world pid _ known
    have phase := phase_of_system next
    cases life_step_system (world.seen system) next event on moved with
    | same still on =>
      refine ⟨[], ?_⟩
      rw [if_pos on]
      exact congrArg some (machine_still world pid _ _ _ known (phase.trans still)).symm
    | @leaves code serving closing on =>
      apply once (.leave pid code)
      have serving : lifePhase system.daemon.phase = .serving := serving
      rw [if_pos on, machine_set, phase, closing, Machine.step, running]
      simp only [Process.phase, serving]
      rfl
    | @unlinks code closing exited ceased =>
      apply once (.unlink pid)
      have closing : lifePhase system.daemon.phase = .closing code := closing
      rw [if_neg ceased, machine_set, phase, exited, Machine.step, running]
      simp only [Process.phase, closing]
  | @crash pid process known lives =>
    apply once (.crash pid)
    rw [machine_crash world pid process known lives, machine_set]
    rfl
  | reboot => exact once .reboot rfl

end Steps

section Inside

/-- A daemon whose log is out of sight. -/
def unlogged (system : System) : System := { system with daemon := without system.daemon }

@[simp] theorem unlogged_wire (system : System) : (unlogged system).wire = system.wire := rfl

@[simp] theorem unlogged_connected (system : System) (id : Nat) :
    (unlogged system).connected id = system.connected id := rfl

@[simp] theorem unlogged_reading (system : System) (id : Nat) :
    (unlogged system).reading id = system.reading id := rfl

/-- Only the writer and who joins it look at the log. -/
theorem unlogged_step (system : System) (event : SystemEvent) (working : event ≠ .daemon .joined)
    (others : ∀ own, event ≠ .daemon (.writer own)) :
    (unlogged system).step event = (system.step event).map unlogged := by
  have blind (event : DaemonEvent) (working : event ≠ .joined) (others : ∀ own, event ≠ .writer own) :
      (without system.daemon).step event = (system.daemon.step event).map without := by
    refine without_step system.daemon event working ?_
    cases event with
    | writer own => exact absurd rfl (others own)
    | _ => rfl
  cases event with
  | peerWrites id bytes =>
    simp only [System.step, unlogged_connected, unlogged_wire]
    rw [apply_ite (Option.map unlogged)]
    rfl
  | peerCloses id => rfl
  | fill id count =>
    simp only [System.step, unlogged_reading, unlogged_wire]
    rw [apply_ite (Option.map unlogged)]
    rfl
  | next id =>
    simp only [System.step]
    change (system.wire id).resolve.bind _ = _
    cases (system.wire id).resolve with
    | none => rfl
    | some resolved =>
      obtain ⟨input, rest⟩ := resolved
      have moved := blind (.task (.input id input)) (by simp) (by simp)
      simp only [Option.bind_some, unlogged, moved, Option.map_map]
      rfl
  | daemon event =>
    have moved := blind event (fun same => working (by rw [same])) fun own same => others own (by rw [same])
    have allowed : (unlogged system).allows event = system.allows event := by
      cases event with
      | task task => cases task <;> rfl
      | _ => rfl
    simp only [System.step, allowed]
    split
    · simp only [unlogged, moved, Option.map_map]
      rfl
    · rfl

theorem joins_alone (daemon : Daemon) (reason : ShutdownReason)
    (draining : daemon.phase = .draining reason) (logs : daemon.writer.thread ≠ .off) :
    ∃ events after, (∀ event ∈ events, ∀ task, event ≠ .task task) ∧
      run Daemon.step daemon events = some after ∧
      without after = without { daemon with phase := .unlinking reason } := by
  obtain ⟨more, drained, own, ran, writer, appended, done, same⟩ :=
    writer_lifts (fun event => ofWriter event = true) (fun _ => rfl) WriterDone daemon
      (writer_drains id daemon.writer logs)
  have unseen : without drained = without daemon :=
    run_guarded_invariant Daemon.step (fun _ event => ofWriter event = true)
      (fun _ state => without state = without daemon)
      (fun _ state event next kept hidden taken =>
        (unseen_step state next event hidden taken).trans kept)
      [] more daemon drained rfl
      (meets_of_forall Daemon.step (fun event => ofWriter event = true) daemon more own) ran
  have ended : drained.writerEnded = true := by
    rw [same]
    rcases done with panicked | ⟨nothing, log, waiting⟩
    · simp [Daemon.writerEnded, panicked]
    · simp [Daemon.writerEnded, nothing, waiting]
  have still : drained.phase = .draining reason := by rw [same, draining]
  refine ⟨more ++ [.joined], { drained with phase := .unlinking reason }, ?_, ?_, ?_⟩
  · rintro event member task rfl
    rcases List.mem_append.mp member with inside | last
    · cases own _ inside
    · cases List.mem_singleton.mp last
  · rw [run_append, ran, Option.bind_some]
    simp [run, Daemon.step, still, ended]
  · exact congrArg (fun daemon : Daemon => { daemon with phase := .unlinking reason }) unseen

/-- The same, with the daemon's own run at hand. -/
def Mirrored (system : System) : Prop :=
  ∃ scrollback logging daemon events own,
    Daemon.start scrollback [] logging = some daemon ∧
      run System.step (System.start daemon) events = some own ∧ unlogged own = unlogged system

theorem mirrored_alone (system : System) (mirrored : Mirrored system) : RunsAlone system := by
  obtain ⟨scrollback, logging, daemon, events, own, started, ran, same⟩ := mirrored
  have blind : without own.daemon = without system.daemon := congrArg System.daemon same
  refine ⟨scrollback, logging, daemon, events, own, started, ran, (congrArg System.wire same :), ?_⟩
  exact
    { hub := (congrArg Daemon.hub blind :)
      phase := (congrArg Daemon.phase blind :)
      pty := (congrArg Daemon.pty blind :)
      backlog := (congrArg Daemon.backlog blind :)
      taken := (congrArg Daemon.taken blind :)
      enqueued := (congrArg Daemon.enqueued blind :)
      written := (congrArg Daemon.written blind :)
      sent := (congrArg (fun daemon : Daemon => daemon.writer.queue) blind :) }

theorem mirrored_begin (scrollback : Nat) (writer : LogWriter UInt8) (daemon : Daemon)
    (nothing : writer.queue = []) (begun : Process.begin scrollback writer = some daemon) :
    Mirrored (System.start daemon) := by
  obtain ⟨fresh, started, rfl⟩ := Option.map_eq_some_iff.mp begun
  obtain ⟨hub, other, created, opened, rfl⟩ := start_cases scrollback [] none fresh started
  cases opened
  obtain ⟨file, thread, queue⟩ := writer
  cases nothing
  by_cases off : thread = .off
  · refine ⟨scrollback, none, _, [], _, started, rfl, ?_⟩
    rw [off]
    rfl
  · obtain ⟨count, log, _, exec, _, _⟩ :=
      SessionLog.open_exec id 0 ({ content := [], cursor := 0 } : File UInt8)
    have mine : Daemon.start scrollback [] (some 0) = some
        { hub := hub, phase := .selecting
          pty := { output := [], slaveOpen := true, alive := true, input := [] }
          backlog := [], sigterm := false, sigint := false
          writer := { file := atEnd (([] : List UInt8).drop count), thread := .waiting log, queue := [] }
          taken := [], enqueued := [], written := [], appended := [] } := by
      simp only [Daemon.start, created, LogWriter.start, exec, Option.bind_eq_bind, Option.bind_some]
    refine ⟨scrollback, some 0, _, [], _, mine, rfl, ?_⟩
    have there : threadWithout thread = .appending .panicked := thread_there thread off
    simp only [unlogged, System.start, without, there]
    rfl

theorem mirrored_step (world : Processes) (system next : System) (event : SystemEvent)
    (mirrored : Mirrored system) (taken : (world.seen system).step event = some next) :
    Mirrored next := by
  obtain ⟨scrollback, logging, daemon, events, own, started, ran, same⟩ := mirrored
  have same : unlogged own = unlogged (world.seen system) := same
  by_cases joins : event = .daemon .joined
  · subst joins
    obtain ⟨moved, stepped, rfl⟩ := Option.map_eq_some_iff.mp taken
    have joined : ∃ reason, system.daemon.phase = .draining reason ∧ moved =
        { (world.seen system).daemon with phase := .unlinking reason } ∧
        system.daemon.writer.thread ≠ .off := by
      cases daemon_step_cases _ _ _ stepped with
      | outside kind => cases kind
      | @joined reason draining ended =>
        refine ⟨reason, draining, rfl, fun off => ?_⟩
        simp [Daemon.writerEnded, Processes.seen, off] at ended
    obtain ⟨reason, draining, rfl, logs⟩ := joined
    have blind : without own.daemon = without system.daemon := congrArg System.daemon same
    have phase : own.daemon.phase = .draining reason := (congrArg Daemon.phase blind).trans draining
    have writes : own.daemon.writer.thread ≠ .off := by
      intro off
      have thread := congrArg (fun daemon : Daemon => daemon.writer.thread) blind
      simp only [without, off, thread_there _ logs] at thread
      cases thread
    obtain ⟨more, after, untasked, went, unseen⟩ := joins_alone own.daemon reason phase writes
    refine ⟨scrollback, logging, daemon, events ++ more.map .daemon, { own with daemon := after },
      started, ?_, ?_⟩
    · rw [run_append, ran, Option.bind_some, own.run_daemon more after untasked went]
    · have wires : own.wire = system.wire := (congrArg System.wire same :)
      have left := congrArg (fun daemon : Daemon => { daemon with phase := .unlinking reason }) blind
      simp only [unlogged, wires, unseen]
      exact congrArg (fun daemon => ({ daemon := daemon, wire := system.wire } : System)) left
  · by_cases writes : ∃ step, event = .daemon (.writer step)
    · obtain ⟨step, rfl⟩ := writes
      obtain ⟨moved, stepped, rfl⟩ := Option.map_eq_some_iff.mp taken
      have unseen := unseen_step (world.seen system).daemon moved (.writer step) rfl stepped
      refine ⟨scrollback, logging, daemon, events, own, started, ran, same.trans ?_⟩
      exact congrArg (fun daemon => ({ daemon := daemon, wire := system.wire } : System)) unseen.symm
    · have others : ∀ step, event ≠ .daemon (.writer step) := fun step also => writes ⟨step, also⟩
      have mine := unlogged_step own event joins others
      rw [same, unlogged_step (world.seen system) event joins others, taken, Option.map_some] at mine
      obtain ⟨after, moved, alike⟩ := Option.map_eq_some_iff.mp mine.symm
      refine ⟨scrollback, logging, daemon, events ++ [event], after, started, ?_, alike⟩
      rw [run_append, ran, Option.bind_some, run, moved]
      rfl

end Inside

theorem running_of_system (system next : System) (on : returnedWith system.daemon.phase = none)
    (same : Process.ofSystem next = .running system on) : next = system := by
  unfold Process.ofSystem at same
  split at same
  · exact (Process.running.inj same)
  · cases same

def AllMirrored (world : Processes) : Prop :=
  ∀ pid system on, world.processes pid = some (.running system on) → Mirrored system

theorem start_up_mirrored (pid scrollback : Nat) (node free : Node) (log : List UInt8) (succeeds : Bool)
    (logging : Option Nat) (process : Process) (system : System)
    (on : returnedWith system.daemon.phase = none)
    (took : process.startUp pid node log succeeds scrollback logging = some (.running system on, free)) :
    Mirrored system := by
  cases process with
  | binding thread cursor =>
    simp only [Process.startUp] at took
    split at took
    · obtain ⟨daemon, begun, same⟩ := Option.map_eq_some_iff.mp took
      have running := running_of_system system _ on (congrArg Prod.fst same)
      rw [← running]
      exact mirrored_begin scrollback _ daemon rfl begun
    · cases took
  | creatingDir => cases succeeds <;> cases took
  | spawningProgram => cases succeeds <;> cases took
  | openingLog =>
    cases logging with
    | none => cases took
    | some maxSize => cases succeeds <;> cases took
  | rotating call cursor =>
    cases call with
    | done result => cases result <;> cases took
    | panicked => cases took
    | call operation rest => cases took
  | running system on => cases took
  | exited status => cases took
  | panicked => cases took

theorem all_mirrored_step (world next : Processes) (event : ProcessEvent) (mirrored : AllMirrored world)
    (taken : world.step event = some next) : AllMirrored next := by
  have set (pid : Nat) (process : Process) (node : Node) (log : List UInt8)
      (mine : ∀ system on, process = .running system on → Mirrored system) :
      AllMirrored (world.set pid process node log) := by
    intro other system on known
    by_cases same : other = pid
    · subst same
      simp only [Processes.set, Function.update_self, Option.some.injEq] at known
      exact mine system on known
    · simp only [Processes.set, Function.update_of_ne same] at known
      exact mirrored other system on known
  cases process_step_cases world next event taken with
  | @launch pid fresh =>
    refine set pid _ _ _ ?_
    intro system on same
    cases same
  | @startUp pid scrollback succeeds logging process after node known took =>
    refine set pid after node world.log ?_
    rintro system on rfl
    exact start_up_mirrored pid scrollback world.node node world.log succeeds logging process system on took
  | rotates file known =>
    refine set _ _ _ _ ?_
    intro system on same
    cases same
  | @steps pid event system next on known moved =>
    refine set pid _ _ _ ?_
    intro later still begins
    rw [← running_of_system later next still begins]
    exact mirrored_step world system next event (mirrored pid system on known) moved
  | crash known lives =>
    refine set _ _ _ _ ?_
    intro system on same
    cases same
  | reboot =>
    intro pid system on known
    cases known

theorem running_bound (phase : LoopPhase) (on : returnedWith phase = none) :
    (lifePhase phase).bound = true := by
  cases phase <;> first | rfl | cases on

/-- Any number of daemons of one name, each with whatever its child and its clients do. -/
theorem processes_compose (log : List UInt8) (last : Processes) (events : List ProcessEvent)
    (ran : run Processes.step (Processes.initial log) events = some last) : Composed last := by
  obtain ⟨actions, cycle⟩ := run_refines Processes.step Machine.step Processes.machine
    (fun world event next taken => process_refines world next event taken)
    (Processes.initial log) last events ran
  constructor
  · exact ⟨actions, cycle⟩
  · have mirrored : AllMirrored last := by
      apply run_invariant Processes.step AllMirrored
        (fun world event next mirrored taken => all_mirrored_step world next event mirrored taken)
        (Processes.initial log) last events _ ran
      intro pid system on known
      cases known
    exact fun pid system on known => mirrored_alone system (mirrored pid system on known)
  · intro pid system on known
    have orderly := orderly_run last.machine actions cycle
    have running := machine_known last pid _ known
    exact orderly.owned pid _ running (running_bound _ on)

/-- The first daemon up to its bind, with three bytes in the log. -/
def firstStart : List ProcessEvent :=
  [.launch 1, .startUp 1 true 8 none, .startUp 1 true 8 none, .startUp 1 true 8 (some 8),
    .systemCall 1 0, .systemCall 1 0, .systemCall 1 0, .startUp 1 true 8 none]

/-- A second one with a cap of one trims the log before its bind fails, and the first logs one
byte more where it was. -/
def secondStart : List ProcessEvent :=
  [.launch 2, .startUp 2 true 8 none, .startUp 2 true 8 none, .startUp 2 true 8 (some 1),
    .systemCall 2 0, .systemCall 2 0, .systemCall 2 3, .systemCall 2 0, .systemCall 2 0,
    .systemCall 2 1, .systemCall 2 0, .systemCall 2 0, .systemCall 2 0, .startUp 2 true 8 none,
    .startUp 2 true 8 none, .steps 1 (.daemon (.childWrites [0x64])), .steps 1 (.daemon (.select 1)),
    .steps 1 (.daemon .handOff), .steps 1 (.daemon (.writer .receive)),
    .steps 1 (.daemon (.writer (.systemCall 1)))]

def atBind : Processes :=
  (run Processes.step (Processes.initial [0x61, 0x62, 0x63]) firstStart).get rfl

def bound : Daemon :=
  { idle with writer := {
      file := { content := [0x61, 0x62, 0x63], cursor := 3 }
      thread := .waiting { maxSize := 8, currentSize := 3 }
      queue := [] } }

theorem serving_after_bind : atBind.step (.startUp 1 true 8 none) =
    some (atBind.set 1 (Process.ofSystem (System.start bound)) (.socket 1) [0x61, 0x62, 0x63]) := by
  have begins : Process.begin 8 bound.writer = some bound := by
    rw [Process.begin, start_idle]
    rfl
  have known : atBind.processes 1 = some (.binding bound.writer.thread 3) := rfl
  have free : atBind.node = .absent := rfl
  have log : atBind.log = [0x61, 0x62, 0x63] := rfl
  simp only [Processes.step, known, Option.bind_some, Process.startUp, free, and_self, if_true, log]
  exact congrArg (fun begun => (begun.map fun daemon => (Process.ofSystem (System.start daemon),
    Node.socket 1)).map fun (after, node) => atBind.set 1 after node [0x61, 0x62, 0x63]) begins

theorem processes_compose_two : ∃ last,
    run Processes.step (Processes.initial [0x61, 0x62, 0x63])
      (firstStart ++ .startUp 1 true 8 none :: secondStart) = some last ∧
    last.processes 2 = some (.exited (.code 1)) ∧ last.log = [0x63, 0, 0, 0x64] ∧ Composed last := by
  have early : run Processes.step (Processes.initial [0x61, 0x62, 0x63]) firstStart = some atBind :=
    (Option.some_get _).symm
  obtain ⟨last, late, failed, log⟩ : ∃ last, run Processes.step
      (atBind.set 1 (Process.ofSystem (System.start bound)) (.socket 1) [0x61, 0x62, 0x63])
        secondStart = some last ∧
      last.processes 2 = some (.exited (.code 1)) ∧ last.log = [0x63, 0, 0, 0x64] :=
    ⟨_, rfl, rfl, rfl⟩
  have ran : run Processes.step (Processes.initial [0x61, 0x62, 0x63])
      (firstStart ++ .startUp 1 true 8 none :: secondStart) = some last := by
    rw [run_append, early, Option.bind_some, run, serving_after_bind, Option.bind_some, late]
  exact ⟨last, ran, failed, log, processes_compose _ last _ ran⟩

end Hytch.DaemonProcesses
