import Hytch.SessionDirectory

/-!
What is done to one session and the files of another. A socket's path is the
session's name in the session directory and the log's is that with `.log` behind
it, so the log of one session can be the socket of another.
-/

namespace Hytch.SessionsApart

open DaemonLifecycle FileDirectory FilePrograms Runs SessionDirectory SessionNames SpawnRequests

/-- The two files of the session with this socket. -/
def Own (socket path : Text) : Prop := path = socket ∨ path = logPathFor socket

/-- Nobody has come near the session with this socket: its files and its daemons are
what they were. -/
def LeftAlone (before after : World) (socket : Text) : Prop :=
  (∀ path, Own socket path → SameAt before.dir after.dir path) ∧
    ∀ pid daemon, before.daemons pid = some daemon → daemon.req.socketPath = socket →
      after.daemons pid = some daemon

/-- Whatever the sessions of the directory have gone through, no step of what is done to
the one session, by a command or by a daemon of it, comes near the other. -/
def Separate (env : Environment) (one other : Text) : Prop :=
  ∀ history world, run (World.step env) World.empty history = some world →
    ∀ event next, world.step env event = some next →
      world.session env event = some (socketPath env one) →
      LeftAlone world next (socketPath env other)

/-- No name is the other one with `.log` behind it. -/
def Apart (one other : Text) : Prop := other ≠ one ++ logSuffix ∧ one ≠ other ++ logSuffix

/-- Each daemon keeps to the files of its own session, and each socket is one of its
owner's. -/
structure Consistent (world : World) : Prop where
  logPaths : ∀ pid daemon, world.daemons pid = some daemon → ∀ path ∈ daemon.req.logPath,
    path = logPathFor daemon.req.socketPath
  logs : ∀ pid daemon, world.daemons pid = some daemon → ∀ log ∈ daemon.log,
    MadeAt world.dir log.inode (logPathFor daemon.req.socketPath)
  sockets : ∀ path owner, world.dir.entries path = some (.socket owner) →
    ∃ daemon, world.daemons owner = some daemon ∧ daemon.req.socketPath = path

structure DaemonStep (world next : World) (pid : Nat) (daemon : Daemon) : Prop where
  touches : Touches (Own daemon.req.socketPath) world.dir next.dir
  daemons : ∃ later, next.daemons = Function.update world.daemons pid (some later) ∧
    later.req = daemon.req ∧
    ∀ log ∈ later.log, MadeAt next.dir log.inode (logPathFor daemon.req.socketPath)
  sockets : ∀ path owner, next.dir.entries path = some (.socket owner) →
    world.dir.entries path = some (.socket owner) ∨
      (path = daemon.req.socketPath ∧ owner = pid)

theorem empty_consistent : Consistent World.empty where
  logPaths := nofun
  logs := nofun
  sockets := nofun

section DaemonSteps

variable (world : World) (pid : Nat) (daemon later : Daemon) (req : later.req = daemon.req)

include req

theorem step_of_files_kept
    (logs : ∀ log ∈ later.log, MadeAt world.dir log.inode (logPathFor daemon.req.socketPath)) :
    DaemonStep world (world.set pid later) pid daemon where
  touches := .keeps _
  daemons := ⟨later, rfl, req, logs⟩
  sockets := fun _ _ known => Or.inl known

theorem step_of_create (path : Text) (named : path = logPathFor daemon.req.socketPath)
    (logs : ∀ log ∈ later.log, log.inode = world.dir.made) :
    DaemonStep world { world.set pid later with dir := world.dir.create path [] } pid daemon where
  touches := .creates _ _ _ (Or.inr named)
  daemons := by
    refine ⟨later, rfl, req, fun log known => ?_⟩
    rw [logs log known, ← named]
    exact made_at_created _ _ _
  sockets := by
    intro other owner known
    rcases updated_some _ _ _ _ _ known with ⟨_, file⟩ | ⟨_, older⟩
    · cases file
    · exact Or.inl older

theorem step_of_write (inode : Nat) (content : List UInt8)
    (made : MadeAt world.dir inode (logPathFor daemon.req.socketPath))
    (logs : ∀ log ∈ later.log, log.inode = inode) :
    DaemonStep world { world.set pid later with dir := world.dir.write inode content } pid daemon where
  touches := .writes _ _ _ _ (Or.inr rfl) made
  daemons := by
    refine ⟨later, rfl, req, fun log known => ?_⟩
    rw [logs log known]
    exact made
  sockets := fun _ _ known => Or.inl known

theorem step_of_plain (entry : Option Entry) (plain : ∀ inode, entry ≠ some (.file inode))
    (mine : ∀ owner, entry = some (.socket owner) → owner = pid)
    (logs : ∀ log ∈ later.log, MadeAt world.dir log.inode (logPathFor daemon.req.socketPath)) :
    DaemonStep world
      { world.set pid later with dir := world.dir.setPlain daemon.req.socketPath entry plain }
      pid daemon := by
  have touches : Touches (Own daemon.req.socketPath) world.dir
      (world.dir.setPlain daemon.req.socketPath entry plain) := .plain _ _ _ plain (Or.inl rfl)
  refine ⟨touches, ⟨later, rfl, req, fun log known => ?_⟩, fun path owner known => ?_⟩
  · exact made_at_touched _ _ _ touches _ _ (logs log known)
  · rcases updated_some _ _ _ _ _ known with ⟨same, socket⟩ | ⟨_, older⟩
    · exact Or.inr ⟨same, mine owner socket⟩
    · exact Or.inl older

end DaemonSteps

theorem step_of_turn (world : World) (pid : Nat) (daemon : Daemon) (phase : Phase)
    (logs : ∀ log ∈ daemon.log, MadeAt world.dir log.inode (logPathFor daemon.req.socketPath)) :
    DaemonStep world (world.set pid (daemon.to phase)) pid daemon :=
  step_of_files_kept world pid daemon (daemon.to phase) rfl logs

theorem open_path_step (world : World) (pid : Nat) (daemon : Daemon) (path : Text)
    (fresh : daemon.log = none) (named : path = logPathFor daemon.req.socketPath) :
    DaemonStep world (world.openPath pid daemon path) pid daemon := by
  unfold World.openPath
  split
  case h_1 =>
    refine step_of_create world pid daemon (daemon.withLog (.opened world.dir.made _)) rfl path
      named ?_
    rintro log ⟨⟩
    rfl
  case h_2 inode known =>
    refine step_of_files_kept world pid daemon _ rfl ?_
    rintro log ⟨⟩
    rw [← named]
    exact made_at_of_entry world.dir inode path known
  case h_3 =>
    refine step_of_files_kept world pid daemon _ rfl ?_
    rintro log known
    rw [Daemon.to, fresh] at known
    cases known

/-- What a step of a daemon consists in: it turns to another phase, works on its log, or
makes or removes its socket. -/
inductive DaemonMove (world next : World) (pid : Nat) (daemon : Daemon) : Prop where
  | turns {phase : Phase} (moved : next = world.set pid (daemon.to phase))
  | opens {path : Text} (fresh : daemon.log = none) (named : path ∈ daemon.req.logPath)
      (moved : next = world.openPath pid daemon path)
  | writes {log : LogFile} {content : List UInt8} (held : log ∈ daemon.log) (after : LogFile)
      (same : after.inode = log.inode)
      (moved : next = { world.set pid (daemon.withLog after) with
        dir := world.dir.write log.inode content })
  | holds {log : LogFile} (held : log ∈ daemon.log) (after : LogFile)
      (same : after.inode = log.inode)
      (moved : next = world.set pid (daemon.withLog after))
  | binds (free : world.dir.entries daemon.req.socketPath = none)
      (moved : next = { world.set pid (daemon.to .serving) with
        dir := world.dir.bind daemon.req.socketPath pid })
  | unlinks {code : Nat} (closing : daemon.phase = .closing code)
      (moved : next = { world.set pid (daemon.to (.exited (.code code))) with
        dir := world.dir.remove daemon.req.socketPath })

theorem start_up_move (world next : World) (pid : Nat) (daemon : Daemon) (succeeds : Bool)
    (taken : world.startUp pid daemon succeeds = some next) : DaemonMove world next pid daemon := by
  have turnsEither : ∀ first second, (if succeeds then world.set pid (daemon.to first)
      else world.set pid (daemon.to second)) = next → DaemonMove world next pid daemon := by
    intro first second turned
    split at turned
    · exact .turns turned.symm
    · exact .turns turned.symm
  unfold World.startUp at taken
  split at taken
  case h_1 => exact turnsEither _ _ (Option.some.inj taken)
  case h_2 => exact turnsEither _ _ (Option.some.inj taken)
  case h_3 fresh =>
    split at taken
    · exact .turns (Option.some.inj taken).symm
    · rename_i path named
      have opened := Option.some.inj taken
      split at opened
      · exact .opens fresh named opened.symm
      · exact .turns opened.symm
  case h_4 log held =>
    split at taken
    · exact .turns (Option.some.inj taken).symm
    · exact .turns (Option.some.inj taken).symm
    · exact .turns (Option.some.inj taken).symm
    · cases taken
  case h_5 =>
    split at taken
    · rename_i possible
      exact .binds possible.2 (Option.some.inj taken).symm
    · exact .turns (Option.some.inj taken).symm
  case h_6 => cases taken

theorem daemon_move (world next : World) (pid : Nat) (daemon : Daemon) (event : DaemonEvent)
    (taken : world.daemonStep pid daemon event = some next) : DaemonMove world next pid daemon := by
  cases event with
  | startUp succeeds => exact start_up_move world next pid daemon succeeds taken
  | logCall count =>
    obtain ⟨_, taken⟩ := Option.ite_none_right_eq_some.mp taken
    obtain ⟨log, held, taken⟩ := Option.bind_eq_some_iff.mp taken
    obtain ⟨⟨task, file⟩, _, moved⟩ := Option.map_eq_some_iff.mp taken
    exact .writes held { log with task, cursor := file.cursor } rfl moved.symm
  | logFault fault =>
    obtain ⟨_, taken⟩ := Option.ite_none_right_eq_some.mp taken
    obtain ⟨log, held, taken⟩ := Option.bind_eq_some_iff.mp taken
    obtain ⟨task, _, moved⟩ := Option.map_eq_some_iff.mp taken
    exact .holds held { log with task } rfl moved.symm
  | append data =>
    obtain ⟨log, held, taken⟩ := Option.bind_eq_some_iff.mp taken
    split at taken
    · exact .holds held { log with task := appendTask _ data } rfl (Option.some.inj taken).symm
    · cases taken
  | leave code =>
    obtain ⟨_, moved⟩ := Option.ite_none_right_eq_some.mp taken
    exact .turns (Option.some.inj moved).symm
  | unlink =>
    simp only [World.daemonStep] at taken
    split at taken
    case h_1 code closing =>
      obtain ⟨_, moved⟩ := Option.ite_none_right_eq_some.mp taken
      exact .unlinks closing (Option.some.inj moved).symm
    case h_2 => cases taken
  | crash =>
    obtain ⟨_, moved⟩ := Option.ite_none_right_eq_some.mp taken
    exact .turns (Option.some.inj moved).symm

theorem daemon_step (world next : World) (pid : Nat) (daemon : Daemon) (event : DaemonEvent)
    (logPath : ∀ path ∈ daemon.req.logPath, path = logPathFor daemon.req.socketPath)
    (logs : ∀ log ∈ daemon.log, MadeAt world.dir log.inode (logPathFor daemon.req.socketPath))
    (taken : world.daemonStep pid daemon event = some next) :
    DaemonStep world next pid daemon := by
  cases daemon_move world next pid daemon event taken with
  | turns moved =>
    rw [moved]
    exact step_of_turn world pid daemon _ logs
  | @opens path fresh named moved =>
    rw [moved]
    exact open_path_step world pid daemon path fresh (logPath path named)
  | @writes log content held after same moved =>
    rw [moved]
    refine step_of_write world pid daemon (daemon.withLog after) rfl log.inode content
      (logs log held) ?_
    rintro _ ⟨⟩
    exact same
  | @holds log held after same moved =>
    rw [moved]
    refine step_of_files_kept world pid daemon _ rfl ?_
    rintro _ ⟨⟩
    rw [same]
    exact logs log held
  | binds free moved =>
    rw [moved]
    refine step_of_plain world pid daemon (daemon.to .serving) rfl (some (.socket pid)) nofun ?_ logs
    rintro owner ⟨⟩
    rfl
  | @unlinks code closing moved =>
    rw [moved]
    exact step_of_plain world pid daemon (daemon.to (.exited (.code code))) rfl none nofun nofun logs

theorem consistent_daemon (world next : World) (pid : Nat) (daemon : Daemon)
    (consistent : Consistent world) (known : world.daemons pid = some daemon)
    (step : DaemonStep world next pid daemon) : Consistent next := by
  obtain ⟨touches, ⟨later, daemons, req, laterLogs⟩, sockets⟩ := step
  have others : ∀ other held, next.daemons other = some held →
      (other = pid ∧ later = held) ∨ (other ≠ pid ∧ world.daemons other = some held) := by
    intro other held found
    rw [daemons] at found
    rcases updated_some _ _ _ _ _ found with ⟨same, new⟩ | older
    · exact Or.inl ⟨same, Option.some.inj new⟩
    · exact Or.inr older
  refine ⟨fun other held found => ?_, fun other held found => ?_, fun path owner found => ?_⟩
  · rcases others other held found with ⟨_, rfl⟩ | ⟨_, older⟩
    · rw [req]
      exact consistent.logPaths pid daemon known
    · exact consistent.logPaths other held older
  · rcases others other held found with ⟨_, rfl⟩ | ⟨_, older⟩
    · rw [req]
      exact laterLogs
    · intro log held
      exact made_at_touched _ _ _ touches _ _ (consistent.logs other _ older log held)
  · rcases sockets path owner found with older | ⟨rfl, rfl⟩
    · obtain ⟨held, owned, named⟩ := consistent.sockets path owner older
      by_cases same : owner = pid
      · subst same
        rw [known] at owned
        cases owned
        exact ⟨later, by rw [daemons, Function.update_self], by rw [req, named]⟩
      · exact ⟨held, by rw [daemons, Function.update_of_ne same, owned], named⟩
    · exact ⟨later, by rw [daemons, Function.update_self], by rw [req]⟩

/-- What a step of what is done to the session with this socket comes near. -/
structure Confined (world next : World) (socket : Text) : Prop where
  touches : Touches (Own socket) world.dir next.dir
  daemons : ∀ pid daemon, world.daemons pid = some daemon → daemon.req.socketPath ≠ socket →
    next.daemons pid = some daemon

theorem confined_daemon (world next : World) (pid : Nat) (daemon : Daemon)
    (known : world.daemons pid = some daemon) (step : DaemonStep world next pid daemon) :
    Confined world next daemon.req.socketPath := by
  obtain ⟨touches, ⟨later, daemons, _⟩, _⟩ := step
  refine ⟨touches, fun other held found foreign => ?_⟩
  have different : other ≠ pid := by
    rintro rfl
    rw [known] at found
    cases found
    exact foreign rfl
  rw [daemons, Function.update_of_ne different, found]

theorem confined_files (world : World) (dir : Directory Text (List UInt8)) (socket : Text)
    (touches : Touches (Own socket) world.dir dir) :
    Confined world { world with dir := dir } socket :=
  ⟨touches, fun _ _ known _ => known⟩

theorem consistent_files (world : World) (dir : Directory Text (List UInt8)) (socket : Text)
    (consistent : Consistent world) (touches : Touches (Own socket) world.dir dir)
    (sockets : ∀ path owner, dir.entries path = some (.socket owner) →
      world.dir.entries path = some (.socket owner)) :
    Consistent { world with dir := dir } where
  logPaths := consistent.logPaths
  logs := fun pid daemon known log held =>
    made_at_touched _ _ _ touches _ _ (consistent.logs pid daemon known log held)
  sockets := fun path owner known => consistent.sockets path owner (sockets path owner known)

theorem kill_cases (world : World) (path : Text) (code : Nat) :
    world.kill path code = world ∨
      ∃ owner daemon, world.dir.entries path = some (.socket owner) ∧
        world.daemons owner = some daemon ∧
        world.kill path code = world.set owner (daemon.to (.closing code)) := by
  unfold World.kill
  split
  case h_1 owner listener =>
    split
    case h_1 daemon known =>
      split
      · exact Or.inr ⟨owner, daemon, listener, known, rfl⟩
      · exact Or.inl rfl
    case h_2 => exact Or.inl rfl
  case h_2 => exact Or.inl rfl

theorem clear_cases (world : World) (logPath name : Text) (quiet : Bool) :
    world.clear logPath name quiet = world ∨
      ∃ inode content, world.dir.entries logPath = some (.file inode) ∧
        world.clear logPath name quiet = { world with dir := world.dir.write inode content } := by
  unfold World.clear
  split
  case h_1 inode file =>
    split
    case h_1 content _ _ => exact Or.inr ⟨inode, content, file, rfl⟩
    case h_2 => exact Or.inl rfl
  case h_2 => exact Or.inl rfl

theorem rm_world (world : World) (socketPath logPath name : Text) (quiet : Bool) :
    (world.rm socketPath logPath name quiet).1 =
      if world.listens socketPath then world
      else { world with dir := (world.dir.remove socketPath).remove logPath } := by
  unfold World.rm
  split
  · rfl
  · simp only
    split
    · rfl
    · split <;> rfl

theorem removed_touches (dir : Directory Text (List UInt8)) (socket : Text) :
    Touches (Own socket) dir ((dir.remove socket).remove (logPathFor socket)) :=
  .andThen (.plain dir socket none nofun (Or.inl rfl)) (.plain _ (logPathFor socket) none nofun (Or.inr rfl))

theorem removed_sockets (dir : Directory Text (List UInt8)) (first second path : Text) (owner : Nat)
    (known : ((dir.remove first).remove second).entries path = some (.socket owner)) :
    dir.entries path = some (.socket owner) := by
  rcases updated_some _ _ _ _ _ known with ⟨_, nothing⟩ | ⟨_, known⟩
  · cases nothing
  · rcases updated_some _ _ _ _ _ known with ⟨_, nothing⟩ | ⟨_, known⟩
    · cases nothing
    · exact known

section Commands

variable (env : Environment) (world : World) (consistent : Consistent world)

include consistent

theorem unchanged (socket : Text) : Consistent world ∧ Confined world world socket :=
  ⟨consistent, confined_files world world.dir socket (.keeps _)⟩

theorem started (pid : Nat) (session : Text) (cmd : List Text) (logMaxSize : UInt64)
    (req : SpawnRequest) (built : buildSpawnRequest env session cmd logMaxSize = .ok req)
    (fresh : world.daemons pid = none) :
    Consistent (world.set pid { req, phase := .creatingDir, log := none }) ∧
      Confined world (world.set pid { req, phase := .creatingDir, log := none })
        (socketPath env session) := by
  obtain ⟨_, named, logPath, _⟩ := built_cases env session cmd logMaxSize req built
  have kept : ∀ other daemon, world.daemons other = some daemon →
      (world.set pid { req, phase := .creatingDir, log := none }).daemons other = some daemon := by
    intro other daemon known
    have different : other ≠ pid := by
      rintro rfl
      rw [fresh] at known
      cases known
    exact (Function.update_of_ne different _ _).trans known
  refine ⟨⟨fun other daemon known => ?_, fun other daemon known => ?_, fun path owner known => ?_⟩,
    .keeps _, fun other daemon known _ => kept other daemon known⟩
  · rcases updated_some _ _ _ _ _ known with ⟨_, new⟩ | ⟨_, older⟩
    · cases new
      intro path logs
      rcases logPath with none | some
      · rw [none] at logs
        cases logs
      · rw [some] at logs
        cases logs
        rw [named]
    · exact consistent.logPaths other daemon older
  · rcases updated_some _ _ _ _ _ known with ⟨_, new⟩ | ⟨_, older⟩
    · cases new
      exact nofun
    · exact consistent.logs other daemon older
  · obtain ⟨daemon, owned, path⟩ := consistent.sockets path owner known
    exact ⟨daemon, kept owner daemon owned, path⟩

theorem killed (path : Text) (code : Nat) :
    Consistent (world.kill path code) ∧ Confined world (world.kill path code) path := by
  rcases kill_cases world path code with same | ⟨owner, daemon, listener, known, told⟩
  · rw [same]
    exact unchanged world consistent path
  · obtain ⟨held, owned, named⟩ := consistent.sockets path owner listener
    rw [known] at owned
    cases owned
    have step := step_of_turn world owner daemon (.closing code) (consistent.logs owner daemon known)
    rw [told, ← named]
    exact ⟨consistent_daemon world _ owner daemon consistent known step,
      confined_daemon world _ owner daemon known step⟩

theorem cleared (socket name : Text) (quiet : Bool) :
    Consistent (world.clear (logPathFor socket) name quiet) ∧
      Confined world (world.clear (logPathFor socket) name quiet) socket := by
  rcases clear_cases world (logPathFor socket) name quiet with same | ⟨inode, content, file, written⟩
  · rw [same]
    exact unchanged world consistent socket
  · have touches : Touches (Own socket) world.dir (world.dir.write inode content) :=
      .writes _ _ inode content (Or.inr rfl) (made_at_of_entry _ _ _ file)
    rw [written]
    exact ⟨consistent_files world _ socket consistent touches fun _ _ known => known,
      confined_files world _ socket touches⟩

theorem removed (socket name : Text) (quiet : Bool) :
    Consistent (world.rm socket (logPathFor socket) name quiet).1 ∧
      Confined world (world.rm socket (logPathFor socket) name quiet).1 socket := by
  rw [rm_world]
  split
  · exact unchanged world consistent socket
  · have touches := removed_touches world.dir socket
    exact ⟨consistent_files world _ socket consistent touches fun path owner known =>
      removed_sockets _ _ _ path owner known, confined_files world _ socket touches⟩

theorem rebooted :
    Consistent { world with
      daemons := fun pid => (world.daemons pid).map fun daemon => daemon.to (.exited .killed) } := by
  refine ⟨fun pid daemon known => ?_, fun pid daemon known => ?_, fun path owner known => ?_⟩
  · obtain ⟨alive, before, rfl⟩ := Option.map_eq_some_iff.mp known
    exact consistent.logPaths pid alive before
  · obtain ⟨alive, before, rfl⟩ := Option.map_eq_some_iff.mp known
    exact consistent.logs pid alive before
  · obtain ⟨alive, owned, named⟩ := consistent.sockets path owner known
    exact ⟨alive.to (.exited .killed), by simp [owned], named⟩

/-- Every command and every daemon keeps to one session. -/
theorem step_confined (next : World) (event : Event) (taken : world.step env event = some next) :
    Consistent next ∧ ∀ socket ∈ world.session env event, Confined world next socket := by
  have one : ∀ socket, world.session env event = some socket →
      Consistent next ∧ Confined world next socket →
      Consistent next ∧ ∀ socket ∈ world.session env event, Confined world next socket := by
    intro socket acts outcome
    refine ⟨outcome.1, fun other also => ?_⟩
    rw [Option.mem_def, acts] at also
    cases also
    exact outcome.2
  cases event with
  | start pid session cmd logMaxSize =>
    simp only [World.step] at taken
    split at taken
    case h_1 =>
      cases taken
      exact one _ rfl (unchanged world consistent _)
    case h_2 req built fresh =>
      cases taken
      exact one _ rfl (started env world consistent pid session cmd logMaxSize req built fresh)
    case h_3 => cases taken
  | daemon pid event =>
    obtain ⟨daemon, known, taken⟩ := Option.bind_eq_some_iff.mp taken
    have step := daemon_step world next pid daemon event (consistent.logPaths pid daemon known)
      (consistent.logs pid daemon known) taken
    have acts : world.session env (.daemon pid event) = some daemon.req.socketPath := by
      rw [World.session, known, Option.map_some]
    exact one _ acts ⟨consistent_daemon world next pid daemon consistent known step,
      confined_daemon world next pid daemon known step⟩
  | kill session code =>
    cases taken
    cases code with
    | none => exact one _ rfl (unchanged world consistent _)
    | some code => exact one _ rfl (killed world consistent _ code)
  | clear session quiet =>
    cases taken
    exact one _ rfl (cleared world consistent _ session quiet)
  | rm session quiet =>
    cases taken
    exact one _ rfl (removed world consistent _ session quiet)
  | reboot =>
    cases taken
    refine ⟨rebooted world consistent, ?_⟩
    rintro socket ⟨⟩

end Commands

theorem consistent_run (env : Environment) (history : List Event) (world : World)
    (ran : run (World.step env) World.empty history = some world) : Consistent world := by
  refine run_invariant (World.step env) Consistent ?_ World.empty world history empty_consistent ran
  intro state event next consistent taken
  exact (step_confined env state consistent next event taken).1

theorem bare_socket_path (env : Environment) :
    ∃ stem, ∀ name, isValidBareName name = true → socketPath env name = stem ++ name := by
  have bare : ∀ name, isValidBareName name = true → name.contains '/' = false := by
    intro name valid
    simp only [isValidBareName, Bool.and_eq_true, Bool.not_eq_true'] at valid
    exact valid.2
  by_cases closed : sessionDir env = [] ∨ (sessionDir env).getLast? = some '/'
  · refine ⟨sessionDir env, fun name valid => ?_⟩
    rw [socketPath, resolveSocketPath, bare name valid, if_neg Bool.false_ne_true, join, if_pos closed]
  · refine ⟨sessionDir env ++ ['/'], fun name valid => ?_⟩
    rw [socketPath, resolveSocketPath, bare name valid, if_neg Bool.false_ne_true, join,
      if_neg closed, List.append_assoc, List.singleton_append]

theorem suffixed_socket_path (env : Environment) (name : Text) (valid : isValidBareName name = true)
    (validSuffixed : isValidBareName (name ++ logSuffix) = true) :
    socketPath env (name ++ logSuffix) = logPathFor (socketPath env name) := by
  obtain ⟨stem, bare⟩ := bare_socket_path env
  rw [bare _ validSuffixed, bare name valid, logPathFor, List.append_assoc]

/-- The files of two sessions differ exactly if the names are apart. -/
theorem own_disjoint_iff (env : Environment) (one other : Text) (valid : isValidBareName one = true)
    (validOther : isValidBareName other = true) (distinct : other ≠ one) :
    (∀ path, Own (socketPath env other) path → ¬ Own (socketPath env one) path) ↔
      Apart one other := by
  obtain ⟨stem, bare⟩ := bare_socket_path env
  have log : ∀ name, isValidBareName name = true →
      logPathFor (socketPath env name) = stem ++ (name ++ logSuffix) := by
    intro name valid
    rw [logPathFor, bare name valid, List.append_assoc]
  constructor
  · intro disjoint
    constructor
    · rintro rfl
      exact disjoint _ (Or.inl rfl) (Or.inr (suffixed_socket_path env one valid validOther))
    · rintro rfl
      exact disjoint _ (Or.inr (suffixed_socket_path env other validOther valid)) (Or.inl rfl)
  · rintro ⟨socketFree, logFree⟩ path (rfl | rfl) (same | same)
    · rw [bare other validOther, bare one valid] at same
      exact distinct (List.append_cancel_left same)
    · rw [bare other validOther, log one valid] at same
      exact socketFree (List.append_cancel_left same)
    · rw [log other validOther, bare one valid] at same
      exact logFree (List.append_cancel_left same).symm
    · rw [log other validOther, log one valid] at same
      exact distinct (List.append_cancel_right (List.append_cancel_left same))

theorem separate_of_apart (env : Environment) (one other : Text) (valid : isValidBareName one = true)
    (validOther : isValidBareName other = true) (distinct : other ≠ one)
    (apart : Apart one other) : Separate env one other := by
  have disjoint := (own_disjoint_iff env one other valid validOther distinct).mpr apart
  intro history world ran event next taken acts
  have consistent := consistent_run env history world ran
  have confined := (step_confined env world consistent next event taken).2 _ acts
  constructor
  · intro path own
    exact same_elsewhere _ _ _ confined.touches path (disjoint path own)
  · intro pid daemon known named
    refine confined.daemons pid daemon known fun same => ?_
    exact disjoint _ (Or.inl rfl) (Or.inl (named.symm.trans same))

theorem step_of_set (env : Environment) (world : World) (pid : Nat) (daemon : Daemon)
    (event : DaemonEvent) :
    (world.set pid daemon).step env (.daemon pid event) =
      (world.set pid daemon).daemonStep pid daemon event := by
  simp [World.step, World.set]

theorem set_set (world : World) (pid : Nat) (first second : Daemon) :
    (world.set pid first).set pid second = world.set pid second := by
  simp [World.set]

/-- A new session's daemon up to where it opens its log. -/
def launchHistory (name : Text) (logMaxSize : UInt64) : List Event :=
  [.start 0 name [] logMaxSize, .daemon 0 (.startUp true), .daemon 0 (.startUp true)]

theorem launched (env : Environment) (name : Text) (logMaxSize : UInt64) (req : SpawnRequest)
    (built : buildSpawnRequest env name [] logMaxSize = .ok req) :
    run (World.step env) World.empty (launchHistory name logMaxSize) =
      some (World.empty.set 0 { req, phase := .openingLog, log := none }) := by
  have start : World.empty.step env (.start 0 name [] logMaxSize) =
      some (World.empty.set 0 { req, phase := .creatingDir, log := none }) := by
    simp [World.step, built, World.empty]
  simp only [launchHistory, run, start, Option.bind_some, step_of_set, World.daemonStep,
    World.startUp, if_true, set_set, Daemon.to]

/-- A session without a log, up to where its daemon listens. -/
def servedHistory (name : Text) : List Event :=
  launchHistory name 0 ++ [.daemon 0 (.startUp true), .daemon 0 (.startUp true)]

theorem served (env : Environment) (name : Text) (valid : isValidBareName name = true) :
    ∃ world, run (World.step env) World.empty (servedHistory name) = some world ∧
      world.dir.entries = Function.update (fun _ => none) (socketPath env name) (some (.socket 0)) ∧
      world.listens (socketPath env name) = true := by
  obtain ⟨req, built, named, log⟩ := built_of_accepted env name [] 0 valid
  have noLog : req.logPath = none := log
  have free : (World.empty.set 0 { req, phase := .binding, log := none }).dir.entries
      req.socketPath = none := rfl
  have entries : (World.empty.dir.bind req.socketPath 0).entries =
      Function.update (fun _ => none) (socketPath env name) (some (.socket 0)) := by
    rw [← named]
    rfl
  refine ⟨{ World.empty.set 0 { req, phase := .serving, log := none } with
      dir := World.empty.dir.bind req.socketPath 0 }, ?_, entries, ?_⟩
  · rw [servedHistory, run_append, launched env name 0 req built]
    simp only [run, Option.bind_some, step_of_set, World.daemonStep, World.startUp, noLog, set_set,
      Daemon.to, free, and_self, if_true]
    rfl
  · simp only [World.listens, entries, Function.update_self, World.set, Option.any_some]
    rfl

/-- A session with a log, up to where its daemon has opened it. -/
theorem logged (env : Environment) (name : Text) (valid : isValidBareName name = true) :
    ∃ history world, run (World.step env) World.empty history = some world ∧
      world.dir.entries =
        Function.update (fun _ => none) (logPathFor (socketPath env name)) (some (.file 0)) := by
  obtain ⟨req, built, _, log⟩ := built_of_accepted env name [] 1 valid
  have named : req.logPath = some (logPathFor (socketPath env name)) := log
  refine ⟨launchHistory name 1 ++ [.daemon 0 (.startUp true)],
    World.openPath (World.empty.set 0 { req, phase := .openingLog, log := none }) 0
      { req, phase := .openingLog, log := none } (logPathFor (socketPath env name)), ?_, rfl⟩
  rw [run_append, launched env name 1 req built]
  simp only [run, Option.bind_some, step_of_set, World.daemonStep, World.startUp, named, if_true]

theorem removed_own (dir : Directory Text (List UInt8)) (socket path : Text)
    (own : Own socket path) :
    ((dir.remove socket).remove (logPathFor socket)).entries path = none := by
  cases known : ((dir.remove socket).remove (logPathFor socket)).entries path with
  | none => rfl
  | some entry =>
    rcases updated_some _ _ _ _ _ known with ⟨_, nothing⟩ | ⟨notLog, known⟩
    · cases nothing
    · rcases updated_some _ _ _ _ _ known with ⟨_, nothing⟩ | ⟨notSocket, _⟩
      · cases nothing
      · exact (own.elim notSocket notLog).elim

theorem not_separate (env : Environment) (one other path : Text) (entry : Entry) (world : World)
    (history : List Event) (ran : run (World.step env) World.empty history = some world)
    (there : world.dir.entries path = some entry) (own : Own (socketPath env one) path)
    (ownOther : Own (socketPath env other) path)
    (quiet : world.listens (socketPath env one) = false) : ¬ Separate env one other := by
  intro separate
  have gone := separate history world ran (.rm one true) _ rfl rfl
  have same := (gone.1 path ownOther).1
  rw [rm_world, quiet, if_neg Bool.false_ne_true, there, removed_own world.dir _ path own] at same
  cases same

/-- Two sessions keep out of each other's files exactly if neither's name is the other's
with `.log` behind it. -/
theorem separate_iff (env : Environment) (one other : Text) (valid : isValidBareName one = true)
    (validOther : isValidBareName other = true) (distinct : other ≠ one) :
    Separate env one other ↔ Apart one other := by
  refine ⟨fun separate => ⟨?_, ?_⟩, separate_of_apart env one other valid validOther distinct⟩
  · -- `rm` takes the other's socket for the log
    rintro rfl
    have shared := suffixed_socket_path env one valid validOther
    obtain ⟨world, ran, entries, _⟩ := served env _ validOther
    have there : world.dir.entries (socketPath env (one ++ logSuffix)) = some (.socket 0) := by
      rw [entries, Function.update_self]
    have nobody : world.listens (socketPath env one) = false := by
      have different : socketPath env one ≠ socketPath env (one ++ logSuffix) := by
        rw [shared, logPathFor]
        exact fun same => absurd (List.self_eq_append_right.mp same) (by decide)
      rw [World.listens, entries, Function.update_of_ne different]
    exact not_separate env one _ _ _ world _ ran there (Or.inr shared) (Or.inl rfl) nobody separate
  · -- `rm` takes the other's log for the socket
    rintro rfl
    have shared := suffixed_socket_path env other validOther valid
    obtain ⟨history, world, ran, entries⟩ := logged env other validOther
    have there : world.dir.entries (logPathFor (socketPath env other)) = some (.file 0) := by
      rw [entries, Function.update_self]
    have nobody : world.listens (socketPath env (other ++ logSuffix)) = false := by
      rw [World.listens, shared, there]
    exact not_separate env _ other _ _ world history ran there (Or.inl shared.symm) (Or.inr rfl) nobody
      separate

def freeUser : Environment :=
  { home := none, uid := 1000, shell := none, terminal := none }

theorem separate_unrelated : Separate freeUser ['a'] ['b'] :=
  (separate_iff freeUser ['a'] ['b'] (by decide) (by decide) (by decide)).mpr ⟨by decide, by decide⟩

-- While `a.log` runs, `rm a` removes its socket.
theorem running_session_removed :
    ∃ history world next, run (World.step freeUser) World.empty history = some world ∧
      world.listens (socketPath freeUser "a.log".toList) = true ∧
      world.step freeUser (.rm ['a'] false) = some next ∧
      next.dir.entries (socketPath freeUser "a.log".toList) = none ∧
      ¬ Separate freeUser ['a'] "a.log".toList := by
  refine ⟨[.start 0 "a.log".toList [] 0, .daemon 0 (.startUp true), .daemon 0 (.startUp true),
    .daemon 0 (.startUp true), .daemon 0 (.startUp true)], _, _, rfl, rfl, rfl, rfl, ?_⟩
  exact not_separate freeUser ['a'] "a.log".toList _ (.socket 0) _
    [.start 0 "a.log".toList [] 0, .daemon 0 (.startUp true), .daemon 0 (.startUp true),
      .daemon 0 (.startUp true), .daemon 0 (.startUp true)] rfl rfl (Or.inr rfl) (Or.inl rfl) rfl

end Hytch.SessionsApart
