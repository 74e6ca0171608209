import Hytch.ClearLog
import Hytch.DaemonLifecycle
import Hytch.FileDirectory
import Hytch.SpawnRequests

/-!
The session directory under the commands and the daemons of all its sessions. A
daemon moves one system call at a time; `clear` and `rm`, which wait for nobody,
are one step each.
-/

namespace Hytch.SessionDirectory

open DaemonLifecycle FileDirectory FilePrograms SessionNames SpawnRequests

/-- A daemon's open log and what its writer is doing; it is idle at `.done (some log)`. -/
structure LogFile where
  inode : Nat
  cursor : Nat
  task : Program UInt8 IoError (Option SessionLog)

structure Daemon where
  req : SpawnRequest
  phase : Phase
  log : Option LogFile

structure World where
  dir : Directory Text (List UInt8)
  daemons : Nat → Option Daemon

def openTask (maxSize : Nat) : Program UInt8 IoError (Option SessionLog) :=
  Program.bind (SessionLog.openLog id maxSize) fun
    | .ok log => .done (some log)
    | .error _ => .done none

-- `let _ = log.append(&chunk)`
def appendTask (log : SessionLog) (data : List UInt8) : Program UInt8 IoError (Option SessionLog) :=
  Program.bind (log.append id data) fun (_, log) => .done (some log)

def LogFile.opened (inode maxSize : Nat) : LogFile :=
  { inode, cursor := 0, task := openTask maxSize }

/-- The task is over, or its thread has panicked. -/
def LogFile.settled (log : LogFile) : Bool :=
  match log.task with
  | .call _ _ => false
  | _ => true

def Daemon.to (daemon : Daemon) (phase : Phase) : Daemon := { daemon with phase }

def Daemon.withLog (daemon : Daemon) (log : LogFile) : Daemon := { daemon with log := some log }

inductive DaemonEvent where
  | startUp (succeeds : Bool)
  /-- One system call of the log's writer, and how much it moves. -/
  | logCall (count : Nat)
  | logFault (fault : IoError)
  /-- The writer takes a chunk from its channel; the last one is the end marker. -/
  | append (data : List UInt8)
  /-- The child exits, or the daemon is told to stop. -/
  | leave (code : Nat)
  | unlink
  | crash

inductive Event where
  | start (pid : Nat) (session : Text) (cmd : List Text) (logMaxSize : UInt64)
  | daemon (pid : Nat) (event : DaemonEvent)
  /-- `code` is the child's, if it dies of the signal. -/
  | kill (session : Text) (code : Option Nat)
  | clear (session : Text) (quiet : Bool)
  | rm (session : Text) (quiet : Bool)
  | reboot

namespace World

def empty : World := { dir := Directory.empty, daemons := fun _ => none }

def set (world : World) (pid : Nat) (daemon : Daemon) : World :=
  { world with daemons := Function.update world.daemons pid (some daemon) }

/-- A connect to the path would be accepted. -/
def listens (world : World) (path : Text) : Bool :=
  match world.dir.entries path with
  | some (.socket owner) => (world.daemons owner).any fun daemon => daemon.phase.bound
  | _ => false

def openPath (world : World) (pid : Nat) (daemon : Daemon) (path : Text) : World :=
  let maxSize := daemon.req.logMaxSize.toNat
  match world.dir.entries path with
  | none =>
      { world.set pid (daemon.withLog (.opened world.dir.made maxSize)) with
        dir := world.dir.create path [] }
  | some (.file inode) => world.set pid (daemon.withLog (.opened inode maxSize))
  -- `ENXIO`
  | some (.socket _) => world.set pid (daemon.to (.exited (.code 1)))

/-- The next step of `run` up to the bind; an error ends the process with code 1. -/
def startUp (world : World) (pid : Nat) (daemon : Daemon) (succeeds : Bool) : Option World :=
  let failed := world.set pid (daemon.to (.exited (.code 1)))
  match daemon.phase, daemon.log with
  | .creatingDir, _ =>
      some (if succeeds then world.set pid (daemon.to .spawningProgram) else failed)
  | .spawningProgram, _ =>
      some (if succeeds then world.set pid (daemon.to .openingLog) else failed)
  | .openingLog, none =>
      match daemon.req.logPath with
      | none => some (world.set pid (daemon.to .binding))
      | some path => some (if succeeds then world.openPath pid daemon path else failed)
  | .openingLog, some log =>
      match log.task with
      | .done (some _) => some (world.set pid (daemon.to .binding))
      | .done none => some failed
      | .panicked => some (world.set pid (daemon.to (.exited (.code 101))))
      | .call _ _ => none
  | .binding, _ =>
      if succeeds ∧ world.dir.entries daemon.req.socketPath = none then
        some { world.set pid (daemon.to .serving) with dir := world.dir.bind daemon.req.socketPath pid }
      else some failed
  | _, _ => none

def logCall (world : World) (pid : Nat) (daemon : Daemon) (log : LogFile) (count : Nat) :
    Option World :=
  (log.task.step { content := world.dir.contents log.inode, cursor := log.cursor } count).map
    fun (task, file) =>
      { world.set pid (daemon.withLog { log with task, cursor := file.cursor }) with
        dir := world.dir.write log.inode file.content }

def daemonStep (world : World) (pid : Nat) (daemon : Daemon) : DaemonEvent → Option World
  | .startUp succeeds => world.startUp pid daemon succeeds
  | .logCall count =>
      if daemon.phase.starting ∨ daemon.phase.bound then
        daemon.log.bind fun log => world.logCall pid daemon log count
      else none
  | .logFault fault =>
      if daemon.phase.starting ∨ daemon.phase.bound then
        daemon.log.bind fun log => (log.task.fail fault).map fun task =>
          world.set pid (daemon.withLog { log with task })
      else none
  | .append data =>
      daemon.log.bind fun log =>
        match daemon.phase.bound, log.task with
        | true, .done (some held) =>
            some (world.set pid (daemon.withLog { log with task := appendTask held data }))
        | _, _ => none
  | .leave code => if daemon.phase = .serving then some (world.set pid (daemon.to (.closing code))) else none
  | .unlink =>
      match daemon.phase with
      | .closing code =>
          -- `handle.await` comes first
          if daemon.log.all LogFile.settled then
            some { world.set pid (daemon.to (.exited (.code code))) with
              dir := world.dir.remove daemon.req.socketPath }
          else none
      | _ => none
  | .crash =>
      if daemon.phase.starting ∨ daemon.phase.bound then
        some (world.set pid (daemon.to (.exited .killed)))
      else none

/-- The `Kill` message reaches the daemon that listens at the path. -/
def kill (world : World) (path : Text) (code : Nat) : World :=
  match world.dir.entries path with
  | some (.socket owner) =>
      match world.daemons owner with
      | some daemon =>
          if daemon.phase = .serving then world.set owner (daemon.to (.closing code)) else world
      | none => world
  | _ => world

def clear (world : World) (logPath : Text) (name : Text) (quiet : Bool) : World :=
  match world.dir.entries logPath with
  | some (.file inode) =>
      match ClearLog.clear (String.ofList name) quiet (.ok (world.dir.contents inode)) with
      | (.ok content, _) => { world with dir := world.dir.write inode content }
      | _ => world
  | _ => world

/-- The world afterwards, what is printed, and the exit code. -/
def rm (world : World) (socketPath logPath : Text) (name : Text) (quiet : Bool) :
    World × List Text × Nat :=
  if world.listens socketPath then
    (world, ["hytch: session '".toList ++ name ++ "' is running (use 'hytch kill ".toList ++ name ++
      "' first)".toList], 1)
  else
    let hadSocket := (world.dir.entries socketPath).isSome
    let hadLog := (world.dir.entries logPath).isSome
    let removed := { world with dir := (world.dir.remove socketPath).remove logPath }
    if !hadSocket && !hadLog then
      (removed, ["hytch: session '".toList ++ name ++ "' does not exist".toList], 1)
    else if !quiet then (removed, ["hytch: session '".toList ++ name ++ "' removed".toList], 0)
    else (removed, [], 0)

variable (env : Environment)

def step (world : World) : Event → Option World
  | .start pid session cmd logMaxSize =>
      match buildSpawnRequest env session cmd logMaxSize, world.daemons pid with
      | .error _, _ => some world
      | .ok req, none => some (world.set pid { req, phase := .creatingDir, log := none })
      | .ok _, some _ => none
  | .daemon pid event => (world.daemons pid).bind fun daemon => world.daemonStep pid daemon event
  | .kill session code => some (code.elim world (world.kill (socketPath env session)))
  | .clear session quiet =>
      some (world.clear (logPathFor (socketPath env session)) session quiet)
  | .rm session quiet =>
      some (world.rm (socketPath env session) (logPathFor (socketPath env session)) session quiet).1
  -- the directory is on disk
  | .reboot =>
      some { world with
        daemons := fun pid => (world.daemons pid).map fun daemon => daemon.to (.exited .killed) }

/-- The socket path of the session an event is a part of. -/
def session (world : World) : Event → Option Text
  | .start _ session _ _ => some (socketPath env session)
  | .daemon pid _ => (world.daemons pid).map fun daemon => daemon.req.socketPath
  | .kill session _ => some (socketPath env session)
  | .clear session _ => some (socketPath env session)
  | .rm session _ => some (socketPath env session)
  | .reboot => none

end World

end Hytch.SessionDirectory
