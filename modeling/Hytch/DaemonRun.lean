import Hytch.Attachments
import Hytch.LogWriter

/-!
The loop of `daemon.rs`, `run`: one task that takes commands, pty output, new
connections and pushes in a fixed order of preference, together with the client
tasks, the log writer thread, and a pty whose child may write, close its side
and exit as it likes. The loop's own steps are those between two of its
`await`s; a write to the pty goes out in pieces. `pick` is the biased select.
-/

namespace Hytch.DaemonRun

open HandleClient Attachments Runs

inductive ShutdownReason where
  | childExited (code : Option Int)
  | daemonSignaled
  deriving DecidableEq

structure Pty where
  /-- Written by the child's side and not yet read. -/
  output : List UInt8
  /-- Some process still holds the slave. -/
  slaveOpen : Bool
  alive : Bool
  /-- Everything written to the master. -/
  input : List UInt8
  deriving DecidableEq

inductive LoopPhase where
  | selecting
  /-- Pushed to the fanout, not yet sent to the log writer. -/
  | handingOff (chunk : List UInt8)
  | writing (payload rest : List UInt8)
  /-- `pty.wait().await` -/
  | waiting
  | leaving (reason : ShutdownReason)
  /-- The marker is sent; `handle.await`. -/
  | draining (reason : ShutdownReason)
  | unlinking (reason : ShutdownReason)
  | returned (reason : ShutdownReason)
  deriving DecidableEq

inductive WriteOutcome where
  | completed
  | timedOut
  | failed
  deriving DecidableEq

/-- A push the loop is done with. -/
structure PtyWrite where
  payload : List UInt8
  delivered : List UInt8
  outcome : WriteOutcome
  deriving DecidableEq

/-- What an iteration of the loop has started. -/
inductive Taken where
  | command (command : ControlCommand)
  /-- Nothing at the end of the output. -/
  | read (chunk : List UInt8)
  | accept (id : Nat)
  | push (payload : List UInt8)
  deriving DecidableEq

/-- The last four fields record what has happened; no step reads them. -/
structure Daemon where
  hub : Hub UInt8
  phase : LoopPhase
  pty : Pty
  /-- Connections the kernel holds for `accept`. -/
  backlog : List Nat
  sigterm : Bool
  sigint : Bool
  writer : LogWriter UInt8
  taken : List Taken
  enqueued : List (Nat × Outgoing)
  written : List PtyWrite
  appended : List (List UInt8)

inductive DaemonEvent where
  | childWrites (bytes : List UInt8)
  | slave (isOpen : Bool)
  | childExits
  | terminate
  | interrupt
  | connects (id : Nat)
  | task (event : HubEvent UInt8)
  /-- `count` is what a read of the pty returns. -/
  | select (count : Nat)
  | handOff
  | ptyWrite (count : Nat)
  | writeEnds (outcome : WriteOutcome)
  | reaped (code : Option Int)
  | shutDown (elapsed : Nat)
  | joined
  | unlinked
  | writer (event : WriterEvent)

/-- The steps of the child, the kernel and whoever sends signals. -/
def DaemonEvent.outside : DaemonEvent → Bool
  | .childWrites _ => true
  | .slave _ => true
  | .childExits => true
  | .terminate => true
  | .interrupt => true
  | .connects _ => true
  | _ => false

inductive Branch where
  | control
  | read
  | accept
  | push
  | sigterm
  | sigint
  deriving DecidableEq

def broadcastCapacity : Nat := 1024

def bufferSize : Nat := 4096

def formatAge (totalSecs : Nat) : String :=
  let d := totalSecs / 86400
  let h := (totalSecs % 86400) / 3600
  let m := (totalSecs % 3600) / 60
  let s := totalSecs % 60
  if d > 0 then toString d ++ "d " ++ toString h ++ "h " ++ toString m ++ "m " ++ toString s ++ "s"
  else if h > 0 then toString h ++ "h " ++ toString m ++ "m " ++ toString s ++ "s"
  else if m > 0 then toString m ++ "m " ++ toString s ++ "s"
  else toString s ++ "s"

example : formatAge 90065 = "1d 1h 1m 5s" := by decide +kernel

def utf8 (text : String) : List UInt8 := text.toList.flatMap String.utf8EncodeChar

def marker (elapsed : Nat) : List UInt8 :=
  utf8 ("\r\n[hytch: session ended after " ++ formatAge elapsed ++ "]\r\n")

/-- Other tasks of the runtime run only while the loop's task awaits something. -/
def LoopPhase.awaits : LoopPhase → Bool
  | .selecting => true
  | .writing _ _ => true
  | .waiting => true
  | .draining _ => true
  | _ => false

def LoopPhase.looping : LoopPhase → Bool
  | .selecting => true
  | .handingOff _ => true
  | .writing _ _ => true
  | _ => false

/-- The steps that belong to a client's task, and not to the loop. -/
def ofTask : HubEvent UInt8 → Bool
  | .input _ _ => true
  | .live _ => true
  | .write _ _ => true
  | .written _ => true
  | .writeFails _ => true
  | .enqueue _ => true
  | _ => false

/-- What an `enqueue` puts into one of the channels. -/
def handedOver (hub : Hub UInt8) : HubEvent UInt8 → List (Nat × Outgoing)
  | .enqueue id =>
      match hub.clients id with
      | some { attached := _, activity := .enqueuing item, socket := _ } =>
          if hub.serving then [(id, item)] else []
      | _ => []
  | _ => []

/-- The chunk a step of the log writer takes from its channel, to append it. -/
def received (writer : LogWriter UInt8) : WriterEvent → List (List UInt8)
  | .receive => writer.queue.take 1
  | _ => []

namespace Daemon

def start (scrollback : Nat) (content : List UInt8) (logging : Option Nat) : Option Daemon := do
  let hub ← Hub.start scrollback broadcastCapacity
  let writer ← LogWriter.start id content logging
  some { hub := hub, phase := .selecting
         pty := { output := [], slaveOpen := true, alive := true, input := [] }
         backlog := [], sigterm := false, sigint := false, writer := writer
         taken := [], enqueued := [], written := [], appended := [] }

def logging (daemon : Daemon) : Bool :=
  match daemon.writer.thread with
  | .off => false
  | _ => true

def ready (daemon : Daemon) : Branch → Bool
  -- the loop holds a sender of each channel itself: they never end
  | .control => !daemon.hub.controlQueue.isEmpty
  | .read => !daemon.pty.output.isEmpty || !daemon.pty.slaveOpen
  | .accept => !daemon.backlog.isEmpty
  | .push => !daemon.hub.pushQueue.isEmpty
  | .sigterm => daemon.sigterm
  | .sigint => daemon.sigint

/-- `biased;`: the first branch that is ready. -/
def pick (daemon : Daemon) : Option Branch :=
  [Branch.control, .read, .accept, .push, .sigterm, .sigint].find? daemon.ready

def onControl (daemon : Daemon) : Option Daemon :=
  match daemon.hub.controlQueue with
  | [] => none
  | command :: _ =>
      -- `pty.resize` or `pty.signal`, whose result is dropped
      (daemon.hub.step .takeControl).map fun hub =>
        { daemon with hub := hub, taken := daemon.taken ++ [.command command] }

def onRead (daemon : Daemon) (count : Nat) : Option Daemon :=
  if daemon.pty.output = [] then
    some { daemon with phase := .waiting, taken := daemon.taken ++ [.read []] }
  else if 0 < count ∧ count ≤ min bufferSize daemon.pty.output.length then
    let chunk := daemon.pty.output.take count
    (daemon.hub.step (.output chunk)).map fun hub =>
      { daemon with
        hub := hub
        phase := .handingOff chunk
        pty := { daemon.pty with output := daemon.pty.output.drop count }
        taken := daemon.taken ++ [.read chunk] }
  else none

def onAccept (daemon : Daemon) : Option Daemon :=
  match daemon.backlog with
  | [] => none
  | id :: rest =>
      (daemon.hub.step (.accept id)).map fun hub =>
        { daemon with hub := hub, backlog := rest, taken := daemon.taken ++ [.accept id] }

def onPush (daemon : Daemon) : Option Daemon :=
  match daemon.hub.pushQueue with
  | [] => none
  | data :: _ =>
      (daemon.hub.step .takePush).map fun hub =>
        { daemon with hub := hub, phase := .writing data data, taken := daemon.taken ++ [.push data] }

/-- One iteration of the loop up to its next `await`. -/
def select (daemon : Daemon) (count : Nat) : Option Daemon :=
  match daemon.pick with
  | some .control => daemon.onControl
  | some .read => daemon.onRead count
  | some .accept => daemon.onAccept
  | some .push => daemon.onPush
  | some .sigterm => some { daemon with phase := .leaving .daemonSignaled }
  | some .sigint => some { daemon with phase := .leaving .daemonSignaled }
  | none => none

/-- `timeout(PTY_WRITE_TIMEOUT, pty.write_all(&data))` may end like this. -/
def endsAs (rest : List UInt8) : WriteOutcome → Bool
  | .completed => rest.isEmpty
  | .timedOut => !rest.isEmpty
  | .failed => !rest.isEmpty

/-- The log writer has left its loop; a panic ends it as well. -/
def writerEnded (daemon : Daemon) : Bool :=
  match daemon.writer.thread, daemon.writer.queue with
  | .waiting _, [] => true
  | .appending .panicked, _ => true
  | _, _ => false

def step (daemon : Daemon) : DaemonEvent → Option Daemon
  | .childWrites bytes =>
      if daemon.pty.slaveOpen then
        some { daemon with pty := { daemon.pty with output := daemon.pty.output ++ bytes } }
      else none
  | .slave isOpen => some { daemon with pty := { daemon.pty with slaveOpen := isOpen } }
  | .childExits => some { daemon with pty := { daemon.pty with alive := false } }
  | .terminate => some { daemon with sigterm := true }
  | .interrupt => some { daemon with sigint := true }
  | .connects id =>
      if daemon.hub.serving ∧ (daemon.hub.clients id).isNone ∧ id ∉ daemon.backlog then
        some { daemon with backlog := daemon.backlog ++ [id] }
      else none
  | .task event =>
      if ofTask event ∧ daemon.phase.awaits then
        (daemon.hub.step event).map fun hub =>
          { daemon with hub := hub, enqueued := daemon.enqueued ++ handedOver daemon.hub event }
      else none
  | .select count => if daemon.phase = .selecting then daemon.select count else none
  | .handOff =>
      match daemon.phase with
      | .handingOff chunk =>
          some { daemon with
                 phase := .selecting
                 writer := if daemon.logging then daemon.writer.send chunk else daemon.writer }
      | _ => none
  | .ptyWrite count =>
      match daemon.phase with
      | .writing payload rest =>
          if 0 < count ∧ count ≤ rest.length then
            some { daemon with
                   phase := .writing payload (rest.drop count)
                   pty := { daemon.pty with input := daemon.pty.input ++ rest.take count } }
          else none
      | _ => none
  | .writeEnds outcome =>
      match daemon.phase with
      | .writing payload rest =>
          if endsAs rest outcome then
            some { daemon with
                   phase := .selecting
                   written := daemon.written ++
                     [{ payload := payload, delivered := payload.take (payload.length - rest.length)
                        outcome := outcome }] }
          else none
      | _ => none
  | .reaped code =>
      if daemon.phase = .waiting ∧ daemon.pty.alive = false then
        some { daemon with phase := .leaving (.childExited code) }
      else none
  | .shutDown elapsed =>
      match daemon.phase with
      | .leaving reason =>
          if daemon.logging then
            some { daemon with
                   phase := .draining reason, writer := daemon.writer.send (marker elapsed) }
          else some { daemon with phase := .unlinking reason }
      | _ => none
  | .joined =>
      match daemon.phase with
      | .draining reason =>
          if daemon.writerEnded then some { daemon with phase := .unlinking reason } else none
      | _ => none
  | .unlinked =>
      match daemon.phase with
      -- the receiving ends go when `run` returns
      | .unlinking reason =>
          (daemon.hub.step .stop).map fun hub =>
            { daemon with hub := hub, phase := .returned reason }
      | _ => none
  | .writer event =>
      (daemon.writer.step id event).map fun writer =>
        { daemon with writer := writer, appended := daemon.appended ++ received daemon.writer event }

end Daemon

inductive DaemonStep (daemon : Daemon) : DaemonEvent → Daemon → Prop where
  | outside {event : DaemonEvent} {pty : Pty} {backlog : List Nat} {sigterm sigint : Bool}
      (kind : event.outside = true) (input : pty.input = daemon.pty.input)
      (alive : pty.alive = true → daemon.pty.alive = true) (grows : daemon.backlog <+: backlog) :
      DaemonStep daemon event
        { daemon with pty := pty, backlog := backlog, sigterm := sigterm, sigint := sigint }
  | task {event : HubEvent UInt8} {hub : Hub UInt8} (own : ofTask event = true)
      (awaits : daemon.phase.awaits = true) (moved : daemon.hub.step event = some hub) :
      DaemonStep daemon (.task event)
        { daemon with hub := hub, enqueued := daemon.enqueued ++ handedOver daemon.hub event }
  | command {count : Nat} {command : ControlCommand} {rest : List ControlCommand} {hub : Hub UInt8}
      (selecting : daemon.phase = .selecting) (queue : daemon.hub.controlQueue = command :: rest)
      (moved : daemon.hub.step .takeControl = some hub) :
      DaemonStep daemon (.select count)
        { daemon with hub := hub, taken := daemon.taken ++ [.command command] }
  | read {count : Nat} {hub : Hub UInt8} (selecting : daemon.phase = .selecting)
      (quiet : daemon.hub.controlQueue = [])
      (bound : 0 < count ∧ count ≤ min bufferSize daemon.pty.output.length)
      (pushed : daemon.hub.step (.output (daemon.pty.output.take count)) = some hub) :
      DaemonStep daemon (.select count)
        { daemon with
          hub := hub
          phase := .handingOff (daemon.pty.output.take count)
          pty := { daemon.pty with output := daemon.pty.output.drop count }
          taken := daemon.taken ++ [.read (daemon.pty.output.take count)] }
  | ended {count : Nat} (selecting : daemon.phase = .selecting)
      (quiet : daemon.hub.controlQueue = []) (nothing : daemon.pty.output = [])
      (closed : daemon.pty.slaveOpen = false) :
      DaemonStep daemon (.select count)
        { daemon with phase := .waiting, taken := daemon.taken ++ [.read []] }
  | accept {count id : Nat} {rest : List Nat} {hub : Hub UInt8}
      (selecting : daemon.phase = .selecting) (quiet : daemon.hub.controlQueue = [])
      (waiting : daemon.backlog = id :: rest) (accepted : daemon.hub.step (.accept id) = some hub) :
      DaemonStep daemon (.select count)
        { daemon with hub := hub, backlog := rest, taken := daemon.taken ++ [.accept id] }
  | push {count : Nat} {data : List UInt8} {rest : List (List UInt8)} {hub : Hub UInt8}
      (selecting : daemon.phase = .selecting) (quiet : daemon.hub.controlQueue = [])
      (queue : daemon.hub.pushQueue = data :: rest) (moved : daemon.hub.step .takePush = some hub) :
      DaemonStep daemon (.select count)
        { daemon with hub := hub, phase := .writing data data, taken := daemon.taken ++ [.push data] }
  | signaled {count : Nat} (selecting : daemon.phase = .selecting)
      (quiet : daemon.hub.controlQueue = [])
      (signal : daemon.pick = some .sigterm ∨ daemon.pick = some .sigint) :
      DaemonStep daemon (.select count) { daemon with phase := .leaving .daemonSignaled }
  | handOff {chunk : List UInt8} (pending : daemon.phase = .handingOff chunk) :
      DaemonStep daemon .handOff
        { daemon with
          phase := .selecting
          writer := if daemon.logging then daemon.writer.send chunk else daemon.writer }
  | ptyWrite {count : Nat} {payload rest : List UInt8} (writing : daemon.phase = .writing payload rest)
      (bound : 0 < count ∧ count ≤ rest.length) :
      DaemonStep daemon (.ptyWrite count)
        { daemon with
          phase := .writing payload (rest.drop count)
          pty := { daemon.pty with input := daemon.pty.input ++ rest.take count } }
  | writeEnds {outcome : WriteOutcome} {payload rest : List UInt8}
      (writing : daemon.phase = .writing payload rest)
      (ends : Daemon.endsAs rest outcome = true) :
      DaemonStep daemon (.writeEnds outcome)
        { daemon with
          phase := .selecting
          written := daemon.written ++
            [{ payload := payload, delivered := payload.take (payload.length - rest.length)
               outcome := outcome }] }
  | reaped {code : Option Int} (waiting : daemon.phase = .waiting) (dead : daemon.pty.alive = false) :
      DaemonStep daemon (.reaped code) { daemon with phase := .leaving (.childExited code) }
  | marked {elapsed : Nat} {reason : ShutdownReason} (leaving : daemon.phase = .leaving reason)
      (logging : daemon.logging = true) :
      DaemonStep daemon (.shutDown elapsed)
        { daemon with phase := .draining reason, writer := daemon.writer.send (marker elapsed) }
  | unmarked {elapsed : Nat} {reason : ShutdownReason} (leaving : daemon.phase = .leaving reason)
      (silent : daemon.logging = false) :
      DaemonStep daemon (.shutDown elapsed) { daemon with phase := .unlinking reason }
  | joined {reason : ShutdownReason} (draining : daemon.phase = .draining reason)
      (ended : daemon.writerEnded = true) :
      DaemonStep daemon .joined { daemon with phase := .unlinking reason }
  | unlinked {reason : ShutdownReason} {hub : Hub UInt8} (unlinking : daemon.phase = .unlinking reason)
      (stopped : daemon.hub.step .stop = some hub) :
      DaemonStep daemon .unlinked { daemon with hub := hub, phase := .returned reason }
  | writer {event : WriterEvent} {writer : LogWriter UInt8}
      (moved : daemon.writer.step id event = some writer) :
      DaemonStep daemon (.writer event)
        { daemon with writer := writer, appended := daemon.appended ++ received daemon.writer event }

theorem writer_works_off (writer next : LogWriter UInt8) (event : WriterEvent)
    (taken : writer.step id event = some next) :
    received writer event ++ next.queue = writer.queue ∧ next.thread ≠ .off ∧
      writer.thread ≠ .off := by
  cases event with
  | receive =>
    simp only [LogWriter.step] at taken
    split at taken
    · rename_i log chunk rest waiting queue
      cases taken
      simp [received, queue, waiting]
    · cases taken
  | systemCall count =>
    simp only [LogWriter.step] at taken
    split at taken
    · rename_i call appending
      obtain ⟨moved, _, rfl⟩ := Option.map_eq_some_iff.mp taken
      simp [received, appending]
    · cases taken
  | writeFails fault =>
    simp only [LogWriter.step] at taken
    split at taken
    · rename_i call appending
      obtain ⟨moved, _, rfl⟩ := Option.map_eq_some_iff.mp taken
      simp [received, appending]
    · cases taken
  | returned =>
    simp only [LogWriter.step] at taken
    split at taken
    · rename_i outcome log done
      cases taken
      simp [received, done]
    · cases taken

/-- A command in the channel wins every select. -/
theorem pick_control (daemon : Daemon) (waiting : daemon.hub.controlQueue ≠ []) :
    daemon.pick = some .control := by
  have first : daemon.ready .control = true := by simpa [Daemon.ready] using waiting
  simp [Daemon.pick, first]

theorem pick_quiet (daemon : Daemon) (branch : Branch) (picked : daemon.pick = some branch)
    (other : branch ≠ .control) : daemon.hub.controlQueue = [] := by
  by_contra waiting
  rw [pick_control daemon waiting] at picked
  exact other (Option.some.inj picked).symm

theorem pick_ready (daemon : Daemon) (branch : Branch) (picked : daemon.pick = some branch) :
    daemon.ready branch = true :=
  List.find?_some picked

theorem select_cases (daemon next : Daemon) (count : Nat) (selecting : daemon.phase = .selecting)
    (taken : daemon.select count = some next) : DaemonStep daemon (.select count) next := by
  unfold Daemon.select at taken
  split at taken
  · simp only [Daemon.onControl] at taken
    split at taken
    · cases taken
    · rename_i command rest queue
      obtain ⟨hub, moved, rfl⟩ := Option.map_eq_some_iff.mp taken
      exact .command selecting queue moved
  · rename_i picked
    have quiet := pick_quiet daemon .read picked (by decide)
    have readable := pick_ready daemon .read picked
    simp only [Daemon.onRead] at taken
    split at taken
    · rename_i nothing
      cases taken
      exact .ended selecting quiet nothing (by simpa [Daemon.ready, nothing] using readable)
    · split at taken
      · rename_i bound
        obtain ⟨hub, pushed, rfl⟩ := Option.map_eq_some_iff.mp taken
        exact .read selecting quiet bound pushed
      · cases taken
  · rename_i picked
    have quiet := pick_quiet daemon .accept picked (by decide)
    simp only [Daemon.onAccept] at taken
    split at taken
    · cases taken
    · rename_i id rest waiting
      obtain ⟨hub, accepted, rfl⟩ := Option.map_eq_some_iff.mp taken
      exact .accept selecting quiet waiting accepted
  · rename_i picked
    have quiet := pick_quiet daemon .push picked (by decide)
    simp only [Daemon.onPush] at taken
    split at taken
    · cases taken
    · rename_i data rest queue
      obtain ⟨hub, moved, rfl⟩ := Option.map_eq_some_iff.mp taken
      exact .push selecting quiet queue moved
  · rename_i picked
    cases taken
    exact .signaled selecting (pick_quiet daemon .sigterm picked (by decide)) (.inl picked)
  · rename_i picked
    cases taken
    exact .signaled selecting (pick_quiet daemon .sigint picked (by decide)) (.inr picked)
  · cases taken

theorem daemon_step_cases (daemon next : Daemon) (event : DaemonEvent)
    (taken : daemon.step event = some next) : DaemonStep daemon event next := by
  cases event with
  | childWrites bytes =>
    simp only [Daemon.step] at taken
    split at taken
    · cases taken
      exact .outside rfl rfl (fun alive => alive) (List.prefix_refl _)
    · cases taken
  | slave isOpen =>
    cases taken
    exact .outside rfl rfl (fun alive => alive) (List.prefix_refl _)
  | childExits =>
    cases taken
    exact .outside rfl rfl (fun alive => by cases alive) (List.prefix_refl _)
  | terminate =>
    cases taken
    exact .outside rfl rfl (fun alive => alive) (List.prefix_refl _)
  | interrupt =>
    cases taken
    exact .outside rfl rfl (fun alive => alive) (List.prefix_refl _)
  | connects id =>
    simp only [Daemon.step] at taken
    split at taken
    · cases taken
      exact .outside rfl rfl (fun alive => alive) (List.prefix_append _ _)
    · cases taken
  | task event =>
    simp only [Daemon.step] at taken
    split at taken
    · rename_i allowed
      obtain ⟨hub, moved, rfl⟩ := Option.map_eq_some_iff.mp taken
      exact .task allowed.1 allowed.2 moved
    · cases taken
  | select count =>
    simp only [Daemon.step] at taken
    split at taken
    · exact select_cases daemon next count ‹_› taken
    · cases taken
  | handOff =>
    simp only [Daemon.step] at taken
    split at taken
    · rename_i chunk pending
      cases taken
      exact .handOff pending
    · cases taken
  | ptyWrite count =>
    simp only [Daemon.step] at taken
    split at taken
    · rename_i payload rest writing
      split at taken
      · rename_i bound
        cases taken
        exact .ptyWrite writing bound
      · cases taken
    · cases taken
  | writeEnds outcome =>
    simp only [Daemon.step] at taken
    split at taken
    · rename_i payload rest writing
      split at taken
      · rename_i ends
        cases taken
        exact .writeEnds writing ends
      · cases taken
    · cases taken
  | reaped code =>
    simp only [Daemon.step] at taken
    split at taken
    · rename_i ready
      cases taken
      exact .reaped ready.1 ready.2
    · cases taken
  | shutDown elapsed =>
    simp only [Daemon.step] at taken
    split at taken
    · rename_i reason leaving
      split at taken
      · rename_i logging
        cases taken
        exact .marked leaving logging
      · rename_i silent
        cases taken
        exact .unmarked leaving (by simpa using silent)
    · cases taken
  | joined =>
    simp only [Daemon.step] at taken
    split at taken
    · rename_i reason draining
      split at taken
      · rename_i ended
        cases taken
        exact .joined draining ended
      · cases taken
    · cases taken
  | unlinked =>
    simp only [Daemon.step] at taken
    split at taken
    · rename_i reason unlinking
      obtain ⟨hub, stopped, rfl⟩ := Option.map_eq_some_iff.mp taken
      exact .unlinked unlinking stopped
    · cases taken
  | writer event =>
    obtain ⟨writer, moved, rfl⟩ := Option.map_eq_some_iff.mp taken
    exact .writer moved

/-! The two channels: what was put in against what the loop has taken out. -/

def commandsPut (enqueued : List (Nat × Outgoing)) : List ControlCommand :=
  enqueued.filterMap fun
    | (_, .control command) => some command
    | _ => none

def payloadsPut (enqueued : List (Nat × Outgoing)) : List (List UInt8) :=
  enqueued.filterMap fun
    | (_, .push data) => some data
    | _ => none

def commandsTaken (taken : List Taken) : List ControlCommand :=
  taken.filterMap fun
    | .command command => some command
    | _ => none

def payloadsTaken (taken : List Taken) : List (List UInt8) :=
  taken.filterMap fun
    | .push payload => some payload
    | _ => none

/-- What a step does to the channels and to the record of them. -/
inductive Flow (daemon next : Daemon) : Prop where
  | puts {added : List (Nat × Outgoing)} (enqueued : next.enqueued = daemon.enqueued ++ added)
      (taken : next.taken = daemon.taken) (serving : next.hub.serving = daemon.hub.serving)
      (control : next.hub.controlQueue = daemon.hub.controlQueue ++ commandsPut added)
      (push : next.hub.pushQueue = daemon.hub.pushQueue ++ payloadsPut added)
      (received : daemon.hub.serving = true ∨ added = []) : Flow daemon next
  | takes {entry : Taken} (selecting : daemon.phase = .selecting)
      (taken : next.taken = daemon.taken ++ [entry])
      (enqueued : next.enqueued = daemon.enqueued) (serving : next.hub.serving = daemon.hub.serving)
      (control : daemon.hub.controlQueue = commandsTaken [entry] ++ next.hub.controlQueue)
      (push : daemon.hub.pushQueue = payloadsTaken [entry] ++ next.hub.pushQueue)
      (first : daemon.hub.controlQueue = [] ∨ ∃ command, entry = .command command) :
      Flow daemon next
  | stops (enqueued : next.enqueued = daemon.enqueued) (taken : next.taken = daemon.taken)
      (off : next.hub.serving = false) (control : next.hub.controlQueue = [])
      (push : next.hub.pushQueue = []) : Flow daemon next

theorem client_queues (hub next : Hub UInt8) (id : Nat) (task : Client UInt8 → Option (Client UInt8))
    (moved : hub.onClient id task = some next) :
    next.serving = hub.serving ∧ next.controlQueue = hub.controlQueue ∧
      next.pushQueue = hub.pushQueue := by
  obtain ⟨client, after, _, _, rfl⟩ := on_client_cases hub next id task moved
  exact ⟨rfl, rfl, rfl⟩

theorem handed_over_enqueue (hub : Hub UInt8) (id : Nat) (client : Client UInt8) (item : Outgoing)
    (known : hub.clients id = some client) (waiting : client.activity = .enqueuing item) :
    handedOver hub (.enqueue id) = if hub.serving then [(id, item)] else [] := by
  obtain ⟨attached, activity, socket⟩ := client
  cases waiting
  simp [handedOver, known]

theorem task_queues (hub next : Hub UInt8) (event : HubEvent UInt8) (own : ofTask event = true)
    (moved : hub.step event = some next) :
    next.serving = hub.serving ∧
      next.controlQueue = hub.controlQueue ++ commandsPut (handedOver hub event) ∧
      next.pushQueue = hub.pushQueue ++ payloadsPut (handedOver hub event) ∧
      (hub.serving = true ∨ handedOver hub event = []) := by
  cases event with
  | output chunk => cases own
  | accept id => cases own
  | takePush => cases own
  | takeControl => cases own
  | stop => cases own
  | enqueue id =>
    obtain ⟨client, known, rest⟩ := Option.bind_eq_some_iff.mp moved
    split at rest
    · rename_i item waiting
      have record := handed_over_enqueue hub id client item known waiting
      split at rest
      · rename_i serving
        rw [record, if_pos serving]
        cases item with
        | push data =>
          simp only at rest
          split at rest
          · cases rest
            simp [commandsPut, payloadsPut, Hub.setClient, serving]
          · cases rest
        | control command =>
          simp only at rest
          split at rest
          · cases rest
            simp [commandsPut, payloadsPut, Hub.setClient, serving]
          · cases rest
      · rename_i off
        cases rest
        rw [record, if_neg off]
        simp [commandsPut, payloadsPut, Hub.setClient]
    · cases rest
  | _ =>
    have same := client_queues hub next _ _ moved
    simpa [handedOver, commandsPut, payloadsPut] using same

theorem output_queues (hub next : Hub UInt8) (chunk : List UInt8)
    (pushed : hub.step (.output chunk) = some next) :
    next.serving = hub.serving ∧ hub.controlQueue = next.controlQueue ∧
      hub.pushQueue = next.pushQueue := by
  obtain ⟨fanout, _, rfl⟩ := Option.map_eq_some_iff.mp pushed
  exact ⟨rfl, rfl, rfl⟩

theorem accept_queues (hub next : Hub UInt8) (id : Nat)
    (accepted : hub.step (.accept id) = some next) :
    next.serving = hub.serving ∧ hub.controlQueue = next.controlQueue ∧
      hub.pushQueue = next.pushQueue := by
  simp only [Hub.step] at accepted
  split at accepted
  · cases accepted
    exact ⟨rfl, rfl, rfl⟩
  · cases accepted

theorem take_control_queues (hub next : Hub UInt8) (command : ControlCommand)
    (rest : List ControlCommand) (queue : hub.controlQueue = command :: rest)
    (moved : hub.step .takeControl = some next) :
    next.serving = hub.serving ∧ hub.controlQueue = [command] ++ next.controlQueue ∧
      hub.pushQueue = next.pushQueue := by
  simp only [Hub.step, queue, Option.some.injEq] at moved
  subst moved
  exact ⟨rfl, queue, rfl⟩

theorem take_push_queues (hub next : Hub UInt8) (data : List UInt8) (rest : List (List UInt8))
    (queue : hub.pushQueue = data :: rest) (moved : hub.step .takePush = some next) :
    next.serving = hub.serving ∧ hub.controlQueue = next.controlQueue ∧
      hub.pushQueue = [data] ++ next.pushQueue := by
  simp only [Hub.step, queue, Option.some.injEq] at moved
  subst moved
  exact ⟨rfl, rfl, queue⟩

theorem flow_cases (daemon next : Daemon) (event : DaemonEvent)
    (taken : daemon.step event = some next) : Flow daemon next := by
  have still (enqueued : next.enqueued = daemon.enqueued) (taken : next.taken = daemon.taken)
      (hub : next.hub = daemon.hub) : Flow daemon next := by
    have nothing : next.enqueued = daemon.enqueued ++ [] := by rw [enqueued, List.append_nil]
    refine .puts nothing taken ?_ ?_ ?_ (.inr rfl)
    · rw [hub]
    · rw [hub]
      exact (List.append_nil _).symm
    · rw [hub]
      exact (List.append_nil _).symm
  cases daemon_step_cases daemon next event taken with
  | task own awaits moved =>
    obtain ⟨serving, control, push, received⟩ := task_queues _ _ _ own moved
    exact .puts rfl rfl serving control push received
  | command selecting queue moved =>
    obtain ⟨serving, control, push⟩ := take_control_queues _ _ _ _ queue moved
    exact .takes selecting rfl rfl serving control push (.inr ⟨_, rfl⟩)
  | read selecting quiet bound pushed =>
    obtain ⟨serving, control, push⟩ := output_queues _ _ _ pushed
    exact .takes selecting rfl rfl serving control push (.inl quiet)
  | ended selecting quiet nothing closed => exact .takes selecting rfl rfl rfl rfl rfl (.inl quiet)
  | accept selecting quiet waiting accepted =>
    obtain ⟨serving, control, push⟩ := accept_queues _ _ _ accepted
    exact .takes selecting rfl rfl serving control push (.inl quiet)
  | push selecting quiet queue moved =>
    obtain ⟨serving, control, push⟩ := take_push_queues _ _ _ _ queue moved
    exact .takes selecting rfl rfl serving control push (.inl quiet)
  | unlinked unlinking stopped =>
    cases stopped
    exact .stops rfl rfl rfl rfl rfl
  | outside kind input alive => exact still rfl rfl rfl
  | signaled selecting quiet signal => exact still rfl rfl rfl
  | handOff pending => exact still rfl rfl rfl
  | ptyWrite writing bound => exact still rfl rfl rfl
  | writeEnds writing ends => exact still rfl rfl rfl
  | reaped waiting dead => exact still rfl rfl rfl
  | marked leaving logging => exact still rfl rfl rfl
  | unmarked leaving silent => exact still rfl rfl rfl
  | joined draining ended => exact still rfl rfl rfl
  | writer moved => exact still rfl rfl rfl

theorem records_grow (daemon next : Daemon) (event : DaemonEvent)
    (taken : daemon.step event = some next) :
    daemon.enqueued <+: next.enqueued ∧ daemon.taken <+: next.taken := by
  cases flow_cases daemon next event taken with
  | puts enqueued same serving control push received => simp [enqueued, same]
  | takes selecting same enqueued serving control push first => simp [enqueued, same]
  | stops enqueued same off control push => simp [enqueued, same]

/-- Both channels are first in, first out, and lose nothing until the receiving
ends are dropped. -/
inductive Channels (daemon : Daemon) : Prop where
  | serving (on : daemon.hub.serving = true)
      (control : commandsPut daemon.enqueued = commandsTaken daemon.taken ++ daemon.hub.controlQueue)
      (push : payloadsPut daemon.enqueued = payloadsTaken daemon.taken ++ daemon.hub.pushQueue) :
      Channels daemon
  | dropped (off : daemon.hub.serving = false) (noControl : daemon.hub.controlQueue = [])
      (noPush : daemon.hub.pushQueue = [])
      (control : commandsTaken daemon.taken <+: commandsPut daemon.enqueued)
      (push : payloadsTaken daemon.taken <+: payloadsPut daemon.enqueued) : Channels daemon

@[simp] theorem commandsPut_append (first second : List (Nat × Outgoing)) :
    commandsPut (first ++ second) = commandsPut first ++ commandsPut second :=
  List.filterMap_append

@[simp] theorem payloadsPut_append (first second : List (Nat × Outgoing)) :
    payloadsPut (first ++ second) = payloadsPut first ++ payloadsPut second :=
  List.filterMap_append

@[simp] theorem commandsTaken_append (first second : List Taken) :
    commandsTaken (first ++ second) = commandsTaken first ++ commandsTaken second :=
  List.filterMap_append

@[simp] theorem payloadsTaken_append (first second : List Taken) :
    payloadsTaken (first ++ second) = payloadsTaken first ++ payloadsTaken second :=
  List.filterMap_append

theorem commands_put_grow (first second : List (Nat × Outgoing)) (initial : first <+: second) :
    commandsPut first <+: commandsPut second :=
  initial.filterMap _

theorem payloads_put_grow (first second : List (Nat × Outgoing)) (initial : first <+: second) :
    payloadsPut first <+: payloadsPut second :=
  initial.filterMap _

theorem commands_taken_grow (first second : List Taken) (initial : first <+: second) :
    commandsTaken first <+: commandsTaken second :=
  initial.filterMap _

theorem payloads_taken_grow (first second : List Taken) (initial : first <+: second) :
    payloadsTaken first <+: payloadsTaken second :=
  initial.filterMap _

theorem channels_step (daemon next : Daemon) (event : DaemonEvent) (channels : Channels daemon)
    (taken : daemon.step event = some next) : Channels next := by
  cases flow_cases daemon next event taken with
  | @puts added enqueued taken serving controls pushes received =>
    cases channels with
    | serving on control push =>
      refine .serving (serving.trans on) ?_ ?_
      · rw [enqueued, taken, controls, commandsPut_append, control, List.append_assoc]
      · rw [enqueued, taken, pushes, payloadsPut_append, push, List.append_assoc]
    | dropped off noControl noPush control push =>
      rcases received with on | rfl
      · rw [off] at on
        cases on
      · rw [List.append_nil] at enqueued
        refine .dropped (serving.trans off) ?_ ?_ ?_ ?_
        · rw [controls, noControl]
          rfl
        · rw [pushes, noPush]
          rfl
        · rwa [enqueued, taken]
        · rwa [enqueued, taken]
  | takes selecting taken enqueued serving controls pushes first =>
    cases channels with
    | serving on control push =>
      refine .serving (serving.trans on) ?_ ?_
      · rw [enqueued, control, controls, taken, commandsTaken_append, List.append_assoc]
      · rw [enqueued, push, pushes, taken, payloadsTaken_append, List.append_assoc]
    | dropped off noControl noPush control push =>
      -- nothing is left to be taken out
      obtain ⟨no_command, rest⟩ := List.append_eq_nil_iff.mp (controls.symm.trans noControl)
      obtain ⟨no_payload, others⟩ := List.append_eq_nil_iff.mp (pushes.symm.trans noPush)
      refine .dropped (serving.trans off) rest others ?_ ?_
      · rwa [enqueued, taken, commandsTaken_append, no_command, List.append_nil]
      · rwa [enqueued, taken, payloadsTaken_append, no_payload, List.append_nil]
  | stops enqueued taken off noControl noPush =>
    refine .dropped off noControl noPush ?_ ?_
    · rw [enqueued, taken]
      cases channels with
      | serving on control push => exact control ▸ List.prefix_append _ _
      | dropped _ _ _ control push => exact control
    · rw [enqueued, taken]
      cases channels with
      | serving on control push => exact push ▸ List.prefix_append _ _
      | dropped _ _ _ control push => exact push

/-- The receiving ends are dropped only when `run` returns. -/
def Open (daemon : Daemon) : Prop :=
  daemon.hub.serving = true ∨ ∃ reason, daemon.phase = .returned reason

/-- What no step changes once `run` has returned. -/
structure Over (daemon next : Daemon) : Prop where
  phase : next.phase = daemon.phase
  hub : next.hub = daemon.hub
  taken : next.taken = daemon.taken
  enqueued : next.enqueued = daemon.enqueued
  written : next.written = daemon.written
  input : next.pty.input = daemon.pty.input

theorem after_return (daemon next : Daemon) (event : DaemonEvent) (reason : ShutdownReason)
    (phase : daemon.phase = .returned reason) (taken : daemon.step event = some next) :
    Over daemon next := by
  cases daemon_step_cases daemon next event taken with
  | outside kind input alive => exact ⟨rfl, rfl, rfl, rfl, rfl, input⟩
  | writer moved => exact ⟨rfl, rfl, rfl, rfl, rfl, rfl⟩
  | task own awaits moved => simp [phase, LoopPhase.awaits] at awaits
  | command selecting queue moved => simp [phase] at selecting
  | read selecting quiet bound pushed => simp [phase] at selecting
  | ended selecting quiet nothing closed => simp [phase] at selecting
  | accept selecting quiet waiting accepted => simp [phase] at selecting
  | push selecting quiet queue moved => simp [phase] at selecting
  | signaled selecting quiet signal => simp [phase] at selecting
  | handOff pending => simp [phase] at pending
  | ptyWrite writing bound => simp [phase] at writing
  | writeEnds writing ends => simp [phase] at writing
  | reaped waiting dead => simp [phase] at waiting
  | marked leaving logging => simp [phase] at leaving
  | unmarked leaving silent => simp [phase] at leaving
  | joined draining ended => simp [phase] at draining
  | unlinked unlinking stopped => simp [phase] at unlinking

theorem open_step (daemon next : Daemon) (event : DaemonEvent) (isOpen : Open daemon)
    (taken : daemon.step event = some next) : Open next := by
  have steps := daemon_step_cases daemon next event taken
  rcases isOpen with on | ⟨reason, phase⟩
  · cases flow_cases daemon next event taken with
    | puts enqueued same serving control push received => exact .inl (serving.trans on)
    | takes selecting same enqueued serving control push first => exact .inl (serving.trans on)
    | stops enqueued same off control push =>
      cases steps with
      | unlinked unlinking stopped => exact .inr ⟨_, rfl⟩
      | task own awaits moved =>
        rw [(task_queues _ _ _ own moved).1, on] at off
        cases off
      | command selecting queue moved =>
        rw [(take_control_queues _ _ _ _ queue moved).1, on] at off
        cases off
      | read selecting quiet bound pushed =>
        rw [(output_queues _ _ _ pushed).1, on] at off
        cases off
      | accept selecting quiet waiting accepted =>
        rw [(accept_queues _ _ _ accepted).1, on] at off
        cases off
      | push selecting quiet queue moved =>
        rw [(take_push_queues _ _ _ _ queue moved).1, on] at off
        cases off
      | _ => exact .inl on
  · exact .inr ⟨reason, (after_return daemon next event reason phase taken).phase.trans phase⟩

theorem start_cases (scrollback : Nat) (content : List UInt8) (logging : Option Nat) (daemon : Daemon)
    (started : Daemon.start scrollback content logging = some daemon) :
    ∃ hub writer, Hub.start scrollback broadcastCapacity = some hub ∧
      LogWriter.start id content logging = some writer ∧
      daemon = { hub := hub, phase := .selecting
                 pty := { output := [], slaveOpen := true, alive := true, input := [] }
                 backlog := [], sigterm := false, sigint := false, writer := writer
                 taken := [], enqueued := [], written := [], appended := [] } := by
  simp only [Daemon.start, Option.bind_eq_bind, Option.bind_eq_some_iff, Option.some.injEq] at started
  obtain ⟨hub, created, writer, opened, rfl⟩ := started
  exact ⟨hub, writer, created, opened, rfl⟩

theorem channels_start (scrollback : Nat) (content : List UInt8) (logging : Option Nat)
    (daemon : Daemon) (started : Daemon.start scrollback content logging = some daemon) :
    Channels daemon := by
  obtain ⟨hub, writer, created, _, rfl⟩ := start_cases scrollback content logging daemon started
  obtain ⟨fanout, _, rfl⟩ := hub_start_cases _ _ _ created
  exact .serving rfl rfl rfl

theorem open_start (scrollback : Nat) (content : List UInt8) (logging : Option Nat)
    (daemon : Daemon) (started : Daemon.start scrollback content logging = some daemon) :
    Open daemon := by
  obtain ⟨hub, writer, created, _, rfl⟩ := start_cases scrollback content logging daemon started
  obtain ⟨fanout, _, rfl⟩ := hub_start_cases _ _ _ created
  exact .inl rfl

theorem channels_run (scrollback : Nat) (content : List UInt8) (logging : Option Nat)
    (start last : Daemon) (events : List DaemonEvent)
    (started : Daemon.start scrollback content logging = some start)
    (ran : run Daemon.step start events = some last) : Channels last ∧ Open last := by
  refine run_invariant Daemon.step (fun state => Channels state ∧ Open state) ?_ start last events
    ⟨channels_start scrollback content logging start started,
      open_start scrollback content logging start started⟩ ran
  rintro state event next ⟨channels, isOpen⟩ taken
  exact ⟨channels_step state next event channels taken, open_step state next event isOpen taken⟩

def outputRead (taken : List Taken) : List UInt8 :=
  (taken.map fun
    | .read chunk => chunk
    | _ => []).flatten

/-- A step of the daemon as a step of the clients' hub. -/
inductive HubMove (daemon next : Daemon) (event : DaemonEvent) : Prop where
  | unmoved (hub : next.hub = daemon.hub) (read : outputRead next.taken = outputRead daemon.taken) :
      HubMove daemon next event
  | moved {hubEvent : HubEvent UInt8} (step : daemon.hub.step hubEvent = some next.hub)
      (read : outputRead next.taken = outputRead daemon.taken ++ outputs [hubEvent])
      (source : event = .task hubEvent ∨ ∀ id, ¬ EndsAttachment id hubEvent)
      (some_output : ∀ chunk, hubEvent = .output chunk → chunk ≠ []) : HubMove daemon next event

theorem hub_move_cases (daemon next : Daemon) (event : DaemonEvent)
    (taken : daemon.step event = some next) : HubMove daemon next event := by
  cases daemon_step_cases daemon next event taken with
  | @task event hub own awaits moved =>
    have silent : outputs [event] = [] := by cases event <;> first | rfl | cases own
    refine .moved moved ?_ (.inl rfl) (by rintro chunk rfl; cases own)
    rw [silent, List.append_nil]
  | command selecting queue moved =>
    exact .moved moved (by simp [outputRead, outputs]) (.inr fun _ never => never) (by simp)
  | @read count hub selecting quiet bound pushed =>
    refine .moved pushed (by simp [outputRead, outputs]) (.inr fun _ never => never) ?_
    rintro chunk ⟨⟩ nothing
    have length := congrArg List.length nothing
    rw [List.length_take, List.length_nil] at length
    omega
  | ended selecting quiet nothing closed => exact .unmoved rfl (by simp [outputRead])
  | accept selecting quiet waiting accepted =>
    exact .moved accepted (by simp [outputRead, outputs]) (.inr fun _ never => never) (by simp)
  | push selecting quiet queue moved =>
    exact .moved moved (by simp [outputRead, outputs]) (.inr fun _ never => never) (by simp)
  | unlinked unlinking stopped =>
    exact .moved stopped (by simp [outputs]) (.inr fun _ never => never) (by simp)
  | outside kind input alive => exact .unmoved rfl rfl
  | signaled selecting quiet signal => exact .unmoved rfl rfl
  | handOff pending => exact .unmoved rfl rfl
  | ptyWrite writing bound => exact .unmoved rfl rfl
  | writeEnds writing ends => exact .unmoved rfl rfl
  | reaped waiting dead => exact .unmoved rfl rfl
  | marked leaving logging => exact .unmoved rfl rfl
  | unmarked leaving silent => exact .unmoved rfl rfl
  | joined draining ended => exact .unmoved rfl rfl
  | writer moved => exact .unmoved rfl rfl

/-- The fanout holds what was read from the pty, in chunks that are never empty. -/
structure FansOut (scrollback : Nat) (daemon : Daemon) : Prop where
  represents : daemon.hub.fanout.Represents scrollback (outputRead daemon.taken)
  chunks : ∀ chunk ∈ daemon.hub.fanout.tx.sent, chunk ≠ []

theorem fans_out_step (scrollback : Nat) (daemon next : Daemon) (event : DaemonEvent)
    (fansOut : FansOut scrollback daemon) (taken : daemon.step event = some next) :
    FansOut scrollback next := by
  cases hub_move_cases daemon next event taken with
  | unmoved hub read =>
    constructor
    · rw [hub, read]
      exact fansOut.represents
    · rw [hub]
      exact fansOut.chunks
  | @moved hubEvent step read source some_output =>
    constructor
    · rw [read]
      exact hub_step_fanout scrollback _ daemon.hub next.hub hubEvent fansOut.represents step
    · by_cases output : ∃ chunk, hubEvent = .output chunk
      · obtain ⟨chunk, rfl⟩ := output
        rw [hub_step_output daemon.hub next.hub chunk step]
        intro other member
        rcases List.mem_append.mp member with older | newest
        · exact fansOut.chunks other older
        · rw [List.mem_singleton.mp newest]
          exact some_output chunk rfl
      · rw [hub_step_quiet daemon.hub next.hub hubEvent (fun chunk same => output ⟨chunk, same⟩) step]
        exact fansOut.chunks

theorem fans_out_run (scrollback : Nat) (content : List UInt8) (logging : Option Nat)
    (start last : Daemon) (events : List DaemonEvent)
    (started : Daemon.start scrollback content logging = some start)
    (ran : run Daemon.step start events = some last) : FansOut scrollback last := by
  obtain ⟨hub, writer, created, _, rfl⟩ := start_cases scrollback content logging start started
  refine run_invariant Daemon.step (FansOut scrollback)
    (fun state event next fansOut taken => fans_out_step scrollback state next event fansOut taken)
    _ last events ⟨run_fanout scrollback broadcastCapacity hub hub [] created rfl, ?_⟩ ran
  obtain ⟨fanout, fresh, rfl⟩ := hub_start_cases _ _ _ created
  simp [Fanout.new_unsent scrollback broadcastCapacity fanout fresh]

/-- A daemon without a log and with a ring of eight bytes, before anything has happened. -/
def idle : Daemon where
  hub := { fanout := { ring := { buf := List.replicate 8 default, head := 0, len := 0 }
                       tx := { slots := broadcastCapacity, sent := [] } }
           pushQueue := [], controlQueue := [], serving := true, clients := fun _ => none }
  phase := .selecting
  pty := { output := [], slaveOpen := true, alive := true, input := [] }
  backlog := []
  sigterm := false
  sigint := false
  writer := { file := { content := [], cursor := 0 }, thread := .off, queue := [] }
  taken := []
  enqueued := []
  written := []
  appended := []

theorem start_idle : Daemon.start 8 [] none = some idle := by
  have power : Nat.nextPowerOfTwo 1024 = 1024 := by decide +kernel
  have slots : BroadcastChannel.channel broadcastCapacity = some ({ slots := broadcastCapacity, sent := [] } :
      BroadcastChannel.Channel (List UInt8)) := by
    simp [BroadcastChannel.channel, broadcastCapacity, power]
  simp only [Daemon.start, Hub.start, Fanout.new, slots]
  rfl

end Hytch.DaemonRun
