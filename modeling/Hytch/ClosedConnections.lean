import Mathlib.Data.List.Nodup
import Hytch.PlainConnection
import Hytch.WindingDown

/-!
A client that goes away leaves no task behind, whatever it has left unread, unsent or in the
middle: the loop makes room in its channels, and the task reads on to the end.
-/

namespace Hytch.ClosedConnections

open IncrementalDecoding MessageCodec HandleClient Attachments DaemonRun Connections
  PlainConnection WindingDown Runs

/-- The backlog holds each connection once, and has not been served. -/
structure Waiting (daemon : Daemon) : Prop where
  once : daemon.backlog.Nodup
  unknown : ∀ id ∈ daemon.backlog, daemon.hub.clients id = none

section Backlog

variable (daemon next : Daemon) (event : DaemonEvent)

theorem backlog_grows (grows : daemon.backlog <+: next.backlog)
    (taken : daemon.step event = some next) :
    next.backlog = daemon.backlog ∨ ∃ id, next.backlog = daemon.backlog ++ [id] ∧
      id ∉ daemon.backlog ∧ daemon.hub.clients id = none := by
  cases daemon_step_cases daemon next event taken with
  | outside kind =>
    cases event with
    | connects id =>
      obtain ⟨⟨_, unknown, absent⟩, same⟩ := Option.ite_none_right_eq_some.mp taken
      have backlog := congrArg Daemon.backlog (Option.some.inj same)
      exact .inr ⟨id, backlog.symm, absent, Option.isNone_iff_eq_none.mp unknown⟩
    | childWrites bytes =>
      obtain ⟨_, same⟩ := Option.ite_none_right_eq_some.mp taken
      exact .inl (congrArg Daemon.backlog (Option.some.inj same)).symm
    | slave isOpen => exact .inl (congrArg Daemon.backlog (Option.some.inj taken)).symm
    | childExits => exact .inl (congrArg Daemon.backlog (Option.some.inj taken)).symm
    | terminate => exact .inl (congrArg Daemon.backlog (Option.some.inj taken)).symm
    | interrupt => exact .inl (congrArg Daemon.backlog (Option.some.inj taken)).symm
    | _ => cases kind
  | accept selecting quiet waiting accepted =>
    have longer : daemon.backlog.length ≤ _ := grows.length_le
    rw [waiting, List.length_cons] at longer
    exact absurd longer (Nat.not_succ_le_self _)
  | _ => exact .inl rfl

theorem waiting_step (waiting : Waiting daemon) (taken : daemon.step event = some next) :
    Waiting next := by
  cases party_step_cases daemon next event taken with
  | @task event own awaits moved enqueued backlog =>
    refine ⟨by rw [backlog]; exact waiting.once, fun id member => ?_⟩
    rw [backlog] at member
    have unknown := waiting.unknown id member
    cases hub_step_cases _ _ _ moved with
    | output pushed clients => cases own
    | accept fresh fanout clients => cases own
    | loop silent fanout clients => rw [clients, unknown]
    | @task _ mover client after known took fanout clients =>
      rw [clients, Function.update_of_ne, unknown]
      rintro rfl
      rw [unknown] at known
      cases known
  | accepts other held fresh clients enqueued =>
    obtain ⟨once, unknown⟩ := waiting
    rw [held] at once unknown
    obtain ⟨apart, once⟩ := List.nodup_cons.mp once
    refine ⟨once, fun id member => ?_⟩
    rw [clients, Function.update_of_ne]
    · exact unknown id (List.mem_cons_of_mem _ member)
    · rintro rfl
      exact apart member
  | rests other clients enqueued grows =>
    rcases backlog_grows daemon next event grows taken with same | ⟨id, same, absent, unknown⟩
    · refine ⟨by rw [same]; exact waiting.once, fun id member => ?_⟩
      rw [clients]
      exact waiting.unknown id (by rwa [same] at member)
    · constructor
      · rw [same]
        exact List.nodup_append_comm.mp (List.nodup_cons.mpr ⟨absent, waiting.once⟩)
      · intro other member
        rw [same] at member
        rw [clients]
        rcases List.mem_append.mp member with before | now
        · exact waiting.unknown other before
        · rwa [List.mem_singleton.mp now]

end Backlog

def ofLoop : DaemonEvent → Prop
  | .select _ => True
  | .handOff => True
  | .writeEnds _ => True
  | _ => False

/-- The child still has its terminal, and the loop is there for the clients. -/
structure Running (daemon : Daemon) : Prop where
  isOpen : daemon.pty.slaveOpen = true
  serving : daemon.hub.serving = true
  ring : ∃ scrollback output, daemon.hub.fanout.Represents scrollback output
  waiting : Waiting daemon

/-- The loop has worked everything off, and has left the clients as they were. -/
structure Drained (daemon after : Daemon) : Prop where
  running : Running after
  selecting : after.phase = .selecting
  quiet : after.hub.controlQueue = []
  passed : after.hub.pushQueue = []
  kept : ∀ id client, daemon.hub.clients id = some client → after.hub.clients id = some client
  fresh : ∀ id ∈ daemon.backlog, after.hub.clients id = some Client.connected

section Draining

variable (daemon : Daemon)

/-- What is reached from `next` has left the clients as they were before it. -/
theorem drains_behind (next : Daemon)
    (kept : ∀ id client, daemon.hub.clients id = some client → next.hub.clients id = some client)
    (fresh : ∀ id ∈ daemon.backlog, id ∈ next.backlog ∨ next.hub.clients id = some Client.connected)
    (drains : Reaches Daemon.step ofLoop next (Drained next)) :
    Reaches Daemon.step ofLoop next (Drained daemon) := by
  obtain ⟨more, after, own, ran, drained⟩ := drains
  refine ⟨more, after, own, ran, drained.running, drained.selecting, drained.quiet, drained.passed,
    fun id client known => drained.kept id client (kept id client known), fun id member => ?_⟩
  rcases fresh id member with still | known
  · exact drained.fresh id still
  · exact drained.kept id _ known

theorem drains_same (next : Daemon) (clients : next.hub.clients = daemon.hub.clients)
    (backlog : next.backlog = daemon.backlog)
    (drains : Reaches Daemon.step ofLoop next (Drained next)) :
    Reaches Daemon.step ofLoop next (Drained daemon) :=
  drains_behind daemon next (fun id client known => by rw [clients, known])
    (fun id member => .inl (by rwa [backlog])) drains

theorem pick_waiting (quiet : daemon.hub.controlQueue = []) (nothing : daemon.pty.output = [])
    (isOpen : daemon.pty.slaveOpen = true) (some_waiting : daemon.backlog ≠ []) :
    daemon.pick = some .accept := by
  simp [Daemon.pick, Daemon.ready, quiet, nothing, isOpen, some_waiting]

theorem pick_pushed (quiet : daemon.hub.controlQueue = []) (nothing : daemon.pty.output = [])
    (isOpen : daemon.pty.slaveOpen = true) (none_waiting : daemon.backlog = [])
    (some_pushed : daemon.hub.pushQueue ≠ []) : daemon.pick = some .push := by
  simp [Daemon.pick, Daemon.ready, quiet, nothing, isOpen, none_waiting, some_pushed]

theorem accepts_first (id : Nat) (rest : List Nat) (selecting : daemon.phase = .selecting)
    (picked : daemon.pick = some .accept) (backlog : daemon.backlog = id :: rest)
    (serving : daemon.hub.serving = true) (unknown : daemon.hub.clients id = none) :
    daemon.step (.select 0) = some { daemon with
      hub := daemon.hub.setClient id Client.connected
      backlog := rest
      taken := daemon.taken ++ [.accept id] } := by
  simp [Daemon.step, selecting, Daemon.select, picked, Daemon.onAccept, backlog, Hub.step, serving,
    unknown]

theorem takes_push (payload : List UInt8) (rest : List (List UInt8))
    (selecting : daemon.phase = .selecting) (picked : daemon.pick = some .push)
    (pushed : daemon.hub.pushQueue = payload :: rest) :
    daemon.step (.select 0) = some { daemon with
      hub := { daemon.hub with pushQueue := rest }
      phase := .writing payload payload
      taken := daemon.taken ++ [.push payload] } := by
  simp [Daemon.step, selecting, Daemon.select, picked, Daemon.onPush, pushed, Hub.step]

/-- What the loop has to work off. -/
def load : Nat :=
  daemon.hub.controlQueue.length + daemon.pty.output.length + daemon.backlog.length +
    daemon.hub.pushQueue.length

variable (running : Running daemon) (selecting : daemon.phase = .selecting)
  (drains : ∀ next, Running next → next.phase = .selecting → load next < load daemon →
    Reaches Daemon.step ofLoop next (Drained next))
include running selecting drains

theorem drains_command (command : ControlCommand) (rest : List ControlCommand)
    (queue : daemon.hub.controlQueue = command :: rest) :
    Reaches Daemon.step ofLoop daemon (Drained daemon) := by
  let next : Daemon := { daemon with
    hub := { daemon.hub with controlQueue := rest }
    taken := daemon.taken ++ [.command command] }
  have further : Running next :=
    ⟨running.isOpen, running.serving, running.ring, running.waiting.once, running.waiting.unknown⟩
  have less : load next < load daemon := by
    simp only [load, next, queue, List.length_cons]
    omega
  apply reaches_step _ _ _ _ next (.select 0) trivial
    (takes_command daemon command rest selecting queue)
  exact drains_same daemon next rfl rfl (drains next further selecting less)

theorem drains_output (byte : UInt8) (bytes : List UInt8) (quiet : daemon.hub.controlQueue = [])
    (output : daemon.pty.output = byte :: bytes) :
    Reaches Daemon.step ofLoop daemon (Drained daemon) := by
  obtain ⟨scrollback, printed, ring⟩ := running.ring
  obtain ⟨fanout, pushed, _, further⟩ :=
    Fanout.push_represents daemon.hub.fanout scrollback printed [byte] ring
  have picked := pick_read daemon quiet (by simp [Daemon.ready, output])
  let handing : Daemon := { daemon with
    hub := { daemon.hub with fanout := fanout }
    phase := .handingOff [byte]
    pty := { daemon.pty with output := bytes }
    taken := daemon.taken ++ [.read [byte]] }
  let next : Daemon := { handing with
    phase := .selecting
    writer := if handing.logging then handing.writer.send [byte] else handing.writer }
  have further : Running next := ⟨running.isOpen, running.serving, ⟨scrollback, _, further⟩,
    running.waiting.once, running.waiting.unknown⟩
  have less : load next < load daemon := by
    simp only [load, next, handing, output, List.length_cons]
    omega
  apply reaches_step _ _ _ _ handing (.select 1) trivial
    (reads_byte daemon byte bytes fanout selecting picked output pushed)
  apply reaches_step _ _ _ _ next .handOff trivial rfl
  exact drains_same daemon next rfl rfl (drains next further rfl less)

theorem drains_backlog (id : Nat) (rest : List Nat) (quiet : daemon.hub.controlQueue = [])
    (nothing : daemon.pty.output = []) (backlog : daemon.backlog = id :: rest) :
    Reaches Daemon.step ofLoop daemon (Drained daemon) := by
  have unknown := running.waiting.unknown id (by rw [backlog]; exact List.mem_cons_self)
  have picked := pick_waiting daemon quiet nothing running.isOpen
    (by rw [backlog]; exact List.cons_ne_nil _ _)
  have accepts := accepts_first daemon id rest selecting picked backlog running.serving unknown
  let next : Daemon := { daemon with
    hub := daemon.hub.setClient id Client.connected
    backlog := rest
    taken := daemon.taken ++ [.accept id] }
  have further : Running next := ⟨running.isOpen, running.serving, running.ring,
    waiting_step daemon next _ running.waiting accepts⟩
  have less : load next < load daemon := by
    simp only [load, next, Hub.setClient, backlog, List.length_cons]
    omega
  apply reaches_step _ _ _ _ next (.select 0) trivial accepts
  refine drains_behind daemon next ?_ ?_ (drains next further selecting less)
  · intro other client known
    have different : other ≠ id := by
      rintro rfl
      rw [unknown] at known
      cases known
    simp [next, different, known]
  · intro other member
    rw [backlog] at member
    rcases List.mem_cons.mp member with rfl | later
    · exact .inr (by simp [next])
    · exact .inl later

theorem drains_push (payload : List UInt8) (rest : List (List UInt8))
    (quiet : daemon.hub.controlQueue = []) (nothing : daemon.pty.output = [])
    (accepted : daemon.backlog = []) (pushed : daemon.hub.pushQueue = payload :: rest) :
    Reaches Daemon.step ofLoop daemon (Drained daemon) := by
  have picked := pick_pushed daemon quiet nothing running.isOpen accepted
    (by rw [pushed]; exact List.cons_ne_nil _ _)
  let outcome : WriteOutcome := if payload.isEmpty then .completed else .timedOut
  have ends : Daemon.endsAs payload outcome = true := by
    cases payload <;> rfl
  let writing : Daemon := { daemon with
    hub := { daemon.hub with pushQueue := rest }
    phase := .writing payload payload
    taken := daemon.taken ++ [.push payload] }
  let next : Daemon := { writing with
    phase := .selecting
    written := daemon.written ++
      [{ payload := payload, delivered := payload.take (payload.length - payload.length)
         outcome := outcome }] }
  have further : Running next :=
    ⟨running.isOpen, running.serving, running.ring, running.waiting.once, running.waiting.unknown⟩
  have less : load next < load daemon := by
    simp only [load, next, writing, pushed, List.length_cons]
    omega
  apply reaches_step _ _ _ _ writing (.select 0) trivial
    (takes_push daemon payload rest selecting picked pushed)
  apply reaches_step _ _ _ _ next (.writeEnds outcome) trivial
  · simp [Daemon.step, writing, next, ends]
  · exact drains_same daemon next rfl rfl (drains next further rfl less)

omit drains in
theorem drains_selecting : Reaches Daemon.step ofLoop daemon (Drained daemon) := by
  generalize amount : load daemon = left
  induction left using Nat.strongRecOn generalizing daemon with
  | _ left ih =>
    have drains (next : Daemon) (further : Running next) (again : next.phase = .selecting)
        (less : load next < load daemon) : Reaches Daemon.step ofLoop next (Drained next) :=
      ih (load next) (amount ▸ less) next further again rfl
    cases quiet : daemon.hub.controlQueue with
    | cons command rest => exact drains_command daemon running selecting drains command rest quiet
    | nil =>
      cases output : daemon.pty.output with
      | cons byte bytes => exact drains_output daemon running selecting drains byte bytes quiet output
      | nil =>
        cases backlog : daemon.backlog with
        | cons id rest => exact drains_backlog daemon running selecting drains id rest quiet output backlog
        | nil =>
          cases pushed : daemon.hub.pushQueue with
          | cons payload rest =>
            exact drains_push daemon running selecting drains payload rest quiet output backlog pushed
          | nil =>
            refine reaches_here _ _ _ _ ⟨running, selecting, quiet, pushed,
              fun _ _ known => known, fun id member => ?_⟩
            rw [backlog] at member
            cases member

omit selecting drains in
theorem drains_looping (looping : daemon.phase.looping = true) :
    Reaches Daemon.step ofLoop daemon (Drained daemon) := by
  cases phase : daemon.phase with
  | selecting => exact drains_selecting daemon running phase
  | handingOff chunk =>
    let next : Daemon := { daemon with
      phase := .selecting
      writer := if daemon.logging then daemon.writer.send chunk else daemon.writer }
    have further : Running next :=
      ⟨running.isOpen, running.serving, running.ring, running.waiting.once, running.waiting.unknown⟩
    apply reaches_step _ _ _ _ next .handOff trivial
    · simp [Daemon.step, phase, next]
    · exact drains_same daemon next rfl rfl (drains_selecting next further rfl)
  | writing payload rest =>
    let outcome : WriteOutcome := if rest.isEmpty then .completed else .timedOut
    have ends : Daemon.endsAs rest outcome = true := by
      cases rest <;> rfl
    let next : Daemon := { daemon with
      phase := .selecting
      written := daemon.written ++
        [{ payload := payload, delivered := payload.take (payload.length - rest.length)
           outcome := outcome }] }
    have further : Running next :=
      ⟨running.isOpen, running.serving, running.ring, running.waiting.once, running.waiting.unknown⟩
    apply reaches_step _ _ _ _ next (.writeEnds outcome) trivial
    · simp [Daemon.step, phase, ends, next]
    · exact drains_same daemon next rfl rfl (drains_selecting next further rfl)
  | _ =>
    rw [phase] at looping
    cases looping

end Draining

def unaided (id : Nat) (event : SystemEvent) : Prop :=
  ofConnection id event ∨ ∃ step, event = .daemon step ∧ ofLoop step

section Ending

def busy : Activity UInt8 → Nat
  | .writingSnapshot _ _ => 1
  | .writingLive _ => 1
  | .enqueuing _ => 1
  | .selecting => 0
  | .returned => 0

theorem busy_once (activity : Activity UInt8) : busy activity ≤ 1 := by
  cases activity <;> simp [busy]

/-- What a task has still to read, and whether it has something in hand. -/
def work (wire : Wire) (client : Client UInt8) : Nat :=
  2 * (2 * wire.unread.length + wire.buffer.length) + busy client.activity

variable (id : Nat)

theorem loop_lifts (target : Daemon → Prop) (system : System)
    (reaches : Reaches Daemon.step ofLoop system.daemon target) :
    Reaches System.step (unaided id) system fun after =>
      target after.daemon ∧ after.wire = system.wire := by
  obtain ⟨more, daemon, own, ran, there⟩ := reaches
  have untasked : ∀ event ∈ more, ∀ task, event ≠ .task task := by
    rintro _ member task rfl
    exact own _ member
  refine ⟨more.map .daemon, { system with daemon := daemon }, ?_, system.run_daemon more daemon untasked ran,
    there, rfl⟩
  intro event member
  obtain ⟨step, inside, rfl⟩ := List.mem_map.mp member
  exact .inr ⟨step, rfl, own step inside⟩

theorem returned_gone (system : System) (client : Client UInt8)
    (known : system.daemon.hub.clients id = some client) (returned : client.activity = .returned) :
    system.connected id = false := by
  obtain ⟨attached, activity, socket⟩ := client
  cases returned
  rw [System.connected, known]

theorem input_taken (fanout : Fanout UInt8) (client : Client UInt8) (input : Input)
    (ring : ∃ scrollback output, fanout.Represents scrollback output) :
    ∃ after, onInput fanout client input = some after := by
  cases input with
  | frame msg =>
    cases msg with
    | attach skipRing =>
      obtain ⟨scrollback, output, ring⟩ := ring
      rw [onInput, Fanout.attach_exact fanout scrollback output ring]
      cases skipRing
      · exact ⟨_, rfl⟩
      · exact ⟨_, rfl⟩
    | redraw method rows cols =>
      cases method with
      | none => exact ⟨_, rfl⟩
      | _ => exact ⟨_, rfl⟩
    | _ => exact ⟨_, rfl⟩
  | _ => exact ⟨_, rfl⟩

def EndsWithin (left : Nat) : Prop :=
  ∀ system client, Running system.daemon → system.daemon.phase = .selecting →
    system.daemon.hub.controlQueue = [] → system.daemon.hub.pushQueue = [] →
    system.daemon.hub.clients id = some client → (system.wire id).closed = true →
    work (system.wire id) client < left →
    Reaches System.step (unaided id) system fun after => after.connected id = false

variable (left : Nat) (ends : EndsWithin id left)
include ends

theorem ends_behind (system : System) (client : Client UInt8) (running : Running system.daemon)
    (selecting : system.daemon.phase = .selecting)
    (known : system.daemon.hub.clients id = some client) (closed : (system.wire id).closed = true)
    (less : work (system.wire id) client < left) :
    Reaches System.step (unaided id) system fun after => after.connected id = false := by
  apply reaches_trans _ _ _ _ _
    (loop_lifts id _ system (drains_selecting system.daemon running selecting))
  rintro after ⟨drained, wires⟩
  exact ends after client drained.running drained.selecting drained.quiet drained.passed
    (drained.kept id client known) (by rw [wires]; exact closed) (by rw [wires]; exact less)

variable (system : System) (client : Client UInt8) (running : Running system.daemon)
  (selecting : system.daemon.phase = .selecting)
  (known : system.daemon.hub.clients id = some client) (closed : (system.wire id).closed = true)
include running selecting known closed

omit known in
theorem ends_task (task : HubEvent UInt8) (hub : Hub UInt8) (after : Client UInt8)
    (own : ofTask task = true) (mine : mover task = some id)
    (allowed : system.allows (.task task) = true) (moved : system.daemon.hub.step task = some hub)
    (fanout : hub.fanout = system.daemon.hub.fanout) (serving : hub.serving = true)
    (now : hub.clients id = some after)
    (less : after.activity = .returned ∨ work (system.wire id) after < left) :
    Reaches System.step (unaided id) system fun after => after.connected id = false := by
  let daemon : Daemon := { system.daemon with
    hub := hub, enqueued := system.daemon.enqueued ++ handedOver system.daemon.hub task }
  have taken : system.daemon.step (.task task) = some daemon := by
    rw [Daemon.step, if_pos ⟨own, by rw [selecting]; rfl⟩, moved]
    rfl
  apply reaches_step _ _ _ _ { system with daemon := daemon } (.daemon (.task task)) (.inl mine)
    (System.step_daemon system _ daemon allowed taken)
  rcases less with returned | less
  · exact reaches_here _ _ _ _ (returned_gone id _ after now returned)
  · refine ends_behind id left ends { system with daemon := daemon } after ?_ selecting now closed less
    exact ⟨running.isOpen, serving, by rw [show daemon.hub.fanout = _ from fanout]; exact running.ring,
      waiting_step system.daemon daemon _ running.waiting taken⟩

theorem ends_input (input : Input) (rest : List UInt8) (activity : client.activity = .selecting)
    (resolved : (system.wire id).resolve = some (input, rest))
    (less : input = .closed ∨ input = .protocolError ∨
      rest.length < (system.wire id).buffer.length ∧ work (system.wire id) client ≤ left) :
    Reaches System.step (unaided id) system fun after => after.connected id = false := by
  obtain ⟨after, took⟩ := input_taken system.daemon.hub.fanout client input running.ring
  let daemon : Daemon := { system.daemon with
    hub := system.daemon.hub.setClient id after
    enqueued := system.daemon.enqueued ++ handedOver system.daemon.hub (.input id input) }
  have taken : system.daemon.step (.task (.input id input)) = some daemon := by
    simp [Daemon.step, ofTask, selecting, LoopPhase.awaits, Hub.step, Hub.onClient, known,
      Hub.whenSelecting, activity, took, daemon]
  let next : System :=
    { system.setWire id { system.wire id with buffer := rest } with daemon := daemon }
  have now : daemon.hub.clients id = some after := by simp [daemon]
  apply reaches_step _ _ _ _ next (.next id) (.inl rfl)
  · simp only [System.step, resolved, Option.bind_some, taken, Option.map_some]
    rfl
  · have ceases (last : after = client.disconnect) :
        Reaches System.step (unaided id) next fun after => after.connected id = false :=
      reaches_here _ _ _ _ (returned_gone id next after now (by rw [last]; rfl))
    rcases less with rfl | rfl | ⟨shorter, bound⟩
    · exact ceases (Option.some.inj took).symm
    · exact ceases (Option.some.inj took).symm
    · have wire : next.wire id = { system.wire id with buffer := rest } := by
        simp [next, System.setWire]
      refine ends_behind id left ends next after ?_ selecting now (by rw [wire]; exact closed) ?_
      · exact ⟨running.isOpen, running.serving, running.ring,
          waiting_step system.daemon daemon _ running.waiting taken⟩
      · rw [wire]
        have once := busy_once after.activity
        rw [work, activity, busy] at bound
        show 2 * (2 * (system.wire id).unread.length + rest.length) + busy after.activity < left
        omega

theorem ends_selecting (activity : client.activity = .selecting)
    (bound : work (system.wire id) client ≤ left) :
    Reaches System.step (unaided id) system fun after => after.connected id = false := by
  have here (input : Input) (rest : List UInt8) :=
    ends_input id left ends system client running selecting known closed input rest activity
  match answer : codec.decode (system.wire id).buffer with
  | (.ok (some msg), rest) =>
    have shorter := (decoder codec).itemShrinks _ msg rest answer
    exact here (.frame msg) rest (by rw [Wire.resolve, answer]) (.inr (.inr ⟨shorter, bound⟩))
  | (.error fault, rest) =>
    exact here .protocolError _ (by rw [Wire.resolve, answer]) (.inr (.inl rfl))
  | (.ok none, rest) =>
    by_cases unread : (system.wire id).unread = []
    · have resolved : (system.wire id).resolve =
          some (if (system.wire id).buffer = [] then .closed else .protocolError,
            (system.wire id).buffer) := by
        rw [Wire.resolve, answer]
        exact if_pos ⟨unread, closed⟩
      refine here _ _ resolved ?_
      split
      · exact .inl rfl
      · exact .inr (.inl rfl)
    · have some_unread : 0 < (system.wire id).unread.length := List.length_pos_iff.mpr unread
      let wire : Wire := { system.wire id with
        unread := [], buffer := (system.wire id).buffer ++ (system.wire id).unread }
      have reading : system.reading id = true := by
        obtain ⟨attached, _, socket⟩ := client
        cases activity
        rw [System.reading, known, selecting]
        rfl
      apply reaches_step _ _ _ _ (system.setWire id wire) (.fill id (system.wire id).unread.length)
        (.inl rfl)
      · simp [System.step, reading, answer, some_unread, wire]
      · have same : (system.setWire id wire).wire id = wire := system.setWire_same id wire
        refine ends_behind id left ends (system.setWire id wire) client running selecting known
          (by rw [same]; exact closed) ?_
        rw [same, work, activity, busy, List.length_append, List.length_nil]
        rw [work, activity, busy] at bound
        omega

end Ending

/-- By induction on the work left. -/
theorem ends_within (id left : Nat) : EndsWithin id left := by
  induction left with
  | zero =>
    intro system client _ _ _ _ _ _ less
    exact absurd less (Nat.not_lt_zero _)
  | succ left ends =>
    intro system client running selecting quiet passed known closed less
    have bound : work (system.wire id) client ≤ left := Nat.le_of_lt_succ less
    have task := ends_task id left ends system running selecting closed
    have own (event : HubEvent UInt8) (runs : Client UInt8 → Option (Client UInt8))
        (after : Client UInt8) (ofTask : ofTask event = true) (mine : mover event = some id)
        (allowed : system.allows (.task event) = true)
        (moves : system.daemon.hub.step event = system.daemon.hub.onClient id runs)
        (took : runs client = some after) :
        after.activity = .returned ∨ work (system.wire id) after < left →
        Reaches System.step (unaided id) system fun after => after.connected id = false :=
      task event (system.daemon.hub.setClient id after) after ofTask mine allowed
        (by rw [moves, Hub.onClient, known, Option.bind_some, took, Option.map_some])
        rfl running.serving (by simp)
    obtain ⟨attached, activity, socket⟩ := client
    cases activity with
    | selecting => exact ends_selecting id left ends system _ running selecting known closed rfl bound
    | returned => exact reaches_here _ _ _ _ (returned_gone id system _ known rfl)
    | writingSnapshot rest rx =>
      cases rest with
      | nil => exact own (.written id) onWritten _ rfl rfl rfl rfl rfl (.inr bound)
      | cons cell rest =>
        exact own (.writeFails id) onWriteFails _ rfl rfl closed rfl rfl (.inl rfl)
    | writingLive rest =>
      cases rest with
      | nil => exact own (.written id) onWritten _ rfl rfl rfl rfl rfl (.inr bound)
      | cons cell rest =>
        exact own (.writeFails id) onWriteFails _ rfl rfl closed rfl rfl (.inl rfl)
    | enqueuing item =>
      let after : Client UInt8 := { attached := attached, activity := .selecting, socket := socket }
      let resumed : Hub UInt8 := system.daemon.hub.setClient id after
      cases item with
      | push data =>
        exact task (.enqueue id) { resumed with pushQueue := [data] } after rfl rfl rfl
          (by simp [Hub.step, Hub.onEnqueue, known, running.serving, passed, pushCapacity, resumed, after])
          rfl running.serving (by simp [resumed]) (.inr bound)
      | control command =>
        exact task (.enqueue id) { resumed with controlQueue := [command] } after rfl rfl rfl
          (by simp [Hub.step, Hub.onEnqueue, known, running.serving, quiet, controlCapacity, resumed, after])
          rfl running.serving (by simp [resumed]) (.inr bound)

structure Sound (scrollback : Nat) (daemon : Daemon) : Prop where
  fansOut : FansOut scrollback daemon
  waiting : Waiting daemon

theorem sound_run (scrollback : Nat) (content : List UInt8) (logging : Option Nat)
    (daemon : Daemon) (system : System) (events : List SystemEvent)
    (started : Daemon.start scrollback content logging = some daemon)
    (ran : run System.step (System.start daemon) events = some system) :
    Sound scrollback system.daemon := by
  have steps (daemon : Daemon) (event : DaemonEvent) (next : Daemon) (sound : Sound scrollback daemon)
      (taken : daemon.step event = some next) : Sound scrollback next :=
    ⟨fans_out_step scrollback daemon next event sound.fansOut taken,
      waiting_step daemon next event sound.waiting taken⟩
  have fresh : Sound scrollback daemon := by
    have fansOut := fans_out_run scrollback content logging daemon daemon [] started rfl
    obtain ⟨hub, writer, _, _, rfl⟩ := start_cases scrollback content logging daemon started
    exact ⟨fansOut, List.nodup_nil, fun _ member => absurd member List.not_mem_nil⟩
  exact run_invariant System.step (fun system => Sound scrollback system.daemon)
    (fun system event next sound taken =>
      lifted_step (Sound scrollback) steps system next event sound taken)
    _ system events fresh ran

/-- The connection of a client that has gone away comes to its end, by its own steps and the loop's:
whatever it has left unread, holds in its hands or was still to be sent, and however full the
channels are. -/
theorem closed_connection_ends (scrollback : Nat) (content : List UInt8) (logging : Option Nat)
    (daemon : Daemon) (system : System) (events : List SystemEvent) (id : Nat)
    (started : Daemon.start scrollback content logging = some daemon)
    (ran : run System.step (System.start daemon) events = some system)
    (looping : system.daemon.phase.looping = true) (isOpen : system.daemon.pty.slaveOpen = true)
    (closed : (system.wire id).closed = true) :
    Reaches System.step (unaided id) system fun after => after.connected id = false := by
  have served := served_run scrollback content logging daemon system events started ran
  have sound := sound_run scrollback content logging daemon system events started ran
  have serving : system.daemon.hub.serving = true := by
    rcases served.isOpen with serving | ⟨reason, returned⟩
    · exact serving
    · rw [returned] at looping
      cases looping
  have running : Running system.daemon :=
    ⟨isOpen, serving, ⟨scrollback, _, sound.fansOut.represents⟩, sound.waiting⟩
  by_cases connected : system.connected id = true
  · apply reaches_trans _ _ _ _ _ (loop_lifts id _ system (drains_looping system.daemon running looping))
    rintro after ⟨drained, wires⟩
    have known : ∃ client, after.daemon.hub.clients id = some client := by
      cases before : system.daemon.hub.clients id with
      | some client => exact ⟨client, drained.kept id client before⟩
      | none =>
        rw [System.connected, before] at connected
        exact ⟨_, drained.fresh id (of_decide_eq_true connected)⟩
    obtain ⟨client, known⟩ := known
    exact ends_within id _ after client drained.running drained.selecting drained.quiet drained.passed
      known (by rw [wires]; exact closed) (Nat.lt_succ_self _)
  · exact reaches_here _ _ _ _ (Bool.eq_false_iff.mpr connected)

/-- Closed in the middle of a Push, while the loop is in a write of its own. -/
theorem closed_connection_ends_midway : ∃ daemon system,
    Daemon.start 8 [] none = some daemon ∧
    run System.step (System.start daemon)
      [.daemon (.connects 0), .daemon (.select 0), .peerWrites 0 [0, 0, 0, 0, 1, 104, 0, 0],
        .fill 0 8, .next 0, .daemon (.task (.enqueue 0)), .daemon (.select 0), .peerCloses 0] =
      some system ∧
    system.daemon.phase = .writing [104] [104] ∧ (system.wire 0).buffer = [0, 0] ∧
    system.connected 0 = true ∧
    Reaches System.step (unaided 0) system fun after => after.connected 0 = false := by
  refine ⟨_, _, start_idle, rfl, rfl, rfl, rfl, ?_⟩
  exact closed_connection_ends 8 [] none idle _
    [.daemon (.connects 0), .daemon (.select 0), .peerWrites 0 [0, 0, 0, 0, 1, 104, 0, 0],
      .fill 0 8, .next 0, .daemon (.task (.enqueue 0)), .daemon (.select 0), .peerCloses 0]
    0 start_idle rfl rfl rfl rfl

end Hytch.ClosedConnections
