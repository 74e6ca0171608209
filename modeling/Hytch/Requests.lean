import Hytch.PtyInput

/-!
What the connections ask of the daemon: input for the child, window sizes, signals. Every
frame asks for at most one thing, which is with the loop, in the hands of the connection's
task, or not decoded yet; so nothing is lost, doubled or reordered on its way to the pty.
-/

namespace Hytch.Requests

open IncrementalDecoding MessageCodec HandleClient Attachments DaemonRun Connections PtyInput Runs

/-- The commands in the order in which the channel received them. -/
def commandsFrom (enqueued : List (Nat × Outgoing)) : List (Nat × ControlCommand) :=
  enqueued.filterMap fun
    | (id, .control command) => some (id, command)
    | _ => none

/-- What the loop has done to the pty and the child, with the connection each came from. -/
def applied (daemon : Daemon) : List (Nat × ControlCommand) :=
  (commandsFrom daemon.enqueued).take (commandsTaken daemon.taken).length

def appliedBy (id : Nat) (commands : List (Nat × ControlCommand)) : List ControlCommand :=
  (commands.filter fun entry => entry.1 = id).map Prod.snd

def commandsOf (requests : List Outgoing) : List ControlCommand :=
  requests.filterMap fun
    | .control command => some command
    | .push _ => none

/-- What the frames that a connection has sent so far ask for. -/
def asked (system : System) (id : Nat) : List Outgoing :=
  requests (drain (decoder codec) (system.wire id).sent).items

/-- Nothing of it is left on the wire or with the task. -/
def Heard (system : System) (id : Nat) : Prop :=
  (drain (decoder codec) ((system.wire id).buffer ++ (system.wire id).unread)).items = [] ∧
    held system.daemon.hub id = []

/-- What reaches the child is a merge of what the connections asked for, each in its order,
and all of it once it has been heard. -/
structure Carried (system : System) : Prop where
  inOrder : ∀ id, requestsBy id system.daemon.enqueued <+: asked system id
  heard : ∀ id, Heard system id → requestsBy id system.daemon.enqueued = asked system id
  taken : (applied system.daemon).map Prod.snd = commandsTaken system.daemon.taken
  commands : ∀ id, appliedBy id (applied system.daemon) <+: commandsOf (asked system id)
  idle : system.daemon.hub.serving = true → system.daemon.hub.controlQueue = [] →
    applied system.daemon = commandsFrom system.daemon.enqueued

section Merge

theorem commandsPut_eq (enqueued : List (Nat × Outgoing)) :
    commandsPut enqueued = (commandsFrom enqueued).map Prod.snd := by
  induction enqueued with
  | nil => rfl
  | cons entry rest ih =>
    obtain ⟨id, item⟩ := entry
    cases item with
    | control command =>
      simp only [commandsPut, commandsFrom, List.filterMap_cons, List.map_cons] at ih ⊢
      rw [ih]
    | push data => exact ih

theorem commandsOf_requestsBy (id : Nat) (enqueued : List (Nat × Outgoing)) :
    commandsOf (requestsBy id enqueued) = appliedBy id (commandsFrom enqueued) := by
  induction enqueued with
  | nil => rfl
  | cons entry rest ih =>
    obtain ⟨other, item⟩ := entry
    cases item with
    | control command =>
      by_cases mine : other = id
      · simpa [commandsOf, requestsBy, appliedBy, commandsFrom, mine] using ih
      · simpa [commandsOf, requestsBy, appliedBy, commandsFrom, mine] using ih
    | push data =>
      by_cases mine : other = id
      · simpa [commandsOf, requestsBy, appliedBy, commandsFrom, mine] using ih
      · simpa [commandsOf, requestsBy, appliedBy, commandsFrom, mine] using ih

theorem asked_of_accounted (system : System) (id : Nat) (accounted : Accounted system id) :
    asked system id = requestsBy id system.daemon.enqueued ++ held system.daemon.hub id ++
      requests (drain (decoder codec) ((system.wire id).buffer ++ (system.wire id).unread)).items := by
  obtain ⟨consumed, decoded, split, whole, put⟩ := accounted
  rw [asked, split, drain_behind (decoder codec) consumed _ decoded whole, requests_append, put]

theorem commands_initial (daemon : Daemon) (channels : Channels daemon) :
    commandsTaken daemon.taken <+: commandsPut daemon.enqueued := by
  cases channels with
  | serving on control push => exact control ▸ List.prefix_append _ _
  | dropped off noControl noPush control push => exact control

theorem carried_of_served (system : System) (served : Served system) : Carried system where
  inOrder := by
    intro id
    rw [asked_of_accounted system id (served.accounted id), List.append_assoc]
    exact List.prefix_append _ _
  heard := by
    rintro id ⟨nothing, empty⟩
    rw [asked_of_accounted system id (served.accounted id), nothing, empty]
    simp [requests]
  taken := by
    have initial := commands_initial system.daemon served.channels
    rw [commandsPut_eq] at initial
    rw [applied, List.map_take]
    exact (List.prefix_iff_eq_take.mp initial).symm
  commands := by
    intro id
    have put : requestsBy id system.daemon.enqueued <+: asked system id := by
      rw [asked_of_accounted system id (served.accounted id), List.append_assoc]
      exact List.prefix_append _ _
    have sooner : appliedBy id (applied system.daemon) <+:
        appliedBy id (commandsFrom system.daemon.enqueued) :=
      ((List.take_prefix _ _).filter _).map _
    rw [← commandsOf_requestsBy] at sooner
    exact sooner.trans (put.filterMap _)
  idle := by
    intro on empty
    cases served.channels with
    | dropped off => rw [on] at off; cases off
    | serving _ control push =>
      rw [empty, List.append_nil] at control
      have all : (commandsTaken system.daemon.taken).length =
          (commandsFrom system.daemon.enqueued).length := by
        rw [← control, commandsPut_eq, List.length_map]
      rw [applied, all, List.take_length]

end Merge

/-- Across every interleaving of connections, their tasks and the loop. -/
theorem requests_carried (scrollback : Nat) (content : List UInt8) (logging : Option Nat)
    (daemon : Daemon) (last : System) (events : List SystemEvent)
    (started : Daemon.start scrollback content logging = some daemon)
    (ran : run System.step (System.start daemon) events = some last) : Carried last :=
  carried_of_served last
    (served_run scrollback content logging daemon last events started ran)

/-- A window size and a signal, decoded, and taken by the loop. -/
def sizeAndSignal : List SystemEvent :=
  [.daemon (.connects 0), .daemon (.select 0),
    .peerWrites 0 (frame codec (.winch 24 80) ++ frame codec (.kill 15)), .fill 0 15,
    .next 0, .daemon (.task (.enqueue 0)), .next 0, .daemon (.task (.enqueue 0)),
    .daemon (.select 0), .daemon (.select 0)]

set_option maxRecDepth 2000 in
theorem requests_carried_both : ∃ last, Daemon.start 8 [] none = some idle ∧
    run System.step (System.start idle) sizeAndSignal = some last ∧
      commandsTaken last.daemon.taken = [.resize 24 80, .signal Signal.term] ∧ Carried last := by
  refine ⟨_, start_idle, rfl, rfl, ?_⟩
  exact requests_carried 8 [] none idle _ sizeAndSignal start_idle rfl

end Hytch.Requests
