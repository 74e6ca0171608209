import Hytch.PushedInput
import Hytch.Requests

/-!
`send_control` of `commands.rs` writes one frame and drops the connection. The task on the
other side has nothing to write to it, so it is not torn away from what it has still to read,
as the task of an attached client may be: it ends behind the last frame.
-/

namespace Hytch.ControlMessages

open IncrementalDecoding MessageCodec FrameStream HandleClient Attachments DaemonRun Connections
  DetachedInput PlainConnection PushedInput Requests Runs

/-- What is on the wire when the connection is dropped. -/
def sendControl (msg : Message) : Except IoError (List UInt8) :=
  match encode codec msg [] with
  | (.ok (), buf) => .ok buf
  | (.error fault, _) => .error fault

def signalOf (signal : UInt8) : Signal := (Signal.fromRaw signal.toNat).getD Signal.term

/-- A task that is over has left no frame of its connection undecoded. -/
def Finished (id : Nat) (system : System) : Prop :=
  Ended system id →
    (drain (decoder codec) ((system.wire id).buffer ++ (system.wire id).unread)).items = []

/-- What holds of a connection that has not sent an Attach. -/
structure Undisturbed (id : Nat) (system : System) : Prop where
  pushing : Pushing id system
  finished : Finished id system

section Steps

variable (id : Nat) (system next : System) (event : SystemEvent)

theorem plain_goes_on (daemon : Daemon) (task : HubEvent UInt8)
    (plain : ∀ client, system.daemon.hub.clients id = some client → Plain client)
    (own : mover task = some id) (moved : system.daemon.step (.task task) = some daemon) :
    task ≠ .writeFails id ∧ task ≠ .live id := by
  obtain ⟨_, stepped⟩ := task_moves system.daemon daemon task moved
  constructor
  · rintro rfl
    cases plain_enqueues _ _ _ id plain own nofun stepped
  · rintro rfl
    cases plain_enqueues _ _ _ id plain own nofun stepped

theorem finished_step (pushing : Pushing id system) (finished : Finished id system)
    (taken : system.step event = some next) : Finished id next := by
  intro isOver
  by_cases ended : Ended system id
  · obtain ⟨buffer, unread⟩ := ended_frozen system next event id ended taken
    rw [buffer, unread]
    exact finished ended
  · have isOpen := pushing.served.isOpen
    cases system_step_cases system next event taken with
    | peerWrites connected opened => exact absurd isOver ended
    | peerCloses => exact absurd isOver ended
    | fill reading pending bound => exact absurd isOver ended
    | @frame reader msg rest daemon found moved =>
      rcases daemon_ends system daemon _ id isOpen ended isOver moved with
        same | same | same | ⟨same, _⟩ <;> cases same
    | @ends reader input daemon last left moved =>
      rcases daemon_ends system daemon _ id isOpen ended isOver moved with
        same | same | same | ⟨same, _⟩ <;> cases same
      · exact left
      · exact left
    | @daemon event daemon allowed moved =>
      rcases daemon_ends system daemon _ id isOpen ended isOver moved with
        rfl | rfl | rfl | ⟨rfl, _⟩
      · cases allowed
      · cases allowed
      · exact absurd rfl (plain_goes_on id system daemon _ pushing.plain rfl moved).1
      · exact absurd rfl (plain_goes_on id system daemon _ pushing.plain rfl moved).2

theorem undisturbed_step (undisturbed : Undisturbed id system) (never : NoAttach id system)
    (taken : system.step event = some next) : Undisturbed id next := by
  obtain ⟨pushing, finished⟩ := undisturbed
  constructor
  · exact pushing_step id system next event pushing never taken
  · exact finished_step id system next event pushing finished taken

theorem no_attach_before (never : NoAttach id next) (taken : system.step event = some next) :
    NoAttach id system := by
  intro skipRing sent
  obtain ⟨more, same⟩ := sent_grows id system next event taken
  have initial := drain_initial (decoder codec) (system.wire id).sent more
  rw [same] at initial
  exact never skipRing (initial.subset sent)

end Steps

section Whole

variable (scrollback : Nat) (content : List UInt8) (logging : Option Nat) (daemon : Daemon)
variable (last : System) (events : List SystemEvent) (id : Nat)
variable (started : Daemon.start scrollback content logging = some daemon)
variable (ran : run System.step (System.start daemon) events = some last)
include started ran

theorem undisturbed_run (never : NoAttach id last) : Undisturbed id last := by
  refine run_invariant System.step (fun system => NoAttach id system → Undisturbed id system) ?_
    (System.start daemon) last events ?_ ran never
  · intro system event next kept taken never
    have before := no_attach_before id system next event never taken
    exact undisturbed_step id system next event (kept before) before taken
  · intro _
    constructor
    · exact pushing_start scrollback content logging daemon id started
    · rintro ⟨client, known, _⟩
      obtain ⟨hub, writer, created, _, rfl⟩ :=
        start_cases scrollback content logging daemon started
      obtain ⟨fanout, _, rfl⟩ := hub_start_cases _ _ _ created
      cases known

/-- All that a plain connection asked for has been handed to the loop when its task is over. -/
theorem asked_in_full (never : NoAttach id last) (ended : Ended last id) :
    requestsBy id last.daemon.enqueued = asked last id := by
  have undisturbed := undisturbed_run scrollback content logging daemon last events id started ran never
  have nothing := undisturbed.finished ended
  obtain ⟨client, known, isOver⟩ := ended
  have empty : held last.daemon.hub id = [] := by
    simp [held, known, holding, isOver]
  rw [asked_of_accounted last id (undisturbed.pushing.served.accounted id), nothing, empty]
  simp [requests]

end Whole

theorem control_decoded (msg : Message) (sent : List UInt8) (small : payloadLength msg ≤ 5)
    (written : sendControl msg = .ok sent) :
    drain (decoder codec) sent = ⟨[msg], .ok []⟩ := by
  rw [sendControl, encode_appends] at written
  cases written
  have admitted : ∀ other ∈ [msg], payloadLength other ≤ codec.maxFrameLen := by
    intro other member
    rw [List.mem_singleton.mp member]
    exact Nat.le_trans small (by decide)
  have fits : ∀ other ∈ [msg], payloadLength other < 2 ^ 32 := by
    intro other member
    rw [List.mem_singleton.mp member]
    exact Nat.lt_of_le_of_lt small (by decide)
  have one := drain_frames codec [msg] admitted fits
  simpa using one

theorem kill_decoded (signal : UInt8) (sent : List UInt8)
    (written : sendControl (.kill signal) = .ok sent) :
    (drain (decoder codec) sent).items = [.kill signal] := by
  rw [control_decoded (.kill signal) sent (by simp [payloadLength]) written]

/-- A connection that never attaches may be dropped behind its last byte. The signal of a `kill`
gets to the loop once, and to the child when the loop has dealt with its commands. -/
theorem outlives_connection (scrollback : Nat) (content : List UInt8) (logging : Option Nat)
    (daemon : Daemon) (last : System) (events : List SystemEvent) (id : Nat)
    (started : Daemon.start scrollback content logging = some daemon)
    (ran : run System.step (System.start daemon) events = some last)
    (ended : Ended last id) :
    (NoAttach id last → requestsBy id last.daemon.enqueued = asked last id) ∧
    ∀ signal, sendControl (.kill signal) = .ok (last.wire id).sent →
      requestsBy id last.daemon.enqueued = [.control (.signal (signalOf signal))] ∧
      (last.daemon.hub.serving = true → last.daemon.hub.controlQueue = [] →
        appliedBy id (applied last.daemon) = [.signal (signalOf signal)]) := by
  have full := asked_in_full scrollback content logging daemon last events id started ran
  refine ⟨fun never => full never ended, ?_⟩
  intro signal written
  have items := kill_decoded signal _ written
  have never : NoAttach id last := by
    intro skipRing member
    rw [items] at member
    cases List.mem_singleton.mp member
  have put : requestsBy id last.daemon.enqueued = [.control (.signal (signalOf signal))] := by
    rw [full never ended, asked, items]
    rfl
  refine ⟨put, ?_⟩
  intro serving drained
  have carried := requests_carried scrollback content logging daemon last events started ran
  rw [carried.idle serving drained, ← commandsOf_requestsBy, put]
  rfl

/-- The connection is gone before the daemon has accepted it. -/
def killAndGone : List SystemEvent :=
  [.daemon (.connects 0), .peerWrites 0 (frame codec (.kill 9)), .peerCloses 0, .daemon (.select 0),
    .fill 0 3, .fill 0 3, .next 0, .daemon (.task (.enqueue 0)), .next 0, .daemon (.select 0)]

set_option maxRecDepth 2000 in
theorem outlives_connection_killed : ∃ last, Daemon.start 8 [] none = some idle ∧
    run System.step (System.start idle) killAndGone = some last ∧
      requestsBy 0 last.daemon.enqueued = [.control (.signal { number := 9 })] ∧
      appliedBy 0 (applied last.daemon) = [.signal { number := 9 }] := by
  refine ⟨_, start_idle, rfl, ?_⟩
  have outlives := outlives_connection 8 [] none idle _ killAndGone 0 start_idle rfl ⟨_, rfl, rfl⟩
  have arrived := outlives.2 9 rfl
  exact ⟨arrived.1, arrived.2 rfl rfl⟩

end Hytch.ControlMessages
