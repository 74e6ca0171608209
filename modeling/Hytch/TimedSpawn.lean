import Hytch.Polling
import Hytch.SpawnDetached

/-!
`wait_for_socket` with its clock: a look every 20 ms for three seconds, beside the wait for
the child. Without the clock it is the poll of `SpawnDetached`.
-/

namespace Hytch.TimedSpawn

open DaemonLifecycle Polling SpawnDetached Runs

/-- Time is in milliseconds. -/
structure TimedLaunch where
  launch : Launch
  now : Nat
  poll : Poll

inductive TimedEvent where
  | daemon (succeeds : Bool)
  | passes (duration : Nat)
  | polls (event : PollEvent)
  | childExited

/-- The sleep of `wait_for_socket`. -/
def period : Nat := 20

def timeout : Nat := 3000

/-- What the select returns when `wait_for_socket` does. -/
def answer : Polling.Phase → Option (Except IoError Unit)
  | .finished true => some (.ok ())
  | .finished false => some (.error notReady)
  | _ => none

namespace TimedLaunch

def start (machine : Machine) (pid now : Nat) : TimedLaunch :=
  { launch := Launch.start machine pid, now := now, poll := Poll.start now timeout }

/-- A look asks for the file type. -/
def truthful (timed : TimedLaunch) : PollEvent → Bool
  | .looks found => found == timed.launch.machine.node.isSocket
  | _ => true

def step (timed : TimedLaunch) : TimedEvent → Option TimedLaunch
  | .daemon succeeds =>
      (timed.launch.step (.daemon succeeds)).map fun launch => { timed with launch := launch }
  | .passes duration => some { timed with now := timed.now + duration }
  | .polls event =>
      if timed.launch.outcome.isNone ∧ timed.truthful event then
        (timed.poll.step period timed.now event).map fun poll =>
          { timed with launch := { timed.launch with outcome := answer poll.phase }, poll := poll }
      else none
  | .childExited =>
      (timed.launch.step .childExited).map fun launch => { timed with launch := launch }

end TimedLaunch

theorem outcome_kept (launch : Launch) (outcome : Option (Except IoError Unit))
    (same : launch.outcome = outcome) : { launch with outcome := outcome } = launch := by
  rw [← same]

/-- A look is a poll, or the check at the deadline; everything else the loop does is unseen. -/
theorem look_refines (timed : TimedLaunch) (poll : Poll) (event : PollEvent)
    (waiting : timed.launch.outcome = none) (honest : timed.truthful event = true)
    (moved : timed.poll.step period timed.now event = some poll) :
    ∃ actions, run Launch.step timed.launch actions =
      some { timed.launch with outcome := answer poll.phase } := by
  have unseen (nothing : answer poll.phase = none) :
      ∃ actions, run Launch.step timed.launch actions =
        some { timed.launch with outcome := answer poll.phase } := by
    refine ⟨[], ?_⟩
    rw [nothing, outcome_kept timed.launch none waiting]
    rfl
  cases poll_step_cases period timed.now timed.poll poll event moved with
  | goesOn => exact unseen rfl
  | leaves => exact unseen rfl
  | wakes => exact unseen rfl
  | sleeps => exact unseen rfl
  | finds looking =>
    have socket : timed.launch.machine.node.isSocket = true := by
      simpa [TimedLaunch.truthful] using honest
    refine ⟨[.poll], ?_⟩
    simp [run, Launch.step, waiting, socket, Launch.finish, answer]
  | @ends found last =>
    have seen : found = timed.launch.machine.node.isSocket := by
      simpa [TimedLaunch.truthful] using honest
    refine ⟨[.deadline], ?_⟩
    subst seen
    cases socket : timed.launch.machine.node.isSocket <;>
      simp [run, Launch.step, waiting, socket, Launch.finish, answer]

theorem timed_step_refines (timed next : TimedLaunch) (event : TimedEvent)
    (taken : timed.step event = some next) :
    ∃ actions, run Launch.step timed.launch actions = some next.launch := by
  cases event with
  | daemon succeeds =>
    obtain ⟨launch, moved, rfl⟩ := Option.map_eq_some_iff.mp taken
    refine ⟨[.daemon succeeds], ?_⟩
    rw [run, moved]
    rfl
  | passes duration =>
    cases taken
    exact ⟨[], rfl⟩
  | polls event =>
    obtain ⟨⟨waiting, honest⟩, taken⟩ := Option.ite_none_right_eq_some.mp taken
    obtain ⟨poll, moved, rfl⟩ := Option.map_eq_some_iff.mp taken
    exact look_refines timed poll event (Option.isNone_iff_eq_none.mp waiting) honest moved
  | childExited =>
    obtain ⟨launch, moved, rfl⟩ := Option.map_eq_some_iff.mp taken
    refine ⟨[.childExited], ?_⟩
    rw [run, moved]
    rfl

/-- The loop keeps its pace, and only it says that the daemon is not ready. -/
structure Paced (began : Nat) (timed : TimedLaunch) : Prop where
  timely : Timely period timed.now timed.poll
  began : timed.poll.began = began
  timeout : timed.poll.timeout = timeout
  late : timed.launch.outcome = some (.error notReady) → timed.poll.phase = .finished false

theorem exited_is_not_late (status : ExitStatus) : exitedImmediately status ≠ notReady := by
  intro same
  have texts := congrArg (fun fault : IoError => fault.message.toList[7]?) same
  simp [exitedImmediately, notReady] at texts

theorem daemon_keeps_outcome (launch next : Launch) (succeeds : Bool)
    (moved : launch.step (.daemon succeeds) = some next) : next.outcome = launch.outcome := by
  obtain ⟨machine, _, rfl⟩ := Option.map_eq_some_iff.mp moved
  rfl

theorem child_exited_outcome (launch next : Launch) (moved : launch.step .childExited = some next) :
    ∃ status, next.outcome = some (.error (exitedImmediately status)) := by
  simp only [Launch.step] at moved
  split at moved
  · cases moved
    exact ⟨_, rfl⟩
  · cases moved

theorem paced_step (began : Nat) (timed next : TimedLaunch) (event : TimedEvent)
    (paced : Paced began timed) (taken : timed.step event = some next) : Paced began next := by
  obtain ⟨timely, start, length, late⟩ := paced
  cases event with
  | daemon succeeds =>
    obtain ⟨launch, moved, rfl⟩ := Option.map_eq_some_iff.mp taken
    refine ⟨timely, start, length, fun said => late ?_⟩
    rw [← daemon_keeps_outcome timed.launch launch succeeds moved]
    exact said
  | passes duration =>
    cases taken
    exact ⟨timely_later period timed.now _ _ timely (Nat.le_add_right _ _), start, length, late⟩
  | polls event =>
    obtain ⟨_, taken⟩ := Option.ite_none_right_eq_some.mp taken
    obtain ⟨poll, moved, rfl⟩ := Option.map_eq_some_iff.mp taken
    obtain ⟨same, also, _⟩ := poll_step_frame period timed.now timed.poll poll event moved
    refine ⟨timely_step period timed.now _ _ event timely moved, same.trans start,
      also.trans length, fun said => ?_⟩
    cases phase : poll.phase with
    | finished found =>
      cases found with
      | true => simp [answer, phase] at said
      | false => rfl
    | _ => simp [answer, phase] at said
  | childExited =>
    obtain ⟨launch, moved, rfl⟩ := Option.map_eq_some_iff.mp taken
    obtain ⟨status, exited⟩ := child_exited_outcome timed.launch launch moved
    refine ⟨timely, start, length, fun said => ?_⟩
    rw [exited] at said
    exact absurd (Except.error.inj (Option.some.inj said)) (exited_is_not_late status)

/-- The wait refines the poll without a clock. It says that the daemon is not ready when
three seconds are over, and not before; over a path without a socket it says that it is
ready only if it is. -/
structure Waits (machine : Machine) (pid now : Nat) (timed : TimedLaunch) : Prop where
  refines : ∃ actions, run Launch.step (Launch.start machine pid) actions = some timed.launch
  looks : timed.poll.looks ≤ 151
  late : timed.launch.outcome = some (.error notReady) → now + timeout ≤ timed.now
  ready : machine.node.isSocket = false → timed.launch.outcome = some (.ok ()) →
    timed.launch.machine.Bound pid

/-- A daemon that hangs before it binds, and a sleep that is too long. -/
def hangs : List TimedEvent :=
  [.daemon true, .polls .chooses, .polls (.looks false), .passes 3000, .polls .wakes,
    .polls .chooses, .polls (.looks false)]

end Hytch.TimedSpawn
