import Hytch.DaemonLifecycle

/-!
`spawn_detached`: the parent polls the socket path and waits for its child at
the same time, while the child goes through the daemon's start-up. The poll asks
for the file type only, so a socket that was there before ends it at once.
-/

namespace Hytch.SpawnDetached

open Runs DaemonLifecycle

structure Launch where
  machine : Machine
  pid : Nat
  /-- What `spawn_detached` has returned. -/
  outcome : Option (Except IoError Unit)

inductive LaunchEvent where
  | daemon (succeeds : Bool)
  | poll
  /-- The last check, right at the deadline. -/
  | deadline
  | childExited

def notReady : IoError :=
  { kind := .other, message := "daemon did not report ready within the timeout" }

def exitedImmediately (status : ExitStatus) : IoError :=
  { kind := .other
    message := "daemon process exited immediately (" ++ status.text ++
      ") -- check the program name/path" }

namespace Launch

/-- The child has been spawned as `pid`. -/
def start (machine : Machine) (pid : Nat) : Launch :=
  { machine := machine.setPhase pid .creatingDir, pid := pid, outcome := none }

def finish (launch : Launch) (outcome : Except IoError Unit) : Launch :=
  { launch with outcome := some outcome }

def step (launch : Launch) : LaunchEvent → Option Launch
  | .daemon succeeds =>
      (launch.machine.step (.startUp launch.pid succeeds)).map fun machine =>
        { launch with machine := machine }
  | .poll =>
      match launch.outcome with
      | none => some (if launch.machine.node.isSocket then launch.finish (.ok ()) else launch)
      | some _ => none
  | .deadline =>
      match launch.outcome with
      | none =>
          some (launch.finish (if launch.machine.node.isSocket then .ok () else .error notReady))
      | some _ => none
  | .childExited =>
      match launch.outcome, launch.machine.daemons launch.pid with
      | none, some (.exited status) => some (launch.finish (.error (exitedImmediately status)))
      | _, _ => none

end Launch

/-- `Ok` was only returned once the path named this daemon, and the path has not
become anybody else's socket. -/
structure Honest (pid : Nat) (launch : Launch) : Prop where
  child : launch.pid = pid
  mine : launch.machine.node.isSocket = true → launch.machine.Bound pid
  reported : launch.outcome = some (.ok ()) → launch.machine.Bound pid

theorem start_up_machine (machine next : Machine) (pid : Nat) (succeeds : Bool)
    (taken : machine.step (.startUp pid succeeds) = some next) :
    next.Bound pid ∨ (next.node = machine.node ∧ ¬ machine.Bound pid) := by
  obtain ⟨phase, known, rest⟩ := Option.bind_eq_some_iff.mp taken
  obtain ⟨⟨after, node⟩, took, rfl⟩ := Option.map_eq_some_iff.mp rest
  obtain ⟨starting, ⟨rfl, rfl, free⟩ | ⟨quiet, rfl⟩⟩ := start_up_cases pid _ _ _ _ _ took
  · exact Or.inl ⟨Function.update_self _ _ _, rfl⟩
  · refine Or.inr ⟨rfl, ?_⟩
    rintro ⟨serving, _⟩
    rw [serving] at known
    cases known
    cases starting

theorem honest_step (pid : Nat) (launch next : Launch) (event : LaunchEvent)
    (honest : Honest pid launch) (taken : launch.step event = some next) : Honest pid next := by
  have child := honest.child
  cases event with
  | daemon succeeds =>
    obtain ⟨machine, moved, rfl⟩ := Option.map_eq_some_iff.mp taken
    rw [child] at moved
    rcases start_up_machine launch.machine machine pid succeeds moved with bound | ⟨same, unbound⟩
    · exact ⟨child, fun _ => bound, fun _ => bound⟩
    · constructor
      · exact child
      · intro socket
        rw [same] at socket
        exact absurd (honest.mine socket) unbound
      · intro said
        exact absurd (honest.reported said) unbound
  | poll =>
    simp only [Launch.step] at taken
    split at taken
    · cases taken
      split
      · rename_i socket
        exact ⟨child, honest.mine, fun _ => honest.mine socket⟩
      · exact honest
    · cases taken
  | deadline =>
    simp only [Launch.step] at taken
    split at taken
    · cases taken
      refine ⟨child, honest.mine, ?_⟩
      intro said
      by_cases socket : launch.machine.node.isSocket = true
      · exact honest.mine socket
      · simp [Launch.finish, socket] at said
    · cases taken
  | childExited =>
    simp only [Launch.step] at taken
    split at taken
    · cases taken
      exact ⟨child, honest.mine, nofun⟩
    · cases taken

/-- Every reported start is real exactly when the path held no socket before. -/
theorem reported_start_is_real_iff (machine : Machine) (pid : Nat) :
    (∀ events last, run Launch.step (Launch.start machine pid) events = some last →
      last.outcome = some (.ok ()) → last.machine.Bound pid) ↔ machine.node.isSocket = false := by
  constructor
  · -- over a socket the first poll answers before the child has moved
    intro real
    by_contra other
    have socket : machine.node.isSocket = true := by simpa using other
    have polled : run Launch.step (Launch.start machine pid) [.poll] =
        some ((Launch.start machine pid).finish (.ok ())) := by
      simp [run, Launch.step, Launch.start, Machine.setPhase, socket]
    obtain ⟨serving, _⟩ := real [.poll] _ polled rfl
    simp [Launch.finish, Launch.start, Machine.setPhase] at serving
  · intro free events last ran said
    have begun : Honest pid (Launch.start machine pid) := by
      constructor
      · rfl
      · intro socket
        have same : (Launch.start machine pid).machine.node = machine.node := rfl
        rw [same, free] at socket
        cases socket
      · intro said
        cases said
    have honest := run_invariant Launch.step (Honest pid)
      (fun state event next kept taken => honest_step pid state next event kept taken)
      _ last events begun ran
    exact honest.reported said

/-- A crashed daemon left its socket; the first poll reports the new daemon,
which then fails to bind and exits. -/
theorem stale_socket_reported :
    ∃ last, run Launch.step
        (Launch.start { node := .socket 7, daemons := fun pid =>
          if pid = 7 then some (.exited .killed) else none } 8)
        [.poll, .daemon true, .daemon true, .daemon true, .daemon true] = some last ∧
      last.outcome = some (.ok ()) ∧ last.machine.daemons 8 = some (.exited (.code 1)) ∧
      ¬ last.machine.Bound 8 := by
  refine ⟨_, rfl, rfl, rfl, ?_⟩
  rintro ⟨_, path⟩
  cases path

end Hytch.SpawnDetached
