import Hytch.SpawnDetached

/-!
Bringing a dead session back by name. Nothing in the program removes the socket
a daemon leaves behind when it dies without its shutdown, so the name works
again exactly when no daemon died while its socket was at the path.
-/

namespace Hytch.SessionRevival

open Runs DaemonLifecycle SpawnDetached

inductive Command where
  | start
  | default
  deriving DecidableEq

inductive Action where
  | attach
  | spawn
  deriving DecidableEq

/-- `connect` succeeds: somebody listens at the path. -/
def connects (machine : Machine) : Bool :=
  match machine.node with
  | .socket owner => (machine.daemons owner).any Phase.bound
  | _ => false

/-- `cmd_default` attaches if it can and spawns otherwise; `cmd_start` spawns. -/
def action (machine : Machine) : Command → Action
  | .start => .spawn
  | .default => if machine.node ≠ .absent ∧ connects machine then .attach else .spawn

/-- Nothing the daemon does on its way up fails by itself. -/
def Favourable : LaunchEvent → Prop
  | .daemon succeeds => succeeds = true
  | _ => True

/-- `spawn_detached` has returned and the daemon has served or given up. -/
def Settled (launch : Launch) : Prop :=
  launch.outcome.isSome = true ∧
    ∃ phase, launch.machine.daemons launch.pid = some phase ∧ phase.starting = false

/-- The command spawns a daemon; however its steps and the polling interleave, it
can always come to an end, and every end has the new daemon bound. -/
structure BringsBack (machine : Machine) (command : Command) (pid : Nat) : Prop where
  spawns : action machine command = .spawn
  ends : ∀ events launch, run Launch.step (Launch.start machine pid) events = some launch →
    (∀ event ∈ events, Favourable event) →
    ∃ more last, run Launch.step launch more = some last ∧ (∀ event ∈ more, Favourable event) ∧
      Settled last
  bound : ∀ events launch, run Launch.step (Launch.start machine pid) events = some launch →
    (∀ event ∈ events, Favourable event) → Settled launch → launch.machine.Bound pid

/-- No daemon is stopped while the path names it, other than by its shutdown. -/
def Spared (machine : Machine) : MachineEvent → Prop
  | .crash pid => ∀ phase, machine.daemons pid = some phase → phase.bound = false
  | .reboot => ∀ pid phase, machine.daemons pid = some phase → phase.bound = false
  | _ => True

def Stale (machine : Machine) : Prop :=
  machine.node.isSocket = true ∧ ¬ machine.Listening

/-- A socket at the path is somebody's listener. -/
def Tended (machine : Machine) : Prop :=
  machine.node.isSocket = true → machine.Listening

theorem tended_step (machine next : Machine) (event : MachineEvent) (tended : Tended machine)
    (spared : Spared machine event) (taken : machine.step event = some next) : Tended next := by
  intro socket
  cases machine_step_cases machine next event taken with
  | @daemon event pid phase daemons quiet node was =>
    rw [node] at socket
    obtain ⟨owner, ownerPhase, path, known, bound⟩ := tended socket
    have other : owner ≠ pid := by
      rintro rfl
      rcases was with rfl | old
      · rw [spared ownerPhase known] at bound
        cases bound
      · rw [old ownerPhase known] at bound
        cases bound
    refine ⟨owner, ownerPhase, by rw [node, path], ?_, bound⟩
    rw [daemons, Function.update_of_ne other, known]
  | @binds pid phase succeeds known starting daemons free node =>
    exact ⟨pid, .serving, node, by rw [daemons, Function.update_self], rfl⟩
  | @leaves pid code serving daemons node =>
    rw [node] at socket
    obtain ⟨owner, phase, path, known, bound⟩ := tended socket
    by_cases same : owner = pid
    · subst same
      exact ⟨owner, .closing code, by rw [node, path], by rw [daemons, Function.update_self], rfl⟩
    · refine ⟨owner, phase, by rw [node, path], ?_, bound⟩
      rw [daemons, Function.update_of_ne same, known]
  | unlinks closing daemons node =>
    rw [node] at socket
    cases socket
  | reboots daemons node =>
    rw [node] at socket
    obtain ⟨owner, phase, path, known, bound⟩ := tended socket
    rw [spared owner phase known] at bound
    cases bound

/-- A socket without a listener is never removed and never served again. -/
theorem stale_step (machine next : Machine) (event : MachineEvent) (orderly : Orderly machine)
    (stale : Stale machine) (taken : machine.step event = some next) : Stale next := by
  obtain ⟨socket, deaf⟩ := stale
  cases machine_step_cases machine next event taken with
  | @daemon event pid phase daemons quiet node was =>
    refine ⟨by rw [node, socket], ?_⟩
    rintro ⟨owner, ownerPhase, path, known, bound⟩
    rw [node] at path
    rw [daemons] at known
    rcases updated_phase machine.daemons pid owner phase ownerPhase known with
      ⟨_, rfl⟩ | ⟨_, before⟩
    · rw [quiet] at bound
      cases bound
    · exact deaf ⟨owner, ownerPhase, path, before, bound⟩
  | binds succeeds known starting daemons free node =>
    rw [free] at socket
    cases socket
  | @leaves pid code serving daemons node =>
    exact absurd ⟨pid, _, orderly.owned pid _ serving rfl, serving, rfl⟩ deaf
  | @unlinks pid code closing daemons node =>
    exact absurd ⟨pid, _, orderly.owned pid _ closing rfl, closing, rfl⟩ deaf
  | reboots daemons node =>
    refine ⟨by rw [node, socket], ?_⟩
    rintro ⟨owner, phase, path, known, bound⟩
    rw [daemons] at known
    cases known

/-- Stopping a daemon while the path names it leaves a stale socket. -/
theorem stale_after_harm (machine next : Machine) (event : MachineEvent) (orderly : Orderly machine)
    (harmed : ¬ Spared machine event) (taken : machine.step event = some next) : Stale next := by
  cases event with
  | crash pid =>
    simp only [Spared, not_forall, Bool.not_eq_false] at harmed
    obtain ⟨phase, known, bound⟩ := harmed
    have path := orderly.owned pid phase known bound
    simp only [Machine.step, known] at taken
    split at taken
    · cases taken
    · cases taken
    · cases taken
      refine ⟨by simp [Machine.setPhase, path, Node.isSocket], ?_⟩
      rintro ⟨owner, ownerPhase, named, ownerKnown, ownerBound⟩
      simp only [Machine.setPhase] at named ownerKnown
      rw [path] at named
      cases named
      rw [Function.update_self] at ownerKnown
      cases ownerKnown
      cases ownerBound
  | reboot =>
    simp only [Spared, not_forall, Bool.not_eq_false] at harmed
    obtain ⟨pid, phase, known, bound⟩ := harmed
    have path := orderly.owned pid phase known bound
    cases taken
    refine ⟨by simp [path, Node.isSocket], ?_⟩
    rintro ⟨owner, ownerPhase, named, ownerKnown, ownerBound⟩
    cases ownerKnown
  | launch pid => exact absurd trivial harmed
  | startUp pid succeeds => exact absurd trivial harmed
  | leave pid code => exact absurd trivial harmed
  | unlink pid => exact absurd trivial harmed

theorem spared_or_stale (machine last : Machine) (history : List MachineEvent)
    (orderly : Orderly machine) (ran : run Machine.step machine history = some last) :
    Meets Machine.step Spared machine history ∨ Stale last := by
  induction history generalizing machine with
  | nil => exact Or.inl trivial
  | cons event rest ih =>
    obtain ⟨next, taken, later⟩ := run_cons Machine.step machine last event rest ran
    have still := orderly_step machine next event orderly taken
    by_cases spared : Spared machine event
    · rcases ih next still later with met | stale
      · exact Or.inl (meets_cons _ _ machine next event rest taken spared met)
      · exact Or.inr stale
    · -- the first harm is final, whatever happens in the rest of the history
      have stale := stale_after_harm machine next event orderly spared taken
      have both := run_invariant Machine.step (fun state => Orderly state ∧ Stale state)
        (fun state event next kept taken => ⟨orderly_step state next event kept.1 taken,
          stale_step state next event kept.1 kept.2 taken⟩) next last rest ⟨still, stale⟩ later
      exact Or.inr both.2

theorem tended_run (machine : Machine) (history : List MachineEvent)
    (spared : Meets Machine.step Spared Machine.initial history)
    (ran : run Machine.step Machine.initial history = some machine) : Tended machine :=
  run_guarded_invariant Machine.step Spared (fun _ => Tended)
    (fun _ state event next tended spared taken => tended_step state next event tended spared taken)
    [] history Machine.initial machine nofun spared ran

theorem connects_listening (machine : Machine) (connected : connects machine = true) :
    machine.Listening := by
  unfold connects at connected
  split at connected
  · rename_i owner path
    cases known : machine.daemons owner with
    | none => simp [known] at connected
    | some phase => exact ⟨owner, phase, path, known, by simpa [known] using connected⟩
  · cases connected

theorem action_spawns (machine : Machine) (command : Command) (deaf : ¬ machine.Listening) :
    action machine command = .spawn := by
  cases command with
  | start => rfl
  | default =>
    apply if_neg
    rintro ⟨_, connected⟩
    exact deaf (connects_listening machine connected)

/-- On its way up over a free path, or bound. -/
structure Rising (pid : Nat) (launch : Launch) : Prop where
  child : launch.pid = pid
  phase : ∃ phase, launch.machine.daemons pid = some phase ∧
    ((phase.starting = true ∧ launch.machine.node = .absent) ∨
      (phase = .serving ∧ launch.machine.node = .socket pid))

def remaining : Phase → Nat
  | .creatingDir => 4
  | .spawningProgram => 3
  | .openingLog => 2
  | .binding => 1
  | _ => 0

theorem remaining_positive (phase : Phase) (starting : phase.starting = true) :
    0 < remaining phase := by
  cases phase <;> first | decide | cases starting

theorem start_up_free (pid : Nat) (phase : Phase) (starting : phase.starting = true) :
    ∃ next node, startUp pid .absent true phase = some (next, node) ∧
      remaining next + 1 = remaining phase ∧
      ((next.starting = true ∧ node = .absent) ∨ (next = .serving ∧ node = .socket pid)) := by
  cases phase with
  | creatingDir => exact ⟨_, _, rfl, rfl, Or.inl ⟨rfl, rfl⟩⟩
  | spawningProgram => exact ⟨_, _, rfl, rfl, Or.inl ⟨rfl, rfl⟩⟩
  | openingLog => exact ⟨_, _, rfl, rfl, Or.inl ⟨rfl, rfl⟩⟩
  | binding => exact ⟨_, _, rfl, rfl, Or.inr ⟨rfl, rfl⟩⟩
  | serving => cases starting
  | closing code => cases starting
  | exited status => cases starting

theorem daemon_steps (launch : Launch) (phase next : Phase) (node : Node) (succeeds : Bool)
    (known : launch.machine.daemons launch.pid = some phase)
    (took : startUp launch.pid launch.machine.node succeeds phase = some (next, node)) :
    launch.step (.daemon succeeds) =
      some { launch with machine :=
        { launch.machine.setPhase launch.pid next with node := node } } := by
  simp [Launch.step, Machine.step, known, took]

theorem rising_step (pid : Nat) (launch next : Launch) (event : LaunchEvent)
    (rising : Rising pid launch) (favourable : Favourable event)
    (taken : launch.step event = some next) : Rising pid next := by
  obtain ⟨child, phase, known, state⟩ := rising
  cases event with
  | daemon succeeds =>
    have succeeded : succeeds = true := favourable
    subst succeeded
    rcases state with ⟨starting, free⟩ | ⟨rfl, path⟩
    · obtain ⟨after, node, took, _, reached⟩ := start_up_free pid phase starting
      rw [← child] at known took
      rw [daemon_steps launch phase after node true known (by rw [free]; exact took)] at taken
      cases taken
      exact ⟨child, after, by simp [Machine.setPhase, child], reached⟩
    · obtain ⟨machine, moved, rfl⟩ := Option.map_eq_some_iff.mp taken
      simp [Machine.step, child, known, startUp] at moved
  | poll =>
    simp only [Launch.step] at taken
    split at taken
    · cases taken
      split
      · exact ⟨child, phase, known, state⟩
      · exact ⟨child, phase, known, state⟩
    · cases taken
  | deadline =>
    simp only [Launch.step] at taken
    split at taken
    · cases taken
      exact ⟨child, phase, known, state⟩
    · cases taken
  | childExited =>
    simp only [Launch.step] at taken
    split at taken
    · rename_i status _ exited
      rw [child, known] at exited
      cases exited
      rcases state with ⟨starting, _⟩ | ⟨serving, _⟩
      · cases starting
      · cases serving
    · cases taken

theorem rising_run (pid : Nat) (launch last : Launch) (events : List LaunchEvent)
    (rising : Rising pid launch) (favourable : ∀ event ∈ events, Favourable event)
    (ran : run Launch.step launch events = some last) : Rising pid last :=
  run_guarded_invariant Launch.step (fun _ event => Favourable event) (fun _ => Rising pid)
    (fun _ state event next rising favourable taken =>
      rising_step pid state next event rising favourable taken)
    [] events launch last rising (meets_of_forall Launch.step Favourable launch events favourable) ran

/-- Letting only the daemon move brings it up. -/
theorem rises (pid steps : Nat) (launch : Launch) (rising : Rising pid launch)
    (left : ∀ phase, launch.machine.daemons pid = some phase → remaining phase = steps) :
    ∃ more last, run Launch.step launch more = some last ∧ (∀ event ∈ more, Favourable event) ∧
      last.machine.Bound pid ∧ last.pid = pid := by
  -- on what is left of the start-up; the polls in between do not matter
  induction steps generalizing launch with
  | zero =>
    obtain ⟨child, phase, known, ⟨starting, _⟩ | ⟨rfl, path⟩⟩ := rising
    · have some_left := remaining_positive phase starting
      rw [left phase known] at some_left
      cases some_left
    · exact ⟨[], launch, rfl, by simp, ⟨known, path⟩, child⟩
  | succ steps ih =>
    obtain ⟨rfl, phase, known, ⟨starting, free⟩ | ⟨rfl, path⟩⟩ := rising
    · obtain ⟨next, node, took, fewer, reached⟩ := start_up_free launch.pid phase starting
      have here := left phase known
      have moved := daemon_steps launch phase next node true known (by rw [free, took])
      obtain ⟨more, last, ran, favourable, bound, same⟩ := ih
        { launch with machine := { launch.machine.setPhase launch.pid next with node := node } }
        ⟨rfl, next, by simp [Machine.setPhase], reached⟩ (by
          intro other otherKnown
          simp only [Machine.setPhase, Function.update_self, Option.some.injEq] at otherKnown
          subst otherKnown
          omega)
      refine ⟨.daemon true :: more, last, ?_, ?_, bound, same⟩
      · rw [run, moved]
        exact ran
      · intro event member
        rcases List.mem_cons.mp member with rfl | later
        · rfl
        · exact favourable event later
    · cases left .serving known

theorem free_path_brings_back (machine : Machine) (command : Command) (pid : Nat)
    (free : machine.node = .absent) : BringsBack machine command pid := by
  have begun : Rising pid (Launch.start machine pid) :=
    ⟨rfl, .creatingDir, by simp [Launch.start, Machine.setPhase], Or.inl ⟨rfl, free⟩⟩
  constructor
  · apply action_spawns
    rintro ⟨owner, phase, path, _⟩
    rw [free] at path
    cases path
  · intro events launch ran favourable
    have rising := rising_run pid _ launch events begun favourable ran
    obtain ⟨phase, known, _⟩ := rising.phase
    obtain ⟨more, last, rose, good, bound, child⟩ := rises pid (remaining phase) launch rising (by
      intro other otherKnown
      rw [known] at otherKnown
      cases otherKnown
      rfl)
    have served : ∃ phase, last.machine.daemons last.pid = some phase ∧ phase.starting = false :=
      ⟨.serving, by rw [child]; exact bound.1, rfl⟩
    cases said : last.outcome with
    | some outcome =>
      exact ⟨more, last, rose, good, by rw [said]; rfl, served⟩
    | none =>
      refine ⟨more ++ [.poll], last.finish (.ok ()), ?_, ?_, rfl, served⟩
      · rw [run_append, rose]
        simp [run, Launch.step, said, bound.2, Node.isSocket]
      · intro event member
        rcases List.mem_append.mp member with earlier | final
        · exact good event earlier
        · rw [List.mem_singleton.mp final]
          trivial
  · intro events launch ran favourable settled
    obtain ⟨child, phase, known, state⟩ := rising_run pid _ launch events begun favourable ran
    obtain ⟨_, other, otherKnown, ended⟩ := settled
    rw [child, known] at otherKnown
    cases otherKnown
    rcases state with ⟨starting, _⟩ | ⟨rfl, path⟩
    · rw [starting] at ended
      cases ended
    · exact ⟨known, path⟩

theorem taken_path_stays_dead (machine : Machine) (command : Command) (pid : Nat)
    (socket : machine.node.isSocket = true) : ¬ BringsBack machine command pid := by
  intro back
  have taken : machine.node ≠ .absent := by
    intro free
    rw [free] at socket
    cases socket
  have ran : run Launch.step (Launch.start machine pid)
      [.daemon true, .daemon true, .daemon true, .daemon true, .poll] =
      some { machine := machine.setPhase pid (.exited (.code 1)), pid := pid
             outcome := some (.ok ()) } := by
    simp [run, Launch.step, Machine.step, Launch.start, Machine.setPhase, startUp, taken, socket,
      Launch.finish]
  have settled := back.bound _ _ ran (by simp [Favourable])
    ⟨rfl, .exited (.code 1), by simp [Machine.setPhase], rfl⟩
  simp [Machine.Bound, Machine.setPhase] at settled

/-- From every state without a listener the name comes back exactly when, in its
whole history, no daemon was stopped while the path named it. -/
theorem name_comes_back_iff (history : List MachineEvent) (machine : Machine) (command : Command)
    (pid : Nat) (ran : run Machine.step Machine.initial history = some machine)
    (deaf : ¬ machine.Listening) :
    BringsBack machine command pid ↔ Meets Machine.step Spared Machine.initial history := by
  have orderly := orderly_run machine history ran
  constructor
  · intro back
    rcases spared_or_stale Machine.initial machine history
      (orderly_run Machine.initial [] rfl) ran with met | stale
    · exact met
    · exact absurd back (taken_path_stays_dead machine command pid stale.1)
  · intro spared
    apply free_path_brings_back
    have tended := tended_run machine history spared ran
    cases path : machine.node with
    | absent => rfl
    | file => exact absurd path orderly.node
    | socket owner => exact absurd (tended (by rw [path]; rfl)) deaf

theorem name_comes_back_iff_clean_exit : ∃ machine, run Machine.step Machine.initial
    [.launch 1, .startUp 1 true, .startUp 1 true, .startUp 1 true, .startUp 1 true, .leave 1 0,
      .unlink 1] = some machine ∧
    (BringsBack machine .default 2 ↔ Meets Machine.step Spared Machine.initial
      [.launch 1, .startUp 1 true, .startUp 1 true, .startUp 1 true, .startUp 1 true, .leave 1 0,
        .unlink 1]) := by
  refine ⟨_, rfl, ?_⟩
  refine name_comes_back_iff _ _ .default 2 rfl ?_
  rintro ⟨owner, phase, path, _⟩
  cases path

/-- The daemon crashes while serving; neither command brings the name back. -/
theorem crashed_name_stays_dead : ∃ machine, run Machine.step Machine.initial
    [.launch 1, .startUp 1 true, .startUp 1 true, .startUp 1 true, .startUp 1 true, .crash 1] =
      some machine ∧
    ¬ machine.Listening ∧ ¬ BringsBack machine .start 2 ∧ ¬ BringsBack machine .default 2 := by
  refine ⟨_, rfl, ?_, taken_path_stays_dead _ .start 2 rfl, taken_path_stays_dead _ .default 2 rfl⟩
  rintro ⟨owner, phase, path, known, bound⟩
  cases path
  cases known
  cases bound

end Hytch.SessionRevival
