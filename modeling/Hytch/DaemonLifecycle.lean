import Mathlib.Logic.Function.Basic
import Hytch.StandardValues
import Hytch.Runs

/-!
The daemons of one session name and what they leave at its socket path. A
daemon goes through the start-up of `daemon.rs`, serves, and on a clean end
removes the socket; a crash or a reboot stops it anywhere and leaves the path as
it is. Binding needs a free path.
-/

namespace Hytch.DaemonLifecycle

open Runs

/-- What is at the socket path. Nobody listens on a socket whose owner is gone. -/
inductive Node where
  | absent
  | file
  | socket (owner : Nat)
  deriving DecidableEq

/-- `is_socket`: the file type, not whether anybody listens. -/
def Node.isSocket : Node → Bool
  | .socket _ => true
  | _ => false

inductive ExitStatus where
  | code (value : Nat)
  | killed
  deriving DecidableEq

def ExitStatus.text : ExitStatus → String
  | .code value => "exit status: " ++ toString value
  | .killed => "signal: 9 (SIGKILL)"

inductive Phase where
  | creatingDir
  | spawningProgram
  | openingLog
  | binding
  | serving
  /-- The loop has ended; the socket is still there. -/
  | closing (code : Nat)
  | exited (status : ExitStatus)
  deriving DecidableEq

/-- The path still names this daemon's listener. -/
def Phase.bound : Phase → Bool
  | .serving => true
  | .closing _ => true
  | _ => false

def Phase.starting : Phase → Bool
  | .creatingDir => true
  | .spawningProgram => true
  | .openingLog => true
  | .binding => true
  | _ => false

/-- The next step of `run` up to the bind; an error ends the process with code 1. -/
def startUp (pid : Nat) (node : Node) (succeeds : Bool) : Phase → Option (Phase × Node)
  | .creatingDir => some (if succeeds then .spawningProgram else .exited (.code 1), node)
  | .spawningProgram => some (if succeeds then .openingLog else .exited (.code 1), node)
  | .openingLog => some (if succeeds then .binding else .exited (.code 1), node)
  | .binding =>
      -- `EADDRINUSE` for anything at the path, whether or not somebody listens
      if succeeds ∧ node = .absent then some (.serving, .socket pid)
      else some (.exited (.code 1), node)
  | _ => none

structure Machine where
  node : Node
  daemons : Nat → Option Phase

inductive MachineEvent where
  | launch (pid : Nat)
  | startUp (pid : Nat) (succeeds : Bool)
  /-- The child exited by itself or was killed, or the daemon got a signal it handles. -/
  | leave (pid : Nat) (code : Nat)
  /-- `remove_file`, then the process ends. -/
  | unlink (pid : Nat)
  | crash (pid : Nat)
  | reboot

namespace Machine

def initial : Machine := { node := .absent, daemons := fun _ => none }

def setPhase (machine : Machine) (pid : Nat) (phase : Phase) : Machine :=
  { machine with daemons := Function.update machine.daemons pid (some phase) }

def step (machine : Machine) : MachineEvent → Option Machine
  | .launch pid =>
      match machine.daemons pid with
      | none => some (machine.setPhase pid .creatingDir)
      | some _ => none
  | .startUp pid succeeds =>
      (machine.daemons pid).bind fun phase =>
        (DaemonLifecycle.startUp pid machine.node succeeds phase).map fun (phase, node) =>
          { machine.setPhase pid phase with node := node }
  | .leave pid code =>
      match machine.daemons pid with
      | some .serving => some (machine.setPhase pid (.closing code))
      | _ => none
  | .unlink pid =>
      match machine.daemons pid with
      | some (.closing code) =>
          some { machine.setPhase pid (.exited (.code code)) with node := .absent }
      | _ => none
  | .crash pid =>
      match machine.daemons pid with
      | none => none
      | some (.exited _) => none
      | some _ => some (machine.setPhase pid (.exited .killed))
  -- the session directory is on disk
  | .reboot => some { machine with daemons := fun _ => none }

def Bound (machine : Machine) (pid : Nat) : Prop :=
  machine.daemons pid = some .serving ∧ machine.node = .socket pid

/-- A connect to the path would be accepted. -/
def Listening (machine : Machine) : Prop :=
  ∃ pid phase, machine.node = .socket pid ∧ machine.daemons pid = some phase ∧ phase.bound = true

def listener (machine : Machine) : Option Nat :=
  match machine.node with
  | .socket pid =>
      match machine.daemons pid with
      | some phase => if phase.bound then some pid else none
      | none => none
  | _ => none

end Machine

theorem start_up_cases (pid : Nat) (node after : Node) (succeeds : Bool) (phase next : Phase)
    (took : startUp pid node succeeds phase = some (next, after)) :
    phase.starting = true ∧
      ((next = .serving ∧ after = .socket pid ∧ node = .absent) ∨
        (next.bound = false ∧ after = node)) := by
  cases phase with
  | binding =>
    simp only [startUp] at took
    split at took
    · rename_i free
      cases took
      exact ⟨rfl, Or.inl ⟨rfl, rfl, free.2⟩⟩
    · cases took
      exact ⟨rfl, Or.inr ⟨rfl, rfl⟩⟩
  | creatingDir => cases succeeds <;> cases took <;> exact ⟨rfl, Or.inr ⟨rfl, rfl⟩⟩
  | spawningProgram => cases succeeds <;> cases took <;> exact ⟨rfl, Or.inr ⟨rfl, rfl⟩⟩
  | openingLog => cases succeeds <;> cases took <;> exact ⟨rfl, Or.inr ⟨rfl, rfl⟩⟩
  | serving => cases took
  | closing code => cases took
  | exited status => cases took

inductive MachineStep (machine next : Machine) : MachineEvent → Prop where
  | daemon {event : MachineEvent} {pid : Nat} {phase : Phase}
      (daemons : next.daemons = Function.update machine.daemons pid (some phase))
      (quiet : phase.bound = false) (node : next.node = machine.node)
      (was : event = .crash pid ∨ ∀ old, machine.daemons pid = some old → old.bound = false) :
      MachineStep machine next event
  | binds {pid : Nat} {phase : Phase} (succeeds : Bool) (known : machine.daemons pid = some phase)
      (starting : phase.starting = true)
      (daemons : next.daemons = Function.update machine.daemons pid (some .serving))
      (free : machine.node = .absent) (node : next.node = .socket pid) :
      MachineStep machine next (.startUp pid succeeds)
  | leaves {pid code : Nat} (serving : machine.daemons pid = some .serving)
      (daemons : next.daemons = Function.update machine.daemons pid (some (.closing code)))
      (node : next.node = machine.node) : MachineStep machine next (.leave pid code)
  | unlinks {pid code : Nat} (closing : machine.daemons pid = some (.closing code))
      (daemons : next.daemons = Function.update machine.daemons pid (some (.exited (.code code))))
      (node : next.node = .absent) : MachineStep machine next (.unlink pid)
  | reboots (daemons : next.daemons = fun _ => none) (node : next.node = machine.node) :
      MachineStep machine next .reboot

theorem starting_not_bound (phase : Phase) (starting : phase.starting = true) :
    phase.bound = false := by
  cases phase <;> first | rfl | cases starting

theorem machine_step_cases (machine next : Machine) (event : MachineEvent)
    (taken : machine.step event = some next) : MachineStep machine next event := by
  cases event with
  | launch pid =>
    simp only [Machine.step] at taken
    split at taken
    · rename_i fresh
      cases taken
      refine .daemon rfl rfl rfl (Or.inr ?_)
      intro old known
      rw [fresh] at known
      cases known
    · cases taken
  | startUp pid succeeds =>
    obtain ⟨phase, known, rest⟩ := Option.bind_eq_some_iff.mp taken
    obtain ⟨⟨after, node⟩, took, rfl⟩ := Option.map_eq_some_iff.mp rest
    obtain ⟨starting, ⟨rfl, rfl, free⟩ | ⟨quiet, rfl⟩⟩ := start_up_cases pid _ _ _ _ _ took
    · exact .binds succeeds known starting rfl free rfl
    · refine .daemon rfl quiet rfl (Or.inr ?_)
      intro old same
      rw [known] at same
      cases same
      exact starting_not_bound phase starting
  | leave pid code =>
    simp only [Machine.step] at taken
    split at taken
    · rename_i serving
      cases taken
      exact .leaves serving rfl rfl
    · cases taken
  | unlink pid =>
    simp only [Machine.step] at taken
    split at taken
    · rename_i code closing
      cases taken
      exact .unlinks closing rfl rfl
    · cases taken
  | crash pid =>
    simp only [Machine.step] at taken
    split at taken
    · cases taken
    · cases taken
    · cases taken
      exact .daemon rfl rfl rfl (Or.inl rfl)
  | reboot =>
    cases taken
    exact .reboots rfl rfl

theorem updated_phase (daemons : Nat → Option Phase) (pid other : Nat) (phase otherPhase : Phase)
    (known : Function.update daemons pid (some phase) other = some otherPhase) :
    (other = pid ∧ otherPhase = phase) ∨ (other ≠ pid ∧ daemons other = some otherPhase) := by
  by_cases same : other = pid
  · rw [same, Function.update_self] at known
    exact Or.inl ⟨same, (Option.some.inj known).symm⟩
  · rw [Function.update_of_ne same] at known
    exact Or.inr ⟨same, known⟩

/-- A bound daemon owns the path; nothing but a socket is ever put there. -/
structure Orderly (machine : Machine) : Prop where
  owned : ∀ pid phase, machine.daemons pid = some phase → phase.bound = true →
    machine.node = .socket pid
  node : machine.node ≠ .file

theorem orderly_step (machine next : Machine) (event : MachineEvent) (orderly : Orderly machine)
    (taken : machine.step event = some next) : Orderly next := by
  cases machine_step_cases machine next event taken with
  | @daemon event pid phase daemons quiet node was =>
    constructor
    · intro other otherPhase known bound
      rw [daemons] at known
      rcases updated_phase machine.daemons pid other phase otherPhase known with
        ⟨_, rfl⟩ | ⟨_, before⟩
      · rw [quiet] at bound
        cases bound
      · rw [node]
        exact orderly.owned other otherPhase before bound
    · rw [node]
      exact orderly.node
  | @binds pid phase succeeds known starting daemons free node =>
    constructor
    · intro other otherPhase otherKnown bound
      rw [daemons] at otherKnown
      rcases updated_phase machine.daemons pid other .serving otherPhase otherKnown with
        ⟨rfl, _⟩ | ⟨_, before⟩
      · exact node
      · -- nobody owns a free path
        have owned := orderly.owned other otherPhase before bound
        rw [free] at owned
        cases owned
    · rw [node]
      exact nofun
  | @leaves pid code serving daemons node =>
    constructor
    · intro other otherPhase known bound
      rw [daemons] at known
      rw [node]
      rcases updated_phase machine.daemons pid other (.closing code) otherPhase known with
        ⟨rfl, _⟩ | ⟨_, before⟩
      · exact orderly.owned other _ serving rfl
      · exact orderly.owned other otherPhase before bound
    · rw [node]
      exact orderly.node
  | @unlinks pid code closing daemons node =>
    constructor
    · intro other otherPhase known bound
      rw [daemons] at known
      have mine := orderly.owned pid _ closing rfl
      rcases updated_phase machine.daemons pid other (.exited (.code code)) otherPhase known with
        ⟨_, rfl⟩ | ⟨different, before⟩
      · cases bound
      · have theirs := orderly.owned other otherPhase before bound
        rw [mine] at theirs
        cases theirs
        exact absurd rfl different
    · rw [node]
      exact nofun
  | reboots daemons node =>
    constructor
    · intro pid phase known
      rw [daemons] at known
      cases known
    · rw [node]
      exact orderly.node

theorem orderly_run (machine : Machine) (history : List MachineEvent)
    (ran : run Machine.step Machine.initial history = some machine) : Orderly machine := by
  apply run_invariant Machine.step Orderly _ Machine.initial machine history _ ran
  · intro state event next orderly taken
    exact orderly_step state next event orderly taken
  · constructor
    · intro pid phase known
      cases known
    · exact nofun

end Hytch.DaemonLifecycle
