import Hytch.DaemonLifecycle

/-!
`rm` of `commands.rs` beside the daemons of the name. Its probe, its two looks and its two
removals are system calls of their own, and nothing keeps a daemon from binding between them.
-/

namespace Hytch.RemoveCommand

open DaemonLifecycle Runs

inductive RemoveOutcome where
  | running
  | removed
  | noSession
  deriving DecidableEq

def RemoveOutcome.code : RemoveOutcome → Nat
  | .running => 1
  | .removed => 0
  | .noSession => 1

inductive RemovePhase where
  | probing
  | lookingForSocket
  | lookingForLog (hadSocket : Bool)
  | removingSocket (hadSocket hadLog : Bool)
  | removingLog (hadSocket hadLog : Bool)
  | returned (outcome : RemoveOutcome)
  deriving DecidableEq

/-- The last two fields record what the probe was made on, and whose listener the removal
took away. -/
structure Remove where
  machine : Machine
  /-- The log is there. -/
  log : Bool
  phase : RemovePhase
  probed : Option Machine
  cut : Option Nat

inductive RemoveEvent where
  | world (event : MachineEvent)
  /-- A daemon has opened its log. -/
  | logged
  /-- A probe of a listening daemon may fail all the same. -/
  | probes (accepted : Bool)
  | looks
  | removes (succeeds : Bool)

namespace Remove

def start (machine : Machine) (log : Bool) : Remove :=
  { machine := machine, log := log, phase := .probing, probed := none, cut := none }

def onProbes (rm : Remove) (accepted : Bool) : Option Remove :=
  let after : Remove := { rm with probed := some rm.machine }
  match rm.phase with
  | .probing =>
      if accepted then
        if rm.machine.listener.isSome then some { after with phase := .returned .running } else none
      else some { after with phase := .lookingForSocket }
  | _ => none

def onLooks (rm : Remove) : Option Remove :=
  match rm.phase with
  | .lookingForSocket =>
      some { rm with phase := .lookingForLog (rm.machine.node != .absent) }
  | .lookingForLog hadSocket => some { rm with phase := .removingSocket hadSocket rm.log }
  | _ => none

/-- The results of both `remove_file` calls are dropped. -/
def onRemoves (rm : Remove) (succeeds : Bool) : Option Remove :=
  match rm.phase with
  | .removingSocket hadSocket hadLog =>
      let after : Remove := { rm with phase := .removingLog hadSocket hadLog }
      if succeeds then
        some { after with
               machine := { rm.machine with node := .absent }
               cut := rm.machine.listener }
      else some after
  | .removingLog hadSocket hadLog =>
      let outcome := if !hadSocket && !hadLog then .noSession else .removed
      some { rm with log := if succeeds then false else rm.log, phase := .returned outcome }
  | _ => none

def step (rm : Remove) : RemoveEvent → Option Remove
  | .world event => (rm.machine.step event).map fun machine => { rm with machine := machine }
  | .logged => some { rm with log := true }
  | .probes accepted => rm.onProbes accepted
  | .looks => rm.onLooks
  | .removes succeeds => rm.onRemoves succeeds

end Remove

inductive RemoveStep (rm : Remove) : RemoveEvent → Remove → Prop where
  | world {event : MachineEvent} {machine : Machine} (moved : rm.machine.step event = some machine) :
      RemoveStep rm (.world event) { rm with machine := machine }
  | logged : RemoveStep rm .logged { rm with log := true }
  | refuses (probing : rm.phase = .probing) (listens : rm.machine.listener.isSome = true) :
      RemoveStep rm (.probes true)
        { rm with probed := some rm.machine, phase := .returned .running }
  | probes (probing : rm.phase = .probing) :
      RemoveStep rm (.probes false)
        { rm with probed := some rm.machine, phase := .lookingForSocket }
  | looksForSocket (looking : rm.phase = .lookingForSocket) :
      RemoveStep rm .looks { rm with phase := .lookingForLog (rm.machine.node != .absent) }
  | looksForLog {hadSocket : Bool} (looking : rm.phase = .lookingForLog hadSocket) :
      RemoveStep rm .looks { rm with phase := .removingSocket hadSocket rm.log }
  | removesSocket {hadSocket hadLog : Bool} (removing : rm.phase = .removingSocket hadSocket hadLog) :
      RemoveStep rm (.removes true)
        { rm with
          machine := { rm.machine with node := .absent }
          phase := .removingLog hadSocket hadLog
          cut := rm.machine.listener }
  | keepsSocket {hadSocket hadLog : Bool} (removing : rm.phase = .removingSocket hadSocket hadLog) :
      RemoveStep rm (.removes false) { rm with phase := .removingLog hadSocket hadLog }
  | removesLog {hadSocket hadLog succeeds log : Bool} {outcome : RemoveOutcome}
      (removing : rm.phase = .removingLog hadSocket hadLog) :
      RemoveStep rm (.removes succeeds) { rm with log := log, phase := .returned outcome }

theorem remove_step_cases (rm next : Remove) (event : RemoveEvent)
    (taken : rm.step event = some next) : RemoveStep rm event next := by
  cases event with
  | world event =>
    obtain ⟨machine, moved, rfl⟩ := Option.map_eq_some_iff.mp taken
    exact .world moved
  | logged =>
    cases taken
    exact .logged
  | probes accepted =>
    simp only [Remove.step, Remove.onProbes] at taken
    split at taken
    · rename_i probing
      cases accepted with
      | true =>
        obtain ⟨listens, taken⟩ := Option.ite_none_right_eq_some.mp taken
        cases taken
        exact .refuses probing listens
      | false =>
        cases taken
        exact .probes probing
    · cases taken
  | looks =>
    simp only [Remove.step, Remove.onLooks] at taken
    split at taken
    · rename_i looking
      cases taken
      exact .looksForSocket looking
    · rename_i looking
      cases taken
      exact .looksForLog looking
    · cases taken
  | removes succeeds =>
    simp only [Remove.step, Remove.onRemoves] at taken
    split at taken
    · rename_i removing
      cases succeeds with
      | true =>
        cases taken
        exact .removesSocket removing
      | false =>
        cases taken
        exact .keepsSocket removing
    · rename_i removing
      cases taken
      exact .removesLog removing
    · cases taken

/-- No daemon holds the path, and something is there. -/
def Stale (machine : Machine) : Prop :=
  machine.node ≠ .absent ∧ ∀ pid phase, machine.daemons pid = some phase → phase.bound = false

/-- The connect said that nobody listens, and it was so. -/
def FoundStale (rm : Remove) : Prop :=
  ∃ machine, rm.probed = some machine ∧ machine.listener = none ∧ machine.node ≠ .absent

theorem stale_of_refused (machine : Machine) (orderly : Orderly machine)
    (refused : machine.listener = none) (there : machine.node ≠ .absent) : Stale machine := by
  refine ⟨there, fun pid phase known => ?_⟩
  cases bound : phase.bound with
  | false => rfl
  | true =>
    have owned := orderly.owned pid phase known bound
    simp [Machine.listener, owned, known, bound] at refused

/-- A stale path stays stale: nothing can be bound over it, and nobody is left to unlink it. -/
theorem stale_step (machine next : Machine) (event : MachineEvent) (stale : Stale machine)
    (taken : machine.step event = some next) : Stale next := by
  obtain ⟨there, unbound⟩ := stale
  cases machine_step_cases machine next event taken with
  | @daemon event pid phase daemons quiet node was =>
    refine ⟨by rw [node]; exact there, fun other otherPhase known => ?_⟩
    rw [daemons] at known
    rcases updated_phase machine.daemons pid other phase otherPhase known with
      ⟨_, rfl⟩ | ⟨_, before⟩
    · exact quiet
    · exact unbound other otherPhase before
  | binds succeeds known starting daemons free => exact absurd free there
  | leaves serving => cases unbound _ _ serving
  | unlinks closing => cases unbound _ _ closing
  | reboots daemons node =>
    refine ⟨by rw [node]; exact there, fun pid phase known => ?_⟩
    rw [daemons] at known
    cases known

theorem stale_listener (machine : Machine) (stale : Stale machine) : machine.listener = none := by
  unfold Machine.listener
  split
  · split
    · rename_i known
      rw [if_neg (by simp [stale.2 _ _ known])]
    · rfl
  · rfl

/-- The socket path has been removed, or will not be. -/
def RemovePhase.isOver : RemovePhase → Bool
  | .removingLog _ _ => true
  | .returned _ => true
  | _ => false

/-- Where `rm` stands. Its own removal may leave a daemon without its path. -/
inductive Sparing (rm : Remove) : Prop where
  | probing (phase : rm.phase = .probing) (orderly : Orderly rm.machine) (nothing : rm.cut = none) :
      Sparing rm
  | looking (phase : rm.phase ≠ .probing) (nothing : rm.cut = none)
      (stale : FoundStale rm → Stale rm.machine) : Sparing rm
  | removed (phase : rm.phase.isOver = true) (spared : FoundStale rm → rm.cut = none) : Sparing rm

theorem sparing_step (rm next : Remove) (event : RemoveEvent) (sparing : Sparing rm)
    (taken : rm.step event = some next) : Sparing next := by
  cases remove_step_cases rm next event taken with
  | world moved =>
    cases sparing with
    | probing phase orderly nothing =>
      exact .probing phase (orderly_step rm.machine _ _ orderly moved) nothing
    | looking phase nothing stale =>
      exact .looking phase nothing fun found => stale_step rm.machine _ _ (stale found) moved
    | removed phase spared => exact .removed phase spared
  | logged =>
    cases sparing with
    | probing phase orderly nothing => exact .probing phase orderly nothing
    | looking phase nothing stale => exact .looking phase nothing stale
    | removed phase spared => exact .removed phase spared
  | refuses probing listens =>
    cases sparing with
    | probing phase orderly nothing => exact .removed rfl fun _ => nothing
    | looking phase => exact absurd probing phase
    | removed phase => rw [probing] at phase; cases phase
  | probes probing =>
    cases sparing with
    | probing phase orderly nothing =>
      refine .looking nofun nothing ?_
      rintro ⟨machine, ⟨⟩, refused, there⟩
      exact stale_of_refused rm.machine orderly refused there
    | looking phase => exact absurd probing phase
    | removed phase => rw [probing] at phase; cases phase
  | looksForSocket looking =>
    cases sparing with
    | probing phase => rw [phase] at looking; cases looking
    | looking phase nothing stale => exact .looking nofun nothing stale
    | removed phase => rw [looking] at phase; cases phase
  | looksForLog looking =>
    cases sparing with
    | probing phase => rw [phase] at looking; cases looking
    | looking phase nothing stale => exact .looking nofun nothing stale
    | removed phase => rw [looking] at phase; cases phase
  | removesSocket removing =>
    cases sparing with
    | probing phase => rw [phase] at removing; cases removing
    | looking phase nothing stale =>
      exact .removed rfl fun found => stale_listener rm.machine (stale found)
    | removed phase => rw [removing] at phase; cases phase
  | keepsSocket removing =>
    cases sparing with
    | probing phase => rw [phase] at removing; cases removing
    | looking phase nothing stale => exact .removed rfl fun _ => nothing
    | removed phase => rw [removing] at phase; cases phase
  | removesLog removing =>
    cases sparing with
    | probing phase => rw [phase] at removing; cases removing
    | looking phase nothing stale => exact .removed rfl fun _ => nothing
    | removed phase spared => exact .removed rfl spared

/-- If the probe met something at the path that nobody listens on, no daemon loses its socket
to `rm`, whatever daemons start in the meantime. -/
theorem rm_spares_daemons (history : List MachineEvent) (machine : Machine) (log : Bool)
    (last : Remove) (events : List RemoveEvent)
    (reached : run Machine.step Machine.initial history = some machine)
    (ran : run Remove.step (Remove.start machine log) events = some last)
    (found : FoundStale last) : last.cut = none := by
  have sparing := run_invariant Remove.step Sparing
    (fun rm event next sparing taken => sparing_step rm next event sparing taken)
    _ last events (.probing rfl (orderly_run machine history reached) rfl) ran
  cases sparing with
  | probing phase orderly nothing => exact nothing
  | looking phase nothing stale => exact nothing
  | removed phase spared => exact spared found

/-- A daemon has crashed, and another cannot bind. -/
def crashed : List MachineEvent :=
  [.launch 7, .startUp 7 true, .startUp 7 true, .startUp 7 true, .startUp 7 true, .crash 7]

def removesBesideStart : List RemoveEvent :=
  [.probes false, .world (.launch 8), .looks, .world (.startUp 8 true), .world (.startUp 8 true),
    .world (.startUp 8 true), .looks, .world (.startUp 8 true), .removes true,
    .removes true]

theorem rm_spares_daemons_starting : ∃ machine last,
    run Machine.step Machine.initial crashed = some machine ∧
      run Remove.step (Remove.start machine true) removesBesideStart = some last ∧
      last.phase = .returned .removed ∧ last.cut = none := by
  refine ⟨_, _, rfl, rfl, rfl, ?_⟩
  exact rm_spares_daemons crashed _ true _ removesBesideStart rfl rfl ⟨_, rfl, rfl, nofun⟩

/-- Over a free path the same start binds, and loses its socket. -/
example : (run Remove.step (Remove.start Machine.initial true) removesBesideStart).map Remove.cut =
    some (some 8) := rfl

end Hytch.RemoveCommand
