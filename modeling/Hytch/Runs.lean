import Mathlib.Logic.Basic

/-!
Runs of a partial step function. An event that is not possible in a state has
no successor, so a run lists one interleaving that really can happen. The
induction over runs is done once here: an invariant may mention the events so
far, and a run may be restricted to steps that meet a condition on the state
they start from.
-/

namespace Hytch.Runs

universe u v
variable {State : Type u} {Event : Type v}

def run (step : State → Event → Option State) : State → List Event → Option State
  | state, [] => some state
  | state, event :: rest => (step state event).bind fun next => run step next rest

/-- Every step of the run meets the condition in the state it is taken from. -/
def Meets (step : State → Event → Option State) (condition : State → Event → Prop) :
    State → List Event → Prop
  | _, [] => True
  | state, event :: rest =>
      condition state event ∧ ∀ next, step state event = some next → Meets step condition next rest

theorem run_cons (step : State → Event → Option State) (state last : State) (event : Event)
    (rest : List Event) (ran : run step state (event :: rest) = some last) :
    ∃ next, step state event = some next ∧ run step next rest = some last :=
  Option.bind_eq_some_iff.mp ran

theorem run_append (step : State → Event → Option State) (state : State)
    (first second : List Event) :
    run step state (first ++ second) =
      (run step state first).bind fun middle => run step middle second := by
  induction first generalizing state with
  | nil => rfl
  | cons event rest ih =>
    cases taken : step state event with
    | none => simp [run, taken]
    | some next => simpa [run, taken] using ih next

theorem meets_cons (step : State → Event → Option State) (condition : State → Event → Prop)
    (state next : State) (event : Event) (rest : List Event) (taken : step state event = some next)
    (here : condition state event) (later : Meets step condition next rest) :
    Meets step condition state (event :: rest) := by
  refine ⟨here, ?_⟩
  intro other also
  rw [taken] at also
  cases also
  exact later

/-- The invariant rule: kept by every step that meets the condition, it holds
at the end of every run whose steps meet it. -/
theorem run_guarded_invariant (step : State → Event → Option State)
    (condition : State → Event → Prop) (invariant : List Event → State → Prop)
    (preserves : ∀ past state event next, invariant past state → condition state event →
      step state event = some next → invariant (past ++ [event]) next)
    (past events : List Event) (start last : State) (initial : invariant past start)
    (met : Meets step condition start events) (ran : run step start events = some last) :
    invariant (past ++ events) last := by
  induction events generalizing past start with
  | nil =>
    cases ran
    simpa using initial
  | cons event rest ih =>
    obtain ⟨next, taken, later⟩ := run_cons step start last event rest ran
    have kept := preserves past start event next initial met.1 taken
    have whole := ih (past ++ [event]) next kept (met.2 next taken) later
    simpa using whole

theorem meets_of_forall (step : State → Event → Option State) (allowed : Event → Prop)
    (state : State) (events : List Event) (all : ∀ event ∈ events, allowed event) :
    Meets step (fun _ event => allowed event) state events := by
  induction events generalizing state with
  | nil => trivial
  | cons event rest ih =>
    constructor
    · exact all event List.mem_cons_self
    · intro next _
      exact ih next fun later member => all later (List.mem_cons_of_mem event member)

theorem run_history_invariant (step : State → Event → Option State)
    (invariant : List Event → State → Prop)
    (preserves : ∀ past state event next, invariant past state → step state event = some next →
      invariant (past ++ [event]) next)
    (past events : List Event) (start last : State) (initial : invariant past start)
    (ran : run step start events = some last) : invariant (past ++ events) last :=
  run_guarded_invariant step (fun _ _ => True) invariant
    (fun past state event next kept _ taken => preserves past state event next kept taken)
    past events start last initial
    (meets_of_forall step (fun _ => True) start events fun _ _ => trivial) ran

theorem run_invariant (step : State → Event → Option State) (invariant : State → Prop)
    (preserves : ∀ state event next, invariant state → step state event = some next →
      invariant next)
    (start last : State) (events : List Event) (initial : invariant start)
    (ran : run step start events = some last) : invariant last :=
  run_history_invariant step (fun _ state => invariant state)
    (fun _ state event next kept taken => preserves state event next kept taken)
    [] events start last initial ran

/-- The property holds in every state the run passes through. -/
def Throughout (step : State → Event → Option State) (property : State → Prop) (start : State)
    (events : List Event) : Prop :=
  ∀ past state, past <+: events → run step start past = some state → property state

theorem throughout_cons (step : State → Event → Option State) (property : State → Prop)
    (start next : State) (event : Event) (rest : List Event)
    (taken : step start event = some next) :
    Throughout step property start (event :: rest) ↔
      property start ∧ Throughout step property next rest := by
  have onward (past : List Event) : run step start (event :: past) = run step next past := by
    rw [run, taken, Option.bind_some]
  constructor
  · intro throughout
    constructor
    · exact throughout [] start List.nil_prefix rfl
    · intro past state initial ran
      rw [← onward] at ran
      exact throughout (event :: past) state (List.cons_prefix_cons.mpr ⟨rfl, initial⟩) ran
  · rintro ⟨here, later⟩ past state initial ran
    cases past with
    | nil =>
      cases ran
      exact here
    | cons first past =>
      obtain ⟨rfl, shorter⟩ := List.cons_prefix_cons.mp initial
      rw [onward] at ran
      exact later past state shorter ran

theorem throughout_of_meets (step : State → Event → Option State)
    (condition : State → Event → Prop) (invariant : State → Prop)
    (preserves : ∀ state next event, invariant state → condition state event →
      step state event = some next → invariant next)
    (start last : State) (events : List Event) (initial : invariant start)
    (met : Meets step condition start events) (ran : run step start events = some last) :
    Throughout step invariant start events := by
  induction events generalizing start with
  | nil =>
    intro past state empty reached
    rw [List.prefix_nil.mp empty] at reached
    cases reached
    exact initial
  | cons event rest ih =>
    obtain ⟨next, taken, later⟩ := run_cons step start last event rest ran
    have kept := preserves start next event initial met.1 taken
    exact (throughout_cons step invariant start next event rest taken).mpr
      ⟨initial, ih next kept (met.2 next taken) later⟩

/-- The rule for exact conditions: where a step keeps the property if and only if
it meets the condition, so do whole runs. -/
theorem throughout_iff_meets (step : State → Event → Option State)
    (invariant property : State → Prop) (condition : State → Event → Prop)
    (preserves : ∀ state event next, invariant state → step state event = some next →
      invariant next)
    (exact_step : ∀ state event next, invariant state → property state →
      step state event = some next → (property next ↔ condition state event))
    (start last : State) (events : List Event) (initial : invariant start) (here : property start)
    (ran : run step start events = some last) :
    Throughout step property start events ↔ Meets step condition start events := by
  induction events generalizing start with
  | nil =>
    refine iff_of_true ?_ trivial
    intro past state empty reached
    rw [List.prefix_nil.mp empty] at reached
    cases reached
    exact here
  | cons event rest ih =>
    obtain ⟨next, taken, later⟩ := run_cons step start last event rest ran
    have turns := exact_step start event next initial here taken
    rw [throughout_cons step property start next event rest taken]
    by_cases met : condition start event
    · have tail := ih next (preserves start event next initial taken) (turns.mpr met) later
      constructor
      · exact fun throughout => meets_cons step condition start next event rest taken met
          (tail.mp throughout.2)
      · exact fun meets => ⟨here, tail.mpr (meets.2 next taken)⟩
    · refine iff_of_false ?_ (fun meets => met meets.1)
      intro throughout
      exact met (turns.mp (throughout.2 [] next List.nil_prefix rfl))

/-- The same for a property that needs no invariant beside it. -/
theorem throughout_iff_meets_step (step : State → Event → Option State) (property : State → Prop)
    (condition : State → Event → Prop)
    (exact_step : ∀ state event next, property state → step state event = some next →
      (property next ↔ condition state event))
    (start last : State) (events : List Event) (here : property start)
    (ran : run step start events = some last) :
    Throughout step property start events ↔ Meets step condition start events :=
  throughout_iff_meets step (fun _ => True) property condition (fun _ _ _ _ _ => trivial)
    (fun state event next _ kept taken => exact_step state event next kept taken)
    start last events trivial here ran

/-- The refinement rule: where each step is some steps of the abstract machine, so is a run. -/
theorem run_refines {Abstract : Type u} {Action : Type v} (step : State → Event → Option State)
    (abstractStep : Abstract → Action → Option Abstract) (abstract : State → Abstract)
    (refines : ∀ state event next, step state event = some next →
      ∃ actions, run abstractStep (abstract state) actions = some (abstract next))
    (start last : State) (events : List Event) (ran : run step start events = some last) :
    ∃ actions, run abstractStep (abstract start) actions = some (abstract last) := by
  induction events generalizing start with
  | nil =>
    cases ran
    exact ⟨[], rfl⟩
  | cons event rest ih =>
    obtain ⟨next, taken, later⟩ := run_cons step start last event rest ran
    obtain ⟨actions, here⟩ := refines start event next taken
    obtain ⟨more, onward⟩ := ih next later
    refine ⟨actions ++ more, ?_⟩
    rw [run_append, here, Option.bind_some]
    exact onward

section Erasing

variable (step : State → Event → Option State) (erase : State → State) (hidden : Event → Bool)
  (allowed : Event → Prop)
  (visible : ∀ state event, allowed event → hidden event = false →
    step (erase state) event = (step state event).map erase)

include visible in
theorem run_visible (state : State) (events : List Event)
    (seen : ∀ event ∈ events, allowed event ∧ hidden event = false) :
    run step (erase state) events = (run step state events).map erase := by
  induction events generalizing state with
  | nil => rfl
  | cons event rest ih =>
    obtain ⟨here, later⟩ := List.forall_mem_cons.mp seen
    rw [run, run, visible state event here.1 here.2]
    cases step state event with
    | none => rfl
    | some next => exact ih next later

include visible in
/-- The erasure rule: where the hidden steps change nothing but what is erased, and the others
do not depend on that, the hidden steps may be left out of a run. -/
theorem run_erased (quiet : State → Event → Prop)
    (silent : ∀ state event next, hidden event = true → quiet state event →
      step state event = some next → erase next = erase state)
    (start last : State) (events : List Event) (all : ∀ event ∈ events, allowed event)
    (met : Meets step (fun state event => hidden event = true → quiet state event) start events)
    (ran : run step start events = some last) :
    (run step start (events.filter fun event => !hidden event)).map erase = some (erase last) := by
  induction events generalizing start with
  | nil =>
    cases ran
    rfl
  | cons event rest ih =>
    obtain ⟨next, taken, later⟩ := run_cons step start last event rest ran
    have rest_all : ∀ event ∈ rest, allowed event := (List.forall_mem_cons.mp all).2
    have onward := ih next rest_all (met.2 next taken) later
    cases kind : hidden event with
    | false =>
      rw [List.filter_cons_of_pos (by simp [kind]), run, taken]
      exact onward
    | true =>
      rw [List.filter_cons_of_neg (by simp [kind])]
      have seen : ∀ event ∈ rest.filter fun event => !hidden event,
          allowed event ∧ hidden event = false := by
        intro event member
        obtain ⟨inside, shown⟩ := List.mem_filter.mp member
        exact ⟨rest_all event inside, by simpa using shown⟩
      rw [← run_visible step erase hidden allowed visible next _ seen,
        silent start event next kind (met.1 kind) taken,
        run_visible step erase hidden allowed visible start _ seen] at onward
      exact onward

end Erasing

/-- The allowed events alone can lead to such a state. -/
def Reaches (step : State → Event → Option State) (allowed : Event → Prop) (state : State)
    (target : State → Prop) : Prop :=
  ∃ more after, (∀ event ∈ more, allowed event) ∧ run step state more = some after ∧ target after

section Reaching

variable (step : State → Event → Option State) (allowed : Event → Prop) (state : State)
  (target : State → Prop)

theorem reaches_here (here : target state) : Reaches step allowed state target :=
  ⟨[], state, fun _ member => absurd member List.not_mem_nil, rfl, here⟩

theorem reaches_step (next : State) (event : Event) (may : allowed event)
    (taken : step state event = some next) (reaches : Reaches step allowed next target) :
    Reaches step allowed state target := by
  obtain ⟨more, after, all, ran, reached⟩ := reaches
  refine ⟨event :: more, after, List.forall_mem_cons.mpr ⟨may, all⟩, ?_, reached⟩
  rw [run, taken, Option.bind_some]
  exact ran

theorem reaches_trans (first : State → Prop) (reaches : Reaches step allowed state first)
    (onward : ∀ next, first next → Reaches step allowed next target) :
    Reaches step allowed state target := by
  obtain ⟨more, next, all, ran, reached⟩ := reaches
  obtain ⟨later, after, also, went, arrived⟩ := onward next reached
  refine ⟨more ++ later, after, List.forall_mem_append.mpr ⟨all, also⟩, ?_, arrived⟩
  rw [run_append, ran, Option.bind_some]
  exact went

end Reaching

end Hytch.Runs
