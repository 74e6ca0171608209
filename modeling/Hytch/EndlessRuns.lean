import Mathlib.Tactic.ByContra
import Hytch.Runs

/-!
Runs that never end, for what happens sooner or later. A run that comes to rest
goes on with a step that changes nothing. Fairness is a property of a run, not of
the step function: whoever can move again and again does. The variant rule is the
one induction behind every such result.
-/

namespace Hytch.EndlessRuns

open Runs

universe u v
variable {State : Type u} {Event : Type v} {step : State → Event → Option State}

structure Endless (step : State → Event → Option State) where
  state : Nat → State
  event : Nat → Event
  follows : ∀ time, step (state time) (event time) = some (state (time + 1))

/-- At arbitrarily late times. -/
def Recurs (property : Nat → Prop) : Prop := ∀ time, ∃ later, time ≤ later ∧ property later

/-- Steps of this kind are taken again and again if they are possible again and again. -/
def Fair (endless : Endless step) (kind : Event → Prop) : Prop :=
  (Recurs fun time => ∃ event next, kind event ∧ step (endless.state time) event = some next) →
    Recurs fun time => kind (endless.event time)

theorem recurs_from (property : Nat → Prop) (start : Nat)
    (recurs : ∀ time, start ≤ time → ∃ later, time ≤ later ∧ property later) : Recurs property := by
  intro time
  obtain ⟨later, after, holds⟩ := recurs (max start time) (Nat.le_max_left _ _)
  exact ⟨later, Nat.le_trans (Nat.le_max_right _ _) after, holds⟩

/-- The variant rule: a bounded measure that never falls and rises again and again
cannot go on short of the goal. -/
theorem reaches_goal (goal : Nat → Prop) (measure : Nat → Nat) (bound start : Nat)
    (bounded : ∀ time, start ≤ time → ¬ goal time → measure time ≤ bound)
    (climbs : ∀ time, start ≤ time → ¬ goal time → ¬ goal (time + 1) →
      measure time ≤ measure (time + 1))
    (again : (∀ time, start ≤ time → ¬ goal time) →
      Recurs fun time => measure time < measure (time + 1)) :
    ∃ time, start ≤ time ∧ goal time := by
  by_contra unreached
  have never (time : Nat) (late : start ≤ time) : ¬ goal time :=
    fun reached => unreached ⟨time, late, reached⟩
  have monotone (early late : Nat) (begun : start ≤ early) (order : early ≤ late) :
      measure early ≤ measure late := by
    induction order with
    | refl => exact Nat.le_refl _
    | @step late order ih =>
      have after : start ≤ late := Nat.le_trans begun order
      exact Nat.le_trans ih (climbs late after (never late after) (never (late + 1) (by omega)))
  have heights (height : Nat) : ∃ time, start ≤ time ∧ height ≤ measure time := by
    induction height with
    | zero => exact ⟨start, Nat.le_refl _, Nat.zero_le _⟩
    | succ height ih =>
      obtain ⟨time, late, high⟩ := ih
      obtain ⟨later, after, rises⟩ := again never time
      have flat := monotone time later late after
      exact ⟨later + 1, by omega, by omega⟩
  obtain ⟨time, late, high⟩ := heights (bound + 1)
  have low := bounded time late (never time late)
  omega

namespace Endless

theorem kept (endless : Endless step) (property : State → Prop)
    (preserves : ∀ state event next, property state → step state event = some next → property next)
    (early late : Nat) (order : early ≤ late) (here : property (endless.state early)) :
    property (endless.state late) := by
  induction order with
  | refl => exact here
  | step order ih => exact preserves _ _ _ ih (endless.follows _)

def cons (start : State) (event : Event) (tail : Endless step)
    (taken : step start event = some (tail.state 0)) : Endless step where
  state
    | 0 => start
    | time + 1 => tail.state time
  event
    | 0 => event
    | time + 1 => tail.event time
  follows
    | 0 => taken
    | time + 1 => tail.follows time

/-- A step that changes nothing, for ever. -/
def still (state : State) (event : Event) (idle : step state event = some state) : Endless step where
  state _ := state
  event _ := event
  follows _ := idle

theorem exists_driven (schedule : Nat → Event) (invariant : Nat → State → Prop) (start : State)
    (initial : invariant 0 start)
    (moves : ∀ time state, invariant time state →
      ∃ next, step state (schedule time) = some next ∧ invariant (time + 1) next) :
    ∃ endless : Endless step, endless.state 0 = start ∧
      ∀ time, invariant time (endless.state time) := by
  let next (time : Nat) (here : { state // invariant time state }) :
      { state // invariant (time + 1) state } :=
    ⟨(moves time here.1 here.2).choose, (moves time here.1 here.2).choose_spec.2⟩
  let states (time : Nat) : { state // invariant time state } :=
    Nat.rec ⟨start, initial⟩ next time
  exact ⟨{ state := fun time => (states time).1
           event := schedule
           follows := fun time => (moves time (states time).1 (states time).2).choose_spec.1 },
    rfl, fun time => (states time).2⟩

theorem exists_after (events : List Event) (start middle : State) (rest : Endless step)
    (begins : rest.state 0 = middle) (ran : run step start events = some middle) :
    ∃ whole : Endless step,
      (∀ time, time ≤ events.length → run step start (events.take time) = some (whole.state time)) ∧
      ∀ time, whole.state (events.length + time) = rest.state time ∧
        whole.event (events.length + time) = rest.event time := by
  induction events generalizing start with
  | nil =>
    cases ran
    refine ⟨rest, ?_, ?_⟩
    · intro time early
      rw [Nat.le_zero.mp early, begins]
      rfl
    · intro time
      rw [List.length_nil, Nat.zero_add]
      exact ⟨rfl, rfl⟩
  | cons event events ih =>
    obtain ⟨next, taken, later⟩ := run_cons step start middle event events ran
    obtain ⟨tail, first, follows⟩ := ih next later
    have begins_next : tail.state 0 = next := (Option.some.inj (first 0 (Nat.zero_le _))).symm
    refine ⟨cons start event tail (by rw [begins_next, taken]), ?_, ?_⟩
    · intro time early
      cases time with
      | zero => rfl
      | succ time =>
        have joined : run step start ((event :: events).take (time + 1)) = some (tail.state time) := by
          rw [List.take_succ_cons, run, taken, Option.bind_some]
          exact first time (Nat.le_of_succ_le_succ early)
        exact joined
    · intro time
      have shift : (event :: events).length + time = (events.length + time) + 1 := by
        rw [List.length_cons]
        omega
      rw [shift]
      exact follows time

end Endless
end Hytch.EndlessRuns
