import Mathlib.Data.List.ReduceOption
import Hytch.Runs

/-!
A non-blocking descriptor behind an edge-triggered reactor. The kernel reports once that a
call has become possible, and the reactor remembers it until a call is refused. A poll asks the
reactor, tries the call, and asks again when it was refused. To whoever polls it the descriptor
is level-triggered: only that what happens to it may show later, at a turn of the reactor.
-/

namespace Hytch.EdgeTriggered

open Runs

universe u
variable {Res Choice Change Outcome : Type u}

/-- What is behind the descriptor, for one kind of call on it. -/
structure Device (Res Choice Change Outcome : Type u) where
  wouldBlock : Res → Bool
  /-- A call that does not block; how much it does is for the kernel to choose. -/
  perform : Res → Choice → Option (Res × Outcome)
  change : Res → Change → Option Res
  reports : Change → Bool
  reported : ∀ res cause next, change res cause = some next → wouldBlock res = true →
    wouldBlock next = false → reports cause = true
  answers : ∀ res, wouldBlock res = false → ∃ choice done, perform res choice = some done

inductive Phase where
  /-- Not waited for, or just answered. -/
  | resting
  /-- The last poll was answered `Pending`. -/
  | parked
  | woken
  | asking
  /-- Holding the guard that the reactor gives out when it believes the call possible. -/
  | trying
  | refused
  deriving DecidableEq

def Phase.inPoll : Phase → Bool
  | .asking => true
  | .trying => true
  | .refused => true
  | _ => false

def Phase.awoken : Phase → Phase
  | .parked => .woken
  | phase => phase

theorem awoken_outside (phase : Phase) (outside : phase.inPoll = false) :
    phase.awoken.inPoll = false := by
  cases phase with
  | parked => rfl
  | _ => exact outside

theorem outside_not_refused (phase : Phase) (outside : phase.inPoll = false) :
    phase ≠ .refused := by
  rintro rfl
  cases outside

/-- No step reads the last three: `seen` is what the polls so far may know of the resource,
`late` what has happened since, and an answer is an outcome or `Pending`. -/
structure Watch (Res Change Outcome : Type u) where
  res : Res
  /-- Reported by the kernel and not yet fetched by the reactor. -/
  edge : Bool
  ready : Bool
  phase : Phase
  seen : Res
  late : List Change
  answers : List (Option Outcome)

/-- Whatever is done to the resource shows at once. -/
def Watch.Visible (watch : Watch Res Change Outcome) : Prop :=
  watch.ready = true ∧ watch.phase ≠ .refused

instance (watch : Watch Res Change Outcome) : Decidable watch.Visible :=
  inferInstanceAs (Decidable (_ ∧ _))

inductive WatchEvent (Choice Change : Type u) where
  | changes (cause : Change)
  /-- The reactor fetches what the kernel has reported. -/
  | turns
  | polled
  | asks
  | tries (choice : Choice)
  | clears

/-- Registering the descriptor reports what is possible already. To the polls that comes late,
as if the resource had been `seen` without it. -/
def Device.watched (device : Device Res Choice Change Outcome) (seen res : Res)
    (late : List Change) : Watch Res Change Outcome :=
  { res := res, edge := !device.wouldBlock res, ready := false, phase := .resting, seen := seen
    late := late, answers := [] }

/-- The reactor and the polls belong to one thread; the changes do not. -/
def Device.step (device : Device Res Choice Change Outcome) (watch : Watch Res Change Outcome) :
    WatchEvent Choice Change → Option (Watch Res Change Outcome)
  | .changes cause =>
      (device.change watch.res cause).map fun res =>
        let edge := watch.edge || device.reports cause
        if watch.Visible then { watch with res := res, edge := edge, seen := res }
        else { watch with res := res, edge := edge, late := watch.late ++ [cause] }
  | .turns =>
      if watch.edge = true ∧ watch.phase.inPoll = false then
        some { watch with
               edge := false, ready := true, phase := watch.phase.awoken
               seen := watch.res, late := [] }
      else none
  | .polled => if watch.phase.inPoll = false then some { watch with phase := .asking } else none
  | .asks =>
      match watch.phase with
      | .asking =>
          if watch.ready then some { watch with phase := .trying }
          else some { watch with phase := .parked, answers := watch.answers ++ [none] }
      | _ => none
  | .tries choice =>
      match watch.phase with
      | .trying =>
          if device.wouldBlock watch.res then some { watch with phase := .refused }
          else (device.perform watch.res choice).map fun done =>
            { watch with
              phase := .resting, res := done.1, seen := done.1
              answers := watch.answers ++ [some done.2] }
      | _ => none
  | .clears =>
      match watch.phase with
      | .refused => some { watch with phase := .asking, ready := false }
      | _ => none

inductive WatchStep (device : Device Res Choice Change Outcome) (watch : Watch Res Change Outcome) :
    WatchEvent Choice Change → Watch Res Change Outcome → Prop where
  | shows {cause : Change} {res : Res} (moved : device.change watch.res cause = some res)
      (visible : watch.Visible) :
      WatchStep device watch (.changes cause)
        { watch with res := res, edge := watch.edge || device.reports cause, seen := res }
  | hides {cause : Change} {res : Res} (moved : device.change watch.res cause = some res)
      (hidden : ¬ watch.Visible) :
      WatchStep device watch (.changes cause)
        { watch with
          res := res, edge := watch.edge || device.reports cause, late := watch.late ++ [cause] }
  | turns (edge : watch.edge = true) (outside : watch.phase.inPoll = false) :
      WatchStep device watch .turns
        { watch with
          edge := false, ready := true, phase := watch.phase.awoken, seen := watch.res, late := [] }
  | polled (outside : watch.phase.inPoll = false) :
      WatchStep device watch .polled { watch with phase := .asking }
  | finds (asking : watch.phase = .asking) (ready : watch.ready = true) :
      WatchStep device watch .asks { watch with phase := .trying }
  | parks (asking : watch.phase = .asking) (unready : watch.ready = false) :
      WatchStep device watch .asks
        { watch with phase := .parked, answers := watch.answers ++ [none] }
  | refused {choice : Choice} (trying : watch.phase = .trying)
      (blocks : device.wouldBlock watch.res = true) :
      WatchStep device watch (.tries choice) { watch with phase := .refused }
  | performs {choice : Choice} {res : Res} {outcome : Outcome} (trying : watch.phase = .trying)
      (free : device.wouldBlock watch.res = false)
      (done : device.perform watch.res choice = some (res, outcome)) :
      WatchStep device watch (.tries choice)
        { watch with
          phase := .resting, res := res, seen := res, answers := watch.answers ++ [some outcome] }
  | clears (refused : watch.phase = .refused) :
      WatchStep device watch .clears { watch with phase := .asking, ready := false }

/-- What has not shown yet is on its way: the polls see the resource as it was when a call was
last refused, or as it is. -/
structure Behind (device : Device Res Choice Change Outcome) (watch : Watch Res Change Outcome) :
    Prop where
  late : run device.change watch.seen watch.late = some watch.res
  shown : watch.Visible → watch.late = []
  blocked : ¬ watch.Visible → device.wouldBlock watch.seen = true
  edge : ¬ watch.Visible → device.wouldBlock watch.res = false → watch.edge = true
  guarded : watch.phase = .trying ∨ watch.phase = .refused → watch.ready = true
  parked : watch.phase = .parked → watch.ready = false

/-- The same descriptor watched level-triggered, with the answers to its polls. -/
structure Level (Res Outcome : Type u) where
  res : Res
  answers : List (Option Outcome)

inductive LevelEvent (Choice Change : Type u) where
  | changes (cause : Change)
  | pends
  | performs (choice : Choice)

def Device.levelStep (device : Device Res Choice Change Outcome) (level : Level Res Outcome) :
    LevelEvent Choice Change → Option (Level Res Outcome)
  | .changes cause => (device.change level.res cause).map fun res => { level with res := res }
  | .pends =>
      if device.wouldBlock level.res then some { level with answers := level.answers ++ [none] }
      else none
  | .performs choice =>
      if device.wouldBlock level.res then none
      else (device.perform level.res choice).map fun done =>
        { res := done.1, answers := level.answers ++ [some done.2] }

def Watch.level (watch : Watch Res Change Outcome) : Level Res Outcome :=
  { res := watch.seen, answers := watch.answers }

def causes (events : List (WatchEvent Choice Change)) : List Change :=
  events.filterMap fun
    | .changes cause => some cause
    | _ => none

def levelCauses (events : List (LevelEvent Choice Change)) : List Change :=
  events.filterMap fun
    | .changes cause => some cause
    | _ => none

section Steps

variable (device : Device Res Choice Change Outcome) (watch next : Watch Res Change Outcome)
variable (event : WatchEvent Choice Change)

theorem watch_step_cases (taken : device.step watch event = some next) :
    WatchStep device watch event next := by
  cases event with
  | changes cause =>
    obtain ⟨res, moved, rfl⟩ := Option.map_eq_some_iff.mp taken
    by_cases visible : watch.Visible
    · simp only [if_pos visible]
      exact .shows moved visible
    · simp only [if_neg visible]
      exact .hides moved visible
  | turns =>
    obtain ⟨⟨edge, outside⟩, taken⟩ := Option.ite_none_right_eq_some.mp taken
    cases taken
    exact .turns edge outside
  | polled =>
    obtain ⟨outside, taken⟩ := Option.ite_none_right_eq_some.mp taken
    cases taken
    exact .polled outside
  | asks =>
    simp only [Device.step] at taken
    split at taken
    · rename_i asking
      split at taken
      · rename_i ready
        cases taken
        exact .finds asking ready
      · rename_i unready
        cases taken
        exact .parks asking (Bool.eq_false_iff.mpr unready)
    · cases taken
  | tries choice =>
    simp only [Device.step] at taken
    split at taken
    · rename_i trying
      split at taken
      · rename_i blocks
        cases taken
        exact .refused trying blocks
      · rename_i free
        obtain ⟨⟨res, outcome⟩, done, rfl⟩ := Option.map_eq_some_iff.mp taken
        exact .performs trying (Bool.eq_false_iff.mpr free) done
    · cases taken
  | clears =>
    simp only [Device.step] at taken
    split at taken
    · rename_i refused
      cases taken
      exact .clears refused
    · cases taken

theorem seen_of_visible (behind : Behind device watch) (visible : watch.Visible) :
    watch.seen = watch.res := by
  have nothing := behind.late
  rw [behind.shown visible] at nothing
  exact Option.some.inj nothing

theorem behind_start (seen res : Res) (late : List Change) (blocks : device.wouldBlock seen = true)
    (leads : run device.change seen late = some res) : Behind device (device.watched seen res late) where
  late := leads
  shown visible := by cases visible.1
  blocked _ := blocks
  edge _ free := by
    rw [Device.watched, Bool.not_eq_true']
    exact free
  guarded phase := by rcases phase with same | same <;> cases same
  parked phase := by cases phase

theorem behind_step (behind : Behind device watch) (taken : device.step watch event = some next) :
    Behind device next := by
  cases watch_step_cases device watch next event taken with
  | @shows cause res moved visible =>
    exact ⟨by rw [behind.shown visible]; rfl, fun _ => behind.shown visible,
      fun hidden => absurd visible hidden, fun hidden => absurd visible hidden, behind.guarded,
      behind.parked⟩
  | @hides cause res moved hidden =>
    refine ⟨?_, fun visible => absurd visible hidden, fun _ => behind.blocked hidden, ?_,
      behind.guarded, behind.parked⟩
    · rw [run_append, behind.late, Option.bind_some, run, moved]
      rfl
    · intro _ free
      -- either it was on its way already, or this change is reported
      cases before : device.wouldBlock watch.res with
      | false => simp [behind.edge hidden before]
      | true => simp [device.reported watch.res cause res moved before free]
  | turns edge outside =>
    have visible := outside_not_refused _ (awoken_outside watch.phase outside)
    refine ⟨rfl, fun _ => rfl, fun hidden => ?_, fun hidden => ?_, fun _ => rfl, ?_⟩
    · exact absurd ⟨rfl, visible⟩ hidden
    · exact absurd ⟨rfl, visible⟩ hidden
    · intro parked
      cases phase : watch.phase <;> simp [phase, Phase.awoken] at parked
  | polled outside =>
    have same : ({ watch with phase := .asking } : Watch Res Change Outcome).Visible ↔ watch.Visible := by
      have goes : watch.phase ≠ .refused := by
        intro refused
        rw [refused] at outside
        cases outside
      simp [Watch.Visible, goes]
    exact ⟨behind.late, fun visible => behind.shown (same.mp visible),
      fun hidden => behind.blocked (fun visible => hidden (same.mpr visible)),
      fun hidden => behind.edge (fun visible => hidden (same.mpr visible)), by simp, by simp⟩
  | finds asking ready =>
    have visible : watch.Visible := ⟨ready, by simp [asking]⟩
    exact ⟨behind.late, fun _ => behind.shown visible, fun hidden => absurd ⟨ready, by simp⟩ hidden,
      fun hidden => absurd ⟨ready, by simp⟩ hidden, fun _ => ready, by simp⟩
  | parks asking unready =>
    have hidden : ¬ watch.Visible := by simp [Watch.Visible, unready]
    exact ⟨behind.late, fun visible => absurd visible.1 (by simp [unready]),
      fun _ => behind.blocked hidden, fun _ => behind.edge hidden, by simp, fun _ => unready⟩
  | refused trying blocks =>
    have ready := behind.guarded (.inl trying)
    have visible : watch.Visible := ⟨ready, by simp [trying]⟩
    refine ⟨behind.late, fun _ => behind.shown visible, fun _ => ?_, fun _ free => ?_, fun _ => ready,
      by simp⟩
    · rw [seen_of_visible device watch behind visible]
      exact blocks
    · rw [blocks] at free
      cases free
  | @performs choice res outcome trying free done =>
    have ready := behind.guarded (.inl trying)
    have visible : watch.Visible := ⟨ready, by simp [trying]⟩
    have nothing := behind.shown visible
    exact ⟨by rw [nothing]; rfl, fun _ => nothing, fun hidden => absurd ⟨ready, by simp⟩ hidden,
      fun hidden => absurd ⟨ready, by simp⟩ hidden, by simp, by simp⟩
  | clears refused =>
    have hidden : ¬ watch.Visible := by simp [Watch.Visible, refused]
    exact ⟨behind.late, fun visible => absurd visible.1 (by simp), fun _ => behind.blocked hidden,
      fun _ => behind.edge hidden, by simp, by simp⟩

/-- A change made before a poll sees it is a change of the level-triggered descriptor. -/
theorem late_changes (level : Level Res Outcome) (late : List Change) (res : Res)
    (ran : run device.change level.res late = some res) :
    run device.levelStep level (late.map LevelEvent.changes) = some { level with res := res } := by
  induction late generalizing level with
  | nil =>
    cases ran
    rfl
  | cons cause rest ih =>
    obtain ⟨middle, taken, later⟩ := run_cons device.change level.res res cause rest ran
    rw [List.map_cons, run, Device.levelStep, taken, Option.map_some, Option.bind_some]
    exact ih { level with res := middle } later

theorem levelCauses_changes (late : List Change) :
    levelCauses (late.map (LevelEvent.changes : Change → LevelEvent Choice Change)) = late := by
  induction late with
  | nil => rfl
  | cons cause rest ih => exact congrArg (cause :: ·) ih

/-- What a step is for the level-triggered descriptor. -/
theorem level_step (behind : Behind device watch) (taken : device.step watch event = some next) :
    ∃ actions, run device.levelStep watch.level actions = some next.level ∧
      levelCauses actions ++ next.late = watch.late ++ causes [event] := by
  cases watch_step_cases device watch next event taken with
  | @shows cause res moved visible =>
    refine ⟨[.changes cause], ?_, ?_⟩
    · have seen := seen_of_visible device watch behind visible
      simp [run, Device.levelStep, Watch.level, seen, moved]
    · simp [levelCauses, causes, behind.shown visible]
  | @hides cause res moved hidden => exact ⟨[], rfl, rfl⟩
  | turns edge outside =>
    refine ⟨watch.late.map .changes, late_changes device watch.level watch.late watch.res behind.late, ?_⟩
    rw [levelCauses_changes]
    rfl
  | polled outside => exact ⟨[], rfl, (List.append_nil _).symm⟩
  | finds asking ready => exact ⟨[], rfl, (List.append_nil _).symm⟩
  | parks asking unready =>
    have blocks := behind.blocked (by simp [Watch.Visible, unready])
    refine ⟨[.pends], ?_, (List.append_nil _).symm⟩
    simp [run, Device.levelStep, Watch.level, blocks]
  | refused trying blocks => exact ⟨[], rfl, (List.append_nil _).symm⟩
  | @performs choice res outcome trying free done =>
    have visible : watch.Visible := ⟨behind.guarded (.inl trying), by simp [trying]⟩
    have seen := seen_of_visible device watch behind visible
    refine ⟨[.performs choice], ?_, (List.append_nil _).symm⟩
    simp [run, Device.levelStep, Watch.level, seen, free, done]
  | clears refused => exact ⟨[], rfl, (List.append_nil _).symm⟩

end Steps

section Runs

variable (device : Device Res Choice Change Outcome) (seen res : Res) (late : List Change)
variable (blocks : device.wouldBlock seen = true) (leads : run device.change seen late = some res)
include blocks leads

theorem behind_run (last : Watch Res Change Outcome) (events : List (WatchEvent Choice Change))
    (ran : run device.step (device.watched seen res late) events = some last) : Behind device last :=
  run_invariant device.step (Behind device)
    (fun watch event next behind taken => behind_step device watch next event behind taken)
    (device.watched seen res late) last events (behind_start device seen res late blocks leads) ran

theorem level_run (last : Watch Res Change Outcome) (events : List (WatchEvent Choice Change))
    (ran : run device.step (device.watched seen res late) events = some last) :
    ∃ actions, run device.levelStep { res := seen, answers := [] } actions = some last.level ∧
      levelCauses actions ++ last.late = late ++ causes events := by
  have whole := run_history_invariant device.step
    (fun past watch => Behind device watch ∧ ∃ actions,
      run device.levelStep { res := seen, answers := [] } actions = some watch.level ∧
        levelCauses actions ++ watch.late = late ++ causes past) ?_ [] events
    (device.watched seen res late) last
    ⟨behind_start device seen res late blocks leads, [], rfl, (List.append_nil _).symm⟩ ran
  · exact whole.2
  · rintro past watch event next ⟨behind, actions, went, same⟩ taken
    obtain ⟨more, further, also⟩ := level_step device watch next event behind taken
    refine ⟨behind_step device watch next event behind taken, actions ++ more, ?_, ?_⟩
    · rw [run_append, went, Option.bind_some]
      exact further
    · have split (first second : List (LevelEvent Choice Change)) :
          levelCauses (first ++ second) = levelCauses first ++ levelCauses second :=
        List.filterMap_append
      have split_causes (first second : List (WatchEvent Choice Change)) :
          causes (first ++ second) = causes first ++ causes second := List.filterMap_append
      rw [split, split_causes, ← List.append_assoc, ← same, List.append_assoc, also, List.append_assoc]

end Runs

section Answers

def ofThread : WatchEvent Choice Change → Prop
  | .changes _ => False
  | _ => True

/-- One more outcome than `past`. -/
def Answered (past : List Outcome) (watch : Watch Res Change Outcome) : Prop :=
  ∃ outcome, watch.answers.reduceOption = past ++ [outcome]

variable (device : Device Res Choice Change Outcome) (watch : Watch Res Change Outcome)
variable (past : List Outcome) (so_far : watch.answers.reduceOption = past)
variable (free : device.wouldBlock watch.res = false)
include so_far free

theorem answers_trying (trying : watch.phase = .trying) :
    Reaches device.step ofThread watch (Answered past) := by
  obtain ⟨choice, ⟨res, outcome⟩, done⟩ := device.answers watch.res free
  have taken : device.step watch (.tries choice) = some
      { watch with
        phase := .resting, res := res, seen := res, answers := watch.answers ++ [some outcome] } := by
    simp [Device.step, trying, free, done]
  apply reaches_step device.step ofThread watch _ _ (.tries choice) trivial taken
  apply reaches_here
  exact ⟨outcome, by rw [List.reduceOption_append, so_far]; rfl⟩

theorem answers_asking (asking : watch.phase = .asking) (ready : watch.ready = true) :
    Reaches device.step ofThread watch (Answered past) := by
  have taken : device.step watch .asks = some { watch with phase := .trying } := by
    simp [Device.step, asking, ready]
  apply reaches_step device.step ofThread watch _ _ .asks trivial taken
  exact answers_trying device _ past so_far free rfl

theorem answers_ready (outside : watch.phase.inPoll = false) (ready : watch.ready = true) :
    Reaches device.step ofThread watch (Answered past) := by
  have taken : device.step watch .polled = some { watch with phase := .asking } := by
    simp [Device.step, outside]
  apply reaches_step device.step ofThread watch _ _ .polled trivial taken
  exact answers_asking device _ past so_far free rfl ready

theorem answers_edge (outside : watch.phase.inPoll = false) (edge : watch.edge = true) :
    Reaches device.step ofThread watch (Answered past) := by
  have taken : device.step watch .turns = some
      { watch with
        edge := false, ready := true, phase := watch.phase.awoken
        seen := watch.res, late := [] } := by
    simp [Device.step, outside, edge]
  apply reaches_step device.step ofThread watch _ _ .turns trivial taken
  exact answers_ready device _ past so_far free (awoken_outside watch.phase outside) rfl

theorem answers_unready (asking : watch.phase = .asking) (unready : watch.ready = false)
    (edge : watch.edge = true) : Reaches device.step ofThread watch (Answered past) := by
  have taken : device.step watch .asks = some
      { watch with phase := .parked, answers := watch.answers ++ [none] } := by
    simp [Device.step, asking, unready]
  apply reaches_step device.step ofThread watch _ _ .asks trivial taken
  refine answers_edge device _ past ?_ free rfl edge
  rw [List.reduceOption_append, so_far]
  exact List.append_nil _

theorem answers_refused (refused : watch.phase = .refused) (edge : watch.edge = true) :
    Reaches device.step ofThread watch (Answered past) := by
  have taken : device.step watch .clears = some
      { watch with phase := .asking, ready := false } := by
    simp [Device.step, refused]
  apply reaches_step device.step ofThread watch _ _ .clears trivial taken
  exact answers_unready device _ past so_far free rfl rfl edge

/-- Where a call would not block, the reactor and the polls bring it about by themselves. -/
theorem answers_free (behind : Behind device watch) :
    Reaches device.step ofThread watch (Answered past) := by
  have outside (phase : watch.phase.inPoll = false) :
      Reaches device.step ofThread watch (Answered past) := by
    cases ready : watch.ready with
    | true => exact answers_ready device watch past so_far free phase ready
    | false =>
      have edge := behind.edge (by simp [Watch.Visible, ready]) free
      exact answers_edge device watch past so_far free phase edge
  cases phase : watch.phase with
  | resting => exact outside (by rw [phase]; rfl)
  | parked => exact outside (by rw [phase]; rfl)
  | woken => exact outside (by rw [phase]; rfl)
  | asking =>
    cases ready : watch.ready with
    | true => exact answers_asking device watch past so_far free phase ready
    | false =>
      have edge := behind.edge (by simp [Watch.Visible, ready]) free
      exact answers_unready device watch past so_far free phase ready edge
  | trying => exact answers_trying device watch past so_far free phase
  | refused =>
    have edge := behind.edge (by simp [Watch.Visible, phase]) free
    exact answers_refused device watch past so_far free phase edge

end Answers

section Rounds

/-- How many steps a poll may still take. -/
def Watch.rounds (watch : Watch Res Change Outcome) : Nat :=
  match watch.phase with
  | .asking => if watch.ready then 4 else 1
  | .trying => 3
  | .refused => 2
  | _ => 0

def ofPoll : WatchEvent Choice Change → Bool
  | .asks => true
  | .tries _ => true
  | .clears => true
  | _ => false

theorem outside_rounds (watch : Watch Res Change Outcome) (outside : watch.phase.inPoll = false) :
    watch.rounds = 0 := by
  cases phase : watch.phase with
  | resting => simp [Watch.rounds, phase]
  | parked => simp [Watch.rounds, phase]
  | woken => simp [Watch.rounds, phase]
  | _ =>
    rw [phase] at outside
    cases outside

variable (device : Device Res Choice Change Outcome)

theorem rounds_step (watch next : Watch Res Change Outcome) (event : WatchEvent Choice Change)
    (inside : event ≠ .polled) (taken : device.step watch event = some next) :
    (if ofPoll event then 1 else 0) + next.rounds ≤ watch.rounds := by
  cases watch_step_cases device watch next event taken with
  | shows moved visible => simp [ofPoll, Watch.rounds]
  | hides moved hidden => simp [ofPoll, Watch.rounds]
  | turns edge outside =>
    rw [outside_rounds _ (awoken_outside watch.phase outside)]
    exact Nat.zero_le _
  | polled outside => exact absurd rfl inside
  | finds asking ready => simp [ofPoll, Watch.rounds, asking, ready]
  | parks asking unready => simp [ofPoll, Watch.rounds, asking, unready]
  | refused trying blocks => simp [ofPoll, Watch.rounds, trying]
  | performs trying free done => simp [ofPoll, Watch.rounds, trying]
  | clears refused => simp [ofPoll, Watch.rounds, refused]

theorem poll_ends (watch last : Watch Res Change Outcome) (events : List (WatchEvent Choice Change))
    (inside : .polled ∉ events) (ran : run device.step watch events = some last) :
    events.countP ofPoll + last.rounds ≤ 4 := by
  have met := meets_of_forall device.step (fun event => event ≠ .polled) watch events
    (fun event member same => inside (same ▸ member))
  have kept := run_guarded_invariant device.step (fun _ event => event ≠ .polled)
    (fun past state => past.countP ofPoll + state.rounds ≤ watch.rounds) ?_ [] events watch last
    (by simp) met ran
  · have bound : watch.rounds ≤ 4 := by
      unfold Watch.rounds
      split
      · split <;> decide
      all_goals decide
    exact Nat.le_trans kept bound
  · intro past state event next kept allowed taken
    have less := rounds_step device state next event allowed taken
    rw [List.countP_append, List.countP_singleton]
    omega

end Rounds

/-- What a descriptor watched like this comes to. -/
structure LevelTriggered (device : Device Res Choice Change Outcome) (seen : Res)
    (late : List Change) (events : List (WatchEvent Choice Change)) (last : Watch Res Change Outcome) : Prop where
  sameAnswers : ∃ actions,
    run device.levelStep { res := seen, answers := [] } actions = some last.level ∧
      levelCauses actions ++ last.late = late ++ causes events
  onItsWay : last.phase = .parked → device.wouldBlock last.res = false → last.edge = true
  answered : device.wouldBlock last.res = false →
    Reaches device.step ofThread last (Answered last.answers.reduceOption)
  rounds : ∀ more next, .polled ∉ more → run device.step last more = some next →
    more.countP ofPoll ≤ 4

theorem level_triggered (device : Device Res Choice Change Outcome) (seen res : Res)
    (late : List Change) (blocks : device.wouldBlock seen = true)
    (leads : run device.change seen late = some res) (events : List (WatchEvent Choice Change))
    (last : Watch Res Change Outcome)
    (ran : run device.step (device.watched seen res late) events = some last) :
    LevelTriggered device seen late events last where
  sameAnswers := level_run device seen res late blocks leads last events ran
  onItsWay := by
    intro parked free
    have behind := behind_run device seen res late blocks leads last events ran
    apply behind.edge _ free
    simp [Watch.Visible, behind.parked parked]
  answered := by
    intro free
    exact answers_free device last _ rfl free
      (behind_run device seen res late blocks leads last events ran)
  rounds := by
    intro more next inside went
    exact Nat.le_of_add_right_le (poll_ends device last next more inside went)

/-- The invariant rule: what changes and calls keep holds whatever the reactor and the polls do. -/
theorem watched_invariant (device : Device Res Choice Change Outcome) (seen start : Res)
    (late : List Change) (invariant : List Change → List Outcome → Res → Prop)
    (initial : invariant [] [] start)
    (changes : ∀ past outcomes res cause next, invariant past outcomes res →
      device.change res cause = some next → invariant (past ++ [cause]) outcomes next)
    (performs : ∀ past outcomes res choice next outcome, invariant past outcomes res →
      device.wouldBlock res = false → device.perform res choice = some (next, outcome) →
        invariant past (outcomes ++ [outcome]) next)
    (events : List (WatchEvent Choice Change)) (last : Watch Res Change Outcome)
    (ran : run device.step (device.watched seen start late) events = some last) :
    invariant (causes events) last.answers.reduceOption last.res := by
  refine run_history_invariant device.step
    (fun past watch => invariant (causes past) watch.answers.reduceOption watch.res) ?_ [] events
    (device.watched seen start late) last initial ran
  intro past watch event next kept taken
  rw [causes, List.filterMap_append]
  have quiet : invariant (causes past ++ []) watch.answers.reduceOption watch.res := by
    rwa [List.append_nil]
  cases watch_step_cases device watch next event taken with
  | shows moved visible => exact changes _ _ _ _ _ kept moved
  | hides moved hidden => exact changes _ _ _ _ _ kept moved
  | turns edge outside => exact quiet
  | polled outside => exact quiet
  | finds asking ready => exact quiet
  | parks asking unready =>
    rw [List.reduceOption_append]
    exact (List.append_nil watch.answers.reduceOption).symm ▸ quiet
  | refused trying blocks => exact quiet
  | performs trying free done =>
    rw [List.reduceOption_append]
    exact (List.append_nil (causes past)).symm ▸ performs _ _ _ _ _ _ kept free done
  | clears refused => exact quiet

end Hytch.EdgeTriggered
