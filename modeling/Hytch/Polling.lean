import Mathlib.Logic.Basic

/-!
A loop that looks for something once every `period` until a deadline, and once more then.
The clock belongs to the surroundings: a sleep may be longer than it was meant to be, and
any amount of time may pass between two steps.
-/

namespace Hytch.Polling

inductive Phase where
  /-- At the head of the loop. -/
  | choosing
  | looking
  | sleeping (wakeAt : Nat)
  | lastLook
  | finished (found : Bool)
  deriving DecidableEq

/-- No step reads the number of looks. -/
structure Poll where
  began : Nat
  timeout : Nat
  phase : Phase
  looks : Nat
  deriving DecidableEq

inductive PollEvent where
  | chooses
  | looks (found : Bool)
  | wakes

namespace Poll

def start (now timeout : Nat) : Poll :=
  { began := now, timeout := timeout, phase := .choosing, looks := 0 }

def deadline (poll : Poll) : Nat := poll.began + poll.timeout

def step (period now : Nat) (poll : Poll) : PollEvent → Option Poll
  | .chooses =>
      match poll.phase with
      | .choosing =>
          some { poll with phase := if now < poll.deadline then .looking else .lastLook }
      | _ => none
  | .looks found =>
      match poll.phase with
      | .looking =>
          let phase := if found then .finished true else .sleeping (now + period)
          some { poll with phase := phase, looks := poll.looks + 1 }
      | .lastLook => some { poll with phase := .finished found, looks := poll.looks + 1 }
      | _ => none
  | .wakes =>
      match poll.phase with
      | .sleeping wakeAt => if wakeAt ≤ now then some { poll with phase := .choosing } else none
      | _ => none

end Poll

inductive PollStep (period now : Nat) (poll : Poll) : PollEvent → Poll → Prop where
  | goesOn (choosing : poll.phase = .choosing) (early : now < poll.deadline) :
      PollStep period now poll .chooses { poll with phase := .looking }
  | leaves (choosing : poll.phase = .choosing) (late : poll.deadline ≤ now) :
      PollStep period now poll .chooses { poll with phase := .lastLook }
  | finds (looking : poll.phase = .looking) :
      PollStep period now poll (.looks true)
        { poll with phase := .finished true, looks := poll.looks + 1 }
  | sleeps (looking : poll.phase = .looking) :
      PollStep period now poll (.looks false)
        { poll with phase := .sleeping (now + period), looks := poll.looks + 1 }
  | ends {found : Bool} (last : poll.phase = .lastLook) :
      PollStep period now poll (.looks found)
        { poll with phase := .finished found, looks := poll.looks + 1 }
  | wakes {wakeAt : Nat} (sleeping : poll.phase = .sleeping wakeAt) (due : wakeAt ≤ now) :
      PollStep period now poll .wakes { poll with phase := .choosing }

/-- The looks are at least a period apart, and all but the last are in front of the deadline. -/
inductive Timely (period now : Nat) (poll : Poll) : Prop where
  | choosing (phase : poll.phase = .choosing) (elapsed : poll.began + poll.looks * period ≤ now)
      (looks : poll.looks * period < poll.timeout + period) : Timely period now poll
  | looking (phase : poll.phase = .looking) (elapsed : poll.began + poll.looks * period ≤ now)
      (looks : poll.looks * period < poll.timeout) : Timely period now poll
  | sleeping {wakeAt : Nat} (phase : poll.phase = .sleeping wakeAt)
      (elapsed : poll.began + poll.looks * period ≤ wakeAt)
      (looks : poll.looks * period < poll.timeout + period) : Timely period now poll
  | lastLook (phase : poll.phase = .lastLook) (elapsed : poll.deadline ≤ now)
      (looks : poll.looks * period < poll.timeout + period) : Timely period now poll
  | finished {found : Bool} (phase : poll.phase = .finished found)
      (elapsed : found = false → poll.deadline ≤ now)
      (looks : poll.looks * period < poll.timeout + 2 * period) : Timely period now poll

section Timing

variable (period now : Nat) (poll : Poll)

theorem poll_step_cases (next : Poll) (event : PollEvent)
    (taken : poll.step period now event = some next) : PollStep period now poll event next := by
  cases event with
  | chooses =>
    simp only [Poll.step] at taken
    split at taken
    · rename_i choosing
      split at taken
      · rename_i early
        cases taken
        exact .goesOn choosing early
      · rename_i late
        cases taken
        exact .leaves choosing (Nat.le_of_not_lt late)
    · cases taken
  | looks found =>
    simp only [Poll.step] at taken
    split at taken
    · rename_i looking
      cases taken
      cases found
      · exact .sleeps looking
      · exact .finds looking
    · rename_i last
      cases taken
      exact .ends last
    · cases taken
  | wakes =>
    simp only [Poll.step] at taken
    split at taken
    · rename_i wakeAt sleeping
      obtain ⟨due, taken⟩ := Option.ite_none_right_eq_some.mp taken
      cases taken
      exact .wakes sleeping due
    · cases taken

theorem poll_step_frame (next : Poll) (event : PollEvent)
    (taken : poll.step period now event = some next) :
    next.began = poll.began ∧ next.timeout = poll.timeout ∧
      next.looks = poll.looks + match event with
        | .looks _ => 1
        | _ => 0 := by
  cases poll_step_cases period now poll next event taken <;> exact ⟨rfl, rfl, rfl⟩

theorem finished_by_look (next : Poll) (event : PollEvent) (found : Bool)
    (taken : poll.step period now event = some next) (finished : next.phase = .finished found) :
    event = .looks found := by
  cases poll_step_cases period now poll next event taken with
  | finds looking =>
    cases finished
    rfl
  | ends last =>
    cases finished
    rfl
  | goesOn => cases finished
  | leaves => cases finished
  | sleeps => cases finished
  | wakes => cases finished

theorem timely_start (timeout : Nat) (positive : 0 < period) :
    Timely period now (Poll.start now timeout) := by
  apply Timely.choosing rfl
  · simp [Poll.start]
  · simp only [Poll.start]
    omega

theorem timely_later (later : Nat) (timely : Timely period now poll) (passed : now ≤ later) :
    Timely period later poll := by
  cases timely with
  | choosing phase elapsed looks => exact .choosing phase (Nat.le_trans elapsed passed) looks
  | looking phase elapsed looks => exact .looking phase (Nat.le_trans elapsed passed) looks
  | sleeping phase elapsed looks => exact .sleeping phase elapsed looks
  | lastLook phase elapsed looks => exact .lastLook phase (Nat.le_trans elapsed passed) looks
  | finished phase elapsed looks =>
    exact .finished phase (fun missed => Nat.le_trans (elapsed missed) passed) looks

theorem timely_step (next : Poll) (event : PollEvent) (timely : Timely period now poll)
    (taken : poll.step period now event = some next) : Timely period now next := by
  have more : (poll.looks + 1) * period = poll.looks * period + period := Nat.succ_mul _ _
  cases poll_step_cases period now poll next event taken with
  | goesOn choosing early =>
    cases timely with
    | choosing _ elapsed looks =>
      have room : poll.looks * period < poll.timeout := by
        simp only [Poll.deadline] at early
        omega
      exact .looking rfl elapsed room
    | _ phase => rw [choosing] at phase; cases phase
  | leaves choosing late =>
    cases timely with
    | choosing _ elapsed looks => exact .lastLook rfl late looks
    | _ phase => rw [choosing] at phase; cases phase
  | finds looking =>
    cases timely with
    | looking _ elapsed looks =>
      refine .finished rfl nofun ?_
      simp only [more]
      omega
    | _ phase => rw [looking] at phase; cases phase
  | sleeps looking =>
    cases timely with
    | looking _ elapsed looks =>
      apply Timely.sleeping rfl
      · simp only [more]
        omega
      · simp only [more]
        omega
    | _ phase => rw [looking] at phase; cases phase
  | ends last =>
    cases timely with
    | lastLook _ elapsed looks =>
      refine .finished rfl (fun _ => elapsed) ?_
      simp only [more]
      omega
    | _ phase => rw [last] at phase; cases phase
  | wakes sleeping due =>
    cases timely with
    | sleeping phase elapsed looks =>
      rw [sleeping] at phase
      cases phase
      exact .choosing rfl (Nat.le_trans elapsed due) looks
    | _ phase => rw [sleeping] at phase; cases phase

/-- One look for each period, one for what is left of the time-out, and the last. -/
theorem looks_bounded (timely : Timely period now poll) :
    poll.looks * period < poll.timeout + 2 * period := by
  cases timely with
  | finished phase elapsed looks => exact looks
  | choosing phase elapsed looks => omega
  | looking phase elapsed looks => omega
  | sleeping phase elapsed looks => omega
  | lastLook phase elapsed looks => omega

/-- What was not found was missing at the deadline. -/
theorem gives_up_late (timely : Timely period now poll) (missed : poll.phase = .finished false) :
    poll.deadline ≤ now := by
  cases timely with
  | finished phase elapsed looks =>
    rw [missed] at phase
    cases phase
    exact elapsed rfl
  | choosing phase => rw [missed] at phase; cases phase
  | looking phase => rw [missed] at phase; cases phase
  | sleeping phase => rw [missed] at phase; cases phase
  | lastLook phase => rw [missed] at phase; cases phase

end Timing

end Hytch.Polling
