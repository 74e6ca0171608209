import Hytch.DaemonLifecycle
import Hytch.Polling

/-!
`kill` of `commands.rs`: a signal is written to whoever listens on the socket path, and the
path is looked at until it is gone; after five seconds a second signal follows. All the
while daemons of the same name start, end and crash.
-/

namespace Hytch.KillCommand

open DaemonLifecycle Polling Runs

inductive KillOutcome where
  | unreachable (fault : IoError)
  | stopped
  | killed
  | didNotStop
  deriving DecidableEq

def KillOutcome.code : KillOutcome → Nat
  | .unreachable _ => 1
  | .stopped => 0
  | .killed => 0
  | .didNotStop => 1

inductive KillPhase where
  | sending
  | waiting (poll : Poll)
  | escalating
  | waitingAgain (poll : Poll)
  | returned (outcome : KillOutcome)
  deriving DecidableEq

/-- A `Kill` message on the connection to a daemon. -/
structure Signalled where
  time : Nat
  pid : Nat
  signal : UInt8
  deriving DecidableEq

/-- Time is in milliseconds. -/
structure Kill where
  machine : Machine
  now : Nat
  phase : KillPhase
  sent : List Signalled

inductive KillEvent where
  | world (event : MachineEvent)
  | passes (duration : Nat)
  | sends (result : Except IoError Unit)
  | polls (event : PollEvent)

def sigterm : UInt8 := 15

def sigkill : UInt8 := 9

/-- The sleep of `wait_gone`. -/
def period : Nat := 100

def maxWait (force : Bool) : Nat := if force then 2000 else 5000

/-- A look says whether the path is gone. -/
def truthful (machine : Machine) : PollEvent → Bool
  | .looks found => found == (machine.node == .absent)
  | _ => true

/-- What `kill` does once `wait_gone` has returned. -/
def afterFirst (force : Bool) (poll : Poll) : KillPhase :=
  match poll.phase with
  | .finished true => .returned .stopped
  | .finished false => if force then .returned .didNotStop else .escalating
  | _ => .waiting poll

def afterSecond (poll : Poll) : KillPhase :=
  match poll.phase with
  | .finished true => .returned .killed
  | .finished false => .returned .didNotStop
  | _ => .waitingAgain poll

namespace Kill

def start (machine : Machine) (now : Nat) : Kill :=
  { machine := machine, now := now, phase := .sending, sent := [] }

/-- `send_control` has written to the listener. -/
def delivered (kill : Kill) (pid : Nat) (signal : UInt8) : Kill :=
  { kill with sent := kill.sent ++ [{ time := kill.now, pid := pid, signal := signal }] }

def onSends (force : Bool) (kill : Kill) (result : Except IoError Unit) : Option Kill :=
  match kill.phase, result with
  | .sending, .ok () =>
      kill.machine.listener.map fun pid =>
        { kill.delivered pid (if force then sigkill else sigterm) with
          phase := .waiting (Poll.start kill.now (maxWait force)) }
  | .sending, .error fault => some { kill with phase := .returned (.unreachable fault) }
  | .escalating, .ok () =>
      kill.machine.listener.map fun pid =>
        { kill.delivered pid sigkill with phase := .waitingAgain (Poll.start kill.now 2000) }
  -- `let _ = send_control(..)`
  | .escalating, .error _ => some { kill with phase := .waitingAgain (Poll.start kill.now 2000) }
  | _, _ => none

def onPolls (force : Bool) (kill : Kill) (event : PollEvent) : Option Kill :=
  if truthful kill.machine event then
    match kill.phase with
    | .waiting poll =>
        (poll.step period kill.now event).map fun poll =>
          { kill with phase := afterFirst force poll }
    | .waitingAgain poll =>
        (poll.step period kill.now event).map fun poll => { kill with phase := afterSecond poll }
    | _ => none
  else none

def step (force : Bool) (kill : Kill) : KillEvent → Option Kill
  | .world event => (kill.machine.step event).map fun machine => { kill with machine := machine }
  | .passes duration => some { kill with now := kill.now + duration }
  | .sends result => kill.onSends force result
  | .polls event => kill.onPolls force event

end Kill

inductive KillStep (force : Bool) (kill : Kill) : KillEvent → Kill → Prop where
  | world {event : MachineEvent} {machine : Machine}
      (moved : kill.machine.step event = some machine) :
      KillStep force kill (.world event) { kill with machine := machine }
  | passes {duration : Nat} :
      KillStep force kill (.passes duration) { kill with now := kill.now + duration }
  | sends {pid : Nat} (sending : kill.phase = .sending) (listens : kill.machine.listener = some pid) :
      KillStep force kill (.sends (.ok ()))
        { kill.delivered pid (if force then sigkill else sigterm) with
          phase := .waiting (Poll.start kill.now (maxWait force)) }
  | unreachable {fault : IoError} (sending : kill.phase = .sending) :
      KillStep force kill (.sends (.error fault))
        { kill with phase := .returned (.unreachable fault) }
  | escalates {pid : Nat} (escalating : kill.phase = .escalating)
      (listens : kill.machine.listener = some pid) :
      KillStep force kill (.sends (.ok ()))
        { kill.delivered pid sigkill with phase := .waitingAgain (Poll.start kill.now 2000) }
  | misses {fault : IoError} (escalating : kill.phase = .escalating) :
      KillStep force kill (.sends (.error fault))
        { kill with phase := .waitingAgain (Poll.start kill.now 2000) }
  | polls {event : PollEvent} {poll next : Poll} (waiting : kill.phase = .waiting poll)
      (honest : truthful kill.machine event = true)
      (moved : poll.step period kill.now event = some next) :
      KillStep force kill (.polls event) { kill with phase := afterFirst force next }
  | pollsAgain {event : PollEvent} {poll next : Poll} (waiting : kill.phase = .waitingAgain poll)
      (honest : truthful kill.machine event = true)
      (moved : poll.step period kill.now event = some next) :
      KillStep force kill (.polls event) { kill with phase := afterSecond next }

theorem kill_step_cases (force : Bool) (kill next : Kill) (event : KillEvent)
    (taken : kill.step force event = some next) : KillStep force kill event next := by
  cases event with
  | world event =>
    obtain ⟨machine, moved, rfl⟩ := Option.map_eq_some_iff.mp taken
    exact .world moved
  | passes duration =>
    cases taken
    exact .passes
  | sends result =>
    simp only [Kill.step, Kill.onSends] at taken
    split at taken
    · rename_i sending
      obtain ⟨pid, listens, rfl⟩ := Option.map_eq_some_iff.mp taken
      exact .sends sending listens
    · rename_i sending
      cases taken
      exact .unreachable sending
    · rename_i escalating
      obtain ⟨pid, listens, rfl⟩ := Option.map_eq_some_iff.mp taken
      exact .escalates escalating listens
    · rename_i escalating
      cases taken
      exact .misses escalating
    · cases taken
  | polls event =>
    obtain ⟨honest, taken⟩ := Option.ite_none_right_eq_some.mp taken
    split at taken
    · rename_i waiting
      obtain ⟨poll, moved, rfl⟩ := Option.map_eq_some_iff.mp taken
      exact .polls waiting honest moved
    · rename_i waiting
      obtain ⟨poll, moved, rfl⟩ := Option.map_eq_some_iff.mp taken
      exact .pollsAgain waiting honest moved
    · cases taken

def isLook : KillEvent → Bool
  | .polls (.looks _) => true
  | _ => false

def Passed (force : Bool) (start : Kill) (past : List KillEvent) (property : Kill → Prop) : Prop :=
  ∃ earlier state, earlier <+: past ∧ run (Kill.step force) start earlier = some state ∧
    property state

/-- One signal, and in a gentle kill another when the grace is over. -/
structure Escalates (force : Bool) (sent : List Signalled) : Prop where
  signals : sent.map Signalled.signal <+: if force then [sigkill] else [sigterm, sigkill]
  grace : ∀ first second rest, sent = first :: second :: rest → first.time + 5000 ≤ second.time

def Gone (machine : Machine) : Prop :=
  machine.node = .absent ∧ ∀ pid phase, machine.daemons pid = some phase → phase.bound = false

/-- From the first signal to the last look. -/
def patience (force : Bool) : Nat := if force then 2000 else 7000

inductive Ended (force : Bool) (start : Kill) (past : List KillEvent) (sent : List Signalled) :
    KillOutcome → Prop where
  | unreachable (fault : IoError) (nothing : sent = []) :
      Ended force start past sent (.unreachable fault)
  | stopped {first : Signalled} (once : sent = [first])
      (seen : Passed force start past fun kill => kill.sent = sent ∧ Gone kill.machine) :
      Ended force start past sent .stopped
  | killed {first : Signalled} {rest : List Signalled} (gentle : force = false)
      (again : sent = first :: rest)
      (seen : Passed force start past fun kill =>
        kill.sent = sent ∧ first.time + 5000 ≤ kill.now ∧ Gone kill.machine) :
      Ended force start past sent .killed
  | didNotStop {first : Signalled} {rest : List Signalled} (again : sent = first :: rest)
      (there : Passed force start past fun kill =>
        kill.sent = sent ∧ first.time + patience force ≤ kill.now ∧ kill.machine.node ≠ .absent) :
      Ended force start past sent .didNotStop

inductive Stage (force : Bool) (start : Kill) (past : List KillEvent) (kill : Kill) : Prop where
  | sending (phase : kill.phase = .sending) (nothing : kill.sent = [])
      (looks : past.countP isLook = 0) : Stage force start past kill
  | waiting {poll : Poll} {first : Signalled} (phase : kill.phase = .waiting poll)
      (timely : Timely period kill.now poll) (timeout : poll.timeout = maxWait force)
      (once : kill.sent = [first]) (opened : first.time = poll.began)
      (looks : past.countP isLook = poll.looks) : Stage force start past kill
  | escalating {first : Signalled} (phase : kill.phase = .escalating) (gentle : force = false)
      (once : kill.sent = [first]) (grace : first.time + 5000 ≤ kill.now)
      (looks : past.countP isLook ≤ 51) : Stage force start past kill
  | waitingAgain {poll : Poll} {first : Signalled} {rest : List Signalled}
      (phase : kill.phase = .waitingAgain poll) (timely : Timely period kill.now poll)
      (timeout : poll.timeout = 2000) (gentle : force = false) (again : kill.sent = first :: rest)
      (grace : first.time + 5000 ≤ poll.began) (begun : poll.began ≤ kill.now)
      (looks : past.countP isLook ≤ 51 + poll.looks) : Stage force start past kill
  | returned {outcome : KillOutcome} (phase : kill.phase = .returned outcome)
      (ended : Ended force start past kill.sent outcome)
      (looks : past.countP isLook ≤ if force then 21 else 72) : Stage force start past kill

section Stages

variable (force : Bool) (start kill : Kill) (past : List KillEvent)

theorem passed_later (property : Kill → Prop) (event : KillEvent)
    (passed : Passed force start past property) :
    Passed force start (past ++ [event]) property := by
  obtain ⟨earlier, state, initial, ran, holds⟩ := passed
  exact ⟨earlier, state, initial.trans (List.prefix_append _ _), ran, holds⟩

theorem ended_later (sent : List Signalled) (outcome : KillOutcome) (event : KillEvent)
    (ended : Ended force start past sent outcome) :
    Ended force start (past ++ [event]) sent outcome := by
  cases ended with
  | unreachable fault nothing => exact .unreachable fault nothing
  | stopped once seen => exact .stopped once (passed_later force start past _ event seen)
  | killed gentle again seen =>
    exact .killed gentle again (passed_later force start past _ event seen)
  | didNotStop again there => exact .didNotStop again (passed_later force start past _ event there)

theorem gone_of_absent (machine : Machine) (orderly : Orderly machine)
    (absent : machine.node = .absent) : Gone machine := by
  refine ⟨absent, fun pid phase known => ?_⟩
  cases bound : phase.bound with
  | false => rfl
  | true =>
    have owned := orderly.owned pid phase known bound
    rw [absent] at owned
    cases owned

/-- The world moves, or time passes. -/
theorem stage_beside (next : Kill) (event : KillEvent) (stage : Stage force start past kill)
    (phase : next.phase = kill.phase) (sent : next.sent = kill.sent) (later : kill.now ≤ next.now)
    (other : isLook event = false) : Stage force start (past ++ [event]) next := by
  have same : (past ++ [event]).countP isLook = past.countP isLook := by
    simp [List.countP_append, other]
  cases stage with
  | sending sending nothing looks =>
    exact .sending (phase.trans sending) (sent.trans nothing) (same.trans looks)
  | waiting waiting timely timeout once opened looks =>
    exact .waiting (phase.trans waiting) (timely_later period kill.now _ next.now timely later)
      timeout (sent.trans once) opened (same.trans looks)
  | escalating escalating gentle once grace looks =>
    exact .escalating (phase.trans escalating) gentle (sent.trans once)
      (Nat.le_trans grace later) (Nat.le_trans (Nat.le_of_eq same) looks)
  | waitingAgain waiting timely timeout gentle again grace begun looks =>
    exact .waitingAgain (phase.trans waiting) (timely_later period kill.now _ next.now timely later)
      timeout gentle (sent.trans again) grace (Nat.le_trans begun later)
      (Nat.le_trans (Nat.le_of_eq same) looks)
  | returned returned ended looks =>
    refine .returned (phase.trans returned) ?_ (Nat.le_trans (Nat.le_of_eq same) looks)
    rw [sent]
    exact ended_later force start past _ _ event ended

theorem stage_sends (next : Kill) (result : Except IoError Unit)
    (stage : Stage force start past kill) (taken : kill.step force (.sends result) = some next) :
    Stage force start (past ++ [.sends result]) next := by
  have same : (past ++ [KillEvent.sends result]).countP isLook = past.countP isLook := by
    simp [List.countP_append, isLook]
  have positive : 0 < period := by decide
  cases kill_step_cases force kill next _ taken with
  | @sends pid sending listens =>
    cases stage with
    | sending _ nothing looks =>
      have once : (kill.delivered pid (if force then sigkill else sigterm)).sent =
          [{ time := kill.now, pid := pid, signal := if force then sigkill else sigterm }] := by
        rw [Kill.delivered, nothing]
        rfl
      exact .waiting rfl (timely_start period kill.now _ positive) rfl once rfl (same.trans looks)
    | _ phase => rw [sending] at phase; cases phase
  | unreachable sending =>
    cases stage with
    | sending _ nothing looks =>
      refine .returned rfl (.unreachable _ nothing) ?_
      rw [same, looks]
      exact Nat.zero_le _
    | _ phase => rw [sending] at phase; cases phase
  | @escalates pid escalating listens =>
    cases stage with
    | @escalating first _ gentle once grace looks =>
      have again : (kill.delivered pid sigkill).sent =
          [first, { time := kill.now, pid := pid, signal := sigkill }] := by
        rw [Kill.delivered, once]
        rfl
      refine .waitingAgain rfl (timely_start period kill.now _ positive) rfl gentle again grace
        (Nat.le_refl _) ?_
      rw [same]
      exact Nat.le_trans looks (Nat.le_add_right _ _)
    | _ phase => rw [escalating] at phase; cases phase
  | misses escalating =>
    cases stage with
    | escalating _ gentle once grace looks =>
      refine .waitingAgain rfl (timely_start period kill.now _ positive) rfl gentle once grace
        (Nat.le_refl _) ?_
      rw [same]
      exact Nat.le_trans looks (Nat.le_add_right _ _)
    | _ phase => rw [escalating] at phase; cases phase

theorem look_counted (poll next : Poll) (event : PollEvent)
    (moved : poll.step period kill.now event = some next) :
    (past ++ [KillEvent.polls event]).countP isLook + poll.looks =
      past.countP isLook + next.looks := by
  obtain ⟨_, _, looks⟩ := poll_step_frame period kill.now poll next event moved
  rw [List.countP_append, looks]
  cases event with
  | looks found =>
    simp [isLook]
    omega
  | chooses => simp [isLook]
  | wakes => simp [isLook]

/-- The looks of the first wait, and what is left of it for both. -/
theorem looks_limited (looks : Nat) (few : looks * period < maxWait force + 2 * period) :
    (looks ≤ if force then 21 else 51) ∧ looks ≤ if force then 21 else 72 := by
  cases force with
  | true =>
    simp only [maxWait, period, if_true] at few ⊢
    omega
  | false =>
    simp only [maxWait, period, Bool.false_eq_true, if_false] at few ⊢
    omega

theorem last_look (orderly : Orderly kill.machine) (poll next : Poll) (event : PollEvent)
    (found : Bool) (honest : truthful kill.machine event = true)
    (moved : poll.step period kill.now event = some next)
    (finished : next.phase = .finished found) :
    (found = true → Gone kill.machine) ∧ (found = false → kill.machine.node ≠ .absent) := by
  have looked := finished_by_look period kill.now poll next event found moved finished
  subst looked
  have seen : found = (kill.machine.node == .absent) := by simpa [truthful] using honest
  constructor
  · rintro rfl
    exact gone_of_absent kill.machine orderly (by simpa using seen.symm)
  · rintro rfl
    simpa using seen.symm

theorem passed_now (property : Kill → Prop) (event : KillEvent)
    (ran : run (Kill.step force) start past = some kill) (holds : property kill) :
    Passed force start (past ++ [event]) property :=
  ⟨past, kill, List.prefix_append _ _, ran, holds⟩

theorem stage_polls (poll next : Poll) (event : PollEvent) (orderly : Orderly kill.machine)
    (ran : run (Kill.step force) start past = some kill) (stage : Stage force start past kill)
    (waiting : kill.phase = .waiting poll) (honest : truthful kill.machine event = true)
    (moved : poll.step period kill.now event = some next) :
    Stage force start (past ++ [.polls event]) { kill with phase := afterFirst force next } := by
  cases stage with
  | @waiting _ first phase timely timeout once opened looks =>
    rw [waiting] at phase
    cases phase
    have counted := look_counted kill past poll next event moved
    have later := timely_step period kill.now poll next event timely moved
    obtain ⟨began, length, _⟩ := poll_step_frame period kill.now poll next event moved
    have few := looks_bounded period kill.now next later
    rw [length, timeout] at few
    obtain ⟨limit, overall⟩ := looks_limited force next.looks few
    have all : (past ++ [KillEvent.polls event]).countP isLook = next.looks := by omega
    have bounded : (past ++ [KillEvent.polls event]).countP isLook ≤ if force then 21 else 72 := by
      rw [all]
      exact overall
    cases outcome : next.phase with
    | finished found =>
      have seen := last_look kill orderly poll next event found honest moved outcome
      cases found with
      | true =>
        have ceased : afterFirst force next = .returned .stopped := by rw [afterFirst, outcome]
        exact .returned ceased (.stopped once (passed_now force start kill past _ _ ran
          ⟨rfl, seen.1 rfl⟩)) bounded
      | false =>
        have late := gives_up_late period kill.now next later outcome
        rw [Poll.deadline, began, length, timeout, ← opened] at late
        cases force with
        | true =>
          have ceased : afterFirst true next = .returned .didNotStop := by
            rw [afterFirst, outcome]
            rfl
          exact .returned ceased (.didNotStop once (passed_now true start kill past _ _ ran
            ⟨rfl, late, seen.2 rfl⟩)) bounded
        | false =>
          have ceased : afterFirst false next = .escalating := by
            rw [afterFirst, outcome]
            rfl
          exact .escalating ceased rfl once late (all ▸ limit)
    | _ =>
      have goes : afterFirst force next = .waiting next := by rw [afterFirst, outcome]
      exact .waiting goes later (length.trans timeout) once (opened.trans began.symm) all
  | sending phase => rw [waiting] at phase; cases phase
  | escalating phase => rw [waiting] at phase; cases phase
  | waitingAgain phase => rw [waiting] at phase; cases phase
  | returned phase => rw [waiting] at phase; cases phase

theorem stage_polls_again (poll next : Poll) (event : PollEvent) (orderly : Orderly kill.machine)
    (ran : run (Kill.step force) start past = some kill) (stage : Stage force start past kill)
    (waiting : kill.phase = .waitingAgain poll) (honest : truthful kill.machine event = true)
    (moved : poll.step period kill.now event = some next) :
    Stage force start (past ++ [.polls event]) { kill with phase := afterSecond next } := by
  cases stage with
  | @waitingAgain _ first rest phase timely timeout gentle again grace begun looks =>
    rw [waiting] at phase
    cases phase
    subst gentle
    have counted := look_counted kill past poll next event moved
    have later := timely_step period kill.now poll next event timely moved
    obtain ⟨began, length, _⟩ := poll_step_frame period kill.now poll next event moved
    have few := looks_bounded period kill.now next later
    rw [length, timeout, period] at few
    have bounded : (past ++ [KillEvent.polls event]).countP isLook ≤ if false then 21 else 72 := by
      simp only [Bool.false_eq_true, if_false]
      omega
    cases outcome : next.phase with
    | finished found =>
      have seen := last_look kill orderly poll next event found honest moved outcome
      cases found with
      | true =>
        have ceased : afterSecond next = .returned .killed := by rw [afterSecond, outcome]
        exact .returned ceased (.killed rfl again (passed_now false start kill past _ _ ran
          ⟨rfl, Nat.le_trans grace begun, seen.1 rfl⟩)) bounded
      | false =>
        have late := gives_up_late period kill.now next later outcome
        rw [Poll.deadline, began, length, timeout] at late
        have ceased : afterSecond next = .returned .didNotStop := by rw [afterSecond, outcome]
        have long : first.time + patience false ≤ kill.now := by
          simp only [patience, Bool.false_eq_true, if_false]
          omega
        exact .returned ceased (.didNotStop again (passed_now false start kill past _ _ ran
          ⟨rfl, long, seen.2 rfl⟩)) bounded
    | _ =>
      have goes : afterSecond next = .waitingAgain next := by rw [afterSecond, outcome]
      refine .waitingAgain goes later (length.trans timeout) rfl again ?_ ?_ ?_
      · rw [began]
        exact grace
      · rw [began]
        exact begun
      · omega
  | sending phase => rw [waiting] at phase; cases phase
  | waiting phase => rw [waiting] at phase; cases phase
  | escalating phase => rw [waiting] at phase; cases phase
  | returned phase => rw [waiting] at phase; cases phase

theorem escalates_step (next : Kill) (event : KillEvent) (stage : Stage force start past kill)
    (escalates : Escalates force kill.sent) (taken : kill.step force event = some next) :
    Escalates force next.sent := by
  cases kill_step_cases force kill next event taken with
  | sends sending listens =>
    cases stage with
    | sending _ nothing looks =>
      rw [Kill.delivered, nothing]
      constructor
      · cases force with
        | true => exact List.prefix_refl [sigkill]
        | false => exact List.prefix_append [sigterm] [sigkill]
      · intro first second rest same
        cases same
    | _ phase => rw [sending] at phase; cases phase
  | escalates escalating listens =>
    cases stage with
    | @escalating first _ gentle once grace looks =>
      subst gentle
      have signals := escalates.signals
      rw [once] at signals
      have gently : first.signal = sigterm := (List.cons_prefix_cons.mp signals).1
      rw [Kill.delivered, once]
      constructor
      · simp [gently]
      · rintro _ _ _ ⟨⟩
        exact grace
    | _ phase => rw [escalating] at phase; cases phase
  | world moved => exact escalates
  | passes => exact escalates
  | unreachable sending => exact escalates
  | misses escalating => exact escalates
  | polls waiting honest moved => exact escalates
  | pollsAgain waiting honest moved => exact escalates

theorem stage_step (next : Kill) (event : KillEvent) (orderly : Orderly kill.machine)
    (ran : run (Kill.step force) start past = some kill) (stage : Stage force start past kill)
    (taken : kill.step force event = some next) : Stage force start (past ++ [event]) next := by
  cases kill_step_cases force kill next event taken with
  | world moved => exact stage_beside force start kill past _ _ stage rfl rfl (Nat.le_refl _) rfl
  | passes =>
    exact stage_beside force start kill past _ _ stage rfl rfl (Nat.le_add_right _ _) rfl
  | sends => exact stage_sends force start kill past _ _ stage taken
  | unreachable => exact stage_sends force start kill past _ _ stage taken
  | escalates => exact stage_sends force start kill past _ _ stage taken
  | misses => exact stage_sends force start kill past _ _ stage taken
  | polls waiting honest moved =>
    exact stage_polls force start kill past _ _ _ orderly ran stage waiting honest moved
  | pollsAgain waiting honest moved =>
    exact stage_polls_again force start kill past _ _ _ orderly ran stage waiting honest moved

theorem machine_step (next : Kill) (event : KillEvent) (orderly : Orderly kill.machine)
    (taken : kill.step force event = some next) : Orderly next.machine := by
  cases kill_step_cases force kill next event taken with
  | world moved => exact orderly_step kill.machine _ _ orderly moved
  | _ => exact orderly

end Stages

/-- What `kill` promises, whatever the daemons of the name do meanwhile. -/
structure Kills (force : Bool) (start : Kill) (events : List KillEvent) (last : Kill) : Prop where
  escalates : Escalates force last.sent
  looks : events.countP isLook ≤ if force then 21 else 72
  ended : ∀ outcome, last.phase = .returned outcome → Ended force start events last.sent outcome

theorem kill_is_honest (force : Bool) (history : List MachineEvent) (machine : Machine)
    (now : Nat) (last : Kill) (events : List KillEvent)
    (reached : run Machine.step Machine.initial history = some machine)
    (ran : run (Kill.step force) (Kill.start machine now) events = some last) :
    Kills force (Kill.start machine now) events last := by
  have kept := run_history_invariant (Kill.step force)
    (fun past kill => run (Kill.step force) (Kill.start machine now) past = some kill ∧
      Orderly kill.machine ∧ Stage force (Kill.start machine now) past kill ∧
        Escalates force kill.sent) ?_ [] events (Kill.start machine now) last
    ⟨rfl, orderly_run machine history reached, .sending rfl rfl rfl, ⟨List.nil_prefix, nofun⟩⟩ ran
  · obtain ⟨_, _, stage, escalates⟩ := kept
    refine ⟨escalates, ?_, ?_⟩
    · cases stage with
      | sending _ _ looks => exact Nat.le_trans (Nat.le_of_eq looks) (Nat.zero_le _)
      | waiting _ timely timeout once opened looks =>
        have few := looks_bounded period last.now _ timely
        rw [timeout] at few
        rw [List.nil_append] at looks
        rw [looks]
        exact (looks_limited force _ few).2
      | escalating _ gentle once grace looks =>
        subst gentle
        exact Nat.le_trans looks (by decide)
      | waitingAgain _ timely timeout gentle again grace begun looks =>
        subst gentle
        have few := looks_bounded period last.now _ timely
        rw [timeout, period] at few
        rw [List.nil_append] at looks
        simp only [Bool.false_eq_true, if_false]
        omega
      | returned _ ended looks => exact looks
    · intro outcome ceased
      cases stage with
      | returned phase ended looks =>
        rw [ceased] at phase
        cases phase
        exact ended
      | sending phase => rw [ceased] at phase; cases phase
      | waiting phase => rw [ceased] at phase; cases phase
      | escalating phase => rw [ceased] at phase; cases phase
      | waitingAgain phase => rw [ceased] at phase; cases phase
  · rintro past kill event next ⟨so_far, orderly, stage, escalates⟩ taken
    refine ⟨?_, machine_step force kill next event orderly taken,
      stage_step force _ kill past next event orderly so_far stage taken,
      escalates_step force _ kill past next event stage escalates taken⟩
    rw [run_append, so_far, Option.bind_some, run, taken, Option.bind_some]
    rfl

/-- A daemon that starts, and one that does not react to the first signal. -/
def deafDaemon : List MachineEvent :=
  [.launch 7, .startUp 7 true, .startUp 7 true, .startUp 7 true, .startUp 7 true]

def killsDeaf : List KillEvent :=
  [.sends (.ok ()), .passes 5000, .polls .chooses, .polls (.looks false), .sends (.ok ()),
    .polls .chooses, .polls (.looks false), .world (.leave 7 0), .world (.unlink 7), .passes 100,
    .polls .wakes, .polls .chooses, .polls (.looks true)]

theorem kill_is_honest_deaf : ∃ machine last,
    run Machine.step Machine.initial deafDaemon = some machine ∧
      run (Kill.step false) (Kill.start machine 0) killsDeaf = some last ∧
      last.phase = .returned .killed ∧ last.sent = [⟨0, 7, 15⟩, ⟨5000, 7, 9⟩] ∧
      Kills false (Kill.start machine 0) killsDeaf last := by
  refine ⟨_, _, rfl, rfl, rfl, rfl, ?_⟩
  exact kill_is_honest false deafDaemon _ 0 _ killsDeaf rfl rfl

end Hytch.KillCommand
