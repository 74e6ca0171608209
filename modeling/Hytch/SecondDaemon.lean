import Hytch.DaemonLifecycle
import Hytch.LogWriter

/-!
A second `run` for a session that is already being served. The first daemon
goes on logging through its own open file while the second creates the
directory, launches its program, opens and rotates the log under its own cap,
and only then tries to bind. Both move one system call at a time on one file,
each with a cursor of its own.
-/

namespace Hytch.SecondDaemon

open FilePrograms DaemonLifecycle Runs

/-- What the second run is given and what its own system calls answer. -/
structure Config where
  cap : Nat
  createDirAll : Except IoError Unit
  ptySpawn : Except IoError Unit
  openFile : Except IoError Unit

inductive SecondRun where
  | creatingDir
  | spawningProgram
  | openingLog
  | rotatingLog (call : FileTask UInt8 IoError SessionLog) (cursor : Nat)
  | binding
  | serving
  | failed (fault : IoError)
  | panicked

structure Contest where
  /-- Its file holds the bytes of the log. -/
  first : LogWriter UInt8
  node : Node
  second : SecondRun
  launched : Bool

inductive ContestEvent where
  | send (chunk : List UInt8)
  | writer (event : WriterEvent)
  | unlink
  /-- The second run goes on; `count` is what a system call of it moves. -/
  | second (count : Nat)
  | secondWriteFails (fault : IoError)

def ContestEvent.ofFirst : ContestEvent → Bool
  | .send _ => true
  | .writer _ => true
  | .unlink => true
  | _ => false

def addrInUse : IoError :=
  { kind := .addrInUse, message := "Address already in use (os error 98)" }

namespace Contest

/-- The first daemon is bound as `owner`; the second one starts. -/
def start (first : LogWriter UInt8) (owner : Nat) : Contest :=
  { first := first, node := .socket owner, second := .creatingDir, launched := false }

/-- `?` after each step: an error is returned to the caller. -/
def onSecond (contest : Contest) (next : SecondRun) : Except IoError Unit → Contest
  | .ok () => { contest with second := next }
  | .error fault => { contest with second := .failed fault }

def stepSecond (config : Config) (pid count : Nat) (contest : Contest) : Option Contest :=
  match contest.second with
  | .creatingDir => some (contest.onSecond .spawningProgram config.createDirAll)
  | .spawningProgram =>
      match config.ptySpawn with
      | .ok () => some { contest with second := .openingLog, launched := true }
      | .error fault => some { contest with second := .failed fault }
  | .openingLog =>
      some (contest.onSecond (.rotatingLog (SessionLog.openLog id config.cap) 0) config.openFile)
  | .rotatingLog (.done (.ok _)) _ => some { contest with second := .binding }
  | .rotatingLog (.done (.error fault)) _ => some { contest with second := .failed fault }
  | .rotatingLog .panicked _ => some { contest with second := .panicked }
  | .rotatingLog call cursor =>
      (call.step { content := contest.first.file.content, cursor := cursor } count).map
        fun (call, file) =>
          { contest with
            first := { contest.first with file := { contest.first.file with content := file.content } }
            second := .rotatingLog call file.cursor }
  | .binding =>
      if contest.node = .absent then some { contest with node := .socket pid, second := .serving }
      else some { contest with second := .failed addrInUse }
  | _ => none

def step (config : Config) (pid : Nat) (contest : Contest) : ContestEvent → Option Contest
  | .send chunk => some { contest with first := contest.first.send chunk }
  | .writer event =>
      (contest.first.step id event).map fun first => { contest with first := first }
  | .unlink => some { contest with node := .absent }
  | .second count => contest.stepSecond config pid count
  | .secondWriteFails fault =>
      match contest.second with
      | .rotatingLog call cursor =>
          (call.fail fault).map fun call => { contest with second := .rotatingLog call cursor }
      | _ => none

end Contest

/-- How far the second run is, in the phases of a daemon's start-up. -/
def SecondRun.phase : SecondRun → Phase
  | .creatingDir => .creatingDir
  | .spawningProgram => .spawningProgram
  | .openingLog => .openingLog
  | .rotatingLog _ _ => .openingLog
  | .binding => .binding
  | .serving => .serving
  | .failed _ => .exited (.code 1)
  | .panicked => .exited (.code 101)

/-- The second run leaves the first session as it is without it: no program is
launched, socket and log are what the first daemon alone makes of them, and the
second run can only end in an error. -/
def IsNoOp (config : Config) (pid : Nat) (start : Contest) : Prop :=
  ∀ events last, run (Contest.step config pid) start events = some last →
    last.launched = false ∧
    (∃ alone, run (Contest.step config pid) start (events.filter ContestEvent.ofFirst) = some alone ∧
      last.node = alone.node ∧ last.first.file.content = alone.first.file.content) ∧
    ∃ rest ended fault, (∀ event ∈ rest, event.ofFirst = false) ∧
      run (Contest.step config pid) last rest = some ended ∧ ended.second = .failed fault

/-- Each step of the second run is one of the start-up, or part of its rotation. -/
theorem second_starts_up (config : Config) (pid count : Nat) (contest next : Contest)
    (taken : contest.stepSecond config pid count = some next) :
    (next.second.phase = contest.second.phase ∧ next.node = contest.node) ∨
      next.second = .panicked ∨
      ∃ succeeds, startUp pid contest.node succeeds contest.second.phase =
        some (next.second.phase, next.node) := by
  cases phase : contest.second with
  | creatingDir =>
    refine .inr (.inr ?_)
    cases answer : config.createDirAll with
    | ok value =>
      simp only [Contest.stepSecond, phase, answer, Contest.onSecond, Option.some.injEq] at taken
      exact ⟨true, by rw [← taken]; rfl⟩
    | error fault =>
      simp only [Contest.stepSecond, phase, answer, Contest.onSecond, Option.some.injEq] at taken
      exact ⟨false, by rw [← taken]; rfl⟩
  | spawningProgram =>
    refine .inr (.inr ?_)
    cases answer : config.ptySpawn with
    | ok value =>
      simp only [Contest.stepSecond, phase, answer, Option.some.injEq] at taken
      exact ⟨true, by rw [← taken]; rfl⟩
    | error fault =>
      simp only [Contest.stepSecond, phase, answer, Option.some.injEq] at taken
      exact ⟨false, by rw [← taken]; rfl⟩
  | openingLog =>
    cases answer : config.openFile with
    | ok value =>
      simp only [Contest.stepSecond, phase, answer, Contest.onSecond, Option.some.injEq] at taken
      exact .inl (by rw [← taken]; exact ⟨rfl, rfl⟩)
    | error fault =>
      simp only [Contest.stepSecond, phase, answer, Contest.onSecond, Option.some.injEq] at taken
      exact .inr (.inr ⟨false, by rw [← taken]; rfl⟩)
  | rotatingLog call cursor =>
    cases call with
    | done result =>
      refine .inr (.inr ?_)
      cases result with
      | ok log =>
        simp only [Contest.stepSecond, phase, Option.some.injEq] at taken
        exact ⟨true, by rw [← taken]; rfl⟩
      | error fault =>
        simp only [Contest.stepSecond, phase, Option.some.injEq] at taken
        exact ⟨false, by rw [← taken]; rfl⟩
    | panicked =>
      simp only [Contest.stepSecond, phase, Option.some.injEq] at taken
      exact .inr (.inl (by rw [← taken]))
    | call operation rest =>
      simp only [Contest.stepSecond, phase] at taken
      obtain ⟨moved, _, rfl⟩ := Option.map_eq_some_iff.mp taken
      exact .inl ⟨rfl, rfl⟩
  | binding =>
    refine .inr (.inr ?_)
    simp only [Contest.stepSecond, phase] at taken
    split at taken
    · rename_i free
      cases taken
      exact ⟨true, by simp [startUp, SecondRun.phase, free]⟩
    · cases taken
      exact ⟨false, by simp [startUp, SecondRun.phase]⟩
  | serving => simp [Contest.stepSecond, phase] at taken
  | failed fault => simp [Contest.stepSecond, phase] at taken
  | panicked => simp [Contest.stepSecond, phase] at taken

/-- The second run gives up before it launches its program. -/
def GivesUp (config : Config) : Prop :=
  (∃ fault, config.createDirAll = .error fault) ∨ ∃ fault, config.ptySpawn = .error fault

inductive Unlaunched (config : Config) (contest : Contest) : Prop where
  | creatingDir (phase : contest.second = .creatingDir) (launched : contest.launched = false)
  | spawning {fault : IoError} (phase : contest.second = .spawningProgram)
      (launched : contest.launched = false) (fails : config.ptySpawn = .error fault)
  | failed {fault : IoError} (phase : contest.second = .failed fault)
      (launched : contest.launched = false)

section GivingUp

variable (config : Config) (pid : Nat)

theorem first_step_alone (contest next : Contest) (event : ContestEvent) (second : SecondRun)
    (own : event.ofFirst = true) (taken : contest.step config pid event = some next) :
    next.second = contest.second ∧ next.launched = contest.launched ∧
      Contest.step config pid { contest with second := second } event =
        some { next with second := second } := by
  cases event with
  | send chunk =>
    cases taken
    exact ⟨rfl, rfl, rfl⟩
  | writer event =>
    simp only [Contest.step] at taken ⊢
    obtain ⟨first, moved, rfl⟩ := Option.map_eq_some_iff.mp taken
    exact ⟨rfl, rfl, by rw [moved]; rfl⟩
  | unlink =>
    cases taken
    exact ⟨rfl, rfl, rfl⟩
  | second count => cases own
  | secondWriteFails fault => cases own

/-- A second run that gives up touches nothing of the first session. -/
theorem giving_up_step (contest next : Contest) (event : ContestEvent) (givesUp : GivesUp config)
    (unlaunched : Unlaunched config contest) (others : event.ofFirst = false)
    (taken : contest.step config pid event = some next) :
    Unlaunched config next ∧ ∃ second, next = { contest with second := second } := by
  cases event with
  | send chunk => cases others
  | writer event => cases others
  | unlink => cases others
  | secondWriteFails fault =>
    cases unlaunched with
    | creatingDir phase launched => simp [Contest.step, phase] at taken
    | spawning phase launched fails => simp [Contest.step, phase] at taken
    | failed phase launched => simp [Contest.step, phase] at taken
  | second count =>
    simp only [Contest.step] at taken
    cases unlaunched with
    | creatingDir phase launched =>
      cases answer : config.createDirAll with
      | ok value =>
        simp only [Contest.stepSecond, phase, answer, Contest.onSecond, Option.some.injEq] at taken
        subst taken
        rcases givesUp with ⟨fault, fails⟩ | ⟨fault, fails⟩
        · rw [answer] at fails
          cases fails
        · exact ⟨.spawning rfl launched fails, _, rfl⟩
      | error fault =>
        simp only [Contest.stepSecond, phase, answer, Contest.onSecond, Option.some.injEq] at taken
        subst taken
        exact ⟨.failed rfl launched, _, rfl⟩
    | spawning phase launched fails =>
      simp only [Contest.stepSecond, phase, fails, Option.some.injEq] at taken
      subst taken
      exact ⟨.failed rfl launched, _, rfl⟩
    | failed phase launched => simp [Contest.stepSecond, phase] at taken

theorem giving_up_run (start last : Contest) (events : List ContestEvent) (givesUp : GivesUp config)
    (unlaunched : Unlaunched config start)
    (ran : run (Contest.step config pid) start events = some last) :
    Unlaunched config last ∧
      run (Contest.step config pid) start (events.filter ContestEvent.ofFirst) =
        some { last with second := start.second } := by
  refine run_history_invariant (Contest.step config pid)
    (fun past state => Unlaunched config state ∧
      run (Contest.step config pid) start (past.filter ContestEvent.ofFirst) =
        some { state with second := start.second }) ?_ [] events start last ⟨unlaunched, rfl⟩ ran
  rintro past state event next ⟨kept, alone⟩ taken
  rw [List.filter_append, run_append, alone, Option.bind_some]
  by_cases own : event.ofFirst = true
  · obtain ⟨second, launched, also⟩ := first_step_alone config pid state next event start.second own taken
    refine ⟨?_, by simp [own, run, also]⟩
    cases kept with
    | creatingDir phase quiet => exact .creatingDir (second.trans phase) (launched.trans quiet)
    | spawning phase quiet fails => exact .spawning (second.trans phase) (launched.trans quiet) fails
    | failed phase quiet => exact .failed (second.trans phase) (launched.trans quiet)
  · obtain ⟨stays, second, rfl⟩ := giving_up_step config pid state next event givesUp kept
      (by simpa using own) taken
    exact ⟨stays, by simp [own, run]⟩

theorem giving_up_ends (contest : Contest) (givesUp : GivesUp config)
    (unlaunched : Unlaunched config contest) :
    ∃ rest ended fault, (∀ event ∈ rest, event.ofFirst = false) ∧
      run (Contest.step config pid) contest rest = some ended ∧ ended.second = .failed fault := by
  cases unlaunched with
  | @failed fault phase launched => exact ⟨[], contest, fault, by simp, rfl, phase⟩
  | @spawning fault phase launched fails =>
    refine ⟨[.second 0], { contest with second := .failed fault }, fault, by simp [ContestEvent.ofFirst],
      ?_, rfl⟩
    simp [run, Contest.step, Contest.stepSecond, phase, fails]
  | creatingDir phase launched =>
    cases answer : config.createDirAll with
    | error fault =>
      refine ⟨[.second 0], { contest with second := .failed fault }, fault,
        by simp [ContestEvent.ofFirst], ?_, rfl⟩
      simp [run, Contest.step, Contest.stepSecond, phase, answer, Contest.onSecond]
    | ok value =>
      rcases givesUp with ⟨fault, fails⟩ | ⟨fault, fails⟩
      · rw [answer] at fails
        cases fails
      · refine ⟨[.second 0, .second 0], { contest with second := .failed fault }, fault,
          by simp [ContestEvent.ofFirst], ?_, rfl⟩
        simp [run, Contest.step, Contest.stepSecond, phase, answer, fails, Contest.onSecond]

end GivingUp

/-- Starting a session that is already running leaves it as it is exactly when
the second run gives up before its program is launched. -/
theorem second_run_no_op_iff (config : Config) (pid owner : Nat) (first : LogWriter UInt8) :
    IsNoOp config pid (Contest.start first owner) ↔ GivesUp config := by
  constructor
  · intro noOp
    by_contra goesOn
    rw [GivesUp, not_or] at goesOn
    obtain ⟨created, launches⟩ := goesOn
    cases dir : config.createDirAll with
    | error fault => exact created ⟨fault, dir⟩
    | ok value =>
      cases spawned : config.ptySpawn with
      | error fault => exact launches ⟨fault, spawned⟩
      | ok value =>
        have ran : run (Contest.step config pid) (Contest.start first owner) [.second 0, .second 0] =
            some { Contest.start first owner with second := .openingLog, launched := true } := by
          simp [run, Contest.step, Contest.stepSecond, Contest.start, Contest.onSecond, dir, spawned]
        have launched := (noOp _ _ ran).1
        cases launched
  · intro givesUp events last ran
    obtain ⟨unlaunched, alone⟩ := giving_up_run config pid _ last events givesUp
      (.creatingDir rfl rfl) ran
    refine ⟨?_, ⟨_, alone, rfl, rfl⟩, giving_up_ends config pid last givesUp unlaunched⟩
    cases unlaunched <;> assumption

/-- Three bytes are logged; the second run comes with a cap of one. -/
def logging : LogWriter UInt8 where
  file := atEnd [0x61, 0x62, 0x63]
  thread := .waiting { maxSize := 8, currentSize := 3 }
  queue := []

def smallCap : Config :=
  { cap := 1, createDirAll := .ok (), ptySpawn := .ok (), openFile := .ok () }

/-- The second run up to its failed bind, with one more byte logged by the first daemon. -/
def trimmedUnderneath : List ContestEvent :=
  [.second 0, .second 0, .second 0, .second 0, .second 0, .second 3, .second 0, .second 0, .second 1,
    .second 0, .second 0, .second 0, .second 0, .second 0, .send [0x64], .writer .receive,
    .writer (.systemCall 1), .writer (.systemCall 0), .writer .returned]

theorem second_run_trims_log :
    ∃ last, run (Contest.step smallCap 2) (Contest.start logging 1) trimmedUnderneath = some last ∧
      last.launched = true ∧ last.second = .failed addrInUse ∧
      last.first.file.content = [0x63, 0, 0, 0x64] ∧
      ¬ IsNoOp smallCap 2 (Contest.start logging 1) := by
  refine ⟨_, rfl, rfl, rfl, by decide +kernel, ?_⟩
  intro noOp
  have launched := (noOp trimmedUnderneath _ rfl).1
  cases launched

end Hytch.SecondDaemon
