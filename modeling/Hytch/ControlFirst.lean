import Hytch.DaemonRun

/-!
Commands in the control channel. They overtake every push, and while the loop
runs it comes back to them after at most the one write it is in. Whether it
still runs is another matter: it ends at the end of the pty output, which is not
the end of the child.
-/

namespace Hytch.ControlFirst

open HandleClient DaemonRun Runs

/-- The bytes of the write in progress the pty has not taken yet. -/
def unwritten : LoopPhase → List UInt8
  | .writing _ rest => rest
  | _ => []

/-- Since `here` only commands were taken, and the pty got no other input than
that of the write in progress then. -/
structure OnlyCommands (here state : Daemon) : Prop where
  taken : ∃ commands : List ControlCommand, state.taken = here.taken ++ commands.map Taken.command
  input : ∃ piece, state.pty.input = here.pty.input ++ piece ∧
    piece ++ unwritten state.phase <+: unwritten here.phase

theorem only_commands_refl (here : Daemon) : OnlyCommands here here :=
  ⟨⟨[], by simp⟩, [], by simp, List.prefix_refl _⟩

theorem only_commands_step (here state next : Daemon) (event : DaemonEvent)
    (pending : state.hub.controlQueue ≠ []) (only : OnlyCommands here state)
    (taken : state.step event = some next) : OnlyCommands here next := by
  obtain ⟨⟨commands, entries⟩, piece, input, inside⟩ := only
  -- what is left of the write can only become less
  have moved (phase : LoopPhase) (less : unwritten phase <+: unwritten state.phase) :
      piece ++ unwritten phase <+: unwritten here.phase :=
    ((List.prefix_append_right_inj piece).mpr less).trans inside
  cases daemon_step_cases state next event taken with
  | outside kind same alive => exact ⟨⟨commands, entries⟩, piece, same.trans input, inside⟩
  | task own awaits stepped => exact ⟨⟨commands, entries⟩, piece, input, inside⟩
  | @command count command rest hub selecting queue stepped =>
    exact ⟨⟨commands ++ [command], by simp [entries]⟩, piece, input, inside⟩
  | read selecting quiet bound pushed => exact absurd quiet pending
  | ended selecting quiet nothing closed => exact absurd quiet pending
  | accept selecting quiet waiting accepted => exact absurd quiet pending
  | push selecting quiet queue stepped => exact absurd quiet pending
  | signaled selecting quiet signal => exact absurd quiet pending
  | handOff waiting => exact ⟨⟨commands, entries⟩, piece, input, moved _ List.nil_prefix⟩
  | @ptyWrite count payload rest writing bound =>
    refine ⟨⟨commands, entries⟩, piece ++ rest.take count, ?_, ?_⟩
    · rw [input, List.append_assoc]
    · rw [writing] at inside
      simpa [unwritten] using inside
  | writeEnds writing ends => exact ⟨⟨commands, entries⟩, piece, input, moved _ List.nil_prefix⟩
  | reaped waiting dead => exact ⟨⟨commands, entries⟩, piece, input, moved _ List.nil_prefix⟩
  | marked leaving logging => exact ⟨⟨commands, entries⟩, piece, input, moved _ List.nil_prefix⟩
  | unmarked leaving silent => exact ⟨⟨commands, entries⟩, piece, input, moved _ List.nil_prefix⟩
  | joined draining ended => exact ⟨⟨commands, entries⟩, piece, input, moved _ List.nil_prefix⟩
  | unlinked unlinking stopped =>
    exact ⟨⟨commands, entries⟩, piece, input, moved _ List.nil_prefix⟩
  | writer stepped => exact ⟨⟨commands, entries⟩, piece, input, inside⟩

theorem pending_command (daemon : Daemon) (index : Nat) (channels : Channels daemon)
    (isOpen : Open daemon) (put : index < (commandsPut daemon.enqueued).length)
    (pending : (commandsTaken daemon.taken).length ≤ index) :
    daemon.hub.controlQueue ≠ [] ∨ ∃ reason, daemon.phase = .returned reason := by
  cases channels with
  | serving on control push =>
    left
    intro nothing
    rw [control, nothing, List.append_nil] at put
    exact absurd put (Nat.not_lt.mpr pending)
  | dropped off noControl noPush control push =>
    rcases isOpen with on | returned
    · rw [off] at on
      cases on
    · exact .inr returned

/-- From the moment a command is in the channel until it is applied the loop
starts nothing but commands. -/
theorem control_overtakes (scrollback : Nat) (content : List UInt8) (logging : Option Nat)
    (start here last : Daemon) (earlier later : List DaemonEvent)
    (started : Daemon.start scrollback content logging = some start)
    (ran : run Daemon.step start earlier = some here)
    (continued : run Daemon.step here later = some last) :
    commandsTaken last.taken <+: commandsPut last.enqueued ∧
      ∀ index, index < (commandsPut here.enqueued).length →
        (commandsTaken last.taken).length ≤ index → OnlyCommands here last := by
  obtain ⟨channels, isOpen⟩ := channels_run scrollback content logging start here earlier started ran
  constructor
  · have whole : run Daemon.step start (earlier ++ later) = some last := by
      rw [run_append, ran, Option.bind_some, continued]
    cases (channels_run scrollback content logging start last _ started whole).1 with
    | serving on control push => exact control ▸ List.prefix_append _ _
    | dropped off noControl noPush control push => exact control
  · intro index put
    have kept := run_invariant Daemon.step
      (fun state => (Channels state ∧ Open state) ∧ index < (commandsPut state.enqueued).length ∧
        ((commandsTaken state.taken).length ≤ index → OnlyCommands here state)) ?_ here last later
      ⟨⟨channels, isOpen⟩, put, fun _ => only_commands_refl here⟩ continued
    · exact kept.2.2
    · rintro state event next ⟨⟨channels, isOpen⟩, put, only⟩ taken
      obtain ⟨put_grows, taken_grows⟩ := records_grow state next event taken
      have more_put := (commands_put_grow _ _ put_grows).length_le
      have more_taken := (commands_taken_grow _ _ taken_grows).length_le
      refine ⟨⟨channels_step state next event channels taken, open_step state next event isOpen taken⟩,
        Nat.lt_of_lt_of_le put more_put, ?_⟩
      intro pending
      have before := Nat.le_trans more_taken pending
      rcases pending_command state index channels isOpen put before with waiting | ⟨reason, phase⟩
      · exact only_commands_step here state next event waiting (only before) taken
      · have same := after_return state next event reason phase taken
        obtain ⟨entries, piece, input, inside⟩ := only before
        exact ⟨by rwa [same.taken], piece, same.input.trans input, by rwa [same.phase]⟩

/-- One client's push is half written when its resize comes in. -/
def halfWritten : List DaemonEvent :=
  [.connects 0, .select 0, .task (.input 0 (.frame (.push [0x61, 0x62]))), .task (.enqueue 0), .select 0,
    .ptyWrite 1, .task (.input 0 (.frame (.winch 24 80))), .task (.enqueue 0)]

theorem control_overtakes_half_written : ∃ here last, Daemon.start 8 [] none = some idle ∧
    run Daemon.step idle halfWritten = some here ∧
    run Daemon.step here [.ptyWrite 1, .writeEnds .completed] = some last ∧
      commandsPut here.enqueued = [.resize 24 80] ∧ commandsTaken last.taken = [] ∧
      (commandsTaken last.taken <+: commandsPut last.enqueued ∧
        ∀ index, index < (commandsPut here.enqueued).length →
          (commandsTaken last.taken).length ≤ index → OnlyCommands here last) := by
  refine ⟨_, _, start_idle, rfl, rfl, rfl, rfl, ?_⟩
  exact control_overtakes 8 [] none idle _ _ halfWritten [.ptyWrite 1, .writeEnds .completed] start_idle
    rfl rfl

/-- The step by which the loop comes back to its select, when it is not there. -/
def finishing : LoopPhase → List DaemonEvent
  | .handingOff _ => [.handOff]
  | .writing _ rest => [.writeEnds (if rest.isEmpty then .completed else .timedOut)]
  | _ => []

def withCommands (daemon : Daemon) (arriving : List ControlCommand) : Daemon :=
  { daemon with hub :=
      { daemon.hub with controlQueue := daemon.hub.controlQueue ++ arriving } }

/-- Whatever commands are in the channel, or come into it now, the loop applies
them, after at most the write it is in. -/
def Heeds (daemon : Daemon) : Prop :=
  ∀ arriving, ∃ last,
    run Daemon.step (withCommands daemon arriving) (finishing daemon.phase ++
      List.replicate (daemon.hub.controlQueue ++ arriving).length (.select 0)) = some last ∧
    commandsTaken last.taken =
      commandsTaken daemon.taken ++ (daemon.hub.controlQueue ++ arriving)

def StaysWithChild (daemon : Daemon) : DaemonEvent → Prop
  | .select _ => daemon.pty.alive = true →
      (daemon.pick = some .read → daemon.pty.output ≠ []) ∧
        daemon.pick ≠ some .sigterm ∧ daemon.pick ≠ some .sigint
  | _ => True

theorem selects_commands (daemon : Daemon) (commands : List ControlCommand)
    (selecting : daemon.phase = .selecting) (queue : daemon.hub.controlQueue = commands) :
    ∃ last, run Daemon.step daemon (List.replicate commands.length (.select 0)) = some last ∧
      commandsTaken last.taken = commandsTaken daemon.taken ++ commands := by
  induction commands generalizing daemon with
  | nil => exact ⟨daemon, rfl, (List.append_nil _).symm⟩
  | cons command rest ih =>
    let next : Daemon := { daemon with
      hub := { daemon.hub with controlQueue := rest }, taken := daemon.taken ++ [.command command] }
    have taken : daemon.step (.select 0) = some next := by
      have picked := pick_control daemon (by simp [queue])
      simp [Daemon.step, selecting, Daemon.select, picked, Daemon.onControl, queue, Hub.step, next]
    obtain ⟨last, ran, applied⟩ := ih next selecting rfl
    refine ⟨last, ?_, ?_⟩
    · rw [List.length_cons, List.replicate_succ, run, taken, Option.bind_some, ran]
    · rw [applied]
      simp [next, commandsTaken]

theorem looping_heeds (daemon : Daemon) (looping : daemon.phase.looping = true) : Heeds daemon := by
  intro arriving
  have finished (daemon : Daemon) (events : List DaemonEvent) (next : Daemon)
      (back : run Daemon.step daemon events = some next) (selecting : next.phase = .selecting)
      (hub : next.hub = daemon.hub) (same : next.taken = daemon.taken) :
      ∃ last, run Daemon.step daemon (events ++
          List.replicate daemon.hub.controlQueue.length (.select 0)) = some last ∧
        commandsTaken last.taken = commandsTaken daemon.taken ++ daemon.hub.controlQueue := by
    obtain ⟨last, ran, applied⟩ :=
      selects_commands next daemon.hub.controlQueue selecting (by rw [hub])
    exact ⟨last, by rw [run_append, back, Option.bind_some, ran], by rw [applied, same]⟩
  cases phase : daemon.phase with
  | selecting => exact finished (withCommands daemon arriving) [] _ rfl phase rfl rfl
  | handingOff chunk =>
    refine finished (withCommands daemon arriving) [.handOff]
      { withCommands daemon arriving with
        phase := .selecting
        writer := if daemon.logging then daemon.writer.send chunk else daemon.writer } ?_ rfl rfl rfl
    simp only [run, Daemon.step, withCommands, phase]
    rfl
  | writing payload rest =>
    let outcome : WriteOutcome := if rest.isEmpty then .completed else .timedOut
    have ends : Daemon.endsAs rest outcome = true := by
      cases rest <;> rfl
    refine finished (withCommands daemon arriving) [.writeEnds outcome]
      { withCommands daemon arriving with
        phase := .selecting
        written := daemon.written ++
          [{ payload := payload, delivered := payload.take (payload.length - rest.length)
             outcome := outcome }] } ?_ rfl rfl rfl
    simp [run, Daemon.step, withCommands, phase, ends]
  | waiting => simp [phase, LoopPhase.looping] at looping
  | leaving reason => simp [phase, LoopPhase.looping] at looping
  | draining reason => simp [phase, LoopPhase.looping] at looping
  | unlinking reason => simp [phase, LoopPhase.looping] at looping
  | returned reason => simp [phase, LoopPhase.looping] at looping

theorem left_deaf (daemon : Daemon) (stopped : daemon.phase.looping = false) : ¬ Heeds daemon := by
  intro heeds
  obtain ⟨last, ran, _⟩ := heeds [.signal .term]
  have nothing_to_finish : finishing daemon.phase = [] := by
    cases phase : daemon.phase with
    | handingOff chunk => simp [phase, LoopPhase.looping] at stopped
    | writing payload rest => simp [phase, LoopPhase.looping] at stopped
    | _ => rfl
  have elsewhere : daemon.phase ≠ .selecting := by
    intro selecting
    simp [selecting, LoopPhase.looping] at stopped
  rw [nothing_to_finish, List.nil_append, List.length_append, List.length_singleton,
    List.replicate_succ] at ran
  obtain ⟨next, taken, _⟩ := run_cons _ _ _ _ _ ran
  simp [Daemon.step, withCommands, elsewhere] at taken

theorem heeds_iff (daemon : Daemon) : Heeds daemon ↔ daemon.phase.looping = true := by
  constructor
  · intro heeds
    by_contra stopped
    exact left_deaf daemon (by simpa using stopped) heeds
  · exact looping_heeds daemon

theorem stays_looping (daemon next : Daemon) (event : DaemonEvent)
    (looping : daemon.pty.alive = true → daemon.phase.looping = true)
    (stays : StaysWithChild daemon event) (taken : daemon.step event = some next) :
    next.pty.alive = true → next.phase.looping = true := by
  have left (phase : LoopPhase) (same : daemon.phase = phase) (isOver : phase.looping = false) :
      daemon.pty.alive = true → next.phase.looping = true := by
    intro alive
    have still := looping alive
    rw [same, isOver] at still
    cases still
  cases daemon_step_cases daemon next event taken with
  | outside kind input alive => exact fun living => looping (alive living)
  | task own awaits moved => exact looping
  | command selecting queue moved => exact looping
  | read selecting quiet bound pushed => exact fun _ => rfl
  | ended selecting quiet nothing closed =>
    intro alive
    have picked : daemon.pick = some .read := by
      have first : daemon.ready .control = false := by simp [Daemon.ready, quiet]
      have second : daemon.ready .read = true := by simp [Daemon.ready, closed]
      simp [Daemon.pick, first, second]
    exact absurd nothing ((stays alive).1 picked)
  | accept selecting quiet waiting accepted => exact looping
  | push selecting quiet queue moved => exact fun _ => rfl
  | signaled selecting quiet signal =>
    intro alive
    obtain ⟨_, no_term, no_int⟩ := stays alive
    rcases signal with signal | signal
    · exact absurd signal no_term
    · exact absurd signal no_int
  | handOff pending => exact fun _ => rfl
  | ptyWrite writing bound => exact fun _ => rfl
  | writeEnds writing ends => exact fun _ => rfl
  | reaped waiting dead => exact left _ waiting rfl
  | marked leaving logging => exact left _ leaving rfl
  | unmarked leaving silent => exact left _ leaving rfl
  | joined draining ended => exact left _ draining rfl
  | unlinked unlinking stopped => exact left _ unlinking rfl
  | writer moved => exact looping

theorem leaves_child (daemon next : Daemon) (event : DaemonEvent)
    (leaves : ¬ StaysWithChild daemon event) (taken : daemon.step event = some next) :
    next.pty.alive = true ∧ next.phase.looping = false ∧ ∀ reason, next.phase ≠ .returned reason := by
  cases event with
  | select count =>
    simp only [StaysWithChild, Classical.not_imp, not_and_or, not_not] at leaves
    obtain ⟨alive, ended | term | int⟩ := leaves
    · obtain ⟨picked, nothing⟩ := ended
      simp only [Daemon.step] at taken
      split at taken
      · simp only [Daemon.select, picked, Daemon.onRead, if_pos nothing, Option.some.injEq] at taken
        subst taken
        exact ⟨alive, rfl, fun reason other => by cases other⟩
      · cases taken
    · simp only [Daemon.step] at taken
      split at taken
      · simp only [Daemon.select, term, Option.some.injEq] at taken
        subst taken
        exact ⟨alive, rfl, fun reason other => by cases other⟩
      · cases taken
    · simp only [Daemon.step] at taken
      split at taken
      · simp only [Daemon.select, int, Option.some.injEq] at taken
        subst taken
        exact ⟨alive, rfl, fun reason other => by cases other⟩
      · cases taken
  | _ => exact absurd trivial leaves

/-- Until `run` returns, commands are heeded while the child lives. -/
def HeedsWhileAlive (daemon : Daemon) : Prop :=
  (∀ reason, daemon.phase ≠ .returned reason) → daemon.pty.alive = true → Heeds daemon

def NeverDeaf (start : Daemon) (events : List DaemonEvent) : Prop :=
  Throughout Daemon.step HeedsWhileAlive start events

theorem heeds_turns (daemon next : Daemon) (event : DaemonEvent) (heeds : HeedsWhileAlive daemon)
    (taken : daemon.step event = some next) :
    HeedsWhileAlive next ↔ StaysWithChild daemon event := by
  by_cases stays : StaysWithChild daemon event
  · refine iff_of_true ?_ stays
    intro running alive
    have before : ∀ reason, daemon.phase ≠ .returned reason := by
      intro reason phase
      exact running reason ((after_return daemon next event reason phase taken).phase.trans phase)
    have looping (living : daemon.pty.alive = true) : daemon.phase.looping = true :=
      (heeds_iff daemon).mp (heeds before living)
    exact looping_heeds next (stays_looping daemon next event looping stays taken alive)
  · refine iff_of_false ?_ stays
    obtain ⟨alive, left, running⟩ := leaves_child daemon next event stays taken
    intro kept
    exact left_deaf next left (kept running alive)

/-- The daemon stays within reach of a kill while the child lives exactly in the
runs whose steps do not leave the loop before the child is dead. -/
theorem heeds_while_alive_iff (scrollback : Nat) (content : List UInt8) (logging : Option Nat)
    (start last : Daemon) (events : List DaemonEvent)
    (started : Daemon.start scrollback content logging = some start)
    (ran : run Daemon.step start events = some last) :
    NeverDeaf start events ↔ Meets Daemon.step StaysWithChild start events := by
  have initial : HeedsWhileAlive start := by
    obtain ⟨hub, writer, _, _, rfl⟩ := start_cases scrollback content logging start started
    exact fun _ _ => looping_heeds _ rfl
  exact throughout_iff_meets_step Daemon.step HeedsWhileAlive StaysWithChild
    (fun state event next heeds taken => heeds_turns state next event heeds taken)
    start last events initial ran

theorem heeds_while_alive_kill : ∃ last, Daemon.start 8 [] none = some idle ∧
    run Daemon.step idle [.childWrites [0x61], .select 1, .handOff, .childExits, .slave false,
      .select 0] = some last ∧ last.phase = .waiting ∧
      (NeverDeaf idle [.childWrites [0x61], .select 1, .handOff, .childExits, .slave false, .select 0] ↔
        Meets Daemon.step StaysWithChild idle
          [.childWrites [0x61], .select 1, .handOff, .childExits, .slave false, .select 0]) := by
  refine ⟨_, start_idle, rfl, rfl, ?_⟩
  exact heeds_while_alive_iff 8 [] none idle _ _ start_idle rfl

/-- The child closes its side of the pty and keeps running. -/
theorem deaf_behind_closed_pty : ∃ last, Daemon.start 8 [] none = some idle ∧
    run Daemon.step idle [.slave false, .select 0] = some last ∧
      last.phase = .waiting ∧ last.pty.alive = true ∧ ¬ Heeds last ∧
      ¬ NeverDeaf idle [.slave false, .select 0] := by
  refine ⟨_, start_idle, rfl, rfl, rfl, left_deaf _ rfl, ?_⟩
  intro never
  exact left_deaf _ rfl (never _ _ (List.prefix_refl _) rfl (fun reason other => by cases other) rfl)

end Hytch.ControlFirst
