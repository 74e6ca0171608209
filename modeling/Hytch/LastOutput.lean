import Hytch.DaemonRun

/-!
What an attached client has been sent when the process exits. Output goes to
each client through its own receiver, which its own task drains; `run` waits for
the log writer and for nobody else. At every moment the bytes on the socket, the
rest of the write in progress and the messages still in the receiver add up to
all the output since the Attach.
-/

namespace Hytch.LastOutput

open BoundedTail BroadcastChannel HandleClient Attachments DaemonRun Runs

/-- The receiver a client's task reads from, also before it is `attached`. -/
def receiver (client : Client UInt8) : Option Receiver :=
  match client.activity with
  | .writingSnapshot _ rx => some rx
  | _ => client.attached

def unread (fanout : Fanout UInt8) (client : Client UInt8) : List (List UInt8) :=
  match receiver client with
  | some rx => fanout.tx.sent.drop rx.next
  | none => []

def unsent (client : Client UInt8) : List UInt8 :=
  match client.activity with
  | .writingSnapshot rest _ => rest
  | .writingLive rest => rest
  | _ => []

def CaughtUp (fanout : Fanout UInt8) (client : Client UInt8) : Prop :=
  unread fanout client = [] ∧ unsent client = []

theorem delivered_rest (tx : Channel (List UInt8)) (start : Nat) (rx : Receiver)
    (subscribed : start ≤ rx.next) (known : rx.next ≤ tx.sent.length) :
    tx.delivered start rx ++ tx.sent.drop rx.next = tx.sent.drop start := by
  have front : (tx.sent.take rx.next).length = rx.next := by
    rw [List.length_take, Nat.min_eq_left known]
  rw [Channel.delivered, ← List.drop_append_of_le_length (by omega), List.take_append_drop]

/-- Socket, pending bytes and unread messages are the whole output since the Attach. -/
theorem progress_accounts (fanout : Fanout UInt8) (start : Nat) (lead before : List UInt8)
    (client : Client UInt8) (progress : Progress fanout.tx start lead before client)
    (running : client.activity ≠ .returned) :
    client.socket ++ (unsent client ++ (unread fanout client).flatten) =
      before ++ (lead ++ (fanout.tx.sent.drop start).flatten) := by
  cases progress with
  | replaying position split =>
    simp only [unsent, unread, receiver, position]
    rw [← split]
    simp only [List.append_assoc]
  | @following rx activity idle subscribed known =>
    have rest := congrArg List.flatten (delivered_rest fanout.tx start rx subscribed known)
    rw [List.flatten_append] at rest
    rw [← rest]
    rcases idle with rfl | ⟨item, rfl⟩ <;> simp [unsent, unread, receiver]
  | @writing rx written rest subscribed known split =>
    have later := congrArg List.flatten (delivered_rest fanout.tx start rx subscribed known)
    rw [List.flatten_append] at later
    rw [← later, ← List.append_assoc lead, ← split]
    simp [unsent, unread, receiver]
  | gone initial => exact absurd rfl running

def EndsClientAttachment (id : Nat) : DaemonEvent → Prop
  | .task event => EndsAttachment id event
  | _ => False

theorem attached_daemon_step (scrollback id start : Nat) (lead before earlier pushed : List UInt8)
    (daemon next : Daemon) (event : DaemonEvent)
    (attached : Attached scrollback id start lead before earlier pushed daemon.hub)
    (read : outputRead daemon.taken = earlier ++ pushed)
    (same : ¬ EndsClientAttachment id event) (taken : daemon.step event = some next) :
    ∃ newer, Attached scrollback id start lead before earlier newer next.hub ∧
      outputRead next.taken = earlier ++ newer := by
  cases hub_move_cases daemon next event taken with
  | unmoved hub unchanged => exact ⟨pushed, by rwa [hub], unchanged.trans read⟩
  | @moved hubEvent step more source some_output =>
    have stays : ¬ EndsAttachment id hubEvent := by
      rcases source with rfl | never
      · exact same
      · exact never id
    refine ⟨_, attached_step scrollback id start lead before earlier pushed daemon.hub next.hub hubEvent
      attached stays step, ?_⟩
    rw [more, read, List.append_assoc]

/-- The client's last Attach, made in `reached`; it has not detached since. -/
def LastAttach (start : Daemon) (events : List DaemonEvent) (id : Nat) (skipRing : Bool)
    (reached : Daemon) : Prop :=
  ∃ earlier later, events = earlier ++ .task (.input id (.frame (.attach skipRing))) :: later ∧
    run Daemon.step start earlier = some reached ∧ ∀ event ∈ later, ¬ EndsClientAttachment id event

/-- At the end the client is attached, its task still runs and has not been overrun. -/
structure AttachedAtEnd (start : Daemon) (events : List DaemonEvent) (last : Daemon) (id : Nat)
    (skipRing : Bool) (reached : Daemon) (client : Client UInt8) : Prop where
  attach : LastAttach start events id skipRing reached
  known : last.hub.clients id = some client
  running : client.activity ≠ .returned
  within : ∀ rx, receiver client = some rx → ¬ last.hub.fanout.tx.Overrun rx

/-- Since the Attach the socket got the ring, unless it was skipped, and then
everything read from the pty. -/
def GetsAllOutput (scrollback : Nat) (last : Daemon) (id : Nat) (skipRing : Bool)
    (reached : Daemon) : Prop :=
  last.hub.socket id = reached.hub.socket id ++
    ((if skipRing then [] else (outputRead reached.taken).rtake scrollback) ++
      (outputRead last.taken).drop (outputRead reached.taken).length)

/-- `reads` are the clients whose side still takes what is sent. -/
def LastOutputReaches (scrollback : Nat) (reads : Nat → Prop) (start : Daemon)
    (events : List DaemonEvent) (last : Daemon) : Prop :=
  ∀ code, last.phase = .returned (.childExited code) → ∀ id skipRing reached client, reads id →
    AttachedAtEnd start events last id skipRing reached client →
      GetsAllOutput scrollback last id skipRing reached

/-- No task with a receiver that is still good has a message to take or bytes to write. -/
def NoneBehind (reads : Nat → Prop) (hub : Hub UInt8) : Prop :=
  ∀ id client rx, reads id → hub.clients id = some client → client.activity ≠ .returned →
    receiver client = some rx → ¬ hub.fanout.tx.Overrun rx → CaughtUp hub.fanout client

/-- After the child's exit `run` takes its last step only when no task is behind. -/
def WaitsForClients (reads : Nat → Prop) (daemon : Daemon) : DaemonEvent → Prop
  | .unlinked => ∀ code, daemon.phase = .unlinking (.childExited code) → NoneBehind reads daemon.hub
  | _ => True

def EndsCaughtUp (reads : Nat → Prop) (daemon : Daemon) : Prop :=
  ∀ code, daemon.phase = .returned (.childExited code) → NoneBehind reads daemon.hub

theorem task_receiver (fanout : Fanout UInt8) (id : Nat) (client next : Client UInt8) (rx : Receiver)
    (event : HubEvent UInt8) (took : TaskStep fanout id event client next)
    (same : ¬ EndsAttachment id event) (running : next.activity ≠ .returned)
    (follows : receiver next = some rx) :
    client.activity ≠ .returned ∧ ∃ before, receiver client = some before := by
  obtain ⟨attached, activity, socket⟩ := client
  cases took with
  | input selecting took =>
    cases selecting
    rcases input_cases fanout id _ next _ took same with rfl | rfl | ⟨item, rfl⟩
    · exact ⟨running, rx, follows⟩
    · exact absurd rfl running
    · exact ⟨by simp, rx, follows⟩
  | live selecting took =>
    cases selecting
    cases attached with
    | none => cases took
    | some before => exact ⟨by simp, before, rfl⟩
  | write took =>
    cases activity with
    | writingSnapshot rest before => exact ⟨by simp, before, rfl⟩
    | writingLive rest =>
      simp only [onWrite] at took
      split at took
      · cases took
        exact ⟨by simp, rx, follows⟩
      · cases took
    | _ => cases took
  | written took =>
    cases activity with
    | writingSnapshot rest before => exact ⟨by simp, before, rfl⟩
    | writingLive rest =>
      cases rest with
      | nil =>
        cases took
        exact ⟨by simp, rx, follows⟩
      | cons byte rest => cases took
    | _ => cases took
  | writeFails took =>
    unfold onWriteFails at took
    split at took <;> cases took <;> exact absurd rfl running
  | enqueued waiting =>
    cases waiting
    exact ⟨by simp, rx, follows⟩
  | refused waiting => exact absurd rfl running

theorem hub_receiver (hub next : Hub UInt8) (id : Nat) (client : Client UInt8) (rx : Receiver)
    (event : HubEvent UInt8) (taken : hub.step event = some next) (same : ¬ EndsAttachment id event)
    (known : next.clients id = some client) (running : client.activity ≠ .returned)
    (follows : receiver client = some rx) :
    ∃ before position, hub.clients id = some before ∧ before.activity ≠ .returned ∧
      receiver before = some position := by
  cases hub_step_cases hub next event taken with
  | output pushed clients => exact ⟨client, rx, by rw [← clients, known], running, follows⟩
  | @accept other fresh fanout clients =>
    rw [clients] at known
    by_cases mine : id = other
    · subst mine
      rw [Function.update_self] at known
      cases known
      cases follows
    · rw [Function.update_of_ne mine] at known
      exact ⟨client, rx, known, running, follows⟩
  | @task event other before after mover took fanout clients =>
    rw [clients] at known
    by_cases mine : id = other
    · subst mine
      rw [Function.update_self] at known
      cases known
      obtain ⟨active, position, followed⟩ := task_receiver _ id before client rx event took same
        running follows
      exact ⟨before, position, mover, active, followed⟩
    · rw [Function.update_of_ne mine] at known
      exact ⟨client, rx, known, running, follows⟩
  | loop silent fanout clients => exact ⟨client, rx, by rw [← clients, known], running, follows⟩

/-- Whoever follows the output has attached, and has not detached since. -/
def AllAttached (start : Daemon) (past : List DaemonEvent) (state : Daemon) : Prop :=
  run Daemon.step start past = some state ∧ ∀ id client rx, state.hub.clients id = some client →
    client.activity ≠ .returned → receiver client = some rx →
      ∃ skipRing reached, LastAttach start past id skipRing reached

theorem all_attached_step (start : Daemon) (past : List DaemonEvent) (state next : Daemon)
    (event : DaemonEvent) (attached : AllAttached start past state)
    (taken : state.step event = some next) : AllAttached start (past ++ [event]) next := by
  obtain ⟨ran, attached⟩ := attached
  refine ⟨by rw [run_append, ran, Option.bind_some, run, taken]; rfl, ?_⟩
  intro id client rx known running follows
  by_cases ends : EndsClientAttachment id event
  · cases event with
    | task hubEvent =>
      cases hubEvent with
      | input other input =>
        cases input with
        | frame msg =>
          cases msg with
          | attach skipRing =>
            cases ends
            exact ⟨skipRing, state, past, [], rfl, ran, by simp⟩
          | detach =>
            cases ends
            cases daemon_step_cases state next _ taken with
            | task own awaits moved =>
              obtain ⟨before, after, _, took, rfl⟩ := on_client_cases state.hub _ _ _ moved
              obtain ⟨selecting, took⟩ := when_selecting_cases _ before after took
              rw [Hub.setClient_clients, Function.update_self] at known
              cases known
              cases took
              simp [receiver, selecting] at follows
            | outside kind input alive => cases kind
          | _ => cases ends
        | _ => cases ends
      | _ => cases ends
    | _ => cases ends
  · have before : ∃ before position, state.hub.clients id = some before ∧
        before.activity ≠ .returned ∧ receiver before = some position := by
      cases hub_move_cases state next event taken with
      | unmoved hub read => exact ⟨client, rx, by rw [← hub, known], running, follows⟩
      | @moved hubEvent step read source some_output =>
        have stays : ¬ EndsAttachment id hubEvent := by
          rcases source with rfl | never
          · exact ends
          · exact never id
        exact hub_receiver state.hub next.hub id client rx hubEvent step stays known running follows
    obtain ⟨before, position, present, active, followed⟩ := before
    obtain ⟨skipRing, reached, earlier, later, rfl, toAttach, same⟩ :=
      attached id before position present active followed
    refine ⟨skipRing, reached, earlier, later ++ [event], by simp, toAttach, ?_⟩
    intro other member
    rcases List.mem_append.mp member with old | new
    · exact same other old
    · rwa [List.mem_singleton.mp new]

theorem ends_caught_up_step (reads : Nat → Prop) (daemon next : Daemon) (event : DaemonEvent)
    (before : EndsCaughtUp reads daemon) (taken : daemon.step event = some next) :
    EndsCaughtUp reads next ↔ WaitsForClients reads daemon event := by
  have kept (phase : next.phase = daemon.phase) (hub : next.hub = daemon.hub) :
      EndsCaughtUp reads next := by
    intro code returned
    rw [hub]
    exact before code (phase.symm.trans returned)
  have goes_on (phase : LoopPhase) (now : next.phase = phase)
      (running : ∀ reason, phase ≠ .returned reason) : EndsCaughtUp reads next := by
    intro code returned
    exact absurd (now.symm.trans returned) (running _)
  cases daemon_step_cases daemon next event taken with
  | @unlinked reason hub unlinking stopped =>
    cases stopped
    constructor
    · intro caught code same
      cases unlinking.symm.trans same
      exact caught code rfl
    · intro waits code returned
      cases returned
      exact waits code unlinking
  | @outside event pty backlog sigterm sigint kind input alive grows =>
    refine iff_of_true (kept rfl rfl) ?_
    cases event <;> trivial
  | @task event hub own awaits moved =>
    refine iff_of_true ?_ trivial
    intro code returned
    have phase : daemon.phase = .returned (.childExited code) := returned
    rw [phase] at awaits
    cases awaits
  | command selecting queue moved => exact iff_of_true (goes_on _ selecting (by simp)) trivial
  | read selecting quiet bound pushed => exact iff_of_true (goes_on _ rfl (by simp)) trivial
  | ended selecting quiet nothing closed => exact iff_of_true (goes_on _ rfl (by simp)) trivial
  | accept selecting quiet waiting accepted => exact iff_of_true (goes_on _ selecting (by simp)) trivial
  | push selecting quiet queue moved => exact iff_of_true (goes_on _ rfl (by simp)) trivial
  | signaled selecting quiet signal => exact iff_of_true (goes_on _ rfl (by simp)) trivial
  | handOff pending => exact iff_of_true (goes_on _ rfl (by simp)) trivial
  | ptyWrite writing bound => exact iff_of_true (goes_on _ rfl (by simp)) trivial
  | writeEnds writing ends => exact iff_of_true (goes_on _ rfl (by simp)) trivial
  | reaped waiting dead => exact iff_of_true (goes_on _ rfl (by simp)) trivial
  | marked leaving logging => exact iff_of_true (goes_on _ rfl (by simp)) trivial
  | unmarked leaving silent => exact iff_of_true (goes_on _ rfl (by simp)) trivial
  | joined draining ended => exact iff_of_true (goes_on _ rfl (by simp)) trivial
  | writer moved => exact iff_of_true (kept rfl rfl) trivial

theorem caught_up_throughout (reads : Nat → Prop) (start last : Daemon) (events : List DaemonEvent)
    (ran : run Daemon.step start events = some last) :
    EndsCaughtUp reads last ↔ Throughout Daemon.step (EndsCaughtUp reads) start events := by
  constructor
  · rintro caughtUp past state ⟨later, rfl⟩ reached code returned
    rw [run_append, reached, Option.bind_some] at ran
    have same : last.phase = .returned (.childExited code) ∧ last.hub = state.hub := by
      refine run_invariant Daemon.step (fun after => after.phase = .returned (.childExited code) ∧
        after.hub = state.hub) ?_ state last later ⟨returned, rfl⟩ ran
      rintro after event next ⟨phase, hub⟩ taken
      have still := after_return after next event _ phase taken
      exact ⟨still.phase.trans phase, still.hub.trans hub⟩
    rw [← same.2]
    exact caughtUp code same.1
  · intro throughout
    exact throughout events last (List.prefix_refl _) ran

section Run

variable (scrollback : Nat) (content : List UInt8) (logging : Option Nat) (start last : Daemon)
  (events : List DaemonEvent) (started : Daemon.start scrollback content logging = some start)
  (ran : run Daemon.step start events = some last)
include started ran

theorem attached_at_end_view (id : Nat) (skipRing : Bool) (reached : Daemon) (client : Client UInt8)
    (attached : AttachedAtEnd start events last id skipRing reached client) :
    ∃ position pushed, Attached scrollback id position
        (if skipRing then [] else (outputRead reached.taken).rtake scrollback)
        (reached.hub.socket id) (outputRead reached.taken) pushed last.hub ∧
      outputRead last.taken = outputRead reached.taken ++ pushed := by
  obtain ⟨earlier, later, rfl, ran_earlier, same⟩ := attached.attach
  rw [run_append, ran_earlier, Option.bind_some] at ran
  obtain ⟨opened, attach, continued⟩ := run_cons _ _ _ _ _ ran
  have fansOut := fans_out_run scrollback content logging start reached earlier started ran_earlier
  have initial : Attached scrollback id reached.hub.fanout.tx.sent.length
      (if skipRing then [] else (outputRead reached.taken).rtake scrollback) (reached.hub.socket id)
      (outputRead reached.taken) [] opened.hub ∧ outputRead opened.taken = outputRead reached.taken := by
    cases daemon_step_cases reached opened _ attach with
    | task own awaits moved =>
      exact ⟨attach_opens scrollback id skipRing _ reached.hub _ fansOut.represents moved, rfl⟩
    | outside kind input alive => cases kind
  obtain ⟨pushed, view, read⟩ := run_guarded_invariant Daemon.step
    (fun _ event => ¬ EndsClientAttachment id event)
    (fun _ state => ∃ pushed, Attached scrollback id reached.hub.fanout.tx.sent.length
      (if skipRing then [] else (outputRead reached.taken).rtake scrollback) (reached.hub.socket id)
      (outputRead reached.taken) pushed state.hub ∧
        outputRead state.taken = outputRead reached.taken ++ pushed)
    (fun _ state event next view same taken => by
      obtain ⟨pushed, attached, read⟩ := view
      exact attached_daemon_step scrollback id _ _ _ _ pushed state next event attached read same taken)
    [] later opened last ⟨[], initial.1, by rw [initial.2, List.append_nil]⟩
    (meets_of_forall Daemon.step _ opened later same) continued
  exact ⟨_, pushed, view, read⟩

theorem gets_all_output_iff (id : Nat) (skipRing : Bool) (reached : Daemon) (client : Client UInt8)
    (attached : AttachedAtEnd start events last id skipRing reached client) :
    GetsAllOutput scrollback last id skipRing reached ↔ CaughtUp last.hub.fanout client := by
  obtain ⟨position, pushed, view, read⟩ := attached_at_end_view scrollback content logging start last
    events started ran id skipRing reached client attached
  have fansOut := fans_out_run scrollback content logging start last events started ran
  obtain ⟨other, known, progress⟩ := view.progress
  have same : other = client := Option.some.inj (known.symm.trans attached.known)
  subst same
  have accounts := progress_accounts last.hub.fanout position _ _ other progress attached.running
  rw [view.since] at accounts
  have since : (outputRead last.taken).drop (outputRead reached.taken).length = pushed := by
    rw [read, List.drop_left]
  have socket : last.hub.socket id = other.socket := by simp [Hub.socket, known]
  rw [GetsAllOutput, since, socket, ← accounts, List.self_eq_append_right,
    List.append_eq_nil_iff, List.flatten_eq_nil_iff, CaughtUp, and_comm]
  refine and_congr ?_ Iff.rfl
  -- a chunk is never empty, so no bytes are missing only if no message is
  constructor
  · intro empty
    rw [List.eq_nil_iff_forall_not_mem]
    intro chunk member
    have sent : chunk ∈ last.hub.fanout.tx.sent := by
      unfold unread at member
      split at member
      · exact List.mem_of_mem_drop member
      · cases member
    exact fansOut.chunks chunk sent (empty chunk member)
  · rintro nothing chunk member
    rw [nothing] at member
    cases member

theorem attached_receiver (id : Nat) (skipRing : Bool) (reached : Daemon) (client : Client UInt8)
    (attached : AttachedAtEnd start events last id skipRing reached client) :
    ∃ rx, receiver client = some rx := by
  obtain ⟨position, pushed, view, _⟩ := attached_at_end_view scrollback content logging start last
    events started ran id skipRing reached client attached
  obtain ⟨other, known, progress⟩ := view.progress
  have same : other = client := Option.some.inj (known.symm.trans attached.known)
  subst same
  cases progress with
  | replaying position split => exact ⟨_, rfl⟩
  | following idle subscribed known =>
    rcases idle with rfl | ⟨item, rfl⟩
    · exact ⟨_, rfl⟩
    · exact ⟨_, rfl⟩
  | writing subscribed known split => exact ⟨_, rfl⟩
  | gone initial => exact absurd rfl attached.running

theorem reaches_iff_caught_up (reads : Nat → Prop) :
    LastOutputReaches scrollback reads start events last ↔ EndsCaughtUp reads last := by
  have exact_for (id : Nat) (skipRing : Bool) (reached : Daemon) (client : Client UInt8)
      (attached : AttachedAtEnd start events last id skipRing reached client) :=
    gets_all_output_iff scrollback content logging start last events started ran id skipRing reached
      client attached
  have nobody : AllAttached start [] start := by
    obtain ⟨hub, writer, created, _, rfl⟩ := start_cases scrollback content logging start started
    obtain ⟨fanout, _, rfl⟩ := hub_start_cases _ _ _ created
    refine ⟨rfl, ?_⟩
    intro id client rx known
    cases known
  have allAttached : AllAttached start events last :=
    run_history_invariant Daemon.step (AllAttached start)
      (fun past state event next attached taken =>
        all_attached_step start past state next event attached taken)
      [] events start last nobody ran
  constructor
  · intro reaches code returned id client rx reading known running follows within
    obtain ⟨skipRing, reached, attach⟩ := allAttached.2 id client rx known running follows
    have attached : AttachedAtEnd start events last id skipRing reached client :=
      { attach := attach
        known := known
        running := running
        within := fun other same => by
          cases follows.symm.trans same
          exact within }
    exact (exact_for id skipRing reached client attached).mp
      (reaches code returned id skipRing reached client reading attached)
  · intro caughtUp code returned id skipRing reached client reading attached
    obtain ⟨rx, follows⟩ := attached_receiver scrollback content logging start last events started
      ran id skipRing reached client attached
    exact (exact_for id skipRing reached client attached).mpr
      (caughtUp code returned id client rx reading attached.known attached.running follows
        (attached.within rx follows))

/-- In a run that ends with the child, the last output reaches the attached
clients exactly when `run` returned with none of their tasks behind. -/
theorem last_output_reaches_iff (reads : Nat → Prop) :
    LastOutputReaches scrollback reads start events last ↔
      Meets Daemon.step (WaitsForClients reads) start events := by
  have initial : EndsCaughtUp reads start := by
    obtain ⟨hub, writer, created, _, rfl⟩ := start_cases scrollback content logging start started
    intro code returned
    cases returned
  rw [reaches_iff_caught_up scrollback content logging start last events started ran reads,
    caught_up_throughout reads start last events ran]
  exact throughout_iff_meets_step Daemon.step (EndsCaughtUp reads) (WaitsForClients reads)
    (fun state event next before taken => ends_caught_up_step reads state next event before taken)
    start last events initial ran

end Run

/-- A client attaches; the child prints a byte and exits at once. -/
def promptExit : List DaemonEvent :=
  [.connects 0, .select 0, .task (.input 0 (.frame (.attach true))), .childWrites [0x61], .childExits,
    .slave false, .select 1, .handOff, .select 0, .reaped (some 0), .shutDown 0, .unlinked]

/-- As before, with the client's task run before the loop looks at the pty again. -/
def deliveredExit : List DaemonEvent :=
  [.connects 0, .select 0, .task (.input 0 (.frame (.attach true))), .childWrites [0x61], .childExits,
    .slave false, .select 1, .handOff, .task (.live 0), .task (.write 0 1), .task (.written 0),
    .select 0, .reaped (some 0), .shutDown 0, .unlinked]

theorem last_output_reaches_delivered : ∃ last, Daemon.start 8 [] none = some idle ∧
    run Daemon.step idle deliveredExit = some last ∧
      last.phase = .returned (.childExited (some 0)) ∧ last.hub.socket 0 = [0x61] ∧
      (LastOutputReaches 8 (fun id => id = 0) idle deliveredExit last ↔
        Meets Daemon.step (WaitsForClients fun id => id = 0) idle deliveredExit) := by
  refine ⟨_, start_idle, rfl, rfl, rfl, ?_⟩
  exact last_output_reaches_iff 8 [] none idle _ deliveredExit start_idle rfl fun id => id = 0

theorem last_output_missing : ∃ last, Daemon.start 8 [] none = some idle ∧
    run Daemon.step idle promptExit = some last ∧
      last.phase = .returned (.childExited (some 0)) ∧ outputRead last.taken = [0x61] ∧
      last.hub.socket 0 = [] ∧ ¬ LastOutputReaches 8 (fun id => id = 0) idle promptExit last := by
  refine ⟨_, start_idle, rfl, rfl, rfl, rfl, ?_⟩
  intro reaches
  let unserved : Client UInt8 :=
    { attached := some { next := 0 }, activity := .selecting, socket := [] }
  have all := reaches (some 0) rfl 0 true _ unserved rfl
    { attach := ⟨[.connects 0, .select 0], _, rfl, rfl, by simp [EndsClientAttachment]⟩
      known := rfl
      running := fun ended => by cases ended
      within := by
        rintro rx ⟨⟩
        decide }
  cases all

end Hytch.LastOutput
