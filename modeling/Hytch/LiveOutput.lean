import Mathlib.Data.List.Infix
import Hytch.Connections
import Hytch.EndlessRuns
import Hytch.LastOutput

/-!
That output arrives. What a socket gets is a stretch of the output without a gap; here is that
it does not stop short. As long as the task of an attached client has its turns, and the
connection lasts, everything read from the pty comes to be on the socket.
-/

namespace Hytch.LiveOutput

open BoundedTail BroadcastChannel HandleClient Attachments DaemonRun Connections LastOutput Runs
  EndlessRuns

inductive Delivers (id : Nat) : HubEvent UInt8 → Prop where
  | live : Delivers id (.live id)
  | write (count : Nat) : Delivers id (.write id count)
  | written : Delivers id (.written id)

def position (client : Client UInt8) : Nat :=
  match receiver client with
  | some rx => rx.next
  | none => 0

def atRest (client : Client UInt8) : Nat :=
  match client.activity with
  | .writingSnapshot _ _ => 0
  | .writingLive _ => 0
  | _ => 1

/-- Messages taken, messages written out, bytes written. -/
def advance (client : Client UInt8) : Nat :=
  2 * position client + atRest client + client.socket.length

section Steps

variable (fanout : Fanout UInt8) (id : Nat) (client after : Client UInt8) (event : HubEvent UInt8)
variable (took : TaskStep fanout id event client after) (running : after.activity ≠ .returned)
include took running

theorem live_takes (same : event = .live id) :
    client.activity = .selecting ∧ position after = position client + 1 ∧ atRest after = 0 ∧
      after.socket = client.socket := by
  cases took with
  | live selecting took =>
    obtain ⟨attached, activity, socket⟩ := client
    cases selecting
    unfold onLive at took
    split at took
    · cases took
    · rename_i rx follows
      cases follows
      split at took
      · cases took
      · cases took
        exact absurd rfl running
      · rename_i data next given
        obtain ⟨moved, _, _⟩ := recv_item fanout.tx 0 rx next data (Nat.zero_le _) given
        cases took
        exact ⟨rfl, moved, rfl, rfl⟩
  | _ => cases same

theorem delivers_advances (delivers : Delivers id event) : advance client < advance after := by
  cases delivers with
  | live =>
    obtain ⟨selecting, next, writing, socket⟩ := live_takes fanout id client after _ took running rfl
    have rest : atRest client = 1 := by rw [atRest, selecting]
    simp only [advance, next, writing, socket, rest]
    omega
  | write count =>
    cases took with
    | write took =>
      obtain ⟨attached, activity, socket⟩ := client
      cases activity with
      | writingSnapshot rest rx =>
        obtain ⟨bound, took⟩ := Option.ite_none_right_eq_some.mp took
        cases took
        simp only [advance, position, receiver, atRest, List.length_append, List.length_take]
        omega
      | writingLive rest =>
        obtain ⟨bound, took⟩ := Option.ite_none_right_eq_some.mp took
        cases took
        simp only [advance, position, receiver, atRest, List.length_append, List.length_take]
        omega
      | _ => cases took
  | written =>
    cases took with
    | written took =>
      obtain ⟨attached, activity, socket⟩ := client
      unfold onWritten at took
      split at took
      · rename_i rx writing
        cases writing
        cases took
        simp [advance, position, receiver, atRest]
      · rename_i writing
        cases writing
        cases took
        simp [advance, position, receiver, atRest]
      · cases took

theorem position_moves (same : ¬ EndsAttachment id event) :
    position after = position client ∨
      client.activity = .selecting ∧ position after = position client + 1 := by
  cases took with
  | live selecting took =>
    obtain ⟨_, next, _, _⟩ :=
      live_takes fanout id client after _ (.live selecting took) running rfl
    exact .inr ⟨selecting, next⟩
  | @input _ _ input selecting took =>
    obtain ⟨attached, activity, socket⟩ := client
    cases selecting
    rcases input_cases fanout id _ after input took same with rfl | rfl | ⟨item, rfl⟩ <;> exact .inl rfl
  | write took =>
    obtain ⟨attached, activity, socket⟩ := client
    unfold onWrite at took
    split at took
    · rename_i rest rx writing
      cases writing
      obtain ⟨_, took⟩ := Option.ite_none_right_eq_some.mp took
      cases took
      exact .inl rfl
    · rename_i rest writing
      cases writing
      obtain ⟨_, took⟩ := Option.ite_none_right_eq_some.mp took
      cases took
      exact .inl rfl
    · cases took
  | written took =>
    obtain ⟨attached, activity, socket⟩ := client
    unfold onWritten at took
    split at took
    · rename_i rx writing
      cases writing
      cases took
      exact .inl rfl
    · rename_i writing
      cases writing
      cases took
      exact .inl rfl
    · cases took
  | writeFails took =>
    unfold onWriteFails at took
    split at took <;> cases took <;> exact absurd rfl running
  | enqueued waiting =>
    obtain ⟨attached, activity, socket⟩ := client
    cases waiting
    exact .inl rfl
  | refused waiting => exact absurd rfl running

theorem other_keeps (same : ¬ EndsAttachment id event) (other : ¬ Delivers id event) :
    advance after = advance client := by
  cases took with
  | @input _ _ input selecting took =>
    obtain ⟨attached, activity, socket⟩ := client
    cases selecting
    rcases input_cases fanout id _ after input took same with rfl | rfl | ⟨item, rfl⟩
    · rfl
    · exact absurd rfl running
    · rfl
  | live selecting took => exact absurd .live other
  | write took => exact absurd (.write _) other
  | written took => exact absurd .written other
  | writeFails took =>
    unfold onWriteFails at took
    split at took <;> cases took <;> exact absurd rfl running
  | enqueued waiting =>
    obtain ⟨attached, activity, socket⟩ := client
    cases waiting
    rfl
  | refused waiting => exact absurd rfl running

end Steps

section Turns

variable (fanout : Fanout UInt8) (start : Nat) (lead before : List UInt8) (client : Client UInt8)
variable (progress : Progress fanout.tx start lead before client)
include progress

theorem position_known (bound : start ≤ fanout.tx.sent.length) (running : client.activity ≠ .returned) :
    position client ≤ fanout.tx.sent.length := by
  cases progress with
  | replaying unread split => exact Nat.le_trans (Nat.le_of_eq unread) bound
  | following idle subscribed known => rcases idle with rfl | ⟨item, rfl⟩ <;> exact known
  | writing subscribed known split => exact known
  | gone initial => exact absurd rfl running

/-- At its select a task has written all it has taken. -/
theorem selecting_written (sent : List (List UInt8)) (initial : sent <+: fanout.tx.sent)
    (selecting : client.activity = .selecting) (taken : sent.length ≤ position client) :
    (before ++ (lead ++ (sent.drop start).flatten)).length ≤ client.socket.length := by
  cases progress with
  | replaying position split => cases selecting
  | @following rx activity idle subscribed known =>
    cases selecting
    have taken : sent.length ≤ rx.next := taken
    have inside : sent.drop start <+: fanout.tx.delivered start rx := by
      rw [List.prefix_iff_eq_take.mp initial]
      exact List.IsPrefix.drop (List.take_prefix_take_left taken) start
    simp only [List.length_append]
    have shorter := (flatten_initial inside).length_le
    omega
  | writing subscribed known split => cases selecting
  | gone initial => cases selecting

end Turns

section Daemons

variable (daemon next : Daemon) (event : DaemonEvent)

theorem sent_grows (taken : daemon.step event = some next) :
    daemon.hub.fanout.tx.sent <+: next.hub.fanout.tx.sent := by
  cases hub_move_cases daemon next event taken with
  | unmoved hub read => simp only [hub, List.prefix_refl]
  | @moved hubEvent step read source some_output =>
    obtain ⟨newer, tx, _⟩ := hub_step_history daemon.hub next.hub hubEvent step
    rw [tx]
    exact List.prefix_append _ _

theorem delivers_step (hub moved : Hub UInt8) (id : Nat) (task : HubEvent UInt8) (client : Client UInt8)
    (delivers : Delivers id task) (known : hub.clients id = some client)
    (stepped : hub.step task = some moved) :
    ∃ after, moved.clients id = some after ∧ TaskStep hub.fanout id task client after := by
  cases delivers with
  | live =>
    obtain ⟨mover, after, also, took, rfl⟩ := on_client_cases hub moved id _ stepped
    cases known.symm.trans also
    obtain ⟨selecting, took⟩ := when_selecting_cases _ client after took
    exact ⟨after, by simp, .live selecting took⟩
  | write count =>
    obtain ⟨mover, after, also, took, rfl⟩ := on_client_cases hub moved id _ stepped
    cases known.symm.trans also
    exact ⟨after, by simp, .write took⟩
  | written =>
    obtain ⟨mover, after, also, took, rfl⟩ := on_client_cases hub moved id _ stepped
    cases known.symm.trans also
    exact ⟨after, by simp, .written took⟩

theorem client_moves (id : Nat) (client : Client UInt8) (known : daemon.hub.clients id = some client)
    (taken : daemon.step event = some next) :
    next.hub.clients id = some client ∧ (∀ task, event = .task task → ¬ Delivers id task) ∨
      ∃ task after, event = .task task ∧ next.hub.clients id = some after ∧
        TaskStep daemon.hub.fanout id task client after := by
  cases party_step_cases daemon next event taken with
  | @task task own awaits moved enqueued backlog =>
    by_cases delivers : Delivers id task
    · obtain ⟨after, now, took⟩ := delivers_step _ _ id task client delivers known moved
      exact .inr ⟨task, after, rfl, now, took⟩
    · rcases known_client_cases _ _ task id client known moved with still | ⟨after, now, took, _⟩
      · refine .inl ⟨still, ?_⟩
        rintro other ⟨⟩
        exact delivers
      · exact .inr ⟨task, after, rfl, now, took⟩
  | @accepts _ other no_task waiting fresh clients enqueued =>
    have different : id ≠ other := by
      rintro rfl
      rw [known] at fresh
      cases fresh
    refine .inl ⟨by rw [clients, Function.update_of_ne different, known], ?_⟩
    intro task same
    exact absurd same (no_task task)
  | rests no_task clients enqueued grows =>
    refine .inl ⟨by rw [clients, known], ?_⟩
    intro task same
    exact absurd same (no_task task)

def advanceOf (id : Nat) (daemon : Daemon) : Nat :=
  match daemon.hub.clients id with
  | some client => advance client
  | none => 0

theorem advance_step (id : Nat) (client : Client UInt8) (known : daemon.hub.clients id = some client)
    (stays : ∀ after, next.hub.clients id = some after → after.activity ≠ .returned)
    (keeps : ¬ EndsClientAttachment id event) (taken : daemon.step event = some next) :
    advanceOf id daemon ≤ advanceOf id next ∧
      ∀ task, event = .task task → Delivers id task → advanceOf id daemon < advanceOf id next := by
  rcases client_moves daemon next event id client known taken with
    ⟨still, none_delivered⟩ | ⟨task, after, rfl, now, took⟩
  · constructor
    · simp only [advanceOf, known, still, Nat.le_refl]
    · intro task own delivers
      exact absurd delivers (none_delivered task own)
  · simp only [advanceOf, known, now]
    have rises (delivers : Delivers id task) : advance client < advance after :=
      delivers_advances _ id client after task took (stays after now) delivers
    constructor
    · by_cases delivers : Delivers id task
      · exact Nat.le_of_lt (rises delivers)
      · exact Nat.le_of_eq (other_keeps _ id client after task took (stays after now) keeps delivers).symm
    · rintro _ ⟨⟩ delivers
      exact rises delivers

theorem task_possible (hub : Hub UInt8) (task : HubEvent UInt8) (own : ofTask task = true)
    (awaits : daemon.phase.awaits = true) (moved : daemon.hub.step task = some hub) :
    ∃ next, daemon.step (.task task) = some next := by
  refine ⟨{ daemon with hub := hub, enqueued := daemon.enqueued ++ handedOver daemon.hub task }, ?_⟩
  simp [Daemon.step, own, awaits, moved]

/-- A task that is behind has something to do, unless it waits for room in a channel. -/
theorem can_deliver (id start : Nat) (lead before : List UInt8) (client : Client UInt8)
    (known : daemon.hub.clients id = some client) (awaits : daemon.phase.awaits = true)
    (progress : Progress daemon.hub.fanout.tx start lead before client)
    (running : client.activity ≠ .returned) (free : ∀ item, client.activity ≠ .enqueuing item)
    (behind : client.activity = .selecting → position client < daemon.hub.fanout.tx.sent.length) :
    ∃ task next, Delivers id task ∧ daemon.step (.task task) = some next := by
  have possible (task : HubEvent UInt8) (hub : Hub UInt8) (delivers : Delivers id task)
      (moved : daemon.hub.step task = some hub) :
      ∃ task next, Delivers id task ∧ daemon.step (.task task) = some next := by
    obtain ⟨next, taken⟩ := task_possible daemon hub task (by cases delivers <;> rfl) awaits moved
    exact ⟨task, next, delivers, taken⟩
  cases progress with
  | @replaying attached rx written rest unread split =>
    cases rest with
    | nil => exact possible _ _ .written (by simp [Hub.step, Hub.onClient, known, onWritten]; rfl)
    | cons byte bytes =>
      exact possible _ _ (.write 1) (by simp [Hub.step, Hub.onClient, known, onWrite]; rfl)
  | @writing rx written rest subscribed bound split =>
    cases rest with
    | nil => exact possible _ _ .written (by simp [Hub.step, Hub.onClient, known, onWritten]; rfl)
    | cons byte bytes =>
      exact possible _ _ (.write 1) (by simp [Hub.step, Hub.onClient, known, onWrite]; rfl)
  | @following rx activity idle subscribed bound =>
    rcases idle with rfl | ⟨item, rfl⟩
    · have more : rx.next < daemon.hub.fanout.tx.sent.length := behind rfl
      cases given : daemon.hub.fanout.tx.recv rx with
      | empty =>
        simp only [Channel.recv, List.getElem?_eq_getElem more] at given
        split at given <;> cases given
      | lagged missed oldest =>
        exact possible _ _ .live
          (by simp [Hub.step, Hub.onClient, known, Hub.whenSelecting, onLive, given]; rfl)
      | item data next =>
        exact possible _ _ .live
          (by simp [Hub.step, Hub.onClient, known, Hub.whenSelecting, onLive, given]; rfl)
    · exact absurd rfl (free item)
  | gone initial => exact absurd rfl running

end Daemons

/-- An endless run with a client that stays attached and has its turns. -/
structure Watching (id : Nat) (endless : Endless Daemon.step) : Prop where
  keeps : ∀ time, ¬ EndsClientAttachment id (endless.event time)
  stays : ∀ time client, (endless.state time).hub.clients id = some client →
    client.activity ≠ .returned
  fair : Fair endless fun event => ∃ task, event = .task task ∧ Delivers id task
  /-- Its task is not left waiting for room in a channel. -/
  free : Recurs fun time => (endless.state time).phase.awaits = true ∧
    ∀ client item, (endless.state time).hub.clients id = some client →
      client.activity ≠ .enqueuing item

section Eventually

variable (scrollback id start : Nat) (lead before earlier : List UInt8)
variable (endless : Endless Daemon.step) (watching : Watching id endless)
variable (opened : Attached scrollback id start lead before earlier [] (endless.state 0).hub)
variable (read : outputRead (endless.state 0).taken = earlier)
include watching opened read

theorem attached_always (time : Nat) :
    ∃ newer, Attached scrollback id start lead before earlier newer (endless.state time).hub ∧
      outputRead (endless.state time).taken = earlier ++ newer := by
  induction time with
  | zero => exact ⟨[], opened, by rw [read, List.append_nil]⟩
  | succ time ih =>
    obtain ⟨newer, attached, whole⟩ := ih
    exact attached_daemon_step scrollback id start lead before earlier newer _ _ _ attached whole
      (watching.keeps time) (endless.follows time)

theorem client_always (time : Nat) :
    ∃ client, (endless.state time).hub.clients id = some client ∧
      client.activity ≠ .returned ∧
      Progress (endless.state time).hub.fanout.tx start lead before client := by
  obtain ⟨newer, attached, _⟩ :=
    attached_always scrollback id start lead before earlier endless watching opened read time
  obtain ⟨client, known, progress⟩ := attached.progress
  exact ⟨client, known, watching.stays time client known, progress⟩

theorem position_within (begin : Nat) (sent : List (List UInt8))
    (same : sent = (endless.state begin).hub.fanout.tx.sent) (time : Nat) (order : begin ≤ time)
    (client : Client UInt8) (known : (endless.state time).hub.clients id = some client)
    (short : client.socket.length < (before ++ (lead ++ (sent.drop start).flatten)).length) :
    sent <+: (endless.state time).hub.fanout.tx.sent ∧ position client ≤ sent.length := by
  induction order generalizing client with
  | refl =>
    obtain ⟨newer, attached, _⟩ :=
      attached_always scrollback id start lead before earlier endless watching opened read begin
    obtain ⟨also, there, progress⟩ := attached.progress
    cases known.symm.trans there
    subst same
    exact ⟨List.prefix_refl _, position_known _ start lead before client progress attached.bound
      (watching.stays begin client known)⟩
  | @step time order ih =>
    obtain ⟨mover, there, running, progress⟩ :=
      client_always scrollback id start lead before earlier endless watching opened read time
    have grows := sent_grows _ _ _ (endless.follows time)
    rcases client_moves _ _ _ id mover there (endless.follows time) with
      ⟨still, _⟩ | ⟨task, after, own, now, took⟩
    · cases known.symm.trans still
      obtain ⟨initial, within⟩ := ih client there short
      exact ⟨initial.trans grows, within⟩
    · cases known.symm.trans now
      have keeps : ¬ EndsAttachment id task := by
        have stays := watching.keeps time
        rwa [own] at stays
      have shorter := (task_socket _ id mover client task took).length_le
      obtain ⟨initial, within⟩ := ih mover there (Nat.lt_of_le_of_lt shorter short)
      refine ⟨initial.trans grows, ?_⟩
      rcases position_moves _ id mover client task took (watching.stays (time + 1) client known) keeps
        with stood | ⟨selecting, next⟩
      · rw [stood]
        exact within
      · -- at its select the task has written all it has taken
        by_contra beyond
        have full := selecting_written _ start lead before mover progress sent initial selecting
          (by omega)
        omega

/-- While something is missing the task can go on again and again. -/
theorem enabled_again (begin : Nat) (sent : List (List UInt8))
    (same : sent = (endless.state begin).hub.fanout.tx.sent)
    (missing : ∀ time client, begin ≤ time → (endless.state time).hub.clients id = some client →
      client.socket.length < (before ++ (lead ++ (sent.drop start).flatten)).length)
    (moment : Nat) (order : begin ≤ moment) :
    ∃ later, moment ≤ later ∧ ∃ event next, (∃ task, event = .task task ∧ Delivers id task) ∧
      Daemon.step (endless.state later) event = some next := by
  obtain ⟨later, after, awaits, free⟩ := watching.free moment
  have here := Nat.le_trans order after
  obtain ⟨client, known, running, progress⟩ :=
    client_always scrollback id start lead before earlier endless watching opened read later
  have short := missing later client here known
  obtain ⟨initial, _⟩ := position_within scrollback id start lead before earlier endless watching
    opened read begin sent same later here client known short
  have behind (selecting : client.activity = .selecting) :
      position client < (endless.state later).hub.fanout.tx.sent.length := by
    by_contra all_taken
    have full := selecting_written _ start lead before client progress sent initial selecting
      (Nat.le_trans initial.length_le (Nat.le_of_not_lt all_taken))
    omega
  obtain ⟨task, next, delivers, taken⟩ := can_deliver (endless.state later) id start lead before client
    known awaits progress running (fun item => free client item known) behind
  exact ⟨later, after, .task task, next, ⟨task, rfl, delivers⟩, taken⟩

theorem eventually_written (begin : Nat) :
    ∃ later, begin ≤ later ∧ ∃ client, (endless.state later).hub.clients id = some client ∧
      (before ++ (lead ++ ((endless.state begin).hub.fanout.tx.sent.drop start).flatten)).length ≤
        client.socket.length := by
  generalize same : (endless.state begin).hub.fanout.tx.sent = sent
  generalize size : (before ++ (lead ++ (sent.drop start).flatten)).length = goal
  have client_at :=
    client_always scrollback id start lead before earlier endless watching opened read
  have short (time : Nat) (client : Client UInt8)
      (unreached : ¬ ∃ client, (endless.state time).hub.clients id = some client ∧
        goal ≤ client.socket.length)
      (known : (endless.state time).hub.clients id = some client) : client.socket.length < goal := by
    by_contra full
    exact unreached ⟨client, known, Nat.le_of_not_lt full⟩
  have moves (time : Nat) (client : Client UInt8)
      (known : (endless.state time).hub.clients id = some client) :=
    advance_step _ _ _ id client known (watching.stays (time + 1)) (watching.keeps time)
      (endless.follows time)
  refine reaches_goal
    (fun time => ∃ client, (endless.state time).hub.clients id = some client ∧
      goal ≤ client.socket.length)
    (fun time => advanceOf id (endless.state time)) (2 * sent.length + 1 + goal) begin ?_ ?_ ?_
  · intro time order unreached
    obtain ⟨client, known, _, _⟩ := client_at time
    have less := short time client unreached known
    obtain ⟨_, bound⟩ := position_within scrollback id start lead before earlier endless watching
      opened read begin sent same.symm time order client known (by rw [size]; exact less)
    have rest : atRest client ≤ 1 := by
      unfold atRest
      split <;> decide
    simp only [advanceOf, known, advance]
    omega
  · intro time order _ _
    obtain ⟨client, known, _, _⟩ := client_at time
    exact (moves time client known).1
  · intro unreached
    have missing (time : Nat) (client : Client UInt8) (order : begin ≤ time)
        (known : (endless.state time).hub.clients id = some client) :
        client.socket.length < (before ++ (lead ++ (sent.drop start).flatten)).length := by
      rw [size]
      exact short time client (unreached time order) known
    have again := watching.fair (recurs_from _ begin (enabled_again scrollback id start lead before
      earlier endless watching opened read begin sent same.symm missing))
    refine recurs_from _ begin fun moment order => ?_
    obtain ⟨later, after, task, own, delivers⟩ := again moment
    obtain ⟨client, known, _, _⟩ := client_at later
    exact ⟨later, after, (moves later client known).2 task own delivers⟩

end Eventually

theorem sent_over_time (endless : Endless Daemon.step) (early late : Nat) (order : early ≤ late) :
    (endless.state early).hub.fanout.tx.sent <+: (endless.state late).hub.fanout.tx.sent :=
  endless.kept (fun daemon => (endless.state early).hub.fanout.tx.sent <+: daemon.hub.fanout.tx.sent)
    (fun daemon event next initial taken => initial.trans (sent_grows daemon next event taken))
    early late order (List.prefix_refl _)

theorem attach_opens_daemon (scrollback id : Nat) (skipRing : Bool) (reached opened : Daemon)
    (ring : reached.hub.fanout.Represents scrollback (outputRead reached.taken))
    (attach : reached.step (.task (.input id (.frame (.attach skipRing)))) = some opened) :
    Attached scrollback id reached.hub.fanout.tx.sent.length
      (if skipRing then [] else (outputRead reached.taken).rtake scrollback)
      (reached.hub.socket id) (outputRead reached.taken) [] opened.hub ∧
      outputRead opened.taken = outputRead reached.taken := by
  cases daemon_step_cases reached opened _ attach with
  | task own awaits moved =>
    exact ⟨attach_opens scrollback id skipRing _ reached.hub _ ring moved, rfl⟩
  | outside kind => cases kind

/-- A client that stays attached is sent all that is ever read from the pty: for every moment
there is a later one at which the ring of its Attach, unless it was skipped, and everything
read since then is on its socket. -/
theorem output_arrives (scrollback : Nat) (content : List UInt8) (logging : Option Nat)
    (start reached : Daemon) (events : List DaemonEvent) (id : Nat) (skipRing : Bool)
    (endless : Endless Daemon.step) (started : Daemon.start scrollback content logging = some start)
    (ran : run Daemon.step start events = some reached)
    (attach : reached.step (.task (.input id (.frame (.attach skipRing)))) = some (endless.state 0))
    (watching : Watching id endless) (time : Nat) :
    ∃ later, time ≤ later ∧
      reached.hub.socket id ++ ((if skipRing then [] else (outputRead reached.taken).rtake scrollback) ++
        (outputRead (endless.state time).taken).drop (outputRead reached.taken).length) <+:
          (endless.state later).hub.socket id := by
  have ring := (fans_out_run scrollback content logging start reached events started ran).represents
  obtain ⟨opened, read⟩ := attach_opens_daemon scrollback id skipRing reached _ ring attach
  obtain ⟨newer, attached, whole⟩ :=
    attached_always scrollback id _ _ _ _ endless watching opened read time
  obtain ⟨later, order, client, known, full⟩ :=
    eventually_written scrollback id _ _ _ _ endless watching opened read time
  obtain ⟨also, there, _, progress⟩ :=
    client_always scrollback id _ _ _ _ endless watching opened read later
  cases known.symm.trans there
  obtain ⟨written, socket, initial⟩ := progress_written _ _ _ _ client progress
  refine ⟨later, order, ?_⟩
  rw [whole, List.drop_left, ← attached.since]
  have sent : (endless.state later).hub.socket id = client.socket := by simp [Hub.socket, known]
  rw [sent]
  have grown := flatten_initial (List.IsPrefix.drop (sent_over_time endless time later order)
    reached.hub.fanout.tx.sent.length)
  -- both are initial stretches of all that has been sent by then
  apply List.prefix_of_prefix_length_le _ _ full
  · exact reached.hub.socket id ++ ((if skipRing then [] else
      (outputRead reached.taken).rtake scrollback) ++
        ((endless.state later).hub.fanout.tx.sent.drop reached.hub.fanout.tx.sent.length).flatten)
  · exact (List.prefix_append_right_inj _).mpr ((List.prefix_append_right_inj _).mpr grown)
  · rw [socket]
    exact (List.prefix_append_right_inj _).mpr initial

/-- Two bytes wait in the pty when the client attaches. -/
def untilAttach : List DaemonEvent :=
  [.connects 0, .select 0, .terminate, .childWrites [104, 105]]

theorem nothing_to_deliver (daemon next : Daemon) (id : Nat) (task : HubEvent UInt8) (rx : Receiver)
    (socket : List UInt8) (delivers : Delivers id task)
    (known : daemon.hub.clients id =
      some { attached := some rx, activity := .selecting, socket := socket })
    (empty : daemon.hub.fanout.tx.recv rx = .empty) (taken : daemon.step (.task task) = some next) :
    False := by
  cases daemon_step_cases daemon next _ taken with
  | task own awaits moved =>
    cases delivers <;>
      simp [Hub.step, Hub.onClient, known, Hub.whenSelecting, onLive, empty, onWrite, onWritten] at moved
  | outside kind => cases kind

theorem runs_on (daemon : Daemon) (id : Nat) (activity : Activity UInt8)
    (now : (daemon.hub.clients id).map Client.activity = some activity)
    (running : activity ≠ .returned) (client : Client UInt8)
    (known : daemon.hub.clients id = some client) : client.activity ≠ .returned := by
  rw [known] at now
  cases now
  exact running

set_option maxRecDepth 2000 in
/-- The client attaches, is sent what is read then, and the daemon rests. -/
theorem watching_one_chunk : ∃ reached, ∃ endless : Endless Daemon.step,
    run Daemon.step idle untilAttach = some reached ∧
      reached.step (.task (.input 0 (.frame (.attach true)))) = some (endless.state 0) ∧
      reached.hub.socket 0 = [] ∧ reached.taken = [.accept 0] ∧
      outputRead (endless.state 1).taken = [104, 105] ∧ Watching 0 endless := by
  obtain ⟨reached, opened, pushed, handed, received, sent, last, ran, attach, before, taken, output,
      one, two, three, four, five, still⟩ :
      ∃ reached opened pushed handed received sent last,
        run Daemon.step idle untilAttach = some reached ∧
        reached.step (.task (.input 0 (.frame (.attach true)))) = some opened ∧
        reached.hub.socket 0 = [] ∧ reached.taken = [.accept 0] ∧
        outputRead pushed.taken = [104, 105] ∧
        (opened.step (.select 2) = some pushed ∧
          (opened.hub.clients 0).map Client.activity = some .selecting) ∧
        (pushed.step .handOff = some handed ∧
          (pushed.hub.clients 0).map Client.activity = some .selecting) ∧
        (handed.step (.task (.live 0)) = some received ∧
          (handed.hub.clients 0).map Client.activity = some .selecting) ∧
        (received.step (.task (.write 0 2)) = some sent ∧
          (received.hub.clients 0).map Client.activity = some (.writingLive [104, 105])) ∧
        (sent.step (.task (.written 0)) = some last ∧
          (sent.hub.clients 0).map Client.activity = some (.writingLive [])) ∧
        last.step .terminate = some last ∧ last.phase = .selecting ∧
          last.hub.fanout.tx.recv { next := 1 } = .empty ∧
          last.hub.clients 0 = some { attached := some { next := 1 }, activity := .selecting
                                      socket := [104, 105] } :=
    ⟨_, _, _, _, _, _, _, rfl, rfl, rfl, rfl, rfl, ⟨rfl, rfl⟩, ⟨rfl, rfl⟩, ⟨rfl, rfl⟩, ⟨rfl, rfl⟩,
      ⟨rfl, rfl⟩, rfl, rfl, rfl, rfl⟩
  obtain ⟨still, phase, empty, client⟩ := still
  let endless : Endless Daemon.step :=
    .cons opened (.select 2) (.cons pushed .handOff (.cons handed (.task (.live 0))
      (.cons received (.task (.write 0 2)) (.cons sent (.task (.written 0))
        (.still last .terminate still) five.1) four.1) three.1) two.1) one.1
  refine ⟨reached, endless, ran, attach, before, taken, output, ?_, ?_, ?_, ?_⟩
  · intro time
    match time with
    | 0 | 1 | 2 | 3 | 4 => exact id
    | _ + 5 => exact id
  · intro time
    match time with
    | 0 => exact runs_on opened 0 _ one.2 (by simp)
    | 1 => exact runs_on pushed 0 _ two.2 (by simp)
    | 2 => exact runs_on handed 0 _ three.2 (by simp)
    | 3 => exact runs_on received 0 _ four.2 (by simp)
    | 4 => exact runs_on sent 0 _ five.2 (by simp)
    | _ + 5 => exact runs_on last 0 .selecting (by rw [client]; rfl) (by simp)
  · intro again
    obtain ⟨later, order, event, next, ⟨task, rfl, delivers⟩, moved⟩ := again 5
    obtain ⟨rest, rfl⟩ := Nat.exists_eq_add_of_le' order
    exact (nothing_to_deliver last next 0 task _ _ delivers client empty moved).elim
  · intro time
    refine ⟨time + 5, Nat.le_add_right time 5, ?_, ?_⟩
    · have selecting : (endless.state (time + 5)).phase = .selecting := phase
      rw [selecting]
      rfl
    · intro other item known
      have known : last.hub.clients 0 = some other := known
      cases client.symm.trans known
      simp

theorem output_arrives_live : ∃ reached, ∃ endless : Endless Daemon.step,
    run Daemon.step idle untilAttach = some reached ∧
      reached.step (.task (.input 0 (.frame (.attach true)))) = some (endless.state 0) ∧
      Watching 0 endless ∧ ∃ later, 1 ≤ later ∧ [104, 105] <+: (endless.state later).hub.socket 0 := by
  obtain ⟨reached, endless, ran, attach, before, taken, output, watching⟩ := watching_one_chunk
  have arrives := output_arrives 8 [] none idle reached untilAttach 0 true endless start_idle ran attach
    watching 1
  rw [before, output, taken] at arrives
  exact ⟨reached, endless, ran, attach, watching, arrives⟩

end Hytch.LiveOutput
