import Hytch.HandleClient

/-!
What one attached client is sent. `Progress` ties the receiver's position, the
bytes a pending `write_all` still holds and the bytes already on the socket to
one contiguous stretch of the pty output; every step of every task keeps it
until that client attaches again or detaches.
-/

namespace Hytch.Attachments

open BoundedTail BroadcastChannel Runs HandleClient

variable {Cell : Type}

/-- The steps of one client's task, apart from its creation. -/
inductive TaskStep (fanout : Fanout Cell) (id : Nat) :
    HubEvent Cell → Client Cell → Client Cell → Prop where
  | input {client next : Client Cell} {input : Input} (selecting : client.activity = .selecting)
      (took : onInput fanout client input = some next) :
      TaskStep fanout id (.input id input) client next
  | live {client next : Client Cell} (selecting : client.activity = .selecting)
      (took : onLive fanout client = some next) : TaskStep fanout id (.live id) client next
  | write {client next : Client Cell} {count : Nat} (took : onWrite client count = some next) :
      TaskStep fanout id (.write id count) client next
  | written {client next : Client Cell} (took : onWritten client = some next) :
      TaskStep fanout id (.written id) client next
  | writeFails {client next : Client Cell} (took : onWriteFails client = some next) :
      TaskStep fanout id (.writeFails id) client next
  | enqueued {client : Client Cell} {item : Outgoing} (waiting : client.activity = .enqueuing item) :
      TaskStep fanout id (.enqueue id) client { client with activity := .selecting }
  | refused {client : Client Cell} {item : Outgoing} (waiting : client.activity = .enqueuing item) :
      TaskStep fanout id (.enqueue id) client client.disconnect

/-- Everything a hub step can do to the fanout and the tasks. -/
inductive HubStep (hub : Hub Cell) (next : Hub Cell) : HubEvent Cell → Prop where
  | output {chunk : List Cell} (pushed : hub.fanout.push chunk = some next.fanout)
      (clients : next.clients = hub.clients) : HubStep hub next (.output chunk)
  | accept {id : Nat} (fresh : hub.clients id = none) (fanout : next.fanout = hub.fanout)
      (clients : next.clients = Function.update hub.clients id (some Client.connected)) :
      HubStep hub next (.accept id)
  | task {event : HubEvent Cell} {id : Nat} {client after : Client Cell}
      (known : hub.clients id = some client) (took : TaskStep hub.fanout id event client after)
      (fanout : next.fanout = hub.fanout)
      (clients : next.clients = Function.update hub.clients id (some after)) :
      HubStep hub next event
  | loop {event : HubEvent Cell} (silent : outputs [event] = [])
      (fanout : next.fanout = hub.fanout) (clients : next.clients = hub.clients) :
      HubStep hub next event

theorem on_client_cases (hub next : Hub Cell) (id : Nat)
    (task : Client Cell → Option (Client Cell)) (taken : hub.onClient id task = some next) :
    ∃ client after, hub.clients id = some client ∧ task client = some after ∧
      next = hub.setClient id after := by
  obtain ⟨client, known, rest⟩ := Option.bind_eq_some_iff.mp taken
  obtain ⟨after, took, same⟩ := Option.map_eq_some_iff.mp rest
  exact ⟨client, after, known, took, same.symm⟩

theorem when_selecting_cases (task : Client Cell → Option (Client Cell))
    (client after : Client Cell) (took : Hub.whenSelecting task client = some after) :
    client.activity = .selecting ∧ task client = some after := by
  unfold Hub.whenSelecting at took
  split at took
  · exact ⟨‹_›, took⟩
  · cases took

theorem on_enqueue_cases (hub next : Hub Cell) (id : Nat) (taken : hub.onEnqueue id = some next) :
    ∃ client after, hub.clients id = some client ∧ TaskStep hub.fanout id (.enqueue id) client after ∧
      next.fanout = hub.fanout ∧
      next.clients = Function.update hub.clients id (some after) := by
  obtain ⟨client, known, rest⟩ := Option.bind_eq_some_iff.mp taken
  split at rest
  · rename_i item waiting
    by_cases serving : hub.serving = true
    · refine ⟨client, _, known, .enqueued waiting, ?_⟩
      rw [if_pos serving] at rest
      cases item <;>
      · dsimp only at rest
        split at rest
        · cases rest
          exact ⟨rfl, rfl⟩
        · cases rest
    · refine ⟨client, _, known, .refused waiting, ?_⟩
      rw [if_neg serving] at rest
      cases rest
      exact ⟨rfl, rfl⟩
  · cases rest

/-- The inversion every later proof about the hub goes through. -/
theorem hub_step_cases (hub next : Hub Cell) (event : HubEvent Cell)
    (taken : hub.step event = some next) : HubStep hub next event := by
  cases event with
  | output chunk =>
    obtain ⟨fanout, pushed, rfl⟩ := Option.map_eq_some_iff.mp taken
    exact .output pushed rfl
  | accept id =>
    simp only [Hub.step] at taken
    split at taken
    · rename_i allowed
      cases taken
      exact .accept (Option.isNone_iff_eq_none.mp allowed.2) rfl rfl
    · cases taken
  | input id input =>
    obtain ⟨client, after, known, took, rfl⟩ := on_client_cases hub next id _ taken
    obtain ⟨selecting, took⟩ := when_selecting_cases _ client after took
    exact .task known (.input selecting took) rfl rfl
  | live id =>
    obtain ⟨client, after, known, took, rfl⟩ := on_client_cases hub next id _ taken
    obtain ⟨selecting, took⟩ := when_selecting_cases _ client after took
    exact .task known (.live selecting took) rfl rfl
  | write id count =>
    obtain ⟨client, after, known, took, rfl⟩ := on_client_cases hub next id _ taken
    exact .task known (.write took) rfl rfl
  | written id =>
    obtain ⟨client, after, known, took, rfl⟩ := on_client_cases hub next id _ taken
    exact .task known (.written took) rfl rfl
  | writeFails id =>
    obtain ⟨client, after, known, took, rfl⟩ := on_client_cases hub next id _ taken
    exact .task known (.writeFails took) rfl rfl
  | enqueue id =>
    obtain ⟨client, after, known, took, fanout, clients⟩ := on_enqueue_cases hub next id taken
    exact .task known took fanout clients
  | takePush =>
    cases queue : hub.pushQueue with
    | nil => simp [Hub.step, queue] at taken
    | cons data rest =>
      simp only [Hub.step, queue, Option.some.injEq] at taken
      subst next
      exact .loop rfl rfl rfl
  | takeControl =>
    cases queue : hub.controlQueue with
    | nil => simp [Hub.step, queue] at taken
    | cons command rest =>
      simp only [Hub.step, queue, Option.some.injEq] at taken
      subst next
      exact .loop rfl rfl rfl
  | stop =>
    cases taken
    exact .loop rfl rfl rfl

/-- One client across a step of the hub: the step was its own, or it is unchanged. -/
theorem known_client_cases (hub next : Hub Cell) (event : HubEvent Cell) (id : Nat)
    (client : Client Cell) (known : hub.clients id = some client)
    (taken : hub.step event = some next) :
    next.clients id = some client ∨
      ∃ after, next.clients id = some after ∧ TaskStep hub.fanout id event client after ∧
        next.fanout = hub.fanout := by
  cases hub_step_cases hub next event taken with
  | output pushed clients => exact Or.inl (by rw [clients, known])
  | @accept other fresh fanout clients =>
    have different : id ≠ other := by
      rintro rfl
      rw [known] at fresh
      cases fresh
    exact Or.inl (by rw [clients, Function.update_of_ne different, known])
  | @task event other mover after moverKnown took fanout clients =>
    by_cases mine : id = other
    · subst mine
      have same : mover = client := Option.some.inj (moverKnown.symm.trans known)
      subst same
      exact Or.inr ⟨after, by rw [clients, Function.update_self], took, fanout⟩
    · exact Or.inl (by rw [clients, Function.update_of_ne mine, known])
  | loop silent fanout clients => exact Or.inl (by rw [clients, known])

/-- How far one attachment has come. `lead` is what the attach itself replays,
`start` the receiver's position at that moment, `before` the socket then. -/
inductive Progress (tx : Channel (List Cell)) (start : Nat) (lead before : List Cell) :
    Client Cell → Prop where
  | replaying {attached : Option Receiver} {rx : Receiver} {written rest : List Cell}
      (position : rx.next = start) (split : written ++ rest = lead) :
      Progress tx start lead before
        { attached := attached, activity := .writingSnapshot rest rx, socket := before ++ written }
  | following {rx : Receiver} {activity : Activity Cell}
      (idle : activity = .selecting ∨ ∃ item, activity = .enqueuing item)
      (subscribed : start ≤ rx.next) (known : rx.next ≤ tx.sent.length) :
      Progress tx start lead before
        { attached := some rx, activity := activity
          socket := before ++ (lead ++ (tx.delivered start rx).flatten) }
  | writing {rx : Receiver} {written rest : List Cell}
      (subscribed : start ≤ rx.next) (known : rx.next ≤ tx.sent.length)
      (split : written ++ rest = lead ++ (tx.delivered start rx).flatten) :
      Progress tx start lead before
        { attached := some rx, activity := .writingLive rest, socket := before ++ written }
  | gone {attached : Option Receiver} {written : List Cell}
      (initial : written <+: lead ++ (tx.sent.drop start).flatten) :
      Progress tx start lead before
        { attached := attached, activity := .returned, socket := before ++ written }

theorem flatten_initial {left right : List (List Cell)} (initial : left <+: right) :
    left.flatten <+: right.flatten := by
  obtain ⟨rest, rfl⟩ := initial
  rw [List.flatten_append]
  exact List.prefix_append _ _

/-- In every state of an attachment the bytes written since it began are an
initial stretch of what it replays followed by what was sent after it. -/
theorem progress_written (tx : Channel (List Cell)) (start : Nat) (lead before : List Cell)
    (client : Client Cell) (progress : Progress tx start lead before client) :
    ∃ written, client.socket = before ++ written ∧
      written <+: lead ++ (tx.sent.drop start).flatten := by
  cases progress with
  | replaying position split =>
    refine ⟨_, rfl, ?_⟩
    rw [← split, List.append_assoc]
    exact List.prefix_append _ _
  | following idle subscribed known =>
    refine ⟨_, rfl, ?_⟩
    exact (List.prefix_append_right_inj lead).mpr
      (flatten_initial (delivered_is_initial tx start _))
  | @writing rx written rest subscribed known split =>
    refine ⟨_, rfl, ?_⟩
    have whole := (List.prefix_append_right_inj lead).mpr
      (flatten_initial (delivered_is_initial tx start rx))
    rw [← split] at whole
    exact (List.prefix_append _ _).trans whole
  | gone initial => exact ⟨_, rfl, initial⟩

theorem progress_disconnect (tx : Channel (List Cell)) (start : Nat) (lead before : List Cell)
    (client : Client Cell) (progress : Progress tx start lead before client) :
    Progress tx start lead before client.disconnect := by
  obtain ⟨written, socket, initial⟩ := progress_written tx start lead before client progress
  have same : client.disconnect =
      { attached := client.attached, activity := .returned, socket := before ++ written } := by
    rw [Client.disconnect, socket]
  rw [same]
  exact .gone initial

theorem progress_later (tx : Channel (List Cell)) (start : Nat) (lead before : List Cell)
    (newer : List (List Cell)) (client : Client Cell) (bound : start ≤ tx.sent.length)
    (progress : Progress tx start lead before client) :
    Progress { tx with sent := tx.sent ++ newer } start lead before client := by
  have longer (position : Nat) (known : position ≤ tx.sent.length) :
      position ≤ (tx.sent ++ newer).length := by
    rw [List.length_append]
    exact Nat.le_trans known (Nat.le_add_right _ _)
  cases progress with
  | replaying position split => exact .replaying position split
  | following idle subscribed known =>
    rw [← later_delivered tx newer start _ known]
    exact .following idle subscribed (longer _ known)
  | writing subscribed known split =>
    rw [← later_delivered tx newer start _ known] at split
    exact .writing subscribed (longer _ known) split
  | gone initial =>
    refine .gone (initial.trans ?_)
    rw [List.drop_append_of_le_length bound, List.flatten_append, ← List.append_assoc]
    exact List.prefix_append _ _

theorem progress_write (tx : Channel (List Cell)) (start : Nat) (lead before : List Cell)
    (client next : Client Cell) (count : Nat) (progress : Progress tx start lead before client)
    (took : onWrite client count = some next) : Progress tx start lead before next := by
  cases progress with
  | @replaying attached rx written rest position split =>
    simp only [onWrite] at took
    split at took
    · cases took
      rw [List.append_assoc]
      exact .replaying position (by rw [List.append_assoc, List.take_append_drop, split])
    · cases took
  | following idle subscribed known => rcases idle with rfl | ⟨item, rfl⟩ <;> cases took
  | @writing rx written rest subscribed known split =>
    simp only [onWrite] at took
    split at took
    · cases took
      rw [List.append_assoc]
      exact .writing subscribed known (by rw [List.append_assoc, List.take_append_drop, split])
    · cases took
  | gone initial => cases took

theorem progress_finished (tx : Channel (List Cell)) (start : Nat) (lead before : List Cell)
    (client next : Client Cell) (bound : start ≤ tx.sent.length)
    (progress : Progress tx start lead before client) (took : onWritten client = some next) :
    Progress tx start lead before next := by
  cases progress with
  | @replaying attached rx written rest position split =>
    cases rest with
    | nil =>
      cases took
      -- the receiver has not been read while the snapshot was going out
      have nothing : tx.delivered start rx = [] := by
        rw [Channel.delivered, position, List.drop_take_self]
      rw [List.append_nil] at split
      subst written
      have followed : Progress tx start lead before { attached := some rx, activity := .selecting
                                                      socket := before ++ (lead ++
                                                        (tx.delivered start rx).flatten) } :=
        .following (Or.inl rfl) (by omega) (by omega)
      rwa [nothing, List.flatten_nil, List.append_nil] at followed
    | cons cell rest => cases took
  | following idle subscribed known => rcases idle with rfl | ⟨item, rfl⟩ <;> cases took
  | @writing rx written rest subscribed known split =>
    cases rest with
    | nil =>
      cases took
      rw [List.append_nil] at split
      rw [split]
      exact .following (Or.inl rfl) subscribed known
    | cons cell rest => cases took
  | gone initial => cases took

/-- A live receive hands over the next message, or the task ends at the gap. -/
theorem progress_live (fanout : Fanout Cell) (start : Nat) (lead before : List Cell)
    (client next : Client Cell) (progress : Progress fanout.tx start lead before client)
    (selecting : client.activity = .selecting) (took : onLive fanout client = some next) :
    Progress fanout.tx start lead before next := by
  have ended := progress_disconnect fanout.tx start lead before client progress
  cases progress with
  | replaying position split => cases selecting
  | @following rx activity idle subscribed known =>
    simp only [onLive] at took
    cases given : fanout.tx.recv rx with
    | empty => simp [given] at took
    | lagged missed after =>
      simp only [given, Option.some.injEq] at took
      rwa [← took]
    | item data after =>
      simp only [given, Option.some.injEq] at took
      obtain ⟨moved, bound, delivered⟩ := recv_item fanout.tx start rx after data subscribed given
      rw [← took]
      refine .writing (by omega) (by omega) ?_
      rw [delivered, List.flatten_append, List.append_assoc]
      simp
  | writing subscribed known split => cases selecting
  | gone initial => cases selecting

/-- What any input but Attach and Detach does to a task. -/
theorem input_cases (fanout : Fanout Cell) (id : Nat) (client next : Client Cell) (input : Input)
    (took : onInput fanout client input = some next)
    (same : ¬ EndsAttachment id (.input id input : HubEvent Cell)) :
    next = client ∨ next = client.disconnect ∨
      ∃ item, next = { client with activity := .enqueuing item } := by
  cases input with
  | protocolError =>
    cases took
    exact Or.inr (Or.inl rfl)
  | closed =>
    cases took
    exact Or.inr (Or.inl rfl)
  | frame msg =>
    cases msg with
    | attach skipRing => exact absurd rfl same
    | detach => exact absurd rfl same
    | push data =>
      cases took
      exact Or.inr (Or.inr ⟨_, rfl⟩)
    | winch rows cols =>
      cases took
      exact Or.inr (Or.inr ⟨_, rfl⟩)
    | redraw method rows cols =>
      simp only [onInput] at took
      split at took
      · cases took
        exact Or.inr (Or.inr ⟨_, rfl⟩)
      · cases took
        exact Or.inl rfl
    | kill signal =>
      cases took
      exact Or.inr (Or.inr ⟨_, rfl⟩)

theorem progress_input (fanout : Fanout Cell) (id start : Nat) (lead before : List Cell)
    (client next : Client Cell) (input : Input)
    (progress : Progress fanout.tx start lead before client)
    (selecting : client.activity = .selecting)
    (took : onInput fanout client input = some next)
    (same : ¬ EndsAttachment id (.input id input : HubEvent Cell)) :
    Progress fanout.tx start lead before next := by
  have ended := progress_disconnect fanout.tx start lead before client progress
  rcases input_cases fanout id client next input took same with rfl | rfl | ⟨item, rfl⟩
  · exact progress
  · exact ended
  · cases progress with
    | replaying position split => cases selecting
    | following idle subscribed known => exact .following (Or.inr ⟨item, rfl⟩) subscribed known
    | writing subscribed known split => cases selecting
    | gone initial => cases selecting

theorem progress_task (fanout : Fanout Cell) (id start : Nat) (lead before : List Cell)
    (client next : Client Cell) (event : HubEvent Cell) (bound : start ≤ fanout.tx.sent.length)
    (progress : Progress fanout.tx start lead before client)
    (took : TaskStep fanout id event client next) (same : ¬ EndsAttachment id event) :
    Progress fanout.tx start lead before next := by
  have ended := progress_disconnect fanout.tx start lead before client progress
  cases took with
  | input selecting took =>
    exact progress_input fanout id start lead before client next _ progress selecting took same
  | live selecting took =>
    exact progress_live fanout start lead before client next progress selecting took
  | write took => exact progress_write fanout.tx start lead before client next _ progress took
  | written took => exact progress_finished fanout.tx start lead before client next bound progress took
  | writeFails took =>
    have closed : next = client.disconnect := by
      unfold onWriteFails at took
      split at took <;> cases took <;> rfl
    rwa [closed]
  | @enqueued client item waiting =>
    cases progress with
    | replaying position split => cases waiting
    | following idle subscribed known => exact .following (Or.inl rfl) subscribed known
    | writing subscribed known split => cases waiting
    | gone initial => cases waiting
  | refused waiting => exact ended

/-- The hub seen from one attachment. `pushed` is the output since it began. -/
structure Attached (scrollback id start : Nat) (lead before earlier pushed : List Cell)
    (hub : Hub Cell) : Prop where
  fanout : hub.fanout.Represents scrollback (earlier ++ pushed)
  bound : start ≤ hub.fanout.tx.sent.length
  since : (hub.fanout.tx.sent.drop start).flatten = pushed
  progress : ∃ client, hub.clients id = some client ∧
    Progress hub.fanout.tx start lead before client

theorem task_socket (fanout : Fanout Cell) (id : Nat) (client next : Client Cell)
    (event : HubEvent Cell) (took : TaskStep fanout id event client next) :
    client.socket <+: next.socket := by
  have same : next.socket = client.socket → client.socket <+: next.socket := fun same =>
    same ▸ List.prefix_refl _
  cases took with
  | @input _ _ input selecting took =>
    apply same
    by_cases ends : EndsAttachment id (.input id input : HubEvent Cell)
    · cases input with
      | frame msg =>
        cases msg with
        | attach skipRing =>
          simp only [onInput, Option.bind_eq_bind, Option.bind_eq_some_iff] at took
          obtain ⟨⟨snapshot, rx⟩, _, took⟩ := took
          split at took <;> cases took <;> rfl
        | detach =>
          cases took
          rfl
        | _ => cases ends
      | _ => cases ends
    · rcases input_cases fanout id client next input took ends with rfl | rfl | ⟨item, rfl⟩ <;> rfl
  | live selecting took =>
    apply same
    unfold onLive at took
    split at took
    · cases took
    · split at took <;> cases took <;> rfl
  | write took =>
    unfold onWrite at took
    split at took
    · split at took <;> cases took
      exact List.prefix_append _ _
    · split at took <;> cases took
      exact List.prefix_append _ _
    · cases took
  | written took =>
    apply same
    unfold onWritten at took
    split at took <;> cases took <;> rfl
  | writeFails took =>
    apply same
    unfold onWriteFails at took
    split at took <;> cases took <;> rfl
  | enqueued waiting => exact same rfl
  | refused waiting => exact same rfl

theorem socket_grows (hub next : Hub Cell) (event : HubEvent Cell) (id : Nat)
    (taken : hub.step event = some next) : hub.socket id <+: next.socket id := by
  cases known : hub.clients id with
  | none =>
    simp only [Hub.socket, known]
    exact List.nil_prefix
  | some client =>
    rcases known_client_cases hub next event id client known taken with still | ⟨after, now, took, _⟩
    · simp [Hub.socket, known, still]
    · simpa [Hub.socket, known, now] using task_socket hub.fanout id client after event took

theorem outputs_append (first second : List (HubEvent Cell)) :
    outputs (first ++ second) = outputs first ++ outputs second := by
  induction first with
  | nil => rfl
  | cons event rest ih => cases event <;> simp [outputs, ih]

theorem hub_step_fanout (scrollback : Nat) (output : List Cell) (hub next : Hub Cell)
    (event : HubEvent Cell) (rep : hub.fanout.Represents scrollback output)
    (taken : hub.step event = some next) :
    next.fanout.Represents scrollback (output ++ outputs [event]) := by
  cases hub_step_cases hub next event taken with
  | @output chunk appended clients =>
    obtain ⟨fanout, there, _, after⟩ :=
      Fanout.push_represents hub.fanout scrollback output chunk rep
    have identical : next.fanout = fanout := Option.some.inj (appended.symm.trans there)
    rw [identical]
    simpa [outputs] using after
  | accept fresh fanout clients =>
    rw [fanout]
    simpa [outputs] using rep
  | task known took fanout clients =>
    have quiet : outputs [event] = [] := by cases took <;> rfl
    rw [fanout, quiet, List.append_nil]
    exact rep
  | loop quiet fanout clients =>
    rw [fanout, quiet, List.append_nil]
    exact rep

theorem hub_step_output (hub next : Hub Cell) (chunk : List Cell)
    (taken : hub.step (.output chunk) = some next) :
    next.fanout.tx = { hub.fanout.tx with sent := hub.fanout.tx.sent ++ [chunk] } := by
  obtain ⟨fanout, pushed, rfl⟩ := Option.map_eq_some_iff.mp taken
  simp only [Fanout.push, Option.bind_eq_bind, Option.bind_eq_some_iff, Option.some.injEq] at pushed
  obtain ⟨ring, _, rfl⟩ := pushed
  rfl

theorem hub_step_quiet (hub next : Hub Cell) (event : HubEvent Cell)
    (other : ∀ chunk, event ≠ .output chunk) (taken : hub.step event = some next) :
    next.fanout = hub.fanout := by
  cases hub_step_cases hub next event taken with
  | output pushed clients => exact absurd rfl (other _)
  | accept fresh fanout clients => exact fanout
  | task known took fanout clients => exact fanout
  | loop silent fanout clients => exact fanout

theorem hub_step_history (hub next : Hub Cell) (event : HubEvent Cell)
    (taken : hub.step event = some next) :
    ∃ newer, next.fanout.tx = { hub.fanout.tx with sent := hub.fanout.tx.sent ++ newer } ∧
      newer.flatten = outputs [event] := by
  by_cases output : ∃ chunk, event = .output chunk
  · obtain ⟨chunk, rfl⟩ := output
    exact ⟨[chunk], hub_step_output hub next chunk taken, by simp [outputs]⟩
  · have other (chunk : List Cell) : event ≠ .output chunk := fun same => output ⟨chunk, same⟩
    have silent : outputs [event] = [] := by
      cases event with
      | output chunk => exact absurd rfl (other chunk)
      | _ => rfl
    exact ⟨[], by rw [hub_step_quiet hub next event other taken, List.append_nil], silent.symm⟩

theorem attached_step (scrollback id start : Nat) (lead before earlier pushed : List Cell)
    (hub next : Hub Cell) (event : HubEvent Cell)
    (attached : Attached scrollback id start lead before earlier pushed hub)
    (same : ¬ EndsAttachment id event) (taken : hub.step event = some next) :
    Attached scrollback id start lead before earlier (pushed ++ outputs [event]) next := by
  obtain ⟨client, known, progress⟩ := attached.progress
  have rep := hub_step_fanout scrollback (earlier ++ pushed) hub next event attached.fanout taken
  obtain ⟨newer, tx, output⟩ := hub_step_history hub next event taken
  constructor
  · rwa [← List.append_assoc]
  · rw [tx, List.length_append]
    exact Nat.le_trans attached.bound (Nat.le_add_right _ _)
  · rw [tx, List.drop_append_of_le_length attached.bound, List.flatten_append, attached.since, output]
  · rcases known_client_cases hub next event id client known taken with
      still | ⟨after, now, took, fanout⟩
    · refine ⟨client, still, ?_⟩
      rw [tx]
      exact progress_later hub.fanout.tx start lead before newer client attached.bound progress
    · refine ⟨after, now, ?_⟩
      rw [fanout]
      exact progress_task hub.fanout id start lead before client after event attached.bound progress
        took same

theorem run_fanout [Inhabited Cell] (scrollback broadcast : Nat) (hub last : Hub Cell)
    (events : List (HubEvent Cell)) (started : Hub.start scrollback broadcast = some hub)
    (ran : run Hub.step hub events = some last) :
    last.fanout.Represents scrollback (outputs events) := by
  have initial : hub.fanout.Represents scrollback [] := by
    obtain ⟨fanout, created, rfl⟩ := hub_start_cases _ _ _ started
    exact Fanout.new_represents scrollback broadcast fanout created
  exact run_history_invariant Hub.step
    (fun past state => state.fanout.Represents scrollback (outputs past))
    (fun past state event next rep taken => by
      rw [outputs_append]
      exact hub_step_fanout scrollback _ state next event rep taken)
    [] events hub last initial ran

/-- The state right after an attach, whatever the client was doing before. -/
theorem attach_opens (scrollback id : Nat) (skipRing : Bool) (output : List Cell)
    (hub opened : Hub Cell) (rep : hub.fanout.Represents scrollback output)
    (attach : hub.step (.input id (.frame (.attach skipRing))) = some opened) :
    Attached scrollback id hub.fanout.tx.sent.length
      (if skipRing then [] else output.rtake scrollback) (hub.socket id) output [] opened := by
  obtain ⟨client, after, known, took, rfl⟩ := on_client_cases hub opened id _ attach
  obtain ⟨selecting, took⟩ := when_selecting_cases _ client after took
  have socket : hub.socket id = client.socket := by simp [Hub.socket, known]
  refine ⟨by simpa using rep, Nat.le_refl _, by simp, after, by simp, ?_⟩
  rw [socket, Hub.setClient_fanout]
  have cases_took : (if skipRing then
      some { client with attached := some hub.fanout.tx.subscribe }
      else some { client with activity := .writingSnapshot (output.rtake scrollback)
                                hub.fanout.tx.subscribe }) = some after := by
    simpa [onInput, Fanout.attach_exact hub.fanout scrollback output rep] using took
  -- without the ring the client follows at once, with it a replay comes first
  cases skipRing with
  | true =>
    cases cases_took
    have start : Progress hub.fanout.tx hub.fanout.tx.sent.length [] client.socket
        { attached := some hub.fanout.tx.subscribe, activity := client.activity
          socket := client.socket ++ ([] ++ (hub.fanout.tx.delivered hub.fanout.tx.sent.length
            hub.fanout.tx.subscribe).flatten) } :=
      .following (Or.inl selecting) (Nat.le_refl _) (Nat.le_refl _)
    simpa [subscribe_delivered] using start
  | false =>
    cases cases_took
    have start : Progress hub.fanout.tx hub.fanout.tx.sent.length (output.rtake scrollback)
        client.socket { attached := client.attached
                        activity := .writingSnapshot (output.rtake scrollback)
                          hub.fanout.tx.subscribe
                        socket := client.socket ++ [] } :=
      .replaying rfl (List.nil_append _)
    simpa using start

theorem attached_run (scrollback id start : Nat) (lead before earlier : List Cell)
    (hub last : Hub Cell) (events : List (HubEvent Cell))
    (opened : Attached scrollback id start lead before earlier [] hub)
    (same : ∀ event ∈ events, ¬ EndsAttachment id event)
    (ran : run Hub.step hub events = some last) :
    Attached scrollback id start lead before earlier (outputs events) last :=
  run_guarded_invariant Hub.step (fun _ event => ¬ EndsAttachment id event)
    (fun past state => Attached scrollback id start lead before earlier (outputs past) state)
    (fun past state event next kept allowed taken => by
      rw [outputs_append]
      exact attached_step scrollback id start lead before earlier _ state next event kept allowed
        taken)
    [] events hub last opened (meets_of_forall Hub.step _ hub events same) ran

/-- From an Attach that asks for the ring to the client's next Attach or
Detach, its socket gets an initial stretch of the scrollback at the attach
followed by everything pushed afterwards; a receiver that was overrun ends the
connection at its next receive and writes nothing. -/
theorem attachment_is_contiguous [Inhabited Cell] (scrollback broadcast id : Nat)
    (hub reached opened last : Hub Cell) (before after : List (HubEvent Cell))
    (started : Hub.start scrollback broadcast = some hub)
    (ran : run Hub.step hub before = some reached)
    (attach : reached.step (.input id (.frame (.attach false))) = some opened)
    (continued : run Hub.step opened after = some last)
    (same : ∀ event ∈ after, ¬ EndsAttachment id event) :
    (∃ written, last.socket id = reached.socket id ++ written ∧
      written <+: (outputs before).rtake scrollback ++ outputs after) ∧
    ∀ client rx, last.clients id = some client → client.activity = .selecting →
      client.attached = some rx → last.fanout.tx.Overrun rx →
      last.step (.live id) = some (last.setClient id client.disconnect) := by
  have rep := run_fanout scrollback broadcast hub reached before started ran
  have view := attached_run scrollback id _ _ _ _ opened last after
    (attach_opens scrollback id false _ reached opened rep attach) same continued
  constructor
  · obtain ⟨client, known, progress⟩ := view.progress
    obtain ⟨written, socket, initial⟩ := progress_written _ _ _ _ client progress
    refine ⟨written, by rw [← socket]; simp [Hub.socket, known], ?_⟩
    rw [view.since] at initial
    exact initial
  · intro client rx known selecting following overrun
    obtain ⟨missed, oldest, lagged⟩ := recv_overrun last.fanout.tx rx overrun
    simp [Hub.step, Hub.onClient, known, Hub.whenSelecting, selecting, onLive, following, lagged]

/-- A ring of two cells and one broadcast slot: the second live chunk overruns
the receiver while the snapshot is still being written. -/
theorem attachment_is_contiguous_overrun :
    ∃ hub reached opened last : Hub Nat, Hub.start 2 1 = some hub ∧
      run Hub.step hub [.output [1, 2, 3], .accept 7] = some reached ∧
      reached.step (.input 7 (.frame (.attach false))) = some opened ∧
      run Hub.step opened [.output [4], .write 7 1, .output [5], .write 7 1, .written 7] =
        some last ∧
      ((∃ written, last.socket 7 = reached.socket 7 ++ written ∧ written <+: [2, 3] ++ [4, 5]) ∧
        ∀ client rx, last.clients 7 = some client → client.activity = .selecting →
          client.attached = some rx → last.fanout.tx.Overrun rx →
          last.step (.live 7) = some (last.setClient 7 client.disconnect)) := by
  refine ⟨_, _, _, _, rfl, rfl, rfl, rfl, ?_⟩
  exact attachment_is_contiguous 2 1 7 _ _ _ _ [.output [1, 2, 3], .accept 7]
    [.output [4], .write 7 1, .output [5], .write 7 1, .written 7] rfl rfl rfl rfl
    (by simp [EndsAttachment])

end Hytch.Attachments
