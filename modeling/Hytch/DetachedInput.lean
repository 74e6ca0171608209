import Hytch.Connections

/-!
Typed input and the end of a connection. The task of a client reads frames and
writes output; it returns as soon as either fails. At the end of the stream it
has decoded everything, but a failed write, or a receiver that was overrun, ends
it with whatever frames are still unread.
-/

namespace Hytch.DetachedInput

open BroadcastChannel IncrementalDecoding MessageCodec HandleClient Attachments DaemonRun
  Connections Runs

def Ended (system : System) (id : Nat) : Prop :=
  ∃ client, system.daemon.hub.clients id = some client ∧ client.activity = .returned

/-- Every push that was sent is in the channel once the task is over. -/
def InputKept (id : Nat) (system : System) : Prop :=
  Ended system id → payloadsBy id system.daemon.enqueued =
    pushesOf (drain (decoder codec) (system.wire id).sent).items

/-- No complete push among the bytes not decoded yet. -/
def NothingUnread (wire : Wire) : Prop :=
  pushesOf (drain (decoder codec) (wire.buffer ++ wire.unread)).items = []

def Overrun (system : System) (id : Nat) : Prop :=
  ∃ client rx, system.daemon.hub.clients id = some client ∧ client.attached = some rx ∧
    system.daemon.hub.fanout.tx.Overrun rx

/-- Where the task gives up its connection for the sake of the output, no push is
waiting to be read. -/
def LeavesNothing (id : Nat) (system : System) : SystemEvent → Prop
  | .daemon (.task (.writeFails writer)) => writer = id → NothingUnread (system.wire id)
  | .daemon (.task (.live receiver)) =>
      receiver = id → Overrun system id → NothingUnread (system.wire id)
  | _ => True

theorem leaves_nothing (id : Nat) (system : System) (event : SystemEvent)
    (nothing : NothingUnread (system.wire id)) : LeavesNothing id system event := by
  cases event with
  | daemon event =>
    cases event with
    | task event =>
      cases event with
      | writeFails writer => exact fun _ => nothing
      | live receiver => exact fun _ _ => nothing
      | _ => exact trivial
    | _ => exact trivial
  | _ => exact trivial

/-- What was sent is in the channel, in hand, or unread. -/
theorem input_kept_iff (system : System) (id : Nat) (accounted : Accounted system id) :
    InputKept id system ↔ (Ended system id → NothingUnread (system.wire id)) := by
  refine forall_congr' fun ended => ?_
  obtain ⟨client, known, isOver⟩ := ended
  obtain ⟨consumed, decoded, split, whole, put⟩ := pushes_accounted system id accounted
  have nothing : payloads (held system.daemon.hub id) = [] := by
    simp [held, known, holding, isOver, payloads]
  rw [nothing, List.append_nil] at put
  rw [split, drain_behind (decoder codec) _ _ _ whole, pushesOf_append, put, NothingUnread]
  exact List.self_eq_append_right

theorem overrun_ends (fanout : Fanout UInt8) (client after : Client UInt8) (rx : Receiver)
    (attached : client.attached = some rx) (overrun : fanout.tx.Overrun rx)
    (took : onLive fanout client = some after) : after.activity = .returned := by
  obtain ⟨missed, later, lagged⟩ := recv_overrun fanout.tx rx overrun
  simp only [onLive, attached, lagged, Option.some.injEq] at took
  subst took
  rfl

theorem failed_write_ends (client after : Client UInt8)
    (took : onWriteFails client = some after) : after.activity = .returned := by
  unfold onWriteFails at took
  split at took
  · cases took
    rfl
  · cases took
    rfl
  · cases took

theorem frame_goes_on (fanout : Fanout UInt8) (client after : Client UInt8) (msg : Message)
    (running : client.activity ≠ .returned)
    (took : onInput fanout client (.frame msg) = some after) : after.activity ≠ .returned := by
  cases msg with
  | attach skipRing =>
    simp only [onInput, Option.bind_eq_bind, Option.bind_eq_some_iff] at took
    obtain ⟨_, _, took⟩ := took
    split at took
    · cases took
      exact running
    · cases took
      simp
  | detach =>
    cases took
    exact running
  | redraw method rows cols =>
    simp only [onInput] at took
    split at took
    · cases took
      simp
    · cases took
      exact running
  | _ =>
    cases took
    simp

theorem live_ends (fanout : Fanout UInt8) (client after : Client UInt8)
    (took : onLive fanout client = some after) (isOver : after.activity = .returned) :
    ∃ rx, client.attached = some rx ∧ fanout.tx.Overrun rx := by
  unfold onLive at took
  split at took
  · cases took
  · rename_i rx attached
    by_cases overrun : fanout.tx.Overrun rx
    · exact ⟨rx, attached, overrun⟩
    · split at took
      · cases took
      · rename_i missed later lagged
        simp only [Channel.recv, if_neg overrun] at lagged
        split at lagged <;> cases lagged
      · cases took
        cases isOver

theorem task_ends (fanout : Fanout UInt8) (id : Nat) (event : HubEvent UInt8)
    (client after : Client UInt8) (took : TaskStep fanout id event client after)
    (running : client.activity ≠ .returned) (isOver : after.activity = .returned) :
    event = .input id .closed ∨ event = .input id .protocolError ∨ event = .writeFails id ∨
      event = .enqueue id ∨
      (event = .live id ∧ ∃ rx, client.attached = some rx ∧ fanout.tx.Overrun rx) := by
  cases took with
  | @input _ _ input selecting took =>
    cases input with
    | closed => exact .inl rfl
    | protocolError => exact .inr (.inl rfl)
    | frame msg => exact absurd isOver (frame_goes_on fanout client after msg running took)
  | live selecting took =>
    exact .inr (.inr (.inr (.inr ⟨rfl, live_ends fanout client after took isOver⟩)))
  | write took =>
    unfold onWrite at took
    split at took
    · split at took <;> cases took
      cases isOver
    · split at took <;> cases took
      cases isOver
    · cases took
  | written took =>
    unfold onWritten at took
    split at took <;> cases took <;> cases isOver
  | writeFails took => exact .inr (.inr (.inl rfl))
  | enqueued waiting => cases isOver
  | refused waiting => exact .inr (.inr (.inr (.inl rfl)))

theorem daemon_ends (system : System) (next : Daemon) (event : DaemonEvent) (id : Nat)
    (isOpen : Open system.daemon) (running : ¬ Ended system id)
    (isOver : Ended { system with daemon := next } id) (taken : system.daemon.step event = some next) :
    event = .task (.input id .closed) ∨ event = .task (.input id .protocolError) ∨
      event = .task (.writeFails id) ∨ (event = .task (.live id) ∧ Overrun system id) := by
  obtain ⟨after, now, returned⟩ := isOver
  cases before : system.daemon.hub.clients id with
  | none =>
    obtain unknown | fresh := unknown_move system.daemon next event id before taken
    · rw [unknown] at now
      cases now
    · rw [fresh] at now
      cases now
      cases returned
  | some client =>
    have active : client.activity ≠ .returned := fun isOver => running ⟨client, before, isOver⟩
    have unchanged (clients : next.hub.clients id = some client) : False := by
      rw [clients] at now
      cases now
      exact active returned
    cases party_step_cases system.daemon next event taken with
    | @task event own awaits moved enqueued backlog =>
      rcases known_client_cases _ _ _ id client before moved with same | ⟨other, also, took, _⟩
      · exact (unchanged same).elim
      · have identical : other = after := Option.some.inj (also.symm.trans now)
        subst identical
        rcases task_ends _ id event client other took active returned with
          rfl | rfl | rfl | rfl | ⟨rfl, rx, attached, overrun⟩
        · exact .inl rfl
        · exact .inr (.inl rfl)
        · exact .inr (.inr (.inl rfl))
        · obtain ⟨_, _, _, _, resumed, _⟩ :=
            enqueue_serving _ _ id (awaits_serving system.daemon isOpen awaits) moved
          rw [resumed] at now
          cases now
          cases returned
        · exact .inr (.inr (.inr ⟨rfl, client, rx, before, attached, overrun⟩))
    | @accepts _ other foreign waiting fresh clients enqueued =>
      have different : id ≠ other := by
        rintro rfl
        rw [before] at fresh
        cases fresh
      exact (unchanged (by rw [clients, Function.update_of_ne different, before])).elim
    | rests foreign clients enqueued grows => exact (unchanged (by rw [clients, before])).elim

theorem ended_frozen (system next : System) (event : SystemEvent) (id : Nat)
    (ended : Ended system id) (taken : system.step event = some next) :
    (next.wire id).buffer = (system.wire id).buffer ∧
      (next.wire id).unread = (system.wire id).unread := by
  obtain ⟨⟨attached, activity, socket⟩, known, isOver⟩ := ended
  cases isOver
  have elsewhere (owner : Nat) (wire : Wire) (different : owner ≠ id) :
      ((system.setWire owner wire).wire id).buffer = (system.wire id).buffer ∧
        ((system.setWire owner wire).wire id).unread = (system.wire id).unread := by
    rw [System.setWire_other system owner id wire (Ne.symm different)]
    exact ⟨rfl, rfl⟩
  cases system_step_cases system next event taken with
  | @peerWrites writer bytes connected opened =>
    refine elsewhere writer _ ?_
    rintro rfl
    simp [System.connected, known] at connected
  | @peerCloses closer =>
    by_cases mine : closer = id
    · subst mine
      simp
    · exact elsewhere closer _ mine
  | @fill reader count reading pending bound =>
    refine elsewhere reader _ ?_
    rintro rfl
    simp [System.reading, known] at reading
  | @frame reader msg rest daemon found moved =>
    refine elsewhere reader _ ?_
    rintro rfl
    obtain ⟨client, _, also, selecting, _, _⟩ := input_selecting _ _ _ _ moved
    rw [known] at also
    cases also
    cases selecting
  | ends last left moved => exact ⟨rfl, rfl⟩
  | daemon allowed moved => exact ⟨rfl, rfl⟩

theorem write_failed (system : System) (next : Daemon) (id : Nat)
    (taken : system.daemon.step (.task (.writeFails id)) = some next) :
    Ended { system with daemon := next } id := by
  obtain ⟨_, moved⟩ := task_moves system.daemon next _ taken
  obtain ⟨client, after, known, took, now⟩ := on_client_cases _ _ id _ moved
  exact ⟨after, by simp [now], failed_write_ends client after took⟩

theorem overrun_left (system : System) (next : Daemon) (id : Nat) (overrun : Overrun system id)
    (taken : system.daemon.step (.task (.live id)) = some next) :
    Ended { system with daemon := next } id := by
  obtain ⟨same, rx, also, attached, behind⟩ := overrun
  obtain ⟨_, moved⟩ := task_moves system.daemon next _ taken
  obtain ⟨client, after, known, took, now⟩ := on_client_cases _ _ id _ moved
  have identical : same = client := Option.some.inj (also.symm.trans known)
  subst identical
  obtain ⟨_, took⟩ := when_selecting_cases _ same after took
  exact ⟨after, by simp [now], overrun_ends _ same after rx attached behind took⟩

/-- One step of the system keeps the input exactly if it meets the condition. -/
theorem kept_turns (id : Nat) (system next : System) (event : SystemEvent)
    (isOpen : Open system.daemon) (kept : Ended system id → NothingUnread (system.wire id))
    (taken : system.step event = some next) :
    (Ended next id → NothingUnread (next.wire id)) ↔ LeavesNothing id system event := by
  by_cases ended : Ended system id
  · have nothing := kept ended
    obtain ⟨buffer, unread⟩ := ended_frozen system next event id ended taken
    refine iff_of_true (fun _ => ?_) (leaves_nothing id system event nothing)
    rw [NothingUnread, buffer, unread]
    exact nothing
  · cases system_step_cases system next event taken with
    | peerWrites connected opened => exact iff_of_true (fun isOver => absurd isOver ended) trivial
    | peerCloses => exact iff_of_true (fun isOver => absurd isOver ended) trivial
    | fill reading pending bound => exact iff_of_true (fun isOver => absurd isOver ended) trivial
    | @frame reader msg rest daemon found moved =>
      refine iff_of_true (fun isOver => ?_) trivial
      rcases daemon_ends system daemon _ id isOpen ended isOver moved with
        same | same | same | ⟨same, _⟩ <;> cases same
    | @ends reader input daemon last left moved =>
      refine iff_of_true (fun isOver => ?_) trivial
      have nothing : NothingUnread (system.wire reader) := by
        rw [NothingUnread, left]
        rfl
      rcases daemon_ends system daemon _ id isOpen ended isOver moved with
        same | same | same | ⟨same, _⟩ <;> cases same
      · exact nothing
      · exact nothing
    | @daemon event daemon allowed moved =>
      constructor
      · intro whole
        cases event with
        | task event =>
          cases event with
          | writeFails writer =>
            rintro rfl
            exact whole (write_failed system daemon writer moved)
          | live receiver =>
            rintro rfl overrun
            exact whole (overrun_left system daemon receiver overrun moved)
          | _ => exact trivial
        | _ => exact trivial
      · intro condition isOver
        rcases daemon_ends system daemon _ id isOpen ended isOver moved with
          rfl | rfl | rfl | ⟨rfl, overrun⟩
        · cases allowed
        · cases allowed
        · exact condition rfl
        · exact condition rfl overrun

/-- A client attaches, output is queued for it, it types a byte and is gone. -/
def typedAway : List SystemEvent :=
  [.daemon (.connects 0), .daemon (.select 0), .peerWrites 0 [1, 0, 0, 0, 1, 1], .fill 0 6, .next 0,
    .daemon (.childWrites [0x61]), .daemon (.select 1), .daemon .handOff,
    .peerWrites 0 [0, 0, 0, 0, 1, 0x68], .peerCloses 0]

/-- Its task reads before it takes the output. -/
def readFirst : List SystemEvent :=
  typedAway ++ [.fill 0 6, .next 0, .daemon (.task (.enqueue 0)), .daemon (.task (.live 0)),
    .daemon (.task (.writeFails 0))]

/-- Its task takes the output first, and the write fails. -/
def outputFirst : List SystemEvent :=
  typedAway ++ [.daemon (.task (.live 0)), .daemon (.task (.writeFails 0))]

end Hytch.DetachedInput
