import Hytch.DetachedInput

/-!
A connection that never attaches. Its task only reads and enqueues, so nothing but
the end of the stream ends it, and as long as something it was sent has not
arrived in the channel each of its steps brings it on.
-/

namespace Hytch.PlainConnection

open IncrementalDecoding MessageCodec HandleClient Attachments DaemonRun Connections DetachedInput Runs

def Plain (client : Client UInt8) : Prop :=
  client.attached = none ∧ (client.activity = .selecting ∨
    (∃ item, client.activity = .enqueuing item) ∨ client.activity = .returned)

theorem plain_input (fanout : Fanout UInt8) (client after : Client UInt8) (input : Input)
    (plain : Plain client) (selecting : client.activity = .selecting)
    (never : ∀ skipRing, input ≠ .frame (.attach skipRing))
    (took : onInput fanout client input = some after) : Plain after := by
  have stays : Plain client := plain
  obtain ⟨unattached, _⟩ := plain
  cases input with
  | closed =>
    cases took
    exact ⟨unattached, .inr (.inr rfl)⟩
  | protocolError =>
    cases took
    exact ⟨unattached, .inr (.inr rfl)⟩
  | frame msg =>
    cases msg with
    | attach skipRing => exact absurd rfl (never skipRing)
    | detach =>
      cases took
      exact ⟨rfl, .inl selecting⟩
    | push data =>
      cases took
      exact ⟨unattached, .inr (.inl ⟨_, rfl⟩)⟩
    | winch rows cols =>
      cases took
      exact ⟨unattached, .inr (.inl ⟨_, rfl⟩)⟩
    | redraw method rows cols =>
      simp only [onInput] at took
      split at took
      · cases took
        exact ⟨unattached, .inr (.inl ⟨_, rfl⟩)⟩
      · cases took
        exact stays
    | kill signal =>
      cases took
      exact ⟨unattached, .inr (.inl ⟨_, rfl⟩)⟩

theorem plain_task (fanout : Fanout UInt8) (id : Nat) (event : HubEvent UInt8)
    (client after : Client UInt8) (plain : Plain client)
    (never : ∀ skipRing, event ≠ .input id (.frame (.attach skipRing)))
    (took : TaskStep fanout id event client after) :
    Plain after ∧ ((∃ input, event = .input id input) ∨ event = .enqueue id) := by
  have writes_nothing : (∀ rest rx, client.activity ≠ .writingSnapshot rest rx) ∧
      ∀ rest, client.activity ≠ .writingLive rest := by
    rcases plain.2 with same | ⟨item, same⟩ | same <;> simp [same]
  obtain ⟨no_snapshot, no_live⟩ := writes_nothing
  cases took with
  | @input _ _ input selecting took =>
    refine ⟨plain_input fanout client after input plain selecting ?_ took, .inl ⟨input, rfl⟩⟩
    rintro skipRing rfl
    exact never skipRing rfl
  | live selecting took =>
    rw [onLive, plain.1] at took
    cases took
  | write took =>
    unfold onWrite at took
    split at took
    · exact absurd ‹_› (no_snapshot _ _)
    · exact absurd ‹_› (no_live _)
    · cases took
  | written took =>
    unfold onWritten at took
    split at took
    · exact absurd ‹_› (no_snapshot _ _)
    · exact absurd ‹_› (no_live _)
    · cases took
  | writeFails took =>
    unfold onWriteFails at took
    split at took
    · exact absurd ‹_› (no_snapshot _ _)
    · exact absurd ‹_› (no_live _)
    · cases took
  | enqueued waiting => exact ⟨⟨plain.1, .inl rfl⟩, .inr rfl⟩
  | refused waiting => exact ⟨⟨plain.1, .inr (.inr rfl)⟩, .inr rfl⟩

theorem decoded_sent (system : System) (id : Nat) (msg : Message) (rest : List UInt8)
    (accounted : Accounted system id)
    (found : codec.decode (system.wire id).buffer = (.ok (some msg), rest)) :
    msg ∈ (drain (decoder codec) (system.wire id).sent).items := by
  obtain ⟨consumed, decoded, split, whole, _⟩ := accounted
  have extends_to := (decoder codec).itemExtends _ msg rest (system.wire id).unread found
  rw [split, drain_behind (decoder codec) _ _ _ whole, drain_item (decoder codec) _ _ msg extends_to]
  simp

/-- No Attach among what the connection has sent so far. -/
def NoAttach (id : Nat) (system : System) : Prop :=
  ∀ skipRing, Message.attach skipRing ∉ (drain (decoder codec) (system.wire id).sent).items

/-- What holds of a connection as long as it has not sent an Attach. -/
structure Pushing (id : Nat) (system : System) : Prop where
  served : Served system
  plain : ∀ client, system.daemon.hub.clients id = some client → Plain client
  finished : Ended system id → NothingUnread (system.wire id)
  waits : system.daemon.hub.clients id = none →
    (system.wire id).sent = [] ∨ id ∈ system.daemon.backlog

/-- The client whose task the step belongs to. -/
def mover : HubEvent UInt8 → Option Nat
  | .input id _ => some id
  | .live id => some id
  | .write id _ => some id
  | .written id => some id
  | .writeFails id => some id
  | .enqueue id => some id
  | _ => none

theorem task_mover (fanout : Fanout UInt8) (id : Nat) (event : HubEvent UInt8)
    (client after : Client UInt8) (took : TaskStep fanout id event client after) :
    mover event = some id := by
  cases took <;> rfl

theorem foreign_move (daemon next : Daemon) (event : DaemonEvent) (id : Nat) (client : Client UInt8)
    (known : daemon.hub.clients id = some client)
    (foreign : ∀ task, event = .task task → mover task ≠ some id)
    (taken : daemon.step event = some next) : next.hub.clients id = some client := by
  cases party_step_cases daemon next event taken with
  | task own awaits moved enqueued backlog =>
    rcases known_client_cases _ _ _ id client known moved with same | ⟨after, _, took, _⟩
    · exact same
    · exact absurd (task_mover _ id _ client after took) (foreign _ rfl)
  | @accepts _ other _ waiting fresh clients enqueued =>
    have different : id ≠ other := by
      rintro rfl
      rw [known] at fresh
      cases fresh
    rw [clients, Function.update_of_ne different, known]
  | rests _ clients enqueued grows => rw [clients, known]

theorem plain_move (daemon next : Daemon) (event : DaemonEvent) (id : Nat)
    (plain : ∀ client, daemon.hub.clients id = some client → Plain client)
    (never : ∀ skipRing, event ≠ .task (.input id (.frame (.attach skipRing))))
    (taken : daemon.step event = some next) (client : Client UInt8)
    (known : next.hub.clients id = some client) : Plain client := by
  cases before : daemon.hub.clients id with
  | none =>
    obtain still | fresh := unknown_move daemon next event id before taken
    · rw [still] at known
      cases known
    · rw [fresh] at known
      cases known
      exact ⟨rfl, .inl rfl⟩
  | some prior =>
    by_cases mine : ∃ task, event = .task task ∧ mover task = some id
    · obtain ⟨task, rfl, _⟩ := mine
      obtain ⟨_, moved⟩ := task_moves daemon next task taken
      rcases known_client_cases _ _ _ id prior before moved with same | ⟨after, now, took, _⟩
      · rw [← Option.some.inj (same.symm.trans known)]
        exact plain prior before
      · rw [now] at known
        cases known
        refine (plain_task _ id task prior client (plain prior before) ?_ took).1
        rintro skipRing rfl
        exact never skipRing rfl
    · have same := foreign_move daemon next event id prior before
        (fun task also mine_too => mine ⟨task, also, mine_too⟩) taken
      rw [← Option.some.inj (same.symm.trans known)]
      exact plain prior before

theorem plain_leaves (id : Nat) (system next : System) (event : SystemEvent)
    (plain : ∀ client, system.daemon.hub.clients id = some client → Plain client)
    (taken : system.step event = some next) : LeavesNothing id system event := by
  cases system_step_cases system next event taken with
  | peerWrites connected opened => exact trivial
  | peerCloses => exact trivial
  | fill reading pending bound => exact trivial
  | frame found moved => exact trivial
  | ends last left moved => exact trivial
  | @daemon event daemon allowed moved =>
    cases event with
    | task event =>
      cases event with
      | writeFails writer =>
        rintro rfl
        obtain ⟨_, moved⟩ := task_moves system.daemon daemon _ moved
        obtain ⟨client, after, known, took, _⟩ := on_client_cases _ _ writer _ moved
        rcases (plain_task system.daemon.hub.fanout writer (.writeFails writer) client after
          (plain client known) (by simp) (.writeFails took)).2 with ⟨_, other⟩ | other <;> cases other
      | live receiver =>
        rintro rfl ⟨client, rx, known, attached, _⟩
        rw [(plain client known).1] at attached
        cases attached
      | _ => exact trivial
    | _ => exact trivial

theorem backlog_move (daemon next : Daemon) (event : DaemonEvent) (id : Nat)
    (taken : daemon.step event = some next) (unknown : next.hub.clients id = none) :
    daemon.hub.clients id = none ∧ (id ∈ daemon.backlog → id ∈ next.backlog) := by
  cases party_step_cases daemon next event taken with
  | task own awaits moved enqueued backlog =>
    constructor
    · cases before : daemon.hub.clients id with
      | none => rfl
      | some client =>
        rcases known_client_cases _ _ _ id client before moved with same | ⟨after, now, _⟩
        · rw [same] at unknown
          cases unknown
        · rw [now] at unknown
          cases unknown
    · rw [backlog]
      exact fun member => member
  | @accepts _ other _ waiting fresh clients enqueued =>
    have different : id ≠ other := by
      rintro rfl
      rw [clients, Function.update_self] at unknown
      cases unknown
    constructor
    · rwa [clients, Function.update_of_ne different] at unknown
    · intro member
      rw [waiting] at member
      exact (List.mem_cons.mp member).resolve_left different
  | rests _ clients enqueued grows => exact ⟨by rwa [← clients], fun member => grows.subset member⟩

/-- Nobody sends before the connection is there. -/
theorem waits_step (id : Nat) (system next : System) (event : SystemEvent)
    (waits : system.daemon.hub.clients id = none →
      (system.wire id).sent = [] ∨ id ∈ system.daemon.backlog)
    (taken : system.step event = some next) (unknown : next.daemon.hub.clients id = none) :
    (next.wire id).sent = [] ∨ id ∈ next.daemon.backlog := by
  have moves {step : DaemonEvent} {daemon : Daemon} (moved : system.daemon.step step = some daemon)
      (absent : daemon.hub.clients id = none) :
      (system.wire id).sent = [] ∨ id ∈ daemon.backlog := by
    obtain ⟨before, stays⟩ := backlog_move system.daemon daemon step id moved absent
    exact (waits before).imp_right stays
  -- nobody but the peer adds to what was sent
  have rereads (owner : Nat) (wire : Wire) (same : wire.sent = (system.wire owner).sent) :
      ((system.setWire owner wire).wire id).sent = (system.wire id).sent := by
    by_cases mine : id = owner
    · subst mine
      rw [System.setWire_same, same]
    · rw [System.setWire_other system owner id wire mine]
  cases system_step_cases system next event taken with
  | @peerWrites writer bytes connected opened =>
    by_cases mine : id = writer
    · subst mine
      have absent : system.daemon.hub.clients id = none := unknown
      exact .inr (by simpa [System.connected, absent] using connected)
    · rw [System.setWire_other system writer id _ mine]
      exact waits unknown
  | @peerCloses closer =>
    have same := rereads closer { system.wire closer with closed := true } rfl
    exact (waits unknown).imp_left same.trans
  | @fill reader count reading pending bound =>
    have same := rereads reader { system.wire reader with
      unread := (system.wire reader).unread.drop count
      buffer := (system.wire reader).buffer ++ (system.wire reader).unread.take count } rfl
    exact (waits unknown).imp_left same.trans
  | @frame reader msg rest daemon found moved =>
    have same := rereads reader { system.wire reader with buffer := rest } rfl
    exact (moves moved unknown).imp_left same.trans
  | ends last left moved => exact moves moved unknown
  | daemon allowed moved => exact moves moved unknown

theorem pushing_step (id : Nat) (system next : System) (event : SystemEvent)
    (pushing : Pushing id system) (never : NoAttach id system)
    (taken : system.step event = some next) : Pushing id next := by
  obtain ⟨served, plain, finished, waits⟩ := pushing
  constructor
  · exact served_step system next event served taken
  · cases system_step_cases system next event taken with
    | peerWrites connected opened => exact plain
    | peerCloses => exact plain
    | fill reading pending bound => exact plain
    | @frame reader msg rest daemon found moved =>
      refine plain_move system.daemon daemon _ id plain ?_ moved
      rintro skipRing ⟨⟩
      exact never skipRing (decoded_sent system id _ rest (served.accounted id) found)
    | @ends reader input daemon last left moved =>
      refine plain_move system.daemon daemon _ id plain ?_ moved
      rintro skipRing ⟨⟩
      rcases last with last | last <;> cases last
    | @daemon event daemon allowed moved =>
      refine plain_move system.daemon daemon _ id plain ?_ moved
      rintro skipRing rfl
      cases allowed
  · exact (kept_turns id system next event served.isOpen finished taken).mpr
      (plain_leaves id system next event plain taken)
  · exact fun unknown => waits_step id system next event waits taken unknown

/-- The pushes among `sent` are all in the channel. -/
def Arrived (id : Nat) (sent : List UInt8) (system : System) : Prop :=
  pushesOf (drain (decoder codec) sent).items <+: payloadsBy id system.daemon.enqueued

theorem arrived_front (id : Nat) (sent front back : List UInt8) (system : System)
    (cut : (system.wire id).sent = front ++ back) (initial : sent <+: (system.wire id).sent)
    (long : sent.length ≤ front.length)
    (there : pushesOf (drain (decoder codec) front).items = payloadsBy id system.daemon.enqueued) :
    Arrived id sent system := by
  rw [cut] at initial
  obtain ⟨more, rfl⟩ := List.prefix_of_prefix_length_le initial (List.prefix_append front back) long
  rw [Arrived, ← there]
  exact pushes_grow _ _ (drain_initial (decoder codec) sent more)

/-- As long as a push of `sent` has not arrived the task has something to do. -/
structure Short (sent : List UInt8) (wire : Wire) (client : Client UInt8) : Prop where
  running : client.activity ≠ .returned
  held : wire.buffer.length + wire.unread.length ≤ wire.sent.length
  undecoded : client.activity = .selecting →
    wire.sent.length - (wire.buffer.length + wire.unread.length) < sent.length
  unread : client.activity = .selecting → (codec.decode wire.buffer).1 = .ok none →
    wire.sent.length - wire.unread.length < sent.length
  frames : client.activity = .selecting →
    (drain (decoder codec) (wire.buffer ++ wire.unread)).items ≠ []

theorem short_of_arrived (id : Nat) (sent : List UInt8) (system : System) (client : Client UInt8)
    (pushing : Pushing id system) (known : system.daemon.hub.clients id = some client)
    (initial : sent <+: (system.wire id).sent) (short : ¬ Arrived id sent system) :
    Short sent (system.wire id) client := by
  obtain ⟨consumed, decoded, split, whole, put⟩ :=
    pushes_accounted system id (pushing.served.accounted id)
  have all := drain_behind (decoder codec) consumed
    ((system.wire id).buffer ++ (system.wire id).unread) decoded whole
  have lengths := congrArg List.length split
  simp only [List.length_append] at lengths
  have idle (activity : holding client = []) : payloads (held system.daemon.hub id) = [] := by
    rw [held, known, Option.map_some, Option.getD_some, activity]
    rfl
  -- at the select everything decoded has been put into the channel
  have put_all (activity : holding client = []) :
      pushesOf decoded = payloadsBy id system.daemon.enqueued := by
    rw [put, idle activity, List.append_nil]
  have all_read (activity : holding client = [])
      (nothing : NothingUnread (system.wire id)) : False := by
    refine short (arrived_front id sent (system.wire id).sent [] system (List.append_nil _).symm
      initial initial.length_le ?_)
    rw [split, all, pushesOf_append, put_all activity, nothing, List.append_nil]
  refine ⟨?_, by omega, ?_, ?_, ?_⟩
  · intro isOver
    exact all_read (by rw [holding, isOver]) (pushing.finished ⟨client, known, isOver⟩)
  · intro selecting
    by_contra enough
    refine short (arrived_front id sent consumed _ system split initial (by omega) ?_)
    rw [whole, put_all (holding_selecting client selecting)]
  · intro selecting pending
    by_contra enough
    have waits := drain_pending (decoder codec) (system.wire id).buffer
      (codec.decode (system.wire id).buffer).2 (Prod.ext pending rfl)
    have front := drain_behind (decoder codec) consumed (system.wire id).buffer decoded whole
    refine short (arrived_front id sent (consumed ++ (system.wire id).buffer) (system.wire id).unread
      system (by rw [split, List.append_assoc]) initial (by rw [List.length_append]; omega) ?_)
    rw [front, waits, List.append_nil, put_all (holding_selecting client selecting)]
  · intro selecting none_left
    refine all_read (holding_selecting client selecting) ?_
    rw [NothingUnread, none_left]
    rfl

def ofConnection (id : Nat) : SystemEvent → Prop
  | .fill reader _ => reader = id
  | .next reader => reader = id
  | .daemon (.task task) => mover task = some id
  | _ => False

def atSelect (client : Client UInt8) : Nat :=
  match client.activity with
  | .selecting => 1
  | _ => 0

/-- How far a task has got with the first `length` bytes: read, decoded, and done
with the last frame. -/
def advance (length : Nat) (wire : Wire) (client : Client UInt8) : Nat :=
  min (wire.sent.length - wire.unread.length) length +
    2 * min (wire.sent.length - (wire.buffer.length + wire.unread.length)) length + atSelect client

def advanceOf (id length : Nat) (system : System) : Nat :=
  match system.daemon.hub.clients id with
  | some client => advance length (system.wire id) client
  | none => 0

theorem advance_of_known (id length : Nat) (system : System) (client : Client UInt8)
    (known : system.daemon.hub.clients id = some client) :
    advanceOf id length system = advance length (system.wire id) client := by
  rw [advanceOf, known]

theorem at_select_le (client : Client UInt8) : atSelect client ≤ 1 := by
  unfold atSelect
  split <;> decide

theorem advance_bound (id length : Nat) (system : System) :
    advanceOf id length system ≤ 3 * length + 1 := by
  unfold advanceOf
  split
  · rename_i client known
    have one := at_select_le client
    have first := Nat.min_le_right ((system.wire id).sent.length - (system.wire id).unread.length) length
    have second := Nat.min_le_right ((system.wire id).sent.length -
      ((system.wire id).buffer.length + (system.wire id).unread.length)) length
    unfold advance
    omega
  · exact Nat.zero_le _

theorem plain_enqueues (hub next : Hub UInt8) (task : HubEvent UInt8) (id : Nat)
    (plain : ∀ client, hub.clients id = some client → Plain client) (own : mover task = some id)
    (reads : ∀ input, task ≠ .input id input) (moved : hub.step task = some next) :
    task = .enqueue id := by
  have takes (client after : Client UInt8) (known : hub.clients id = some client)
      (took : TaskStep hub.fanout id task client after) : task = .enqueue id := by
    rcases (plain_task hub.fanout id task client after (plain client known)
      (fun skipRing => reads _) took).2 with ⟨input, same⟩ | same
    · exact absurd same (reads input)
    · exact same
  cases task with
  | input other input =>
    cases own
    exact absurd rfl (reads input)
  | live other =>
    cases own
    obtain ⟨client, after, known, took, _⟩ := on_client_cases hub next id _ moved
    obtain ⟨selecting, took⟩ := when_selecting_cases _ client after took
    exact takes client after known (.live selecting took)
  | write other count =>
    cases own
    obtain ⟨client, after, known, took, _⟩ := on_client_cases hub next id _ moved
    exact takes client after known (.write took)
  | written other =>
    cases own
    obtain ⟨client, after, known, took, _⟩ := on_client_cases hub next id _ moved
    exact takes client after known (.written took)
  | writeFails other =>
    cases own
    obtain ⟨client, after, known, took, _⟩ := on_client_cases hub next id _ moved
    exact takes client after known (.writeFails took)
  | enqueue other =>
    cases own
    rfl
  | _ => cases own

/-- A step of the task itself brings it on. -/
theorem own_advance (id : Nat) (sent : List UInt8) (system next : System) (event : SystemEvent)
    (client : Client UInt8) (pushing : Pushing id system) (never : NoAttach id system)
    (known : system.daemon.hub.clients id = some client) (initial : sent <+: (system.wire id).sent)
    (short : ¬ Arrived id sent system) (own : ofConnection id event)
    (taken : system.step event = some next) :
    advanceOf id sent.length system < advanceOf id sent.length next := by
  obtain ⟨running, held, undecoded, unread, frames⟩ :=
    short_of_arrived id sent system client pushing known initial short
  rw [advance_of_known id _ system client known]
  cases system_step_cases system next event taken with
  | peerWrites connected opened => cases own
  | peerCloses => cases own
  | @fill reader count reading pending bound =>
    have mine : reader = id := own
    subst mine
    have selecting : client.activity = .selecting := by
      obtain ⟨attached, activity, socket⟩ := client
      cases activity <;> simp [System.reading, known] at reading ⊢
    rw [advance_of_known reader _ _ client (by exact known)]
    have less := unread selecting pending
    simp only [advance, System.setWire_same, List.length_append, List.length_drop, List.length_take]
    omega
  | @frame reader msg rest daemon found moved =>
    have mine : reader = id := own
    subst mine
    obtain ⟨same, after, also, selecting, took, now⟩ := input_selecting _ _ _ _ moved
    have identical : same = client := Option.some.inj (also.symm.trans known)
    subst identical
    rw [advance_of_known reader _ _ after (by exact now)]
    have less := undecoded selecting
    have shorter : rest.length < (system.wire reader).buffer.length :=
      (decoder codec).itemShrinks _ msg rest found
    have one := at_select_le same
    simp only [advance, System.setWire_same]
    omega
  | @ends reader input daemon last left moved =>
    have mine : reader = id := own
    subst mine
    obtain ⟨same, after, also, selecting, took, now⟩ := input_selecting _ _ _ _ moved
    have identical : same = client := Option.some.inj (also.symm.trans known)
    subst identical
    exact absurd left (frames selecting)
  | @daemon event daemon allowed moved =>
    cases event with
    | task task =>
      obtain ⟨awaits, stepped⟩ := task_moves system.daemon daemon task moved
      have reads (input : Input) : task ≠ .input id input := by
        rintro rfl
        cases allowed
      have enqueues := plain_enqueues system.daemon.hub daemon.hub task id pushing.plain own reads stepped
      subst enqueues
      obtain ⟨same, item, also, waiting, now, _⟩ := enqueue_serving _ _ id
        (awaits_serving system.daemon pushing.served.isOpen awaits) stepped
      have identical : same = client := Option.some.inj (also.symm.trans known)
      subst identical
      rw [advance_of_known id _ _ _ (by exact now)]
      simp only [advance, atSelect, waiting]
      omega
    | _ => cases own

/-- Nothing else takes it back, and it stays connected. -/
theorem foreign_advance (id length : Nat) (system next : System) (event : SystemEvent)
    (client : Client UInt8) (known : system.daemon.hub.clients id = some client)
    (foreign : ¬ ofConnection id event) (taken : system.step event = some next) :
    advanceOf id length next = advanceOf id length system := by
  have same_lengths (wire : Wire) (later : next.daemon.hub.clients id = some client)
      (now : next.wire id = wire)
      (unread : wire.sent.length - wire.unread.length =
        (system.wire id).sent.length - (system.wire id).unread.length)
      (buffer : wire.sent.length - (wire.buffer.length + wire.unread.length) =
        (system.wire id).sent.length -
          ((system.wire id).buffer.length + (system.wire id).unread.length)) :
      advanceOf id length next = advanceOf id length system := by
    rw [advance_of_known id length next client later, advance_of_known id length system client known,
      now, advance, advance, unread, buffer]
  have elsewhere (owner : Nat) (wire : Wire) (different : owner ≠ id) :
      (system.setWire owner wire).wire id = system.wire id :=
    System.setWire_other system owner id wire (Ne.symm different)
  cases system_step_cases system next event taken with
  | @peerWrites writer bytes connected opened =>
    by_cases mine : writer = id
    · subst mine
      refine same_lengths _ known (System.setWire_same _ _ _) ?_ ?_ <;>
      · simp only [List.length_append]
        omega
    · exact same_lengths _ known (elsewhere writer _ mine) rfl rfl
  | @peerCloses closer =>
    by_cases mine : closer = id
    · subst mine
      exact same_lengths _ known (System.setWire_same _ _ _) rfl rfl
    · exact same_lengths _ known (elsewhere closer _ mine) rfl rfl
  | @fill reader count reading pending bound =>
    exact same_lengths _ known (elsewhere reader _ foreign) rfl rfl
  | @frame reader msg rest daemon found moved =>
    have later := foreign_move system.daemon daemon _ id client known (by
      rintro task ⟨⟩ own
      exact foreign (Option.some.inj own)) moved
    exact same_lengths _ later (elsewhere reader _ foreign) rfl rfl
  | @ends reader input daemon last left moved =>
    have later := foreign_move system.daemon daemon _ id client known (by
      rintro task ⟨⟩ own
      exact foreign (Option.some.inj own)) moved
    exact same_lengths _ later rfl rfl rfl
  | @daemon event daemon allowed moved =>
    have later := foreign_move system.daemon daemon event id client known (by
      rintro task rfl own
      exact foreign own) moved
    exact same_lengths _ later rfl rfl rfl

theorem can_read (daemon : Daemon) (id : Nat) (client : Client UInt8) (input : Input)
    (known : daemon.hub.clients id = some client) (selecting : client.activity = .selecting)
    (awaits : daemon.phase.awaits = true) (never : ∀ skipRing, input ≠ .frame (.attach skipRing)) :
    ∃ next, daemon.step (.task (.input id input)) = some next := by
  obtain ⟨after, took⟩ : ∃ after, onInput daemon.hub.fanout client input = some after := by
    cases input with
    | frame msg =>
      cases msg with
      | attach skipRing => exact absurd rfl (never skipRing)
      | redraw method rows cols =>
        simp only [onInput]
        split <;> exact ⟨_, rfl⟩
      | _ => exact ⟨_, rfl⟩
    | _ => exact ⟨_, rfl⟩
  have stepped : daemon.hub.step (.input id input) = some (daemon.hub.setClient id after) := by
    simp [Hub.step, Hub.onClient, known, Hub.whenSelecting, selecting, took]
  exact ⟨_, by rw [Daemon.step, if_pos ⟨rfl, awaits⟩, stepped, Option.map_some]⟩

theorem can_enqueue (daemon : Daemon) (id : Nat) (client : Client UInt8) (item : Outgoing)
    (known : daemon.hub.clients id = some client) (waiting : client.activity = .enqueuing item)
    (awaits : daemon.phase.awaits = true) (serving : daemon.hub.serving = true)
    (pushRoom : daemon.hub.pushQueue.length < pushCapacity)
    (controlRoom : daemon.hub.controlQueue.length < controlCapacity) :
    ∃ next, daemon.step (.task (.enqueue id)) = some next := by
  obtain ⟨hub, stepped⟩ : ∃ hub, daemon.hub.step (.enqueue id) = some hub := by
    cases item with
    | push data => simp [Hub.step, Hub.onEnqueue, known, waiting, serving, pushRoom]
    | control command => simp [Hub.step, Hub.onEnqueue, known, waiting, serving, controlRoom]
  exact ⟨_, by rw [Daemon.step, if_pos ⟨rfl, awaits⟩, stepped, Option.map_some]⟩

/-- With room in both channels the task can go on. -/
theorem can_advance (id : Nat) (sent : List UInt8) (system : System) (client : Client UInt8)
    (pushing : Pushing id system) (never : NoAttach id system)
    (known : system.daemon.hub.clients id = some client) (initial : sent <+: (system.wire id).sent)
    (short : ¬ Arrived id sent system) (awaits : system.daemon.phase.awaits = true)
    (pushRoom : system.daemon.hub.pushQueue.length < pushCapacity)
    (controlRoom : system.daemon.hub.controlQueue.length < controlCapacity) :
    ∃ event next, ofConnection id event ∧ system.step event = some next := by
  obtain ⟨running, held, undecoded, unread, frames⟩ :=
    short_of_arrived id sent system client pushing known initial short
  have serving := awaits_serving system.daemon pushing.served.isOpen awaits
  rcases (pushing.plain client known).2 with selecting | ⟨item, waiting⟩ | isOver
  · cases answer : codec.decode (system.wire id).buffer with
    | mk outcome rest =>
      match outcome with
      | .ok (some msg) =>
        have resolved : (system.wire id).resolve = some (.frame msg, rest) := by
          simp [Wire.resolve, answer]
        have plain_frame (skipRing : Bool) : Input.frame msg ≠ .frame (.attach skipRing) := by
          rintro ⟨⟩
          exact never skipRing (decoded_sent system id _ rest (pushing.served.accounted id) answer)
        obtain ⟨daemon, moved⟩ :=
          can_read system.daemon id client (.frame msg) known selecting awaits plain_frame
        refine ⟨.next id, ?_⟩
        simp [System.step, resolved, moved, ofConnection]
      | .error fault =>
        have persists := (decoder codec).faultExtends _ fault rest (system.wire id).unread answer
        have nothing := drain_fault (decoder codec) _ _ fault (Prod.ext persists rfl)
        exact absurd (by rw [nothing]) (frames selecting)
      | .ok none =>
        have more : (system.wire id).unread ≠ [] := by
          intro nothing
          have waits := drain_pending (decoder codec) _ rest answer
          exact frames selecting (by rw [nothing, List.append_nil, waits])
        have reading : system.reading id = true := by
          obtain ⟨attached, activity, socket⟩ := client
          cases selecting
          simp [System.reading, known, awaits]
        have some_left : 1 ≤ (system.wire id).unread.length := List.length_pos_iff.mpr more
        have pending : (codec.decode (system.wire id).buffer).1 = .ok none := by rw [answer]
        refine ⟨.fill id 1, ?_⟩
        simp [System.step, reading, pending, some_left, ofConnection]
  · obtain ⟨daemon, moved⟩ :=
      can_enqueue system.daemon id client item known waiting awaits serving pushRoom controlRoom
    exact ⟨.daemon (.task (.enqueue id)), _, rfl, System.step_daemon system _ daemon rfl moved⟩
  · exact absurd isOver running

end Hytch.PlainConnection
