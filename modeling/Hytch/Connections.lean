import Hytch.FrameStream
import Hytch.DaemonRun

/-!
The daemon together with the connections it reads from. A peer writes bytes and
may close; the task of a connection reads them in pieces into the buffer of its
`FramedRead` and decodes one frame at a time, whenever it is at its select. What
a connection has sent is accounted for frame by frame: decoded, in the hands of
its task, put into a channel.
-/

namespace Hytch.Connections

open IncrementalDecoding MessageCodec HandleClient Attachments DaemonRun Runs

structure Wire where
  /-- Everything the peer has written. -/
  sent : List UInt8
  unread : List UInt8
  /-- The read buffer of `FramedRead`. -/
  buffer : List UInt8
  closed : Bool
  deriving DecidableEq

def Wire.fresh : Wire := { sent := [], unread := [], buffer := [], closed := false }

structure System where
  daemon : Daemon
  wire : Nat → Wire

inductive SystemEvent where
  | peerWrites (id : Nat) (bytes : List UInt8)
  | peerCloses (id : Nat)
  | fill (id : Nat) (count : Nat)
  | next (id : Nat)
  | daemon (event : DaemonEvent)

def codec : MessageCodec := default

/-- What `framed.next()` resolves to, and the buffer it leaves. -/
def Wire.resolve (wire : Wire) : Option (Input × List UInt8) :=
  match codec.decode wire.buffer with
  | (.ok (some msg), rest) => some (.frame msg, rest)
  -- the task ends, and its buffer with it
  | (.error _, _) => some (.protocolError, wire.buffer)
  | (.ok none, _) =>
      if wire.unread = [] ∧ wire.closed then
        -- `decode_eof` refuses a rest of a frame
        some (if wire.buffer = [] then .closed else .protocolError, wire.buffer)
      else none

namespace System

def start (daemon : Daemon) : System := { daemon := daemon, wire := fun _ => Wire.fresh }

def setWire (system : System) (id : Nat) (wire : Wire) : System :=
  { system with wire := Function.update system.wire id wire }

@[simp] theorem setWire_daemon (system : System) (id : Nat) (wire : Wire) :
    (system.setWire id wire).daemon = system.daemon := rfl

@[simp] theorem setWire_same (system : System) (id : Nat) (wire : Wire) :
    (system.setWire id wire).wire id = wire := by
  simp [setWire]

theorem setWire_other (system : System) (id other : Nat) (wire : Wire) (different : other ≠ id) :
    (system.setWire id wire).wire other = system.wire other := by
  simp [setWire, different]

/-- The connection of `id` is waiting or its task still runs. -/
def connected (system : System) (id : Nat) : Bool :=
  match system.daemon.hub.clients id with
  | some { attached := _, activity := .returned, socket := _ } => false
  | some _ => true
  | none => id ∈ system.daemon.backlog

def reading (system : System) (id : Nat) : Bool :=
  match system.daemon.hub.clients id with
  | some { attached := _, activity := .selecting, socket := _ } => system.daemon.phase.awaits
  | _ => false

/-- A write to a connection succeeds while the peer is there, and fails from then on. -/
def allows (system : System) : DaemonEvent → Bool
  | .task (.input _ _) => false
  | .task (.write id _) => !(system.wire id).closed
  | .task (.writeFails id) => (system.wire id).closed
  | _ => true

def step (system : System) : SystemEvent → Option System
  | .peerWrites id bytes =>
      let wire := system.wire id
      if system.connected id ∧ wire.closed = false then
        some (system.setWire id
          { wire with sent := wire.sent ++ bytes, unread := wire.unread ++ bytes })
      else none
  | .peerCloses id => some (system.setWire id { system.wire id with closed := true })
  | .fill id count =>
      let wire := system.wire id
      if system.reading id ∧ (codec.decode wire.buffer).1 = .ok none ∧
          0 < count ∧ count ≤ wire.unread.length then
        some (system.setWire id
          { wire with
            unread := wire.unread.drop count, buffer := wire.buffer ++ wire.unread.take count })
      else none
  | .next id =>
      (system.wire id).resolve.bind fun (input, rest) =>
        (system.daemon.step (.task (.input id input))).map fun daemon =>
          { system.setWire id { system.wire id with buffer := rest } with daemon := daemon }
  | .daemon event =>
      if system.allows event then
        (system.daemon.step event).map fun daemon => { system with daemon := daemon }
      else none

theorem step_daemon (system : System) (event : DaemonEvent) (daemon : Daemon)
    (allowed : system.allows event = true) (moved : system.daemon.step event = some daemon) :
    system.step (.daemon event) = some { system with daemon := daemon } := by
  rw [step, if_pos allowed, moved, Option.map_some]

theorem allows_untasked (system : System) (event : DaemonEvent) (untasked : ∀ task, event ≠ .task task) :
    system.allows event = true := by
  cases event with
  | task task => exact absurd rfl (untasked task)
  | _ => rfl

/-- What the daemon does beside the connections. -/
theorem run_daemon (system : System) (events : List DaemonEvent) (daemon : Daemon)
    (untasked : ∀ event ∈ events, ∀ task, event ≠ .task task)
    (ran : run Daemon.step system.daemon events = some daemon) :
    run System.step system (events.map .daemon) = some { system with daemon := daemon } := by
  induction events generalizing system with
  | nil =>
    cases ran
    rfl
  | cons event rest ih =>
    obtain ⟨next, moved, later⟩ := run_cons _ _ _ _ _ ran
    obtain ⟨here, others⟩ := List.forall_mem_cons.mp untasked
    rw [List.map_cons, run, step_daemon system event next (allows_untasked system event here) moved]
    exact ih { system with daemon := next } others later

end System

inductive SystemStep (system : System) : SystemEvent → System → Prop where
  | peerWrites {id : Nat} {bytes : List UInt8} (connected : system.connected id = true)
      (opened : (system.wire id).closed = false) :
      SystemStep system (.peerWrites id bytes) (system.setWire id
        { system.wire id with
          sent := (system.wire id).sent ++ bytes, unread := (system.wire id).unread ++ bytes })
  | peerCloses {id : Nat} :
      SystemStep system (.peerCloses id) (system.setWire id { system.wire id with closed := true })
  | fill {id count : Nat} (reading : system.reading id = true)
      (pending : (codec.decode (system.wire id).buffer).1 = .ok none)
      (bound : 0 < count ∧ count ≤ (system.wire id).unread.length) :
      SystemStep system (.fill id count) (system.setWire id
        { system.wire id with
          unread := (system.wire id).unread.drop count
          buffer := (system.wire id).buffer ++ (system.wire id).unread.take count })
  | frame {id : Nat} {msg : Message} {rest : List UInt8} {daemon : Daemon}
      (decoded : codec.decode (system.wire id).buffer = (.ok (some msg), rest))
      (moved : system.daemon.step (.task (.input id (.frame msg))) = some daemon) :
      SystemStep system (.next id)
        { system.setWire id { system.wire id with buffer := rest } with daemon := daemon }
  /-- A refused frame, or the end of the stream. -/
  | ends {id : Nat} {input : Input} {daemon : Daemon}
      (last : input = .closed ∨ input = .protocolError)
      (left : (drain (decoder codec) ((system.wire id).buffer ++ (system.wire id).unread)).items = [])
      (moved : system.daemon.step (.task (.input id input)) = some daemon) :
      SystemStep system (.next id) { system with daemon := daemon }
  | daemon {event : DaemonEvent} {daemon : Daemon} (allowed : system.allows event = true)
      (moved : system.daemon.step event = some daemon) :
      SystemStep system (.daemon event) { system with daemon := daemon }

theorem system_step_cases (system next : System) (event : SystemEvent)
    (taken : system.step event = some next) : SystemStep system event next := by
  cases event with
  | peerWrites id bytes =>
    simp only [System.step] at taken
    split at taken
    · rename_i allowed
      cases taken
      exact .peerWrites allowed.1 allowed.2
    · cases taken
  | peerCloses id =>
    cases taken
    exact .peerCloses
  | fill id count =>
    simp only [System.step] at taken
    split at taken
    · rename_i allowed
      cases taken
      exact .fill allowed.1 allowed.2.1 allowed.2.2
    · cases taken
  | next id =>
    obtain ⟨⟨input, rest⟩, resolved, later⟩ := Option.bind_eq_some_iff.mp taken
    obtain ⟨daemon, moved, rfl⟩ := Option.map_eq_some_iff.mp later
    have unmoved : ({ system.setWire id { system.wire id with buffer := (system.wire id).buffer } with
        daemon := daemon } : System) = { system with daemon := daemon } := by
      simp [System.setWire]
    simp only [Wire.resolve] at resolved
    split at resolved
    · rename_i msg other decoded
      cases resolved
      exact .frame decoded moved
    · rename_i fault other refused
      cases resolved
      have persists := (decoder codec).faultExtends _ fault other (system.wire id).unread refused
      have left := drain_fault (decoder codec) _ _ fault (Prod.ext persists rfl)
      rw [unmoved]
      exact .ends (.inr rfl) (by rw [left]) moved
    · rename_i other waiting
      split at resolved
      · rename_i ended
        have left := drain_pending (decoder codec) _ other waiting
        cases resolved
        rw [unmoved]
        refine .ends ?_ (by rw [ended.1, List.append_nil, left]) moved
        split
        · exact .inl rfl
        · exact .inr rfl
      · cases resolved
  | daemon event =>
    simp only [System.step] at taken
    split at taken
    · rename_i allowed
      obtain ⟨daemon, moved, rfl⟩ := Option.map_eq_some_iff.mp taken
      exact .daemon allowed moved
    · cases taken

/-! What the connections ask of the daemon, on its way from the wire to the channels. -/

/-- What `handle_client` hands to the loop for a frame. -/
def asks : Message → Option Outgoing
  | .push data => some (.push data)
  | .winch rows cols => some (.control (.resize rows cols))
  | .redraw method rows cols =>
      if method ≠ .none then some (.control (.resize rows cols)) else none
  | .kill signal => some (.control (.signal ((Signal.fromRaw signal.toNat).getD Signal.term)))
  | .attach _ => none
  | .detach => none

def requests (messages : List Message) : List Outgoing := messages.filterMap asks

/-- What the task of `id` has put into the channels. -/
def requestsBy (id : Nat) (enqueued : List (Nat × Outgoing)) : List Outgoing :=
  (enqueued.filter fun entry => entry.1 = id).map Prod.snd

def holding (client : Client UInt8) : List Outgoing :=
  match client.activity with
  | .enqueuing item => [item]
  | _ => []

/-- What the task of `id` waits to put there. -/
def held (hub : Hub UInt8) (id : Nat) : List Outgoing :=
  ((hub.clients id).map holding).getD []

def frameOf (id : Nat) : HubEvent UInt8 → List Message
  | .input other (.frame msg) => if other = id then [msg] else []
  | _ => []

@[simp] theorem requests_append (first second : List Message) :
    requests (first ++ second) = requests first ++ requests second :=
  List.filterMap_append

@[simp] theorem requestsBy_append (id : Nat) (first second : List (Nat × Outgoing)) :
    requestsBy id (first ++ second) = requestsBy id first ++ requestsBy id second := by
  simp [requestsBy]

theorem enqueue_serving (hub next : Hub UInt8) (id : Nat) (serving : hub.serving = true)
    (moved : hub.step (.enqueue id) = some next) :
    ∃ client item, hub.clients id = some client ∧ client.activity = .enqueuing item ∧
      next.clients id = some { client with activity := .selecting } ∧
      handedOver hub (.enqueue id) = [(id, item)] := by
  obtain ⟨client, known, rest⟩ := Option.bind_eq_some_iff.mp moved
  split at rest
  · rename_i item waiting
    rw [if_pos serving] at rest
    refine ⟨client, item, known, waiting, ?_, ?_⟩
    · cases item <;>
      · dsimp only at rest
        split at rest
        · cases rest
          simp [Hub.setClient]
        · cases rest
    · rw [handed_over_enqueue hub id client item known waiting, if_pos serving]
  · cases rest

section Tasks

theorem holding_selecting (client : Client UInt8) (selecting : client.activity = .selecting) :
    holding client = [] := by
  rw [holding, selecting]

theorem input_asks (fanout : Fanout UInt8) (client next : Client UInt8) (id : Nat) (input : Input)
    (took : onInput fanout client input = some next) (selecting : client.activity = .selecting) :
    holding next = requests (frameOf id (.input id input)) := by
  have nothing := holding_selecting client selecting
  cases input with
  | closed =>
    cases took
    rfl
  | protocolError =>
    cases took
    rfl
  | frame msg =>
    rw [frameOf, if_pos rfl]
    cases msg with
    | push data =>
      cases took
      rfl
    | attach skipRing =>
      simp only [onInput, Option.bind_eq_bind, Option.bind_eq_some_iff] at took
      obtain ⟨⟨snapshot, rx⟩, _, took⟩ := took
      split at took
      · cases took
        exact nothing
      · cases took
        rfl
    | detach =>
      cases took
      exact nothing
    | winch rows cols =>
      cases took
      rfl
    | redraw method rows cols =>
      simp only [onInput] at took
      split at took
      · rename_i resizes
        cases took
        simp [holding, requests, asks, resizes]
      · rename_i quiet
        cases took
        simp [nothing, requests, asks, quiet]
    | kill signal =>
      cases took
      rfl

/-- A task that does not enqueue has in hand what it decodes, if it decodes anything. -/
theorem task_asks (fanout : Fanout UInt8) (id : Nat) (event : HubEvent UInt8)
    (client next : Client UInt8) (took : TaskStep fanout id event client next)
    (other : event ≠ .enqueue id) :
    holding next = holding client ++ requests (frameOf id event) := by
  cases took with
  | input selecting took =>
    rw [holding_selecting client selecting, List.nil_append]
    exact input_asks fanout client next id _ took selecting
  | live selecting took =>
    rw [holding_selecting client selecting]
    unfold onLive at took
    split at took
    · cases took
    · split at took <;> cases took <;> rfl
  | write took =>
    unfold onWrite at took
    split at took
    · rename_i rest rx writing
      split at took <;> cases took
      simp [holding, writing, requests, frameOf]
    · rename_i rest writing
      split at took <;> cases took
      simp [holding, writing, requests, frameOf]
    · cases took
  | written took =>
    unfold onWritten at took
    split at took
    · rename_i rx writing
      cases took
      simp [holding, writing, requests, frameOf]
    · rename_i writing
      cases took
      simp [holding, writing, requests, frameOf]
    · cases took
  | writeFails took =>
    unfold onWriteFails at took
    split at took
    · rename_i cell rest rx writing
      cases took
      simp [holding, writing, requests, frameOf, Client.disconnect]
    · rename_i cell rest writing
      cases took
      simp [holding, writing, requests, frameOf, Client.disconnect]
    · cases took
  | enqueued waiting => exact absurd rfl other
  | refused waiting => exact absurd rfl other

theorem handed_over_by (hub : Hub UInt8) (event : HubEvent UInt8) (id : Nat)
    (other : event ≠ .enqueue id) : requestsBy id (handedOver hub event) = [] := by
  cases event with
  | enqueue mover =>
    have different : mover ≠ id := by
      rintro rfl
      exact other rfl
    simp only [handedOver]
    split
    · split
      · simp [requestsBy, different]
      · rfl
    · rfl
  | _ => rfl

theorem frame_elsewhere (fanout : Fanout UInt8) (mover id : Nat) (event : HubEvent UInt8)
    (client next : Client UInt8) (took : TaskStep fanout mover event client next)
    (different : mover ≠ id) : frameOf id event = [] ∧ event ≠ .enqueue id := by
  cases took with
  | @input client next input selecting took =>
    refine ⟨?_, nofun⟩
    cases input <;> simp [frameOf, different]
  | live | write | written | writeFails => exact ⟨rfl, nofun⟩
  | enqueued | refused => exact ⟨rfl, fun same => different (HubEvent.enqueue.inj same)⟩

/-- A step of the task `mover`, as every connection sees it. -/
theorem moved_held (hub next : Hub UInt8) (event : HubEvent UInt8) (mover id : Nat)
    (client after : Client UInt8) (known : hub.clients mover = some client)
    (took : TaskStep hub.fanout mover event client after)
    (clients : next.clients = Function.update hub.clients mover (some after))
    (put : requestsBy mover (handedOver hub event) ++ holding after =
      holding client ++ requests (frameOf mover event)) :
    requestsBy id (handedOver hub event) ++ held next id =
      held hub id ++ requests (frameOf id event) := by
  by_cases mine : mover = id
  · subst mine
    simpa [held, clients, known] using put
  · obtain ⟨nothing, other⟩ := frame_elsewhere hub.fanout mover id event client after took mine
    rw [handed_over_by hub event id other, nothing, held, held, clients,
      Function.update_of_ne (Ne.symm mine)]
    simp [requests]

theorem held_move (hub next : Hub UInt8) (event : HubEvent UInt8) (id : Nat)
    (own : ofTask event = true) (serving : hub.serving = true)
    (moved : hub.step event = some next) :
    requestsBy id (handedOver hub event) ++ held next id =
      held hub id ++ requests (frameOf id event) := by
  have quietly : ∀ mover client after, hub.clients mover = some client →
      TaskStep hub.fanout mover event client after → event ≠ .enqueue mover →
      next.clients = Function.update hub.clients mover (some after) →
      requestsBy id (handedOver hub event) ++ held next id =
        held hub id ++ requests (frameOf id event) := by
    intro mover client after known took other clients
    refine moved_held hub next event mover id client after known took clients ?_
    rw [handed_over_by hub event mover other, List.nil_append]
    exact task_asks hub.fanout mover event client after took other
  cases event with
  | input mover input =>
    obtain ⟨client, after, known, took, rfl⟩ := on_client_cases hub next mover _ moved
    obtain ⟨selecting, took⟩ := when_selecting_cases _ client after took
    exact quietly mover client after known (.input selecting took) nofun rfl
  | live mover =>
    obtain ⟨client, after, known, took, rfl⟩ := on_client_cases hub next mover _ moved
    obtain ⟨selecting, took⟩ := when_selecting_cases _ client after took
    exact quietly mover client after known (.live selecting took) nofun rfl
  | write mover count =>
    obtain ⟨client, after, known, took, rfl⟩ := on_client_cases hub next mover _ moved
    exact quietly mover client after known (.write took) nofun rfl
  | written mover =>
    obtain ⟨client, after, known, took, rfl⟩ := on_client_cases hub next mover _ moved
    exact quietly mover client after known (.written took) nofun rfl
  | writeFails mover =>
    obtain ⟨client, after, known, took, rfl⟩ := on_client_cases hub next mover _ moved
    exact quietly mover client after known (.writeFails took) nofun rfl
  | enqueue mover =>
    obtain ⟨client, item, known, waiting, now, put⟩ := enqueue_serving hub next mover serving moved
    obtain ⟨_, _, _, _, _, clients⟩ := on_enqueue_cases hub next mover moved
    have after : next.clients = Function.update hub.clients mover
        (some { client with activity := .selecting }) := by
      rw [clients] at now ⊢
      rw [Function.update_self] at now
      rw [now]
    refine moved_held hub next (.enqueue mover) mover id client _ known (.enqueued waiting) after ?_
    simp [put, requestsBy, holding, waiting, frameOf, requests]
  | output | accept | takePush | takeControl | stop => cases own

end Tasks

/-- What a step of the daemon does to the connections. -/
inductive PartyStep (daemon next : Daemon) : DaemonEvent → Prop where
  | task {event : HubEvent UInt8} (own : ofTask event = true) (awaits : daemon.phase.awaits = true)
      (moved : daemon.hub.step event = some next.hub)
      (enqueued : next.enqueued = daemon.enqueued ++ handedOver daemon.hub event)
      (backlog : next.backlog = daemon.backlog) : PartyStep daemon next (.task event)
  | accepts {event : DaemonEvent} {id : Nat} (other : ∀ task, event ≠ .task task)
      (waiting : daemon.backlog = id :: next.backlog) (fresh : daemon.hub.clients id = none)
      (clients : next.hub.clients = Function.update daemon.hub.clients id (some Client.connected))
      (enqueued : next.enqueued = daemon.enqueued) : PartyStep daemon next event
  | rests {event : DaemonEvent} (other : ∀ task, event ≠ .task task)
      (clients : next.hub.clients = daemon.hub.clients) (enqueued : next.enqueued = daemon.enqueued)
      (grows : daemon.backlog <+: next.backlog) : PartyStep daemon next event

theorem party_step_cases (daemon next : Daemon) (event : DaemonEvent)
    (taken : daemon.step event = some next) : PartyStep daemon next event := by
  have same := List.prefix_refl daemon.backlog
  cases daemon_step_cases daemon next event taken with
  | task own awaits moved => exact .task own awaits moved rfl rfl
  | accept selecting quiet waiting accepted =>
    cases hub_step_cases _ _ _ accepted with
    | accept fresh fanout clients => exact .accepts (by simp) waiting fresh clients rfl
    | task known took => cases took
    | loop silent fanout clients =>
      simp only [Hub.step] at accepted
      split at accepted
      · rename_i allowed
        cases accepted
        exact .accepts (by simp) waiting (Option.isNone_iff_eq_none.mp allowed.2) rfl rfl
      · cases accepted
  | command selecting queue moved =>
    simp only [Hub.step, queue, Option.some.injEq] at moved
    subst moved
    exact .rests (by simp) rfl rfl same
  | push selecting quiet queue moved =>
    simp only [Hub.step, queue, Option.some.injEq] at moved
    subst moved
    exact .rests (by simp) rfl rfl same
  | read selecting quiet bound pushed =>
    obtain ⟨fanout, _, rfl⟩ := Option.map_eq_some_iff.mp pushed
    exact .rests (by simp) rfl rfl same
  | unlinked unlinking stopped =>
    cases stopped
    exact .rests (by simp) rfl rfl same
  | outside kind input alive grows =>
    refine .rests ?_ rfl rfl grows
    rintro task rfl
    cases kind
  | ended selecting quiet nothing closed => exact .rests (by simp) rfl rfl same
  | signaled selecting quiet signal => exact .rests (by simp) rfl rfl same
  | handOff pending => exact .rests (by simp) rfl rfl same
  | ptyWrite writing bound => exact .rests (by simp) rfl rfl same
  | writeEnds writing ends => exact .rests (by simp) rfl rfl same
  | reaped waiting dead => exact .rests (by simp) rfl rfl same
  | marked leaving logging => exact .rests (by simp) rfl rfl same
  | unmarked leaving silent => exact .rests (by simp) rfl rfl same
  | joined draining ended => exact .rests (by simp) rfl rfl same
  | writer moved => exact .rests (by simp) rfl rfl same

theorem awaits_serving (daemon : Daemon) (isOpen : Open daemon)
    (awaits : daemon.phase.awaits = true) : daemon.hub.serving = true := by
  rcases isOpen with on | ⟨reason, phase⟩
  · exact on
  · rw [phase] at awaits
    cases awaits

def decodedIn (id : Nat) : DaemonEvent → List Message
  | .task event => frameOf id event
  | _ => []

theorem decoded_elsewhere (id : Nat) (event : DaemonEvent)
    (other : ∀ task, event ≠ .task task) : decodedIn id event = [] := by
  cases event with
  | task event => exact absurd rfl (other event)
  | _ => rfl

theorem requests_move (daemon next : Daemon) (event : DaemonEvent) (id : Nat)
    (isOpen : Open daemon) (taken : daemon.step event = some next) :
    requestsBy id next.enqueued ++ held next.hub id =
      requestsBy id daemon.enqueued ++ held daemon.hub id ++ requests (decodedIn id event) := by
  cases party_step_cases daemon next event taken with
  | @task event own awaits moved enqueued backlog =>
    have kept := held_move daemon.hub next.hub event id own (awaits_serving daemon isOpen awaits) moved
    rw [enqueued, requestsBy_append, List.append_assoc, kept, List.append_assoc]
    rfl
  | @accepts _ other foreign waiting fresh clients enqueued =>
    have same : held next.hub id = held daemon.hub id := by
      by_cases mine : id = other
      · subst mine
        simp [held, clients, fresh, holding, Client.connected]
      · rw [held, held, clients, Function.update_of_ne mine]
    rw [enqueued, same, decoded_elsewhere id event foreign]
    simp [requests]
  | rests foreign clients enqueued grows =>
    rw [enqueued, held, held, clients, decoded_elsewhere id event foreign]
    simp [requests]

/-- A connection that has not been accepted across a step of the daemon. -/
theorem unknown_move (daemon next : Daemon) (event : DaemonEvent) (id : Nat)
    (unknown : daemon.hub.clients id = none) (taken : daemon.step event = some next) :
    next.hub.clients id = none ∨ next.hub.clients id = some Client.connected := by
  cases party_step_cases daemon next event taken with
  | @task event own awaits moved enqueued backlog =>
    cases hub_step_cases _ _ _ moved with
    | output pushed clients => cases own
    | accept fresh fanout clients => cases own
    | loop silent fanout clients => exact .inl (by rw [clients, unknown])
    | @task _ mover client after known took fanout clients =>
      have different : id ≠ mover := by
        rintro rfl
        rw [unknown] at known
        cases known
      exact .inl (by rw [clients, Function.update_of_ne different, unknown])
  | @accepts _ other foreign waiting fresh clients enqueued =>
    by_cases mine : id = other
    · subst mine
      exact .inr (by rw [clients, Function.update_self])
    · exact .inl (by rw [clients, Function.update_of_ne mine, unknown])
  | rests foreign clients enqueued grows => exact .inl (by rw [clients, unknown])

theorem task_moves (daemon next : Daemon) (event : HubEvent UInt8)
    (taken : daemon.step (.task event) = some next) :
    daemon.phase.awaits = true ∧ daemon.hub.step event = some next.hub := by
  cases daemon_step_cases daemon next _ taken with
  | outside kind => cases kind
  | task own awaits moved => exact ⟨awaits, moved⟩

theorem input_selecting (daemon next : Daemon) (id : Nat) (input : Input)
    (taken : daemon.step (.task (.input id input)) = some next) :
    ∃ client after, daemon.hub.clients id = some client ∧ client.activity = .selecting ∧
      onInput daemon.hub.fanout client input = some after ∧ next.hub.clients id = some after := by
  obtain ⟨_, moved⟩ := task_moves daemon next _ taken
  obtain ⟨client, after, known, took, now⟩ := on_client_cases daemon.hub _ id _ moved
  obtain ⟨selecting, took⟩ := when_selecting_cases _ client after took
  exact ⟨client, after, known, selecting, took, by simp [now]⟩

/-- Every frame of `id` so far is accounted for: `consumed` is what has been decoded. -/
def Accounted (system : System) (id : Nat) : Prop :=
  ∃ consumed decoded,
    (system.wire id).sent = consumed ++ ((system.wire id).buffer ++ (system.wire id).unread) ∧
    drain (decoder codec) consumed = ⟨decoded, .ok []⟩ ∧
    requests decoded = requestsBy id system.daemon.enqueued ++ held system.daemon.hub id

section Frames

variable (system : System) (id : Nat)

theorem accounted_congr (next : System) (accounted : Accounted system id)
    (wire : next.wire id = system.wire id)
    (kept : requestsBy id next.daemon.enqueued ++ held next.daemon.hub id =
      requestsBy id system.daemon.enqueued ++ held system.daemon.hub id) : Accounted next id := by
  obtain ⟨consumed, decoded, split, whole, put⟩ := accounted
  exact ⟨consumed, decoded, by rw [wire, split], whole, by rw [kept, put]⟩

theorem accounted_wire (owner : Nat) (wire : Wire) (accounted : Accounted system id)
    (grown : owner = id → ∃ more, wire.sent = (system.wire id).sent ++ more ∧
      wire.buffer ++ wire.unread = (system.wire id).buffer ++ (system.wire id).unread ++ more) :
    Accounted (system.setWire owner wire) id := by
  by_cases mine : owner = id
  · obtain ⟨more, sent, left⟩ := grown mine
    obtain ⟨consumed, decoded, split, whole, put⟩ := accounted
    subst mine
    refine ⟨consumed, decoded, ?_, whole, put⟩
    rw [System.setWire_same, sent, left, split]
    simp only [List.append_assoc]
  · exact accounted_congr system id _ accounted
      (System.setWire_other system owner id wire (Ne.symm mine)) rfl

theorem accounted_frame (daemon : Daemon) (reader : Nat) (msg : Message) (rest : List UInt8)
    (isOpen : Open system.daemon) (accounted : Accounted system id)
    (found : codec.decode (system.wire reader).buffer = (.ok (some msg), rest))
    (moved : system.daemon.step (.task (.input reader (.frame msg))) = some daemon) :
    Accounted
      { system.setWire reader { system.wire reader with buffer := rest } with daemon := daemon } id := by
  have kept := requests_move system.daemon daemon _ id isOpen moved
  by_cases mine : reader = id
  · subst mine
    obtain ⟨consumed, decoded, split, whole, put⟩ := accounted
    obtain ⟨taken, cut, alone⟩ := decode_item_alone codec _ rest msg found
    have one : drain (decoder codec) taken = ⟨[msg], .ok []⟩ := by
      rw [drain_item (decoder codec) taken [] msg alone,
        drain_pending (decoder codec) [] [] (decode_nil codec)]
    refine ⟨consumed ++ taken, decoded ++ [msg], ?_, ?_, ?_⟩
    · simp only [System.setWire_same]
      rw [split, cut]
      simp only [List.append_assoc]
    · rw [drain_behind (decoder codec) consumed taken decoded whole, one]
    · rw [requests_append, put, kept]
      simp [decodedIn, frameOf]
  · have nothing : decodedIn id (.task (.input reader (.frame msg))) = [] := by
      simp [decodedIn, frameOf, mine]
    rw [nothing] at kept
    exact accounted_congr system id _ accounted
      (System.setWire_other system reader id _ (Ne.symm mine)) (by simpa [requests] using kept)

theorem accounted_step (next : System) (event : SystemEvent) (isOpen : Open system.daemon)
    (accounted : Accounted system id) (taken : system.step event = some next) : Accounted next id := by
  have quietly : ∀ (event : DaemonEvent) (daemon : Daemon), decodedIn id event = [] →
      system.daemon.step event = some daemon → Accounted { system with daemon := daemon } id := by
    intro event daemon nothing moved
    have kept := requests_move system.daemon daemon event id isOpen moved
    rw [nothing] at kept
    exact accounted_congr system id _ accounted rfl (by simpa [requests] using kept)
  cases system_step_cases system next event taken with
  | @peerWrites writer bytes connected opened =>
    refine accounted_wire system id writer _ accounted ?_
    rintro rfl
    exact ⟨bytes, rfl, by simp⟩
  | @peerCloses closer =>
    refine accounted_wire system id closer _ accounted ?_
    rintro rfl
    exact ⟨[], by simp, by simp⟩
  | @fill reader count reading pending bound =>
    refine accounted_wire system id reader _ accounted ?_
    rintro rfl
    exact ⟨[], by simp, by simp⟩
  | @frame reader msg rest daemon found moved =>
    exact accounted_frame system id daemon reader msg rest isOpen accounted found moved
  | @ends reader input daemon last left moved =>
    refine quietly _ daemon ?_ moved
    rcases last with rfl | rfl <;> rfl
  | @daemon event daemon allowed moved =>
    refine quietly event daemon ?_ moved
    cases event with
    | task event =>
      cases event with
      | input reader input => cases allowed
      | _ => rfl
    | _ => rfl

end Frames

theorem system_moves (system next : System) (event : SystemEvent)
    (taken : system.step event = some next) :
    next.daemon = system.daemon ∨ ∃ moved, system.daemon.step moved = some next.daemon := by
  cases system_step_cases system next event taken with
  | peerWrites connected opened => exact .inl rfl
  | peerCloses => exact .inl rfl
  | fill reading pending bound => exact .inl rfl
  | frame found moved => exact .inr ⟨_, moved⟩
  | ends last left moved => exact .inr ⟨_, moved⟩
  | daemon allowed moved => exact .inr ⟨_, moved⟩

/-- An invariant of the daemon is one of the system. -/
theorem lifted_step (invariant : Daemon → Prop)
    (preserves : ∀ daemon event next, invariant daemon → daemon.step event = some next →
      invariant next)
    (system next : System) (event : SystemEvent) (holds : invariant system.daemon)
    (taken : system.step event = some next) : invariant next.daemon := by
  rcases system_moves system next event taken with same | ⟨moved, step⟩
  · rwa [same]
  · exact preserves system.daemon moved next.daemon holds step

/-- Both channels are within their capacities. -/
def Fits (hub : Hub UInt8) : Prop :=
  hub.pushQueue.length ≤ pushCapacity ∧ hub.controlQueue.length ≤ controlCapacity

section Channels

theorem fits_client (hub next : Hub UInt8) (id : Nat) (task : Client UInt8 → Option (Client UInt8))
    (fits : Fits hub) (taken : hub.onClient id task = some next) : Fits next := by
  obtain ⟨client, after, _, _, rfl⟩ := on_client_cases hub next id task taken
  exact fits

theorem fits_enqueue (hub next : Hub UInt8) (id : Nat) (fits : Fits hub)
    (taken : hub.onEnqueue id = some next) : Fits next := by
  obtain ⟨client, known, taken⟩ := Option.bind_eq_some_iff.mp taken
  split at taken
  · rename_i item waiting
    split at taken
    · cases item with
      | push data =>
        obtain ⟨room, taken⟩ := Option.ite_none_right_eq_some.mp taken
        cases taken
        refine ⟨?_, fits.2⟩
        rw [List.length_append]
        exact room
      | control command =>
        obtain ⟨room, taken⟩ := Option.ite_none_right_eq_some.mp taken
        cases taken
        refine ⟨fits.1, ?_⟩
        rw [List.length_append]
        exact room
    · cases taken
      exact fits
  · cases taken

theorem fits_step (hub next : Hub UInt8) (event : HubEvent UInt8) (fits : Fits hub)
    (taken : hub.step event = some next) : Fits next := by
  cases event with
  | output chunk =>
    obtain ⟨fanout, _, rfl⟩ := Option.map_eq_some_iff.mp taken
    exact fits
  | accept id =>
    obtain ⟨_, taken⟩ := Option.ite_none_right_eq_some.mp taken
    cases taken
    exact fits
  | input id input => exact fits_client hub next id _ fits taken
  | live id => exact fits_client hub next id _ fits taken
  | write id count => exact fits_client hub next id _ fits taken
  | written id => exact fits_client hub next id _ fits taken
  | writeFails id => exact fits_client hub next id _ fits taken
  | enqueue id => exact fits_enqueue hub next id fits taken
  | takePush =>
    cases queue : hub.pushQueue with
    | nil => simp [Hub.step, queue] at taken
    | cons data rest =>
      simp only [Hub.step, queue, Option.some.injEq] at taken
      subst taken
      have shorter := fits.1
      rw [queue, List.length_cons] at shorter
      exact ⟨Nat.le_of_succ_le shorter, fits.2⟩
  | takeControl =>
    cases queue : hub.controlQueue with
    | nil => simp [Hub.step, queue] at taken
    | cons command rest =>
      simp only [Hub.step, queue, Option.some.injEq] at taken
      subst taken
      have shorter := fits.2
      rw [queue, List.length_cons] at shorter
      exact ⟨fits.1, Nat.le_of_succ_le shorter⟩
  | stop =>
    cases taken
    exact ⟨Nat.zero_le _, Nat.zero_le _⟩

theorem fits_daemon (daemon next : Daemon) (event : DaemonEvent) (fits : Fits daemon.hub)
    (taken : daemon.step event = some next) : Fits next.hub := by
  cases hub_move_cases daemon next event taken with
  | unmoved hub read =>
    rw [hub]
    exact fits
  | moved step read source some_output => exact fits_step daemon.hub next.hub _ fits step

end Channels

/-- What every reachable state of the system satisfies. -/
structure Served (system : System) : Prop where
  channels : Channels system.daemon
  isOpen : Open system.daemon
  fits : Fits system.daemon.hub
  accounted : ∀ id, Accounted system id

theorem served_step (system next : System) (event : SystemEvent) (served : Served system)
    (taken : system.step event = some next) : Served next := by
  constructor
  · exact lifted_step Channels
      (fun state event next holds step => channels_step state next event holds step)
      system next event served.channels taken
  · exact lifted_step Open
      (fun state event next holds step => open_step state next event holds step)
      system next event served.isOpen taken
  · exact lifted_step (fun daemon => Fits daemon.hub)
      (fun state event next holds step => fits_daemon state next event holds step)
      system next event served.fits taken
  · intro id
    exact accounted_step system id next event served.isOpen (served.accounted id) taken

theorem served_start (scrollback : Nat) (content : List UInt8) (logging : Option Nat)
    (daemon : Daemon) (started : Daemon.start scrollback content logging = some daemon) :
    Served (System.start daemon) := by
  have channels := channels_start scrollback content logging daemon started
  have isOpen := open_start scrollback content logging daemon started
  obtain ⟨hub, writer, created, _, rfl⟩ := start_cases scrollback content logging daemon started
  obtain ⟨fanout, _, rfl⟩ := hub_start_cases _ _ _ created
  refine ⟨channels, isOpen, ⟨Nat.zero_le _, Nat.zero_le _⟩, ?_⟩
  intro id
  exact ⟨[], [], rfl, drain_pending _ _ _ (decode_nil codec), rfl⟩

theorem served_run (scrollback : Nat) (content : List UInt8) (logging : Option Nat)
    (daemon : Daemon) (last : System) (events : List SystemEvent)
    (started : Daemon.start scrollback content logging = some daemon)
    (ran : run System.step (System.start daemon) events = some last) : Served last :=
  run_invariant System.step Served
    (fun state event next served taken => served_step state next event served taken)
    (System.start daemon) last events (served_start scrollback content logging daemon started) ran

/-! Of the requests only the pushes. -/

/-- The payloads the task of `id` has put into the push channel. -/
def payloadsBy (id : Nat) (enqueued : List (Nat × Outgoing)) : List (List UInt8) :=
  enqueued.filterMap fun
    | (other, .push data) => if other = id then some data else none
    | _ => none

def payloads (requests : List Outgoing) : List (List UInt8) :=
  requests.filterMap fun
    | .push data => some data
    | .control _ => none

@[simp] theorem payloads_append (first second : List Outgoing) :
    payloads (first ++ second) = payloads first ++ payloads second :=
  List.filterMap_append

theorem payloads_requests (messages : List Message) : payloads (requests messages) = pushesOf messages := by
  induction messages with
  | nil => rfl
  | cons msg rest ih =>
    cases msg with
    | redraw method rows cols => cases method <;> exact ih
    | push data => exact congrArg (data :: ·) ih
    | _ => exact ih

theorem payloads_requestsBy (id : Nat) (enqueued : List (Nat × Outgoing)) :
    payloads (requestsBy id enqueued) = payloadsBy id enqueued := by
  induction enqueued with
  | nil => rfl
  | cons entry rest ih =>
    obtain ⟨other, item⟩ := entry
    by_cases mine : other = id
    · cases item <;> simpa [payloads, payloadsBy, requestsBy, mine] using ih
    · cases item <;> simpa [payloads, payloadsBy, requestsBy, mine] using ih

theorem pushes_accounted (system : System) (id : Nat) (accounted : Accounted system id) :
    ∃ consumed decoded,
      (system.wire id).sent = consumed ++ ((system.wire id).buffer ++ (system.wire id).unread) ∧
      drain (decoder codec) consumed = ⟨decoded, .ok []⟩ ∧
      pushesOf decoded = payloadsBy id system.daemon.enqueued ++ payloads (held system.daemon.hub id) := by
  obtain ⟨consumed, decoded, split, whole, put⟩ := accounted
  refine ⟨consumed, decoded, split, whole, ?_⟩
  rw [← payloads_requests, put, payloads_append, payloads_requestsBy]

/-- What has been put into the channel is an initial stretch of what was sent. -/
theorem accounted_prefix (system : System) (id : Nat) (accounted : Accounted system id) :
    payloadsBy id system.daemon.enqueued <+:
      pushesOf (drain (decoder codec) (system.wire id).sent).items := by
  obtain ⟨consumed, decoded, split, whole, put⟩ := pushes_accounted system id accounted
  rw [split, drain_behind (decoder codec) _ _ _ whole, pushesOf_append, put, List.append_assoc]
  exact List.prefix_append _ _

end Hytch.Connections
