import Hytch.PlainConnection

/-!
A client that is slow, stuck or gone holds up nobody. Pushing to the fanout waits for no
receiver and every connection has a task of its own: without the steps of some clients, the
daemon, its log and the other clients get just as far.
-/

namespace Hytch.SlowClients

open MessageCodec HandleClient Attachments DaemonRun Connections PlainConnection Runs

section Erasing

variable (slow : Nat → Bool)

/-- Of a slow client only that it is there. -/
def hubWithout (hub : Hub UInt8) : Hub UInt8 :=
  { hub with clients := fun id =>
      if slow id then (hub.clients id).map fun _ => Client.connected else hub.clients id }

def daemonWithout (daemon : Daemon) : Daemon := { daemon with hub := hubWithout slow daemon.hub }

def without (system : System) : System where
  daemon := daemonWithout slow system.daemon
  wire id := if slow id then Wire.fresh else system.wire id

/-- The steps of the slow clients, at either end of their connections. -/
def ofSlow : SystemEvent → Bool
  | .peerWrites id _ => slow id
  | .peerCloses id => slow id
  | .fill id _ => slow id
  | .next id => slow id
  | .daemon (.task event) => (mover event).any slow
  | .daemon _ => false

variable (hub : Hub UInt8) (id : Nat)

theorem without_client (fast : slow id = false) :
    (hubWithout slow hub).clients id = hub.clients id := by
  simp [hubWithout, fast]

theorem without_known : ((hubWithout slow hub).clients id).isNone = (hub.clients id).isNone := by
  cases kind : slow id with
  | false => rw [without_client slow hub id kind]
  | true => simp [hubWithout, kind]

theorem without_setClient (client : Client UInt8) (fast : slow id = false ∨ client = Client.connected) :
    (hubWithout slow hub).setClient id client = hubWithout slow (hub.setClient id client) := by
  have same : Function.update (hubWithout slow hub).clients id (some client) =
      (hubWithout slow (hub.setClient id client)).clients := by
    funext other
    by_cases own : other = id
    · subst own
      rcases fast with fast | rfl
      · simp [hubWithout, fast]
      · simp [hubWithout]
    · simp [hubWithout, own]
  simp only [Hub.setClient] at same ⊢
  rw [same]
  rfl

theorem without_onClient (task : Client UInt8 → Option (Client UInt8)) (fast : slow id = false) :
    (hubWithout slow hub).onClient id task = (hub.onClient id task).map (hubWithout slow) := by
  unfold Hub.onClient
  rw [without_client slow hub id fast]
  cases hub.clients id with
  | none => rfl
  | some client =>
    simp only [Option.bind_some, Option.map_map]
    congr 1
    funext after
    exact without_setClient slow hub id after (.inl fast)

theorem without_onEnqueue (fast : slow id = false) :
    (hubWithout slow hub).onEnqueue id = (hub.onEnqueue id).map (hubWithout slow) := by
  have set (client : Client UInt8) := without_setClient slow hub id client (.inl fast)
  unfold Hub.onEnqueue
  rw [without_client slow hub id fast]
  cases hub.clients id with
  | none => rfl
  | some client =>
    simp only [Option.bind_some]
    split
    · rename_i item waiting
      simp only [set]
      cases item with
      | push data =>
        by_cases serving : hub.serving = true
        · by_cases room : hub.pushQueue.length < pushCapacity
          · simp [hubWithout, serving, room, Hub.setClient]
          · simp [hubWithout, serving, room]
        · simp [hubWithout, serving]
      | control command =>
        by_cases serving : hub.serving = true
        · by_cases room : hub.controlQueue.length < controlCapacity
          · simp [hubWithout, serving, room, Hub.setClient]
          · simp [hubWithout, serving, room]
        · simp [hubWithout, serving]
    · rfl

/-- No step of the hub depends on a client that is not its own. -/
theorem without_step (event : HubEvent UInt8) (fast : (mover event).any slow = false) :
    (hubWithout slow hub).step event = (hub.step event).map (hubWithout slow) := by
  cases event with
  | output chunk =>
    simp only [Hub.step, Option.map_map]
    rfl
  | accept id =>
    have known := without_known slow hub id
    have serves : (hubWithout slow hub).serving = hub.serving := rfl
    simp only [Hub.step, known, serves]
    by_cases free : hub.serving = true ∧ (hub.clients id).isNone = true
    · rw [if_pos free, if_pos free, without_setClient slow hub id _ (.inr rfl), Option.map_some]
    · rw [if_neg free, if_neg free, Option.map_none]
  | input id input => exact without_onClient slow hub id _ fast
  | live id => exact without_onClient slow hub id _ fast
  | write id count => exact without_onClient slow hub id _ fast
  | written id => exact without_onClient slow hub id _ fast
  | writeFails id => exact without_onClient slow hub id _ fast
  | enqueue id => exact without_onEnqueue slow hub id fast
  | takePush =>
    simp only [Hub.step, hubWithout]
    cases hub.pushQueue <;> rfl
  | takeControl =>
    simp only [Hub.step, hubWithout]
    cases hub.controlQueue <;> rfl
  | stop => rfl

theorem without_handed_over (event : HubEvent UInt8) (fast : (mover event).any slow = false) :
    handedOver (hubWithout slow hub) event = handedOver hub event := by
  cases event with
  | enqueue id =>
    simp only [handedOver, without_client slow hub id fast]
    rfl
  | _ => rfl

end Erasing

section Seen

variable (slow : Nat → Bool) (daemon : Daemon)

theorem without_moved (event : HubEvent UInt8) (fast : (mover event).any slow = false)
    (after : Daemon → Hub UInt8 → Daemon)
    (same : ∀ hub, daemonWithout slow (after daemon hub) =
      after (daemonWithout slow daemon) (hubWithout slow hub)) :
    ((daemonWithout slow daemon).hub.step event).map (after (daemonWithout slow daemon)) =
      ((daemon.hub.step event).map (after daemon)).map (daemonWithout slow) := by
  have moved : (daemonWithout slow daemon).hub.step event =
      (daemon.hub.step event).map (hubWithout slow) := without_step slow daemon.hub event fast
  rw [moved, Option.map_map, Option.map_map]
  congr 1
  funext hub
  exact (same hub).symm

theorem without_onControl :
    (daemonWithout slow daemon).onControl = daemon.onControl.map (daemonWithout slow) := by
  have queue : (daemonWithout slow daemon).hub.controlQueue = daemon.hub.controlQueue := rfl
  unfold Daemon.onControl
  rw [queue]
  cases daemon.hub.controlQueue with
  | nil => rfl
  | cons command rest =>
    exact without_moved slow daemon .takeControl rfl (fun daemon hub =>
      { daemon with hub := hub, taken := daemon.taken ++ [.command command] }) fun _ => rfl

theorem without_onRead (count : Nat) :
    (daemonWithout slow daemon).onRead count = (daemon.onRead count).map (daemonWithout slow) := by
  have pty : (daemonWithout slow daemon).pty = daemon.pty := rfl
  unfold Daemon.onRead
  rw [pty]
  by_cases nothing : daemon.pty.output = []
  · rw [if_pos nothing, if_pos nothing]
    rfl
  · rw [if_neg nothing, if_neg nothing]
    by_cases bound : 0 < count ∧ count ≤ min bufferSize daemon.pty.output.length
    · rw [if_pos bound, if_pos bound]
      exact without_moved slow daemon (.output (daemon.pty.output.take count)) rfl
        (fun daemon hub => { daemon with
          hub := hub
          phase := .handingOff (daemon.pty.output.take count)
          pty := { daemon.pty with output := daemon.pty.output.drop count }
          taken := daemon.taken ++ [.read (daemon.pty.output.take count)] }) fun _ => rfl
    · rw [if_neg bound, if_neg bound]
      rfl

theorem without_onAccept :
    (daemonWithout slow daemon).onAccept = daemon.onAccept.map (daemonWithout slow) := by
  have waiting : (daemonWithout slow daemon).backlog = daemon.backlog := rfl
  unfold Daemon.onAccept
  rw [waiting]
  cases daemon.backlog with
  | nil => rfl
  | cons id rest =>
    exact without_moved slow daemon (.accept id) rfl (fun daemon hub =>
      { daemon with hub := hub, backlog := rest, taken := daemon.taken ++ [.accept id] }) fun _ => rfl

theorem without_onPush :
    (daemonWithout slow daemon).onPush = daemon.onPush.map (daemonWithout slow) := by
  have queue : (daemonWithout slow daemon).hub.pushQueue = daemon.hub.pushQueue := rfl
  unfold Daemon.onPush
  rw [queue]
  cases daemon.hub.pushQueue with
  | nil => rfl
  | cons data rest =>
    exact without_moved slow daemon .takePush rfl (fun daemon hub =>
      { daemon with
        hub := hub, phase := .writing data data, taken := daemon.taken ++ [.push data] }) fun _ => rfl

theorem without_select (count : Nat) :
    (daemonWithout slow daemon).select count = (daemon.select count).map (daemonWithout slow) := by
  have same : (daemonWithout slow daemon).pick = daemon.pick := rfl
  unfold Daemon.select
  rw [same]
  cases daemon.pick with
  | none => rfl
  | some branch =>
    cases branch with
    | control => exact without_onControl slow daemon
    | read => exact without_onRead slow daemon count
    | accept => exact without_onAccept slow daemon
    | push => exact without_onPush slow daemon
    | sigterm => rfl
    | sigint => rfl

theorem without_daemon (event : DaemonEvent) (fast : ofSlow slow (.daemon event) = false) :
    (daemonWithout slow daemon).step event = (daemon.step event).map (daemonWithout slow) := by
  have phase : (daemonWithout slow daemon).phase = daemon.phase := rfl
  have writer : (daemonWithout slow daemon).writer = daemon.writer := rfl
  cases event with
  | childWrites bytes =>
    have pty : (daemonWithout slow daemon).pty = daemon.pty := rfl
    simp only [Daemon.step, pty]
    split <;> rfl
  | slave isOpen => rfl
  | childExits => rfl
  | terminate => rfl
  | interrupt => rfl
  | connects id =>
    have known := without_known slow daemon.hub id
    have hub : (daemonWithout slow daemon).hub = hubWithout slow daemon.hub := rfl
    have serves : (hubWithout slow daemon.hub).serving = daemon.hub.serving := rfl
    have backlog : (daemonWithout slow daemon).backlog = daemon.backlog := rfl
    simp only [Daemon.step, hub, known, serves, backlog]
    split <;> rfl
  | task event =>
    have put := without_handed_over slow daemon.hub event fast
    simp only [Daemon.step, phase]
    split
    · rename_i may
      exact without_moved slow daemon event fast (fun daemon hub =>
        { daemon with hub := hub, enqueued := daemon.enqueued ++ handedOver daemon.hub event })
        fun hub => by simp [daemonWithout, put]
    · rfl
  | select count =>
    simp only [Daemon.step, phase]
    split
    · exact without_select slow daemon count
    · rfl
  | handOff =>
    simp only [Daemon.step, phase]
    split <;> rfl
  | ptyWrite count =>
    simp only [Daemon.step, phase]
    split
    · split <;> rfl
    · rfl
  | writeEnds outcome =>
    simp only [Daemon.step, phase]
    split
    · split <;> rfl
    · rfl
  | reaped code =>
    have pty : (daemonWithout slow daemon).pty = daemon.pty := rfl
    simp only [Daemon.step, phase, pty]
    split <;> rfl
  | shutDown elapsed =>
    have logs : (daemonWithout slow daemon).logging = daemon.logging := rfl
    simp only [Daemon.step, phase, logs]
    split
    · split <;> rfl
    · rfl
  | joined =>
    have ended : (daemonWithout slow daemon).writerEnded = daemon.writerEnded := rfl
    simp only [Daemon.step, phase, ended]
    split
    · split <;> rfl
    · rfl
  | unlinked =>
    simp only [Daemon.step, phase]
    split
    · rename_i reason unlinking
      exact without_moved slow daemon .stop rfl
        (fun daemon hub => { daemon with hub := hub, phase := .returned reason }) fun _ => rfl
    · rfl
  | writer event =>
    simp only [Daemon.step, writer]
    rw [Option.map_map]
    rfl

end Seen

section Connected

variable (slow : Nat → Bool) (system : System) (id : Nat)

theorem without_wire (fast : slow id = false) : (without slow system).wire id = system.wire id := by
  simp [without, fast]

theorem without_setWire (wire : Wire) (fast : slow id = false) :
    (without slow system).setWire id wire = without slow (system.setWire id wire) := by
  have same : Function.update (without slow system).wire id wire =
      (without slow (system.setWire id wire)).wire := by
    funext other
    by_cases own : other = id
    · subst own
      simp [without, System.setWire, fast]
    · simp [without, System.setWire, own]
  simp only [System.setWire] at same ⊢
  rw [same]
  rfl

theorem without_connected (fast : slow id = false) :
    (without slow system).connected id = system.connected id := by
  have client : (without slow system).daemon.hub.clients id = system.daemon.hub.clients id :=
    without_client slow system.daemon.hub id fast
  have backlog : (without slow system).daemon.backlog = system.daemon.backlog := rfl
  simp only [System.connected, client, backlog]

theorem without_reading (fast : slow id = false) :
    (without slow system).reading id = system.reading id := by
  have client : (without slow system).daemon.hub.clients id = system.daemon.hub.clients id :=
    without_client slow system.daemon.hub id fast
  have phase : (without slow system).daemon.phase = system.daemon.phase := rfl
  simp only [System.reading, client, phase]

theorem without_allows (event : DaemonEvent) (fast : ofSlow slow (.daemon event) = false) :
    (without slow system).allows event = system.allows event := by
  cases event with
  | task event =>
    cases event with
    | write id count => simp only [System.allows, without_wire slow system id fast]
    | writeFails id => simp only [System.allows, without_wire slow system id fast]
    | _ => rfl
  | _ => rfl

/-- No step depends on a slow client that is not its own. -/
theorem without_system (event : SystemEvent) (fast : ofSlow slow event = false) :
    (without slow system).step event = (system.step event).map (without slow) := by
  cases event with
  | peerWrites id bytes =>
    simp only [System.step, without_connected slow system id fast, without_wire slow system id fast]
    split
    · rw [without_setWire slow system id _ fast]
      rfl
    · rfl
  | peerCloses id =>
    simp only [System.step, without_wire slow system id fast]
    rw [without_setWire slow system id _ fast]
    rfl
  | fill id count =>
    simp only [System.step, without_reading slow system id fast, without_wire slow system id fast]
    split
    · rw [without_setWire slow system id _ fast]
      rfl
    · rfl
  | next id =>
    simp only [System.step, without_wire slow system id fast]
    cases (system.wire id).resolve with
    | none => rfl
    | some resolved =>
      obtain ⟨input, rest⟩ := resolved
      have moved : (without slow system).daemon.step (.task (.input id input)) =
          (system.daemon.step (.task (.input id input))).map (daemonWithout slow) :=
        without_daemon slow system.daemon (.task (.input id input)) fast
      simp only [Option.bind_some, moved, Option.map_map]
      congr 1
      funext daemon
      simp only [Function.comp_apply, without_setWire slow system id _ fast]
      rfl
  | daemon event =>
    have moved : (without slow system).daemon.step event =
        (system.daemon.step event).map (daemonWithout slow) :=
      without_daemon slow system.daemon event fast
    simp only [System.step, without_allows slow system event fast, moved]
    split
    · rw [Option.map_map, Option.map_map]
      rfl
    · rfl

end Connected

section Unseen

variable (slow : Nat → Bool)

/-- The step puts nothing into a channel. -/
def Quiet (system : System) : SystemEvent → Prop
  | .daemon (.task event) => handedOver system.daemon.hub event = []
  | _ => True

theorem unseen_hub (hub next : Hub UInt8) (event : HubEvent UInt8)
    (hidden : (mover event).any slow = true) (own : ofTask event = true)
    (quiet : handedOver hub event = []) (taken : hub.step event = some next) :
    hubWithout slow next = hubWithout slow hub := by
  obtain ⟨serving, control, push, _⟩ := task_queues hub next event own taken
  rw [quiet] at control push
  have fields (fanout : next.fanout = hub.fanout)
      (clients : (hubWithout slow next).clients = (hubWithout slow hub).clients) :
      hubWithout slow next = hubWithout slow hub := by
    have control : next.controlQueue = hub.controlQueue := control.trans (List.append_nil _)
    have push : next.pushQueue = hub.pushQueue := push.trans (List.append_nil _)
    simp only [hubWithout] at clients ⊢
    rw [clients, fanout, serving, control, push]
  cases hub_step_cases hub next event taken with
  | output pushed clients => cases own
  | accept fresh fanout clients => cases own
  | @task event id client after known took fanout clients =>
    apply fields fanout
    rw [task_mover hub.fanout id event client after took] at hidden
    funext other
    simp only [hubWithout, clients]
    by_cases same : other = id
    · subst same
      simp only [Option.any_some] at hidden
      simp [hidden, known]
    · simp [same]
  | loop silent fanout clients =>
    apply fields fanout
    simp only [hubWithout, clients]

theorem unseen_daemon (daemon next : Daemon) (event : HubEvent UInt8)
    (hidden : (mover event).any slow = true) (quiet : handedOver daemon.hub event = [])
    (taken : daemon.step (.task event) = some next) :
    daemonWithout slow next = daemonWithout slow daemon := by
  cases daemon_step_cases daemon next _ taken with
  | task own awaits moved =>
    simp only [daemonWithout, quiet, List.append_nil]
    rw [unseen_hub slow daemon.hub _ event hidden own quiet moved]
  | outside kind => cases kind

theorem unseen_wire (system : System) (id : Nat) (wire : Wire) (hidden : slow id = true) :
    without slow (system.setWire id wire) = without slow system := by
  simp only [without, System.setWire]
  congr 1
  funext other
  by_cases same : other = id
  · subst same
    simp [hidden]
  · simp [same]

/-- What a slow client does, unless it puts something into a channel, nobody sees. -/
theorem unseen_step (system next : System) (event : SystemEvent) (hidden : ofSlow slow event = true)
    (quiet : Quiet system event) (taken : system.step event = some next) :
    without slow next = without slow system := by
  cases system_step_cases system next event taken with
  | @peerWrites id bytes connected opened => exact unseen_wire slow system id _ hidden
  | @peerCloses id => exact unseen_wire slow system id _ hidden
  | @fill id count reading pending bound => exact unseen_wire slow system id _ hidden
  | @frame id msg rest daemon decoded moved =>
    have same := unseen_daemon slow system.daemon daemon (.input id (.frame msg)) hidden rfl moved
    have wires := unseen_wire slow system id { system.wire id with buffer := rest } hidden
    simp only [without] at wires ⊢
    rw [same]
    exact wires
  | @ends id input daemon last left moved =>
    have same := unseen_daemon slow system.daemon daemon (.input id input) hidden rfl moved
    simp only [without, same]
  | @daemon event daemon allowed moved =>
    cases event with
    | task event =>
      have same := unseen_daemon slow system.daemon daemon event hidden quiet moved
      simp only [without, same]
    | _ => cases hidden

/-- What the slow clients have put into the channels. -/
def bySlow (system : System) : List (Nat × Outgoing) :=
  system.daemon.enqueued.filter fun entry => slow entry.1

theorem handed_over_mover (hub : Hub UInt8) (event : HubEvent UInt8) (entry : Nat × Outgoing)
    (member : entry ∈ handedOver hub event) : mover event = some entry.1 := by
  cases event with
  | enqueue id =>
    simp only [handedOver] at member
    split at member
    · split at member
      · rw [List.mem_singleton.mp member]
        rfl
      · cases member
    · cases member
  | _ => cases member

theorem enqueued_grows (system next : System) (event : SystemEvent)
    (taken : system.step event = some next) :
    system.daemon.enqueued <+: next.daemon.enqueued := by
  rcases system_moves system next event taken with same | ⟨moved, stepped⟩
  · simp only [same, List.prefix_refl]
  · exact (records_grow system.daemon next.daemon moved stepped).1

theorem bySlow_grows (first second : System)
    (grows : first.daemon.enqueued <+: second.daemon.enqueued) :
    bySlow slow first <+: bySlow slow second := grows.filter _

theorem quiet_of_same (system next : System) (event : SystemEvent) (hidden : ofSlow slow event = true)
    (same : bySlow slow next = bySlow slow system) (taken : system.step event = some next) :
    Quiet system event := by
  cases system_step_cases system next event taken with
  | @daemon event daemon allowed moved =>
    cases event with
    | task event =>
      have hidden : (mover event).any slow = true := hidden
      cases daemon_step_cases system.daemon daemon _ moved with
      | task own awaits went =>
        simp only [bySlow, List.filter_append, List.append_right_eq_self] at same
        rw [List.filter_eq_nil_iff] at same
        apply List.eq_nil_iff_forall_not_mem.mpr
        intro entry member
        rw [handed_over_mover system.daemon.hub event entry member, Option.any_some] at hidden
        exact same entry member hidden
      | outside kind => cases kind
    | _ => trivial
  | _ => trivial

theorem quiet_run (system last : System) (events : List SystemEvent)
    (ran : run System.step system events = some last)
    (silent : bySlow slow last = bySlow slow system) :
    Meets System.step (fun state event => ofSlow slow event = true → Quiet state event) system
      events := by
  induction events generalizing system with
  | nil => trivial
  | cons event rest ih =>
    obtain ⟨next, taken, later⟩ := run_cons System.step system last event rest ran
    have first := bySlow_grows slow system next (enqueued_grows system next event taken)
    have second := bySlow_grows slow next last (run_invariant System.step
      (fun state => next.daemon.enqueued <+: state.daemon.enqueued)
      (fun state event after grown moved => grown.trans (enqueued_grows state after event moved))
      next last rest (List.prefix_refl _) later)
    have still : bySlow slow next = bySlow slow system := by
      rw [silent] at second
      exact second.eq_of_length_le first.length_le
    apply meets_cons System.step _ system next event rest taken
    · intro hidden
      exact quiet_of_same slow system next event hidden still taken
    · exact ih next later (silent.trans still.symm)

/-- Two systems that differ in the slow clients and their connections alone. -/
structure Unaffected (last other : System) : Prop where
  client : ∀ id, slow id = false → other.daemon.hub.clients id = last.daemon.hub.clients id
  wire : ∀ id, slow id = false → other.wire id = last.wire id
  fanout : other.daemon.hub.fanout = last.daemon.hub.fanout
  pushQueue : other.daemon.hub.pushQueue = last.daemon.hub.pushQueue
  controlQueue : other.daemon.hub.controlQueue = last.daemon.hub.controlQueue
  serving : other.daemon.hub.serving = last.daemon.hub.serving
  backlog : other.daemon.backlog = last.daemon.backlog
  phase : other.daemon.phase = last.daemon.phase
  pty : other.daemon.pty = last.daemon.pty
  log : other.daemon.writer = last.daemon.writer
  taken : other.daemon.taken = last.daemon.taken
  written : other.daemon.written = last.daemon.written
  enqueued : other.daemon.enqueued = last.daemon.enqueued

theorem unaffected_of_same (last other : System) (same : without slow other = without slow last) :
    Unaffected slow last other := by
  have daemon : daemonWithout slow other.daemon = daemonWithout slow last.daemon :=
    congrArg System.daemon same
  have hub : hubWithout slow other.daemon.hub = hubWithout slow last.daemon.hub :=
    congrArg Daemon.hub daemon
  constructor
  · intro id fast
    rw [← without_client slow other.daemon.hub id fast, hub, without_client slow _ id fast]
  · intro id fast
    rw [← without_wire slow other id fast, same, without_wire slow last id fast]
  · exact (congrArg Hub.fanout hub :)
  · exact (congrArg Hub.pushQueue hub :)
  · exact (congrArg Hub.controlQueue hub :)
  · exact (congrArg Hub.serving hub :)
  · exact (congrArg Daemon.backlog daemon :)
  · exact (congrArg Daemon.phase daemon :)
  · exact (congrArg Daemon.pty daemon :)
  · exact (congrArg Daemon.writer daemon :)
  · exact (congrArg Daemon.taken daemon :)
  · exact (congrArg Daemon.written daemon :)
  · exact (congrArg Daemon.enqueued daemon :)

/-- Whatever some clients do to be slow, the others get as far with them stuck. -/
theorem slow_clients_unnoticed (system last : System) (events : List SystemEvent)
    (ran : run System.step system events = some last)
    (silent : bySlow slow last = bySlow slow system) :
    ∃ other, run System.step system (events.filter fun event => !ofSlow slow event) = some other ∧
      Unaffected slow last other := by
  have erased := run_erased System.step (without slow) (ofSlow slow) (fun _ => True)
    (fun state event _ fast => without_system slow state event fast) Quiet
    (fun state event next hidden quiet taken => unseen_step slow state next event hidden quiet taken)
    system last events (fun _ _ => trivial) (quiet_run slow system last events ran silent) ran
  obtain ⟨other, went, same⟩ := Option.map_eq_some_iff.mp erased
  exact ⟨other, went, unaffected_of_same slow last other same⟩

/-- Two clients attach; one of them has still to write what the other has been given. -/
def oneHangs : List SystemEvent :=
  [.daemon (.connects 0), .daemon (.connects 1), .daemon (.select 0), .daemon (.select 0),
    .peerWrites 1 (frame codec (.attach true)), .fill 1 6, .next 1,
    .peerWrites 0 (frame codec (.attach true)), .fill 0 6, .next 0,
    .daemon (.childWrites [104, 105]), .daemon (.select 2), .daemon .handOff,
    .daemon (.task (.live 1)), .daemon (.task (.write 1 1)),
    .daemon (.task (.live 0)), .daemon (.task (.write 0 2)), .daemon (.task (.written 0))]

set_option maxRecDepth 2000 in
theorem slow_clients_unnoticed_one : ∃ last,
    run System.step (System.start idle) oneHangs = some last ∧
      last.daemon.hub.socket 0 = [104, 105] ∧ last.daemon.hub.socket 1 = [104] ∧
      ∃ other, run System.step (System.start idle)
          (oneHangs.filter fun event => !ofSlow (· == 1) event) = some other ∧
        Unaffected (· == 1) last other := by
  refine ⟨_, rfl, rfl, rfl, ?_⟩
  exact slow_clients_unnoticed (· == 1) (System.start idle) _ oneHangs rfl rfl

end Unseen

end Hytch.SlowClients
