import Hytch.ColdAttach

/-!
The three parties of a cold attach, each followed through the steps of all.
`HubView` is the fanout and the client's connection: what its socket carries is
decided at the Attach. `LogView` is the log: with the chunks on their way it
only loses bytes or gains new output behind them.
-/

namespace Hytch.ReplayThenLive

open BoundedTail HandleClient Attachments ColdAttach Runs

/-- A connection that has never been attached. -/
inductive Unattached : Client OutputByte → Prop where
  | idle {activity : Activity OutputByte}
      (state : activity = .selecting ∨ activity = .returned ∨ ∃ item, activity = .enqueuing item) :
      Unattached { attached := none, activity := activity, socket := [] }

theorem unattached_task (fanout : Fanout OutputByte) (event : HubEvent OutputByte)
    (client next : Client OutputByte) (quiet : Unattached client)
    (other : ¬ EndsAttachment clientId event) (took : TaskStep fanout clientId event client next) :
    Unattached next := by
  obtain ⟨state⟩ := quiet
  cases took with
  | @input _ _ input selecting took =>
    rcases input_cases fanout clientId _ next input took other with rfl | rfl | ⟨item, rfl⟩
    · exact .idle state
    · exact .idle (Or.inr (Or.inl rfl))
    · exact .idle (Or.inr (Or.inr ⟨item, rfl⟩))
  | live selecting took => cases took
  | write took =>
    rcases state with rfl | rfl | ⟨item, rfl⟩ <;> cases took
  | written took =>
    rcases state with rfl | rfl | ⟨item, rfl⟩ <;> cases took
  | writeFails took =>
    rcases state with rfl | rfl | ⟨item, rfl⟩ <;> cases took
  | enqueued busy => exact .idle (Or.inl rfl)
  | refused busy => exact .idle (Or.inr (Or.inl rfl))

/-- The connection of the client, by how far it is. At the Attach `tells` relates
what was replayed from the log to the output so far. -/
inductive Connection (scrollback base : Nat)
    (tells : List OutputByte → List OutputByte → Prop) (world : World) : Prop where
  | apart {bytes : List OutputByte}
      (phase : world.client = .reading bytes ∨ world.client = .replayed bytes)
      (absent : world.hub.clients clientId = none) : Connection scrollback base tells world
  | connected {bytes : List OutputByte} {client : Client OutputByte}
      (phase : world.client = .connected bytes) (known : world.hub.clients clientId = some client)
      (quiet : Unattached client) : Connection scrollback base tells world
  | attached {bytes earlier pushed : List OutputByte} {start : Nat}
      (phase : world.client = .attached bytes) (split : world.stream = earlier ++ pushed)
      (reached : base ≤ earlier.length) (told : tells bytes earlier)
      (view : Attached scrollback clientId start
        (if !bytes.isEmpty then [] else (earlier.drop base).rtake scrollback) []
        (earlier.drop base) pushed world.hub) : Connection scrollback base tells world

structure HubView (scrollback base : Nat) (tells : List OutputByte → List OutputByte → Prop)
    (world : World) : Prop where
  reached : base ≤ world.stream.length
  fanout : world.hub.fanout.Represents scrollback (world.stream.drop base)
  connection : Connection scrollback base tells world

theorem background_cases (event : HubEvent OutputByte) (other : background event = true) :
    ¬ EndsAttachment clientId event ∧ event ≠ .accept clientId ∧ outputs [event] = [] := by
  cases event with
  | output chunk => cases other
  | accept id =>
    have different : id ≠ clientId := by simpa [background] using other
    exact ⟨fun never => never, by simpa using different, rfl⟩
  | input id input =>
    refine ⟨?_, by simp, rfl⟩
    intro ends
    cases input with
    | frame msg => cases msg <;> simp_all [EndsAttachment, background]
    | protocolError => exact ends
    | closed => exact ends
  | _ => exact ⟨fun never => never, by simp, rfl⟩

section Bystander

variable (hub next : Hub OutputByte) (event : HubEvent OutputByte)
  (taken : hub.step event = some next)
include taken

theorem client_stays_absent (fresh : event ≠ .accept clientId)
    (absent : hub.clients clientId = none) : next.clients clientId = none := by
  cases hub_step_cases hub next event taken with
  | output pushed clients => rw [clients, absent]
  | @accept id free fanout clients =>
    have different : clientId ≠ id := fun same => fresh (same ▸ rfl)
    rw [clients, Function.update_of_ne different, absent]
  | @task event id client after known took fanout clients =>
    have different : clientId ≠ id := by
      rintro rfl
      rw [absent] at known
      cases known
    rw [clients, Function.update_of_ne different, absent]
  | loop silent fanout clients => rw [clients, absent]

theorem client_stays_quiet (client : Client OutputByte) (other : ¬ EndsAttachment clientId event)
    (known : hub.clients clientId = some client) (quiet : Unattached client) :
    ∃ after, next.clients clientId = some after ∧ Unattached after := by
  rcases known_client_cases hub next event clientId client known taken with
    still | ⟨after, now, took, _⟩
  · exact ⟨client, still, quiet⟩
  · exact ⟨after, now, unattached_task _ _ _ _ quiet other took⟩

end Bystander

/-- A hub step that is not the client's own connect or Attach. -/
theorem connection_bystander (scrollback base : Nat)
    (tells : List OutputByte → List OutputByte → Prop) (world : World) (hub : Hub OutputByte)
    (handOff : Option (List OutputByte)) (event : HubEvent OutputByte)
    (connection : Connection scrollback base tells world)
    (other : ¬ EndsAttachment clientId event) (fresh : event ≠ .accept clientId)
    (moved : world.hub.step event = some hub) :
    Connection scrollback base tells
      { world with hub := hub, stream := world.stream ++ outputs [event], handOff := handOff } := by
  cases connection with
  | apart phase absent =>
    exact .apart phase (client_stays_absent world.hub hub event moved fresh absent)
  | connected phase known quiet =>
    obtain ⟨after, still, same⟩ :=
      client_stays_quiet world.hub hub event moved _ other known quiet
    exact .connected phase still same
  | @attached bytes earlier pushed start phase split reached told view =>
    have grown := attached_step scrollback clientId start _ _ _ pushed world.hub hub event view other
      moved
    exact .attached phase (by rw [split, List.append_assoc]) reached told grown

theorem connection_elsewhere (scrollback base : Nat)
    (tells : List OutputByte → List OutputByte → Prop) (world next : World)
    (connection : Connection scrollback base tells world) (hub : next.hub = world.hub)
    (stream : next.stream = world.stream) (client : next.client = world.client) :
    Connection scrollback base tells next := by
  cases connection with
  | apart phase absent => exact .apart (by rwa [client]) (by rwa [hub])
  | connected phase known quiet => exact .connected (by rwa [client]) (by rwa [hub]) quiet
  | attached phase split reached told view =>
    exact .attached (by rwa [client]) (by rwa [stream]) reached told (by rwa [hub])

theorem connection_apart (scrollback base : Nat)
    (tells : List OutputByte → List OutputByte → Prop) (world : World) (bytes : List OutputByte)
    (connection : Connection scrollback base tells world)
    (phase : world.client = .reading bytes ∨ world.client = .replayed bytes) :
    world.hub.clients clientId = none := by
  cases connection with
  | apart _ absent => exact absent
  | connected other known quiet => simp [other] at phase
  | attached other split reached told view => simp [other] at phase

theorem hub_view_step (scrollback base : Nat) (tells : List OutputByte → List OutputByte → Prop)
    (world next : World) (event : WorldEvent) (view : HubView scrollback base tells world)
    (tell : ∀ bytes, event = .attach → world.client = .connected bytes → tells bytes world.stream)
    (taken : world.step event = some next) : HubView scrollback base tells next := by
  obtain ⟨reached, rep, connection⟩ := view
  cases world_step_cases world next event taken with
  | @ptyRead octets hub free pushed =>
    have fanout := hub_step_fanout scrollback _ world.hub hub _ rep pushed
    have output : outputs [HubEvent.output (stamp world.stream.length octets)] =
        stamp world.stream.length octets := by simp [outputs]
    have after := connection_bystander scrollback base tells world hub
      (world.forLog (stamp world.stream.length octets)) _ connection
      (by simp [EndsAttachment]) (by simp) pushed
    rw [output] at fanout after
    constructor
    · exact Nat.le_trans reached (by rw [List.length_append]; exact Nat.le_add_right _ _)
    · rw [List.drop_append_of_le_length reached]
      exact fanout
    · exact after
  | handOff pending =>
    exact ⟨reached, rep, connection_elsewhere scrollback base tells world _ connection rfl rfl rfl⟩
  | writer moved =>
    exact ⟨reached, rep, connection_elsewhere scrollback base tells world _ connection rfl rfl rfl⟩
  | @hub event hub other moved =>
    obtain ⟨same, fresh, silent⟩ := background_cases event other
    have fanout := hub_step_fanout scrollback _ world.hub hub event rep moved
    have after := connection_bystander scrollback base tells world hub world.handOff event
      connection same fresh moved
    rw [silent, List.append_nil] at fanout after
    exact ⟨reached, fanout, after⟩
  | readLog reading bound =>
    have absent := connection_apart scrollback base tells world _ connection (Or.inl reading)
    exact ⟨reached, rep, .apart (Or.inl rfl) absent⟩
  | readEnds reading =>
    have absent := connection_apart scrollback base tells world _ connection (Or.inl reading)
    exact ⟨reached, rep, .apart (Or.inr rfl) absent⟩
  | readFails reading =>
    have absent := connection_apart scrollback base tells world _ connection (Or.inl reading)
    exact ⟨reached, rep, .apart (Or.inr rfl) absent⟩
  | @connect bytes hub replayed accepted =>
    have fanout := hub_step_fanout scrollback _ world.hub hub _ rep accepted
    have silent : outputs [(.accept clientId : HubEvent OutputByte)] = [] := rfl
    rw [silent, List.append_nil] at fanout
    refine ⟨reached, fanout, ?_⟩
    have known : hub.clients clientId = some Client.connected := by
      simp only [Hub.step] at accepted
      split at accepted
      · cases accepted
        simp
      · cases accepted
    exact .connected rfl known (.idle (Or.inl rfl))
  | @attach bytes hub connected handled =>
    have fanout := hub_step_fanout scrollback _ world.hub hub _ rep handled
    have silent : outputs [(.input clientId (.frame (.attach (!bytes.isEmpty))) :
        HubEvent OutputByte)] = [] := rfl
    rw [silent, List.append_nil] at fanout
    refine ⟨reached, fanout, ?_⟩
    have opened := attach_opens scrollback clientId (!bytes.isEmpty) _ world.hub hub rep handled
    -- nothing was written to the connection before its first Attach
    have unused : world.hub.socket clientId = [] := by
      cases connection with
      | apart phase absent => simp [Hub.socket, absent]
      | @connected _ client phase known quiet =>
        obtain ⟨state⟩ := quiet
        simp [Hub.socket, known]
      | attached phase split reached told attached => simp [phase] at connected
    rw [unused] at opened
    exact .attached rfl (List.append_nil _).symm reached (tell bytes rfl connected) opened
  | display attached =>
    exact ⟨reached, rep, connection_elsewhere scrollback base tells world _ connection rfl rfl rfl⟩

/-- Everything in the log or on its way there. -/
def logged (world : World) (goal : List OutputByte) : List OutputByte :=
  world.writer.whole goal ++ world.handOff.getD []

structure LogView (complete : Prop) (world : World) (goal : List OutputByte) : Prop where
  explains : world.writer.Explains complete goal
  disabled : world.writer.thread = .off → world.handOff = none

/-- What a step may do to the log: drop bytes, and take in the new output. -/
structure LogGrows (complete : Prop) (world next : World) (goal later newer : List OutputByte) :
    Prop where
  view : LogView complete next later
  stream : next.stream = world.stream ++ newer
  thread : next.writer.thread = .off ↔ world.writer.thread = .off
  kept : (logged next later).Sublist (logged world goal ++ newer)
  enabled : complete → world.writer.thread ≠ .off → logged next later <:+ logged world goal ++ newer
  stale : world.writer.thread = .off → logged next later = logged world goal

/-- The step does not cut an operation of the log writer short. -/
def WriterCompletes (world : World) : WorldEvent → Prop
  | .writer event => world.writer.Completes event
  | _ => True

theorem log_view_unmoved (complete : Prop) (world next : World) (goal : List OutputByte)
    (view : LogView complete world goal) (writer : next.writer = world.writer)
    (handOff : next.handOff = world.handOff) (stream : next.stream = world.stream) :
    LogGrows complete world next goal goal [] := by
  have same : logged next goal = logged world goal := by rw [logged, logged, writer, handOff]
  have whole : logged next goal = logged world goal ++ [] := by rw [same, List.append_nil]
  constructor
  · constructor
    · rw [writer]
      exact view.explains
    · rw [writer, handOff]
      exact view.disabled
  · rw [stream, List.append_nil]
  · rw [writer]
  · exact whole ▸ List.Sublist.refl _
  · exact fun _ _ => whole ▸ List.suffix_refl _
  · exact fun _ => same

/-- New output goes to the log, where there is one, once the last chunk is handed over. -/
theorem log_view_read (complete : Prop) (world : World) (octets : List UInt8)
    (hub : Hub OutputByte) (goal : List OutputByte) (view : LogView complete world goal)
    (free : world.handOff = none) :
    LogGrows complete world
      { world with
        hub := hub
        stream := world.stream ++ stamp world.stream.length octets
        handOff := world.forLog (stamp world.stream.length octets) }
      goal goal (stamp world.stream.length octets) := by
  by_cases off : world.writer.thread = .off
  · have silent (chunk : List OutputByte) : world.forLog chunk = none := by
      simp [World.forLog, off]
    constructor
    · exact ⟨view.explains, fun _ => silent _⟩
    · rfl
    · exact Iff.rfl
    · simp only [logged, silent, free]
      exact List.sublist_append_left _ _
    · exact fun _ on => absurd off on
    · intro _
      simp only [logged, silent, free]
  · have sent (chunk : List OutputByte) : world.forLog chunk = some chunk := by
      unfold World.forLog
      split
      · contradiction
      · rfl
    have grown : world.writer.whole goal ++ stamp world.stream.length octets =
        logged world goal ++ stamp world.stream.length octets := by
      simp [logged, free]
    constructor
    · exact ⟨view.explains, fun disabled => absurd disabled off⟩
    · rfl
    · exact Iff.rfl
    · simp only [logged, sent, Option.getD_some]
      rw [grown]
      exact List.Sublist.refl _
    · intro _ _
      simp only [logged, sent, Option.getD_some]
      rw [grown]
      exact List.suffix_refl _
    · exact fun disabled => absurd disabled off

theorem log_view_hand_off (complete : Prop) (world : World) (chunk goal : List OutputByte)
    (view : LogView complete world goal) (pending : world.handOff = some chunk) :
    LogGrows complete world { world with handOff := none, writer := world.writer.send chunk }
      goal goal [] := by
  have on : world.writer.thread ≠ .off := by
    intro off
    rw [view.disabled off] at pending
    cases pending
  obtain ⟨explains, whole⟩ := world.writer.send_explains complete goal chunk on view.explains
  have same : logged { world with handOff := none, writer := world.writer.send chunk } goal =
      logged world goal ++ [] := by
    simp [logged, whole, pending]
  constructor
  · exact ⟨explains, fun _ => rfl⟩
  · exact (List.append_nil _).symm
  · exact Iff.rfl
  · exact same ▸ List.Sublist.refl _
  · exact fun _ _ => same ▸ List.suffix_refl _
  · exact fun off => absurd off on

theorem log_view_writer (complete : Prop) (world : World) (event : WriterEvent)
    (writer : LogWriter OutputByte) (goal : List OutputByte) (view : LogView complete world goal)
    (completes : complete → world.writer.Completes event)
    (moved : world.writer.step OutputByte.octet event = some writer) :
    ∃ later, LogGrows complete world { world with writer := writer } goal later [] := by
  obtain ⟨later, explains, kept, front, thread⟩ := LogWriter.writer_step complete OutputByte.octet
    world.writer writer event goal view.explains completes moved
  refine ⟨later, ?_⟩
  constructor
  · exact ⟨explains, fun off => view.disabled (thread.mp off)⟩
  · exact (List.append_nil _).symm
  · exact thread
  · rw [List.append_nil]
    exact kept.append (List.Sublist.refl _)
  · intro all _
    obtain ⟨dropped, same⟩ := front all
    exact ⟨dropped, by simp only [logged, ← same, List.append_assoc, List.append_nil]⟩
  · intro off
    rw [LogWriter.step_off OutputByte.octet world.writer event off] at moved
    cases moved

theorem log_view_step (complete : Prop) (world next : World) (event : WorldEvent)
    (goal : List OutputByte) (view : LogView complete world goal)
    (completes : complete → WriterCompletes world event) (taken : world.step event = some next) :
    ∃ later newer, LogGrows complete world next goal later newer := by
  cases world_step_cases world next event taken with
  | @ptyRead octets hub free pushed =>
    exact ⟨goal, _, log_view_read complete world octets hub goal view free⟩
  | @handOff chunk pending =>
    exact ⟨goal, [], log_view_hand_off complete world chunk goal view pending⟩
  | @writer event writer moved =>
    obtain ⟨later, grows⟩ := log_view_writer complete world event writer goal view completes moved
    exact ⟨later, [], grows⟩
  | hub other moved => exact ⟨goal, [], log_view_unmoved complete world _ goal view rfl rfl rfl⟩
  | readLog reading bound => exact ⟨goal, [], log_view_unmoved complete world _ goal view rfl rfl rfl⟩
  | readEnds reading => exact ⟨goal, [], log_view_unmoved complete world _ goal view rfl rfl rfl⟩
  | readFails reading => exact ⟨goal, [], log_view_unmoved complete world _ goal view rfl rfl rfl⟩
  | connect replayed accepted =>
    exact ⟨goal, [], log_view_unmoved complete world _ goal view rfl rfl rfl⟩
  | attach connected handled =>
    exact ⟨goal, [], log_view_unmoved complete world _ goal view rfl rfl rfl⟩
  | display attached => exact ⟨goal, [], log_view_unmoved complete world _ goal view rfl rfl rfl⟩

theorem start_views (complete : Prop) (scrollback broadcast : Nat) (history : List UInt8)
    (logging : Option Nat) (tells : List OutputByte → List OutputByte → Prop) (world : World)
    (started : World.start scrollback broadcast history logging = some world) :
    world.stream = stamp 0 history ∧ world.client = .reading [] ∧
      HubView scrollback history.length tells world ∧
      ∃ goal, LogView complete world goal ∧ logged world goal <:+ world.stream := by
  obtain ⟨writer, goal, opened, explains, suffix, _, _⟩ :=
    LogWriter.start_explains complete OutputByte.octet (stamp 0 history) logging
  simp only [World.start, opened, Option.bind_eq_bind, Option.bind_some, Option.bind_eq_some_iff,
    Option.some.injEq] at started
  obtain ⟨hub, created, rfl⟩ := started
  refine ⟨rfl, rfl, ?_, goal, ⟨explains, fun _ => rfl⟩, by simpa [logged] using suffix⟩
  have fanout := run_fanout scrollback broadcast hub hub [] created rfl
  have unconnected : hub.clients clientId = none := by
    obtain ⟨fanout, _, rfl⟩ := hub_start_cases _ _ _ created
    rfl
  constructor
  · exact Nat.le_of_eq (stamp_length 0 history).symm
  · have nothing : (stamp 0 history).drop history.length = [] := by
      rw [← stamp_length 0 history, List.drop_length]
    simp only [nothing]
    exact fanout
  · exact .apart (Or.inl rfl) unconnected

/-- After the Attach the client shows what it replayed and an initial part of
the ring replay, if it asked for one, with everything pushed since. -/
theorem displayed_attached (scrollback base : Nat)
    (tells : List OutputByte → List OutputByte → Prop) (world : World) (bytes : List OutputByte)
    (connection : Connection scrollback base tells world) (phase : world.client = .attached bytes) :
    ∃ earlier pushed written, world.stream = earlier ++ pushed ∧ tells bytes earlier ∧
      world.displayed = bytes ++ written ∧
      written <+: (if !bytes.isEmpty then [] else (earlier.drop base).rtake scrollback) ++ pushed := by
  cases connection with
  | apart other absent => rcases other with other | other <;> simp [other] at phase
  | connected other known quiet => simp [other] at phase
  | @attached shown earlier pushed start other split reached told view =>
    have same : shown = bytes := by
      rw [phase] at other
      cases other
      rfl
    subst same
    obtain ⟨client, known, progress⟩ := view.progress
    obtain ⟨written, socket, initial⟩ := progress_written _ _ _ _ client progress
    rw [view.since] at initial
    have on_socket : world.hub.socket clientId = written := by
      simp [Hub.socket, known, socket]
    refine ⟨earlier, pushed, written.take world.received, split, told, ?_,
      (List.take_prefix _ _).trans initial⟩
    simp [World.displayed, phase, on_socket]

theorem attached_stays (world next : World) (event : WorldEvent) (bytes : List OutputByte)
    (phase : world.client = .attached bytes) (taken : world.step event = some next) :
    next.client = .attached bytes := by
  cases world_step_cases world next event taken with
  | readLog reading bound => simp [phase] at reading
  | readEnds reading => simp [phase] at reading
  | readFails reading => simp [phase] at reading
  | connect replayed accepted => simp [phase] at replayed
  | attach connected handled => simp [phase] at connected
  | _ => exact phase

/-- What is shown is decided at the Attach: the replayed log and then an initial
part of the ring replay, if there is one, with everything pushed since. -/
theorem displayed_after_attach (scrollback base : Nat)
    (tells : List OutputByte → List OutputByte → Prop) (world opened last : World)
    (bytes : List OutputByte) (after : List WorldEvent) (view : HubView scrollback base tells world)
    (connected : world.client = .connected bytes) (attach : world.step .attach = some opened)
    (continued : run World.step opened after = some last) :
    last.client = .attached bytes ∧
      ∃ pushed written, last.stream = world.stream ++ pushed ∧ last.displayed = bytes ++ written ∧
        written <+: (if !bytes.isEmpty then [] else (world.stream.drop base).rtake scrollback) ++
          pushed := by
  -- from here on the relation of the view remembers the output at the Attach
  let remembers (shown earlier : List OutputByte) : Prop := shown = bytes ∧ earlier = world.stream
  have waiting : HubView scrollback base remembers world := by
    refine ⟨view.reached, view.fanout, ?_⟩
    cases view.connection with
    | apart phase absent => exact .apart phase absent
    | connected phase known quiet => exact .connected phase known quiet
    | attached phase split long told view => simp [phase] at connected
  have attached := hub_view_step scrollback base remembers world opened .attach waiting
    (fun shown _ phase => by rw [connected] at phase; cases phase; exact ⟨rfl, rfl⟩) attach
  have phase : opened.client = .attached bytes := by
    cases world_step_cases world opened .attach attach with
    | attach also handled =>
      rw [connected] at also
      cases also
      rfl
  have kept := run_invariant World.step
    (fun state => HubView scrollback base remembers state ∧ state.client = .attached bytes)
    (fun state event next both taken => by
      refine ⟨hub_view_step scrollback base remembers state next event both.1 ?_ taken,
        attached_stays state next event bytes both.2 taken⟩
      intro shown _ other
      rw [both.2] at other
      cases other) opened last after ⟨attached, phase⟩ continued
  obtain ⟨earlier, pushed, written, split, ⟨_, rfl⟩, shown, starts⟩ :=
    displayed_attached scrollback base remembers last bytes kept.1.connection kept.2
  exact ⟨kept.2, pushed, written, split, shown, starts⟩

end Hytch.ReplayThenLive
