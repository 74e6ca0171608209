import Hytch.ReplayThenLive

/-!
A session created by a client that attaches to it at once (`cmd_new` and the
create branch of `cmd_default`). The old log is replayed before the daemon is
spawned, and the flag that says so travels to the Attach as `skip_ring`. The
world of a cold attach then runs from the other end: the log has been read, and
the session starts.
-/

namespace Hytch.NewSession

open BoundedTail HandleClient Attachments ColdAttach ReplayThenLive Runs

/-- What is dumped to the terminal, and whether that was anything. -/
def replayLogToStdout : Except IoError (List OutputByte) → List OutputByte × Bool
  | .ok bytes => if !bytes.isEmpty then (bytes, true) else ([], false)
  | .error _ => ([], false)

/-- Reading the log an earlier session left; `fault` when that fails. -/
def readLog (history : List UInt8) : Option IoError → Except IoError (List OutputByte)
  | none => .ok (stamp 0 history)
  | some fault => .error fault

def replayed (history : List UInt8) (fault : Option IoError) : List OutputByte :=
  (replayLogToStdout (readLog history fault)).1

/-- The daemon of the new session serves; its client has replayed and not yet connected. -/
def cmdNew (scrollback broadcast : Nat) (history : List UInt8) (logging : Option Nat)
    (fault : Option IoError) : Option World :=
  (World.start scrollback broadcast history logging).map fun world =>
    { world with client := .replayed (replayed history fault) }

def shownBytes : List WorldEvent → Nat
  | [] => 0
  | .display count :: rest => count + shownBytes rest
  | _ :: rest => shownBytes rest

/-- Behind the replayed log the client shows the output of the new session from
its first byte up to the last it has received. -/
def ShownFromFirst (history : List UInt8) (fault : Option IoError) (events : List WorldEvent)
    (world : World) : Prop :=
  ∃ shown, world.displayed = replayed history fault ++ shown ∧
    shown <+: stamp history.length (ptyOutput events)

/-- No Attach comes after output that only the ring could have shown. -/
def InTime (history : List UInt8) (fault : Option IoError) (events : List WorldEvent) : Prop :=
  ∀ before after, events = before ++ .attach :: after →
    replayed history fault = [] ∨ ptyOutput before = [] ∨ shownBytes after = 0

theorem replay_flag (log : Except IoError (List OutputByte)) :
    (replayLogToStdout log).2 = !(replayLogToStdout log).1.isEmpty := by
  cases log with
  | error fault => rfl
  | ok bytes => cases bytes <;> rfl

theorem shownBytes_append (first second : List WorldEvent) :
    shownBytes (first ++ second) = shownBytes first + shownBytes second := by
  induction first with
  | nil => exact (Nat.zero_add _).symm
  | cons event rest ih => cases event <;> simp [shownBytes, ih, Nat.add_assoc]

/-- The creating client up to its Attach, and what it has received since. -/
inductive Creating (bytes : List OutputByte) (past : List WorldEvent) (world : World) : Prop where
  | waiting (phase : world.client = .replayed bytes ∨ world.client = .connected bytes)
      (nothing : world.received = 0) : Creating bytes past world
  | attached (phase : world.client = .attached bytes) (sent : .attach ∈ past) : Creating bytes past world

theorem creating_step (bytes : List OutputByte) (past : List WorldEvent) (world next : World)
    (event : WorldEvent) (creating : Creating bytes past world)
    (taken : world.step event = some next) : Creating bytes (past ++ [event]) next := by
  cases creating with
  | attached phase sent =>
    exact .attached (attached_stays world next event bytes phase taken) (List.mem_append_left _ sent)
  | waiting phase nothing =>
    cases world_step_cases world next event taken with
    | readLog reading bound => simp [reading] at phase
    | readEnds reading => simp [reading] at phase
    | readFails reading => simp [reading] at phase
    | connect replayed accepted =>
      rw [replayed] at phase
      rcases phase with same | other
      · cases same
        exact .waiting (.inr rfl) nothing
      · cases other
    | attach connected handled =>
      rw [connected] at phase
      rcases phase with other | same
      · cases other
      · cases same
        exact .attached rfl (by simp)
    | display attached => simp [attached] at phase
    | ptyRead free pushed => exact .waiting phase nothing
    | handOff pending => exact .waiting phase nothing
    | writer moved => exact .waiting phase nothing
    | hub other moved => exact .waiting phase nothing

structure Receives (past : List WorldEvent) (world : World) : Prop where
  count : world.received = shownBytes past
  onSocket : world.received ≤ (world.hub.socket clientId).length

theorem receives_step (past : List WorldEvent) (world next : World) (event : WorldEvent)
    (receives : Receives past world) (taken : world.step event = some next) :
    Receives (past ++ [event]) next := by
  obtain ⟨count, onSocket⟩ := receives
  have grown (hub : Hub OutputByte) (event : HubEvent OutputByte)
      (moved : world.hub.step event = some hub) :
      world.received ≤ (hub.socket clientId).length :=
    Nat.le_trans onSocket (socket_grows world.hub hub event clientId moved).length_le
  have silent (event : WorldEvent) (none_shown : shownBytes [event] = 0) :
      world.received = shownBytes (past ++ [event]) := by
    rw [shownBytes_append, none_shown, Nat.add_zero, count]
  cases world_step_cases world next event taken with
  | ptyRead free pushed => exact ⟨silent _ rfl, grown _ _ pushed⟩
  | handOff pending => exact ⟨silent _ rfl, onSocket⟩
  | writer moved => exact ⟨silent _ rfl, onSocket⟩
  | hub other moved => exact ⟨silent _ rfl, grown _ _ moved⟩
  | readLog reading bound => exact ⟨silent _ rfl, onSocket⟩
  | readEnds reading => exact ⟨silent _ rfl, onSocket⟩
  | readFails reading => exact ⟨silent _ rfl, onSocket⟩
  | connect replayed accepted => exact ⟨silent _ rfl, grown _ _ accepted⟩
  | attach connected handled => exact ⟨silent _ rfl, grown _ _ handled⟩
  | @display moved bytes attached =>
    simp only [World.step, attached] at taken
    split at taken
    · rename_i inside
      exact ⟨by rw [shownBytes_append, count]; rfl, inside⟩
    · cases taken

structure Started (history : List UInt8) (bytes : List OutputByte) (scrollback : Nat)
    (past : List WorldEvent) (world : World) : Prop where
  stamped : world.stream = stamp 0 (history ++ ptyOutput past)
  view : HubView scrollback history.length (fun _ _ => True) world
  creating : Creating bytes past world
  receives : Receives past world

section Run

variable (scrollback broadcast : Nat) (history : List UInt8) (logging : Option Nat)
  (fault : Option IoError) (world : World)
  (started : cmdNew scrollback broadcast history logging fault = some world)
include started

theorem started_run (last : World) (events : List WorldEvent)
    (ran : run World.step world events = some last) :
    Started history (replayed history fault) scrollback events last := by
  obtain ⟨fresh, opened, rfl⟩ := Option.map_eq_some_iff.mp started
  obtain ⟨stamped, _, view, _⟩ :=
    start_views True scrollback broadcast history logging (fun _ _ => True) fresh opened
  have unread : fresh.received = 0 := by
    simp only [World.start, Option.bind_eq_bind, Option.bind_eq_some_iff, Option.some.injEq] at opened
    obtain ⟨hub, _, writer, _, rfl⟩ := opened
    rfl
  refine run_history_invariant World.step (Started history (replayed history fault) scrollback) ?_ []
    events _ last ?_ ran
  · intro past state event next kept taken
    refine ⟨?_, hub_view_step _ _ _ state next event kept.view (fun _ _ _ => trivial) taken,
      creating_step _ past state next event kept.creating taken,
      receives_step past state next event kept.receives taken⟩
    rw [ptyOutput_append, ← List.append_assoc]
    exact step_stream _ state next event kept.stamped taken
  · refine ⟨by simpa [ptyOutput] using stamped, ?_, .waiting (.inl rfl) unread, unread, ?_⟩
    · refine ⟨view.reached, view.fanout, .apart (.inr rfl) ?_⟩
      exact connection_apart scrollback history.length _ fresh [] view.connection (.inl ‹_›)
    · simp [unread]

/-- A run with an Attach in it: what is shown behind the replayed log, and how
the output divides at the Attach. -/
theorem attached_output (last : World) (before after : List WorldEvent)
    (ran : run World.step world (before ++ .attach :: after) = some last) :
    ∃ written pushed, last.displayed = replayed history fault ++ written ∧
      stamp 0 (history ++ ptyOutput (before ++ .attach :: after)) =
        stamp 0 (history ++ ptyOutput before) ++ pushed ∧
      written <+: (if !(replayed history fault).isEmpty then []
        else ((stamp 0 (history ++ ptyOutput before)).drop history.length).rtake scrollback) ++ pushed ∧
      written.length = shownBytes after := by
  rw [run_append, Option.bind_eq_some_iff] at ran
  obtain ⟨reached, ran_before, rest⟩ := ran
  obtain ⟨opened, attach, continued⟩ := run_cons World.step reached last .attach after rest
  have earlier := started_run scrollback broadcast history logging fault world started reached before
    ran_before
  have whole := started_run scrollback broadcast history logging fault world started last
    (before ++ .attach :: after) (by rw [run_append, ran_before, Option.bind_some, rest])
  have connected : reached.client = .connected (replayed history fault) := by
    have creating := earlier.creating
    cases world_step_cases reached opened .attach attach with
    | attach connected handled =>
      cases creating with
      | waiting phase nothing =>
        rcases phase with other | same
        · simp [connected] at other
        · exact same
      | attached phase sent => simp [connected] at phase
  have unread : shownBytes before = 0 := by
    rw [← earlier.receives.count]
    cases earlier.creating with
    | waiting phase nothing => exact nothing
    | attached phase sent => simp [connected] at phase
  obtain ⟨phase, pushed, written, split, shown, starts⟩ := displayed_after_attach scrollback
    history.length (fun _ _ => True) reached opened last _ after earlier.view connected attach continued
  rw [earlier.stamped] at split starts
  refine ⟨written, pushed, shown, whole.stamped ▸ split, starts, ?_⟩
  have received := whole.receives.count
  have inside := whole.receives.onSocket
  have taken : written = (last.hub.socket clientId).take last.received := by
    simp only [World.displayed, phase] at shown
    exact (List.append_cancel_left shown).symm
  rw [taken, List.length_take, Nat.min_eq_left inside, received, shownBytes_append, unread]
  exact Nat.zero_add _

omit started in
theorem output_split (before : List UInt8) (output : List UInt8) (pushed : List OutputByte)
    (split : stamp 0 (history ++ output) = stamp 0 (history ++ before) ++ pushed) :
    stamp history.length output = stamp history.length before ++ pushed := by
  rw [stamp_append, stamp_append, List.append_assoc, Nat.zero_add] at split
  exact List.append_cancel_left split

/-- With an Attach that comes late the first byte shown is not the first one there was. -/
theorem in_time_of_shown (last : World) (events : List WorldEvent)
    (ran : run World.step world events = some last)
    (whole : ShownFromFirst history fault events last) : InTime history fault events := by
  obtain ⟨shown, displayed, initial⟩ := whole
  rintro before after rfl
  obtain ⟨written, pushed, also, split, starts, count⟩ :=
    attached_output scrollback broadcast history logging fault world started last before after ran
  have same : written = shown := List.append_cancel_left (also.symm.trans displayed)
  subst same
  by_contra late
  rw [not_or, not_or] at late
  obtain ⟨some_log, some_output, some_shown⟩ := late
  have skipped : (!(replayed history fault).isEmpty) = true := by simp [some_log]
  rw [if_pos skipped, List.nil_append] at starts
  obtain ⟨first, rest, rfl⟩ := List.exists_cons_of_ne_nil (l := written) (by
    rintro rfl
    exact some_shown count.symm)
  -- the first byte shown comes both at the Attach and at the start of the session
  have divided := output_split history _ _ pushed split
  obtain ⟨tail, rfl⟩ := starts
  obtain ⟨others, whole⟩ := initial
  have at_start := stamp_getElem history.length 0 (ptyOutput (before ++ .attach :: after))
  have at_attach := stamp_getElem history.length (ptyOutput before).length
    (ptyOutput (before ++ .attach :: after))
  rw [← whole] at at_start
  rw [divided, List.getElem?_append_right (Nat.le_of_eq (stamp_length _ _)), stamp_length,
    Nat.sub_self] at at_attach
  obtain ⟨_, _, from_start⟩ := Option.map_eq_some_iff.mp at_start.symm
  obtain ⟨_, _, from_attach⟩ := Option.map_eq_some_iff.mp at_attach.symm
  have position := congrArg OutputByte.position (from_start.trans from_attach.symm)
  have none_before : (ptyOutput before).length = 0 := Nat.left_eq_add.mp position
  exact some_output (List.length_eq_zero_iff.mp none_before)

theorem shown_of_in_time (last : World) (events : List WorldEvent)
    (fits : ∀ before after, events = before ++ .attach :: after → (ptyOutput before).length ≤ scrollback)
    (ran : run World.step world events = some last) (inTime : InTime history fault events) :
    ShownFromFirst history fault events last := by
  have final := started_run scrollback broadcast history logging fault world started last events ran
  cases final.creating with
  | waiting phase nothing =>
    refine ⟨[], ?_, List.nil_prefix⟩
    rw [List.append_nil]
    rcases phase with phase | phase <;> simp [World.displayed, phase]
  | attached phase sent =>
    obtain ⟨before, after, rfl⟩ := List.append_of_mem sent
    obtain ⟨written, pushed, also, split, starts, count⟩ :=
      attached_output scrollback broadcast history logging fault world started last before after ran
    refine ⟨written, also, ?_⟩
    rw [output_split history _ _ pushed split]
    have earlier : (stamp 0 (history ++ ptyOutput before)).drop history.length =
        stamp history.length (ptyOutput before) := by
      rw [stamp_append, List.drop_left' (stamp_length 0 history), Nat.zero_add]
    rw [earlier] at starts
    rcases inTime before after rfl with no_log | no_output | none_shown
    · have everything : (stamp history.length (ptyOutput before)).rtake scrollback =
          stamp history.length (ptyOutput before) := by
        have all := fits before after rfl
        rw [List.rtake, stamp_length, Nat.sub_eq_zero_of_le all, List.drop_zero]
      simpa [no_log, everything] using starts
    · rw [no_output] at starts ⊢
      simpa [stamp, List.rtake] using starts
    · rw [none_shown] at count
      rw [List.length_eq_zero_iff.mp count]
      exact List.nil_prefix

/-- The output of a new session is shown from its first byte exactly when the
Attach is in time. -/
theorem new_session_shown_iff (last : World) (events : List WorldEvent)
    (fits : ∀ before after, events = before ++ .attach :: after → (ptyOutput before).length ≤ scrollback)
    (ran : run World.step world events = some last) :
    ShownFromFirst history fault events last ↔ InTime history fault events := by
  constructor
  · intro shown
    exact in_time_of_shown scrollback broadcast history logging fault world started last events ran shown
  · intro inTime
    exact shown_of_in_time scrollback broadcast history logging fault world started last events fits ran
      inTime

end Run

/-- The small session again, behind one byte an earlier session has logged. -/
def reused : World :=
  { small with
    stream := stamp 0 [0x6f]
    writer := { file := atEnd (stamp 0 [0x6f]), thread := .waiting { maxSize := 2, currentSize := 1 }
                queue := [] }
    client := .replayed (stamp 0 [0x6f]) }

theorem start_reused : cmdNew 8 1 [0x6f] (some 2) none = some reused := by
  have power : Nat.nextPowerOfTwo 1 = 1 := by decide +kernel
  have one_slot : BroadcastChannel.channel 1 =
      some ({ slots := 1, sent := [] } : BroadcastChannel.Channel (List OutputByte)) := by
    simp [BroadcastChannel.channel, power]
  simp only [cmdNew, World.start, Hub.start, Fanout.new, one_slot]
  rfl

theorem output_before_fits (events : List WorldEvent) (scrollback : Nat)
    (fits : (ptyOutput events).length ≤ scrollback) (before after : List WorldEvent)
    (split : events = before ++ .attach :: after) : (ptyOutput before).length ≤ scrollback := by
  rw [split, ptyOutput_append, List.length_append] at fits
  exact Nat.le_trans (Nat.le_add_right _ _) fits

def promptOutput : List WorldEvent :=
  [.connect, .attach, .ptyRead [0x61], .handOff, .hub (.live 0), .hub (.write 0 1), .display 1]

theorem new_session_shown_prompt : ∃ world last, cmdNew 8 1 [0x6f] (some 2) none = some world ∧
    run World.step world promptOutput = some last ∧
      last.displayed.map OutputByte.octet = [0x6f, 0x61] ∧
      (ShownFromFirst [0x6f] none promptOutput last ↔ InTime [0x6f] none promptOutput) := by
  refine ⟨reused, _, start_reused, rfl, rfl, ?_⟩
  exact new_session_shown_iff 8 1 [0x6f] (some 2) none reused start_reused _ promptOutput
    (output_before_fits promptOutput 8 (by decide)) rfl

/-- The program is quick: its first byte is read from the pty before the Attach. -/
def quickOutput : List WorldEvent :=
  [.ptyRead [0x61], .handOff, .connect, .attach, .ptyRead [0x62], .handOff, .hub (.live 0),
    .hub (.write 0 1), .display 1]

theorem quick_output_lost : ∃ world last, cmdNew 8 1 [0x6f] (some 2) none = some world ∧
    run World.step world quickOutput = some last ∧
      (∀ before after, quickOutput = before ++ .attach :: after → (ptyOutput before).length ≤ 8) ∧
      last.displayed.map OutputByte.octet = [0x6f, 0x62] ∧
      ¬ ShownFromFirst [0x6f] none quickOutput last := by
  refine ⟨reused, _, start_reused, rfl, output_before_fits quickOutput 8 (by decide), rfl, ?_⟩
  rintro ⟨shown, displayed, rest, whole⟩
  have second : shown = [{ octet := 0x62, position := 2 }] :=
    List.append_cancel_left (displayed.symm.trans rfl)
  rw [second] at whole
  cases whole

end Hytch.NewSession
