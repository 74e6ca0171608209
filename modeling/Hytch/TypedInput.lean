import Hytch.AttachLoop
import Hytch.Requests

/-!
From the keyboard to the pty: the input that the attach loop takes, the frames it makes of
it, and what the daemon passes on, across the client, its connection, the task that serves
it and the loop.
-/

namespace Hytch.TypedInput

open IncrementalDecoding MessageCodec FrameStream HandleClient DaemonRun Connections PtyInput
  Requests AttachLoop Runs

/-- The input in front of the first special byte. -/
def typed (opts : AttachOptions) (input : List UInt8) : List UInt8 :=
  input.takeWhile fun byte => !special opts byte

/-- What the attach loop has sent for the input it has taken. -/
structure SentFor (opts : AttachOptions) (input : List UInt8) (attach : Attach)
    (messages : List Message) (consumed : List UInt8) : Prop where
  decoded : drain (decoder Connections.codec) attach.connWrite = ⟨messages, .ok []⟩
  pushes : (pushesOf messages).flatten = typed opts consumed
  input : input = consumed ++ attach.input

/-- Typed by one client, and passed to the pty for it. -/
def reachedPty (system : System) (id : Nat) : List UInt8 :=
  (projection id (passed system.daemon)).flatten

/-- The pty gets what was typed, in its order; all that the client has sent once it has been
heard and the loop has taken it; and nothing else if nobody else sends any. -/
structure Types (opts : AttachOptions) (input : List UInt8) (attach : Attach) (system : System)
    (id : Nat) : Prop where
  inOrder : (system.wire id).sent <+: attach.connWrite → reachedPty system id <+: typed opts input
  all : (system.wire id).sent = attach.connWrite → Heard system id →
    system.daemon.hub.serving = true → system.daemon.hub.pushQueue = [] →
    ∃ consumed, input = consumed ++ attach.input ∧ reachedPty system id = typed opts consumed
  alone : (∀ other, other ≠ id →
      pushesOf (drain (decoder Connections.codec) (system.wire other).sent).items = []) →
    (∀ write ∈ system.daemon.written, write.outcome = .completed) →
    beingWritten system.daemon.phase = [] → system.daemon.pty.input = reachedPty system id

theorem pushes_of_sent (opts : AttachOptions) (middle : List Message) (outcome : AttachOutcome) :
    pushesOf (handshake opts ++ middle ++ farewell outcome) = pushesOf middle := by
  have silent : pushesOf (farewell outcome) = [] := by cases outcome <;> rfl
  rw [pushesOf_append, pushesOf_append, silent, List.append_nil]
  rfl

section Client

variable (opts : AttachOptions) (input : List UInt8) (attach : Attach)

theorem typed_initial (consumed rest : List UInt8) :
    typed opts consumed <+: typed opts (consumed ++ rest) := by
  rw [typed, typed, List.takeWhile_append]
  split
  · rename_i whole
    have same := List.IsPrefix.eq_of_length (List.takeWhile_prefix _) whole
    rw [same]
    exact List.prefix_append _ _
  · exact List.prefix_refl _

theorem sent_for (connRead : List UInt8) (resizeEvents : List (UInt16 × UInt16))
    (reached : Reached opts (Attach.start input connRead resizeEvents) attach)
    (sound : ∀ fault, attach.phase ≠ .failed fault) :
    ∃ messages consumed, SentFor opts input attach messages consumed := by
  cases reached with
  | failed phase => exact absurd phase (sound _)
  | handshaking phase written taken forwards =>
    have sent (messages : List Message) (known : attach.connWrite = frames messages)
        (first : messages <+: [.attach opts.skipRing]) :
        ∃ messages consumed, SentFor opts input attach messages consumed := by
      have only : ∀ msg ∈ messages, msg = .attach opts.skipRing := fun msg member =>
        List.mem_singleton.mp (first.subset member)
      refine ⟨messages, [], ?_, ?_, taken⟩
      · rw [known]
        apply drain_frames default messages
        · intro msg member
          rw [only msg member]
          exact (show 1 ≤ defaultMaxFrameLen by decide)
        · intro msg member
          rw [only msg member]
          exact (show 1 < 2 ^ 32 by decide)
      · have nothing : pushesOf messages = [] := by
          apply List.filterMap_eq_nil_iff.mpr
          intro msg member
          rw [only msg member]
        rw [nothing]
        rfl
    rcases phase with phase | phase
    · exact sent [] (by simpa [phase] using written) List.nil_prefix
    · exact sent [.attach opts.skipRing] (by simpa [phase] using written) (List.prefix_refl _)
  | @selecting middle selecting =>
    obtain ⟨_, written, forwards, taken, plain⟩ := selecting
    have silent : farewell .inputClosed = [] := rfl
    have decoded := frames_decode opts middle .inputClosed forwards.kinds
    rw [silent, List.append_nil, ← written] at decoded
    exact ⟨_, _, decoded, (plain_take_while opts _ plain).2.symm, taken⟩
  | @returned middle consumed outcome phase written forwards taken pushes ends =>
    have decoded := frames_decode opts middle outcome forwards.kinds
    rw [← written] at decoded
    refine ⟨_, consumed, decoded, ?_, taken⟩
    rw [pushes_of_sent]
    exact pushes

end Client

section Daemon

variable (system : System) (id : Nat)

theorem reached_initial (served : Served system) :
    reachedPty system id <+:
      (pushesOf (drain (decoder Connections.codec) (system.wire id).sent).items).flatten :=
  Attachments.flatten_initial ((served_merged system served).inOrder id)

theorem reached_all (served : Served system) (carried : Carried system) (heard : Heard system id)
    (serving : system.daemon.hub.serving = true) (taken : system.daemon.hub.pushQueue = []) :
    reachedPty system id =
      (pushesOf (drain (decoder Connections.codec) (system.wire id).sent).items).flatten := by
  have everything : passed system.daemon = pushesPut system.daemon.enqueued := by
    cases served.channels with
    | dropped off => rw [serving] at off; cases off
    | serving on control push =>
      rw [taken, List.append_nil] at push
      rw [passed, ← push, payloadsPut_eq, List.length_map, List.take_length]
  rw [reachedPty, everything, ← payloadsBy_eq, ← payloads_requestsBy, carried.heard id heard, asked,
    payloads_requests]

/-- The pty has all the payloads, one behind the other, if every write has been completed. -/
theorem pty_input_whole (served : Served system) (written : Written system.daemon)
    (completed : ∀ write ∈ system.daemon.written, write.outcome = .completed)
    (idle : beingWritten system.daemon.phase = []) :
    system.daemon.pty.input = ((passed system.daemon).map Prod.snd).flatten := by
  have quiet : delivering system.daemon.phase = [] := by
    cases phase : system.daemon.phase with
    | writing payload rest => rw [phase] at idle; cases idle
    | _ => rfl
  have whole : system.daemon.written.map PtyWrite.delivered =
      system.daemon.written.map PtyWrite.payload := by
    apply List.map_congr_left
    intro write member
    exact written.completed write member (completed write member)
  rw [(served_merged system served).whole, written.payloads, written.input, quiet, whole, idle,
    List.append_nil, List.append_nil]

theorem passed_alone (served : Served system)
    (alone : ∀ other, other ≠ id →
      pushesOf (drain (decoder Connections.codec) (system.wire other).sent).items = []) :
    (passed system.daemon).map Prod.snd = projection id (passed system.daemon) := by
  have mine : ∀ entry ∈ passed system.daemon, decide (entry.1 = id) = true := by
    intro entry member
    apply decide_eq_true
    by_contra other
    have theirs : entry.2 ∈ projection entry.1 (passed system.daemon) :=
      List.mem_map_of_mem (List.mem_filter.mpr ⟨member, decide_eq_true rfl⟩)
    have sent := ((served_merged system served).inOrder entry.1).subset theirs
    rw [alone entry.1 other] at sent
    cases sent
  rw [projection, List.filter_eq_self.mpr mine]

end Daemon

/-- Every interleaving on both sides of the connection. What the daemon has been sent may
lag behind what the client has written. -/
theorem keystrokes_reach_pty (opts : AttachOptions) (input connRead : List UInt8)
    (resizeEvents : List (UInt16 × UInt16)) (attach : Attach) (clientEvents : List AttachEvent)
    (scrollback : Nat) (content : List UInt8) (logging : Option Nat) (daemon : Daemon)
    (system : System) (events : List SystemEvent) (id : Nat)
    (typing : run (Attach.step opts) (Attach.start input connRead resizeEvents) clientEvents =
      some attach)
    (sound : ∀ fault, attach.phase ≠ .failed fault)
    (started : Daemon.start scrollback content logging = some daemon)
    (ran : run System.step (System.start daemon) events = some system) :
    Types opts input attach system id := by
  have served := served_run scrollback content logging daemon system events started ran
  have carried := carried_of_served system served
  obtain ⟨messages, consumed, decoded, pushes, taken⟩ :=
    sent_for opts input attach connRead resizeEvents
      (reached_run opts input connRead resizeEvents attach clientEvents typing) sound
  constructor
  · rintro ⟨later, sent⟩
    have initial := drain_initial (decoder Connections.codec) (system.wire id).sent later
    rw [sent, decoded] at initial
    have among : reachedPty system id <+: (pushesOf messages).flatten :=
      (reached_initial system id served).trans (Attachments.flatten_initial (initial.filterMap _))
    rw [pushes] at among
    rw [taken]
    exact among.trans (typed_initial opts consumed attach.input)
  · intro sent heard serving empty
    refine ⟨consumed, taken, ?_⟩
    rw [reached_all system id served carried heard serving empty, sent, decoded]
    exact pushes
  · intro alone completed idle
    have written := run_invariant System.step (fun state => Written state.daemon)
      (fun state event next holds step => lifted_step Written
        (fun daemon event next written taken => written_step daemon next event written taken)
        state next event holds step)
      _ system events (written_start scrollback content logging daemon started) ran
    rw [pty_input_whole system served written completed idle, passed_alone system id served alone]
    rfl

/-- Two keys and the detach character, read at once. -/
def typesAndDetaches : List AttachEvent := [.handshake, .handshake, .input 3]

def keysTaken : List SystemEvent :=
  [.daemon (.connects 0), .daemon (.select 0),
    .peerWrites 0 [1, 0, 0, 0, 1, 1, 4, 0, 0, 0, 5, 3, 0, 24, 0, 80, 0, 0, 0, 0, 2, 0x61, 0x62],
    .fill 0 23, .next 0, .next 0, .daemon (.task (.enqueue 0)),
    .next 0, .daemon (.task (.enqueue 0)), .daemon (.select 0), .daemon (.select 0),
    .daemon (.ptyWrite 2), .daemon (.writeEnds .completed)]

set_option maxRecDepth 2000 in
theorem keystrokes_reach_pty_two : ∃ attach system,
    run (Attach.step usual) (Attach.start [0x61, 0x62, 0x1c] [] []) typesAndDetaches = some attach ∧
      run System.step (System.start idle) keysTaken = some system ∧
      (system.wire 0).sent = attach.connWrite ∧ attach.phase = .returned .detached ∧
      system.daemon.pty.input = [0x61, 0x62] ∧
      Types usual [0x61, 0x62, 0x1c] attach system 0 := by
  refine ⟨_, _, rfl, rfl, rfl, rfl, rfl, ?_⟩
  exact keystrokes_reach_pty usual [0x61, 0x62, 0x1c] [] [] _ typesAndDetaches 8 [] none idle _
    keysTaken 0 rfl nofun start_idle rfl

end Hytch.TypedInput
