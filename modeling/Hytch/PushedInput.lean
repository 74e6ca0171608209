import Hytch.FrameStream
import Hytch.PtyInput
import Hytch.PlainConnection
import Hytch.EndlessRuns

/-!
Input on its way to the pty: from stdin of `hytch push` into frames, from a
connection that never attaches into the shared channel, from there to the pty.
That a push gets there at all depends on the loop coming round to its pushes:
they are the last of the branches a biased select tries before the signals.
-/

namespace Hytch.PushedInput

open IncrementalDecoding MessageCodec FrameStream HandleClient Attachments DaemonRun Connections
  PlainConnection PtyInput Runs EndlessRuns

/-! `commands.rs`, `push`. -/

def pushChunkSize : Nat := 32 * 1024

/-- What is written to the connection until stdin is at its end, when its reads
return these sizes. -/
def push : List UInt8 → List Nat → Option (List UInt8)
  | [], [] => some []
  | _ :: _, [] => none
  | stdin, n :: reads =>
      if 0 < n ∧ n ≤ min pushChunkSize stdin.length then
        (push (stdin.drop n) reads).map fun rest => frame codec (.push (stdin.take n)) ++ rest
      else none

theorem push_frames (stdin : List UInt8) (reads : List Nat) (written : List UInt8)
    (pushed : push stdin reads = some written) :
    ∃ chunks : List (List UInt8), chunks.flatten = stdin ∧
      (∀ chunk ∈ chunks, chunk.length ≤ pushChunkSize) ∧
      written = ((chunks.map Message.push).map (frame codec)).flatten := by
  induction reads generalizing stdin written with
  | nil =>
    cases stdin with
    | nil =>
      cases pushed
      exact ⟨[], rfl, by simp, rfl⟩
    | cons byte stdin => cases pushed
  | cons n reads ih =>
    simp only [push] at pushed
    split at pushed
    · rename_i bound
      obtain ⟨rest, later, rfl⟩ := Option.map_eq_some_iff.mp pushed
      obtain ⟨chunks, whole, small, rfl⟩ := ih (stdin.drop n) rest later
      refine ⟨stdin.take n :: chunks, ?_, ?_, rfl⟩
      · rw [List.flatten_cons, whole, List.take_append_drop]
      · intro chunk member
        rcases List.mem_cons.mp member with rfl | member
        · rw [List.length_take]
          omega
        · exact small chunk member
    · cases pushed

/-- Whatever sizes the reads have, the daemon decodes pushes that make up stdin. -/
theorem pushed_stdin (stdin : List UInt8) (reads : List Nat) (written : List UInt8)
    (pushed : push stdin reads = some written) :
    ∃ chunks : List (List UInt8), chunks.flatten = stdin ∧
      drain (decoder codec) written = ⟨chunks.map Message.push, .ok []⟩ := by
  obtain ⟨chunks, whole, small, rfl⟩ := push_frames stdin reads written pushed
  refine ⟨chunks, whole, drain_frames codec _ ?_ ?_⟩ <;>
  · intro msg member
    obtain ⟨chunk, inside, rfl⟩ := List.mem_map.mp member
    have bound := small chunk inside
    simp only [payloadLength, pushChunkSize] at bound ⊢
    first
      | omega
      | exact Nat.le_trans bound (by decide)

/-! The loop comes round to its pushes. -/

/-- The loop is at its select, and has nothing to do or takes a push. -/
def ReachesPushes (system : System) (event : SystemEvent) : Prop :=
  system.daemon.phase = .selecting ∧ (system.daemon.pick = none ∨
    (system.daemon.pick = some .push ∧ ∃ count, event = .daemon (.select count)))

/-- Commands and connections are preferred to a push. -/
theorem push_is_last (daemon : Daemon) (picked : daemon.pick = none ∨ daemon.pick = some .push) :
    daemon.hub.controlQueue = [] ∧ daemon.backlog = [] := by
  constructor
  · by_contra waiting
    rw [pick_control daemon waiting] at picked
    simp at picked
  · by_contra waiting
    have ready : daemon.ready .accept = true := by simpa [Daemon.ready] using waiting
    have earlier : daemon.pick = some .control ∨ daemon.pick = some .read ∨
        daemon.pick = some .accept := by
      unfold Daemon.pick
      cases control : daemon.ready .control with
      | true => exact .inl (by simp [control])
      | false =>
        cases read : daemon.ready .read with
        | true => exact .inr (.inl (by simp [control, read]))
        | false => exact .inr (.inr (by simp [control, read, ready]))
    rcases earlier with same | same | same <;> simp [same] at picked

theorem idle_without_pushes (daemon : Daemon) (picked : daemon.pick = none) :
    daemon.hub.pushQueue = [] := by
  have nothing := List.find?_eq_none.mp picked .push (by simp)
  simpa [Daemon.ready] using nothing

theorem takes_push (system next : System) (count : Nat) (picked : system.daemon.pick = some .push)
    (taken : system.step (.daemon (.select count)) = some next) :
    ∃ data, system.daemon.hub.pushQueue = data :: next.daemon.hub.pushQueue ∧
      next.daemon.phase = .writing data data ∧
      next.daemon.hub.controlQueue = system.daemon.hub.controlQueue ∧
      next.daemon.taken = system.daemon.taken ++ [.push data] := by
  simp only [System.step, System.allows, if_true, Daemon.step] at taken
  split at taken
  · simp only [Daemon.select, picked, Daemon.onPush] at taken
    split at taken
    · cases taken
    · rename_i data rest queue
      simp only [Option.map_map, Option.map_eq_some_iff, Function.comp_apply] at taken
      obtain ⟨hub, moved, rfl⟩ := taken
      obtain ⟨_, control, push⟩ := take_push_queues _ _ data rest queue moved
      exact ⟨data, push, rfl, control.symm, rfl⟩
  · cases taken

theorem sent_grows (id : Nat) (system next : System) (event : SystemEvent)
    (taken : system.step event = some next) : (system.wire id).sent <+: (next.wire id).sent := by
  have added (owner : Nat) (wire : Wire) (more : (system.wire owner).sent <+: wire.sent) :
      (system.wire id).sent <+: ((system.setWire owner wire).wire id).sent := by
    by_cases mine : id = owner
    · subst mine
      rwa [System.setWire_same]
    · simp only [System.setWire_other system owner id wire mine, List.prefix_refl]
  cases system_step_cases system next event taken with
  | peerWrites connected opened => exact added _ _ (List.prefix_append _ _)
  | peerCloses => exact added _ _ (List.prefix_refl _)
  | fill reading pending bound => exact added _ _ (List.prefix_refl _)
  | @frame reader msg rest daemon found moved =>
    exact added reader { system.wire reader with buffer := rest } (List.prefix_refl _)
  | ends last left moved => exact List.prefix_refl _
  | daemon allowed moved => exact List.prefix_refl _

theorem sent_over_time (endless : Endless System.step) (id early late : Nat) (order : early ≤ late) :
    ((endless.state early).wire id).sent <+: ((endless.state late).wire id).sent :=
  endless.kept (fun state => ((endless.state early).wire id).sent <+: (state.wire id).sent)
    (fun state event next initial taken => initial.trans (sent_grows id state next event taken))
    early late order (List.prefix_refl _)

theorem put_over_time (endless : Endless System.step) (early late : Nat) (order : early ≤ late) :
    (endless.state early).daemon.enqueued <+: (endless.state late).daemon.enqueued := by
  refine endless.kept (fun state => (endless.state early).daemon.enqueued <+: state.daemon.enqueued)
    ?_ early late order (List.prefix_refl _)
  intro state event next initial taken
  rcases system_moves state next event taken with same | ⟨moved, stepped⟩
  · rwa [same]
  · exact initial.trans (records_grow _ _ moved stepped).1

theorem known_stays (id : Nat) (system next : System) (event : SystemEvent)
    (known : system.daemon.hub.clients id ≠ none) (taken : system.step event = some next) :
    next.daemon.hub.clients id ≠ none := by
  rcases system_moves system next event taken with same | ⟨moved, stepped⟩
  · rwa [same]
  · intro unknown
    exact known (backlog_move system.daemon next.daemon moved id stepped unknown).1

/-- An endless run of the daemon, from its start. -/
structure Serving (daemon : Daemon) (endless : Endless System.step) (id : Nat) : Prop where
  begins : endless.state 0 = System.start daemon
  noAttach : ∀ time, NoAttach id (endless.state time)
  fair : Fair endless (ofConnection id)
  comesRound : Recurs fun time => ReachesPushes (endless.state time) (endless.event time)

theorem pushing_start (scrollback : Nat) (content : List UInt8) (logging : Option Nat)
    (daemon : Daemon) (id : Nat) (started : Daemon.start scrollback content logging = some daemon) :
    Pushing id (System.start daemon) := by
  have served := served_start scrollback content logging daemon started
  obtain ⟨hub, writer, created, _, rfl⟩ := start_cases scrollback content logging daemon started
  obtain ⟨fanout, _, rfl⟩ := hub_start_cases _ _ _ created
  refine ⟨served, ?_, ?_, fun _ => .inl rfl⟩
  · rintro client ⟨⟩
  · rintro ⟨client, ⟨⟩, _⟩

section Eventually

variable (scrollback : Nat) (content : List UInt8) (logging : Option Nat) (daemon : Daemon)
variable (endless : Endless System.step) (id : Nat)
variable (started : Daemon.start scrollback content logging = some daemon)
variable (serving : Serving daemon endless id)
include started serving

theorem pushing_always (time : Nat) : Pushing id (endless.state time) := by
  induction time with
  | zero =>
    rw [serving.begins]
    exact pushing_start scrollback content logging daemon id started
  | succ time ih =>
    exact pushing_step id _ _ _ ih (serving.noAttach time) (endless.follows time)

theorem eventually_accepted (time : Nat) (some_sent : ((endless.state time).wire id).sent ≠ []) :
    ∃ later, time ≤ later ∧ (endless.state later).daemon.hub.clients id ≠ none := by
  obtain ⟨later, after, _, picked⟩ := serving.comesRound time
  have picked : (endless.state later).daemon.pick = none ∨
      (endless.state later).daemon.pick = some .push := picked.imp_right And.left
  refine ⟨later, after, ?_⟩
  intro unknown
  have grown := sent_over_time endless id time later after
  have pushing := pushing_always scrollback content logging daemon endless id started serving later
  rcases pushing.waits unknown with nothing | waiting
  · rw [nothing] at grown
    exact some_sent (List.prefix_nil.mp grown)
  · rw [(push_is_last _ picked).2] at waiting
    cases waiting

/-- As long as something is missing the task can go on again and again. -/
theorem enabled_again (sent : List UInt8) (begin moment : Nat) (order : begin ≤ moment)
    (known : ∀ later, begin ≤ later →
      ∃ client, (endless.state later).daemon.hub.clients id = some client)
    (initial : ∀ later, begin ≤ later → sent <+: ((endless.state later).wire id).sent)
    (short : ∀ later, begin ≤ later → ¬ Arrived id sent (endless.state later)) :
    ∃ later, moment ≤ later ∧ ∃ event next, ofConnection id event ∧
      System.step (endless.state later) event = some next := by
  have pushing := pushing_always scrollback content logging daemon endless id started serving
  have enabled (later : Nat) (order : begin ≤ later) :=
    fun client here => can_advance id sent (endless.state later) client (pushing later)
      (serving.noAttach later) here (initial later order) (short later order)
  obtain ⟨later, after, selecting, picked⟩ := serving.comesRound moment
  have here : begin ≤ later := Nat.le_trans order after
  rcases picked with idle | ⟨push, count, same⟩
  · obtain ⟨client, connected⟩ := known later here
    refine ⟨later, after, enabled later here client connected ?_ ?_ ?_⟩
    · rw [selecting]
      rfl
    · rw [idle_without_pushes _ idle]
      decide
    · rw [(push_is_last _ (.inl idle)).1]
      decide
  · have next : begin ≤ later + 1 := Nat.le_succ_of_le here
    obtain ⟨client, connected⟩ := known (later + 1) next
    have follows := endless.follows later
    rw [same] at follows
    obtain ⟨data, queue, writing, control, _⟩ := takes_push _ _ count push follows
    refine ⟨later + 1, Nat.le_succ_of_le after, enabled (later + 1) next client connected ?_ ?_ ?_⟩
    · rw [writing]
      rfl
    · have room := (pushing later).served.fits.1
      rw [queue, List.length_cons] at room
      omega
    · rw [control, (push_is_last _ (.inr push)).1]
      decide

theorem eventually_put (time : Nat) :
    ∃ later, time ≤ later ∧
      Arrived id ((endless.state time).wire id).sent (endless.state later) := by
  generalize sent_then : ((endless.state time).wire id).sent = sent
  by_cases nothing : sent = []
  · refine ⟨time, Nat.le_refl _, ?_⟩
    rw [nothing, Arrived, drain_pending (decoder codec) [] [] (decode_nil codec)]
    exact List.nil_prefix
  · obtain ⟨begin, after, accepted⟩ := eventually_accepted scrollback content logging daemon endless id
      started serving time (by rw [sent_then]; exact nothing)
    have pushing := pushing_always scrollback content logging daemon endless id started serving
    have known (later : Nat) (order : begin ≤ later) :
        ∃ client, (endless.state later).daemon.hub.clients id = some client :=
      Option.ne_none_iff_exists'.mp (endless.kept (fun state => state.daemon.hub.clients id ≠ none)
        (fun state event next here taken => known_stays id state next event here taken)
        begin later order accepted)
    have initial (later : Nat) (order : begin ≤ later) :
        sent <+: ((endless.state later).wire id).sent := by
      rw [← sent_then]
      exact sent_over_time endless id time later (Nat.le_trans after order)
    have brings_on (later : Nat) (order : begin ≤ later)
        (short : ¬ Arrived id sent (endless.state later)) (own : ofConnection id (endless.event later)) :
        advanceOf id sent.length (endless.state later) <
          advanceOf id sent.length (endless.state (later + 1)) := by
      obtain ⟨client, here⟩ := known later order
      exact own_advance id sent _ _ _ client (pushing later) (serving.noAttach later) here
        (initial later order) short own (endless.follows later)
    obtain ⟨later, order, arrived⟩ := reaches_goal
      (fun later => Arrived id sent (endless.state later))
      (fun later => advanceOf id sent.length (endless.state later)) (3 * sent.length + 1) begin
      (fun later _ _ => advance_bound id sent.length (endless.state later)) (by
        intro later order short _
        by_cases own : ofConnection id (endless.event later)
        · exact Nat.le_of_lt (brings_on later order short own)
        · obtain ⟨client, here⟩ := known later order
          exact Nat.le_of_eq (foreign_advance id sent.length _ _ _ client here own
            (endless.follows later)).symm) (by
        intro short
        have again := serving.fair (recurs_from _ begin fun moment order =>
          enabled_again scrollback content logging daemon endless id started serving sent begin moment
            order known initial short)
        refine recurs_from _ begin fun moment order => ?_
        obtain ⟨later, after, own⟩ := again moment
        have here := Nat.le_trans order after
        exact ⟨later, after, brings_on later here (short later here) own⟩)
    exact ⟨later, Nat.le_trans after order, arrived⟩

theorem eventually_taken (time : Nat) :
    ∃ later, time ≤ later ∧ (payloadsPut (endless.state time).daemon.enqueued).length ≤
      (payloadsTaken (endless.state later).daemon.taken).length := by
  generalize put_then : (payloadsPut (endless.state time).daemon.enqueued).length = count
  have pushing := pushing_always scrollback content logging daemon endless id started serving
  have put (later : Nat) (order : time ≤ later) :
      count ≤ (payloadsPut (endless.state later).daemon.enqueued).length := by
    rw [← put_then]
    exact (payloads_put_grow _ _ (put_over_time endless time later order)).length_le
  refine reaches_goal
    (fun later => count ≤ (payloadsTaken (endless.state later).daemon.taken).length)
    (fun later => (payloadsTaken (endless.state later).daemon.taken).length) count time ?_ ?_ ?_
  · intro later _ short
    exact Nat.le_of_not_le short
  · intro later _ _ _
    rcases system_moves _ _ _ (endless.follows later) with same | ⟨moved, stepped⟩
    · rw [same]
    · exact (payloads_taken_grow _ _ (records_grow _ _ moved stepped).2).length_le
  · intro short
    refine recurs_from _ time fun moment order => ?_
    obtain ⟨later, after, selecting, picked⟩ := serving.comesRound moment
    have here := Nat.le_trans order after
    refine ⟨later, after, ?_⟩
    rcases picked with idle | ⟨push, size, same⟩
    · -- the channel is empty: everything put into it has been taken out
      have empty := idle_without_pushes _ idle
      have on := awaits_serving (endless.state later).daemon (pushing later).served.isOpen (by
        rw [selecting]
        rfl)
      cases (pushing later).served.channels with
      | serving _ control push =>
        rw [empty, List.append_nil] at push
        exact absurd (push ▸ put later here) (short later here)
      | dropped off noControl noPush control push =>
        rw [on] at off
        cases off
    · have follows := endless.follows later
      rw [same] at follows
      obtain ⟨data, _, _, _, taken⟩ := takes_push _ _ size push follows
      rw [taken, payloadsTaken_append, List.length_append]
      exact Nat.lt_succ_self _

/-- Every push a connection that never attaches has sent is passed to the pty. -/
theorem eventually_passed (time : Nat) :
    ∃ later, time ≤ later ∧
      pushesOf (drain (decoder codec) ((endless.state time).wire id).sent).items <+:
        projection id (passed (endless.state later).daemon) := by
  obtain ⟨middle, first, arrived⟩ :=
    eventually_put scrollback content logging daemon endless id started serving time
  obtain ⟨later, second, taken⟩ :=
    eventually_taken scrollback content logging daemon endless id started serving middle
  refine ⟨later, Nat.le_trans first second, arrived.trans ?_⟩
  rw [payloadsBy_eq]
  refine projection_initial id _ _ ?_
  rw [payloadsPut_eq, List.length_map] at taken
  have initial := pushes_put_grow _ _ (put_over_time endless middle later second)
  rw [List.prefix_iff_eq_take.mp initial, passed]
  exact List.take_prefix_take_left taken

/-- A connection that sends what `hytch push` writes gets all of stdin there. -/
theorem stdin_passed (stdin written : List UInt8) (reads : List Nat)
    (pushed : push stdin reads = some written)
    (within : ∀ time, ((endless.state time).wire id).sent <+: written)
    (whole : ∃ time, ((endless.state time).wire id).sent = written) :
    ∃ later, (projection id (passed (endless.state later).daemon)).flatten = stdin := by
  obtain ⟨chunks, joined, decoded⟩ := pushed_stdin stdin reads written pushed
  obtain ⟨time, all⟩ := whole
  obtain ⟨later, _, there⟩ :=
    eventually_passed scrollback content logging daemon endless id started serving time
  have merged := served_merged _
    (pushing_always scrollback content logging daemon endless id started serving later).served
  obtain ⟨more, rest⟩ := within later
  have no_more : pushesOf (drain (decoder codec) ((endless.state later).wire id).sent).items <+:
      chunks := by
    have initial := pushes_grow _ _
      (drain_initial (decoder codec) ((endless.state later).wire id).sent more)
    rw [rest, decoded] at initial
    rwa [← pushesOf_pushes chunks]
  rw [all, decoded, pushesOf_pushes] at there
  have back := (merged.inOrder id).trans no_more
  refine ⟨later, ?_⟩
  rw [back.eq_of_length_le there.length_le, joined]

end Eventually

/-- What reaches the pty is a merge of what was sent, each write an initial part
of its payload. All the pushes of a connection that never attaches get there as
long as the loop comes round to them, and those of `hytch push` make up stdin. -/
theorem pushed_input_reaches_pty :
    (∀ scrollback content logging daemon last events,
      Daemon.start scrollback content logging = some daemon →
      run System.step (System.start daemon) events = some last →
        Merged last ∧ Written last.daemon) ∧
    (∀ scrollback content logging daemon endless id,
      Daemon.start scrollback content logging = some daemon → Serving daemon endless id →
        ∀ time, ∃ later, time ≤ later ∧
          pushesOf (drain (decoder codec) ((endless.state time).wire id).sent).items <+:
            projection id (passed (endless.state later).daemon)) ∧
    ∀ stdin reads written, push stdin reads = some written →
      (∃ chunks : List (List UInt8), chunks.flatten = stdin ∧
        drain (decoder codec) written = ⟨chunks.map Message.push, .ok []⟩) ∧
      ∀ scrollback content logging daemon endless id,
        Daemon.start scrollback content logging = some daemon → Serving daemon endless id →
        (∀ time, ((endless.state time).wire id).sent <+: written) →
        (∃ time, ((endless.state time).wire id).sent = written) →
          ∃ later, (projection id (passed (endless.state later).daemon)).flatten = stdin := by
  refine ⟨?_, ?_, ?_⟩
  · intro scrollback content logging daemon last events started ran
    constructor
    · exact served_merged last (served_run scrollback content logging daemon last events started ran)
    · exact run_invariant System.step (fun state => Written state.daemon)
        (fun state event next written taken => lifted_step Written
          (fun daemon event next written taken => written_step daemon next event written taken)
          state next event written taken)
        _ last events (written_start scrollback content logging daemon started) ran
  · intro scrollback content logging daemon endless id started serving
    exact eventually_passed scrollback content logging daemon endless id started serving
  · intro stdin reads written pushed
    refine ⟨pushed_stdin stdin reads written pushed, ?_⟩
    intro scrollback content logging daemon endless id started serving within whole
    exact stdin_passed scrollback content logging daemon endless id started serving stdin written reads
      pushed within whole

/-- `hytch push` sends one byte, which is put into the channel. -/
def oneByte : List SystemEvent :=
  [.daemon (.connects 0), .daemon (.select 0), .peerWrites 0 [0, 0, 0, 0, 1, 0x68], .fill 0 6, .next 0,
    .daemon (.task (.enqueue 0))]

def oneByteSent : Wire :=
  { sent := [0, 0, 0, 0, 1, 0x68], unread := [], buffer := [], closed := false }

theorem task_rests (state next : System) (event : SystemEvent)
    (client : state.daemon.hub.clients 0 = some Client.connected) (wire : state.wire 0 = oneByteSent)
    (own : ofConnection 0 event) (taken : System.step state event = some next) : False := by
  have plain (other : Client UInt8) (known : state.daemon.hub.clients 0 = some other) :
      Plain other := by
    rw [client] at known
    cases known
    exact ⟨rfl, .inl rfl⟩
  have nothing : (state.wire 0).resolve = none := by
    rw [wire]
    rfl
  cases event with
  | peerWrites id bytes => exact own
  | peerCloses id => exact own
  | fill reader count =>
    have mine : reader = 0 := own
    subst mine
    simp only [System.step, wire, oneByteSent, List.length_nil] at taken
    split at taken
    · omega
    · cases taken
  | next reader =>
    have mine : reader = 0 := own
    subst mine
    rw [System.step, nothing] at taken
    cases taken
  | daemon event =>
    cases event with
    | task task =>
      cases system_step_cases state next _ taken with
      | @daemon _ daemon allowed moved =>
        obtain ⟨_, stepped⟩ := task_moves state.daemon daemon task moved
        have reads (input : Input) : task ≠ .input 0 input := by
          rintro rfl
          cases allowed
        have enqueues := plain_enqueues _ _ task 0 plain own reads stepped
        subst enqueues
        simp [Hub.step, Hub.onEnqueue, client, Client.connected] at stepped
    | _ => exact own

theorem one_byte_no_attach (endless : Endless System.step) (time late : Nat) (order : time ≤ late)
    (wire : (endless.state late).wire 0 = oneByteSent) : NoAttach 0 (endless.state time) := by
  intro skipRing member
  have grown := sent_over_time endless 0 time late order
  rw [wire] at grown
  obtain ⟨more, all⟩ := grown
  have later := (drain_initial (decoder codec) _ more).subset member
  rw [all] at later
  have one : (drain (decoder codec) oneByteSent.sent).items = [.push [0x68]] := rfl
  rw [one] at later
  simp at later

/-- The byte is written to the pty. -/
def oneByteWritten : List SystemEvent :=
  oneByte ++ [.daemon (.select 0), .daemon (.ptyWrite 1), .daemon (.writeEnds .completed)]

set_option maxRecDepth 2000 in
theorem serving_one_byte : ∃ endless : Endless System.step, Serving idle endless 0 ∧
    (∀ time, ((endless.state time).wire 0).sent <+: oneByteSent.sent) ∧
    ((endless.state 9).wire 0).sent = oneByteSent.sent := by
  obtain ⟨last, ran, client, wire, selecting, idles, still⟩ :
      ∃ last, run System.step (System.start idle) oneByteWritten = some last ∧
        last.daemon.hub.clients 0 = some Client.connected ∧ last.wire 0 = oneByteSent ∧
        last.daemon.phase = .selecting ∧ last.daemon.pick = none ∧
        last.step (.daemon (.slave true)) = some last :=
    ⟨_, rfl, rfl, rfl, rfl, rfl, rfl⟩
  obtain ⟨whole, early, late⟩ := Endless.exists_after oneByteWritten (System.start idle) last
    (Endless.still last _ still) rfl ran
  have rests (later : Nat) (order : 9 ≤ later) : whole.state later = last := by
    have same := (late (later - 9)).1
    have index : oneByteWritten.length + (later - 9) = later := by
      simp only [oneByteWritten, oneByte, List.length_append, List.length_cons, List.length_nil]
      omega
    rw [index] at same
    exact same
  refine ⟨whole, ⟨(Option.some.inj (early 0 (Nat.zero_le _))).symm, ?_, ?_, ?_⟩, ?_, ?_⟩
  · intro time
    exact one_byte_no_attach whole time (time + 9) (by omega) (by rw [rests _ (by omega), wire])
  · intro again
    obtain ⟨later, order, event, next, own, taken⟩ := again 9
    rw [rests later order] at taken
    exact (task_rests last next event client wire own taken).elim
  · intro time
    have same := rests (time + 9) (by omega)
    exact ⟨time + 9, by omega, by rw [same, selecting], .inl (by rw [same, idles])⟩
  · intro time
    have grown := sent_over_time whole 0 time (time + 9) (by omega)
    rwa [rests (time + 9) (by omega), wire] at grown
  · rw [rests 9 (Nat.le_refl _), wire]

set_option maxRecDepth 2000 in
theorem pushed_input_one_byte : ∃ last endless, Daemon.start 8 [] none = some idle ∧
    run System.step (System.start idle) oneByteWritten = some last ∧
      last.daemon.pty.input = [0x68] ∧ (Merged last ∧ Written last.daemon) ∧
      Serving idle endless 0 ∧
      (∃ later, 9 ≤ later ∧
        pushesOf (drain (decoder codec) ((endless.state 9).wire 0).sent).items <+:
          projection 0 (passed (endless.state later).daemon)) ∧
      push [0x68] [1] = some oneByteSent.sent ∧
      (∃ chunks : List (List UInt8), chunks.flatten = [0x68] ∧
        drain (decoder codec) oneByteSent.sent = ⟨chunks.map Message.push, .ok []⟩) ∧
      ∃ later, (projection 0 (passed (endless.state later).daemon)).flatten = [0x68] := by
  obtain ⟨endless, serving, within, whole⟩ := serving_one_byte
  obtain ⟨safe, live, stdin⟩ := pushed_input_reaches_pty
  obtain ⟨chunks, passes⟩ := stdin [0x68] [1] oneByteSent.sent rfl
  refine ⟨_, endless, start_idle, rfl, rfl, ?_, serving, ?_, rfl, chunks, ?_⟩
  · exact safe 8 [] none idle _ oneByteWritten start_idle rfl
  · exact live 8 [] none idle endless 0 start_idle serving 9
  · exact passes 8 [] none idle endless 0 start_idle serving within ⟨9, whole⟩

/-! A child that never stops writing. -/

/-- The loop reads what the child writes, which writes again. -/
def flood (time : Nat) : SystemEvent :=
  match time % 3 with
  | 0 => .daemon (.childWrites [0x61])
  | 1 => .daemon (.select 1)
  | _ => .daemon .handOff

structure Flooded (time : Nat) (state : System) : Prop where
  queue : state.daemon.hub.pushQueue = [[0x68]]
  quiet : state.daemon.hub.controlQueue = []
  none_taken : payloadsTaken state.daemon.taken = []
  client : state.daemon.hub.clients 0 = some Client.connected
  wire : state.wire 0 = oneByteSent
  ring : ∃ output, state.daemon.hub.fanout.Represents 8 output
  slaveOpen : state.daemon.pty.slaveOpen = true
  phase : state.daemon.phase = if time % 3 = 2 then .handingOff [0x61] else .selecting
  output : state.daemon.pty.output = if time % 3 = 1 then [0x61] else []

theorem flood_goes_on (time : Nat) (state : System) (flooded : Flooded time state) :
    ∃ next, System.step state (flood time) = some next ∧ Flooded (time + 1) next := by
  obtain ⟨queue, quiet, none_taken, client, wire, ⟨output, ring⟩, slaveOpen, phase, waiting⟩ := flooded
  have turns : time % 3 = 0 ∨ time % 3 = 1 ∨ time % 3 = 2 := by omega
  rcases turns with turn | turn | turn
  · have later : (time + 1) % 3 = 1 := by omega
    have event : flood time = .daemon (.childWrites [0x61]) := by simp [flood, turn]
    have moved : state.daemon.step (.childWrites [0x61]) = some { state.daemon with
        pty := { state.daemon.pty with output := state.daemon.pty.output ++ [0x61] } } := by
      simp [Daemon.step, slaveOpen]
    have stepped := System.step_daemon state _ _ rfl moved
    rw [← event] at stepped
    refine ⟨_, stepped, ?_⟩
    exact ⟨queue, quiet, none_taken, client, wire, ⟨output, ring⟩, slaveOpen,
      by simp [later, phase, turn], by simp [later, waiting, turn]⟩
  · have later : (time + 1) % 3 = 2 := by omega
    have event : flood time = .daemon (.select 1) := by simp [flood, turn]
    obtain ⟨fanout, pushed, _, further⟩ :=
      Fanout.push_represents state.daemon.hub.fanout 8 output [0x61] ring
    have picked : state.daemon.pick = some .read := by
      simp [Daemon.pick, Daemon.ready, quiet, waiting, turn]
    have selecting : state.daemon.phase = .selecting := by simp [phase, turn]
    have byte : state.daemon.pty.output = [0x61] := by simp [waiting, turn]
    have moved : state.daemon.step (.select 1) = some { state.daemon with
        hub := { state.daemon.hub with fanout := fanout }
        phase := .handingOff [0x61]
        pty := { state.daemon.pty with output := [] }
        taken := state.daemon.taken ++ [.read [0x61]] } := by
      simp [Daemon.step, Daemon.select, picked, selecting, Daemon.onRead, byte, bufferSize, Hub.step,
        pushed]
    have stepped := System.step_daemon state _ _ rfl moved
    rw [← event] at stepped
    have none_more : payloadsTaken (state.daemon.taken ++ [.read [0x61]]) = [] := by
      rw [payloadsTaken_append, none_taken]
      rfl
    refine ⟨_, stepped, ?_⟩
    exact ⟨queue, quiet, none_more, client, wire,
      ⟨_, further⟩, slaveOpen, by simp [later], by simp [later]⟩
  · have later : (time + 1) % 3 = 0 := by omega
    have event : flood time = .daemon .handOff := by simp [flood, turn]
    have pending : state.daemon.phase = .handingOff [0x61] := by simp [phase, turn]
    have moved : state.daemon.step .handOff = some { state.daemon with
        phase := .selecting
        writer := if state.daemon.logging then state.daemon.writer.send [0x61]
          else state.daemon.writer } := by
      simp [Daemon.step, pending]
    have stepped := System.step_daemon state _ _ rfl moved
    rw [← event] at stepped
    refine ⟨_, stepped, ?_⟩
    exact ⟨queue, quiet, none_taken, client, wire, ⟨output, ring⟩, slaveOpen,
      by simp [later], by simp [later, waiting, turn]⟩

/-- While the child keeps the pty readable a push is never taken: the loop goes
on for ever and the byte stays where it is. -/
theorem push_starves : ∃ endless : Endless System.step, Daemon.start 8 [] none = some idle ∧
    endless.state 0 = System.start idle ∧
    (∀ time, (endless.state time).daemon.phase.looping = true) ∧
    (∀ time, NoAttach 0 (endless.state time)) ∧ Fair endless (ofConnection 0) ∧
    ∃ time, pushesOf (drain (decoder codec) ((endless.state time).wire 0).sent).items = [[0x68]] ∧
      ∀ later, time ≤ later → projection 0 (passed (endless.state later).daemon) = [] := by
  obtain ⟨middle, ran, flooded⟩ : ∃ middle, run System.step (System.start idle) oneByte = some middle ∧
      Flooded 0 middle := by
    refine ⟨_, rfl, rfl, rfl, rfl, rfl, rfl, ⟨[], ?_⟩, rfl, rfl, rfl⟩
    exact (fans_out_run 8 [] none idle idle [] start_idle rfl).represents
  obtain ⟨rest, begins, always⟩ := Endless.exists_driven flood Flooded middle flooded flood_goes_on
  obtain ⟨whole, early, late⟩ := Endless.exists_after oneByte (System.start idle) middle rest begins ran
  have reaches (later : Nat) (order : 6 ≤ later) : Flooded (later - 6) (whole.state later) := by
    have same := (late (later - 6)).1
    have index : oneByte.length + (later - 6) = later := by
      simp only [oneByte, List.length_cons, List.length_nil]
      omega
    rw [index] at same
    rw [same]
    exact always (later - 6)
  refine ⟨whole, start_idle, (Option.some.inj (early 0 (Nat.zero_le _))).symm, ?_, ?_, ?_, 6, ?_, ?_⟩
  · intro time
    by_cases order : 6 ≤ time
    · rw [(reaches time order).phase]
      split <;> rfl
    · have loops : ∀ time, time < 6 → (run System.step (System.start idle) (oneByte.take time)).map
          (fun state => state.daemon.phase.looping) = some true := by decide
      have here := loops time (by omega)
      rw [early time (by simp only [oneByte, List.length_cons, List.length_nil]; omega)] at here
      exact Option.some.inj here
  · intro time
    exact one_byte_no_attach whole time (time + 6) (by omega) (reaches (time + 6) (by omega)).wire
  · intro again
    obtain ⟨later, order, event, next, own, taken⟩ := again 6
    have flooded := reaches later order
    exact (task_rests _ next event flooded.client flooded.wire own taken).elim
  · rw [(reaches 6 (Nat.le_refl _)).wire]
    rfl
  · intro later order
    rw [passed, (reaches later order).none_taken]
    rfl

end Hytch.PushedInput
