import Hytch.ClosedResizes
import Hytch.DefaultCommand

/-!
The window size on its way from the terminal to the daemon. `SIGWINCH` carries no size and
several are received as one, so the watcher of `resize.rs` asks the terminal again for each
signal it receives, while the attach loop takes what is in the channel and the window goes
on changing. The stream of signals does not end.
-/

namespace Hytch.WindowSizes

open IncrementalDecoding MessageCodec AttachLoop DefaultCommand Runs

abbrev Size := UInt16 × UInt16

/-- The task of `spawn_watcher`. -/
inductive Watcher where
  /-- There is no task and the loop has no receiver. -/
  | absent
  | waiting
  | querying
  | sending (size : Size)
  /-- The send failed: the receiver is gone. -/
  | ended
  deriving DecidableEq

inductive Stage where
  | installing
  /-- The handler is there; the size for the handshake is asked for next. -/
  | sizing (queue : List Size)
  | attached (opts : AttachOptions) (attach : Attach)

/-- What is given to `attach_foreground`, and all that the loop will read. -/
structure Given where
  input : List UInt8
  connRead : List UInt8
  detachChar : Option UInt8
  replayed : Bool

/-- An attach from a terminal, from the raw mode on. -/
structure Foreground where
  size : Size
  /-- A signal has come since `recv` last returned. -/
  winched : Bool
  watcher : Watcher
  stage : Stage

inductive ForegroundEvent where
  | resized (size : Size)
  | installs (succeeds : Bool)
  | sized (succeeds : Bool)
  | wakes
  | queries (succeeds : Bool)
  | sends
  | loop (event : AttachEvent)

def channelCapacity : Nat := 8

def Given.options (given : Given) (size : Size) : AttachOptions :=
  { detachChar := given.detachChar
    suspendChar := none
    redrawMethod := .winch
    rows := size.1
    cols := size.2
    skipRing := given.replayed }

theorem options_of_attempt (given : Given) (attempt : Attempt) (tty : attempt.isTty = true) :
    attempt.options given.detachChar given.replayed =
      given.options (attempt.size.getD (24, 80)) := by
  rw [Attempt.options, if_pos tty]
  rfl

/-- The receiver is dropped with the loop. -/
def isOver : AttachLoop.Phase → Bool
  | .returned _ => true
  | .failed _ => true
  | _ => false

namespace Foreground

def start (size : Size) : Foreground :=
  { size := size, winched := false, watcher := .absent, stage := .installing }

/-- The kernel raises the signal if the size is another one. -/
def onResized (fg : Foreground) (size : Size) : Foreground :=
  { fg with size := size, winched := fg.winched || size != fg.size }

def onSends (fg : Foreground) : Option Foreground :=
  match fg.watcher, fg.stage with
  | .sending size, .sizing queue =>
      if queue.length < channelCapacity then
        some { fg with watcher := .waiting, stage := .sizing (queue ++ [size]) }
      else none
  | .sending size, .attached opts attach =>
      if isOver attach.phase then some { fg with watcher := .ended }
      else if attach.resizeEvents.length < channelCapacity then
        let attach := { attach with resizeEvents := attach.resizeEvents ++ [size] }
        some { fg with watcher := .waiting, stage := .attached opts attach }
      else none
  | _, _ => none

/-- The channel is closed to the loop only when the watcher has ended. -/
def onLoop (fg : Foreground) (event : AttachEvent) : Option Foreground :=
  match fg.stage with
  | .attached opts attach =>
      if event = .resizesClosed ∧ fg.watcher ≠ .ended then none
      else (attach.step opts event).map fun next => { fg with stage := .attached opts next }
  | _ => none

def step (given : Given) (fg : Foreground) : ForegroundEvent → Option Foreground
  -- the default for the signal is to ignore it
  | .resized size =>
      match fg.stage with
      | .installing => some { fg with size := size }
      | _ => some (fg.onResized size)
  | .installs succeeds =>
      match fg.stage with
      | .installing =>
          some { fg with watcher := if succeeds then .waiting else .absent, stage := .sizing [] }
      | _ => none
  | .sized succeeds =>
      match fg.stage with
      | .sizing queue =>
          let size := if succeeds then fg.size else (24, 80)
          let attach := Attach.start given.input given.connRead queue
          some { fg with stage := .attached (given.options size) attach }
      | _ => none
  | .wakes =>
      if fg.watcher = .waiting ∧ fg.winched then
        some { fg with winched := false, watcher := .querying }
      else none
  | .queries succeeds =>
      if fg.watcher = .querying then
        some { fg with watcher := if succeeds then .sending fg.size else .waiting }
      else none
  | .sends => fg.onSends
  | .loop event => fg.onLoop event

end Foreground

inductive ForegroundStep (given : Given) (fg : Foreground) : ForegroundEvent → Foreground → Prop where
  | unseen {size : Size} (installing : fg.stage = .installing) :
      ForegroundStep given fg (.resized size) { fg with size := size }
  | resized {size : Size} (installed : fg.stage ≠ .installing) :
      ForegroundStep given fg (.resized size) (fg.onResized size)
  | installs {watcher : Watcher} {succeeds : Bool} (installing : fg.stage = .installing)
      (fresh : watcher = .waiting ∨ watcher = .absent) :
      ForegroundStep given fg (.installs succeeds)
        { fg with watcher := watcher, stage := .sizing [] }
  | sized {queue : List Size} {succeeds : Bool} (sizing : fg.stage = .sizing queue) :
      ForegroundStep given fg (.sized succeeds)
        { fg with
          stage := .attached (given.options (if succeeds then fg.size else (24, 80)))
            (Attach.start given.input given.connRead queue) }
  | wakes (waiting : fg.watcher = .waiting) (winched : fg.winched = true) :
      ForegroundStep given fg .wakes { fg with winched := false, watcher := .querying }
  | queries (querying : fg.watcher = .querying) :
      ForegroundStep given fg (.queries true) { fg with watcher := .sending fg.size }
  | gives_up (querying : fg.watcher = .querying) :
      ForegroundStep given fg (.queries false) { fg with watcher := .waiting }
  | queues {size : Size} {queue : List Size} (sending : fg.watcher = .sending size)
      (sizing : fg.stage = .sizing queue) (room : queue.length < channelCapacity) :
      ForegroundStep given fg .sends
        { fg with watcher := .waiting, stage := .sizing (queue ++ [size]) }
  | sends {size : Size} {opts : AttachOptions} {attach : Attach}
      (sending : fg.watcher = .sending size) (attached : fg.stage = .attached opts attach)
      (going : isOver attach.phase = false) (room : attach.resizeEvents.length < channelCapacity) :
      ForegroundStep given fg .sends
        { fg with
          watcher := .waiting
          stage := .attached opts { attach with resizeEvents := attach.resizeEvents ++ [size] } }
  | ends {size : Size} {opts : AttachOptions} {attach : Attach}
      (sending : fg.watcher = .sending size) (attached : fg.stage = .attached opts attach)
      (ended : isOver attach.phase = true) :
      ForegroundStep given fg .sends { fg with watcher := .ended }
  | loop {event : AttachEvent} {opts : AttachOptions} {attach next : Attach}
      (attached : fg.stage = .attached opts attach) (taken : attach.step opts event = some next)
      (closed : event = .resizesClosed → fg.watcher = .ended) :
      ForegroundStep given fg (.loop event) { fg with stage := .attached opts next }

theorem foreground_step_cases (given : Given) (fg next : Foreground) (event : ForegroundEvent)
    (taken : fg.step given event = some next) : ForegroundStep given fg event next := by
  cases event with
  | resized size =>
    simp only [Foreground.step] at taken
    split at taken
    · rename_i installing
      cases taken
      exact .unseen installing
    · rename_i installed
      cases taken
      exact .resized installed
  | installs succeeds =>
    simp only [Foreground.step] at taken
    split at taken
    · rename_i installing
      cases taken
      refine .installs installing ?_
      cases succeeds
      · exact Or.inr rfl
      · exact Or.inl rfl
    · cases taken
  | sized succeeds =>
    simp only [Foreground.step] at taken
    split at taken
    · rename_i sizing
      cases taken
      exact .sized sizing
    · cases taken
  | wakes =>
    obtain ⟨⟨waiting, winched⟩, taken⟩ := Option.ite_none_right_eq_some.mp taken
    cases taken
    exact .wakes waiting winched
  | queries succeeds =>
    obtain ⟨querying, taken⟩ := Option.ite_none_right_eq_some.mp taken
    cases taken
    cases succeeds
    · exact .gives_up querying
    · exact .queries querying
  | sends =>
    simp only [Foreground.step, Foreground.onSends] at taken
    split at taken
    · rename_i sending sizing
      obtain ⟨room, taken⟩ := Option.ite_none_right_eq_some.mp taken
      cases taken
      exact .queues sending sizing room
    · rename_i sending attached
      split at taken
      · rename_i ended
        cases taken
        exact .ends sending attached ended
      · rename_i going
        obtain ⟨room, taken⟩ := Option.ite_none_right_eq_some.mp taken
        cases taken
        exact .sends sending attached (by simpa using going) room
    · cases taken
  | loop event =>
    simp only [Foreground.step, Foreground.onLoop] at taken
    split at taken
    · rename_i attached
      obtain ⟨allowed, taken⟩ := Option.ite_none_left_eq_some.mp taken
      obtain ⟨next, moved, rfl⟩ := Option.map_eq_some_iff.mp taken
      refine .loop attached moved ?_
      intro closed
      by_contra going
      exact allowed ⟨closed, going⟩
    · cases taken

def holding : Watcher → List Size
  | .sending size => [size]
  | _ => []

/-- The newest of these is what the terminal has, unless a signal says otherwise. -/
def Newest (fg : Foreground) (sizes : List Size) : Prop :=
  fg.winched = false → fg.watcher = .waiting ∨ (∃ size, fg.watcher = .sending size) →
    ∀ newest ∈ sizes.getLast?, newest = fg.size

/-- The terminal gives its size when it is asked for it. -/
def Answers : ForegroundEvent → Prop
  | .queries succeeds => succeeds = true
  | .sized succeeds => succeeds = true
  | _ => True

/-- `sent` is all that has been put into the channel; `answered`, that every query got an
answer. -/
inductive Tracks (given : Given) (answered : Prop) (fg : Foreground) : Prop where
  | installing (stage : fg.stage = .installing) (idle : fg.watcher = .absent)
      (quiet : fg.winched = false) : Tracks given answered fg
  | sizing {queue : List Size} (stage : fg.stage = .sizing queue)
      (newest : answered → Newest fg (queue ++ holding fg.watcher)) (alive : fg.watcher ≠ .ended) :
      Tracks given answered fg
  | attached {opts : AttachOptions} {attach : Attach} {sent : List Size}
      (stage : fg.stage = .attached opts attach) (winch : opts.redrawMethod = .winch)
      (reached : Reached opts (Attach.start given.input given.connRead sent) attach)
      (newest : answered → Newest fg ((opts.rows, opts.cols) :: sent ++ holding fg.watcher))
      (closed : fg.watcher = .ended → isOver attach.phase = true) : Tracks given answered fg

section Invariant

variable (given : Given) (answered : Prop) (fg : Foreground)

theorem reached_sent (opts : AttachOptions) (start attach : Attach) (size : Size)
    (reached : Reached opts start attach) :
    Reached opts { start with resizeEvents := start.resizeEvents ++ [size] }
      { attach with resizeEvents := attach.resizeEvents ++ [size] } := by
  have forwards_sent (middle : List Message) (forwards : Forwards start attach middle) :
      Forwards { start with resizeEvents := start.resizeEvents ++ [size] }
        { attach with resizeEvents := attach.resizeEvents ++ [size] } middle := by
    refine ⟨forwards.kinds, ?_, forwards.output⟩
    rw [forwards.resizes, List.append_assoc]
  cases reached with
  | handshaking phase written input forwards =>
    exact .handshaking phase written input (forwards_sent [] forwards)
  | @selecting middle selecting =>
    obtain ⟨phase, written, forwards, input, plain⟩ := selecting
    exact .selecting ⟨phase, written, forwards_sent middle forwards, input, plain⟩
  | @returned middle consumed outcome phase written forwards input pushes ends =>
    exact .returned phase written (forwards_sent middle forwards) input pushes ends
  | failed phase => exact .failed phase

theorem over_step (opts : AttachOptions) (attach next : Attach) (event : AttachEvent)
    (taken : attach.step opts event = some next) : isOver attach.phase = false := by
  cases attach_step_cases opts attach next event taken with
  | attaches phase => rw [phase]; rfl
  | redraws phase => rw [phase]; rfl
  | inputEnds phase => rw [phase]; rfl
  | reads phase => rw [phase]; rfl
  | connEnds phase => rw [phase]; rfl
  | shows phase => rw [phase]; rfl
  | resizes phase => rw [phase]; rfl
  | ignores phase => rw [phase]; rfl
  | fails going sound =>
    cases phase : attach.phase with
    | returned outcome => exact absurd phase (going outcome)
    | failed fault => exact absurd phase (sound fault)
    | _ => rfl

theorem loop_not_closed (tracks : Tracks given answered fg) (next : Foreground) :
    fg.step given (.loop .resizesClosed) ≠ some next := by
  intro taken
  cases foreground_step_cases given fg next _ taken with
  | loop attached moved closed =>
    cases tracks with
    | installing stage => rw [stage] at attached; cases attached
    | sizing stage => rw [stage] at attached; cases attached
    | attached stage winch reached newest ended =>
      rw [stage] at attached
      cases attached
      have going := over_step _ _ _ _ moved
      rw [ended (closed rfl)] at going
      cases going

theorem newest_kept (next : Foreground) (sizes more : List Size) (newest : Newest fg sizes)
    (same : more = sizes) (size : next.size = fg.size) (winched : next.winched = fg.winched)
    (busy : (next.watcher = .waiting ∨ ∃ size, next.watcher = .sending size) →
      fg.watcher = .waiting ∨ ∃ size, fg.watcher = .sending size) : Newest next more := by
  intro quiet watching last member
  rw [size]
  rw [winched] at quiet
  rw [same] at member
  exact newest quiet (busy watching) last member

theorem newest_resized (size : Size) (sizes : List Size) (newest : Newest fg sizes) :
    Newest (fg.onResized size) sizes := by
  intro quiet watching last member
  simp only [Foreground.onResized, Bool.or_eq_false_iff, bne_eq_false_iff_eq] at quiet
  obtain ⟨quiet, rfl⟩ := quiet
  exact newest quiet watching last member

theorem newest_queried (sizes : List Size) :
    Newest { fg with watcher := .sending fg.size } (sizes ++ [fg.size]) := by
  intro _ _ last member
  rw [List.getLast?_concat, Option.mem_some_iff] at member
  exact member.symm

theorem newest_querying (sizes : List Size) :
    Newest { fg with winched := false, watcher := .querying } sizes := by
  intro _ watching
  rcases watching with waiting | ⟨size, sending⟩
  · cases waiting
  · cases sending

theorem newest_handshake (sizes : List Size) (newest : Newest fg sizes) :
    Newest fg (fg.size :: sizes) := by
  intro quiet watching last member
  rw [List.getLast?_cons] at member
  cases known : sizes.getLast? with
  | none =>
    rw [known] at member
    exact (Option.mem_some_iff.mp member).symm
  | some final =>
    rw [known] at member
    refine newest quiet watching last ?_
    rw [known]
    exact member

theorem tracks_beside (next : Foreground) (later : Prop) (tracks : Tracks given answered fg)
    (stage : next.stage = fg.stage) (installed : fg.stage ≠ .installing)
    (newest : later → answered ∧ ∀ sizes, Newest fg (sizes ++ holding fg.watcher) →
      Newest next (sizes ++ holding next.watcher))
    (alive : next.watcher = .ended → fg.watcher = .ended) : Tracks given later next := by
  cases tracks with
  | installing installing => exact absurd installing installed
  | sizing sizing before going =>
    apply Tracks.sizing (stage.trans sizing)
    · intro now
      exact (newest now).2 _ (before (newest now).1)
    · exact fun ended => going (alive ended)
  | @attached opts attach sent attached winch reached before closed =>
    apply Tracks.attached (stage.trans attached) winch reached
    · intro now
      exact (newest now).2 _ (before (newest now).1)
    · exact fun ended => closed (alive ended)

theorem tracks_sent (opts : AttachOptions) (attach : Attach) (size : Size)
    (tracks : Tracks given answered fg) (sending : fg.watcher = .sending size)
    (attached : fg.stage = .attached opts attach) :
    Tracks given answered
      { fg with
        watcher := .waiting
        stage := .attached opts { attach with resizeEvents := attach.resizeEvents ++ [size] } } := by
  cases tracks with
  | installing stage => rw [stage] at attached; cases attached
  | sizing stage => rw [stage] at attached; cases attached
  | @attached _ _ sent stage winch reached newest closed =>
    rw [stage] at attached
    cases attached
    apply Tracks.attached rfl winch (reached_sent opts _ attach size reached)
    · intro now
      refine newest_kept fg _ _ _ (newest now) ?_ rfl rfl (fun _ => Or.inr ⟨size, sending⟩)
      rw [sending]
      simp [Attach.start, holding]
    · exact nofun

theorem tracks_loop (opts : AttachOptions) (attach next : Attach) (event : AttachEvent)
    (tracks : Tracks given answered fg) (attached : fg.stage = .attached opts attach)
    (taken : attach.step opts event = some next) :
    Tracks given answered { fg with stage := .attached opts next } := by
  cases tracks with
  | installing stage => rw [stage] at attached; cases attached
  | sizing stage => rw [stage] at attached; cases attached
  | attached stage winch reached newest closed =>
    rw [stage] at attached
    cases attached
    apply Tracks.attached rfl winch (reached_step opts _ attach next event reached taken)
    · intro now
      exact newest_kept fg _ _ _ (newest now) rfl rfl rfl id
    · intro ended
      have going := over_step opts attach next event taken
      rw [closed ended] at going
      cases going

theorem tracks_weaken (later : Prop) (tracks : Tracks given answered fg) (weaker : later → answered) :
    Tracks given later fg := by
  cases tracks with
  | installing stage idle quiet => exact .installing stage idle quiet
  | sizing stage newest alive => exact .sizing stage (fun now => newest (weaker now)) alive
  | attached stage winch reached newest closed =>
    exact .attached stage winch reached (fun now => newest (weaker now)) closed

theorem tracks_step (next : Foreground) (event : ForegroundEvent)
    (tracks : Tracks given answered fg) (taken : fg.step given event = some next) :
    Tracks given (answered ∧ Answers event) next := by
  -- the task is there only behind the handler
  have installed (busy : fg.watcher ≠ .absent) : fg.stage ≠ .installing := by
    intro installing
    cases tracks with
    | installing stage idle => exact busy idle
    | sizing stage => rw [stage] at installing; cases installing
    | attached stage => rw [stage] at installing; cases installing
  cases foreground_step_cases given fg next event taken with
  | unseen installing =>
    cases tracks with
    | installing stage idle quiet => exact .installing stage idle quiet
    | sizing stage => rw [stage] at installing; cases installing
    | attached stage => rw [stage] at installing; cases installing
  | @resized size installed =>
    exact tracks_beside given answered fg _ _ tracks rfl installed
      (fun now => ⟨now.1, fun sizes newest => newest_resized fg size _ newest⟩) id
  | installs installing fresh =>
    refine .sizing rfl (fun _ _ _ last member => ?_) ?_
    · rcases fresh with rfl | rfl <;> cases member
    · rcases fresh with rfl | rfl <;> exact nofun
  | @sized queue succeeds sizing =>
    cases tracks with
    | installing stage => rw [stage] at sizing; cases sizing
    | attached stage => rw [stage] at sizing; cases sizing
    | sizing stage newest alive =>
      rw [stage] at sizing
      cases sizing
      refine .attached rfl rfl (reached_run _ _ _ _ _ [] rfl) ?_ fun ended => absurd ended alive
      rintro ⟨now, rfl⟩
      exact newest_handshake fg _ (newest now)
  | wakes waiting winched =>
    refine tracks_beside given answered fg _ _ tracks rfl (installed (by rw [waiting]; exact nofun))
      (fun now => ⟨now.1, fun sizes _ => newest_querying fg _⟩) nofun
  | queries querying =>
    exact tracks_beside given answered fg _ _ tracks rfl (installed (by rw [querying]; exact nofun))
      (fun now => ⟨now.1, fun sizes _ => newest_queried fg sizes⟩) nofun
  | gives_up querying =>
    exact tracks_beside given answered fg _ _ tracks rfl (installed (by rw [querying]; exact nofun))
      (fun now => absurd now.2 Bool.false_ne_true) nofun
  | @queues size queue sending sizing room =>
    cases tracks with
    | installing stage => rw [stage] at sizing; cases sizing
    | attached stage => rw [stage] at sizing; cases sizing
    | sizing stage newest alive =>
      rw [stage] at sizing
      cases sizing
      refine .sizing rfl (fun now => ?_) nofun
      refine newest_kept fg _ _ _ (newest now.1) ?_ rfl rfl fun _ => Or.inr ⟨size, sending⟩
      rw [sending]
      simp [holding]
  | sends sending attached going room =>
    exact tracks_weaken given answered _ _
      (tracks_sent given answered fg _ _ _ tracks sending attached) And.left
  | ends sending attached ended =>
    cases tracks with
    | installing stage => rw [stage] at attached; cases attached
    | sizing stage => rw [stage] at attached; cases attached
    | attached stage winch reached newest closed =>
      rw [stage] at attached
      cases attached
      refine .attached stage winch reached (fun _ _ watching => ?_) fun _ => ended
      rcases watching with waiting | ⟨size, sending⟩
      · cases waiting
      · cases sending
  | loop attached moved closed =>
    exact tracks_weaken given answered _ _
      (tracks_loop given answered fg _ _ _ _ tracks attached moved) And.left

end Invariant

/-- At every moment of an attach, whatever happens to the window. -/
theorem tracks_run (given : Given) (size : Size) (last : Foreground) (events : List ForegroundEvent)
    (ran : run (Foreground.step given) (Foreground.start size) events = some last) :
    Tracks given (∀ event ∈ events, Answers event) last := by
  refine run_history_invariant (Foreground.step given)
    (fun past fg => Tracks given (∀ event ∈ past, Answers event) fg) ?_ []
    events (Foreground.start size) last (.installing rfl rfl rfl) ran
  intro past fg event next tracks taken
  refine tracks_weaken given _ next _ (tracks_step given _ fg next event tracks taken) ?_
  intro all
  constructor
  · exact fun earlier member => all earlier (List.mem_append_left _ member)
  · exact all event (List.mem_append_right _ List.mem_cons_self)

def sizesTold (messages : List Message) : List Size :=
  messages.filterMap fun
    | .winch rows cols => some (rows, cols)
    | .redraw method rows cols => if method ≠ .none then some (rows, cols) else none
    | _ => none

/-- Every signal has been received and answered, and the loop has taken the answers. -/
structure Settled (fg : Foreground) (attach : Attach) : Prop where
  quiet : fg.winched = false
  waiting : fg.watcher = .waiting
  stage : ∃ opts, fg.stage = .attached opts attach
  selecting : attach.phase = .selecting
  taken : attach.resizeEvents = []

/-- A step of the program, in which nothing goes wrong. -/
def Own : ForegroundEvent → Prop
  | .wakes => True
  | .queries succeeds => succeeds = true
  | .sends => True
  | .loop event => event = .resized
  | _ => False

/-- The program can go on to such a state by itself. -/
def Comes (given : Given) (fg : Foreground) (target : Foreground → Prop) : Prop :=
  Reaches (Foreground.step given) Own fg target

/-- In the loop, with the same window and nothing in the channel. -/
def Drained (fg after : Foreground) : Prop :=
  after.size = fg.size ∧ after.winched = fg.winched ∧
    ∃ opts attach, after.stage = .attached opts attach ∧ attach.phase = .selecting ∧
      attach.resizeEvents = []

section Settling

variable (given : Given) (fg : Foreground)

theorem loop_run (opts : AttachOptions) (attach next : Attach) (times : Nat)
    (attached : fg.stage = .attached opts attach)
    (ran : run (Attach.step opts) attach (List.replicate times .resized) = some next) :
    run (Foreground.step given) fg (List.replicate times (.loop .resized)) =
      some { fg with stage := .attached opts next } := by
  induction times generalizing fg attach with
  | zero =>
    cases ran
    rw [← attached]
    rfl
  | succ times ih =>
    rw [List.replicate_succ] at ran ⊢
    obtain ⟨middle, taken, later⟩ := run_cons _ _ _ _ _ ran
    have moved : fg.step given (.loop .resized) = some { fg with stage := .attached opts middle } := by
      simp [Foreground.step, Foreground.onLoop, attached, taken]
    rw [run, moved, Option.bind_some]
    exact ih { fg with stage := .attached opts middle } middle rfl later

theorem comes_drained (opts : AttachOptions) (attach : Attach)
    (attached : fg.stage = .attached opts attach) (selecting : attach.phase = .selecting) :
    Comes given fg fun after => after.watcher = fg.watcher ∧ Drained fg after := by
  obtain ⟨next, ran, phase, empty⟩ := ClosedResizes.queued_resizes_taken opts attach selecting
  refine ⟨_, _, ?_, loop_run given fg opts attach next _ attached ran, rfl, rfl, rfl, opts, next,
    rfl, phase, empty⟩
  intro event member
  rw [List.eq_of_mem_replicate member]
  rfl

theorem comes_sent (opts : AttachOptions) (attach : Attach) (size : Size)
    (attached : fg.stage = .attached opts attach) (selecting : attach.phase = .selecting)
    (sending : fg.watcher = .sending size) :
    Comes given fg fun after => after.watcher = .waiting ∧ Drained fg after := by
  refine reaches_trans _ _ fg _ _ (comes_drained given fg opts attach attached selecting) ?_
  rintro next ⟨busy, same, quiet, opts, attach, attached, selecting, empty⟩
  have sent : next.step given .sends = some
      { next with
        watcher := .waiting
        stage := .attached opts { attach with resizeEvents := [size] } } := by
    simp [Foreground.step, Foreground.onSends, busy, sending, attached, selecting, isOver, empty,
      channelCapacity]
  refine reaches_step _ _ next _ _ .sends trivial sent ?_
  refine reaches_trans _ _ _ _ _
    (comes_drained given { next with
      watcher := .waiting
      stage := .attached opts { attach with resizeEvents := [size] } } opts
        { attach with resizeEvents := [size] } rfl selecting) ?_
  rintro last ⟨waiting, unchanged, silent, rest⟩
  exact reaches_here _ _ _ _ ⟨waiting, unchanged.trans same, silent.trans quiet, rest⟩

theorem comes_answered (opts : AttachOptions) (attach : Attach)
    (attached : fg.stage = .attached opts attach) (selecting : attach.phase = .selecting)
    (querying : fg.watcher = .querying) :
    Comes given fg fun after => after.watcher = .waiting ∧ Drained fg after := by
  have asked : fg.step given (.queries true) = some { fg with watcher := .sending fg.size } := by
    simp [Foreground.step, querying]
  exact reaches_step _ _ fg _ _ (.queries true) rfl asked
    (comes_sent given { fg with watcher := .sending fg.size } opts attach fg.size attached
      selecting rfl)

/-- One more answer is enough for however many signals. -/
theorem comes_settled_waiting (opts : AttachOptions) (attach : Attach)
    (attached : fg.stage = .attached opts attach) (selecting : attach.phase = .selecting)
    (waiting : fg.watcher = .waiting) :
    Comes given fg fun after => after.size = fg.size ∧ ∃ attach, Settled after attach := by
  cases winched : fg.winched with
  | true =>
    have woken : fg.step given .wakes = some { fg with winched := false, watcher := .querying } := by
      simp [Foreground.step, waiting, winched]
    refine reaches_step _ _ fg _ _ .wakes trivial woken (reaches_trans _ _ _ _ _
      (comes_answered given { fg with winched := false, watcher := .querying } opts attach attached
        selecting rfl) ?_)
    rintro last ⟨idle, same, silent, opts, attach, attached, selecting, empty⟩
    exact reaches_here _ _ _ _ ⟨same, attach, silent, idle, ⟨opts, attached⟩, selecting, empty⟩
  | false =>
    refine reaches_trans _ _ fg _ _ (comes_drained given fg opts attach attached selecting) ?_
    rintro last ⟨idle, same, silent, opts, attach, attached, selecting, empty⟩
    exact reaches_here _ _ _ _ ⟨same, attach, silent.trans winched, idle.trans waiting,
      ⟨opts, attached⟩, selecting, empty⟩

theorem comes_settled (opts : AttachOptions) (attach : Attach)
    (attached : fg.stage = .attached opts attach) (selecting : attach.phase = .selecting)
    (watched : fg.watcher ≠ .absent) (alive : fg.watcher ≠ .ended) :
    Comes given fg fun after => after.size = fg.size ∧ ∃ attach, Settled after attach := by
  have onward : ∀ next, next.watcher = .waiting ∧ Drained fg next →
      Comes given next fun after => after.size = fg.size ∧ ∃ attach, Settled after attach := by
    rintro next ⟨waiting, same, _, opts, attach, attached, selecting, _⟩
    rw [← same]
    exact comes_settled_waiting given next opts attach attached selecting waiting
  cases busy : fg.watcher with
  | absent => exact absurd busy watched
  | ended => exact absurd busy alive
  | waiting => exact comes_settled_waiting given fg opts attach attached selecting busy
  | querying =>
    exact reaches_trans _ _ fg _ _ (comes_answered given fg opts attach attached selecting busy) onward
  | sending size =>
    exact reaches_trans _ _ fg _ _ (comes_sent given fg opts attach size attached selecting busy) onward

end Settling

theorem sizes_of_middle (middle : List Message) (kinds : ∀ msg ∈ middle, Forwardable msg) :
    sizesTold middle = winchesOf middle := by
  induction middle with
  | nil => rfl
  | cons msg rest ih =>
    have later := ih fun other member => kinds other (List.mem_cons_of_mem msg member)
    have kind := kinds msg List.mem_cons_self
    cases msg with
    | push data => simpa [sizesTold, winchesOf] using later
    | winch rows cols => simpa [sizesTold, winchesOf] using later
    | attach skipRing => exact kind.elim
    | detach => exact kind.elim
    | redraw method rows cols => exact kind.elim
    | kill signal => exact kind.elim

theorem sizes_of_handshake (opts : AttachOptions) (middle : List Message)
    (winch : opts.redrawMethod = .winch) (kinds : ∀ msg ∈ middle, Forwardable msg) :
    sizesTold (handshake opts ++ middle) = (opts.rows, opts.cols) :: winchesOf middle := by
  rw [← sizes_of_middle middle kinds]
  simp [sizesTold, handshake, winch]

/-- What a settled client has told the daemon. -/
structure Told (fg : Foreground) (attach : Attach) (messages : List Message) : Prop where
  decoded : drain (decoder default) attach.connWrite = ⟨messages, .ok []⟩
  newest : (sizesTold messages).getLast? = some fg.size
  nothingElse : ∀ signal, .kill signal ∉ messages

theorem told_of_tracks (given : Given) (answered : Prop) (fg : Foreground) (attach : Attach)
    (tracks : Tracks given answered fg) (now : answered) (settled : Settled fg attach) :
    ∃ messages, Told fg attach messages := by
  obtain ⟨quiet, waiting, ⟨opts, attached⟩, selecting, empty⟩ := settled
  cases tracks with
  | installing stage => rw [stage] at attached; cases attached
  | sizing stage => rw [stage] at attached; cases attached
  | @attached _ _ sent stage winch reached newest closed =>
    rw [stage] at attached
    cases attached
    cases reached with
    | handshaking phase => rcases phase with phase | phase <;> simp [phase] at selecting
    | returned phase => simp [phase] at selecting
    | failed phase => simp [phase] at selecting
    | @selecting middle reached =>
      obtain ⟨_, written, forwards, _, _⟩ := reached
      have resizes := forwards.resizes
      rw [empty, List.append_nil] at resizes
      have queued : sent = winchesOf middle := resizes
      have final := newest now quiet (Or.inl waiting)
      have nothing : holding fg.watcher = [] := by rw [waiting]; rfl
      rw [nothing, List.append_nil] at final
      have silent : farewell .inputClosed = [] := rfl
      have decoded := frames_decode opts middle .inputClosed forwards.kinds
      rw [silent, List.append_nil, ← written] at decoded
      refine ⟨handshake opts ++ middle, decoded, ?_, ?_⟩
      · rw [sizes_of_handshake opts middle winch forwards.kinds, ← queued]
        exact (List.getLast?_cons).trans (congrArg some (final _ List.getLast?_cons))
      · intro signal member
        rcases List.mem_append.mp member with first | between
        · simp [handshake] at first
        · exact forwards.kinds _ between

/-- Once the client has settled the daemon has been told the size that the window has, and
until then it can settle by itself. -/
structure Follows (given : Given) (fg : Foreground) : Prop where
  told : ∀ attach, Settled fg attach → ∃ messages, Told fg attach messages
  settles : ∀ opts attach, fg.stage = .attached opts attach → attach.phase = .selecting →
    fg.watcher ≠ .absent →
    Comes given fg fun after => after.size = fg.size ∧ ∃ attach, Settled after attach

/-- However often the window has changed, and whenever. -/
theorem terminal_followed (given : Given) (size : Size) (last : Foreground)
    (events : List ForegroundEvent)
    (ran : run (Foreground.step given) (Foreground.start size) events = some last)
    (answered : ∀ event ∈ events, Answers event) : Follows given last where
  told := by
    intro attach settled
    exact told_of_tracks given _ last attach (tracks_run given size last events ran) answered settled
  settles := by
    intro opts attach attached selecting watched
    refine comes_settled given last opts attach attached selecting watched fun ended => ?_
    cases tracks_run given size last events ran with
    | installing stage => rw [stage] at attached; cases attached
    | sizing stage => rw [stage] at attached; cases attached
    | attached stage winch reached newest closed =>
      rw [stage] at attached
      cases attached
      have gone := closed ended
      rw [selecting] at gone
      cases gone

/-- Two changes are received as one, behind a size that was out of date when it was sent. -/
def changesTwice : List ForegroundEvent :=
  [.installs true, .resized (30, 90), .wakes, .queries true, .resized (31, 91), .sized true, .sends,
    .loop .handshake, .loop .handshake, .resized (32, 92), .loop .resized, .wakes, .queries true,
    .sends, .loop .resized]

def plainGiven : Given :=
  { input := [], connRead := [], detachChar := some 0x1c, replayed := false }

theorem terminal_followed_twice : ∃ last attach,
    run (Foreground.step plainGiven) (Foreground.start (24, 80)) changesTwice = some last ∧
      Settled last attach ∧ last.size = (32, 92) ∧ Follows plainGiven last := by
  refine ⟨_, _, rfl, ⟨rfl, rfl, ⟨_, rfl⟩, rfl, rfl⟩, rfl, ?_⟩
  exact terminal_followed plainGiven (24, 80) _ changesTwice rfl (by simp [changesTwice, Answers])

/-- While the loop goes on the watcher holds the sender: the loop is never told that the
channel is closed. -/
theorem channel_stays_open (given : Given) (size : Size) (last next : Foreground)
    (events : List ForegroundEvent)
    (ran : run (Foreground.step given) (Foreground.start size) events = some last) :
    last.step given (.loop .resizesClosed) ≠ some next :=
  loop_not_closed given _ last (tracks_run given size last events ran) next

/-- The loop has returned before the watcher finds out. -/
def detachesAndResizes : List ForegroundEvent :=
  [.installs true, .sized true, .loop .handshake, .loop .handshake, .loop (.input 1),
    .resized (30, 90), .wakes, .queries true, .sends]

theorem channel_stays_open_behind : ∃ last,
    run (Foreground.step { plainGiven with input := [0x1c] }) (Foreground.start (24, 80))
      detachesAndResizes = some last ∧ last.watcher = .ended ∧
      ∀ next, last.step { plainGiven with input := [0x1c] } (.loop .resizesClosed) ≠ some next := by
  refine ⟨_, rfl, rfl, fun next => ?_⟩
  exact channel_stays_open { plainGiven with input := [0x1c] } (24, 80) _ next detachesAndResizes rfl

end Hytch.WindowSizes
