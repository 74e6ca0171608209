import Hytch.DefaultCommand

/-!
The four invocations of `main.rs` that attach or create: what they show of the log, what
they ask of the daemon's ring, and what their exit code says.
-/

namespace Hytch.Invocations

open IncrementalDecoding MessageCodec AttachLoop DefaultCommand SessionNames SpawnRequests Runs

inductive Invocation where
  | attach (session : Text)
  | new (session : Text) (cmd : List Text)
  | start (session : Text) (cmd : List Text)
  | bare (rest : List Text)

section Commands

variable (env : Environment) (chain : Option Text) (logMaxSize : UInt64)
  (detachChar : Option UInt8) (quiet : Bool) (around : Surroundings)

def cmdAttach (session : Text) : List Effect × Nat :=
  let replay := replayLogToStdout around.log
  let attached := cmdAttachReplayed chain session (socketPath env session) detachChar replay.2
    quiet around.first
  (replay.1 ++ attached.1, attached.2)

def cmdNew (session : Text) (cmd : List Text) : List Effect × Nat :=
  let replay := replayLogToStdout around.log
  let created := cmdNewAfterReplay env chain logMaxSize detachChar quiet around session cmd
    replay.2
  (replay.1 ++ created.1, created.2)

def cmdStart (session : Text) (cmd : List Text) : List Effect × Nat :=
  match buildSpawnRequest env session cmd logMaxSize with
  | .error message => ([.printed ("hytch: ".toList ++ message)], 1)
  | .ok req =>
      match around.spawning with
      | .notCreated fault =>
          ([.printed ("hytch: ".toList ++ session ++ ": ".toList ++ fault.message.toList)], 1)
      | .created (.error fault) =>
          ([.spawned req,
            .printed ("hytch: ".toList ++ session ++ ": ".toList ++ fault.message.toList)], 1)
      | .created (.ok ()) =>
          let news : List Effect := if quiet then []
            else [.printed ("hytch: session '".toList ++ session ++ "' started".toList)]
          (.spawned req :: news, 0)

def invoke : Invocation → List Effect × Nat
  | .attach session => cmdAttach env chain detachChar quiet around session
  | .new session cmd => cmdNew env chain logMaxSize detachChar quiet around session cmd
  | .start session cmd => cmdStart env logMaxSize quiet around session cmd
  | .bare rest => cmdDefault env chain logMaxSize detachChar quiet around rest

end Commands

/-- The log is shown before anything else is tried. -/
def Invocation.shows : Invocation → Bool
  | .start _ _ => false
  | .bare [] => false
  | _ => true

def loopOf (detachChar : Option UInt8) (replayed : Bool) (attempt : Attempt) :
    LoopRun (attempt.options detachChar replayed) :=
  attempt.loop (attempt.options detachChar replayed)

/-- One attach of the invocation: unless it fails, the first thing it asks is to leave out
the ring if and only if the log has been shown. -/
structure Attended (detachChar : Option UInt8) (replayed : Bool) (attempt : Attempt)
    (sent shown : List UInt8) : Prop where
  written : sent = (loopOf detachChar replayed attempt).last.connWrite
  output : shown = (loopOf detachChar replayed attempt).last.output
  first : ∀ outcome, (loopOf detachChar replayed attempt).result = .ok outcome →
    ∃ messages, drain (decoder default) sent = ⟨.attach replayed :: messages, .ok []⟩

/-- The end of the session, with all that the daemon had sent on the screen. -/
structure Finished (detachChar : Option UInt8) (replayed quiet : Bool) (attempt : Attempt)
    (effects : List Effect) : Prop where
  result : (loopOf detachChar replayed attempt).result = .ok .sessionEnded
  effects : ∃ earlier sent, effects = earlier ++
    .exchanged sent (loopOf detachChar replayed attempt).connRead ::
      if quiet then [] else [.printed "hytch: session ended".toList]

def Quiet : Effect → Prop
  | .replayed _ => False
  | .exchanged _ _ => False
  | _ => True

section Loops

variable {opts : AttachOptions} (loop : LoopRun opts)

theorem loop_returned (outcome : AttachOutcome) (result : loop.result = .ok outcome) :
    ∃ middle consumed, loop.last.connWrite = frames (handshake opts ++ middle ++ farewell outcome) ∧
      Forwards (Attach.start loop.input loop.connRead loop.resizeEvents) loop.last middle ∧
      loop.input = consumed ++ loop.last.input ∧
      (pushesOf middle).flatten = (consumed.takeWhile fun byte => !special opts byte) ∧
        Ends opts loop.last consumed outcome := by
  have phase : loop.last.phase = .returned outcome := by
    rw [loop.ended, result]
  cases reached_run opts _ _ _ _ _ loop.ran with
  | handshaking other => rcases other with other | other <;> simp [phase] at other
  | selecting selecting =>
    have other := selecting.phase
    rw [phase] at other
    cases other
  | failed other => simp [phase] at other
  | @returned middle consumed same other written forwards input pushes ends =>
    rw [phase] at other
    cases other
    exact ⟨middle, consumed, written, forwards, input, pushes, ends⟩

theorem loop_first (outcome : AttachOutcome) (result : loop.result = .ok outcome) :
    ∃ messages, drain (decoder default) loop.last.connWrite =
      ⟨.attach opts.skipRing :: messages, .ok []⟩ := by
  obtain ⟨middle, _, written, forwards, _⟩ := loop_returned loop outcome result
  rw [written, frames_decode opts middle outcome forwards.kinds]
  exact ⟨_, rfl⟩

theorem loop_shown (result : loop.result = .ok .sessionEnded) :
    loop.last.output = loop.connRead := by
  obtain ⟨_, consumed, _, forwards, _, _, ends⟩ := loop_returned loop _ result
  have output : loop.connRead = loop.last.output ++ loop.last.connRead := forwards.output
  rcases ends with request | ⟨_, ⟨other, _⟩ | ⟨_, nothing⟩⟩
  · -- no byte asks for the end of the session
    obtain ⟨byte, _, same⟩ := Option.map_eq_some_iff.mp request
    unfold outcomeOf at same
    split at same <;> cases same
  · cases other
  · rw [output, nothing, List.append_nil]

end Loops

/-- Nothing is replayed, and every exchange is an attach of one of the attempts. -/
structure Proper (detachChar : Option UInt8) (replayed : Bool) (attempts : List Attempt)
    (effects : List Effect) : Prop where
  silent : ∀ bytes, .replayed bytes ∉ effects
  attended : ∀ sent shown, .exchanged sent shown ∈ effects →
    ∃ attempt ∈ attempts, Attended detachChar replayed attempt sent shown

theorem quiet_either (shown : Prop) [Decidable shown] (first second : List Effect)
    (one : ∀ effect ∈ first, Quiet effect) (other : ∀ effect ∈ second, Quiet effect) :
    ∀ effect ∈ if shown then first else second, Quiet effect := by
  split
  · exact one
  · exact other

section Parts

variable (detachChar : Option UInt8) (replayed quiet : Bool) (attempts : List Attempt)

theorem proper_quiet (effects : List Effect) (quietly : ∀ effect ∈ effects, Quiet effect) :
    Proper detachChar replayed attempts effects where
  silent := fun _ member => (quietly _ member).elim
  attended := fun _ _ member => (quietly _ member).elim

theorem proper_append (first second : List Effect)
    (earlier : Proper detachChar replayed attempts first)
    (later : Proper detachChar replayed attempts second) :
    Proper detachChar replayed attempts (first ++ second) where
  silent := by
    intro bytes member
    rcases List.mem_append.mp member with member | member
    · exact earlier.silent bytes member
    · exact later.silent bytes member
  attended := by
    intro sent shown member
    rcases List.mem_append.mp member with member | member
    · exact earlier.attended sent shown member
    · exact later.attended sent shown member

theorem proper_exchange (attempt : Attempt) (among : attempt ∈ attempts) :
    Proper detachChar replayed attempts
      [.exchanged (loopOf detachChar replayed attempt).last.connWrite
        (loopOf detachChar replayed attempt).last.output] where
  silent := by simp
  attended := by
    intro sent shown member
    obtain ⟨rfl, rfl⟩ : sent = (loopOf detachChar replayed attempt).last.connWrite ∧
        shown = (loopOf detachChar replayed attempt).last.output := by simpa using member
    exact ⟨attempt, among, rfl, rfl, fun outcome result => loop_first _ outcome result⟩

theorem finished_behind (attempt : Attempt) (first second : List Effect)
    (finished : Finished detachChar replayed quiet attempt second) :
    Finished detachChar replayed quiet attempt (first ++ second) := by
  obtain ⟨result, earlier, sent, rfl⟩ := finished
  exact ⟨result, first ++ earlier, sent, (List.append_assoc _ _ _).symm⟩

end Parts

section Attaching

variable (env : Environment) (chain : Option Text) (logMaxSize : UInt64)
  (detachChar : Option UInt8) (replayed quiet : Bool) (around : Surroundings)
  (attempts : List Attempt)

/-- What is printed behind the exchange. -/
def closing (quiet : Bool) (result : Except IoError AttachOutcome) : List Effect :=
  match quiet, result with
  | false, .ok .sessionEnded => [.printed "hytch: session ended".toList]
  | _, _ => []

theorem closing_quiet (result : Except IoError AttachOutcome) :
    ∀ effect ∈ closing quiet result, Quiet effect := by
  intro effect member
  unfold closing at member
  split at member
  · rw [List.mem_singleton.mp member]
    trivial
  · cases member

/-- An attach fails before its loop, or is an exchange with a few prints around it. -/
theorem attach_forms (path : Text) (attempt : Attempt) :
    (∃ effects fault, attachForeground chain path detachChar replayed quiet attempt =
        (effects, .error fault) ∧ ∀ effect ∈ effects, Quiet effect) ∨
      ∃ before, (∀ effect ∈ before, Quiet effect) ∧
        attachForeground chain path detachChar replayed quiet attempt =
          (before ++ .exchanged (loopOf detachChar replayed attempt).last.connWrite
            (loopOf detachChar replayed attempt).last.output ::
              closing quiet (loopOf detachChar replayed attempt).result,
            (loopOf detachChar replayed attempt).result) := by
  rw [attachForeground]
  split
  · exact Or.inl ⟨_, _, rfl, by simp [Quiet]⟩
  · split
    · exact Or.inl ⟨_, _, rfl, by simp [Quiet]⟩
    · split
      · exact Or.inl ⟨_, _, rfl, by simp [Quiet]⟩
      · refine Or.inr ⟨.attempted attempt.listening :: .connected ::
          if !quiet && !replayed then [.printed []] else [], ?_, rfl⟩
        have blank := quiet_either (!quiet && !replayed) [.printed []] [] (by simp [Quiet]) (by simp)
        exact List.forall_mem_cons.mpr ⟨trivial, List.forall_mem_cons.mpr ⟨trivial, blank⟩⟩

theorem attach_proper (path : Text) (attempt : Attempt) (among : attempt ∈ attempts) :
    Proper detachChar replayed attempts
      (attachForeground chain path detachChar replayed quiet attempt).1 := by
  rcases attach_forms chain detachChar replayed quiet path attempt with
    ⟨effects, fault, form, quietly⟩ | ⟨before, first, form⟩
  · rw [form]
    exact proper_quiet detachChar replayed attempts effects quietly
  · rw [form]
    refine proper_append detachChar replayed attempts before _
      (proper_quiet detachChar replayed attempts before first) ?_
    exact proper_append detachChar replayed attempts [_] _
      (proper_exchange detachChar replayed attempts attempt among)
      (proper_quiet detachChar replayed attempts _ (closing_quiet quiet _))

theorem attach_finished (path : Text) (attempt : Attempt)
    (ended : (attachForeground chain path detachChar replayed quiet attempt).2 =
      .ok .sessionEnded) :
    Finished detachChar replayed quiet attempt
      (attachForeground chain path detachChar replayed quiet attempt).1 := by
  rcases attach_forms chain detachChar replayed quiet path attempt with
    ⟨effects, fault, form, _⟩ | ⟨before, _, form⟩
  · rw [form] at ended
    cases ended
  · rw [form] at ended ⊢
    have result : (loopOf detachChar replayed attempt).result = .ok .sessionEnded := ended
    have all := loop_shown (loopOf detachChar replayed attempt) result
    refine ⟨result, before, (loopOf detachChar replayed attempt).last.connWrite, ?_⟩
    simp only [result, all]
    cases quiet <;> rfl

theorem exit_code_ended (outcome : AttachOutcome)
    (code : exitCodeForOutcome outcome = exitSessionEnded) : outcome = .sessionEnded := by
  cases outcome with
  | sessionEnded => rfl
  | _ => cases code

theorem attached_proper (session path : Text) (attempt : Attempt) (among : attempt ∈ attempts) :
    Proper detachChar replayed attempts
      (cmdAttachReplayed chain session path detachChar replayed quiet attempt).1 := by
  have proper := attach_proper chain detachChar replayed quiet attempts path attempt among
  rw [cmdAttachReplayed]
  split
  · rename_i went
    rw [went] at proper
    exact proper
  · rename_i went
    rw [went] at proper
    exact proper_append detachChar replayed attempts _ _ proper
      (proper_quiet detachChar replayed attempts _ (by simp [Quiet]))

theorem attached_finished (session path : Text) (attempt : Attempt)
    (code : (cmdAttachReplayed chain session path detachChar replayed quiet attempt).2 =
      exitSessionEnded) :
    Finished detachChar replayed quiet attempt
      (cmdAttachReplayed chain session path detachChar replayed quiet attempt).1 := by
  have finished := attach_finished chain detachChar replayed quiet path attempt
  rw [cmdAttachReplayed] at code ⊢
  split at code
  · rename_i outcome went
    rw [went] at finished
    exact finished (congrArg Except.ok (exit_code_ended outcome code))
  · cases code

theorem created_proper (session : Text) (cmd : List Text) (among : around.second ∈ attempts) :
    Proper detachChar replayed attempts
      (cmdNewAfterReplay env chain logMaxSize detachChar quiet around session cmd replayed).1 := by
  have proper := attached_proper chain detachChar replayed quiet attempts session
    (socketPath env session) around.second among
  rw [cmdNewAfterReplay]
  split
  · exact proper_quiet detachChar replayed attempts _ (by simp [Quiet])
  · split
    · exact proper_quiet detachChar replayed attempts _ (by simp [Quiet])
    · exact proper_quiet detachChar replayed attempts _ (by simp [Quiet])
    · refine proper_append detachChar replayed attempts (.spawned _ :: _) _
        (proper_quiet detachChar replayed attempts _ ?_) proper
      exact List.forall_mem_cons.mpr
        ⟨trivial, quiet_either quiet [] [.printed _] (by simp) (by simp [Quiet])⟩

theorem created_finished (session : Text) (cmd : List Text)
    (code : (cmdNewAfterReplay env chain logMaxSize detachChar quiet around session cmd
      replayed).2 = exitSessionEnded) :
    Finished detachChar replayed quiet around.second
      (cmdNewAfterReplay env chain logMaxSize detachChar quiet around session cmd replayed).1 := by
  rw [cmdNewAfterReplay] at code ⊢
  split at code
  · cases code
  · split at code
    · cases code
    · cases code
    · exact finished_behind detachChar replayed quiet around.second (.spawned _ :: _) _
        (attached_finished chain detachChar replayed quiet session _ around.second code)

end Attaching

/-- What an invocation does with the history of its session and with its end. -/
structure Invoked (detachChar : Option UInt8) (quiet : Bool) (around : Surroundings)
    (shows : Bool) (effects : List Effect) (code : Nat) : Prop where
  history : ∃ rest, effects =
      (if shows then (replayLogToStdout around.log).1 else []) ++ rest ∧
    Proper detachChar (replayLogToStdout around.log).2 [around.first, around.second] rest
  finished : code = exitSessionEnded → ∃ attempt ∈ [around.first, around.second],
    Finished detachChar (replayLogToStdout around.log).2 quiet attempt effects

section Invoking

variable (env : Environment) (chain : Option Text) (logMaxSize : UInt64)
  (detachChar : Option UInt8) (quiet : Bool) (around : Surroundings)

theorem invoked_behind (shows : Bool) (effects rest : List Effect) (code : Nat)
    (attempt : Attempt) (among : attempt ∈ [around.first, around.second])
    (shape : effects = (if shows then (replayLogToStdout around.log).1 else []) ++ rest)
    (proper : Proper detachChar (replayLogToStdout around.log).2 [around.first, around.second] rest)
    (finished : code = exitSessionEnded →
      Finished detachChar (replayLogToStdout around.log).2 quiet attempt rest) :
    Invoked detachChar quiet around shows effects code where
  history := ⟨rest, shape, proper⟩
  finished := by
    intro ended
    rw [shape]
    exact ⟨attempt, among, finished_behind detachChar _ quiet attempt _ rest (finished ended)⟩

theorem first_among : around.first ∈ [around.first, around.second] := List.mem_cons_self

theorem second_among : around.second ∈ [around.first, around.second] :=
  List.mem_cons_of_mem _ List.mem_cons_self

theorem invoked_start (session : Text) (cmd : List Text) :
    Invoked detachChar quiet around false
      (cmdStart env logMaxSize quiet around session cmd).1
      (cmdStart env logMaxSize quiet around session cmd).2 := by
  have plain (effects : List Effect) (code : Nat) (quietly : ∀ effect ∈ effects, Quiet effect)
      (other : code ≠ exitSessionEnded) : Invoked detachChar quiet around false effects code :=
    invoked_behind detachChar quiet around false effects effects code around.first
      (first_among around) rfl (proper_quiet detachChar _ _ effects quietly)
      fun ended => absurd ended other
  rw [cmdStart]
  split
  · exact plain _ 1 (by simp [Quiet]) (by decide)
  · split
    · exact plain _ 1 (by simp [Quiet]) (by decide)
    · exact plain _ 1 (by simp [Quiet]) (by decide)
    · refine plain _ 0 ?_ (by decide)
      exact List.forall_mem_cons.mpr
        ⟨trivial, quiet_either quiet [] [.printed _] (by simp) (by simp [Quiet])⟩

theorem invoked_bare (session : Text) (cmd : List Text) :
    Invoked detachChar quiet around true
      (cmdDefault env chain logMaxSize detachChar quiet around (session :: cmd)).1
      (cmdDefault env chain logMaxSize detachChar quiet around (session :: cmd)).2 := by
  have attached := attach_proper chain detachChar (replayLogToStdout around.log).2 quiet
    [around.first, around.second] (socketPath env session) around.first (first_among around)
  have ended := attach_finished chain detachChar (replayLogToStdout around.log).2 quiet
    (socketPath env session) around.first
  have created := created_proper env chain logMaxSize detachChar (replayLogToStdout around.log).2
    quiet around [around.first, around.second] session cmd (second_among around)
  have finished := created_finished env chain logMaxSize detachChar
    (replayLogToStdout around.log).2 quiet around session cmd
  rw [cmdDefault]
  split
  · split
    · rename_i effects outcome went
      rw [went] at attached ended
      exact invoked_behind detachChar quiet around true _ effects _ around.first
        (first_among around) rfl attached
        fun code => ended (congrArg Except.ok (exit_code_ended outcome code))
    · rename_i effects fault went
      rw [went] at attached
      refine invoked_behind detachChar quiet around true _ _ _ around.second (second_among around)
        rfl (proper_append detachChar _ _ effects _ attached created) ?_
      exact fun code => finished_behind detachChar _ quiet around.second effects _ (finished code)
  · exact invoked_behind detachChar quiet around true _ _ _ around.second (second_among around)
      rfl created finished

end Invoking

/-- However the connects, the attach loops and the spawn of the invocation go: the log is
shown once at most and first, an attach that does not fail asks for the ring if and only if it
was not shown, and exit code 90 is the end of the session with all its output shown. -/
theorem history_shown_once (env : Environment) (chain : Option Text) (logMaxSize : UInt64)
    (detachChar : Option UInt8) (quiet : Bool) (around : Surroundings) (invocation : Invocation) :
    Invoked detachChar quiet around invocation.shows
      (invoke env chain logMaxSize detachChar quiet around invocation).1
      (invoke env chain logMaxSize detachChar quiet around invocation).2 := by
  cases invocation with
  | attach session =>
    exact invoked_behind detachChar quiet around true _ _ _ around.first (first_among around) rfl
      (attached_proper chain detachChar _ quiet _ session _ around.first (first_among around))
      (attached_finished chain detachChar _ quiet session _ around.first)
  | new session cmd =>
    exact invoked_behind detachChar quiet around true _ _ _ around.second (second_among around) rfl
      (created_proper env chain logMaxSize detachChar _ quiet around _ session cmd
        (second_among around))
      (created_finished env chain logMaxSize detachChar _ quiet around session cmd)
  | start session cmd => exact invoked_start env logMaxSize detachChar quiet around session cmd
  | bare rest =>
    cases rest with
    | nil =>
      exact invoked_behind detachChar quiet around false _ _ _ around.first (first_among around) rfl
        (proper_quiet detachChar _ _ _ (by simp [Quiet])) nofun
    | cons session cmd => exact invoked_bare env chain logMaxSize detachChar quiet around session cmd

end Hytch.Invocations
