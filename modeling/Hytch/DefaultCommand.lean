import Hytch.AttachLoop
import Hytch.SpawnRequests

/-!
The bare command, `cmd_default`: attach, or else create the session and attach to it.
What the commands meet, from the connect to the whole run of the attach loop, is given;
what they do to the world is listed in order.
-/

namespace Hytch.DefaultCommand

open AttachLoop Runs SessionNames SpawnRequests

structure LoopRun (opts : AttachOptions) where
  input : List UInt8
  connRead : List UInt8
  resizeEvents : List (UInt16 × UInt16)
  events : List AttachEvent
  last : Attach
  result : Except IoError AttachOutcome
  ran : run (Attach.step opts) (Attach.start input connRead resizeEvents) events = some last
  ended : last.phase = match result with
    | .ok outcome => .returned outcome
    | .error fault => .failed fault

/-- What one `attach_foreground` meets. -/
structure Attempt where
  /-- A daemon listens on the socket path when the attach is attempted. -/
  listening : Bool
  connect : Except IoError Unit
  /-- Nobody else accepts a connection. -/
  accepted : connect = .ok () → listening = true
  isTty : Bool
  rawMode : Except IoError Unit
  size : Option (UInt16 × UInt16)
  /-- The loop goes on from any options it is given. -/
  loop : (opts : AttachOptions) → LoopRun opts

/-- What `spawn_detached` meets: no process, or one and what is heard of it. -/
inductive Spawning where
  | notCreated (fault : IoError)
  | created (outcome : Except IoError Unit)

structure Surroundings where
  /-- What reading the log gives. -/
  log : Except IoError (List UInt8)
  pathExists : Bool
  first : Attempt
  spawning : Spawning
  /-- The attach to what has been created. -/
  second : Attempt

inductive Effect where
  /-- On the terminal, before the attach. -/
  | replayed (bytes : List UInt8)
  | printed (text : Text)
  | attempted (listening : Bool)
  | connected
  /-- What the attach loop has sent and shown. -/
  | exchanged (sent shown : List UInt8)
  | spawned (req : SpawnRequest)

def preReplayReset : List UInt8 :=
  [0x1b, 0x5b, 0x21, 0x70, 0x1b, 0x5b, 0x30, 0x6d, 0x1b, 0x5b, 0x3f, 0x31, 0x30, 0x34, 0x39, 0x6c,
    0x1b, 0x5b, 0x3f, 0x32, 0x35, 0x68]

def replayLogToStdout : Except IoError (List UInt8) → List Effect × Bool
  | .ok [] => ([], false)
  | .ok bytes => ([.replayed (preReplayReset ++ bytes)], true)
  | .error _ => ([], false)

def Attempt.options (attempt : Attempt) (detachChar : Option UInt8) (replayed : Bool) :
    AttachOptions :=
  let size := if attempt.isTty then attempt.size.getD (24, 80) else (24, 80)
  { detachChar
    suspendChar := none
    redrawMethod := .winch
    rows := size.1
    cols := size.2
    skipRing := replayed }

def attachForeground (chain : Option Text) (path : Text) (detachChar : Option UInt8)
    (replayed quiet : Bool) (attempt : Attempt) :
    List Effect × Except IoError AttachOutcome :=
  match selfAttachError chain path with
  | some fault => ([.attempted attempt.listening], .error fault)
  | none =>
      match attempt.connect with
      | .error fault => ([.attempted attempt.listening], .error fault)
      | .ok () =>
          match if attempt.isTty then attempt.rawMode else .ok () with
          | .error fault => ([.attempted attempt.listening, .connected], .error fault)
          | .ok () =>
              let loop := attempt.loop (attempt.options detachChar replayed)
              let blank : List Effect := if !quiet && !replayed then [.printed []] else []
              let farewell : List Effect :=
                match quiet, loop.result with
                | false, .ok .sessionEnded => [.printed "hytch: session ended".toList]
                | _, _ => []
              (.attempted attempt.listening :: .connected ::
                (blank ++ .exchanged loop.last.connWrite loop.last.output :: farewell), loop.result)

def exitSessionEnded : Nat := 90

def exitCodeForOutcome : AttachOutcome → Nat
  | .sessionEnded => exitSessionEnded
  | .detached | .suspended | .inputClosed => 0

def connectErrorText (name : Text) (fault : IoError) : Text :=
  match fault.kind with
  | .notFound => "hytch: session '".toList ++ name ++ "' does not exist".toList
  | .connectionRefused => "hytch: session '".toList ++ name ++ "' is not running".toList
  | _ => "hytch: ".toList ++ name ++ ": ".toList ++ fault.message.toList

/-- The exit code behind the effects. -/
def cmdAttachReplayed (chain : Option Text) (session path : Text) (detachChar : Option UInt8)
    (replayed quiet : Bool) (attempt : Attempt) : List Effect × Nat :=
  match attachForeground chain path detachChar replayed quiet attempt with
  | (effects, .ok outcome) => (effects, exitCodeForOutcome outcome)
  | (effects, .error fault) => (effects ++ [.printed (connectErrorText session fault)], 1)

section Commands

variable (env : Environment) (chain : Option Text) (logMaxSize : UInt64)
  (detachChar : Option UInt8) (quiet : Bool) (around : Surroundings)

def cmdNewAfterReplay (session : Text) (cmd : List Text) (replayed : Bool) : List Effect × Nat :=
  match buildSpawnRequest env session cmd logMaxSize with
  | .error message => ([.printed ("hytch: ".toList ++ message)], 1)
  | .ok req =>
      match around.spawning with
      | .notCreated fault =>
          ([.printed ("hytch: ".toList ++ session ++ ": ".toList ++ fault.message.toList)], 1)
      | .created (.error fault) =>
          ([.spawned req,
            .printed ("hytch: ".toList ++ session ++ ": ".toList ++ fault.message.toList)], 1)
      | .created (.ok ()) =>
          let news : List Effect := if quiet then []
            else [.printed ("hytch: session '".toList ++ session ++ "' created".toList)]
          let attached := cmdAttachReplayed chain session (socketPath env session) detachChar
            replayed quiet around.second
          (.spawned req :: (news ++ attached.1), attached.2)

def cmdDefault : List Text → List Effect × Nat
  | [] => ([.printed "hytch: a session name is required. Try `hytch --help`.".toList], 1)
  | session :: cmd =>
      let replay := replayLogToStdout around.log
      let created := cmdNewAfterReplay env chain logMaxSize detachChar quiet around session cmd
        replay.2
      if around.pathExists then
        match attachForeground chain (socketPath env session) detachChar replay.2 quiet
          around.first with
        | (effects, .ok outcome) => (replay.1 ++ effects, exitCodeForOutcome outcome)
        -- whatever the error
        | (effects, .error _) => (replay.1 ++ (effects ++ created.1), created.2)
      else (replay.1 ++ created.1, created.2)

/-- No spawn behind an attempt at a listening daemon, and neither a spawn nor another
attempt behind an established attach. -/
def MayFollow : Effect → Effect → Prop
  | .attempted true, .spawned _ => False
  | .connected, .spawned _ => False
  | .connected, .attempted _ => False
  | _, _ => True

def CreatesOnlyWhenIdle (effects : List Effect) : Prop := effects.Pairwise MayFollow

/-- One of the points at which an attach can fail. -/
inductive AttachFails (path : Text) (replayed : Bool) (attempt : Attempt) : Prop where
  | fromWithin (inside : ancestryContains chain path = true)
  | connecting (fault : IoError) (refused : attempt.connect = .error fault)
  | rawMode (fault : IoError) (tty : attempt.isTty = true) (refused : attempt.rawMode = .error fault)
  | inLoop (fault : IoError)
      (broken : (attempt.loop (attempt.options detachChar replayed)).result = .error fault)

/-- A daemon listens, the attach fails nevertheless, and a session can be created. -/
structure Doubles (session : Text) (cmd : List Text) : Prop where
  exists_ : around.pathExists = true
  listening : around.first.listening = true
  fails : AttachFails chain detachChar (socketPath env session) (replayLogToStdout around.log).2
    around.first
  accepted : ∃ req, buildSpawnRequest env session cmd logMaxSize = .ok req
  created : ∃ outcome, around.spawning = .created outcome

end Commands

section Effects

def Harmless : Effect → Prop
  | .attempted _ => False
  | .spawned _ => False
  | _ => True

theorem harmless_follows (earlier later : Effect) (harmless : Harmless later) :
    MayFollow earlier later := by
  cases later with
  | attempted listening => exact harmless.elim
  | spawned req => exact harmless.elim
  | _ => cases earlier <;> simp only [MayFollow]

theorem harmless_pairwise (effects : List Effect) (harmless : ∀ effect ∈ effects, Harmless effect) :
    effects.Pairwise MayFollow := by
  induction effects with
  | nil => exact List.Pairwise.nil
  | cons effect rest ih =>
    refine List.pairwise_cons.mpr ⟨fun later member => ?_, ih fun later member => ?_⟩
    · exact harmless_follows effect later (harmless later (List.mem_cons_of_mem _ member))
    · exact harmless later (List.mem_cons_of_mem _ member)

theorem printed_harmless (text : Text) : ∀ effect ∈ [Effect.printed text], Harmless effect := by
  intro effect member
  rw [List.mem_singleton.mp member]
  trivial

theorem idle_leads (earlier later : Effect) (unheard : earlier ≠ .attempted true)
    (unconnected : earlier ≠ .connected) : MayFollow earlier later := by
  cases earlier with
  | attempted listening =>
    cases listening with
    | true => exact absurd rfl unheard
    | false => cases later <;> simp only [MayFollow]
  | connected => exact absurd rfl unconnected
  | _ => cases later <;> simp only [MayFollow]

variable (chain : Option Text) (path : Text) (detachChar : Option UInt8) (replayed quiet : Bool)
  (attempt : Attempt)

/-- An attempt is announced, and what comes behind it spawns nothing and attempts no more. -/
theorem attach_shape :
    ∃ tail, (attachForeground chain path detachChar replayed quiet attempt).1 =
        .attempted attempt.listening :: tail ∧
      (∀ effect ∈ tail, Harmless effect) ∧ (.connected ∈ tail → attempt.connect = .ok ()) := by
  rw [attachForeground]
  split
  case h_1 => exact ⟨[], rfl, nofun, nofun⟩
  case h_2 =>
    split
    case h_1 => exact ⟨[], rfl, nofun, nofun⟩
    case h_2 connected =>
      split
      case h_1 =>
        refine ⟨[.connected], rfl, fun effect member => ?_, fun _ => connected⟩
        rw [List.mem_singleton.mp member]
        trivial
      case h_2 =>
        refine ⟨_, rfl, ?_, fun _ => connected⟩
        rw [List.forall_mem_cons, List.forall_mem_append, List.forall_mem_cons]
        refine ⟨trivial, ?_, trivial, ?_⟩
        · split
          · exact printed_harmless _
          · exact nofun
        · split
          · exact printed_harmless _
          · exact nofun

theorem attach_fails_iff :
    (∃ fault, (attachForeground chain path detachChar replayed quiet attempt).2 = .error fault) ↔
      AttachFails chain detachChar path replayed attempt := by
  rw [attachForeground, selfAttachError]
  cases inside : ancestryContains chain path with
  | true => exact iff_of_true ⟨_, rfl⟩ (.fromWithin inside)
  | false =>
    rw [if_neg Bool.false_ne_true]
    cases connected : attempt.connect with
    | error fault => exact iff_of_true ⟨_, rfl⟩ (.connecting fault connected)
    | ok _ =>
      simp only
      split
      case h_1 fault raw =>
        refine iff_of_true ⟨_, rfl⟩ ?_
        split at raw
        case isTrue tty => exact .rawMode fault tty raw
        case isFalse => cases raw
      case h_2 raw =>
        constructor
        · rintro ⟨fault, broken⟩
          exact .inLoop fault broken
        · intro fails
          cases fails with
          | fromWithin within =>
            rw [inside] at within
            cases within
          | connecting fault refused =>
            rw [connected] at refused
            cases refused
          | rawMode fault tty refused =>
            rw [if_pos tty, refused] at raw
            cases raw
          | inLoop fault broken => exact ⟨fault, broken⟩

theorem attach_pairwise :
    (attachForeground chain path detachChar replayed quiet attempt).1.Pairwise MayFollow := by
  obtain ⟨tail, shape, harmless, _⟩ :=
    attach_shape chain path detachChar replayed quiet attempt
  rw [shape]
  refine List.pairwise_cons.mpr ⟨fun later member => ?_, harmless_pairwise tail harmless⟩
  exact harmless_follows _ later (harmless later member)

end Effects

section Creation

variable (env : Environment) (chain : Option Text) (logMaxSize : UInt64)
  (detachChar : Option UInt8) (quiet : Bool) (around : Surroundings)

theorem replayed_pairwise (session path : Text) (replayed : Bool) (attempt : Attempt) :
    (cmdAttachReplayed chain session path detachChar replayed quiet attempt).1.Pairwise
      MayFollow := by
  have kept := attach_pairwise chain path detachChar replayed quiet attempt
  rw [cmdAttachReplayed]
  split
  case h_1 effects outcome attached =>
    rw [attached] at kept
    exact kept
  case h_2 effects fault attached =>
    rw [attached] at kept
    refine List.pairwise_append.mpr ⟨kept, List.pairwise_singleton _ _, ?_⟩
    intro earlier _ later member
    exact harmless_follows earlier later (printed_harmless _ later member)

theorem creation_cases (session : Text) (cmd : List Text) (replayed : Bool) :
    ((∃ req, buildSpawnRequest env session cmd logMaxSize = .ok req) ∧
        (∃ outcome, around.spawning = .created outcome) ∧
        ∃ req tail, (cmdNewAfterReplay env chain logMaxSize detachChar quiet around session cmd
          replayed).1 = .spawned req :: tail ∧ tail.Pairwise MayFollow) ∨
      (¬ ((∃ req, buildSpawnRequest env session cmd logMaxSize = .ok req) ∧
          ∃ outcome, around.spawning = .created outcome) ∧
        ∀ effect ∈ (cmdNewAfterReplay env chain logMaxSize detachChar quiet around session cmd
          replayed).1, Harmless effect) := by
  rw [cmdNewAfterReplay]
  cases built : buildSpawnRequest env session cmd logMaxSize with
  | error message =>
    refine Or.inr ⟨?_, printed_harmless _⟩
    rintro ⟨⟨req, known⟩, _⟩
    cases known
  | ok req =>
    cases spawning : around.spawning with
    | notCreated fault =>
      refine Or.inr ⟨?_, printed_harmless _⟩
      rintro ⟨_, outcome, known⟩
      cases known
    | created outcome =>
      refine Or.inl ⟨⟨req, rfl⟩, ⟨outcome, rfl⟩, req, ?_⟩
      cases outcome with
      | error fault => exact ⟨_, rfl, List.pairwise_singleton _ _⟩
      | ok _ =>
        refine ⟨_, rfl, List.pairwise_append.mpr ⟨?_, ?_, ?_⟩⟩
        · split
          · exact List.Pairwise.nil
          · exact List.pairwise_singleton _ _
        · exact replayed_pairwise chain detachChar quiet session _ replayed around.second
        · intro earlier member later _
          split at member
          · cases member
          · rw [List.mem_singleton.mp member]
            exact idle_leads _ later nofun nofun

theorem creation_pairwise (session : Text) (cmd : List Text) (replayed : Bool) :
    (cmdNewAfterReplay env chain logMaxSize detachChar quiet around session cmd
      replayed).1.Pairwise MayFollow := by
  rcases creation_cases env chain logMaxSize detachChar quiet around session cmd replayed with
    ⟨_, _, req, tail, shape, kept⟩ | ⟨_, harmless⟩
  · rw [shape]
    exact List.pairwise_cons.mpr ⟨fun later _ => idle_leads _ later nofun nofun, kept⟩
  · exact harmless_pairwise _ harmless

theorem replay_leads (log : Except IoError (List UInt8)) (effects : List Effect) :
    ((replayLogToStdout log).1 ++ effects).Pairwise MayFollow ↔ effects.Pairwise MayFollow := by
  cases log with
  | error fault => exact Iff.rfl
  | ok bytes =>
    cases bytes with
    | nil => exact Iff.rfl
    | cons byte rest =>
      exact List.pairwise_cons.trans (and_iff_right fun later _ => idle_leads _ later nofun nofun)

/-- Behind a failed attach a session may be created only if nobody listens. -/
theorem fall_through_iff (path session : Text) (cmd : List Text) (replayed : Bool) :
    ((attachForeground chain path detachChar replayed quiet around.first).1 ++
        (cmdNewAfterReplay env chain logMaxSize detachChar quiet around session cmd
          replayed).1).Pairwise MayFollow ↔
      ¬ (around.first.listening = true ∧
        (∃ req, buildSpawnRequest env session cmd logMaxSize = .ok req) ∧
        ∃ outcome, around.spawning = .created outcome) := by
  obtain ⟨tail, attached, harmless, connected⟩ :=
    attach_shape chain path detachChar replayed quiet around.first
  have before := attach_pairwise chain path detachChar replayed quiet around.first
  have after := creation_pairwise env chain logMaxSize detachChar quiet around session cmd replayed
  rcases creation_cases env chain logMaxSize detachChar quiet around session cmd replayed with
    ⟨accepted, created, req, later, shape, _⟩ | ⟨impossible, quietly⟩
  · rw [List.pairwise_append]
    constructor
    · rintro ⟨_, _, across⟩ ⟨listening, _⟩
      have spawns := across (.attempted around.first.listening) (by rw [attached]; exact List.mem_cons_self)
        (.spawned req) (by rw [shape]; exact List.mem_cons_self)
      rw [listening] at spawns
      exact spawns
    · intro idle
      have unheard : around.first.listening ≠ true := fun listening =>
        idle ⟨listening, accepted, created⟩
      refine ⟨before, after, fun earlier member effect _ => ?_⟩
      rw [attached] at member
      rcases List.mem_cons.mp member with rfl | member
      · exact idle_leads _ effect (fun same => unheard (Effect.attempted.inj same)) nofun
      · refine idle_leads earlier effect ?_ ?_
        · rintro rfl
          exact (harmless _ member).elim
        · rintro rfl
          exact unheard (around.first.accepted (connected member))
  · refine iff_of_true (List.pairwise_append.mpr ⟨before, after, ?_⟩) fun doubles =>
      impossible doubles.2
    exact fun earlier _ effect member => harmless_follows earlier effect (quietly effect member)

/-- For every way an attach can go. -/
theorem creates_only_when_idle_iff (rest : List Text) :
    CreatesOnlyWhenIdle (cmdDefault env chain logMaxSize detachChar quiet around rest).1 ↔
      ∀ session cmd, rest = session :: cmd →
        ¬ Doubles env chain logMaxSize detachChar around session cmd := by
  cases rest with
  | nil => exact iff_of_true (List.pairwise_singleton _ _) nofun
  | cons session cmd =>
    have only : (∀ session' cmd', session :: cmd = session' :: cmd' →
        ¬ Doubles env chain logMaxSize detachChar around session' cmd') ↔
        ¬ Doubles env chain logMaxSize detachChar around session cmd := by
      constructor
      · exact fun each => each session cmd rfl
      · rintro not_ _ _ ⟨rfl, rfl⟩
        exact not_
    rw [only]
    have fails := attach_fails_iff chain (socketPath env session) detachChar
      (replayLogToStdout around.log).2 quiet around.first
    have turns := fall_through_iff env chain logMaxSize detachChar quiet around
      (socketPath env session) session cmd (replayLogToStdout around.log).2
    have attached := attach_pairwise chain (socketPath env session) detachChar
      (replayLogToStdout around.log).2 quiet around.first
    simp only [CreatesOnlyWhenIdle, cmdDefault]
    cases there : around.pathExists with
    | false =>
      rw [if_neg Bool.false_ne_true, replay_leads]
      refine iff_of_true (creation_pairwise env chain logMaxSize detachChar quiet around session cmd _)
        fun doubles => ?_
      have exists_ := doubles.exists_
      rw [there] at exists_
      cases exists_
    | true =>
      rw [if_pos rfl]
      split
      case h_1 effects outcome went =>
        rw [went] at fails attached
        rw [replay_leads]
        refine iff_of_true attached fun doubles => ?_
        obtain ⟨fault, broken⟩ := fails.mpr doubles.fails
        cases broken
      case h_2 effects fault went =>
        rw [went] at fails turns
        rw [replay_leads, turns]
        constructor
        · exact fun idle doubles => idle ⟨doubles.listening, doubles.accepted, doubles.created⟩
        · rintro not_ ⟨listening, accepted, created⟩
          exact not_ ⟨there, listening, fails.mp ⟨fault, rfl⟩, accepted, created⟩

end Creation

/-- The connection is lost behind the handshake. -/
def lostLoop (opts : AttachOptions) : LoopRun opts where
  input := []
  connRead := []
  resizeEvents := []
  events := [.handshake, .handshake, .fails [] brokenPipe]
  last := { ((Attach.start [] [] []).send (.attach opts.skipRing)).send
    (.redraw opts.redrawMethod opts.rows opts.cols) with phase := .failed brokenPipe }
  result := .error brokenPipe
  ran := by simp [run, Attach.step, Attach.start, Attach.send]
  ended := rfl

def lostAttempt : Attempt where
  listening := true
  connect := .ok ()
  accepted := fun _ => rfl
  isTty := false
  rawMode := .ok ()
  size := none
  loop := lostLoop

/-- The connection is lost while attached, and again at the second attach. -/
def lostTwice : Surroundings where
  log := .ok []
  pathExists := true
  first := lostAttempt
  spawning := .created (.ok ())
  second := lostAttempt

def nobody : Environment := { home := none, uid := 65534, shell := none, terminal := none }

/-- A user who was attached gets another session spawned and is attached again. -/
theorem lost_attach_doubles :
    (∃ req sent other, (cmdDefault nobody none 0 none true lostTwice [['s', 'e', 's']]).1 =
      [.attempted true, .connected, .exchanged sent [], .spawned req,
        .attempted true, .connected, .exchanged other [],
        .printed "hytch: ses: Broken pipe (os error 32)".toList]) ∧
      ¬ CreatesOnlyWhenIdle (cmdDefault nobody none 0 none true lostTwice [['s', 'e', 's']]).1 := by
  have effects : ∃ req sent other, (cmdDefault nobody none 0 none true lostTwice [['s', 'e', 's']]).1 =
      [.attempted true, .connected, .exchanged sent [], .spawned req,
        .attempted true, .connected, .exchanged other [],
        .printed "hytch: ses: Broken pipe (os error 32)".toList] := ⟨_, _, _, rfl⟩
  refine ⟨effects, fun pairwise => ?_⟩
  obtain ⟨req, sent, other, shape⟩ := effects
  rw [CreatesOnlyWhenIdle, shape] at pairwise
  exact (List.pairwise_cons.mp pairwise).1 (.spawned req) (by simp)

end Hytch.DefaultCommand
