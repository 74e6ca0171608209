import Mathlib.Logic.Function.Basic
import Mathlib.Logic.Relation
import Hytch.Runs
import Hytch.SessionNames

/-!
Sessions started inside sessions, and clients inside sessions attached to others.
The guard looks at the chain a session got when it was started; who is attached to
whom changes afterwards, and the guard does not see it. Along one line of nesting the
chains are all there is to see.
-/

namespace Hytch.AttachCycles

open Relation Runs SessionNames

section Acyclic

universe u
variable {Node : Type u}

def Acyclic (edge : Node → Node → Prop) : Prop := ∀ node, ¬ TransGen edge node node

theorem acyclic_of_rank (edge : Node → Node → Prop) (rank : Node → Nat)
    (upward : ∀ first second, edge first second → rank first < rank second) : Acyclic edge := by
  intro node cycle
  have above : TransGen (· < ·) (rank node) (rank node) := TransGen.lift rank upward node node cycle
  rw [transGen_eq_self] at above
  exact Nat.lt_irrefl _ above

end Acyclic

/-- The chain each live session's shell has in `HYTCH_SESSION`, by the path of the
session's socket, and for each client inside a session the one it is attached to. -/
structure Sessions where
  chain : Text → Option Text
  attached : List (Text × Text)

inductive Event where
  /-- `start` or `new`, from outside or from a shell inside a session. -/
  | start (origin : Option Text) (path : Text)
  | attach (inside target : Text)
  | detach (inside target : Text)

def noSessions : Sessions := { chain := fun _ => none, attached := [] }

/-- The value of `HYTCH_SESSION` at the place a command is run. -/
def inheritedChain (sessions : Sessions) : Option Text → Option (Option Text)
  | none => some none
  | some origin => (sessions.chain origin).map some

def step (sessions : Sessions) : Event → Option Sessions
  | .start origin path =>
      (inheritedChain sessions origin).bind fun inherited =>
        -- `build_spawn_request` refuses an empty name
        if path ≠ [] ∧ sessions.chain path = none then
          some { sessions with
            chain := Function.update sessions.chain path (some (extendAncestry inherited path)) }
        else none
  | .attach inside target =>
      (sessions.chain inside).bind fun chain =>
        if (sessions.chain target).isSome ∧ selfAttachError (some chain) target = none then
          some { sessions with attached := (inside, target) :: sessions.attached }
        else none
  | .detach inside target =>
      if (inside, target) ∈ sessions.attached then
        some { sessions with attached := sessions.attached.erase (inside, target) }
      else none

def Attached (sessions : Sessions) (inside target : Text) : Prop :=
  (inside, target) ∈ sessions.attached

def NoLoop (sessions : Sessions) : Prop := Acyclic (Attached sessions)

/-- One of the two sessions was started inside the other, as their chains have it. -/
def OneLine (sessions : Sessions) (first second : Text) : Prop :=
  ancestryContains (sessions.chain first) second = true ∨
    ancestryContains (sessions.chain second) first = true

/-- Paths without a colon, and no attach across the lines of nesting. -/
def WithinLine (sessions : Sessions) : Event → Prop
  | .start _ path => ':' ∉ path
  | .attach inside target => OneLine sessions inside target
  | .detach _ _ => True

def Event.sessions : Event → List Text
  | .start _ path => [path]
  | .attach inside target => [inside, target]
  | .detach inside target => [inside, target]

/-- An attach between sessions that the first event is about. -/
def Among (event later : Event) : Prop :=
  ∃ inside target, later = .attach inside target ∧ inside ∈ event.sessions ∧ target ∈ event.sessions

/-- What a step does, and what the guard has seen. -/
inductive SessionStep (sessions : Sessions) : Event → Sessions → Prop where
  | start {origin inherited : Option Text} {path : Text} (named : path ≠ [])
      (known : inheritedChain sessions origin = some inherited) (fresh : sessions.chain path = none) :
      SessionStep sessions (.start origin path) { sessions with
        chain := Function.update sessions.chain path (some (extendAncestry inherited path)) }
  | attach {inside target chain : Text} (known : sessions.chain inside = some chain)
      (there : (sessions.chain target).isSome = true)
      (foreign : ancestryContains (some chain) target = false) :
      SessionStep sessions (.attach inside target)
        { sessions with attached := (inside, target) :: sessions.attached }
  | detach {inside target : Text} (attached : Attached sessions inside target) :
      SessionStep sessions (.detach inside target)
        { sessions with attached := sessions.attached.erase (inside, target) }

theorem guard_permits_iff (chain : Option Text) (target : Text) :
    selfAttachError chain target = none ↔ ancestryContains chain target = false := by
  rw [selfAttachError]
  cases ancestryContains chain target <;> simp

theorem attach_permitted (sessions : Sessions) (inside target chain other : Text)
    (known : sessions.chain inside = some chain) (there : sessions.chain target = some other)
    (unseen : ancestryContains (some chain) target = false) :
    step sessions (.attach inside target) =
      some { sessions with attached := (inside, target) :: sessions.attached } := by
  simp [step, known, there, (guard_permits_iff _ _).mpr unseen]

theorem session_step_cases (sessions next : Sessions) (event : Event)
    (taken : step sessions event = some next) : SessionStep sessions event next := by
  cases event with
  | start origin path =>
    obtain ⟨inherited, known, taken⟩ := Option.bind_eq_some_iff.mp taken
    obtain ⟨⟨named, fresh⟩, same⟩ := Option.ite_none_right_eq_some.mp taken
    cases same
    exact .start named known fresh
  | attach inside target =>
    obtain ⟨chain, known, taken⟩ := Option.bind_eq_some_iff.mp taken
    obtain ⟨⟨there, permitted⟩, same⟩ := Option.ite_none_right_eq_some.mp taken
    cases same
    exact .attach known there ((guard_permits_iff _ _).mp permitted)
  | detach inside target =>
    obtain ⟨attached, same⟩ := Option.ite_none_right_eq_some.mp taken
    cases same
    exact .detach attached

theorem chain_kept (sessions next : Sessions) (event : Event) (path chain : Text)
    (known : sessions.chain path = some chain) (taken : step sessions event = some next) :
    next.chain path = some chain := by
  cases session_step_cases sessions next event taken with
  | @start origin inherited other named inherits fresh =>
    have different : path ≠ other := by
      rintro rfl
      rw [known] at fresh
      cases fresh
    exact (Function.update_of_ne different _ _).trans known
  | attach known' there foreign => exact known
  | detach attached => exact known

theorem contains_known (chain : Option Text) (target : Text)
    (contained : ancestryContains chain target = true) : ∃ whole, chain = some whole := by
  cases chain with
  | none => cases contained
  | some whole => exact ⟨whole, rfl⟩

theorem one_line_kept (sessions next : Sessions) (event : Event) (first second : Text)
    (line : OneLine sessions first second) (taken : step sessions event = some next) :
    OneLine next first second := by
  have contained (path outer : Text) (here : ancestryContains (sessions.chain path) outer = true) :
      ancestryContains (next.chain path) outer = true := by
    obtain ⟨chain, known⟩ := contains_known _ _ here
    rw [chain_kept sessions next event path chain known taken, ← known, here]
  exact line.imp (contained first second) (contained second first)

/-- A chain names the session itself and others that were started before it, whose chains are
shorter. And whoever is attached is attached to a session started inside its own. -/
structure Lined (sessions : Sessions) : Prop where
  named : ∀ path chain, sessions.chain path = some chain →
    ancestryContains (some chain) path = true
  outer : ∀ path chain target, sessions.chain path = some chain →
    ancestryContains (some chain) target = true → target = path ∨
      ∃ other, sessions.chain target = some other ∧ other.length < chain.length
  inward : ∀ inside target, Attached sessions inside target → inside ≠ target ∧
    ancestryContains (sessions.chain target) inside = true

def depth (sessions : Sessions) (path : Text) : Nat :=
  match sessions.chain path with
  | some chain => chain.length
  | none => 0

theorem lined_no_loop (sessions : Sessions) (lined : Lined sessions) : NoLoop sessions := by
  apply acyclic_of_rank _ (depth sessions)
  intro inside target attached
  obtain ⟨different, contained⟩ := lined.inward inside target attached
  obtain ⟨chain, known⟩ := contains_known _ _ contained
  rw [known] at contained
  obtain ⟨other, shorter, less⟩ := (lined.outer target chain inside known contained).resolve_left different
  simp only [depth, known, shorter, less]

/-- What a new session finds in the chain it inherits. -/
theorem inherited_outer (sessions : Sessions) (lined : Lined sessions) (origin inherited : Option Text)
    (path target : Text) (known : inheritedChain sessions origin = some inherited)
    (contained : ancestryContains inherited target = true) :
    ∃ other, sessions.chain target = some other ∧
      other.length < (extendAncestry inherited path).length := by
  cases origin with
  | none =>
    cases known
    cases contained
  | some host =>
    obtain ⟨chain, hosted, rfl⟩ := Option.map_eq_some_iff.mp known
    have longer : chain.length < (extendAncestry (some chain) path).length := by
      have held : nonEmpty (some chain) = some chain := by
        have named := lined.named host chain hosted
        rw [ancestryContains] at named
        cases whole : nonEmpty (some chain) with
        | none =>
          rw [whole] at named
          cases named
        | some same => rw [Option.filter_eq_some_iff.mp whole |>.1]
      simp only [extendAncestry, held, List.length_append, List.length_cons]
      omega
    rcases lined.outer host chain target hosted contained with rfl | ⟨other, known, less⟩
    · exact ⟨chain, hosted, longer⟩
    · exact ⟨other, known, Nat.lt_trans less longer⟩

theorem lined_step (sessions next : Sessions) (event : Event) (lined : Lined sessions)
    (within : WithinLine sessions event) (taken : step sessions event = some next) : Lined next := by
  cases session_step_cases sessions next event taken with
  | @start origin inherited path held known fresh =>
    have plain : Plain path := ⟨held, within⟩
    have elsewhere (other chain : Text) (there : sessions.chain other = some chain) : other ≠ path := by
      rintro rfl
      rw [there] at fresh
      cases fresh
    constructor
    · intro other chain there
      by_cases same : other = path
      · subst same
        cases (Function.update_self _ _ _).symm.trans there
        exact (extend_contains_iff inherited _ _ plain).mpr (.inr rfl)
      · exact lined.named other chain ((Function.update_of_ne same _ _).symm.trans there)
    · intro other chain target there contained
      have further {shorter : Text} (below : sessions.chain target = some shorter) :
          Function.update sessions.chain path (some (extendAncestry inherited path)) target =
            some shorter :=
        (Function.update_of_ne (elsewhere target shorter below) _ _).trans below
      by_cases same : other = path
      · subst same
        cases (Function.update_self _ _ _).symm.trans there
        rcases (extend_contains_iff inherited _ _ plain).mp contained with before | itself
        · obtain ⟨shorter, below, less⟩ := inherited_outer sessions lined origin inherited _ target known before
          exact .inr ⟨shorter, further below, less⟩
        · exact .inl itself
      · have before := (Function.update_of_ne same _ _).symm.trans there
        exact (lined.outer other chain target before contained).imp_right
          fun ⟨shorter, below, less⟩ => ⟨shorter, further below, less⟩
    · intro inside target attached
      obtain ⟨different, contained⟩ := lined.inward inside target attached
      obtain ⟨chain, there⟩ := contains_known _ _ contained
      refine ⟨different, ?_⟩
      rw [chain_kept sessions _ _ target chain there taken, ← there, contained]
  | @attach inside target chain known there foreign =>
    refine ⟨lined.named, lined.outer, ?_⟩
    intro first second attached
    rcases List.mem_cons.mp attached with new | old
    · obtain ⟨rfl, rfl⟩ := Prod.mk.inj new
      constructor
      · rintro rfl
        rw [lined.named _ chain known] at foreign
        cases foreign
      · rw [WithinLine, OneLine, known, foreign] at within
        exact within.resolve_left Bool.false_ne_true
    · exact lined.inward first second old
  | detach attached =>
    exact ⟨lined.named, lined.outer, fun inside target still =>
      lined.inward inside target (List.mem_of_mem_erase still)⟩

theorem no_sessions_lined : Lined noSessions := by
  constructor
  · intro path chain known
    cases known
  · intro path chain target known
    cases known
  · intro inside target attached
    cases attached

/-- Sessions of one line, and nothing across any. -/
structure Sheltered (line : List Text) (sessions : Sessions) : Prop where
  lined : Lined sessions
  oneLine : ∀ first ∈ line, ∀ second ∈ line, OneLine sessions first second

section Exact

variable (sessions next : Sessions) (event : Event) (lined : Lined sessions)
  (taken : step sessions event = some next)
include lined taken

theorem among_one_line (within : WithinLine sessions event) (first second : Text)
    (one : first ∈ event.sessions) (other : second ∈ event.sessions) : OneLine next first second := by
  have itself (path chain : Text) (known : sessions.chain path = some chain) :
      OneLine sessions path path := .inl (by rw [known]; exact lined.named path chain known)
  have pair (inside target chain : Text) (known : sessions.chain inside = some chain)
      (there : ∃ chain, sessions.chain target = some chain) (line : OneLine sessions inside target)
      (one : first ∈ [inside, target]) (other : second ∈ [inside, target]) :
      OneLine next first second := by
    obtain ⟨reached, there⟩ := there
    apply one_line_kept sessions next event first second _ taken
    simp only [List.mem_cons, List.not_mem_nil, or_false] at one other
    rcases one with rfl | rfl <;> rcases other with rfl | rfl
    · exact itself _ chain known
    · exact line
    · exact line.symm
    · exact itself _ reached there
  have kept := lined_step sessions next event lined within taken
  cases session_step_cases sessions next event taken with
  | @start origin inherited path named known fresh =>
    rw [List.mem_singleton.mp one, List.mem_singleton.mp other]
    have begun := Function.update_self path (some (extendAncestry inherited path)) sessions.chain
    exact .inl ((congrArg (ancestryContains · path) begun).trans (kept.named path _ begun))
  | @attach inside target chain known there foreign =>
    exact pair inside target chain known (Option.isSome_iff_exists.mp there) within one other
  | @detach inside target attached =>
    obtain ⟨different, contained⟩ := lined.inward inside target attached
    obtain ⟨reached, there⟩ := contains_known _ _ contained
    have within : ancestryContains (some reached) inside = true := by rw [← there, contained]
    obtain ⟨chain, known, _⟩ := (lined.outer target reached inside there within).resolve_left different
    exact pair inside target chain known ⟨reached, there⟩ (.inr contained) one other

theorem among_no_loop (within : WithinLine sessions event) (more : List Event) (later : Sessions)
    (among : ∀ other ∈ more, Among event other) (ran : run step next more = some later) :
    NoLoop later := by
  have sheltered : Sheltered event.sessions later := by
    refine run_guarded_invariant step (fun _ other => Among event other)
      (fun _ => Sheltered event.sessions) ?_ [] more next later ?_
      (meets_of_forall step (Among event) next more among) ran
    · rintro past state _ after ⟨lined, line⟩ ⟨inside, target, rfl, one, other⟩ moved
      constructor
      · exact lined_step state after (.attach inside target) lined (line inside one target other) moved
      · intro first here second there
        exact one_line_kept state after _ first second (line first here second there) moved
    · constructor
      · exact lined_step sessions next event lined within taken
      · intro first one second other
        exact among_one_line sessions next event lined taken within first second one other
  exact lined_no_loop later sheltered.lined

/-- A step that does not keep to a line leaves a way to build one. -/
theorem across_loops (across : ¬ WithinLine sessions event) :
    ∃ more later, (∀ other ∈ more, Among event other) ∧ run step next more = some later ∧
      ¬ NoLoop later := by
  cases session_step_cases sessions next event taken with
  | @start origin inherited path named known fresh =>
    have colon : ':' ∈ path := not_not.mp across
    have begun := Function.update_self path (some (extendAncestry inherited path)) sessions.chain
    have unseen : ancestryContains (some (extendAncestry inherited path)) path = false := by
      rw [Bool.eq_false_iff]
      intro contained
      rcases (extend_contains_segment_iff inherited path path named).mp contained with before | piece
      · obtain ⟨other, there, _⟩ := inherited_outer sessions lined origin inherited path path known before
        rw [there] at fresh
        cases fresh
      · exact SplitPieces.piece_free ':' path path piece colon
    let started : Sessions := { sessions with
      chain := Function.update sessions.chain path (some (extendAncestry inherited path)) }
    have permitted := attach_permitted started path path _ _ begun begun unseen
    refine ⟨[.attach path path],
      { started with attached := (path, path) :: started.attached }, ?_, ?_, ?_⟩
    · simp [Among, Event.sessions]
    · rw [run, permitted]
      rfl
    · exact fun no_loop => no_loop path (.single List.mem_cons_self)
  | @attach inside target chain known there foreign =>
    obtain ⟨reached, there⟩ := Option.isSome_iff_exists.mp there
    have unseen : ancestryContains (some reached) inside = false := by
      rw [Bool.eq_false_iff, ← there]
      exact fun contained => across (.inr contained)
    let attached : Sessions :=
      { sessions with attached := (inside, target) :: sessions.attached }
    have permitted := attach_permitted attached target inside reached chain there known unseen
    refine ⟨[.attach target inside],
      { attached with attached := (target, inside) :: attached.attached }, ?_, ?_, ?_⟩
    · simp [Among, Event.sessions]
    · rw [run, permitted]
      rfl
    · intro no_loop
      refine no_loop inside (.tail (.single (b := target) ?_) List.mem_cons_self)
      exact List.mem_cons_of_mem _ List.mem_cons_self
  | detach attached => exact absurd trivial across

end Exact

/-- Along the lines of nesting the guard keeps any number of sessions free of loops, in every order
of starts, attaches and detaches. And there alone: one step across them, and the guard permits
attaches between the sessions of that step that build a loop. -/
theorem no_loop_within_lines (events : List Event) (last : Sessions)
    (ran : run step noSessions events = some last) (met : Meets step WithinLine noSessions events) :
    Throughout step NoLoop noSessions events ∧
      ∀ event next, step last event = some next → (WithinLine last event ↔
        ∀ more later, (∀ other ∈ more, Among event other) → run step next more = some later →
          NoLoop later) := by
  have throughout := throughout_of_meets step WithinLine Lined lined_step noSessions last events
    no_sessions_lined met ran
  constructor
  · exact fun past state before reached => lined_no_loop state (throughout past state before reached)
  · intro event next taken
    have lined := throughout events last (List.prefix_refl events) ran
    constructor
    · exact fun within more later among went =>
        among_no_loop last next event lined taken within more later among went
    · intro harmless
      by_contra across
      obtain ⟨more, later, among, went, loop⟩ := across_loops last next event lined taken across
      exact loop (harmless more later among went)

/-- A session inside another, and a client of the outer one attached to it; a third session beside
them. -/
theorem no_loop_within_lines_nested : ∃ last,
    run step noSessions [.start none ['a'], .start (some ['a']) ['b'], .attach ['a'] ['b'],
      .start none ['c']] = some last ∧
    Throughout step NoLoop noSessions [.start none ['a'], .start (some ['a']) ['b'],
      .attach ['a'] ['b'], .start none ['c']] ∧
    ∀ event next, step last event = some next → (WithinLine last event ↔
      ∀ more later, (∀ other ∈ more, Among event other) → run step next more = some later →
        NoLoop later) := by
  refine ⟨_, rfl, no_loop_within_lines _ _ rfl ?_⟩
  refine meets_cons step WithinLine _ _ _ _ rfl (by decide : ':' ∉ ['a']) ?_
  refine meets_cons step WithinLine _ _ _ _ rfl (by decide : ':' ∉ ['b']) ?_
  refine meets_cons step WithinLine _ _ _ _ rfl (.inr (by decide)) ?_
  exact meets_cons step WithinLine _ _ _ _ rfl (by decide : ':' ∉ ['c']) trivial

/-- The guard permits the way back as well: neither session is in the other's chain. And
a colon in a path hides the session from its own chain. -/
theorem attach_loop_permitted :
    (∃ last, run step noSessions [.start none ['a'], .start none ['b'],
        .attach ['a'] ['b'], .attach ['b'] ['a']] = some last ∧ ¬ NoLoop last) ∧
      ∃ last, run step noSessions [.start none ['a', ':', 'b'],
        .attach ['a', ':', 'b'] ['a', ':', 'b']] = some last ∧ ¬ NoLoop last := by
  constructor
  · refine ⟨_, rfl, fun no_loop => no_loop ['a'] ?_⟩
    refine TransGen.tail (show TransGen _ ['a'] ['b'] from .single ?_) ?_
    · exact List.mem_cons_of_mem _ List.mem_cons_self
    · exact List.mem_cons_self
  · refine ⟨_, rfl, fun no_loop => no_loop ['a', ':', 'b'] (.single ?_)⟩
    exact List.mem_cons_self

end Hytch.AttachCycles
