import Mathlib.Data.Char
import Mathlib.Data.List.Lex
import Mathlib.Data.List.Sort
import Hytch.PathComponents
import Hytch.SessionsApart

/-!
`commands::list` on the session directory. One pass over the sorted entries lists what
does not look hidden or like a log, a second one the logs without a session.
-/

namespace Hytch.SessionList

open FileDirectory PathComponents Runs SessionDirectory SessionNames SessionsApart SpawnRequests

inductive Label where
  | running
  | stale
  | exited
deriving DecidableEq

def Label.text : Label → Text
  | .running => "[running]".toList
  | .stale => "[stale]".toList
  | .exited => "[exited]".toList

inductive Output where
  | line (name : Text) (label : Label)
  | noSessions
  | error (message : Text)
deriving DecidableEq

/-- `{name:<24}`. -/
def padded (name : Text) : Text := name ++ List.replicate (24 - name.length) ' '

def Output.text : Output → Text
  | .line name label => padded name ++ ' ' :: label.text
  | .noSessions => "(no sessions)".toList
  | .error message => "hytch: ".toList ++ message

/-- `starts_with('.') || ends_with(".log")`. -/
def hidden (name : Text) : Bool := name.head? == some '.' || decide (logSuffix <:+ name)

/-- `strip_suffix(".log")`. -/
def stripLog (name : Text) : Option Text :=
  if logSuffix <:+ name then some (name.take (name.length - logSuffix.length)) else none

/-- `session_dir.join(base).exists()`: without a name of its own this is the directory
or the one above it. -/
def existsIn (world : World) (dir base : Text) : Bool :=
  base == [] || base == ['.'] || base == ['.', '.'] || (world.dir.entries (join dir base)).isSome

def liveLine (world : World) (dir name : Text) : Option Output :=
  if hidden name then none
  else some (.line name (if world.listens (join dir name) then .running else .stale))

def exitedLine (world : World) (dir name : Text) : Option Output :=
  match stripLog name with
  | none => none
  | some base => if existsIn world dir base then none else some (.line base .exited)

def lines (world : World) (dir : Text) (entries : List Text) (showAll : Bool) : List Output :=
  let names := entries.insertionSort (· ≤ ·)
  names.filterMap (liveLine world dir) ++
    if showAll then names.filterMap (exitedLine world dir) else []

/-- `entries` is what reading the directory gives; what is printed, and the exit code. -/
def list (world : World) (dir : Text) (entries : Except IoError (List Text))
    (showAll quiet : Bool) : List Output × Nat :=
  match entries with
  | .error fault =>
      if fault.kind = .notFound then (if !quiet then [.noSessions] else [], 0)
      else ([.error (dir ++ ": ".toList ++ fault.message.toList)], 1)
  | .ok names =>
      let found := lines world dir names showAll
      (if found.isEmpty && !quiet then [.noSessions] else found, 0)

/-- Every entry once, in any order; the directory may not have been made yet. -/
def Reads (env : Environment) (world : World) : Except IoError (List Text) → Prop
  | .ok names => names.Nodup ∧ ∀ name, name ∈ names ↔
      isValidBareName name = true ∧ (world.dir.entries (socketPath env name)).isSome = true
  | .error fault => fault.kind = .notFound ∧ ∀ name, isValidBareName name = true →
      world.dir.entries (socketPath env name) = none

def HasSocket (env : Environment) (world : World) (name : Text) : Prop :=
  ∃ owner, world.dir.entries (socketPath env name) = some (.socket owner)

def HasLog (env : Environment) (world : World) (name : Text) : Prop :=
  ∃ inode, world.dir.entries (logPathFor (socketPath env name)) = some (.file inode)

def Expected (env : Environment) (world : World) (showAll : Bool) (name : Text) : Label → Prop
  | .running => HasSocket env world name ∧ world.listens (socketPath env name) = true
  | .stale => HasSocket env world name ∧ world.listens (socketPath env name) = false
  | .exited => showAll = true ∧ HasLog env world name ∧ ¬ HasSocket env world name

def Output.name : Output → Option Text
  | .line name _ => some name
  | _ => none

/-- One line for each session that should have one, and no other. -/
def ListsEachOnce (env : Environment) (world : World) (entries : Except IoError (List Text)) :
    Prop :=
  ∀ showAll quiet,
    (((list world (sessionDir env) entries showAll quiet).1).filterMap Output.name).Nodup ∧
    ∀ name label, .line name label ∈ (list world (sessionDir env) entries showAll quiet).1 ↔
      isValidBareName name = true ∧ Expected env world showAll name label

/-- No socket is hidden or looks like a log, and no log is where the socket of a session
with a log would be. -/
def Unambiguous (env : Environment) (world : World) : Prop :=
  (∀ name, isValidBareName name = true → HasSocket env world name → hidden name = false) ∧
    ∀ name inode, isValidBareName name = true →
      world.dir.entries (socketPath env name) = some (.file inode) → ¬ HasLog env world name

/-- `start` with a name for the session directory. -/
def BareStart : Event → Prop
  | .start _ session _ _ => session.contains '/' = false
  | _ => True

section Names

theorem strip_log_iff (name base : Text) : stripLog name = some base ↔ name = base ++ logSuffix := by
  rw [stripLog]
  constructor
  · intro stripped
    split at stripped
    case isTrue ends =>
      cases stripped
      obtain ⟨front, rfl⟩ := ends
      simp
    case isFalse => cases stripped
  · rintro rfl
    rw [if_pos (List.suffix_append _ _)]
    simp

theorem valid_log_name (name : Text) (valid : isValidBareName name = true) :
    isValidBareName (name ++ logSuffix) = true := by
  have free := (solid_of_bare name valid).2
  refine (bare_iff _).mpr ⟨solid_of_long _ (by simp [logSuffix]), ?_⟩
  have suffix_free : '/' ∉ logSuffix := by decide
  simp [free, suffix_free]

theorem log_entry (env : Environment) (name : Text) (valid : isValidBareName name = true) :
    socketPath env (name ++ logSuffix) = logPathFor (socketPath env name) :=
  suffixed_socket_path env name valid (valid_log_name name valid)

theorem socket_path_inj (env : Environment) (one other : Text)
    (valid : isValidBareName one = true) (validOther : isValidBareName other = true)
    (same : socketPath env one = socketPath env other) : one = other := by
  obtain ⟨stem, bare⟩ := bare_socket_path env
  rw [bare one valid, bare other validOther] at same
  exact List.append_cancel_left same

theorem log_hidden (name : Text) : hidden (name ++ logSuffix) = true := by
  have ends : logSuffix <:+ name ++ logSuffix := List.suffix_append _ _
  simp [hidden, ends]

end Names

section Worlds

/-- What is in the directory when sessions have only been started by bare names. -/
structure BareWorld (env : Environment) (world : World) : Prop where
  consistent : Consistent world
  files : ∀ path inode, world.dir.entries path = some (.file inode) →
    ∃ name, isValidBareName name = true ∧ path = logPathFor (socketPath env name)
  daemons : ∀ pid daemon, world.daemons pid = some daemon →
    ∃ name, isValidBareName name = true ∧ daemon.req.socketPath = socketPath env name

theorem open_path_files (world : World) (pid : Nat) (daemon : Daemon) (path other : Text)
    (inode : Nat)
    (found : (world.openPath pid daemon path).dir.entries other = some (.file inode)) :
    world.dir.entries other = some (.file inode) ∨ other = path := by
  unfold World.openPath at found
  split at found
  · rcases updated_some _ _ _ _ _ found with ⟨same, _⟩ | ⟨_, older⟩
    · exact Or.inr same
    · exact Or.inl older
  · exact Or.inl found
  · exact Or.inl found

theorem plain_files (dir : Directory Text (List UInt8)) (path other : Text)
    (entry : Option Entry) (plain : ∀ inode, entry ≠ some (.file inode)) (inode : Nat)
    (found : (dir.setPlain path entry plain).entries other = some (.file inode)) :
    dir.entries other = some (.file inode) := by
  rcases updated_some _ _ _ _ _ found with ⟨_, file⟩ | ⟨_, older⟩
  · exact absurd file (plain inode)
  · exact older

theorem remove_files (dir : Directory Text (List UInt8)) (path other : Text) (inode : Nat)
    (found : (dir.remove path).entries other = some (.file inode)) :
    dir.entries other = some (.file inode) :=
  plain_files dir path other none (by simp) inode found

theorem bind_files (dir : Directory Text (List UInt8)) (path other : Text) (owner inode : Nat)
    (found : (dir.bind path owner).entries other = some (.file inode)) :
    dir.entries other = some (.file inode) :=
  plain_files dir path other (some (.socket owner)) (by simp) inode found

/-- The one place where a daemon makes a file is its log's. -/
theorem daemon_files (world next : World) (pid : Nat) (daemon : Daemon) (event : DaemonEvent)
    (taken : world.daemonStep pid daemon event = some next) (path : Text) (inode : Nat)
    (found : next.dir.entries path = some (.file inode)) :
    world.dir.entries path = some (.file inode) ∨ path ∈ daemon.req.logPath := by
  cases daemon_move world next pid daemon event taken with
  | turns moved =>
    rw [moved] at found
    exact Or.inl found
  | @opens logPath _ named moved =>
    rw [moved] at found
    rcases open_path_files world pid daemon logPath path inode found with older | rfl
    · exact Or.inl older
    · exact Or.inr named
  | writes _ _ _ moved =>
    rw [moved] at found
    exact Or.inl found
  | holds _ _ _ moved =>
    rw [moved] at found
    exact Or.inl found
  | binds _ moved =>
    rw [moved] at found
    exact Or.inl (bind_files world.dir _ path pid inode found)
  | unlinks _ moved =>
    rw [moved] at found
    exact Or.inl (remove_files world.dir _ path inode found)

theorem bare_empty (env : Environment) : BareWorld env World.empty where
  consistent := empty_consistent
  files := nofun
  daemons := nofun

theorem kill_keeps (world : World) (path : Text) (code : Nat) :
    (world.kill path code).dir = world.dir ∧
      ∀ pid daemon, (world.kill path code).daemons pid = some daemon →
        ∃ before, world.daemons pid = some before ∧ before.req = daemon.req := by
  rcases kill_cases world path code with same | ⟨owner, held, _, known, told⟩
  · rw [same]
    exact ⟨rfl, fun pid daemon found => ⟨daemon, found, rfl⟩⟩
  · rw [told]
    refine ⟨rfl, fun pid daemon found => ?_⟩
    rcases updated_some _ _ _ _ _ found with ⟨rfl, new⟩ | ⟨_, older⟩
    · cases new
      exact ⟨held, known, rfl⟩
    · exact ⟨daemon, older, rfl⟩

theorem clear_keeps (world : World) (logPath name : Text) (quiet : Bool) :
    (world.clear logPath name quiet).dir.entries = world.dir.entries ∧
      (world.clear logPath name quiet).daemons = world.daemons := by
  rcases clear_cases world logPath name quiet with same | ⟨inode, content, _, written⟩
  · rw [same]
    exact ⟨rfl, rfl⟩
  · rw [written]
    exact ⟨rfl, rfl⟩

theorem rm_keeps (world : World) (socketPath logPath name : Text) (quiet : Bool) :
    (∀ path inode, (world.rm socketPath logPath name quiet).1.dir.entries path =
        some (.file inode) → world.dir.entries path = some (.file inode)) ∧
      (world.rm socketPath logPath name quiet).1.daemons = world.daemons := by
  rw [rm_world]
  split
  · exact ⟨fun path inode found => found, rfl⟩
  · exact ⟨fun path inode found =>
      remove_files _ _ path inode (remove_files _ _ path inode found), rfl⟩

theorem command_files (env : Environment) (world next : World) (event : Event)
    (command : ∀ pid event', event ≠ .daemon pid event')
    (taken : world.step env event = some next) (path : Text) (inode : Nat)
    (found : next.dir.entries path = some (.file inode)) :
    world.dir.entries path = some (.file inode) := by
  cases event with
  | start pid session cmd logMaxSize =>
    simp only [World.step] at taken
    split at taken <;> cases taken <;> exact found
  | daemon pid event => exact absurd rfl (command pid event)
  | kill session code =>
    cases taken
    cases code with
    | none => exact found
    | some code => rwa [Option.elim_some, (kill_keeps world (socketPath env session) code).1] at found
  | clear session quiet =>
    cases taken
    rwa [(clear_keeps world (logPathFor (socketPath env session)) session quiet).1] at found
  | rm session quiet =>
    cases taken
    exact (rm_keeps world _ _ _ _).1 path inode found
  | reboot =>
    cases taken
    exact found

theorem step_daemons (env : Environment) (world next : World) (event : Event)
    (bare : BareWorld env world) (start : BareStart event)
    (taken : world.step env event = some next) (pid : Nat) (daemon : Daemon)
    (found : next.daemons pid = some daemon) :
    ∃ name, isValidBareName name = true ∧ daemon.req.socketPath = socketPath env name := by
  cases event with
  | start other session cmd logMaxSize =>
    simp only [World.step] at taken
    split at taken
    case h_1 => cases taken; exact bare.daemons pid daemon found
    case h_2 req built _ =>
      cases taken
      rcases updated_some _ _ _ _ _ found with ⟨_, new⟩ | ⟨_, older⟩
      · cases new
        obtain ⟨named, socket, _⟩ := built_cases env session cmd logMaxSize req built
        have plain : session.contains '/' = false := start
        rw [plain] at named
        exact ⟨session, named.resolve_left Bool.false_ne_true, socket⟩
      · exact bare.daemons pid daemon older
    case h_3 => cases taken
  | daemon other event =>
    obtain ⟨held, known, taken⟩ := Option.bind_eq_some_iff.mp taken
    have step := daemon_step world next other held event (bare.consistent.logPaths other held known)
      (bare.consistent.logs other held known) taken
    obtain ⟨later, daemons, req, _⟩ := step.daemons
    rw [daemons] at found
    rcases updated_some _ _ _ _ _ found with ⟨_, new⟩ | ⟨_, older⟩
    · cases new
      rw [req]
      exact bare.daemons other held known
    · exact bare.daemons pid daemon older
  | kill session code =>
    cases taken
    cases code with
    | none => exact bare.daemons pid daemon found
    | some code =>
      rw [Option.elim_some] at found
      obtain ⟨before, known, asked⟩ := (kill_keeps world _ code).2 pid daemon found
      rw [← asked]
      exact bare.daemons pid before known
  | clear session quiet =>
    cases taken
    rw [(clear_keeps world (logPathFor (socketPath env session)) session quiet).2] at found
    exact bare.daemons pid daemon found
  | rm session quiet =>
    cases taken
    rw [(rm_keeps world _ _ _ _).2] at found
    exact bare.daemons pid daemon found
  | reboot =>
    cases taken
    obtain ⟨held, known, rfl⟩ := Option.map_eq_some_iff.mp found
    exact bare.daemons pid held known

theorem bare_step (env : Environment) (world next : World) (event : Event)
    (bare : BareWorld env world) (start : BareStart event)
    (taken : world.step env event = some next) : BareWorld env next where
  consistent := (step_confined env world bare.consistent next event taken).1
  daemons := fun pid daemon found => step_daemons env world next event bare start taken pid daemon found
  files := by
    intro path inode found
    by_cases daemons : ∃ pid event', event = .daemon pid event'
    · obtain ⟨pid, event, rfl⟩ := daemons
      obtain ⟨daemon, known, acts⟩ := Option.bind_eq_some_iff.mp taken
      rcases daemon_files world next pid daemon event acts path inode found with older | logs
      · exact bare.files path inode older
      · obtain ⟨name, valid, socket⟩ := bare.daemons pid daemon known
        exact ⟨name, valid, by rw [bare.consistent.logPaths pid daemon known path logs, socket]⟩
    · have command : ∀ pid event', event ≠ .daemon pid event' := fun pid event' same =>
        daemons ⟨pid, event', same⟩
      exact bare.files path inode (command_files env world next event command taken path inode found)

theorem bare_run (env : Environment) (history : List Event) (world : World)
    (starts : ∀ event ∈ history, BareStart event)
    (ran : run (World.step env) World.empty history = some world) : BareWorld env world :=
  run_guarded_invariant (World.step env) (fun _ event => BareStart event)
    (fun _ world => BareWorld env world)
    (fun _ world event next bare start taken => bare_step env world next event bare start taken)
    [] history World.empty world (bare_empty env)
    (meets_of_forall (World.step env) BareStart World.empty history starts) ran

end Worlds

section Lines

variable (env : Environment) (world : World)

def entryNames : Except IoError (List Text) → List Text
  | .ok names => names
  | .error _ => []

theorem reads_names (entries : Except IoError (List Text)) (reads : Reads env world entries) :
    (entryNames entries).Nodup ∧ ∀ name, name ∈ entryNames entries ↔
      isValidBareName name = true ∧ (world.dir.entries (socketPath env name)).isSome = true := by
  cases entries with
  | ok names => exact reads
  | error fault =>
    refine ⟨List.nodup_nil, fun name => iff_of_false List.not_mem_nil ?_⟩
    rintro ⟨valid, there⟩
    rw [reads.2 name valid] at there
    cases there

/-- What is printed is the lines, or that there are none. -/
theorem list_cases (entries : Except IoError (List Text)) (reads : Reads env world entries)
    (dir : Text) (showAll quiet : Bool) :
    (list world dir entries showAll quiet).1 = lines world dir (entryNames entries) showAll ∨
      (lines world dir (entryNames entries) showAll = [] ∧
        (list world dir entries showAll quiet).1 = [.noSessions]) := by
  cases entries with
  | ok names =>
    simp only [list, entryNames]
    split
    case isTrue none_ =>
      rw [Bool.and_eq_true, List.isEmpty_iff] at none_
      exact Or.inr ⟨none_.1, rfl⟩
    case isFalse => exact Or.inl rfl
  | error fault =>
    have nothing : lines world dir [] showAll = [] := by cases showAll <;> rfl
    simp only [list, entryNames, if_pos reads.1, nothing]
    cases quiet
    · exact Or.inr ⟨trivial, rfl⟩
    · exact Or.inl rfl

/-- The property without what is printed around the lines. -/
def LinesOnce (entries : List Text) : Prop :=
  ∀ showAll, ((lines world (sessionDir env) entries showAll).filterMap Output.name).Nodup ∧
    ∀ name label, .line name label ∈ lines world (sessionDir env) entries showAll ↔
      isValidBareName name = true ∧ Expected env world showAll name label

theorem lists_each_once_iff (entries : Except IoError (List Text))
    (reads : Reads env world entries) :
    ListsEachOnce env world entries ↔ LinesOnce env world (entryNames entries) := by
  have printed : ∀ showAll quiet,
      ((list world (sessionDir env) entries showAll quiet).1).filterMap Output.name =
        (lines world (sessionDir env) (entryNames entries) showAll).filterMap Output.name ∧
      ∀ name label, .line name label ∈ (list world (sessionDir env) entries showAll quiet).1 ↔
        .line name label ∈ lines world (sessionDir env) (entryNames entries) showAll := by
    intro showAll quiet
    rcases list_cases env world entries reads (sessionDir env) showAll quiet with
      same | ⟨none_, alone⟩
    · rw [same]
      exact ⟨rfl, fun _ _ => Iff.rfl⟩
    · rw [none_, alone]
      exact ⟨rfl, fun name label => by simp⟩
  constructor
  · intro each showAll
    obtain ⟨names, members⟩ := printed showAll true
    obtain ⟨nodup, exact⟩ := each showAll true
    rw [names] at nodup
    exact ⟨nodup, fun name label => (members name label).symm.trans (exact name label)⟩
  · intro each showAll quiet
    obtain ⟨names, members⟩ := printed showAll quiet
    obtain ⟨nodup, exact⟩ := each showAll
    rw [names]
    exact ⟨nodup, fun name label => (members name label).trans (exact name label)⟩

theorem socket_path_join (name : Text) (valid : isValidBareName name = true) :
    join (sessionDir env) name = socketPath env name :=
  (bare_path (sessionDir env) name valid).symm

theorem live_line_iff (entries : List Text) (name : Text) (label : Label) :
    .line name label ∈ (entries.insertionSort (· ≤ ·)).filterMap (liveLine world (sessionDir env)) ↔
      name ∈ entries ∧ hidden name = false ∧
        label = if world.listens (join (sessionDir env) name) then .running else .stale := by
  rw [List.mem_filterMap]
  constructor
  · rintro ⟨entry, member, shown⟩
    rw [liveLine] at shown
    split at shown
    · cases shown
    · rename_i open_
      cases shown
      exact ⟨(List.mem_insertionSort _).mp member, by simpa using open_, rfl⟩
  · rintro ⟨member, open_, rfl⟩
    exact ⟨name, (List.mem_insertionSort _).mpr member, by rw [liveLine, open_]; rfl⟩

theorem exited_line_iff (entries : List Text) (name : Text) (label : Label) :
    .line name label ∈
        (entries.insertionSort (· ≤ ·)).filterMap (exitedLine world (sessionDir env)) ↔
      name ++ logSuffix ∈ entries ∧ existsIn world (sessionDir env) name = false ∧
        label = .exited := by
  rw [List.mem_filterMap]
  constructor
  · rintro ⟨entry, member, shown⟩
    rw [exitedLine] at shown
    split at shown
    · cases shown
    · rename_i base stripped
      split at shown
      · cases shown
      · rename_i absent
        cases shown
        rw [strip_log_iff] at stripped
        subst stripped
        exact ⟨(List.mem_insertionSort _).mp member, by simpa using absent, rfl⟩
  · rintro ⟨member, absent, rfl⟩
    refine ⟨name ++ logSuffix, (List.mem_insertionSort _).mpr member, ?_⟩
    rw [exitedLine, (strip_log_iff _ _).mpr rfl]
    simp [absent]

theorem lines_iff (entries : List Text) (showAll : Bool) (name : Text) (label : Label) :
    .line name label ∈ lines world (sessionDir env) entries showAll ↔
      (name ∈ entries ∧ hidden name = false ∧
        label = if world.listens (join (sessionDir env) name) then .running else .stale) ∨
      (showAll = true ∧ name ++ logSuffix ∈ entries ∧
        existsIn world (sessionDir env) name = false ∧ label = .exited) := by
  rw [lines]
  simp only [List.mem_append, live_line_iff]
  cases showAll with
  | true => simp only [if_true, exited_line_iff, true_and]
  | false => simp

/-- The names of the two passes. -/
def liveName (name : Text) : Option Text := if hidden name then none else some name

def exitedName (dir name : Text) : Option Text :=
  (stripLog name).bind fun base => if existsIn world dir base then none else some base

theorem line_names (dir : Text) (entries : List Text) (showAll : Bool) :
    (lines world dir entries showAll).filterMap Output.name =
      (entries.insertionSort (· ≤ ·)).filterMap liveName ++
        if showAll then (entries.insertionSort (· ≤ ·)).filterMap (exitedName world dir) else [] := by
  have live : (fun name => (liveLine world dir name).bind Output.name) = liveName := by
    funext name
    rw [liveLine, liveName]
    split <;> rfl
  have exited : (fun name => (exitedLine world dir name).bind Output.name) =
      exitedName world dir := by
    funext name
    rw [exitedLine, exitedName]
    cases stripLog name with
    | none => rfl
    | some base =>
      simp only [Option.bind_some]
      split <;> rfl
  rw [lines]
  simp only [List.filterMap_append, List.filterMap_filterMap, live]
  cases showAll with
  | true => simp only [if_true, List.filterMap_filterMap, exited]
  | false => rfl

/-- A name without an entry is in neither list twice, and in one of them only. -/
theorem line_names_nodup (entries : List Text) (showAll : Bool) (once : entries.Nodup)
    (there : ∀ name ∈ entries, isValidBareName name = true ∧
      (world.dir.entries (socketPath env name)).isSome = true) :
    ((lines world (sessionDir env) entries showAll).filterMap Output.name).Nodup := by
  have sorted : (entries.insertionSort (· ≤ ·)).Nodup :=
    (List.perm_insertionSort _ entries).nodup_iff.mpr once
  have firsts : ((entries.insertionSort (· ≤ ·)).filterMap liveName).Nodup := by
    refine List.Nodup.filterMap ?_ sorted
    intro one other name first second
    simp only [liveName, Option.mem_def, Option.ite_none_left_eq_some, Option.some.injEq] at first second
    rw [first.2, second.2]
  have seconds : ((entries.insertionSort (· ≤ ·)).filterMap
      (exitedName world (sessionDir env))).Nodup := by
    refine List.Nodup.filterMap ?_ sorted
    intro one other name first second
    obtain ⟨base, stripped, shown⟩ := Option.bind_eq_some_iff.mp first
    obtain ⟨base', stripped', shown'⟩ := Option.bind_eq_some_iff.mp second
    rw [Option.ite_none_left_eq_some, Option.some.injEq] at shown shown'
    rw [(strip_log_iff _ _).mp stripped, (strip_log_iff _ _).mp stripped', shown.2, shown'.2]
  rw [line_names]
  cases showAll with
  | false => simpa using firsts
  | true =>
    rw [if_pos rfl]
    refine List.nodup_append.mpr ⟨firsts, seconds, ?_⟩
    rintro name live _ exited rfl
    obtain ⟨entry, member, shown⟩ := List.mem_filterMap.mp live
    obtain ⟨_, _, other⟩ := List.mem_filterMap.mp exited
    obtain ⟨base, _, absent⟩ := Option.bind_eq_some_iff.mp other
    rw [liveName, Option.ite_none_left_eq_some, Option.some.injEq] at shown
    rw [Option.ite_none_left_eq_some, Option.some.injEq] at absent
    obtain ⟨valid, present⟩ := there entry ((List.mem_insertionSort _).mp member)
    obtain ⟨absent, rfl⟩ := absent
    rw [shown.2] at valid present
    simp [existsIn, socket_path_join env base valid, present] at absent

end Lines

section Exactness

variable (env : Environment) (world : World)

theorem exists_in_valid (name : Text) (valid : isValidBareName name = true) :
    existsIn world (sessionDir env) name = (world.dir.entries (socketPath env name)).isSome := by
  obtain ⟨⟨loud, dots⟩, _⟩ := solid_of_bare name valid
  simp only [silent, Bool.or_eq_false_iff] at loud
  have up : (name == ['.', '.']) = false := beq_eq_false_iff_ne.mpr dots
  rw [existsIn, loud.1, loud.2, up, socket_path_join env name valid, Bool.false_or, Bool.false_or,
    Bool.false_or]

theorem present_cases (bare : BareWorld env world) (name : Text)
    (valid : isValidBareName name = true)
    (present : (world.dir.entries (socketPath env name)).isSome = true) :
    HasSocket env world name ∨ ((∃ inode, world.dir.entries (socketPath env name) =
      some (.file inode)) ∧ hidden name = true) := by
  obtain ⟨entry, found⟩ := Option.isSome_iff_exists.mp present
  cases entry with
  | socket owner => exact Or.inl ⟨owner, found⟩
  | file inode =>
    -- a file is a log, and so is its name
    obtain ⟨other, validOther, path⟩ := bare.files _ inode found
    rw [← log_entry env other validOther] at path
    have same := socket_path_inj env name _ valid (valid_log_name other validOther) path
    refine Or.inr ⟨⟨inode, found⟩, ?_⟩
    rw [same]
    exact log_hidden other

theorem unambiguous_of_lines (entries : List Text) (each : LinesOnce env world entries) :
    Unambiguous env world := by
  constructor
  · intro name valid socket
    have expected : Expected env world false name
        (if world.listens (socketPath env name) then .running else .stale) := by
      cases heard : world.listens (socketPath env name) with
      | true => exact ⟨socket, heard⟩
      | false => exact ⟨socket, heard⟩
    have shown := ((each false).2 name _).mpr ⟨valid, expected⟩
    rcases (lines_iff env world entries false name _).mp shown with ⟨_, open_, _⟩ | ⟨all, _⟩
    · exact open_
    · cases all
  · intro name inode valid file log
    have unbound : ¬ HasSocket env world name := by
      rintro ⟨owner, socket⟩
      rw [file] at socket
      cases socket
    have shown := ((each true).2 name .exited).mpr ⟨valid, rfl, log, unbound⟩
    rcases (lines_iff env world entries true name .exited).mp shown with
      ⟨_, _, label⟩ | ⟨_, _, absent, _⟩
    · split at label <;> cases label
    · rw [exists_in_valid env world name valid, file] at absent
      cases absent

variable (bare : BareWorld env world) (entries : List Text)
  (there : ∀ name, name ∈ entries ↔
    isValidBareName name = true ∧ (world.dir.entries (socketPath env name)).isSome = true)
  (clear : Unambiguous env world)

include bare there clear

theorem shown_expected (showAll : Bool) (name : Text) (label : Label)
    (shown : .line name label ∈ lines world (sessionDir env) entries showAll) :
    isValidBareName name = true ∧ Expected env world showAll name label := by
  rcases (lines_iff env world entries showAll name label).mp shown with
    ⟨member, open_, rfl⟩ | ⟨all, member, absent, rfl⟩
  · obtain ⟨valid, present⟩ := (there name).mp member
    refine ⟨valid, ?_⟩
    rw [socket_path_join env name valid]
    rcases present_cases env world bare name valid present with socket | ⟨_, closed⟩
    · cases heard : world.listens (socketPath env name) with
      | true => exact ⟨socket, heard⟩
      | false => exact ⟨socket, heard⟩
    · rw [open_] at closed
      cases closed
  · obtain ⟨validLog, present⟩ := (there _).mp member
    have valid : isValidBareName name = true := by
      have free : '/' ∉ name := fun slash =>
        (solid_of_bare _ validLog).2 (List.mem_append_left _ slash)
      simp only [existsIn, Bool.or_eq_false_iff] at absent
      refine (bare_iff name).mpr ⟨⟨?_, ?_⟩, free⟩
      · rw [silent, absent.1.1.1, absent.1.1.2]
        rfl
      · exact beq_eq_false_iff_ne.mp absent.1.2
    rw [exists_in_valid env world name valid] at absent
    refine ⟨valid, all, ?_, ?_⟩
    · rcases present_cases env world bare _ validLog present with socket | ⟨⟨inode, file⟩, _⟩
      · have seen := clear.1 _ validLog socket
        rw [log_hidden] at seen
        cases seen
      · exact ⟨inode, by rwa [log_entry env name valid] at file⟩
    · rintro ⟨owner, socket⟩
      rw [socket] at absent
      cases absent

omit bare in
theorem expected_shown (showAll : Bool) (name : Text) (label : Label)
    (valid : isValidBareName name = true) (expected : Expected env world showAll name label) :
    .line name label ∈ lines world (sessionDir env) entries showAll := by
  have live : HasSocket env world name → name ∈ entries ∧ hidden name = false := by
    rintro ⟨owner, socket⟩
    exact ⟨(there name).mpr ⟨valid, by rw [socket]; rfl⟩, clear.1 name valid ⟨owner, socket⟩⟩
  rw [lines_iff, socket_path_join env name valid]
  cases label with
  | running =>
    obtain ⟨member, open_⟩ := live expected.1
    exact Or.inl ⟨member, open_, by rw [expected.2]; rfl⟩
  | stale =>
    obtain ⟨member, open_⟩ := live expected.1
    exact Or.inl ⟨member, open_, by rw [expected.2]; rfl⟩
  | exited =>
    obtain ⟨all, ⟨inode, log⟩, unbound⟩ := expected
    have logEntry := log_entry env name valid
    refine Or.inr ⟨all, (there _).mpr ⟨valid_log_name name valid, by rw [logEntry, log]; rfl⟩, ?_,
      rfl⟩
    rw [exists_in_valid env world name valid]
    cases found : world.dir.entries (socketPath env name) with
    | none => rfl
    | some entry =>
      cases entry with
      | socket owner => exact absurd ⟨owner, found⟩ unbound
      | file other => exact absurd ⟨inode, log⟩ (clear.2 name other valid found)

end Exactness

section LoneSessions

variable (env : Environment) (world : World) (name : Text)
  (alone : world.dir.entries = Function.update (fun _ => none) (socketPath env name) (some (.socket 0)))

include alone

theorem lone_entry (path : Text) (entry : Entry) (found : world.dir.entries path = some entry) :
    path = socketPath env name ∧ entry = .socket 0 := by
  rw [alone] at found
  rcases updated_some _ _ _ _ _ found with ⟨same, socket⟩ | ⟨_, nothing⟩
  · exact ⟨same, (Option.some.inj socket).symm⟩
  · cases nothing

theorem lone_reads (valid : isValidBareName name = true) : Reads env world (.ok [name]) := by
  refine ⟨List.nodup_singleton name, fun other => ?_⟩
  rw [List.mem_singleton]
  constructor
  · rintro rfl
    refine ⟨valid, ?_⟩
    rw [alone, Function.update_self]
    rfl
  · rintro ⟨validOther, present⟩
    obtain ⟨entry, found⟩ := Option.isSome_iff_exists.mp present
    exact socket_path_inj env other name validOther valid (lone_entry env world name alone _ entry found).1

theorem lone_unambiguous (valid : isValidBareName name = true) (open_ : hidden name = false) :
    Unambiguous env world := by
  constructor
  · rintro other validOther ⟨owner, socket⟩
    have same := socket_path_inj env other name validOther valid
      (lone_entry env world name alone _ _ socket).1
    rwa [same]
  · intro other inode _ file
    cases (lone_entry env world name alone _ _ file).2

end LoneSessions

theorem served_starts (name : Text) (bare : name.contains '/' = false) :
    ∀ event ∈ servedHistory name, BareStart event := by
  intro event member
  simp only [servedHistory, launchHistory, List.cons_append, List.nil_append, List.mem_cons,
    List.not_mem_nil, or_false] at member
  rcases member with rfl | rfl | rfl | rfl | rfl
  · exact bare
  all_goals trivial

end Hytch.SessionList
