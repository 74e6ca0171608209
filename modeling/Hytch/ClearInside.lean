import Hytch.AncestryChains
import Hytch.ClearLog
import Hytch.DisplayNames
import Hytch.FileDirectory

/-!
`clear` without a name, inside a session. The name it goes by is what the chain in
`HYTCH_SESSION` is displayed as. Files are kept under the components of their paths, so
two spellings of one path are one file.
-/

namespace Hytch.ClearInside

open AncestryChains DisplayNames FileDirectory PathComponents SessionNames SpawnRequests
open SplitPieces

abbrev Files := Directory (List Component) (List UInt8)

def noSuchFile : IoError := { kind := .notFound, message := "No such file or directory (os error 2)" }

def noSuchDevice : IoError := { kind := .other, message := "No such device or address (os error 6)" }

/-- `commands::clear`: the files afterwards, what is printed, and the exit code. -/
def clear (files : Files) (logPath name : Text) (quiet : Bool) : Files × List String × Nat :=
  match files.entries (components logPath) with
  | some (.file inode) =>
      match ClearLog.clear (String.ofList name) quiet (.ok (files.contents inode)) with
      | (.ok content, shown) => (files.write inode content, shown)
      | (.error _, shown) => (files, shown)
  | some (.socket _) =>
      (files, (@ClearLog.clear UInt8 _ (String.ofList name) quiet (.error noSuchDevice)).2)
  | none =>
      (files, (@ClearLog.clear UInt8 _ (String.ofList name) quiet (.error noSuchFile)).2)

/-- `hytchSession` is the value of `HYTCH_SESSION`. -/
def cmdClear (env : Environment) (hytchSession session : Option Text) (quiet : Bool)
    (files : Files) : Files × List String × Nat :=
  match session.or (hytchSession.map shortName) with
  | none => (files, ["hytch: no session specified and not inside one"], 1)
  | some name => clear files (logPathFor (socketPath env name)) name quiet

/-- `commands::current`: what is printed, and the exit code. -/
def current : Option Text → List Text × Nat
  | some chain => if chain = [] then ([], 1) else ([shortName chain], 0)
  | none => ([], 1)

/-- Whatever files there are, the one log is emptied and the others are left alone. -/
def ClearsOnly (env : Environment) (hytchSession : Option Text) (logPath : Text) : Prop :=
  ∀ files quiet,
    (∀ inode, files.entries (components logPath) = some (.file inode) →
      (cmdClear env hytchSession none quiet files).1.entries (components logPath) =
        some (.file inode) ∧
      (cmdClear env hytchSession none quiet files).1.contents inode = []) ∧
    ∀ path, path ≠ components logPath →
      SameAt files (cmdClear env hytchSession none quiet files).1 path

/-- `clear` inside the innermost of nested sessions. -/
def ClearsInnermost (env : Environment) (outer : List SessionPath) (innermost : SessionPath) :
    Prop :=
  ClearsOnly env (ancestryOf (outer ++ [innermost])) (logPathFor innermost.path)

/-- Inside a session `clear` goes by the name that `current` prints. -/
theorem clear_goes_by_current (env : Environment) (hytchSession : Option Text) (quiet : Bool)
    (files : Files) (name : Text) (printed : name ∈ (current hytchSession).1) :
    cmdClear env hytchSession none quiet files =
      clear files (logPathFor (socketPath env name)) name quiet := by
  cases hytchSession with
  | none => cases printed
  | some chain =>
    rw [current] at printed
    split at printed
    · cases printed
    · rw [List.mem_singleton.mp printed]
      rfl

section Truncation

theorem clear_file (files : Files) (logPath name : Text) (quiet : Bool) (inode : Nat)
    (held : files.entries (components logPath) = some (.file inode)) :
    (clear files logPath name quiet).1 = files.write inode [] := by
  simp [clear, held, ClearLog.clear, FilePrograms.File.setLen]

theorem clear_elsewhere (files : Files) (logPath name : Text) (quiet : Bool)
    (path : List Component) (other : path ≠ components logPath) :
    SameAt files (clear files logPath name quiet).1 path := by
  rw [clear]
  cases held : files.entries (components logPath) with
  | none => exact ⟨rfl, fun _ _ => rfl⟩
  | some entry =>
    cases entry with
    | socket owner => exact ⟨rfl, fun _ _ => rfl⟩
    | file inode =>
      refine ⟨rfl, fun found known => Function.update_of_ne ?_ _ _⟩
      rintro rfl
      exact other (files.single _ _ _ held known)

def oneFile (path : List Component) : Files := Directory.empty.create path [0]

theorem clears_only_iff (env : Environment) (chain logPath : Text) :
    ClearsOnly env (some chain) logPath ↔
      components (logPathFor (socketPath env (shortName chain))) = components logPath := by
  constructor
  · intro clears
    by_cases same : components (logPathFor (socketPath env (shortName chain))) =
        components logPath
    · exact same
    · -- nothing is found under the name, and the log keeps its byte
      have held : (oneFile (components logPath)).entries (components logPath) =
          some (.file 0) := Function.update_self _ _ _
      have absent : (oneFile (components logPath)).entries
          (components (logPathFor (socketPath env (shortName chain)))) = none :=
        Function.update_of_ne same _ _
      have emptied := ((clears (oneFile (components logPath)) false).1 0 held).2
      simp only [cmdClear, Option.none_or, Option.map_some, clear, absent] at emptied
      cases emptied
  · intro same files quiet
    have goes : cmdClear env (some chain) none quiet files =
        clear files (logPathFor (socketPath env (shortName chain))) (shortName chain) quiet := rfl
    rw [goes]
    constructor
    · intro inode held
      rw [← same] at held
      rw [clear_file files _ (shortName chain) quiet inode held, ← same]
      exact ⟨held, Function.update_self _ _ _⟩
    · intro path other
      exact clear_elsewhere files _ _ quiet path (by rwa [same])

end Truncation

section Chains

theorem resolved_keeps_end (env : Environment) (front shown : Text) :
    ∃ start, socketPath env (front ++ separator ++ shown) = start ++ separator ++ shown := by
  simp only [socketPath, resolveSocketPath, join]
  split
  · exact ⟨front, rfl⟩
  · split
    · exact ⟨sessionDir env ++ front, by simp⟩
    · exact ⟨sessionDir env ++ '/' :: front, by simp⟩

theorem session_dir_slash (env : Environment) : '/' ∈ sessionDir env := by
  simp only [sessionDir, resolveSessionDir]
  split <;> simp

theorem session_path_slash (session : SessionPath) : session.path.contains '/' = true := by
  obtain ⟨env, name, cmd, logMaxSize, req, built, socket⟩ := session.accepted
  rw [← socket, (built_cases env name cmd logMaxSize req built).2.1, socketPath,
    resolveSocketPath]
  have inside := session_dir_slash env
  split
  case isTrue slash => exact slash
  case isFalse =>
    rw [join]
    split <;> simp [inside]

theorem ancestry_ends (outer : List SessionPath) (innermost : SessionPath) :
    (outer = [] ∧ ancestryOf (outer ++ [innermost]) = some innermost.path) ∨
    (outer ≠ [] ∧ ∃ front,
      ancestryOf (outer ++ [innermost]) = some (front ++ ':' :: innermost.path)) := by
  rcases List.eq_nil_or_concat' outer with rfl | ⟨before, last, rfl⟩
  · exact Or.inl ⟨rfl, rfl⟩
  · refine Or.inr ⟨by simp, ?_⟩
    have chained : ∀ chain sessions (session : SessionPath),
        ancestryFrom chain (sessions ++ [session]) =
          some (extendAncestry (ancestryFrom chain sessions) session.path) := by
      intro chain sessions session
      simp [ancestryFrom]
    have named := session_path_nonempty last
    rw [ancestryOf, chained, chained]
    generalize ancestryFrom none before = chain
    have whole : nonEmpty (some (extendAncestry chain last.path)) =
        some (extendAncestry chain last.path) := by
      rw [extendAncestry]
      split <;> simp [nonEmpty, named]
    exact ⟨extendAncestry chain last.path, by rw [extendAncestry, whole]⟩

/-- The last segment of a chain with a colon is all of its last path, or what that has
behind a colon of its own. -/
theorem last_segment (chain path : Text)
    (ends : chain = path ∨ ∃ front, chain = front ++ ':' :: path) (colon : ':' ∈ chain) :
    ∃ front last, chain = front ++ ':' :: last ∧ ':' ∉ last ∧
      (path = last ∨ ∃ start, path = start ++ ':' :: last) := by
  rcases cut_last ':' path with free | ⟨start, last, rfl, free⟩
  · rcases ends with rfl | ⟨front, rfl⟩
    · exact absurd colon free
    · exact ⟨front, path, rfl, free, Or.inl rfl⟩
  · rcases ends with rfl | ⟨front, rfl⟩
    · exact ⟨start, last, rfl, free, Or.inr ⟨start, rfl⟩⟩
    · exact ⟨front ++ ':' :: start, last, by simp, free, Or.inr ⟨start, rfl⟩⟩

theorem chain_log_apart (env : Environment) (chain path : Text)
    (ends : chain = path ∨ ∃ front, chain = front ++ ':' :: path) (colon : ':' ∈ chain) :
    components (logPathFor (socketPath env (shortName chain))) ≠
      components (logPathFor path) := by
  obtain ⟨front, last, rfl, free, inside⟩ := last_segment chain path ends colon
  rw [short_name_appends front last free]
  obtain ⟨start, resolved⟩ := resolved_keeps_end env (shortName front) (baseName last)
  rw [resolved]
  obtain ⟨alone, inChain⟩ := logs_apart start last
  rcases inside with rfl | ⟨before, rfl⟩
  · exact alone
  · exact inChain before

theorem unnamed_resolves (env : Environment) (session : SessionPath)
    (plain : ':' ∉ session.path) (unnamed : fileName session.path = none) :
    socketPath env (shortName session.path) = session.path := by
  rw [short_name_plain session.path plain, baseName, unnamed, Option.getD_none, socketPath,
    resolveSocketPath, session_path_slash session, if_pos rfl]

end Chains

/-- Where the last path stands alone, and is where its last name leads. -/
theorem clears_innermost_iff (env : Environment) (outer : List SessionPath)
    (innermost : SessionPath) :
    ClearsInnermost env outer innermost ↔
      outer = [] ∧ ':' ∉ innermost.path ∧ ∀ name, fileName innermost.path = some name →
        components (logPathFor (socketPath env name)) =
          components (logPathFor innermost.path) := by
  rcases ancestry_ends outer innermost with ⟨rfl, chained⟩ | ⟨nested, front, chained⟩
  · rw [ClearsInnermost, chained, clears_only_iff]
    constructor
    · intro same
      have plain : ':' ∉ innermost.path := fun colon =>
        chain_log_apart env _ innermost.path (Or.inl rfl) colon same
      refine ⟨rfl, plain, fun name named => ?_⟩
      rwa [short_name_plain innermost.path plain, baseName, named, Option.getD_some] at same
    · rintro ⟨-, plain, leads⟩
      cases named : fileName innermost.path with
      | none => rw [unnamed_resolves env innermost plain named]
      | some name =>
        rw [short_name_plain innermost.path plain, baseName, named, Option.getD_some]
        exact leads name named
  · rw [ClearsInnermost, chained, clears_only_iff]
    constructor
    · intro same
      exact absurd same (chain_log_apart env _ innermost.path (Or.inr ⟨front, rfl⟩) (by simp))
    · rintro ⟨alone, -⟩
      exact absurd alone nested

/-- Inside `a`, started inside `b`, and inside the literal path `/run/s`. -/
theorem nested_clear_misses :
    ¬ ClearsInnermost homeless [.named homeless ['b'] (by decide)]
      (.named homeless ['a'] (by decide)) ∧
    ¬ ClearsInnermost homeless [] (.named homeless "/run/s".toList (by decide)) := by
  constructor
  · rw [ClearsInnermost, ancestryOf]
    intro clears
    have same := (clears_only_iff homeless _ _).mp clears
    exact absurd same (by decide)
  · intro clears
    have same := (clears_only_iff homeless _ _).mp clears
    exact absurd same (by decide)

end Hytch.ClearInside
