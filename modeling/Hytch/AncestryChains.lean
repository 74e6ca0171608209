import Hytch.SpawnRequests

/-!
The chain that a stack of nested sessions leaves in `HYTCH_SESSION`, against the
sessions it was built from. A chain is split at its colons again, and a path may
hold colons of its own.
-/

namespace Hytch.AncestryChains

open SessionNames SpawnRequests

/-- The socket path of a session that `build_spawn_request` accepted. -/
structure SessionPath where
  path : Text
  accepted : ∃ env session cmd logMaxSize req,
    buildSpawnRequest env session cmd logMaxSize = .ok req ∧ req.socketPath = path

def SessionPath.named (env : Environment) (name : Text)
    (accepted : name.contains '/' = true ∨ isValidBareName name = true) : SessionPath where
  path := socketPath env name
  accepted :=
    have ⟨req, built, socket, _⟩ := built_of_named env name [] 0 accepted
    ⟨env, name, [], 0, req, built, socket⟩

/-- `HYTCH_SESSION` in the innermost of nested sessions, outermost first. -/
def ancestryFrom (chain : Option Text) (sessions : List SessionPath) : Option Text :=
  sessions.foldl (fun chain session => some (extendAncestry chain session.path)) chain

def ancestryOf (sessions : List SessionPath) : Option Text := ancestryFrom none sessions

def ExactFor (sessions : List SessionPath) (target : SessionPath) : Prop :=
  ancestryContains (ancestryOf sessions) target.path = true ↔
    target.path ∈ sessions.map SessionPath.path

theorem socket_path_nonempty (env : Environment) (session : Text)
    (accepted : session.contains '/' = true ∨ isValidBareName session = true) :
    socketPath env session ≠ [] := by
  have named : session ≠ [] := by
    rintro rfl
    rcases accepted with slash | valid
    · cases slash
    · cases valid
  simp only [socketPath, resolveSocketPath, join]
  split
  · exact named
  · split <;> simp [named]

theorem session_path_nonempty (session : SessionPath) : session.path ≠ [] := by
  obtain ⟨env, name, cmd, logMaxSize, req, built, socket⟩ := session.accepted
  obtain ⟨accepted, path, -⟩ := built_cases env name cmd logMaxSize req built
  rw [← socket, path]
  exact socket_path_nonempty env name accepted

theorem ancestry_from_contains_iff (chain : Option Text) (sessions : List SessionPath)
    (target : Text) :
    ancestryContains (ancestryFrom chain sessions) target = true ↔
      ancestryContains chain target = true ∨
        ∃ session ∈ sessions, target ∈ session.path.splitOn ':' := by
  induction sessions generalizing chain with
  | nil => simp [ancestryFrom]
  | cons session rest ih =>
    have step := extend_contains_segment_iff chain session.path target
      (session_path_nonempty session)
    have later := ih (some (extendAncestry chain session.path))
    rw [step, or_assoc] at later
    simp only [List.mem_cons, exists_eq_or_imp]
    exact later

theorem ancestry_contains_iff (sessions : List SessionPath) (target : Text) :
    ancestryContains (ancestryOf sessions) target = true ↔
      ∃ session ∈ sessions, target ∈ session.path.splitOn ':' := by
  have absent : ¬ ancestryContains none target = true := by simp [ancestryContains, nonEmpty]
  rw [ancestryOf, ancestry_from_contains_iff]
  exact or_iff_right absent

/-- A path with a colon is missed where it is in the chain, and a piece of one is
taken for a session. -/
theorem ancestry_exact_iff (sessions : List SessionPath) (target : SessionPath) :
    ExactFor sessions target ↔
      (':' ∈ target.path → target.path ∉ sessions.map SessionPath.path) ∧
      ∀ path ∈ sessions.map SessionPath.path, ':' ∈ path → target.path ∈ path.splitOn ':' →
        target.path ∈ sessions.map SessionPath.path := by
  rw [ExactFor, ancestry_contains_iff]
  constructor
  · intro exact
    constructor
    · intro colon member
      obtain ⟨session, -, piece⟩ := exact.mpr member
      exact SplitPieces.piece_free ':' session.path target.path piece colon
    · intro path member _ piece
      obtain ⟨session, inside, rfl⟩ := List.mem_map.mp member
      exact exact.mp ⟨session, inside, piece⟩
  · rintro ⟨colons, pieces⟩
    constructor
    · rintro ⟨session, inside, piece⟩
      have member : session.path ∈ sessions.map SessionPath.path := List.mem_map_of_mem inside
      by_cases colon : ':' ∈ session.path
      · exact pieces session.path member colon piece
      · rw [List.splitOn_eq_singleton colon, List.mem_singleton] at piece
        rwa [piece]
    · intro member
      obtain ⟨session, inside, same⟩ := List.mem_map.mp member
      have plain : ':' ∉ target.path := fun colon => colons colon member
      refine ⟨session, inside, ?_⟩
      rw [same, List.splitOn_eq_singleton plain]
      exact List.mem_singleton_self _

def homeless : Environment := { home := none, uid := 0, shell := none, terminal := none }

/-- The session `a:b` is not seen inside itself, and inside the session
`/x:/tmp/.hytch-0/a` the unrelated session `a` is refused. -/
theorem colon_in_name_confuses :
    ¬ ExactFor [.named homeless ['a', ':', 'b'] (by decide)]
      (.named homeless ['a', ':', 'b'] (by decide)) ∧
    ¬ ExactFor [.named homeless "/x:/tmp/.hytch-0/a".toList (by decide)]
      (.named homeless ['a'] (by decide)) := by
  constructor
  · intro exact
    have member := exact.mpr (List.mem_singleton_self _)
    exact absurd member (by decide)
  · intro exact
    have member := exact.mp (by decide)
    exact absurd member (by decide)

end Hytch.AncestryChains
