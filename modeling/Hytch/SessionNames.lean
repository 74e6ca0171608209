import Hytch.StandardValues

/-!
`session/src/lib.rs` and `paths.rs`: how a session's name becomes the paths of its
socket and its log, and the ancestry chain in the environment of a session's
shell. Names and paths are the lists of their characters.
-/

namespace Hytch

abbrev Text := List Char

namespace SessionNames

open DecimalNumbers

def usableHome (home : Option Text) : Option Text :=
  home.filter fun home => !home.isEmpty && home != ['/']

def resolveSessionDir (envHome passwdHome : Option Text) (progBasename : Text) (uid : UInt32) :
    Text :=
  match (usableHome envHome).or (usableHome passwdHome) with
  | some home => home ++ "/.cache/".toList ++ progBasename
  | none => "/tmp/.".toList ++ progBasename ++ '-' :: printNumber uid.toNat

def isValidBareName (name : Text) : Bool :=
  !name.isEmpty && name != ['.'] && name != ['.', '.'] && !name.contains '/'

/-- `Path::join` for a name that is not absolute. -/
def join (dir name : Text) : Text :=
  if dir = [] ∨ dir.getLast? = some '/' then dir ++ name else dir ++ '/' :: name

def resolveSocketPath (name sessionDir : Text) : Text :=
  if name.contains '/' then name else join sessionDir name

def logSuffix : Text := ['.', 'l', 'o', 'g']

def logPathFor (socketPath : Text) : Text := socketPath ++ logSuffix

/-- `filter(|c| !c.is_empty())`. -/
def nonEmpty (chain : Option Text) : Option Text := chain.filter fun chain => !chain.isEmpty

def extendAncestry (current : Option Text) (newSocketPath : Text) : Text :=
  match nonEmpty current with
  | some chain => chain ++ ':' :: newSocketPath
  | none => newSocketPath

def ancestryContains (chain : Option Text) (targetSocketPath : Text) : Bool :=
  match nonEmpty chain with
  | some chain => (chain.splitOn ':').any fun segment => segment == targetSocketPath
  | none => false

/-- `self_attach_error`, `chain` being the value of `HYTCH_SESSION`. -/
def selfAttachError (chain : Option Text) (socketPath : Text) : Option IoError :=
  if ancestryContains chain socketPath then
    some { kind := .invalidInput, message := "cannot attach to session from within itself" }
  else none

/-- A path that is one segment of a chain. -/
def Plain (path : Text) : Prop := path ≠ [] ∧ ':' ∉ path

theorem extend_contains_segment_iff (current : Option Text) (path target : Text)
    (named : path ≠ []) :
    ancestryContains (some (extendAncestry current path)) target = true ↔
      ancestryContains current target = true ∨ target ∈ path.splitOn ':' := by
  cases known : nonEmpty current with
  | none =>
    have whole : nonEmpty (some path) = some path := by simp [nonEmpty, named]
    simp [extendAncestry, ancestryContains, known, whole]
  | some chain =>
    have whole : nonEmpty (some (chain ++ ':' :: path)) = some (chain ++ ':' :: path) := by
      simp [nonEmpty]
    simp [extendAncestry, ancestryContains, known, whole, List.splitOn_append_cons_self]

/-- A chain extended by a plain path contains it, and everything it contained before. -/
theorem extend_contains_iff (current : Option Text) (path target : Text) (plain : Plain path) :
    ancestryContains (some (extendAncestry current path)) target = true ↔
      ancestryContains current target = true ∨ target = path := by
  rw [extend_contains_segment_iff current path target plain.1,
    List.splitOn_eq_singleton plain.2, List.mem_singleton]

end SessionNames
end Hytch
