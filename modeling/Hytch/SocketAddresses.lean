import Mathlib.Data.String.Basic
import Hytch.PathComponents

/-!
The address a socket is bound and connected at: the path itself where the kernel takes
one of its length, else its last name from inside its parent directory.
-/

namespace Hytch.SocketAddresses

open SessionNames PathComponents

def maxSocketPathLen : Nat := 107

def byteLength (path : Text) : Nat := String.utf8Len path

def shortenForUnixSocket (path : Text) : Option (Text × Text) :=
  if byteLength path ≤ maxSocketPathLen then none
  else do
    let dir ← parent path
    let name ← fileName path
    return (dir, name)

inductive SystemCall where
  | currentDir
  | setCurrentDir (dir : Text)
  | bind (address : Text)
  | connect (address : Text)
deriving DecidableEq

/-- What each call gives, a path or an error. -/
abbrev Kernel := SystemCall → Except IoError Text

/-- The three call sites, up to the call they make: the calls made, and what they give. -/
def atShortName (call : Text → SystemCall) (kernel : Kernel) (path : Text) :
    List SystemCall × Except IoError Text :=
  match shortenForUnixSocket path with
  | none => ([call path], kernel (call path))
  | some (dir, shortName) =>
      match kernel .currentDir with
      | .error fault => ([.currentDir], .error fault)
      | .ok originalCwd =>
          match kernel (.setCurrentDir dir) with
          | .error fault => ([.currentDir, .setCurrentDir dir], .error fault)
          | .ok _ =>
              let calls := [.currentDir, .setCurrentDir dir, call shortName,
                .setCurrentDir originalCwd]
              match kernel (.setCurrentDir originalCwd) with
              -- the socket is then lost with the result
              | .error fault => (calls, .error fault)
              | .ok _ => (calls, kernel (call shortName))

def bindListener : Kernel → Text → List SystemCall × Except IoError Text := atShortName .bind

def connect : Kernel → Text → List SystemCall × Except IoError Text := atShortName .connect

def connectProbe : Kernel → Text → List SystemCall × Except IoError Text := atShortName .connect

/-- The addresses handed over, each with the directory changed into. -/
def handed : Option Text → List SystemCall → List (Option Text × Text)
  | _, [] => []
  | within, .currentDir :: rest => handed within rest
  | _, .setCurrentDir dir :: rest => handed (some dir) rest
  | within, .bind address :: rest => (within, address) :: handed within rest
  | within, .connect address :: rest => (within, address) :: handed within rest

def denoted : Option Text × Text → List Component
  | (none, address) => components address
  | (some dir, address) => components (join dir address)

/-- Daemon and clients use an address that is short enough and stands for the socket's
path. -/
def MeetAt (sessionDir name : Text) : Prop :=
  ∀ site ∈ [bindListener, connect, connectProbe], ∀ kernel,
    ∀ address ∈ handed none (site kernel (resolveSocketPath name sessionDir)).1,
      byteLength address.2 ≤ maxSocketPathLen ∧
        denoted address = components (resolveSocketPath name sessionDir)

theorem name_fits_in_path (sessionDir name : Text) :
    byteLength name ≤ byteLength (join sessionDir name) := by
  rw [join]
  split <;> simp only [byteLength, String.utf8Len_append, String.utf8Len_cons] <;> omega

theorem shortened_bare (sessionDir name : Text) (valid : isValidBareName name = true) :
    (byteLength (join sessionDir name) ≤ maxSocketPathLen ∧
      shortenForUnixSocket (join sessionDir name) = none) ∨
    (maxSocketPathLen < byteLength (join sessionDir name) ∧
      ∃ dir, shortenForUnixSocket (join sessionDir name) = some (dir, name) ∧
        components (join dir name) = components (join sessionDir name)) := by
  rw [shortenForUnixSocket]
  split
  case isTrue fits => exact Or.inl ⟨fits, rfl⟩
  case isFalse exceeds =>
    obtain ⟨dir, above, same⟩ := parent_join sessionDir name valid
    refine Or.inr ⟨by omega, dir, ?_, ?_⟩
    · rw [above, file_name_join sessionDir name valid]
      rfl
    · rw [components_join dir name valid, components_join sessionDir name valid, same]

/-- Whatever the kernel answers, a call site hands over at most the one address. -/
theorem handed_short (call : Text → SystemCall) (kernel : Kernel) (path dir shortName : Text)
    (shortened : shortenForUnixSocket path = some (dir, shortName))
    (hands : ∀ within address rest,
      handed within (call address :: rest) = (within, address) :: handed within rest) :
    handed none (atShortName call kernel path).1 ⊆ [(some dir, shortName)] := by
  simp only [atShortName, shortened]
  cases kernel .currentDir with
  | error fault => exact List.nil_subset _
  | ok originalCwd =>
    cases kernel (.setCurrentDir dir) with
    | error fault => exact List.nil_subset _
    | ok _ =>
      simp only
      cases kernel (.setCurrentDir originalCwd) <;>
        simp only [handed, hands] <;> exact List.Subset.refl _

theorem handed_willing (path dir shortName : Text)
    (shortened : shortenForUnixSocket path = some (dir, shortName)) :
    (some dir, shortName) ∈ handed none (bindListener (fun _ => .ok []) path).1 := by
  rw [bindListener, atShortName, shortened]
  exact List.mem_singleton_self _

theorem site_meets (call : Text → SystemCall) (sessionDir name : Text)
    (valid : isValidBareName name = true) (fits : byteLength name ≤ maxSocketPathLen)
    (hands : ∀ within address rest,
      handed within (call address :: rest) = (within, address) :: handed within rest)
    (kernel : Kernel) (address : Option Text × Text)
    (given : address ∈ handed none (atShortName call kernel (join sessionDir name)).1) :
    byteLength address.2 ≤ maxSocketPathLen ∧
      denoted address = components (join sessionDir name) := by
  rcases shortened_bare sessionDir name valid with ⟨short, whole⟩ | ⟨-, dir, shortened, same⟩
  · rw [atShortName, whole] at given
    simp only [hands, handed, List.mem_singleton] at given
    rw [given]
    exact ⟨short, rfl⟩
  · have alone := handed_short call kernel _ dir name shortened hands given
    rw [List.mem_singleton] at alone
    rw [alone]
    exact ⟨fits, same⟩

/-- The parent directory can be left out of the address, the name cannot. -/
theorem meet_at_iff (sessionDir name : Text) (valid : isValidBareName name = true) :
    MeetAt sessionDir name ↔ byteLength name ≤ maxSocketPathLen := by
  rw [MeetAt, bare_path sessionDir name valid]
  constructor
  · intro meet
    rcases shortened_bare sessionDir name valid with ⟨short, -⟩ | ⟨-, dir, shortened, -⟩
    · exact (name_fits_in_path sessionDir name).trans short
    · have given := handed_willing _ dir name shortened
      exact (meet bindListener (by simp) _ _ given).1
  · intro fits site member kernel address given
    have known : site = atShortName .bind ∨ site = atShortName .connect := by
      simpa [bindListener, connect, connectProbe] using member
    rcases known with rfl | rfl
    · exact site_meets .bind sessionDir name valid fits (fun _ _ _ => rfl) kernel address given
    · exact site_meets .connect sessionDir name valid fits (fun _ _ _ => rfl) kernel address given

theorem meet_at_deep_directory :
    MeetAt ('/' :: List.replicate 120 'd') ['w', 'o', 'r', 'k'] :=
  (meet_at_iff ('/' :: List.replicate 120 'd') ['w', 'o', 'r', 'k'] (by decide)).mpr (by decide)

/-- A file may have a name of 255 bytes, an address not. -/
theorem long_name_unreachable :
    isValidBareName (List.replicate 108 'n') = true ∧
      ¬ MeetAt "/tmp/.hytch-0".toList (List.replicate 108 'n') := by
  have valid : isValidBareName (List.replicate 108 'n') = true := by decide
  have long : byteLength (List.replicate 108 'n') = 108 := by decide
  refine ⟨valid, fun meet => ?_⟩
  rcases shortened_bare "/tmp/.hytch-0".toList (List.replicate 108 'n') valid with
    ⟨short, -⟩ | ⟨-, dir, shortened, -⟩
  · have inside := name_fits_in_path "/tmp/.hytch-0".toList (List.replicate 108 'n')
    rw [maxSocketPathLen] at short
    omega
  · rw [MeetAt, bare_path _ _ valid] at meet
    have fits := (meet bindListener (by simp) _ _ (handed_willing _ dir _ shortened)).1
    rw [long, maxSocketPathLen] at fits
    omega

end Hytch.SocketAddresses
