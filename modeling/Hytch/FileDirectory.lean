import Mathlib.Logic.Function.Basic

/-!
A directory of files and sockets. A file is made under one name and gets no other;
when the name is removed, whoever has the file open can go on writing it.
-/

namespace Hytch.FileDirectory

inductive Entry where
  | file (inode : Nat)
  | socket (owner : Nat)
deriving DecidableEq

structure Directory (Path Content : Type) where
  entries : Path → Option Entry
  contents : Nat → Content
  /-- How many files have been made. -/
  made : Nat
  single : ∀ path other inode, entries path = some (.file inode) →
    entries other = some (.file inode) → other = path
  counted : ∀ path inode, entries path = some (.file inode) → inode < made

theorem updated_some {Key Value : Type} [DecidableEq Key] (map : Key → Option Value)
    (key other : Key) (value : Option Value) (found : Value)
    (known : Function.update map key value other = some found) :
    (other = key ∧ value = some found) ∨ (other ≠ key ∧ map other = some found) := by
  by_cases same : other = key
  · subst same
    rw [Function.update_self] at known
    exact Or.inl ⟨rfl, known⟩
  · rw [Function.update_of_ne same] at known
    exact Or.inr ⟨same, known⟩

variable {Path Content : Type} [DecidableEq Path]

namespace Directory

def empty [Inhabited Content] : Directory Path Content :=
  { entries := fun _ => none
    contents := fun _ => default
    made := 0
    single := nofun
    counted := nofun }

/-- The path gets an entry that is no file, or none. -/
def setPlain (directory : Directory Path Content) (path : Path) (entry : Option Entry)
    (plain : ∀ inode, entry ≠ some (.file inode)) : Directory Path Content :=
  { directory with
    entries := Function.update directory.entries path entry
    single := by
      intro one other inode first second
      rcases updated_some _ _ _ _ _ first with ⟨_, file⟩ | ⟨_, first⟩
      · exact absurd file (plain inode)
      · rcases updated_some _ _ _ _ _ second with ⟨_, file⟩ | ⟨_, second⟩
        · exact absurd file (plain inode)
        · exact directory.single one other inode first second
    counted := by
      intro one inode known
      rcases updated_some _ _ _ _ _ known with ⟨_, file⟩ | ⟨_, known⟩
      · exact absurd file (plain inode)
      · exact directory.counted one inode known }

def remove (directory : Directory Path Content) (path : Path) : Directory Path Content :=
  directory.setPlain path none (by simp)

def bind (directory : Directory Path Content) (path : Path) (owner : Nat) :
    Directory Path Content :=
  directory.setPlain path (some (.socket owner)) (by simp)

/-- A new file under the path, which is the inode `made`. -/
def create (directory : Directory Path Content) (path : Path) (content : Content) :
    Directory Path Content :=
  { entries := Function.update directory.entries path (some (.file directory.made))
    contents := Function.update directory.contents directory.made content
    made := directory.made + 1
    single := by
      intro one other inode first second
      have older : ∀ path, directory.entries path ≠ some (.file directory.made) :=
        fun path known => Nat.lt_irrefl _ (directory.counted path _ known)
      rcases updated_some _ _ _ _ _ first with ⟨rfl, file⟩ | ⟨_, first⟩
      · cases file
        rcases updated_some _ _ _ _ _ second with ⟨same, _⟩ | ⟨_, second⟩
        · exact same
        · exact absurd second (older other)
      · rcases updated_some _ _ _ _ _ second with ⟨_, file⟩ | ⟨_, second⟩
        · cases file
          exact absurd first (older one)
        · exact directory.single one other inode first second
    counted := by
      intro one inode known
      rcases updated_some _ _ _ _ _ known with ⟨_, file⟩ | ⟨_, known⟩
      · cases file
        exact Nat.lt_succ_self _
      · exact Nat.lt_succ_of_lt (directory.counted one inode known) }

def write (directory : Directory Path Content) (inode : Nat) (content : Content) :
    Directory Path Content :=
  { directory with contents := Function.update directory.contents inode content }

end Directory

/-- The path has the same entry as before, and a file there the same content. -/
def SameAt (before after : Directory Path Content) (path : Path) : Prop :=
  after.entries path = before.entries path ∧
    ∀ inode, before.entries path = some (.file inode) →
      after.contents inode = before.contents inode

/-- A file made under the path, though the name may have been removed since. -/
def MadeAt (directory : Directory Path Content) (inode : Nat) (path : Path) : Prop :=
  inode < directory.made ∧ ∀ other, directory.entries other = some (.file inode) → other = path

/-- A change made through certain paths, and through open files that were made there. -/
inductive Touches (own : Path → Prop) : Directory Path Content → Directory Path Content → Prop where
  | keeps (directory : Directory Path Content) : Touches own directory directory
  | plain (directory : Directory Path Content) (path : Path) (entry : Option Entry)
      (plain : ∀ inode, entry ≠ some (.file inode)) (mine : own path) :
      Touches own directory (directory.setPlain path entry plain)
  | creates (directory : Directory Path Content) (path : Path) (content : Content)
      (mine : own path) : Touches own directory (directory.create path content)
  | writes (directory : Directory Path Content) (path : Path) (inode : Nat) (content : Content)
      (mine : own path) (made : MadeAt directory inode path) :
      Touches own directory (directory.write inode content)
  | andThen {first second third : Directory Path Content} (before : Touches own first second)
      (after : Touches own second third) : Touches own first third

omit [DecidableEq Path] in
theorem made_at_of_entry (directory : Directory Path Content) (inode : Nat) (path : Path)
    (known : directory.entries path = some (.file inode)) : MadeAt directory inode path :=
  ⟨directory.counted path inode known, fun other file => directory.single path other inode known file⟩

theorem made_at_created (directory : Directory Path Content) (path : Path) (content : Content) :
    MadeAt (directory.create path content) directory.made path := by
  refine ⟨Nat.lt_succ_self _, fun other known => ?_⟩
  rcases updated_some _ _ _ _ _ known with ⟨same, _⟩ | ⟨_, file⟩
  · exact same
  · exact absurd (directory.counted other _ file) (Nat.lt_irrefl _)

theorem made_at_touched (own : Path → Prop) (before after : Directory Path Content)
    (touches : Touches own before after) (inode : Nat) (path : Path)
    (made : MadeAt before inode path) : MadeAt after inode path := by
  induction touches with
  | keeps => exact made
  | plain directory changed entry plain =>
    refine ⟨made.1, fun other known => ?_⟩
    rcases updated_some _ _ _ _ _ known with ⟨_, file⟩ | ⟨_, file⟩
    · exact absurd file (plain inode)
    · exact made.2 other file
  | creates directory changed content =>
    refine ⟨Nat.lt_succ_of_lt made.1, fun other known => ?_⟩
    rcases updated_some _ _ _ _ _ known with ⟨_, file⟩ | ⟨_, file⟩
    · -- the new file is none of those made before
      cases file
      exact absurd made.1 (Nat.lt_irrefl _)
    · exact made.2 other file
  | writes => exact made
  | andThen _ _ first second => exact second (first made)

/-- What is changed through some paths is the same everywhere else. -/
theorem same_elsewhere (own : Path → Prop) (before after : Directory Path Content)
    (touches : Touches own before after) (path : Path) (foreign : ¬ own path) :
    SameAt before after path := by
  induction touches with
  | keeps => exact ⟨rfl, fun _ _ => rfl⟩
  | plain directory changed entry plain mine =>
    refine ⟨Function.update_of_ne ?_ _ _, fun _ _ => rfl⟩
    rintro rfl
    exact foreign mine
  | creates directory changed content mine =>
    refine ⟨Function.update_of_ne ?_ _ _, fun inode known => Function.update_of_ne ?_ _ _⟩
    · rintro rfl
      exact foreign mine
    · rintro rfl
      exact absurd (directory.counted path _ known) (Nat.lt_irrefl _)
  | writes directory changed written content mine made =>
    refine ⟨rfl, fun inode known => Function.update_of_ne ?_ _ _⟩
    rintro rfl
    rw [made.2 path known] at foreign
    exact foreign mine
  | andThen _ _ first second =>
    refine ⟨second.1.trans first.1, fun inode known => ?_⟩
    exact (second.2 inode (first.1.trans known)).trans (first.2 inode known)

end Hytch.FileDirectory
