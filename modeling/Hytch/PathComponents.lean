import Hytch.SessionNames

/-!
`std::path::Path` on Unix: the components a path's text stands for, its last name and
its parent. Two texts with the same components are the same path.
-/

namespace Hytch.PathComponents

open SessionNames SplitPieces

inductive Component where
  | rootDir
  | curDir
  | parentDir
  | normal (name : Text)
deriving DecidableEq

/-- Repeated slashes and single dots name nothing. -/
def silent (piece : Text) : Bool := piece == [] || piece == ['.']

/-- The piece behind a slash. -/
def laterComponent (piece : Text) : Option Component :=
  if silent piece then none
  else if piece = ['.', '.'] then some .parentDir
  else some (.normal piece)

/-- The piece in front of the first slash: empty for the root, and the one place where
a single dot counts. -/
def firstComponent (piece : Text) (slash : Bool) : Option Component :=
  if piece = [] then (if slash then some .rootDir else none)
  else if piece = ['.'] then some .curDir
  else laterComponent piece

def ofPieces : List Text → List Component
  | [] => []
  | first :: rest => (firstComponent first !rest.isEmpty).toList ++ rest.filterMap laterComponent

def components (path : Text) : List Component := ofPieces (path.splitOn '/')

def fileName (path : Text) : Option Text :=
  match (components path).getLast? with
  | some (.normal name) => some name
  | _ => none

/-- The text of the pieces: the root keeps its slash. -/
def rejoin (first : Text) (rest : List Text) : Text :=
  if first = [] then '/' :: ['/'].intercalate rest else ['/'].intercalate (first :: rest)

/-- The text in front of the last component, without what is silent at its end. -/
def parent (path : Text) : Option Text :=
  match path.splitOn '/' with
  | [] => none
  | first :: rest =>
      match rest.reverse.dropWhile silent with
      | _ :: before => some (rejoin first (before.dropWhile silent).reverse)
      | [] => if first = [] then none else some []

/-- What a slash makes of the components in front of it. -/
def rooted (base : Text) : List Component := if base = [] then [.rootDir] else components base

theorem components_slash (base tail : Text) :
    components (base ++ '/' :: tail) =
      rooted base ++ (tail.splitOn '/').filterMap laterComponent := by
  have further : ∀ text : Text, (text.splitOn '/').isEmpty = false := by
    intro text
    rw [List.isEmpty_eq_false_iff]
    exact List.splitOn_ne_nil '/' text
  rw [components, List.splitOn_append_cons_self]
  by_cases root : base = []
  · subst root
    simp [rooted, ofPieces, firstComponent, further]
  · rw [rooted, if_neg root, components]
    rcases cut_first '/' base with free | ⟨first, rest, rfl, free⟩
    · rw [List.splitOn_eq_singleton free]
      simp [ofPieces, firstComponent, root]
    · have both : (rest.splitOn '/' ++ tail.splitOn '/').isEmpty = false := by
        rw [List.isEmpty_eq_false_iff]
        exact List.append_ne_nil_of_left_ne_nil (List.splitOn_ne_nil '/' rest) _
      rw [List.splitOn_append_cons_self_of_not_mem free]
      simp [ofPieces, further, both]

theorem components_free (piece : Text) (free : '/' ∉ piece) :
    components piece = (firstComponent piece false).toList := by
  rw [components, List.splitOn_eq_singleton free]
  simp [ofPieces]

/-- A piece that is the name of something wherever it stands. -/
def Solid (piece : Text) : Prop := silent piece = false ∧ piece ≠ ['.', '.']

theorem later_component_solid (piece : Text) (solid : Solid piece) :
    laterComponent piece = some (.normal piece) := by
  rw [laterComponent, solid.1, if_neg Bool.false_ne_true, if_neg solid.2]

theorem first_component_solid (piece : Text) (slash : Bool) (solid : Solid piece) :
    firstComponent piece slash = some (.normal piece) := by
  have loud := solid.1
  simp only [silent, Bool.or_eq_false_iff, beq_eq_false_iff_ne] at loud
  rw [firstComponent, if_neg loud.1, if_neg loud.2, later_component_solid piece solid]

theorem solid_of_long (piece : Text) (long : 3 ≤ piece.length) : Solid piece := by
  constructor
  · simp only [silent, Bool.or_eq_false_iff, beq_eq_false_iff_ne]
    constructor <;> rintro rfl <;> simp at long
  · rintro rfl
    simp at long

theorem bare_iff (name : Text) :
    isValidBareName name = true ↔ Solid name ∧ '/' ∉ name := by
  simp only [isValidBareName, Solid, silent, Bool.and_eq_true, Bool.not_eq_true',
    List.isEmpty_eq_false_iff, bne_iff_ne, List.contains_eq_mem, decide_eq_false_iff_not,
    Bool.or_eq_false_iff, beq_eq_false_iff_ne]

theorem solid_of_bare (name : Text) (valid : isValidBareName name = true) :
    Solid name ∧ '/' ∉ name := (bare_iff name).mp valid

theorem later_component_name (piece name : Text)
    (known : laterComponent piece = some (.normal name)) : name = piece := by
  rw [laterComponent] at known
  split at known
  · cases known
  · split at known <;> simp_all

theorem first_component_name (piece : Text) (slash : Bool) (name : Text)
    (known : firstComponent piece slash = some (.normal name)) : name = piece := by
  rw [firstComponent] at known
  split at known
  · cases slash <;> simp at known
  · split at known
    · simp at known
    · exact later_component_name piece name known

theorem normal_free (path name : Text) (member : .normal name ∈ components path) :
    '/' ∉ name := by
  have pieces := piece_free '/' path
  rw [components] at member
  cases cut : path.splitOn '/' with
  | nil => exact absurd cut (List.splitOn_ne_nil '/' path)
  | cons first rest =>
    rw [cut] at member pieces
    rw [ofPieces, List.mem_append, Option.mem_toList, List.mem_filterMap] at member
    rcases member with known | ⟨piece, inside, known⟩
    · rw [first_component_name first _ name known]
      exact pieces first List.mem_cons_self
    · rw [later_component_name piece name known]
      exact pieces piece (List.mem_cons_of_mem _ inside)

theorem file_name_component (path name : Text) (found : fileName path = some name) :
    .normal name ∈ components path := by
  rw [fileName] at found
  split at found
  · rename_i last
    cases found
    exact List.mem_of_getLast? last
  · cases found

theorem bare_path (sessionDir name : Text) (valid : isValidBareName name = true) :
    resolveSocketPath name sessionDir = join sessionDir name := by
  have bare : name.contains '/' = false := by
    simpa using (solid_of_bare name valid).2
  rw [resolveSocketPath, bare, if_neg Bool.false_ne_true]

section LastPieces

def LastPiece (text piece : Text) : Prop :=
  '/' ∉ piece ∧ (text = piece ∨ ∃ base, text = base ++ '/' :: piece)

theorem last_piece_exists (text : Text) : ∃ piece, LastPiece text piece := by
  rcases cut_last '/' text with free | ⟨base, piece, shape, free⟩
  · exact ⟨text, free, Or.inl rfl⟩
  · exact ⟨piece, free, Or.inr ⟨base, shape⟩⟩

theorem last_piece_append (text piece more : Text) (last : LastPiece text piece)
    (free : '/' ∉ more) : LastPiece (text ++ more) (piece ++ more) := by
  obtain ⟨inner, shape⟩ := last
  refine ⟨by simp [inner, free], ?_⟩
  rcases shape with rfl | ⟨base, rfl⟩
  · exact Or.inl rfl
  · exact Or.inr ⟨base, by simp⟩

theorem last_piece_behind (front base piece : Text) (free : '/' ∉ piece) :
    LastPiece (front ++ (base ++ '/' :: piece)) piece :=
  ⟨free, Or.inr ⟨front ++ base, by simp⟩⟩

theorem components_last_piece (text piece : Text) (last : LastPiece text piece)
    (solid : Solid piece) : ∃ before, components text = before ++ [.normal piece] := by
  obtain ⟨free, rfl | ⟨base, rfl⟩⟩ := last
  · rw [components_free text free, first_component_solid text false solid]
    exact ⟨[], rfl⟩
  · rw [components_slash, List.splitOn_eq_singleton free]
    exact ⟨rooted base, by simp [later_component_solid piece solid]⟩

end LastPieces

theorem components_join (dir name : Text) (valid : isValidBareName name = true) :
    components (join dir name) = components dir ++ [.normal name] := by
  obtain ⟨solid, free⟩ := solid_of_bare name valid
  have alone : (name.splitOn '/').filterMap laterComponent = [.normal name] := by
    rw [List.splitOn_eq_singleton free]
    simp [later_component_solid name solid]
  rw [join]
  split
  case isTrue ends =>
    rcases ends with rfl | slash
    · rw [List.nil_append, components_free name free, first_component_solid name false solid]
      rfl
    · -- the slash that ends the directory is the one in front of the name
      obtain ⟨base, rfl⟩ := List.getLast?_eq_some_iff.mp slash
      have without : components (base ++ ['/']) = rooted base := by
        rw [components_slash]
        simp [laterComponent, silent]
      rw [List.append_assoc, List.singleton_append, components_slash, alone, without]
  case isFalse open_ =>
    have named : dir ≠ [] := fun empty => open_ (Or.inl empty)
    rw [components_slash, alone, rooted, if_neg named]

theorem file_name_join (dir name : Text) (valid : isValidBareName name = true) :
    fileName (join dir name) = some name := by
  rw [fileName, components_join dir name valid, List.getLast?_concat]

section Parents

theorem first_component_named (first : Text) (named : first ≠ []) (slash other : Bool) :
    firstComponent first slash = firstComponent first other := by
  simp only [firstComponent, if_neg named]

theorem rooted_of_pieces (base first : Text) (more : List Text)
    (cut : base.splitOn '/' = first :: more) :
    rooted base = (firstComponent first true).toList ++ more.filterMap laterComponent := by
  by_cases root : base = []
  · subst root
    obtain ⟨rfl, rfl⟩ : first = [] ∧ more = [] := by simpa [eq_comm] using cut
    rfl
  · rw [rooted, if_neg root, components, cut, ofPieces]
    by_cases named : first = []
    · have further : more.isEmpty = false := by
        rw [List.isEmpty_eq_false_iff]
        rintro rfl
        -- a single empty piece is the empty path
        have whole : ['/'].intercalate (base.splitOn '/') = base := List.intercalate_splitOn '/'
        rw [cut, named] at whole
        exact root whole.symm
      rw [further, Bool.not_false]
    · rw [first_component_named first named _ true]

theorem components_rejoin (first : Text) (rest : List Text) (freeFirst : '/' ∉ first)
    (free : ∀ piece ∈ rest, '/' ∉ piece) :
    components (rejoin first rest) =
      (firstComponent first true).toList ++ rest.filterMap laterComponent := by
  rw [rejoin]
  split
  case isTrue root =>
    subst root
    have behind := components_slash [] (['/'].intercalate rest)
    rw [List.nil_append] at behind
    rw [behind]
    by_cases alone : rest = []
    · subst alone
      rfl
    · rw [List.splitOn_intercalate '/' free alone]
      rfl
  case isFalse named =>
    have pieces : (['/'].intercalate (first :: rest)).splitOn '/' = first :: rest :=
      List.splitOn_intercalate '/' (by simpa using ⟨freeFirst, free⟩) (List.cons_ne_nil _ _)
    rw [components, pieces, ofPieces, first_component_named first named _ true]

theorem drop_silent (pieces : List Text) :
    (pieces.dropWhile silent).filterMap laterComponent = pieces.filterMap laterComponent := by
  induction pieces with
  | nil => rfl
  | cons piece rest ih =>
    cases quiet : silent piece with
    | true => simp [quiet, laterComponent, ih]
    | false => simp [quiet]

/-- The parent of a name in a directory is the directory, whatever it is written like. -/
theorem parent_join (dir name : Text) (valid : isValidBareName name = true) :
    ∃ found, parent (join dir name) = some found ∧ components found = components dir := by
  obtain ⟨solid, free⟩ := solid_of_bare name valid
  have named : name ≠ [] := by
    rintro rfl
    cases valid
  -- the parent of what stands behind a slash
  have behind : ∀ base, ∃ found, parent (base ++ '/' :: name) = some found ∧
      components found = rooted base := by
    intro base
    have free_pieces := piece_free '/' base
    cases cut : base.splitOn '/' with
    | nil => exact absurd cut (List.splitOn_ne_nil '/' base)
    | cons first more =>
      rw [cut] at free_pieces
      refine ⟨rejoin first (more.reverse.dropWhile silent).reverse, ?_, ?_⟩
      · rw [parent, List.splitOn_append_cons_self, cut, List.splitOn_eq_singleton free]
        simp [solid.1]
      · rw [components_rejoin, rooted_of_pieces base first more cut, List.filterMap_reverse,
          drop_silent, List.filterMap_reverse, List.reverse_reverse]
        · exact free_pieces first List.mem_cons_self
        · intro piece member
          have kept := (List.dropWhile_sublist silent).subset (List.mem_reverse.mp member)
          exact free_pieces piece (List.mem_cons_of_mem _ (List.mem_reverse.mp kept))
  rw [join]
  split
  case isTrue ends =>
    rcases ends with rfl | slash
    · refine ⟨[], ?_, rfl⟩
      rw [List.nil_append, parent, List.splitOn_eq_singleton free]
      simp [named]
    · obtain ⟨base, rfl⟩ := List.getLast?_eq_some_iff.mp slash
      rw [List.append_assoc, List.singleton_append]
      obtain ⟨found, above, same⟩ := behind base
      refine ⟨found, above, ?_⟩
      rw [same, components_slash]
      simp [laterComponent, silent]
  case isFalse open_ =>
    have dir_named : dir ≠ [] := fun empty => open_ (Or.inl empty)
    obtain ⟨found, above, same⟩ := behind dir
    refine ⟨found, above, ?_⟩
    rw [same, rooted, if_neg dir_named]

end Parents

end Hytch.PathComponents
