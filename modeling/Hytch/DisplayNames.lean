import Hytch.PathComponents

/-!
`short_name`: a chain of socket paths as the user is shown it. What a chain with more
than one segment is shown as is never another spelling of its last path.
-/

namespace Hytch.DisplayNames

open SessionNames PathComponents SplitPieces

def separator : Text := [' ', '>', ' ']

/-- The last name of a path, or all of it where there is none. -/
def baseName (path : Text) : Text := (fileName path).getD path

def shortName (chain : Text) : Text := separator.intercalate ((chain.splitOn ':').map baseName)

theorem intercalate_snoc (between last : Text) (pieces : List Text) (some_ : pieces ≠ []) :
    between.intercalate (pieces ++ [last]) = between.intercalate pieces ++ between ++ last := by
  induction pieces with
  | nil => exact absurd rfl some_
  | cons first rest ih =>
    cases rest with
    | nil => simp
    | cons second others =>
      have later := ih (List.cons_ne_nil _ _)
      simp only [List.cons_append] at later ⊢
      rw [List.intercalate_cons_cons, later, List.intercalate_cons_cons]
      simp only [List.append_assoc]

theorem short_name_plain (path : Text) (plain : ':' ∉ path) : shortName path = baseName path := by
  rw [shortName, List.splitOn_eq_singleton plain, List.map_singleton, List.intercalate_singleton]

theorem short_name_appends (front last : Text) (plain : ':' ∉ last) :
    shortName (front ++ ':' :: last) = shortName front ++ separator ++ baseName last := by
  have pieces : (front.splitOn ':').map baseName ≠ [] := by simp
  rw [shortName, List.splitOn_append_cons_self, List.splitOn_eq_singleton plain, List.map_append,
    List.map_singleton, intercalate_snoc separator (baseName last) _ pieces, shortName]

theorem solid_of_mem (piece : Text) (char : Char) (member : char ∈ piece) (other : char ≠ '.') :
    Solid piece := by
  constructor
  · simp only [silent, Bool.or_eq_false_iff, beq_eq_false_iff_ne]
    constructor
    · rintro rfl
      cases member
    · rintro rfl
      exact other (List.mem_singleton.mp member)
  · rintro rfl
    simp [other] at member

theorem normal_of_free (piece name : Text) (free : '/' ∉ piece)
    (member : .normal name ∈ rooted piece) : name = piece := by
  rw [rooted] at member
  split at member
  · simp at member
  · rw [components_free piece free, Option.mem_toList] at member
    exact first_component_name piece false name member

theorem rooted_named (text : Text) (named : text ≠ []) : rooted text = components text := by
  rw [rooted, if_neg named]

/-- A text with a character in front of the end that is no dot: the last name holds what
stands there. -/
theorem name_behind (front tail : Text) (char : Char) (other : char ≠ '.') (slash : char ≠ '/')
    (free : '/' ∉ tail) :
    ∃ piece before, components (front ++ char :: tail) = before ++ [.normal (piece ++ char :: tail)] := by
  obtain ⟨piece, last⟩ := last_piece_exists front
  have whole := last_piece_append front piece (char :: tail) last (by simp [free, slash.symm])
  obtain ⟨before, found⟩ := components_last_piece _ _ whole
    (solid_of_mem _ char (by simp) other)
  exact ⟨piece, before, found⟩

theorem normal_last (before other : List Component) (one two : Text)
    (same : before ++ [.normal one] = other ++ [.normal two]) : one = two := by
  have last := (List.append_inj' same rfl).2
  simpa using last

theorem shown_apart_free (front tail : Text) (free : '/' ∉ tail) :
    components (front ++ separator ++ tail) ≠ rooted tail ∧
      ∀ chain, components (front ++ separator ++ tail) ≠ components (chain ++ ':' :: tail) := by
  obtain ⟨piece, before, shown⟩ := name_behind (front ++ [' ', '>']) tail ' ' (by decide) (by decide)
    free
  have spelled : front ++ separator ++ tail = front ++ [' ', '>'] ++ ' ' :: tail := by
    simp [separator]
  rw [spelled, shown]
  constructor
  · intro same
    have member : Component.normal (piece ++ ' ' :: tail) ∈ rooted tail := by
      rw [← same]
      simp
    have length := congrArg List.length (normal_of_free tail _ free member)
    rw [List.length_append, List.length_cons] at length
    omega
  · intro chain same
    obtain ⟨other, start, held⟩ := name_behind chain tail ':' (by decide) (by decide) free
    rw [held] at same
    have names := normal_last _ _ _ _ same
    -- the same tail, but a blank in front of it and a colon
    rw [List.append_cons, List.append_cons other, List.append_cancel_right_eq] at names
    have chars := (List.append_inj' names rfl).2
    simp at chars

/-- A path shown behind others is neither the path alone nor the path in a chain. -/
theorem shown_apart (front tail : Text) :
    (tail ≠ [] → components (front ++ separator ++ tail) ≠ components tail) ∧
      ∀ chain, components (front ++ separator ++ tail) ≠ components (chain ++ ':' :: tail) := by
  have nonempty : ∀ first : Text, front ++ separator ++ first ≠ [] := by simp [separator]
  rcases cut_first '/' tail with free | ⟨first, rest, rfl, free⟩
  · obtain ⟨alone, inChain⟩ := shown_apart_free front tail free
    refine ⟨fun named => ?_, inChain⟩
    rwa [rooted_named tail named] at alone
  · obtain ⟨alone, inChain⟩ := shown_apart_free front first free
    constructor
    · intro _ same
      rw [← List.append_assoc, components_slash, components_slash,
        List.append_cancel_right_eq, rooted_named _ (nonempty first)] at same
      exact alone same
    · intro chain same
      rw [← List.append_assoc, ← List.cons_append, ← List.append_assoc, components_slash,
        components_slash, List.append_cancel_right_eq, rooted_named _ (nonempty first),
        rooted_named _ (by simp)] at same
      exact inChain chain same

/-- The last name of a path shown behind others: the path itself has only that name at
its end. -/
theorem shown_name_apart (front chain path name : Text) (slash : '/' ∈ path)
    (found : fileName path = some name) :
    components (front ++ separator ++ (name ++ logSuffix)) ≠
      components (chain ++ (path ++ logSuffix)) := by
  have suffix_free : '/' ∉ logSuffix := by decide
  have name_free : '/' ∉ name := normal_free path name (file_name_component path name found)
  obtain ⟨piece, free, rfl | ⟨base, rfl⟩⟩ := last_piece_exists path
  · exact absurd slash free
  · intro same
    obtain ⟨other, before, shown⟩ := name_behind (front ++ [' ', '>']) (name ++ logSuffix) ' '
      (by decide) (by decide) (by simp [name_free, suffix_free])
    have whole := last_piece_append _ piece logSuffix (last_piece_behind chain base piece free)
      suffix_free
    obtain ⟨start, held⟩ := components_last_piece _ _ whole
      (solid_of_mem _ 'l' (by simp [logSuffix]) (by decide))
    have spelled : front ++ separator ++ (name ++ logSuffix) =
        front ++ [' ', '>'] ++ ' ' :: (name ++ logSuffix) := by simp [separator]
    rw [spelled, shown, ← List.append_assoc, held] at same
    have names := normal_last _ _ _ _ same
    rw [← List.cons_append, ← List.append_assoc, List.append_cancel_right_eq] at names
    -- so the path ends in a longer name than its last one
    have solid : Solid piece := by
      rw [← names]
      exact solid_of_mem _ ' ' (by simp) (by decide)
    obtain ⟨above, last⟩ := components_last_piece (base ++ '/' :: piece) piece
      ⟨free, Or.inr ⟨base, rfl⟩⟩ solid
    rw [fileName, last, List.getLast?_concat] at found
    have equal : piece = name := by simpa using found
    have length := congrArg List.length names
    rw [equal, List.length_append, List.length_cons] at length
    omega

/-- The log of what is shown in the place of the chain's last path is not the last
path's own. -/
def LogsApart (front last shown : Text) : Prop :=
  components (logPathFor (front ++ separator ++ shown)) ≠ components (logPathFor last) ∧
    ∀ chain, components (logPathFor (front ++ separator ++ shown)) ≠
      components (logPathFor (chain ++ ':' :: last))

theorem logs_apart_whole (front last : Text) : LogsApart front last last := by
  have apart := shown_apart front (last ++ logSuffix)
  simp only [List.append_assoc] at apart
  simp only [LogsApart, logPathFor, List.append_assoc, List.cons_append]
  exact ⟨apart.1 (by simp [logSuffix]), apart.2⟩

theorem logs_apart_name (front last name : Text) (slash : '/' ∈ last)
    (found : fileName last = some name) : LogsApart front last name := by
  have apart := fun chain => shown_name_apart front chain last name slash found
  simp only [List.append_assoc] at apart
  simp only [LogsApart, logPathFor, List.append_assoc, List.cons_append]
  refine ⟨apart [], fun chain => ?_⟩
  have inChain := apart (chain ++ [':'])
  rwa [List.append_assoc, List.singleton_append] at inChain

theorem logs_apart (front last : Text) : LogsApart front last (baseName last) := by
  rw [baseName]
  cases found : fileName last with
  | none => exact logs_apart_whole front last
  | some name =>
    by_cases slash : '/' ∈ last
    · exact logs_apart_name front last name slash found
    · have member := file_name_component last name found
      rw [components_free last slash, Option.mem_toList] at member
      rw [Option.getD_some, first_component_name last false name member]
      exact logs_apart_whole front last

end Hytch.DisplayNames
