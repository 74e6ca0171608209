import Hytch.LogHistory

/-!
How much of a log a trim keeps, from above and from below. The history is the
log as it would be had nothing been trimmed; the file is always an end of it, at
most a lookback longer than the cap. From below there is no such bound: bytes
that continue a character are dropped as long as they go on.
-/

namespace Hytch.LogBounds

open FilePrograms SafeTrim LogHistory

variable {Cell : Type} (octet : Cell → UInt8)

/-- A call on the log: it is opened again, or bytes are appended. -/
inductive LogCall (Cell : Type) where
  | reopen
  | append (data : List Cell)

def LogCall.written : LogCall Cell → List Cell
  | .reopen => []
  | .append data => data

def writtenBy (calls : List (LogCall Cell)) : List Cell := (calls.map LogCall.written).flatten

section Code

variable [Inhabited Cell]

/-- `none` is a panic or a fault. Opening starts at the beginning of the file. -/
def openFile (cap : Nat) (content : List Cell) : Option (SessionLog × File Cell) :=
  match (SessionLog.openLog octet cap).exec { content := content, cursor := 0 } with
  | some (.ok log, file) => some (log, file)
  | _ => none

def callLog (cap : Nat) (log : SessionLog) (file : File Cell) :
    LogCall Cell → Option (SessionLog × File Cell)
  | .reopen => openFile octet cap file.content
  | .append data =>
      match (SessionLog.append octet log data).exec file with
      | some ((.ok (), log), file) => some (log, file)
      | _ => none

def callAll (cap : Nat) : SessionLog → File Cell → List (LogCall Cell) →
    Option (SessionLog × File Cell)
  | log, file, [] => some (log, file)
  | log, file, call :: rest =>
      (callLog octet cap log file call).bind fun after => callAll cap after.1 after.2 rest

def useCalls (cap : Nat) (initial : List Cell) (calls : List (LogCall Cell)) :
    Option (SessionLog × File Cell) :=
  (openFile octet cap initial).bind fun opened => callAll octet cap opened.1 opened.2 calls

end Code

/-- Where the log stands after some calls, `history` being all it was ever given. -/
structure Bounded (cap : Nat) (history : List Cell) (log : SessionLog) (file : File Cell) : Prop where
  suffix : file.content <:+ history
  size : file.content.length ≤ cap + escapeLookback
  position : file.cursor = file.content.length
  known : log.currentSize = file.content.length
  capped : log.maxSize = cap

theorem trim_point_back (stream : List UInt8) (cut point : Nat) (trims : TrimPoint stream cut point) :
    cut ≤ point + escapeLookback := by
  cases trims with
  | escape opened => exact opened.near
  | character closed skips => exact Nat.le_trans skips.forward (Nat.le_add_right _ _)

theorem drops_bounded (cap count : Nat) (stream : List Cell) (drops : Drops octet cap stream count) :
    (stream.drop count).length ≤ cap + escapeLookback := by
  rw [List.length_drop]
  cases drops with
  | fits small => omega
  | trims large trims =>
    have := trim_point_back _ _ count trims
    omega

theorem safe_trim_start_inside (buf : List UInt8) (naiveCut start : Nat)
    (found : safeTrimStart buf naiveCut = some start) : start ≤ buf.length := by
  by_cases inside : naiveCut ≤ buf.length
  · obtain ⟨other, also, trims⟩ := safe_trim_start_meets buf naiveCut inside
    rw [found] at also
    cases also
    exact trim_point_inside buf naiveCut start trims
  · simp [safeTrimStart, BoundedTail.slice?, inside] at found

variable [Inhabited Cell]

theorem open_bounded (cap : Nat) (content history : List Cell) (suffix : content <:+ history) :
    ∃ log file, openFile octet cap content = some (log, file) ∧
      Bounded cap history log file := by
  obtain ⟨count, log, drops, opened, capped, holds⟩ := SessionLog.open_exec octet cap
    ({ content := content, cursor := 0 } : File Cell)
  refine ⟨log, atEnd (content.drop count), by rw [openFile, opened], ?_⟩
  exact { suffix := (List.drop_suffix count content).trans suffix
          size := drops_bounded octet cap count content drops
          position := rfl
          known := holds.size
          capped := capped }

theorem append_bounded (cap : Nat) (log : SessionLog) (file : File Cell) (history data : List Cell)
    (bounded : Bounded cap history log file) :
    ∃ grown after, callLog octet cap log file (.append data) = some (grown, after) ∧
      Bounded cap (history ++ data) grown after := by
  have holds : log.Holds file file.content :=
    { file := by rw [atEnd, ← bounded.position], size := bounded.known }
  obtain ⟨count, grown, drops, appended, capped, held⟩ :=
    log.append_exec octet file file.content data holds
  rw [bounded.capped] at drops capped
  obtain ⟨earlier, same⟩ := bounded.suffix
  have longer : file.content ++ data <:+ history ++ data :=
    ⟨earlier, by rw [← List.append_assoc, same]⟩
  refine ⟨grown, atEnd ((file.content ++ data).drop count), by rw [callLog, appended], ?_⟩
  exact { suffix := (List.drop_suffix count _).trans longer
          size := drops_bounded octet cap count _ drops
          position := rfl
          known := held.size
          capped := capped }

theorem call_bounded (cap : Nat) (log : SessionLog) (file : File Cell) (history : List Cell)
    (call : LogCall Cell) (bounded : Bounded cap history log file) :
    ∃ grown after, callLog octet cap log file call = some (grown, after) ∧
      Bounded cap (history ++ call.written) grown after := by
  cases call with
  | reopen =>
    rw [LogCall.written, List.append_nil]
    exact open_bounded octet cap file.content history bounded.suffix
  | append data => exact append_bounded octet cap log file history data bounded

theorem calls_bounded (cap : Nat) (log : SessionLog) (file : File Cell) (history : List Cell)
    (calls : List (LogCall Cell)) (bounded : Bounded cap history log file) :
    ∃ grown after, callAll octet cap log file calls = some (grown, after) ∧
      Bounded cap (history ++ writtenBy calls) grown after := by
  induction calls generalizing log file history with
  | nil => exact ⟨log, file, rfl, by simpa [writtenBy] using bounded⟩
  | cons call rest ih =>
    obtain ⟨middle, between, called, kept⟩ := call_bounded octet cap log file history call bounded
    obtain ⟨grown, after, ran, result⟩ := ih middle between _ kept
    refine ⟨grown, after, by rw [callAll, called, Option.bind_some, ran], ?_⟩
    have split : history ++ writtenBy (call :: rest) = history ++ call.written ++ writtenBy rest := by
      simp [writtenBy]
    rwa [split]

/-- Whatever is in the file and whatever is appended: the log ends as its history
does, never grows more than a lookback over its cap, stays at its end and knows
its size; and no index is out of bounds, in the slices and in what is kept. -/
theorem log_stays_bounded (initial : List Cell) (cap : Nat) (calls : List (LogCall Cell)) :
    (∃ log file, useCalls octet cap initial calls = some (log, file) ∧
      file.content <:+ initial ++ writtenBy calls ∧
      file.content.length ≤ cap + escapeLookback ∧
      file.cursor = file.content.length ∧
      log.currentSize = file.content.length) ∧
    ∀ buf naiveCut start, safeTrimStart buf naiveCut = some start → start ≤ buf.length := by
  obtain ⟨log, file, opened, bounded⟩ := open_bounded octet cap initial initial List.suffix_rfl
  obtain ⟨grown, after, ran, result⟩ := calls_bounded octet cap log file initial calls bounded
  refine ⟨⟨grown, after, ?_, result.suffix, result.size, result.position, result.known⟩,
    safe_trim_start_inside⟩
  rw [useCalls, opened, Option.bind_some]
  exact ran

omit [Inhabited Cell] in
theorem drop_suffix_iff (stream : List Cell) (first second : Nat) (inside : first ≤ stream.length)
    (other_inside : second ≤ stream.length) :
    stream.drop first <:+ stream.drop second ↔ second ≤ first := by
  constructor
  · intro suffix
    have shorter := suffix.length_le
    rw [List.length_drop, List.length_drop] at shorter
    omega
  · intro earlier
    have same : stream.drop first = (stream.drop second).drop (first - second) := by
      rw [List.drop_drop, Nat.add_sub_cancel' earlier]
    rw [same]
    exact List.drop_suffix _ _

section Retention

variable (cap : Nat) (stream : List UInt8)

/-- One of the first four bytes behind the cut starts a character. -/
def CharacterNear (cut : Nat) : Prop :=
  ∃ offset byte, offset ≤ 3 ∧ stream[cut + offset]? = some byte ∧ isContinuation byte = false

theorem skips_three_iff (cut stop : Nat) (room : cut + 3 < stream.length)
    (skips : SkipsTo stream cut stop) : stop ≤ cut + 3 ↔ CharacterNear stream cut := by
  constructor
  · intro near
    have forward := skips.forward
    refine ⟨stop - cut, stream[stop], by omega, ?_, ?_⟩
    · rw [Nat.add_sub_cancel' forward, List.getElem?_eq_getElem]
    · exact skips.stops _ (List.getElem?_eq_getElem (by omega))
  · rintro ⟨offset, byte, small, there, starts⟩
    by_contra beyond
    obtain ⟨other, also, continues⟩ := skips.continues (cut + offset) (by omega) (by omega)
    rw [there] at also
    cases also
    rw [starts] at continues
    cases continues

/-- A trim keeps the last `cap - 3` bytes unless continuation bytes go on for four
and no escape sequence is open at the cut. -/
theorem rotated_retains_iff (trims : cap < stream.length) :
    stream.drop (stream.length - (cap - 3)) <:+ rotated cap stream ↔
      cap ≤ 3 ∨ (∃ position, OpenEscape stream (stream.length - cap) position) ∨
        CharacterNear stream (stream.length - cap) := by
  obtain ⟨count, drops, same⟩ := rotated_drops cap stream
  have inside := drops_inside id cap stream count drops
  rw [same, drop_suffix_iff stream _ _ (by omega) inside]
  rcases Nat.lt_or_ge 3 cap with large | small
  · cases drops with
    | fits fits => omega
    | trims _ point =>
      rw [List.map_id] at point
      cases point with
      | escape opened =>
        have before := opened.before
        exact iff_of_true (by omega) (Or.inr (Or.inl ⟨count, opened⟩))
      | character closed skips =>
        have near := skips_three_iff stream _ count (by omega) skips
        have same_place : stream.length - (cap - 3) = stream.length - cap + 3 := by omega
        rw [same_place, near]
        constructor
        · exact fun found => Or.inr (Or.inr found)
        · rintro (tiny | ⟨position, opened⟩ | found)
          · omega
          · exact absurd opened (closed position)
          · exact found
  · exact iff_of_true (by omega) (Or.inl small)

theorem rotated_retains_plain_byte :
    [0x61, 0x62, 0x63, 0x64, 0x65].drop 4 <:+ rotated 4 [0x61, 0x62, 0x63, 0x64, 0x65] :=
  (rotated_retains_iff 4 [0x61, 0x62, 0x63, 0x64, 0x65] (by decide)).mpr
    (Or.inr (Or.inr ⟨0, 0x62, by decide, rfl, by decide⟩))

/-- Five continuation bytes under a cap of four: nothing is left. -/
theorem rotated_keeps_nothing :
    rotated 4 [0x80, 0x80, 0x80, 0x80, 0x80] = [] ∧
      ¬ [0x80, 0x80, 0x80, 0x80, 0x80].drop 4 <:+ rotated 4 [0x80, 0x80, 0x80, 0x80, 0x80] := by
  have emptied : rotated 4 [0x80, 0x80, 0x80, 0x80, 0x80] = [] := by decide
  rw [emptied]
  decide

end Retention

end Hytch.LogBounds
