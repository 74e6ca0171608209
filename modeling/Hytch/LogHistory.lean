import Hytch.SessionLog

/-!
A log trimmed after every chunk and at every reopen against one trim of the
whole stream. The content between two calls is always the stream without the
bytes before some trim point; a later, smaller cut of that remainder is the
same cut of the stream, because no open escape sequence can start among the
bytes already dropped.
-/

namespace Hytch.LogHistory

open FilePrograms SafeTrim

variable {Cell : Type} (octet : Cell → UInt8)

/-- One lifetime of the log: a cap and the chunks appended under it. -/
structure LogRun (Cell : Type) where
  cap : Nat
  chunks : List (List Cell)

def LogRun.appended (logRun : LogRun Cell) : List Cell := logRun.chunks.flatten

def appendedBy (logRuns : List (LogRun Cell)) : List Cell := (logRuns.map LogRun.appended).flatten

section Code

variable [Inhabited Cell]

/-- The bytes `rotateLogFile` leaves of a file. -/
def rot (cap : Nat) (stream : List Cell) : Option (List Cell) :=
  ((rotateLogFile octet cap).exec { content := stream, cursor := 0 }).map fun outcome =>
    outcome.2.content

def appendAll : SessionLog → File Cell → List (List Cell) → Option (File Cell)
  | _, file, [] => some file
  | log, file, chunk :: rest =>
      match (SessionLog.append octet log chunk).exec file with
      | some ((.ok (), log), file) => appendAll log file rest
      | _ => none

def useLog (content : List Cell) (logRun : LogRun Cell) : Option (List Cell) :=
  match (SessionLog.openLog octet logRun.cap).exec { content := content, cursor := 0 } with
  | some (.ok log, file) => (appendAll octet log file logRun.chunks).map File.content
  | _ => none

def useLogs : List Cell → List (LogRun Cell) → Option (List Cell)
  | content, [] => some content
  | content, logRun :: rest => (useLog octet content logRun).bind fun content => useLogs content rest

end Code

/-- Every stretch of `length` cells has one that continues no character. -/
def LacksRun (length : Nat) (stream : List Cell) : Prop :=
  ∀ window : List Cell, window <:+: stream → window.length = length →
    ∃ cell ∈ window, ¬ (0x80 ≤ octet cell ∧ octet cell ≤ 0xbf)

/-- The content a trim to `cap` leaves of the stream. -/
def Trimmed (cap : Nat) (stream content : List Cell) : Prop :=
  ∃ count, Drops octet cap stream count ∧ content = stream.drop count

theorem lacks_run_append (length : Nat) (older newer : List Cell)
    (lacks : LacksRun octet length (older ++ newer)) : LacksRun octet length older := by
  intro window inside
  exact lacks window (inside.trans (List.prefix_append older newer).isInfix)

theorem lacks_run_longer (length longer : Nat) (stream : List Cell) (more : length ≤ longer)
    (lacks : LacksRun octet length stream) : LacksRun octet longer stream := by
  intro window inside size
  obtain ⟨cell, member, other⟩ := lacks (window.take length)
    ((List.take_prefix length window).isInfix.trans inside) (by rw [List.length_take]; omega)
  exact ⟨cell, List.mem_of_mem_take member, other⟩

section Positions

variable (older newer : List UInt8)

/-- What lies before the cut does not change when the stream grows or the cut
moves on; an escape sequence still open later was open earlier. -/
theorem open_escape_earlier (cut later position : Nat) (inside : cut ≤ older.length)
    (forward : cut ≤ later) (before : position < cut)
    (opened : OpenEscape (older ++ newer) later position) : OpenEscape older cut position := by
  have old (index : Nat) (early : index < cut) : (older ++ newer)[index]? = older[index]? :=
    List.getElem?_append_left (by omega)
  have shorter : ((older ++ newer).drop position).take (cut - position) =
      (older.drop position).take (cut - position) := by
    rw [List.drop_append_of_le_length (by omega), List.take_append_of_le_length]
    rw [List.length_drop]
    omega
  constructor
  · exact before
  · exact Nat.le_trans forward opened.near
  · rw [← old position before]
    exact opened.starts
  · intro index after early
    rw [← old index early]
    exact opened.last index after (by omega)
  · rw [← shorter]
    by_contra closed
    have whole := opened.unterminated
    have wider : ((older ++ newer).drop position).take (cut - position) =
        (((older ++ newer).drop position).take (later - position)).take (cut - position) := by
      rw [List.take_take, Nat.min_eq_left (by omega)]
    rw [wider] at closed
    rw [terminated_take _ _ (by simpa using closed)] at whole
    cases whole

theorem continues_iff (byte : UInt8) :
    isContinuation byte = true ↔ 0x80 ≤ byte ∧ byte ≤ 0xbf := by
  rw [isContinuation_iff, UInt8.le_iff_toNat_le, UInt8.le_iff_toNat_le]
  rfl

theorem none_open_before (cut later point position : Nat) (inside : cut ≤ older.length)
    (forward : cut ≤ later) (trims : TrimPoint older cut point)
    (opened : OpenEscape (older ++ newer) later position) : point ≤ position ∨ later ≤ point := by
  by_contra both
  have early : position < point := by omega
  cases trims with
  | escape other =>
    -- the earlier trim stopped at an ESC, a later one than `position`
    have found : (older ++ newer)[point]? = some esc := by
      rw [List.getElem?_append_left (by have := other.before; omega)]
      exact other.starts
    exact opened.last point early (by omega) found
  | character closed skips =>
    by_cases before : position < cut
    · exact closed position (open_escape_earlier older newer cut later position inside forward
        before opened)
    · obtain ⟨byte, there, continues⟩ := skips.continues position (by omega) early
      have starts := opened.starts
      rw [List.getElem?_append_left (by have := skips.inside; omega), there] at starts
      cases starts
      rw [isContinuation_esc] at continues
      cases continues

/-- A later cut that falls before an earlier trim point stops at that point,
unless characters continue through the rest of the older stream. -/
theorem trim_point_kept (cut later point : Nat) (inside : cut ≤ older.length)
    (forward : cut ≤ later) (covered : later ≤ point) (trims : TrimPoint older cut point)
    (ends : point < older.length) : TrimPoint (older ++ newer) later point := by
  cases trims with
  | escape opened =>
    have := opened.before
    omega
  | character closed skips =>
    have old (index : Nat) (early : index ≤ point) : (older ++ newer)[index]? = older[index]? :=
      List.getElem?_append_left (by omega)
    refine .character ?_ ?_
    · intro position opened
      have before := opened.before
      by_cases early : position < cut
      · exact closed position (open_escape_earlier older newer cut later position inside forward
          early opened)
      · obtain ⟨byte, there, continues⟩ := skips.continues position (by omega) (by omega)
        have starts := opened.starts
        rw [old position (by omega), there] at starts
        cases starts
        rw [isContinuation_esc] at continues
        cases continues
    · constructor
      · exact covered
      · rw [List.length_append]
        omega
      · intro position from_later before
        rw [old position (by omega)]
        exact skips.continues position (by omega) before
      · intro byte there
        rw [old point (Nat.le_refl _)] at there
        exact skips.stops byte there

end Positions

theorem point_before_end (cap point : Nat) (stream : List Cell) (positive : 0 < cap)
    (large : cap < stream.length) (lacks : LacksRun octet cap stream)
    (trims : TrimPoint (stream.map octet) (stream.length - cap) point) : point < stream.length := by
  have inside := trim_point_inside _ _ point trims
  rw [List.length_map] at inside
  rcases Nat.lt_or_ge point stream.length with before | ended
  · exact before
  · cases trims with
    | escape opened =>
      have := opened.before
      omega
    | character closed skips =>
      obtain ⟨cell, member, other⟩ := lacks (stream.drop (stream.length - cap))
        (List.drop_suffix _ _).isInfix (by rw [List.length_drop]; omega)
      obtain ⟨index, bound, rfl⟩ := List.getElem_of_mem member
      rw [List.length_drop] at bound
      obtain ⟨byte, there, continues⟩ := skips.continues (stream.length - cap + index) (by omega)
        (by omega)
      rw [List.getElem?_map, List.getElem?_eq_getElem (by omega)] at there
      cases there
      rw [List.getElem_drop] at other
      exact absurd ((continues_iff _).mp continues) other

/-- Trimming what an earlier trim left, with new data behind it, drops what one
trim of the whole stream drops. -/
theorem trimmed_absorbs (cap smaller count : Nat) (older newer content : List Cell)
    (positive : 0 < cap) (shrinks : smaller ≤ cap) (lacks : LacksRun octet cap older)
    (trimmed : Trimmed octet cap older content)
    (drops : Drops octet smaller (content ++ newer) count) :
    Trimmed octet smaller (older ++ newer) ((content ++ newer).drop count) := by
  obtain ⟨point, dropped, rfl⟩ := trimmed
  have inside := drops_inside octet cap older point dropped
  have rest : older.drop point ++ newer = (older ++ newer).drop point :=
    (List.drop_append_of_le_length inside).symm
  have remaining : (older.drop point ++ newer).length = (older ++ newer).length - point := by
    rw [rest, List.length_drop]
  refine ⟨point + count, ?_, by rw [rest, List.drop_drop]⟩
  cases dropped with
  | fits small => simpa using drops
  | trims large trims =>
    have whole : smaller < (older ++ newer).length := by
      rw [List.length_append]
      omega
    have forward : older.length - cap ≤ (older ++ newer).length - smaller := by
      rw [List.length_append]
      omega
    apply Drops.trims whole
    -- the second trim may cut before the point the first one moved to, or behind it
    cases drops with
    | fits small =>
      have before_end := point_before_end octet cap point older positive large lacks trims
      rw [List.map_append]
      exact trim_point_kept (older.map octet) (newer.map octet) _ _ point (by simp) forward (by omega)
        trims (by simpa using before_end)
    | trims large_rest trims_rest =>
      have past : point < (older ++ newer).length - smaller := by omega
      have split : point + ((older ++ newer).length - smaller - point) =
          (older ++ newer).length - smaller := by omega
      have relative : (older.drop point ++ newer).length - smaller =
          (older ++ newer).length - smaller - point := by omega
      have none_dropped : ∀ position, OpenEscape ((older ++ newer).map octet)
          (point + ((older ++ newer).length - smaller - point)) position → point ≤ position := by
        intro position opened
        rw [split, List.map_append] at opened
        rcases none_open_before (older.map octet) (newer.map octet) _ _ point position (by simp)
          forward trims opened with later | covered
        · exact later
        · omega
      rw [relative, rest, List.map_drop] at trims_rest
      have shifted := trim_point_shift _ point _ count (by rw [List.length_map]; omega) none_dropped
        trims_rest
      rwa [split] at shifted

variable [Inhabited Cell]

theorem append_all_trimmed (cap : Nat) (log : SessionLog) (file : File Cell)
    (stream content : List Cell) (chunks : List (List Cell)) (positive : 0 < cap)
    (same : log.maxSize = cap) (holds : log.Holds file content)
    (trimmed : Trimmed octet cap stream content)
    (lacks : LacksRun octet cap (stream ++ chunks.flatten)) :
    ∃ after, appendAll octet log file chunks = some (atEnd after) ∧
      Trimmed octet cap (stream ++ chunks.flatten) after := by
  induction chunks generalizing log file stream content with
  | nil => exact ⟨content, by rw [appendAll, holds.file], by simpa using trimmed⟩
  | cons chunk rest ih =>
    obtain ⟨count, grown, drops, ran, kept, held⟩ := log.append_exec octet file content chunk holds
    rw [same] at drops kept
    have absorbed := trimmed_absorbs octet cap cap count stream chunk content positive
      (Nat.le_refl _) (lacks_run_append octet cap stream _ lacks) trimmed drops
    rw [List.flatten_cons, ← List.append_assoc] at lacks ⊢
    rw [appendAll, ran]
    exact ih grown _ (stream ++ chunk) _ kept held absorbed lacks

theorem use_log_trimmed (cap : Nat) (stream content : List Cell) (logRun : LogRun Cell)
    (positive : 0 < logRun.cap) (shrinks : logRun.cap ≤ cap)
    (trimmed : Trimmed octet cap stream content)
    (lacks : LacksRun octet logRun.cap (stream ++ logRun.appended)) :
    ∃ after, useLog octet content logRun = some after ∧
      Trimmed octet logRun.cap (stream ++ logRun.appended) after := by
  obtain ⟨count, log, drops, opened, same, holds⟩ := SessionLog.open_exec octet logRun.cap
    ({ content := content, cursor := 0 } : File Cell)
  have lacks_older := lacks_run_longer octet logRun.cap cap stream shrinks
    (lacks_run_append octet _ stream _ lacks)
  have reopened := trimmed_absorbs octet cap logRun.cap count stream [] content (by omega) shrinks
    lacks_older trimmed (by simpa using drops)
  rw [List.append_nil, List.append_nil] at reopened
  obtain ⟨after, appended, result⟩ := append_all_trimmed octet logRun.cap log _ stream _
    logRun.chunks positive same holds reopened lacks
  refine ⟨after, ?_, result⟩
  rw [useLog, opened]
  simp only [appended]
  rfl

theorem use_logs_trimmed (shortest cap : Nat) (stream content : List Cell)
    (logRuns : List (LogRun Cell)) (positive : 0 < shortest)
    (shrinking : (cap :: logRuns.map LogRun.cap).Pairwise (· ≥ ·))
    (least : ∀ logRun ∈ logRuns, shortest ≤ logRun.cap)
    (trimmed : Trimmed octet cap stream content)
    (lacks : LacksRun octet shortest (stream ++ appendedBy logRuns)) :
    ∃ after, useLogs octet content logRuns = some after ∧
      Trimmed octet ((logRuns.map LogRun.cap).getLastD cap) (stream ++ appendedBy logRuns) after := by
  -- one lifetime of the log at a time; `cap` is the one before
  induction logRuns generalizing cap stream content with
  | nil => exact ⟨content, rfl, by simpa [appendedBy] using trimmed⟩
  | cons logRun rest ih =>
    have above := least logRun List.mem_cons_self
    rw [List.map_cons, List.pairwise_cons] at shrinking
    have split : stream ++ appendedBy (logRun :: rest) =
        (stream ++ logRun.appended) ++ appendedBy rest := by simp [appendedBy]
    rw [split] at lacks ⊢
    obtain ⟨middle, used, between⟩ := use_log_trimmed octet cap stream content logRun (by omega)
      (shrinking.1 _ List.mem_cons_self) trimmed
      (lacks_run_longer octet shortest _ _ above (lacks_run_append octet shortest _ _ lacks))
    obtain ⟨after, ran, result⟩ := ih logRun.cap _ middle shrinking.2
      (fun other member => least other (List.mem_cons_of_mem _ member)) between lacks
    refine ⟨after, by rw [useLogs, used, Option.bind_some, ran], ?_⟩
    rwa [List.map_cons, List.getLastD_cons]

/-- What one rotation leaves of a file of bytes. -/
def rotated (cap : Nat) (stream : List UInt8) : List UInt8 := (rot id cap stream).getD []

theorem rotated_drops (cap : Nat) (stream : List UInt8) :
    ∃ count, Drops id cap stream count ∧ rotated cap stream = stream.drop count := by
  obtain ⟨count, drops, ran⟩ := rotate_exec id cap ({ content := stream, cursor := 0 } : File UInt8)
  refine ⟨count, drops, ?_⟩
  rw [rotated, rot, ran]
  rfl

theorem rotated_eq (cap count : Nat) (stream : List UInt8) (drops : Drops id cap stream count) :
    rotated cap stream = stream.drop count := by
  obtain ⟨other, also, same⟩ := rotated_drops cap stream
  rw [same, drops_unique id cap stream count other drops also]

theorem rotated_fits (cap : Nat) (stream : List UInt8) (small : stream.length ≤ cap) :
    rotated cap stream = stream :=
  rotated_eq cap 0 stream (.fits small)

theorem rotated_length_le (cap : Nat) (stream : List UInt8) :
    (rotated cap stream).length ≤ stream.length := by
  obtain ⟨count, _, same⟩ := rotated_drops cap stream
  rw [same, List.length_drop]
  exact Nat.sub_le _ _

/-- A rotation keeps what fits in the cap, when that starts a character. -/
theorem rotated_keeps_end (cap : Nat) (front back : List UInt8) (fits : back.length ≤ cap)
    (starts : ∀ byte, back[0]? = some byte → isContinuation byte = false) :
    back <:+ rotated cap (front ++ back) := by
  obtain ⟨count, drops, same⟩ := rotated_drops cap (front ++ back)
  have before : count ≤ front.length := by
    cases drops with
    | fits small => exact Nat.zero_le _
    | trims large trims =>
      rw [List.map_id] at trims
      have cut : (front ++ back).length - cap ≤ front.length := by
        rw [List.length_append]
        omega
      cases trims with
      | escape opened => exact Nat.le_trans (Nat.le_of_lt opened.before) cut
      | character closed skips =>
        by_contra beyond
        obtain ⟨byte, there, continues⟩ := skips.continues front.length cut (by omega)
        rw [List.getElem?_append_right (Nat.le_refl _), Nat.sub_self] at there
        rw [starts byte there] at continues
        cases continues
  rw [same, List.drop_append_of_le_length before]
  exact List.suffix_append _ _

/-- However the stream was cut into chunks and however often the log was
reopened under shrinking caps, the log is one trim of the whole stream. -/
theorem trimming_ignores_history (initial : List UInt8) (earlier : List (LogRun UInt8))
    (last : LogRun UInt8) (positive : 1 ≤ last.cap)
    (shrinking : ((earlier ++ [last]).map LogRun.cap).Pairwise (· ≥ ·))
    (lacks : LacksRun id last.cap (initial ++ appendedBy (earlier ++ [last]))) :
    ∃ content, useLogs id initial (earlier ++ [last]) = some content ∧
      rot id last.cap (initial ++ appendedBy (earlier ++ [last])) = some content := by
  have least : ∀ logRun ∈ earlier ++ [last], last.cap ≤ logRun.cap := by
    intro logRun member
    rw [List.map_append, List.pairwise_append] at shrinking
    rcases List.mem_append.mp member with before | final
    · exact shrinking.2.2 _ (List.mem_map_of_mem before) _ (by simp)
    · rw [List.mem_singleton.mp final]
  obtain ⟨first, rest, shape⟩ : ∃ first rest, earlier ++ [last] = first :: rest :=
    List.exists_cons_of_ne_nil (by simp)
  -- before the first open the content counts as trimmed to a cap it fits in
  have untrimmed : Trimmed id (initial.length + first.cap) initial initial :=
    ⟨0, .fits (Nat.le_add_right _ _), rfl⟩
  have from_first : ((initial.length + first.cap) ::
      (earlier ++ [last]).map LogRun.cap).Pairwise (· ≥ ·) := by
    apply List.pairwise_cons.mpr
    refine ⟨?_, shrinking⟩
    rw [shape, List.map_cons] at shrinking ⊢
    intro cap member
    rcases List.mem_cons.mp member with rfl | later
    · exact Nat.le_add_left _ _
    · exact Nat.le_trans ((List.pairwise_cons.mp shrinking).1 cap later) (Nat.le_add_left _ _)
  obtain ⟨content, used, count, drops, same⟩ := use_logs_trimmed id last.cap _ initial initial
    (earlier ++ [last]) positive from_first least untrimmed lacks
  refine ⟨content, used, ?_⟩
  obtain ⟨other, whole, rotated⟩ := rotate_exec id last.cap
    ({ content := initial ++ appendedBy (earlier ++ [last]), cursor := 0 } : File UInt8)
  have final_cap : ((earlier ++ [last]).map LogRun.cap).getLastD
      (initial.length + first.cap) = last.cap := by simp
  rw [final_cap] at drops
  rw [rot, rotated, same, drops_unique id last.cap _ count other drops whole]
  rfl

/-- An SGR sequence written in three pieces, the log reopened under a smaller
cap in between. -/
theorem trimming_ignores_history_split_escape :
    ∃ content, useLogs id [0x61, 0x1b] [⟨3, [[0x5b, 0x33]]⟩, ⟨2, [[0x31, 0x6d], [0x62]]⟩] =
        some content ∧
      rot id 2 [0x61, 0x1b, 0x5b, 0x33, 0x31, 0x6d, 0x62] = some content := by
  refine trimming_ignores_history [0x61, 0x1b] [⟨3, [[0x5b, 0x33]]⟩] ⟨2, [[0x31, 0x6d], [0x62]]⟩
    (by decide) (by decide) ?_
  intro window inside size
  have ascii : ∀ cell ∈ ([0x61, 0x1b, 0x5b, 0x33, 0x31, 0x6d, 0x62] : List UInt8),
      ¬ (0x80 ≤ id cell ∧ id cell ≤ 0xbf) := by decide +kernel
  have some_cell : window ≠ [] := by
    rintro rfl
    cases size
  exact ⟨window.head some_cell, List.head_mem some_cell, ascii _ (inside.subset (List.head_mem some_cell))⟩

end Hytch.LogHistory
