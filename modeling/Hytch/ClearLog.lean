import Hytch.LogHistory
import Hytch.Runs

/-!
`commands::clear` on the log of a running session. The command truncates the
file through a descriptor of its own; the daemon keeps its offset and the size
it has counted. What the next append leaves is compared with a log that holds
nothing but the bytes appended since the clear.
-/

namespace Hytch.ClearLog

open FilePrograms SafeTrim LogHistory Runs

/-- `clear` on what opening the log for writing gives: the file afterwards, what
is printed, and the exit code. -/
def clear {Cell : Type} [Inhabited Cell] (name : String) (quiet : Bool) :
    Except IoError (List Cell) → Except IoError (List Cell) × List String × Nat
  | .ok content =>
      let file : File Cell := { content := content, cursor := 0 }
      (.ok (file.setLen 0).content, [], 0)
  | .error fault =>
      if fault.kind = .notFound then (.error fault, [], 0) -- nothing to clear
      else (.error fault, if quiet then [] else ["hytch: " ++ name ++ ": " ++ fault.message], 1)

inductive LogEvent where
  | append (data : List UInt8)
  | clear (name : String) (quiet : Bool)
  deriving DecidableEq

/-- The daemon's `SessionLog` with its open file. -/
structure OpenLog where
  log : SessionLog
  file : File UInt8

namespace OpenLog

def opened (cap : Nat) (content : List UInt8) : Option OpenLog :=
  match (SessionLog.openLog id cap).exec { content := content, cursor := 0 } with
  | some (.ok log, file) => some { log := log, file := file }
  | _ => none

def step (held : OpenLog) : LogEvent → Option OpenLog
  | .append data =>
      match (held.log.append id data).exec held.file with
      | some ((_, log), file) => some { log := log, file := file }
      | none => none
  | .clear name quiet =>
      match clear name quiet (.ok held.file.content) with
      -- the same file through another descriptor: the daemon's offset stays
      | (.ok content, _) => some { held with file := { held.file with content := content } }
      | _ => none

end OpenLog

/-- The log the events should leave: what was appended since the last clear,
rotated as it comes in. -/
def expected (cap : Nat) : List UInt8 → List LogEvent → List UInt8
  | kept, [] => kept
  | kept, .append data :: rest => expected cap (rotated cap (kept ++ data)) rest
  | _, .clear _ _ :: rest => expected cap [] rest

def sinceClear : List UInt8 → List LogEvent → List UInt8
  | appended, [] => appended
  | appended, .append data :: rest => sinceClear (appended ++ data) rest
  | _, .clear _ _ :: rest => sinceClear [] rest

/-- Throughout the run the log holds what was appended since the last clear. -/
def KeepsOnlyAppended (held : OpenLog) (events : List LogEvent) : Prop :=
  ∀ before, before <+: events → ∃ later, run OpenLog.step held before = some later ∧
    later.file.content = expected held.log.maxSize held.file.content before ∧
    later.file.content.length ≤ (sinceClear held.file.content before).length

/-- Data a trim to `cap` cuts no earlier than at its first byte, whatever is in front. -/
def FillsLog (cap : Nat) (data : List UInt8) : Prop :=
  cap < data.length ∨
    data.length = cap ∧ ∀ byte, data[0]? = some byte → isContinuation byte = false

/-- The daemon does not append past the end of a cleared file, or the trim takes
the hole away again. -/
def Sound (held : OpenLog) : LogEvent → Prop
  | .append data =>
      data = [] ∨ held.file.cursor ≤ held.file.content.length ∨ FillsLog held.log.maxSize data
  | .clear _ _ => True

theorem expected_length_le (cap : Nat) (kept counted : List UInt8) (events : List LogEvent)
    (less : kept.length ≤ counted.length) :
    (expected cap kept events).length ≤ (sinceClear counted events).length := by
  induction events generalizing kept counted with
  | nil => exact less
  | cons event rest ih =>
    cases event with
    | append data =>
      have shorter := rotated_length_le cap (kept ++ data)
      apply ih
      rw [List.length_append] at shorter ⊢
      omega
    | clear name quiet => exact ih [] [] (Nat.le_refl _)

section Hole

variable (offset : Nat) (data : List UInt8)

def hole (offset : Nat) : List UInt8 := List.replicate offset 0

theorem hole_byte (position : Nat) (inside : position < offset) :
    (hole offset ++ data)[position]? = some 0 := by
  rw [List.getElem?_append_left (by simpa [hole] using inside), hole, List.getElem?_replicate,
    if_pos inside]

theorem open_escape_past_hole (cut position : Nat)
    (opened : OpenEscape (hole offset ++ data) cut position) : offset ≤ position := by
  by_contra inside
  have starts := opened.starts
  rw [hole_byte offset data position (by omega)] at starts
  cases starts

theorem trim_point_in_hole (cut : Nat) (inside : cut < offset) :
    TrimPoint (hole offset ++ data) cut cut := by
  refine .character ?_ ?_
  · intro position opened
    have past := open_escape_past_hole offset data cut position opened
    have before := opened.before
    omega
  · constructor
    · exact Nat.le_refl cut
    · simp only [hole, List.length_append, List.length_replicate]
      omega
    · intro position from_cut before
      omega
    · intro byte there
      rw [hole_byte offset data cut inside] at there
      cases there
      decide

theorem trim_point_of_drops (cap count : Nat) (stream : List UInt8) (large : cap < stream.length)
    (drops : Drops id cap stream count) : TrimPoint stream (stream.length - cap) count := by
  cases drops with
  | fits small => omega
  | trims _ trims => rwa [List.map_id] at trims

theorem drops_of_trim_point (cap count : Nat) (stream : List UInt8) (large : cap < stream.length)
    (trims : TrimPoint stream (stream.length - cap) count) : Drops id cap stream count := by
  apply Drops.trims large
  rwa [List.map_id]

theorem behind_hole (position : Nat) : (hole offset ++ data)[offset + position]? = data[position]? := by
  rw [List.getElem?_append_right (by simp [hole])]
  simp [hole]

theorem drop_hole (count : Nat) : (hole offset ++ data).drop (offset + count) = data.drop count := by
  simp [hole, List.drop_append]

theorem trim_point_behind_hole (cut point : Nat) (trims : TrimPoint data cut point) :
    TrimPoint (hole offset ++ data) (offset + cut) (offset + point) := by
  have length : (hole offset).length = offset := List.length_replicate
  have rest : (hole offset ++ data).drop offset = data := drop_hole offset data 0
  apply trim_point_shift
  · rw [List.length_append]
    omega
  · exact fun position opened => open_escape_past_hole offset data _ position opened
  · rwa [rest]

theorem hole_behind_cut (cap count : Nat) (past : 0 < offset) (large : cap < data.length)
    (drops : Drops id cap (hole offset ++ data) count) :
    (hole offset ++ data).drop count = rotated cap data := by
  have length : (hole offset ++ data).length = offset + data.length := by simp [hole]
  obtain ⟨point, alone, same⟩ := rotated_drops cap data
  have moved := trim_point_behind_hole offset data _ _ (trim_point_of_drops cap point data large alone)
  have cut : offset + (data.length - cap) = (hole offset ++ data).length - cap := by omega
  rw [cut] at moved
  have together := drops_of_trim_point cap _ (hole offset ++ data) (by omega) moved
  rw [drops_unique id cap _ count _ drops together, drop_hole, same]

theorem hole_at_cut (count : Nat) (trims : TrimPoint (hole offset ++ data) offset count) :
    (hole offset ++ data).drop count = data ↔
      ∀ byte, data[0]? = some byte → isContinuation byte = false := by
  have length : (hole offset ++ data).length = offset + data.length := by simp [hole]
  have dropped : ((hole offset ++ data).drop count).length = offset + data.length - count := by
    rw [List.length_drop, length]
  constructor
  · intro same
    have at_offset : count = offset := by
      have lengths := congrArg List.length same
      have inside := trim_point_inside _ _ count trims
      omega
    rw [at_offset] at trims
    intro byte first
    rw [← behind_hole offset data 0] at first
    cases trims with
    | escape opened => exact absurd opened.before (Nat.lt_irrefl _)
    | character closed skips => exact skips.stops byte first
  · intro starts
    have alone : TrimPoint data 0 0 := by
      refine .character ?_ ?_
      · intro position opened
        exact absurd opened.before (Nat.not_lt_zero position)
      · constructor
        · exact Nat.le_refl 0
        · exact Nat.zero_le _
        · intro position _ before
          exact absurd before (Nat.not_lt_zero position)
        · exact starts
    have moved := trim_point_behind_hole offset data 0 0 alone
    rw [trim_point_unique _ _ count _ trims moved]
    exact drop_hole offset data 0

theorem hole_across_cut (cap count : Nat) (past : 0 < offset) (small : data.length < cap)
    (drops : Drops id cap (hole offset ++ data) count) : (hole offset ++ data).drop count ≠ data := by
  have length : (hole offset ++ data).length = offset + data.length := by simp [hole]
  have dropped : ((hole offset ++ data).drop count).length = offset + data.length - count := by
    rw [List.length_drop, length]
  intro same
  have lengths := congrArg List.length same
  rcases Nat.lt_or_ge cap (offset + data.length) with large | fits
  · have trims := trim_point_of_drops cap count _ (by omega) drops
    have inside := trim_point_in_hole offset data ((hole offset ++ data).length - cap) (by omega)
    have at_cut := trim_point_unique _ _ count _ trims inside
    omega
  · have whole := drops_unique id cap _ count 0 drops (.fits (by omega))
    omega

/-- What a trim leaves of a hole with data behind it is what it leaves of the
data alone exactly when the data fill the log. -/
theorem hole_iff (cap count : Nat) (past : 0 < offset)
    (drops : Drops id cap (hole offset ++ data) count) :
    (hole offset ++ data).drop count = rotated cap data ↔ FillsLog cap data := by
  have length : (hole offset ++ data).length = offset + data.length := by simp [hole]
  rcases Nat.lt_trichotomy cap data.length with large | filled | small
  · exact iff_of_true (hole_behind_cut offset data cap count past large drops) (.inl large)
  · rw [rotated_fits cap data (by omega)]
    have trims := trim_point_of_drops cap count _ (by omega) drops
    have cut : (hole offset ++ data).length - cap = offset := by omega
    rw [cut] at trims
    have turns := hole_at_cut offset data count trims
    constructor
    · exact fun same => .inr ⟨filled.symm, turns.mp same⟩
    · rintro (large | ⟨_, starts⟩)
      · omega
      · exact turns.mpr starts
  · rw [rotated_fits cap data (by omega)]
    refine iff_of_false (hole_across_cut offset data cap count past small drops) ?_
    rintro (large | ⟨filled, _⟩) <;> omega

end Hole

/-- The states a log can be in: at the end of its file, or past the end of a
file that was cleared. -/
inductive Tracks (held : OpenLog) : Prop where
  | steady {kept : List UInt8} (holds : held.log.Holds held.file kept)
  | cleared {offset : Nat} (past : 0 < offset) (size : held.log.currentSize = offset)
      (file : held.file = { content := [], cursor := offset })

theorem opened_tracks (cap : Nat) (content : List UInt8) :
    ∃ held, OpenLog.opened cap content = some held ∧ held.log.maxSize = cap ∧ Tracks held := by
  obtain ⟨count, log, _, ran, same, holds⟩ := SessionLog.open_exec id cap
    ({ content := content, cursor := 0 } : File UInt8)
  refine ⟨{ log := log, file := atEnd (content.drop count) }, ?_, same, .steady holds⟩
  rw [OpenLog.opened, ran]

theorem append_steady (held : OpenLog) (kept data : List UInt8)
    (holds : held.log.Holds held.file kept) :
    ∃ next, held.step (.append data) = some next ∧ next.log.maxSize = held.log.maxSize ∧
      Tracks next ∧ next.file.content = rotated held.log.maxSize (kept ++ data) := by
  obtain ⟨count, after, drops, ran, same, held_after⟩ :=
    held.log.append_exec id held.file kept data holds
  refine ⟨{ log := after, file := atEnd ((kept ++ data).drop count) }, ?_, same,
    .steady held_after, (rotated_eq _ count _ drops).symm⟩
  rw [OpenLog.step, ran]

theorem append_cleared (held : OpenLog) (offset : Nat) (data : List UInt8)
    (size : held.log.currentSize = offset) (file : held.file = { content := [], cursor := offset })
    (some_data : data ≠ []) :
    ∃ next count, held.step (.append data) = some next ∧ next.log.maxSize = held.log.maxSize ∧
      Tracks next ∧ Drops id held.log.maxSize (hole offset ++ data) count ∧
      next.file.content = (hole offset ++ data).drop count := by
  have written : held.file.write data = (atEnd (hole offset)).write data := by
    rw [file]
    simp [File.write, some_data, File.before, atEnd, hole, default]
  have holds : held.log.Holds (atEnd (hole offset)) (hole offset) :=
    { file := rfl, size := by simp [size, hole] }
  obtain ⟨count, after, drops, ran, same, held_after⟩ :=
    held.log.append_exec id (atEnd (hole offset)) (hole offset) data holds
  refine ⟨{ log := after, file := atEnd ((hole offset ++ data).drop count) }, count, ?_, same,
    .steady held_after, drops, rfl⟩
  rw [OpenLog.step, held.log.append_exec_congr id data held.file _ written, ran]

theorem append_nothing (held : OpenLog) (offset : Nat) (past : 0 < offset)
    (size : held.log.currentSize = offset) (file : held.file = { content := [], cursor := offset }) :
    ∃ next, held.step (.append []) = some next ∧ next.log.maxSize = held.log.maxSize ∧
      Tracks next ∧ next.file.content = [] := by
  have started : (FileTask.writeAll [] : FileTask UInt8 IoError Unit).exec held.file =
      some (.ok (), held.file) := by
    rw [← File.write_nil held.file]
    rfl
  by_cases large : held.log.currentSize > held.log.maxSize
  · -- a rotation of the empty file brings the daemon back to its start
    obtain ⟨count, _, rotated⟩ := rotate_exec id held.log.maxSize held.file
    have empty : atEnd (held.file.content.drop count) = atEnd [] := by simp [file]
    rw [empty] at rotated
    refine ⟨{ log := { held.log with currentSize := 0 }, file := atEnd [] }, ?_, rfl,
      .steady { file := rfl, size := rfl }, rfl⟩
    rw [OpenLog.step, SessionLog.append, Program.exec_bind, started, Option.bind_some]
    simp only [List.length_nil, Nat.add_zero, if_pos large]
    rw [Program.exec_bind, FileTask.exec_task _ _ _ _ _ rotated]
    rfl
  · refine ⟨held, ?_, rfl, .cleared past size file, by rw [file]⟩
    rw [OpenLog.step, SessionLog.append, Program.exec_bind, started, Option.bind_some]
    simp only [List.length_nil, Nat.add_zero, if_neg large]
    rfl

theorem clear_tracks (held : OpenLog) (name : String) (quiet : Bool) (tracks : Tracks held) :
    ∃ next, held.step (.clear name quiet) = some next ∧ next.log.maxSize = held.log.maxSize ∧
      Tracks next ∧ next.file.content = [] := by
  refine ⟨{ held with file := { content := [], cursor := held.file.cursor } }, ?_, rfl, ?_, rfl⟩
  · simp [OpenLog.step, clear, File.setLen_zero]
  · cases tracks with
    | @steady kept holds =>
      cases kept with
      | nil => exact .steady { file := by rw [holds.file]; rfl, size := holds.size }
      | cons byte rest =>
        exact .cleared (Nat.succ_pos rest.length) holds.size (by rw [holds.file]; rfl)
    | cleared past size file => exact .cleared past size (by rw [file])

/-- One event: it can always happen, and it leaves the expected log exactly when
it is sound. -/
theorem tracked_step (held : OpenLog) (event : LogEvent) (tracks : Tracks held) :
    ∃ next, held.step event = some next ∧ next.log.maxSize = held.log.maxSize ∧ Tracks next ∧
      (next.file.content = expected held.log.maxSize held.file.content [event] ↔ Sound held event) := by
  cases event with
  | clear name quiet =>
    obtain ⟨next, taken, same, tracked, empty⟩ := clear_tracks held name quiet tracks
    exact ⟨next, taken, same, tracked, iff_of_true empty trivial⟩
  | append data =>
    cases tracks with
    | @steady kept holds =>
      obtain ⟨next, taken, same, tracked, content⟩ := append_steady held kept data holds
      refine ⟨next, taken, same, tracked, iff_of_true ?_ (.inr (.inl ?_))⟩
      · rw [content, holds.file]
        rfl
      · rw [holds.file]
        exact Nat.le_refl _
    | @cleared offset past size file =>
      by_cases nothing : data = []
      · subst nothing
        obtain ⟨next, taken, same, tracked, content⟩ := append_nothing held offset past size file
        refine ⟨next, taken, same, tracked, iff_of_true ?_ (.inl rfl)⟩
        rw [content, file]
        exact (rotated_fits held.log.maxSize [] (Nat.zero_le _)).symm
      · obtain ⟨next, count, taken, same, tracked, drops, content⟩ :=
          append_cleared held offset data size file nothing
        refine ⟨next, taken, same, tracked, ?_⟩
        rw [content, file]
        refine (hole_iff offset data _ count past drops).trans ?_
        have behind : ¬ offset ≤ 0 := Nat.not_le.mpr past
        simp [Sound, nothing, file, behind]

theorem keeps_only_appended_cons (held next : OpenLog) (event : LogEvent) (rest : List LogEvent)
    (taken : held.step event = some next) (same : next.log.maxSize = held.log.maxSize)
    (content : next.file.content = expected held.log.maxSize held.file.content [event]) :
    KeepsOnlyAppended held (event :: rest) ↔ KeepsOnlyAppended next rest := by
  have onward (before : List LogEvent) :
      run OpenLog.step held (event :: before) = run OpenLog.step next before := by
    rw [run, taken, Option.bind_some]
  have further (before : List LogEvent) :
      expected held.log.maxSize held.file.content (event :: before) =
        expected next.log.maxSize next.file.content before := by
    rw [same, content]
    cases event <;> rfl
  constructor
  · intro kept before prefixed
    obtain ⟨later, ran, shows, _⟩ := kept (event :: before) (List.cons_prefix_cons.mpr ⟨rfl, prefixed⟩)
    rw [onward] at ran
    rw [further] at shows
    refine ⟨later, ran, shows, ?_⟩
    rw [shows]
    exact expected_length_le _ _ _ before (Nat.le_refl _)
  · intro kept before prefixed
    cases before with
    | nil => exact ⟨held, rfl, rfl, Nat.le_refl _⟩
    | cons first before =>
      obtain ⟨rfl, shorter⟩ := List.cons_prefix_cons.mp prefixed
      obtain ⟨later, ran, shows, _⟩ := kept before shorter
      rw [← onward] at ran
      rw [← further] at shows
      refine ⟨later, ran, shows, ?_⟩
      rw [shows]
      exact expected_length_le _ _ _ _ (Nat.le_refl _)

theorem tracked_keeps_iff (held : OpenLog) (events : List LogEvent) (tracks : Tracks held) :
    KeepsOnlyAppended held events ↔ Meets OpenLog.step Sound held events := by
  induction events generalizing held with
  | nil =>
    refine iff_of_true ?_ trivial
    intro before prefixed
    rw [List.prefix_nil.mp prefixed]
    exact ⟨held, rfl, rfl, Nat.le_refl _⟩
  | cons event rest ih =>
    obtain ⟨next, taken, same, tracked, content⟩ := tracked_step held event tracks
    by_cases sound : Sound held event
    · rw [keeps_only_appended_cons held next event rest taken same (content.mpr sound), ih next tracked]
      constructor
      · exact meets_cons OpenLog.step Sound held next event rest taken sound
      · exact fun met => met.2 next taken
    · -- after this event the log is already another one
      refine iff_of_false ?_ (fun met => sound met.1)
      intro kept
      obtain ⟨later, ran, shows, _⟩ := kept [event] (List.cons_prefix_cons.mpr ⟨rfl, List.nil_prefix⟩)
      have reached : later = next := by
        rw [run, taken] at ran
        exact (Option.some.inj ran).symm
      rw [reached] at shows
      exact sound (content.mp shows)

/-- A log cleared at any time during its session holds only what was appended
since, exactly when no append lands past the end of the cleared file or leaves
a hole behind. -/
theorem clear_empties_iff (cap : Nat) (initial : List UInt8) :
    ∃ start, OpenLog.opened cap initial = some start ∧ start.log.maxSize = cap ∧
      ∀ events, KeepsOnlyAppended start events ↔ Meets OpenLog.step Sound start events := by
  obtain ⟨start, opened, same, tracks⟩ := opened_tracks cap initial
  exact ⟨start, opened, same, fun events => tracked_keeps_iff start events tracks⟩

/-- Two bytes, a clear and one more byte: the log then holds two zeros and the byte. -/
theorem cleared_log_has_hole :
    ∃ start later, OpenLog.opened 8 [] = some start ∧
      run OpenLog.step start [.append [0x61, 0x62], .clear "work" false, .append [0x63]] = some later ∧
      later.file.content = [0, 0, 0x63] ∧
      ¬ KeepsOnlyAppended start [.append [0x61, 0x62], .clear "work" false, .append [0x63]] := by
  let start : OpenLog := { log := { maxSize := 8, currentSize := 0 }, file := atEnd [] }
  have ran : (run OpenLog.step start
      [.append [0x61, 0x62], .clear "work" false, .append [0x63]]).map (fun held => held.file.content) =
      some [0, 0, 0x63] := by decide +kernel
  obtain ⟨later, reached, content⟩ := Option.map_eq_some_iff.mp ran
  refine ⟨start, later, rfl, reached, content, ?_⟩
  intro kept
  obtain ⟨other, also, shows, _⟩ := kept _ (List.prefix_refl _)
  have same : other = later := Option.some.inj (also.symm.trans reached)
  have wanted : expected start.log.maxSize start.file.content
      [.append [0x61, 0x62], .clear "work" false, .append [0x63]] = [0x63] := by decide +kernel
  rw [same, content, wanted] at shows
  cases shows

end Hytch.ClearLog
