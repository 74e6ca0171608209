import Hytch.SpawnRequests
import Hytch.TrailingArguments

/-!
The daemon's process reads its request back from its arguments. `__daemon-run` has
seven positionals in front of the trailing ones; beside them it knows the global
options of `Cli` and its own help text.
-/

namespace Hytch.ReExec

open DecimalNumbers SessionNames SpawnRequests TrailingArguments

def shortOptions : List Char := ['e', 'E', 'q', 'C', 'h']

def onlyShortOptions : Text → Bool
  | '-' :: letter :: letters => (letter :: letters).all fun letter => shortOptions.contains letter
  | _ => false

-- `-e` and `-C` take what is left of their token for their value, else the next token.
def readLetters : List Char → Reading
  | [] => .options false
  | letter :: rest =>
      if letter = 'h' then .refused
      else if letter = 'e' ∨ letter = 'C' then .options rest.isEmpty
      else readLetters rest

def helpOption : Text := "--help".toList

/-- `--help`, also with a value. -/
def namesHelp (token : Text) : Bool :=
  token == helpOption || (helpOption ++ ['=']).isPrefixOf token

/-- How clap reads a token in front of the trailing positional's first value. -/
def reading (token : Text) : Reading :=
  if token = ['-', '-'] then .endOfOptions
  else if namesHelp token then .refused
  else if onlyShortOptions token then readLetters token.tail
  else .value

/-- The request `main` builds from the positionals of `DaemonRun`. -/
def rebuildRequest : List Text → Option SpawnRequest
  | socketPath :: logPath :: logMaxSize :: scrollbackSize :: rows :: cols :: program :: args => do
      let logMaxSize ← parseNumber UInt64.size logMaxSize
      let scrollbackSize ← parseNumber UInt64.size scrollbackSize
      let rows ← parseNumber UInt16.size rows
      let cols ← parseNumber UInt16.size cols
      pure
        { socketPath
          logPath := if logPath = ['-'] then none else some logPath
          logMaxSize := UInt64.ofNat logMaxSize
          scrollbackSize := UInt64.ofNat scrollbackSize
          rows := UInt16.ofNat rows
          cols := UInt16.ofNat cols
          program
          args }
  | _ => none

def parseDaemonRun : List Text → Option SpawnRequest
  | subcommand :: tokens =>
      if subcommand = daemonSubcommand then (positionals reading false 7 tokens).bind rebuildRequest
      else none
  | [] => none

/-- The user's own words stand where options are looked for, and none is one. -/
def NoWordIsOption (env : Environment) (session : Text) (cmd : List Text) : Prop :=
  reading (socketPath env session) = .value ∧
    reading (splitCommand env cmd).1 = .value ∧
    ∀ first ∈ (splitCommand env cmd).2.head?, reading first = .value

theorem reading_value_iff (token : Text) :
    reading token = .value ↔
      token ≠ ['-', '-'] ∧ namesHelp token = false ∧ onlyShortOptions token = false := by
  have never : ∀ letters, readLetters letters ≠ .value := by
    intro letters
    induction letters with
    | nil => nofun
    | cons letter rest ih =>
      unfold readLetters
      split
      · nofun
      · split
        · nofun
        · exact ih
  unfold reading
  split
  · simp_all
  · split
    · simp_all
    · split
      · simp_all
      · simp_all

theorem no_dash_value (c : Char) (rest : Text) (different : c ≠ '-') :
    reading (c :: rest) = .value := by
  have help : helpOption = ['-', '-', 'h', 'e', 'l', 'p'] := by decide
  refine (reading_value_iff _).mpr ⟨?_, ?_, ?_⟩
  · exact fun same => different (List.cons.inj same).1
  · simp [namesHelp, help, List.isPrefixOf, different, different.symm]
  · unfold onlyShortOptions
    split
    case h_1 dash => exact absurd (List.cons.inj dash).1 different
    case h_2 => rfl

theorem number_value (n : Nat) : reading (printNumber n) = .value := by
  obtain ⟨c, rest, known, digit⟩ := printed_head n
  rw [known]
  refine no_dash_value c rest ?_
  rintro rfl
  exact absurd digit (by decide)

theorem slash_value_iff (token : Text) (slash : '/' ∈ token) :
    reading token = .value ↔ (helpOption ++ ['=']).isPrefixOf token = false := by
  have notEnd : token ≠ ['-', '-'] := by
    rintro rfl
    exact absurd slash (by decide)
  have notHelp : (token == helpOption) = false := by
    refine beq_eq_false_iff_ne.mpr ?_
    rintro rfl
    exact absurd slash (by decide)
  have notShort : onlyShortOptions token = false := by
    unfold onlyShortOptions
    split
    case h_1 letter letters =>
      refine List.all_eq_false.mpr ⟨'/', ?_, by decide⟩
      simpa using slash
    case h_2 => rfl
  simp [reading_value_iff, namesHelp, notEnd, notHelp, notShort]

theorem log_value (path : Text) (slash : '/' ∈ path) (value : reading path = .value) :
    reading (logPathFor path) = .value := by
  have slashLog : '/' ∈ logPathFor path := List.mem_append_left _ slash
  refine (slash_value_iff _ slashLog).mpr (Bool.eq_false_iff.mpr fun starts => ?_)
  have starts := List.isPrefixOf_iff_prefix.mp starts
  have own := (slash_value_iff path slash).mp value
  rcases List.prefix_or_prefix_of_prefix starts (List.prefix_append path logSuffix) with help | short
  · exact absurd (List.isPrefixOf_iff_prefix.mpr help) (by simp [own])
  · exact absurd (short.subset slash) (by decide)

theorem socket_path_slash (env : Environment) (session : Text) :
    '/' ∈ socketPath env session := by
  unfold socketPath resolveSocketPath
  split
  case isTrue slash => exact List.contains_iff_mem.mp slash
  case isFalse =>
    have dir : '/' ∈ sessionDir env := by
      unfold sessionDir resolveSessionDir
      split <;> simp
    unfold join
    split
    · exact List.mem_append_left _ dir
    · exact List.mem_append_left _ dir

theorem rebuild_fixed (req : SpawnRequest) (named : req.logPath ≠ some ['-']) :
    rebuildRequest (fixedArgs req ++ req.args) = some req := by
  have log : (if req.logPath.getD ['-'] = ['-'] then none else some (req.logPath.getD ['-'])) =
      req.logPath := by
    cases known : req.logPath with
    | none => rfl
    | some path =>
      have different : path ≠ ['-'] := by
        rintro rfl
        exact named known
      exact if_neg different
  have logMaxSize := parse_printed _ _ (UInt64.toNat_lt_size req.logMaxSize)
  have scrollbackSize := parse_printed _ _ (UInt64.toNat_lt_size req.scrollbackSize)
  have rows := parse_printed _ _ (UInt16.toNat_lt_size req.rows)
  have cols := parse_printed _ _ (UInt16.toNat_lt_size req.cols)
  simp only [rebuildRequest, fixedArgs, List.cons_append, List.nil_append, logMaxSize,
    scrollbackSize, rows, cols, Option.bind_eq_bind, Option.bind_some, log, UInt64.ofNat_toNat,
    UInt16.ofNat_toNat]
  rfl

theorem rebuild_length (values : List Text) (req : SpawnRequest)
    (rebuilt : rebuildRequest values = some req) : values.length = 7 + req.args.length := by
  unfold rebuildRequest at rebuilt
  split at rebuilt
  case h_1 =>
    simp only [Option.bind_eq_bind, Option.bind_eq_some_iff] at rebuilt
    obtain ⟨_, _, _, _, _, _, _, _, rebuilt⟩ := rebuilt
    cases rebuilt
    simp only [List.length_cons]
    omega
  case h_2 => cases rebuilt

/-- A request comes back unchanged exactly if no option is seen in front of the second
of the program's arguments. -/
theorem parsed_back_iff (req : SpawnRequest) (named : req.logPath ≠ some ['-']) :
    parseDaemonRun (daemonRunArgs req) = some req ↔
      AllValues reading 7 (fixedArgs req ++ req.args) := by
  simp only [parseDaemonRun, daemonRunArgs, if_true, Option.bind_eq_some_iff]
  constructor
  · rintro ⟨values, read, rebuilt⟩
    refine values_of_positionals reading 7 _ values read ?_
    rw [rebuild_length values req rebuilt, List.length_append]
    rfl
  · intro values
    exact ⟨_, positionals_of_values reading 7 _ values, rebuild_fixed req named⟩

theorem fixed_values_iff (req : SpawnRequest) :
    AllValues reading 7 (fixedArgs req ++ req.args) ↔
      reading req.socketPath = .value ∧ reading (req.logPath.getD ['-']) = .value ∧
        reading req.program = .value ∧ ∀ first ∈ req.args.head?, reading first = .value := by
  have trailing : AllValues reading 0 req.args ↔
      ∀ first ∈ req.args.head?, reading first = .value := by
    cases req.args with
    | nil => simp [AllValues]
    | cons first rest => simp [AllValues]
  simp only [fixedArgs, List.cons_append, List.nil_append, all_values_cons, number_value, true_and,
    trailing]

/-- The daemon is asked for what the user asked for exactly if none of the user's words
that stand in front of the second argument is taken for an option. -/
theorem reexec_roundtrip_iff (env : Environment) (session : Text) (cmd : List Text)
    (logMaxSize : UInt64) (req : SpawnRequest)
    (built : buildSpawnRequest env session cmd logMaxSize = .ok req) :
    parseDaemonRun (daemonRunArgs req) = some req ↔ NoWordIsOption env session cmd := by
  obtain ⟨_, socket, log, program, args⟩ := built_cases env session cmd logMaxSize req built
  have slash := socket_path_slash env session
  have named : req.logPath ≠ some ['-'] := by
    rcases log with none | some
    · simp [none]
    · rw [some]
      intro dash
      have slashLog : '/' ∈ logPathFor (socketPath env session) := List.mem_append_left _ slash
      rw [Option.some.inj dash] at slashLog
      exact absurd slashLog (by decide)
  have logValue : reading (socketPath env session) = .value →
      reading (req.logPath.getD ['-']) = .value := by
    intro value
    rcases log with none | some
    · rw [none]
      decide
    · rw [some]
      exact log_value _ slash value
  rw [parsed_back_iff req named, fixed_values_iff, NoWordIsOption, socket, program, args]
  constructor
  · rintro ⟨socketValue, _, rest⟩
    exact ⟨socketValue, rest⟩
  · rintro ⟨socketValue, rest⟩
    exact ⟨socketValue, logValue socketValue, rest⟩

def exampleUser : Environment :=
  { home := some "/home/u".toList, uid := 1000, shell := none, terminal := none }

theorem reexec_roundtrip_unknown_letter :
    ∃ req, buildSpawnRequest exampleUser ['s'] [['l', 's'], ['-', 'l']] 1048576 = .ok req ∧
      parseDaemonRun (daemonRunArgs req) = some req := by
  refine ⟨_, rfl, (reexec_roundtrip_iff exampleUser ['s'] [['l', 's'], ['-', 'l']] 1048576 _ rfl).mpr
    ⟨by decide, by decide, ?_⟩⟩
  rintro _ ⟨⟩
  decide

-- `start s sh -e x`: the option takes the script's name with it.
theorem first_argument_lost :
    ∃ req, buildSpawnRequest exampleUser ['s'] [['s', 'h'], ['-', 'e'], ['x']] 1048576 = .ok req ∧
      parseDaemonRun (daemonRunArgs req) = some { req with args := [] } ∧
      parseDaemonRun (daemonRunArgs req) ≠ some req := by
  refine ⟨_, rfl, ?_, ?_⟩
  · decide +kernel
  · decide +kernel

end Hytch.ReExec
