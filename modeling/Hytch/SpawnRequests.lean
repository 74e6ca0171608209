import Hytch.SessionNames

/-!
What `start` and `new` ask the daemon for, and the argument list of the process that
becomes the daemon.
-/

namespace Hytch.SpawnRequests

open DecimalNumbers SessionNames

/-- What the commands read of their process. -/
structure Environment where
  home : Option Text
  uid : UInt32
  shell : Option Text
  /-- Rows and columns of the terminal on stdin, where there is one that tells them. -/
  terminal : Option (UInt16 × UInt16)

def sessionDir (env : Environment) : Text :=
  resolveSessionDir env.home none "hytch".toList env.uid

def socketPath (env : Environment) (name : Text) : Text :=
  resolveSocketPath name (sessionDir env)

def currentTerminalSize (env : Environment) : UInt16 × UInt16 := env.terminal.getD (24, 80)

structure SpawnRequest where
  socketPath : Text
  logPath : Option Text
  logMaxSize : UInt64
  scrollbackSize : UInt64
  rows : UInt16
  cols : UInt16
  program : Text
  args : List Text
deriving DecidableEq

def scrollbackBytes : UInt64 := 128 * 1024

def splitCommand (env : Environment) : List Text → Text × List Text
  | program :: rest => (program, rest)
  | [] => (env.shell.getD "/bin/sh".toList, [])

def buildSpawnRequest (env : Environment) (session : Text) (cmd : List Text)
    (logMaxSize : UInt64) : Except Text SpawnRequest :=
  if !session.contains '/' && !isValidBareName session then
    .error ("'".toList ++ session ++ "' is not a valid session name".toList)
  else
    let socket := socketPath env session
    .ok
      { logPath := if 0 < logMaxSize then some (logPathFor socket) else none
        socketPath := socket
        logMaxSize
        scrollbackSize := scrollbackBytes
        rows := (currentTerminalSize env).1
        cols := (currentTerminalSize env).2
        program := (splitCommand env cmd).1
        args := (splitCommand env cmd).2 }

def daemonSubcommand : Text := "__daemon-run".toList

/-- The arguments in front of the ones for the program. -/
def fixedArgs (req : SpawnRequest) : List Text :=
  [ req.socketPath,
    req.logPath.getD ['-'],
    printNumber req.logMaxSize.toNat,
    printNumber req.scrollbackSize.toNat,
    printNumber req.rows.toNat,
    printNumber req.cols.toNat,
    req.program ]

def daemonRunArgs (req : SpawnRequest) : List Text :=
  daemonSubcommand :: (fixedArgs req ++ req.args)

theorem built_cases (env : Environment) (session : Text) (cmd : List Text) (logMaxSize : UInt64)
    (req : SpawnRequest) (built : buildSpawnRequest env session cmd logMaxSize = .ok req) :
    (session.contains '/' = true ∨ isValidBareName session = true) ∧
      req.socketPath = socketPath env session ∧
      (req.logPath = none ∨ req.logPath = some (logPathFor (socketPath env session))) ∧
      req.program = (splitCommand env cmd).1 ∧ req.args = (splitCommand env cmd).2 := by
  unfold buildSpawnRequest at built
  split at built
  case isTrue => cases built
  case isFalse accepted =>
    have accepted : session.contains '/' = true ∨ isValidBareName session = true := by
      cases slash : session.contains '/' with
      | true => exact Or.inl rfl
      | false =>
        cases valid : isValidBareName session with
        | true => exact Or.inr rfl
        | false =>
          rw [slash, valid] at accepted
          exact absurd rfl accepted
    cases built
    refine ⟨accepted, rfl, ?_, rfl, rfl⟩
    simp only
    split
    · exact Or.inr rfl
    · exact Or.inl rfl

theorem built_of_named (env : Environment) (session : Text) (cmd : List Text)
    (logMaxSize : UInt64)
    (named : session.contains '/' = true ∨ isValidBareName session = true) :
    ∃ req, buildSpawnRequest env session cmd logMaxSize = .ok req ∧
      req.socketPath = socketPath env session ∧
      req.logPath = if 0 < logMaxSize then some (logPathFor (socketPath env session)) else none := by
  have accepted : (!session.contains '/' && !isValidBareName session) = false := by
    rcases named with slash | valid
    · rw [slash, Bool.not_true, Bool.false_and]
    · rw [valid, Bool.not_true, Bool.and_false]
  unfold buildSpawnRequest
  rw [accepted, if_neg Bool.false_ne_true]
  exact ⟨_, rfl, rfl, rfl⟩

theorem built_of_accepted (env : Environment) (session : Text) (cmd : List Text)
    (logMaxSize : UInt64) (valid : isValidBareName session = true) :
    ∃ req, buildSpawnRequest env session cmd logMaxSize = .ok req ∧
      req.socketPath = socketPath env session ∧
      req.logPath = if 0 < logMaxSize then some (logPathFor (socketPath env session)) else none :=
  built_of_named env session cmd logMaxSize (Or.inr valid)

end Hytch.SpawnRequests
