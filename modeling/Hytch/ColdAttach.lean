import Hytch.Attachments
import Hytch.LogWriter

/-!
A running session and one client in `cmd_attach`. The daemon reads the pty,
pushes to the fanout and hands the chunk to the log writer; the client reads
the log file in pieces, connects, and attaches with `skip_ring` set when the
log had anything. Every byte carries its position in the output, counted from
what the log held when the session started. The client is number zero of the
hub; all others come and go freely.
-/

namespace Hytch.ColdAttach

open BoundedTail HandleClient Attachments Runs

structure OutputByte where
  octet : UInt8
  position : Nat
  deriving DecidableEq, Inhabited

def stamp : Nat → List UInt8 → List OutputByte
  | _, [] => []
  | position, octet :: rest =>
      { octet := octet, position := position } :: stamp (position + 1) rest

/-- How far `cmd_attach` is, with the log bytes it has read or shown. -/
inductive ClientPhase where
  | reading (bytes : List OutputByte)
  | replayed (bytes : List OutputByte)
  | connected (bytes : List OutputByte)
  | attached (bytes : List OutputByte)
  deriving DecidableEq

structure World where
  hub : Hub OutputByte
  /-- The log's old content and everything read from the pty since. -/
  stream : List OutputByte
  /-- Pushed to the fanout, not yet sent to the log writer. -/
  handOff : Option (List OutputByte)
  writer : LogWriter OutputByte
  client : ClientPhase
  /-- Bytes the client has taken from its socket and shown. -/
  received : Nat

inductive WorldEvent where
  | ptyRead (octets : List UInt8)
  | handOff
  | writer (event : WriterEvent)
  | hub (event : HubEvent OutputByte)
  | readLog (count : Nat)
  | readEnds
  /-- The log is missing or cannot be read. -/
  | readFails
  | connect
  | attach
  | display (count : Nat)

def clientId : Nat := 0

def ptyBuffer : Nat := 4096

/-- Hub events that are steps of their own here: pty output is one, and so are
the connect and the Attach of the client, which never sends Detach. -/
def background : HubEvent OutputByte → Bool
  | .output _ => false
  | .accept id => id != clientId
  | .input id (.frame (.attach _)) => id != clientId
  | .input id (.frame .detach) => id != clientId
  | _ => true

namespace World

def start (scrollback broadcast : Nat) (history : List UInt8) (logging : Option Nat) :
    Option World := do
  let hub ← Hub.start scrollback broadcast
  let writer ← LogWriter.start OutputByte.octet (stamp 0 history) logging
  some { hub := hub, stream := stamp 0 history, handOff := none, writer := writer
         client := .reading [], received := 0 }

/-- `if let Some((tx, _)) = &log { tx.send(chunk) }` is still to come. -/
def forLog (world : World) (chunk : List OutputByte) : Option (List OutputByte) :=
  match world.writer.thread with
  | .off => none
  | _ => some chunk

def step (world : World) : WorldEvent → Option World
  | .ptyRead octets =>
      -- the loop comes back to the pty only after it has sent the last chunk on
      if world.handOff = none ∧ world.hub.serving ∧ 0 < octets.length ∧ octets.length ≤ ptyBuffer then
        let chunk := stamp world.stream.length octets
        (world.hub.step (.output chunk)).map fun hub =>
          { world with hub := hub, stream := world.stream ++ chunk, handOff := world.forLog chunk }
      else none
  | .handOff =>
      match world.handOff with
      | some chunk => some { world with handOff := none, writer := world.writer.send chunk }
      | none => none
  | .writer event =>
      (world.writer.step OutputByte.octet event).map fun writer => { world with writer := writer }
  | .hub event =>
      if background event then (world.hub.step event).map fun hub => { world with hub := hub }
      else none
  | .readLog count =>
      match world.client with
      | .reading bytes =>
          if 0 < count ∧ count ≤ world.writer.file.content.length - bytes.length then
            let more := (world.writer.file.content.drop bytes.length).take count
            some { world with client := .reading (bytes ++ more) }
          else none
      | _ => none
  | .readEnds =>
      match world.client with
      | .reading bytes =>
          -- a read behind the end returns nothing, also when a trim moved the end there
          if world.writer.file.content.length ≤ bytes.length then
            some { world with client := .replayed bytes }
          else none
      | _ => none
  | .readFails =>
      match world.client with
      | .reading _ => some { world with client := .replayed [] }
      | _ => none
  | .connect =>
      match world.client with
      | .replayed bytes =>
          (world.hub.step (.accept clientId)).map fun hub =>
            { world with hub := hub, client := .connected bytes }
      | _ => none
  | .attach =>
      match world.client with
      | .connected bytes =>
          -- `skip_ring: replayed`
          (world.hub.step (.input clientId (.frame (.attach (!bytes.isEmpty))))).map fun hub =>
            { world with hub := hub, client := .attached bytes }
      | _ => none
  | .display count =>
      match world.client with
      | .attached _ =>
          if world.received + count ≤ (world.hub.socket clientId).length then
            some { world with received := world.received + count }
          else none
      | _ => none

/-- The replayed log and what was received over the socket. -/
def displayed (world : World) : List OutputByte :=
  match world.client with
  | .reading _ => []
  | .replayed bytes => bytes
  | .connected bytes => bytes
  | .attached bytes => bytes ++ (world.hub.socket clientId).take world.received

end World

def ptyOutput : List WorldEvent → List UInt8
  | [] => []
  | .ptyRead octets :: rest => octets ++ ptyOutput rest
  | _ :: rest => ptyOutput rest

inductive WorldStep (world : World) : WorldEvent → World → Prop where
  | ptyRead {octets : List UInt8} {hub : Hub OutputByte} (free : world.handOff = none)
      (pushed : world.hub.step (.output (stamp world.stream.length octets)) = some hub) :
      WorldStep world (.ptyRead octets)
        { world with hub := hub, stream := world.stream ++ stamp world.stream.length octets
                     handOff := world.forLog (stamp world.stream.length octets) }
  | handOff {chunk : List OutputByte} (pending : world.handOff = some chunk) :
      WorldStep world .handOff { world with handOff := none, writer := world.writer.send chunk }
  | writer {event : WriterEvent} {writer : LogWriter OutputByte}
      (moved : world.writer.step OutputByte.octet event = some writer) :
      WorldStep world (.writer event) { world with writer := writer }
  | hub {event : HubEvent OutputByte} {hub : Hub OutputByte} (other : background event = true)
      (moved : world.hub.step event = some hub) : WorldStep world (.hub event) { world with hub := hub }
  | readLog {count : Nat} {bytes : List OutputByte} (reading : world.client = .reading bytes)
      (bound : 0 < count ∧ count ≤ world.writer.file.content.length - bytes.length) :
      WorldStep world (.readLog count)
        { world with client := .reading (bytes ++
            (world.writer.file.content.drop bytes.length).take count) }
  | readEnds {bytes : List OutputByte} (reading : world.client = .reading bytes) :
      WorldStep world .readEnds { world with client := .replayed bytes }
  | readFails {bytes : List OutputByte} (reading : world.client = .reading bytes) :
      WorldStep world .readFails { world with client := .replayed [] }
  | connect {bytes : List OutputByte} {hub : Hub OutputByte}
      (replayed : world.client = .replayed bytes)
      (accepted : world.hub.step (.accept clientId) = some hub) :
      WorldStep world .connect { world with hub := hub, client := .connected bytes }
  | attach {bytes : List OutputByte} {hub : Hub OutputByte}
      (connected : world.client = .connected bytes)
      (handled : world.hub.step (.input clientId (.frame (.attach (!bytes.isEmpty)))) = some hub) :
      WorldStep world .attach { world with hub := hub, client := .attached bytes }
  | display {count : Nat} {bytes : List OutputByte} (attached : world.client = .attached bytes) :
      WorldStep world (.display count) { world with received := world.received + count }

theorem world_step_cases (world next : World) (event : WorldEvent)
    (taken : world.step event = some next) : WorldStep world event next := by
  cases event with
  | ptyRead octets =>
    simp only [World.step] at taken
    split at taken
    · rename_i allowed
      obtain ⟨hub, pushed, rfl⟩ := Option.map_eq_some_iff.mp taken
      exact .ptyRead allowed.1 pushed
    · cases taken
  | handOff =>
    simp only [World.step] at taken
    split at taken
    · rename_i chunk pending
      cases taken
      exact .handOff pending
    · cases taken
  | writer event =>
    obtain ⟨writer, moved, rfl⟩ := Option.map_eq_some_iff.mp taken
    exact .writer moved
  | hub event =>
    simp only [World.step] at taken
    split at taken
    · rename_i other
      obtain ⟨hub, moved, rfl⟩ := Option.map_eq_some_iff.mp taken
      exact .hub other moved
    · cases taken
  | readLog count =>
    simp only [World.step] at taken
    split at taken
    · rename_i bytes reading
      split at taken
      · rename_i bound
        cases taken
        exact .readLog reading bound
      · cases taken
    · cases taken
  | readEnds =>
    simp only [World.step] at taken
    split at taken
    · rename_i bytes reading
      split at taken
      · cases taken
        exact .readEnds reading
      · cases taken
    · cases taken
  | readFails =>
    simp only [World.step] at taken
    split at taken
    · rename_i bytes reading
      cases taken
      exact .readFails reading
    · cases taken
  | connect =>
    simp only [World.step] at taken
    split at taken
    · rename_i bytes replayed
      obtain ⟨hub, accepted, rfl⟩ := Option.map_eq_some_iff.mp taken
      exact .connect replayed accepted
    · cases taken
  | attach =>
    simp only [World.step] at taken
    split at taken
    · rename_i bytes connected
      obtain ⟨hub, handled, rfl⟩ := Option.map_eq_some_iff.mp taken
      exact .attach connected handled
    · cases taken
  | display count =>
    simp only [World.step] at taken
    split at taken
    · rename_i bytes attached
      split at taken
      · cases taken
        exact .display attached
      · cases taken
    · cases taken

theorem stamp_length (first : Nat) (octets : List UInt8) :
    (stamp first octets).length = octets.length := by
  induction octets generalizing first with
  | nil => rfl
  | cons octet rest ih => simp [stamp, ih]

theorem stamp_append (first : Nat) (older newer : List UInt8) :
    stamp first (older ++ newer) = stamp first older ++ stamp (first + older.length) newer := by
  induction older generalizing first with
  | nil => rfl
  | cons octet rest ih =>
    simp only [List.cons_append, stamp, ih, List.length_cons]
    rw [Nat.add_assoc, Nat.add_comm 1]

theorem stamp_getElem (first index : Nat) (octets : List UInt8) :
    (stamp first octets)[index]? =
      octets[index]?.map fun octet => { octet := octet, position := first + index } := by
  induction octets generalizing first index with
  | nil => simp [stamp]
  | cons octet rest ih =>
    cases index with
    | zero => rfl
    | succ index =>
      simp only [stamp, List.getElem?_cons_succ, ih]
      rw [Nat.add_assoc, Nat.add_comm 1]

theorem stamp_positions (first : Nat) (octets : List UInt8) :
    (stamp first octets).map OutputByte.position = List.range' first octets.length := by
  induction octets generalizing first with
  | nil => rfl
  | cons octet rest ih => simp [stamp, ih, List.range'_succ]

theorem ptyOutput_append (first second : List WorldEvent) :
    ptyOutput (first ++ second) = ptyOutput first ++ ptyOutput second := by
  induction first with
  | nil => rfl
  | cons event rest ih => cases event <;> simp [ptyOutput, ih]

/-- The stream is the old log and the pty output, each byte at its position. -/
theorem step_stream (octets : List UInt8) (world next : World) (event : WorldEvent)
    (stamped : world.stream = stamp 0 octets) (taken : world.step event = some next) :
    next.stream = stamp 0 (octets ++ ptyOutput [event]) := by
  cases world_step_cases world next event taken with
  | @ptyRead read hub free pushed =>
    have output : ptyOutput [.ptyRead read] = read := by simp [ptyOutput]
    rw [output, stamp_append, stamped, stamp_length, Nat.zero_add]
  | _ => simpa [ptyOutput] using stamped

/-- A session with one broadcast slot, a ring of eight bytes and a log capped at two. -/
def small : World where
  hub := { fanout := { ring := { buf := List.replicate 8 default, head := 0, len := 0 }
                       tx := { slots := 1, sent := [] } }
           pushQueue := [], controlQueue := [], serving := true, clients := fun _ => none }
  stream := []
  handOff := none
  writer := { file := { content := [], cursor := 0 }
              thread := .waiting { maxSize := 2, currentSize := 0 }, queue := [] }
  client := .reading []
  received := 0

theorem start_small : World.start 8 1 [] (some 2) = some small := by
  have power : Nat.nextPowerOfTwo 1 = 1 := by decide +kernel
  have one_slot : BroadcastChannel.channel 1 =
      some ({ slots := 1, sent := [] } : BroadcastChannel.Channel (List OutputByte)) := by
    simp [BroadcastChannel.channel, power]
  simp only [World.start, Hub.start, Fanout.new, one_slot]
  rfl

end Hytch.ColdAttach
