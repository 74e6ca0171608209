import Mathlib.Logic.Function.Basic
import Hytch.MessageCodec
import Hytch.Fanout
import Hytch.Runs

/-!
The client side of `daemon.rs`: one `handle_client` task per connection, all
sharing the fanout and the two channels to the daemon loop. A task is a state
machine whose waiting points are the `await`s of the source; every other task
may run between two of its steps. `write_all` moves any number of bytes at a
time. `socket` is everything written to that client so far.
-/

namespace Hytch.HandleClient

open BroadcastChannel MessageCodec Runs

variable {Cell : Type}

structure Signal where
  number : Nat
  deriving DecidableEq

def Signal.term : Signal := { number := 15 }

/-- `Signal::from_raw`: the signals Linux defines. -/
def Signal.fromRaw (raw : Nat) : Option Signal :=
  if 1 ≤ raw ∧ raw ≤ 31 then some { number := raw } else none

inductive ControlCommand where
  | resize (rows cols : UInt16)
  | signal (sig : Signal)
  deriving DecidableEq

/-- What a task is waiting to hand to the daemon loop. -/
inductive Outgoing where
  | push (data : List UInt8)
  | control (command : ControlCommand)
  deriving DecidableEq

/-- What `framed.next()` resolves to. -/
inductive Input where
  | frame (msg : Message)
  | protocolError
  | closed
  deriving DecidableEq

inductive Activity (Cell : Type) where
  | selecting
  | writingSnapshot (rest : List Cell) (rx : Receiver)
  | writingLive (rest : List Cell)
  | enqueuing (item : Outgoing)
  | returned

structure Client (Cell : Type) where
  attached : Option Receiver
  activity : Activity Cell
  socket : List Cell

def Client.connected : Client Cell := { attached := none, activity := .selecting, socket := [] }

def Client.disconnect (client : Client Cell) : Client Cell := { client with activity := .returned }

/-- The `framed.next()` branch of the select. -/
def onInput (fanout : Fanout Cell) (client : Client Cell) : Input → Option (Client Cell)
  | .frame (.attach skipRing) => do
      let (snapshot, rx) ← fanout.attach
      -- `attached` is set only once the snapshot has been written
      if skipRing then some { client with attached := some rx }
      else some { client with activity := .writingSnapshot snapshot rx }
  | .frame .detach => some { client with attached := none }
  | .frame (.push data) => some { client with activity := .enqueuing (.push data) }
  | .frame (.winch rows cols) =>
      some { client with activity := .enqueuing (.control (.resize rows cols)) }
  | .frame (.redraw method rows cols) =>
      -- every other method only resizes; the redraw signal itself is not sent
      if method ≠ .none then
        some { client with activity := .enqueuing (.control (.resize rows cols)) }
      else some client
  | .frame (.kill signal) =>
      let sig := (Signal.fromRaw signal.toNat).getD Signal.term
      some { client with activity := .enqueuing (.control (.signal sig)) }
  | .protocolError => some client.disconnect
  | .closed => some client.disconnect

/-- The `recv_next` branch; without an attachment it stays pending. -/
def onLive (fanout : Fanout Cell) (client : Client Cell) : Option (Client Cell) :=
  match client.attached with
  | none => none
  | some rx =>
      match fanout.tx.recv rx with
      | .empty => none
      -- the messages after the gap are never asked for
      | .lagged _ _ => some client.disconnect
      | .item data rx => some { client with attached := some rx, activity := .writingLive data }

/-- One write of `write_all` takes `count` bytes. -/
def onWrite (client : Client Cell) (count : Nat) : Option (Client Cell) :=
  match client.activity with
  | .writingSnapshot rest rx =>
      if 0 < count ∧ count ≤ rest.length then
        some { client with activity := .writingSnapshot (rest.drop count) rx
                           socket := client.socket ++ rest.take count }
      else none
  | .writingLive rest =>
      if 0 < count ∧ count ≤ rest.length then
        some { client with activity := .writingLive (rest.drop count)
                           socket := client.socket ++ rest.take count }
      else none
  | _ => none

/-- `write_all` returns `Ok`. -/
def onWritten (client : Client Cell) : Option (Client Cell) :=
  match client.activity with
  | .writingSnapshot [] rx => some { client with attached := some rx, activity := .selecting }
  | .writingLive [] => some { client with activity := .selecting }
  | _ => none

def onWriteFails (client : Client Cell) : Option (Client Cell) :=
  match client.activity with
  | .writingSnapshot (_ :: _) _ => some client.disconnect
  | .writingLive (_ :: _) => some client.disconnect
  | _ => none

structure Hub (Cell : Type) where
  fanout : Fanout Cell
  pushQueue : List (List UInt8)
  controlQueue : List ControlCommand
  /-- The daemon loop still owns the listener and the receiving ends. -/
  serving : Bool
  clients : Nat → Option (Client Cell)

def pushCapacity : Nat := 256
def controlCapacity : Nat := 16

inductive HubEvent (Cell : Type) where
  | output (chunk : List Cell)
  | accept (id : Nat)
  | input (id : Nat) (input : Input)
  | live (id : Nat)
  | write (id : Nat) (count : Nat)
  | written (id : Nat)
  | writeFails (id : Nat)
  | enqueue (id : Nat)
  | takePush
  | takeControl
  | stop

namespace Hub

def start [Inhabited Cell] (scrollback broadcast : Nat) : Option (Hub Cell) := do
  let fanout ← Fanout.new scrollback broadcast
  some { fanout := fanout, pushQueue := [], controlQueue := [], serving := true
         clients := fun _ => none }

def setClient (hub : Hub Cell) (id : Nat) (client : Client Cell) : Hub Cell :=
  { hub with clients := Function.update hub.clients id (some client) }

@[simp] theorem setClient_fanout (hub : Hub Cell) (id : Nat) (client : Client Cell) :
    (hub.setClient id client).fanout = hub.fanout := rfl

@[simp] theorem setClient_clients (hub : Hub Cell) (id : Nat) (client : Client Cell) :
    (hub.setClient id client).clients = Function.update hub.clients id (some client) := rfl

/-- Run one step of an existing client's task. -/
def onClient (hub : Hub Cell) (id : Nat) (task : Client Cell → Option (Client Cell)) :
    Option (Hub Cell) :=
  (hub.clients id).bind fun client => (task client).map (hub.setClient id)

/-- The two branches of the select are only taken at the select. -/
def whenSelecting (task : Client Cell → Option (Client Cell)) (client : Client Cell) :
    Option (Client Cell) :=
  match client.activity with
  | .selecting => task client
  | _ => none

/-- `mpsc::Sender::send`: waits for room, fails once the receiver is gone. -/
def onEnqueue (hub : Hub Cell) (id : Nat) : Option (Hub Cell) :=
  (hub.clients id).bind fun client =>
    match client.activity with
    | .enqueuing item =>
        if hub.serving then
          let resumed := hub.setClient id { client with activity := .selecting }
          match item with
          | .push data =>
              if hub.pushQueue.length < pushCapacity then
                some { resumed with pushQueue := hub.pushQueue ++ [data] }
              else none
          | .control command =>
              if hub.controlQueue.length < controlCapacity then
                some { resumed with controlQueue := hub.controlQueue ++ [command] }
              else none
        else some (hub.setClient id client.disconnect)
    | _ => none

def step (hub : Hub Cell) : HubEvent Cell → Option (Hub Cell)
  | .output chunk => (hub.fanout.push chunk).map fun fanout => { hub with fanout := fanout }
  | .accept id =>
      if hub.serving ∧ (hub.clients id).isNone then some (hub.setClient id Client.connected)
      else none
  | .input id input => hub.onClient id (whenSelecting fun client => onInput hub.fanout client input)
  | .live id => hub.onClient id (whenSelecting (onLive hub.fanout))
  | .write id count => hub.onClient id fun client => onWrite client count
  | .written id => hub.onClient id onWritten
  | .writeFails id => hub.onClient id onWriteFails
  | .enqueue id => hub.onEnqueue id
  | .takePush =>
      match hub.pushQueue with
      | [] => none
      | _ :: rest => some { hub with pushQueue := rest }
  | .takeControl =>
      match hub.controlQueue with
      | [] => none
      | _ :: rest => some { hub with controlQueue := rest }
  -- the receiving ends are dropped with everything queued
  | .stop => some { hub with serving := false, pushQueue := [], controlQueue := [] }

/-- Everything written to a client's socket so far. -/
def socket (hub : Hub Cell) (id : Nat) : List Cell :=
  match hub.clients id with
  | some client => client.socket
  | none => []

end Hub

theorem hub_start_cases [Inhabited Cell] (scrollback broadcast : Nat) (hub : Hub Cell)
    (started : Hub.start scrollback broadcast = some hub) :
    ∃ fanout, Fanout.new scrollback broadcast = some fanout ∧
      hub = { fanout := fanout, pushQueue := [], controlQueue := [], serving := true
              clients := fun _ => none } := by
  simp only [Hub.start, Option.bind_eq_bind, Option.bind_eq_some_iff, Option.some.injEq] at started
  obtain ⟨fanout, created, rfl⟩ := started
  exact ⟨fanout, created, rfl⟩

def outputs : List (HubEvent Cell) → List Cell
  | [] => []
  | .output chunk :: rest => chunk ++ outputs rest
  | _ :: rest => outputs rest

/-- The events of client `id` that end its current attachment. -/
def EndsAttachment (id : Nat) : HubEvent Cell → Prop
  | .input other (.frame (.attach _)) => other = id
  | .input other (.frame .detach) => other = id
  | _ => False

end Hytch.HandleClient
