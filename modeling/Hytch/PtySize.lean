import Hytch.Requests
import Hytch.WindowSizes

/-!
The window size in the daemon: what `pty.resize` leaves of all that the clients tell, and
that it is what the terminal of the one client that tells any has.
-/

namespace Hytch.PtySize

open IncrementalDecoding MessageCodec HandleClient DaemonRun Connections Requests AttachLoop
  WindowSizes Runs

/-- The size of the pty after `resize` for each of these. -/
def windowSize (initial : Size) (commands : List ControlCommand) : Size :=
  commands.foldl (fun size command =>
    match command with
    | .resize rows cols => (rows, cols)
    | .signal _ => size) initial

section Pty

theorem window_size_told (messages : List Message) (initial : Size) :
    windowSize initial (commandsOf (requests messages)) =
      (sizesTold messages).getLast?.getD initial := by
  induction messages generalizing initial with
  | nil => rfl
  | cons msg rest ih =>
    have skips (silent : commandsOf (requests (msg :: rest)) = commandsOf (requests rest))
        (untold : sizesTold (msg :: rest) = sizesTold rest) :
        windowSize initial (commandsOf (requests (msg :: rest))) =
          (sizesTold (msg :: rest)).getLast?.getD initial := by
      rw [silent, untold, ih]
    have sets (size : Size)
        (asked : commandsOf (requests (msg :: rest)) =
          .resize size.1 size.2 :: commandsOf (requests rest))
        (told : sizesTold (msg :: rest) = size :: sizesTold rest) :
        windowSize initial (commandsOf (requests (msg :: rest))) =
          (sizesTold (msg :: rest)).getLast?.getD initial := by
      rw [asked, told, List.getLast?_cons, Option.getD_some, ← ih size]
      rfl
    cases msg with
    | push data => exact skips rfl rfl
    | attach skipRing => exact skips rfl rfl
    | detach => exact skips rfl rfl
    | winch rows cols => exact sets (rows, cols) rfl rfl
    | redraw method rows cols =>
      cases method with
      | none => exact skips rfl rfl
      | unspecified => exact sets (rows, cols) rfl rfl
      | ctrlL => exact sets (rows, cols) rfl rfl
      | winch => exact sets (rows, cols) rfl rfl
    | kill signal =>
      have asked : commandsOf (requests (.kill signal :: rest)) =
          .signal ((Signal.fromRaw signal.toNat).getD Signal.term) :: commandsOf (requests rest) := rfl
      have untold : sizesTold (.kill signal :: rest) = sizesTold rest := rfl
      rw [asked, untold, ← ih initial]
      rfl

theorem window_size_by (id : Nat) (commands : List (Nat × ControlCommand)) (initial : Size)
    (silent : ∀ entry ∈ commands, entry.1 ≠ id → ∀ rows cols, entry.2 ≠ .resize rows cols) :
    windowSize initial (commands.map Prod.snd) = windowSize initial (appliedBy id commands) := by
  induction commands generalizing initial with
  | nil => rfl
  | cons entry rest ih =>
    obtain ⟨other, command⟩ := entry
    have later (initial : Size) := ih initial fun entry member =>
      silent entry (List.mem_cons_of_mem _ member)
    by_cases mine : other = id
    · have kept : appliedBy id ((other, command) :: rest) = command :: appliedBy id rest := by
        simp [appliedBy, mine]
      rw [kept]
      exact later _
    · have dropped : appliedBy id ((other, command) :: rest) = appliedBy id rest := by
        simp [appliedBy, mine]
      rw [dropped, ← later initial]
      cases command with
      | signal sig => rfl
      | resize rows cols => exact absurd rfl (silent _ List.mem_cons_self mine rows cols)

theorem resize_told (messages : List Message) (rows cols : UInt16)
    (member : ControlCommand.resize rows cols ∈ commandsOf (requests messages)) :
    sizesTold messages ≠ [] := by
  intro nothing
  obtain ⟨item, asked, command⟩ := List.mem_filterMap.mp member
  obtain ⟨msg, sent, asks⟩ := List.mem_filterMap.mp asked
  have untold := List.filterMap_eq_nil_iff.mp nothing msg sent
  cases msg with
  | winch => cases untold
  | redraw method =>
    cases method with
    | none => cases asks
    | unspecified => cases untold
    | ctrlL => cases untold
    | winch => cases untold
  | kill signal =>
    cases asks
    cases command
  | push data =>
    cases asks
    cases command
  | attach skipRing => cases asks
  | detach => cases asks

end Pty

/-- From the window to the pty: the client has settled, its frames have been heard, and the
loop has taken what they ask for. Other clients tell no sizes. -/
theorem pty_follows_terminal (given : Given) (size initial : Size) (fg : Foreground)
    (attach : Attach) (clientEvents : List ForegroundEvent) (scrollback : Nat)
    (content : List UInt8) (logging : Option Nat) (daemon : Daemon) (system : System)
    (events : List SystemEvent) (id : Nat)
    (attached : run (Foreground.step given) (Foreground.start size) clientEvents = some fg)
    (answered : ∀ event ∈ clientEvents, Answers event) (settled : Settled fg attach)
    (started : Daemon.start scrollback content logging = some daemon)
    (ran : run System.step (System.start daemon) events = some system)
    (wire : (system.wire id).sent = attach.connWrite) (heard : Heard system id)
    (serving : system.daemon.hub.serving = true) (idle : system.daemon.hub.controlQueue = [])
    (alone : ∀ other, other ≠ id →
      sizesTold (drain (decoder Connections.codec) (system.wire other).sent).items = []) :
    windowSize initial (commandsTaken system.daemon.taken) = fg.size := by
  obtain ⟨messages, decoded, newest, _⟩ := told_of_tracks given _ fg attach
    (tracks_run given size fg clientEvents attached) answered settled
  have carried := carried_of_served system
    (served_run scrollback content logging daemon system events started ran)
  have silent : ∀ entry ∈ applied system.daemon, entry.1 ≠ id →
      ∀ rows cols, entry.2 ≠ .resize rows cols := by
    intro entry member other rows cols resizes
    have theirs : entry.2 ∈ appliedBy entry.1 (applied system.daemon) :=
      List.mem_map_of_mem (List.mem_filter.mpr ⟨member, decide_eq_true rfl⟩)
    have asks := (carried.commands entry.1).subset theirs
    rw [resizes] at asks
    exact resize_told _ rows cols asks (alone entry.1 other)
  have all : appliedBy id (applied system.daemon) = commandsOf (requests messages) := by
    rw [carried.idle serving idle, ← commandsOf_requestsBy, carried.heard id heard, asked, wire]
    exact congrArg (fun result => commandsOf (requests result.items)) decoded
  calc windowSize initial (commandsTaken system.daemon.taken)
      = windowSize initial (appliedBy id (applied system.daemon)) := by
        rw [← carried.taken, window_size_by id _ initial silent]
    _ = (sizesTold messages).getLast?.getD initial := by rw [all, window_size_told]
    _ = fg.size := by rw [newest, Option.getD_some]

def resizesOnce : List ForegroundEvent :=
  [.installs true, .sized true, .loop .handshake, .loop .handshake, .resized (30, 90), .wakes,
    .queries true, .sends, .loop .resized]

/-- What is sent then, and all that the daemon does about it. -/
def resizesHeard : List SystemEvent :=
  [.daemon (.connects 0), .daemon (.select 0),
    .peerWrites 0 [1, 0, 0, 0, 1, 0, 4, 0, 0, 0, 5, 3, 0, 24, 0, 80, 3, 0, 0, 0, 4, 0, 30, 0, 90],
    .fill 0 25, .next 0, .daemon (.task (.written 0)), .next 0, .daemon (.task (.enqueue 0)),
    .next 0, .daemon (.task (.enqueue 0)), .daemon (.select 0), .daemon (.select 0)]

set_option maxRecDepth 2000 in
theorem pty_follows_terminal_once : ∃ fg attach system,
    run (Foreground.step plainGiven) (Foreground.start (24, 80)) resizesOnce = some fg ∧
      Settled fg attach ∧ fg.size = (30, 90) ∧
      run System.step (System.start idle) resizesHeard = some system ∧
      windowSize (24, 80) (commandsTaken system.daemon.taken) = fg.size := by
  refine ⟨_, _, _, rfl, ⟨rfl, rfl, ⟨_, rfl⟩, rfl, rfl⟩, rfl, rfl, ?_⟩
  refine pty_follows_terminal plainGiven (24, 80) (24, 80) _ _ resizesOnce 8 [] none idle _
    resizesHeard 0 rfl (by simp [resizesOnce, Answers]) ⟨rfl, rfl, ⟨_, rfl⟩, rfl, rfl⟩ start_idle rfl
    rfl ⟨rfl, rfl⟩ rfl rfl ?_
  intro other different
  simp [System.setWire, System.start, Wire.fresh, different, drain_pending _ _ _ (decode_nil Connections.codec),
    sizesTold]

end Hytch.PtySize
