import Hytch.Connections

/-!
What gets to the pty. The shared channel is first in, first out, so what the loop
passes to the pty is a merge of what the connections sent; a write that is cut
short leaves an initial part of its payload there.
-/

namespace Hytch.PtyInput

open IncrementalDecoding MessageCodec HandleClient DaemonRun Connections

/-- The pushes in the order in which the channel received them. -/
def pushesPut (enqueued : List (Nat × Outgoing)) : List (Nat × List UInt8) :=
  enqueued.filterMap fun
    | (id, .push data) => some (id, data)
    | _ => none

theorem pushes_put_grow (first second : List (Nat × Outgoing)) (initial : first <+: second) :
    pushesPut first <+: pushesPut second :=
  initial.filterMap _

/-- What has been handed to `pty.write_all`, with the connection each came from. -/
def passed (daemon : Daemon) : List (Nat × List UInt8) :=
  (pushesPut daemon.enqueued).take (payloadsTaken daemon.taken).length

def projection (id : Nat) (pushes : List (Nat × List UInt8)) : List (List UInt8) :=
  (pushes.filter fun entry => entry.1 = id).map Prod.snd

theorem projection_initial (id : Nat) (first second : List (Nat × List UInt8))
    (initial : first <+: second) : projection id first <+: projection id second :=
  (initial.filter _).map _

theorem payloadsPut_eq (enqueued : List (Nat × Outgoing)) :
    payloadsPut enqueued = (pushesPut enqueued).map Prod.snd := by
  induction enqueued with
  | nil => rfl
  | cons entry rest ih =>
    obtain ⟨id, item⟩ := entry
    cases item with
    | push data =>
      simp only [payloadsPut, pushesPut, List.filterMap_cons, List.map_cons] at ih ⊢
      rw [ih]
    | control command => exact ih

theorem payloadsBy_eq (id : Nat) (enqueued : List (Nat × Outgoing)) :
    payloadsBy id enqueued = projection id (pushesPut enqueued) := by
  induction enqueued with
  | nil => rfl
  | cons entry rest ih =>
    obtain ⟨other, item⟩ := entry
    cases item with
    | push data =>
      by_cases mine : other = id
      · simpa [payloadsBy, pushesPut, projection, mine] using ih
      · simpa [payloadsBy, pushesPut, projection, mine] using ih
    | control command => exact ih

/-- The payloads passed to the pty are a merge of initial parts of what the
connections sent, whole and in order. -/
structure Merged (system : System) : Prop where
  whole : (passed system.daemon).map Prod.snd = payloadsTaken system.daemon.taken
  inOrder : ∀ id, projection id (passed system.daemon) <+:
    pushesOf (drain (decoder codec) (system.wire id).sent).items

theorem taken_initial (daemon : Daemon) (channels : Channels daemon) :
    payloadsTaken daemon.taken <+: payloadsPut daemon.enqueued := by
  cases channels with
  | serving on control push => exact push ▸ List.prefix_append _ _
  | dropped off noControl noPush control push => exact push

theorem served_merged (system : System) (served : Served system) : Merged system := by
  constructor
  · have initial := taken_initial system.daemon served.channels
    rw [payloadsPut_eq] at initial
    rw [passed, List.map_take]
    exact (List.prefix_iff_eq_take.mp initial).symm
  · intro id
    refine (projection_initial id _ _ (List.take_prefix _ _)).trans ?_
    rw [← payloadsBy_eq]
    exact accounted_prefix system id (served.accounted id)

def beingWritten : LoopPhase → List (List UInt8)
  | .writing payload _ => [payload]
  | _ => []

/-- The part of it that has gone out. -/
def delivering : LoopPhase → List UInt8
  | .writing payload rest => payload.take (payload.length - rest.length)
  | _ => []

/-- The input of the pty is the payloads passed to it, each as far as it got, one
behind the other; a completed write got all of it there. -/
structure Written (daemon : Daemon) : Prop where
  payloads : payloadsTaken daemon.taken =
    daemon.written.map PtyWrite.payload ++ beingWritten daemon.phase
  input : daemon.pty.input =
    (daemon.written.map PtyWrite.delivered).flatten ++ delivering daemon.phase
  initial : ∀ write ∈ daemon.written, write.delivered <+: write.payload
  completed : ∀ write ∈ daemon.written, write.outcome = .completed → write.delivered = write.payload
  unwritten : ∀ payload rest, daemon.phase = .writing payload rest → rest <:+ payload

theorem written_elsewhere (daemon next : Daemon) (written : Written daemon)
    (taken : payloadsTaken next.taken = payloadsTaken daemon.taken)
    (input : next.pty.input = daemon.pty.input) (writes : next.written = daemon.written)
    (phase : next.phase = daemon.phase ∨
      (beingWritten daemon.phase = [] ∧ delivering daemon.phase = [] ∧
        ∀ payload rest, next.phase ≠ .writing payload rest)) : Written next := by
  obtain ⟨payloads, got, initial, completed, unwritten⟩ := written
  rcases phase with same | ⟨nothing, none_out, silent⟩
  · refine ⟨?_, ?_, ?_, ?_, ?_⟩
    · rw [taken, writes, same, payloads]
    · rw [input, writes, same, got]
    · rwa [writes]
    · rwa [writes]
    · rwa [same]
  · have nothing_now : beingWritten next.phase = [] ∧ delivering next.phase = [] := by
      cases phase : next.phase with
      | writing payload rest => exact absurd phase (silent payload rest)
      | _ => exact ⟨rfl, rfl⟩
    refine ⟨?_, ?_, ?_, ?_, ?_⟩
    · rw [taken, writes, nothing_now.1, payloads, nothing]
    · rw [input, writes, nothing_now.2, got, none_out]
    · rwa [writes]
    · rwa [writes]
    · intro payload rest writing
      exact absurd writing (silent payload rest)

theorem taken_front (front rest : List UInt8) :
    (front ++ rest).take ((front ++ rest).length - rest.length) = front := by
  rw [List.length_append, Nat.add_sub_cancel, List.take_left]

theorem written_push (daemon : Daemon) (hub : Hub UInt8) (data : List UInt8) (written : Written daemon)
    (selecting : daemon.phase = .selecting) :
    Written { daemon with
              hub := hub, phase := .writing data data, taken := daemon.taken ++ [.push data] } := by
  obtain ⟨payloads, got, initial, completed, _⟩ := written
  rw [selecting] at payloads got
  refine ⟨?_, ?_, initial, completed, ?_⟩
  · rw [payloadsTaken_append, payloads]
    simp [payloadsTaken, beingWritten]
  · rw [got]
    simp [delivering]
  · rintro payload rest ⟨⟩
    exact List.suffix_refl _

theorem written_piece (daemon : Daemon) (count : Nat) (payload rest : List UInt8)
    (written : Written daemon) (writing : daemon.phase = .writing payload rest) :
    Written { daemon with
              phase := .writing payload (rest.drop count)
              pty := { daemon.pty with input := daemon.pty.input ++ rest.take count } } := by
  obtain ⟨payloads, got, initial, completed, unwritten⟩ := written
  obtain ⟨front, rfl⟩ := unwritten payload rest writing
  rw [writing] at payloads got
  have after : (front ++ rest).take ((front ++ rest).length - (rest.drop count).length) =
      front ++ rest.take count := by
    have split : front ++ rest = (front ++ rest.take count) ++ rest.drop count := by
      rw [List.append_assoc, List.take_append_drop]
    rw [split]
    exact taken_front (front ++ rest.take count) (rest.drop count)
  refine ⟨payloads, ?_, initial, completed, ?_⟩
  · rw [got]
    simp only [delivering, taken_front, after, List.append_assoc]
  · rintro _ _ ⟨⟩
    exact (List.drop_suffix count rest).trans ⟨front, rfl⟩

theorem written_end (daemon : Daemon) (outcome : WriteOutcome) (payload rest : List UInt8)
    (written : Written daemon) (writing : daemon.phase = .writing payload rest)
    (ends : Daemon.endsAs rest outcome = true) :
    Written { daemon with
              phase := .selecting
              written := daemon.written ++
                [{ payload := payload, delivered := payload.take (payload.length - rest.length)
                   outcome := outcome }] } := by
  obtain ⟨payloads, got, initial, completed, unwritten⟩ := written
  rw [writing] at payloads got
  refine ⟨?_, ?_, ?_, ?_, ?_⟩
  · rw [payloads]
    simp [beingWritten]
  · rw [got]
    simp [delivering]
  · intro write member
    rcases List.mem_append.mp member with older | newest
    · exact initial write older
    · rw [List.mem_singleton.mp newest]
      exact List.take_prefix _ _
  · intro write member whole
    rcases List.mem_append.mp member with older | newest
    · exact completed write older whole
    · obtain rfl := List.mem_singleton.mp newest
      subst whole
      have empty : rest = [] := by simpa [Daemon.endsAs] using ends
      simp [empty]
  · rintro _ _ ⟨⟩

theorem written_step (daemon next : Daemon) (event : DaemonEvent) (written : Written daemon)
    (taken : daemon.step event = some next) : Written next := by
  -- a step between two phases without a write
  have between (before : LoopPhase) (same : daemon.phase = before) (quiet : beingWritten before = [])
      (silent : delivering before = []) (other : ∀ payload rest, next.phase ≠ .writing payload rest) :
      next.phase = daemon.phase ∨ (beingWritten daemon.phase = [] ∧ delivering daemon.phase = [] ∧
        ∀ payload rest, next.phase ≠ .writing payload rest) :=
    .inr ⟨by rw [same, quiet], by rw [same, silent], other⟩
  cases daemon_step_cases daemon next event taken with
  | outside kind input alive grows => exact written_elsewhere daemon _ written rfl input rfl (.inl rfl)
  | task own awaits moved => exact written_elsewhere daemon _ written rfl rfl rfl (.inl rfl)
  | writer moved => exact written_elsewhere daemon _ written rfl rfl rfl (.inl rfl)
  | command selecting queue moved =>
    exact written_elsewhere daemon _ written (by simp [payloadsTaken]) rfl rfl (.inl rfl)
  | accept selecting quiet waiting accepted =>
    exact written_elsewhere daemon _ written (by simp [payloadsTaken]) rfl rfl (.inl rfl)
  | read selecting quiet bound pushed =>
    exact written_elsewhere daemon _ written (by simp [payloadsTaken]) rfl rfl
      (between _ selecting rfl rfl (by simp))
  | ended selecting quiet nothing closed =>
    exact written_elsewhere daemon _ written (by simp [payloadsTaken]) rfl rfl
      (between _ selecting rfl rfl (by simp))
  | signaled selecting quiet signal =>
    exact written_elsewhere daemon _ written rfl rfl rfl (between _ selecting rfl rfl (by simp))
  | handOff pending =>
    exact written_elsewhere daemon _ written rfl rfl rfl (between _ pending rfl rfl (by simp))
  | reaped waiting dead =>
    exact written_elsewhere daemon _ written rfl rfl rfl (between _ waiting rfl rfl (by simp))
  | marked leaving logging =>
    exact written_elsewhere daemon _ written rfl rfl rfl (between _ leaving rfl rfl (by simp))
  | unmarked leaving silent =>
    exact written_elsewhere daemon _ written rfl rfl rfl (between _ leaving rfl rfl (by simp))
  | joined draining ended =>
    exact written_elsewhere daemon _ written rfl rfl rfl (between _ draining rfl rfl (by simp))
  | unlinked unlinking stopped =>
    exact written_elsewhere daemon _ written rfl rfl rfl (between _ unlinking rfl rfl (by simp))
  | push selecting quiet queue moved => exact written_push daemon _ _ written selecting
  | ptyWrite writing bound => exact written_piece daemon _ _ _ written writing
  | writeEnds writing ends => exact written_end daemon _ _ _ written writing ends

theorem written_start (scrollback : Nat) (content : List UInt8) (logging : Option Nat)
    (daemon : Daemon) (started : Daemon.start scrollback content logging = some daemon) :
    Written daemon := by
  obtain ⟨hub, writer, _, _, rfl⟩ := start_cases scrollback content logging daemon started
  exact ⟨rfl, rfl, by simp, by simp, by simp⟩

end Hytch.PtyInput
