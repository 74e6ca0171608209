import Hytch.FrameGrammar
import Hytch.Requests

/-!
How much of what its peers send the daemon holds: a frame in each read buffer, one message in
the hands of each task, and two channels that are never longer than they were made.
-/

namespace Hytch.BoundedMemory

open IncrementalDecoding MessageCodec FrameGrammar HandleClient Attachments DaemonRun Connections
  PtyInput Requests Runs

/-- `chunk` is the most that one read of a connection returns. -/
structure Frugal (chunk : Nat) (system : System) : Prop where
  fits : Fits system.daemon.hub
  queued : ∀ data ∈ system.daemon.hub.pushQueue, data.length ≤ defaultMaxFrameLen
  inHand : ∀ id data, .push data ∈ held system.daemon.hub id → data.length ≤ defaultMaxFrameLen
  buffers : ∀ id, (system.wire id).buffer.length < headerLen + defaultMaxFrameLen + chunk

section Sizes

theorem decoded_small (buffer rest data : List UInt8)
    (answer : codec.decode buffer = (.ok (some (.push data)), rest)) :
    data.length ≤ defaultMaxFrameLen := by
  obtain ⟨ty, b0, b1, b2, b3, payload, _, _, admitted, decoded⟩ :=
    decode_item_inversion codec buffer rest _ answer
  cases decoded_carries ty payload _ decoded with
  | push => exact admitted

theorem decoded_shrinks (buffer rest : List UInt8) (msg : Message)
    (answer : codec.decode buffer = (.ok (some msg), rest)) : rest.length ≤ buffer.length :=
  Nat.le_of_lt ((decoder codec).itemShrinks buffer msg rest answer)

theorem asked_small (system : System) (id : Nat) (data : List UInt8)
    (member : .push data ∈ asked system id) : data.length ≤ defaultMaxFrameLen := by
  obtain ⟨msg, sent, asks⟩ := List.mem_filterMap.mp member
  obtain ⟨buffer, rest, answer⟩ := drain_items_decoded (decoder codec) _ msg sent
  cases msg with
  | push payload =>
    cases asks
    exact decoded_small buffer rest data answer
  | redraw method rows cols => cases method <;> cases asks
  | winch rows cols => cases asks
  | kill signal => cases asks
  | attach skipRing => cases asks
  | detach => cases asks

theorem buffers_step (chunk : Nat) (system next : System) (event : SystemEvent)
    (pieces : ∀ id count, event = .fill id count → count ≤ chunk)
    (buffers : ∀ id, (system.wire id).buffer.length < headerLen + defaultMaxFrameLen + chunk)
    (taken : system.step event = some next) :
    ∀ id, (next.wire id).buffer.length < headerLen + defaultMaxFrameLen + chunk := by
  have set (owner : Nat) (wire : Wire)
      (short : wire.buffer.length < headerLen + defaultMaxFrameLen + chunk) :
      ∀ id, ((system.setWire owner wire).wire id).buffer.length <
        headerLen + defaultMaxFrameLen + chunk := by
    intro id
    by_cases mine : id = owner
    · rw [mine, System.setWire_same]
      exact short
    · rw [System.setWire_other system owner id wire mine]
      exact buffers id
  cases system_step_cases system next event taken with
  | peerWrites connected opened => exact set _ _ (buffers _)
  | peerCloses => exact set _ _ (buffers _)
  | @fill reader count reading pending bound =>
    apply set reader
    have waits := pending_bound codec (system.wire reader).buffer _ (Prod.ext pending rfl)
    have limit : codec.maxFrameLen = defaultMaxFrameLen := rfl
    have few := pieces reader count rfl
    rw [List.length_append, List.length_take]
    omega
  | @frame reader msg rest daemon decoded moved =>
    exact set reader _ (Nat.lt_of_le_of_lt (decoded_shrinks _ rest msg decoded) (buffers reader))
  | ends last left moved => exact buffers
  | daemon allowed moved => exact buffers

end Sizes

/-- What waits in the push channel has been asked for by somebody. -/
theorem queued_asked (system : System) (channels : Channels system.daemon)
    (carried : Carried system) (data : List UInt8)
    (member : data ∈ system.daemon.hub.pushQueue) : ∃ id, .push data ∈ asked system id := by
  cases channels with
  | dropped off noControl noPush =>
    rw [noPush] at member
    cases member
  | serving on control push =>
    have put : data ∈ payloadsPut system.daemon.enqueued := by
      rw [push]
      exact List.mem_append_right _ member
    obtain ⟨⟨id, item⟩, enqueued, same⟩ := List.mem_filterMap.mp put
    cases item with
    | control command => cases same
    | push payload =>
      cases same
      refine ⟨id, (carried.inOrder id).subset ?_⟩
      exact List.mem_map_of_mem (List.mem_filter.mpr ⟨enqueued, decide_eq_true rfl⟩)

/-- Whatever the peers send, as much and as badly formed as they like. -/
theorem memory_bounded (chunk scrollback : Nat) (content : List UInt8) (logging : Option Nat)
    (daemon : Daemon) (last : System) (events : List SystemEvent)
    (started : Daemon.start scrollback content logging = some daemon)
    (ran : run System.step (System.start daemon) events = some last)
    (pieces : ∀ id count, .fill id count ∈ events → count ≤ chunk) : Frugal chunk last := by
  have served := served_run scrollback content logging daemon last events started ran
  have carried := carried_of_served last served
  constructor
  · exact served.fits
  · intro data member
    obtain ⟨id, asks⟩ := queued_asked last served.channels carried data member
    exact asked_small last id data asks
  · intro id data member
    apply asked_small last id data
    rw [asked_of_accounted last id (served.accounted id)]
    exact List.mem_append_left _ (List.mem_append_right _ member)
  · have met := meets_of_forall System.step
      (fun event => ∀ id count, event = .fill id count → count ≤ chunk) (System.start daemon) events
      fun event member id count same => pieces id count (same ▸ member)
    refine run_guarded_invariant System.step _
      (fun _ system => ∀ id, (system.wire id).buffer.length <
        headerLen + defaultMaxFrameLen + chunk) ?_ [] events (System.start daemon) last ?_ met ran
    · intro past state event next buffers allowed taken
      exact buffers_step chunk state next event allowed buffers taken
    · intro id
      exact Nat.lt_of_lt_of_le (show 0 < headerLen by decide) (by omega)

def claimsTooMuch : List SystemEvent :=
  [.daemon (.connects 0), .daemon (.select 0), .peerWrites 0 [0, 255, 255, 255, 255, 1, 2, 3],
    .fill 0 8, .next 0]

theorem memory_bounded_claim : ∃ last, Daemon.start 8 [] none = some idle ∧
    run System.step (System.start idle) claimsTooMuch = some last ∧ Frugal 8 last := by
  refine ⟨_, start_idle, rfl, ?_⟩
  exact memory_bounded 8 8 [] none idle _ claimsTooMuch start_idle rfl (by simp [claimsTooMuch])

end Hytch.BoundedMemory
