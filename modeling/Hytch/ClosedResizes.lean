import Hytch.AttachLoop

/-!
The attach loop after the sender of the resize events is gone. `recv` then returns
`None` at once, every time it is asked, and the loop goes on asking.
-/

namespace Hytch.ClosedResizes

open AttachLoop Runs

/-- The handshake is in front of the loop. -/
def inLoop : AttachEvent → Bool
  | .handshake => false
  | _ => true

def iterations (events : List AttachEvent) : Nat := events.countP inLoop

/-- Input, output, end of connection or a resize: anything but the closed channel. -/
def realEvents (events : List AttachEvent) : Nat :=
  events.countP fun event => inLoop event && event != .resizesClosed

/-- Once the receiver has said `None` it is not asked again. -/
def Quiet (events : List AttachEvent) : Prop :=
  ∀ before after, events = before ++ .resizesClosed :: after → .resizesClosed ∉ after

def Bounded (events : List AttachEvent) : Prop := iterations events ≤ realEvents events + 1

/-- Every run of `run` on this input, with the sender dropped behind these events. -/
def GoesQuiet (opts : AttachOptions) (input connRead : List UInt8)
    (resizeEvents : List (UInt16 × UInt16)) : Prop :=
  ∀ events last, run (Attach.step opts) (Attach.start input connRead resizeEvents) events =
    some last → Quiet events ∧ Bounded events

theorem iterations_split (events : List AttachEvent) :
    iterations events = realEvents events + events.count .resizesClosed := by
  induction events with
  | nil => rfl
  | cons event rest ih =>
    rw [iterations, realEvents] at ih ⊢
    rw [List.countP_cons, List.countP_cons, List.count_cons, ih]
    cases event <;> simp [inLoop] <;> omega

theorem bounded_iff (events : List AttachEvent) :
    Bounded events ↔ events.count .resizesClosed ≤ 1 := by
  rw [Bounded, iterations_split]
  omega

theorem quiet_iff (events : List AttachEvent) :
    Quiet events ↔ events.count .resizesClosed ≤ 1 := by
  constructor
  · intro quiet
    by_cases asked : AttachEvent.resizesClosed ∈ events
    · obtain ⟨before, after, rfl, first⟩ := List.eq_append_cons_of_mem asked
      have later := List.count_eq_zero.mpr (quiet before after rfl)
      have earlier := List.count_eq_zero.mpr first
      simp [List.count_append, later, earlier]
    · rw [List.count_eq_zero.mpr asked]
      exact Nat.zero_le 1
  · rintro once before after rfl again
    have more := List.count_pos_iff.mpr again
    simp only [List.count_append, List.count_cons_self] at once
    omega

theorem queued_resizes_taken (opts : AttachOptions) (attach : Attach)
    (phase : attach.phase = .selecting) :
    ∃ next, run (Attach.step opts) attach (List.replicate attach.resizeEvents.length .resized) =
      some next ∧ next.phase = .selecting ∧ next.resizeEvents = [] := by
  induction queued : attach.resizeEvents generalizing attach with
  | nil => exact ⟨attach, rfl, phase, queued⟩
  | cons size rest ih =>
    obtain ⟨rows, cols⟩ := size
    have taken : attach.step opts .resized =
        some ({ attach with resizeEvents := rest }.send (.winch rows cols)) := by
      rw [Attach.step, if_pos phase, Attach.onResized, queued]
    obtain ⟨next, later, selecting, empty⟩ :=
      ih ({ attach with resizeEvents := rest }.send (.winch rows cols)) phase rfl
    refine ⟨next, ?_, selecting, empty⟩
    rw [List.length_cons, List.replicate_succ, run, taken, Option.bind_some]
    exact later

theorem closed_channel_spins (opts : AttachOptions) (attach : Attach)
    (phase : attach.phase = .selecting) (empty : attach.resizeEvents = []) (times : Nat) :
    run (Attach.step opts) attach (List.replicate times .resizesClosed) = some attach := by
  induction times with
  | zero => rfl
  | succ times ih =>
    have taken : attach.step opts .resizesClosed = some attach := if_pos ⟨phase, empty⟩
    rw [List.replicate_succ, run, taken, Option.bind_some]
    exact ih

theorem run_spins (opts : AttachOptions) (start attach : Attach) (events : List AttachEvent)
    (ran : run (Attach.step opts) start events = some attach)
    (phase : attach.phase = .selecting) (times : Nat) :
    ∃ more last, run (Attach.step opts) start (events ++ more) = some last ∧
      times ≤ (events ++ more).count .resizesClosed := by
  obtain ⟨next, drained, selecting, empty⟩ := queued_resizes_taken opts attach phase
  have spun := closed_channel_spins opts next selecting empty times
  refine ⟨List.replicate attach.resizeEvents.length .resized ++ List.replicate times .resizesClosed,
    next, ?_, ?_⟩
  · rw [run_append, ran, Option.bind_some, run_append, drained, Option.bind_some, spun]
  · rw [List.count_append, List.count_append, List.count_replicate_self]
    omega

/-- On no input does the loop go quiet. -/
theorem never_goes_quiet (opts : AttachOptions) (input connRead : List UInt8)
    (resizeEvents : List (UInt16 × UInt16)) :
    ¬ GoesQuiet opts input connRead resizeEvents := by
  intro quiet
  obtain ⟨more, last, ran, asked⟩ := run_spins opts (Attach.start input connRead resizeEvents) _
    [.handshake, .handshake] rfl rfl 2
  have once := (quiet_iff _).mp (quiet _ last ran).1
  omega

/-- A daemon that is silent, a user who does not type, and a channel that is closed. -/
theorem idle_loop_spins :
    run (Attach.step usual) (Attach.start [] [] [])
      [.handshake, .handshake, .resizesClosed, .resizesClosed, .resizesClosed] =
        run (Attach.step usual) (Attach.start [] [] []) [.handshake, .handshake] ∧
      ¬ GoesQuiet usual [] [] [] := by
  refine ⟨by decide, fun quiet => ?_⟩
  have ran : ∃ last, run (Attach.step usual) (Attach.start [] [] [])
      [.handshake, .handshake, .resizesClosed, .resizesClosed, .resizesClosed] = some last :=
    ⟨_, rfl⟩
  obtain ⟨last, ran⟩ := ran
  have bounded := (bounded_iff _).mp (quiet _ last ran).2
  exact absurd bounded (by decide)

end Hytch.ClosedResizes
