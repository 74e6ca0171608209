import Hytch.AttachLoop

/-!
The attach loop when the daemon goes away. From then on reading gives what is left of
the output and after it the end, and every write fails; the loop may take any branch
that is ready, also one that writes.
-/

namespace Hytch.SessionEnd

open AttachLoop MessageCodec FrameStream Runs

/-- The loop, and whether the daemon has closed the connection. `connRead` is what the
daemon sends before it does. -/
structure Ending where
  attach : Attach
  closed : Bool
  deriving DecidableEq

inductive EndEvent where
  | close
  | takes (event : AttachEvent)
  deriving DecidableEq

def running : Phase → Bool
  | .attaching | .redrawing | .selecting => true
  | .returned _ | .failed _ => false

namespace Ending

def start (input connRead : List UInt8) (resizeEvents : List (UInt16 × UInt16)) : Ending :=
  { attach := Attach.start input connRead resizeEvents, closed := false }

/-- One step of the loop, in which a write to the closed connection fails. -/
def afterWrite (ending : Ending) (next : Attach) : Attach :=
  if ending.closed = true ∧ next.connWrite ≠ ending.attach.connWrite then
    { next with phase := .failed brokenPipe, connWrite := ending.attach.connWrite }
  else next

def step (opts : AttachOptions) (ending : Ending) : EndEvent → Option Ending
  | .close =>
      if ending.closed = false ∧ running ending.attach.phase = true then
        some { ending with closed := true }
      else none
  -- nothing else fails
  | .takes (.fails _ _) => none
  | .takes event =>
      (ending.attach.step opts event).bind fun next =>
        -- an open connection has no end yet
        if ending.closed = false ∧ next.phase = .returned .sessionEnded then none
        else some { ending with attach := ending.afterWrite next }

end Ending

/-- If the daemon has gone, the loop is still at it or has said so, with everything
written that the daemon sent. -/
def EndReported (sent : List UInt8) (ending : Ending) : Prop :=
  ending.closed = true →
    match ending.attach.phase with
    | .returned outcome => outcome = .sessionEnded ∧ ending.attach.output = sent
    | .failed _ => False
    | _ => True

/-- From the closed connection on nothing is taken but what it still gives. -/
def ReadsOnly (ending : Ending) (event : EndEvent) : Prop :=
  ending.closed = true → event = .takes .resizesClosed ∨ ∃ count, event = .takes (.connRead count)

def Accounted (sent : List UInt8) (ending : Ending) : Prop :=
  ending.attach.output ++ ending.attach.connRead = sent

section Writes

theorem frame_nonempty (msg : Message) : frame codec msg ≠ [] := by
  rw [frame_shape]
  simp [writeHeader, putU8, putU32]

theorem send_writes (attach : Attach) (msg : Message) :
    (attach.send msg).connWrite ≠ attach.connWrite := by
  rw [Attach.send]
  simp [frame_nonempty msg]

theorem chunk_writes (opts : AttachOptions) (attach : Attach) (chunk : List UInt8) :
    (attach.onChunk opts chunk).connWrite ≠ attach.connWrite ∨
      (attach.onChunk opts chunk).phase = .returned .detached := by
  rw [Attach.onChunk]
  cases found : findSpecialChar chunk opts.detachChar opts.suspendChar with
  | none => exact Or.inl (send_writes attach _)
  | some at_ =>
    obtain ⟨pos, outcome⟩ := at_
    have kind : outcome = .suspended ∨ outcome = .detached := by
      rw [find_special_char, requested, Option.map_map, Option.map_eq_some_iff] at found
      obtain ⟨byte, -, same⟩ := found
      rw [← (Prod.mk.inj same).2, outcomeOf]
      split
      · exact Or.inl rfl
      · exact Or.inr rfl
    by_cases some_before : pos > 0
    · left
      simp only [if_pos some_before]
      split <;> simp [Attach.send, frame_nonempty]
    · rcases kind with rfl | rfl
      · left
        simp only [if_neg some_before, if_pos]
        exact send_writes attach .detach
      · exact Or.inr rfl

theorem chunk_keeps_output (opts : AttachOptions) (attach : Attach) (chunk : List UInt8) :
    (attach.onChunk opts chunk).output = attach.output ∧
      (attach.onChunk opts chunk).connRead = attach.connRead := by
  simp only [Attach.onChunk, Attach.send]
  split
  · split <;> split <;> exact ⟨rfl, rfl⟩
  · exact ⟨rfl, rfl⟩

end Writes

section Steps

variable (opts : AttachOptions)

theorem takes_cases (ending next : Ending) (event : AttachEvent)
    (taken : ending.step opts (.takes event) = some next) :
    ∃ attach, ending.attach.step opts event = some attach ∧
      next = { ending with attach := ending.afterWrite attach } ∧
      (∀ written fault, event ≠ .fails written fault) := by
  have loop : (∀ written fault, event ≠ .fails written fault) →
      ending.step opts (.takes event) = (ending.attach.step opts event).bind fun next =>
        if ending.closed = false ∧ next.phase = .returned .sessionEnded then none
        else some { ending with attach := ending.afterWrite next } := by
    intro works
    cases event with
    | fails written fault => exact absurd rfl (works written fault)
    | _ => rfl
  have works : ∀ written fault, event ≠ .fails written fault := by
    rintro written fault rfl
    cases taken
  rw [loop works, Option.bind_eq_some_iff] at taken
  obtain ⟨attach, stepped, rest⟩ := taken
  split at rest
  · cases rest
  · cases rest
    exact ⟨attach, stepped, rfl, works⟩

theorem after_write_keeps (ending : Ending) (attach : Attach) :
    (ending.afterWrite attach).output = attach.output ∧
      (ending.afterWrite attach).connRead = attach.connRead := by
  rw [Ending.afterWrite]
  split <;> exact ⟨rfl, rfl⟩

theorem after_write_fails (ending : Ending) (attach : Attach) (closed : ending.closed = true)
    (writes : attach.connWrite ≠ ending.attach.connWrite) :
    (ending.afterWrite attach).phase = .failed brokenPipe := by
  rw [Ending.afterWrite, if_pos ⟨closed, writes⟩]

theorem after_write_same (ending : Ending) (attach : Attach)
    (silent : attach.connWrite = ending.attach.connWrite) : ending.afterWrite attach = attach := by
  rw [Ending.afterWrite, if_neg]
  exact fun writes => writes.2 silent

/-- The output and what is still to be read of it, by one step of the loop. -/
theorem step_accounts (attach next : Attach) (event : AttachEvent)
    (step : AttachStep opts attach next event) :
    next.output ++ next.connRead = attach.output ++ attach.connRead := by
  cases step with
  | attaches _ sent => rw [sent]; rfl
  | redraws _ sent => rw [sent]; rfl
  | inputEnds _ _ ended => rw [ended]
  | reads _ _ _ handled =>
    obtain ⟨output, connRead⟩ := chunk_keeps_output opts
      { attach with input := attach.input.drop _ } (attach.input.take _)
    rw [handled, output, connRead]
  | connEnds _ _ ended => rw [ended]
  | shows _ _ _ shown => rw [shown, List.append_assoc, List.take_append_drop]
  | resizes _ _ sent => rw [sent]; rfl
  | ignores _ _ same => rw [same]
  | fails _ _ failed => rw [failed]

theorem accounted_step (sent : List UInt8) (ending next : Ending) (event : EndEvent)
    (accounted : Accounted sent ending) (taken : ending.step opts event = some next) :
    Accounted sent next := by
  cases event with
  | close =>
    rw [Ending.step] at taken
    split at taken <;> cases taken
    exact accounted
  | takes event =>
    obtain ⟨attach, stepped, rfl, -⟩ := takes_cases opts ending next event taken
    obtain ⟨output, connRead⟩ := after_write_keeps ending attach
    rw [Accounted, output, connRead,
      step_accounts opts _ _ event (attach_step_cases opts _ _ event stepped)]
    exact accounted

/-- On a closed connection a step that writes, or that ends the loop for another reason,
is the end of it. -/
theorem closed_step_lost (sent : List UInt8) (ending : Ending) (attach : Attach)
    (closed : ending.closed = true)
    (lost : attach.connWrite ≠ ending.attach.connWrite ∨
      ∃ outcome, attach.phase = .returned outcome ∧ outcome ≠ .sessionEnded) :
    ¬ EndReported sent { ending with attach := ending.afterWrite attach } := by
  intro reported
  have said := reported closed
  by_cases writes : attach.connWrite ≠ ending.attach.connWrite
  · simp only [after_write_fails ending attach closed writes] at said
  · rcases lost with sent_ | ⟨outcome, phase, other⟩
    · exact writes sent_
    · simp only [after_write_same ending attach (not_not.mp writes), phase] at said
      exact other said.1

theorem open_step_reports (sent : List UInt8) (ending next : Ending) (event : EndEvent)
    (open_ : ending.closed = false) (taken : ending.step opts event = some next) :
    EndReported sent next := by
  cases event with
  | close =>
    rw [Ending.step] at taken
    split at taken <;> cases taken
    rename_i possible
    intro _
    have still := possible.2
    cases phase : ending.attach.phase with
    | returned outcome => simp [running, phase] at still
    | failed fault => simp [running, phase] at still
    | _ => simp only
  | takes event =>
    obtain ⟨attach, -, rfl, -⟩ := takes_cases opts ending next event taken
    intro now
    rw [open_] at now
    cases now

theorem reads_only_iff (ending : Ending) (event : AttachEvent) (closed : ending.closed = true) :
    ReadsOnly ending (.takes event) ↔
      event = .resizesClosed ∨ ∃ count, event = .connRead count := by
  simp [ReadsOnly, closed]

theorem closed_step_exact (sent : List UInt8) (ending : Ending) (attach : Attach)
    (event : AttachEvent) (accounted : Accounted sent ending) (closed : ending.closed = true)
    (works : ∀ written fault, event ≠ .fails written fault)
    (step : AttachStep opts ending.attach attach event) :
    EndReported sent { ending with attach := ending.afterWrite attach } ↔
      ReadsOnly ending (.takes event) := by
  rw [reads_only_iff ending event closed]
  cases step with
  | attaches _ asked =>
    refine iff_of_false (closed_step_lost sent ending attach closed (Or.inl ?_)) (by simp)
    rw [asked]
    exact send_writes ending.attach _
  | redraws _ asked =>
    refine iff_of_false (closed_step_lost sent ending attach closed (Or.inl ?_)) (by simp)
    rw [asked]
    exact send_writes ending.attach _
  | inputEnds _ _ ended =>
    refine iff_of_false (closed_step_lost sent ending attach closed (Or.inr ?_)) (by simp)
    exact ⟨.inputClosed, by rw [ended], by simp⟩
  | reads _ _ _ handled =>
    refine iff_of_false (closed_step_lost sent ending attach closed ?_) (by simp)
    rw [handled]
    rcases chunk_writes opts { ending.attach with input := ending.attach.input.drop _ }
      (ending.attach.input.take _) with writes | detached
    · exact Or.inl writes
    · exact Or.inr ⟨.detached, detached, by simp⟩
  | connEnds _ nothing ended =>
    refine iff_of_true (fun _ => ?_) (Or.inr ⟨_, rfl⟩)
    rw [Accounted, nothing, List.append_nil] at accounted
    rw [after_write_same ending attach (by rw [ended]), ended]
    exact ⟨rfl, accounted⟩
  | shows selecting _ _ shown =>
    refine iff_of_true (fun _ => ?_) (Or.inr ⟨_, rfl⟩)
    rw [after_write_same ending attach (by rw [shown]), shown]
    simp only [selecting]
  | resizes _ _ told =>
    refine iff_of_false (closed_step_lost sent ending attach closed (Or.inl ?_)) (by simp)
    rw [told]
    exact send_writes { ending.attach with resizeEvents := _ } _
  | ignores selecting _ same =>
    refine iff_of_true (fun _ => ?_) (Or.inl rfl)
    rw [after_write_same ending attach (by rw [same]), same]
    simp only [selecting]
  | fails => exact absurd rfl (works _ _)

/-- One step keeps the report right exactly if it takes nothing but what the closed
connection gives. -/
theorem end_reported_step (sent : List UInt8) (ending next : Ending) (event : EndEvent)
    (accounted : Accounted sent ending) (taken : ending.step opts event = some next) :
    EndReported sent next ↔ ReadsOnly ending event := by
  cases closed : ending.closed with
  | false =>
    refine iff_of_true (open_step_reports opts sent ending next event closed taken) ?_
    intro now
    rw [closed] at now
    cases now
  | true =>
    cases event with
    | close => simp [Ending.step, closed] at taken
    | takes event =>
      obtain ⟨attach, stepped, rfl, works⟩ := takes_cases opts ending next event taken
      exact closed_step_exact opts sent ending attach event accounted closed works
        (attach_step_cases opts _ _ event stepped)

theorem reading_ends (sent : List UInt8) (ending : Ending) (accounted : Accounted sent ending)
    (closed : ending.closed = true) (selecting : ending.attach.phase = .selecting) :
    ∃ last, run (Ending.step opts) ending
        (List.replicate ending.attach.connRead.length (.takes (.connRead 1)) ++
          [.takes (.connRead 0)]) = some last ∧
      last.attach.phase = .returned .sessionEnded ∧ last.attach.output = sent := by
  induction left : ending.attach.connRead generalizing ending with
  | nil =>
    have ends : ending.step opts (.takes (.connRead 0)) =
        some { ending with attach := { ending.attach with phase := .returned .sessionEnded } } := by
      simp [Ending.step, Attach.step, selecting, Attach.onConnRead, left, closed,
        after_write_same]
    rw [Accounted, left, List.append_nil] at accounted
    refine ⟨{ ending with attach := { ending.attach with phase := .returned .sessionEnded } }, ?_,
      rfl, accounted⟩
    rw [List.length_nil, List.replicate_zero, List.nil_append, run, ends]
    rfl
  | cons byte rest ih =>
    let after : Ending := { ending with
      attach := { ending.attach with connRead := rest, output := ending.attach.output ++ [byte] } }
    have reads : ending.step opts (.takes (.connRead 1)) = some after := by
      have enough : 1 ≤ min bufferSize (rest.length + 1) := by
        rw [Nat.le_min]
        exact ⟨by decide, by omega⟩
      simp [Ending.step, Attach.step, selecting, Attach.onConnRead, left, closed, enough,
        after_write_same, after]
    obtain ⟨last, ran, said⟩ := ih after
      (by rw [Accounted, left] at accounted; simpa [Accounted, after] using accounted) closed
      selecting rfl
    refine ⟨last, ?_, said⟩
    rw [List.length_cons, List.replicate_succ, List.cons_append, run, reads, Option.bind_some]
    exact ran

end Steps

/-- The end of the session is what `run` reports if and only if, once the connection is
closed, it happens to take no branch that writes. -/
theorem end_reported_iff (opts : AttachOptions) (input connRead : List UInt8)
    (resizeEvents : List (UInt16 × UInt16)) (events : List EndEvent) (last : Ending)
    (ran : run (Ending.step opts) (Ending.start input connRead resizeEvents) events = some last) :
    Throughout (Ending.step opts) (EndReported connRead) (Ending.start input connRead resizeEvents)
        events ↔
      Meets (Ending.step opts) ReadsOnly (Ending.start input connRead resizeEvents) events :=
  throughout_iff_meets (Ending.step opts) (Accounted connRead) (EndReported connRead) ReadsOnly
    (fun ending event next accounted taken =>
      accounted_step opts connRead ending next event accounted taken)
    (fun ending event next accounted _ taken =>
      end_reported_step opts connRead ending next event accounted taken)
    _ last events rfl (fun closed => by cases closed) ran

/-- The daemon goes with a byte still to be read, which is read, and so is the end. -/
theorem end_reported_unhurried :
    Throughout (Ending.step usual) (EndReported [0x70]) (Ending.start [0x78] [0x70] [])
      [.takes .handshake, .takes .handshake, .close, .takes (.connRead 1), .takes (.connRead 0)] :=
  (end_reported_iff usual [0x78] [0x70] []
    [.takes .handshake, .takes .handshake, .close, .takes (.connRead 1), .takes (.connRead 0)] _
    rfl).mpr
    (meets_cons _ _ _ _ _ _ rfl nofun
    (meets_cons _ _ _ _ _ _ rfl nofun
    (meets_cons _ _ _ _ _ _ rfl nofun
    (meets_cons _ _ _ _ _ _ rfl (fun _ => Or.inr ⟨1, rfl⟩)
    (meets_cons _ _ _ _ _ _ rfl (fun _ => Or.inr ⟨0, rfl⟩) trivial)))))

/-- A key is pressed when the daemon has already gone. -/
theorem typing_hides_end :
    ∃ last, run (Ending.step usual) (Ending.start [0x78] [0x70] [])
        [.takes .handshake, .takes .handshake, .close, .takes (.input 1)] = some last ∧
      last.attach.phase = .failed brokenPipe ∧ last.attach.output = [] ∧
      ¬ Throughout (Ending.step usual) (EndReported [0x70]) (Ending.start [0x78] [0x70] [])
        [.takes .handshake, .takes .handshake, .close, .takes (.input 1)] := by
  refine ⟨_, rfl, rfl, rfl, fun throughout => ?_⟩
  exact throughout _ _ (List.prefix_refl _) rfl rfl

end Hytch.SessionEnd
