import Hytch.FrameStream
import Hytch.Runs

/-!
The loop of `attach.rs`, `run`: after the two messages of the handshake it takes
whatever is ready of the terminal's input, the daemon's output and the resize
events. A chunk of input is searched for the detach and the suspend character
before any of it is sent. An iteration is one step; any read or write in it may
fail instead.
-/

namespace Hytch.AttachLoop

open IncrementalDecoding MessageCodec FrameStream Runs

structure AttachOptions where
  detachChar : Option UInt8
  suspendChar : Option UInt8
  redrawMethod : RedrawMethod
  rows : UInt16
  cols : UInt16
  skipRing : Bool

inductive AttachOutcome where
  | detached
  | suspended
  | sessionEnded
  | inputClosed
  deriving DecidableEq

inductive Phase where
  | attaching
  | redrawing
  | selecting
  | returned (outcome : AttachOutcome)
  | failed (fault : IoError)
  deriving DecidableEq

/-- The first three are what has not been taken yet, the last two everything
that was written. -/
structure Attach where
  phase : Phase
  input : List UInt8
  connRead : List UInt8
  resizeEvents : List (UInt16 × UInt16)
  connWrite : List UInt8
  output : List UInt8
  deriving DecidableEq

/-- `count` is what a read returns. -/
inductive AttachEvent where
  | handshake
  | input (count : Nat)
  | connRead (count : Nat)
  | resized
  /-- `recv` returns `None`: the sender is gone. -/
  | resizesClosed
  /-- A write that fails may have written some of its bytes. -/
  | fails (written : List UInt8) (fault : IoError)
  deriving DecidableEq

def codec : MessageCodec := default

def bufferSize : Nat := 4096

/-- Whichever of the two comes first; suspend when both are the same byte. -/
def findSpecialChar (chunk : List UInt8) (detachChar suspendChar : Option UInt8) :
    Option (Nat × AttachOutcome) :=
  chunk.zipIdx.findSome? fun (b, i) =>
    if some b = suspendChar then some (i, .suspended)
    else if some b = detachChar then some (i, .detached)
    else none

namespace Attach

def start (input connRead : List UInt8) (resizeEvents : List (UInt16 × UInt16)) : Attach :=
  { phase := .attaching, input := input, connRead := connRead, resizeEvents := resizeEvents
    connWrite := [], output := [] }

def send (attach : Attach) (msg : Message) : Attach :=
  { attach with connWrite := attach.connWrite ++ frame codec msg }

/-- What is done with `n` bytes of input that have been read. -/
def onChunk (opts : AttachOptions) (attach : Attach) (chunk : List UInt8) : Attach :=
  match findSpecialChar chunk opts.detachChar opts.suspendChar with
  | some (pos, outcome) =>
      let attach := if pos > 0 then attach.send (.push (chunk.take pos)) else attach
      let attach := if outcome = .suspended then attach.send .detach else attach
      { attach with phase := .returned outcome }
  | none => attach.send (.push chunk)

def onInput (opts : AttachOptions) (attach : Attach) (count : Nat) : Option Attach :=
  if attach.input = [] then
    if count = 0 then some { attach with phase := .returned .inputClosed } else none
  else if 0 < count ∧ count ≤ min bufferSize attach.input.length then
    let chunk := attach.input.take count
    some ({ attach with input := attach.input.drop count }.onChunk opts chunk)
  else none

def onConnRead (attach : Attach) (count : Nat) : Option Attach :=
  if attach.connRead = [] then
    if count = 0 then some { attach with phase := .returned .sessionEnded } else none
  else if 0 < count ∧ count ≤ min bufferSize attach.connRead.length then
    some { attach with
           connRead := attach.connRead.drop count
           output := attach.output ++ attach.connRead.take count }
  else none

def onResized (attach : Attach) : Option Attach :=
  match attach.resizeEvents with
  | [] => none
  | (rows, cols) :: rest => some ({ attach with resizeEvents := rest }.send (.winch rows cols))

def step (opts : AttachOptions) (attach : Attach) : AttachEvent → Option Attach
  | .handshake =>
      match attach.phase with
      | .attaching => some { attach.send (.attach opts.skipRing) with phase := .redrawing }
      | .redrawing =>
          some { attach.send (.redraw opts.redrawMethod opts.rows opts.cols) with phase := .selecting }
      | _ => none
  | .input count => if attach.phase = .selecting then attach.onInput opts count else none
  | .connRead count => if attach.phase = .selecting then attach.onConnRead count else none
  | .resized => if attach.phase = .selecting then attach.onResized else none
  -- nothing is done about it
  | .resizesClosed =>
      if attach.phase = .selecting ∧ attach.resizeEvents = [] then some attach else none
  | .fails written fault =>
      match attach.phase with
      | .returned _ => none
      | .failed _ => none
      | _ => some { attach with phase := .failed fault, connWrite := attach.connWrite ++ written }

end Attach

inductive AttachStep (opts : AttachOptions) (attach next : Attach) : AttachEvent → Prop where
  | attaches (attaching : attach.phase = .attaching)
      (sent : next = { attach.send (.attach opts.skipRing) with phase := .redrawing }) :
      AttachStep opts attach next .handshake
  | redraws (redrawing : attach.phase = .redrawing)
      (sent : next = { attach.send (.redraw opts.redrawMethod opts.rows opts.cols) with
        phase := .selecting }) :
      AttachStep opts attach next .handshake
  | inputEnds (selecting : attach.phase = .selecting) (nothing : attach.input = [])
      (ended : next = { attach with phase := .returned .inputClosed }) :
      AttachStep opts attach next (.input 0)
  | reads {count : Nat} (selecting : attach.phase = .selecting) (some_read : 0 < count)
      (bound : count ≤ min bufferSize attach.input.length)
      (handled : next = { attach with input := attach.input.drop count }.onChunk opts
        (attach.input.take count)) :
      AttachStep opts attach next (.input count)
  | connEnds (selecting : attach.phase = .selecting) (nothing : attach.connRead = [])
      (ended : next = { attach with phase := .returned .sessionEnded }) :
      AttachStep opts attach next (.connRead 0)
  | shows {count : Nat} (selecting : attach.phase = .selecting) (some_read : 0 < count)
      (bound : count ≤ min bufferSize attach.connRead.length)
      (shown : next = { attach with
        connRead := attach.connRead.drop count
        output := attach.output ++ attach.connRead.take count }) :
      AttachStep opts attach next (.connRead count)
  | resizes {rows cols : UInt16} {rest : List (UInt16 × UInt16)}
      (selecting : attach.phase = .selecting) (queued : attach.resizeEvents = (rows, cols) :: rest)
      (sent : next = { attach with resizeEvents := rest }.send (.winch rows cols)) :
      AttachStep opts attach next .resized
  | ignores (selecting : attach.phase = .selecting) (empty : attach.resizeEvents = [])
      (same : next = attach) : AttachStep opts attach next .resizesClosed
  | fails {written : List UInt8} {fault : IoError}
      (going : ∀ outcome, attach.phase ≠ .returned outcome)
      (sound : ∀ earlier, attach.phase ≠ .failed earlier)
      (failed : next = { attach with
        phase := .failed fault
        connWrite := attach.connWrite ++ written }) :
      AttachStep opts attach next (.fails written fault)

theorem input_step (opts : AttachOptions) (attach next : Attach) (count : Nat)
    (selecting : attach.phase = .selecting) (taken : attach.onInput opts count = some next) :
    AttachStep opts attach next (.input count) := by
  unfold Attach.onInput at taken
  split at taken
  · rename_i nothing
    split at taken
    · rename_i none_read
      cases taken
      subst none_read
      exact .inputEnds selecting nothing rfl
    · cases taken
  · split at taken
    · rename_i bound
      cases taken
      exact .reads selecting bound.1 bound.2 rfl
    · cases taken

theorem conn_read_step (opts : AttachOptions) (attach next : Attach) (count : Nat)
    (selecting : attach.phase = .selecting) (taken : attach.onConnRead count = some next) :
    AttachStep opts attach next (.connRead count) := by
  unfold Attach.onConnRead at taken
  split at taken
  · rename_i nothing
    split at taken
    · rename_i none_read
      cases taken
      subst none_read
      exact .connEnds selecting nothing rfl
    · cases taken
  · split at taken
    · rename_i bound
      cases taken
      exact .shows selecting bound.1 bound.2 rfl
    · cases taken

theorem attach_step_cases (opts : AttachOptions) (attach next : Attach) (event : AttachEvent)
    (taken : attach.step opts event = some next) : AttachStep opts attach next event := by
  cases event with
  | handshake =>
    simp only [Attach.step] at taken
    split at taken
    · rename_i attaching
      cases taken
      exact .attaches attaching rfl
    · rename_i redrawing
      cases taken
      exact .redraws redrawing rfl
    · cases taken
  | input count =>
    obtain ⟨selecting, taken⟩ := Option.ite_none_right_eq_some.mp taken
    exact input_step opts attach next count selecting taken
  | connRead count =>
    obtain ⟨selecting, taken⟩ := Option.ite_none_right_eq_some.mp taken
    exact conn_read_step opts attach next count selecting taken
  | resized =>
    obtain ⟨selecting, taken⟩ := Option.ite_none_right_eq_some.mp taken
    rw [Attach.onResized] at taken
    split at taken
    · cases taken
    · rename_i rows cols rest queued
      cases taken
      exact .resizes selecting queued rfl
  | resizesClosed =>
    obtain ⟨⟨selecting, empty⟩, same⟩ := Option.ite_none_right_eq_some.mp taken
    exact .ignores selecting empty (Option.some.inj same).symm
  | fails written fault =>
    simp only [Attach.step] at taken
    split at taken
    · cases taken
    · cases taken
    · rename_i going sound
      cases taken
      exact .fails going sound rfl

/-! The search for a special character. -/

def special (opts : AttachOptions) (byte : UInt8) : Bool :=
  some byte = opts.suspendChar || some byte = opts.detachChar

def outcomeOf (opts : AttachOptions) (byte : UInt8) : AttachOutcome :=
  if some byte = opts.suspendChar then .suspended else .detached

/-- What the first special byte of the input asks for. -/
def requested (opts : AttachOptions) (input : List UInt8) : Option AttachOutcome :=
  (input.find? (special opts)).map (outcomeOf opts)

theorem special_append (opts : AttachOptions) (plain rest : List UInt8)
    (none_special : ∀ byte ∈ plain, special opts byte = false) :
    requested opts (plain ++ rest) = requested opts rest ∧
      (plain ++ rest).takeWhile (fun byte => !special opts byte) =
        plain ++ rest.takeWhile fun byte => !special opts byte := by
  constructor
  · have nothing : plain.find? (special opts) = none :=
      List.find?_eq_none.mpr fun byte member => by simp [none_special byte member]
    rw [requested, List.find?_append, nothing, Option.none_or, requested]
  · exact List.takeWhile_append_of_pos fun byte member => by simp [none_special byte member]

theorem find_special_char (opts : AttachOptions) (chunk : List UInt8) :
    findSpecialChar chunk opts.detachChar opts.suspendChar =
      (requested opts chunk).map fun outcome =>
        ((chunk.takeWhile fun byte => !special opts byte).length, outcome) := by
  have shifted (offset : Nat) :
      ((chunk.zipIdx offset).findSome? fun (b, i) =>
        if some b = opts.suspendChar then some (i, AttachOutcome.suspended)
        else if some b = opts.detachChar then some (i, .detached)
        else none) =
      (requested opts chunk).map fun outcome =>
        (offset + (chunk.takeWhile fun byte => !special opts byte).length, outcome) := by
    induction chunk generalizing offset with
    | nil => rfl
    | cons byte rest ih =>
      rw [List.zipIdx_cons, List.findSome?_cons]
      cases hit : special opts byte with
      | true =>
        rw [requested, List.find?_cons_of_pos hit, List.takeWhile_cons_of_neg (by simp [hit])]
        by_cases suspends : some byte = opts.suspendChar
        · simp only [if_pos suspends, Option.map_some, outcomeOf, List.length_nil, Nat.add_zero]
        · have detaches : some byte = opts.detachChar := by simpa [special, suspends] using hit
          simp only [if_neg suspends, if_pos detaches, Option.map_some, outcomeOf, List.length_nil,
            Nat.add_zero]
      | false =>
        have neither : some byte ≠ opts.suspendChar ∧ some byte ≠ opts.detachChar := by
          simpa [special] using hit
        have skipped : requested opts (byte :: rest) = requested opts rest := by
          rw [requested, List.find?_cons_of_neg (by simp [hit]), requested]
        rw [skipped, List.takeWhile_cons_of_pos (by simp [hit]), List.length_cons]
        simp only [if_neg neither.1, if_neg neither.2]
        rw [ih (offset + 1)]
        simp only [Nat.add_comm, Nat.add_assoc]
  have exact_index := shifted 0
  simp only [Nat.zero_add] at exact_index
  exact exact_index

/-! What the daemon is sent. -/

def handshake (opts : AttachOptions) : List Message :=
  [.attach opts.skipRing, .redraw opts.redrawMethod opts.rows opts.cols]

def farewell : AttachOutcome → List Message
  | .suspended => [.detach]
  | _ => []

def Forwardable : Message → Prop
  | .push data => data ≠ [] ∧ data.length ≤ bufferSize
  | .winch _ _ => True
  | _ => False

def winchesOf (messages : List Message) : List (UInt16 × UInt16) :=
  messages.filterMap fun
    | .winch rows cols => some (rows, cols)
    | _ => none

@[simp] theorem winchesOf_append (first second : List Message) :
    winchesOf (first ++ second) = winchesOf first ++ winchesOf second :=
  List.filterMap_append

def frames (messages : List Message) : List UInt8 := (messages.map (frame codec)).flatten

theorem frames_snoc (messages : List Message) (msg : Message) :
    frames (messages ++ [msg]) = frames messages ++ frame codec msg := by
  simp [frames]

/-- The daemon decodes what was sent. -/
theorem frames_decode (opts : AttachOptions) (middle : List Message) (outcome : AttachOutcome)
    (kinds : ∀ msg ∈ middle, Forwardable msg) :
    drain (decoder default) (frames (handshake opts ++ middle ++ farewell outcome)) =
      ⟨handshake opts ++ middle ++ farewell outcome, .ok []⟩ := by
  have small (msg : Message) (member : msg ∈ handshake opts ++ middle ++ farewell outcome) :
      payloadLength msg ≤ bufferSize := by
    rcases List.mem_append.mp member with member | last
    · rcases List.mem_append.mp member with first | between
      · simp only [handshake, List.mem_cons, List.not_mem_nil, or_false] at first
        rcases first with rfl | rfl <;> simp [payloadLength, bufferSize]
      · have kind := kinds msg between
        cases msg with
        | push data => exact kind.2
        | winch rows cols => simp [payloadLength, bufferSize]
        | _ => exact kind.elim
    · cases outcome with
      | suspended =>
        rw [List.mem_singleton.mp last]
        decide
      | _ => cases last
  refine drain_frames default _ ?_ ?_
  · exact fun msg member => Nat.le_trans (small msg member) (by decide)
  · exact fun msg member => Nat.lt_of_le_of_lt (small msg member) (by decide)

/-- Resizes and output taken so far have gone where they belong. -/
structure Forwards (start attach : Attach) (middle : List Message) : Prop where
  kinds : ∀ msg ∈ middle, Forwardable msg
  resizes : start.resizeEvents = winchesOf middle ++ attach.resizeEvents
  output : start.connRead = attach.output ++ attach.connRead

def Ends (opts : AttachOptions) (attach : Attach) (consumed : List UInt8) (outcome : AttachOutcome) :
    Prop :=
  requested opts consumed = some outcome ∨
    (requested opts consumed = none ∧
      ((outcome = .inputClosed ∧ attach.input = []) ∨
        (outcome = .sessionEnded ∧ attach.connRead = [])))

/-- The loop is at its select; no special byte has been read. -/
structure Selecting (opts : AttachOptions) (start attach : Attach) (middle : List Message) :
    Prop where
  phase : attach.phase = .selecting
  written : attach.connWrite = frames (handshake opts ++ middle)
  forwards : Forwards start attach middle
  input : start.input = (pushesOf middle).flatten ++ attach.input
  plain : ∀ byte ∈ (pushesOf middle).flatten, special opts byte = false

inductive Reached (opts : AttachOptions) (start attach : Attach) : Prop where
  | handshaking (phase : attach.phase = .attaching ∨ attach.phase = .redrawing)
      (written : attach.connWrite =
        frames (if attach.phase = .attaching then [] else [.attach opts.skipRing]))
      (input : start.input = attach.input) (forwards : Forwards start attach []) :
      Reached opts start attach
  | selecting {middle : List Message} (selecting : Selecting opts start attach middle) :
      Reached opts start attach
  | returned {middle : List Message} {consumed : List UInt8} {outcome : AttachOutcome}
      (phase : attach.phase = .returned outcome)
      (written : attach.connWrite = frames (handshake opts ++ middle ++ farewell outcome))
      (forwards : Forwards start attach middle) (input : start.input = consumed ++ attach.input)
      (pushes : (pushesOf middle).flatten = consumed.takeWhile fun byte => !special opts byte)
      (ends : Ends opts attach consumed outcome) : Reached opts start attach
  | failed {fault : IoError} (phase : attach.phase = .failed fault) : Reached opts start attach

theorem plain_take_while (opts : AttachOptions) (bytes : List UInt8)
    (plain : ∀ byte ∈ bytes, special opts byte = false) :
    requested opts bytes = none ∧ bytes.takeWhile (fun byte => !special opts byte) = bytes := by
  obtain ⟨first, second⟩ := special_append opts bytes [] plain
  rw [List.append_nil] at first second
  rw [first, second]
  exact ⟨rfl, List.append_nil _⟩

theorem reached_end (opts : AttachOptions) (start attach : Attach) (middle : List Message)
    (outcome : AttachOutcome) (selecting : Selecting opts start attach middle)
    (silent : farewell outcome = [])
    (ends : (outcome = .inputClosed ∧ attach.input = []) ∨
      (outcome = .sessionEnded ∧ attach.connRead = [])) :
    Reached opts start { attach with phase := .returned outcome } := by
  obtain ⟨phase, written, forwards, input, plain⟩ := selecting
  obtain ⟨nothing_special, whole⟩ := plain_take_while opts _ plain
  refine .returned rfl ?_ ⟨forwards.kinds, forwards.resizes, forwards.output⟩ input whole.symm
    (.inr ⟨nothing_special, ends⟩)
  rw [silent, List.append_nil]
  exact written

theorem reached_output (opts : AttachOptions) (start attach : Attach) (middle : List Message)
    (count : Nat) (selecting : Selecting opts start attach middle) :
    Reached opts start { attach with
      connRead := attach.connRead.drop count
      output := attach.output ++ attach.connRead.take count } := by
  obtain ⟨phase, written, forwards, input, plain⟩ := selecting
  refine .selecting ⟨phase, written, ⟨forwards.kinds, forwards.resizes, ?_⟩, input, plain⟩
  rw [forwards.output, List.append_assoc, List.take_append_drop]

theorem reached_resized (opts : AttachOptions) (start attach : Attach) (middle : List Message)
    (rows cols : UInt16) (rest : List (UInt16 × UInt16))
    (selecting : Selecting opts start attach middle)
    (queued : attach.resizeEvents = (rows, cols) :: rest) :
    Reached opts start ({ attach with resizeEvents := rest }.send (.winch rows cols)) := by
  obtain ⟨phase, written, forwards, input, plain⟩ := selecting
  have pushes : pushesOf (middle ++ [.winch rows cols]) = pushesOf middle := by
    simp [pushesOf]
  refine .selecting (show Selecting opts start _ (middle ++ [.winch rows cols]) from
    ⟨phase, ?_, ⟨?_, ?_, forwards.output⟩, by rw [pushes]; exact input, by rw [pushes]; exact plain⟩)
  · rw [← List.append_assoc, frames_snoc, ← written]
    rfl
  · intro msg member
    rcases List.mem_append.mp member with older | newest
    · exact forwards.kinds msg older
    · rw [List.mem_singleton.mp newest]
      exact trivial
  · rw [forwards.resizes, queued, winchesOf_append, List.append_assoc]
    rfl

theorem pushes_flatten_snoc (middle : List Message) (data : List UInt8) :
    (pushesOf (middle ++ [.push data])).flatten = (pushesOf middle).flatten ++ data := by
  simp [pushesOf]

theorem forwards_push (start attach : Attach) (middle : List Message) (data rest : List UInt8)
    (forwards : Forwards start attach middle) (some_data : data ≠ [])
    (bound : data.length ≤ bufferSize) :
    Forwards start ({ attach with input := rest }.send (.push data)) (middle ++ [.push data]) := by
  refine ⟨?_, ?_, forwards.output⟩
  · intro msg member
    rcases List.mem_append.mp member with older | newest
    · exact forwards.kinds msg older
    · rw [List.mem_singleton.mp newest]
      exact ⟨some_data, bound⟩
  · rw [winchesOf_append, forwards.resizes]
    simp [winchesOf, Attach.send]

theorem on_chunk_plain (opts : AttachOptions) (attach : Attach) (chunk : List UInt8)
    (request : requested opts chunk = none) : attach.onChunk opts chunk = attach.send (.push chunk) := by
  simp only [Attach.onChunk, find_special_char, request, Option.map_none]

/-- What stands in front of the special byte is sent, unless it is nothing. -/
theorem on_chunk_special (opts : AttachOptions) (attach sent : Attach) (chunk before : List UInt8)
    (outcome : AttachOutcome) (request : requested opts chunk = some outcome)
    (front : (chunk.takeWhile fun byte => !special opts byte) = before)
    (pushed : sent = if before = [] then attach else attach.send (.push before)) :
    attach.onChunk opts chunk =
      { (if outcome = .suspended then sent.send .detach else sent) with phase := .returned outcome } := by
  have taken : chunk.take before.length = before := by
    rw [← front]
    exact (List.prefix_iff_eq_take.mp (List.takeWhile_prefix _)).symm
  have same : (if before.length > 0 then attach.send (.push (chunk.take before.length)) else attach) =
      sent := by
    rw [taken, pushed]
    cases before <;> rfl
  simp only [Attach.onChunk, find_special_char, request, Option.map_some, front, same]

theorem reached_plain_chunk (opts : AttachOptions) (start attach : Attach) (chunk rest : List UInt8)
    (middle : List Message) (selecting : Selecting opts start attach middle)
    (cut : attach.input = chunk ++ rest) (some_read : chunk ≠ []) (bound : chunk.length ≤ bufferSize)
    (request : requested opts chunk = none) :
    Reached opts start ({ attach with input := rest }.onChunk opts chunk) := by
  obtain ⟨phase, written, forwards, input, plain⟩ := selecting
  have chunk_plain (byte : UInt8) (member : byte ∈ chunk) : special opts byte = false := by
    have missed := List.find?_eq_none.mp (Option.map_eq_none_iff.mp request) byte member
    simpa using missed
  rw [on_chunk_plain opts _ chunk request]
  refine .selecting (show Selecting opts start _ (middle ++ [.push chunk]) from
    ⟨phase, ?_, forwards_push start attach middle chunk rest forwards some_read bound, ?_, ?_⟩)
  · rw [← List.append_assoc, frames_snoc, ← written]
    rfl
  · rw [input, cut, pushes_flatten_snoc, List.append_assoc]
    rfl
  · rw [pushes_flatten_snoc]
    intro byte member
    exact (List.mem_append.mp member).elim (plain byte) (chunk_plain byte)

theorem farewell_frames (messages : List Message) (outcome : AttachOutcome) (attach : Attach)
    (written : attach.connWrite = frames messages) :
    (if outcome = .suspended then attach.send .detach else attach).connWrite =
      frames (messages ++ farewell outcome) := by
  by_cases suspends : outcome = .suspended
  · subst suspends
    rw [if_pos rfl, farewell, frames_snoc, ← written]
    rfl
  · have nothing : farewell outcome = [] := by
      cases outcome with
      | suspended => exact absurd rfl suspends
      | _ => rfl
    rw [if_neg suspends, nothing, List.append_nil, written]

/-- The loop returns for a special byte, and tells the daemon of a suspend. -/
theorem reached_request (opts : AttachOptions) (start sent : Attach) (middle : List Message)
    (consumed : List UInt8) (outcome : AttachOutcome)
    (written : sent.connWrite = frames (handshake opts ++ middle))
    (forwards : Forwards start sent middle) (input : start.input = consumed ++ sent.input)
    (pushes : (pushesOf middle).flatten = consumed.takeWhile fun byte => !special opts byte)
    (request : requested opts consumed = some outcome) :
    Reached opts start
      { (if outcome = .suspended then sent.send .detach else sent) with phase := .returned outcome } := by
  have others : (if outcome = .suspended then sent.send .detach else sent).input = sent.input ∧
      (if outcome = .suspended then sent.send .detach else sent).resizeEvents = sent.resizeEvents ∧
      (if outcome = .suspended then sent.send .detach else sent).output = sent.output ∧
      (if outcome = .suspended then sent.send .detach else sent).connRead = sent.connRead := by
    split <;> exact ⟨rfl, rfl, rfl, rfl⟩
  obtain ⟨same_input, same_resizes, same_output, same_read⟩ := others
  refine .returned rfl (farewell_frames _ outcome sent written) ⟨forwards.kinds, ?_, ?_⟩ ?_ pushes
    (.inl request)
  · rw [same_resizes]
    exact forwards.resizes
  · rw [same_output, same_read]
    exact forwards.output
  · rw [same_input]
    exact input

theorem reached_special_chunk (opts : AttachOptions) (start attach : Attach) (chunk rest : List UInt8)
    (middle : List Message) (outcome : AttachOutcome) (selecting : Selecting opts start attach middle)
    (cut : attach.input = chunk ++ rest) (bound : chunk.length ≤ bufferSize)
    (request : requested opts chunk = some outcome) :
    Reached opts start ({ attach with input := rest }.onChunk opts chunk) := by
  obtain ⟨phase, written, forwards, input, plain⟩ := selecting
  obtain ⟨same_request, kept⟩ := special_append opts (pushesOf middle).flatten chunk plain
  generalize front : (chunk.takeWhile fun byte => !special opts byte) = before at kept
  have consumed : start.input = ((pushesOf middle).flatten ++ chunk) ++ rest := by
    rw [input, cut, List.append_assoc]
  rw [on_chunk_special opts _ _ chunk before outcome request front rfl]
  cases before with
  | nil =>
    rw [if_pos rfl]
    exact reached_request opts start _ middle _ outcome written
      ⟨forwards.kinds, forwards.resizes, forwards.output⟩ consumed
      (by rw [kept, List.append_nil]) (same_request.trans request)
  | cons byte before =>
    have short : (byte :: before).length ≤ bufferSize := by
      rw [← front]
      exact Nat.le_trans (List.takeWhile_prefix _).length_le bound
    rw [if_neg (List.cons_ne_nil byte before)]
    refine reached_request opts start _ (middle ++ [.push (byte :: before)]) _ outcome ?_
      (forwards_push start attach middle _ rest forwards (List.cons_ne_nil _ _) short) consumed ?_
      (same_request.trans request)
    · rw [← List.append_assoc, frames_snoc, ← written]
      rfl
    · rw [pushes_flatten_snoc, kept]

theorem reached_chunk (opts : AttachOptions) (start attach : Attach) (count : Nat)
    (middle : List Message) (selecting : Selecting opts start attach middle) (some_read : 0 < count)
    (bound : count ≤ min bufferSize attach.input.length) :
    Reached opts start ({ attach with input := attach.input.drop count }.onChunk opts
      (attach.input.take count)) := by
  have cut := (List.take_append_drop count attach.input).symm
  have length : (attach.input.take count).length = count := by
    rw [List.length_take]
    omega
  have short : (attach.input.take count).length ≤ bufferSize := by omega
  have chunk : attach.input.take count ≠ [] := List.ne_nil_of_length_pos (by omega)
  cases request : requested opts (attach.input.take count) with
  | none => exact reached_plain_chunk opts start attach _ _ middle selecting cut chunk short request
  | some outcome =>
    exact reached_special_chunk opts start attach _ _ middle outcome selecting cut short request

theorem reached_handshake (opts : AttachOptions) (start attach next : Attach) (event : AttachEvent)
    (phase : attach.phase = .attaching ∨ attach.phase = .redrawing)
    (written : attach.connWrite =
      frames (if attach.phase = .attaching then [] else [.attach opts.skipRing]))
    (input : start.input = attach.input) (forwards : Forwards start attach [])
    (step : AttachStep opts attach next event) : Reached opts start next := by
  have early : attach.phase ≠ .selecting := by
    rcases phase with phase | phase <;> simp [phase]
  cases step with
  | attaches attaching sent =>
    subst sent
    refine .handshaking (.inr rfl) ?_ input ⟨forwards.kinds, forwards.resizes, forwards.output⟩
    rw [if_pos attaching] at written
    simp [Attach.send, written, frames]
  | redraws redrawing sent =>
    subst sent
    refine .selecting (show Selecting opts start _ [] from
      ⟨rfl, ?_, ⟨forwards.kinds, forwards.resizes, forwards.output⟩, input, by simp [pushesOf]⟩)
    rw [redrawing, if_neg (by simp)] at written
    simp [Attach.send, written, frames, handshake]
  | fails _ _ failed =>
    subst failed
    exact .failed rfl
  | inputEnds selecting => exact absurd selecting early
  | reads selecting => exact absurd selecting early
  | connEnds selecting => exact absurd selecting early
  | shows selecting => exact absurd selecting early
  | resizes selecting => exact absurd selecting early
  | ignores selecting => exact absurd selecting early

theorem reached_step (opts : AttachOptions) (start attach next : Attach) (event : AttachEvent)
    (reached : Reached opts start attach) (taken : attach.step opts event = some next) :
    Reached opts start next := by
  cases reached with
  | handshaking phase written input forwards =>
    exact reached_handshake opts start attach next event phase written input forwards
      (attach_step_cases opts attach next event taken)
  | @selecting middle selecting =>
    have phase := selecting.phase
    cases attach_step_cases opts attach next event taken with
    | attaches attaching => simp [phase] at attaching
    | redraws redrawing => simp [phase] at redrawing
    | inputEnds _ nothing ended =>
      subst ended
      exact reached_end opts start attach middle .inputClosed selecting rfl (.inl ⟨rfl, nothing⟩)
    | reads _ some_read bound handled =>
      subst handled
      exact reached_chunk opts start attach _ middle selecting some_read bound
    | connEnds _ nothing ended =>
      subst ended
      exact reached_end opts start attach middle .sessionEnded selecting rfl (.inr ⟨rfl, nothing⟩)
    | shows _ some_read bound shown =>
      subst shown
      exact reached_output opts start attach middle _ selecting
    | resizes _ queued sent =>
      subst sent
      exact reached_resized opts start attach middle _ _ _ selecting queued
    | ignores _ empty same =>
      subst same
      exact .selecting selecting
    | fails _ _ failed =>
      subst failed
      exact .failed rfl
  | returned phase => cases event <;> simp [Attach.step, phase] at taken
  | failed phase => cases event <;> simp [Attach.step, phase] at taken

theorem reached_run (opts : AttachOptions) (input connRead : List UInt8)
    (resizeEvents : List (UInt16 × UInt16)) (last : Attach) (events : List AttachEvent)
    (ran : run (Attach.step opts) (Attach.start input connRead resizeEvents) events = some last) :
    Reached opts (Attach.start input connRead resizeEvents) last := by
  refine run_invariant (Attach.step opts) (Reached opts (Attach.start input connRead resizeEvents))
    (fun attach event next reached taken => reached_step opts _ attach next event reached taken)
    _ last events ?_ ran
  exact .handshaking (.inl rfl) rfl rfl ⟨by simp, rfl, rfl⟩

/-- What a run that returns `Ok` has done with everything it took. -/
structure Forwarded (opts : AttachOptions) (start last : Attach) (outcome : AttachOutcome)
    (middle : List Message) (consumed : List UInt8) : Prop where
  decoded : drain (decoder default) last.connWrite =
    ⟨handshake opts ++ middle ++ farewell outcome, .ok []⟩
  kinds : ∀ msg ∈ middle, Forwardable msg
  resizes : winchesOf middle <+: start.resizeEvents
  input : start.input = consumed ++ last.input
  pushes : (pushesOf middle).flatten = consumed.takeWhile fun byte => !special opts byte
  ends : Ends opts last consumed outcome
  output : start.connRead = last.output ++ last.connRead

/-- Whatever the chunks and the order in which things get ready: the input in
front of the first special byte goes to the daemon, and all its output to the
terminal. -/
theorem attach_forwards (opts : AttachOptions) (input connRead : List UInt8)
    (resizeEvents : List (UInt16 × UInt16)) (last : Attach) (events : List AttachEvent)
    (outcome : AttachOutcome)
    (ran : run (Attach.step opts) (Attach.start input connRead resizeEvents) events = some last)
    (returned : last.phase = .returned outcome) :
    ∃ middle consumed,
      Forwarded opts (Attach.start input connRead resizeEvents) last outcome middle consumed := by
  cases reached_run opts input connRead resizeEvents last events ran with
  | handshaking phase => rcases phase with phase | phase <;> simp [phase] at returned
  | selecting selecting => simp [selecting.phase] at returned
  | failed phase => simp [phase] at returned
  | @returned middle consumed other phase written forwards input pushes ends =>
    have same : other = outcome := Phase.returned.inj (phase.symm.trans returned)
    subst same
    refine ⟨middle, consumed, ?_, forwards.kinds, ?_, input, pushes, ends, forwards.output⟩
    · rw [written, frames_decode opts middle other forwards.kinds]
    · rw [forwards.resizes]
      exact List.prefix_append _ _

def usual : AttachOptions :=
  { detachChar := some 0x1c, suspendChar := some 0x1a, redrawMethod := .winch
    rows := 24, cols := 80, skipRing := true }

/-- A resize, a byte of output, and the detach character in the middle of a chunk. -/
def detachesLater : List AttachEvent :=
  [.handshake, .handshake, .resized, .input 1, .connRead 1, .input 3]

theorem attach_forwards_detached : ∃ last,
    run (Attach.step usual) (Attach.start [0x61, 0x62, 0x1c, 0x63] [0x70] [(25, 81)]) detachesLater =
      some last ∧ last.phase = .returned .detached ∧
    ∃ middle consumed, Forwarded usual (Attach.start [0x61, 0x62, 0x1c, 0x63] [0x70] [(25, 81)]) last
      .detached middle consumed := by
  refine ⟨_, rfl, rfl, ?_⟩
  exact attach_forwards usual [0x61, 0x62, 0x1c, 0x63] [0x70] [(25, 81)] _ detachesLater .detached rfl rfl

end Hytch.AttachLoop
