import Mathlib.Algebra.GroupWithZero.Nat
import Hytch.DaemonRun
import Hytch.EdgeTriggered

/-!
`poll_read` and `poll_write` of `pty.rs`: the master is not blocking, and `AsyncFd` watches it
edge-triggered. The two are one loop around two calls. The daemon loop is modelled on a pty
that answers as the kernel would, at once; here is why it may be.
-/

namespace Hytch.PtyPolling

open DaemonRun EdgeTriggered Runs

/-- What the child and the kernel do to the master. -/
inductive PtyChange where
  | childWrites (bytes : List UInt8)
  | slave (isOpen : Bool)
  | childExits
  deriving DecidableEq

def PtyChange.apply (pty : Pty) : PtyChange → Option Pty
  | .childWrites bytes =>
      if pty.slaveOpen then some { pty with output := pty.output ++ bytes } else none
  | .slave isOpen => some { pty with slaveOpen := isOpen }
  | .childExits => some { pty with alive := false }

inductive ReadOutcome where
  | bytes (chunk : List UInt8)
  /-- `Ok(0)`, or the error that reading a closed pty is on Linux. -/
  | ended
  deriving DecidableEq

def readSide : Device Pty Nat PtyChange ReadOutcome where
  wouldBlock pty := pty.output.isEmpty && pty.slaveOpen
  perform pty count :=
    if pty.output = [] then some (pty, .ended)
    else if 0 < count ∧ count ≤ min bufferSize pty.output.length then
      some ({ pty with output := pty.output.drop count }, .bytes (pty.output.take count))
    else none
  change := PtyChange.apply
  reports
    | .childWrites _ => true
    | .slave isOpen => !isOpen
    | .childExits => false
  reported := by
    intro pty cause next applied blocks free
    cases cause with
    | childWrites bytes => rfl
    | slave isOpen =>
      cases applied
      cases isOpen
      · rfl
      · simp at blocks free
        exact absurd blocks.1 free
    | childExits =>
      cases applied
      rw [blocks] at free
      cases free
  answers := by
    intro pty free
    by_cases drained : pty.output = []
    · exact ⟨0, _, if_pos drained⟩
    · have some_left := List.length_pos_iff.mpr drained
      have bound : 0 < 1 ∧ 1 ≤ min bufferSize pty.output.length :=
        ⟨Nat.one_pos, Nat.le_min.mpr ⟨by decide, some_left⟩⟩
      exact ⟨1, _, by rw [if_neg drained, if_pos bound]⟩

/-- The input the kernel holds for the child: how much of it, for the call does not depend on
what the bytes are. -/
structure InputQueue where
  waiting : Nat
  slaveOpen : Bool
  deriving DecidableEq

inductive QueueChange where
  | childReads (count : Nat)
  | slave (isOpen : Bool)
  deriving DecidableEq

def QueueChange.apply (queue : InputQueue) : QueueChange → Option InputQueue
  | .childReads count =>
      if count ≤ queue.waiting then some { queue with waiting := queue.waiting - count } else none
  | .slave isOpen => some { queue with slaveOpen := isOpen }

inductive WriteOutcome where
  | took (count : Nat)
  | failed
  deriving DecidableEq

/-- `room` is one less than what the kernel takes before a write blocks. -/
def writeSide (room : Nat) : Device InputQueue Nat QueueChange WriteOutcome where
  wouldBlock queue := queue.slaveOpen && decide (room < queue.waiting)
  perform queue count :=
    if queue.slaveOpen = false then some (queue, .failed)
    else if 0 < count ∧ queue.waiting + count ≤ room + 1 then
      some ({ queue with waiting := queue.waiting + count }, .took count)
    else none
  change := QueueChange.apply
  reports
    | .childReads _ => true
    | .slave isOpen => !isOpen
  reported := by
    intro queue cause next applied blocks free
    cases cause with
    | childReads count => rfl
    | slave isOpen =>
      cases applied
      cases isOpen
      · rfl
      · simp at blocks free
        omega
  answers := by
    intro queue free
    by_cases closed : queue.slaveOpen = false
    · exact ⟨0, _, if_pos closed⟩
    · have bound : 0 < 1 ∧ queue.waiting + 1 ≤ room + 1 := by
        simp at closed
        simp [closed] at free
        omega
      exact ⟨1, _, by rw [if_neg closed, if_pos bound]⟩

/-- The pty that `Pty::spawn` opens. -/
def opened : Pty := { output := [], slaveOpen := true, alive := true, input := [] }

def queueOf (waiting : Nat) : InputQueue := { waiting := waiting, slaveOpen := true }

section Loop

variable (daemon : Daemon)

def PtyChange.event : PtyChange → DaemonEvent
  | .childWrites bytes => .childWrites bytes
  | .slave isOpen => .slave isOpen
  | .childExits => .childExits

/-- The daemon's pty is the resource of the level-triggered side. -/
theorem daemon_changes (cause : PtyChange) :
    daemon.step cause.event =
      (readSide.change daemon.pty cause).map fun pty => { daemon with pty := pty } := by
  cases cause with
  | childWrites bytes =>
    by_cases isOpen : daemon.pty.slaveOpen = true
    · simp [PtyChange.event, Daemon.step, readSide, PtyChange.apply, isOpen]
    · simp [PtyChange.event, Daemon.step, readSide, PtyChange.apply, isOpen]
  | slave isOpen => rfl
  | childExits => rfl

theorem ready_to_read : daemon.ready .read = !readSide.wouldBlock daemon.pty := by
  simp [Daemon.ready, readSide, Bool.not_and]

theorem on_read_answers (count : Nat) :
    daemon.onRead count = (readSide.perform daemon.pty count).bind fun
      | (pty, .ended) =>
          some { daemon with pty := pty, phase := .waiting, taken := daemon.taken ++ [.read []] }
      | (pty, .bytes chunk) =>
          (daemon.hub.step (.output chunk)).map fun hub =>
            { daemon with
              hub := hub, phase := .handingOff chunk, pty := pty
              taken := daemon.taken ++ [.read chunk] } := by
  unfold Daemon.onRead
  by_cases drained : daemon.pty.output = []
  · simp [readSide, drained]
  · by_cases bound : 0 < count ∧ count ≤ min bufferSize daemon.pty.output.length
    · simp only [readSide, if_neg drained, if_pos bound, Option.bind_some]
    · simp only [readSide, if_neg drained, if_neg bound, Option.bind_none]

end Loop

section Bytes

def childWrote (changes : List PtyChange) : List UInt8 :=
  changes.flatMap fun
    | .childWrites bytes => bytes
    | _ => []

def delivered (outcomes : List ReadOutcome) : List UInt8 :=
  outcomes.flatMap fun
    | .bytes chunk => chunk
    | .ended => []

def childRead (changes : List QueueChange) : Nat :=
  (changes.map fun
    | .childReads count => count
    | .slave _ => 0).sum

def accepted (outcomes : List WriteOutcome) : Nat :=
  (outcomes.map fun
    | .took count => count
    | .failed => 0).sum

/-- What the child writes is read once, in its order, and the end is not seen before it comes. -/
structure Reads (changes : List PtyChange) (outcomes : List ReadOutcome) (pty : Pty) : Prop where
  whole : delivered outcomes ++ pty.output = childWrote changes
  chunks : ∀ chunk, .bytes chunk ∈ outcomes → chunk ≠ [] ∧ chunk.length ≤ bufferSize
  closed : pty.slaveOpen = false → .slave false ∈ changes
  ended : .ended ∈ outcomes → .slave false ∈ changes

/-- As much is taken as the child has read, or still can. -/
structure Writes (room : Nat) (changes : List QueueChange) (outcomes : List WriteOutcome)
    (queue : InputQueue) : Prop where
  whole : accepted outcomes = queue.waiting + childRead changes
  bounded : queue.waiting ≤ room + 1
  closed : queue.slaveOpen = false → .slave false ∈ changes
  failed : .failed ∈ outcomes → .slave false ∈ changes

theorem reads_changes (past : List PtyChange) (outcomes : List ReadOutcome) (pty : Pty)
    (cause : PtyChange) (next : Pty) (reads : Reads past outcomes pty)
    (applied : readSide.change pty cause = some next) : Reads (past ++ [cause]) outcomes next := by
  have later (member : .slave false ∈ past) : PtyChange.slave false ∈ past ++ [cause] :=
    List.mem_append_left _ member
  have wrote : childWrote (past ++ [cause]) = childWrote past ++ childWrote [cause] :=
    List.flatMap_append
  cases cause with
  | childWrites bytes =>
    obtain ⟨isOpen, applied⟩ := Option.ite_none_right_eq_some.mp applied
    cases applied
    refine ⟨?_, reads.chunks, fun shut => later (reads.closed shut), fun ended => later (reads.ended ended)⟩
    rw [wrote, ← reads.whole]
    simp [childWrote]
  | slave isOpen =>
    cases applied
    refine ⟨?_, reads.chunks, ?_, fun ended => later (reads.ended ended)⟩
    · rw [wrote, ← reads.whole]
      exact (List.append_nil _).symm
    · rintro rfl
      exact List.mem_append_right _ List.mem_cons_self
  | childExits =>
    cases applied
    refine ⟨?_, reads.chunks, fun shut => later (reads.closed shut), fun ended => later (reads.ended ended)⟩
    rw [wrote, ← reads.whole]
    exact (List.append_nil _).symm

theorem reads_performs (past : List PtyChange) (outcomes : List ReadOutcome) (pty : Pty)
    (count : Nat) (next : Pty) (outcome : ReadOutcome) (reads : Reads past outcomes pty)
    (free : readSide.wouldBlock pty = false)
    (done : readSide.perform pty count = some (next, outcome)) :
    Reads past (outcomes ++ [outcome]) next := by
  have split : delivered (outcomes ++ [outcome]) = delivered outcomes ++ delivered [outcome] :=
    List.flatMap_append
  simp only [readSide] at done
  split at done
  · rename_i drained
    cases done
    have shut : pty.slaveOpen = false := by simpa [readSide, drained] using free
    refine ⟨?_, ?_, reads.closed, fun _ => reads.closed shut⟩
    · rw [split, ← reads.whole]
      exact congrArg (· ++ pty.output) (List.append_nil _)
    · intro chunk member
      rcases List.mem_append.mp member with before | now
      · exact reads.chunks chunk before
      · cases List.mem_singleton.mp now
  · obtain ⟨⟨some_bytes, bound⟩, done⟩ := Option.ite_none_right_eq_some.mp done
    cases done
    refine ⟨?_, ?_, reads.closed, ?_⟩
    · rw [split, ← reads.whole, List.append_assoc]
      simp [delivered]
    · intro chunk member
      rcases List.mem_append.mp member with before | now
      · exact reads.chunks chunk before
      · cases List.mem_singleton.mp now
        have length := List.length_take_of_le (Nat.le_trans bound (Nat.min_le_right _ _))
        constructor
        · apply List.ne_nil_of_length_pos
          rw [length]
          exact some_bytes
        · rw [length]
          exact Nat.le_trans bound (Nat.min_le_left _ _)
    · intro member
      rcases List.mem_append.mp member with before | now
      · exact reads.ended before
      · cases List.mem_singleton.mp now

theorem writes_changes (room : Nat) (past : List QueueChange) (outcomes : List WriteOutcome)
    (queue : InputQueue) (cause : QueueChange) (next : InputQueue) (writes : Writes room past outcomes queue)
    (applied : (writeSide room).change queue cause = some next) :
    Writes room (past ++ [cause]) outcomes next := by
  have later (member : .slave false ∈ past) : QueueChange.slave false ∈ past ++ [cause] :=
    List.mem_append_left _ member
  have whole := writes.whole
  have bounded := writes.bounded
  have count : childRead (past ++ [cause]) = childRead past + childRead [cause] := by
    simp [childRead]
  cases cause with
  | childReads amount =>
    obtain ⟨bound, applied⟩ := Option.ite_none_right_eq_some.mp applied
    cases applied
    refine ⟨?_, ?_, fun shut => later (writes.closed shut), fun failed => later (writes.failed failed)⟩
    · rw [count, whole]
      simp [childRead]
      omega
    · exact Nat.le_trans (Nat.sub_le _ _) bounded
  | slave isOpen =>
    cases applied
    refine ⟨?_, bounded, ?_, fun failed => later (writes.failed failed)⟩
    · rw [count, whole]
      rfl
    · rintro rfl
      exact List.mem_append_right _ List.mem_cons_self

theorem writes_performs (room : Nat) (past : List QueueChange) (outcomes : List WriteOutcome)
    (queue : InputQueue) (count : Nat) (next : InputQueue) (outcome : WriteOutcome)
    (writes : Writes room past outcomes queue)
    (done : (writeSide room).perform queue count = some (next, outcome)) :
    Writes room past (outcomes ++ [outcome]) next := by
  have whole := writes.whole
  have split : accepted (outcomes ++ [outcome]) = accepted outcomes + accepted [outcome] := by
    simp [accepted]
  simp only [writeSide] at done
  split at done
  · rename_i shut
    cases done
    refine ⟨?_, writes.bounded, writes.closed, fun _ => writes.closed shut⟩
    rw [split, whole]
    rfl
  · obtain ⟨⟨some_room, bound⟩, done⟩ := Option.ite_none_right_eq_some.mp done
    cases done
    refine ⟨?_, bound, writes.closed, ?_⟩
    · rw [split, whole]
      simp [accepted]
      omega
    · intro member
      rcases List.mem_append.mp member with before | now
      · exact writes.failed before
      · cases List.mem_singleton.mp now

end Bytes

/-- Whatever the child, the kernel and the reactor do between two steps of a poll. The queue for
the child is empty at first, which the polls learn as if it had just been emptied. -/
theorem pty_polled :
    (∀ events last, run readSide.step (readSide.watched opened opened []) events = some last →
      LevelTriggered readSide opened [] events last ∧
        Reads (causes events) last.answers.reduceOption last.res) ∧
    ∀ room events last, run (writeSide room).step
        ((writeSide room).watched (queueOf (room + 1)) (queueOf 0) [.childReads (room + 1)]) events =
          some last →
      LevelTriggered (writeSide room) (queueOf (room + 1)) [.childReads (room + 1)] events last ∧
        Writes room (causes events) last.answers.reduceOption last.res := by
  constructor
  · intro events last ran
    constructor
    · exact level_triggered readSide opened opened [] rfl rfl events last ran
    · apply watched_invariant readSide opened opened [] Reads _ reads_changes reads_performs events
        last ran
      exact ⟨rfl, by simp, by simp [opened], by simp⟩
  · intro room events last ran
    have full : (writeSide room).wouldBlock (queueOf (room + 1)) = true := by
      simp [writeSide, queueOf]
    have emptied : run (writeSide room).change (queueOf (room + 1)) [.childReads (room + 1)] =
        some (queueOf 0) := by
      simp [run, writeSide, QueueChange.apply, queueOf]
    constructor
    · exact level_triggered (writeSide room) _ _ _ full emptied events last ran
    · apply watched_invariant (writeSide room) _ _ _ (Writes room) _ (writes_changes room) _ events
        last ran
      · exact ⟨rfl, Nat.zero_le _, by simp [queueOf], by simp⟩
      · exact fun past outcomes queue count next outcome writes _ done =>
          writes_performs room past outcomes queue count next outcome writes done

/-- A byte comes after the read has been refused and before the reactor is told so. -/
def racing : List (WatchEvent Nat PtyChange) :=
  [.changes (.childWrites [1]), .turns, .polled, .asks, .tries 1, .polled, .asks, .tries 1,
    .changes (.childWrites [2]), .clears, .asks, .turns, .polled, .asks, .tries 1]

/-- Two bytes go into a queue for one. -/
def filling : List (WatchEvent Nat QueueChange) :=
  [.polled, .asks, .turns, .polled, .asks, .tries 1, .polled, .asks, .tries 1,
    .changes (.childReads 1), .clears, .asks, .turns, .polled, .asks, .tries 1]

theorem pty_polled_racing :
    (∃ last, run readSide.step (readSide.watched opened opened []) racing = some last ∧
      last.answers = [some (.bytes [1]), none, some (.bytes [2])] ∧
        LevelTriggered readSide opened [] racing last) ∧
    ∃ last, run (writeSide 0).step
        ((writeSide 0).watched (queueOf 1) (queueOf 0) [.childReads 1]) filling = some last ∧
      last.answers = [none, some (.took 1), none, some (.took 1)] ∧
        LevelTriggered (writeSide 0) (queueOf 1) [.childReads 1] filling last := by
  constructor
  · refine ⟨_, rfl, rfl, ?_⟩
    exact (pty_polled.1 racing _ rfl).1
  · refine ⟨_, rfl, rfl, ?_⟩
    exact (pty_polled.2 0 filling _ rfl).1

end Hytch.PtyPolling
