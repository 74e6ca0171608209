import Hytch.RingBuffer
import Hytch.BroadcastChannel

/-!
`fanout.rs`: the scrollback ring and the broadcast channel behind one lock.
`push` and `attach` each hold the lock over both halves, so they are single
steps here. `Represents` reads the pair as one thing: everything pushed so
far, of which the ring keeps the bounded tail.
-/

namespace Hytch

open BoundedTail BroadcastChannel

variable {Cell : Type}

structure Fanout (Cell : Type) where
  ring : RingBuffer Cell
  tx : Channel (List Cell)

namespace Fanout

def new [Inhabited Cell] (scrollbackCapacity broadcastCapacity : Nat) : Option (Fanout Cell) := do
  let tx ← channel broadcastCapacity
  let ring ← RingBuffer.new scrollbackCapacity
  some { ring := ring, tx := tx }

def push (fanout : Fanout Cell) (data : List Cell) : Option (Fanout Cell) := do
  let ring ← fanout.ring.append data
  some { ring := ring, tx := fanout.tx.send data }

def attach (fanout : Fanout Cell) : Option (List Cell × Receiver) := do
  let rx := fanout.tx.subscribe
  let snapshot ← fanout.ring.snapshot
  some (snapshot, rx)

structure Represents (fanout : Fanout Cell) (scrollback : Nat) (output : List Cell) : Prop where
  capacity : fanout.ring.capacity = scrollback
  ring : fanout.ring.Represents (output.rtake scrollback)
  history : fanout.tx.sent.flatten = output

theorem new_unsent [Inhabited Cell] (scrollback broadcast : Nat) (fanout : Fanout Cell)
    (created : Fanout.new scrollback broadcast = some fanout) : fanout.tx.sent = [] := by
  simp only [Fanout.new, Option.bind_eq_bind, Option.bind_eq_some_iff, Option.some.injEq] at created
  obtain ⟨tx, opened, ring, _, rfl⟩ := created
  simp only [channel] at opened
  split at opened
  · cases opened
    rfl
  · cases opened

theorem new_represents [Inhabited Cell] (scrollback broadcast : Nat) (fanout : Fanout Cell)
    (created : new scrollback broadcast = some fanout) : fanout.Represents scrollback [] := by
  simp only [new, Option.bind_eq_bind, Option.bind_eq_some_iff, Option.some.injEq] at created
  obtain ⟨tx, opened, ring, allocated, rfl⟩ := created
  have power : scrollback.isPowerOfTwo := by
    by_contra other
    simp [RingBuffer.new, other] at allocated
  have silent : tx.sent = [] := by
    unfold channel at opened
    split at opened
    · cases opened
      rfl
    · cases opened
  obtain ⟨fresh, same, capacity, rep⟩ : ∃ fresh : RingBuffer Cell,
      RingBuffer.new scrollback = some fresh ∧ fresh.capacity = scrollback ∧
        fresh.Represents [] := RingBuffer.new_represents scrollback power
  have identical : ring = fresh := Option.some.inj (allocated.symm.trans same)
  subst identical
  exact { capacity := capacity, ring := by simpa using rep, history := by simp [silent] }

theorem push_represents (fanout : Fanout Cell) (scrollback : Nat) (output data : List Cell)
    (rep : fanout.Represents scrollback output) :
    ∃ next, fanout.push data = some next ∧ next.tx = fanout.tx.send data ∧
      next.Represents scrollback (output ++ data) := by
  obtain ⟨ring, appended, capacity, ringRep⟩ :=
    RingBuffer.append_represents fanout.ring _ data rep.ring
  refine ⟨{ ring := ring, tx := fanout.tx.send data }, by simp [push, appended], rfl, ?_⟩
  constructor
  · exact capacity.trans rep.capacity
  · rw [rep.capacity, rtake_rtake_append] at ringRep
    exact ringRep
  · simp [rep.history]

theorem attach_exact (fanout : Fanout Cell) (scrollback : Nat) (output : List Cell)
    (rep : fanout.Represents scrollback output) :
    fanout.attach = some (output.rtake scrollback, fanout.tx.subscribe) := by
  simp [attach, RingBuffer.snapshot_exact fanout.ring _ rep.ring]

end Fanout
end Hytch
