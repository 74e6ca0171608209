import Mathlib.Algebra.Group.Nat.Defs
import Mathlib.Data.List.TakeDrop

/-!
A bounded broadcast channel as its documentation promises it: subscribers
start at the tail, messages are delivered in the order sent, and a receiver
that was overrun is told so before it sees any later message. `sent` is the
whole history; the channel retains its last `slots` messages. A send that
finds no receiver is dropped by the real channel, which no later subscriber
can tell apart.
-/

namespace Hytch.BroadcastChannel

universe u
variable {Message : Type u}

structure Channel (Message : Type u) where
  slots : Nat
  sent : List Message

/-- Position of the next message the receiver will be given. -/
structure Receiver where
  next : Nat
  deriving DecidableEq

inductive Delivery (Message : Type u) where
  | empty
  | lagged (missed : Nat) (receiver : Receiver)
  | item (message : Message) (receiver : Receiver)

/-- Capacity zero and capacities beyond half the address space panic; others
are rounded up to a power of two. -/
def channel (capacity : Nat) : Option (Channel Message) :=
  if 0 < capacity ∧ capacity ≤ 2 ^ 63 - 1 then
    some { slots := capacity.nextPowerOfTwo, sent := [] }
  else none

def Channel.send (chan : Channel Message) (message : Message) : Channel Message :=
  { chan with sent := chan.sent ++ [message] }

def Channel.subscribe (chan : Channel Message) : Receiver := { next := chan.sent.length }

/-- More messages are waiting than the channel retains. -/
def Channel.Overrun (chan : Channel Message) (receiver : Receiver) : Prop :=
  chan.slots < chan.sent.length - receiver.next

instance (chan : Channel Message) (receiver : Receiver) : Decidable (chan.Overrun receiver) :=
  inferInstanceAs (Decidable (_ < _))

def Channel.recv (chan : Channel Message) (receiver : Receiver) : Delivery Message :=
  if chan.Overrun receiver then
    -- the receiver moves on to the oldest message that is still there
    let oldest := chan.sent.length - chan.slots
    .lagged (oldest - receiver.next) { next := oldest }
  else
    match chan.sent[receiver.next]? with
    | none => .empty
    | some message => .item message { next := receiver.next + 1 }

/-- What a receiver that subscribed at `start` has been given so far. -/
def Channel.delivered (chan : Channel Message) (start : Nat) (receiver : Receiver) :
    List Message := (chan.sent.take receiver.next).drop start

@[simp] theorem send_sent (chan : Channel Message) (message : Message) :
    (chan.send message).sent = chan.sent ++ [message] := rfl

theorem subscribe_delivered (chan : Channel Message) :
    chan.delivered chan.sent.length chan.subscribe = [] := by
  simp [Channel.delivered, Channel.subscribe]

theorem later_delivered (chan : Channel Message) (newer : List Message) (start : Nat)
    (receiver : Receiver) (known : receiver.next ≤ chan.sent.length) :
    ({ chan with sent := chan.sent ++ newer } : Channel Message).delivered start receiver =
      chan.delivered start receiver := by
  simp only [Channel.delivered]
  rw [List.take_append_of_le_length known]

theorem recv_item (chan : Channel Message) (start : Nat) (receiver after : Receiver)
    (message : Message) (subscribed : start ≤ receiver.next)
    (given : chan.recv receiver = .item message after) :
    after.next = receiver.next + 1 ∧ receiver.next < chan.sent.length ∧
      chan.delivered start after = chan.delivered start receiver ++ [message] := by
  unfold Channel.recv at given
  split at given
  · cases given
  · cases present : chan.sent[receiver.next]? with
    | none => simp [present] at given
    | some found =>
      simp only [present, Delivery.item.injEq] at given
      obtain ⟨rfl, rfl⟩ := given
      have bound : receiver.next < chan.sent.length := by
        by_contra beyond
        rw [List.getElem?_eq_none (by omega)] at present
        cases present
      refine ⟨rfl, bound, ?_⟩
      have taken : (chan.sent.take receiver.next).length = receiver.next := by
        rw [List.length_take]
        omega
      simp only [Channel.delivered]
      rw [List.take_add_one, present, List.drop_append_of_le_length (by omega)]
      rfl

theorem recv_overrun (chan : Channel Message) (receiver : Receiver)
    (overrun : chan.Overrun receiver) : ∃ missed after, chan.recv receiver = .lagged missed after := by
  exact ⟨_, _, by rw [Channel.recv, if_pos overrun]⟩

/-- Deliveries are the history from the subscription on, never past a gap. -/
theorem delivered_is_initial (chan : Channel Message) (start : Nat) (receiver : Receiver) :
    chan.delivered start receiver <+: chan.sent.drop start := by
  rw [Channel.delivered, List.drop_take]
  exact List.take_prefix _ _

end Hytch.BroadcastChannel
