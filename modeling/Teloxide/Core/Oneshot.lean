import Mathlib

/-!
# One-value channels

A `Oneshot α` carries at most one value, from a sender that is used up by
sending it to a receiver that may be dropped at any time.

* A value sent to a dropped receiver stays with the sender.
* A value that was sent and not taken goes with the receiver.
-/
namespace Teloxide.Core

structure Oneshot (α : Type) where
  /-- The sender is there and has not sent. -/
  sender : Bool
  value : Option α
  receiver : Bool
  deriving DecidableEq

/-- What the receiver sees. -/
inductive Polled (α : Type) where
  | pending
  | ready (value : α)
  | closed

namespace Oneshot

variable {α : Type}

def channel : Oneshot α := ⟨true, none, true⟩

/-- The sender is used up; the value is `true` when the receiver has it. -/
def send (c : Oneshot α) (v : α) : Oneshot α × Bool :=
  if c.receiver then (⟨false, some v, true⟩, true) else ({ c with sender := false }, false)

def dropSender (c : Oneshot α) : Oneshot α := { c with sender := false }

def poll (c : Oneshot α) : Oneshot α × Polled α :=
  match c.value with
  | some v => ({ c with value := none }, .ready v)
  | none => (c, if c.sender then .pending else .closed)

/-- The value that was not taken is dropped with the receiver. -/
def dropReceiver (c : Oneshot α) : Oneshot α × Option α := ({ c with value := none, receiver := false }, c.value)

/-- The sender is there and nothing was sent. -/
def Open (c : Oneshot α) : Prop := c.sender = true ∧ c.value = none

@[simp] theorem open_channel : (channel : Oneshot α).Open := ⟨rfl, rfl⟩

theorem Open.poll {c : Oneshot α} (h : c.Open) : c.poll = (c, .pending) := by
  rw [Oneshot.poll, h.2, h.1]
  rfl

theorem poll_ready {c : Oneshot α} {v : α} (h : c.poll.2 = .ready v) : c.value = some v := by
  unfold Oneshot.poll at h
  split at h
  · rename_i hv
    cases h
    exact hv
  · dsimp only at h
    split at h <;> cases h

theorem poll_closed {c : Oneshot α} (h : c.poll.2 = .closed) : c.value = none ∧ ¬ c.Open := by
  refine ⟨?_, fun ho => by rw [ho.poll] at h; cases h⟩
  unfold Oneshot.poll at h
  split at h
  · cases h
  · assumption

theorem Open.dropReceiver {c : Oneshot α} (h : c.Open) : c.dropReceiver.1.Open := ⟨h.1, rfl⟩

/-- A value is where it was before, or it is the one sent. -/
theorem send_value {c : Oneshot α} (h : c.Open) (v : α) :
    (c.send v).1.value = if (c.send v).2 then some v else none := by
  unfold send
  split
  · rfl
  · exact h.2

end Oneshot

end Teloxide.Core
