import Mathlib

/-!
# A notifier without memory

`notify_waiters` reaches the waiters that have been created by then, and leaves
nothing behind for later ones. So a waiter is known by the number of calls made
before it was created.

* `ready_notifyWaiters`: a call reaches every waiter there is.
* `not_ready_notified`: a new waiter has missed all calls so far.
-/
namespace Teloxide.Core

structure Notify where
  calls : Nat
  deriving DecidableEq, Repr

structure Notified where
  seen : Nat
  deriving DecidableEq, Repr

namespace Notify

def new : Notify := ⟨0⟩
def notifyWaiters (n : Notify) : Notify := ⟨n.calls + 1⟩
def notified (n : Notify) : Notified := ⟨n.calls⟩

/-- The waiter was created by this notifier. -/
def Created (n : Notify) (w : Notified) : Prop := w.seen ≤ n.calls

end Notify

/-- The waiter has been reached. -/
def Notified.ready (w : Notified) (n : Notify) : Bool := w.seen < n.calls

namespace Notify

variable {n : Notify} {w : Notified}

theorem created_notified (n : Notify) : n.Created n.notified := Nat.le_refl _

theorem not_ready_notified (n : Notify) : n.notified.ready n = false := by
  simp [Notified.ready, notified]

theorem Created.notifyWaiters (h : n.Created w) : n.notifyWaiters.Created w := Nat.le_succ_of_le h

theorem ready_notifyWaiters (h : n.Created w) : w.ready n.notifyWaiters = true :=
  decide_eq_true (Nat.lt_succ_of_le h)

theorem ready_later (h : w.ready n = true) : w.ready n.notifyWaiters = true :=
  decide_eq_true (Nat.lt_succ_of_lt (of_decide_eq_true h))

end Notify

end Teloxide.Core
