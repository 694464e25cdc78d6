import Teloxide.Core.Machine
import Teloxide.Core.Notify
import Teloxide.Core.Table
import Teloxide.Drafter.Types

/-!
# The in-process rate limiter (`crates/teloxide/src/drafter/limiter.rs`)

`acquire` registers a waiter and then looks, again and again, whether its chat and the bot
are available and no waiter before it could go. `limiter` is every interleaving of the
futures of `acquire`, which may be dropped where they await, and of calls of `penalize`:
the locked sections are one step each, and so is reading the clock outside of them.
Instants are in nanoseconds.
-/
namespace Teloxide.Drafter.Limiter

open Teloxide.Core

def DrafterPriority.rank : DrafterPriority → Nat
  | .refreshPreview => 0
  | .changedPreview => 1
  | .segmentCommit => 2
  | .final => 3

/-- mirrors limiter.rs:192-197 -/
structure LimiterWaiter where
  id : Nat
  chatId : ChatId
  priority : DrafterPriority
  deriving DecidableEq

/-- mirrors limiter.rs:181-190 -/
structure LimiterState where
  globalNext : Option Nat
  globalPenaltyUntil : Option Nat
  chatNext : Table ChatId Nat
  chatPenaltyUntil : Table ChatId Nat
  nextWaiterId : Nat
  operationCount : Nat
  waiters : List LimiterWaiter
  deriving DecidableEq

/-- mirrors limiter.rs:230-235 -/
structure InProcessRateLimiter where
  perChatInterval : Nat
  globalInterval : Nat

def wrappingSucc (n : Nat) : Nat := (n + 1) % (u64Max + 1)

/-- The deadlines that have not passed. -/
def retainFuture (now : Nat) (deadlines : Table ChatId Nat) : Table ChatId Nat :=
  deadlines.filterMap fun _ deadline => if now < deadline then some deadline else none

namespace LimiterState

def new : LimiterState := ⟨none, none, ∅, ∅, 0, 0, []⟩

/-- mirrors limiter.rs:347-356 -/
def recordOperation (state : LimiterState) (now : Nat) : LimiterState :=
  let state := { state with operationCount := wrappingSucc state.operationCount }
  if state.operationCount % 512 = 0 ∨ 4096 < state.chatNext.size ∨ 4096 < state.chatPenaltyUntil.size then
    { state with
      chatNext := retainFuture now state.chatNext
      chatPenaltyUntil := retainFuture now state.chatPenaltyUntil }
  else state

/-- mirrors limiter.rs:358-368 -/
def availabilityDeadline (state : LimiterState) (key : ChatId) (now : Nat) : Nat :=
  let chatDeadline := max ((state.chatNext.lookup key).getD now) ((state.chatPenaltyUntil.lookup key).getD now)
  let globalDeadline := max (state.globalNext.getD now) (state.globalPenaltyUntil.getD now)
  max chatDeadline globalDeadline

def available (state : LimiterState) (key : ChatId) (now : Nat) : Bool := state.availabilityDeadline key now ≤ now

/-- mirrors limiter.rs:293-298 -/
def hasPriorityWaiter (state : LimiterState) (current : LimiterWaiter) (now : Nat) : Bool :=
  state.waiters.any fun other =>
    other.id ≠ current.id &&
      (DrafterPriority.rank current.priority < DrafterPriority.rank other.priority ||
        (other.priority = current.priority && other.id < current.id)) &&
      state.available other.chatId now

def find? (state : LimiterState) (id : Nat) : Option LimiterWaiter := state.waiters.find? (·.id = id)

/-- `waiters.retain(|waiter| waiter.id != id)` -/
def remove (state : LimiterState) (id : Nat) : LimiterState :=
  { state with waiters := state.waiters.filter (·.id ≠ id) }

/-- The push of a new waiter.
mirrors limiter.rs:267-273 -/
def register (state : LimiterState) (chatId : ChatId) (priority : DrafterPriority) : LimiterState :=
  { state with
    nextWaiterId := wrappingSucc state.nextWaiterId
    waiters := state.waiters ++ [⟨state.nextWaiterId, chatId, priority⟩] }

/-- mirrors limiter.rs:300-302 -/
def grant (state : LimiterState) (limiter : InProcessRateLimiter) (waiter : LimiterWaiter) (now : Nat) : LimiterState :=
  let state := state.remove waiter.id
  { state with
    chatNext := AList.insert waiter.chatId (now + limiter.perChatInterval) state.chatNext
    globalNext := some (now + limiter.globalInterval) }

/-- mirrors limiter.rs:332-341 -/
def applyPenalty (state : LimiterState) (scope : DrafterRateLimitScope) (deadline : Nat) : LimiterState :=
  match scope with
  | .global => { state with globalPenaltyUntil := some (max (state.globalPenaltyUntil.getD deadline) deadline) }
  | .chat chatId =>
    { state with
      chatPenaltyUntil :=
        AList.insert chatId (max ((state.chatPenaltyUntil.lookup chatId).getD deadline) deadline) state.chatPenaltyUntil }

end LimiterState

/-! ## Calls -/

/-- Where a call is; a waiter is held by the guard of its call. -/
inductive Stage where
  /-- `acquire` before its first poll -/
  | called (chatId : ChatId) (priority : DrafterPriority)
  /-- at the top of the loop -/
  | looping (waiter : LimiterWaiter)
  /-- `now` is read -/
  | timed (waiter : LimiterWaiter) (now : Nat)
  /-- before the `select!` -/
  | until_ (waiter : LimiterWaiter) (deadline : Nat)
  /-- in the `select!` -/
  | sleeping (waiter : LimiterWaiter) (deadline : Nat) (notified : Notified)
  /-- in `yield_now().await` -/
  | yielding (waiter : LimiterWaiter)
  /-- `penalize` -/
  | penalizing (scope : DrafterRateLimitScope) (retryAfter : Nat)
  /-- `deadline` is set -/
  | registering (scope : DrafterRateLimitScope) (deadline retryAfter : Nat)
  /-- returned, or dropped -/
  | done
  deriving DecidableEq

def Stage.waiter? : Stage → Option LimiterWaiter
  | .looping waiter | .timed waiter _ | .until_ waiter _ | .sleeping waiter _ _ | .yielding waiter => some waiter
  | _ => none

structure Sys where
  clock : Nat
  state : LimiterState
  notify : Notify
  calls : List Stage
  deriving DecidableEq

inductive Event where
  /-- `acquire` gives a permit -/
  | granted (call : Nat) (chatId : ChatId) (instant : Nat)
  | penalized (scope : DrafterRateLimitScope) (deadline : Nat)
  | other
  deriving DecidableEq

inductive Action where
  | tick (by_ : Nat)
  | acquire (chatId : ChatId) (priority : DrafterPriority)
  | penalize (scope : DrafterRateLimitScope) (retryAfter : Nat)
  /-- the next step of a call -/
  | run (call : Nat)
  /-- the future of a call is dropped -/
  | drop (call : Nat)
  deriving DecidableEq

namespace Sys

variable (limiter : InProcessRateLimiter)

def goto (s : Sys) (i : Nat) (stage : Stage) : Sys := { s with calls := s.calls.set i stage }

/-- The locked section of the loop.
mirrors limiter.rs:286-312 -/
def decide_ (s : Sys) (i : Nat) (waiter : LimiterWaiter) (now : Nat) : Sys × Event :=
  match s.state.find? waiter.id with
  | none => (s.goto i .done, .granted i waiter.chatId s.clock)
  | some current =>
    let ownDeadline := s.state.availabilityDeadline current.chatId now
    let hasPriorityWaiter := s.state.hasPriorityWaiter current now
    if ¬ hasPriorityWaiter ∧ ownDeadline ≤ now then
      ({ s with state := s.state.grant limiter waiter now, notify := s.notify.notifyWaiters }.goto i .done,
        .granted i waiter.chatId s.clock)
    else if hasPriorityWaiter ∧ ownDeadline ≤ now then (s.goto i (.yielding waiter), .other)
    else (s.goto i (.until_ waiter ownDeadline), .other)

/-- The next step of a call.
mirrors limiter.rs:261-344 -/
def runStep (s : Sys) (i : Nat) : Stage → Option (Sys × Event)
  | .called chatId priority =>
    let state := (s.state.recordOperation s.clock).register chatId priority
    some ({ s with state }.goto i (.looping ⟨s.state.nextWaiterId, chatId, priority⟩), .other)
  | .looping waiter => some (s.goto i (.timed waiter s.clock), .other)
  | .timed waiter now => some (s.decide_ limiter i waiter now)
  | .until_ waiter deadline => some (s.goto i (.sleeping waiter deadline s.notify.notified), .other)
  | .sleeping waiter deadline notified =>
    if deadline ≤ s.clock ∨ notified.ready s.notify then some (s.goto i (.looping waiter), .other) else none
  | .yielding waiter => some (s.goto i (.looping waiter), .other)
  | .penalizing scope retryAfter => some (s.goto i (.registering scope (s.clock + retryAfter) retryAfter), .other)
  | .registering scope deadline retryAfter =>
    let state := (s.state.recordOperation (deadline - retryAfter)).applyPenalty scope deadline
    some ({ s with state, notify := s.notify.notifyWaiters }.goto i .done, .penalized scope deadline)
  | .done => none

/-- A future is dropped where it awaits, and the guard of its waiter with it.
mirrors limiter.rs:212-222 -/
def dropStep (s : Sys) (i : Nat) : Stage → Option (Sys × Event)
  | .called .. => some (s.goto i .done, .other)
  | .sleeping waiter _ _ | .yielding waiter =>
    some ({ s with state := s.state.remove waiter.id, notify := s.notify.notifyWaiters }.goto i .done, .other)
  | _ => none

def step (s : Sys) : Action → Option (Sys × Event)
  | .tick by_ => some ({ s with clock := s.clock + by_ }, .other)
  | .acquire chatId priority => some ({ s with calls := s.calls ++ [.called chatId priority] }, .other)
  | .penalize scope retryAfter => some ({ s with calls := s.calls ++ [.penalizing scope retryAfter] }, .other)
  | .run i => (s.calls[i]?).bind (s.runStep limiter i)
  | .drop i => (s.calls[i]?).bind (s.dropStep i)

def new (clock : Nat) : Sys := ⟨clock, .new, .new, []⟩

end Sys

def limiter (L : InProcessRateLimiter) : Machine Sys Action Event where
  init s := ∃ clock, s = Sys.new clock
  step := Sys.step L

end Teloxide.Drafter.Limiter
