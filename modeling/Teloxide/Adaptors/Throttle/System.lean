import Mathlib
import Teloxide.Core.Machine

/-!
# The throttling adaptor (`crates/teloxide-core/src/adaptors/throttle_compat`)

Every request that is sent through the adaptor takes a slot of `pending_slots`, is
enqueued, and gives the slot back when it is granted. The last slot that is taken is
reported by `on_queue_full`, or deferred while a `RetryAfter` freeze is active. A
saturation monitor, of which at most one is to run, makes up for deferred events and
repeats the report as long as no slot is free.

`throttle` is every interleaving of the futures of `compat_send`, which may be dropped
wherever they await, and of the monitors' tasks, one access to the shared state a step.
What the outbound queue and Telegram answer is up to the action; the actor of the queue may
die at any time. Instants are in nanoseconds.
-/
namespace Teloxide.Adaptors.Throttle

/-! ## The slots -/

/-- `tokio::sync::Semaphore`, one permit at a time: a permit that is released goes to the
waiter in front. -/
structure Semaphore where
  permits : Nat
  waiters : List Nat
  /-- those that were handed a permit and have not been polled since -/
  handed : List Nat
  deriving DecidableEq

namespace Semaphore

def new (permits : Nat) : Semaphore := ⟨permits, [], []⟩

def tryAcquire (s : Semaphore) : Option Semaphore :=
  if s.permits = 0 then none else some { s with permits := s.permits - 1 }

def wait (s : Semaphore) (i : Nat) : Semaphore := { s with waiters := s.waiters ++ [i] }

def release (s : Semaphore) : Semaphore :=
  match s.waiters with
  | i :: waiters => { s with waiters, handed := i :: s.handed }
  | [] => { s with permits := s.permits + 1 }

/-- The poll of a waiter that was handed a permit. -/
def claim (s : Semaphore) (i : Nat) : Option Semaphore :=
  if i ∈ s.handed then some { s with handed := s.handed.erase i } else none

/-- The future of a waiter is dropped. -/
def leave (s : Semaphore) (i : Nat) : Semaphore :=
  if i ∈ s.handed then { s with handed := s.handed.erase i }.release else { s with waiters := s.waiters.erase i }

end Semaphore

/-! ## Requests and monitors -/

def millisecond : Nat := 1000000

/-- mirrors throttle_compat.rs:135 -/
def queueFullDelay : Nat := 4000 * millisecond

/-- mirrors throttle_compat.rs:140 -/
def saturationCheckPeriod : Nat := 4001 * millisecond

/-- Where the future of a `compat_send` is. -/
inductive Stage where
  /-- at the top of the loop -/
  | start
  /-- in `acquire_owned().await` -/
  | acquiring
  /-- before `available_permits()` -/
  | admitted
  /-- in `enqueue(..).await`, with `was_last_slot` -/
  | enqueuing (last : Bool)
  /-- the last slot was accepted: before `freeze_active` -/
  | accepted
  /-- before `notify_queue_full` -/
  | thawed
  /-- before the store to `deferred_full` -/
  | frozen
  /-- before the call of `ensure_saturation_monitor` -/
  | ensuring
  /-- in that call, before the monitor is spawned -/
  | spawning
  /-- in `grant.await` -/
  | queued
  /-- the grant failed: before `deferred_full` is cleared -/
  | lost
  /-- before the slot is dropped -/
  | granted
  /-- in the inner request -/
  | sending
  /-- a `RetryAfter` that was seen at an instant -/
  | observed (at_ duration : Nat)
  /-- in `sleep_until` -/
  | sleeping (until_ : Nat)
  /-- the queue is gone: before the slot is dropped -/
  | bypassing
  /-- in the inner request, past the queue -/
  | direct
  /-- returned, or dropped -/
  | done
  deriving DecidableEq

/-- Where the task of a saturation monitor is. -/
inductive Phase where
  /-- at the top of the loop -/
  | looping
  /-- `now` is read -/
  | timed (now : Nat)
  /-- in `sleep_until` -/
  | sleeping (wake : Nat)
  /-- before `freeze_active` -/
  | woken
  /-- before the swap of `deferred_full` -/
  | examining
  /-- in `limits().await` -/
  | probing
  /-- the actor is dead: before the last store -/
  | abandoning
  /-- before `notify_queue_full`, for the deferred event -/
  | reporting
  /-- before `try_acquire_owned` -/
  | acquiring
  /-- a slot was free: before `monitor_active` is cleared -/
  | clearing
  /-- before the permit is dropped -/
  | releasing
  /-- none was free: before `notify_queue_full` -/
  | refiring
  /-- returned -/
  | gone
  deriving DecidableEq

/-- What is shared, and where every future and task is; both lists only grow.
mirrors throttle_compat.rs:182-220 -/
structure Sys where
  clock : Nat
  /-- the actor of the outbound queue -/
  alive : Bool
  retry : Bool
  pendingSlots : Semaphore
  queueCapacity : Nat
  lastQueueFull : Nat
  monitorActive : Bool
  freezeUntil : Option Nat
  deferredFull : Bool
  requests : List Stage
  monitors : List Phase
  deriving DecidableEq

inductive Event where
  /-- `on_queue_full` is called -/
  | invoked (now pending : Nat)
  /-- a monitor swaps `deferred_full` -/
  | examined (i : Nat)
  /-- a monitor returns -/
  | exited (i : Nat)
  | other
  deriving DecidableEq

/-- What comes back where a future awaits something else than a slot or an instant. -/
inductive Answer where
  /-- `enqueue` gives a grant to wait for -/
  | enqueued
  /-- `OutboundAcquireError::QueueFull` -/
  | queueFull
  /-- the queue is gone, or `limits()` is none -/
  | closed
  | granted
  /-- an outcome without `retry_after` -/
  | returned
  | retryAfter (duration : Nat)
  /-- `limits()` is some -/
  | limits
  deriving DecidableEq

inductive Action where
  | tick (by_ : Nat)
  | die
  /-- `send()` or `send_ref()` -/
  | send
  | request (i : Nat) (answer : Answer)
  /-- the future of a request is dropped -/
  | cancel (i : Nat)
  | monitor (i : Nat) (answer : Answer)
  deriving DecidableEq

namespace Sys

def setRequest (s : Sys) (i : Nat) (stage : Stage) : Sys := { s with requests := s.requests.set i stage }

def setMonitor (s : Sys) (i : Nat) (phase : Phase) : Sys := { s with monitors := s.monitors.set i phase }

def dropSlot (s : Sys) : Sys := { s with pendingSlots := s.pendingSlots.release }

/-- The critical section is one step.
mirrors throttle_compat.rs:419-430 -/
def notifyQueueFull (s : Sys) : Sys × Event :=
  if s.clock - s.lastQueueFull ≤ queueFullDelay then (s, .other)
  else ({ s with lastQueueFull := s.clock }, .invoked s.clock s.queueCapacity)

/-- mirrors throttle_compat.rs:434-436 -/
def freezeActive (s : Sys) : Bool := s.freezeUntil.any fun until_ => s.clock < until_

/-- mirrors throttle_compat.rs:448-454 -/
def recordFreezeAt (s : Sys) (observedAt duration : Nat) : Sys :=
  let until_ := observedAt + duration
  if s.freezeUntil.all fun old => old < until_ then { s with freezeUntil := some until_ } else s

/-- The next step of a request.
mirrors request.rs:158-331 -/
def requestStep (s : Sys) (i : Nat) (answer : Answer) : Stage → Option (Sys × Event)
  | .start =>
    match s.pendingSlots.tryAcquire with
    | some slots => some ({ s with pendingSlots := slots }.setRequest i .admitted, .other)
    | none => some ({ s with pendingSlots := s.pendingSlots.wait i }.setRequest i .acquiring, .other)
  | .acquiring =>
    match s.pendingSlots.claim i with
    | some slots => some ({ s with pendingSlots := slots }.setRequest i .admitted, .other)
    | none => none
  | .admitted => some (s.setRequest i (.enqueuing (s.pendingSlots.permits = 0)), .other)
  | .enqueuing last =>
    match answer with
    | .enqueued => some (s.setRequest i (if last then .accepted else .queued), .other)
    -- the slot stays with this request
    | .queueFull => some (s, .other)
    | .closed => some (s.setRequest i .bypassing, .other)
    | _ => none
  | .accepted => some (s.setRequest i (if s.freezeActive then .frozen else .thawed), .other)
  | .thawed =>
    let (s, e) := s.notifyQueueFull
    some (s.setRequest i .ensuring, e)
  | .frozen => some ({ s with deferredFull := true }.setRequest i .ensuring, .other)
  | .ensuring =>
    some ({ s with monitorActive := true }.setRequest i (if s.monitorActive then .queued else .spawning), .other)
  | .spawning => some ({ s with monitors := s.monitors ++ [Phase.looping] }.setRequest i .queued, .other)
  | .queued =>
    match answer with
    | .granted => some (s.setRequest i .granted, .other)
    | .closed => if s.alive then none else some (s.setRequest i .lost, .other)
    | _ => none
  | .lost => some ({ s with deferredFull := false }.setRequest i .bypassing, .other)
  | .granted => some (s.dropSlot.setRequest i .sending, .other)
  | .sending =>
    match answer with
    | .returned => some (s.setRequest i .done, .other)
    | .retryAfter duration => some (s.setRequest i (.observed s.clock duration), .other)
    | _ => none
  | .observed at_ duration =>
    some ((s.recordFreezeAt at_ duration).setRequest i (if s.retry then .sleeping (at_ + duration) else .done), .other)
  | .sleeping until_ => if until_ ≤ s.clock then some (s.setRequest i .start, .other) else none
  | .bypassing => some (s.dropSlot.setRequest i .direct, .other)
  | .direct =>
    match answer with
    | .returned => some (s.setRequest i .done, .other)
    | _ => none
  | .done => none

/-- A future is dropped where it awaits; a slot that it holds goes with it. -/
def cancelStep (s : Sys) (i : Nat) : Stage → Option (Sys × Event)
  | .start | .sending | .sleeping _ | .direct => some (s.setRequest i .done, .other)
  | .acquiring => some ({ s with pendingSlots := s.pendingSlots.leave i }.setRequest i .done, .other)
  | .enqueuing _ | .queued => some (s.dropSlot.setRequest i .done, .other)
  | _ => none

/-- The next step of a monitor.
mirrors throttle_compat.rs:479-520 -/
def monitorStep (s : Sys) (i : Nat) (answer : Answer) : Phase → Option (Sys × Event)
  | .looping => some (s.setMonitor i (.timed s.clock), .other)
  | .timed now =>
    let wake := match s.freezeUntil with
      | some until_ => if now < until_ then until_ + millisecond else now + saturationCheckPeriod
      | none => now + saturationCheckPeriod
    some (s.setMonitor i (.sleeping wake), .other)
  | .sleeping wake => if wake ≤ s.clock then some (s.setMonitor i .woken, .other) else none
  | .woken => some (s.setMonitor i (if s.freezeActive then .looping else .examining), .other)
  | .examining =>
    some ({ s with deferredFull := false }.setMonitor i (if s.deferredFull then .probing else .acquiring), .examined i)
  | .probing =>
    match answer with
    | .limits => some (s.setMonitor i .reporting, .other)
    | .closed => if s.alive then none else some (s.setMonitor i .abandoning, .other)
    | _ => none
  | .abandoning => some ({ s with monitorActive := false }.setMonitor i .gone, .exited i)
  | .reporting =>
    let (s, e) := s.notifyQueueFull
    some (s.setMonitor i .acquiring, e)
  | .acquiring =>
    match s.pendingSlots.tryAcquire with
    | some slots => some ({ s with pendingSlots := slots }.setMonitor i .clearing, .other)
    | none => some (s.setMonitor i .refiring, .other)
  | .clearing => some ({ s with monitorActive := false }.setMonitor i .releasing, .other)
  | .releasing => some (s.dropSlot.setMonitor i .gone, .exited i)
  | .refiring =>
    let (s, e) := s.notifyQueueFull
    some (s.setMonitor i .looping, e)
  | .gone => none

def step (s : Sys) : Action → Option (Sys × Event)
  | .tick by_ => some ({ s with clock := s.clock + by_ }, .other)
  | .die => some ({ s with alive := false }, .other)
  | .send => some ({ s with requests := s.requests ++ [.start] }, .other)
  | .request i answer => (s.requests[i]?).bind (s.requestStep i answer)
  | .cancel i => (s.requests[i]?).bind (s.cancelStep i)
  | .monitor i answer => (s.monitors[i]?).bind (s.monitorStep i answer)

/-- mirrors throttle_compat.rs:309-345 -/
def new (retry : Bool) (queueCapacity now : Nat) : Sys where
  clock := now
  alive := true
  retry
  pendingSlots := .new queueCapacity
  queueCapacity
  lastQueueFull := if queueFullDelay + millisecond ≤ now then now - (queueFullDelay + millisecond) else now
  monitorActive := false
  freezeUntil := none
  deferredFull := false
  requests := []
  monitors := []

end Sys

/-- The adaptor, with `max(messages_per_sec_overall, 1)` slots. -/
def throttle : Core.Machine Sys Action Event where
  init s := ∃ retry messagesPerSecOverall now, s = Sys.new retry (max messagesPerSecOverall 1) now
  step := Sys.step

end Teloxide.Adaptors.Throttle
