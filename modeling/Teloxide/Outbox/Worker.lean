import Teloxide.Outbox.Fencing

/-!
# Outbox workers

`OutboundOutbox::run_once` and `execute_claimed`
(`crates/teloxide-core/src/outbound/outbox.rs:441-673`): workers that claim
records, ask the scheduler for a permit, start an attempt, call the executor and
write the outcome back.

* An execution is cut at every `await`, and may crash at any cut. Its lease is
  renewed by a heartbeat whenever it waits (`LeaseHeartbeat::drive`).
* What the scheduler and the executor answer is an argument of the step.
* An execution is known by the token of its lease.
-/
namespace Teloxide.Outbox

open Teloxide.Core Teloxide.Outbound

/-- mirrors types.rs:513-526 -/
inductive OutboundAcquireError where
  | closed
  | queueFull
  | weightExceedsWindow (scope : OutboundScope) (weight : NonZeroU32) (capacity : Nat)
  | incompatibleCoalesceMetadata
  | superseded
  deriving DecidableEq

/-- The outcomes that say nothing about the request.
mirrors outbox.rs:530, 553 -/
def OutboundAcquireError.isTransient : OutboundAcquireError → Bool
  | .closed | .queueFull | .superseded => true
  | .weightExceedsWindow .. | .incompatibleCoalesceMetadata => false

/-- mirrors outbox.rs:280-284 -/
inductive OutboxExecutionError where
  | retryAfter (scope : OutboundScope) (duration : Nat)
  | transient
  | permanent
  deriving DecidableEq

/-- mirrors outbox.rs:297-309 -/
structure OutboxWorkerSettings where
  worker : OutboxWorkerId
  maxInFlight : NonZeroUsize
  leaseFor : Nat
  schedulerRetryDelay : Nat
  transientBackoffBase : Nat
  transientBackoffMax : Nat

/-- The largest `Duration` and one more. -/
def durationSize : Nat := 2 ^ 64 * 10 ^ 9

/-- The loop of `transient_backoff`. -/
def backoffLoop (cap : Nat) : Nat → Nat → Nat
  | 0, delay => min delay cap
  | n + 1, delay =>
    let doubled := if 2 * delay < durationSize then 2 * delay else cap
    if cap ≤ doubled then cap else backoffLoop cap n doubled

/-- mirrors outbox.rs:665-673 -/
def OutboxWorkerSettings.transientBackoff (settings : OutboxWorkerSettings) (attempt : Nat) : Nat :=
  backoffLoop settings.transientBackoffMax (attempt - 1) settings.transientBackoffBase

/-- The mutation that ends an execution. -/
inductive Settlement where
  | complete
  | fail (kind : OutboxFailureKind)
  | reschedule (retry : OutboxRetry)
  deriving DecidableEq

/-- The call of the store behind a settlement. -/
def Settlement.apply (settlement : Settlement) (s : InMemoryState) (id : OutboxId) (lease : OutboxLease) (now : Nat) :
    InMemoryState × Except InMemoryOutboxError Unit :=
  match settlement with
  | .complete => s.complete id lease now
  | .fail kind => s.fail id lease kind now
  | .reschedule retry => s.reschedule id lease retry now

/-- mirrors outbox.rs:640-663 -/
def retryOrFail (attempt maxAttempts : Nat) (failure : OutboxFailureKind) (delay now : Nat) : Settlement :=
  if maxAttempts ≤ attempt then .fail .exhausted else .reschedule ⟨addOrStay now delay, failure⟩

/-- Where `execute_claimed` waits. -/
inductive Stage where
  /-- for the scheduler -/
  | acquiring
  /-- for `begin_attempt` -/
  | starting
  /-- for the permit to be given back: no attempts are left -/
  | exhausted
  /-- between `begin_attempt` and the call of the executor -/
  | invoking (attempt : Nat)
  /-- for the executor -/
  | executing (attempt : Nat)
  /-- for the permit to be completed -/
  | releasing (attempt : Nat) (result : Except OutboxExecutionError Unit)
  /-- for the last mutation of the store -/
  | settling (settlement : Settlement)

/-- One call of `execute_claimed`; `lease` is the snapshot of the heartbeat. -/
structure Execution where
  request : ClaimedOutboxRequest
  settings : OutboxWorkerSettings
  lease : OutboxLease
  stage : Stage

namespace Execution

/-- mirrors outbox.rs:528-566 -/
def acquired (x : Execution) (outcome : Except OutboundAcquireError Unit) (now : Nat) : Stage :=
  match outcome with
  | .ok () => .starting
  | .error e =>
    if e.isTransient then
      .settling (retryOrFail x.request.attempt x.request.maxAttempts.val .schedulerUnavailable
        x.settings.schedulerRetryDelay now)
    else .settling (.fail .permanent)

/-- mirrors outbox.rs:592-637 -/
def released (x : Execution) (attempt : Nat) (result : Except OutboxExecutionError Unit) (now : Nat) : Settlement :=
  match result with
  | .ok () => .complete
  | .error (.retryAfter _ duration) => retryOrFail attempt x.request.maxAttempts.val .retryAfter duration now
  | .error .transient =>
    retryOrFail attempt x.request.maxAttempts.val .transient (x.settings.transientBackoff attempt) now
  | .error .permanent => .fail .permanent

end Execution

/-- What the workers, their scheduler, their executors and the application do. -/
inductive WorkAction where
  | enqueue (request : NewOutboxRequest) (now : Nat)
  | armFailure (now : Nat)
  | runOnce (settings : OutboxWorkerSettings) (readAt now : Nat)
  | acquired (token : Nat) (outcome : Except OutboundAcquireError Unit) (now : Nat)
  | heartbeat (token now : Nat)
  | beginAttempt (token now : Nat)
  | invoke (token now : Nat)
  | executed (token : Nat) (result : Except OutboxExecutionError Unit) (now : Nat)
  | released (token now : Nat)
  | settle (token now : Nat)
  | crash (token now : Nat)

/-- `op (some token) e` is a store operation of the execution `token`. The
execution has returned `Ok` when it is a `settled` that succeeded, and an error
when a `renewed`, `began` or `settled` failed. -/
inductive WorkEvent where
  | op (by' : Option Nat) (e : StoreEvent)
  | acquired (token : Nat) (id : OutboxId) (outcome : Except OutboundAcquireError Unit)
  | invoked (token : Nat) (request : ClaimedOutboxRequest)
  | executed (token : Nat) (result : Except OutboxExecutionError Unit)
  | released (token : Nat)
  | crashed (token : Nat)

def WorkAction.now : WorkAction → Nat
  | .enqueue _ now | .armFailure now | .runOnce _ _ now | .acquired _ _ now | .heartbeat _ now | .beginAttempt _ now
  | .invoke _ now | .executed _ _ now | .released _ now | .settle _ now | .crash _ now => now

/-- The execution an action belongs to. -/
def WorkAction.token : WorkAction → Option Nat
  | .acquired token _ _ | .heartbeat token _ | .beginAttempt token _ | .invoke token _ | .executed token _ _
  | .released token _ | .settle token _ | .crash token _ => some token
  | .enqueue .. | .armFailure _ | .runOnce .. => none

structure WorkSys where
  store : InMemoryState
  executions : Table Nat Execution
  clock : Nat

namespace WorkSys

/-- The execution goes on to another stage. -/
def goto (x : WorkSys) (token : Nat) (run : Execution) (stage : Stage) : WorkSys :=
  { x with executions := x.executions.insert token { run with stage := stage } }

/-- The execution is over. -/
def drop (x : WorkSys) (token : Nat) : WorkSys := { x with executions := x.executions.erase token }

/-- An execution for every claimed record. -/
def spawn (settings : OutboxWorkerSettings) (claims : List ClaimedOutboxRequest) (t : Table Nat Execution) :
    Table Nat Execution :=
  claims.foldl (fun t c => t.insert c.lease.token ⟨c, settings, c.lease, .acquiring⟩) t

/-- The heartbeat of an execution that waits; an error ends the execution.
mirrors outbox.rs:368-394 -/
def renew (x : WorkSys) (token : Nat) (run : Execution) (now : Nat) : WorkSys × WorkEvent :=
  let r := x.store.renewLease run.request.id run.lease (addOrStay now run.settings.leaseFor) now
  let x := { x with store := r.1 }
  (match r.2 with
    | .ok lease => { x with executions := x.executions.insert token { run with lease := lease } }
    | .error _ => x.drop token,
    .op (some token) (.renewed run.request.id run.lease r.2))

/-- mirrors outbox.rs:568-585 -/
def beginAttempt (x : WorkSys) (token : Nat) (run : Execution) (now : Nat) : WorkSys × WorkEvent :=
  let r := x.store.beginAttempt run.request.id run.lease now
  let x := { x with store := r.1 }
  (match r.2 with
    | .ok (.started attempt) => x.goto token run (.invoking attempt)
    | .ok .exhausted => x.goto token run .exhausted
    | .error _ => x.drop token,
    .op (some token) (.began run.request.id run.lease r.2))

/-- The last mutation, after which the execution returns. -/
def settle (x : WorkSys) (token : Nat) (run : Execution) (settlement : Settlement) (now : Nat) :
    WorkSys × WorkEvent :=
  let r := settlement.apply x.store run.request.id run.lease now
  ({ x with store := r.1 }.drop token, .op (some token) (.settled run.request.id run.lease r.2))

/-- The next step of an execution. -/
def advance (x : WorkSys) (token : Nat) (run : Execution) : WorkAction → Option (WorkSys × WorkEvent)
  | .acquired _ outcome now =>
    match run.stage with
    | .acquiring =>
      some (x.goto token run (run.acquired outcome now), .acquired token run.request.id outcome)
    | _ => none
  | .heartbeat _ now =>
    match run.stage with
    | .invoking _ => none
    | _ => some (x.renew token run now)
  | .beginAttempt _ now =>
    match run.stage with
    | .starting => some (x.beginAttempt token run now)
    | _ => none
  | .invoke _ _ =>
    match run.stage with
    | .invoking attempt =>
      some (x.goto token run (.executing attempt),
        .invoked token { run.request with attempt := attempt, lease := run.lease })
    | _ => none
  | .executed _ result _ =>
    match run.stage with
    | .executing attempt => some (x.goto token run (.releasing attempt result), .executed token result)
    | _ => none
  | .released _ now =>
    match run.stage with
    | .exhausted => some (x.goto token run (.settling (.fail .exhausted)), .released token)
    | .releasing attempt result =>
      some (x.goto token run (.settling (run.released attempt result now)), .released token)
    | _ => none
  | .settle _ now =>
    match run.stage with
    | .settling settlement => some (x.settle token run settlement now)
    | _ => none
  | .crash _ _ => some (x.drop token, .crashed token)
  | .enqueue .. | .armFailure _ | .runOnce .. => none

/-- A call by the application or by a worker that polls.
mirrors outbox.rs:441-464 -/
def poll (x : WorkSys) : WorkAction → Option (WorkSys × WorkEvent)
  | .enqueue request now =>
    (x.store.act (.enqueue request now)).map fun r => ({ x with store := r.1 }, .op none r.2)
  | .armFailure now => (x.store.act (.armFailure now)).map fun r => ({ x with store := r.1 }, .op none r.2)
  | .runOnce settings readAt now =>
    if settings.leaseFor = 0 ∨ now < readAt then none
    else
      (x.store.claimDue settings.worker readAt settings.leaseFor settings.maxInFlight).map fun r =>
        ({ x with store := r.1, executions := spawn settings r.2 x.executions }, .op none (.claimed r.2))
  | _ => none

def step (x : WorkSys) (a : WorkAction) : Option (WorkSys × WorkEvent) :=
  if a.now < x.clock then none
  else
    let r := match a.token with
      | none => x.poll a
      | some token => (x.executions.lookup token).bind fun run => x.advance token run a
    r.map fun r => ({ r.1 with clock := a.now }, r.2)

end WorkSys

/-- Any number of workers over one store. -/
def outboxWorkers : Machine WorkSys WorkAction WorkEvent where
  init x := x.store = .empty ∧ x.executions = ∅
  step := WorkSys.step

abbrev WorkRun (τ : List WorkEvent) (x : WorkSys) : Prop := outboxWorkers.Run Machine.anything τ x

end Teloxide.Outbox
