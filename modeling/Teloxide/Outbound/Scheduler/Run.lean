import Teloxide.Core.Machine
import Teloxide.Outbound.Scheduler.Complete

/-!
# Runs of the scheduler

The scheduler as a state machine: the calls of its owner at non-decreasing
instants, in any order. A grant pass is cut into its turns, one popped candidate
entry each, so that what is said of every step of a run is said of every
candidate of every pass.

The events of a run are what its caller sees: the outcomes, the grants, the
verdicts on the other candidates.
-/
namespace Teloxide.Outbound

open Teloxide.Core

/-- What the owner of the scheduler calls. `order` and `fuel` are the choices
and the bound that the model leaves open (see `beginPass`, `setLimits`). -/
inductive Action where
  | enqueue (metadata : OutboundMeta) (options : EnqueueOptions)
  | cancel (job : JobId) (now : Nat)
  | start (job : JobId) (now : Nat)
  | complete (job : JobId) (completion : OutboundCompletion) (now observedAt : Nat)
  | penalize (scope : OutboundScope) (deadline now : Nat)
  | setLimits (limits : OutboundLimits) (order : List CandidateRef) (now : Nat)
  | setClassLimits (limits : OutboundClassLimits) (order : List CandidateRef) (now : Nat)
  | nextDeadline (now : Nat)
  | beginPass (order : List WindowRef) (fuel now : Nat)
  | turn (now : Nat)
  | endPass (now : Nat)

inductive Event where
  | enqueued (metadata : OutboundMeta) (options : EnqueueOptions) (outcome : EnqueueOutcome)
  | rejected (metadata : OutboundMeta) (options : EnqueueOptions) (error : EnqueueError)
  | cancelled (job : JobId) (now : Nat)
  | started (job : JobId) (now : Nat)
  | completed (job : JobId) (completion : OutboundCompletion) (now : Nat)
  | penalized (scope : OutboundScope) (deadline now : Nat)
  | limited (result : Except SchedulerConfigError Unit) (now : Nat)
  | woke (wakeup : SchedulerWakeup) (now : Nat)
  | began (now : Nat)
  | skipped (now : Nat)
  | granted (grant : Grant) (metadata : OutboundMeta) (now : Nat)
  | held (candidate : Candidate) (verdict : Admission) (now : Nat)
  | ended (now : Nat)

/-- The scheduler, the latest instant it was called at, and the instant of the
grant pass that is under way. -/
structure Sys where
  sched : SchedulerState
  clock : Nat
  pass : Option Nat

def Action.now : Action → Nat
  | .enqueue _ options => options.now
  | .cancel _ now | .start _ now | .complete _ _ now _ | .penalize _ _ now | .setLimits _ _ now
  | .setClassLimits _ _ now | .nextDeadline now | .beginPass _ _ now | .turn now | .endPass now => now

namespace SchedulerState

/-- A call that is not part of a grant pass. -/
def call (s : SchedulerState) : Action → Option (SchedulerState × Event)
  | .enqueue metadata options =>
    match s.enqueue metadata options with
    | (s, .ok outcome) =>
      -- the last id overflows `next_job_id += 1`
      if outcome.job + 1 < u64Size then some (s, .enqueued metadata options outcome) else none
    | (s, .error e) => some (s, .rejected metadata options e)
  | .cancel job now => some (s.cancel job now, .cancelled job now)
  | .start job now => some (s.start job now, .started job now)
  | .complete job completion now observedAt =>
    some (s.complete job completion now observedAt, .completed job completion now)
  | .penalize scope deadline now => some (s.penalize scope deadline, .penalized scope deadline now)
  | .setLimits limits order now =>
    if order.Perm s.waitingReferences then
      some ((s.setLimits limits order now).1, .limited (s.setLimits limits order now).2 now)
    else none
  | .setClassLimits limits order now =>
    if order.Perm s.waitingReferences then
      some ((s.setClassLimits limits order now).1, .limited (s.setClassLimits limits order now).2 now)
    else none
  | .nextDeadline now => some ((s.nextDeadline now).1, .woke (s.nextDeadline now).2 now)
  | .beginPass .. | .turn _ | .endPass _ => none

/-- One turn of the loop of `grant_ready`. -/
def turn (s : SchedulerState) (now : Nat) : Option (SchedulerState × Event) :=
  match s.popTurn now with
  | none => none
  | some (.skipped s) => some (s, .skipped now)
  | some (.popped s c) =>
    match s.visit c now, s.jobs.lookup c.job with
    | (_, _), none => none
    | (s, .pass), some job => some (s, .granted ⟨c.job, job.correlationId⟩ job.metadata now)
    | (s, verdict), some _ => some (s, .held c verdict now)

end SchedulerState

/-- One step; instants do not go back, and a pass that has begun is ended before
the next call. -/
def step (x : Sys) (a : Action) : Option (Sys × Event) :=
  if a.now < x.clock then none
  else
    match x.pass, a with
    | none, .beginPass order fuel now =>
      (x.sched.beginPass order fuel now).map fun s => (⟨s, now, some now⟩, .began now)
    | none, a => (x.sched.call a).map fun r => (⟨r.1, a.now, none⟩, r.2)
    | some t, .turn now =>
      if now = t then (x.sched.turn now).map fun r => (⟨r.1, now, some t⟩, r.2) else none
    | some t, .endPass now =>
      if now = t ∧ x.sched.candidates.peek = none then
        some (⟨x.sched.endPass now, now, none⟩, .ended now)
      else none
    | some _, _ => none

/-- The scheduler, from every configuration it can be built with. -/
def scheduler : Machine Sys Action Event where
  init x := x.pass = none ∧ ∃ limits classLimits aging,
    SchedulerState.newWithClassLimits limits classLimits aging = .ok x.sched
  step := step

/-- The runs of the scheduler whose steps all meet `ok`, newest event first. -/
abbrev Run (ok : Sys → Action → Prop) (τ : List Event) (x : Sys) : Prop := scheduler.Run ok τ x

/-- The grants of a run, newest first. -/
def grants : List Event → List Grant
  | [] => []
  | .granted g _ _ :: τ => g :: grants τ
  | _ :: τ => grants τ

/-! ## Small runs

Concrete configurations and requests, for the runs that show a theorem's
hypotheses met or a claim's edge.
-/

/-- A scheduler with some global windows `(capacity, length)` and nothing else;
priorities grow by one each 1000 ns. -/
def Sys.fresh (windows : List (Nat × Nat)) : Sys where
  sched := .initial ⟨windows.map fun w => ⟨w.1, w.2, .any⟩, []⟩ ⟨[], []⟩ ⟨1000, 255⟩
  clock := 0
  pass := none

theorem Sys.fresh_init {windows : List (Nat × Nat)} (h : windows.all (·.2 != 0) = true) :
    scheduler.init (Sys.fresh windows) := by
  refine ⟨rfl, ⟨windows.map fun w => ⟨w.1, w.2, .any⟩, []⟩, ⟨[], []⟩, ⟨1000, 255⟩, ?_⟩
  have hz : ((windows.map fun w => (⟨w.1, w.2, .any⟩ : WindowLimit)).any (·.window == 0)) = false := by
    simpa using h
  have hk : ((windows.map fun w => (⟨w.1, w.2, .any⟩ : WindowLimit)).any (·.kind != .any)) = false := by
    simp
  simp [SchedulerState.newWithClassLimits, Sys.fresh, hz, hk, HIGHEST, LOWEST]

/-- A request of the global scope. -/
def OutboundMeta.plain (priority : Fin 256) (lane : Option OutboundLaneKey) : OutboundMeta :=
  ⟨.global, lane, 0, priority, ⟨1, one_nonZero⟩⟩

/-- Options of a first-in first-out request. -/
def EnqueueOptions.plain (now : Nat) : EnqueueOptions := ⟨.serial, .fifo, 100, none, now, none⟩

/-- A whole grant pass of so many turns. -/
def Action.pass (now : Nat) (order : List WindowRef) (turns : Nat) : List Action :=
  .beginPass order 9 now :: List.replicate turns (.turn now) ++ [.endPass now]

/-- Executing actions from a start state is a run. -/
theorem run_of_actions {ok : Sys → Action → Prop} [∀ x a, Decidable (ok x a)] {x : Sys}
    (hi : scheduler.init x) {as : List Action} {τ : List Event} {x' : Sys}
    (h : scheduler.exec ok [] x as = some (τ, x')) : Run ok τ x' :=
  Machine.run_of_exec (.start hi) h

end Teloxide.Outbound
