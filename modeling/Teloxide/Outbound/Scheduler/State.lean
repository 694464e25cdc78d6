import Teloxide.Core.Heap
import Teloxide.Core.Table
import Teloxide.Outbound.Window

/-!
# The scheduler state

The data of `SchedulerState`
(`crates/teloxide-core/src/outbound/scheduler.rs`): the jobs, the four heaps,
the lanes, the window reservations, the rate windows and the counters.

* Each heap pops in the order of the `Ord` of its entries; the orders are
  total and identify no two entries (`Std.Total`, `IsTrans` below).
* `panicked` is not a field of the source. It records that an `expect`, a
  `debug_assert!` or an unsigned subtraction has failed: where the source stops
  there, the model raises the flag and goes on with the value a release build
  would take (a subtraction stops at zero).
* `meta`, `until` and `at` are `metadata`, `deadline` and `instant` here.
-/
namespace Teloxide.Outbound

open Teloxide.Core

/-- mirrors scheduler.rs:41 (a year) -/
def BLOCKED_FOREVER_DELAY : Nat := 365 * 24 * 3600 * 10 ^ 9

/-- `u64::wrapping_add(1)`. -/
def wrappingSucc (n : Nat) : Nat := (n + 1) % u64Size

/-! ## References and heap entries -/

/-- mirrors scheduler.rs:395-400 -/
inductive CandidateRef where
  | job (id : JobId)
  | lane (key : OutboundLaneKey)
  deriving DecidableEq, Repr

namespace CandidateRef

/-- The derived `Ord`: the variant first, then its key. -/
def variant : CandidateRef → Nat
  | job _ => 0
  | lane _ => 1

def key : CandidateRef → Nat
  | job id => id
  | lane key => key

def le (a b : CandidateRef) : Prop := a.variant < b.variant ∨ a.variant = b.variant ∧ a.key ≤ b.key

instance (a b : CandidateRef) : Decidable (a.le b) := inferInstanceAs (Decidable (_ ∨ _))

end CandidateRef

/-- mirrors scheduler.rs:402-410 -/
structure CandidateKey where
  effective : Nat
  sequence : Nat
  reference : CandidateRef
  deriving DecidableEq, Repr

/-- A max-heap: the highest effective priority first, then the least sequence.
mirrors scheduler.rs:412-419 -/
def CandidateKey.before (a b : CandidateKey) : Prop :=
  b.effective < a.effective ∨ b.effective = a.effective ∧
    (a.sequence < b.sequence ∨ a.sequence = b.sequence ∧ b.reference.le a.reference)

instance (a b : CandidateKey) : Decidable (a.before b) := by
  unfold CandidateKey.before; infer_instance

instance : Std.Total CandidateKey.before where
  total a b := by unfold CandidateKey.before CandidateRef.le; omega

instance : IsTrans CandidateKey CandidateKey.before where
  trans a b c := by unfold CandidateKey.before CandidateRef.le; omega

/-- mirrors scheduler.rs:162-166 -/
structure DelayedJob where
  notBefore : Nat
  sequence : Nat
  job : JobId
  deriving DecidableEq, Repr

/-- mirrors scheduler.rs:168-175 -/
def DelayedJob.before (a b : DelayedJob) : Prop :=
  a.notBefore < b.notBefore ∨ a.notBefore = b.notBefore ∧
    (a.sequence < b.sequence ∨ a.sequence = b.sequence ∧ a.job ≤ b.job)

instance (a b : DelayedJob) : Decidable (a.before b) := by
  unfold DelayedJob.before; infer_instance

instance : Std.Total DelayedJob.before where
  total a b := by unfold DelayedJob.before JobId; omega

instance : IsTrans DelayedJob DelayedJob.before where
  trans a b c := by unfold DelayedJob.before JobId; omega

/-- mirrors scheduler.rs:441-456 -/
structure BlockedJob where
  deadline : Nat
  permanent : Bool
  generation : Nat
  reference : CandidateRef
  deriving DecidableEq, Repr

/-- Finite deadlines come before permanent nodes.
mirrors scheduler.rs:458-469 -/
def BlockedJob.before (a b : BlockedJob) : Prop :=
  a.permanent.toNat < b.permanent.toNat ∨ a.permanent.toNat = b.permanent.toNat ∧
    (a.deadline < b.deadline ∨ a.deadline = b.deadline ∧
      (a.generation < b.generation ∨ a.generation = b.generation ∧ a.reference.le b.reference))

instance (a b : BlockedJob) : Decidable (a.before b) := by
  unfold BlockedJob.before; infer_instance

instance : Std.Total BlockedJob.before where
  total a b := by unfold BlockedJob.before CandidateRef.le; omega

instance : IsTrans BlockedJob BlockedJob.before where
  trans a b c := by unfold BlockedJob.before CandidateRef.le; omega

/-- mirrors scheduler.rs:477-484 -/
structure AgingEvent where
  instant : Nat
  reference : CandidateRef
  deriving DecidableEq, Repr

/-- The derived `Ord`. -/
def AgingEvent.before (a b : AgingEvent) : Prop :=
  a.instant < b.instant ∨ a.instant = b.instant ∧ a.reference.le b.reference

instance (a b : AgingEvent) : Decidable (a.before b) := by
  unfold AgingEvent.before; infer_instance

instance : Std.Total AgingEvent.before where
  total a b := by unfold AgingEvent.before CandidateRef.le; omega

instance : IsTrans AgingEvent AgingEvent.before where
  trans a b c := by unfold AgingEvent.before CandidateRef.le; omega

/-- An entry `(u64, JobId)` of a lane's pending set. -/
structure LaneEntry where
  order : Nat
  job : JobId
  deriving DecidableEq, Repr

/-- The order of the pairs. -/
def LaneEntry.before (a b : LaneEntry) : Prop := a.order < b.order ∨ a.order = b.order ∧ a.job ≤ b.job

instance (a b : LaneEntry) : Decidable (a.before b) := by
  unfold LaneEntry.before; infer_instance

instance : Std.Total LaneEntry.before where
  total a b := by unfold LaneEntry.before JobId; omega

instance : IsTrans LaneEntry LaneEntry.before where
  trans a b c := by unfold LaneEntry.before JobId; omega

/-! ## Jobs, lanes, reservations -/

/-- mirrors scheduler.rs:486-495 -/
inductive WindowRef where
  | global
  | classGlobal (cls : OutboundClass)
  | chat (key : OutboundChatKey)
  | classChat (key : OutboundChatKey) (cls : OutboundClass)
  deriving DecidableEq, Repr

/-- mirrors scheduler.rs:191-202 -/
structure InternalCoalesceKey where
  scope : OutboundScope
  lane : Option OutboundLaneKey
  cls : OutboundClass
  userKey : Nat
  deriving DecidableEq, Repr

/-- mirrors scheduler.rs:51-59 -/
structure InFlight where
  lane : Option OutboundLaneKey
  scope : OutboundScope
  cls : OutboundClass
  weight : Nat
  deriving DecidableEq, Repr

/-- mirrors scheduler.rs:71-107 -/
structure Job where
  metadata : OutboundMeta
  correlationId : Option OutboundCorrelationId
  sequence : Nat
  readyAt : Nat
  notBefore : Option Nat
  coalesceKey : Option InternalCoalesceKey
  laneOrder : Option Nat
  inCandidateHeap : Bool
  candidateEffective : Nat
  inBlockedHeap : Bool
  parkedIn : Option WindowRef
  reservationOwner : Option WindowRef
  deriving DecidableEq

/-- mirrors scheduler.rs:109-144 -/
structure LaneState where
  pending : Heap LaneEntry.before
  mode : OutboundLaneMode
  inFlight : Option JobId
  inFlightCount : Nat
  nextOrder : Nat
  stale : Nat
  inCandidateHeap : Bool
  inBlockedHeap : Bool
  blockedGeneration : Nat
  candidateEffective : Nat

namespace LaneState

/-- mirrors scheduler.rs:147-149 -/
def hasCapacity (l : LaneState) : Bool := l.mode.hasCapacity l.inFlightCount

/-- No permit of the lane is out: the match of `is_idle`. -/
def free (l : LaneState) : Bool :=
  match l.mode with
  | .boundedOrderedStart _ => l.inFlightCount == 0
  | .serial | .orderedStart => l.inFlight.isNone

/-- mirrors scheduler.rs:151-159 -/
def isIdle (l : LaneState) : Bool := l.pending.isEmpty && l.free

/-- Some pending entry is of a job that still exists. -/
def anyLive (live : JobId → Bool) (l : LaneState) : Bool := l.pending.entries.any (live ·.job)

/-- The loops that pop dead entries off the front of the pending set. -/
def drainDead (live : JobId → Bool) (l : LaneState) : LaneState :=
  { l with pending := l.pending.dropWhile (!live ·.job)
           stale := l.stale - (l.pending.entries.takeWhile (!live ·.job)).length }

/-- `drainDead` does not take `stale` below zero. -/
def drainFits (live : JobId → Bool) (l : LaneState) : Bool :=
  (l.pending.entries.takeWhile (!live ·.job)).length ≤ l.stale

end LaneState

/-- `deadline` is `until`, the end of the hold.
mirrors scheduler.rs:497-514 -/
structure Reservation where
  owner : Option CandidateRef
  deadline : Nat
  queue : List CandidateRef
  stale : Nat
  deriving DecidableEq, Repr

/-- mirrors scheduler.rs:380-384 -/
inductive PenaltyKey where
  | global
  | chat (key : OutboundChatKey)
  deriving DecidableEq, Repr

/-- The match at the head of `penalize`. -/
def PenaltyKey.ofScope : OutboundScope → PenaltyKey
  | .global => .global
  | .chat key => .chat key

/-- mirrors scheduler.rs:386-393 -/
structure Candidate where
  job : JobId
  weight : NonZeroU32
  scope : OutboundScope
  deriving DecidableEq

/-- mirrors scheduler.rs:516-531 -/
inductive Admission where
  | pass
  | blocked (deadline : Nat) (reserve : Option WindowRef)
  | blockedForever
  | reserved
  deriving DecidableEq, Repr

/-- mirrors scheduler.rs:61-69 -/
structure EnqueueOptions where
  laneMode : OutboundLaneMode
  mode : OutboundEnqueueMode
  queueCapacity : Nat
  notBefore : Option Nat
  now : Nat
  correlationId : Option OutboundCorrelationId
  deriving DecidableEq

/-- mirrors scheduler.rs:543-582 -/
structure SchedulerState where
  jobs : Table JobId Job
  candidates : Heap CandidateKey.before
  blocked : Heap BlockedJob.before
  agingEvents : Heap AgingEvent.before
  reservations : Table WindowRef Reservation
  delayed : Heap DelayedJob.before
  lanes : Table OutboundLaneKey LaneState
  coalesce : Table InternalCoalesceKey JobId
  globalWindows : WindowSet
  chatWindowSets : Table OutboundChatKey WindowSet
  classGlobalWindows : Table OutboundClass WindowSet
  classChatWindowSets : Table (OutboundChatKey × OutboundClass) WindowSet
  classLimits : OutboundClassLimits
  penalties : Table PenaltyKey Nat
  inFlight : Table JobId InFlight
  staleCandidates : Nat
  staleBlocked : Nat
  staleDelayed : Nat
  nextSequence : Nat
  nextJobId : Nat
  aging : AgingPolicy
  chatLimits : List WindowLimit
  globalLimits : List WindowLimit
  panicked : Bool

/-- mirrors scheduler.rs:427-439 -/
def classWindowSets (limits : List OutboundClassWindowLimit) : Table OutboundClass WindowSet :=
  limits.foldl (fun sets limit => sets.insert limit.cls (.newClass limits limit.cls)) ∅

/-- mirrors scheduler.rs:535-541 -/
def effectivePriority (job : Job) (aging : AgingPolicy) (now : Nat) : Nat :=
  let waited := now - job.readyAt
  let boost := min (waited / max aging.quantum 1) aging.maxBoost.val
  min (job.metadata.priority.val + boost) HIGHEST

namespace SchedulerState

/-- Records a failed check. -/
def check (ok : Bool) (s : SchedulerState) : SchedulerState := { s with panicked := s.panicked || !ok }

/-- `self.jobs.contains_key(&id)`. -/
def live (s : SchedulerState) (id : JobId) : Bool := s.jobs.contains id

/-- The state `new_with_class_limits` builds from validated settings.
mirrors scheduler.rs:627-655 -/
def initial (limits : OutboundLimits) (classLimits : OutboundClassLimits) (aging : AgingPolicy) :
    SchedulerState where
  jobs := ∅
  candidates := .empty
  blocked := .empty
  agingEvents := .empty
  reservations := ∅
  delayed := .empty
  lanes := ∅
  coalesce := ∅
  globalWindows := .new limits.global .any
  chatWindowSets := ∅
  classGlobalWindows := classWindowSets classLimits.global
  classChatWindowSets := ∅
  classLimits := classLimits
  penalties := ∅
  inFlight := ∅
  staleCandidates := 0
  staleBlocked := 0
  staleDelayed := 0
  nextSequence := 0
  nextJobId := 0
  aging := aging
  chatLimits := limits.chat
  globalLimits := limits.global
  panicked := false

/-- mirrors scheduler.rs:593-656 -/
def newWithClassLimits (limits : OutboundLimits) (classLimits : OutboundClassLimits)
    (aging : AgingPolicy) : Except SchedulerConfigError SchedulerState :=
  if (limits.global ++ limits.chat).any (·.window == 0) then .error .zeroWindowDuration
  else if limits.global.any (·.kind != .any) then .error .kindSpecificGlobalWindow
  else if (classLimits.global ++ classLimits.chat).any (·.window == 0) then .error .zeroWindowDuration
  else if aging.quantum == 0 then .error .zeroAgingQuantum
  else if aging.maxBoost.val < HIGHEST - LOWEST then
    .error (.agingCannotReachHighest aging.maxBoost.val)
  else .ok (initial limits classLimits aging)

end SchedulerState

end Teloxide.Outbound
