import Teloxide.Outbound.Scheduler.Queue

/-!
# Enqueueing

`enqueue_with_lane_mode_and_correlation`, the global sequence counter with its
rebase, and the lane order counter
(`crates/teloxide-core/src/outbound/scheduler.rs:731-1032` and `1337-1384`).

A rejected request can still have used up a sequence number: the number is
taken before the backlog bound is checked.
-/
namespace Teloxide.Outbound

open Teloxide.Core

/-! ## Weights against capacities -/

/-- The capacities of the per-chat windows that apply to a scope. -/
def chatCapacities (limits : List WindowLimit) : OutboundScope → List Nat
  | .global => []
  | .chat key =>
    (limits.filter fun limit => limit.kind == .any || limit.kind == key.windowChatKind).map (·.capacity)

/-- The capacities of the windows of one class. -/
def classCapacities (limits : List OutboundClassWindowLimit) (cls : OutboundClass) : List Nat :=
  (limits.filter (·.cls == cls)).map (·.capacity)

/-- The capacities of the class-chat windows that apply to a request. -/
def classChatCapacities (limits : List OutboundClassWindowLimit) (cls : OutboundClass) :
    OutboundScope → List Nat
  | .global => []
  | .chat _ => classCapacities limits cls

/-- The first positive capacity below the weight; capacity zero is a pause. -/
def exceeded (weight : Nat) (capacities : List Nat) : Option Nat :=
  capacities.find? fun capacity => capacity != 0 && decide (capacity < weight)

/-- What a new job takes over: its sequence number, and, from a job it
replaces, the age, the lane position and the id it supersedes. -/
structure Slot where
  sequence : Nat
  readyAt : Option Nat
  laneOrder : Option Nat
  superseded : Option JobId

/-- mirrors scheduler.rs:1344-1354 -/
def LaneState.new (mode : OutboundLaneMode) : LaneState where
  pending := .empty
  mode := mode
  inFlight := none
  inFlightCount := 0
  nextOrder := 0
  stale := 0
  inCandidateHeap := false
  inBlockedHeap := false
  blockedGeneration := 0
  candidateEffective := 0

/-- The pending set numbered from zero in its order.
mirrors scheduler.rs:1364-1374 -/
def LaneState.renumber (l : LaneState) : LaneState :=
  { l with pending := .ofList (l.pending.entries.mapIdx fun i e => ⟨i, e.job⟩)
           nextOrder := l.pending.len }

namespace SchedulerState

/-! ## The global sequence counter -/

/-- The lane arm of the rebuild: the entry takes the sequence of the first live
job of the lane. -/
def rekeyLane (s : SchedulerState) (key : CandidateKey) (lane : OutboundLaneKey) :
    SchedulerState × Option CandidateKey :=
  match s.lanes.lookup lane with
  | none => (s, none)
  | some l =>
    let drained := l.drainDead s.live
    let s := s.check (l.drainFits s.live)
    match drained.pending.peek.bind fun head => s.jobs.lookup head.job with
    | some job =>
      ({ s with lanes := s.lanes.insert lane drained }, some { key with sequence := job.sequence })
    | none =>
      if drained.isIdle then ({ s with lanes := s.lanes.erase lane }, none)
      else
        let cleared := { drained with inCandidateHeap := false, candidateEffective := 0 }
        ({ s with lanes := s.lanes.insert lane cleared }, none)

def rekey (s : SchedulerState) (key : CandidateKey) : SchedulerState × Option CandidateKey :=
  match key.reference with
  | .job id => (s, (s.jobs.lookup id).map fun job => { key with sequence := job.sequence })
  | .lane lane => s.rekeyLane key lane

/-- The rebuild of the candidate heap. An entry touches its own lane only, so
the order in which the heap is drained does not show. -/
def rekeyAll : SchedulerState → List CandidateKey → SchedulerState × List CandidateKey
  | s, [] => (s, [])
  | s, key :: keys =>
    ((rekeyAll (s.rekey key).1 keys).1, (s.rekey key).2.toList ++ (rekeyAll (s.rekey key).1 keys).2)

/-- The sequence numbers of the pending jobs. -/
def sequences (s : SchedulerState) : List Nat := s.jobs.values.map (·.sequence)

/-- The index of a sequence number in the sorted list of all of them (the last
one, where it occurs more than once). -/
def rank (sequences : List Nat) (sequence : Nat) : Nat := sequences.countP (· ≤ sequence) - 1

/-- Every job with the rank of its sequence number for a number. -/
def rankSequences (s : SchedulerState) : SchedulerState :=
  { s with jobs := s.jobs.mapValues fun job => { job with sequence := rank s.sequences job.sequence } }

/-- The branch of `rebase_sequences` taken when a job holds sequence 0. -/
def renumberSequences (s : SchedulerState) : SchedulerState :=
  let delayed := s.delayed.entries.filterMap fun d =>
    (s.rankSequences.jobs.lookup d.job).map fun job => { d with sequence := job.sequence }
  let r := s.rankSequences.rekeyAll s.candidates.entries
  { r.1 with
    delayed := .ofList delayed
    staleDelayed := 0
    candidates := .ofList r.2
    nextSequence := s.sequences.length }

/-- The other branch: every number is lowered by the least one. -/
def shiftSequences (s : SchedulerState) (least : Nat) : SchedulerState :=
  { s.check (s.delayed.entries.all (least ≤ ·.sequence) && s.candidates.entries.all (least ≤ ·.sequence))
    with
    jobs := s.jobs.mapValues fun job => { job with sequence := job.sequence - least }
    delayed := .ofList (s.delayed.entries.map fun d => { d with sequence := d.sequence - least })
    candidates := .ofList (s.candidates.entries.map fun k => { k with sequence := k.sequence - least })
    nextSequence := (s.sequences.foldl max 0 - least) + 1 }

/-- mirrors scheduler.rs:920-1032 -/
def rebaseSequences (s : SchedulerState) : SchedulerState :=
  match s.sequences.min? with
  | none => { s with nextSequence := 0 }
  | some least => if least = 0 then s.renumberSequences else s.shiftSequences least

/-- mirrors scheduler.rs:911-918 -/
def takeSequence (s : SchedulerState) : SchedulerState × Nat :=
  let s := if s.nextSequence = u64Size - 1 then s.rebaseSequences else s
  ({ s with nextSequence := wrappingSucc s.nextSequence }, s.nextSequence)

/-! ## Joining a lane -/

/-- Renumbers the pending set of a lane whose order counter has wrapped. -/
def renumberLane (s : SchedulerState) (lane : OutboundLaneKey) (l : LaneState) : SchedulerState :=
  { s with
    lanes := s.lanes.insert lane l.renumber
    jobs := l.renumber.pending.entries.foldl
      (fun jobs e => jobs.modify e.job fun job => { job with laneOrder := some e.order }) s.jobs }

/-- The insertion itself, with the order the job is inserted under. -/
def addLaneEntry (s : SchedulerState) (lane : OutboundLaneKey) (l : LaneState) (job : JobId)
    (order : Nat) : SchedulerState × Nat :=
  ({ s with lanes := s.lanes.insert lane { l with pending := l.pending.insert ⟨order, job⟩ } }, order)

/-- mirrors scheduler.rs:1337-1384 -/
def insertLanePending (s : SchedulerState) (lane : OutboundLaneKey) (job : JobId)
    (inheritedOrder : Option Nat) (mode : OutboundLaneMode) : SchedulerState × Nat :=
  let l := (s.lanes.lookup lane).getD (.new mode)
  let s := s.check (l.mode == mode)
  match inheritedOrder with
  | some order => s.addLaneEntry lane l job order
  | none =>
    if l.nextOrder = 0 ∧ l.pending.isEmpty = false then
      (s.renumberLane lane l).addLaneEntry lane
        { l.renumber with nextOrder := wrappingSucc l.renumber.nextOrder } job l.renumber.nextOrder
    else s.addLaneEntry lane { l with nextOrder := wrappingSucc l.nextOrder } job l.nextOrder

/-- The job enters the pending set and learns its order. -/
def enterLane (s : SchedulerState) (lane : OutboundLaneKey) (job : JobId) (inheritedOrder : Option Nat)
    (mode : OutboundLaneMode) : SchedulerState :=
  let r := s.insertLanePending lane job inheritedOrder mode
  { r.1 with jobs := r.1.jobs.modify job fun j => { j with laneOrder := some r.2 } }

/-- When the replaced job is still at the front of the pending set, the lane
gives up its candidate entry for a fresh one.
mirrors scheduler.rs:879-892 -/
def dropHeadKey (s : SchedulerState) (lane : OutboundLaneKey) (superseded : Option JobId) :
    SchedulerState :=
  let replacedHead := superseded.any fun old =>
    (s.lanes.lookup lane).any fun l => l.pending.peek.any (·.job == old)
  if replacedHead then
    { s with lanes := s.lanes.modify lane fun l =>
        { l with inCandidateHeap := false, candidateEffective := 0 } }
  else s

/-- The lane arm of `enqueue`.
mirrors scheduler.rs:876-894 -/
def joinLane (s : SchedulerState) (lane : OutboundLaneKey) (job : JobId) (slot : Slot)
    (options : EnqueueOptions) : SchedulerState :=
  ((s.enterLane lane job slot.laneOrder options.laneMode).dropHeadKey lane slot.superseded
    ).pushLaneHeadCandidate lane options.now

/-! ## `enqueue` -/

/-- The job a latest-wins request replaces.
mirrors scheduler.rs:808-810 -/
def supersededJob (s : SchedulerState) (key : Option InternalCoalesceKey) : Option (JobId × Job) := do
  let old ← s.coalesce.lookup (← key)
  let job ← s.jobs.lookup old
  if s.inFlight.contains old then none else some (old, job)

/-- mirrors scheduler.rs:795-803 -/
def coalesceKeyOf (metadata : OutboundMeta) : OutboundEnqueueMode → Option InternalCoalesceKey
  | .fifo => none
  | .replacePending userKey => some ⟨metadata.scope, metadata.lane, metadata.cls, userKey⟩

/-- The job as it is stored at first. -/
def newJob (metadata : OutboundMeta) (options : EnqueueOptions) (slot : Slot) : Job where
  metadata := metadata
  correlationId := options.correlationId
  sequence := slot.sequence
  readyAt := match options.notBefore, slot.readyAt with
    | none, some readyAt => readyAt
    | _, _ => options.now
  notBefore := options.notBefore
  coalesceKey := coalesceKeyOf metadata options.mode
  laneOrder := match metadata.lane with
    | some _ => slot.laneOrder
    | none => none
  inCandidateHeap := false
  candidateEffective := 0
  inBlockedHeap := false
  parkedIn := none
  reservationOwner := none

/-- The insertion into the map and, for a delayed job, the delayed heap.
mirrors scheduler.rs:839-874 -/
def storeJob (s : SchedulerState) (metadata : OutboundMeta) (options : EnqueueOptions) (slot : Slot) :
    SchedulerState :=
  { s.check (s.nextJobId + 1 < u64Size) with
    nextJobId := s.nextJobId + 1
    jobs := s.jobs.insert s.nextJobId (newJob metadata options slot)
    delayed := match options.notBefore with
      | some notBefore => s.delayed.push ⟨notBefore, slot.sequence, s.nextJobId⟩
      | none => s.delayed }

/-- mirrors scheduler.rs:875-897 -/
def placeJob (s : SchedulerState) (job : JobId) (metadata : OutboundMeta) (options : EnqueueOptions)
    (slot : Slot) : SchedulerState :=
  match metadata.lane with
  | some lane => s.joinLane lane job slot options
  | none => if options.notBefore.isNone then s.pushJobCandidate job options.now else s

/-- mirrors scheduler.rs:898-900 -/
def putCoalesceEntry (s : SchedulerState) (job : JobId) (key : Option InternalCoalesceKey) :
    SchedulerState :=
  match key with
  | some key => { s with coalesce := s.coalesce.insert key job }
  | none => s

/-- mirrors scheduler.rs:839-905 -/
def addJob (s : SchedulerState) (metadata : OutboundMeta) (options : EnqueueOptions) (slot : Slot) :
    SchedulerState × Except EnqueueError EnqueueOutcome :=
  let job := s.nextJobId
  let s := (s.storeJob metadata options slot).placeJob job metadata options slot
  let s := s.putCoalesceEntry job (coalesceKeyOf metadata options.mode)
  (s.compactDelayedIfNeeded.compactCandidateHeapIfNeeded.compactBlockedIfNeeded,
    .ok ⟨job, slot.superseded⟩)

/-- The capacity that makes the weight of a request inadmissible for ever.
mirrors scheduler.rs:738-793 -/
def exceededCapacity (s : SchedulerState) (metadata : OutboundMeta) : Option Nat :=
  exceeded metadata.weight.val
    (s.globalLimits.map (·.capacity) ++ classCapacities s.classLimits.global metadata.cls ++
      chatCapacities s.chatLimits metadata.scope ++
      classChatCapacities s.classLimits.chat metadata.cls metadata.scope)

/-- mirrors scheduler.rs:731-906 -/
def enqueue (s : SchedulerState) (metadata : OutboundMeta) (options : EnqueueOptions) :
    SchedulerState × Except EnqueueError EnqueueOutcome :=
  match s.exceededCapacity metadata with
  | some capacity => (s, .error (.weightExceedsWindow metadata.scope metadata.weight capacity))
  | none =>
    match s.supersededJob (coalesceKeyOf metadata options.mode) with
    | some (old, oldJob) =>
      if oldJob.metadata.weight = metadata.weight then
        (s.removeWaiting old options.now).addJob metadata options
          { sequence := oldJob.sequence
            readyAt := if oldJob.notBefore.isNone then some oldJob.readyAt else none
            laneOrder := oldJob.laneOrder
            superseded := some old }
      else (s, .error .incompatibleCoalesceMetadata)
    | none =>
      let r := s.takeSequence
      if options.queueCapacity ≤ r.1.jobs.size then (r.1, .error .queueFull)
      else r.1.addJob metadata options
        { sequence := r.2, readyAt := none, laneOrder := none, superseded := none }

end SchedulerState

end Teloxide.Outbound
