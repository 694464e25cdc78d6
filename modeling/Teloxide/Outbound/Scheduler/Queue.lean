import Teloxide.Outbound.Scheduler.State

/-!
# Putting references in and taking jobs out

How `SchedulerState` moves a job or a lane into the candidate heap, releases a
window reservation, removes a waiting job and compacts its lazy structures
(`crates/teloxide-core/src/outbound/scheduler.rs:1034-1335` and
`1445-1684`).

A lane stands in the heaps under its key; which of its jobs is meant is read
from the front of its pending set when the entry surfaces.
-/
namespace Teloxide.Outbound

open Teloxide.Core

namespace SchedulerState

/-! ## The candidate heap -/

/-- The quantum is cut to a `u64` and the product is a `u64` product.
mirrors scheduler.rs:1184-1202 -/
def scheduleAging (s : SchedulerState) (reference : CandidateRef) (keyedEffective base readyAt : Nat) :
    SchedulerState :=
  if HIGHEST ≤ keyedEffective then s
  else if keyedEffective + 1 ≤ base then s
  else
    let quantum := max s.aging.quantum 1 % u64Size
    let nanos := (keyedEffective + 1 - base) * quantum
    { s.check (nanos < u64Size) with
      agingEvents := s.agingEvents.push ⟨readyAt + nanos % u64Size, reference⟩ }

/-- mirrors scheduler.rs:1164-1179 -/
def pushJobCandidate (s : SchedulerState) (jobId : JobId) (now : Nat) : SchedulerState :=
  match s.jobs.lookup jobId with
  | none => s
  | some job =>
    let effective := effectivePriority job s.aging now
    { s with
      jobs := s.jobs.insert jobId { job with inCandidateHeap := true, candidateEffective := effective }
      candidates := s.candidates.push ⟨effective, job.sequence, .job jobId⟩
    }.scheduleAging (.job jobId) effective job.metadata.priority.val job.readyAt

/-- A lane whose pending set holds no live job is dropped here, whatever its
permits.
mirrors scheduler.rs:1280-1335 -/
def pushLaneHeadCandidate (s : SchedulerState) (lane : OutboundLaneKey) (now : Nat) : SchedulerState :=
  match s.lanes.lookup lane with
  | none => s
  | some l =>
    if !l.hasCapacity then s
    else if l.inBlockedHeap then s
    else
      let drained := l.drainDead s.live
      let s := s.check (l.drainFits s.live)
      match drained.pending.peek.bind fun head => s.jobs.lookup head.job with
      | none => { s with lanes := s.lanes.erase lane }
      | some job =>
        if job.notBefore.any (now < ·) || l.inCandidateHeap then
          { s with lanes := s.lanes.insert lane drained }
        else
          let effective := effectivePriority job s.aging now
          { s with
            lanes := s.lanes.insert lane
              { drained with inCandidateHeap := true, candidateEffective := effective }
            candidates := s.candidates.push ⟨effective, job.sequence, .lane lane⟩
          }.scheduleAging (.lane lane) effective job.metadata.priority.val job.readyAt

/-- mirrors scheduler.rs:1585-1590 -/
def pushReference (s : SchedulerState) (reference : CandidateRef) (now : Nat) : SchedulerState :=
  match reference with
  | .job id => s.pushJobCandidate id now
  | .lane key => s.pushLaneHeadCandidate key now

/-- mirrors scheduler.rs:1923-1929 -/
def referenceOf (s : SchedulerState) (c : Candidate) : CandidateRef :=
  match (s.jobs.lookup c.job).bind (·.metadata.lane) with
  | some lane => .lane lane
  | none => .job c.job

/-- mirrors scheduler.rs:1914-1920 -/
def pushCandidate (s : SchedulerState) (c : Candidate) (now : Nat) : SchedulerState :=
  match s.jobs.lookup c.job with
  | none => s
  | some job =>
    match job.metadata.lane with
    | some lane => s.pushLaneHeadCandidate lane now
    | none => s.pushJobCandidate c.job now

/-! ## References -/

/-- mirrors scheduler.rs:2583-2594 -/
def referenceAlive (s : SchedulerState) : CandidateRef → Bool
  | .job id => s.live id
  | .lane key => (s.lanes.lookup key).any (·.anyLive s.live)

/-- mirrors scheduler.rs:2598-2611 -/
def referenceWeight (s : SchedulerState) : CandidateRef → Option Nat
  | .job id => (s.jobs.lookup id).map (·.metadata.weight.val)
  | .lane key => do
    let l ← s.lanes.lookup key
    let head ← l.pending.peek
    let job ← s.jobs.lookup head.job
    return job.metadata.weight.val

/-- mirrors scheduler.rs:2568-2581 -/
def blockedNodeAlive (s : SchedulerState) (node : BlockedJob) : Bool :=
  match node.reference with
  | .job id => (s.jobs.lookup id).any (·.inBlockedHeap)
  | .lane key => (s.lanes.lookup key).any fun l =>
      l.inBlockedHeap && l.blockedGeneration == node.generation && l.anyLive s.live

/-! ## Reservations -/

/-- The body of the loop of `release_reservation`. -/
def wakeParked (s : SchedulerState) (window : WindowRef) (now : Nat) (reference : CandidateRef) :
    SchedulerState :=
  match reference with
  | .job id =>
    { s with jobs := s.jobs.modify id fun job =>
        if job.parkedIn = some window then { job with parkedIn := none } else job
    }.pushReference reference now
  | .lane _ => s.pushReference reference now

/-- mirrors scheduler.rs:1040-1056 -/
def releaseReservation (s : SchedulerState) (window : WindowRef) (owner : CandidateRef) (now : Nat) :
    SchedulerState :=
  match s.reservations.lookup window with
  | none => s
  | some reservation =>
    if reservation.owner = some owner then
      reservation.queue.foldl (fun s reference => s.wakeParked window now reference)
        { s with reservations := s.reservations.erase window }
    else s

/-! ## Removal of a waiting job -/

/-- mirrors scheduler.rs:1154-1160 -/
def removeCoalesceEntry (s : SchedulerState) (job : JobId) (key : Option InternalCoalesceKey) :
    SchedulerState :=
  match key with
  | none => s
  | some key =>
    if s.coalesce.lookup key = some job then { s with coalesce := s.coalesce.erase key } else s

/-- The lane arm at the end of `remove_waiting`: a sleeping lane with another
live job is woken by a fresh node.
mirrors scheduler.rs:1101-1137 -/
def forgetLaneEntry (s : SchedulerState) (lane : OutboundLaneKey) (now : Nat) : SchedulerState :=
  match s.lanes.lookup lane with
  | none => s
  | some l =>
    if l.inBlockedHeap then
      if l.anyLive s.live then
        let generation := wrappingSucc l.blockedGeneration
        { s with
          lanes := s.lanes.insert lane
            { l with stale := l.stale + 1, blockedGeneration := generation }
          staleBlocked := s.staleBlocked + 1
          blocked := s.blocked.push ⟨now, false, generation, .lane lane⟩ }
      else
        { s with
          lanes := s.lanes.insert lane { l with stale := l.stale + 1, inBlockedHeap := false }
          staleBlocked := s.staleBlocked + 1 }
    else { s with lanes := s.lanes.insert lane { l with stale := l.stale + 1 } }

/-- The counters `remove_waiting` bumps for the entries the job leaves behind. -/
def countLeftovers (s : SchedulerState) (job : Job) : SchedulerState :=
  { s with
    staleDelayed := s.staleDelayed + job.notBefore.isSome.toNat
    staleBlocked := s.staleBlocked + job.inBlockedHeap.toNat
    reservations := match job.parkedIn with
      | some window => s.reservations.modify window fun r => { r with stale := r.stale + 1 }
      | none => s.reservations }

/-- The reference under which `remove_waiting` looks for an owned hold. -/
def ownerRef (id : JobId) (job : Job) : CandidateRef :=
  match job.metadata.lane with
  | some lane => .lane lane
  | none => .job id

/-- A hold owned by the job is released.
mirrors scheduler.rs:1085-1094 -/
def releaseOwned (s : SchedulerState) (id : JobId) (job : Job) (now : Nat) : SchedulerState :=
  match job.reservationOwner with
  | some window => s.releaseReservation window (ownerRef id job) now
  | none => s

/-- The job leaves the map, and its coalescing entry with it. -/
def eraseJob (s : SchedulerState) (id : JobId) (job : Job) : SchedulerState :=
  { s with jobs := s.jobs.erase id }.removeCoalesceEntry id job.coalesceKey

/-- The entry the job leaves behind in its lane or in the candidate heap. -/
def forgetEntry (s : SchedulerState) (job : Job) (now : Nat) : SchedulerState :=
  match job.metadata.lane with
  | some lane => s.forgetLaneEntry lane now
  | none => { s with staleCandidates := s.staleCandidates + (!job.notBefore.isSome).toNat }

/-- mirrors scheduler.rs:1069-1142 -/
def removeWaiting (s : SchedulerState) (id : JobId) (now : Nat) : SchedulerState :=
  match s.jobs.lookup id with
  | none => s
  | some job =>
    (((s.countLeftovers job).releaseOwned id job now).eraseJob id job).forgetEntry job now

/-! ## Compaction -/

/-- mirrors scheduler.rs:1645-1652 -/
def compactDelayedIfNeeded (s : SchedulerState) : SchedulerState :=
  if s.staleDelayed = 0 ∨ s.staleDelayed * 2 ≤ s.delayed.len then s
  else { s with delayed := s.delayed.filter (s.live ·.job), staleDelayed := 0 }

/-- mirrors scheduler.rs:1655-1673 -/
def compactCandidateHeapIfNeeded (s : SchedulerState) : SchedulerState :=
  if s.staleCandidates = 0 ∨ s.staleCandidates * 2 ≤ s.candidates.len then s
  else
    { s with candidates := s.candidates.filter (s.referenceAlive ·.reference), staleCandidates := 0 }

/-- mirrors scheduler.rs:1451-1461 -/
def compactBlockedIfNeeded (s : SchedulerState) : SchedulerState :=
  if s.staleBlocked = 0 ∨ s.staleBlocked * 2 < s.blocked.len then s
  else { s with blocked := s.blocked.filter s.blockedNodeAlive, staleBlocked := 0 }

/-- mirrors scheduler.rs:1677-1684 -/
def compactLanesIfNeeded (s : SchedulerState) : SchedulerState :=
  { s with lanes := s.lanes.mapValues fun l =>
      if l.pending.len < l.stale * 2 then
        { l with pending := l.pending.filter (s.live ·.job), stale := 0 }
      else l }

/-- mirrors scheduler.rs:1815-1825 -/
def compactReservationsIfNeeded (s : SchedulerState) : SchedulerState :=
  { s with reservations := s.reservations.mapValues fun r =>
      if r.stale = 0 ∨ r.stale * 2 < r.queue.length then r
      else { r with queue := r.queue.filter s.referenceAlive, stale := 0 } }

/-- mirrors scheduler.rs:1146-1152 -/
def cancel (s : SchedulerState) (id : JobId) (now : Nat) : SchedulerState :=
  (s.removeWaiting id now).compactDelayedIfNeeded.compactBlockedIfNeeded

end SchedulerState

end Teloxide.Outbound
