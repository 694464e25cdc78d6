import Teloxide.Outbound.Scheduler.Enqueue

/-!
# The grant pass

`grant_ready` and what it calls
(`crates/teloxide-core/src/outbound/scheduler.rs:1204-1274`, `1386-1641`,
`1686-2090` and `2492-2499`): the four promotions, the pop of the candidate
heap, the admission check, the grant and the reservations.

* The windows a request consumes are a list of `WindowRef`s, in the order in
  which the source goes through them; `ensuredSet` and `storeSet` read and write
  the set behind a reference. The source writes the four families out.
* `promote_reservations` goes through a hash map: the order of the expired
  windows is an argument, any permutation of them.
* A loop that pops a heap it never pushes to runs on the length of that heap. The
  aging loop and the grant loop push to the heap they pop: they take fuel, and
  `none` is a loop that did not end.
-/
namespace Teloxide.Outbound

open Teloxide.Core

/-- The references of the windows a request of this scope and class consumes.
mirrors scheduler.rs:1597-1606 -/
def windowsOf (scope : OutboundScope) (cls : OutboundClass) : List WindowRef :=
  match scope with
  | .global => [.global, .classGlobal cls]
  | .chat key => [.global, .classGlobal cls, .chat key, .classChat key cls]

/-- The penalty that the admission check reads just before this window. -/
def penaltyKeyOf : WindowRef → Option PenaltyKey
  | .global => some .global
  | .chat key => some (.chat key)
  | .classGlobal _ | .classChat _ _ => none

/-- The lane without its front entry and with a permit out for the job. -/
def LaneState.taken (l : LaneState) (job : JobId) : LaneState :=
  { l with pending := l.pending.pop
           inFlight := if l.mode.isBounded then l.inFlight else some job
           inFlightCount := l.inFlightCount + 1 }

namespace SchedulerState

/-! ## Promotions -/

/-- A popped aging event re-keys a candidate that has aged.
mirrors scheduler.rs:1212-1271 -/
def fireAging (s : SchedulerState) (reference : CandidateRef) (now : Nat) : SchedulerState :=
  match reference with
  | .job id =>
    match s.jobs.lookup id with
    | none => s
    | some job =>
      let effective := effectivePriority job s.aging now
      if !job.inCandidateHeap || effective ≤ job.candidateEffective then s
      else
        { s with
          jobs := s.jobs.insert id { job with candidateEffective := effective }
          candidates := s.candidates.push ⟨effective, job.sequence, reference⟩
        }.scheduleAging reference effective job.metadata.priority.val job.readyAt
  | .lane lane =>
    match s.lanes.lookup lane with
    | none => s
    | some l =>
      match l.pending.peek.bind fun head => s.jobs.lookup head.job with
      | none => s
      | some job =>
        if !l.inCandidateHeap || job.notBefore.any (now < ·) then s
        else
          let effective := effectivePriority job s.aging now
          if effective ≤ l.candidateEffective then
            -- the head changed or the event fired early
            s.scheduleAging reference effective job.metadata.priority.val job.readyAt
          else
            { s with
              lanes := s.lanes.insert lane { l with candidateEffective := effective }
              candidates := s.candidates.push ⟨effective, job.sequence, reference⟩
            }.scheduleAging reference effective job.metadata.priority.val job.readyAt

/-- mirrors scheduler.rs:1207-1274 -/
def promoteAging (now : Nat) : Nat → SchedulerState → Option SchedulerState
  | 0, _ => none
  | fuel + 1, s =>
    match s.agingEvents.peek with
    | none => some s
    | some top =>
      if now < top.instant then some s
      else
        promoteAging now fuel
          ({ s with agingEvents := s.agingEvents.pop }.fireAging top.reference now)

/-- A popped delayed job becomes ready.
mirrors scheduler.rs:1391-1402 -/
def wakeDelayed (s : SchedulerState) (id : JobId) (now : Nat) : SchedulerState :=
  match s.jobs.lookup id with
  | none => { s.check (1 ≤ s.staleDelayed) with staleDelayed := s.staleDelayed - 1 }
  | some job =>
    let s := { s with jobs := s.jobs.insert id { job with readyAt := now, notBefore := none } }
    match job.metadata.lane with
    | some lane => s.pushLaneHeadCandidate lane now
    | none => s.pushJobCandidate id now

def promoteDelayedLoop (now : Nat) : Nat → SchedulerState → SchedulerState
  | 0, s => s
  | n + 1, s =>
    match s.delayed.peek with
    | none => s
    | some top =>
      if now < top.notBefore then s
      else promoteDelayedLoop now n ({ s with delayed := s.delayed.pop }.wakeDelayed top.job now)

/-- mirrors scheduler.rs:1386-1404 -/
def promoteDelayed (s : SchedulerState) (now : Nat) : SchedulerState :=
  promoteDelayedLoop now s.delayed.len s

/-- A blocked node that is not acted upon. -/
def dropStaleBlocked (s : SchedulerState) : SchedulerState :=
  { s with staleBlocked := s.staleBlocked - 1 }

/-- A popped blocked node wakes the candidate it stands for.
mirrors scheduler.rs:1479-1530 -/
def wakeBlocked (s : SchedulerState) (node : BlockedJob) (now : Nat) : SchedulerState :=
  match node.reference with
  | .job id =>
    match s.jobs.lookup id with
    | none => s.dropStaleBlocked
    | some job =>
      if job.notBefore.isSome then s
      else if !job.inBlockedHeap then s.dropStaleBlocked
      else
        { s with jobs := s.jobs.insert id { job with inBlockedHeap := false } }.pushJobCandidate id now
  | .lane lane =>
    match s.lanes.lookup lane with
    | none => s.dropStaleBlocked
    | some l =>
      if node.generation ≠ l.blockedGeneration then s.dropStaleBlocked
      else if !l.inBlockedHeap then s.dropStaleBlocked
      else
        let woken := { s with lanes := s.lanes.insert lane { l with inBlockedHeap := false } }
        if !l.anyLive s.live then woken.dropStaleBlocked
        else woken.pushLaneHeadCandidate lane now

def promoteBlockedLoop (now : Nat) : Nat → SchedulerState → SchedulerState
  | 0, s => s
  | n + 1, s =>
    match s.blocked.peek with
    | none => s
    | some top =>
      if top.permanent || decide (now < top.deadline) then s
      else promoteBlockedLoop now n ({ s with blocked := s.blocked.pop }.wakeBlocked top now)

/-- mirrors scheduler.rs:1473-1532 -/
def promoteBlocked (s : SchedulerState) (now : Nat) : SchedulerState :=
  promoteBlockedLoop now s.blocked.len s

/-- The holds that have ended. -/
def expiredReservations (s : SchedulerState) (now : Nat) : List WindowRef :=
  s.reservations.keysWhere fun r => decide (r.deadline ≤ now)

/-- The head of a queue leaves it, and the hold stays with what is left. -/
def unpark (s : SchedulerState) (window : WindowRef) (reference : CandidateRef) (rest : Reservation) :
    SchedulerState :=
  { s with
    reservations := s.reservations.insert window rest
    jobs := match reference with
      | .job id => s.jobs.modify id fun job => { job with parkedIn := none }
      | .lane _ => s.jobs }

/-- The body of the loop of `promote_reservations`.
mirrors scheduler.rs:1545-1578 -/
def promoteReservation (s : SchedulerState) (window : WindowRef) (now : Nat) : SchedulerState :=
  match s.reservations.lookup window with
  | none => s
  | some r =>
    let dead := r.queue.takeWhile fun reference => !s.referenceAlive reference
    match r.queue.dropWhile fun reference => !s.referenceAlive reference with
    | [] => { s with reservations := s.reservations.erase window }
    | reference :: queue =>
      (s.unpark window reference { r with queue := queue, stale := r.stale - dead.length }).pushReference
        reference now

/-- mirrors scheduler.rs:1538-1580 -/
def promoteReservations (s : SchedulerState) (order : List WindowRef) (now : Nat) : SchedulerState :=
  order.foldl (fun s window => s.promoteReservation window now) s

/-! ## The pop -/

/-- mirrors scheduler.rs:1880-1887 -/
def dropLaneIfIdle (s : SchedulerState) (lane : OutboundLaneKey) : SchedulerState :=
  if (s.lanes.lookup lane).any (·.isIdle) then { s with lanes := s.lanes.erase lane } else s

/-- One turn of the loop of `pop_candidate`: the popped entry is passed over, or
it is the next candidate. -/
inductive Turn where
  | skipped (s : SchedulerState)
  | popped (s : SchedulerState) (candidate : Candidate)

/-- An entry that is passed over as stale. -/
def countStale (s : SchedulerState) : SchedulerState :=
  { s with staleCandidates := s.staleCandidates + 1 }

/-- mirrors scheduler.rs:1833-1849 -/
def popJob (s : SchedulerState) (key : CandidateKey) (id : JobId) : Turn :=
  match s.jobs.lookup id with
  | none => .skipped s.countStale
  | some job =>
    if key.effective < job.candidateEffective then .skipped s.countStale
    else
      .popped { s with jobs := s.jobs.insert id { job with inCandidateHeap := false } }
        ⟨id, job.metadata.weight, job.metadata.scope⟩

/-- mirrors scheduler.rs:1850-1907 -/
def popLane (s : SchedulerState) (key : CandidateKey) (lane : OutboundLaneKey) (now : Nat) : Turn :=
  match s.lanes.lookup lane with
  | none => .skipped s.countStale
  | some l =>
    if key.effective < l.candidateEffective then .skipped s.countStale
    else if !l.hasCapacity then
      .skipped { s with lanes := s.lanes.insert lane { l with inCandidateHeap := false } }
    else
      let drained := { l.drainDead s.live with inCandidateHeap := false }
      let s := { s.check (l.drainFits s.live) with lanes := s.lanes.insert lane drained }
      match drained.pending.peek.bind fun head => (s.jobs.lookup head.job).map (head.job, ·) with
      | none => .skipped (s.dropLaneIfIdle lane)
      | some (id, job) =>
        if job.notBefore.any (now < ·) then .skipped (s.dropLaneIfIdle lane)
        else if effectivePriority job s.aging now ≠ key.effective ∨ job.sequence ≠ key.sequence then
          -- the head was replaced or cancelled: a fresh key
          .skipped (s.pushLaneHeadCandidate lane now)
        else .popped s ⟨id, job.metadata.weight, job.metadata.scope⟩

/-- mirrors scheduler.rs:1829-1832 -/
def popTurn (s : SchedulerState) (now : Nat) : Option Turn :=
  match s.candidates.peek with
  | none => none
  | some key =>
    let s := { s with candidates := s.candidates.pop }
    match key.reference with
    | .job id => some (s.popJob key id)
    | .lane lane => some (s.popLane key lane now)

/-- mirrors scheduler.rs:1829-1910 -/
def popCandidate (now : Nat) : Nat → SchedulerState → Option (SchedulerState × Option Candidate)
  | 0, _ => none
  | fuel + 1, s =>
    match s.popTurn now with
    | none => some (s, none)
    | some (.skipped s) => popCandidate now fuel s
    | some (.popped s candidate) => some (s, some candidate)

/-! ## Windows -/

/-- The set behind a window reference. -/
def windowSet (s : SchedulerState) : WindowRef → Option WindowSet
  | .global => some s.globalWindows
  | .classGlobal cls => s.classGlobalWindows.lookup cls
  | .chat key => s.chatWindowSets.lookup key
  | .classChat key cls => s.classChatWindowSets.lookup (key, cls)

/-- The set behind a window reference; the sets of a chat are built on first
use, a class-chat set only where the class has such limits. -/
def ensuredSet (s : SchedulerState) : WindowRef → Option WindowSet
  | .global => some s.globalWindows
  | .classGlobal cls => s.classGlobalWindows.lookup cls
  | .chat key => some ((s.chatWindowSets.lookup key).getD (.new s.chatLimits key.windowChatKind))
  | .classChat key cls =>
    if s.classLimits.chat.any (·.cls == cls) then
      some ((s.classChatWindowSets.lookup (key, cls)).getD (.newClass s.classLimits.chat cls))
    else none

def storeSet (s : SchedulerState) (window : WindowRef) (set : WindowSet) : SchedulerState :=
  match window with
  | .global => { s with globalWindows := set }
  | .classGlobal cls => { s with classGlobalWindows := s.classGlobalWindows.insert cls set }
  | .chat key => { s with chatWindowSets := s.chatWindowSets.insert key set }
  | .classChat key cls => { s with classChatWindowSets := s.classChatWindowSets.insert (key, cls) set }

/-- mirrors scheduler.rs:1595-1607 -/
def applicableWindows (s : SchedulerState) (c : Candidate) : List WindowRef :=
  match s.jobs.lookup c.job with
  | none => [.global]
  | some job => windowsOf c.scope job.metadata.cls

/-! ## Admission -/

/-- mirrors scheduler.rs:1946-1948 -/
def reservationActive (s : SchedulerState) (window : WindowRef) (now : Nat) : Bool :=
  (s.reservations.lookup window).any fun r => decide (now < r.deadline)

/-- mirrors scheduler.rs:2030-2035 -/
def reservationOwnerIs (s : SchedulerState) (c : Candidate) (window : WindowRef) : Bool :=
  (s.reservations.lookup window).any (·.owner == some (s.referenceOf c))

/-- The hold of another candidate is in the way. -/
def heldByOther (s : SchedulerState) (c : Candidate) (now : Nat) (window : WindowRef) : Bool :=
  s.reservationActive window now && !s.reservationOwnerIs c window

/-- The deadline of a penalty that is in force (`penalty_active`, 2026-2028). -/
def activePenalty (s : SchedulerState) (key : PenaltyKey) (now : Nat) : Option Nat :=
  (s.penalties.lookup key).filter (now < ·)

/-- What the checks so far have found: the instant before which the candidate
cannot go, and the window to hold for it. -/
structure Verdict where
  deadline : Nat
  reserve : Option WindowRef
  deriving DecidableEq

/-- The penalty that goes with a window. -/
def withPenalty (s : SchedulerState) (now : Nat) (window : WindowRef) (v : Verdict) : Verdict :=
  match (penaltyKeyOf window).bind (s.activePenalty · now) with
  | some deadline => { v with deadline := max v.deadline deadline }
  | none => v

/-- One window set; `none` when it never admits the weight. -/
def checkWindow (s : SchedulerState) (now weight : Nat) (window : WindowRef) (v : Verdict) :
    SchedulerState × Option Verdict :=
  let v := s.withPenalty now window v
  match s.ensuredSet window with
  | none => (s, some v)
  | some set =>
    let r := set.canConsume now weight
    let s := s.storeSet window r.1
    if r.2 then (s, some v)
    else
      (s, (r.1.earliestFor now weight).map fun deadline =>
        ⟨max v.deadline deadline, v.reserve.or (some window)⟩)

/-- The window sets in turn, up to one that never admits the weight. -/
def checkWindows (now weight : Nat) : List WindowRef → SchedulerState → Verdict →
    SchedulerState × Option Verdict
  | [], s, v => (s, some v)
  | window :: windows, s, v =>
    match s.checkWindow now weight window v with
    | (s, none) => (s, none)
    | (s, some v) => checkWindows now weight windows s v

/-- mirrors scheduler.rs:1950-2024 -/
def admission (s : SchedulerState) (c : Candidate) (now : Nat) : SchedulerState × Admission :=
  if (s.applicableWindows c).any (s.heldByOther c now) then (s, .reserved)
  else
    match checkWindows now c.weight.val (s.applicableWindows c) (s.check (s.live c.job)) ⟨now, none⟩ with
    | (s, none) => (s, .blockedForever)
    | (s, some v) => if now < v.deadline then (s, .blocked v.deadline v.reserve) else (s, .pass)

/-! ## The grant -/

/-- The job leaves the front of its lane, and the lane takes a permit for it.
mirrors scheduler.rs:2041-2051 -/
def takeLaneHead (s : SchedulerState) (lane : OutboundLaneKey) (job : JobId) : SchedulerState :=
  match s.lanes.lookup lane with
  | none => s.check false
  | some l =>
    match l.pending.peek with
    | none => s.check false
    | some head =>
      let free := if l.mode.isBounded then l.hasCapacity else l.inFlight.isNone
      { s.check (head.job == job && free) with
        lanes := s.lanes.insert lane (l.taken job) }

/-- mirrors scheduler.rs:2040-2052 -/
def takePermit (s : SchedulerState) (id : JobId) (job : Job) : SchedulerState :=
  match job.metadata.lane with
  | some lane => s.takeLaneHead lane id
  | none => s

/-- The debit of one window set. -/
def consumeWindow (now weight : Nat) (job : JobId) (s : SchedulerState) (window : WindowRef) :
    SchedulerState :=
  match s.ensuredSet window with
  | none => s
  | some set => (s.check (set.canConsume now weight).2).storeSet window (set.consume now weight job)

/-- mirrors scheduler.rs:2053-2070 -/
def debit (s : SchedulerState) (id : JobId) (job : Job) (now : Nat) : SchedulerState :=
  (windowsOf job.metadata.scope job.metadata.cls).foldl (consumeWindow now job.metadata.weight.val id) s

/-- mirrors scheduler.rs:2071-2079 -/
def putInFlight (s : SchedulerState) (id : JobId) (job : Job) : SchedulerState :=
  let permit : InFlight :=
    ⟨job.metadata.lane, job.metadata.scope, job.metadata.cls, job.metadata.weight.val⟩
  { s with inFlight := s.inFlight.insert id permit }

/-- A bounded lane with a free permit goes on to its next job.
mirrors scheduler.rs:2080-2089 -/
def rearmBoundedLane (s : SchedulerState) (job : Job) (now : Nat) : SchedulerState :=
  match job.metadata.lane with
  | none => s
  | some lane =>
    if (s.lanes.lookup lane).any fun l => l.mode.isBounded && l.hasCapacity && !l.pending.isEmpty then
      s.pushLaneHeadCandidate lane now
    else s

/-- mirrors scheduler.rs:2037-2090 -/
def grant (s : SchedulerState) (id : JobId) (now : Nat) : SchedulerState :=
  match s.jobs.lookup id with
  | none => s.check false
  | some job =>
    ((((s.eraseJob id job).takePermit id job).debit id job now).putInFlight id job).rearmBoundedLane
      job now

/-- The instant at which the window set alone admits the weight. -/
def windowEarliest (s : SchedulerState) (window : WindowRef) (now weight : Nat) : Option Nat :=
  (s.windowSet window).bind (·.earliestFor now weight)

/-- The body of the loop of `rearm_reservations`. -/
def rearmReservation (now : Nat) (s : SchedulerState) (window : WindowRef) : SchedulerState :=
  match s.reservations.lookup window with
  | none => s
  | some r =>
    match (r.queue.head?.bind s.referenceWeight).bind (s.windowEarliest window now) with
    | none => s
    | some deadline =>
      { s with reservations := s.reservations.insert window { r with deadline := max deadline now } }

/-- By the time this runs the granted job has left the map, so of its windows
only the global one is gone through.
mirrors scheduler.rs:1612-1641 -/
def rearmReservations (s : SchedulerState) (c : Candidate) (now : Nat) : SchedulerState :=
  (s.applicableWindows c).foldl (rearmReservation now) s

/-! ## Blocked and parked candidates -/

/-- mirrors scheduler.rs:1689-1708 -/
def releasePreviousReservationIfChanged (s : SchedulerState) (c : Candidate)
    (next : Option WindowRef) (now : Nat) : SchedulerState :=
  match (s.jobs.lookup c.job).bind (·.reservationOwner) with
  | none => s
  | some previous =>
    if next = some previous then s
    else
      let s := s.releaseReservation previous (s.referenceOf c) now
      { s with jobs := s.jobs.modify c.job fun job =>
          if job.reservationOwner = some previous then { job with reservationOwner := none } else job }

/-- mirrors scheduler.rs:1713-1733 -/
def blockCandidate (s : SchedulerState) (c : Candidate) (deadline : Nat) (permanent : Bool) :
    SchedulerState :=
  match s.jobs.lookup c.job with
  | none => { s with blocked := s.blocked.push ⟨deadline, permanent, 0, s.referenceOf c⟩ }
  | some job =>
    match job.metadata.lane with
    | none =>
      { s with
        jobs := s.jobs.insert c.job { job with inBlockedHeap := true }
        blocked := s.blocked.push ⟨deadline, permanent, 0, .job c.job⟩ }
    | some lane =>
      match s.lanes.lookup lane with
      | none => s.check false
      | some l =>
        let generation := wrappingSucc l.blockedGeneration
        { s with
          lanes := s.lanes.insert lane { l with inBlockedHeap := true, blockedGeneration := generation }
          blocked := s.blocked.push ⟨deadline, permanent, generation, .lane lane⟩ }

/-- The candidate becomes the owner of a hold that is new, ownerless or shorter
than it needs.
mirrors scheduler.rs:1768-1780 -/
def reserveWindow (s : SchedulerState) (c : Candidate) (window : WindowRef) (deadline : Nat) :
    SchedulerState :=
  let r := (s.reservations.lookup window).getD ⟨none, deadline, [], 0⟩
  if r.deadline < deadline ∨ r.owner = none then
    { s with
      reservations := s.reservations.insert window
        { r with deadline := deadline, owner := some (s.referenceOf c) }
      jobs := s.jobs.modify c.job fun job => { job with reservationOwner := some window } }
  else { s with reservations := s.reservations.insert window r }

/-- mirrors scheduler.rs:1935-1940 -/
def reservationWindow (s : SchedulerState) (c : Candidate) (now : Nat) : Option WindowRef :=
  (s.applicableWindows c).find? (s.reservationActive · now)

/-- mirrors scheduler.rs:1788-1803 -/
def park (s : SchedulerState) (c : Candidate) (now : Nat) : SchedulerState :=
  match s.reservationWindow c now with
  | none => s.check false
  | some window =>
    match s.reservations.lookup window with
    | none => s.pushCandidate c now
    | some r =>
      let reference := s.referenceOf c
      { s with
        reservations := s.reservations.insert window { r with queue := r.queue ++ [reference] }
        jobs := match reference with
          | .job id => s.jobs.modify id fun job => { job with parkedIn := some window }
          | .lane _ => s.jobs }

/-- What the pass does with the verdict on a candidate.
mirrors scheduler.rs:1752-1803 -/
def settle (s : SchedulerState) (c : Candidate) (now : Nat) : Admission → SchedulerState
  | .pass => (s.grant c.job now).rearmReservations c now
  | .blocked deadline reserve =>
    let s := s.releasePreviousReservationIfChanged c reserve now
    let s := match reserve with
      | some window => s.reserveWindow c window deadline
      | none => s
    s.blockCandidate c deadline false
  | .blockedForever =>
    (s.releasePreviousReservationIfChanged c none now).blockCandidate c
      (now + BLOCKED_FOREVER_DELAY) true
  | .reserved => s.park c now

/-- One candidate of the pass, with the verdict on it. -/
def visit (s : SchedulerState) (c : Candidate) (now : Nat) : SchedulerState × Admission :=
  let r := s.admission c now
  (r.1.settle c now r.2, r.2)

/-! ## The pass -/

/-- The promotions of `grant_ready` but for the last.
mirrors scheduler.rs:1744-1746 -/
def awaken (s : SchedulerState) (fuel now : Nat) : Option SchedulerState :=
  (promoteAging now fuel s).map fun s => (s.promoteDelayed now).promoteBlocked now

/-- What `grant_ready` does before its loop; `none` as well when `order` is not
an order of the ended holds.
mirrors scheduler.rs:1744-1748 -/
def beginPass (s : SchedulerState) (order : List WindowRef) (fuel now : Nat) : Option SchedulerState :=
  (s.awaken fuel now).bind fun s =>
    if order.Perm (s.expiredReservations now) then
      some (s.promoteReservations order now).compactLanesIfNeeded
    else none

/-- mirrors scheduler.rs:2492-2494 -/
def pruneExpiredPenalties (s : SchedulerState) (now : Nat) : SchedulerState :=
  { s with penalties := s.penalties.filterMap fun _ deadline =>
      if now < deadline then some deadline else none }

/-- The scan of `prune_idle_chat_windows` stops at the first window that is not
idle. -/
def keepIfBusy (now : Nat) (set : WindowSet) : Option WindowSet :=
  let r := set.isIdle now
  if r.2 then none else some r.1

/-- mirrors scheduler.rs:2496-2499 -/
def pruneIdleChatWindows (s : SchedulerState) (now : Nat) : SchedulerState :=
  { s with chatWindowSets := s.chatWindowSets.filterMap fun _ set => keepIfBusy now set }

/-- mirrors scheduler.rs:1806-1808 -/
def endPass (s : SchedulerState) (now : Nat) : SchedulerState :=
  ((s.pruneExpiredPenalties now).pruneIdleChatWindows now).compactReservationsIfNeeded

/-- The loop of `grant_ready`, one popped entry a turn. -/
def grantLoop (now : Nat) : Nat → SchedulerState → Option (SchedulerState × List Grant)
  | 0, _ => none
  | fuel + 1, s =>
    match s.popTurn now with
    | none => some (s, [])
    | some (.skipped s) => grantLoop now fuel s
    | some (.popped s c) =>
      let g : Grant := ⟨c.job, (s.jobs.lookup c.job).bind (·.correlationId)⟩
      let r := s.visit c now
      (grantLoop now fuel r.1).map fun rest =>
        (rest.1, (if r.2 = .pass then [g] else []) ++ rest.2)

/-- mirrors scheduler.rs:1743-1810 -/
def grantReady (s : SchedulerState) (order : List WindowRef) (fuel now : Nat) :
    Option (SchedulerState × List Grant) := do
  let s ← s.beginPass order fuel now
  let r ← grantLoop now fuel s
  return (r.1.endPass now, r.2)

end SchedulerState

end Teloxide.Outbound
