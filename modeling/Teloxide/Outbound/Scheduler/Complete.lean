import Teloxide.Outbound.Scheduler.Grant

/-!
# Permits, penalties, limits and the next wake-up

`start`, `complete`, `set_limits`, `set_class_limits`, `penalize` and
`next_deadline` (`crates/teloxide-core/src/outbound/scheduler.rs:1406-1446` and
`2092-2563`).

* A limit update goes through the pending jobs, the window sets, the blocked heap
  and the reservations in no fixed order. The sets do not depend on it; which
  pending job an error names does, and the model takes the order of the table.
  The order in which the waiting candidates are re-inserted is an argument, any
  permutation of them.
-/
namespace Teloxide.Outbound

open Teloxide.Core

/-- The permit of `job` is given back; `none` when the lane holds none for it.
mirrors scheduler.rs:2135-2150 -/
def LaneState.releasePermit (l : LaneState) (job : JobId) : Option LaneState :=
  if l.mode.isBounded then
    if l.inFlightCount = 0 then none else some { l with inFlightCount := l.inFlightCount - 1 }
  else if l.inFlight = some job then some { l with inFlight := none, inFlightCount := 0 }
  else none

namespace SchedulerState

/-! ## `start` and `complete` -/

/-- mirrors scheduler.rs:2095-2116 -/
def start (s : SchedulerState) (job : JobId) (now : Nat) : SchedulerState :=
  match (s.inFlight.lookup job).bind (·.lane) with
  | none => s
  | some lane =>
    match s.lanes.lookup lane with
    | none => s
    | some l =>
      if l.mode ≠ .orderedStart ∨ l.inFlight ≠ some job then s
      else if l.pending.isEmpty then { s with lanes := s.lanes.erase lane }
      else
        let free := { l with inFlight := none, inFlightCount := 0 }
        { s with lanes := s.lanes.insert lane free }.pushLaneHeadCandidate lane now

/-- The lane part of `complete`.
mirrors scheduler.rs:2134-2162 -/
def freeLane (s : SchedulerState) (lane : OutboundLaneKey) (job : JobId) (now : Nat) : SchedulerState :=
  match s.lanes.lookup lane with
  | none => s
  | some l =>
    match l.releasePermit job with
    | none => s.dropLaneIfIdle lane
    | some free =>
      let s := { s with lanes := s.lanes.insert lane free }
      if free.pending.isEmpty then s.dropLaneIfIdle lane else s.pushLaneHeadCandidate lane now

/-- The refund of one window set; a chat's own set is dropped once it is idle.
mirrors scheduler.rs:2165-2194 -/
def refundWindow (s : SchedulerState) (now weight : Nat) (job : JobId) (window : WindowRef) :
    SchedulerState × Bool :=
  match s.windowSet window with
  | none => (s, false)
  | some set =>
    let r := set.refund now job weight
    match window with
    | .chat key =>
      let idle := r.1.isIdle now
      if idle.2 then ({ s with chatWindowSets := s.chatWindowSets.erase key }, r.2)
      else (s.storeSet window idle.1, r.2)
    | _ => (s.storeSet window r.1, r.2)

/-- The refunds of several window sets, with the windows that gave one back. -/
def refundWindows (now weight : Nat) (job : JobId) : List WindowRef → SchedulerState →
    SchedulerState × List WindowRef
  | [], s => (s, [])
  | window :: windows, s =>
    let r := s.refundWindow now weight job window
    let rest := refundWindows now weight job windows r.1
    (rest.1, (if r.2 then [window] else []) ++ rest.2)

/-- mirrors scheduler.rs:1409-1446 -/
def rearmReservationOwner (now : Nat) (s : SchedulerState) (window : WindowRef) : SchedulerState :=
  match (s.reservations.lookup window).bind (·.owner) with
  | none => s
  | some (.job id) =>
    match s.jobs.lookup id with
    | none => s
    | some job =>
      if job.inBlockedHeap then
        { s with jobs := s.jobs.insert id { job with inBlockedHeap := false }
                 staleBlocked := s.staleBlocked + 1 }.pushJobCandidate id now
      else s
  | some (.lane lane) =>
    match s.lanes.lookup lane with
    | none => s
    | some l =>
      if l.inBlockedHeap then
        let woken := { l with inBlockedHeap := false, blockedGeneration := wrappingSucc l.blockedGeneration }
        { s with lanes := s.lanes.insert lane woken
                 staleBlocked := s.staleBlocked + 1 }.pushLaneHeadCandidate lane now
      else s

/-- mirrors scheduler.rs:2481-2490 -/
def penalize (s : SchedulerState) (scope : OutboundScope) (deadline : Nat) : SchedulerState :=
  let key := PenaltyKey.ofScope scope
  let entry := (s.penalties.lookup key).getD deadline
  { s with penalties := s.penalties.insert key (max entry deadline) }

/-- What a completion does once the permit is back.
mirrors scheduler.rs:2163-2207 -/
def settleCompletion (s : SchedulerState) (job : JobId) (permit : InFlight)
    (completion : OutboundCompletion) (now observedAt : Nat) : SchedulerState :=
  match completion with
  | .noRequest =>
    let r := refundWindows now permit.weight job (windowsOf permit.scope permit.cls) s
    r.2.foldl (rearmReservationOwner now) r.1
  | .retryAfter scope duration => if duration = 0 then s else s.penalize scope (observedAt + duration)
  | .success | .failed | .cancelledAfterGrant => s

/-- mirrors scheduler.rs:2125-2208 -/
def complete (s : SchedulerState) (job : JobId) (completion : OutboundCompletion)
    (now observedAt : Nat) : SchedulerState :=
  match s.inFlight.lookup job with
  | none => s
  | some permit =>
    let s := { s with inFlight := s.inFlight.erase job }
    let s := match permit.lane with
      | some lane => s.freeLane lane job now
      | none => s
    s.settleCompletion job permit completion now observedAt

/-! ## Limits -/

/-- mirrors scheduler.rs:2384-2401 -/
def rearmReference (now : Nat) (s : SchedulerState) (reference : CandidateRef) : SchedulerState :=
  match reference with
  | .job id =>
    match s.jobs.lookup id with
    | none => s
    | some job =>
      let free := { job with inBlockedHeap := false, parkedIn := none, reservationOwner := none }
      { s with jobs := s.jobs.insert id free }.pushJobCandidate id now
  | .lane lane =>
    { s with lanes := s.lanes.modify lane fun l => { l with inBlockedHeap := false } }.pushLaneHeadCandidate
      lane now

/-- The references that a limit update wakes. -/
def waitingReferences (s : SchedulerState) : List CandidateRef :=
  s.blocked.entries.map (·.reference) ++ s.reservations.values.flatMap (·.queue)

/-- mirrors scheduler.rs:2367-2380 -/
def rearmBlockedAndParked (s : SchedulerState) (order : List CandidateRef) (now : Nat) :
    SchedulerState :=
  order.foldl (rearmReference now) { s with blocked := .empty, staleBlocked := 0, reservations := ∅ }

/-- The events of a chat's longest window that have not left it. -/
def chatLedger (now : Nat) (set : WindowSet) : List WindowEvent :=
  match maxByKey (·.window) set.windows with
  | none => []
  | some w => w.history.filter fun e => !RollingWindow.expired w.window now e

/-- A new set with the events of an old one that its windows still cover. -/
def carryOver (now : Nat) (set : WindowSet) (events : List WindowEvent) : WindowSet :=
  events.foldl (·.insertAt now ·) set

/-- A new set of a chat is kept when some event is carried over. -/
def carryOverChat (now : Nat) (set : WindowSet) (events : List WindowEvent) : Option WindowSet :=
  if events.isEmpty then none
  else
    let set := carryOver now set events
    if set.windows.any fun w => !w.history.isEmpty then some set else none

/-- The error of the first pending job that does not fit the capacities that
would apply to it. -/
def firstMisfit (s : SchedulerState) (capacities : OutboundMeta → List Nat) :
    Option SchedulerConfigError :=
  s.jobs.values.findSome? fun job =>
    (exceeded job.metadata.weight.val (capacities job.metadata)).map fun capacity =>
      .pendingWeightExceedsWindow job.metadata.scope job.metadata.weight.val capacity

/-- The new windows of `set_limits`.
mirrors scheduler.rs:2289-2337 -/
def replaceLimits (s : SchedulerState) (limits : OutboundLimits) (now : Nat) : SchedulerState :=
  { s with
    globalLimits := limits.global
    globalWindows := carryOver now (.new limits.global .any) (s.globalWindows.collectEvents now).2
    chatLimits := limits.chat
    chatWindowSets := s.chatWindowSets.filterMap fun key set =>
      carryOverChat now (.new limits.chat key.windowChatKind) (chatLedger now set) }

/-- mirrors scheduler.rs:2243-2340 -/
def setLimits (s : SchedulerState) (limits : OutboundLimits) (order : List CandidateRef) (now : Nat) :
    SchedulerState × Except SchedulerConfigError Unit :=
  if (limits.global ++ limits.chat).any (·.window == 0) then (s, .error .zeroWindowDuration)
  else if limits.global.any (·.kind != .any) then (s, .error .kindSpecificGlobalWindow)
  else
    match s.firstMisfit fun m => limits.global.map (·.capacity) ++ chatCapacities limits.chat m.scope with
    | some e => (s, .error e)
    | none => ((s.replaceLimits limits now).rearmBlockedAndParked order now, .ok ())

/-- The new windows of `set_class_limits`.
mirrors scheduler.rs:2446-2476 -/
def replaceClassLimits (s : SchedulerState) (limits : OutboundClassLimits) (now : Nat) :
    SchedulerState :=
  let carried (cls : OutboundClass) (set : WindowSet) : WindowSet :=
    match s.classGlobalWindows.lookup cls with
    | some old => carryOver now set (old.collectEvents now).2
    | none => set
  { s with
    classLimits := limits
    classGlobalWindows := (classWindowSets limits.global).filterMap fun cls set => some (carried cls set)
    classChatWindowSets := s.classChatWindowSets.filterMap fun key set =>
      carryOverChat now (.newClass limits.chat key.2) (set.collectEvents now).2 }

/-- mirrors scheduler.rs:2405-2479 -/
def setClassLimits (s : SchedulerState) (limits : OutboundClassLimits) (order : List CandidateRef)
    (now : Nat) : SchedulerState × Except SchedulerConfigError Unit :=
  if (limits.global ++ limits.chat).any (·.window == 0) then (s, .error .zeroWindowDuration)
  else
    match s.firstMisfit fun m =>
        classCapacities limits.global m.cls ++ classChatCapacities limits.chat m.cls m.scope with
    | some e => (s, .error e)
    | none => ((s.replaceClassLimits limits now).rearmBlockedAndParked order now, .ok ())

/-! ## The next wake-up -/

/-- A candidate of the heap, whose aging still counts. -/
def agingActive (s : SchedulerState) : CandidateRef → Bool
  | .job id => (s.jobs.lookup id).any (·.inCandidateHeap)
  | .lane key => (s.lanes.lookup key).any (·.inCandidateHeap)

/-- The loops at the head of `next_deadline`, which drop the dead tops.
mirrors scheduler.rs:2506-2536 -/
def dropDeadTops (s : SchedulerState) : SchedulerState :=
  let deadDelayed := s.delayed.entries.takeWhile (!s.live ·.job)
  let deadBlocked := s.blocked.entries.takeWhile (!s.blockedNodeAlive ·)
  { s.check (deadDelayed.length ≤ s.staleDelayed) with
    delayed := s.delayed.dropWhile (!s.live ·.job)
    staleDelayed := s.staleDelayed - deadDelayed.length
    blocked := s.blocked.dropWhile (!s.blockedNodeAlive ·)
    staleBlocked := s.staleBlocked - deadBlocked.length
    agingEvents := s.agingEvents.dropWhile (!s.agingActive ·.reference) }

/-- The instants that `next_deadline` takes the minimum of. -/
def deadlines (s : SchedulerState) (now : Nat) : List Nat :=
  (s.delayed.peek.map (·.notBefore)).toList ++
    ((s.blocked.peek.filter (!·.permanent)).map (·.deadline)).toList ++
    (s.agingEvents.peek.map (·.instant)).toList ++
    (s.reservations.values.map (·.deadline)).filter (now < ·)

/-- mirrors scheduler.rs:2505-2563 -/
def nextDeadline (s : SchedulerState) (now : Nat) : SchedulerState × SchedulerWakeup :=
  let s := s.dropDeadTops
  match (s.deadlines now).min? with
  | none => (s, .externalEvent)
  | some instant => (s, if instant ≤ now then .immediate else .at instant)

end SchedulerState

end Teloxide.Outbound
