import Teloxide.Net.Response
import Teloxide.Outbound.Actor.Callers

/-!
# Scheduled requests

The requests of `crates/teloxide-core/src/outbound/adaptor.rs` that run through the outbound queue, with the
lanes that its handles give out, as one state machine over that of the queue.

* The inner request is of any type; `Inner` is what the adaptor asks of it. When it resolves, and
  with what, is up to the environment.
* A step is one step of the queue and the part of the poll, or of the drop, that goes with it.
* The futures own the tokens of their acquires; everybody else uses tokens of its own.
* A value that is no longer needed leaves its handles behind, to be dropped later.
-/
namespace Teloxide.Outbound.Adaptor

open Teloxide.Core

/-! ## Classification -/

/-- mirrors types.rs:179-188 -/
structure OutboundHint where
  scope : OutboundScope
  cls : OutboundClass
  priority : OutboundPriority
  weight : NonZeroU32
  deriving DecidableEq

/-- mirrors types.rs:192-203 -/
structure OutboundMetadata where
  scope : OutboundScope
  cls : OutboundClass
  priority : OutboundPriority
  weight : NonZeroU32
  deriving DecidableEq

/-- mirrors types.rs:215-222 -/
structure OutboundOverrides where
  priority : Option OutboundPriority
  weight : Option NonZeroU32
  cls : Option OutboundClass
  deriving DecidableEq

def OutboundOverrides.default : OutboundOverrides := ⟨none, none, none⟩

/-- mirrors adaptor.rs:475-482 -/
def effectiveMetadata (hint : OutboundHint) (overrides : OutboundOverrides) : OutboundMetadata where
  scope := hint.scope
  cls := overrides.cls.getD hint.cls
  priority := overrides.priority.getD hint.priority
  weight := overrides.weight.getD hint.weight

/-- The penalty follows the scope of the request, whatever the error.
mirrors adaptor.rs:495-497 -/
def retryAfterScope {ε : Type} (metadata : OutboundMetadata) (_error : ε) : OutboundScope := metadata.scope

/-- What the adaptor asks of the requests it wraps, and of their errors. -/
structure Inner (ρ ε : Type) where
  outboundHint : ρ → OutboundHint
  responseParameters : ε → Option Net.ResponseParameters

/-- mirrors errors.rs:78-83 -/
def Inner.retryAfter {ρ ε : Type} (inner : Inner ρ ε) (error : ε) : Option UInt32 :=
  match inner.responseParameters error with
  | some (.retryAfter seconds) => some seconds
  | _ => none

/-- The length of a `Duration` of seconds, in nanoseconds. -/
def duration (seconds : UInt32) : Nat := seconds.toNat * 10 ^ 9

/-- What the permit is completed with.
mirrors adaptor.rs:382-398 -/
def Inner.completion {ρ ε ω : Type} (inner : Inner ρ ε) (policy : OutboundMetadata) : Except ε ω → OutboundCompletion
  | .ok _ => .success
  | .error error =>
    match inner.retryAfter error with
    | some seconds => .retryAfter (retryAfterScope policy error) (duration seconds)
    | none => .failed

/-! ## Lanes -/

/-- The lane of `serial_lane` and `ordered_start_lane`.
mirrors actor.rs:535-539 -/
structure OutboundLane where
  key : OutboundLaneKey
  mode : OutboundLaneMode
  deriving DecidableEq

/-- mirrors actor.rs:591-595 -/
structure OutboundOrderedStartLane where
  key : OutboundLaneKey
  maxInFlight : NonZeroUsize
  deriving DecidableEq

/-- mirrors adaptor.rs:134-137 -/
inductive ScheduledLane where
  | serial (lane : OutboundLane)
  | boundedOrderedStart (lane : OutboundOrderedStartLane)
  deriving DecidableEq

/-- mirrors actor.rs:372-389 -/
def acquireInner (metadata : OutboundMetadata) (lane : Option OutboundLaneKey) (laneMode : Option OutboundLaneMode)
    (mode : OutboundEnqueueMode) (correlationId : Option OutboundCorrelationId) : Actor.Request where
  metadata := ⟨metadata.scope, lane, metadata.cls, metadata.priority, metadata.weight⟩
  laneMode := laneMode
  mode := mode
  correlationId := correlationId

/-- With and without a correlation id.
mirrors actor.rs:546-568 -/
def OutboundLane.acquire (lane : OutboundLane) (metadata : OutboundMetadata)
    (correlationId : Option OutboundCorrelationId) : Actor.Request :=
  acquireInner metadata (some lane.key) (some lane.mode) .fifo correlationId

/-- mirrors actor.rs:599-620 -/
def OutboundOrderedStartLane.acquire (lane : OutboundOrderedStartLane) (metadata : OutboundMetadata)
    (correlationId : Option OutboundCorrelationId) : Actor.Request :=
  acquireInner metadata (some lane.key) (some (.boundedOrderedStart lane.maxInFlight)) .fifo correlationId

namespace ScheduledLane

/-- mirrors adaptor.rs:139-158 -/
def acquire (lane : ScheduledLane) (metadata : OutboundMetadata) (correlationId : Option OutboundCorrelationId) :
    Actor.Request :=
  match lane with
  | .serial lane => lane.acquire metadata correlationId
  | .boundedOrderedStart lane => lane.acquire metadata correlationId

def key : ScheduledLane → OutboundLaneKey
  | .serial lane => lane.key
  | .boundedOrderedStart lane => lane.key

def mode : ScheduledLane → OutboundLaneMode
  | .serial lane => lane.mode
  | .boundedOrderedStart lane => .boundedOrderedStart lane.maxInFlight

end ScheduledLane

/-! ## Requests -/

/-- mirrors adaptor.rs:162-168 -/
structure ScheduledRequest (ρ : Type) where
  request : ρ
  lane : Option ScheduledLane
  overrides : OutboundOverrides
  correlationId : Option OutboundCorrelationId
  deriving DecidableEq

namespace ScheduledRequest

variable {ρ ε : Type}

/-- mirrors adaptor.rs:186-194 -/
def new (request : ρ) : ScheduledRequest ρ := ⟨request, none, .default, none⟩

/-- mirrors adaptor.rs:200-211 -/
def onLane (it : ScheduledRequest ρ) (lane : OutboundLane) : ScheduledRequest ρ :=
  { it with lane := some (.serial lane) }
def onOrderedStartLane (it : ScheduledRequest ρ) (lane : OutboundOrderedStartLane) : ScheduledRequest ρ :=
  { it with lane := some (.boundedOrderedStart lane) }

/-- mirrors adaptor.rs:214-248 -/
def priority (it : ScheduledRequest ρ) (priority : OutboundPriority) : ScheduledRequest ρ :=
  { it with overrides := { it.overrides with priority := some priority } }
def weight (it : ScheduledRequest ρ) (weight : NonZeroU32) : ScheduledRequest ρ :=
  { it with overrides := { it.overrides with weight := some weight } }
def cls (it : ScheduledRequest ρ) (cls : OutboundClass) : ScheduledRequest ρ :=
  { it with overrides := { it.overrides with cls := some cls } }
def withOutboundOverrides (it : ScheduledRequest ρ) (overrides : OutboundOverrides) : ScheduledRequest ρ :=
  { it with overrides := overrides }
def withCorrelationId (it : ScheduledRequest ρ) (correlationId : OutboundCorrelationId) : ScheduledRequest ρ :=
  { it with correlationId := some correlationId }

/-- The handles inside the value: that of the queue, and that of the lane. -/
def handles (it : ScheduledRequest ρ) : Nat := if it.lane.isSome then 2 else 1

end ScheduledRequest

/-- mirrors adaptor.rs:416-422 -/
structure SendRefPlan (ρ : Type) where
  request : ρ
  lane : Option ScheduledLane
  metadata : OutboundMetadata
  correlationId : Option OutboundCorrelationId
  deriving DecidableEq

namespace SendRefPlan

variable {ρ ε : Type}

/-- The request is classified as it is now.
mirrors adaptor.rs:316-332, 356-361 -/
def of (inner : Inner ρ ε) (it : ScheduledRequest ρ) : SendRefPlan ρ where
  request := it.request
  lane := it.lane
  metadata := effectiveMetadata (inner.outboundHint it.request) it.overrides
  correlationId := it.correlationId

/-- mirrors adaptor.rs:362-369, 428-435 -/
def acquire (plan : SendRefPlan ρ) : Actor.Request :=
  match plan.lane with
  | some lane => lane.acquire plan.metadata plan.correlationId
  | none => acquireInner plan.metadata none none .fifo plan.correlationId

def handles (plan : SendRefPlan ρ) : Nat := if plan.lane.isSome then 2 else 1

end SendRefPlan

/-- mirrors adaptor.rs:62-69 -/
inductive OutboundRequestError (ε : Type) where
  | inner (error : ε)
  | acquire (error : Actor.OutboundAcquireError)
  deriving DecidableEq

/-! ## The futures -/

/-- Where a request stands: a value of the caller, a future of `send` that was not polled, one of
`send_ref`, and then the places at which a poll can stop. `minted` and `permitted` are inside a poll:
the acquire has its token, and the permit is there but not started. `leaving` is the drop of an
acquire. -/
inductive Stage (ρ ε ω : Type) where
  | unborn
  | scheduled (it : ScheduledRequest ρ)
  | sending (it : ScheduledRequest ρ)
  | planned (plan : SendRefPlan ρ)
  | minted (plan : SendRefPlan ρ) (token : Actor.Token)
  | acquiring (plan : SendRefPlan ρ) (token : Actor.Token)
  | permitted (plan : SendRefPlan ρ) (token : Actor.Token)
  | running (plan : SendRefPlan ρ) (token : Actor.Token)
  | settling (plan : SendRefPlan ρ) (token : Actor.Token) (job : JobId) (outcome : Except ε ω)
  | leaving (plan : SendRefPlan ρ) (token : Actor.Token)
  | resolved (result : Except (OutboundRequestError ε) ω)
  | dropped

namespace Stage

variable {ρ ε ω : Type}

/-- The token of the acquire. -/
def token : Stage ρ ε ω → Option Actor.Token
  | .minted _ t | .acquiring _ t | .permitted _ t | .running _ t | .settling _ t _ _ | .leaving _ t => some t
  | .unborn | .scheduled _ | .sending _ | .planned _ | .resolved _ | .dropped => none

/-- What the future is to do. -/
def plan : Stage ρ ε ω → Option (SendRefPlan ρ)
  | .planned p | .minted p _ | .acquiring p _ | .permitted p _ | .running p _ | .settling p _ _ _ | .leaving p _ => some p
  | .unborn | .scheduled _ | .sending _ | .resolved _ | .dropped => none

/-- The handles that the value or the future holds. -/
def handles : Stage ρ ε ω → Nat
  | .scheduled it | .sending it => it.handles
  | .planned p | .minted p _ | .acquiring p _ | .permitted p _ | .running p _ | .settling p _ _ _ | .leaving p _ => p.handles
  | .unborn | .resolved _ | .dropped => 0

end Stage

/-- What can be seen of the scheduled requests. -/
inductive Note (ρ ε ω : Type) where
  | called (i : Nat) (plan : SendRefPlan ρ) (job : JobId)
  | answered (i : Nat) (outcome : Except ε ω) (now : Nat)
  | abandoned (i : Nat)
  | resolved (i : Nat) (result : Except (OutboundRequestError ε) ω)
  deriving DecidableEq

/-- What a step shows of the queue, and of the requests. -/
structure Event (ρ ε ω : Type) where
  queue : Option Actor.Event
  note : Option (Note ρ ε ω)

/-- `lanes` are the modes of the lanes that have been given out, by their keys. -/
structure Sys (ρ ε ω : Type) where
  queue : Actor.Sys
  lanes : List OutboundLaneMode
  futures : Nat → Stage ρ ε ω
  next : Nat

inductive Action (ρ ε ω : Type) where
  /-- A step of the actor, or of a caller with a token of its own. -/
  | other (action : Actor.Action)
  | newLane (mode : OutboundLaneMode)
  /-- `new`, or a clone. -/
  | build (it : ScheduledRequest ρ)
  /-- Through `payload_mut`, or by a method that gives the request back. -/
  | edit (i : Nat) (it : ScheduledRequest ρ)
  | send (i : Nat)
  | sendRef (i : Nat)
  | acquire (i : Nat)
  | trySend (i : Nat)
  | pollEnqueue (i : Nat)
  | pollGrant (i : Nat)
  | call (i : Nat)
  | answer (i : Nat) (outcome : Except ε ω)
  | settle (i : Nat)
  | drop (i : Nat)
  | sendCancel (i : Nat)
  | dropField (i : Nat)
  | gone (i : Nat)

namespace Sys

variable {ρ ε ω : Type}

def set (x : Sys ρ ε ω) (i : Nat) (stage : Stage ρ ε ω) : Sys ρ ε ω :=
  { x with futures := fun j => if j = i then stage else x.futures j }

/-- The handles inside values and futures. -/
def held (x : Sys ρ ε ω) : Nat := ((List.range x.next).map fun i => (x.futures i).handles).sum

/-- The lane has been given out, in its mode. -/
def Gave (x : Sys ρ ε ω) (lane : Option ScheduledLane) : Prop := ∀ l ∈ lane, x.lanes[l.key]? = some l.mode

/-- A request comes with a lane that has been given out, or with none. -/
def Knows (x : Sys ρ ε ω) (request : Actor.Request) : Prop :=
  match request.metadata.lane, request.laneMode with
  | some key, some mode => x.lanes[key]? = some mode
  | none, none => True
  | some _, none | none, some _ => False

/-- A step of the queue that is none of a scheduled request. -/
def Foreign (x : Sys ρ ε ω) (action : Actor.Action) : Prop :=
  (∀ t ∈ action.token, ∀ i < x.next, (x.futures i).token ≠ some t) ∧
    match action with
    | .mint request => x.Knows request
    | .dropHandle => x.held < x.queue.handles
    | _ => True

instance (x : Sys ρ ε ω) (lane : Option ScheduledLane) : Decidable (x.Gave lane) :=
  inferInstanceAs (Decidable (∀ l ∈ lane, x.lanes[l.key]? = some l.mode))

instance (x : Sys ρ ε ω) (request : Actor.Request) : Decidable (x.Knows request) := by
  unfold Knows
  split <;> infer_instance

instance (x : Sys ρ ε ω) (action : Actor.Action) : Decidable (x.Foreign action) := by
  refine @instDecidableAnd _ _ inferInstance ?_
  split <;> infer_instance

/-- A step that the queue takes no part in. -/
def alone (x : Sys ρ ε ω) (i : Nat) (stage : Stage ρ ε ω) (note : Option (Note ρ ε ω)) : Option (Sys ρ ε ω × Event ρ ε ω) :=
  some (x.set i stage, ⟨none, note⟩)

/-- A step of the queue for a request, and where the request stands then. -/
def through (x : Sys ρ ε ω) (i : Nat) (action : Actor.Action) (now : Nat)
    (go : Actor.Sys → Stage ρ ε ω × Option (Note ρ ε ω)) : Option (Sys ρ ε ω × Event ρ ε ω) :=
  (x.queue.step (action, now)).map fun r => ({ x with queue := r.1 }.set i (go r.1).1, ⟨some r.2, (go r.1).2⟩)

def resolve (x : Sys ρ ε ω) (i : Nat) (result : Except (OutboundRequestError ε) ω) : Option (Sys ρ ε ω × Event ρ ε ω) :=
  x.alone i (.resolved result) (some (.resolved i result))

/-- Where the poll of an acquire leaves the future.
mirrors adaptor.rs:370-373, 436-439 -/
def polled (i : Nat) (t : Actor.Token) (onward : Stage ρ ε ω) (q : Actor.Sys) : Stage ρ ε ω × Option (Note ρ ε ω) :=
  match (q.clients t).stage with
  | .failed error => (.resolved (.error (.acquire error)), some (.resolved i (.error (.acquire error))))
  | _ => (onward, none)

/-- The permit that a future holds. -/
def permit (x : Sys ρ ε ω) (t : Actor.Token) : Option Actor.OutboundPermit :=
  match (x.queue.clients t).stage with
  | .holding permit => some permit
  | _ => none

/-- The futures of `send` and `send_ref`.
mirrors adaptor.rs:350-401, 425-462 -/
def advance (inner : Inner ρ ε) (x : Sys ρ ε ω) (now : Nat) : Action ρ ε ω → Option (Sys ρ ε ω × Event ρ ε ω)
  | .acquire i =>
    let mint (plan : SendRefPlan ρ) := x.through i (.mint plan.acquire) now fun _ => (.minted plan x.queue.nextToken, none)
    match x.futures i with
    | .sending it => mint (.of inner it)
    | .planned plan => mint plan
    | _ => none
  | .trySend i =>
    match x.futures i with
    | .minted plan t => x.through i (.trySend t) now fun _ => (.acquiring plan t, none)
    | _ => none
  | .pollEnqueue i =>
    match x.futures i with
    | .acquiring plan t => x.through i (.pollEnqueue t) now (polled i t (.acquiring plan t))
    | _ => none
  | .pollGrant i =>
    match x.futures i with
    | .acquiring plan t => x.through i (.pollGrant t) now (polled i t (.permitted plan t))
    | _ => none
  | .call i =>
    match x.futures i with
    | .permitted plan t =>
      (x.permit t).bind fun permit => x.through i (.start t) now fun _ => (.running plan t, some (.called i plan permit.job))
    | _ => none
  | .answer i outcome =>
    match x.futures i with
    | .running plan t =>
      (x.permit t).bind fun permit =>
        x.through i (.completeAndAwait t (inner.completion plan.metadata outcome)) now fun _ =>
          (.settling plan t permit.job outcome, some (.answered i outcome now))
    | _ => none
  -- the acknowledgement has come, or its sender is gone
  | .settle i =>
    match x.futures i with
    | .settling _ _ job outcome =>
      if x.queue.completions job = 0 then x.resolve i (outcome.mapError .inner) else none
    | _ => none
  | _ => none

/-- A value or a future is dropped. -/
def discard (x : Sys ρ ε ω) (now : Nat) : Action ρ ε ω → Option (Sys ρ ε ω × Event ρ ε ω)
  | .drop i =>
    match x.futures i with
    | .scheduled _ | .sending _ | .planned _ | .settling .. => x.alone i .dropped none
    | .acquiring plan t => x.through i (.dropFuture t) now fun _ => (.leaving plan t, none)
    | .running _ t => x.through i (.dropPermit t) now fun _ => (.dropped, some (.abandoned i))
    | _ => none
  | .sendCancel i =>
    match x.futures i with
    | .leaving plan t => x.through i (.sendCancel t) now fun _ => (.leaving plan t, none)
    | _ => none
  | .dropField i =>
    match x.futures i with
    | .leaving plan t => x.through i (.dropField t) now fun _ => (.leaving plan t, none)
    | _ => none
  | .gone i =>
    match x.futures i with
    | .leaving _ t => if (x.queue.clients t).stage = .leaving [] then x.alone i .dropped none else none
    | _ => none
  | _ => none

/-- The callers, with the values that they have built; `none` for the other actions.
mirrors adaptor.rs:186-271, 312-347 -/
def caller (inner : Inner ρ ε) (x : Sys ρ ε ω) : Action ρ ε ω → Option (Sys ρ ε ω × Event ρ ε ω)
  | .newLane mode =>
    if 0 < x.queue.handles ∧ x.lanes.length < u64Size then some ({ x with lanes := x.lanes ++ [mode] }, ⟨none, none⟩)
    else none
  | .build it =>
    if x.Gave it.lane ∧ x.held + it.handles ≤ x.queue.handles then
      { x with next := x.next + 1 }.alone x.next (.scheduled it) none
    else none
  | .edit i it =>
    match x.futures i with
    | .scheduled old =>
      if x.Gave it.lane ∧ x.held + it.handles ≤ x.queue.handles + old.handles then x.alone i (.scheduled it) none else none
    | _ => none
  | .send i =>
    match x.futures i with
    | .scheduled it => x.alone i (.sending it) none
    | _ => none
  | .sendRef i =>
    match x.futures i with
    | .scheduled it =>
      if x.held + it.handles ≤ x.queue.handles then
        { x with next := x.next + 1 }.alone x.next (.planned (.of inner it)) none
      else none
    | _ => none
  | _ => none

def step (inner : Inner ρ ε) (x : Sys ρ ε ω) (m : Action ρ ε ω × Nat) : Option (Sys ρ ε ω × Event ρ ε ω) :=
  match m.1 with
  | .other action =>
    if x.Foreign action then
      (x.queue.step (action, m.2)).map fun r => ({ x with queue := r.1 }, ⟨some r.2, none⟩)
    else none
  | .newLane _ | .build _ | .edit .. | .send _ | .sendRef _ => x.caller inner m.1
  | .drop _ | .sendCancel _ | .dropField _ | .gone _ => x.discard m.2 m.1
  | .acquire _ | .trySend _ | .pollEnqueue _ | .pollGrant _ | .call _ | .answer .. | .settle _ => x.advance inner m.2 m.1

end Sys

/-- The adaptor over a queue of any configuration. -/
def adaptor {ρ ε : Type} (ω : Type) (inner : Inner ρ ε) : Machine (Sys ρ ε ω) (Action ρ ε ω × Nat) (Event ρ ε ω) where
  init x := Actor.queue.init x.queue ∧ x.lanes = [] ∧ x.next = 0 ∧ x.futures = fun _ => .unborn
  step := Sys.step inner

/-- The runs of the adaptor, newest event first. -/
abbrev Run {ρ ε ω : Type} (inner : Inner ρ ε) (τ : List (Event ρ ε ω)) (x : Sys ρ ε ω) : Prop :=
  (adaptor ω inner).Run Machine.anything τ x

end Teloxide.Outbound.Adaptor
