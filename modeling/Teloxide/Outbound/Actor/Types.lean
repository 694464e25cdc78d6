import Teloxide.Core.Oneshot
import Teloxide.Outbound.Scheduler.Run

/-!
# The data of the outbound actor

`crates/teloxide-core/src/outbound/actor.rs`: the commands, the futures of a
two-phase acquire, the permits and the actor that owns the scheduler.

* An acquire is known by its token. The objects it shares with the actor, the
  atomic token state and the two one-value channels, are fields of its `Client`,
  so a reference to one of them is the token.
* The observer and the answers to queries are left out: nothing reads them.
* A future or a permit that its owner leaks is one that takes no more steps.
-/
namespace Teloxide.Outbound.Actor

open Teloxide.Core

abbrev Token := Nat

/-- The values of the shared token state.
mirrors actor.rs:121-124 -/
inductive TokenState where
  | pending
  | cancelled
  | accepted
  | terminal
  deriving DecidableEq, Repr

/-- The two compare-exchanges; `none` when both fail.
mirrors actor.rs:126-133 -/
def cancelToken : TokenState → Option TokenState
  | .pending | .accepted => some .cancelled
  | .cancelled | .terminal => none

/-- mirrors types.rs:496-508 -/
inductive OutboundQueueError where
  | closed
  | queueFull
  | weightExceedsWindow (scope : OutboundScope) (weight : NonZeroU32) (capacity : Nat)
  | incompatibleCoalesceMetadata
  deriving DecidableEq

/-- The errors of `enqueue`, as the actor passes them on.
mirrors actor.rs:1112-1129 -/
def OutboundQueueError.ofEnqueueError : EnqueueError → OutboundQueueError
  | .queueFull => .queueFull
  | .incompatibleCoalesceMetadata => .incompatibleCoalesceMetadata
  | .weightExceedsWindow scope weight capacity => .weightExceedsWindow scope weight capacity

/-- mirrors types.rs:513-526 -/
inductive OutboundAcquireError where
  | queue (error : OutboundQueueError)
  | superseded
  deriving DecidableEq

/-- What `acquire_inner` is called with. The lane of the request, if any, is in
its metadata.
mirrors actor.rs:376-383 -/
structure Request where
  metadata : OutboundMeta
  laneMode : Option OutboundLaneMode
  mode : OutboundEnqueueMode
  correlationId : Option OutboundCorrelationId
  deriving DecidableEq

/-- mirrors actor.rs:137-160 -/
structure EnqueueCommand where
  request : Request
  token : Token
  deriving DecidableEq

/-- The commands of the unbounded channel.
mirrors actor.rs:161-207 -/
inductive OutboundCommand where
  | cancel (token : Token)
  | start (job : JobId) (correlationId : Option OutboundCorrelationId)
  | complete (job : JobId) (correlationId : Option OutboundCorrelationId) (token : Token)
      (outcome : OutboundCompletion) (observedAt : Nat) (ack : Bool)
  | penalize (scope : OutboundScope) (duration : Nat)
  | getLimits
  | setLimits (limits : OutboundLimits)
  | getClassLimits
  | setClassLimits (limits : OutboundClassLimits)
  | setObserver
  | getSnapshot
  | shutdown
  deriving DecidableEq

/-- The commands that the methods of a handle send. -/
def OutboundCommand.isPublic : OutboundCommand → Bool
  | .cancel _ | .start .. | .complete .. => false
  | _ => true

/-- A permit is consumed by its completion, so `completed` is no field.
mirrors actor.rs:847-854 -/
structure OutboundPermit where
  job : JobId
  token : Token
  correlationId : Option OutboundCorrelationId
  started : Bool
  deriving DecidableEq

/-- mirrors actor.rs:211-221 -/
inductive AcquireResult where
  | granted (permit : OutboundPermit)
  | superseded
  | closed
  deriving DecidableEq

/-! ## The futures -/

/-- The fields of a future whose drop can be seen from outside. -/
inductive Field where
  | handle
  | granted
  | response
  deriving DecidableEq, Repr

/-- The fields of `OutboundEnqueue` and of `OutboundGrant`, in the order they
are dropped. -/
def enqueueFields : List Field := [.handle, .granted, .response]
def grantFields : List Field := [.handle, .granted]

/-- Where an acquire stands, from the token to the permit. `cancelling` is the
`Drop` of a future between a compare-exchange that succeeded and the command;
`leaving` drops the fields that are left. -/
inductive Stage where
  | unborn
  | minted (request : Request)
  | enqueuing (sent : Bool)
  | waiting
  | cancelling (fields : List Field)
  | leaving (fields : List Field)
  | failed (error : OutboundAcquireError)
  | holding (permit : OutboundPermit)
  | finished
  deriving DecidableEq

/-- The future has been dropped before it resolved. -/
def Stage.dropped : Stage → Bool
  | .cancelling _ | .leaving _ => true
  | _ => false

structure Client where
  tokenState : TokenState
  response : Oneshot (Except OutboundQueueError JobId)
  granted : Oneshot AcquireResult
  stage : Stage
  deriving DecidableEq

def Client.new : Client := ⟨.pending, .channel, .channel, .unborn⟩

abbrev Clients := Token → Client

namespace Clients

def modify (clients : Clients) (token : Token) (f : Client → Client) : Clients :=
  fun t => if t = token then f (clients t) else clients t

/-- `token_state.store(state)`. -/
def store (clients : Clients) (token : Token) (state : TokenState) : Clients :=
  clients.modify token fun c => { c with tokenState := state }

def setStage (clients : Clients) (token : Token) (stage : Stage) : Clients :=
  clients.modify token fun c => { c with stage := stage }

/-- `granted.send(result)`; the value is `true` when it went through. -/
def sendGranted (clients : Clients) (token : Token) (result : AcquireResult) : Clients × Bool :=
  (clients.modify token fun c => { c with granted := (c.granted.send result).1 },
    ((clients token).granted.send result).2)

def dropGranted (clients : Clients) (token : Token) : Clients :=
  clients.modify token fun c => { c with granted := c.granted.dropSender }

/-- `response.send(reply)`; the value is `true` when it went through. -/
def sendResponse (clients : Clients) (token : Token) (reply : Except OutboundQueueError JobId) :
    Clients × Bool :=
  (clients.modify token fun c => { c with response := (c.response.send reply).1 },
    ((clients token).response.send reply).2)

/-- An `Enqueue` command is dropped, with both of its senders. -/
def dropSenders (clients : Clients) (token : Token) : Clients :=
  clients.modify token fun c =>
    { c with response := c.response.dropSender, granted := c.granted.dropSender }

end Clients

/-! ## The actor -/

/-- Where the loop of `run` stands. `answering` is the handler of an `Enqueue`
command between the acceptance and the reply, `delivering` the loop of
`deliver_grants`, `closing` the loop of `shutdown_waiters`.
mirrors actor.rs:1273-1371 -/
inductive Phase where
  | draining (drained : Nat)
  | delivering (grants : List Grant) (now : Nat)
  | selecting (timer : Nat)
  | answering (token : Token) (reply : Except EnqueueError JobId)
  | closing
  deriving DecidableEq

/-- mirrors actor.rs:988-991 -/
def LIFECYCLE_DRAIN_BATCH : Nat := 64

/-- mirrors actor.rs:962-985 -/
structure OutboundActor where
  scheduler : SchedulerState
  /-- The sender of a job's waiter is that of its token. -/
  waiters : Table JobId Token
  pendingTokens : Table Token JobId
  jobTokens : Table JobId Token
  /-- The state of a token is that of its client. -/
  tokenStates : Table Token Unit
  queueCapacity : Nat
  phase : Phase

/-- The grants of the pass under way that are not handed out yet. -/
def Phase.undelivered : Phase → List Grant
  | .delivering grants _ => grants
  | _ => []

/-- The actor, the acquires and what is under way between them. `handles` counts
the enqueue senders outside pending futures, `futures` those inside. -/
structure Sys where
  actor : Option OutboundActor
  clients : Clients
  ingress : List EnqueueCommand
  lifecycle : List OutboundCommand
  nextToken : Nat
  handles : Nat
  futures : Nat
  clock : Nat

end Teloxide.Outbound.Actor
