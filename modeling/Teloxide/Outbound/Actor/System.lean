import Teloxide.Outbound.Actor.Types

/-!
# The outbound queue

The futures, the permits and the actor of
`crates/teloxide-core/src/outbound/actor.rs` as one state machine, in any
interleaving.

* A client step is one poll, one call or one stage of a `Drop`.
* The actor takes one step for each command, for each grant it hands out and
  for each waiter it closes. The handler of `Enqueue` is cut before the reply:
  a future may be dropped between its acceptance and the reply.
* `order` and `fuel` are the choices the scheduler leaves open.
* A panic inside the loop is left out.
-/
namespace Teloxide.Outbound.Actor

open Teloxide.Core

/-- A result that a waiter has received. -/
inductive Verdict where
  | granted
  | superseded
  | closed
  deriving DecidableEq, Repr

def AcquireResult.verdict : AcquireResult → Verdict
  | .granted _ => .granted
  | .superseded => .superseded
  | .closed => .closed

/-- `sent` is an `Enqueue` command that has entered its channel, `reported` a
permit that was completed, `applied` the end of the handler of its command.
`accepted` carries the replaced job whose waiter was told so. -/
inductive Event where
  | quiet
  | sent (token : Token) (request : Request)
  | reported (job : JobId) (outcome : OutboundCompletion) (observedAt : Nat)
  | accepted (job : JobId) (token : Token) (replaced : Option JobId)
  | applied (job : JobId) (outcome : OutboundCompletion) (observedAt : Nat)
  | admitted (grants : List Grant) (now : Nat)
  | delivered (job : JobId) (verdict : Verdict)
  deriving DecidableEq

namespace Sys

/-! ## The handle -/

/-- `self.lifecycle.send(command)`; a send to an actor that is gone is lost. -/
def send (x : Sys) (command : OutboundCommand) : Sys :=
  match x.actor with
  | some _ => { x with lifecycle := x.lifecycle ++ [command] }
  | none => x

/-- A permit that is dropped before its completion.
mirrors actor.rs:946-960 -/
def dropPermit (x : Sys) (permit : OutboundPermit) (now : Nat) : Sys :=
  x.send (.complete permit.job permit.correlationId permit.token .cancelledAfterGrant now false)

/-- The token of a new acquire; its future holds a handle from here on.
mirrors actor.rs:395-404 -/
def mint (x : Sys) (request : Request) : Option Sys :=
  -- past the last `u64` the counter would start over
  if x.handles = 0 ∨ u64Size ≤ x.nextToken then none
  else some { x with
    nextToken := x.nextToken + 1
    futures := x.futures + 1
    clients := x.clients.setStage x.nextToken (.minted request) }

/-- mirrors actor.rs:405-440 -/
def trySend (x : Sys) (token : Token) : Option (Sys × Event) :=
  match (x.clients token).stage with
  | .minted request =>
    match x.actor with
    | none =>
      let clients := x.clients.dropSenders token
      some ({ x with clients := clients.setStage token (.enqueuing false) }, .quiet)
    | some a =>
      if x.ingress.length < a.queueCapacity then
        some ({ x with
          ingress := x.ingress ++ [⟨request, token⟩]
          clients := x.clients.setStage token (.enqueuing true) }, .sent token request)
      else
        let clients := (x.clients.sendResponse token (.error .queueFull)).1.dropGranted token
        some ({ x with clients := clients.setStage token (.enqueuing false) }, .quiet)
  | _ => none

/-- A resolved future keeps its handle until it is dropped. -/
def resolve (x : Sys) (token : Token) (stage : Stage) : Sys :=
  { x with clients := x.clients.setStage token stage, handles := x.handles + 1, futures := x.futures - 1 }

/-- mirrors actor.rs:674-707 -/
def pollEnqueue (x : Sys) (token : Token) : Option Sys :=
  match (x.clients token).stage with
  | .enqueuing _ =>
    let r := (x.clients token).response.poll
    let x := { x with clients := x.clients.modify token fun c => { c with response := r.1 } }
    match r.2 with
    | .pending => none
    -- the grant has a handle of its own
    | .ready (.ok _) => some { x with
        clients := x.clients.setStage token .waiting, handles := x.handles + 1 }
    | .ready (.error error) => some (x.resolve token (.failed (.queue error)))
    | .closed => some (x.resolve token (.failed (.queue .closed)))
  | _ => none

/-- mirrors actor.rs:741-761 -/
def pollGrant (x : Sys) (token : Token) : Option Sys :=
  match (x.clients token).stage with
  | .waiting =>
    let r := (x.clients token).granted.poll
    let x := { x with clients := x.clients.modify token fun c => { c with granted := r.1 } }
    match r.2 with
    | .pending => none
    | .ready (.granted permit) => some (x.resolve token (.holding permit))
    | .ready .superseded => some (x.resolve token (.failed .superseded))
    | .ready .closed | .closed => some (x.resolve token (.failed (.queue .closed)))
  | _ => none

/-! ## Dropping a future -/

/-- The compare-exchanges of a `Drop`, and what is left to do. -/
def cancelling (x : Sys) (token : Token) (fields : List Field) : Sys :=
  match cancelToken (x.clients token).tokenState with
  | some state => { x with clients := (x.clients.store token state).setStage token (.cancelling fields) }
  | none => { x with clients := x.clients.setStage token (.leaving fields) }

/-- mirrors actor.rs:709-726, 763-773 -/
def dropFuture (x : Sys) (token : Token) : Option Sys :=
  match (x.clients token).stage with
  | .enqueuing true => some (x.cancelling token enqueueFields)
  | .enqueuing false => some { x with clients := x.clients.setStage token (.leaving enqueueFields) }
  | .waiting => some (x.cancelling token grantFields)
  | _ => none

/-- mirrors actor.rs:522-524 -/
def sendCancel (x : Sys) (token : Token) : Option Sys :=
  match (x.clients token).stage with
  | .cancelling fields =>
    some ({ x with clients := x.clients.setStage token (.leaving fields) }.send (.cancel token))
  | _ => none

/-- The receiver of the grant goes, with a permit that was not taken. -/
def dropGrantReceiver (x : Sys) (token : Token) (now : Nat) : Sys :=
  let r := (x.clients token).granted.dropReceiver
  let x := { x with clients := x.clients.modify token fun c => { c with granted := r.1 } }
  match r.2 with
  | some (.granted permit) => x.dropPermit permit now
  | _ => x

/-- The next field of a dropped future. -/
def dropField (x : Sys) (token : Token) (now : Nat) : Option Sys :=
  match (x.clients token).stage with
  | .leaving (field :: fields) =>
    let x := { x with clients := x.clients.setStage token (.leaving fields) }
    match field with
    | .handle => some { x with futures := x.futures - 1 }
    | .granted => some (x.dropGrantReceiver token now)
    | .response => some { x with
        clients := x.clients.modify token fun c => { c with response := c.response.dropReceiver.1 } }
  | _ => none

/-! ## The permit -/

/-- mirrors actor.rs:870-884 -/
def startPermit (x : Sys) (token : Token) : Option Sys :=
  match (x.clients token).stage with
  | .holding permit =>
    if permit.started then none
    else some ({ x with
      clients := x.clients.setStage token (.holding { permit with started := true }) }.send
        (.start permit.job permit.correlationId))
  | _ => none

/-- mirrors actor.rs:886-917 -/
def complete (x : Sys) (token : Token) (outcome : OutboundCompletion) (observedAt : Nat) :
    Option (Sys × Event) :=
  match (x.clients token).stage with
  | .holding permit =>
    some ({ x with
      clients := (x.clients.setStage token .finished).store permit.token .terminal }.send
        (.complete permit.job permit.correlationId permit.token outcome observedAt false),
      .reported permit.job outcome observedAt)
  | _ => none

/-- Without the store of the other way to complete.
mirrors actor.rs:919-944 -/
def completeAndAwait (x : Sys) (token : Token) (outcome : OutboundCompletion) (now : Nat) :
    Option (Sys × Event) :=
  match (x.clients token).stage with
  | .holding permit =>
    some ({ x with clients := x.clients.setStage token .finished }.send
      (.complete permit.job permit.correlationId permit.token outcome now true),
      .reported permit.job outcome now)
  | _ => none

def releasePermit (x : Sys) (token : Token) (now : Nat) : Option Sys :=
  match (x.clients token).stage with
  | .holding permit => some ({ x with clients := x.clients.setStage token .finished }.dropPermit permit now)
  | _ => none

end Sys

/-! ## The actor -/

namespace OutboundActor

/-- mirrors actor.rs:1014-1023 -/
def forgetJob (a : OutboundActor) (clients : Clients) (job : JobId) : OutboundActor × Clients :=
  match a.jobTokens.lookup job with
  | none => (a, clients)
  | some token =>
    let a := { a with jobTokens := a.jobTokens.erase job, pendingTokens := a.pendingTokens.erase token }
    match a.tokenStates.lookup token with
    | none => (a, clients)
    | some _ =>
      ({ a with tokenStates := a.tokenStates.erase token }, clients.store token .terminal)

/-- The waiter of a job is told something, if it is there; the job is the one
of whose waiter the receiver has got it. -/
def tell (a : OutboundActor) (clients : Clients) (job : JobId) (result : AcquireResult) :
    OutboundActor × Clients × Option JobId :=
  match a.waiters.lookup job with
  | none => (a, clients, none)
  | some token =>
    let r := clients.sendGranted token result
    ({ a with waiters := a.waiters.erase job }, r.1, if r.2 then some job else none)

/-- `self.waiters.remove(&job_id)`. -/
def dropWaiter (a : OutboundActor) (clients : Clients) (job : JobId) : OutboundActor × Clients :=
  match a.waiters.lookup job with
  | none => (a, clients)
  | some token => ({ a with waiters := a.waiters.erase job }, clients.dropGranted token)

/-- mirrors actor.rs:1131-1137 -/
def handleCancel (a : OutboundActor) (clients : Clients) (token : Token) (now : Nat) :
    OutboundActor × Clients :=
  match a.pendingTokens.lookup token with
  | none => (a, clients)
  | some job =>
    let r := { a with pendingTokens := a.pendingTokens.erase token }.dropWaiter clients job
    { r.1 with scheduler := r.1.scheduler.cancel job now }.forgetJob r.2 job

/-- mirrors actor.rs:1142-1168 -/
def handleComplete (a : OutboundActor) (clients : Clients) (job : JobId) (token : Token)
    (outcome : OutboundCompletion) (observedAt now : Nat) : OutboundActor × Clients :=
  { a with scheduler := a.scheduler.complete job outcome now observedAt }.forgetJob
    (clients.store token .terminal) job

/-- The handler of the commands of the lifecycle channel; `none` when `order` is
not an order of the waiting candidates.
mirrors actor.rs:1131-1209 -/
def handleCommand (a : OutboundActor) (clients : Clients) (order : List CandidateRef) (now : Nat) :
    OutboundCommand → Option (OutboundActor × Clients)
  | .cancel token => some (a.handleCancel clients token now)
  | .start job _ => some ({ a with scheduler := a.scheduler.start job now }, clients)
  | .complete job _ token outcome observedAt _ =>
    some (a.handleComplete clients job token outcome observedAt now)
  | .penalize scope duration =>
    if duration = 0 then some (a, clients)
    else some ({ a with scheduler := a.scheduler.penalize scope (now + duration) }, clients)
  | .setLimits limits =>
    if order.Perm a.scheduler.waitingReferences then
      some ({ a with scheduler := (a.scheduler.setLimits limits order now).1 }, clients)
    else none
  | .setClassLimits limits =>
    if order.Perm a.scheduler.waitingReferences then
      some ({ a with scheduler := (a.scheduler.setClassLimits limits order now).1 }, clients)
    else none
  | .getLimits | .getClassLimits | .setObserver | .getSnapshot | .shutdown => some (a, clients)

/-- The options of the scheduler call.
mirrors actor.rs:1066-1087 -/
def enqueueOptions (a : OutboundActor) (request : Request) (now : Nat) : EnqueueOptions where
  laneMode := request.laneMode.getD .serial
  mode := request.mode
  queueCapacity := a.queueCapacity
  notBefore := none
  now := now
  correlationId := request.correlationId

/-- The waiter of the replaced job is told and the job forgotten.
mirrors actor.rs:1090-1095 -/
def supersede (a : OutboundActor) (clients : Clients) :
    Option JobId → OutboundActor × Clients × Option JobId
  | none => (a, clients, none)
  | some old =>
    let r := a.tell clients old .superseded
    let f := r.1.forgetJob r.2.1 old
    (f.1, f.2, r.2.2)

/-- The three maps learn of the new job.
mirrors actor.rs:1096-1098 -/
def record (a : OutboundActor) (job : JobId) (token : Token) : OutboundActor :=
  { a with
    pendingTokens := a.pendingTokens.insert token job
    jobTokens := a.jobTokens.insert job token
    tokenStates := a.tokenStates.insert token () }

end OutboundActor

/-- Where the loop goes on after a command: the drain, or its start. -/
def Phase.afterCommand : Phase → Phase
  | .draining n => .draining (n + 1)
  | _ => .draining 0

/-- The loop may take a command of the lifecycle channel. -/
def Phase.receives : Phase → Bool
  | .draining n => n < LIFECYCLE_DRAIN_BATCH
  | .selecting _ => true
  | _ => false

/-- What is seen of a command once it is handled. -/
def OutboundCommand.handled : OutboundCommand → Event
  | .complete job _ _ outcome observedAt _ => .applied job outcome observedAt
  | _ => .quiet

namespace Sys

/-- The state with the actor and the clients of a handler. -/
def put (x : Sys) (r : OutboundActor × Clients) : Sys := { x with actor := some r.1, clients := r.2 }

/-- A command of the lifecycle channel, in the drain or in the `select!`.
mirrors actor.rs:1300-1312, 1339-1353 -/
def receive (x : Sys) (a : OutboundActor) (order : List CandidateRef) (now : Nat) : Option (Sys × Event) :=
  if a.phase.receives then
    match x.lifecycle with
    | [] => none
    | .shutdown :: rest => some ({ x with lifecycle := rest }.put ({ a with phase := .closing }, x.clients), .quiet)
    | command :: rest =>
      (a.handleCommand x.clients order now command).map fun r =>
        ({ x with lifecycle := rest }.put ({ r.1 with phase := a.phase.afterCommand }, r.2), command.handled)
  else none

/-- The handler of `Enqueue` up to the reply.
mirrors actor.rs:1037-1099, 1354-1356 -/
def accept (x : Sys) (a : OutboundActor) (now : Nat) : Option (Sys × Event) :=
  match a.phase, x.ingress with
  | .selecting _, ⟨request, token⟩ :: rest =>
    let x := { x with ingress := rest }
    if (x.clients token).tokenState ≠ .pending then
      let clients := ((x.clients.store token .terminal).sendResponse token (.error .closed)).1
      some (x.put ({ a with phase := .draining 0 }, clients.dropGranted token), .quiet)
    else
      let clients := x.clients.store token .accepted
      match a.scheduler.enqueue request.metadata (a.enqueueOptions request now) with
      | (s, .ok outcome) =>
        -- the last id overflows `next_job_id += 1`
        if outcome.job + 1 < u64Size then
          let r := { a with scheduler := s }.supersede clients outcome.superseded
          some (x.put ({ r.1.record outcome.job token with phase := .answering token (.ok outcome.job) }, r.2.1),
            .accepted outcome.job token r.2.2)
        else none
      | (s, .error error) =>
        some (x.put ({ a with scheduler := s, phase := .answering token (.error error) }, clients), .quiet)
  | _, _ => none

/-- The reply, and what follows from it.
mirrors actor.rs:1100-1130 -/
def answer (x : Sys) (a : OutboundActor) (now : Nat) : Option Sys :=
  match a.phase with
  | .answering token (.ok job) =>
    let r := x.clients.sendResponse token (.ok job)
    if r.2 then
      some (x.put ({ a with waiters := a.waiters.insert job token, phase := .draining 0 }, r.1))
    else
      let f := { a with scheduler := a.scheduler.cancel job now }.forgetJob r.1 job
      some (x.put ({ f.1 with phase := .draining 0 }, f.2.dropGranted token))
  | .answering token (.error error) =>
    let r := (x.clients.store token .terminal).sendResponse token (.error (.ofEnqueueError error))
    some (x.put ({ a with phase := .draining 0 }, r.1.dropGranted token))
  | _ => none

/-- The drain is over and the pass begins.
mirrors actor.rs:1300-1312, 1250-1253 -/
def runAdmission (x : Sys) (a : OutboundActor) (order : List WindowRef) (fuel now : Nat) : Option (Sys × Event) :=
  match a.phase with
  | .draining n =>
    if n < LIFECYCLE_DRAIN_BATCH ∧ x.lifecycle ≠ [] then none
    else
      (a.scheduler.grantReady order fuel now).map fun r =>
        (x.put ({ a with scheduler := r.1, phase := .delivering r.2 now }, x.clients), .admitted r.2 now)
  | _ => none

/-- One grant; a permit that reaches nobody is dropped.
mirrors actor.rs:1220-1241 -/
def deliver (x : Sys) (a : OutboundActor) (now : Nat) : Option (Sys × Event) :=
  match a.phase with
  | .delivering (grant :: grants) t =>
    let a := { a with phase := .delivering grants t }
    match a.jobTokens.lookup grant.job with
    | none => some (x.put (a, x.clients), .quiet)
    | some token =>
      match a.tokenStates.lookup token with
      | none => some (x.put (a, x.clients), .quiet)
      | some _ =>
        let permit : OutboundPermit := ⟨grant.job, token, grant.correlationId, false⟩
        let r := a.tell x.clients grant.job (.granted permit)
        match r.2.2 with
        | some job => some (x.put (r.1, r.2.1), .delivered job .granted)
        | none => some ((x.put (r.1, r.2.1)).dropPermit permit now, .quiet)
  | _ => none

/-- mirrors actor.rs:1258-1271 -/
def timerDeadline (now : Nat) : SchedulerWakeup → Nat
  | .at instant => instant
  | .immediate => now
  | .externalEvent => now + 365 * 24 * 3600 * 10 ^ 9

/-- mirrors actor.rs:1254, 1336-1338 -/
def park (x : Sys) (a : OutboundActor) (now : Nat) : Option Sys :=
  match a.phase with
  | .delivering [] t =>
    let r := a.scheduler.nextDeadline t
    some (x.put ({ a with scheduler := r.1, phase := .selecting (timerDeadline now r.2) }, x.clients))
  | _ => none

/-- mirrors actor.rs:1370 -/
def timer (x : Sys) (a : OutboundActor) (now : Nat) : Option Sys :=
  match a.phase with
  | .selecting deadline =>
    if deadline ≤ now then some (x.put ({ a with phase := .draining 0 }, x.clients)) else none
  | _ => none

/-- No enqueue sender is left.
mirrors actor.rs:1357-1368 -/
def ingressClosed (x : Sys) (a : OutboundActor) : Option Sys :=
  match a.phase with
  | .selecting _ =>
    if x.handles = 0 ∧ x.futures = 0 ∧ x.ingress = [] then
      some (x.put ({ a with phase := .closing }, x.clients))
    else none
  | _ => none

/-- mirrors actor.rs:1243-1247 -/
def closeWaiter (x : Sys) (a : OutboundActor) (job : JobId) : Option (Sys × Event) :=
  if a.phase ≠ .closing ∨ a.waiters.lookup job = none then none
  else
    let r := a.tell x.clients job .closed
    some (x.put (r.1, r.2.1), match r.2.2 with
      | some job => .delivered job .closed
      | none => .quiet)

/-- The actor ends; what is left in its channels is dropped. -/
def stop (x : Sys) (a : OutboundActor) : Option Sys :=
  if a.phase = .closing ∧ a.waiters = ∅ then
    some { x with
      actor := none
      lifecycle := []
      ingress := []
      clients := (x.ingress.map (·.token)).foldl Clients.dropSenders x.clients }
  else none

end Sys

/-! ## The machine -/

inductive Action where
  | mint (request : Request)
  | trySend (token : Token)
  | pollEnqueue (token : Token)
  | pollGrant (token : Token)
  | dropFuture (token : Token)
  | sendCancel (token : Token)
  | dropField (token : Token)
  | start (token : Token)
  | complete (token : Token) (outcome : OutboundCompletion) (observedAt : Nat)
  | completeAndAwait (token : Token) (outcome : OutboundCompletion)
  | dropPermit (token : Token)
  | command (command : OutboundCommand)
  | cloneHandle
  | dropHandle
  | receive (order : List CandidateRef)
  | accept
  | answer
  | runAdmission (order : List WindowRef) (fuel : Nat)
  | deliver
  | park
  | timer
  | ingressClosed
  | closeWaiter (job : JobId)
  | stop

namespace Sys

/-- The steps of the callers. -/
def client (x : Sys) (now : Nat) : Action → Option (Sys × Event)
  | .mint request => (x.mint request).map (·, .quiet)
  | .trySend token => x.trySend token
  | .pollEnqueue token => (x.pollEnqueue token).map (·, .quiet)
  | .pollGrant token => (x.pollGrant token).map (·, .quiet)
  | .dropFuture token => (x.dropFuture token).map (·, .quiet)
  | .sendCancel token => (x.sendCancel token).map (·, .quiet)
  | .dropField token => (x.dropField token now).map (·, .quiet)
  | .start token => (x.startPermit token).map (·, .quiet)
  | .complete token outcome observedAt => x.complete token outcome observedAt
  | .completeAndAwait token outcome => x.completeAndAwait token outcome now
  | .dropPermit token => (x.releasePermit token now).map (·, .quiet)
  | .command command => if 0 < x.handles ∧ command.isPublic then some (x.send command, .quiet) else none
  | .cloneHandle => if 0 < x.handles then some ({ x with handles := x.handles + 1 }, .quiet) else none
  | .dropHandle => if 0 < x.handles then some ({ x with handles := x.handles - 1 }, .quiet) else none
  | _ => none

/-- The steps of the actor. -/
def act (x : Sys) (a : OutboundActor) (now : Nat) : Action → Option (Sys × Event)
  | .receive order => x.receive a order now
  | .accept => x.accept a now
  | .answer => (x.answer a now).map (·, .quiet)
  | .runAdmission order fuel => x.runAdmission a order fuel now
  | .deliver => x.deliver a now
  | .park => (x.park a now).map (·, .quiet)
  | .timer => (x.timer a now).map (·, .quiet)
  | .ingressClosed => (x.ingressClosed a).map (·, .quiet)
  | .closeWaiter job => x.closeWaiter a job
  | .stop => (x.stop a).map (·, .quiet)
  | _ => none

/-- One step of a caller or of the actor, at an instant that does not go back. -/
def step (x : Sys) (m : Action × Nat) : Option (Sys × Event) :=
  if m.2 < x.clock then none
  else
    let x := { x with clock := m.2 }
    match x.client m.2 m.1 with
    | some r => some r
    | none => x.actor.bind fun a => x.act a m.2 m.1

end Sys

/-- mirrors actor.rs:240-282 -/
def OutboundActor.new (scheduler : SchedulerState) (queueCapacity : Nat) : OutboundActor where
  scheduler := scheduler
  waiters := ∅
  pendingTokens := ∅
  jobTokens := ∅
  tokenStates := ∅
  queueCapacity := queueCapacity
  phase := .draining 0

def Sys.new (a : OutboundActor) (clock : Nat) : Sys where
  actor := some a
  clients := fun _ => .new
  ingress := []
  lifecycle := []
  nextToken := 0
  handles := 1
  futures := 0
  clock := clock

/-- The queue, from every configuration it can be built with. -/
def queue : Machine Sys (Action × Nat) Event where
  init x := ∃ limits classLimits aging scheduler capacity clock,
    SchedulerState.newWithClassLimits limits classLimits aging = .ok scheduler ∧ capacity ≠ 0 ∧
      x = .new (.new scheduler capacity) clock
  step := Sys.step

/-- The runs of the queue, newest event first. -/
abbrev Run (τ : List Event) (x : Sys) : Prop := queue.Run Machine.anything τ x

end Teloxide.Outbound.Actor
