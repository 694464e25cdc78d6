import Teloxide.Core.Machine
import Teloxide.Drafter.Worker

/-!
# A drafter and its callers

The task of the worker (`Worker::run_loop` and `handle_command`,
`crates/teloxide/src/drafter/machine.rs:337-382, 529-1573`) together with the
producers, the owner of the `Drafter` and the holders of a `DrafterHandle`.

* The task is cut at every `await` and at every access to the shared source. A
  `Phase` says where it stands; between two awaits others may act, but no time
  passes (`Phase.waits`).
* What the limiter, the backend and the runtime answer is an argument of the
  step. A `select!` marked `biased` takes its first branch that is ready.
* A future that a caller drops is in `dropped`: the worker sees its reply closed.
  Callers are not held to the borrow rules, so there are more runs than in Rust.
* `log` is what can be seen from outside, newest first. Metrics, the generation
  and the penalties of the limiter are left out.
* A step is `none` where the source would panic.
-/
namespace Teloxide.Drafter

variable {P : Type}

/-- mirrors machine.rs:61-78 -/
inductive Command (F : Type) where
  | flush (target : DraftRevision) (reply : CallId)
  | commit (payload : F) (reply : CallId)
  | finish (payload : F) (reply : CallId)
  | abort (reply : CallId)

def Command.reply {F : Type} : Command F → CallId
  | .flush _ reply | .commit _ reply | .finish _ reply | .abort reply => reply

/-- A backend call for a final payload that was not cancelled.
mirrors machine.rs:85-90 -/
inductive TerminalCall (B : DrafterBackend P) where
  | completed (result : Except B.Error B.Delivered)
  | requestTimeout
  | deadline

/-- How such a call has ended, as far as its delivery is concerned. -/
inductive CallEnd where
  | ok
  | error (disposition : DrafterErrorDisposition)
  | requestTimeout
  | deadline
  deriving DecidableEq

/-- The locals of the retry loop of `Commit` and `Finish`.
mirrors machine.rs:887-1000, 1260-1385 -/
structure Terminal (B : DrafterBackend P) where
  kind : TerminalKind
  call : CallId
  payload : B.Final
  operationDeadline : Nat
  retryNotBefore : Option Nat
  retryCount : Nat
  failureDisposition : Option DrafterErrorDisposition
  payloadInvalid : Bool

/-- Where the processing of `Commit` or `Finish` stands. -/
inductive TerminalStage (B : DrafterBackend P) where
  /-- the first `select!` of `wait_for_terminal_permit` -/
  | retrying
  /-- its second `select!` -/
  | acquiring
  /-- the permit is there, the call not yet polled; `kept` permits are completed by the worker -/
  | calling (scheduled kept : Bool)
  | inCall (scheduled kept : Bool) (startedAt : Nat)
  /-- the permit is being completed -/
  | completing (attempt : TerminalCall B)
  /-- `run_success_cleanup` asks the limiter -/
  | cleanupAcquire (until' : Nat) (output : B.Delivered)
  /-- `run_success_cleanup` calls the backend -/
  | cleaningUp (until' : Nat) (output : B.Delivered) (scheduled : Bool)
  /-- the failed-delivery cleanup asks the limiter -/
  | abortAcquire (until' : Nat) (outcome : TerminalOutcome B.Delivered B.Error)
  /-- the failed-delivery cleanup calls `abort` -/
  | aborting (until' : Nat) (outcome : TerminalOutcome B.Delivered B.Error)
  /-- the gate is set and the reply sent next -/
  | concluding (outcome : TerminalOutcome B.Delivered B.Error)

/-- What becomes of a preview attempt whose permit goes back unused. -/
inductive Discard where
  | notRunning
  | noPreview (currentRevision : DraftRevision)
  | noop (revision : DraftRevision)
  deriving DecidableEq

/-- Where the task of the worker stands. -/
inductive Phase (B : DrafterBackend P) where
  | loopTop
  /-- the `select!` of `run_loop` -/
  | waiting (deadline : Option Nat)
  /-- the `select!` of `run_due_preview` -/
  | acquiring (p : PreviewAttempt)
  /-- the permit is there, `is_running` is asked next -/
  | granted (p : PreviewAttempt)
  /-- the gate was `Running`, the snapshot is taken next -/
  | checked (p : PreviewAttempt)
  | discarding (d : Discard)
  | updating (p : PreviewAttempt) (snapshot : PreviewSnapshot P) (kept : Bool) (startedAt : Nat)
  | settling (revision : DraftRevision) (how : PreviewEnd)
  | terminal (t : Terminal B) (stage : TerminalStage B)
  /-- `Abort` asks the limiter -/
  | abortAcquire (call : CallId) (until' : Nat)
  /-- `Abort` calls the backend -/
  | aborting (call : CallId) (until' : Nat)
  /-- the loop has ended -/
  | stopped
  /-- the task was aborted -/
  | killed

/-- The task waits, so time may pass. -/
def Phase.waits {B : DrafterBackend P} : Phase B → Bool
  | .loopTop | .granted _ | .checked _ | .terminal _ (.calling ..) | .terminal _ (.concluding _) => false
  | _ => true

/-- The task still has its receiver. -/
def Phase.alive {B : DrafterBackend P} : Phase B → Bool
  | .stopped | .killed => false
  | _ => true

/-- How the updates up to a revision were dealt with. -/
inductive Covering where
  | acked
  | noop
  | noPreview
  deriving DecidableEq

/-- What can be seen from outside. -/
inductive Event (B : DrafterBackend P) where
  | pushed (result : Except DraftPushError DraftRevision)
  | flushCalled (call : CallId) (target : DraftRevision) (segment : Nat)
  | flushAnswered (call : CallId) (result : Except DraftFlushError DraftRevision)
  /-- `stop`, `finish` or `abort` has closed the source -/
  | closed (call : CallId)
  | previewStarted (segment : Nat) (b : B.State) (snapshot : PreviewSnapshot P)
  /-- the request that was started with `b` has ended -/
  | previewEnded (segment : Nat) (b : B.State) (snapshot : PreviewSnapshot P) (how : PreviewEnd)
  | covered (segment : Nat) (revision : DraftRevision) (how : Covering)
  /-- the worker has taken a `Commit` or a `Finish` -/
  | taken (call : CallId) (now : Nat)
  /-- it has begun to poll `commit_segment` or `finish` -/
  | attempt (call : CallId) (now : Nat)
  | attemptEnded (call : CallId) (how : CallEnd) (now : Nat)
  /-- it has seen that the caller is gone -/
  | cancelled (call : CallId)
  /-- `abort` is called as failed-delivery cleanup -/
  | cleanup (call : CallId)
  | answered (call : CallId) (result : Except (TerminalError B.Error) B.Delivered)
  | abortAnswered (call : CallId) (result : Except (DraftAbortError B.Error) Unit)
  | reopened (segment : Nat)
  | loopEnded (gate : SourceGate)

structure Sys (A : DraftAccumulator P) (B : DrafterBackend P) where
  now : Nat
  source : SourceState A
  notified : Bool
  queue : List (Command B.Final)
  /-- commands whose `send` has not got through -/
  unsent : List (Command B.Final)
  dropped : List CallId
  nextCall : CallId
  ownerDropped : Bool
  sendersGone : Bool
  worker : Worker B
  phase : Phase B
  log : List (Event B)

/-- What a step of the worker gets from outside. -/
inductive Input (A : DraftAccumulator P) (B : DrafterBackend P) where
  /-- nothing: a timer, a closed reply, or no wait at all -/
  | go
  /-- the channel -/
  | command
  /-- `Notify` -/
  | woken
  /-- `acquire` succeeds; `kept` if `request_context` gives the permit back -/
  | permit (kept : Bool)
  | refused (error : DrafterAcquireError)
  /-- the permit is completed -/
  | settled
  /-- the backend call returns -/
  | reply (r : B.Reply)
  /-- the backend call is dropped -/
  | cut (x : B.Cut)
  /-- the snapshot is read; `kept` as above -/
  | view (ambient : A.Ambient) (kept : Bool)

inductive Action (A : DraftAccumulator P) (B : DrafterBackend P) where
  | advance (duration : Nat)
  | push (update : A.Update)
  | flush
  | commit (payload : B.Final)
  | finish (payload : B.Final)
  /-- `Drafter::abort` or `DrafterHandle::stop` -/
  | abort
  /-- the command of a call gets into the channel, or finds it closed -/
  | send (call : CallId)
  /-- a caller drops its future -/
  | forget (call : CallId)
  /-- the `Drafter` is dropped -/
  | dropOwner
  | dropSenders
  /-- `JoinHandle::abort` takes effect -/
  | kill
  | work (input : Input A B)

/-- The capacity of the command channel.
mirrors machine.rs:1986 -/
def commandCapacity : Nat := 16

variable {A : DraftAccumulator P} {B : DrafterBackend P}

namespace Sys

variable (s : Sys A B)

def emit (e : Event B) : Sys A B := { s with log := e :: s.log }

def goto (phase : Phase B) : Sys A B := { s with phase := phase }

/-- The backend after a call. -/
def withBackend (b : B.State) : Sys A B := { s with worker := { s.worker with backend := some b } }

/-- The replies go out, in the order of the waiters. -/
def answerFlushes (answers : FlushAnswers) : Sys A B :=
  { s with log := (answers.map fun x => Event.flushAnswered x.1 x.2).reverse ++ s.log }

/-- The reply of a call is closed. -/
def isClosed (call : CallId) : Bool := s.dropped.contains call

/-- The loop ends: the receiver is dropped with everything in it.
mirrors machine.rs:341-353 -/
def stop : Sys A B :=
  { s with
    phase := .stopped
    queue := []
    worker := { s.worker with flushWaiters := [] }
    log := .loopEnded s.source.gate :: s.log }

/-! ## Previews -/

/-- mirrors machine.rs:636-655 -/
def startUpdate (p : PreviewAttempt) (snapshot : PreviewSnapshot P) (kept : Bool) (b : B.State) : Sys A B :=
  let kept := kept || !p.requestScheduling
  let context := if kept then none else some ⟨p.priority, s.worker.config.requestTimeout⟩
  let b := if p.requestScheduling then B.setRequestContext context b else b
  let s := { s with
    worker := { s.worker with backend := some b, lastAttempt := some s.now, retryNotBefore := none } }
  (s.emit (.previewStarted s.worker.segment b snapshot)).goto (.updating p snapshot kept s.now)

/-- mirrors machine.rs:614-635, 655 -/
def takeSnapshot (p : PreviewAttempt) (ambient : A.Ambient) (kept : Bool) (b : B.State) : Sys A B :=
  match s.source.snapshot ambient with
  | none => s.goto (.discarding (.noPreview p.currentRevision))
  | some snapshot =>
    if (Worker.noopSnapshot b p.requestScheduling (some snapshot)).isSome then
      s.goto (.discarding (.noop snapshot.revision))
    else s.startUpdate p snapshot kept b

/-- mirrors machine.rs:609-612, 617-623, 631-635 -/
def discarded (d : Discard) : Sys A B :=
  match d with
  | .notRunning => s.goto .loopTop
  | .noPreview currentRevision =>
    let r := Worker.completeFlushes { s.worker with lastDelivered := currentRevision, nextWatchdog := none }
    let s := { s with worker := r.1, source := s.source.markDelivered currentRevision }
    ((s.emit (.covered s.worker.segment currentRevision .noPreview)).answerFlushes r.2).goto .loopTop
  | .noop revision =>
    let r := s.worker.skipTo s.source revision
    let s := { s with worker := r.1, source := r.2.1 }
    ((s.emit (.covered s.worker.segment revision .noop)).answerFlushes r.2.2).goto .loopTop

/-- The rest of `run_due_preview`, once the permit is completed.
mirrors machine.rs:669-771 -/
def settlePreview (revision : DraftRevision) (how : PreviewEnd) : Sys A B :=
  let r := s.worker.handlePreviewEnd s.source revision how s.now
  let s := { s with worker := r.1, source := r.2.1 }
  let s := if how = .acked then s.emit (.covered s.worker.segment revision .acked) else s
  (s.answerFlushes r.2.2).goto .loopTop

/-- The request that was started with `b` has ended, and left `b'`.
mirrors machine.rs:661-668, 693-700, 741-747 -/
def endPreview (b b' : B.State) (snapshot : PreviewSnapshot P) (kept : Bool) (how : PreviewEnd) : Sys A B :=
  let s := (s.withBackend b').emit (.previewEnded s.worker.segment b snapshot how)
  if kept then s.goto (.settling snapshot.revision how) else s.settlePreview snapshot.revision how

/-! ## Terminal commands -/

/-- `wait_for_terminal_permit` begins. -/
def awaitPermit (t : Terminal B) : Sys A B :=
  s.goto (.terminal t (if t.retryNotBefore.any (s.now < ·) then .retrying else .acquiring))

/-- mirrors machine.rs:1088-1094, 1468-1473 -/
def shouldCleanup (t : Terminal B) (outcome : TerminalOutcome B.Delivered B.Error) : Bool :=
  let certainty := terminalDeliveryCertainty outcome t.failureDisposition
  (certainty = some .notAttempted || certainty = some .rejected) && !t.payloadInvalid

/-- `abort` is called as failed-delivery cleanup, until the instant `until'`.
mirrors machine.rs:1117-1121, 1138-1145 -/
def callAbort (t : Terminal B) (outcome : TerminalOutcome B.Delivered B.Error) (until' : Nat)
    (context : Option DrafterRequestContext) (b : B.State) : Sys A B :=
  ((s.withBackend (B.setRequestContext context b)).emit (.cleanup t.call)).goto (.terminal t (.aborting until' outcome))

/-- mirrors machine.rs:1086-1145, 1468-1524 -/
def leaveLoop (t : Terminal B) (outcome : TerminalOutcome B.Delivered B.Error) (b : B.State) : Sys A B :=
  let until' := s.now + s.worker.config.requestTimeout
  if shouldCleanup t outcome = false then s.goto (.terminal t (.concluding outcome))
  else if s.worker.requestScheduling && B.abortRequestPossible b then
    s.goto (.terminal t (.abortAcquire until' outcome))
  else s.callAbort t outcome until' none b

/-- mirrors machine.rs:926-944, 1295-1313 -/
def deadlineWhileWaiting (t : Terminal B) (b : B.State) : Sys A B :=
  let delivery := (t.failureDisposition.map (·.delivery)).getD .notAttempted
  s.leaveLoop { t with failureDisposition := some ⟨.ambiguous, delivery⟩ } (.synthetic (.deadline delivery)) b

/-- The caller is gone: no reply, no cleanup.
mirrors machine.rs:945-952, 1077-1084 -/
def cancel (call : CallId) : Sys A B := (s.emit (.cancelled call)).stop

/-- mirrors machine.rs:1575-1632 -/
def runSuccessCleanup (t : Terminal B) (output : B.Delivered) (b : B.State) : Sys A B :=
  let scheduled := s.worker.requestScheduling
  let r := B.prepareCleanupAfterDelivery b
  let until' := s.now + s.worker.config.requestTimeout
  if r.1 = false then (s.withBackend r.2).leaveLoop t (.success output) r.2
  else if scheduled then (s.withBackend r.2).goto (.terminal t (.cleanupAcquire until' output))
  else (s.withBackend (B.setRequestContext none r.2)).goto (.terminal t (.cleaningUp until' output false))

/-- mirrors machine.rs:954-975, 1315-1336 -/
def grantTerminal (t : Terminal B) (kept : Bool) (b : B.State) : Sys A B :=
  let scheduled := s.worker.requestScheduling
  let kept := kept || !scheduled
  let context := if kept then none else some ⟨t.kind.priority, s.worker.config.requestTimeout⟩
  let b := if scheduled then B.setRequestContext context b else b
  (s.withBackend b).goto (.terminal t (.calling scheduled kept))

/-- How a call has ended. -/
def callEnd (kind : TerminalKind) (b : B.State) (attempt : TerminalCall B) : CallEnd :=
  match attempt with
  | .completed (.ok _) => .ok
  | .completed (.error error) =>
    if B.isRequestTimeout b error then .requestTimeout else .error (B.classifyError b kind.operation error)
  | .requestTimeout => .requestTimeout
  | .deadline => .deadline

/-- The arms of the retry loop, once the permit is completed.
mirrors machine.rs:987-1076, 1348-1455 -/
def afterCall (t : Terminal B) (attempt : TerminalCall B) (b : B.State) : Sys A B :=
  let lost := { t with failureDisposition := some ⟨.ambiguous, .unknown⟩ }
  match attempt with
  | .completed (.ok output) => s.runSuccessCleanup t output b
  | .requestTimeout => s.leaveLoop lost (.synthetic .requestTimeout) b
  | .deadline => s.leaveLoop lost (.synthetic (.deadline .unknown)) b
  | .completed (.error error) =>
    if B.isRequestTimeout b error then s.leaveLoop lost (.synthetic .requestTimeout) b
    else
      let disposition := B.classifyError b t.kind.operation error
      let t := { t with failureDisposition := some disposition }
      match disposition.cls with
      | .retryAfter delay _ =>
        if s.worker.config.terminalRetryBudget ≤ t.retryCount then s.leaveLoop t (.backend error) b
        else s.awaitPermit { t with retryCount := t.retryCount + 1, retryNotBefore := some (s.now + delay) }
      | .invalidPayload => s.leaveLoop { t with payloadInvalid := t.kind = .commit } (.backend error) b
      | .transient _ | .permanent | .ambiguous => s.leaveLoop t (.backend error) b

/-- The call has ended; a permit that the worker has kept is completed first. -/
def endCall (t : Terminal B) (kept : Bool) (attempt : TerminalCall B) (b : B.State) : Sys A B :=
  let s := (s.withBackend b).emit (.attemptEnded t.call (callEnd t.kind b attempt) s.now)
  if kept then s.goto (.terminal t (.completing attempt)) else s.afterCall t attempt b

/-- The source is closed, the caller gets the error, the loop ends. -/
def giveUp (t : Terminal B) (error : TerminalError B.Error) : Sys A B :=
  (Sys.emit { s with source := s.source.close } (.answered t.call (.error error))).stop

/-- mirrors machine.rs:1180-1244 -/
def concludeCommit (t : Terminal B) (outcome : TerminalOutcome B.Delivered B.Error) : Option (Sys A B) :=
  match outcome, t.failureDisposition with
  | .success output, _ =>
    let worker := { s.worker.resetSegmentState with segment := min (s.worker.segment + 1) u64Max }
    let s := { s with worker := worker, source := s.source.reopenSegment }
    some (((s.emit (.reopened worker.segment)).emit (.answered t.call (.ok output))).goto .loopTop)
  | .rateLimiter error, _ => some (s.giveUp t (.rateLimiter error))
  | .backend error, some d =>
    if t.payloadInvalid then
      some ((s.emit (.answered t.call (.error (.backend error d.cls d.delivery)))).goto .loopTop)
    else some (s.giveUp t (.backend error d.cls d.delivery))
  | .synthetic .requestTimeout, some _ => some (s.giveUp t (.requestTimeout .unknown))
  | .synthetic (.deadline delivery), some _ => some (s.giveUp t (.deadlineExceeded delivery))
  | .backend _, none | .synthetic _, none => none

/-- mirrors machine.rs:1547-1572 -/
def concludeFinish (t : Terminal B) (outcome : TerminalOutcome B.Delivered B.Error) : Option (Sys A B) :=
  let reply (result : Except (TerminalError B.Error) B.Delivered) : Option (Sys A B) :=
    some (Sys.emit { s with worker := { s.worker with backend := none } } (.answered t.call result)).stop
  match outcome, t.failureDisposition with
  | .success output, _ => reply (.ok output)
  | .rateLimiter error, _ => reply (.error (.rateLimiter error))
  | .backend error, some d => reply (.error (.backend error d.cls d.delivery))
  | .synthetic .requestTimeout, _ => reply (.error (.requestTimeout .unknown))
  | .synthetic (.deadline delivery), _ => reply (.error (.deadlineExceeded delivery))
  | .backend _, none => none

/-- mirrors machine.rs:1169-1179, 1536-1546 -/
def conclude (t : Terminal B) (outcome : TerminalOutcome B.Delivered B.Error) (b : B.State) : Option (Sys A B) :=
  let s := s.withBackend (B.takeCleanupFailure b).2
  match t.kind with
  | .commit => s.concludeCommit t outcome
  | .finish => s.concludeFinish t outcome

/-- One step of `Commit` or `Finish`. -/
def workTerminal (t : Terminal B) (stage : TerminalStage B) (input : Input A B) (b : B.State) : Option (Sys A B) :=
  match stage, input with
  | .retrying, .go =>
    if s.isClosed t.call then some (s.cancel t.call)
    else if t.operationDeadline ≤ s.now then some (s.deadlineWhileWaiting t b)
    else if t.retryNotBefore.all (· ≤ s.now) then some (s.goto (.terminal t .acquiring))
    else none
  | .acquiring, .go =>
    if s.isClosed t.call then some (s.cancel t.call)
    else if t.operationDeadline ≤ s.now then some (s.deadlineWhileWaiting t b)
    else none
  | .acquiring, .permit kept =>
    if s.isClosed t.call ∨ t.operationDeadline ≤ s.now then none else some (s.grantTerminal t kept b)
  | .acquiring, .refused error =>
    if s.isClosed t.call ∨ t.operationDeadline ≤ s.now then none else some (s.leaveLoop t (.rateLimiter error) b)
  | .calling scheduled kept, .go =>
    if s.isClosed t.call then some (s.cancel t.call)
    else some ((s.emit (.attempt t.call s.now)).goto (.terminal t (.inCall scheduled kept s.now)))
  | .inCall _ kept _, .reply r =>
    if s.isClosed t.call then none
    else
      let result := B.deliver t.kind b t.payload r
      some (s.endCall t kept (.completed result.2) result.1)
  | .inCall scheduled kept startedAt, .cut x =>
    if s.isClosed t.call then some (s.cancel t.call)
    else if scheduled = false ∧ startedAt + s.worker.config.requestTimeout ≤ s.now then
      some (s.endCall t kept .requestTimeout (B.cut .deliver b x))
    else if t.operationDeadline ≤ s.now then some (s.endCall t kept .deadline (B.cut .deliver b x))
    else none
  | .completing attempt, .settled => some (s.afterCall t attempt b)
  | .cleanupAcquire until' output, .permit _ =>
    let context := some ⟨.changedPreview, s.worker.config.requestTimeout⟩
    some ((s.withBackend (B.setRequestContext context b)).goto (.terminal t (.cleaningUp until' output true)))
  | .cleanupAcquire _ output, .refused _ => some (s.leaveLoop t (.success output) b)
  | .cleanupAcquire until' output, .go =>
    if until' ≤ s.now then some (s.leaveLoop t (.success output) b) else none
  | .cleaningUp _ output scheduled, .reply r =>
    let b := (B.cleanupAfterDelivery b r).1
    let b := if scheduled then B.setRequestContext none b else b
    some ((s.withBackend b).leaveLoop t (.success output) b)
  | .cleaningUp until' output scheduled, .cut x =>
    let b := B.cut .cleanupAfterDelivery b x
    let b := if scheduled then B.setRequestContext none b else b
    if until' ≤ s.now then some ((s.withBackend b).leaveLoop t (.success output) b) else none
  | .abortAcquire until' outcome, .permit _ =>
    some (s.callAbort t outcome until' (some ⟨.changedPreview, s.worker.config.requestTimeout⟩) b)
  | .abortAcquire _ outcome, .refused _ => some (s.goto (.terminal t (.concluding outcome)))
  | .abortAcquire until' outcome, .go =>
    if until' ≤ s.now then some (s.goto (.terminal t (.concluding outcome))) else none
  | .aborting _ outcome, .reply r =>
    some ((s.withBackend (B.abort b r).1).goto (.terminal t (.concluding outcome)))
  | .aborting until' outcome, .cut x =>
    if until' ≤ s.now then some ((s.withBackend (B.cut .abort b x)).goto (.terminal t (.concluding outcome))) else none
  | .concluding outcome, .go => s.conclude t outcome b
  | _, _ => none

/-! ## Commands -/

/-- mirrors machine.rs:1554-1572 -/
def endAbort (call : CallId) (result : Except (DraftAbortError B.Error) Unit) : Sys A B :=
  (Sys.emit { s with worker := { s.worker with backend := none } } (.abortAnswered call result)).stop

/-- Every flush waiter learns that its segment is over.
mirrors machine.rs:883-885, 1251-1253, 1477-1479 -/
def failWaiters : Sys A B :=
  let r := s.worker.failFlushes .workerStopped
  Sys.answerFlushes { s with worker := r.1 } r.2

/-- The prefix of `Commit` and `Finish`.
mirrors machine.rs:886-909, 1254-1276 -/
def beginTerminal (kind : TerminalKind) (payload : B.Final) (reply : CallId) : Sys A B :=
  match s.worker.backend with
  | none => (s.emit (.answered reply (.error (.workerStoppedAfterCommand .notAttempted)))).stop
  | some _ =>
    (s.emit (.taken reply s.now)).awaitPermit
      ⟨kind, reply, payload, s.now + s.worker.config.terminalTimeout, none, 0, none, false⟩

/-- mirrors machine.rs:851-1573 -/
def handleCommand (command : Command B.Final) : Sys A B :=
  match command with
  | .flush target reply =>
    match s.worker.flushAnswer target with
    | some result => (s.emit (.flushAnswered reply result)).goto .loopTop
    | none =>
      Sys.goto { s with worker := { s.worker with flushWaiters := s.worker.flushWaiters ++ [⟨target, reply⟩] } }
        .loopTop
  | .commit payload reply =>
    (Sys.failWaiters { s with source := s.source.beginTransition }).beginTerminal .commit payload reply
  | .finish payload reply =>
    (Sys.failWaiters { s with source := s.source.close }).beginTerminal .finish payload reply
  | .abort reply =>
    let s := Sys.failWaiters { s with source := s.source.close }
    match s.worker.backend with
    | none => (s.emit (.abortAnswered reply (.error .workerStopped))).stop
    | some b =>
      let until' := s.now + s.worker.config.requestTimeout
      if s.worker.requestScheduling && B.abortRequestPossible b then s.goto (.abortAcquire reply until')
      else (s.withBackend (B.setRequestContext none b)).goto (.aborting reply until')

/-- The channel answers `recv`.
mirrors machine.rs:340-353, 357-369 -/
def receive : Option (Sys A B) :=
  match s.queue with
  | command :: rest => some (Sys.handleCommand { s with queue := rest } command)
  | [] => if s.sendersGone then some (Sys.stop { s with source := s.source.close }) else none

/-- One step of the task. -/
def work (input : Input A B) : Option (Sys A B) :=
  match s.phase, input with
  | .loopTop, .view ambient _ =>
    match s.worker.runDuePreview s.source s.now ambient with
    | .idle w answers =>
      some ((Sys.answerFlushes { s with worker := w } answers).goto (.waiting (w.nextDeadline s.source s.now)))
    | .skipped w source answers revision =>
      let s := { s with worker := w, source := source }
      some (((s.emit (.covered w.segment revision .noop)).answerFlushes answers).goto .loopTop)
    | .acquire p => some (s.goto (.acquiring p))
  | .waiting _, .command => s.receive
  | .waiting _, .woken =>
    if s.queue.isEmpty && !s.sendersGone && s.notified then
      some (Sys.goto { s with notified := false } .loopTop)
    else none
  | .waiting (some deadline), .go =>
    if s.queue.isEmpty && !s.sendersGone && !s.notified && deadline ≤ s.now then some (s.goto .loopTop) else none
  | .acquiring _, .command => s.receive
  | .acquiring p, .permit _ => some (s.goto (.granted p))
  | .acquiring _, .refused error =>
    let r := Worker.failFlushes { s.worker with retryNotBefore := some (s.now + s.worker.retryDelay) } (.rateLimiter error)
    some ((Sys.answerFlushes { s with worker := r.1 } r.2).goto .loopTop)
  | .granted p, .go =>
    if s.source.isRunning then some (s.goto (.checked p)) else some (s.goto (.discarding .notRunning))
  | .checked p, .view ambient kept => s.worker.backend.map (s.takeSnapshot p ambient kept)
  | .discarding d, .settled => some (s.discarded d)
  | .updating p snapshot kept _, .reply r =>
    s.worker.backend.map fun b =>
      let result := B.update b snapshot.preview r
      s.endPreview b result.1 snapshot kept (s.worker.previewEnd result.1 p.operation result.2)
  | .updating p snapshot kept startedAt, .cut x =>
    if p.requestScheduling = false ∧ startedAt + s.worker.config.requestTimeout ≤ s.now then
      s.worker.backend.map fun b =>
        s.endPreview b (B.cut .update b x) snapshot kept (.failed s.worker.timeoutDisposition)
    else none
  | .settling revision how, .settled => some (s.settlePreview revision how)
  | .terminal t stage, input => s.worker.backend.bind (s.workTerminal t stage input)
  | .abortAcquire call until', .permit _ =>
    let context := some ⟨.changedPreview, s.worker.config.requestTimeout⟩
    s.worker.backend.map fun b => (s.withBackend (B.setRequestContext context b)).goto (.aborting call until')
  | .abortAcquire call _, .refused error => some (s.endAbort call (.error (.rateLimiter error)))
  | .abortAcquire call until', .go =>
    if until' ≤ s.now then some (s.endAbort call (.error .requestTimeout)) else none
  | .aborting call _, .reply r =>
    s.worker.backend.map fun b =>
      let result := B.abort b r
      (s.withBackend result.1).endAbort call (result.2.mapError .backend)
  | .aborting call until', .cut _ =>
    if until' ≤ s.now then some (s.endAbort call (.error .requestTimeout)) else none
  | _, _ => none

/-! ## Callers -/

/-- A caller makes a command and begins to send it. -/
def call (command : CallId → Command B.Final) : Sys A B :=
  { s with nextCall := s.nextCall + 1, unsent := s.unsent ++ [command s.nextCall] }

/-- What is left of `unsent` without one call. -/
def withoutCall (call : CallId) : Sys A B := { s with unsent := s.unsent.filter (·.reply ≠ call) }

/-- `stop`, `finish` and `abort` begin by closing the source.
mirrors machine.rs:1950, 2124, 2140 -/
def closeSource : Sys A B := Sys.emit { s with source := s.source.close } (.closed s.nextCall)

/-- One step of the whole. -/
def step (action : Action A B) : Option (Sys A B) :=
  match action with
  | .advance duration => if s.phase.waits then some { s with now := s.now + duration } else none
  | .push update =>
    let r := s.source.apply update s.now
    some (Sys.emit { s with source := r.1, notified := s.notified || r.2.isOk } (.pushed r.2))
  | .flush =>
    let target := s.source.revision
    some ((s.emit (.flushCalled s.nextCall target s.worker.segment)).call (.flush target))
  | .commit payload => some (Sys.call { s with source := s.source.beginTransition } (.commit payload))
  | .finish payload => some (s.closeSource.call (.finish payload))
  | .abort => some (s.closeSource.call .abort)
  | .send call =>
    match s.unsent.find? (·.reply = call) with
    | none => none
    | some command =>
      if s.phase.alive = false then some (s.withoutCall call)
      else if s.queue.length < commandCapacity then
        some { s.withoutCall call with queue := s.queue ++ [command] }
      else none
  | .forget call => some { s.withoutCall call with dropped := call :: s.dropped }
  | .dropOwner => some { s with source := s.source.close, ownerDropped := true }
  | .dropSenders => if s.ownerDropped && s.unsent.isEmpty then some { s with sendersGone := true } else none
  | .kill =>
    if s.ownerDropped && s.phase.waits && s.phase.alive then
      some { s with phase := .killed, queue := [], worker := { s.worker with flushWaiters := [] } }
    else none
  | .work input => s.work input

/-- mirrors machine.rs:1966-2083 -/
def spawn (accumulator : A.State) (b : B.State) (usesRequestScheduler : Bool) (config : DraftConfig) (now : Nat) :
    Sys A B where
  now := now
  source := SourceState.new accumulator
  notified := false
  queue := []
  unsent := []
  dropped := []
  nextCall := 0
  ownerDropped := false
  sendersGone := false
  worker := Worker.spawn b usesRequestScheduler config
  phase := .loopTop
  log := []

/-- A drafter that has just been spawned with a configuration it accepts. -/
def Spawned : Prop :=
  ∃ accumulator b usesRequestScheduler config now,
    config.validate (B.capabilities b) = .ok () ∧ s = spawn accumulator b usesRequestScheduler config now

end Sys

/-- The drafters over the accumulator `A` and the backend `B`. -/
def drafter (A : DraftAccumulator P) (B : DrafterBackend P) : Core.Machine (Sys A B) (Action A B) Unit where
  init := Sys.Spawned
  step s a := (s.step a).map (·, ())

end Teloxide.Drafter
