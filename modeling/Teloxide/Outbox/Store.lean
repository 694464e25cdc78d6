import Mathlib
import Teloxide.Core.Machine
import Teloxide.Core.Table
import Teloxide.Outbound.Types

/-!
# The in-memory outbox store

`InMemoryOutboxStore` (`crates/teloxide-core/src/outbound/outbox.rs`): durable
requests, the leases under which workers hold them, and the mutations fenced by
those leases. Every operation runs under one lock, so it is one step.

* A `SystemTime` is a natural, the nanoseconds since the earliest instant it can
  hold; `deadline` is the `until` of a lease.
* An operation is `none` where the source panics: a counter at its last value,
  or an `expect` that fails.
* The clock that a fenced operation reads is an argument. `claim_due` is given an
  instant by its caller instead.
-/
namespace Teloxide.Outbox

open Teloxide.Core Teloxide.Outbound

/-- The number of instants a `SystemTime` can hold. -/
def systemTimeSize : Nat := 2 ^ 64 * 10 ^ 9

/-- `SystemTime::checked_add(..)`, or the instant itself where that fails. -/
def addOrStay (now duration : Nat) : Nat := if now + duration < systemTimeSize then now + duration else now

abbrev OutboxId := Nat
abbrev OutboxWorkerId := Nat

/-- mirrors types.rs:190-203 -/
structure OutboundMetadata where
  scope : OutboundScope
  cls : OutboundClass
  priority : OutboundPriority
  weight : NonZeroU32
  deriving DecidableEq

/-- mirrors outbox.rs:70-75 -/
structure OutboxLease where
  worker : OutboxWorkerId
  token : Nat
  deadline : Nat
  deriving DecidableEq, Repr

/-- mirrors outbox.rs:82-89 -/
inductive OutboxFailureKind where
  | retryAfter
  | transient
  | permanent
  | schedulerUnavailable
  | exhausted
  deriving DecidableEq, Repr

/-- mirrors outbox.rs:114-122 -/
structure NewOutboxRequest where
  idempotencyKey : String
  payload : List UInt8
  payloadVersion : Nat
  metadata : OutboundMetadata
  availableAt : Nat
  maxAttempts : NonZeroU32
  deriving DecidableEq

/-- mirrors outbox.rs:159-163 -/
inductive OutboxEnqueueResult where
  | inserted (id : OutboxId)
  | existing (id : OutboxId)
  deriving DecidableEq, Repr

/-- mirrors outbox.rs:166-180 -/
structure ClaimedOutboxRequest where
  id : OutboxId
  idempotencyKey : String
  payload : List UInt8
  payloadVersion : Nat
  metadata : OutboundMetadata
  availableAt : Nat
  attempt : Nat
  claimCount : Nat
  maxAttempts : NonZeroU32
  lease : OutboxLease
  deriving DecidableEq

/-- mirrors outbox.rs:200-204 -/
structure OutboxRetry where
  availableAt : Nat
  failure : OutboxFailureKind
  deriving DecidableEq, Repr

/-- mirrors outbox.rs:207-211 -/
inductive OutboxAttemptStart where
  | started (attempt : Nat)
  | exhausted
  deriving DecidableEq, Repr

/-- mirrors outbox.rs:702-707 -/
inductive InMemoryStatus where
  | pending
  | claimed (lease : OutboxLease)
  | completed
  | failed (kind : OutboxFailureKind)
  deriving DecidableEq, Repr

/-- A record that has come to its end. -/
def InMemoryStatus.isTerminal : InMemoryStatus → Bool
  | .completed | .failed _ => true
  | .pending | .claimed _ => false

/-- mirrors outbox.rs:694-700 -/
structure InMemoryRecord where
  request : NewOutboxRequest
  attempt : Nat
  claimCount : Nat
  status : InMemoryStatus
  lastFailure : Option OutboxFailureKind
  deriving DecidableEq

/-- mirrors outbox.rs:709-716 -/
inductive InMemoryOutboxError where
  | conflict (id : OutboxId)
  | notFound (id : OutboxId)
  | leaseMismatch (id : OutboxId)
  | injectedFailure
  deriving DecidableEq, Repr

/-- mirrors outbox.rs:683-692 -/
structure InMemoryState where
  nextId : Nat
  nextLeaseToken : Nat
  records : Table OutboxId InMemoryRecord
  byKey : Table String OutboxId
  failNextComplete : Bool

/-- mirrors outbox.rs:812-817 -/
def sameRequest (left right : NewOutboxRequest) : Bool :=
  left.payload == right.payload && left.payloadVersion == right.payloadVersion &&
    left.metadata == right.metadata && left.maxAttempts == right.maxAttempts

/-- mirrors outbox.rs:819-827 -/
def leaseIsCurrent (status : InMemoryStatus) (lease : OutboxLease) (now : Nat) : Bool :=
  match status with
  | .claimed current =>
    current.worker == lease.worker && current.token == lease.token && decide (now < current.deadline)
  | _ => false

/-- A lease that has run out is taken back. -/
def InMemoryRecord.expire (record : InMemoryRecord) (now : Nat) : InMemoryRecord :=
  match record.status with
  | .claimed lease => if lease.deadline ≤ now then { record with status := .pending } else record
  | _ => record

namespace InMemoryState

def empty : InMemoryState where
  nextId := 0
  nextLeaseToken := 0
  records := ∅
  byKey := ∅
  failNextComplete := false

/-- mirrors outbox.rs:832-862 -/
def enqueue (s : InMemoryState) (request : NewOutboxRequest) :
    Option (InMemoryState × Except InMemoryOutboxError OutboxEnqueueResult) :=
  match s.byKey.lookup request.idempotencyKey with
  | some id =>
    match s.records.lookup id with
    | none => none
    | some record =>
      if sameRequest record.request request then some (s, .ok (.existing id))
      else some (s, .error (.conflict id))
  | none =>
    if s.nextId + 1 < u64Size then
      some
        ({ s with
           nextId := s.nextId + 1
           byKey := s.byKey.insert request.idempotencyKey s.nextId
           records := s.records.insert s.nextId ⟨request, 0, 0, .pending, none⟩ },
          .ok (.inserted s.nextId))
    else none

/-! ## Claims -/

/-- The records that wait to be claimed, the longest available first. -/
def dueIds (s : InMemoryState) (now : Nat) : List OutboxId :=
  let due := s.records.entries.filterMap fun e =>
    if e.2.status = .pending ∧ e.2.request.availableAt ≤ now then some (e.2.request.availableAt, e.1) else none
  (due.insertionSort fun a b => a.1 < b.1 ∨ a.1 = b.1 ∧ a.2 ≤ b.2).map (·.2)

/-- What a worker is told of a record it has claimed. -/
def claimedRequest (id : OutboxId) (record : InMemoryRecord) (lease : OutboxLease) : ClaimedOutboxRequest where
  id := id
  idempotencyKey := record.request.idempotencyKey
  payload := record.request.payload
  payloadVersion := record.request.payloadVersion
  metadata := record.request.metadata
  availableAt := record.request.availableAt
  attempt := record.attempt
  claimCount := record.claimCount
  maxAttempts := record.request.maxAttempts
  lease := lease

/-- A record that has used up its attempts fails; any other is claimed. Either
takes a token.
mirrors outbox.rs:891-920 -/
def claimOne (s : InMemoryState) (worker : OutboxWorkerId) (now leaseFor : Nat) (id : OutboxId) :
    Option (InMemoryState × Option ClaimedOutboxRequest) :=
  if s.nextLeaseToken + 1 < u64Size then
    let token := s.nextLeaseToken + 1
    match s.records.lookup id with
    | none => none
    | some record =>
      if record.request.maxAttempts.val ≤ record.attempt then
        let failed := { record with status := .failed .exhausted }
        some ({ s with nextLeaseToken := token, records := s.records.insert id failed }, none)
      else if record.claimCount + 1 < 2 ^ 32 then
        let lease : OutboxLease := ⟨worker, token, addOrStay now leaseFor⟩
        let claimed := { record with claimCount := record.claimCount + 1, status := .claimed lease }
        some ({ s with nextLeaseToken := token, records := s.records.insert id claimed },
          some (claimedRequest id claimed lease))
      else none
  else none

/-- The loop over the due records, up to `limit` claims. -/
def claimAll (worker : OutboxWorkerId) (now leaseFor : Nat) : Nat → List OutboxId → InMemoryState →
    Option (InMemoryState × List ClaimedOutboxRequest)
  | 0, _, s => some (s, [])
  | _, [], s => some (s, [])
  | limit + 1, id :: ids, s =>
    match s.claimOne worker now leaseFor id with
    | none => none
    | some (s, none) => claimAll worker now leaseFor (limit + 1) ids s
    | some (s, some claimed) =>
      (claimAll worker now leaseFor limit ids s).map fun r => (r.1, claimed :: r.2)

/-- mirrors outbox.rs:864-924 -/
def claimDue (s : InMemoryState) (worker : OutboxWorkerId) (now leaseFor : Nat) (limit : NonZeroUsize) :
    Option (InMemoryState × List ClaimedOutboxRequest) :=
  let s := { s with records := s.records.mapValues (·.expire now) }
  claimAll worker now leaseFor limit.val (s.dueIds now) s

/-! ## Fenced mutations -/

/-- The check at the head of every fenced operation: the record, when the lease
is its current one.
mirrors outbox.rs:934-937 -/
def fenced (s : InMemoryState) (id : OutboxId) (lease : OutboxLease) (now : Nat) :
    Except InMemoryOutboxError InMemoryRecord :=
  match s.records.lookup id with
  | none => .error (.notFound id)
  | some record => if leaseIsCurrent record.status lease now then .ok record else .error (.leaseMismatch id)

/-- A fenced operation that stores the record anew. -/
def mutate {α : Type} (s : InMemoryState) (id : OutboxId) (lease : OutboxLease) (now : Nat)
    (f : InMemoryRecord → InMemoryRecord × α) : InMemoryState × Except InMemoryOutboxError α :=
  match s.fenced id lease now with
  | .error e => (s, .error e)
  | .ok record => ({ s with records := s.records.insert id (f record).1 }, .ok (f record).2)

/-- mirrors outbox.rs:926-942 -/
def renewLease (s : InMemoryState) (id : OutboxId) (lease : OutboxLease) (deadline now : Nat) :
    InMemoryState × Except InMemoryOutboxError OutboxLease :=
  s.mutate id lease now fun record =>
    let renewed := { lease with deadline := deadline }
    ({ record with status := .claimed renewed }, renewed)

/-- mirrors outbox.rs:944-960 -/
def beginAttempt (s : InMemoryState) (id : OutboxId) (lease : OutboxLease) (now : Nat) :
    InMemoryState × Except InMemoryOutboxError OutboxAttemptStart :=
  s.mutate id lease now fun record =>
    if record.request.maxAttempts.val ≤ record.attempt then (record, .exhausted)
    else ({ record with attempt := record.attempt + 1 }, .started (record.attempt + 1))

/-- mirrors outbox.rs:962-985 -/
def complete (s : InMemoryState) (id : OutboxId) (lease : OutboxLease) (now : Nat) :
    InMemoryState × Except InMemoryOutboxError Unit :=
  if s.failNextComplete then ({ s with failNextComplete := false }, .error .injectedFailure)
  else s.mutate id lease now fun record => ({ record with status := .completed }, ())

/-- mirrors outbox.rs:987-1004 -/
def reschedule (s : InMemoryState) (id : OutboxId) (lease : OutboxLease) (retry : OutboxRetry) (now : Nat) :
    InMemoryState × Except InMemoryOutboxError Unit :=
  s.mutate id lease now fun record =>
    ({ record with
       request := { record.request with availableAt := retry.availableAt }
       lastFailure := some retry.failure
       status := .pending }, ())

/-- mirrors outbox.rs:1006-1022 -/
def fail (s : InMemoryState) (id : OutboxId) (lease : OutboxLease) (failure : OutboxFailureKind) (now : Nat) :
    InMemoryState × Except InMemoryOutboxError Unit :=
  s.mutate id lease now fun record =>
    ({ record with lastFailure := some failure, status := .failed failure }, ())

/-- mirrors outbox.rs:770-774 -/
def armFailure (s : InMemoryState) : InMemoryState := { s with failNextComplete := true }

end InMemoryState

/-! ## The store as a machine -/

/-- The operations of a store. `now` is the clock when the operation runs; a
claim also carries the instant its caller has read from the same clock. -/
inductive StoreAction where
  | enqueue (request : NewOutboxRequest) (now : Nat)
  | claimDue (worker : OutboxWorkerId) (readAt leaseFor : Nat) (limit : NonZeroUsize) (now : Nat)
  | renewLease (id : OutboxId) (lease : OutboxLease) (deadline now : Nat)
  | beginAttempt (id : OutboxId) (lease : OutboxLease) (now : Nat)
  | complete (id : OutboxId) (lease : OutboxLease) (now : Nat)
  | reschedule (id : OutboxId) (lease : OutboxLease) (retry : OutboxRetry) (now : Nat)
  | fail (id : OutboxId) (lease : OutboxLease) (failure : OutboxFailureKind) (now : Nat)
  | armFailure (now : Nat)

/-- What the callers of a store see. -/
inductive StoreEvent where
  | enqueued (request : NewOutboxRequest) (result : Except InMemoryOutboxError OutboxEnqueueResult)
  | claimed (claims : List ClaimedOutboxRequest)
  | renewed (id : OutboxId) (lease : OutboxLease) (result : Except InMemoryOutboxError OutboxLease)
  | began (id : OutboxId) (lease : OutboxLease) (result : Except InMemoryOutboxError OutboxAttemptStart)
  | settled (id : OutboxId) (lease : OutboxLease) (result : Except InMemoryOutboxError Unit)
  | armed

def StoreAction.now : StoreAction → Nat
  | .enqueue _ now | .claimDue _ _ _ _ now | .renewLease _ _ _ now | .beginAttempt _ _ now | .complete _ _ now
  | .reschedule _ _ _ now | .fail _ _ _ now | .armFailure now => now

/-- A store and the latest instant of its clock. -/
structure StoreSys where
  store : InMemoryState
  clock : Nat

namespace InMemoryState

def act (s : InMemoryState) : StoreAction → Option (InMemoryState × StoreEvent)
  | .enqueue request _ => (s.enqueue request).map fun r => (r.1, .enqueued request r.2)
  | .claimDue worker readAt leaseFor limit now =>
    if readAt ≤ now then (s.claimDue worker readAt leaseFor limit).map fun r => (r.1, .claimed r.2) else none
  | .renewLease id lease deadline now =>
    let r := s.renewLease id lease deadline now
    some (r.1, .renewed id lease r.2)
  | .beginAttempt id lease now =>
    let r := s.beginAttempt id lease now
    some (r.1, .began id lease r.2)
  | .complete id lease now =>
    let r := s.complete id lease now
    some (r.1, .settled id lease r.2)
  | .reschedule id lease retry now =>
    let r := s.reschedule id lease retry now
    some (r.1, .settled id lease r.2)
  | .fail id lease failure now =>
    let r := s.fail id lease failure now
    some (r.1, .settled id lease r.2)
  | .armFailure _ => some (s.armFailure, .armed)

end InMemoryState

/-- The store under a clock that does not go back. -/
def outboxStore : Machine StoreSys StoreAction StoreEvent where
  init x := x.store = .empty
  step x a := if a.now < x.clock then none else (x.store.act a).map fun r => (⟨r.1, a.now⟩, r.2)

abbrev StoreRun (τ : List StoreEvent) (x : StoreSys) : Prop := outboxStore.Run Machine.anything τ x

end Teloxide.Outbox
