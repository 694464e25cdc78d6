import Mathlib
import Teloxide.Core.Machine

/-!
# Long polling

`PollingStream` (`crates/teloxide/src/update_listeners/polling.rs`) with the Bot
API server it polls and the stop token, as one state machine.

* The server is the documented `getUpdates`: a positive offset forgets the
  updates below it, a negative one all but the last ones, and the answer is a
  prefix of what is left. New updates have larger ids than earlier ones.
* The future of a request sends nothing before its first poll. A request that
  was sent may be processed at any time until it completes, and, once its future
  is gone, at any time after that or never.
* A poll is one step. Only the flag can change under it: `stopMeanwhile` is a
  `stop` from another thread after this poll has looked at the flag.
* `log` is the ghost: what the stream and the server have done, newest first.
-/
namespace Teloxide.UpdateListeners

open Teloxide.Core

def i32Max : Nat := 2147483647

/-- mirrors update.rs:375-379 -/
def asOffset (id : Nat) : Int := (id : Int).bmod (2 ^ 32) + 1

theorem asOffset_eq {id : Nat} (h : id < i32Max) : asOffset id = id + 1 := by
  rw [i32Max] at h
  have hm : (id : Int).bmod 4294967296 = id := Int.bmod_eq_of_le (by omega) (by omega)
  exact congrArg (· + 1) hm

/-- mirrors allowed_update.rs:7-35 -/
inductive AllowedUpdate where
  | message | editedMessage | channelPost | editedChannelPost | guestMessage
  | businessConnection | businessMessage | editedBusinessMessage | deletedBusinessMessages
  | managedBot | subscription | messageReaction | messageReactionCount
  | inlineQuery | chosenInlineResult | callbackQuery | shippingQuery | preCheckoutQuery
  | purchasedPaidMedia | poll | pollAnswer | myChatMember | chatMember | chatJoinRequest
  | chatBoost | removedChatBoost | stoppedMessageGeneration
  deriving DecidableEq, Repr

/-- mirrors get_updates.rs:16-31 -/
structure GetUpdates where
  offset : Int
  timeout : Option Nat
  limit : Option Nat
  allowedUpdates : Option (List AllowedUpdate)
  deriving DecidableEq, Repr

/-! ## The server -/

/-- `pending` are the updates that are not confirmed, `nextId` is above the id
of every update there has been. -/
structure Server where
  pending : List Nat
  nextId : Nat
  deriving DecidableEq, Repr

namespace Server

/-- What a request with this offset confirms. -/
def confirms (s : Server) (offset : Int) : List Nat :=
  if offset < 0 then s.pending.take (s.pending.length - offset.natAbs)
  else s.pending.filter fun id => (id : Int) < offset

/-- What it leaves. -/
def remains (s : Server) (offset : Int) : List Nat :=
  if offset < 0 then s.pending.drop (s.pending.length - offset.natAbs)
  else s.pending.filter fun id => offset ≤ (id : Int)

def answer (s : Server) (payload : GetUpdates) : List Nat :=
  (s.remains payload.offset).take (payload.limit.getD 100)

end Server

/-! ## The stream -/

/-- The listener as it was built; the delays are in seconds.
mirrors polling.rs:189-202 -/
structure Polling where
  timeout : Option Nat
  limit : Option Nat
  allowedUpdates : Option (List AllowedUpdate)
  dropPendingUpdates : Bool
  backoffStrategy : Nat → Nat

/-- How far a request has come. -/
inductive Wire where
  | unsent
  | sent
  | answered (updates : List Nat)
  deriving DecidableEq, Repr

structure Request where
  payload : GetUpdates
  wire : Wire
  deriving DecidableEq, Repr

/-- mirrors polling.rs:297-328 -/
structure PollingStream where
  dropPendingUpdates : Bool
  timeout : Option Nat
  allowedUpdates : Option (List AllowedUpdate)
  offset : Int
  forceStop : Bool
  stopping : Bool
  buffer : List Nat
  inFlight : Option Request
  eepy : Option Nat
  errorCount : Nat
  deriving DecidableEq, Repr

/-- mirrors polling.rs:350-384 -/
def Polling.asStream (P : Polling) : PollingStream where
  dropPendingUpdates := P.dropPendingUpdates
  timeout := P.timeout
  allowedUpdates := P.allowedUpdates
  offset := 0
  forceStop := false
  stopping := false
  buffer := []
  inFlight := none
  eepy := none
  errorCount := 0

namespace PollingStream

/-- mirrors polling.rs:467-483 -/
def payload (P : Polling) (s : PollingStream) : GetUpdates :=
  match s.stopping, s.dropPendingUpdates with
  | false, false => ⟨s.offset, s.timeout, P.limit, s.allowedUpdates⟩
  | true, _ => ⟨s.offset, some 0, some 1, s.allowedUpdates⟩
  | _, true => ⟨-1, some 0, some 1, s.allowedUpdates⟩

/-- mirrors polling.rs:434-436 -/
def offsetAfter (s : PollingStream) (updates : List Nat) : Int :=
  match updates.getLast? with
  | some last => asOffset last
  | none => s.offset

/-- The hint moves into the request.
mirrors polling.rs:485-500 -/
def request (P : Polling) (s : PollingStream) : PollingStream :=
  { s with inFlight := some ⟨s.payload P, .unsent⟩, allowedUpdates := none }

end PollingStream

/-! ## The system -/

/-- What has happened. `stopped` tells whether the flag was set under a poll
that had looked at it, `noticed` is the poll that finds it set; what a request that is
sent carries stands below its `sent`. -/
inductive Entry where
  | stopped (meanwhile : Bool)
  | noticed
  | asked (allowedUpdates : Option (List AllowedUpdate))
  | sent (offset : Int)
  | confirmed (offset : Int) (updates : List Nat)
  | received (updates : List Nat)
  | dropped (updates : List Nat)
  | yielded (update : Nat)
  | failed
  | ended
  deriving DecidableEq, Repr

/-- `late` are the requests that were sent and whose futures are gone. -/
structure Sys where
  stream : PollingStream
  server : Server
  late : List GetUpdates
  stopped : Bool
  ended : Bool
  log : List Entry
  deriving DecidableEq

/-- What the future of the request gives. -/
inductive Reply where
  | pending
  | ok
  | err (retryAfter : Option Nat)
  deriving DecidableEq, Repr

/-- What a poll meets. -/
structure Moment where
  stopMeanwhile : Bool
  reply : Reply
  slept : Bool
  deriving DecidableEq, Repr

inductive Action where
  | arrive (id : Nat)
  | stop
  | serve
  | serveLate (request : Nat)
  | poll (moment : Moment)
  deriving DecidableEq, Repr

namespace Sys

def note (x : Sys) (e : Entry) : Sys :=
  { x with log := e :: x.log }

def stop (x : Sys) (meanwhile : Bool) : Sys :=
  if x.stopped then x else { x with stopped := true, log := .stopped meanwhile :: x.log }

/-- The server processes a request. -/
def process (x : Sys) (payload : GetUpdates) : Sys :=
  { x with
    server := { x.server with pending := x.server.remains payload.offset }
    log := .confirmed payload.offset (x.server.confirms payload.offset) :: x.log }

def setInFlight (x : Sys) (inFlight : Option Request) : Sys :=
  { x with stream := { x.stream with inFlight := inFlight } }

/-- Drops the future of the request. -/
def abandon (x : Sys) : Sys :=
  match x.stream.inFlight with
  | some ⟨payload, .sent⟩ => { x.setInFlight none with late := payload :: x.late }
  | _ => x.setInFlight none

def request (P : Polling) (x : Sys) : Sys :=
  { x with stream := x.stream.request P }

/-- mirrors polling.rs:399-402 -/
def yieldNext (x : Sys) (update : Nat) (buffer : List Nat) : Sys :=
  { x with stream := { x.stream with buffer := buffer }, log := .yielded update :: x.log }

/-- mirrors polling.rs:409-414 -/
def notice (x : Sys) : Sys :=
  { x.abandon with stream := { x.abandon.stream with stopping := true }, log := .noticed :: x.log }

/-- The stream is over. -/
def finish (x : Sys) : Sys :=
  { x with ended := true, log := .ended :: x.log }

/-- mirrors polling.rs:430-441 -/
def keep (x : Sys) (updates : List Nat) : Sys :=
  let stream := { x.stream with errorCount := 0, offset := x.stream.offsetAfter updates }
  match x.stream.dropPendingUpdates with
  | false => { x with stream := { stream with buffer := updates }, log := .received updates :: x.log }
  | true => { x with stream := { stream with dropPendingUpdates := false }, log := .dropped updates :: x.log }

/-- mirrors polling.rs:423, 430-441 -/
def completed (P : Polling) (x : Sys) (updates : List Nat) : Sys :=
  if x.stream.stopping then x.finish else (x.keep updates).request P

/-- mirrors polling.rs:424-429, 442-465 -/
def failed (P : Polling) (x : Sys) (retryAfter : Option Nat) : Sys :=
  if x.stream.stopping then { x with stream := { x.stream with forceStop := true } }.note .failed
  else
    match retryAfter with
    | some delay => { x with stream := { x.stream with errorCount := 0, eepy := some delay } }.note .failed
    | none =>
      { x with stream :=
          { x.stream with
            errorCount := min (x.stream.errorCount + 1) (2 ^ 32 - 1)
            eepy := some (P.backoffStrategy x.stream.errorCount) } }.note .failed

/-- The first poll of the future sends the request. -/
def send (x : Sys) (q : Request) : Sys :=
  match q.wire with
  | .unsent =>
    ((x.setInFlight (some { q with wire := .sent })).note (.asked q.payload.allowedUpdates)).note
      (.sent q.payload.offset)
  | _ => x

/-- The answer to a request that is on the wire. -/
def answered (x : Sys) (q : Request) : Sys × List Nat :=
  match q.wire with
  | .answered updates => (x, updates)
  | _ => (x.process q.payload, x.server.answer q.payload)

/-- mirrors polling.rs:417-465 -/
def pollInFlight (P : Polling) (x : Sys) (q : Request) : Reply → Sys
  | .pending => x.send q
  | .ok => completed P (((x.send q).answered q).1.setInFlight none) ((x.send q).answered q).2
  | .err retryAfter => (x.send q).abandon.failed P retryAfter

/-- mirrors polling.rs:417-496 -/
def pollFutures (P : Polling) (x : Sys) (moment : Moment) : Sys :=
  match x.stream.inFlight with
  | some q => x.pollInFlight P q moment.reply
  | none =>
    match x.stream.eepy with
    | some _ => if moment.slept then { x with stream := { x.stream with eepy := none } }.request P else x
    | none => x.request P

/-- mirrors polling.rs:390-497 -/
def poll (P : Polling) (x : Sys) (moment : Moment) : Sys :=
  if x.stream.forceStop then x.finish
  else
    match x.stream.buffer with
    | update :: buffer => x.yieldNext update buffer
    | [] =>
      if !x.stream.stopping && x.stopped then x.notice.request P
      else if moment.stopMeanwhile then (x.stop true).pollFutures P moment
      else x.pollFutures P moment

/-- The server processes the request that is on the wire. -/
def serve (x : Sys) : Option Sys :=
  match x.stream.inFlight with
  | some ⟨payload, .sent⟩ =>
    some ((x.process payload).setInFlight (some ⟨payload, .answered (x.server.answer payload)⟩))
  | _ => none

def serveLate (x : Sys) (request : Nat) : Option Sys :=
  x.late[request]?.map fun payload => { x.process payload with late := x.late.eraseIdx request }

def arrive (x : Sys) (id : Nat) : Option Sys :=
  if x.server.nextId ≤ id ∧ id < i32Max then
    some { x with server := ⟨x.server.pending ++ [id], id + 1⟩ }
  else none

end Sys

/-- The stream is not polled again after it has ended. -/
def step (P : Polling) (x : Sys) : Action → Option Sys
  | .arrive id => x.arrive id
  | .stop => some (x.stop false)
  | .serve => x.serve
  | .serveLate request => x.serveLate request
  | .poll moment => if x.ended then none else some (x.poll P moment)

/-- A fresh stream and a server with some updates waiting. -/
structure Start (P : Polling) (x : Sys) : Prop where
  stream : x.stream = P.asStream
  pending : x.server.pending.Pairwise (· < ·)
  below : ∀ id ∈ x.server.pending, id < x.server.nextId
  bound : x.server.nextId ≤ i32Max
  late : x.late = []
  stopped : x.stopped = false
  ended : x.ended = false
  log : x.log = []

def machine (P : Polling) : Machine Sys Action Unit where
  init := Start P
  step x a := (step P x a).map fun x' => (x', ())

/-! ## The log -/

/-- The updates yielded so far, oldest first. -/
def yielded : List Entry → List Nat
  | [] => []
  | .yielded update :: log => yielded log ++ [update]
  | _ :: log => yielded log

/-- The updates that have been put in the buffer so far, oldest first. -/
def received : List Entry → List Nat
  | [] => []
  | .received updates :: log => received log ++ updates
  | _ :: log => received log

/-- The updates that `drop_pending_updates` has thrown away. -/
def dropped : List Entry → List Nat
  | [] => []
  | .dropped updates :: log => dropped log ++ updates
  | _ :: log => dropped log

/-- The number of requests sent. -/
def sends : List Entry → Nat
  | [] => 0
  | .sent _ :: log => sends log + 1
  | _ :: log => sends log

end Teloxide.UpdateListeners
