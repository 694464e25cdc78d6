import Teloxide.Drafter.Backend

/-!
# The message-based Telegram backends

`crates/teloxide/src/drafter/telegram.rs`: a preview is a message that is sent
once per segment and then edited. `EditInPlace` and `RichEditInPlace` turn that
message into the final one; `StatusThenText` and `StatusThenRich` send the final
message separately and delete the preview.

* A call gets the answers to its requests in order, as a function of their
  number. The text of a request and its options are left out.
* A rich message is a value of `R`. `fingerprint` is the hash of the standard
  library.
* A call that is dropped has come back from a number of deletions, with the
  answers to them (`Cut`).
-/
namespace Teloxide.Drafter

abbrev MessageId := Int

/-- What is kept of a sent message. -/
structure Message where
  id : MessageId
  deriving DecidableEq, Repr

/-- mirrors crates/teloxide-core/src/errors.rs:14-60; of the API errors one is told apart -/
inductive RequestError where
  | validation
  | messageNotModified
  | api
  | migrateToChatId
  | retryAfter (seconds : Nat)
  | network
  | invalidJson
  | io
  deriving DecidableEq, Repr

/-- mirrors outbound.rs:76-83 -/
inductive DrafterRequestError where
  | inner (error : RequestError)
  | acquire
  | timeout
  deriving DecidableEq, Repr

/-- mirrors telegram.rs:28-74 -/
def classifyRequestError (operation : DrafterOperation) (error : DrafterRequestError) : DrafterErrorDisposition :=
  match error with
  | .acquire => ⟨.permanent, .notAttempted⟩
  | .timeout => ⟨.ambiguous, .unknown⟩
  | .inner (.retryAfter seconds) => ⟨.retryAfter (fromSecs seconds) .global, .rejected⟩
  | .inner .network | .inner .io | .inner .invalidJson =>
    ⟨.transient (operation ≠ .previewFirstSend && operation ≠ .segmentCommit && operation ≠ .final), .unknown⟩
  | .inner .validation => ⟨.invalidPayload, .notAttempted⟩
  | .inner .api | .inner .messageNotModified | .inner .migrateToChatId => ⟨.permanent, .rejected⟩

/-- mirrors telegram.rs:76-78 -/
def isMessageNotModified (error : DrafterRequestError) : Bool := error = .inner .messageNotModified

/-- A preview is sent for the first time while there is no message to edit.
mirrors telegram.rs:1193-1206, 1725-1736 -/
def classifyPreviewError (messageId : Option MessageId) (operation : DrafterOperation) (error : DrafterRequestError) :
    DrafterErrorDisposition :=
  classifyRequestError (if messageId.isNone && operation = .preview then .previewFirstSend else operation) error

/-- mirrors telegram.rs (`is_request_timeout` of every backend) -/
def isTimeout (error : DrafterRequestError) : Bool := error = .timeout

/-- The answers to the requests of one call. -/
abbrev Replies := Nat → Except DrafterRequestError Message

/-! ## Status messages -/

/-- mirrors telegram.rs:961-964 -/
inductive StatusCleanup where
  | keep
  | deleteAfterFinalSuccess
  deriving DecidableEq, Repr

/-- mirrors backend.rs:22-26 -/
structure CleanupFailure where
  messageId : MessageId
  error : DrafterRequestError
  deriving DecidableEq, Repr

/-- mirrors telegram.rs:946-957, 1214-1225 -/
structure StatusThen where
  previewMessageId : Option MessageId
  cleanup : StatusCleanup
  cleanupFailure : Option CleanupFailure
  pendingCleanupMessageIds : List MessageId
  requestContext : Option DrafterRequestContext

namespace StatusThen

variable (b : StatusThen)

/-- mirrors telegram.rs:968-982 -/
def new : StatusThen := ⟨none, .deleteAfterFinalSuccess, none, [], none⟩

def capabilities : DrafterCapabilities := ⟨.statusEditThenSendFinal, false, false, false⟩

/-- The context goes with the call. -/
def takeContext : StatusThen := { b with requestContext := none }

/-- mirrors telegram.rs:1063-1092, 1324-1363 -/
def update (replies : Replies) : StatusThen × Except DrafterRequestError Unit :=
  let b := b.takeContext
  match b.previewMessageId, replies 0 with
  | some _, .ok _ => (b, .ok ())
  | some _, .error error => (b, if isMessageNotModified error then .ok () else .error error)
  | none, .ok message => ({ b with previewMessageId := some message.id }, .ok ())
  | none, .error error => (b, .error error)

/-- `commit_segment` and `finish` send the final message.
mirrors telegram.rs:1094-1124, 1365-1390 -/
def send (replies : Replies) : StatusThen × Except DrafterRequestError Message := (b.takeContext, replies 0)

/-- mirrors telegram.rs:1142-1145, 1178-1181 -/
def cleanupPossible : Bool :=
  b.cleanup = .deleteAfterFinalSuccess && (b.previewMessageId.isSome || !b.pendingCleanupMessageIds.isEmpty)

/-- The preview joins the messages that are still to be deleted. -/
def detach : StatusThen :=
  match b.previewMessageId with
  | some id =>
    { b with previewMessageId := none, pendingCleanupMessageIds := b.pendingCleanupMessageIds ++ [id] }
  | none => b

/-- mirrors telegram.rs:1147-1155 -/
def prepareCleanupAfterDelivery : Bool × StatusThen :=
  if b.cleanup = .deleteAfterFinalSuccess then (!b.detach.pendingCleanupMessageIds.isEmpty, b.detach) else (false, b)

/-- Deletes every pending message; a failure is kept for later. -/
def deleteAll (replies : Replies) : StatusThen → List MessageId → Nat → StatusThen
  | x, [], _ => { x with pendingCleanupMessageIds := [] }
  | x, id :: rest, k =>
    match replies k with
    | .ok _ => deleteAll replies x rest (k + 1)
    | .error error => deleteAll replies { x with cleanupFailure := some ⟨id, error⟩ } rest (k + 1)

/-- mirrors telegram.rs:1126-1140 -/
def cleanupAfterDelivery (replies : Replies) : StatusThen × Except DrafterRequestError Unit :=
  let b := b.takeContext
  if b.cleanup = .deleteAfterFinalSuccess then (deleteAll replies b b.pendingCleanupMessageIds 0, .ok ())
  else (b, .ok ())

/-- Deletes the pending messages up to the first failure. -/
def deleteWhileOk (replies : Replies) : List MessageId → Nat → StatusThen × Except DrafterRequestError Unit
  | [], _ => ({ b with pendingCleanupMessageIds := [] }, .ok ())
  | id :: rest, k =>
    match replies k with
    | .ok _ => deleteWhileOk replies rest (k + 1)
    | .error error => ({ b with pendingCleanupMessageIds := id :: rest }, .error error)

/-- mirrors telegram.rs:1157-1176 -/
def abort (replies : Replies) : StatusThen × Except DrafterRequestError Unit :=
  let b := b.takeContext
  if b.cleanup = .deleteAfterFinalSuccess then b.detach.deleteWhileOk replies b.detach.pendingCleanupMessageIds 0
  else (b, .ok ())

/-- A call is dropped after a number of deletions, while it waits for the next
one. -/
def cut (call : BackendCall) (deleted : Nat) (replies : Replies) : StatusThen :=
  let b := b.takeContext
  match call with
  | .update | .deliver => b
  | .cleanupAfterDelivery =>
    if b.cleanup = .deleteAfterFinalSuccess then
      { deleteAll replies b (b.pendingCleanupMessageIds.take deleted) 0 with
        pendingCleanupMessageIds := b.pendingCleanupMessageIds.drop deleted }
    else b
  | .abort =>
    if b.cleanup = .deleteAfterFinalSuccess then
      { b.detach with pendingCleanupMessageIds := b.detach.pendingCleanupMessageIds.drop deleted }
    else b

/-- What `StatusThenTextBackend` and `StatusThenRichBackend` share; `F` are the
final payloads. -/
def backend (F : Type) : DrafterBackend String where
  State := StatusThen
  Final := F
  SegmentOutput := Message
  Output := Message
  Error := DrafterRequestError
  Reply := Replies
  Cut := Nat × Replies
  capabilities _ := capabilities
  supportsRequestScheduler _ := true
  maySkipPreview _ := false
  previewIsNoop _ _ := false
  abortRequestPossible := cleanupPossible
  isRequestTimeout _ := isTimeout
  classifyError b := classifyPreviewError b.previewMessageId
  setRequestContext context b := { b with requestContext := context }
  prepareCleanupAfterDelivery := prepareCleanupAfterDelivery
  takeCleanupFailure b := (b.cleanupFailure.map (·.error), { b with cleanupFailure := none })
  update b _ := b.update
  commitSegment b _ := b.send
  finish b _ := b.send
  abort := abort
  cleanupAfterDelivery := cleanupAfterDelivery
  cut call b x := b.cut call x.1 x.2

end StatusThen

/-- mirrors telegram.rs:1213-1470 -/
def statusThenTextBackend : DrafterBackend String := StatusThen.backend String

/-- mirrors telegram.rs:945-1211 -/
def statusThenRichBackend (R : Type) : DrafterBackend String := StatusThen.backend R

/-! ## Edited messages -/

/-- mirrors telegram.rs:1488-1491 -/
inductive EditAbortPolicy where
  | keepPreview
  | deletePreviewBestEffort
  deriving DecidableEq, Repr

/-- `last` tells the preview that is shown: its fingerprint, or the rich message
itself.
mirrors telegram.rs:1474-1484, 1747-1757 -/
structure EditInPlace (K : Type) where
  messageId : Option MessageId
  lastMessage : Option Message
  last : Option K
  abortPolicy : EditAbortPolicy
  requestContext : Option DrafterRequestContext

namespace EditInPlace

variable {K : Type} [DecidableEq K] (b : EditInPlace K)

/-- mirrors telegram.rs:1495-1507, 1761-1773 -/
def new : EditInPlace K := ⟨none, none, none, .keepPreview, none⟩

def takeContext : EditInPlace K := { b with requestContext := none }

/-- mirrors telegram.rs:1577-1614, 1829-1873 -/
def update (key : K) (replies : Replies) : EditInPlace K × Except DrafterRequestError Unit :=
  let b := b.takeContext
  if b.last = some key then (b, .ok ())
  else
    match b.messageId, replies 0 with
    | some _, .ok message => ({ b with lastMessage := some message, last := some key }, .ok ())
    | some _, .error error =>
      if isMessageNotModified error then ({ b with last := some key }, .ok ()) else (b, .error error)
    | none, .ok message =>
      ({ b with messageId := some message.id, lastMessage := some message, last := some key }, .ok ())
    | none, .error error => (b, .error error)

/-- The segment's message is done with. -/
def forgetMessage : EditInPlace K := { b with messageId := none, lastMessage := none, last := none }

/-- mirrors telegram.rs:1616-1657 -/
def commitSegmentText (replies : Replies) : EditInPlace K × Except DrafterRequestError Message :=
  let b := b.takeContext
  match replies 0 with
  | .ok message => (b.forgetMessage, .ok message)
  | .error error =>
    if isMessageNotModified error then
      match b.lastMessage with
      | some message => (b.forgetMessage, .ok message)
      | none => (b, .error error)
    else (b, .error error)

/-- The answer to the final edit; an edit that changes nothing is a success. -/
def edited (answer : Except DrafterRequestError Message) : Except DrafterRequestError Message :=
  match b.messageId, answer with
  | some _, .error error =>
    if isMessageNotModified error then
      match b.lastMessage with
      | some message => .ok message
      | none => .error error
    else .error error
  | _, answer => answer

/-- mirrors telegram.rs:1875-1915 -/
def commitSegmentRich (replies : Replies) : EditInPlace K × Except DrafterRequestError Message :=
  let b := b.takeContext
  let result := b.edited (replies 0)
  (if result.isOk then b.forgetMessage else b, result)

/-- mirrors telegram.rs:1659-1691, 1917-1951 -/
def finish (replies : Replies) : EditInPlace K × Except DrafterRequestError Message :=
  let b := b.takeContext
  (b, b.edited (replies 0))

/-- mirrors telegram.rs:1707-1709, 1965-1967 -/
def abortRequestPossible : Bool := b.abortPolicy = .deletePreviewBestEffort && b.messageId.isSome

/-- What `EditInPlaceBackend` and `RichEditInPlaceBackend` share. -/
def backend {P : Type} (key : P → K) (rich : Bool)
    (commitSegment : EditInPlace K → Replies → EditInPlace K × Except DrafterRequestError Message) :
    DrafterBackend P where
  State := EditInPlace K
  Final := P
  SegmentOutput := Message
  Output := Message
  Error := DrafterRequestError
  Reply := Replies
  Cut := Unit
  capabilities _ := ⟨.editInPlace, false, false, rich⟩
  supportsRequestScheduler _ := true
  maySkipPreview _ := true
  previewIsNoop b preview := b.last = some (key preview)
  abortRequestPossible := abortRequestPossible
  isRequestTimeout _ := isTimeout
  classifyError b := classifyPreviewError b.messageId
  setRequestContext context b := { b with requestContext := context }
  prepareCleanupAfterDelivery b := (false, b)
  takeCleanupFailure b := (none, b)
  update b preview := b.update (key preview)
  commitSegment b _ := commitSegment b
  finish b _ := b.finish
  abort b _ := (b.takeContext, .ok ())
  cleanupAfterDelivery b _ := (b, .ok ())
  cut _ b _ := b.takeContext

end EditInPlace

/-- mirrors telegram.rs:1547-1740 -/
def editInPlaceBackend (fingerprint : String → Nat) : DrafterBackend String :=
  EditInPlace.backend fingerprint false EditInPlace.commitSegmentText

/-- mirrors telegram.rs:1806-1999 -/
def richEditInPlaceBackend (R : Type) [DecidableEq R] : DrafterBackend R :=
  EditInPlace.backend (id : R → R) true EditInPlace.commitSegmentRich

end Teloxide.Drafter
