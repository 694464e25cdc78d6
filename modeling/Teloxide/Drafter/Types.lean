import Mathlib

/-!
# Types of the drafter

`crates/teloxide/src/drafter/{backend,config,error,limiter}.rs`: the
configuration of a drafter, how a backend classifies its failures, and the
errors a caller gets.

An `Instant` and a `Duration` are naturals, in nanoseconds. A `DraftRevision`
and a segment number are the `u64` they hold.
-/
namespace Teloxide.Drafter

/-- `u64::MAX` and `u32::MAX`, where `saturating_add` stops. -/
def u64Max : Nat := 2 ^ 64 - 1
def u32Max : Nat := 2 ^ 32 - 1

abbrev DraftRevision := Nat
abbrev ChatId := Int

/-- mirrors backend.rs:38-43 -/
inductive DrafterMode where
  | nativeDraft
  | editInPlace
  | statusEditThenSendFinal
  deriving DecidableEq, Repr

/-- mirrors backend.rs:29-35 -/
structure DrafterCapabilities where
  mode : DrafterMode
  expiresWithoutRefresh : Bool
  supportsDraftThinking : Bool
  supportsRichPreview : Bool
  deriving DecidableEq, Repr

/-- mirrors limiter.rs:29-33 -/
inductive DrafterRateLimitScope where
  | chat (id : ChatId)
  | global
  deriving DecidableEq, Repr

/-- mirrors limiter.rs:36-42 -/
inductive DrafterPriority where
  | refreshPreview
  | changedPreview
  | segmentCommit
  | final
  deriving DecidableEq, Repr

/-- mirrors limiter.rs:53-59 -/
inductive DrafterAcquireError where
  | closed
  | queueFull
  | superseded
  | invalidConfiguration
  deriving DecidableEq, Repr

/-- mirrors error.rs:59-67 -/
inductive DrafterOperation where
  | preview
  | previewFirstSend
  | previewEdit
  | refresh
  | segmentCommit
  | final
  | cleanup
  deriving DecidableEq, Repr

/-- mirrors error.rs:71-85 -/
inductive DrafterErrorClass where
  | retryAfter (delay : Nat) (scope : DrafterRateLimitScope)
  | transient (retrySafe : Bool)
  | invalidPayload
  | permanent
  | ambiguous
  deriving DecidableEq, Repr

/-- mirrors error.rs:89-96 -/
inductive DeliveryCertainty where
  | notAttempted
  | rejected
  | unknown
  deriving DecidableEq, Repr

/-- mirrors error.rs:100-103 -/
structure DrafterErrorDisposition where
  cls : DrafterErrorClass
  delivery : DeliveryCertainty
  deriving DecidableEq, Repr

/-! ## Configuration -/

/-- mirrors config.rs:7-28 -/
structure DraftConfig where
  coalesceWindow : Nat
  minUpdateInterval : Nat
  refreshInterval : Nat
  requestTimeout : Nat
  retryInitial : Nat
  retryMax : Nat
  terminalRetryBudget : Nat
  terminalTimeout : Nat
  maxConsecutivePreviewFailures : Option Nat
  deriving DecidableEq, Repr

/-- mirrors error.rs:35-40 -/
inductive DraftConfigError where
  | zeroDuration (name : String)
  | retryRange
  | requestTimeoutNotBelowRefresh
  | refreshIntervalTooLong
  deriving DecidableEq, Repr

/-- `Duration::from_millis` and `Duration::from_secs`. -/
def fromMillis (n : Nat) : Nat := n * 10 ^ 6
def fromSecs (n : Nat) : Nat := n * 10 ^ 9

namespace DraftConfig

/-- mirrors config.rs:30-44 -/
def default : DraftConfig where
  coalesceWindow := fromMillis 75
  minUpdateInterval := fromSecs 1
  refreshInterval := fromSecs 15
  requestTimeout := fromSecs 8
  retryInitial := fromSecs 1
  retryMax := fromSecs 15
  terminalRetryBudget := 3
  terminalTimeout := fromSecs 30
  maxConsecutivePreviewFailures := some 5

/-- mirrors config.rs:47-77 -/
def validate (c : DraftConfig) (capabilities : DrafterCapabilities) : Except DraftConfigError Unit :=
  if c.coalesceWindow = 0 then .error (.zeroDuration "coalesce_window")
  else if c.minUpdateInterval = 0 then .error (.zeroDuration "min_update_interval")
  else if c.requestTimeout = 0 then .error (.zeroDuration "request_timeout")
  else if c.retryInitial = 0 then .error (.zeroDuration "retry_initial")
  else if c.terminalTimeout = 0 then .error (.zeroDuration "terminal_timeout")
  else if c.retryMax < c.retryInitial then .error .retryRange
  else if capabilities.expiresWithoutRefresh ∧ c.refreshInterval ≤ c.requestTimeout then
    .error .requestTimeoutNotBelowRefresh
  else if capabilities.expiresWithoutRefresh ∧ fromSecs 30 ≤ c.refreshInterval then .error .refreshIntervalTooLong
  else .ok ()

/-- The default configuration suits every backend. -/
theorem validate_default (capabilities : DrafterCapabilities) : default.validate capabilities = .ok () := by
  obtain ⟨mode, expires, thinking, rich⟩ := capabilities
  cases expires <;> rfl

theorem coalesceWindow_pos {c : DraftConfig} {capabilities : DrafterCapabilities}
    (h : c.validate capabilities = .ok ()) : 0 < c.coalesceWindow := by
  unfold validate at h
  split at h
  · cases h
  · omega

theorem retryRange {c : DraftConfig} {capabilities : DrafterCapabilities} (h : c.validate capabilities = .ok ()) :
    c.retryInitial ≤ c.retryMax := by
  unfold validate at h
  iterate 6
    split at h
    · cases h
  omega

end DraftConfig

/-! ## What a caller gets -/

/-- mirrors error.rs:16-19 -/
inductive DraftPushError where
  | closed
  | closedForTransition
  deriving DecidableEq, Repr

/-- mirrors error.rs:108-112 -/
inductive DraftFlushError where
  | workerStopped
  | previewDisabled
  | rateLimiter (error : DrafterAcquireError)
  deriving DecidableEq, Repr

/-- The variants that `DraftCommitError` and `DraftFinishError` share. -/
inductive TerminalError (E : Type) where
  | workerStoppedBeforeCommand
  | rateLimiter (error : DrafterAcquireError)
  | workerStoppedAfterCommand (delivery : DeliveryCertainty)
  | requestTimeout (delivery : DeliveryCertainty)
  | deadlineExceeded (delivery : DeliveryCertainty)
  | backend (source : E) (cls : DrafterErrorClass) (delivery : DeliveryCertainty)
  deriving DecidableEq

/-- mirrors error.rs:130-137 -/
abbrev DraftCommitError := TerminalError

/-- mirrors error.rs:169-176 -/
abbrev DraftFinishError := TerminalError

/-- The certainty an error reports, if it reports one. -/
def TerminalError.delivery {E : Type} : TerminalError E → Option DeliveryCertainty
  | .workerStoppedBeforeCommand | .rateLimiter _ => none
  | .workerStoppedAfterCommand delivery | .requestTimeout delivery | .deadlineExceeded delivery
  | .backend _ _ delivery => some delivery

/-- mirrors error.rs:207-212 -/
inductive DraftAbortError (E : Type) where
  | workerStopped
  | requestTimeout
  | rateLimiter (error : DrafterAcquireError)
  | backend (source : E)
  deriving DecidableEq

/-! ## The end of a terminal operation -/

/-- mirrors machine.rs:92-95 -/
inductive TerminalFailure where
  | requestTimeout
  | deadline (delivery : DeliveryCertainty)
  deriving DecidableEq

/-- mirrors machine.rs:97-102 -/
inductive TerminalOutcome (T E : Type) where
  | success (output : T)
  | backend (error : E)
  | rateLimiter (error : DrafterAcquireError)
  | synthetic (failure : TerminalFailure)

/-- mirrors machine.rs:104-117 -/
def terminalDeliveryCertainty {T E : Type} (outcome : TerminalOutcome T E)
    (disposition : Option DrafterErrorDisposition) : Option DeliveryCertainty :=
  match outcome with
  | .success _ => none
  | .backend _ => disposition.map (·.delivery)
  | .rateLimiter _ => some .notAttempted
  | .synthetic .requestTimeout => some .unknown
  | .synthetic (.deadline delivery) => some delivery

end Teloxide.Drafter
