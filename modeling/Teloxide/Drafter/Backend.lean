import Teloxide.Drafter.Types

/-!
# Delivery backends

The trait `DrafterBackend` (`crates/teloxide/src/drafter/backend.rs:46-198`) over
the previews `P`. A call is a function of what comes back from outside
(`Reply`); a call whose future is dropped before it is done leaves the backend in
some state (`cut`). `observe_*` and the identifiers that only events carry are
left out.
-/
namespace Teloxide.Drafter

/-- What the worker installs before a call that schedules its own requests.
mirrors outbound.rs:109-115 -/
structure DrafterRequestContext where
  priority : DrafterPriority
  requestTimeout : Nat
  deriving DecidableEq, Repr

/-- The calls of a backend that wait. -/
inductive BackendCall where
  | update
  | deliver
  | cleanupAfterDelivery
  | abort
  deriving DecidableEq, Repr

structure DrafterBackend (P : Type) where
  State : Type
  Final : Type
  SegmentOutput : Type
  Output : Type
  Error : Type
  Reply : Type
  Cut : Type
  capabilities : State → DrafterCapabilities
  supportsRequestScheduler : State → Bool
  maySkipPreview : State → Bool
  previewIsNoop : State → P → Bool
  abortRequestPossible : State → Bool
  isRequestTimeout : State → Error → Bool
  classifyError : State → DrafterOperation → Error → DrafterErrorDisposition
  setRequestContext : Option DrafterRequestContext → State → State
  prepareCleanupAfterDelivery : State → Bool × State
  takeCleanupFailure : State → Option Error × State
  update : State → P → Reply → State × Except Error Unit
  commitSegment : State → Final → Reply → State × Except Error SegmentOutput
  finish : State → Final → Reply → State × Except Error Output
  abort : State → Reply → State × Except Error Unit
  cleanupAfterDelivery : State → Reply → State × Except Error Unit
  cut : BackendCall → State → Cut → State

/-- The two commands that deliver a final payload. -/
inductive TerminalKind where
  | commit
  | finish
  deriving DecidableEq, Repr

namespace DrafterBackend

variable {P : Type} (B : DrafterBackend P)

/-- What a successful `commit_segment` or `finish` returns. -/
abbrev Delivered := B.SegmentOutput ⊕ B.Output

/-- The call that delivers the final payload. -/
def deliver (kind : TerminalKind) (b : B.State) (payload : B.Final) (reply : B.Reply) :
    B.State × Except B.Error B.Delivered :=
  match kind with
  | .commit =>
    let r := B.commitSegment b payload reply
    (r.1, r.2.map .inl)
  | .finish =>
    let r := B.finish b payload reply
    (r.1, r.2.map .inr)

end DrafterBackend

/-- The operation a terminal command reports to the backend. -/
def TerminalKind.operation : TerminalKind → DrafterOperation
  | .commit => .segmentCommit
  | .finish => .final

def TerminalKind.priority : TerminalKind → DrafterPriority
  | .commit => .segmentCommit
  | .finish => .final

end Teloxide.Drafter
