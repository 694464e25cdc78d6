import Teloxide.Drafter.Backend
import Teloxide.Drafter.Source

/-!
# The drafter worker: its state and what it decides

`Worker` of `crates/teloxide/src/drafter/machine.rs`: when a preview is due, when
to wake up next, what a preview failure does, and which flush waiters are
answered. These functions run between two awaits; `Teloxide.Drafter.System` puts
them into the loop of the worker.
-/
namespace Teloxide.Drafter

/-- A call of a client, which is where its reply goes. -/
abbrev CallId := Nat

/-- mirrors machine.rs:80-83 -/
structure FlushWaiter where
  target : DraftRevision
  reply : CallId
  deriving DecidableEq

/-- The replies that are sent to flush waiters. -/
abbrev FlushAnswers := List (CallId × Except DraftFlushError DraftRevision)

/-- `usesRequestScheduler` is a constant of the limiter.
mirrors machine.rs:261-291 -/
structure Worker {P : Type} (B : DrafterBackend P) where
  backend : Option B.State
  usesRequestScheduler : Bool
  config : DraftConfig
  capabilities : DrafterCapabilities
  lastDelivered : DraftRevision
  lastAttempt : Option Nat
  nextWatchdog : Option Nat
  retryNotBefore : Option Nat
  retryDelay : Nat
  consecutivePreviewFailures : Nat
  previewDisabled : Bool
  flushWaiters : List FlushWaiter
  segment : Nat

/-- A preview that is due, until its request has ended. -/
structure PreviewAttempt where
  operation : DrafterOperation
  currentRevision : DraftRevision
  requestScheduling : Bool
  deriving DecidableEq

/-- mirrors machine.rs:569-573 -/
def PreviewAttempt.priority (p : PreviewAttempt) : DrafterPriority :=
  if p.operation = .refresh then .refreshPreview else .changedPreview

/-- How a preview request ends. -/
inductive PreviewEnd where
  | acked
  | failed (disposition : DrafterErrorDisposition)
  deriving DecidableEq

variable {P : Type} {B : DrafterBackend P} {A : DraftAccumulator P}

namespace Worker

/-- mirrors machine.rs:1987-2010 -/
def spawn (b : B.State) (usesRequestScheduler : Bool) (config : DraftConfig) : Worker B where
  backend := some b
  usesRequestScheduler := usesRequestScheduler
  config := config
  capabilities := B.capabilities b
  lastDelivered := 0
  lastAttempt := none
  nextWatchdog := none
  retryNotBefore := none
  retryDelay := config.retryInitial
  consecutivePreviewFailures := 0
  previewDisabled := false
  flushWaiters := []
  segment := 0

variable (w : Worker B)

/-- mirrors machine.rs:156-163 -/
def requestScheduling : Bool := w.usesRequestScheduler && w.backend.any B.supportsRequestScheduler

def flushRequested : Bool := w.flushWaiters.any fun waiter => w.lastDelivered < waiter.target

/-- The instant `deadline`, put off until the next attempt is allowed.
mirrors machine.rs:506-511, 517-522 -/
def notBefore (deadline : Nat) : Nat :=
  let deadline := match w.lastAttempt with
    | some lastAttempt => max deadline (lastAttempt + w.config.minUpdateInterval)
    | none => deadline
  match w.retryNotBefore with
  | some retry => max deadline retry
  | none => deadline

/-- mirrors machine.rs:494-527 -/
def nextDeadline (source : SourceState A) (now : Nat) : Option Nat :=
  if w.previewDisabled then none
  else if w.lastDelivered < source.revision then
    let deadline :=
      if w.flushRequested then now else source.dirtySince.getD now + w.config.coalesceWindow
    some (w.notBefore deadline)
  else w.nextWatchdog.map w.notBefore

/-- The pause after the last attempt and after a failure is over. -/
def paced (now : Nat) : Bool :=
  w.lastAttempt.all (fun t => t + w.config.minUpdateInterval ≤ now) && w.retryNotBefore.all (· ≤ now)

/-- mirrors machine.rs:544-554 -/
def changedDue (source : SourceState A) (now : Nat) : Bool :=
  w.lastDelivered < source.revision
    && (w.flushRequested || source.dirtySince.any fun since => since + w.config.coalesceWindow ≤ now)
    && w.paced now

/-- mirrors machine.rs:555-561 -/
def refreshDue (source : SourceState A) (now : Nat) : Bool :=
  !(w.lastDelivered < source.revision)
    && w.capabilities.expiresWithoutRefresh
    && w.nextWatchdog.any (· ≤ now)
    && w.paced now

/-- The answer of `complete_flushes` to one waiter, if it gets one. -/
def flushAnswer (target : DraftRevision) : Option (Except DraftFlushError DraftRevision) :=
  if target ≤ w.lastDelivered then some (.ok w.lastDelivered)
  else if w.previewDisabled then some (.error .previewDisabled)
  else none

/-- mirrors machine.rs:810-849 -/
def completeFlushes : Worker B × FlushAnswers :=
  ({ w with flushWaiters := w.flushWaiters.filter fun waiter => (w.flushAnswer waiter.target).isNone },
    w.flushWaiters.filterMap fun waiter => (w.flushAnswer waiter.target).map (waiter.reply, ·))

/-- Every waiter is answered with the error.
mirrors machine.rs:804-808, 883-885 -/
def failFlushes (error : DraftFlushError) : Worker B × FlushAnswers :=
  ({ w with flushWaiters := [] }, w.flushWaiters.map fun waiter => (waiter.reply, .error error))

/-- mirrors machine.rs:774-802 -/
def handlePreviewError (cls : DrafterErrorClass) (now : Nat) : Worker B × FlushAnswers :=
  let w := { w with consecutivePreviewFailures := min (w.consecutivePreviewFailures + 1) u32Max }
  let disabled := { w with previewDisabled := true, nextWatchdog := none }
  match cls with
  | .retryAfter delay _ => ({ w with retryNotBefore := some (now + delay) }, [])
  | .transient true =>
    if w.config.maxConsecutivePreviewFailures.all (w.consecutivePreviewFailures < ·) then
      ({ w with
          retryNotBefore := some (now + w.retryDelay)
          retryDelay := min (w.retryDelay * 2) w.config.retryMax }, [])
    else disabled.completeFlushes
  | .transient false | .invalidPayload | .permanent | .ambiguous => disabled.completeFlushes

/-- What a preview request that ran out of time is recorded as.
mirrors machine.rs:706-716, 755-762 -/
def timeoutDisposition : DrafterErrorDisposition where
  cls := .transient
    (!(w.capabilities.mode = .editInPlace || w.capabilities.mode = .statusEditThenSendFinal)
      || 0 < w.lastDelivered)
  delivery := .unknown

/-- How a preview request that came back has ended.
mirrors machine.rs:662, 693-737 -/
def previewEnd (b : B.State) (operation : DrafterOperation) (result : Except B.Error Unit) : PreviewEnd :=
  match result with
  | .ok () => .acked
  | .error error =>
    if B.isRequestTimeout b error then .failed w.timeoutDisposition
    else .failed (B.classifyError b operation error)

/-- The worker and its source once a preview request has ended.
mirrors machine.rs:661-768 -/
def handlePreviewEnd (source : SourceState A) (revision : DraftRevision) (how : PreviewEnd) (now : Nat) :
    Worker B × SourceState A × FlushAnswers :=
  match how with
  | .acked =>
    let r := completeFlushes { w with
      lastDelivered := max w.lastDelivered revision
      retryDelay := w.config.retryInitial
      consecutivePreviewFailures := 0
      retryNotBefore := none
      nextWatchdog :=
        if w.capabilities.expiresWithoutRefresh then some (now + w.config.refreshInterval) else none }
    (r.1, source.markDelivered revision, r.2)
  | .failed disposition =>
    let r := w.handlePreviewError disposition.cls now
    (r.1, source, r.2)

/-- The two differ in the progress of the previews only. -/
structure SameSetup (w w' : Worker B) : Prop where
  backend : w'.backend = w.backend
  usesRequestScheduler : w'.usesRequestScheduler = w.usesRequestScheduler
  config : w'.config = w.config
  capabilities : w'.capabilities = w.capabilities
  segment : w'.segment = w.segment

theorem handlePreviewError_setup (cls : DrafterErrorClass) (now : Nat) :
    w.SameSetup (w.handlePreviewError cls now).1 := by
  unfold handlePreviewError
  dsimp only
  split
  · exact ⟨rfl, rfl, rfl, rfl, rfl⟩
  · split <;> exact ⟨rfl, rfl, rfl, rfl, rfl⟩
  all_goals exact ⟨rfl, rfl, rfl, rfl, rfl⟩

theorem handlePreviewEnd_setup (source : SourceState A) (revision : DraftRevision) (how : PreviewEnd) (now : Nat) :
    w.SameSetup (w.handlePreviewEnd source revision how now).1 := by
  cases how with
  | acked => exact ⟨rfl, rfl, rfl, rfl, rfl⟩
  | failed d => exact w.handlePreviewError_setup d.cls now

/-- mirrors machine.rs:1658-1666 -/
def resetSegmentState : Worker B :=
  { w with
    lastDelivered := 0
    lastAttempt := none
    nextWatchdog := none
    retryNotBefore := none
    retryDelay := w.config.retryInitial
    consecutivePreviewFailures := 0
    previewDisabled := false }

end Worker

/-- What `run_due_preview` does before it first waits. -/
inductive PreviewStart {P : Type} (A : DraftAccumulator P) (B : DrafterBackend P) where
  /-- `Idle` -/
  | idle (worker : Worker B) (answers : FlushAnswers)
  /-- `Continue`: the preview is already shown -/
  | skipped (worker : Worker B) (source : SourceState A) (answers : FlushAnswers) (revision : DraftRevision)
  /-- it asks the limiter -/
  | acquire (attempt : PreviewAttempt)

namespace Worker

variable (w : Worker B)

/-- mirrors machine.rs:566-567 -/
def due (source : SourceState A) (now : Nat) : Option DrafterOperation :=
  if w.changedDue source now then some .preview
  else if w.refreshDue source now then some .refresh
  else none

/-- The preview counts as delivered: it is shown already, or there is none.
mirrors machine.rs:592-594, 632-634 -/
def skipTo (source : SourceState A) (revision : DraftRevision) : Worker B × SourceState A × FlushAnswers :=
  let r := completeFlushes { w with lastDelivered := max w.lastDelivered revision }
  (r.1, source.markDelivered revision, r.2)

/-- The snapshot, if the backend would do nothing with it.
mirrors machine.rs:583-590, 625-631 -/
def noopSnapshot (b : B.State) (requestScheduling : Bool) (snapshot : Option (PreviewSnapshot P)) :
    Option (PreviewSnapshot P) :=
  if requestScheduling && B.maySkipPreview b then snapshot.filter fun s => B.previewIsNoop b s.preview else none

/-- mirrors machine.rs:529-597 -/
def runDuePreview (source : SourceState A) (now : Nat) (ambient : A.Ambient) : PreviewStart A B :=
  if source.isRunning = false then .idle w []
  else if w.previewDisabled then .idle w.completeFlushes.1 w.completeFlushes.2
  else match w.due source now with
    | none => .idle w.completeFlushes.1 w.completeFlushes.2
    | some operation =>
      match w.backend with
      | none => .idle w []
      | some b =>
        match noopSnapshot b w.requestScheduling (source.snapshot ambient) with
        | some snapshot =>
          let r := w.skipTo source snapshot.revision
          .skipped r.1 r.2.1 r.2.2 snapshot.revision
        | none => .acquire ⟨operation, source.revision, w.requestScheduling⟩

variable {w} {source : SourceState A} {now : Nat} {ambient : A.Ambient} {w' : Worker B} {answers : FlushAnswers}

theorem runDuePreview_idle (h : w.runDuePreview source now ambient = .idle w' answers) :
    (w' = w ∧ answers = [] ∧ (source.gate ≠ .running ∨ w.backend = none)) ∨
      (w' = w.completeFlushes.1 ∧ answers = w.completeFlushes.2 ∧ source.gate = .running ∧
        (w.previewDisabled = true ∨ w.due source now = none)) := by
  unfold runDuePreview at h
  split at h
  · rename_i hg
    cases h
    exact .inl ⟨rfl, rfl, .inl (by simpa [SourceState.isRunning] using hg)⟩
  · rename_i hg
    have hg : source.gate = .running := by simpa [SourceState.isRunning] using hg
    split at h
    · rename_i hd
      cases h
      exact .inr ⟨rfl, rfl, hg, .inl hd⟩
    · split at h
      · rename_i hd
        cases h
        exact .inr ⟨rfl, rfl, hg, .inr hd⟩
      · split at h
        · rename_i hb
          cases h
          exact .inl ⟨rfl, rfl, .inr hb⟩
        · split at h <;> cases h

theorem runDuePreview_skipped {source' : SourceState A} {revision : DraftRevision}
    (h : w.runDuePreview source now ambient = .skipped w' source' answers revision) :
    ∃ operation b snapshot, source.gate = .running ∧ w.previewDisabled = false ∧ w.due source now = some operation ∧
      w.backend = some b ∧ source.snapshot ambient = some snapshot ∧
      noopSnapshot b w.requestScheduling (some snapshot) = some snapshot ∧ revision = snapshot.revision ∧
      (w', source', answers) = w.skipTo source revision := by
  unfold runDuePreview at h
  split at h
  · cases h
  · rename_i hg
    split at h
    · cases h
    · rename_i hd
      split at h
      · cases h
      · rename_i operation hdue
        split at h
        · cases h
        · rename_i b hb
          split at h
          · rename_i snapshot hn
            cases h
            have hs : source.snapshot ambient = some snapshot := by
              unfold noopSnapshot at hn
              split at hn
              · exact (Option.filter_eq_some_iff.mp hn).1
              · cases hn
            exact ⟨operation, b, snapshot, by simpa [SourceState.isRunning] using hg, by simpa using hd, hdue, hb, hs,
              hs ▸ hn, rfl, rfl⟩
          · cases h

theorem runDuePreview_of_noop {operation : DrafterOperation} {b : B.State} {snapshot : PreviewSnapshot P}
    (hg : source.gate = .running) (hd : w.previewDisabled = false) (hdue : w.due source now = some operation)
    (hb : w.backend = some b) (hs : source.snapshot ambient = some snapshot)
    (hn : noopSnapshot b w.requestScheduling (some snapshot) = some snapshot) :
    w.runDuePreview source now ambient =
      .skipped (w.skipTo source snapshot.revision).1 (source.markDelivered snapshot.revision)
        (w.skipTo source snapshot.revision).2.2 snapshot.revision := by
  simp [runDuePreview, SourceState.isRunning, hg, hd, hdue, hb, hs, hn, skipTo]

theorem runDuePreview_acquire {p : PreviewAttempt} (h : w.runDuePreview source now ambient = .acquire p) :
    source.gate = .running ∧ w.previewDisabled = false ∧ w.due source now = some p.operation ∧
      p.currentRevision = source.revision ∧ p.requestScheduling = w.requestScheduling := by
  unfold runDuePreview at h
  split at h
  · cases h
  · rename_i hg
    split at h
    · cases h
    · rename_i hd
      split at h
      · cases h
      · rename_i operation hdue
        split at h
        · cases h
        · split at h
          · cases h
          · cases h
            exact ⟨by simpa [SourceState.isRunning] using hg, by simpa using hd, hdue, rfl, rfl⟩

end Worker

end Teloxide.Drafter
