import Teloxide.Drafter.System

/-!
# What one step of a drafter can do

`Step s a s'` says what the step `a` changes, field by field; `step_cases` that
every step of the model is one of these. Later proofs go by its cases and do not
open the model again. A step inside a terminal command is one case (`inTerminal`),
and `Moves` says what it does there.
-/
namespace Teloxide.Drafter

variable {P : Type} {A : DraftAccumulator P} {B : DrafterBackend P}

/-- The terminal command an event is about. -/
def Event.terminalCall : Event B → Option CallId
  | .taken call _ | .attempt call _ | .attemptEnded call _ _ | .cancelled call | .cleanup call
  | .answered call _ => some call
  | _ => none

/-- The replies that go to flush waiters, as events. -/
def FlushAnswers.events (B : DrafterBackend P) (answers : FlushAnswers) : List (Event B) :=
  (answers.map fun x => Event.flushAnswered x.1 x.2).reverse

def Event.isReopened : Event B → Bool
  | .reopened _ => true
  | _ => false

/-- What has been seen in the current segment. -/
def segmentLog (log : List (Event B)) : List (Event B) := log.takeWhile fun e => !e.isReopened

theorem segmentLog_append {evs : List (Event B)} (h : ∀ e ∈ evs, e.isReopened = false) (log : List (Event B)) :
    segmentLog (evs ++ log) = evs ++ segmentLog log :=
  List.takeWhile_append_of_pos fun e he => by rw [h e he]; rfl

/-- The task asks the channel. -/
def Phase.receives : Phase B → Bool
  | .waiting _ | .acquiring _ => true
  | _ => false

theorem Phase.alive_of_receives {phase : Phase B} (h : phase.receives = true) : phase.alive = true := by
  cases phase <;> first | rfl | cases h

/-- A backend is there and has been exchanged for another state of it. -/
def Worker.withBackend (w : Worker B) (b : B.State) : Worker B := { w with backend := some b }

namespace Sys

theorem settlePreview_eq (s : Sys A B) (revision : DraftRevision) (how : PreviewEnd) :
    s.settlePreview revision how =
      { s with
        worker := (s.worker.handlePreviewEnd s.source revision how s.now).1
        source := (s.worker.handlePreviewEnd s.source revision how s.now).2.1
        phase := .loopTop
        log := (s.worker.handlePreviewEnd s.source revision how s.now).2.2.events B ++
          ((if how = .acked then [.covered s.worker.segment revision .acked] else []) ++ s.log) } := by
  have h := (s.worker.handlePreviewEnd_setup s.source revision how s.now).segment
  unfold settlePreview
  dsimp only
  split
  · simp [goto, answerFlushes, emit, FlushAnswers.events, h]
  · simp [goto, answerFlushes, FlushAnswers.events]

/-- A preview request has ended: its permit is completed first, or it is dealt
with at once. -/
theorem endPreview_cases (s : Sys A B) (b b' : B.State) (snapshot : PreviewSnapshot P) (kept : Bool) (how : PreviewEnd) :
    s.endPreview b b' snapshot kept how =
        { s with
          worker := s.worker.withBackend b'
          phase := .settling snapshot.revision how
          log := .previewEnded s.worker.segment b snapshot how :: s.log } ∨
      s.endPreview b b' snapshot kept how =
        Sys.settlePreview { s with
          worker := s.worker.withBackend b'
          log := .previewEnded s.worker.segment b snapshot how :: s.log } snapshot.revision how := by
  unfold endPreview
  dsimp only
  split
  · exact .inl rfl
  · exact .inr rfl

/-! ## Inside a terminal command -/

/-- The retry loop is left with `outcome`. -/
inductive Leaves (t : Terminal B) (outcome : TerminalOutcome B.Delivered B.Error) :
    TerminalStage B → List (Event B) → Prop
  | concluding : shouldCleanup t outcome = false → Leaves t outcome (.concluding outcome) []
  | asking (until') : shouldCleanup t outcome = true → Leaves t outcome (.abortAcquire until' outcome) []
  | aborting (until') : shouldCleanup t outcome = true →
      Leaves t outcome (.aborting until' outcome) [.cleanup t.call]

/-- The end of a call has been dealt with at the instant `now`; the backend is
`b`. -/
inductive Settles (now budget : Nat) (b : B.State) (t : Terminal B) (attempt : TerminalCall B) :
    Terminal B → TerminalStage B → List (Event B) → Prop
  | cleansUp {output stage} (until' scheduled) : attempt = .completed (.ok output) →
      (stage = .cleanupAcquire until' output ∨ stage = .cleaningUp until' output scheduled) →
      Settles now budget b t attempt t stage []
  | succeeds {output stage evs} : attempt = .completed (.ok output) → Leaves t (.success output) stage evs →
      Settles now budget b t attempt t stage evs
  | timedOut {stage evs} : callEnd t.kind b attempt = .requestTimeout →
      Leaves { t with failureDisposition := some ⟨.ambiguous, .unknown⟩ } (.synthetic .requestTimeout) stage evs →
      Settles now budget b t attempt { t with failureDisposition := some ⟨.ambiguous, .unknown⟩ } stage evs
  | overdue {stage evs} : callEnd t.kind b attempt = .deadline →
      Leaves { t with failureDisposition := some ⟨.ambiguous, .unknown⟩ } (.synthetic (.deadline .unknown)) stage evs →
      Settles now budget b t attempt { t with failureDisposition := some ⟨.ambiguous, .unknown⟩ } stage evs
  | fails {error d invalid stage evs} : callEnd t.kind b attempt = .error d →
      (∀ delay scope, d.cls = .retryAfter delay scope → budget ≤ t.retryCount) →
      invalid = (if d.cls = .invalidPayload then decide (t.kind = .commit) else t.payloadInvalid) →
      Leaves { t with failureDisposition := some d, payloadInvalid := invalid } (.backend error) stage evs →
      Settles now budget b t attempt { t with failureDisposition := some d, payloadInvalid := invalid } stage evs
  | retries {d delay scope stage} : callEnd t.kind b attempt = .error d → d.cls = .retryAfter delay scope →
      t.retryCount < budget → (stage = .retrying ∨ stage = .acquiring ∧ now + delay ≤ now) →
      Settles now budget b t attempt { t with
        failureDisposition := some d
        retryCount := t.retryCount + 1
        retryNotBefore := some (now + delay) } stage []

/-- One step inside the command `t`, with the backend `b`. -/
inductive Moves (s : Sys A B) (t : Terminal B) (b : B.State) :
    TerminalStage B → Terminal B → TerminalStage B → B.State → List (Event B) → Prop
  | resumes {b'} : t.retryNotBefore.all (· ≤ s.now) = true → Moves s t b .retrying t .acquiring b' []
  | overdue {stage d stage' b' evs} : (stage = .retrying ∨ stage = .acquiring) → t.operationDeadline ≤ s.now →
      d = (t.failureDisposition.map (·.delivery)).getD .notAttempted →
      Leaves { t with failureDisposition := some ⟨.ambiguous, d⟩ } (.synthetic (.deadline d)) stage' evs →
      Moves s t b stage { t with failureDisposition := some ⟨.ambiguous, d⟩ } stage' b' evs
  | granted {scheduled kept b'} : s.now < t.operationDeadline →
      Moves s t b .acquiring t (.calling scheduled kept) b' []
  | refused {error stage' b' evs} : Leaves t (.rateLimiter error) stage' evs → Moves s t b .acquiring t stage' b' evs
  | calls {scheduled kept b'} : s.isClosed t.call = false →
      Moves s t b (.calling scheduled kept) t (.inCall scheduled kept s.now) b' [.attempt t.call s.now]
  | keeps {scheduled kept since attempt b'} :
      Moves s t b (.inCall scheduled kept since) t (.completing attempt) b'
        [.attemptEnded t.call (callEnd t.kind b' attempt) s.now]
  | ends {scheduled kept since attempt b₁ t' stage' b' evs} :
      Settles s.now s.worker.config.terminalRetryBudget b₁ t attempt t' stage' evs →
      Moves s t b (.inCall scheduled kept since) t' stage' b'
        (evs ++ [.attemptEnded t.call (callEnd t.kind b₁ attempt) s.now])
  | completes {attempt t' stage' b' evs} :
      Settles s.now s.worker.config.terminalRetryBudget b t attempt t' stage' evs →
      Moves s t b (.completing attempt) t' stage' b' evs
  | cleansUp {until' output b'} :
      Moves s t b (.cleanupAcquire until' output) t (.cleaningUp until' output true) b' []
  | cleanedUp {stage until' output stage' b' evs} :
      (stage = .cleanupAcquire until' output ∨ ∃ scheduled, stage = .cleaningUp until' output scheduled) →
      Leaves t (.success output) stage' evs → Moves s t b stage t stage' b' evs
  | aborts {until' outcome b'} :
      Moves s t b (.abortAcquire until' outcome) t (.aborting until' outcome) b' [.cleanup t.call]
  | concludes {stage until' outcome b'} : (stage = .abortAcquire until' outcome ∨ stage = .aborting until' outcome) →
      Moves s t b stage t (.concluding outcome) b' []

theorem Leaves.events {t : Terminal B} {outcome : TerminalOutcome B.Delivered B.Error} {stage : TerminalStage B}
    {evs : List (Event B)} (h : Leaves t outcome stage evs) : ∀ e ∈ evs, e.terminalCall = some t.call := by
  cases h <;> simp [Event.terminalCall]

theorem Settles.same {now budget : Nat} {b : B.State} {t t' : Terminal B} {attempt : TerminalCall B}
    {stage : TerminalStage B} {evs : List (Event B)} (h : Settles now budget b t attempt t' stage evs) :
    t'.call = t.call ∧ t'.kind = t.kind ∧ ∀ e ∈ evs, e.terminalCall = some t.call := by
  cases h with
  | cleansUp | retries => exact ⟨rfl, rfl, by simp⟩
  | succeeds _ hl | timedOut _ hl | overdue _ hl | fails _ _ _ hl => exact ⟨rfl, rfl, hl.events⟩

/-- It is the same command, and only events of it are shown. -/
theorem Moves.same {s : Sys A B} {t t' : Terminal B} {b b' : B.State} {stage stage' : TerminalStage B}
    {evs : List (Event B)} (h : Moves s t b stage t' stage' b' evs) :
    t'.call = t.call ∧ t'.kind = t.kind ∧ ∀ e ∈ evs, e.terminalCall = some t.call := by
  cases h with
  | resumes | granted | cleansUp | concludes => exact ⟨rfl, rfl, by simp⟩
  | calls | keeps | aborts => exact ⟨rfl, rfl, by simp [Event.terminalCall]⟩
  | overdue _ _ _ hl | refused hl | cleanedUp _ hl => exact ⟨rfl, rfl, hl.events⟩
  | completes hs => exact hs.same
  | ends hs =>
    obtain ⟨hc, hk, he⟩ := hs.same
    refine ⟨hc, hk, fun e hmem => ?_⟩
    rcases List.mem_append.mp hmem with h | h
    · exact he e h
    · rw [List.mem_singleton.mp h]
      rfl

/-- What the caller is told. -/
inductive Reports (t : Terminal B) :
    TerminalOutcome B.Delivered B.Error → Except (TerminalError B.Error) B.Delivered → Prop
  | success (output) : Reports t (.success output) (.ok output)
  | rateLimiter (error) : Reports t (.rateLimiter error) (.error (.rateLimiter error))
  | backend {error d} : t.failureDisposition = some d →
      Reports t (.backend error) (.error (.backend error d.cls d.delivery))
  | requestTimeout : Reports t (.synthetic .requestTimeout) (.error (.requestTimeout .unknown))
  | deadline (d) : Reports t (.synthetic (.deadline d)) (.error (.deadlineExceeded d))

/-! ## The steps -/

/-- The step `a` leads from `s` to `s'`. -/
inductive Step (s : Sys A B) : Action A B → Sys A B → Prop
  -- the callers
  | advance (d) : s.phase.waits = true → Step s (.advance d) { s with now := s.now + d }
  | push (u) : Step s (.push u)
      { s with
        source := (s.source.apply u s.now).1
        notified := s.notified || (s.source.apply u s.now).2.isOk
        log := .pushed (s.source.apply u s.now).2 :: s.log }
  | flush : Step s .flush
      { s with
        nextCall := s.nextCall + 1
        unsent := s.unsent ++ [.flush s.source.revision s.nextCall]
        log := .flushCalled s.nextCall s.source.revision s.worker.segment :: s.log }
  | commit (payload) : Step s (.commit payload)
      { s with
        source := s.source.beginTransition
        nextCall := s.nextCall + 1
        unsent := s.unsent ++ [.commit payload s.nextCall] }
  | close {a} (command) : a = .abort ∧ command = .abort s.nextCall ∨
        (∃ payload, a = .finish payload ∧ command = .finish payload s.nextCall) → Step s a
      { s with
        source := s.source.close
        nextCall := s.nextCall + 1
        unsent := s.unsent ++ [command]
        log := .closed s.nextCall :: s.log }
  | unsendable (call) : s.phase.alive = false → Step s (.send call)
      { s with unsent := s.unsent.filter (·.reply ≠ call) }
  | send {call command} : s.phase.alive = true → command ∈ s.unsent → command.reply = call → Step s (.send call)
      { s with unsent := s.unsent.filter (·.reply ≠ call), queue := s.queue ++ [command] }
  | forget (call) : Step s (.forget call)
      { s with unsent := s.unsent.filter (·.reply ≠ call), dropped := call :: s.dropped }
  | dropOwner : Step s .dropOwner { s with source := s.source.close, ownerDropped := true }
  | dropSenders : Step s .dropSenders { s with sendersGone := true }
  | kill : s.ownerDropped = true → s.phase.alive = true → Step s .kill
      { s with phase := .killed, queue := [], worker := { s.worker with flushWaiters := [] } }
  -- the loop
  | idle {ambient kept w answers} : s.phase = .loopTop →
      s.worker.runDuePreview s.source s.now ambient = .idle w answers → Step s (.work (.view ambient kept))
      { s with
        worker := w
        phase := .waiting (w.nextDeadline s.source s.now)
        log := answers.events B ++ s.log }
  | skipped {ambient kept w source answers revision} : s.phase = .loopTop →
      s.worker.runDuePreview s.source s.now ambient = .skipped w source answers revision →
      Step s (.work (.view ambient kept))
      { s with
        worker := w
        source := source
        phase := .loopTop
        log := answers.events B ++ .covered w.segment revision .noop :: s.log }
  | acquire {ambient kept p} : s.phase = .loopTop →
      s.worker.runDuePreview s.source s.now ambient = .acquire p → Step s (.work (.view ambient kept))
      { s with phase := .acquiring p }
  | woken {deadline} : s.phase = .waiting deadline → Step s (.work .woken)
      { s with notified := false, phase := .loopTop }
  | timer {deadline} : s.phase = .waiting (some deadline) → deadline ≤ s.now → Step s (.work .go)
      { s with phase := .loopTop }
  | channelClosed : s.phase.receives = true → s.queue = [] → Step s (.work .command)
      { s with
        source := s.source.close
        phase := .stopped
        queue := []
        worker := { s.worker with flushWaiters := [] }
        log := .loopEnded .closed :: s.log }
  -- previews
  | granted {p kept} : s.phase = .acquiring p → Step s (.work (.permit kept)) { s with phase := .granted p }
  | refused {p error} : s.phase = .acquiring p → Step s (.work (.refused error))
      { s with
        worker := { s.worker with retryNotBefore := some (s.now + s.worker.retryDelay), flushWaiters := [] }
        phase := .loopTop
        log := (s.worker.failFlushes (.rateLimiter error)).2.events B ++ s.log }
  | checked {p} : s.phase = .granted p → s.source.isRunning = true → Step s (.work .go) { s with phase := .checked p }
  | notRunning {p} : s.phase = .granted p → Step s (.work .go) { s with phase := .discarding .notRunning }
  | noPreview {p ambient kept} : s.phase = .checked p → s.source.snapshot ambient = none →
      Step s (.work (.view ambient kept)) { s with phase := .discarding (.noPreview p.currentRevision) }
  | noop {p ambient kept snapshot} : s.phase = .checked p → s.source.snapshot ambient = some snapshot →
      Step s (.work (.view ambient kept)) { s with phase := .discarding (.noop snapshot.revision) }
  | started {p ambient kept snapshot b} (kept' context) : s.phase = .checked p → s.worker.backend = some b →
      s.source.snapshot ambient = some snapshot →
      Worker.noopSnapshot b p.requestScheduling (some snapshot) = none → Step s (.work (.view ambient kept))
      { s with
        worker := { s.worker with
          backend := some (if p.requestScheduling then B.setRequestContext context b else b)
          lastAttempt := some s.now
          retryNotBefore := none }
        phase := .updating p snapshot kept' s.now
        log := .previewStarted s.worker.segment (if p.requestScheduling then B.setRequestContext context b else b)
          snapshot :: s.log }
  | discardedNotRunning : s.phase = .discarding .notRunning → Step s (.work .settled) { s with phase := .loopTop }
  | discardedNoPreview {revision} : s.phase = .discarding (.noPreview revision) → Step s (.work .settled)
      { s with
        worker := (Worker.completeFlushes { s.worker with lastDelivered := revision, nextWatchdog := none }).1
        source := s.source.markDelivered revision
        phase := .loopTop
        log := (Worker.completeFlushes { s.worker with lastDelivered := revision, nextWatchdog := none }).2.events B
          ++ .covered s.worker.segment revision .noPreview :: s.log }
  | discardedNoop {revision} : s.phase = .discarding (.noop revision) → Step s (.work .settled)
      { s with
        worker := (s.worker.skipTo s.source revision).1
        source := s.source.markDelivered revision
        phase := .loopTop
        log := (s.worker.skipTo s.source revision).2.2.events B
          ++ .covered s.worker.segment revision .noop :: s.log }
  | updated {p snapshot kept since r b} : s.phase = .updating p snapshot kept since → s.worker.backend = some b →
      Step s (.work (.reply r))
      (s.endPreview b (B.update b snapshot.preview r).1 snapshot kept
        (s.worker.previewEnd (B.update b snapshot.preview r).1 p.operation (B.update b snapshot.preview r).2))
  | timedOut {p snapshot kept since x b} : s.phase = .updating p snapshot kept since → s.worker.backend = some b →
      Step s (.work (.cut x))
      (s.endPreview b (B.cut .update b x) snapshot kept (.failed s.worker.timeoutDisposition))
  | settled {revision how} : s.phase = .settling revision how → Step s (.work .settled) (s.settlePreview revision how)
  -- commands
  | flushAnswered {target reply rest result} : s.phase.receives = true → s.queue = .flush target reply :: rest →
      s.worker.flushAnswer target = some result → Step s (.work .command)
      { s with queue := rest, phase := .loopTop, log := .flushAnswered reply result :: s.log }
  | flushRegistered {target reply rest} : s.phase.receives = true → s.queue = .flush target reply :: rest →
      s.worker.flushAnswer target = none → Step s (.work .command)
      { s with
        queue := rest
        worker := { s.worker with flushWaiters := s.worker.flushWaiters ++ [⟨target, reply⟩] }
        phase := .loopTop }
  | taken {command rest payload kind reply b} : s.phase.receives = true → s.queue = command :: rest →
      (kind = .commit ∧ command = .commit payload reply ∨ kind = .finish ∧ command = .finish payload reply) →
      s.worker.backend = some b → Step s (.work .command)
      { s with
        queue := rest
        source := if kind = .commit then s.source.beginTransition else s.source.close
        worker := { s.worker with flushWaiters := [] }
        phase := .terminal
          ⟨kind, reply, payload, s.now + s.worker.config.terminalTimeout, none, 0, none, false⟩ .acquiring
        log := .taken reply s.now :: (s.worker.failFlushes .workerStopped).2.events B ++ s.log }
  | abortTaken {rest reply b} (until' phase backend) : s.phase.receives = true → s.queue = .abort reply :: rest →
      s.worker.backend = some b →
      (phase = .abortAcquire reply until' ∨ phase = .aborting reply until') → Step s (.work .command)
      { s with
        queue := rest
        source := s.source.close
        worker := { s.worker with flushWaiters := [], backend := some backend }
        phase := phase
        log := (s.worker.failFlushes .workerStopped).2.events B ++ s.log }
  | orphaned {command rest} (source e) : s.phase.receives = true → s.queue = command :: rest → s.worker.backend = none →
      Step s (.work .command)
      { s with
        queue := []
        source := source
        worker := { s.worker with flushWaiters := [] }
        phase := .stopped
        log := .loopEnded source.gate :: e :: (s.worker.failFlushes .workerStopped).2.events B ++ s.log }
  -- terminal commands
  | inTerminal {t stage input b₀} (t' stage' b evs) : s.phase = .terminal t stage → s.worker.backend = some b₀ →
      Moves s t b₀ stage t' stage' b evs → Step s (.work input)
      { s with
        worker := s.worker.withBackend b
        phase := .terminal t' stage'
        log := evs ++ s.log }
  | cancelled {t stage input} : s.phase = .terminal t stage → s.isClosed t.call = true →
      (input = .go ∨ ∃ x, input = .cut x) → (∀ outcome, stage ≠ .concluding outcome) → Step s (.work input)
      { s with
        phase := .stopped
        queue := []
        worker := { s.worker with flushWaiters := [] }
        log := .loopEnded s.source.gate :: .cancelled t.call :: s.log }
  | reopened {t output} (b) : s.phase = .terminal t (.concluding (.success output)) → t.kind = .commit →
      Step s (.work .go)
      { s with
        worker := { (s.worker.withBackend b).resetSegmentState with segment := min (s.worker.segment + 1) u64Max }
        source := s.source.reopenSegment
        phase := .loopTop
        log := .answered t.call (.ok output) :: .reopened (min (s.worker.segment + 1) u64Max) :: s.log }
  | keptGoing {t error d} (b) : s.phase = .terminal t (.concluding (.backend error)) → t.kind = .commit →
      t.payloadInvalid = true → t.failureDisposition = some d → Step s (.work .go)
      { s with
        worker := s.worker.withBackend b
        phase := .loopTop
        log := .answered t.call (.error (.backend error d.cls d.delivery)) :: s.log }
  | gaveUp {t outcome error} (b) : s.phase = .terminal t (.concluding outcome) → t.kind = .commit →
      Reports t outcome (.error error) → Step s (.work .go)
      { s with
        worker := { s.worker.withBackend b with flushWaiters := [] }
        source := s.source.close
        phase := .stopped
        queue := []
        log := .loopEnded .closed :: .answered t.call (.error error) :: s.log }
  | finished {t outcome result} : s.phase = .terminal t (.concluding outcome) → t.kind = .finish →
      Reports t outcome result → Step s (.work .go)
      { s with
        worker := { s.worker with backend := none, flushWaiters := [] }
        phase := .stopped
        queue := []
        log := .loopEnded s.source.gate :: .answered t.call result :: s.log }
  -- `Abort`
  | abortAdmitted {call until' input} (b) : s.phase = .abortAcquire call until' → Step s (.work input)
      { s with worker := s.worker.withBackend b, phase := .aborting call until' }
  | aborted {call until' input} (result) : s.phase = .abortAcquire call until' ∨ s.phase = .aborting call until' →
      Step s (.work input)
      { s with
        worker := { s.worker with backend := none, flushWaiters := [] }
        phase := .stopped
        queue := []
        log := .loopEnded s.source.gate :: .abortAnswered call result :: s.log }

variable {s : Sys A B} {t : Terminal B} {b : B.State}

/-- The command has come to `stage`, and has shown `evs`. -/
def Lands (s s' : Sys A B) (t : Terminal B) (stage : TerminalStage B) (evs : List (Event B)) : Prop :=
  ∃ b, s' = { s with worker := s.worker.withBackend b, phase := .terminal t stage, log := evs ++ s.log }

theorem Lands.goto (hb : s.worker.backend = some b) (t : Terminal B) (stage : TerminalStage B) :
    s.Lands (s.goto (.terminal t stage)) t stage [] := by
  refine ⟨b, ?_⟩
  simp [Sys.goto, Worker.withBackend, ← hb]

theorem Lands.gotoWith (b : B.State) (t : Terminal B) (stage : TerminalStage B) :
    s.Lands ((s.withBackend b).goto (.terminal t stage)) t stage [] :=
  ⟨b, rfl⟩

/-- The backend may have been exchanged, and an event shown, before. -/
theorem Lands.after {b₁ : B.State} (shown : List (Event B)) {evs : List (Event B)} {s' : Sys A B} {t' : Terminal B}
    {stage : TerminalStage B}
    (h : Lands { s with worker := s.worker.withBackend b₁, log := shown ++ s.log } s' t' stage evs) :
    s.Lands s' t' stage (evs ++ shown) := by
  obtain ⟨b', rfl⟩ := h
  exact ⟨b', by simp [Worker.withBackend]⟩

theorem leaveLoop_lands (hb : s.worker.backend = some b) (t : Terminal B)
    (outcome : TerminalOutcome B.Delivered B.Error) (b' : B.State) :
    ∃ stage evs, Leaves t outcome stage evs ∧ s.Lands (s.leaveLoop t outcome b') t stage evs := by
  unfold leaveLoop
  dsimp only
  split
  · rename_i hc
    exact ⟨_, _, .concluding hc, .goto hb _ _⟩
  · rename_i hc
    have hc : shouldCleanup t outcome = true := by simpa using hc
    split
    · exact ⟨_, _, .asking _ hc, .goto hb _ _⟩
    · exact ⟨_, _, .aborting _ hc, _, rfl⟩

theorem runSuccessCleanup_lands {now budget : Nat} {b : B.State} {attempt : TerminalCall B} {output : B.Delivered}
    (ha : attempt = .completed (.ok output)) (t : Terminal B) (b' : B.State) :
    ∃ stage evs, Settles now budget b t attempt t stage evs ∧
      s.Lands (s.runSuccessCleanup t output b') t stage evs := by
  unfold runSuccessCleanup
  dsimp only
  split
  · obtain ⟨stage, evs, hl, h⟩ := leaveLoop_lands (s := s.withBackend (B.prepareCleanupAfterDelivery b').2) rfl t
      (.success output) (B.prepareCleanupAfterDelivery b').2
    exact ⟨stage, evs, .succeeds ha hl, by simpa using Lands.after [] h⟩
  · split
    · exact ⟨_, _, .cleansUp _ false ha (.inl rfl), .gotoWith _ _ _⟩
    · exact ⟨_, _, .cleansUp _ false ha (.inr rfl), .gotoWith _ _ _⟩

theorem afterCall_lands (hb : s.worker.backend = some b) (t : Terminal B) (attempt : TerminalCall B) (b' : B.State) :
    ∃ t' stage evs, Settles s.now s.worker.config.terminalRetryBudget b' t attempt t' stage evs ∧
      s.Lands (s.afterCall t attempt b') t' stage evs := by
  -- the loop is left, for one of these reasons
  have leave : ∀ (t' : Terminal B) outcome, (∀ stage evs, Leaves t' outcome stage evs →
        Settles s.now s.worker.config.terminalRetryBudget b' t attempt t' stage evs) →
      ∃ t'' stage evs, Settles s.now s.worker.config.terminalRetryBudget b' t attempt t'' stage evs ∧
        s.Lands (s.leaveLoop t' outcome b') t'' stage evs := by
    intro t' outcome hs
    obtain ⟨stage, evs, hl, h⟩ := leaveLoop_lands hb t' outcome b'
    exact ⟨t', stage, evs, hs stage evs hl, h⟩
  unfold afterCall
  dsimp only
  split
  · rename_i output
    obtain ⟨stage, evs, hs, h⟩ := runSuccessCleanup_lands rfl t b'
    exact ⟨t, stage, evs, hs, h⟩
  · exact leave _ _ fun _ _ hl => .timedOut rfl hl
  · exact leave _ _ fun _ _ hl => .overdue rfl hl
  · rename_i error
    split
    · rename_i ht
      exact leave _ _ fun _ _ hl => .timedOut (by simp [callEnd, ht]) hl
    · rename_i ht
      have he : callEnd t.kind b' (.completed (.error error)) = .error (B.classifyError b' t.kind.operation error) := by
        simp [callEnd, ht]
      split
      · rename_i delay scope hc
        split
        · rename_i hle
          exact leave _ _ fun _ _ hl => .fails he (fun _ _ _ => hle) (by simp [hc]) hl
        · rename_i hlt
          refine ⟨_, _, _, .retries he hc (by omega) ?_, .goto hb _ _⟩
          by_cases hd : s.now < s.now + delay
          · simp [hd]
          · simp [hd]
            omega
      · rename_i hc
        exact leave _ _ fun _ _ hl => .fails he (by simp [hc]) (by simp [hc]) hl
      · rename_i hc
        exact leave _ _ fun _ _ hl => .fails he (by simp [hc]) (by simp [hc]) hl
      · rename_i hc
        exact leave _ _ fun _ _ hl => .fails he (by simp [hc]) (by simp [hc]) hl
      · rename_i hc
        exact leave _ _ fun _ _ hl => .fails he (by simp [hc]) (by simp [hc]) hl

/-- One step has been made inside the command `t`. -/
def MovesTo (s : Sys A B) (t : Terminal B) (b : B.State) (stage : TerminalStage B) (s' : Sys A B) : Prop :=
  ∃ t' stage' b' evs, Moves s t b stage t' stage' b' evs ∧
    s' = { s with worker := s.worker.withBackend b', phase := .terminal t' stage', log := evs ++ s.log }

theorem Lands.movesTo {s' : Sys A B} {t' : Terminal B} {stage stage' : TerminalStage B} {evs : List (Event B)}
    (h : s.Lands s' t' stage' evs) (hm : ∀ b', Moves s t b stage t' stage' b' evs) : s.MovesTo t b stage s' := by
  obtain ⟨b', rfl⟩ := h
  exact ⟨t', stage', b', evs, hm b', rfl⟩

theorem endCall_movesTo (scheduled kept : Bool) (since : Nat) (attempt : TerminalCall B) (b₁ : B.State) :
    s.MovesTo t b (.inCall scheduled kept since) (s.endCall t kept attempt b₁) := by
  unfold endCall
  dsimp only
  split
  · exact ⟨t, _, b₁, _, .keeps, rfl⟩
  · obtain ⟨t', stage, evs, hs, h⟩ := afterCall_lands
      (s := (s.withBackend b₁).emit (.attemptEnded t.call (callEnd t.kind b₁ attempt) s.now)) rfl t attempt b₁
    exact Lands.movesTo (Lands.after [.attemptEnded t.call (callEnd t.kind b₁ attempt) s.now] h)
      fun _ => .ends hs

/-! ## The cases -/

theorem MovesTo.step {stage : TerminalStage B} {input : Input A B} {s' : Sys A B} (hp : s.phase = .terminal t stage)
    (hb : s.worker.backend = some b) (h : s.MovesTo t b stage s') : Step s (.work input) s' := by
  obtain ⟨t', stage', b', evs, hm, rfl⟩ := h
  exact .inTerminal t' stage' b' evs hp hb hm

theorem cancel_step {stage : TerminalStage B} {input : Input A B} (hp : s.phase = .terminal t stage)
    (hd : s.isClosed t.call = true) (hi : input = .go ∨ ∃ x, input = .cut x)
    (hs : ∀ outcome, stage ≠ .concluding outcome) : Step s (.work input) (s.cancel t.call) :=
  .cancelled hp hd hi hs

theorem concludeCommit_step {outcome : TerminalOutcome B.Delivered B.Error} {s' : Sys A B}
    (hp : s.phase = .terminal t (.concluding outcome)) (hk : t.kind = .commit)
    (h : (s.withBackend b).concludeCommit t outcome = some s') : Step s (.work .go) s' := by
  unfold concludeCommit at h
  split at h
  · cases h
    exact .reopened b hp hk
  · cases h
    exact .gaveUp b hp hk (.rateLimiter _)
  · rename_i error d hd
    split at h
    · rename_i hi
      cases h
      exact .keptGoing b hp hk hi hd
    · cases h
      exact .gaveUp b hp hk (.backend hd)
  · cases h
    exact .gaveUp b hp hk .requestTimeout
  · cases h
    exact .gaveUp b hp hk (.deadline _)
  all_goals cases h

theorem concludeFinish_step {outcome : TerminalOutcome B.Delivered B.Error} {s' : Sys A B}
    (hp : s.phase = .terminal t (.concluding outcome)) (hk : t.kind = .finish)
    (h : (s.withBackend b).concludeFinish t outcome = some s') : Step s (.work .go) s' := by
  unfold concludeFinish at h
  dsimp only at h
  split at h
  · cases h
    exact .finished hp hk (.success _)
  · cases h
    exact .finished hp hk (.rateLimiter _)
  · rename_i hd
    cases h
    exact .finished hp hk (.backend hd)
  · cases h
    exact .finished hp hk .requestTimeout
  · cases h
    exact .finished hp hk (.deadline _)
  · cases h

theorem workTerminal_cases {stage : TerminalStage B} {input : Input A B} {s' : Sys A B}
    (hp : s.phase = .terminal t stage) (hb : s.worker.backend = some b)
    (h : s.workTerminal t stage input b = some s') : Step s (.work input) s' := by
  -- the loop is left from here
  have leave : ∀ {v : Sys A B} {t' : Terminal B} {b₁ : B.State} outcome,
      v = { s with worker := s.worker.withBackend b₁ } →
      (∀ stage' b' evs, Leaves t' outcome stage' evs → Moves s t b stage t' stage' b' evs) →
      Step s (.work input) (v.leaveLoop t' outcome b₁) := by
    rintro _ t' b₁ outcome rfl hm
    obtain ⟨stage', evs, hl, h⟩ := leaveLoop_lands (s := { s with worker := s.worker.withBackend b₁ }) rfl t' outcome b₁
    have h := Lands.after [] h
    rw [List.append_nil] at h
    exact (h.movesTo fun b' => hm stage' b' evs hl).step hp hb
  have same : s = { s with worker := s.worker.withBackend b } := by simp [Worker.withBackend, ← hb]
  unfold workTerminal at h
  split at h
  -- retrying
  · split at h
    · rename_i hd
      cases h
      exact cancel_step hp hd (.inl rfl) (by simp)
    · split at h
      · rename_i hdue
        cases h
        exact leave _ same fun _ _ _ hl => .overdue (.inl rfl) hdue rfl hl
      · split at h
        · rename_i hready
          cases h
          exact ((Lands.goto hb _ _).movesTo fun _ => .resumes hready).step hp hb
        · cases h
  -- acquiring
  · split at h
    · rename_i hd
      cases h
      exact cancel_step hp hd (.inl rfl) (by simp)
    · split at h
      · rename_i hdue
        cases h
        exact leave _ same fun _ _ _ hl => .overdue (.inr rfl) hdue rfl hl
      · cases h
  · split at h
    · cases h
    · rename_i hn
      cases h
      exact ((Lands.gotoWith _ _ _).movesTo fun _ => .granted (by omega)).step hp hb
  · split at h
    · cases h
    · cases h
      exact leave _ same fun _ _ _ hl => .refused hl
  -- calling
  · split at h
    · rename_i hd
      cases h
      exact cancel_step hp hd (.inl rfl) (by simp)
    · rename_i hd
      cases h
      refine MovesTo.step hp hb ⟨t, _, b, _, .calls (by simpa using hd), ?_⟩
      simp [emit, goto, Worker.withBackend, ← hb]
  -- inCall
  · split at h
    · cases h
    · cases h
      exact (endCall_movesTo _ _ _ _ _).step hp hb
  · split at h
    · rename_i hd
      cases h
      exact cancel_step hp hd (.inr ⟨_, rfl⟩) (by simp)
    · split at h
      · cases h
        exact (endCall_movesTo _ _ _ _ _).step hp hb
      · split at h
        · cases h
          exact (endCall_movesTo _ _ _ _ _).step hp hb
        · cases h
  · cases h
    obtain ⟨t', stage', evs, hs, h⟩ := afterCall_lands hb t ‹_› b
    exact (h.movesTo fun _ => .completes hs).step hp hb
  -- the cleanup after a success
  · cases h
    exact ((Lands.gotoWith _ _ _).movesTo fun _ => .cleansUp).step hp hb
  · cases h
    exact leave _ same fun _ _ _ hl => .cleanedUp (.inl rfl) hl
  · split at h
    · cases h
      exact leave _ same fun _ _ _ hl => .cleanedUp (.inl rfl) hl
    · cases h
  · cases h
    exact leave _ rfl fun _ _ _ hl => .cleanedUp (.inr ⟨_, rfl⟩) hl
  · dsimp only at h
    split at h
    · cases h
      exact leave _ rfl fun _ _ _ hl => .cleanedUp (.inr ⟨_, rfl⟩) hl
    · cases h
  -- the cleanup after a failure
  · cases h
    exact MovesTo.step hp hb ⟨t, _, _, _, .aborts, rfl⟩
  · cases h
    exact ((Lands.goto hb _ _).movesTo fun _ => .concludes (.inl rfl)).step hp hb
  · split at h
    · cases h
      exact ((Lands.goto hb _ _).movesTo fun _ => .concludes (.inl rfl)).step hp hb
    · cases h
  · cases h
    exact ((Lands.gotoWith _ _ _).movesTo fun _ => .concludes (.inr rfl)).step hp hb
  · split at h
    · cases h
      exact ((Lands.gotoWith _ _ _).movesTo fun _ => .concludes (.inr rfl)).step hp hb
    · cases h
  -- the end
  · unfold conclude at h
    dsimp only at h
    split at h
    · exact concludeCommit_step hp ‹_› h
    · exact concludeFinish_step hp ‹_› h
  · cases h

theorem beginTerminal_step {command : Command B.Final} {rest : List (Command B.Final)} (kind : TerminalKind)
    {payload : B.Final} {reply : CallId} (ha : s.phase.receives = true) (hq : s.queue = command :: rest)
    (hk : kind = .commit ∧ command = .commit payload reply ∨ kind = .finish ∧ command = .finish payload reply) :
    Step s (.work .command)
      ((Sys.failWaiters { s with
          queue := rest
          source := if kind = .commit then s.source.beginTransition else s.source.close }).beginTerminal
        kind payload reply) := by
  cases hb : s.worker.backend with
  | none =>
    have h := Step.orphaned (if kind = .commit then s.source.beginTransition else s.source.close)
      (.answered reply (.error (.workerStoppedAfterCommand .notAttempted))) ha hq hb
    simpa [beginTerminal, failWaiters, Worker.failFlushes, hb, stop, emit, answerFlushes, FlushAnswers.events] using h
  | some b =>
    have h := Step.taken ha hq hk hb
    simpa [beginTerminal, failWaiters, Worker.failFlushes, hb, goto, emit, answerFlushes, FlushAnswers.events,
      awaitPermit] using h

theorem handleCommand_step {command : Command B.Final} {rest : List (Command B.Final)} (ha : s.phase.receives = true)
    (hq : s.queue = command :: rest) :
    Step s (.work .command) (Sys.handleCommand { s with queue := rest } command) := by
  cases command with
  | flush target reply =>
    cases hf : s.worker.flushAnswer target with
    | some result => simpa [handleCommand, hf, goto, emit] using Step.flushAnswered ha hq hf
    | none => simpa [handleCommand, hf, goto] using Step.flushRegistered ha hq hf
  | commit payload reply => exact beginTerminal_step .commit ha hq (.inl ⟨rfl, rfl⟩)
  | finish payload reply => exact beginTerminal_step .finish ha hq (.inr ⟨rfl, rfl⟩)
  | abort reply =>
    cases hb : s.worker.backend with
    | none =>
      have h := Step.orphaned s.source.close (.abortAnswered reply (.error .workerStopped)) ha hq hb
      simpa [handleCommand, failWaiters, Worker.failFlushes, hb, stop, emit, answerFlushes, FlushAnswers.events] using h
    | some b =>
      simp only [handleCommand, failWaiters, Worker.failFlushes, answerFlushes, hb]
      split
      · have h := Step.abortTaken (s.now + s.worker.config.requestTimeout)
          (.abortAcquire reply (s.now + s.worker.config.requestTimeout)) b ha hq hb (.inl rfl)
        simpa [goto, FlushAnswers.events, Worker.failFlushes, ← hb] using h
      · have h := Step.abortTaken (s.now + s.worker.config.requestTimeout)
          (.aborting reply (s.now + s.worker.config.requestTimeout)) (B.setRequestContext none b) ha hq hb (.inr rfl)
        simpa [goto, withBackend, FlushAnswers.events, Worker.failFlushes] using h

theorem receive_step {s' : Sys A B} (ha : s.phase.receives = true) (h : s.receive = some s') :
    Step s (.work .command) s' := by
  unfold receive at h
  split at h
  · rename_i command rest hq
    cases h
    exact handleCommand_step ha hq
  · rename_i hq
    split at h
    · cases h
      have := Step.channelClosed ha hq
      simpa [stop] using this
    · cases h

theorem endAbort_step {call until' : Nat} {input : Input A B}
    (hp : s.phase = .abortAcquire call until' ∨ s.phase = .aborting call until')
    (result : Except (DraftAbortError B.Error) Unit) : Step s (.work input) (s.endAbort call result) :=
  .aborted result hp

theorem takeSnapshot_step {p : PreviewAttempt} {ambient : A.Ambient} {kept : Bool} (hp : s.phase = .checked p)
    (hb : s.worker.backend = some b) : Step s (.work (.view ambient kept)) (s.takeSnapshot p ambient kept b) := by
  unfold takeSnapshot
  split
  · exact .noPreview hp ‹_›
  · rename_i snapshot hs
    split
    · exact .noop hp hs
    · rename_i hn
      exact .started _ _ hp hb hs (by simpa using hn)

theorem discarded_step {d : Discard} (hp : s.phase = .discarding d) :
    Step s (.work .settled) (s.discarded d) := by
  cases d with
  | notRunning => exact .discardedNotRunning hp
  | noPreview revision =>
    simpa [discarded, goto, emit, answerFlushes, FlushAnswers.events, Worker.completeFlushes] using
      Step.discardedNoPreview hp
  | noop revision =>
    simpa [discarded, goto, emit, answerFlushes, FlushAnswers.events, Worker.skipTo, Worker.completeFlushes] using
      Step.discardedNoop hp

theorem work_step {input : Input A B} {s' : Sys A B} (h : s.work input = some s') : Step s (.work input) s' := by
  unfold work at h
  split at h
  · rename_i hp
    split at h
    · rename_i hr
      cases h
      simpa [goto, answerFlushes, FlushAnswers.events] using Step.idle hp hr
    · rename_i hr
      cases h
      simpa [goto, answerFlushes, emit, FlushAnswers.events] using Step.skipped hp hr
    · rename_i hr
      cases h
      exact .acquire hp hr
  · rename_i hp
    exact receive_step (by rw [hp]; rfl) h
  · rename_i hp
    split at h
    · cases h
      exact .woken hp
    · cases h
  · rename_i hp
    split at h
    · rename_i hd
      cases h
      exact .timer hp (by simp at hd; exact hd.2)
    · cases h
  · rename_i hp
    exact receive_step (by rw [hp]; rfl) h
  · rename_i hp
    cases h
    exact .granted hp
  · rename_i hp
    cases h
    simpa [goto, answerFlushes, FlushAnswers.events, Worker.failFlushes] using Step.refused hp
  · rename_i hp
    split at h
    · rename_i hr
      cases h
      exact .checked hp hr
    · cases h
      exact .notRunning hp
  · rename_i hp
    obtain ⟨b, hb, rfl⟩ := Option.map_eq_some_iff.mp h
    exact takeSnapshot_step hp hb
  · rename_i hp
    cases h
    exact discarded_step hp
  · rename_i hp
    obtain ⟨b, hb, rfl⟩ := Option.map_eq_some_iff.mp h
    exact .updated hp hb
  · rename_i hp
    split at h
    · obtain ⟨b, hb, rfl⟩ := Option.map_eq_some_iff.mp h
      exact .timedOut hp hb
    · cases h
  · rename_i hp
    cases h
    exact .settled hp
  · rename_i hp
    obtain ⟨b, hb, hs⟩ := Option.bind_eq_some_iff.mp h
    exact workTerminal_cases hp hb hs
  · rename_i hp
    obtain ⟨b, hb, rfl⟩ := Option.map_eq_some_iff.mp h
    exact .abortAdmitted _ hp
  · rename_i hp
    cases h
    exact endAbort_step (.inl hp) _
  · rename_i hp
    split at h
    · cases h
      exact endAbort_step (.inl hp) _
    · cases h
  · rename_i hp
    obtain ⟨b, hb, rfl⟩ := Option.map_eq_some_iff.mp h
    exact .aborted _ (.inr hp)
  · rename_i hp
    split at h
    · cases h
      exact endAbort_step (.inr hp) _
    · cases h
  · cases h

theorem step_cases {a : Action A B} {s' : Sys A B} (h : s.step a = some s') : Step s a s' := by
  cases a with
  | advance d =>
    simp only [step] at h
    split at h
    · cases h
      exact .advance d ‹_›
    · cases h
  | push u =>
    cases h
    exact .push u
  | flush =>
    cases h
    exact .flush
  | commit payload =>
    cases h
    exact .commit payload
  | finish payload =>
    cases h
    exact .close _ (.inr ⟨payload, rfl, rfl⟩)
  | abort =>
    cases h
    exact .close _ (.inl ⟨rfl, rfl⟩)
  | send call =>
    simp only [step] at h
    split at h
    · cases h
    · rename_i command hf
      split at h
      · rename_i hal
        cases h
        exact .unsendable call hal
      · rename_i hal
        split at h
        · cases h
          exact .send (by simpa using hal) (List.mem_of_find?_eq_some hf)
            (by simpa using List.find?_some hf)
        · cases h
  | forget call =>
    cases h
    exact .forget call
  | dropOwner =>
    cases h
    exact .dropOwner
  | dropSenders =>
    simp only [step] at h
    split at h
    · cases h
      exact .dropSenders
    · cases h
  | kill =>
    simp only [step] at h
    split at h
    · rename_i hc
      cases h
      simp only [Bool.and_eq_true] at hc
      exact .kill hc.1.1 hc.2
    · cases h
  | work input => exact work_step h

/-- The step `a` begins the next segment. -/
def reopens (s : Sys A B) : Action A B → Bool
  | .work .go =>
    match s.phase with
    | .terminal t (.concluding (.success _)) => t.kind = .commit
    | _ => false
  | _ => false

theorem reopens_iff {a : Action A B} : s.reopens a = true ↔
    a = .work .go ∧ ∃ t output, s.phase = .terminal t (.concluding (.success output)) ∧ t.kind = .commit := by
  unfold reopens
  split
  · split
    · rename_i t output hp
      simp [hp]
    · rename_i hp
      simp only [Bool.false_eq_true, true_and, false_iff]
      rintro ⟨t, output, hp', -⟩
      exact hp t output hp'
  · rename_i ha
    simp only [Bool.false_eq_true, false_iff]
    rintro ⟨rfl, -⟩
    exact ha rfl

end Sys

/-- While the task lives the worker has its backend. -/
theorem Sys.Step.backend {s s' : Sys A B} {a : Action A B} (h : Sys.Step s a s')
    (hb : s.phase.alive = true → s.worker.backend.isSome = true) :
    s'.phase.alive = true → s'.worker.backend.isSome = true := by
  have settle : ∀ (v : Sys A B) r how, v.worker.backend.isSome = true →
      (v.settlePreview r how).worker.backend.isSome = true := by
    intro v r how hv
    rw [Sys.settlePreview_eq]
    dsimp only
    rw [(v.worker.handlePreviewEnd_setup v.source r how v.now).backend]
    exact hv
  have ended : ∀ (v : Sys A B) b b' snapshot kept how,
      (v.endPreview b b' snapshot kept how).worker.backend.isSome = true := by
    intro v b b' snapshot kept how
    rcases v.endPreview_cases b b' snapshot kept how with h | h <;> rw [h]
    · rfl
    · exact settle _ _ how rfl
  intro ha
  cases h with
  | idle hp hr =>
    have hs := hb (by rw [hp]; rfl)
    rcases Worker.runDuePreview_idle hr with ⟨rfl, -⟩ | ⟨rfl, -⟩ <;> exact hs
  | skipped hp hr =>
    have hs := hb (by rw [hp]; rfl)
    obtain ⟨_, _, _, -, -, -, -, -, -, -, hw⟩ := Worker.runDuePreview_skipped hr
    cases hw
    exact hs
  | updated hp => exact ended _ _ _ _ _ _
  | timedOut hp => exact ended _ _ _ _ _ _
  | settled hp => exact settle _ _ _ (hb (by rw [hp]; rfl))
  | _ =>
    -- the worker is the same, has a backend in it, or the task is over
    first
    | exact hb ha
    | rfl
    | exact absurd ha Bool.false_ne_true
    | exact hb (by rw [‹s.phase = _›]; rfl)
    | exact hb (Phase.alive_of_receives ‹s.phase.receives = true›)

theorem backend_of_run {ok : Sys A B → Action A B → Prop} {τ : List Unit} {s : Sys A B} (hr : (drafter A B).Run ok τ s) :
    s.phase.alive = true → s.worker.backend.isSome = true := by
  refine hr.induct (I := fun _ s => s.phase.alive = true → s.worker.backend.isSome = true) ?_ ?_
  · rintro s ⟨accumulator, b, uses, config, now, hc, rfl⟩ _
    rfl
  · intro _ s a s' _ _ hi _ hs
    simp only [drafter, Option.map_eq_some_iff, Prod.mk.injEq] at hs
    obtain ⟨_, hs, rfl, -⟩ := hs
    exact (Sys.step_cases hs).backend hi

/-- The invariant rule of the drafter. -/
theorem drafter_induct {ok : Sys A B → Action A B → Prop} {I : Sys A B → Prop} (h0 : ∀ s, Sys.Spawned s → I s)
    (hstep : ∀ s a s', Sys.Step s a s' → ok s a → (s.phase.alive = true → s.worker.backend.isSome = true) → I s → I s')
    {τ : List Unit} {s : Sys A B} (hr : (drafter A B).Run ok τ s) : I s := by
  refine hr.induct (I := fun _ s => I s) h0 ?_
  intro _ s a s' _ hr hi ho hs
  simp only [drafter, Option.map_eq_some_iff, Prod.mk.injEq] at hs
  obtain ⟨_, hs, rfl, -⟩ := hs
  exact hstep s a _ (Sys.step_cases hs) ho (backend_of_run hr) hi

end Teloxide.Drafter
