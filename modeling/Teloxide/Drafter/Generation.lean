import Teloxide.Drafter.Spin

/-!
# The generation of the live draft

A drafter over a native backend publishes the draft it works on in a slot that its
handles read (`crates/teloxide/src/drafter/machine.rs:296-335, 1924-1959, 2153-2166`),
so that a Stop update is matched with the draft it was meant for. `Shared` puts the
slot beside the drafter: the worker writes it, and so do a handle and `Drop`.

* `generation_live`: in every run in which the task is not cut off while a draft is
  published, the slot is empty as soon as the task has ended, and before that it holds
  the draft of the backend or, while a commit is under way, the one that is being
  committed.
* `generation_stale`: a commit that is concluded after the drop of the `Drafter`, and
  before the abort of its task takes effect, leaves its new generation in the slot for
  ever: `run` clears the slot only when its loop returns.
-/
namespace Teloxide.Drafter

variable {P : Type}

/-! ## Backends that own a draft -/

/-- The `NonZeroI32` of a native draft.
mirrors backend.rs:189-206 -/
structure DraftId where
  value : Int
  nonzero : value ≠ 0
  deriving DecidableEq

/-- mirrors backend.rs:220-226 -/
structure DrafterGeneration where
  chatId : ChatId
  draftId : DraftId
  deriving DecidableEq

/-- A backend with its `draft_id`, which is the same for all updates of a segment: only
a commit that succeeds changes it.
mirrors backend.rs:54-62, 189-192 -/
structure NativeBackend (P : Type) where
  backend : DrafterBackend P
  rateLimitKey : backend.State → ChatId
  draftId : backend.State → Option DraftId
  setRequestContext : ∀ context b, draftId (backend.setRequestContext context b) = draftId b
  prepareCleanup : ∀ b, draftId (backend.prepareCleanupAfterDelivery b).2 = draftId b
  takeCleanupFailure : ∀ b, draftId (backend.takeCleanupFailure b).2 = draftId b
  update : ∀ b preview reply, draftId (backend.update b preview reply).1 = draftId b
  commitSegment : ∀ b payload reply error, (backend.commitSegment b payload reply).2 = .error error →
    draftId (backend.commitSegment b payload reply).1 = draftId b
  finish : ∀ b payload reply, draftId (backend.finish b payload reply).1 = draftId b
  abort : ∀ b reply, draftId (backend.abort b reply).1 = draftId b
  cleanup : ∀ b reply, draftId (backend.cleanupAfterDelivery b reply).1 = draftId b
  cut : ∀ call b x, draftId (backend.cut call b x) = draftId b

/-- The state of `NativeTextBackend` and of `NativeRichBackend`.
mirrors telegram.rs:630-637, 785-792 -/
structure Native where
  chatId : ChatId
  draftId : DraftId
  requestContext : Option DrafterRequestContext

namespace Native

/-- mirrors telegram.rs:711-735, 757-767 -/
def takeContext (b : Native) : Native := { b with requestContext := none }

/-- `next` is what `DraftId::next()` gives.
mirrors telegram.rs:727-745, 885-903 -/
def commitSegment (b : Native) (answer : Except DrafterRequestError Message) (next : DraftId) :
    Native × Except DrafterRequestError Message :=
  let b := b.takeContext
  (if answer.isOk then { b with draftId := next } else b, answer)

/-- What the two backends share; `F` are the final payloads.
mirrors telegram.rs:684-783, 839-940 -/
def backend (P F : Type) (rich : Bool) : DrafterBackend P where
  State := Native
  Final := F
  SegmentOutput := Message
  Output := Message
  Error := DrafterRequestError
  Reply := Except DrafterRequestError Message × DraftId
  Cut := Unit
  capabilities _ := ⟨.nativeDraft, true, true, rich⟩
  supportsRequestScheduler _ := true
  maySkipPreview _ := false
  previewIsNoop _ _ := false
  abortRequestPossible _ := false
  isRequestTimeout _ := isTimeout
  classifyError _ := classifyRequestError
  setRequestContext context b := { b with requestContext := context }
  prepareCleanupAfterDelivery b := (false, b)
  takeCleanupFailure b := (none, b)
  update b _ reply := (b.takeContext, reply.1.map fun _ => ())
  commitSegment b _ reply := b.commitSegment reply.1 reply.2
  finish b _ reply := (b.takeContext, reply.1)
  abort b _ := (b.takeContext, .ok ())
  cleanupAfterDelivery b _ := (b, .ok ())
  cut _ b _ := b.takeContext

def native (P F : Type) (rich : Bool) : NativeBackend P where
  backend := backend P F rich
  rateLimitKey b := Native.chatId b
  draftId b := some (Native.draftId b)
  setRequestContext _ _ := rfl
  prepareCleanup _ := rfl
  takeCleanupFailure _ := rfl
  update _ _ _ := rfl
  commitSegment b payload reply error h := by
    obtain ⟨answer, next⟩ := reply
    have h : answer = .error error := h
    subst h
    rfl
  finish _ _ _ := rfl
  abort _ _ := rfl
  cleanup _ _ := rfl
  cut _ _ _ := rfl

end Native

/-! ## The slot -/

variable {A : DraftAccumulator P} {N : NativeBackend P}

/-- The draft of the backend. -/
def Sys.draftId (s : Sys A N.backend) : Option DraftId := s.worker.backend.bind N.draftId

/-- The drafter, the key the worker has asked its backend for, and the slot. -/
structure Shared (A : DraftAccumulator P) (N : NativeBackend P) where
  sys : Sys A N.backend
  rateLimitKey : ChatId
  generation : Option DrafterGeneration

inductive SharedAction (A : DraftAccumulator P) (N : NativeBackend P) where
  | drafter (a : Action A N.backend)
  /-- `DrafterHandle::stop` has its answer -/
  | stopReturns (call : CallId)
  /-- the task of the worker panics -/
  | panic

def SharedAction.cutsOff : SharedAction A N → Bool
  | .drafter .kill | .panic => true
  | _ => false

def Action.isDrop {B : DrafterBackend P} : Action A B → Bool
  | .dropOwner => true
  | _ => false

def Phase.isStopped {B : DrafterBackend P} : Phase B → Bool
  | .stopped => true
  | _ => false

namespace Shared

variable (x : Shared A N)

/-- mirrors machine.rs:296-303 -/
def syncGeneration (s : Sys A N.backend) : Option DrafterGeneration := s.draftId.map (⟨x.rateLimitKey, ·⟩)

/-- The slot once the drafter has made the step `a` to `s'`.
mirrors machine.rs:332-335, 1192, 2161 -/
def slotAfter (a : Action A N.backend) (s' : Sys A N.backend) : Option DrafterGeneration :=
  if a.isDrop then none
  else if x.sys.phase.alive && s'.phase.isStopped then none
  else if x.sys.reopens a then x.syncGeneration s'
  else x.generation

def step : SharedAction A N → Option (Shared A N)
  | .drafter a => (x.sys.step a).map fun s' => { x with sys := s', generation := x.slotAfter a s' }
  -- mirrors machine.rs:1955-1957
  | .stopReturns call =>
    if x.sys.log.any fun e => match e with | .abortAnswered c _ => c = call | _ => false then
      some { x with generation := none }
    else none
  | .panic =>
    if x.sys.phase.alive then
      some { x with sys := { x.sys with
        phase := .killed
        queue := []
        worker := { x.sys.worker with flushWaiters := [] } } }
    else none

/-- mirrors machine.rs:1936-1943 -/
def matchesGenerationStopped (chatId : ChatId) (draftId : Int) : Bool :=
  x.generation.any fun g => g.chatId = chatId && g.draftId.value = draftId

/-- mirrors machine.rs:1975-1981 -/
def Spawned : Prop :=
  ∃ accumulator b usesRequestScheduler config now, config.validate (N.backend.capabilities b) = .ok () ∧
    x = ⟨Sys.spawn accumulator b usesRequestScheduler config now, N.rateLimitKey b,
      (N.draftId b).map (⟨N.rateLimitKey b, ·⟩)⟩

end Shared

/-! ## What is noted of a run -/

inductive SlotEvent where
  /-- a `Commit` is taken while the backend has this draft -/
  | taken (draft : Option DraftId)
  /-- a commit is concluded, and there is a next draft -/
  | rotated
  | dropped
  deriving DecidableEq

/-- The draft that is being committed, or was last. -/
def committedDraft (h : List SlotEvent) : Option DraftId :=
  (h.findSome? fun e => match e with | .taken draft => some draft | _ => none).join

/-- A draft was published after the `Drafter` was dropped. -/
def republished (h : List SlotEvent) : Bool := (h.takeWhile (· ≠ .dropped)).contains .rotated

namespace Shared

variable (x : Shared A N)

def takes (x' : Shared A N) : List SlotEvent :=
  match x'.sys.phase with
  | .terminal t _ => if x.sys.phase.receives && t.kind = .commit then [.taken x.sys.draftId] else []
  | _ => []

def see (a : SharedAction A N) (x' : Shared A N) : List SlotEvent :=
  match a with
  | .drafter a =>
    (if a.isDrop then [.dropped] else []) ++
      (if x.sys.reopens a && x'.sys.draftId.isSome then [.rotated] else []) ++ x.takes x'
  | _ => []

/-- No draft is published: the `Drafter` was dropped, and no commit was concluded since;
or the backend has none. -/
def Unpublished (h : List SlotEvent) : Prop :=
  x.sys.ownerDropped = true ∧ republished h = false ∨ x.sys.draftId = none ∧ committedDraft h = none

instance (h : List SlotEvent) : Decidable (x.Unpublished h) := inferInstanceAs (Decidable (_ ∨ _))

/-- The task is not cut off, by `worker.abort()` or by a panic, while a draft is
published. -/
def Allowed (x : List (List SlotEvent) × Shared A N) (a : SharedAction A N) : Prop :=
  a.cutsOff = true → x.2.Unpublished (Core.Machine.history x.1)

instance (x : List (List SlotEvent) × Shared A N) (a : SharedAction A N) : Decidable (Allowed x a) :=
  inferInstanceAs (Decidable (_ → _))

/-- A commit is under way. -/
def Committing : Prop := ∃ t stage, x.sys.phase = .terminal t stage ∧ t.kind = .commit

/-- What the slot may hold after `h`. -/
structure Live (h : List SlotEvent) : Prop where
  ended : x.sys.phase.alive = false → x.generation = none
  current : ∀ g, x.generation = some g → g.chatId = x.rateLimitKey ∧
    (x.sys.draftId = some g.draftId ∨ x.Committing ∧ committedDraft h = some g.draftId)

end Shared

/-- The drafters over `A` and `N` with their slots, and what is noted of them. -/
def sharedDrafter (A : DraftAccumulator P) (N : NativeBackend P) :
    Core.Machine (List (List SlotEvent) × Shared A N) (SharedAction A N) (List SlotEvent) :=
  (Core.Machine.observing ⟨Shared.Spawned, fun x a => (x.step a).map (·, ())⟩ Shared.see).remembering

/-! ## The draft of the backend -/

/-- The payload was delivered. -/
def TerminalOutcome.isSuccess {T E : Type} : TerminalOutcome T E → Bool
  | .success _ => true
  | _ => false

/-- The payload was delivered, and the command goes on. -/
def TerminalStage.delivered {B : DrafterBackend P} : TerminalStage B → Bool
  | .completing (.completed (.ok _)) | .cleanupAcquire .. | .cleaningUp .. => true
  | .concluding outcome | .abortAcquire _ outcome | .aborting _ outcome => outcome.isSuccess
  | _ => false

namespace Sys

variable {s s' : Sys A N.backend} {t t' : Terminal N.backend} {b : N.backend.State}

@[simp] theorem draftId_withBackend (s : Sys A N.backend) (b : N.backend.State) :
    (s.withBackend b).draftId = N.draftId b := rfl

theorem leaveLoop_draftId (hb : s.draftId = N.draftId b) (t : Terminal N.backend)
    (outcome : TerminalOutcome N.backend.Delivered N.backend.Error) :
    (s.leaveLoop t outcome b).draftId = s.draftId := by
  unfold leaveLoop
  dsimp only
  split
  · rfl
  · split
    · rfl
    · exact (N.setRequestContext none b).trans hb.symm

theorem runSuccessCleanup_draftId (hb : s.draftId = N.draftId b) (t : Terminal N.backend)
    (output : N.backend.Delivered) : (s.runSuccessCleanup t output b).draftId = s.draftId := by
  have hp : N.draftId (N.backend.prepareCleanupAfterDelivery b).2 = s.draftId := (N.prepareCleanup b).trans hb.symm
  unfold runSuccessCleanup
  dsimp only
  split
  · rw [leaveLoop_draftId rfl]
    exact hp
  · split
    · exact hp
    · exact (N.setRequestContext none _).trans hp

theorem afterCall_draftId (hb : s.draftId = N.draftId b) (t : Terminal N.backend) (attempt : TerminalCall N.backend) :
    (s.afterCall t attempt b).draftId = s.draftId := by
  unfold afterCall
  dsimp only
  split
  · exact runSuccessCleanup_draftId hb _ _
  · exact leaveLoop_draftId hb _ _
  · exact leaveLoop_draftId hb _ _
  · split
    · exact leaveLoop_draftId hb _ _
    · split
      · split
        · exact leaveLoop_draftId hb _ _
        · rfl
      · exact leaveLoop_draftId hb _ _
      all_goals exact leaveLoop_draftId hb _ _

theorem endCall_draftId (s : Sys A N.backend) (t : Terminal N.backend) (kept : Bool)
    (attempt : TerminalCall N.backend) (b : N.backend.State) :
    (s.endCall t kept attempt b).draftId = N.draftId b := by
  unfold endCall
  dsimp only
  split
  · rfl
  · exact afterCall_draftId rfl _ _

theorem conclude_draftId {outcome : TerminalOutcome N.backend.Delivered N.backend.Error} (hb : s.draftId = N.draftId b)
    (h : s.conclude t outcome b = some s') : s'.worker.backend = none ∨ s'.draftId = s.draftId := by
  have hf : N.draftId (N.backend.takeCleanupFailure b).2 = s.draftId := (N.takeCleanupFailure b).trans hb.symm
  unfold conclude at h
  dsimp only at h
  split at h
  · refine .inr ?_
    unfold concludeCommit at h
    split at h
    · cases h
      exact hf
    · cases h
      exact hf
    · split at h
      · cases h
        exact hf
      · cases h
        exact hf
    · cases h
      exact hf
    · cases h
      exact hf
    all_goals cases h
  · refine .inl ?_
    unfold concludeFinish at h
    dsimp only at h
    split at h <;> cases h <;> rfl

theorem Leaves.delivered {B : DrafterBackend P} {t : Terminal B} {output : B.Delivered} {stage : TerminalStage B}
    {evs : List (Event B)} (h : Leaves t (.success output) stage evs) : stage.delivered = true := by
  cases h <;> rfl

theorem Settles.delivered {B : DrafterBackend P} {now budget : Nat} {b : B.State} {t t' : Terminal B}
    {output : B.Delivered} {stage : TerminalStage B} {evs : List (Event B)}
    (h : Settles now budget b t (.completed (.ok output)) t' stage evs) : stage.delivered = true := by
  cases h with
  | cleansUp until' scheduled _ hs => rcases hs with rfl | rfl <;> rfl
  | succeeds _ hl => exact hl.delivered
  | timedOut he | overdue he | fails he | retries he => cases he

/-- What was delivered stays delivered. -/
theorem Moves.delivered {B : DrafterBackend P} {s : Sys A B} {t t' : Terminal B} {b b' : B.State}
    {stage stage' : TerminalStage B} {evs : List (Event B)} (h : Moves s t b stage t' stage' b' evs)
    (hd : stage.delivered = true) : stage'.delivered = true := by
  cases h with
  | overdue hs => rcases hs with rfl | rfl <;> cases hd
  | completes hs =>
    rename_i attempt
    match attempt, hd, hs with
    | .completed (.ok output), _, hs => exact hs.delivered
  | cleanedUp _ hl => exact hl.delivered
  | concludes hs => rcases hs with rfl | rfl <;> exact hd
  | aborts => exact hd
  | cleansUp => rfl
  | resumes | granted | refused | calls | keeps | ends => cases hd

/-- A commit that has just been answered is delivered, in another segment's draft. -/
theorem endCall_delivered (s : Sys A N.backend) (t : Terminal N.backend) (kept : Bool) (output : N.backend.Delivered)
    (b : N.backend.State) : ∃ stage, (s.endCall t kept (.completed (.ok output)) b).phase = .terminal t stage ∧
      stage.delivered = true := by
  unfold endCall
  dsimp only
  split
  · exact ⟨_, rfl, rfl⟩
  · have hl (v : Sys A N.backend) : ∃ stage evs, Settles 0 0 b t (.completed (.ok output)) t stage evs ∧
        v.Lands (v.runSuccessCleanup t output b) t stage evs := runSuccessCleanup_lands rfl t b
    obtain ⟨stage, evs, hs, b', he⟩ := hl _
    exact ⟨stage, congrArg Sys.phase he, hs.delivered⟩

theorem workTerminal_draftId {stage : TerminalStage N.backend} {input : Input A N.backend}
    (hb : s.draftId = N.draftId b) (h : s.workTerminal t stage input b = some s') :
    s'.worker.backend = none ∨ s'.draftId = s.draftId ∨
      ∃ stage', s'.phase = .terminal t stage' ∧ t.kind = .commit ∧ stage'.delivered = true := by
  unfold workTerminal at h
  split at h
  -- retrying
  · split at h
    · cases h
      exact .inr (.inl rfl)
    · split at h
      · cases h
        exact .inr (.inl (leaveLoop_draftId hb _ _))
      · split at h
        · cases h
          exact .inr (.inl rfl)
        · cases h
  -- acquiring
  · split at h
    · cases h
      exact .inr (.inl rfl)
    · split at h
      · cases h
        exact .inr (.inl (leaveLoop_draftId hb _ _))
      · cases h
  · split at h
    · cases h
    · cases h
      refine .inr (.inl ?_)
      show N.draftId (if s.worker.requestScheduling then _ else _) = _
      split
      · exact (N.setRequestContext _ b).trans hb.symm
      · exact hb.symm
  · split at h
    · cases h
    · cases h
      exact .inr (.inl (leaveLoop_draftId hb _ _))
  -- calling
  · split at h
    · cases h
      exact .inr (.inl rfl)
    · cases h
      exact .inr (.inl rfl)
  -- inCall
  · split at h
    · cases h
    · rename_i r _
      cases h
      cases hk : t.kind with
      | finish => exact .inr (.inl ((endCall_draftId _ _ _ _ _).trans ((N.finish b t.payload r).trans hb.symm)))
      | commit =>
        cases hr : (N.backend.commitSegment b t.payload r).2 with
        | error error =>
          exact .inr (.inl ((endCall_draftId _ _ _ _ _).trans ((N.commitSegment b t.payload r error hr).trans hb.symm)))
        | ok output =>
          have hd : (N.backend.deliver .commit b t.payload r).2 = .ok (.inl output) := by
            simp [DrafterBackend.deliver, hr, Except.map]
          rw [hd]
          obtain ⟨stage, hp, hs⟩ := endCall_delivered s t _ (.inl output) (N.backend.deliver .commit b t.payload r).1
          exact .inr (.inr ⟨stage, hp, rfl, hs⟩)
  · split at h
    · cases h
      exact .inr (.inl rfl)
    · split at h
      · cases h
        exact .inr (.inl ((endCall_draftId _ _ _ _ _).trans ((N.cut _ b _).trans hb.symm)))
      · split at h
        · cases h
          exact .inr (.inl ((endCall_draftId _ _ _ _ _).trans ((N.cut _ b _).trans hb.symm)))
        · cases h
  -- completing
  · cases h
    exact .inr (.inl (afterCall_draftId hb _ _))
  -- the cleanup after a success
  · cases h
    exact .inr (.inl ((N.setRequestContext _ b).trans hb.symm))
  · cases h
    exact .inr (.inl (leaveLoop_draftId hb _ _))
  · split at h
    · cases h
      exact .inr (.inl (leaveLoop_draftId hb _ _))
    · cases h
  · cases h
    refine .inr (.inl ((leaveLoop_draftId rfl _ _).trans ?_))
    show N.draftId (if _ then _ else _) = _
    split
    · exact (N.setRequestContext _ _).trans ((N.cleanup b _).trans hb.symm)
    · exact (N.cleanup b _).trans hb.symm
  · dsimp only at h
    split at h
    · cases h
      refine .inr (.inl ((leaveLoop_draftId rfl _ _).trans ?_))
      rw [draftId_withBackend]
      split
      · exact (N.setRequestContext _ _).trans ((N.cut _ b _).trans hb.symm)
      · exact (N.cut _ b _).trans hb.symm
    · cases h
  -- the cleanup after a failure
  · cases h
    exact .inr (.inl ((N.setRequestContext _ b).trans hb.symm))
  · cases h
    exact .inr (.inl rfl)
  · split at h
    · cases h
      exact .inr (.inl rfl)
    · cases h
  · cases h
    exact .inr (.inl ((N.abort b _).trans hb.symm))
  · split at h
    · cases h
      exact .inr (.inl ((N.cut _ b _).trans hb.symm))
    · cases h
  -- the end
  · rcases conclude_draftId hb h with h | h
    · exact .inl h
    · exact .inr (.inl h)
  · cases h

/-- A commit is under way that is not delivered yet. -/
def Undelivered (s : Sys A N.backend) : Prop :=
  ∀ t stage, s.phase = .terminal t stage → t.kind = .commit → stage.delivered = false

/-- What a step that the task survives does to the draft of the backend. -/
inductive Drifts (s : Sys A N.backend) (a : Action A N.backend) (s' : Sys A N.backend) : Prop
  /-- no commit is under way any more -/
  | other : s'.draftId = s.draftId → s.reopens a = false → s.Undelivered →
      (∀ t stage, s'.phase = .terminal t stage → t.kind = .finish) → Drifts s a s'
  | taken {t stage} : s.phase.receives = true → s'.phase = .terminal t stage → t.kind = .commit →
      s'.draftId = s.draftId → Drifts s a s'
  | inside {t t' stage stage'} : s.phase = .terminal t stage → s'.phase = .terminal t' stage' → t.kind = .commit →
      t'.kind = .commit → s.phase.receives = false → s.reopens a = false →
      (stage'.delivered = false → stage.delivered = false ∧ s'.draftId = s.draftId) → Drifts s a s'
  | reopened : s.reopens a = true → s'.draftId = s.draftId → s'.phase = .loopTop → Drifts s a s'

theorem Drifts.of_same {a : Action A N.backend} (hp : s'.phase = s.phase) (hd : s'.draftId = s.draftId)
    (hr : s.reopens a = false) : Drifts s a s' := by
  by_cases hc : ∃ t stage, s.phase = .terminal t stage ∧ t.kind = .commit
  · obtain ⟨t, stage, hs, hk⟩ := hc
    exact .inside hs (hp.trans hs) hk hk (by rw [hs]; rfl) hr fun h => ⟨h, hd⟩
  · refine .other hd hr (fun t stage hs hk => absurd ⟨t, stage, hs, hk⟩ hc) fun t stage hs => ?_
    cases hk : t.kind with
    | finish => rfl
    | commit => exact absurd ⟨t, stage, hp ▸ hs, hk⟩ hc

/-- A step outside of `Commit` and `Finish`. -/
theorem Drifts.outside {a : Action A N.backend} (hd : s'.draftId = s.draftId)
    (hp : ∀ t stage, s.phase ≠ .terminal t stage) (hp' : ∀ t stage, s'.phase ≠ .terminal t stage) : Drifts s a s' := by
  refine .other hd ?_ (fun t stage h => absurd h (hp t stage)) fun t stage h => absurd h (hp' t stage)
  rw [← Bool.not_eq_true, reopens_iff]
  rintro ⟨-, t, output, h, -⟩
  exact hp t _ h

theorem endPreview_draftId {b b' : N.backend.State} (hb : s.worker.backend = some b) (hd : N.draftId b' = N.draftId b)
    (snapshot : PreviewSnapshot P) (kept : Bool) (how : PreviewEnd) :
    (s.endPreview b b' snapshot kept how).draftId = s.draftId := by
  have hs : s.draftId = N.draftId b := by simp [draftId, hb]
  rcases s.endPreview_cases b b' snapshot kept how with h | h <;> rw [h]
  · exact hd.trans hs.symm
  · rw [settlePreview_eq]
    unfold draftId
    dsimp only
    rw [(Worker.handlePreviewEnd_setup _ _ _ _ _).backend]
    exact hd.trans hs.symm

theorem work_command (hr : s.phase.receives = true) : s.work (A := A) .command = s.receive := by
  unfold work
  split <;> first | rfl | simp_all [Phase.receives]

/-- An abort takes the backend as it is, or without its request context. -/
theorem abort_draftId {reply : CallId} {rest : List (Command N.backend.Final)} (hr : s.phase.receives = true)
    (hq : s.queue = .abort reply :: rest) (hb : s.worker.backend = some b) (h : s.work .command = some s') :
    s'.draftId = s.draftId := by
  have hs : s.draftId = N.draftId b := by simp [draftId, hb]
  rw [work_command hr, receive, hq] at h
  simp only [Option.some.injEq] at h
  subst h
  simp only [handleCommand, failWaiters, Worker.failFlushes, answerFlushes, hb]
  split
  · exact hs.symm
  · exact (N.setRequestContext none b).trans hs.symm

theorem admitted_draftId {call until' : Nat} {input : Input A N.backend} (hp : s.phase = .abortAcquire call until')
    (h : s.work input = some s') (ha : s'.phase.alive = true) : s'.draftId = s.draftId := by
  cases input with
  | permit kept =>
    simp only [work, hp, Option.map_eq_some_iff] at h
    obtain ⟨b, hb, rfl⟩ := h
    exact (N.setRequestContext _ b).trans (by simp [draftId, hb])
  | refused error =>
    simp only [work, hp, Option.some.injEq] at h
    subst h
    cases ha
  | go =>
    simp only [work, hp] at h
    split at h
    · cases h
      cases ha
    · cases h
  | _ => simp [work, hp] at h

theorem settlePreview_draftId (s : Sys A N.backend) (revision : DraftRevision) (how : PreviewEnd) :
    (s.settlePreview revision how).draftId = s.draftId := by
  rw [settlePreview_eq]
  unfold draftId
  dsimp only
  rw [(Worker.handlePreviewEnd_setup _ _ _ _ _).backend]

theorem endPreview_outside (s : Sys A N.backend) (b b' : N.backend.State) (snapshot : PreviewSnapshot P) (kept : Bool)
    (how : PreviewEnd) (t : Terminal N.backend) (stage : TerminalStage N.backend) :
    (s.endPreview b b' snapshot kept how).phase ≠ .terminal t stage := by
  rcases s.endPreview_cases b b' snapshot kept how with h | h <;> rw [h]
  · simp
  · simp [settlePreview_eq]

theorem endPreview_alive (s : Sys A N.backend) (b b' : N.backend.State) (snapshot : PreviewSnapshot P) (kept : Bool)
    (how : PreviewEnd) : (s.endPreview b b' snapshot kept how).phase.alive = true := by
  rcases s.endPreview_cases b b' snapshot kept how with h | h <;> rw [h]
  · rfl
  · rw [settlePreview_eq]
    rfl

/-- A step inside `Commit` or `Finish`. -/
theorem inTerminal_drifts {t t' : Terminal N.backend} {stage stage' : TerminalStage N.backend}
    {evs : List (Event N.backend)} {input : Input A N.backend} {b' : N.backend.State} (hp : s.phase = .terminal t stage)
    (hb : s.worker.backend = some b) (hm : Moves s t b stage t' stage' b' evs)
    (h : s.work input = some { s with
      worker := s.worker.withBackend b'
      phase := .terminal t' stage'
      log := evs ++ s.log }) :
    Drifts s (.work input) { s with
      worker := s.worker.withBackend b'
      phase := .terminal t' stage'
      log := evs ++ s.log } := by
  obtain ⟨-, hk, -⟩ := hm.same
  have hs : s.draftId = N.draftId b := by simp [draftId, hb]
  have hr : s.reopens (.work input : Action A N.backend) = false := by
    rw [← Bool.not_eq_true, reopens_iff]
    rintro ⟨-, t₁, output, h₁, -⟩
    cases hp.symm.trans h₁
    cases hm with
    | overdue hs => rcases hs with hs | hs <;> cases hs
    | cleanedUp hs => rcases hs with hs | ⟨_, hs⟩ <;> cases hs
    | concludes hs => rcases hs with hs | hs <;> cases hs
  simp only [work, hp, hb, Option.bind_some] at h
  cases hkind : t.kind with
  | finish =>
    refine .other ?_ hr (fun t₁ stage₁ h₁ hk₁ => ?_) fun t₁ stage₁ h₁ => ?_
    · rcases workTerminal_draftId hs h with h | h | ⟨_, -, h, -⟩
      · cases h
      · exact h
      · exact absurd (hkind.symm.trans h) TerminalKind.noConfusion
    · cases hp.symm.trans h₁
      exact absurd (hkind.symm.trans hk₁) TerminalKind.noConfusion
    · cases h₁
      exact hk.trans hkind
  | commit =>
    refine .inside hp rfl hkind (hk.trans hkind) (by rw [hp]; rfl) hr fun hd => ⟨?_, ?_⟩
    · rw [← Bool.not_eq_true]
      intro hd'
      exact Bool.false_ne_true (hd.symm.trans (hm.delivered hd'))
    · rcases workTerminal_draftId hs h with h | h | ⟨stage₁, h, -, hd'⟩
      · cases h
      · exact h
      · cases h
        exact absurd (hd.symm.trans hd') Bool.false_ne_true

/-- A commit that is concluded leaves the draft as it is. -/
theorem concluding_draftId {t : Terminal N.backend} {outcome : TerminalOutcome N.backend.Delivered N.backend.Error}
    (hp : s.phase = .terminal t (.concluding outcome)) (hb : s.worker.backend.isSome = true)
    (h : s.work .go = some s') (hs' : s'.worker.backend.isSome = true) : s'.draftId = s.draftId := by
  obtain ⟨b, hb⟩ := Option.isSome_iff_exists.mp hb
  have hs : s.draftId = N.draftId b := by simp [draftId, hb]
  simp only [work, hp, hb, Option.bind_some, workTerminal] at h
  rcases conclude_draftId hs h with h | h
  · rw [h] at hs'
    cases hs'
  · exact h

theorem step_drifts {a : Action A N.backend} (h : s.step a = some s')
    (hb : s.phase.alive = true → s.worker.backend.isSome = true) (ha : s'.phase.alive = true) : Drifts s a s' := by
  have receiving (hr : s.phase.receives = true) t stage : s.phase ≠ .terminal t stage := by
    rintro hp
    rw [hp] at hr
    cases hr
  cases step_cases h with
  | advance | push | flush | commit | send | forget | dropOwner | dropSenders => exact .of_same rfl rfl rfl
  | unsendable => exact .of_same rfl rfl rfl
  | close _ hc => rcases hc with ⟨rfl, -⟩ | ⟨_, rfl, -⟩ <;> exact .of_same rfl rfl rfl
  | kill | channelClosed | orphaned | cancelled | gaveUp | finished | aborted => cases ha
  | idle hp hr =>
    refine .outside ?_ (by simp [hp]) (by simp)
    rcases Worker.runDuePreview_idle hr with ⟨rfl, -⟩ | ⟨rfl, -⟩ <;> rfl
  | skipped hp hr =>
    refine .outside ?_ (by simp [hp]) (by simp)
    obtain ⟨_, _, _, -, -, -, -, -, -, -, hw⟩ := Worker.runDuePreview_skipped hr
    cases hw
    rfl
  | acquire hp | woken hp | timer hp | granted hp | refused hp | checked hp | notRunning hp | noPreview hp | noop hp
  | discardedNotRunning hp | discardedNoPreview hp | discardedNoop hp =>
    exact .outside rfl (by simp [hp]) (by simp)
  | started kept' context hp hb' _ _ =>
    rename_i p _ _ _ b _ _
    have hs : s.draftId = N.draftId b := by simp [draftId, hb']
    refine .outside (Eq.trans ?_ hs.symm) (by simp [hp]) (by simp)
    show N.draftId (if p.requestScheduling = true then _ else b) = _
    split
    · exact N.setRequestContext context b
    · rfl
  | updated hp hb' =>
    exact .outside (endPreview_draftId hb' (N.update _ _ _) _ _ _) (by simp [hp]) (endPreview_outside _ _ _ _ _ _)
  | timedOut hp hb' =>
    exact .outside (endPreview_draftId hb' (N.cut _ _ _) _ _ _) (by simp [hp]) (endPreview_outside _ _ _ _ _ _)
  | settled hp => exact .outside (settlePreview_draftId _ _ _) (by simp [hp]) (by simp [settlePreview_eq])
  | flushAnswered hr | flushRegistered hr => exact .outside rfl (receiving hr) (by simp)
  | taken hr hq hk hb' =>
    rename_i kind _ _
    cases kind with
    | commit => exact .taken hr rfl rfl rfl
    | finish =>
      refine .other rfl rfl (fun t stage hp => absurd hp (receiving hr t stage)) fun t stage hp => ?_
      cases hp
      rfl
  | abortTaken until' phase backend hr hq hb' hp =>
    refine .outside (abort_draftId hr hq hb' h) (receiving hr) ?_
    rcases hp with rfl | rfl <;> simp
  | inTerminal t' stage' b evs hp hb' hm => exact inTerminal_drifts hp hb' hm h
  | reopened b hp hk =>
    exact .reopened (reopens_iff.2 ⟨rfl, _, _, hp, hk⟩) (concluding_draftId hp (hb (by rw [hp]; rfl)) h rfl) rfl
  | keptGoing b hp hk =>
    refine .other (concluding_draftId hp (hb (by rw [hp]; rfl)) h rfl) ?_ ?_ (by simp)
    · rw [← Bool.not_eq_true, reopens_iff]
      rintro ⟨-, t, output, h₁, -⟩
      cases hp.symm.trans h₁
    · rintro t stage h₁ -
      cases hp.symm.trans h₁
      rfl
  | abortAdmitted b hp => exact .outside (admitted_draftId hp h rfl) (by simp [hp]) (by simp)

/-- The task does not come back. -/
theorem step_alive {a : Action A N.backend} (h : Step s a s') (ha : s'.phase.alive = true) : s.phase.alive = true := by
  cases h with
  | taken hr | abortTaken _ _ _ hr | flushAnswered hr | flushRegistered hr => exact Phase.alive_of_receives hr
  | kill | channelClosed | orphaned | cancelled | gaveUp | finished | aborted => cases ha
  | _ => first | exact ha | simp [Phase.alive, *]

/-- Only the task ends itself, or is aborted. -/
theorem step_ended {a : Action A N.backend} (h : Step s a s') (ha : s'.phase.alive = false) :
    s.phase.alive = false ∨ s'.phase.isStopped = true ∨ a = .kill := by
  cases h with
  | kill => exact .inr (.inr rfl)
  | channelClosed | orphaned | cancelled | gaveUp | finished | aborted => exact .inr (.inl rfl)
  | updated hp | timedOut hp => exact absurd ((endPreview_alive _ _ _ _ _ _).symm.trans ha) Bool.false_ne_true.symm
  | settled => simp [settlePreview_eq, Phase.alive] at ha
  | abortTaken _ _ _ _ _ _ hp => rcases hp with rfl | rfl <;> cases ha
  | _ => first | exact .inl ha | cases ha

theorem step_ownerDropped {a : Action A N.backend} (h : Step s a s') (hd : a.isDrop = false) :
    s'.ownerDropped = s.ownerDropped := by
  cases h with
  | updated hp | timedOut hp =>
    rcases endPreview_cases _ _ _ _ _ _ with h | h <;> rw [h]
    simp [settlePreview_eq]
  | settled => simp [settlePreview_eq]
  | dropOwner => cases hd
  | _ => rfl

/-- The draft `d` is published after `h`: it is the one of the backend, or the one that a
commit has just delivered. -/
structure Shows (s : Sys A N.backend) (h : List SlotEvent) (d : DraftId) : Prop where
  current : s.Undelivered → s.draftId = some d
  committing : ∀ t stage, s.phase = .terminal t stage → t.kind = .commit → committedDraft h = some d

end Sys

/-! ## Every run -/

theorem republished_append {n h : List SlotEvent} (hn : .dropped ∉ n) :
    republished (n ++ h) = (n.contains .rotated || republished h) := by
  have hp : ∀ e ∈ n, decide (e ≠ SlotEvent.dropped) = true := fun e he =>
    decide_eq_true fun hd => hn (hd ▸ he)
  have ht : (n ++ h).takeWhile (· ≠ .dropped) = n ++ h.takeWhile (· ≠ .dropped) := List.takeWhile_append_of_pos hp
  rw [republished, republished, ht, Bool.eq_iff_iff]
  simp only [List.contains_iff_mem, Bool.or_eq_true, List.mem_append]

theorem committedDraft_append {n h : List SlotEvent} (hn : ∀ draft, .taken draft ∉ n) :
    committedDraft (n ++ h) = committedDraft h := by
  have hf : (n.findSome? fun e => match e with | .taken draft => some draft | _ => none) = none := by
    rw [List.findSome?_eq_none_iff]
    intro e he
    cases e with
    | taken draft => exact absurd he (hn draft)
    | rotated | dropped => rfl
  simp [committedDraft, List.findSome?_append, hf]

namespace Shared

variable {x x' : Shared A N} {h : List SlotEvent}

structure Inv (x : Shared A N) (h : List SlotEvent) : Prop where
  backend : x.sys.phase.alive = true → x.sys.worker.backend.isSome = true
  ended : x.sys.phase.alive = false → x.generation = none
  dropped : x.sys.ownerDropped = true → x.generation = none ∨ republished h = true
  shown : ∀ g, x.generation = some g → g.chatId = x.rateLimitKey ∧ x.sys.Shows h g.draftId

theorem Inv.current (hi : Inv x h) {g : DrafterGeneration} (hg : x.generation = some g) :
    x.sys.draftId = some g.draftId ∨ x.Committing ∧ committedDraft h = some g.draftId := by
  obtain ⟨-, hs⟩ := hi.shown g hg
  by_cases hu : x.sys.Undelivered
  · exact .inl (hs.current hu)
  · simp only [Sys.Undelivered, not_forall] at hu
    obtain ⟨t, stage, hp, hk, -⟩ := hu
    exact .inr ⟨⟨t, stage, hp, hk⟩, hs.committing t stage hp hk⟩

theorem Inv.live (hi : Inv x h) : x.Live h := ⟨hi.ended, fun g hg => ⟨(hi.shown g hg).1, hi.current hg⟩⟩

theorem Inv.unpublished (hi : Inv x h) (hu : x.Unpublished h) : x.generation = none := by
  rcases hu with ⟨hd, hr⟩ | ⟨hd, hc⟩
  · exact (hi.dropped hd).resolve_right (by rw [hr]; exact Bool.false_ne_true)
  · rw [Option.eq_none_iff_forall_ne_some]
    intro g hg
    rcases hi.current hg with h | ⟨-, h⟩
    · cases hd.symm.trans h
    · cases hc.symm.trans h

/-- A task that has ended has no draft left to show. -/
theorem Inv.of_ended (ha : x.sys.phase.alive = false) (hg : x.generation = none) : Inv x h where
  backend hb := by rw [ha] at hb; cases hb
  ended _ := hg
  dropped _ := .inl hg
  shown g h := by rw [hg] at h; cases h

theorem spawned_inv (hx : x.Spawned) : Inv x [] := by
  obtain ⟨accumulator, b, uses, config, now, -, rfl⟩ := hx
  refine ⟨fun _ => rfl, fun ha => (by cases ha), fun hd => (by cases hd), fun g hg => ?_⟩
  obtain ⟨d, hd, rfl⟩ := Option.map_eq_some_iff.1 hg
  exact ⟨rfl, fun _ => hd, fun t stage hp => (by cases hp)⟩

/-! What a step notes. -/

section Notes

variable {a : Action A N.backend}

theorem takes_none (hr : x.sys.phase.receives = false ∨ ∀ t stage, x'.sys.phase = .terminal t stage → t.kind = .finish) :
    x.takes x' = [] := by
  unfold takes
  split
  · rename_i t stage hp
    rcases hr with hr | hr
    · simp [hr]
    · simp [hr t stage hp]
  · rfl

theorem takes_some {t : Terminal N.backend} {stage : TerminalStage N.backend} (hr : x.sys.phase.receives = true)
    (hp : x'.sys.phase = .terminal t stage) (hk : t.kind = .commit) : x.takes x' = [.taken x.sys.draftId] := by
  simp [takes, hp, hr, hk]

theorem see_committed (ht : x.takes x' = []) :
    committedDraft ((x.see (.drafter a) x').reverse ++ h) = committedDraft h := by
  refine committedDraft_append fun draft hm => ?_
  simp only [see, ht, List.append_nil, List.mem_reverse, List.mem_append] at hm
  rcases hm with hm | hm
  · split at hm <;> simp at hm
  · split at hm <;> simp at hm

theorem see_taken (ht : x.takes x' = [.taken x.sys.draftId]) :
    committedDraft ((x.see (.drafter a) x').reverse ++ h) = x.sys.draftId := by
  simp [see, ht, committedDraft]

theorem see_republished (ha : a.isDrop = false) (hr : republished h = true ∨ x.sys.reopens a = true ∧ x'.sys.draftId.isSome = true) :
    republished ((x.see (.drafter a) x').reverse ++ h) = true := by
  have hd : .dropped ∉ (x.see (.drafter a) x').reverse := by
    intro hm
    simp only [see, ha, Bool.false_eq_true, if_false, List.nil_append, List.mem_reverse, List.mem_append] at hm
    rcases hm with hm | hm
    · split at hm <;> simp at hm
    · unfold takes at hm
      split at hm
      · split at hm <;> simp at hm
      · simp at hm
  rw [republished_append hd]
  rcases hr with hr | ⟨hr, hs⟩
  · simp [hr]
  · simp [see, hr, hs]

end Notes

/-- An end of the task clears the slot, or finds it empty. -/
theorem Inv.ends {a : Action A N.backend} {s' : Sys A N.backend} (hi : Inv x h) (ho : a = .kill → x.Unpublished h)
    (hs : Sys.Step x.sys a s') (ha : s'.phase.alive = false) : x.slotAfter a s' = none := by
  have hr : x.sys.reopens a = false := by
    rw [← Bool.not_eq_true, Sys.reopens_iff]
    rintro ⟨rfl, t, output, hp, hk⟩
    cases hs with
    | close _ hc => rcases hc with ⟨hc, -⟩ | ⟨_, hc, -⟩ <;> cases hc
    | timer hp' | checked hp' | notRunning hp' | abortAdmitted _ hp' => cases hp.symm.trans hp'
    | inTerminal | reopened | keptGoing => cases ha
    | cancelled hp' _ _ hn =>
      cases hp.symm.trans hp'
      exact hn _ rfl
    | gaveUp b hp' _ hr =>
      cases hp.symm.trans hp'
      cases hr
    | finished hp' hk' =>
      cases hp.symm.trans hp'
      exact absurd (hk.symm.trans hk') TerminalKind.noConfusion
    | aborted _ hp' => rcases hp' with hp' | hp' <;> cases hp.symm.trans hp'
  unfold slotAfter
  split
  · rfl
  · split
    · rfl
    · rename_i hstop
      simp only [hr, Bool.false_eq_true, if_false]
      rcases Sys.step_ended hs ha with hd | hd | rfl
      · exact hi.ended hd
      · cases hx : x.sys.phase.alive with
        | false => exact hi.ended hx
        | true => exact absurd (by simp [hx, hd]) hstop
      · exact hi.unpublished (ho rfl)

theorem slotAfter_alive {a : Action A N.backend} {s' : Sys A N.backend} (ha : s'.phase.alive = true)
    (hd : a.isDrop = false) :
    x.slotAfter a s' = if x.sys.reopens a then x.syncGeneration s' else x.generation := by
  have hs : s'.phase.isStopped = false := by
    cases hp : s'.phase <;> first | rfl | (rw [hp] at ha; cases ha)
  simp [slotAfter, hd, hs]

theorem Inv.drafter_step {a : Action A N.backend} (hi : Inv x h) (ho : a = .kill → x.Unpublished h)
    (hs : x.step (.drafter a) = some x') : Inv x' ((x.see (.drafter a) x').reverse ++ h) := by
  obtain ⟨s', hs', rfl⟩ := Option.map_eq_some_iff.1 hs
  have hstep := Sys.step_cases hs'
  cases ha : s'.phase.alive with
  | false => exact .of_ended ha (hi.ends ho hstep ha)
  | true =>
    cases hdrop : a.isDrop with
    | true =>
      have hnone : x.slotAfter a s' = none := by simp [slotAfter, hdrop]
      refine ⟨hstep.backend hi.backend, fun _ => hnone, fun _ => .inl hnone, fun g hg => ?_⟩
      cases hnone.symm.trans hg
    | false =>
      have hslot := slotAfter_alive (x := x) ha hdrop
      refine ⟨hstep.backend hi.backend, fun hd => (by cases ha.symm.trans hd), fun hd => ?_, fun g hg => ?_⟩
      · have hd : x.sys.ownerDropped = true := (Sys.step_ownerDropped hstep hdrop).symm.trans hd
        by_cases hr : x.sys.reopens a = true
        · cases hc : s'.draftId with
          | none => exact .inl (by simp [hslot, hr, syncGeneration, hc])
          | some d => exact .inr (see_republished hdrop (.inr ⟨hr, by simp [hc]⟩))
        · rcases hi.dropped hd with hn | hn
          · exact .inl (by simp [hslot, hr, hn])
          · exact .inr (see_republished hdrop (.inl hn))
      · have hg : (if x.sys.reopens a then x.syncGeneration s' else x.generation) = some g := hslot.symm.trans hg
        cases Sys.step_drifts hs' hi.backend ha with
        | reopened hr hd hp =>
          rw [if_pos hr] at hg
          obtain ⟨d, hd, rfl⟩ := Option.map_eq_some_iff.1 hg
          exact ⟨rfl, fun _ => hd, fun t stage hp' => (by cases hp.symm.trans hp')⟩
        | other hd hr hu hf =>
          rw [hr, if_neg Bool.false_ne_true] at hg
          obtain ⟨hkey, hs⟩ := hi.shown g hg
          exact ⟨hkey, fun _ => hd.trans (hs.current hu), fun t stage hp hk =>
            absurd ((hf t stage hp).symm.trans hk) TerminalKind.noConfusion⟩
        | @taken t stage hr hp hk hd =>
          have hnot t stage : x.sys.phase ≠ .terminal t stage := fun hp => by simp [hp, Phase.receives] at hr
          have hreopens : x.sys.reopens a = false := by
            rw [← Bool.not_eq_true, Sys.reopens_iff]
            rintro ⟨-, t, output, hp, -⟩
            exact hnot t _ hp
          rw [hreopens, if_neg Bool.false_ne_true] at hg
          obtain ⟨hkey, hs⟩ := hi.shown g hg
          have hdraft := hs.current fun t stage hp => absurd hp (hnot t stage)
          exact ⟨hkey, fun _ => hd.trans hdraft, fun _ _ _ _ => (see_taken (takes_some hr hp hk)).trans hdraft⟩
        | @inside t t' stage stage' hp hp' hk hk' hr hreopens hd =>
          rw [hreopens, if_neg Bool.false_ne_true] at hg
          obtain ⟨hkey, hs⟩ := hi.shown g hg
          refine ⟨hkey, fun hu => ?_, fun _ _ _ _ => (see_committed (takes_none (.inl hr))).trans (hs.committing t stage hp hk)⟩
          obtain ⟨hstage, hdraft⟩ := hd (hu t' stage' hp' hk')
          refine hdraft.trans (hs.current fun t₁ stage₁ hp₁ _ => ?_)
          cases hp.symm.trans hp₁
          exact hstage

theorem Inv.step {a : SharedAction A N} (hi : Inv x h) (ho : a.cutsOff = true → x.Unpublished h)
    (hs : x.step a = some x') : Inv x' ((x.see a x').reverse ++ h) := by
  cases a with
  | drafter a => exact hi.drafter_step (fun ha => ho (by rw [ha]; rfl)) hs
  | stopReturns call =>
    simp only [Shared.step] at hs
    split at hs
    · cases hs
      exact ⟨hi.backend, fun _ => rfl, fun _ => .inl rfl, fun g hg => (by cases hg)⟩
    · cases hs
  | panic =>
    simp only [Shared.step] at hs
    split at hs
    · cases hs
      exact .of_ended rfl (hi.unpublished (ho rfl))
    · cases hs

theorem inv_of_run {τ : List (List SlotEvent)} {x : List (List SlotEvent) × Shared A N}
    (hr : (sharedDrafter A N).Run Allowed τ x) : Inv x.2 (Core.Machine.history x.1) := by
  refine hr.induct (I := fun _ x => Inv x.2 (Core.Machine.history x.1)) ?_ ?_
  · rintro ⟨_, x⟩ ⟨rfl, hx⟩
    exact spawned_inv hx
  · intro _ x a x' e _ hi ho hs
    obtain ⟨hs, hτ⟩ := Core.Machine.remembering_step hs
    obtain ⟨⟨y, u⟩, hy, he⟩ := Option.map_eq_some_iff.1 hs
    obtain ⟨z, hz, hu⟩ := Option.map_eq_some_iff.1 hy
    cases hu
    cases he
    rw [hτ, Core.Machine.history_cons]
    exact hi.step ho hz

/-- The task that has ended stays so. -/
theorem step_alive {a : SharedAction A N} (hs : x.step a = some x') (ha : x'.sys.phase.alive = true) :
    x.sys.phase.alive = true := by
  cases a with
  | drafter a =>
    obtain ⟨s', hs', rfl⟩ := Option.map_eq_some_iff.1 hs
    exact Sys.step_alive (Sys.step_cases hs') ha
  | stopReturns call =>
    simp only [Shared.step] at hs
    split at hs
    · cases hs
      exact ha
    · cases hs
  | panic =>
    simp only [Shared.step] at hs
    split at hs
    · cases hs
      cases ha
    · cases hs

theorem Inv.of_matches {chatId : ChatId} {draftId : Int} (hi : Inv x h)
    (hm : x.matchesGenerationStopped chatId draftId = true) : x.sys.phase.alive = true ∧ chatId = x.rateLimitKey ∧
      ∃ d : DraftId, d.value = draftId ∧
        (x.sys.draftId = some d ∨ x.Committing ∧ committedDraft h = some d) := by
  unfold matchesGenerationStopped at hm
  cases hg : x.generation with
  | none => simp [hg] at hm
  | some g =>
    simp only [hg, Option.any_some, Bool.and_eq_true, decide_eq_true_eq] at hm
    obtain ⟨rfl, rfl⟩ := hm
    refine ⟨?_, (hi.shown g hg).1, g.draftId, rfl, hi.current hg⟩
    cases ha : x.sys.phase.alive with
    | true => rfl
    | false => cases (hi.ended ha).symm.trans hg

end Shared

/-- As long as the task is not cut off while a draft is published, the slot is empty when
the task has ended, which stays so, and a Stop update is matched with the draft the
backend has, or with the one that is being committed. -/
theorem generation_live {τ : List (List SlotEvent)} {x : List (List SlotEvent) × Shared A N}
    (hr : (sharedDrafter A N).Run Shared.Allowed τ x) :
    x.2.Live (Core.Machine.history x.1) ∧
    (∀ chatId draftId, x.2.matchesGenerationStopped chatId draftId = true →
      x.2.sys.phase.alive = true ∧ chatId = x.2.rateLimitKey ∧ ∃ d : DraftId, d.value = draftId ∧
        (x.2.sys.draftId = some d ∨ x.2.Committing ∧ committedDraft (Core.Machine.history x.1) = some d)) ∧
    ∀ a x', x.2.step a = some x' → x.2.sys.phase.alive = false → x'.sys.phase.alive = false := by
  have hi := Shared.inv_of_run hr
  refine ⟨hi.live, fun _ _ => hi.of_matches, fun a x' hs hd => ?_⟩
  cases ha : x'.sys.phase.alive with
  | false => rfl
  | true => exact absurd (hd.symm.trans (Shared.step_alive hs ha)) Bool.false_ne_true

/-! ### Two runs of a text drafter -/

def textDraft : NativeBackend String := Native.native String String false

def firstDraft : DraftId := ⟨7, by decide⟩

def nextDraft : DraftId := ⟨8, by decide⟩

def nativeDrafter : Shared (replacePreview String) textDraft :=
  ⟨Sys.spawn (none : Option String) (⟨1, firstDraft, none⟩ : Native) false DraftConfig.default 0, 1, some ⟨1, firstDraft⟩⟩

theorem nativeDrafter_start {ok : List (List SlotEvent) × Shared (replacePreview String) textDraft → _ → Prop} :
    (sharedDrafter (replacePreview String) textDraft).Run ok [] ([], nativeDrafter) :=
  .start ⟨rfl, _, _, _, _, _, DraftConfig.validate_default _, rfl⟩

/-- A commit is delivered; it goes on in `rest`. -/
def deliveredRun (rest : List (Action (replacePreview String) textDraft.backend)) :
    List (SharedAction (replacePreview String) textDraft) :=
  (([.commit "a", .send 0, .work (.view () true), .work .command, .work (.permit true), .work .go,
    .work (.reply (.ok ⟨1⟩, nextDraft)), .work .settled] :
      List (Action (replacePreview String) textDraft.backend)) ++ rest).map .drafter

/-- The draft is rotated, and the drafter dropped. -/
theorem generation_live_dropped :
    ∃ τ x, (sharedDrafter (replacePreview String) textDraft).Run Shared.Allowed τ x ∧
      (x : List (List SlotEvent) × Shared _ _).2.sys.phase.alive = false ∧
      x.2.sys.draftId = some nextDraft ∧ x.2.Live (Core.Machine.history x.1) := by
  have h : ((sharedDrafter (replacePreview String) textDraft).exec Shared.Allowed [] ([], nativeDrafter)
      (deliveredRun [.work .go, .work (.view () true), .dropOwner, .kill])).map (fun r => (r.2.2.sys.phase.alive, r.2.2.sys.draftId)) = some (false, some nextDraft) := by
    decide
  obtain ⟨⟨τ, x⟩, he, hs⟩ := Option.map_eq_some_iff.1 h
  obtain ⟨ha, hd⟩ := Prod.mk.inj hs
  have hr := Core.Machine.run_of_exec nativeDrafter_start he
  exact ⟨τ, x, hr, ha, hd, (generation_live hr).1⟩

/-- The commit is concluded between the drop and the end of the task: its draft stays
published, and a Stop update is still matched with it. -/
theorem generation_stale :
    ∃ τ x, (sharedDrafter (replacePreview String) textDraft).Run Core.Machine.anything τ x ∧
      (x : List (List SlotEvent) × Shared _ _).2.sys.phase.alive = false ∧
      x.2.generation = some ⟨1, nextDraft⟩ ∧ x.2.matchesGenerationStopped 1 8 = true := by
  have h : ((sharedDrafter (replacePreview String) textDraft).exec Core.Machine.anything [] ([], nativeDrafter)
      (deliveredRun [.forget 0, .dropOwner, .work .go, .work (.view () true), .kill])).map
        (fun r => (r.2.2.sys.phase.alive, r.2.2.generation, r.2.2.matchesGenerationStopped 1 8)) =
          some (false, some ⟨1, nextDraft⟩, true) := by decide
  obtain ⟨⟨τ, x⟩, he, hs⟩ := Option.map_eq_some_iff.1 h
  obtain ⟨ha, hs⟩ := Prod.mk.inj hs
  obtain ⟨hg, hm⟩ := Prod.mk.inj hs
  exact ⟨τ, x, Core.Machine.run_of_exec nativeDrafter_start he, ha, hg, hm⟩

end Teloxide.Drafter
