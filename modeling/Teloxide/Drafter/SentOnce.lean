import Teloxide.Drafter.Closing

/-!
# A preview message is sent once

A message-based backend sends one message per segment and edits it afterwards
(`crates/teloxide/src/drafter/telegram.rs`). When the request that sends it has
an ambiguous end, another one could leave two messages, so the worker disables
previews (`machine.rs:697-802`).

* `preview_sent_once`: after an ambiguous end no message is sent in the segment, in
  every run in which a sending request that runs out of time finds
  `last_delivered = 0`, or the limit of failures reached.
* `preview_sent_twice`: an accumulator that had nothing to show at first has
  advanced `last_delivered`, and the message is sent again.
-/
namespace Teloxide.Drafter

variable {P : Type} {A : DraftAccumulator P} {B : DrafterBackend P}

/-! ## Message-based backends -/

/-- A backend that sends a message if `sends`, and tells a failed sending from
other failures. -/
structure MessageBackend (P : Type) where
  backend : DrafterBackend P
  sends : backend.State → P → Bool
  expires : ∀ b, (backend.capabilities b).expiresWithoutRefresh = false
  mode : ∀ b, (backend.capabilities b).mode = .editInPlace ∨ (backend.capabilities b).mode = .statusEditThenSendFinal
  classify : ∀ b preview reply error, sends b preview = true → (backend.update b preview reply).2 = .error error →
    (backend.classifyError (backend.update b preview reply).1 .preview error).delivery = .unknown →
    (backend.classifyError (backend.update b preview reply).1 .preview error).cls = .transient false ∨
      (backend.classifyError (backend.update b preview reply).1 .preview error).cls = .ambiguous

/-- Of the failures of a first sending, those of unknown outcome are not retried. -/
theorem classifyPreviewError_first (error : DrafterRequestError)
    (h : (classifyPreviewError none .preview error).delivery = .unknown) :
    (classifyPreviewError none .preview error).cls = .transient false ∨
      (classifyPreviewError none .preview error).cls = .ambiguous := by
  unfold classifyPreviewError at h ⊢
  cases error with
  | inner error => cases error <;> first | exact .inl rfl | cases h
  | acquire => cases h
  | timeout => exact .inr rfl

namespace StatusThen

/-- There is no message to edit. -/
def sends (b : StatusThen) : Bool := b.previewMessageId.isNone

/-- A message that was sent is the one to edit from then on. -/
theorem update_messageId (b : StatusThen) (replies : Replies) (h : b.sends = true) :
    (b.update replies).1.previewMessageId = (replies 0).toOption.map (·.id) := by
  have hn : b.previewMessageId = none := by simpa [sends] using h
  unfold update
  cases hr : replies 0 <;> simp [takeContext, hn, Except.toOption]

def messages (F : Type) : MessageBackend String where
  backend := backend F
  sends b _ := b.sends
  expires _ := rfl
  mode _ := .inr rfl
  classify b preview replies error hs he := by
    have hm : (b.update replies).1.previewMessageId = none := by
      rw [update_messageId b replies hs]
      have hn : b.previewMessageId = none := by simpa [sends] using hs
      have he : (b.update replies).2 = .error error := he
      unfold update at he
      cases hr : replies 0 with
      | error e => rfl
      | ok m => simp [takeContext, hn, hr] at he
    intro h
    have h : (classifyPreviewError (b.update replies).1.previewMessageId .preview error).delivery = .unknown := h
    show (classifyPreviewError (b.update replies).1.previewMessageId .preview error).cls = _ ∨
      (classifyPreviewError (b.update replies).1.previewMessageId .preview error).cls = _
    rw [hm] at h ⊢
    exact classifyPreviewError_first error h

end StatusThen

namespace EditInPlace

variable {K : Type} [DecidableEq K]

/-- There is no message to edit, and something new to show. -/
def sends (b : EditInPlace K) (key : K) : Bool := b.messageId.isNone && b.last ≠ some key

theorem update_messageId (b : EditInPlace K) (key : K) (replies : Replies) (h : b.sends key = true) :
    (b.update key replies).1.messageId = (replies 0).toOption.map (·.id) := by
  obtain ⟨hn, hl⟩ : b.messageId = none ∧ b.last ≠ some key := by simpa [sends] using h
  unfold update
  cases hr : replies 0 <;> simp [takeContext, hn, hl, Except.toOption]

def messages {P : Type} (key : P → K) (rich : Bool)
    (commitSegment : EditInPlace K → Replies → EditInPlace K × Except DrafterRequestError Message) :
    MessageBackend P where
  backend := backend key rich commitSegment
  sends b preview := b.sends (key preview)
  expires _ := rfl
  mode _ := .inl rfl
  classify b preview replies error hs he := by
    have hm : (b.update (key preview) replies).1.messageId = none := by
      rw [update_messageId b _ replies hs]
      obtain ⟨hn, hl⟩ : b.messageId = none ∧ b.last ≠ some (key preview) := by simpa [sends] using hs
      have he : (b.update (key preview) replies).2 = .error error := he
      unfold update at he
      cases hr : replies 0 with
      | error e => rfl
      | ok m => simp [takeContext, hn, hl, hr] at he
    intro h
    have h : (classifyPreviewError (b.update (key preview) replies).1.messageId .preview error).delivery = .unknown := h
    show (classifyPreviewError (b.update (key preview) replies).1.messageId .preview error).cls = _ ∨
      (classifyPreviewError (b.update (key preview) replies).1.messageId .preview error).cls = _
    rw [hm] at h ⊢
    exact classifyPreviewError_first error h

end EditInPlace

def statusThenTextMessages : MessageBackend String := StatusThen.messages String

def statusThenRichMessages (R : Type) : MessageBackend String := StatusThen.messages R

def editInPlaceMessages (fingerprint : String → Nat) : MessageBackend String :=
  EditInPlace.messages fingerprint false EditInPlace.commitSegmentText

def richEditInPlaceMessages (R : Type) [DecidableEq R] : MessageBackend R :=
  EditInPlace.messages (id : R → R) true EditInPlace.commitSegmentRich

/-! ## Runs -/

namespace MessageBackend

variable (M : MessageBackend P)

/-- A preview request that sends a message has been started. -/
def sending : Event M.backend → Bool
  | .previewStarted _ b snapshot => M.sends b snapshot.preview
  | _ => false

/-- A preview request that sends a message has ended, and it is not known whether
the message was sent. -/
def ambiguous : Event M.backend → Bool
  | .previewEnded _ b snapshot (.failed disposition) => M.sends b snapshot.preview && disposition.delivery = .unknown
  | _ => false

/-- After an ambiguous end no message is sent in the segment. -/
def SentOnce (s : Sys A M.backend) : Prop :=
  (segmentLog s.log).Pairwise fun later earlier => M.ambiguous earlier = true → M.sending later = false

/-- The preview request runs out of time, at the worker or in the backend. -/
def timesOut (b : M.backend.State) (preview : P) : Input A M.backend → Bool
  | .cut _ => true
  | .reply r =>
    match M.backend.update b preview r with
    | (b', .error error) => M.backend.isRequestTimeout b' error
    | (_, .ok _) => false
  | _ => false

/-- A sending request that runs out of time is not taken for an edit: nothing of
the segment counts as delivered, or the limit of failures is reached. -/
def heedsTimeout (s : Sys A M.backend) (a : Action A M.backend) : Bool :=
  match s.phase, a, s.worker.backend with
  | .updating _ snapshot _ _, .work input, some b =>
    !M.sends b snapshot.preview || !M.timesOut b snapshot.preview input || s.worker.lastDelivered = 0 ||
      s.worker.config.maxConsecutivePreviewFailures.any (· ≤ min (s.worker.consecutivePreviewFailures + 1) u32Max)
  | _, _, _ => true

end MessageBackend

/-- The worker disables previews when it deals with the failure. -/
def Worker.Disables (w : Worker B) (disposition : DrafterErrorDisposition) : Prop :=
  ∀ now, (w.handlePreviewError disposition.cls now).1.previewDisabled = true

theorem Worker.disables_of_cls (w : Worker B) {d : DrafterErrorDisposition}
    (h : d.cls = .transient false ∨ d.cls = .ambiguous) : w.Disables d := by
  intro now
  rcases h with h | h <;> rw [h] <;> rfl

/-- A timeout of a sending request, if the worker does not take it for an edit. -/
theorem Worker.disables_of_timeout (w : Worker B)
    (hm : w.capabilities.mode = .editInPlace ∨ w.capabilities.mode = .statusEditThenSendFinal)
    (h : w.lastDelivered = 0 ∨
      w.config.maxConsecutivePreviewFailures.any (· ≤ min (w.consecutivePreviewFailures + 1) u32Max) = true) :
    w.Disables w.timeoutDisposition := by
  have hc : w.timeoutDisposition.cls = .transient (decide (0 < w.lastDelivered)) := by
    unfold timeoutDisposition
    rcases hm with hm | hm <;> simp [hm]
  intro now
  rw [hc]
  rcases h with h | h
  · rw [h]
    rfl
  · cases hd : decide (0 < w.lastDelivered) with
    | false => rfl
    | true =>
      obtain ⟨limit, hl, hle⟩ := Option.any_eq_true _ _ |>.mp h
      unfold handlePreviewError
      simp only [hl, Option.all_some]
      rw [if_neg (by simpa using hle)]
      rfl

theorem Worker.handlePreviewEnd_disabled (w : Worker B) (source : SourceState A) (r : DraftRevision) (how : PreviewEnd)
    (now : Nat) (h : w.previewDisabled = true) : (w.handlePreviewEnd source r how now).1.previewDisabled = true := by
  cases how with
  | acked => exact h
  | failed d =>
    show (w.handlePreviewError d.cls now).1.previewDisabled = true
    unfold handlePreviewError
    dsimp only
    split
    · exact h
    · split
      · exact h
      · rfl
    all_goals rfl

namespace MessageBackend

variable {M : MessageBackend P}

/-- The worker is about to disable previews. -/
def Disabling (s : Sys A M.backend) : Prop :=
  match s.phase with
  | .settling _ (.failed disposition) => s.worker.Disables disposition
  | _ => False

/-- The phases of a preview attempt before its end. -/
def Attempting (s : Sys A M.backend) (p : PreviewAttempt) : Prop :=
  match s.phase with
  | .acquiring p' | .granted p' | .checked p' | .updating p' .. => p' = p
  | _ => False

structure SentInv (s : Sys A M.backend) : Prop where
  expires : s.worker.capabilities.expiresWithoutRefresh = false
  mode : s.worker.capabilities.mode = .editInPlace ∨ s.worker.capabilities.mode = .statusEditThenSendFinal
  attempt : ∀ p, Attempting s p → s.worker.previewDisabled = false ∧ p.operation = .preview
  disabled : s.phase.alive = true → ∀ e ∈ segmentLog s.log, M.ambiguous e = true →
    s.worker.previewDisabled = true ∨ Disabling s
  once : M.SentOnce s

/-- An event that this is not about. -/
def Plain (M : MessageBackend P) (e : Event M.backend) : Prop :=
  e.isReopened = false ∧ M.sending e = false ∧ M.ambiguous e = false

theorem Plain.of_terminalCall {e : Event M.backend} {call : CallId} (h : e.terminalCall = some call) : M.Plain e := by
  cases e <;> first | exact ⟨rfl, rfl, rfl⟩ | cases h

theorem Plain.events (answers : FlushAnswers) : ∀ e ∈ answers.events M.backend, M.Plain e := by
  intro e he
  obtain ⟨x, -, rfl⟩ := List.mem_map.mp (List.mem_reverse.mp he)
  exact ⟨rfl, rfl, rfl⟩

theorem Plain.events_append (answers : FlushAnswers) {evs : List (Event M.backend)} (h : ∀ e ∈ evs, M.Plain e) :
    ∀ e ∈ answers.events M.backend ++ evs, M.Plain e := by
  intro e he
  rcases List.mem_append.mp he with he | he
  · exact Plain.events answers e he
  · exact h e he

/-- A step that shows plain events only, and leaves no attempt and no failure
behind that the invariant does not know. -/
theorem SentInv.plain {s s' : Sys A M.backend} (hi : SentInv s) (evs : List (Event M.backend))
    (hl : s'.log = evs ++ s.log) (hp : ∀ e ∈ evs, M.Plain e)
    (hc : s'.worker.capabilities = s.worker.capabilities)
    (hd : s'.phase.alive = true → s.phase.alive = true ∧
      (s.worker.previewDisabled = true ∨ Disabling s → s'.worker.previewDisabled = true ∨ Disabling s'))
    (ha : ∀ p, Attempting s' p → s'.worker.previewDisabled = false ∧ p.operation = .preview) : SentInv s' := by
  have hs : segmentLog s'.log = evs ++ segmentLog s.log := by
    rw [hl]
    exact segmentLog_append (fun e he => (hp e he).1) _
  refine ⟨by rw [hc]; exact hi.expires, by rw [hc]; exact hi.mode, ha, ?_, ?_⟩
  · intro halive e he hamb
    obtain ⟨halive, hd⟩ := hd halive
    rw [hs, List.mem_append] at he
    rcases he with he | he
    · rw [(hp e he).2.2] at hamb
      cases hamb
    · exact hd (hi.disabled halive e he hamb)
  · unfold SentOnce
    rw [hs, List.pairwise_append]
    exact ⟨List.pairwise_of_forall_mem_list fun later hlater _ _ _ => (hp later hlater).2.1, hi.once,
      fun later hlater _ _ _ => (hp later hlater).2.1⟩

/-- The worker and its phase stay as they are. -/
theorem SentInv.unchanged {s s' : Sys A M.backend} (hi : SentInv s) (evs : List (Event M.backend))
    (hl : s'.log = evs ++ s.log) (hp : ∀ e ∈ evs, M.Plain e) (hw : s'.worker = s.worker) (hph : s'.phase = s.phase) :
    SentInv s' := by
  have hdis : Disabling s' ↔ Disabling s := by
    unfold Disabling
    rw [hph, hw]
  refine hi.plain evs hl hp (by rw [hw]) (fun h => ?_) fun p h => ?_
  · rw [hph] at h
    rw [hw, hdis]
    exact ⟨h, id⟩
  · rw [hw]
    refine hi.attempt p ?_
    unfold Attempting at h ⊢
    rwa [hph] at h

/-- The worker goes on, outside a preview attempt; it was not disabling previews. -/
theorem SentInv.moved {s s' : Sys A M.backend} (hi : SentInv s) (evs : List (Event M.backend))
    (hl : s'.log = evs ++ s.log) (hp : ∀ e ∈ evs, M.Plain e)
    (hc : s'.worker.capabilities = s.worker.capabilities)
    (hw : s.worker.previewDisabled = true → s'.worker.previewDisabled = true) (halive : s.phase.alive = true)
    (hdis : ¬ Disabling s) (hatt : ∀ p, ¬ Attempting s' p) : SentInv s' :=
  hi.plain evs hl hp hc (fun _ => ⟨halive, fun h => .inl (hw (h.resolve_right hdis))⟩) fun p h => absurd h (hatt p)

/-- The worker goes on inside a preview attempt. -/
theorem SentInv.attempting {s s' : Sys A M.backend} (hi : SentInv s) {p : PreviewAttempt} (hl : s'.log = s.log)
    (hw : s'.worker = s.worker) (hp : Attempting s p) (hp' : ∀ q, Attempting s' q → q = p) : SentInv s' := by
  have hdis : ¬ Disabling s := by
    unfold Attempting at hp
    unfold Disabling
    split at hp <;> simp_all
  have halive : s.phase.alive = true := by
    unfold Attempting at hp
    split at hp <;> simp_all [Phase.alive]
  refine hi.plain [] hl (by simp) (by rw [hw]) (fun _ => ⟨halive, fun h => ?_⟩) fun q hq => ?_
  · rw [hw]
    exact .inl (h.resolve_right hdis)
  · rw [hp' q hq, hw]
    exact hi.attempt p hp

/-- Dealing with the end of a preview request disables previews if that is due. -/
theorem SentInv.settle {v : Sys A M.backend} (r : DraftRevision) (how : PreviewEnd)
    (hexp : v.worker.capabilities.expiresWithoutRefresh = false)
    (hmode : v.worker.capabilities.mode = .editInPlace ∨ v.worker.capabilities.mode = .statusEditThenSendFinal)
    (honce : M.SentOnce v)
    (hdis : ∀ e ∈ segmentLog v.log, M.ambiguous e = true →
      v.worker.previewDisabled = true ∨ ∃ d, how = .failed d ∧ v.worker.Disables d) :
    SentInv (v.settlePreview r how) := by
  have hset := (v.worker.handlePreviewEnd_setup v.source r how v.now).capabilities
  have hplain : ∀ e ∈ (v.worker.handlePreviewEnd v.source r how v.now).2.2.events M.backend ++
      (if how = .acked then [Event.covered v.worker.segment r .acked] else []), M.Plain e := by
    refine Plain.events_append _ fun e he => ?_
    split at he
    · rw [List.mem_singleton.mp he]
      exact ⟨rfl, rfl, rfl⟩
    · cases he
  have hlog : segmentLog (v.settlePreview r how).log =
      ((v.worker.handlePreviewEnd v.source r how v.now).2.2.events M.backend ++
        (if how = .acked then [Event.covered v.worker.segment r .acked] else [])) ++ segmentLog v.log := by
    rw [Sys.settlePreview_eq]
    dsimp only
    rw [← List.append_assoc]
    exact segmentLog_append (fun e he => (hplain e he).1) _
  have hdisabled : ∀ e ∈ segmentLog v.log, M.ambiguous e = true →
      (v.settlePreview r how).worker.previewDisabled = true := by
    intro e he hamb
    rw [Sys.settlePreview_eq]
    rcases hdis e he hamb with h | ⟨d, rfl, h⟩
    · exact v.worker.handlePreviewEnd_disabled v.source r how v.now h
    · exact h v.now
  refine ⟨?_, ?_, ?_, fun _ e he hamb => ?_, ?_⟩
  · rw [Sys.settlePreview_eq]
    exact hset ▸ hexp
  · rw [Sys.settlePreview_eq]
    exact hset ▸ hmode
  · rw [Sys.settlePreview_eq]
    exact fun p h => absurd h id
  · rw [hlog, List.mem_append] at he
    rcases he with he | he
    · rw [(hplain e he).2.2] at hamb
      cases hamb
    · exact .inl (hdisabled e he hamb)
  · unfold SentOnce
    rw [hlog, List.pairwise_append]
    exact ⟨List.pairwise_of_forall_mem_list fun later hlater _ _ _ => (hplain later hlater).2.1, honce,
      fun later hlater _ _ _ => (hplain later hlater).2.1⟩

/-- A preview request ends; if it was an ambiguous sending, it will disable previews. -/
theorem SentInv.ended {s : Sys A M.backend} (hi : SentInv s) {p : PreviewAttempt} {snapshot : PreviewSnapshot P}
    {kept : Bool} {since : Nat} (hp : s.phase = .updating p snapshot kept since) (b b' : M.backend.State)
    (how : PreviewEnd)
    (hd : ∀ segment, M.ambiguous (.previewEnded segment b snapshot how) = true → ∃ d, how = .failed d ∧
      (s.worker.withBackend b').Disables d) :
    SentInv (s.endPreview b b' snapshot kept how) := by
  have hatt : Attempting s p := by
    unfold Attempting
    rw [hp]
  have halive : s.phase.alive = true := by
    rw [hp]
    rfl
  have hnot : ∀ e ∈ segmentLog s.log, M.ambiguous e = false := by
    intro e he
    by_contra hamb
    rcases hi.disabled halive e he (by simpa using hamb) with h | h
    · rw [(hi.attempt p hatt).1] at h
      cases h
    · unfold Disabling at h
      rw [hp] at h
      exact h
  have hlog : segmentLog (Event.previewEnded s.worker.segment b snapshot how :: s.log)
      = .previewEnded s.worker.segment b snapshot how :: segmentLog s.log := rfl
  have honce : (segmentLog (Event.previewEnded s.worker.segment b snapshot how :: s.log)).Pairwise
      fun later earlier => M.ambiguous earlier = true → M.sending later = false := by
    rw [hlog]
    exact List.pairwise_cons.mpr ⟨fun _ _ _ => rfl, hi.once⟩
  have hdis : ∀ e ∈ segmentLog (Event.previewEnded s.worker.segment b snapshot how :: s.log), M.ambiguous e = true →
      ∃ d, how = .failed d ∧ (s.worker.withBackend b').Disables d := by
    intro e he hamb
    rw [hlog] at he
    rcases List.mem_cons.mp he with rfl | he
    · exact hd _ hamb
    · rw [hnot e he] at hamb
      cases hamb
  rcases s.endPreview_cases b b' snapshot kept how with h | h <;> rw [h]
  · refine ⟨hi.expires, hi.mode, fun q hq => absurd hq id, fun _ e he hamb => ?_, honce⟩
    obtain ⟨d, rfl, hdisd⟩ := hdis e he hamb
    exact .inr hdisd
  · exact SentInv.settle _ _ hi.expires hi.mode honce fun e he hamb => .inr (hdis e he hamb)

/-- What a reply of a sending request is classified as disables previews. -/
theorem disables_of_reply {s : Sys A M.backend} (hi : SentInv s) {p : PreviewAttempt} {snapshot : PreviewSnapshot P}
    {kept : Bool} {since : Nat} {r : M.backend.Reply} {b : M.backend.State}
    (hp : s.phase = .updating p snapshot kept since) (hb : s.worker.backend = some b)
    (hok : M.heedsTimeout s (.work (.reply r)) = true) (segment : Nat)
    (hamb : M.ambiguous (.previewEnded segment b snapshot
      (s.worker.previewEnd (M.backend.update b snapshot.preview r).1 p.operation
        (M.backend.update b snapshot.preview r).2)) = true) :
    ∃ d, s.worker.previewEnd (M.backend.update b snapshot.preview r).1 p.operation
        (M.backend.update b snapshot.preview r).2 = .failed d ∧
      (s.worker.withBackend (M.backend.update b snapshot.preview r).1).Disables d := by
  have hop : p.operation = .preview := (hi.attempt p (by unfold Attempting; rw [hp])).2
  cases hu : M.backend.update b snapshot.preview r with
  | mk b' result =>
    rw [hu] at hamb
    dsimp only at hamb ⊢
    cases result with
    | ok _ => simp [Worker.previewEnd, ambiguous] at hamb
    | error error =>
      unfold Worker.previewEnd at hamb ⊢
      dsimp only at hamb ⊢
      by_cases ht : M.backend.isRequestTimeout b' error = true
      · rw [if_pos ht] at hamb ⊢
        simp only [ambiguous, Bool.and_eq_true] at hamb
        have htime : M.timesOut b snapshot.preview (.reply r : Input A M.backend) = true := by
          simp only [timesOut, hu]
          exact ht
        simp only [heedsTimeout, hp, hb, hamb.1, htime, Bool.not_true, Bool.false_or, Bool.or_eq_true,
          decide_eq_true_eq] at hok
        exact ⟨_, rfl, Worker.disables_of_timeout _ hi.mode hok⟩
      · rw [if_neg ht] at hamb ⊢
        simp only [ambiguous, Bool.and_eq_true, decide_eq_true_eq] at hamb
        rw [hop] at hamb ⊢
        have hcls := M.classify b snapshot.preview r error hamb.1 (by rw [hu])
        rw [hu] at hcls
        exact ⟨_, rfl, Worker.disables_of_cls _ (hcls hamb.2)⟩

theorem SentInv.step {s s' : Sys A M.backend} {a : Action A M.backend} (h : Sys.Step s a s')
    (hb : s.phase.alive = true → s.worker.backend.isSome = true) (hi : SentInv s)
    (hok : M.heedsTimeout s a = true) : SentInv s' := by
  -- a phase in which the worker is not disabling previews
  have quiet : ∀ {phase : Phase M.backend}, s.phase = phase →
      (∀ r d, phase ≠ .settling r (.failed d)) → ¬ Disabling s := by
    intro phase hp hne hd
    unfold Disabling at hd
    split at hd
    · rename_i hs
      exact hne _ _ (hp.symm.trans hs)
    · exact hd
  have receives : s.phase.receives = true → ¬ Disabling s := by
    intro hr hd
    unfold Disabling at hd
    split at hd
    · rename_i hs
      rw [hs] at hr
      cases hr
    · exact hd
  cases h with
  | advance => exact hi.unchanged [] rfl (by simp) rfl rfl
  | push u => exact hi.unchanged [_] rfl (by simp [Plain, Event.isReopened, sending, ambiguous]) rfl rfl
  | flush => exact hi.unchanged [_] rfl (by simp [Plain, Event.isReopened, sending, ambiguous]) rfl rfl
  | commit => exact hi.unchanged [] rfl (by simp) rfl rfl
  | close => exact hi.unchanged [_] rfl (by simp [Plain, Event.isReopened, sending, ambiguous]) rfl rfl
  | unsendable => exact hi.unchanged [] rfl (by simp) rfl rfl
  | send => exact hi.unchanged [] rfl (by simp) rfl rfl
  | forget => exact hi.unchanged [] rfl (by simp) rfl rfl
  | dropOwner => exact hi.unchanged [] rfl (by simp) rfl rfl
  | dropSenders => exact hi.unchanged [] rfl (by simp) rfl rfl
  | kill => exact hi.plain [] rfl (by simp) rfl (fun h => absurd h Bool.false_ne_true) fun p h => absurd h id
  | idle hp hr =>
    rename_i w answers
    have hw : w.capabilities = s.worker.capabilities ∧ w.previewDisabled = s.worker.previewDisabled := by
      rcases Worker.runDuePreview_idle hr with ⟨rfl, -⟩ | ⟨rfl, -⟩ <;> exact ⟨rfl, rfl⟩
    exact hi.moved _ rfl (Plain.events _) hw.1 (fun h => hw.2.trans h) (by rw [hp]; rfl) (quiet hp (by simp))
      fun p h => absurd h id
  | skipped hp hr =>
    obtain ⟨_, _, _, -, -, -, -, -, -, -, hs⟩ := Worker.runDuePreview_skipped hr
    cases hs
    exact hi.moved _ (List.append_assoc _ [_] _).symm
      (Plain.events_append _ (by simp [Plain, Event.isReopened, sending, ambiguous])) rfl id (by rw [hp]; rfl)
      (quiet hp (by simp)) fun p h => absurd h id
  | acquire hp hr =>
    obtain ⟨-, hd, hdue, -⟩ := Worker.runDuePreview_acquire hr
    refine hi.plain [] rfl (by simp) rfl (fun _ => ⟨by rw [hp]; rfl, fun h => .inl (h.resolve_right (quiet hp (by simp)))⟩)
      fun q hq => ⟨hd, ?_⟩
    obtain rfl : _ = q := hq
    unfold Worker.due at hdue
    split at hdue
    · exact (Option.some.inj hdue).symm
    · split at hdue
      · rename_i hrefresh
        simp [Worker.refreshDue, hi.expires] at hrefresh
      · cases hdue
  | woken hp => exact hi.moved [] rfl (by simp) rfl id (by rw [hp]; rfl) (quiet hp (by simp)) fun p h => absurd h id
  | timer hp => exact hi.moved [] rfl (by simp) rfl id (by rw [hp]; rfl) (quiet hp (by simp)) fun p h => absurd h id
  | channelClosed =>
    exact hi.plain [_] rfl (by simp [Plain, Event.isReopened, sending, ambiguous]) rfl
      (fun h => absurd h Bool.false_ne_true) fun p h => absurd h id
  | granted hp => exact hi.attempting rfl rfl (by unfold Attempting; rw [hp]) fun q hq => Eq.symm hq
  | refused hp =>
    exact hi.moved _ rfl (Plain.events _) rfl id (by rw [hp]; rfl) (quiet hp (by simp)) fun p h => absurd h id
  | checked hp => exact hi.attempting rfl rfl (by unfold Attempting; rw [hp]) fun q hq => Eq.symm hq
  | notRunning hp => exact hi.moved [] rfl (by simp) rfl id (by rw [hp]; rfl) (quiet hp (by simp)) fun p h => absurd h id
  | noPreview hp => exact hi.moved [] rfl (by simp) rfl id (by rw [hp]; rfl) (quiet hp (by simp)) fun p h => absurd h id
  | noop hp => exact hi.moved [] rfl (by simp) rfl id (by rw [hp]; rfl) (quiet hp (by simp)) fun p h => absurd h id
  | started kept' context hp hb hs hn =>
    rename_i p ambient kept snapshot b
    -- nothing ambiguous has happened in the segment, or previews were disabled
    have hatt := hi.attempt p (by unfold Attempting; rw [hp])
    have hnone : ∀ e ∈ segmentLog s.log, M.ambiguous e = false := by
      intro e he
      by_contra hamb
      rcases hi.disabled (by rw [hp]; rfl) e he (by simpa using hamb) with h | h
      · rw [hatt.1] at h
        cases h
      · exact quiet hp (by simp) h
    have hlog : ∀ e : Event M.backend, e.isReopened = false → segmentLog (e :: s.log) = e :: segmentLog s.log := by
      intro e he
      simp [segmentLog, he]
    refine ⟨hi.expires, hi.mode, fun q hq => ?_, fun _ e he hamb => ?_, ?_⟩
    · obtain rfl : p = q := hq
      exact hatt
    · rw [hlog _ rfl] at he
      rcases List.mem_cons.mp he with rfl | he
      · cases hamb
      · rw [hnone e he] at hamb
        cases hamb
    · unfold SentOnce
      rw [hlog _ rfl]
      refine List.pairwise_cons.mpr ⟨fun earlier hearlier hamb => ?_, hi.once⟩
      rw [hnone earlier hearlier] at hamb
      cases hamb
  | discardedNotRunning hp =>
    exact hi.moved [] rfl (by simp) rfl id (by rw [hp]; rfl) (quiet hp (by simp)) fun p h => absurd h id
  | discardedNoPreview hp =>
    exact hi.moved _ (List.append_assoc _ [_] _).symm
      (Plain.events_append _ (by simp [Plain, Event.isReopened, sending, ambiguous])) rfl id (by rw [hp]; rfl)
      (quiet hp (by simp)) fun p h => absurd h id
  | discardedNoop hp =>
    exact hi.moved _ (List.append_assoc _ [_] _).symm
      (Plain.events_append _ (by simp [Plain, Event.isReopened, sending, ambiguous])) rfl id (by rw [hp]; rfl)
      (quiet hp (by simp)) fun p h => absurd h id
  | updated hp hb => exact hi.ended hp _ _ _ fun segment hamb => disables_of_reply hi hp hb hok segment hamb
  | timedOut hp hb =>
    refine hi.ended hp _ _ _ fun segment hamb => ⟨_, rfl, ?_⟩
    simp only [ambiguous, Bool.and_eq_true] at hamb
    simp only [heedsTimeout, hp, hb, hamb.1, timesOut, Bool.not_true, Bool.false_or, Bool.or_eq_true,
      decide_eq_true_eq] at hok
    exact Worker.disables_of_timeout _ hi.mode hok
  | settled hp =>
    refine SentInv.settle _ _ hi.expires hi.mode hi.once fun e he hamb => ?_
    rcases hi.disabled (by rw [hp]; rfl) e he hamb with h | h
    · exact .inl h
    · unfold Disabling at h
      rw [hp] at h
      split at h
      · rename_i hs
        cases hs
        exact .inr ⟨_, rfl, h⟩
      · exact absurd h id
  | flushAnswered ha =>
    exact hi.moved [_] rfl (by simp [Plain, Event.isReopened, sending, ambiguous]) rfl id (Phase.alive_of_receives ha)
      (receives ha) fun p h => absurd h id
  | flushRegistered ha =>
    exact hi.moved [] rfl (by simp) rfl id (Phase.alive_of_receives ha) (receives ha) fun p h => absurd h id
  | taken ha =>
    exact hi.moved (_ :: _) rfl (List.forall_mem_cons.mpr ⟨⟨rfl, rfl, rfl⟩, Plain.events _⟩) rfl id
      (Phase.alive_of_receives ha) (receives ha) fun p h => absurd h id
  | abortTaken until' phase backend ha hq hs hphase =>
    refine hi.moved _ rfl (Plain.events _) rfl id (Phase.alive_of_receives ha) (receives ha) fun p h => ?_
    rcases hphase with rfl | rfl <;> exact absurd h id
  | inTerminal t' stage' b evs hp hs hm =>
    refine hi.moved evs rfl (fun e hmem => Plain.of_terminalCall (hm.same.2.2 e hmem)) rfl id (by rw [hp]; rfl)
      (quiet hp (by simp)) fun p h => absurd h id
  | keptGoing b hp =>
    exact hi.moved [_] rfl (by simp [Plain, Event.isReopened, sending, ambiguous]) rfl id (by rw [hp]; rfl)
      (quiet hp (by simp)) fun p h => absurd h id
  | abortAdmitted b hp =>
    exact hi.moved [] rfl (by simp) rfl id (by rw [hp]; rfl) (quiet hp (by simp)) fun p h => absurd h id
  | reopened b hp =>
    refine ⟨hi.expires, hi.mode, fun p h => absurd h id, fun _ e he hamb => ?_, ?_⟩
    · obtain rfl : e = _ := List.mem_singleton.mp he
      cases hamb
    · exact List.pairwise_singleton ..
  | orphaned source e ha hq hn =>
    have := hb (Phase.alive_of_receives ha)
    rw [hn] at this
    cases this
  | cancelled hp =>
    exact hi.plain [_, _] rfl (by simp [Plain, Event.isReopened, sending, ambiguous]) rfl
      (fun h => absurd h Bool.false_ne_true) fun p h => absurd h id
  | gaveUp =>
    exact hi.plain [_, _] rfl (by simp [Plain, Event.isReopened, sending, ambiguous]) rfl
      (fun h => absurd h Bool.false_ne_true) fun p h => absurd h id
  | finished =>
    exact hi.plain [_, _] rfl (by simp [Plain, Event.isReopened, sending, ambiguous]) rfl
      (fun h => absurd h Bool.false_ne_true) fun p h => absurd h id
  | aborted =>
    exact hi.plain [_, _] rfl (by simp [Plain, Event.isReopened, sending, ambiguous]) rfl
      (fun h => absurd h Bool.false_ne_true) fun p h => absurd h id

theorem sentInv_of_run {τ : List Unit} {s : Sys A M.backend}
    (hr : (drafter A M.backend).Run (fun s a => M.heedsTimeout s a = true) τ s) : SentInv s := by
  refine drafter_induct (I := SentInv) ?_ (fun s a s' h hok hb hi => SentInv.step h hb hi hok) hr
  rintro s ⟨accumulator, b, uses, config, now, -, rfl⟩
  exact ⟨M.expires b, M.mode b, fun p h => absurd h id, fun _ e he => absurd he List.not_mem_nil, List.Pairwise.nil⟩

end MessageBackend

/-- No message is sent again after an ambiguous end, over each of the message-based
backends. -/
theorem preview_sent_once (fingerprint : String → Nat) (R : Type) [DecidableEq R] :
    (∀ (A : DraftAccumulator String) τ s,
      (drafter A statusThenTextMessages.backend).Run (fun s a => statusThenTextMessages.heedsTimeout s a = true) τ s →
        statusThenTextMessages.SentOnce s) ∧
    (∀ (A : DraftAccumulator String) τ s,
      (drafter A (statusThenRichMessages R).backend).Run
        (fun s a => (statusThenRichMessages R).heedsTimeout s a = true) τ s → (statusThenRichMessages R).SentOnce s) ∧
    (∀ (A : DraftAccumulator String) τ s,
      (drafter A (editInPlaceMessages fingerprint).backend).Run
        (fun s a => (editInPlaceMessages fingerprint).heedsTimeout s a = true) τ s →
        (editInPlaceMessages fingerprint).SentOnce s) ∧
    (∀ (A : DraftAccumulator R) τ s,
      (drafter A (richEditInPlaceMessages R).backend).Run
        (fun s a => (richEditInPlaceMessages R).heedsTimeout s a = true) τ s → (richEditInPlaceMessages R).SentOnce s) :=
  ⟨fun _ _ _ hr => (MessageBackend.sentInv_of_run hr).once, fun _ _ _ hr => (MessageBackend.sentInv_of_run hr).once,
    fun _ _ _ hr => (MessageBackend.sentInv_of_run hr).once, fun _ _ _ hr => (MessageBackend.sentInv_of_run hr).once⟩

/-! ## Runs on fixed inputs -/

/-- An accumulator that shows nothing before its second update. -/
def fromSecondUpdate : DraftAccumulator String where
  State := List String
  Update := String
  Ambient := Unit
  ambient := ⟨()⟩
  apply update updates := update :: updates
  snapshot updates _ :=
    match updates with
    | last :: _ :: _ => some last
    | _ => none
  resetSegment _ := []

abbrev EditAction (A : DraftAccumulator String) : Type := Action A (editInPlaceMessages String.length).backend

/-- The worker is woken, gets its permit and reads the snapshot. -/
def attemptRun {A : DraftAccumulator String} (ambient : A.Ambient) : List (EditAction A) :=
  [.work .woken, .work (.view ambient true), .work (.permit true), .work .go, .work (.view ambient true)]

/-- The first update is sent, and the request runs out of time. -/
def firstMessageRun : List (EditAction (replacePreview String)) :=
  [.push "a", .work (.view () true), .advance (fromMillis 75)] ++ attemptRun () ++
    [.advance (fromSecs 8), .work (.cut ()), .work .settled]

theorem preview_sent_once_firstMessageRun :
    ∃ τ s, (drafter _ _).exec (fun s a => (editInPlaceMessages String.length).heedsTimeout s a = true) []
        plainDrafter firstMessageRun = some (τ, s) ∧
      s.log.any (editInPlaceMessages String.length).ambiguous = true ∧
      (editInPlaceMessages String.length).SentOnce s := by
  have h : ((drafter _ _).exec (fun s a => (editInPlaceMessages String.length).heedsTimeout s a = true) []
      plainDrafter firstMessageRun).map
      (fun r => r.2.log.any (editInPlaceMessages String.length).ambiguous) = some true := by decide
  obtain ⟨⟨τ, s⟩, he, hs⟩ := Option.map_eq_some_iff.mp h
  exact ⟨τ, s, he, hs,
    (preview_sent_once String.length Unit).2.2.1 _ τ s (Core.Machine.run_of_exec (.start plainDrafter_spawned) he)⟩

def lateDrafter : Sys fromSecondUpdate (editInPlaceMessages String.length).backend :=
  Sys.spawn ([] : List String) EditInPlace.new false DraftConfig.default 0

theorem lateDrafter_spawned : lateDrafter.Spawned := ⟨_, _, _, _, _, DraftConfig.validate_default _, rfl⟩

/-- The first update shows nothing. The second one is sent, and the request runs
out of time; the worker tries again. -/
def lateMessageRun : List (EditAction fromSecondUpdate) :=
  [.push "a", .work (.view () true), .advance (fromMillis 75)] ++ attemptRun () ++
    [.work .settled, .push "b", .work (.view () true), .advance (fromMillis 1000)] ++ attemptRun () ++
    [.advance (fromSecs 8), .work (.cut ()), .work .settled, .push "c", .work (.view () true),
      .advance (fromSecs 8)] ++ attemptRun ()

/-- A message is sent although it is not known whether the one before it was. -/
theorem preview_sent_twice :
    ∃ τ s, (drafter fromSecondUpdate (editInPlaceMessages String.length).backend).Run Core.Machine.anything τ s ∧
      ¬ (editInPlaceMessages String.length).SentOnce s := by
  have h : ((drafter _ _).exec Core.Machine.anything [] lateDrafter lateMessageRun).map
      (fun r => match segmentLog r.2.log with
        | later :: log => (editInPlaceMessages String.length).sending later &&
            log.any (editInPlaceMessages String.length).ambiguous
        | [] => false) = some true := by decide
  obtain ⟨⟨τ, s⟩, he, hs⟩ := Option.map_eq_some_iff.mp h
  refine ⟨τ, s, Core.Machine.run_of_exec (.start lateDrafter_spawned) he, fun hp => ?_⟩
  dsimp only at hs
  split at hs
  · rename_i later log hl
    simp only [Bool.and_eq_true, List.any_eq_true] at hs
    obtain ⟨hsend, earlier, hmem, hamb⟩ := hs
    unfold MessageBackend.SentOnce at hp
    rw [hl] at hp
    have := (List.pairwise_cons.mp hp).1 earlier hmem hamb
    rw [hsend] at this
    cases this
  · cases hs

end Teloxide.Drafter
