import Teloxide.Drafter.Certainty

/-!
# Flushes

`Drafter::flush` reads the revision of the source, and the worker answers when it
has delivered that revision (`crates/teloxide/src/drafter/machine.rs:810-867,
2092-2101`). The target is a bare number, and numbers start again in every segment.

* `flush_sound`: an answer is right, and nobody waits in vain, in every run in which
  a flush is registered while the gate is `Running`, a segment is reopened when no
  flush is on its way, and the gate is moved when nobody waits.
* `flush_stranded`: a flush after a commit with an invalid payload waits in front of
  a gate that stays in `Transition`; a flush that overlaps a commit is answered
  about the wrong segment.
-/
namespace Teloxide.Drafter

variable {P : Type} {A : DraftAccumulator P} {B : DrafterBackend P}

/-- The updates up to `target` were shown: the backend has acknowledged a preview
that has them in it, was showing it already, or there was nothing to show. -/
def Event.covers (target : DraftRevision) : Event B → Bool
  | .previewEnded _ _ snapshot .acked => target ≤ snapshot.revision
  | .covered _ revision .noop | .covered _ revision .noPreview => target ≤ revision
  | _ => false

/-- How often the source has been reopened: the number of the segment. -/
def reopenings (log : List (Event B)) : Nat := log.countP Event.isReopened

structure Sys.FlushSound (s : Sys A B) : Prop where
  /-- `Ok` comes after the updates were shown, in the segment in which `flush` was called -/
  answered : ∀ call r older, (.flushAnswered call (.ok r) :: older) <:+ s.log →
    ∃ target segment before, (.flushCalled call target segment :: before) <:+ older ∧ target ≤ r ∧
      (0 < target → ∃ e earlier, (e :: earlier) <:+ older ∧ e.covers target = true ∧
        reopenings earlier = reopenings before)
  /-- who waits at the top of the loop can still be served -/
  waiting : s.phase = .loopTop → ∀ waiter ∈ s.worker.flushWaiters,
    s.source.gate = .running ∧ waiter.target ≤ s.source.revision

def Command.isFlush {F : Type} : Command F → Bool
  | .flush _ _ => true
  | _ => false

/-- A flush is registered only while the gate is `Running`; a segment is reopened
only while no flush is on its way; and the callers move the gate only while nobody
waits. -/
def Sys.heedsFlush (s : Sys A B) (a : Action A B) : Bool :=
  match a with
  | .commit _ | .finish _ | .abort | .dropOwner => s.worker.flushWaiters.isEmpty
  | .work .command =>
    match s.queue with
    | .flush target _ :: _ => (s.worker.flushAnswer target).isSome || s.source.isRunning
    | _ => true
  | .work .go =>
    match s.phase with
    | .terminal t (.concluding (.success _)) => t.kind ≠ .commit || !(s.unsent ++ s.queue).any Command.isFlush
    | _ => true
  | _ => true

/-! ## Segments -/

/-- What is in the current segment comes after the same reopenings as now. -/
theorem suffix_of_mem_segmentLog {e : Event B} {log : List (Event B)} (h : e ∈ segmentLog log) :
    ∃ older, (e :: older) <:+ log ∧ reopenings older = reopenings log := by
  induction log with
  | nil => cases h
  | cons x rest ih =>
    cases hx : x.isReopened with
    | true => simp [segmentLog, hx] at h
    | false =>
      have hcount : reopenings rest = reopenings (x :: rest) := by simp [reopenings, hx]
      have h : e ∈ x :: segmentLog rest := by simpa [segmentLog, hx] using h
      rcases List.mem_cons.mp h with rfl | h
      · exact ⟨rest, List.suffix_refl _, hcount⟩
      · obtain ⟨older, hs, hc⟩ := ih h
        exact ⟨older, hs.trans (List.suffix_cons _ _), hc.trans hcount⟩

theorem mem_segmentLog_append {evs log : List (Event B)} (h : ∀ e ∈ evs, e.isReopened = false) {e : Event B}
    (he : e ∈ segmentLog log) : e ∈ segmentLog (evs ++ log) := by
  rw [segmentLog_append h]
  exact List.mem_append_right _ he

/-! ## Answers -/

theorem Event.covers_mono {e : Event B} {low high : DraftRevision} (h : e.covers high = true) (hle : low ≤ high) :
    e.covers low = true := by
  unfold covers at h ⊢
  split at h <;> simp_all <;> exact Nat.le_trans hle h

/-- The replies of a worker that has come from `w` to `w'`. -/
structure Worker.Replies (w w' : Worker B) (answers : FlushAnswers) : Prop where
  waiters : ∀ waiter ∈ w'.flushWaiters, waiter ∈ w.flushWaiters
  ok : ∀ call r, (call, .ok r) ∈ answers → r = w'.lastDelivered ∧
    ∃ waiter ∈ w.flushWaiters, waiter.reply = call ∧ waiter.target ≤ r

theorem Worker.Replies.none {w w' : Worker B} (h : w'.flushWaiters = w.flushWaiters) : w.Replies w' [] :=
  ⟨fun _ hmem => h ▸ hmem, fun _ _ hmem => absurd hmem List.not_mem_nil⟩

/-- The waiters are the same as those of `w₁`. -/
theorem Worker.Replies.of_waiters {w w₁ w' : Worker B} {answers : FlushAnswers} (h : w₁.Replies w' answers)
    (hw : w₁.flushWaiters = w.flushWaiters) : w.Replies w' answers :=
  ⟨fun x hx => hw ▸ h.waiters x hx, fun call r hmem => hw ▸ h.ok call r hmem⟩

theorem Worker.flushAnswer_ok {w : Worker B} {target r : DraftRevision} (h : w.flushAnswer target = some (.ok r)) :
    r = w.lastDelivered ∧ target ≤ r := by
  unfold flushAnswer at h
  split at h
  · cases h
    exact ⟨rfl, ‹_›⟩
  · split at h <;> cases h

theorem Worker.completeFlushes_replies (w : Worker B) : w.Replies w.completeFlushes.1 w.completeFlushes.2 := by
  refine ⟨fun waiter hmem => (List.mem_filter.mp hmem).1, fun call r hmem => ?_⟩
  obtain ⟨waiter, hw, ha⟩ := List.mem_filterMap.mp hmem
  obtain ⟨answer, ha, heq⟩ := Option.map_eq_some_iff.mp ha
  cases heq
  obtain ⟨rfl, hle⟩ := flushAnswer_ok ha
  exact ⟨rfl, waiter, hw, rfl, hle⟩

theorem Worker.failFlushes_ok (w : Worker B) (error : DraftFlushError) (call : CallId) (r : DraftRevision) :
    (call, .ok r) ∉ (w.failFlushes error).2 := by
  simp [failFlushes]

theorem Worker.handlePreviewError_replies (w : Worker B) (cls : DrafterErrorClass) (now : Nat) :
    w.Replies (w.handlePreviewError cls now).1 (w.handlePreviewError cls now).2 ∧
      (w.handlePreviewError cls now).1.lastDelivered = w.lastDelivered := by
  have disabled : ∀ w₁ : Worker B, w₁.flushWaiters = w.flushWaiters → w₁.lastDelivered = w.lastDelivered →
      w.Replies w₁.completeFlushes.1 w₁.completeFlushes.2 ∧ w₁.completeFlushes.1.lastDelivered = w.lastDelivered := by
    intro w₁ hw hd
    exact ⟨w₁.completeFlushes_replies.of_waiters hw, hd⟩
  unfold handlePreviewError
  dsimp only
  split
  · exact ⟨.none rfl, rfl⟩
  · split
    · exact ⟨.none rfl, rfl⟩
    · exact disabled _ rfl rfl
  all_goals exact disabled _ rfl rfl

/-- An answer that is right, in front of the log. -/
def Answered (call : CallId) (r : DraftRevision) (log : List (Event B)) : Prop :=
  ∃ target segment, .flushCalled call target segment ∈ segmentLog log ∧ target ≤ r ∧
    (0 < target → ∃ e ∈ segmentLog log, e.covers target = true)

def AllAnswered (log : List (Event B)) : Prop :=
  ∀ call r older, (.flushAnswered call (.ok r) :: older) <:+ log → Answered call r older

theorem Answered.append {call : CallId} {r : DraftRevision} {evs log : List (Event B)}
    (he : ∀ e ∈ evs, e.isReopened = false) (h : Answered call r log) : Answered call r (evs ++ log) := by
  obtain ⟨target, segment, hcalled, hle, hcov⟩ := h
  refine ⟨target, segment, mem_segmentLog_append he hcalled, hle, fun hpos => ?_⟩
  obtain ⟨e, hmem, hc⟩ := hcov hpos
  exact ⟨e, mem_segmentLog_append he hmem, hc⟩

/-- Events that do not reopen the source, and answer rightly if at all. -/
def Fair (log evs : List (Event B)) : Prop :=
  ∀ e ∈ evs, e.isReopened = false ∧ ∀ call r, e = .flushAnswered call (.ok r) → Answered call r log

theorem AllAnswered.append {evs log : List (Event B)} (h : AllAnswered log) (he : Fair log evs) :
    AllAnswered (evs ++ log) := by
  induction evs with
  | nil => exact h
  | cons e evs ih =>
    obtain ⟨⟨-, hok⟩, hrest⟩ := List.forall_mem_cons.mp he
    intro call r older hs
    rcases List.suffix_cons_iff.mp hs with heq | hs
    · obtain ⟨rfl, rfl⟩ := List.cons.inj heq
      exact (hok call r rfl).append fun x hx => (hrest x hx).1
    · exact ih hrest call r older hs

theorem AllAnswered.cons {e : Event B} {log : List (Event B)} (h : AllAnswered log)
    (he : ∀ call r, e ≠ .flushAnswered call (.ok r)) : AllAnswered (e :: log) := by
  intro call r older hs
  rcases List.suffix_cons_iff.mp hs with heq | hs
  · exact absurd (List.cons.inj heq).1.symm (he call r)
  · exact h call r older hs

theorem Fair.nil (log : List (Event B)) : Fair log [] := fun _ he => absurd he List.not_mem_nil

theorem Fair.cons {log evs : List (Event B)} {e : Event B} (hr : e.isReopened = false)
    (hok : ∀ call r, e ≠ .flushAnswered call (.ok r)) (h : Fair log evs) : Fair log (e :: evs) :=
  List.forall_mem_cons.mpr ⟨⟨hr, fun call r heq => absurd heq (hok call r)⟩, h⟩

theorem Fair.events {log : List (Event B)} {answers : FlushAnswers}
    (h : ∀ call r, (call, .ok r) ∈ answers → Answered call r log) : Fair log (answers.events B) := by
  intro e he
  obtain ⟨⟨call, answer⟩, hmem, rfl⟩ := List.mem_map.mp (List.mem_reverse.mp he)
  refine ⟨rfl, fun call' r heq => ?_⟩
  cases heq
  exact h _ _ hmem

theorem Fair.of_terminalCall {log evs : List (Event B)} {call : CallId} (h : ∀ e ∈ evs, e.terminalCall = some call) :
    Fair log evs := by
  intro e he
  have hc := h e he
  refine ⟨?_, fun call r heq => ?_⟩
  · cases e with
    | reopened => cases hc
    | _ => rfl
  · rw [heq] at hc
    cases hc

namespace Sys

/-- The flush is on its way, or waits. -/
def Asked (s : Sys A B) (call : CallId) (target : DraftRevision) : Prop :=
  .flush target call ∈ s.unsent ++ s.queue ∨ ⟨target, call⟩ ∈ s.worker.flushWaiters

structure FlushInv (s : Sys A B) : Prop where
  covered : 0 < s.worker.lastDelivered → ∃ e ∈ segmentLog s.log, e.covers s.worker.lastDelivered = true
  settling : ∀ r, s.phase = .settling r .acked → ∃ e ∈ segmentLog s.log, e.covers r = true
  asked : ∀ call target, s.Asked call target →
    target ≤ s.source.revision ∧ ∃ segment, .flushCalled call target segment ∈ segmentLog s.log
  terminal : ∀ t stage, s.phase = .terminal t stage → s.worker.flushWaiters = []
  gate : s.worker.flushWaiters ≠ [] → s.source.gate = .running
  bounded : s.source.revision ≤ u64Max
  answered : AllAnswered s.log

theorem FlushInv.revision {s : Sys A B} (hi : s.FlushInv) :
    s.source.revision ≤ s.source.revision ∧ s.source.revision ≤ u64Max :=
  ⟨Nat.le_refl _, hi.bounded⟩

theorem FlushInv.markDelivered {s : Sys A B} (hi : s.FlushInv) (r : DraftRevision) :
    s.source.revision ≤ (s.source.markDelivered r).revision ∧ (s.source.markDelivered r).revision ≤ u64Max := by
  rw [SourceState.markDelivered_revision]
  exact hi.revision

/-- What counts as delivered was shown, when `r` was. -/
theorem FlushInv.covered_max {s : Sys A B} (hi : s.FlushInv) {evs : List (Event B)} {r : DraftRevision}
    (hevs : ∀ e ∈ evs, e.isReopened = false) (hc : ∃ e ∈ segmentLog (evs ++ s.log), e.covers r = true)
    (hpos : 0 < max s.worker.lastDelivered r) :
    ∃ e ∈ segmentLog (evs ++ s.log), e.covers (max s.worker.lastDelivered r) = true := by
  rcases Nat.le_total s.worker.lastDelivered r with hle | hle
  · rw [Nat.max_eq_right hle]
    exact hc
  · rw [Nat.max_eq_left hle] at hpos ⊢
    obtain ⟨e, he, hec⟩ := hi.covered hpos
    exact ⟨e, mem_segmentLog_append hevs he, hec⟩

/-- The worker goes on in the same segment; it may have answered some flushes. -/
theorem FlushInv.served {s s' : Sys A B} (hi : s.FlushInv) (answers : FlushAnswers) (evs : List (Event B))
    (hl : s'.log = answers.events B ++ (evs ++ s.log)) (hevs : Fair s.log evs)
    (hr : s.worker.Replies s'.worker answers)
    (hcov : 0 < s'.worker.lastDelivered → ∃ e ∈ segmentLog (evs ++ s.log), e.covers s'.worker.lastDelivered = true)
    (hset : ∀ r, s'.phase = .settling r .acked → ∃ e ∈ segmentLog (evs ++ s.log), e.covers r = true)
    (hsub : ∀ call target, .flush target call ∈ s'.unsent ++ s'.queue → .flush target call ∈ s.unsent ++ s.queue)
    (hrev : s.source.revision ≤ s'.source.revision ∧ s'.source.revision ≤ u64Max)
    (hterm : ∀ t stage, s'.phase = .terminal t stage → s'.worker.flushWaiters = [])
    (hgate : s'.source.gate = s.source.gate ∨ s'.worker.flushWaiters = []) : s'.FlushInv := by
  have hmid : ∀ e ∈ evs, e.isReopened = false := fun e he => (hevs e he).1
  have hanswers : ∀ e ∈ answers.events B, e.isReopened = false := by
    intro e he
    obtain ⟨x, -, rfl⟩ := List.mem_map.mp (List.mem_reverse.mp he)
    rfl
  have lift : ∀ {e : Event B}, e ∈ segmentLog (evs ++ s.log) → e ∈ segmentLog s'.log := by
    intro e he
    rw [hl]
    exact mem_segmentLog_append hanswers he
  refine ⟨fun hpos => ?_, fun r hph => ?_, fun call target hmem => ?_, hterm, fun hne => ?_, hrev.2, ?_⟩
  · obtain ⟨e, he, hc⟩ := hcov hpos
    exact ⟨e, lift he, hc⟩
  · obtain ⟨e, he, hc⟩ := hset r hph
    exact ⟨e, lift he, hc⟩
  · obtain ⟨hle, segment, he⟩ := hi.asked call target (hmem.imp (hsub _ _) (hr.waiters _))
    exact ⟨Nat.le_trans hle hrev.1, segment, lift (mem_segmentLog_append hmid he)⟩
  · rcases hgate with hg | hg
    · rw [hg]
      refine hi.gate fun hnone => hne (List.eq_nil_iff_forall_not_mem.mpr fun x hx => ?_)
      have := hr.waiters x hx
      rw [hnone] at this
      cases this
    · exact absurd hg hne
  · rw [hl]
    refine (hi.answered.append hevs).append (Fair.events fun call r hmem => ?_)
    obtain ⟨rfl, waiter, hw, rfl, hle⟩ := hr.ok call r hmem
    obtain ⟨-, segment, he⟩ := hi.asked waiter.reply waiter.target (.inr hw)
    refine ⟨waiter.target, segment, mem_segmentLog_append hmid he, hle, fun hpos => ?_⟩
    obtain ⟨e, he, hc⟩ := hcov (Nat.lt_of_lt_of_le hpos hle)
    exact ⟨e, he, e.covers_mono hc hle⟩

/-- Nothing of the flushes changes. -/
theorem FlushInv.plain {s s' : Sys A B} (hi : s.FlushInv) (evs : List (Event B)) (hl : s'.log = evs ++ s.log)
    (hevs : Fair s.log evs) (hd : s'.worker.lastDelivered = s.worker.lastDelivered)
    (hw : ∀ waiter ∈ s'.worker.flushWaiters, waiter ∈ s.worker.flushWaiters)
    (hset : ∀ r, s'.phase = .settling r .acked → s.phase = .settling r .acked)
    (hsub : ∀ call target, .flush target call ∈ s'.unsent ++ s'.queue → .flush target call ∈ s.unsent ++ s.queue)
    (hrev : s.source.revision ≤ s'.source.revision ∧ s'.source.revision ≤ u64Max)
    (hterm : ∀ t stage, s'.phase = .terminal t stage → s'.worker.flushWaiters = [])
    (hgate : s'.source.gate = s.source.gate ∨ s'.worker.flushWaiters = []) : s'.FlushInv := by
  have hmid : ∀ e ∈ evs, e.isReopened = false := fun e he => (hevs e he).1
  refine hi.served [] evs hl hevs ⟨hw, fun _ _ h => absurd h List.not_mem_nil⟩ (fun hpos => ?_)
    (fun r hph => ?_) hsub hrev hterm hgate
  · obtain ⟨e, he, hc⟩ := hi.covered (hd ▸ hpos)
    exact ⟨e, mem_segmentLog_append hmid he, hd ▸ hc⟩
  · obtain ⟨e, he, hc⟩ := hi.settling r (hset r hph)
    exact ⟨e, mem_segmentLog_append hmid he, hc⟩

/-- Dealing with the end of a preview request answers the flushes it was for. -/
theorem FlushInv.settlePreview {v : Sys A B} (hi : v.FlushInv) (r : DraftRevision) (how : PreviewEnd)
    (hack : how = .acked → ∃ e ∈ segmentLog v.log, e.covers r = true) : (v.settlePreview r how).FlushInv := by
  rw [settlePreview_eq]
  cases how with
  | acked =>
    obtain ⟨e, he, hc⟩ := hack rfl
    have hplain : Fair v.log [Event.covered (B := B) v.worker.segment r .acked] :=
      .cons rfl (fun _ _ h => nomatch h) (.nil _)
    have lift : ∀ {x : Event B}, x ∈ segmentLog v.log →
        x ∈ segmentLog ([.covered v.worker.segment r .acked] ++ v.log) :=
      mem_segmentLog_append fun x hx => (hplain x hx).1
    refine hi.served _ [.covered v.worker.segment r .acked] rfl hplain ?_ (fun hpos => ?_) (fun _ h => nomatch h)
      (fun _ _ h => h) ?_ (fun _ _ h => nomatch h) (.inl ?_)
    · exact (Worker.completeFlushes_replies _).of_waiters rfl
    · exact hi.covered_max (fun x hx => (hplain x hx).1) ⟨e, lift he, hc⟩ hpos
    · exact hi.markDelivered r
    · exact SourceState.markDelivered_gate _ _
  | failed d =>
    obtain ⟨hr, hd⟩ := v.worker.handlePreviewError_replies d.cls v.now
    exact hi.served _ [] rfl (.nil _) hr (fun hpos => hd ▸ hi.covered (hd ▸ hpos)) (fun _ h => nomatch h) (fun _ _ h => h)
      hi.revision (fun _ _ h => nomatch h) (.inl rfl)

theorem FlushInv.endPreview {s : Sys A B} (hi : s.FlushInv) (b b' : B.State) (snapshot : PreviewSnapshot P) (kept : Bool)
    (how : PreviewEnd) : (s.endPreview b b' snapshot kept how).FlushInv := by
  have hplain : Fair s.log [Event.previewEnded s.worker.segment b snapshot how] :=
    .cons rfl (fun _ _ h => nomatch h) (.nil _)
  have hack : how = .acked → ∃ e ∈ segmentLog ([.previewEnded s.worker.segment b snapshot how] ++ s.log),
      e.covers snapshot.revision = true := by
    rintro rfl
    rw [segmentLog_append fun x hx => (hplain x hx).1]
    exact ⟨_, List.mem_cons_self, by simp [Event.covers]⟩
  rcases s.endPreview_cases b b' snapshot kept how with h | h <;> rw [h]
  · refine hi.served [] [.previewEnded s.worker.segment b snapshot how] rfl hplain (.none rfl) (fun hpos => ?_)
      (fun r hph => ?_) (fun _ _ h => h) hi.revision (fun _ _ h => nomatch h) (.inl rfl)
    · obtain ⟨e, he, hc⟩ := hi.covered hpos
      exact ⟨e, mem_segmentLog_append (fun x hx => (hplain x hx).1) he, hc⟩
    · cases hph
      exact hack rfl
  · refine FlushInv.settlePreview ?_ snapshot.revision how hack
    exact hi.plain [.previewEnded s.worker.segment b snapshot how] rfl hplain rfl (fun _ h => h) (fun _ h => h)
      (fun _ _ h => h) hi.revision hi.terminal (.inl rfl)

/-- The task goes on in another phase, or ends. -/
theorem FlushInv.goes {s s' : Sys A B} (hi : s.FlushInv) (evs : List (Event B)) (hl : s'.log = evs ++ s.log)
    (hevs : Fair s.log evs) (hd : s'.worker.lastDelivered = s.worker.lastDelivered)
    (hw : s'.worker.flushWaiters = s.worker.flushWaiters ∧ s'.source.gate = s.source.gate ∧ s'.Idles ∨
      s'.worker.flushWaiters = [])
    (hset : ∀ r, s'.phase ≠ .settling r .acked)
    (hsub : ∀ call target, .flush target call ∈ s'.unsent ++ s'.queue → .flush target call ∈ s.unsent ++ s.queue)
    (hrev : s'.source.revision = s.source.revision) : s'.FlushInv := by
  have hrev : s.source.revision ≤ s'.source.revision ∧ s'.source.revision ≤ u64Max := hrev ▸ hi.revision
  have hset : ∀ r, s'.phase = .settling r .acked → s.phase = .settling r .acked := fun r h => absurd h (hset r)
  rcases hw with ⟨hw, hg, hidle⟩ | hw
  · exact hi.plain evs hl hevs hd (fun _ h => hw ▸ h) hset hsub hrev (fun t stage h => absurd h (hidle t stage)) (.inl hg)
  · exact hi.plain evs hl hevs hd (fun _ h => by rw [hw] at h; cases h) hset hsub hrev (fun _ _ _ => hw) (.inr hw)

theorem mem_tail {s : Sys A B} {command : Command B.Final} {rest : List (Command B.Final)}
    (hq : s.queue = command :: rest) {x : Command B.Final} (h : x ∈ s.unsent ++ rest) : x ∈ s.unsent ++ s.queue := by
  rw [hq]
  exact (List.mem_append.mp h).elim (List.mem_append_left _) fun h => List.mem_append_right _ (List.mem_cons_of_mem _ h)

theorem FlushInv.step {s s' : Sys A B} {a : Action A B} (h : Step s a s')
    (hb : s.phase.alive = true → s.worker.backend.isSome = true) (hok : s.heedsFlush a = true) (hi : s.FlushInv) :
    s'.FlushInv := by
  have failed : ∀ error, Fair s.log ((s.worker.failFlushes error).2.events B) := fun error =>
    .events fun call r hmem => absurd hmem (s.worker.failFlushes_ok error call r)
  cases h with
  | advance =>
    exact hi.plain [] rfl (.nil _) rfl (fun _ h => h) (fun _ h => h) (fun _ _ h => h) hi.revision hi.terminal (.inl rfl)
  | push u =>
    exact hi.plain [_] rfl (.cons rfl (fun _ _ h => by cases h) (.nil _)) rfl (fun _ h => h) (fun _ h => h)
      (fun _ _ h => h) (s.source.apply_revision u s.now hi.bounded) hi.terminal (.inl (s.source.apply_gate u s.now))
  | flush =>
    have lift : ∀ {e : Event B}, e ∈ segmentLog s.log →
        e ∈ segmentLog ([.flushCalled s.nextCall s.source.revision s.worker.segment] ++ s.log) :=
      mem_segmentLog_append (by simp [Event.isReopened])
    refine ⟨fun hpos => ?_, fun r hph => ?_, fun call target hmem => ?_, hi.terminal, hi.gate, hi.bounded, ?_⟩
    · obtain ⟨e, he, hc⟩ := hi.covered hpos
      exact ⟨e, lift he, hc⟩
    · obtain ⟨e, he, hc⟩ := hi.settling r hph
      exact ⟨e, lift he, hc⟩
    · have hmem : s.Asked call target ∨ target = s.source.revision ∧ call = s.nextCall := by
        simp only [Asked, List.mem_append, List.mem_singleton, Command.flush.injEq] at hmem ⊢
        rcases hmem with ((h | h) | h) | h
        · exact .inl (.inl (.inl h))
        · exact .inr h
        · exact .inl (.inl (.inr h))
        · exact .inl (.inr h)
      rcases hmem with hmem | ⟨rfl, rfl⟩
      · obtain ⟨hle, segment, he⟩ := hi.asked call target hmem
        exact ⟨hle, segment, lift he⟩
      · exact ⟨Nat.le_refl _, s.worker.segment, List.mem_cons_self⟩
    · refine hi.answered.cons ?_
      intro _ _ h
      cases h
  | commit payload =>
    have hw : s.worker.flushWaiters = [] := by simpa [heedsFlush] using hok
    refine hi.plain [] rfl (.nil _) rfl (fun _ h => h) (fun _ h => h) (fun call target h => ?_) ?_ hi.terminal (.inr hw)
    · simpa using h
    · rw [SourceState.beginTransition_revision]
      exact hi.revision
  | close command hc =>
    have hw : s.worker.flushWaiters = [] := by
      rcases hc with ⟨rfl, -⟩ | ⟨payload, rfl, -⟩ <;> simpa [heedsFlush] using hok
    refine hi.plain [_] rfl (.cons rfl (fun _ _ h => by cases h) (.nil _)) rfl (fun _ h => h) (fun _ h => h)
      (fun call target h => ?_) hi.revision hi.terminal (.inr hw)
    rcases hc with ⟨-, rfl⟩ | ⟨payload, -, rfl⟩ <;> simpa using h
  | unsendable | forget =>
    refine hi.plain [] rfl (.nil _) rfl (fun _ h => h) (fun _ h => h) (fun call target h => ?_) hi.revision hi.terminal
      (.inl rfl)
    simp only [List.mem_append, List.mem_filter] at h ⊢
    exact h.imp_left (·.1)
  | send halive hmem hr =>
    refine hi.plain [] rfl (.nil _) rfl (fun _ h => h) (fun _ h => h) (fun call target h => ?_) hi.revision hi.terminal
      (.inl rfl)
    simp only [List.mem_append, List.mem_filter, List.mem_singleton] at h ⊢
    rcases h with h | h | h
    · exact .inl h.1
    · exact .inr h
    · exact .inl (h ▸ hmem)
  | dropOwner =>
    have hw : s.worker.flushWaiters = [] := by simpa [heedsFlush] using hok
    exact hi.plain [] rfl (.nil _) rfl (fun _ h => h) (fun _ h => h) (fun _ _ h => h) hi.revision hi.terminal (.inr hw)
  | dropSenders =>
    exact hi.plain [] rfl (.nil _) rfl (fun _ h => h) (fun _ h => h) (fun _ _ h => h) hi.revision hi.terminal (.inl rfl)
  | kill =>
    exact hi.goes [] rfl (.nil _) rfl (.inr rfl) (fun _ h => by cases h) (fun _ _ h => List.mem_append_left _ (by simpa using h)) rfl
  | idle hp hr =>
    rcases Worker.runDuePreview_idle hr with ⟨rfl, rfl, -⟩ | ⟨rfl, rfl, -⟩
    · exact hi.goes [] rfl (.nil _) rfl (.inl ⟨rfl, rfl, fun _ _ h => by cases h⟩) (fun _ h => by cases h) (fun _ _ h => h) rfl
    · exact hi.served _ [] rfl (.nil _) s.worker.completeFlushes_replies hi.covered (fun _ h => by cases h)
        (fun _ _ h => h) hi.revision (fun _ _ h => by cases h) (.inl rfl)
  | @skipped _ _ _ _ _ revision hp hr =>
    obtain ⟨_, _, _, -, -, -, -, -, -, -, hw⟩ := Worker.runDuePreview_skipped hr
    cases hw
    have hplain : Fair s.log [Event.covered (B := B) s.worker.segment revision .noop] :=
      .cons rfl (fun _ _ h => by cases h) (.nil _)
    refine hi.served _ [.covered s.worker.segment revision .noop] rfl hplain ?_ (fun hpos => ?_) (fun _ h => by cases h)
      (fun _ _ h => h) (hi.markDelivered revision) (fun _ _ h => by cases h) (.inl (SourceState.markDelivered_gate _ _))
    · exact (Worker.completeFlushes_replies _).of_waiters rfl
    · exact hi.covered_max (fun x hx => (hplain x hx).1) ⟨_, List.mem_cons_self, by simp [Event.covers]⟩ hpos
  | refused hp =>
    exact hi.goes _ rfl (failed _) rfl (.inr rfl) (fun _ h => by cases h) (fun _ _ h => h) rfl
  | started kept' context hp =>
    exact hi.goes [_] rfl (.cons rfl (fun _ _ h => by cases h) (.nil _)) rfl (.inl ⟨rfl, rfl, fun _ _ h => by cases h⟩)
      (fun _ h => by cases h) (fun _ _ h => h) rfl
  | @discardedNoPreview revision hp =>
    have hplain : Fair s.log [Event.covered (B := B) s.worker.segment revision .noPreview] :=
      .cons rfl (fun _ _ h => by cases h) (.nil _)
    refine hi.served _ [.covered s.worker.segment revision .noPreview] rfl hplain ?_ (fun _ => ?_) (fun _ h => by cases h)
      (fun _ _ h => h) (hi.markDelivered revision) (fun _ _ h => by cases h) (.inl (SourceState.markDelivered_gate _ _))
    · exact (Worker.completeFlushes_replies _).of_waiters rfl
    · exact ⟨_, List.mem_cons_self, by simp [Event.covers, Worker.completeFlushes]⟩
  | @discardedNoop revision hp =>
    have hplain : Fair s.log [Event.covered (B := B) s.worker.segment revision .noop] :=
      .cons rfl (fun _ _ h => by cases h) (.nil _)
    refine hi.served _ [.covered s.worker.segment revision .noop] rfl hplain ?_ (fun hpos => ?_) (fun _ h => by cases h)
      (fun _ _ h => h) (hi.markDelivered revision) (fun _ _ h => by cases h) (.inl (SourceState.markDelivered_gate _ _))
    · exact (Worker.completeFlushes_replies _).of_waiters rfl
    · exact hi.covered_max (fun x hx => (hplain x hx).1) ⟨_, List.mem_cons_self, by simp [Event.covers]⟩ hpos
  | updated hp hs => exact hi.endPreview _ _ _ _ _
  | timedOut hp hs => exact hi.endPreview _ _ _ _ _
  | settled hp => exact hi.settlePreview _ _ fun h => hi.settling _ (h ▸ hp)
  | channelClosed ha hq =>
    exact hi.goes [_] rfl (.cons rfl (fun _ _ h => by cases h) (.nil _)) rfl (.inr rfl) (fun _ h => by cases h)
      (fun _ _ h => List.mem_append_left _ (by simpa using h)) rfl
  | @flushAnswered target reply rest result ha hq hf =>
    refine hi.goes [.flushAnswered reply result] rfl ?_ rfl (.inl ⟨rfl, rfl, fun _ _ h => by cases h⟩) (fun _ h => by cases h)
      (fun _ _ h => mem_tail hq h) rfl
    intro e he
    rw [List.mem_singleton.mp he]
    refine ⟨rfl, fun call r heq => ?_⟩
    cases heq
    obtain ⟨rfl, hle⟩ := Worker.flushAnswer_ok hf
    obtain ⟨-, segment, hcalled⟩ := hi.asked reply target (.inl (by simp [hq]))
    refine ⟨target, segment, hcalled, hle, fun hpos => ?_⟩
    obtain ⟨e, he, hc⟩ := hi.covered (Nat.lt_of_lt_of_le hpos hle)
    exact ⟨e, he, e.covers_mono hc hle⟩
  | @flushRegistered target reply rest ha hq hf =>
    have hrun : s.source.gate = .running := by simpa [heedsFlush, hq, hf, SourceState.isRunning] using hok
    refine ⟨hi.covered, (fun _ h => by cases h), fun call r hmem => ?_, (fun _ _ h => by cases h), fun _ => hrun, hi.bounded,
      hi.answered⟩
    refine hi.asked call r ?_
    rcases hmem with hmem | hmem
    · exact .inl (mem_tail hq hmem)
    · rcases List.mem_append.mp hmem with hmem | hmem
      · exact .inr hmem
      · cases List.mem_singleton.mp hmem
        exact .inl (by simp [hq])
  | taken ha hq hk hs =>
    refine hi.goes (_ :: _) rfl (.cons rfl (fun _ _ h => by cases h) (failed _)) rfl (.inr rfl) (fun _ h => by cases h)
      (fun _ _ h => mem_tail hq h) ?_
    dsimp only
    split
    · exact SourceState.beginTransition_revision _
    · rfl
  | abortTaken until' phase backend ha hq hs hphase =>
    refine hi.goes _ rfl (failed _) rfl (.inr rfl) (fun r h => ?_) (fun _ _ h => mem_tail hq h) rfl
    rcases hphase with rfl | rfl <;> cases h
  | orphaned source e ha hq hn =>
    have := hb (Phase.alive_of_receives ha)
    rw [hn] at this
    cases this
  | inTerminal t' stage' b evs hp hs hm =>
    exact hi.goes evs rfl (.of_terminalCall hm.same.2.2) rfl (.inr (hi.terminal _ _ hp)) (fun _ h => by cases h)
      (fun _ _ h => h) rfl
  | cancelled hp =>
    exact hi.goes [_, _] rfl (.cons rfl (fun _ _ h => by cases h) (.cons rfl (fun _ _ h => by cases h) (.nil _))) rfl
      (.inr rfl) (fun _ h => by cases h) (fun _ _ h => List.mem_append_left _ (by simpa using h)) rfl
  | @reopened t output b hp hk =>
    have hnone : ∀ call target, .flush target call ∉ s.unsent ++ s.queue := by
      intro call target hmem
      simp only [heedsFlush, hp, hk, ne_eq, not_true_eq_false, decide_false, Bool.false_or, Bool.not_eq_true',
        List.any_eq_false] at hok
      exact absurd rfl (hok _ hmem)
    have hw := hi.terminal t _ hp
    refine ⟨fun hpos => absurd hpos (Nat.lt_irrefl _), (fun _ h => by cases h), fun call target hmem => ?_,
      (fun _ _ h => by cases h), fun hne => absurd hw hne, Nat.zero_le _, ?_⟩
    · rcases hmem with hmem | hmem
      · exact absurd hmem (hnone call target)
      · have hmem : (⟨target, call⟩ : FlushWaiter) ∈ s.worker.flushWaiters := hmem
        rw [hw] at hmem
        cases hmem
    · refine (hi.answered.cons ?_).cons ?_ <;>
      · intro _ _ h
        cases h
  | keptGoing b hp =>
    exact hi.goes [_] rfl (.cons rfl (fun _ _ h => by cases h) (.nil _)) rfl (.inl ⟨rfl, rfl, fun _ _ h => by cases h⟩)
      (fun _ h => by cases h) (fun _ _ h => h) rfl
  | gaveUp b hp | finished hp | aborted hp =>
    exact hi.goes [_, _] rfl (.cons rfl (fun _ _ h => by cases h) (.cons rfl (fun _ _ h => by cases h) (.nil _))) rfl
      (.inr rfl) (fun _ h => by cases h) (fun _ _ h => List.mem_append_left _ (by simpa using h)) rfl
  | _ =>
    exact hi.goes [] rfl (.nil _) rfl (.inl ⟨rfl, rfl, fun _ _ h => by cases h⟩) (fun _ h => by cases h) (fun _ _ h => h) rfl

theorem flushInv_of_run {τ : List Unit} {s : Sys A B} (hr : (drafter A B).Run (fun s a => s.heedsFlush a = true) τ s) :
    s.FlushInv := by
  refine drafter_induct (I := FlushInv) ?_ (fun s a s' h hok hb hi => FlushInv.step h hb hok hi) hr
  rintro s ⟨accumulator, b, uses, config, now, -, rfl⟩
  refine ⟨fun h => absurd h (Nat.lt_irrefl _), (fun _ h => nomatch h), fun call target hmem => ?_, (fun _ _ h => nomatch h),
    fun h => absurd rfl h, Nat.zero_le _, fun call r older hs => ?_⟩
  · rcases hmem with hmem | hmem <;> cases hmem
  · cases List.suffix_nil.mp hs

end Sys

/-- An update is flushed. -/
def flushedRun : List (Action (replacePreview String) (editInPlaceBackend String.length)) :=
  [.push "a", .flush, .send 0, .work (.view () true), .work .command, .work (.view () true), .work (.permit true),
    .work .go, .work (.view () true), .work (.reply fun _ => .ok ⟨1⟩), .work .settled]

def Event.flushedTo (call : CallId) (r : DraftRevision) : Event B → Bool
  | .flushAnswered c (.ok r') => c = call && r' = r
  | _ => false

/-- A commit fails because its payload is invalid, and the update is flushed. -/
def strandedRun : List (Action (replacePreview String) (editInPlaceBackend String.length)) :=
  [.push "a", .commit "b", .send 0, .work (.view () true), .work .command, .work (.permit true), .work .go,
    .work (.reply fun _ => .error (.inner .validation)), .work .settled, .work .go, .flush, .send 1,
    .work (.view () true), .work .command]

/-- The caller of a commit is gone, and flushes while the commit is being completed;
an update of the next segment is shown. -/
def mixedUpRun : List (Action (replacePreview String) (editInPlaceBackend String.length)) :=
  [.push "a", .commit "b", .send 0, .work (.view () true), .work .command, .work (.permit true), .work .go,
    .work (.reply fun _ => .ok ⟨1⟩), .forget 0, .flush, .send 1, .work .settled, .work .go,
    .work (.view () true), .work .command, .push "c", .work (.view () true), .work (.permit true), .work .go,
    .work (.view () true), .work (.reply fun _ => .ok ⟨2⟩), .work .settled]

def allSuffixes (p : Event B → List (Event B) → Bool) : List (Event B) → Bool
  | [] => true
  | e :: older => p e older && allSuffixes p older

theorem of_allSuffixes {p : Event B → List (Event B) → Bool} {log : List (Event B)} (h : allSuffixes p log = true)
    {e : Event B} {older : List (Event B)} (hs : (e :: older) <:+ log) : p e older = true := by
  induction log with
  | nil => cases List.suffix_nil.mp hs
  | cons x rest ih =>
    simp only [allSuffixes, Bool.and_eq_true] at h
    rcases List.suffix_cons_iff.mp hs with heq | hs
    · cases heq
      exact h.1
    · exact ih h.2 hs

/-- The call had a target in the first segment. -/
def Event.asksFirst (call : CallId) (older : List (Event B)) : Event B → Bool
  | .flushCalled c target _ => c ≠ call || (target ≠ 0 && reopenings older = 0)
  | _ => true

end Teloxide.Drafter
