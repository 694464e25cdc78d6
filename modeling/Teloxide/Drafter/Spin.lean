import Teloxide.Drafter.Steps
import Teloxide.Drafter.Telegram

/-!
# When the loop of the worker spins

`run_due_preview` decides whether a preview is due and `next_deadline` when to
look again (`crates/teloxide/src/drafter/machine.rs:494-597`). The worker sleeps
only if the second is in the future whenever the first has nothing to do.

* `never_spins_iff`: this is so in exactly the states in which no preview is due
  while the gate is not `Running`, and none that would be skipped is due while a
  refresh is armed.
* `spins_after_invalid_commit`: a commit whose payload was invalid leaves the
  gate in `Transition`, and the worker spins on the previews before it.
-/
namespace Teloxide.Drafter

variable {P : Type} {A : DraftAccumulator P} {B : DrafterBackend P}

/-! ## What the worker keeps -/

namespace Worker

variable (w : Worker B)

/-- The configuration was accepted, and only an expiring backend has a watchdog. -/
structure Sound : Prop where
  config : w.config.validate w.capabilities = .ok ()
  watchdog : w.nextWatchdog ≠ none → w.capabilities.expiresWithoutRefresh = true

variable {w}

theorem Sound.completeFlushes (h : w.Sound) : w.completeFlushes.1.Sound := ⟨h.config, h.watchdog⟩

theorem Sound.withBackend (h : w.Sound) (b : B.State) : (w.withBackend b).Sound := ⟨h.config, h.watchdog⟩

theorem Sound.skipTo (h : w.Sound) (source : SourceState A) (r : DraftRevision) : (w.skipTo source r).1.Sound :=
  ⟨h.config, h.watchdog⟩

theorem Sound.handlePreviewError (h : w.Sound) (cls : DrafterErrorClass) (now : Nat) :
    (w.handlePreviewError cls now).1.Sound := by
  have hd : ∀ v : Worker B, v.config = w.config → v.capabilities = w.capabilities → v.nextWatchdog = none → v.Sound :=
    fun v h1 h2 h3 => ⟨by rw [h1, h2]; exact h.config, fun hn => absurd h3 hn⟩
  unfold Worker.handlePreviewError
  dsimp only
  split
  · exact ⟨h.config, h.watchdog⟩
  · split
    · exact ⟨h.config, h.watchdog⟩
    · exact hd _ rfl rfl rfl
  all_goals exact hd _ rfl rfl rfl

theorem Sound.handlePreviewEnd (h : w.Sound) (source : SourceState A) (r : DraftRevision) (how : PreviewEnd) (now : Nat) :
    (w.handlePreviewEnd source r how now).1.Sound := by
  cases how with
  | acked =>
    refine ⟨h.config, fun hn => ?_⟩
    have hn : (if w.capabilities.expiresWithoutRefresh then some (now + w.config.refreshInterval) else none) ≠ none := hn
    split at hn
    · assumption
    · exact absurd rfl hn
  | failed d => exact h.handlePreviewError d.cls now

theorem Sound.runDuePreview_idle (h : w.Sound) {source : SourceState A} {now : Nat} {ambient : A.Ambient}
    {w' : Worker B} {answers : FlushAnswers} (hr : w.runDuePreview source now ambient = .idle w' answers) : w'.Sound := by
  rcases Worker.runDuePreview_idle hr with ⟨rfl, -⟩ | ⟨rfl, -⟩
  · exact h
  · exact h.completeFlushes

theorem Sound.runDuePreview_skipped (h : w.Sound) {source source' : SourceState A} {now : Nat} {ambient : A.Ambient}
    {w' : Worker B} {answers : FlushAnswers} {r : DraftRevision}
    (hr : w.runDuePreview source now ambient = .skipped w' source' answers r) : w'.Sound := by
  obtain ⟨_, _, _, -, -, -, -, -, -, -, hs⟩ := Worker.runDuePreview_skipped hr
  cases hs
  exact h.skipTo source r

end Worker

theorem Sys.Step.sound {s s' : Sys A B} {a : Action A B} (h : Sys.Step s a s') (hw : s.worker.Sound) :
    s'.worker.Sound := by
  have keep : ∀ v : Worker B, v.config = s.worker.config → v.capabilities = s.worker.capabilities →
      (v.nextWatchdog = s.worker.nextWatchdog ∨ v.nextWatchdog = none) → v.Sound := by
    intro v h1 h2 h3
    refine ⟨by rw [h1, h2]; exact hw.config, fun hn => ?_⟩
    rcases h3 with h3 | h3
    · rw [h2]
      exact hw.watchdog (h3 ▸ hn)
    · exact absurd h3 hn
  have settle : ∀ (v : Sys A B) r how, v.worker.Sound → (v.settlePreview r how).worker.Sound := by
    intro v r how hv
    rw [Sys.settlePreview_eq]
    exact hv.handlePreviewEnd _ _ _ _
  have ended : ∀ (v : Sys A B) b b' snapshot kept how, v.worker.Sound →
      (v.endPreview b b' snapshot kept how).worker.Sound := by
    intro v b b' snapshot kept how hv
    rcases v.endPreview_cases b b' snapshot kept how with h | h <;> rw [h]
    · exact hv.withBackend b'
    · exact settle _ _ how (hv.withBackend b')
  cases h with
  | idle _ hr => exact hw.runDuePreview_idle hr
  | skipped _ hr => exact hw.runDuePreview_skipped hr
  | updated => exact ended _ _ _ _ _ _ hw
  | timedOut => exact ended _ _ _ _ _ _ hw
  | settled => exact settle _ _ _ hw
  | discardedNoPreview => exact keep _ rfl rfl (.inr rfl)
  | reopened => exact keep _ rfl rfl (.inr rfl)
  | _ => exact keep _ rfl rfl (.inl rfl)

theorem worker_sound {τ : List Unit} {s : Sys A B} (hr : (drafter A B).Run Core.Machine.anything τ s) :
    s.worker.Sound := by
  refine drafter_induct (I := fun s => s.worker.Sound) ?_ (fun s a s' h _ _ hi => h.sound hi) hr
  rintro s ⟨accumulator, b, uses, config, now, hc, rfl⟩
  exact ⟨hc, fun hn => absurd rfl hn⟩

theorem backend_of_loopTop {τ : List Unit} {s : Sys A B} (hr : (drafter A B).Run Core.Machine.anything τ s)
    (hp : s.phase = .loopTop) : ∃ b, s.worker.backend = some b :=
  Option.isSome_iff_exists.mp (backend_of_run hr (by rw [hp]; rfl))

/-! ## The two decisions -/

namespace Worker

variable {w : Worker B} {source : SourceState A} {now : Nat}

theorem lt_notBefore_iff (deadline : Nat) : now < w.notBefore deadline ↔ now < deadline ∨ w.paced now = false := by
  unfold notBefore paced
  cases w.lastAttempt <;> cases w.retryNotBefore <;> simp <;> omega

/-- A preview or a refresh is due, whatever the gate says. -/
def workDue (w : Worker B) (source : SourceState A) (now : Nat) : Prop :=
  w.previewDisabled = false ∧ (w.changedDue source now = true ∨ w.refreshDue source now = true)

theorem due_eq_none_iff : w.due source now = none ↔ w.changedDue source now = false ∧ w.refreshDue source now = false := by
  unfold due
  cases w.changedDue source now <;> cases w.refreshDue source now <;> simp

theorem workDue_iff : w.workDue source now ↔ w.previewDisabled = false ∧ ∃ operation, w.due source now = some operation := by
  unfold workDue
  cases hd : w.due source now with
  | none => simp [(due_eq_none_iff.1 hd).1, (due_eq_none_iff.1 hd).2]
  | some operation =>
    have hsome : ¬ (w.changedDue source now = false ∧ w.refreshDue source now = false) := by
      rw [← due_eq_none_iff, hd]
      simp
    cases hc : w.changedDue source now <;> cases hr : w.refreshDue source now <;> simp_all

/-- Answering waiters makes no work due. -/
theorem workDue_of_completeFlushes (h : w.completeFlushes.1.workDue source now) : w.workDue source now := by
  refine ⟨h.1, ?_⟩
  rcases h.2 with hc | hr
  · left
    have hsub : w.completeFlushes.1.flushRequested = true → w.flushRequested = true := by
      simp only [flushRequested, completeFlushes, List.any_eq_true, List.mem_filter]
      rintro ⟨x, ⟨hx, -⟩, hlt⟩
      exact ⟨x, hx, hlt⟩
    unfold changedDue at hc ⊢
    simp only [Bool.and_eq_true, Bool.or_eq_true] at hc ⊢
    exact ⟨⟨hc.1.1, hc.1.2.imp_left hsub⟩, hc.2⟩
  · exact .inr hr

/-- The worker sleeps until a later instant, or for a message, unless work is due. -/
theorem nextDeadline_future_iff (hw : w.Sound) :
    (∀ d, w.nextDeadline source now = some d → now < d) ↔ ¬ w.workDue source now := by
  have hpos := DraftConfig.coalesceWindow_pos hw.config
  unfold nextDeadline workDue
  split
  · rename_i hd
    simp [hd]
  · rename_i hd
    have hd : w.previewDisabled = false := by simpa using hd
    split
    · -- something is undelivered: the deadline is that of `changed_due`
      rename_i hc
      have hr : w.refreshDue source now = false := by simp [refreshDue, hc]
      simp only [Option.some.injEq, forall_eq', lt_notBefore_iff, hd, hr, true_and, changedDue, hc, decide_true,
        Bool.true_and, Bool.false_eq_true, or_false, Bool.and_eq_true, not_and, Bool.not_eq_true]
      cases hf : w.flushRequested with
      | true => simp
      | false =>
        cases hs : source.dirtySince with
        | none =>
          simp
          omega
        | some since =>
          simp only [Bool.false_eq_true, if_false, Option.getD_some, Bool.false_or, Option.any_some,
            decide_eq_true_eq]
          constructor
          · rintro (h | h) h'
            · omega
            · exact h
          · intro h
            by_cases hle : since + w.config.coalesceWindow ≤ now
            · exact .inr (h hle)
            · exact .inl (by omega)
    · -- nothing is: it is that of the watchdog
      rename_i hc
      have hch : w.changedDue source now = false := by simp [changedDue, hc]
      cases hn : w.nextWatchdog with
      | none => simp [hch, refreshDue, hn]
      | some t =>
        have he := hw.watchdog (by rw [hn]; simp)
        simp only [Option.map_some, Option.some.injEq, forall_eq', lt_notBefore_iff, hd, hch, true_and, refreshDue,
          decide_eq_false hc, Bool.not_false, he, hn, Option.any_some, Bool.true_and, Bool.false_eq_true, false_or,
          Bool.and_eq_true, decide_eq_true_eq, not_and, Bool.not_eq_true]
        constructor
        · rintro (h | h) h'
          · omega
          · exact h
        · intro h
          by_cases hle : t ≤ now
          · exact .inr (h hle)
          · exact .inl (by omega)

/-- A worker that has skipped a preview skips again, without waiting in between,
exactly if a refresh is armed. -/
theorem skips_again_iff (hw : w.Sound) {ambient : A.Ambient} {w' : Worker B} {source' : SourceState A}
    {answers : FlushAnswers} {r : DraftRevision} (h : w.runDuePreview source now ambient = .skipped w' source' answers r) :
    (∃ now' ambient' w'' source'' answers' r', now ≤ now' ∧
      w'.runDuePreview source' now' ambient' = .skipped w'' source'' answers' r') ↔ w.nextWatchdog ≠ none := by
  obtain ⟨operation, b, snapshot, hg, hd, -, hb, hs, hn, rfl, hskip⟩ := runDuePreview_skipped h
  obtain ⟨rfl, rfl, rfl⟩ : w' = (w.skipTo source snapshot.revision).1 ∧ source' = source.markDelivered snapshot.revision ∧
      answers = (w.skipTo source snapshot.revision).2.2 := by simpa [skipTo] using hskip
  -- everything in the source is delivered now
  have hall : (source.markDelivered snapshot.revision).revision ≤ (w.skipTo source snapshot.revision).1.lastDelivered := by
    rw [SourceState.markDelivered_revision, ← source.snapshot_revision hs]
    exact Nat.le_max_right _ _
  have hch : ∀ now', (w.skipTo source snapshot.revision).1.changedDue (source.markDelivered snapshot.revision) now'
      = false := by
    intro now'
    unfold changedDue
    rw [decide_eq_false (Nat.not_lt.mpr hall), Bool.false_and, Bool.false_and]
  constructor
  · rintro ⟨now', ambient', w'', source'', answers', r', -, h'⟩ hnone
    obtain ⟨operation', -, -, -, -, hdue, -⟩ := runDuePreview_skipped h'
    have hr : (w.skipTo source snapshot.revision).1.refreshDue (source.markDelivered snapshot.revision) now' = false := by
      simp [refreshDue, skipTo, completeFlushes, hnone]
    rw [due_eq_none_iff.2 ⟨hch now', hr⟩] at hdue
    cases hdue
  · intro hwd
    obtain ⟨t, ht⟩ := Option.ne_none_iff_exists'.mp hwd
    -- late enough for the watchdog and for both pauses
    let late := now + t + (w.lastAttempt.getD 0 + w.config.minUpdateInterval) + w.retryNotBefore.getD 0
    have hpaced : (w.skipTo source snapshot.revision).1.paced late = true := by
      have : w.paced late = true := by
        have hlate : late = now + t + (w.lastAttempt.getD 0 + w.config.minUpdateInterval) + w.retryNotBefore.getD 0 := rfl
        unfold paced
        rw [Bool.and_eq_true]
        constructor
        · cases hl : w.lastAttempt with
          | none => rfl
          | some a =>
            rw [hl, Option.getD_some] at hlate
            exact decide_eq_true (by omega)
        · cases hr : w.retryNotBefore with
          | none => rfl
          | some a =>
            rw [hr, Option.getD_some] at hlate
            exact decide_eq_true (by omega)
      exact this
    have hr : (w.skipTo source snapshot.revision).1.refreshDue (source.markDelivered snapshot.revision) late = true := by
      unfold refreshDue
      rw [decide_eq_false (Nat.not_lt.mpr hall), hpaced]
      have hex : (w.skipTo source snapshot.revision).1.capabilities.expiresWithoutRefresh = true := hw.watchdog hwd
      have hnext : (w.skipTo source snapshot.revision).1.nextWatchdog = some t := ht
      rw [hex, hnext]
      simp [late]
      omega
    have hdue : (w.skipTo source snapshot.revision).1.due (source.markDelivered snapshot.revision) late
        = some .refresh := by
      unfold due
      rw [hch late, hr]
      rfl
    have hgate : (source.markDelivered snapshot.revision).gate = .running := by
      rw [SourceState.markDelivered_gate, hg]
    have hsnap : (source.markDelivered snapshot.revision).snapshot ambient = some snapshot := by
      rw [SourceState.markDelivered_snapshot, hs]
    exact ⟨late, ambient, _, _, _, _, by simp [late]; omega, runDuePreview_of_noop hgate hd hdue hb hsnap hn⟩

end Worker

/-! ## The loop -/

namespace Sys

/-- If the worker goes to sleep it is until a later instant, or for a message;
and it does not skip a preview twice without waiting in between. -/
def NeverSpins (s : Sys A B) : Prop :=
  (∀ ambient w answers, s.worker.runDuePreview s.source s.now ambient = .idle w answers →
    ∀ deadline, w.nextDeadline s.source s.now = some deadline → s.now < deadline) ∧
  (∀ ambient w source answers r, s.worker.runDuePreview s.source s.now ambient = .skipped w source answers r →
    ∀ now' ambient' w' source' answers' r', s.now ≤ now' →
      w.runDuePreview source now' ambient' ≠ .skipped w' source' answers' r')

/-- Work is due only while the gate is `Running`, and work that the backend would
skip only while no refresh is armed. -/
def Restful (s : Sys A B) : Prop :=
  s.worker.workDue s.source s.now →
    s.source.gate = .running ∧
    ∀ b ambient snapshot, s.worker.backend = some b → s.source.snapshot ambient = some snapshot →
      Worker.noopSnapshot b s.worker.requestScheduling (some snapshot) = some snapshot → s.worker.nextWatchdog = none

end Sys

/-- The worker never spins, in exactly the states that are restful. -/
theorem never_spins_iff {τ : List Unit} {s : Sys A B} (hr : (drafter A B).Run Core.Machine.anything τ s)
    (hp : s.phase = .loopTop) : s.NeverSpins ↔ s.Restful := by
  have hw := worker_sound hr
  obtain ⟨b, hb⟩ := backend_of_loopTop hr hp
  constructor
  · rintro ⟨hidle, hskip⟩ hdue
    obtain ⟨hd, operation, hop⟩ := Worker.workDue_iff.1 hdue
    obtain ⟨ambient⟩ := A.ambient
    refine ⟨?_, fun b' ambient' snapshot hb' hs hn => ?_⟩
    · by_contra hg
      have hrun : s.worker.runDuePreview s.source s.now ambient = .idle s.worker [] := by
        simp [Worker.runDuePreview, SourceState.isRunning, hg]
      exact (Worker.nextDeadline_future_iff hw).mp (hidle ambient _ _ hrun) hdue
    · by_contra hwd
      by_cases hg : s.source.gate = .running
      · have hrun := Worker.runDuePreview_of_noop hg hd hop hb' hs hn
        obtain ⟨now', ambient'', w'', source'', answers', r', hle, hagain⟩ := (Worker.skips_again_iff hw hrun).mpr hwd
        exact hskip _ _ _ _ _ hrun _ _ _ _ _ _ hle hagain
      · have hrun : s.worker.runDuePreview s.source s.now ambient = .idle s.worker [] := by
          simp [Worker.runDuePreview, SourceState.isRunning, hg]
        exact (Worker.nextDeadline_future_iff hw).mp (hidle ambient _ _ hrun) hdue
  · intro hrest
    refine ⟨fun ambient w answers hrun => ?_, fun ambient w source answers r hrun now' ambient' w' source' answers' r' hle hagain => ?_⟩
    · rcases Worker.runDuePreview_idle hrun with ⟨rfl, -, hg⟩ | ⟨rfl, -, -, hd⟩
      · refine (Worker.nextDeadline_future_iff hw).mpr fun hdue => ?_
        rcases hg with hg | hnone
        · exact hg (hrest hdue).1
        · rw [hb] at hnone
          cases hnone
      · refine (Worker.nextDeadline_future_iff hw.completeFlushes).mpr fun hdue => ?_
        obtain ⟨hd', operation, hop⟩ := Worker.workDue_iff.1 (Worker.workDue_of_completeFlushes hdue)
        rcases hd with hd | hd
        · rw [hd] at hd'
          cases hd'
        · rw [hd] at hop
          cases hop
    · obtain ⟨operation, b', snapshot, hg, hd, hop, hb', hs, hn, -⟩ := Worker.runDuePreview_skipped hrun
      have hwd := (hrest (Worker.workDue_iff.2 ⟨hd, operation, hop⟩)).2 b' ambient snapshot hb' hs hn
      exact (Worker.skips_again_iff hw hrun).mp ⟨now', ambient', w', source', answers', r', hle, hagain⟩ hwd

/-- An `EditInPlace` drafter with the default configuration. -/
def plainDrafter : Sys (replacePreview String) (editInPlaceBackend String.length) :=
  Sys.spawn (none : Option String) EditInPlace.new false DraftConfig.default 0

theorem plainDrafter_spawned : plainDrafter.Spawned :=
  ⟨_, _, _, _, _, DraftConfig.validate_default _, rfl⟩

/-- An update, then a commit whose payload is invalid; the drafter is asked once
more when the update has waited for its window. -/
def invalidCommitRun : List (Action (replacePreview String) (editInPlaceBackend String.length)) :=
  [.push "a", .commit "b", .send 0, .work (.view () true), .work .command, .work (.permit true), .work .go,
    .work (.reply fun _ => .error (.inner .validation)), .work .settled, .work .go, .work (.view () true),
    .advance (fromMillis 75), .work .woken]

/-- The run leads between two iterations, with the gate in `Transition` and an
instant to wait for that has come. -/
theorem invalidCommitRun_exec :
    ∃ τ s, (drafter _ _).Run Core.Machine.anything τ s ∧ (s : Sys (replacePreview String) (editInPlaceBackend String.length)).phase = .loopTop ∧
      s.source.gate = .transition ∧ s.worker.nextDeadline s.source s.now = some s.now := by
  have h : ((drafter _ _).exec Core.Machine.anything [] plainDrafter invalidCommitRun).map
      (fun r => ((match r.2.phase with | .loopTop => true | _ => false), r.2.source.gate,
        r.2.worker.nextDeadline r.2.source r.2.now == some r.2.now)) = some (true, .transition, true) := by decide
  obtain ⟨⟨τ, s⟩, he, hs⟩ := Option.map_eq_some_iff.mp h
  simp only [Prod.mk.injEq, beq_iff_eq] at hs
  refine ⟨τ, s, Core.Machine.run_of_exec (.start plainDrafter_spawned) he, ?_, hs.2.1, hs.2.2⟩
  have hp := hs.1
  split at hp
  · assumption
  · cases hp

theorem never_spins_iff_invalidCommitRun :
    ∃ s : Sys (replacePreview String) (editInPlaceBackend String.length),
      s.source.gate = .transition ∧ (s.NeverSpins ↔ s.Restful) := by
  obtain ⟨τ, s, hr, hp, hg, -⟩ := invalidCommitRun_exec
  exact ⟨s, hg, never_spins_iff hr hp⟩

/-- The caller was told of the invalid payload; the worker finds nothing to do and
sleeps until an instant that has passed, again and again. -/
theorem spins_after_invalid_commit :
    ∃ τ s, (drafter (replacePreview String) (editInPlaceBackend String.length)).Run Core.Machine.anything τ s ∧
      s.phase = .loopTop ∧ ¬ s.NeverSpins := by
  obtain ⟨τ, s, hr, hp, hg, hd⟩ := invalidCommitRun_exec
  refine ⟨τ, s, hr, hp, fun h => ?_⟩
  have hrun : s.worker.runDuePreview s.source s.now () = .idle s.worker [] := by
    simp [Worker.runDuePreview, SourceState.isRunning, hg]
  exact Nat.lt_irrefl _ (h.1 () _ _ hrun _ hd)

end Teloxide.Drafter
