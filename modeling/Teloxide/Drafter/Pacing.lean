import Teloxide.Drafter.Spin

/-!
# The pace of the previews

`run_due_preview` (`crates/teloxide/src/drafter/machine.rs:529-660`) checks that a
preview is due before it asks the limiter, and reads the source after the limiter
has answered. `marks` is what an observer notes of each step.

* `preview_pacing`: in every run, every `backend.update` keeps its distance to the
  previews before it and to the last failure, waits for the coalesce window, and
  shows the source as it is read after its permit was granted.
* `preview_newer_than_grant`: an update that is pushed between the grant and the
  reading is shown too, so the preview is not the state at the grant.
-/
namespace Teloxide.Drafter

variable {P : Type} {A : DraftAccumulator P} {B : DrafterBackend P}

/-- What an observer notes. -/
inductive Mark (A : DraftAccumulator P) (B : DrafterBackend P) where
  /-- the limiter has granted the permit of a preview in `s` -/
  | granted (s : Sys A B)
  /-- `backend.update` is called in `s` -/
  | started (s : Sys A B) (p : PreviewAttempt) (snapshot : PreviewSnapshot P)
  /-- a failure allows no preview before this instant -/
  | retryNotBefore (deadline : Nat)
  /-- the worker has begun to process a `Commit`, `Finish` or `Abort` -/
  | taken
  /-- the next segment begins -/
  | reopened

def Command.isTerminal {F : Type} : Command F → Bool
  | .flush _ _ => false
  | .commit _ _ | .finish _ _ | .abort _ => true

/-- The deadline that a step has set. -/
def Worker.retryMarks (w w' : Worker B) : List (Mark A B) :=
  match w'.retryNotBefore with
  | some deadline => if w.retryNotBefore = some deadline then [] else [.retryNotBefore deadline]
  | none => []

/-- What is noted of the step `a` from `s` to `s'`. -/
def Sys.marks (s : Sys A B) (a : Action A B) (s' : Sys A B) : List (Mark A B) :=
  s.worker.retryMarks s'.worker ++
    match a with
    | .work (.permit _) =>
      match s.phase with
      | .acquiring _ => [.granted s]
      | _ => []
    | .work (.view _ _) =>
      match s.phase, s'.phase with
      | .checked p, .updating _ snapshot _ _ => [.started s p snapshot]
      | _, _ => []
    | .work .command => if s.phase.receives && s.queue.head?.any Command.isTerminal then [.taken] else []
    | .work .go =>
      match s.phase with
      | .terminal t (.concluding (.success _)) => if t.kind = .commit then [.reopened] else []
      | _ => []
    | _ => []

def Mark.isReopened : Mark A B → Bool
  | .reopened => true
  | _ => false

/-- What was noted in the current segment, newest first. -/
def segmentMarks (h : List (Mark A B)) : List (Mark A B) := h.takeWhile fun m => !m.isReopened

/-- `source'` is `source` after more updates. -/
def SourceState.Grown (source source' : SourceState A) : Prop :=
  ∃ updates : List A.Update, source'.accumulator = updates.foldl (fun acc u => A.apply u acc) source.accumulator ∧
    source'.revision = min (source.revision + updates.length) u64Max

/-- A preview is started in `s`, after `earlier` in its segment. -/
structure Sys.StartsWell (s : Sys A B) (p : PreviewAttempt) (snapshot : PreviewSnapshot P)
    (earlier : List (Mark A B)) : Prop where
  apart : ∀ s₁ p₁ x, .started s₁ p₁ x ∈ earlier → s₁.now + s.worker.config.minUpdateInterval ≤ s.now
  afterFailure : ∀ deadline, .retryNotBefore deadline ∈ earlier → deadline ≤ s.now
  coalesced : p.operation = .refresh ∨ s.worker.flushRequested = true ∨
    ∃ since, s.source.dirtySince = some since ∧ since + s.worker.config.coalesceWindow ≤ s.now
  monotone : ∀ s₁ p₁ x, .started s₁ p₁ x ∈ earlier → x.revision ≤ snapshot.revision
  /-- the source is read now, and has lost nothing since the grant -/
  newest : (∃ ambient, s.source.snapshot ambient = some snapshot) ∧
    ∃ g older, earlier = .granted g :: older ∧ g.source.Grown s.source
  beforeCommand : .taken ∉ earlier

/-- Every preview is started well. -/
def Paced (h : List (Mark A B)) : Prop :=
  ∀ s p snapshot earlier, (.started s p snapshot :: earlier) <:+ h → s.StartsWell p snapshot (segmentMarks earlier)

/-- The drafter and the observer. -/
def observedDrafter (A : DraftAccumulator P) (B : DrafterBackend P) :
    Core.Machine (Sys A B) (Action A B) (List (Mark A B)) :=
  (drafter A B).observing Sys.marks

/-! ## Marks -/

theorem segmentMarks_append {ms : List (Mark A B)} (hm : ∀ m ∈ ms, m.isReopened = false) (h : List (Mark A B)) :
    segmentMarks (ms ++ h) = ms ++ segmentMarks h :=
  List.takeWhile_append_of_pos fun m hmem => by rw [hm m hmem]; rfl

theorem Worker.retryMarks_same {w w' : Worker B} (h : w'.retryNotBefore = w.retryNotBefore) :
    w.retryMarks (A := A) w' = [] := by
  unfold retryMarks
  split
  · rw [if_pos (by rw [← h]; assumption)]
  · rfl

theorem Worker.retryMarks_cleared {w w' : Worker B} (h : w'.retryNotBefore = none) : w.retryMarks (A := A) w' = [] := by
  simp [retryMarks, h]

theorem Worker.mem_retryMarks {w w' : Worker B} {m : Mark A B} (h : m ∈ w.retryMarks w') :
    ∃ deadline, m = .retryNotBefore deadline ∧ w'.retryNotBefore = some deadline := by
  unfold retryMarks at h
  split at h
  · rename_i deadline hd
    split at h
    · cases h
    · exact ⟨deadline, List.mem_singleton.mp h, hd⟩
  · cases h

/-! ## What a step can do to the pace -/

/-- The preview whose permit is asked for, or that has it and is not started. -/
def Phase.asking : Phase B → Option PreviewAttempt
  | .acquiring p | .granted p | .checked p => some p
  | _ => none

/-- A preview has been found due, and its end is not dealt with. -/
def Phase.previews : Phase B → Bool
  | .acquiring _ | .granted _ | .checked _ | .updating .. | .settling .. => true
  | _ => false

/-- What was checked before the limiter was asked. -/
structure Sys.Due (s : Sys A B) (p : PreviewAttempt) : Prop where
  paced : s.worker.paced s.now = true
  coalesced : p.operation = .refresh ∨ s.worker.flushRequested = true ∨
    ∃ since, s.source.dirtySince = some since ∧ since + s.worker.config.coalesceWindow ≤ s.now

/-- A step that neither starts a preview nor begins a segment. -/
structure Sys.Calm (s s' : Sys A B) : Prop where
  config : s'.worker.config = s.worker.config
  now : s.now ≤ s'.now
  lastAttempt : s'.worker.lastAttempt = s.worker.lastAttempt
  revision : s.source.revision ≤ u64Max → s.source.revision ≤ s'.source.revision ∧ s'.source.revision ≤ u64Max
  gate : s.source.gate ≠ .running → s'.source.gate ≠ .running
  retry : s'.worker.retryNotBefore = s.worker.retryNotBefore ∨ s.phase.previews = true

theorem Worker.completeFlushes_pace (w : Worker B) :
    w.completeFlushes.1.config = w.config ∧ w.completeFlushes.1.lastAttempt = w.lastAttempt ∧
      w.completeFlushes.1.retryNotBefore = w.retryNotBefore :=
  ⟨rfl, rfl, rfl⟩

theorem Worker.handlePreviewError_lastAttempt (w : Worker B) (cls : DrafterErrorClass) (now : Nat) :
    (w.handlePreviewError cls now).1.lastAttempt = w.lastAttempt := by
  unfold handlePreviewError
  dsimp only
  split
  · rfl
  · split <;> rfl
  all_goals rfl

theorem Sys.settlePreview_calm (s : Sys A B) (revision : DraftRevision) (how : PreviewEnd)
    (hp : s.phase.previews = true) : s.Calm (s.settlePreview revision how) := by
  rw [settlePreview_eq]
  refine ⟨(s.worker.handlePreviewEnd_setup s.source revision how s.now).config, Nat.le_refl _, ?_, ?_, ?_, .inr hp⟩
  · cases how with
    | acked => rfl
    | failed d => exact s.worker.handlePreviewError_lastAttempt d.cls s.now
  · intro hr
    cases how <;> simp [Worker.handlePreviewEnd, hr]
  · intro hg
    cases how <;> simpa [Worker.handlePreviewEnd] using hg

theorem Sys.endPreview_calm (s : Sys A B) (b b' : B.State) (snapshot : PreviewSnapshot P) (kept : Bool)
    (how : PreviewEnd) (hp : s.phase.previews = true) : s.Calm (s.endPreview b b' snapshot kept how) := by
  rcases s.endPreview_cases b b' snapshot kept how with h | h <;> rw [h]
  · exact ⟨rfl, Nat.le_refl _, rfl, fun hr => ⟨Nat.le_refl _, hr⟩, id, .inl rfl⟩
  · obtain ⟨hconfig, hnow, hattempt, hrev, hgate, -⟩ := Sys.settlePreview_calm
      { s with worker := s.worker.withBackend b', log := .previewEnded s.worker.segment b snapshot how :: s.log }
      snapshot.revision how hp
    exact ⟨hconfig, hnow, hattempt, hrev, hgate, .inr hp⟩

/-- A step that changes no more than the gate of the source, and not the pace of
the worker. -/
theorem Sys.Calm.of_gate {s s' : Sys A B} (hn : s'.now = s.now) (hc : s'.worker.config = s.worker.config)
    (hl : s'.worker.lastAttempt = s.worker.lastAttempt) (hr : s'.worker.retryNotBefore = s.worker.retryNotBefore)
    (hrev : s'.source.revision = s.source.revision) (hg : s.source.gate ≠ .running → s'.source.gate ≠ .running) :
    s.Calm s' :=
  ⟨hc, Nat.le_of_eq hn.symm, hl, fun h => by rw [hrev]; exact ⟨Nat.le_refl _, h⟩, hg, .inl hr⟩

theorem SourceState.beginTransition_stops (source : SourceState A) : source.beginTransition.gate ≠ .running := by
  rw [beginTransition_gate]
  split
  · simp
  · assumption

/-- A preview is started. -/
theorem Sys.Step.starts {s s' : Sys A B} {a : Action A B} (h : Step s a s') {p p' : PreviewAttempt}
    {snapshot : PreviewSnapshot P} {kept : Bool} {since : Nat} (hp : s.phase = .checked p)
    (hp' : s'.phase = .updating p' snapshot kept since) :
    p' = p ∧ (∃ ambient kept₁, a = .work (.view ambient kept₁) ∧ s.source.snapshot ambient = some snapshot) ∧
      s'.source = s.source ∧ s'.now = s.now ∧ s'.worker.config = s.worker.config ∧
      s'.worker.lastAttempt = some s.now ∧ s'.worker.retryNotBefore = none := by
  cases h with
  | started kept' context hp₁ hb hs hn =>
    cases hp.symm.trans hp₁
    cases hp'
    exact ⟨rfl, ⟨_, _, rfl, hs⟩, rfl, rfl, rfl, rfl, rfl⟩
  | abortTaken _ _ _ hp₁ _ _ hph => rcases hph with rfl | rfl <;> cases hp'
  | aborted _ hph => rcases hph with hph | hph <;> cases hp.symm.trans hph
  | _ =>
    first
    | cases hp.symm.trans hp'
    | cases hp'
    | cases hp.symm.trans ‹s.phase = _›

/-- A segment begins. -/
theorem Sys.Step.reopens {s s' : Sys A B} (h : Step s (.work .go) s') {t : Terminal B} {output : B.Delivered}
    (hp : s.phase = .terminal t (.concluding (.success output))) (hk : t.kind = .commit) :
    s'.worker.config = s.worker.config ∧ s'.worker.retryNotBefore = none ∧ s'.phase = .loopTop ∧
      s'.source.revision = 0 := by
  cases h with
  | reopened b hp₁ => exact ⟨rfl, rfl, rfl, rfl⟩
  | close _ ha => rcases ha with ⟨ha, -⟩ | ⟨_, ha, -⟩ <;> cases ha
  | inTerminal _ _ _ _ hp₁ _ hm =>
    cases hp.symm.trans hp₁
    cases hm <;> simp_all
  | cancelled hp₁ _ _ hs =>
    cases hp.symm.trans hp₁
    exact absurd rfl (hs _)
  | gaveUp _ hp₁ _ hr =>
    cases hp.symm.trans hp₁
    cases hr
  | keptGoing _ hp₁ => cases hp.symm.trans hp₁
  | finished hp₁ hk' =>
    cases hp.symm.trans hp₁
    cases hk.symm.trans hk'
  | aborted _ hph => rcases hph with hph | hph <;> cases hp.symm.trans hph
  | _ => cases hp.symm.trans ‹s.phase = _›

/-- Every other step is calm. -/
theorem Sys.Step.calm {s s' : Sys A B} {a : Action A B} (h : Step s a s')
    (hb : s.phase.alive = true → s.worker.backend.isSome = true)
    (hstart : ∀ p, s.phase = .checked p → ∀ p' x kept since, s'.phase ≠ .updating p' x kept since)
    (hreopen : ∀ t output, s.phase = .terminal t (.concluding (.success output)) → t.kind = .commit →
      a ≠ .work .go) : s.Calm s' := by
  cases h with
  | started kept' context hp hb hs hn => exact absurd rfl (hstart _ hp _ _ _ _)
  | reopened b hp hk => exact absurd rfl (hreopen _ _ hp hk)
  | advance d => exact ⟨rfl, Nat.le_add_right _ _, rfl, fun hr => ⟨Nat.le_refl _, hr⟩, id, .inl rfl⟩
  | push u =>
    refine ⟨rfl, Nat.le_refl _, rfl, fun hr => ?_, ?_, .inl rfl⟩
    · exact s.source.apply_revision u s.now hr
    · simp
  | idle hp hr =>
    rcases Worker.runDuePreview_idle hr with ⟨rfl, -⟩ | ⟨rfl, -⟩ <;>
      exact .of_gate rfl rfl rfl rfl rfl id
  | skipped hp hr =>
    obtain ⟨_, _, _, -, -, -, -, -, -, -, hw⟩ := Worker.runDuePreview_skipped hr
    cases hw
    exact .of_gate rfl rfl rfl rfl (by simp) (by simp)
  | refused hp =>
    exact ⟨rfl, Nat.le_refl _, rfl, fun hr => ⟨Nat.le_refl _, hr⟩, id, .inr (by rw [hp]; rfl)⟩
  | discardedNoPreview hp => exact .of_gate rfl rfl rfl rfl (by simp) (by simp)
  | discardedNoop hp => exact .of_gate rfl rfl rfl rfl (by simp) (by simp)
  | updated hp hb => exact s.endPreview_calm _ _ _ _ _ (by rw [hp]; rfl)
  | timedOut hp hb => exact s.endPreview_calm _ _ _ _ _ (by rw [hp]; rfl)
  | settled hp => exact s.settlePreview_calm _ _ (by rw [hp]; rfl)
  | taken hp hq hk hb' =>
    refine .of_gate rfl rfl rfl rfl ?_ ?_
    · dsimp only
      split
      · exact s.source.beginTransition_revision
      · rfl
    · intro _
      dsimp only
      split
      · exact s.source.beginTransition_stops
      · simp
  | orphaned source e hp hq hn =>
    rw [hn] at hb
    exact absurd (hb (Phase.alive_of_receives hp)) Bool.false_ne_true
  | commit payload =>
    exact .of_gate rfl rfl rfl rfl s.source.beginTransition_revision fun _ => s.source.beginTransition_stops
  | _ =>
    first
    | exact .of_gate rfl rfl rfl rfl rfl id
    | exact .of_gate rfl rfl rfl rfl rfl fun _ => by simp

/-! ## From the check to the start -/

namespace SourceState

/-- The gate and the dirty mark do not count. -/
theorem Grown.of_eq {source source' : SourceState A} (ha : source'.accumulator = source.accumulator)
    (hr : source'.revision = source.revision) (h : source.revision ≤ u64Max) : source.Grown source' :=
  ⟨[], ha, by rw [hr, List.length_nil, Nat.add_zero, Nat.min_eq_left h]⟩

theorem Grown.trans {first second third : SourceState A} (h : first.Grown second) (h' : second.Grown third) :
    first.Grown third := by
  obtain ⟨us, ha, hr⟩ := h
  obtain ⟨us', ha', hr'⟩ := h'
  refine ⟨us ++ us', by rw [ha', ha, List.foldl_append], ?_⟩
  have hmin : ∀ r n n' : Nat, min (min (r + n) u64Max + n') u64Max = min (r + (n + n')) u64Max := by
    intro r n n'
    omega
  rw [hr', hr, List.length_append]
  exact hmin _ _ _

theorem Grown.apply (source : SourceState A) (u : A.Update) (now : Nat) (h : source.revision ≤ u64Max) :
    source.Grown (source.apply u now).1 := by
  unfold SourceState.apply
  split
  · exact .of_eq rfl rfl h
  · exact .of_eq rfl rfl h
  · exact ⟨[u], rfl, rfl⟩

theorem apply_dirtySince (source : SourceState A) (u : A.Update) (now since : Nat)
    (h : source.dirtySince = some since) : (source.apply u now).1.dirtySince = some since := by
  unfold SourceState.apply
  split
  · exact h
  · exact h
  · simp [h]

theorem beginTransition_accumulator (source : SourceState A) :
    source.beginTransition.accumulator = source.accumulator := by
  unfold beginTransition
  split <;> rfl

theorem beginTransition_dirtySince (source : SourceState A) : source.beginTransition.dirtySince = source.dirtySince := by
  unfold beginTransition
  split <;> rfl

end SourceState

theorem Worker.due_preview {w : Worker B} {source : SourceState A} {now : Nat} {operation : DrafterOperation}
    (h : w.due source now = some operation) :
    w.paced now = true ∧ (operation = .refresh ∨ w.flushRequested = true ∨
      ∃ since, source.dirtySince = some since ∧ since + w.config.coalesceWindow ≤ now) := by
  unfold due at h
  split at h
  · rename_i hc
    simp only [changedDue, Bool.and_eq_true, Bool.or_eq_true, Option.any_eq_true, decide_eq_true_eq] at hc
    exact ⟨hc.2, .inr hc.1.2⟩
  · split at h
    · rename_i hr
      cases h
      simp only [refreshDue, Bool.and_eq_true] at hr
      exact ⟨hr.2, .inl rfl⟩
    · cases h

theorem Worker.paced_mono {w : Worker B} {now later : Nat} (h : w.paced now = true) (hle : now ≤ later) :
    w.paced later = true := by
  simp only [paced, Bool.and_eq_true, Option.all_eq_true, decide_eq_true_eq] at h ⊢
  exact ⟨fun t ht => Nat.le_trans (h.1 t ht) hle, fun t ht => Nat.le_trans (h.2 t ht) hle⟩

/-- Nothing but pushes and the clock can happen to a preview that has been found
due. -/
theorem Sys.Due.carry {s s' : Sys A B} {p : PreviewAttempt} (h : s.Due p) (hw : s'.worker = s.worker)
    (hn : s.now ≤ s'.now) (hd : ∀ since, s.source.dirtySince = some since → s'.source.dirtySince = some since) :
    s'.Due p := by
  refine ⟨by rw [hw]; exact Worker.paced_mono h.paced hn, ?_⟩
  rcases h.coalesced with hr | hf | ⟨since, hs, hle⟩
  · exact .inl hr
  · exact .inr (.inl (by rw [hw]; exact hf))
  · exact .inr (.inr ⟨since, hd since hs, by rw [hw]; exact Nat.le_trans hle hn⟩)

/-- A step after which a preview is asked for: it has been found due, or it was
asked for already and the worker has not changed. -/
theorem Sys.Step.asks {s s' : Sys A B} {a : Action A B} (h : Step s a s') (hrev : s.source.revision ≤ u64Max)
    {p : PreviewAttempt} (hp' : s'.phase.asking = some p) :
    (s.phase = .loopTop ∧ s.Due p ∧ s.source.gate = .running ∧ s' = { s with phase := .acquiring p }) ∨
      (s.phase.asking = some p ∧ s'.worker = s.worker ∧ s.now ≤ s'.now ∧
        (∀ since, s.source.dirtySince = some since → s'.source.dirtySince = some since) ∧
        s.source.Grown s'.source) := by
  have stays : ∀ {s' : Sys A B}, s'.phase.asking = some p → s'.phase.asking = s.phase.asking →
      s'.worker = s.worker → s'.now = s.now → s'.source.accumulator = s.source.accumulator →
      s'.source.revision = s.source.revision → s'.source.dirtySince = s.source.dirtySince →
      s.phase.asking = some p ∧ s'.worker = s.worker ∧ s.now ≤ s'.now ∧
        (∀ since, s.source.dirtySince = some since → s'.source.dirtySince = some since) ∧
        s.source.Grown s'.source :=
    fun hp' hp hw hn ha hr hd => ⟨hp ▸ hp', hw, Nat.le_of_eq hn.symm, fun _ h => hd ▸ h, .of_eq ha hr hrev⟩
  cases h with
  | acquire hp hr =>
    obtain ⟨hg, -, hdue, -, -⟩ := Worker.runDuePreview_acquire hr
    cases hp'
    exact .inl ⟨hp, ⟨(Worker.due_preview hdue).1, (Worker.due_preview hdue).2⟩, hg, rfl⟩
  | advance d =>
    exact .inr ⟨hp', rfl, Nat.le_add_right _ _, fun _ h => h, .of_eq rfl rfl hrev⟩
  | push u =>
    exact .inr ⟨hp', rfl, Nat.le_refl _, fun _ h => s.source.apply_dirtySince u _ _ h, .apply _ _ _ hrev⟩
  | commit payload =>
    exact .inr (stays hp' rfl rfl rfl s.source.beginTransition_accumulator s.source.beginTransition_revision
      s.source.beginTransition_dirtySince)
  | granted hp | checked hp => exact .inr (stays hp' (by rw [hp]; rfl) rfl rfl rfl rfl rfl)
  | updated hp hb =>
    rcases s.endPreview_cases _ _ _ _ _ with h | h <;> rw [h] at hp'
    · cases hp'
    · rw [settlePreview_eq] at hp'
      cases hp'
  | timedOut hp hb =>
    rcases s.endPreview_cases _ _ _ _ _ with h | h <;> rw [h] at hp'
    · cases hp'
    · rw [settlePreview_eq] at hp'
      cases hp'
  | settled hp =>
    rw [settlePreview_eq] at hp'
    cases hp'
  | abortTaken _ _ _ _ _ _ hph => rcases hph with rfl | rfl <;> cases hp'
  | _ =>
    first
    | exact .inr (stays hp' rfl rfl rfl rfl rfl rfl)
    | cases hp'

/-! ## Every run -/

/-- What holds of a drafter and of what was noted of it. -/
structure Sys.Pacing (h : List (Mark A B)) (s : Sys A B) : Prop where
  paced : Paced h
  starts : ∀ s₁ p x, .started s₁ p x ∈ segmentMarks h →
    (∃ t, s.worker.lastAttempt = some t ∧ s₁.now ≤ t) ∧ x.revision ≤ s.source.revision
  failures : ∀ deadline, .retryNotBefore deadline ∈ segmentMarks h →
    deadline ≤ s.now ∨ s.phase.previews = false ∧ ∃ later, s.worker.retryNotBefore = some later ∧ deadline ≤ later
  revision : s.source.revision ≤ u64Max
  taken : .taken ∈ segmentMarks h → s.source.gate ≠ .running ∧ s.phase.asking = none
  due : ∀ p, s.phase.asking = some p → s.Due p
  granted : ∀ p, s.phase = .granted p ∨ s.phase = .checked p →
    ∃ g older, segmentMarks h = .granted g :: older ∧ g.source.Grown s.source

theorem Worker.paced_lastAttempt {w : Worker B} {now t : Nat} (h : w.paced now = true) (ht : w.lastAttempt = some t) :
    t + w.config.minUpdateInterval ≤ now := by
  simp only [paced, ht, Option.all_some, Bool.and_eq_true, decide_eq_true_eq] at h
  exact h.1

theorem Worker.paced_retryNotBefore {w : Worker B} {now t : Nat} (h : w.paced now = true)
    (ht : w.retryNotBefore = some t) : t ≤ now := by
  simp only [paced, ht, Option.all_some, Bool.and_eq_true, decide_eq_true_eq] at h
  exact h.2

theorem Phase.asking_of_granted {phase : Phase B} {p : PreviewAttempt}
    (h : phase = .granted p ∨ phase = .checked p) : phase.asking = some p := by
  rcases h with rfl | rfl <;> rfl

/-- A deadline that was set is over once the worker is paced. -/
theorem Sys.Pacing.failures_of_due {h : List (Mark A B)} {s : Sys A B} (hi : s.Pacing h)
    (hp : s.worker.paced s.now = true) {deadline : Nat} (hmem : .retryNotBefore deadline ∈ segmentMarks h) :
    deadline ≤ s.now := by
  rcases hi.failures deadline hmem with hle | ⟨-, later, hr, hle⟩
  · exact hle
  · exact Nat.le_trans hle (Worker.paced_retryNotBefore hp hr)

/-- A preview that is started now is started well. -/
theorem Sys.Pacing.startsWell {h : List (Mark A B)} {s : Sys A B} (hi : s.Pacing h) {p : PreviewAttempt}
    {ambient : A.Ambient} {snapshot : PreviewSnapshot P} (hp : s.phase = .checked p)
    (hs : s.source.snapshot ambient = some snapshot) : s.StartsWell p snapshot (segmentMarks h) := by
  have hdue : s.Due p := hi.due p (by rw [hp]; rfl)
  refine ⟨fun s₁ p₁ x hmem => ?_, fun d hmem => hi.failures_of_due hdue.paced hmem, hdue.coalesced,
    fun s₁ p₁ x hmem => ?_, ⟨⟨ambient, hs⟩, hi.granted p (.inr hp)⟩, fun hmem => ?_⟩
  · obtain ⟨⟨t, ht, hle⟩, -⟩ := hi.starts _ _ _ hmem
    exact Nat.le_trans (Nat.add_le_add_right hle _) (Worker.paced_lastAttempt hdue.paced ht)
  · rw [SourceState.snapshot_revision _ hs]
    exact (hi.starts _ _ _ hmem).2
  · have hn := (hi.taken hmem).2
    rw [hp] at hn
    cases hn

theorem Paced.append {h : List (Mark A B)} (hp : Paced h) {ms : List (Mark A B)}
    (hm : ∀ s p x, .started s p x ∉ ms) : Paced (ms ++ h) := by
  induction ms with
  | nil => exact hp
  | cons m ms ih =>
    intro s p x earlier hsuf
    rcases List.suffix_cons_iff.mp hsuf with he | hsuf
    · obtain ⟨rfl, -⟩ := List.cons.inj he
      exact absurd List.mem_cons_self (hm s p x)
    · exact ih (fun s p x hmem => hm s p x (List.mem_cons_of_mem _ hmem)) s p x earlier hsuf

theorem Paced.start {h : List (Mark A B)} (hp : Paced h) {s : Sys A B} {p : PreviewAttempt}
    {snapshot : PreviewSnapshot P} (hs : s.StartsWell p snapshot (segmentMarks h)) :
    Paced (.started s p snapshot :: h) := by
  intro s₁ p₁ x earlier hsuf
  rcases List.suffix_cons_iff.mp hsuf with he | hsuf
  · obtain ⟨he, rfl⟩ := List.cons.inj he
    cases he
    exact hs
  · exact hp s₁ p₁ x earlier hsuf

/-- The marks of a calm step. -/
theorem Sys.mem_marks {s s' : Sys A B} {a : Action A B} {m : Mark A B} (hm : m ∈ s.marks a s')
    (hstart : ∀ p, s.phase = .checked p → ∀ p' x kept since, s'.phase ≠ .updating p' x kept since)
    (hreopen : ∀ t output, s.phase = .terminal t (.concluding (.success output)) → t.kind = .commit →
      a ≠ .work .go) :
    m ∈ s.worker.retryMarks s'.worker ∨
      (m = .granted s ∧ ∃ p kept, s.phase = .acquiring p ∧ a = .work (.permit kept)) ∨
      (m = .taken ∧ a = .work .command ∧ s.phase.receives = true ∧
        ∃ command rest, s.queue = command :: rest ∧ command.isTerminal = true) := by
  unfold marks at hm
  rcases List.mem_append.mp hm with hm | hm
  · exact .inl hm
  split at hm
  · split at hm
    · rename_i hp
      exact .inr (.inl ⟨List.mem_singleton.mp hm, _, _, hp, rfl⟩)
    · cases hm
  · split at hm
    · rename_i hp hp'
      exact absurd hp' (hstart _ hp _ _ _ _)
    · cases hm
  · split at hm
    · rename_i hc
      obtain ⟨hr, hq⟩ := Bool.and_eq_true_iff.mp hc
      obtain ⟨command, hh, hterm⟩ := (Option.any_eq_true _ _).mp hq
      obtain ⟨rest, hq⟩ := List.head?_eq_some_iff.mp hh
      exact .inr (.inr ⟨List.mem_singleton.mp hm, rfl, hr, command, rest, hq, hterm⟩)
    · cases hm
  · split at hm
    · rename_i hp
      split at hm
      · exact absurd rfl (hreopen _ _ hp ‹_›)
      · cases hm
    · cases hm
  · cases hm

/-- A step after which a preview is under way leaves the last failure alone. -/
theorem Sys.Step.previews {s s' : Sys A B} {a : Action A B} (h : Step s a s')
    (hstart : ∀ p, s.phase = .checked p → ∀ p' x kept since, s'.phase ≠ .updating p' x kept since)
    (hp' : s'.phase.previews = true) :
    s'.worker.retryNotBefore = s.worker.retryNotBefore ∧ (s.phase.previews = true ∨ s.worker.paced s.now = true) := by
  cases h with
  | acquire hp hr =>
    obtain ⟨-, -, hdue, -, -⟩ := Worker.runDuePreview_acquire hr
    exact ⟨rfl, .inr (Worker.due_preview hdue).1⟩
  | started kept' context hp hb hs hn => exact absurd rfl (hstart _ hp _ _ _ _)
  | granted hp | checked hp => exact ⟨rfl, .inl (by rw [hp]; rfl)⟩
  | updated hp hb =>
    rcases s.endPreview_cases _ _ _ _ _ with h | h <;> rw [h] at hp' ⊢
    · exact ⟨rfl, .inl (by rw [hp]; rfl)⟩
    · rw [settlePreview_eq] at hp'
      cases hp'
  | timedOut hp hb =>
    rcases s.endPreview_cases _ _ _ _ _ with h | h <;> rw [h] at hp' ⊢
    · exact ⟨rfl, .inl (by rw [hp]; rfl)⟩
    · rw [settlePreview_eq] at hp'
      cases hp'
  | settled hp =>
    rw [settlePreview_eq] at hp'
    cases hp'
  | abortTaken _ _ _ _ _ _ hph => rcases hph with rfl | rfl <;> cases hp'
  | _ =>
    first
    | exact ⟨rfl, .inl hp'⟩
    | cases hp'

/-- A permit comes by the limiter's answer. -/
theorem Sys.Step.grants {s s' : Sys A B} {a : Action A B} (h : Step s a s') {p p' : PreviewAttempt}
    (hp : s.phase = .acquiring p) (hp' : s'.phase = .granted p' ∨ s'.phase = .checked p') :
    ∃ kept, a = .work (.permit kept) := by
  cases h with
  | granted hp₁ => exact ⟨_, rfl⟩
  | checked hp₁ => cases hp.symm.trans hp₁
  | abortTaken _ _ _ hp₁ _ _ hph => rcases hph with rfl | rfl <;> rcases hp' with hp' | hp' <;> cases hp'
  | aborted _ hph => rcases hph with hph | hph <;> cases hp.symm.trans hph
  | _ =>
    first
    | (rcases hp' with hp' | hp' <;> cases hp.symm.trans hp')
    | (rcases hp' with hp' | hp' <;> cases hp')
    | cases hp.symm.trans ‹s.phase = _›

/-- A command that ends the segment stops the source. -/
theorem Sys.Step.takes {s s' : Sys A B} (h : Step s (.work .command) s')
    (hb : s.phase.alive = true → s.worker.backend.isSome = true) (hr : s.phase.receives = true)
    {command : Command B.Final} {rest : List (Command B.Final)} (hq : s.queue = command :: rest)
    (hc : command.isTerminal = true) : s'.source.gate ≠ .running ∧ s'.phase.asking = none := by
  cases h with
  | taken _ hq₁ _ _ =>
    refine ⟨?_, rfl⟩
    dsimp only
    split
    · exact s.source.beginTransition_stops
    · simp
  | abortTaken _ _ _ _ _ _ hph => rcases hph with rfl | rfl <;> exact ⟨by simp, rfl⟩
  | orphaned source e _ _ hn =>
    rw [hn] at hb
    exact absurd (hb (Phase.alive_of_receives hr)) Bool.false_ne_true
  | channelClosed _ hq₁ => cases hq.symm.trans hq₁
  | flushAnswered _ hq₁ | flushRegistered _ hq₁ =>
    cases hq.symm.trans hq₁
    cases hc
  | close _ ha => rcases ha with ⟨ha, -⟩ | ⟨_, ha, -⟩ <;> cases ha
  | aborted _ hph => rcases hph with hph | hph <;> rw [hph] at hr <;> cases hr
  | _ =>
    rw [‹s.phase = _›] at hr
    cases hr

/-- A calm step keeps it. -/
theorem Sys.Pacing.calm {h : List (Mark A B)} {s s' : Sys A B} {a : Action A B} (hi : s.Pacing h) (hs : Step s a s')
    (hb : s.phase.alive = true → s.worker.backend.isSome = true)
    (hstart : ∀ p, s.phase = .checked p → ∀ p' x kept since, s'.phase ≠ .updating p' x kept since)
    (hreopen : ∀ t output, s.phase = .terminal t (.concluding (.success output)) → t.kind = .commit →
      a ≠ .work .go) : s'.Pacing ((s.marks a s').reverse ++ h) := by
  have hcalm := hs.calm hb hstart hreopen
  have hmarks : ∀ m ∈ (s.marks a s').reverse, _ := fun m hm => mem_marks (List.mem_reverse.mp hm) hstart hreopen
  have hseg : segmentMarks ((s.marks a s').reverse ++ h) = (s.marks a s').reverse ++ segmentMarks h := by
    refine segmentMarks_append (fun m hm => ?_) h
    rcases hmarks m hm with hm | ⟨rfl, -⟩ | ⟨rfl, -⟩
    · obtain ⟨d, rfl, -⟩ := Worker.mem_retryMarks hm
      rfl
    · rfl
    · rfl
  have hnostart : ∀ s₁ p x, .started s₁ p x ∉ (s.marks a s').reverse := by
    intro s₁ p x hm
    rcases hmarks _ hm with hm | ⟨hm, -⟩ | ⟨hm, -⟩
    · obtain ⟨d, hm, -⟩ := Worker.mem_retryMarks hm
      cases hm
    · cases hm
    · cases hm
  obtain ⟨hle, hrev⟩ := hcalm.revision hi.revision
  refine ⟨hi.paced.append hnostart, fun s₁ p x hm => ?_, fun d hm => ?_, hrev, fun hm => ?_, fun p hp' => ?_,
    fun p hp' => ?_⟩
  · rw [hseg] at hm
    obtain ⟨hattempt, hx⟩ := hi.starts s₁ p x ((List.mem_append.mp hm).resolve_left (hnostart s₁ p x))
    exact ⟨hcalm.lastAttempt ▸ hattempt, Nat.le_trans hx hle⟩
  · rw [hseg] at hm
    rcases List.mem_append.mp hm with hm | hm
    · -- the step has set it
      rcases hmarks _ hm with hm | ⟨hm, -⟩ | ⟨hm, -⟩
      · cases hpre : s'.phase.previews with
        | false =>
          obtain ⟨_, hd, hset⟩ := Worker.mem_retryMarks hm
          cases hd
          exact .inr ⟨rfl, d, hset, Nat.le_refl d⟩
        | true =>
          rw [Worker.retryMarks_same (hs.previews hstart hpre).1] at hm
          cases hm
      · cases hm
      · cases hm
    · rcases hi.failures d hm with hd | ⟨hpre, later, hset, hd⟩
      · exact .inl (Nat.le_trans hd hcalm.now)
      · cases hpre' : s'.phase.previews with
        | false =>
          rcases hcalm.retry with hsame | hprev
          · exact .inr ⟨rfl, later, hsame.trans hset, hd⟩
          · rw [hpre] at hprev
            cases hprev
        | true =>
          rcases (hs.previews hstart hpre').2 with hprev | hpaced
          · rw [hpre] at hprev
            cases hprev
          · exact .inl (Nat.le_trans (Nat.le_trans hd (Worker.paced_retryNotBefore hpaced hset)) hcalm.now)
  · rw [hseg] at hm
    rcases List.mem_append.mp hm with hm | hm
    · rcases hmarks _ hm with hm | ⟨hm, -⟩ | ⟨-, rfl, hr, command, rest, hq, hc⟩
      · obtain ⟨d, hm, -⟩ := Worker.mem_retryMarks hm
        cases hm
      · cases hm
      · exact hs.takes hb hr hq hc
    · obtain ⟨hg, hask⟩ := hi.taken hm
      refine ⟨hcalm.gate hg, ?_⟩
      cases hp' : s'.phase.asking with
      | none => rfl
      | some p =>
        rcases hs.asks hi.revision hp' with ⟨-, -, hrun, -⟩ | ⟨hp, -⟩
        · exact absurd hrun hg
        · rw [hask] at hp
          cases hp
  · rcases hs.asks hi.revision hp' with ⟨-, hdue, -, rfl⟩ | ⟨hp, hw, hn, hd, -⟩
    · exact hdue.carry rfl (Nat.le_refl _) fun _ hd => hd
    · exact (hi.due p hp).carry hw hn hd
  · rcases hs.asks hi.revision (Phase.asking_of_granted hp') with ⟨-, -, -, rfl⟩ | ⟨hp, hw, -, -, hgrown⟩
    · rcases hp' with hp' | hp' <;> cases hp'
    · have hretry : s.worker.retryMarks (A := A) s'.worker = [] := Worker.retryMarks_same (by rw [hw])
      rw [hseg]
      by_cases hg : s.phase = .granted p ∨ s.phase = .checked p
      · have hnone : s.marks a s' = [] := by
          refine List.eq_nil_iff_forall_not_mem.mpr fun m hm => ?_
          rcases hmarks m (List.mem_reverse.mpr hm) with hm | ⟨-, _, _, hp, -⟩ | ⟨-, -, hr, -⟩
          · rw [hretry] at hm
            cases hm
          · rcases hg with hg | hg <;> cases hg.symm.trans hp
          · rcases hg with hg | hg <;> rw [hg] at hr <;> cases hr
        obtain ⟨g, older, hseg, hgrown'⟩ := hi.granted p hg
        rw [hnone]
        exact ⟨g, older, hseg, hgrown'.trans hgrown⟩
      · have hp : s.phase = .acquiring p := by
          unfold Phase.asking at hp
          split at hp <;> simp_all
        obtain ⟨kept, rfl⟩ := hs.grants hp hp'
        have hone : s.marks (.work (.permit kept)) s' = [.granted s] := by
          unfold marks
          rw [hretry, hp]
          rfl
        rw [hone]
        exact ⟨s, _, rfl, hgrown⟩

/-- One step keeps it. -/
theorem Sys.Pacing.step {h : List (Mark A B)} {s s' : Sys A B} {a : Action A B} (hi : s.Pacing h) (hs : Step s a s')
    (hb : s.phase.alive = true → s.worker.backend.isSome = true) : s'.Pacing ((s.marks a s').reverse ++ h) := by
  by_cases hstart : ∃ p p' x kept since, s.phase = .checked p ∧ s'.phase = .updating p' x kept since
  · obtain ⟨p, p', x, kept, since, hp, hp'⟩ := hstart
    obtain ⟨rfl, ⟨ambient, kept₁, rfl, hx⟩, hsource, hnow, -, hattempt, hretry⟩ := hs.starts hp hp'
    have hmarks : s.marks (.work (.view ambient kept₁)) s' = [.started s p' x] := by
      unfold marks
      rw [Worker.retryMarks_cleared hretry, hp, hp']
      rfl
    rw [hmarks]
    have hdue : s.Due p' := hi.due p' (by rw [hp]; rfl)
    refine ⟨hi.paced.start (hi.startsWell hp hx), fun s₁ p₁ y hm => ?_, fun d hm => ?_, hsource ▸ hi.revision,
      fun hm => ?_, fun p₁ hask => ?_, fun p₁ hg => ?_⟩
    · rcases List.mem_cons.mp hm with hm | hm
      · cases hm
        exact ⟨⟨_, hattempt, Nat.le_refl _⟩, hsource ▸ Nat.le_of_eq (SourceState.snapshot_revision _ hx)⟩
      · obtain ⟨⟨t, ht, hle⟩, hrev⟩ := hi.starts _ _ _ hm
        have hpaced := Worker.paced_lastAttempt hdue.paced ht
        exact ⟨⟨_, hattempt, by omega⟩, hsource ▸ hrev⟩
    · rcases List.mem_cons.mp hm with hm | hm
      · cases hm
      · exact .inl (hnow ▸ hi.failures_of_due hdue.paced hm)
    · rcases List.mem_cons.mp hm with hm | hm
      · cases hm
      · exact ⟨hsource ▸ (hi.taken hm).1, by rw [hp']; rfl⟩
    · rw [hp'] at hask
      cases hask
    · rcases hg with hg | hg <;> cases hp'.symm.trans hg
  by_cases hreopen : a = .work .go ∧ ∃ t output, s.phase = .terminal t (.concluding (.success output)) ∧ t.kind = .commit
  · obtain ⟨rfl, t, output, hp, hk⟩ := hreopen
    obtain ⟨-, hretry, hp', hrev⟩ := hs.reopens hp hk
    have hmarks : s.marks (.work .go) s' = [.reopened] := by
      unfold marks
      rw [Worker.retryMarks_cleared hretry, hp]
      simp [hk]
    rw [hmarks]
    refine ⟨hi.paced.append fun s₁ p x hm => ?_, fun s₁ p x hm => (by cases hm), fun d hm => (by cases hm),
      by rw [hrev]; exact Nat.zero_le _, fun hm => (by cases hm), fun p hask => ?_, fun p hg => ?_⟩
    · cases List.mem_singleton.mp hm
    · rw [hp'] at hask
      cases hask
    · rcases hg with hg | hg <;> cases hp'.symm.trans hg
  · exact hi.calm hs hb (fun p hp p' x kept since hp' => hstart ⟨p, p', x, kept, since, hp, hp'⟩)
      fun t output hp hk ha => hreopen ⟨ha, t, output, hp, hk⟩

/-- Every preview of a run is started well. -/
theorem preview_pacing {ok : Sys A B → Action A B → Prop} {τ : List (List (Mark A B))} {s : Sys A B}
    (hr : (observedDrafter A B).Run ok τ s) : Paced (Core.Machine.history τ) := by
  refine (Core.Machine.Run.induct_observing (I := fun τ s => Sys.Pacing (Core.Machine.history τ) s) ?_ ?_ hr).2.paced
  · rintro s ⟨accumulator, b, uses, config, now, -, rfl⟩
    exact ⟨fun s p x earlier hsuf => absurd (List.suffix_nil.mp hsuf) (List.cons_ne_nil _ _),
      fun _ _ _ hm => (by cases hm), fun _ hm => (by cases hm), Nat.zero_le _, fun hm => (by cases hm),
      fun p hask => (by cases hask), fun p hg => (by rcases hg with hg | hg <;> cases hg)⟩
  · intro τ τ' s a s' e hr hi _ hs
    simp only [drafter, Option.map_eq_some_iff, Prod.mk.injEq] at hs
    obtain ⟨_, hs, rfl, -⟩ := hs
    rw [Core.Machine.history_cons]
    exact hi.step (Sys.step_cases hs) (backend_of_run hr)

/-! ### Two runs -/

/-- An update is pushed and waits for its window; its preview asks the limiter. -/
def askingSteps (text : String) : List (Action (replacePreview String) (editInPlaceBackend String.length)) :=
  [.work (.view () true), .push text, .advance (fromMillis 1000), .work .woken, .work (.view () true)]

/-- The limiter grants the permit, and the preview is read and shown. -/
def showingSteps (reply : Replies) : List (Action (replacePreview String) (editInPlaceBackend String.length)) :=
  [.work (.permit true), .work .go, .work (.view () true), .work (.reply reply), .work .settled]

/-- The first preview is to be repeated after a second. -/
def twoPreviewsRun : List (Action (replacePreview String) (editInPlaceBackend String.length)) :=
  askingSteps "a" ++ showingSteps (fun _ => .error (.inner (.retryAfter 1))) ++ askingSteps "b" ++
    showingSteps (fun _ => .ok ⟨1⟩)

/-- What was shown, when, and what the source held at the last grant. -/
def Mark.shown : List (Mark (replacePreview String) (editInPlaceBackend String.length)) →
    List (String × Nat × Option String)
  | .started s _ snapshot :: .granted g :: h =>
    (snapshot.preview, s.now, (g.source.accumulator : Option String)) :: Mark.shown h
  | _ :: h => Mark.shown h
  | [] => []

theorem preview_pacing_twoPreviewsRun :
    ∃ τ s, (observedDrafter _ _).Run Core.Machine.anything τ s ∧
      Mark.shown (Core.Machine.history τ) = [("b", fromSecs 2, some "b"), ("a", fromSecs 1, some "a")] ∧
      Paced (Core.Machine.history τ) := by
  have h : ((observedDrafter _ _).exec Core.Machine.anything [] plainDrafter twoPreviewsRun).map
      (fun r => Mark.shown (Core.Machine.history r.1)) =
        some [("b", fromSecs 2, some "b"), ("a", fromSecs 1, some "a")] := by decide
  obtain ⟨⟨τ, s⟩, he, hs⟩ := Option.map_eq_some_iff.mp h
  have hr := Core.Machine.run_of_exec (.start plainDrafter_spawned) he
  exact ⟨τ, s, hr, hs, preview_pacing hr⟩

/-- Every preview is what the source held when its permit was granted. -/
def ShowsGrant (h : List (Mark A B)) : Prop :=
  ∀ s p snapshot g older, (.started s p snapshot :: .granted g :: older) <:+ h →
    ∃ ambient, g.source.snapshot ambient = some snapshot

/-- The second update comes between the grant and the reading. -/
def pushedAfterGrantRun : List (Action (replacePreview String) (editInPlaceBackend String.length)) :=
  askingSteps "a" ++ [.work (.permit true), .push "b", .work .go, .work (.view () true)]

/-- The preview that is started is the second one, the permit having been granted for the first. -/
def startsSecond : List (Mark (replacePreview String) (editInPlaceBackend String.length)) → Bool
  | .started _ _ snapshot :: .granted g :: _ =>
    snapshot.preview == "b" && (g.source.snapshot ()).map (·.preview) == some "a"
  | _ => false

theorem preview_newer_than_grant :
    ∃ τ s, (observedDrafter (replacePreview String) (editInPlaceBackend String.length)).Run Core.Machine.anything τ s ∧
      ¬ ShowsGrant (Core.Machine.history τ) := by
  have h : ((observedDrafter _ _).exec Core.Machine.anything [] plainDrafter pushedAfterGrantRun).map
      (fun r => startsSecond (Core.Machine.history r.1)) = some true := by decide
  obtain ⟨⟨τ, s⟩, he, hs⟩ := Option.map_eq_some_iff.mp h
  refine ⟨τ, s, Core.Machine.run_of_exec (.start plainDrafter_spawned) he, fun hshows => ?_⟩
  unfold startsSecond at hs
  split at hs
  · rename_i s₁ p snapshot g older hh
    simp only [Bool.and_eq_true, beq_iff_eq] at hs
    obtain ⟨ambient, hx⟩ := hshows s₁ p snapshot g older (hh ▸ List.suffix_refl _)
    cases ambient
    rw [hx] at hs
    exact absurd ((Option.some.inj hs.2).symm.trans hs.1) (by decide)
  · cases hs

end Teloxide.Drafter
