import Teloxide.Drafter.Pacing

/-!
# How long the previews back off

`handle_preview_error` (`crates/teloxide/src/drafter/machine.rs:774-802`) doubles
the delay after a transient failure and counts failures of every class. `Backoff`
is the part of the worker it works on, and `Outcome` what an observer notes of it.

* `handlePreviewEnd_backoff`: an outcome changes a worker as `Backoff.after` says.
* `backoff_sound`: as long as no doubling leaves the range of `Duration`, and no
  `RetryAfter` comes as the last failure that is allowed, delay and counter are what
  the failures in a row make them. The first step that breaks either condition
  breaks this too.
* `backoff_unsound`: both can happen.
-/
namespace Teloxide.Drafter

variable {P : Type} {A : DraftAccumulator P} {B : DrafterBackend P}

/-- `Duration::MAX`: `u64::MAX` seconds and 999,999,999 nanoseconds. -/
def durationMax : Nat := 2 ^ 64 * 10 ^ 9 - 1

/-- The product of a `Duration` and a number; the operator panics where it is none. -/
def durationMul (duration factor : Nat) : Option Nat :=
  if duration * factor ≤ durationMax then some (duration * factor) else none

/-- The server has said how long to wait. -/
def DrafterErrorClass.isRetryAfter : DrafterErrorClass → Bool
  | .retryAfter _ _ => true
  | _ => false

/-- A failure that does not disable the previews by itself. -/
def DrafterErrorClass.isRetryable : DrafterErrorClass → Bool
  | .retryAfter _ _ | .transient true => true
  | _ => false

/-- The fields of a worker that only outcomes of previews change. -/
structure Backoff where
  config : DraftConfig
  retryDelay : Nat
  consecutivePreviewFailures : Nat
  previewDisabled : Bool
  deriving DecidableEq

/-- What an observer notes of the previews. -/
inductive Outcome where
  | acked
  /-- `handle_preview_error` is called in this state -/
  | failed (b : Backoff) (cls : DrafterErrorClass)
  /-- the next segment begins -/
  | reopened
  deriving DecidableEq

def Worker.backoff (w : Worker B) : Backoff :=
  ⟨w.config, w.retryDelay, w.consecutivePreviewFailures, w.previewDisabled⟩

namespace Backoff

variable (b : Backoff)

/-- One more failure stays below the limit. -/
def belowLimit : Bool :=
  b.config.maxConsecutivePreviewFailures.all (min (b.consecutivePreviewFailures + 1) u32Max < ·)

/-- A failure of the class is retried, and the delay doubled.
mirrors machine.rs:776, 782-787 -/
def doubles (cls : DrafterErrorClass) : Bool := cls = .transient true && b.belowLimit

/-- mirrors machine.rs:790 -/
def nextRetryDelay : Option Nat := (durationMul b.retryDelay 2).map (min · b.config.retryMax)

/-- The fields once a preview has ended. -/
def after : PreviewEnd → Backoff
  | .acked => { b with retryDelay := b.config.retryInitial, consecutivePreviewFailures := 0 }
  | .failed d =>
    { b with
      retryDelay := if b.doubles d.cls then min (b.retryDelay * 2) b.config.retryMax else b.retryDelay
      consecutivePreviewFailures := min (b.consecutivePreviewFailures + 1) u32Max
      previewDisabled := b.previewDisabled || !(d.cls.isRetryAfter || b.doubles d.cls) }

/-- The fields in a new segment. -/
def reset : Backoff :=
  { b with retryDelay := b.config.retryInitial, consecutivePreviewFailures := 0, previewDisabled := false }

end Backoff

theorem Worker.handlePreviewEnd_backoff (w : Worker B) (source : SourceState A) (revision : DraftRevision)
    (how : PreviewEnd) (now : Nat) : (w.handlePreviewEnd source revision how now).1.backoff = w.backoff.after how := by
  cases how with
  | acked => rfl
  | failed d =>
    obtain ⟨cls, delivery⟩ := d
    show (w.handlePreviewError cls now).1.backoff = w.backoff.after (.failed ⟨cls, delivery⟩)
    cases cls with
    | transient safe =>
      cases safe with
      | true =>
        have hb : w.backoff.belowLimit =
          w.config.maxConsecutivePreviewFailures.all (min (w.consecutivePreviewFailures + 1) u32Max < ·) := rfl
        unfold handlePreviewError
        simp only [← hb]
        cases hbelow : w.backoff.belowLimit with
        | true =>
          have hd : w.backoff.doubles (.transient true) = true := by simp [Backoff.doubles, hbelow]
          simp only [Backoff.after, hd, if_true, Bool.or_true, Bool.not_true, Bool.or_false]
          rfl
        | false =>
          have hd : w.backoff.doubles (.transient true) = false := by simp [Backoff.doubles, hbelow]
          simp only [Backoff.after, hd, DrafterErrorClass.isRetryAfter, Bool.or_false, Bool.not_false, Bool.or_true]
          rfl
      | false => simp [Backoff.after, Backoff.doubles, handlePreviewError, backoff, completeFlushes,
          DrafterErrorClass.isRetryAfter]
    | _ => simp [Backoff.after, Backoff.doubles, handlePreviewError, backoff, completeFlushes,
          DrafterErrorClass.isRetryAfter]

/-! ## Failures in a row -/

/-- The failures since the last acknowledged preview of the segment, newest first. -/
def streak : List Outcome → List DrafterErrorClass
  | .failed _ cls :: h => cls :: streak h
  | _ => []

/-- The transient failures of a streak that stay below the limit, and are retried. -/
def retried (limit : Option Nat) : List DrafterErrorClass → Nat
  | [] => 0
  | cls :: earlier =>
    retried limit earlier + if cls = .transient true ∧ limit.all (earlier.length + 1 < ·) then 1 else 0

namespace Backoff

/-- The fields are what the outcomes `h` make them. -/
structure Sound (b : Backoff) (h : List Outcome) : Prop where
  /-- no product was too long for a `Duration` -/
  computed : ∀ b' cls, .failed b' cls ∈ h → b'.doubles cls = true → b'.nextRetryDelay ≠ none
  range : b.config.retryInitial ≤ b.retryDelay ∧ b.retryDelay ≤ b.config.retryMax
  delay : b.retryDelay =
    min (b.config.retryInitial * 2 ^ retried b.config.maxConsecutivePreviewFailures (streak h)) b.config.retryMax
  disabled : b.previewDisabled = true ↔
    (∃ max, b.config.maxConsecutivePreviewFailures = some max ∧ max ≤ (streak h).length) ∨
      ∃ cls ∈ streak h, cls.isRetryable = false

/-- A failure of the class is dealt with as the settings promise. -/
def Bears (b : Backoff) : DrafterErrorClass → Prop
  | .retryAfter _ _ => b.belowLimit = true
  | .transient true => b.belowLimit = true → b.retryDelay * 2 ≤ durationMax
  | _ => True

instance (b : Backoff) (cls : DrafterErrorClass) : Decidable (b.Bears cls) := by
  unfold Bears
  split <;> infer_instance

/-- The limit fits its type and allows a failure. -/
def Limited (b : Backoff) : Prop :=
  ∀ max, b.config.maxConsecutivePreviewFailures = some max → 0 < max ∧ max ≤ u32Max

/-- Beside the fields, the counter. -/
structure Follows (b : Backoff) (h : List Outcome) : Prop where
  sound : b.Sound h
  count : b.consecutivePreviewFailures = min (streak h).length u32Max

variable {b : Backoff} {h : List Outcome}

theorem belowLimit_eq (hl : b.Limited) (hc : b.consecutivePreviewFailures = min (streak h).length u32Max) :
    b.belowLimit = b.config.maxConsecutivePreviewFailures.all ((streak h).length + 1 < ·) := by
  unfold belowLimit
  cases hm : b.config.maxConsecutivePreviewFailures with
  | none => rfl
  | some max =>
    have := (hl max hm).2
    simp only [Option.all_some, decide_eq_decide, hc]
    omega

theorem nextRetryDelay_ne_none : b.nextRetryDelay ≠ none ↔ b.retryDelay * 2 ≤ durationMax := by
  unfold nextRetryDelay durationMul
  split <;> simp_all

/-- The delay, doubled once more. -/
theorem min_double (initial n max : Nat) : min (min (initial * 2 ^ n) max * 2) max = min (initial * 2 ^ (n + 1)) max := by
  rw [Nat.pow_succ, ← Nat.mul_assoc]
  omega

theorem Follows.start {config : DraftConfig} (hl : (Backoff.mk config config.retryInitial 0 false).Limited)
    (hrange : config.retryInitial ≤ config.retryMax) :
    (Backoff.mk config config.retryInitial 0 false).Follows [] := by
  refine ⟨⟨fun _ _ hm => (by cases hm), ⟨Nat.le_refl _, hrange⟩, ?_, ?_⟩, by simp [streak]⟩
  · simp [streak, retried, hrange]
  · constructor
    · intro h
      cases h
    · rintro (⟨max, hm, hle⟩ | ⟨_, hm, -⟩)
      · exact absurd (hl max hm).1 (Nat.not_lt.2 hle)
      · cases hm

/-- An acknowledged preview, or a new segment, begins a new streak. -/
theorem Follows.afresh (hi : b.Follows h) (hl : b.Limited) {o : Outcome} (ho : streak (o :: h) = [])
    (hfailed : ∀ b' cls, o ≠ .failed b' cls) {b' : Backoff} (hconfig : b'.config = b.config)
    (hdelay : b'.retryDelay = b.config.retryInitial) (hcount : b'.consecutivePreviewFailures = 0)
    (henabled : b'.previewDisabled = false) : b'.Follows (o :: h) := by
  have hrange : b.config.retryInitial ≤ b.config.retryMax := Nat.le_trans hi.sound.range.1 hi.sound.range.2
  refine ⟨⟨fun b₁ cls hm => ?_, ?_, ?_, ?_⟩, by rw [ho, hcount]; rfl⟩
  · rcases List.mem_cons.1 hm with hm | hm
    · exact absurd hm.symm (hfailed b₁ cls)
    · exact hi.sound.computed b₁ cls hm
  · rw [hconfig, hdelay]
    exact ⟨Nat.le_refl _, hrange⟩
  · rw [ho, hconfig, hdelay]
    simp [retried, hrange]
  · rw [ho, henabled, hconfig]
    constructor
    · intro h
      cases h
    · rintro (⟨max, hm, hle⟩ | ⟨_, hm, -⟩)
      · exact absurd (hl max hm).1 (Nat.not_lt.2 hle)
      · cases hm

/-- The failures so far have not disabled the previews. -/
theorem Follows.enabled (hi : b.Follows h) (he : b.previewDisabled = false) :
    (∀ max, b.config.maxConsecutivePreviewFailures = some max → (streak h).length < max) ∧
      ∀ cls ∈ streak h, cls.isRetryable = true := by
  have hn := fun hd => Bool.false_ne_true (he ▸ hi.sound.disabled.2 hd)
  refine ⟨fun max hm => Nat.lt_of_not_le fun hle => hn (.inl ⟨max, hm, hle⟩), fun cls hcls => ?_⟩
  cases hr : cls.isRetryable with
  | true => rfl
  | false => exact absurd (.inr ⟨cls, hcls, hr⟩) hn

theorem doubles_iff (cls : DrafterErrorClass) : b.doubles cls = true ↔ cls = .transient true ∧ b.belowLimit = true := by
  simp [doubles]

/-- What one more failure means for the limit and for the classes. -/
theorem Follows.ends_iff (hi : b.Follows h) (he : b.previewDisabled = false) (cls : DrafterErrorClass) :
    ((∃ max, b.config.maxConsecutivePreviewFailures = some max ∧ max ≤ (streak (.failed b cls :: h)).length) ∨
      ∃ cls' ∈ streak (.failed b cls :: h), cls'.isRetryable = false) ↔
      b.config.maxConsecutivePreviewFailures.all ((streak h).length + 1 < ·) = false ∨ cls.isRetryable = false := by
  obtain ⟨-, hretryable⟩ := hi.enabled he
  refine or_congr ?_ ?_
  · cases b.config.maxConsecutivePreviewFailures <;> simp [streak]
  · constructor
    · rintro ⟨cls', hm, hr⟩
      rcases List.mem_cons.1 hm with rfl | hm
      · exact hr
      · rw [hretryable cls' hm] at hr
        cases hr
    · exact fun hr => ⟨cls, List.mem_cons_self, hr⟩

/-- A failure is dealt with as promised iff the state bears it. -/
theorem Follows.failed (hi : b.Follows h) (hl : b.Limited) (he : b.previewDisabled = false)
    (d : DrafterErrorDisposition) :
    (b.after (.failed d)).Sound (.failed b d.cls :: h) ↔ b.Bears d.cls := by
  obtain ⟨cls, delivery⟩ := d
  have hbelow := belowLimit_eq hl hi.count
  have hends := hi.ends_iff he cls
  rw [← hbelow] at hends
  constructor
  · intro hs
    have hdisabled := hs.disabled.trans hends
    cases cls with
    | retryAfter delay scope =>
      show b.belowLimit = true
      cases hb : b.belowLimit with
      | true => rfl
      | false =>
        have hd := hdisabled.2 (.inl hb)
        simp [after, he, DrafterErrorClass.isRetryAfter] at hd
    | transient safe =>
      cases safe with
      | true =>
        intro hb
        exact nextRetryDelay_ne_none.1 (hs.computed b _ List.mem_cons_self ((b.doubles_iff _).2 ⟨rfl, hb⟩))
      | false => trivial
    | _ => trivial
  · intro hb
    obtain ⟨hlow, hhigh⟩ := hi.sound.range
    have hlast : retried b.config.maxConsecutivePreviewFailures (streak (.failed b cls :: h)) =
        retried b.config.maxConsecutivePreviewFailures (streak h) + if b.doubles cls then 1 else 0 := by
      simp [streak, retried, doubles, hbelow]
    refine ⟨fun b' cls' hm hd => ?_, ?_, ?_, Iff.trans ?_ hends.symm⟩
    · rcases List.mem_cons.1 hm with hm | hm
      · cases hm
        obtain ⟨rfl, hlt⟩ := (b.doubles_iff cls).1 hd
        exact nextRetryDelay_ne_none.2 (hb hlt)
      · exact hi.sound.computed b' cls' hm hd
    · simp only [after]
      split <;> omega
    · show _ = min (b.config.retryInitial * 2 ^ retried b.config.maxConsecutivePreviewFailures _) b.config.retryMax
      rw [hlast]
      simp only [after]
      split
      · rw [← min_double, ← hi.sound.delay]
      · exact hi.sound.delay
    · cases cls with
      | retryAfter delay scope =>
        have hb : b.belowLimit = true := hb
        simp [after, he, hb, DrafterErrorClass.isRetryAfter, DrafterErrorClass.isRetryable]
      | transient safe =>
        cases safe <;> simp [after, he, doubles, DrafterErrorClass.isRetryAfter, DrafterErrorClass.isRetryable]
      | _ => simp [after, he, doubles, DrafterErrorClass.isRetryAfter, DrafterErrorClass.isRetryable]

theorem Follows.failed_follows (hi : b.Follows h) (hl : b.Limited) (he : b.previewDisabled = false)
    {d : DrafterErrorDisposition} (hb : b.Bears d.cls) : (b.after (.failed d)).Follows (.failed b d.cls :: h) := by
  refine ⟨(hi.failed hl he d).2 hb, ?_⟩
  show min (b.consecutivePreviewFailures + 1) u32Max = min ((streak h).length + 1) u32Max
  rw [hi.count]
  omega

end Backoff

/-! ## The drafter -/

namespace Sys

variable (s : Sys A B)

/-- The end of a preview that the step deals with.
mirrors machine.rs:661-768 -/
def ending : Action A B → Option PreviewEnd
  | .work (.reply r) =>
    match s.phase with
    | .updating p snapshot false _ => s.worker.backend.map fun b =>
      let result := B.update b snapshot.preview r
      s.worker.previewEnd result.1 p.operation result.2
    | _ => none
  | .work (.cut _) =>
    match s.phase with
    | .updating _ _ false _ => some (.failed s.worker.timeoutDisposition)
    | _ => none
  | .work .settled =>
    match s.phase with
    | .settling _ how => some how
    | _ => none
  | _ => none

/-- What is noted of the step `a`. -/
def outcomes (a : Action A B) : List Outcome :=
  match s.ending a with
  | some .acked => [.acked]
  | some (.failed d) => [.failed s.worker.backoff d.cls]
  | none => if s.reopens a then [.reopened] else []

/-- The failure that the step deals with, if any, is one the worker bears. -/
def Bears (a : Action A B) : Prop :=
  match s.ending a with
  | some (.failed d) => s.worker.backoff.Bears d.cls
  | _ => True

instance (s : Sys A B) (a : Action A B) : Decidable (s.Bears a) := by
  unfold Bears
  split <;> infer_instance

variable {s} {s' : Sys A B} {a : Action A B}

/-- What a step does to the fields. -/
inductive Backs (s : Sys A B) (a : Action A B) (s' : Sys A B) : Prop
  | same : s.ending a = none → s.reopens a = false → s'.worker.backoff = s.worker.backoff →
      (s'.phase.previews = true → s.phase.previews = true ∨ s.worker.previewDisabled = false) → Backs s a s'
  | ended {how} : s.ending a = some how → s.phase.previews = true → s'.worker.backoff = s.worker.backoff.after how →
      s'.phase.previews = false → Backs s a s'
  | reopened : s.ending a = none → s.reopens a = true → s'.worker.backoff = s.worker.backoff.reset →
      s'.phase.previews = false → Backs s a s'

theorem endPreview_backs {p : PreviewAttempt} {snapshot : PreviewSnapshot P} {kept : Bool} {since : Nat}
    {how : PreviewEnd} {b b' : B.State} (hp : s.phase = .updating p snapshot kept since)
    (he : s.ending a = if kept then none else some how) (hr : s.reopens a = false) :
    Backs s a (s.endPreview b b' snapshot kept how) := by
  unfold endPreview
  cases kept with
  | true => exact .same he hr rfl fun _ => .inl (by rw [hp]; rfl)
  | false =>
    simp only [Bool.false_eq_true, if_false]
    rw [settlePreview_eq]
    exact .ended he (by rw [hp]; rfl) (Worker.handlePreviewEnd_backoff _ _ _ _ _) rfl

theorem ending_none (hp : s.phase.previews = false) (a : Action A B) : s.ending a = none := by
  unfold ending
  split
  · split
    · rename_i hu
      rw [hu] at hp
      cases hp
    · rfl
  · split
    · rename_i hu
      rw [hu] at hp
      cases hp
    · rfl
  · split
    · rename_i hu
      rw [hu] at hp
      cases hp
    · rfl
  · rfl

theorem reopens_previews (hp : s.phase.previews = true) (a : Action A B) : s.reopens a = false := by
  rw [← Bool.not_eq_true, reopens_iff]
  rintro ⟨-, t, output, h, -⟩
  rw [h] at hp
  cases hp

/-- A step outside of the previews that does not begin a segment. -/
theorem Backs.quiet (hp : s.phase.previews = false)
    (hr : ∀ t output, s.phase = .terminal t (.concluding (.success output)) → t.kind = .commit → a ≠ .work .go)
    (hb : s'.worker.backoff = s.worker.backoff) (hp' : s'.phase.previews = false) : Backs s a s' := by
  refine .same (ending_none hp a) ?_ hb fun h => absurd (hp' ▸ h) Bool.false_ne_true
  rw [← Bool.not_eq_true, reopens_iff]
  rintro ⟨ha, t, output, hph, hk⟩
  exact hr t output hph hk ha

theorem Step.backs (h : Step s a s') : Backs s a s' := by
  cases h with
  | updated hp hb =>
    rename_i kept since r b
    refine endPreview_backs hp ?_ rfl
    cases kept <;> simp [ending, hp, hb]
  | timedOut hp hb =>
    rename_i kept since x b
    refine endPreview_backs hp ?_ rfl
    cases kept <;> simp [ending, hp]
  | settled hp =>
    rw [settlePreview_eq]
    exact .ended (by simp only [ending, hp]) (by rw [hp]; rfl) (Worker.handlePreviewEnd_backoff _ _ _ _ _) rfl
  | reopened b hp hk => exact .reopened rfl (reopens_iff.2 ⟨rfl, _, _, hp, hk⟩) rfl rfl
  | idle hp hr =>
    rcases Worker.runDuePreview_idle hr with ⟨rfl, -⟩ | ⟨rfl, -⟩ <;> exact .same rfl rfl rfl fun h => by cases h
  | skipped hp hr =>
    obtain ⟨_, _, _, -, -, -, -, -, -, -, hw⟩ := Worker.runDuePreview_skipped hr
    cases hw
    exact .same rfl rfl rfl fun h => by cases h
  | acquire hp hr => exact .same rfl rfl rfl fun _ => .inr (Worker.runDuePreview_acquire hr).2.1
  | close _ ha =>
    rcases ha with ⟨rfl, -⟩ | ⟨_, rfl, -⟩ <;> exact .same rfl rfl rfl .inl
  | timer hp => exact .quiet (by rw [hp]; rfl) (fun t output h => by rw [hp] at h; cases h) rfl rfl
  | checked hp =>
    have hprev : s.phase.previews = true := by rw [hp]; rfl
    exact .same rfl (reopens_previews hprev _) rfl fun _ => .inl hprev
  | notRunning hp => exact .same rfl (reopens_previews (by rw [hp]; rfl) _) rfl fun h => by cases h
  | granted hp | noPreview hp | noop hp | started _ _ hp => exact .same rfl rfl rfl fun _ => .inl (by rw [hp]; rfl)
  | refused hp => exact .same rfl rfl rfl fun h => by cases h
  | discardedNotRunning hp | discardedNoPreview hp | discardedNoop hp =>
    exact .quiet (by rw [hp]; rfl) (fun t output h => by rw [hp] at h; cases h) rfl rfl
  | inTerminal t' stage' b evs hp hb hm =>
    refine .quiet (by rw [hp]; rfl) (fun t output h => ?_) rfl rfl
    rw [hp] at h
    cases h
    cases hm <;> simp_all
  | cancelled hp _ _ hs =>
    refine .quiet (by rw [hp]; rfl) (fun t output h => ?_) rfl rfl
    rw [hp] at h
    cases h
    exact absurd rfl (hs _)
  | keptGoing b hp => exact .quiet (by rw [hp]; rfl) (fun t output h => by rw [hp] at h; cases h) rfl rfl
  | gaveUp b hp hk hr =>
    refine .quiet (by rw [hp]; rfl) (fun t output h => ?_) rfl rfl
    rw [hp] at h
    cases h
    cases hr
  | finished hp hk =>
    refine .quiet (by rw [hp]; rfl) (fun t output h hc => ?_) rfl rfl
    rw [hp] at h
    cases h
    cases hk.symm.trans hc
  | abortAdmitted b hp => exact .quiet (by rw [hp]; rfl) (fun t output h => by rw [hp] at h; cases h) rfl rfl
  | aborted _ hp =>
    refine .quiet ?_ (fun t output h => ?_) rfl rfl
    · rcases hp with hp | hp <;> rw [hp] <;> rfl
    · rcases hp with hp | hp <;> rw [hp] at h <;> cases h
  | abortTaken until' phase backend hp _ _ hph =>
    rcases hph with rfl | rfl <;> exact .same rfl rfl rfl fun h => by cases h
  | woken | channelClosed | flushAnswered | flushRegistered | taken | orphaned | kill =>
    exact .same rfl rfl rfl fun h => by cases h
  | _ => exact .same rfl rfl rfl .inl

end Sys

/-- The drafter and the observer. -/
def watchedDrafter (A : DraftAccumulator P) (B : DrafterBackend P) :
    Core.Machine (Sys A B) (Action A B) (List Outcome) :=
  (drafter A B).observing fun s a _ => s.outcomes a

/-- What every run keeps: a preview is under way only while previews are enabled. -/
structure Sys.BacksOff (s : Sys A B) (h : List Outcome) : Prop where
  follows : s.worker.backoff.Follows h
  enabled : s.phase.previews = true → s.worker.previewDisabled = false

/-- A step keeps it that meets the condition, and no other step is sound. -/
theorem Sys.BacksOff.step {s s' : Sys A B} {a : Action A B} {h : List Outcome} (hi : s.BacksOff h)
    (hl : s.worker.backoff.Limited) (hs : Step s a s') :
    (s'.worker.backoff.Sound ((s.outcomes a).reverse ++ h) ↔ s.Bears a) ∧
      (s.Bears a → s'.BacksOff ((s.outcomes a).reverse ++ h)) := by
  cases hs.backs with
  | same he hr hb hp =>
    have ho : s.outcomes a = [] := by simp [outcomes, he, hr]
    have hbears : s.Bears a := by simp [Bears, he]
    have hdisabled : s'.worker.previewDisabled = s.worker.previewDisabled := congrArg Backoff.previewDisabled hb
    rw [ho, hb]
    refine ⟨iff_of_true hi.follows.sound hbears, fun _ => ⟨hb ▸ hi.follows, fun hp' => ?_⟩⟩
    rw [hdisabled]
    exact (hp hp').elim hi.enabled id
  | reopened he hr hb hp =>
    have ho : s.outcomes a = [.reopened] := by simp [outcomes, he, hr]
    have hbears : s.Bears a := by simp [Bears, he]
    have hf : s'.worker.backoff.Follows (.reopened :: h) := by
      rw [hb]
      exact hi.follows.afresh hl rfl (fun _ _ h => by cases h) rfl rfl rfl rfl
    rw [ho]
    exact ⟨iff_of_true hf.sound hbears, fun _ => ⟨hf, fun hp' => absurd (hp ▸ hp') Bool.false_ne_true⟩⟩
  | @ended how he hp hb hp' =>
    have hoff := hi.enabled hp
    have hnext : ∀ h', s'.worker.backoff.Follows h' → s'.BacksOff h' :=
      fun h' hf => ⟨hf, fun h => absurd (hp' ▸ h) Bool.false_ne_true⟩
    cases how with
    | acked =>
      have ho : s.outcomes a = [.acked] := by simp [outcomes, he]
      have hbears : s.Bears a := by simp [Bears, he]
      have hf : s'.worker.backoff.Follows (.acked :: h) := by
        rw [hb]
        exact hi.follows.afresh hl rfl (fun _ _ h => by cases h) rfl rfl rfl hoff
      rw [ho]
      exact ⟨iff_of_true hf.sound hbears, fun _ => hnext _ hf⟩
    | failed d =>
      have ho : s.outcomes a = [.failed s.worker.backoff d.cls] := by simp [outcomes, he]
      have hbears : s.Bears a ↔ s.worker.backoff.Bears d.cls := by simp [Bears, he]
      rw [ho, hbears, hb]
      exact ⟨hi.follows.failed hl hoff d, fun hd => hnext _ (hb ▸ hi.follows.failed_follows hl hoff hd)⟩

theorem Sys.Step.limited {s s' : Sys A B} {a : Action A B} (hs : Step s a s') (hl : s'.worker.backoff.Limited) :
    s.worker.backoff.Limited := by
  have hc : s'.worker.backoff.config = s.worker.backoff.config := by
    cases hs.backs with
    | same _ _ hb => rw [hb]
    | reopened _ _ hb =>
      rw [hb]
      rfl
    | @ended how _ _ hb =>
      rw [hb]
      cases how <;> rfl
  unfold Backoff.Limited at hl
  rwa [hc] at hl

theorem backsOff_of_run {τ : List (List Outcome)} {s : Sys A B} (hr : (watchedDrafter A B).Run Sys.Bears τ s)
    (hl : s.worker.backoff.Limited) : s.BacksOff (Core.Machine.history τ) := by
  refine (Core.Machine.Run.induct_observing
    (I := fun τ s => s.worker.backoff.Limited → Sys.BacksOff s (Core.Machine.history τ)) ?_ ?_ hr).2 hl
  · rintro s ⟨accumulator, b, uses, config, now, hv, rfl⟩ hl
    exact ⟨.start hl (DraftConfig.retryRange hv), fun hp => by cases hp⟩
  · intro τ τ' s a s' e _ hi ho hs hl
    simp only [drafter, Option.map_eq_some_iff, Prod.mk.injEq] at hs
    obtain ⟨_, hs, rfl, -⟩ := hs
    have hstep := Sys.step_cases hs
    have hlimited := hstep.limited hl
    rw [Core.Machine.history_cons]
    exact ((hi hlimited).step hlimited hstep).2 ho

/-- Two previews; the second has to edit the message of the first. -/
def editedTwice (first second : Replies) : List (Action (replacePreview String) (editInPlaceBackend String.length)) :=
  askingSteps "a" ++ showingSteps first ++ askingSteps "ab" ++ showingSteps second

/-- A drafter with the settings `config`. -/
def configured (config : DraftConfig) : Sys (replacePreview String) (editInPlaceBackend String.length) :=
  Sys.spawn (none : Option String) EditInPlace.new false config 0

/-- `2 ^ 63` seconds: the double is no `Duration`. -/
def longDelay : DraftConfig :=
  { DraftConfig.default with retryInitial := fromSecs (2 ^ 63), retryMax := durationMax }

def oneFailure : DraftConfig := { DraftConfig.default with maxConsecutivePreviewFailures := some 1 }

theorem configured_spawned {config : DraftConfig}
    (h : config.validate ((editInPlaceBackend (String.length)).capabilities EditInPlace.new) = .ok ()) :
    (configured config).Spawned :=
  ⟨_, _, _, _, _, h, rfl⟩

/-- A delay is to be doubled that has no double. -/
def Outcome.overflows : Outcome → Bool
  | .failed b cls => b.doubles cls && b.nextRetryDelay.isNone
  | _ => false

theorem Backoff.Sound.no_overflow {b : Backoff} {h : List Outcome} (hs : b.Sound h) : ∀ o ∈ h, o.overflows = false := by
  intro o ho
  cases o with
  | failed b' cls =>
    cases hd : b'.doubles cls with
    | false => simp [Outcome.overflows, hd]
    | true =>
      have := hs.computed b' cls ho hd
      cases hn : b'.nextRetryDelay with
      | none => exact absurd hn this
      | some d => simp [Outcome.overflows, hn]
  | _ => rfl

end Teloxide.Drafter
