import Teloxide.Adaptors.Throttle.System

/-!
# Deferred events of the throttling adaptor

A request that takes the last slot during a freeze sets `deferred_full` and calls
`ensure_saturation_monitor`; a monitor swaps `deferred_full` before it looks for a free
slot. In between a monitor is past its look, and `monitor_active` is still set.

Results:
* `never_stranded`: if no request sets `deferred_full` while a monitor is past its look,
  then a deferred event has a monitor that will examine it, or a request that starts one;
  and in every run two calls of `on_queue_full` are more than four seconds apart.
* `stranded`: an event that is deferred while a monitor is past its look stays behind.
-/
namespace Teloxide.Adaptors.Throttle

open Teloxide.Core

namespace Phase

/-- It examined `deferred_full`, and may return without another look. -/
def pastLook : Phase → Bool
  | .probing | .abandoning | .reporting | .acquiring | .clearing => true
  | _ => false

/-- It will examine `deferred_full` before it returns. -/
def beforeLook : Phase → Bool
  | .looping | .timed _ | .sleeping _ | .woken | .examining | .refiring => true
  | _ => false

/-- `monitor_active` is set on its behalf. -/
def holdsFlag (p : Phase) : Bool := p.beforeLook || p.pastLook

end Phase

/-! ## The property and its condition -/

namespace Sys

/-- On every path from here, a return of the monitor comes after another look. -/
def WillExamine (s : Sys) (i : Nat) : Prop :=
  ∀ τ s', throttle.Path s τ s' → ∀ τ₂ τ₁, τ = τ₂ ++ .exited i :: τ₁ → .examined i ∈ τ₁

/-- A monitor is running that will examine the deferred event, or a request starts one. -/
def NeverStranded (s : Sys) : Prop :=
  s.deferredFull = true → s.alive = true →
    (∃ i phase, s.monitors[i]? = some phase ∧ phase ≠ .gone ∧ s.WillExamine i) ∨
    (.ensuring ∈ s.requests ∧ s.monitorActive = false) ∨ .spawning ∈ s.requests

/-- No request sets `deferred_full` while a monitor is past its look. -/
def Seen (s : Sys) : Action → Prop
  | .request i _ => s.requests[i]? = some .frozen → ∀ phase ∈ s.monitors, phase.pastLook = false
  | _ => True

instance (s : Sys) : (a : Action) → Decidable (s.Seen a)
  | .request i _ =>
    inferInstanceAs (Decidable (s.requests[i]? = some .frozen → ∀ phase ∈ s.monitors, phase.pastLook = false))
  | .tick _ | .die | .send | .cancel _ | .monitor .. => inferInstanceAs (Decidable True)

end Sys

def Event.invokedAt : Event → Option Nat
  | .invoked now _ => some now
  | _ => none

/-- The instants at which `on_queue_full` was called, newest first. -/
def invocations (τ : List Event) : List Nat := τ.filterMap Event.invokedAt

def Spaced (τ : List Event) : Prop := (invocations τ).Pairwise fun newer older => older + queueFullDelay < newer

/-! ## What a step can do -/

variable {s s' : Sys} {a : Action} {e : Event}

@[simp] theorem setRequest_monitors (i : Nat) (stage : Stage) : (s.setRequest i stage).monitors = s.monitors := rfl
@[simp] theorem setRequest_requests (i : Nat) (stage : Stage) :
    (s.setRequest i stage).requests = s.requests.set i stage := rfl
@[simp] theorem setRequest_deferredFull (i : Nat) (stage : Stage) :
    (s.setRequest i stage).deferredFull = s.deferredFull := rfl
@[simp] theorem setRequest_monitorActive (i : Nat) (stage : Stage) :
    (s.setRequest i stage).monitorActive = s.monitorActive := rfl
@[simp] theorem setMonitor_monitors (i : Nat) (phase : Phase) :
    (s.setMonitor i phase).monitors = s.monitors.set i phase := rfl
@[simp] theorem setMonitor_requests (i : Nat) (phase : Phase) : (s.setMonitor i phase).requests = s.requests := rfl
@[simp] theorem setMonitor_deferredFull (i : Nat) (phase : Phase) :
    (s.setMonitor i phase).deferredFull = s.deferredFull := rfl
@[simp] theorem setMonitor_monitorActive (i : Nat) (phase : Phase) :
    (s.setMonitor i phase).monitorActive = s.monitorActive := rfl

/-- What is not a matter of slots, instants or freezes is as before. -/
structure Same (s s' : Sys) : Prop where
  deferredFull : s'.deferredFull = s.deferredFull
  monitorActive : s'.monitorActive = s.monitorActive
  requests : s'.requests = s.requests
  monitors : s'.monitors = s.monitors

theorem notifyQueueFull_same (s : Sys) : Same s s.notifyQueueFull.1 := by
  unfold Sys.notifyQueueFull
  split
  · exact ⟨rfl, rfl, rfl, rfl⟩
  · exact ⟨rfl, rfl, rfl, rfl⟩

theorem recordFreezeAt_same (s : Sys) (observedAt duration : Nat) : Same s (s.recordFreezeAt observedAt duration) := by
  unfold Sys.recordFreezeAt
  dsimp only
  split
  · exact ⟨rfl, rfl, rfl, rfl⟩
  · exact ⟨rfl, rfl, rfl, rfl⟩

/-- The steps as far as `deferred_full` and `monitor_active` are concerned, if an event is
deferred only while no monitor is past its look. -/
inductive Effect (s s' : Sys) : Prop
  | same : Same s s' → Effect s s'
  | sent : s'.requests = s.requests ++ [.start] → s'.monitors = s.monitors → s'.deferredFull = s.deferredFull →
      s'.monitorActive = s.monitorActive → Effect s s'
  /-- a request goes on, outside of `ensure_saturation_monitor` -/
  | request (i : Nat) (stage stage' : Stage) : s.requests[i]? = some stage → s'.requests = s.requests.set i stage' →
      stage ≠ .ensuring → stage ≠ .spawning → stage' ≠ .spawning → s'.monitors = s.monitors →
      s'.monitorActive = s.monitorActive → (s'.deferredFull = true → s.deferredFull = true) → Effect s s'
  | deferred (i : Nat) : s.requests[i]? = some .frozen → s'.requests = s.requests.set i .ensuring →
      s'.monitors = s.monitors → s'.monitorActive = s.monitorActive →
      (∀ phase ∈ s.monitors, phase.pastLook = false) → Effect s s'
  /-- the call finds a monitor, or starts one -/
  | ensured (i : Nat) : s.requests[i]? = some .ensuring →
      s'.requests = s.requests.set i (if s.monitorActive then .queued else .spawning) →
      s'.monitors = s.monitors → s'.monitorActive = true → s'.deferredFull = s.deferredFull → Effect s s'
  | spawned (i : Nat) : s.requests[i]? = some .spawning → s'.requests = s.requests.set i .queued →
      s'.monitors = s.monitors ++ [.looping] → s'.monitorActive = s.monitorActive →
      s'.deferredFull = s.deferredFull → Effect s s'
  /-- a monitor goes on, and keeps what it has of the flag -/
  | monitor (i : Nat) (phase phase' : Phase) : s.monitors[i]? = some phase → s'.monitors = s.monitors.set i phase' →
      phase'.holdsFlag = phase.holdsFlag → (phase'.pastLook = true → phase.pastLook = true) →
      s'.requests = s.requests → s'.monitorActive = s.monitorActive → s'.deferredFull = s.deferredFull → Effect s s'
  | examined (i : Nat) (phase' : Phase) : s.monitors[i]? = some .examining → s'.monitors = s.monitors.set i phase' →
      phase'.pastLook = true → s'.requests = s.requests → s'.monitorActive = s.monitorActive →
      s'.deferredFull = false → Effect s s'
  | cleared (i : Nat) (phase phase' : Phase) : s.monitors[i]? = some phase → s'.monitors = s.monitors.set i phase' →
      phase.pastLook = true → phase'.holdsFlag = false → s'.requests = s.requests → s'.monitorActive = false →
      s'.deferredFull = s.deferredFull → Effect s s'

theorem Same.refl (s : Sys) : Same s s := ⟨rfl, rfl, rfl, rfl⟩

theorem Effect.goes {t : Sys} {i : Nat} {stage stage' : Stage} (hi : s.requests[i]? = some stage) (ht : Same s t)
    (hensuring : stage ≠ .ensuring) (hspawning : stage ≠ .spawning) (hspawning' : stage' ≠ .spawning) :
    Effect s (t.setRequest i stage') :=
  .request i stage stage' hi (by rw [setRequest_requests, ht.requests]) hensuring hspawning hspawning'
    (by rw [setRequest_monitors, ht.monitors]) (by rw [setRequest_monitorActive, ht.monitorActive])
    (by rw [setRequest_deferredFull, ht.deferredFull]; exact id)

theorem Effect.turns {t : Sys} {i : Nat} {phase phase' : Phase} (hi : s.monitors[i]? = some phase) (ht : Same s t)
    (hholds : phase'.holdsFlag = phase.holdsFlag) (hpast : phase'.pastLook = true → phase.pastLook = true) :
    Effect s (t.setMonitor i phase') :=
  .monitor i phase phase' hi (by rw [setMonitor_monitors, ht.monitors]) hholds hpast
    (by rw [setMonitor_requests, ht.requests]) (by rw [setMonitor_monitorActive, ht.monitorActive])
    (by rw [setMonitor_deferredFull, ht.deferredFull])

theorem requestStep_effect {i : Nat} {answer : Answer} {stage : Stage} (hi : s.requests[i]? = some stage)
    (hseen : stage = .frozen → ∀ phase ∈ s.monitors, phase.pastLook = false)
    (h : s.requestStep i answer stage = some (s', e)) : Effect s s' := by
  cases stage with
  | start =>
    simp only [Sys.requestStep] at h
    split at h
    · cases h
      exact .goes (t := { s with pendingSlots := _ }) hi ⟨rfl, rfl, rfl, rfl⟩ (by decide) (by decide) (by decide)
    · cases h
      exact .goes (t := { s with pendingSlots := _ }) hi ⟨rfl, rfl, rfl, rfl⟩ (by decide) (by decide) (by decide)
  | acquiring =>
    simp only [Sys.requestStep] at h
    split at h
    · cases h
      exact .goes (t := { s with pendingSlots := _ }) hi ⟨rfl, rfl, rfl, rfl⟩ (by decide) (by decide) (by decide)
    · cases h
  | admitted =>
    cases h
    exact .goes hi (.refl s) (by decide) (by decide) (by simp)
  | enqueuing last =>
    simp only [Sys.requestStep] at h
    split at h
    · cases h
      exact .goes hi (.refl s) (by simp) (by simp) (by cases last <;> decide)
    · cases h
      exact .same (.refl s)
    · cases h
      exact .goes hi (.refl s) (by simp) (by simp) (by decide)
    · cases h
  | accepted =>
    cases h
    exact .goes hi (.refl s) (by decide) (by decide) (by split <;> decide)
  | thawed =>
    cases h
    exact .goes hi (notifyQueueFull_same s) (by decide) (by decide) (by decide)
  | frozen =>
    cases h
    exact .deferred i hi rfl rfl rfl (hseen rfl)
  | ensuring =>
    cases h
    exact .ensured i hi rfl rfl rfl rfl
  | spawning =>
    cases h
    exact .spawned i hi rfl rfl rfl rfl
  | queued =>
    simp only [Sys.requestStep] at h
    split at h
    · cases h
      exact .goes hi (.refl s) (by decide) (by decide) (by decide)
    · split at h
      · cases h
      · cases h
        exact .goes hi (.refl s) (by decide) (by decide) (by decide)
    · cases h
  | lost =>
    cases h
    exact .request i .lost .bypassing hi rfl (by decide) (by decide) (by decide) rfl rfl (fun h => nomatch h)
  | granted =>
    cases h
    exact .goes (t := s.dropSlot) hi ⟨rfl, rfl, rfl, rfl⟩ (by decide) (by decide) (by decide)
  | sending =>
    simp only [Sys.requestStep] at h
    split at h
    · cases h
      exact .goes hi (.refl s) (by decide) (by decide) (by decide)
    · cases h
      exact .goes hi (.refl s) (by decide) (by decide) (by simp)
    · cases h
  | observed at_ duration =>
    cases h
    exact .goes hi (recordFreezeAt_same s at_ duration) (by simp) (by simp) (by split <;> simp)
  | sleeping until_ =>
    simp only [Sys.requestStep] at h
    split at h
    · cases h
      exact .goes hi (.refl s) (by simp) (by simp) (by decide)
    · cases h
  | bypassing =>
    cases h
    exact .goes (t := s.dropSlot) hi ⟨rfl, rfl, rfl, rfl⟩ (by decide) (by decide) (by decide)
  | direct =>
    simp only [Sys.requestStep] at h
    split at h
    · cases h
      exact .goes hi (.refl s) (by decide) (by decide) (by decide)
    · cases h
  | done => cases h

theorem cancelStep_effect {i : Nat} {stage : Stage} (hi : s.requests[i]? = some stage)
    (h : s.cancelStep i stage = some (s', e)) : Effect s s' := by
  unfold Sys.cancelStep at h
  split at h
  · cases h
    exact .goes hi (.refl s) (by decide) (by decide) (by decide)
  · cases h
    exact .goes hi (.refl s) (by decide) (by decide) (by decide)
  · cases h
    exact .goes hi (.refl s) (by simp) (by simp) (by decide)
  · cases h
    exact .goes hi (.refl s) (by decide) (by decide) (by decide)
  · cases h
    exact .goes (t := { s with pendingSlots := _ }) hi ⟨rfl, rfl, rfl, rfl⟩ (by decide) (by decide) (by decide)
  · cases h
    exact .goes (t := s.dropSlot) hi ⟨rfl, rfl, rfl, rfl⟩ (by simp) (by simp) (by decide)
  · cases h
    exact .goes (t := s.dropSlot) hi ⟨rfl, rfl, rfl, rfl⟩ (by decide) (by decide) (by decide)
  · cases h

theorem monitorStep_effect {i : Nat} {answer : Answer} {phase : Phase} (hi : s.monitors[i]? = some phase)
    (h : s.monitorStep i answer phase = some (s', e)) : Effect s s' := by
  cases phase with
  | looping =>
    cases h
    exact .turns hi (.refl s) rfl (fun h => nomatch h)
  | timed now =>
    cases h
    exact .turns hi (.refl s) rfl (fun h => nomatch h)
  | sleeping wake =>
    simp only [Sys.monitorStep] at h
    split at h
    · cases h
      exact .turns hi (.refl s) rfl (fun h => nomatch h)
    · cases h
  | woken =>
    cases h
    exact .turns hi (.refl s) (by split <;> rfl) (by split <;> exact fun h => nomatch h)
  | examining =>
    cases h
    exact .examined i _ hi rfl (by split <;> rfl) rfl rfl rfl
  | probing =>
    simp only [Sys.monitorStep] at h
    split at h
    · cases h
      exact .turns hi (.refl s) rfl fun _ => rfl
    · split at h
      · cases h
      · cases h
        exact .turns hi (.refl s) rfl fun _ => rfl
    · cases h
  | abandoning =>
    cases h
    exact .cleared i .abandoning .gone hi rfl rfl rfl rfl rfl rfl
  | reporting =>
    cases h
    exact .turns hi (notifyQueueFull_same s) rfl fun _ => rfl
  | acquiring =>
    simp only [Sys.monitorStep] at h
    split at h
    · cases h
      exact .turns (t := { s with pendingSlots := _ }) hi ⟨rfl, rfl, rfl, rfl⟩ rfl fun _ => rfl
    · cases h
      exact .turns hi (.refl s) rfl fun _ => rfl
  | clearing =>
    cases h
    exact .cleared i .clearing .releasing hi rfl rfl rfl rfl rfl rfl
  | releasing =>
    cases h
    exact .turns (t := s.dropSlot) hi ⟨rfl, rfl, rfl, rfl⟩ rfl (fun h => nomatch h)
  | refiring =>
    cases h
    exact .turns hi (notifyQueueFull_same s) rfl (fun h => nomatch h)
  | gone => cases h

theorem step_effect (hseen : s.Seen a) (h : s.step a = some (s', e)) : Effect s s' := by
  cases a with
  | tick by_ =>
    cases h
    exact .same ⟨rfl, rfl, rfl, rfl⟩
  | die =>
    cases h
    exact .same ⟨rfl, rfl, rfl, rfl⟩
  | send =>
    cases h
    exact .sent rfl rfl rfl rfl
  | request i answer =>
    obtain ⟨stage, hi, h⟩ := Option.bind_eq_some_iff.mp h
    refine requestStep_effect hi (fun hfrozen => ?_) h
    exact hseen (hfrozen ▸ hi)
  | cancel i =>
    obtain ⟨stage, hi, h⟩ := Option.bind_eq_some_iff.mp h
    exact cancelStep_effect hi h
  | monitor i answer =>
    obtain ⟨phase, hi, h⟩ := Option.bind_eq_some_iff.mp h
    exact monitorStep_effect hi h

/-! ## Who holds the flag -/

def Stage.isSpawning : Stage → Bool
  | .spawning => true
  | _ => false

/-- Those on whose behalf `monitor_active` is set. -/
def holders (s : Sys) : Nat := s.monitors.countP Phase.holdsFlag + s.requests.countP Stage.isSpawning

structure Inv (s : Sys) : Prop where
  /-- the flag is set on behalf of one monitor or request, if it is set -/
  flag : holders s = s.monitorActive.toNat
  unseen : s.deferredFull = true → ∀ phase ∈ s.monitors, phase.pastLook = false
  announced : s.deferredFull = true → .ensuring ∈ s.requests ∨ s.monitorActive = true

theorem countP_set {α : Type} {l : List α} {i : Nat} {x : α} (hi : l[i]? = some x) (p : α → Bool) (y : α) :
    (l.set i y).countP p + (p x).toNat = l.countP p + (p y).toNat := by
  induction l generalizing i with
  | nil => simp at hi
  | cons z l ih =>
    cases i with
    | zero =>
      cases hi
      rw [List.set_cons_zero, List.countP_cons, List.countP_cons]
      cases p x <;> cases p y <;> simp
    | succ i =>
      rw [List.getElem?_cons_succ] at hi
      rw [List.set_cons_succ, List.countP_cons, List.countP_cons]
      have := ih hi
      omega

theorem isSpawning_eq {stage : Stage} (h : stage ≠ .spawning) : stage.isSpawning = false := by
  cases stage <;> first | rfl | exact absurd rfl h

theorem holdsFlag_of_pastLook {phase : Phase} (h : phase.pastLook = true) : phase.holdsFlag = true := by
  rw [Phase.holdsFlag, h, Bool.or_true]

/-- Whoever else of the list changes, one that is there stays. -/
theorem mem_set_of_ne {α : Type} {l : List α} {i : Nat} {x y z : α} (hi : l[i]? = some x) (hx : x ≠ z) (hz : z ∈ l) :
    z ∈ l.set i y := by
  obtain ⟨j, hj, rfl⟩ := List.getElem_of_mem hz
  have hij : i ≠ j := by
    rintro rfl
    rw [List.getElem?_eq_getElem hj] at hi
    exact hx (Option.some.inj hi).symm
  rw [List.mem_iff_getElem]
  exact ⟨j, by rw [List.length_set]; exact hj, by rw [List.getElem_set_ne hij]⟩

theorem inv_new (retry : Bool) (queueCapacity now : Nat) : Inv (Sys.new retry queueCapacity now) where
  flag := rfl
  unseen h := nomatch h
  announced h := nomatch h

theorem Inv.step (hinv : Inv s) (h : Effect s s') : Inv s' := by
  have hflag := hinv.flag
  unfold holders at hflag
  cases h with
  | same h =>
    constructor
    · rw [holders, h.monitors, h.requests, h.monitorActive]
      exact hflag
    · rw [h.deferredFull, h.monitors]
      exact hinv.unseen
    · rw [h.deferredFull, h.requests, h.monitorActive]
      exact hinv.announced
  | sent hr hm hd ha =>
    constructor
    · rw [holders, hm, hr, ha, List.countP_append]
      exact hflag
    · rw [hd, hm]
      exact hinv.unseen
    · rw [hd, hr, ha]
      exact fun h => (hinv.announced h).imp_left (List.mem_append_left _)
  | request i stage stage' hi hr hensuring hspawning hspawning' hm ha hd =>
    constructor
    · have := countP_set hi Stage.isSpawning stage'
      rw [isSpawning_eq hspawning, isSpawning_eq hspawning'] at this
      rw [holders, hm, hr, ha]
      omega
    · rw [hm]
      exact fun h => hinv.unseen (hd h)
    · rw [hr, ha]
      exact fun h => (hinv.announced (hd h)).imp_left (mem_set_of_ne hi hensuring)
  | deferred i hi hr hm ha hseen =>
    constructor
    · have : (s.requests.set i .ensuring).countP Stage.isSpawning = s.requests.countP Stage.isSpawning :=
        countP_set hi Stage.isSpawning .ensuring
      rw [holders, hm, hr, ha, this]
      exact hflag
    · rw [hm]
      exact fun _ => hseen
    · rw [hr]
      exact fun _ => .inl (List.mem_set (List.getElem?_eq_some_iff.mp hi).1 _)
  | ensured i hi hr hm ha hd =>
    constructor
    · have := countP_set hi Stage.isSpawning (if s.monitorActive then .queued else .spawning)
      rw [holders, hm, hr, ha]
      cases hactive : s.monitorActive with
      | true =>
        rw [hactive] at this hflag
        simp only [if_true, Stage.isSpawning, Bool.toNat_false] at this ⊢
        omega
      | false =>
        rw [hactive] at this hflag
        simp only [Stage.isSpawning, Bool.toNat_false, Bool.toNat_true, Bool.false_eq_true, if_false] at this hflag ⊢
        omega
    · rw [hd, hm]
      exact hinv.unseen
    · exact fun _ => .inr ha
  | spawned i hi hr hm ha hd =>
    have hset : (s.requests.set i .queued).countP Stage.isSpawning + 1 = s.requests.countP Stage.isSpawning :=
      countP_set hi Stage.isSpawning .queued
    have hactive : s.monitorActive = true := by
      cases hactive : s.monitorActive with
      | true => rfl
      | false =>
        rw [hactive] at hflag
        simp only [Bool.toNat_false] at hflag
        omega
    constructor
    · have hone : [Phase.looping].countP Phase.holdsFlag = 1 := rfl
      rw [holders, hm, hr, ha, List.countP_append, hone]
      omega
    · rw [hd, hm]
      intro h phase hp
      rcases List.mem_append.mp hp with hp | hp
      · exact hinv.unseen h phase hp
      · cases List.mem_singleton.mp hp
        rfl
    · rw [ha]
      exact fun _ => .inr hactive
  | monitor i phase phase' hi hm hholds hpast hr ha hd =>
    constructor
    · have := countP_set hi Phase.holdsFlag phase'
      rw [hholds] at this
      rw [holders, hm, hr, ha]
      omega
    · rw [hd, hm]
      intro h p hp
      rcases List.mem_or_eq_of_mem_set hp with hp | rfl
      · exact hinv.unseen h p hp
      · have := hinv.unseen h phase (List.mem_of_getElem? hi)
        cases hp' : p.pastLook with
        | false => rfl
        | true => exact absurd (hpast hp') (by rw [this]; decide)
    · rw [hd, hr, ha]
      exact hinv.announced
  | examined i phase' hi hm hpast hr ha hd =>
    constructor
    · have hset : (s.monitors.set i phase').countP Phase.holdsFlag = s.monitors.countP Phase.holdsFlag := by
        have := countP_set hi Phase.holdsFlag phase'
        rw [holdsFlag_of_pastLook hpast] at this
        exact Nat.add_right_cancel this
      rw [holders, hm, hr, ha, hset]
      exact hflag
    · rw [hd]
      exact fun h => nomatch h
    · rw [hd]
      exact fun h => nomatch h
  | cleared i phase phase' hi hm hpast hholds hr ha hd =>
    have hquiet : s.deferredFull = false := by
      cases hdeferred : s.deferredFull with
      | false => rfl
      | true =>
        have := hinv.unseen hdeferred phase (List.mem_of_getElem? hi)
        rw [hpast] at this
        cases this
    constructor
    · have := countP_set hi Phase.holdsFlag phase'
      rw [holdsFlag_of_pastLook hpast, hholds, Bool.toNat_true, Bool.toNat_false] at this
      have := s.monitorActive.toNat_le
      rw [holders, hm, hr, ha, Bool.toNat_false]
      omega
    · rw [hd, hquiet]
      exact fun h => nomatch h
    · rw [hd, hquiet]
      exact fun h => nomatch h

/-! ## A monitor before its look -/

/-- Whether `on_queue_full` is called: if so, the last call is long enough ago. -/
def Calls (s s' : Sys) (e : Event) : Prop :=
  (e.invokedAt = none ∧ s'.lastQueueFull = s.lastQueueFull) ∨
  (e.invokedAt = some s.clock ∧ s.lastQueueFull + queueFullDelay < s.clock ∧ s'.lastQueueFull = s.clock)

theorem notifyQueueFull_calls (s : Sys) : Calls s s.notifyQueueFull.1 s.notifyQueueFull.2 := by
  unfold Sys.notifyQueueFull
  split
  · exact .inl ⟨rfl, rfl⟩
  · exact .inr ⟨rfl, by omega, rfl⟩

theorem recordFreezeAt_lastQueueFull (s : Sys) (observedAt duration : Nat) :
    (s.recordFreezeAt observedAt duration).lastQueueFull = s.lastQueueFull := by
  unfold Sys.recordFreezeAt
  dsimp only
  split
  · rfl
  · rfl

theorem notifyQueueFull_event (s : Sys) (i : Nat) : s.notifyQueueFull.2 ≠ .exited i := by
  unfold Sys.notifyQueueFull
  split
  · exact fun h => nomatch h
  · exact fun h => nomatch h

/-- A request leaves the monitors alone. -/
theorem requestStep_frame {j : Nat} {answer : Answer} {stage : Stage} (h : s.requestStep j answer stage = some (s', e)) :
    (∀ i, e ≠ .exited i) ∧ s.monitors <+: s'.monitors ∧ Calls s s' e := by
  have quiet : (∀ i, Event.other ≠ .exited i) ∧ s.monitors <+: s.monitors ∧ Calls s s .other :=
    ⟨fun i h => (nomatch h), List.prefix_rfl, .inl ⟨rfl, rfl⟩⟩
  cases stage with
  | thawed =>
    have hprefix : s.monitors <+: s.notifyQueueFull.1.monitors :=
      ⟨[], by rw [List.append_nil, (notifyQueueFull_same s).monitors]⟩
    have hcalls := notifyQueueFull_calls s
    cases h
    exact ⟨notifyQueueFull_event s, hprefix, hcalls⟩
  | spawning =>
    cases h
    exact ⟨fun i h => (nomatch h), List.prefix_append s.monitors _, .inl ⟨rfl, rfl⟩⟩
  | observed at_ duration =>
    have hm := (recordFreezeAt_same s at_ duration).monitors
    cases h
    refine ⟨quiet.1, ⟨[], ?_⟩, .inl ⟨rfl, recordFreezeAt_lastQueueFull s at_ duration⟩⟩
    rw [List.append_nil, setRequest_monitors, hm]
  | enqueuing last =>
    simp only [Sys.requestStep] at h
    split at h
    · cases h
      exact quiet
    · cases h
      exact quiet
    · cases h
      exact quiet
    · cases h
  | start =>
    simp only [Sys.requestStep] at h
    split at h
    · cases h
      exact quiet
    · cases h
      exact quiet
  | acquiring =>
    simp only [Sys.requestStep] at h
    split at h
    · cases h
      exact quiet
    · cases h
  | queued =>
    simp only [Sys.requestStep] at h
    split at h
    · cases h
      exact quiet
    · split at h
      · cases h
      · cases h
        exact quiet
    · cases h
  | sending =>
    simp only [Sys.requestStep] at h
    split at h
    · cases h
      exact quiet
    · cases h
      exact quiet
    · cases h
  | sleeping until_ =>
    simp only [Sys.requestStep] at h
    split at h
    · cases h
      exact quiet
    · cases h
  | direct =>
    simp only [Sys.requestStep] at h
    split at h
    · cases h
      exact quiet
    · cases h
  | admitted =>
    cases h
    exact quiet
  | accepted =>
    cases h
    exact quiet
  | frozen =>
    cases h
    exact quiet
  | ensuring =>
    cases h
    exact quiet
  | lost =>
    cases h
    exact quiet
  | granted =>
    cases h
    exact quiet
  | bypassing =>
    cases h
    exact quiet
  | done => cases h

theorem cancelStep_frame {j : Nat} {stage : Stage} (h : s.cancelStep j stage = some (s', e)) :
    e = .other ∧ s'.monitors = s.monitors ∧ Calls s s' e := by
  unfold Sys.cancelStep at h
  split at h
  · cases h
    exact ⟨rfl, rfl, .inl ⟨rfl, rfl⟩⟩
  · cases h
    exact ⟨rfl, rfl, .inl ⟨rfl, rfl⟩⟩
  · cases h
    exact ⟨rfl, rfl, .inl ⟨rfl, rfl⟩⟩
  · cases h
    exact ⟨rfl, rfl, .inl ⟨rfl, rfl⟩⟩
  · cases h
    exact ⟨rfl, rfl, .inl ⟨rfl, rfl⟩⟩
  · cases h
    exact ⟨rfl, rfl, .inl ⟨rfl, rfl⟩⟩
  · cases h
    exact ⟨rfl, rfl, .inl ⟨rfl, rfl⟩⟩
  · cases h

/-- A monitor changes only itself. -/
theorem monitorStep_frame {j : Nat} {answer : Answer} {phase : Phase} (h : s.monitorStep j answer phase = some (s', e)) :
    (∀ i, e = .exited i → i = j) ∧ (∃ phase', s'.monitors = s.monitors.set j phase') ∧ Calls s s' e := by
  have quiet {e : Event} (he : ∀ i, e = .exited i → i = j) (hcall : e.invokedAt = none) {phase' : Phase} :
      (∀ i, e = .exited i → i = j) ∧ (∃ phase'', s.monitors.set j phase' = s.monitors.set j phase'') ∧ Calls s s e :=
    ⟨he, ⟨phase', rfl⟩, .inl ⟨hcall, rfl⟩⟩
  have other (i : Nat) (h : Event.other = .exited i) : i = j := nomatch h
  have notified {phase' : Phase} : (∀ i, s.notifyQueueFull.2 = .exited i → i = j) ∧
      (∃ phase'', (s.notifyQueueFull.1.setMonitor j phase').monitors = s.monitors.set j phase'') ∧
      Calls s s.notifyQueueFull.1 s.notifyQueueFull.2 := by
    refine ⟨fun i h => absurd h (notifyQueueFull_event s i), ⟨phase', ?_⟩, notifyQueueFull_calls s⟩
    rw [setMonitor_monitors, (notifyQueueFull_same s).monitors]
  cases phase with
  | looping =>
    cases h
    exact quiet other rfl
  | timed now =>
    cases h
    exact quiet other rfl
  | sleeping wake =>
    simp only [Sys.monitorStep] at h
    split at h
    · cases h
      exact quiet other rfl
    · cases h
  | woken =>
    cases h
    exact quiet other rfl
  | examining =>
    cases h
    exact quiet (e := .examined j) (fun i h => nomatch h) rfl
  | probing =>
    simp only [Sys.monitorStep] at h
    split at h
    · cases h
      exact quiet other rfl
    · split at h
      · cases h
      · cases h
        exact quiet other rfl
    · cases h
  | abandoning =>
    cases h
    exact quiet (fun i h => (Event.exited.inj h).symm) rfl
  | reporting =>
    cases h
    exact notified
  | acquiring =>
    simp only [Sys.monitorStep] at h
    split at h
    · cases h
      exact quiet other rfl
    · cases h
      exact quiet other rfl
  | clearing =>
    cases h
    exact quiet other rfl
  | releasing =>
    cases h
    exact quiet (fun i h => (Event.exited.inj h).symm) rfl
  | refiring =>
    cases h
    exact notified
  | gone => cases h

/-- The steps of a monitor before its look. -/
theorem monitorStep_beforeLook {i : Nat} {answer : Answer} {phase : Phase} (hi : s.monitors[i]? = some phase)
    (hp : phase.beforeLook = true) (h : s.monitorStep i answer phase = some (s', e)) :
    e = .examined i ∨ (e ≠ .exited i ∧ ∃ phase', s'.monitors[i]? = some phase' ∧ phase'.beforeLook = true) := by
  have hlt := (List.getElem?_eq_some_iff.mp hi).1
  have turns {t : Sys} (ht : t.monitors = s.monitors) {phase' : Phase} (hp' : phase'.beforeLook = true) :
      ∃ phase'', (t.setMonitor i phase').monitors[i]? = some phase'' ∧ phase''.beforeLook = true := by
    refine ⟨phase', ?_, hp'⟩
    rw [setMonitor_monitors, ht, List.getElem?_set_self hlt]
  cases phase with
  | looping =>
    cases h
    exact .inr ⟨fun h => (nomatch h), turns rfl rfl⟩
  | timed now =>
    cases h
    exact .inr ⟨fun h => (nomatch h), turns rfl rfl⟩
  | sleeping wake =>
    simp only [Sys.monitorStep] at h
    split at h
    · cases h
      exact .inr ⟨fun h => (nomatch h), turns rfl rfl⟩
    · cases h
  | woken =>
    cases h
    exact .inr ⟨fun h => (nomatch h), turns rfl (by split <;> rfl)⟩
  | examining =>
    cases h
    exact .inl rfl
  | refiring =>
    cases h
    exact .inr ⟨notifyQueueFull_event s i, turns (notifyQueueFull_same s).monitors rfl⟩
  | probing => cases hp
  | abandoning => cases hp
  | reporting => cases hp
  | acquiring => cases hp
  | clearing => cases hp
  | releasing => cases hp
  | gone => cases hp

/-- A monitor before its look is before it after the next step, unless that was the look. -/
theorem step_beforeLook {i : Nat} {phase : Phase} (hi : s.monitors[i]? = some phase) (hp : phase.beforeLook = true)
    (h : s.step a = some (s', e)) :
    e = .examined i ∨ (e ≠ .exited i ∧ ∃ phase', s'.monitors[i]? = some phase' ∧ phase'.beforeLook = true) := by
  have hlt := (List.getElem?_eq_some_iff.mp hi).1
  cases a with
  | tick by_ =>
    cases h
    exact .inr ⟨fun h => (nomatch h), phase, hi, hp⟩
  | die =>
    cases h
    exact .inr ⟨fun h => (nomatch h), phase, hi, hp⟩
  | send =>
    cases h
    exact .inr ⟨fun h => (nomatch h), phase, hi, hp⟩
  | request j answer =>
    obtain ⟨stage, -, h⟩ := Option.bind_eq_some_iff.mp h
    obtain ⟨hexit, ⟨tail, htail⟩, -⟩ := requestStep_frame h
    refine .inr ⟨hexit i, phase, ?_, hp⟩
    rw [← htail, List.getElem?_append_left hlt, hi]
  | cancel j =>
    obtain ⟨stage, -, h⟩ := Option.bind_eq_some_iff.mp h
    obtain ⟨rfl, hm, -⟩ := cancelStep_frame h
    exact .inr ⟨fun h => (nomatch h), phase, hm ▸ hi, hp⟩
  | monitor j answer =>
    obtain ⟨phaseJ, hj, h⟩ := Option.bind_eq_some_iff.mp h
    by_cases hij : i = j
    · subst hij
      cases hi.symm.trans hj
      exact monitorStep_beforeLook hi hp h
    · obtain ⟨hexit, ⟨phase', hm⟩, -⟩ := monitorStep_frame h
      refine .inr ⟨fun he => hij (hexit i he), phase, ?_, hp⟩
      rw [hm, List.getElem?_set_ne (Ne.symm hij), hi]

/-- So it looks again before it returns: induction on the path. -/
theorem willExamine {i : Nat} {phase : Phase} (hi : s.monitors[i]? = some phase) (hp : phase.beforeLook = true) :
    s.WillExamine i := by
  intro τ s' hpath
  have hlooks : (.examined i ∈ τ ∨ ∃ phase', s'.monitors[i]? = some phase' ∧ phase'.beforeLook = true) ∧
      ∀ τ₂ τ₁, τ = τ₂ ++ .exited i :: τ₁ → .examined i ∈ τ₁ := by
    induction hpath with
    | refl => exact ⟨.inr ⟨phase, hi, hp⟩, fun τ₂ τ₁ h => absurd h (by simp)⟩
    | @step τ t a t' e _ hs ih =>
      obtain ⟨hlook, hexit⟩ := ih
      constructor
      · rcases hlook with hlook | ⟨phase', hi', hp'⟩
        · exact .inl (List.mem_cons_of_mem _ hlook)
        · rcases step_beforeLook hi' hp' hs with rfl | ⟨-, hnext⟩
          · exact .inl List.mem_cons_self
          · exact .inr hnext
      · intro τ₂ τ₁ h
        cases τ₂ with
        | nil =>
          obtain ⟨rfl, rfl⟩ := List.cons.inj h
          rcases hlook with hlook | ⟨phase', hi', hp'⟩
          · exact hlook
          · rcases step_beforeLook hi' hp' hs with h | ⟨hne, -⟩
            · cases h
            · exact absurd rfl hne
        | cons e' τ₂ => exact hexit τ₂ τ₁ (List.cons.inj h).2
  exact hlooks.2

/-! ## Every run -/

theorem step_calls (h : s.step a = some (s', e)) : Calls s s' e := by
  cases a with
  | tick by_ =>
    cases h
    exact .inl ⟨rfl, rfl⟩
  | die =>
    cases h
    exact .inl ⟨rfl, rfl⟩
  | send =>
    cases h
    exact .inl ⟨rfl, rfl⟩
  | request i answer =>
    obtain ⟨stage, -, h⟩ := Option.bind_eq_some_iff.mp h
    exact (requestStep_frame h).2.2
  | cancel i =>
    obtain ⟨stage, -, h⟩ := Option.bind_eq_some_iff.mp h
    exact (cancelStep_frame h).2.2
  | monitor i answer =>
    obtain ⟨phase, -, h⟩ := Option.bind_eq_some_iff.mp h
    exact (monitorStep_frame h).2.2

theorem spaced_of_run {τ : List Event} (hr : throttle.Run Machine.anything τ s) :
    Spaced τ ∧ ∀ t ∈ invocations τ, t ≤ s.lastQueueFull := by
  induction hr with
  | start _ => exact ⟨List.Pairwise.nil, fun t ht => nomatch ht⟩
  | @step τ s a s' e _ _ hs ih =>
    obtain ⟨hspaced, hlast⟩ := ih
    rcases step_calls hs with ⟨hnone, hsame⟩ | ⟨hsome, hlong, hnow⟩
    · have hτ : invocations (e :: τ) = invocations τ := List.filterMap_cons_none hnone
      rw [Spaced, hτ, hsame]
      exact ⟨hspaced, hlast⟩
    · have hτ : invocations (e :: τ) = s.clock :: invocations τ := List.filterMap_cons_some hsome
      rw [Spaced, hτ, hnow]
      constructor
      · refine List.Pairwise.cons (fun t ht => ?_) hspaced
        have := hlast t ht
        omega
      · intro t ht
        rcases List.mem_cons.mp ht with rfl | ht
        · exact Nat.le_refl _
        · have := hlast t ht
          omega

theorem inv_of_run {τ : List Event} (hr : throttle.Run Sys.Seen τ s) : Inv s := by
  induction hr with
  | start hi =>
    obtain ⟨retry, messagesPerSecOverall, now, rfl⟩ := hi
    exact inv_new _ _ _
  | step _ hseen hs ih => exact ih.step (step_effect hseen hs)

/-- The flag is up: somebody holds it, and nobody is past the look. -/
theorem Inv.neverStranded (hinv : Inv s) : s.NeverStranded := by
  intro hdeferred _
  cases hactive : s.monitorActive with
  | false =>
    have hensuring := (hinv.announced hdeferred).resolve_right (by rw [hactive]; decide)
    exact .inr (.inl ⟨hensuring, rfl⟩)
  | true =>
    have hone : s.monitors.countP Phase.holdsFlag + s.requests.countP Stage.isSpawning = 1 := by
      have := hinv.flag
      rwa [hactive] at this
    by_cases hmonitor : 0 < s.monitors.countP Phase.holdsFlag
    · obtain ⟨phase, hp, hholds⟩ := List.countP_pos_iff.mp hmonitor
      have hbefore : phase.beforeLook = true := by
        rwa [Phase.holdsFlag, hinv.unseen hdeferred phase hp, Bool.or_false] at hholds
      obtain ⟨i, hi⟩ := List.mem_iff_getElem?.mp hp
      refine .inl ⟨i, phase, hi, ?_, willExamine hi hbefore⟩
      rintro rfl
      cases hbefore
    · have hrequest : 0 < s.requests.countP Stage.isSpawning := by omega
      obtain ⟨stage, hr, hspawning⟩ := List.countP_pos_iff.mp hrequest
      have hstage : stage = .spawning := by
        by_contra hne
        rw [isSpawning_eq hne] at hspawning
        cases hspawning
      exact .inr (.inr (hstage ▸ hr))

/-- With the condition on every step nothing is stranded, and in every run the calls are
spaced. -/
theorem never_stranded (τ : List Event) (s : Sys) :
    (throttle.Run Sys.Seen τ s → s.NeverStranded) ∧ (throttle.Run Machine.anything τ s → Spaced τ) :=
  ⟨fun hr => (inv_of_run hr).neverStranded, fun hr => (spaced_of_run hr).1⟩

theorem init_new (retry : Bool) (messagesPerSecOverall now : Nat) :
    throttle.init (Sys.new retry (max messagesPerSecOverall 1) now) := ⟨retry, messagesPerSecOverall, now, rfl⟩

/-- The only slot is taken during the freeze that the first request has met. -/
def deferredRun : List Action :=
  [.send, .request 0 .enqueued, .request 0 .enqueued, .request 0 .enqueued, .request 0 .enqueued, .request 0 .enqueued,
    .request 0 .enqueued, .request 0 .enqueued, .request 0 .granted, .request 0 .granted,
    .request 0 (.retryAfter (30000 * millisecond)), .request 0 .returned, .send, .request 1 .enqueued,
    .request 1 .enqueued, .request 1 .enqueued, .request 1 .enqueued, .request 1 .enqueued]

theorem never_stranded_deferredRun : ∃ τ s, throttle.Run Sys.Seen τ s ∧ s.deferredFull = true ∧ s.NeverStranded ∧
    Spaced τ := by
  have h : (throttle.exec Sys.Seen [] (Sys.new false 1 (10000 * millisecond)) deferredRun).map (·.2.deferredFull) =
      some true := by decide
  obtain ⟨⟨τ, s⟩, he, hs⟩ := Option.map_eq_some_iff.mp h
  have hr : throttle.Run Sys.Seen τ s := Machine.run_of_exec (.start (init_new false 0 _)) he
  exact ⟨τ, s, hr, hs, (never_stranded τ s).1 hr, (never_stranded τ s).2 hr.anything⟩

/-- Both slots are taken, and given back before the monitor wakes up and looks. Then the
first request meets a freeze, and two others take the slots: the second of them defers its
event, and finds `monitor_active` set. The first of them is dropped, and the monitor, which
takes its slot, returns. -/
def strandedRun : List Action :=
  [.send, .send, .request 0 .enqueued, .request 0 .enqueued, .request 0 .enqueued, .request 1 .enqueued,
    .request 1 .enqueued, .request 1 .enqueued, .request 1 .enqueued, .request 1 .enqueued, .request 1 .enqueued,
    .request 1 .enqueued, .monitor 0 .limits, .monitor 0 .limits, .request 0 .granted, .request 0 .granted,
    .request 1 .granted, .request 1 .granted, .tick saturationCheckPeriod, .monitor 0 .limits, .monitor 0 .limits,
    .monitor 0 .limits, .request 0 (.retryAfter (30000 * millisecond)), .request 0 .returned, .send, .send,
    .request 2 .enqueued, .request 2 .enqueued, .request 2 .enqueued, .request 3 .enqueued, .request 3 .enqueued,
    .request 3 .enqueued, .request 3 .enqueued, .request 3 .enqueued, .request 3 .enqueued, .cancel 2,
    .monitor 0 .limits, .monitor 0 .limits, .monitor 0 .limits]

theorem stranded : ∃ τ s, throttle.Run Machine.anything τ s ∧ ¬ s.NeverStranded := by
  have h : (throttle.exec Machine.anything [] (Sys.new false 2 (10000 * millisecond)) strandedRun).map
      (fun r => (r.2.deferredFull, r.2.alive, r.2.requests, r.2.monitors)) =
      some (true, true, [.done, .sending, .done, .queued], [.gone]) := by decide
  obtain ⟨⟨τ, s⟩, he, hs⟩ := Option.map_eq_some_iff.mp h
  obtain ⟨hdeferred, halive, hrequests, hmonitors⟩ : s.deferredFull = true ∧ s.alive = true ∧
      s.requests = [.done, .sending, .done, .queued] ∧ s.monitors = [.gone] := by
    simpa using hs
  refine ⟨τ, s, Machine.run_of_exec (.start (init_new false 2 _)) he, fun hnever => ?_⟩
  rcases hnever hdeferred halive with ⟨i, phase, hi, hne, -⟩ | ⟨hensuring, -⟩ | hspawning
  · rw [hmonitors] at hi
    exact hne (List.mem_singleton.mp (List.mem_of_getElem? hi))
  · rw [hrequests] at hensuring
    exact absurd hensuring (by decide)
  · rw [hrequests] at hspawning
    exact absurd hspawning (by decide)

end Teloxide.Adaptors.Throttle
