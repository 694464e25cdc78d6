import Teloxide.Outbound.Scheduler.Accounts
import Teloxide.Outbound.Scheduler.Hold

/-!
# Penalties

A penalty holds back every request of its scope until its deadline; a later one
of the same scope only moves the deadline on.

* `grantReady_unpenalised`: no penalty that covers a granted job is in force.
* `grantReady_penalties`: a pass drops the penalties that are over.
* `KeepsMetadata`: what a pending job was enqueued with stays.
-/
namespace Teloxide.Outbound

open Teloxide.Core

/-- A penalty of this scope holds back the requests of that scope. -/
def OutboundScope.covers : OutboundScope → OutboundScope → Bool
  | .global, _ => true
  | .chat key, scope => scope == .chat key

theorem OutboundScope.covers_window {penalty scope : OutboundScope} (h : penalty.covers scope = true)
    (cls : OutboundClass) : ∃ w ∈ windowsOf scope cls, penaltyKeyOf w = some (.ofScope penalty) := by
  cases penalty with
  | global => cases scope <;> exact ⟨.global, List.mem_cons_self, rfl⟩
  | chat key =>
    cases eq_of_beq h
    exact ⟨.chat key, by simp [windowsOf], rfl⟩

namespace SchedulerState

variable {s s' : SchedulerState}

/-! ## Metadata -/

/-- A pending job was pending before, with the same metadata. -/
def KeepsMetadata (s s' : SchedulerState) : Prop :=
  ∀ id job', s'.jobs.lookup id = some job' → ∃ job, s.jobs.lookup id = some job ∧ job'.metadata = job.metadata

theorem KeepsMetadata.refl (s : SchedulerState) : KeepsMetadata s s := fun _ job h => ⟨job, h, rfl⟩

theorem KeepsMetadata.trans {s'' : SchedulerState} (h : KeepsMetadata s s') (h' : KeepsMetadata s' s'') :
    KeepsMetadata s s'' := fun id _ hl => by
  obtain ⟨job', hl', hm'⟩ := h' id _ hl
  obtain ⟨job, hl, hm⟩ := h id _ hl'
  exact ⟨job, hl, hm'.trans hm⟩

theorem Stays.keepsMetadata (h : Stays s s') : KeepsMetadata s s' := fun _ _ hl => by
  obtain ⟨job, hl, hs⟩ := h.job hl
  exact ⟨job, hl, congrArg (·.1) hs⟩

/-- The view of the jobs, without some of them. -/
theorem keepsMetadata_of_core {gone : JobId → Prop} [DecidablePred gone]
    (h : ∀ a, (s'.jobs.lookup a).map Job.core = if gone a then none else (s.jobs.lookup a).map Job.core) :
    KeepsMetadata s s' := fun id job' hl => by
  have hj := h id
  rw [hl] at hj
  split at hj
  · cases hj
  · cases hs : s.jobs.lookup id with
    | none => rw [hs] at hj; cases hj
    | some job =>
      rw [hs] at hj
      have hslot := Job.slot_of_core (Option.some.inj hj)
      exact ⟨job, rfl, congrArg (·.1) hslot⟩

theorem Removes.keepsMetadata {id : JobId} (h : Removes s id s') : KeepsMetadata s s' :=
  keepsMetadata_of_core h.jobs

theorem cancel_keepsMetadata (s : SchedulerState) (job : JobId) (now : Nat) : KeepsMetadata s (s.cancel job now) := by
  cases hj : s.jobs.lookup job with
  | some j => exact (cancel_removes hj now).keepsMetadata
  | none =>
    refine Stays.keepsMetadata (.of_moves ?_)
    rw [cancel, removeWaiting_none hj]
    exact ((compactDelayedIfNeeded_quiet s).trans (compactBlockedIfNeeded_quiet _)).toMoves

theorem start_keepsMetadata (s : SchedulerState) (job : JobId) (now : Nat) : KeepsMetadata s (s.start job now) := by
  have hs := s.start_starts job now
  generalize s.start job now = s' at hs
  cases hs with
  | nothing => exact .refl s
  | freed _ _ _ _ _ hq => exact (Stays.of_moves hq.toMoves).keepsMetadata

theorem complete_keepsMetadata (s : SchedulerState) (job : JobId) (completion : OutboundCompletion)
    (now observedAt : Nat) : KeepsMetadata s (s.complete job completion now observedAt) := by
  have hc := s.complete_completes job completion now observedAt
  generalize s.complete job completion now observedAt = s' at hc
  cases hc with
  | nothing => exact .refl s
  | done _ hf hm =>
    have h := (Stays.of_moves hm).keepsMetadata
    cases hf <;> exact h

theorem turn_keepsMetadata {now : Nat} {e : Event} (h : s.turn now = some (s', e)) : KeepsMetadata s s' := by
  cases turn_change h with
  | stays hs => exact hs.keepsMetadata
  | granted hp hm _ _ hg =>
    exact (Stays.of_moves (hp.quiet.toMoves.trans hm)).keepsMetadata.trans (keepsMetadata_of_core hg.jobs)
  | entered | replaced | cancelled | cancelledLate | started | completed => cases turn_cases h

/-- The job of a request that was taken has its metadata, the others keep
theirs. -/
theorem enqueue_metadata {metadata : OutboundMeta} {options : EnqueueOptions} {outcome : EnqueueOutcome}
    (h : s.enqueue metadata options = (s', .ok outcome)) (hid : outcome.job + 1 < u64Size) {id : JobId} {job' : Job}
    (hl : s'.jobs.lookup id = some job') : id = outcome.job ∧ job'.metadata = metadata ∨
      ∃ job, s.jobs.lookup id = some job ∧ job'.metadata = job.metadata := by
  have hentered {s₁ : SchedulerState} {slot : Slot} (hs : Stays (s₁.entered metadata options slot) s')
      (hk : KeepsMetadata s s₁) : id = s₁.nextJobId ∧ job'.metadata = metadata ∨
      ∃ job, s.jobs.lookup id = some job ∧ job'.metadata = job.metadata := by
    obtain ⟨job₂, hl₂, hm₂⟩ := hs.keepsMetadata id job' hl
    have hview := s₁.entered_jobs Job.metadata (fun _ _ => rfl) metadata options slot id
    rw [hl₂] at hview
    split at hview
    · rename_i hnew
      exact Or.inl ⟨hnew, hm₂.trans (Option.some.inj hview)⟩
    · obtain ⟨job₁, hl₁, hm₁⟩ := Option.map_eq_some_iff.1 hview.symm
      obtain ⟨job, hl₀, hm₀⟩ := hk id job₁ hl₁
      exact Or.inr ⟨job, hl₀, hm₂.trans (hm₁.symm.trans hm₀)⟩
  generalize he : Event.enqueued metadata options outcome = e
  have hc := enqueue_change h hid
  rw [he] at hc
  cases hc with
  | stays _ hi => subst he; cases hi
  | entered h₁ _ _ _ h₂ =>
    cases he
    exact hentered h₂ h₁.keepsMetadata
  | replaced _ h₁ _ _ _ h₂ =>
    cases he
    exact hentered h₂ h₁.keepsMetadata
  | cancelled | cancelledLate | started | completed | granted => cases he

/-! ## The admission check -/

theorem checkWindows_penalties (now weight : Nat) :
    ∀ (windows : List WindowRef) (s : SchedulerState) (v : Verdict),
      (checkWindows now weight windows s v).1.penalties = s.penalties
  | [], _, _ => rfl
  | window :: windows, s, v => by
    have hstep : (s.checkWindow now weight window v).1.penalties = s.penalties := by
      have hstore (set : WindowSet) : (s.storeSet window set).penalties = s.penalties := by cases window <;> rfl
      unfold checkWindow
      dsimp only
      split
      · rfl
      · split <;> exact hstore _
    unfold checkWindows
    cases hc : s.checkWindow now weight window v with
    | mk s₁ o =>
      rw [hc] at hstep
      cases o with
      | none => exact hstep
      | some v₁ => exact (checkWindows_penalties now weight windows s₁ v₁).trans hstep

theorem admission_penalties (s : SchedulerState) (c : Candidate) (now : Nat) :
    (s.admission c now).1.penalties = s.penalties := by
  have hc := checkWindows_penalties now c.weight.val (s.applicableWindows c) (s.check (s.live c.job)) ⟨now, none⟩
  unfold admission
  split
  · rfl
  · split
    · rename_i h
      rw [h] at hc
      exact hc
    · rename_i h
      rw [h] at hc
      split <;> exact hc

/-- A candidate that passes is under no penalty. -/
theorem admission_unpenalised {c : Candidate} {now : Nat} (h : (s.admission c now).2 = .pass) :
    ∀ w ∈ s.applicableWindows c, s.penaltyOn now w = none := by
  have hb := @checkWindows_bound c now (s.applicableWindows c) (s.check (s.live c.job)) ⟨now, none⟩
  unfold admission at h
  split at h
  · cases h
  · cases hc : checkWindows now c.weight.val (s.applicableWindows c) (s.check (s.live c.job)) ⟨now, none⟩ with
    | mk s₁ o =>
      rw [hc] at h hb
      cases o with
      | none => cases h
      | some v =>
        dsimp only at h
        split at h
        · cases h
        · rename_i hlate
          intro w hw
          have hle := (((hb (s.applicableWindows_nodup c) (Nat.le_refl now) rfl).1 now).1 (Nat.le_of_not_lt hlate)).2 w hw
          cases hp : s.penaltyOn now w with
          | none => rfl
          | some d =>
            have hd : d ≤ now := hle.1 d hp
            unfold penaltyOn at hp
            obtain ⟨key, -, hkey⟩ := Option.bind_eq_some_iff.1 hp
            have hactive := (Option.filter_eq_some_iff.1 hkey).2
            simp at hactive
            omega

/-- So no penalty that covers it is in force. -/
theorem elapsed_of_unpenalised {now D : Nat} {penalty scope : OutboundScope} {cls : OutboundClass}
    (h : ∀ w ∈ windowsOf scope cls, s.penaltyOn now w = none) (hc : penalty.covers scope = true)
    (hp : s.penalties.lookup (.ofScope penalty) = some D) : D ≤ now := by
  obtain ⟨w, hw, hkey⟩ := OutboundScope.covers_window hc cls
  have hnone := h w hw
  unfold penaltyOn activePenalty at hnone
  rw [hkey, Option.bind_some, hp] at hnone
  simpa using hnone

/-! ## The pass -/

theorem debit_penalties (s : SchedulerState) (id : JobId) (job : Job) (now : Nat) :
    (s.debit id job now).penalties = s.penalties := by
  have hfold (windows : List WindowRef) : ∀ s : SchedulerState,
      (windows.foldl (consumeWindow now job.metadata.weight.val id) s).penalties = s.penalties := by
    induction windows with
    | nil => exact fun _ => rfl
    | cons window windows ih =>
      intro s
      rw [List.foldl_cons, ih]
      unfold consumeWindow
      split
      · rfl
      · cases window <;> rfl
  exact hfold _ s

theorem grant_penalties {id : JobId} {job : Job} (hj : s.jobs.lookup id = some job) (now : Nat) :
    (s.grant id now).penalties = s.penalties := by
  unfold grant
  rw [hj]
  dsimp only
  rw [(rearmBoundedLane_quiet _ job now).penalties]
  obtain ⟨coalesce, h₁, -⟩ := s.eraseJob_eq id job
  obtain ⟨lanes, p, h₂⟩ := takePermit_eq (s.eraseJob id job) id job
  refine (debit_penalties _ id job now).trans ?_
  rw [h₂, h₁]

theorem turn_penalties {now : Nat} {e : Event} (h : s.turn now = some (s', e)) : s'.penalties = s.penalties := by
  cases turn_cases h with
  | skipped hp => exact (popTurn_quiet hp).penalties
  | @granted s₁ s₂ c job hp hj ha =>
    have hm : Moves s₁ s₂ := by
      have := s₁.admission_moves c now
      rwa [ha] at this
    obtain ⟨job₂, hj₂, -⟩ := hm.job' hj
    have hadmit := s₁.admission_penalties c now
    rw [ha] at hadmit
    rw [(rearmReservations_quiet _ c now).penalties, grant_penalties hj₂, hadmit]
    exact (popTurn_quiet hp).penalties
  | @held s₁ s₂ c job verdict hp hj ha hne =>
    have hadmit := s₁.admission_penalties c now
    rw [ha] at hadmit
    rw [(settle_quiet s₂ c now hne).penalties, hadmit]
    exact (popTurn_quiet hp).penalties

/-- What a grant of the pass says of its job, in the state it is granted in. -/
def Unpenalised (s : SchedulerState) (now : Nat) (g : Grant) : Prop :=
  ∃ job, s.jobs.lookup g.job = some job ∧
    ∀ w ∈ windowsOf job.metadata.scope job.metadata.cls, s.penaltyOn now w = none

theorem Unpenalised.earlier {now : Nat} {g : Grant} (h : Unpenalised s' now g) (hk : KeepsMetadata s s')
    (hp : s'.penalties = s.penalties) : Unpenalised s now g := by
  obtain ⟨job', hl', hw⟩ := h
  obtain ⟨job, hl, hm⟩ := hk _ _ hl'
  refine ⟨job, hl, fun w hmem => ?_⟩
  have h := hw w (hm ▸ hmem)
  unfold penaltyOn activePenalty at h ⊢
  rwa [hp] at h

theorem turn_unpenalised {now : Nat} {e : Event} (h : s.turn now = some (s', e)) :
    ∀ g ∈ grants [e], Unpenalised s now g := by
  cases turn_cases h with
  | skipped => nofun
  | @granted s₁ s₂ c job hp hj ha =>
    intro g hg
    obtain rfl := List.mem_singleton.1 hg
    have hquiet := popTurn_quiet hp
    refine Unpenalised.earlier ?_ (Stays.of_moves hquiet.toMoves).keepsMetadata hquiet.penalties
    have hpass : (s₁.admission c now).2 = .pass := by rw [ha]
    have hscope : c.scope = job.metadata.scope := by
      have hpop := popTurn_popped hp
      cases hpop with
      | job =>
        have hl := (Table.lookup_insert_if _ _ _ _).symm.trans hj
        rw [if_pos rfl] at hl
        cases hl
        rfl
      | lane _ _ _ _ _ _ hl =>
        cases hl.symm.trans hj
        rfl
    refine ⟨job, hj, fun w hw => admission_unpenalised hpass w ?_⟩
    rw [applicableWindows, hj]
    dsimp only
    rwa [hscope]
  | held => nofun

theorem grantLoop_unpenalised {now : Nat} :
    ∀ {fuel : Nat} {s s' : SchedulerState} {gs : List Grant}, grantLoop now fuel s = some (s', gs) →
      s'.penalties = s.penalties ∧ KeepsMetadata s s' ∧ ∀ g ∈ gs, Unpenalised s now g
  | 0, _, _, _, h => by cases h
  | fuel + 1, s, s', gs, h => by
    unfold grantLoop at h
    split at h
    · cases h
      exact ⟨rfl, .refl _, nofun⟩
    · rename_i s₁ hp
      obtain ⟨hpen, hmeta, hgs⟩ := grantLoop_unpenalised h
      have hquiet := popTurn_quiet hp
      have hkeeps := (Stays.of_moves hquiet.toMoves).keepsMetadata
      exact ⟨hpen.trans hquiet.penalties, hkeeps.trans hmeta, fun g hg => (hgs g hg).earlier hkeeps hquiet.penalties⟩
    · rename_i s₁ c hp
      obtain ⟨job, hj⟩ := popTurn_live hp
      obtain ⟨e, ht, hge⟩ := turn_popped hp hj
      rw [Option.map_eq_some_iff] at h
      obtain ⟨⟨s₂, gs₂⟩, hl, h⟩ := h
      cases h
      obtain ⟨hpen, hmeta, hgs⟩ := grantLoop_unpenalised hl
      have hkeeps := turn_keepsMetadata ht
      refine ⟨hpen.trans (turn_penalties ht), hkeeps.trans hmeta, fun g hg => ?_⟩
      rcases List.mem_append.1 hg with hg | hg
      · refine turn_unpenalised ht g ?_
        rw [hge]
        rwa [hj] at hg
      · exact (hgs g hg).earlier hkeeps (turn_penalties ht)

section GrantReady

variable {order : List WindowRef} {fuel now : Nat} {gs : List Grant}

theorem grantReady_keepsMetadata (h : s.grantReady order fuel now = some (s', gs)) : KeepsMetadata s s' := by
  simp only [grantReady, Option.bind_eq_bind, Option.bind_eq_some_iff] at h
  obtain ⟨s₁, h₁, ⟨s₂, gs₂⟩, h₂, h⟩ := h
  cases h
  have hend := (Stays.of_moves (s₂.endPass_moves now)).keepsMetadata
  exact ((beginPass_stays h₁).keepsMetadata.trans (grantLoop_unpenalised h₂).2.1).trans hend

/-- A pass drops the penalties that are over, and no other. -/
theorem grantReady_penalties (h : s.grantReady order fuel now = some (s', gs)) (key : PenaltyKey) :
    s'.penalties.lookup key = (s.penalties.lookup key).filter (now < ·) := by
  simp only [grantReady, Option.bind_eq_bind, Option.bind_eq_some_iff] at h
  obtain ⟨s₁, h₁, ⟨s₂, gs₂⟩, h₂, h⟩ := h
  cases h
  have hbegin : s₁.penalties = s.penalties := congrArg (·.2) (beginPass_accounts h₁)
  rw [← hbegin, ← (grantLoop_unpenalised h₂).1]
  show (s₂.penalties.filterMap _).lookup key = _
  rw [Table.lookup_filterMap]
  cases s₂.penalties.lookup key with
  | none => rfl
  | some deadline =>
    rw [Option.bind_some, Option.filter_some]
    by_cases hd : now < deadline
    · rw [if_pos hd, if_pos (by simpa using hd)]
    · rw [if_neg hd, if_neg (by simpa using hd)]

/-- No penalty that covers a granted job is in force. -/
theorem grantReady_unpenalised (h : s.grantReady order fuel now = some (s', gs)) {g : Grant} (hg : g ∈ gs) :
    ∃ job, s.jobs.lookup g.job = some job ∧ ∀ penalty D, penalty.covers job.metadata.scope = true →
      s.penalties.lookup (.ofScope penalty) = some D → D ≤ now := by
  simp only [grantReady, Option.bind_eq_bind, Option.bind_eq_some_iff] at h
  obtain ⟨s₁, h₁, ⟨s₂, gs₂⟩, h₂, h⟩ := h
  cases h
  obtain ⟨job, hl, hw⟩ := ((grantLoop_unpenalised h₂).2.2 g hg).earlier (beginPass_stays h₁).keepsMetadata
    (congrArg (·.2) (beginPass_accounts h₁))
  exact ⟨job, hl, fun penalty D hc hp => elapsed_of_unpenalised hw hc hp⟩

end GrantReady

/-! ## Registering -/

theorem penalize_lookup (s : SchedulerState) (scope : OutboundScope) (deadline : Nat) (key : PenaltyKey) :
    (s.penalize scope deadline).penalties.lookup key = if key = .ofScope scope then
      some (max ((s.penalties.lookup key).getD deadline) deadline) else s.penalties.lookup key := by
  unfold penalize
  dsimp only
  rw [Table.lookup_insert_if]
  split
  · rename_i hk
    rw [hk]
  · rfl

/-- The penalties of `s'` last as long as those of `s`. -/
def Harder (s s' : SchedulerState) : Prop :=
  ∀ key D, s.penalties.lookup key = some D → ∃ D', s'.penalties.lookup key = some D' ∧ D ≤ D'

theorem Harder.of_eq (h : s'.penalties = s.penalties) : Harder s s' := fun _ D hD => ⟨D, h ▸ hD, Nat.le_refl D⟩

theorem penalize_harder (s : SchedulerState) (scope : OutboundScope) (deadline : Nat) :
    Harder s (s.penalize scope deadline) := fun key D hD => by
  rw [penalize_lookup]
  split
  · exact ⟨_, rfl, by rw [hD]; exact Nat.le_max_left _ _⟩
  · exact ⟨D, hD, Nat.le_refl D⟩

theorem penalize_registers (s : SchedulerState) (scope : OutboundScope) (deadline : Nat) :
    ∃ D, (s.penalize scope deadline).penalties.lookup (.ofScope scope) = some D ∧ deadline ≤ D := by
  rw [penalize_lookup, if_pos rfl]
  exact ⟨_, rfl, Nat.le_max_right _ _⟩

theorem refundWindows_penalties (now weight : Nat) (job : JobId) :
    ∀ (windows : List WindowRef) (s : SchedulerState), (refundWindows now weight job windows s).1.penalties = s.penalties
  | [], _ => rfl
  | window :: windows, s => by
    have hstep : (s.refundWindow now weight job window).1.penalties = s.penalties := by
      have hstore (set : WindowSet) : (s.storeSet window set).penalties = s.penalties := by cases window <;> rfl
      unfold refundWindow
      split
      · rfl
      · dsimp only
        split
        · split <;> rfl
        · exact hstore _
    exact (refundWindows_penalties now weight job windows _).trans hstep

theorem settleCompletion_harder (s : SchedulerState) (job : JobId) (permit : InFlight)
    (completion : OutboundCompletion) (now observedAt : Nat) :
    Harder s (s.settleCompletion job permit completion now observedAt) := by
  unfold settleCompletion
  cases completion with
  | noRequest =>
    dsimp only
    have hr := refundWindows_penalties now permit.weight job (windowsOf permit.scope permit.cls) s
    generalize refundWindows now permit.weight job (windowsOf permit.scope permit.cls) s = r at hr ⊢
    exact .of_eq ((Quiet.foldl (fun s w => rearmReservationOwner_quiet now s w) r.2 r.1).penalties.trans hr)
  | retryAfter scope duration =>
    dsimp only
    split
    · exact .of_eq rfl
    · exact penalize_harder _ _ _
  | success | failed | cancelledAfterGrant => exact .of_eq rfl

theorem Frees.penalties {id : JobId} {permit : InFlight} (h : Frees s id permit s') : s'.penalties = s.penalties := by
  cases h <;> rfl

theorem complete_harder (s : SchedulerState) (job : JobId) (completion : OutboundCompletion) (now observedAt : Nat) :
    Harder s (s.complete job completion now observedAt) := by
  cases hp : s.inFlight.lookup job with
  | none =>
    unfold complete
    rw [hp]
    exact .of_eq rfl
  | some permit =>
    obtain ⟨s₁, s₂, hf, hq, hc⟩ := complete_settles hp completion now observedAt
    have hsame : s₂.penalties = s.penalties := hq.penalties.trans hf.penalties
    rw [hc]
    intro key D hD
    exact settleCompletion_harder s₂ job permit completion now observedAt key D (hsame ▸ hD)

/-- The completion of a permit with a penalty registers it. -/
theorem complete_registers {job : JobId} (h : s.inFlight.contains job = true) (scope : OutboundScope) {duration : Nat}
    (hd : duration ≠ 0) (now observedAt : Nat) :
    ∃ D, (s.complete job (.retryAfter scope duration) now observedAt).penalties.lookup (.ofScope scope) = some D ∧
      observedAt + duration ≤ D := by
  obtain ⟨permit, hp⟩ := (Table.contains_iff _ _).1 h
  obtain ⟨s₁, s₂, -, -, hc⟩ := complete_settles hp (.retryAfter scope duration) now observedAt
  rw [hc]
  unfold settleCompletion
  dsimp only
  rw [if_neg hd]
  exact penalize_registers _ _ _

theorem setLimits_penalties (s : SchedulerState) (limits : OutboundLimits) (order : List CandidateRef) (now : Nat) :
    (s.setLimits limits order now).1.penalties = s.penalties := by
  unfold setLimits
  split
  · rfl
  · split
    · rfl
    · split
      · rfl
      · exact (rearmBlockedAndParked_quiet _ order now).penalties

theorem setClassLimits_penalties (s : SchedulerState) (limits : OutboundClassLimits) (order : List CandidateRef)
    (now : Nat) : (s.setClassLimits limits order now).1.penalties = s.penalties := by
  unfold setClassLimits
  split
  · rfl
  · split
    · rfl
    · exact (rearmBlockedAndParked_quiet _ order now).penalties

end SchedulerState

end Teloxide.Outbound
