import Teloxide.Outbound.Scheduler.Retain

/-!
# How many jobs of a lane are in flight

A lane counts its permits in its `LaneState`, which leaves the map with the last job that is
pending in it. For a serial or an ordered lane this happens only once its job is through. A
bounded lane whose other jobs have been cancelled forgets in this way the permits that are
out, and gives as many again.

* `Counted`: the count of a lane is the number of its jobs in flight that hold the next ones
  back.
* `unbounded_lanes_hold`: a serial lane has one job in flight, an ordered one that has not started.
* `lanes_bounded`: as long as no lane is dropped with permits out, every lane keeps to its
  mode.
* `lane_forgets`: three jobs in flight in a lane of two permits.
-/
namespace Teloxide.Outbound

open Teloxide.Core SchedulerState

/-- The jobs granted through a lane and not completed yet. -/
def outstanding (lane : OutboundLaneKey) (τ : List Event) : List JobId :=
  (laneGrants lane τ).filter fun id => phase τ id = .inFlight

/-- Those of them that hold the lane back. -/
def awaited (mode : OutboundLaneMode) (lane : OutboundLaneKey) (τ : List Event) : List JobId :=
  match mode with
  | .orderedStart => (outstanding lane τ).filter (!begun τ ·)
  | .serial | .boundedOrderedStart _ => outstanding lane τ

/-- The lane keeps to its mode. -/
def LaneBounded (mode : OutboundLaneMode) (lane : OutboundLaneKey) (τ : List Event) : Prop :=
  match mode with
  | .serial => (outstanding lane τ).length ≤ 1
  | .orderedStart => ((outstanding lane τ).filter (!begun τ ·)).length ≤ 1
  | .boundedOrderedStart maxInFlight => (outstanding lane τ).length ≤ maxInFlight.val

/-- The requests of a lane all have its mode. -/
def FixedMode (mode : OutboundLaneKey → OutboundLaneMode) (x : Sys) : Action → Prop :=
  Allows (fun lane m => mode lane = m) x

/-- The step drops no lane that has permits out. -/
def LanesSafe (mode : OutboundLaneKey → OutboundLaneMode) (x : Sys) (a : Action) : Prop :=
  FixedMode mode x a ∧
    match a with
    | .enqueue metadata options => ∀ old oldJob,
        x.sched.supersededJob (coalesceKeyOf metadata options.mode) = some (old, oldJob) → x.sched.OwnHoldClear old
    | .cancel id _ => x.sched.OwnHoldClear id
    | .complete id completion _ _ => x.sched.CompletionClear id completion
    | .setLimits .. | .setClassLimits .. => x.sched.WaitingClear
    | .turn _ => x.sched.TurnClear
    | .start .. | .penalize .. | .nextDeadline _ | .beginPass .. | .endPass _ => True

/-- A step, and what is known of the lanes in each part of it. -/
inductive Retained (R : SchedulerState → SchedulerState → Prop) (s : SchedulerState) : SchedulerState → Event → Prop
  | kept {s' e} : Change s s' e → R s s' → (∀ g m t, e ≠ .granted g m t) → (∀ id c t, e ≠ .completed id c t) →
      Retained R s s' e
  | granted {s₁ s₂ s' c job now} : Popped s now s₁ c → s₁.jobs.lookup c.job = some job → Moves s₁ s₂ →
      s₂.lanes = s₁.lanes → R s s₂ → Grants s₂ c.job job s' → R (s₂.takePermit c.job job) s' →
      Retained R s s' (.granted ⟨c.job, job.correlationId⟩ job.metadata now)
  | nothing {id completion now} : s.inFlight.lookup id = none → Retained R s s (.completed id completion now)
  | completed {s₁ s' id permit completion now} : s.inFlight.lookup id = some permit →
      Frees { s with inFlight := s.inFlight.erase id } id permit s₁ → Moves s₁ s' → R s₁ s' →
      Retained R s s' (.completed id completion now)

/-- Of the lanes in a step that are dropped, nothing is known. -/
def AnyLanes (_ _ : SchedulerState) : Prop := True

theorem call_ungranted {s s' : SchedulerState} {a : Action} {e : Event} (hc : s.call a = some (s', e)) (g : Grant)
    (metadata : OutboundMeta) (now : Nat) : e ≠ .granted g metadata now := by
  cases a with
  | enqueue =>
    simp only [call] at hc
    split at hc
    · split at hc <;> cases hc
      simp
    · cases hc
      simp
  | setLimits | setClassLimits =>
    simp only [call] at hc
    split at hc <;> cases hc
    simp
  | cancel | start | complete | penalize | nextDeadline =>
    cases hc
    simp
  | beginPass | turn | endPass => cases hc

theorem Retained.of_change {s s' : SchedulerState} {e : Event} (h : Change s s' e)
    (hg : ∀ g metadata now, e ≠ .granted g metadata now) : Retained AnyLanes s s' e := by
  have hkept (hd : ∀ id c t, e ≠ .completed id c t) : Retained AnyLanes s s' e := .kept h trivial hg hd
  cases h with
  | stays _ hidle =>
    refine hkept fun id c t he => ?_
    subst he
    cases hidle
  | entered | replaced | cancelled | cancelledLate | started => exact hkept fun _ _ _ => by simp
  | completed hc =>
    cases hc with
    | nothing hnone => exact .nothing hnone
    | done hp hf hm => exact .completed hp hf hm trivial
  | granted => exact absurd rfl (hg _ _ _)

theorem step_any {x x' : Sys} {a : Action} {e : Event} (hs : scheduler.step x a = some (x', e)) :
    Retained AnyLanes x.sched x'.sched e := by
  have hchange := step_change hs
  cases step_steps hs with
  | call _ _ hc => exact .of_change hchange fun g m t => call_ungranted hc g m t
  | began | ended => exact .of_change hchange fun _ _ _ => by simp
  | @turn now _ _ _ _ ht =>
    cases turn_cases ht with
    | skipped | held => exact .of_change hchange fun _ _ _ => by simp
    | @granted s₁ s₂ c job hp hj ha =>
      obtain ⟨hjobs, hlanes⟩ := admission_maps ha
      have hm := s₁.admission_moves c now
      rw [ha] at hm
      exact .granted (popTurn_popped hp) hj hm hlanes trivial
        ((grant_grants (hjobs ▸ hj) _).then_moves (rearmReservations_quiet _ c _).toMoves) trivial

theorem call_retained {mode : OutboundLaneKey → OutboundLaneMode} {x : Sys} {a : Action} {s' : SchedulerState} {e : Event}
    (ho : LanesSafe mode x a) (hc : x.sched.call a = some (s', e)) : Retained Retains x.sched s' e := by
  have hchange := call_change hc
  have hkept (hr : Retains x.sched s') (hd : ∀ id c t, e ≠ .completed id c t) : Retained Retains x.sched s' e :=
    .kept hchange hr (call_ungranted hc) hd
  cases a with
  | enqueue metadata options =>
    have hr : Retains x.sched (x.sched.enqueue metadata options).1 := enqueue_retains ho.2
    simp only [call] at hc
    split at hc
    · rename_i hq
      split at hc
      · cases hc
        rw [hq] at hr
        exact hkept hr fun _ _ _ => by simp
      · cases hc
    · rename_i hq
      cases hc
      rw [hq] at hr
      exact hkept hr fun _ _ _ => by simp
  | cancel id now =>
    cases hc
    exact hkept (cancel_retains ho.2) fun _ _ _ => by simp
  | start id now =>
    cases hc
    exact hkept (start_retains _ id now) fun _ _ _ => by simp
  | complete id completion now observedAt =>
    cases hc
    cases hp : x.sched.inFlight.lookup id with
    | none =>
      have hsame : x.sched.complete id completion now observedAt = x.sched := by
        unfold complete
        rw [hp]
      rw [hsame]
      exact .nothing hp
    | some permit =>
      obtain ⟨s₁, hf, hm, hr⟩ : ∃ s₁, Frees { x.sched with inFlight := x.sched.inFlight.erase id } id permit s₁ ∧
        Moves s₁ (x.sched.complete id completion now observedAt) ∧
          Retains s₁ (x.sched.complete id completion now observedAt) := complete_retains observedAt hp ho.2
      exact .completed hp hf hm hr
  | penalize scope deadline now =>
    cases hc
    exact hkept (.of_eq rfl) fun _ _ _ => by simp
  | setLimits limits order now =>
    simp only [call] at hc
    split at hc
    · rename_i hperm
      cases hc
      exact hkept (setLimits_retains limits fun r hr => ho.2 r (hperm.mem_iff.1 hr)) fun _ _ _ => by simp
    · cases hc
  | setClassLimits limits order now =>
    simp only [call] at hc
    split at hc
    · rename_i hperm
      cases hc
      exact hkept (setClassLimits_retains limits fun r hr => ho.2 r (hperm.mem_iff.1 hr)) fun _ _ _ => by simp
    · cases hc
  | nextDeadline now =>
    cases hc
    refine hkept (.of_eq ?_) fun _ _ _ => by simp
    rw [nextDeadline_fst]
    rfl
  | beginPass | turn | endPass => cases hc

theorem step_retained {mode : OutboundLaneKey → OutboundLaneMode} {τ : List Event} {x x' : Sys} {a : Action} {e : Event}
    (h : LaneFifo τ x.sched) (hst : x.sched.Steady fun lane m => mode lane = m) (ho : LanesSafe mode x a)
    (hs : scheduler.step x a = some (x', e)) : Retained Retains x.sched x'.sched e := by
  have hchange := step_change hs
  cases step_steps hs with
  | @began order fuel now s' _ _ hb =>
    exact .kept hchange (beginPass_retains h.lined hb) (fun _ _ _ => by simp) fun _ _ _ => by simp
  | ended =>
    exact .kept hchange (.of_eq rfl) (fun _ _ _ => by simp) fun _ _ _ => by simp
  | turn _ _ ht =>
    cases turn_retains h hst ho.2 ht with
    | idle hstays hidle hr =>
      refine .kept hchange hr (fun _ _ _ he => ?_) fun _ _ _ he => ?_
      · rw [he] at hidle
        cases hidle
      · rw [he] at hidle
        cases hidle
    | granted hp hj hm hl hr hg hr' => exact .granted hp hj hm hl hr hg hr'
  | call _ _ hc => exact call_retained ho hc

/-! ## The count of a lane -/

/-- The permits that a lane in this mode has at a time. -/
def OutboundLaneMode.permits : OutboundLaneMode → Nat
  | .serial | .orderedStart => 1
  | .boundedOrderedStart maxInFlight => maxInFlight.val

theorem hasCapacity_iff {l : LaneState} : l.hasCapacity = true ↔ l.inFlightCount < l.mode.permits := by
  unfold LaneState.hasCapacity OutboundLaneMode.hasCapacity OutboundLaneMode.permits
  cases l.mode with
  | serial | orderedStart => simp [Nat.lt_one_iff]
  | boundedOrderedStart => simp

/-- A lane in this mode, or no lane, that counts these jobs. -/
def Counts (m : OutboundLaneMode) (jobs : List JobId) : Option LaneState → Prop
  | none => jobs = []
  | some l => l.mode = m ∧ l.inFlightCount = jobs.length ∧ l.inFlightCount ≤ m.permits ∧
      (m.isBounded = false → l.inFlight.toList = jobs)

namespace Counts

variable {m : OutboundLaneMode} {jobs : List JobId} {o o' : Option LaneState} {l l' : LaneState}

theorem fresh (m : OutboundLaneMode) : Counts m [] (some (.new m)) := ⟨rfl, rfl, Nat.zero_le _, fun _ => rfl⟩

theorem congr (h : Counts m jobs (some l)) (hm : l'.mode = l.mode) (hi : l'.inFlight = l.inFlight)
    (hc : l'.inFlightCount = l.inFlightCount) : Counts m jobs (some l') := by
  obtain ⟨hmode, hcount, hle, hfirst⟩ := h
  exact ⟨hm.trans hmode, hc.trans hcount, hc ▸ hle, fun hb => hi ▸ hfirst hb⟩

theorem nil_of_zero (h : Counts m jobs (some l)) (hz : l.inFlightCount = 0) : jobs = [] :=
  List.length_eq_zero_iff.1 (h.2.1 ▸ hz)

theorem length_le (h : Counts m jobs o) : jobs.length ≤ m.permits := by
  cases o with
  | none =>
    have hnil : jobs = [] := h
    rw [hnil]
    exact Nat.zero_le _
  | some l =>
    obtain ⟨-, hcount, hle, -⟩ := h
    exact hcount ▸ hle

/-- A lane without a bound that can be dropped has no permit out. -/
theorem idle (h : Counts m jobs (some l)) (hb : m.isBounded = false) (hfree : l.hasCapacity = true ∨ l.free = true) :
    jobs = [] := by
  have hmode := h.1
  rcases hfree with hcap | hfree
  · refine h.nil_of_zero ?_
    rw [hasCapacity_iff, hmode] at hcap
    unfold OutboundLaneMode.permits at hcap
    split at hcap
    · omega
    · omega
    · cases hb
  · rw [← h.2.2.2 hb]
    unfold LaneState.free at hfree
    rw [hmode] at hfree
    split at hfree
    · cases hb
    · rw [Option.isNone_iff_eq_none.1 hfree]
      rfl
    · rw [Option.isNone_iff_eq_none.1 hfree]
      rfl

/-- A lane that moves keeps its count; a bounded one has to be retained when it is busy. -/
theorem moved {live : JobId → Bool} (h : Counts m jobs o) (hm : LaneMoved live o o')
    (hr : m.isBounded = true → ∀ l, o = some l → l.Busy → ∃ l', o' = some l') : Counts m jobs o' := by
  cases hm with
  | absent => exact h
  | kept hmode hin hcount => exact h.congr hmode hin hcount
  | @dropped l _ hfree =>
    cases hb : m.isBounded with
    | true =>
      refine h.nil_of_zero (Decidable.byContradiction fun hout => ?_)
      obtain ⟨l', hl'⟩ := hr hb l rfl ⟨h.1 ▸ hb, hout⟩
      cases hl'
    | false => exact h.idle hb hfree

/-- A permit is taken. -/
theorem taken (h : Counts m jobs (some l)) (hc : l.hasCapacity = true) (id : JobId) :
    Counts m (id :: jobs) (some (l.taken id)) := by
  obtain ⟨hmode, hcount, -, -⟩ := h
  have hlt := hasCapacity_iff.1 hc
  rw [hmode] at hlt
  refine ⟨hmode, congrArg (· + 1) hcount, hlt, fun hb => ?_⟩
  have hone : m.permits = 1 := by
    cases m with
    | serial | orderedStart => rfl
    | boundedOrderedStart => cases hb
  have hnil : jobs = [] := List.length_eq_zero_iff.1 (by omega)
  have hb' : l.mode.isBounded = false := hmode ▸ hb
  simp [LaneState.taken, hb', hnil]

/-- A permit is given back. -/
theorem released (h : Counts m jobs (some l)) {id : JobId} (hr : l.releasePermit id = some l') (hn : jobs.Nodup)
    (hid : id ∈ jobs) : Counts m (jobs.filter (· != id)) (some l') := by
  obtain ⟨hmode, hcount, hle, hfirst⟩ := h
  have hlen : (jobs.filter (· != id)).length + 1 = jobs.length := by
    rw [← hn.erase_eq_filter id, List.length_erase_of_mem hid]
    exact Nat.sub_add_cancel (List.length_pos_of_mem hid)
  rcases releasePermit_cases hr with ⟨hb, -, rfl⟩ | ⟨hb, hi, rfl⟩
  · refine ⟨hmode, ?_, ?_, fun hb' => ?_⟩
    · dsimp only
      omega
    · dsimp only
      omega
    · rw [hmode, hb'] at hb
      cases hb
  · have hjobs := hfirst (hmode ▸ hb)
    rw [hi] at hjobs
    subst hjobs
    exact ⟨hmode, by simp [LaneState.restarted], by simp [LaneState.restarted], fun _ => by simp [LaneState.restarted]⟩

end Counts

/-! ## The jobs that a lane waits for -/

theorem laneGrants_sublist (lane : OutboundLaneKey) :
    ∀ τ : List Event, (laneGrants lane τ).Sublist ((grants τ).map (·.job))
  | [] => .slnil
  | .granted g m _ :: τ => by
    have ih := laneGrants_sublist lane τ
    simp only [laneGrants, grants, List.map_cons]
    split
    · exact ih.cons_cons _
    · exact ih.cons _
  | .enqueued .. :: τ | .rejected .. :: τ | .cancelled .. :: τ | .started .. :: τ | .completed .. :: τ
  | .penalized .. :: τ | .limited .. :: τ | .woke .. :: τ | .began _ :: τ | .skipped _ :: τ | .held .. :: τ
  | .ended _ :: τ => laneGrants_sublist lane τ

section
variable {τ : List Event} {s s' : SchedulerState} {lane : OutboundLaneKey} {e : Event}

/-- A job granted through a lane is in flight or completed. -/
theorem phase_of_granted (h : Life τ s) {id : JobId} (hid : id ∈ laneGrants lane τ) :
    phase τ id = .inFlight ∨ phase τ id = .completed := by
  obtain ⟨g, hg, rfl⟩ := List.mem_map.1 ((laneGrants_sublist lane τ).mem hid)
  exact h.once.2 g hg

theorem awaited_sublist (mode : OutboundLaneMode) (lane : OutboundLaneKey) (τ : List Event) :
    (awaited mode lane τ).Sublist (outstanding lane τ) := by
  unfold awaited
  split
  · exact List.filter_sublist
  · exact .refl _
  · exact .refl _

theorem awaited_nodup (h : Life τ s) (mode : OutboundLaneMode) : (awaited mode lane τ).Nodup :=
  (((h.once.1.sublist (laneGrants_sublist lane τ)).sublist List.filter_sublist).sublist (awaited_sublist mode lane τ))

theorem mem_awaited (mode : OutboundLaneMode) {id : JobId} : id ∈ awaited mode lane τ ↔
    id ∈ laneGrants lane τ ∧ phase τ id = .inFlight ∧ (mode = .orderedStart → begun τ id = false) := by
  unfold awaited outstanding
  cases mode with
  | orderedStart => simp only [List.mem_filter, decide_eq_true_eq, Bool.not_eq_true', and_assoc, forall_const]
  | serial | boundedOrderedStart => simp

/-- The same grants at the same phases. -/
theorem awaited_congr (mode : OutboundLaneMode) (hl : laneGrants lane (e :: τ) = laneGrants lane τ)
    (hp : ∀ id ∈ laneGrants lane τ, phase (e :: τ) id = .inFlight ↔ phase τ id = .inFlight)
    (hb : ∀ id, begun (e :: τ) id = begun τ id) : awaited mode lane (e :: τ) = awaited mode lane τ := by
  have hout : outstanding lane (e :: τ) = outstanding lane τ := by
    unfold outstanding
    rw [hl]
    exact List.filter_congr fun id hid => decide_eq_decide.2 (hp id hid)
  unfold awaited
  rw [hout]
  split
  · exact List.filter_congr fun id _ => by rw [hb]
  · rfl
  · rfl

theorem awaited_idle (mode : OutboundLaneMode) (he : e.isIdle = true) :
    awaited mode lane (e :: τ) = awaited mode lane τ :=
  awaited_congr mode (laneGrants_idle he lane τ) (fun id _ => by rw [phase_idle he]) fun id => begun_idle he τ id

theorem awaited_enqueued (mode : OutboundLaneMode) {metadata : OutboundMeta} {options : EnqueueOptions}
    {o : EnqueueOutcome} (h : Life τ s) (hlaw : Lawful τ (.enqueued metadata options o)) :
    awaited mode lane (.enqueued metadata options o :: τ) = awaited mode lane τ := by
  refine awaited_congr mode rfl (fun id hid => ?_) fun id => rfl
  have hphase := phase_of_granted h hid
  have hne : id ≠ o.job := by
    rintro rfl
    rw [hlaw.1] at hphase
    simp at hphase
  have hold : o.superseded ≠ some id := by
    intro hs
    rw [hlaw.2 id hs] at hphase
    simp at hphase
  simp only [phase, if_neg hne, if_neg hold]

theorem awaited_cancelled (mode : OutboundLaneMode) (job : JobId) (now : Nat) :
    awaited mode lane (.cancelled job now :: τ) = awaited mode lane τ := by
  refine awaited_congr mode rfl (fun id _ => ?_) fun id => rfl
  simp only [phase]
  split
  · rename_i hp
    simp [hp.2]
  · rfl

theorem awaited_completed (mode : OutboundLaneMode) (job : JobId) (completion : OutboundCompletion) (now : Nat) :
    awaited mode lane (.completed job completion now :: τ) = (awaited mode lane τ).filter (· != job) := by
  have hphase (id : JobId) : decide (phase (.completed job completion now :: τ) id = .inFlight) =
      (id != job && decide (phase τ id = .inFlight)) := by
    simp only [phase]
    by_cases hid : id = job
    · subst hid
      by_cases hin : phase τ id = .inFlight <;> simp [hin]
    · simp [hid]
  have hout : outstanding lane (.completed job completion now :: τ) = (outstanding lane τ).filter (· != job) := by
    unfold outstanding
    rw [List.filter_filter]
    exact List.filter_congr fun id _ => hphase id
  unfold awaited
  rw [hout]
  split
  · rw [List.filter_filter, List.filter_filter]
    exact List.filter_congr fun id _ => Bool.and_comm _ _
  · rfl
  · rfl

theorem awaited_started (job : JobId) (now : Nat) :
    awaited .orderedStart lane (.started job now :: τ) = (awaited .orderedStart lane τ).filter (· != job) := by
  have hout : outstanding lane (.started job now :: τ) = outstanding lane τ := rfl
  unfold awaited
  rw [hout, List.filter_filter]
  refine List.filter_congr fun id hid => ?_
  have hin : phase τ id = .inFlight := by simpa using (List.mem_filter.1 hid).2
  simp [begun, hin, bne, Bool.not_or]

theorem awaited_started_other {mode : OutboundLaneMode} (hm : mode ≠ .orderedStart) (job : JobId) (now : Nat) :
    awaited mode lane (.started job now :: τ) = awaited mode lane τ := by
  cases mode with
  | orderedStart => exact absurd rfl hm
  | serial | boundedOrderedStart => rfl

theorem awaited_granted (mode : OutboundLaneMode) (h : Life τ s) {g : Grant} (metadata : OutboundMeta) (now : Nat)
    (hp : phase τ g.job = .pending) : awaited mode lane (.granted g metadata now :: τ) =
      if metadata.lane = some lane then g.job :: awaited mode lane τ else awaited mode lane τ := by
  have hnew : g.job ∉ laneGrants lane τ := by
    intro hid
    have := phase_of_granted h hid
    rw [hp] at this
    simp at this
  have hbegun : begun τ g.job = false := by
    rw [Bool.eq_false_iff]
    exact fun hb => (h.released g.job hb).1 hp
  have hold : (laneGrants lane τ).filter (fun id => decide (phase (.granted g metadata now :: τ) id = .inFlight)) =
      outstanding lane τ := by
    refine List.filter_congr fun id hid => ?_
    have hne : id ≠ g.job := fun heq => hnew (heq ▸ hid)
    simp only [phase, if_neg hne]
  unfold awaited
  by_cases hl : metadata.lane = some lane
  · have hout : outstanding lane (.granted g metadata now :: τ) = g.job :: outstanding lane τ := by
      rw [outstanding, laneGrants, if_pos hl, List.filter_cons, hold]
      simp [phase]
    rw [hout, if_pos hl]
    cases mode with
    | orderedStart => simp [begun, hbegun]
    | serial | boundedOrderedStart => rfl
  · have hout : outstanding lane (.granted g metadata now :: τ) = outstanding lane τ := by
      rw [outstanding, laneGrants, if_neg hl, hold]
    rw [hout, if_neg hl]
    cases mode <;> rfl

end

/-! ## One step -/

section
variable {mode : OutboundLaneKey → OutboundLaneMode} {P : OutboundLaneKey → Prop} {τ : List Event} {s s' : SchedulerState}
  {e : Event}

/-- These of the lanes, if they are bounded, stay while they are busy. -/
def Held (mode : OutboundLaneKey → OutboundLaneMode) (P : OutboundLaneKey → Prop) (s s' : SchedulerState) : Prop :=
  ∀ lane, P lane → (mode lane).isBounded = true → ∀ l, s.lanes.lookup lane = some l → l.Busy →
    ∃ l', s'.lanes.lookup lane = some l' ∧ l'.Busy

theorem held_of_retains (mode : OutboundLaneKey → OutboundLaneMode) (h : Retains s s') : Held mode (fun _ => True) s s' :=
  fun lane _ _ l => h lane l

theorem held_unbounded (mode : OutboundLaneKey → OutboundLaneMode) (s s' : SchedulerState) :
    Held mode (fun lane => (mode lane).isBounded = false) s s' := by
  intro lane hun hb
  rw [hun] at hb
  cases hb

theorem Held.some (h : Held mode P s s') {lane : OutboundLaneKey} (hP : P lane) (hb : (mode lane).isBounded = true)
    (l : LaneState) (hl : s.lanes.lookup lane = some l) (hbusy : l.Busy) : ∃ l', s'.lanes.lookup lane = some l' := by
  obtain ⟨l', hl', -⟩ := h lane hP hb l hl hbusy
  exact ⟨l', hl'⟩

/-- Each of these lanes counts the jobs it waits for, and a permit is of the lane it was granted through. -/
structure Counted (mode : OutboundLaneKey → OutboundLaneMode) (P : OutboundLaneKey → Prop) (τ : List Event)
    (s : SchedulerState) : Prop where
  lanes : ∀ lane, P lane → Counts (mode lane) (awaited (mode lane) lane τ) (s.lanes.lookup lane)
  permits : ∀ id permit, s.inFlight.lookup id = some permit → ∀ lane,
    permit.lane = some lane ↔ id ∈ laneGrants lane τ

/-- No lane goes when a job enters. -/
theorem entered_some {metadata : OutboundMeta} {options : EnqueueOptions} {slot : Slot} {k : OutboundLaneKey}
    {l : LaneState} (h : s.lanes.lookup k = some l) :
    ∃ l', (s.entered metadata options slot).lanes.lookup k = some l' := by
  have hinsert (t : Table OutboundLaneKey LaneState) (lane : OutboundLaneKey) (l₁ : LaneState)
      (ht : ∃ l', t.lookup k = some l') : ∃ l', (t.insert lane l₁).lookup k = some l' := by
    rw [Table.lookup_insert_if]
    split
    · exact ⟨_, rfl⟩
    · exact ht
  unfold entered
  split
  · simp only [enterLane, insertLanePending]
    split
    · exact hinsert _ _ _ ⟨l, h⟩
    · split
      · exact hinsert _ _ _ (hinsert _ _ _ ⟨l, h⟩)
      · exact hinsert _ _ _ ⟨l, h⟩
  · exact ⟨l, h⟩

/-- The lane of the new job has its mode, so that it counts as before. -/
theorem counts_entered {m : OutboundLaneMode} {metadata : OutboundMeta} {options : EnqueueOptions} {slot : Slot}
    {k : OutboundLaneKey} {jobs : List JobId} (h : Counts m jobs (s.lanes.lookup k))
    (hm : ∀ l', (s.entered metadata options slot).lanes.lookup k = some l' → l'.mode = m) :
    Counts m jobs ((s.entered metadata options slot).lanes.lookup k) := by
  cases ho : (s.entered metadata options slot).lanes.lookup k with
  | none =>
    cases hs : s.lanes.lookup k with
    | none => exact hs ▸ h
    | some l =>
      obtain ⟨l', hl'⟩ : ∃ l', (s.entered metadata options slot).lanes.lookup k = some l' := entered_some hs
      rw [ho] at hl'
      cases hl'
  | some l' =>
    obtain ⟨l, hl | ⟨hnone, rfl⟩, hmode, hi, hc⟩ := entered_lane ho
    · rw [hl] at h
      exact h.congr hmode hi hc
    · rw [hnone] at h
      have hjobs : jobs = [] := h
      have hm' : options.laneMode = m := hmode.symm.trans (hm l' ho)
      rw [hjobs, ← hm']
      exact (Counts.fresh options.laneMode).congr hmode hi hc

namespace Counted

/-- A step in which no lane waits for other jobs. -/
theorem of_same (h : Counted mode P τ s) (ha : ∀ m lane, awaited m lane (e :: τ) = awaited m lane τ)
    (hg : ∀ lane, laneGrants lane (e :: τ) = laneGrants lane τ) (hi : s'.inFlight = s.inFlight)
    (hl : ∀ lane, P lane → Counts (mode lane) (awaited (mode lane) lane τ) (s.lanes.lookup lane) →
      Counts (mode lane) (awaited (mode lane) lane τ) (s'.lanes.lookup lane)) : Counted mode P (e :: τ) s' where
  lanes lane hP := by
    rw [ha]
    exact hl lane hP (h.lanes lane hP)
  permits id permit hp lane := by
    rw [hg]
    exact h.permits id permit (hi ▸ hp) lane

/-- The jobs move, and the lanes with them. -/
theorem of_moved {live : JobId → Bool} (h : Counted mode P τ s)
    (ha : ∀ m lane, awaited m lane (e :: τ) = awaited m lane τ)
    (hg : ∀ lane, laneGrants lane (e :: τ) = laneGrants lane τ) (hi : s'.inFlight = s.inFlight)
    (hl : ∀ lane, LaneMoved live (s.lanes.lookup lane) (s'.lanes.lookup lane)) (hr : Held mode P s s') :
    Counted mode P (e :: τ) s' :=
  h.of_same ha hg hi fun lane hP hc => hc.moved (hl lane) (hr.some hP)

theorem of_started (h : Counted mode P τ s) (hlife : Life τ s) (hst : s.Steady fun lane m => mode lane = m) {id : JobId}
    {now : Nat} (hs : Starts s id s') (hr : Held mode P s s') : Counted mode P (.started id now :: τ) s' := by
  have hother {lane : OutboundLaneKey} (hnot : mode lane = .orderedStart → id ∉ awaited .orderedStart lane τ) :
      awaited (mode lane) lane (.started id now :: τ) = awaited (mode lane) lane τ := by
    cases hm : mode lane with
    | orderedStart =>
      rw [awaited_started, List.filter_eq_self]
      intro a ha
      rw [bne_iff_ne]
      rintro rfl
      exact hnot hm ha
    | serial => exact awaited_started_other (by simp) id now
    | boundedOrderedStart => exact awaited_started_other (by simp) id now
  cases hs with
  | nothing hreleased =>
    refine ⟨fun lane hP => ?_, h.permits⟩
    rw [hother fun hm hid => ?_]
    · exact h.lanes lane hP
    · -- the lane waits for the job, so that it is not released
      obtain ⟨hgranted, hin, -⟩ := (mem_awaited .orderedStart).1 hid
      obtain ⟨permit, hp⟩ := (Table.contains_iff _ _).1 ((hlife.inFlight id).2 hin)
      have hc := h.lanes lane hP
      rw [hm] at hc
      cases hl : s.lanes.lookup lane with
      | none =>
        rw [hl] at hc
        have hnil : awaited .orderedStart lane τ = [] := hc
        rw [hnil] at hid
        cases hid
      | some l =>
        rw [hl] at hc
        obtain ⟨hmode, -, -, hjobs⟩ := hc
        rw [← hjobs rfl, Option.mem_toList] at hid
        exact hreleased permit lane l hp ((h.permits id permit hp lane).2 hgranted) hl hmode hid
  | @freed permit lane l _ hp hlane hl hm hin hq =>
    have hmode : mode lane = .orderedStart := (hst lane l hl).mode.trans hm
    refine ⟨fun k hP => ?_, fun a p ha k => ?_⟩
    · have hmoved := hq.lanes k
      rw [Table.lookup_insert_if] at hmoved
      split at hmoved
      · rename_i hk
        subst hk
        have hc := h.lanes k hP
        rw [hmode, hl] at hc
        have hjobs := hc.2.2.2 rfl
        rw [hin] at hjobs
        have hnil : awaited .orderedStart k (.started id now :: τ) = [] := by
          rw [awaited_started, ← hjobs]
          simp
        rw [hmode, hnil]
        have hidle : Counts .orderedStart [] (some l.restarted) := ⟨hm, rfl, Nat.zero_le _, fun _ => rfl⟩
        exact hidle.moved hmoved fun hb => (by cases hb)
      · rename_i hk
        rw [hother fun _ hid => ?_]
        · exact (h.lanes k hP).moved hmoved (hr.some hP)
        · have hgranted := ((mem_awaited .orderedStart).1 hid).1
          rw [← h.permits id permit hp k, hlane] at hgranted
          exact hk (Option.some.inj hgranted).symm
    · rw [hq.inFlight] at ha
      exact h.permits a p ha k

/-- A permit comes back, and the lanes move. -/
theorem of_completed (h : Counted mode P τ s) (hlife : Life τ s) (hst : s.Steady fun lane m => mode lane = m)
    {s₁ : SchedulerState} {id : JobId} {permit : InFlight} {completion : OutboundCompletion} {now : Nat}
    (hp : s.inFlight.lookup id = some permit) (hf : Frees { s with inFlight := s.inFlight.erase id } id permit s₁)
    (hm : Moves s₁ s') (hr : Held mode P s₁ s') : Counted mode P (.completed id completion now :: τ) s' := by
  have hother {lane : OutboundLaneKey} (hnot : id ∉ awaited (mode lane) lane τ) :
      awaited (mode lane) lane (.completed id completion now :: τ) = awaited (mode lane) lane τ := by
    rw [awaited_completed, List.filter_eq_self]
    intro a ha
    rw [bne_iff_ne]
    rintro rfl
    exact hnot ha
  have hforeign {lane : OutboundLaneKey} (hl : permit.lane ≠ some lane) : id ∉ awaited (mode lane) lane τ := by
    intro hid
    exact hl ((h.permits id permit hp lane).2 ((mem_awaited _).1 hid).1)
  have hlanes (lane : OutboundLaneKey) (hP : P lane) :
      Counts (mode lane) (awaited (mode lane) lane (.completed id completion now :: τ)) (s₁.lanes.lookup lane) := by
    have hc := h.lanes lane hP
    cases hf with
    | unlaned hnone =>
      rw [hother (hforeign (by rw [hnone]; simp))]
      exact hc
    | @kept k hlane hkept =>
      rw [hother fun hid => ?_]
      · exact hc
      · have hk : k = lane := by
          have hmem := (h.permits id permit hp lane).2 ((mem_awaited _).1 hid).1
          exact Option.some.inj (hlane.symm.trans hmem)
        subst hk
        cases hl : s.lanes.lookup k with
        | none =>
          rw [hl] at hc
          have hnil : awaited (mode k) k τ = [] := hc
          rw [hnil] at hid
          cases hid
        | some l =>
          -- a lane that waits for the job takes its permit back
          rw [hl] at hc
          obtain ⟨hmode, hcount, -, hjobs⟩ := hc
          have hnone := hkept l hl
          unfold LaneState.releasePermit at hnone
          split at hnone
          · split at hnone
            · rename_i hzero
              rw [hzero] at hcount
              rw [List.length_eq_zero_iff.1 hcount.symm] at hid
              cases hid
            · cases hnone
          · rename_i hb
            rw [hmode, Bool.not_eq_true] at hb
            rw [← hjobs hb, Option.mem_toList] at hid
            rw [hid] at hnone
            simp at hnone
    | @freed k l l' hlane hl hrel =>
      have hl₀ : s.lanes.lookup k = some l := hl
      rw [Table.lookup_insert_if]
      split
      · rename_i hk
        subst hk
        rw [hl₀] at hc
        have hgranted := (h.permits id permit hp lane).1 hlane
        have hin := (hlife.inFlight id).1 ((Table.contains_iff _ _).2 ⟨permit, hp⟩)
        have hid : id ∈ awaited (mode lane) lane τ := by
          rcases releasePermit_cases hrel with ⟨hb, -, -⟩ | ⟨hb, hi, -⟩
          · refine (mem_awaited _).2 ⟨hgranted, hin, fun hm => ?_⟩
            rw [← (hst lane l hl₀).mode, hm] at hb
            cases hb
          · rw [← hc.2.2.2 (hc.1 ▸ hb), Option.mem_toList]
            exact hi
        rw [awaited_completed]
        exact hc.released hrel (awaited_nodup hlife _) hid
      · rename_i hk
        rw [hother (hforeign (by rw [hlane]; simpa using fun he => hk he.symm))]
        exact hc
  refine ⟨fun lane hP => (hlanes lane hP).moved (hm.lanes lane) (hr.some hP), fun a p ha lane => ?_⟩
  have hin : s₁.inFlight = s.inFlight.erase id := by cases hf <;> rfl
  rw [hm.inFlight, hin, Table.lookup_erase_if] at ha
  split at ha
  · cases ha
  · exact h.permits a p ha lane

/-- The front job of a lane takes a permit. -/
theorem of_granted (h : Counted mode P τ s) (hlife : Life τ s) {s₂ : SchedulerState} {c : Candidate} {job : Job}
    {now : Nat} (hm : Moves s s₂) (hfront : s₂.Fronts c.job job) (hr : Held mode P s s₂) (hlive : s.live c.job = true)
    (hg : Grants s₂ c.job job s') (hr' : Held mode P (s₂.takePermit c.job job) s') :
    Counted mode P (.granted ⟨c.job, job.correlationId⟩ job.metadata now :: τ) s' := by
  have hpending : phase τ c.job = .pending := (hlife.pending c.job).1 hlive
  refine ⟨fun lane hP => ?_, fun a p ha lane => ?_⟩
  · have hbefore : Counts (mode lane) (awaited (mode lane) lane τ) (s₂.lanes.lookup lane) :=
      (h.lanes lane hP).moved (hm.lanes lane) (hr.some hP)
    refine Counts.moved ?_ (hg.lanes lane) (hr'.some hP)
    rw [awaited_granted _ hlife job.metadata now hpending]
    cases hlane : job.metadata.lane with
    | none =>
      rw [takePermit_unlaned hlane]
      exact hbefore
    | some k =>
      obtain ⟨l, head, hl, hpeek, -, hcap, -⟩ := hfront k hlane
      obtain ⟨panicked, htake⟩ := takePermit_laned hlane hl hpeek c.job
      rw [htake, Table.lookup_insert_if]
      by_cases hk : lane = k
      · subst hk
        rw [hl] at hbefore
        simpa using hbefore.taken hcap c.job
      · rw [if_neg hk, if_neg (by simpa using fun he => hk he.symm)]
        exact hbefore
  · rw [hg.inFlight, Table.lookup_insert_if] at ha
    simp only [laneGrants]
    split at ha
    · rename_i hid
      subst hid
      cases ha
      split
      · rename_i hlane
        simp [permitOf, hlane]
      · rename_i hlane
        simp only [permitOf, hlane, false_iff]
        intro hmem
        have hphase := phase_of_granted hlife hmem
        rw [hpending] at hphase
        simp at hphase
    · rename_i hid
      rw [hm.inFlight] at ha
      rw [h.permits a p ha lane]
      split
      · simp [hid]
      · rfl

/-- A job enters, once another one may have left. -/
theorem of_entered (h : Counted mode P τ s) (hlife : Life τ s) (hst : s.Steady fun lane m => mode lane = m)
    {s₁ : SchedulerState} {metadata : OutboundMeta} {options : EnqueueOptions} {slot : Slot} {o : EnqueueOutcome}
    {live : JobId → Bool} (hlaw : Lawful τ (.enqueued metadata options o))
    (hmode : ∀ lane, metadata.lane = some lane → mode lane = options.laneMode) (hi₁ : s₁.inFlight = s.inFlight)
    (hl₁ : ∀ lane, LaneMoved live (s.lanes.lookup lane) (s₁.lanes.lookup lane))
    (hs : Stays (s₁.entered metadata options slot) s') (hr : Held mode P s s') :
    Counted mode P (.enqueued metadata options o :: τ) s' := by
  have hsteady : (s₁.entered metadata options slot).Steady fun lane m => mode lane = m :=
    (hst.of_moved hl₁).entered slot hmode
  refine h.of_same (fun m lane => awaited_enqueued m hlife hlaw) (fun _ => rfl)
    (hs.inFlight.trans ((entered_inFlight _ _ _ _).trans hi₁)) fun lane hP hc => ?_
  have hc₁ : Counts (mode lane) (awaited (mode lane) lane τ) (s₁.lanes.lookup lane) := by
    refine hc.moved (hl₁ lane) fun hb l hl hbusy => ?_
    -- a lane that was dropped would be new, and so idle
    obtain ⟨l', hl', hbusy'⟩ := hr lane hP hb l hl hbusy
    have hmoved := hs.lanes lane
    rw [hl'] at hmoved
    obtain ⟨l₂, hl₂, -, -, hcount⟩ := hmoved.before
    obtain ⟨l₁, hl₁ | ⟨-, rfl⟩, -, -, hcount₁⟩ := entered_lane hl₂
    · exact ⟨l₁, hl₁⟩
    · exact absurd (hcount.trans hcount₁) hbusy'.out
  have hc₂ : Counts (mode lane) (awaited (mode lane) lane τ) ((s₁.entered metadata options slot).lanes.lookup lane) :=
    counts_entered hc₁ fun l' hl' => (hsteady lane l' hl').mode.symm
  refine hc₂.moved (hs.lanes lane) fun hb l₂ hl₂ hbusy => ?_
  obtain ⟨l₁, hl₁' | ⟨-, rfl⟩, hm₁, -, hcount⟩ := entered_lane hl₂
  · have hmoved := hl₁ lane
    rw [hl₁'] at hmoved
    obtain ⟨l, hl, hm, -, hcount'⟩ := hmoved.before
    exact hr.some hP hb l hl ((hbusy.congr hm₁.symm hcount.symm).congr hm.symm hcount'.symm)
  · exact absurd hcount hbusy.out

theorem step {R : SchedulerState → SchedulerState → Prop} (h : Counted mode P τ s) (hlife : Life τ s)
    (hst : s.Steady fun lane m => mode lane = m) (hf : LaneFifo τ s) (hlaw : Lawful τ e)
    (hmode : ∀ metadata options o, e = .enqueued metadata options o →
      ∀ lane, metadata.lane = some lane → mode lane = options.laneMode)
    (hR : ∀ s s', R s s' → Held mode P s s') (hc : Retained R s s' e) : Counted mode P (e :: τ) s' := by
  cases hc with
  | granted hp hj hm hl hr hg hr' =>
    have hfront : SchedulerState.Fronts _ _ _ := fun lane hlane => hl ▸ hp.fronts hf hst hj lane hlane
    exact h.of_granted hlife (hp.quiet.toMoves.trans hm) hfront (hR _ _ hr) (hp.quiet.live_eq ▸ live_of hj) hg (hR _ _ hr')
  | @nothing id completion now hnone =>
    refine ⟨fun lane hP => ?_, h.permits⟩
    rw [awaited_completed, List.filter_eq_self.2 fun a ha => ?_]
    · exact h.lanes lane hP
    · have hin := (hlife.inFlight a).2 ((mem_awaited _).1 ha).2.1
      rw [bne_iff_ne]
      rintro rfl
      rw [Table.contains_iff, hnone] at hin
      simp at hin
  | completed hp hfree hm hr => exact h.of_completed hlife hst hp hfree hm (hR _ _ hr)
  | kept hchange hr hgranted hcompleted =>
    have hheld := hR _ _ hr
    cases hchange with
    | stays hs hidle =>
      exact h.of_moved (fun m lane => awaited_idle m hidle) (fun lane => laneGrants_idle hidle lane τ) hs.inFlight
        hs.lanes hheld
    | entered hs _ _ _ hs' => exact h.of_entered hlife hst hlaw (hmode _ _ _ rfl) hs.inFlight hs.lanes hs' hheld
    | replaced _ hrem _ _ _ hs' => exact h.of_entered hlife hst hlaw (hmode _ _ _ rfl) hrem.inFlight hrem.lanes hs' hheld
    | cancelled _ hrem =>
      exact h.of_moved (fun m lane => awaited_cancelled m _ _) (fun _ => rfl) hrem.inFlight hrem.lanes hheld
    | cancelledLate _ hs =>
      exact h.of_moved (fun m lane => awaited_cancelled m _ _) (fun _ => rfl) hs.inFlight hs.lanes hheld
    | started hs => exact h.of_started hlife hst hs hheld
    | completed => exact absurd rfl (hcompleted _ _ _)
    | granted => exact absurd rfl (hgranted _ _ _)

theorem init (mode : OutboundLaneKey → OutboundLaneMode) (P : OutboundLaneKey → Prop) {x : Sys} (h : scheduler.init x) :
    Counted mode P [] x.sched := by
  obtain ⟨-, limits, classLimits, aging, hok⟩ := h
  have hlanes : x.sched.lanes = ∅ := by
    rw [newWithClassLimits_ok hok]
    rfl
  have hin : x.sched.inFlight = ∅ := by
    rw [newWithClassLimits_ok hok]
    rfl
  refine ⟨fun lane _ => ?_, fun id permit hp => ?_⟩
  · rw [hlanes]
    cases hm : mode lane <;> rfl
  · rw [hin] at hp
    cases hp

theorem run {ok : Sys → Action → Prop} {R : SchedulerState → SchedulerState → Prop} {x : Sys}
    (hfixed : ∀ x a, ok x a → FixedMode mode x a) (hR : ∀ s s', R s s' → Held mode P s s')
    (hret : ∀ τ x a x' e, LaneFifo τ x.sched → (x.sched.Steady fun lane m => mode lane = m) → ok x a →
      scheduler.step x a = some (x', e) → Retained R x.sched x'.sched e) (hr : Run ok τ x) : Counted mode P τ x.sched := by
  refine Machine.Run.induct (I := fun τ x => Counted mode P τ x.sched) (fun _ => Counted.init mode P)
    (fun τ x a x' e hr h hok hs => ?_) hr
  have hsane : Sane (fun lane m => mode lane = m) x := sane_run (hr.mono fun x a => hfixed x a)
  have hfifo : LaneFifo τ x.sched := laneFifo_run (run_resumed hr)
  have hlaw := (life_run (hr.step hok hs)).lawful.1
  refine h.step (life_run hr) hsane.steady hfifo hlaw (fun metadata options o he lane hlane => ?_) hR
    (hret τ x a x' e hfifo hsane.steady hok hs)
  subst he
  have ha := step_enqueued hs
  subst ha
  exact hfixed _ _ hok lane hlane

theorem bounded {lane : OutboundLaneKey} (h : Counted mode P τ s) (hP : P lane) : LaneBounded (mode lane) lane τ := by
  have hle := (h.lanes lane hP).length_le
  unfold awaited at hle
  cases hm : mode lane with
  | serial | orderedStart | boundedOrderedStart =>
    rw [hm] at hle
    exact hle

end Counted

end

/-! ## The condition is decidable -/

section
variable {s : SchedulerState}

instance (lane : OutboundLaneKey) : Decidable (s.Bare lane) :=
  decidable_of_iff ((s.lanes.lookup lane).any (fun l => l.mode.isBounded && decide (l.inFlightCount ≠ 0) && l.hasCapacity &&
    !l.anyLive s.live) = true) <| by
    simp only [Option.any_eq_true, Bool.and_eq_true, decide_eq_true_eq, Bool.not_eq_true']
    exact ⟨fun ⟨l, hl, ⟨⟨hb, ho⟩, hc⟩, hd⟩ => ⟨l, hl, ⟨hb, ho⟩, hc, hd⟩, fun ⟨l, hl, ⟨hb, ho⟩, hc, hd⟩ => ⟨l, hl, ⟨⟨hb, ho⟩, hc⟩, hd⟩⟩

instance (reference : CandidateRef) : Decidable (s.Clear reference) :=
  match reference with
  | .lane lane => decidable_of_iff (¬ s.Bare lane) ⟨fun h _ he => by cases he; exact h, fun h => h lane rfl⟩
  | .job _ => .isTrue fun _ he => by cases he

instance (window : WindowRef) (owner : CandidateRef) : Decidable (s.Releasable window owner) :=
  inferInstanceAs (Decidable (∀ r ∈ s.reservations.lookup window, r.owner = some owner →
    ∀ reference ∈ r.queue, s.Clear reference))

instance (id : JobId) : Decidable (s.OwnHoldClear id) :=
  decidable_of_iff (∀ job ∈ s.jobs.lookup id, ∀ window ∈ job.reservationOwner, s.Releasable window (ownerRef id job))
    ⟨fun h job window hj hw => h job hj window hw, fun h job hj window hw => h job window hj hw⟩

instance (l : LaneState) (live : JobId → Bool) : Decidable (l.LeftBare live) :=
  decidable_of_iff (l.mode.isBounded = true ∧ l.mode.hasCapacity (l.inFlightCount + 1) = true ∧
      l.pending.pop.isEmpty = false ∧ ∀ e ∈ l.pending.pop.entries, live e.job = false)
    ⟨fun ⟨hb, hc, he, hd⟩ => ⟨hb, hc, he, hd⟩, fun ⟨hb, hc, he, hd⟩ => ⟨hb, hc, he, hd⟩⟩

instance : Decidable s.TurnClear :=
  decidable_of_iff (∀ id ∈ s.frontJob, s.OwnHoldClear id ∧ ∀ job ∈ s.jobs.lookup id, ∀ lane ∈ job.metadata.lane,
      ∀ l ∈ s.lanes.lookup lane, ¬ (l.drainDead s.live).LeftBare s.live)
    ⟨fun h => ⟨fun id hf => (h id hf).1, fun id job lane l hf hj hl hk => (h id hf).2 job hj lane hl l hk⟩,
      fun h id hf => ⟨h.hold id hf, fun job hj lane hl l hk => h.left id job lane l hf hj hl hk⟩⟩

/-- A lane that owns a hold would not be dropped when it is woken. -/
def wakeful (s : SchedulerState) : CandidateRef → Bool
  | .lane lane => (s.lanes.lookup lane).all fun l =>
      !(l.inBlockedHeap && l.mode.isBounded && decide (l.inFlightCount ≠ 0)) || l.anyLive s.live
  | .job _ => true

theorem wakeful_iff {lane : OutboundLaneKey} : wakeful s (.lane lane) = true ↔
    ∀ l, s.lanes.lookup lane = some l → l.inBlockedHeap = true → l.Busy → l.anyLive s.live = true := by
  simp only [wakeful, Option.all_eq_true, Bool.or_eq_true, Bool.not_eq_true', Bool.and_eq_false_iff, decide_eq_false_iff_not]
  refine ⟨fun h l hl hb hbusy => ?_, fun h l hl => ?_⟩
  · rcases h l hl with ((h | h) | h) | h
    · exact absurd hb (by simp [h])
    · exact absurd hbusy.bounded (by simp [h])
    · exact absurd hbusy.out h
    · exact h
  · by_cases hb : l.inBlockedHeap = true ∧ l.Busy
    · exact Or.inr (h l hl hb.1 hb.2)
    · refine Or.inl (Decidable.byContradiction fun hno => hb ?_)
      simp only [not_or, Bool.not_eq_false] at hno
      exact ⟨hno.1.1, hno.1.2, Decidable.not_not.1 hno.2⟩

instance (window : WindowRef) : Decidable (s.OwnerClear window) :=
  decidable_of_iff (∀ r ∈ s.reservations.lookup window, ∀ owner ∈ r.owner, wakeful s owner = true)
    ⟨fun h r lane l hr ho => wakeful_iff.1 (h r hr (.lane lane) ho) l, fun h r hr owner ho => by
      cases owner with
      | lane lane => exact wakeful_iff.2 fun l => h r lane l hr ho
      | job => rfl⟩

instance (id : JobId) (completion : OutboundCompletion) : Decidable (s.CompletionClear id completion) :=
  decidable_of_iff (∀ permit ∈ s.inFlight.lookup id,
      (∀ lane ∈ permit.lane, ∀ l ∈ s.lanes.lookup lane, l.mode.isBounded = true → 2 ≤ l.inFlightCount →
        l.pending.isEmpty = true ∨ l.anyLive s.live = true) ∧
      (completion = .noRequest → ∀ window ∈ windowsOf permit.scope permit.cls, s.OwnerClear window))
    ⟨fun h => ⟨fun permit lane l hp hl hk => (h permit hp).1 lane hl l hk, fun hc permit hp => (h permit hp).2 hc⟩,
      fun h permit hp => ⟨fun lane hl l hk => h.lane permit lane l hp hl hk, fun hc => h.owners hc permit hp⟩⟩

instance : Decidable s.WaitingClear := inferInstanceAs (Decidable (∀ reference ∈ s.waitingReferences, s.Clear reference))

instance (mode : OutboundLaneKey → OutboundLaneMode) (x : Sys) (a : Action) : Decidable (FixedMode mode x a) :=
  match a with
  | .enqueue metadata options => inferInstanceAs (Decidable (∀ lane ∈ metadata.lane, mode lane = options.laneMode))
  | .cancel .. | .complete .. | .setLimits .. | .setClassLimits .. | .turn .. | .start .. | .penalize .. | .nextDeadline ..
  | .beginPass .. | .endPass .. => isTrue trivial

instance (mode : OutboundLaneKey → OutboundLaneMode) (x : Sys) (a : Action) : Decidable (LanesSafe mode x a) :=
  @instDecidableAnd _ _ inferInstance <|
    match a with
    | .enqueue metadata options =>
      decidable_of_iff (∀ p ∈ x.sched.supersededJob (coalesceKeyOf metadata options.mode), x.sched.OwnHoldClear p.1)
        ⟨fun h old oldJob hs => h (old, oldJob) hs, fun h p hs => h p.1 p.2 hs⟩
    | .cancel id _ => inferInstanceAs (Decidable (x.sched.OwnHoldClear id))
    | .complete id completion _ _ => inferInstanceAs (Decidable (x.sched.CompletionClear id completion))
    | .setLimits .. | .setClassLimits .. => inferInstanceAs (Decidable x.sched.WaitingClear)
    | .turn _ => inferInstanceAs (Decidable x.sched.TurnClear)
    | .start .. | .penalize .. | .nextDeadline _ | .beginPass .. | .endPass _ => isTrue trivial

end

/-! ## Runs -/

/-- The lanes without a bound count their permits. -/
theorem counted_unbounded {mode : OutboundLaneKey → OutboundLaneMode} {τ : List Event} {x : Sys}
    (hr : Run (FixedMode mode) τ x) : Counted mode (fun lane => (mode lane).isBounded = false) τ x.sched :=
  Counted.run (fun _ _ h => h) (fun s s' _ => held_unbounded mode s s') (fun _ _ _ _ _ _ _ _ hs => step_any hs) hr

/-- Whatever is cancelled, replaced, refunded or penalized, a serial lane has one job in flight at a
time, and an ordered lane one that has not started. -/
theorem unbounded_lanes_hold {mode : OutboundLaneKey → OutboundLaneMode} {τ : List Event} {x : Sys}
    (hr : Run (FixedMode mode) τ x) {lane : OutboundLaneKey} (hun : (mode lane).isBounded = false) :
    LaneBounded (mode lane) lane τ :=
  (counted_unbounded hr).bounded hun

/-- The lane of a run with a cancelled job grants the next one when the first is completed. -/
theorem unbounded_lanes_hold_cancelled : ∃ τ x, Run (FixedMode fun _ => .serial) τ x ∧ outstanding 7 τ = [2] ∧
    LaneBounded .serial 7 τ := by
  have h : (scheduler.exec (FixedMode fun _ => .serial) [] (Sys.fresh [])
      ([.enqueue (.plain 10 (some 7)) (.plain 0), .enqueue (.plain 20 (some 7)) (.plain 0),
        .enqueue (.plain 30 (some 7)) (.plain 0), .cancel 1 0] ++ Action.pass 1 [] 1 ++ [.complete 0 .success 1 1] ++
        Action.pass 1 [] 1)).map (fun r => outstanding 7 r.1) = some [2] := by decide
  obtain ⟨⟨τ, x⟩, he, hx⟩ := Option.map_eq_some_iff.1 h
  have hr := run_of_actions (Sys.fresh_init rfl) he
  exact ⟨τ, x, hr, hx, unbounded_lanes_hold hr rfl⟩

/-- Every lane gives two permits. -/
def twoPermits (_ : OutboundLaneKey) : OutboundLaneMode := .boundedOrderedStart ⟨2, by decide⟩

/-- A request of lane 7. -/
def laneRequest : Action := .enqueue (.plain 10 (some 7)) { EnqueueOptions.plain 0 with laneMode := twoPermits 7 }

/-- A request whose only companion was cancelled is granted and takes the lane along, and two
more are granted beside it. -/
theorem lane_forgets : ∃ τ x, Run (FixedMode twoPermits) τ x ∧ outstanding 7 τ = [3, 2, 0] ∧
    ¬ LaneBounded (twoPermits 7) 7 τ := by
  have h : (scheduler.exec (FixedMode twoPermits) [] (Sys.fresh [])
      ([laneRequest, laneRequest, .cancel 1 0] ++ Action.pass 0 [] 1 ++ [laneRequest, laneRequest] ++
        Action.pass 1 [] 2)).map (fun r => outstanding 7 r.1) = some [3, 2, 0] := by decide
  obtain ⟨⟨τ, x⟩, he, hx⟩ := Option.map_eq_some_iff.1 h
  refine ⟨τ, x, run_of_actions (Sys.fresh_init rfl) he, hx, fun hb => ?_⟩
  have hle : (outstanding 7 τ).length ≤ 2 := hb
  have hx' : outstanding 7 τ = [3, 2, 0] := hx
  rw [hx'] at hle
  exact absurd hle (by decide)

end Teloxide.Outbound
