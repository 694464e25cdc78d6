import Teloxide.Outbound.Scheduler.Hold
import Teloxide.Outbound.Scheduler.NoPanic

/-!
# Where a lane with permits is dropped

`push_lane_head_candidate` takes a lane without a pending job out of the map when it has
capacity. In a bounded lane there may be permits out at that time.

* `Bare`: a bounded lane in the state in which it would be dropped.
* `Retains s s'`: no bounded lane with a permit out is dropped. Every operation retains these
  lanes as long as it puts back no reference to a bare one.
-/
namespace Teloxide.Outbound

open Teloxide.Core

/-- A bounded lane with a permit out. -/
structure LaneState.Busy (l : LaneState) : Prop where
  bounded : l.mode.isBounded = true
  out : l.inFlightCount ≠ 0

theorem LaneState.Busy.not_free {l : LaneState} (h : l.Busy) : l.free = false := by
  have hb := h.bounded
  unfold OutboundLaneMode.isBounded at hb
  unfold LaneState.free
  split at hb
  · rename_i hm
    rw [hm]
    simpa using h.out
  · cases hb

theorem LaneState.Busy.congr {l l' : LaneState} (h : l.Busy) (hm : l'.mode = l.mode)
    (hc : l'.inFlightCount = l.inFlightCount) : l'.Busy := ⟨hm ▸ h.bounded, hc ▸ h.out⟩

namespace SchedulerState

/-- A bounded lane that has a permit out, another one to give, and no pending job. -/
def Bare (s : SchedulerState) (lane : OutboundLaneKey) : Prop :=
  ∃ l, s.lanes.lookup lane = some l ∧ l.Busy ∧ l.hasCapacity = true ∧ l.anyLive s.live = false

def Retains (s s' : SchedulerState) : Prop :=
  ∀ lane l, s.lanes.lookup lane = some l → l.Busy → ∃ l', s'.lanes.lookup lane = some l' ∧ l'.Busy

variable {s s' s'' : SchedulerState} {now : Nat}

/-- A lane that has moved is bare only if it was. -/
theorem Bare.of_moves (hm : Moves s s') {lane : OutboundLaneKey} (h : s'.Bare lane) : s.Bare lane := by
  obtain ⟨l', hl', hbusy, hcap, hdead⟩ := h
  have hmoved := hm.lanes lane
  rw [hl'] at hmoved
  cases ho : s.lanes.lookup lane with
  | none =>
    rw [ho] at hmoved
    cases hmoved
  | some l =>
    rw [ho] at hmoved
    cases hmoved with
    | kept hmode hin hcount _ _ hkeep =>
      refine ⟨l, ho, hbusy.congr hmode.symm hcount.symm, ?_, ?_⟩
      · rwa [LaneMoved.hasCapacity_eq hmode hcount] at hcap
      · rw [Bool.eq_false_iff, ne_eq, LaneState.anyLive_iff] at hdead ⊢
        rintro ⟨e, he, hl⟩
        exact hdead ⟨e, hkeep e he hl, hm.live_eq ▸ hl⟩

namespace Retains

theorem refl (s : SchedulerState) : Retains s s := fun _ l hl hb => ⟨l, hl, hb⟩

theorem trans (h : Retains s s') (h' : Retains s' s'') : Retains s s'' := by
  intro lane l hl hb
  obtain ⟨l', hl', hb'⟩ := h lane l hl hb
  exact h' lane l' hl' hb'

theorem of_eq (hl : s'.lanes = s.lanes) : Retains s s' := fun _ l h hb => ⟨l, hl ▸ h, hb⟩

/-- One lane is stored anew. -/
theorem of_lane {lane : OutboundLaneKey} {l : LaneState} (hl : s'.lanes = s.lanes.insert lane l)
    (hb : ∀ l₀, s.lanes.lookup lane = some l₀ → l₀.Busy → l.Busy) : Retains s s' := by
  intro k l₀ hl₀ hb₀
  rw [hl, Table.lookup_insert_if]
  split
  · rename_i hk
    subst hk
    exact ⟨l, rfl, hb l₀ hl₀ hb₀⟩
  · exact ⟨l₀, hl₀, hb₀⟩

/-- A lane that is there is stored with the same permits. -/
theorem of_stored {lane : OutboundLaneKey} {l l' : LaneState} (hl : s.lanes.lookup lane = some l)
    (hs : s'.lanes = s.lanes.insert lane l') (hm : l'.mode = l.mode) (hc : l'.inFlightCount = l.inFlightCount) :
    Retains s s' := by
  refine .of_lane hs fun l₀ hl₀ hb => ?_
  rw [hl] at hl₀
  cases hl₀
  exact hb.congr hm hc

/-- One lane is dropped that has no permit out. -/
theorem of_erase {lane : OutboundLaneKey} (hl : s'.lanes = s.lanes.erase lane)
    (hb : ∀ l, s.lanes.lookup lane = some l → ¬ l.Busy) : Retains s s' := by
  intro k l hk hbusy
  rw [hl, Table.lookup_erase_if]
  split
  · rename_i he
    subst he
    exact absurd hbusy (hb l hk)
  · exact ⟨l, hk, hbusy⟩

/-- The permits of a lane that moves and is not dropped stay. -/
theorem of_modify {lane : OutboundLaneKey} {f : LaneState → LaneState} (hl : s'.lanes = s.lanes.modify lane f)
    (hf : ∀ l : LaneState, l.Busy → (f l).Busy) : Retains s s' := by
  intro k l hk hb
  rw [hl, Table.lookup_modify]
  split
  · rename_i he
    subst he
    exact ⟨f l, by rw [hk]; rfl, hf l hb⟩
  · exact ⟨l, hk, hb⟩

/-- Steps over a list, with what each of them needs. -/
theorem foldl {α : Type} {f : SchedulerState → α → SchedulerState} {R : SchedulerState → SchedulerState → Prop}
    {P : SchedulerState → α → Prop} (hm : ∀ s a, R s (f s a)) (hp : ∀ s s' a, R s s' → P s a → P s' a)
    (hf : ∀ s a, P s a → Retains s (f s a)) :
    ∀ (l : List α) (s : SchedulerState), (∀ a ∈ l, P s a) → Retains s (l.foldl f s)
  | [], s, _ => .refl s
  | a :: l, s, h => by
    have hrest : ∀ b ∈ l, P (f s a) b := fun b hb => hp s (f s a) b (hm s a) (h b (List.mem_cons_of_mem _ hb))
    exact (hf s a (h a List.mem_cons_self)).trans (foldl hm hp hf l _ hrest)

end Retains

/-! ## Pushing -/

theorem scheduleAging_lanes (s : SchedulerState) (reference : CandidateRef) (keyed base readyAt : Nat) :
    (s.scheduleAging reference keyed base readyAt).lanes = s.lanes := by
  unfold scheduleAging
  split
  · rfl
  · split <;> rfl

theorem pushJobCandidate_lanes (s : SchedulerState) (id : JobId) (now : Nat) :
    (s.pushJobCandidate id now).lanes = s.lanes := by
  unfold pushJobCandidate
  split
  · rfl
  · exact scheduleAging_lanes _ _ _ _ _

theorem pushLaneHeadCandidate_retains {lane : OutboundLaneKey} (hb : ¬ s.Bare lane) :
    Retains s (s.pushLaneHeadCandidate lane now) := by
  have h := s.pushLaneHeadCandidate_cases lane now
  generalize s.pushLaneHeadCandidate lane now = s' at h ⊢
  cases h with
  | absent | full | asleep => exact .refl s
  | @dropped l hl hcap _ hf =>
    refine .of_erase rfl fun l' hl' hbusy => ?_
    rw [hl] at hl'
    cases hl'
    refine hb ⟨l, hl, hbusy, hcap, ?_⟩
    rw [Bool.eq_false_iff, ne_eq, LaneState.anyLive_iff]
    rintro ⟨e, he, hlive⟩
    rw [LaneState.firstLive_none.1 hf e he] at hlive
    cases hlive
  | drained hl => exact .of_stored hl rfl rfl rfl
  | pushed hl =>
    refine Retains.trans ?_ (.of_eq (scheduleAging_lanes _ _ _ _ _))
    exact .of_stored hl rfl rfl rfl

/-- The reference is not to a lane that would be dropped. -/
def Clear (s : SchedulerState) (reference : CandidateRef) : Prop := ∀ lane, reference = .lane lane → ¬ s.Bare lane

theorem Clear.of_moves {reference : CandidateRef} (h : s.Clear reference) (hm : Moves s s') : s'.Clear reference :=
  fun lane hr hb => h lane hr (hb.of_moves hm)

/-- A lane with a pending job is not bare. -/
theorem not_bare {lane : OutboundLaneKey} (h : ∀ l, s.lanes.lookup lane = some l → l.anyLive s.live = true) :
    ¬ s.Bare lane := by
  rintro ⟨l, hl, -, -, hdead⟩
  rw [h l hl] at hdead
  cases hdead

theorem clear_of_alive {reference : CandidateRef} (h : s.referenceAlive reference = true) : s.Clear reference := by
  rintro lane rfl
  refine not_bare fun l hl => ?_
  simpa [referenceAlive, hl] using h

theorem pushReference_retains {reference : CandidateRef} (h : s.Clear reference) :
    Retains s (s.pushReference reference now) := by
  cases reference with
  | job id => exact .of_eq (s.pushJobCandidate_lanes id now)
  | lane key => exact pushLaneHeadCandidate_retains (h key rfl)

theorem wakeParked_retains (window : WindowRef) {reference : CandidateRef} (h : s.Clear reference) :
    Retains s (s.wakeParked window now reference) := by
  cases reference with
  | job id => exact .of_eq (pushJobCandidate_lanes _ id now)
  | lane key => exact pushReference_retains h

/-- What waits behind the hold is clear. -/
def Releasable (s : SchedulerState) (window : WindowRef) (owner : CandidateRef) : Prop :=
  ∀ r, s.reservations.lookup window = some r → r.owner = some owner → ∀ reference ∈ r.queue, s.Clear reference

theorem releaseReservation_retains {window : WindowRef} {owner : CandidateRef} (h : s.Releasable window owner) :
    Retains s (s.releaseReservation window owner now) := by
  unfold releaseReservation
  split
  · exact .refl s
  · rename_i r hr
    split
    · rename_i ho
      have hmoves : Moves s { s with reservations := s.reservations.erase window } := .of_eq rfl rfl rfl
      have herase : Retains s { s with reservations := s.reservations.erase window } := .of_eq rfl
      refine herase.trans (.foldl (P := Clear) (fun s a => (s.wakeParked_quiet window now a).toMoves)
        (fun _ _ _ hm hc => hc.of_moves hm) (fun s a hc => wakeParked_retains window hc) _ _ fun a ha => ?_)
      exact (h r hr ho a ha).of_moves hmoves
    · exact .refl s

/-! ## Promotions -/

theorem fireAging_retains (s : SchedulerState) (reference : CandidateRef) (now : Nat) :
    Retains s (s.fireAging reference now) := by
  unfold fireAging
  split
  · split
    · exact .refl s
    · dsimp only
      split
      · exact .refl s
      · exact .of_eq (scheduleAging_lanes _ _ _ _ _)
  · split
    · exact .refl s
    · rename_i l hl
      split
      · exact .refl s
      · split
        · exact .refl s
        · dsimp only
          split
          · exact .of_eq (scheduleAging_lanes _ _ _ _ _)
          · refine Retains.trans ?_ (.of_eq (scheduleAging_lanes _ _ _ _ _))
            exact .of_stored hl rfl rfl rfl

theorem promoteAging_retains :
    ∀ {fuel : Nat} {s s' : SchedulerState}, promoteAging now fuel s = some s' → Retains s s'
  | 0, _, _, h => by cases h
  | fuel + 1, s, s', h => by
    unfold promoteAging at h
    split at h
    · cases h
      exact .refl s
    · split at h
      · cases h
        exact .refl s
      · have hpop : Retains s { s with agingEvents := s.agingEvents.pop } := .of_eq rfl
        exact (hpop.trans (fireAging_retains _ _ _)).trans (promoteAging_retains h)

/-- The lane of a pending job is not bare. -/
theorem not_bare_of_member {lane : OutboundLaneKey} {l : LaneState} {e : LaneEntry} (hl : s.lanes.lookup lane = some l)
    (he : e ∈ l.pending) (hlive : s.live e.job = true) : ¬ s.Bare lane := by
  refine not_bare fun l' hl' => ?_
  rw [hl] at hl'
  cases hl'
  exact LaneState.anyLive_iff.2 ⟨e, he, hlive⟩

theorem wakeDelayed_retains {pos : JobId → Nat} (h : Lined pos s fun _ => False) (id : JobId) :
    Retains s (s.wakeDelayed id now) := by
  unfold wakeDelayed
  split
  · exact .of_eq rfl
  · rename_i job hj
    have hstored : Retains s { s with jobs := s.jobs.insert id { job with readyAt := now, notBefore := none } } :=
      .of_eq rfl
    dsimp only
    split
    · rename_i lane hlane
      obtain ⟨l, order, hl, -, he⟩ := h.member id job lane hj hlane not_false
      refine hstored.trans (pushLaneHeadCandidate_retains (not_bare_of_member hl he ?_))
      exact live_of (by rw [Table.lookup_insert_if, if_pos rfl])
    · exact hstored.trans (.of_eq (pushJobCandidate_lanes _ _ _))

theorem promoteDelayedLoop_retains {pos : JobId → Nat} :
    ∀ (n : Nat) (s : SchedulerState), (Lined pos s fun _ => False) → Retains s (promoteDelayedLoop now n s)
  | 0, s, _ => .refl s
  | n + 1, s, h => by
    unfold promoteDelayedLoop
    split
    · exact .refl s
    · rename_i top _
      split
      · exact .refl s
      · have hpop : Lined pos { s with delayed := s.delayed.pop } fun _ => False :=
          h.shrinks (.of_stays (.of_eq rfl rfl rfl rfl rfl))
        have hwoken := hpop.shrinks (.of_stays (wakeDelayed_stays _ top.job now))
        have hfirst : Retains s { s with delayed := s.delayed.pop } := .of_eq rfl
        exact (hfirst.trans (wakeDelayed_retains hpop top.job)).trans (promoteDelayedLoop_retains n _ hwoken)

theorem wakeBlocked_retains (s : SchedulerState) (node : BlockedJob) (now : Nat) :
    Retains s (s.wakeBlocked node now) := by
  unfold wakeBlocked
  split
  · split
    · exact .of_eq rfl
    · split
      · exact .refl s
      · split
        · exact .of_eq rfl
        · exact .of_eq (pushJobCandidate_lanes _ _ _)
  · rename_i lane _
    split
    · exact .of_eq rfl
    · rename_i l hl
      split
      · exact .of_eq rfl
      · split
        · exact .of_eq rfl
        · have hwoken : Retains s { s with lanes := s.lanes.insert lane { l with inBlockedHeap := false } } :=
            .of_stored hl rfl rfl rfl
          dsimp only
          split
          · exact hwoken.trans (.of_eq rfl)
          · rename_i halive
            refine hwoken.trans (pushLaneHeadCandidate_retains (not_bare fun l' hl' => ?_))
            rw [Table.lookup_insert_if, if_pos rfl] at hl'
            cases hl'
            have hl : l.anyLive s.live = true := by simpa using halive
            exact hl

theorem promoteBlockedLoop_retains :
    ∀ (n : Nat) (s : SchedulerState), Retains s (promoteBlockedLoop now n s)
  | 0, s => .refl s
  | n + 1, s => by
    unfold promoteBlockedLoop
    split
    · exact .refl s
    · split
      · exact .refl s
      · have hpop : Retains s { s with blocked := s.blocked.pop } := .of_eq rfl
        exact (hpop.trans (wakeBlocked_retains _ _ _)).trans (promoteBlockedLoop_retains n _)

theorem promoteReservation_retains (s : SchedulerState) (window : WindowRef) (now : Nat) :
    Retains s (s.promoteReservation window now) := by
  unfold promoteReservation
  split
  · exact .refl s
  · rename_i r _
    dsimp only
    split
    · exact .of_eq rfl
    · rename_i reference queue hq
      have halive : s.referenceAlive reference = true := by
        have hhead := List.head?_dropWhile_not (fun reference => !s.referenceAlive reference) r.queue
        rw [hq] at hhead
        simpa using hhead
      have hunpark := s.unpark_quiet window reference
        { r with queue := queue, stale := r.stale - (r.queue.takeWhile fun reference => !s.referenceAlive reference).length }
      have hfirst : Retains s (s.unpark window reference { r with
          queue := queue, stale := r.stale - (r.queue.takeWhile fun reference => !s.referenceAlive reference).length }) :=
        .of_eq rfl
      exact hfirst.trans (pushReference_retains ((clear_of_alive halive).of_moves hunpark.toMoves))

theorem promoteReservations_retains (order : List WindowRef) (s : SchedulerState) (now : Nat) :
    Retains s (s.promoteReservations order now) :=
  .foldl (P := fun _ _ => True) (fun s window => (s.promoteReservation_quiet window now).toMoves)
    (fun _ _ _ _ _ => trivial) (fun s window _ => s.promoteReservation_retains window now) order s fun _ _ => trivial

theorem compactLanesIfNeeded_retains (s : SchedulerState) : Retains s s.compactLanesIfNeeded := by
  intro lane l hl hb
  simp only [compactLanesIfNeeded, Table.lookup_mapValues, hl, Option.map_some, Option.some.injEq, exists_eq_left']
  split
  · exact hb.congr rfl rfl
  · exact hb

theorem beginPass_retains {pos : JobId → Nat} {order : List WindowRef} {fuel : Nat} (h : Lined pos s fun _ => False)
    (hb : s.beginPass order fuel now = some s') : Retains s s' := by
  obtain ⟨s₁, hs₁, hb⟩ := Option.bind_eq_some_iff.1 hb
  obtain ⟨s₀, hs₀, rfl⟩ := Option.map_eq_some_iff.1 hs₁
  have hlined : Lined pos s₀ fun _ => False := h.shrinks (.of_stays (.of_moves (promoteAging_quiet hs₀).toMoves))
  split at hb
  · cases hb
    have hdelayed : Retains s₀ (s₀.promoteDelayed now) := promoteDelayedLoop_retains _ _ hlined
    have hblocked : Retains (s₀.promoteDelayed now) ((s₀.promoteDelayed now).promoteBlocked now) :=
      promoteBlockedLoop_retains _ _
    exact ((((promoteAging_retains hs₀).trans hdelayed).trans hblocked).trans
      (promoteReservations_retains order _ now)).trans (compactLanesIfNeeded_retains _)
  · cases hb

/-! ## The pop -/

theorem dropLaneIfIdle_retains (s : SchedulerState) (lane : OutboundLaneKey) : Retains s (s.dropLaneIfIdle lane) := by
  unfold dropLaneIfIdle
  split
  · rename_i hidle
    refine .of_erase rfl fun l hl hb => ?_
    rw [hl, Option.any_some, LaneState.isIdle_iff, hb.not_free] at hidle
    exact nomatch hidle.2
  · exact .refl s

theorem popJob_retains (s : SchedulerState) (key : CandidateKey) (id : JobId) :
    Retains s (s.popJob key id).sched := by
  unfold popJob
  split
  · exact .of_eq rfl
  · split <;> exact .of_eq rfl

theorem popLane_retains (s : SchedulerState) (key : CandidateKey) (lane : OutboundLaneKey) (now : Nat) :
    Retains s (s.popLane key lane now).sched := by
  unfold popLane
  split
  · exact .of_eq rfl
  · rename_i l hl
    split
    · exact .of_eq rfl
    · split
      · exact .of_stored hl rfl rfl rfl
      · have hdrained : Retains s { s.check (l.drainFits s.live) with
            lanes := s.lanes.insert lane { l.drainDead s.live with inCandidateHeap := false } } :=
          .of_stored hl rfl rfl rfl
        dsimp only
        split
        · exact hdrained.trans (dropLaneIfIdle_retains _ _)
        · rename_i id job hb
          split
          · exact hdrained.trans (dropLaneIfIdle_retains _ _)
          · split
            · obtain ⟨head, hpeek, hj⟩ := Option.bind_eq_some_iff.1 hb
              obtain ⟨job', hj', -⟩ := Option.map_eq_some_iff.1 hj
              have hstored : (s.lanes.insert lane { l.drainDead s.live with inCandidateHeap := false }).lookup lane =
                  some { l.drainDead s.live with inCandidateHeap := false } := by
                rw [Table.lookup_insert_if, if_pos rfl]
              exact hdrained.trans (pushLaneHeadCandidate_retains
                (not_bare_of_member hstored (Heap.peek_mem hpeek) (live_of hj')))
            · exact hdrained

theorem popTurn_retains {t : Turn} (h : s.popTurn now = some t) : Retains s t.sched := by
  unfold popTurn at h
  split at h
  · cases h
  · have hpop : Retains s { s with candidates := s.candidates.pop } := .of_eq rfl
    dsimp only at h
    split at h
    · cases h
      exact hpop.trans (popJob_retains _ _ _)
    · cases h
      exact hpop.trans (popLane_retains _ _ _ _)

/-! ## Blocked and parked candidates -/

/-- What waits behind the hold that the job owns, if it owns one, is clear. -/
def OwnHoldClear (s : SchedulerState) (id : JobId) : Prop :=
  ∀ job window, s.jobs.lookup id = some job → job.reservationOwner = some window →
    s.Releasable window (ownerRef id job)

theorem releasePreviousReservationIfChanged_retains {c : Candidate} (h : s.OwnHoldClear c.job)
    (next : Option WindowRef) : Retains s (s.releasePreviousReservationIfChanged c next now) := by
  unfold releasePreviousReservationIfChanged
  split
  · exact .refl s
  · rename_i previous hprevious
    split
    · exact .refl s
    · obtain ⟨job, hj, howner⟩ := Option.bind_eq_some_iff.1 hprevious
      have href : s.referenceOf c = ownerRef c.job job := by
        simp only [referenceOf, hj, Option.bind_some, ownerRef]
      have hrelease : Retains s (s.releaseReservation previous (s.referenceOf c) now) := by
        rw [href]
        exact releaseReservation_retains (h job previous hj howner)
      exact hrelease.trans (.of_eq rfl)

theorem blockCandidate_retains (s : SchedulerState) (c : Candidate) (deadline : Nat) (permanent : Bool) :
    Retains s (s.blockCandidate c deadline permanent) := by
  unfold blockCandidate
  split
  · exact .of_eq rfl
  · split
    · exact .of_eq rfl
    · split
      · exact .of_eq rfl
      · rename_i l hl
        exact .of_stored hl rfl rfl rfl

theorem reserveWindow_lanes (s : SchedulerState) (c : Candidate) (window : WindowRef) (deadline : Nat) :
    (s.reserveWindow c window deadline).lanes = s.lanes := by
  unfold reserveWindow
  dsimp only
  split <;> rfl

theorem park_lanes (s : SchedulerState) (c : Candidate) (now : Nat) : (s.park c now).lanes = s.lanes := by
  unfold park
  split
  · rfl
  · rename_i window hw
    have hactive := List.find?_some hw
    split
    · rename_i hnone
      rw [reservationActive, hnone] at hactive
      cases hactive
    · rfl

theorem settle_retains {c : Candidate} {verdict : Admission} (h : s.OwnHoldClear c.job) (hne : verdict ≠ .pass) :
    Retains s (s.settle c now verdict) := by
  cases verdict with
  | pass => exact absurd rfl hne
  | blocked deadline reserve =>
    have hrelease : Retains s (s.releasePreviousReservationIfChanged c reserve now) :=
      releasePreviousReservationIfChanged_retains h reserve
    cases reserve with
    | none => exact hrelease.trans (blockCandidate_retains _ c _ _)
    | some window => exact (hrelease.trans (.of_eq (reserveWindow_lanes _ c _ _))).trans (blockCandidate_retains _ c _ _)
  | blockedForever =>
    exact (releasePreviousReservationIfChanged_retains h none).trans (blockCandidate_retains _ c _ _)
  | reserved => exact .of_eq (s.park_lanes c now)

/-! ## The grant -/

theorem rearmReservations_lanes (s : SchedulerState) (c : Candidate) (now : Nat) :
    (s.rearmReservations c now).lanes = s.lanes := by
  have hstep (s : SchedulerState) (window : WindowRef) : (rearmReservation now s window).lanes = s.lanes := by
    unfold rearmReservation
    split
    · rfl
    · split <;> rfl
  have hall (windows : List WindowRef) : ∀ s : SchedulerState, (windows.foldl (rearmReservation now) s).lanes = s.lanes := by
    induction windows with
    | nil => exact fun _ => rfl
    | cons window windows ih => exact fun s => (ih _).trans (hstep s window)
  exact hall _ s

theorem debit_lanes (s : SchedulerState) (id : JobId) (job : Job) (now : Nat) : (s.debit id job now).lanes = s.lanes := by
  have hstep (s : SchedulerState) (window : WindowRef) :
      (consumeWindow now job.metadata.weight.val id s window).lanes = s.lanes := by
    unfold consumeWindow
    split
    · rfl
    · cases window <;> rfl
  have hall (windows : List WindowRef) : ∀ s : SchedulerState,
      (windows.foldl (consumeWindow now job.metadata.weight.val id) s).lanes = s.lanes := by
    induction windows with
    | nil => exact fun _ => rfl
    | cons window windows ih => exact fun s => (ih _).trans (hstep s window)
  exact hall _ s

end SchedulerState

/-- The lane once its front job is granted: it has entries, and capacity, and no pending job. -/
structure LaneState.LeftBare (l : LaneState) (live : JobId → Bool) : Prop where
  bounded : l.mode.isBounded = true
  capacity : l.mode.hasCapacity (l.inFlightCount + 1) = true
  entries : l.pending.pop.isEmpty = false
  dead : ∀ e ∈ l.pending.pop, live e.job = false

namespace SchedulerState

variable {s s' s'' : SchedulerState} {now : Nat}

/-- The granted job is not pending any more, the others are. -/
theorem taken_live_iff {id : JobId} {job : Job} (hj : s.jobs.lookup id = some job) (now : Nat) (a : JobId) :
    ((((s.eraseJob id job).takePermit id job).debit id job now).putInFlight id job).live a = true ↔
      a ≠ id ∧ s.live a = true := by
  have hremoves : Removes s id (s.eraseJob id job) := eraseJob_removes (by rw [hj]; rfl)
  obtain ⟨lanes, p, htake⟩ := takePermit_eq (s.eraseJob id job) id job
  have hdebit := (debit_moves ((s.eraseJob id job).takePermit id job) id job now).live_eq
  have htaken : ((s.eraseJob id job).takePermit id job).live = (s.eraseJob id job).live := by
    rw [htake]
    rfl
  rw [← hremoves.live_iff a, ← htaken, ← hdebit]
  exact Iff.rfl

/-- Once the front entry is gone the rest is of other jobs. -/
theorem pop_job_ne {l : LaneState} {head e : LaneEntry} (hn : (l.pending.entries.map (·.job)).Nodup)
    (hpeek : l.pending.peek = some head) (he : e ∈ l.pending.pop) : e.job ≠ head.job := by
  have hcons := List.eq_cons_of_mem_head? hpeek
  rw [hcons, List.map_cons, List.nodup_cons] at hn
  exact fun heq => hn.1 (heq ▸ List.mem_map.2 ⟨e, he, rfl⟩)

theorem grant_retains {pos : JobId → Nat} (h : Lined pos s fun _ => False) {id : JobId} {job : Job}
    (hj : s.jobs.lookup id = some job) (hfront : s.Fronts id job)
    (hleft : ∀ lane l, job.metadata.lane = some lane → s.lanes.lookup lane = some l → ¬ l.LeftBare s.live) :
    Retains (s.takePermit id job) (s.grant id now) := by
  unfold grant
  rw [hj]
  dsimp only
  have hlanes : ((((s.eraseJob id job).takePermit id job).debit id job now).putInFlight id job).lanes =
      (s.takePermit id job).lanes := (debit_lanes _ id job now).trans (s.takePermit_eraseJob id job)
  have hlive := taken_live_iff hj now
  generalize (((s.eraseJob id job).takePermit id job).debit id job now).putInFlight id job = s₄ at hlanes hlive ⊢
  have htaken : Retains (s.takePermit id job) s₄ := .of_eq hlanes
  refine htaken.trans ?_
  unfold rearmBoundedLane
  split
  · exact .refl _
  · rename_i lane hlane
    split
    · rename_i hany
      refine pushLaneHeadCandidate_retains fun ⟨l', hl', hbusy, hcap, hdead⟩ => ?_
      obtain ⟨l, head, hl, hpeek, hid, -⟩ := hfront lane hlane
      obtain ⟨p, htake⟩ := takePermit_laned hlane hl hpeek id
      have hstored : s₄.lanes.lookup lane = some (l.taken id) := by
        rw [hlanes, htake, Table.lookup_insert_if, if_pos rfl]
      rw [hstored] at hl' hany
      cases hl'
      have hempty : l.pending.pop.isEmpty = false := by
        rw [Option.any_some, Bool.and_eq_true, Bool.not_eq_true'] at hany
        exact hany.2
      -- the entries left are of other jobs
      refine hleft lane l hlane hl ⟨hbusy.bounded, hcap, hempty, fun e he => ?_⟩
      have hne : e.job ≠ id := hid ▸ pop_job_ne (h.lanes lane l hl).once hpeek he
      rw [Bool.eq_false_iff]
      intro hle
      rw [Bool.eq_false_iff, ne_eq, LaneState.anyLive_iff] at hdead
      exact hdead ⟨e, he, (hlive e.job).2 ⟨hne, hle⟩⟩
    · exact .refl _

/-- The job that the front candidate stands for. -/
def frontJob (s : SchedulerState) : Option JobId :=
  s.candidates.peek.bind fun key =>
    match key.reference with
    | .job id => some id
    | .lane lane => (s.lanes.lookup lane).bind fun l => (l.firstLive s.live).map (·.job)

theorem Popped.frontJob {s₁ : SchedulerState} {c : Candidate} (h : Popped s now s₁ c) : s.frontJob = some c.job := by
  unfold SchedulerState.frontJob
  cases h with
  | job hk href => rw [hk, Option.bind_some, href]
  | lane hk href hl _ _ hf =>
    rw [hk, Option.bind_some, href]
    dsimp only
    rw [hl, Option.bind_some, hf]
    rfl

/-- Neither the grant of the front job nor the release of its hold would drop a lane. -/
structure TurnClear (s : SchedulerState) : Prop where
  hold : ∀ id, s.frontJob = some id → s.OwnHoldClear id
  left : ∀ id job lane l, s.frontJob = some id → s.jobs.lookup id = some job → job.metadata.lane = some lane →
    s.lanes.lookup lane = some l → ¬ (l.drainDead s.live).LeftBare s.live

/-- A hold that is clear stays so. -/
theorem OwnHoldClear.of_popped {s₁ : SchedulerState} {c : Candidate} (h : s.OwnHoldClear c.job)
    (hp : Popped s now s₁ c) : s₁.OwnHoldClear c.job := by
  have hm := hp.quiet.toMoves
  intro job₁ window hj₁ ho
  obtain ⟨job, hj, howner, href, hres⟩ : ∃ job, s.jobs.lookup c.job = some job ∧ job.reservationOwner = some window ∧
      ownerRef c.job job₁ = ownerRef c.job job ∧ s₁.reservations = s.reservations := by
    cases hp with
    | job _ _ hlk =>
      rw [Table.lookup_insert_if, if_pos rfl] at hj₁
      cases hj₁
      exact ⟨_, hlk, ho, rfl, rfl⟩
    | lane _ _ _ _ _ _ hlk =>
      have hsame := hlk.symm.trans hj₁
      cases hsame
      exact ⟨_, hlk, ho, rfl, rfl⟩
  intro r hr hro reference hmem
  rw [hres] at hr
  rw [href] at hro
  exact (h job window hj howner r hr hro reference hmem).of_moves hm

theorem OwnHoldClear.of_moves {id : JobId} (h : s.OwnHoldClear id) (hm : Moves s s') (hj : s'.jobs = s.jobs)
    (hr : s'.reservations = s.reservations) : s'.OwnHoldClear id := by
  intro job window hjob ho r hres hro reference hmem
  rw [hr] at hres
  exact (h job window (hj ▸ hjob) ho r hres hro reference hmem).of_moves hm

/-- The lane of a candidate, before and after the pop. -/
theorem Popped.seat {τ : List Event} {s₁ : SchedulerState} {c : Candidate} {job : Job} {lane : OutboundLaneKey}
    (hp : Popped s now s₁ c) (h : LaneFifo τ s) (hj : s₁.jobs.lookup c.job = some job)
    (hlane : job.metadata.lane = some lane) : s.jobs.lookup c.job = some job ∧ ∃ l, s.lanes.lookup lane = some l ∧
      s₁.lanes.lookup lane = some { l.drainDead s.live with inCandidateHeap := false } := by
  cases hp with
  | @job key id job₀ hpeek hkey hlk =>
    simp only [Table.lookup_insert_if, if_true, Option.some.injEq] at hj
    subst hj
    have hnone := (h.refs id (hkey ▸ mentions_key (Heap.peek_mem hpeek))).2 job₀ hlk
    have hsome : job₀.metadata.lane = some lane := hlane
    rw [hnone] at hsome
    cases hsome
  | @lane key k l head job₀ _ _ hl _ _ hf hlk =>
    have hsame : some job₀ = some job := hlk.symm.trans hj
    cases hsame
    have hk := ((h.lined.lanes k l hl).own head (LaneState.firstLive_mem hf) job hlk).1
    rw [hlane] at hk
    cases hk
    exact ⟨hlk, l, hl, by simp only [Table.lookup_insert_if, if_true]⟩

/-- What a turn does, and which lanes it retains: a grant those that are busy once the permit is out. -/
inductive TurnRetains (s : SchedulerState) (now : Nat) (s' : SchedulerState) : Event → Prop
  | idle {e} : Stays s s' → e.isIdle = true → Retains s s' → TurnRetains s now s' e
  | granted {s₁ s₂ c job} : Popped s now s₁ c → s₁.jobs.lookup c.job = some job → Moves s₁ s₂ →
      s₂.lanes = s₁.lanes → Retains s s₂ → Grants s₂ c.job job s' → Retains (s₂.takePermit c.job job) s' →
      TurnRetains s now s' (.granted ⟨c.job, job.correlationId⟩ job.metadata now)

theorem turn_retains {allowed : OutboundLaneKey → OutboundLaneMode → Prop} {τ : List Event} {e : Event}
    (h : LaneFifo τ s) (hs : s.Steady allowed) (hc : s.TurnClear) (ht : s.turn now = some (s', e)) :
    TurnRetains s now s' e := by
  cases turn_cases ht with
  | skipped hp => exact .idle (.of_moves (popTurn_quiet hp).toMoves) rfl (popTurn_retains hp)
  | @granted s₁ s₂ c job hp hj ha =>
    obtain ⟨hjobs, hlanes⟩ := admission_maps ha
    have hpop := popTurn_popped hp
    have hm := s₁.admission_moves c now
    rw [ha] at hm
    have hmoves : Moves s s₂ := hpop.quiet.toMoves.trans hm
    have hj₂ : s₂.jobs.lookup c.job = some job := hjobs ▸ hj
    have hfront : s₂.Fronts c.job job := by
      intro lane hlane
      rw [hlanes]
      exact hpop.fronts h hs hj lane hlane
    have hgrant : Retains (s₂.takePermit c.job job) (s₂.grant c.job now) := by
      refine grant_retains (h.lined.shrinks (.of_stays (.of_moves hmoves))) hj₂ hfront fun lane l hlane hl hleft => ?_
      obtain ⟨hj₀, l₀, hl₀, hl₁⟩ := hpop.seat h hj hlane
      rw [hlanes, hl₁] at hl
      cases hl
      rw [hmoves.live_eq] at hleft
      exact hc.left c.job job lane l₀ hpop.frontJob hj₀ hlane hl₀
        ⟨hleft.bounded, hleft.capacity, hleft.entries, hleft.dead⟩
    exact .granted hpop hj hm hlanes ((popTurn_retains hp).trans (.of_eq hlanes))
      ((grant_grants hj₂ now).then_moves (rearmReservations_quiet _ c now).toMoves)
      (hgrant.trans (.of_eq (rearmReservations_lanes _ c now)))
  | @held s₁ s₂ c job verdict hp hj ha hne =>
    obtain ⟨g, cs, cg, cc, p, he⟩ := s₁.admission_eq c now
    have hm := s₁.admission_moves c now
    rw [ha] at he hm
    dsimp only at he
    have hpop := popTurn_popped hp
    have hhold : s₂.OwnHoldClear c.job :=
      ((hc.hold c.job hpop.frontJob).of_popped hpop).of_moves hm (by rw [he]) (by rw [he])
    have hlanes : s₂.lanes = s₁.lanes := by rw [he]
    have hbefore : Retains s s₂ := (popTurn_retains hp).trans (.of_eq hlanes)
    exact .idle (.of_moves (((popTurn_quiet hp).toMoves.trans hm).trans (settle_quiet s₂ c now hne).toMoves)) rfl
      (hbefore.trans (settle_retains hhold hne))

/-! ## `start`, `complete` and the limits -/

theorem start_retains (s : SchedulerState) (id : JobId) (now : Nat) : Retains s (s.start id now) := by
  unfold start
  split
  · exact .refl s
  · rename_i lane _
    split
    · exact .refl s
    · rename_i l hl
      split
      · exact .refl s
      · rename_i hm
        rw [not_or, not_not, not_not] at hm
        have hnot : ∀ l₀, s.lanes.lookup lane = some l₀ → ¬ l₀.Busy := by
          intro l₀ hl₀ hb
          rw [hl] at hl₀
          cases hl₀
          have hbounded := hb.bounded
          rw [hm.1] at hbounded
          cases hbounded
        split
        · exact .of_erase rfl hnot
        · have hfree : Retains s { s with lanes := s.lanes.insert lane { l with inFlight := none, inFlightCount := 0 } } :=
            .of_lane rfl fun l₀ hl₀ hb => absurd hb (hnot l₀ hl₀)
          refine hfree.trans (pushLaneHeadCandidate_retains ?_)
          rintro ⟨l', hl', hb, -⟩
          rw [Table.lookup_insert_if, if_pos rfl] at hl'
          cases hl'
          exact hb.out rfl

theorem rearmReference_retains {reference : CandidateRef} (h : s.Clear reference) :
    Retains s (rearmReference now s reference) := by
  unfold rearmReference
  split
  · split
    · exact .refl s
    · exact .of_eq (pushJobCandidate_lanes _ _ _)
  · rename_i lane
    have hmodified : Retains s { s with lanes := s.lanes.modify lane fun l => { l with inBlockedHeap := false } } :=
      .of_modify rfl fun l hb => hb.congr rfl rfl
    refine hmodified.trans (pushLaneHeadCandidate_retains ?_)
    rintro ⟨l', hl', hb, hcap, hdead⟩
    rw [Table.lookup_modify, if_pos rfl, Option.map_eq_some_iff] at hl'
    obtain ⟨l, hl, rfl⟩ := hl'
    exact h lane rfl ⟨l, hl, hb.congr rfl rfl, hcap, hdead⟩

/-! A completion with a refund wakes the owners of holds that are asleep. -/

/-- The holds stay, and no lane falls asleep. -/
structure Rouses (s s' : SchedulerState) : Prop where
  reservations : s'.reservations = s.reservations
  asleep : ∀ k l', s'.lanes.lookup k = some l' → l'.inBlockedHeap = true →
    ∃ l, s.lanes.lookup k = some l ∧ l.inBlockedHeap = true

namespace Rouses

theorem of_eq (hr : s'.reservations = s.reservations) (hl : s'.lanes = s.lanes) : Rouses s s' :=
  ⟨hr, fun _ l' h hb => ⟨l', hl ▸ h, hb⟩⟩

theorem trans (h : Rouses s s') (h' : Rouses s' s'') : Rouses s s'' where
  reservations := h'.reservations.trans h.reservations
  asleep k l'' hl hb := by
    obtain ⟨l', hl', hb'⟩ := h'.asleep k l'' hl hb
    exact h.asleep k l' hl' hb'

theorem of_stored {lane : OutboundLaneKey} {l l' : LaneState} (hr : s'.reservations = s.reservations)
    (hl : s.lanes.lookup lane = some l) (hs : s'.lanes = s.lanes.insert lane l')
    (hb : l'.inBlockedHeap = true → l.inBlockedHeap = true) : Rouses s s' := by
  refine ⟨hr, fun k l'' hl'' hasleep => ?_⟩
  rw [hs, Table.lookup_insert_if] at hl''
  split at hl''
  · rename_i hk
    subst hk
    cases hl''
    exact ⟨l, hl, hb hasleep⟩
  · exact ⟨l'', hl'', hasleep⟩

theorem of_erase {lane : OutboundLaneKey} (hr : s'.reservations = s.reservations)
    (hs : s'.lanes = s.lanes.erase lane) : Rouses s s' := by
  refine ⟨hr, fun k l' hl' hasleep => ?_⟩
  rw [hs, Table.lookup_erase_if] at hl'
  split at hl'
  · cases hl'
  · exact ⟨l', hl', hasleep⟩

end Rouses

theorem pushLaneHeadCandidate_rouses (s : SchedulerState) (lane : OutboundLaneKey) (now : Nat) :
    Rouses s (s.pushLaneHeadCandidate lane now) := by
  have h := s.pushLaneHeadCandidate_cases lane now
  generalize s.pushLaneHeadCandidate lane now = s' at h ⊢
  cases h with
  | absent | full | asleep => exact .of_eq rfl rfl
  | dropped => exact .of_erase rfl rfl
  | drained hl => exact .of_stored rfl hl rfl id
  | pushed hl =>
    refine Rouses.trans ?_ (.of_eq (scheduleAging_reservations _ _ _ _ _) (scheduleAging_lanes _ _ _ _ _))
    exact .of_stored rfl hl rfl id

theorem dropLaneIfIdle_rouses (s : SchedulerState) (lane : OutboundLaneKey) : Rouses s (s.dropLaneIfIdle lane) := by
  unfold dropLaneIfIdle
  split
  · exact .of_erase rfl rfl
  · exact .of_eq rfl rfl

theorem rearmReservationOwner_rouses (now : Nat) (s : SchedulerState) (window : WindowRef) :
    Rouses s (rearmReservationOwner now s window) := by
  unfold rearmReservationOwner
  split
  · exact .of_eq rfl rfl
  · split
    · exact .of_eq rfl rfl
    · split
      · exact .of_eq (pushJobCandidate_reservations _ _ _) (pushJobCandidate_lanes _ _ _)
      · exact .of_eq rfl rfl
  · split
    · exact .of_eq rfl rfl
    · rename_i l hl
      split
      · refine Rouses.trans ?_ (pushLaneHeadCandidate_rouses _ _ _)
        exact .of_stored rfl hl rfl fun h => (by cases h)
      · exact .of_eq rfl rfl

/-- The lane that owns the hold and sleeps has a pending job. -/
def OwnerClear (s : SchedulerState) (window : WindowRef) : Prop :=
  ∀ r lane l, s.reservations.lookup window = some r → r.owner = some (.lane lane) →
    s.lanes.lookup lane = some l → l.inBlockedHeap = true → l.Busy → l.anyLive s.live = true

theorem OwnerClear.of_moves {window : WindowRef} (h : s.OwnerClear window) (hm : Moves s s') (hr : Rouses s s') :
    s'.OwnerClear window := by
  intro r lane l' hres howner hl' hasleep hb
  obtain ⟨l, hl, hasleep'⟩ := hr.asleep lane l' hl' hasleep
  have hmoved := hm.lanes lane
  rw [hl, hl'] at hmoved
  cases hmoved with
  | kept hmode _ hcount _ _ hkeep =>
    obtain ⟨e, he, hlive⟩ := LaneState.anyLive_iff.1
      (h r lane l (hr.reservations ▸ hres) howner hl hasleep' (hb.congr hmode.symm hcount.symm))
    rw [hm.live_eq]
    exact LaneState.anyLive_iff.2 ⟨e, hkeep e he hlive, hlive⟩

theorem rearmReservationOwner_retains {window : WindowRef} (h : s.OwnerClear window) :
    Retains s (rearmReservationOwner now s window) := by
  unfold rearmReservationOwner
  split
  · exact .refl s
  · split
    · exact .refl s
    · split
      · exact .of_eq (pushJobCandidate_lanes _ _ _)
      · exact .refl s
  · rename_i lane howner
    obtain ⟨r, hr, ho⟩ := Option.bind_eq_some_iff.1 howner
    split
    · exact .refl s
    · rename_i l hl
      split
      · rename_i hasleep
        refine Retains.trans ?_ (pushLaneHeadCandidate_retains ?_)
        · exact .of_stored hl rfl rfl rfl
        rintro ⟨l', hl', hb, -, hdead⟩
        rw [Table.lookup_insert_if, if_pos rfl] at hl'
        cases hl'
        have halive := h r lane l hr ho hl hasleep (hb.congr rfl rfl)
        have hdead' : l.anyLive s.live = false := hdead
        rw [halive] at hdead'
        cases hdead'
      · exact .refl s

theorem refundWindows_rouses (now weight : Nat) (job : JobId) :
    ∀ (windows : List WindowRef) (s : SchedulerState),
      (refundWindows now weight job windows s).1.lanes = s.lanes ∧
        (refundWindows now weight job windows s).1.reservations = s.reservations ∧
        ∀ window ∈ (refundWindows now weight job windows s).2, window ∈ windows
  | [], s => ⟨rfl, rfl, fun _ h => h⟩
  | window :: windows, s => by
    have hone : (s.refundWindow now weight job window).1.lanes = s.lanes ∧
        (s.refundWindow now weight job window).1.reservations = s.reservations := by
      unfold refundWindow
      split
      · exact ⟨rfl, rfl⟩
      · dsimp only
        cases window with
        | chat key =>
          dsimp only
          split <;> exact ⟨rfl, rfl⟩
        | global | classGlobal | classChat => exact ⟨rfl, rfl⟩
    obtain ⟨hl, hr, hw⟩ := refundWindows_rouses now weight job windows (s.refundWindow now weight job window).1
    refine ⟨hl.trans hone.1, hr.trans hone.2, fun w hm => ?_⟩
    rcases List.mem_append.1 hm with hm | hm
    · split at hm
      · exact List.mem_cons.2 (.inl (List.mem_singleton.1 hm))
      · cases hm
    · exact List.mem_cons_of_mem _ (hw w hm)

theorem settleCompletion_retains (id : JobId) (permit : InFlight) (completion : OutboundCompletion) (observedAt : Nat)
    (h : completion = .noRequest → ∀ window ∈ windowsOf permit.scope permit.cls, s.OwnerClear window) :
    Retains s (s.settleCompletion id permit completion now observedAt) := by
  unfold settleCompletion
  split
  · obtain ⟨hl, hr, hw⟩ := refundWindows_rouses now permit.weight id (windowsOf permit.scope permit.cls) s
    have hm := refundWindows_moves now permit.weight id (windowsOf permit.scope permit.cls) s
    refine Retains.trans (.of_eq hl) ?_
    exact .foldl (P := OwnerClear) (R := fun s s' => Moves s s' ∧ Rouses s s')
      (fun s w => ⟨(rearmReservationOwner_quiet now s w).toMoves, rearmReservationOwner_rouses now s w⟩)
      (fun _ _ _ hm hc => hc.of_moves hm.1 hm.2) (fun _ _ hc => rearmReservationOwner_retains hc) _ _
      fun w hmem => (h rfl w (hw w hmem)).of_moves hm (.of_eq hr hl)
  · split
    · exact .refl s
    · exact .of_eq rfl
  · exact .refl s
  · exact .refl s
  · exact .refl s

/-- The lane whose permit comes back has a pending job, or no entries, or no other permit out. -/
structure CompletionClear (s : SchedulerState) (id : JobId) (completion : OutboundCompletion) : Prop where
  lane : ∀ permit lane l, s.inFlight.lookup id = some permit → permit.lane = some lane →
    s.lanes.lookup lane = some l → l.mode.isBounded = true → 2 ≤ l.inFlightCount →
    l.pending.isEmpty = true ∨ l.anyLive s.live = true
  owners : completion = .noRequest → ∀ permit, s.inFlight.lookup id = some permit →
    ∀ window ∈ windowsOf permit.scope permit.cls, s.OwnerClear window

theorem freeLane_retains {lane : OutboundLaneKey} {id : JobId} {permit : InFlight} (hp : permit.lane = some lane)
    (hc : ∀ l, s.lanes.lookup lane = some l → l.mode.isBounded = true → 2 ≤ l.inFlightCount →
      l.pending.isEmpty = true ∨ l.anyLive s.live = true) :
    ∃ s₁, Frees s id permit s₁ ∧ Moves s₁ (s.freeLane lane id now) ∧ Rouses s₁ (s.freeLane lane id now) ∧
      Retains s₁ (s.freeLane lane id now) := by
  unfold freeLane
  cases hl : s.lanes.lookup lane with
  | none => exact ⟨s, .kept hp fun l h => (by rw [hl] at h; cases h), .refl s, .of_eq rfl rfl, .refl s⟩
  | some l =>
    dsimp only
    cases hr : l.releasePermit id with
    | none =>
      refine ⟨s, .kept hp fun l' h => ?_, (s.dropLaneIfIdle_quiet lane).toMoves, s.dropLaneIfIdle_rouses lane,
        s.dropLaneIfIdle_retains lane⟩
      rw [hl] at h
      cases h
      exact hr
    | some free =>
      refine ⟨_, .freed hp hl hr, ?_⟩
      dsimp only
      split
      · exact ⟨(dropLaneIfIdle_quiet _ _).toMoves, dropLaneIfIdle_rouses _ _, dropLaneIfIdle_retains _ _⟩
      · rename_i hentries
        refine ⟨(pushLaneHeadCandidate_quiet _ _ _).toMoves, pushLaneHeadCandidate_rouses _ _ _,
          pushLaneHeadCandidate_retains ?_⟩
        rintro ⟨l', hl', hb, -, hdead⟩
        rw [Table.lookup_insert_if, if_pos rfl] at hl'
        cases hl'
        rcases releasePermit_cases hr with ⟨hbounded, -, rfl⟩ | ⟨-, -, rfl⟩
        · have hout : l.inFlightCount - 1 ≠ 0 := hb.out
          rcases hc l hl hbounded (by omega) with hempty | halive
          · exact hentries hempty
          · have hdead' : l.anyLive s.live = false := hdead
            rw [halive] at hdead'
            cases hdead'
        · exact hb.out rfl

theorem OwnerClear.of_frees {s₁ : SchedulerState} {id : JobId} {permit : InFlight} {window : WindowRef}
    (h : s.OwnerClear window) (hf : Frees s id permit s₁) : s₁.OwnerClear window := by
  cases hf with
  | unlaned | kept => exact h
  | @freed lane l l' _ hl hr =>
    intro r k l₁ hres howner hl₁ hasleep hb
    rw [Table.lookup_insert_if] at hl₁
    split at hl₁
    · rename_i hk
      subst hk
      cases hl₁
      rcases releasePermit_cases hr with ⟨hbounded, hpos, rfl⟩ | ⟨-, -, rfl⟩
      · exact h r k l hres howner hl hasleep ⟨hbounded, Nat.ne_of_gt hpos⟩
      · exact absurd rfl hb.out
    · exact h r k l₁ hres howner hl₁ hasleep hb

/-- Once the permit is back, no lane with another one out is dropped. -/
theorem complete_retains {id : JobId} {permit : InFlight} {completion : OutboundCompletion} (observedAt : Nat)
    (hp : s.inFlight.lookup id = some permit) (hc : s.CompletionClear id completion) :
    ∃ s₁, Frees { s with inFlight := s.inFlight.erase id } id permit s₁ ∧
      Moves s₁ (s.complete id completion now observedAt) ∧ Retains s₁ (s.complete id completion now observedAt) := by
  have howners : completion = .noRequest → ∀ window ∈ windowsOf permit.scope permit.cls,
      OwnerClear { s with inFlight := s.inFlight.erase id } window := fun h => hc.owners h permit hp
  unfold complete
  rw [hp]
  dsimp only
  cases hlane : permit.lane with
  | none => exact ⟨_, .unlaned hlane, settleCompletion_moves _ _ _ _ _ _, settleCompletion_retains id permit _ _ howners⟩
  | some lane =>
    have hlanes : ∀ l, s.lanes.lookup lane = some l → l.mode.isBounded = true → 2 ≤ l.inFlightCount →
        l.pending.isEmpty = true ∨ l.anyLive s.live = true := fun l => hc.lane permit lane l hp hlane
    obtain ⟨s₁, hf, hm, hr, hk⟩ : ∃ s₁, Frees { s with inFlight := s.inFlight.erase id } id permit s₁ ∧
      Moves s₁ (freeLane { s with inFlight := s.inFlight.erase id } lane id now) ∧ _ ∧ _ := freeLane_retains hlane hlanes
    exact ⟨s₁, hf, hm.trans (settleCompletion_moves _ _ _ _ _ _), hk.trans (settleCompletion_retains id permit _ _
      fun hno window hw => ((howners hno window hw).of_frees hf).of_moves hm hr)⟩

/-- No reference that a limit update wakes is to a bare lane. -/
def WaitingClear (s : SchedulerState) : Prop := ∀ reference ∈ s.waitingReferences, s.Clear reference

theorem rearmBlockedAndParked_retains {order : List CandidateRef} (h : ∀ reference ∈ order, s.Clear reference) :
    Retains s (s.rearmBlockedAndParked order now) := by
  have hmoves : Moves s { s with blocked := .empty, staleBlocked := 0, reservations := ∅ } := .of_eq rfl rfl rfl
  have hfirst : Retains s { s with blocked := .empty, staleBlocked := 0, reservations := ∅ } := .of_eq rfl
  exact hfirst.trans (.foldl (P := Clear) (fun s r => (rearmReference_quiet now s r).toMoves)
    (fun _ _ _ hm hc => hc.of_moves hm) (fun s r hc => rearmReference_retains hc) _ _
    fun r hr => (h r hr).of_moves hmoves)

theorem setLimits_retains (limits : OutboundLimits) {order : List CandidateRef} (h : ∀ reference ∈ order, s.Clear reference) :
    Retains s (s.setLimits limits order now).1 := by
  unfold setLimits
  split
  · exact .refl s
  · split
    · exact .refl s
    · split
      · exact .refl s
      · have hfirst : Retains s (s.replaceLimits limits now) := .of_eq rfl
        exact hfirst.trans (rearmBlockedAndParked_retains h)

theorem setClassLimits_retains (limits : OutboundClassLimits) {order : List CandidateRef}
    (h : ∀ reference ∈ order, s.Clear reference) : Retains s (s.setClassLimits limits order now).1 := by
  unfold setClassLimits
  split
  · exact .refl s
  · split
    · exact .refl s
    · have hfirst : Retains s (s.replaceClassLimits limits now) := .of_eq rfl
      exact hfirst.trans (rearmBlockedAndParked_retains h)

/-! ## Removal and entry -/

theorem countLeftovers_releasable {job : Job} {window : WindowRef} {owner : CandidateRef} (h : s.Releasable window owner) :
    (s.countLeftovers job).Releasable window owner := by
  have hm := (s.countLeftovers_quiet job).toMoves
  intro r hr ho reference hmem
  unfold countLeftovers at hr
  dsimp only at hr
  split at hr
  · rw [Table.lookup_modify] at hr
    split at hr
    · rename_i he
      subst he
      obtain ⟨r₀, hr₀, rfl⟩ := Option.map_eq_some_iff.1 hr
      exact (h r₀ hr₀ ho reference hmem).of_moves hm
    · exact (h r hr ho reference hmem).of_moves hm
  · exact (h r hr ho reference hmem).of_moves hm

theorem eraseJob_lanes (s : SchedulerState) (id : JobId) (job : Job) : (s.eraseJob id job).lanes = s.lanes := by
  obtain ⟨coalesce, h, -, -⟩ := s.eraseJob_eq id job
  rw [h]

theorem forgetEntry_retains (s : SchedulerState) (job : Job) (now : Nat) : Retains s (s.forgetEntry job now) := by
  unfold forgetEntry
  split
  · unfold forgetLaneEntry
    split
    · exact .refl s
    · rename_i l hl
      split
      · split <;> exact .of_stored hl rfl rfl rfl
      · exact .of_stored hl rfl rfl rfl
  · exact .of_eq rfl

theorem removeWaiting_retains {id : JobId} (h : s.OwnHoldClear id) : Retains s (s.removeWaiting id now) := by
  unfold removeWaiting
  split
  · exact .refl s
  · rename_i job hj
    have hcount : Retains s (s.countLeftovers job) := .of_eq rfl
    have hrelease : Retains (s.countLeftovers job) ((s.countLeftovers job).releaseOwned id job now) := by
      unfold releaseOwned
      split
      · rename_i window ho
        exact releaseReservation_retains (countLeftovers_releasable (h job window hj ho))
      · exact .refl _
    exact ((hcount.trans hrelease).trans (.of_eq (eraseJob_lanes _ id job))).trans (forgetEntry_retains _ job now)

theorem compactDelayedIfNeeded_lanes (s : SchedulerState) : s.compactDelayedIfNeeded.lanes = s.lanes := by
  unfold compactDelayedIfNeeded
  split <;> rfl

theorem compactCandidateHeapIfNeeded_lanes (s : SchedulerState) : s.compactCandidateHeapIfNeeded.lanes = s.lanes := by
  unfold compactCandidateHeapIfNeeded
  split <;> rfl

theorem compactBlockedIfNeeded_lanes (s : SchedulerState) : s.compactBlockedIfNeeded.lanes = s.lanes := by
  unfold compactBlockedIfNeeded
  split <;> rfl

theorem cancel_retains {id : JobId} (h : s.OwnHoldClear id) : Retains s (s.cancel id now) :=
  (removeWaiting_retains h).trans (.of_eq ((compactBlockedIfNeeded_lanes _).trans (compactDelayedIfNeeded_lanes _)))

theorem rekeyLane_retains (s : SchedulerState) (key : CandidateKey) (lane : OutboundLaneKey) :
    Retains s (s.rekeyLane key lane).1 := by
  unfold rekeyLane
  split
  · exact .refl s
  · rename_i l hl
    dsimp only
    split
    · exact .of_stored hl rfl rfl rfl
    · split
      · rename_i hidle
        refine .of_erase rfl fun l' hl' hb => ?_
        rw [hl] at hl'
        cases hl'
        have hfree : l.free = true := (LaneState.isIdle_iff.1 hidle).2
        rw [hb.not_free] at hfree
        cases hfree
      · exact .of_stored hl rfl rfl rfl

theorem rekeyAll_retains : ∀ (keys : List CandidateKey) (s : SchedulerState), Retains s (s.rekeyAll keys).1
  | [], s => .refl s
  | key :: keys, s => by
    have hkey : Retains s (s.rekey key).1 := by
      unfold rekey
      split
      · exact .refl s
      · exact s.rekeyLane_retains key _
    exact hkey.trans (rekeyAll_retains keys _)

theorem takeSequence_retains (s : SchedulerState) : Retains s s.takeSequence.1 := by
  have hrebase : Retains s s.rebaseSequences := by
    unfold rebaseSequences
    split
    · exact .of_eq rfl
    · split
      · have hrank : Retains s s.rankSequences := .of_eq rfl
        exact (hrank.trans (rekeyAll_retains s.candidates.entries _)).trans (.of_eq rfl)
      · exact .of_eq rfl
  unfold takeSequence
  dsimp only
  split
  · exact hrebase.trans (.of_eq rfl)
  · exact .of_eq rfl

theorem insertLanePending_retains (s : SchedulerState) (lane : OutboundLaneKey) (job : JobId) (inherited : Option Nat)
    (mode : OutboundLaneMode) : Retains s (s.insertLanePending lane job inherited mode).1 := by
  have hget : ∀ l, s.lanes.lookup lane = some l → (s.lanes.lookup lane).getD (.new mode) = l := by
    intro l hl
    rw [hl, Option.getD_some]
  unfold insertLanePending
  dsimp only
  generalize (s.lanes.lookup lane).getD (.new mode) = l at hget ⊢
  have hbusy : ∀ l₀, s.lanes.lookup lane = some l₀ → l₀.Busy → l.Busy := fun l₀ hl₀ hb => hget l₀ hl₀ ▸ hb
  split
  · exact .of_lane rfl fun l₀ hl₀ hb => (hbusy l₀ hl₀ hb).congr rfl rfl
  · split
    · have hrenumber : Retains s ((s.check (l.mode == mode)).renumberLane lane l) :=
        .of_lane rfl fun l₀ hl₀ hb => (hbusy l₀ hl₀ hb).congr rfl rfl
      refine hrenumber.trans (.of_lane rfl fun l₀ hl₀ hb => ?_)
      simp only [renumberLane, Table.lookup_insert_if, if_true, Option.some.injEq] at hl₀
      exact (hl₀ ▸ hb).congr rfl rfl
    · exact .of_lane rfl fun l₀ hl₀ hb => (hbusy l₀ hl₀ hb).congr rfl rfl

/-- The job has its entry in the lane. -/
theorem insertLanePending_entry (s : SchedulerState) (lane : OutboundLaneKey) (job : JobId) (inherited : Option Nat)
    (mode : OutboundLaneMode) : ∃ l e, (s.insertLanePending lane job inherited mode).1.lanes.lookup lane = some l ∧
      e ∈ l.pending ∧ e.job = job := by
  unfold insertLanePending
  dsimp only
  have hadd (s : SchedulerState) (l : LaneState) (order : Nat) : ∃ l' e,
      (s.addLaneEntry lane l job order).1.lanes.lookup lane = some l' ∧ e ∈ l'.pending ∧ e.job = job :=
    ⟨{ l with pending := l.pending.insert ⟨order, job⟩ }, ⟨order, job⟩,
      by simp only [addLaneEntry, Table.lookup_insert_if, if_true], Heap.mem_insert.2 (.inl rfl), rfl⟩
  split
  · exact hadd _ _ _
  · split <;> exact hadd _ _ _

theorem dropHeadKey_retains (s : SchedulerState) (lane : OutboundLaneKey) (superseded : Option JobId) :
    Retains s (s.dropHeadKey lane superseded) := by
  unfold dropHeadKey
  dsimp only
  split
  · exact .of_modify rfl fun l hb => hb.congr rfl rfl
  · exact .refl s

/-- The lane that a job has just joined is not bare. -/
theorem placeJob_retains (s : SchedulerState) (metadata : OutboundMeta) (options : EnqueueOptions) (slot : Slot) :
    Retains (s.storeJob metadata options slot)
      ((s.storeJob metadata options slot).placeJob s.nextJobId metadata options slot) := by
  have hlive := (s.entered_live_iff metadata options slot s.nextJobId).2 (.inl rfl)
  unfold entered at hlive
  unfold placeJob
  split
  · rename_i lane hlane
    rw [hlane] at hlive
    dsimp only at hlive
    have hjoin := (s.storeJob metadata options slot).insertLanePending_retains lane s.nextJobId slot.laneOrder
      options.laneMode
    obtain ⟨l, e, hl, he, hid⟩ := (s.storeJob metadata options slot).insertLanePending_entry lane s.nextJobId
      slot.laneOrder options.laneMode
    have henter : Retains (s.storeJob metadata options slot)
        ((s.storeJob metadata options slot).enterLane lane s.nextJobId slot.laneOrder options.laneMode) :=
      hjoin.trans (.of_eq rfl)
    unfold joinLane
    refine (henter.trans (dropHeadKey_retains _ lane slot.superseded)).trans (pushLaneHeadCandidate_retains fun hbare => ?_)
    have hentered := hbare.of_moves (dropHeadKey_quiet _ lane slot.superseded).toMoves
    refine not_bare_of_member ?_ he ?_ hentered
    · exact hl
    · rw [hid]
      exact hlive
  · split
    · exact .of_eq (pushJobCandidate_lanes _ _ _)
    · exact .refl _

theorem addJob_retains (s : SchedulerState) (metadata : OutboundMeta) (options : EnqueueOptions) (slot : Slot) :
    Retains s (s.addJob metadata options slot).1 := by
  have hstore : Retains s (s.storeJob metadata options slot) := .of_eq rfl
  have hput (s : SchedulerState) (id : JobId) (key : Option InternalCoalesceKey) :
      (s.putCoalesceEntry id key).lanes = s.lanes := by
    cases key <;> rfl
  refine (hstore.trans (s.placeJob_retains metadata options slot)).trans (.of_eq ?_)
  unfold addJob
  dsimp only
  rw [compactBlockedIfNeeded_lanes, compactCandidateHeapIfNeeded_lanes, compactDelayedIfNeeded_lanes, hput]

theorem enqueue_retains {metadata : OutboundMeta} {options : EnqueueOptions}
    (h : ∀ old oldJob, s.supersededJob (coalesceKeyOf metadata options.mode) = some (old, oldJob) → s.OwnHoldClear old) :
    Retains s (s.enqueue metadata options).1 := by
  have hc := s.enqueue_cases metadata options
  generalize (s.enqueue metadata options).1 = s' at hc ⊢
  generalize (s.enqueue metadata options).2 = r at hc
  cases hc with
  | refused => exact .refl s
  | full => exact s.takeSequence_retains
  | fresh => exact s.takeSequence_retains.trans (addJob_retains _ metadata options _)
  | replaced _ hs => exact (removeWaiting_retains (h _ _ hs)).trans (addJob_retains _ metadata options _)

end SchedulerState

end Teloxide.Outbound
