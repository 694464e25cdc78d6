import Teloxide.Outbound.Scheduler.LaneOrder
import Teloxide.Outbound.Scheduler.Residue

/-!
# Latest-wins slots

A latest-wins request replaces the pending job of its slot. The scheduler finds that
job through the coalescing map (`crates/teloxide-core/src/outbound/scheduler.rs:795-906`
and `1069-1160`; `docs/OUTBOUND_SCHEDULER.md:227-251`).

* `Slots`: every pending job with a coalescing key is the one the map has for it. With
  `coalesced_run`, the map and the pending jobs agree.
* `latest_wins`: they agree in every run; a replacement takes over the sequence and the
  lane order, and the age when both jobs are ready; the backlog stays within a constant
  bound.
-/
namespace Teloxide.Outbound

open Teloxide.Core

namespace SchedulerState

/-- A pending job with a coalescing key has the slot of that key, and the key is that of
its own metadata. A job without a lane has no lane order. -/
structure Slots (s : SchedulerState) : Prop where
  held : ∀ id job key, s.jobs.lookup id = some job → job.coalesceKey = some key → s.coalesce.lookup key = some id
  shape : ∀ id job key, s.jobs.lookup id = some job → job.coalesceKey = some key →
    key.scope = job.metadata.scope ∧ key.lane = job.metadata.lane ∧ key.cls = job.metadata.cls
  unlaned : ∀ id job, s.jobs.lookup id = some job → job.metadata.lane = none → job.laneOrder = none

namespace Slots

variable {s s' : SchedulerState}

/-- Some jobs go, the others keep their slots and their entries. -/
theorem thin (h : Slots s)
    (hc : ∀ key a, s.coalesce.lookup key = some a → s'.live a = true → s'.coalesce.lookup key = some a)
    (hj : ∀ a job', s'.jobs.lookup a = some job' → ∃ job, s.jobs.lookup a = some job ∧ job'.slot = job.slot) :
    Slots s' where
  held a job' key hj' hk := by
    obtain ⟨job, hjob, hs⟩ := hj a job' hj'
    exact hc key a (h.held a job key hjob (Lined.slot_key hs ▸ hk)) (live_of hj')
  shape a job' key hj' hk := by
    obtain ⟨job, hjob, hs⟩ := hj a job' hj'
    rw [Lined.slot_metadata hs]
    exact h.shape a job key hjob (Lined.slot_key hs ▸ hk)
  unlaned a job' hj' hl := by
    obtain ⟨job, hjob, hs⟩ := hj a job' hj'
    rw [Lined.slot_order hs]
    exact h.unlaned a job hjob (Lined.slot_metadata hs ▸ hl)

theorem stays (h : Slots s) (hs : Stays s s') (hc : s'.coalesce = s.coalesce) : Slots s' :=
  h.thin (fun _ _ hl _ => hc ▸ hl) fun _ _ hj => hs.job hj

theorem moves (h : Slots s) (hm : Moves s s') : Slots s' := h.stays (.of_moves hm) hm.coalesce

theorem shrinks (h : Slots s) (hs : Shrinks s s')
    (hc : ∀ key a, s.coalesce.lookup key = some a → s'.live a = true → s'.coalesce.lookup key = some a) : Slots s' :=
  h.thin hc hs.jobs

end Slots

/-! ## What becomes of the map -/

theorem rebaseSequences_coalesce (s : SchedulerState) : s.rebaseSequences.coalesce = s.coalesce := by
  unfold rebaseSequences
  split
  · rfl
  · split
    · exact (rekeyAll_quiet s.candidates.entries s.rankSequences).coalesce
    · rfl

theorem takeSequence_coalesce (s : SchedulerState) : s.takeSequence.1.coalesce = s.coalesce := by
  unfold takeSequence
  dsimp only
  split
  · exact s.rebaseSequences_coalesce
  · rfl

theorem wakeDelayed_coalesce (s : SchedulerState) (id : JobId) (now : Nat) :
    (s.wakeDelayed id now).coalesce = s.coalesce := by
  unfold wakeDelayed
  split
  · rfl
  · dsimp only
    split
    · exact (pushLaneHeadCandidate_quiet _ _ _).coalesce
    · exact (pushJobCandidate_quiet _ _ _).coalesce

theorem promoteDelayedLoop_coalesce {now : Nat} :
    ∀ (n : Nat) (s : SchedulerState), (promoteDelayedLoop now n s).coalesce = s.coalesce
  | 0, _ => rfl
  | n + 1, s => by
    unfold promoteDelayedLoop
    split
    · rfl
    · split
      · rfl
      · rw [promoteDelayedLoop_coalesce n, wakeDelayed_coalesce]

theorem beginPass_coalesce {s s' : SchedulerState} {order : List WindowRef} {fuel now : Nat}
    (h : s.beginPass order fuel now = some s') : s'.coalesce = s.coalesce := by
  obtain ⟨s₂, h₂, -, rfl⟩ := beginPass_cases h
  rw [((promoteReservations_quiet s₂ order now).trans (compactLanesIfNeeded_quiet _)).coalesce]
  unfold awaken at h₂
  rw [Option.map_eq_some_iff] at h₂
  obtain ⟨s₁, h₁, rfl⟩ := h₂
  rw [(promoteBlocked_quiet _ _).coalesce, promoteDelayed, promoteDelayedLoop_coalesce, (promoteAging_quiet h₁).coalesce]

theorem setLimits_coalesce (s : SchedulerState) (limits : OutboundLimits) (order : List CandidateRef) (now : Nat) :
    (s.setLimits limits order now).1.coalesce = s.coalesce := by
  unfold setLimits
  split
  · rfl
  · split
    · rfl
    · split
      · rfl
      · exact (rearmBlockedAndParked_quiet _ order now).coalesce

theorem setClassLimits_coalesce (s : SchedulerState) (limits : OutboundClassLimits) (order : List CandidateRef)
    (now : Nat) : (s.setClassLimits limits order now).1.coalesce = s.coalesce := by
  unfold setClassLimits
  split
  · rfl
  · split
    · rfl
    · exact (rearmBlockedAndParked_quiet _ order now).coalesce

theorem starts_coalesce {s s' : SchedulerState} {id : JobId} (h : Starts s id s') : s'.coalesce = s.coalesce := by
  cases h with
  | nothing => rfl
  | freed _ _ _ _ _ hq => rw [hq.coalesce]

theorem completes_coalesce {s s' : SchedulerState} {id : JobId} (h : Completes s id s') :
    s'.coalesce = s.coalesce := by
  cases h with
  | nothing => rfl
  | done _ hf hm =>
    rw [hm.coalesce]
    cases hf <;> rfl

/-- Only the entry of the job itself goes with it. -/
theorem eraseJob_coalesce {s : SchedulerState} {id a : JobId} {job : Job} {key : InternalCoalesceKey}
    (h : s.coalesce.lookup key = some a) (ha : a ≠ id) : (s.eraseJob id job).coalesce.lookup key = some a := by
  unfold eraseJob removeCoalesceEntry
  split
  · exact h
  · split
    · rename_i key' hid
      simp only [Table.lookup_erase_if]
      rw [if_neg, h]
      rintro rfl
      exact ha (Option.some.inj (h.symm.trans hid))
    · exact h

theorem removeWaiting_coalesce {s : SchedulerState} {id a : JobId} {key : InternalCoalesceKey} (now : Nat)
    (h : s.coalesce.lookup key = some a) (ha : a ≠ id) :
    (s.removeWaiting id now).coalesce.lookup key = some a := by
  unfold removeWaiting
  split
  · exact h
  · rename_i job hj
    rw [(forgetEntry_quiet _ job now).coalesce]
    refine eraseJob_coalesce ?_ ha
    rw [((s.countLeftovers_quiet job).trans (releaseOwned_quiet _ id job now)).coalesce, h]

theorem grant_coalesce {s : SchedulerState} {id a : JobId} {key : InternalCoalesceKey} (now : Nat)
    (h : s.coalesce.lookup key = some a) (ha : a ≠ id) : (s.grant id now).coalesce.lookup key = some a := by
  unfold grant
  split
  · exact h
  · rename_i job hj
    obtain ⟨lanes, p, h₂⟩ := takePermit_eq (s.eraseJob id job) id job
    rw [(rearmBoundedLane_quiet _ job now).coalesce]
    show (debit _ _ _ _).coalesce.lookup key = some a
    rw [(debit_moves _ id job now).coalesce, h₂]
    exact eraseJob_coalesce h ha

theorem addJob_coalesce (s : SchedulerState) (metadata : OutboundMeta) (options : EnqueueOptions) (slot : Slot) :
    (s.addJob metadata options slot).1.coalesce =
      match coalesceKeyOf metadata options.mode with
      | some key => s.coalesce.insert key s.nextJobId
      | none => s.coalesce := by
  have hp : ((s.storeJob metadata options slot).placeJob s.nextJobId metadata options slot).coalesce = s.coalesce := by
    rw [(s.placeJob_quiet metadata options slot).coalesce]
    obtain ⟨jobs, lanes, p, h⟩ := s.entered_eq metadata options slot
    rw [h]
  unfold addJob
  dsimp only
  rw [(compactAll_quiet _).coalesce]
  cases coalesceKeyOf metadata options.mode with
  | none => exact hp
  | some key => exact congrArg (AList.insert key s.nextJobId ·) hp

/-! ## A job enters -/

/-- The jobs without a lane are left alone. -/
theorem entered_unlaned {pos : JobId → Nat} {out : JobId → Prop} {s : SchedulerState} {a : JobId} {job : Job}
    (h : Lined pos s out) (hj : s.jobs.lookup a = some job) (hl : job.metadata.lane = none)
    (ha : a ≠ s.nextJobId) (metadata : OutboundMeta) (options : EnqueueOptions) (slot : Slot) :
    (s.entered metadata options slot).jobs.lookup a = some job := by
  have hstored : (s.storeJob metadata options slot).jobs.lookup a = some job := by
    simp only [storeJob, Table.lookup_insert_if]
    rw [if_neg ha, hj]
  unfold entered
  split
  · rename_i lane _
    simp only [enterLane, Table.lookup_modify]
    rw [if_neg ha]
    unfold insertLanePending
    dsimp only
    split
    · exact hstored
    · split
      · -- the entries that are numbered are not those of the job
        rename_i hn
        generalize hgen : ((s.storeJob metadata options slot).lanes.lookup lane).getD (.new options.laneMode) = l
        have hw : LaneLined pos s lane l := by
          have hlanes : (s.storeJob metadata options slot).lanes = s.lanes := rfl
          rw [hlanes] at hgen
          cases hlane : s.lanes.lookup lane with
          | some l' =>
            rw [hlane] at hgen
            exact hgen ▸ h.lanes lane l' hlane
          | none =>
            rw [hlane] at hgen
            exact hgen ▸ LaneLined.new pos s lane options.laneMode
        refine ((renumber_lookup a _ _ (renumber_once hw.once)).2 fun e he heq => ?_).trans hstored
        obtain ⟨i, hi, rfl⟩ := mem_renumber.1 he
        have hown := (hw.own _ (List.getElem_mem hi) job (heq ▸ hj)).1
        cases hl.symm.trans hown
      · exact hstored
  · exact hstored

/-- A replacement takes the order it inherits. -/
theorem entered_order (s : SchedulerState) {metadata : OutboundMeta} (options : EnqueueOptions) {slot : Slot}
    {lane : OutboundLaneKey} {order : Nat} (hl : metadata.lane = some lane) (ho : slot.laneOrder = some order) :
    ((s.entered metadata options slot).jobs.lookup s.nextJobId).map (·.laneOrder) = some (some order) := by
  simp [entered, hl, enterLane, insertLanePending, ho, addLaneEntry, storeJob, check]

/-- A job enters a slot that no pending job holds. -/
theorem Slots.add {pos : JobId → Nat} {out : JobId → Prop} {s : SchedulerState} (h : Slots s) (hl : Lined pos s out)
    (metadata : OutboundMeta) (options : EnqueueOptions) (slot : Slot)
    (hfree : ∀ a job key, s.jobs.lookup a = some job → job.coalesceKey = some key →
      coalesceKeyOf metadata options.mode ≠ some key) : Slots (s.addJob metadata options slot).1 := by
  have hfresh : ∀ a job, s.jobs.lookup a = some job → a ≠ s.nextJobId := fun a job hj =>
    Nat.ne_of_lt (hl.known a (live_of hj))
  -- the view of a job after the call
  have hview {a : JobId} {job' : Job} (hj' : (s.addJob metadata options slot).1.jobs.lookup a = some job') :
      a = s.nextJobId ∧ job'.metadata = metadata ∧ job'.coalesceKey = coalesceKeyOf metadata options.mode ∨
        a ≠ s.nextJobId ∧ ∃ job, s.jobs.lookup a = some job ∧ job'.metadata = job.metadata ∧
          job'.coalesceKey = job.coalesceKey := by
    obtain ⟨job₁, hj₁, hs⟩ := (s.addJob_stays metadata options slot).job hj'
    have he := s.entered_jobs (fun j => (j.metadata, j.coalesceKey)) (fun _ _ => rfl) metadata options slot a
    rw [hj₁, Option.map_some] at he
    rw [Lined.slot_metadata hs, Lined.slot_key hs]
    by_cases ha : a = s.nextJobId
    · rw [if_pos ha, Option.some.injEq, Prod.mk.injEq] at he
      exact .inl ⟨ha, he.1, he.2⟩
    · rw [if_neg ha, eq_comm, Option.map_eq_some_iff] at he
      obtain ⟨job, hj, he⟩ := he
      rw [Prod.mk.injEq] at he
      exact .inr ⟨ha, job, hj, he.1.symm, he.2.symm⟩
  refine ⟨fun a job' key hj' hk => ?_, fun a job' key hj' hk => ?_, fun a job' hj' hnone => ?_⟩
  · rw [s.addJob_coalesce metadata options slot]
    rcases hview hj' with ⟨rfl, -, hkey⟩ | ⟨ha, job, hj, -, hkey⟩
    · rw [hkey] at hk
      simp only [hk, Table.lookup_insert_if, if_true]
    · rw [hkey] at hk
      have hne := hfree a job key hj hk
      split
      · rename_i key' hk'
        rw [Table.lookup_insert_if, if_neg, h.held a job key hj hk]
        rintro rfl
        exact hne hk'
      · exact h.held a job key hj hk
  · rcases hview hj' with ⟨rfl, hm, hkey⟩ | ⟨ha, job, hj, hm, hkey⟩
    · rw [hkey] at hk
      rw [hm]
      unfold coalesceKeyOf at hk
      split at hk
      · cases hk
      · cases hk
        exact ⟨rfl, rfl, rfl⟩
    · rw [hm]
      exact h.shape a job key hj (hkey ▸ hk)
  · obtain ⟨job₁, hj₁, hs⟩ := (s.addJob_stays metadata options slot).job hj'
    rw [Lined.slot_order hs]
    rcases hview hj' with ⟨rfl, hm, -⟩ | ⟨ha, job, hj, hm, -⟩
    · rw [hm] at hnone
      simp only [entered, hnone, storeJob, Table.lookup_insert_if, if_true, Option.some.injEq] at hj₁
      rw [← hj₁]
      simp [newJob, hnone]
    · have hsame := entered_unlaned hl hj (hm ▸ hnone) ha metadata options slot
      rw [Option.some.inj (hj₁.symm.trans hsame)]
      exact h.unlaned a job hj (hm ▸ hnone)

/-- Once a job has entered, only the heaps and the map change. -/
theorem addJob_core (s : SchedulerState) (metadata : OutboundMeta) (options : EnqueueOptions) (slot : Slot)
    (a : JobId) : ((s.addJob metadata options slot).1.jobs.lookup a).map Job.core =
      ((s.entered metadata options slot).jobs.lookup a).map Job.core := by
  rw [← (s.placeJob_quiet metadata options slot).toMoves.jobs a]
  unfold addJob
  dsimp only
  rw [(compactAll_quiet _).toMoves.jobs a]
  unfold putCoalesceEntry
  split <;> rfl

/-- What a replacement takes over from the job it replaces. -/
theorem enqueue_replaces {pos : JobId → Nat} {s s' : SchedulerState} (h : Slots s) (hco : Coalesced s)
    (hl : Lined pos s fun _ => False) {metadata : OutboundMeta} {options : EnqueueOptions} {new old : JobId}
    (he : s.enqueue metadata options = (s', .ok ⟨new, some old⟩)) :
    ∃ oldJob job, s.jobs.lookup old = some oldJob ∧ s'.jobs.lookup new = some job ∧ s'.jobs.lookup old = none ∧
      job.coalesceKey = oldJob.coalesceKey ∧ job.sequence = oldJob.sequence ∧ job.laneOrder = oldJob.laneOrder ∧
      job.readyAt = if oldJob.notBefore = none ∧ options.notBefore = none then oldJob.readyAt else options.now := by
  have hc := s.enqueue_cases metadata options
  rw [he] at hc
  generalize hr : (Except.ok (EnqueueOutcome.mk new (some old)) : Except EnqueueError EnqueueOutcome) = r at hc
  cases hc with
  | refused | full | fresh => cases hr
  | @replaced _ oldJob slot _ hs _ hslot =>
    cases hr
    obtain ⟨hj, -, key, hkey, hlookup⟩ := supersededJob_some hs
    have hrm := removeWaiting_removes hj options.now
    generalize s.removeWaiting old options.now = s₁ at hrm
    have hgone : s₁.live old = false := by
      rw [← Bool.not_eq_true, hrm.live_iff]
      simp
    have hne : old ≠ s₁.nextJobId := by
      rw [hrm.nextJobId]
      exact Nat.ne_of_lt (hl.known old (live_of hj))
    -- the new job, as it entered
    have hview := s₁.entered_jobs (fun j => (j.coalesceKey, j.sequence, j.readyAt)) (fun _ _ => rfl)
      metadata options slot s₁.nextJobId
    rw [if_pos rfl, Option.map_eq_some_iff] at hview
    obtain ⟨job₁, hj₁, hview⟩ := hview
    have hcore := s₁.addJob_core metadata options slot s₁.nextJobId
    rw [hj₁, Option.map_some, Option.map_eq_some_iff] at hcore
    obtain ⟨job, hjob, hcore⟩ := hcore
    have hsame : (job.coalesceKey, job.sequence, job.readyAt, job.laneOrder) =
        (job₁.coalesceKey, job₁.sequence, job₁.readyAt, job₁.laneOrder) := by
      have := congrArg (fun j : Job => (j.coalesceKey, j.sequence, j.readyAt, j.laneOrder)) hcore
      exact this
    simp only [Prod.mk.injEq] at hsame hview
    obtain ⟨hk, hq, hr, ho⟩ := hsame
    obtain ⟨hk₁, hq₁, hr₁⟩ := hview
    have holdkey : oldJob.coalesceKey = coalesceKeyOf metadata options.mode := by
      have := hco key old hlookup
      rw [hj, Option.map_some, Option.some.injEq] at this
      rw [this, hkey]
    have hlane : oldJob.metadata.lane = metadata.lane := by
      rw [← (h.shape old oldJob key hj (holdkey.trans hkey)).2.1]
      unfold coalesceKeyOf at hkey
      split at hkey
      · cases hkey
      · cases hkey
        rfl
    refine ⟨oldJob, job, hj, hjob, ?_, hk.trans (hk₁.trans holdkey.symm), hq.trans (hq₁.trans ?_), ho.trans ?_,
      hr.trans (hr₁.trans ?_)⟩
    · show (s₁.addJob metadata options slot).1.jobs.lookup old = none
      rw [← not_live_iff, (s₁.addJob_stays metadata options slot).live_eq, ← Bool.not_eq_true, entered_live_iff]
      simp [hne, hgone]
    · rw [hslot]
      rfl
    · cases hm : metadata.lane with
      | none =>
        rw [h.unlaned old oldJob hj (hlane.trans hm)]
        simp only [entered, hm, storeJob, Table.lookup_insert_if, if_true, Option.some.injEq] at hj₁
        rw [← hj₁]
        simp [newJob, hm]
      | some lane =>
        obtain ⟨_, order, -, ho', -⟩ := hl.member old oldJob lane hj (hlane.trans hm) not_false
        have hslot' : slot.laneOrder = some order := by rw [hslot, ho']
        have hend := s₁.entered_order options hm hslot'
        rw [hj₁, Option.map_some, Option.some.injEq] at hend
        rw [hend, ho']
    · rw [hslot]
      unfold newJob
      dsimp only
      cases options.notBefore <;> cases oldJob.notBefore <;> simp

/-! ## The bound of the backlog -/

theorem size_le {s s' : SchedulerState} (h : ∀ id, s'.live id = true → s.live id = true) : s'.jobs.size ≤ s.jobs.size := by
  have := Table.size_le_add [] fun id hid => .inr (h id hid)
  rwa [List.length_nil, Nat.zero_add] at this

theorem addJob_size (s : SchedulerState) (metadata : OutboundMeta) (options : EnqueueOptions) (slot : Slot) :
    (s.addJob metadata options slot).1.jobs.size ≤ s.jobs.size + 1 := by
  have h : ∀ id, (s.addJob metadata options slot).1.live id = true → id ∈ [s.nextJobId] ∨ s.live id = true := by
    intro id hid
    rw [(s.addJob_stays metadata options slot).live_eq, entered_live_iff] at hid
    exact hid.imp_left List.mem_singleton.2
  have := Table.size_le_add [s.nextJobId] h
  rwa [List.length_singleton, Nat.add_comm] at this

/-- A new job is let in below the bound only, and a replacement comes for another job. -/
theorem enqueue_size (s : SchedulerState) (metadata : OutboundMeta) (options : EnqueueOptions) :
    (s.enqueue metadata options).1.jobs.size ≤ max s.jobs.size options.queueCapacity := by
  unfold enqueue
  split
  · exact Nat.le_max_left _ _
  · split
    · rename_i old oldJob hs
      split
      · have hj := (supersededJob_some hs).1
        have hrm := removeWaiting_removes hj options.now
        have hlt : (s.removeWaiting old options.now).jobs.size < s.jobs.size :=
          Table.size_lt (fun id hid => ((hrm.live_iff id).1 hid).2)
            (Bool.eq_false_iff.2 fun hold => ((hrm.live_iff old).1 hold).1 rfl) (live_of hj)
        exact Nat.le_trans (addJob_size _ _ _ _) (Nat.le_trans hlt (Nat.le_max_left _ _))
      · exact Nat.le_max_left _ _
    · dsimp only
      split
      · refine Nat.le_trans (size_le fun id hid => ?_) (Nat.le_max_left _ _)
        rwa [s.takeSequence_stays.live_eq] at hid
      · rename_i hroom
        exact Nat.le_trans (addJob_size _ _ _ _) (Nat.le_trans (Nat.lt_of_not_le hroom) (Nat.le_max_right _ _))

/-! ## Every step -/

namespace Slots

variable {s s' : SchedulerState} {τ : List Event}

/-- Where there is nothing to replace, the slot is free. -/
theorem free_of_none (h : Slots s) (hlife : Life τ s) {key : Option InternalCoalesceKey}
    (hs : s.supersededJob key = none) :
    ∀ a job k, s.jobs.lookup a = some job → job.coalesceKey = some k → key ≠ some k := by
  rintro a job k hj hk rfl
  have hfly : s.inFlight.contains a = false := by
    rw [← Bool.not_eq_true, hlife.inFlight, (hlife.pending a).1 (live_of hj)]
    exact Phase.noConfusion
  simp [supersededJob, h.held a job k hj hk, hj, hfly] at hs

theorem enqueued (h : Slots s) (hlife : Life τ s) (hl : Lined (position τ) s fun _ => False) {metadata : OutboundMeta}
    {options : EnqueueOptions} {r : Except EnqueueError EnqueueOutcome} (hc : Enqueues s metadata options s' r) :
    Slots s' := by
  cases hc with
  | refused => exact h
  | full => exact h.stays s.takeSequence_stays s.takeSequence_coalesce
  | fresh _ hs =>
    have hst := s.takeSequence_stays
    refine (h.stays hst s.takeSequence_coalesce).add (hl.shrinks (.of_stays hst)) _ _ _ fun a job key hj hk => ?_
    obtain ⟨job₀, hj₀, hslot⟩ := hst.job hj
    exact h.free_of_none hlife hs a job₀ key hj₀ (Lined.slot_key hslot ▸ hk)
  | @replaced old oldJob _ _ hs =>
    obtain ⟨hj, -, key, hkey, hlookup⟩ := supersededJob_some hs
    have hrm := removeWaiting_removes hj options.now
    have hsh := Shrinks.of_removes hrm
    refine (h.shrinks hsh fun k a hc hlive => ?_).add (hl.shrinks hsh) _ _ _ fun a job k hj' hk heq => ?_
    · exact removeWaiting_coalesce _ hc ((hrm.live_iff a).1 hlive).1
    · -- the slot was that of the job which has gone
      rw [hkey] at heq
      cases heq
      obtain ⟨job₀, hj₀, hslot⟩ := hsh.jobs a job hj'
      have := h.held a job₀ key hj₀ (Lined.slot_key hslot ▸ hk)
      exact ((hrm.live_iff a).1 (live_of hj')).1 (Option.some.inj (this.symm.trans hlookup))

theorem called (h : Slots s) (hlife : Life τ s) (hl : Lined (position τ) s fun _ => False)
    {a : Action} {e : Event} (hc : s.call a = some (s', e)) : Slots s' := by
  cases a with
  | enqueue metadata options =>
    have he := h.enqueued hlife hl (s.enqueue_cases metadata options)
    simp only [call] at hc
    split at hc
    · rename_i hq
      rw [hq] at he
      split at hc
      · cases hc
        exact he
      · cases hc
    · rename_i hq
      rw [hq] at he
      cases hc
      exact he
  | cancel id now =>
    cases hc
    cases hj : s.jobs.lookup id with
    | none =>
      rw [cancel, removeWaiting_none hj]
      exact h.moves ((compactDelayedIfNeeded_quiet s).trans (compactBlockedIfNeeded_quiet _)).toMoves
    | some job =>
      have hrm := removeWaiting_removes hj now
      refine Slots.moves (h.shrinks (.of_removes hrm) fun key a hk hlive => ?_)
        ((compactDelayedIfNeeded_quiet _).trans (compactBlockedIfNeeded_quiet _)).toMoves
      exact removeWaiting_coalesce now hk ((hrm.live_iff a).1 hlive).1
  | start id now =>
    cases hc
    have hs := s.start_starts id now
    exact h.shrinks (.of_starts hs) fun key a hk _ => starts_coalesce hs ▸ hk
  | complete id completion now observedAt =>
    cases hc
    have hs := s.complete_completes id completion now observedAt
    exact h.shrinks (.of_completes hs) fun key a hk _ => completes_coalesce hs ▸ hk
  | penalize scope deadline now =>
    cases hc
    exact h.stays (.of_eq rfl rfl rfl rfl rfl) rfl
  | setLimits limits order now =>
    simp only [call] at hc
    split at hc
    · cases hc
      exact h.stays (s.setLimits_stays limits order now) (s.setLimits_coalesce limits order now)
    · cases hc
  | setClassLimits limits order now =>
    simp only [call] at hc
    split at hc
    · cases hc
      exact h.stays (s.setClassLimits_stays limits order now) (s.setClassLimits_coalesce limits order now)
    · cases hc
  | nextDeadline now =>
    cases hc
    exact h.moves (s.nextDeadline_quiet now).toMoves
  | beginPass | turn | endPass => cases hc

theorem turned (h : Slots s) {now : Nat} {e : Event} (ht : s.turn now = some (s', e)) : Slots s' := by
  cases turn_cases ht with
  | skipped hp => exact h.moves (popTurn_quiet hp).toMoves
  | @granted s₁ s₂ c job hp hj ha =>
    have hm : Moves s₁ s₂ := by
      have := s₁.admission_moves c now
      rwa [ha] at this
    obtain ⟨job₂, hj₂, -⟩ := hm.job' hj
    have hg := grant_grants hj₂ now
    refine Slots.moves (Slots.thin (h.moves ((popTurn_quiet hp).toMoves.trans hm)) (fun key a hk hlive => ?_)
      fun a job' hj' => ?_) (rearmReservations_quiet _ c now).toMoves
    · exact grant_coalesce now hk ((hg.live_iff a).1 hlive).1
    · have hcore := hg.jobs a
      rw [hj'] at hcore
      split at hcore
      · cases hcore
      · rw [Option.map_some, eq_comm, Option.map_eq_some_iff] at hcore
        obtain ⟨job, hjob, hcore⟩ := hcore
        exact ⟨job, hjob, Job.slot_of_core hcore.symm⟩
  | @held s₁ s₂ c job verdict hp hj ha hne =>
    have hm : Moves s₁ s₂ := by
      have := s₁.admission_moves c now
      rwa [ha] at this
    exact h.moves (((popTurn_quiet hp).toMoves.trans hm).trans (settle_quiet s₂ c now hne).toMoves)

end Slots

/-! ## Every run -/

/-- The scheduler from the start is one that is taken up without lanes. -/
theorem run_resumed {ok : Sys → Action → Prop} {τ : List Event} {x : Sys} (hr : Run ok τ x) : resumed.Run ok τ x := by
  induction hr with
  | @start x hi =>
    refine .start ⟨x, ∅, hi, fun _ _ h => (by cases h), ?_⟩
    obtain ⟨-, limits, classLimits, aging, hok⟩ := hi
    rw [← show x.sched.lanes = ∅ by rw [newWithClassLimits_ok hok]; rfl]
  | step _ ho hs ih => exact .step ih ho hs

theorem lined_of_run {ok : Sys → Action → Prop} {τ : List Event} {x : Sys} (hr : Run ok τ x) :
    Lined (position τ) x.sched fun _ => False := (laneFifo_run (run_resumed hr)).lined

theorem slots_run {ok : Sys → Action → Prop} {τ : List Event} {x : Sys} (hr : Run ok τ x) : x.sched.Slots := by
  refine Machine.Run.induct (I := fun _ x => x.sched.Slots) (fun x hi => ?_) (fun τ x a x' e hr h _ hs => ?_) hr
  · obtain ⟨-, limits, classLimits, aging, hok⟩ := hi
    rw [newWithClassLimits_ok hok]
    exact ⟨fun _ _ _ hj => (by cases hj), fun _ _ _ hj => (by cases hj), fun _ _ hj => (by cases hj)⟩
  · cases step_steps hs with
    | call _ _ hc => exact h.called (life_run hr) (lined_of_run hr) hc
    | began _ _ hb => exact h.stays (beginPass_stays hb) (beginPass_coalesce hb)
    | turn _ _ ht => exact h.turned ht
    | ended => exact h.moves (endPass_moves _ _)

end SchedulerState

/-- Every request is made with this bound of the backlog. -/
def Action.capped (capacity : Nat) : Action → Prop
  | .enqueue _ options => options.queueCapacity = capacity
  | _ => True

instance (capacity : Nat) (a : Action) : Decidable (a.capped capacity) := by
  cases a <;> unfold Action.capped <;> infer_instance

open SchedulerState in
/-- Only `enqueue` adds to the backlog. -/
theorem step_live {x x' : Sys} {a : Action} {e : Event} (hs : scheduler.step x a = some (x', e))
    (hne : ∀ metadata options, a ≠ .enqueue metadata options) :
    ∀ id, x'.sched.live id = true → x.sched.live id = true := by
  have henqueued : ∀ metadata options outcome, e ≠ .enqueued metadata options outcome := by
    rintro metadata options outcome rfl
    cases step_steps hs with
    | call _ _ hc =>
      cases a with
      | enqueue metadata options => exact hne metadata options rfl
      | setLimits | setClassLimits =>
        simp only [call] at hc
        split at hc <;> cases hc
      | _ => cases hc
    | turn _ _ ht => cases turn_cases ht
  cases step_change hs with
  | stays hst => exact fun id hid => hst.live_eq ▸ hid
  | entered | replaced => exact absurd rfl (henqueued _ _ _)
  | cancelled _ h => exact fun id hid => ((h.live_iff id).1 hid).2
  | cancelledLate _ hst => exact fun id hid => hst.live_eq ▸ hid
  | started h => exact fun id => (Shrinks.of_starts h).live
  | completed h => exact fun id => (Shrinks.of_completes h).live
  | granted hp hm _ _ hg =>
    intro id hid
    rw [← (hp.quiet.toMoves.trans hm).live_eq]
    exact ((hg.live_iff id).1 hid).2

theorem backlog_bounded {capacity : Nat} {τ : List Event} {x : Sys} (hr : Run (fun _ a => a.capped capacity) τ x) :
    x.sched.jobs.size ≤ capacity := by
  refine Machine.Run.induct (I := fun _ x => x.sched.jobs.size ≤ capacity) (fun x hi => ?_)
    (fun τ x a x' e hr h ho hs => ?_) hr
  · obtain ⟨-, limits, classLimits, aging, hok⟩ := hi
    rw [SchedulerState.newWithClassLimits_ok hok]
    exact Nat.zero_le _
  · cases a with
    | enqueue metadata options =>
      have ho : options.queueCapacity = capacity := ho
      have hsize := x.sched.enqueue_size metadata options
      rw [ho, Nat.max_eq_right h] at hsize
      cases step_steps hs with
      | call _ _ hc =>
        simp only [SchedulerState.call] at hc
        split at hc
        · rename_i hq
          rw [hq] at hsize
          split at hc
          · cases hc
            exact hsize
          · cases hc
        · rename_i hq
          rw [hq] at hsize
          cases hc
          exact hsize
    | _ => exact Nat.le_trans (SchedulerState.size_le (step_live hs (by simp))) h

/-- In every run the coalescing map and the pending jobs agree, and a replacement takes
over the slot of the job it replaces; with a constant bound the backlog stays within it. -/
theorem latest_wins {ok : Sys → Action → Prop} {τ : List Event} {x : Sys} (hr : Run ok τ x) :
    (∀ key id, x.sched.coalesce.lookup key = some id ↔
      ∃ job, x.sched.jobs.lookup id = some job ∧ job.coalesceKey = some key) ∧
    (∀ id job key, x.sched.jobs.lookup id = some job → job.coalesceKey = some key →
      key.scope = job.metadata.scope ∧ key.lane = job.metadata.lane ∧ key.cls = job.metadata.cls) ∧
    (∀ metadata options s' new old, x.sched.enqueue metadata options = (s', .ok ⟨new, some old⟩) →
      ∃ oldJob job, x.sched.jobs.lookup old = some oldJob ∧ s'.jobs.lookup new = some job ∧
        s'.jobs.lookup old = none ∧ job.coalesceKey = oldJob.coalesceKey ∧ job.sequence = oldJob.sequence ∧
        job.laneOrder = oldJob.laneOrder ∧
        job.readyAt = if oldJob.notBefore = none ∧ options.notBefore = none then oldJob.readyAt else options.now) ∧
    ∀ capacity, (∀ x a, ok x a → a.capped capacity) → x.sched.jobs.size ≤ capacity := by
  have hs := SchedulerState.slots_run hr
  have hco := coalesced_run hr
  refine ⟨fun key id => ⟨fun hl => ?_, fun ⟨job, hj, hk⟩ => hs.held id job key hj hk⟩, hs.shape,
    fun metadata options s' new old he => ?_, fun capacity hcap => ?_⟩
  · exact Option.map_eq_some_iff.1 (hco key id hl)
  · exact SchedulerState.enqueue_replaces hs hco (SchedulerState.lined_of_run hr) he
  · exact backlog_bounded (Machine.Run.mono hcap hr)

/-- A request of lane 7 is replaced, and replaced once more. -/
theorem latest_wins_twice : ∃ τ x, Run (fun _ a => a.capped 100) τ x ∧ x.sched.jobs.size ≤ 100 ∧
    ∃ job, x.sched.jobs.lookup 2 = some job ∧ job.coalesceKey = some ⟨.global, some 7, 0, 1⟩ := by
  have h : (scheduler.exec (fun _ a => a.capped 100) [] (Sys.fresh []) (List.replicate 3 (.enqueue (.plain 20 (some 7))
      { EnqueueOptions.plain 0 with mode := .replacePending 1 }))).map
        (fun r => r.2.sched.coalesce.lookup ⟨.global, some 7, 0, 1⟩) = some (some 2) := by decide
  obtain ⟨⟨τ, x⟩, he, hx⟩ := Option.map_eq_some_iff.1 h
  have hr := run_of_actions (Sys.fresh_init rfl) he
  have hw := latest_wins hr
  exact ⟨τ, x, hr, hw.2.2.2 100 fun _ _ h => h, (hw.1 _ 2).1 hx⟩

end Teloxide.Outbound
