import Teloxide.Outbound.Scheduler.Effect

/-!
# The counters of dead entries

A job that is cancelled or replaced leaves its entries behind, and the counters of
them are decremented with plain subtractions when the entries surface. `Tidy` says
that the counter of every lane is right, and that a candidate entry of a job carries
the sequence number of the job.

`Keeps s s'` is said of the calls that leave the delayed heap alone: they keep the
state tidy and fail no check, but for the product in `schedule_aging`, which fits
unless the quantum is `Overlong`.
-/
namespace Teloxide.Outbound

open Teloxide.Core

theorem Job.sequence_of_core {j j' : Job} (h : j.core = j'.core) : j.sequence = j'.sequence := by
  have hs := congrArg Job.sequence h
  exact hs

theorem Job.notBefore_of_core {j j' : Job} (h : j.core = j'.core) : j.notBefore = j'.notBefore := by
  have hn := congrArg Job.notBefore h
  exact hn

/-- The product of a priority and the quantum need not fit a `u64`. -/
def AgingPolicy.Overlong (aging : AgingPolicy) : Prop := u64Size ≤ HIGHEST * (max aging.quantum 1 % u64Size)

namespace LaneState

/-- How many of the pending entries are of jobs that are gone. -/
def dead (live : JobId → Bool) (l : LaneState) : Nat := l.pending.entries.countP (!live ·.job)

/-- The counter of the lane is right. -/
def Tidy (live : JobId → Bool) (l : LaneState) : Prop := l.stale = l.dead live

theorem dead_drainDead (live : JobId → Bool) (l : LaneState) :
    (l.pending.entries.takeWhile (!live ·.job)).length + (l.drainDead live).dead live = l.dead live := by
  have h := congrArg (List.countP (!live ·.job))
    (List.takeWhile_append_dropWhile (p := (!live ·.job)) (l := l.pending.entries))
  rw [List.countP_append] at h
  have hall : (l.pending.entries.takeWhile (!live ·.job)).countP (!live ·.job) =
      (l.pending.entries.takeWhile (!live ·.job)).length :=
    List.countP_eq_length.2 fun e he => List.mem_takeWhile_imp (p := fun e : LaneEntry => !live e.job) he
  rw [hall] at h
  exact h

theorem Tidy.drainFits {live : JobId → Bool} {l : LaneState} (h : l.Tidy live) : l.drainFits live = true := by
  have := l.dead_drainDead live
  unfold Tidy at h
  simp only [LaneState.drainFits, decide_eq_true_eq]
  omega

theorem Tidy.drainDead {live : JobId → Bool} {l : LaneState} (h : l.Tidy live) : (l.drainDead live).Tidy live := by
  have hd := l.dead_drainDead live
  have hs : (l.drainDead live).stale = l.stale - (l.pending.entries.takeWhile (!live ·.job)).length := rfl
  unfold Tidy at h ⊢
  omega

end LaneState

namespace SchedulerState

/-- The counters of the lanes are right, and so are the keys of the jobs. -/
structure Tidy (s : SchedulerState) : Prop where
  lanes : ∀ lane l, s.lanes.lookup lane = some l → l.Tidy s.live
  keyed : ∀ k ∈ s.candidates, ∀ id, k.reference = .job id → ∀ job, s.jobs.lookup id = some job →
    k.sequence = job.sequence

/-- A call that leaves the delayed heap alone, the state tidy, and the flag down. -/
structure Keeps (s s' : SchedulerState) : Prop where
  aging : s'.aging = s.aging
  delayed : s'.delayed = s.delayed
  staleDelayed : s'.staleDelayed = s.staleDelayed
  tidy : s.Tidy → s'.Tidy
  flag : s.Tidy → s'.panicked = true → s.panicked = true ∨ s.aging.Overlong

namespace Keeps

variable {s s' s'' : SchedulerState}

theorem refl (s : SchedulerState) : Keeps s s := ⟨rfl, rfl, rfl, id, fun _ h => .inl h⟩

theorem trans (h : Keeps s s') (h' : Keeps s' s'') : Keeps s s'' where
  aging := h'.aging.trans h.aging
  delayed := h'.delayed.trans h.delayed
  staleDelayed := h'.staleDelayed.trans h.staleDelayed
  tidy ht := h'.tidy (h.tidy ht)
  flag ht hp := by
    rcases h'.flag (h.tidy ht) hp with hp | ho
    · exact h.flag ht hp
    · exact .inr (h.aging ▸ ho)

/-- What a move of references has to do for it. -/
theorem of_moves (hm : Moves s s') (hd : s'.delayed = s.delayed) (hs : s'.staleDelayed = s.staleDelayed)
    (hl : ∀ lane l', s'.lanes.lookup lane = some l' →
      ∃ l, s.lanes.lookup lane = some l ∧ (l.Tidy s.live → l'.Tidy s.live))
    (hc : ∀ k ∈ s'.candidates, k ∈ s.candidates ∨
      ∀ id, k.reference = .job id → ∀ job, s.jobs.lookup id = some job → k.sequence = job.sequence)
    (hp : s.Tidy → s'.panicked = true → s.panicked = true ∨ s.aging.Overlong) : Keeps s s' where
  aging := hm.aging
  delayed := hd
  staleDelayed := hs
  tidy ht := by
    refine ⟨fun lane l' hl' => ?_, fun k hk id hr job' hj' => ?_⟩
    · obtain ⟨l, hlk, hkeep⟩ := hl lane l' hl'
      rw [hm.live_eq]
      exact hkeep (ht.lanes lane l hlk)
    · obtain ⟨job, hj, hcore⟩ := hm.job hj'
      rw [Job.sequence_of_core hcore]
      rcases hc k hk with hk | hk
      · exact ht.keyed k hk id hr job hj
      · exact hk id hr job hj
  flag := hp

/-- The lanes and the flag stay. -/
theorem of_same (hm : Moves s s') (hd : s'.delayed = s.delayed) (hs : s'.staleDelayed = s.staleDelayed)
    (hl : s'.lanes = s.lanes) (hc : ∀ k ∈ s'.candidates, k ∈ s.candidates) (hp : s'.panicked = s.panicked) :
    Keeps s s' :=
  .of_moves hm hd hs (fun _ l' h => ⟨l', hl ▸ h, id⟩) (fun k hk => .inl (hc k hk)) fun _ h => .inl (hp ▸ h)

theorem of_eq (hm : Quiet s s') (hd : s'.delayed = s.delayed) (hs : s'.staleDelayed = s.staleDelayed)
    (hl : s'.lanes = s.lanes) (hc : ∀ k ∈ s'.candidates, k ∈ s.candidates) (hp : s'.panicked = s.panicked) :
    Keeps s s' := .of_same hm.toMoves hd hs hl hc hp

/-- One lane is stored anew. -/
theorem of_lane {lane : OutboundLaneKey} {l l' : LaneState} (hm : Quiet s s') (hd : s'.delayed = s.delayed)
    (hs : s'.staleDelayed = s.staleDelayed) (hl : s.lanes.lookup lane = some l)
    (hi : s'.lanes = s.lanes.insert lane l') (ht : l.Tidy s.live → l'.Tidy s.live)
    (hc : ∀ k ∈ s'.candidates, k ∈ s.candidates ∨ ∀ id, k.reference ≠ .job id)
    (hp : s.Tidy → s'.panicked = true → s.panicked = true) : Keeps s s' := by
  refine .of_moves hm.toMoves hd hs (fun a l'' h => ?_) (fun k hk => ?_) fun htidy h => .inl (hp htidy h)
  · rw [hi, Table.lookup_insert_if] at h
    split at h
    · rename_i ha
      subst ha
      exact ⟨l, hl, Option.some.inj h ▸ ht⟩
    · exact ⟨l'', h, id⟩
  · rcases hc k hk with hk | hk
    · exact .inl hk
    · exact .inr fun id hr => absurd hr (hk id)

/-- One lane is dropped. -/
theorem of_erase {lane : OutboundLaneKey} (hm : Quiet s s') (hd : s'.delayed = s.delayed)
    (hs : s'.staleDelayed = s.staleDelayed) (hi : s'.lanes = s.lanes.erase lane)
    (hc : s'.candidates = s.candidates) (hp : s.Tidy → s'.panicked = true → s.panicked = true) : Keeps s s' := by
  refine .of_moves hm.toMoves hd hs (fun a l h => ?_) (fun k hk => .inl (hc ▸ hk)) fun htidy h => .inl (hp htidy h)
  rw [hi, Table.lookup_erase_if] at h
  split at h
  · cases h
  · exact ⟨l, h, id⟩

/-- Steps over a list. -/
theorem foldl {α : Type} {f : SchedulerState → α → SchedulerState} (hf : ∀ s a, Keeps s (f s a)) :
    ∀ (l : List α) (s : SchedulerState), Keeps s (l.foldl f s)
  | [], s => .refl s
  | a :: l, s => (hf s a).trans (foldl hf l (f s a))

end Keeps

/-! ## Pushing -/

theorem check_flag {s : SchedulerState} {ok : Bool} (hok : ok = true) (hp : (s.check ok).panicked = true) :
    s.panicked = true := by
  simpa [check, hok] using hp

theorem scheduleAging_keeps (s : SchedulerState) (reference : CandidateRef) (keyed base readyAt : Nat) :
    Keeps s (s.scheduleAging reference keyed base readyAt) := by
  have hq := s.scheduleAging_quiet reference keyed base readyAt
  unfold scheduleAging at hq ⊢
  split at hq
  · rename_i hk
    rw [if_pos hk]
    exact .refl s
  · rename_i hk
    split at hq
    · rename_i hb
      rw [if_neg hk, if_pos hb]
      exact .refl s
    · rename_i hb
      rw [if_neg hk, if_neg hb]
      refine .of_moves hq.toMoves rfl rfl (fun _ l h => ⟨l, h, fun h => h⟩) (fun k hk => .inl hk) fun _ hp => ?_
      simp only [check, Bool.or_eq_true, Bool.not_eq_true', decide_eq_false_iff_not, Nat.not_lt] at hp
      refine hp.imp_right fun hp => Nat.le_trans hp (Nat.mul_le_mul_right _ ?_)
      omega

theorem pushJobCandidate_keeps (s : SchedulerState) (id : JobId) (now : Nat) : Keeps s (s.pushJobCandidate id now) := by
  unfold pushJobCandidate
  split
  · exact .refl s
  · rename_i job hj
    refine .trans ?_ (scheduleAging_keeps _ _ _ _ _)
    have hq : Quiet s { s with
        jobs := s.jobs.insert id { job with inCandidateHeap := true, candidateEffective := effectivePriority job s.aging now }
        candidates := s.candidates.push ⟨effectivePriority job s.aging now, job.sequence, .job id⟩ } :=
      .of_job hj rfl rfl rfl rfl rfl
    refine .of_moves hq.toMoves rfl rfl (fun _ l h => ⟨l, h, fun h => h⟩) (fun k hk => ?_) fun _ hp => .inl hp
    rcases Heap.mem_push.1 hk with rfl | hk
    · refine .inr fun a ha job' hj' => ?_
      cases ha
      rw [hj] at hj'
      cases hj'
      rfl
    · exact .inl hk

theorem pushLaneHeadCandidate_keeps (s : SchedulerState) (lane : OutboundLaneKey) (now : Nat) :
    Keeps s (s.pushLaneHeadCandidate lane now) := by
  have h := s.pushLaneHeadCandidate_cases lane now
  generalize s.pushLaneHeadCandidate lane now = s' at h ⊢
  have hfits {l : LaneState} (hl : s.lanes.lookup lane = some l) (ht : s.Tidy) : l.drainFits s.live = true :=
    (ht.lanes lane l hl).drainFits
  cases h with
  | absent | full | asleep => exact .refl s
  | dropped hl hc _ hf =>
    exact .of_erase (.of_erase hl rfl (.dropped (LaneState.firstLive_none.1 hf) (Or.inl hc)) rfl rfl rfl) rfl rfl rfl rfl fun ht hp => check_flag (hfits hl ht) hp
  | drained hl =>
    exact .of_lane (.of_lane hl rfl (.drained _) rfl rfl rfl) rfl rfl hl rfl (fun h => h.drainDead) (fun k hk => .inl hk)
      fun ht hp => check_flag (hfits hl ht) hp
  | @pushed l _ job hl =>
    refine .trans ?_ (scheduleAging_keeps _ _ _ _ _)
    refine .of_lane (queueLane_quiet hl job now) rfl rfl hl rfl (fun h => h.drainDead) (fun k hk => ?_)
      fun ht hp => check_flag (hfits hl ht) hp
    rcases Heap.mem_push.1 hk with rfl | hk
    · exact .inr fun id hr => by cases hr
    · exact .inl hk

theorem pushReference_keeps (s : SchedulerState) (reference : CandidateRef) (now : Nat) :
    Keeps s (s.pushReference reference now) := by
  cases reference with
  | job id => exact s.pushJobCandidate_keeps id now
  | lane key => exact s.pushLaneHeadCandidate_keeps key now

theorem pushCandidate_keeps (s : SchedulerState) (c : Candidate) (now : Nat) : Keeps s (s.pushCandidate c now) := by
  unfold pushCandidate
  split
  · exact .refl s
  · split
    · exact s.pushLaneHeadCandidate_keeps _ now
    · exact s.pushJobCandidate_keeps _ now

/-- One job is modified in its marks. -/
theorem modify_keeps {s s' : SchedulerState} {id : JobId} {f : Job → Job} (hj : s'.jobs = s.jobs.modify id f)
    (hc : ∀ j, (f j).core = j.core) (hl : s'.lanes = s.lanes) (hf : s'.fixed = s.fixed) (hb : s'.budgets = s.budgets)
    (hd : s'.delayed = s.delayed) (hs : s'.staleDelayed = s.staleDelayed) (hk : s'.candidates = s.candidates)
    (hp : s'.panicked = s.panicked) : Keeps s s' :=
  .of_eq (.of_modify hj hc hl hf hb) hd hs hl (fun _ h => hk ▸ h) hp

theorem wakeParked_keeps (s : SchedulerState) (window : WindowRef) (now : Nat) (reference : CandidateRef) :
    Keeps s (s.wakeParked window now reference) := by
  unfold wakeParked
  split
  · refine .trans ?_ (pushReference_keeps _ _ _)
    refine modify_keeps rfl (fun j => ?_) rfl rfl rfl rfl rfl rfl rfl
    split <;> rfl
  · exact s.pushReference_keeps _ now

theorem releaseReservation_keeps (s : SchedulerState) (window : WindowRef) (owner : CandidateRef) (now : Nat) :
    Keeps s (s.releaseReservation window owner now) := by
  unfold releaseReservation
  split
  · exact .refl s
  · split
    · refine .trans ?_ (Keeps.foldl (fun s r => s.wakeParked_keeps window now r) _ _)
      exact .of_eq (.of_eq rfl rfl rfl rfl) rfl rfl rfl (fun _ h => h) rfl
    · exact .refl s

/-! ## Compaction -/

theorem compactCandidateHeapIfNeeded_keeps (s : SchedulerState) : Keeps s s.compactCandidateHeapIfNeeded := by
  unfold compactCandidateHeapIfNeeded
  split
  · exact .refl s
  · exact .of_eq (.of_eq rfl rfl rfl rfl) rfl rfl rfl (fun _ h => (Heap.mem_filter.1 h).1) rfl

theorem compactBlockedIfNeeded_keeps (s : SchedulerState) : Keeps s s.compactBlockedIfNeeded := by
  unfold compactBlockedIfNeeded
  split
  · exact .refl s
  · exact .of_eq (.of_eq rfl rfl rfl rfl) rfl rfl rfl (fun _ h => h) rfl

theorem compactReservationsIfNeeded_keeps (s : SchedulerState) : Keeps s s.compactReservationsIfNeeded :=
  .of_eq (.of_eq rfl rfl rfl rfl) rfl rfl rfl (fun _ h => h) rfl

theorem compactLanesIfNeeded_keeps (s : SchedulerState) : Keeps s s.compactLanesIfNeeded := by
  refine .of_moves s.compactLanesIfNeeded_quiet.toMoves rfl rfl (fun lane l' hl' => ?_) (fun k hk => .inl hk)
    fun _ hp => .inl hp
  simp only [compactLanesIfNeeded, Table.lookup_mapValues, Option.map_eq_some_iff] at hl'
  obtain ⟨l, hl, rfl⟩ := hl'
  refine ⟨l, hl, fun ht => ?_⟩
  split
  · -- nothing dead is left
    have hnone : (l.pending.entries.filter (s.live ·.job)).countP (!s.live ·.job) = 0 :=
      List.countP_eq_zero.2 fun e he => by simpa using (List.mem_filter.1 he).2
    exact hnone.symm
  · exact ht

/-! ## Promotions -/

theorem fireAging_keeps (s : SchedulerState) (reference : CandidateRef) (now : Nat) :
    Keeps s (s.fireAging reference now) := by
  unfold fireAging
  split
  · split
    · exact .refl s
    · rename_i job hj
      dsimp only
      split
      · exact .refl s
      · refine .trans ?_ (scheduleAging_keeps _ _ _ _ _)
        refine .of_moves (Quiet.toMoves (.of_job hj rfl rfl rfl rfl rfl)) rfl rfl (fun _ l h => ⟨l, h, fun h => h⟩) (fun k hk => ?_)
          fun _ hp => .inl hp
        rcases Heap.mem_push.1 hk with rfl | hk
        · refine .inr fun a ha job' hj' => ?_
          cases ha
          rw [hj] at hj'
          cases hj'
          rfl
        · exact .inl hk
  · split
    · exact .refl s
    · rename_i l hl
      split
      · exact .refl s
      · split
        · exact .refl s
        · dsimp only
          split
          · exact scheduleAging_keeps _ _ _ _ _
          · refine .trans ?_ (scheduleAging_keeps _ _ _ _ _)
            refine .of_lane (.of_lane hl rfl (.kept rfl rfl rfl rfl (.refl _) fun _ h _ => h) rfl rfl rfl)
              rfl rfl hl rfl (fun h => h) (fun k hk => ?_) fun _ hp => hp
            rcases Heap.mem_push.1 hk with rfl | hk
            · exact .inr fun id hr => by cases hr
            · exact .inl hk

theorem promoteAging_keeps {now : Nat} :
    ∀ {fuel : Nat} {s s' : SchedulerState}, promoteAging now fuel s = some s' → Keeps s s'
  | 0, s, s', h => by cases h
  | fuel + 1, s, s', h => by
    unfold promoteAging at h
    split at h
    · cases h
      exact .refl s
    · split at h
      · cases h
        exact .refl s
      · have hk : Keeps s { s with agingEvents := s.agingEvents.pop } :=
          .of_eq (.of_eq rfl rfl rfl rfl) rfl rfl rfl (fun _ h => h) rfl
        exact (hk.trans (fireAging_keeps _ _ _)).trans (promoteAging_keeps h)

theorem wakeBlocked_keeps (s : SchedulerState) (node : BlockedJob) (now : Nat) : Keeps s (s.wakeBlocked node now) := by
  have hdrop (s : SchedulerState) : Keeps s s.dropStaleBlocked :=
    .of_eq (.of_eq rfl rfl rfl rfl) rfl rfl rfl (fun _ h => h) rfl
  unfold wakeBlocked
  split
  · split
    · exact hdrop s
    · rename_i job hj
      split
      · exact .refl s
      · split
        · exact hdrop s
        · refine .trans ?_ (pushJobCandidate_keeps _ _ _)
          exact .of_eq (.of_job hj rfl rfl rfl rfl rfl) rfl rfl rfl (fun _ h => h) rfl
  · split
    · exact hdrop s
    · rename_i lane _ _ l hl
      split
      · exact hdrop s
      · split
        · exact hdrop s
        · have hk : Keeps s { s with lanes := s.lanes.insert lane { l with inBlockedHeap := false } } :=
            .of_lane (.of_lane hl rfl (.kept rfl rfl rfl rfl (.refl _) fun _ h _ => h) rfl rfl rfl)
              rfl rfl hl rfl (fun h => h) (fun k hk => .inl hk) fun _ hp => hp
          dsimp only
          split
          · exact hk.trans (hdrop _)
          · exact hk.trans (pushLaneHeadCandidate_keeps _ _ _)

theorem promoteBlockedLoop_keeps {now : Nat} :
    ∀ (n : Nat) (s : SchedulerState), Keeps s (promoteBlockedLoop now n s)
  | 0, s => .refl s
  | n + 1, s => by
    unfold promoteBlockedLoop
    split
    · exact .refl s
    · split
      · exact .refl s
      · have hk : Keeps s { s with blocked := s.blocked.pop } :=
          .of_eq (.of_eq rfl rfl rfl rfl) rfl rfl rfl (fun _ h => h) rfl
        exact (hk.trans (wakeBlocked_keeps _ _ _)).trans (promoteBlockedLoop_keeps n _)

theorem promoteReservation_keeps (s : SchedulerState) (window : WindowRef) (now : Nat) :
    Keeps s (s.promoteReservation window now) := by
  have hunpark (reference : CandidateRef) (rest : Reservation) : Keeps s (s.unpark window reference rest) := by
    cases reference with
    | job => exact modify_keeps rfl (fun _ => rfl) rfl rfl rfl rfl rfl rfl rfl
    | lane => exact .of_eq (.of_eq rfl rfl rfl rfl) rfl rfl rfl (fun _ h => h) rfl
  unfold promoteReservation
  split
  · exact .refl s
  · dsimp only
    split
    · exact .of_eq (.of_eq rfl rfl rfl rfl) rfl rfl rfl (fun _ h => h) rfl
    · exact (hunpark _ _).trans (pushReference_keeps _ _ _)

theorem promoteReservations_keeps (s : SchedulerState) (order : List WindowRef) (now : Nat) :
    Keeps s (s.promoteReservations order now) :=
  Keeps.foldl (fun s window => s.promoteReservation_keeps window now) order s

/-! ## The pop -/

theorem dropLaneIfIdle_keeps (s : SchedulerState) (lane : OutboundLaneKey) : Keeps s (s.dropLaneIfIdle lane) := by
  have hq := s.dropLaneIfIdle_quiet lane
  unfold dropLaneIfIdle at hq ⊢
  split at hq
  · rename_i hi
    rw [if_pos hi]
    exact .of_erase hq rfl rfl rfl rfl fun _ hp => hp
  · rename_i hi
    rw [if_neg hi]
    exact .refl s

theorem popJob_keeps (s : SchedulerState) (key : CandidateKey) (id : JobId) : Keeps s (s.popJob key id).sched := by
  have hcount : Keeps s s.countStale := .of_eq (.of_eq rfl rfl rfl rfl) rfl rfl rfl (fun _ h => h) rfl
  unfold popJob
  split
  · exact hcount
  · rename_i job hj
    split
    · exact hcount
    · exact .of_eq (.of_job hj rfl rfl rfl rfl rfl) rfl rfl rfl (fun _ h => h) rfl

theorem popLane_keeps (s : SchedulerState) (key : CandidateKey) (lane : OutboundLaneKey) (now : Nat) :
    Keeps s (s.popLane key lane now).sched := by
  have hcount : Keeps s s.countStale := .of_eq (.of_eq rfl rfl rfl rfl) rfl rfl rfl (fun _ h => h) rfl
  unfold popLane
  split
  · exact hcount
  · rename_i l hl
    split
    · exact hcount
    · split
      · exact .of_lane (.of_lane hl rfl (.kept rfl rfl rfl rfl (.refl _) fun _ h _ => h) rfl rfl rfl)
          rfl rfl hl rfl (fun h => h) (fun k hk => .inl hk) fun _ hp => hp
      · have hm : LaneMoved s.live (some l) (some { l.drainDead s.live with inCandidateHeap := false }) :=
          (LaneMoved.drained l).trans (.kept rfl rfl rfl rfl (.refl _) fun _ h _ => h)
        have hq : Quiet s { s.check (l.drainFits s.live) with
            lanes := s.lanes.insert lane { l.drainDead s.live with inCandidateHeap := false } } :=
          .of_lane hl rfl hm rfl rfl rfl
        have hk : Keeps s { s.check (l.drainFits s.live) with
            lanes := s.lanes.insert lane { l.drainDead s.live with inCandidateHeap := false } } :=
          .of_lane hq rfl rfl hl rfl (fun h => h.drainDead) (fun k hk => .inl hk)
            fun ht hp => check_flag (ht.lanes lane l hl).drainFits hp
        dsimp only
        split
        · exact hk.trans (dropLaneIfIdle_keeps _ _)
        · split
          · exact hk.trans (dropLaneIfIdle_keeps _ _)
          · split
            · exact hk.trans (pushLaneHeadCandidate_keeps _ _ _)
            · exact hk

theorem popTurn_keeps {s : SchedulerState} {now : Nat} {t : Turn} (h : s.popTurn now = some t) : Keeps s t.sched := by
  unfold popTurn at h
  split at h
  · cases h
  · have hk : Keeps s { s with candidates := s.candidates.pop } :=
      .of_eq (.of_eq rfl rfl rfl rfl) rfl rfl rfl (fun _ h => Heap.mem_of_mem_pop h) rfl
    dsimp only at h
    split at h
    · cases h
      exact hk.trans (popJob_keeps _ _ _)
    · cases h
      exact hk.trans (popLane_keeps _ _ _ _)

/-! ## Admission -/

theorem storeSet_keeps (s : SchedulerState) (window : WindowRef) (set : WindowSet) :
    Keeps s (s.storeSet window set) := by
  have hm := s.storeSet_moves window set
  cases window <;> exact .of_same hm rfl rfl rfl (fun _ h => h) rfl

theorem checkWindow_keeps (s : SchedulerState) (now weight : Nat) (window : WindowRef) (v : Verdict) :
    Keeps s (s.checkWindow now weight window v).1 := by
  unfold checkWindow
  dsimp only
  split
  · exact .refl s
  · split <;> exact storeSet_keeps _ _ _

theorem checkWindows_keeps (now weight : Nat) :
    ∀ (windows : List WindowRef) (s : SchedulerState) (v : Verdict), Keeps s (checkWindows now weight windows s v).1
  | [], s, _ => .refl s
  | window :: windows, s, v => by
    have hw := s.checkWindow_keeps now weight window v
    unfold checkWindows
    split
    · rename_i h
      rw [h] at hw
      exact hw
    · rename_i h
      rw [h] at hw
      exact hw.trans (checkWindows_keeps now weight windows _ _)

/-- A check that holds. -/
theorem check_keeps {s : SchedulerState} {ok : Bool} (hok : ok = true) : Keeps s (s.check ok) :=
  .of_eq (.of_eq rfl rfl rfl rfl) rfl rfl rfl (fun _ h => h) (by simp [check, hok])

theorem admission_keeps {s : SchedulerState} {c : Candidate} (hc : s.live c.job = true) (now : Nat) :
    Keeps s (s.admission c now).1 := by
  unfold admission
  split
  · exact .refl s
  · have hw := (check_keeps hc).trans
      (checkWindows_keeps now c.weight.val (s.applicableWindows c) (s.check (s.live c.job)) ⟨now, none⟩)
    split
    · rename_i h
      rw [h] at hw
      exact hw
    · rename_i h
      rw [h] at hw
      split <;> exact hw

/-! ## Blocked and parked candidates -/

theorem releasePreviousReservationIfChanged_keeps (s : SchedulerState) (c : Candidate) (next : Option WindowRef)
    (now : Nat) : Keeps s (s.releasePreviousReservationIfChanged c next now) := by
  unfold releasePreviousReservationIfChanged
  split
  · exact .refl s
  · split
    · exact .refl s
    · rename_i previous _ _
      refine (s.releaseReservation_keeps previous (s.referenceOf c) now).trans ?_
      refine modify_keeps rfl (fun j => ?_) rfl rfl rfl rfl rfl rfl rfl
      split <;> rfl

theorem reserveWindow_keeps (s : SchedulerState) (c : Candidate) (window : WindowRef) (deadline : Nat) :
    Keeps s (s.reserveWindow c window deadline) := by
  unfold reserveWindow
  dsimp only
  split
  · exact modify_keeps rfl (fun _ => rfl) rfl rfl rfl rfl rfl rfl rfl
  · exact .of_eq (.of_eq rfl rfl rfl rfl) rfl rfl rfl (fun _ h => h) rfl

/-- The lane of the candidate is there. -/
def Housed (s : SchedulerState) (id : JobId) : Prop :=
  ∀ job lane, s.jobs.lookup id = some job → job.metadata.lane = some lane → ∃ l, s.lanes.lookup lane = some l

theorem blockCandidate_keeps {s : SchedulerState} {c : Candidate} (hc : s.Housed c.job) (deadline : Nat)
    (permanent : Bool) : Keeps s (s.blockCandidate c deadline permanent) := by
  unfold blockCandidate
  split
  · exact .of_eq (.of_eq rfl rfl rfl rfl) rfl rfl rfl (fun _ h => h) rfl
  · rename_i job hj
    split
    · exact .of_eq (.of_job hj rfl rfl rfl rfl rfl) rfl rfl rfl (fun _ h => h) rfl
    · rename_i lane hlane
      obtain ⟨l, hl⟩ := hc job lane hj hlane
      rw [hl]
      exact .of_lane (.of_lane hl rfl (.kept rfl rfl rfl rfl (.refl _) fun _ h _ => h) rfl rfl rfl) rfl rfl hl rfl
        (fun h => h) (fun k hk => .inl hk) fun _ hp => hp

/-- A `Reserved` verdict is followed by an active window. -/
theorem reserved_window {s s' : SchedulerState} {c : Candidate} {now : Nat}
    (h : s.admission c now = (s', .reserved)) : s' = s ∧ ∃ window, s.reservationWindow c now = some window ∧
      s.reservationActive window now = true := by
  unfold admission at h
  split at h
  · rename_i hany
    cases h
    obtain ⟨window, hw, hheld⟩ := List.any_eq_true.1 hany
    have hactive : s.reservationActive window now = true := (Bool.and_eq_true_iff.1 hheld).1
    have hsome : (s.reservationWindow c now).isSome = true := by
      simp only [reservationWindow, List.find?_isSome]
      exact ⟨window, hw, hactive⟩
    obtain ⟨found, hf⟩ := Option.isSome_iff_exists.1 hsome
    exact ⟨rfl, found, hf, List.find?_some (p := (s.reservationActive · now)) hf⟩
  · split at h
    · cases h
    · split at h <;> cases h

theorem park_keeps {s : SchedulerState} {c : Candidate} {now : Nat} {window : WindowRef}
    (h : s.reservationWindow c now = some window) : Keeps s (s.park c now) := by
  unfold park
  rw [h]
  dsimp only
  cases hr : s.reservations.lookup window with
  | none => exact s.pushCandidate_keeps c now
  | some r =>
    dsimp only
    split
    · exact modify_keeps rfl (fun _ => rfl) rfl rfl rfl rfl rfl rfl rfl
    · exact .of_eq (.of_eq rfl rfl rfl rfl) rfl rfl rfl (fun _ h => h) rfl

theorem rearmReservations_keeps (s : SchedulerState) (c : Candidate) (now : Nat) :
    Keeps s (s.rearmReservations c now) := by
  refine Keeps.foldl (fun s window => ?_) _ s
  unfold rearmReservation
  split
  · exact .refl s
  · split
    · exact .refl s
    · exact .of_eq (.of_eq rfl rfl rfl rfl) rfl rfl rfl (fun _ h => h) rfl

/-- What is done to a candidate that is held. -/
theorem settle_keeps {s s₁ : SchedulerState} {c : Candidate} {now : Nat} {verdict : Admission}
    (ha : s₁.admission c now = (s, verdict)) (hne : verdict ≠ .pass)
    (hc : ∀ s', Moves s s' → s'.Housed c.job) : Keeps s (s.settle c now verdict) := by
  cases verdict with
  | pass => exact absurd rfl hne
  | blocked deadline reserve =>
    have h₁ := s.releasePreviousReservationIfChanged_keeps c reserve now
    have m₁ := (s.releasePreviousReservationIfChanged_quiet c reserve now).toMoves
    cases reserve with
    | none => exact h₁.trans (blockCandidate_keeps (hc _ m₁) _ _)
    | some window =>
      have m₂ := m₁.trans (reserveWindow_quiet _ c window deadline).toMoves
      exact (h₁.trans (reserveWindow_keeps _ c window deadline)).trans (blockCandidate_keeps (hc _ m₂) _ _)
  | blockedForever =>
    have m₁ := (s.releasePreviousReservationIfChanged_quiet c none now).toMoves
    exact (s.releasePreviousReservationIfChanged_keeps c none now).trans (blockCandidate_keeps (hc _ m₁) _ _)
  | reserved =>
    obtain ⟨rfl, window, hw, -⟩ := reserved_window ha
    exact park_keeps hw

/-! ## Re-arming -/

theorem rearmReservationOwner_keeps (now : Nat) (s : SchedulerState) (window : WindowRef) :
    Keeps s (rearmReservationOwner now s window) := by
  unfold rearmReservationOwner
  split
  · exact .refl s
  · split
    · exact .refl s
    · rename_i job hj
      split
      · refine .trans ?_ (pushJobCandidate_keeps _ _ _)
        exact .of_eq (.of_job hj rfl rfl rfl rfl rfl) rfl rfl rfl (fun _ h => h) rfl
      · exact .refl s
  · split
    · exact .refl s
    · rename_i l hl
      split
      · refine .trans ?_ (pushLaneHeadCandidate_keeps _ _ _)
        exact .of_lane (.of_lane hl rfl (.kept rfl rfl rfl rfl (.refl _) fun _ h _ => h) rfl rfl rfl) rfl rfl hl rfl
          (fun h => h) (fun k hk => .inl hk) fun _ hp => hp
      · exact .refl s

/-- A lane modified in its marks. -/
theorem modifyLane_keeps (s : SchedulerState) (lane : OutboundLaneKey) {f : LaneState → LaneState}
    (hm : ∀ l : LaneState, LaneMoved s.live (some l) (some (f l))) (ht : ∀ l : LaneState, l.Tidy s.live → (f l).Tidy s.live) :
    Keeps s { s with lanes := s.lanes.modify lane f } := by
  have hmoves : Moves s { s with lanes := s.lanes.modify lane f } := by
    refine ⟨rfl, fun _ => rfl, fun a => ?_⟩
    simp only [Table.lookup_modify]
    split
    · rename_i ha
      subst ha
      cases s.lanes.lookup a with
      | none => exact .absent
      | some l => exact hm l
    · exact .refl _
  refine .of_moves hmoves rfl rfl (fun a l' hl' => ?_) (fun k hk => .inl hk) fun _ hp => .inl hp
  simp only [Table.lookup_modify] at hl'
  split at hl'
  · rename_i ha
    subst ha
    obtain ⟨l, hl, rfl⟩ := Option.map_eq_some_iff.1 hl'
    exact ⟨l, hl, ht l⟩
  · exact ⟨l', hl', fun h => h⟩

theorem rearmReference_keeps (now : Nat) (s : SchedulerState) (reference : CandidateRef) :
    Keeps s (rearmReference now s reference) := by
  unfold rearmReference
  split
  · split
    · exact .refl s
    · rename_i job hj
      refine .trans ?_ (pushJobCandidate_keeps _ _ _)
      exact .of_eq (.of_job hj rfl rfl rfl rfl rfl) rfl rfl rfl (fun _ h => h) rfl
  · refine .trans ?_ (pushLaneHeadCandidate_keeps _ _ _)
    exact modifyLane_keeps s _ (fun _ => .kept rfl rfl rfl rfl (.refl _) fun _ h _ => h) fun _ h => h

theorem rearmBlockedAndParked_keeps (s : SchedulerState) (order : List CandidateRef) (now : Nat) :
    Keeps s (s.rearmBlockedAndParked order now) := by
  refine .trans ?_ (Keeps.foldl (fun s r => rearmReference_keeps now s r) order _)
  exact .of_eq (.of_eq rfl rfl rfl rfl) rfl rfl rfl (fun _ h => h) rfl

theorem dropHeadKey_keeps (s : SchedulerState) (lane : OutboundLaneKey) (superseded : Option JobId) :
    Keeps s (s.dropHeadKey lane superseded) := by
  unfold dropHeadKey
  dsimp only
  split
  · exact modifyLane_keeps s _ (fun _ => .kept rfl rfl rfl rfl (.refl _) fun _ h _ => h) fun _ h => h
  · exact .refl s

end SchedulerState

end Teloxide.Outbound
