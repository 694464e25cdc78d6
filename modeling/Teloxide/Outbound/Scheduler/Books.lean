import Teloxide.Outbound.Scheduler.Counters
import Teloxide.Outbound.Scheduler.LaneOrder

/-!
# The books of the scheduler

`Timed` is the delayed heap: every delayed job has one node, under its own time and
sequence number, and `stale_delayed` counts the nodes of jobs that are gone. With
`Tidy` that is what the counters stand for: `Books`.

`Sound s s'` is said of a call: it keeps the books, and while they are right none of its
checks fails, but for the product in `schedule_aging`.

* `removeWaiting_sound`, `enqueue_sound`, `grant_sound`: the calls that add a job or
  take one away.
-/
namespace Teloxide.Outbound

open Teloxide.Core

namespace SchedulerState

/-- The delayed heap and its counter. -/
structure Timed (s : SchedulerState) : Prop where
  once : (s.delayed.entries.map (·.job)).Nodup
  issued : ∀ d ∈ s.delayed, d.job < s.nextJobId
  node : ∀ d ∈ s.delayed, ∀ job, s.jobs.lookup d.job = some job →
    job.notBefore = some d.notBefore ∧ job.sequence = d.sequence
  noded : ∀ id job t, s.jobs.lookup id = some job → job.notBefore = some t → ∃ d ∈ s.delayed, d.job = id
  count : s.staleDelayed = s.delayed.entries.countP (!s.live ·.job)

structure Books (s : SchedulerState) : Prop where
  tidy : s.Tidy
  timed : s.Timed

/-- A call that keeps the books and, while they are right, fails no check but that of the
aging product. -/
structure Sound (s s' : SchedulerState) : Prop where
  aging : s'.aging = s.aging
  books : s.Books → s'.Books
  flag : s.Books → s'.panicked = true → s.panicked = true ∨ s.aging.Overlong

theorem Timed.of_moves {s s' : SchedulerState} (h : s.Timed) (hm : Moves s s') (hd : s'.delayed = s.delayed)
    (hs : s'.staleDelayed = s.staleDelayed) : s'.Timed where
  once := by rw [hd]; exact h.once
  issued d hm' := by
    rw [hd] at hm'
    rw [hm.nextJobId]
    exact h.issued d hm'
  node d hm' job' hj' := by
    rw [hd] at hm'
    obtain ⟨job, hj, hcore⟩ := hm.job hj'
    rw [Job.notBefore_of_core hcore, Job.sequence_of_core hcore]
    exact h.node d hm' job hj
  noded id job' t hj' ht := by
    obtain ⟨job, hj, hcore⟩ := hm.job hj'
    rw [hd]
    exact h.noded id job t hj (Job.notBefore_of_core hcore ▸ ht)
  count := by rw [hd, hs, hm.live_eq]; exact h.count

/-- Only the jobs and the heap count. -/
theorem Timed.of_eq {s s' : SchedulerState} (h : s.Timed) (hj : s'.jobs = s.jobs) (hd : s'.delayed = s.delayed)
    (hs : s'.staleDelayed = s.staleDelayed) (hn : s'.nextJobId = s.nextJobId) : s'.Timed where
  once := by rw [hd]; exact h.once
  issued := by rw [hd, hn]; exact h.issued
  node := by rw [hd, hj]; exact h.node
  noded := by rw [hd, hj]; exact h.noded
  count := by
    have hlive : s'.live = s.live := by funext a; simp only [live, hj]
    rw [hd, hs, hlive]
    exact h.count

namespace Sound

variable {s s' s'' : SchedulerState}

theorem refl (s : SchedulerState) : Sound s s := ⟨rfl, id, fun _ h => .inl h⟩

theorem trans (h : Sound s s') (h' : Sound s' s'') : Sound s s'' where
  aging := h'.aging.trans h.aging
  books hb := h'.books (h.books hb)
  flag hb hp := by
    rcases h'.flag (h.books hb) hp with hp | ho
    · exact h.flag hb hp
    · exact .inr (h.aging ▸ ho)

theorem of_keeps (hm : Moves s s') (hk : Keeps s s') : Sound s s' where
  aging := hk.aging
  books hb := ⟨hk.tidy hb.tidy, hb.timed.of_moves hm hk.delayed hk.staleDelayed⟩
  flag hb := hk.flag hb.tidy

/-- What the books are about stays. -/
theorem of_eq (ha : s'.aging = s.aging) (hj : s'.jobs = s.jobs) (hl : s'.lanes = s.lanes)
    (hc : s'.candidates = s.candidates) (hd : s'.delayed = s.delayed) (hs : s'.staleDelayed = s.staleDelayed)
    (hn : s'.nextJobId = s.nextJobId) (hp : s'.panicked = s.panicked) : Sound s s' where
  aging := ha
  books hb := by
    have hlive : s'.live = s.live := by funext a; simp only [live, hj]
    refine ⟨⟨?_, ?_⟩, hb.timed.of_eq hj hd hs hn⟩
    · rw [hl, hlive]
      exact hb.tidy.lanes
    · rw [hc, hj]
      exact hb.tidy.keyed
  flag _ h := .inl (hp ▸ h)

/-- The permits of one lane change. -/
theorem of_permit {lane : OutboundLaneKey} {l l' : LaneState} (hl : s.lanes.lookup lane = some l)
    (hp : l'.pending = l.pending) (hs : l'.stale = l.stale) : Sound s { s with lanes := s.lanes.insert lane l' } where
  aging := rfl
  books hb := by
    refine ⟨⟨fun a l'' ha => ?_, hb.tidy.keyed⟩, hb.timed.of_eq rfl rfl rfl rfl⟩
    simp only [Table.lookup_insert_if] at ha
    split at ha
    · cases ha
      have ht := hb.tidy.lanes lane l hl
      unfold LaneState.Tidy LaneState.dead at ht ⊢
      rw [hp, hs]
      exact ht
    · exact hb.tidy.lanes a l'' ha
  flag _ h := .inl h

theorem of_eraseLane (s : SchedulerState) (lane : OutboundLaneKey) :
    Sound s { s with lanes := s.lanes.erase lane } where
  aging := rfl
  books hb := by
    refine ⟨⟨fun a l ha => ?_, hb.tidy.keyed⟩, hb.timed.of_eq rfl rfl rfl rfl⟩
    simp only [Table.lookup_erase_if] at ha
    split at ha
    · cases ha
    · exact hb.tidy.lanes a l ha
  flag _ h := .inl h

end Sound

/-! ## Waking delayed jobs -/

/-- Nodes of jobs that are gone are dropped. -/
theorem Timed.of_sublist {s s' : SchedulerState} (h : s.Timed) (hj : s'.jobs = s.jobs)
    (hn : s'.nextJobId = s.nextJobId) (hsub : s'.delayed.entries.Sublist s.delayed.entries)
    (hkeep : ∀ d ∈ s.delayed, s.live d.job = true → d ∈ s'.delayed)
    (hc : s'.staleDelayed = s'.delayed.entries.countP (!s.live ·.job)) : s'.Timed where
  once := h.once.sublist (hsub.map _)
  issued d hd := hn ▸ h.issued d (hsub.mem hd)
  node d hd := by rw [hj]; exact h.node d (hsub.mem hd)
  noded id job t hid ht := by
    rw [hj] at hid
    obtain ⟨d, hd, rfl⟩ := h.noded id job t hid ht
    exact ⟨d, hkeep d hd (live_of hid), rfl⟩
  count := by
    have hlive : s'.live = s.live := by funext a; simp only [live, hj]
    rw [hlive]
    exact hc

/-- The first node is dropped, and its job is no longer delayed. -/
theorem Timed.woken {s s' : SchedulerState} {top : DelayedJob} {rest : List DelayedJob} {job job' : Job} (h : s.Timed)
    (he : s.delayed.entries = top :: rest) (hjob : s.jobs.lookup top.job = some job)
    (hj : s'.jobs = s.jobs.insert top.job job') (hready : job'.notBefore = none) (hd : s'.delayed.entries = rest)
    (hn : s'.nextJobId = s.nextJobId) (hs : s'.staleDelayed = s.staleDelayed) : s'.Timed := by
  have honce := h.once
  rw [he, List.map_cons, List.nodup_cons] at honce
  have hin {d : DelayedJob} (hd : d ∈ rest) : d ∈ s.delayed := by
    rw [Heap.mem_def, he]
    exact List.mem_cons_of_mem _ hd
  have hmem {d : DelayedJob} : d ∈ s'.delayed ↔ d ∈ rest := by rw [Heap.mem_def, hd]
  have hlive : s'.live = s.live := by
    funext a
    simp only [live, Table.contains, hj, Table.lookup_insert_if]
    split
    · rename_i ha
      rw [ha, hjob]
      rfl
    · rfl
  refine ⟨by rw [hd]; exact honce.2, fun d hd => hn ▸ h.issued d (hin (hmem.1 hd)), fun d hd job₁ hj₁ => ?_,
    fun id job₁ t hj₁ ht => ?_, ?_⟩
  · have hne : d.job ≠ top.job := fun he => honce.1 (he ▸ List.mem_map_of_mem (hmem.1 hd))
    rw [hj, Table.lookup_insert_if, if_neg hne] at hj₁
    exact h.node d (hin (hmem.1 hd)) job₁ hj₁
  · rw [hj, Table.lookup_insert_if] at hj₁
    split at hj₁
    · cases hj₁
      rw [hready] at ht
      cases ht
    · rename_i hid
      obtain ⟨d, hd, rfl⟩ := h.noded id job₁ t hj₁ ht
      rw [Heap.mem_def, he] at hd
      rcases List.mem_cons.1 hd with rfl | hd
      · exact absurd rfl hid
      · exact ⟨d, hmem.2 hd, rfl⟩
  · have hcount := h.count
    rw [he, List.countP_cons_of_neg (by simp [live_of hjob])] at hcount
    rw [hs, hd, hlive]
    exact hcount

/-- A job is stored under its own sequence number. -/
theorem Tidy.of_stored {s s' : SchedulerState} {id : JobId} {job job' : Job} (h : s.Tidy)
    (hjob : s.jobs.lookup id = some job) (hj : s'.jobs = s.jobs.insert id job') (hq : job'.sequence = job.sequence)
    (hl : s'.lanes = s.lanes) (hc : s'.candidates = s.candidates) : s'.Tidy := by
  have hlive : s'.live = s.live := by
    funext a
    simp only [live, Table.contains, hj, Table.lookup_insert_if]
    split
    · rename_i ha
      rw [ha, hjob]
      rfl
    · rfl
  refine ⟨fun lane l hlk => ?_, fun k hk a hr job₁ hj₁ => ?_⟩
  · rw [hlive]
    exact h.lanes lane l (hl ▸ hlk)
  · rw [hc] at hk
    rw [hj, Table.lookup_insert_if] at hj₁
    split at hj₁
    · rename_i ha
      cases hj₁
      rw [hq]
      exact h.keyed k hk a hr job (ha ▸ hjob)
    · exact h.keyed k hk a hr job₁ hj₁

/-- The next node of the delayed heap is popped, and its job is woken. -/
theorem wake_sound {s : SchedulerState} {top : DelayedJob} (hp : s.delayed.peek = some top) (now : Nat) :
    Sound s ({ s with delayed := s.delayed.pop }.wakeDelayed top.job now) := by
  obtain ⟨rest, he⟩ : ∃ rest, s.delayed.entries = top :: rest := List.head?_eq_some_iff.1 hp
  have hpop : s.delayed.pop.entries = rest := by simp only [Heap.pop, he, List.tail_cons]
  unfold wakeDelayed
  dsimp only
  cases hj : s.jobs.lookup top.job with
  | none =>
    dsimp only
    have hdead : s.live top.job = false := not_live_iff.2 hj
    have hone (hb : s.Books) : s.staleDelayed = rest.countP (!s.live ·.job) + 1 := by
      rw [hb.timed.count, he, List.countP_cons_of_pos (by simp [hdead])]
    refine ⟨rfl, fun hb => ⟨⟨hb.tidy.lanes, hb.tidy.keyed⟩, ?_⟩, fun hb h => .inl ?_⟩
    · refine hb.timed.of_sublist rfl rfl (List.tail_sublist _) (fun d hd hl => ?_) ?_
      · rw [Heap.mem_def, he] at hd
        rcases List.mem_cons.1 hd with rfl | hd
        · rw [hdead] at hl
          cases hl
        · change d ∈ s.delayed.pop.entries
          rwa [hpop]
      · change s.staleDelayed - 1 = s.delayed.pop.entries.countP (!s.live ·.job)
        rw [hone hb, hpop, Nat.add_sub_cancel]
    · have hok : decide (1 ≤ s.staleDelayed) = true := by
        rw [hone hb]
        simp only [decide_eq_true_eq, Nat.le_add_left]
      exact check_flag hok h
  | some job =>
    have h₁ : Sound s { s with
        delayed := s.delayed.pop
        jobs := s.jobs.insert top.job { job with readyAt := now, notBefore := none } } :=
      ⟨rfl, fun hb => ⟨hb.tidy.of_stored hj rfl rfl rfl rfl, hb.timed.woken he hj rfl rfl hpop rfl rfl⟩,
        fun _ h => .inl h⟩
    dsimp only
    split
    · exact h₁.trans (.of_keeps (pushLaneHeadCandidate_quiet _ _ _).toMoves (pushLaneHeadCandidate_keeps _ _ _))
    · exact h₁.trans (.of_keeps (pushJobCandidate_quiet _ _ _).toMoves (pushJobCandidate_keeps _ _ _))

theorem promoteDelayedLoop_sound {now : Nat} :
    ∀ (n : Nat) (s : SchedulerState), Sound s (promoteDelayedLoop now n s)
  | 0, s => .refl s
  | n + 1, s => by
    unfold promoteDelayedLoop
    split
    · exact .refl s
    · rename_i top hp
      split
      · exact .refl s
      · exact (wake_sound hp now).trans (promoteDelayedLoop_sound n _)

theorem promoteDelayed_sound (s : SchedulerState) (now : Nat) : Sound s (s.promoteDelayed now) :=
  promoteDelayedLoop_sound _ s

/-- Only the delayed heap and its counter change. -/
theorem Sound.of_timed {s s' : SchedulerState} (hm : Quiet s s') (hl : s'.lanes = s.lanes)
    (hc : s'.candidates = s.candidates) (ht : s.Timed → s'.Timed)
    (hp : s.Timed → s'.panicked = true → s.panicked = true) : Sound s s' where
  aging := hm.aging
  books hb := by
    refine ⟨⟨fun lane l h => ?_, fun k hk id hr job' hj' => ?_⟩, ht hb.timed⟩
    · rw [hm.live_eq]
      exact hb.tidy.lanes lane l (hl ▸ h)
    · obtain ⟨job, hj, hcore⟩ := hm.job hj'
      rw [Job.sequence_of_core hcore]
      exact hb.tidy.keyed k (hc ▸ hk) id hr job hj
  flag hb h := .inl (hp hb.timed h)

theorem compactDelayedIfNeeded_sound (s : SchedulerState) : Sound s s.compactDelayedIfNeeded := by
  have hq := s.compactDelayedIfNeeded_quiet
  unfold compactDelayedIfNeeded at hq ⊢
  split at hq
  · rename_i h
    rw [if_pos h]
    exact .refl s
  · rename_i h
    rw [if_neg h]
    refine .of_timed hq rfl rfl (fun ht => ht.of_sublist rfl rfl List.filter_sublist (fun d hd hl => ?_) ?_)
      fun _ h => h
    · exact Heap.mem_filter.2 ⟨hd, hl⟩
    · change 0 = (s.delayed.entries.filter (s.live ·.job)).countP (!s.live ·.job)
      rw [eq_comm, List.countP_eq_zero]
      intro d hd
      simp [(List.mem_filter.1 hd).2]

theorem compactAll_sound (s : SchedulerState) :
    Sound s s.compactDelayedIfNeeded.compactCandidateHeapIfNeeded.compactBlockedIfNeeded := by
  have h₁ := s.compactDelayedIfNeeded_sound
  have h₂ := Sound.of_keeps (compactCandidateHeapIfNeeded_quiet s.compactDelayedIfNeeded).toMoves
    (compactCandidateHeapIfNeeded_keeps _)
  exact (h₁.trans h₂).trans (.of_keeps (compactBlockedIfNeeded_quiet _).toMoves (compactBlockedIfNeeded_keeps _))

/-- The dead nodes at the top are counted out one by one. -/
theorem dropDeadTops_sound (s : SchedulerState) : Sound s s.dropDeadTops := by
  have hsplit := List.takeWhile_append_dropWhile (p := fun d : DelayedJob => !s.live d.job) (l := s.delayed.entries)
  have hall : (s.delayed.entries.takeWhile (!s.live ·.job)).countP (!s.live ·.job) =
      (s.delayed.entries.takeWhile (!s.live ·.job)).length :=
    List.countP_eq_length.2 fun d hd => List.mem_takeWhile_imp (p := fun d : DelayedJob => !s.live d.job) hd
  have hcount (ht : s.Timed) : s.staleDelayed = (s.delayed.entries.takeWhile (!s.live ·.job)).length +
      (s.delayed.entries.dropWhile (!s.live ·.job)).countP (!s.live ·.job) := by
    rw [ht.count, ← hall, ← List.countP_append, hsplit]
  refine .of_timed (.of_eq rfl rfl rfl rfl) rfl rfl (fun ht => ?_) fun ht hp => ?_
  · refine ht.of_sublist rfl rfl (List.dropWhile_sublist _) (fun d hd hl => ?_) ?_
    · exact Heap.mem_dropWhile_of_not hd (by simp [hl])
    · change s.staleDelayed - (s.delayed.entries.takeWhile (!s.live ·.job)).length =
        (s.delayed.entries.dropWhile (!s.live ·.job)).countP (!s.live ·.job)
      rw [hcount ht, Nat.add_sub_cancel_left]
  · have hok : decide ((s.delayed.entries.takeWhile (!s.live ·.job)).length ≤ s.staleDelayed) = true := by
      rw [hcount ht]
      simp only [decide_eq_true_eq, Nat.le_add_right]
    exact check_flag hok hp

theorem beginPass_sound {s s' : SchedulerState} {order : List WindowRef} {fuel now : Nat}
    (h : s.beginPass order fuel now = some s') : Sound s s' := by
  obtain ⟨s₁, ha, -, rfl⟩ := beginPass_cases h
  unfold awaken at ha
  obtain ⟨s₀, hp, rfl⟩ := Option.map_eq_some_iff.1 ha
  have h₀ : Sound s s₀ := .of_keeps (promoteAging_quiet hp).toMoves (promoteAging_keeps hp)
  have h₁ := h₀.trans (s₀.promoteDelayed_sound now)
  have h₂ := h₁.trans (.of_keeps (promoteBlocked_quiet _ now).toMoves (promoteBlockedLoop_keeps _ _))
  have h₃ := h₂.trans (.of_keeps (promoteReservations_quiet _ order now).toMoves (promoteReservations_keeps _ order now))
  exact h₃.trans (.of_keeps (compactLanesIfNeeded_quiet _).toMoves (compactLanesIfNeeded_keeps _))

/-! ## Removal -/

/-- What is dead once a live job is gone. -/
theorem countP_gone {α : Type} (job : α → JobId) {live live' : JobId → Bool} {id : JobId} (hid : live id = true)
    (hl : ∀ a, live' a = true ↔ a ≠ id ∧ live a = true) :
    ∀ l : List α, l.countP (fun e => !live' (job e)) = l.countP (fun e => !live (job e)) + (l.map job).count id
  | [] => rfl
  | e :: l => by
    have ih := countP_gone job hid hl l
    rw [List.countP_cons, List.countP_cons, List.map_cons, List.count_cons, ih]
    by_cases he : job e = id
    · have hgone : live' (job e) = false := by
        rw [he]
        exact Bool.eq_false_iff.2 fun h => ((hl id).1 h).1 rfl
      rw [hgone, he, hid]
      simp only [Bool.not_false, Bool.not_true, if_true, beq_self_eq_true, Bool.false_eq_true, if_false]
      omega
    · have hsame : live' (job e) = live (job e) := by
        rw [Bool.eq_iff_iff, hl]
        exact and_iff_right he
      rw [hsame, if_neg (by simpa using he : ¬ (job e == id) = true)]
      omega

section gone

variable {s s' : SchedulerState} {pos : JobId → Nat} {id : JobId} {job : Job}

theorem live_erase (hj : s'.jobs = s.jobs.erase id) (a : JobId) : s'.live a = true ↔ a ≠ id ∧ s.live a = true := by
  simp only [live, hj, Table.contains_erase_iff]

/-- A lane holds the one entry of a job that joined it, and of no other. -/
theorem count_entries (h : Lined pos s fun _ => False) (hj : s.jobs.lookup id = some job) {lane : OutboundLaneKey}
    {l : LaneState} (hl : s.lanes.lookup lane = some l) :
    (l.pending.entries.map (·.job)).count id = if job.metadata.lane = some lane then 1 else 0 := by
  have hw := h.lanes lane l hl
  split
  · rename_i hlane
    obtain ⟨l', order, hl', -, he⟩ := h.member id job lane hj hlane not_false
    rw [hl] at hl'
    cases hl'
    exact List.count_eq_one_of_mem hw.once (List.mem_map_of_mem (f := LaneEntry.job) he)
  · rename_i hlane
    refine List.count_eq_zero.2 fun hm => hlane ?_
    obtain ⟨e, he, rfl⟩ := List.mem_map.1 hm
    exact (hw.own e he job hj).1

/-- A pending job leaves its entry behind, and the lane has counted it. -/
theorem Tidy.gone (ht : s.Tidy) (h : Lined pos s fun _ => False) (hj : s.jobs.lookup id = some job)
    (hjobs : s'.jobs = s.jobs.erase id) (hc : s'.candidates = s.candidates)
    (hlanes : ∀ lane l', s'.lanes.lookup lane = some l' → ∃ l, s.lanes.lookup lane = some l ∧
      l'.pending = l.pending ∧ l'.stale = l.stale + if job.metadata.lane = some lane then 1 else 0) : s'.Tidy := by
  refine ⟨fun lane l' hl' => ?_, fun k hk a hr job' hj' => ?_⟩
  · obtain ⟨l, hl, hp, hs⟩ := hlanes lane l' hl'
    have hcount := countP_gone LaneEntry.job (live_of hj) (live_erase hjobs) l.pending.entries
    have htidy := ht.lanes lane l hl
    unfold LaneState.Tidy LaneState.dead at htidy ⊢
    rw [hs, hp, hcount, htidy, count_entries h hj hl]
  · rw [hjobs, Table.lookup_erase_if] at hj'
    split at hj'
    · cases hj'
    · exact ht.keyed k (hc ▸ hk) a hr job' hj'

/-- The node of a delayed job is dead from now on, and has been counted. -/
theorem Timed.gone (ht : s.Timed) (hj : s.jobs.lookup id = some job) (hjobs : ∀ a job', s'.jobs.lookup a = some job' →
      a ≠ id ∧ ∃ job, s.jobs.lookup a = some job ∧ job'.notBefore = job.notBefore ∧ job'.sequence = job.sequence)
    (hlive : ∀ a, s'.live a = true ↔ a ≠ id ∧ s.live a = true) (hd : s'.delayed = s.delayed)
    (hn : s'.nextJobId = s.nextJobId) (hs : s'.staleDelayed = s.staleDelayed + job.notBefore.isSome.toNat) :
    s'.Timed := by
  refine ⟨by rw [hd]; exact ht.once, by rw [hd, hn]; exact ht.issued, fun d hm job' hj' => ?_,
    fun a job' t hj' hnb => ?_, ?_⟩
  · obtain ⟨-, job₁, hj₁, hn₁, hq₁⟩ := hjobs d.job job' hj'
    rw [hn₁, hq₁]
    exact ht.node d (hd ▸ hm) job₁ hj₁
  · obtain ⟨-, job₁, hj₁, hn₁, -⟩ := hjobs a job' hj'
    rw [hd]
    exact ht.noded a job₁ t hj₁ (hn₁ ▸ hnb)
  · rw [hd, hs, ht.count, countP_gone DelayedJob.job (live_of hj) hlive]
    congr 1
    cases hnb : job.notBefore with
    | none =>
      refine (List.count_eq_zero.2 fun hm => ?_).symm
      obtain ⟨d, hd, rfl⟩ := List.mem_map.1 hm
      have := (ht.node d hd job hj).1
      rw [hnb] at this
      cases this
    | some t =>
      obtain ⟨d, hd, rfl⟩ := ht.noded id job t hj hnb
      exact (List.count_eq_one_of_mem ht.once (List.mem_map_of_mem (f := DelayedJob.job) hd)).symm

end gone

theorem forgetLaneEntry_lanes (s : SchedulerState) (lane : OutboundLaneKey) (now : Nat) {k : OutboundLaneKey}
    {l' : LaneState} (h : (s.forgetLaneEntry lane now).lanes.lookup k = some l') : ∃ l, s.lanes.lookup k = some l ∧
      l'.pending = l.pending ∧ l'.stale = l.stale + if lane = k then 1 else 0 := by
  have hset {l₁ l₂ : LaneState} (hl : s.lanes.lookup lane = some l₁)
      (hk : (s.lanes.insert lane l₂).lookup k = some l') (hp : l₂.pending = l₁.pending) (hs : l₂.stale = l₁.stale + 1) :
      ∃ l, s.lanes.lookup k = some l ∧ l'.pending = l.pending ∧ l'.stale = l.stale + if lane = k then 1 else 0 := by
    rw [Table.lookup_insert_if] at hk
    split at hk
    · rename_i he
      cases hk
      exact ⟨l₁, he ▸ hl, hp, by rw [if_pos he.symm]; exact hs⟩
    · rename_i hne
      exact ⟨l', hk, rfl, by rw [if_neg fun he => hne he.symm]; rfl⟩
  unfold forgetLaneEntry at h
  split at h
  · rename_i hl
    have hne : ¬ lane = k := fun he => by
      rw [he, h] at hl
      cases hl
    exact ⟨l', h, rfl, by rw [if_neg hne]; rfl⟩
  · rename_i l₁ hl
    split at h
    · split at h
      · exact hset hl h rfl rfl
      · exact hset hl h rfl rfl
    · exact hset hl h rfl rfl

theorem releaseOwned_keeps (s : SchedulerState) (id : JobId) (job : Job) (now : Nat) :
    Keeps s (s.releaseOwned id job now) := by
  unfold releaseOwned
  split
  · exact releaseReservation_keeps _ _ _ _
  · exact .refl s

/-- What forgetting an entry leaves alone. -/
theorem forgetEntry_eq (s : SchedulerState) (job : Job) (now : Nat) :
    ∃ lanes staleCandidates staleBlocked blocked, s.forgetEntry job now =
      { s with lanes := lanes, staleCandidates := staleCandidates, staleBlocked := staleBlocked, blocked := blocked } := by
  unfold forgetEntry
  split
  · unfold forgetLaneEntry
    split
    · exact ⟨_, _, _, _, rfl⟩
    · split
      · split
        · exact ⟨_, _, _, _, rfl⟩
        · exact ⟨_, _, _, _, rfl⟩
      · exact ⟨_, _, _, _, rfl⟩
  · exact ⟨_, _, _, _, rfl⟩

theorem removeWaiting_sound {pos : JobId → Nat} {s : SchedulerState} (h : Lined pos s fun _ => False) (id : JobId)
    (now : Nat) : Sound s (s.removeWaiting id now) := by
  unfold removeWaiting
  split
  · exact .refl s
  · rename_i job hj
    have m₁ : Moves s ((s.countLeftovers job).releaseOwned id job now) :=
      (s.countLeftovers_quiet job).toMoves.trans (releaseOwned_quiet _ id job now).toMoves
    have k₁ := (s.countLeftovers job).releaseOwned_keeps id job now
    have htidy (hb : s.Books) : (s.countLeftovers job).Tidy := ⟨hb.tidy.lanes, hb.tidy.keyed⟩
    generalize (s.countLeftovers job).releaseOwned id job now = s₁ at m₁ k₁ ⊢
    obtain ⟨job₁, hj₁, hcore⟩ := m₁.job' hj
    have hmeta : job₁.metadata = job.metadata := congrArg (·.1) (Job.slot_of_core hcore)
    obtain ⟨coalesce, he, -, -⟩ := s₁.eraseJob_eq id job
    obtain ⟨lanes, sc, sb, blocked, hf⟩ := (s₁.eraseJob id job).forgetEntry_eq job now
    have hlanes : ∀ lane l', lanes.lookup lane = some l' → ∃ l, s₁.lanes.lookup lane = some l ∧
        l'.pending = l.pending ∧ l'.stale = l.stale + if job₁.metadata.lane = some lane then 1 else 0 := by
      intro lane l' hl'
      have hl : ((s₁.eraseJob id job).forgetEntry job now).lanes.lookup lane = some l' := by rw [hf]; exact hl'
      rw [hmeta]
      unfold forgetEntry at hl
      split at hl
      · rename_i k hk
        obtain ⟨l, hl₁, hp, hs⟩ := forgetLaneEntry_lanes _ _ _ hl
        rw [he] at hl₁
        refine ⟨l, hl₁, hp, ?_⟩
        rw [hk, hs]
        simp only [Option.some.injEq]
      · rename_i hk
        rw [he] at hl
        rw [hk]
        exact ⟨l', hl, rfl, rfl⟩
    have hlined : Lined pos s₁ fun _ => False := h.shrinks (.of_stays (.of_moves m₁))
    rw [hf, he]
    refine ⟨k₁.aging, fun hb => ⟨?_, ?_⟩, fun hb hp => k₁.flag (htidy hb) hp⟩
    · exact (k₁.tidy (htidy hb)).gone hlined hj₁ rfl rfl hlanes
    · refine hb.timed.gone hj (fun a job' ha => ?_) (fun a => ?_) k₁.delayed m₁.nextJobId k₁.staleDelayed
      · dsimp only at ha
        rw [Table.lookup_erase_if] at ha
        split at ha
        · cases ha
        · rename_i hne
          obtain ⟨job₀, hj₀, hcore⟩ := m₁.job ha
          exact ⟨hne, job₀, hj₀, Job.notBefore_of_core hcore, Job.sequence_of_core hcore⟩
      · rw [← m₁.live_eq]
        exact live_erase rfl a

theorem cancel_sound {pos : JobId → Nat} {s : SchedulerState} (h : Lined pos s fun _ => False) (id : JobId)
    (now : Nat) : Sound s (s.cancel id now) := by
  have h₁ := (removeWaiting_sound h id now).trans (compactDelayedIfNeeded_sound _)
  exact h₁.trans (.of_keeps (compactBlockedIfNeeded_quiet _).toMoves (compactBlockedIfNeeded_keeps _))

/-! ## Entering -/

/-- The entries of a lane once a new job has entered. -/
theorem entered_entries {s : SchedulerState} {metadata : OutboundMeta} {options : EnqueueOptions} {slot : Slot}
    {k : OutboundLaneKey} {l' : LaneState} (h : (s.entered metadata options slot).lanes.lookup k = some l')
    (hnew : ∀ l, s.lanes.lookup k = some l → ∀ e ∈ l.pending, e.job ≠ s.nextJobId) :
    ∃ l, (s.lanes.lookup k = some l ∨ s.lanes.lookup k = none ∧ l = .new options.laneMode) ∧ l'.stale = l.stale ∧
      ((l'.pending.entries.map (·.job)).Perm (l.pending.entries.map (·.job)) ∨
        (l'.pending.entries.map (·.job)).Perm (s.nextJobId :: l.pending.entries.map (·.job))) := by
  have hsame {l} (hl : s.lanes.lookup k = some l) (he : l = l') :
      ∃ l, (s.lanes.lookup k = some l ∨ s.lanes.lookup k = none ∧ l = .new options.laneMode) ∧ l'.stale = l.stale ∧
        ((l'.pending.entries.map (·.job)).Perm (l.pending.entries.map (·.job)) ∨
          (l'.pending.entries.map (·.job)).Perm (s.nextJobId :: l.pending.entries.map (·.job))) :=
    ⟨l, .inl hl, by rw [he], .inl (by rw [he])⟩
  unfold entered at h
  split at h
  · rename_i lane _
    have hbase : (s.lanes.lookup lane = some ((s.lanes.lookup lane).getD (.new options.laneMode)) ∨
        s.lanes.lookup lane = none ∧
          (s.lanes.lookup lane).getD (.new options.laneMode) = .new options.laneMode) := by
      cases s.lanes.lookup lane with
      | none => exact .inr ⟨rfl, rfl⟩
      | some l => exact .inl rfl
    -- the entry is new, so that the ordered set takes it
    have hadd (pending : Heap LaneEntry.before) (order : Nat) (hn : ∀ e ∈ pending, e.job ≠ s.nextJobId) :
        ((pending.insert ⟨order, s.nextJobId⟩).entries.map (·.job)).Perm
          (s.nextJobId :: pending.entries.map (·.job)) :=
      (Heap.insert_perm fun hm => hn _ hm rfl).map (·.job)
    have hfresh (he : k = lane) : ∀ e ∈ ((s.lanes.lookup lane).getD (.new options.laneMode)).pending,
        e.job ≠ s.nextJobId := by
      intro e hm
      subst he
      rcases hbase with hb | ⟨-, hb⟩
      · exact hnew _ hb e hm
      · rw [hb] at hm
        exact absurd hm (Heap.not_mem_empty e)
    simp only [enterLane, insertLanePending] at h
    split at h
    · simp only [addLaneEntry, storeJob, check, Table.lookup_insert_if] at h
      split at h
      · rename_i hk
        subst hk
        cases h
        exact ⟨(s.lanes.lookup k).getD (.new options.laneMode), hbase, rfl, .inr (hadd _ _ (hfresh rfl))⟩
      · exact hsame h rfl
    · split at h
      · simp only [addLaneEntry, renumberLane, storeJob, check, Table.lookup_insert_if] at h
        split at h
        · rename_i hk
          subst hk
          cases h
          refine ⟨(s.lanes.lookup k).getD (.new options.laneMode), hbase, rfl,
            .inr ((hadd _ _ fun e hm => ?_).trans ((renumber_perm _).cons _))⟩
          have hmem := (renumber_perm _).mem_iff.1 (List.mem_map_of_mem (f := LaneEntry.job) hm)
          obtain ⟨e', he', hjob⟩ := List.mem_map.1 hmem
          rw [← hjob]
          exact hfresh rfl e' he'
        · exact hsame h rfl
      · simp only [addLaneEntry, storeJob, check, Table.lookup_insert_if] at h
        split at h
        · rename_i hk
          subst hk
          cases h
          exact ⟨(s.lanes.lookup k).getD (.new options.laneMode), hbase, rfl, .inr (hadd _ _ (hfresh rfl))⟩
        · exact hsame h rfl
  · exact hsame h rfl

section entering

variable {s : SchedulerState} {metadata : OutboundMeta} {options : EnqueueOptions} {slot : Slot}

/-- A job once another has entered is the new one, or one that was there. -/
theorem entered_job {a : JobId} {job' : Job} (h : (s.entered metadata options slot).jobs.lookup a = some job') :
    (a = s.nextJobId ∧ job'.notBefore = options.notBefore ∧ job'.sequence = slot.sequence) ∨
      (a ≠ s.nextJobId ∧ ∃ job, s.jobs.lookup a = some job ∧ job'.notBefore = job.notBefore ∧
        job'.sequence = job.sequence) := by
  have hv := s.entered_jobs (fun j => (j.notBefore, j.sequence)) (fun _ _ => rfl) metadata options slot a
  rw [h, Option.map_some] at hv
  split at hv
  · rename_i ha
    have he := Option.some.inj hv
    exact .inl ⟨ha, congrArg Prod.fst he, congrArg Prod.snd he⟩
  · rename_i ha
    obtain ⟨job, hj, he⟩ := Option.map_eq_some_iff.1 hv.symm
    exact .inr ⟨ha, job, hj, (congrArg Prod.fst he).symm, (congrArg Prod.snd he).symm⟩

theorem entered_tidy {pos : JobId → Nat} (hl : Lined pos s fun _ => False)
    (hrefs : ∀ k ∈ s.candidates, k.reference ≠ .job s.nextJobId) (h : s.Tidy) :
    (s.entered metadata options slot).Tidy := by
  refine ⟨fun k l' hl' => ?_, fun k hk a hr job' hj' => ?_⟩
  · have hnew : ∀ l, s.lanes.lookup k = some l → ∀ e ∈ l.pending, e.job ≠ s.nextJobId := fun l hk e he heq => by
      have := (hl.lanes k l hk).issued e he
      rw [heq] at this
      exact Nat.lt_irrefl _ this
    obtain ⟨l, hbase, hs, hp⟩ := entered_entries hl' hnew
    have hdead (l : LaneState) (live : JobId → Bool) : l.dead live = (l.pending.entries.map (·.job)).countP (!live ·) := by
      rw [LaneState.dead, List.countP_map]
      rfl
    have hold : l.Tidy s.live ∧ ∀ a ∈ l.pending.entries.map (·.job), a ≠ s.nextJobId := by
      rcases hbase with hb | ⟨-, rfl⟩
      · refine ⟨h.lanes k l hb, fun a ha => ?_⟩
        obtain ⟨e, he, rfl⟩ := List.mem_map.1 ha
        exact hnew l hb e he
      · exact ⟨rfl, fun a ha => by cases ha⟩
    have hsame : (l.pending.entries.map (·.job)).countP (!(s.entered metadata options slot).live ·) =
        (l.pending.entries.map (·.job)).countP (!s.live ·) := by
      refine List.countP_congr fun a ha => ?_
      have : (s.entered metadata options slot).live a = s.live a := by
        rw [Bool.eq_iff_iff, entered_live_iff]
        exact or_iff_right (hold.2 a ha)
      rw [this]
    have htidy := hold.1
    unfold LaneState.Tidy at htidy ⊢
    rw [hs, htidy, hdead, hdead]
    rcases hp with hp | hp
    · rw [hp.countP_eq, hsame]
    · rw [hp.countP_eq, List.countP_cons_of_neg, hsame]
      simp [(s.entered_live_iff metadata options slot s.nextJobId).2 (.inl rfl)]
  · have hc : (s.entered metadata options slot).candidates = s.candidates := by
      obtain ⟨jobs, lanes, p, he⟩ := s.entered_eq metadata options slot
      rw [he]
    rw [hc] at hk
    rcases entered_job hj' with ⟨rfl, -, -⟩ | ⟨-, job, hj, -, hq⟩
    · exact absurd hr (hrefs k hk)
    · rw [hq]
      exact h.keyed k hk a hr job hj

theorem entered_timed (h : s.Timed) : (s.entered metadata options slot).Timed := by
  obtain ⟨jobs, lanes, p, he⟩ := s.entered_eq metadata options slot
  have hid := s.entered_nextJobId metadata options slot
  have hstale : (s.entered metadata options slot).staleDelayed = s.staleDelayed := by rw [he]
  have hd : (s.entered metadata options slot).delayed = (s.storeJob metadata options slot).delayed := by rw [he]
  have hnew : ∀ d ∈ s.delayed, d.job ≠ s.nextJobId := fun d hd heq => by
    have := h.issued d hd
    rw [heq] at this
    exact Nat.lt_irrefl _ this
  have hcount : s.delayed.entries.countP (fun d => !(s.entered metadata options slot).live d.job) =
      s.delayed.entries.countP (!s.live ·.job) := by
    refine List.countP_congr fun d hd => ?_
    have : (s.entered metadata options slot).live d.job = s.live d.job := by
      rw [Bool.eq_iff_iff, entered_live_iff]
      exact or_iff_right (hnew d hd)
    rw [this]
  have hnode : ∀ d ∈ s.delayed, ∀ job', (s.entered metadata options slot).jobs.lookup d.job = some job' →
      job'.notBefore = some d.notBefore ∧ job'.sequence = d.sequence := fun d hd job' hj' => by
    rcases entered_job hj' with ⟨ha, -, -⟩ | ⟨-, job, hj, hn, hq⟩
    · exact absurd ha (hnew d hd)
    · rw [hn, hq]
      exact h.node d hd job hj
  have hissued : ∀ d ∈ s.delayed, d.job < (s.entered metadata options slot).nextJobId := fun d hd => by
    rw [hid]
    exact Nat.lt_succ_of_lt (h.issued d hd)
  cases hn : options.notBefore with
  | none =>
    have hdelayed : (s.entered metadata options slot).delayed = s.delayed := by rw [hd, storeJob, hn]
    refine ⟨by rw [hdelayed]; exact h.once, by rw [hdelayed]; exact hissued, by rw [hdelayed]; exact hnode,
      fun a job' t hj' ht => ?_, by rw [hdelayed, hstale, hcount, h.count]⟩
    rcases entered_job hj' with ⟨-, hn', -⟩ | ⟨-, job, hj, hn', -⟩
    · rw [hn', hn] at ht
      cases ht
    · rw [hdelayed]
      exact h.noded a job t hj (hn' ▸ ht)
  | some nb =>
    have hdelayed : (s.entered metadata options slot).delayed = s.delayed.push ⟨nb, slot.sequence, s.nextJobId⟩ := by
      rw [hd, storeJob, hn]
    have hperm := s.delayed.push_perm ⟨nb, slot.sequence, s.nextJobId⟩
    refine ⟨?_, fun d hd => ?_, fun d hd job' hj' => ?_, fun a job' t hj' ht => ?_, ?_⟩
    · rw [hdelayed, (hperm.map _).nodup_iff, List.map_cons, List.nodup_cons]
      refine ⟨fun hm => ?_, h.once⟩
      obtain ⟨d, hd, hj⟩ := List.mem_map.1 hm
      exact hnew d hd hj
    · rw [hdelayed] at hd
      rcases Heap.mem_push.1 hd with rfl | hd
      · rw [hid]
        exact Nat.lt_succ_self _
      · exact hissued d hd
    · rw [hdelayed] at hd
      rcases Heap.mem_push.1 hd with rfl | hd
      · rcases entered_job hj' with ⟨-, hn', hq⟩ | ⟨ha, -⟩
        · exact ⟨hn'.trans hn, hq⟩
        · exact absurd rfl ha
      · exact hnode d hd job' hj'
    · rw [hdelayed]
      rcases entered_job hj' with ⟨rfl, -, -⟩ | ⟨-, job, hj, hn', -⟩
      · exact ⟨_, Heap.mem_push.2 (.inl rfl), rfl⟩
      · obtain ⟨d, hd, hdj⟩ := h.noded a job t hj (hn' ▸ ht)
        exact ⟨d, Heap.mem_push.2 (.inr hd), hdj⟩
    · rw [hdelayed, hstale, hperm.countP_eq, List.countP_cons_of_neg, hcount, h.count]
      simp [(s.entered_live_iff metadata options slot s.nextJobId).2 (.inl rfl)]

/-- The id fits, and the lane is in the mode of the request. -/
theorem entered_flag (hid : s.nextJobId + 1 < u64Size)
    (hmode : ∀ lane l, metadata.lane = some lane → s.lanes.lookup lane = some l → l.mode = options.laneMode) :
    (s.entered metadata options slot).panicked = s.panicked := by
  have hstore : (s.storeJob metadata options slot).panicked = s.panicked := by
    simp [storeJob, check, hid]
  unfold entered
  split
  · rename_i lane hlane
    have hm : (((s.lanes.lookup lane).getD (.new options.laneMode)).mode == options.laneMode) = true := by
      cases hl : s.lanes.lookup lane with
      | none => simp [LaneState.new]
      | some l => simp [hmode lane l hlane hl]
    have hlanes : (s.storeJob metadata options slot).lanes = s.lanes := rfl
    simp only [enterLane, insertLanePending, hlanes, hm]
    split
    · simp [addLaneEntry, check, hstore]
    · split <;> simp [addLaneEntry, renumberLane, check, hstore]
  · exact hstore

end entering

end SchedulerState

end Teloxide.Outbound
