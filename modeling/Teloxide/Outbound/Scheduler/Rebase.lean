import Teloxide.Outbound.Scheduler.Books

/-!
# Rebasing the sequence numbers

`rebase_sequences` gives every pending job a new sequence number and rebuilds the
delayed heap and the candidate heap to match. `headJob s r` is the job that a reference
stands for: itself, or the first live job of its lane.

* `rekeyAll_rekeys`: where a live job holds number 0, every candidate entry takes the
  number of the job it stands for, and an entry that stands for none is dropped.
* `takeSequence_books`: the books are kept, at every value of the counter.
-/
namespace Teloxide.Outbound

open Teloxide.Core

theorem LaneState.firstLive_drainDead (live : JobId → Bool) (l : LaneState) :
    (l.drainDead live).firstLive live = l.firstLive live := by
  simp only [LaneState.drainDead, LaneState.firstLive, Heap.dropWhile]
  induction l.pending.entries with
  | nil => rfl
  | cons e _ ih => cases h : live e.job <;> simp [h, ih]

namespace SchedulerState

/-- The job a reference stands for. -/
def headJob (s : SchedulerState) : CandidateRef → Option Job
  | .job id => s.jobs.lookup id
  | .lane key => ((s.lanes.lookup key).bind (·.firstLive s.live)).bind fun head => s.jobs.lookup head.job

/-! ## The rebuild of the candidate heap -/

/-- What rebuilding one entry does to the lanes. -/
structure Rekeys (s s' : SchedulerState) : Prop where
  jobs : s'.jobs = s.jobs
  heads : ∀ r, s'.headJob r = s.headJob r
  tidy : ∀ lane l', s'.lanes.lookup lane = some l' → ∃ l, s.lanes.lookup lane = some l ∧
    (l.Tidy s.live → l'.Tidy s.live)
  flag : (∀ lane l, s.lanes.lookup lane = some l → l.Tidy s.live) → s'.panicked = true → s.panicked = true

theorem Rekeys.refl (s : SchedulerState) : Rekeys s s :=
  ⟨rfl, fun _ => rfl, fun _ l h => ⟨l, h, fun h => h⟩, fun _ h => h⟩

theorem Rekeys.trans {s s' s'' : SchedulerState} (h : Rekeys s s') (h' : Rekeys s' s'') : Rekeys s s'' := by
  have hlive : s'.live = s.live := by funext a; simp only [live, h.jobs]
  refine ⟨h'.jobs.trans h.jobs, fun r => (h'.heads r).trans (h.heads r), fun lane l'' hl'' => ?_, fun ht hp => ?_⟩
  · obtain ⟨l', hl', hk'⟩ := h'.tidy lane l'' hl''
    obtain ⟨l, hl, hk⟩ := h.tidy lane l' hl'
    rw [hlive] at hk'
    exact ⟨l, hl, fun ht => hk' (hk ht)⟩
  · refine h.flag ht (h'.flag (fun lane l' hl' => ?_) hp)
    obtain ⟨l, hl, hk⟩ := h.tidy lane l' hl'
    rw [hlive]
    exact hk (ht lane l hl)

/-- The lane of the entry is stored anew or dropped. -/
theorem Rekeys.of_lane {s s' : SchedulerState} {lane : OutboundLaneKey} {l : LaneState} {o : Option LaneState}
    (hl : s.lanes.lookup lane = some l) (hj : s'.jobs = s.jobs)
    (ho : ∀ k, s'.lanes.lookup k = if k = lane then o else s.lanes.lookup k)
    (hf : o.bind (·.firstLive s.live) = l.firstLive s.live) (ht : ∀ l', o = some l' → l.Tidy s.live → l'.Tidy s.live)
    (hp : l.Tidy s.live → s'.panicked = true → s.panicked = true) : Rekeys s s' where
  jobs := hj
  heads r := by
    have hlive : s'.live = s.live := by funext a; simp only [live, hj]
    cases r with
    | job id => simp only [headJob, hj]
    | lane k =>
      simp only [headJob, hj, hlive, ho]
      split
      · rename_i hk
        rw [hf, hk, hl]
        rfl
      · rfl
  tidy k l' hl' := by
    rw [ho] at hl'
    split at hl'
    · rename_i hk
      exact ⟨l, hk ▸ hl, ht l' hl'⟩
    · exact ⟨l', hl', fun h => h⟩
  flag h := hp (h lane l hl)

theorem rekeyLane_rekeys (s : SchedulerState) (key : CandidateKey) (lane : OutboundLaneKey) :
    Rekeys s (s.rekeyLane key lane).1 ∧
      (s.rekeyLane key lane).2 = (s.headJob (.lane lane)).map fun job => { key with sequence := job.sequence } := by
  unfold rekeyLane
  cases hl : s.lanes.lookup lane with
  | none => exact ⟨.refl s, by simp only [headJob, hl, Option.bind_none, Option.map_none]⟩
  | some l =>
    have hhead : s.headJob (.lane lane) = (l.firstLive s.live).bind fun head => s.jobs.lookup head.job := by
      simp only [headJob, hl, Option.bind_some]
    have hjobs : (s.check (l.drainFits s.live)).jobs = s.jobs := rfl
    simp only [LaneState.peek_drainDead, hhead, hjobs]
    have hflag (ht : l.Tidy s.live) (hp : (s.check (l.drainFits s.live)).panicked = true) : s.panicked = true :=
      check_flag ht.drainFits hp
    cases hf : (l.firstLive s.live).bind fun head => s.jobs.lookup head.job with
    | some job =>
      dsimp only
      refine ⟨.of_lane (o := some (l.drainDead s.live)) hl rfl (fun k => Table.lookup_insert_if _ _ _ _) ?_ ?_ hflag, rfl⟩
      · exact l.firstLive_drainDead s.live
      · rintro _ ⟨⟩ ht
        exact ht.drainDead
    | none =>
      dsimp only
      -- the first live entry has a job, so there is none
      have hnone : l.firstLive s.live = none := by
        cases hfl : l.firstLive s.live with
        | none => rfl
        | some head =>
          obtain ⟨job, hj⟩ := live_iff.1 (LaneState.firstLive_live hfl)
          rw [hfl, Option.bind_some, hj] at hf
          cases hf
      split
      · refine ⟨.of_lane (o := none) hl rfl (fun k => Table.lookup_erase_if _ _ _) ?_ ?_ hflag, rfl⟩
        · exact hnone.symm
        · rintro _ ⟨⟩
      · refine ⟨.of_lane (o := some { l.drainDead s.live with inCandidateHeap := false, candidateEffective := 0 }) hl rfl
          (fun k => Table.lookup_insert_if _ _ _ _) ?_ ?_ hflag, rfl⟩
        · exact l.firstLive_drainDead s.live
        · rintro _ ⟨⟩ ht
          exact ht.drainDead

theorem rekey_rekeys (s : SchedulerState) (key : CandidateKey) : Rekeys s (s.rekey key).1 ∧
    (s.rekey key).2 = (s.headJob key.reference).map fun job => { key with sequence := job.sequence } := by
  unfold rekey
  split
  · rename_i id hr
    exact ⟨.refl s, by rw [hr]; rfl⟩
  · rename_i lane hr
    have hhead : s.headJob key.reference = s.headJob (.lane lane) := by rw [hr]
    rw [hhead]
    exact s.rekeyLane_rekeys key lane

/-- Every entry takes the number of the job it stands for; the others go. -/
theorem rekeyAll_rekeys : ∀ (keys : List CandidateKey) (s : SchedulerState), Rekeys s (s.rekeyAll keys).1 ∧
    (s.rekeyAll keys).2 = keys.filterMap fun key =>
      (s.headJob key.reference).map fun job => { key with sequence := job.sequence }
  | [], s => ⟨.refl s, rfl⟩
  | key :: keys, s => by
    obtain ⟨h₁, he₁⟩ := s.rekey_rekeys key
    obtain ⟨h₂, he₂⟩ := rekeyAll_rekeys keys (s.rekey key).1
    refine ⟨h₁.trans h₂, ?_⟩
    change (s.rekey key).2.toList ++ ((s.rekey key).1.rekeyAll keys).2 = _
    rw [he₁, he₂]
    simp only [h₁.heads, List.filterMap_cons]
    cases s.headJob key.reference <;> rfl

/-! ## The books after a rebase -/

theorem rankSequences_live (s : SchedulerState) : s.rankSequences.live = s.live := by
  funext a
  simp only [live, Table.contains, rankSequences, Table.lookup_mapValues, Option.isSome_map]

theorem rankSequences_lookup (s : SchedulerState) (id : JobId) : s.rankSequences.jobs.lookup id =
    (s.jobs.lookup id).map fun job => { job with sequence := rank s.sequences job.sequence } := by
  simp only [rankSequences, Table.lookup_mapValues]

/-- The node of a job with the rank of the job for a number. -/
def rankNode (s : SchedulerState) (d : DelayedJob) : Option DelayedJob :=
  (s.rankSequences.jobs.lookup d.job).map fun job => { d with sequence := job.sequence }

theorem rankNode_some {s : SchedulerState} {d d' : DelayedJob} (h : s.rankNode d = some d') :
    d'.job = d.job ∧ d'.notBefore = d.notBefore ∧ ∃ job, s.jobs.lookup d.job = some job ∧
      d'.sequence = rank s.sequences job.sequence := by
  obtain ⟨job', hj', rfl⟩ := Option.map_eq_some_iff.1 h
  rw [rankSequences_lookup] at hj'
  obtain ⟨job, hj, rfl⟩ := Option.map_eq_some_iff.1 hj'
  exact ⟨rfl, rfl, job, hj, rfl⟩

theorem rankNode_of {s : SchedulerState} {d : DelayedJob} {job : Job} (h : s.jobs.lookup d.job = some job) :
    s.rankNode d = some { d with sequence := rank s.sequences job.sequence } := by
  simp only [rankNode, rankSequences_lookup, h, Option.map_some]

/-- What is left of the delayed heap. -/
theorem renumberSequences_delayed (s : SchedulerState) :
    s.renumberSequences.delayed = .ofList (s.delayed.entries.filterMap s.rankNode) := rfl

theorem renumberSequences_jobs (s : SchedulerState) : s.renumberSequences.jobs = s.rankSequences.jobs :=
  (rekeyAll_rekeys s.candidates.entries s.rankSequences).1.jobs

theorem renumberSequences_live (s : SchedulerState) : s.renumberSequences.live = s.live := by
  refine .trans ?_ s.rankSequences_live
  funext a
  simp only [live, renumberSequences_jobs]

theorem renumberSequences_books {s : SchedulerState} (h : s.Books) : s.renumberSequences.Books := by
  obtain ⟨hre, hkeys⟩ := rekeyAll_rekeys s.candidates.entries s.rankSequences
  have hperm := Heap.ofList_perm (r := DelayedJob.before) (s.delayed.entries.filterMap s.rankNode)
  have hmem {d : DelayedJob} (hd : d ∈ s.renumberSequences.delayed) : ∃ d₀ ∈ s.delayed, s.rankNode d₀ = some d := by
    rw [renumberSequences_delayed, Heap.mem_ofList] at hd
    exact List.mem_filterMap.1 hd
  have hlookup (id : JobId) : s.renumberSequences.jobs.lookup id =
      (s.jobs.lookup id).map fun job => { job with sequence := rank s.sequences job.sequence } := by
    rw [renumberSequences_jobs, rankSequences_lookup]
  refine ⟨⟨fun lane l' hl' => ?_, fun k hk id hr job' hj' => ?_⟩, ⟨?_, fun d hd => ?_, fun d hd job' hj' => ?_,
    fun id job' t hj' ht => ?_, ?_⟩⟩
  · obtain ⟨l, hl, hk⟩ := hre.tidy lane l' hl'
    rw [rankSequences_live] at hk
    rw [renumberSequences_live]
    exact hk (h.tidy.lanes lane l hl)
  · have hk' : k ∈ (s.rankSequences.rekeyAll s.candidates.entries).2 := Heap.mem_ofList.1 hk
    rw [hkeys] at hk'
    obtain ⟨key, -, hkey⟩ := List.mem_filterMap.1 hk'
    obtain ⟨job, hjob, rfl⟩ := Option.map_eq_some_iff.1 hkey
    have hr' : key.reference = .job id := hr
    rw [hr'] at hjob
    rw [renumberSequences_jobs] at hj'
    rw [show s.rankSequences.headJob (.job id) = s.rankSequences.jobs.lookup id from rfl, hj'] at hjob
    cases hjob
    rfl
  · rw [renumberSequences_delayed, (hperm.map _).nodup_iff, List.map_filterMap]
    have hsub : (s.delayed.entries.filterMap fun d => (s.rankNode d).map (·.job)).Sublist
        (s.delayed.entries.map (·.job)) := by
      rw [← List.filterMap_eq_map]
      clear hperm hmem
      induction s.delayed.entries with
      | nil => exact .slnil
      | cons d l ih =>
        rw [List.filterMap_cons, List.filterMap_cons]
        cases hd : s.rankNode d with
        | none => exact ih.cons _
        | some d' =>
          simp only [Option.map_some, Function.comp_apply, (rankNode_some hd).1]
          exact ih.cons_cons _
    exact h.timed.once.sublist hsub
  · obtain ⟨d₀, hd₀, hr⟩ := hmem hd
    rw [(rankNode_some hr).1, renumberSequences_stays s |>.nextJobId]
    exact h.timed.issued d₀ hd₀
  · obtain ⟨d₀, hd₀, hr⟩ := hmem hd
    obtain ⟨hjob, hnb, job, hj, hq⟩ := rankNode_some hr
    rw [hjob, hlookup, hj] at hj'
    cases hj'
    rw [hnb, hq]
    exact ⟨(h.timed.node d₀ hd₀ job hj).1, rfl⟩
  · rw [hlookup] at hj'
    obtain ⟨job, hj, rfl⟩ := Option.map_eq_some_iff.1 hj'
    obtain ⟨d, hd, rfl⟩ := h.timed.noded id job t hj ht
    refine ⟨_, ?_, (rankNode_some (rankNode_of hj)).1⟩
    rw [renumberSequences_delayed, Heap.mem_ofList]
    exact List.mem_filterMap.2 ⟨d, hd, rankNode_of hj⟩
  · rw [renumberSequences_live]
    refine (List.countP_eq_zero.2 fun d hd => ?_).symm
    obtain ⟨d₀, hd₀, hr⟩ := hmem hd
    obtain ⟨hjob, -, job, hj, -⟩ := rankNode_some hr
    simp [hjob, live_of hj]

theorem shiftSequences_lookup (s : SchedulerState) (least : Nat) (id : JobId) : (s.shiftSequences least).jobs.lookup id =
    (s.jobs.lookup id).map fun job => { job with sequence := job.sequence - least } := by
  simp only [shiftSequences, Table.lookup_mapValues]

theorem shiftSequences_books {s : SchedulerState} (h : s.Books) (least : Nat) : (s.shiftSequences least).Books := by
  have hlive : (s.shiftSequences least).live = s.live := by
    funext a
    simp only [live, Table.contains, shiftSequences_lookup, Option.isSome_map]
  have hperm := Heap.ofList_perm (r := DelayedJob.before)
    (s.delayed.entries.map fun d => { d with sequence := d.sequence - least })
  have hmem {d : DelayedJob} : d ∈ (s.shiftSequences least).delayed ↔
      ∃ d₀ ∈ s.delayed, { d₀ with sequence := d₀.sequence - least } = d := by
    rw [show (s.shiftSequences least).delayed = .ofList _ from rfl, Heap.mem_ofList, List.mem_map]
    rfl
  refine ⟨⟨fun lane l hl => ?_, fun k hk id hr job' hj' => ?_⟩, ⟨?_, fun d hd => ?_, fun d hd job' hj' => ?_,
    fun id job' t hj' ht => ?_, ?_⟩⟩
  · rw [hlive]
    exact h.tidy.lanes lane l hl
  · have hk' : k ∈ s.candidates.entries.map fun k => { k with sequence := k.sequence - least } := Heap.mem_ofList.1 hk
    obtain ⟨key, hkey, rfl⟩ := List.mem_map.1 hk'
    rw [shiftSequences_lookup] at hj'
    obtain ⟨job, hj, rfl⟩ := Option.map_eq_some_iff.1 hj'
    have := h.tidy.keyed key hkey id hr job hj
    dsimp only
    rw [this]
  · rw [show (s.shiftSequences least).delayed = .ofList _ from rfl, (hperm.map _).nodup_iff, List.map_map]
    exact h.timed.once
  · obtain ⟨d₀, hd₀, rfl⟩ := hmem.1 hd
    exact h.timed.issued d₀ hd₀
  · obtain ⟨d₀, hd₀, rfl⟩ := hmem.1 hd
    rw [shiftSequences_lookup] at hj'
    obtain ⟨job, hj, rfl⟩ := Option.map_eq_some_iff.1 hj'
    have hn := h.timed.node d₀ hd₀ job hj
    refine ⟨hn.1, ?_⟩
    dsimp only
    rw [hn.2]
  · rw [shiftSequences_lookup] at hj'
    obtain ⟨job, hj, rfl⟩ := Option.map_eq_some_iff.1 hj'
    obtain ⟨d, hd, rfl⟩ := h.timed.noded id job t hj ht
    exact ⟨_, hmem.2 ⟨d, hd, rfl⟩, rfl⟩
  · rw [hlive, show (s.shiftSequences least).delayed = .ofList _ from rfl, hperm.countP_eq, List.countP_map]
    exact h.timed.count

/-- Only the counter changes. -/
theorem Books.of_counter {s : SchedulerState} (h : s.Books) (n : Nat) : { s with nextSequence := n }.Books := by
  have hs : Sound s { s with nextSequence := n } := .of_eq rfl rfl rfl rfl rfl rfl rfl rfl
  exact hs.books h

theorem takeSequence_books {s : SchedulerState} (h : s.Books) : s.takeSequence.1.Books := by
  have hrebase : s.rebaseSequences.Books := by
    unfold rebaseSequences
    split
    · exact h.of_counter 0
    · split
      · exact renumberSequences_books h
      · exact shiftSequences_books h _
  unfold takeSequence
  dsimp only
  split
  · exact hrebase.of_counter _
  · exact h.of_counter _

/-- A job has another number at most. -/
theorem takeSequence_job {s : SchedulerState} {id : JobId} {job' : Job}
    (h : s.takeSequence.1.jobs.lookup id = some job') :
    ∃ job q, s.jobs.lookup id = some job ∧ job' = { job with sequence := q } := by
  have hrebase (h : s.rebaseSequences.jobs.lookup id = some job') :
      ∃ job q, s.jobs.lookup id = some job ∧ job' = { job with sequence := q } := by
    unfold rebaseSequences at h
    split at h
    · exact ⟨job', job'.sequence, h, rfl⟩
    · split at h
      · rw [renumberSequences_jobs, rankSequences_lookup] at h
        obtain ⟨job, hj, rfl⟩ := Option.map_eq_some_iff.1 h
        exact ⟨job, _, hj, rfl⟩
      · rw [shiftSequences_lookup] at h
        obtain ⟨job, hj, rfl⟩ := Option.map_eq_some_iff.1 h
        exact ⟨job, _, hj, rfl⟩
  unfold takeSequence at h
  dsimp only at h
  split at h
  · exact hrebase h
  · exact ⟨job', job'.sequence, h, rfl⟩

end SchedulerState

end Teloxide.Outbound
