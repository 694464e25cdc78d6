import Teloxide.Outbound.Scheduler.NoPanic

/-!
# Sequence numbers at the end of their range

`take_sequence` renumbers the pending jobs when its counter has come to `u64::MAX`
(`crates/teloxide-core/src/outbound/scheduler.rs:908-1032`). Where a live job holds
number 0, the jobs get their ranks and the entries of jobs that are gone are dropped.
Otherwise the least live number is taken from every number, and from those of the
entries that are left of cancelled jobs as well.

Results:
* `takeSequence_rebases`: the order of the jobs and of their entries is kept and the new
  number is the greatest, exactly if no entry in the heaps lies below the least live job,
  or that job holds number 0.
* `stale_number_underflows`: the entry of a cancelled job that came first.
-/
namespace Teloxide.Outbound

open Teloxide.Core

namespace SchedulerState

variable {s : SchedulerState} {f : Nat → Nat}

/-! ## Ranks -/

theorem rank_lt_length {sequences : List Nat} {q : Nat} (h : q ∈ sequences) : rank sequences q < sequences.length := by
  have hpos : 0 < sequences.length := List.length_pos_of_mem h
  have hle : sequences.countP (· ≤ q) ≤ sequences.length := List.countP_le_length
  unfold rank
  omega

/-- The rank is strictly monotone on the numbers that are taken. -/
theorem rank_lt_rank {sequences : List Nat} {q q' : Nat} (h : q ∈ sequences) (h' : q' ∈ sequences) (hlt : q < q') :
    rank sequences q < rank sequences q' := by
  have hpos : 0 < sequences.countP (· ≤ q) := List.countP_pos_iff.mpr ⟨q, h, by simp⟩
  have hcount : sequences.countP (· ≤ q) < sequences.countP (· ≤ q') := by
    obtain ⟨before, after, rfl⟩ := List.append_of_mem h'
    have hmono (l : List Nat) : l.countP (· ≤ q) ≤ l.countP (· ≤ q') := by
      refine List.countP_mono_left fun n _ hn => ?_
      simp only [decide_eq_true_eq] at hn ⊢
      omega
    have hb := hmono before
    have ha := hmono after
    have hnot : ¬ (q' ≤ q) := by omega
    simp only [List.countP_append, List.countP_cons, decide_eq_true_eq, Nat.le_refl, if_true, hnot, if_false]
    omega
  unfold rank
  omega

/-! ## The promise -/

/-- What has become of the numbers: `f` of each. An entry in a heap is live if it stands for
a job, under the number of that job; that of a lane may carry the number of a dead head. -/
structure Rebased (f : Nat → Nat) (s s' : SchedulerState) (sequence : Nat) : Prop where
  /-- no subtraction went below zero -/
  fits : s'.panicked = false
  jobs : ∀ id, s'.jobs.lookup id = (s.jobs.lookup id).map fun job => { job with sequence := f job.sequence }
  ordered : ∀ q ∈ s.sequences, ∀ q' ∈ s.sequences, q < q' → f q < f q'
  delayed : ∀ d ∈ s.delayed, s.live d.job = true → { d with sequence := f d.sequence } ∈ s'.delayed
  candidates : ∀ key ∈ s.candidates, ∀ job, s.headJob key.reference = some job →
    ∃ q, { key with sequence := q } ∈ s'.candidates ∧ (key.sequence = job.sequence → q = f key.sequence)
  fresh : ∀ id job, s'.jobs.lookup id = some job → job.sequence < sequence

/-- The least live number is 0, or no entry lies below it. -/
def Rebasable (s : SchedulerState) : Prop :=
  ∀ least, s.sequences.min? = some least →
    least = 0 ∨ (∀ d ∈ s.delayed, least ≤ d.sequence) ∧ ∀ key ∈ s.candidates, least ≤ key.sequence

theorem mem_sequences {id : JobId} {job : Job} (h : s.jobs.lookup id = some job) : job.sequence ∈ s.sequences :=
  List.mem_map_of_mem (Table.mem_values.2 ⟨id, h⟩)

/-! ## The three branches -/

/-- Without a job the counter starts again. -/
theorem rebased_empty (hp : s.panicked = false) (h : s.sequences.min? = none) :
    Rebased id s { s with nextSequence := 0 } 0 := by
  have hnone : s.sequences = [] := List.min?_eq_none_iff.mp h
  have hjob (id : JobId) (job : Job) : s.jobs.lookup id ≠ some job := fun hj => by
    have := mem_sequences hj
    rw [hnone] at this
    cases this
  refine ⟨hp, fun id => ?_, fun q hq => ?_, fun d hd _ => hd, fun key hk job _ => ⟨key.sequence, hk, fun _ => rfl⟩,
    fun id job hj => absurd hj (hjob id job)⟩
  · cases hj : s.jobs.lookup id with
    | none => rw [Option.map_none]
    | some job => exact absurd hj (hjob id job)
  · rw [hnone] at hq
    cases hq

theorem rankSequences_headJob (s : SchedulerState) (r : CandidateRef) : s.rankSequences.headJob r =
    (s.headJob r).map fun job => { job with sequence := rank s.sequences job.sequence } := by
  cases r with
  | job id => exact s.rankSequences_lookup id
  | lane key =>
    simp only [headJob, rankSequences_live, rankSequences_lookup]
    rw [show s.rankSequences.lanes = s.lanes from rfl, Option.map_bind]
    rfl

theorem rebased_renumber (hb : s.Books) (hp : s.panicked = false) :
    Rebased (rank s.sequences) s s.renumberSequences s.sequences.length := by
  obtain ⟨hre, hkeys⟩ := rekeyAll_rekeys s.candidates.entries s.rankSequences
  have hlookup (id : JobId) : s.renumberSequences.jobs.lookup id =
      (s.jobs.lookup id).map fun job => { job with sequence := rank s.sequences job.sequence } := by
    rw [renumberSequences_jobs, rankSequences_lookup]
  refine ⟨?_, hlookup, fun q hq q' hq' hlt => rank_lt_rank hq hq' hlt, fun d hd hlive => ?_, fun key hk job hj => ?_,
    fun id job' hj' => ?_⟩
  · have htidy : ∀ lane l, s.rankSequences.lanes.lookup lane = some l → l.Tidy s.rankSequences.live := by
      rw [rankSequences_live]
      exact hb.tidy.lanes
    rw [Bool.eq_false_iff]
    intro hflag
    have := hre.flag htidy hflag
    rw [show s.rankSequences.panicked = s.panicked from rfl, hp] at this
    cases this
  · obtain ⟨job, hj⟩ := live_iff.1 hlive
    rw [renumberSequences_delayed, Heap.mem_ofList, ← (hb.timed.node d hd job hj).2]
    exact List.mem_filterMap.2 ⟨d, hd, rankNode_of hj⟩
  · refine ⟨rank s.sequences job.sequence, Heap.mem_ofList.2 ?_, fun h => by rw [h]⟩
    rw [hkeys]
    refine List.mem_filterMap.2 ⟨key, hk, ?_⟩
    rw [rankSequences_headJob, hj]
    rfl
  · rw [hlookup] at hj'
    obtain ⟨job, hj, rfl⟩ := Option.map_eq_some_iff.1 hj'
    exact rank_lt_length (mem_sequences hj)

theorem le_foldl_max {l : List Nat} {q : Nat} (h : q ∈ l) (m : Nat) : q ≤ l.foldl max m := by
  have hstart (l : List Nat) (m : Nat) : m ≤ l.foldl max m := by
    induction l generalizing m with
    | nil => exact Nat.le_refl m
    | cons n l ih => exact Nat.le_trans (Nat.le_max_left m n) (ih (max m n))
  induction l generalizing m with
  | nil => cases h
  | cons n l ih =>
    rcases List.mem_cons.1 h with rfl | h
    · exact Nat.le_trans (Nat.le_max_right m q) (hstart l _)
    · exact ih h _

theorem shiftSequences_panicked (s : SchedulerState) (least : Nat) : (s.shiftSequences least).panicked = false ↔
    s.panicked = false ∧ (∀ d ∈ s.delayed, least ≤ d.sequence) ∧ ∀ key ∈ s.candidates, least ≤ key.sequence := by
  have hflag : (s.shiftSequences least).panicked = (s.panicked ||
    !(s.delayed.entries.all (least ≤ ·.sequence) && s.candidates.entries.all (least ≤ ·.sequence))) := rfl
  rw [hflag, Bool.or_eq_false_iff, Bool.not_eq_false', Bool.and_eq_true, List.all_eq_true, List.all_eq_true]
  simp only [decide_eq_true_eq]
  exact Iff.rfl

theorem rebased_shift {least : Nat} (hp : s.panicked = false) (hl : s.sequences.min? = some least)
    (hd : ∀ d ∈ s.delayed, least ≤ d.sequence) (hc : ∀ key ∈ s.candidates, least ≤ key.sequence) :
    Rebased (· - least) s (s.shiftSequences least) (s.sequences.foldl max 0 - least + 1) := by
  have hleast {q : Nat} (hq : q ∈ s.sequences) : least ≤ q := (List.min?_eq_some_iff.mp hl).2 q hq
  refine ⟨(s.shiftSequences_panicked least).2 ⟨hp, hd, hc⟩, s.shiftSequences_lookup least, fun q hq q' hq' hlt => ?_,
    fun d hd _ => ?_, fun key hk job _ => ⟨key.sequence - least, ?_, fun _ => rfl⟩, fun id job' hj' => ?_⟩
  · have := hleast hq
    have := hleast hq'
    omega
  · exact Heap.mem_ofList.2 (List.mem_map.2 ⟨d, hd, rfl⟩)
  · exact Heap.mem_ofList.2 (List.mem_map.2 ⟨key, hk, rfl⟩)
  · rw [shiftSequences_lookup] at hj'
    obtain ⟨job, hj, rfl⟩ := Option.map_eq_some_iff.1 hj'
    have := le_foldl_max (mem_sequences hj) 0
    dsimp only
    omega

/-- The counter says nothing of the rest. -/
theorem Rebased.counter {s' : SchedulerState} {sequence : Nat} (h : Rebased f s s' sequence) (n : Nat) :
    Rebased f s { s' with nextSequence := n } sequence :=
  ⟨h.fits, h.jobs, h.ordered, h.delayed, h.candidates, h.fresh⟩

end SchedulerState

open SchedulerState

/-- At the end of the range a new number is the greatest and leaves the others in order, if
and only if the heaps hold no entry below the least live job, or that job holds number 0. -/
theorem takeSequence_rebases (s : SchedulerState) (hb : s.Books) (hp : s.panicked = false)
    (hn : s.nextSequence = u64Size - 1) :
    (∃ f, Rebased f s s.takeSequence.1 s.takeSequence.2) ↔ s.Rebasable := by
  unfold takeSequence
  rw [if_pos hn]
  unfold rebaseSequences Rebasable
  cases hl : s.sequences.min? with
  | none =>
    refine iff_of_true ⟨id, (rebased_empty hp hl).counter _⟩ ?_
    rintro least ⟨⟩
  | some least =>
    by_cases hzero : least = 0
    · dsimp only
      rw [if_pos hzero]
      refine iff_of_true ⟨_, (rebased_renumber hb hp).counter _⟩ ?_
      rintro _ ⟨⟩
      exact .inl hzero
    · dsimp only
      rw [if_neg hzero]
      constructor
      · rintro ⟨f, h⟩ _ ⟨⟩
        exact .inr ((s.shiftSequences_panicked least).1 h.fits).2
      · intro h
        obtain ⟨hd, hc⟩ := (h least rfl).resolve_left hzero
        exact ⟨_, (rebased_shift hp hl hd hc).counter _⟩

/-- Two requests, the second of them delayed, with the counter at its end. -/
theorem takeSequence_rebases_two : ∃ s : SchedulerState, s.nextSequence = u64Size - 1 ∧ s.sequences = [1, 0] ∧
    ∃ f, Rebased f s s.takeSequence.1 s.takeSequence.2 := by
  have h : (scheduler.exec Machine.anything [] (Sys.fresh [(1, 10)])
      [.enqueue (.plain 20 none) (.plain 0), .enqueue (.plain 20 none) { EnqueueOptions.plain 0 with notBefore := some 9 }]).map
        (fun r => (r.2.sched.sequences, r.2.sched.panicked)) = some ([1, 0], false) := by decide
  obtain ⟨⟨τ, x⟩, he, hx⟩ := Option.map_eq_some_iff.1 h
  simp only [Prod.mk.injEq] at hx
  have hb := (books_run (run_of_actions (Sys.fresh_init rfl) he)).of_counter (u64Size - 1)
  refine ⟨{ x.sched with nextSequence := u64Size - 1 }, rfl, hx.1, (takeSequence_rebases _ hb hx.2 rfl).2 ?_⟩
  intro least hl
  rw [show SchedulerState.sequences { x.sched with nextSequence := u64Size - 1 } = [1, 0] from hx.1] at hl
  cases hl
  exact .inl rfl

/-- The first of two requests is cancelled: its entry keeps number 0 in the heap, below the
least live number 1. -/
theorem stale_number_underflows : ¬ ∀ s : SchedulerState, s.Books → s.panicked = false →
    s.nextSequence = u64Size - 1 → ∃ f, Rebased f s s.takeSequence.1 s.takeSequence.2 := by
  intro hall
  have h : (scheduler.exec Machine.anything [] (Sys.fresh [(1, 10)])
      [.enqueue (.plain 20 none) (.plain 0), .enqueue (.plain 20 none) (.plain 0), .cancel 0 1]).map
        (fun r => (r.2.sched.panicked, ({ r.2.sched with nextSequence := u64Size - 1 } : SchedulerState).takeSequence.1.panicked)) =
      some (false, true) := by decide
  obtain ⟨⟨τ, x⟩, he, hx⟩ := Option.map_eq_some_iff.1 h
  simp only [Prod.mk.injEq] at hx
  have hb := (books_run (run_of_actions (Sys.fresh_init rfl) he)).of_counter (u64Size - 1)
  obtain ⟨f, hf⟩ := hall _ hb hx.1 rfl
  rw [hf.fits] at hx
  cases hx.2

end Teloxide.Outbound
