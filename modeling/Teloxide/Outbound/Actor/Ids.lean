import Teloxide.Outbound.Scheduler.Lifecycle

/-!
# The ids of a scheduler

The actor knows the scheduler by the ids of its jobs: which are pending, which
are in flight and which are still to come. One lemma for each call says what
becomes of them.

* `grantReady_ids`: a pass puts the jobs it returns in flight, each once, and
  touches no other.
* `Books`: a scheduler reached by calls at instants that do not go back.
-/
namespace Teloxide.Outbound

open Teloxide.Core

namespace SchedulerState

/-- Every id is where it was. -/
structure KeepsIds (s s' : SchedulerState) : Prop where
  live : s'.live = s.live
  inFlight : s'.inFlight = s.inFlight
  nextJobId : s'.nextJobId = s.nextJobId

theorem Stays.keepsIds {s s' : SchedulerState} (h : Stays s s') : KeepsIds s s' :=
  ⟨h.live_eq, h.inFlight, h.nextJobId⟩

theorem start_ids (s : SchedulerState) (job : JobId) (now : Nat) : KeepsIds s (s.start job now) := by
  have hs := s.start_starts job now
  generalize s.start job now = s' at hs
  cases hs with
  | nothing => exact ⟨rfl, rfl, rfl⟩
  | freed _ _ _ _ _ hq => exact ⟨hq.live_eq, hq.inFlight, hq.nextJobId⟩

theorem cancel_ids (s : SchedulerState) (job : JobId) (now : Nat) :
    (∀ id, (s.cancel job now).live id = true ↔ id ≠ job ∧ s.live id = true) ∧
      (s.cancel job now).inFlight = s.inFlight ∧ (s.cancel job now).nextJobId = s.nextJobId := by
  cases hj : s.jobs.lookup job with
  | some j =>
    have hr := cancel_removes hj now
    exact ⟨hr.live_iff, hr.inFlight, hr.nextJobId⟩
  | none =>
    have hs : Stays s (s.cancel job now) := .of_moves (by
      rw [cancel, removeWaiting_none hj]
      exact ((compactDelayedIfNeeded_quiet s).trans (compactBlockedIfNeeded_quiet _)).toMoves)
    refine ⟨fun id => ?_, hs.inFlight, hs.nextJobId⟩
    rw [hs.live_eq]
    refine ⟨fun h => ⟨?_, h⟩, fun h => h.2⟩
    rintro rfl
    rw [not_live_iff.2 hj] at h
    cases h

theorem complete_ids (s : SchedulerState) (job : JobId) (completion : OutboundCompletion)
    (now observedAt : Nat) : (s.complete job completion now observedAt).live = s.live ∧
      (∀ id, (s.complete job completion now observedAt).inFlight.contains id = true ↔
        id ≠ job ∧ s.inFlight.contains id = true) ∧
      (s.complete job completion now observedAt).nextJobId = s.nextJobId := by
  have hc := s.complete_completes job completion now observedAt
  generalize s.complete job completion now observedAt = s' at hc
  cases hc with
  | nothing hn =>
    refine ⟨rfl, fun id => ⟨fun h => ⟨?_, h⟩, fun h => h.2⟩, rfl⟩
    rintro rfl
    simp [Table.contains, hn] at h
  | @done permit s₁ _ hp hf hm =>
    have hfrees : s₁.live = s.live ∧ s₁.inFlight = s.inFlight.erase job ∧ s₁.nextJobId = s.nextJobId := by
      cases hf <;> exact ⟨rfl, rfl, rfl⟩
    refine ⟨hm.live_eq.trans hfrees.1, fun id => ?_, hm.nextJobId.trans hfrees.2.2⟩
    rw [hm.inFlight, hfrees.2.1, Table.contains_erase_iff]

theorem enqueue_ids {s s' : SchedulerState} {metadata : OutboundMeta} {options : EnqueueOptions}
    {outcome : EnqueueOutcome} (h : s.enqueue metadata options = (s', .ok outcome))
    (hid : outcome.job + 1 < u64Size) :
    outcome.job = s.nextJobId ∧ s'.nextJobId = s.nextJobId + 1 ∧ s'.inFlight = s.inFlight ∧
      (∀ id, s'.live id = true ↔ id = outcome.job ∨ outcome.superseded ≠ some id ∧ s.live id = true) ∧
      ∀ old, outcome.superseded = some old → s.live old = true := by
  generalize he : Event.enqueued metadata options outcome = e
  have hc := enqueue_change h hid
  rw [he] at hc
  cases hc with
  | stays _ hi => subst he; cases hi
  | entered h₁ _ _ _ h₂ =>
    cases he
    refine ⟨h₁.nextJobId, ?_, ?_, fun id => ?_, nofun⟩
    · rw [h₂.nextJobId, entered_nextJobId, h₁.nextJobId]
    · rw [h₂.inFlight, entered_inFlight, h₁.inFlight]
    · rw [h₂.live_eq, entered_live_iff, h₁.live_eq]
      simp
  | replaced hs h₁ _ _ _ h₂ =>
    cases he
    refine ⟨h₁.nextJobId, ?_, ?_, fun id => ?_, ?_⟩
    · rw [h₂.nextJobId, entered_nextJobId, h₁.nextJobId]
    · rw [h₂.inFlight, entered_inFlight, h₁.inFlight]
    · rw [h₂.live_eq, entered_live_iff, h₁.live_iff]
      simp only [ne_eq, Option.some.injEq, eq_comm]
    · rintro _ ⟨⟩
      exact live_of (supersededJob_some hs).1
  | cancelled | cancelledLate | started | completed | granted => cases he

/-! ## A grant pass -/

/-- Some pending jobs have got a permit. -/
structure PutsInFlight (s s' : SchedulerState) (jobs : List JobId) : Prop where
  nodup : jobs.Nodup
  pending : ∀ id ∈ jobs, s.live id = true
  live : ∀ id, s'.live id = true ↔ id ∉ jobs ∧ s.live id = true
  inFlight : ∀ id, s'.inFlight.contains id = true ↔ id ∈ jobs ∨ s.inFlight.contains id = true
  nextJobId : s'.nextJobId = s.nextJobId

namespace PutsInFlight

variable {s s' s'' : SchedulerState}

theorem nothing (h : KeepsIds s s') : PutsInFlight s s' [] :=
  ⟨List.nodup_nil, nofun, fun id => by rw [h.live]; simp, fun id => by rw [h.inFlight]; simp, h.nextJobId⟩

theorem trans {jobs jobs' : List JobId} (h : PutsInFlight s s' jobs) (h' : PutsInFlight s' s'' jobs') :
    PutsInFlight s s'' (jobs ++ jobs') where
  nodup := List.nodup_append'.2 ⟨h.nodup, h'.nodup, fun id hm hm' => ((h.live id).1 (h'.pending id hm')).1 hm⟩
  pending id hm := by
    rcases List.mem_append.1 hm with hm | hm
    · exact h.pending id hm
    · exact ((h.live id).1 (h'.pending id hm)).2
  live id := by
    rw [h'.live, h.live, List.mem_append, not_or]
    exact ⟨fun ⟨h₁, h₂, h₃⟩ => ⟨⟨h₂, h₁⟩, h₃⟩, fun ⟨⟨h₁, h₂⟩, h₃⟩ => ⟨h₂, h₁, h₃⟩⟩
  inFlight id := by
    rw [h'.inFlight, h.inFlight, List.mem_append, or_left_comm, or_assoc]
  nextJobId := h'.nextJobId.trans h.nextJobId

end PutsInFlight

/-- One turn puts the job of its grant in flight. -/
theorem turn_ids {s s' : SchedulerState} {now : Nat} {e : Event} (h : s.turn now = some (s', e)) :
    PutsInFlight s s' ((grants [e]).map (·.job)) := by
  cases turn_change h with
  | stays hs he =>
    have hg : grants [e] = [] := by cases e <;> first | rfl | cases he
    rw [hg]
    exact .nothing hs.keepsIds
  | @granted s₁ s₂ _ c job job₂ now hp hm hj hj₂ hg =>
    have hmoves := hp.quiet.toMoves.trans hm
    refine ⟨List.nodup_singleton _, fun id hid => ?_, fun id => ?_, fun id => ?_, hg.nextJobId.trans hmoves.nextJobId⟩
    · obtain rfl := List.mem_singleton.1 hid
      rw [← hp.quiet.toMoves.live_eq]
      exact live_of hj
    · rw [hg.live_iff, hmoves.live_eq]
      simp [grants]
    · rw [hg.inFlight, Table.contains_insert_iff, hmoves.inFlight]
      simp [grants]
  | entered | replaced | cancelled | cancelledLate | started | completed =>
    cases turn_cases h

theorem grantLoop_ids {now : Nat} {s' : SchedulerState} :
    ∀ {fuel : Nat} {s : SchedulerState} {gs : List Grant}, grantLoop now fuel s = some (s', gs) →
      PutsInFlight s s' (gs.map (·.job))
  | 0, _, _, h => by cases h
  | fuel + 1, s, gs, h => by
    unfold grantLoop at h
    split at h
    · cases h
      exact .nothing ⟨rfl, rfl, rfl⟩
    · rename_i s₁ hp
      have ht : s.turn now = some (s₁, .skipped now) := by unfold turn; rw [hp]
      exact (turn_ids ht).trans (grantLoop_ids h)
    · rename_i s₁ c hp
      obtain ⟨job, hj⟩ := popTurn_live hp
      obtain ⟨e, ht, hge⟩ := turn_popped hp hj
      rw [Option.map_eq_some_iff] at h
      obtain ⟨⟨s₂, gs₂⟩, hl, h⟩ := h
      cases h
      have h₁ := turn_ids ht
      have h₂ := grantLoop_ids hl
      have hgs : (if (s₁.visit c now).2 = .pass then
          [(⟨c.job, (s₁.jobs.lookup c.job).bind (·.correlationId)⟩ : Grant)] else []) = grants [e] := by
        rw [hge, hj]
        rfl
      dsimp only
      rw [hgs, List.map_append]
      exact h₁.trans h₂

theorem grantReady_ids {s s' : SchedulerState} {order : List WindowRef} {fuel now : Nat} {gs : List Grant}
    (h : s.grantReady order fuel now = some (s', gs)) : PutsInFlight s s' (gs.map (·.job)) := by
  simp only [grantReady, Option.bind_eq_bind, Option.bind_eq_some_iff] at h
  obtain ⟨s₁, h₁, ⟨s₂, gs₂⟩, h₂, h⟩ := h
  cases h
  have hbegin : KeepsIds s s₁ := (beginPass_stays h₁).keepsIds
  have hend : KeepsIds s₂ (s₂.endPass now) := (Stays.of_moves (s₂.endPass_moves now)).keepsIds
  have hpass := ((PutsInFlight.nothing hbegin).trans (grantLoop_ids h₂)).trans (.nothing hend)
  rwa [List.nil_append, List.append_nil] at hpass

end SchedulerState

/-! ## Books -/

/-- The scheduler was reached by calls at instants up to `clock`. -/
def Books (s : SchedulerState) (clock : Nat) : Prop :=
  ∃ σ t, t ≤ clock ∧ Run Machine.anything σ ⟨s, t, none⟩

namespace Books

variable {s s' : SchedulerState} {clock : Nat}

theorem later {clock' : Nat} (h : Books s clock) (hle : clock ≤ clock') : Books s clock' := by
  obtain ⟨σ, t, ht, hr⟩ := h
  exact ⟨σ, t, ht.trans hle, hr⟩

theorem call {a : Action} {e : Event} (h : Books s clock) (hle : clock ≤ a.now)
    (hc : s.call a = some (s', e)) : Books s' a.now := by
  obtain ⟨σ, t, ht, hr⟩ := h
  refine ⟨e :: σ, a.now, Nat.le_refl _, .step (a := a) hr trivial ?_⟩
  have hnot : ¬ a.now < t := Nat.not_lt.2 (ht.trans hle)
  cases a with
  | beginPass | turn | endPass => cases hc
  | _ => simp [scheduler, step, hnot, hc]

theorem grantReady {order : List WindowRef} {fuel now : Nat} {gs : List Grant} (h : Books s clock)
    (hle : clock ≤ now) (hg : s.grantReady order fuel now = some (s', gs)) : Books s' now := by
  obtain ⟨σ, t, ht, hr⟩ := h
  obtain ⟨σ', hr', -⟩ := run_grantReady hr rfl (ht.trans hle) hg
  exact ⟨σ' ++ σ, now, Nat.le_refl _, hr'⟩

/-- A pending job is not in flight. -/
theorem apart (h : Books s clock) {id : JobId} (hl : s.live id = true) : s.inFlight.contains id = false := by
  obtain ⟨σ, t, -, hr⟩ := h
  have hlife := life_run hr
  rw [Bool.eq_false_iff, ne_eq, hlife.inFlight, (hlife.pending id).1 hl]
  simp

/-- An id that is still to come is nowhere. -/
theorem fresh (h : Books s clock) {i : JobId} (hn : s.nextJobId ≤ i) :
    s.live i = false ∧ s.inFlight.contains i = false := by
  obtain ⟨σ, t, -, hr⟩ := h
  have hlife := life_run hr
  have hu := (hlife.unknown i).1 hn
  rw [Bool.eq_false_iff, Bool.eq_false_iff, ne_eq, ne_eq, hlife.pending, hlife.inFlight, hu]
  simp

end Books

end Teloxide.Outbound
