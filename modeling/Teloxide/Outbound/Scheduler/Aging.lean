import Mathlib
import Teloxide.Outbound.Scheduler.Counters
import Teloxide.Outbound.Scheduler.Run

/-!
# The deadlines of aging

`effective_priority` divides in `u128`, `schedule_aging` multiplies in `u64`. The two agree
as long as the product fits.

* `lt_effectivePriority_iff`: the priority exceeds a keyed value from `maturity` on.
* `schedules_iff`: `schedule_aging` records that instant exactly if the product fits.
* `promoteAging_keyed`: a candidate whose deadline is recorded is keyed with its effective
  priority after every promotion.
-/
namespace Teloxide.Outbound

open Teloxide.Core

/-! ## Maturity -/

/-- How long the job waits until its priority exceeds `keyed`. -/
def Job.seasoning (job : Job) (aging : AgingPolicy) (keyed : Nat) : Nat :=
  (keyed + 1 - job.metadata.priority.val) * max aging.quantum 1

/-- The first instant at which the job's effective priority exceeds `keyed`. -/
def Job.maturity (job : Job) (aging : AgingPolicy) (keyed : Nat) : Nat := job.readyAt + job.seasoning aging keyed

/-- Every deadline from a level on fits a word. -/
def Job.Seasons (job : Job) (aging : AgingPolicy) (level : Nat) : Prop :=
  ∀ keyed, level ≤ keyed → keyed < HIGHEST → job.seasoning aging keyed < u64Size

section priority

variable {job job' : Job} {aging : AgingPolicy} {keyed t now : Nat}

theorem effectivePriority_core (h : job'.core = job.core) (aging : AgingPolicy) (now : Nat) :
    effectivePriority job' aging now = effectivePriority job aging now := by
  have hm : job'.metadata = job.metadata := congrArg (·.metadata) h
  have hr : job'.readyAt = job.readyAt := congrArg (·.readyAt) h
  unfold effectivePriority
  rw [hm, hr]

theorem Job.maturity_core (h : job'.core = job.core) (aging : AgingPolicy) (keyed : Nat) :
    job'.maturity aging keyed = job.maturity aging keyed := by
  have hm : job'.metadata = job.metadata := congrArg (·.metadata) h
  have hr : job'.readyAt = job.readyAt := congrArg (·.readyAt) h
  unfold Job.maturity Job.seasoning
  rw [hm, hr]

theorem effectivePriority_le (job : Job) (aging : AgingPolicy) (now : Nat) :
    effectivePriority job aging now ≤ HIGHEST := Nat.min_le_right _ _

theorem le_effectivePriority (job : Job) (aging : AgingPolicy) (now : Nat) :
    job.metadata.priority.val ≤ effectivePriority job aging now := by
  have hlt := job.metadata.priority.isLt
  refine Nat.le_min.2 ⟨Nat.le_add_right _ _, ?_⟩
  unfold HIGHEST
  omega

theorem effectivePriority_mono (job : Job) (aging : AgingPolicy) (h : t ≤ now) :
    effectivePriority job aging t ≤ effectivePriority job aging now := by
  have hdiv : (t - job.readyAt) / max aging.quantum 1 ≤ (now - job.readyAt) / max aging.quantum 1 :=
    Nat.div_le_div_right (Nat.sub_le_sub_right h _)
  unfold effectivePriority
  dsimp only
  omega

/-- A priority below the highest is exceeded from its maturity on. -/
theorem lt_effectivePriority_iff (hb : HIGHEST ≤ aging.maxBoost.val) (hk : keyed < HIGHEST)
    (hbase : job.metadata.priority.val ≤ keyed) :
    keyed < effectivePriority job aging t ↔ job.maturity aging keyed ≤ t := by
  have hq : 0 < max aging.quantum 1 := Nat.lt_of_lt_of_le Nat.zero_lt_one (Nat.le_max_right _ _)
  have hdiv := Nat.le_div_iff_mul_le (x := keyed + 1 - job.metadata.priority.val) (y := t - job.readyAt) hq
  have hpos : 0 < job.seasoning aging keyed := Nat.mul_pos (by omega) hq
  have hlevel : keyed < effectivePriority job aging t ↔
      keyed + 1 - job.metadata.priority.val ≤ (t - job.readyAt) / max aging.quantum 1 := by
    unfold effectivePriority
    dsimp only
    omega
  rw [hlevel, hdiv]
  change job.seasoning aging keyed ≤ _ ↔ _
  unfold Job.maturity
  omega

theorem seasoning_mono {k k' : Nat} (h : k ≤ k') (job : Job) (aging : AgingPolicy) :
    job.seasoning aging k ≤ job.seasoning aging k' := Nat.mul_le_mul_right _ (by omega)

end priority

namespace SchedulerState

/-! ## One deadline -/

section deadline

variable (s : SchedulerState) (reference : CandidateRef) (job : Job)

/-- `schedule_aging` for a candidate keyed with its priority at `now`: no overflow, and the
deadline is the first instant at which the priority exceeds the key. -/
def Schedules (now : Nat) : Prop :=
  let keyed := effectivePriority job s.aging now
  let s' := s.scheduleAging reference keyed job.metadata.priority.val job.readyAt
  if keyed = HIGHEST then s' = s
  else s'.panicked = s.panicked ∧ ∃ deadline, s'.agingEvents = s.agingEvents.push ⟨deadline, reference⟩ ∧
    IsLeast {t | keyed < effectivePriority job s.aging t} deadline

theorem scheduleAging_highest (base readyAt : Nat) : s.scheduleAging reference HIGHEST base readyAt = s :=
  if_pos (Nat.le_refl _)

/-- Below the highest level a deadline is recorded, modulo the word size. -/
theorem scheduleAging_below {keyed : Nat} (hk : keyed < HIGHEST) (hbase : job.metadata.priority.val ≤ keyed) :
    s.scheduleAging reference keyed job.metadata.priority.val job.readyAt =
      { s.check ((keyed + 1 - job.metadata.priority.val) * (max s.aging.quantum 1 % u64Size) < u64Size) with
        agingEvents := s.agingEvents.push ⟨job.readyAt +
          (keyed + 1 - job.metadata.priority.val) * (max s.aging.quantum 1 % u64Size) % u64Size, reference⟩ } := by
  unfold scheduleAging
  rw [if_neg (by omega), if_neg (by omega)]

/-- What fits a word is not truncated. -/
theorem scheduleAging_fits {keyed : Nat} (hk : keyed < HIGHEST) (hbase : job.metadata.priority.val ≤ keyed)
    (hfit : job.seasoning s.aging keyed < u64Size) :
    s.scheduleAging reference keyed job.metadata.priority.val job.readyAt =
      { s with agingEvents := s.agingEvents.push ⟨job.maturity s.aging keyed, reference⟩ } := by
  have hq : max s.aging.quantum 1 ≤ job.seasoning s.aging keyed := Nat.le_mul_of_pos_left _ (by omega)
  have hmod : max s.aging.quantum 1 % u64Size = max s.aging.quantum 1 := Nat.mod_eq_of_lt (by omega)
  unfold Job.maturity
  unfold Job.seasoning at hfit ⊢
  rw [scheduleAging_below s reference job hk hbase, hmod, Nat.mod_eq_of_lt hfit, decide_eq_true hfit]
  simp only [check, Bool.not_true, Bool.or_false]

theorem schedules_iff (hb : HIGHEST ≤ s.aging.maxBoost.val) (now : Nat) : s.Schedules reference job now ↔
    effectivePriority job s.aging now = HIGHEST ∨
      job.seasoning s.aging (effectivePriority job s.aging now) < u64Size := by
  unfold Schedules
  dsimp only
  generalize hkeyed : effectivePriority job s.aging now = keyed
  have hle : keyed ≤ HIGHEST := hkeyed ▸ effectivePriority_le job s.aging now
  have hbase : job.metadata.priority.val ≤ keyed := hkeyed ▸ le_effectivePriority job s.aging now
  split
  · rename_i hk
    subst hk
    exact ⟨fun _ => .inl rfl, fun _ => s.scheduleAging_highest _ _ _⟩
  rename_i hk
  have hlt : keyed < HIGHEST := by omega
  have hleast : IsLeast {t | keyed < effectivePriority job s.aging t} (job.maturity s.aging keyed) :=
    ⟨(lt_effectivePriority_iff hb hlt hbase).2 (Nat.le_refl _), fun t ht => (lt_effectivePriority_iff hb hlt hbase).1 ht⟩
  constructor
  · rintro ⟨-, deadline, hevents, hl⟩
    refine .inr (Nat.lt_of_not_le fun hover => ?_)
    -- the recorded deadline lies within a word of `ready_at`, the maturity does not
    have hsame : deadline = job.maturity s.aging keyed := hl.unique hleast
    rw [scheduleAging_below s reference job hlt hbase] at hevents
    dsimp only at hevents
    have hcount := congrArg (fun h : Heap AgingEvent.before => h.entries.count ⟨deadline, reference⟩) hevents
    have hperm (a : AgingEvent) : (s.agingEvents.push a).entries.Perm (a :: s.agingEvents.entries) :=
      List.perm_orderedInsert _ _ _
    rw [(hperm _).count_eq, (hperm _).count_eq, List.count_cons_self, List.count_cons] at hcount
    split at hcount
    · rename_i heq
      have hinstant : _ = deadline := congrArg AgingEvent.instant (beq_iff_eq.1 heq)
      have hword := Nat.mod_lt ((keyed + 1 - job.metadata.priority.val) * (max s.aging.quantum 1 % u64Size))
        (show 0 < u64Size by decide)
      dsimp only at hinstant
      unfold Job.maturity at hsame
      omega
    · omega
  · rintro (hk' | hfit)
    · exact absurd hk' hk
    · rw [scheduleAging_fits s reference job hlt hbase hfit]
      exact ⟨rfl, _, rfl, hleast⟩

end deadline

/-! ## Re-keying by events -/

/-- The job whose priority keys the candidate, and the key, while it is in the candidate heap. -/
def represented (s : SchedulerState) : CandidateRef → Option (Job × Nat)
  | .job id => (s.jobs.lookup id).bind fun job =>
      if job.inCandidateHeap then some (job, job.candidateEffective) else none
  | .lane lane => (s.lanes.lookup lane).bind fun l =>
      if l.inCandidateHeap then
        (l.pending.peek.bind fun head => s.jobs.lookup head.job).map fun job => (job, l.candidateEffective)
      else none

/-- The candidate is keyed with the priority of the job at `t`, and its deadline is recorded. -/
structure Seasoned (s : SchedulerState) (reference : CandidateRef) (job : Job) (t : Nat) : Prop where
  represented : ∃ job', s.represented reference = some (job', effectivePriority job s.aging t) ∧ job'.core = job.core
  key : (⟨effectivePriority job s.aging t, job.sequence, reference⟩ : CandidateKey) ∈ s.candidates
  event : effectivePriority job s.aging t < HIGHEST →
    (⟨job.maturity s.aging (effectivePriority job s.aging t), reference⟩ : AgingEvent) ∈ s.agingEvents

section keyed

variable {s s' : SchedulerState} {reference : CandidateRef} {job : Job} {t now : Nat}

theorem Seasoned.of_frame (h : s.Seasoned reference job t) (ha : s'.aging = s.aging)
    (hr : ∀ j keyed, s.represented reference = some (j, keyed) →
      ∃ j', s'.represented reference = some (j', keyed) ∧ j'.core = j.core)
    (hc : ∀ k ∈ s.candidates, k ∈ s'.candidates) (he : ∀ a ∈ s.agingEvents, a.reference = reference → a ∈ s'.agingEvents) :
    s'.Seasoned reference job t := by
  obtain ⟨j, hj, hcore⟩ := h.represented
  obtain ⟨j', hj', hcore'⟩ := hr j _ hj
  refine ⟨⟨j', ha ▸ hj', hcore'.trans hcore⟩, ha ▸ hc _ h.key, fun hlt => ?_⟩
  rw [ha] at hlt ⊢
  exact he _ (h.event hlt) rfl

/-- A further deadline changes no key. -/
theorem Seasoned.scheduleAging (h : s.Seasoned reference job t) (r : CandidateRef) (keyed base readyAt : Nat) :
    (s.scheduleAging r keyed base readyAt).Seasoned reference job t := by
  unfold SchedulerState.scheduleAging
  split
  · exact h
  · split
    · exact h
    · exact h.of_frame rfl (fun j _ hj => ⟨j, hj, rfl⟩) (fun _ hk => hk) fun a ha _ => Heap.mem_push.2 (.inr ha)

/-- The event of another candidate leaves the key alone. -/
theorem Seasoned.fire_other (h : s.Seasoned reference job t) {r : CandidateRef} (hne : r ≠ reference) (now : Nat) :
    (s.fireAging r now).Seasoned reference job t := by
  unfold fireAging
  split
  · rename_i id
    split
    · exact h
    · rename_i j hj
      dsimp only
      split
      · exact h
      · refine Seasoned.scheduleAging ?_ _ _ _ _
        refine h.of_frame rfl (fun j₀ keyed hrep => ?_) (fun k hk => Heap.mem_push.2 (.inr hk)) fun a ha _ => ha
        cases reference with
        | job id' =>
          have hid : id' ≠ id := fun he => hne (by rw [he])
          refine ⟨j₀, ?_, rfl⟩
          simp only [SchedulerState.represented, Table.lookup_insert_if, if_neg hid]
          exact hrep
        | lane lane =>
          simp only [SchedulerState.represented, Option.bind_eq_some_iff] at hrep ⊢
          obtain ⟨l, hl, hrep⟩ := hrep
          split at hrep
          · rename_i hin
            obtain ⟨j₁, hhead, hpair⟩ := Option.map_eq_some_iff.1 hrep
            cases hpair
            obtain ⟨head, hpeek, hlk⟩ := Option.bind_eq_some_iff.1 hhead
            by_cases hid : head.job = id
            · have hsame : j₀ = j := by
                rw [hid, hj] at hlk
                exact (Option.some.inj hlk).symm
              subst hsame
              refine ⟨{ j₀ with candidateEffective := effectivePriority j₀ s.aging now }, ⟨l, hl, ?_⟩, rfl⟩
              rw [if_pos hin, hpeek]
              simp only [Option.bind_some, Table.lookup_insert_if, if_pos hid, Option.map_some]
            · refine ⟨j₀, ⟨l, hl, ?_⟩, rfl⟩
              rw [if_pos hin, hpeek]
              simp only [Option.bind_some, Table.lookup_insert_if, if_neg hid, hlk, Option.map_some]
          · cases hrep
  · rename_i lane
    split
    · exact h
    · rename_i l hl
      split
      · exact h
      · split
        · exact h
        · dsimp only
          split
          · exact h.scheduleAging _ _ _ _
          · refine Seasoned.scheduleAging ?_ _ _ _ _
            refine h.of_frame rfl (fun j₀ keyed hrep => ⟨j₀, ?_, rfl⟩) (fun k hk => Heap.mem_push.2 (.inr hk))
              fun a ha _ => ha
            cases reference with
            | job id' => exact hrep
            | lane lane' =>
              have hlane : lane' ≠ lane := fun he => hne (by rw [he])
              simp only [SchedulerState.represented, Table.lookup_insert_if, if_neg hlane]
              exact hrep

/-- A candidate that has just been keyed anew. -/
theorem Seasoned.rekeyed (ha : s'.aging = s.aging) {j : Job} (hcore : j.core = job.core)
    (hfit : effectivePriority job s.aging now < HIGHEST →
      job.seasoning s.aging (effectivePriority job s.aging now) < u64Size)
    (hrep : ∃ j', s'.represented reference = some (j', effectivePriority job s.aging now) ∧ j'.core = job.core)
    (hkey : (⟨effectivePriority job s.aging now, job.sequence, reference⟩ : CandidateKey) ∈ s'.candidates) :
    (s'.scheduleAging reference (effectivePriority j s.aging now) j.metadata.priority.val j.readyAt).Seasoned
      reference job now := by
  have hm : j.metadata = job.metadata := congrArg (·.metadata) hcore
  have hr : j.readyAt = job.readyAt := congrArg (·.readyAt) hcore
  rw [effectivePriority_core hcore, hm, hr]
  by_cases hk : effectivePriority job s.aging now = HIGHEST
  · rw [hk, scheduleAging_highest]
    exact ⟨ha ▸ hrep, ha ▸ hkey, fun hlt => by rw [ha] at hlt; omega⟩
  · have hlt : effectivePriority job s.aging now < HIGHEST := by
      have := effectivePriority_le job s.aging now
      omega
    rw [← ha] at hfit hlt ⊢
    rw [scheduleAging_fits s' reference job hlt (le_effectivePriority job _ now) (hfit hlt)]
    exact ⟨ha ▸ hrep, ha ▸ hkey, fun _ => Heap.mem_push.2 (.inl rfl)⟩

/-- The own event keys the candidate anew once its priority has risen. -/
theorem Seasoned.fire_own (h : s.Seasoned reference job t) (hready : job.notBefore.any (now < ·) = false)
    (hfit : effectivePriority job s.aging now < HIGHEST →
      job.seasoning s.aging (effectivePriority job s.aging now) < u64Size)
    (hlt : effectivePriority job s.aging t < effectivePriority job s.aging now) {events : Heap AgingEvent.before} :
    ({ s with agingEvents := events }.fireAging reference now).Seasoned reference job now := by
  obtain ⟨j, hj, hcore⟩ := h.represented
  have heff := effectivePriority_core hcore s.aging now
  cases reference with
  | job id =>
    simp only [SchedulerState.represented, Option.bind_eq_some_iff] at hj
    obtain ⟨j₀, hlk, hj⟩ := hj
    split at hj
    · rename_i hin
      obtain ⟨rfl, hce⟩ : j₀ = j ∧ j₀.candidateEffective = effectivePriority job s.aging t := by simpa using hj
      have hguard : ¬ (!j₀.inCandidateHeap || decide (effectivePriority j₀ s.aging now ≤ j₀.candidateEffective)) = true := by
        rw [hin, heff, hce]
        simpa using hlt
      simp only [fireAging, hlk, if_neg hguard]
      refine Seasoned.rekeyed ?_ hcore hfit
        ⟨{ j₀ with candidateEffective := effectivePriority j₀ s.aging now }, ?_, hcore⟩ ?_
      · rfl
      · simp only [SchedulerState.represented, Table.lookup_insert_if, if_true, Option.bind_some, hin, heff]
      · rw [← Job.sequence_of_core hcore, ← heff]
        exact Heap.mem_push.2 (.inl rfl)
    · cases hj
  | lane lane =>
    simp only [SchedulerState.represented, Option.bind_eq_some_iff] at hj
    obtain ⟨l, hl, hj⟩ := hj
    split at hj
    · rename_i hin
      obtain ⟨j₁, hhead, hpair⟩ := Option.map_eq_some_iff.1 hj
      obtain ⟨rfl, hce⟩ : j₁ = j ∧ l.candidateEffective = effectivePriority job s.aging t := by simpa using hpair
      have hnb : j₁.notBefore.any (now < ·) = false := by rw [Job.notBefore_of_core hcore]; exact hready
      have hguard : ¬ (!l.inCandidateHeap || j₁.notBefore.any (now < ·)) = true := by
        rw [hin, hnb]
        decide
      have hrisen : ¬ effectivePriority j₁ s.aging now ≤ l.candidateEffective := by
        rw [heff, hce]
        omega
      simp only [fireAging, hl, hhead, if_neg hguard, if_neg hrisen]
      refine Seasoned.rekeyed ?_ hcore hfit ⟨j₁, ?_, hcore⟩ ?_
      · rfl
      · simp only [SchedulerState.represented, Table.lookup_insert_if, if_true, Option.bind_some, hin, hhead, Option.map_some, heff]
      · rw [← Job.sequence_of_core hcore, ← heff]
        exact Heap.mem_push.2 (.inl rfl)
    · cases hj

end keyed

/-! ## Promotions -/

section promote

variable {s s' : SchedulerState} {reference : CandidateRef} {job : Job} {t now : Nat}

/-- One aging event keeps the candidate keyed, with its priority at the old instant or at
the new one. -/
theorem Seasoned.fire (h : s.Seasoned reference job t) (hb : HIGHEST ≤ s.aging.maxBoost.val) (hle : t ≤ now)
    (hready : job.notBefore.any (now < ·) = false) (hfit : job.Seasons s.aging (effectivePriority job s.aging t))
    {top : AgingEvent} (hpeek : s.agingEvents.peek = some top) (hdue : top.instant ≤ now) :
    ∃ t', t ≤ t' ∧ t' ≤ now ∧
      ({ s with agingEvents := s.agingEvents.pop }.fireAging top.reference now).Seasoned reference job t' := by
  have hmono := effectivePriority_mono job s.aging hle
  by_cases hlt : top.reference = reference ∧ effectivePriority job s.aging t < effectivePriority job s.aging now
  · obtain ⟨hr, hlt⟩ := hlt
    rw [hr]
    exact ⟨now, hle, Nat.le_refl _, h.fire_own hready (hfit _ hmono) hlt⟩
  -- the popped event is not the one that the key waits for
  refine ⟨t, Nat.le_refl _, hle, ?_⟩
  have hkept : ({ s with agingEvents := s.agingEvents.pop } : SchedulerState).Seasoned reference job t := by
    refine ⟨h.represented, h.key, fun hk => ?_⟩
    rcases Heap.mem_pop_or hpeek (h.event hk) with he | hmem
    · have hmature := (lt_effectivePriority_iff hb hk (le_effectivePriority job s.aging t)).2
        (show job.maturity s.aging (effectivePriority job s.aging t) ≤ now by rw [← he] at hdue; exact hdue)
      exact absurd ⟨by rw [← he], hmature⟩ hlt
    · exact hmem
  by_cases hr : top.reference = reference
  · have hsame : effectivePriority job s.aging now ≤ effectivePriority job s.aging t :=
      Nat.le_of_not_lt fun h' => hlt ⟨hr, h'⟩
    rw [hr]
    obtain ⟨j, hj, hcore⟩ := h.represented
    have heff := effectivePriority_core hcore s.aging now
    unfold fireAging
    split
    · rename_i id
      split
      · exact hkept
      · rename_i j₀ hlk
        dsimp only
        have hguard : (!j₀.inCandidateHeap || decide (effectivePriority j₀ s.aging now ≤ j₀.candidateEffective)) = true := by
          have hj' : (s.jobs.lookup id).bind _ = _ := hj
          rw [show s.jobs.lookup id = some j₀ from hlk, Option.bind_some] at hj'
          split at hj'
          · obtain ⟨rfl, hce⟩ : j₀ = j ∧ j₀.candidateEffective = effectivePriority job s.aging t := by simpa using hj'
            rw [heff, hce, decide_eq_true hsame, Bool.or_true]
          · cases hj'
        rw [if_pos hguard]
        exact hkept
    · rename_i lane
      split
      · exact hkept
      · rename_i l hl
        split
        · exact hkept
        · rename_i j₀ hhead
          split
          · exact hkept
          · rename_i hguard
            dsimp only
            have hce : effectivePriority j₀ s.aging now ≤ l.candidateEffective := by
              have hj' : (s.lanes.lookup lane).bind _ = _ := hj
              rw [show s.lanes.lookup lane = some l from hl, Option.bind_some] at hj'
              split at hj'
              · rw [show (l.pending.peek.bind fun head => s.jobs.lookup head.job) = some j₀ from hhead] at hj'
                obtain ⟨rfl, hce⟩ : j₀ = j ∧ l.candidateEffective = effectivePriority job s.aging t := by simpa using hj'
                rw [heff, hce]
                exact hsame
              · cases hj'
            rw [if_pos hce]
            exact hkept.scheduleAging _ _ _ _
  · exact hkept.fire_other hr now

theorem fireAging_aging (s : SchedulerState) (r : CandidateRef) (now : Nat) : (s.fireAging r now).aging = s.aging :=
  (fireAging_keeps s r now).aging

/-- After a promotion the candidate is keyed with its priority at that instant. -/
theorem promoteAging_keyed : ∀ {fuel : Nat} {s s' : SchedulerState} {t : Nat}, s.Seasoned reference job t →
    HIGHEST ≤ s.aging.maxBoost.val → t ≤ now → job.notBefore.any (now < ·) = false →
    job.Seasons s.aging (effectivePriority job s.aging t) → promoteAging now fuel s = some s' →
    s'.Seasoned reference job now
  | 0, _, _, _, _, _, _, _, _, hp => by cases hp
  | fuel + 1, s, s', t, h, hb, hle, hready, hfit, hp => by
    have hquiet (hlater : effectivePriority job s.aging t < HIGHEST →
        now < job.maturity s.aging (effectivePriority job s.aging t)) : s.Seasoned reference job now := by
      have hsame : effectivePriority job s.aging t = effectivePriority job s.aging now := by
        have hmono := effectivePriority_mono job s.aging hle
        have htop := effectivePriority_le job s.aging now
        refine Nat.le_antisymm hmono (Nat.le_of_not_lt fun hlt => ?_)
        have hk : effectivePriority job s.aging t < HIGHEST := by omega
        have hmature := (lt_effectivePriority_iff hb hk (le_effectivePriority job s.aging t)).1 hlt
        have := hlater hk
        omega
      exact ⟨hsame ▸ h.represented, hsame ▸ h.key, fun hk => by rw [← hsame] at hk ⊢; exact h.event hk⟩
    unfold promoteAging at hp
    split at hp
    · rename_i hnone
      cases hp
      exact hquiet fun hk => absurd (h.event hk) (Heap.peek_none hnone _)
    · rename_i top hpeek
      split at hp
      · rename_i hlater
        cases hp
        refine hquiet fun hk => ?_
        rcases Heap.peek_before hpeek (h.event hk) with he | hbefore
        · rw [← he] at hlater
          exact hlater
        · unfold AgingEvent.before at hbefore
          dsimp only at hbefore
          omega
      · rename_i hdue
        obtain ⟨t', ht, ht', hk⟩ := h.fire hb hle hready hfit hpeek (Nat.le_of_not_lt hdue)
        have ha := fireAging_aging { s with agingEvents := s.agingEvents.pop } top.reference now
        have hfit' : job.Seasons s.aging (effectivePriority job s.aging t') := fun k hlevel =>
          hfit k (Nat.le_trans (effectivePriority_mono job s.aging ht) hlevel)
        exact promoteAging_keyed hk (by rw [ha]; exact hb) ht' hready (by rw [ha]; exact hfit') hp

end promote

/-- Promotions at instants that do not go back. -/
inductive Promotes (s : SchedulerState) (t : Nat) : SchedulerState → Nat → Prop
  | start : Promotes s t s t
  | pass {s₁ s' : SchedulerState} {t₁ now fuel : Nat} : Promotes s t s₁ t₁ → t₁ ≤ now →
      promoteAging now fuel s₁ = some s' → Promotes s t s' now

/-- Once the candidate has been keyed at `now` and its deadline scheduled, the events key it
with its effective priority at every later promotion. -/
def StaysKeyed (s : SchedulerState) (reference : CandidateRef) (job : Job) (now : Nat) : Prop :=
  s.represented reference = some (job, effectivePriority job s.aging now) →
  (⟨effectivePriority job s.aging now, job.sequence, reference⟩ : CandidateKey) ∈ s.candidates →
  job.notBefore.any (now < ·) = false → ∀ s' t, Promotes
    (s.scheduleAging reference (effectivePriority job s.aging now) job.metadata.priority.val job.readyAt) now s' t →
  ∃ job', s'.represented reference = some (job', effectivePriority job s.aging t) ∧ job'.core = job.core ∧
    (⟨effectivePriority job s.aging t, job.sequence, reference⟩ : CandidateKey) ∈ s'.candidates

theorem Promotes.keyed {s s' : SchedulerState} {reference : CandidateRef} {job : Job} {t now : Nat}
    (hp : Promotes s now s' t) (h : s.Seasoned reference job now) (hb : HIGHEST ≤ s.aging.maxBoost.val)
    (hready : job.notBefore.any (now < ·) = false) (hfit : job.Seasons s.aging (effectivePriority job s.aging now)) :
    now ≤ t ∧ s'.aging = s.aging ∧ s'.Seasoned reference job t := by
  induction hp with
  | start => exact ⟨Nat.le_refl _, rfl, h⟩
  | @pass s₁ s' t₁ t' fuel _ hle hpass ih =>
    obtain ⟨hle₁, ha, hk⟩ := ih
    have hready' : job.notBefore.any (t' < ·) = false := by
      cases hn : job.notBefore with
      | none => rfl
      | some u =>
        rw [hn] at hready
        simp only [Option.any_some, decide_eq_false_iff_not] at hready ⊢
        omega
    refine ⟨Nat.le_trans hle₁ hle, (promoteAging_keeps hpass).aging.trans ha,
      promoteAging_keyed hk (by rw [ha]; exact hb) hle hready' (fun k hlevel => ?_) hpass⟩
    rw [ha] at hlevel ⊢
    exact hfit k (Nat.le_trans (effectivePriority_mono job s.aging hle₁) hlevel)

theorem staysKeyed {s : SchedulerState} {reference : CandidateRef} {job : Job} {now : Nat}
    (hb : HIGHEST ≤ s.aging.maxBoost.val) (hfit : job.Seasons s.aging (effectivePriority job s.aging now)) :
    s.StaysKeyed reference job now := by
  intro hrep hkey hready s' t hp
  have hk := Seasoned.rekeyed (s := s) rfl rfl (hfit _ (Nat.le_refl _)) ⟨job, hrep, rfl⟩ hkey
  have ha : (s.scheduleAging reference (effectivePriority job s.aging now) job.metadata.priority.val
      job.readyAt).aging = s.aging := (scheduleAging_keeps _ _ _ _ _).aging
  obtain ⟨-, ha', hk'⟩ := hp.keyed hk (by rw [ha]; exact hb) hready (by rw [ha]; exact hfit)
  obtain ⟨job', hrep', hcore⟩ := hk'.represented
  have hkey' := hk'.key
  rw [ha', ha] at hrep' hkey'
  exact ⟨job', hrep', hcore, hkey'⟩

/-- Below the highest level, every level is the priority at some later instant. -/
theorem exists_effectivePriority {aging : AgingPolicy} (hb : HIGHEST ≤ aging.maxBoost.val) {job : Job} {now level : Nat}
    (hle : effectivePriority job aging now ≤ level) (hlt : level < HIGHEST) :
    ∃ t, now ≤ t ∧ effectivePriority job aging t = level := by
  have hbase := Nat.le_trans (le_effectivePriority job aging now) hle
  by_cases heq : effectivePriority job aging now = level
  · exact ⟨now, Nat.le_refl _, heq⟩
  -- the level below is exceeded from its maturity on
  have hprev : level - 1 + 1 = level := by omega
  have hnow : job.metadata.priority.val ≤ level - 1 := by
    have := le_effectivePriority job aging now
    omega
  refine ⟨job.maturity aging (level - 1), ?_, ?_⟩
  · refine Nat.le_of_not_lt fun h => ?_
    have := (lt_effectivePriority_iff (t := now) hb (by omega) hnow).2 (Nat.le_of_lt h)
    omega
  · have hlow := (lt_effectivePriority_iff hb (by omega) hnow).2 (Nat.le_refl (job.maturity aging (level - 1)))
    have hhigh : ¬ level < effectivePriority job aging (job.maturity aging (level - 1)) := fun h => by
      have hm := (lt_effectivePriority_iff hb hlt hbase).1 h
      have hq : 0 < max aging.quantum 1 := Nat.lt_of_lt_of_le Nat.zero_lt_one (Nat.le_max_right _ _)
      have hstep : (level + 1 - job.metadata.priority.val) * max aging.quantum 1 =
          (level - 1 + 1 - job.metadata.priority.val) * max aging.quantum 1 + max aging.quantum 1 := by
        rw [show level + 1 - job.metadata.priority.val = (level - 1 + 1 - job.metadata.priority.val) + 1 by omega,
          Nat.add_mul, Nat.one_mul]
      unfold Job.maturity Job.seasoning at hm
      omega
    omega

/-- Under an accepted policy a call of `schedule_aging` is exact if and only if its product
fits a `u64`; the deadlines of a job, and with them its keys, are exact from `now` on if and
only if the job is at the highest level or the product of all its levels fits. -/
theorem aging_deadline_iff {limits : OutboundLimits} {classLimits : OutboundClassLimits} {s s₀ : SchedulerState}
    (hok : newWithClassLimits limits classLimits s.aging = .ok s₀) (reference : CandidateRef) (job : Job) (now : Nat) :
    (s.Schedules reference job now ↔ effectivePriority job s.aging now = HIGHEST ∨
      (effectivePriority job s.aging now + 1 - job.metadata.priority.val) * s.aging.quantum < u64Size) ∧
    ((∀ t, now ≤ t → s.Schedules reference job t) ∧ s.StaysKeyed reference job now ↔
      effectivePriority job s.aging now = HIGHEST ∨
        (HIGHEST - job.metadata.priority.val) * s.aging.quantum < u64Size) := by
  obtain ⟨hb, hq⟩ : HIGHEST ≤ s.aging.maxBoost.val ∧ max s.aging.quantum 1 = s.aging.quantum := by
    unfold newWithClassLimits at hok
    split at hok
    · cases hok
    · split at hok
      · cases hok
      · split at hok
        · cases hok
        · split at hok
          · cases hok
          · rename_i hzero
            split at hok
            · cases hok
            · rename_i hboost
              have hne : s.aging.quantum ≠ 0 := fun h => hzero (beq_iff_eq.2 h)
              exact ⟨by unfold LOWEST at hboost; omega, Nat.max_eq_left (by omega)⟩
  have hiff := s.schedules_iff reference job hb
  simp only [Job.seasoning, hq] at hiff
  refine ⟨hiff now, ⟨fun ⟨hall, _⟩ => ?_, fun hfit => ?_⟩⟩
  · by_cases htop : effectivePriority job s.aging now = HIGHEST
    · exact .inl htop
    · have hle := effectivePriority_le job s.aging now
      obtain ⟨t, hle', heff⟩ := exists_effectivePriority hb
        (show effectivePriority job s.aging now ≤ HIGHEST - 1 by omega) (by decide)
      have := (hiff t).1 (hall t hle')
      rw [heff] at this
      exact .inr (this.elim (fun h => absurd h (by decide)) id)
  · have hseasons : job.Seasons s.aging (effectivePriority job s.aging now) := fun k hlevel hk => by
      rcases hfit with htop | hfit
      · omega
      · refine Nat.lt_of_le_of_lt ?_ hfit
        unfold Job.seasoning
        rw [hq]
        exact Nat.mul_le_mul_right _ (by omega)
    refine ⟨fun t hle => (hiff t).2 ?_, staysKeyed hb hseasons⟩
    have htop := effectivePriority_le job s.aging t
    by_cases ht : effectivePriority job s.aging t = HIGHEST
    · exact .inl ht
    · have := hseasons _ (effectivePriority_mono job s.aging hle) (by omega)
      unfold Job.seasoning at this
      rw [hq] at this
      exact .inr this

/-- With a quantum of a second all the levels from priority 0 on fit. -/
theorem aging_deadline_iff_second :
    let s := initial ⟨[], []⟩ ⟨[], []⟩ ⟨1000000000, 255⟩
    let job : Job := ⟨.plain 0 none, none, 0, 5, none, none, none, true, 0, false, none, none⟩
    (∀ t, 7 ≤ t → s.Schedules (.job 0) job t) ∧ s.StaysKeyed (.job 0) job 7 :=
  (@aging_deadline_iff ⟨[], []⟩ ⟨[], []⟩ (initial ⟨[], []⟩ ⟨[], []⟩ ⟨1000000000, 255⟩) _ rfl (.job 0) _ 7).2.2
    (.inr (by decide))

/-- A quantum of 2⁶⁴ ns is accepted and truncated to zero. -/
theorem aging_deadline_truncated : ¬ ∀ (limits : OutboundLimits) (classLimits : OutboundClassLimits)
    (s s₀ : SchedulerState), newWithClassLimits limits classLimits s.aging = .ok s₀ →
    ∀ (reference : CandidateRef) (job : Job) (now : Nat), s.Schedules reference job now ∧ s.StaysKeyed reference job now := by
  intro h
  have hs := (h ⟨[], []⟩ ⟨[], []⟩ (initial ⟨[], []⟩ ⟨[], []⟩ ⟨2 ^ 64, 255⟩) _ rfl (.job 0)
    ⟨.plain 0 none, none, 0, 5, none, none, none, true, 0, false, none, none⟩ 7).1
  rcases (schedules_iff _ _ _ (by decide) 7).1 hs with htop | hfit
  · exact absurd htop (by decide)
  · exact absurd hfit (by decide)

end SchedulerState

end Teloxide.Outbound
