import Teloxide.Outbound.Scheduler.Effect

/-!
# The life of a job

Every id that `enqueue` returns goes through one life: it is pending, then
cancelled, superseded or in flight, and from in flight completed. `phase` reads
the life off the events of a run; `Life` ties it to the maps of the scheduler.

* `jobs_conserved`: the maps hold exactly the pending and the granted jobs, no
  job is granted or superseded twice, only a pending one is granted or
  superseded, and a late call changes nothing but for the compaction that every
  `cancel` runs.
* `late_cancel_compacts`: that compaction does happen.
-/
namespace Teloxide.Outbound

open Teloxide.Core SchedulerState

/-- Where a job is in its life. -/
inductive Phase where
  | unknown
  | pending
  | inFlight
  | completed
  | cancelled
  | superseded
  deriving DecidableEq, Repr

/-- The phase of a job after some events, newest first. -/
def phase : List Event → JobId → Phase
  | [], _ => .unknown
  | .enqueued _ _ o :: τ, id =>
    if id = o.job then .pending else if o.superseded = some id then .superseded else phase τ id
  | .granted g _ _ :: τ, id => if id = g.job then .inFlight else phase τ id
  | .cancelled j _ :: τ, id => if id = j ∧ phase τ id = .pending then .cancelled else phase τ id
  | .completed j _ _ :: τ, id => if id = j ∧ phase τ id = .inFlight then .completed else phase τ id
  | _ :: τ, id => phase τ id

/-- A start of the job has been seen while it was in flight. -/
def begun : List Event → JobId → Bool
  | [], _ => false
  | .started j _ :: τ, id => (id == j && phase τ id == .inFlight) || begun τ id
  | _ :: τ, id => begun τ id

/-- How often an enqueue has reported the job as superseded. -/
def reports : List Event → JobId → Nat
  | [], _ => 0
  | .enqueued _ _ o :: τ, id => (if o.superseded = some id then 1 else 0) + reports τ id
  | _ :: τ, id => reports τ id

/-- What may happen next: a new id is unknown before, a replaced job and a
granted one are pending. -/
def Lawful (τ : List Event) : Event → Prop
  | .enqueued _ _ o =>
    phase τ o.job = .unknown ∧ ∀ old, o.superseded = some old → phase τ old = .pending
  | .granted g _ _ => phase τ g.job = .pending
  | _ => True

/-- Every event was lawful when it happened. -/
def AllLawful : List Event → Prop
  | [] => True
  | e :: τ => Lawful τ e ∧ AllLawful τ

theorem phase_idle {e : Event} (h : e.isIdle = true) (τ : List Event) (id : JobId) :
    phase (e :: τ) id = phase τ id := by
  cases e <;> first | rfl | cases h

theorem phase_fresh (metadata : OutboundMeta) (options : EnqueueOptions) (τ : List Event) (job id : JobId) :
    phase (.enqueued metadata options ⟨job, none⟩ :: τ) id = if id = job then .pending else phase τ id := by
  simp [phase]

theorem phase_replaced (metadata : OutboundMeta) (options : EnqueueOptions) (τ : List Event)
    (job old id : JobId) : phase (.enqueued metadata options ⟨job, some old⟩ :: τ) id =
      if id = job then .pending else if id = old then .superseded else phase τ id := by
  simp [phase, eq_comm]

theorem begun_idle {e : Event} (h : e.isIdle = true) (τ : List Event) (id : JobId) :
    begun (e :: τ) id = begun τ id := by
  cases e <;> first | rfl | cases h

theorem reports_idle {e : Event} (h : e.isIdle = true) (τ : List Event) (id : JobId) :
    reports (e :: τ) id = reports τ id := by
  cases e <;> first | rfl | cases h

theorem lawful_idle {e : Event} (h : e.isIdle = true) (τ : List Event) : Lawful τ e := by
  cases e with
  | enqueued | granted => cases h
  | _ => trivial

/-- The maps of the scheduler, as the events of a run give them. -/
structure Life (τ : List Event) (s : SchedulerState) : Prop where
  pending : ∀ id, s.live id = true ↔ phase τ id = .pending
  inFlight : ∀ id, s.inFlight.contains id = true ↔ phase τ id = .inFlight
  unknown : ∀ id, s.nextJobId ≤ id ↔ phase τ id = .unknown
  reported : ∀ id, reports τ id = if phase τ id = .superseded then 1 else 0
  released : ∀ id, begun τ id = true → phase τ id ≠ .pending ∧ phase τ id ≠ .unknown ∧ Released s id
  lawful : AllLawful τ
  once : ((grants τ).map (·.job)).Nodup ∧
    ∀ g ∈ grants τ, phase τ g.job = .inFlight ∨ phase τ g.job = .completed

/-! ## A job stays released -/

/-- The lane before a move. -/
theorem LaneMoved.before {live : JobId → Bool} {o : Option LaneState} {l' : LaneState}
    (h : LaneMoved live o (some l')) :
    ∃ l, o = some l ∧ l'.mode = l.mode ∧ l'.inFlight = l.inFlight ∧ l'.inFlightCount = l.inFlightCount := by
  cases h with
  | kept hm hi hc => exact ⟨_, rfl, hm, hi, hc⟩

namespace SchedulerState

/-- Nothing new holds the job back: no permit, and no lane that waits for it. -/
theorem Released.of_less {s s' : SchedulerState} {id : JobId} (hr : Released s id)
    (hp : ∀ permit, s'.inFlight.lookup id = some permit → s.inFlight.lookup id = some permit)
    (hl : ∀ lane l', s'.lanes.lookup lane = some l' → l'.mode = .orderedStart → l'.inFlight = some id →
      ∃ l, s.lanes.lookup lane = some l ∧ l.mode = .orderedStart ∧ l.inFlight = some id) :
    Released s' id := by
  intro permit lane l' hp' hlane hl' hm hi
  obtain ⟨l, hls, hms, his⟩ := hl lane l' hl' hm hi
  exact hr permit lane l (hp permit hp') hlane hls hms his

theorem Released.of_moved {s s' : SchedulerState} {id : JobId} (hr : Released s id)
    (hp : ∀ permit, s'.inFlight.lookup id = some permit → s.inFlight.lookup id = some permit)
    {live : JobId → Bool} (hl : ∀ lane, LaneMoved live (s.lanes.lookup lane) (s'.lanes.lookup lane)) :
    Released s' id := by
  refine hr.of_less hp fun lane l' hl' hm hi => ?_
  obtain ⟨l, ho, hml, hil, -⟩ := LaneMoved.before (hl' ▸ hl lane)
  exact ⟨l, ho, hml ▸ hm, hil ▸ hi⟩

theorem Released.of_stays {s s' : SchedulerState} {id : JobId} (hr : Released s id) (h : Stays s s') :
    Released s' id :=
  hr.of_moved (fun _ hp => h.inFlight ▸ hp) h.lanes

theorem Released.of_entered {s : SchedulerState} {id : JobId} (hr : Released s id)
    (metadata : OutboundMeta) (options : EnqueueOptions) (slot : Slot) :
    Released (s.entered metadata options slot) id := by
  refine hr.of_less (fun _ hp => s.entered_inFlight metadata options slot ▸ hp) fun lane l' hl' hm hi => ?_
  obtain ⟨l, hls | ⟨-, rfl⟩, hml, hil, -⟩ := entered_lane hl'
  · exact ⟨l, hls, hml ▸ hm, hil ▸ hi⟩
  · rw [hil] at hi
    cases hi

/-- One lane is stored anew and does not wait for the job. -/
theorem Released.of_lane {s s' : SchedulerState} {id : JobId} {lane : OutboundLaneKey} {l l' : LaneState}
    (hr : Released s id) (hp : ∀ permit, s'.inFlight.lookup id = some permit → s.inFlight.lookup id = some permit)
    (hl : s.lanes.lookup lane = some l) (hs : s'.lanes = s.lanes.insert lane l') (hm : l'.mode = l.mode)
    (hi : l'.inFlight = l.inFlight ∨ l'.inFlight ≠ some id) : Released s' id := by
  refine hr.of_less hp fun k l'' hl'' hm'' hi'' => ?_
  rw [hs, Table.lookup_insert_if] at hl''
  split at hl''
  · rename_i hk
    subst hk
    cases hl''
    exact ⟨l, hl, hm ▸ hm'', hi.resolve_right (not_not.2 hi'') ▸ hi''⟩
  · exact ⟨l'', hl'', hm'', hi''⟩

theorem Released.of_starts {s s' : SchedulerState} {id a : JobId} (hr : Released s id)
    (h : Starts s a s') : Released s' id := by
  cases h with
  | nothing => exact hr
  | freed _ _ hl _ _ hq =>
    refine Released.of_stays ?_ (.of_moves hq.toMoves)
    exact hr.of_lane (fun _ hp => hp) hl rfl rfl (Or.inr (by simp [LaneState.restarted]))

/-- After its start a job is released. -/
theorem Starts.released {s s' : SchedulerState} {id : JobId} (h : Starts s id s') : Released s' id := by
  cases h with
  | nothing hr => exact hr
  | freed hp hlane hl _ _ hq =>
    refine Released.of_stays (fun permit' lane' l' hp' hlane' hl' hm => ?_) (.of_moves hq.toMoves)
    rw [hp] at hp'
    cases hp'
    rw [hlane] at hlane'
    cases hlane'
    rw [Table.lookup_insert_if, if_pos rfl] at hl'
    cases hl'
    simp [LaneState.restarted]

theorem Released.of_completes {s s' : SchedulerState} {id a : JobId} (hr : Released s id)
    (h : Completes s a s') : Released s' id := by
  have herase (permit) (hp : (s.inFlight.erase a).lookup id = some permit) :
      s.inFlight.lookup id = some permit := by
    rw [Table.lookup_erase_if] at hp
    split at hp
    · cases hp
    · exact hp
  cases h with
  | nothing => exact hr
  | done _ hf hm =>
    refine Released.of_stays ?_ (.of_moves hm)
    cases hf with
    | unlaned | kept => exact hr.of_less herase fun lane l hl hm hi => ⟨l, hl, hm, hi⟩
    | freed _ hl hrel =>
      rcases releasePermit_cases hrel with ⟨-, -, rfl⟩ | ⟨-, -, rfl⟩
      · exact hr.of_lane herase hl rfl rfl (Or.inl rfl)
      · exact hr.of_lane herase hl rfl rfl (Or.inr (by simp [LaneState.restarted]))

/-- A grant takes a permit for another job. -/
theorem Released.of_grants {s s' : SchedulerState} {id a : JobId} {job : Job} (hr : Released s id)
    (h : Grants s a job s') (hne : id ≠ a) : Released s' id := by
  have htaken : Released { s with
      lanes := (s.takePermit a job).lanes, inFlight := s.inFlight.insert a (permitOf job) } id := by
    have hins (permit) (hp : (s.inFlight.insert a (permitOf job)).lookup id = some permit) :
        s.inFlight.lookup id = some permit := by
      rwa [Table.lookup_insert_if, if_neg hne] at hp
    unfold takePermit takeLaneHead
    split
    · split
      · exact hr.of_less hins fun lane l hl hm hi => ⟨l, hl, hm, hi⟩
      · rename_i l hl
        dsimp only
        split
        · exact hr.of_less hins fun lane l hl hm hi => ⟨l, hl, hm, hi⟩
        · refine hr.of_lane hins hl rfl rfl ?_
          simp only [LaneState.taken]
          split
          · exact Or.inl rfl
          · exact Or.inr fun he => hne (Option.some.inj he).symm
    · exact hr.of_less hins fun lane l hl hm hi => ⟨l, hl, hm, hi⟩
  exact htaken.of_moved (fun permit hp => h.inFlight ▸ hp) h.lanes

end SchedulerState

/-! ## The life of every job -/

theorem life_init {x : Sys} (h : scheduler.init x) : Life [] x.sched := by
  obtain ⟨-, limits, classLimits, aging, hs⟩ := h
  rw [newWithClassLimits_ok hs]
  refine ⟨fun id => ?_, fun id => ?_, fun id => ?_, fun id => rfl, fun id h => ?_, trivial, List.nodup_nil,
    fun g hg => ?_⟩
  · simp [initial, live, Table.contains, phase]
  · simp [initial, Table.contains, phase]
  · simp [initial, phase]
  · cases h
  · cases hg

namespace Life

variable {τ : List Event} {s s' : SchedulerState}

/-- Events that no job notices. -/
theorem of_idle {e : Event} (h : Life τ s) (hs : Stays s s') (he : e.isIdle = true) : Life (e :: τ) s' where
  pending id := by rw [phase_idle he, hs.live_eq]; exact h.pending id
  inFlight id := by rw [phase_idle he, hs.inFlight]; exact h.inFlight id
  unknown id := by rw [phase_idle he, hs.nextJobId]; exact h.unknown id
  reported id := by rw [phase_idle he, reports_idle he]; exact h.reported id
  released id hb := by
    rw [begun_idle he] at hb
    rw [phase_idle he]
    exact ⟨(h.released id hb).1, (h.released id hb).2.1, (h.released id hb).2.2.of_stays hs⟩
  lawful := ⟨lawful_idle he τ, h.lawful⟩
  once := by
    have hg : grants (e :: τ) = grants τ := by cases e <;> first | rfl | cases he
    rw [hg]
    exact ⟨h.once.1, fun g hm => by rw [phase_idle he]; exact h.once.2 g hm⟩

theorem fresh (h : Life τ s) : phase τ s.nextJobId = .unknown := (h.unknown _).1 (Nat.le_refl _)

/-- A new job that replaces nothing. -/
theorem of_entered {s₁ : SchedulerState} {metadata : OutboundMeta} {options : EnqueueOptions} {slot : Slot}
    (h : Life τ s) (h₁ : Stays s s₁) (h₂ : Stays (s₁.entered metadata options slot) s') :
    Life (.enqueued metadata options ⟨s₁.nextJobId, none⟩ :: τ) s' := by
  have hnew : phase τ s₁.nextJobId = .unknown := by rw [h₁.nextJobId]; exact h.fresh
  refine ⟨fun id => ?_, fun id => ?_, fun id => ?_, fun id => ?_, fun id hb => ?_, ⟨⟨hnew, ?_⟩, h.lawful⟩,
    h.once.1, fun g hg => ?_⟩
  · rw [phase_fresh, h₂.live_eq, entered_live_iff, h₁.live_eq, h.pending]
    split <;> simp_all
  · rw [phase_fresh, h₂.inFlight, entered_inFlight, h₁.inFlight, h.inFlight]
    split <;> simp_all
  · rw [phase_fresh, h₂.nextJobId, entered_nextJobId]
    have hu := h.unknown id
    rw [← h₁.nextJobId] at hu
    split
    · rename_i hid
      simp [hid]
    · rename_i hid
      rw [← hu]
      exact ⟨Nat.le_of_succ_le, fun hle => Nat.lt_of_le_of_ne hle (Ne.symm hid)⟩
  · simp only [phase_fresh, reports, reduceCtorEq, if_false, Nat.zero_add, h.reported id]
    by_cases hid : id = s₁.nextJobId <;> simp [hid, hnew]
  · obtain ⟨h1, h2, h3⟩ := h.released id hb
    rw [phase_fresh, if_neg (by rintro rfl; exact h2 hnew)]
    exact ⟨h1, h2, ((h3.of_stays h₁).of_entered metadata options slot).of_stays h₂⟩
  · intro old ho
    cases ho
  · have hg' := h.once.2 g hg
    rw [phase_fresh, if_neg (by rintro he; rw [he, hnew] at hg'; simp at hg')]
    exact hg'

/-- A new job in the place of a pending one. -/
theorem of_replaced {s₁ : SchedulerState} {metadata : OutboundMeta} {options : EnqueueOptions} {slot : Slot}
    {old : JobId} (h : Life τ s) (hlive : s.live old = true) (h₁ : Removes s old s₁)
    (h₂ : Stays (s₁.entered metadata options slot) s') :
    Life (.enqueued metadata options ⟨s₁.nextJobId, some old⟩ :: τ) s' := by
  have hnew : phase τ s₁.nextJobId = .unknown := by rw [h₁.nextJobId]; exact h.fresh
  have hold : phase τ old = .pending := (h.pending old).1 hlive
  have hne : old ≠ s₁.nextJobId := by rintro rfl; rw [hnew] at hold; cases hold
  refine ⟨fun id => ?_, fun id => ?_, fun id => ?_, fun id => ?_, fun id hb => ?_, ⟨⟨hnew, ?_⟩, h.lawful⟩,
    h.once.1, fun g hg => ?_⟩
  · rw [phase_replaced, h₂.live_eq, entered_live_iff, h₁.live_iff, h.pending]
    split
    · simp_all
    · split <;> simp_all
  · rw [phase_replaced, h₂.inFlight, entered_inFlight, h₁.inFlight, h.inFlight]
    split
    · simp_all
    · split <;> simp_all
  · rw [phase_replaced, h₂.nextJobId, entered_nextJobId]
    have hu := h.unknown id
    rw [← h₁.nextJobId] at hu
    split
    · rename_i hid
      simp [hid]
    · rename_i hid
      split
      · rename_i ho
        subst ho
        rw [hold] at hu
        simp only [reduceCtorEq, iff_false] at hu ⊢
        omega
      · rw [← hu]
        exact ⟨Nat.le_of_succ_le, fun hle => Nat.lt_of_le_of_ne hle (Ne.symm hid)⟩
  · simp only [phase_replaced, reports, h.reported id, Option.some.injEq]
    split
    · rename_i ho
      subst ho
      simp [hne, hold]
    · rename_i ho
      rw [if_neg (Ne.symm ho)]
      by_cases hid : id = s₁.nextJobId <;> simp [hid, hnew]
  · obtain ⟨h1, h2, h3⟩ := h.released id hb
    have hpast : phase (.enqueued metadata options ⟨s₁.nextJobId, some old⟩ :: τ) id = phase τ id := by
      rw [phase_replaced, if_neg (by rintro rfl; exact h2 hnew), if_neg (by rintro rfl; exact h1 hold)]
    rw [hpast]
    have h3' : Released s₁ id := h3.of_moved (fun _ hp => h₁.inFlight ▸ hp) h₁.lanes
    exact ⟨h1, h2, (h3'.of_entered metadata options slot).of_stays h₂⟩
  · rintro _ ⟨⟩
    exact hold
  · have hg' := h.once.2 g hg
    rw [phase_replaced, if_neg (by rintro he; rw [he, hnew] at hg'; simp at hg'),
      if_neg (by rintro he; rw [he, hold] at hg'; simp at hg')]
    exact hg'

theorem of_cancelled {id : JobId} {now : Nat} (h : Life τ s) (hlive : s.live id = true)
    (hr : Removes s id s') : Life (.cancelled id now :: τ) s' := by
  have hold : phase τ id = .pending := (h.pending id).1 hlive
  have hphase (a : JobId) : phase (.cancelled id now :: τ) a = if a = id then .cancelled else phase τ a := by
    simp only [phase]
    split <;> split <;> simp_all
  refine ⟨fun a => ?_, fun a => ?_, fun a => ?_, fun a => ?_, fun a hb => ?_, ⟨trivial, h.lawful⟩,
    h.once.1, fun g hg => ?_⟩
  · rw [hphase, hr.live_iff, h.pending]
    split <;> simp_all
  · rw [hphase, hr.inFlight, h.inFlight]
    split <;> simp_all
  · have hu := h.unknown a
    rw [hphase, hr.nextJobId, hu]
    split <;> simp_all
  · simp only [hphase, reports, h.reported a]
    by_cases ha : a = id <;> simp [ha, hold]
  · obtain ⟨h1, h2, h3⟩ := h.released a hb
    rw [hphase, if_neg (by rintro rfl; exact h1 hold)]
    exact ⟨h1, h2, h3.of_moved (fun _ hp => hr.inFlight ▸ hp) hr.lanes⟩
  · have hg' := h.once.2 g hg
    rw [hphase, if_neg (by rintro he; rw [he, hold] at hg'; simp at hg')]
    exact hg'

/-- A step that changes no phase: a late cancel, a start, a late completion. -/
theorem of_same {e : Event} (h : Life τ s) (hp : ∀ a, phase (e :: τ) a = phase τ a)
    (hr : ∀ a, reports (e :: τ) a = reports τ a) (hg : grants (e :: τ) = grants τ)
    (hl : Lawful τ e) (hlive : s'.live = s.live) (hi : s'.inFlight = s.inFlight)
    (hn : s'.nextJobId = s.nextJobId)
    (hb : ∀ a, begun (e :: τ) a = true → phase τ a ≠ .pending ∧ phase τ a ≠ .unknown ∧ Released s' a) :
    Life (e :: τ) s' where
  pending a := by rw [hp, hlive]; exact h.pending a
  inFlight a := by rw [hp, hi]; exact h.inFlight a
  unknown a := by rw [hp, hn]; exact h.unknown a
  reported a := by rw [hp, hr]; exact h.reported a
  released a ha := by rw [hp]; exact hb a ha
  lawful := ⟨hl, h.lawful⟩
  once := by
    rw [hg]
    exact ⟨h.once.1, fun g hm => by rw [hp]; exact h.once.2 g hm⟩

theorem of_cancelledLate {id : JobId} {now : Nat} (h : Life τ s) (hj : s.jobs.lookup id = none)
    (hs : Stays s s') : Life (.cancelled id now :: τ) s' := by
  have hdead : phase τ id ≠ .pending := by
    rw [ne_eq, ← h.pending, not_live_iff.2 hj]
    simp
  refine h.of_same (fun a => ?_) (fun _ => rfl) rfl trivial hs.live_eq hs.inFlight hs.nextJobId fun a ha => ?_
  · simp only [phase]
    rw [if_neg (by rintro ⟨rfl, hp⟩; exact hdead hp)]
  · exact ⟨(h.released a ha).1, (h.released a ha).2.1, (h.released a ha).2.2.of_stays hs⟩

theorem of_started {id : JobId} {now : Nat} (h : Life τ s) (hs : Starts s id s') :
    Life (.started id now :: τ) s' := by
  have hkeep : s'.live = s.live ∧ s'.inFlight = s.inFlight ∧ s'.nextJobId = s.nextJobId := by
    cases hs with
    | nothing => exact ⟨rfl, rfl, rfl⟩
    | freed _ _ _ _ _ hq => exact ⟨hq.live_eq, hq.inFlight, hq.nextJobId⟩
  refine h.of_same (fun _ => rfl) (fun _ => rfl) rfl trivial hkeep.1 hkeep.2.1 hkeep.2.2 fun a ha => ?_
  simp only [begun, Bool.or_eq_true, Bool.and_eq_true, beq_iff_eq] at ha
  rcases ha with ⟨rfl, hp⟩ | ha
  · rw [hp]
    exact ⟨by simp, by simp, hs.released⟩
  · exact ⟨(h.released a ha).1, (h.released a ha).2.1, (h.released a ha).2.2.of_starts hs⟩

theorem of_completed {id : JobId} {completion : OutboundCompletion} {now : Nat} (h : Life τ s)
    (hc : Completes s id s') : Life (.completed id completion now :: τ) s' := by
  have hbegun (a) (ha : begun τ a = true) := (h.released a ha).2.2.of_completes hc
  cases hc with
  | nothing hn =>
    have hout : phase τ id ≠ .inFlight := by
      rw [ne_eq, ← h.inFlight]
      simp [Table.contains, hn]
    refine h.of_same (fun a => ?_) (fun _ => rfl) rfl trivial rfl rfl rfl fun a ha => ?_
    · simp only [phase]
      rw [if_neg (by rintro ⟨rfl, hp⟩; exact hout hp)]
    · exact ⟨(h.released a ha).1, (h.released a ha).2.1, hbegun a ha⟩
  | @done permit s₁ _ hp hf hm =>
    have hin : phase τ id = .inFlight := (h.inFlight id).1 ((Table.contains_iff _ _).2 ⟨permit, hp⟩)
    have hphase (a : JobId) : phase (.completed id completion now :: τ) a =
        if a = id then .completed else phase τ a := by
      simp only [phase]
      split <;> split <;> simp_all
    have hfrees : s₁.live = s.live ∧ s₁.inFlight = s.inFlight.erase id ∧ s₁.nextJobId = s.nextJobId := by
      cases hf <;> exact ⟨rfl, rfl, rfl⟩
    refine ⟨fun a => ?_, fun a => ?_, fun a => ?_, fun a => ?_, fun a hb => ?_, ⟨trivial, h.lawful⟩,
      h.once.1, fun g hg => ?_⟩
    · rw [hphase, hm.live_eq, hfrees.1, h.pending]
      split <;> simp_all
    · rw [hphase, hm.inFlight, hfrees.2.1, Table.contains_erase_iff, h.inFlight]
      split <;> simp_all
    · rw [hphase, hm.nextJobId, hfrees.2.2, h.unknown]
      split <;> simp_all
    · simp only [hphase, reports, h.reported a]
      by_cases ha : a = id <;> simp [ha, hin]
    · obtain ⟨h1, h2, -⟩ := h.released a hb
      rw [hphase]
      refine ⟨?_, ?_, hbegun a hb⟩ <;> split <;> simp_all
    · have hg' := h.once.2 g hg
      rw [hphase]
      split
      · exact Or.inr rfl
      · exact hg'

theorem of_granted {s₁ s₂ : SchedulerState} {c : Candidate} {job job₂ : Job} {now : Nat} (h : Life τ s)
    (h₁ : Moves s s₁) (h₂ : Moves s₁ s₂) (hj : s₁.jobs.lookup c.job = some job)
    (hgr : Grants s₂ c.job job₂ s') :
    Life (.granted ⟨c.job, job.correlationId⟩ job.metadata now :: τ) s' := by
  have hpast : phase τ c.job = .pending := by
    rw [← h.pending, ← h₁.live_eq]
    exact live_of hj
  have hm := h₁.trans h₂
  refine ⟨fun a => ?_, fun a => ?_, fun a => ?_, fun a => ?_, fun a hb => ?_, ⟨hpast, h.lawful⟩, ?_, ?_⟩
  · simp only [phase]
    rw [hgr.live_iff, hm.live_eq, h.pending]
    split <;> simp_all
  · simp only [phase]
    rw [hgr.inFlight, Table.contains_insert_iff, hm.inFlight, h.inFlight]
    split <;> simp_all
  · simp only [phase]
    rw [hgr.nextJobId, hm.nextJobId, h.unknown]
    split <;> simp_all
  · simp only [phase, reports, h.reported a]
    by_cases ha : a = c.job <;> simp [ha, hpast]
  · obtain ⟨h1, h2, h3⟩ := h.released a hb
    have hne : a ≠ c.job := by rintro rfl; exact h1 hpast
    simp only [phase, if_neg hne]
    exact ⟨h1, h2, (h3.of_stays (.of_moves hm)).of_grants hgr hne⟩
  · simp only [grants, List.map_cons, List.nodup_cons, List.mem_map, not_exists, not_and]
    refine ⟨fun g hg he => ?_, h.once.1⟩
    have := h.once.2 g hg
    rw [he, hpast] at this
    simp at this
  · intro g hg
    simp only [phase]
    split
    · exact Or.inl rfl
    · rename_i hne
      rcases List.mem_cons.1 hg with rfl | hg
      · exact absurd rfl hne
      · exact h.once.2 g hg

theorem step {e : Event} (h : Life τ s) (hc : Change s s' e) : Life (e :: τ) s' := by
  cases hc with
  | stays hs he => exact h.of_idle hs he
  | entered h₁ _ _ _ h₂ => exact h.of_entered h₁ h₂
  | replaced hs h₁ _ _ _ h₂ => exact h.of_replaced (live_of (supersededJob_some hs).1) h₁ h₂
  | cancelled hj hr => exact h.of_cancelled (live_of hj) hr
  | cancelledLate hj hs => exact h.of_cancelledLate hj hs
  | started hs => exact h.of_started hs
  | completed hc => exact h.of_completed hc
  | granted hp hm hj _ hg => exact h.of_granted hp.quiet.toMoves hm hj hg

end Life

theorem life_run {ok : Sys → Action → Prop} {τ : List Event} {x : Sys} (hr : Run ok τ x) : Life τ x.sched :=
  Machine.Run.induct (I := fun τ x => Life τ x.sched) (fun _ => life_init)
    (fun _ _ _ _ _ _ h _ hs => h.step (step_change hs)) hr

/-! ## Conservation -/

/-- The ids that enqueue has returned, newest first. -/
def issued : List Event → List JobId
  | [] => []
  | .enqueued _ _ o :: τ => o.job :: issued τ
  | _ :: τ => issued τ

/-- The issued ids are the ones that have a phase. -/
theorem mem_issued_iff {τ : List Event} (h : AllLawful τ) (id : JobId) :
    id ∈ issued τ ↔ phase τ id ≠ .unknown := by
  induction τ with
  | nil => simp [issued, phase]
  | cons e τ ih =>
    have ih := ih h.2
    cases e with
    | enqueued m options o =>
      have hl := h.1
      simp only [issued, List.mem_cons, phase]
      by_cases hid : id = o.job
      · simp [hid]
      · simp only [hid, false_or, if_false]
        split
        · rename_i hs
          simp [ih, hl.2 id hs]
        · exact ih
    | granted g m now =>
      have hl : phase τ g.job = .pending := h.1
      simp only [issued, phase]
      split
      · rename_i hid
        rw [ih, hid, hl]
        simp
      · exact ih
    | cancelled j now | completed j c now =>
      simp only [issued, phase]
      split
      · rename_i hid
        simp [ih, hid.2]
      · exact ih
    | _ => exact ih

/-- Dead entries may leave the delayed and the blocked heap; the rest is as it
was. -/
def OnlyCompacts (s s' : SchedulerState) : Prop :=
  ∃ delayed staleDelayed blocked staleBlocked,
    s' = { s with delayed := delayed, staleDelayed := staleDelayed
                  blocked := blocked, staleBlocked := staleBlocked } ∧
    (∀ d, d ∈ delayed → d ∈ s.delayed) ∧ (∀ d, d ∈ s.delayed → s.live d.job = true → d ∈ delayed) ∧
    (∀ n, n ∈ blocked → n ∈ s.blocked) ∧
    (∀ n, n ∈ s.blocked → s.blockedNodeAlive n = true → n ∈ blocked)

theorem cancel_onlyCompacts {s : SchedulerState} {id : JobId} (h : s.live id = false) (now : Nat) :
    OnlyCompacts s (s.cancel id now) := by
  rw [cancel, removeWaiting_none (not_live_iff.1 h)]
  have hd : ∃ delayed n, s.compactDelayedIfNeeded = { s with delayed := delayed, staleDelayed := n } ∧
      (∀ d, d ∈ delayed → d ∈ s.delayed) ∧ (∀ d, d ∈ s.delayed → s.live d.job = true → d ∈ delayed) := by
    unfold compactDelayedIfNeeded
    split
    · exact ⟨s.delayed, s.staleDelayed, rfl, fun _ h => h, fun _ h _ => h⟩
    · exact ⟨_, _, rfl, fun _ h => (Heap.mem_filter.1 h).1, fun _ h hl => Heap.mem_filter.2 ⟨h, hl⟩⟩
  obtain ⟨delayed, n, hs, h1, h2⟩ := hd
  rw [hs]
  unfold compactBlockedIfNeeded
  split
  · exact ⟨delayed, n, s.blocked, s.staleBlocked, rfl, h1, h2, fun _ h => h, fun _ h _ => h⟩
  · exact ⟨delayed, n, _, _, rfl, h1, h2, fun _ h => (Heap.mem_filter.1 h).1,
      fun _ h hl => Heap.mem_filter.2 ⟨h, hl⟩⟩

/-- What holds of the jobs after a run. -/
structure Conserved (τ : List Event) (s : SchedulerState) : Prop where
  /-- No job is granted twice. -/
  once : ((grants τ).map (·.job)).Nodup
  /-- An issued job is in one phase. -/
  issued : ∀ id, id ∈ issued τ ↔ phase τ id ≠ .unknown
  /-- The pending ones are those in `jobs`. -/
  pending : ∀ id, s.live id = true ↔ phase τ id = .pending
  /-- The granted and not completed ones are those in `in_flight`. -/
  inFlight : ∀ id, s.inFlight.contains id = true ↔ phase τ id = .inFlight
  /-- Only a pending job was ever granted or replaced. -/
  lawful : AllLawful τ
  /-- A superseded job was reported once, any other never. -/
  reported : ∀ id, reports τ id = if phase τ id = .superseded then 1 else 0
  lateComplete : ∀ id completion now observedAt, phase τ id ≠ .inFlight →
    s.complete id completion now observedAt = s
  lateStart : ∀ id now, phase τ id ≠ .inFlight ∨ begun τ id = true → s.start id now = s
  lateCancel : ∀ id now, phase τ id ≠ .pending → OnlyCompacts s (s.cancel id now)

/-- Jobs are conserved over every run. -/
theorem jobs_conserved {τ : List Event} {x : Sys} (hr : Run Machine.anything τ x) :
    Conserved τ x.sched := by
  have h := life_run hr
  have hout (id) (hp : phase τ id ≠ .inFlight) : x.sched.inFlight.lookup id = none := by
    rw [ne_eq, ← h.inFlight] at hp
    simpa [Table.contains] using hp
  refine ⟨h.once.1, fun id => mem_issued_iff h.lawful id, h.pending, h.inFlight, h.lawful, h.reported,
    fun id completion now observedAt hp => ?_, fun id now hp => ?_, fun id now hp => ?_⟩
  · rw [complete, hout id hp]
  · refine start_released ?_ now
    rcases hp with hp | hb
    · intro permit lane l hl
      rw [hout id hp] at hl
      cases hl
    · exact (h.released id hb).2.2
  · refine cancel_onlyCompacts ?_ now
    rw [ne_eq, ← h.pending] at hp
    simpa using hp

/-- Two delayed jobs, one cancelled before and once more after the other is
granted. -/
def lateCancelRun : List Action :=
  [.enqueue (.plain 10 none) { EnqueueOptions.plain 0 with notBefore := some 10 },
    .enqueue (.plain 10 none) { EnqueueOptions.plain 0 with notBefore := some 5 },
    .cancel 0 0] ++ Action.pass 5 [] 1

theorem jobs_conserved_lateCancelRun : ∃ τ x, Run Machine.anything τ x ∧ grants τ = [⟨1, none⟩] ∧
    Conserved τ x.sched := by
  have hg : (scheduler.exec Machine.anything [] (.fresh []) lateCancelRun).map (grants ·.1) = some [⟨1, none⟩] := by decide
  rw [Option.map_eq_some_iff] at hg
  obtain ⟨⟨τ, x⟩, he, hg⟩ := hg
  have hr := run_of_actions (Sys.fresh_init rfl) he
  exact ⟨τ, x, hr, hg, jobs_conserved hr⟩

/-- The second cancel of a job compacts the delayed heap: it does change the
state. -/
theorem late_cancel_compacts : ∃ τ x, Run Machine.anything τ x ∧ phase τ 0 = .cancelled ∧
    x.sched.cancel 0 5 ≠ x.sched := by
  have hg : (scheduler.exec Machine.anything [] (.fresh []) lateCancelRun).map
      (fun r => (phase r.1 0, r.2.sched.delayed.len, (r.2.sched.cancel 0 5).delayed.len)) =
        some (.cancelled, 1, 0) := by decide
  rw [Option.map_eq_some_iff] at hg
  obtain ⟨⟨τ, x⟩, he, hg⟩ := hg
  simp only [Prod.mk.injEq] at hg
  refine ⟨τ, x, run_of_actions (Sys.fresh_init rfl) he, hg.1, fun heq => ?_⟩
  rw [heq, hg.2.1] at hg
  simp at hg

end Teloxide.Outbound
