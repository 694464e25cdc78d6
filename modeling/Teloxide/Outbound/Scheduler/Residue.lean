import Teloxide.Outbound.Scheduler.Lifecycle

/-!
# What is left when nothing is pending

When no job is pending or in flight and every debit and every penalty has run
out, a grant pass and a look at the next wake-up should leave nothing behind that
belongs to a lane, a chat or a hold. They do, but for three things that neither
of them takes away.

* `permits_run`, `coalesced_run`: a lane without jobs has all its permits back,
  and only pending jobs have a coalescing entry.
* `Idles s s'`: what the parts of a pass may change when there is no job.
* `residue_iff`: what is left, exactly.
-/
namespace Teloxide.Outbound

open Teloxide.Core

/-! ## Permits -/

/-- The job is in flight and was granted from the lane. -/
def HoldsPermit (permits : Table JobId InFlight) (lane : OutboundLaneKey) (id : JobId) : Prop :=
  ∃ permit, permits.lookup id = some permit ∧ permit.lane = some lane

/-- Every permit that the lane counts is that of a job in flight. -/
structure LaneState.Backed (l : LaneState) (lane : OutboundLaneKey) (permits : Table JobId InFlight) : Prop where
  bounded : l.mode.isBounded = true → ∃ holders : List JobId, holders.Nodup ∧
    holders.length = l.inFlightCount ∧ ∀ id ∈ holders, HoldsPermit permits lane id
  single : l.mode.isBounded = false → (∀ id, l.inFlight = some id → HoldsPermit permits lane id) ∧
    (l.inFlight = none → l.inFlightCount = 0)

namespace LaneState.Backed

variable {l l' : LaneState} {lane : OutboundLaneKey} {permits permits' : Table JobId InFlight}

theorem congr (h : l.Backed lane permits) (hm : l'.mode = l.mode) (hi : l'.inFlight = l.inFlight)
    (hc : l'.inFlightCount = l.inFlightCount) : l'.Backed lane permits where
  bounded hb := by
    rw [hc]
    exact h.bounded (hm ▸ hb)
  single hb := by
    rw [hi, hc]
    exact h.single (hm ▸ hb)

theorem moved {live : JobId → Bool} (h : l.Backed lane permits) (hl : LaneMoved live (some l) (some l')) :
    l'.Backed lane permits := by
  cases hl with
  | kept hm hi hc => exact h.congr hm hi hc

/-- No permit is out. -/
theorem free (hi : l.inFlight = none) (hc : l.inFlightCount = 0) : l.Backed lane permits where
  bounded _ := ⟨[], List.nodup_nil, by rw [hc, List.length_nil], fun _ hm => by cases hm⟩
  single _ := ⟨fun id h => (by rw [hi] at h; cases h), fun _ => hc⟩

/-- The permits of the lane are still there. -/
theorem mono (h : l.Backed lane permits)
    (hp : ∀ id, HoldsPermit permits lane id → HoldsPermit permits' lane id) : l.Backed lane permits' where
  bounded hb := by
    obtain ⟨holders, hn, hlen, hh⟩ := h.bounded hb
    exact ⟨holders, hn, hlen, fun id hm => hp id (hh id hm)⟩
  single hb := ⟨fun id hi => hp id ((h.single hb).1 id hi), (h.single hb).2⟩

/-- A permit is taken for a job that has none. -/
theorem taken (h : l.Backed lane permits) {id : JobId} (hnew : permits.lookup id = none)
    (hp : ∀ a, HoldsPermit permits lane a → HoldsPermit permits' lane a) (hid : HoldsPermit permits' lane id) :
    (l.taken id).Backed lane permits' where
  bounded hb := by
    obtain ⟨holders, hn, hlen, hh⟩ := h.bounded hb
    refine ⟨id :: holders, List.nodup_cons.2 ⟨fun hm => ?_, hn⟩, by rw [List.length_cons, hlen]; rfl, fun a ha => ?_⟩
    · obtain ⟨permit, hl, -⟩ := hh id hm
      rw [hnew] at hl
      cases hl
    · rcases List.mem_cons.1 ha with rfl | ha
      · exact hid
      · exact hp a (hh a ha)
  single hb := by
    have hi : (l.taken id).inFlight = some id := by
      rw [LaneState.taken, if_neg]
      exact fun h => by rw [LaneState.taken] at hb; rw [h] at hb; cases hb
    refine ⟨fun a ha => ?_, fun hnone => ?_⟩
    · rw [hi] at ha
      cases ha
      exact hid
    · rw [hi] at hnone
      cases hnone

/-- A permit is given back. -/
theorem released (h : l.Backed lane permits) {id : JobId} (hr : l.releasePermit id = some l') :
    l'.Backed lane (permits.erase id) := by
  rcases SchedulerState.releasePermit_cases hr with ⟨hb, hpos, rfl⟩ | ⟨hb, hi, rfl⟩
  · obtain ⟨holders, hn, hlen, hh⟩ := h.bounded hb
    have hkeep : ∀ a, a ≠ id → HoldsPermit permits lane a → HoldsPermit (permits.erase id) lane a := by
      rintro a ha ⟨permit, hl, hlane⟩
      exact ⟨permit, by rw [Table.lookup_erase_if, if_neg ha, hl], hlane⟩
    refine ⟨fun _ => ?_, fun hb' => ?_⟩
    · by_cases hm : id ∈ holders
      · refine ⟨holders.erase id, hn.erase id, ?_, fun a ha => ?_⟩
        · rw [List.length_erase_of_mem hm, hlen]
        · rw [hn.mem_erase_iff] at ha
          exact hkeep a ha.1 (hh a ha.2)
      · refine ⟨holders.tail, hn.sublist (List.tail_sublist _), by rw [List.length_tail, hlen], fun a ha => ?_⟩
        have hmem := List.mem_of_mem_tail ha
        exact hkeep a (fun heq => hm (heq ▸ hmem)) (hh a hmem)
    · exact absurd (hb.symm.trans hb') (by simp)
  · exact .free rfl rfl

/-- A job that the lane does not count has ended. -/
theorem ended (h : l.Backed lane permits) {id : JobId}
    (hr : HoldsPermit permits lane id → l.releasePermit id = none) : l.Backed lane (permits.erase id) := by
  have hkeep : ∀ a, a ≠ id → HoldsPermit permits lane a → HoldsPermit (permits.erase id) lane a := by
    rintro a ha ⟨permit, hl, hlane⟩
    exact ⟨permit, by rw [Table.lookup_erase_if, if_neg ha, hl], hlane⟩
  refine ⟨fun hb => ?_, fun hb => ⟨fun a ha => ?_, (h.single hb).2⟩⟩
  · obtain ⟨holders, hn, hlen, hh⟩ := h.bounded hb
    refine ⟨holders, hn, hlen, fun a ha => hkeep a (fun heq => ?_) (hh a ha)⟩
    subst heq
    have hnone := hr (hh a ha)
    unfold LaneState.releasePermit at hnone
    rw [if_pos hb] at hnone
    split at hnone
    · rename_i hc
      rw [List.length_eq_zero_iff.1 (hlen.trans hc)] at ha
      cases ha
    · cases hnone
  · refine hkeep a (fun heq => ?_) ((h.single hb).1 a ha)
    subst heq
    have hnone := hr ((h.single hb).1 a ha)
    unfold LaneState.releasePermit at hnone
    rw [if_neg (by rw [hb]; exact Bool.false_ne_true), if_pos ha] at hnone
    cases hnone

end LaneState.Backed

namespace SchedulerState

/-- Every permit of every lane is that of a job in flight. -/
def Permitted (s : SchedulerState) : Prop :=
  ∀ lane l, s.lanes.lookup lane = some l → l.Backed lane s.inFlight

/-- What keeps the permits and moves lanes. -/
theorem Permitted.moved {s s' : SchedulerState} (h : s.Permitted) (hi : s'.inFlight = s.inFlight) {live : JobId → Bool}
    (hl : ∀ lane, LaneMoved live (s.lanes.lookup lane) (s'.lanes.lookup lane)) : s'.Permitted := by
  intro lane l' hl'
  have hm := hl lane
  rw [hl'] at hm
  obtain ⟨l, hlane, -⟩ := hm.before
  rw [hlane] at hm
  rw [hi]
  exact (h lane l hlane).moved hm

theorem Permitted.stays {s s' : SchedulerState} (h : s.Permitted) (hs : Stays s s') : s'.Permitted :=
  h.moved hs.inFlight hs.lanes

theorem Permitted.entered {s : SchedulerState} (h : s.Permitted) (metadata : OutboundMeta) (options : EnqueueOptions)
    (slot : Slot) : (s.entered metadata options slot).Permitted := by
  intro lane l' hl'
  obtain ⟨l, hl, hm, hi, hc⟩ := entered_lane hl'
  rw [entered_inFlight]
  rcases hl with hl | ⟨-, rfl⟩
  · exact (h lane l hl).congr hm hi hc
  · exact .free hi hc

theorem Permitted.starts {s s' : SchedulerState} (h : s.Permitted) {id : JobId} (hs : Starts s id s') :
    s'.Permitted := by
  cases hs with
  | nothing => exact h
  | @freed permit lane l s' _ _ hl _ _ hq =>
    have hfree : Permitted { s with lanes := s.lanes.insert lane l.restarted } := by
      intro lane' l' hl'
      rw [Table.lookup_insert_if] at hl'
      split at hl'
      · cases hl'
        exact .free rfl rfl
      · exact h lane' l' hl'
    exact hfree.moved hq.inFlight hq.lanes

/-- A job of another lane has ended. -/
theorem Permitted.ended {s : SchedulerState} (h : s.Permitted) {id : JobId} {permit : InFlight}
    (hp : s.inFlight.lookup id = some permit) {lane : OutboundLaneKey} {l : LaneState}
    (hl : s.lanes.lookup lane = some l) (hr : permit.lane = some lane → l.releasePermit id = none) :
    l.Backed lane (s.inFlight.erase id) := by
  refine (h lane l hl).ended fun hid => hr ?_
  obtain ⟨permit', hp', hlane⟩ := hid
  rw [hp] at hp'
  cases hp'
  exact hlane

theorem Permitted.completes {s s' : SchedulerState} (h : s.Permitted) {id : JobId} (hs : Completes s id s') :
    s'.Permitted := by
  cases hs with
  | nothing => exact h
  | @done permit s₁ s' hp hf hm =>
    refine Permitted.moved (s := s₁) ?_ hm.inFlight hm.lanes
    intro lane l hl
    cases hf with
    | unlaned hlane =>
      refine h.ended hp hl fun heq => ?_
      rw [hlane] at heq
      cases heq
    | kept hlane hr =>
      refine h.ended hp hl fun heq => ?_
      rw [hlane] at heq
      cases heq
      exact hr l hl
    | @freed lane' l₀ l₁ hlane hl₀ hr =>
      rw [Table.lookup_insert_if] at hl
      split at hl
      · rename_i heq
        subst heq
        cases hl
        exact (h lane l₀ hl₀).released hr
      · rename_i hne
        refine h.ended hp hl fun heq => ?_
        rw [hlane] at heq
        cases heq
        exact absurd rfl hne

theorem Permitted.takePermit {s : SchedulerState} (h : s.Permitted) {id : JobId} {job : Job}
    (hnew : s.inFlight.lookup id = none) {lane : OutboundLaneKey} {l : LaneState}
    (hl : (s.takePermit id job).lanes.lookup lane = some l) :
    l.Backed lane (s.inFlight.insert id (permitOf job)) := by
  have hkeep : ∀ a, HoldsPermit s.inFlight lane a → HoldsPermit (s.inFlight.insert id (permitOf job)) lane a := by
    rintro a ⟨permit, hp, hlane⟩
    refine ⟨permit, ?_, hlane⟩
    rw [Table.lookup_insert_if, if_neg, hp]
    rintro rfl
    rw [hnew] at hp
    cases hp
  have hold : s.lanes.lookup lane = some l → l.Backed lane (s.inFlight.insert id (permitOf job)) :=
    fun hl => (h lane l hl).mono hkeep
  unfold SchedulerState.takePermit takeLaneHead at hl
  split at hl
  · rename_i lane' hjob
    split at hl
    · exact hold hl
    · rename_i l₀ hl₀
      dsimp only at hl
      split at hl
      · exact hold hl
      · rw [Table.lookup_insert_if] at hl
        split at hl
        · rename_i heq
          subst heq
          cases hl
          refine (h lane l₀ hl₀).taken hnew hkeep ⟨permitOf job, ?_, hjob⟩
          rw [Table.lookup_insert_if, if_pos rfl]
        · exact hold hl
  · exact hold hl

theorem Permitted.grants {s s' : SchedulerState} (h : s.Permitted) {id : JobId} {job : Job}
    (hnew : s.inFlight.lookup id = none) (hg : Grants s id job s') : s'.Permitted := by
  intro lane l' hl'
  have hm := hg.lanes lane
  rw [hl'] at hm
  obtain ⟨l, hl, -⟩ := hm.before
  rw [hl] at hm
  rw [hg.inFlight]
  exact (h.takePermit hnew hl).moved hm

end SchedulerState

theorem permits_run {ok : Sys → Action → Prop} {τ : List Event} {x : Sys} (hr : Run ok τ x) : x.sched.Permitted := by
  refine Machine.Run.induct (I := fun _ x => x.sched.Permitted) (fun x hi => ?_) (fun τ x a x' e hr h _ hs => ?_) hr
  · obtain ⟨-, limits, classLimits, aging, hok⟩ := hi
    rw [SchedulerState.newWithClassLimits_ok hok]
    intro lane l hl
    cases hl
  · have hlife := life_run hr
    cases step_change hs with
    | stays hst => exact h.stays hst
    | entered h₁ _ _ _ h₂ => exact ((h.stays h₁).entered _ _ _).stays h₂
    | replaced _ h₁ _ _ _ h₂ => exact ((h.moved h₁.inFlight h₁.lanes).entered _ _ _).stays h₂
    | cancelled _ h₁ => exact h.moved h₁.inFlight h₁.lanes
    | cancelledLate _ hst => exact h.stays hst
    | started hst => exact h.starts hst
    | completed hc => exact h.completes hc
    | @granted s₁ s₂ s' c job job₂ now hp hm hj hj₂ hg =>
      have hmoves := hp.quiet.toMoves.trans hm
      refine (h.moved hmoves.inFlight hmoves.lanes).grants ?_ hg
      -- a pending job is not in flight
      obtain ⟨job₀, hj₀, -⟩ := hmoves.job hj₂
      have hpending := (hlife.pending c.job).1 (SchedulerState.live_of hj₀)
      have hnot : x.sched.inFlight.contains c.job ≠ true := by
        rw [Ne, hlife.inFlight, hpending]
        simp
      rw [hmoves.inFlight]
      simpa [Table.contains] using hnot

/-! ## Coalescing entries -/

namespace SchedulerState

/-- Every coalescing entry is that of a pending job with its key. -/
def Coalesced (s : SchedulerState) : Prop :=
  ∀ key id, s.coalesce.lookup key = some id → (s.jobs.lookup id).map (·.coalesceKey) = some (some key)

/-- The entry of a job that keeps its key. -/
theorem Coalesced.of_jobs {s s' : SchedulerState} (h : s.Coalesced)
    (hc : ∀ key id, s'.coalesce.lookup key = some id → s.coalesce.lookup key = some id ∨
      ∃ job, s'.jobs.lookup id = some job ∧ job.coalesceKey = some key)
    (hj : ∀ key id, s'.coalesce.lookup key = some id → (s.jobs.lookup id).isSome →
      (s'.jobs.lookup id).map (·.coalesceKey) = (s.jobs.lookup id).map (·.coalesceKey)) : s'.Coalesced := by
  intro key id hl
  rcases hc key id hl with hold | ⟨job, hjob, hk⟩
  · have hmap := h key id hold
    rw [hj key id hl, hmap]
    rw [← Option.isSome_map, hmap]
    rfl
  · rw [hjob, Option.map_some, hk]

theorem Coalesced.of_core {s s' : SchedulerState} (h : s.Coalesced)
    (hc : ∀ key id, s'.coalesce.lookup key = some id → s.coalesce.lookup key = some id)
    (hj : ∀ id, (s'.jobs.lookup id).map Job.core = (s.jobs.lookup id).map Job.core) : s'.Coalesced := by
  refine h.of_jobs (fun key id hl => Or.inl (hc key id hl)) fun _ id _ _ => ?_
  have hcore := congrArg (Option.map Job.coalesceKey) (hj id)
  rw [Option.map_map, Option.map_map] at hcore
  exact hcore

theorem Coalesced.stays {s s' : SchedulerState} (h : s.Coalesced) (hs : Stays s s') : s'.Coalesced := by
  refine h.of_jobs hs.coalesce fun _ id _ _ => ?_
  have hslot := congrArg (Option.map (·.2.2.1)) (hs.jobs id)
  rw [Option.map_map, Option.map_map] at hslot
  exact hslot

theorem Coalesced.entered {s : SchedulerState} (h : s.Coalesced) (hfresh : s.jobs.lookup s.nextJobId = none)
    (metadata : OutboundMeta) (options : EnqueueOptions) (slot : Slot) :
    (s.entered metadata options slot).Coalesced := by
  have hc : (s.entered metadata options slot).coalesce = s.coalesce := by
    obtain ⟨jobs, lanes, p, he⟩ := s.entered_eq metadata options slot
    rw [he]
  refine h.of_jobs (fun key id hl => Or.inl (hc ▸ hl)) fun _ id _ hid => ?_
  rw [entered_jobs (·.coalesceKey) (fun _ _ => rfl), if_neg]
  rintro rfl
  rw [hfresh] at hid
  cases hid

theorem Coalesced.starts {s s' : SchedulerState} (h : s.Coalesced) {id : JobId} (hs : Starts s id s') :
    s'.Coalesced := by
  cases hs with
  | nothing => exact h
  | freed _ _ _ _ _ hq => exact h.of_core (fun key id hl => hq.coalesce ▸ hl) hq.jobs

theorem Coalesced.completes {s s' : SchedulerState} (h : s.Coalesced) {id : JobId} (hs : Completes s id s') :
    s'.Coalesced := by
  cases hs with
  | nothing => exact h
  | @done permit s₁ _ _ hf hm =>
    have h₁ : s₁.Coalesced := by cases hf <;> exact h
    exact h₁.of_core (fun key id hl => hm.coalesce ▸ hl) hm.jobs

/-- A job leaves with its entry. -/
theorem Coalesced.without {s s' : SchedulerState} (h : s.Coalesced) {id : JobId}
    (hc : ∀ key a, s'.coalesce.lookup key = some a → s.coalesce.lookup key = some a)
    (hu : ∀ job key, s.jobs.lookup id = some job → job.coalesceKey = some key → s'.coalesce.lookup key ≠ some id)
    (hj : ∀ a, (s'.jobs.lookup a).map Job.core = if a = id then none else (s.jobs.lookup a).map Job.core) :
    s'.Coalesced := by
  refine h.of_jobs (fun key a hl => Or.inl (hc key a hl)) fun key a hl _ => ?_
  have hcore := congrArg (Option.map Job.coalesceKey) (hj a)
  rw [if_neg, Option.map_map, Option.map_map] at hcore
  · exact hcore
  · rintro rfl
    have hkey := h key a (hc key a hl)
    rw [Option.map_eq_some_iff] at hkey
    obtain ⟨job, hjob, hk⟩ := hkey
    exact hu job key hjob hk hl

end SchedulerState

theorem coalesced_run {ok : Sys → Action → Prop} {τ : List Event} {x : Sys} (hr : Run ok τ x) : x.sched.Coalesced := by
  refine Machine.Run.induct (I := fun _ x => x.sched.Coalesced) (fun x hi => ?_) (fun τ x a x' e hr h _ hs => ?_) hr
  · obtain ⟨-, limits, classLimits, aging, hok⟩ := hi
    rw [SchedulerState.newWithClassLimits_ok hok]
    intro key id hl
    cases hl
  · have hlife := life_run hr
    have hfresh : x.sched.jobs.lookup x.sched.nextJobId = none := by
      rw [← SchedulerState.not_live_iff, ← Bool.not_eq_true, hlife.pending, hlife.fresh]
      simp
    have hnone {s₁ : SchedulerState} (hn : s₁.nextJobId = x.sched.nextJobId)
        (hl : ∀ id, s₁.live id = true → x.sched.live id = true) : s₁.jobs.lookup s₁.nextJobId = none := by
      rw [hn, ← SchedulerState.not_live_iff, ← Bool.not_eq_true]
      exact fun hlive => SchedulerState.live_iff.1 (hl _ hlive) |>.elim fun job hj => by rw [hfresh] at hj; cases hj
    cases step_change hs with
    | stays hst => exact h.stays hst
    | entered h₁ _ _ _ h₂ =>
      exact ((h.stays h₁).entered (hnone h₁.nextJobId fun id hid => h₁.live_eq ▸ hid) _ _ _).stays h₂
    | replaced _ h₁ _ _ _ h₂ =>
      exact ((h.without h₁.coalesce h₁.uncoalesced h₁.jobs).entered
        (hnone h₁.nextJobId fun id hid => ((h₁.live_iff id).1 hid).2) _ _ _).stays h₂
    | cancelled _ h₁ => exact h.without h₁.coalesce h₁.uncoalesced h₁.jobs
    | cancelledLate _ hst => exact h.stays hst
    | started hst => exact h.starts hst
    | completed hc => exact h.completes hc
    | @granted s₁ s₂ s' c job job₂ now hp hm hj hj₂ hg =>
      have hmoves := hp.quiet.toMoves.trans hm
      exact (h.stays (.of_moves hmoves)).without hg.coalesce hg.uncoalesced hg.jobs

/-! ## A pass without jobs -/

/-- What a pass without jobs leaves of a lane as it was. -/
def LaneState.mark (l : LaneState) : OutboundLaneMode × Option JobId × Nat × Nat :=
  (l.mode, l.inFlight, l.inFlightCount, l.candidateEffective)

namespace SchedulerState

/-- No job is pending, and every lane is free. -/
structure Asleep (s : SchedulerState) : Prop where
  jobs : ∀ id, s.jobs.lookup id = none
  lanes : ∀ lane l, s.lanes.lookup lane = some l → l.hasCapacity = true ∧ l.free = true

/-- What no part of a pass without jobs touches. -/
def settled (s : SchedulerState) :=
  (s.jobs, s.coalesce, s.penalties, s.chatWindowSets, s.classChatWindowSets)

/-- What the promotions do when there is no job: they drop entries. -/
structure Idles (s s' : SchedulerState) : Prop where
  settled : s'.settled = s.settled
  candidates : s'.candidates = s.candidates
  lanes : ∀ lane, (s'.lanes.lookup lane).map LaneState.mark = (s.lanes.lookup lane).map LaneState.mark

namespace Idles

variable {s s' s'' : SchedulerState}

theorem refl (s : SchedulerState) : Idles s s := ⟨rfl, rfl, fun _ => rfl⟩

theorem trans (h : Idles s s') (h' : Idles s' s'') : Idles s s'' where
  settled := h'.settled.trans h.settled
  candidates := h'.candidates.trans h.candidates
  lanes lane := (h'.lanes lane).trans (h.lanes lane)

theorem of_eq (hs : s'.settled = s.settled) (hc : s'.candidates = s.candidates) (hl : s'.lanes = s.lanes) :
    Idles s s' := ⟨hs, hc, fun _ => by rw [hl]⟩

theorem asleep (h : Idles s s') (ha : s.Asleep) : s'.Asleep where
  jobs id := by
    have hj : s'.jobs = s.jobs := congrArg (·.1) h.settled
    rw [hj]
    exact ha.jobs id
  lanes lane l' hl' := by
    have hm := h.lanes lane
    rw [hl', Option.map_some, eq_comm, Option.map_eq_some_iff] at hm
    obtain ⟨l, hl, hmark⟩ := hm
    obtain ⟨hcap, hfree⟩ := ha.lanes lane l hl
    have hmode : l'.mode = l.mode := (congrArg (·.1) hmark).symm
    have hin : l'.inFlight = l.inFlight := (congrArg (·.2.1) hmark).symm
    have hcount : l'.inFlightCount = l.inFlightCount := (congrArg (·.2.2.1) hmark).symm
    exact ⟨by rw [LaneMoved.hasCapacity_eq hmode hcount, hcap], by rw [LaneMoved.free_eq hmode hin hcount, hfree]⟩

/-- A lane after the promotions was there before. -/
theorem lane (h : Idles s s') {lane : OutboundLaneKey} {l' : LaneState} (hl : s'.lanes.lookup lane = some l') :
    ∃ l, s.lanes.lookup lane = some l ∧ l'.candidateEffective = l.candidateEffective := by
  have hm := h.lanes lane
  rw [hl, Option.map_some, eq_comm, Option.map_eq_some_iff] at hm
  obtain ⟨l, hl, hmark⟩ := hm
  exact ⟨l, hl, (congrArg (·.2.2.2) hmark).symm⟩

/-- A lane is still there after the promotions. -/
theorem lane' (h : Idles s s') {lane : OutboundLaneKey} {l : LaneState} (hl : s.lanes.lookup lane = some l) :
    ∃ l', s'.lanes.lookup lane = some l' ∧ l'.candidateEffective = l.candidateEffective := by
  have hm := h.lanes lane
  rw [hl, Option.map_some, Option.map_eq_some_iff] at hm
  obtain ⟨l', hl', hmark⟩ := hm
  exact ⟨l', hl', congrArg (·.2.2.2) hmark⟩

end Idles

namespace Asleep

variable {s : SchedulerState}

theorem live (h : s.Asleep) (id : JobId) : s.live id = false := not_live_iff.2 (h.jobs id)

theorem anyLive (h : s.Asleep) (l : LaneState) : l.anyLive s.live = false := by
  simp [LaneState.anyLive, h.live]

theorem referenceAlive (h : s.Asleep) (r : CandidateRef) : s.referenceAlive r = false := by
  cases r with
  | job id => exact h.live id
  | lane key => simp [SchedulerState.referenceAlive, h.anyLive]

theorem blockedNodeAlive (h : s.Asleep) (n : BlockedJob) : s.blockedNodeAlive n = false := by
  unfold SchedulerState.blockedNodeAlive
  cases n.reference with
  | job id => simp [h.jobs]
  | lane key => simp [h.anyLive]

theorem head (h : s.Asleep) (o : Option LaneEntry) : (o.bind fun head => s.jobs.lookup head.job) = none := by
  cases o with
  | none => rfl
  | some head => exact h.jobs head.job

theorem drained (h : s.Asleep) (l : LaneState) : (l.drainDead s.live).pending.entries = [] := by
  simp [LaneState.drainDead, Heap.dropWhile, h.live]

/-! ### The promotions -/

theorem fireAging (h : s.Asleep) (r : CandidateRef) (now : Nat) : s.fireAging r now = s := by
  unfold SchedulerState.fireAging
  cases r with
  | job id => simp only [h.jobs]
  | lane lane =>
    dsimp only
    cases s.lanes.lookup lane with
    | none => rfl
    | some l => simp only [h.head]

theorem promoteAging (now : Nat) : ∀ {fuel : Nat} {s : SchedulerState}, s.Asleep → s.agingEvents.len < fuel →
    ∃ events, promoteAging now fuel s = some { s with agingEvents := events }
  | 0, _, _, hf => absurd hf (Nat.not_lt_zero _)
  | fuel + 1, s, h, hf => by
    unfold SchedulerState.promoteAging
    cases hp : s.agingEvents.peek with
    | none => exact ⟨s.agingEvents, rfl⟩
    | some top =>
      dsimp only
      split
      · exact ⟨s.agingEvents, rfl⟩
      · have h₁ : Asleep { s with agingEvents := s.agingEvents.pop } := ⟨h.jobs, h.lanes⟩
        have hlen := Heap.len_pop hp
        rw [h₁.fireAging]
        exact promoteAging now h₁ (by
          show s.agingEvents.pop.len < fuel
          omega)

theorem promoteDelayedLoop {now : Nat} : ∀ {n : Nat} {s : SchedulerState}, s.Asleep →
    Idles s (promoteDelayedLoop now n s) ∧ (promoteDelayedLoop now n s).reservations = s.reservations
  | 0, s, _ => ⟨.refl s, rfl⟩
  | n + 1, s, h => by
    unfold SchedulerState.promoteDelayedLoop
    split
    · exact ⟨.refl s, rfl⟩
    · rename_i top _
      split
      · exact ⟨.refl s, rfl⟩
      · have hwake : Idles s ({ s with delayed := s.delayed.pop }.wakeDelayed top.job now) ∧
            ({ s with delayed := s.delayed.pop }.wakeDelayed top.job now).reservations = s.reservations := by
          unfold SchedulerState.wakeDelayed
          simp only [h.jobs]
          exact ⟨.of_eq rfl rfl rfl, rfl⟩
        obtain ⟨h₂, hr⟩ := promoteDelayedLoop (n := n) (hwake.1.asleep h)
        exact ⟨hwake.1.trans h₂, hr.trans hwake.2⟩

theorem wakeBlocked (h : s.Asleep) (n : BlockedJob) (now : Nat) :
    Idles s (s.wakeBlocked n now) ∧ (s.wakeBlocked n now).reservations = s.reservations := by
  have hdrop : Idles s s.dropStaleBlocked ∧ s.dropStaleBlocked.reservations = s.reservations :=
    ⟨.of_eq rfl rfl rfl, rfl⟩
  unfold SchedulerState.wakeBlocked
  cases n.reference with
  | job id => simpa only [h.jobs] using hdrop
  | lane lane =>
    dsimp only
    cases hl : s.lanes.lookup lane with
    | none => exact hdrop
    | some l =>
      dsimp only
      split
      · exact hdrop
      · split
        · exact hdrop
        · simp only [h.anyLive, Bool.not_false, if_true]
          refine ⟨⟨rfl, rfl, fun a => ?_⟩, rfl⟩
          exact Table.view_insert hl (show LaneState.mark { l with inBlockedHeap := false } = l.mark from rfl) a

theorem promoteBlockedLoop {now : Nat} : ∀ {n : Nat} {s : SchedulerState}, s.Asleep →
    Idles s (promoteBlockedLoop now n s) ∧ (promoteBlockedLoop now n s).reservations = s.reservations
  | 0, s, _ => ⟨.refl s, rfl⟩
  | n + 1, s, h => by
    unfold SchedulerState.promoteBlockedLoop
    split
    · exact ⟨.refl s, rfl⟩
    · rename_i top _
      split
      · exact ⟨.refl s, rfl⟩
      · have h₁ : Idles s { s with blocked := s.blocked.pop } := .of_eq rfl rfl rfl
        obtain ⟨h₂, hr₂⟩ := (h₁.asleep h).wakeBlocked top now
        obtain ⟨h₃, hr₃⟩ := promoteBlockedLoop (n := n) (h₂.asleep (h₁.asleep h))
        exact ⟨(h₁.trans h₂).trans h₃, hr₃.trans hr₂⟩

/-- A hold that has ended is dropped. -/
theorem promoteReservation (h : s.Asleep) (window : WindowRef) (now : Nat) :
    Idles s (s.promoteReservation window now) ∧ ∀ w, (s.promoteReservation window now).reservations.lookup w =
      if w = window then none else s.reservations.lookup w := by
  unfold SchedulerState.promoteReservation
  cases hr : s.reservations.lookup window with
  | none =>
    refine ⟨.refl s, fun w => ?_⟩
    show s.reservations.lookup w = if w = window then none else s.reservations.lookup w
    split
    · rename_i hw
      rw [hw, hr]
    · rfl
  | some r =>
    have hdead : r.queue.dropWhile (fun reference => !s.referenceAlive reference) = [] := by
      simp [h.referenceAlive]
    simp only [hdead]
    exact ⟨.of_eq rfl rfl rfl, fun w => Table.lookup_erase_if _ _ _⟩

theorem promoteReservations (now : Nat) : ∀ (order : List WindowRef) {s : SchedulerState}, s.Asleep →
    Idles s (s.promoteReservations order now) ∧ ∀ w, (s.promoteReservations order now).reservations.lookup w =
      if w ∈ order then none else s.reservations.lookup w
  | [], s, _ => ⟨.refl s, fun w => by simp [SchedulerState.promoteReservations]⟩
  | window :: order, s, h => by
    obtain ⟨h₁, hr₁⟩ := h.promoteReservation window now
    obtain ⟨h₂, hr₂⟩ := promoteReservations now order (h₁.asleep h)
    refine ⟨h₁.trans h₂, fun w => (hr₂ w).trans ?_⟩
    rw [hr₁]
    by_cases hw : w = window <;> by_cases hm : w ∈ order <;> simp [hw, hm]

theorem beginPass (h : s.Asleep) {order : List WindowRef} {fuel now : Nat} (ho : order.Perm (s.expiredReservations now))
    (hf : s.agingEvents.len < fuel) : ∃ s', s.beginPass order fuel now = some s' ∧ Idles s s' ∧
      ∀ w r, s'.reservations.lookup w = some r ↔ s.reservations.lookup w = some r ∧ now < r.deadline := by
  obtain ⟨events, h₁⟩ := h.promoteAging now hf
  let s₁ : SchedulerState := { s with agingEvents := events }
  have hi₁ : Idles s s₁ := .of_eq rfl rfl rfl
  obtain ⟨hi₂, hr₂⟩ : Idles s₁ (s₁.promoteDelayed now) ∧ (s₁.promoteDelayed now).reservations = s₁.reservations :=
    promoteDelayedLoop (hi₁.asleep h)
  have hs₂ := hi₂.asleep (hi₁.asleep h)
  obtain ⟨hi₃, hr₃⟩ : Idles (s₁.promoteDelayed now) ((s₁.promoteDelayed now).promoteBlocked now) ∧
      ((s₁.promoteDelayed now).promoteBlocked now).reservations = (s₁.promoteDelayed now).reservations :=
    promoteBlockedLoop hs₂
  have hawaken : s.awaken fuel now = some ((s₁.promoteDelayed now).promoteBlocked now) := by
    rw [awaken, h₁, Option.map_some]
  generalize (s₁.promoteDelayed now).promoteBlocked now = s₃ at hi₃ hr₃ hawaken
  have hres : s₃.reservations = s.reservations := hr₃.trans hr₂
  have hexpired : s₃.expiredReservations now = s.expiredReservations now := by
    rw [expiredReservations, hres, expiredReservations]
  obtain ⟨hi₄, hr₄⟩ := (hi₃.asleep hs₂).promoteReservations now order
  have hi₅ : Idles (s₃.promoteReservations order now) (s₃.promoteReservations order now).compactLanesIfNeeded := by
    refine ⟨rfl, rfl, fun lane => ?_⟩
    simp only [compactLanesIfNeeded, Table.lookup_mapValues, Option.map_map]
    congr 1
    funext l
    simp only [Function.comp_apply]
    split <;> rfl
  refine ⟨(s₃.promoteReservations order now).compactLanesIfNeeded, ?_,
    (((hi₁.trans hi₂).trans hi₃).trans hi₄).trans hi₅, fun w r => ?_⟩
  · rw [SchedulerState.beginPass, hawaken, Option.bind_some, hexpired, if_pos ho]
  · have hl := hr₄ w
    have hm : w ∈ order ↔ ∃ r, s.reservations.lookup w = some r ∧ decide (r.deadline ≤ now) = true := by
      rw [ho.mem_iff, expiredReservations, Table.mem_keysWhere]
    rw [hres] at hl
    show (s₃.promoteReservations order now).reservations.lookup w = some r ↔ _
    rw [hl]
    split
    · rename_i hw
      obtain ⟨r', hr', hle⟩ := hm.1 hw
      refine ⟨fun hno => (by cases hno), fun hr => ?_⟩
      obtain ⟨hr, hlt⟩ := hr
      rw [hr'] at hr
      cases hr
      exact absurd (of_decide_eq_true hle) (Nat.not_le_of_lt hlt)
    · rename_i hw
      refine ⟨fun hr => ⟨hr, Nat.lt_of_not_le fun hle => hw (hm.2 ⟨r, hr, decide_eq_true hle⟩)⟩, fun hr => hr.1⟩

/-! ### The loop -/

/-- An entry of a lane is passed over; the lane goes with it unless the entry is
out of date. -/
theorem popLane (h : s.Asleep) (key : CandidateKey) (lane : OutboundLaneKey) (now : Nat) :
    ∃ s', s.popLane key lane now = .skipped s' ∧ s'.settled = s.settled ∧ s'.reservations = s.reservations ∧
      s'.candidates = s.candidates ∧ ∀ a l, s'.lanes.lookup a = some l ↔
        s.lanes.lookup a = some l ∧ (lane = a → key.effective < l.candidateEffective) := by
  cases hl : s.lanes.lookup lane with
  | none =>
    refine ⟨s.countStale, by simp only [SchedulerState.popLane, hl], rfl, rfl, rfl, fun a l => ?_⟩
    refine ⟨fun hla => ⟨hla, fun he => ?_⟩, fun hla => hla.1⟩
    subst he
    change s.lanes.lookup lane = some l at hla
    rw [hl] at hla
    cases hla
  | some l₀ =>
    by_cases hlt : key.effective < l₀.candidateEffective
    · refine ⟨s.countStale, by simp only [SchedulerState.popLane, hl, if_pos hlt], rfl, rfl, rfl, fun a l => ?_⟩
      refine ⟨fun hla => ⟨hla, fun he => ?_⟩, fun hla => hla.1⟩
      subst he
      change s.lanes.lookup lane = some l at hla
      rw [hl] at hla
      cases hla
      exact hlt
    · obtain ⟨hcap, hfree⟩ := h.lanes lane l₀ hl
      have hempty : ({ l₀.drainDead s.live with inCandidateHeap := false } : LaneState).isIdle = true :=
        LaneState.isIdle_iff.2 ⟨h.drained l₀, hfree⟩
      refine ⟨_, by
        simp only [SchedulerState.popLane, hl, if_neg hlt, hcap, Bool.not_true, Bool.false_eq_true, if_false]
        simp only [show ({ l₀.drainDead s.live with inCandidateHeap := false } : LaneState).pending.peek = none by
          rw [Heap.peek]
          exact List.head?_eq_none_iff.2 (h.drained l₀)]
        rfl, ?_⟩
      simp only [dropLaneIfIdle, Table.lookup_insert_if, if_true, Option.any_some, hempty]
      refine ⟨rfl, rfl, rfl, fun a l => ?_⟩
      rw [Table.lookup_erase_if, Table.lookup_insert_if]
      by_cases ha : a = lane
      · subst ha
        simp only [if_true]
        refine ⟨fun hno => (by cases hno), fun hla => ?_⟩
        rw [hl] at hla
        obtain ⟨hsame, hkey⟩ := hla
        cases hsame
        exact absurd (hkey trivial) hlt
      · simp only [if_neg ha]
        exact ⟨fun hla => ⟨hla, fun he => absurd he.symm ha⟩, fun hla => hla.1⟩

/-- An entry is passed over. -/
theorem popTurn (h : s.Asleep) {key : CandidateKey} (hp : s.candidates.peek = some key) (now : Nat) :
    ∃ s', s.popTurn now = some (.skipped s') ∧ s'.settled = s.settled ∧ s'.reservations = s.reservations ∧
      s'.candidates = s.candidates.pop ∧ ∀ lane l, s'.lanes.lookup lane = some l ↔
        s.lanes.lookup lane = some l ∧ (key.reference = .lane lane → key.effective < l.candidateEffective) := by
  have h₁ : Asleep { s with candidates := s.candidates.pop } := ⟨h.jobs, h.lanes⟩
  unfold SchedulerState.popTurn
  rw [hp]
  dsimp only
  cases hk : key.reference with
  | job id =>
    refine ⟨countStale { s with candidates := s.candidates.pop }, by simp only [popJob, h.jobs], rfl, rfl, rfl,
      fun lane l => ?_⟩
    exact ⟨fun hl => ⟨hl, fun he => by cases he⟩, fun hl => hl.1⟩
  | lane lane₀ =>
    obtain ⟨s', hs', hset, hres, hcand, hlanes⟩ := h₁.popLane key lane₀ now
    refine ⟨s', congrArg some hs', hset, hres, hcand, fun lane l => (hlanes lane l).trans ?_⟩
    exact and_congr_right fun _ => imp_congr_left (by simp)

/-- The loop ends, grants nothing and takes away the lanes that have an entry. -/
theorem grantLoop (now : Nat) : ∀ (fuel : Nat) {s : SchedulerState}, s.Asleep → s.candidates.len < fuel →
    ∃ s', grantLoop now fuel s = some (s', []) ∧ s'.settled = s.settled ∧ s'.reservations = s.reservations ∧
      ∀ lane l, s'.lanes.lookup lane = some l ↔ s.lanes.lookup lane = some l ∧
        ∀ key ∈ s.candidates, key.reference = .lane lane → key.effective < l.candidateEffective
  | 0, _, _, hf => absurd hf (Nat.not_lt_zero _)
  | fuel + 1, s, h, hf => by
    cases hp : s.candidates.peek with
    | none =>
      refine ⟨s, by simp only [SchedulerState.grantLoop, SchedulerState.popTurn, hp], rfl, rfl, fun lane l => ?_⟩
      exact ⟨fun hl => ⟨hl, fun key hk => absurd hk (Heap.peek_none hp key)⟩, fun hl => hl.1⟩
    | some key =>
      obtain ⟨s₁, hs₁, hset₁, hres₁, hcand₁, hlanes₁⟩ := h.popTurn hp now
      have h₁ : s₁.Asleep := by
        have hj : s₁.jobs = s.jobs := congrArg (·.1) hset₁
        exact ⟨fun id => hj ▸ h.jobs id, fun lane l hl => h.lanes lane l ((hlanes₁ lane l).1 hl).1⟩
      have hlen := Heap.len_pop hp
      obtain ⟨s', hs', hset, hres, hlanes⟩ := grantLoop now fuel h₁ (by rw [hcand₁]; omega)
      refine ⟨s', by simp only [SchedulerState.grantLoop, hs₁, hs'], hset.trans hset₁, hres.trans hres₁,
        fun lane l => ?_⟩
      rw [hlanes, hlanes₁, hcand₁, and_assoc]
      refine and_congr_right fun _ => ⟨fun ⟨hhead, hrest⟩ k hk => ?_, fun hall => ⟨hall key (Heap.peek_mem hp), ?_⟩⟩
      · rcases Heap.mem_pop_or hp hk with rfl | hk
        · exact hhead
        · exact hrest k hk
      · exact fun k hk => hall k (Heap.mem_of_mem_pop hk)

end Asleep

/-! ## What is left -/

/-- All the rate windows. -/
def windowSets (s : SchedulerState) : List WindowSet :=
  s.globalWindows :: s.classGlobalWindows.values ++ s.chatWindowSets.values ++ s.classChatWindowSets.values

/-- Nothing is pending or in flight, and every penalty and every debit has run out. -/
structure Quiescent (s : SchedulerState) (now : Nat) : Prop where
  jobs : s.jobs = ∅
  inFlight : s.inFlight = ∅
  penalties : ∀ deadline ∈ s.penalties.values, deadline ≤ now
  debits : ∀ set ∈ s.windowSets, ∀ w ∈ set.windows, ∀ e ∈ w.history, RollingWindow.expired w.window now e = true

instance (s : SchedulerState) (now : Nat) : Decidable (s.Quiescent now) :=
  decidable_of_iff (s.jobs.size = 0 ∧ s.inFlight.size = 0 ∧ (∀ deadline ∈ s.penalties.values, deadline ≤ now) ∧
      ∀ set ∈ s.windowSets, ∀ w ∈ set.windows, ∀ e ∈ w.history, RollingWindow.expired w.window now e = true)
    ⟨fun h => ⟨Table.size_eq_zero_iff.1 h.1, Table.size_eq_zero_iff.1 h.2.1, h.2.2.1, h.2.2.2⟩,
      fun h => ⟨Table.size_eq_zero_iff.2 h.jobs, Table.size_eq_zero_iff.2 h.inFlight, h.penalties, h.debits⟩⟩

/-- Nothing of a lane, a chat, a hold or a job is left, and nothing is waited for. -/
structure Swept (s : SchedulerState) (wakeup : SchedulerWakeup) : Prop where
  lanes : s.lanes = ∅
  coalesce : s.coalesce = ∅
  reservations : s.reservations = ∅
  penalties : s.penalties = ∅
  chats : s.chatWindowSets = ∅
  classChats : s.classChatWindowSets = ∅
  delayed : s.delayed.entries = []
  blocked : s.blocked.entries = []
  wakeup : wakeup = .externalEvent

/-- What a pass at `now` needs to find for it to leave nothing. -/
structure Sweepable (s : SchedulerState) (now : Nat) : Prop where
  /-- Every lane has an entry in the candidate heap that is not out of date. -/
  lanes : ∀ lane l, s.lanes.lookup lane = some l →
    ∃ key ∈ s.candidates, key.reference = .lane lane ∧ l.candidateEffective ≤ key.effective
  /-- Every hold has ended. -/
  holds : ∀ window r, s.reservations.lookup window = some r → r.deadline ≤ now
  /-- No candidate has met a limit of its class in its chat. -/
  classChats : s.classChatWindowSets = ∅

theorem keepIfBusy_expired {now : Nat} {set : WindowSet}
    (h : ∀ w ∈ set.windows, ∀ e ∈ w.history, RollingWindow.expired w.window now e = true) :
    keepIfBusy now set = none := by
  have hidle : ∀ windows : List RollingWindow, (∀ w ∈ windows, ∀ e ∈ w.history, RollingWindow.expired w.window now e = true) →
      (WindowSet.allMut (·.isIdle now) windows).2 = true := by
    intro windows
    induction windows with
    | nil => exact fun _ => rfl
    | cons w ws ih =>
      intro hall
      have hw : (w.prune now).history = [] := by
        simp only [RollingWindow.prune, List.dropWhile_eq_nil_iff]
        exact hall w List.mem_cons_self
      have hi : w.isIdle now = (w.prune now, true) := by rw [RollingWindow.isIdle, hw]; rfl
      rw [WindowSet.allMut, hi]
      exact ih fun v hv => hall v (List.mem_cons_of_mem _ hv)
  rw [keepIfBusy, if_pos]
  exact hidle set.windows h

/-- A lane that has all its permits is free. -/
theorem Permitted.idle {s : SchedulerState} (h : s.Permitted) (hi : s.inFlight = ∅) {lane : OutboundLaneKey}
    {l : LaneState} (hl : s.lanes.lookup lane = some l) : l.hasCapacity = true ∧ l.free = true := by
  have hnone : ∀ id, ¬ HoldsPermit s.inFlight lane id := by
    rintro id ⟨permit, hp, -⟩
    rw [hi] at hp
    cases hp
  have hb := h lane l hl
  unfold LaneState.hasCapacity LaneState.free
  cases hm : l.mode with
  | boundedOrderedStart max =>
    obtain ⟨holders, -, hlen, hh⟩ := hb.bounded (by rw [hm]; rfl)
    have hc : l.inFlightCount = 0 := by
      rw [← hlen, List.length_eq_zero_iff, List.eq_nil_iff_forall_not_mem]
      exact fun id hid => hnone id (hh id hid)
    rw [hc]
    exact ⟨decide_eq_true max.2, rfl⟩
  | serial | orderedStart =>
    obtain ⟨hheld, hcount⟩ := hb.single (by rw [hm]; rfl)
    have hin : l.inFlight = none := by
      cases ho : l.inFlight with
      | none => rfl
      | some id => exact absurd (hheld id ho) (hnone id)
    rw [hin, hcount hin]
    exact ⟨rfl, rfl⟩

/-- After the end of a pass and the look at the next wake-up, what is left are the
lanes, the holds and the class windows that the pass has not taken away. -/
theorem Asleep.swept_iff {s : SchedulerState} (h : s.Asleep) {now : Nat} (hc : s.coalesce = ∅)
    (hp : ∀ deadline ∈ s.penalties.values, deadline ≤ now)
    (hw : ∀ set ∈ s.chatWindowSets.values, ∀ w ∈ set.windows, ∀ e ∈ w.history,
      RollingWindow.expired w.window now e = true) :
    Swept ((s.endPass now).nextDeadline now).1 ((s.endPass now).nextDeadline now).2 ↔
      s.lanes = ∅ ∧ s.reservations = ∅ ∧ s.classChatWindowSets = ∅ := by
  have hs : Asleep (s.endPass now) := ⟨h.jobs, h.lanes⟩
  have hfirst : ((s.endPass now).nextDeadline now).1 = (s.endPass now).dropDeadTops := by
    unfold nextDeadline
    dsimp only
    split <;> rfl
  have hres : (s.endPass now).dropDeadTops.reservations = ∅ ↔ s.reservations = ∅ := by
    rw [Table.eq_empty_iff, Table.eq_empty_iff]
    refine forall_congr' fun w => ?_
    show ((s.reservations.mapValues _).lookup w) = none ↔ _
    rw [Table.lookup_mapValues, Option.map_eq_none_iff]
  rw [hfirst]
  refine ⟨fun hswept => ⟨hswept.lanes, hres.1 hswept.reservations, hswept.classChats⟩,
    fun ⟨hlanes, hholds, hclass⟩ => ⟨hlanes, hc, hres.2 hholds, ?_, ?_, hclass, ?_, ?_, ?_⟩⟩
  · refine Table.eq_empty_iff.2 fun key => ?_
    show ((s.penalties.filterMap _).lookup key) = none
    rw [Table.lookup_filterMap, Option.bind_eq_none_iff]
    exact fun deadline hd => if_neg (Nat.not_lt_of_le (hp deadline (Table.mem_values.2 ⟨key, hd⟩)))
  · refine Table.eq_empty_iff.2 fun key => ?_
    show ((s.chatWindowSets.filterMap _).lookup key) = none
    rw [Table.lookup_filterMap, Option.bind_eq_none_iff]
    exact fun set hl => keepIfBusy_expired (hw set (Table.mem_values.2 ⟨key, hl⟩))
  · simp [dropDeadTops, Heap.dropWhile, hs.live]
  · simp [dropDeadTops, Heap.dropWhile, hs.blockedNodeAlive]
  · have haging : (s.endPass now).dropDeadTops.agingEvents.entries = [] := by
      have hactive : ∀ r, (s.endPass now).agingActive r = false := by
        intro r
        cases r with
        | job id => simp [agingActive, hs.jobs]
        | lane key =>
          have hl : (s.endPass now).lanes = ∅ := hlanes
          simp only [agingActive, hl]
          rfl
      simp [dropDeadTops, Heap.dropWhile, hactive]
    have hdelayed : (s.endPass now).dropDeadTops.delayed.entries = [] := by
      simp [dropDeadTops, Heap.dropWhile, hs.live]
    have hblocked : (s.endPass now).dropDeadTops.blocked.entries = [] := by
      simp [dropDeadTops, Heap.dropWhile, hs.blockedNodeAlive]
    have hnone : (s.endPass now).dropDeadTops.deadlines now = [] := by
      simp only [deadlines, Heap.peek, haging, hdelayed, hblocked, hres.2 hholds]
      rfl
    unfold nextDeadline
    dsimp only
    rw [hnone]
    rfl

end SchedulerState

open SchedulerState in
/-- Once all is quiet, a pass grants nothing, and it and a look at the next wake-up
leave nothing exactly when every lane had a candidate entry, every hold had ended
and no candidate had ever met a class limit of a chat. -/
theorem residue_iff {τ : List Event} {x : Sys} (hr : Run Machine.anything τ x) {now : Nat}
    (hq : x.sched.Quiescent now) {order : List WindowRef} (ho : order.Perm (x.sched.expiredReservations now))
    {fuel : Nat} (haging : x.sched.agingEvents.len < fuel) (hkeys : x.sched.candidates.len < fuel) :
    ∃ s, x.sched.grantReady order fuel now = some (s, []) ∧
      (Swept (s.nextDeadline now).1 (s.nextDeadline now).2 ↔ x.sched.Sweepable now) := by
  have h : x.sched.Asleep :=
    ⟨Table.eq_empty_iff.1 hq.jobs, fun _ _ hl => (permits_run hr).idle hq.inFlight hl⟩
  have hcoalesce : x.sched.coalesce = ∅ := by
    refine Table.eq_empty_iff.2 fun key => ?_
    cases hl : x.sched.coalesce.lookup key with
    | none => rfl
    | some id =>
      have hmap := coalesced_run hr key id hl
      rw [h.jobs] at hmap
      cases hmap
  obtain ⟨s₁, hbegin, hi, hholds⟩ := h.beginPass ho haging
  have h₁ := hi.asleep h
  obtain ⟨s₂, hloop, hset, hres, hlanes⟩ := h₁.grantLoop now fuel (by rw [hi.candidates]; exact hkeys)
  have hsettled : s₂.settled = x.sched.settled := hset.trans hi.settled
  have hjobs : s₂.jobs = x.sched.jobs := congrArg (·.1) hsettled
  have hcoal : s₂.coalesce = x.sched.coalesce := congrArg (·.2.1) hsettled
  have hpen : s₂.penalties = x.sched.penalties := congrArg (·.2.2.1) hsettled
  have hchats : s₂.chatWindowSets = x.sched.chatWindowSets := congrArg (·.2.2.2.1) hsettled
  have hclass : s₂.classChatWindowSets = x.sched.classChatWindowSets := congrArg (·.2.2.2.2) hsettled
  have h₂ : s₂.Asleep := ⟨fun id => hjobs ▸ h.jobs id, fun lane l hl => h₁.lanes lane l ((hlanes lane l).1 hl).1⟩
  refine ⟨s₂.endPass now, ?_, ?_⟩
  · simp only [grantReady, hbegin, hloop, Option.bind_eq_bind, Option.bind_some]
    rfl
  · rw [h₂.swept_iff (hcoal.trans hcoalesce) (hpen ▸ hq.penalties)
      (fun set hm => hq.debits set (by rw [hchats] at hm; simp [windowSets, hm])), hclass, hres]
    constructor
    · rintro ⟨hgone, hended, hnone⟩
      refine ⟨fun lane l hl => ?_, fun w r hl => Nat.le_of_not_lt fun hlt => ?_, hnone⟩
      · obtain ⟨l₁, hl₁, heff⟩ := hi.lane' hl
        by_contra hno
        have hkept : s₂.lanes.lookup lane = some l₁ := by
          refine (hlanes lane l₁).2 ⟨hl₁, fun key hkey href => Nat.lt_of_not_le fun hle => hno ?_⟩
          exact ⟨key, hi.candidates ▸ hkey, href, heff ▸ hle⟩
        rw [Table.eq_empty_iff.1 hgone lane] at hkept
        cases hkept
      · have hheld := (hholds w r).2 ⟨hl, hlt⟩
        rw [Table.eq_empty_iff.1 hended w] at hheld
        cases hheld
    · rintro ⟨hkeyed, hended, hnone⟩
      refine ⟨Table.eq_empty_iff.2 fun lane => ?_, Table.eq_empty_iff.2 fun w => ?_, hnone⟩
      · cases hl₂ : s₂.lanes.lookup lane with
        | none => rfl
        | some l₁ =>
          obtain ⟨hl₁, hlow⟩ := (hlanes lane l₁).1 hl₂
          obtain ⟨l, hl, heff⟩ := hi.lane hl₁
          obtain ⟨key, hkey, href, hle⟩ := hkeyed lane l hl
          have hlt := hlow key (hi.candidates ▸ hkey) href
          omega
      · cases hl₁ : s₁.reservations.lookup w with
        | none => rfl
        | some r =>
          obtain ⟨hl, hlt⟩ := (hholds w r).1 hl₁
          exact absurd (hended w r hl) (Nat.not_le_of_lt hlt)

/-- A request of a lane is granted and completed, and a second one is cancelled
while it waits. -/
def sweptRun : List Action :=
  [.enqueue (.plain 128 (some 7)) (.plain 0)] ++ Action.pass 0 [] 1 ++ [.complete 0 .success 1 1,
    .enqueue (.plain 128 (some 8)) (.plain 1), .cancel 1 2]

open SchedulerState in
theorem residue_iff_sweptRun : ∃ τ x, Run Machine.anything τ x ∧ x.sched.Quiescent 20 ∧
    ∃ s, x.sched.grantReady [] 9 20 = some (s, []) ∧
      (Swept (s.nextDeadline 20).1 (s.nextDeadline 20).2 ↔ x.sched.Sweepable 20) := by
  have hg : (scheduler.exec Machine.anything [] (.fresh [(1, 10)]) sweptRun).map (fun r =>
      (decide (r.2.sched.Quiescent 20), r.2.sched.expiredReservations 20, r.2.sched.agingEvents.len,
        r.2.sched.candidates.len)) = some (true, [], 2, 1) := by decide
  rw [Option.map_eq_some_iff] at hg
  obtain ⟨⟨τ, x⟩, he, hg⟩ := hg
  simp only [Prod.mk.injEq, decide_eq_true_eq] at hg
  obtain ⟨hq, hexp, haging, hkeys⟩ := hg
  have hr : Run Machine.anything τ x := run_of_actions (Sys.fresh_init (by decide)) he
  refine ⟨τ, x, hr, hq, residue_iff hr hq (by rw [hexp]) (by omega) (by omega)⟩

/-- A request of chat 5. -/
def OutboundMeta.ofChat (lane : Option OutboundLaneKey) : OutboundMeta :=
  ⟨.chat (.id 5), lane, 0, 128, ⟨1, one_nonZero⟩⟩

/-- A scheduler with one global window and one class limit for each chat. -/
def Sys.classLimited : Sys where
  sched := .initial ⟨[⟨1, 100, .any⟩], []⟩ ⟨[], [⟨0, 9, 10⟩]⟩ ⟨1000, 255⟩
  clock := 0
  pass := none

/-- Two requests of a chat are granted and come back without a request made; the
second has held the global window. A request that waits in a lane for a later
instant is cancelled. -/
def residueRun : List Action :=
  [.enqueue (.ofChat none) (.plain 0)] ++ Action.pass 0 [] 1 ++ [.enqueue (.ofChat none) (.plain 0)] ++
    Action.pass 0 [] 1 ++ [.complete 0 .noRequest 1 1] ++ Action.pass 1 [] 1 ++ [.complete 1 .noRequest 2 2,
      .enqueue (.ofChat (some 7)) { EnqueueOptions.plain 2 with notBefore := some 50 }, .cancel 2 3]

/-- What a pass and a look at the next wake-up leave. -/
structure Leftovers where
  lanes : List OutboundLaneKey
  classChats : List (OutboundChatKey × OutboundClass)
  holds : List WindowRef
  wakeup : SchedulerWakeup
  deriving DecidableEq

def leftovers (s : SchedulerState) (now : Nat) : Leftovers :=
  let r := s.nextDeadline now
  ⟨r.1.lanes.keys, r.1.classChatWindowSets.keys, r.1.reservations.keys, r.2⟩

open SchedulerState in
/-- A lane, a class window of a chat and a hold are left, and a wake-up is due. -/
theorem residue_left : ∃ τ x s, Run Machine.anything τ x ∧ x.sched.Quiescent 4 ∧
    x.sched.grantReady [] 9 4 = some (s, []) ∧ leftovers s 4 = ⟨[7], [(.id 5, 0)], [.global], .at 100⟩ ∧
    ¬ Swept (s.nextDeadline 4).1 (s.nextDeadline 4).2 := by
  have hg : (scheduler.exec Machine.anything [] Sys.classLimited residueRun).bind (fun r =>
      (r.2.sched.grantReady [] 9 4).map fun g => (decide (r.2.sched.Quiescent 4), g.2.length, leftovers g.1 4)) =
      some (true, 0, ⟨[7], [(.id 5, 0)], [.global], .at 100⟩) := by decide
  rw [Option.bind_eq_some_iff] at hg
  obtain ⟨⟨τ, x⟩, he, hg⟩ := hg
  rw [Option.map_eq_some_iff] at hg
  obtain ⟨⟨s, gs⟩, hs, hg⟩ := hg
  simp only [Prod.mk.injEq, decide_eq_true_eq, List.length_eq_zero_iff] at hg
  obtain ⟨hq, rfl, hleft⟩ := hg
  have hi : scheduler.init Sys.classLimited := ⟨rfl, ⟨[⟨1, 100, .any⟩], []⟩, ⟨[], [⟨0, 9, 10⟩]⟩, ⟨1000, 255⟩, rfl⟩
  refine ⟨τ, x, s, run_of_actions hi he, hq, hs, hleft, fun hswept => ?_⟩
  have hwake : (leftovers s 4).wakeup = .externalEvent := hswept.wakeup
  rw [hleft] at hwake
  cases hwake

end Teloxide.Outbound
