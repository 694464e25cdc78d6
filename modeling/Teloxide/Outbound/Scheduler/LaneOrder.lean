import Mathlib
import Teloxide.Outbound.Scheduler.Lifecycle
import Teloxide.Outbound.Scheduler.Reference

/-!
# First in, first out in a lane

A job has a position in its lane: its own id, or the position of the pending job
it replaced. Ids grow, so a new job stands behind every position taken before.
`Lined` says that the pending set of a lane is in the order of the positions,
whatever its order counter has been through.

* `Lined.joins`: a job joins its lane at its position, with the counter wrapped
  or not.
* `lane_fifo`: a lane grants in the order of the positions, and never past a
  pending job.
-/
namespace Teloxide.Outbound

open Teloxide.Core SchedulerState

/-- The position of a job in its lane: a replacement takes over the position of
the job it supersedes, any other job comes last. -/
def position : List Event → JobId → Nat
  | [], id => id
  | .enqueued _ _ o :: τ, id =>
    if id = o.job then
      match o.superseded with
      | some old => position τ old
      | none => o.job
    else position τ id
  | _ :: τ, id => position τ id

/-- The scheduler taken up with idle lanes whose order counters stand anywhere;
with no lanes it is the one from the start. -/
def resumed : Machine Sys Action Event where
  init x := ∃ (x₀ : Sys) (lanes : Table OutboundLaneKey LaneState), scheduler.init x₀ ∧
    (∀ lane l, lanes.lookup lane = some l → l.pending = .empty ∧ l.nextOrder < u64Size) ∧
    x = { x₀ with sched := { x₀.sched with lanes := lanes } }
  step := step

/-- The jobs granted through a lane, newest first. -/
def laneGrants (lane : OutboundLaneKey) : List Event → List JobId
  | [] => []
  | .granted g m _ :: τ => if m.lane = some lane then g.job :: laneGrants lane τ else laneGrants lane τ
  | _ :: τ => laneGrants lane τ

theorem LaneEntry.before_antisymm {a b : LaneEntry} (h : a.before b) (h' : b.before a) : a = b := by
  obtain ⟨oa, ja⟩ := a
  obtain ⟨ob, jb⟩ := b
  have hab : oa < ob ∨ oa = ob ∧ ja ≤ jb := h
  have hba : ob < oa ∨ ob = oa ∧ jb ≤ ja := h'
  rcases hab with hab | ⟨rfl, hab⟩
  · omega
  · rcases hba with hba | ⟨-, hba⟩
    · omega
    · rw [Nat.le_antisymm hab hba]

/-- A lane keeps its order counter, loses entries, but none of a live job. -/
structure Thinned (live : JobId → Bool) (o o' : Option LaneState) : Prop where
  before : ∀ l', o' = some l' → ∃ l, o = some l ∧ l'.nextOrder = l.nextOrder ∧
    l'.pending.entries.Sublist l.pending.entries
  after : ∀ l e, o = some l → e ∈ l.pending → live e.job = true → ∃ l', o' = some l' ∧ e ∈ l'.pending

theorem LaneMoved.thinned {live : JobId → Bool} {o o' : Option LaneState} (h : LaneMoved live o o') :
    Thinned live o o' := by
  cases h with
  | absent => exact ⟨by rintro l' ⟨⟩, by rintro l e ⟨⟩⟩
  | kept _ _ _ hn hsub hkeep =>
    refine ⟨fun l' h => ?_, fun l e h he hl => ?_⟩
    · cases h
      exact ⟨_, rfl, hn, hsub⟩
    · cases h
      exact ⟨_, rfl, hkeep e he hl⟩
  | dropped hd _ =>
    refine ⟨by rintro l' ⟨⟩, fun l e h he hl => ?_⟩
    cases h
    rw [hd e he] at hl
    cases hl

theorem Thinned.trans {live : JobId → Bool} {a b c : Option LaneState} (h : Thinned live a b)
    (h' : Thinned live b c) : Thinned live a c where
  before l'' hc := by
    obtain ⟨l', hb, hn', hs'⟩ := h'.before l'' hc
    obtain ⟨l, ha, hn, hs⟩ := h.before l' hb
    exact ⟨l, ha, hn'.trans hn, hs'.trans hs⟩
  after l e ha he hl := by
    obtain ⟨l', hb, he'⟩ := h.after l e ha he hl
    exact h'.after l' e hb he' hl

theorem Thinned.refl (live : JobId → Bool) (o : Option LaneState) : Thinned live o o :=
  (LaneMoved.refl o).thinned

/-- A lane with the same entries and the same counter. -/
theorem Thinned.same {live : JobId → Bool} {l l' : LaneState} (hn : l'.nextOrder = l.nextOrder)
    (hp : l'.pending = l.pending) : Thinned live (some l) (some l') where
  before k hk := by
    cases hk
    exact ⟨l, rfl, hn, hp ▸ .refl _⟩
  after k e hk he _ := by
    cases hk
    exact ⟨l', rfl, hp ▸ he⟩

namespace SchedulerState

/-- Jobs may go, the others keep their slots; lanes are thinned. -/
structure Shrinks (s s' : SchedulerState) : Prop where
  nextJobId : s'.nextJobId = s.nextJobId
  coalesce : ∀ key a, s'.coalesce.lookup key = some a → s.coalesce.lookup key = some a ∨
    ∃ job, s'.jobs.lookup a = some job ∧ job.coalesceKey = some key
  jobs : ∀ a job', s'.jobs.lookup a = some job' → ∃ job, s.jobs.lookup a = some job ∧ job'.slot = job.slot
  lanes : ∀ lane, Thinned s'.live (s.lanes.lookup lane) (s'.lanes.lookup lane)

namespace Shrinks

variable {s s' s'' : SchedulerState}

theorem of_stays (h : Stays s s') : Shrinks s s' where
  nextJobId := h.nextJobId
  coalesce := h.coalesce
  jobs _ _ hj := h.job hj
  lanes lane := by
    rw [h.live_eq]
    exact (h.lanes lane).thinned

theorem live (h : Shrinks s s') {id : JobId} (hl : s'.live id = true) : s.live id = true := by
  obtain ⟨job', hj'⟩ := live_iff.1 hl
  obtain ⟨job, hj, -⟩ := h.jobs id job' hj'
  exact live_of hj

/-- The jobs whose core is kept, and one that goes. -/
theorem of_core (id : JobId) (hn : s'.nextJobId = s.nextJobId)
    (hc : ∀ key a, s'.coalesce.lookup key = some a → s.coalesce.lookup key = some a)
    (hj : ∀ a, (s'.jobs.lookup a).map Job.core = if a = id then none else (s.jobs.lookup a).map Job.core)
    (hl : ∀ lane, Thinned s'.live (s.lanes.lookup lane) (s'.lanes.lookup lane)) : Shrinks s s' where
  nextJobId := hn
  coalesce key a h := Or.inl (hc key a h)
  jobs a job' ha := by
    have h := hj a
    rw [ha] at h
    split at h
    · cases h
    · cases hs : s.jobs.lookup a with
      | none => simp [hs] at h
      | some job =>
        rw [hs, Option.map_some, Option.map_some, Option.some.injEq] at h
        exact ⟨job, rfl, Job.slot_of_core h⟩
  lanes := hl

theorem of_removes {id : JobId} (h : Removes s id s') : Shrinks s s' :=
  .of_core _ h.nextJobId h.coalesce h.jobs fun lane => (h.lanes lane).thinned

theorem trans (h : Shrinks s s') (h' : Moves s' s'') : Shrinks s s'' where
  nextJobId := h'.nextJobId.trans h.nextJobId
  coalesce key a hc := by
    rw [h'.coalesce] at hc
    refine (h.coalesce key a hc).imp_right fun ⟨job, hj, hk⟩ => ?_
    obtain ⟨job', hj', hcore⟩ := h'.job' hj
    have hkey : job'.coalesceKey = job.coalesceKey := congrArg (·.2.2.1) (Job.slot_of_core hcore)
    exact ⟨job', hj', hkey.trans hk⟩
  jobs a job'' ha := by
    obtain ⟨job', hj', hc'⟩ := h'.job ha
    obtain ⟨job, hj, hs⟩ := h.jobs a job' hj'
    exact ⟨job, hj, (Job.slot_of_core hc').trans hs⟩
  lanes lane := by
    have hl := h.lanes lane
    rw [h'.live_eq]
    exact hl.trans (h'.lanes lane).thinned

/-- One lane is stored with the same entries. -/
theorem of_lane {lane : OutboundLaneKey} {l l' : LaneState} (hl : s.lanes.lookup lane = some l)
    (hs : s'.lanes = s.lanes.insert lane l') (hn : l'.nextOrder = l.nextOrder) (hp : l'.pending = l.pending)
    (hi : s'.nextJobId = s.nextJobId) (hc : s'.coalesce = s.coalesce) (hj : s'.jobs = s.jobs) :
    Shrinks s s' where
  nextJobId := hi
  coalesce key a h := Or.inl (hc ▸ h)
  jobs a job h := ⟨job, hj ▸ h, rfl⟩
  lanes k := by
    rw [hs, Table.lookup_insert_if]
    split
    · rename_i hk
      subst hk
      rw [hl]
      exact .same hn hp
    · exact .refl _ _

theorem of_starts {id : JobId} (h : Starts s id s') : Shrinks s s' := by
  cases h with
  | nothing => exact .of_stays (.refl s)
  | freed _ _ hl _ _ hq =>
    refine Shrinks.trans ?_ hq.toMoves
    exact .of_lane hl rfl rfl rfl rfl rfl rfl

theorem of_completes {id : JobId} (h : Completes s id s') : Shrinks s s' := by
  cases h with
  | nothing => exact .of_stays (.refl s)
  | done _ hf hm =>
    refine Shrinks.trans ?_ hm
    cases hf with
    | unlaned | kept => exact ⟨rfl, fun _ _ h => Or.inl h, fun a job h => ⟨job, h, rfl⟩, fun _ => .refl _ _⟩
    | freed _ hl hrel =>
      rcases releasePermit_cases hrel with ⟨-, -, rfl⟩ | ⟨-, -, rfl⟩
      · exact .of_lane hl rfl rfl rfl rfl rfl rfl
      · exact .of_lane hl rfl rfl rfl rfl rfl rfl

end Shrinks

end SchedulerState

/-! ## The order of a lane -/

/-- The pending set of a lane is in the order of the positions. -/
structure LaneLined (pos : JobId → Nat) (s : SchedulerState) (lane : OutboundLaneKey) (l : LaneState) :
    Prop where
  fits : l.nextOrder < u64Size
  below : l.nextOrder = 0 ∨ ∀ e ∈ l.pending, e.order < l.nextOrder
  once : (l.pending.entries.map (·.job)).Nodup
  issued : ∀ e ∈ l.pending, e.job < s.nextJobId
  own : ∀ e ∈ l.pending, ∀ job, s.jobs.lookup e.job = some job →
    job.metadata.lane = some lane ∧ job.laneOrder = some e.order
  sorted : ∀ e ∈ l.pending, ∀ e' ∈ l.pending, s.live e.job = true → s.live e'.job = true →
    pos e.job < pos e'.job → e.order < e'.order

/-- Every lane is in order; a job of a lane has its entry there, but for those
in `out`. -/
structure Lined (pos : JobId → Nat) (s : SchedulerState) (out : JobId → Prop) : Prop where
  known : ∀ id, s.live id = true → id < s.nextJobId
  fits : s.nextJobId < u64Size
  apart : ∀ a b, s.live a = true → s.live b = true → pos a = pos b → a = b
  keys : ∀ id job key, s.jobs.lookup id = some job → job.coalesceKey = some key → job.metadata.lane = key.lane
  coalesce : ∀ key id, s.coalesce.lookup key = some id →
    id < s.nextJobId ∧ ∀ job, s.jobs.lookup id = some job → job.metadata.lane = key.lane
  member : ∀ id job lane, s.jobs.lookup id = some job → job.metadata.lane = some lane → ¬ out id →
    ∃ l order, s.lanes.lookup lane = some l ∧ job.laneOrder = some order ∧ ⟨order, id⟩ ∈ l.pending
  lanes : ∀ lane l, s.lanes.lookup lane = some l → LaneLined pos s lane l

theorem LaneLined.new (pos : JobId → Nat) (s : SchedulerState) (lane : OutboundLaneKey)
    (mode : OutboundLaneMode) : LaneLined pos s lane (.new mode) := by
  have hno : ∀ e : LaneEntry, ¬ e ∈ (LaneState.new mode).pending := Heap.not_mem_empty
  refine ⟨by simp [LaneState.new, u64Size], Or.inl rfl, List.nodup_nil, fun e he => absurd he (hno e),
    fun e he => absurd he (hno e), fun e he => absurd he (hno e)⟩

namespace Lined

variable {pos : JobId → Nat} {s s' : SchedulerState} {out : JobId → Prop}

theorem slot_metadata {j j' : Job} (h : j'.slot = j.slot) : j'.metadata = j.metadata := congrArg (·.1) h
theorem slot_key {j j' : Job} (h : j'.slot = j.slot) : j'.coalesceKey = j.coalesceKey := congrArg (·.2.2.1) h
theorem slot_order {j j' : Job} (h : j'.slot = j.slot) : j'.laneOrder = j.laneOrder := congrArg (·.2.2.2) h

/-- Fewer jobs and thinner lanes stay in order. -/
theorem shrinks (h : Lined pos s out) (hs : Shrinks s s') : Lined pos s' out where
  known id hl := hs.nextJobId ▸ h.known id (hs.live hl)
  fits := hs.nextJobId ▸ h.fits
  apart a b ha hb := h.apart a b (hs.live ha) (hs.live hb)
  keys id job' key hj' hk := by
    obtain ⟨job, hj, hslot⟩ := hs.jobs id job' hj'
    rw [slot_metadata hslot]
    exact h.keys id job key hj (slot_key hslot ▸ hk)
  coalesce key id hc := by
    rw [hs.nextJobId]
    rcases hs.coalesce key id hc with hc | ⟨job', hj', hk⟩
    · refine ⟨(h.coalesce key id hc).1, fun job' hj' => ?_⟩
      obtain ⟨job, hj, hslot⟩ := hs.jobs id job' hj'
      rw [slot_metadata hslot]
      exact (h.coalesce key id hc).2 job hj
    · refine ⟨h.known id (hs.live (live_of hj')), fun job₁ hj₁ => ?_⟩
      rw [hj'] at hj₁
      cases hj₁
      obtain ⟨job, hj, hslot⟩ := hs.jobs id job' hj'
      rw [slot_metadata hslot]
      exact h.keys id job key hj (slot_key hslot ▸ hk)
  member id job' lane hj' hl hout := by
    obtain ⟨job, hj, hslot⟩ := hs.jobs id job' hj'
    rw [slot_metadata hslot] at hl
    obtain ⟨l, order, hlane, ho, he⟩ := h.member id job lane hj hl hout
    obtain ⟨l', hlane', he'⟩ := (hs.lanes lane).after l ⟨order, id⟩ hlane he (live_of hj')
    exact ⟨l', order, hlane', slot_order hslot ▸ ho, he'⟩
  lanes lane l' hl' := by
    obtain ⟨l, hl, hn, hsub⟩ := (hs.lanes lane).before l' hl'
    have hw := h.lanes lane l hl
    have hmem : ∀ e ∈ l'.pending, e ∈ l.pending := fun e he => hsub.mem he
    refine ⟨hn ▸ hw.fits, ?_, hw.once.sublist (hsub.map _), fun e he => ?_, fun e he job' hj' => ?_,
      fun e he e' he' hle hle' => ?_⟩
    · rw [hn]
      exact hw.below.imp_right fun hb e he => hb e (hmem e he)
    · rw [hs.nextJobId]
      exact hw.issued e (hmem e he)
    · obtain ⟨job, hj, hslot⟩ := hs.jobs e.job job' hj'
      rw [slot_metadata hslot, slot_order hslot]
      exact hw.own e (hmem e he) job hj
    · exact hw.sorted e (hmem e he) e' (hmem e' he') (hs.live hle) (hs.live hle')

/-- The live front entry of a lane has the least position. -/
theorem firstLive_least (h : Lined pos s out) {lane : OutboundLaneKey} {l : LaneState} {head : LaneEntry}
    (hl : s.lanes.lookup lane = some l) (hf : l.firstLive s.live = some head) {id : JobId} {job : Job}
    (hj : s.jobs.lookup id = some job) (hlane : job.metadata.lane = some lane) (hout : ¬ out id)
    (hne : id ≠ head.job) : pos head.job < pos id := by
  obtain ⟨l₁, order, hl₁, -, he⟩ := h.member id job lane hj hlane hout
  rw [hl] at hl₁
  cases hl₁
  have hw := h.lanes lane l hl
  have hhead := LaneState.firstLive_mem hf
  have hlive := LaneState.firstLive_live hf
  rcases LaneState.firstLive_before hf he (live_of hj) with heq | hbefore
  · exact absurd (congrArg LaneEntry.job heq) hne
  · rcases Nat.lt_trichotomy (pos head.job) (pos id) with hlt | heq | hgt
    · exact hlt
    · exact absurd (h.apart _ _ hlive (live_of hj) heq).symm hne
    · have hlt := hw.sorted _ he _ hhead (live_of hj) hlive hgt
      unfold LaneEntry.before at hbefore
      dsimp only at hlt hbefore
      omega

/-! ## Joining a lane -/

/-- A job is stored with a position of its own, outside its lane as yet. -/
theorem store {pos' : JobId → Nat} (h : Lined pos s fun _ => False) (metadata : OutboundMeta)
    (options : EnqueueOptions) (slot : Slot) (hfit : s.nextJobId + 1 < u64Size)
    (hpos : ∀ a, a ≠ s.nextJobId → pos' a = pos a)
    (hnew : ∀ a, s.live a = true → pos a ≠ pos' s.nextJobId) :
    Lined pos' (s.storeJob metadata options slot) (· = s.nextJobId) := by
  have hlookup : ∀ a, (s.storeJob metadata options slot).jobs.lookup a =
      if a = s.nextJobId then some (newJob metadata options slot) else s.jobs.lookup a := by
    intro a
    simp only [storeJob, Table.lookup_insert_if]
  have hlive : ∀ a, (s.storeJob metadata options slot).live a = true →
      a = s.nextJobId ∨ a ≠ s.nextJobId ∧ s.live a = true := by
    intro a ha
    rw [live_iff] at ha
    obtain ⟨job, hj⟩ := ha
    rw [hlookup] at hj
    split at hj
    · rename_i heq
      exact Or.inl heq
    · rename_i hne
      exact Or.inr ⟨hne, live_of hj⟩
  have hkey : ∀ key, (newJob metadata options slot).coalesceKey = some key → metadata.lane = key.lane := by
    intro key hk
    simp only [newJob, coalesceKeyOf] at hk
    split at hk
    · cases hk
    · cases hk
      rfl
  refine ⟨fun id hl => ?_, hfit, fun a b ha hb he => ?_, fun id job key hj hk => ?_,
    fun key id hc => ?_, fun id job lane hj hl hout => ?_, fun lane l hl => ?_⟩
  · rcases hlive id hl with rfl | ⟨-, hl⟩
    · exact Nat.lt_succ_self _
    · exact Nat.lt_succ_of_lt (h.known id hl)
  · rcases hlive a ha with rfl | ⟨hna, ha⟩
    · rcases hlive b hb with rfl | ⟨hnb, hb⟩
      · rfl
      · rw [hpos b hnb] at he
        exact absurd he.symm (hnew b hb)
    · rcases hlive b hb with rfl | ⟨hnb, hb⟩
      · rw [hpos a hna] at he
        exact absurd he (hnew a ha)
      · rw [hpos a hna, hpos b hnb] at he
        exact h.apart a b ha hb he
  · rw [hlookup] at hj
    split at hj
    · cases hj
      exact hkey key hk
    · exact h.keys id job key hj hk
  · have hc' : s.coalesce.lookup key = some id := hc
    have hlt := (h.coalesce key id hc').1
    refine ⟨Nat.lt_succ_of_lt hlt, fun job hj => ?_⟩
    rw [hlookup, if_neg (Nat.ne_of_lt hlt)] at hj
    exact (h.coalesce key id hc').2 job hj
  · rw [hlookup, if_neg hout] at hj
    exact h.member id job lane hj hl not_false
  · have hw := h.lanes lane l hl
    have hne : ∀ e ∈ l.pending, e.job ≠ s.nextJobId := fun e he => Nat.ne_of_lt (hw.issued e he)
    have hold : ∀ e ∈ l.pending, (s.storeJob metadata options slot).live e.job = true → s.live e.job = true :=
      fun e he hl => ((hlive e.job hl).resolve_left (hne e he)).2
    refine ⟨hw.fits, hw.below, hw.once, fun e he => Nat.lt_succ_of_lt (hw.issued e he), fun e he job hj => ?_,
      fun e he e' he' hl hl' hlt => ?_⟩
    · rw [hlookup, if_neg (hne e he)] at hj
      exact hw.own e he job hj
    · rw [hpos _ (hne e he), hpos _ (hne e' he')] at hlt
      exact hw.sorted e he e' he' (hold e he hl) (hold e' he' hl') hlt

end Lined

theorem mem_renumber {l : LaneState} {e : LaneEntry} :
    e ∈ l.renumber.pending ↔ ∃ i, ∃ h : i < l.pending.entries.length, e = ⟨i, l.pending.entries[i].job⟩ := by
  simp only [LaneState.renumber, Heap.mem_ofList, List.mem_mapIdx, eq_comm]

/-- The same jobs, numbered anew. -/
theorem renumber_perm (l : LaneState) :
    (l.renumber.pending.entries.map (·.job)).Perm (l.pending.entries.map (·.job)) := by
  have hp := (Heap.ofList_perm (r := LaneEntry.before)
    (l.pending.entries.mapIdx fun i e => (⟨i, e.job⟩ : LaneEntry))).map (·.job)
  have hmap : (l.pending.entries.mapIdx fun i e => (⟨i, e.job⟩ : LaneEntry)).map (·.job) =
      l.pending.entries.map (·.job) := by
    refine List.ext_getElem (by simp) fun i _ _ => ?_
    simp
  rwa [hmap] at hp

theorem renumber_once {l : LaneState} (h : (l.pending.entries.map (·.job)).Nodup) :
    (l.renumber.pending.entries.map (·.job)).Nodup := (renumber_perm l).nodup_iff.2 h

/-- The jobs after a renumbering: those with an entry have its order. -/
theorem renumber_lookup (a : JobId) :
    ∀ (l : List LaneEntry) (jobs : Table JobId Job), (l.map (·.job)).Nodup →
      (∀ e ∈ l, e.job = a → (l.foldl (fun jobs e => jobs.modify e.job fun job =>
        { job with laneOrder := some e.order }) jobs).lookup a =
          (jobs.lookup a).map fun job => { job with laneOrder := some e.order }) ∧
      ((∀ e ∈ l, e.job ≠ a) → (l.foldl (fun jobs e => jobs.modify e.job fun job =>
        { job with laneOrder := some e.order }) jobs).lookup a = jobs.lookup a)
  | [], jobs, _ => ⟨fun e he => (by cases he), fun _ => rfl⟩
  | e₀ :: l, jobs, hn => by
    rw [List.map_cons, List.nodup_cons] at hn
    obtain ⟨h₁, h₂⟩ := renumber_lookup a l
      (jobs.modify e₀.job fun job => { job with laneOrder := some e₀.order }) hn.2
    refine ⟨fun e he hj => ?_, fun hne => ?_⟩
    · rw [List.foldl_cons]
      rcases List.mem_cons.1 he with rfl | he
      · have hrest : ∀ e' ∈ l, e'.job ≠ a := by
          intro e' he' hj'
          exact hn.1 (List.mem_map.2 ⟨e', he', hj'.trans hj.symm⟩)
        rw [h₂ hrest, Table.lookup_modify, if_pos hj.symm, hj]
      · have hne₀ : a ≠ e₀.job := by
          intro h
          exact hn.1 (List.mem_map.2 ⟨e, he, hj.trans h⟩)
        rw [h₁ e he hj, Table.lookup_modify, if_neg hne₀]
    · rw [List.foldl_cons, h₂ fun e he => hne e (List.mem_cons_of_mem _ he), Table.lookup_modify,
        if_neg (hne e₀ List.mem_cons_self).symm]

namespace Lined

variable {pos : JobId → Nat} {s s' : SchedulerState} {out : JobId → Prop}

/-- A lane holds fewer entries than there are ids. -/
theorem length_lt (h : Lined pos s out) {lane : OutboundLaneKey} {l : LaneState}
    (hl : LaneLined pos s lane l) : l.pending.len < u64Size := by
  have hsub : (l.pending.entries.map (·.job)) ⊆ List.range s.nextJobId := by
    intro a ha
    obtain ⟨e, he, rfl⟩ := List.mem_map.1 ha
    exact List.mem_range.2 (hl.issued e he)
  have hle := (List.subperm_of_subset hl.once hsub).length_le
  rw [List.length_map, List.length_range] at hle
  have := h.fits
  unfold Heap.len
  omega

/-- Renumbering a lane keeps its order. -/
theorem renumber (h : Lined pos s out) {lane : OutboundLaneKey} {l : LaneState}
    (hl : s.lanes.lookup lane = some l) : Lined pos (s.renumberLane lane l) out := by
  have hw := h.lanes lane l hl
  have hin : ∀ e ∈ l.renumber.pending, (s.renumberLane lane l).jobs.lookup e.job =
      (s.jobs.lookup e.job).map fun job => { job with laneOrder := some e.order } := fun e he =>
    (renumber_lookup e.job l.renumber.pending.entries s.jobs (renumber_once hw.once)).1 e he rfl
  have hout : ∀ a, (∀ e ∈ l.renumber.pending, e.job ≠ a) →
      (s.renumberLane lane l).jobs.lookup a = s.jobs.lookup a := fun a =>
    (renumber_lookup a l.renumber.pending.entries s.jobs (renumber_once hw.once)).2
  -- every job is as it was, but for the orders of this lane
  have hjob : ∀ a job', (s.renumberLane lane l).jobs.lookup a = some job' → ∃ job,
      s.jobs.lookup a = some job ∧ job'.metadata = job.metadata ∧ job'.coalesceKey = job.coalesceKey := by
    intro a job' hj'
    by_cases hm : ∃ e ∈ l.renumber.pending, e.job = a
    · obtain ⟨e, he, rfl⟩ := hm
      rw [hin e he, Option.map_eq_some_iff] at hj'
      obtain ⟨job, hj, rfl⟩ := hj'
      exact ⟨job, hj, rfl, rfl⟩
    · rw [hout a fun e he hea => hm ⟨e, he, hea⟩] at hj'
      exact ⟨job', hj', rfl, rfl⟩
  have hlive : ∀ a, (s.renumberLane lane l).live a = true → s.live a = true := by
    intro a ha
    obtain ⟨job', hj'⟩ := live_iff.1 ha
    obtain ⟨job, hj, -⟩ := hjob a job' hj'
    exact live_of hj
  have hlanes : ∀ k, (s.renumberLane lane l).lanes.lookup k =
      if k = lane then some l.renumber else s.lanes.lookup k := by
    intro k
    simp only [renumberLane, Table.lookup_insert_if]
  refine ⟨fun id hid => h.known id (hlive id hid), h.fits,
    fun a b ha hb => h.apart a b (hlive a ha) (hlive b hb), fun id job' key hj' hk => ?_,
    fun key id hc => ?_, fun id job' k hj' hk ho => ?_, fun k l' hl' => ?_⟩
  · obtain ⟨job, hj, hmeta, hkey⟩ := hjob id job' hj'
    rw [hmeta]
    exact h.keys id job key hj (hkey ▸ hk)
  · refine ⟨(h.coalesce key id hc).1, fun job' hj' => ?_⟩
    obtain ⟨job, hj, hmeta, -⟩ := hjob id job' hj'
    rw [hmeta]
    exact (h.coalesce key id hc).2 job hj
  · obtain ⟨job, hj, hmeta, -⟩ := hjob id job' hj'
    rw [hmeta] at hk
    obtain ⟨l₁, order, hl₁, ho, he⟩ := h.member id job k hj hk ho
    rw [hlanes]
    by_cases hkl : k = lane
    · subst hkl
      rw [hl] at hl₁
      cases hl₁
      obtain ⟨i, hi, hget⟩ := List.getElem_of_mem he
      have hmem : (⟨i, id⟩ : LaneEntry) ∈ l.renumber.pending :=
        mem_renumber.2 ⟨i, hi, by rw [hget]⟩
      rw [if_pos rfl]
      refine ⟨l.renumber, i, rfl, ?_, hmem⟩
      rw [hin ⟨i, id⟩ hmem, hj, Option.map_some, Option.some.injEq] at hj'
      rw [← hj']
    · rw [if_neg hkl]
      have hno : ∀ e ∈ l.renumber.pending, e.job ≠ id := by
        intro e he' heq
        obtain ⟨i, hi, rfl⟩ := mem_renumber.1 he'
        have hown := (hw.own _ (List.getElem_mem hi) job (heq.symm ▸ hj)).1
        rw [hk] at hown
        exact hkl (Option.some.inj hown)
      rw [hout id hno, hj] at hj'
      cases hj'
      exact ⟨l₁, order, hl₁, ho, he⟩
  · rw [hlanes] at hl'
    by_cases hkl : k = lane
    · subst hkl
      rw [if_pos rfl] at hl'
      cases hl'
      refine ⟨h.length_lt hw, Or.inr fun e he => ?_, renumber_once hw.once, fun e he => ?_,
        fun e he job' hj' => ?_, fun e he e' he' hle hle' hlt => ?_⟩
      · obtain ⟨i, hi, rfl⟩ := mem_renumber.1 he
        exact hi
      · obtain ⟨i, hi, rfl⟩ := mem_renumber.1 he
        exact hw.issued l.pending.entries[i] (List.getElem_mem hi)
      · rw [hin e he, Option.map_eq_some_iff] at hj'
        obtain ⟨job, hj, rfl⟩ := hj'
        obtain ⟨i, hi, rfl⟩ := mem_renumber.1 he
        exact ⟨(hw.own _ (List.getElem_mem hi) job hj).1, rfl⟩
      · obtain ⟨i, hi, rfl⟩ := mem_renumber.1 he
        obtain ⟨i', hi', rfl⟩ := mem_renumber.1 he'
        have horder := hw.sorted _ (List.getElem_mem hi) _ (List.getElem_mem hi') (hlive _ hle)
          (hlive _ hle') hlt
        -- the index follows the old order
        rcases Nat.lt_trichotomy i i' with hii | rfl | hii
        · exact hii
        · exact absurd horder (Nat.lt_irrefl _)
        · have hb := List.pairwise_iff_getElem.1 l.pending.sorted i' i hi' hi hii
          unfold LaneEntry.before at hb
          omega
    · rw [if_neg hkl] at hl'
      have hk := h.lanes k l' hl'
      have hsame : ∀ e ∈ l'.pending, ∀ job', (s.renumberLane lane l).jobs.lookup e.job = some job' →
          s.jobs.lookup e.job = some job' := by
        intro e he job' hj'
        obtain ⟨job, hj, -⟩ := hjob e.job job' hj'
        have hno : ∀ e' ∈ l.renumber.pending, e'.job ≠ e.job := by
          intro e' he' heq
          obtain ⟨i, hi, rfl⟩ := mem_renumber.1 he'
          have hown := (hw.own _ (List.getElem_mem hi) job (heq.symm ▸ hj)).1
          rw [(hk.own e he job hj).1] at hown
          exact hkl (Option.some.inj hown)
        rwa [hout e.job hno] at hj'
      refine ⟨hk.fits, hk.below, hk.once, hk.issued, fun e he job' hj' => ?_, fun e he e' he' hle hle' => ?_⟩
      · exact hk.own e he job' (hsame e he job' hj')
      · exact hk.sorted e he e' he' (hlive _ hle) (hlive _ hle')

/-- A lane takes the entry of a stored job at the order of its position. -/
theorem add {lane : OutboundLaneKey} {l : LaneState} {id : JobId} {job : Job} {order nextOrder : Nat}
    (h : Lined pos s (· = id)) (hl : LaneLined pos s lane l)
    (hat : s.lanes.lookup lane = some l ∨ s.lanes.lookup lane = none)
    (hj : s.jobs.lookup id = some job) (hlane : job.metadata.lane = some lane)
    (hnot : ∀ e ∈ l.pending, e.job ≠ id) (hfit : nextOrder < u64Size)
    (hbelow : nextOrder = 0 ∨ order < nextOrder ∧ ∀ e ∈ l.pending, e.order < nextOrder)
    (hplace : ∀ e ∈ l.pending, s.live e.job = true →
      (pos e.job < pos id → e.order < order) ∧ (pos id < pos e.job → order < e.order))
    (hs : s' = { s with
      lanes := s.lanes.insert lane
        { l with nextOrder := nextOrder, pending := l.pending.insert ⟨order, id⟩ }
      jobs := s.jobs.modify id fun job => { job with laneOrder := some order } }) :
    Lined pos s' fun _ => False := by
  have hjobs : ∀ a, s'.jobs.lookup a =
      if a = id then some { job with laneOrder := some order } else s.jobs.lookup a := by
    intro a
    rw [hs, Table.lookup_modify, hj]
    rfl
  have hlanes : ∀ k, s'.lanes.lookup k = if k = lane then
      some { l with nextOrder := nextOrder, pending := l.pending.insert ⟨order, id⟩ }
      else s.lanes.lookup k := by
    intro k
    rw [hs, Table.lookup_insert_if]
  have hsame : s'.nextJobId = s.nextJobId ∧ s'.coalesce = s.coalesce := by
    rw [hs]
    exact ⟨rfl, rfl⟩
  have hjob : ∀ a job', s'.jobs.lookup a = some job' → ∃ job, s.jobs.lookup a = some job ∧
      job'.metadata = job.metadata ∧ job'.coalesceKey = job.coalesceKey := by
    intro a job' hj'
    rw [hjobs] at hj'
    split at hj'
    · rename_i ha
      subst ha
      cases hj'
      exact ⟨job, hj, rfl, rfl⟩
    · exact ⟨job', hj', rfl, rfl⟩
  have hlive : ∀ a, s'.live a = true → s.live a = true := by
    intro a ha
    obtain ⟨job', hj'⟩ := live_iff.1 ha
    obtain ⟨job, hj, -⟩ := hjob a job' hj'
    exact live_of hj
  refine ⟨fun a ha => hsame.1 ▸ h.known a (hlive a ha), hsame.1 ▸ h.fits,
    fun a b ha hb => h.apart a b (hlive a ha) (hlive b hb), fun a job' key hj' hk => ?_,
    fun key a hc => ?_, fun a job' k hj' hk _ => ?_, fun k l' hl' => ?_⟩
  · obtain ⟨job, hj, hmeta, hkey⟩ := hjob a job' hj'
    rw [hmeta]
    exact h.keys a job key hj (hkey ▸ hk)
  · rw [hsame.2] at hc
    rw [hsame.1]
    refine ⟨(h.coalesce key a hc).1, fun job' hj' => ?_⟩
    obtain ⟨job, hj, hmeta, -⟩ := hjob a job' hj'
    rw [hmeta]
    exact (h.coalesce key a hc).2 job hj
  · rw [hlanes]
    rw [hjobs] at hj'
    split at hj'
    · rename_i ha
      subst ha
      cases hj'
      rw [hlane] at hk
      cases hk
      rw [if_pos rfl]
      exact ⟨_, order, rfl, rfl, Heap.mem_insert.2 (Or.inl rfl)⟩
    · rename_i ha
      obtain ⟨l₁, o, hl₁, ho, he⟩ := h.member a job' k hj' hk ha
      split
      · rename_i hkl
        subst hkl
        rcases hat with hat | hat
        · rw [hat] at hl₁
          cases hl₁
          exact ⟨_, o, rfl, ho, Heap.mem_insert.2 (Or.inr he)⟩
        · rw [hat] at hl₁
          cases hl₁
      · exact ⟨l₁, o, hl₁, ho, he⟩
  · rw [hlanes] at hl'
    have hother : ∀ (l₁ : LaneState), LaneLined pos s k l₁ → (∀ e ∈ l₁.pending, e.job ≠ id) →
        LaneLined pos s' k l₁ := by
      intro l₁ hw hne
      refine ⟨hw.fits, hw.below, hw.once, fun e he => hsame.1 ▸ hw.issued e he, fun e he job' hj' => ?_,
        fun e he e' he' hle hle' => hw.sorted e he e' he' (hlive _ hle) (hlive _ hle')⟩
      rw [hjobs, if_neg (hne e he)] at hj'
      exact hw.own e he job' hj'
    split at hl'
    · rename_i hkl
      subst hkl
      cases hl'
      have hw := hother l hl hnot
      have hno : ¬ (⟨order, id⟩ : LaneEntry) ∈ l.pending := fun he => hnot _ he rfl
      have hperm := (Heap.insert_perm hno).map (·.job)
      have hmem : ∀ e ∈ l.pending.insert ⟨order, id⟩, e = ⟨order, id⟩ ∨ e ∈ l.pending :=
        fun e he => Heap.mem_insert.1 he
      refine ⟨hfit, ?_, hperm.nodup_iff.2 ?_, fun e he => ?_, fun e he job' hj' => ?_,
        fun e he e' he' hle hle' hlt => ?_⟩
      · refine hbelow.imp_right fun hb e he => ?_
        rcases hmem e he with rfl | he
        · exact hb.1
        · exact hb.2 e he
      · rw [List.map_cons, List.nodup_cons, List.mem_map]
        refine ⟨?_, hl.once⟩
        rintro ⟨e, he, heq⟩
        exact hnot e he heq
      · rcases hmem e he with rfl | he
        · rw [hsame.1]
          exact h.known id (live_of hj)
        · exact hw.issued e he
      · rcases hmem e he with rfl | he
        · rw [hjobs, if_pos rfl] at hj'
          cases hj'
          exact ⟨hlane, rfl⟩
        · exact hw.own e he job' hj'
      · rcases hmem e he with rfl | he
        · rcases hmem e' he' with rfl | he'
          · exact absurd hlt (Nat.lt_irrefl _)
          · exact (hplace e' he' (hlive _ hle')).2 hlt
        · rcases hmem e' he' with rfl | he'
          · exact (hplace e he (hlive _ hle)).1 hlt
          · exact hw.sorted e he e' he' hle hle' hlt
    · rename_i hkl
      refine hother l' (h.lanes k l' hl') fun e he heq => ?_
      have hown := ((h.lanes k l' hl').own e he job (heq.symm ▸ hj)).1
      rw [hlane] at hown
      exact hkl (Option.some.inj hown).symm

theorem wrappingSucc_lt (n : Nat) : wrappingSucc n < u64Size := Nat.mod_lt _ (by decide)

/-- The next order lies above all others, or the counter has wrapped. -/
theorem wrappingSucc_below {n : Nat} (h : n < u64Size) : wrappingSucc n = 0 ∨ n < wrappingSucc n := by
  unfold wrappingSucc
  rcases Nat.lt_or_ge (n + 1) u64Size with hlt | hge
  · rw [Nat.mod_eq_of_lt hlt]
    exact Or.inr (Nat.lt_succ_self n)
  · have : n + 1 = u64Size := by omega
    rw [this, Nat.mod_self]
    exact Or.inl rfl

/-- The order a stored job may inherit in a lane: it fits its position. -/
def Inherits (pos : JobId → Nat) (s : SchedulerState) (lane : OutboundLaneKey) (p order : Nat) : Prop :=
  ∀ l, s.lanes.lookup lane = some l → (l.nextOrder = 0 ∨ order < l.nextOrder) ∧
    ∀ e ∈ l.pending, s.live e.job = true → (pos e.job < p → e.order < order) ∧ (p < pos e.job → order < e.order)

theorem check (h : Lined pos s out) (ok : Bool) : Lined pos (s.check ok) out :=
  h.shrinks (.of_stays (.of_eq rfl rfl rfl rfl rfl))

/-- A stored job joins its lane: at an order it has inherited, or at the next
one, for which a wrapped lane is renumbered first. -/
theorem joins {id : JobId} (h : Lined pos s (· = id)) {lane : OutboundLaneKey} {job : Job}
    (hj : s.jobs.lookup id = some job) (hlane : job.metadata.lane = some lane)
    (hnot : ∀ k l, s.lanes.lookup k = some l → ∀ e ∈ l.pending, e.job ≠ id) {inherited : Option Nat}
    (hslot : match inherited with
      | some order => Inherits pos s lane (pos id) order
      | none => ∀ a, s.live a = true → a ≠ id → pos a < pos id) (mode : OutboundLaneMode) :
    Lined pos (s.enterLane lane id inherited mode) fun _ => False := by
  have hbase : ∀ l, (s.lanes.lookup lane).getD (.new mode) = l → LaneLined pos s lane l ∧
      (s.lanes.lookup lane = some l ∨ s.lanes.lookup lane = none ∧ l = .new mode) ∧
      ∀ e ∈ l.pending, e.job ≠ id := by
    rintro _ rfl
    cases hl : s.lanes.lookup lane with
    | none => exact ⟨.new pos s lane mode, Or.inr ⟨rfl, rfl⟩, fun e he => absurd he (Heap.not_mem_empty e)⟩
    | some l => exact ⟨h.lanes lane l hl, Or.inl rfl, hnot lane l hl⟩
  unfold enterLane insertLanePending
  dsimp only
  generalize hl : (s.lanes.lookup lane).getD (.new mode) = l
  obtain ⟨hw, hat, hne⟩ := hbase l hl
  have hc := h.check (l.mode == mode)
  have hwc : LaneLined pos (s.check (l.mode == mode)) lane l :=
    ⟨hw.fits, hw.below, hw.once, hw.issued, hw.own, hw.sorted⟩
  cases inherited with
  | some order =>
    have hbelow : l.nextOrder = 0 ∨ order < l.nextOrder ∧ ∀ e ∈ l.pending, e.order < l.nextOrder := by
      rcases hat with hat | ⟨-, rfl⟩
      · rcases (hslot l hat).1 with hz | hlt
        · exact Or.inl hz
        · exact hw.below.imp_right fun hb => ⟨hlt, hb⟩
      · exact Or.inl rfl
    have hplace : ∀ e ∈ l.pending, s.live e.job = true →
        (pos e.job < pos id → e.order < order) ∧ (pos id < pos e.job → order < e.order) := by
      rcases hat with hat | ⟨-, rfl⟩
      · exact (hslot l hat).2
      · exact fun e he => absurd he (Heap.not_mem_empty e)
    exact hc.add hwc (hat.imp_right (·.1)) hj hlane hne hw.fits hbelow hplace rfl
  | none =>
    have hbehind : ∀ e : LaneEntry, s.live e.job = true → e.job ≠ id → ¬ pos id < pos e.job :=
      fun e he hne => Nat.lt_asymm (hslot e.job he hne)
    dsimp only
    split
    · rename_i hwrap
      have hsome : s.lanes.lookup lane = some l := by
        rcases hat with hat | ⟨-, rfl⟩
        · exact hat
        · simp [LaneState.new, Heap.isEmpty, Heap.empty] at hwrap
      have hr := hc.renumber hsome
      have hat₂ : ((s.check (l.mode == mode)).renumberLane lane l).lanes.lookup lane = some l.renumber := by
        simp only [renumberLane, Table.lookup_insert_if, if_true]
      have hw₂ := hr.lanes lane _ hat₂
      have hne₂ : ∀ e ∈ l.renumber.pending, e.job ≠ id := by
        intro e he
        obtain ⟨i, hi, rfl⟩ := mem_renumber.1 he
        exact hne l.pending.entries[i] (List.getElem_mem hi)
      have hj₂ : ((s.check (l.mode == mode)).renumberLane lane l).jobs.lookup id = some job :=
        ((renumber_lookup id l.renumber.pending.entries s.jobs (renumber_once hw.once)).2 hne₂).trans hj
      have hlen : ∀ e ∈ l.renumber.pending, e.order < l.renumber.nextOrder := by
        intro e he
        obtain ⟨i, hi, rfl⟩ := mem_renumber.1 he
        exact hi
      have hlive : ∀ a, ((s.check (l.mode == mode)).renumberLane lane l).live a = true → s.live a = true := by
        intro a ha
        have hcore := renumber_jobs (fun _ => ()) (fun _ _ => rfl) l.renumber.pending.entries s.jobs a
        have hsame := congrArg Option.isSome hcore
        rw [Option.isSome_map, Option.isSome_map] at hsame
        exact hsame.symm.trans ha
      refine hr.add hw₂ (Or.inl hat₂) hj₂ hlane hne₂ (wrappingSucc_lt _) ?_ (fun e he hl => ?_) rfl
      · refine (wrappingSucc_below hw₂.fits).imp_right fun hlt => ⟨hlt, fun e he => ?_⟩
        exact Nat.lt_trans (hlen e he) hlt
      · exact ⟨fun _ => hlen e he, fun hlt => absurd hlt (hbehind e (hlive _ hl) (hne₂ e he))⟩
    · rename_i hwrap
      have hempty : l.nextOrder = 0 → ∀ e, ¬ e ∈ l.pending := by
        intro hz e he
        have : l.pending.isEmpty = true := by
          cases hp : l.pending.isEmpty with
          | true => rfl
          | false => exact absurd ⟨hz, hp⟩ hwrap
        rw [Heap.isEmpty, List.isEmpty_iff] at this
        rw [Heap.mem_def, this] at he
        cases he
      have hlen : ∀ e ∈ l.pending, e.order < l.nextOrder := by
        intro e he
        rcases hw.below with hz | hb
        · exact absurd he (hempty hz e)
        · exact hb e he
      refine hc.add hwc (hat.imp_right (·.1)) hj hlane hne (wrappingSucc_lt _) ?_ (fun e he hl => ?_) rfl
      · refine (wrappingSucc_below hw.fits).imp_right fun hlt => ⟨hlt, fun e he => ?_⟩
        exact Nat.lt_trans (hlen e he) hlt
      · exact ⟨fun _ => hlen e he, fun hlt => absurd hlt (hbehind e hl (hne e he))⟩

/-- A new job enters with a position of its own; its lane order, if it inherits
one, fits that position. -/
theorem entered {pos' : JobId → Nat} (h : Lined pos s fun _ => False) (metadata : OutboundMeta)
    (options : EnqueueOptions) (slot : Slot) (hfit : s.nextJobId + 1 < u64Size)
    (hpos : ∀ a, a ≠ s.nextJobId → pos' a = pos a)
    (hnew : ∀ a, s.live a = true → pos a ≠ pos' s.nextJobId)
    (hslot : ∀ lane, metadata.lane = some lane → match slot.laneOrder with
      | some order => Inherits pos s lane (pos' s.nextJobId) order
      | none => ∀ a, s.live a = true → pos a < pos' s.nextJobId) :
    Lined pos' (s.entered metadata options slot) fun _ => False := by
  have hst := h.store metadata options slot hfit hpos hnew
  have hj : (s.storeJob metadata options slot).jobs.lookup s.nextJobId = some (newJob metadata options slot) := by
    simp only [storeJob, Table.lookup_insert_if, if_true]
  have hnot : ∀ k l, s.lanes.lookup k = some l → ∀ e ∈ l.pending, e.job ≠ s.nextJobId :=
    fun k l hl e he => Nat.ne_of_lt ((h.lanes k l hl).issued e he)
  have hold : ∀ a, a ≠ s.nextJobId → (s.storeJob metadata options slot).live a = true → s.live a = true := by
    intro a hne ha
    obtain ⟨job, hj⟩ := live_iff.1 ha
    simp only [storeJob, Table.lookup_insert_if, if_neg hne] at hj
    exact live_of hj
  unfold SchedulerState.entered
  cases hlane : metadata.lane with
  | some lane =>
    dsimp only
    refine hst.joins hj hlane hnot ?_ options.laneMode
    have hs := hslot lane hlane
    cases ho : slot.laneOrder with
    | some order =>
      rw [ho] at hs
      intro l hl
      refine ⟨(hs l hl).1, fun e he hle => ?_⟩
      have hne := hnot lane l hl e he
      rw [hpos e.job hne]
      exact (hs l hl).2 e he (hold e.job hne hle)
    | none =>
      rw [ho] at hs
      intro a ha hne
      rw [hpos a hne]
      exact hs a (hold a hne ha)
  | none =>
    refine ⟨hst.known, hst.fits, hst.apart, hst.keys, hst.coalesce, fun id job lane hj' hl _ => ?_,
      hst.lanes⟩
    refine hst.member id job lane hj' hl fun heq => ?_
    rw [heq, hj] at hj'
    cases hj'
    have hnone : (newJob metadata options slot).metadata.lane = none := hlane
    rw [hnone] at hl
    cases hl

end Lined

/-! ## Runs -/

theorem position_idle {e : Event} (h : e.isIdle = true) (τ : List Event) : position (e :: τ) = position τ := by
  cases e <;> first | rfl | cases h

theorem laneGrants_idle {e : Event} (h : e.isIdle = true) (lane : OutboundLaneKey) (τ : List Event) :
    laneGrants lane (e :: τ) = laneGrants lane τ := by
  cases e <;> first | rfl | cases h

/-- A job that was there before a step has the metadata it had. -/
theorem Change.metadata {s s' : SchedulerState} {e : Event} (h : Change s s' e) {id : JobId} {job' : Job}
    (hj' : s'.jobs.lookup id = some job') (hid : id < s.nextJobId) :
    ∃ job, s.jobs.lookup id = some job ∧ job'.metadata = job.metadata := by
  have hshrink {s s' : SchedulerState} {job'} (hs : Shrinks s s') (hj' : s'.jobs.lookup id = some job') :
      ∃ job, s.jobs.lookup id = some job ∧ job'.metadata = job.metadata := by
    obtain ⟨job, hj, hslot⟩ := hs.jobs id job' hj'
    exact ⟨job, hj, Lined.slot_metadata hslot⟩
  have hentered {s₁ : SchedulerState} {metadata options slot} (hs : Shrinks s s₁)
      (h₂ : Stays (s₁.entered metadata options slot) s') :
      ∃ job, s.jobs.lookup id = some job ∧ job'.metadata = job.metadata := by
    obtain ⟨job₂, hj₂, hm₂⟩ := hshrink (.of_stays h₂) hj'
    have hview := s₁.entered_jobs (·.metadata) (fun _ _ => rfl) metadata options slot id
    rw [if_neg (by rw [hs.nextJobId]; exact Nat.ne_of_lt hid), hj₂, Option.map_some, eq_comm,
      Option.map_eq_some_iff] at hview
    obtain ⟨job₁, hj₁, hm₁⟩ := hview
    obtain ⟨job, hj, hm⟩ := hshrink hs hj₁
    exact ⟨job, hj, hm₂.trans (hm₁.symm.trans hm)⟩
  cases h with
  | stays hs | cancelledLate _ hs => exact hshrink (.of_stays hs) hj'
  | entered h₁ _ _ _ h₂ => exact hentered (.of_stays h₁) h₂
  | replaced _ h₁ _ _ _ h₂ => exact hentered (.of_removes h₁) h₂
  | cancelled _ hr => exact hshrink (.of_removes hr) hj'
  | started hs => exact hshrink (.of_starts hs) hj'
  | completed hc => exact hshrink (.of_completes hc) hj'
  | @granted s₁ s₂ _ c job job₂ now hp hm hj hj₂ hg =>
    have hcore := hg.jobs id
    rw [hj'] at hcore
    split at hcore
    · cases hcore
    · rw [eq_comm, Option.map_some, Option.map_eq_some_iff] at hcore
      obtain ⟨job₃, hj₃, hc₃⟩ := hcore
      obtain ⟨job₀, hj₀, hm₀⟩ := hshrink (.of_stays (.of_moves (hp.quiet.toMoves.trans hm))) hj₃
      exact ⟨job₀, hj₀, (congrArg (·.1) (Job.slot_of_core hc₃)).symm.trans hm₀⟩

/-- No id is taken back. -/
theorem Change.nextJobId_le {s s' : SchedulerState} {e : Event} (h : Change s s' e) :
    s.nextJobId ≤ s'.nextJobId := by
  cases h with
  | stays hs | cancelledLate _ hs => exact Nat.le_of_eq hs.nextJobId.symm
  | entered h₁ _ _ _ h₂ | replaced _ h₁ _ _ _ h₂ =>
    rw [h₂.nextJobId, entered_nextJobId, h₁.nextJobId]
    exact Nat.le_succ _
  | cancelled _ hr => exact Nat.le_of_eq hr.nextJobId.symm
  | started hs => exact Nat.le_of_eq (Shrinks.of_starts hs).nextJobId.symm
  | completed hc => exact Nat.le_of_eq (Shrinks.of_completes hc).nextJobId.symm
  | granted hp hm _ _ hg =>
    rw [hg.nextJobId, hm.nextJobId, hp.quiet.nextJobId]

/-- What holds of the lanes after a run. -/
structure LaneFifo (τ : List Event) (s : SchedulerState) : Prop where
  lined : Lined (position τ) s fun _ => False
  upto : ∀ id, position τ id ≤ id
  refs : ∀ id, s.Mentions (.job id) →
    id < s.nextJobId ∧ ∀ job, s.jobs.lookup id = some job → job.metadata.lane = none
  granted : ∀ lane, ∀ g ∈ laneGrants lane τ, ∀ id job, s.jobs.lookup id = some job →
    job.metadata.lane = some lane → position τ g < position τ id
  ordered : ∀ lane, (laneGrants lane τ).Pairwise fun later earlier => position τ earlier < position τ later
  past : ∀ lane, ∀ g ∈ laneGrants lane τ, g < s.nextJobId

namespace LaneFifo

variable {τ : List Event} {s s' : SchedulerState} {e : Event}

/-- No job with a lane comes to be referred to under its id. -/
theorem refs_step (h : LaneFifo τ s) (hc : Change s s' e) (hr : Refers s'.Unlaned s s')
    (hknown : ∀ id, s'.live id = true → id < s'.nextJobId) (id : JobId) (hm : s'.Mentions (.job id)) :
    id < s'.nextJobId ∧ ∀ job, s'.jobs.lookup id = some job → job.metadata.lane = none := by
  rcases hr id hm with hm | ⟨job', hj', hl'⟩
  · have hlt := (h.refs id hm).1
    refine ⟨Nat.lt_of_lt_of_le hlt hc.nextJobId_le, fun job' hj' => ?_⟩
    obtain ⟨job, hj, hmeta⟩ := hc.metadata hj' hlt
    rw [hmeta]
    exact (h.refs id hm).2 job hj
  · refine ⟨hknown id (live_of hj'), fun job hj => ?_⟩
    rw [hj'] at hj
    cases hj
    exact hl'

/-- A step at which no job enters and none is granted. -/
theorem of_shrinks (h : LaneFifo τ s) (hc : Change s s' e) (hs : Shrinks s s') (hr : Refers s'.Unlaned s s')
    (hp : position (e :: τ) = position τ) (hg : ∀ lane, laneGrants lane (e :: τ) = laneGrants lane τ) :
    LaneFifo (e :: τ) s' := by
  have hlined := h.lined.shrinks hs
  refine ⟨hp ▸ hlined, hp ▸ h.upto, h.refs_step hc hr hlined.known, fun lane g hm id job' hj' hl => ?_,
    fun lane => ?_, fun lane g hm => ?_⟩
  · obtain ⟨job, hj, hslot⟩ := hs.jobs id job' hj'
    rw [Lined.slot_metadata hslot] at hl
    rw [hp]
    exact h.granted lane g (hg lane ▸ hm) id job hj hl
  · rw [hp, hg]
    exact h.ordered lane
  · rw [hs.nextJobId]
    exact h.past lane g (hg lane ▸ hm)

/-- A job enters. -/
theorem of_entered (h : LaneFifo τ s) {s₁ : SchedulerState} {metadata : OutboundMeta}
    {options : EnqueueOptions} {slot : Slot} {o : EnqueueOutcome} (hid : o.job = s.nextJobId)
    (hc : Change s s' (.enqueued metadata options o)) (h₁ : Shrinks s s₁)
    (h₂ : Stays (s₁.entered metadata options slot) s') (hr : Refers s'.Unlaned s s')
    (hlined : Lined (position (.enqueued metadata options o :: τ)) (s₁.entered metadata options slot)
      fun _ => False)
    (hupto : position (.enqueued metadata options o :: τ) o.job ≤ o.job)
    (hbehind : ∀ lane, metadata.lane = some lane → ∀ g ∈ laneGrants lane τ,
      position τ g < position (.enqueued metadata options o :: τ) o.job) :
    LaneFifo (.enqueued metadata options o :: τ) s' := by
  have hold : ∀ a, a ≠ o.job → position (.enqueued metadata options o :: τ) a = position τ a := by
    intro a ha
    simp only [position, if_neg ha]
  have hpast : ∀ lane, ∀ g ∈ laneGrants lane τ,
      position (.enqueued metadata options o :: τ) g = position τ g := by
    intro lane g hg
    exact hold g (by rw [hid]; exact Nat.ne_of_lt (h.past lane g hg))
  have hl := hlined.shrinks (.of_stays h₂)
  refine ⟨hl, fun id => ?_, h.refs_step hc hr hl.known, fun lane g hg id job' hj' hlane => ?_, fun lane => ?_,
    fun lane g hg => ?_⟩
  · by_cases heq : id = o.job
    · rw [heq]
      exact hupto
    · rw [hold id heq]
      exact h.upto id
  · rw [hpast lane g hg]
    obtain ⟨job₂, hj₂, hs₂⟩ := h₂.job hj'
    rw [Lined.slot_metadata hs₂] at hlane
    have hview := s₁.entered_jobs (·.metadata) (fun _ _ => rfl) metadata options slot id
    rw [hj₂, Option.map_some] at hview
    split at hview
    · rename_i heq
      have hm : job₂.metadata = metadata := Option.some.inj hview
      rw [heq, h₁.nextJobId, ← hid]
      exact hbehind lane (hm ▸ hlane) g hg
    · rename_i hne
      rw [hold id (by rwa [hid, ← h₁.nextJobId])]
      rw [eq_comm, Option.map_eq_some_iff] at hview
      obtain ⟨job₁, hj₁, hm₁⟩ := hview
      obtain ⟨job, hj, hs⟩ := h₁.jobs id job₁ hj₁
      refine h.granted lane g hg id job hj ?_
      rw [← Lined.slot_metadata hs, hm₁]
      exact hlane
  · refine (h.ordered lane).imp_of_mem fun {a b} ha hb hlt => ?_
    rw [hpast lane a ha, hpast lane b hb]
    exact hlt
  · exact Nat.lt_of_lt_of_le (h.past lane g hg) hc.nextJobId_le

/-- A new job comes last. -/
theorem of_fresh (h : LaneFifo τ s) {s₁ : SchedulerState} {metadata : OutboundMeta}
    {options : EnqueueOptions} {slot : Slot} (hlo : slot.laneOrder = none) (h₁ : Stays s s₁)
    (hfit : s₁.nextJobId + 1 < u64Size) (h₂ : Stays (s₁.entered metadata options slot) s')
    (hc : Change s s' (.enqueued metadata options ⟨s₁.nextJobId, none⟩)) (hr : Refers s'.Unlaned s s') :
    LaneFifo (.enqueued metadata options ⟨s₁.nextJobId, none⟩ :: τ) s' := by
  have hpos : position (.enqueued metadata options ⟨s₁.nextJobId, none⟩ :: τ) s₁.nextJobId = s₁.nextJobId := by
    simp only [position, if_true]
  have hlast : ∀ a, s₁.live a = true → position τ a < s₁.nextJobId := fun a ha =>
    Nat.lt_of_le_of_lt (h.upto a) (h₁.nextJobId ▸ h.lined.known a ((Shrinks.of_stays h₁).live ha))
  refine h.of_entered h₁.nextJobId hc (.of_stays h₁) h₂ hr ?_ (Nat.le_of_eq hpos) fun lane _ g hg => ?_
  · refine (h.lined.shrinks (.of_stays h₁)).entered metadata options slot hfit (fun a ha => ?_)
      (fun a ha => ?_) fun lane _ => ?_
    · simp only [position, if_neg ha]
    · rw [hpos]
      exact Nat.ne_of_lt (hlast a ha)
    · rw [hlo, hpos]
      exact hlast
  · rw [hpos, h₁.nextJobId]
    exact Nat.lt_of_le_of_lt (h.upto g) (h.past lane g hg)

/-- A replacement takes the position of the job it supersedes. -/
theorem of_replaced (h : LaneFifo τ s) {s₁ : SchedulerState} {metadata : OutboundMeta}
    {options : EnqueueOptions} {slot : Slot} {old : JobId} {oldJob : Job}
    (hs : s.supersededJob (coalesceKeyOf metadata options.mode) = some (old, oldJob))
    (hlo : slot.laneOrder = oldJob.laneOrder) (h₁ : Removes s old s₁)
    (hfit : s₁.nextJobId + 1 < u64Size) (h₂ : Stays (s₁.entered metadata options slot) s')
    (hc : Change s s' (.enqueued metadata options ⟨s₁.nextJobId, some old⟩)) (hr : Refers s'.Unlaned s s') :
    LaneFifo (.enqueued metadata options ⟨s₁.nextJobId, some old⟩ :: τ) s' := by
  obtain ⟨hj, -, key, hkey, hco⟩ := supersededJob_some hs
  have hlive : s.live old = true := live_of hj
  have hsh := Shrinks.of_removes h₁
  have hpos : position (.enqueued metadata options ⟨s₁.nextJobId, some old⟩ :: τ) s₁.nextJobId =
      position τ old := by
    simp only [position, if_true]
  have hlane : metadata.lane = oldJob.metadata.lane := by
    rw [(h.lined.coalesce key old hco).2 oldJob hj]
    unfold coalesceKeyOf at hkey
    split at hkey
    · cases hkey
    · cases hkey
      rfl
  refine h.of_entered h₁.nextJobId hc hsh h₂ hr ?_ ?_ fun lane hl g hg => ?_
  · refine (h.lined.shrinks hsh).entered metadata options slot hfit (fun a ha => ?_)
      (fun a ha heq => ?_) fun lane hl => ?_
    · simp only [position, if_neg ha]
    · rw [hpos] at heq
      exact ((h₁.live_iff a).1 ha).1 (h.lined.apart a old (hsh.live ha) hlive heq)
    · rw [hlane] at hl
      obtain ⟨l, order, hlk, ho, he⟩ := h.lined.member old oldJob lane hj hl not_false
      have hw := h.lined.lanes lane l hlk
      rw [hlo, ho, hpos]
      intro l₁ hl₁
      obtain ⟨l₀, hl₀, hn, hsub⟩ := (hsh.lanes lane).before l₁ hl₁
      rw [hlk] at hl₀
      cases hl₀
      refine ⟨?_, fun e hm hle => ⟨fun hlt => ?_, fun hlt => ?_⟩⟩
      · rw [hn]
        exact hw.below.imp_right fun hb => hb _ he
      · exact hw.sorted e (hsub.mem hm) _ he (hsh.live hle) hlive hlt
      · exact hw.sorted _ he e (hsub.mem hm) hlive (hsh.live hle) hlt
  · rw [hpos]
    refine Nat.le_trans (h.upto old) (Nat.le_of_lt ?_)
    rw [h₁.nextJobId]
    exact h.lined.known old hlive
  · rw [hpos]
    exact h.granted lane g hg old oldJob hj (hlane ▸ hl)

/-- Through a lane its first live job is granted, and it leaves the front. -/
theorem granted_shrinks (h : LaneFifo τ s) {s₁ s₂ : SchedulerState} {c : Candidate} {job job₂ : Job} {now : Nat}
    (hp : Popped s now s₁ c) (hm : Moves s₁ s₂) (hj : s₁.jobs.lookup c.job = some job)
    (hj₂ : s₂.jobs.lookup c.job = some job₂) (hg : Grants s₂ c.job job₂ s') :
    Shrinks s s' ∧ ∀ lane, job.metadata.lane = some lane → ∃ l head, s.lanes.lookup lane = some l ∧
      l.firstLive s.live = some head ∧ head.job = c.job := by
  have h₂ : Moves s s₂ := hp.quiet.toMoves.trans hm
  have hmeta : job₂.metadata = job.metadata := by
    obtain ⟨job₃, hj₃, hcore⟩ := hm.job' hj
    rw [hj₂] at hj₃
    cases hj₃
    exact congrArg (·.1) (Job.slot_of_core hcore)
  have hlive' : ∀ a, s'.live a = true → s.live a = true := by
    intro a ha
    rw [← h₂.live_eq]
    exact ((hg.live_iff a).1 ha).2
  have hshrink (hlanes : ∀ lane, Thinned s'.live (s.lanes.lookup lane)
      ((s₂.takePermit c.job job₂).lanes.lookup lane)) : Shrinks s s' := by
    refine .of_core c.job (hg.nextJobId.trans h₂.nextJobId) (fun key a hc => ?_) (fun a => ?_)
      fun lane => (hlanes lane).trans (hg.lanes lane).thinned
    · have := hg.coalesce key a hc
      rwa [h₂.coalesce] at this
    · rw [hg.jobs a, h₂.jobs a]
  have hmoved (lane : OutboundLaneKey) : Thinned s'.live (s.lanes.lookup lane) (s₂.lanes.lookup lane) :=
    ((h₂.lanes lane).mono hlive').thinned
  cases hp with
  | @job key id job₀ hk href hj₀ hle =>
    have hnone : job.metadata.lane = none := by
      simp only [Table.lookup_insert_if, if_true, Option.some.injEq] at hj
      subst hj
      exact (h.refs id (href ▸ mentions_key (Heap.peek_mem hk))).2 job₀ hj₀
    refine ⟨hshrink fun lane => ?_, fun lane hl => ?_⟩
    · rw [takePermit_unlaned (hmeta ▸ hnone)]
      exact hmoved lane
    · rw [hnone] at hl
      cases hl
  | @lane key lane l head job₀ hk href hl hle hcap hf hj₀ hdelay heff hseq =>
    have hjob : job₀ = job := Option.some.inj (hj₀.symm.trans hj)
    subst hjob
    have hw := h.lined.lanes lane l hl
    have hown := (hw.own head (LaneState.firstLive_mem hf) job₀ hj₀).1
    refine ⟨hshrink fun k => ?_, fun k hk => ?_⟩
    · -- the front entry of the lane is still that of the candidate
      have hl₁ : LaneMoved s.live (some { l.drainDead s.live with inCandidateHeap := false })
          (s₂.lanes.lookup lane) := by
        have := hm.lanes lane
        simp only [Table.lookup_insert_if, if_true] at this
        exact this
      have hhead : head ∈ (l.drainDead s.live).pending :=
        LaneState.mem_drainDead_of_live (LaneState.firstLive_mem hf) (LaneState.firstLive_live hf)
      obtain ⟨l₂, hl₂, hin₂⟩ := hl₁.thinned.after _ head rfl hhead (LaneState.firstLive_live hf)
      obtain ⟨l₃, hl₃, hn₂, hsub₂⟩ := hl₁.thinned.before l₂ hl₂
      cases hl₃
      have hpeek : l₂.pending.peek = some head := by
        have hfront : (l.drainDead s.live).pending.peek = some head := by
          rw [LaneState.peek_drainDead, hf]
        have honce : (l₂.pending.entries.map (·.job)).Nodup :=
          (hw.once.sublist ((List.dropWhile_sublist _).map _)).sublist (hsub₂.map _)
        cases hp₂ : l₂.pending.peek with
        | none => exact absurd hin₂ (Heap.peek_none hp₂ head)
        | some e =>
          have hin : e ∈ (l.drainDead s.live).pending := hsub₂.mem (Heap.peek_mem hp₂)
          rcases Heap.peek_before hfront hin with rfl | hb
          · rfl
          · rcases Heap.peek_before hp₂ hin₂ with rfl | hb'
            · rfl
            · rw [LaneEntry.before_antisymm hb hb']
      obtain ⟨p, htake⟩ := takePermit_laned (hmeta ▸ hown) hl₂ hpeek head.job
      rw [htake]
      simp only [Table.lookup_insert_if]
      split
      · rename_i hkl
        subst hkl
        refine (hl₂ ▸ hmoved k).trans ⟨fun l' hl' => ?_, fun l' e hl' he hle => ?_⟩
        · cases hl'
          exact ⟨l₂, rfl, rfl, List.tail_sublist _⟩
        · cases hl'
          rcases Heap.mem_pop_or hpeek he with rfl | he
          · exact absurd rfl ((hg.live_iff _).1 hle).1
          · exact ⟨_, rfl, he⟩
      · exact hmoved k
    · rw [hown] at hk
      cases hk
      exact ⟨l, head, hl, hf, rfl⟩

theorem of_granted (h : LaneFifo τ s) {s₁ s₂ : SchedulerState} {c : Candidate} {job job₂ : Job} {now : Nat}
    (hp : Popped s now s₁ c) (hm : Moves s₁ s₂) (hj : s₁.jobs.lookup c.job = some job)
    (hj₂ : s₂.jobs.lookup c.job = some job₂) (hg : Grants s₂ c.job job₂ s')
    (hc : Change s s' (.granted ⟨c.job, job.correlationId⟩ job.metadata now))
    (hr : Refers s'.Unlaned s s') :
    LaneFifo (.granted ⟨c.job, job.correlationId⟩ job.metadata now :: τ) s' := by
  obtain ⟨hsh, hhead⟩ := h.granted_shrinks hp hm hj hj₂ hg
  have hlined := h.lined.shrinks hsh
  have hmem : ∀ lane g, g ∈ laneGrants lane (.granted ⟨c.job, job.correlationId⟩ job.metadata now :: τ) →
      g = c.job ∧ job.metadata.lane = some lane ∨ g ∈ laneGrants lane τ := by
    intro lane g hgm
    simp only [laneGrants] at hgm
    split at hgm
    · rename_i hlane
      rcases List.mem_cons.1 hgm with rfl | hgm
      · exact Or.inl ⟨rfl, hlane⟩
      · exact Or.inr hgm
    · exact Or.inr hgm
  have hlive : s.live c.job = true := by
    rw [← hp.quiet.live_eq]
    exact live_of hj
  obtain ⟨jobc, hjc, hcore⟩ := hp.quiet.toMoves.job hj
  have hmetac : job.metadata = jobc.metadata := congrArg (·.1) (Job.slot_of_core hcore)
  refine ⟨hlined, h.upto, h.refs_step hc hr hlined.known, fun lane g hgm id job' hj' hl => ?_, fun lane => ?_,
    fun lane g hgm => ?_⟩
  · obtain ⟨job₀, hj₀, hslot⟩ := hsh.jobs id job' hj'
    rw [Lined.slot_metadata hslot] at hl
    rcases hmem lane g hgm with ⟨rfl, hlane⟩ | hgm
    · obtain ⟨l, head, hlk, hf, hheadjob⟩ := hhead lane hlane
      have hne : id ≠ head.job := by
        rw [hheadjob]
        exact ((hg.live_iff id).1 (live_of hj')).1
      rw [← hheadjob]
      exact h.lined.firstLive_least hlk hf hj₀ hl not_false hne
    · exact h.granted lane g hgm id job₀ hj₀ hl
  · simp only [laneGrants]
    split
    · rename_i hlane
      refine List.pairwise_cons.2 ⟨fun g hgm => ?_, h.ordered lane⟩
      exact h.granted lane g hgm c.job jobc hjc (hmetac ▸ hlane)
    · exact h.ordered lane
  · rcases hmem lane g hgm with ⟨rfl, -⟩ | hgm
    · exact Nat.lt_of_lt_of_le (h.lined.known _ hlive) hc.nextJobId_le
    · exact Nat.lt_of_lt_of_le (h.past lane g hgm) hc.nextJobId_le

theorem step (h : LaneFifo τ s) (hc : Change s s' e) (hr : Refers s'.Unlaned s s') : LaneFifo (e :: τ) s' := by
  cases hc with
  | stays hs he =>
    exact h.of_shrinks (.stays hs he) (.of_stays hs) hr (position_idle he τ) fun lane => laneGrants_idle he lane τ
  | entered h₁ hsup hlo hfit h₂ => exact h.of_fresh hlo h₁ hfit h₂ (.entered h₁ hsup hlo hfit h₂) hr
  | replaced hs h₁ hsup hlo hfit h₂ =>
    exact h.of_replaced hs hlo h₁ hfit h₂ (.replaced hs h₁ hsup hlo hfit h₂) hr
  | cancelled hj hrm => exact h.of_shrinks (.cancelled hj hrm) (.of_removes hrm) hr rfl fun _ => rfl
  | cancelledLate hj hs => exact h.of_shrinks (.cancelledLate hj hs) (.of_stays hs) hr rfl fun _ => rfl
  | started hs => exact h.of_shrinks (.started hs) (.of_starts hs) hr rfl fun _ => rfl
  | completed hcm => exact h.of_shrinks (.completed hcm) (.of_completes hcm) hr rfl fun _ => rfl
  | granted hp hm hj hj₂ hg => exact h.of_granted hp hm hj hj₂ hg (.granted hp hm hj hj₂ hg) hr

theorem init {x : Sys} (h : resumed.init x) : LaneFifo [] x.sched := by
  obtain ⟨x₀, lanes, ⟨-, limits, classLimits, aging, hs⟩, hlanes, rfl⟩ := h
  rw [newWithClassLimits_ok hs]
  have hnone : ∀ id, ({ SchedulerState.initial limits classLimits aging with lanes := lanes } : SchedulerState).live
      id = false := fun _ => rfl
  refine ⟨⟨fun id hl => ?_, (by decide : 0 < u64Size), fun a b ha => ?_, fun id job key hj => ?_,
    fun key id hc => ?_, fun id job lane hj => ?_, fun lane l hl => ?_⟩, fun id => Nat.le_refl id, fun id hm => ?_,
    fun lane g hg => ?_, fun lane => List.Pairwise.nil, fun lane g hg => ?_⟩
  · rw [hnone] at hl
    cases hl
  · rw [hnone] at ha
    cases ha
  · cases hj
  · cases hc
  · cases hj
  · obtain ⟨hempty, hfits⟩ := hlanes lane l hl
    have hno : ∀ e, ¬ e ∈ l.pending := hempty ▸ Heap.not_mem_empty
    exact ⟨hfits, Or.inr fun e he => absurd he (hno e), hempty ▸ List.nodup_nil, fun e he => absurd he (hno e),
      fun e he => absurd he (hno e), fun e he => absurd he (hno e)⟩
  · rcases hm with ⟨k, hk, -⟩ | ⟨n, hn, -⟩ | ⟨a, ha, -⟩ | ⟨w, res, hw, -⟩ | ⟨w, res, hw, -⟩
    · exact absurd hk (Heap.not_mem_empty k)
    · exact absurd hn (Heap.not_mem_empty n)
    · exact absurd ha (Heap.not_mem_empty a)
    · cases hw
    · cases hw
  · cases hg
  · cases hg

end LaneFifo

theorem laneFifo_run {ok : Sys → Action → Prop} {τ : List Event} {x : Sys} (hr : resumed.Run ok τ x) :
    LaneFifo τ x.sched := by
  refine Machine.Run.induct (M := resumed) (I := fun τ x => LaneFifo τ x.sched) (fun _ => LaneFifo.init) ?_ hr
  intro τ x a x' e _ h _ hs
  have hs' : scheduler.step x a = some (x', e) := hs
  exact h.step (step_change hs') (step_refers hs')

/-- A lane grants in the order of the positions, and whatever is still pending
in it stands behind all that it has granted. -/
theorem lane_fifo {τ : List Event} {x : Sys} (hr : resumed.Run Machine.anything τ x) (lane : OutboundLaneKey) :
    (laneGrants lane τ).Pairwise (fun later earlier => position τ earlier < position τ later) ∧
      ∀ granted ∈ laneGrants lane τ, ∀ id job, x.sched.jobs.lookup id = some job →
        job.metadata.lane = some lane → position τ granted < position τ id :=
  ⟨(laneFifo_run hr).ordered lane, fun g hg id job hj hl => (laneFifo_run hr).granted lane g hg id job hj hl⟩

/-- A lane whose counter is at its last value takes three jobs, the second of
them is replaced, and all go through. -/
def wrapRun : List Action :=
  [.enqueue (.plain 10 (some 7)) (.plain 0),
    .enqueue (.plain 20 (some 7)) { EnqueueOptions.plain 0 with mode := .replacePending 1 },
    .enqueue (.plain 30 (some 7)) (.plain 0),
    .enqueue (.plain 20 (some 7)) { EnqueueOptions.plain 0 with mode := .replacePending 1 }] ++
  Action.pass 1 [] 1 ++ [.complete 0 .success 1 1] ++ Action.pass 1 [] 1 ++ [.complete 3 .success 1 1] ++
  Action.pass 1 [] 1

def wrapStart : Sys :=
  { Sys.fresh [] with
    sched := { (Sys.fresh []).sched with
      lanes := (∅ : Table OutboundLaneKey LaneState).insert 7 { LaneState.new .serial with nextOrder := u64Size - 1 } } }

theorem lane_fifo_wrapRun : ∃ τ x, resumed.Run Machine.anything τ x ∧ laneGrants 7 τ = [2, 3, 0] ∧
    [2, 3, 0].Pairwise fun later earlier => position τ earlier < position τ later := by
  have hi : resumed.init wrapStart := by
    refine ⟨.fresh [], _, Sys.fresh_init rfl, fun lane l hl => ?_, rfl⟩
    rw [Table.lookup_insert_if] at hl
    split at hl
    · cases hl
      exact ⟨rfl, by decide⟩
    · cases hl
  have hg : (resumed.exec Machine.anything [] wrapStart wrapRun).map (fun r => laneGrants 7 r.1) =
      some [2, 3, 0] := by decide
  rw [Option.map_eq_some_iff] at hg
  obtain ⟨⟨τ, x⟩, he, hg⟩ := hg
  have hr := Machine.run_of_exec (.start hi) he
  exact ⟨τ, x, hr, hg, hg ▸ (lane_fifo hr 7).1⟩

end Teloxide.Outbound
