import Teloxide.Outbound.Scheduler.Run

/-!
# What moving references leaves alone

Most of the scheduler only moves references between the heaps, the reservation
queues and the lanes. `Moves s s'` says what such code keeps: every job but for
the marks of where it waits, every lane but for dead entries at its front, the
permits, the counters and the limits. A lane may be dropped, and then no job of
it is pending.

* `pushLaneHeadCandidate_cases`: everything that pushing a lane can do.
* `settle_moves`, `beginPass_…`: the frame of the whole pass, put together from
  the frames of its parts.
-/
namespace Teloxide.Outbound

open Teloxide.Core

/-- A job without the marks of where it waits. -/
def Job.core (j : Job) : Job :=
  { j with inCandidateHeap := false, candidateEffective := 0, inBlockedHeap := false
           parkedIn := none, reservationOwner := none }

namespace LaneState

/-- The first entry of a job that still exists. -/
def firstLive (live : JobId → Bool) (l : LaneState) : Option LaneEntry :=
  l.pending.entries.find? (live ·.job)

theorem isIdle_iff {l : LaneState} : l.isIdle = true ↔ l.pending.entries = [] ∧ l.free = true := by
  rw [isIdle, Bool.and_eq_true, Heap.isEmpty, List.isEmpty_iff]

theorem anyLive_iff {live : JobId → Bool} {l : LaneState} :
    l.anyLive live = true ↔ ∃ e ∈ l.pending, live e.job = true := by
  simp [anyLive, Heap.mem_def]

@[simp] theorem peek_drainDead (live : JobId → Bool) (l : LaneState) :
    (l.drainDead live).pending.peek = l.firstLive live := by
  simp only [drainDead, Heap.peek, Heap.dropWhile, firstLive]
  induction l.pending.entries with
  | nil => rfl
  | cons e _ ih => cases h : live e.job <;> simp [h, ih]

theorem firstLive_mem {live : JobId → Bool} {l : LaneState} {e : LaneEntry}
    (h : l.firstLive live = some e) : e ∈ l.pending := List.mem_of_find?_eq_some h

theorem firstLive_live {live : JobId → Bool} {l : LaneState} {e : LaneEntry}
    (h : l.firstLive live = some e) : live e.job = true := by
  simpa using List.find?_some h

theorem firstLive_none {live : JobId → Bool} {l : LaneState} :
    l.firstLive live = none ↔ ∀ e ∈ l.pending, live e.job = false := by
  simp [firstLive, Heap.mem_def]

/-- Every other entry of a live job comes after the first one. -/
theorem firstLive_before {live : JobId → Bool} {l : LaneState} {e e' : LaneEntry}
    (h : l.firstLive live = some e) (he' : e' ∈ l.pending) (hl : live e'.job = true) :
    e' = e ∨ e.before e' := by
  obtain ⟨_, as, bs, hs, hd⟩ := List.find?_eq_some_iff_append.1 h
  have hp := l.pending.sorted
  rw [Heap.mem_def, hs] at he'
  rw [hs] at hp
  rcases List.mem_append.1 he' with ha | hb
  · have := hd _ ha
    simp [hl] at this
  · rcases List.mem_cons.1 hb with rfl | hb
    · exact Or.inl rfl
    · exact Or.inr ((List.pairwise_cons.1 (List.pairwise_append.1 hp).2.1).1 _ hb)

theorem mem_drainDead {live : JobId → Bool} {l : LaneState} {e : LaneEntry}
    (h : e ∈ (l.drainDead live).pending) : e ∈ l.pending := Heap.mem_of_mem_dropWhile h

theorem mem_drainDead_of_live {live : JobId → Bool} {l : LaneState} {e : LaneEntry}
    (h : e ∈ l.pending) (hl : live e.job = true) : e ∈ (l.drainDead live).pending :=
  Heap.mem_dropWhile_of_not h (by simp [hl])

end LaneState

/-- What moving references may do to the lane under a key. -/
inductive LaneMoved (live : JobId → Bool) : Option LaneState → Option LaneState → Prop
  | absent : LaneMoved live none none
  | kept {l l'} : l'.mode = l.mode → l'.inFlight = l.inFlight → l'.inFlightCount = l.inFlightCount →
      l'.nextOrder = l.nextOrder → l'.pending.entries.Sublist l.pending.entries →
      (∀ e ∈ l.pending, live e.job = true → e ∈ l'.pending) → LaneMoved live (some l) (some l')
  | dropped {l} : (∀ e ∈ l.pending, live e.job = false) → (l.hasCapacity = true ∨ l.free = true) →
      LaneMoved live (some l) none

namespace LaneMoved

variable {live : JobId → Bool}

theorem refl : ∀ o : Option LaneState, LaneMoved live o o
  | none => .absent
  | some _ => .kept rfl rfl rfl rfl (.refl _) fun _ h _ => h

theorem hasCapacity_eq {l l' : LaneState} (hm : l'.mode = l.mode)
    (hc : l'.inFlightCount = l.inFlightCount) : l'.hasCapacity = l.hasCapacity := by
  simp only [LaneState.hasCapacity, hm, hc]

theorem free_eq {l l' : LaneState} (hm : l'.mode = l.mode) (hi : l'.inFlight = l.inFlight)
    (hc : l'.inFlightCount = l.inFlightCount) : l'.free = l.free := by
  simp only [LaneState.free, hm, hi, hc]

theorem trans {a b c : Option LaneState} (h : LaneMoved live a b) (h' : LaneMoved live b c) :
    LaneMoved live a c := by
  cases h with
  | absent => exact h'
  | dropped hd hf => cases h' with | absent => exact .dropped hd hf
  | kept hm hi hc ho hsub hkeep =>
    cases h' with
    | kept hm' hi' hc' ho' hsub' hkeep' =>
      exact .kept (hm'.trans hm) (hi'.trans hi) (hc'.trans hc) (ho'.trans ho)
        (hsub'.trans hsub) fun e he hl => hkeep' e (hkeep e he hl) hl
    | dropped hd hf =>
      refine .dropped (fun e he => ?_) (by rwa [hasCapacity_eq hm hc, free_eq hm hi hc] at hf)
      cases hl : live e.job with
      | false => rfl
      | true => rw [← hl, hd e (hkeep e he hl)]

/-- With fewer jobs left, less has to be kept. -/
theorem mono {live' : JobId → Bool} (hl : ∀ a, live' a = true → live a = true) {a b : Option LaneState}
    (h : LaneMoved live a b) : LaneMoved live' a b := by
  cases h with
  | absent => exact .absent
  | kept hm hi hc ho hsub hkeep =>
    exact .kept hm hi hc ho hsub fun e he hv => hkeep e he (hl _ hv)
  | dropped hd hf =>
    refine .dropped (fun e he => ?_) hf
    cases hv : live' e.job with
    | false => rfl
    | true => rw [← hl _ hv, hd e he]

theorem drained (l : LaneState) : LaneMoved live (some l) (some (l.drainDead live)) :=
  .kept rfl rfl rfl rfl (List.dropWhile_sublist _)
    fun _ h hl => LaneState.mem_drainDead_of_live h hl

end LaneMoved

namespace SchedulerState

theorem live_iff {s : SchedulerState} {id : JobId} :
    s.live id = true ↔ ∃ job, s.jobs.lookup id = some job := Table.contains_iff _ _

theorem live_of {s : SchedulerState} {id : JobId} {job : Job} (h : s.jobs.lookup id = some job) :
    s.live id = true := live_iff.2 ⟨job, h⟩

theorem not_live_iff {s : SchedulerState} {id : JobId} :
    s.live id = false ↔ s.jobs.lookup id = none := by
  simp [live, Table.contains]

/-- Everything that no reference move touches, but for the budgets. -/
def fixed (s : SchedulerState) :=
  (s.inFlight, s.coalesce, s.nextJobId, s.nextSequence, s.aging, s.classLimits, s.chatLimits, s.globalLimits)

/-- The rate budgets and the penalties. -/
def budgets (s : SchedulerState) :=
  (s.globalWindows, s.chatWindowSets, s.classGlobalWindows, s.classChatWindowSets, s.penalties)

/-- `s'` is `s` with some references moved. -/
structure Moves (s s' : SchedulerState) : Prop where
  fixed : s'.fixed = s.fixed
  jobs : ∀ id, (s'.jobs.lookup id).map Job.core = (s.jobs.lookup id).map Job.core
  lanes : ∀ lane, LaneMoved s.live (s.lanes.lookup lane) (s'.lanes.lookup lane)

/-- A move that leaves the budgets alone as well. -/
structure Quiet (s s' : SchedulerState) : Prop extends Moves s s' where
  budgets : s'.budgets = s.budgets

namespace Moves

variable {s s' s'' : SchedulerState}

theorem refl (s : SchedulerState) : Moves s s := ⟨rfl, fun _ => rfl, fun _ => .refl _⟩

theorem isSome_eq (h : Moves s s') (id : JobId) :
    (s'.jobs.lookup id).isSome = (s.jobs.lookup id).isSome := by
  have := congrArg Option.isSome (h.jobs id)
  simpa using this

theorem live_eq (h : Moves s s') : s'.live = s.live := funext h.isSome_eq

theorem trans (h : Moves s s') (h' : Moves s' s'') : Moves s s'' where
  fixed := h'.fixed.trans h.fixed
  jobs id := (h'.jobs id).trans (h.jobs id)
  lanes lane := (h.lanes lane).trans (h.live_eq ▸ h'.lanes lane)

/-- A job after the move is one before it, but for the marks. -/
theorem job (h : Moves s s') {id : JobId} {job' : Job} (hl : s'.jobs.lookup id = some job') :
    ∃ job, s.jobs.lookup id = some job ∧ job'.core = job.core := by
  have hj := h.jobs id
  rw [hl] at hj
  cases hs : s.jobs.lookup id with
  | none => simp [hs] at hj
  | some job => exact ⟨job, rfl, by simpa [hs] using hj⟩

/-- A job before the move is there after it, but for the marks. -/
theorem job' (h : Moves s s') {id : JobId} {job : Job} (hl : s.jobs.lookup id = some job) :
    ∃ job', s'.jobs.lookup id = some job' ∧ job'.core = job.core := by
  have hj := h.jobs id
  rw [hl] at hj
  cases hs : s'.jobs.lookup id with
  | none => simp [hs] at hj
  | some job' => exact ⟨job', rfl, by simpa [hs] using hj⟩

theorem inFlight (h : Moves s s') : s'.inFlight = s.inFlight := congrArg (·.1) h.fixed
theorem coalesce (h : Moves s s') : s'.coalesce = s.coalesce := congrArg (·.2.1) h.fixed
theorem nextJobId (h : Moves s s') : s'.nextJobId = s.nextJobId := congrArg (·.2.2.1) h.fixed
theorem nextSequence (h : Moves s s') : s'.nextSequence = s.nextSequence := congrArg (·.2.2.2.1) h.fixed
theorem aging (h : Moves s s') : s'.aging = s.aging := congrArg (·.2.2.2.2.1) h.fixed
theorem classLimits (h : Moves s s') : s'.classLimits = s.classLimits := congrArg (·.2.2.2.2.2.1) h.fixed
theorem chatLimits (h : Moves s s') : s'.chatLimits = s.chatLimits := congrArg (·.2.2.2.2.2.2.1) h.fixed
theorem globalLimits (h : Moves s s') : s'.globalLimits = s.globalLimits := congrArg (·.2.2.2.2.2.2.2) h.fixed

/-- Jobs and lanes as they were. -/
theorem of_eq (hj : s'.jobs = s.jobs) (hl : s'.lanes = s.lanes) (hf : s'.fixed = s.fixed) : Moves s s' :=
  ⟨hf, fun _ => by rw [hj], fun _ => by rw [hl]; exact .refl _⟩

end Moves

namespace Quiet

variable {s s' s'' : SchedulerState}

theorem refl (s : SchedulerState) : Quiet s s := ⟨.refl s, rfl⟩

theorem trans (h : Quiet s s') (h' : Quiet s' s'') : Quiet s s'' :=
  ⟨h.toMoves.trans h'.toMoves, h'.budgets.trans h.budgets⟩

theorem of_eq (hj : s'.jobs = s.jobs) (hl : s'.lanes = s.lanes) (hf : s'.fixed = s.fixed)
    (hb : s'.budgets = s.budgets) : Quiet s s' := ⟨.of_eq hj hl hf, hb⟩

/-- One job is stored with other marks. -/
theorem of_job {id : JobId} {job job' : Job} (hl : s.jobs.lookup id = some job)
    (hj : s'.jobs = s.jobs.insert id job') (hc : job'.core = job.core) (hs : s'.lanes = s.lanes)
    (hf : s'.fixed = s.fixed) (hb : s'.budgets = s.budgets) : Quiet s s' := by
  refine ⟨⟨hf, fun a => ?_, fun _ => by rw [hs]; exact .refl _⟩, hb⟩
  rw [hj, Table.view_insert hl hc]

/-- One job is modified in its marks. -/
theorem of_modify {id : JobId} {f : Job → Job} (hj : s'.jobs = s.jobs.modify id f)
    (hc : ∀ j, (f j).core = j.core) (hs : s'.lanes = s.lanes) (hf : s'.fixed = s.fixed)
    (hb : s'.budgets = s.budgets) : Quiet s s' := by
  refine ⟨⟨hf, fun a => ?_, fun _ => by rw [hs]; exact .refl _⟩, hb⟩
  rw [hj, Table.view_modify hc]

/-- One lane is stored anew. -/
theorem of_lane {lane : OutboundLaneKey} {l l' : LaneState} (hl : s.lanes.lookup lane = some l)
    (hs : s'.lanes = s.lanes.insert lane l') (hm : LaneMoved s.live (some l) (some l'))
    (hj : s'.jobs = s.jobs) (hf : s'.fixed = s.fixed) (hb : s'.budgets = s.budgets) : Quiet s s' := by
  refine ⟨⟨hf, fun _ => by rw [hj], fun a => ?_⟩, hb⟩
  rw [hs, Table.lookup_insert_if]
  split
  · rename_i ha
    subst ha; rw [hl]; exact hm
  · exact .refl _

/-- One lane is dropped. -/
theorem of_erase {lane : OutboundLaneKey} {l : LaneState} (hl : s.lanes.lookup lane = some l)
    (hs : s'.lanes = s.lanes.erase lane) (hm : LaneMoved s.live (some l) none)
    (hj : s'.jobs = s.jobs) (hf : s'.fixed = s.fixed) (hb : s'.budgets = s.budgets) : Quiet s s' := by
  refine ⟨⟨hf, fun _ => by rw [hj], fun a => ?_⟩, hb⟩
  rw [hs, Table.lookup_erase_if]
  split
  · rename_i ha
    subst ha; rw [hl]; exact hm
  · exact .refl _

end Quiet

/-! ## Pushing -/

theorem scheduleAging_eq (s : SchedulerState) (reference : CandidateRef) (keyed base readyAt : Nat) :
    ∃ events p, s.scheduleAging reference keyed base readyAt =
      { s with agingEvents := events, panicked := p } := by
  unfold scheduleAging
  split
  · exact ⟨s.agingEvents, s.panicked, rfl⟩
  · split
    · exact ⟨s.agingEvents, s.panicked, rfl⟩
    · exact ⟨_, _, rfl⟩

theorem scheduleAging_quiet (s : SchedulerState) (reference : CandidateRef) (keyed base readyAt : Nat) :
    Quiet s (s.scheduleAging reference keyed base readyAt) := by
  obtain ⟨events, p, h⟩ := s.scheduleAging_eq reference keyed base readyAt
  rw [h]; exact .of_eq rfl rfl rfl rfl

theorem pushJobCandidate_quiet (s : SchedulerState) (id : JobId) (now : Nat) :
    Quiet s (s.pushJobCandidate id now) := by
  unfold pushJobCandidate
  split
  · exact .refl s
  · rename_i job hj
    refine .trans ?_ (scheduleAging_quiet _ _ _ _ _)
    exact .of_job hj rfl rfl rfl rfl rfl

/-- The lane as `push_lane_head_candidate` leaves it once its head is queued. -/
def queueLane (s : SchedulerState) (lane : OutboundLaneKey) (l : LaneState) (job : Job) (now : Nat) :
    SchedulerState :=
  { s.check (l.drainFits s.live) with
    lanes := s.lanes.insert lane
      { l.drainDead s.live with
        inCandidateHeap := true, candidateEffective := effectivePriority job s.aging now }
    candidates := s.candidates.push ⟨effectivePriority job s.aging now, job.sequence, .lane lane⟩ }

/-- Everything `push_lane_head_candidate` can do. -/
inductive LanePush (s : SchedulerState) (lane : OutboundLaneKey) (now : Nat) : SchedulerState → Prop
  | absent : s.lanes.lookup lane = none → LanePush s lane now s
  | full {l} : s.lanes.lookup lane = some l → l.hasCapacity = false → LanePush s lane now s
  | asleep {l} : s.lanes.lookup lane = some l → l.hasCapacity = true → l.inBlockedHeap = true →
      LanePush s lane now s
  | dropped {l} : s.lanes.lookup lane = some l → l.hasCapacity = true → l.inBlockedHeap = false →
      l.firstLive s.live = none →
      LanePush s lane now { s.check (l.drainFits s.live) with lanes := s.lanes.erase lane }
  | drained {l head job} : s.lanes.lookup lane = some l → l.hasCapacity = true →
      l.inBlockedHeap = false → l.firstLive s.live = some head → s.jobs.lookup head.job = some job →
      (job.notBefore.any (now < ·) = true ∨ l.inCandidateHeap = true) →
      LanePush s lane now
        { s.check (l.drainFits s.live) with lanes := s.lanes.insert lane (l.drainDead s.live) }
  | pushed {l head job} : s.lanes.lookup lane = some l → l.hasCapacity = true →
      l.inBlockedHeap = false → l.firstLive s.live = some head → s.jobs.lookup head.job = some job →
      job.notBefore.any (now < ·) = false → l.inCandidateHeap = false →
      LanePush s lane now ((s.queueLane lane l job now).scheduleAging (.lane lane)
        (effectivePriority job s.aging now) job.metadata.priority.val job.readyAt)

theorem pushLaneHeadCandidate_cases (s : SchedulerState) (lane : OutboundLaneKey) (now : Nat) :
    LanePush s lane now (s.pushLaneHeadCandidate lane now) := by
  unfold pushLaneHeadCandidate
  cases hl : s.lanes.lookup lane with
  | none => exact .absent hl
  | some l =>
    dsimp only
    by_cases hc : l.hasCapacity = true
    · by_cases hb : l.inBlockedHeap = true
      · rw [if_neg (by simp [hc]), if_pos hb]
        exact .asleep hl hc hb
      · rw [if_neg (by simp [hc]), if_neg hb, LaneState.peek_drainDead]
        rw [Bool.not_eq_true] at hb
        cases hf : l.firstLive s.live with
        | none => exact .dropped hl hc hb hf
        | some head =>
          obtain ⟨job, hjob⟩ := live_iff.1 (LaneState.firstLive_live hf)
          have hjob' : (s.check (l.drainFits s.live)).jobs.lookup head.job = some job := hjob
          simp only [Option.bind_some, hjob']
          by_cases hw : (job.notBefore.any (now < ·) || l.inCandidateHeap) = true
          · rw [if_pos hw]
            exact .drained hl hc hb hf hjob (Bool.or_eq_true_iff.1 hw)
          · have hw' := hw
            rw [Bool.not_eq_true, Bool.or_eq_false_iff] at hw'
            rw [if_neg hw]
            exact .pushed hl hc hb hf hjob hw'.1 hw'.2
    · rw [if_pos (by simp [hc])]
      exact .full hl (by simpa using hc)

theorem queueLane_quiet {s : SchedulerState} {lane : OutboundLaneKey} {l : LaneState}
    (hl : s.lanes.lookup lane = some l) (job : Job) (now : Nat) : Quiet s (s.queueLane lane l job now) := by
  refine .of_lane hl rfl ?_ rfl rfl rfl
  exact (LaneMoved.drained l).trans (.kept rfl rfl rfl rfl (.refl _) fun _ h _ => h)

theorem pushLaneHeadCandidate_quiet (s : SchedulerState) (lane : OutboundLaneKey) (now : Nat) :
    Quiet s (s.pushLaneHeadCandidate lane now) := by
  have h := s.pushLaneHeadCandidate_cases lane now
  generalize s.pushLaneHeadCandidate lane now = s' at h ⊢
  cases h with
  | absent | full | asleep => exact .refl s
  | dropped hl hc _ hf =>
    exact .of_erase hl rfl (.dropped (LaneState.firstLive_none.1 hf) (Or.inl hc)) rfl rfl rfl
  | drained hl => exact .of_lane hl rfl (.drained _) rfl rfl rfl
  | pushed hl => exact (queueLane_quiet hl _ now).trans (scheduleAging_quiet _ _ _ _ _)

theorem pushReference_quiet (s : SchedulerState) (reference : CandidateRef) (now : Nat) :
    Quiet s (s.pushReference reference now) := by
  cases reference with
  | job id => exact s.pushJobCandidate_quiet id now
  | lane key => exact s.pushLaneHeadCandidate_quiet key now

theorem pushCandidate_quiet (s : SchedulerState) (c : Candidate) (now : Nat) :
    Quiet s (s.pushCandidate c now) := by
  unfold pushCandidate
  split
  · exact .refl s
  · split
    · exact s.pushLaneHeadCandidate_quiet _ now
    · exact s.pushJobCandidate_quiet _ now

/-- Quiet steps over a list. -/
theorem Quiet.foldl {α : Type} {f : SchedulerState → α → SchedulerState} (hf : ∀ s a, Quiet s (f s a)) :
    ∀ (l : List α) (s : SchedulerState), Quiet s (l.foldl f s)
  | [], s => .refl s
  | a :: l, s => (hf s a).trans (Quiet.foldl hf l (f s a))

theorem wakeParked_quiet (s : SchedulerState) (window : WindowRef) (now : Nat) (reference : CandidateRef) :
    Quiet s (s.wakeParked window now reference) := by
  unfold wakeParked
  split
  · refine .trans ?_ (pushReference_quiet _ _ _)
    refine .of_modify rfl (fun j => ?_) rfl rfl rfl
    split <;> rfl
  · exact s.pushReference_quiet _ now

theorem releaseReservation_quiet (s : SchedulerState) (window : WindowRef) (owner : CandidateRef)
    (now : Nat) : Quiet s (s.releaseReservation window owner now) := by
  unfold releaseReservation
  split
  · exact .refl s
  · split
    · refine .trans ?_ (Quiet.foldl (fun s r => s.wakeParked_quiet window now r) _ _)
      exact .of_eq rfl rfl rfl rfl
    · exact .refl s

/-! ## Compaction -/

theorem compactDelayedIfNeeded_quiet (s : SchedulerState) : Quiet s s.compactDelayedIfNeeded := by
  unfold compactDelayedIfNeeded
  split
  · exact .refl s
  · exact .of_eq rfl rfl rfl rfl

theorem compactCandidateHeapIfNeeded_quiet (s : SchedulerState) :
    Quiet s s.compactCandidateHeapIfNeeded := by
  unfold compactCandidateHeapIfNeeded
  split
  · exact .refl s
  · exact .of_eq rfl rfl rfl rfl

theorem compactBlockedIfNeeded_quiet (s : SchedulerState) : Quiet s s.compactBlockedIfNeeded := by
  unfold compactBlockedIfNeeded
  split
  · exact .refl s
  · exact .of_eq rfl rfl rfl rfl

theorem compactReservationsIfNeeded_quiet (s : SchedulerState) :
    Quiet s s.compactReservationsIfNeeded := .of_eq rfl rfl rfl rfl

theorem compactLanesIfNeeded_quiet (s : SchedulerState) : Quiet s s.compactLanesIfNeeded := by
  refine ⟨⟨rfl, fun _ => rfl, fun lane => ?_⟩, rfl⟩
  simp only [compactLanesIfNeeded, Table.lookup_mapValues]
  cases hl : s.lanes.lookup lane with
  | none => exact .absent
  | some l =>
    simp only [Option.map_some]
    split
    · exact .kept rfl rfl rfl rfl List.filter_sublist fun e he hv => Heap.mem_filter.2 ⟨he, hv⟩
    · exact .refl _

/-! ## Promotions -/

theorem fireAging_quiet (s : SchedulerState) (reference : CandidateRef) (now : Nat) :
    Quiet s (s.fireAging reference now) := by
  unfold fireAging
  split
  · split
    · exact .refl s
    · rename_i job hj
      dsimp only
      split
      · exact .refl s
      · refine .trans ?_ (scheduleAging_quiet _ _ _ _ _)
        exact .of_job hj rfl rfl rfl rfl rfl
  · split
    · exact .refl s
    · rename_i l hl
      split
      · exact .refl s
      · split
        · exact .refl s
        · dsimp only
          split
          · exact scheduleAging_quiet _ _ _ _ _
          · refine .trans ?_ (scheduleAging_quiet _ _ _ _ _)
            exact .of_lane hl rfl (.kept rfl rfl rfl rfl (.refl _) fun _ h _ => h) rfl rfl rfl

theorem promoteAging_quiet {now : Nat} :
    ∀ {fuel : Nat} {s s' : SchedulerState}, promoteAging now fuel s = some s' → Quiet s s'
  | 0, s, s', h => by cases h
  | fuel + 1, s, s', h => by
    unfold promoteAging at h
    split at h
    · cases h; exact .refl s
    · split at h
      · cases h; exact .refl s
      · have hq : Quiet s { s with agingEvents := s.agingEvents.pop } := .of_eq rfl rfl rfl rfl
        exact (hq.trans (fireAging_quiet _ _ _)).trans (promoteAging_quiet h)

theorem wakeBlocked_quiet (s : SchedulerState) (node : BlockedJob) (now : Nat) :
    Quiet s (s.wakeBlocked node now) := by
  unfold wakeBlocked dropStaleBlocked
  split
  · split
    · exact .of_eq rfl rfl rfl rfl
    · rename_i job hj
      split
      · exact .refl s
      · split
        · exact .of_eq rfl rfl rfl rfl
        · refine .trans ?_ (pushJobCandidate_quiet _ _ _)
          exact .of_job hj rfl rfl rfl rfl rfl
  · split
    · exact .of_eq rfl rfl rfl rfl
    · rename_i l hl
      split
      · exact .of_eq rfl rfl rfl rfl
      · split
        · exact .of_eq rfl rfl rfl rfl
        · have hm : LaneMoved s.live (some l) (some { l with inBlockedHeap := false }) :=
            .kept rfl rfl rfl rfl (.refl _) fun _ h _ => h
          dsimp only
          split
          · exact .of_lane hl rfl hm rfl rfl rfl
          · refine .trans ?_ (pushLaneHeadCandidate_quiet _ _ _)
            exact .of_lane hl rfl hm rfl rfl rfl

theorem promoteBlockedLoop_quiet {now : Nat} :
    ∀ (n : Nat) (s : SchedulerState), Quiet s (promoteBlockedLoop now n s)
  | 0, s => .refl s
  | n + 1, s => by
    unfold promoteBlockedLoop
    split
    · exact .refl s
    · split
      · exact .refl s
      · have hq : Quiet s { s with blocked := s.blocked.pop } := .of_eq rfl rfl rfl rfl
        exact (hq.trans (wakeBlocked_quiet _ _ _)).trans (promoteBlockedLoop_quiet n _)

theorem promoteBlocked_quiet (s : SchedulerState) (now : Nat) : Quiet s (s.promoteBlocked now) :=
  promoteBlockedLoop_quiet _ s

theorem unpark_quiet (s : SchedulerState) (window : WindowRef) (reference : CandidateRef)
    (rest : Reservation) : Quiet s (s.unpark window reference rest) := by
  cases reference with
  | job => exact .of_modify rfl (fun _ => rfl) rfl rfl rfl
  | lane => exact .of_eq rfl rfl rfl rfl

theorem promoteReservation_quiet (s : SchedulerState) (window : WindowRef) (now : Nat) :
    Quiet s (s.promoteReservation window now) := by
  unfold promoteReservation
  split
  · exact .refl s
  · dsimp only
    split
    · exact .of_eq rfl rfl rfl rfl
    · exact .trans (unpark_quiet _ _ _ _) (pushReference_quiet _ _ _)

theorem promoteReservations_quiet (s : SchedulerState) (order : List WindowRef) (now : Nat) :
    Quiet s (s.promoteReservations order now) :=
  Quiet.foldl (fun s window => s.promoteReservation_quiet window now) order s

/-! ## The pop -/

theorem dropLaneIfIdle_quiet (s : SchedulerState) (lane : OutboundLaneKey) :
    Quiet s (s.dropLaneIfIdle lane) := by
  unfold dropLaneIfIdle
  cases hl : s.lanes.lookup lane with
  | none => exact .refl s
  | some l =>
    simp only [Option.any_some]
    split
    · rename_i hi
      rw [LaneState.isIdle_iff] at hi
      refine .of_erase hl rfl (.dropped (fun e he => ?_) (Or.inr hi.2)) rfl rfl rfl
      rw [Heap.mem_def, hi.1] at he
      cases he
    · exact .refl s

/-- The state a turn of the pop leaves. -/
def Turn.sched : Turn → SchedulerState
  | .skipped s => s
  | .popped s _ => s

theorem popJob_quiet (s : SchedulerState) (key : CandidateKey) (id : JobId) :
    Quiet s (s.popJob key id).sched := by
  unfold popJob countStale
  split
  · exact .of_eq rfl rfl rfl rfl
  · rename_i job hj
    split
    · exact .of_eq rfl rfl rfl rfl
    · exact .of_job hj rfl rfl rfl rfl rfl

theorem popLane_quiet (s : SchedulerState) (key : CandidateKey) (lane : OutboundLaneKey) (now : Nat) :
    Quiet s (s.popLane key lane now).sched := by
  unfold popLane countStale
  split
  · exact .of_eq rfl rfl rfl rfl
  · rename_i l hl
    split
    · exact .of_eq rfl rfl rfl rfl
    · split
      · exact .of_lane hl rfl (.kept rfl rfl rfl rfl (.refl _) fun _ h _ => h) rfl rfl rfl
      · have hm : LaneMoved s.live (some l)
            (some { l.drainDead s.live with inCandidateHeap := false }) :=
          (LaneMoved.drained l).trans (.kept rfl rfl rfl rfl (.refl _) fun _ h _ => h)
        have hq : Quiet s { s.check (l.drainFits s.live) with
            lanes := s.lanes.insert lane { l.drainDead s.live with inCandidateHeap := false } } :=
          .of_lane hl rfl hm rfl rfl rfl
        dsimp only
        split
        · exact hq.trans (dropLaneIfIdle_quiet _ _)
        · split
          · exact hq.trans (dropLaneIfIdle_quiet _ _)
          · split
            · exact hq.trans (pushLaneHeadCandidate_quiet _ _ _)
            · exact hq

theorem popTurn_quiet {s : SchedulerState} {now : Nat} {t : Turn} (h : s.popTurn now = some t) :
    Quiet s t.sched := by
  unfold popTurn at h
  split at h
  · cases h
  · have hq : Quiet s { s with candidates := s.candidates.pop } := .of_eq rfl rfl rfl rfl
    dsimp only at h
    split at h
    · cases h; exact hq.trans (popJob_quiet _ _ _)
    · cases h; exact hq.trans (popLane_quiet _ _ _ _)

/-! ## Admission -/

theorem storeSet_moves (s : SchedulerState) (window : WindowRef) (set : WindowSet) :
    Moves s (s.storeSet window set) := by
  cases window <;> exact .of_eq rfl rfl rfl

theorem checkWindow_moves (s : SchedulerState) (now weight : Nat) (window : WindowRef) (v : Verdict) :
    Moves s (s.checkWindow now weight window v).1 := by
  unfold checkWindow
  dsimp only
  split
  · exact .refl s
  · split <;> exact storeSet_moves _ _ _

theorem checkWindows_moves (now weight : Nat) :
    ∀ (windows : List WindowRef) (s : SchedulerState) (v : Verdict),
      Moves s (checkWindows now weight windows s v).1
  | [], s, _ => .refl s
  | window :: windows, s, v => by
    have hw := s.checkWindow_moves now weight window v
    unfold checkWindows
    split
    · rename_i h; rw [h] at hw; exact hw
    · rename_i h; rw [h] at hw; exact hw.trans (checkWindows_moves now weight windows _ _)

theorem admission_moves (s : SchedulerState) (c : Candidate) (now : Nat) :
    Moves s (s.admission c now).1 := by
  unfold admission
  split
  · exact .refl s
  · have hw := checkWindows_moves now c.weight.val (s.applicableWindows c) (s.check (s.live c.job)) ⟨now, none⟩
    have hc : Moves s (s.check (s.live c.job)) := .of_eq rfl rfl rfl
    split
    · rename_i h; rw [h] at hw; exact hc.trans hw
    · rename_i h
      rw [h] at hw
      split <;> exact hc.trans hw

/-! ## Blocked and parked candidates -/

theorem releasePreviousReservationIfChanged_quiet (s : SchedulerState) (c : Candidate)
    (next : Option WindowRef) (now : Nat) :
    Quiet s (s.releasePreviousReservationIfChanged c next now) := by
  unfold releasePreviousReservationIfChanged
  split
  · exact .refl s
  · split
    · exact .refl s
    · rename_i previous _ _
      refine .trans (s.releaseReservation_quiet previous (s.referenceOf c) now) ?_
      refine .of_modify rfl (fun j => ?_) rfl rfl rfl
      split <;> rfl

theorem reserveWindow_quiet (s : SchedulerState) (c : Candidate) (window : WindowRef) (deadline : Nat) :
    Quiet s (s.reserveWindow c window deadline) := by
  unfold reserveWindow
  dsimp only
  split
  · exact .of_modify rfl (fun _ => rfl) rfl rfl rfl
  · exact .of_eq rfl rfl rfl rfl

theorem blockCandidate_quiet (s : SchedulerState) (c : Candidate) (deadline : Nat) (permanent : Bool) :
    Quiet s (s.blockCandidate c deadline permanent) := by
  unfold blockCandidate
  split
  · exact .of_eq rfl rfl rfl rfl
  · rename_i job hj
    split
    · exact .of_job hj rfl rfl rfl rfl rfl
    · split
      · exact .of_eq rfl rfl rfl rfl
      · rename_i l hl
        exact .of_lane hl rfl (.kept rfl rfl rfl rfl (.refl _) fun _ h _ => h) rfl rfl rfl

theorem park_quiet (s : SchedulerState) (c : Candidate) (now : Nat) : Quiet s (s.park c now) := by
  unfold park
  split
  · exact .of_eq rfl rfl rfl rfl
  · split
    · exact s.pushCandidate_quiet c now
    · dsimp only
      split
      · exact .of_modify rfl (fun _ => rfl) rfl rfl rfl
      · exact .of_eq rfl rfl rfl rfl

theorem rearmReservation_quiet (now : Nat) (s : SchedulerState) (window : WindowRef) :
    Quiet s (rearmReservation now s window) := by
  unfold rearmReservation
  split
  · exact .refl s
  · split
    · exact .refl s
    · exact .of_eq rfl rfl rfl rfl

theorem rearmReservations_quiet (s : SchedulerState) (c : Candidate) (now : Nat) :
    Quiet s (s.rearmReservations c now) :=
  Quiet.foldl (fun s window => rearmReservation_quiet now s window) _ s

/-- A verdict other than a grant only moves references. -/
theorem settle_quiet (s : SchedulerState) (c : Candidate) (now : Nat) {verdict : Admission}
    (h : verdict ≠ .pass) : Quiet s (s.settle c now verdict) := by
  cases verdict with
  | pass => exact absurd rfl h
  | blocked deadline reserve =>
    refine .trans (s.releasePreviousReservationIfChanged_quiet c reserve now) ?_
    refine .trans ?_ (blockCandidate_quiet _ _ _ _)
    cases reserve with
    | none => exact .refl _
    | some window => exact reserveWindow_quiet _ _ _ _
  | blockedForever =>
    exact .trans (s.releasePreviousReservationIfChanged_quiet c none now) (blockCandidate_quiet _ _ _ _)
  | reserved => exact s.park_quiet c now

theorem endPass_moves (s : SchedulerState) (now : Nat) : Moves s (s.endPass now) := by
  refine .trans ?_ (compactReservationsIfNeeded_quiet _).toMoves
  exact .of_eq rfl rfl rfl

/-! ## Re-arming -/

theorem rearmReservationOwner_quiet (now : Nat) (s : SchedulerState) (window : WindowRef) :
    Quiet s (rearmReservationOwner now s window) := by
  unfold rearmReservationOwner
  split
  · exact .refl s
  · split
    · exact .refl s
    · rename_i job hj
      split
      · refine .trans ?_ (pushJobCandidate_quiet _ _ _)
        exact .of_job hj rfl rfl rfl rfl rfl
      · exact .refl s
  · split
    · exact .refl s
    · rename_i l hl
      split
      · refine .trans ?_ (pushLaneHeadCandidate_quiet _ _ _)
        exact .of_lane hl rfl (.kept rfl rfl rfl rfl (.refl _) fun _ h _ => h) rfl rfl rfl
      · exact .refl s

theorem rearmReference_quiet (now : Nat) (s : SchedulerState) (reference : CandidateRef) :
    Quiet s (rearmReference now s reference) := by
  unfold rearmReference
  split
  · split
    · exact .refl s
    · rename_i job hj
      refine .trans ?_ (pushJobCandidate_quiet _ _ _)
      exact .of_job hj rfl rfl rfl rfl rfl
  · rename_i lane
    refine .trans ?_ (pushLaneHeadCandidate_quiet _ _ _)
    refine ⟨⟨rfl, fun _ => rfl, fun a => ?_⟩, rfl⟩
    simp only [Table.lookup_modify]
    split
    · rename_i ha
      subst ha
      cases s.lanes.lookup a with
      | none => exact .absent
      | some l => exact .kept rfl rfl rfl rfl (.refl _) fun _ h _ => h
    · exact .refl _

theorem rearmBlockedAndParked_quiet (s : SchedulerState) (order : List CandidateRef) (now : Nat) :
    Quiet s (s.rearmBlockedAndParked order now) := by
  refine .trans ?_ (Quiet.foldl (fun s r => rearmReference_quiet now s r) order _)
  exact .of_eq rfl rfl rfl rfl

theorem nextDeadline_fst (s : SchedulerState) (now : Nat) : (s.nextDeadline now).1 = s.dropDeadTops := by
  unfold nextDeadline
  dsimp only
  split <;> rfl

theorem nextDeadline_quiet (s : SchedulerState) (now : Nat) : Quiet s (s.nextDeadline now).1 := by
  rw [nextDeadline_fst]; exact .of_eq rfl rfl rfl rfl

end SchedulerState

end Teloxide.Outbound
