import Teloxide.Outbound.Scheduler.Frame

/-!
# What each call changes

The calls that do more than move references: a job is stored, removed, woken or
granted, a permit is given back, the limits change. Each has one lemma here that
says what becomes of the jobs, the lanes and the permits, so that an invariant
of these looks at a call once.

* `Stays s s'`: every job keeps its slot (its metadata, its lane position), its
  age and its sequence number may change.
* `Removes s id s'`: the job is gone, the rest only moved.
* `enqueue_cases`, `grant_…`, `popTurn_popped`: the calls, case by case.
-/
namespace Teloxide.Outbound

open Teloxide.Core

/-- What a job keeps for life, with its position in its lane. -/
def Job.slot (j : Job) : OutboundMeta × Option OutboundCorrelationId × Option InternalCoalesceKey × Option Nat :=
  (j.metadata, j.correlationId, j.coalesceKey, j.laneOrder)

theorem Job.slot_of_core {j j' : Job} (h : j.core = j'.core) : j.slot = j'.slot := by
  have hs := congrArg Job.slot h
  exact hs

/-- The lane with no permit out. -/
def LaneState.restarted (l : LaneState) : LaneState := { l with inFlight := none, inFlightCount := 0 }

namespace SchedulerState

/-- Jobs keep their slots, lanes their live entries; a new coalescing entry is
that of a job with its key. -/
structure Stays (s s' : SchedulerState) : Prop where
  inFlight : s'.inFlight = s.inFlight
  nextJobId : s'.nextJobId = s.nextJobId
  coalesce : ∀ key a, s'.coalesce.lookup key = some a → s.coalesce.lookup key = some a ∨
    ∃ job, s'.jobs.lookup a = some job ∧ job.coalesceKey = some key
  jobs : ∀ id, (s'.jobs.lookup id).map Job.slot = (s.jobs.lookup id).map Job.slot
  lanes : ∀ lane, LaneMoved s.live (s.lanes.lookup lane) (s'.lanes.lookup lane)

namespace Stays

variable {s s' s'' : SchedulerState}

theorem refl (s : SchedulerState) : Stays s s :=
  ⟨rfl, rfl, fun _ _ h => Or.inl h, fun _ => rfl, fun _ => .refl _⟩

theorem live_eq (h : Stays s s') : s'.live = s.live := funext fun id => by
  have := congrArg Option.isSome (h.jobs id)
  simpa [live, Table.contains] using this

/-- A job before is there after, in the same slot. -/
theorem job' (h : Stays s s') {id : JobId} {job : Job} (hl : s.jobs.lookup id = some job) :
    ∃ job', s'.jobs.lookup id = some job' ∧ job'.slot = job.slot := by
  have hj := h.jobs id
  rw [hl] at hj
  cases hs : s'.jobs.lookup id with
  | none => simp [hs] at hj
  | some job' => exact ⟨job', rfl, by simpa [hs] using hj⟩

theorem trans (h : Stays s s') (h' : Stays s' s'') : Stays s s'' where
  inFlight := h'.inFlight.trans h.inFlight
  nextJobId := h'.nextJobId.trans h.nextJobId
  coalesce key a hc := by
    rcases h'.coalesce key a hc with hc | hc
    · rcases h.coalesce key a hc with hc | ⟨job, hj, hk⟩
      · exact Or.inl hc
      · obtain ⟨job', hj', hs⟩ := h'.job' hj
        have hkey : job'.coalesceKey = job.coalesceKey := congrArg (·.2.2.1) hs
        exact Or.inr ⟨job', hj', hkey.trans hk⟩
    · exact Or.inr hc
  jobs id := (h'.jobs id).trans (h.jobs id)
  lanes lane := (h.lanes lane).trans (h.live_eq ▸ h'.lanes lane)

theorem of_moves (h : Moves s s') : Stays s s' where
  inFlight := h.inFlight
  nextJobId := h.nextJobId
  coalesce key a hc := by
    rw [h.coalesce] at hc
    exact Or.inl hc
  jobs id := by
    have hj := congrArg (Option.map Job.slot) (h.jobs id)
    rw [Option.map_map, Option.map_map] at hj
    exact hj
  lanes := h.lanes

theorem job (h : Stays s s') {id : JobId} {job' : Job} (hl : s'.jobs.lookup id = some job') :
    ∃ job, s.jobs.lookup id = some job ∧ job'.slot = job.slot := by
  have hj := h.jobs id
  rw [hl] at hj
  cases hs : s.jobs.lookup id with
  | none => simp [hs] at hj
  | some job => exact ⟨job, rfl, by simpa [hs] using hj⟩

theorem of_eq (hi : s'.inFlight = s.inFlight) (hn : s'.nextJobId = s.nextJobId)
    (hc : s'.coalesce = s.coalesce) (hj : s'.jobs = s.jobs) (hl : s'.lanes = s.lanes) : Stays s s' :=
  ⟨hi, hn, fun _ _ h => Or.inl (hc ▸ h), fun _ => by rw [hj], fun _ => by rw [hl]; exact .refl _⟩

end Stays

/-! ## The sequence counter -/

theorem rekeyLane_quiet (s : SchedulerState) (key : CandidateKey) (lane : OutboundLaneKey) :
    Quiet s (s.rekeyLane key lane).1 := by
  unfold rekeyLane
  split
  · exact .refl s
  · rename_i l hl
    dsimp only
    split
    · exact .of_lane hl rfl (.drained l) rfl rfl rfl
    · split
      · rename_i hi
        rw [LaneState.isIdle_iff] at hi
        refine .of_erase hl rfl ((LaneMoved.drained l).trans (.dropped (fun e he => ?_) (Or.inr hi.2))) rfl rfl rfl
        rw [Heap.mem_def, hi.1] at he
        cases he
      · refine .of_lane hl rfl ((LaneMoved.drained l).trans ?_) rfl rfl rfl
        exact .kept rfl rfl rfl rfl (.refl _) fun _ h _ => h

theorem rekey_quiet (s : SchedulerState) (key : CandidateKey) : Quiet s (s.rekey key).1 := by
  unfold rekey
  split
  · exact .refl s
  · exact s.rekeyLane_quiet key _

theorem rekeyAll_quiet : ∀ (keys : List CandidateKey) (s : SchedulerState), Quiet s (s.rekeyAll keys).1
  | [], s => .refl s
  | key :: keys, s => (s.rekey_quiet key).trans (rekeyAll_quiet keys (s.rekey key).1)

theorem renumberSequences_stays (s : SchedulerState) : Stays s s.renumberSequences := by
  have h₁ : Stays s s.rankSequences := by
    refine ⟨rfl, rfl, fun _ _ h => Or.inl h, fun id => ?_, fun _ => .refl _⟩
    simp only [rankSequences, Table.lookup_mapValues, Option.map_map]
    rfl
  refine (h₁.trans (.of_moves (rekeyAll_quiet s.candidates.entries _).toMoves)).trans ?_
  exact .of_eq rfl rfl rfl rfl rfl

theorem rebaseSequences_stays (s : SchedulerState) : Stays s s.rebaseSequences := by
  unfold rebaseSequences
  split
  · exact .of_eq rfl rfl rfl rfl rfl
  · split
    · exact s.renumberSequences_stays
    · refine ⟨rfl, rfl, fun _ _ h => Or.inl h, fun id => ?_, fun _ => .refl _⟩
      simp only [shiftSequences, Table.lookup_mapValues, Option.map_map]
      rfl

theorem takeSequence_stays (s : SchedulerState) : Stays s s.takeSequence.1 := by
  unfold takeSequence
  dsimp only
  split
  · exact s.rebaseSequences_stays.trans (.of_eq rfl rfl rfl rfl rfl)
  · exact .of_eq rfl rfl rfl rfl rfl

/-! ## Waking delayed jobs -/

theorem wakeDelayed_stays (s : SchedulerState) (id : JobId) (now : Nat) :
    Stays s (s.wakeDelayed id now) := by
  unfold wakeDelayed
  split
  · exact .of_eq rfl rfl rfl rfl rfl
  · rename_i job hj
    have h₁ : Stays s { s with jobs := s.jobs.insert id { job with readyAt := now, notBefore := none } } :=
      ⟨rfl, rfl, fun _ _ h => Or.inl h, Table.view_insert hj rfl, fun _ => .refl _⟩
    dsimp only
    split
    · exact h₁.trans (.of_moves (pushLaneHeadCandidate_quiet _ _ _).toMoves)
    · exact h₁.trans (.of_moves (pushJobCandidate_quiet _ _ _).toMoves)

theorem promoteDelayedLoop_stays {now : Nat} :
    ∀ (n : Nat) (s : SchedulerState), Stays s (promoteDelayedLoop now n s)
  | 0, s => .refl s
  | n + 1, s => by
    unfold promoteDelayedLoop
    split
    · exact .refl s
    · split
      · exact .refl s
      · have h₁ : Stays s { s with delayed := s.delayed.pop } := .of_eq rfl rfl rfl rfl rfl
        exact (h₁.trans (wakeDelayed_stays _ _ _)).trans (promoteDelayedLoop_stays n _)

theorem awaken_stays {s s' : SchedulerState} {fuel now : Nat} (h : s.awaken fuel now = some s') :
    Stays s s' := by
  unfold awaken at h
  rw [Option.map_eq_some_iff] at h
  obtain ⟨s₁, h₁, rfl⟩ := h
  exact ((Stays.of_moves (promoteAging_quiet h₁).toMoves).trans (promoteDelayedLoop_stays _ _)).trans
    (.of_moves (promoteBlocked_quiet _ _).toMoves)

theorem beginPass_cases {s s' : SchedulerState} {order : List WindowRef} {fuel now : Nat}
    (h : s.beginPass order fuel now = some s') :
    ∃ s₁, s.awaken fuel now = some s₁ ∧ order.Perm (s₁.expiredReservations now) ∧
      s' = (s₁.promoteReservations order now).compactLanesIfNeeded := by
  unfold beginPass at h
  rw [Option.bind_eq_some_iff] at h
  obtain ⟨s₁, h₁, h₂⟩ := h
  split at h₂
  · rename_i hp
    exact ⟨s₁, h₁, hp, (Option.some.inj h₂).symm⟩
  · cases h₂

theorem beginPass_stays {s s' : SchedulerState} {order : List WindowRef} {fuel now : Nat}
    (h : s.beginPass order fuel now = some s') : Stays s s' := by
  obtain ⟨s₁, h₁, -, rfl⟩ := beginPass_cases h
  exact (awaken_stays h₁).trans (.of_moves
    ((promoteReservations_quiet s₁ order now).trans (compactLanesIfNeeded_quiet _)).toMoves)

/-! ## Removing a waiting job -/

/-- The job is gone; of the rest only references moved. -/
structure Removes (s : SchedulerState) (id : JobId) (s' : SchedulerState) : Prop where
  inFlight : s'.inFlight = s.inFlight
  nextJobId : s'.nextJobId = s.nextJobId
  coalesce : ∀ key a, s'.coalesce.lookup key = some a → s.coalesce.lookup key = some a
  uncoalesced : ∀ job key, s.jobs.lookup id = some job → job.coalesceKey = some key →
    s'.coalesce.lookup key ≠ some id
  jobs : ∀ a, (s'.jobs.lookup a).map Job.core = if a = id then none else (s.jobs.lookup a).map Job.core
  lanes : ∀ lane, LaneMoved s'.live (s.lanes.lookup lane) (s'.lanes.lookup lane)

theorem Removes.live_iff {s s' : SchedulerState} {id : JobId} (h : Removes s id s') (a : JobId) :
    s'.live a = true ↔ a ≠ id ∧ s.live a = true := by
  have := congrArg Option.isSome (h.jobs a)
  simp only [live, Table.contains]
  split at this <;> simp_all

theorem Removes.then_moves {s s₁ s' : SchedulerState} {id : JobId} (h : Removes s id s₁)
    (h' : Moves s₁ s') : Removes s id s' where
  inFlight := h'.inFlight.trans h.inFlight
  nextJobId := h'.nextJobId.trans h.nextJobId
  coalesce key a hc := h.coalesce key a (h'.coalesce ▸ hc)
  uncoalesced job key hj hk := h'.coalesce ▸ h.uncoalesced job key hj hk
  jobs a := (h'.jobs a).trans (h.jobs a)
  lanes lane := by
    rw [h'.live_eq]
    exact (h.lanes lane).trans (h'.lanes lane)

theorem forgetLaneEntry_quiet (s : SchedulerState) (lane : OutboundLaneKey) (now : Nat) :
    Quiet s (s.forgetLaneEntry lane now) := by
  unfold forgetLaneEntry
  split
  · exact .refl s
  · rename_i l hl
    have hm (l' : LaneState) (h : l'.mode = l.mode ∧ l'.inFlight = l.inFlight ∧
        l'.inFlightCount = l.inFlightCount ∧ l'.nextOrder = l.nextOrder ∧ l'.pending = l.pending) :
        LaneMoved s.live (some l) (some l') :=
      .kept h.1 h.2.1 h.2.2.1 h.2.2.2.1 (h.2.2.2.2 ▸ .refl _) fun e he _ => h.2.2.2.2 ▸ he
    split
    · split <;> exact .of_lane hl rfl (hm _ ⟨rfl, rfl, rfl, rfl, rfl⟩) rfl rfl rfl
    · exact .of_lane hl rfl (hm _ ⟨rfl, rfl, rfl, rfl, rfl⟩) rfl rfl rfl

theorem countLeftovers_quiet (s : SchedulerState) (job : Job) : Quiet s (s.countLeftovers job) :=
  .of_eq rfl rfl rfl rfl

theorem releaseOwned_quiet (s : SchedulerState) (id : JobId) (job : Job) (now : Nat) :
    Quiet s (s.releaseOwned id job now) := by
  unfold releaseOwned
  split
  · exact s.releaseReservation_quiet _ _ now
  · exact .refl s

@[simp] theorem eraseJob_jobs (s : SchedulerState) (id : JobId) (job : Job) :
    (s.eraseJob id job).jobs = s.jobs.erase id := by
  unfold eraseJob removeCoalesceEntry
  split
  · rfl
  · split <;> rfl

/-- Taking a job out of the map touches the map and its coalescing entry only. -/
theorem eraseJob_eq (s : SchedulerState) (id : JobId) (job : Job) :
    ∃ coalesce, s.eraseJob id job = { s with jobs := s.jobs.erase id, coalesce := coalesce } ∧
      (∀ key a, coalesce.lookup key = some a → s.coalesce.lookup key = some a) ∧
      ∀ key, job.coalesceKey = some key → coalesce.lookup key ≠ some id := by
  unfold eraseJob removeCoalesceEntry
  split
  · rename_i hk
    refine ⟨s.coalesce, rfl, fun _ _ h => h, fun key h => ?_⟩
    rw [hk] at h
    cases h
  · rename_i key hk
    split
    · refine ⟨_, rfl, fun key a h => ?_, fun key' h => ?_⟩
      · rw [Table.lookup_erase_if] at h
        split at h
        · cases h
        · exact h
      · rw [hk] at h
        cases h
        rw [Table.lookup_erase_if, if_pos rfl]
        simp
    · rename_i hne
      refine ⟨s.coalesce, rfl, fun _ _ h => h, fun key' h => ?_⟩
      rw [hk] at h
      cases h
      exact hne

theorem eraseJob_removes {s : SchedulerState} {id : JobId} {job : Job}
    (hj : (s.jobs.lookup id).map (·.coalesceKey) = some job.coalesceKey) : Removes s id (s.eraseJob id job) := by
  obtain ⟨coalesce, h, hc, hk⟩ := s.eraseJob_eq id job
  rw [h]
  refine ⟨rfl, rfl, hc, fun job' key hj' hkey => hk key ?_, fun a => ?_, fun _ => .refl _⟩
  · rw [hj', Option.map_some, Option.some.injEq] at hj
    rw [← hj, hkey]
  · simp only [Table.lookup_erase_if]
    split <;> rfl

theorem forgetEntry_quiet (s : SchedulerState) (job : Job) (now : Nat) :
    Quiet s (s.forgetEntry job now) := by
  unfold forgetEntry
  split
  · exact s.forgetLaneEntry_quiet _ now
  · exact .of_eq rfl rfl rfl rfl

theorem Moves.then_removes {s s₁ s' : SchedulerState} {id : JobId} (h : Moves s s₁)
    (h' : Removes s₁ id s') : Removes s id s' where
  inFlight := h'.inFlight.trans h.inFlight
  nextJobId := h'.nextJobId.trans h.nextJobId
  coalesce key a hc := h.coalesce ▸ h'.coalesce key a hc
  uncoalesced job key hj hk := by
    obtain ⟨job₁, hj₁, hcore⟩ := h.job' hj
    refine h'.uncoalesced job₁ key hj₁ ?_
    have hkey : job₁.coalesceKey = job.coalesceKey := congrArg (·.2.2.1) (Job.slot_of_core hcore)
    rw [hkey, hk]
  jobs a := by rw [h'.jobs a, h.jobs a]
  lanes lane := by
    refine LaneMoved.trans ((h.lanes lane).mono fun a ha => ?_) (h'.lanes lane)
    rw [← h.live_eq]
    exact ((h'.live_iff a).1 ha).2

/-- `remove_waiting` takes one pending job away. -/
theorem removeWaiting_removes {s : SchedulerState} {id : JobId} {job : Job}
    (hj : s.jobs.lookup id = some job) (now : Nat) : Removes s id (s.removeWaiting id now) := by
  unfold removeWaiting
  rw [hj]
  have h₁ := (s.countLeftovers_quiet job).trans (releaseOwned_quiet _ id job now)
  have hkey : (((s.countLeftovers job).releaseOwned id job now).jobs.lookup id).map (·.coalesceKey) =
      some job.coalesceKey := by
    obtain ⟨job₁, hj₁, hcore⟩ := h₁.toMoves.job' hj
    rw [hj₁, Option.map_some]
    exact congrArg (fun slot => some slot.2.2.1) (Job.slot_of_core hcore)
  have h₂ := eraseJob_removes hkey
  exact (h₁.toMoves.then_removes h₂).then_moves (forgetEntry_quiet _ job now).toMoves

theorem removeWaiting_none {s : SchedulerState} {id : JobId} (hj : s.jobs.lookup id = none) (now : Nat) :
    s.removeWaiting id now = s := by
  unfold removeWaiting
  rw [hj]

theorem cancel_removes {s : SchedulerState} {id : JobId} {job : Job}
    (hj : s.jobs.lookup id = some job) (now : Nat) : Removes s id (s.cancel id now) :=
  ((removeWaiting_removes hj now).then_moves (compactDelayedIfNeeded_quiet _).toMoves).then_moves
    (compactBlockedIfNeeded_quiet _).toMoves

/-! ## Storing a job -/

/-- What a lane does to a new job is a move once the job is in the lane. -/
theorem dropHeadKey_quiet (s : SchedulerState) (lane : OutboundLaneKey) (superseded : Option JobId) :
    Quiet s (s.dropHeadKey lane superseded) := by
  unfold dropHeadKey
  dsimp only
  split
  · refine ⟨⟨rfl, fun _ => rfl, fun a => ?_⟩, rfl⟩
    simp only [Table.lookup_modify]
    split
    · rename_i ha
      subst ha
      cases s.lanes.lookup a with
      | none => exact .absent
      | some l => exact .kept rfl rfl rfl rfl (.refl _) fun _ h _ => h
    · exact .refl _
  · exact .refl s

/-- The state with the new job in the map and in its lane, before anything is
queued. -/
def entered (s : SchedulerState) (metadata : OutboundMeta) (options : EnqueueOptions) (slot : Slot) :
    SchedulerState :=
  match metadata.lane with
  | some lane =>
    (s.storeJob metadata options slot).enterLane lane s.nextJobId slot.laneOrder options.laneMode
  | none => s.storeJob metadata options slot

/-- A renumbered lane changes the order of its jobs and nothing else of them. -/
theorem renumber_jobs {β : Type} (view : Job → β) (hv : ∀ (j : Job) o, view { j with laneOrder := o } = view j) :
    ∀ (l : List LaneEntry) (jobs : Table JobId Job) (a : JobId),
      ((l.foldl (fun jobs e => jobs.modify e.job fun job => { job with laneOrder := some e.order }) jobs).lookup
        a).map view = (jobs.lookup a).map view
  | [], _, _ => rfl
  | e :: l, jobs, a => by
    rw [List.foldl_cons, renumber_jobs view hv l, Table.view_modify fun j => hv j _]

theorem insertLanePending_jobs {β : Type} (view : Job → β)
    (hv : ∀ (j : Job) o, view { j with laneOrder := o } = view j) (s : SchedulerState)
    (lane : OutboundLaneKey) (job : JobId) (inherited : Option Nat) (mode : OutboundLaneMode) (a : JobId) :
    ((s.insertLanePending lane job inherited mode).1.jobs.lookup a).map view =
      (s.jobs.lookup a).map view := by
  unfold insertLanePending
  dsimp only
  split
  · rfl
  · split
    · exact renumber_jobs view hv _ _ a
    · rfl

/-- The jobs after one has entered, but for the lane orders. -/
theorem entered_jobs {β : Type} (view : Job → β)
    (hv : ∀ (j : Job) o, view { j with laneOrder := o } = view j) (s : SchedulerState)
    (metadata : OutboundMeta) (options : EnqueueOptions) (slot : Slot) (a : JobId) :
    ((s.entered metadata options slot).jobs.lookup a).map view =
      if a = s.nextJobId then some (view (newJob metadata options slot)) else (s.jobs.lookup a).map view := by
  have hstored : ((s.storeJob metadata options slot).jobs.lookup a).map view =
      if a = s.nextJobId then some (view (newJob metadata options slot)) else (s.jobs.lookup a).map view := by
    simp only [storeJob, Table.lookup_insert_if]
    split <;> rfl
  unfold entered
  split
  · rw [← hstored]
    simp only [enterLane]
    rw [Table.view_modify fun j => hv j _, insertLanePending_jobs view hv]
  · exact hstored

theorem insertLanePending_eq (s : SchedulerState) (lane : OutboundLaneKey) (job : JobId)
    (inherited : Option Nat) (mode : OutboundLaneMode) :
    ∃ jobs lanes p, (s.insertLanePending lane job inherited mode).1 =
      { s with jobs := jobs, lanes := lanes, panicked := p } := by
  unfold insertLanePending
  dsimp only
  split
  · exact ⟨_, _, _, rfl⟩
  · split
    · exact ⟨_, _, _, rfl⟩
    · exact ⟨_, _, _, rfl⟩

/-- Entering touches the jobs, the lanes, the delayed heap and the id counter. -/
theorem entered_eq (s : SchedulerState) (metadata : OutboundMeta) (options : EnqueueOptions) (slot : Slot) :
    ∃ jobs lanes p, s.entered metadata options slot =
      { s with
        nextJobId := s.nextJobId + 1, jobs := jobs, lanes := lanes, panicked := p
        delayed := (s.storeJob metadata options slot).delayed } := by
  unfold entered
  split
  · rename_i lane _
    obtain ⟨jobs, lanes, p, h⟩ := (s.storeJob metadata options slot).insertLanePending_eq lane s.nextJobId
      slot.laneOrder options.laneMode
    simp only [enterLane, h]
    exact ⟨_, _, _, rfl⟩
  · exact ⟨_, _, _, rfl⟩

theorem entered_inFlight (s : SchedulerState) (metadata : OutboundMeta) (options : EnqueueOptions)
    (slot : Slot) : (s.entered metadata options slot).inFlight = s.inFlight := by
  obtain ⟨jobs, lanes, p, h⟩ := s.entered_eq metadata options slot
  rw [h]

theorem entered_nextJobId (s : SchedulerState) (metadata : OutboundMeta) (options : EnqueueOptions)
    (slot : Slot) : (s.entered metadata options slot).nextJobId = s.nextJobId + 1 := by
  obtain ⟨jobs, lanes, p, h⟩ := s.entered_eq metadata options slot
  rw [h]

theorem entered_live_iff (s : SchedulerState) (metadata : OutboundMeta) (options : EnqueueOptions)
    (slot : Slot) (a : JobId) :
    (s.entered metadata options slot).live a = true ↔ a = s.nextJobId ∨ s.live a = true := by
  have h := congrArg Option.isSome (s.entered_jobs (fun _ => ()) (fun _ _ => rfl) metadata options slot a)
  simp only [live, Table.contains, Option.isSome_map] at h ⊢
  rw [h]
  split <;> simp_all

/-- A lane after a job has entered was there before, or is new. -/
theorem entered_lane {s : SchedulerState} {metadata : OutboundMeta} {options : EnqueueOptions} {slot : Slot}
    {k : OutboundLaneKey} {l' : LaneState} (h : (s.entered metadata options slot).lanes.lookup k = some l') :
    ∃ l, (s.lanes.lookup k = some l ∨ s.lanes.lookup k = none ∧ l = .new options.laneMode) ∧
      l'.mode = l.mode ∧ l'.inFlight = l.inFlight ∧ l'.inFlightCount = l.inFlightCount := by
  have hsame {l} (hl : s.lanes.lookup k = some l) (he : l = l') :
      ∃ l, (s.lanes.lookup k = some l ∨ s.lanes.lookup k = none ∧ l = .new options.laneMode) ∧
        l'.mode = l.mode ∧ l'.inFlight = l.inFlight ∧ l'.inFlightCount = l.inFlightCount :=
    ⟨l, Or.inl hl, by rw [he], by rw [he], by rw [he]⟩
  unfold entered at h
  split at h
  · rename_i lane _
    have hbase : (s.lanes.lookup lane = some ((s.lanes.lookup lane).getD (.new options.laneMode)) ∨
        s.lanes.lookup lane = none ∧
          (s.lanes.lookup lane).getD (.new options.laneMode) = .new options.laneMode) := by
      cases s.lanes.lookup lane with
      | none => exact Or.inr ⟨rfl, rfl⟩
      | some l => exact Or.inl rfl
    simp only [enterLane, insertLanePending] at h
    split at h
    · simp only [addLaneEntry, storeJob, check, Table.lookup_insert_if] at h
      split at h
      · rename_i hk
        subst hk
        cases h
        exact ⟨_, hbase, rfl, rfl, rfl⟩
      · exact hsame h rfl
    · split at h
      · simp only [addLaneEntry, renumberLane, storeJob, check, Table.lookup_insert_if] at h
        split at h
        · rename_i hk
          subst hk
          cases h
          exact ⟨_, hbase, rfl, rfl, rfl⟩
        · exact hsame h rfl
      · simp only [addLaneEntry, storeJob, check, Table.lookup_insert_if] at h
        split at h
        · rename_i hk
          subst hk
          cases h
          exact ⟨_, hbase, rfl, rfl, rfl⟩
        · exact hsame h rfl
  · exact hsame h rfl

/-- Once a job has entered, placing it only moves references. -/
theorem placeJob_quiet (s : SchedulerState) (metadata : OutboundMeta) (options : EnqueueOptions)
    (slot : Slot) : Quiet (s.entered metadata options slot)
      ((s.storeJob metadata options slot).placeJob s.nextJobId metadata options slot) := by
  unfold entered placeJob joinLane
  cases metadata.lane with
  | some lane => exact (dropHeadKey_quiet _ lane slot.superseded).trans (pushLaneHeadCandidate_quiet _ _ _)
  | none =>
    dsimp only
    split
    · exact pushJobCandidate_quiet _ _ _
    · exact .refl _

theorem putCoalesceEntry_stays {s : SchedulerState} {id : JobId} {key : Option InternalCoalesceKey}
    (h : ∃ job, s.jobs.lookup id = some job ∧ job.coalesceKey = key) : Stays s (s.putCoalesceEntry id key) := by
  unfold putCoalesceEntry
  cases key with
  | none => exact .refl s
  | some key =>
    refine ⟨rfl, rfl, fun k a hc => ?_, fun _ => rfl, fun _ => .refl _⟩
    simp only [Table.lookup_insert_if] at hc
    split at hc
    · rename_i hk
      subst hk
      cases hc
      exact Or.inr h
    · exact Or.inl hc

theorem compactAll_quiet (s : SchedulerState) :
    Quiet s s.compactDelayedIfNeeded.compactCandidateHeapIfNeeded.compactBlockedIfNeeded :=
  ((compactDelayedIfNeeded_quiet s).trans (compactCandidateHeapIfNeeded_quiet _)).trans
    (compactBlockedIfNeeded_quiet _)

theorem addJob_stays (s : SchedulerState) (metadata : OutboundMeta) (options : EnqueueOptions)
    (slot : Slot) : Stays (s.entered metadata options slot) (s.addJob metadata options slot).1 := by
  have h₁ := Stays.of_moves (s.placeJob_quiet metadata options slot).toMoves
  have hnew := s.entered_jobs (·.coalesceKey) (fun _ _ => rfl) metadata options slot s.nextJobId
  rw [if_pos rfl, Option.map_eq_some_iff] at hnew
  obtain ⟨job, hj, hk⟩ := hnew
  obtain ⟨job', hj', hs⟩ := h₁.job' hj
  have hk' : job'.coalesceKey = job.coalesceKey := congrArg (·.2.2.1) hs
  have h₂ := putCoalesceEntry_stays ⟨job', hj', hk'.trans hk⟩
  exact (h₁.trans h₂).trans (.of_moves (compactAll_quiet _).toMoves)

/-- Everything `enqueue` can do. -/
inductive Enqueues (s : SchedulerState) (metadata : OutboundMeta) (options : EnqueueOptions) :
    SchedulerState → Except EnqueueError EnqueueOutcome → Prop
  | refused {e} : Enqueues s metadata options s (.error e)
  | full : options.queueCapacity ≤ s.takeSequence.1.jobs.size →
      Enqueues s metadata options s.takeSequence.1 (.error .queueFull)
  | fresh {slot} : s.exceededCapacity metadata = none →
      s.supersededJob (coalesceKeyOf metadata options.mode) = none →
      slot = ⟨s.takeSequence.2, none, none, none⟩ →
      Enqueues s metadata options (s.takeSequence.1.addJob metadata options slot).1
        (.ok ⟨s.takeSequence.1.nextJobId, none⟩)
  | replaced {old oldJob slot} : s.exceededCapacity metadata = none →
      s.supersededJob (coalesceKeyOf metadata options.mode) = some (old, oldJob) →
      oldJob.metadata.weight = metadata.weight →
      slot = ⟨oldJob.sequence, if oldJob.notBefore.isNone then some oldJob.readyAt else none,
        oldJob.laneOrder, some old⟩ →
      Enqueues s metadata options ((s.removeWaiting old options.now).addJob metadata options slot).1
        (.ok ⟨(s.removeWaiting old options.now).nextJobId, some old⟩)

theorem enqueue_cases (s : SchedulerState) (metadata : OutboundMeta) (options : EnqueueOptions) :
    Enqueues s metadata options (s.enqueue metadata options).1 (s.enqueue metadata options).2 := by
  unfold enqueue
  cases hw : s.exceededCapacity metadata with
  | some capacity => exact .refused
  | none =>
    cases hs : s.supersededJob (coalesceKeyOf metadata options.mode) with
    | some p =>
      obtain ⟨old, oldJob⟩ := p
      dsimp only
      split
      · rename_i hweight
        exact .replaced hw hs hweight rfl
      · exact .refused
    | none =>
      dsimp only
      split
      · rename_i hfull
        exact .full hfull
      · exact .fresh hw hs rfl

theorem supersededJob_some {s : SchedulerState} {key : Option InternalCoalesceKey} {old : JobId}
    {oldJob : Job} (h : s.supersededJob key = some (old, oldJob)) :
    s.jobs.lookup old = some oldJob ∧ s.inFlight.contains old = false ∧
      ∃ k, key = some k ∧ s.coalesce.lookup k = some old := by
  unfold supersededJob at h
  simp only [Option.bind_eq_bind, Option.bind_eq_some_iff] at h
  obtain ⟨k, rfl, a, hk, job, hj, h⟩ := h
  split at h
  · cases h
  · rename_i hi
    cases h
    exact ⟨hj, by simpa using hi, k, rfl, hk⟩

/-! ## The grant -/

/-- What a turn of the pop hands out, and from which entry. -/
inductive Popped (s : SchedulerState) (now : Nat) : SchedulerState → Candidate → Prop
  | job {key id job} : s.candidates.peek = some key → key.reference = .job id →
      s.jobs.lookup id = some job → job.candidateEffective ≤ key.effective →
      Popped s now
        { s with candidates := s.candidates.pop, jobs := s.jobs.insert id { job with inCandidateHeap := false } }
        ⟨id, job.metadata.weight, job.metadata.scope⟩
  | lane {key lane l head job} : s.candidates.peek = some key → key.reference = .lane lane →
      s.lanes.lookup lane = some l → l.candidateEffective ≤ key.effective → l.hasCapacity = true →
      l.firstLive s.live = some head → s.jobs.lookup head.job = some job →
      job.notBefore.any (now < ·) = false → effectivePriority job s.aging now = key.effective →
      job.sequence = key.sequence →
      Popped s now
        { { s with candidates := s.candidates.pop }.check (l.drainFits s.live) with
          lanes := s.lanes.insert lane { l.drainDead s.live with inCandidateHeap := false } }
        ⟨head.job, job.metadata.weight, job.metadata.scope⟩

theorem popTurn_popped {s s' : SchedulerState} {now : Nat} {c : Candidate}
    (h : s.popTurn now = some (.popped s' c)) : Popped s now s' c := by
  unfold popTurn at h
  split at h
  · cases h
  · rename_i key hk
    dsimp only at h
    split at h
    · rename_i id hr
      rw [Option.some.injEq] at h
      unfold popJob at h
      split at h
      · cases h
      · rename_i job hj
        split at h
        · cases h
        · rename_i hlt
          cases h
          exact .job hk hr hj (Nat.le_of_not_lt hlt)
    · rename_i lane hr
      rw [Option.some.injEq] at h
      unfold popLane at h
      split at h
      · cases h
      · rename_i l hl
        split at h
        · cases h
        · rename_i hlt
          split at h
          · cases h
          · rename_i hc
            dsimp only at h
            rw [LaneState.peek_drainDead] at h
            split at h
            · cases h
            · rename_i id job hb
              split at h
              · cases h
              · rename_i hn
                split at h
                · cases h
                · rename_i he
                  cases h
                  rw [Option.bind_eq_some_iff] at hb
                  obtain ⟨head, hf, hm⟩ := hb
                  rw [Option.map_eq_some_iff] at hm
                  obtain ⟨job', hj, hp⟩ := hm
                  cases hp
                  rw [not_or, not_not, not_not] at he
                  exact .lane hk hr hl (Nat.le_of_not_lt hlt) (by simpa using hc) hf hj
                    (by simpa using hn) he.1 he.2

/-- Popping a candidate only moves references. -/
theorem Popped.quiet {s s' : SchedulerState} {now : Nat} {c : Candidate} (h : Popped s now s' c) :
    Quiet s s' := by
  cases h with
  | job _ _ hj => exact .of_job hj rfl rfl rfl rfl rfl
  | lane _ _ hl =>
    refine .of_lane hl rfl ?_ rfl rfl rfl
    exact (LaneMoved.drained _).trans (.kept rfl rfl rfl rfl (.refl _) fun _ h _ => h)

theorem takePermit_unlaned {s : SchedulerState} {job : Job} (h : job.metadata.lane = none) (id : JobId) :
    s.takePermit id job = s := by
  unfold takePermit
  rw [h]

theorem takePermit_laned {s : SchedulerState} {job : Job} {lane : OutboundLaneKey} {l : LaneState}
    {head : LaneEntry} (h : job.metadata.lane = some lane) (hl : s.lanes.lookup lane = some l)
    (hp : l.pending.peek = some head) (id : JobId) :
    ∃ p, s.takePermit id job = { s with lanes := s.lanes.insert lane (l.taken id), panicked := p } := by
  unfold takePermit takeLaneHead
  simp only [h, hl, hp]
  exact ⟨_, rfl⟩

theorem takePermit_eq (s : SchedulerState) (id : JobId) (job : Job) :
    ∃ lanes p, s.takePermit id job = { s with lanes := lanes, panicked := p } := by
  unfold takePermit takeLaneHead
  split
  · split
    · exact ⟨s.lanes, _, rfl⟩
    · dsimp only
      split
      · exact ⟨s.lanes, _, rfl⟩
      · exact ⟨_, _, rfl⟩
  · exact ⟨s.lanes, s.panicked, rfl⟩

theorem consumeWindow_moves (now weight : Nat) (job : JobId) (s : SchedulerState) (window : WindowRef) :
    Moves s (consumeWindow now weight job s window) := by
  unfold consumeWindow
  split
  · exact .refl s
  · refine .trans ?_ (storeSet_moves _ _ _)
    exact .of_eq rfl rfl rfl

theorem debit_moves (s : SchedulerState) (id : JobId) (job : Job) (now : Nat) :
    Moves s (s.debit id job now) := by
  unfold debit
  generalize windowsOf job.metadata.scope job.metadata.cls = windows
  induction windows generalizing s with
  | nil => exact .refl s
  | cons window windows ih => exact (consumeWindow_moves _ _ _ s window).trans (ih _)

theorem rearmBoundedLane_quiet (s : SchedulerState) (job : Job) (now : Nat) :
    Quiet s (s.rearmBoundedLane job now) := by
  unfold rearmBoundedLane
  split
  · exact .refl s
  · split
    · exact s.pushLaneHeadCandidate_quiet _ now
    · exact .refl s

/-- The permit of a granted job. -/
def permitOf (job : Job) : InFlight :=
  ⟨job.metadata.lane, job.metadata.scope, job.metadata.cls, job.metadata.weight.val⟩

/-- What a grant does to the jobs, the permits and the lanes. -/
structure Grants (s : SchedulerState) (id : JobId) (job : Job) (s' : SchedulerState) : Prop where
  inFlight : s'.inFlight = s.inFlight.insert id (permitOf job)
  nextJobId : s'.nextJobId = s.nextJobId
  coalesce : ∀ key a, s'.coalesce.lookup key = some a → s.coalesce.lookup key = some a
  uncoalesced : ∀ job key, s.jobs.lookup id = some job → job.coalesceKey = some key →
    s'.coalesce.lookup key ≠ some id
  jobs : ∀ a, (s'.jobs.lookup a).map Job.core = if a = id then none else (s.jobs.lookup a).map Job.core
  lanes : ∀ lane, LaneMoved s'.live ((s.takePermit id job).lanes.lookup lane) (s'.lanes.lookup lane)

theorem Grants.live_iff {s s' : SchedulerState} {id : JobId} {job : Job} (h : Grants s id job s')
    (a : JobId) : s'.live a = true ↔ a ≠ id ∧ s.live a = true := by
  have := congrArg Option.isSome (h.jobs a)
  simp only [live, Table.contains]
  split at this <;> simp_all

theorem takePermit_eraseJob (s : SchedulerState) (id : JobId) (job : Job) :
    ((s.eraseJob id job).takePermit id job).lanes = (s.takePermit id job).lanes := by
  obtain ⟨coalesce, h, -, -⟩ := s.eraseJob_eq id job
  rw [h]
  unfold takePermit takeLaneHead
  cases job.metadata.lane with
  | none => rfl
  | some lane =>
    dsimp only
    cases s.lanes.lookup lane with
    | none => rfl
    | some l =>
      dsimp only
      cases l.pending.peek <;> rfl

theorem grant_grants {s : SchedulerState} {id : JobId} {job : Job} (hj : s.jobs.lookup id = some job)
    (now : Nat) : Grants s id job (s.grant id now) := by
  unfold grant
  rw [hj]
  dsimp only
  have h₁ : Removes s id (s.eraseJob id job) := eraseJob_removes (by rw [hj]; rfl)
  have h₃ := debit_moves ((s.eraseJob id job).takePermit id job) id job now
  have h₅ := (rearmBoundedLane_quiet
    ((((s.eraseJob id job).takePermit id job).debit id job now).putInFlight id job) job now).toMoves
  obtain ⟨lanes, p, h₂⟩ := takePermit_eq (s.eraseJob id job) id job
  have hi : ((s.eraseJob id job).takePermit id job).inFlight = s.inFlight := by rw [h₂]; exact h₁.inFlight
  have hn : ((s.eraseJob id job).takePermit id job).nextJobId = s.nextJobId := by rw [h₂]; exact h₁.nextJobId
  have hjobs : ((s.eraseJob id job).takePermit id job).jobs = (s.eraseJob id job).jobs := by rw [h₂]
  have hcoalesce : (((((s.eraseJob id job).takePermit id job).debit id job now).putInFlight id job).rearmBoundedLane
      job now).coalesce = (s.eraseJob id job).coalesce := by
    rw [h₅.coalesce]
    show (debit _ _ _ _).coalesce = _
    rw [h₃.coalesce, h₂]
  refine ⟨?_, ?_, fun key a hc => h₁.coalesce key a (hcoalesce ▸ hc),
    fun job' key hj' hk => hcoalesce ▸ h₁.uncoalesced job' key hj' hk, fun a => ?_, fun lane => ?_⟩
  · rw [h₅.inFlight]
    show ((_ : SchedulerState).inFlight).insert id (permitOf job) = _
    rw [h₃.inFlight, hi]
  · rw [h₅.nextJobId]
    show (debit _ _ _ _).nextJobId = _
    rw [h₃.nextJobId, hn]
  · rw [h₅.jobs a]
    show ((debit _ _ _ _).jobs.lookup a).map _ = _
    rw [h₃.jobs a, hjobs, h₁.jobs a]
  · have hlive := h₅.live_eq
    have hl₃ := h₃.lanes lane
    have hl₅ := h₅.lanes lane
    rw [hlive]
    rw [takePermit_eraseJob] at hl₃
    have hsame : (((s.eraseJob id job).takePermit id job).debit id job now).live =
      ((s.eraseJob id job).takePermit id job).live := h₃.live_eq
    exact (hsame ▸ hl₃ : LaneMoved _ _ _).trans hl₅

/-- What one turn of the loop of `grant_ready` can do. -/
inductive Turns (s : SchedulerState) (now : Nat) : SchedulerState → Event → Prop
  | skipped {s'} : s.popTurn now = some (.skipped s') → Turns s now s' (.skipped now)
  | granted {s₁ s₂ c job} : s.popTurn now = some (.popped s₁ c) → s₁.jobs.lookup c.job = some job →
      s₁.admission c now = (s₂, .pass) →
      Turns s now ((s₂.grant c.job now).rearmReservations c now)
        (.granted ⟨c.job, job.correlationId⟩ job.metadata now)
  | held {s₁ s₂ c job verdict} : s.popTurn now = some (.popped s₁ c) → s₁.jobs.lookup c.job = some job →
      s₁.admission c now = (s₂, verdict) → verdict ≠ .pass →
      Turns s now (s₂.settle c now verdict) (.held c verdict now)

theorem turn_cases {s s' : SchedulerState} {now : Nat} {e : Event} (h : s.turn now = some (s', e)) :
    Turns s now s' e := by
  unfold turn at h
  split at h
  · cases h
  · rename_i hp
    cases h
    exact .skipped hp
  · rename_i s₁ c hp
    unfold visit at h
    cases ha : s₁.admission c now with
    | mk s₂ verdict =>
      rw [ha] at h
      split at h
      · cases h
      · rename_i job hv hj
        simp only [Prod.mk.injEq] at hv
        obtain ⟨rfl, rfl⟩ := hv
        cases h
        exact .granted hp hj ha
      · rename_i job hne hv hj
        simp only [Prod.mk.injEq] at hv
        obtain ⟨rfl, rfl⟩ := hv
        cases h
        exact .held hp hj ha hne

/-! ## `start`, `complete` and the limits -/

/-- No ordered-start lane waits for this job to start. -/
def Released (s : SchedulerState) (id : JobId) : Prop :=
  ∀ permit lane l, s.inFlight.lookup id = some permit → permit.lane = some lane →
    s.lanes.lookup lane = some l → l.mode = .orderedStart → l.inFlight ≠ some id

/-- What `start` does. -/
inductive Starts (s : SchedulerState) (id : JobId) : SchedulerState → Prop
  | nothing : Released s id → Starts s id s
  | freed {permit lane l s'} : s.inFlight.lookup id = some permit → permit.lane = some lane →
      s.lanes.lookup lane = some l → l.mode = .orderedStart → l.inFlight = some id →
      Quiet { s with lanes := s.lanes.insert lane l.restarted } s' → Starts s id s'

theorem dropLane_quiet {s s' : SchedulerState} {lane : OutboundLaneKey} {l : LaneState}
    (hp : l.pending.entries = []) (hf : l.free = true)
    (hs : s' = { s with lanes := s.lanes.erase lane }) :
    Quiet { s with lanes := s.lanes.insert lane l } s' := by
  subst hs
  refine ⟨⟨rfl, fun _ => rfl, fun a => ?_⟩, rfl⟩
  simp only [Table.lookup_insert_if, Table.lookup_erase_if]
  split
  · refine .dropped (fun e he => ?_) (Or.inr hf)
    rw [Heap.mem_def, hp] at he
    cases he
  · exact .refl _

theorem start_starts (s : SchedulerState) (id : JobId) (now : Nat) : Starts s id (s.start id now) := by
  unfold start
  cases hb : (s.inFlight.lookup id).bind (·.lane) with
  | none =>
    refine .nothing fun permit lane _ hp hlane => ?_
    rw [hp, Option.bind_some, hlane] at hb
    cases hb
  | some lane =>
    rw [Option.bind_eq_some_iff] at hb
    obtain ⟨permit, hp, hlane⟩ := hb
    dsimp only
    cases hl : s.lanes.lookup lane with
    | none =>
      refine .nothing fun permit' lane' _ hp' hlane' hl' => ?_
      rw [hp] at hp'
      cases hp'
      rw [hlane] at hlane'
      cases hlane'
      rw [hl] at hl'
      cases hl'
    | some l =>
      dsimp only
      split
      · rename_i hm
        refine .nothing fun permit' lane' _ hp' hlane' hl' hmode => ?_
        rw [hp] at hp'
        cases hp'
        rw [hlane] at hlane'
        cases hlane'
        rw [hl] at hl'
        cases hl'
        exact hm.resolve_left (not_not.2 hmode)
      · rename_i hm
        rw [not_or, not_not, not_not] at hm
        refine .freed hp hlane hl hm.1 hm.2 ?_
        split
        · rename_i he
          have hfree : l.restarted.free = true := by simp [LaneState.restarted, LaneState.free, hm.1]
          have hempty : l.pending.entries = [] := by simpa [Heap.isEmpty] using he
          exact dropLane_quiet hempty hfree rfl
        · exact pushLaneHeadCandidate_quiet _ _ _

/-- `start` does nothing for a job no lane waits for. -/
theorem start_released {s : SchedulerState} {id : JobId} (h : Released s id) (now : Nat) :
    s.start id now = s := by
  unfold start
  split
  · rfl
  · rename_i lane hb
    rw [Option.bind_eq_some_iff] at hb
    obtain ⟨permit, hp, hlane⟩ := hb
    split
    · rfl
    · rename_i l hl
      rw [if_pos]
      rw [← not_and_or, not_and]
      exact h permit lane l hp hlane hl

theorem refundWindow_moves (s : SchedulerState) (now weight : Nat) (job : JobId) (window : WindowRef) :
    Moves s (s.refundWindow now weight job window).1 := by
  unfold refundWindow
  split
  · exact .refl s
  · dsimp only
    split
    · split
      · exact .of_eq rfl rfl rfl
      · rename_i key _ _
        exact s.storeSet_moves (.chat key) _
    · exact s.storeSet_moves _ _

theorem refundWindows_moves (now weight : Nat) (job : JobId) :
    ∀ (windows : List WindowRef) (s : SchedulerState), Moves s (refundWindows now weight job windows s).1
  | [], s => .refl s
  | window :: windows, s =>
    (s.refundWindow_moves now weight job window).trans (refundWindows_moves now weight job windows _)

theorem settleCompletion_moves (s : SchedulerState) (id : JobId) (permit : InFlight)
    (completion : OutboundCompletion) (now observedAt : Nat) :
    Moves s (s.settleCompletion id permit completion now observedAt) := by
  unfold settleCompletion
  split
  · exact (refundWindows_moves _ _ _ _ s).trans
      (Quiet.foldl (fun s w => rearmReservationOwner_quiet now s w) _ _).toMoves
  · split
    · exact .refl s
    · exact .of_eq rfl rfl rfl
  · exact .refl s
  · exact .refl s
  · exact .refl s

/-- The lane after `complete` has given the permit of a job back. -/
inductive Frees (s : SchedulerState) (id : JobId) (permit : InFlight) : SchedulerState → Prop
  | unlaned : permit.lane = none → Frees s id permit s
  | kept {lane} : permit.lane = some lane →
      (∀ l, s.lanes.lookup lane = some l → l.releasePermit id = none) → Frees s id permit s
  | freed {lane l l'} : permit.lane = some lane → s.lanes.lookup lane = some l →
      l.releasePermit id = some l' → Frees s id permit { s with lanes := s.lanes.insert lane l' }

theorem releasePermit_cases {l l' : LaneState} {id : JobId} (h : l.releasePermit id = some l') :
    (l.mode.isBounded = true ∧ 0 < l.inFlightCount ∧ l' = { l with inFlightCount := l.inFlightCount - 1 }) ∨
      (l.mode.isBounded = false ∧ l.inFlight = some id ∧ l' = l.restarted) := by
  unfold LaneState.releasePermit at h
  split at h
  · rename_i hb
    split at h
    · cases h
    · rename_i hc
      exact Or.inl ⟨hb, Nat.pos_of_ne_zero hc, (Option.some.inj h).symm⟩
  · rename_i hb
    split at h
    · rename_i hi
      exact Or.inr ⟨by simpa using hb, hi, (Option.some.inj h).symm⟩
    · cases h

/-- What `complete` does to a job in flight. -/
inductive Completes (s : SchedulerState) (id : JobId) : SchedulerState → Prop
  | nothing : s.inFlight.lookup id = none → Completes s id s
  | done {permit s₁ s'} : s.inFlight.lookup id = some permit →
      Frees { s with inFlight := s.inFlight.erase id } id permit s₁ → Moves s₁ s' → Completes s id s'

theorem freeLane_frees (s : SchedulerState) (id : JobId) (permit : InFlight) {lane : OutboundLaneKey}
    (hp : permit.lane = some lane) (now : Nat) :
    ∃ s₁, Frees s id permit s₁ ∧ Quiet s₁ (s.freeLane lane id now) := by
  unfold freeLane
  cases hl : s.lanes.lookup lane with
  | none => exact ⟨s, .kept hp fun l h => (by rw [hl] at h; cases h), .refl s⟩
  | some l =>
    dsimp only
    cases hr : l.releasePermit id with
    | none =>
      refine ⟨s, .kept hp fun l' h => ?_, s.dropLaneIfIdle_quiet lane⟩
      rw [hl] at h
      cases h
      exact hr
    | some l' =>
      refine ⟨_, .freed hp hl hr, ?_⟩
      dsimp only
      split
      · exact dropLaneIfIdle_quiet _ _
      · exact pushLaneHeadCandidate_quiet _ _ _

/-- A completion gives the permit back, goes on with the lane and settles. -/
theorem complete_settles {s : SchedulerState} {id : JobId} {permit : InFlight}
    (hp : s.inFlight.lookup id = some permit) (completion : OutboundCompletion) (now observedAt : Nat) :
    ∃ s₁ s₂, Frees { s with inFlight := s.inFlight.erase id } id permit s₁ ∧ Quiet s₁ s₂ ∧
      s.complete id completion now observedAt = s₂.settleCompletion id permit completion now observedAt := by
  unfold complete
  rw [hp]
  dsimp only
  cases hlane : permit.lane with
  | none => exact ⟨_, _, .unlaned hlane, .refl _, rfl⟩
  | some lane =>
    obtain ⟨s₁, h₁, h₂⟩ := freeLane_frees { s with inFlight := s.inFlight.erase id } id permit hlane now
    exact ⟨s₁, _, h₁, h₂, rfl⟩

theorem complete_completes (s : SchedulerState) (id : JobId) (completion : OutboundCompletion)
    (now observedAt : Nat) : Completes s id (s.complete id completion now observedAt) := by
  cases hp : s.inFlight.lookup id with
  | none =>
    unfold complete
    rw [hp]
    exact .nothing hp
  | some permit =>
    obtain ⟨s₁, s₂, h₁, h₂, h⟩ := complete_settles hp completion now observedAt
    rw [h]
    exact .done hp h₁ (h₂.toMoves.trans (settleCompletion_moves _ _ _ _ _ _))

theorem setLimits_stays (s : SchedulerState) (limits : OutboundLimits) (order : List CandidateRef)
    (now : Nat) : Stays s (s.setLimits limits order now).1 := by
  unfold setLimits
  split
  · exact .refl s
  · split
    · exact .refl s
    · split
      · exact .refl s
      · have h₁ : Stays s (s.replaceLimits limits now) := .of_eq rfl rfl rfl rfl rfl
        exact h₁.trans (.of_moves (rearmBlockedAndParked_quiet _ order now).toMoves)

theorem setClassLimits_stays (s : SchedulerState) (limits : OutboundClassLimits)
    (order : List CandidateRef) (now : Nat) : Stays s (s.setClassLimits limits order now).1 := by
  unfold setClassLimits
  split
  · exact .refl s
  · split
    · exact .refl s
    · have h₁ : Stays s (s.replaceClassLimits limits now) := .of_eq rfl rfl rfl rfl rfl
      exact h₁.trans (.of_moves (rearmBlockedAndParked_quiet _ order now).toMoves)

end SchedulerState

/-! ## One step of a run -/

theorem SchedulerState.newWithClassLimits_ok {limits : OutboundLimits} {classLimits : OutboundClassLimits}
    {aging : AgingPolicy} {s : SchedulerState}
    (h : SchedulerState.newWithClassLimits limits classLimits aging = .ok s) :
    s = .initial limits classLimits aging := by
  unfold SchedulerState.newWithClassLimits at h
  repeat' split at h
  all_goals first | exact (Except.ok.inj h).symm | cases h

/-- How a step goes on from a state. -/
inductive Steps (x : Sys) : Action → Sys → Event → Prop
  | call {a s' e} : x.pass = none → x.clock ≤ a.now → x.sched.call a = some (s', e) →
      Steps x a ⟨s', a.now, none⟩ e
  | began {order fuel now s'} : x.pass = none → x.clock ≤ now →
      x.sched.beginPass order fuel now = some s' →
      Steps x (.beginPass order fuel now) ⟨s', now, some now⟩ (.began now)
  | turn {now s' e} : x.pass = some now → x.clock ≤ now → x.sched.turn now = some (s', e) →
      Steps x (.turn now) ⟨s', now, some now⟩ e
  | ended {now} : x.pass = some now → x.clock ≤ now → x.sched.candidates.peek = none →
      Steps x (.endPass now) ⟨x.sched.endPass now, now, none⟩ (.ended now)

theorem step_steps {x x' : Sys} {a : Action} {e : Event} (h : scheduler.step x a = some (x', e)) :
    Steps x a x' e := by
  change step x a = some (x', e) at h
  unfold step at h
  split at h
  · cases h
  · rename_i hc
    have hclock : x.clock ≤ a.now := Nat.le_of_not_lt hc
    split at h
    · rename_i order fuel now hp
      rw [Option.map_eq_some_iff] at h
      obtain ⟨s', hs, h⟩ := h
      cases h
      exact .began hp hclock hs
    · rename_i hp _
      rw [Option.map_eq_some_iff] at h
      obtain ⟨⟨s', e'⟩, hs, h⟩ := h
      cases h
      exact .call hp hclock hs
    · rename_i t now hp
      split at h
      · rename_i ht
        subst ht
        rw [Option.map_eq_some_iff] at h
        obtain ⟨⟨s', e'⟩, hs, h⟩ := h
        cases h
        exact .turn hp hclock hs
      · cases h
    · rename_i t now hp
      split at h
      · rename_i ht
        obtain ⟨rfl, hpeek⟩ := ht
        cases h
        exact .ended hp hclock hpeek
      · cases h
    · cases h

/-- Events at which no job enters, ends or moves on. -/
def Event.isIdle : Event → Bool
  | .rejected .. | .penalized .. | .limited .. | .woke .. | .began _ | .skipped _ | .held .. | .ended _ => true
  | .enqueued .. | .cancelled .. | .started .. | .completed .. | .granted .. => false

open SchedulerState in
/-- What a step does to the jobs, the lanes and the permits. -/
inductive Change (s : SchedulerState) : SchedulerState → Event → Prop
  | stays {s' e} : Stays s s' → e.isIdle = true → Change s s' e
  | entered {s₁ s' metadata options slot} : Stays s s₁ → slot.superseded = none → slot.laneOrder = none →
      s₁.nextJobId + 1 < u64Size → Stays (s₁.entered metadata options slot) s' →
      Change s s' (.enqueued metadata options ⟨s₁.nextJobId, none⟩)
  | replaced {s₁ s' metadata options slot old oldJob} :
      s.supersededJob (coalesceKeyOf metadata options.mode) = some (old, oldJob) →
      Removes s old s₁ → slot.superseded = some old → slot.laneOrder = oldJob.laneOrder →
      s₁.nextJobId + 1 < u64Size → Stays (s₁.entered metadata options slot) s' →
      Change s s' (.enqueued metadata options ⟨s₁.nextJobId, some old⟩)
  | cancelled {s' id job now} : s.jobs.lookup id = some job → Removes s id s' →
      Change s s' (.cancelled id now)
  | cancelledLate {s' id now} : s.jobs.lookup id = none → Stays s s' → Change s s' (.cancelled id now)
  | started {s' id now} : Starts s id s' → Change s s' (.started id now)
  | completed {s' id completion now} : Completes s id s' → Change s s' (.completed id completion now)
  | granted {s₁ s₂ s' c job job₂ now} : Popped s now s₁ c → Moves s₁ s₂ → s₁.jobs.lookup c.job = some job →
      s₂.jobs.lookup c.job = some job₂ → Grants s₂ c.job job₂ s' →
      Change s s' (.granted ⟨c.job, job.correlationId⟩ job.metadata now)

namespace SchedulerState

theorem Grants.then_moves {s s₁ s' : SchedulerState} {id : JobId} {job : Job} (h : Grants s id job s₁)
    (h' : Moves s₁ s') : Grants s id job s' where
  inFlight := h'.inFlight.trans h.inFlight
  nextJobId := h'.nextJobId.trans h.nextJobId
  coalesce key a hc := h.coalesce key a (h'.coalesce ▸ hc)
  uncoalesced job key hj hk := h'.coalesce ▸ h.uncoalesced job key hj hk
  jobs a := (h'.jobs a).trans (h.jobs a)
  lanes lane := by
    rw [h'.live_eq]
    exact (h.lanes lane).trans (h'.lanes lane)

theorem turn_change {s s' : SchedulerState} {now : Nat} {e : Event} (h : s.turn now = some (s', e)) :
    Change s s' e := by
  cases turn_cases h with
  | skipped hp => exact .stays (.of_moves (popTurn_quiet hp).toMoves) rfl
  | @granted s₁ s₂ c job hp hj ha =>
    have hm : Moves s₁ s₂ := by
      have := s₁.admission_moves c now
      rwa [ha] at this
    obtain ⟨job₂, hj₂, -⟩ := hm.job' hj
    exact .granted (popTurn_popped hp) hm hj hj₂
      ((grant_grants hj₂ now).then_moves (rearmReservations_quiet _ c now).toMoves)
  | @held s₁ s₂ c job verdict hp hj ha hne =>
    have hm : Moves s₁ s₂ := by
      have := s₁.admission_moves c now
      rwa [ha] at this
    exact .stays (.of_moves (((popTurn_quiet hp).toMoves.trans hm).trans (settle_quiet s₂ c now hne).toMoves)) rfl

theorem enqueue_change {s s' : SchedulerState} {metadata : OutboundMeta} {options : EnqueueOptions}
    {outcome : EnqueueOutcome} (h : s.enqueue metadata options = (s', .ok outcome))
    (hid : outcome.job + 1 < u64Size) : Change s s' (.enqueued metadata options outcome) := by
  have hc := s.enqueue_cases metadata options
  rw [h] at hc
  generalize hr : Except.ok outcome = r at hc
  cases hc with
  | refused => cases hr
  | full => cases hr
  | fresh _ _ hslot =>
    cases hr
    subst hslot
    exact .entered s.takeSequence_stays rfl rfl hid (addJob_stays _ _ _ _)
  | replaced _ hs _ hslot =>
    cases hr
    subst hslot
    exact .replaced hs (removeWaiting_removes (supersededJob_some hs).1 _) rfl rfl hid (addJob_stays _ _ _ _)

theorem enqueue_error_stays {s s' : SchedulerState} {metadata : OutboundMeta} {options : EnqueueOptions}
    {e : EnqueueError} (h : s.enqueue metadata options = (s', .error e)) : Stays s s' := by
  have hc := s.enqueue_cases metadata options
  rw [h] at hc
  generalize hr : Except.error e = r at hc
  cases hc with
  | refused => exact .refl _
  | full => exact takeSequence_stays _
  | fresh => cases hr
  | replaced => cases hr

theorem call_change {s s' : SchedulerState} {a : Action} {e : Event} (h : s.call a = some (s', e)) :
    Change s s' e := by
  cases a with
  | enqueue metadata options =>
    simp only [call] at h
    split at h
    · rename_i hq
      split at h
      · rename_i hid
        cases h
        exact enqueue_change hq hid
      · cases h
    · rename_i hq
      cases h
      exact .stays (enqueue_error_stays hq) rfl
  | cancel id now =>
    cases h
    cases hj : s.jobs.lookup id with
    | some job => exact .cancelled hj (cancel_removes hj now)
    | none =>
      refine .cancelledLate hj (.of_moves ?_)
      rw [cancel, removeWaiting_none hj]
      exact ((compactDelayedIfNeeded_quiet s).trans (compactBlockedIfNeeded_quiet _)).toMoves
  | start id now => cases h; exact .started (s.start_starts id now)
  | complete id completion now observedAt =>
    cases h; exact .completed (s.complete_completes id completion now observedAt)
  | penalize scope deadline now => cases h; exact .stays (.of_eq rfl rfl rfl rfl rfl) rfl
  | setLimits limits order now =>
    simp only [call] at h
    split at h
    · cases h; exact .stays (s.setLimits_stays limits order now) rfl
    · cases h
  | setClassLimits limits order now =>
    simp only [call] at h
    split at h
    · cases h; exact .stays (s.setClassLimits_stays limits order now) rfl
    · cases h
  | nextDeadline now => cases h; exact .stays (.of_moves (s.nextDeadline_quiet now).toMoves) rfl
  | beginPass | turn | endPass => cases h

end SchedulerState

/-- Every step is a change of one of the kinds above. -/
theorem step_change {x x' : Sys} {a : Action} {e : Event} (h : scheduler.step x a = some (x', e)) :
    Change x.sched x'.sched e := by
  cases step_steps h with
  | call _ _ hc => exact SchedulerState.call_change hc
  | began _ _ hb => exact .stays (SchedulerState.beginPass_stays hb) rfl
  | turn _ _ ht => exact SchedulerState.turn_change ht
  | ended _ _ _ => exact .stays (.of_moves (SchedulerState.endPass_moves _ _)) rfl

/-! ## `grant_ready` is the run of its turns -/

theorem grants_append (τ₁ τ₂ : List Event) : grants (τ₁ ++ τ₂) = grants τ₁ ++ grants τ₂ := by
  induction τ₁ with
  | nil => rfl
  | cons e τ₁ ih => cases e <;> simp [grants, ih]

theorem popTurn_live {s s' : SchedulerState} {now : Nat} {c : Candidate}
    (h : s.popTurn now = some (.popped s' c)) : ∃ job, s'.jobs.lookup c.job = some job := by
  cases SchedulerState.popTurn_popped h with
  | job => exact ⟨_, Table.lookup_insert_if _ _ _ _ |>.trans (if_pos rfl)⟩
  | lane _ _ _ _ _ _ hj => exact ⟨_, hj⟩

/-- The turn that visits a popped candidate. -/
theorem turn_popped {s s₁ : SchedulerState} {now : Nat} {c : Candidate} {job : Job}
    (h : s.popTurn now = some (.popped s₁ c)) (hj : s₁.jobs.lookup c.job = some job) :
    ∃ e, s.turn now = some ((s₁.visit c now).1, e) ∧
      grants [e] = if (s₁.visit c now).2 = .pass then [⟨c.job, job.correlationId⟩] else [] := by
  unfold SchedulerState.turn
  rw [h]
  dsimp only
  rw [hj]
  cases hv : s₁.visit c now with
  | mk s' verdict => cases verdict <;> exact ⟨_, rfl, rfl⟩

theorem run_grantLoop {now : Nat} {s' : SchedulerState} :
    ∀ {fuel : Nat} {τ : List Event} {s : SchedulerState} {gs : List Grant},
      Run Machine.anything τ ⟨s, now, some now⟩ → SchedulerState.grantLoop now fuel s = some (s', gs) →
      ∃ τ', Run Machine.anything (τ' ++ τ) ⟨s', now, some now⟩ ∧ grants τ' = gs.reverse ∧
        s'.candidates.peek = none
  | 0, _, _, _, _, h => by cases h
  | fuel + 1, τ, s, gs, hr, h => by
    have hturn {s₁ e} (ht : s.turn now = some (s₁, e)) : Run Machine.anything (e :: τ) ⟨s₁, now, some now⟩ :=
      .step (a := .turn now) hr trivial (by simp [scheduler, step, Action.now, ht])
    unfold SchedulerState.grantLoop at h
    split at h
    · rename_i hp
      cases h
      refine ⟨[], hr, rfl, ?_⟩
      unfold SchedulerState.popTurn at hp
      split at hp
      · assumption
      · dsimp only at hp
        split at hp <;> cases hp
    · rename_i s₁ hp
      have ht : s.turn now = some (s₁, .skipped now) := by unfold SchedulerState.turn; rw [hp]
      obtain ⟨τ', hr', hg, hpeek⟩ := run_grantLoop (hturn ht) h
      refine ⟨τ' ++ [.skipped now], by simpa using hr', ?_, hpeek⟩
      rw [grants_append, hg]
      exact List.append_nil _
    · rename_i s₁ c hp
      obtain ⟨job, hj⟩ := popTurn_live hp
      obtain ⟨e, ht, hge⟩ := turn_popped hp hj
      rw [Option.map_eq_some_iff] at h
      obtain ⟨⟨s₂, gs₂⟩, hl, h⟩ := h
      cases h
      obtain ⟨τ', hr', hg, hpeek⟩ := run_grantLoop (hturn ht) hl
      refine ⟨τ' ++ [e], by simpa using hr', ?_, hpeek⟩
      rw [grants_append, hg, hge, hj]
      dsimp only
      split <;> simp

/-- A call of `grant_ready` is the run of its turns and returns the grants of
that run. -/
theorem run_grantReady {τ : List Event} {x : Sys} {order : List WindowRef} {fuel now : Nat}
    {s' : SchedulerState} {gs : List Grant} (hr : Run Machine.anything τ x) (hp : x.pass = none)
    (hc : x.clock ≤ now) (h : x.sched.grantReady order fuel now = some (s', gs)) :
    ∃ τ', Run Machine.anything (τ' ++ τ) ⟨s', now, none⟩ ∧ grants τ' = gs.reverse := by
  simp only [SchedulerState.grantReady, Option.bind_eq_bind, Option.bind_eq_some_iff] at h
  obtain ⟨s₁, h₁, ⟨s₂, gs₂⟩, h₂, h⟩ := h
  cases h
  obtain ⟨s, clock, pass⟩ := x
  dsimp only at hp hc h₁
  subst hp
  have hbegin : Run Machine.anything (.began now :: τ) ⟨s₁, now, some now⟩ :=
    .step (a := .beginPass order fuel now) hr trivial (by
      simp [scheduler, step, Action.now, h₁, Nat.not_lt.2 hc])
  obtain ⟨τ', hr', hg, hpeek⟩ := run_grantLoop hbegin h₂
  refine ⟨.ended now :: τ' ++ [.began now], ?_, ?_⟩
  · have hrun : Run Machine.anything (τ' ++ .began now :: τ) ⟨s₂, now, some now⟩ := hr'
    have hend : scheduler.step ⟨s₂, now, some now⟩ (.endPass now) =
        some (⟨s₂.endPass now, now, none⟩, .ended now) := by
      simp [scheduler, step, Action.now, hpeek]
    simpa using Machine.Run.step hrun trivial hend
  · rw [List.cons_append]
    simp only [grants]
    rw [grants_append, hg]
    exact List.append_nil _

end Teloxide.Outbound
