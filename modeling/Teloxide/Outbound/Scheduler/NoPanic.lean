import Teloxide.Outbound.Scheduler.Debits
import Teloxide.Outbound.Scheduler.Rebase
import Teloxide.Outbound.Scheduler.Slots

/-!
# No check of the scheduler fails

Over every run the books are right, so that no counter is decremented below zero. With
one mode for each lane key, and away from the last sequence number, no other check fails
either, but for the product in `schedule_aging`, which a quantum of years overflows.

* `Steady`: a lane is in a mode that its key allows, and one that is not bounded holds no
  job in flight while its count is zero.
* `Ready`: a job that is referred to under its id is not delayed.
* `granted_sound`: the candidate of a grant is at the front of its lane, the lane has
  capacity, and the windows take the debit.
-/
namespace Teloxide.Outbound

open Teloxide.Core RollingWindow

/-! ## Lanes -/

namespace LaneState

/-- A lane in an allowed mode, whose permit is where its count says. -/
structure Steady (allowed : OutboundLaneMode → Prop) (l : LaneState) : Prop where
  mode : allowed l.mode
  single : l.mode.isBounded = false → l.inFlightCount = 0 → l.inFlight = none

namespace Steady

variable {allowed : OutboundLaneMode → Prop} {l l' : LaneState}

theorem congr (h : l.Steady allowed) (hm : l'.mode = l.mode) (hi : l'.inFlight = l.inFlight)
    (hc : l'.inFlightCount = l.inFlightCount) : l'.Steady allowed where
  mode := hm ▸ h.mode
  single hb hz := hi.trans (h.single (hm ▸ hb) (hc ▸ hz))

theorem taken (h : l.Steady allowed) (id : JobId) : (l.taken id).Steady allowed where
  mode := h.mode
  single _ hz := by cases hz

theorem restarted (h : l.Steady allowed) : l.restarted.Steady allowed where
  mode := h.mode
  single _ _ := rfl

theorem released (h : l.Steady allowed) {id : JobId} (hr : l.releasePermit id = some l') : l'.Steady allowed := by
  rcases SchedulerState.releasePermit_cases hr with ⟨hb, -, rfl⟩ | ⟨-, -, rfl⟩
  · exact ⟨h.mode, fun hb' => by rw [hb] at hb'; cases hb'⟩
  · exact h.restarted

/-- A lane with capacity that is not bounded holds no job in flight. -/
theorem free (h : l.Steady allowed) (hc : l.hasCapacity = true) (hb : l.mode.isBounded = false) : l.inFlight = none := by
  refine h.single hb ?_
  unfold LaneState.hasCapacity at hc
  cases hm : l.mode with
  | serial | orderedStart =>
    rw [hm] at hc
    exact beq_iff_eq.1 hc
  | boundedOrderedStart n =>
    rw [hm] at hb
    cases hb

end Steady

end LaneState

namespace SchedulerState

/-- Every lane is in a mode that its key allows. -/
def Steady (allowed : OutboundLaneKey → OutboundLaneMode → Prop) (s : SchedulerState) : Prop :=
  ∀ lane l, s.lanes.lookup lane = some l → l.Steady (allowed lane)

namespace Steady

variable {allowed : OutboundLaneKey → OutboundLaneMode → Prop} {s s' : SchedulerState}

theorem of_moved {live : JobId → Bool} (h : s.Steady allowed)
    (hl : ∀ lane, LaneMoved live (s.lanes.lookup lane) (s'.lanes.lookup lane)) : s'.Steady allowed := by
  intro lane l' hl'
  have hm := hl lane
  rw [hl'] at hm
  obtain ⟨l, hlk, hmode, hi, hc⟩ := hm.before
  exact (h lane l hlk).congr hmode hi hc

theorem of_stays (h : s.Steady allowed) (hs : Stays s s') : s'.Steady allowed := h.of_moved hs.lanes

/-- One lane is stored anew. -/
theorem of_lane {lane : OutboundLaneKey} {l : LaneState} (h : s.Steady allowed)
    (hl : s'.lanes = s.lanes.insert lane l) (hs : l.Steady (allowed lane)) : s'.Steady allowed := by
  intro k l' hl'
  rw [hl, Table.lookup_insert_if] at hl'
  split at hl'
  · rename_i hk
    cases hl'
    exact hk ▸ hs
  · exact h k l' hl'

theorem entered (h : s.Steady allowed) {metadata : OutboundMeta} {options : EnqueueOptions} (slot : Slot)
    (hm : ∀ lane, metadata.lane = some lane → allowed lane options.laneMode) :
    (s.entered metadata options slot).Steady allowed := by
  intro k l' hl'
  obtain ⟨l, hbase, hmode, hi, hc⟩ := entered_lane hl'
  rcases hbase with hb | ⟨hnone, rfl⟩
  · exact (h k l hb).congr hmode hi hc
  · -- only the lane of the job is new
    have hk : metadata.lane = some k := by
      unfold SchedulerState.entered at hl'
      split at hl'
      · rename_i lane hlane
        simp only [enterLane, insertLanePending] at hl'
        by_cases hne : k = lane
        · rw [hne, hlane]
        · split at hl'
          · simp only [addLaneEntry, storeJob, check, Table.lookup_insert_if, if_neg hne, hnone] at hl'
            cases hl'
          · split at hl'
            · simp only [addLaneEntry, renumberLane, storeJob, check, Table.lookup_insert_if, if_neg hne, hnone] at hl'
              cases hl'
            · simp only [addLaneEntry, storeJob, check, Table.lookup_insert_if, if_neg hne, hnone] at hl'
              cases hl'
      · rw [show (s.storeJob metadata options slot).lanes = s.lanes from rfl, hnone] at hl'
        cases hl'
    have hnew : (LaneState.new options.laneMode).Steady (allowed k) := ⟨hm k hk, fun _ _ => rfl⟩
    exact hnew.congr hmode hi hc

/-- A step keeps every lane steady, where the requests have the mode of their lane. -/
theorem change {e : Event} (h : s.Steady allowed) (hc : Change s s' e)
    (hm : ∀ metadata options o, e = .enqueued metadata options o →
      ∀ lane, metadata.lane = some lane → allowed lane options.laneMode) : s'.Steady allowed := by
  cases hc with
  | stays hs | cancelledLate _ hs => exact h.of_stays hs
  | entered h₁ _ _ _ h₂ => exact ((h.of_stays h₁).entered _ (hm _ _ _ rfl)).of_stays h₂
  | replaced _ h₁ _ _ _ h₂ => exact ((h.of_moved h₁.lanes).entered _ (hm _ _ _ rfl)).of_stays h₂
  | cancelled _ hr => exact h.of_moved hr.lanes
  | started hs =>
    cases hs with
    | nothing => exact h
    | @freed permit lane l s' hj hlane hl hmode hf hq =>
      have h₁ : SchedulerState.Steady allowed { s with lanes := s.lanes.insert lane l.restarted } :=
        h.of_lane rfl (h _ _ hl).restarted
      exact h₁.of_moved hq.lanes
  | completed hco =>
    cases hco with
    | nothing => exact h
    | done _ hf hmv =>
      refine Steady.of_moved ?_ hmv.lanes
      cases hf with
      | unlaned | kept => exact h
      | freed _ hl hr => exact h.of_lane rfl ((h _ _ hl).released hr)
  | @granted s₁ s₂ _ c job job₂ now hp hmv hj hj₂ hg =>
    have h₂ : s₂.Steady allowed := (h.of_moved hp.quiet.lanes).of_moved hmv.lanes
    have ht : (s₂.takePermit c.job job₂).Steady allowed := by
      unfold takePermit takeLaneHead
      split
      · split
        · exact h₂
        · rename_i l hl
          split
          · exact h₂
          · exact h₂.of_lane rfl ((h₂ _ l hl).taken _)
      · exact h₂
    exact ht.of_moved hg.lanes

end Steady

/-! ## References -/

/-- A job that is referred to under its id is not delayed. -/
def Ready (s : SchedulerState) : Prop :=
  ∀ id, s.Mentions (.job id) → ∀ job, s.jobs.lookup id = some job → job.notBefore = none

theorem Ready.refers {S : JobId → Prop} {s s' : SchedulerState} (h : s.Ready) (hr : Refers S s s')
    (hS : ∀ id, S id → ∀ job', s'.jobs.lookup id = some job' → job'.notBefore = none)
    (hj : ∀ id job', s.Mentions (.job id) → s'.jobs.lookup id = some job' → job'.notBefore = none ∨
      ∃ job, s.jobs.lookup id = some job ∧ job'.notBefore = job.notBefore) : s'.Ready := by
  intro id hm job' hj'
  rcases hr id hm with hm | hs
  · rcases hj id job' hm hj' with hn | ⟨job, hjob, hn⟩
    · exact hn
    · rw [hn]
      exact h id hm job hjob
  · exact hS id hs job' hj'

/-- No new reference, and no job delayed anew. -/
theorem Ready.moves {s s' : SchedulerState} (h : s.Ready) (hr : Refers (fun _ => False) s s') (hm : Moves s s') :
    s'.Ready := by
  refine h.refers hr (fun _ hf => hf.elim) fun id job' _ hj' => ?_
  obtain ⟨job, hj, hcore⟩ := hm.job hj'
  exact .inr ⟨job, hj, Job.notBefore_of_core hcore⟩

/-- Some jobs go. -/
theorem Ready.shrinks {s s' : SchedulerState} {id : JobId} (h : s.Ready) (hr : Refers (fun _ => False) s s')
    (hj : ∀ a, (s'.jobs.lookup a).map Job.core = if a = id then none else (s.jobs.lookup a).map Job.core) : s'.Ready := by
  refine h.refers hr (fun _ hf => hf.elim) fun a job' _ hj' => ?_
  have hcore := hj a
  rw [hj', Option.map_some] at hcore
  split at hcore
  · cases hcore
  · obtain ⟨job, hjob, he⟩ := Option.map_eq_some_iff.1 hcore.symm
    exact .inr ⟨job, hjob, Job.notBefore_of_core he.symm⟩

/-- A job is woken, and pushed where it has no lane. -/
theorem Ready.wake {s : SchedulerState} (h : s.Ready) (id : JobId) (now : Nat) : (s.wakeDelayed id now).Ready := by
  unfold wakeDelayed
  split
  · exact h.moves (.of_eq rfl rfl rfl rfl) (.of_eq rfl rfl rfl)
  · rename_i job hj
    have h₁ : Ready { s with jobs := s.jobs.insert id { job with readyAt := now, notBefore := none } } := by
      refine h.refers (S := fun _ => False) (.of_eq rfl rfl rfl rfl) (fun _ hf => hf.elim) fun a job' _ hj' => ?_
      dsimp only at hj'
      rw [Table.lookup_insert_if] at hj'
      split at hj'
      · cases hj'
        exact .inl rfl
      · exact .inr ⟨job', hj', rfl⟩
    dsimp only
    split
    · exact h₁.moves (pushLaneHeadCandidate_refers _ _ _) (pushLaneHeadCandidate_quiet _ _ _).toMoves
    · refine h₁.refers (pushJobCandidate_refers _ id now) (fun a ha job' hj' => ?_) fun a job' _ hj' => ?_
      · obtain ⟨job₁, hj₁, hcore⟩ := (pushJobCandidate_quiet _ id now).job hj'
        rw [ha] at hj₁
        simp only [Table.lookup_insert_if, if_true, Option.some.injEq] at hj₁
        rw [Job.notBefore_of_core hcore, ← hj₁]
      · obtain ⟨job₁, hj₁, hcore⟩ := (pushJobCandidate_quiet _ id now).job hj'
        exact .inr ⟨job₁, hj₁, Job.notBefore_of_core hcore⟩

theorem Ready.promoteDelayedLoop {now : Nat} :
    ∀ (n : Nat) {s : SchedulerState}, s.Ready → (promoteDelayedLoop now n s).Ready
  | 0, _, h => h
  | n + 1, s, h => by
    unfold SchedulerState.promoteDelayedLoop
    split
    · exact h
    · split
      · exact h
      · have h₁ : Ready { s with delayed := s.delayed.pop } :=
          h.moves (.of_eq rfl rfl rfl rfl) (.of_eq rfl rfl rfl)
        exact promoteDelayedLoop n (h₁.wake _ now)

/-- Every delayed job is due after this instant. -/
def Due (s : SchedulerState) (now : Nat) : Prop :=
  ∀ id job t, s.jobs.lookup id = some job → job.notBefore = some t → now < t

theorem Due.of_jobs {s s' : SchedulerState} {now : Nat} (h : s.Due now)
    (hj : ∀ id job', s'.jobs.lookup id = some job' → ∃ job, s.jobs.lookup id = some job ∧ job'.core = job.core) :
    s'.Due now := by
  intro id job' t hj' ht
  obtain ⟨job, hjob, hcore⟩ := hj id job' hj'
  exact h id job t hjob (Job.notBefore_of_core hcore ▸ ht)

theorem Due.moves {s s' : SchedulerState} {now : Nat} (h : s.Due now) (hm : Moves s s') : s'.Due now :=
  h.of_jobs fun _ _ hj' => hm.job hj'

theorem wakeDelayed_delayed (s : SchedulerState) (id : JobId) (now : Nat) :
    (s.wakeDelayed id now).delayed = s.delayed := by
  unfold wakeDelayed
  split
  · rfl
  · dsimp only
    split
    · exact (pushLaneHeadCandidate_keeps _ _ _).delayed
    · exact (pushJobCandidate_keeps _ _ _).delayed

/-- The loop ends with nothing due in the heap. -/
theorem promoteDelayedLoop_due {now : Nat} : ∀ (n : Nat) (s : SchedulerState), s.delayed.len ≤ n →
    ∀ d ∈ (promoteDelayedLoop now n s).delayed, now < d.notBefore
  | 0, s, hn, d, hd => by
    have hp := Heap.peek_of_len_zero (Nat.le_zero.1 hn)
    exact absurd hd (Heap.peek_none hp d)
  | n + 1, s, hn, d, hd => by
    unfold promoteDelayedLoop at hd
    split at hd
    · rename_i hp
      exact absurd hd (Heap.peek_none hp d)
    · rename_i top hp
      split at hd
      · rename_i hlt
        rcases Heap.peek_before hp hd with rfl | hb
        · exact hlt
        · unfold DelayedJob.before at hb
          omega
      · refine promoteDelayedLoop_due n _ ?_ d hd
        rw [wakeDelayed_delayed]
        have hlen : s.delayed.pop.len + 1 = s.delayed.len := Heap.len_pop hp
        change s.delayed.pop.len ≤ n
        omega

/-- A pass begins with every delayed job due later. -/
theorem beginPass_due {s s' : SchedulerState} {order : List WindowRef} {fuel now : Nat} (hb : s.Books)
    (h : s.beginPass order fuel now = some s') : s'.Due now := by
  obtain ⟨s₁, ha, -, rfl⟩ := beginPass_cases h
  unfold awaken at ha
  obtain ⟨s₀, hp, rfl⟩ := Option.map_eq_some_iff.1 ha
  have hb₀ : s₀.Books := (Sound.of_keeps (promoteAging_quiet hp).toMoves (promoteAging_keeps hp)).books hb
  have hb₁ : (s₀.promoteDelayed now).Books := (s₀.promoteDelayed_sound now).books hb₀
  have hd : (s₀.promoteDelayed now).Due now := by
    intro id job t hj ht
    obtain ⟨d, hd, rfl⟩ := hb₁.timed.noded id job t hj ht
    have hn := (hb₁.timed.node d hd job hj).1
    rw [ht] at hn
    rw [Option.some.inj hn]
    exact promoteDelayedLoop_due _ s₀ (Nat.le_refl _) d hd
  exact ((hd.moves (promoteBlocked_quiet _ now).toMoves).moves (promoteReservations_quiet _ order now).toMoves).moves
    (compactLanesIfNeeded_quiet _).toMoves

theorem beginPass_ready {s s' : SchedulerState} {order : List WindowRef} {fuel now : Nat} (hr : s.Ready)
    (h : s.beginPass order fuel now = some s') : s'.Ready := by
  obtain ⟨s₁, ha, -, rfl⟩ := beginPass_cases h
  unfold awaken at ha
  obtain ⟨s₀, hp, rfl⟩ := Option.map_eq_some_iff.1 ha
  have h₀ : s₀.Ready := hr.moves (promoteAging_refers hp) (promoteAging_quiet hp).toMoves
  have h₁ : (s₀.promoteDelayed now).Ready := h₀.promoteDelayedLoop _
  have h₂ := h₁.moves (promoteBlockedLoop_refers _ _) (promoteBlocked_quiet (s₀.promoteDelayed now) now).toMoves
  have h₃ := h₂.moves (promoteReservations_refers _ order now) (promoteReservations_quiet _ order now).toMoves
  exact h₃.moves (.of_eq rfl rfl rfl rfl) (compactLanesIfNeeded_quiet _).toMoves

/-! ## Enqueueing -/

section enqueue

variable {s : SchedulerState} {pos : JobId → Nat} {metadata : OutboundMeta} {options : EnqueueOptions}

/-- References are to ids that have been issued. -/
def Issued (s : SchedulerState) : Prop := ∀ id, s.Mentions (.job id) → id < s.nextJobId

theorem Issued.refers {s' : SchedulerState} (h : s.Issued) (hr : Refers (fun _ => False) s s')
    (hn : s'.nextJobId = s.nextJobId) : s'.Issued := by
  intro id hm
  rw [hn]
  exact h id ((hr id hm).resolve_right fun hf => hf.elim)

theorem Issued.fresh (h : s.Issued) : ∀ k ∈ s.candidates, k.reference ≠ .job s.nextJobId := fun _ hk he =>
  Nat.lt_irrefl _ (h s.nextJobId (he ▸ mentions_key hk))

theorem entered_books (hl : Lined pos s fun _ => False) (hi : s.Issued) (slot : Slot) (h : s.Books) :
    (s.entered metadata options slot).Books := ⟨entered_tidy hl hi.fresh h.tidy, entered_timed h.timed⟩

theorem putCoalesceEntry_sound (s : SchedulerState) (id : JobId) (key : Option InternalCoalesceKey) :
    Sound s (s.putCoalesceEntry id key) := by
  unfold putCoalesceEntry
  split
  · exact .of_eq rfl rfl rfl rfl rfl rfl rfl rfl
  · exact .refl s

/-- Once a job has entered, references are pushed and heaps compacted. -/
theorem addJob_sound (s : SchedulerState) (metadata : OutboundMeta) (options : EnqueueOptions) (slot : Slot) :
    Sound (s.entered metadata options slot) (s.addJob metadata options slot).1 := by
  have hplace : Keeps (s.entered metadata options slot)
      ((s.storeJob metadata options slot).placeJob s.nextJobId metadata options slot) := by
    unfold entered placeJob joinLane
    cases metadata.lane with
    | some lane => exact (dropHeadKey_keeps _ lane slot.superseded).trans (pushLaneHeadCandidate_keeps _ _ _)
    | none =>
      dsimp only
      split
      · exact pushJobCandidate_keeps _ _ _
      · exact .refl _
  have h₁ := Sound.of_keeps (s.placeJob_quiet metadata options slot).toMoves hplace
  exact (h₁.trans (putCoalesceEntry_sound _ _ _)).trans (compactAll_sound _)

theorem takeSequence_flag (h : s.nextSequence + 1 < u64Size) :
    s.takeSequence.1 = { s with nextSequence := wrappingSucc s.nextSequence } := by
  unfold takeSequence
  have hne : ¬ s.nextSequence = u64Size - 1 := by omega
  simp only [if_neg hne]

theorem enqueue_books (hl : Lined pos s fun _ => False) (hi : s.Issued) (h : s.Books) (metadata : OutboundMeta)
    (options : EnqueueOptions) : (s.enqueue metadata options).1.Books := by
  have hc := s.enqueue_cases metadata options
  generalize s.enqueue metadata options = r at hc ⊢
  obtain ⟨s', r⟩ := r
  have htake := s.takeSequence_stays
  cases hc with
  | refused => exact h
  | full => exact takeSequence_books h
  | fresh =>
    have hi₁ : s.takeSequence.1.Issued := hi.refers s.takeSequence_refers htake.nextJobId
    exact (addJob_sound _ _ _ _).books (entered_books (hl.shrinks (.of_stays htake)) hi₁ _ (takeSequence_books h))
  | replaced _ hsup =>
    obtain ⟨hj, -, -⟩ := supersededJob_some hsup
    have hrem := removeWaiting_removes hj options.now
    have hi₁ := hi.refers (s.removeWaiting_refers _ options.now) hrem.nextJobId
    exact (addJob_sound _ _ _ _).books (entered_books (hl.shrinks (.of_removes hrem)) hi₁ _
      ((removeWaiting_sound hl _ options.now).books h))

/-- The checks of an enqueue hold: the counters are away from their ends, and the lane is in the
mode of the request. -/
theorem enqueue_sound {allowed : OutboundLaneKey → OutboundLaneMode → Prop}
    (hone : ∀ lane m m', allowed lane m → allowed lane m' → m = m') (hl : Lined pos s fun _ => False) (hi : s.Issued)
    (hs : s.Steady allowed) (hseq : s.nextSequence + 1 < u64Size)
    (hm : ∀ lane, metadata.lane = some lane → allowed lane options.laneMode)
    (hid : ∀ o, (s.enqueue metadata options).2 = .ok o → o.job + 1 < u64Size) :
    Sound s (s.enqueue metadata options).1 := by
  have hbooks := fun h => enqueue_books hl hi h metadata options
  have hc := s.enqueue_cases metadata options
  generalize s.enqueue metadata options = r at hc hbooks hid ⊢
  obtain ⟨s', r⟩ := r
  have htake := takeSequence_flag hseq
  have hst := s.takeSequence_stays
  have hmode {s₁ : SchedulerState} (hs₁ : s₁.Steady allowed) (lane : OutboundLaneKey) (l : LaneState)
      (hlane : metadata.lane = some lane) (hlk : s₁.lanes.lookup lane = some l) : l.mode = options.laneMode :=
    hone lane _ _ (hs₁ lane l hlk).mode (hm lane hlane)
  have hentered {s₁ : SchedulerState} (h₁ : Sound s s₁) (hl₁ : Lined pos s₁ fun _ => False) (hi₁ : s₁.Issued)
      (hs₁ : s₁.Steady allowed) (hid₁ : s₁.nextJobId + 1 < u64Size) (slot : Slot) :
      Sound s (s₁.entered metadata options slot) := by
    refine h₁.trans ⟨?_, entered_books hl₁ hi₁ slot, fun _ hp => .inl ?_⟩
    · obtain ⟨jobs, lanes, p, he⟩ := s₁.entered_eq metadata options slot
      rw [he]
    · rw [entered_flag hid₁ (hmode hs₁)] at hp
      exact hp
  have hsound : Sound s s.takeSequence.1 :=
    ⟨by rw [htake], takeSequence_books, fun _ hp => .inl (by rw [htake] at hp; exact hp)⟩
  cases hc with
  | refused => exact .refl _
  | full => exact hsound
  | fresh =>
    have hi₁ : s.takeSequence.1.Issued := hi.refers s.takeSequence_refers hst.nextJobId
    exact (hentered hsound (hl.shrinks (.of_stays hst)) hi₁ (hs.of_stays hst) (hid _ rfl) _).trans (addJob_sound _ _ _ _)
  | replaced _ hsup =>
    obtain ⟨hj, -, -⟩ := supersededJob_some hsup
    have hrem := removeWaiting_removes hj options.now
    have hi₁ := hi.refers (s.removeWaiting_refers _ options.now) hrem.nextJobId
    exact (hentered (removeWaiting_sound hl _ options.now) (hl.shrinks (.of_removes hrem)) hi₁ (hs.of_moved hrem.lanes)
      (hid _ rfl) _).trans (addJob_sound _ _ _ _)

end enqueue

/-! ## The grant -/

theorem rearmBoundedLane_keeps (s : SchedulerState) (job : Job) (now : Nat) : Keeps s (s.rearmBoundedLane job now) := by
  unfold rearmBoundedLane
  split
  · exact .refl s
  · split
    · exact pushLaneHeadCandidate_keeps _ _ _
    · exact .refl s

section debit

variable {now weight : Nat} {id : JobId}

theorem consumeWindow_keeps {s : SchedulerState} {ledger : WindowRef → List WindowEvent} {window : WindowRef}
    (h : s.Tracked ledger now) (hf : ∀ size ∈ s.configured window, Fits weight (ledger window) now size) :
    Keeps s (consumeWindow now weight id s window) := by
  unfold consumeWindow
  split
  · exact .refl s
  · rename_i set hs
    exact (check_keeps ((h.set hs).canConsume_of_fits hf)).trans (storeSet_keeps _ _ _)

/-- A debit that fits every window passes every check. -/
theorem debit_keeps : ∀ (windows : List WindowRef) {s : SchedulerState} {ledger : WindowRef → List WindowEvent},
    windows.Nodup → s.Tracked ledger now →
    (∀ w ∈ windows, ∀ size ∈ s.configured w, Fits weight (ledger w) now size) →
    Keeps s (windows.foldl (consumeWindow now weight id) s)
  | [], s, _, _, _, _ => .refl s
  | window :: windows, s, ledger, hn, h, hf => by
    rw [List.nodup_cons] at hn
    have h₁ : Keeps s (consumeWindow now weight id s window) := consumeWindow_keeps h (hf window List.mem_cons_self)
    refine h₁.trans (debit_keeps windows hn.2 (consumeWindow_tracked h weight id window) fun w hw size hs => ?_)
    have hne : w ≠ window := fun he => hn.1 (he ▸ hw)
    rw [consumeWindow_configured] at hs
    rw [Function.update_of_ne hne]
    exact hf w (List.mem_cons_of_mem _ hw) size hs

end debit

/-- The candidate is at the front of its lane, and the lane has a permit for it. -/
def Fronts (s : SchedulerState) (id : JobId) (job : Job) : Prop :=
  ∀ lane, job.metadata.lane = some lane → ∃ l head, s.lanes.lookup lane = some l ∧ l.pending.peek = some head ∧
    head.job = id ∧ l.hasCapacity = true ∧ (l.mode.isBounded = false → l.inFlight = none)

section grant

variable {s : SchedulerState} {pos : JobId → Nat} {id : JobId} {job : Job}

/-- Once the job is gone the front of its lane is gone with it. -/
theorem takePermit_sound (hl : Lined pos s fun _ => False) (hj : s.jobs.lookup id = some job)
    (hn : job.notBefore = none) (hfront : s.Fronts id job) : Sound s ((s.eraseJob id job).takePermit id job) := by
  obtain ⟨coalesce, he, -, -⟩ := s.eraseJob_eq id job
  rw [he]
  have htimed {lanes : Table OutboundLaneKey LaneState} {p : Bool} (h : s.Timed) :
      Timed { s with jobs := s.jobs.erase id, coalesce := coalesce, lanes := lanes, panicked := p } := by
    refine h.gone hj (fun a job' ha => ?_) (live_erase rfl) rfl rfl ?_
    · dsimp only at ha
      rw [Table.lookup_erase_if] at ha
      split at ha
      · cases ha
      · rename_i hne
        exact ⟨hne, job', ha, rfl, rfl⟩
    · rw [hn]
      rfl
  have hkeyed {k : CandidateKey} (h : s.Tidy) (hk : k ∈ s.candidates) (a : JobId) (hr : k.reference = .job a)
      (job' : Job) (ha : (s.jobs.erase id).lookup a = some job') : k.sequence = job'.sequence := by
    rw [Table.lookup_erase_if] at ha
    split at ha
    · cases ha
    · exact h.keyed k hk a hr job' ha
  have hother {lane : OutboundLaneKey} {l : LaneState} (h : s.Tidy) (hlk : s.lanes.lookup lane = some l)
      (hne : job.metadata.lane ≠ some lane) : l.Tidy (Table.contains (s.jobs.erase id)) := by
    have hgone (a : JobId) : Table.contains (s.jobs.erase id) a = true ↔ a ≠ id ∧ s.live a = true :=
      Table.contains_erase_iff _ _ _
    have hcount := countP_gone LaneEntry.job (live_of hj) hgone l.pending.entries
    have htidy := h.lanes lane l hlk
    unfold LaneState.Tidy LaneState.dead at htidy ⊢
    rw [hcount, htidy, count_entries hl hj hlk, if_neg hne, Nat.add_zero]
  unfold takePermit
  cases hlane : job.metadata.lane with
  | none =>
    refine ⟨rfl, fun h => ⟨⟨fun lane l hlk => ?_, fun k hk a hr job' ha => hkeyed h.tidy hk a hr job' ha⟩,
      htimed h.timed⟩, fun _ h => .inl h⟩
    exact hother h.tidy hlk (by rw [hlane]; exact fun h => by cases h)
  | some lane =>
    obtain ⟨l, head, hlk, hpeek, hhead, hcap, hfree⟩ := hfront lane hlane
    dsimp only
    unfold takeLaneHead
    rw [hlk]
    dsimp only
    rw [hpeek]
    dsimp only
    refine ⟨rfl, fun h => ⟨⟨fun k l' hl' => ?_, fun k hk a hr job' ha => hkeyed h.tidy hk a hr job' ha⟩,
      htimed h.timed⟩, fun _ hp => .inl ?_⟩
    · change (s.lanes.insert lane (l.taken id)).lookup k = some l' at hl'
      change l'.Tidy (Table.contains (s.jobs.erase id))
      rw [Table.lookup_insert_if] at hl'
      split at hl'
      · cases hl'
        obtain ⟨rest, hentries⟩ : ∃ rest, l.pending.entries = head :: rest := List.head?_eq_some_iff.1 hpeek
        have hgone (a : JobId) : Table.contains (s.jobs.erase id) a = true ↔ a ≠ id ∧ s.live a = true :=
          Table.contains_erase_iff _ _ _
        have hcount := countP_gone LaneEntry.job (live_of hj) hgone rest
        have hone := count_entries hl hj hlk
        rw [hentries, List.map_cons, hhead, List.count_cons_self, if_pos hlane] at hone
        have htidy := h.tidy.lanes lane l hlk
        unfold LaneState.Tidy LaneState.dead at htidy ⊢
        rw [hentries, List.countP_cons_of_neg (by simp [hhead, live_of hj])] at htidy
        have hpop : (l.taken id).pending.entries = rest := by
          simp only [LaneState.taken, Heap.pop, hentries, List.tail_cons]
        rw [hpop, hcount, Nat.succ.inj hone, Nat.add_zero]
        exact htidy
      · rename_i hk
        exact hother h.tidy hl' (by rw [hlane]; exact fun he => hk (Option.some.inj he).symm)
    · have hok : (head.job == id && if l.mode.isBounded then l.hasCapacity else l.inFlight.isNone) = true := by
        rw [hhead, beq_self_eq_true, Bool.true_and]
        split
        · exact hcap
        · rename_i hb
          rw [hfree (Bool.eq_false_iff.2 hb)]
          rfl
      exact check_flag hok hp

/-- A grant of a job that is not delayed, at the front of its lane, with a debit that fits. -/
theorem grant_sound {ledger : WindowRef → List WindowEvent} {now : Nat} (hl : Lined pos s fun _ => False)
    (hj : s.jobs.lookup id = some job) (hn : job.notBefore = none) (hfront : s.Fronts id job)
    (ht : s.Tracked ledger now) (hf : ∀ w ∈ windowsOf job.metadata.scope job.metadata.cls, ∀ size ∈ s.configured w,
      Fits job.metadata.weight.val (ledger w) now size) : Sound s (s.grant id now) := by
  have h₁ := takePermit_sound hl hj hn hfront
  have hrates : ((s.eraseJob id job).takePermit id job).rates = s.rates := by
    obtain ⟨coalesce, he, -, -⟩ := s.eraseJob_eq id job
    obtain ⟨lanes, p, ht⟩ := (s.eraseJob id job).takePermit_eq id job
    rw [ht, he]
    rfl
  have hnodup : (windowsOf job.metadata.scope job.metadata.cls).Nodup := by
    unfold windowsOf
    split <;> simp
  unfold grant
  rw [hj]
  dsimp only
  generalize (s.eraseJob id job).takePermit id job = s₁ at h₁ hrates ⊢
  have h₂ : Keeps s₁ (s₁.debit id job now) :=
    debit_keeps _ hnodup (ht.of_rates hrates) fun w hw size hs => hf w hw size (configured_of_rates hrates ▸ hs)
  have h₃ : Sound (s₁.debit id job now) ((s₁.debit id job now).putInFlight id job) :=
    .of_eq rfl rfl rfl rfl rfl rfl rfl rfl
  exact ((h₁.trans (.of_keeps (debit_moves _ _ _ _) h₂)).trans h₃).trans
    (.of_keeps (rearmBoundedLane_quiet _ _ _).toMoves (rearmBoundedLane_keeps _ _ _))

end grant

/-! ## Permits and limits -/

theorem start_sound (s : SchedulerState) (id : JobId) (now : Nat) : Sound s (s.start id now) := by
  unfold start
  split
  · exact .refl s
  · split
    · exact .refl s
    · rename_i lane _ _ l hl
      split
      · exact .refl s
      · split
        · exact .of_eraseLane s lane
        · have h₁ : Sound s { s with lanes := s.lanes.insert lane { l with inFlight := none, inFlightCount := 0 } } :=
            .of_permit hl rfl rfl
          exact h₁.trans (.of_keeps (pushLaneHeadCandidate_quiet _ _ _).toMoves (pushLaneHeadCandidate_keeps _ _ _))

theorem freeLane_sound (s : SchedulerState) (lane : OutboundLaneKey) (id : JobId) (now : Nat) :
    Sound s (s.freeLane lane id now) := by
  unfold freeLane
  split
  · exact .refl s
  · rename_i l hl
    split
    · exact .of_keeps (dropLaneIfIdle_quiet s lane).toMoves (dropLaneIfIdle_keeps s lane)
    · rename_i free hr
      have h₁ : Sound s { s with lanes := s.lanes.insert lane free } := by
        rcases releasePermit_cases hr with ⟨-, -, rfl⟩ | ⟨-, -, rfl⟩ <;> exact .of_permit hl rfl rfl
      dsimp only
      split
      · exact h₁.trans (.of_keeps (dropLaneIfIdle_quiet _ lane).toMoves (dropLaneIfIdle_keeps _ lane))
      · exact h₁.trans (.of_keeps (pushLaneHeadCandidate_quiet _ _ _).toMoves (pushLaneHeadCandidate_keeps _ _ _))

theorem refundWindow_keeps (s : SchedulerState) (now weight : Nat) (job : JobId) (window : WindowRef) :
    Keeps s (s.refundWindow now weight job window).1 := by
  unfold refundWindow
  split
  · exact .refl s
  · dsimp only
    split
    · split
      · exact .of_same (.of_eq rfl rfl rfl) rfl rfl rfl (fun _ h => h) rfl
      · dsimp only
        exact s.storeSet_keeps _ _
    · exact s.storeSet_keeps _ _

theorem refundWindows_keeps (now weight : Nat) (job : JobId) :
    ∀ (windows : List WindowRef) (s : SchedulerState), Keeps s (refundWindows now weight job windows s).1
  | [], s => .refl s
  | window :: windows, s =>
    (s.refundWindow_keeps now weight job window).trans (refundWindows_keeps now weight job windows _)

theorem settleCompletion_keeps (s : SchedulerState) (id : JobId) (permit : InFlight)
    (completion : OutboundCompletion) (now observedAt : Nat) :
    Keeps s (s.settleCompletion id permit completion now observedAt) := by
  unfold settleCompletion
  split
  · exact (refundWindows_keeps _ _ _ _ s).trans (Keeps.foldl (fun s w => rearmReservationOwner_keeps now s w) _ _)
  · split
    · exact .refl s
    · exact .of_same (.of_eq rfl rfl rfl) rfl rfl rfl (fun _ h => h) rfl
  · exact .refl s
  · exact .refl s
  · exact .refl s

theorem complete_sound (s : SchedulerState) (id : JobId) (completion : OutboundCompletion) (now observedAt : Nat) :
    Sound s (s.complete id completion now observedAt) := by
  unfold complete
  split
  · exact .refl s
  · rename_i permit _
    have h₁ : Sound s { s with inFlight := s.inFlight.erase id } := .of_eq rfl rfl rfl rfl rfl rfl rfl rfl
    have hsettle (s : SchedulerState) : Sound s (s.settleCompletion id permit completion now observedAt) :=
      .of_keeps (settleCompletion_moves _ _ _ _ _ _) (settleCompletion_keeps _ _ _ _ _ _)
    dsimp only
    split
    · exact (h₁.trans (freeLane_sound _ _ _ _)).trans (hsettle _)
    · exact h₁.trans (hsettle _)

theorem setLimits_sound (s : SchedulerState) (limits : OutboundLimits) (order : List CandidateRef) (now : Nat) :
    Sound s (s.setLimits limits order now).1 := by
  have hrearm (s : SchedulerState) : Sound s (s.rearmBlockedAndParked order now) :=
    .of_keeps (rearmBlockedAndParked_quiet s order now).toMoves (rearmBlockedAndParked_keeps s order now)
  have h₁ : Sound s (s.replaceLimits limits now) := .of_eq rfl rfl rfl rfl rfl rfl rfl rfl
  unfold setLimits
  split
  · exact .refl s
  · split
    · exact .refl s
    · split
      · exact .refl s
      · exact h₁.trans (hrearm _)

theorem setClassLimits_sound (s : SchedulerState) (limits : OutboundClassLimits) (order : List CandidateRef)
    (now : Nat) : Sound s (s.setClassLimits limits order now).1 := by
  have hrearm (s : SchedulerState) : Sound s (s.rearmBlockedAndParked order now) :=
    .of_keeps (rearmBlockedAndParked_quiet s order now).toMoves (rearmBlockedAndParked_keeps s order now)
  have h₁ : Sound s (s.replaceClassLimits limits now) := .of_eq rfl rfl rfl rfl rfl rfl rfl rfl
  unfold setClassLimits
  split
  · exact .refl s
  · split
    · exact .refl s
    · exact h₁.trans (hrearm _)

theorem endPass_sound (s : SchedulerState) (now : Nat) : Sound s (s.endPass now) := by
  have h₁ : Sound s ((s.pruneExpiredPenalties now).pruneIdleChatWindows now) := .of_eq rfl rfl rfl rfl rfl rfl rfl rfl
  exact h₁.trans (.of_keeps (compactReservationsIfNeeded_quiet _).toMoves (compactReservationsIfNeeded_keeps _))

/-- The calls that store no job. -/
theorem call_sound {pos : JobId → Nat} {s s' : SchedulerState} {a : Action} {e : Event}
    (hl : Lined pos s fun _ => False) (h : s.call a = some (s', e))
    (hne : ∀ metadata options, a ≠ .enqueue metadata options) : Sound s s' := by
  cases a with
  | enqueue metadata options => exact absurd rfl (hne metadata options)
  | cancel id now =>
    cases h
    exact cancel_sound hl id now
  | start id now =>
    cases h
    exact s.start_sound id now
  | complete id completion now observedAt =>
    cases h
    exact s.complete_sound id completion now observedAt
  | penalize scope deadline now =>
    cases h
    exact .of_eq rfl rfl rfl rfl rfl rfl rfl rfl
  | setLimits limits order now =>
    simp only [call] at h
    split at h
    · cases h
      exact s.setLimits_sound limits order now
    · cases h
  | setClassLimits limits order now =>
    simp only [call] at h
    split at h
    · cases h
      exact s.setClassLimits_sound limits order now
    · cases h
  | nextDeadline now =>
    cases h
    rw [nextDeadline_fst]
    exact s.dropDeadTops_sound
  | beginPass | turn | endPass => cases h

/-- The calls that store no job keep the jobs, or take one away. -/
theorem call_jobs {s s' : SchedulerState} {a : Action} {e : Event} (h : s.call a = some (s', e))
    (hne : ∀ metadata options, a ≠ .enqueue metadata options) {id : JobId} {job' : Job}
    (hj' : s'.jobs.lookup id = some job') : ∃ job, s.jobs.lookup id = some job ∧ job'.core = job.core := by
  cases a with
  | enqueue metadata options => exact absurd rfl (hne metadata options)
  | cancel id₀ now =>
    cases h
    cases hj : s.jobs.lookup id₀ with
    | none =>
      unfold cancel at hj'
      rw [removeWaiting_none hj] at hj'
      exact ((compactDelayedIfNeeded_quiet s).trans (compactBlockedIfNeeded_quiet _)).job hj'
    | some job =>
      have hc := (cancel_removes hj now).jobs id
      rw [hj', Option.map_some] at hc
      split at hc
      · cases hc
      · obtain ⟨job, hjob, he⟩ := Option.map_eq_some_iff.1 hc.symm
        exact ⟨job, hjob, he.symm⟩
  | start id₀ now =>
    cases h
    have hs := s.start_starts id₀ now
    generalize s.start id₀ now = s' at hs hj'
    cases hs with
    | nothing => exact ⟨job', hj', rfl⟩
    | freed _ _ _ _ _ hq => exact hq.job hj'
  | complete id₀ completion now observedAt =>
    cases h
    have hs := s.complete_completes id₀ completion now observedAt
    generalize s.complete id₀ completion now observedAt = s' at hs hj'
    cases hs with
    | nothing => exact ⟨job', hj', rfl⟩
    | done _ hf hm =>
      obtain ⟨job, hjob, hcore⟩ := hm.job hj'
      cases hf with
      | unlaned | kept | freed => exact ⟨job, hjob, hcore⟩
  | penalize scope deadline now =>
    cases h
    exact ⟨job', hj', rfl⟩
  | setLimits limits order now =>
    simp only [call] at h
    split at h
    · cases h
      unfold setLimits at hj'
      split at hj'
      · exact ⟨job', hj', rfl⟩
      · split at hj'
        · exact ⟨job', hj', rfl⟩
        · split at hj'
          · exact ⟨job', hj', rfl⟩
          · exact (rearmBlockedAndParked_quiet (s.replaceLimits limits now) order now).job hj'
    · cases h
  | setClassLimits limits order now =>
    simp only [call] at h
    split at h
    · cases h
      unfold setClassLimits at hj'
      split at hj'
      · exact ⟨job', hj', rfl⟩
      · split at hj'
        · exact ⟨job', hj', rfl⟩
        · exact (rearmBlockedAndParked_quiet (s.replaceClassLimits limits now) order now).job hj'
    · cases h
  | nextDeadline now =>
    cases h
    exact (s.nextDeadline_quiet now).job hj'
  | beginPass | turn | endPass => cases h

/-- The stored job is referred to under its id only where it is not delayed. -/
theorem addJob_ready {s : SchedulerState} (h : s.Ready) (hi : s.Issued) (metadata : OutboundMeta)
    (options : EnqueueOptions) (slot : Slot) : (s.addJob metadata options slot).1.Ready := by
  have hentered {a : JobId} {job' : Job} (hj' : (s.addJob metadata options slot).1.jobs.lookup a = some job') :
      ∃ job, (s.entered metadata options slot).jobs.lookup a = some job ∧ job'.core = job.core := by
    have hc := s.addJob_core metadata options slot a
    rw [hj', Option.map_some] at hc
    obtain ⟨job, hj, he⟩ := Option.map_eq_some_iff.1 hc.symm
    exact ⟨job, hj, he.symm⟩
  refine h.refers (s.addJob_refers_prompt metadata options slot) (fun a ha job' hj' => ?_) fun a job' hm hj' => ?_
  · obtain ⟨rfl, -, hn⟩ := ha
    obtain ⟨job, hj, hcore⟩ := hentered hj'
    rw [Job.notBefore_of_core hcore]
    rcases entered_job hj with ⟨-, hnb, -⟩ | ⟨hne, -⟩
    · rw [hnb, hn]
    · exact absurd rfl hne
  · obtain ⟨job, hj, hcore⟩ := hentered hj'
    rcases entered_job hj with ⟨rfl, -, -⟩ | ⟨-, job₀, hj₀, hn, -⟩
    · exact absurd (hi _ hm) (Nat.lt_irrefl _)
    · exact .inr ⟨job₀, hj₀, (Job.notBefore_of_core hcore).trans hn⟩

theorem enqueue_ready {s : SchedulerState} (h : s.Ready) (hi : s.Issued) (metadata : OutboundMeta)
    (options : EnqueueOptions) : (s.enqueue metadata options).1.Ready := by
  have hc := s.enqueue_cases metadata options
  generalize s.enqueue metadata options = r at hc ⊢
  obtain ⟨s', r⟩ := r
  have htake : s.takeSequence.1.Ready := by
    refine h.refers (S := fun _ => False) s.takeSequence_refers (fun _ hf => hf.elim) fun a job' _ hj' => ?_
    obtain ⟨job, q, hj, rfl⟩ := takeSequence_job hj'
    exact .inr ⟨job, hj, rfl⟩
  cases hc with
  | refused => exact h
  | full => exact htake
  | fresh => exact addJob_ready htake (hi.refers s.takeSequence_refers s.takeSequence_stays.nextJobId) _ _ _
  | replaced _ hsup =>
    obtain ⟨hj, -, -⟩ := supersededJob_some hsup
    have hrem := removeWaiting_removes hj options.now
    exact addJob_ready (h.shrinks (s.removeWaiting_refers _ options.now) hrem.jobs)
      (hi.refers (s.removeWaiting_refers _ options.now) hrem.nextJobId) _ _ _

/-! ## A turn of a pass -/

section turn

variable {s s₁ s₂ s' : SchedulerState} {now : Nat} {c : Candidate} {job : Job} {τ : List Event}

/-- A candidate is not delayed. -/
theorem Popped.ready (hp : Popped s now s₁ c) (hr : s.Ready) (hd : s.Due now)
    (hj : s₁.jobs.lookup c.job = some job) : job.notBefore = none := by
  cases hp with
  | @job key id job₀ hpeek hkey hlk =>
    simp only [Table.lookup_insert_if, if_true, Option.some.injEq] at hj
    subst hj
    exact hr id (hkey ▸ mentions_key (Heap.peek_mem hpeek)) job₀ hlk
  | lane _ _ _ _ _ _ hlk hnb =>
    have hj' : some _ = some job := hlk.symm.trans hj
    cases hj'
    cases ht : job.notBefore with
    | none => rfl
    | some t =>
      have := hd _ job t hlk ht
      rw [ht] at hnb
      simp only [Option.any_some, decide_eq_false_iff_not] at hnb
      exact absurd this hnb

/-- A candidate with a lane is at its front. -/
theorem Popped.fronts {allowed : OutboundLaneKey → OutboundLaneMode → Prop} (hp : Popped s now s₁ c)
    (h : LaneFifo τ s) (hs : s.Steady allowed) (hj : s₁.jobs.lookup c.job = some job) : s₁.Fronts c.job job := by
  intro lane hlane
  cases hp with
  | @job key id job₀ hpeek hkey hlk =>
    simp only [Table.lookup_insert_if, if_true, Option.some.injEq] at hj
    subst hj
    have hno := (h.refs id (hkey ▸ mentions_key (Heap.peek_mem hpeek))).2 job₀ hlk
    have hno' : job₀.metadata.lane = some lane := hlane
    rw [hno] at hno'
    cases hno'
  | @lane key k l head job₀ _ _ hl _ hc hf hlk _ _ _ =>
    have hj' : some job₀ = some job := hlk.symm.trans hj
    cases hj'
    have hk := ((h.lined.lanes k l hl).own head (LaneState.firstLive_mem hf) job hlk).1
    rw [hlane] at hk
    cases hk
    refine ⟨{ l.drainDead s.live with inCandidateHeap := false }, head, ?_, ?_, rfl, hc, (hs lane l hl).free hc⟩
    · simp only [Table.lookup_insert_if, if_true]
    · exact (l.peek_drainDead s.live).trans hf

/-- Admission touches the windows only. -/
theorem admission_maps (h : s₁.admission c now = (s₂, verdict)) : s₂.jobs = s₁.jobs ∧ s₂.lanes = s₁.lanes := by
  obtain ⟨g, cs, cg, cc, p, he⟩ := s₁.admission_eq c now
  rw [h] at he
  dsimp only at he
  rw [he]
  exact ⟨rfl, rfl⟩

/-- A candidate whose admission has passed can be granted. -/
theorem granted_sound {allowed : OutboundLaneKey → OutboundLaneMode → Prop} {ledger : WindowRef → List WindowEvent}
    (h : LaneFifo τ s) (hs : s.Steady allowed) (hr : s.Ready) (hd : s.Due now) (ht : s.Tracked ledger now)
    (hp : Popped s now s₁ c) (hj : s₁.jobs.lookup c.job = some job) (ha : s₁.admission c now = (s₂, .pass)) :
    Sound s₂ (s₂.grant c.job now) := by
  obtain ⟨hjobs, hlanes⟩ := admission_maps ha
  have hm := s₁.admission_moves c now
  have htracked := admission_tracked (ht.of_rates hp.quiet.rates) c
  rw [ha] at hm htracked
  obtain ⟨ht₂, hcfg, hfits⟩ := htracked
  obtain ⟨hweight, hwindows⟩ := hp.stands hj
  have hl₂ : Lined (position τ) s₂ fun _ => False :=
    (h.lined.shrinks (.of_stays (.of_moves hp.quiet.toMoves))).shrinks (.of_stays (.of_moves hm))
  have hfront : s₂.Fronts c.job job := by
    intro lane hlane
    rw [hlanes]
    exact hp.fronts h hs hj lane hlane
  refine grant_sound hl₂ (hjobs ▸ hj) (hp.ready hr hd hj) hfront ht₂ fun w hw size hsize => ?_
  rw [← hweight]
  dsimp only at hcfg
  exact hfits rfl w (hwindows ▸ hw) size (hcfg ▸ hsize)

theorem turn_sound {allowed : OutboundLaneKey → OutboundLaneMode → Prop} {ledger : WindowRef → List WindowEvent}
    {e : Event} (h : LaneFifo τ s) (hs : s.Steady allowed) (hr : s.Ready) (hd : s.Due now) (ht : s.Tracked ledger now)
    (hturn : s.turn now = some (s', e)) : Sound s s' := by
  cases turn_cases hturn with
  | skipped hp => exact .of_keeps (popTurn_quiet hp).toMoves (popTurn_keeps hp)
  | @granted s₁ s₂ c job hp hj ha =>
    have hadm := admission_keeps (live_of hj) now
    have hm := s₁.admission_moves c now
    rw [ha] at hadm hm
    have h₁ := (Sound.of_keeps (popTurn_quiet hp).toMoves (popTurn_keeps hp)).trans (.of_keeps hm hadm)
    have h₂ := h₁.trans (granted_sound h hs hr hd ht (popTurn_popped hp) hj ha)
    exact h₂.trans (.of_keeps (rearmReservations_quiet _ c now).toMoves (rearmReservations_keeps _ c now))
  | @held s₁ s₂ c job verdict hp hj ha hne =>
    have hadm := admission_keeps (live_of hj) now
    have hm := s₁.admission_moves c now
    rw [ha] at hadm hm
    have h₁ := (Sound.of_keeps (popTurn_quiet hp).toMoves (popTurn_keeps hp)).trans (.of_keeps hm hadm)
    refine h₁.trans (.of_keeps (s₂.settle_quiet c now hne).toMoves (settle_keeps ha hne fun s₃ hm₃ => ?_))
    have hall := ((popTurn_quiet hp).toMoves.trans hm).trans hm₃
    have hl₃ := h.lined.shrinks (.of_stays (.of_moves hall))
    intro job₃ lane hj₃ hlane
    obtain ⟨l, -, hl, -⟩ := hl₃.member c.job job₃ lane hj₃ hlane not_false
    exact ⟨l, hl⟩

/-- A turn keeps the jobs, or takes the granted one away. -/
theorem turn_jobs {e : Event} (h : s.turn now = some (s', e)) {id : JobId} {job' : Job}
    (hj' : s'.jobs.lookup id = some job') : ∃ job, s.jobs.lookup id = some job ∧ job'.core = job.core := by
  cases turn_cases h with
  | skipped hp => exact (popTurn_quiet hp).job hj'
  | @granted s₁ s₂ c job hp hj ha =>
    have hm := s₁.admission_moves c now
    rw [ha] at hm
    obtain ⟨job₂, hj₂, -⟩ := hm.job' hj
    obtain ⟨job₃, hj₃, hcore₃⟩ := (rearmReservations_quiet _ c now).job hj'
    have hc := (grant_grants hj₂ now).jobs id
    rw [hj₃, Option.map_some] at hc
    split at hc
    · cases hc
    · obtain ⟨job₄, hj₄, he⟩ := Option.map_eq_some_iff.1 hc.symm
      obtain ⟨job₀, hj₀, hcore₀⟩ := ((popTurn_quiet hp).toMoves.trans hm).job hj₄
      exact ⟨job₀, hj₀, hcore₃.trans (he.symm.trans hcore₀)⟩
  | @held s₁ s₂ c job verdict hp hj ha hne =>
    have hm := s₁.admission_moves c now
    rw [ha] at hm
    exact (((popTurn_quiet hp).toMoves.trans hm).trans (s₂.settle_quiet c now hne).toMoves).job hj'

/-- A turn refers to its candidate at most. -/
theorem turn_ready {e : Event} (hr : s.Ready) (hd : s.Due now) (h : s.turn now = some (s', e)) : s'.Ready := by
  have hjobs {id : JobId} {job' : Job} (hj' : s'.jobs.lookup id = some job') : job'.notBefore = none ∨
      ∃ job, s.jobs.lookup id = some job ∧ job'.notBefore = job.notBefore := by
    obtain ⟨job, hj, hcore⟩ := turn_jobs h hj'
    exact .inr ⟨job, hj, Job.notBefore_of_core hcore⟩
  cases turn_cases h with
  | skipped hp => exact hr.refers (S := fun _ => False) (popTurn_refers hp) (fun _ hf => hf.elim) fun _ _ _ => hjobs
  | @granted s₁ s₂ c job hp hj ha =>
    have h₂ := admission_refers (S := fun _ => False) s₁ c now
    rw [ha] at h₂
    have hall := (((popTurn_refers hp).trans h₂).trans (s₂.grant_refers c.job now)).trans
      (rearmReservations_refers _ c now)
    exact hr.refers hall (fun _ hf => hf.elim) fun _ _ _ => hjobs
  | @held s₁ s₂ c job verdict hp hj ha hne =>
    have h₂ := admission_refers (S := (· = c.job)) s₁ c now
    have hm := s₁.admission_moves c now
    rw [ha] at h₂ hm
    have hself : ∀ a, s₂.referenceOf c = .job a → a = c.job := fun a hra => by
      unfold referenceOf at hra
      split at hra
      · cases hra
      · cases hra
        rfl
    have hall := ((popTurn_refers hp).trans h₂).trans ((s₂.settle_refers c now verdict).mono hself)
    refine hr.refers hall (fun a ha job' hj' => ?_) fun _ _ _ => hjobs
    subst ha
    obtain ⟨job₁, hj₁, hcore⟩ := (hm.trans (s₂.settle_quiet c now hne).toMoves).job hj'
    rw [Job.notBefore_of_core hcore]
    exact (popTurn_popped hp).ready hr hd hj₁

end turn

end SchedulerState

open SchedulerState

/-! ## Runs -/

/-- The requests of a lane are in the modes that its key allows. -/
def Allows (allowed : OutboundLaneKey → OutboundLaneMode → Prop) (_ : Sys) : Action → Prop
  | .enqueue metadata options => ∀ lane ∈ metadata.lane, allowed lane options.laneMode
  | _ => True

/-- What the soundness of the next step rests on. -/
structure Sane (allowed : OutboundLaneKey → OutboundLaneMode → Prop) (x : Sys) : Prop where
  books : x.sched.Books
  ready : x.sched.Ready
  steady : x.sched.Steady allowed
  due : ∀ t, x.pass = some t → x.sched.Due t

theorem sane_init {allowed : OutboundLaneKey → OutboundLaneMode → Prop} {x : Sys} (h : scheduler.init x) :
    Sane allowed x ∧ x.sched.panicked = false := by
  obtain ⟨sched, clock, pass⟩ := x
  obtain ⟨hp, limits, classLimits, aging, hok⟩ := h
  dsimp only at hp hok ⊢
  have hsched := newWithClassLimits_ok hok
  subst hsched
  have hjob (id : JobId) (job : Job) : (SchedulerState.initial limits classLimits aging).jobs.lookup id ≠ some job := by
    rw [show (SchedulerState.initial limits classLimits aging).jobs = ∅ from rfl, AList.lookup_empty]
    exact fun h => by cases h
  have hlane (lane : OutboundLaneKey) (l : LaneState) :
      (SchedulerState.initial limits classLimits aging).lanes.lookup lane ≠ some l := by
    rw [show (SchedulerState.initial limits classLimits aging).lanes = ∅ from rfl, AList.lookup_empty]
    exact fun h => by cases h
  refine ⟨⟨⟨⟨fun lane l h => absurd h (hlane lane l), fun k hk => absurd hk (Heap.not_mem_empty k)⟩,
    ⟨List.nodup_nil, fun d hd => absurd hd (Heap.not_mem_empty d), fun d hd => absurd hd (Heap.not_mem_empty d),
      fun id job _ h => absurd h (hjob id job), rfl⟩⟩, fun id _ job h => absurd h (hjob id job),
    fun lane l h => absurd h (hlane lane l), fun t ht => ?_⟩, rfl⟩
  rw [hp] at ht
  cases ht

/-- The event of a request that was taken is its own. -/
theorem step_enqueued {x x' : Sys} {a : Action} {metadata : OutboundMeta} {options : EnqueueOptions}
    {o : EnqueueOutcome} (h : scheduler.step x a = some (x', .enqueued metadata options o)) :
    a = .enqueue metadata options := by
  generalize he : Event.enqueued metadata options o = e at h
  cases step_steps h with
  | @call a _ _ _ _ hc =>
    subst he
    cases a with
    | enqueue m op =>
      simp only [call] at hc
      split at hc
      · split at hc
        · cases hc
          rfl
        · cases hc
      · cases hc
    | setLimits | setClassLimits =>
      simp only [call] at hc
      split at hc <;> cases hc
    | cancel | start | complete | penalize | nextDeadline | beginPass | turn | endPass => cases hc
  | began | ended => cases he
  | turn _ _ ht =>
    subst he
    cases turn_cases ht

/-- A step that stores no job is sound. -/
theorem step_sound {ok : Sys → Action → Prop} {allowed : OutboundLaneKey → OutboundLaneMode → Prop} {τ : List Event}
    {x x' : Sys} {a : Action} {e : Event} (hr : Run ok τ x) (h : Sane allowed x)
    (hs : scheduler.step x a = some (x', e)) (hne : ∀ metadata options, a ≠ .enqueue metadata options) :
    Sound x.sched x'.sched := by
  have hfifo : LaneFifo τ x.sched := laneFifo_run (run_resumed hr)
  obtain ⟨rec, hrec, -⟩ := hr.record
  have ht := (carried_run hrec).kept.tracked
  cases step_steps hs with
  | call _ _ hc => exact call_sound hfifo.lined hc hne
  | began _ _ hb => exact beginPass_sound hb
  | turn hp hle hturn => exact turn_sound hfifo h.steady h.ready (h.due _ hp) (ht.later hle) hturn
  | ended => exact x.sched.endPass_sound _

theorem issued_of_run {ok : Sys → Action → Prop} {τ : List Event} {x : Sys} (hr : Run ok τ x) : x.sched.Issued :=
  fun id hm => ((laneFifo_run (run_resumed hr)).refs id hm).1

theorem sane_run {allowed : OutboundLaneKey → OutboundLaneMode → Prop} {τ : List Event} {x : Sys}
    (hr : Run (Allows allowed) τ x) : Sane allowed x := by
  refine Machine.Run.induct (I := fun _ x => Sane allowed x) (fun _ hi => (sane_init hi).1)
    (fun τ x a x' e hr h hok hs => ?_) hr
  have hsteady : x'.sched.Steady allowed := by
    refine h.steady.change (step_change hs) fun metadata options o he lane hlane => ?_
    subst he
    have ha := step_enqueued hs
    subst ha
    exact hok lane hlane
  by_cases hne : ∀ metadata options, a ≠ .enqueue metadata options
  · have hbooks := (step_sound hr h hs hne).books h.books
    cases step_steps hs with
    | call _ _ hc =>
      refine ⟨hbooks, ?_, hsteady, fun t ht => by cases ht⟩
      refine h.ready.refers (call_refers_none (S := fun _ => False) hc hne) (fun _ hf => hf.elim) fun id job' _ hj' => ?_
      obtain ⟨job, hj, hcore⟩ := call_jobs hc hne hj'
      exact .inr ⟨job, hj, Job.notBefore_of_core hcore⟩
    | began _ _ hb =>
      refine ⟨hbooks, beginPass_ready h.ready hb, hsteady, fun t ht => ?_⟩
      cases ht
      exact beginPass_due h.books hb
    | turn hp _ hturn =>
      refine ⟨hbooks, turn_ready h.ready (h.due _ hp) hturn, hsteady, fun t ht => ?_⟩
      cases ht
      exact (h.due _ hp).of_jobs fun id job' hj' => turn_jobs hturn hj'
    | ended =>
      refine ⟨hbooks, h.ready.moves ?_ (x.sched.endPass_moves _), hsteady, fun t ht => by cases ht⟩
      exact Refers.trans (.of_eq rfl rfl rfl rfl) (compactReservationsIfNeeded_refers _)
  · simp only [not_forall, not_not] at hne
    obtain ⟨metadata, options, rfl⟩ := hne
    cases step_steps hs with
    | call _ _ hc =>
      have hs' := call_enqueue hc
      subst hs'
      refine ⟨?_, enqueue_ready h.ready (issued_of_run hr) metadata options, hsteady, fun t ht => by cases ht⟩
      exact enqueue_books (lined_of_run hr) (issued_of_run hr) h.books metadata options

/-- The books are right in every reachable state. -/
theorem books_run {ok : Sys → Action → Prop} {τ : List Event} {x : Sys} (hr : Run ok τ x) : x.sched.Books := by
  have hsane : Sane (fun _ _ => True) x := sane_run <| hr.mono fun x a _ => by
    cases a with
    | enqueue => exact fun _ _ => trivial
    | _ => trivial
  exact hsane.books

/-- One mode for each lane key, and no call at the last sequence number. -/
def Fixed (modes : OutboundLaneKey → OutboundLaneMode) (x : Sys) : Action → Prop
  | .enqueue metadata options =>
    (∀ lane ∈ metadata.lane, options.laneMode = modes lane) ∧ x.sched.nextSequence + 1 < u64Size
  | _ => True

instance (modes : OutboundLaneKey → OutboundLaneMode) (x : Sys) (a : Action) : Decidable (Fixed modes x a) :=
  match a with
  | .enqueue metadata options => inferInstanceAs (Decidable ((∀ lane ∈ metadata.lane, options.laneMode = modes lane) ∧ _))
  | .cancel .. | .complete .. | .setLimits .. | .setClassLimits .. | .turn .. | .start .. | .penalize .. | .nextDeadline ..
  | .beginPass .. | .endPass .. => isTrue trivial

theorem Fixed.allows {modes : OutboundLaneKey → OutboundLaneMode} {x : Sys} {a : Action} (h : Fixed modes x a) :
    Allows (fun lane m => m = modes lane) x a := by
  cases a with
  | enqueue => exact h.1
  | _ => trivial

/-- A failed check is the overflow of an aging product. -/
theorem flag_run {modes : OutboundLaneKey → OutboundLaneMode} {τ : List Event} {x : Sys}
    (hr : Run (Fixed modes) τ x) : x.sched.panicked = true → x.sched.aging.Overlong := by
  refine Machine.Run.induct (I := fun _ x => x.sched.panicked = true → x.sched.aging.Overlong) (fun x hi hp => ?_)
    (fun τ x a x' e hr h hok hs => ?_) hr
  · have hsane : Sane (fun _ _ => True) x ∧ x.sched.panicked = false := sane_init hi
    rw [hsane.2] at hp
    cases hp
  · have hsane : Sane (fun lane m => m = modes lane) x := sane_run (hr.mono fun x a => Fixed.allows)
    have hsound : Sound x.sched x'.sched := by
      by_cases hne : ∀ metadata options, a ≠ .enqueue metadata options
      · exact step_sound hr hsane hs hne
      · simp only [not_forall, not_not] at hne
        obtain ⟨metadata, options, rfl⟩ := hne
        cases step_steps hs with
        | call _ _ hc =>
          obtain ⟨hm, hseq⟩ := hok
          have hs' := call_enqueue hc
          subst hs'
          refine enqueue_sound (fun lane m m' h h' => h.trans h'.symm) (lined_of_run hr) (issued_of_run hr)
            hsane.steady hseq hm fun o ho => ?_
          simp only [call] at hc
          generalize x.sched.enqueue metadata options = r at ho hc
          obtain ⟨s', r⟩ := r
          dsimp only at ho
          subst ho
          dsimp only at hc
          by_contra hlt
          rw [if_neg hlt] at hc
          cases hc
    intro hp
    rw [hsound.aging]
    exact (hsound.flag hsane.books hp).elim h id

/-- The request that the turn pops. -/
def poppedJob : Option Turn → Option JobId
  | some (.popped _ c) => some c.job
  | _ => none

end Teloxide.Outbound
