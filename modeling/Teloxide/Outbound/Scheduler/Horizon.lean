import Teloxide.Outbound.Scheduler.Debits
import Teloxide.Outbound.Scheduler.Rebase
import Teloxide.Outbound.Scheduler.Reference

/-!
# The end of the clock

An `Instant` has a last value, and adding a `Duration` that leads past it panics. The
scheduler forms instants in `earliest_for`, in `schedule_aging`, for a candidate that is
blocked for ever and for a penalty; it keeps most of them in its heaps, its holds and its
penalties.

* `additions`: what a call adds up. `schedule_aging` pushes what it has added up, and an
  event is popped only after its instant, so its sums are read off the heap.
* `Timely`: what is kept lies before the end of the clock. Every call leaves it so,
  as long as the quantum and the windows in force do, counted from the call.
* `grantReady_timely`, `passAdditions_lt`: a whole pass.
-/
namespace Teloxide.Outbound

open Teloxide.Core SchedulerState

/-! ## What a pass adds up -/

/-- mirrors scheduler.rs:279-291 -/
def RollingWindow.additions (w : RollingWindow) (weight : Nat) : List Nat :=
  if w.used + weight ≤ w.capacity then [] else (firstFit w.capacity w.window weight w.used w.history).toList

/-- The windows up to the first that never admits the weight.
mirrors scheduler.rs:372-377 -/
def WindowSet.additions (s : WindowSet) (now weight : Nat) : List Nat :=
  (s.windows.takeWhile fun w => (w.earliestFor now weight).isSome).flatMap (·.additions weight)

namespace SchedulerState

def windowAdditions (s : SchedulerState) (now weight : Nat) (window : WindowRef) : List Nat :=
  match s.ensuredSet window with
  | none => []
  | some set =>
    let r := set.canConsume now weight
    if r.2 then [] else r.1.additions now weight

def windowsAdditions (now weight : Nat) : List WindowRef → SchedulerState → Verdict → List Nat
  | [], _, _ => []
  | window :: windows, s, v =>
    s.windowAdditions now weight window ++
      match s.checkWindow now weight window v with
      | (_, none) => []
      | (s, some v) => windowsAdditions now weight windows s v

/-- mirrors scheduler.rs:1950-2024 -/
def admissionAdditions (s : SchedulerState) (c : Candidate) (now : Nat) : List Nat :=
  if (s.applicableWindows c).any (s.heldByOther c now) then []
  else windowsAdditions now c.weight.val (s.applicableWindows c) (s.check (s.live c.job)) ⟨now, none⟩

/-- mirrors scheduler.rs:1612-1641 -/
def rearmAdditions (now : Nat) : List WindowRef → SchedulerState → List Nat
  | [], _ => []
  | window :: windows, s =>
    (match ((s.reservations.lookup window).bind (·.queue.head?)).bind s.referenceWeight, s.windowSet window with
      | some weight, some set => set.additions now weight
      | _, _ => []) ++ rearmAdditions now windows (rearmReservation now s window)

/-- mirrors scheduler.rs:1752-1803 -/
def visitAdditions (s : SchedulerState) (c : Candidate) (now : Nat) : List Nat :=
  let r := s.admission c now
  s.admissionAdditions c now ++
    match r.2 with
    | .pass => rearmAdditions now ((r.1.grant c.job now).applicableWindows c) (r.1.grant c.job now)
    | .blockedForever => [now + BLOCKED_FOREVER_DELAY]
    | .blocked .. | .reserved => []

def loopAdditions (now : Nat) : Nat → SchedulerState → List Nat
  | 0, _ => []
  | fuel + 1, s =>
    match s.popTurn now with
    | none => []
    | some (.skipped s) => loopAdditions now fuel s
    | some (.popped s c) => s.visitAdditions c now ++ loopAdditions now fuel (s.visit c now).1

/-- mirrors scheduler.rs:1743-1810 -/
def passAdditions (s : SchedulerState) (order : List WindowRef) (fuel now : Nat) : List Nat :=
  match s.beginPass order fuel now with
  | none => []
  | some s => loopAdditions now fuel s

/-! ## What is kept -/

/-- What a step adds to the instants that are kept lies before `bound`. -/
structure Grows (bound : Nat) (s s' : SchedulerState) : Prop where
  aging : ∀ e, e ∈ s'.agingEvents → e ∈ s.agingEvents ∨ e.instant < bound
  blocked : ∀ e, e ∈ s'.blocked → e ∈ s.blocked ∨ e.deadline < bound
  reservations : ∀ window r, s'.reservations.lookup window = some r →
    (∃ r₀, s.reservations.lookup window = some r₀ ∧ r.deadline = r₀.deadline) ∨ r.deadline < bound
  penalties : ∀ key d, s'.penalties.lookup key = some d → s.penalties.lookup key = some d ∨ d < bound
  delayed : ∀ e, e ∈ s'.delayed → (∃ e₀, e₀ ∈ s.delayed ∧ e.notBefore = e₀.notBefore) ∨ e.notBefore < bound

namespace Grows

variable {bound : Nat} {s s' : SchedulerState}

/-- A step that adds nothing. -/
theorem of_eq (ha : s'.agingEvents = s.agingEvents) (hb : s'.blocked = s.blocked)
    (hr : s'.reservations = s.reservations) (hp : s'.penalties = s.penalties) (hd : s'.delayed = s.delayed) :
    Grows bound s s' where
  aging _ h := .inl (ha ▸ h)
  blocked _ h := .inl (hb ▸ h)
  reservations _ r h := .inl ⟨r, hr ▸ h, rfl⟩
  penalties _ _ h := .inl (hp ▸ h)
  delayed e h := .inl ⟨e, hd ▸ h, rfl⟩

theorem of_aging (h : ∀ e, e ∈ s'.agingEvents → e ∈ s.agingEvents ∨ e.instant < bound) (hb : s'.blocked = s.blocked)
    (hr : s'.reservations = s.reservations) (hp : s'.penalties = s.penalties) (hd : s'.delayed = s.delayed) :
    Grows bound s s' :=
  { (of_eq rfl hb hr hp hd : Grows bound { s with agingEvents := s'.agingEvents } s') with aging := h }

theorem of_blocked (h : ∀ e, e ∈ s'.blocked → e ∈ s.blocked ∨ e.deadline < bound) (ha : s'.agingEvents = s.agingEvents)
    (hr : s'.reservations = s.reservations) (hp : s'.penalties = s.penalties) (hd : s'.delayed = s.delayed) :
    Grows bound s s' :=
  { (of_eq ha rfl hr hp hd : Grows bound { s with blocked := s'.blocked } s') with blocked := h }

theorem of_reservations (h : ∀ window r, s'.reservations.lookup window = some r →
      (∃ r₀, s.reservations.lookup window = some r₀ ∧ r.deadline = r₀.deadline) ∨ r.deadline < bound)
    (ha : s'.agingEvents = s.agingEvents) (hb : s'.blocked = s.blocked) (hp : s'.penalties = s.penalties)
    (hd : s'.delayed = s.delayed) : Grows bound s s' :=
  { (of_eq ha hb rfl hp hd : Grows bound { s with reservations := s'.reservations } s') with reservations := h }

theorem of_delayed (h : ∀ e, e ∈ s'.delayed → (∃ e₀, e₀ ∈ s.delayed ∧ e.notBefore = e₀.notBefore) ∨ e.notBefore < bound)
    (ha : s'.agingEvents = s.agingEvents) (hb : s'.blocked = s.blocked) (hr : s'.reservations = s.reservations)
    (hp : s'.penalties = s.penalties) : Grows bound s s' :=
  { (of_eq ha hb hr hp rfl : Grows bound { s with delayed := s'.delayed } s') with delayed := h }

end Grows

/-- Every instant that is kept lies before `bound`. -/
structure Held (bound : Nat) (s : SchedulerState) : Prop where
  aging : ∀ e, e ∈ s.agingEvents → e.instant < bound
  blocked : ∀ e, e ∈ s.blocked → e.deadline < bound
  reservations : ∀ window r, s.reservations.lookup window = some r → r.deadline < bound
  penalties : ∀ key d, s.penalties.lookup key = some d → d < bound
  delayed : ∀ e, e ∈ s.delayed → e.notBefore < bound

/-- The jobs became ready by now, and the next deadlines of aging lie before `bound`. -/
structure Timely (bound now : Nat) (s : SchedulerState) : Prop extends Held bound s where
  ready : ∀ id job, s.jobs.lookup id = some job → job.readyAt ≤ now
  quantum : now + max s.aging.quantum 1 % u64Size < bound

theorem Held.grows {bound : Nat} {s s' : SchedulerState} (h : Held bound s) (hg : Grows bound s s') : Held bound s' where
  aging e he := (hg.aging e he).elim (h.aging e) id
  blocked e he := (hg.blocked e he).elim (h.blocked e) id
  reservations window r hr := by
    rcases hg.reservations window r hr with ⟨r₀, hr₀, he⟩ | hlt
    · exact he ▸ h.reservations window r₀ hr₀
    · exact hlt
  penalties key d hd := (hg.penalties key d hd).elim (h.penalties key d) id
  delayed e he := by
    rcases hg.delayed e he with ⟨e₀, he₀, heq⟩ | hlt
    · exact heq ▸ h.delayed e₀ he₀
    · exact hlt

theorem Held.initial (bound : Nat) {limits : OutboundLimits} {classLimits : OutboundClassLimits} {aging : AgingPolicy} :
    Held bound (.initial limits classLimits aging) := by
  constructor
  · exact fun _ h => absurd h (Heap.not_mem_empty _)
  · exact fun _ h => absurd h (Heap.not_mem_empty _)
  · exact fun _ _ h => by cases h
  · exact fun _ _ h => by cases h
  · exact fun _ h => absurd h (Heap.not_mem_empty _)

namespace Timely

variable {bound now : Nat} {s s' : SchedulerState}

theorem now_lt (h : Timely bound now s) : now < bound := Nat.lt_of_le_of_lt (Nat.le_add_right _ _) h.quantum

theorem grows (h : Timely bound now s) (hg : Grows bound s s') (ha : s'.aging = s.aging)
    (hj : ∀ id job, s'.jobs.lookup id = some job → job.readyAt ≤ now) : Timely bound now s' :=
  ⟨h.toHeld.grows hg, hj, by rw [ha]; exact h.quantum⟩

theorem congr (h : Timely bound now s) (heq : s' = s) : Timely bound now s' := heq ▸ h

theorem moves (h : Timely bound now s) (hm : Moves s s') (hg : Grows bound s s') : Timely bound now s' :=
  h.grows hg hm.aging fun id job' hj => by
    obtain ⟨job, hj, hc⟩ := hm.job hj
    have hr : job'.readyAt = job.readyAt := congrArg (·.readyAt) hc
    exact hr ▸ h.ready id job hj

theorem quiet (h : Timely bound now s) (hq : Quiet s s') (hg : Grows bound s s') : Timely bound now s' :=
  h.moves hq.toMoves hg

theorem foldl {α : Type} {f : SchedulerState → α → SchedulerState}
    (hf : ∀ s a, Timely bound now s → Timely bound now (f s a)) :
    ∀ (l : List α) {s : SchedulerState}, Timely bound now s → Timely bound now (l.foldl f s)
  | [], _, h => h
  | a :: l, s, h => foldl hf l (hf s a h)

/-! ## Pushing -/

/-- The next deadline of a job is at most a quantum away. -/
theorem scheduleAging (h : Timely bound now s) (reference : CandidateRef) {job : Job} (hr : job.readyAt ≤ now) :
    Timely bound now (s.scheduleAging reference (effectivePriority job s.aging now) job.metadata.priority.val
      job.readyAt) := by
  unfold SchedulerState.scheduleAging
  split
  · exact h
  · split
    · exact h
    · refine h.moves (.of_eq rfl rfl rfl) (.of_aging (fun e he => ?_) rfl rfl rfl rfl)
      rcases Heap.mem_push.1 he with rfl | he
      · refine .inr (Nat.lt_of_le_of_lt ?_ h.quantum)
        dsimp only
        generalize hq : max s.aging.quantum 1 = quantum
        have hlevel : effectivePriority job s.aging now + 1 - job.metadata.priority.val ≤
            (now - job.readyAt) / quantum + 1 := by
          have hle : effectivePriority job s.aging now ≤ job.metadata.priority.val + (now - job.readyAt) / quantum := by
            unfold effectivePriority
            rw [hq]
            exact (Nat.min_le_left _ _).trans (Nat.add_le_add_left (Nat.min_le_left _ _) _)
          omega
        have hcut : quantum % u64Size ≤ quantum := Nat.mod_le _ _
        have hwaited : (now - job.readyAt) / quantum * quantum ≤ now - job.readyAt := Nat.div_mul_le_self _ _
        calc job.readyAt + (effectivePriority job s.aging now + 1 - job.metadata.priority.val) * (quantum % u64Size) % u64Size
            ≤ job.readyAt + ((now - job.readyAt) / quantum + 1) * (quantum % u64Size) :=
              Nat.add_le_add_left ((Nat.mod_le _ _).trans (Nat.mul_le_mul_right _ hlevel)) _
          _ = job.readyAt + ((now - job.readyAt) / quantum * (quantum % u64Size)) + quantum % u64Size := by
              rw [Nat.add_mul, Nat.one_mul, Nat.add_assoc]
          _ ≤ job.readyAt + (now - job.readyAt) + quantum % u64Size :=
              Nat.add_le_add_right (Nat.add_le_add_left ((Nat.mul_le_mul_left _ hcut).trans hwaited) _) _
          _ = now + quantum % u64Size := by rw [Nat.add_sub_cancel' hr]
      · exact .inl he

theorem pushJobCandidate (h : Timely bound now s) (id : JobId) : Timely bound now (s.pushJobCandidate id now) := by
  unfold SchedulerState.pushJobCandidate
  split
  · exact h
  · rename_i job hj
    refine scheduleAging ?_ _ (h.ready id job hj)
    exact h.quiet (.of_job hj rfl rfl rfl rfl rfl) (.of_eq rfl rfl rfl rfl rfl)

theorem pushLaneHeadCandidate (h : Timely bound now s) (lane : OutboundLaneKey) :
    Timely bound now (s.pushLaneHeadCandidate lane now) := by
  have hq := s.pushLaneHeadCandidate_quiet lane now
  have hc := s.pushLaneHeadCandidate_cases lane now
  generalize s.pushLaneHeadCandidate lane now = s' at hc hq ⊢
  cases hc with
  | absent | full | asleep => exact h
  | dropped | drained => exact h.quiet hq (.of_eq rfl rfl rfl rfl rfl)
  | pushed hl _ _ _ hj => exact (h.quiet (queueLane_quiet hl _ now) (.of_eq rfl rfl rfl rfl rfl)).scheduleAging _ (h.ready _ _ hj)

theorem pushReference (h : Timely bound now s) (reference : CandidateRef) :
    Timely bound now (s.pushReference reference now) := by
  cases reference with
  | job id => exact h.pushJobCandidate id
  | lane key => exact h.pushLaneHeadCandidate key

theorem pushCandidate (h : Timely bound now s) (c : Candidate) : Timely bound now (s.pushCandidate c now) := by
  unfold SchedulerState.pushCandidate
  split
  · exact h
  · split
    · exact h.pushLaneHeadCandidate _
    · exact h.pushJobCandidate _

theorem wakeParked (h : Timely bound now s) (window : WindowRef) (reference : CandidateRef) :
    Timely bound now (s.wakeParked window now reference) := by
  unfold SchedulerState.wakeParked
  split
  · refine pushReference ?_ _
    refine h.quiet (.of_modify rfl (fun j => ?_) rfl rfl rfl) (.of_eq rfl rfl rfl rfl rfl)
    split <;> rfl
  · exact h.pushReference _

theorem releaseReservation (h : Timely bound now s) (window : WindowRef) (owner : CandidateRef) :
    Timely bound now (s.releaseReservation window owner now) := by
  unfold SchedulerState.releaseReservation
  split
  · exact h
  · split
    · refine foldl (fun s reference hs => hs.wakeParked window reference) _ ?_
      refine h.quiet (.of_eq rfl rfl rfl rfl) (.of_reservations (fun w r hr => ?_) rfl rfl rfl rfl)
      rw [Table.lookup_erase_if] at hr
      split at hr
      · cases hr
      · exact .inl ⟨r, hr, rfl⟩
    · exact h

/-! ## Removal and compaction -/

theorem eraseJob (h : Timely bound now s) (id : JobId) (job : Job) : Timely bound now (s.eraseJob id job) := by
  obtain ⟨coalesce, heq, -⟩ := s.eraseJob_eq id job
  rw [heq]
  refine h.grows (.of_eq rfl rfl rfl rfl rfl) rfl fun a job' hj => ?_
  rw [Table.lookup_erase_if] at hj
  split at hj
  · cases hj
  · exact h.ready a job' hj

theorem forgetLaneEntry (h : Timely bound now s) (lane : OutboundLaneKey) :
    Timely bound now (s.forgetLaneEntry lane now) := by
  refine h.quiet (s.forgetLaneEntry_quiet lane now) ?_
  unfold SchedulerState.forgetLaneEntry
  split
  · exact .of_eq rfl rfl rfl rfl rfl
  · split
    · split
      · exact .of_blocked (fun e he => (Heap.mem_push.1 he).elim (fun heq => .inr (heq ▸ h.now_lt)) .inl) rfl rfl rfl rfl
      · exact .of_eq rfl rfl rfl rfl rfl
    · exact .of_eq rfl rfl rfl rfl rfl

theorem countLeftovers (h : Timely bound now s) (job : Job) : Timely bound now (s.countLeftovers job) := by
  refine h.quiet (s.countLeftovers_quiet job) (.of_reservations (fun w r hr => ?_) rfl rfl rfl rfl)
  unfold SchedulerState.countLeftovers at hr
  dsimp only at hr
  split at hr
  · rw [Table.lookup_modify] at hr
    split at hr
    · rename_i hw
      obtain ⟨r₀, hr₀, rfl⟩ := Option.map_eq_some_iff.1 hr
      exact .inl ⟨r₀, hw ▸ hr₀, rfl⟩
    · exact .inl ⟨r, hr, rfl⟩
  · exact .inl ⟨r, hr, rfl⟩

theorem forgetEntry (h : Timely bound now s) (job : Job) : Timely bound now (s.forgetEntry job now) := by
  unfold SchedulerState.forgetEntry
  split
  · exact h.forgetLaneEntry _
  · exact h.quiet (.of_eq rfl rfl rfl rfl) (.of_eq rfl rfl rfl rfl rfl)

theorem removeWaiting (h : Timely bound now s) (id : JobId) : Timely bound now (s.removeWaiting id now) := by
  unfold SchedulerState.removeWaiting
  split
  · exact h
  · refine forgetEntry (eraseJob ?_ _ _) _
    unfold releaseOwned
    split
    · exact (h.countLeftovers _).releaseReservation _ _
    · exact h.countLeftovers _

theorem compactDelayedIfNeeded (h : Timely bound now s) : Timely bound now s.compactDelayedIfNeeded := by
  refine h.quiet s.compactDelayedIfNeeded_quiet ?_
  unfold SchedulerState.compactDelayedIfNeeded
  split
  · exact .of_eq rfl rfl rfl rfl rfl
  · exact .of_delayed (fun e he => .inl ⟨e, (Heap.mem_filter.1 he).1, rfl⟩) rfl rfl rfl rfl

theorem compactCandidateHeapIfNeeded (h : Timely bound now s) : Timely bound now s.compactCandidateHeapIfNeeded := by
  refine h.quiet s.compactCandidateHeapIfNeeded_quiet ?_
  unfold SchedulerState.compactCandidateHeapIfNeeded
  split <;> exact .of_eq rfl rfl rfl rfl rfl

theorem compactBlockedIfNeeded (h : Timely bound now s) : Timely bound now s.compactBlockedIfNeeded := by
  refine h.quiet s.compactBlockedIfNeeded_quiet ?_
  unfold SchedulerState.compactBlockedIfNeeded
  split
  · exact .of_eq rfl rfl rfl rfl rfl
  · exact .of_blocked (fun e he => .inl (Heap.mem_filter.1 he).1) rfl rfl rfl rfl

theorem compactReservationsIfNeeded (h : Timely bound now s) : Timely bound now s.compactReservationsIfNeeded := by
  refine h.quiet s.compactReservationsIfNeeded_quiet (.of_reservations (fun w r hr => ?_) rfl rfl rfl rfl)
  unfold SchedulerState.compactReservationsIfNeeded at hr
  rw [Table.lookup_mapValues, Option.map_eq_some_iff] at hr
  obtain ⟨r₀, hr₀, rfl⟩ := hr
  refine .inl ⟨r₀, hr₀, ?_⟩
  split <;> rfl

theorem cancel (h : Timely bound now s) (id : JobId) : Timely bound now (s.cancel id now) :=
  (h.removeWaiting id).compactDelayedIfNeeded.compactBlockedIfNeeded

/-! ## The promotions -/

theorem fireAging (h : Timely bound now s) (reference : CandidateRef) : Timely bound now (s.fireAging reference now) := by
  unfold SchedulerState.fireAging
  split
  · split
    · exact h
    · rename_i job hj
      dsimp only
      split
      · exact h
      · refine scheduleAging ?_ _ (h.ready _ job hj)
        exact h.quiet (.of_job hj rfl rfl rfl rfl rfl) (.of_eq rfl rfl rfl rfl rfl)
  · split
    · exact h
    · rename_i l hl
      split
      · exact h
      · rename_i job hj
        obtain ⟨head, -, hj⟩ := Option.bind_eq_some_iff.1 hj
        split
        · exact h
        · dsimp only
          split
          · exact h.scheduleAging _ (h.ready _ job hj)
          · refine scheduleAging ?_ _ (h.ready _ job hj)
            exact h.quiet (.of_lane hl rfl (.kept rfl rfl rfl rfl (.refl _) fun _ h _ => h) rfl rfl rfl) (.of_eq rfl rfl rfl rfl rfl)

theorem promoteAging :
    ∀ {fuel : Nat} {s s' : SchedulerState}, Timely bound now s → promoteAging now fuel s = some s' → Timely bound now s'
  | 0, _, _, _, h => by cases h
  | fuel + 1, s, s', ht, h => by
    unfold SchedulerState.promoteAging at h
    split at h
    · cases h
      exact ht
    · split at h
      · cases h
        exact ht
      · refine promoteAging (fireAging ?_ _) h
        exact ht.quiet (.of_eq rfl rfl rfl rfl) (.of_aging (fun e he => .inl (Heap.mem_of_mem_pop he)) rfl rfl rfl rfl)

theorem wakeDelayed (h : Timely bound now s) (id : JobId) : Timely bound now (s.wakeDelayed id now) := by
  unfold SchedulerState.wakeDelayed
  split
  · exact h.quiet (.of_eq rfl rfl rfl rfl) (.of_eq rfl rfl rfl rfl rfl)
  · rename_i job hj
    have hwoken : Timely bound now
        { s with jobs := s.jobs.insert id { job with readyAt := now, notBefore := none } } := by
      refine h.grows (.of_eq rfl rfl rfl rfl rfl) rfl fun a job' hj' => ?_
      rw [Table.lookup_insert_if] at hj'
      split at hj'
      · cases hj'
        exact Nat.le_refl _
      · exact h.ready a job' hj'
    dsimp only
    split
    · exact hwoken.pushLaneHeadCandidate _
    · exact hwoken.pushJobCandidate _

theorem promoteDelayedLoop :
    ∀ (n : Nat) {s : SchedulerState}, Timely bound now s → Timely bound now (promoteDelayedLoop now n s)
  | 0, _, h => h
  | n + 1, s, h => by
    unfold SchedulerState.promoteDelayedLoop
    split
    · exact h
    · split
      · exact h
      · refine promoteDelayedLoop n (wakeDelayed ?_ _)
        exact h.quiet (.of_eq rfl rfl rfl rfl) (.of_delayed (fun e he => .inl ⟨e, Heap.mem_of_mem_pop he, rfl⟩) rfl rfl rfl rfl)

theorem wakeBlocked (h : Timely bound now s) (node : BlockedJob) : Timely bound now (s.wakeBlocked node now) := by
  unfold SchedulerState.wakeBlocked dropStaleBlocked
  split
  · split
    · exact h.quiet (.of_eq rfl rfl rfl rfl) (.of_eq rfl rfl rfl rfl rfl)
    · rename_i job hj
      split
      · exact h
      · split
        · exact h.quiet (.of_eq rfl rfl rfl rfl) (.of_eq rfl rfl rfl rfl rfl)
        · refine pushJobCandidate ?_ _
          exact h.quiet (.of_job hj rfl rfl rfl rfl rfl) (.of_eq rfl rfl rfl rfl rfl)
  · split
    · exact h.quiet (.of_eq rfl rfl rfl rfl) (.of_eq rfl rfl rfl rfl rfl)
    · rename_i l hl
      split
      · exact h.quiet (.of_eq rfl rfl rfl rfl) (.of_eq rfl rfl rfl rfl rfl)
      · split
        · exact h.quiet (.of_eq rfl rfl rfl rfl) (.of_eq rfl rfl rfl rfl rfl)
        · have hm : LaneMoved s.live (some l) (some { l with inBlockedHeap := false }) :=
            .kept rfl rfl rfl rfl (.refl _) fun _ h _ => h
          dsimp only
          split
          · exact h.quiet (.of_lane hl rfl hm rfl rfl rfl) (.of_eq rfl rfl rfl rfl rfl)
          · refine pushLaneHeadCandidate ?_ _
            exact h.quiet (.of_lane hl rfl hm rfl rfl rfl) (.of_eq rfl rfl rfl rfl rfl)

theorem promoteBlockedLoop :
    ∀ (n : Nat) {s : SchedulerState}, Timely bound now s → Timely bound now (promoteBlockedLoop now n s)
  | 0, _, h => h
  | n + 1, s, h => by
    unfold SchedulerState.promoteBlockedLoop
    split
    · exact h
    · split
      · exact h
      · refine promoteBlockedLoop n (wakeBlocked ?_ _)
        exact h.quiet (.of_eq rfl rfl rfl rfl) (.of_blocked (fun e he => .inl (Heap.mem_of_mem_pop he)) rfl rfl rfl rfl)

/-- A hold is stored with the deadline of one there was, or with one before the end. -/
theorem storeReservation {window : WindowRef} {r : Reservation}
    (hd : (∃ r₀, s.reservations.lookup window = some r₀ ∧ r.deadline = r₀.deadline) ∨ r.deadline < bound)
    (w : WindowRef) (r' : Reservation) (hr : (s.reservations.insert window r).lookup w = some r') :
    (∃ r₀, s.reservations.lookup w = some r₀ ∧ r'.deadline = r₀.deadline) ∨ r'.deadline < bound := by
  rw [Table.lookup_insert_if] at hr
  split at hr
  · rename_i hw
    cases hr
    exact hw ▸ hd
  · exact .inl ⟨r', hr, rfl⟩

theorem promoteReservation (h : Timely bound now s) (window : WindowRef) :
    Timely bound now (s.promoteReservation window now) := by
  unfold SchedulerState.promoteReservation
  split
  · exact h
  · rename_i r hr
    dsimp only
    split
    · refine h.quiet (.of_eq rfl rfl rfl rfl) (.of_reservations (fun w r hr => ?_) rfl rfl rfl rfl)
      rw [Table.lookup_erase_if] at hr
      split at hr
      · cases hr
      · exact .inl ⟨r, hr, rfl⟩
    · refine pushReference ?_ _
      exact h.quiet (s.unpark_quiet _ _ _) (.of_reservations (storeReservation (.inl ⟨r, hr, rfl⟩)) rfl rfl rfl rfl)

theorem beginPass {order : List WindowRef} {fuel : Nat} (h : Timely bound now s)
    (hb : s.beginPass order fuel now = some s') : Timely bound now s' := by
  obtain ⟨s₁, h₁, -, rfl⟩ := beginPass_cases hb
  unfold awaken at h₁
  obtain ⟨s₀, h₀, rfl⟩ := Option.map_eq_some_iff.1 h₁
  refine quiet ?_ (compactLanesIfNeeded_quiet _) (.of_eq rfl rfl rfl rfl rfl)
  refine foldl (fun s window hs => hs.promoteReservation window) order ?_
  exact promoteBlockedLoop _ (promoteDelayedLoop _ (h.promoteAging h₀))

/-! ## The pop -/

theorem dropLaneIfIdle (h : Timely bound now s) (lane : OutboundLaneKey) : Timely bound now (s.dropLaneIfIdle lane) := by
  refine h.quiet (s.dropLaneIfIdle_quiet lane) ?_
  unfold SchedulerState.dropLaneIfIdle
  split <;> exact .of_eq rfl rfl rfl rfl rfl

theorem popTurn {t : Turn} (h : Timely bound now s) (hp : s.popTurn now = some t) : Timely bound now t.sched := by
  have hpopped : Timely bound now { s with candidates := s.candidates.pop } := h.quiet (.of_eq rfl rfl rfl rfl) (.of_eq rfl rfl rfl rfl rfl)
  unfold SchedulerState.popTurn at hp
  split at hp
  · cases hp
  · dsimp only at hp
    split at hp
    · cases hp
      refine hpopped.quiet (popJob_quiet _ _ _) ?_
      unfold popJob countStale
      split
      · exact .of_eq rfl rfl rfl rfl rfl
      · split <;> exact .of_eq rfl rfl rfl rfl rfl
    · cases hp
      rename_i lane _
      unfold popLane countStale
      split
      · exact hpopped.quiet (.of_eq rfl rfl rfl rfl) (.of_eq rfl rfl rfl rfl rfl)
      · rename_i l hl
        split
        · exact hpopped.quiet (.of_eq rfl rfl rfl rfl) (.of_eq rfl rfl rfl rfl rfl)
        · split
          · exact hpopped.quiet (.of_lane hl rfl (.kept rfl rfl rfl rfl (.refl _) fun _ h _ => h) rfl rfl rfl) (.of_eq rfl rfl rfl rfl rfl)
          · have hm : LaneMoved s.live (some l) (some { l.drainDead s.live with inCandidateHeap := false }) :=
              (LaneMoved.drained l).trans (.kept rfl rfl rfl rfl (.refl _) fun _ h _ => h)
            have hdrained : Timely bound now { { s with candidates := s.candidates.pop }.check (l.drainFits s.live) with
                lanes := s.lanes.insert lane { l.drainDead s.live with inCandidateHeap := false } } :=
              hpopped.quiet (.of_lane hl rfl hm rfl rfl rfl) (.of_eq rfl rfl rfl rfl rfl)
            dsimp only
            split
            · exact hdrained.dropLaneIfIdle _
            · split
              · exact hdrained.dropLaneIfIdle _
              · split
                · exact hdrained.pushLaneHeadCandidate _
                · exact hdrained

end Timely

end SchedulerState

/-! ## Windows -/

section Windows

variable {bound now weight : Nat} {ledger : List WindowEvent}

theorem firstFit_some {capacity window : Nat} :
    ∀ {l : List WindowEvent} {remaining n : Nat}, RollingWindow.firstFit capacity window weight remaining l = some n →
      weight ≤ capacity ∧ ∃ e ∈ l, n = e.instant + window
  | [], _, _, h => by cases h
  | e :: l, remaining, n, h => by
    unfold RollingWindow.firstFit at h
    split at h
    · rename_i hfits
      exact ⟨(Nat.le_add_left _ _).trans hfits, e, List.mem_cons_self, (Option.some.inj h).symm⟩
    · obtain ⟨hle, e', hm, he⟩ := firstFit_some h
      exact ⟨hle, e', List.mem_cons_of_mem _ hm, he⟩

/-- A debit leaves a window that can take a request before the end of the clock. -/
theorem RollingWindow.firstFit_lt {w : RollingWindow} {remaining n : Nat} (h : w.Tracks ledger now)
    (hf : 0 < w.capacity → now + w.window < bound) (hw : 0 < weight)
    (hn : firstFit w.capacity w.window weight remaining w.history = some n) : n < bound := by
  obtain ⟨hle, e, hm, rfl⟩ := firstFit_some hn
  exact Nat.lt_of_le_of_lt (Nat.add_le_add_right (h.past e hm) _) (hf (Nat.lt_of_lt_of_le hw hle))

variable {set : WindowSet} {sizes : List (Nat × Nat)}

theorem WindowSet.Tracks.additions_lt (h : set.Tracks sizes ledger now)
    (hf : ∀ size ∈ sizes, 0 < size.1 → now + size.2 < bound) (hw : 0 < weight) :
    ∀ n ∈ set.additions now weight, n < bound := by
  intro n hn
  obtain ⟨w, hm, hn⟩ := List.mem_flatMap.1 hn
  have hm : w ∈ set.windows := (List.takeWhile_sublist _).mem hm
  unfold RollingWindow.additions at hn
  split at hn
  · cases hn
  · refine RollingWindow.firstFit_lt (h.each w hm) (hf w.size ?_) hw (Option.mem_toList.1 hn)
    exact h.sizes ▸ List.mem_map_of_mem hm

theorem WindowSet.Tracks.earliestFor_lt (h : set.Tracks sizes ledger now)
    (hf : ∀ size ∈ sizes, 0 < size.1 → now + size.2 < bound) (hw : 0 < weight) (hnow : now < bound) {d : Nat}
    (hd : set.earliestFor now weight = some d) : d < bound := by
  have hone : ∀ w ∈ set.windows, ∀ d, w.earliestFor now weight = some d → d < bound := by
    intro w hm d hd
    unfold RollingWindow.earliestFor at hd
    split at hd
    · cases hd
      exact hnow
    · refine RollingWindow.firstFit_lt (h.each w hm) (hf w.size ?_) hw hd
      exact h.sizes ▸ List.mem_map_of_mem hm
  unfold WindowSet.earliestFor at hd
  -- the greatest of instants before the end
  have hfold : ∀ (l : List RollingWindow) (acc d : Nat), (∀ w ∈ l, w ∈ set.windows) → acc < bound →
      l.foldlM (fun acc w => (w.earliestFor now weight).map (max acc)) acc = some d → d < bound := by
    intro l
    induction l with
    | nil =>
      intro acc d _ ha hd
      cases hd
      exact ha
    | cons w l ih =>
      intro acc d hl ha hd
      rw [List.foldlM_cons, Option.bind_eq_bind, Option.bind_eq_some_iff] at hd
      obtain ⟨b, hb, hd⟩ := hd
      obtain ⟨d', hd', rfl⟩ := Option.map_eq_some_iff.1 hb
      exact ih _ d (fun w hw => hl w (List.mem_cons_of_mem _ hw))
        (Nat.max_lt.2 ⟨ha, hone w (hl w List.mem_cons_self) d' hd'⟩) hd
  exact hfold set.windows now d (fun _ hw => hw) hnow hd

end Windows

namespace SchedulerState

/-- Every window that can take a request lets go of it before `bound`. -/
def InForce (bound now : Nat) (s : SchedulerState) : Prop :=
  ∀ window, ∀ size ∈ s.configured window, 0 < size.1 → now + size.2 < bound

theorem InForce.of_configured {bound now : Nat} {s s' : SchedulerState} (h : InForce bound now s)
    (hc : s'.configured = s.configured) : InForce bound now s' := by
  unfold InForce
  rw [hc]
  exact h

/-! ## Admission -/

theorem storeSet_grows (bound : Nat) (s : SchedulerState) (window : WindowRef) (set : WindowSet) :
    Grows bound s (s.storeSet window set) := by
  cases window <;> exact .of_eq rfl rfl rfl rfl rfl

section Admission

variable {bound now weight : Nat} {s : SchedulerState} {ledger : WindowRef → List WindowEvent}

theorem Timely.storeSet (h : Timely bound now s) (window : WindowRef) (set : WindowSet) :
    Timely bound now (s.storeSet window set) :=
  h.moves (s.storeSet_moves window set) (s.storeSet_grows bound window set)

theorem Timely.checkWindow (h : Timely bound now s) (window : WindowRef) (v : Verdict) :
    Timely bound now (s.checkWindow now weight window v).1 := by
  unfold SchedulerState.checkWindow
  dsimp only
  split
  · exact h
  · split <;> exact h.storeSet _ _

theorem windowAdditions_lt (ht : s.Tracked ledger now) (hf : InForce bound now s) (hw : 0 < weight) (window : WindowRef) :
    ∀ n ∈ s.windowAdditions now weight window, n < bound := by
  intro n hn
  unfold windowAdditions at hn
  split at hn
  · cases hn
  · rename_i set hs
    dsimp only at hn
    split at hn
    · cases hn
    · exact ((ht.set hs).canConsume weight).additions_lt (hf window) hw n hn

theorem Timely.withPenalty (h : Timely bound now s) {window : WindowRef} {v : Verdict} (hv : v.deadline < bound) :
    (s.withPenalty now window v).deadline < bound := by
  unfold SchedulerState.withPenalty
  split
  · rename_i deadline hd
    obtain ⟨key, -, hd⟩ := Option.bind_eq_some_iff.1 hd
    exact Nat.max_lt.2 ⟨hv, h.penalties key deadline (Option.filter_eq_some_iff.1 hd).1⟩
  · exact hv

/-- A check finds a deadline before the end of the clock. -/
theorem checkWindow_lt (h : Timely bound now s) (ht : s.Tracked ledger now) (hf : InForce bound now s) (hw : 0 < weight)
    {window : WindowRef} {v v' : Verdict} (hv : v.deadline < bound)
    (hc : (s.checkWindow now weight window v).2 = some v') : v'.deadline < bound := by
  have hp : (s.withPenalty now window v).deadline < bound := h.withPenalty hv
  unfold SchedulerState.checkWindow at hc
  dsimp only at hc
  split at hc
  · cases hc
    exact hp
  · rename_i set hs
    split at hc
    · cases hc
      exact hp
    · obtain ⟨d, hd, rfl⟩ := Option.map_eq_some_iff.1 hc
      exact Nat.max_lt.2 ⟨hp, ((ht.set hs).canConsume weight).earliestFor_lt (hf window) hw h.now_lt hd⟩

theorem checkWindows_timely (hw : 0 < weight) :
    ∀ (windows : List WindowRef) {s : SchedulerState} {v : Verdict}, Timely bound now s → s.Tracked ledger now →
      InForce bound now s → v.deadline < bound →
      Timely bound now (checkWindows now weight windows s v).1 ∧
        (∀ v', (checkWindows now weight windows s v).2 = some v' → v'.deadline < bound) ∧
        ∀ n ∈ windowsAdditions now weight windows s v, n < bound
  | [], s, v, h, _, _, hv => by
    refine ⟨h, ?_, ?_⟩
    · intro v' hv'
      cases hv'
      exact hv
    · intro n hn
      cases hn
  | window :: windows, s, v, h, ht, hf, hv => by
    have h₁ : Timely bound now (s.checkWindow now weight window v).1 := h.checkWindow window v
    have ht₁ := checkWindow_tracked ht weight window v
    have hf₁ := hf.of_configured (s.checkWindow_configured now weight window v)
    have hadd := windowAdditions_lt ht hf hw window
    unfold checkWindows windowsAdditions
    cases hc : s.checkWindow now weight window v with
    | mk s₁ o =>
      rw [hc] at h₁ ht₁ hf₁
      cases o with
      | none =>
        refine ⟨h₁, ?_, ?_⟩
        · intro v' hv'
          cases hv'
        · intro n hn
          exact hadd n (by simpa using hn)
      | some v₁ =>
        have hv₁ : v₁.deadline < bound := checkWindow_lt h ht hf hw hv (by rw [hc])
        obtain ⟨h₂, hd, hrest⟩ := checkWindows_timely hw windows h₁ ht₁ hf₁ hv₁
        exact ⟨h₂, hd, fun n hn => (List.mem_append.1 hn).elim (hadd n) (hrest n)⟩

theorem admission_timely (h : Timely bound now s) (ht : s.Tracked ledger now) (hf : InForce bound now s) (c : Candidate) :
    Timely bound now (s.admission c now).1 ∧
      (∀ deadline reserve, (s.admission c now).2 = .blocked deadline reserve → deadline < bound) ∧
      ∀ n ∈ s.admissionAdditions c now, n < bound := by
  have h₀ : Timely bound now (s.check (s.live c.job)) := h.quiet (.of_eq rfl rfl rfl rfl) (.of_eq rfl rfl rfl rfl rfl)
  obtain ⟨h₁, hd, hadd⟩ := checkWindows_timely c.weight.property.1 (s.applicableWindows c) h₀ (ht.of_rates rfl)
    (hf.of_configured rfl) (show (Verdict.mk now none).deadline < bound from h.now_lt)
  unfold SchedulerState.admission admissionAdditions
  split
  · refine ⟨h, ?_, ?_⟩
    · intro deadline reserve hv
      cases hv
    · intro n hn
      cases hn
  · refine ⟨?_, ?_, hadd⟩
    · split
      · rename_i heq
        rw [heq] at h₁
        exact h₁
      · rename_i heq
        rw [heq] at h₁
        split <;> exact h₁
    · intro deadline reserve hv
      split at hv
      · cases hv
      · rename_i v heq
        split at hv
        · cases hv
          exact hd v (by rw [heq])
        · cases hv

end Admission

/-! ## The verdict -/

namespace Timely

variable {bound now : Nat} {s : SchedulerState}

theorem releasePreviousReservationIfChanged (h : Timely bound now s) (c : Candidate) (next : Option WindowRef) :
    Timely bound now (s.releasePreviousReservationIfChanged c next now) := by
  unfold SchedulerState.releasePreviousReservationIfChanged
  split
  · exact h
  · split
    · exact h
    · rename_i previous _ _
      refine (h.releaseReservation previous _).quiet (.of_modify rfl (fun j => ?_) rfl rfl rfl)
        (.of_eq rfl rfl rfl rfl rfl)
      split <;> rfl

theorem reserveWindow (h : Timely bound now s) (c : Candidate) (window : WindowRef) {deadline : Nat}
    (hd : deadline < bound) : Timely bound now (s.reserveWindow c window deadline) := by
  refine h.quiet (s.reserveWindow_quiet c window deadline) ?_
  unfold SchedulerState.reserveWindow
  dsimp only
  split
  · exact .of_reservations (storeReservation (.inr hd)) rfl rfl rfl rfl
  · refine .of_reservations (storeReservation ?_) rfl rfl rfl rfl
    cases hr : s.reservations.lookup window with
    | none => exact .inr hd
    | some r => exact .inl ⟨r, rfl, rfl⟩

theorem blockCandidate (h : Timely bound now s) (c : Candidate) {deadline : Nat} (permanent : Bool)
    (hd : deadline < bound) : Timely bound now (s.blockCandidate c deadline permanent) := by
  refine h.quiet (s.blockCandidate_quiet c deadline permanent) ?_
  have hpush (node : BlockedJob) (hn : node.deadline = deadline) (e : BlockedJob) (he : e ∈ s.blocked.push node) :
      e ∈ s.blocked ∨ e.deadline < bound := by
    rcases Heap.mem_push.1 he with rfl | he
    · exact .inr (hn ▸ hd)
    · exact .inl he
  unfold SchedulerState.blockCandidate
  split
  · exact .of_blocked (hpush _ rfl) rfl rfl rfl rfl
  · split
    · exact .of_blocked (hpush _ rfl) rfl rfl rfl rfl
    · split
      · exact .of_eq rfl rfl rfl rfl rfl
      · exact .of_blocked (hpush _ rfl) rfl rfl rfl rfl

theorem park (h : Timely bound now s) (c : Candidate) : Timely bound now (s.park c now) := by
  unfold SchedulerState.park
  split
  · exact h.quiet (.of_eq rfl rfl rfl rfl) (.of_eq rfl rfl rfl rfl rfl)
  · split
    · exact h.pushCandidate c
    · rename_i r hr
      dsimp only
      split
      · exact h.quiet (.of_modify rfl (fun _ => rfl) rfl rfl rfl)
          (.of_reservations (storeReservation (.inl ⟨r, hr, rfl⟩)) rfl rfl rfl rfl)
      · exact h.quiet (.of_eq rfl rfl rfl rfl)
          (.of_reservations (storeReservation (.inl ⟨r, hr, rfl⟩)) rfl rfl rfl rfl)

theorem grant (h : Timely bound now s) (id : JobId) : Timely bound now (s.grant id now) := by
  unfold SchedulerState.grant
  split
  · exact h.quiet (.of_eq rfl rfl rfl rfl) (.of_eq rfl rfl rfl rfl rfl)
  · rename_i job hj
    have h₂ : Timely bound now ((s.eraseJob id job).takePermit id job) := by
      have h₁ := h.eraseJob id job
      obtain ⟨lanes, p, heq⟩ := takePermit_eq (s.eraseJob id job) id job
      rw [heq]
      exact h₁.grows (.of_eq rfl rfl rfl rfl rfl) rfl h₁.ready
    have h₃ : Timely bound now (((s.eraseJob id job).takePermit id job).debit id job now) := by
      refine foldl (fun s window hs => ?_) _ h₂
      unfold consumeWindow
      split
      · exact hs
      · rename_i set _
        have hc : Timely bound now (s.check (set.canConsume now job.metadata.weight.val).2) :=
          hs.quiet (.of_eq rfl rfl rfl rfl) (.of_eq rfl rfl rfl rfl rfl)
        exact hc.storeSet _ _
    have h₄ : Timely bound now ((((s.eraseJob id job).takePermit id job).debit id job now).putInFlight id job) :=
      h₃.grows (.of_eq rfl rfl rfl rfl rfl) rfl h₃.ready
    unfold rearmBoundedLane
    split
    · exact h₄
    · split
      · exact h₄.pushLaneHeadCandidate _
      · exact h₄

/-- A pass drops penalties, and sets of chats. -/
theorem endPass (h : Timely bound now s) : Timely bound now (s.endPass now) := by
  refine compactReservationsIfNeeded (h.moves (.of_eq rfl rfl rfl) ⟨?_, ?_, ?_, ?_, ?_⟩)
  · exact fun _ he => .inl he
  · exact fun _ he => .inl he
  · exact fun _ r hr => .inl ⟨r, hr, rfl⟩
  · intro key d hd
    simp only [pruneIdleChatWindows, pruneExpiredPenalties, Table.lookup_filterMap, Option.bind_eq_some_iff] at hd
    obtain ⟨d', hd', hk⟩ := hd
    split at hk
    · cases hk
      exact .inl hd'
    · cases hk
  · exact fun e he => .inl ⟨e, he, rfl⟩

end Timely

/-! ## The pass -/

theorem referenceWeight_pos {s : SchedulerState} {reference : CandidateRef} {weight : Nat}
    (h : s.referenceWeight reference = some weight) : 0 < weight := by
  cases reference with
  | job id =>
    obtain ⟨job, -, rfl⟩ := Option.map_eq_some_iff.1 h
    exact job.metadata.weight.property.1
  | lane key =>
    simp only [referenceWeight, Option.bind_eq_bind, Option.bind_eq_some_iff] at h
    obtain ⟨_, -, _, -, job, -, h⟩ := h
    cases h
    exact job.metadata.weight.property.1

/-- What the turns of a pass keep. -/
structure Paced (bound now : Nat) (s : SchedulerState) : Prop extends Timely bound now s where
  tracked : ∃ ledger, s.Tracked ledger now
  inForce : InForce bound now s

namespace Paced

variable {bound now : Nat} {s s' : SchedulerState}

theorem of_rates (h : Paced bound now s) (hr : s'.rates = s.rates) (ht : Timely bound now s') : Paced bound now s' :=
  ⟨ht, h.tracked.imp fun _ hl => hl.of_rates hr, h.inForce.of_configured (configured_of_rates hr)⟩

/-- The hold of the global window, as a grant leaves it. -/
theorem rearmGlobal (h : Paced bound now s) :
    Paced bound now (rearmReservation now s .global) ∧ ∀ n ∈ rearmAdditions now [.global] s, n < bound := by
  obtain ⟨ledger, ht⟩ := h.tracked
  have hset : s.globalWindows.Tracks (s.configured .global) (ledger .global) now := ht .global
  refine ⟨h.of_rates (rearmReservation_quiet now s .global).rates ?_, fun n hn => ?_⟩
  · refine h.toTimely.quiet (rearmReservation_quiet now s .global) ?_
    unfold rearmReservation
    split
    · exact .of_eq rfl rfl rfl rfl rfl
    · split
      · exact .of_eq rfl rfl rfl rfl rfl
      · rename_i d hd
        obtain ⟨weight, hw, hd⟩ := Option.bind_eq_some_iff.1 hd
        obtain ⟨reference, -, hw⟩ := Option.bind_eq_some_iff.1 hw
        refine .of_reservations (Timely.storeReservation (.inr (Nat.max_lt.2 ⟨?_, h.now_lt⟩))) rfl rfl rfl rfl
        exact hset.earliestFor_lt (h.inForce .global) (referenceWeight_pos hw) h.now_lt hd
  · simp only [rearmAdditions, List.append_nil] at hn
    split at hn
    · rename_i weight set hw hs
      obtain ⟨reference, -, hw⟩ := Option.bind_eq_some_iff.1 hw
      cases hs
      exact hset.additions_lt (h.inForce .global) (referenceWeight_pos hw) n hn
    · cases hn

/-- The windows that are gone through after a grant. -/
theorem applicableWindows_grant {c : Candidate} {job : Job} (hj : s.jobs.lookup c.job = some job) :
    (s.grant c.job now).applicableWindows c = [.global] := by
  have hnone := (grant_grants hj now).jobs c.job
  rw [if_pos rfl, Option.map_eq_none_iff] at hnone
  unfold applicableWindows
  rw [hnone]

/-- One candidate of the pass. -/
theorem visit (h : Paced bound now s) (hyear : now + BLOCKED_FOREVER_DELAY < bound) {c : Candidate} {job : Job}
    (hj : s.jobs.lookup c.job = some job) :
    Paced bound now (s.visit c now).1 ∧ ∀ n ∈ s.visitAdditions c now, n < bound := by
  obtain ⟨ledger, ht⟩ := h.tracked
  obtain ⟨h₁, hd, hadd⟩ := admission_timely h.toTimely ht h.inForce c
  obtain ⟨ht₁, hc, -⟩ := admission_tracked ht c
  have hm := s.admission_moves c now
  unfold SchedulerState.visit visitAdditions
  cases ha : s.admission c now with
  | mk s₁ verdict =>
    rw [ha] at h₁ hd ht₁ hc hm
    have hp : Paced bound now s₁ := ⟨h₁, ⟨ledger, ht₁⟩, h.inForce.of_configured hc⟩
    cases verdict with
    | pass =>
      have hj₁ := hm.isSome_eq c.job
      rw [hj] at hj₁
      obtain ⟨job₁, hj₁⟩ := Option.isSome_iff_exists.1 hj₁
      have hg : Paced bound now (s₁.grant c.job now) := by
        obtain ⟨hgt, hgc⟩ := grant_tracked ht₁ hj₁
        exact ⟨h₁.grant c.job, ⟨_, hgt⟩, hp.inForce.of_configured hgc⟩
      obtain ⟨hr, hradd⟩ := hg.rearmGlobal
      dsimp only [settle, rearmReservations]
      rw [applicableWindows_grant hj₁]
      refine ⟨hr, fun n hn => ?_⟩
      exact (List.mem_append.1 hn).elim (hadd n) (hradd n)
    | blocked deadline reserve =>
      refine ⟨hp.of_rates (s₁.settle_quiet c now (by simp)).rates ?_, fun n hn => hadd n (by simpa using hn)⟩
      have hrel := h₁.releasePreviousReservationIfChanged c reserve
      have hlt : deadline < bound := hd deadline reserve rfl
      unfold settle
      cases reserve with
      | none => exact hrel.blockCandidate c false hlt
      | some window => exact (hrel.reserveWindow c window hlt).blockCandidate c false hlt
    | blockedForever =>
      refine ⟨hp.of_rates (s₁.settle_quiet c now (by simp)).rates ?_, fun n hn => ?_⟩
      · exact (h₁.releasePreviousReservationIfChanged c none).blockCandidate c true hyear
      · rcases List.mem_append.1 hn with hn | hn
        · exact hadd n hn
        · rw [List.mem_singleton.1 hn]
          exact hyear
    | reserved =>
      refine ⟨hp.of_rates (s₁.settle_quiet c now (by simp)).rates (h₁.park c), fun n hn => ?_⟩
      exact hadd n (by simpa using hn)

/-- The turns of a pass. -/
theorem loop (hyear : now + BLOCKED_FOREVER_DELAY < bound) :
    ∀ (fuel : Nat) {s : SchedulerState}, Paced bound now s →
      (∀ n ∈ loopAdditions now fuel s, n < bound) ∧
        ∀ {s' gs}, grantLoop now fuel s = some (s', gs) → Paced bound now s'
  | 0, s, _ => by
    refine ⟨?_, ?_⟩
    · intro n hn
      cases hn
    · intro s' gs h
      cases h
  | fuel + 1, s, h => by
    have hpop {t : Turn} (hp : s.popTurn now = some t) : Paced bound now t.sched :=
      h.of_rates (popTurn_quiet hp).rates (h.toTimely.popTurn hp)
    unfold loopAdditions grantLoop
    cases hp : s.popTurn now with
    | none =>
      refine ⟨?_, ?_⟩
      · intro n hn
        cases hn
      · intro s' gs h'
        cases h'
        exact h
    | some t =>
      cases t with
      | skipped s₁ => exact loop hyear fuel (hpop hp)
      | popped s₁ c =>
        obtain ⟨job, hj⟩ := popTurn_live hp
        obtain ⟨hv, hadd⟩ := (show Paced bound now s₁ from hpop hp).visit hyear hj
        obtain ⟨hrest, hend⟩ := loop hyear fuel hv
        refine ⟨fun n hn => (List.mem_append.1 hn).elim (hadd n) (hrest n), ?_⟩
        intro s' gs h'
        obtain ⟨⟨s₂, gs₂⟩, hl, heq⟩ := Option.map_eq_some_iff.1 h'
        cases heq
        exact hend hl

/-- A whole pass. -/
theorem grantReady (h : Paced bound now s) (hyear : now + BLOCKED_FOREVER_DELAY < bound) (order : List WindowRef)
    (fuel : Nat) :
    (∀ n ∈ s.passAdditions order fuel now, n < bound) ∧
      ∀ {s' gs}, s.grantReady order fuel now = some (s', gs) → Timely bound now s' := by
  unfold passAdditions SchedulerState.grantReady
  cases hb : s.beginPass order fuel now with
  | none =>
    refine ⟨?_, ?_⟩
    · intro n hn
      cases hn
    · intro s' gs h'
      cases h'
  | some s₁ =>
    have h₁ : Paced bound now s₁ := h.of_rates (congrArg (·.1) (beginPass_accounts hb)) (h.toTimely.beginPass hb)
    obtain ⟨hadd, hend⟩ := loop hyear fuel h₁
    refine ⟨hadd, ?_⟩
    intro s' gs h'
    simp only [Option.bind_eq_bind, Option.bind_some, Option.bind_eq_some_iff] at h'
    obtain ⟨⟨s₂, gs₂⟩, hl, heq⟩ := h'
    cases heq
    exact (hend hl).toTimely.endPass

end Paced

/-! ## The other calls -/

namespace Timely

variable {bound now : Nat} {s : SchedulerState}

theorem start (h : Timely bound now s) (id : JobId) : Timely bound now (s.start id now) := by
  unfold SchedulerState.start
  split
  · exact h
  · split
    · exact h
    · split
      · exact h
      · split
        · exact h.grows (.of_eq rfl rfl rfl rfl rfl) rfl h.ready
        · refine pushLaneHeadCandidate ?_ _
          exact h.grows (.of_eq rfl rfl rfl rfl rfl) rfl h.ready

theorem freeLane (h : Timely bound now s) (lane : OutboundLaneKey) (id : JobId) :
    Timely bound now (s.freeLane lane id now) := by
  unfold SchedulerState.freeLane
  split
  · exact h
  · split
    · exact h.dropLaneIfIdle lane
    · rename_i free _
      have hfree : Timely bound now { s with lanes := s.lanes.insert lane free } :=
        h.grows (.of_eq rfl rfl rfl rfl rfl) rfl h.ready
      dsimp only
      split
      · exact hfree.dropLaneIfIdle lane
      · exact hfree.pushLaneHeadCandidate lane

theorem penalize (h : Timely bound now s) (scope : OutboundScope) {deadline : Nat} (hd : deadline < bound) :
    Timely bound now (s.penalize scope deadline) := by
  refine h.grows ⟨fun _ he => .inl he, fun _ he => .inl he, fun _ r hr => .inl ⟨r, hr, rfl⟩, fun key d hk => ?_,
    fun e he => .inl ⟨e, he, rfl⟩⟩ rfl h.ready
  simp only [SchedulerState.penalize, Table.lookup_insert_if] at hk
  split at hk
  · rename_i hkey
    cases hk
    refine .inr (Nat.max_lt.2 ⟨?_, hd⟩)
    cases hp : s.penalties.lookup (PenaltyKey.ofScope scope) with
    | none => exact hd
    | some d₀ => exact h.penalties _ d₀ hp
  · exact .inl hk

theorem refundWindow (h : Timely bound now s) (weight : Nat) (id : JobId) (window : WindowRef) :
    Timely bound now (s.refundWindow now weight id window).1 := by
  refine h.moves (s.refundWindow_moves now weight id window) ?_
  unfold SchedulerState.refundWindow
  split
  · exact .of_eq rfl rfl rfl rfl rfl
  · dsimp only
    split
    · split
      · exact .of_eq rfl rfl rfl rfl rfl
      · exact s.storeSet_grows bound (.chat _) _
    · exact s.storeSet_grows bound window _

theorem refundWindows (weight : Nat) (id : JobId) :
    ∀ (windows : List WindowRef) {s : SchedulerState}, Timely bound now s →
      Timely bound now (refundWindows now weight id windows s).1
  | [], _, h => h
  | window :: windows, _, h => refundWindows weight id windows (h.refundWindow weight id window)

theorem rearmReservationOwner (h : Timely bound now s) (window : WindowRef) :
    Timely bound now (rearmReservationOwner now s window) := by
  unfold SchedulerState.rearmReservationOwner
  split
  · exact h
  · split
    · exact h
    · rename_i job hj
      split
      · refine pushJobCandidate ?_ _
        exact h.quiet (.of_job hj rfl rfl rfl rfl rfl) (.of_eq rfl rfl rfl rfl rfl)
      · exact h
  · split
    · exact h
    · split
      · refine pushLaneHeadCandidate ?_ _
        exact h.grows (.of_eq rfl rfl rfl rfl rfl) rfl h.ready
      · exact h

/-- A penalty that is reported lasts from its observation on. -/
theorem settleCompletion (h : Timely bound now s) (id : JobId) (permit : InFlight) {completion : OutboundCompletion}
    {observedAt : Nat} (hd : ∀ scope duration, completion = .retryAfter scope duration → observedAt + duration < bound) :
    Timely bound now (s.settleCompletion id permit completion now observedAt) := by
  unfold SchedulerState.settleCompletion
  split
  · exact foldl (fun s window hs => hs.rearmReservationOwner window) _ (refundWindows _ id _ h)
  · split
    · exact h
    · exact h.penalize _ (hd _ _ rfl)
  · exact h
  · exact h
  · exact h

theorem complete (h : Timely bound now s) (id : JobId) {completion : OutboundCompletion} {observedAt : Nat}
    (hd : ∀ scope duration, completion = .retryAfter scope duration → observedAt + duration < bound) :
    Timely bound now (s.complete id completion now observedAt) := by
  unfold SchedulerState.complete
  split
  · exact h
  · rename_i permit _
    have h₁ : Timely bound now { s with inFlight := s.inFlight.erase id } :=
      h.grows (.of_eq rfl rfl rfl rfl rfl) rfl h.ready
    refine settleCompletion ?_ id permit hd
    split
    · exact h₁.freeLane _ id
    · exact h₁

theorem rearmReference (h : Timely bound now s) (reference : CandidateRef) :
    Timely bound now (rearmReference now s reference) := by
  unfold SchedulerState.rearmReference
  split
  · split
    · exact h
    · rename_i job hj
      refine pushJobCandidate ?_ _
      exact h.quiet (.of_job hj rfl rfl rfl rfl rfl) (.of_eq rfl rfl rfl rfl rfl)
  · refine pushLaneHeadCandidate ?_ _
    exact h.grows (.of_eq rfl rfl rfl rfl rfl) rfl h.ready

theorem rearmBlockedAndParked (h : Timely bound now s) (order : List CandidateRef) :
    Timely bound now (s.rearmBlockedAndParked order now) := by
  refine foldl (fun s reference hs => hs.rearmReference reference) order (h.grows ⟨?_, ?_, ?_, ?_, ?_⟩ rfl h.ready)
  · exact fun _ he => .inl he
  · exact fun _ he => absurd he (Heap.not_mem_empty _)
  · intro window r hr
    cases hr
  · exact fun _ _ hk => .inl hk
  · exact fun e he => .inl ⟨e, he, rfl⟩

theorem setLimits (h : Timely bound now s) (limits : OutboundLimits) (order : List CandidateRef) :
    Timely bound now (s.setLimits limits order now).1 := by
  unfold SchedulerState.setLimits
  split
  · exact h
  · split
    · exact h
    · split
      · exact h
      · have hr : Timely bound now (s.replaceLimits limits now) := h.grows (.of_eq rfl rfl rfl rfl rfl) rfl h.ready
        exact hr.rearmBlockedAndParked order

theorem setClassLimits (h : Timely bound now s) (limits : OutboundClassLimits) (order : List CandidateRef) :
    Timely bound now (s.setClassLimits limits order now).1 := by
  unfold SchedulerState.setClassLimits
  split
  · exact h
  · split
    · exact h
    · have hr : Timely bound now (s.replaceClassLimits limits now) := h.grows (.of_eq rfl rfl rfl rfl rfl) rfl h.ready
      exact hr.rearmBlockedAndParked order

theorem dropDeadTops (h : Timely bound now s) : Timely bound now s.dropDeadTops := by
  refine h.grows ⟨?_, ?_, ?_, ?_, ?_⟩ rfl h.ready
  · exact fun _ he => .inl (Heap.mem_of_mem_dropWhile he)
  · exact fun _ he => .inl (Heap.mem_of_mem_dropWhile he)
  · exact fun _ r hr => .inl ⟨r, hr, rfl⟩
  · exact fun _ _ hk => .inl hk
  · exact fun e he => .inl ⟨e, Heap.mem_of_mem_dropWhile he, rfl⟩

/-- The next wake-up comes before the end of the clock. -/
theorem nextDeadline (h : Timely bound now s) (t : Nat) : Timely bound now (s.nextDeadline t).1 ∧
    ∀ instant, (s.nextDeadline t).2 = .at instant → instant < bound := by
  have hd := h.dropDeadTops
  have hall : ∀ d ∈ s.dropDeadTops.deadlines t, d < bound := by
    intro d hm
    simp only [deadlines, List.mem_append, Option.mem_toList, List.mem_filter, List.mem_map] at hm
    rcases hm with ((hm | hm) | hm) | ⟨⟨r, hr, rfl⟩, -⟩
    · obtain ⟨e, he, rfl⟩ := Option.map_eq_some_iff.1 hm
      exact hd.delayed e (List.mem_of_head? he)
    · obtain ⟨e, he, rfl⟩ := Option.map_eq_some_iff.1 hm
      exact hd.blocked e (List.mem_of_head? (Option.filter_eq_some_iff.1 he).1)
    · obtain ⟨e, he, rfl⟩ := Option.map_eq_some_iff.1 hm
      exact hd.aging e (List.mem_of_head? he)
    · obtain ⟨window, hr⟩ := Table.mem_values.1 hr
      exact hd.reservations window r hr
  unfold SchedulerState.nextDeadline
  dsimp only
  split
  · refine ⟨hd, ?_⟩
    intro instant he
    cases he
  · rename_i d hmin
    refine ⟨hd, ?_⟩
    intro instant he
    split at he
    · cases he
    · cases he
      exact hall d (List.min?_mem hmin)

/-! ## Enqueueing -/

/-- A rebase renumbers what is kept. -/
theorem rebaseSequences_grows (bound : Nat) (s : SchedulerState) :
    Grows bound s s.rebaseSequences ∧ s.rebaseSequences.aging = s.aging := by
  unfold rebaseSequences
  split
  · exact ⟨.of_eq rfl rfl rfl rfl rfl, rfl⟩
  · split
    · obtain ⟨lanes, p, heq⟩ := rekeyAll_eq s.candidates.entries s.rankSequences
      unfold renumberSequences
      dsimp only
      rw [heq]
      refine ⟨.of_delayed (fun e he => .inl ?_) rfl rfl rfl rfl, rfl⟩
      obtain ⟨e₀, he₀, hr⟩ := List.mem_filterMap.1 (Heap.mem_ofList.1 he)
      obtain ⟨job, -, rfl⟩ := Option.map_eq_some_iff.1 hr
      exact ⟨e₀, he₀, rfl⟩
    · refine ⟨.of_delayed (fun e he => .inl ?_) rfl rfl rfl rfl, rfl⟩
      obtain ⟨e₀, he₀, rfl⟩ := List.mem_map.1 (Heap.mem_ofList.1 he)
      exact ⟨e₀, he₀, rfl⟩

theorem takeSequence (h : Timely bound now s) : Timely bound now s.takeSequence.1 := by
  have hready : ∀ id job, s.takeSequence.1.jobs.lookup id = some job → job.readyAt ≤ now := by
    intro id job hj
    obtain ⟨job₀, q, hj₀, rfl⟩ := takeSequence_job hj
    exact h.ready id job₀ hj₀
  obtain ⟨hg, haging⟩ := rebaseSequences_grows bound s
  refine h.grows ?_ ?_ hready
  · unfold SchedulerState.takeSequence
    dsimp only
    split
    · exact ⟨hg.aging, hg.blocked, hg.reservations, hg.penalties, hg.delayed⟩
    · exact .of_eq rfl rfl rfl rfl rfl
  · unfold SchedulerState.takeSequence
    dsimp only
    split
    · exact haging
    · rfl

section Enqueue

variable {metadata : OutboundMeta} {options : EnqueueOptions} {slot : Slot}

theorem entered (h : Timely bound options.now s) (hslot : ∀ t, slot.readyAt = some t → t ≤ options.now)
    (hb : ∀ t, options.notBefore = some t → t < bound) :
    Timely bound options.now (s.entered metadata options slot) := by
  have hready : ∀ id job, (s.entered metadata options slot).jobs.lookup id = some job →
      job.readyAt ≤ options.now := by
    intro id job hj
    have hview := s.entered_jobs (·.readyAt) (fun _ _ => rfl) metadata options slot id
    rw [hj] at hview
    split at hview
    · have hnew : job.readyAt = (newJob metadata options slot).readyAt := Option.some.inj hview
      rw [hnew]
      unfold newJob
      dsimp only
      split
      · exact hslot _ ‹_›
      · exact Nat.le_refl _
    · obtain ⟨job₀, hj₀, heq⟩ := Option.map_eq_some_iff.1 hview.symm
      have hkept : job₀.readyAt = job.readyAt := heq
      exact hkept ▸ h.ready id job₀ hj₀
  obtain ⟨jobs, lanes, p, heq⟩ := s.entered_eq metadata options slot
  rw [heq] at hready ⊢
  refine h.grows (.of_delayed (fun e he => ?_) rfl rfl rfl rfl) rfl hready
  simp only [storeJob] at he
  split at he
  · rename_i notBefore hn
    rcases Heap.mem_push.1 he with rfl | he
    · exact .inr (hb notBefore hn)
    · exact .inl ⟨e, he, rfl⟩
  · exact .inl ⟨e, he, rfl⟩

theorem addJob (h : Timely bound options.now s) (hslot : ∀ t, slot.readyAt = some t → t ≤ options.now)
    (hb : ∀ t, options.notBefore = some t → t < bound) :
    Timely bound options.now (s.addJob metadata options slot).1 := by
  have he : Timely bound options.now (s.entered metadata options slot) := h.entered hslot hb
  have hplaced : Timely bound options.now
      ((s.storeJob metadata options slot).placeJob s.nextJobId metadata options slot) := by
    unfold SchedulerState.entered at he
    unfold placeJob
    split
    · rename_i lane hl
      rw [hl] at he
      refine pushLaneHeadCandidate (quiet he (dropHeadKey_quiet _ lane slot.superseded) ?_) _
      unfold dropHeadKey
      dsimp only
      split <;> exact .of_eq rfl rfl rfl rfl rfl
    · rename_i hl
      rw [hl] at he
      split
      · exact he.pushJobCandidate _
      · exact he
  unfold SchedulerState.addJob
  refine compactBlockedIfNeeded (compactCandidateHeapIfNeeded (compactDelayedIfNeeded ?_))
  unfold putCoalesceEntry
  split
  · exact hplaced.grows (.of_eq rfl rfl rfl rfl rfl) rfl hplaced.ready
  · exact hplaced

/-- A request that replaces another takes over when that one became ready. -/
theorem enqueue (h : Timely bound options.now s) (hb : ∀ t, options.notBefore = some t → t < bound) :
    Timely bound options.now (s.enqueue metadata options).1 := by
  have hc := s.enqueue_cases metadata options
  generalize s.enqueue metadata options = r at hc ⊢
  obtain ⟨s', result⟩ := r
  cases hc with
  | refused => exact h
  | full => exact h.takeSequence
  | fresh _ _ hslot =>
    refine h.takeSequence.addJob ?_ hb
    intro t ht
    rw [hslot] at ht
    cases ht
  | @replaced old oldJob _ _ hold _ hslot =>
    refine (h.removeWaiting old).addJob ?_ hb
    intro t ht
    rw [hslot] at ht
    dsimp only at ht
    split at ht
    · cases ht
      exact h.ready old oldJob (supersededJob_some hold).1
    · cases ht

end Enqueue

end Timely

end SchedulerState

end Teloxide.Outbound
