import Teloxide.Outbound.Scheduler.Effect

/-!
# Where references stand

A reference to a job or a lane can stand in the candidate heap, the blocked
heap, the aging heap, a reservation queue, or own a hold, in several of them at
once. `Refers S s s'` says that a call makes no new reference to a job, but for
the jobs in `S`: so a job that stands in a lane is never referred to under its
own id.

* `step_refers`: in a step, only the job that is stored or woken comes to be
  referred to, and only where it has no lane.
-/
namespace Teloxide.Outbound

open Teloxide.Core

namespace SchedulerState

/-- The reference has an entry in the candidate heap. -/
def Keyed (s : SchedulerState) (r : CandidateRef) : Prop := ∃ k ∈ s.candidates, k.reference = r

/-- The reference has a node in the blocked heap. -/
def Noded (s : SchedulerState) (r : CandidateRef) : Prop := ∃ n ∈ s.blocked, n.reference = r

/-- An aging event of the reference is due some time. -/
def Aging (s : SchedulerState) (r : CandidateRef) : Prop := ∃ a ∈ s.agingEvents, a.reference = r

/-- The reference stands in a reservation queue. -/
def Queued (s : SchedulerState) (r : CandidateRef) : Prop :=
  ∃ w res, s.reservations.lookup w = some res ∧ r ∈ res.queue

/-- The reference owns a hold. -/
def Owns (s : SchedulerState) (r : CandidateRef) : Prop :=
  ∃ w res, s.reservations.lookup w = some res ∧ res.owner = some r

/-- The reference stands anywhere. -/
def Mentions (s : SchedulerState) (r : CandidateRef) : Prop :=
  s.Keyed r ∨ s.Noded r ∨ s.Aging r ∨ s.Queued r ∨ s.Owns r

/-- No new reference to a job outside `S`. -/
def Refers (S : JobId → Prop) (s s' : SchedulerState) : Prop :=
  ∀ id, s'.Mentions (.job id) → s.Mentions (.job id) ∨ S id

/-- The job has no lane. -/
def Unlaned (s : SchedulerState) (id : JobId) : Prop :=
  ∃ job, s.jobs.lookup id = some job ∧ job.metadata.lane = none

theorem Stays.unlaned {s s' : SchedulerState} (h : Stays s s') {id : JobId} (hu : s.Unlaned id) :
    s'.Unlaned id := by
  obtain ⟨job, hj, hl⟩ := hu
  obtain ⟨job', hj', hs⟩ := h.job' hj
  have hm : job'.metadata = job.metadata := congrArg (·.1) hs
  exact ⟨job', hj', by rw [hm, hl]⟩

theorem Stays.unlaned_iff {s s' : SchedulerState} (h : Stays s s') (id : JobId) :
    s'.Unlaned id ↔ s.Unlaned id := by
  refine ⟨fun hu => ?_, h.unlaned⟩
  obtain ⟨job', hj', hl⟩ := hu
  obtain ⟨job, hj, hs⟩ := h.job hj'
  have hm : job'.metadata = job.metadata := congrArg (·.1) hs
  exact ⟨job, hj, by rw [← hm, hl]⟩

namespace Refers

variable {S T : JobId → Prop} {s s' s'' : SchedulerState}

theorem refl (s : SchedulerState) : Refers S s s := fun _ h => Or.inl h

theorem trans (h : Refers S s s') (h' : Refers S s' s'') : Refers S s s'' := by
  intro id hm
  rcases h' id hm with hm | hs
  · exact h id hm
  · exact Or.inr hs

theorem mono (h : Refers S s s') (hst : ∀ id, S id → T id) : Refers T s s' :=
  fun id hm => (h id hm).imp_right (hst id)

/-- What no job is needed for. -/
theorem none (h : Refers (fun _ => False) s s') : Refers S s s' := h.mono fun _ hf => hf.elim

/-- Nothing is put anywhere that was not there. -/
theorem of_less (hc : ∀ k ∈ s'.candidates, s.Mentions k.reference)
    (hb : ∀ n ∈ s'.blocked, s.Mentions n.reference) (ha : ∀ a ∈ s'.agingEvents, s.Mentions a.reference)
    (hr : ∀ w res, s'.reservations.lookup w = some res →
      (∀ r ∈ res.queue, s.Mentions r) ∧ ∀ r, res.owner = some r → s.Mentions r) : Refers S s s' := by
  rintro id (⟨k, hk, he⟩ | ⟨n, hn, he⟩ | ⟨a, hm, he⟩ | ⟨w, res, hw, hq⟩ | ⟨w, res, hw, ho⟩)
  · exact Or.inl (he ▸ hc k hk)
  · exact Or.inl (he ▸ hb n hn)
  · exact Or.inl (he ▸ ha a hm)
  · exact Or.inl ((hr w res hw).1 _ hq)
  · exact Or.inl ((hr w res hw).2 _ ho)

end Refers

theorem mentions_key {s : SchedulerState} {k : CandidateKey} (h : k ∈ s.candidates) :
    s.Mentions k.reference := Or.inl ⟨k, h, rfl⟩

theorem mentions_node {s : SchedulerState} {n : BlockedJob} (h : n ∈ s.blocked) :
    s.Mentions n.reference := Or.inr (Or.inl ⟨n, h, rfl⟩)

theorem mentions_event {s : SchedulerState} {a : AgingEvent} (h : a ∈ s.agingEvents) :
    s.Mentions a.reference := Or.inr (Or.inr (Or.inl ⟨a, h, rfl⟩))

theorem mentions_hold {s : SchedulerState} {w : WindowRef} {res : Reservation}
    (h : s.reservations.lookup w = some res) :
    (∀ r ∈ res.queue, s.Mentions r) ∧ ∀ r, res.owner = some r → s.Mentions r :=
  ⟨fun _ hr => Or.inr (Or.inr (Or.inr (Or.inl ⟨w, res, h, hr⟩))),
    fun _ hr => Or.inr (Or.inr (Or.inr (Or.inr ⟨w, res, h, hr⟩)))⟩

namespace Refers

variable {S : JobId → Prop} {s s' : SchedulerState}

/-- The five places as they were, or with less in them. -/
theorem of_sub (hc : ∀ k ∈ s'.candidates, k ∈ s.candidates) (hb : ∀ n ∈ s'.blocked, n ∈ s.blocked)
    (ha : ∀ a ∈ s'.agingEvents, a ∈ s.agingEvents) (hr : s'.reservations = s.reservations) :
    Refers S s s' := by
  refine of_less (fun k hk => mentions_key (hc k hk)) (fun n hn => mentions_node (hb n hn))
    (fun a hm => mentions_event (ha a hm)) fun w res hw => ?_
  rw [hr] at hw
  exact mentions_hold hw

theorem of_eq (hc : s'.candidates = s.candidates) (hb : s'.blocked = s.blocked)
    (ha : s'.agingEvents = s.agingEvents) (hr : s'.reservations = s.reservations) : Refers S s s' :=
  of_sub (fun _ h => hc ▸ h) (fun _ h => hb ▸ h) (fun _ h => ha ▸ h) hr

/-- One entry is added to the candidate heap. -/
theorem of_push {key : CandidateKey} (hc : s'.candidates = s.candidates.push key)
    (hk : ∀ id, key.reference = .job id → S id) (hb : s'.blocked = s.blocked)
    (ha : s'.agingEvents = s.agingEvents) (hr : s'.reservations = s.reservations) : Refers S s s' := by
  rintro id (⟨k, hm, he⟩ | hrest)
  · rw [hc, Heap.mem_push] at hm
    rcases hm with rfl | hm
    · exact Or.inr (hk id he)
    · exact Or.inl (Or.inl ⟨k, hm, he⟩)
  · refine Or.inl (Or.inr ?_)
    simpa only [Noded, Aging, Queued, Owns, hb, ha, hr] using hrest

/-- One node is added to the blocked heap. -/
theorem of_block {node : BlockedJob} (hb : s'.blocked = s.blocked.push node)
    (hn : ∀ id, node.reference = .job id → S id) (hc : s'.candidates = s.candidates)
    (ha : s'.agingEvents = s.agingEvents) (hr : s'.reservations = s.reservations) : Refers S s s' := by
  rintro id (hk | ⟨n, hm, he⟩ | hrest)
  · exact Or.inl (Or.inl (by simpa only [Keyed, hc] using hk))
  · rw [hb, Heap.mem_push] at hm
    rcases hm with rfl | hm
    · exact Or.inr (hn id he)
    · exact Or.inl (Or.inr (Or.inl ⟨n, hm, he⟩))
  · refine Or.inl (Or.inr (Or.inr ?_))
    simpa only [Aging, Queued, Owns, ha, hr] using hrest

/-- Holds go, or keep some of their references. -/
theorem of_holds (hr : ∀ w res, s'.reservations.lookup w = some res →
      (∀ r ∈ res.queue, s.Mentions r) ∧ ∀ r, res.owner = some r → s.Mentions r)
    (hc : s'.candidates = s.candidates) (hb : s'.blocked = s.blocked)
    (ha : s'.agingEvents = s.agingEvents) : Refers S s s' :=
  of_less (fun _ hk => mentions_key (hc ▸ hk)) (fun _ hn => mentions_node (hb ▸ hn))
    (fun _ hm => mentions_event (ha ▸ hm)) hr

/-- One hold is stored anew. -/
theorem of_hold {w : WindowRef} {res : Reservation} (hr : s'.reservations = s.reservations.insert w res)
    (hq : ∀ id, .job id ∈ res.queue → s.Mentions (.job id) ∨ S id)
    (ho : ∀ id, res.owner = some (.job id) → s.Mentions (.job id) ∨ S id)
    (hc : s'.candidates = s.candidates) (hb : s'.blocked = s.blocked)
    (ha : s'.agingEvents = s.agingEvents) : Refers S s s' := by
  rintro id (hm | hm | hm | ⟨v, r, hv, hm⟩ | ⟨v, r, hv, hm⟩)
  · exact Or.inl (Or.inl (by simpa only [Keyed, hc] using hm))
  · exact Or.inl (Or.inr (Or.inl (by simpa only [Noded, hb] using hm)))
  · exact Or.inl (Or.inr (Or.inr (Or.inl (by simpa only [Aging, ha] using hm))))
  · rw [hr, Table.lookup_insert_if] at hv
    split at hv
    · cases hv
      exact hq id hm
    · exact Or.inl ((mentions_hold hv).1 _ hm)
  · rw [hr, Table.lookup_insert_if] at hv
    split at hv
    · cases hv
      exact ho id hm
    · exact Or.inl ((mentions_hold hv).2 _ hm)

/-- Steps over a list, each with the references that `S` allows it. -/
theorem foldl {α : Type} {f : SchedulerState → α → SchedulerState} {l : List α}
    (hf : ∀ s a, a ∈ l → Refers S s (f s a)) : ∀ s : SchedulerState, Refers S s (l.foldl f s) := by
  induction l with
  | nil => exact fun s => .refl s
  | cons a l ih =>
    intro s
    have h₁ := hf s a List.mem_cons_self
    have h₂ := ih (fun s b hb => hf s b (List.mem_cons_of_mem _ hb)) (f s a)
    exact h₁.trans h₂

end Refers

/-! ## Pushing -/

theorem scheduleAging_refers (s : SchedulerState) (r : CandidateRef) (keyed base readyAt : Nat) :
    Refers (r = .job ·) s (s.scheduleAging r keyed base readyAt) := by
  unfold scheduleAging
  split
  · exact .refl s
  · split
    · exact .refl s
    · rintro id (hm | hm | ⟨a, hm, he⟩ | hm)
      · exact Or.inl (Or.inl hm)
      · exact Or.inl (Or.inr (Or.inl hm))
      · simp only [Heap.mem_push] at hm
        rcases hm with rfl | hm
        · exact Or.inr he
        · exact Or.inl (Or.inr (Or.inr (Or.inl ⟨a, hm, he⟩)))
      · exact Or.inl (Or.inr (Or.inr (Or.inr hm)))

theorem pushJobCandidate_refers (s : SchedulerState) (id : JobId) (now : Nat) :
    Refers (· = id) s (s.pushJobCandidate id now) := by
  unfold pushJobCandidate
  split
  · exact .refl s
  · have hid : ∀ a, CandidateRef.job id = .job a → a = id := fun a h => (CandidateRef.job.inj h).symm
    refine Refers.trans ?_ ((scheduleAging_refers _ _ _ _ _).mono hid)
    exact .of_push rfl hid rfl rfl rfl

theorem pushLaneHeadCandidate_refers {S : JobId → Prop} (s : SchedulerState) (lane : OutboundLaneKey)
    (now : Nat) : Refers S s (s.pushLaneHeadCandidate lane now) := by
  have hc := s.pushLaneHeadCandidate_cases lane now
  generalize s.pushLaneHeadCandidate lane now = s' at hc ⊢
  cases hc with
  | absent | full | asleep => exact .refl s
  | dropped | drained => exact .of_eq rfl rfl rfl rfl
  | @pushed l head job =>
    have hno : ∀ a, CandidateRef.lane lane = .job a → S a := fun a h => by cases h
    have h₁ : Refers S s (s.queueLane lane l job now) := .of_push rfl hno rfl rfl rfl
    exact h₁.trans ((scheduleAging_refers _ _ _ _ _).mono hno)

theorem pushReference_refers (s : SchedulerState) (r : CandidateRef) (now : Nat) :
    Refers (r = .job ·) s (s.pushReference r now) := by
  cases r with
  | job id => exact (s.pushJobCandidate_refers id now).mono fun a h => by rw [h]
  | lane key => exact s.pushLaneHeadCandidate_refers key now

theorem pushCandidate_refers (s : SchedulerState) (c : Candidate) (now : Nat) :
    Refers (s.referenceOf c = .job ·) s (s.pushCandidate c now) := by
  unfold pushCandidate
  split
  · exact .refl s
  · rename_i job hj
    split
    · exact s.pushLaneHeadCandidate_refers _ now
    · rename_i hl
      refine (s.pushJobCandidate_refers c.job now).mono fun a h => ?_
      simp [referenceOf, hj, hl, h]

theorem wakeParked_refers (s : SchedulerState) (window : WindowRef) (now : Nat) (r : CandidateRef) :
    Refers (r = .job ·) s (s.wakeParked window now r) := by
  unfold wakeParked
  split
  · exact Refers.trans (.of_eq rfl rfl rfl rfl) (pushReference_refers _ _ now)
  · exact s.pushReference_refers _ now

/-- The parked references go back to the heap, the owner's hold goes. -/
theorem releaseReservation_refers {S : JobId → Prop} (s : SchedulerState) (window : WindowRef)
    (owner : CandidateRef) (now : Nat) : Refers S s (s.releaseReservation window owner now) := by
  unfold releaseReservation
  split
  · exact .refl s
  · rename_i res hres
    split
    · intro id hm
      have herase : Refers (fun a => .job a ∈ res.queue) s
          { s with reservations := s.reservations.erase window } := by
        refine .of_holds (fun w r hw => ?_) rfl rfl rfl
        rw [Table.lookup_erase_if] at hw
        split at hw
        · cases hw
        · exact mentions_hold hw
      have hwake := Refers.foldl (S := fun a => .job a ∈ res.queue) (l := res.queue)
        (f := fun s r => s.wakeParked window now r)
        (fun s r hr => (s.wakeParked_refers window now r).mono fun a ha => ha ▸ hr)
      rcases (herase.trans (hwake _)) id hm with hm | hq
      · exact Or.inl hm
      · exact Or.inl ((mentions_hold hres).1 _ hq)
    · exact .refl s

/-! ## Compaction -/

theorem compactDelayedIfNeeded_refers {S : JobId → Prop} (s : SchedulerState) :
    Refers S s s.compactDelayedIfNeeded := by
  unfold compactDelayedIfNeeded
  split
  · exact .refl s
  · exact .of_eq rfl rfl rfl rfl

theorem compactCandidateHeapIfNeeded_refers {S : JobId → Prop} (s : SchedulerState) :
    Refers S s s.compactCandidateHeapIfNeeded := by
  unfold compactCandidateHeapIfNeeded
  split
  · exact .refl s
  · exact .of_sub (fun _ h => (Heap.mem_filter.1 h).1) (fun _ h => h) (fun _ h => h) rfl

theorem compactBlockedIfNeeded_refers {S : JobId → Prop} (s : SchedulerState) :
    Refers S s s.compactBlockedIfNeeded := by
  unfold compactBlockedIfNeeded
  split
  · exact .refl s
  · exact .of_sub (fun _ h => h) (fun _ h => (Heap.mem_filter.1 h).1) (fun _ h => h) rfl

theorem compactReservationsIfNeeded_refers {S : JobId → Prop} (s : SchedulerState) :
    Refers S s s.compactReservationsIfNeeded := by
  refine .of_holds (fun w res hw => ?_) rfl rfl rfl
  simp only [compactReservationsIfNeeded, Table.lookup_mapValues, Option.map_eq_some_iff] at hw
  obtain ⟨r, hr, rfl⟩ := hw
  have h := mentions_hold hr
  split
  · exact h
  · exact ⟨fun a ha => h.1 a (List.mem_of_mem_filter ha), h.2⟩

/-! ## Promotions -/

theorem fireAging_refers (s : SchedulerState) (r : CandidateRef) (now : Nat) :
    Refers (r = .job ·) s (s.fireAging r now) := by
  unfold fireAging
  split
  · split
    · exact .refl s
    · dsimp only
      split
      · exact .refl s
      · refine Refers.trans ?_ (scheduleAging_refers _ _ _ _ _)
        exact .of_push rfl (fun _ h => h) rfl rfl rfl
  · split
    · exact .refl s
    · split
      · exact .refl s
      · split
        · exact .refl s
        · dsimp only
          split
          · exact scheduleAging_refers _ _ _ _ _
          · refine Refers.trans ?_ (scheduleAging_refers _ _ _ _ _)
            exact .of_push rfl (fun _ h => h) rfl rfl rfl

theorem promoteAging_refers {S : JobId → Prop} {now : Nat} :
    ∀ {fuel : Nat} {s s' : SchedulerState}, promoteAging now fuel s = some s' → Refers S s s'
  | 0, s, s', h => by cases h
  | fuel + 1, s, s', h => by
    unfold promoteAging at h
    split at h
    · cases h; exact .refl s
    · rename_i top hp
      split at h
      · cases h; exact .refl s
      · have h₁ : Refers S s { s with agingEvents := s.agingEvents.pop } :=
          .of_sub (fun _ h => h) (fun _ h => h) (fun _ h => Heap.mem_of_mem_pop h) rfl
        have h₂ := fireAging_refers { s with agingEvents := s.agingEvents.pop } top.reference now
        have h₃ : Refers S _ _ := promoteAging_refers h
        intro id hm
        rcases h₃ id hm with hm | hs
        · rcases h₂ id hm with hm | he
          · exact h₁ id hm
          · exact Or.inl (he ▸ mentions_event (Heap.peek_mem hp))
        · exact Or.inr hs

/-- A woken job is referred to under its id only if it has no lane. -/
theorem wakeDelayed_refers (s : SchedulerState) (id : JobId) (now : Nat) :
    Refers s.Unlaned s (s.wakeDelayed id now) := by
  unfold wakeDelayed
  split
  · exact .of_eq rfl rfl rfl rfl
  · rename_i job hj
    dsimp only
    split
    · exact Refers.trans (.of_eq rfl rfl rfl rfl) (pushLaneHeadCandidate_refers _ _ _)
    · rename_i hl
      refine Refers.trans (.of_eq rfl rfl rfl rfl) ((pushJobCandidate_refers _ id now).mono fun a ha => ?_)
      subst ha
      exact ⟨job, hj, hl⟩

theorem promoteDelayedLoop_refers {now : Nat} :
    ∀ (n : Nat) (s : SchedulerState), Refers s.Unlaned s (promoteDelayedLoop now n s)
  | 0, s => .refl s
  | n + 1, s => by
    unfold promoteDelayedLoop
    split
    · exact .refl s
    · split
      · exact .refl s
      · rename_i top _ _
        have h₁ : Refers s.Unlaned s { s with delayed := s.delayed.pop } := .of_eq rfl rfl rfl rfl
        have h₂ : Refers s.Unlaned _ _ := wakeDelayed_refers { s with delayed := s.delayed.pop } top.job now
        have hs := wakeDelayed_stays { s with delayed := s.delayed.pop } top.job now
        refine (h₁.trans h₂).trans ((promoteDelayedLoop_refers n _).mono fun a ha => ?_)
        exact (hs.unlaned_iff a).1 ha

theorem wakeBlocked_refers (s : SchedulerState) (node : BlockedJob) (now : Nat) :
    Refers (node.reference = .job ·) s (s.wakeBlocked node now) := by
  unfold wakeBlocked dropStaleBlocked
  split
  · rename_i id hr
    split
    · exact .of_eq rfl rfl rfl rfl
    · split
      · exact .refl s
      · split
        · exact .of_eq rfl rfl rfl rfl
        · refine Refers.trans (.of_eq rfl rfl rfl rfl) ((pushJobCandidate_refers _ id now).mono fun a ha => ?_)
          rw [ha, hr]
  · split
    · exact .of_eq rfl rfl rfl rfl
    · split
      · exact .of_eq rfl rfl rfl rfl
      · split
        · exact .of_eq rfl rfl rfl rfl
        · dsimp only
          split
          · exact .of_eq rfl rfl rfl rfl
          · exact Refers.trans (.of_eq rfl rfl rfl rfl) (pushLaneHeadCandidate_refers _ _ _)

theorem promoteBlockedLoop_refers {S : JobId → Prop} {now : Nat} :
    ∀ (n : Nat) (s : SchedulerState), Refers S s (promoteBlockedLoop now n s)
  | 0, s => .refl s
  | n + 1, s => by
    unfold promoteBlockedLoop
    split
    · exact .refl s
    · rename_i top hp
      split
      · exact .refl s
      · have h₁ : Refers S s { s with blocked := s.blocked.pop } :=
          .of_sub (fun _ h => h) (fun _ h => Heap.mem_of_mem_pop h) (fun _ h => h) rfl
        have h₂ := wakeBlocked_refers { s with blocked := s.blocked.pop } top now
        intro id hm
        rcases promoteBlockedLoop_refers (S := S) n _ id hm with hm | hs
        · rcases h₂ id hm with hm | he
          · exact h₁ id hm
          · exact Or.inl (he ▸ mentions_node (Heap.peek_mem hp))
        · exact Or.inr hs

theorem promoteReservation_refers {S : JobId → Prop} (s : SchedulerState) (window : WindowRef) (now : Nat) :
    Refers S s (s.promoteReservation window now) := by
  unfold promoteReservation
  split
  · exact .refl s
  · rename_i res hres
    have hold := mentions_hold hres
    dsimp only
    split
    · refine .of_holds (fun w r hw => ?_) rfl rfl rfl
      rw [Table.lookup_erase_if] at hw
      split at hw
      · cases hw
      · exact mentions_hold hw
    · rename_i r queue hq
      have hmem : ∀ a ∈ r :: queue, s.Mentions a := by
        intro a ha
        rw [← hq] at ha
        exact hold.1 a ((List.dropWhile_sublist _).mem ha)
      intro id hm
      rcases pushReference_refers _ r now id hm with hm | he
      · have hhold (rest : Reservation) (hr : rest.queue = queue) (ho : rest.owner = res.owner) :
            Refers S s (s.unpark window r rest) := by
          refine .of_hold rfl (fun a ha => Or.inl ?_) (fun a ha => Or.inl (hold.2 _ (ho ▸ ha))) rfl rfl rfl
          exact hmem _ (List.mem_cons_of_mem _ (hr ▸ ha))
        exact hhold { res with queue := queue, stale := _ } rfl rfl id hm
      · exact Or.inl (hmem _ (he ▸ List.mem_cons_self))

theorem promoteReservations_refers {S : JobId → Prop} (s : SchedulerState) (order : List WindowRef)
    (now : Nat) : Refers S s (s.promoteReservations order now) :=
  Refers.foldl (fun s w _ => s.promoteReservation_refers w now) s

theorem beginPass_refers {s s' : SchedulerState} {order : List WindowRef} {fuel now : Nat}
    (h : s.beginPass order fuel now = some s') : Refers s.Unlaned s s' := by
  obtain ⟨s₁, h₁, -, rfl⟩ := beginPass_cases h
  unfold awaken at h₁
  rw [Option.map_eq_some_iff] at h₁
  obtain ⟨s₀, h₀, rfl⟩ := h₁
  have hm := Stays.of_moves (promoteAging_quiet h₀).toMoves
  have ha : Refers s.Unlaned s s₀ := promoteAging_refers h₀
  have hd : Refers s.Unlaned s₀ (s₀.promoteDelayed now) :=
    (promoteDelayedLoop_refers _ s₀).mono fun a ha => (hm.unlaned_iff a).1 ha
  have hb : Refers s.Unlaned (s₀.promoteDelayed now) ((s₀.promoteDelayed now).promoteBlocked now) :=
    promoteBlockedLoop_refers _ _
  exact (((ha.trans hd).trans hb).trans (promoteReservations_refers _ _ _)).trans (.of_eq rfl rfl rfl rfl)

/-! ## The pop -/

theorem popTurn_refers {S : JobId → Prop} {s : SchedulerState} {now : Nat} {t : Turn}
    (h : s.popTurn now = some t) : Refers S s t.sched := by
  unfold popTurn at h
  split at h
  · cases h
  · have h₁ : Refers S s { s with candidates := s.candidates.pop } :=
      .of_sub (fun _ h => Heap.mem_of_mem_pop h) (fun _ h => h) (fun _ h => h) rfl
    refine h₁.trans ?_
    dsimp only at h
    split at h
    · cases h
      unfold popJob
      split
      · exact .of_eq rfl rfl rfl rfl
      · split <;> exact .of_eq rfl rfl rfl rfl
    · cases h
      have hdrop (s' : SchedulerState) (lane) : Refers S s' (s'.dropLaneIfIdle lane) := by
        unfold dropLaneIfIdle
        split <;> exact .of_eq rfl rfl rfl rfl
      unfold popLane
      split
      · exact .of_eq rfl rfl rfl rfl
      · split
        · exact .of_eq rfl rfl rfl rfl
        · split
          · exact .of_eq rfl rfl rfl rfl
          · dsimp only
            split
            · exact Refers.trans (.of_eq rfl rfl rfl rfl) (hdrop _ _)
            · split
              · exact Refers.trans (.of_eq rfl rfl rfl rfl) (hdrop _ _)
              · split
                · exact Refers.trans (.of_eq rfl rfl rfl rfl) (pushLaneHeadCandidate_refers _ _ _)
                · exact .of_eq rfl rfl rfl rfl

/-! ## Admission and its verdicts -/

/-- What admission leaves alone: everything but the window sets. -/
theorem admission_eq (s : SchedulerState) (c : Candidate) (now : Nat) :
    ∃ g cs cg cc p, (s.admission c now).1 =
      { s with globalWindows := g, chatWindowSets := cs, classGlobalWindows := cg
               classChatWindowSets := cc, panicked := p } := by
  have hstore (s : SchedulerState) (w : WindowRef) (set : WindowSet) : ∃ g cs cg cc, s.storeSet w set =
      { s with globalWindows := g, chatWindowSets := cs, classGlobalWindows := cg, classChatWindowSets := cc } := by
    cases w <;> exact ⟨_, _, _, _, rfl⟩
  have hone (s : SchedulerState) (weight) (w : WindowRef) (v : Verdict) : ∃ g cs cg cc,
      (s.checkWindow now weight w v).1 =
        { s with globalWindows := g, chatWindowSets := cs, classGlobalWindows := cg
                 classChatWindowSets := cc } := by
    unfold checkWindow
    dsimp only
    split
    · exact ⟨_, _, _, _, rfl⟩
    · split <;> exact hstore _ _ _
  have hall (weight) : ∀ (ws : List WindowRef) (s : SchedulerState) (v : Verdict), ∃ g cs cg cc,
      (checkWindows now weight ws s v).1 =
        { s with globalWindows := g, chatWindowSets := cs, classGlobalWindows := cg
                 classChatWindowSets := cc } := by
    intro ws
    induction ws with
    | nil => exact fun s v => ⟨_, _, _, _, rfl⟩
    | cons w ws ih =>
      intro s v
      obtain ⟨g, cs, cg, cc, h₁⟩ := hone s weight w v
      unfold checkWindows
      split
      · rename_i h
        rw [h] at h₁
        exact ⟨g, cs, cg, cc, h₁⟩
      · rename_i s₁ v₁ h
        rw [h] at h₁
        obtain ⟨g', cs', cg', cc', h₂⟩ := ih s₁ v₁
        change s₁ = _ at h₁
        subst h₁
        exact ⟨g', cs', cg', cc', h₂⟩
  unfold admission
  split
  · exact ⟨_, _, _, _, _, rfl⟩
  · obtain ⟨g, cs, cg, cc, h₁⟩ := hall c.weight.val (s.applicableWindows c) (s.check (s.live c.job)) ⟨now, none⟩
    split
    · rename_i h
      rw [h] at h₁
      exact ⟨g, cs, cg, cc, _, h₁⟩
    · rename_i h
      rw [h] at h₁
      split <;> exact ⟨g, cs, cg, cc, _, h₁⟩

theorem admission_refers {S : JobId → Prop} (s : SchedulerState) (c : Candidate) (now : Nat) :
    Refers S s (s.admission c now).1 := by
  obtain ⟨g, cs, cg, cc, p, h⟩ := s.admission_eq c now
  rw [h]
  exact .of_eq rfl rfl rfl rfl

theorem Moves.referenceOf_eq {s s' : SchedulerState} (h : Moves s s') (c : Candidate) :
    s'.referenceOf c = s.referenceOf c := by
  unfold referenceOf
  have hj := congrArg (Option.map (·.metadata)) (h.jobs c.job)
  rw [Option.map_map, Option.map_map] at hj
  have hm : (s'.jobs.lookup c.job).map (·.metadata) = (s.jobs.lookup c.job).map (·.metadata) := hj
  have hb (o : Option Job) : o.bind (·.metadata.lane) = (o.map (·.metadata)).bind (·.lane) := by
    cases o <;> rfl
  rw [hb, hb, hm]

theorem releasePreviousReservationIfChanged_refers {S : JobId → Prop} (s : SchedulerState) (c : Candidate)
    (next : Option WindowRef) (now : Nat) :
    Refers S s (s.releasePreviousReservationIfChanged c next now) := by
  unfold releasePreviousReservationIfChanged
  split
  · exact .refl s
  · split
    · exact .refl s
    · exact (releaseReservation_refers s _ _ now).trans (.of_eq rfl rfl rfl rfl)

theorem reserveWindow_refers (s : SchedulerState) (c : Candidate) (window : WindowRef) (deadline : Nat) :
    Refers (s.referenceOf c = .job ·) s (s.reserveWindow c window deadline) := by
  have hold : ∀ id, (.job id ∈ ((s.reservations.lookup window).getD ⟨none, deadline, [], 0⟩).queue ∨
      ((s.reservations.lookup window).getD ⟨none, deadline, [], 0⟩).owner = some (.job id)) →
      s.Mentions (.job id) := by
    intro id h
    cases hl : s.reservations.lookup window with
    | none => simp [hl] at h
    | some res =>
      rw [hl, Option.getD_some] at h
      exact h.elim ((mentions_hold hl).1 _) ((mentions_hold hl).2 _)
  unfold reserveWindow
  dsimp only
  split
  · exact .of_hold rfl (fun a ha => Or.inl (hold a (Or.inl ha))) (fun a ha => Or.inr (Option.some.inj ha))
      rfl rfl rfl
  · exact .of_hold rfl (fun a ha => Or.inl (hold a (Or.inl ha))) (fun a ha => Or.inl (hold a (Or.inr ha)))
      rfl rfl rfl

theorem blockCandidate_refers (s : SchedulerState) (c : Candidate) (deadline : Nat) (permanent : Bool) :
    Refers (s.referenceOf c = .job ·) s (s.blockCandidate c deadline permanent) := by
  unfold blockCandidate
  split
  · exact .of_block rfl (fun a ha => ha) rfl rfl rfl
  · rename_i job hj
    split
    · rename_i hl
      refine .of_block rfl (fun a ha => ?_) rfl rfl rfl
      simpa [referenceOf, hj, hl] using ha
    · split
      · exact .of_eq rfl rfl rfl rfl
      · exact .of_block rfl (fun a ha => by cases ha) rfl rfl rfl

theorem park_refers (s : SchedulerState) (c : Candidate) (now : Nat) :
    Refers (s.referenceOf c = .job ·) s (s.park c now) := by
  unfold park
  split
  · exact .of_eq rfl rfl rfl rfl
  · split
    · exact s.pushCandidate_refers c now
    · rename_i window _ res hres
      have hold := mentions_hold hres
      refine .of_hold rfl (fun a ha => ?_) (fun a ha => Or.inl (hold.2 _ ha)) rfl rfl rfl
      rcases List.mem_append.1 ha with ha | ha
      · exact Or.inl (hold.1 _ ha)
      · exact Or.inr (List.mem_singleton.1 ha).symm

theorem rearmReservations_refers {S : JobId → Prop} (s : SchedulerState) (c : Candidate) (now : Nat) :
    Refers S s (s.rearmReservations c now) := by
  refine Refers.foldl (fun s w _ => ?_) s
  unfold rearmReservation
  split
  · exact .refl s
  · rename_i res hres
    have hold := mentions_hold hres
    split
    · exact .refl s
    · exact .of_hold rfl (fun a ha => Or.inl (hold.1 _ ha)) (fun a ha => Or.inl (hold.2 _ ha)) rfl rfl rfl

theorem consumeWindow_refers {S : JobId → Prop} (now weight : Nat) (job : JobId) (s : SchedulerState)
    (window : WindowRef) : Refers S s (consumeWindow now weight job s window) := by
  unfold consumeWindow
  split
  · exact .refl s
  · cases window <;> exact .of_eq rfl rfl rfl rfl

theorem grant_refers {S : JobId → Prop} (s : SchedulerState) (id : JobId) (now : Nat) :
    Refers S s (s.grant id now) := by
  unfold grant
  split
  · exact .of_eq rfl rfl rfl rfl
  · rename_i job _
    obtain ⟨coalesce, h₁, -⟩ := s.eraseJob_eq id job
    obtain ⟨lanes, p, h₂⟩ := takePermit_eq (s.eraseJob id job) id job
    have h : Refers S s ((s.eraseJob id job).takePermit id job) := by
      rw [h₂, h₁]
      exact .of_eq rfl rfl rfl rfl
    have hd : Refers S _ (((s.eraseJob id job).takePermit id job).debit id job now) :=
      Refers.foldl (fun s w _ => consumeWindow_refers now _ id s w) _
    have hb (s' : SchedulerState) : Refers S s' (s'.rearmBoundedLane job now) := by
      unfold rearmBoundedLane
      split
      · exact .refl s'
      · split
        · exact s'.pushLaneHeadCandidate_refers _ now
        · exact .refl s'
    exact ((h.trans hd).trans (.of_eq rfl rfl rfl rfl)).trans (hb _)

/-- A verdict refers to the candidate, as it was referred to. -/
theorem settle_refers (s : SchedulerState) (c : Candidate) (now : Nat) (verdict : Admission) :
    Refers (s.referenceOf c = .job ·) s (s.settle c now verdict) := by
  cases verdict with
  | pass => exact (s.grant_refers c.job now).trans (rearmReservations_refers _ c now)
  | blocked deadline reserve =>
    have hq := s.releasePreviousReservationIfChanged_quiet c reserve now
    have h₁ := releasePreviousReservationIfChanged_refers (S := (s.referenceOf c = .job ·)) s c reserve now
    unfold settle
    dsimp only
    generalize s.releasePreviousReservationIfChanged c reserve now = s₁ at hq h₁ ⊢
    have hr₁ := hq.toMoves.referenceOf_eq c
    cases reserve with
    | none => exact h₁.trans (hr₁ ▸ s₁.blockCandidate_refers c deadline false)
    | some window =>
      have hq₂ := (s₁.reserveWindow_quiet c window deadline).toMoves.referenceOf_eq c
      have h₂ := s₁.reserveWindow_refers c window deadline
      have h₃ := (s₁.reserveWindow c window deadline).blockCandidate_refers c deadline false
      rw [hr₁] at h₂
      rw [hq₂, hr₁] at h₃
      exact (h₁.trans h₂).trans h₃
  | blockedForever =>
    have hr₁ := (s.releasePreviousReservationIfChanged_quiet c none now).toMoves.referenceOf_eq c
    have h₁ := releasePreviousReservationIfChanged_refers (S := (s.referenceOf c = .job ·)) s c none now
    exact h₁.trans (hr₁ ▸ blockCandidate_refers _ c _ true)
  | reserved => exact s.park_refers c now

/-! ## The calls -/

theorem forgetLaneEntry_refers {S : JobId → Prop} (s : SchedulerState) (lane : OutboundLaneKey) (now : Nat) :
    Refers S s (s.forgetLaneEntry lane now) := by
  unfold forgetLaneEntry
  split
  · exact .refl s
  · split
    · split
      · exact .of_block rfl (fun a ha => by cases ha) rfl rfl rfl
      · exact .of_eq rfl rfl rfl rfl
    · exact .of_eq rfl rfl rfl rfl

theorem countLeftovers_refers {S : JobId → Prop} (s : SchedulerState) (job : Job) :
    Refers S s (s.countLeftovers job) := by
  refine .of_holds (fun w res hw => ?_) rfl rfl rfl
  simp only [countLeftovers] at hw
  split at hw
  · rw [Table.lookup_modify] at hw
    split at hw
    · rename_i hwin
      subst hwin
      rw [Option.map_eq_some_iff] at hw
      obtain ⟨r, hr, rfl⟩ := hw
      exact ⟨(mentions_hold hr).1, (mentions_hold hr).2⟩
    · exact mentions_hold hw
  · exact mentions_hold hw

theorem removeWaiting_refers {S : JobId → Prop} (s : SchedulerState) (id : JobId) (now : Nat) :
    Refers S s (s.removeWaiting id now) := by
  unfold removeWaiting
  split
  · exact .refl s
  · rename_i job _
    have h₁ : Refers S s (s.countLeftovers job) := s.countLeftovers_refers job
    have h₂ : Refers S (s.countLeftovers job) ((s.countLeftovers job).releaseOwned id job now) := by
      unfold releaseOwned
      split
      · exact releaseReservation_refers _ _ _ now
      · exact .refl _
    have h₃ (s' : SchedulerState) : Refers S s' (s'.eraseJob id job) := by
      obtain ⟨coalesce, h, -⟩ := s'.eraseJob_eq id job
      rw [h]
      exact .of_eq rfl rfl rfl rfl
    have h₄ (s' : SchedulerState) : Refers S s' (s'.forgetEntry job now) := by
      unfold forgetEntry
      split
      · exact forgetLaneEntry_refers _ _ now
      · exact .of_eq rfl rfl rfl rfl
    exact ((h₁.trans h₂).trans (h₃ _)).trans (h₄ _)

theorem cancel_refers {S : JobId → Prop} (s : SchedulerState) (id : JobId) (now : Nat) :
    Refers S s (s.cancel id now) :=
  ((s.removeWaiting_refers id now).trans (compactDelayedIfNeeded_refers _)).trans
    (compactBlockedIfNeeded_refers _)

theorem rekey_reference {s : SchedulerState} {key k : CandidateKey} (h : (s.rekey key).2 = some k) :
    k.reference = key.reference := by
  unfold rekey at h
  split at h
  · rw [Option.map_eq_some_iff] at h
    obtain ⟨job, -, rfl⟩ := h
    rfl
  · unfold rekeyLane at h
    split at h
    · cases h
    · dsimp only at h
      split at h
      · cases h
        rfl
      · split at h <;> cases h

/-- A rebuilt entry stands for an entry that was there. -/
theorem rekeyAll_reference :
    ∀ {keys : List CandidateKey} {s : SchedulerState} {k : CandidateKey}, k ∈ (s.rekeyAll keys).2 →
      ∃ key ∈ keys, k.reference = key.reference
  | [], s, k, h => by cases h
  | key :: keys, s, k, h => by
    rcases List.mem_append.1 h with h | h
    · rw [Option.mem_toList] at h
      exact ⟨key, List.mem_cons_self, rekey_reference h⟩
    · obtain ⟨key', hm, hr⟩ := rekeyAll_reference h
      exact ⟨key', List.mem_cons_of_mem _ hm, hr⟩

/-- The rebuild of the entries of lanes touches the lanes only. -/
theorem rekey_eq (s : SchedulerState) (key : CandidateKey) :
    ∃ lanes p, (s.rekey key).1 = { s with lanes := lanes, panicked := p } := by
  unfold rekey
  split
  · exact ⟨_, _, rfl⟩
  · unfold rekeyLane
    split
    · exact ⟨_, _, rfl⟩
    · dsimp only
      split
      · exact ⟨_, _, rfl⟩
      · split <;> exact ⟨_, _, rfl⟩

theorem rekeyAll_eq : ∀ (keys : List CandidateKey) (s : SchedulerState),
    ∃ lanes p, (s.rekeyAll keys).1 = { s with lanes := lanes, panicked := p }
  | [], s => ⟨_, _, rfl⟩
  | key :: keys, s => by
    obtain ⟨lanes, p, h₁⟩ := s.rekey_eq key
    obtain ⟨lanes', p', h₂⟩ := rekeyAll_eq keys (s.rekey key).1
    refine ⟨lanes', p', ?_⟩
    change (rekeyAll (s.rekey key).1 keys).1 = _
    rw [h₂, h₁]

theorem rebaseSequences_refers {S : JobId → Prop} (s : SchedulerState) : Refers S s s.rebaseSequences := by
  unfold rebaseSequences
  split
  · exact .of_eq rfl rfl rfl rfl
  · split
    · obtain ⟨lanes, p, h⟩ := rekeyAll_eq s.candidates.entries s.rankSequences
      unfold renumberSequences
      dsimp only
      rw [h]
      refine .of_less (fun k hk => ?_) (fun _ hn => mentions_node hn) (fun _ ha => mentions_event ha)
        fun _ _ hw => mentions_hold (s := s) hw
      rw [Heap.mem_ofList] at hk
      obtain ⟨key, hm, hr⟩ := rekeyAll_reference hk
      rw [hr]
      exact mentions_key hm
    · refine .of_less (fun k hk => ?_) (fun n hn => mentions_node hn) (fun a ha => mentions_event ha)
        fun w res hw => mentions_hold hw
      simp only [shiftSequences, Heap.mem_ofList, List.mem_map] at hk
      obtain ⟨key, hm, rfl⟩ := hk
      exact mentions_key (k := key) hm

theorem takeSequence_refers {S : JobId → Prop} (s : SchedulerState) : Refers S s s.takeSequence.1 := by
  unfold takeSequence
  dsimp only
  split
  · exact s.rebaseSequences_refers.trans (.of_eq rfl rfl rfl rfl)
  · exact .of_eq rfl rfl rfl rfl

theorem entered_refers {S : JobId → Prop} (s : SchedulerState) (metadata : OutboundMeta)
    (options : EnqueueOptions) (slot : Slot) : Refers S s (s.entered metadata options slot) := by
  obtain ⟨jobs, lanes, p, h⟩ := s.entered_eq metadata options slot
  rw [h]
  exact .of_eq rfl rfl rfl rfl

/-- A stored job is referred to under its id only if it has no lane and is not delayed. -/
theorem addJob_refers_prompt (s : SchedulerState) (metadata : OutboundMeta) (options : EnqueueOptions)
    (slot : Slot) : Refers (fun a => a = s.nextJobId ∧ metadata.lane = none ∧ options.notBefore = none) s
      (s.addJob metadata options slot).1 := by
  generalize hS : (fun a => a = s.nextJobId ∧ metadata.lane = none ∧ options.notBefore = none) = S
  have hput (s' : SchedulerState) (job : JobId) (key) : Refers S s' (s'.putCoalesceEntry job key) := by
    unfold putCoalesceEntry
    split <;> exact .of_eq rfl rfl rfl rfl
  have hplace : Refers S s ((s.storeJob metadata options slot).placeJob s.nextJobId metadata options slot) := by
    have hs : Refers S s (s.storeJob metadata options slot) := .of_eq rfl rfl rfl rfl
    cases hl : metadata.lane with
    | some lane =>
      have he : Refers S s (s.entered metadata options slot) := s.entered_refers metadata options slot
      have hentered : s.entered metadata options slot =
          (s.storeJob metadata options slot).enterLane lane s.nextJobId slot.laneOrder options.laneMode := by
        unfold entered
        rw [hl]
      rw [hentered] at he
      have hd (s' : SchedulerState) : Refers S s' (s'.dropHeadKey lane slot.superseded) := by
        unfold dropHeadKey
        dsimp only
        split <;> exact .of_eq rfl rfl rfl rfl
      unfold placeJob joinLane
      rw [hl]
      exact (he.trans (hd _)).trans (pushLaneHeadCandidate_refers _ lane _)
    | none =>
      unfold placeJob
      rw [hl]
      dsimp only
      split
      · rename_i hn
        refine hs.trans ((pushJobCandidate_refers _ _ _).mono fun a ha => ?_)
        rw [← hS]
        exact ⟨ha, hl, Option.isNone_iff_eq_none.1 hn⟩
      · exact hs
  exact (((hplace.trans (hput _ _ _)).trans (compactDelayedIfNeeded_refers _)).trans
    (compactCandidateHeapIfNeeded_refers _)).trans (compactBlockedIfNeeded_refers _)

theorem addJob_refers (s : SchedulerState) (metadata : OutboundMeta) (options : EnqueueOptions)
    (slot : Slot) : Refers (fun a => a = s.nextJobId ∧ metadata.lane = none) s
      (s.addJob metadata options slot).1 :=
  (s.addJob_refers_prompt metadata options slot).mono fun _ ha => ⟨ha.1, ha.2.1⟩

theorem dropLaneIfIdle_refers {S : JobId → Prop} (s : SchedulerState) (lane : OutboundLaneKey) :
    Refers S s (s.dropLaneIfIdle lane) := by
  unfold dropLaneIfIdle
  split <;> exact .of_eq rfl rfl rfl rfl

theorem start_refers {S : JobId → Prop} (s : SchedulerState) (id : JobId) (now : Nat) :
    Refers S s (s.start id now) := by
  unfold start
  split
  · exact .refl s
  · split
    · exact .refl s
    · split
      · exact .refl s
      · split
        · exact .of_eq rfl rfl rfl rfl
        · exact Refers.trans (.of_eq rfl rfl rfl rfl) (pushLaneHeadCandidate_refers _ _ now)

theorem rearmReservationOwner_refers {S : JobId → Prop} (now : Nat) (s : SchedulerState) (window : WindowRef) :
    Refers S s (rearmReservationOwner now s window) := by
  unfold rearmReservationOwner
  split
  · exact .refl s
  · rename_i owner id ho
    split
    · exact .refl s
    · split
      · have hown : s.Mentions (.job id) := by
          rw [Option.bind_eq_some_iff] at ho
          obtain ⟨res, hres, hown⟩ := ho
          exact (mentions_hold hres).2 _ hown
        intro a hm
        rcases pushJobCandidate_refers _ id now a hm with hm | rfl
        · exact Or.inl hm
        · exact Or.inl hown
      · exact .refl s
  · split
    · exact .refl s
    · split
      · exact Refers.trans (.of_eq rfl rfl rfl rfl) (pushLaneHeadCandidate_refers _ _ now)
      · exact .refl s

theorem complete_refers {S : JobId → Prop} (s : SchedulerState) (id : JobId) (completion : OutboundCompletion)
    (now observedAt : Nat) : Refers S s (s.complete id completion now observedAt) := by
  have hfree (s : SchedulerState) (lane) : Refers S s (s.freeLane lane id now) := by
    unfold freeLane
    split
    · exact .refl s
    · split
      · exact s.dropLaneIfIdle_refers lane
      · dsimp only
        split
        · exact Refers.trans (.of_eq rfl rfl rfl rfl) (dropLaneIfIdle_refers _ _)
        · exact Refers.trans (.of_eq rfl rfl rfl rfl) (pushLaneHeadCandidate_refers _ _ now)
  have hrefund (weight) : ∀ (ws : List WindowRef) (s : SchedulerState),
      Refers S s (refundWindows now weight id ws s).1 := by
    intro ws
    induction ws with
    | nil => exact fun s => .refl s
    | cons w ws ih =>
      intro s
      have hone : Refers S s (s.refundWindow now weight id w).1 := by
        unfold refundWindow
        split
        · exact .refl s
        · dsimp only
          split
          · split <;> exact .of_eq rfl rfl rfl rfl
          · cases w <;> exact .of_eq rfl rfl rfl rfl
      exact hone.trans (ih _)
  have hsettle (s : SchedulerState) (permit) : Refers S s (s.settleCompletion id permit completion now observedAt) := by
    unfold settleCompletion
    split
    · exact (hrefund _ _ s).trans (Refers.foldl (fun s w _ => rearmReservationOwner_refers now s w) _)
    · split
      · exact .refl s
      · exact .of_eq rfl rfl rfl rfl
    · exact .refl s
    · exact .refl s
    · exact .refl s
  unfold complete
  split
  · exact .refl s
  · dsimp only
    have he : Refers S s { s with inFlight := s.inFlight.erase id } := .of_eq rfl rfl rfl rfl
    split
    · exact (he.trans (hfree _ _)).trans (hsettle _ _)
    · exact he.trans (hsettle _ _)

/-- The waiting references are pushed again. -/
theorem rearmBlockedAndParked_refers {S : JobId → Prop} {s : SchedulerState} {order : List CandidateRef}
    (ho : ∀ r ∈ order, s.Mentions r) (now : Nat) : Refers S s (s.rearmBlockedAndParked order now) := by
  have hclear : Refers (fun a => .job a ∈ order) s
      { s with blocked := .empty, staleBlocked := 0, reservations := ∅ } := by
    refine .of_less (fun _ hk => mentions_key hk) (fun _ hn => absurd hn (Heap.not_mem_empty _))
      (fun _ ha => mentions_event ha) fun w res hw => ?_
    rw [AList.lookup_empty] at hw
    cases hw
  have hrearm : ∀ s : SchedulerState, Refers (fun a => .job a ∈ order) s (order.foldl (rearmReference now) s) := by
    refine Refers.foldl fun s r hr => ?_
    unfold rearmReference
    split
    · split
      · exact .refl s
      · refine Refers.trans (.of_eq rfl rfl rfl rfl) ((pushJobCandidate_refers _ _ now).mono fun a ha => ?_)
        subst ha
        exact hr
    · exact Refers.trans (.of_eq rfl rfl rfl rfl) (pushLaneHeadCandidate_refers _ _ now)
  intro id hm
  rcases (hclear.trans (hrearm _)) id hm with hm | hm
  · exact Or.inl hm
  · exact Or.inl (ho _ hm)

theorem mentions_waiting {s : SchedulerState} {r : CandidateRef} (h : r ∈ s.waitingReferences) :
    s.Mentions r := by
  rcases List.mem_append.1 h with h | h
  · obtain ⟨n, hn, rfl⟩ := List.mem_map.1 h
    exact mentions_node hn
  · obtain ⟨res, hres, hr⟩ := List.mem_flatMap.1 h
    obtain ⟨w, hw⟩ := Table.mem_values.1 hres
    exact (mentions_hold hw).1 r hr

/-- The calls that store no job make no reference to one. -/
theorem call_refers_none {S : JobId → Prop} {s s' : SchedulerState} {a : Action} {e : Event}
    (h : s.call a = some (s', e)) (hne : ∀ metadata options, a ≠ .enqueue metadata options) : Refers S s s' := by
  cases a with
  | enqueue metadata options => exact absurd rfl (hne metadata options)
  | cancel id now => cases h; exact s.cancel_refers id now
  | start id now => cases h; exact s.start_refers id now
  | complete id completion now observedAt => cases h; exact s.complete_refers id completion now observedAt
  | penalize scope deadline now => cases h; exact .of_eq rfl rfl rfl rfl
  | setLimits limits order now =>
    simp only [call] at h
    split at h
    · rename_i hp
      cases h
      unfold setLimits
      split
      · exact .refl s
      · split
        · exact .refl s
        · split
          · exact .refl s
          · refine Refers.trans (.of_eq rfl rfl rfl rfl) (rearmBlockedAndParked_refers (fun r hr => ?_) now)
            exact mentions_waiting (s := s) (hp.mem_iff.1 hr)
    · cases h
  | setClassLimits limits order now =>
    simp only [call] at h
    split at h
    · rename_i hp
      cases h
      unfold setClassLimits
      split
      · exact .refl s
      · split
        · exact .refl s
        · refine Refers.trans (.of_eq rfl rfl rfl rfl) (rearmBlockedAndParked_refers (fun r hr => ?_) now)
          exact mentions_waiting (s := s) (hp.mem_iff.1 hr)
    · cases h
  | nextDeadline now =>
    cases h
    rw [nextDeadline_fst]
    exact .of_sub (fun _ h => h) (fun _ h => Heap.mem_of_mem_dropWhile h)
      (fun _ h => Heap.mem_of_mem_dropWhile h) rfl
  | beginPass | turn | endPass => cases h

/-- The state an enqueue leaves. -/
theorem call_enqueue {s s' : SchedulerState} {metadata : OutboundMeta} {options : EnqueueOptions} {e : Event}
    (h : s.call (.enqueue metadata options) = some (s', e)) : s' = (s.enqueue metadata options).1 := by
  simp only [call] at h
  split at h
  · rename_i hq
    split at h
    · cases h
      rw [hq]
    · cases h
  · rename_i hq
    cases h
    rw [hq]

theorem call_refers {s s' : SchedulerState} {a : Action} {e : Event} (h : s.call a = some (s', e)) :
    Refers s'.Unlaned s s' := by
  by_cases hne : ∀ metadata options, a ≠ .enqueue metadata options
  · exact call_refers_none h hne
  · simp only [not_forall, not_not] at hne
    obtain ⟨metadata, options, rfl⟩ := hne
    have hadd (s₁ : SchedulerState) (slot : Slot) :
        Refers (s₁.addJob metadata options slot).1.Unlaned s₁ (s₁.addJob metadata options slot).1 := by
      refine (s₁.addJob_refers metadata options slot).mono fun a ha => ?_
      obtain ⟨rfl, hl⟩ := ha
      refine (s₁.addJob_stays metadata options slot).unlaned ?_
      have hnew := s₁.entered_jobs (·.metadata) (fun _ _ => rfl) metadata options slot s₁.nextJobId
      rw [if_pos rfl, Option.map_eq_some_iff] at hnew
      obtain ⟨job, hj, hm⟩ := hnew
      exact ⟨job, hj, by rw [hm]; exact hl⟩
    have hc := s.enqueue_cases metadata options
    rw [call_enqueue h]
    generalize s.enqueue metadata options = r at hc ⊢
    obtain ⟨s₁, r⟩ := r
    cases hc with
    | refused => exact .refl _
    | full => exact s.takeSequence_refers
    | fresh => exact s.takeSequence_refers.trans (hadd _ _)
    | replaced => exact (s.removeWaiting_refers _ _).trans (hadd _ _)

/-- The candidate in hand is referred to under its id only if it has no lane. -/
theorem turn_refers {s s' : SchedulerState} {now : Nat} {e : Event} (h : s.turn now = some (s', e)) :
    Refers s'.Unlaned s s' := by
  cases turn_cases h with
  | skipped hp => exact popTurn_refers hp
  | @granted s₁ s₂ c job hp hj ha =>
    have h₁ := popTurn_refers (S := Unlaned ((s₂.grant c.job now).rearmReservations c now)) hp
    have h₂ := admission_refers (S := Unlaned ((s₂.grant c.job now).rearmReservations c now)) s₁ c now
    rw [ha] at h₂
    exact ((h₁.trans h₂).trans (s₂.grant_refers c.job now)).trans (rearmReservations_refers _ c now)
  | @held s₁ s₂ c job verdict hp hj ha hne =>
    have h₁ := popTurn_refers (S := Unlaned (s₂.settle c now verdict)) hp
    have h₂ := admission_refers (S := Unlaned (s₂.settle c now verdict)) s₁ c now
    have hm := s₁.admission_moves c now
    rw [ha] at h₂ hm
    refine (h₁.trans h₂).trans ((s₂.settle_refers c now verdict).mono fun a hr => ?_)
    refine Stays.unlaned (.of_moves (s₂.settle_quiet c now hne).toMoves) ?_
    obtain ⟨job₂, hj₂, -⟩ := hm.job' hj
    unfold referenceOf at hr
    rw [hj₂] at hr
    cases hl : job₂.metadata.lane with
    | some lane => simp [hl] at hr
    | none =>
      simp only [Option.bind_some, hl, CandidateRef.job.injEq] at hr
      exact hr ▸ ⟨job₂, hj₂, hl⟩

end SchedulerState

open SchedulerState

/-- A step refers to no job with a lane that was not referred to. -/
theorem step_refers {x x' : Sys} {a : Action} {e : Event} (h : scheduler.step x a = some (x', e)) :
    Refers x'.sched.Unlaned x.sched x'.sched := by
  cases step_steps h with
  | call _ _ hc => exact call_refers hc
  | began _ _ hb =>
    exact (beginPass_refers hb).mono fun a ha => (beginPass_stays hb).unlaned ha
  | turn _ _ ht => exact turn_refers ht
  | ended _ _ _ => exact Refers.trans (.of_eq rfl rfl rfl rfl) (compactReservationsIfNeeded_refers _)

end Teloxide.Outbound
