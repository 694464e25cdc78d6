import Teloxide.Outbound.Scheduler.Accounts
import Teloxide.Outbound.Scheduler.Lifecycle

/-!
# Rate windows

What the rate windows promise over a run: in no interval of the length of a
window do the grants it applies to weigh more than its capacity. `charges` is
the ledger of a window, read off the events of the run.

* `step_metered`: a step keeps the window sets in tune with the ledgers, and a
  grant fits in every window it is charged to.
* `windows_hold`: the bound, for the four families of windows.
-/
namespace Teloxide.Outbound

open Teloxide.Core SchedulerState RollingWindow

/-- The grants charged to a window, oldest first: those it applies to, without
the ones that have completed with no request made. -/
def charges : List Event → WindowRef → List WindowEvent
  | [], _ => []
  | .granted g m now :: τ, window =>
    charges τ window ++
      if window ∈ windowsOf m.scope m.cls then [⟨now, m.weight.val, some g.job⟩] else []
  | .completed job .noRequest _ :: τ, window =>
    if phase τ job = .inFlight then strike job (charges τ window) else charges τ window
  | _ :: τ, window => charges τ window

/-- The weight of the charges made in the `length` instants up to `t`. -/
def windowLoad (τ : List Event) (window : WindowRef) (length t : Nat) : Nat :=
  load (·.instant) (fun e => e.instant + length) (·.weight) (charges τ window) t

/-- The jobs charged are among the granted ones, in the same order. -/
theorem charges_sublist (τ : List Event) (window : WindowRef) :
    ((charges τ window).map (·.job)).Sublist ((grants τ).map fun g => some g.job).reverse := by
  induction τ with
  | nil => exact .slnil
  | cons e τ ih =>
    cases e with
    | granted g m now =>
      simp only [charges, grants, List.map_append, List.map_cons, List.reverse_cons]
      refine ih.append ?_
      split
      · exact .refl _
      · exact List.nil_sublist _
    | completed job completion now =>
      cases completion with
      | noRequest =>
        simp only [charges, grants]
        split
        · exact (List.filter_sublist.map _).trans ih
        · exact ih
      | _ => exact ih
    | _ => exact ih

/-- A run charges a job at most once to a window. -/
theorem charges_nodup {τ : List Event} {s : SchedulerState} (h : Life τ s) (window : WindowRef) :
    ((charges τ window).map (·.job)).Nodup := by
  refine List.Nodup.sublist (charges_sublist τ window) (List.nodup_reverse.2 ?_)
  have hn := h.once.1.map (Option.some_injective JobId)
  rwa [List.map_map] at hn

/-- A charged job has been granted. -/
theorem charges_phase {τ : List Event} {s : SchedulerState} (h : Life τ s) {window : WindowRef}
    {e : WindowEvent} (he : e ∈ charges τ window) :
    ∃ id, e.job = some id ∧ (phase τ id = .inFlight ∨ phase τ id = .completed) := by
  have hm := (charges_sublist τ window).mem (List.mem_map_of_mem (f := (·.job)) he)
  rw [List.mem_reverse, List.mem_map] at hm
  obtain ⟨g, hg, hj⟩ := hm
  exact ⟨g.job, hj.symm, h.once.2 g hg⟩

theorem charges_idle {e : Event} (h : e.isIdle = true) (τ : List Event) : charges (e :: τ) = charges τ := by
  cases e <;> first | rfl | cases h

/-! ## Calls that change the windows -/

namespace SchedulerState

variable {s : SchedulerState} {ledger : WindowRef → List WindowEvent} {now : Nat}

/-- A grant charges the windows of the request. -/
theorem grant_tracked (h : s.Tracked ledger now) {id : JobId} {job : Job}
    (hj : s.jobs.lookup id = some job) :
    (s.grant id now).Tracked (fun w => ledger w ++
      if w ∈ windowsOf job.metadata.scope job.metadata.cls then [⟨now, job.metadata.weight.val, some id⟩]
      else []) now ∧ (s.grant id now).configured = s.configured := by
  unfold grant
  rw [hj]
  dsimp only
  obtain ⟨coalesce, h₁, -⟩ := s.eraseJob_eq id job
  obtain ⟨lanes, p, h₂⟩ := takePermit_eq (s.eraseJob id job) id job
  have hr : ((s.eraseJob id job).takePermit id job).rates = s.rates := by rw [h₂, h₁]; rfl
  have h₃ := debit_tracked (h.of_rates hr) id job
  have hq := (rearmBoundedLane_quiet
    ((((s.eraseJob id job).takePermit id job).debit id job now).putInFlight id job) job now).rates
  refine ⟨(h₃.of_rates rfl).of_rates hq, ?_⟩
  rw [configured_of_rates hq]
  exact (debit_configured _ id job now).trans (configured_of_rates hr)

theorem settleCompletion_tracked (h : s.Tracked ledger now) (id : JobId) (permit : InFlight)
    (completion : OutboundCompletion) (observedAt : Nat) (hd : ∀ w, Debited id permit.weight (ledger w)) :
    (s.settleCompletion id permit completion now observedAt).configured = s.configured ∧
      (s.settleCompletion id permit completion now observedAt).Tracked (fun w =>
        if completion = .noRequest ∧ w ∈ windowsOf permit.scope permit.cls then strike id (ledger w)
        else ledger w) now := by
  unfold settleCompletion
  cases completion with
  | noRequest =>
    dsimp only
    have hr := @refundWindows_tracked now permit.weight id (windowsOf permit.scope permit.cls) _ _ h hd
    have hcfg := refundWindows_configured now permit.weight id (windowsOf permit.scope permit.cls) s
    generalize refundWindows now permit.weight id (windowsOf permit.scope permit.cls) s = r at hr hcfg ⊢
    have hq := (Quiet.foldl (fun s w => rearmReservationOwner_quiet now s w) r.2 r.1).rates
    refine ⟨(configured_of_rates hq).trans hcfg, ?_⟩
    simpa using hr.of_rates hq
  | retryAfter scope duration =>
    dsimp only
    split
    · exact ⟨rfl, by simpa using h⟩
    · have hp : (s.penalize scope (observedAt + duration)).Tracked ledger now := h.of_rates rfl
      exact ⟨rfl, by simpa using hp⟩
  | success | failed | cancelledAfterGrant => exact ⟨rfl, by simpa using h⟩

/-- A completion with no request made strikes the job out of its windows. -/
theorem complete_tracked (h : s.Tracked ledger now) {id : JobId} {permit : InFlight}
    (hp : s.inFlight.lookup id = some permit) (completion : OutboundCompletion) (observedAt : Nat)
    (hd : ∀ w, Debited id permit.weight (ledger w)) :
    (s.complete id completion now observedAt).configured = s.configured ∧
      (s.complete id completion now observedAt).Tracked (fun w =>
        if completion = .noRequest ∧ w ∈ windowsOf permit.scope permit.cls then strike id (ledger w)
        else ledger w) now := by
  obtain ⟨s₁, s₂, hf, hq, hc⟩ := complete_settles hp completion now observedAt
  have hr : s₂.rates = s.rates := by
    rw [hq.rates]
    cases hf <;> rfl
  have h₂ := settleCompletion_tracked (h.of_rates hr) id permit completion observedAt hd
  rw [hc, ← configured_of_rates hr]
  exact h₂

/-- A pass drops the idle sets of chats only. -/
theorem endPass_tracked (h : s.Tracked ledger now) :
    (s.endPass now).Tracked ledger now ∧ (s.endPass now).configured = s.configured := by
  have hcfg : (s.endPass now).configured = s.configured := by
    funext w
    cases w <;> rfl
  refine ⟨fun w => ?_, hcfg⟩
  have hw := h w
  rw [hcfg]
  cases w with
  | chat key =>
    simp only [endPass, compactReservationsIfNeeded, pruneIdleChatWindows, pruneExpiredPenalties, ensuredSet,
      Table.lookup_filterMap]
    cases hl : s.chatWindowSets.lookup key with
    | none =>
      simp only [ensuredSet, hl] at hw
      exact hw
    | some set =>
      simp only [ensuredSet, hl, Option.getD_some] at hw
      have hset : set.Tracks (s.configured (.chat key)) (ledger (.chat key)) now := hw
      simp only [Option.bind_some, keepIfBusy]
      by_cases hi : (set.isIdle now).2 = true
      · rw [if_pos hi]
        simp only [Option.getD_none, WindowSet.new]
        exact setTracks_built rfl (hset.isIdle_true hi)
      · rw [if_neg hi]
        exact hset.isIdle
  | _ => exact hw

end SchedulerState

/-! ## The start -/

theorem lookup_classWindowSets (limits : List OutboundClassWindowLimit) (cls : OutboundClass) :
    (classWindowSets limits).lookup cls =
      if limits.any (·.cls == cls) then some (.newClass limits cls) else none := by
  have hfold : ∀ (l : List OutboundClassWindowLimit) (t : Table OutboundClass WindowSet),
      (l.foldl (fun sets limit => sets.insert limit.cls (.newClass limits limit.cls)) t).lookup cls =
        if l.any (·.cls == cls) then some (.newClass limits cls) else t.lookup cls := by
    intro l
    induction l with
    | nil => simp
    | cons limit l ih =>
      intro t
      rw [List.foldl_cons, ih]
      by_cases hc : limit.cls = cls
      · subst hc
        simp
      · simp [hc, Ne.symm hc]
  unfold classWindowSets
  rw [hfold, AList.lookup_empty]

theorem filter_class_nil {limits : List OutboundClassWindowLimit} {cls : OutboundClass}
    (hany : ¬ limits.any (·.cls == cls) = true) : limits.filter (·.cls == cls) = [] := by
  rw [List.filter_eq_nil_iff]
  intro limit hl hc
  exact hany (List.any_eq_true.2 ⟨limit, hl, hc⟩)

/-- The sets of a class that are there from the start, or built on demand. -/
theorem setTracks_class (limits : List OutboundClassWindowLimit) (cls : OutboundClass) (now : Nat) :
    SetTracks (if limits.any (·.cls == cls) then some (.newClass limits cls) else none)
      ((limits.filter (·.cls == cls)).map fun limit => (limit.capacity, limit.window)) [] now := by
  by_cases hany : limits.any (·.cls == cls) = true
  · rw [if_pos hany]
    exact setTracks_newClass _ _ fun _ _ => rfl
  · rw [if_neg hany]
    simp [SetTracks, filter_class_nil hany]

theorem newWithClassLimits_global {limits : OutboundLimits} {classLimits : OutboundClassLimits}
    {aging : AgingPolicy} {s : SchedulerState}
    (h : SchedulerState.newWithClassLimits limits classLimits aging = .ok s) :
    ∀ limit ∈ limits.global, limit.kind = .any := by
  unfold SchedulerState.newWithClassLimits at h
  split at h
  · cases h
  · split at h
    · cases h
    · rename_i hk
      simpa using hk

theorem tracked_init {x : Sys} (h : scheduler.init x) (now : Nat) : x.sched.Tracked (fun _ => []) now := by
  obtain ⟨-, limits, classLimits, aging, hs⟩ := h
  have hkind := newWithClassLimits_global hs
  rw [newWithClassLimits_ok hs]
  intro w
  cases w with
  | global =>
    have hall : (limits.global.filter fun limit => limit.kind == .any || limit.kind == .any) = limits.global := by
      refine List.filter_eq_self.2 fun limit hl => ?_
      simp [hkind limit hl]
    simp only [initial, ensuredSet, WindowSet.new, hall]
    exact setTracks_built rfl fun _ _ => rfl
  | classGlobal cls =>
    have hset : (SchedulerState.initial limits classLimits aging).ensuredSet (.classGlobal cls) =
        if classLimits.global.any (·.cls == cls) then some (.newClass classLimits.global cls) else none :=
      lookup_classWindowSets _ _
    rw [hset]
    exact setTracks_class _ _ _
  | chat key => exact setTracks_built rfl fun _ _ => rfl
  | classChat key cls =>
    have hset : (SchedulerState.initial limits classLimits aging).ensuredSet (.classChat key cls) =
        if classLimits.chat.any (·.cls == cls) then some (.newClass classLimits.chat cls) else none := rfl
    rw [hset]
    exact setTracks_class _ _ _

/-! ## Runs -/

/-- The action sets no new limits. -/
def Action.keepsLimits : Action → Bool
  | .setLimits .. | .setClassLimits .. => false
  | _ => true

/-- The limits stay as they were configured. -/
def limitsFixed (_ : Sys) (a : Action) : Prop := a.keepsLimits = true

instance (x : Sys) (a : Action) : Decidable (limitsFixed x a) := inferInstanceAs (Decidable (_ = _))

/-- A candidate stands for the job it was popped for. -/
theorem SchedulerState.Popped.stands {s s₁ : SchedulerState} {now : Nat} {c : Candidate} {job : Job} (h : Popped s now s₁ c)
    (hj : s₁.jobs.lookup c.job = some job) : c.weight = job.metadata.weight ∧
      s₁.applicableWindows c = windowsOf job.metadata.scope job.metadata.cls := by
  unfold applicableWindows
  rw [hj]
  cases h with
  | job _ _ hlk =>
    simp only [Table.lookup_insert_if, if_true, Option.some.injEq] at hj
    subst hj
    exact ⟨rfl, rfl⟩
  | lane _ _ _ _ _ _ hlk =>
    have hj' : some _ = some job := hlk.symm.trans hj
    cases hj'
    exact ⟨rfl, rfl⟩

/-- The window sets keep what still counts of the ledgers `L`, in which a job in flight
is debited as its permit says. -/
structure Kept (L : WindowRef → List WindowEvent) (τ : List Event) (x : Sys) : Prop where
  tracked : x.sched.Tracked L x.clock
  past : ∀ w, ∀ e ∈ L w, e.instant ≤ x.clock
  permits : ∀ id permit, x.sched.inFlight.lookup id = some permit →
    ∀ w, ∀ e ∈ L w, e.job = some id → e.weight = permit.weight ∧ w ∈ windowsOf permit.scope permit.cls
  charged : ∀ w, (L w).Sublist (charges τ w)

/-- What the window sets and the charges have to do with each other. -/
structure Metered (τ : List Event) (x : Sys) : Prop where
  tracked : x.sched.Tracked (charges τ) x.clock
  past : ∀ w, ∀ e ∈ charges τ w, e.instant ≤ x.clock
  permits : ∀ id permit, x.sched.inFlight.lookup id = some permit →
    ∀ w, ∀ e ∈ charges τ w, e.job = some id → e.weight = permit.weight ∧ w ∈ windowsOf permit.scope permit.cls
  bound : ∀ w, ∀ size ∈ x.sched.configured w, ∀ t, windowLoad τ w size.2 t ≤ size.1

/-- Only a grant hands out a permit. -/
theorem Change.permits {s s' : SchedulerState} {e : Event} (h : Change s s' e) (hg : grants [e] = []) :
    ∀ id permit, s'.inFlight.lookup id = some permit → s.inFlight.lookup id = some permit := by
  intro id permit hp
  cases h with
  | stays hs | cancelledLate _ hs => rwa [hs.inFlight] at hp
  | entered h₁ _ _ _ h₂ | replaced _ h₁ _ _ _ h₂ =>
    rwa [h₂.inFlight, entered_inFlight, h₁.inFlight] at hp
  | cancelled _ hr => rwa [hr.inFlight] at hp
  | started hs =>
    cases hs with
    | nothing => exact hp
    | freed _ _ _ _ _ hq => rwa [hq.inFlight] at hp
  | @completed _ a _ _ hc =>
    cases hc with
    | nothing => exact hp
    | done _ hf hm =>
      have he : s'.inFlight = s.inFlight.erase a := by
        rw [hm.inFlight]
        cases hf <;> rfl
      rw [he, Table.lookup_erase_if] at hp
      split at hp
      · cases hp
      · exact hp
  | granted => cases hg

/-- What the windows count is what their load weighs. -/
theorem load_eq_totalWeight {l : List WindowEvent} {now : Nat} (hp : ∀ e ∈ l, e.instant ≤ now)
    (length : Nat) : load (·.instant) (fun e => e.instant + length) (·.weight) l now =
      totalWeight (l.filter (fresh length now)) := by
  have hf : (l.filter fun e => decide (e.instant ≤ now) && decide (now < e.instant + length)) =
      l.filter (fresh length now) := by
    refine List.filter_congr fun e he => ?_
    have := hp e he
    rw [Bool.eq_iff_iff, fresh_iff]
    simp [this]
  unfold load totalWeight
  rw [hf]

namespace Kept

variable {L : WindowRef → List WindowEvent} {τ : List Event} {x x' : Sys} {e : Event}

/-- A step that debits nothing and strikes nothing. -/
theorem of_same (h : Kept L τ x) (hc : charges (e :: τ) = charges τ) (ht : x'.sched.Tracked L x'.clock)
    (hle : x.clock ≤ x'.clock)
    (hp : ∀ id permit, x'.sched.inFlight.lookup id = some permit → x.sched.inFlight.lookup id = some permit) :
    Kept L (e :: τ) x' where
  tracked := ht
  past w d hd := Nat.le_trans (h.past w d hd) hle
  permits id permit hl := h.permits id permit (hp id permit hl)
  charged w := by
    rw [hc]
    exact h.charged w

/-- A step that does not touch the windows. -/
theorem of_rates (h : Kept L τ x) (hc : charges (e :: τ) = charges τ) (hr : x'.sched.rates = x.sched.rates)
    (hle : x.clock ≤ x'.clock)
    (hp : ∀ id permit, x'.sched.inFlight.lookup id = some permit → x.sched.inFlight.lookup id = some permit) :
    Kept L (e :: τ) x' :=
  h.of_same hc ((h.tracked.of_rates hr).later hle) hle hp

theorem nodup (h : Kept L τ x) (hl : Life τ x.sched) (w : WindowRef) : ((L w).map (·.job)).Nodup :=
  (charges_nodup hl w).sublist ((h.charged w).map _)

/-- The debits of a job in flight, as its permit has them. -/
theorem debited (h : Kept L τ x) (hl : Life τ x.sched) {id : JobId} {permit : InFlight}
    (hp : x.sched.inFlight.lookup id = some permit) (w : WindowRef) : Debited id permit.weight (L w) :=
  ⟨h.nodup hl w, fun e he hj => (h.permits id permit hp w e he hj).1⟩

/-- A window that a job in flight is not charged to has nothing to strike. -/
theorem strike_eq (h : Kept L τ x) {id : JobId} {permit : InFlight} (hp : x.sched.inFlight.lookup id = some permit)
    {w : WindowRef} (hw : w ∉ windowsOf permit.scope permit.cls) : strike id (L w) = L w := by
  refine List.filter_eq_self.2 fun e he => ?_
  have hne : e.job ≠ some id := fun hj => hw (h.permits id permit hp w e he hj).2
  simpa using hne

/-- A completion strikes the job out where no request was made. -/
theorem completed (h : Kept L τ x) (hl : Life τ x.sched) {id : JobId} {completion : OutboundCompletion}
    {now observedAt : Nat} (hle : x.clock ≤ now)
    (hp : ∀ a permit, (x.sched.complete id completion now observedAt).inFlight.lookup a = some permit →
      x.sched.inFlight.lookup a = some permit) :
    Kept (fun w => if completion = .noRequest ∧ phase τ id = .inFlight then strike id (L w) else L w)
        (.completed id completion now :: τ) ⟨x.sched.complete id completion now observedAt, now, none⟩ ∧
      (x.sched.complete id completion now observedAt).configured = x.sched.configured := by
  have ht := h.tracked.later hle
  cases hi : x.sched.inFlight.lookup id with
  | none =>
    have hout : phase τ id ≠ .inFlight := by
      rw [ne_eq, ← hl.inFlight]
      simp [Table.contains, hi]
    have hc : charges (.completed id completion now :: τ) = charges τ := by
      funext w
      cases completion <;> simp [charges, hout]
    have hs : x.sched.complete id completion now observedAt = x.sched := by
      unfold complete
      rw [hi]
    simp only [hout, and_false, if_false]
    rw [hs]
    exact ⟨h.of_same hc ht hle fun _ _ h => h, rfl⟩
  | some permit =>
    have hin : phase τ id = .inFlight := (hl.inFlight id).1 ((Table.contains_iff _ _).2 ⟨permit, hi⟩)
    obtain ⟨hcfg, htracked⟩ := complete_tracked ht hi completion observedAt (h.debited hl hi)
    have hledger : (fun w => if completion = .noRequest ∧ w ∈ windowsOf permit.scope permit.cls then strike id (L w)
        else L w) = fun w => if completion = .noRequest ∧ phase τ id = .inFlight then strike id (L w) else L w := by
      funext w
      by_cases hw : w ∈ windowsOf permit.scope permit.cls
      · simp [hin, hw]
      · simp [hw, h.strike_eq hi hw]
    rw [hledger] at htracked
    have hsub : ∀ w, (if completion = .noRequest ∧ phase τ id = .inFlight then strike id (L w) else L w).Sublist
        (L w) := by
      intro w
      split
      · exact List.filter_sublist
      · exact .refl _
    refine ⟨⟨htracked, fun w e he => ?_, fun a permit' ha w e he => ?_, fun w => ?_⟩, hcfg⟩
    · exact Nat.le_trans (h.past w e ((hsub w).mem he)) hle
    · exact h.permits a permit' (hp a permit' ha) w e ((hsub w).mem he)
    · by_cases hn : completion = .noRequest
      · subst hn
        simp only [charges, hin, and_self, if_true]
        exact (h.charged w).filter _
      · rw [if_neg fun hc => hn hc.1]
        cases completion <;> first | exact absurd rfl hn | exact h.charged w

/-- A grant is debited where it fits. -/
theorem granted (h : Kept L τ x) (hl : Life τ x.sched) {now : Nat} (hle : x.clock ≤ now)
    {s₁ s₂ : SchedulerState} {c : Candidate} {job : Job} (hp : x.sched.popTurn now = some (.popped s₁ c))
    (hj : s₁.jobs.lookup c.job = some job) (ha : s₁.admission c now = (s₂, .pass)) (pass : Option Nat) :
    Kept (fun w => L w ++ if w ∈ windowsOf job.metadata.scope job.metadata.cls then
        [⟨now, job.metadata.weight.val, some c.job⟩] else [])
        (.granted ⟨c.job, job.correlationId⟩ job.metadata now :: τ)
        ⟨(s₂.grant c.job now).rearmReservations c now, now, pass⟩ ∧
      ((s₂.grant c.job now).rearmReservations c now).configured = x.sched.configured ∧
      ∀ w ∈ windowsOf job.metadata.scope job.metadata.cls, ∀ size ∈ x.sched.configured w,
        Fits job.metadata.weight.val (L w) now size := by
  have hpop := popTurn_popped hp
  have h₁ : s₁.Tracked L now := (h.tracked.later hle).of_rates hpop.quiet.rates
  obtain ⟨h₂, hcfg₂, hfits⟩ := admission_tracked h₁ c
  have hm := s₁.admission_moves c now
  rw [ha] at h₂ hcfg₂ hfits hm
  dsimp only at h₂ hcfg₂ hfits hm
  obtain ⟨job₂, hj₂, hcore⟩ := hm.job' hj
  have hmeta : job₂.metadata = job.metadata := congrArg (·.1) (Job.slot_of_core hcore)
  obtain ⟨h₃, hcfg₃⟩ := grant_tracked h₂ hj₂
  have hgr := grant_grants hj₂ now
  have hq := rearmReservations_quiet (s₂.grant c.job now) c now
  have hcand := hpop.stands hj
  have hcfg : ((s₂.grant c.job now).rearmReservations c now).configured = x.sched.configured := by
    rw [configured_of_rates hq.rates, hcfg₃, hcfg₂, configured_of_rates hpop.quiet.rates]
  have hpend : phase τ c.job = .pending := by
    rw [← hl.pending, ← hpop.quiet.live_eq]
    exact live_of hj
  refine ⟨⟨?_, fun w e he => ?_, fun id permit hi w e he hid => ?_, fun w => (h.charged w).append (.refl _)⟩, hcfg,
    fun w hw size hs => ?_⟩
  · have h₄ := h₃.of_rates hq.rates
    rw [hmeta] at h₄
    exact h₄
  · rcases List.mem_append.1 he with he | he
    · exact Nat.le_trans (h.past w e he) hle
    · split at he
      · rw [List.mem_singleton.1 he]
      · cases he
  · rw [hq.inFlight, hgr.inFlight, Table.lookup_insert_if, hm.inFlight, hpop.quiet.inFlight] at hi
    rcases List.mem_append.1 he with he | he
    · -- an older debit belongs to a job that was granted before
      obtain ⟨id', hid', hph⟩ := charges_phase hl ((h.charged w).mem he)
      rw [hid'] at hid
      cases hid
      split at hi
      · rename_i heq
        subst heq
        rw [hpend] at hph
        rcases hph with hph | hph <;> cases hph
      · exact h.permits _ permit hi w e he hid'
    · split at he
      · rename_i hw
        rw [List.mem_singleton.1 he] at hid ⊢
        cases hid
        rw [if_pos rfl] at hi
        cases hi
        rw [permitOf, hmeta]
        exact ⟨rfl, hw⟩
      · cases he
  · have hfit := hfits rfl w (hcand.2 ▸ hw) size (by rw [configured_of_rates hpop.quiet.rates]; exact hs)
    rw [hcand.1] at hfit
    exact hfit

end Kept

namespace Metered

variable {τ : List Event} {x x' : Sys} {e : Event}

theorem kept (h : Metered τ x) : Kept (charges τ) τ x := ⟨h.tracked, h.past, h.permits, fun _ => .refl _⟩

theorem of_kept {τ : List Event} {x : Sys} (h : Kept (charges τ) τ x)
    (hb : ∀ w, ∀ size ∈ x.sched.configured w, ∀ t, windowLoad τ w size.2 t ≤ size.1) : Metered τ x :=
  ⟨h.tracked, h.past, h.permits, hb⟩

/-- A step that charges nothing and strikes nothing. -/
theorem of_same (h : Metered τ x) (hc : charges (e :: τ) = charges τ)
    (hcfg : x'.sched.configured = x.sched.configured) (ht : x'.sched.Tracked (charges τ) x'.clock)
    (hle : x.clock ≤ x'.clock)
    (hp : ∀ id permit, x'.sched.inFlight.lookup id = some permit → x.sched.inFlight.lookup id = some permit) :
    Metered (e :: τ) x' := by
  have hk := h.kept.of_same hc ht hle hp
  rw [← hc] at hk
  refine .of_kept hk fun w size hs t => ?_
  unfold windowLoad
  rw [hc]
  rw [hcfg] at hs
  exact h.bound w size hs t

/-- A step that does not touch the windows. -/
theorem of_rates (h : Metered τ x) (hc : charges (e :: τ) = charges τ) (hr : x'.sched.rates = x.sched.rates)
    (hle : x.clock ≤ x'.clock)
    (hp : ∀ id permit, x'.sched.inFlight.lookup id = some permit → x.sched.inFlight.lookup id = some permit) :
    Metered (e :: τ) x' :=
  h.of_same hc (configured_of_rates hr) ((h.tracked.of_rates hr).later hle) hle hp

/-- A completion strikes the job out where no request was made. -/
theorem of_completed (h : Metered τ x) (hl : Life τ x.sched) {id : JobId} {completion : OutboundCompletion}
    {now observedAt : Nat} (hle : x.clock ≤ now)
    (hp : ∀ a permit, (x.sched.complete id completion now observedAt).inFlight.lookup a = some permit →
      x.sched.inFlight.lookup a = some permit) :
    Metered (.completed id completion now :: τ) ⟨x.sched.complete id completion now observedAt, now, none⟩ := by
  obtain ⟨hk, hcfg⟩ := h.kept.completed hl hle hp
  have hc : (fun w => if completion = .noRequest ∧ phase τ id = .inFlight then strike id (charges τ w)
      else charges τ w) = charges (.completed id completion now :: τ) := by
    funext w
    cases completion <;> simp [charges]
  rw [hc] at hk
  have hsub : ∀ w, (charges (.completed id completion now :: τ) w).Sublist (charges τ w) := by
    intro w
    rw [← hc]
    dsimp only
    split
    · exact List.filter_sublist
    · exact .refl _
  refine .of_kept hk fun w size hs t => ?_
  rw [hcfg] at hs
  exact Nat.le_trans (load_sublist_le (hsub w) t) (h.bound w size hs t)

/-- A grant is charged where it fits. -/
theorem of_granted (h : Metered τ x) (hl : Life τ x.sched) {now : Nat} (hle : x.clock ≤ now)
    {s₁ s₂ : SchedulerState} {c : Candidate} {job : Job} (hp : x.sched.popTurn now = some (.popped s₁ c))
    (hj : s₁.jobs.lookup c.job = some job) (ha : s₁.admission c now = (s₂, .pass)) (pass : Option Nat) :
    Metered (.granted ⟨c.job, job.correlationId⟩ job.metadata now :: τ)
      ⟨(s₂.grant c.job now).rearmReservations c now, now, pass⟩ := by
  obtain ⟨hk, hcfg, hfits⟩ := h.kept.granted hl hle hp hj ha pass
  refine .of_kept hk fun w size hs t => ?_
  have hs : size ∈ x.sched.configured w := hcfg ▸ hs
  unfold windowLoad
  simp only [charges]
  split
  · rename_i hw
    refine load_append_le (fun e he => Nat.le_trans (h.past w e he) hle) (h.bound w size hs) ?_ t
    rw [load_eq_totalWeight fun e he => Nat.le_trans (h.past w e he) hle]
    exact hfits w hw size hs
  · rw [List.append_nil]
    exact h.bound w size hs t

theorem init (h : scheduler.init x) : Metered [] x where
  tracked := tracked_init h x.clock
  past w e he := by cases he
  permits id permit hp w e he := by cases he
  bound w size hs t := by simp [windowLoad, charges]

/-- A call outside the passes. -/
theorem of_call (h : Metered τ x) (hl : Life τ x.sched) {a : Action} {s' : SchedulerState}
    (hok : a.keepsLimits = true) (hle : x.clock ≤ a.now) (hc : x.sched.call a = some (s', e)) :
    Metered (e :: τ) ⟨s', a.now, none⟩ := by
  have hch := call_change hc
  cases a with
  | enqueue metadata options =>
    have hr : _ = x.sched.rates := congrArg (·.1) (x.sched.enqueue_accounts metadata options)
    simp only [call] at hc
    split at hc
    · rename_i hq
      rw [hq] at hr
      split at hc
      · cases hc
        exact h.of_rates rfl hr hle (hch.permits rfl)
      · cases hc
    · rename_i hq
      rw [hq] at hr
      cases hc
      exact h.of_rates rfl hr hle (hch.permits rfl)
  | cancel job now =>
    cases hc
    exact h.of_rates rfl (congrArg (·.1) (x.sched.cancel_accounts job now)) hle (hch.permits rfl)
  | start job now =>
    cases hc
    exact h.of_rates rfl (congrArg (·.1) (x.sched.start_accounts job now)) hle (hch.permits rfl)
  | complete job completion now observedAt =>
    cases hc
    exact h.of_completed hl hle (hch.permits rfl)
  | penalize scope deadline now =>
    cases hc
    exact h.of_rates rfl rfl hle (hch.permits rfl)
  | setLimits | setClassLimits => cases hok
  | nextDeadline now =>
    cases hc
    exact h.of_rates rfl (x.sched.nextDeadline_quiet now).rates hle (hch.permits rfl)
  | beginPass | turn | endPass => cases hc

end Metered

/-- A step with the limits fixed keeps the windows in tune. -/
theorem step_metered {τ : List Event} {x x' : Sys} {a : Action} {e : Event} (h : Metered τ x)
    (hl : Life τ x.sched) (hok : limitsFixed x a) (hs : scheduler.step x a = some (x', e)) :
    Metered (e :: τ) x' := by
  have hch := step_change hs
  cases step_steps hs with
  | call _ hle hc => exact h.of_call hl hok hle hc
  | began _ hle hb => exact h.of_rates rfl (congrArg (·.1) (beginPass_accounts hb)) hle (hch.permits rfl)
  | @turn now _ _ _ hle ht =>
    cases turn_cases ht with
    | skipped hp => exact h.of_rates rfl (popTurn_quiet hp).rates hle (hch.permits rfl)
    | granted hp hj ha => exact h.of_granted hl hle hp hj ha _
    | @held s₁ s₂ c job verdict hp hj ha hne =>
      have hr := (popTurn_popped hp).quiet.rates
      have ht₁ := ((h.tracked.later hle).of_rates hr : s₁.Tracked _ _)
      obtain ⟨ht₂, hcfg, -⟩ := admission_tracked ht₁ c
      rw [ha] at ht₂ hcfg
      have hq := (s₂.settle_quiet c now hne).rates
      refine h.of_same rfl ?_ (ht₂.of_rates hq) hle (hch.permits rfl)
      exact (configured_of_rates hq).trans (hcfg.trans (configured_of_rates hr))
  | ended _ hle _ =>
    obtain ⟨ht, hcfg⟩ := endPass_tracked (h.tracked.later hle)
    exact h.of_same rfl hcfg ht hle (hch.permits rfl)

theorem metered_run {τ : List Event} {x : Sys} (hr : Run limitsFixed τ x) : Metered τ x :=
  Machine.Run.induct (I := Metered) (fun _ => Metered.init)
    (fun _ _ _ _ _ hr h hok hs => step_metered h (life_run hr) hok hs) hr

/-- In no interval of the length of a window do the grants it applies to weigh
more than its capacity, the ones with no request made left out. -/
theorem windows_hold {τ : List Event} {x : Sys} (hr : Run limitsFixed τ x) {window : WindowRef}
    {capacity length : Nat} (hw : (capacity, length) ∈ x.sched.configured window) (t : Nat) :
    windowLoad τ window length t ≤ capacity :=
  (metered_run hr).bound window (capacity, length) hw t

/-- Two requests pass a window of two in ten, and one of them is given back. -/
def meteredRun : List Action :=
  [.enqueue (.plain 10 none) (.plain 0), .enqueue (.plain 10 none) (.plain 0)] ++ Action.pass 0 [] 2 ++
    [.complete 0 .noRequest 1 1, .enqueue (.plain 10 none) (.plain 3)] ++ Action.pass 3 [] 1

theorem windows_hold_meteredRun : ∃ τ x, Run limitsFixed τ x ∧
    (grants τ).map (·.job) = [2, 1, 0] ∧ windowLoad τ .global 10 3 = 2 ∧
    ∀ t, windowLoad τ .global 10 t ≤ 2 := by
  have hg : (scheduler.exec limitsFixed [] (.fresh [(2, 10)]) meteredRun).map
      (fun r => ((grants r.1).map (·.job), windowLoad r.1 .global 10 3, r.2.sched.globalLimits)) =
        some ([2, 1, 0], 2, [⟨2, 10, .any⟩]) := by decide
  rw [Option.map_eq_some_iff] at hg
  obtain ⟨⟨τ, x⟩, he, hg⟩ := hg
  simp only [Prod.mk.injEq] at hg
  have hr := run_of_actions (Sys.fresh_init rfl) he
  refine ⟨τ, x, hr, hg.1, hg.2.1, windows_hold hr ?_⟩
  simp [configured, hg.2.2]

end Teloxide.Outbound
