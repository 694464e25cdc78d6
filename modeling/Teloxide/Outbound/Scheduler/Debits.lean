import Teloxide.Outbound.Scheduler.CarryOver

/-!
# Debits over a run

The rate windows over whole runs, updates of the limits included. `debits` is the
ledger of a window, read off a recorded run: the grants charged to it, without the
refunded ones and without those that an update of the limits found expired under
every window of the set.

* `step_carried`: every step keeps the window sets in tune with the debits.
* `complete_strikes`: a completion with no request made strikes the job out of its
  windows, and touches nothing else.
-/
namespace Teloxide.Outbound

open Teloxide.Core SchedulerState RollingWindow

/-- A step of a recorded run: the system before it, the call, what it has shown. -/
abbrev Record := Sys × Action × Event

/-- The events of a recorded run. -/
def events (h : List Record) : List Event := h.map (·.2.2)

/-- The debits of a window, oldest first. -/
def debits : List Record → WindowRef → List WindowEvent
  | [], _ => []
  | (x, a, e) :: h, window =>
    match a, e with
    | _, .granted g m now =>
      debits h window ++ if window ∈ windowsOf m.scope m.cls then [⟨now, m.weight.val, some g.job⟩] else []
    | _, .completed job .noRequest _ =>
      if phase (events h) job = .inFlight then strike job (debits h window) else debits h window
    | .setLimits .., .limited (.ok ()) now => x.sched.renewed (!·.ofClass) (debits h) now window
    | .setClassLimits .., .limited (.ok ()) now => x.sched.renewed (·.ofClass) (debits h) now window
    | _, _ => debits h window

/-- The window sets keep what still counts of the debits of the run. -/
structure Carried (h : List Record) (x : Sys) : Prop where
  kept : Kept (debits h) (events h) x
  sorted : ∀ w, (debits h w).Pairwise (·.instant ≤ ·.instant)
  stored : x.sched.Stored

namespace Carried

variable {h : List Record} {x x' : Sys} {a : Action} {e : Event}

theorem init (hi : scheduler.init x) : Carried [] x where
  kept := by
    refine ⟨tracked_init hi x.clock, fun w e he => ?_, fun _ _ _ w e he => ?_, fun _ => .refl _⟩ <;> cases he
  sorted _ := .nil
  stored key cls set hs := by
    obtain ⟨-, limits, classLimits, aging, hok⟩ := hi
    rw [newWithClassLimits_ok hok] at hs
    cases hs

/-- A step that debits nothing and strikes nothing. -/
theorem of_rates (hc : Carried h x) (hd : debits ((x, a, e) :: h) = debits h)
    (he : charges (e :: events h) = charges (events h)) (hr : x'.sched.rates = x.sched.rates) (hle : x.clock ≤ x'.clock)
    (hp : ∀ id permit, x'.sched.inFlight.lookup id = some permit → x.sched.inFlight.lookup id = some permit) :
    Carried ((x, a, e) :: h) x' where
  kept := by
    rw [hd]
    exact hc.kept.of_rates he hr hle hp
  sorted := by
    rw [hd]
    exact hc.sorted
  stored := hc.stored.of_rates hr

/-- A step that leaves the ledgers as they are. -/
theorem of_same (hc : Carried h x) (hd : debits ((x, a, e) :: h) = debits h)
    (he : charges (e :: events h) = charges (events h)) (ht : x'.sched.Tracked (debits h) x'.clock)
    (hst : x'.sched.Stored) (hle : x.clock ≤ x'.clock)
    (hp : ∀ id permit, x'.sched.inFlight.lookup id = some permit → x.sched.inFlight.lookup id = some permit) :
    Carried ((x, a, e) :: h) x' where
  kept := by
    rw [hd]
    exact hc.kept.of_same he ht hle hp
  sorted := by
    rw [hd]
    exact hc.sorted
  stored := hst

/-- A completion strikes the job out where no request was made. -/
theorem of_completed (hc : Carried h x) (hl : Life (events h) x.sched) {id : JobId} {completion : OutboundCompletion}
    {now observedAt : Nat} (hle : x.clock ≤ now)
    (hp : ∀ a permit, (x.sched.complete id completion now observedAt).inFlight.lookup a = some permit →
      x.sched.inFlight.lookup a = some permit) :
    Carried ((x, .complete id completion now observedAt, .completed id completion now) :: h)
      ⟨x.sched.complete id completion now observedAt, now, none⟩ := by
  have hd : debits ((x, .complete id completion now observedAt, .completed id completion now) :: h) =
      fun w => if completion = .noRequest ∧ phase (events h) id = .inFlight then strike id (debits h w)
        else debits h w := by
    funext w
    cases completion <;> simp [debits]
  obtain ⟨hk, -⟩ := hc.kept.completed hl hle hp
  refine ⟨?_, fun w => ?_, hc.stored.complete id completion now observedAt⟩
  · rw [hd]
    exact hk
  · rw [hd]
    dsimp only
    split
    · exact (hc.sorted w).filter _
    · exact hc.sorted w

/-- A grant is debited at the end of its ledgers. -/
theorem of_granted (hc : Carried h x) (hl : Life (events h) x.sched) {now : Nat} (hle : x.clock ≤ now)
    {s₁ s₂ : SchedulerState} {c : Candidate} {job : Job} (hp : x.sched.popTurn now = some (.popped s₁ c))
    (hj : s₁.jobs.lookup c.job = some job) (ha : s₁.admission c now = (s₂, .pass)) (pass : Option Nat) :
    Carried ((x, .turn now, .granted ⟨c.job, job.correlationId⟩ job.metadata now) :: h)
      ⟨(s₂.grant c.job now).rearmReservations c now, now, pass⟩ := by
  obtain ⟨hk, -, -⟩ := hc.kept.granted hl hle hp hj ha pass
  refine ⟨hk, fun w => ?_, ?_⟩
  · simp only [debits]
    split
    · rw [List.pairwise_append]
      refine ⟨hc.sorted w, List.pairwise_singleton _ _, fun d hd d' hd' => ?_⟩
      rw [List.mem_singleton] at hd'
      subst hd'
      exact Nat.le_trans (hc.kept.past w d hd) hle
    · rw [List.append_nil]
      exact hc.sorted w
  · have h₁ : s₁.Stored := hc.stored.of_rates (popTurn_popped hp).quiet.rates
    have h₂ := h₁.admission c now
    rw [ha] at h₂
    exact (h₂.grant c.job now).of_rates (rearmReservations_quiet _ c now).rates

/-- An update of the limits renews the ledgers of some windows. -/
theorem of_renewed (hc : Carried h x) {which : WindowRef → Bool} {s' : SchedulerState} {now : Nat}
    (hle : x.clock ≤ now) (hr : Renews x.sched s' (.ok ()) which (debits h) now)
    (hd : debits ((x, a, .limited (.ok ()) now) :: h) = x.sched.renewed which (debits h) now)
    (hp : ∀ id permit, s'.inFlight.lookup id = some permit → x.sched.inFlight.lookup id = some permit) :
    Carried ((x, a, .limited (.ok ()) now) :: h) ⟨s', now, none⟩ := by
  have hsub := renewed_sublist x.sched which (debits h) now
  have hpast : ∀ w, ∀ d ∈ debits h w, d.instant ≤ now := fun w d hd => Nat.le_trans (hc.kept.past w d hd) hle
  refine ⟨⟨?_, fun w d hm => ?_, fun id permit hi w d hm => ?_, fun w => ?_⟩, fun w => ?_, ?_⟩
  · rw [hd]
    exact hr.tracked (hc.kept.tracked.later hle) hc.sorted hpast
  · rw [hd] at hm
    exact hpast w d ((hsub w).mem hm)
  · rw [hd] at hm
    exact hc.kept.permits id permit (hp id permit hi) w d ((hsub w).mem hm)
  · rw [hd]
    exact (hsub w).trans (hc.kept.charged w)
  · rw [hd]
    exact (hc.sorted w).sublist (hsub w)
  · rcases hr with ⟨⟨_, he⟩, -⟩ | ⟨-, hst, -, -⟩
    · cases he
    · exact hst

/-- An update that is refused changes nothing. -/
theorem of_limited (hc : Carried h x) {which : WindowRef → Bool} {s' : SchedulerState}
    {result : Except SchedulerConfigError Unit} {now : Nat} (hle : x.clock ≤ now)
    (hr : Renews x.sched s' result which (debits h) now)
    (hok : debits ((x, a, .limited (.ok ()) now) :: h) = x.sched.renewed which (debits h) now)
    (herr : ∀ e, debits ((x, a, .limited (.error e) now) :: h) = debits h)
    (hp : ∀ id permit, s'.inFlight.lookup id = some permit → x.sched.inFlight.lookup id = some permit) :
    Carried ((x, a, .limited result now) :: h) ⟨s', now, none⟩ := by
  cases result with
  | ok => exact hc.of_renewed hle hr hok hp
  | error e =>
    rcases hr with ⟨-, rfl⟩ | ⟨he, -⟩
    · exact hc.of_rates (herr e) rfl rfl hle hp
    · cases he

/-- A call outside the passes. -/
theorem of_call (hc : Carried h x) (hl : Life (events h) x.sched) {s' : SchedulerState} (hle : x.clock ≤ a.now)
    (hcall : x.sched.call a = some (s', e)) : Carried ((x, a, e) :: h) ⟨s', a.now, none⟩ := by
  have hch := call_change hcall
  cases a with
  | enqueue metadata options =>
    have hr : _ = x.sched.rates := congrArg (·.1) (x.sched.enqueue_accounts metadata options)
    simp only [call] at hcall
    split at hcall
    · rename_i hq
      rw [hq] at hr
      split at hcall
      · cases hcall
        exact hc.of_rates rfl rfl hr hle (hch.permits rfl)
      · cases hcall
    · rename_i hq
      rw [hq] at hr
      cases hcall
      exact hc.of_rates rfl rfl hr hle (hch.permits rfl)
  | cancel job now =>
    cases hcall
    exact hc.of_rates rfl rfl (congrArg (·.1) (x.sched.cancel_accounts job now)) hle (hch.permits rfl)
  | start job now =>
    cases hcall
    exact hc.of_rates rfl rfl (congrArg (·.1) (x.sched.start_accounts job now)) hle (hch.permits rfl)
  | complete job completion now observedAt =>
    cases hcall
    exact hc.of_completed hl hle (hch.permits rfl)
  | penalize scope deadline now =>
    cases hcall
    exact hc.of_rates rfl rfl rfl hle (hch.permits rfl)
  | setLimits limits order now =>
    simp only [call] at hcall
    split at hcall
    · cases hcall
      have ht : x.sched.Tracked (debits h) now := hc.kept.tracked.later hle
      exact hc.of_limited hle (setLimits_renews ht hc.stored limits order) rfl (fun _ => rfl) (hch.permits rfl)
    · cases hcall
  | setClassLimits limits order now =>
    simp only [call] at hcall
    split at hcall
    · cases hcall
      have ht : x.sched.Tracked (debits h) now := hc.kept.tracked.later hle
      exact hc.of_limited hle (setClassLimits_renews ht hc.stored limits order) rfl (fun _ => rfl) (hch.permits rfl)
    · cases hcall
  | nextDeadline now =>
    cases hcall
    exact hc.of_rates rfl rfl (x.sched.nextDeadline_quiet now).rates hle (hch.permits rfl)
  | beginPass | turn | endPass => cases hcall

end Carried

/-- A step keeps the windows in tune with the debits. -/
theorem step_carried {h : List Record} {x x' : Sys} {a : Action} {e : Event} (hc : Carried h x)
    (hl : Life (events h) x.sched) (hs : scheduler.step x a = some (x', e)) : Carried ((x, a, e) :: h) x' := by
  have hch := step_change hs
  cases step_steps hs with
  | call _ hle hcall => exact hc.of_call hl hle hcall
  | began _ hle hb => exact hc.of_rates rfl rfl (congrArg (·.1) (beginPass_accounts hb)) hle (hch.permits rfl)
  | @turn now _ _ _ hle ht =>
    cases turn_cases ht with
    | skipped hp => exact hc.of_rates rfl rfl (popTurn_quiet hp).rates hle (hch.permits rfl)
    | granted hp hj ha => exact hc.of_granted hl hle hp hj ha _
    | @held s₁ s₂ c job verdict hp hj ha hne =>
      have hr := (popTurn_popped hp).quiet.rates
      have ht₁ : s₁.Tracked _ _ := (hc.kept.tracked.later hle).of_rates hr
      have hst₁ : s₁.Stored := hc.stored.of_rates hr
      obtain ⟨ht₂, -, -⟩ := admission_tracked ht₁ c
      have hst₂ := hst₁.admission c now
      rw [ha] at ht₂ hst₂
      have hq := (s₂.settle_quiet c now hne).rates
      exact hc.of_same rfl rfl (ht₂.of_rates hq) (hst₂.of_rates hq) hle (hch.permits rfl)
  | ended _ hle _ =>
    obtain ⟨ht, -⟩ := endPass_tracked (hc.kept.tracked.later hle)
    exact hc.of_same rfl rfl ht (hc.stored.endPass _) hle (hch.permits rfl)

theorem carried_run {ok : Sys → Action → Prop} {h : List Record} {x : Sys} (hr : scheduler.recording.Run ok h x) :
    Carried h x := by
  refine Machine.Run.induct (I := Carried) (fun _ hi => Carried.init hi) (fun τ s a s' e hr hc _ hs => ?_) hr
  obtain ⟨hs, he⟩ := Machine.recording_step hs
  rw [he]
  exact step_carried hc (life_run hr.recorded) hs

/-! ## Refunds -/

/-- The window once what has expired and the debits of the job are gone. -/
def RollingWindow.struck (job : JobId) (now : Nat) (w : RollingWindow) : RollingWindow :=
  { w with history := strike job (w.history.filter (fresh w.window now))
           used := totalWeight (strike job (w.history.filter (fresh w.window now))) }

def WindowSet.struck (job : JobId) (now : Nat) (set : WindowSet) : WindowSet :=
  ⟨set.windows.map (·.struck job now)⟩

/-- A refund strikes the job out, and prunes. -/
theorem RollingWindow.Tracks.refund_eq {w : RollingWindow} {ledger : List WindowEvent} {now : Nat} {job : JobId}
    {weight : Nat} (h : w.Tracks ledger now) (hd : Debited job weight ledger) :
    (w.refund now job weight).1 = w.struck job now := by
  have hh : (w.prune now).history = w.history.filter (fresh w.window now) := h.prune_history.trans h.agree.symm
  have hu : (w.prune now).used = totalWeight (w.history.filter (fresh w.window now)) := by
    rw [prune_used h.used, hh]
  have hsub : List.Sublist (w.history.filter (fresh w.window now)) ledger := by
    rw [h.agree]
    exact List.filter_sublist
  have hstrike : (w.history.filter (fresh w.window now)).eraseP (isDebit job weight) =
      strike job (w.history.filter (fresh w.window now)) :=
    eraseP_isDebit (hd.1.sublist (hsub.map _)) fun e he => hd.2 e (hsub.mem he)
  unfold RollingWindow.refund RollingWindow.struck
  dsimp only
  split
  · rename_i hany
    rw [hh] at hany
    rw [← hstrike, totalWeight_eraseP hany, ← hu, ← hh]
    rfl
  · rename_i hany
    have hsame : strike job (w.history.filter (fresh w.window now)) = w.history.filter (fresh w.window now) := by
      rw [← hstrike]
      refine List.eraseP_of_forall_not fun e he hp => hany ?_
      rw [hh]
      exact List.any_eq_true.2 ⟨e, he, hp⟩
    rw [hsame, ← hu, ← hh]
    rfl

theorem WindowSet.Tracks.refund_eq {set : WindowSet} {sizes : List (Nat × Nat)} {ledger : List WindowEvent} {now : Nat}
    {job : JobId} {weight : Nat} (h : set.Tracks sizes ledger now) (hd : Debited job weight ledger) :
    (set.refund now job weight).1 = set.struck job now := by
  simp only [WindowSet.refund, WindowSet.struck, WindowSet.mk.injEq]
  exact List.map_congr_left fun w hw => (h.each w hw).refund_eq hd

/-- Pruning a struck window again changes nothing. -/
theorem RollingWindow.struck_prune (job : JobId) (now : Nat) (w : RollingWindow) :
    (w.struck job now).prune now = w.struck job now := by
  have hkeep : ∀ {l : List WindowEvent}, (∀ e ∈ l, fresh w.window now e = true) →
      l.dropWhile (expired w.window now) = l ∧ l.takeWhile (expired w.window now) = [] := by
    intro l hl
    cases l with
    | nil => exact ⟨rfl, rfl⟩
    | cons e l =>
      have he := hl e List.mem_cons_self
      simp only [fresh, Bool.not_eq_true'] at he
      simp [he]
  have hfresh : ∀ e ∈ strike job (w.history.filter (fresh w.window now)), fresh w.window now e = true :=
    fun e he => (List.mem_filter.1 (List.mem_of_mem_filter he)).2
  simp only [RollingWindow.prune, RollingWindow.struck, (hkeep hfresh).1, (hkeep hfresh).2]
  simp

theorem WindowSet.struck_isIdle (job : JobId) (now : Nat) (set : WindowSet) :
    ((set.struck job now).isIdle now).1 = set.struck job now := by
  have hall : ∀ l : List RollingWindow,
      (allMut (·.isIdle now) (l.map (·.struck job now))).1 = l.map (·.struck job now) := by
    intro l
    induction l with
    | nil => rfl
    | cons w l ih =>
      simp only [List.map_cons, allMut, RollingWindow.isIdle, struck_prune]
      cases (w.struck job now).history.isEmpty with
      | false => rfl
      | true => simp only [RollingWindow.isIdle] at ih; simp only [ih]
  simp only [WindowSet.isIdle, WindowSet.struck, hall]

/-- What a refund makes of a stored set; the set of a chat goes when nothing is left in it. -/
inductive Struck (job : JobId) (now : Nat) : Option WindowSet → Option WindowSet → Prop
  | absent : Struck job now none none
  | kept (set : WindowSet) : Struck job now (some set) (some (set.struck job now))
  | dropped {set : WindowSet} : (∀ w ∈ (set.struck job now).windows, w.history = []) → Struck job now (some set) none

namespace SchedulerState

theorem windowSet_of_rates {s s' : SchedulerState} (h : s'.rates = s.rates) : s'.windowSet = s.windowSet := by
  simp only [rates, Prod.mk.injEq] at h
  obtain ⟨h1, h2, h3, h4, -, -, -⟩ := h
  funext window
  cases window <;> simp only [windowSet, h1, h2, h3, h4]

theorem windowSet_storeSet (s : SchedulerState) (window : WindowRef) (set : WindowSet) (w : WindowRef) :
    (s.storeSet window set).windowSet w = if w = window then some set else s.windowSet w := by
  cases window <;> cases w <;> simp [storeSet, windowSet, Table.lookup_insert_if]

theorem refundWindow_struck {s : SchedulerState} {now weight : Nat} {job : JobId} {window : WindowRef}
    (h : ∀ set, s.windowSet window = some set → (set.refund now job weight).1 = set.struck job now) :
    Struck job now (s.windowSet window) ((s.refundWindow now weight job window).1.windowSet window) ∧
      ∀ w, w ≠ window → (s.refundWindow now weight job window).1.windowSet w = s.windowSet w := by
  unfold refundWindow
  cases hs : s.windowSet window with
  | none =>
    dsimp only
    rw [hs]
    exact ⟨.absent, fun _ _ => rfl⟩
  | some set =>
    dsimp only
    rw [h set hs]
    split
    · rename_i key
      have hidle := set.struck_isIdle job now
      rw [hidle]
      split
      · rename_i hi
        have hempty : ∀ w ∈ (set.struck job now).windows, w.history = [] := by
          intro w hw
          have ht := WindowSet.allMut_true hi w hw
          obtain ⟨v, -, rfl⟩ := List.mem_map.1 hw
          simp only [RollingWindow.isIdle, RollingWindow.struck_prune, List.isEmpty_iff] at ht
          exact ht
        have hgone : ({ s with chatWindowSets := s.chatWindowSets.erase key } : SchedulerState).windowSet (.chat key) =
            none := by
          simp [windowSet]
        refine ⟨by rw [hgone]; exact .dropped hempty, fun w hw => ?_⟩
        cases w with
        | chat key' =>
          have hk : key' ≠ key := fun hk => hw (by rw [hk])
          simp [windowSet, hk]
        | _ => rfl
      · refine ⟨?_, fun w hw => ?_⟩
        · rw [windowSet_storeSet, if_pos rfl]
          exact .kept set
        · rw [windowSet_storeSet, if_neg hw]
    · refine ⟨?_, fun w hw => ?_⟩
      · rw [windowSet_storeSet, if_pos rfl]
        exact .kept set
      · rw [windowSet_storeSet, if_neg hw]

theorem refundWindows_struck {now weight : Nat} {job : JobId} :
    ∀ {windows : List WindowRef} {s : SchedulerState}, windows.Nodup →
      (∀ window ∈ windows, ∀ set, s.windowSet window = some set → (set.refund now job weight).1 = set.struck job now) →
      ∀ w, (w ∈ windows → Struck job now (s.windowSet w) ((refundWindows now weight job windows s).1.windowSet w)) ∧
        (w ∉ windows → (refundWindows now weight job windows s).1.windowSet w = s.windowSet w)
  | [], s, _, _, w => ⟨fun hw => absurd hw List.not_mem_nil, fun _ => rfl⟩
  | window :: windows, s, hn, h, w => by
    rw [List.nodup_cons] at hn
    obtain ⟨hone, hother⟩ := refundWindow_struck (h window List.mem_cons_self)
    have hrest : ∀ v ∈ windows, ∀ set, (s.refundWindow now weight job window).1.windowSet v = some set →
        (set.refund now job weight).1 = set.struck job now := by
      intro v hv set hs
      rw [hother v fun he => hn.1 (he ▸ hv)] at hs
      exact h v (List.mem_cons_of_mem _ hv) set hs
    have ih := refundWindows_struck hn.2 hrest w
    unfold refundWindows
    dsimp only
    refine ⟨fun hw => ?_, fun hw => ?_⟩
    · rcases List.mem_cons.1 hw with rfl | hw
      · rw [ih.2 hn.1]
        exact hone
      · rw [← hother w fun he => hn.1 (he ▸ hw)]
        exact ih.1 hw
    · rw [List.mem_cons, not_or] at hw
      rw [ih.2 hw.2, hother w hw.1]

end SchedulerState

/-- A completion with no request made strikes the job out of its windows. -/
theorem complete_strikes {h : List Record} {x : Sys} (hc : Carried h x) (hl : Life (events h) x.sched) {job : JobId}
    {permit : InFlight} (hp : x.sched.inFlight.lookup job = some permit) {now : Nat} (hle : x.clock ≤ now)
    (observedAt : Nat) (w : WindowRef) :
    (w ∈ windowsOf permit.scope permit.cls →
      Struck job now (x.sched.windowSet w) ((x.sched.complete job .noRequest now observedAt).windowSet w)) ∧
    (w ∉ windowsOf permit.scope permit.cls →
      (x.sched.complete job .noRequest now observedAt).windowSet w = x.sched.windowSet w) := by
  obtain ⟨s₁, s₂, hf, hq, he⟩ := complete_settles hp .noRequest now observedAt
  have hr : s₂.rates = x.sched.rates := by
    rw [hq.rates]
    cases hf <;> rfl
  have hn : (windowsOf permit.scope permit.cls).Nodup := by
    unfold windowsOf
    split <;> simp
  have hrefund : ∀ window ∈ windowsOf permit.scope permit.cls, ∀ set, s₂.windowSet window = some set →
      (set.refund now job permit.weight).1 = set.struck job now := by
    intro window _ set hs
    rw [windowSet_of_rates hr] at hs
    have ht := (hc.kept.tracked.later hle).set (hc.stored.ensured hs)
    exact ht.refund_eq (hc.kept.debited hl hp window)
  have hstruck := refundWindows_struck hn hrefund w
  have hrearm := (Quiet.foldl (fun s w => rearmReservationOwner_quiet now s w)
    (refundWindows now permit.weight job (windowsOf permit.scope permit.cls) s₂).2
    (refundWindows now permit.weight job (windowsOf permit.scope permit.cls) s₂).1).rates
  rw [he]
  unfold settleCompletion
  dsimp only
  rw [windowSet_of_rates hrearm]
  rw [windowSet_of_rates hr] at hstruck
  exact hstruck

/-- Another completion, or one of a job that is not in flight, leaves the windows alone. -/
theorem complete_spares {s : SchedulerState} {job : JobId} {completion : OutboundCompletion} {now observedAt : Nat}
    (h : completion ≠ .noRequest ∨ s.inFlight.lookup job = none) :
    (s.complete job completion now observedAt).windowSet = s.windowSet := by
  cases hp : s.inFlight.lookup job with
  | none =>
    unfold complete
    rw [hp]
  | some permit =>
    have hne : completion ≠ .noRequest := by
      rcases h with h | h
      · exact h
      · rw [hp] at h
        cases h
    obtain ⟨s₁, s₂, hf, hq, he⟩ := complete_settles hp completion now observedAt
    have hr : s₂.rates = s.rates := by
      rw [hq.rates]
      cases hf <;> rfl
    rw [he]
    unfold settleCompletion
    cases completion with
    | noRequest => exact absurd rfl hne
    | retryAfter =>
      dsimp only
      split <;> exact windowSet_of_rates hr
    | success | failed | cancelledAfterGrant => exact windowSet_of_rates hr

/-- How often the job has been refunded: its completions with no request made that found it
in flight. -/
def refunds : List Event → JobId → Nat
  | [], _ => 0
  | .completed j .noRequest _ :: τ, id => (if id = j ∧ phase τ id = .inFlight then 1 else 0) + refunds τ id
  | _ :: τ, id => refunds τ id

/-- A refunded job has completed, and has been refunded once. -/
theorem refunds_le_one {τ : List Event} (h : AllLawful τ) (id : JobId) :
    refunds τ id = 0 ∨ refunds τ id = 1 ∧ phase τ id = .completed := by
  induction τ with
  | nil => exact .inl rfl
  | cons e τ ih =>
    have ih := ih h.2
    cases e with
    | enqueued m options o =>
      obtain ⟨hnew, hold⟩ := h.1
      refine ih.imp_right fun ⟨hone, hp⟩ => ⟨hone, ?_⟩
      have hne : id ≠ o.job := by
        rintro rfl
        rw [hnew] at hp
        cases hp
      have hsup : o.superseded ≠ some id := by
        intro hs
        rw [hold id hs] at hp
        cases hp
      simp [phase, hne, hsup, hp]
    | granted g m now =>
      have hpend : phase τ g.job = .pending := h.1
      refine ih.imp_right fun ⟨hone, hp⟩ => ⟨hone, ?_⟩
      have hne : id ≠ g.job := by
        rintro rfl
        rw [hpend] at hp
        cases hp
      simp [phase, hne, hp]
    | cancelled j now =>
      refine ih.imp_right fun ⟨hone, hp⟩ => ⟨hone, ?_⟩
      simp [phase, hp]
    | completed j completion now =>
      rcases ih with hzero | ⟨hone, hp⟩
      · cases completion with
        | noRequest =>
          by_cases hj : id = j ∧ phase τ id = .inFlight
          · obtain ⟨rfl, hin⟩ := hj
            right
            simp [refunds, phase, hin, hzero]
          · left
            simp [refunds, hj, hzero]
        | _ => exact .inl hzero
      · right
        have hphase : phase (.completed j completion now :: τ) id = .completed := by simp [phase, hp]
        refine ⟨?_, hphase⟩
        cases completion with
        | noRequest => simp [refunds, hp, hone]
        | _ => exact hone
    | _ => exact ih

/-- The windows of a run count what their histories hold, and a refund takes out the debit of
its job, with what has expired, and nothing else, once. -/
theorem refund_exact {τ : List Event} {x : Sys} (hr : Run Machine.anything τ x) :
    (∀ w set, x.sched.windowSet w = some set → ∀ v ∈ set.windows, v.used = totalWeight v.history) ∧
    (∀ job completion now observedAt x' e, scheduler.step x (.complete job completion now observedAt) = some (x', e) →
      (∀ permit, completion = .noRequest → x.sched.inFlight.lookup job = some permit → ∀ w,
        (w ∈ windowsOf permit.scope permit.cls → Struck job now (x.sched.windowSet w) (x'.sched.windowSet w)) ∧
        (w ∉ windowsOf permit.scope permit.cls → x'.sched.windowSet w = x.sched.windowSet w) ∧
        ∀ set, x.sched.windowSet w = some set → ∀ v ∈ set.windows,
          ((v.history.filter (fresh v.window now)).map (·.job)).Nodup ∧
          ∀ e ∈ v.history.filter (fresh v.window now), e.job = some job → e.weight = permit.weight) ∧
      (completion ≠ .noRequest ∨ x.sched.inFlight.lookup job = none → x'.sched.windowSet = x.sched.windowSet)) ∧
    ∀ job, refunds τ job ≤ 1 := by
  obtain ⟨h, hrec, rfl⟩ := hr.record
  have hc := carried_run hrec
  have hl : Life (events h) x.sched := life_run hr
  refine ⟨fun w set hs v hv => ?_, fun job completion now observedAt x' e hs => ?_, fun job => ?_⟩
  · exact ((hc.kept.tracked.set (hc.stored.ensured hs)).each v hv).used
  · obtain ⟨hle, rfl⟩ : x.clock ≤ now ∧ x' = ⟨x.sched.complete job completion now observedAt, now, none⟩ := by
      cases step_steps hs with
      | call _ hle hcall =>
        cases hcall
        exact ⟨hle, rfl⟩
    refine ⟨fun permit hno hp w => ?_, fun hother => complete_spares hother⟩
    subst hno
    obtain ⟨hin, hout⟩ := complete_strikes hc hl hp hle observedAt w
    refine ⟨hin, hout, fun set hset v hv => ?_⟩
    have ht := ((hc.kept.tracked.later hle).set (hc.stored.ensured hset)).each v hv
    have hd := hc.kept.debited hl hp w
    rw [ht.agree]
    exact ⟨hd.1.sublist (List.filter_sublist.map _), fun d hm => hd.2 d (List.mem_of_mem_filter hm)⟩
  · rcases refunds_le_one hl.lawful job with hz | ⟨hone, -⟩
    · exact (Nat.le_of_eq hz).trans (Nat.zero_le 1)
    · exact Nat.le_of_eq hone

/-- Two grants of a window of two in ten, the limits replaced, and the second one given back. -/
def refundRun : List Action :=
  [.enqueue (.plain 10 none) (.plain 0)] ++ Action.pass 0 [] 1 ++ [.enqueue (.plain 10 none) (.plain 5)] ++
    Action.pass 5 [] 1 ++ [.setLimits ⟨[⟨2, 11, .any⟩], []⟩ [] 6]

theorem refund_exact_refundRun : ∃ τ x permit, Run Machine.anything τ x ∧ x.sched.inFlight.lookup 1 = some permit ∧
    x.sched.globalWindows.windows.map (·.history) = [[⟨0, 1, some 0⟩, ⟨5, 1, some 1⟩]] ∧
    Struck 1 7 (some x.sched.globalWindows) ((x.sched.complete 1 .noRequest 7 7).windowSet .global) ∧
    refunds τ 1 ≤ 1 := by
  have hg : (scheduler.exec Machine.anything [] (.fresh [(2, 10)]) refundRun).map
      (fun r => (r.2.sched.inFlight.lookup 1, r.2.sched.globalWindows.windows.map (·.history), r.2.clock, r.2.pass)) =
        some (some ⟨none, .global, 0, 1⟩, [[⟨0, 1, some 0⟩, ⟨5, 1, some 1⟩]], 6, none) := by decide
  rw [Option.map_eq_some_iff] at hg
  obtain ⟨⟨τ, x⟩, he, hg⟩ := hg
  simp only [Prod.mk.injEq] at hg
  obtain ⟨hin, hhist, hclock, hpass⟩ := hg
  have hr := run_of_actions (Sys.fresh_init rfl) he
  have hstep : scheduler.step x (.complete 1 .noRequest 7 7) =
      some (⟨x.sched.complete 1 .noRequest 7 7, 7, none⟩, .completed 1 .noRequest 7) := by
    simp [scheduler, step, Action.now, hclock, hpass, call]
  obtain ⟨-, hcomplete, hrefunds⟩ := refund_exact hr
  obtain ⟨hstruck, -⟩ := hcomplete 1 .noRequest 7 7 _ _ hstep
  obtain ⟨hglobal, -⟩ := hstruck _ rfl hin .global
  exact ⟨τ, x, _, hr, hin, hhist, hglobal (by decide), hrefunds 1⟩

/-- The refund of the second job takes the expired debit of the first one out as well. -/
theorem refund_prunes : ∃ τ x x' e, Run Machine.anything τ x ∧
    scheduler.step x (.complete 1 .noRequest 12 12) = some (x', e) ∧
    x.sched.globalWindows.windows.map (·.history) = [[⟨0, 1, some 0⟩, ⟨5, 1, some 1⟩]] ∧
    x'.sched.globalWindows.windows.map (·.history) = [[]] := by
  have hg : (scheduler.exec Machine.anything [] (.fresh [(2, 10)]) refundRun).bind
      (fun r => (scheduler.step r.2 (.complete 1 .noRequest 12 12)).map fun q =>
        (r.2.sched.globalWindows.windows.map (·.history), q.1.sched.globalWindows.windows.map (·.history))) =
        some ([[⟨0, 1, some 0⟩, ⟨5, 1, some 1⟩]], [[]]) := by decide
  rw [Option.bind_eq_some_iff] at hg
  obtain ⟨⟨τ, x⟩, he, hg⟩ := hg
  rw [Option.map_eq_some_iff] at hg
  obtain ⟨⟨x', e⟩, hs, hg⟩ := hg
  simp only [Prod.mk.injEq] at hg
  exact ⟨τ, x, x', e, run_of_actions (Sys.fresh_init rfl) he, hs, hg.1, hg.2⟩

/-! ## Updates of the limits -/

theorem WindowSet.Exact.usage {set : WindowSet} {sizes : List (Nat × Nat)} {ledger : List WindowEvent} {now : Nat}
    (h : set.Exact sizes ledger now) :
    set.windows.map (·.used) = sizes.map fun size => totalWeight (ledger.filter (fresh size.2 now)) := by
  rw [← h.sizes, WindowSet.sizes, List.map_map]
  refine List.map_congr_left fun v hv => ?_
  rw [h.used v hv, h.history v hv]
  rfl

theorem WindowSet.Tracks.usage {set : WindowSet} {sizes : List (Nat × Nat)} {ledger : List WindowEvent} {now : Nat}
    (h : set.Tracks sizes ledger now) :
    (set.windows.map fun v => (v.prune now).used) =
      sizes.map fun size => totalWeight (ledger.filter (fresh size.2 now)) := by
  rw [← h.sizes, WindowSet.sizes, List.map_map]
  refine List.map_congr_left fun v hv => ?_
  rw [prune_used (h.each v hv).used, (h.each v hv).prune_history]
  rfl

/-- The sets that every request and every chat have. -/
theorem ensuredSet_some (s : SchedulerState) {w : WindowRef} (hw : w.ofClass = false) :
    ∃ set, s.ensuredSet w = some set := by
  cases w with
  | global | chat => exact ⟨_, rfl⟩
  | classGlobal | classChat => cases hw

/-- The update of the limits in a step. -/
theorem step_setLimits {x x' : Sys} {limits : OutboundLimits} {order : List CandidateRef} {now : Nat}
    {result : Except SchedulerConfigError Unit}
    (hs : scheduler.step x (.setLimits limits order now) = some (x', .limited result now)) :
    x.clock ≤ now ∧ x'.sched = (x.sched.setLimits limits order now).1 ∧
      result = (x.sched.setLimits limits order now).2 := by
  cases step_steps hs with
  | call _ hle hcall =>
    simp only [call] at hcall
    split at hcall
    · cases hcall
      exact ⟨hle, rfl, rfl⟩
    · cases hcall

/-- The same limits leave every window its size. -/
theorem setLimits_configured {s : SchedulerState} {limits : OutboundLimits} {order : List CandidateRef} {now : Nat}
    (hok : (s.setLimits limits order now).2 = .ok ()) (hg : limits.global = s.globalLimits)
    (hchat : limits.chat = s.chatLimits) : (s.setLimits limits order now).1.configured = s.configured := by
  unfold setLimits at hok ⊢
  split at hok
  · cases hok
  · rename_i hz
    split at hok
    · cases hok
    · rename_i hk
      split at hok
      · cases hok
      · rw [if_neg hz, if_neg hk, configured_of_rates (rearmBlockedAndParked_quiet _ order now).rates]
        funext w
        cases w with
        | global => simp only [configured, replaceLimits, hg]
        | chat key => simp only [configured, replaceLimits, hchat]
        | classGlobal | classChat => rfl

/-- An update of the limits that fails changes nothing. One that succeeds gives every new window
that is no longer than some old window of its set the debits that it covers; the same limits
leave every usage as it was; and a carried debit is refunded as any other. -/
theorem setLimits_carries {h : List Record} {x x' : Sys} {limits : OutboundLimits} {order : List CandidateRef}
    {now : Nat} {result : Except SchedulerConfigError Unit} (hr : scheduler.recording.Run Machine.anything h x)
    (hs : scheduler.step x (.setLimits limits order now) = some (x', .limited result now)) :
    ((∃ e, result = .error e) → x'.sched = x.sched) ∧
    (result = .ok () →
      (∀ w set, w.ofClass = false → x'.sched.ensuredSet w = some set → ∀ v ∈ set.windows,
        (∃ size ∈ x.sched.configured w, v.window ≤ size.2) →
          v.history = (debits h w).filter (fresh v.window now) ∧
          v.used = totalWeight ((debits h w).filter (fresh v.window now))) ∧
      (limits.global = x.sched.globalLimits → limits.chat = x.sched.chatLimits → ∀ w, w.ofClass = false →
        (x'.sched.ensuredSet w).map (fun set => set.windows.map (·.used)) =
          (x.sched.ensuredSet w).map fun set => set.windows.map fun v => (v.prune now).used)) ∧
    ∀ h' y job permit now' observedAt,
      scheduler.recording.Run Machine.anything
        (h' ++ (x, .setLimits limits order now, .limited result now) :: h) y →
      y.sched.inFlight.lookup job = some permit → y.clock ≤ now' → ∀ w ∈ windowsOf permit.scope permit.cls,
        Struck job now' (y.sched.windowSet w) ((y.sched.complete job .noRequest now' observedAt).windowSet w) := by
  have hc := carried_run hr
  obtain ⟨hle, hx', hresult⟩ := step_setLimits hs
  have ht := hc.kept.tracked.later hle
  have hrenews := setLimits_renews ht hc.stored limits order
  refine ⟨fun herr => ?_, fun hok => ⟨fun w set hw hset v hv hsize => ?_, fun hg hchat w hw => ?_⟩,
    fun h' y job permit now' observedAt hy hp hle' w hw => ?_⟩
  · rw [hx']
    rcases hrenews with ⟨-, he⟩ | ⟨he, -⟩
    · exact he
    · obtain ⟨e, herr⟩ := herr
      rw [← hresult, herr] at he
      cases he
  · rcases hrenews with ⟨⟨e, he⟩, -⟩ | ⟨-, -, hexact, -⟩
    · rw [← hresult, hok] at he
      cases he
    · have hset' := hexact w (by simpa using hw)
      rw [← hx', hset] at hset'
      have hset' : set.Exact _ _ _ := hset'
      have hh := hset'.history v hv
      rw [survivors_fresh hsize] at hh
      exact ⟨hh, by rw [hset'.used v hv, hh]⟩
  · rcases hrenews with ⟨⟨e, he⟩, -⟩ | ⟨-, -, hexact, -⟩
    · rw [← hresult, hok] at he
      cases he
    · have hnew := hexact w (by simpa using hw)
      rw [← hx', hx', setLimits_configured (hresult.symm.trans hok) hg hchat, ← hx'] at hnew
      have hold := ht w
      -- the windows of one set have the sizes that are configured, before and after
      obtain ⟨new, hn⟩ := ensuredSet_some x'.sched hw
      obtain ⟨old, ho⟩ := ensuredSet_some x.sched hw
      rw [hn] at hnew ⊢
      rw [ho] at hold ⊢
      have hnew : new.Exact _ _ _ := hnew
      have hold : old.Tracks _ _ _ := hold
      simp only [Option.map_some, Option.some.injEq]
      rw [hnew.usage, hold.usage]
      refine List.map_congr_left fun size hsize => ?_
      rw [survivors_fresh ⟨size, hsize, Nat.le_refl _⟩]
  · exact (complete_strikes (carried_run hy) (life_run hy.recorded) hp hle' observedAt w).1 hw

/-- A grant of a window of one in ten, and a window of a hundred that comes too late for it. -/
def lengthenRun : List Action :=
  [.enqueue (.plain 10 none) (.plain 0)] ++ Action.pass 0 [] 1 ++ [.setLimits ⟨[⟨1, 100, .any⟩], []⟩ [] 20]

/-- The limits are set at that instant. -/
def Event.limitedAt (now : Nat) : Event → Bool
  | .limited (.ok ()) t => t == now
  | _ => false

theorem Event.eq_limited {e : Event} {now : Nat} (h : e.limitedAt now = true) : e = .limited (.ok ()) now := by
  unfold Event.limitedAt at h
  split at h
  · rw [beq_iff_eq.1 h]
  · cases h

/-- Set again, the longer window still does not count the grant that its predecessor had dropped. -/
theorem setLimits_prospective : ∃ τ x x', Run Machine.anything τ x ∧
    scheduler.step x (.setLimits ⟨[⟨1, 100, .any⟩], []⟩ [] 20) = some (x', .limited (.ok ()) 20) ∧
    x.sched.configured .global = [(1, 100)] ∧
    x'.sched.globalWindows.windows.map (fun v => (v.window, v.used)) = [(100, 0)] ∧
    totalWeight ((charges τ .global).filter (fresh 100 20)) = 1 := by
  have hg : (scheduler.exec Machine.anything [] (.fresh [(1, 10)]) lengthenRun).bind
      (fun r => (scheduler.step r.2 (.setLimits ⟨[⟨1, 100, .any⟩], []⟩ [] 20)).map fun q =>
        (r.2.sched.configured .global, q.1.sched.globalWindows.windows.map (fun v => (v.window, v.used)),
          totalWeight ((charges r.1 .global).filter (fresh 100 20)),
          q.2.limitedAt 20)) =
        some ([(1, 100)], [(100, 0)], 1, true) := by decide
  rw [Option.bind_eq_some_iff] at hg
  obtain ⟨⟨τ, x⟩, he, hg⟩ := hg
  rw [Option.map_eq_some_iff] at hg
  obtain ⟨⟨x', e⟩, hs, hg⟩ := hg
  simp only [Prod.mk.injEq] at hg
  obtain ⟨hcfg, hused, hcharged, hevent⟩ := hg
  cases Event.eq_limited hevent
  exact ⟨τ, x, x', run_of_actions (Sys.fresh_init rfl) he, hs, hcfg, hused, hcharged⟩

/-- A grant of a window of two in ten is carried over to a window of five in eight. -/
theorem setLimits_carries_grant : ∃ h x x', scheduler.recording.Run Machine.anything h x ∧
    scheduler.step x (.setLimits ⟨[⟨5, 8, .any⟩], []⟩ [] 6) = some (x', .limited (.ok ()) 6) ∧
    debits h .global = [⟨0, 1, some 0⟩, ⟨5, 1, some 1⟩] ∧
    ∀ v ∈ x'.sched.globalWindows.windows, v.window ≤ 10 → v.used = totalWeight ((debits h .global).filter (fresh v.window 6)) := by
  have hg : (scheduler.recording.exec Machine.anything [] (.fresh [(2, 10)]) (refundRun.dropLast)).bind
      (fun r => (scheduler.step r.2 (.setLimits ⟨[⟨5, 8, .any⟩], []⟩ [] 6)).map fun q =>
        (r.2.sched.configured .global, debits r.1 .global,
          q.2.limitedAt 6)) =
        some ([(2, 10)], [⟨0, 1, some 0⟩, ⟨5, 1, some 1⟩], true) := by decide
  rw [Option.bind_eq_some_iff] at hg
  obtain ⟨⟨h, x⟩, he, hg⟩ := hg
  rw [Option.map_eq_some_iff] at hg
  obtain ⟨⟨x', e⟩, hs, hg⟩ := hg
  simp only [Prod.mk.injEq] at hg
  obtain ⟨hcfg, hdebits, hevent⟩ := hg
  cases Event.eq_limited hevent
  have hi : scheduler.recording.init (Sys.fresh [(2, 10)]) := Sys.fresh_init rfl
  have hr := Machine.run_of_exec (.start hi) he
  refine ⟨h, x, x', hr, hs, hdebits, fun v hv hle => ?_⟩
  obtain ⟨-, hok, -⟩ := setLimits_carries hr hs
  obtain ⟨hcarried, -⟩ := hok rfl
  exact (hcarried .global _ rfl rfl v hv ⟨(2, 10), by rw [hcfg]; exact List.mem_singleton_self _, hle⟩).2

end Teloxide.Outbound
