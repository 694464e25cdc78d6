import Teloxide.Outbound.Scheduler.Rate
import Teloxide.Outbound.Scheduler.Reference

/-!
# How long a window is held

A blocked candidate reserves the first window that has no room for it, until the
latest of all the instants it waits for: those of its other windows and the
penalties among them.

* `admission_bound`: what the deadline of a verdict is made of.
* `hold_exact_iff`: a new or longer hold ends when its window alone has room,
  exactly when nothing else makes the candidate wait longer than that.
-/
namespace Teloxide.Outbound

open Teloxide.Core

/-! ## A window on its own -/

namespace RollingWindow

/-- The events that have left the window put the bound off to no later than now. -/
theorem firstFit_expired {capacity window weight now : Nat} :
    ∀ {l : List WindowEvent} {used : Nat}, ¬ used + weight ≤ capacity →
      (firstFit capacity window weight used l).map (max now) =
        (if used - totalWeight (l.takeWhile (expired window now)) + weight ≤ capacity then some now
          else firstFit capacity window weight (used - totalWeight (l.takeWhile (expired window now)))
            (l.dropWhile (expired window now))).map (max now)
  | [], used, h => by simp [totalWeight, h]
  | e :: l, used, h => by
    by_cases he : expired window now e = true
    · have hle : e.instant + window ≤ now := by
        simp only [expired, Bool.and_eq_true, decide_eq_true_eq] at he
        omega
      have hw : totalWeight (e :: l.takeWhile (expired window now)) =
          e.weight + totalWeight (l.takeWhile (expired window now)) := by
        simp [totalWeight]
      rw [List.takeWhile_cons_of_pos he, List.dropWhile_cons_of_pos he, hw, ← Nat.sub_sub, firstFit]
      split
      · rename_i hfit
        rw [if_pos (by omega)]
        simp only [Option.map_some, Option.some.injEq]
        omega
      · rename_i hfit
        exact firstFit_expired hfit
    · rw [List.takeWhile_cons_of_neg he, List.dropWhile_cons_of_neg he]
      simp [totalWeight, h]

theorem earliestFor_prune (w : RollingWindow) (now weight : Nat) :
    ((w.prune now).earliestFor now weight).map (max now) = (w.earliestFor now weight).map (max now) := by
  unfold earliestFor
  by_cases h : w.used + weight ≤ w.capacity
  · have hp : (w.prune now).used + weight ≤ (w.prune now).capacity := by
      simp only [prune]
      omega
    rw [if_pos h, if_pos hp]
  · rw [if_neg h, firstFit_expired h]
    rfl

/-- Windows with the same bounds from `now` on. -/
def Alike (now weight : Nat) (w w' : RollingWindow) : Prop :=
  (w'.earliestFor now weight).map (max now) = (w.earliestFor now weight).map (max now)

end RollingWindow

namespace WindowSet

open RollingWindow

theorem earliestFor_alike {now weight : Nat} {l l' : List RollingWindow} (h : List.Forall₂ (Alike now weight) l l') :
    ∀ {acc : Nat}, now ≤ acc → l'.foldlM (fun acc w => (w.earliestFor now weight).map (max acc)) acc =
      l.foldlM (fun acc w => (w.earliestFor now weight).map (max acc)) acc := by
  induction h with
  | nil => exact fun _ => rfl
  | @cons w w' l l' hw _ ih =>
    intro acc hacc
    -- an accumulator that is not before `now` sees the same bound
    have hstep : ∀ o : Option Nat, o.map (max acc) = (o.map (max now)).map (max acc) := by
      intro o
      cases o with
      | none => rfl
      | some d =>
        simp only [Option.map_some, Option.some.injEq]
        omega
    rw [List.foldlM_cons, List.foldlM_cons, hstep, hw, ← hstep]
    cases w.earliestFor now weight with
    | none => rfl
    | some d => exact ih (by omega)

theorem allMut_alike {now weight : Nat} : ∀ l : List RollingWindow,
    List.Forall₂ (Alike now weight) l (allMut (·.canConsume now weight) l).1
  | [] => .nil
  | w :: l => by
    have hw : Alike now weight w (w.canConsume now weight).1 := w.earliestFor_prune now weight
    have hsame : ∀ l, List.Forall₂ (Alike now weight) l l := fun l => List.forall₂_same.2 fun _ _ => rfl
    unfold allMut
    split
    · rename_i v hv
      rw [hv] at hw
      exact .cons hw (hsame l)
    · rename_i v hv
      rw [hv] at hw
      exact .cons hw (allMut_alike l)

/-- A test for room leaves the bound on the set. -/
theorem earliestFor_canConsume (s : WindowSet) (now weight : Nat) :
    (s.canConsume now weight).1.earliestFor now weight = s.earliestFor now weight :=
  earliestFor_alike (allMut_alike s.windows) (Nat.le_refl now)

/-- A set with room has no bound but now. -/
theorem earliestFor_of_room {s : WindowSet} {now weight : Nat} (h : (s.canConsume now weight).2 = true) :
    s.earliestFor now weight = some now := by
  have hroom : ∀ w ∈ s.windows, (w.earliestFor now weight).map (max now) = some now := by
    intro w hw
    have hc : (w.canConsume now weight).2 = true := allMut_true h w hw
    have hfit : (w.prune now).used + weight ≤ (w.prune now).capacity := of_decide_eq_true hc
    rw [← w.earliestFor_prune, RollingWindow.earliestFor, if_pos hfit]
    simp
  unfold earliestFor
  generalize s.windows = l at hroom
  induction l with
  | nil => rfl
  | cons w l ih =>
    rw [List.foldlM_cons, hroom w List.mem_cons_self]
    exact ih fun w' hw' => hroom w' (List.mem_cons_of_mem _ hw')

end WindowSet

namespace SchedulerState

/-! ## The deadline of a verdict -/

/-- The instant from which the window alone has room for the candidate. -/
def alone (s : SchedulerState) (c : Candidate) (now : Nat) (window : WindowRef) : Option Nat :=
  (s.ensuredSet window).bind (·.earliestFor now c.weight.val)

/-- The penalty in force that goes with the window. -/
def penaltyOn (s : SchedulerState) (now : Nat) (window : WindowRef) : Option Nat :=
  (penaltyKeyOf window).bind (s.activePenalty · now)

/-- The instants the candidate waits for apart from the window itself: the
penalties on it and its other windows. -/
def restraints (s : SchedulerState) (c : Candidate) (now : Nat) (window : WindowRef) : List Nat :=
  (s.applicableWindows c).flatMap fun w =>
    (s.penaltyOn now w).toList ++ if w = window then [] else (s.alone c now w).toList

theorem withPenalty_deadline (s : SchedulerState) (now : Nat) (window : WindowRef) (v : Verdict) (D : Nat) :
    (s.withPenalty now window v).deadline ≤ D ↔ v.deadline ≤ D ∧ ∀ d ∈ s.penaltyOn now window, d ≤ D := by
  unfold withPenalty penaltyOn
  cases (penaltyKeyOf window).bind (s.activePenalty · now) with
  | none => simp
  | some d => simp

theorem withPenalty_reserve (s : SchedulerState) (now : Nat) (window : WindowRef) (v : Verdict) :
    (s.withPenalty now window v).reserve = v.reserve := by
  unfold withPenalty
  split <;> rfl

/-- What the check of one window adds to the verdict. -/
structure Adds (s : SchedulerState) (c : Candidate) (now : Nat) (window : WindowRef) (v v' : Verdict) : Prop where
  deadline : ∀ D, v'.deadline ≤ D ↔
    v.deadline ≤ D ∧ (∀ d ∈ s.penaltyOn now window, d ≤ D) ∧ ∀ d ∈ s.alone c now window, d ≤ D
  reserve : v'.reserve = v.reserve ∨ v'.reserve = some window ∧ ∃ d, s.alone c now window = some d

theorem checkWindow_adds {s : SchedulerState} {c : Candidate} {now : Nat} {window : WindowRef} {v v' : Verdict}
    (hn : now ≤ v.deadline) (h : (s.checkWindow now c.weight.val window v).2 = some v') :
    Adds s c now window v v' := by
  have hp := s.withPenalty_deadline now window v
  have hr := s.withPenalty_reserve now window v
  unfold checkWindow at h
  dsimp only at h
  cases hs : s.ensuredSet window with
  | none =>
    have ha : s.alone c now window = none := by simp [alone, hs]
    rw [hs] at h
    cases h
    refine ⟨fun D => ?_, Or.inl hr⟩
    rw [hp, ha]
    simp
  | some set =>
    have ha : s.alone c now window = set.earliestFor now c.weight.val := by simp [alone, hs]
    rw [hs] at h
    dsimp only at h
    split at h
    · rename_i hroom
      cases h
      refine ⟨fun D => ?_, Or.inl hr⟩
      rw [hp, ha, WindowSet.earliestFor_of_room hroom]
      simp only [Option.mem_def, Option.some.injEq]
      constructor
      · rintro ⟨hD, hpen⟩
        exact ⟨hD, hpen, fun d hd => by omega⟩
      · rintro ⟨hD, hpen, -⟩
        exact ⟨hD, hpen⟩
    · rw [Option.map_eq_some_iff] at h
      obtain ⟨deadline, hd, rfl⟩ := h
      rw [WindowSet.earliestFor_canConsume] at hd
      refine ⟨fun D => ?_, ?_⟩
      · rw [ha, hd]
        simp only [Nat.max_le, hp, Option.mem_def, Option.some.injEq, forall_eq']
        exact and_assoc
      · dsimp only
        rw [hr]
        cases v.reserve with
        | some w => exact Or.inl rfl
        | none => exact Or.inr ⟨rfl, deadline, ha.trans hd⟩

theorem checkWindow_ensuredSet (s : SchedulerState) (now weight : Nat) {window w : WindowRef} (hw : w ≠ window)
    (v : Verdict) : (s.checkWindow now weight window v).1.ensuredSet w = s.ensuredSet w := by
  unfold checkWindow
  dsimp only
  cases hs : s.ensuredSet window with
  | none => rfl
  | some set =>
    dsimp only
    split <;> rw [ensuredSet_storeSet (Or.inr hs), if_neg hw]

theorem checkWindow_penaltyOn (s : SchedulerState) (now weight : Nat) (window : WindowRef) (v : Verdict) :
    (s.checkWindow now weight window v).1.penaltyOn = s.penaltyOn := by
  have hstore (s : SchedulerState) (set : WindowSet) : (s.storeSet window set).penaltyOn = s.penaltyOn := by
    cases window <;> rfl
  unfold checkWindow
  dsimp only
  split
  · rfl
  · split <;> exact hstore _ _

/-- What the checks of several windows add up to. -/
theorem checkWindows_bound {c : Candidate} {now : Nat} :
    ∀ {windows : List WindowRef} {s : SchedulerState} {v v' : Verdict}, windows.Nodup → now ≤ v.deadline →
      (checkWindows now c.weight.val windows s v).2 = some v' →
      (∀ D, v'.deadline ≤ D ↔ v.deadline ≤ D ∧ ∀ w ∈ windows,
        (∀ d ∈ s.penaltyOn now w, d ≤ D) ∧ ∀ d ∈ s.alone c now w, d ≤ D) ∧
      (v'.reserve = v.reserve ∨ ∃ w ∈ windows, v'.reserve = some w ∧ ∃ d, s.alone c now w = some d)
  | [], s, v, v', _, _, h => by
    cases h
    simp
  | window :: windows, s, v, v', hnd, hn, h => by
    rw [List.nodup_cons] at hnd
    unfold checkWindows at h
    have hsame := fun w (hw : w ∈ windows) => s.checkWindow_ensuredSet now c.weight.val
      (fun he => hnd.1 (he ▸ hw) : w ≠ window) v
    have hpen := s.checkWindow_penaltyOn now c.weight.val window v
    have hadds := @checkWindow_adds s c now window v
    cases hc : s.checkWindow now c.weight.val window v with
    | mk s₁ o =>
      rw [hc] at h hsame hpen hadds
      cases o with
      | none => cases h
      | some v₁ =>
        obtain ⟨hd, hr⟩ := hadds hn rfl
        have halone : ∀ w ∈ windows, s₁.alone c now w = s.alone c now w := by
          intro w hw
          unfold alone
          rw [hsame w hw]
        have hn₁ : now ≤ v₁.deadline := Nat.le_trans hn ((hd _).1 (Nat.le_refl _)).1
        obtain ⟨hd₁, hr₁⟩ := checkWindows_bound hnd.2 hn₁ h
        refine ⟨fun D => ?_, ?_⟩
        · rw [hd₁, hd, hpen, List.forall_mem_cons]
          constructor
          · rintro ⟨⟨hv, hp, ha⟩, hrest⟩
            exact ⟨hv, ⟨hp, ha⟩, fun w hw => halone w hw ▸ hrest w hw⟩
          · rintro ⟨hv, ⟨hp, ha⟩, hrest⟩
            exact ⟨⟨hv, hp, ha⟩, fun w hw => (halone w hw).symm ▸ hrest w hw⟩
        · rcases hr₁ with hr₁ | ⟨w, hw, hr₁, d, hd⟩
          · rw [hr₁]
            rcases hr with hr | ⟨hr, d, hd⟩
            · exact Or.inl hr
            · exact Or.inr ⟨window, List.mem_cons_self, hr, d, hd⟩
          · exact Or.inr ⟨w, List.mem_cons_of_mem _ hw, hr₁, d, halone w hw ▸ hd⟩

/-- The windows of a candidate are gone through once each. -/
theorem applicableWindows_nodup (s : SchedulerState) (c : Candidate) : (s.applicableWindows c).Nodup := by
  unfold applicableWindows windowsOf
  split
  · simp
  · split <;> simp

/-- A blocked candidate waits for all its windows and penalties, and reserves
one of the windows. -/
theorem admission_bound {s : SchedulerState} {c : Candidate} {now deadline : Nat} {reserve : Option WindowRef}
    (h : (s.admission c now).2 = .blocked deadline reserve) :
    (∀ D, deadline ≤ D ↔ now ≤ D ∧ ∀ w ∈ s.applicableWindows c,
      (∀ d ∈ s.penaltyOn now w, d ≤ D) ∧ ∀ d ∈ s.alone c now w, d ≤ D) ∧
    ∀ w, reserve = some w → w ∈ s.applicableWindows c ∧ ∃ d, s.alone c now w = some d := by
  have hb := @checkWindows_bound c now (s.applicableWindows c) (s.check (s.live c.job)) ⟨now, none⟩
  unfold admission at h
  split at h
  · cases h
  · cases hc : checkWindows now c.weight.val (s.applicableWindows c) (s.check (s.live c.job)) ⟨now, none⟩ with
    | mk s₁ o =>
      rw [hc] at h hb
      cases o with
      | none => cases h
      | some v =>
        dsimp only at h
        split at h
        · cases h
          obtain ⟨hd, hr⟩ := hb (s.applicableWindows_nodup c) (Nat.le_refl now) rfl
          refine ⟨hd, fun w hw => ?_⟩
          rcases hr with hr | ⟨w', hw', hr, hd'⟩
          · rw [hr] at hw
            cases hw
          · rw [hr] at hw
            cases hw
            exact ⟨hw', hd'⟩
        · cases h

/-! ## The holds -/

/-- The instant at which the hold of a window ends. -/
def hold (s : SchedulerState) (window : WindowRef) : Option Nat := (s.reservations.lookup window).map (·.deadline)

theorem hold_of_lookup {s s' : SchedulerState} {window : WindowRef}
    (h : s'.reservations.lookup window = s.reservations.lookup window) : s'.hold window = s.hold window := by
  unfold hold
  rw [h]

theorem scheduleAging_reservations (s : SchedulerState) (reference : CandidateRef) (keyed base readyAt : Nat) :
    (s.scheduleAging reference keyed base readyAt).reservations = s.reservations := by
  obtain ⟨events, p, h⟩ := s.scheduleAging_eq reference keyed base readyAt
  rw [h]

theorem pushJobCandidate_reservations (s : SchedulerState) (id : JobId) (now : Nat) :
    (s.pushJobCandidate id now).reservations = s.reservations := by
  unfold pushJobCandidate
  split
  · rfl
  · exact scheduleAging_reservations _ _ _ _ _

theorem pushLaneHeadCandidate_reservations (s : SchedulerState) (lane : OutboundLaneKey) (now : Nat) :
    (s.pushLaneHeadCandidate lane now).reservations = s.reservations := by
  have h := s.pushLaneHeadCandidate_cases lane now
  generalize s.pushLaneHeadCandidate lane now = s' at h ⊢
  cases h with
  | absent | full | asleep | dropped | drained => rfl
  | pushed => exact scheduleAging_reservations _ _ _ _ _

theorem pushReference_reservations (s : SchedulerState) (reference : CandidateRef) (now : Nat) :
    (s.pushReference reference now).reservations = s.reservations := by
  cases reference with
  | job id => exact s.pushJobCandidate_reservations id now
  | lane key => exact s.pushLaneHeadCandidate_reservations key now

theorem Popped.reservations {s s' : SchedulerState} {now : Nat} {c : Candidate} (h : Popped s now s' c) :
    s'.reservations = s.reservations := by
  cases h <;> rfl

theorem admission_reservations (s : SchedulerState) (c : Candidate) (now : Nat) :
    (s.admission c now).1.reservations = s.reservations := by
  obtain ⟨g, cs, cg, cc, p, h⟩ := s.admission_eq c now
  rw [h]

theorem wakeParked_reservations (s : SchedulerState) (window : WindowRef) (now : Nat) (reference : CandidateRef) :
    (s.wakeParked window now reference).reservations = s.reservations := by
  unfold wakeParked
  split <;> exact pushReference_reservations _ _ _

/-- A release ends one hold, if any. -/
theorem releaseReservation_reservations (s : SchedulerState) (window : WindowRef) (owner : CandidateRef)
    (now : Nat) : (s.releaseReservation window owner now).reservations = s.reservations ∨
      (s.releaseReservation window owner now).reservations = s.reservations.erase window := by
  have hall (l : List CandidateRef) : ∀ s : SchedulerState,
      (l.foldl (fun s reference => s.wakeParked window now reference) s).reservations = s.reservations := by
    induction l with
    | nil => exact fun _ => rfl
    | cons r l ih => exact fun s => (ih _).trans (s.wakeParked_reservations window now r)
  unfold releaseReservation
  split
  · exact Or.inl rfl
  · split
    · exact Or.inr (hall _ _)
    · exact Or.inl rfl

theorem blockCandidate_reservations (s : SchedulerState) (c : Candidate) (deadline : Nat) (permanent : Bool) :
    (s.blockCandidate c deadline permanent).reservations = s.reservations := by
  unfold blockCandidate
  split
  · rfl
  · split
    · rfl
    · split <;> rfl

/-- The hold a candidate goes on waiting for is not released. -/
theorem releasePreviousReservationIfChanged_lookup (s : SchedulerState) (c : Candidate) (window : WindowRef)
    (now : Nat) : (s.releasePreviousReservationIfChanged c (some window) now).reservations.lookup window =
      s.reservations.lookup window := by
  unfold releasePreviousReservationIfChanged
  split
  · rfl
  · rename_i previous _
    split
    · rfl
    · rename_i hne
      have hw : window ≠ previous := fun he => hne (congrArg some he)
      rcases s.releaseReservation_reservations previous (s.referenceOf c) now with h | h
      · exact congrArg (·.lookup window) h
      · refine (congrArg (·.lookup window) h).trans ?_
        rw [Table.lookup_erase_if, if_neg hw]

/-- A new or longer hold has the deadline of the verdict. -/
theorem reserveWindow_hold (s : SchedulerState) (c : Candidate) (window : WindowRef) (deadline : Nat) :
    (s.reserveWindow c window deadline).hold window = some deadline ∨
      (s.reserveWindow c window deadline).hold window = s.hold window := by
  unfold reserveWindow hold
  cases hr : s.reservations.lookup window with
  | none => simp
  | some r =>
    dsimp only [Option.getD_some]
    split
    · simp
    · simp

theorem settle_hold (s : SchedulerState) (c : Candidate) (now deadline : Nat) (window : WindowRef) :
    (s.settle c now (.blocked deadline (some window))).hold window = some deadline ∨
      (s.settle c now (.blocked deadline (some window))).hold window = s.hold window := by
  have h := (s.releasePreviousReservationIfChanged c (some window) now).reserveWindow_hold c window deadline
  rw [hold_of_lookup (s.releasePreviousReservationIfChanged_lookup c window now)] at h
  have hblock : (s.settle c now (.blocked deadline (some window))).reservations =
      ((s.releasePreviousReservationIfChanged c (some window) now).reserveWindow c window deadline).reservations :=
    blockCandidate_reservations _ _ _ _
  rw [hold_of_lookup (congrArg (AList.lookup window) hblock)]
  exact h

/-- What the deadline of a verdict is made of, before and after the pop. -/
theorem Popped.waits {s s₁ : SchedulerState} {now : Nat} {c : Candidate} (h : Popped s now s₁ c) :
    s₁.applicableWindows c = s.applicableWindows c ∧ s₁.penaltyOn = s.penaltyOn ∧ s₁.alone = s.alone := by
  refine ⟨?_, ?_, ?_⟩
  · unfold applicableWindows
    cases hj : s.jobs.lookup c.job with
    | none =>
      have hn : s₁.jobs.lookup c.job = none := by simpa [hj] using h.quiet.jobs c.job
      rw [hn]
    | some job =>
      obtain ⟨job₁, hj₁, hcore⟩ := h.quiet.toMoves.job' hj
      have hm : job₁.metadata = job.metadata := congrArg (·.1) (Job.slot_of_core hcore)
      rw [hj₁]
      simp only [hm]
  · cases h <;> rfl
  · have hr := ensuredSet_of_rates h.quiet.rates
    unfold alone
    rw [hr]

/-- Nothing makes the candidate wait longer than the window itself. -/
def Unrestrained (s : SchedulerState) (c : Candidate) (now : Nat) (window : WindowRef) : Prop :=
  ∀ d ∈ s.restraints c now window, ∀ e ∈ s.alone c now window, d ≤ e

/-- A deadline is that of the window that is reserved exactly when nothing else
lasts longer. -/
theorem deadline_alone_iff {s : SchedulerState} {c : Candidate} {now deadline : Nat} {window : WindowRef}
    (h : (s.admission c now).2 = .blocked deadline (some window)) :
    some deadline = s.alone c now window ↔ s.Unrestrained c now window := by
  obtain ⟨hb, hr⟩ := admission_bound h
  obtain ⟨hw, e, he⟩ := hr window rfl
  obtain ⟨-, hall⟩ := (hb deadline).1 (Nat.le_refl _)
  have hlow : e ≤ deadline := (hall window hw).2 e he
  unfold Unrestrained
  rw [he]
  simp only [Option.some.injEq, Option.mem_def, forall_eq', restraints, List.mem_flatMap, List.mem_append]
  constructor
  · rintro rfl d ⟨w, hw', hd⟩
    rcases hd with hd | hd
    · exact (hall w hw').1 d (Option.mem_toList.1 hd)
    · split at hd
      · cases hd
      · exact (hall w hw').2 d (Option.mem_toList.1 hd)
  · intro hrest
    have hnow : now ≤ e := by
      obtain ⟨set, hset, hearl⟩ := Option.bind_eq_some_iff.1 he
      exact (WindowSet.earliestFor_le hearl).1
    have hle : deadline ≤ e := by
      refine (hb e).2 ⟨hnow, fun w hw' => ⟨fun d hd => ?_, fun d hd => ?_⟩⟩
      · exact hrest d ⟨w, hw', Or.inl (Option.mem_toList.2 hd)⟩
      · by_cases heq : w = window
        · subst heq
          rw [he] at hd
          cases hd
          exact Nat.le_refl _
        · refine hrest d ⟨w, hw', Or.inr ?_⟩
          rw [if_neg heq]
          exact Option.mem_toList.2 hd
    exact Nat.le_antisymm hle hlow

end SchedulerState

open SchedulerState

/-- At a visit in any run, a new or longer hold lasts until its window alone has
room for the candidate exactly when no penalty and no other window of the
candidate lasts longer. -/
theorem hold_exact_iff {τ : List Event} {x x' : Sys} (_ : Run Machine.anything τ x) {c : Candidate}
    {now deadline : Nat} {window : WindowRef}
    (hs : scheduler.step x (.turn now) = some (x', .held c (.blocked deadline (some window)) now))
    (hnew : x'.sched.hold window ≠ x.sched.hold window) :
    x'.sched.hold window = x.sched.alone c now window ↔ x.sched.Unrestrained c now window := by
  cases step_steps hs with
  | call _ _ hc => cases hc
  | turn _ _ ht =>
    cases turn_cases ht with
    | @held s₁ s₂ _ _ _ hp _ ha _ =>
      have hpop := popTurn_popped hp
      obtain ⟨happ, hpen, halone⟩ := hpop.waits
      have hiff := deadline_alone_iff (congrArg (·.2) ha)
      have hhold : s₂.hold window = x.sched.hold window := by
        have hadm := s₁.admission_reservations c now
        rw [ha] at hadm
        exact hold_of_lookup (congrArg (AList.lookup window) (hadm.trans hpop.reservations))
      have hsame : s₁.Unrestrained c now window ↔ x.sched.Unrestrained c now window := by
        unfold Unrestrained restraints
        rw [happ, hpen, halone]
      rcases s₂.settle_hold c now deadline window with h | h
      · rw [h, ← halone, hiff, hsame]
      · exact absurd (h.trans hhold) hnew

/-! ## Runs -/

/-- A visit that blocks a candidate on a window, with the hold of the window
before and after it. -/
structure BlockedVisit where
  candidate : Candidate
  deadline : Nat
  window : WindowRef
  now : Nat
  before : Option Nat
  after : Option Nat
  alone : Option Nat
  deriving DecidableEq

def blockedVisit (s s' : SchedulerState) : Event → Option BlockedVisit
  | .held c (.blocked deadline (some window)) now =>
    some ⟨c, deadline, window, now, s.hold window, s'.hold window, s.alone c now window⟩
  | _ => none

theorem blockedVisit_some {s s' : SchedulerState} {e : Event} {v : BlockedVisit}
    (h : blockedVisit s s' e = some v) :
    e = .held v.candidate (.blocked v.deadline (some v.window)) v.now ∧ s.hold v.window = v.before ∧
      s'.hold v.window = v.after ∧ s.alone v.candidate v.now v.window = v.alone := by
  unfold blockedVisit at h
  split at h
  · cases h
    exact ⟨rfl, rfl, rfl, rfl⟩
  · cases h

/-- The second request of a chat, the global window of one in one being full. -/
def fullRun (penalties : List Action) : List Action :=
  penalties ++ [.enqueue (.plain 10 none) (.plain 0)] ++ Action.pass 0 [] 1 ++
    [.enqueue ⟨.chat (.id 5), none, 0, 10, ⟨1, one_nonZero⟩⟩ (.plain 0), .beginPass [] 9 0]

/-- Its visit, in which it takes the global window. -/
def fullVisit (penalties : List Action) : Option BlockedVisit :=
  (scheduler.exec Machine.anything [] (.fresh [(1, 1)]) (fullRun penalties)).bind fun r =>
    (scheduler.step r.2 (.turn 0)).bind fun q => blockedVisit r.2.sched q.1.sched q.2

theorem fullVisit_some {penalties : List Action} {v : BlockedVisit} (h : fullVisit penalties = some v)
    (hn : v.now = 0) : ∃ τ x x', Run Machine.anything τ x ∧
      scheduler.step x (.turn 0) = some (x', .held v.candidate (.blocked v.deadline (some v.window)) 0) ∧
      x.sched.hold v.window = v.before ∧ x'.sched.hold v.window = v.after ∧
      x.sched.alone v.candidate 0 v.window = v.alone := by
  unfold fullVisit at h
  simp only [Option.bind_eq_some_iff] at h
  obtain ⟨⟨τ, x⟩, hx, ⟨x', e'⟩, hs, h⟩ := h
  obtain ⟨he, h₀, h₁, ha⟩ := blockedVisit_some h
  dsimp only at he
  rw [he, hn] at hs
  rw [hn] at ha
  exact ⟨τ, x, x', run_of_actions (Sys.fresh_init rfl) hx, hs, h₀, h₁, ha⟩

/-- The second request of that chat. -/
def secondRequest : Candidate := ⟨1, ⟨1, one_nonZero⟩, .chat (.id 5)⟩

theorem hold_exact_iff_fullRun : ∃ τ x x', Run Machine.anything τ x ∧
    scheduler.step x (.turn 0) = some (x', .held secondRequest (.blocked 1 (some .global)) 0) ∧
    x'.sched.hold .global = some 1 ∧ x.sched.Unrestrained secondRequest 0 .global := by
  have hv : fullVisit [] = some ⟨secondRequest, 1, .global, 0, none, some 1, some 1⟩ := by decide
  obtain ⟨τ, x, x', hr, hs, h₀, h₁, he⟩ := fullVisit_some hv rfl
  have hnew : x'.sched.hold .global ≠ x.sched.hold .global := by
    rw [h₀, h₁]
    simp
  exact ⟨τ, x, x', hr, hs, h₁, (hold_exact_iff hr hs hnew).1 (h₁.trans he.symm)⟩

/-- A penalty on the chat alone keeps the global window held until it ends. -/
theorem hold_outlasts_window : ∃ τ x x', Run Machine.anything τ x ∧
    scheduler.step x (.turn 0) = some (x', .held secondRequest (.blocked 100 (some .global)) 0) ∧
    x.sched.hold .global = none ∧ x'.sched.hold .global = some 100 ∧
    x.sched.alone secondRequest 0 .global = some 1 := by
  have hv : fullVisit [.penalize (.chat (.id 5)) 100 0] =
      some ⟨secondRequest, 100, .global, 0, none, some 100, some 1⟩ := by decide
  exact fullVisit_some hv rfl

end Teloxide.Outbound
