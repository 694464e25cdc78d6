import Teloxide.Outbound.Scheduler.Penalty

/-!
# Penalties over a run

The penalties of a scope act as the latest deadline that has been registered for it.
An observer notes each deadline as it is registered, and each grant.

* `step_latest`: a step keeps the penalty in force the latest of the deadlines noted.
* `penalties_hold`: no grant before a deadline registered earlier, on every run.
-/
namespace Teloxide.Outbound

open Teloxide.Core SchedulerState

/-- What the observer notes. -/
inductive Sight where
  | penalty (scope : OutboundScope) (deadline : Nat)
  | granted (scope : OutboundScope) (now : Nat)
  deriving DecidableEq

/-- A penalty counts from the moment at which its error was observed. One of no length
registers nothing, and has no say unless it was observed in the future.
mirrors scheduler.rs:2203-2207 -/
def completionSights (s : SchedulerState) (job : JobId) (completion : OutboundCompletion) (now observedAt : Nat) :
    List Sight :=
  match completion with
  | .retryAfter scope duration =>
    if s.inFlight.contains job = true ∧ (duration ≠ 0 ∨ observedAt ≤ now) then [.penalty scope (observedAt + duration)]
    else []
  | .success | .failed | .cancelledAfterGrant | .noRequest => []

def sights (x : Sys) (a : Action) (_ : Sys) : List Sight :=
  match a with
  | .penalize scope deadline _ => [.penalty scope deadline]
  | .complete job completion now observedAt => completionSights x.sched job completion now observedAt
  | .turn now =>
    match x.sched.turn now with
    | some (_, .granted _ metadata _) => [.granted metadata.scope now]
    | _ => []
  | _ => []

/-- The deadlines noted for a scope. -/
def registered : List Sight → OutboundScope → List Nat
  | [], _ => []
  | .penalty scope deadline :: h, scope' => if scope = scope' then deadline :: registered h scope' else registered h scope'
  | .granted _ _ :: h, scope' => registered h scope'

theorem registered_penalty (scope scope' : OutboundScope) (d : Nat) (h : List Sight) :
    registered (.penalty scope d :: h) scope' = if scope = scope' then d :: registered h scope' else registered h scope' := by
  conv_lhs => unfold registered

/-- The scheduler and the observer. -/
def observedScheduler : Machine Sys Action (List Sight) := scheduler.observing sights

/-- The latest of the deadlines that lie ahead. -/
def latest (deadlines : List Nat) (t : Nat) : Option Nat := (deadlines.filter (t < ·)).max?

theorem latest_cons (d : Nat) (deadlines : List Nat) (t : Nat) :
    latest (d :: deadlines) t = if t < d then some ((latest deadlines t).elim d (max d)) else latest deadlines t := by
  unfold latest
  rw [List.filter_cons]
  split
  · rename_i h
    rw [if_pos (by simpa using h), List.max?_cons]
  · rename_i h
    rw [if_neg (by simpa using h)]

/-- The penalty in force is the latest of the deadlines noted. -/
structure Latest (h : List Sight) (x : Sys) : Prop where
  latest : ∀ scope t, x.clock ≤ t → x.sched.activePenalty (.ofScope scope) t = latest (registered h scope) t
  held : ∀ h₂ scope t h₁, h = h₂ ++ .granted scope t :: h₁ → ∀ penalty : OutboundScope, penalty.covers scope = true →
    ∀ d ∈ registered h₁ penalty, d ≤ t

theorem activePenalty_of_eq {s s' : SchedulerState} (h : s'.penalties = s.penalties) (key : PenaltyKey) (t : Nat) :
    s'.activePenalty key t = s.activePenalty key t := by
  unfold activePenalty
  rw [h]

theorem PenaltyKey.ofScope_inj {a b : OutboundScope} : PenaltyKey.ofScope a = .ofScope b ↔ a = b := by
  cases a <;> cases b <;> simp [PenaltyKey.ofScope]

/-- A registered deadline counts beside those before it. -/
theorem activePenalty_penalize (s : SchedulerState) (scope : OutboundScope) (d : Nat) (scope' : OutboundScope) (t : Nat) :
    (s.penalize scope d).activePenalty (.ofScope scope') t =
      if scope = scope' ∧ t < d then some ((s.activePenalty (.ofScope scope') t).elim d (max d))
      else s.activePenalty (.ofScope scope') t := by
  unfold activePenalty
  rw [penalize_lookup]
  by_cases hs : scope = scope'
  · subst hs
    rw [if_pos rfl]
    cases hl : s.penalties.lookup (.ofScope scope) with
    | none =>
      by_cases hd : t < d
      · simp [Option.filter_some, hd]
      · simp [Option.filter_some, hd]
    | some old =>
      by_cases hd : t < d
      · by_cases ho : t < old
        · simp [Option.filter_some, hd, ho, Nat.max_comm]
        · have hm : max old d = d := by omega
          simp [Option.filter_some, hd, ho, hm]
      · by_cases ho : t < old
        · have hm : max old d = old := by omega
          simp [Option.filter_some, hd, ho, hm]
        · simp [Option.filter_some, hd, ho]
  · rw [if_neg fun h => hs (PenaltyKey.ofScope_inj.1 h).symm, if_neg fun h => hs h.1]

namespace Latest

variable {h : List Sight} {x x' : Sys}

/-- A step that notes nothing. -/
theorem of_same (hl : Latest h x) (hle : x.clock ≤ x'.clock)
    (hp : ∀ key t, x'.clock ≤ t → x'.sched.activePenalty key t = x.sched.activePenalty key t) : Latest h x' where
  latest scope t ht := by
    rw [hp _ _ ht]
    exact hl.latest scope t (Nat.le_trans hle ht)
  held := hl.held

/-- The deadline of a penalty is noted. -/
theorem of_penalty (hl : Latest h x) (hle : x.clock ≤ x'.clock) {scope : OutboundScope} {d : Nat}
    (hp : ∀ scope' t, x'.clock ≤ t → x'.sched.activePenalty (.ofScope scope') t =
      if scope = scope' ∧ t < d then some ((x.sched.activePenalty (.ofScope scope') t).elim d (max d))
      else x.sched.activePenalty (.ofScope scope') t) : Latest (.penalty scope d :: h) x' where
  latest scope' t ht := by
    rw [hp scope' t ht, hl.latest scope' t (Nat.le_trans hle ht)]
    rw [registered_penalty]
    by_cases hs : scope = scope'
    · rw [if_pos hs, latest_cons]
      by_cases hd : t < d
      · rw [if_pos ⟨hs, hd⟩, if_pos hd]
      · rw [if_neg fun h => hd h.2, if_neg hd]
    · rw [if_neg fun h => hs h.1, if_neg hs]
  held h₂ scope' t h₁ he := by
    cases h₂ with
    | nil => cases he
    | cons sight h₂ =>
      obtain ⟨-, he⟩ := List.cons.inj he
      exact hl.held h₂ scope' t h₁ he

/-- A grant is noted, of a request that no penalty in force covers. -/
theorem of_granted (hl : Latest h x) (hle : x.clock ≤ x'.clock) (hp : x'.sched.penalties = x.sched.penalties)
    {scope : OutboundScope} {now : Nat} (hnow : x.clock ≤ now)
    (hg : ∀ penalty : OutboundScope, penalty.covers scope = true → x.sched.activePenalty (.ofScope penalty) now = none) :
    Latest (.granted scope now :: h) x' where
  latest scope' t ht := by
    rw [activePenalty_of_eq hp]
    exact hl.latest scope' t (Nat.le_trans hle ht)
  held h₂ scope' t h₁ he := by
    cases h₂ with
    | nil =>
      cases he
      intro penalty hc d hd
      have hnone := hg penalty hc
      rw [hl.latest penalty now hnow, Teloxide.Outbound.latest, List.max?_eq_none_iff, List.filter_eq_nil_iff] at hnone
      simpa using hnone d hd
    | cons sight h₂ =>
      obtain ⟨-, he⟩ := List.cons.inj he
      exact hl.held h₂ scope' t h₁ he

theorem init (hi : scheduler.init x) : Latest [] x where
  latest scope t _ := by
    obtain ⟨-, limits, classLimits, aging, hs⟩ := hi
    rw [newWithClassLimits_ok hs]
    rfl
  held h₂ scope t h₁ he := by simp at he

end Latest

/-! ## Steps -/

/-- No penalty in force covers what is granted. -/
theorem turn_activePenalty {s s' : SchedulerState} {now t : Nat} {g : Grant} {metadata : OutboundMeta}
    (h : s.turn now = some (s', .granted g metadata t)) {penalty : OutboundScope}
    (hc : penalty.covers metadata.scope = true) : s.activePenalty (.ofScope penalty) now = none := by
  have hk := turn_keepsMetadata h
  have hu := turn_unpenalised h g List.mem_cons_self
  obtain ⟨job, hj, hw⟩ := hu
  cases turn_cases h with
  | @granted s₁ s₂ c job₁ hp hj₁ ha =>
    obtain ⟨job₀, hj₀, hm⟩ := (Stays.of_moves (popTurn_quiet hp).toMoves).keepsMetadata _ _ hj₁
    have he : job = job₀ := Option.some.inj (hj.symm.trans hj₀)
    rw [hm, ← he] at hc
    obtain ⟨w, hmem, hkey⟩ := OutboundScope.covers_window hc job.metadata.cls
    have hnone := hw w hmem
    unfold penaltyOn at hnone
    rwa [hkey, Option.bind_some] at hnone

/-- The completion of a permit registers a penalty of some length. -/
theorem SchedulerState.complete_penalties (s : SchedulerState) (job : JobId) (completion : OutboundCompletion) (now observedAt : Nat) :
    (s.complete job completion now observedAt).penalties =
      match completion with
      | .retryAfter scope duration =>
        if s.inFlight.contains job = true ∧ duration ≠ 0 then (s.penalize scope (observedAt + duration)).penalties
        else s.penalties
      | _ => s.penalties := by
  cases hp : s.inFlight.lookup job with
  | none =>
    have hno : s.inFlight.contains job = false := by rw [Table.contains, hp]; rfl
    unfold complete
    rw [hp]
    cases completion <;> simp [hno]
  | some permit =>
    have hyes : s.inFlight.contains job = true := by rw [Table.contains, hp]; rfl
    obtain ⟨s₁, s₂, hf, hq, hc⟩ := complete_settles hp completion now observedAt
    have hsame : s₂.penalties = s.penalties := hq.penalties.trans hf.penalties
    rw [hc]
    unfold settleCompletion
    cases completion with
    | noRequest =>
      dsimp only
      have hr := refundWindows_penalties now permit.weight job (windowsOf permit.scope permit.cls) s₂
      generalize refundWindows now permit.weight job (windowsOf permit.scope permit.cls) s₂ = r at hr ⊢
      exact ((Quiet.foldl (fun s w => rearmReservationOwner_quiet now s w) r.2 r.1).penalties.trans hr).trans hsame
    | retryAfter scope duration =>
      dsimp only
      by_cases hd : duration = 0
      · rw [if_pos hd, if_neg fun h => h.2 hd, hsame]
      · rw [if_neg hd, if_pos ⟨hyes, hd⟩]
        unfold penalize
        dsimp only
        rw [hsame]
    | success | failed | cancelledAfterGrant => exact hsame

theorem Latest.of_completed {h : List Sight} {x x' : Sys} (hl : Latest h x) (hle : x.clock ≤ x'.clock) {job : JobId}
    {completion : OutboundCompletion} {observedAt : Nat}
    (hx : x'.sched = x.sched.complete job completion x'.clock observedAt) :
    Latest ((completionSights x.sched job completion x'.clock observedAt).reverse ++ h) x' := by
  have hp := x.sched.complete_penalties job completion x'.clock observedAt
  rw [← hx] at hp
  unfold completionSights
  cases completion with
  | retryAfter scope duration =>
    dsimp only at hp ⊢
    by_cases hc : x.sched.inFlight.contains job = true
    · by_cases hd : duration = 0
      · rw [if_neg fun h => h.2 hd] at hp
        split
        · rename_i hcond
          have hpast : observedAt + duration ≤ x'.clock := by omega
          refine hl.of_penalty hle fun scope' t ht => ?_
          rw [activePenalty_of_eq hp, if_neg]
          omega
        · exact hl.of_same hle fun key t _ => activePenalty_of_eq hp key t
      · rw [if_pos ⟨hc, hd⟩] at hp
        rw [if_pos ⟨hc, .inl hd⟩]
        refine hl.of_penalty hle fun scope' t _ => ?_
        rw [activePenalty_of_eq hp]
        exact activePenalty_penalize x.sched scope _ scope' t
    · rw [if_neg fun h => hc h.1] at hp
      rw [if_neg fun h => hc h.1]
      exact hl.of_same hle fun key t _ => activePenalty_of_eq hp key t
  | success | failed | cancelledAfterGrant | noRequest =>
    exact hl.of_same hle fun key t _ => activePenalty_of_eq hp key t

/-- A step keeps the penalty in force the latest of the deadlines noted. -/
theorem step_latest {h : List Sight} {x x' : Sys} {a : Action} {e : Event} (hl : Latest h x)
    (hs : scheduler.step x a = some (x', e)) : Latest ((sights x a x').reverse ++ h) x' := by
  cases step_steps hs with
  | began _ hle hb => exact hl.of_same hle fun key t _ => activePenalty_of_eq (congrArg (·.2) (beginPass_accounts hb)) key t
  | @turn now s' e _ hle ht =>
    have hp := turn_penalties ht
    unfold sights
    dsimp only
    rw [ht]
    cases turn_cases ht with
    | skipped => exact hl.of_same hle fun key t _ => activePenalty_of_eq hp key t
    | held => exact hl.of_same hle fun key t _ => activePenalty_of_eq hp key t
    | granted => exact hl.of_granted hle hp hle fun penalty hc => turn_activePenalty ht hc
  | @ended now _ hle _ =>
    refine hl.of_same hle fun key t ht => ?_
    have ht : now ≤ t := ht
    show ((x.sched.penalties.filterMap _).lookup key).filter _ = _
    rw [Table.lookup_filterMap]
    unfold activePenalty
    cases x.sched.penalties.lookup key with
    | none => rfl
    | some d =>
      by_cases hd : now < d
      · simp [hd]
      · have hdt : ¬ t < d := by omega
        simp [Option.filter_some, hd, hdt]
  | @call a s' e _ hle hc =>
    cases a with
    | enqueue metadata options =>
      have hp : _ = x.sched.penalties := congrArg (·.2) (x.sched.enqueue_accounts metadata options)
      refine hl.of_same hle fun key t _ => activePenalty_of_eq ?_ key t
      simp only [call] at hc
      split at hc
      · rename_i hq
        rw [hq] at hp
        split at hc
        · cases hc
          exact hp
        · cases hc
      · rename_i hq
        rw [hq] at hp
        cases hc
        exact hp
    | cancel job now =>
      cases hc
      exact hl.of_same hle fun key t _ => activePenalty_of_eq (congrArg (·.2) (x.sched.cancel_accounts job now)) key t
    | start job now =>
      cases hc
      exact hl.of_same hle fun key t _ => activePenalty_of_eq (congrArg (·.2) (x.sched.start_accounts job now)) key t
    | complete job completion now observedAt =>
      cases hc
      have hx : Sys.sched ⟨x.sched.complete job completion now observedAt, now, none⟩ =
          x.sched.complete job completion now observedAt := rfl
      exact hl.of_completed hle hx
    | penalize scope d now =>
      cases hc
      exact hl.of_penalty hle fun scope' t _ => activePenalty_penalize x.sched scope d scope' t
    | setLimits limits order now =>
      simp only [call] at hc
      split at hc
      · cases hc
        exact hl.of_same hle fun key t _ => activePenalty_of_eq (setLimits_penalties _ _ _ _) key t
      · cases hc
    | setClassLimits limits order now =>
      simp only [call] at hc
      split at hc
      · cases hc
        exact hl.of_same hle fun key t _ => activePenalty_of_eq (setClassLimits_penalties _ _ _ _) key t
      · cases hc
    | nextDeadline now =>
      cases hc
      exact hl.of_same hle fun key t _ => activePenalty_of_eq (x.sched.nextDeadline_quiet now).penalties key t
    | beginPass | turn | endPass => cases hc

/-! ## Runs -/

theorem latest_run {τ : List (List Sight)} {x : Sys} (hr : observedScheduler.Run Machine.anything τ x) :
    Latest (Machine.history τ) x := by
  refine (Machine.Run.induct_observing (I := fun τ x => Latest (Machine.history τ) x) ?_ ?_ hr).2
  · exact fun x hi => .init hi
  · intro τ _ x a x' e _ hl _ hs
    rw [Machine.history_cons]
    exact step_latest hl hs

/-- No request is granted before a deadline that was registered earlier, for the global
scope or for its chat; and the penalty of a scope that is in force at any later instant
is the latest of all deadlines registered for it, whatever their order. -/
theorem penalties_hold {τ : List (List Sight)} {x : Sys} (hr : observedScheduler.Run Machine.anything τ x) :
    (∀ h₂ scope t h₁, Machine.history τ = h₂ ++ .granted scope t :: h₁ →
      ∀ penalty : OutboundScope, penalty.covers scope = true → ∀ d ∈ registered h₁ penalty, d ≤ t) ∧
    ∀ scope t, x.clock ≤ t →
      x.sched.activePenalty (.ofScope scope) t = ((registered (Machine.history τ) scope).filter (t < ·)).max? :=
  ⟨(latest_run hr).held, (latest_run hr).latest⟩

/-- A penalty of 50 ns seen at 1, and a shorter one reported after it. -/
def penalisedRun : List Action :=
  .enqueue (.plain 10 none) (.plain 0) :: Action.pass 0 [] 1 ++
    [.complete 0 (.retryAfter .global 50) 2 1, .penalize .global 20 2, .enqueue (.plain 10 none) (.plain 2)] ++
    Action.pass 3 [] 1 ++ Action.pass 51 [] 1

theorem penalties_hold_penalisedRun : ∃ τ x, observedScheduler.Run Machine.anything τ x ∧
    Machine.history τ = [.granted .global 51, .penalty .global 20, .penalty .global 51, .granted .global 0] ∧
    ∀ d ∈ registered [.penalty .global 20, .penalty .global 51, .granted .global 0] .global, d ≤ 51 := by
  have hg : (observedScheduler.exec Machine.anything [] (.fresh [(2, 10)]) penalisedRun).map
      (fun r => Machine.history r.1) =
        some [.granted .global 51, .penalty .global 20, .penalty .global 51, .granted .global 0] := by decide
  obtain ⟨⟨τ, x⟩, he, hg⟩ := Option.map_eq_some_iff.mp hg
  have hi : observedScheduler.init (.fresh [(2, 10)]) := Sys.fresh_init rfl
  have hr := Machine.run_of_exec (.start hi) he
  exact ⟨τ, x, hr, hg, (penalties_hold hr).1 [] .global 51 _ hg .global rfl⟩

end Teloxide.Outbound
