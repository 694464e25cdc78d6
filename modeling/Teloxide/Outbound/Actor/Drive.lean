import Teloxide.Outbound.Actor.Penalties
import Teloxide.Outbound.Scheduler.LaneBound

/-!
# The actor drives the scheduler

What the callers and the actor do, in any order, is for the scheduler a run of calls at
instants that do not go back. So what holds of every run of the scheduler holds of the
scheduler of every queue, and what it says of jobs is said of permits.

* `act_path`: a step of the actor is a path of the scheduler, and what each of them shows.
* `drives_run`: a run of the queue is one of its scheduler, with the same grants, the same
  completions and the requests that were sent.
* `serial_permits_apart`: no two permits of a serial lane are out at the same time.
-/
namespace Teloxide.Outbound.Actor

open Teloxide.Core SchedulerState

/-! ## What a run of the scheduler shows -/

/-- The completions of a run of the scheduler, newest first. -/
def finished : List Outbound.Event → List (JobId × OutboundCompletion)
  | [] => []
  | .completed job completion _ :: σ => (job, completion) :: finished σ
  | _ :: σ => finished σ

/-- The completions that the actor has applied, newest first. -/
def outcomes : List Event → List (JobId × OutboundCompletion)
  | [] => []
  | .applied job outcome _ :: τ => (job, outcome) :: outcomes τ
  | _ :: τ => outcomes τ

/-- The grants of the passes of the actor, newest first. -/
def admissions : List Event → List Grant
  | [] => []
  | .admitted grants _ :: τ => grants.reverse ++ admissions τ
  | _ :: τ => admissions τ

/-- The jobs that the actor has accepted, newest first. -/
def entrants : List Event → List JobId
  | [] => []
  | .accepted job _ _ :: τ => job :: entrants τ
  | _ :: τ => entrants τ

/-- The events of the scheduler at which no job enters, is granted or completed. -/
def hushed : Outbound.Event → Bool
  | .enqueued .. | .rejected .. | .granted .. | .completed .. => false
  | _ => true

/-- The events of a pass. -/
def passing : Outbound.Event → Bool
  | .began _ | .skipped _ | .granted .. | .held .. | .ended _ => true
  | _ => false

/-- The scheduler was asked this. -/
def Asks (metadata : OutboundMeta) (options : EnqueueOptions) (e : Outbound.Event) : Prop :=
  (∃ o, e = .enqueued metadata options o) ∨ ∃ error, e = .rejected metadata options error

/-- The request as the scheduler is to take it. -/
structure Request.AskedAs (r : Request) (metadata : OutboundMeta) (options : EnqueueOptions) : Prop where
  metadata : metadata = r.metadata
  laneMode : options.laneMode = r.laneMode.getD .serial
  mode : options.mode = r.mode

/-- What a run of the scheduler shows of that of its queue. -/
structure Drives (τ : List Event) (σ : List Outbound.Event) : Prop where
  granted : grants σ = admissions τ
  completed : finished σ = outcomes τ
  issued : issued σ = entrants τ
  settled : ∀ job outcome, (job, outcome) ∈ finished σ → Outbound.phase σ job = .completed
  asked : ∀ e ∈ σ, ∀ metadata options, Asks metadata options e →
    ∃ token request, .sent token request ∈ τ ∧ request.AskedAs metadata options
  owned : ∀ metadata options o, .enqueued metadata options o ∈ σ →
    ∃ token request, Owns τ o.job token ∧ .sent token request ∈ τ ∧ request.AskedAs metadata options

/-! ## One step -/

/-- What the scheduler shows in a step of the actor. -/
inductive Shown (x : Sys) : Event → List Outbound.Event → Prop
  | silent {σ} {e : Event} : entrants [e] = [] → admissions [e] = [] → outcomes [e] = [] → (∀ o ∈ σ, hushed o = true) →
      Shown x e σ
  | accepted {c rest replaced o options} : x.ingress = c :: rest → c.request.AskedAs c.request.metadata options →
      Shown x (.accepted o.job c.token replaced) [.enqueued c.request.metadata options o]
  | refused {c rest error options} : x.ingress = c :: rest → c.request.AskedAs c.request.metadata options →
      Shown x .quiet [.rejected c.request.metadata options error]
  | applied {job outcome observedAt now} : Shown x (.applied job outcome observedAt) [.completed job outcome now]
  | admitted {gs now σ} : grants σ = gs.reverse → (∀ o ∈ σ, passing o = true) → Shown x (.admitted gs now) σ

theorem finished_append (σ₁ σ₂ : List Outbound.Event) : finished (σ₁ ++ σ₂) = finished σ₁ ++ finished σ₂ := by
  induction σ₁ with
  | nil => rfl
  | cons e σ₁ ih => cases e <;> simp [finished, ih]

theorem issued_append (σ₁ σ₂ : List Outbound.Event) : issued (σ₁ ++ σ₂) = issued σ₁ ++ issued σ₂ := by
  induction σ₁ with
  | nil => rfl
  | cons e σ₁ ih => cases e <;> simp [issued, ih]

theorem hushed_shows {σ : List Outbound.Event} (h : ∀ o ∈ σ, hushed o = true) :
    grants σ = [] ∧ finished σ = [] ∧ issued σ = [] := by
  induction σ with
  | nil => exact ⟨rfl, rfl, rfl⟩
  | cons e σ ih =>
    have hσ := ih fun o ho => h o (List.mem_cons_of_mem _ ho)
    have he := h e List.mem_cons_self
    cases e with
    | enqueued | rejected | granted | completed => cases he
    | cancelled | started | penalized | limited | woke | began | skipped | held | ended => exact hσ

theorem passing_shows {σ : List Outbound.Event} (h : ∀ o ∈ σ, passing o = true) : finished σ = [] ∧ issued σ = [] := by
  induction σ with
  | nil => exact ⟨rfl, rfl⟩
  | cons e σ ih =>
    have hσ := ih fun o ho => h o (List.mem_cons_of_mem _ ho)
    have he := h e List.mem_cons_self
    cases e with
    | began | skipped | granted | held | ended => exact hσ
    | enqueued | rejected | cancelled | started | completed | penalized | limited | woke => cases he

theorem entrants_cons (e : Event) (τ : List Event) : entrants (e :: τ) = entrants [e] ++ entrants τ := by cases e <;> rfl
theorem outcomes_cons (e : Event) (τ : List Event) : outcomes (e :: τ) = outcomes [e] ++ outcomes τ := by cases e <;> rfl
theorem admissions_cons (e : Event) (τ : List Event) : admissions (e :: τ) = admissions [e] ++ admissions τ := by
  cases e <;> simp [admissions]

namespace Shown

variable {x : Sys} {e : Event} {σ : List Outbound.Event}

theorem shows (h : Shown x e σ) : grants σ = admissions [e] ∧ finished σ = outcomes [e] ∧ issued σ = entrants [e] := by
  cases h with
  | silent hi hg hc hσ =>
    rw [hi, hg, hc]
    exact hushed_shows hσ
  | accepted | refused | applied => exact ⟨rfl, rfl, rfl⟩
  | admitted hg hσ =>
    obtain ⟨hf, hi⟩ := passing_shows hσ
    exact ⟨hg.trans (List.append_nil _).symm, hf, hi⟩

/-- The scheduler is asked what stands at the head of the ingress. -/
theorem asked (h : Shown x e σ) {o : Outbound.Event} (ho : o ∈ σ) {metadata : OutboundMeta} {options : EnqueueOptions}
    (ha : Asks metadata options o) : ∃ c ∈ x.ingress, c.request.AskedAs metadata options := by
  cases h with
  | silent _ _ _ hσ =>
    have hs := hσ o ho
    rcases ha with ⟨o', rfl⟩ | ⟨error, rfl⟩ <;> cases hs
  | accepted hi hc =>
    cases List.mem_singleton.1 ho
    rcases ha with ⟨o', he⟩ | ⟨error, he⟩
    · cases he
      exact ⟨_, hi ▸ List.mem_cons_self, hc⟩
    · cases he
  | refused hi hc =>
    cases List.mem_singleton.1 ho
    rcases ha with ⟨o', he⟩ | ⟨error, he⟩
    · cases he
    · cases he
      exact ⟨_, hi ▸ List.mem_cons_self, hc⟩
  | applied =>
    cases List.mem_singleton.1 ho
    rcases ha with ⟨o', he⟩ | ⟨error, he⟩ <;> cases he
  | admitted _ hσ =>
    have hs := hσ o ho
    rcases ha with ⟨o', rfl⟩ | ⟨error, rfl⟩ <;> cases hs

theorem owned (h : Shown x e σ) {metadata : OutboundMeta} {options : EnqueueOptions} {o : EnqueueOutcome}
    (ho : .enqueued metadata options o ∈ σ) :
    ∃ c ∈ x.ingress, c.request.AskedAs metadata options ∧ ∃ replaced, e = .accepted o.job c.token replaced := by
  cases h with
  | silent _ _ _ hσ => cases hσ _ ho
  | accepted hi hc =>
    cases List.mem_singleton.1 ho
    exact ⟨_, hi ▸ List.mem_cons_self, hc, _, rfl⟩
  | refused | applied => cases List.mem_singleton.1 ho
  | admitted _ hσ => cases hσ _ ho

end Shown

/-- A completed job stays completed. -/
theorem phase_completed {σ : List Outbound.Event} {id : JobId} (h : Outbound.phase σ id = .completed) :
    ∀ {ρ : List Outbound.Event}, AllLawful (ρ ++ σ) → Outbound.phase (ρ ++ σ) id = .completed
  | [], _ => h
  | e :: ρ, hl => by
    rw [List.cons_append] at hl ⊢
    have ih := phase_completed h hl.2
    have hlaw := hl.1
    cases e with
    | enqueued metadata options o =>
      obtain ⟨hnew, hold⟩ := hlaw
      simp only [Outbound.phase]
      split
      · rename_i hid
        rw [← hid, ih] at hnew
        cases hnew
      · split
        · rename_i hid
          have hpending := hold id hid
          rw [ih] at hpending
          cases hpending
        · exact ih
    | granted g metadata now =>
      have hpending : Outbound.phase (ρ ++ σ) g.job = .pending := hlaw
      simp only [Outbound.phase]
      split
      · rename_i hid
        rw [← hid, ih] at hpending
        cases hpending
      · exact ih
    | cancelled =>
      simp only [Outbound.phase]
      split
      · rename_i hid
        rw [ih] at hid
        cases hid.2
      · exact ih
    | completed =>
      simp only [Outbound.phase]
      split
      · rfl
      · exact ih
    | rejected | started | penalized | limited | woke | began | skipped | held | ended => exact ih

theorem Drives.step {τ : List Event} {σ ρ : List Outbound.Event} {x : Sys} {e : Event} (h : Drives τ σ)
    (hq : ∀ c ∈ x.ingress, .sent c.token c.request ∈ τ) (hl : AllLawful (ρ ++ σ))
    (hin : ∀ job outcome observedAt, e = .applied job outcome observedAt → Outbound.phase σ job = .inFlight)
    (hs : Shown x e ρ) : Drives (e :: τ) (ρ ++ σ) := by
  obtain ⟨hg, hc, hi⟩ := hs.shows
  refine ⟨?_, ?_, ?_, fun job outcome hm => ?_, fun o ho metadata options ha => ?_, fun metadata options o ho => ?_⟩
  · rw [grants_append, hg, h.granted, ← admissions_cons]
  · rw [finished_append, hc, h.completed, ← outcomes_cons]
  · rw [issued_append, hi, h.issued, ← entrants_cons]
  · rw [finished_append] at hm
    rcases List.mem_append.1 hm with hm | hm
    · cases hs with
      | silent _ _ ho hσ =>
        rw [(hushed_shows hσ).2.1] at hm
        cases hm
      | accepted | refused => cases hm
      | applied =>
        cases List.mem_singleton.1 hm
        have hphase := hin job outcome _ rfl
        simp [Outbound.phase, hphase]
      | admitted _ hσ =>
        rw [(passing_shows hσ).1] at hm
        cases hm
    · exact phase_completed (h.settled job outcome hm) hl
  · rcases List.mem_append.1 ho with ho | ho
    · obtain ⟨c, hc, hask⟩ := hs.asked ho ha
      exact ⟨c.token, c.request, List.mem_cons_of_mem _ (hq c hc), hask⟩
    · obtain ⟨token, request, hsent, hask⟩ := h.asked o ho metadata options ha
      exact ⟨token, request, List.mem_cons_of_mem _ hsent, hask⟩
  · rcases List.mem_append.1 ho with ho | ho
    · obtain ⟨c, hc, hask, replaced, he⟩ := hs.owned ho
      exact ⟨c.token, c.request, ⟨replaced, he ▸ List.mem_cons_self⟩, List.mem_cons_of_mem _ (hq c hc), hask⟩
    · obtain ⟨token, request, ⟨replaced, hown⟩, hsent, hask⟩ := h.owned metadata options o ho
      exact ⟨token, request, ⟨replaced, List.mem_cons_of_mem _ hown⟩, List.mem_cons_of_mem _ hsent, hask⟩

/-! ## The paths of the scheduler -/

abbrev SchedulerPath := Machine.Path Outbound.scheduler

theorem path_trans {y y' y'' : Outbound.Sys} {σ σ' : List Outbound.Event} (h : SchedulerPath y σ y')
    (h' : SchedulerPath y' σ' y'') : SchedulerPath y (σ' ++ σ) y'' := by
  induction h' with
  | refl => exact h
  | step _ hs ih => exact .step ih hs

/-- A call that is not part of a pass. -/
theorem path_call {s s' : SchedulerState} {t : Nat} {o : Outbound.Action} {e : Outbound.Event} (ht : t ≤ o.now)
    (hc : s.call o = some (s', e)) : SchedulerPath ⟨s, t, none⟩ [e] ⟨s', o.now, none⟩ := by
  refine .step (a := o) .refl ?_
  have hnot : ¬ o.now < t := Nat.not_lt.2 ht
  cases o with
  | beginPass | turn | endPass => cases hc
  | _ => simp [scheduler, step, hnot, hc]

theorem turn_passing {s s' : SchedulerState} {now : Nat} {e : Outbound.Event} (h : s.turn now = some (s', e)) :
    passing e = true := by
  cases turn_cases h <;> rfl

theorem path_grantLoop {now : Nat} {s' : SchedulerState} : ∀ {fuel : Nat} {s : SchedulerState} {gs : List Grant},
    SchedulerState.grantLoop now fuel s = some (s', gs) → ∃ σ, SchedulerPath ⟨s, now, some now⟩ σ ⟨s', now, some now⟩ ∧
      grants σ = gs.reverse ∧ (∀ o ∈ σ, passing o = true) ∧ s'.candidates.peek = none
  | 0, _, _, h => by cases h
  | fuel + 1, s, gs, h => by
    have hturn {s₁ e} (ht : s.turn now = some (s₁, e)) :
        SchedulerPath ⟨s, now, some now⟩ [e] ⟨s₁, now, some now⟩ :=
      .step (a := .turn now) .refl (by simp [scheduler, step, Action.now, ht])
    have hall {σ : List Outbound.Event} {s₁ e} (ht : s.turn now = some (s₁, e)) (hσ : ∀ o ∈ σ, passing o = true) :
        ∀ o ∈ σ ++ [e], passing o = true := by
      intro o ho
      rcases List.mem_append.1 ho with ho | ho
      · exact hσ o ho
      · cases List.mem_singleton.1 ho
        exact turn_passing ht
    unfold SchedulerState.grantLoop at h
    split at h
    · rename_i hp
      cases h
      refine ⟨[], .refl, rfl, fun _ ho => absurd ho List.not_mem_nil, ?_⟩
      unfold SchedulerState.popTurn at hp
      split at hp
      · assumption
      · dsimp only at hp
        split at hp <;> cases hp
    · rename_i s₁ hp
      have ht : s.turn now = some (s₁, .skipped now) := by unfold SchedulerState.turn; rw [hp]
      obtain ⟨σ, hpath, hg, hpass, hpeek⟩ := path_grantLoop h
      refine ⟨σ ++ [.skipped now], path_trans (hturn ht) hpath, ?_, hall ht hpass, hpeek⟩
      rw [grants_append, hg]
      exact List.append_nil _
    · rename_i s₁ c hp
      obtain ⟨job, hj⟩ := popTurn_live hp
      obtain ⟨e, ht, hge⟩ := turn_popped hp hj
      rw [Option.map_eq_some_iff] at h
      obtain ⟨⟨s₂, gs₂⟩, hl, h⟩ := h
      cases h
      obtain ⟨σ, hpath, hg, hpass, hpeek⟩ := path_grantLoop hl
      refine ⟨σ ++ [e], path_trans (hturn ht) hpath, ?_, hall ht hpass, hpeek⟩
      rw [grants_append, hg, hge, hj]
      dsimp only
      split <;> simp

theorem path_grantReady {s s' : SchedulerState} {t : Nat} {order : List WindowRef} {fuel now : Nat} {gs : List Grant}
    (ht : t ≤ now) (h : s.grantReady order fuel now = some (s', gs)) :
    ∃ σ, SchedulerPath ⟨s, t, none⟩ σ ⟨s', now, none⟩ ∧ grants σ = gs.reverse ∧ ∀ o ∈ σ, passing o = true := by
  simp only [SchedulerState.grantReady, Option.bind_eq_bind, Option.bind_eq_some_iff] at h
  obtain ⟨s₁, h₁, ⟨s₂, gs₂⟩, h₂, h⟩ := h
  cases h
  have hbegin : SchedulerPath ⟨s, t, none⟩ [.began now] ⟨s₁, now, some now⟩ :=
    .step (a := .beginPass order fuel now) .refl (by simp [scheduler, step, Action.now, h₁, Nat.not_lt.2 ht])
  obtain ⟨σ, hpath, hg, hpass, hpeek⟩ := path_grantLoop h₂
  have hend : scheduler.step ⟨s₂, now, some now⟩ (.endPass now) = some (⟨s₂.endPass now, now, none⟩, .ended now) := by
    simp [scheduler, step, Action.now, hpeek]
  refine ⟨.ended now :: (σ ++ [.began now]), .step (path_trans hbegin hpath) hend, ?_, fun o ho => ?_⟩
  · simp only [grants]
    rw [grants_append, hg]
    exact List.append_nil _
  · rcases List.mem_cons.1 ho with rfl | ho
    · rfl
    · rcases List.mem_append.1 ho with ho | ho
      · exact hpass o ho
      · cases List.mem_singleton.1 ho
        rfl

/-- The pass that is handed out was made after the last call of the scheduler, and not later than now. -/
def PassedBy (p : Phase) (t now : Nat) : Prop := ∀ gs t₀, p = .delivering gs t₀ → t ≤ t₀ ∧ t₀ ≤ now

/-- What a step of the actor is for its scheduler, last called at `t`. -/
def Follows (x : Sys) (a : OutboundActor) (t now : Nat) (a' : OutboundActor) (e : Event) : Prop :=
  ∃ σ t', SchedulerPath ⟨a.scheduler, t, none⟩ σ ⟨a'.scheduler, t', none⟩ ∧ t' ≤ now ∧ PassedBy a'.phase t' now ∧
    Shown x e σ

section
variable {x x' : Sys} {a a' : OutboundActor} {t now : Nat} {e : Event}

theorem Follows.nothing (ht : t ≤ now) (hs : a'.scheduler = a.scheduler) (hp : PassedBy a'.phase t now)
    (hi : entrants [e] = []) (hg : admissions [e] = []) (hc : outcomes [e] = []) : Follows x a t now a' e := by
  refine ⟨[], t, ?_, ht, hp, .silent hi hg hc fun _ ho => absurd ho List.not_mem_nil⟩
  rw [hs]
  exact .refl

theorem Follows.call {o : Outbound.Action} {u : Outbound.Event} (ht : t ≤ now)
    (hc : a.scheduler.call o = some (a'.scheduler, u)) (ho : o.now = now) (hp : ∀ gs t₀, a'.phase ≠ .delivering gs t₀)
    (hs : Shown x e [u]) : Follows x a t now a' e :=
  ⟨[u], o.now, path_call (ho ▸ ht) hc, Nat.le_of_eq ho, fun gs t₀ hd => absurd hd (hp gs t₀), hs⟩

theorem not_passing {p : Phase} (h : ∀ gs t₀, p ≠ .delivering gs t₀) : PassedBy p t now :=
  fun gs t₀ hd => absurd hd (h gs t₀)

theorem afterCommand_ne (p : Phase) (gs : List Grant) (t₀ : Nat) : p.afterCommand ≠ .delivering gs t₀ := by
  cases p <;> exact nofun

/-- The event of a call of the scheduler at which no job enters or is completed. -/
theorem Shown.quiet {o : Outbound.Event} (ho : hushed o = true) : Shown x .quiet [o] :=
  .silent rfl rfl rfl fun _ hm => List.mem_singleton.1 hm ▸ ho

theorem command_path {clients : Clients} {order : List CandidateRef} {command : OutboundCommand} {r : OutboundActor × Clients}
    {p : Phase} (ht : t ≤ now) (hp : ∀ gs t₀, p ≠ .delivering gs t₀)
    (h : a.handleCommand clients order now command = some r) :
    Follows x a t now { r.1 with phase := p } command.handled := by
  have hsame {e : Event} (hi : entrants [e] = []) (hg : admissions [e] = []) (hc : outcomes [e] = []) :
      Follows x a t now { a with phase := p } e := .nothing ht rfl (not_passing hp) hi hg hc
  cases command with
  | cancel token =>
    cases h
    unfold OutboundActor.handleCancel
    split
    · exact hsame rfl rfl rfl
    · rename_i job _
      obtain ⟨hs, -⟩ := dropWaiter_leaves { a with pendingTokens := a.pendingTokens.erase token } clients job
      refine .call (o := .cancel job now) (u := .cancelled job now) ht ?_ rfl hp (.quiet rfl)
      dsimp only
      rw [forgetJob_scheduler]
      dsimp only
      rw [hs]
      rfl
  | start job c =>
    cases h
    exact .call (o := .start job now) (u := .started job now) ht rfl rfl hp (.quiet rfl)
  | complete job c token outcome observedAt ack =>
    cases h
    refine .call (o := .complete job outcome now observedAt) (u := .completed job outcome now) ht ?_ rfl hp .applied
    unfold OutboundActor.handleComplete
    dsimp only
    rw [forgetJob_scheduler]
    rfl
  | penalize scope duration =>
    simp only [OutboundActor.handleCommand] at h
    split at h
    · cases h
      exact hsame rfl rfl rfl
    · cases h
      exact .call (o := .penalize scope (now + duration) now) (u := .penalized scope (now + duration) now) ht rfl rfl hp
        (.quiet rfl)
  | setLimits limits =>
    simp only [OutboundActor.handleCommand] at h
    split at h
    · rename_i horder
      cases h
      exact .call (o := .setLimits limits order now) ht (if_pos horder) rfl hp (.quiet rfl)
    · cases h
  | setClassLimits limits =>
    simp only [OutboundActor.handleCommand] at h
    split at h
    · rename_i horder
      cases h
      exact .call (o := .setClassLimits limits order now) ht (if_pos horder) rfl hp (.quiet rfl)
    · cases h
  | getLimits | getClassLimits | setObserver | getSnapshot | shutdown =>
    cases h
    exact hsame rfl rfl rfl

theorem askedAs_options (a : OutboundActor) (request : Request) (now : Nat) :
    request.AskedAs request.metadata (a.enqueueOptions request now) := ⟨rfl, rfl, rfl⟩

/-- A step of the actor is a path of its scheduler. -/
theorem act_path {action : Action} (ht : t ≤ now) (hpass : PassedBy a.phase t now)
    (h : x.act a now action = some (x', e)) (ha' : x'.actor = some a') : Follows x a t now a' e := by
  have hquiet {o : Option Sys} (ho : o.map (·, Event.quiet) = some (x', e)) : o = some x' ∧ e = .quiet := by
    obtain ⟨y, hy, hx⟩ := Option.map_eq_some_iff.1 ho
    cases hx
    exact ⟨hy, rfl⟩
  cases action with
  | receive order =>
    simp only [Sys.act, Sys.receive] at h
    split at h
    · split at h
      · cases h
      · cases h
        cases ha'
        exact .nothing ht rfl (not_passing (fun _ _ h => by cases h)) rfl rfl rfl
      · obtain ⟨r, hr, hx⟩ := Option.map_eq_some_iff.1 h
        cases hx
        cases ha'
        exact command_path ht (afterCommand_ne a.phase) hr
    · cases h
  | accept =>
    simp only [Sys.act, Sys.accept] at h
    split at h
    · rename_i t₀ request token rest hph hi
      split at h
      · cases h
        cases ha'
        exact .nothing ht rfl (not_passing (fun _ _ h => by cases h)) rfl rfl rfl
      · split at h
        · rename_i s o hq
          split at h
          · rename_i hid
            cases h
            cases ha'
            have hs : ({ a with scheduler := s }.supersede (x.clients.store token .accepted) o.superseded).1.scheduler = s :=
              (supersede_leaves _ _ _).1
            refine .call (o := .enqueue request.metadata (a.enqueueOptions request now))
              (u := .enqueued request.metadata (a.enqueueOptions request now) o) ht ?_ rfl (fun _ _ h => by cases h)
              (.accepted (c := ⟨request, token⟩) hi (askedAs_options a request now))
            simp only [call, hq, if_pos hid, OutboundActor.record, hs]
          · cases h
        · rename_i s error hq
          cases h
          cases ha'
          refine .call (o := .enqueue request.metadata (a.enqueueOptions request now))
            (u := .rejected request.metadata (a.enqueueOptions request now) error) ht ?_ rfl (fun _ _ h => by cases h)
            (.refused (c := ⟨request, token⟩) hi (askedAs_options a request now))
          simp only [call, hq]
    · cases h
  | answer =>
    obtain ⟨hr, rfl⟩ := hquiet h
    unfold Sys.answer at hr
    split at hr
    · rename_i token job hph
      dsimp only at hr
      split at hr
      · cases hr
        cases ha'
        exact .nothing ht rfl (not_passing (fun _ _ h => by cases h)) rfl rfl rfl
      · cases hr
        cases ha'
        refine .call (o := .cancel job now) (u := .cancelled job now) ht ?_ rfl (fun _ _ h => by cases h) (.quiet rfl)
        dsimp only
        rw [forgetJob_scheduler]
        rfl
    · cases hr
      cases ha'
      exact .nothing ht rfl (not_passing (fun _ _ h => by cases h)) rfl rfl rfl
    · cases hr
  | runAdmission order fuel =>
    simp only [Sys.act, Sys.runAdmission] at h
    split at h
    · split at h
      · cases h
      · obtain ⟨⟨s, gs⟩, hg, hx⟩ := Option.map_eq_some_iff.1 h
        cases hx
        cases ha'
        obtain ⟨σ, hpath, hgs, hpassing⟩ := path_grantReady ht hg
        refine ⟨σ, now, hpath, Nat.le_refl _, fun gs' t₀ hd => ?_, .admitted hgs hpassing⟩
        cases hd
        exact ⟨Nat.le_refl _, Nat.le_refl _⟩
    · cases h
  | deliver =>
    simp only [Sys.act, Sys.deliver] at h
    split at h
    · rename_i grant grants t₀ hph
      have hrest : PassedBy (Phase.delivering grants t₀) t now := by
        intro gs' t₁ hd
        cases hd
        exact hpass _ _ hph
      split at h
      · cases h
        cases ha'
        exact .nothing ht rfl hrest rfl rfl rfl
      · rename_i token _
        split at h
        · cases h
          cases ha'
          exact .nothing ht rfl hrest rfl rfl rfl
        · obtain ⟨hs, hp, -⟩ := tell_leaves { a with phase := .delivering grants t₀ } x.clients grant.job
            (.granted ⟨grant.job, token, grant.correlationId, false⟩)
          split at h
          · cases h
            cases ha'
            exact .nothing ht hs (hp ▸ hrest) rfl rfl rfl
          · cases h
            cases ha'
            exact .nothing ht hs (hp ▸ hrest) rfl rfl rfl
    · cases h
  | park =>
    obtain ⟨hr, rfl⟩ := hquiet h
    unfold Sys.park at hr
    split at hr
    · rename_i t₀ hph
      cases hr
      cases ha'
      obtain ⟨hle, hnow⟩ := hpass _ _ hph
      exact ⟨[.woke (a.scheduler.nextDeadline t₀).2 t₀], t₀, path_call (o := .nextDeadline t₀) hle rfl, hnow,
        not_passing (fun _ _ h => by cases h), .quiet rfl⟩
    · cases hr
  | timer =>
    obtain ⟨hr, rfl⟩ := hquiet h
    unfold Sys.timer at hr
    split at hr
    · split at hr
      · cases hr
        cases ha'
        exact .nothing ht rfl (not_passing (fun _ _ h => by cases h)) rfl rfl rfl
      · cases hr
    · cases hr
  | ingressClosed =>
    obtain ⟨hr, rfl⟩ := hquiet h
    unfold Sys.ingressClosed at hr
    split at hr
    · split at hr
      · cases hr
        cases ha'
        exact .nothing ht rfl (not_passing (fun _ _ h => by cases h)) rfl rfl rfl
      · cases hr
    · cases hr
  | closeWaiter job =>
    simp only [Sys.act, Sys.closeWaiter] at h
    split at h
    · cases h
    · rename_i hclosing
      cases h
      cases ha'
      obtain ⟨hs, hp, -⟩ := tell_leaves a x.clients job .closed
      have hph : a.phase = .closing := Decidable.byContradiction fun hne => hclosing (Or.inl hne)
      refine .nothing ht hs (not_passing fun gs t₀ => ?_) ?_ ?_ ?_
      · rw [hp, hph]
        intro h; cases h
      · split <;> rfl
      · split <;> rfl
      · split <;> rfl
  | stop =>
    obtain ⟨hr, rfl⟩ := hquiet h
    unfold Sys.stop at hr
    split at hr
    · cases hr
      cases ha'
    · cases hr
  | mint | trySend | pollEnqueue | pollGrant | dropFuture | sendCancel | dropField | start | complete | completeAndAwait
  | dropPermit | command | cloneHandle | dropHandle => cases h

end

/-! ## The steps of a run -/

/-- What a step of a run is: that of a caller, with or without an actor, or of the actor. -/
inductive Stepped (x : Sys) (now : Nat) (action : Action) (x' : Sys) (e : Event) : Prop
  | gone : x.actor = none → x'.actor = none → e.isCall = true → Stepped x now action x' e
  | called {a} : x.actor = some a → x'.actor = some a → { x with clock := now }.Calls a x' e →
      Stepped x now action x' e
  | acted {a} : x.actor = some a → { x with clock := now }.act a now action = some (x', e) → Stepped x now action x' e

theorem step_stepped {τ : List Event} {x x' : Sys} {m : Action × Nat} {e : Event} (hr : Run τ x)
    (hs : queue.step x m = some (x', e)) : x.clock ≤ m.2 ∧ Stepped x m.2 m.1 x' e := by
  change x.step m = some (x', e) at hs
  unfold Sys.step at hs
  split at hs
  · cases hs
  · rename_i hclock
    have hlater := Nat.le_of_not_lt hclock
    refine ⟨hlater, ?_⟩
    cases ha : x.actor with
    | none =>
      dsimp only at hs
      split at hs
      · rename_i r hc
        cases hs
        obtain ⟨hgone, he⟩ := client_gone (x := { x with clock := m.2 }) ha hc
        exact .gone ha hgone he
      · rw [ha] at hs
        cases hs
    | some a =>
      have hinv := ((inv_run hr).2 a ha).later hlater
      dsimp only at hs
      split at hs
      · rename_i r hc
        cases hs
        have hcalls := Sys.client_cases (x := { x with clock := m.2 }) ha hinv.tokens.minted
          (fun t permit hs => (hinv.balanced.held t permit hs).1) hc
        exact .called ha (by cases hcalls <;> exact ha) hcalls
      · rw [ha] at hs
        exact .acted ha hs

/-- No grant channel gets a value. -/
def Clients.Fades (clients clients' : Clients) : Prop :=
  ∀ u v, (clients' u).granted.value = some v → (clients u).granted.value = some v

theorem Clients.Fades.trans {c d e : Clients} (h : c.Fades d) (h' : d.Fades e) : c.Fades e :=
  fun u v hv => h u v (h' u v hv)

theorem modify_fades (clients : Clients) (t : Token) {f : Client → Client}
    (h : ∀ v, (f (clients t)).granted.value = some v → (clients t).granted.value = some v) :
    clients.Fades (clients.modify t f) := by
  intro u v hv
  unfold Clients.modify at hv
  split at hv
  · rename_i hu
    subst hu
    exact h v hv
  · exact hv

theorem dropSenders_fades (clients : Clients) (t : Token) : clients.Fades (clients.dropSenders t) := modify_fades _ _ fun _ hv => hv

/-- The actor moves no acquire on, takes requests out of the ingress only, and the commands of the
lifecycle channel one by one. -/
structure Leaves (x x' : Sys) (e : Event) : Prop where
  clock : x'.clock = x.clock
  nextToken : x'.nextToken = x.nextToken
  stages : x'.clients.stages = x.clients.stages
  ingress : ∀ c ∈ x'.ingress, c ∈ x.ingress
  unsent : ∀ t r, e ≠ .sent t r
  unreported : ∀ job outcome observedAt, e ≠ .reported job outcome observedAt
  lifecycle : ∀ command ∈ x.lifecycle, command ∈ x'.lifecycle ∨ x'.actor = none ∨ command = .shutdown ∨ e = command.handled
  applied : ∀ job outcome observedAt, e = .applied job outcome observedAt →
    ∃ c t ack, .complete job c t outcome observedAt ack ∈ x.lifecycle
  ends : x'.actor = none → e = .quiet ∧ x.clients.Fades x'.clients

/-- The event is none of those that `Leaves` tells about. -/
def Event.aside : Event → Bool
  | .sent .. | .reported .. | .applied .. => false
  | _ => true

/-- A step of the actor that takes no command. -/
theorem Leaves.put {x y : Sys} {r : OutboundActor × Clients} {e : Event} (hc : y.clock = x.clock)
    (hn : y.nextToken = x.nextToken) (hs : r.2.stages = x.clients.stages) (hi : ∀ c ∈ y.ingress, c ∈ x.ingress)
    (hl : y.lifecycle = x.lifecycle) (he : e.aside = true) : Leaves x (y.put r) e where
  clock := hc
  nextToken := hn
  stages := hs
  ingress := hi
  unsent t r h := by
    subst h
    cases he
  unreported job outcome observedAt h := by
    subst h
    cases he
  lifecycle _ hm := Or.inl (hl ▸ hm)
  applied job outcome observedAt h := by
    subst h
    cases he
  ends h := by cases h

theorem act_leaves {x x' : Sys} {a : OutboundActor} {now : Nat} {action : Action} {e : Event}
    (h : x.act a now action = some (x', e)) : Leaves x x' e := by
  have hquiet {o : Option Sys} (ho : o.map (·, Event.quiet) = some (x', e)) : o = some x' ∧ e = .quiet := by
    obtain ⟨y, hy, hx⟩ := Option.map_eq_some_iff.1 ho
    cases hx
    exact ⟨hy, rfl⟩
  cases action with
  | receive order =>
    simp only [Sys.act, Sys.receive] at h
    split at h
    · split at h
      · cases h
      · rename_i rest hl
        cases h
        refine ⟨rfl, rfl, rfl, fun _ hc => hc, (fun _ _ h => by cases h), (fun _ _ _ h => by cases h),
          fun command hm => ?_, (fun _ _ _ h => by cases h), (fun h => by cases h)⟩
        rw [hl] at hm
        rcases List.mem_cons.1 hm with rfl | hm
        · exact Or.inr (Or.inr (Or.inl rfl))
        · exact Or.inl hm
      · rename_i command rest _ hl
        obtain ⟨r, hr, hx⟩ := Option.map_eq_some_iff.1 h
        cases hx
        obtain ⟨-, -, hst⟩ := handleCommand_leaves hr
        refine ⟨rfl, rfl, hst, fun _ hc => hc, fun t r he => ?_, fun job outcome observedAt he => ?_, fun c hm => ?_,
           fun job outcome observedAt he => ?_, (fun h => by cases h)⟩
        · cases command <;> cases he
        · cases command <;> cases he
        · rw [hl] at hm
          rcases List.mem_cons.1 hm with rfl | hm
          · exact Or.inr (Or.inr (Or.inr rfl))
          · exact Or.inl hm
        · cases command with
          | complete job c t outcome observedAt ack =>
            cases he
            exact ⟨c, t, ack, hl ▸ List.mem_cons_self⟩
          | _ => cases he
    · cases h
  | accept =>
    simp only [Sys.act, Sys.accept] at h
    split at h
    · rename_i t₀ request token rest hph hi
      have htail : ∀ c ∈ rest, c ∈ x.ingress := fun c hc => hi ▸ List.mem_cons_of_mem _ hc
      split at h
      · cases h
        exact .put rfl rfl ((dropGranted_stages _ _).trans ((sendResponse_stages _ _ _).trans (store_stages _ _ _))) htail rfl rfl
      · split at h
        · split at h
          · cases h
            exact .put rfl rfl ((supersede_leaves _ _ _).2.trans (store_stages _ _ _)) htail rfl rfl
          · cases h
        · cases h
          exact .put rfl rfl (store_stages _ _ _) htail rfl rfl
    · cases h
  | answer =>
    obtain ⟨hr, rfl⟩ := hquiet h
    unfold Sys.answer at hr
    split at hr
    · dsimp only at hr
      split at hr
      · cases hr
        exact .put rfl rfl (sendResponse_stages _ _ _) (fun _ hc => hc) rfl rfl
      · cases hr
        exact .put rfl rfl ((dropGranted_stages _ _).trans ((forgetJob_stages _ _ _).trans (sendResponse_stages _ _ _)))
          (fun _ hc => hc) rfl rfl
    · cases hr
      exact .put rfl rfl ((dropGranted_stages _ _).trans ((sendResponse_stages _ _ _).trans (store_stages _ _ _)))
        (fun _ hc => hc) rfl rfl
    · cases hr
  | runAdmission order fuel =>
    simp only [Sys.act, Sys.runAdmission] at h
    split at h
    · split at h
      · cases h
      · obtain ⟨r, hg, hx⟩ := Option.map_eq_some_iff.1 h
        cases hx
        exact .put rfl rfl rfl (fun _ hc => hc) rfl rfl
    · cases h
  | deliver =>
    simp only [Sys.act, Sys.deliver] at h
    split at h
    · rename_i grant grants t₀ hph
      split at h
      · cases h
        exact .put rfl rfl rfl (fun _ hc => hc) rfl rfl
      · rename_i token _
        split at h
        · cases h
          exact .put rfl rfl rfl (fun _ hc => hc) rfl rfl
        · obtain ⟨-, -, hst⟩ := tell_leaves { a with phase := .delivering grants t₀ } x.clients grant.job
            (.granted ⟨grant.job, token, grant.correlationId, false⟩)
          split at h
          · cases h
            exact .put rfl rfl hst (fun _ hc => hc) rfl rfl
          · cases h
            exact ⟨rfl, rfl, hst, fun _ hc => hc, (fun _ _ h => by cases h), (fun _ _ _ h => by cases h),
              fun _ hm => Or.inl (List.mem_append.2 (Or.inl hm)), (fun _ _ _ h => by cases h), (fun h => by cases h)⟩
    · cases h
  | park =>
    obtain ⟨hr, rfl⟩ := hquiet h
    unfold Sys.park at hr
    split at hr
    · cases hr
      exact .put rfl rfl rfl (fun _ hc => hc) rfl rfl
    · cases hr
  | timer =>
    obtain ⟨hr, rfl⟩ := hquiet h
    unfold Sys.timer at hr
    split at hr
    · split at hr
      · cases hr
        exact .put rfl rfl rfl (fun _ hc => hc) rfl rfl
      · cases hr
    · cases hr
  | ingressClosed =>
    obtain ⟨hr, rfl⟩ := hquiet h
    unfold Sys.ingressClosed at hr
    split at hr
    · split at hr
      · cases hr
        exact .put rfl rfl rfl (fun _ hc => hc) rfl rfl
      · cases hr
    · cases hr
  | closeWaiter job =>
    simp only [Sys.act, Sys.closeWaiter] at h
    split at h
    · cases h
    · cases h
      obtain ⟨-, -, hst⟩ := tell_leaves a x.clients job .closed
      refine .put rfl rfl hst (fun _ hc => hc) rfl ?_
      split <;> rfl
  | stop =>
    obtain ⟨hr, rfl⟩ := hquiet h
    unfold Sys.stop at hr
    split at hr
    · cases hr
      refine ⟨rfl, rfl, ?_, (fun _ h => by cases h), (fun _ _ h => by cases h), (fun _ _ _ h => by cases h),
        fun _ _ => Or.inr (Or.inl rfl), (fun _ _ _ h => by cases h), fun _ => ⟨rfl, ?_⟩⟩
      · have hdrop (tokens : List Token) (clients : Clients) : (tokens.foldl Clients.dropSenders clients).stages = clients.stages := by
          induction tokens generalizing clients with
          | nil => rfl
          | cons t tokens ih => exact (ih _).trans (modify_stages _ _ fun _ => rfl)
        exact hdrop _ _
      · have hdrop (tokens : List Token) (clients : Clients) : clients.Fades (tokens.foldl Clients.dropSenders clients) := by
          induction tokens generalizing clients with
          | nil => exact fun _ _ hv => hv
          | cons t tokens ih => exact (dropSenders_fades clients t).trans (ih _)
        exact hdrop _ _
    · cases hr
  | mint | trySend | pollEnqueue | pollGrant | dropFuture | sendCancel | dropField | start | complete | completeAndAwait
  | dropPermit | command | cloneHandle | dropHandle => cases h

/-! ## Runs -/

/-- The requests under way are those that were sent, each of them once. -/
structure Routed (τ : List Event) (x : Sys) : Prop where
  sent : ∀ t r, .sent t r ∈ τ → t < x.nextToken ∧ ∀ q, x.clients.stages t ≠ .minted q
  queued : ∀ c ∈ x.ingress, .sent c.token c.request ∈ τ
  single : ∀ t r r', .sent t r ∈ τ → .sent t r' ∈ τ → r = r'

/-- What the run of a scheduler has to do with that of its queue. -/
structure Driven (τ : List Event) (x : Sys) (a : OutboundActor) : Prop where
  routed : Routed τ x
  shadow : ∃ σ t, Outbound.Run Machine.anything σ ⟨a.scheduler, t, none⟩ ∧ t ≤ x.clock ∧ PassedBy a.phase t x.clock ∧
    Drives τ σ

section
variable {τ : List Event} {x x' : Sys} {a a' : OutboundActor} {e : Event}

theorem Routed.keeps (h : Routed τ x) (hn : x.nextToken ≤ x'.nextToken)
    (hst : ∀ t q, t < x.nextToken → x'.clients.stages t = .minted q → x.clients.stages t = .minted q)
    (hi : ∀ c ∈ x'.ingress, c ∈ x.ingress) (he : ∀ t r, e ≠ .sent t r) : Routed (e :: τ) x' := by
  have hold {t : Token} {r : Request} (hm : .sent t r ∈ e :: τ) : .sent t r ∈ τ :=
    (List.mem_cons.1 hm).resolve_left fun heq => he t r heq.symm
  refine ⟨fun t r hm => ?_, fun c hc => List.mem_cons_of_mem _ (h.queued c (hi c hc)),
    fun t r r' hm hm' => h.single t r r' (hold hm) (hold hm')⟩
  obtain ⟨hlt, hq⟩ := h.sent t r (hold hm)
  exact ⟨Nat.lt_of_lt_of_le hlt hn, fun q hq' => hq q (hst t q hlt hq')⟩

theorem Routed.sends {t : Token} {request : Request} (h : Routed τ x) (ht : t < x.nextToken)
    (hs : (x.clients t).stage = .minted request) : Routed (.sent t request :: τ) { x with
      ingress := x.ingress ++ [⟨request, t⟩]
      clients := x.clients.setStage t (.enqueuing true) } := by
  have hself : (x.clients.setStage t (.enqueuing true)).stages t = .enqueuing true := by
    rw [Clients.setStage, Clients.stages, Clients.modify_same]
  have hfirst {r : Request} (hm : .sent t r ∈ τ) : False := (h.sent t r hm).2 request hs
  refine ⟨fun u r hm => ?_, fun c hc => ?_, fun u r r' hm hm' => ?_⟩
  · by_cases hu : u = t
    · subst hu
      refine ⟨ht, fun q hq => ?_⟩
      rw [hself] at hq
      cases hq
    · have hm' : .sent u r ∈ τ := (List.mem_cons.1 hm).resolve_left fun heq => by
        cases heq
        exact hu rfl
      refine ⟨(h.sent u r hm').1, fun q hq => (h.sent u r hm').2 q ?_⟩
      replace hq : (x.clients.setStage t (.enqueuing true) u).stage = .minted q := hq
      rwa [Clients.setStage, Clients.modify_other _ _ hu] at hq
  · rcases List.mem_append.1 hc with hc | hc
    · exact List.mem_cons_of_mem _ (h.queued c hc)
    · cases List.mem_singleton.1 hc
      exact List.mem_cons_self
  · rcases List.mem_cons.1 hm with heq | hm
    · cases heq
      rcases List.mem_cons.1 hm' with heq | hm'
      · cases heq
        rfl
      · exact (hfirst hm').elim
    · rcases List.mem_cons.1 hm' with heq | hm'
      · cases heq
        exact (hfirst hm).elim
      · exact h.single u r r' hm hm'

theorem Routed.calls (h : Routed τ x) (hinv : Inv τ x a) (hc : x.Calls a x' e) : Routed (e :: τ) x' := by
  have hmodify {t : Token} {c : Client} (hstage : ∀ q, c.stage ≠ .minted q) (u : Token) (q : Request)
      (hu : (x.clients.modify t fun _ => c).stages u = .minted q) : x.clients.stages u = .minted q := by
    by_cases hut : u = t
    · subst hut
      rw [Clients.stages, Clients.modify_same] at hu
      exact absurd hu (hstage q)
    · rwa [Clients.stages, Clients.modify_other _ _ hut] at hu
  cases hc with
  | @mints request =>
    refine h.keeps (Nat.le_succ _) (fun t q ht hq => ?_) (fun _ hc => hc) fun _ _ he => by cases he
    replace hq : (x.clients.setStage x.nextToken (.minted request) t).stage = .minted q := hq
    rwa [Clients.setStage, Clients.modify_other _ _ (Nat.ne_of_lt ht)] at hq
  | @sends t request hs =>
    refine h.sends (Nat.lt_of_not_le fun hle => ?_) hs
    rw [hinv.tokens.unborn t hle] at hs
    cases hs
  | overflows hs hcs =>
    exact h.keeps (Nat.le_refl _) (fun u q _ hq => hmodify (fun r hr => by rw [hcs] at hr; cases hr) u q hq) (fun _ hc => hc)
      fun _ _ he => by cases he
  | moves hm hshows =>
    refine h.keeps (Nat.le_refl _) (fun u q _ hq => hmodify hm.notMinted.2 u q hq) (fun _ hc => hc) ?_
    rcases hshows with rfl | ⟨_, _, _, _, _, _, rfl, -⟩ <;> exact fun _ _ he => by cases he
  | commands => exact h.keeps (Nat.le_refl _) (fun _ _ _ hq => hq) (fun _ hc => hc) fun _ _ he => by cases he

theorem Shown.of_call (he : e.isCall = true) : Shown x e [] := by
  cases e with
  | quiet | sent | reported => exact .silent rfl rfl rfl fun _ ho => nomatch ho
  | accepted | applied | admitted | delivered => cases he

theorem Calls.isCall (hc : x.Calls a x' e) : e.isCall = true := by
  cases hc with
  | moves _ hshows => rcases hshows with rfl | ⟨_, _, _, _, _, _, rfl, -⟩ <;> rfl
  | _ => rfl

end

theorem PassedBy.later {p : Phase} {t now now' : Nat} (h : PassedBy p t now) (hle : now ≤ now') : PassedBy p t now' :=
  fun gs t₀ hd => ⟨(h gs t₀ hd).1, (h gs t₀ hd).2.trans hle⟩

theorem Calls.clock_eq {x x' : Sys} {a : OutboundActor} {e : Event} (hc : x.Calls a x' e) : x'.clock = x.clock := by
  cases hc <;> rfl

theorem driven_run {τ : List Event} {x : Sys} (hr : Run τ x) : ∀ a, x.actor = some a → Driven τ x a := by
  refine Machine.Run.induct (I := fun τ x => ∀ a, x.actor = some a → Driven τ x a) ?_ ?_ hr
  · rintro x ⟨limits, classLimits, aging, scheduler, capacity, clock, hs, -, rfl⟩ a ha
    cases ha
    refine ⟨⟨(fun _ _ hm => nomatch hm), (fun _ hc => nomatch hc), (fun _ _ _ hm => nomatch hm)⟩, [], 0,
      .start ⟨rfl, limits, classLimits, aging, hs⟩, Nat.zero_le _, not_passing nofun, ?_⟩
    exact ⟨rfl, rfl, rfl, (fun _ _ hm => nomatch hm), (fun _ ho => nomatch ho), (fun _ _ _ ho => nomatch ho)⟩
  · rintro τ x m x' e hrun ih - hstep a' ha'
    obtain ⟨hlater, hstepped⟩ := step_stepped hrun hstep
    cases hstepped with
    | gone _ hgone =>
      rw [hgone] at ha'
      cases ha'
    | @called a ha hsame hcalls =>
      have heq : a = a' := Option.some.inj (hsame.symm.trans ha')
      subst heq
      have hinv := ((inv_run hrun).2 a ha).later hlater
      obtain ⟨hrouted, σ, t, hσ, ht, hp, hd⟩ := ih a ha
      have hclock : x'.clock = m.2 := Calls.clock_eq hcalls
      refine ⟨Routed.calls (x := { x with clock := m.2 }) ⟨hrouted.sent, hrouted.queued, hrouted.single⟩ hinv hcalls, σ, t,
        hσ, ?_, ?_, hd.step (ρ := []) hrouted.queued (life_run hσ).lawful (fun _ _ _ he => ?_) (.of_call (Calls.isCall hcalls))⟩
      · rw [hclock]
        exact ht.trans hlater
      · rw [hclock]
        exact hp.later hlater
      · have hcall := Calls.isCall hcalls
        rw [he] at hcall
        cases hcall
    | @acted a ha hact =>
      obtain ⟨hrouted, σ, t, hσ, ht, hp, hd⟩ := ih a ha
      have hleaves := act_leaves hact
      obtain ⟨σ', t', hpath, ht', hp', hshown⟩ := act_path (ht.trans hlater) (hp.later hlater) hact ha'
      have hclock : x'.clock = m.2 := hleaves.clock
      refine ⟨hrouted.keeps (Nat.le_of_eq hleaves.nextToken.symm) (fun u q _ hq => hleaves.stages ▸ hq) hleaves.ingress
        hleaves.unsent, σ' ++ σ, t', hσ.path hpath, ?_, ?_, hd.step (x := { x with clock := m.2 }) hrouted.queued
        (life_run (hσ.path hpath)).lawful (fun job outcome observedAt he => ?_) hshown⟩
      · rw [hclock]
        exact ht'
      · rw [hclock]
        exact hp'
      · subst he
        obtain ⟨c, u, ack, hm⟩ := hleaves.applied _ _ _ rfl
        exact ((life_run hσ).inFlight job).1 (((inv_run hrun).2 a ha).balanced.inFlight hm)

/-- A request of lane 7. -/
def laneSeven : Request := ⟨.plain 10 (some 7), none, .fifo, none⟩

/-- Two requests of a lane, of which the first has been granted. -/
def laneQueue : List (Action × Nat) :=
  [.mint laneSeven, .mint laneSeven, .trySend 0, .trySend 1, .runAdmission [] 9, .park, .accept, .answer, .runAdmission [] 9,
    .deliver, .park, .accept, .answer, .runAdmission [] 9, .park].map (·, 0)

/-- The requests of a run, newest first. -/
def requests : List Event → List (Token × Request)
  | [] => []
  | .sent token request :: τ => (token, request) :: requests τ
  | _ :: τ => requests τ

theorem mem_requests {token : Token} {request : Request} : ∀ {τ : List Event}, (token, request) ∈ requests τ ↔ .sent token request ∈ τ
  | [] => by simp [requests]
  | e :: τ => by cases e <;> simp [requests, mem_requests (τ := τ)]

theorem laneQueue_run : ∃ τ x a, Run τ x ∧ x.actor = some a ∧ requests τ = [(1, laneSeven), (0, laneSeven)] ∧
    (Event.accepted 0 0 none ∈ τ ∧ Event.accepted 1 1 none ∈ τ) ∧ entrants τ = [1, 0] ∧ x.permits 0 = 1 := by
  have h : (queue.exec Machine.anything [] openQueue laneQueue).map (fun r => (r.2.actor.isSome, requests r.1,
      decide ((Event.accepted 0 0 none ∈ r.1 ∧ Event.accepted 1 1 none ∈ r.1) ∧ entrants r.1 = [1, 0] ∧ r.2.permits 0 = 1))) =
      some (true, [(1, laneSeven), (0, laneSeven)], true) := by decide
  obtain ⟨⟨τ, x⟩, he, hs⟩ := Option.map_eq_some_iff.mp h
  obtain ⟨hactor, hs⟩ := Prod.mk.inj hs
  obtain ⟨hsent, hshown⟩ := Prod.mk.inj hs
  obtain ⟨a, ha⟩ := Option.isSome_iff_exists.1 hactor
  exact ⟨τ, x, a, Machine.run_of_exec (.start openQueue_init) he, ha, hsent, of_decide_eq_true hshown⟩

/-- Whatever the callers do, the scheduler of the queue has made a run of its own: the same grants
and completions, a job for each acceptance, and nothing asked that was not sent. -/
theorem drives_run {τ : List Event} {x : Sys} (hr : Run τ x) {a : OutboundActor} (ha : x.actor = some a) :
    ∃ σ t, Outbound.Run Machine.anything σ ⟨a.scheduler, t, none⟩ ∧ t ≤ x.clock ∧ Drives τ σ := by
  obtain ⟨-, σ, t, hσ, ht, -, hd⟩ := driven_run hr a ha
  exact ⟨σ, t, hσ, ht, hd⟩

theorem drives_run_laneQueue : ∃ τ x a σ t, Run τ x ∧ x.actor = some a ∧
    Outbound.Run Machine.anything σ ⟨a.scheduler, t, none⟩ ∧ issued σ = [1, 0] ∧ Drives τ σ := by
  obtain ⟨τ, x, a, hr, ha, -, -, hentrants, -⟩ := laneQueue_run
  obtain ⟨σ, t, hσ, -, hd⟩ := drives_run hr ha
  exact ⟨τ, x, a, σ, t, hr, ha, hσ, hd.issued.trans hentrants, hd⟩

/-! ## The requests of the jobs -/

/-- The metadata of a job, pending or granted, are those it was enqueued with. -/
structure Titled (σ : List Outbound.Event) (s : SchedulerState) : Prop where
  jobs : ∀ id job, s.jobs.lookup id = some job → ∃ options o, .enqueued job.metadata options o ∈ σ ∧ o.job = id
  granted : ∀ g metadata now, .granted g metadata now ∈ σ → ∃ options o, .enqueued metadata options o ∈ σ ∧ o.job = g.job

/-- A job that was not there before a step is the one that has been enqueued. -/
theorem Change.entrant {s s' : SchedulerState} {e : Outbound.Event} (h : Change s s' e) {id : JobId} {job' : Job}
    (hj' : s'.jobs.lookup id = some job') (hid : s.nextJobId ≤ id) (hold : ∀ a job, s.jobs.lookup a = some job → a < s.nextJobId) :
    ∃ options o, e = .enqueued job'.metadata options o ∧ o.job = id := by
  have hshrink {s s' : SchedulerState} {job'} (hs : Shrinks s s') (hj' : s'.jobs.lookup id = some job') :
      ∃ job, s.jobs.lookup id = some job ∧ job'.metadata = job.metadata := by
    obtain ⟨job, hj, hslot⟩ := hs.jobs id job' hj'
    exact ⟨job, hj, Lined.slot_metadata hslot⟩
  have hnone (hs : ∃ job, s.jobs.lookup id = some job ∧ job'.metadata = job.metadata) : False := by
    obtain ⟨job, hj, -⟩ := hs
    exact absurd (hold id job hj) (Nat.not_lt.2 hid)
  have hentered {s₁ : SchedulerState} {metadata options slot} (hs : Shrinks s s₁)
      (h₂ : Stays (s₁.entered metadata options slot) s') : id = s₁.nextJobId ∧ job'.metadata = metadata := by
    obtain ⟨job₂, hj₂, hm₂⟩ := hshrink (.of_stays h₂) hj'
    have hview := s₁.entered_jobs (·.metadata) (fun _ _ => rfl) metadata options slot id
    rw [hj₂, Option.map_some] at hview
    split at hview
    · rename_i heq
      exact ⟨heq, hm₂.trans (Option.some.inj hview)⟩
    · rw [eq_comm, Option.map_eq_some_iff] at hview
      obtain ⟨job₁, hj₁, -⟩ := hview
      obtain ⟨job, hj, -⟩ := hshrink hs hj₁
      exact absurd (hold id job hj) (Nat.not_lt.2 hid)
  cases h with
  | stays hs | cancelledLate _ hs => exact (hnone (hshrink (.of_stays hs) hj')).elim
  | entered h₁ _ _ _ h₂ =>
    obtain ⟨rfl, hm⟩ := hentered (.of_stays h₁) h₂
    exact ⟨_, _, by rw [hm], rfl⟩
  | replaced _ h₁ _ _ _ h₂ =>
    obtain ⟨rfl, hm⟩ := hentered (.of_removes h₁) h₂
    exact ⟨_, _, by rw [hm], rfl⟩
  | cancelled _ hr => exact (hnone (hshrink (.of_removes hr) hj')).elim
  | started hs => exact (hnone (hshrink (.of_starts hs) hj')).elim
  | completed hc => exact (hnone (hshrink (.of_completes hc) hj')).elim
  | @granted s₁ s₂ _ c job job₂ now hp hm hj hj₂ hg =>
    have hcore := hg.jobs id
    rw [hj'] at hcore
    split at hcore
    · cases hcore
    · rw [eq_comm, Option.map_some, Option.map_eq_some_iff] at hcore
      obtain ⟨job₃, hj₃, -⟩ := hcore
      obtain ⟨job₀, hj₀, -⟩ := hshrink (.of_stays (.of_moves (hp.quiet.toMoves.trans hm))) hj₃
      exact absurd (hold id job₀ hj₀) (Nat.not_lt.2 hid)

theorem Titled.step {σ : List Outbound.Event} {s s' : SchedulerState} {e : Outbound.Event} (h : Titled σ s) (hlife : Life σ s)
    (hc : Change s s' e) : Titled (e :: σ) s' := by
  have hold (a : JobId) (job : Job) (hj : s.jobs.lookup a = some job) : a < s.nextJobId := by
    refine Nat.lt_of_not_le fun hle => ?_
    have hpending := (hlife.pending a).1 (live_of hj)
    rw [(hlife.unknown a).1 hle] at hpending
    cases hpending
  have hlater {id : JobId} {metadata : OutboundMeta} (hm : ∃ options o, .enqueued metadata options o ∈ σ ∧ o.job = id) :
      ∃ options o, .enqueued metadata options o ∈ e :: σ ∧ o.job = id := by
    obtain ⟨options, o, ho, hid⟩ := hm
    exact ⟨options, o, List.mem_cons_of_mem _ ho, hid⟩
  refine ⟨fun id job' hj' => ?_, fun g metadata now hg => ?_⟩
  · by_cases hid : id < s.nextJobId
    · obtain ⟨job, hj, hm⟩ := hc.metadata hj' hid
      rw [hm]
      exact hlater (h.jobs id job hj)
    · obtain ⟨options, o, rfl, ho⟩ := Change.entrant hc hj' (Nat.le_of_not_lt hid) hold
      exact ⟨options, o, List.mem_cons_self, ho⟩
  · rcases List.mem_cons.1 hg with rfl | hg
    · cases hc with
      | stays _ hidle => cases hidle
      | @granted s₁ s₂ _ c job job₂ _ hp _ hj _ _ =>
        obtain ⟨job₀, hj₀, hslot⟩ := (Shrinks.of_stays (.of_moves hp.quiet.toMoves)).jobs c.job job hj
        refine hlater ?_
        rw [Lined.slot_metadata hslot]
        exact h.jobs c.job job₀ hj₀
    · exact hlater (h.granted g metadata now hg)

theorem titled_run {ok : Outbound.Sys → Outbound.Action → Prop} {σ : List Outbound.Event} {y : Outbound.Sys}
    (hr : Outbound.Run ok σ y) : Titled σ y.sched := by
  refine Machine.Run.induct (I := fun σ y => Titled σ y.sched) ?_ ?_ hr
  · rintro y ⟨-, limits, classLimits, aging, hok⟩
    rw [newWithClassLimits_ok hok]
    refine ⟨fun id job hj => ?_, fun _ _ _ hg => nomatch hg⟩
    rw [show (SchedulerState.initial limits classLimits aging).jobs = ∅ from rfl] at hj
    cases hj
  · rintro σ y o y' e hrun ih - hs
    exact ih.step (life_run hrun) (step_change hs)

/-- The requests of a lane are in its mode, when those are that the scheduler was asked for. -/
theorem fixed_run {mode : OutboundLaneKey → OutboundLaneMode} {σ : List Outbound.Event} {y : Outbound.Sys}
    (hr : Outbound.Run Machine.anything σ y)
    (hmode : ∀ e ∈ σ, ∀ metadata options, Asks metadata options e → ∀ lane, metadata.lane = some lane → mode lane = options.laneMode) :
    Outbound.Run (FixedMode mode) σ y := by
  induction hr with
  | start hi => exact .start hi
  | @step σ y o y' e hrun _ hs ih =>
    refine .step (ih fun e he => hmode e (List.mem_cons_of_mem _ he)) ?_ hs
    cases o with
    | enqueue metadata options =>
      cases step_steps hs with
      | call _ _ hc =>
        have hasks : Asks metadata options e := by
          simp only [call] at hc
          split at hc
          · split at hc <;> cases hc
            exact Or.inl ⟨_, rfl⟩
          · cases hc
            exact Or.inr ⟨_, rfl⟩
        exact fun lane hlane => hmode e List.mem_cons_self metadata options hasks lane hlane
    | _ => trivial

theorem mem_laneGrants {σ : List Outbound.Event} {lane : OutboundLaneKey} {g : Grant} {metadata : OutboundMeta} {now : Nat}
    (hg : .granted g metadata now ∈ σ) (hlane : metadata.lane = some lane) : g.job ∈ laneGrants lane σ := by
  induction σ with
  | nil => cases hg
  | cons e σ ih =>
    rcases List.mem_cons.1 hg with rfl | hlater
    · simp [laneGrants, hlane]
    · cases e with
      | granted g' metadata' now' =>
        simp only [laneGrants]
        split
        · exact List.mem_cons_of_mem _ (ih hlater)
        · exact ih hlater
      | _ => exact ih hlater

theorem granted_of_inFlight {id : JobId} : ∀ {σ : List Outbound.Event}, Outbound.phase σ id = .inFlight →
    ∃ g metadata now, .granted g metadata now ∈ σ ∧ g.job = id
  | [], h => by cases h
  | e :: σ, h => by
    have hlater (h : Outbound.phase σ id = .inFlight) : ∃ g metadata now, .granted g metadata now ∈ e :: σ ∧ g.job = id := by
      obtain ⟨g, metadata, now, hg, hid⟩ := granted_of_inFlight h
      exact ⟨g, metadata, now, List.mem_cons_of_mem _ hg, hid⟩
    cases e with
    | enqueued metadata options o =>
      simp only [Outbound.phase] at h
      split at h
      · cases h
      · split at h
        · cases h
        · exact hlater h
    | granted g metadata now =>
      simp only [Outbound.phase] at h
      split at h
      · rename_i hid
        exact ⟨g, metadata, now, List.mem_cons_self, hid.symm⟩
      · exact hlater h
    | cancelled | completed =>
      simp only [Outbound.phase] at h
      split at h
      · cases h
      · exact hlater h
    | _ => exact hlater h

/-! ## Permits of a lane -/

/-- The job was asked for in the lane. -/
def OnLane (τ : List Event) (job : JobId) (lane : OutboundLaneKey) : Prop :=
  ∃ token request, Owns τ job token ∧ .sent token request ∈ τ ∧ request.metadata.lane = some lane

/-- A job that is granted and not completed: its grant is being handed out, its permit is in a
channel or held, or its completion is on the way. -/
def Sys.Out (x : Sys) (a : OutboundActor) (job : JobId) : Prop := 0 < x.permits job + x.completions job + a.phase.owes job

theorem outstanding_of_out {τ : List Event} {x : Sys} {a : OutboundActor} {σ : List Outbound.Event} {t : Nat} {job : JobId}
    {lane : OutboundLaneKey} (hinv : Inv τ x a) (hrouted : Routed τ x)
    (hσ : Outbound.Run Machine.anything σ ⟨a.scheduler, t, none⟩) (hd : Drives τ σ) (hout : x.Out a job) (hlane : OnLane τ job lane) :
    job ∈ outstanding lane σ := by
  have hflight : a.scheduler.inFlight.contains job = true := by
    have hbalance := hinv.balanced.balance job
    unfold Sys.Out at hout
    rw [hbalance] at hout
    split at hout
    · assumption
    · cases hout
  have hphase := ((life_run hσ).inFlight job).1 hflight
  obtain ⟨g, metadata, now, hg, rfl⟩ := granted_of_inFlight hphase
  obtain ⟨options, o, ho, hjob⟩ := (titled_run hσ).granted g metadata now hg
  obtain ⟨token', request', howns', hsent', hask⟩ := hd.owned metadata options o ho
  obtain ⟨token, request, howns, hsent, hl⟩ := hlane
  -- the job has one acquire, and the acquire sent one request
  rw [hjob] at howns'
  have htoken := hinv.tokens.token howns howns'
  subst htoken
  have hrequest := hrouted.single token request request' hsent hsent'
  subst hrequest
  rw [← hask.metadata] at hl
  exact List.mem_filter.2 ⟨mem_laneGrants hg hl, by simpa using hphase⟩

/-- Of the jobs of a serial lane at most one is out at a time: from the pass that grants it until the
actor has applied its completion no other has a permit. -/
theorem serial_permits_apart {mode : OutboundLaneKey → OutboundLaneMode} {τ : List Event} {x : Sys} (hr : Run τ x)
    {a : OutboundActor} (ha : x.actor = some a)
    (hmode : ∀ token request, .sent token request ∈ τ → ∀ lane, request.metadata.lane = some lane →
      request.laneMode.getD .serial = mode lane) {lane : OutboundLaneKey} (hserial : mode lane = .serial) {i j : JobId}
    (hi : OnLane τ i lane) (hj : OnLane τ j lane) (hiout : x.Out a i) (hjout : x.Out a j) : i = j := by
  have hinv := (inv_run hr).2 a ha
  obtain ⟨hrouted, σ, t, hσ, -, -, hd⟩ := driven_run hr a ha
  have hfixed : Outbound.Run (FixedMode mode) σ ⟨a.scheduler, t, none⟩ := by
    refine fixed_run hσ fun e he metadata options hasks lane hlane => ?_
    obtain ⟨token, request, hsent, hask⟩ := hd.asked e he metadata options hasks
    rw [hask.laneMode]
    exact (hmode token request hsent lane (hask.metadata ▸ hlane)).symm
  have hbound : (outstanding lane σ).length ≤ 1 := by
    have hb : LaneBounded (mode lane) lane σ := (counted_unbounded hfixed).bounded (by rw [hserial]; rfl)
    rwa [hserial] at hb
  have himem := outstanding_of_out hinv hrouted hσ hd hiout hi
  have hjmem := outstanding_of_out hinv hrouted hσ hd hjout hj
  match hout : outstanding lane σ, hbound with
  | [], _ =>
    rw [hout] at himem
    cases himem
  | [k], _ =>
    rw [hout, List.mem_singleton] at himem hjmem
    exact himem.trans hjmem.symm

theorem serial_permits_apart_laneQueue : ∃ τ x a, Run τ x ∧ x.actor = some a ∧ OnLane τ 0 7 ∧ OnLane τ 1 7 ∧ x.Out a 0 ∧
    ∀ job, OnLane τ job 7 → x.Out a job → job = 0 := by
  obtain ⟨τ, x, a, hr, ha, hsent, hentered, -, hpermit⟩ := laneQueue_run
  have hfirst : .sent 0 laneSeven ∈ τ ∧ .sent 1 laneSeven ∈ τ := by
    constructor <;> exact mem_requests.1 (by rw [hsent]; decide)
  have hown : Owns τ 0 0 ∧ Owns τ 1 1 := ⟨⟨none, hentered.1⟩, ⟨none, hentered.2⟩⟩
  have hon : OnLane τ 0 7 := ⟨0, laneSeven, hown.1, hfirst.1, rfl⟩
  have hout : x.Out a 0 := by
    unfold Sys.Out
    omega
  refine ⟨τ, x, a, hr, ha, hon, ⟨1, laneSeven, hown.2, hfirst.2, rfl⟩, hout, fun job hjob hjobout => ?_⟩
  refine @serial_permits_apart (fun _ => .serial) τ x hr a ha (fun token request hs lane _ => ?_) 7 rfl job 0 hjob hon hjobout hout
  have hm := mem_requests.2 hs
  rw [hsent] at hm
  rcases List.mem_cons.1 hm with he | hm
  · cases he
    rfl
  · cases List.mem_singleton.1 hm
    rfl

end Teloxide.Outbound.Actor
