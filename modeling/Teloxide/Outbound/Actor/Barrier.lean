import Teloxide.Outbound.Actor.Drive

/-!
# What the actor has applied binds

A completion that has only been sent may be overtaken by a later request. Once the actor has
applied it this cannot happen any more, and that is what a caller waits for who awaits the
completion.

* `Treats`: what a step of the actor does to its scheduler.
* `applied_binds`: no job that a penalty covers is granted between the completion that brought the
  penalty and its deadline.
-/
namespace Teloxide.Outbound.Actor

open Teloxide.Core SchedulerState

/-! ## One step of the actor -/

/-- What a step of the actor does to its scheduler. -/
inductive Treats (x : Sys) (a : OutboundActor) (s' : SchedulerState) : Event → Prop
  | aside {e} : KeepsMetadata a.scheduler s' → Harder a.scheduler s' → (∀ p : Freeze, e ≠ p.applied) →
      (∀ job t r, e ≠ .accepted job t r) → (∀ gs now, e ≠ .admitted gs now) → Treats x a s' e
  | applied {job c t outcome observedAt ack} : .complete job c t outcome observedAt ack ∈ x.lifecycle →
      s' = a.scheduler.complete job outcome x.clock observedAt → Treats x a s' (.applied job outcome observedAt)
  | accepted {c rest o r} : x.ingress = c :: rest →
      a.scheduler.enqueue c.request.metadata (a.enqueueOptions c.request x.clock) = (s', .ok o) → o.job + 1 < u64Size →
      Treats x a s' (.accepted o.job c.token r)
  | admitted {order fuel gs} : a.scheduler.grantReady order fuel x.clock = some (s', gs) →
      Treats x a s' (.admitted gs x.clock)

theorem harder_refl (s : SchedulerState) : Harder s s := .of_eq rfl

section
variable {x x' : Sys} {a a' : OutboundActor} {e : Event}

theorem Treats.same {s' : SchedulerState} (hs : s' = a.scheduler) (hp : ∀ p : Freeze, e ≠ p.applied)
    (ha : ∀ job t r, e ≠ .accepted job t r) (hg : ∀ gs now, e ≠ .admitted gs now) : Treats x a s' e := by
  subst hs
  exact .aside (.refl _) (harder_refl _) hp ha hg

theorem Treats.quiet {s' : SchedulerState} (hs : s' = a.scheduler) : Treats x a s' .quiet :=
  .same hs (fun _ h => by cases h) (fun _ _ _ h => by cases h) (fun _ _ h => by cases h)

theorem Treats.cancels (job : JobId) (now : Nat) : Treats x a (a.scheduler.cancel job now) .quiet :=
  .aside (cancel_keepsMetadata _ _ _) (.of_eq (congrArg (·.2) (cancel_accounts _ _ _))) nofun nofun nofun

theorem receive_treats {order : List CandidateRef} (h : x.receive a order x.clock = some (x', e))
    (ha' : x'.actor = some a') : Treats x a a'.scheduler e := by
  unfold Sys.receive at h
  split at h
  · split at h
    · cases h
    · cases h
      cases ha'
      exact .quiet rfl
    · rename_i command rest _ hl
      obtain ⟨r, hr, hx⟩ := Option.map_eq_some_iff.1 h
      cases hx
      cases ha'
      obtain ⟨hkeeps, hharder, -⟩ := handleCommand_leaves hr
      cases command with
      | complete job c t outcome observedAt ack =>
        cases hr
        refine .applied (hl ▸ List.mem_cons_self) ?_
        show (a.handleComplete x.clients job t outcome observedAt x.clock).1.scheduler = _
        rw [OutboundActor.handleComplete, forgetJob_scheduler]
      | cancel | start | penalize | setLimits | setClassLimits | getLimits | getClassLimits | setObserver | getSnapshot
      | shutdown =>
        exact .aside hkeeps hharder (fun _ h => by cases h) (fun _ _ _ h => by cases h) (fun _ _ h => by cases h)
  · cases h

theorem accept_treats (h : x.accept a x.clock = some (x', e)) (ha' : x'.actor = some a') : Treats x a a'.scheduler e := by
  unfold Sys.accept at h
  split at h
  · rename_i t₀ request token rest _ hi
    dsimp only at h
    split at h
    · cases h
      cases ha'
      exact .same rfl nofun nofun nofun
    · split at h
      · rename_i s o hq
        split at h
        · rename_i hid
          cases h
          cases ha'
          have hs : ({ a with scheduler := s }.supersede (x.clients.store token .accepted) o.superseded).1.scheduler = s :=
            (supersede_leaves _ _ _).1
          exact .accepted (c := ⟨request, token⟩) hi (by rw [hq, OutboundActor.record, hs]) hid
        · cases h
      · rename_i s error hq
        cases h
        cases ha'
        have hpen := congrArg (·.2) (a.scheduler.enqueue_accounts request.metadata (a.enqueueOptions request x.clock))
        rw [hq] at hpen
        exact .aside (enqueue_error_stays hq).keepsMetadata (.of_eq hpen) nofun nofun nofun
  · cases h

theorem answer_treats (h : x.answer a x.clock = some x') (ha' : x'.actor = some a') :
    Treats x a a'.scheduler .quiet := by
  unfold Sys.answer at h
  split at h
  · rename_i job _
    dsimp only at h
    split at h
    · cases h
      cases ha'
      exact .same rfl nofun nofun nofun
    · cases h
      cases ha'
      dsimp only
      rw [forgetJob_scheduler]
      exact .cancels job x.clock
  · cases h
    cases ha'
    exact .same rfl nofun nofun nofun
  · cases h

theorem deliver_treats (h : x.deliver a x.clock = some (x', e)) (ha' : x'.actor = some a') : Treats x a a'.scheduler e := by
  unfold Sys.deliver at h
  split at h
  · rename_i grant grants t₀ _
    dsimp only at h
    split at h
    · cases h
      cases ha'
      exact .same rfl nofun nofun nofun
    · rename_i token _
      split at h
      · cases h
        cases ha'
        exact .same rfl nofun nofun nofun
      · obtain ⟨hs, -, -⟩ := tell_leaves { a with phase := .delivering grants t₀ } x.clients grant.job
          (.granted ⟨grant.job, token, grant.correlationId, false⟩)
        split at h
        · cases h
          cases ha'
          exact .same hs nofun nofun nofun
        · cases h
          cases ha'
          exact .same hs nofun nofun nofun
  · cases h

theorem act_treats {action : Action} (h : x.act a x.clock action = some (x', e)) (ha' : x'.actor = some a') :
    Treats x a a'.scheduler e := by
  have hquiet {o : Option Sys} (ho : o.map (·, Event.quiet) = some (x', e)) : o = some x' ∧ e = .quiet := by
    obtain ⟨y, hy, hx⟩ := Option.map_eq_some_iff.1 ho
    cases hx
    exact ⟨hy, rfl⟩
  cases action with
  | receive order => exact receive_treats h ha'
  | accept => exact accept_treats h ha'
  | answer =>
    obtain ⟨hr, rfl⟩ := hquiet h
    exact answer_treats hr ha'
  | runAdmission order fuel =>
    simp only [Sys.act, Sys.runAdmission] at h
    split at h
    · split at h
      · cases h
      · obtain ⟨⟨s, gs⟩, hg, hx⟩ := Option.map_eq_some_iff.1 h
        cases hx
        cases ha'
        exact .admitted hg
    · cases h
  | deliver => exact deliver_treats h ha'
  | park =>
    obtain ⟨hr, rfl⟩ := hquiet h
    unfold Sys.park at hr
    split at hr
    · rename_i t₀ _
      cases hr
      cases ha'
      exact .aside (Stays.of_moves (nextDeadline_quiet _ t₀).toMoves).keepsMetadata
        (.of_eq (nextDeadline_quiet _ t₀).penalties) (fun _ h => by cases h) (fun _ _ _ h => by cases h)
        (fun _ _ h => by cases h)
    · cases hr
  | timer =>
    obtain ⟨hr, rfl⟩ := hquiet h
    unfold Sys.timer at hr
    split at hr
    · split at hr
      · cases hr
        cases ha'
        exact .quiet rfl
      · cases hr
    · cases hr
  | ingressClosed =>
    obtain ⟨hr, rfl⟩ := hquiet h
    unfold Sys.ingressClosed at hr
    split at hr
    · split at hr
      · cases hr
        cases ha'
        exact .quiet rfl
      · cases hr
    · cases hr
  | closeWaiter job =>
    simp only [Sys.act, Sys.closeWaiter] at h
    split at h
    · cases h
    · cases h
      cases ha'
      obtain ⟨hs, -, -⟩ := tell_leaves a x.clients job .closed
      refine .same hs ?_ ?_ ?_
      · split <;> (intro _ h; cases h)
      · split <;> (intro _ _ _ h; cases h)
      · split <;> (intro _ _ h; cases h)
  | stop =>
    obtain ⟨hr, rfl⟩ := hquiet h
    unfold Sys.stop at hr
    split at hr
    · cases hr
      cases ha'
    · cases hr
  | mint | trySend | pollEnqueue | pollGrant | dropFuture | sendCancel | dropField | start | complete | completeAndAwait
  | dropPermit | command | cloneHandle | dropHandle => cases h

end

/-! ## Runs -/

/-- No job is granted before the deadline of a penalty that covers it and was applied before. -/
def AppliedBinds (τ : List Event) : Prop :=
  ∀ later grants now earlier, τ = later ++ .admitted grants now :: earlier →
    ∀ g ∈ grants, ∀ token request, Owns earlier g.job token → .sent token request ∈ earlier →
      ∀ p : Freeze, p.duration ≠ 0 → p.applied ∈ earlier → p.scope.covers request.metadata.scope = true → p.deadline ≤ now

/-- The jobs have the metadata of their requests, and the penalties that were applied are in force. -/
structure Frozen (τ : List Event) (x : Sys) (a : OutboundActor) : Prop where
  metadata : ∀ id job, a.scheduler.jobs.lookup id = some job → ∀ t r, Owns τ id t → .sent t r ∈ τ → job.metadata = r.metadata
  registered : ∀ p : Freeze, p.duration ≠ 0 → p.applied ∈ τ → p.deadline ≤ x.clock ∨
    ∃ D, a.scheduler.penalties.lookup (.ofScope p.scope) = some D ∧ p.deadline ≤ D

section
variable {τ : List Event} {x x' : Sys} {a a' : OutboundActor} {e : Event}

theorem AppliedBinds.cons (h : AppliedBinds τ)
    (he : ∀ grants now, e = .admitted grants now → ∀ g ∈ grants, ∀ token request, Owns τ g.job token → .sent token request ∈ τ →
      ∀ p : Freeze, p.duration ≠ 0 → p.applied ∈ τ → p.scope.covers request.metadata.scope = true → p.deadline ≤ now) :
    AppliedBinds (e :: τ) := by
  intro later grants now earlier heq
  cases later with
  | nil =>
    obtain ⟨rfl, rfl⟩ := List.cons.inj heq
    exact he grants now rfl
  | cons e' later =>
    obtain ⟨-, rfl⟩ := List.cons.inj heq
    exact h later grants now earlier rfl

theorem AppliedBinds.of_call (h : AppliedBinds τ) (he : e.isCall = true) : AppliedBinds (e :: τ) :=
  h.cons fun grants now heq => by
    subst heq
    cases he

/-- A caller gives no job other metadata, and takes back no penalty. -/
theorem Frozen.calls (h : Frozen τ x a) (hinv : Inv τ x a) (hc : x.Calls a x' e) : Frozen (e :: τ) x' a := by
  have hout : e.outside := Event.isCall.outside (Calls.isCall hc)
  have hclock := Calls.clock_eq hc
  refine ⟨fun id job hj t r ho hs => ?_, fun p hd hm => ?_⟩
  · have ho' := (owns_outside hout id t).1 ho
    rcases List.mem_cons.1 hs with heq | hs
    · -- a request that is just being sent has no job
      have hminted : (x.clients t).stage = .minted r := by
        cases hc with
        | sends hst =>
          cases heq
          exact hst
        | mints | overflows | commands => cases heq
        | moves _ hshows =>
          rw [← heq] at hshows
          rcases hshows with he | ⟨_, _, _, _, _, _, he, -⟩ <;> cases he
      exact absurd hminted ((hinv.tokens.owned id t ho').1.2.2 r)
    · exact h.metadata id job hj t r ho' hs
  · rw [hclock]
    refine h.registered p hd ((List.mem_cons.1 hm).resolve_left fun heq => ?_)
    have hcall := Calls.isCall hc
    rw [← heq] at hcall
    cases hcall

/-- A step of the actor; a pass grants no job too early. -/
theorem Frozen.acts (h : Frozen τ x a) (hinv : Inv τ x a) (hrouted : Routed τ x) (hclock : x'.clock = x.clock)
    (hunsent : ∀ t r, e ≠ .sent t r) (ht : Treats x a a'.scheduler e) : Frozen (e :: τ) x' a' ∧
      ∀ grants now, e = .admitted grants now → ∀ g ∈ grants, ∀ token request, Owns τ g.job token → .sent token request ∈ τ →
        ∀ p : Freeze, p.duration ≠ 0 → p.applied ∈ τ → p.scope.covers request.metadata.scope = true → p.deadline ≤ now := by
  have hsent {t : Token} {r : Request} (hm : .sent t r ∈ e :: τ) : .sent t r ∈ τ :=
    (List.mem_cons.1 hm).resolve_left fun heq => hunsent t r heq.symm
  have hkept (hk : KeepsMetadata a.scheduler a'.scheduler) (ha : ∀ job t r, e ≠ .accepted job t r) (id : JobId) (job' : Job)
      (hj' : a'.scheduler.jobs.lookup id = some job') (t : Token) (r : Request) (ho : Owns (e :: τ) id t)
      (hs : .sent t r ∈ e :: τ) : job'.metadata = r.metadata := by
    obtain ⟨job, hj, hmeta⟩ := hk id job' hj'
    exact hmeta.trans (h.metadata id job hj t r ((owns_cons ha id t).1 ho) (hsent hs))
  have hharder (hh : Harder a.scheduler a'.scheduler) (p : Freeze) (hd : p.duration ≠ 0) (hm : p.applied ∈ τ) :
      p.deadline ≤ x'.clock ∨ ∃ D, a'.scheduler.penalties.lookup (.ofScope p.scope) = some D ∧ p.deadline ≤ D := by
    rw [hclock]
    refine (h.registered p hd hm).imp_right fun ⟨D, hD, hle⟩ => ?_
    obtain ⟨D', hD', hle'⟩ := hh _ D hD
    exact ⟨D', hD', hle.trans hle'⟩
  cases ht with
  | aside hk hh hp ha hg =>
    refine ⟨⟨hkept hk ha, fun p hd hm => hharder hh p hd ((List.mem_cons.1 hm).resolve_left fun heq => hp p heq.symm)⟩,
      fun gs now he => absurd he (hg gs now)⟩
  | @applied job c t outcome observedAt ack hm hs =>
    have hin := hinv.balanced.inFlight hm
    have hk : KeepsMetadata a.scheduler a'.scheduler := hs ▸ complete_keepsMetadata _ _ _ _ _
    have hh : Harder a.scheduler a'.scheduler := hs ▸ complete_harder _ _ _ _ _
    refine ⟨⟨hkept hk nofun, fun p hd hmem => ?_⟩, nofun⟩
    rcases List.mem_cons.1 hmem with heq | hmem
    · cases heq
      refine Or.inr ?_
      rw [hs]
      exact complete_registers hin p.scope hd x.clock p.observedAt
    · exact hharder hh p hd hmem
  | @accepted c rest o r hi hq hid =>
    have hpen := congrArg (·.2) (a.scheduler.enqueue_accounts c.request.metadata (a.enqueueOptions c.request x.clock))
    rw [hq] at hpen
    have hh : Harder a.scheduler a'.scheduler := .of_eq hpen
    obtain ⟨hnew, -, -, -, -⟩ := enqueue_ids hq hid
    have hrequest : .sent c.token c.request ∈ τ := hrouted.queued c (hi ▸ List.mem_cons_self)
    have hfresh {t : Token} (ho : Owns τ o.job t) : False := by
      have hlt := (hinv.tokens.owned o.job t ho).2
      rw [hnew] at hlt
      exact Nat.lt_irrefl _ hlt
    refine ⟨⟨fun id job' hj' t r' ho hs => ?_, fun p hd hm => hharder hh p hd ((List.mem_cons.1 hm).resolve_left nofun)⟩, nofun⟩
    have howns : id = o.job ∧ t = c.token ∨ Owns τ id t := by
      obtain ⟨r'', hm⟩ := ho
      rcases List.mem_cons.1 hm with heq | hm
      · cases heq
        exact Or.inl ⟨rfl, rfl⟩
      · exact Or.inr ⟨r'', hm⟩
    rcases enqueue_metadata hq hid hj' with ⟨rfl, hmeta⟩ | ⟨job, hj, hmeta⟩
    · rcases howns with ⟨-, rfl⟩ | ho
      · rw [hmeta, hrouted.single c.token r' c.request (hsent hs) hrequest]
      · exact (hfresh ho).elim
    · rcases howns with ⟨rfl, -⟩ | ho
      · have hgone := (hinv.clocked.books.fresh (Nat.le_of_eq hnew.symm)).1
        rw [live_of hj] at hgone
        cases hgone
      · exact hmeta.trans (h.metadata id job hj t r' ho (hsent hs))
  | @admitted order fuel gs hpass =>
    refine ⟨⟨hkept (grantReady_keepsMetadata hpass) nofun, fun p hd hm => ?_⟩, fun gs' now he g hg token request ho hs p hd hm hc => ?_⟩
    · rw [hclock]
      rcases h.registered p hd ((List.mem_cons.1 hm).resolve_left nofun) with hle | ⟨D, hD, hle⟩
      · exact Or.inl hle
      · by_cases hlate : x.clock < D
        · refine Or.inr ⟨D, ?_, hle⟩
          rw [grantReady_penalties hpass, hD, Option.filter_some, if_pos (by simpa using hlate)]
        · exact Or.inl (hle.trans (Nat.le_of_not_lt hlate))
    · cases he
      obtain ⟨job, hj, hfree⟩ := grantReady_unpenalised hpass hg
      rcases h.registered p hd hm with hle | ⟨D, hD, hle⟩
      · exact hle
      · have hmeta := h.metadata g.job job hj token request ho hs
        exact hle.trans (hfree p.scope D (hmeta ▸ hc) hD)

end

theorem Frozen.later {τ : List Event} {x : Sys} {a : OutboundActor} {now : Nat} (h : Frozen τ x a) (hle : x.clock ≤ now) :
    Frozen τ { x with clock := now } a :=
  ⟨h.metadata, fun p hd hm => (h.registered p hd hm).imp_left fun hp => hp.trans hle⟩

/-- A penalty that the actor has applied holds back every job it covers, whichever caller it is of
and whenever its request was sent. -/
theorem applied_binds {τ : List Event} {x : Sys} (hr : Run τ x) : AppliedBinds τ := by
  suffices h : AppliedBinds τ ∧ ∀ a, x.actor = some a → Frozen τ x a from h.1
  refine Machine.Run.induct (I := fun τ x => AppliedBinds τ ∧ ∀ a, x.actor = some a → Frozen τ x a) ?_ ?_ hr
  · rintro x ⟨limits, classLimits, aging, scheduler, capacity, clock, -, -, rfl⟩
    refine ⟨fun later grants now earlier heq => ?_, fun a ha => ?_⟩
    · cases later <;> cases heq
    · exact ⟨fun _ _ _ _ _ _ hm => (nomatch hm), fun _ _ hm => (nomatch hm)⟩
  · rintro τ x m x' e hrun ⟨hbinds, ih⟩ - hstep
    obtain ⟨hlater, hstepped⟩ := step_stepped hrun hstep
    cases hstepped with
    | gone _ hgone hcall =>
      refine ⟨hbinds.of_call hcall, fun a' ha' => ?_⟩
      rw [hgone] at ha'
      cases ha'
    | @called a ha hsame hcalls =>
      refine ⟨hbinds.of_call (Calls.isCall hcalls), fun a' ha' => ?_⟩
      have heq : a = a' := Option.some.inj (hsame.symm.trans ha')
      subst heq
      exact ((ih a ha).later hlater).calls (((inv_run hrun).2 a ha).later hlater) hcalls
    | @acted a ha hact =>
      have hleaves := act_leaves hact
      have hinv := ((inv_run hrun).2 a ha).later hlater
      obtain ⟨hrouted, -⟩ := driven_run hrun a ha
      have hacts {a' : OutboundActor} (ha' : x'.actor = some a') :=
        ((ih a ha).later hlater).acts hinv ⟨hrouted.sent, hrouted.queued, hrouted.single⟩ hleaves.clock hleaves.unsent
          (act_treats hact ha')
      refine ⟨hbinds.cons fun grants now he => ?_, fun a' ha' => (hacts ha').1⟩
      rcases hinv.acts hact with ⟨a', ha', -⟩ | ⟨-, rfl⟩
      · exact (hacts ha').2 grants now he
      · cases he

end Teloxide.Outbound.Actor
