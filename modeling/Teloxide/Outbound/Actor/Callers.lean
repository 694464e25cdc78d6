import Teloxide.Outbound.Actor.Drive

/-!
# What a caller does to its acquire

* `After`: where a step of a caller leaves its acquire, whether the actor runs or not.
* `step_walks`: how far every acquire has come after a step of the queue.
* `outlives_run`: a permit is that of a granted job that is not completed, also when the actor is gone.
* `underway_run`: a completion that was reported has been applied, or is still in the channel.
-/
namespace Teloxide.Outbound.Actor

open Teloxide.Core

/-- The acquire that a step of a caller is about. -/
def Action.token : Action → Option Token
  | .trySend t | .pollEnqueue t | .pollGrant t | .dropFuture t | .sendCancel t | .dropField t | .start t | .complete t ..
  | .completeAndAwait t _ | .dropPermit t => some t
  | .mint _ | .command _ | .cloneHandle | .dropHandle | .receive _ | .accept | .answer | .runAdmission .. | .deliver | .park
  | .timer | .ingressClosed | .closeWaiter _ | .stop => none

/-- Where a step of a caller leaves its acquire, and what it shows. -/
inductive After (now : Nat) (c : Client) : Action → Stage → Event → Prop
  | sent {t r} : c.stage = .minted r → After now c (.trySend t) (.enqueuing true) (.sent t r)
  | unsent {t r} : c.stage = .minted r → After now c (.trySend t) (.enqueuing false) .quiet
  | accepted {t sent} : c.stage = .enqueuing sent → After now c (.pollEnqueue t) .waiting .quiet
  | refused {t sent error} : c.stage = .enqueuing sent → After now c (.pollEnqueue t) (.failed error) .quiet
  | granted {t permit} : c.stage = .waiting → c.granted.value = some (.granted permit) →
      After now c (.pollGrant t) (.holding permit) .quiet
  | failed {t error} : c.stage = .waiting → After now c (.pollGrant t) (.failed error) .quiet
  | cancelling {t fields} : c.stage ≠ .unborn → After now c (.dropFuture t) (.cancelling fields) .quiet
  | leaving {t fields} : c.stage ≠ .unborn → After now c (.dropFuture t) (.leaving fields) .quiet
  | cancelled {t fields} : c.stage ≠ .unborn → After now c (.sendCancel t) (.leaving fields) .quiet
  | dropped {t fields} : c.stage ≠ .unborn → After now c (.dropField t) (.leaving fields) .quiet
  | started {t permit} : c.stage = .holding permit → After now c (.start t) (.holding { permit with started := true }) .quiet
  | completed {t permit outcome observedAt} : c.stage = .holding permit →
      After now c (.complete t outcome observedAt) .finished (.reported permit.job outcome observedAt)
  | awaited {t permit outcome} : c.stage = .holding permit →
      After now c (.completeAndAwait t outcome) .finished (.reported permit.job outcome now)
  | released {t permit} : c.stage = .holding permit → After now c (.dropPermit t) .finished .quiet

theorem setStage_stages (clients : Clients) (t u : Token) (stage : Stage) :
    (clients.setStage t stage).stages u = if u = t then stage else clients.stages u := by
  unfold Clients.stages Clients.setStage Clients.modify
  split <;> rfl

theorem send_clients (x : Sys) (command : OutboundCommand) : (x.send command).clients = x.clients := by
  unfold Sys.send
  split <;> rfl

theorem send_nextToken (x : Sys) (command : OutboundCommand) : (x.send command).nextToken = x.nextToken := by
  unfold Sys.send
  split <;> rfl

/-- One acquire has moved on, and the others stand where they stood. -/
def Advanced (x x' : Sys) (t : Token) (stage : Stage) : Prop :=
  x'.nextToken = x.nextToken ∧ ∀ u, x'.clients.stages u = if u = t then stage else x.clients.stages u

section
variable {x x' : Sys} {now : Nat} {t : Token} {e : Event}

theorem Advanced.of_stages {c : Clients} {stage : Stage} (hn : x'.nextToken = x.nextToken)
    (hs : x'.clients.stages = (c.setStage t stage).stages) (hc : c.stages = x.clients.stages) :
    Advanced x x' t stage := by
  refine ⟨hn, fun u => ?_⟩
  rw [hs, setStage_stages, hc]

theorem trySend_after (h : x.trySend t = some (x', e)) :
    ∃ stage, Advanced x x' t stage ∧ After now (x.clients t) (.trySend t) stage e := by
  unfold Sys.trySend at h
  split at h
  · rename_i request hs
    split at h
    · cases h
      exact ⟨_, .of_stages rfl rfl (modify_stages _ _ fun _ => rfl), .unsent hs⟩
    · split at h
      · cases h
        exact ⟨_, .of_stages rfl rfl rfl, .sent hs⟩
      · cases h
        exact ⟨_, .of_stages rfl rfl ((dropGranted_stages _ _).trans (sendResponse_stages _ _ _)), .unsent hs⟩
  · cases h

theorem pollEnqueue_after (h : x.pollEnqueue t = some x') :
    ∃ stage, Advanced x x' t stage ∧ After now (x.clients t) (.pollEnqueue t) stage .quiet := by
  unfold Sys.pollEnqueue at h
  split at h
  · rename_i sent hs
    dsimp only at h
    split at h
    · cases h
    · cases h
      exact ⟨_, .of_stages rfl rfl (modify_stages _ _ fun _ => rfl), .accepted hs⟩
    · cases h
      exact ⟨_, .of_stages rfl rfl (modify_stages _ _ fun _ => rfl), .refused hs⟩
    · cases h
      exact ⟨_, .of_stages rfl rfl (modify_stages _ _ fun _ => rfl), .refused hs⟩
  · cases h

theorem pollGrant_after (h : x.pollGrant t = some x') :
    ∃ stage, Advanced x x' t stage ∧ After now (x.clients t) (.pollGrant t) stage .quiet := by
  unfold Sys.pollGrant at h
  split at h
  · rename_i hs
    dsimp only at h
    split at h
    · cases h
    · rename_i permit hr
      cases h
      exact ⟨_, .of_stages rfl rfl (modify_stages _ _ fun _ => rfl), .granted hs (Oneshot.poll_ready hr)⟩
    · cases h
      exact ⟨_, .of_stages rfl rfl (modify_stages _ _ fun _ => rfl), .failed hs⟩
    · cases h
      exact ⟨_, .of_stages rfl rfl (modify_stages _ _ fun _ => rfl), .failed hs⟩
    · cases h
      exact ⟨_, .of_stages rfl rfl (modify_stages _ _ fun _ => rfl), .failed hs⟩
  · cases h

theorem dropFuture_after (h : x.dropFuture t = some x') :
    ∃ stage, Advanced x x' t stage ∧ After now (x.clients t) (.dropFuture t) stage .quiet := by
  have hcancel (hs : (x.clients t).stage ≠ .unborn) (fields : List Field) :
      ∃ stage, Advanced x (x.cancelling t fields) t stage ∧ After now (x.clients t) (.dropFuture t) stage .quiet := by
    unfold Sys.cancelling
    split
    · exact ⟨_, .of_stages rfl rfl (store_stages _ _ _), .cancelling hs⟩
    · exact ⟨_, .of_stages rfl rfl rfl, .leaving hs⟩
  unfold Sys.dropFuture at h
  split at h
  · rename_i hs
    cases h
    exact hcancel (by rw [hs]; exact nofun) _
  · rename_i hs
    cases h
    exact ⟨_, .of_stages rfl rfl rfl, .leaving (by rw [hs]; exact nofun)⟩
  · rename_i hs
    cases h
    exact hcancel (by rw [hs]; exact nofun) _
  · cases h

theorem dropField_after (h : x.dropField t now = some x') :
    ∃ stage, Advanced x x' t stage ∧ After now (x.clients t) (.dropField t) stage .quiet := by
  unfold Sys.dropField at h
  split at h
  · rename_i field fields hs
    dsimp only at h
    have hborn : (x.clients t).stage ≠ .unborn := by
      rw [hs]
      exact nofun
    cases field with
    | handle =>
      cases h
      exact ⟨_, .of_stages rfl rfl rfl, .dropped hborn⟩
    | granted =>
      cases h
      refine ⟨.leaving fields, ?_, .dropped hborn⟩
      unfold Sys.dropGrantReceiver
      dsimp only
      split
      · refine .of_stages (c := x.clients) (send_nextToken _ _) ?_ rfl
        rw [Sys.dropPermit, send_clients]
        exact modify_stages _ _ fun _ => rfl
      · exact .of_stages (c := x.clients) rfl (modify_stages _ _ fun _ => rfl) rfl
    | response =>
      cases h
      exact ⟨_, .of_stages (c := x.clients) rfl (modify_stages _ _ fun _ => rfl) rfl, .dropped hborn⟩
  · cases h

theorem startPermit_after (h : x.startPermit t = some x') :
    ∃ stage, Advanced x x' t stage ∧ After now (x.clients t) (.start t) stage .quiet := by
  unfold Sys.startPermit at h
  split at h
  · rename_i permit hs
    split at h
    · cases h
    · cases h
      exact ⟨_, .of_stages (send_nextToken _ _) (by rw [send_clients]) rfl, .started hs⟩
  · cases h

theorem complete_after {outcome : OutboundCompletion} {observedAt : Nat} (h : x.complete t outcome observedAt = some (x', e)) :
    ∃ stage, Advanced x x' t stage ∧ After now (x.clients t) (.complete t outcome observedAt) stage e := by
  unfold Sys.complete at h
  split at h
  · rename_i permit hs
    cases h
    refine ⟨.finished, .of_stages (c := x.clients) (send_nextToken _ _) ?_ rfl, .completed hs⟩
    rw [send_clients]
    exact store_stages _ _ _
  · cases h

theorem completeAndAwait_after {outcome : OutboundCompletion} (h : x.completeAndAwait t outcome now = some (x', e)) :
    ∃ stage, Advanced x x' t stage ∧ After now (x.clients t) (.completeAndAwait t outcome) stage e := by
  unfold Sys.completeAndAwait at h
  split at h
  · rename_i permit hs
    cases h
    exact ⟨_, .of_stages (send_nextToken _ _) (by rw [send_clients]) rfl, .awaited hs⟩
  · cases h

theorem releasePermit_after (h : x.releasePermit t now = some x') :
    ∃ stage, Advanced x x' t stage ∧ After now (x.clients t) (.dropPermit t) stage .quiet := by
  unfold Sys.releasePermit at h
  split at h
  · rename_i permit hs
    cases h
    exact ⟨_, .of_stages (send_nextToken _ _) (by rw [Sys.dropPermit, send_clients]) rfl, .released hs⟩
  · cases h

theorem sendCancel_after (h : x.sendCancel t = some x') :
    ∃ stage, Advanced x x' t stage ∧ After now (x.clients t) (.sendCancel t) stage .quiet := by
  unfold Sys.sendCancel at h
  split at h
  · rename_i fields hs
    cases h
    exact ⟨_, .of_stages (send_nextToken _ _) (by rw [send_clients]) rfl, .cancelled (by rw [hs]; exact nofun)⟩
  · cases h

theorem client_after {action : Action} (ht : action.token = some t) (h : x.client now action = some (x', e)) :
    ∃ stage, Advanced x x' t stage ∧ After now (x.clients t) action stage e := by
  have hquiet {o : Option Sys} (ho : o.map (·, Event.quiet) = some (x', e)) : o = some x' ∧ e = .quiet := by
    obtain ⟨y, hy, hx⟩ := Option.map_eq_some_iff.1 ho
    cases hx
    exact ⟨hy, rfl⟩
  cases action with
  | trySend u =>
    cases ht
    exact trySend_after h
  | pollEnqueue u =>
    cases ht
    obtain ⟨hr, rfl⟩ := hquiet h
    exact pollEnqueue_after hr
  | pollGrant u =>
    cases ht
    obtain ⟨hr, rfl⟩ := hquiet h
    exact pollGrant_after hr
  | dropFuture u =>
    cases ht
    obtain ⟨hr, rfl⟩ := hquiet h
    exact dropFuture_after hr
  | sendCancel u =>
    cases ht
    obtain ⟨hr, rfl⟩ := hquiet h
    exact sendCancel_after hr
  | dropField u =>
    cases ht
    obtain ⟨hr, rfl⟩ := hquiet h
    exact dropField_after hr
  | start u =>
    cases ht
    obtain ⟨hr, rfl⟩ := hquiet h
    exact startPermit_after hr
  | complete u outcome observedAt =>
    cases ht
    exact complete_after h
  | completeAndAwait u outcome =>
    cases ht
    exact completeAndAwait_after h
  | dropPermit u =>
    cases ht
    obtain ⟨hr, rfl⟩ := hquiet h
    exact releasePermit_after hr
  | _ => cases ht

end

/-- What a step of the queue does to the acquires. -/
inductive Walks (now : Nat) (x x' : Sys) (action : Action) (e : Event) : Prop
  | after {t stage} : action.token = some t → Advanced x x' t stage → After now (x.clients t) action stage e →
      Walks now x x' action e
  | minted {request} : action = .mint request → x'.nextToken = x.nextToken + 1 →
      (∀ u, x'.clients.stages u = if u = x.nextToken then .minted request else x.clients.stages u) → e = .quiet →
      Walks now x x' action e
  | aside : action.token = none → (∀ request, action ≠ .mint request) → x'.nextToken = x.nextToken →
      x'.clients.stages = x.clients.stages → (∀ t request, e ≠ .sent t request) → Walks now x x' action e

theorem client_walks {x x' : Sys} {now : Nat} {action : Action} {e : Event} (h : x.client now action = some (x', e)) :
    Walks now x x' action e := by
  cases ht : action.token with
  | some t =>
    obtain ⟨stage, hadv, hafter⟩ := client_after ht h
    exact .after ht hadv hafter
  | none =>
    cases action with
    | mint request =>
      obtain ⟨y, hy, hx⟩ := Option.map_eq_some_iff.1 h
      cases hx
      unfold Sys.mint at hy
      split at hy
      · cases hy
      · cases hy
        exact .minted rfl rfl (fun u => setStage_stages _ _ _ _) rfl
    | command command =>
      simp only [Sys.client] at h
      split at h
      · cases h
        exact .aside rfl (fun _ h => by cases h) (send_nextToken _ _) (by rw [send_clients]) fun _ _ h => by cases h
      · cases h
    | cloneHandle | dropHandle =>
      simp only [Sys.client] at h
      split at h
      · cases h
        exact .aside rfl (fun _ h => by cases h) rfl rfl fun _ _ h => by cases h
      · cases h
    | trySend | pollEnqueue | pollGrant | dropFuture | sendCancel | dropField | start | complete | completeAndAwait
    | dropPermit => cases ht
    | receive | accept | answer | runAdmission | deliver | park | timer | ingressClosed | closeWaiter | stop => cases h

theorem act_walks {x x' : Sys} {a : OutboundActor} {now : Nat} {action : Action} {e : Event}
    (h : x.act a now action = some (x', e)) : Walks now x x' action e := by
  have hleaves := act_leaves h
  have haside (ht : action.token = none) (hm : ∀ request, action ≠ .mint request) : Walks now x x' action e :=
    .aside ht hm hleaves.nextToken hleaves.stages hleaves.unsent
  cases action with
  | mint | trySend | pollEnqueue | pollGrant | dropFuture | sendCancel | dropField | start | complete | completeAndAwait
  | dropPermit | command | cloneHandle | dropHandle => cases h
  | receive | accept | answer | runAdmission | deliver | park | timer | ingressClosed | closeWaiter | stop =>
    exact haside rfl fun _ h => by cases h

theorem step_walks {x x' : Sys} {action : Action} {now : Nat} {e : Event} (h : queue.step x (action, now) = some (x', e)) :
    Walks now x x' action e := by
  have hclock {w : Sys} (hw : Walks now { x with clock := now } w action e) : Walks now x w action e := by
    cases hw with
    | after ht hadv hafter => exact .after ht hadv hafter
    | minted ha hn hs he => exact .minted ha hn hs he
    | aside ht hm hn hs hu => exact .aside ht hm hn hs hu
  change x.step (action, now) = some (x', e) at h
  unfold Sys.step at h
  split at h
  · cases h
  · dsimp only at h
    split at h
    · rename_i r hc
      cases h
      exact hclock (client_walks hc)
    · rw [Option.bind_eq_some_iff] at h
      obtain ⟨a, -, hact⟩ := h
      exact hclock (act_walks hact)

/-- Only an acquire that has its token takes steps. -/
theorem After.born {now : Nat} {c : Client} {action : Action} {stage : Stage} {e : Event} (h : After now c action stage e) :
    c.stage ≠ .unborn := by
  cases h with
  | cancelling hs | leaving hs | cancelled hs | dropped hs => exact hs
  | sent hs | unsent hs | accepted hs | refused hs | granted hs _ | failed hs | started hs | completed hs | awaited hs
  | released hs =>
    rw [hs]
    exact nofun

/-- The stages that an acquire cannot come back to. -/
theorem After.onward {now : Nat} {c : Client} {action : Action} {stage : Stage} {e : Event} (h : After now c action stage e) :
    stage ≠ .unborn ∧ ∀ r, stage ≠ .minted r := by
  cases h <;> exact ⟨(fun h => by cases h), fun _ h => by cases h⟩

/-! ## Requests, with and without the actor -/

/-- The requests that were sent are each that of one acquire, which has its token. -/
structure Posted (τ : List Event) (x : Sys) : Prop where
  fresh : ∀ t, x.nextToken ≤ t → x.clients.stages t = .unborn
  sent : ∀ t r, .sent t r ∈ τ → t < x.nextToken ∧ ∀ q, x.clients.stages t ≠ .minted q
  single : ∀ t r r', .sent t r ∈ τ → .sent t r' ∈ τ → r = r'

theorem Posted.step {τ : List Event} {x x' : Sys} {now : Nat} {action : Action} {e : Event} (h : Posted τ x)
    (hw : Walks now x x' action e) : Posted (e :: τ) x' := by
  cases hw with
  | @after t stage htoken hadv hafter =>
    have hborn : t < x.nextToken := Nat.lt_of_not_le fun hle => hafter.born (h.fresh t hle)
    have hnew {u : Token} {r : Request} (hm : .sent u r ∈ e :: τ) : .sent u r ∈ τ ∨ u = t ∧ x.clients.stages t = .minted r := by
      rcases List.mem_cons.1 hm with rfl | hm
      · cases hafter with
        | sent hs => exact Or.inr ⟨Option.some.inj htoken, hs⟩
      · exact Or.inl hm
    refine ⟨fun u hu => ?_, fun u r hm => ?_, fun u r r' hm hm' => ?_⟩
    · rw [hadv.1] at hu
      rw [hadv.2 u, if_neg fun hut : u = t => Nat.not_lt.2 hu (hut ▸ hborn)]
      exact h.fresh u hu
    · rw [hadv.1, hadv.2 u]
      rcases hnew hm with hm | ⟨rfl, -⟩
      · obtain ⟨hlt, hq⟩ := h.sent u r hm
        refine ⟨hlt, ?_⟩
        split
        · exact hafter.onward.2
        · exact hq
      · refine ⟨hborn, ?_⟩
        rw [if_pos rfl]
        exact hafter.onward.2
    · rcases hnew hm with hm | ⟨rfl, hs⟩
      · rcases hnew hm' with hm' | ⟨rfl, hs'⟩
        · exact h.single u r r' hm hm'
        · exact absurd hs' ((h.sent u r hm).2 r')
      · rcases hnew hm' with hm' | ⟨-, hs'⟩
        · exact absurd hs ((h.sent u r' hm').2 r)
        · rw [hs] at hs'
          cases hs'
          rfl
  | @minted request _ hn hs he =>
    subst he
    have hold {u : Token} {r : Request} (hm : .sent u r ∈ Event.quiet :: τ) : .sent u r ∈ τ := (List.mem_cons.1 hm).resolve_left nofun
    refine ⟨fun u hu => ?_, fun u r hm => ?_, fun u r r' hm hm' => h.single u r r' (hold hm) (hold hm')⟩
    · rw [hn] at hu
      rw [hs, if_neg (Nat.ne_of_gt hu)]
      exact h.fresh u (Nat.le_of_succ_le hu)
    · obtain ⟨hlt, hq⟩ := h.sent u r (hold hm)
      rw [hn, hs, if_neg (Nat.ne_of_lt hlt)]
      exact ⟨Nat.lt_succ_of_lt hlt, hq⟩
  | aside _ _ hn hs hunsent =>
    have hold {u : Token} {r : Request} (hm : .sent u r ∈ e :: τ) : .sent u r ∈ τ :=
      (List.mem_cons.1 hm).resolve_left fun he => hunsent u r he.symm
    refine ⟨?_, fun u r hm => ?_, fun u r r' hm hm' => h.single u r r' (hold hm) (hold hm')⟩
    · rw [hn, hs]
      exact h.fresh
    · rw [hn, hs]
      exact h.sent u r (hold hm)

theorem posted_run {τ : List Event} {x : Sys} (hr : Run τ x) : Posted τ x := by
  refine Machine.Run.induct (I := Posted) ?_ (fun τ x m x' e _ ih _ hs => ih.step (step_walks hs)) hr
  rintro x ⟨limits, classLimits, aging, scheduler, capacity, clock, -, -, rfl⟩
  exact ⟨fun _ _ => rfl, (fun _ _ hm => nomatch hm), fun _ _ _ hm => nomatch hm⟩

/-! ## Permits, with and without the actor -/

theorem setStage_fades (clients : Clients) (t : Token) (stage : Stage) : clients.Fades (clients.setStage t stage) :=
  modify_fades _ _ fun _ hv => hv

theorem poll_fades (c : Oneshot AcquireResult) (v : AcquireResult) (h : c.poll.1.value = some v) : c.value = some v := by
  unfold Oneshot.poll at h
  split at h
  · cases h
  · exact h

/-- A caller puts nothing into a grant channel. -/
theorem client_fades {x x' : Sys} {now : Nat} {action : Action} {e : Event} (h : x.client now action = some (x', e)) :
    x.clients.Fades x'.clients := by
  have hquiet {o : Option Sys} (ho : o.map (·, Event.quiet) = some (x', e)) : o = some x' := by
    obtain ⟨y, hy, hx⟩ := Option.map_eq_some_iff.1 ho
    cases hx
    exact hy
  have hsend {clients : Clients} (command : OutboundCommand) (hf : x.clients.Fades clients) :
      x.clients.Fades ({ x with clients := clients }.send command).clients := by
    rwa [send_clients]
  cases action with
  | mint request =>
    have hr := hquiet h
    unfold Sys.mint at hr
    split at hr
    · cases hr
    · cases hr
      exact setStage_fades _ _ _
  | trySend t =>
    simp only [Sys.client, Sys.trySend] at h
    split at h
    · split at h
      · cases h
        exact (dropSenders_fades _ _).trans (setStage_fades _ _ _)
      · split at h
        · cases h
          exact setStage_fades _ _ _
        · cases h
          refine Clients.Fades.trans (d := (x.clients.sendResponse t (.error .queueFull)).1) (modify_fades _ _ fun _ hv => hv) ?_
          exact Clients.Fades.trans (modify_fades _ _ fun _ hv => hv) (setStage_fades _ _ _)
    · cases h
  | pollEnqueue t =>
    have hr := hquiet h
    unfold Sys.pollEnqueue at hr
    have hpoll : x.clients.Fades (x.clients.modify t fun c => { c with response := (x.clients t).response.poll.1 }) :=
      modify_fades _ _ fun _ hv => hv
    split at hr
    · dsimp only at hr
      split at hr
      · cases hr
      · cases hr
        exact hpoll.trans (setStage_fades _ _ _)
      · cases hr
        exact hpoll.trans (setStage_fades _ _ _)
      · cases hr
        exact hpoll.trans (setStage_fades _ _ _)
    · cases hr
  | pollGrant t =>
    have hr := hquiet h
    unfold Sys.pollGrant at hr
    have hpoll : x.clients.Fades (x.clients.modify t fun c => { c with granted := (x.clients t).granted.poll.1 }) :=
      modify_fades _ _ fun v hv => poll_fades _ v hv
    split at hr
    · dsimp only at hr
      split at hr
      · cases hr
      · cases hr
        exact hpoll.trans (setStage_fades _ _ _)
      · cases hr
        exact hpoll.trans (setStage_fades _ _ _)
      · cases hr
        exact hpoll.trans (setStage_fades _ _ _)
      · cases hr
        exact hpoll.trans (setStage_fades _ _ _)
    · cases hr
  | dropFuture t =>
    have hcancel (fields : List Field) : x.clients.Fades (x.cancelling t fields).clients := by
      unfold Sys.cancelling
      split
      · exact Clients.Fades.trans (modify_fades _ _ fun _ hv => hv) (setStage_fades _ _ _)
      · exact setStage_fades _ _ _
    have hr := hquiet h
    unfold Sys.dropFuture at hr
    split at hr
    · cases hr
      exact hcancel _
    · cases hr
      exact setStage_fades _ _ _
    · cases hr
      exact hcancel _
    · cases hr
  | sendCancel t =>
    have hr := hquiet h
    unfold Sys.sendCancel at hr
    split at hr
    · cases hr
      exact hsend _ (setStage_fades _ _ _)
    · cases hr
  | dropField t =>
    have hr := hquiet h
    unfold Sys.dropField at hr
    split at hr
    · rename_i field fields _
      have hleft : x.clients.Fades (x.clients.setStage t (.leaving fields)) := setStage_fades _ _ _
      dsimp only at hr
      cases field with
      | handle =>
        cases hr
        exact hleft
      | granted =>
        cases hr
        have hgone := hleft.trans (e := (x.clients.setStage t (.leaving fields)).modify t fun c =>
          { c with granted := ((x.clients.setStage t (.leaving fields)) t).granted.dropReceiver.1 })
          (modify_fades _ _ fun _ hv => by cases hv)
        unfold Sys.dropGrantReceiver
        dsimp only
        split
        · rw [Sys.dropPermit, send_clients]
          exact hgone
        · exact hgone
      | response =>
        cases hr
        exact hleft.trans (modify_fades _ _ fun _ hv => hv)
    · cases hr
  | start t =>
    have hr := hquiet h
    unfold Sys.startPermit at hr
    split at hr
    · split at hr
      · cases hr
      · cases hr
        exact hsend _ (setStage_fades _ _ _)
    · cases hr
  | complete t outcome observedAt =>
    simp only [Sys.client, Sys.complete] at h
    split at h
    · cases h
      exact hsend _ (Clients.Fades.trans (setStage_fades _ _ _) (modify_fades _ _ fun _ hv => hv))
    · cases h
  | completeAndAwait t outcome =>
    simp only [Sys.client, Sys.completeAndAwait] at h
    split at h
    · cases h
      exact hsend _ (setStage_fades _ _ _)
    · cases h
  | dropPermit t =>
    have hr := hquiet h
    unfold Sys.releasePermit at hr
    split at hr
    · cases hr
      exact hsend _ (setStage_fades _ _ _)
    · cases hr
  | command command =>
    simp only [Sys.client] at h
    split at h
    · cases h
      rw [send_clients]
      exact fun _ _ hv => hv
    · cases h
  | cloneHandle | dropHandle =>
    simp only [Sys.client] at h
    split at h
    · cases h
      exact fun _ _ hv => hv
    · cases h
  | receive | accept | answer | runAdmission | deliver | park | timer | ingressClosed | closeWaiter | stop => cases h

/-- The permits that are out: granted, and the completions of their jobs not applied. -/
structure Outlives (τ : List Event) (x : Sys) : Prop where
  held : ∀ t permit, x.clients.stages t = .holding permit ∨ (x.clients t).granted.value = some (.granted permit) →
    Owns τ permit.job t ∧ permit.job ∈ (admissions τ).map (·.job) ∧ ∀ outcome, (permit.job, outcome) ∉ outcomes τ

theorem mem_grants {σ : List Outbound.Event} {g : Grant} : g ∈ grants σ ↔ ∃ metadata now, .granted g metadata now ∈ σ := by
  induction σ with
  | nil => simp [grants]
  | cons e σ ih => cases e <;> simp [grants, ih, exists_or, eq_comm]

theorem outlives_alive {τ : List Event} {x : Sys} (hr : Run τ x) {a : OutboundActor} (ha : x.actor = some a) : Outlives τ x := by
  have hinv := (inv_run hr).2 a ha
  obtain ⟨-, σ, t, hσ, -, -, hd⟩ := driven_run hr a ha
  refine ⟨fun u permit hp => ?_⟩
  have hown : Owns τ permit.job u := by
    rcases hp with hp | hp
    · exact (hinv.balanced.held u permit hp).2
    · exact (hinv.balanced.buffered u permit hp).2
  have hborn : u < x.nextToken := (hinv.tokens.owned permit.job u hown).1.1
  have hcarries : 0 < (x.clients u).carries permit.job := by
    unfold Client.carries
    rcases hp with hp | hp
    · have hstage : (x.clients u).stage = .holding permit := hp
      rw [hstage]
      simp [Stage.carries, OutboundPermit.count]
    · rw [hp]
      simp [AcquireResult.carries, OutboundPermit.count]
  have hpermits : 0 < x.permits permit.job :=
    Nat.lt_of_lt_of_le hcarries (List.single_le_sum (fun _ _ => Nat.zero_le _) _
      (List.mem_map.2 ⟨u, List.mem_range.2 hborn, rfl⟩))
  have hflight : a.scheduler.inFlight.contains permit.job = true := by
    have hbalance := hinv.balanced.balance permit.job
    split at hbalance
    · assumption
    · omega
  have hphase := ((life_run hσ).inFlight permit.job).1 hflight
  obtain ⟨g, metadata, now, hg, hjob⟩ := granted_of_inFlight hphase
  refine ⟨hown, ?_, fun outcome hm => ?_⟩
  · rw [← hd.granted]
    exact List.mem_map.2 ⟨g, mem_grants.2 ⟨metadata, now, hg⟩, hjob⟩
  · rw [← hd.completed] at hm
    rw [hd.settled _ _ hm] at hphase
    cases hphase

theorem unseen_call {e : Event} (he : e.isCall = true) : admissions [e] = [] ∧ outcomes [e] = [] := by
  cases e with
  | quiet | sent | reported => exact ⟨rfl, rfl⟩
  | accepted | applied | admitted | delivered => cases he

/-- The permits after a step are those from before it, started or not. -/
theorem Outlives.of_call {τ : List Event} {x x' : Sys} {e : Event} (h : Outlives τ x) (he : e.isCall = true)
    (hp : ∀ t permit, x'.clients.stages t = .holding permit → ∃ earlier : OutboundPermit, earlier.job = permit.job ∧
      (x.clients.stages t = .holding earlier ∨ (x.clients t).granted.value = some (.granted earlier)))
    (hf : x.clients.Fades x'.clients) : Outlives (e :: τ) x' := by
  obtain ⟨hg, hc⟩ := unseen_call he
  have hkept {t : Token} {permit : OutboundPermit}
      (hpermit : x.clients.stages t = .holding permit ∨ (x.clients t).granted.value = some (.granted permit)) :
      Owns (e :: τ) permit.job t ∧ permit.job ∈ (admissions (e :: τ)).map (·.job) ∧
        ∀ outcome, (permit.job, outcome) ∉ outcomes (e :: τ) := by
    obtain ⟨hown, hgranted, hunapplied⟩ := h.held t permit hpermit
    rw [admissions_cons, outcomes_cons, hg, hc]
    exact ⟨(owns_outside (Event.isCall.outside he) _ _).2 hown, hgranted, hunapplied⟩
  refine ⟨fun t permit hheld => ?_⟩
  rcases hheld with hheld | hheld
  · obtain ⟨earlier, hjob, hpermit⟩ := hp t permit hheld
    rw [← hjob]
    exact hkept hpermit
  · exact hkept (Or.inr (hf t _ hheld))

/-- How a permit comes into the hands of a caller. -/
theorem Walks.permit {x x' : Sys} {now : Nat} {action : Action} {e : Event} (h : Walks now x x' action e) {t : Token}
    {permit : OutboundPermit} (hp : x'.clients.stages t = .holding permit) : ∃ earlier : OutboundPermit,
      earlier.job = permit.job ∧ (x.clients.stages t = .holding earlier ∨ (x.clients t).granted.value = some (.granted earlier)) := by
  cases h with
  | @after u stage _ hadv hafter =>
    rw [hadv.2 t] at hp
    split at hp
    · rename_i htu
      subst htu hp
      cases hafter with
      | granted _ hvalue => exact ⟨permit, rfl, Or.inr hvalue⟩
      | @started _ p hs => exact ⟨p, rfl, Or.inl hs⟩
    · exact ⟨permit, rfl, Or.inl hp⟩
  | minted _ _ hs =>
    rw [hs] at hp
    split at hp
    · cases hp
    · exact ⟨permit, rfl, Or.inl hp⟩
  | aside _ _ _ hs => exact ⟨permit, rfl, Or.inl (hs ▸ hp)⟩

/-- The step in which the actor goes shows nothing of it, and puts nothing into a grant channel; the
same is true of those after it. -/
theorem step_ends {τ : List Event} {x x' : Sys} {m : Action × Nat} {e : Event} (hr : Run τ x) (hs : queue.step x m = some (x', e))
    (ha' : x'.actor = none) : x.clients.Fades x'.clients ∧ e.isCall = true := by
  obtain ⟨action, now⟩ := m
  obtain ⟨-, hstepped⟩ := step_stepped hr hs
  cases hstepped with
  | @acted a ha hact =>
    obtain ⟨rfl, hf⟩ := (act_leaves hact).ends ha'
    exact ⟨hf, rfl⟩
  | called _ hsame =>
    rw [hsame] at ha'
    cases ha'
  | gone hnone _ hcall =>
    refine ⟨?_, hcall⟩
    change x.step (action, now) = some (x', e) at hs
    unfold Sys.step at hs
    split at hs
    · cases hs
    · dsimp only at hs
      split at hs
      · rename_i r hc
        cases hs
        exact client_fades (x := { x with clock := now }) hc
      · rw [hnone] at hs
        cases hs

/-- A permit is that of a granted job that is not completed, also when the actor is gone. -/
theorem outlives_run {τ : List Event} {x : Sys} (hr : Run τ x) : Outlives τ x := by
  induction hr with
  | @start x hi =>
    obtain ⟨limits, classLimits, aging, scheduler, capacity, clock, hs, hcap, rfl⟩ := hi
    exact outlives_alive (.start ⟨limits, classLimits, aging, scheduler, capacity, clock, hs, hcap, rfl⟩) rfl
  | @step τ x m x' e hrun _ hs ih =>
    cases ha' : x'.actor with
    | some a' => exact outlives_alive (hrun.step trivial hs) ha'
    | none =>
      obtain ⟨hf, hcall⟩ := step_ends hrun hs ha'
      exact ih.of_call hcall (fun t permit hp => (step_walks hs).permit hp) hf

/-! ## Completions under way -/

/-- A completion that was reported has been applied, or its command is in the channel. -/
def Underway (τ : List Event) (x : Sys) : Prop := ∀ job outcome observedAt, .reported job outcome observedAt ∈ τ →
  .applied job outcome observedAt ∈ τ ∨ x.actor = none ∨ ∃ c t ack, .complete job c t outcome observedAt ack ∈ x.lifecycle

/-- What a caller reports goes into the channel, behind what is there. -/
theorem Calls.lifecycle {x x' : Sys} {a : OutboundActor} {e : Event} (h : x.Calls a x' e) :
    (∀ command ∈ x.lifecycle, command ∈ x'.lifecycle) ∧ ∀ job outcome observedAt, e = .reported job outcome observedAt →
      ∃ c t ack, .complete job c t outcome observedAt ack ∈ x'.lifecycle := by
  cases h with
  | mints | sends => exact ⟨fun _ hm => hm, nofun⟩
  | overflows => exact ⟨fun _ hm => List.mem_append.2 (Or.inl hm), nofun⟩
  | commands => exact ⟨fun _ hm => List.mem_append.2 (Or.inl hm), nofun⟩
  | moves _ hshows =>
    refine ⟨fun _ hm => List.mem_append.2 (Or.inl hm), fun job outcome observedAt he => ?_⟩
    rcases hshows with rfl | ⟨_, c, t, _, _, ack, rfl, rfl⟩
    · cases he
    · cases he
      exact ⟨c, t, ack, List.mem_append.2 (Or.inr List.mem_cons_self)⟩

theorem underway_run {τ : List Event} {x : Sys} (hr : Run τ x) : Underway τ x := by
  refine Machine.Run.induct (I := Underway) (fun _ _ _ _ _ hm => nomatch hm) ?_ hr
  rintro τ x m x' e hrun ih - hs job outcome observedAt hm
  obtain ⟨-, hstepped⟩ := step_stepped hrun hs
  cases hstepped with
  | gone _ hgone => exact Or.inr (Or.inl hgone)
  | @called a ha hsame hcalls =>
    obtain ⟨hkept, hnew⟩ := Calls.lifecycle hcalls
    rcases List.mem_cons.1 hm with rfl | hm
    · exact Or.inr (Or.inr (hnew job outcome observedAt rfl))
    · rcases ih job outcome observedAt hm with happlied | hnone | ⟨c, t, ack, hc⟩
      · exact Or.inl (List.mem_cons_of_mem _ happlied)
      · rw [ha] at hnone
        cases hnone
      · exact Or.inr (Or.inr ⟨c, t, ack, hkept _ hc⟩)
  | @acted a ha hact =>
    have hleaves := act_leaves hact
    have hearlier := (List.mem_cons.1 hm).resolve_left fun he => hleaves.unreported _ _ _ he.symm
    rcases ih job outcome observedAt hearlier with happlied | hnone | ⟨c, t, ack, hc⟩
    · exact Or.inl (List.mem_cons_of_mem _ happlied)
    · rw [ha] at hnone
      cases hnone
    · rcases hleaves.lifecycle _ hc with hc | hgone | hshutdown | rfl
      · exact Or.inr (Or.inr ⟨c, t, ack, hc⟩)
      · exact Or.inr (Or.inl hgone)
      · cases hshutdown
      · exact Or.inl List.mem_cons_self

/-! ## Once the actor is gone -/

theorem step_gone {τ : List Event} {x x' : Sys} {m : Action × Nat} {e : Event} (hr : Run τ x) (hs : queue.step x m = some (x', e))
    (ha : x.actor = none) : x'.actor = none := by
  obtain ⟨-, hstepped⟩ := step_stepped hr hs
  cases hstepped with
  | acted hsome | called hsome =>
    rw [ha] at hsome
    cases hsome
  | gone _ hgone => exact hgone

/-- What the actor has done, it has done in a run at whose end it is there. -/
theorem run_alive {τ : List Event} {x : Sys} (hr : Run τ x) : ∃ later earlier y a, τ = later ++ earlier ∧
    (∀ e ∈ later, e.isCall = true) ∧ Run earlier y ∧ y.actor = some a := by
  refine Machine.Run.induct (I := fun τ _ => ∃ later earlier y a, τ = later ++ earlier ∧
    (∀ e ∈ later, e.isCall = true) ∧ Run earlier y ∧ y.actor = some a) ?_ ?_ hr
  · rintro x hi
    obtain ⟨limits, classLimits, aging, scheduler, capacity, clock, -, -, rfl⟩ := id hi
    exact ⟨[], [], _, _, rfl, (fun _ hm => nomatch hm), .start hi, rfl⟩
  · rintro τ x m x' e hrun ⟨later, earlier, y, a, rfl, hcalls, hearlier, ha⟩ - hs
    cases ha' : x'.actor with
    | some a' => exact ⟨[], _, x', a', rfl, (fun _ hm => nomatch hm), hrun.step trivial hs, ha'⟩
    | none =>
      refine ⟨e :: later, earlier, y, a, rfl, fun e' he' => ?_, hearlier, ha⟩
      rcases List.mem_cons.1 he' with rfl | he'
      · exact (step_ends hrun hs ha').2
      · exact hcalls e' he'

theorem calls_seen {later : List Event} (earlier : List Event) (h : ∀ e ∈ later, e.isCall = true) :
    admissions (later ++ earlier) = admissions earlier ∧ outcomes (later ++ earlier) = outcomes earlier ∧
      ∀ job t, Owns (later ++ earlier) job t ↔ Owns earlier job t := by
  induction later with
  | nil => exact ⟨rfl, rfl, fun _ _ => Iff.rfl⟩
  | cons e later ih =>
    obtain ⟨hg, hc, hown⟩ := ih fun e' he' => h e' (List.mem_cons_of_mem _ he')
    have he := h e List.mem_cons_self
    obtain ⟨heg, hec⟩ := unseen_call he
    rw [List.cons_append, admissions_cons, outcomes_cons, heg, hec, hg, hc]
    exact ⟨rfl, rfl, fun job t => (owns_outside (Event.isCall.outside he) job t).trans (hown job t)⟩

theorem mem_outcomes {job : JobId} {outcome : OutboundCompletion} {τ : List Event} :
    (job, outcome) ∈ outcomes τ ↔ ∃ observedAt, .applied job outcome observedAt ∈ τ := by
  induction τ with
  | nil => simp [outcomes]
  | cons e τ ih => cases e <;> simp [outcomes, ih, exists_or, eq_comm]

/-- A job has one acquire. -/
theorem owner_run {τ : List Event} {x : Sys} (hr : Run τ x) {job : JobId} {t t' : Token} (h : Owns τ job t)
    (h' : Owns τ job t') : t = t' := by
  obtain ⟨later, earlier, y, a, rfl, hcalls, hearlier, ha⟩ := run_alive hr
  have hown := (calls_seen earlier hcalls).2.2 job
  exact ((inv_run hearlier).2 a ha).tokens.token ((hown t).1 h) ((hown t').1 h')

/-- A granted job is in flight until it is completed. -/
theorem granted_phase {g : Grant} {metadata : OutboundMeta} {now : Nat} : ∀ {σ : List Outbound.Event}, AllLawful σ →
    .granted g metadata now ∈ σ → Outbound.phase σ g.job = .inFlight ∨ Outbound.phase σ g.job = .completed
  | [], _, hg => by cases hg
  | e :: σ, hl, hg => by
    rcases List.mem_cons.1 hg with rfl | hlater
    · exact Or.inl (by simp [Outbound.phase])
    · have ih := granted_phase hl.2 hlater
      have hlaw := hl.1
      cases e with
      | enqueued metadata options o =>
        obtain ⟨hnew, hold⟩ := hlaw
        have hfresh : g.job ≠ o.job := fun heq => by
          rw [heq, hnew] at ih
          rcases ih with ih | ih <;> cases ih
        have hkept : o.superseded ≠ some g.job := fun heq => by
          rw [hold _ heq] at ih
          rcases ih with ih | ih <;> cases ih
        simp only [Outbound.phase, if_neg hfresh, if_neg hkept]
        exact ih
      | granted g' metadata' now' =>
        have hpending : Outbound.phase σ g'.job = .pending := hlaw
        have hother : g.job ≠ g'.job := fun heq => by
          rw [heq, hpending] at ih
          rcases ih with ih | ih <;> cases ih
        simp only [Outbound.phase, if_neg hother]
        exact ih
      | cancelled j now' =>
        have hother : ¬(g.job = j ∧ Outbound.phase σ g.job = .pending) := fun heq => by
          rw [heq.2] at ih
          rcases ih with ih | ih <;> cases ih
        simp only [Outbound.phase, if_neg hother]
        exact ih
      | completed =>
        simp only [Outbound.phase]
        split
        · exact Or.inr rfl
        · exact ih
      | rejected | started | penalized | limited | woke | began | skipped | held | ended => exact ih

theorem finished_of_completed {id : JobId} : ∀ {σ : List Outbound.Event}, Outbound.phase σ id = .completed →
    ∃ outcome, (id, outcome) ∈ finished σ
  | [], h => by cases h
  | e :: σ, h => by
    have hlater (h : Outbound.phase σ id = .completed) : ∃ outcome, (id, outcome) ∈ finished (e :: σ) := by
      obtain ⟨outcome, ho⟩ := finished_of_completed h
      refine ⟨outcome, ?_⟩
      cases e with
      | completed => exact List.mem_cons_of_mem _ ho
      | _ => exact ho
    cases e with
    | enqueued metadata options o =>
      simp only [Outbound.phase] at h
      split at h
      · cases h
      · split at h
        · cases h
        · exact hlater h
    | granted =>
      simp only [Outbound.phase] at h
      split at h
      · cases h
      · exact hlater h
    | cancelled =>
      simp only [Outbound.phase] at h
      split at h
      · cases h
      · exact hlater h
    | completed j outcome now =>
      simp only [Outbound.phase] at h
      split at h
      · rename_i hid
        exact ⟨outcome, List.mem_cons.2 (Or.inl (by rw [hid.1]))⟩
      · exact hlater h
    | rejected | started | penalized | limited | woke | began | skipped | held | ended => exact hlater h

/-- A granted job is that of a request, and was asked for as that says. -/
theorem Drives.request {τ : List Event} {σ : List Outbound.Event} {y : Outbound.Sys} (hd : Drives τ σ)
    (hσ : Outbound.Run Machine.anything σ y) {job : JobId} (h : job ∈ (admissions τ).map (·.job)) :
    ∃ g metadata now options o token request, g.job = job ∧ .granted g metadata now ∈ σ ∧ .enqueued metadata options o ∈ σ ∧
      o.job = job ∧ Owns τ job token ∧ .sent token request ∈ τ ∧ request.AskedAs metadata options := by
  rw [← hd.granted] at h
  obtain ⟨g, hgrant, rfl⟩ := List.mem_map.1 h
  obtain ⟨metadata, now, hgranted⟩ := mem_grants.1 hgrant
  obtain ⟨options, o, ho, hjob⟩ := (titled_run hσ).granted g metadata now hgranted
  obtain ⟨token, request, howns, hsent, hask⟩ := hd.owned metadata options o ho
  exact ⟨g, metadata, now, options, o, token, request, rfl, hgranted, ho, hjob, hjob ▸ howns, hsent, hask⟩

theorem granted_sent {τ : List Event} {x : Sys} (hr : Run τ x) {job : JobId} (h : job ∈ (admissions τ).map (·.job)) :
    ∃ token request, Owns τ job token ∧ .sent token request ∈ τ := by
  obtain ⟨later, earlier, y, a, rfl, hcalls, hearlier, ha⟩ := run_alive hr
  obtain ⟨hg, -, hown⟩ := calls_seen earlier hcalls
  rw [hg] at h
  obtain ⟨-, σ, t, hσ, -, -, hd⟩ := driven_run hearlier a ha
  obtain ⟨-, -, -, -, -, token, request, -, -, -, -, howns, hsent, -⟩ := hd.request hσ h
  exact ⟨token, request, (hown job token).2 howns, List.mem_append.2 (Or.inr hsent)⟩

end Teloxide.Outbound.Actor
