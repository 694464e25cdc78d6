import Teloxide.Outbound.Actor.Callers
import Teloxide.Outbound.Scheduler.Slots

/-!
# The order of the requests

* `InOrder`: the actor takes the requests in the order in which they were sent, and the ids of the
  jobs grow.
* `accepted_in_order`: of two requests that were accepted the one that was sent first has the lower id.
* `serial_grants_in_order`: a serial lane grants in that order, one job after the other.
-/
namespace Teloxide.Outbound.Actor

open Teloxide.Core SchedulerState

/-! ## One before the other -/

section
variable {α : Type} {a b : α} {l : List α}

theorem pair_sublist (ha : a ∈ l) (hb : b ∈ l) (hne : a ≠ b) : [a, b].Sublist l ∨ [b, a].Sublist l := by
  induction l with
  | nil => cases ha
  | cons c l ih =>
    rcases List.mem_cons.1 ha with rfl | hal
    · rcases List.mem_cons.1 hb with rfl | hbl
      · exact absurd rfl hne
      · exact Or.inl ((List.singleton_sublist.2 hbl).cons_cons a)
    · rcases List.mem_cons.1 hb with rfl | hbl
      · exact Or.inr ((List.singleton_sublist.2 hal).cons_cons b)
      · exact (ih hal hbl).imp (List.Sublist.cons c) (List.Sublist.cons c)

end

/-- The acquires whose requests were sent, newest first. -/
def senders : List Event → List Token
  | [] => []
  | .sent token _ :: τ => token :: senders τ
  | _ :: τ => senders τ

/-- The acceptances, newest first. -/
def takers : List Event → List (JobId × Token)
  | [] => []
  | .accepted job token _ :: τ => (job, token) :: takers τ
  | _ :: τ => takers τ

/-- The request of the first acquire was sent before that of the second. -/
def Before (τ : List Event) (t t' : Token) : Prop := [t', t].Sublist (senders τ)

theorem mem_senders {t : Token} {τ : List Event} : t ∈ senders τ ↔ ∃ r, .sent t r ∈ τ := by
  induction τ with
  | nil => simp [senders]
  | cons e τ ih => cases e <;> simp [senders, ih, exists_or, eq_comm]

theorem mem_takers {job : JobId} {t : Token} {τ : List Event} : (job, t) ∈ takers τ ↔ Owns τ job t := by
  unfold Owns
  induction τ with
  | nil => simp [takers]
  | cons e τ ih => cases e <;> simp [takers, ih, exists_or, eq_comm]

theorem senders_cons {e : Event} (τ : List Event) (h : ∀ t r, e ≠ .sent t r) : senders (e :: τ) = senders τ := by
  cases e with
  | sent t r => exact absurd rfl (h t r)
  | _ => rfl

theorem takers_cons {e : Event} (τ : List Event) (h : ∀ job t r, e ≠ .accepted job t r) : takers (e :: τ) = takers τ := by
  cases e with
  | accepted job t r => exact absurd rfl (h job t r)
  | _ => rfl

/-- What the actor has taken from the ingress is what was sent first. -/
structure InOrder (τ : List Event) (x : Sys) : Prop where
  nodup : (senders τ).Nodup
  taken : ∃ taken rest, senders τ = rest ++ taken ∧ ((takers τ).map (·.2)).Sublist taken ∧
    (x.actor ≠ none → rest = (x.ingress.map (·.token)).reverse)
  jobs : (takers τ).Pairwise fun later earlier => earlier.1 < later.1

theorem send_ingress (x : Sys) (command : OutboundCommand) : (x.send command).ingress = x.ingress := by
  unfold Sys.send
  split <;> rfl

/-- What a step of the actor does with the ingress. -/
inductive Takes (x x' : Sys) (a : OutboundActor) (e : Event) : Prop
  | nothing : x'.ingress = x.ingress → (∀ job t r, e ≠ .accepted job t r) → Takes x x' a e
  | head {c} : x.ingress = c :: x'.ingress → (∀ job t r, e ≠ .accepted job t r) → Takes x x' a e
  | accepted {c job r} : x.ingress = c :: x'.ingress → e = .accepted job c.token r → a.scheduler.nextJobId ≤ job → Takes x x' a e
  | ended : x'.actor = none → (∀ job t r, e ≠ .accepted job t r) → Takes x x' a e

section
variable {x x' : Sys} {a : OutboundActor} {now : Nat} {e : Event}

theorem accept_takes (h : x.accept a now = some (x', e)) : Takes x x' a e := by
  unfold Sys.accept at h
  split at h
  · rename_i t₀ request token rest hph hi
    dsimp only at h
    split at h
    · cases h
      exact .head hi nofun
    · split at h
      · rename_i s o hq
        split at h
        · cases h
          rename_i hid
          obtain ⟨hjob, -⟩ := enqueue_ids hq hid
          exact .accepted hi rfl (Nat.le_of_eq hjob.symm)
        · cases h
      · cases h
        exact .head hi nofun
  · cases h

theorem act_takes {action : Action} (h : x.act a now action = some (x', e)) : Takes x x' a e := by
  have hquiet {o : Option Sys} (ho : o.map (·, Event.quiet) = some (x', e)) : o = some x' ∧ e = .quiet := by
    obtain ⟨y, hy, hx⟩ := Option.map_eq_some_iff.1 ho
    cases hx
    exact ⟨hy, rfl⟩
  cases action with
  | receive order =>
    simp only [Sys.act, Sys.receive] at h
    split at h
    · split at h
      · cases h
      · cases h
        exact .nothing rfl (fun _ _ _ h => by cases h)
      · rename_i command rest _ _
        obtain ⟨r, hr, hx⟩ := Option.map_eq_some_iff.1 h
        cases hx
        refine .nothing rfl fun job t r he => ?_
        cases command <;> cases he
    · cases h
  | accept => exact accept_takes h
  | answer =>
    obtain ⟨hr, rfl⟩ := hquiet h
    unfold Sys.answer at hr
    split at hr
    · dsimp only at hr
      split at hr <;> cases hr <;> exact .nothing rfl (fun _ _ _ h => by cases h)
    · cases hr
      exact .nothing rfl (fun _ _ _ h => by cases h)
    · cases hr
  | runAdmission order fuel =>
    simp only [Sys.act, Sys.runAdmission] at h
    split at h
    · split at h
      · cases h
      · obtain ⟨r, hr, hx⟩ := Option.map_eq_some_iff.1 h
        cases hx
        exact .nothing rfl (fun _ _ _ h => by cases h)
    · cases h
  | deliver =>
    simp only [Sys.act, Sys.deliver] at h
    split at h
    · split at h
      · cases h
        exact .nothing rfl (fun _ _ _ h => by cases h)
      · split at h
        · cases h
          exact .nothing rfl (fun _ _ _ h => by cases h)
        · split at h
          · cases h
            exact .nothing rfl (fun _ _ _ h => by cases h)
          · cases h
            exact .nothing (send_ingress _ _) (fun _ _ _ h => by cases h)
    · cases h
  | park =>
    obtain ⟨hr, rfl⟩ := hquiet h
    unfold Sys.park at hr
    split at hr
    · cases hr
      exact .nothing rfl (fun _ _ _ h => by cases h)
    · cases hr
  | timer =>
    obtain ⟨hr, rfl⟩ := hquiet h
    unfold Sys.timer at hr
    split at hr
    · split at hr
      · cases hr
        exact .nothing rfl (fun _ _ _ h => by cases h)
      · cases hr
    · cases hr
  | ingressClosed =>
    obtain ⟨hr, rfl⟩ := hquiet h
    unfold Sys.ingressClosed at hr
    split at hr
    · split at hr
      · cases hr
        exact .nothing rfl (fun _ _ _ h => by cases h)
      · cases hr
    · cases hr
  | closeWaiter job =>
    simp only [Sys.act, Sys.closeWaiter] at h
    split at h
    · cases h
    · cases h
      refine .nothing rfl fun j t r he => ?_
      split at he <;> cases he
  | stop =>
    obtain ⟨hr, rfl⟩ := hquiet h
    unfold Sys.stop at hr
    split at hr
    · cases hr
      exact .ended rfl (fun _ _ _ h => by cases h)
    · cases hr
  | mint | trySend | pollEnqueue | pollGrant | dropFuture | sendCancel | dropField | start | complete | completeAndAwait
  | dropPermit | command | cloneHandle | dropHandle => cases h

/-- A caller adds to the end of the ingress what it sends. -/
theorem Calls.ingress (h : x.Calls a x' e) : x'.actor = x.actor ∧ (x'.ingress = x.ingress ∧ (∀ t r, e ≠ .sent t r) ∨
    ∃ t r, e = .sent t r ∧ x.clients.stages t = .minted r ∧ x'.ingress = x.ingress ++ [⟨r, t⟩]) := by
  cases h with
  | mints | overflows | commands => exact ⟨rfl, Or.inl ⟨rfl, nofun⟩⟩
  | sends hs => exact ⟨rfl, Or.inr ⟨_, _, rfl, hs, rfl⟩⟩
  | moves _ hshows =>
    refine ⟨rfl, Or.inl ⟨rfl, fun t r he => ?_⟩⟩
    rcases hshows with rfl | ⟨_, _, _, _, _, _, rfl, -⟩ <;> cases he

end

/-- Nothing is sent to an actor that is gone. -/
theorem gone_unsent {x x' : Sys} {m : Action × Nat} {e : Event} (hs : queue.step x m = some (x', e)) (ha : x.actor = none) :
    ∀ t r, e ≠ .sent t r := by
  rintro t r rfl
  have hw := @step_walks x x' m.1 m.2 _ hs
  cases hw with
  | @after u stage htoken _ hafter =>
    obtain ⟨action, now⟩ := m
    generalize hact : action = action' at hafter
    cases hafter with
    | sent hm =>
      subst hact
      cases htoken
      change x.step (.trySend t, now) = some (x', .sent t r) at hs
      have hm' : (x.clients t).stage = .minted r := hm
      simp only [Sys.step, Sys.client, Sys.trySend] at hs
      split at hs
      · cases hs
      · simp [hm', ha] at hs
  | minted _ _ _ he => cases he
  | aside _ _ _ _ hunsent => exact hunsent t r rfl

/-! ## Runs -/

section
variable {τ : List Event} {x x' : Sys} {a : OutboundActor} {e : Event}

theorem InOrder.keeps (h : InOrder τ x) (hs : ∀ t r, e ≠ .sent t r) (ha : ∀ job t r, e ≠ .accepted job t r)
    (hi : x'.actor ≠ none → x.actor ≠ none ∧ x'.ingress = x.ingress) : InOrder (e :: τ) x' := by
  obtain ⟨hnodup, ⟨taken, rest, hsplit, hsub, hrest⟩, hjobs⟩ := h
  refine ⟨?_, ⟨taken, rest, ?_, ?_, fun halive => ?_⟩, ?_⟩
  · rwa [senders_cons τ hs]
  · rwa [senders_cons τ hs]
  · rwa [takers_cons τ ha]
  · obtain ⟨halive', hsame⟩ := hi halive
    rw [hsame]
    exact hrest halive'
  · rwa [takers_cons τ ha]

theorem InOrder.calls (h : InOrder τ x) (hposted : Posted τ x) (hx : x.actor = some a) (hc : x.Calls a x' e) :
    InOrder (e :: τ) x' := by
  have hcall := Calls.isCall hc
  have haccepted (job : JobId) (t : Token) (r : Option JobId) : e ≠ .accepted job t r := fun he => by
    subst he
    cases hcall
  obtain ⟨hsame, ⟨hi, hs⟩ | ⟨t, r, rfl, hminted, hi⟩⟩ := Calls.ingress hc
  · exact h.keeps hs haccepted fun halive => ⟨hsame ▸ halive, hi⟩
  · obtain ⟨hnodup, ⟨taken, rest, hsplit, hsub, hrest⟩, hjobs⟩ := h
    have hfresh : t ∉ senders τ := fun hm => by
      obtain ⟨r', hm⟩ := mem_senders.1 hm
      exact (hposted.sent t r' hm).2 r hminted
    refine ⟨List.nodup_cons.2 ⟨hfresh, hnodup⟩, ⟨taken, t :: rest, ?_, hsub, fun _ => ?_⟩, hjobs⟩
    · exact congrArg (t :: ·) hsplit
    · rw [hi, hrest (by rw [hx]; exact nofun), List.map_append, List.reverse_append]
      rfl

/-- A request that the actor takes is the oldest of those that wait. -/
theorem InOrder.takes (h : InOrder τ x) (hinv : Inv τ x a) (hx : x.actor = some a) (hs : ∀ t r, e ≠ .sent t r)
    (ht : Takes x x' a e) : InOrder (e :: τ) x' := by
  have halive : x.actor ≠ none := by
    rw [hx]
    exact nofun
  have hpops {c : EnqueueCommand} {taken rest : List Token} (hi : x.ingress = c :: x'.ingress) (hsplit : senders τ = rest ++ taken)
      (hrest : rest = (x.ingress.map (·.token)).reverse) :
      senders τ = (x'.ingress.map (·.token)).reverse ++ c.token :: taken := by
    rw [hsplit, hrest, hi, List.map_cons, List.reverse_cons, List.append_assoc]
    rfl
  cases ht with
  | nothing hi ha => exact h.keeps hs ha fun _ => ⟨halive, hi⟩
  | ended hgone ha => exact h.keeps hs ha fun halive' => absurd hgone halive'
  | @head c hi ha =>
    obtain ⟨hnodup, ⟨taken, rest, hsplit, hsub, hrest⟩, hjobs⟩ := h
    rw [← senders_cons τ hs] at hnodup
    rw [← takers_cons τ ha] at hsub hjobs
    refine ⟨hnodup, ⟨c.token :: taken, _, ?_, hsub.cons _, fun _ => rfl⟩, hjobs⟩
    rw [senders_cons τ hs]
    exact hpops hi hsplit (hrest halive)
  | @accepted c job r hi he hjob =>
    obtain ⟨hnodup, ⟨taken, rest, hsplit, hsub, hrest⟩, hjobs⟩ := h
    subst he
    refine ⟨hnodup, ⟨c.token :: taken, _, hpops hi hsplit (hrest halive), hsub.cons_cons _, fun _ => rfl⟩, ?_⟩
    refine List.pairwise_cons.2 ⟨?_, hjobs⟩
    rintro ⟨job', t'⟩ hm
    exact Nat.lt_of_lt_of_le (hinv.tokens.owned job' t' (mem_takers.1 hm)).2 hjob

end

theorem inOrder_run {τ : List Event} {x : Sys} (hr : Run τ x) : InOrder τ x := by
  refine Machine.Run.induct (I := InOrder) ?_ ?_ hr
  · rintro x ⟨limits, classLimits, aging, scheduler, capacity, clock, -, -, rfl⟩
    exact ⟨List.nodup_nil, ⟨[], [], rfl, List.Sublist.slnil, fun _ => rfl⟩, List.Pairwise.nil⟩
  · rintro τ x m x' e hrun ih - hs
    obtain ⟨hlater, hstepped⟩ := step_stepped hrun hs
    cases hstepped with
    | gone hnone hgone hcall =>
      refine ih.keeps (gone_unsent hs hnone) (fun job t r he => ?_) fun halive => absurd hgone halive
      subst he
      cases hcall
    | @called a ha hsame hcalls =>
      have hclock : InOrder τ { x with clock := m.2 } := ⟨ih.nodup, ih.taken, ih.jobs⟩
      have hposted : Posted τ { x with clock := m.2 } := ⟨(posted_run hrun).fresh, (posted_run hrun).sent, (posted_run hrun).single⟩
      exact hclock.calls hposted ha hcalls
    | @acted a ha hact =>
      have hclock : InOrder τ { x with clock := m.2 } := ⟨ih.nodup, ih.taken, ih.jobs⟩
      exact hclock.takes (((inv_run hrun).2 a ha).later hlater) ha (act_leaves hact).unsent (act_takes hact)

/-- Of two requests that were accepted the one that was sent first has got the lower id. -/
theorem accepted_in_order {τ : List Event} {x : Sys} (hr : Run τ x) {job job' : JobId} {t t' : Token} (h : Owns τ job t)
    (h' : Owns τ job' t') (hlt : job < job') : Before τ t t' := by
  obtain ⟨-, ⟨taken, rest, hsplit, hsub, -⟩, hjobs⟩ := inOrder_run hr
  have hne : (job', t') ≠ (job, t) := fun heq => Nat.ne_of_gt hlt (Prod.mk.inj heq).1
  have hsenders {p q : JobId × Token} (hp : [p, q].Sublist (takers τ)) : [p.2, q.2].Sublist (senders τ) := by
    rw [hsplit]
    exact ((hp.map (·.2)).trans hsub).trans (List.sublist_append_right rest taken)
  rcases pair_sublist (mem_takers.2 h') (mem_takers.2 h) hne with hp | hp
  · exact hsenders hp
  · have hwrong := (List.pairwise_cons.1 (hjobs.sublist hp)).1 (job', t') List.mem_cons_self
    exact absurd hlt (Nat.lt_asymm hwrong)

/-! ## Lanes -/

theorem issued_of_enqueued {σ : List Outbound.Event} {metadata : OutboundMeta} {options : EnqueueOptions} {o : EnqueueOutcome}
    (h : .enqueued metadata options o ∈ σ) : o.job ∈ issued σ := by
  induction σ with
  | nil => cases h
  | cons e σ ih =>
    rcases List.mem_cons.1 h with rfl | hlater
    · exact List.mem_cons_self
    · cases e with
      | enqueued => exact List.mem_cons_of_mem _ (ih hlater)
      | _ => exact ih hlater

/-- A job that replaces no other has its own place. -/
theorem position_fifo {ok : Outbound.Sys → Outbound.Action → Prop} {σ : List Outbound.Event} {y : Outbound.Sys}
    (hr : Outbound.Run ok σ y) : ∀ metadata options o, .enqueued metadata options o ∈ σ → options.mode = .fifo →
      position σ o.job = o.job := by
  refine Machine.Run.induct (I := fun σ _ => ∀ metadata options o, .enqueued metadata options o ∈ σ → options.mode = .fifo →
    position σ o.job = o.job) (fun _ _ _ _ _ hm => nomatch hm) ?_ hr
  rintro σ y action y' e hrun ih hok hs metadata options o hm hmode
  have hc := step_change hs
  rcases List.mem_cons.1 hm with rfl | hlater
  · cases hc with
    | stays _ hidle => cases hidle
    | entered => simp [position]
    | replaced hsuperseded =>
      rw [hmode] at hsuperseded
      simp [coalesceKeyOf, SchedulerState.supersededJob] at hsuperseded
  · have hold := ih metadata options o hlater hmode
    cases e with
    | enqueued metadata' options' o' =>
      have hlife := life_run (hrun.step hok hs)
      have hknown := (mem_issued_iff hlife.lawful.2 o.job).1 (issued_of_enqueued hlater)
      have hne : o.job ≠ o'.job := fun heq => hknown (heq ▸ hlife.lawful.1.1)
      simp only [position, if_neg hne]
      exact hold
    | _ => exact hold

theorem laneGrants_append (lane : OutboundLaneKey) (σ₂ σ₁ : List Outbound.Event) :
    laneGrants lane (σ₂ ++ σ₁) = laneGrants lane σ₂ ++ laneGrants lane σ₁ := by
  induction σ₂ with
  | nil => rfl
  | cons e σ₂ ih =>
    cases e with
    | granted g metadata now =>
      simp only [List.cons_append, laneGrants, ih]
      split <;> rfl
    | _ => exact ih

/-- The job was asked for in the lane, to wait behind what is there. -/
def QueuedOn (τ : List Event) (job : JobId) (lane : OutboundLaneKey) : Prop :=
  ∃ token request, Owns τ job token ∧ .sent token request ∈ τ ∧ request.metadata.lane = some lane ∧ request.mode = .fifo

/-- When a serial lane has granted two jobs, that with the lower id has been completed: the other one
was granted after that. -/
theorem serial_grants_in_order {mode : OutboundLaneKey → OutboundLaneMode} {τ : List Event} {x : Sys} (hr : Run τ x)
    (hmode : ∀ token request, .sent token request ∈ τ → ∀ lane, request.metadata.lane = some lane →
      request.laneMode.getD .serial = mode lane) {lane : OutboundLaneKey} (hserial : mode lane = .serial) {i j : JobId}
    (hi : QueuedOn τ i lane) (hj : QueuedOn τ j lane) (hgi : i ∈ (admissions τ).map (·.job)) (hgj : j ∈ (admissions τ).map (·.job))
    (hlt : i < j) : ∃ outcome, (i, outcome) ∈ outcomes τ := by
  -- the actor may be gone by now, but not when it granted them
  obtain ⟨later, earlier, y, a, rfl, hcalls, hearlier, ha⟩ := run_alive hr
  obtain ⟨hg, hc, hown⟩ := calls_seen earlier hcalls
  rw [hg] at hgi hgj
  rw [hc]
  have hinv := (inv_run hearlier).2 a ha
  obtain ⟨hrouted, σ, t, hσ, -, -, hd⟩ := driven_run hearlier a ha
  have hfixed : Outbound.Run (FixedMode mode) σ ⟨a.scheduler, t, none⟩ := by
    refine fixed_run hσ fun e he metadata options hasks lane hlane => ?_
    obtain ⟨token, request, hsent, hask⟩ := hd.asked e he metadata options hasks
    rw [hask.laneMode]
    exact (hmode token request (List.mem_append.2 (Or.inr hsent)) lane (hask.metadata ▸ hlane)).symm
  have hlane {k : JobId} (hk : QueuedOn (later ++ earlier) k lane) (hgk : k ∈ (admissions earlier).map (·.job)) :
      ∃ g metadata now, g.job = k ∧ .granted g metadata now ∈ σ ∧ metadata.lane = some lane ∧ position σ k = k := by
    obtain ⟨g, metadata, now, options, o, token', request', hjob, hgranted, ho, hid, howns', hsent', hask⟩ := hd.request hσ hgk
    obtain ⟨token, request, howns, hsent, hl, hm⟩ := hk
    have htoken := hinv.tokens.token ((hown _ _).1 howns) howns'
    subst htoken
    have hrequest := (posted_run hr).single token request request' hsent (List.mem_append.2 (Or.inr hsent'))
    subst hrequest
    rw [← hask.metadata] at hl
    rw [← hask.mode] at hm
    exact ⟨g, metadata, now, hjob, hgranted, hl, hid ▸ position_fifo hσ metadata options o ho hm⟩
  obtain ⟨gi, mi, ni, rfl, higranted, hil, hipos⟩ := hlane hi hgi
  obtain ⟨gj, mj, nj, rfl, hjgranted, hjl, hjpos⟩ := hlane hj hgj
  obtain ⟨σ₂, σ₁, hsplit⟩ := List.append_of_mem hjgranted
  -- the lane has granted the lower id first
  have hifirst : .granted gi mi ni ∈ σ₁ := by
    rw [hsplit] at higranted
    rcases List.mem_append.1 higranted with hlater | hlater
    · have hordered := (laneFifo_run (run_resumed hσ)).ordered lane
      rw [hsplit, laneGrants_append, ← hsplit] at hordered
      have hwrong := (List.pairwise_append.1 hordered).2.2 gi.job (mem_laneGrants hlater hil) gj.job
        (by simp [laneGrants, hjl])
      rw [hipos, hjpos] at hwrong
      exact absurd hlt (Nat.lt_asymm hwrong)
    · rcases List.mem_cons.1 hlater with heq | hlater
      · cases heq
        exact absurd hlt (Nat.lt_irrefl _)
      · exact hlater
  obtain ⟨s₁, action, s₂, hrun₁, hok, hstep⟩ := hfixed.prior σ₂ _ σ₁ hsplit
  have hrun₂ : Outbound.Run (FixedMode mode) (.granted gj mj nj :: σ₁) s₂ := hrun₁.step hok hstep
  have hbound : (outstanding lane (.granted gj mj nj :: σ₁)).length ≤ 1 := by
    have hb : LaneBounded (mode lane) lane (.granted gj mj nj :: σ₁) := (counted_unbounded hrun₂).bounded (by rw [hserial]; rfl)
    rwa [hserial] at hb
  have hjout : gj.job ∈ outstanding lane (.granted gj mj nj :: σ₁) :=
    List.mem_filter.2 ⟨mem_laneGrants List.mem_cons_self hjl, by simp [Outbound.phase]⟩
  rcases granted_phase (life_run hrun₁).lawful hifirst with hflight | hcompleted
  · have hiout : gi.job ∈ outstanding lane (.granted gj mj nj :: σ₁) :=
      List.mem_filter.2 ⟨mem_laneGrants (List.mem_cons_of_mem _ hifirst) hil, by
        simp [Outbound.phase, Nat.ne_of_lt hlt, hflight]⟩
    cases hm : outstanding lane (.granted gj mj nj :: σ₁) with
    | nil =>
      rw [hm] at hjout
      cases hjout
    | cons k rest =>
      rw [hm] at hbound hiout hjout
      obtain rfl : rest = [] := List.eq_nil_of_length_eq_zero (Nat.le_zero.1 (Nat.le_of_succ_le_succ hbound))
      rw [List.mem_singleton] at hiout hjout
      exact absurd (hiout.trans hjout.symm) (Nat.ne_of_lt hlt)
  · obtain ⟨outcome, hf⟩ := finished_of_completed hcompleted
    refine ⟨outcome, ?_⟩
    rw [← hd.completed, hsplit, finished_append]
    exact List.mem_append.2 (Or.inr hf)

end Teloxide.Outbound.Actor
