import Teloxide.Outbound.Adaptor.System

/-!
# The acquires of the scheduled requests

* `Goes`: what a step does to a request, and to the queue.
* `queue_run`: a run of the adaptor is one of its queue.
* `Linked`: a request that has a token is the only one to have it, and its acquire stands where the
  future thinks it does.
* `Laned`: the requests of a lane have its mode.
-/
namespace Teloxide.Outbound.Adaptor

open Teloxide.Core

variable {ρ ε ω : Type} {inner : Inner ρ ε}

/-! ## Steps -/

/-- What a request does by itself. -/
inductive Stays (q : Actor.Sys) (i : Nat) : Stage ρ ε ω → Stage ρ ε ω → Option (Note ρ ε ω) → Prop
  | edited {old it} : Stays q i (.scheduled old) (.scheduled it) none
  | sent {it} : Stays q i (.scheduled it) (.sending it) none
  | discarded {it} : Stays q i (.scheduled it) .dropped none
  | unsent {it} : Stays q i (.sending it) .dropped none
  | unplanned {plan} : Stays q i (.planned plan) .dropped none
  | unsettled {plan t job outcome} : Stays q i (.settling plan t job outcome) .dropped none
  | gone {plan t} : q.clients.stages t = .leaving [] → Stays q i (.leaving plan t) .dropped none
  | settled {plan t job outcome} : q.completions job = 0 → Stays q i (.settling plan t job outcome)
      (.resolved (outcome.mapError .inner)) (some (.resolved i (outcome.mapError .inner)))

/-- What a request does with a step of the queue, from `q` to `q'`. -/
inductive Goes (inner : Inner ρ ε) (q q' : Actor.Sys) (now i : Nat) :
    Actor.Action → Stage ρ ε ω → Stage ρ ε ω → Option (Note ρ ε ω) → Prop
  | minted {it} : Goes inner q q' now i (.mint (SendRefPlan.of inner it).acquire) (.sending it)
      (.minted (.of inner it) q.nextToken) none
  | mintedRef {plan} : Goes inner q q' now i (.mint plan.acquire) (.planned plan) (.minted plan q.nextToken) none
  | entered {plan t} : Goes inner q q' now i (.trySend t) (.minted plan t) (.acquiring plan t) none
  | refused {plan t action error} : action = .pollEnqueue t ∨ action = .pollGrant t → q'.clients.stages t = .failed error →
      Goes inner q q' now i action (.acquiring plan t) (.resolved (.error (.acquire error)))
        (some (.resolved i (.error (.acquire error))))
  | accepted {plan t} : (∀ error, q'.clients.stages t ≠ .failed error) →
      Goes inner q q' now i (.pollEnqueue t) (.acquiring plan t) (.acquiring plan t) none
  | granted {plan t} : (∀ error, q'.clients.stages t ≠ .failed error) →
      Goes inner q q' now i (.pollGrant t) (.acquiring plan t) (.permitted plan t) none
  | called {plan t permit} : q.clients.stages t = .holding permit →
      Goes inner q q' now i (.start t) (.permitted plan t) (.running plan t) (some (.called i plan permit.job))
  | answered {plan t permit outcome} : q.clients.stages t = .holding permit →
      Goes inner q q' now i (.completeAndAwait t (inner.completion plan.metadata outcome)) (.running plan t)
        (.settling plan t permit.job outcome) (some (.answered i outcome now))
  | leaves {plan t} : Goes inner q q' now i (.dropFuture t) (.acquiring plan t) (.leaving plan t) none
  | leaving {plan t action} : action = .sendCancel t ∨ action = .dropField t →
      Goes inner q q' now i action (.leaving plan t) (.leaving plan t) none
  | abandoned {plan t} : Goes inner q q' now i (.dropPermit t) (.running plan t) .dropped (some (.abandoned i))

/-- A new value, or the future of `send_ref`. -/
inductive Born (inner : Inner ρ ε) (x : Sys ρ ε ω) : Stage ρ ε ω → Prop
  | scheduled {it} : x.Gave it.lane → Born inner x (.scheduled it)
  | planned {i it} : x.futures i = .scheduled it → Born inner x (.planned (.of inner it))

/-- What a step of the adaptor is. -/
inductive Steps (inner : Inner ρ ε) (x : Sys ρ ε ω) : Sys ρ ε ω → Event ρ ε ω → Prop
  | other {action now q e} : x.Foreign action → Actor.queue.step x.queue (action, now) = some (q, e) →
      Steps inner x { x with queue := q } ⟨some e, none⟩
  | lane {mode} : Steps inner x { x with lanes := x.lanes ++ [mode] } ⟨none, none⟩
  | born {stage} : Born inner x stage → Steps inner x ({ x with next := x.next + 1 }.set x.next stage) ⟨none, none⟩
  | stays {i stage note} : Stays x.queue i (x.futures i) stage note →
      (∀ it, stage = .scheduled it → x.Gave it.lane) → Steps inner x (x.set i stage) ⟨none, note⟩
  | goes {i stage note action now q e} : Goes inner x.queue q now i action (x.futures i) stage note →
      Actor.queue.step x.queue (action, now) = some (q, e) →
      Steps inner x ({ x with queue := q }.set i stage) ⟨some e, note⟩

section
variable {x x' : Sys ρ ε ω} {e : Event ρ ε ω}

theorem through_goes {i now : Nat} {action : Actor.Action} {go : Actor.Sys → Stage ρ ε ω × Option (Note ρ ε ω)}
    (h : x.through i action now go = some (x', e))
    (hg : ∀ q, Goes inner x.queue q now i action (x.futures i) (go q).1 (go q).2) : Steps inner x x' e := by
  obtain ⟨⟨q, e'⟩, hq, hx⟩ := Option.map_eq_some_iff.1 h
  cases hx
  exact .goes (hg q) hq

theorem permit_some {t : Actor.Token} {permit : Actor.OutboundPermit} (h : x.permit t = some permit) :
    x.queue.clients.stages t = .holding permit := by
  unfold Sys.permit at h
  split at h
  · cases h
    assumption
  · cases h

theorem polled_goes {i now : Nat} {plan : SendRefPlan ρ} {t : Actor.Token} {action : Actor.Action} {onward : Stage ρ ε ω}
    (hs : x.futures i = .acquiring plan t) (ha : action = .pollEnqueue t ∨ action = .pollGrant t) (q : Actor.Sys)
    (ho : (∀ error, q.clients.stages t ≠ .failed error) →
      Goes inner x.queue q now i action (.acquiring plan t) onward none) :
    Goes inner x.queue q now i action (x.futures i) (Sys.polled i t onward q).1 (Sys.polled i t onward q).2 := by
  rw [hs]
  unfold Sys.polled
  split
  · rename_i error hfailed
    exact .refused ha hfailed
  · rename_i hnone
    exact ho fun error he => hnone error he

theorem step_steps {m : Action ρ ε ω × Nat} (h : (adaptor ω inner).step x m = some (x', e)) : Steps inner x x' e := by
  obtain ⟨action, now⟩ := m
  change x.step inner (action, now) = some (x', e) at h
  cases action with
  | other action =>
    simp only [Sys.step] at h
    split at h
    · rename_i hforeign
      obtain ⟨⟨q, e'⟩, hq, hx⟩ := Option.map_eq_some_iff.1 h
      cases hx
      exact .other hforeign hq
    · cases h
  | newLane mode =>
    simp only [Sys.step, Sys.caller] at h
    split at h
    · cases h
      exact .lane
    · cases h
  | build it =>
    simp only [Sys.step, Sys.caller] at h
    split at h
    · rename_i hgave
      cases h
      exact .born (.scheduled hgave.1)
    · cases h
  | edit i it =>
    simp only [Sys.step, Sys.caller] at h
    split at h
    · rename_i old hs
      split at h
      · rename_i hgave
        cases h
        refine .stays (hs ▸ .edited) fun it' he => ?_
        cases he
        exact hgave.1
      · cases h
    · cases h
  | send i =>
    simp only [Sys.step, Sys.caller] at h
    split at h
    · rename_i it hs
      cases h
      exact .stays (hs ▸ .sent) fun _ he => by cases he
    · cases h
  | sendRef i =>
    simp only [Sys.step, Sys.caller] at h
    split at h
    · rename_i it hs
      split at h
      · cases h
        exact .born (.planned hs)
      · cases h
    · cases h
  | acquire i =>
    simp only [Sys.step, Sys.advance] at h
    split at h
    · rename_i it hs
      exact through_goes h fun q => hs ▸ .minted
    · rename_i plan hs
      exact through_goes h fun q => hs ▸ .mintedRef
    · cases h
  | trySend i =>
    simp only [Sys.step, Sys.advance] at h
    split at h
    · rename_i plan t hs
      exact through_goes h fun q => hs ▸ .entered
    · cases h
  | pollEnqueue i =>
    simp only [Sys.step, Sys.advance] at h
    split at h
    · rename_i plan t hs
      exact through_goes h fun q => polled_goes hs (Or.inl rfl) q .accepted
    · cases h
  | pollGrant i =>
    simp only [Sys.step, Sys.advance] at h
    split at h
    · rename_i plan t hs
      exact through_goes h fun q => polled_goes hs (Or.inr rfl) q .granted
    · cases h
  | call i =>
    simp only [Sys.step, Sys.advance] at h
    split at h
    · rename_i plan t hs
      rw [Option.bind_eq_some_iff] at h
      obtain ⟨permit, hp, h⟩ := h
      exact through_goes h fun q => hs ▸ .called (permit_some hp)
    · cases h
  | answer i outcome =>
    simp only [Sys.step, Sys.advance] at h
    split at h
    · rename_i plan t hs
      rw [Option.bind_eq_some_iff] at h
      obtain ⟨permit, hp, h⟩ := h
      exact through_goes h fun q => hs ▸ .answered (permit_some hp)
    · cases h
  | settle i =>
    simp only [Sys.step, Sys.advance] at h
    split at h
    · rename_i plan t job outcome hs
      split at h
      · rename_i hzero
        cases h
        exact .stays (hs ▸ .settled hzero) fun _ he => by cases he
      · cases h
    · cases h
  | drop i =>
    simp only [Sys.step, Sys.discard] at h
    split at h
    · rename_i it hs
      cases h
      exact .stays (hs ▸ .discarded) fun _ he => by cases he
    · rename_i it hs
      cases h
      exact .stays (hs ▸ .unsent) fun _ he => by cases he
    · rename_i plan hs
      cases h
      exact .stays (hs ▸ .unplanned) fun _ he => by cases he
    · rename_i hs
      cases h
      exact .stays (hs ▸ .unsettled) fun _ he => by cases he
    · rename_i plan t hs
      exact through_goes h fun q => hs ▸ .leaves
    · rename_i plan t hs
      exact through_goes h fun q => hs ▸ .abandoned
    · cases h
  | sendCancel i =>
    simp only [Sys.step, Sys.discard] at h
    split at h
    · rename_i plan t hs
      refine through_goes h fun q => ?_
      rw [hs]
      exact .leaving (Or.inl rfl)
    · cases h
  | dropField i =>
    simp only [Sys.step, Sys.discard] at h
    split at h
    · rename_i plan t hs
      refine through_goes h fun q => ?_
      rw [hs]
      exact .leaving (Or.inr rfl)
    · cases h
  | gone i =>
    simp only [Sys.step, Sys.discard] at h
    split at h
    · rename_i plan t hs
      split at h
      · rename_i hleft
        cases h
        exact .stays (hs ▸ .gone hleft) fun _ he => by cases he
      · cases h
    · cases h

end

/-! ## What a run shows -/

/-- The events of the queue, newest first. -/
def queueEvents (τ : List (Event ρ ε ω)) : List Actor.Event := τ.filterMap (·.queue)

/-- What was seen of the requests, newest first. -/
def notes (τ : List (Event ρ ε ω)) : List (Note ρ ε ω) := τ.filterMap (·.note)

@[simp] theorem queueEvents_cons (e : Event ρ ε ω) (τ : List (Event ρ ε ω)) :
    queueEvents (e :: τ) = e.queue.toList ++ queueEvents τ := by
  unfold queueEvents
  rw [List.filterMap_cons]
  cases e.queue <;> rfl

@[simp] theorem notes_cons (e : Event ρ ε ω) (τ : List (Event ρ ε ω)) : notes (e :: τ) = e.note.toList ++ notes τ := by
  unfold notes
  rw [List.filterMap_cons]
  cases e.note <;> rfl

/-- A run of the adaptor is one of its queue. -/
theorem queue_run {τ : List (Event ρ ε ω)} {x : Sys ρ ε ω} (hr : Run inner τ x) : Actor.Run (queueEvents τ) x.queue := by
  refine Machine.Run.induct (I := fun τ (x : Sys ρ ε ω) => Actor.Run (queueEvents τ) x.queue) ?_ ?_ hr
  · rintro x ⟨hq, -⟩
    exact .start hq
  · rintro τ x m x' e - ih - hs
    rw [queueEvents_cons]
    cases step_steps hs with
    | other _ hq | goes _ hq => exact ih.step trivial hq
    | lane | born | stays => exact ih

/-! ## Tokens -/

section
variable {x x' : Sys ρ ε ω} {i j : Nat} {stage : Stage ρ ε ω}

@[simp] theorem set_same : (x.set i stage).futures i = stage := if_pos rfl

theorem set_other (h : j ≠ i) : (x.set i stage).futures j = x.futures j := if_neg h

@[simp] theorem set_queue : (x.set i stage).queue = x.queue := rfl
@[simp] theorem set_lanes : (x.set i stage).lanes = x.lanes := rfl
@[simp] theorem set_next : (x.set i stage).next = x.next := rfl

end

/-- Where the acquire of a request stands. -/
def Stage.Matches : Stage ρ ε ω → Actor.Stage → Prop
  | .minted plan _, s => s = .minted plan.acquire
  | .acquiring _ _, s => (∃ sent, s = .enqueuing sent) ∨ s = .waiting
  | .permitted _ _, s => ∃ permit, s = .holding permit
  | .running _ _, s => ∃ permit, s = .holding permit ∧ permit.started = true
  | .settling .., s => s = .finished
  | .leaving .., s => ∃ fields, s = .cancelling fields ∨ s = .leaving fields
  | .unborn, _ | .scheduled _, _ | .sending _, _ | .planned _, _ | .resolved _, _ | .dropped, _ => True

/-- The requests and their acquires. -/
structure Linked (inner : Inner ρ ε) (τ : List (Event ρ ε ω)) (x : Sys ρ ε ω) : Prop where
  unborn : ∀ i, x.next ≤ i → x.futures i = .unborn
  born : ∀ i t, (x.futures i).token = some t → t < x.queue.nextToken
  apart : ∀ i j t, (x.futures i).token = some t → (x.futures j).token = some t → i = j
  stands : ∀ i t, (x.futures i).token = some t → (x.futures i).Matches (x.queue.clients.stages t)
  sent : ∀ i plan t, (x.futures i).plan = some plan → (x.futures i).token = some t →
    ∀ r, .sent t r ∈ queueEvents τ → r = plan.acquire
  classified : ∀ i plan, (x.futures i).plan = some plan → ∃ it, plan = .of inner it

theorem Linked.index {τ : List (Event ρ ε ω)} {x : Sys ρ ε ω} (h : Linked inner τ x) {i : Nat} (hs : x.futures i ≠ .unborn) :
    i < x.next := Nat.lt_of_not_le fun hle => hs (h.unborn i hle)

section
variable {τ : List (Event ρ ε ω)} {x : Sys ρ ε ω} {q : Actor.Sys} {i : Nat} {stage : Stage ρ ε ω} {e : Event ρ ε ω}

/-- One request moves on, with or without the queue; nothing happens to the acquires of the others. -/
theorem Linked.moves (h : Linked inner τ x) (hi : i < x.next) (hn : x.queue.nextToken ≤ q.nextToken)
    (hother : ∀ j t, j ≠ i → (x.futures j).token = some t →
      q.clients.stages t = x.queue.clients.stages t ∧ ∀ r, .sent t r ∉ e.queue.toList)
    (hown : ∀ t, stage.token = some t → t < q.nextToken ∧ (∀ j, j ≠ i → (x.futures j).token ≠ some t) ∧
      stage.Matches (q.clients.stages t) ∧
      ∀ plan, stage.plan = some plan → ∀ r, .sent t r ∈ e.queue.toList ++ queueEvents τ → r = plan.acquire)
    (hplan : ∀ plan, stage.plan = some plan → ∃ it, plan = .of inner it) :
    Linked inner (e :: τ) ({ x with queue := q }.set i stage) := by
  have hcases (j : Nat) : j = i ∧ ({ x with queue := q }.set i stage).futures j = stage ∨
      j ≠ i ∧ ({ x with queue := q }.set i stage).futures j = x.futures j := by
    by_cases hj : j = i
    · exact Or.inl ⟨hj, hj ▸ set_same⟩
    · exact Or.inr ⟨hj, set_other hj⟩
  refine ⟨fun j hj => ?_, fun j t ht => ?_, fun j k t hj hk => ?_, fun j t ht => ?_, fun j plan t hp ht r hm => ?_,
    fun j plan hp => ?_⟩
  · rcases hcases j with ⟨rfl, -⟩ | ⟨-, hf⟩
    · exact absurd hi (Nat.not_lt.2 hj)
    · rw [hf]
      exact h.unborn j hj
  · rcases hcases j with ⟨-, hf⟩ | ⟨-, hf⟩
    · rw [hf] at ht
      exact (hown t ht).1
    · rw [hf] at ht
      exact Nat.lt_of_lt_of_le (h.born j t ht) hn
  · rcases hcases j with ⟨rfl, hf⟩ | ⟨hne, hf⟩
    · rw [hf] at hj
      rcases hcases k with ⟨rfl, -⟩ | ⟨hne, hg⟩
      · rfl
      · rw [hg] at hk
        exact absurd hk ((hown t hj).2.1 k hne)
    · rw [hf] at hj
      rcases hcases k with ⟨rfl, hg⟩ | ⟨-, hg⟩
      · rw [hg] at hk
        exact absurd hj ((hown t hk).2.1 j hne)
      · rw [hg] at hk
        exact h.apart j k t hj hk
  · rcases hcases j with ⟨-, hf⟩ | ⟨hne, hf⟩
    · rw [hf] at ht ⊢
      exact (hown t ht).2.2.1
    · rw [hf] at ht ⊢
      show (x.futures j).Matches (q.clients.stages t)
      rw [(hother j t hne ht).1]
      exact h.stands j t ht
  · rw [queueEvents_cons] at hm
    rcases hcases j with ⟨-, hf⟩ | ⟨hne, hf⟩
    · rw [hf] at hp ht
      exact (hown t ht).2.2.2 plan hp r hm
    · rw [hf] at hp ht
      refine h.sent j plan t hp ht r ((List.mem_append.1 hm).resolve_left ?_)
      exact (hother j t hne ht).2 r
  · rcases hcases j with ⟨-, hf⟩ | ⟨-, hf⟩
    · rw [hf] at hp
      exact hplan plan hp
    · rw [hf] at hp
      exact h.classified j plan hp

end

/-- A request that moves by itself has no token afterwards. -/
theorem Stays.after {q : Actor.Sys} {i : Nat} {s s' : Stage ρ ε ω} {note : Option (Note ρ ε ω)} (h : Stays q i s s' note) :
    s'.token = none ∧ s'.plan = none ∧ s ≠ .unborn := by
  cases h <;> exact ⟨rfl, rfl, nofun⟩

/-- A step of the queue leaves the acquires alone that it is not about. -/
theorem walks_elsewhere {q q' : Actor.Sys} {now : Nat} {action : Actor.Action} {e : Actor.Event}
    (h : Actor.Walks now q q' action e) {t : Actor.Token} (ht : action.token ≠ some t) (hlt : t < q.nextToken) :
    q.nextToken ≤ q'.nextToken ∧ q'.clients.stages t = q.clients.stages t ∧ ∀ r, e ≠ .sent t r := by
  cases h with
  | @after u stage htoken hadv hafter =>
    refine ⟨Nat.le_of_eq hadv.1.symm, ?_, fun r he => ?_⟩
    · rw [hadv.2, if_neg]
      rintro rfl
      exact ht htoken
    · subst he
      cases hafter with
      | sent => exact ht rfl
  | minted _ hn hs he =>
    refine ⟨hn ▸ Nat.le_succ _, ?_, fun r hr => ?_⟩
    · rw [hs, if_neg (Nat.ne_of_lt hlt)]
    · rw [he] at hr
      cases hr
  | aside _ _ hn hs hunsent => exact ⟨Nat.le_of_eq hn.symm, congrFun hs t, hunsent t⟩

theorem walks_nextToken {q q' : Actor.Sys} {now : Nat} {action : Actor.Action} {e : Actor.Event}
    (h : Actor.Walks now q q' action e) : q.nextToken ≤ q'.nextToken := by
  cases h with
  | after _ hadv => exact Nat.le_of_eq hadv.1.symm
  | minted _ hn => exact hn ▸ Nat.le_succ _
  | aside _ _ hn => exact Nat.le_of_eq hn.symm

theorem walks_after {q q' : Actor.Sys} {now : Nat} {action : Actor.Action} {e : Actor.Event}
    (h : Actor.Walks now q q' action e) {t : Actor.Token} (ht : action.token = some t) :
    Actor.After now (q.clients t) action (q'.clients.stages t) e := by
  cases h with
  | @after u stage htoken hadv hafter =>
    have hu : u = t := Option.some.inj (htoken.symm.trans ht)
    subst hu
    rw [hadv.2, if_pos rfl]
    exact hafter
  | minted ha =>
    subst ha
    cases ht
  | aside hnone =>
    rw [hnone] at ht
    cases ht

section
variable {τ : List (Event ρ ε ω)} {x : Sys ρ ε ω} {q : Actor.Sys} {i now : Nat} {action : Actor.Action} {stage : Stage ρ ε ω}
  {note : Option (Note ρ ε ω)} {e : Actor.Event}

/-- A step of the queue about the token of a request. -/
theorem Linked.walks (h : Linked inner τ x) {t : Actor.Token} {plan : SendRefPlan ρ} (ht : (x.futures i).token = some t)
    (hp : (x.futures i).plan = some plan) (hw : Actor.Walks now x.queue q action e) (hat : action.token = some t)
    (hstage : stage.token = some t ∧ stage.plan = some plan ∧ stage.Matches (q.clients.stages t) ∧
      (∀ r, e = .sent t r → r = plan.acquire) ∨ stage.token = none ∧ stage.plan = none) :
    Linked inner (⟨some e, note⟩ :: τ) ({ x with queue := q }.set i stage) := by
  have hi : i < x.next := h.index fun hs => by
    rw [hs] at ht
    cases ht
  refine h.moves hi (walks_nextToken hw) (fun j u hj hu => ?_) (fun u hu => ?_) fun p hp' => ?_
  · have hne : action.token ≠ some u := fun heq => hj (h.apart j i u hu (by rw [ht, ← hat, heq]))
    obtain ⟨-, hs, hunsent⟩ := walks_elsewhere hw hne (h.born j u hu)
    exact ⟨hs, fun r hm => hunsent r (List.mem_singleton.1 hm).symm⟩
  · rcases hstage with ⟨htoken, hplan, hmatches, hsent⟩ | ⟨hnone, -⟩
    · cases htoken.symm.trans hu
      refine ⟨Nat.lt_of_lt_of_le (h.born i t ht) (walks_nextToken hw), fun j hj heq => hj (h.apart j i t heq ht), hmatches,
        fun p hp' r hm => ?_⟩
      cases hplan.symm.trans hp'
      rcases List.mem_append.1 hm with hm | hm
      · exact hsent r (List.mem_singleton.1 hm).symm
      · exact h.sent i plan t hp ht r hm
    · rw [hnone] at hu
      cases hu
  · rcases hstage with ⟨-, hplan, -⟩ | ⟨-, hnone⟩
    · cases hplan.symm.trans hp'
      exact h.classified i plan hp
    · rw [hnone] at hp'
      cases hp'

/-- A request gets its token. -/
theorem Linked.mints (h : Linked inner τ x) (hposted : Actor.Posted (queueEvents τ) x.queue) {plan : SendRefPlan ρ}
    (hi : i < x.next) (hplan : ∃ it, plan = .of inner it) (hw : Actor.Walks now x.queue q (.mint plan.acquire) e) :
    Linked inner (⟨some e, none⟩ :: τ) ({ x with queue := q }.set i (.minted plan x.queue.nextToken)) := by
  refine h.moves hi (walks_nextToken hw) (fun j u _ hu => ?_) (fun u hu => ?_) fun p hp => ?_
  · obtain ⟨-, hs, hunsent⟩ := walks_elsewhere hw (t := u) nofun (h.born j u hu)
    exact ⟨hs, fun r hm => hunsent r (List.mem_singleton.1 hm).symm⟩
  · cases hu
    cases hw with
    | after ht => cases ht
    | aside _ hm => exact absurd rfl (hm _)
    | minted ha hn hs he =>
      cases ha
      refine ⟨hn ▸ Nat.lt_succ_self _, fun j _ hj => Nat.lt_irrefl _ (h.born j _ hj), ?_, fun p hp r hm => ?_⟩
      · rw [hs, if_pos rfl]
        exact rfl
      · rw [he] at hm
        rcases List.mem_append.1 hm with hm | hm
        · cases List.mem_singleton.1 hm
        · exact absurd (hposted.sent _ r hm).1 (Nat.lt_irrefl _)
  · cases hp
    exact hplan

theorem Linked.goes (h : Linked inner τ x) (hposted : Actor.Posted (queueEvents τ) x.queue)
    (hg : Goes inner x.queue q now i action (x.futures i) stage note) (hw : Actor.Walks now x.queue q action e) :
    Linked inner (⟨some e, note⟩ :: τ) ({ x with queue := q }.set i stage) := by
  have hunborn (hs : x.futures i ≠ .unborn) : i < x.next := h.index hs
  generalize hs : x.futures i = s at hg
  have htoken {t : Actor.Token} (ht : s.token = some t) : (x.futures i).token = some t := by rw [hs]; exact ht
  have hplan {plan : SendRefPlan ρ} (hp : s.plan = some plan) : (x.futures i).plan = some plan := by rw [hs]; exact hp
  have hstands {t : Actor.Token} (ht : s.token = some t) : s.Matches (x.queue.clients.stages t) := by
    have hst := h.stands i t (htoken ht)
    rwa [hs] at hst
  cases hg with
  | minted => exact h.mints hposted (hunborn (by rw [hs]; exact nofun)) ⟨_, rfl⟩ hw
  | mintedRef => exact h.mints hposted (hunborn (by rw [hs]; exact nofun)) (h.classified i _ (hplan rfl)) hw
  | @entered plan t =>
    have hst : x.queue.clients.stages t = .minted plan.acquire := hstands rfl
    have hafter := walks_after hw (t := t) rfl
    refine h.walks (htoken rfl) (hplan rfl) hw rfl (Or.inl ⟨rfl, rfl, ?_, ?_⟩)
    · generalize q.clients.stages t = stage at hafter
      cases hafter with
      | sent => exact Or.inl ⟨true, rfl⟩
      | unsent => exact Or.inl ⟨false, rfl⟩
    · generalize q.clients.stages t = stage at hafter
      rintro r rfl
      cases hafter with
      | sent hr =>
        have hr' : x.queue.clients.stages t = .minted r := hr
        rw [hst] at hr'
        cases hr'
        rfl
  | refused ha _ =>
    refine h.walks (htoken rfl) (hplan rfl) hw ?_ (Or.inr ⟨rfl, rfl⟩)
    rcases ha with rfl | rfl <;> rfl
  | @accepted plan t hnone =>
    have hafter := walks_after hw (t := t) rfl
    refine h.walks (htoken rfl) (hplan rfl) hw rfl (Or.inl ⟨rfl, rfl, ?_, ?_⟩)
    · generalize q.clients.stages t = stage at hafter hnone
      cases hafter with
      | accepted => exact Or.inr rfl
      | refused => exact absurd rfl (hnone _)
    · generalize q.clients.stages t = stage at hafter
      rintro r rfl
      cases hafter
  | @granted plan t hnone =>
    have hafter := walks_after hw (t := t) rfl
    refine h.walks (htoken rfl) (hplan rfl) hw rfl (Or.inl ⟨rfl, rfl, ?_, ?_⟩)
    · generalize q.clients.stages t = stage at hafter hnone
      cases hafter with
      | granted => exact ⟨_, rfl⟩
      | failed => exact absurd rfl (hnone _)
    · generalize q.clients.stages t = stage at hafter
      rintro r rfl
      cases hafter
  | @called plan t permit hp =>
    have hafter := walks_after hw (t := t) rfl
    refine h.walks (htoken rfl) (hplan rfl) hw rfl (Or.inl ⟨rfl, rfl, ?_, ?_⟩)
    · generalize q.clients.stages t = stage at hafter
      cases hafter with
      | started => exact ⟨_, rfl, rfl⟩
    · generalize q.clients.stages t = stage at hafter
      rintro r rfl
      cases hafter
  | @answered plan t permit outcome hp =>
    have hafter := walks_after hw (t := t) rfl
    refine h.walks (htoken rfl) (hplan rfl) hw rfl (Or.inl ⟨rfl, rfl, ?_, ?_⟩)
    · generalize q.clients.stages t = stage at hafter
      cases hafter with
      | awaited => exact rfl
    · generalize q.clients.stages t = stage at hafter
      rintro r rfl
      cases hafter
  | @leaves plan t =>
    have hafter := walks_after hw (t := t) rfl
    refine h.walks (htoken rfl) (hplan rfl) hw rfl (Or.inl ⟨rfl, rfl, ?_, ?_⟩)
    · generalize q.clients.stages t = stage at hafter
      cases hafter with
      | cancelling => exact ⟨_, Or.inl rfl⟩
      | leaving => exact ⟨_, Or.inr rfl⟩
    · generalize q.clients.stages t = stage at hafter
      rintro r rfl
      cases hafter
  | @leaving plan t action ha =>
    have hat : action.token = some t := by rcases ha with rfl | rfl <;> rfl
    have hafter := walks_after hw hat
    refine h.walks (htoken rfl) (hplan rfl) hw hat (Or.inl ⟨rfl, rfl, ?_, ?_⟩)
    · generalize q.clients.stages t = stage at hafter
      rcases ha with rfl | rfl
      · cases hafter with
        | cancelled => exact ⟨_, Or.inr rfl⟩
      · cases hafter with
        | dropped => exact ⟨_, Or.inr rfl⟩
    · generalize q.clients.stages t = stage at hafter
      rintro r rfl
      rcases ha with rfl | rfl <;> cases hafter
  | abandoned => exact h.walks (htoken rfl) (hplan rfl) hw rfl (Or.inr ⟨rfl, rfl⟩)

end

theorem Linked.other {τ : List (Event ρ ε ω)} {x : Sys ρ ε ω} {q : Actor.Sys} {now : Nat} {action : Actor.Action} {e : Actor.Event}
    (h : Linked inner τ x) (hforeign : x.Foreign action) (hw : Actor.Walks now x.queue q action e) :
    Linked inner (⟨some e, none⟩ :: τ) { x with queue := q } := by
  have hleft {j : Nat} {t : Actor.Token} (hj : (x.futures j).token = some t) :
      q.clients.stages t = x.queue.clients.stages t ∧ ∀ r, e ≠ .sent t r := by
    have hj' : j < x.next := h.index fun hs => by
      rw [hs] at hj
      cases hj
    exact (walks_elsewhere hw (fun ht => hforeign.1 t ht j hj' hj) (h.born j t hj)).2
  refine ⟨h.unborn, fun j t hj => Nat.lt_of_lt_of_le (h.born j t hj) (walks_nextToken hw), h.apart, fun j t hj => ?_,
    fun j plan t hp hj r hm => ?_, h.classified⟩
  · show (x.futures j).Matches (q.clients.stages t)
    rw [(hleft hj).1]
    exact h.stands j t hj
  · rw [queueEvents_cons] at hm
    refine h.sent j plan t hp hj r ((List.mem_append.1 hm).resolve_left fun he => ?_)
    exact (hleft hj).2 r (List.mem_singleton.1 he).symm

/-- A new value has no token, and the future of `send_ref` classifies the request as it is. -/
theorem Linked.grows {τ : List (Event ρ ε ω)} {x : Sys ρ ε ω} {stage : Stage ρ ε ω} (h : Linked inner τ x)
    (hb : Born inner x stage) : Linked inner (⟨none, none⟩ :: τ) ({ x with next := x.next + 1 }.set x.next stage) := by
  have hnone : stage.token = none := by cases hb <;> rfl
  have hf {j : Nat} {t : Actor.Token} (hj : (({ x with next := x.next + 1 }.set x.next stage).futures j).token = some t) :
      ({ x with next := x.next + 1 }.set x.next stage).futures j = x.futures j := by
    refine set_other fun heq => ?_
    subst heq
    rw [set_same, hnone] at hj
    cases hj
  refine ⟨fun j hj => ?_, fun j t hj => ?_, fun j k t hj hk => ?_, fun j t hj => ?_, fun j plan t hp hj r hm => ?_,
    fun j plan hp => ?_⟩
  · rw [set_other (Nat.ne_of_gt hj)]
    exact h.unborn j (Nat.le_of_succ_le hj)
  · exact h.born j t (hf hj ▸ hj)
  · exact h.apart j k t (hf hj ▸ hj) (hf hk ▸ hk)
  · have hsame := hf hj
    rw [hsame] at hj ⊢
    exact h.stands j t hj
  · have hsame := hf hj
    rw [hsame] at hj hp
    exact h.sent j plan t hp hj r hm
  · by_cases hj : j = x.next
    · subst hj
      rw [set_same] at hp
      cases hb with
      | scheduled => cases hp
      | planned =>
        cases hp
        exact ⟨_, rfl⟩
    · rw [set_other hj] at hp
      exact h.classified j plan hp

theorem linked_run {τ : List (Event ρ ε ω)} {x : Sys ρ ε ω} (hr : Run inner τ x) : Linked inner τ x := by
  refine Machine.Run.induct (I := Linked inner) ?_ ?_ hr
  · rintro x ⟨-, -, -, hf⟩
    refine ⟨fun i _ => by rw [hf], fun i t ht => ?_, fun i j t ht => ?_, fun i t ht => ?_, fun i plan t hp => ?_,
      fun i plan hp => ?_⟩
    all_goals first | (rw [hf] at ht; cases ht) | (rw [hf] at hp; cases hp)
  · rintro τ x m x' e hrun ih - hs
    have hposted := Actor.posted_run (queue_run hrun)
    cases step_steps hs with
    | other hforeign hq => exact ih.other hforeign (Actor.step_walks hq)
    | lane => exact ⟨ih.unborn, ih.born, ih.apart, ih.stands, ih.sent, ih.classified⟩
    | born hb => exact ih.grows hb
    | stays hst _ =>
      obtain ⟨hnone, hplan, hborn⟩ := hst.after
      refine ih.moves (q := x.queue) (ih.index hborn) (Nat.le_refl _) (fun _ _ _ _ => ⟨rfl, nofun⟩) (fun t ht => ?_)
        fun plan hp => ?_
      · rw [hnone] at ht
        cases ht
      · rw [hplan] at hp
        cases hp
    | goes hg hq => exact ih.goes hposted hg (Actor.step_walks hq)

/-! ## Lanes -/

/-- The lanes of the requests, and of everything that was sent, have been given out in their modes. -/
structure Laned (τ : List (Event ρ ε ω)) (x : Sys ρ ε ω) : Prop where
  value : ∀ i it, x.futures i = .scheduled it ∨ x.futures i = .sending it → x.Gave it.lane
  plan : ∀ i plan, (x.futures i).plan = some plan → x.Gave plan.lane
  minted : ∀ t r, x.queue.clients.stages t = .minted r → x.Knows r
  sent : ∀ t r, .sent t r ∈ queueEvents τ → x.Knows r

section
variable {x : Sys ρ ε ω}

theorem getElem?_concat {α : Type} {l : List α} {k : Nat} {a b : α} (h : l[k]? = some a) : (l ++ [b])[k]? = some a := by
  obtain ⟨hk, -⟩ := List.getElem?_eq_some_iff.1 h
  rw [List.getElem?_append_left hk]
  exact h

/-- A lane that has been given out stays so. -/
theorem gave_concat {lane : Option ScheduledLane} {mode : OutboundLaneMode} (h : x.Gave lane) :
    { x with lanes := x.lanes ++ [mode] }.Gave lane := fun l hl => getElem?_concat (h l hl)

theorem knows_concat {r : Actor.Request} {mode : OutboundLaneMode} (h : x.Knows r) :
    { x with lanes := x.lanes ++ [mode] }.Knows r := by
  unfold Sys.Knows at h ⊢
  split at h
  · exact getElem?_concat h
  · exact trivial
  · exact h.elim
  · exact h.elim

/-- What a plan sends comes with its lane. -/
theorem knows_acquire {plan : SendRefPlan ρ} (h : x.Gave plan.lane) : x.Knows plan.acquire := by
  unfold SendRefPlan.acquire
  cases hl : plan.lane with
  | none => exact trivial
  | some lane =>
    have hgave := h lane hl
    cases lane with
    | serial lane => exact hgave
    | boundedOrderedStart lane => exact hgave

theorem knows_mode {r : Actor.Request} {lane : OutboundLaneKey} (h : x.Knows r) (hl : r.metadata.lane = some lane) :
    r.laneMode.getD .serial = x.lanes[lane]?.getD .serial := by
  unfold Sys.Knows at h
  rw [hl] at h
  cases hm : r.laneMode with
  | none =>
    rw [hm] at h
    exact h.elim
  | some mode =>
    rw [hm] at h
    have hmode : x.lanes[lane]? = some mode := h
    rw [hmode]

end

/-- Nothing is sent on a lane that was not given out. -/
theorem Laned.walks {τ : List (Event ρ ε ω)} {x : Sys ρ ε ω} {q : Actor.Sys} {now : Nat} {action : Actor.Action} {e : Actor.Event}
    (h : Laned τ x) (hw : Actor.Walks now x.queue q action e) (hm : ∀ r, action = .mint r → x.Knows r) :
    (∀ t r, q.clients.stages t = .minted r → x.Knows r) ∧ ∀ t r, e = .sent t r → x.Knows r := by
  cases hw with
  | @after u stage _ hadv hafter =>
    refine ⟨fun t r hs => ?_, fun t r he => ?_⟩
    · rw [hadv.2 t] at hs
      split at hs
      · exact absurd hs (hafter.onward.2 r)
      · exact h.minted t r hs
    · subst he
      cases hafter with
      | sent hs => exact h.minted _ r hs
  | @minted request ha _ hs he =>
    refine ⟨fun t r ht => ?_, fun t r hr => ?_⟩
    · rw [hs t] at ht
      split at ht
      · cases ht
        exact hm request ha
      · exact h.minted t r ht
    · rw [he] at hr
      cases hr
  | aside _ _ _ hs hunsent => exact ⟨fun t r ht => h.minted t r (hs ▸ ht), fun t r he => absurd he (hunsent t r)⟩

theorem laned_run {τ : List (Event ρ ε ω)} {x : Sys ρ ε ω} (hr : Run inner τ x) : Laned τ x := by
  refine Machine.Run.induct (I := fun τ (x : Sys ρ ε ω) => Laned τ x) ?_ ?_ hr
  · rintro x ⟨⟨limits, classLimits, aging, scheduler, capacity, clock, -, -, hq⟩, -, -, hf⟩
    refine ⟨fun i it hs => ?_, fun i plan hp => ?_, fun t r hs => ?_, fun _ _ hm => nomatch hm⟩
    · rw [hf] at hs
      rcases hs with hs | hs <;> cases hs
    · rw [hf] at hp
      cases hp
    · rw [hq] at hs
      cases hs
  · rintro τ x m x' e - ih - hs
    -- a request that is as it was, or the one that moves
    have hvalues (y : Sys ρ ε ω) (i : Nat) (stage : Stage ρ ε ω) (hlanes : y.lanes = x.lanes) (hf : y.futures = x.futures)
        (hvalue : ∀ it, stage = .scheduled it ∨ stage = .sending it → x.Gave it.lane)
        (hplan : ∀ plan, stage.plan = some plan → x.Gave plan.lane) :
        (∀ j it, (y.set i stage).futures j = .scheduled it ∨ (y.set i stage).futures j = .sending it → y.Gave it.lane) ∧
          ∀ j plan, ((y.set i stage).futures j).plan = some plan → y.Gave plan.lane := by
      have hgave (lane : Option ScheduledLane) (h : x.Gave lane) : y.Gave lane := by
        unfold Sys.Gave
        rw [hlanes]
        exact h
      refine ⟨fun j it hj => hgave _ ?_, fun j plan hj => hgave _ ?_⟩
      · by_cases hji : j = i
        · subst hji
          rw [set_same] at hj
          exact hvalue it hj
        · rw [set_other hji, hf] at hj
          exact ih.value j it hj
      · by_cases hji : j = i
        · subst hji
          rw [set_same] at hj
          exact hplan plan hj
        · rw [set_other hji, hf] at hj
          exact ih.plan j plan hj
    have hsent {e' : Actor.Event} {note : Option (Note ρ ε ω)} (he : ∀ t r, e' = .sent t r → x.Knows r) (t : Actor.Token)
        (r : Actor.Request) (hm : .sent t r ∈ queueEvents (⟨some e', note⟩ :: τ)) : x.Knows r := by
      rw [queueEvents_cons] at hm
      rcases List.mem_append.1 hm with hm | hm
      · exact he t r (List.mem_singleton.1 hm).symm
      · exact ih.sent t r hm
    cases step_steps hs with
    | other hforeign hq =>
      obtain ⟨hminted, he⟩ := ih.walks (Actor.step_walks hq) fun r ha => by
        subst ha
        exact hforeign.2
      exact ⟨ih.value, ih.plan, hminted, hsent he⟩
    | lane =>
      exact ⟨fun i it hi => gave_concat (ih.value i it hi), fun i plan hp => gave_concat (ih.plan i plan hp),
        fun t r hm => knows_concat (ih.minted t r hm), fun t r hm => knows_concat (ih.sent t r hm)⟩
    | @born stage hb =>
      obtain ⟨hv, hp⟩ := hvalues { x with next := x.next + 1 } x.next stage rfl rfl
        (fun it hit => by
          cases hb with
          | scheduled hgave =>
            rcases hit with hit | hit <;> cases hit
            exact hgave
          | planned => rcases hit with hit | hit <;> cases hit)
        (fun plan hp => by
          cases hb with
          | scheduled => cases hp
          | @planned i it hi =>
            cases hp
            exact ih.value i it (Or.inl hi))
      exact ⟨hv, hp, ih.minted, ih.sent⟩
    | @stays i stage note hst hgave =>
      obtain ⟨hv, hp⟩ := hvalues x i stage rfl rfl
        (fun it hit => by
          rcases hit with hit | hit
          · exact hgave it hit
          · subst hit
            generalize hi : x.futures i = s at hst
            cases hst
            exact ih.value i it (Or.inl hi))
        (fun plan hp => by
          rw [hst.after.2.1] at hp
          cases hp)
      exact ⟨hv, hp, ih.minted, ih.sent⟩
    | @goes i stage note action now q e' hg hq =>
      have hlane : ∀ plan, stage.plan = some plan → x.Gave plan.lane := by
        intro plan hp
        generalize hi : x.futures i = s at hg
        cases hg with
        | minted =>
          cases hp
          exact ih.value i _ (Or.inr hi)
        | refused | abandoned => cases hp
        | _ =>
          refine ih.plan i plan ?_
          rw [hi]
          exact hp
      obtain ⟨hv, hp⟩ := hvalues { x with queue := q } i stage rfl rfl
        (fun it hit => by
          generalize x.futures i = s at hg
          rcases hit with rfl | rfl <;> cases hg)
        hlane
      obtain ⟨hminted, he⟩ := ih.walks (Actor.step_walks hq) fun r ha => by
        subst ha
        generalize x.futures i = s at hg
        cases hg with
        | minted | mintedRef => exact knows_acquire (hlane _ rfl)
        | refused ha => rcases ha with ha | ha <;> cases ha
        | leaving ha => rcases ha with ha | ha <;> cases ha
      exact ⟨hv, hp, hminted, hsent he⟩

end Teloxide.Outbound.Adaptor
