import Teloxide.Outbound.Actor.Barrier
import Teloxide.Outbound.Actor.Order
import Teloxide.Outbound.Adaptor.Owners

/-!
# What the scheduled requests run

* `Ran`: what a request has run so far, by where its future stands.
* `called_once`: a request runs once at most, under a permit of its own.
* `resolved_run`: it resolves after the actor has applied its outcome.
* `serial_in_turn`, `serial_in_order`: on a serial lane one request runs at a time, in the order in
  which they were sent.
* `retryAfter_holds`: after a `RetryAfter` nothing in its scope is granted too early.
-/
namespace Teloxide.Outbound.Adaptor

open Teloxide.Core

variable {ρ ε ω : Type} {inner : Inner ρ ε}

/-- The calls of an inner request, newest first. -/
def calls (i : Nat) : List (Note ρ ε ω) → List (SendRefPlan ρ × JobId)
  | [] => []
  | .called j plan job :: ns => if j = i then (plan, job) :: calls i ns else calls i ns
  | _ :: ns => calls i ns

/-- The request that is seen. -/
def Note.index : Note ρ ε ω → Nat
  | .called i _ _ | .answered i .. | .abandoned i | .resolved i _ => i

theorem mem_calls {i : Nat} {plan : SendRefPlan ρ} {job : JobId} {ns : List (Note ρ ε ω)} :
    (plan, job) ∈ calls i ns ↔ .called i plan job ∈ ns := by
  induction ns with
  | nil => simp [calls]
  | cons n ns ih =>
    cases n with
    | called j =>
      simp only [calls]
      split
      · rename_i hj
        simp [ih, hj]
      · rename_i hj
        simp [ih, Ne.symm hj]
    | answered | abandoned | resolved => simp [calls, ih]

/-- What was called is not called by another request. -/
theorem calls_other {i : Nat} {note : Option (Note ρ ε ω)} {ns : List (Note ρ ε ω)} (h : ∀ n ∈ note, n.index ≠ i) :
    calls i (note.toList ++ ns) = calls i ns := by
  cases note with
  | none => rfl
  | some n =>
    cases n with
    | called j => exact if_neg (h _ rfl)
    | answered | abandoned | resolved => rfl

/-- The completion of a job has been applied, or there is nobody to do so. -/
def Settled (τ : List Actor.Event) (q : Actor.Sys) (job : JobId) (outcome : OutboundCompletion) (now : Nat) : Prop :=
  .applied job outcome now ∈ τ ∨ q.actor = none

/-- What a request has run, by where its future stands. -/
def Stage.Ran (inner : Inner ρ ε) (i : Nat) (τ : List (Event ρ ε ω)) (q : Actor.Sys) : Stage ρ ε ω → Prop
  | .unborn | .scheduled _ | .sending _ | .planned _ | .minted .. | .acquiring .. | .permitted .. | .leaving .. =>
    calls i (notes τ) = []
  | .running plan t => ∃ permit, q.clients.stages t = .holding permit ∧ calls i (notes τ) = [(plan, permit.job)]
  | .settling plan _ job outcome => calls i (notes τ) = [(plan, job)] ∧ ∃ now, .answered i outcome now ∈ notes τ ∧
      .reported job (inner.completion plan.metadata outcome) now ∈ queueEvents τ
  | .resolved result =>
    (∃ error, result = .error (.acquire error)) ∧ calls i (notes τ) = [] ∨
    ∃ plan job outcome now, result = outcome.mapError .inner ∧ calls i (notes τ) = [(plan, job)] ∧
      .answered i outcome now ∈ notes τ ∧ Settled (queueEvents τ) q job (inner.completion plan.metadata outcome) now
  | .dropped => calls i (notes τ) = [] ∨ ∃ call, calls i (notes τ) = [call] ∧
      (.abandoned i ∈ notes τ ∨ ∃ outcome now, .answered i outcome now ∈ notes τ)

section
variable {τ : List (Event ρ ε ω)} {q q' : Actor.Sys} {i : Nat} {s s' : Stage ρ ε ω} {e : Event ρ ε ω}

/-- What others do takes nothing back. -/
theorem Stage.Ran.keeps (h : s.Ran inner i τ q) (hn : ∀ n ∈ e.note, n.index ≠ i)
    (hs : ∀ t, s.token = some t → q'.clients.stages t = q.clients.stages t) (hgone : q.actor = none → q'.actor = none) :
    s.Ran inner i (e :: τ) q' := by
  have hcalls : calls i (notes (e :: τ)) = calls i (notes τ) := by
    rw [notes_cons]
    exact calls_other hn
  have hnote {n : Note ρ ε ω} (hm : n ∈ notes τ) : n ∈ notes (e :: τ) := by
    rw [notes_cons]
    exact List.mem_append.2 (Or.inr hm)
  have hevent {u : Actor.Event} (hm : u ∈ queueEvents τ) : u ∈ queueEvents (e :: τ) := by
    rw [queueEvents_cons]
    exact List.mem_append.2 (Or.inr hm)
  cases s with
  | unborn | scheduled | sending | planned | minted | acquiring | permitted | leaving => exact hcalls.trans h
  | running plan t =>
    obtain ⟨permit, hp, hc⟩ := h
    exact ⟨permit, (hs t rfl).trans hp, hcalls.trans hc⟩
  | settling =>
    obtain ⟨hc, now, ha, hr⟩ := h
    exact ⟨hcalls.trans hc, now, hnote ha, hevent hr⟩
  | resolved =>
    rcases h with ⟨herror, hc⟩ | ⟨plan, job, outcome, now, hr, hc, ha, happlied⟩
    · exact Or.inl ⟨herror, hcalls.trans hc⟩
    · exact Or.inr ⟨plan, job, outcome, now, hr, hcalls.trans hc, hnote ha, happlied.imp hevent hgone⟩
  | dropped =>
    rcases h with hc | ⟨call, hc, hend⟩
    · exact Or.inl (hcalls.trans hc)
    · refine Or.inr ⟨call, hcalls.trans hc, hend.imp hnote ?_⟩
      rintro ⟨outcome, now, ha⟩
      exact ⟨outcome, now, hnote ha⟩

/-- What a request does by itself: it resolves when the actor has applied its outcome. -/
theorem Stage.Ran.stays (h : s.Ran inner i τ q) (hst : Stays q i s s' e.note) (he : e.queue = none)
    (hunderway : Actor.Underway (queueEvents τ) q) : s'.Ran inner i (e :: τ) q := by
  have hevents : queueEvents (e :: τ) = queueEvents τ := by rw [queueEvents_cons, he]; rfl
  have hquiet (hnote : e.note = none) : notes (e :: τ) = notes τ := by rw [notes_cons, hnote]; rfl
  generalize hnote : e.note = note at hst
  cases hst with
  | edited | sent => exact (congrArg (calls i) (hquiet hnote)).trans h
  | discarded | unsent | unplanned | gone => exact Or.inl ((congrArg (calls i) (hquiet hnote)).trans h)
  | unsettled =>
    obtain ⟨hc, now, ha, -⟩ := h
    unfold Stage.Ran
    rw [hquiet hnote]
    exact Or.inr ⟨_, hc, Or.inr ⟨_, now, ha⟩⟩
  | @settled plan t job outcome hzero =>
    obtain ⟨hc, now, ha, hreported⟩ := h
    have hnotes : notes (e :: τ) = .resolved i (outcome.mapError .inner) :: notes τ := by rw [notes_cons, hnote]; rfl
    unfold Stage.Ran
    rw [hnotes, hevents]
    refine Or.inr ⟨plan, job, outcome, now, rfl, hc, List.mem_cons_of_mem _ ha, ?_⟩
    -- no completion of the job is left in the channel
    rcases hunderway _ _ _ hreported with happlied | hgone | ⟨c, u, ack, hm⟩
    · exact Or.inl happlied
    · exact Or.inr hgone
    · refine absurd hzero (Nat.pos_iff_ne_zero.1 (List.countP_pos_iff.2 ⟨_, hm, ?_⟩))
      simp [Actor.OutboundCommand.completes]

/-- What a request does with a step of the queue. -/
theorem Stage.Ran.goes {now : Nat} {action : Actor.Action} {u : Actor.Event} (h : s.Ran inner i τ q)
    (hg : Goes inner q q' now i action s s' e.note) (he : e.queue = some u) (hw : Actor.Walks now q q' action u) :
    s'.Ran inner i (e :: τ) q' := by
  have hevents : queueEvents (e :: τ) = u :: queueEvents τ := by rw [queueEvents_cons, he]; rfl
  have hnotes : notes (e :: τ) = e.note.toList ++ notes τ := notes_cons e τ
  generalize e.note = note at hg hnotes
  cases hg with
  | minted | mintedRef | entered | accepted | granted | leaves | leaving => exact (congrArg (calls i) hnotes).trans h
  | refused => exact Or.inl ⟨⟨_, rfl⟩, (congrArg (calls i) hnotes).trans h⟩
  | @called plan t permit hp =>
    have hafter := walks_after hw (t := t) rfl
    generalize hstage : q'.clients.stages t = stage at hafter
    cases hafter with
    | @started _ permit' hs =>
      have hsame : permit' = permit := by
        have hs' : q.clients.stages t = .holding permit' := hs
        rw [hp] at hs'
        cases hs'
        rfl
      refine ⟨_, hstage, ?_⟩
      rw [hnotes, hsame]
      show (if i = i then (plan, permit.job) :: calls i (notes τ) else calls i (notes τ)) = _
      rw [if_pos rfl, show calls i (notes τ) = [] from h]
  | @answered plan t permit outcome hp =>
    obtain ⟨permit', hp', hc⟩ := h
    have hsame : permit = permit' := by
      rw [hp] at hp'
      cases hp'
      rfl
    have hafter := walks_after hw (t := t) rfl
    generalize q'.clients.stages t = stage at hafter
    cases hafter with
    | @awaited _ permit'' _ hs =>
      have hsame' : permit'' = permit := by
        have hs' : q.clients.stages t = .holding permit'' := hs
        rw [hp] at hs'
        cases hs'
        rfl
      unfold Stage.Ran
      rw [hnotes, hevents]
      refine ⟨?_, now, List.mem_cons_self, ?_⟩
      · rw [hsame]
        exact hc
      · rw [hsame']
        exact List.mem_cons_self
  | abandoned =>
    obtain ⟨permit, -, hc⟩ := h
    unfold Stage.Ran
    rw [hnotes]
    exact Or.inr ⟨_, hc, Or.inl List.mem_cons_self⟩

end

/-- A note is about the request that moves. -/
theorem Stays.index {q : Actor.Sys} {i : Nat} {s s' : Stage ρ ε ω} {note : Option (Note ρ ε ω)} (h : Stays q i s s' note) :
    ∀ n ∈ note, n.index = i := by
  cases h with
  | settled =>
    intro n hn
    cases hn
    rfl
  | _ => exact fun _ hn => nomatch hn

theorem Goes.index {q q' : Actor.Sys} {now i : Nat} {action : Actor.Action} {s s' : Stage ρ ε ω} {note : Option (Note ρ ε ω)}
    (h : Goes inner q q' now i action s s' note) : ∀ n ∈ note, n.index = i := by
  cases h with
  | refused | called | answered | abandoned =>
    intro n hn
    cases hn
    rfl
  | _ => exact fun _ hn => nomatch hn

/-- A step of the queue about a token is one of the request that has it. -/
theorem Goes.token {q q' : Actor.Sys} {now i : Nat} {action : Actor.Action} {s s' : Stage ρ ε ω} {note : Option (Note ρ ε ω)}
    (h : Goes inner q q' now i action s s' note) {t : Actor.Token} (ht : action.token = some t) : s.token = some t := by
  cases h with
  | minted | mintedRef => cases ht
  | refused ha | leaving ha => rcases ha with rfl | rfl <;> exact ht
  | entered | accepted | granted | called | answered | leaves | abandoned => exact ht

theorem ran_run {τ : List (Event ρ ε ω)} {x : Sys ρ ε ω} (hr : Run inner τ x) :
    ∀ i, (x.futures i).Ran inner i τ x.queue := by
  refine Machine.Run.induct (I := fun τ (x : Sys ρ ε ω) => ∀ i, (x.futures i).Ran inner i τ x.queue) ?_ ?_ hr
  · rintro x ⟨-, -, -, hf⟩ i
    rw [hf]
    exact rfl
  · rintro τ x m x' e hrun ih - hs j
    have hlinked := linked_run hrun
    have hq := queue_run hrun
    cases step_steps hs with
    | other hforeign hq' =>
      refine (ih j).keeps (fun _ hn => nomatch hn) (fun t ht => ?_) (Actor.step_gone hq hq')
      have hj : j < x.next := hlinked.index fun hs => by
        rw [hs] at ht
        cases ht
      exact (walks_elsewhere (Actor.step_walks hq') (fun ha => hforeign.1 t ha j hj ht) (hlinked.born j t ht)).2.1
    | lane => exact (ih j).keeps (fun _ hn => nomatch hn) (fun _ _ => rfl) id
    | @born stage hb =>
      by_cases hj : j = x.next
      · subst hj
        rw [set_same]
        have hnone := ih x.next
        rw [hlinked.unborn x.next (Nat.le_refl _)] at hnone
        cases hb <;> exact hnone
      · rw [set_other hj]
        exact (ih j).keeps (fun _ hn => nomatch hn) (fun _ _ => rfl) id
    | @stays i stage note hst _ =>
      by_cases hj : j = i
      · subst hj
        rw [set_same]
        exact (ih j).stays hst rfl (Actor.underway_run hq)
      · rw [set_other hj]
        exact (ih j).keeps (fun n hn => by rw [hst.index n hn]; exact Ne.symm hj) (fun _ _ => rfl) id
    | @goes i stage note action now q e' hg hq' =>
      by_cases hj : j = i
      · subst hj
        rw [set_same]
        exact (ih j).goes hg rfl (Actor.step_walks hq')
      · rw [set_other hj]
        refine (ih j).keeps (fun n hn => by rw [hg.index n hn]; exact Ne.symm hj) (fun t ht => ?_) (Actor.step_gone hq hq')
        exact (walks_elsewhere (Actor.step_walks hq') (fun ha => hj (hlinked.apart j i t ht (hg.token ha)))
          (hlinked.born j t ht)).2.1

/-! ## One request, one permit -/

/-- The calls that were made, by the jobs that were granted for them. -/
structure Served (inner : Inner ρ ε) (τ : List (Event ρ ε ω)) (x : Sys ρ ε ω) : Prop where
  granted : ∀ i plan job, .called i plan job ∈ notes τ → ∃ it t, plan = .of inner it ∧ Actor.Owns (queueEvents τ) job t ∧
    .sent t plan.acquire ∈ queueEvents τ ∧ job ∈ (Actor.admissions (queueEvents τ)).map (·.job)
  spent : ∀ i plan job t, .called i plan job ∈ notes τ → Actor.Owns (queueEvents τ) job t →
    t < x.queue.nextToken ∧ ∀ k, (x.futures k).token = some t → k = i
  single : ∀ i j plan plan' job, .called i plan job ∈ notes τ → .called j plan' job ∈ notes τ → i = j

theorem owns_mono (τ' : List Actor.Event) {τ : List Actor.Event} {job : JobId} {t : Actor.Token} (h : Actor.Owns τ job t) :
    Actor.Owns (τ' ++ τ) job t := by
  obtain ⟨r, hr⟩ := h
  exact ⟨r, List.mem_append.2 (Or.inr hr)⟩

theorem admissions_mono (τ' : List Actor.Event) {τ : List Actor.Event} {job : JobId} (h : job ∈ (Actor.admissions τ).map (·.job)) :
    job ∈ (Actor.admissions (τ' ++ τ)).map (·.job) := by
  induction τ' with
  | nil => exact h
  | cons e τ' ih =>
    rw [List.cons_append, Actor.admissions_cons, List.map_append]
    exact List.mem_append.2 (Or.inr ih)

/-- The request behind a permit, in the hands of a future or not. -/
theorem Linked.granted {τ : List (Event ρ ε ω)} {x : Sys ρ ε ω} (h : Linked inner τ x) (hr : Actor.Run (queueEvents τ) x.queue)
    {i : Nat} {plan : SendRefPlan ρ} {t : Actor.Token} {permit : Actor.OutboundPermit} (ht : (x.futures i).token = some t)
    (hp : (x.futures i).plan = some plan) (hs : x.queue.clients.stages t = .holding permit) :
    Actor.Owns (queueEvents τ) permit.job t ∧ .sent t plan.acquire ∈ queueEvents τ ∧
      permit.job ∈ (Actor.admissions (queueEvents τ)).map (·.job) ∧
      ∀ outcome, (permit.job, outcome) ∉ Actor.outcomes (queueEvents τ) := by
  obtain ⟨hown, hgranted, hopen⟩ := (Actor.outlives_run hr).held t permit (Or.inl hs)
  obtain ⟨token, request, hown', hsent⟩ := Actor.granted_sent hr hgranted
  cases Actor.owner_run hr hown hown'
  cases h.sent i plan t hp ht request hsent
  exact ⟨hown, hsent, hgranted, hopen⟩

theorem Goes.calls {q q' : Actor.Sys} {now i j : Nat} {action : Actor.Action} {s s' : Stage ρ ε ω}
    {plan : SendRefPlan ρ} {job : JobId} (h : Goes inner q q' now i action s s' (some (.called j plan job))) :
    j = i ∧ ∃ t permit, s = .permitted plan t ∧ q.clients.stages t = .holding permit ∧ permit.job = job := by
  cases h with
  | called hp => exact ⟨rfl, _, _, rfl, hp, rfl⟩

/-- A token is that of the request that has minted it. -/
theorem Goes.minted_token {q q' : Actor.Sys} {now i : Nat} {action : Actor.Action} {s s' : Stage ρ ε ω} {note : Option (Note ρ ε ω)}
    (h : Goes inner q q' now i action s s' note) {t : Actor.Token} (ht : s'.token = some t) : s.token = some t ∨ t = q.nextToken := by
  cases h with
  | minted | mintedRef =>
    cases ht
    exact Or.inr rfl
  | refused | abandoned => cases ht
  | entered | accepted | granted | called | answered | leaves | leaving => exact Or.inl ht

theorem Served.keeps {τ : List (Event ρ ε ω)} {x x' : Sys ρ ε ω} {e : Event ρ ε ω} (h : Served inner τ x)
    (hr : Actor.Run (queueEvents (e :: τ)) x'.queue) (hn : ∀ i plan job, e.note ≠ some (.called i plan job))
    (hle : x.queue.nextToken ≤ x'.queue.nextToken)
    (ht : ∀ k t, (x'.futures k).token = some t → (x.futures k).token = some t ∨ x.queue.nextToken ≤ t) :
    Served inner (e :: τ) x' := by
  have hold {i plan job} (hm : .called i plan job ∈ notes (e :: τ)) : .called i plan job ∈ notes τ := by
    rw [notes_cons] at hm
    exact (List.mem_append.1 hm).resolve_left fun he => hn i plan job (Option.mem_toList.1 he)
  rw [queueEvents_cons] at hr
  refine ⟨fun i plan job hm => ?_, fun i plan job t hm ho => ?_, fun i j plan plan' job hm hm' =>
    h.single i j plan plan' job (hold hm) (hold hm')⟩
  · obtain ⟨it, t, hplan, hown, hsent, hgranted⟩ := h.granted i plan job (hold hm)
    rw [queueEvents_cons]
    exact ⟨it, t, hplan, owns_mono _ hown, List.mem_append.2 (Or.inr hsent), admissions_mono _ hgranted⟩
  · obtain ⟨-, u, -, hown, -⟩ := h.granted i plan job (hold hm)
    rw [queueEvents_cons] at ho
    cases Actor.owner_run hr ho (owns_mono _ hown)
    obtain ⟨hlt, hk⟩ := h.spent i plan job t (hold hm) hown
    refine ⟨Nat.lt_of_lt_of_le hlt hle, fun k hkt => ?_⟩
    rcases ht k t hkt with hkt | hkt
    · exact hk k hkt
    · exact absurd hlt (Nat.not_lt.2 hkt)

/-- A request is called: with a token that nobody has used, and a job of its own. -/
theorem Served.calls {τ : List (Event ρ ε ω)} {x : Sys ρ ε ω} {q : Actor.Sys} {i now : Nat} {plan : SendRefPlan ρ} {t : Actor.Token}
    {permit : Actor.OutboundPermit} {e : Actor.Event} (h : Served inner τ x) (hlinked : Linked inner τ x)
    (hr : Actor.Run (queueEvents τ) x.queue) (hr' : Actor.Run (e :: queueEvents τ) q) (hs : x.futures i = .permitted plan t)
    (hp : x.queue.clients.stages t = .holding permit) (hw : Actor.Walks now x.queue q (.start t) e) :
    Served inner (⟨some e, some (.called i plan permit.job)⟩ :: τ) ({ x with queue := q }.set i (.running plan t)) := by
  have htoken : (x.futures i).token = some t := by rw [hs]; rfl
  have hplan : (x.futures i).plan = some plan := by rw [hs]; rfl
  obtain ⟨hown, hsent, hgranted, -⟩ := hlinked.granted hr htoken hplan hp
  obtain ⟨it, hit⟩ := hlinked.classified i plan hplan
  have hnew {j plan' job} (hm : .called j plan' job ∈ Note.called (ε := ε) (ω := ω) i plan permit.job :: notes τ) :
      (j = i ∧ plan' = plan ∧ job = permit.job) ∨ .called j plan' job ∈ notes τ := by
    rcases List.mem_cons.1 hm with heq | hm
    · cases heq
      exact Or.inl ⟨rfl, rfl, rfl⟩
    · exact Or.inr hm
  -- the job has run no other request
  have hfirst {j plan'} (hm : .called j plan' permit.job ∈ notes τ) : j = i :=
    ((h.spent j plan' permit.job t hm hown).2 i htoken).symm
  have htokens (k : Nat) (u : Actor.Token) (hk : (({ x with queue := q }.set i (.running plan t)).futures k).token = some u) :
      (x.futures k).token = some u := by
    by_cases hki : k = i
    · subst hki
      rw [set_same] at hk
      cases hk
      exact htoken
    · rwa [set_other hki] at hk
  refine ⟨fun j plan' job hm => ?_, fun j plan' job u hm ho => ?_, fun j k plan₁ plan₂ job hm hm' => ?_⟩
  · rw [queueEvents_cons]
    rcases hnew hm with ⟨rfl, rfl, rfl⟩ | hm
    · exact ⟨it, t, hit, owns_mono _ hown, List.mem_append.2 (Or.inr hsent), admissions_mono _ hgranted⟩
    · obtain ⟨it, u, hp', ho, hs', hg⟩ := h.granted j plan' job hm
      exact ⟨it, u, hp', owns_mono _ ho, List.mem_append.2 (Or.inr hs'), admissions_mono _ hg⟩
  · rw [queueEvents_cons] at ho
    rcases hnew hm with ⟨rfl, rfl, rfl⟩ | hm
    · cases Actor.owner_run hr' ho (owns_mono [e] hown)
      exact ⟨Nat.lt_of_lt_of_le (hlinked.born j t htoken) (walks_nextToken hw),
        fun k hk => hlinked.apart k j t (htokens k t hk) htoken⟩
    · obtain ⟨-, v, -, ho', -⟩ := h.granted j plan' job hm
      cases Actor.owner_run hr' ho (owns_mono [e] ho')
      obtain ⟨hlt, hk⟩ := h.spent j plan' job u hm ho'
      exact ⟨Nat.lt_of_lt_of_le hlt (walks_nextToken hw), fun k hk' => hk k (htokens k u hk')⟩
  · rcases hnew hm with ⟨rfl, -, rfl⟩ | hearlier
    · rcases hnew hm' with ⟨rfl, -⟩ | hearlier'
      · rfl
      · exact (hfirst hearlier').symm
    · rcases hnew hm' with ⟨rfl, -, rfl⟩ | hearlier'
      · exact hfirst hearlier
      · exact h.single j k plan₁ plan₂ job hearlier hearlier'

theorem served_run {τ : List (Event ρ ε ω)} {x : Sys ρ ε ω} (hr : Run inner τ x) : Served inner τ x := by
  refine Machine.Run.induct (I := Served inner) ?_ ?_ hr
  · exact fun _ _ => ⟨fun _ _ _ hm => (nomatch hm), fun _ _ _ _ hm => (nomatch hm), fun _ _ _ _ _ hm => nomatch hm⟩
  · rintro τ x m x' e hrun ih - hs
    have hq' := queue_run (hrun.step trivial hs)
    have hlinked := linked_run hrun
    cases step_steps hs with
    | other _ hq => exact ih.keeps hq' (fun _ _ _ he => by cases he) (walks_nextToken (Actor.step_walks hq)) fun _ _ ht => Or.inl ht
    | lane => exact ih.keeps hq' (fun _ _ _ he => by cases he) (Nat.le_refl _) fun _ _ ht => Or.inl ht
    | @born stage hb =>
      refine ih.keeps hq' (fun _ _ _ he => by cases he) (Nat.le_refl _) fun k t ht => Or.inl ?_
      by_cases hk : k = x.next
      · subst hk
        rw [set_same] at ht
        cases hb <;> cases ht
      · rwa [set_other hk] at ht
    | @stays i stage note hst _ =>
      refine ih.keeps hq' (fun j plan job hn => ?_) (Nat.le_refl _) fun k t ht => Or.inl ?_
      · subst hn
        generalize x.futures i = s at hst
        cases hst
      · by_cases hk : k = i
        · subst hk
          rw [set_same, hst.after.1] at ht
          cases ht
        · rwa [set_other hk] at ht
    | @goes i stage note action now q e' hg hq =>
      have hw := Actor.step_walks hq
      have hkeeps (hn : ∀ j plan job, note ≠ some (.called j plan job)) :
          Served inner (⟨some e', note⟩ :: τ) ({ x with queue := q }.set i stage) := by
        refine ih.keeps hq' hn (walks_nextToken hw) fun k t ht => ?_
        by_cases hk : k = i
        · subst hk
          rw [set_same] at ht
          exact (hg.minted_token ht).imp_right fun h => Nat.le_of_eq h.symm
        · rw [set_other hk] at ht
          exact Or.inl ht
      generalize hi : x.futures i = s at hg
      cases hg with
      | called hp => exact ih.calls hlinked (queue_run hrun) hq' hi hp hw
      | minted | mintedRef | entered | refused | accepted | granted | answered | leaves | leaving | abandoned =>
        exact hkeeps fun _ _ _ he => by cases he

/-- A request that was resolved stays so. -/
theorem resolved_stays {τ : List (Event ρ ε ω)} {x : Sys ρ ε ω} (hr : Run inner τ x) {i : Nat}
    {result : Except (OutboundRequestError ε) ω} (h : .resolved i result ∈ notes τ) : x.futures i = .resolved result := by
  refine Machine.Run.induct (I := fun τ (x : Sys ρ ε ω) => .resolved i result ∈ notes τ → x.futures i = .resolved result)
    (fun _ _ hm => nomatch hm) ?_ hr h
  rintro τ x m x' e hrun ih - hs hm
  rw [notes_cons] at hm
  cases step_steps hs with
  | other | lane => exact ih hm
  | born =>
    have hi := ih hm
    have hne : i ≠ x.next := fun heq => by
      rw [(linked_run hrun).unborn i (Nat.le_of_eq heq.symm)] at hi
      cases hi
    rwa [set_other hne]
  | @stays j stage note hst _ =>
    rcases List.mem_append.1 hm with hm | hm
    · have hn := Option.mem_toList.1 hm
      have hij : i = j := hst.index _ hn
      subst hij hn
      rw [set_same]
      generalize x.futures i = s at hst
      cases hst
      rfl
    · have hi := ih hm
      have hne : i ≠ j := fun heq => by
        subst heq
        rw [hi] at hst
        cases hst
      rwa [set_other hne]
  | @goes j stage note action now q e' hg _ =>
    rcases List.mem_append.1 hm with hm | hm
    · have hn := Option.mem_toList.1 hm
      have hij : i = j := hg.index _ hn
      subst hij hn
      rw [set_same]
      generalize x.futures i = s at hg
      cases hg
      rfl
    · have hi := ih hm
      have hne : i ≠ j := fun heq => by
        subst heq
        rw [hi] at hg
        cases hg
      rwa [set_other hne]

/-! ## Calls, answers and results -/

theorem called_step {x x' : Sys ρ ε ω} {m : Action ρ ε ω × Nat} {e : Event ρ ε ω} {i : Nat} {plan : SendRefPlan ρ} {job : JobId}
    (hs : (adaptor ω inner).step x m = some (x', e)) (he : e.note = some (.called i plan job)) :
    ∃ t permit, x.futures i = .permitted plan t ∧ x.queue.clients.stages t = .holding permit ∧ permit.job = job := by
  cases step_steps hs with
  | other | lane | born => cases he
  | @stays j stage note hst =>
    have hn : note = some (.called i plan job) := he
    subst hn
    generalize x.futures j = s at hst
    cases hst
  | @goes j stage note action now q u hg =>
    have hn : note = some (.called i plan job) := he
    subst hn
    obtain ⟨rfl, t, permit, hi, hp, hjob⟩ := hg.calls
    exact ⟨t, permit, hi, hp, hjob⟩

/-- The actor is there when it makes a pass. -/
theorem admitted_alive {τ : List (Event ρ ε ω)} {x x' : Sys ρ ε ω} {m : Action ρ ε ω × Nat} {e : Event ρ ε ω} {grants : List Grant}
    {now : Nat} (hr : Run inner τ x) (hs : (adaptor ω inner).step x m = some (x', e))
    (he : e.queue = some (.admitted grants now)) : x.queue.actor ≠ none := by
  have hqueue {q : Actor.Sys} {a : Actor.Action} {now' : Nat}
      (hq : Actor.queue.step x.queue (a, now') = some (q, .admitted grants now)) : x.queue.actor ≠ none := fun hnone => by
    cases (Actor.step_ends (queue_run hr) hq (Actor.step_gone (queue_run hr) hq hnone)).2
  cases step_steps hs with
  | lane | born | stays => cases he
  | other _ hq =>
    cases he
    exact hqueue hq
  | goes _ hq =>
    cases he
    exact hqueue hq

/-- Requests whose errors are the seconds that they are to wait. -/
def floodWaits : Inner OutboundHint UInt32 := ⟨id, fun seconds => some (.retryAfter seconds)⟩

/-- A request to chat 10, on lane 0. -/
def laneRequest : ScheduledRequest OutboundHint := (ScheduledRequest.new ⟨.chat (.id 10), 0, 100, ⟨1, one_nonZero⟩⟩).onLane ⟨0, .serial⟩

/-- Two requests of a lane, of which the first is told to wait for two seconds; and the pass that grants the second. -/
def floodedLane : List (Action OutboundHint UInt32 Unit × Nat) :=
  ([.other .cloneHandle, .other .cloneHandle, .other .cloneHandle, .newLane .serial, .build laneRequest, .sendRef 0, .send 0,
    .acquire 0, .trySend 0, .acquire 1, .trySend 1, .other (.runAdmission [] 9), .other .park, .other .accept, .other .answer,
    .other (.runAdmission [] 9), .other .deliver, .pollEnqueue 0, .pollGrant 0, .call 0, .other .park, .other (.receive []),
    .other (.runAdmission [] 9), .other .park, .other .accept, .other .answer, .answer 0 (.error 2), .other (.receive []),
    .settle 0, .other (.runAdmission [] 9), .other .park].map (·, 0)) ++
  [.other .timer, .other (.runAdmission [] 9)].map (·, 2 * 10 ^ 9)

/-- The adaptor over `openQueue`. -/
def openAdaptor : Sys OutboundHint UInt32 Unit := ⟨Actor.openQueue, [], fun _ => .unborn, 0⟩

theorem floodedLane_run : ∃ e τ x, Run floodWaits (e :: τ) (x : Sys OutboundHint UInt32 Unit) ∧
    e.queue = some (.admitted [⟨1, none⟩] 2000000000) ∧ .resolved 0 (.error (.inner 2)) ∈ notes τ := by
  have h : ((adaptor Unit floodWaits).exec Machine.anything [] openAdaptor floodedLane).map (fun r =>
      decide (r.1.head?.bind (·.queue) = some (.admitted [⟨1, none⟩] 2000000000) ∧
        .resolved 0 (.error (.inner 2)) ∈ notes r.1.tail)) = some true := by decide
  obtain ⟨⟨τ, x⟩, he, hs⟩ := Option.map_eq_some_iff.mp h
  obtain ⟨hqueue, hresolved⟩ := of_decide_eq_true hs
  have hr := Machine.run_of_exec (M := adaptor Unit floodWaits) (.start ⟨Actor.openQueue_init, rfl, rfl, rfl⟩) he
  cases τ with
  | nil => cases hqueue
  | cons e τ => exact ⟨e, τ, x, hr, hqueue, hresolved⟩

/-- The second request gets its permit and is called. -/
def secondTurn : List (Action OutboundHint UInt32 Unit × Nat) :=
  floodedLane ++ [.other .deliver, .pollEnqueue 1, .pollGrant 1, .call 1].map (·, 2 * 10 ^ 9)

theorem secondTurn_run : ∃ e τ x, Run floodWaits (e :: τ) (x : Sys OutboundHint UInt32 Unit) ∧
    e.note = some (.called 1 (.of floodWaits laneRequest) 1) ∧ .called 0 (.of floodWaits laneRequest) 0 ∈ notes τ := by
  have h : ((adaptor Unit floodWaits).exec Machine.anything [] openAdaptor secondTurn).map (fun r =>
      decide (r.1.head?.bind (·.note) = some (.called 1 (.of floodWaits laneRequest) 1) ∧
        .called 0 (.of floodWaits laneRequest) 0 ∈ notes r.1.tail)) = some true := by decide
  obtain ⟨⟨τ, x⟩, he, hs⟩ := Option.map_eq_some_iff.mp h
  obtain ⟨hnote, hcalled⟩ := of_decide_eq_true hs
  have hr := Machine.run_of_exec (M := adaptor Unit floodWaits) (.start ⟨Actor.openQueue_init, rfl, rfl, rfl⟩) he
  cases τ with
  | nil => cases hnote
  | cons e τ => exact ⟨e, τ, x, hr, hnote, hcalled⟩

/-- A request that resolves without an error of the queue was called and has been answered, and what
came of it has been applied, unless the actor is gone; one that the queue has refused was not called. -/
theorem resolved_run {τ : List (Event ρ ε ω)} {x : Sys ρ ε ω} (hr : Run inner τ x) {i : Nat}
    {result : Except (OutboundRequestError ε) ω} (h : .resolved i result ∈ notes τ) :
    (∃ error, result = .error (.acquire error)) ∧ calls i (notes τ) = [] ∨
    ∃ plan job outcome now, result = outcome.mapError .inner ∧ calls i (notes τ) = [(plan, job)] ∧
      .answered i outcome now ∈ notes τ ∧
      Settled (queueEvents τ) x.queue job (inner.completion plan.metadata outcome) now := by
  have hran := ran_run hr i
  rw [resolved_stays hr h] at hran
  exact hran

theorem resolved_run_floodedLane : ∃ e τ x, Run floodWaits (e :: τ) (x : Sys OutboundHint UInt32 Unit) ∧
    ∃ (plan : SendRefPlan OutboundHint) (job : JobId) (outcome : Except UInt32 Unit) (now : Nat),
      .answered 0 outcome now ∈ notes (e :: τ) ∧
      Settled (queueEvents (e :: τ)) x.queue job (floodWaits.completion plan.metadata outcome) now := by
  obtain ⟨e, τ, x, hr, -, hresolved⟩ := floodedLane_run
  have hm : .resolved 0 (.error (.inner 2)) ∈ notes (e :: τ) := by
    rw [notes_cons]
    exact List.mem_append.2 (Or.inr hresolved)
  rcases resolved_run hr hm with ⟨⟨error, heq⟩, -⟩ | ⟨plan, job, outcome, now, -, -, ha, hsettled⟩
  · cases heq
  · exact ⟨e, τ, x, hr, plan, job, outcome, now, ha, hsettled⟩

/-- Of the jobs of two requests of a serial lane, one that is called and one that was called before,
the actor has applied a completion of the other, and had accepted it first. -/
theorem serial_turn {τ : List (Event ρ ε ω)} {y : Sys ρ ε ω} (hr : Run inner τ y) {i j : Nat} {plan plan' : SendRefPlan ρ}
    {job : JobId} {t : Actor.Token} {permit : Actor.OutboundPermit} {lane lane' : ScheduledLane} (hj : y.futures j = .permitted plan' t)
    (hp : y.queue.clients.stages t = .holding permit) (hi : .called i plan job ∈ notes τ) (hl : plan.lane = some lane)
    (hl' : plan'.lane = some lane') (hkey : lane.key = lane'.key) (hserial : lane.mode = .serial) :
    job < permit.job ∧ ∃ outcome, (job, outcome) ∈ Actor.outcomes (queueEvents τ) := by
  have hlinked := linked_run hr
  have hserved := served_run hr
  have hlaned := laned_run hr
  have hq := queue_run hr
  have htoken : (y.futures j).token = some t := by rw [hj]; rfl
  have hplan : (y.futures j).plan = some plan' := by rw [hj]; rfl
  obtain ⟨hown', hsent', hgranted', hopen'⟩ := hlinked.granted hq htoken hplan hp
  obtain ⟨-, u, -, hown, hsent, hgranted⟩ := hserved.granted i plan job hi
  -- the request that is called now was not called before
  have hne : job ≠ permit.job := fun heq => by
    subst heq
    have hji : j = i := (hserved.spent i plan _ t hi hown').2 j htoken
    subst hji
    have hran := ran_run hr j
    rw [hj] at hran
    have hc : calls j (notes τ) = [] := hran
    have hm := mem_calls.2 hi
    rw [hc] at hm
    cases hm
  have hlane {p : SendRefPlan ρ} {l : ScheduledLane} (hpl : p.lane = some l) :
      p.acquire.metadata.lane = some l.key ∧ p.acquire.laneMode = some l.mode ∧ p.acquire.mode = .fifo := by
    unfold SendRefPlan.acquire
    rw [hpl]
    cases l <;> exact ⟨rfl, rfl, rfl⟩
  have hgave : y.lanes[lane.key]? = some .serial := by
    have hknows := hlaned.sent u _ hsent
    unfold Sys.Knows at hknows
    rw [(hlane hl).1, (hlane hl).2.1] at hknows
    rw [← hserial]
    exact hknows
  have hon : Actor.QueuedOn (queueEvents τ) job lane.key := ⟨u, _, hown, hsent, (hlane hl).1, (hlane hl).2.2⟩
  have hon' : Actor.QueuedOn (queueEvents τ) permit.job lane.key := ⟨t, _, hown', hsent', hkey ▸ (hlane hl').1, (hlane hl').2.2⟩
  have hturn {k k' : JobId} (hk : Actor.QueuedOn (queueEvents τ) k lane.key) (hk' : Actor.QueuedOn (queueEvents τ) k' lane.key)
      (hg : k ∈ (Actor.admissions (queueEvents τ)).map (·.job)) (hg' : k' ∈ (Actor.admissions (queueEvents τ)).map (·.job))
      (hlt : k < k') : ∃ outcome, (k, outcome) ∈ Actor.outcomes (queueEvents τ) :=
    @Actor.serial_grants_in_order (fun key => y.lanes[key]?.getD .serial) _ _ hq
      (fun token request hm key hkey => knows_mode (hlaned.sent token request hm) hkey) lane.key (by rw [hgave]; rfl) _ _
      hk hk' hg hg' hlt
  rcases Nat.lt_or_gt_of_ne hne with hlt | hlt
  · exact ⟨hlt, hturn hon hon' hgranted hgranted' hlt⟩
  · obtain ⟨outcome, ho⟩ := hturn hon' hon hgranted' hgranted hlt
    exact absurd ho (hopen' outcome)

/-- The requests of a serial lane run one at a time: before one of them is called, the one called
before has ended, and the actor has applied its completion. -/
theorem serial_in_turn {τ : List (Event ρ ε ω)} {x : Sys ρ ε ω} (hr : Run inner τ x) {later earlier : List (Event ρ ε ω)}
    {e : Event ρ ε ω} {i j : Nat} {plan plan' : SendRefPlan ρ} {job job' : JobId} {lane lane' : ScheduledLane}
    (hτ : τ = later ++ e :: earlier) (he : e.note = some (.called j plan' job')) (hi : .called i plan job ∈ notes earlier)
    (hl : plan.lane = some lane) (hl' : plan'.lane = some lane') (hkey : lane.key = lane'.key) (hserial : lane.mode = .serial) :
    (.abandoned i ∈ notes earlier ∨ ∃ outcome now, .answered i outcome now ∈ notes earlier) ∧
      ∃ outcome now, .applied job outcome now ∈ queueEvents earlier := by
  obtain ⟨y, m, y', hearlier, -, hs⟩ := hr.prior later e earlier hτ
  obtain ⟨t, permit, hj, hp, rfl⟩ := called_step hs he
  obtain ⟨-, outcome, ho⟩ := serial_turn hearlier hj hp hi hl hl' hkey hserial
  obtain ⟨now, hnow⟩ := Actor.mem_outcomes.1 ho
  refine ⟨?_, outcome, now, hnow⟩
  have hran := ran_run hearlier i
  have hcalled := mem_calls.2 hi
  generalize y.futures i = s at hran
  cases s with
  | unborn | scheduled | sending | planned | minted | acquiring | permitted | leaving =>
    rw [show calls i (notes earlier) = [] from hran] at hcalled
    cases hcalled
  | running p v =>
    -- it would hold the permit of a job that is completed
    obtain ⟨permit', hp', hc⟩ := hran
    rw [hc] at hcalled
    cases List.mem_singleton.1 hcalled
    exact absurd ho (((Actor.outlives_run (queue_run hearlier)).held v permit' (Or.inl hp')).2.2 outcome)
  | settling p v k o =>
    obtain ⟨-, at', ha, -⟩ := hran
    exact Or.inr ⟨o, at', ha⟩
  | resolved result =>
    rcases hran with ⟨-, hc⟩ | ⟨p, k, o, at', -, -, ha, -⟩
    · rw [hc] at hcalled
      cases hcalled
    · exact Or.inr ⟨o, at', ha⟩
  | dropped =>
    rcases hran with hc | ⟨-, -, hend⟩
    · rw [hc] at hcalled
      cases hcalled
    · exact hend

theorem serial_in_turn_secondTurn : ∃ e τ x, Run floodWaits (e :: τ) (x : Sys OutboundHint UInt32 Unit) ∧
    e.note = some (.called 1 (.of floodWaits laneRequest) 1) ∧ .called 0 (.of floodWaits laneRequest) 0 ∈ notes τ ∧
      ∃ outcome now, .applied 0 outcome now ∈ queueEvents τ := by
  obtain ⟨e, τ, x, hr, hnote, hcalled⟩ := secondTurn_run
  exact ⟨e, τ, x, hr, hnote, hcalled,
    (serial_in_turn hr (List.nil_append _).symm hnote hcalled rfl rfl rfl rfl).2⟩

/-- The requests of a serial lane are called in the order in which they were sent to the actor. -/
theorem serial_in_order {τ : List (Event ρ ε ω)} {x : Sys ρ ε ω} (hr : Run inner τ x) {later earlier : List (Event ρ ε ω)}
    {e : Event ρ ε ω} {i j : Nat} {plan plan' : SendRefPlan ρ} {job job' : JobId} {lane lane' : ScheduledLane}
    (hτ : τ = later ++ e :: earlier) (he : e.note = some (.called j plan' job')) (hi : .called i plan job ∈ notes earlier)
    (hl : plan.lane = some lane) (hl' : plan'.lane = some lane') (hkey : lane.key = lane'.key) (hserial : lane.mode = .serial) :
    ∃ t t', Actor.Owns (queueEvents earlier) job t ∧ Actor.Owns (queueEvents earlier) job' t' ∧
      Actor.Before (queueEvents earlier) t t' := by
  obtain ⟨y, m, y', hearlier, -, hs⟩ := hr.prior later e earlier hτ
  obtain ⟨t', permit, hj, hp, rfl⟩ := called_step hs he
  obtain ⟨hlt, -⟩ := serial_turn hearlier hj hp hi hl hl' hkey hserial
  have hq := queue_run hearlier
  obtain ⟨-, t, -, hown, -⟩ := (served_run hearlier).granted i plan job hi
  have hown' := ((Actor.outlives_run hq).held t' permit (Or.inl hp)).1
  exact ⟨t, t', hown, hown', Actor.accepted_in_order hq hown hown' hlt⟩

theorem serial_in_order_secondTurn : ∃ e τ x, Run floodWaits (e :: τ) (x : Sys OutboundHint UInt32 Unit) ∧
    e.note = some (.called 1 (.of floodWaits laneRequest) 1) ∧ .called 0 (.of floodWaits laneRequest) 0 ∈ notes τ ∧
      ∃ t t', Actor.Owns (queueEvents τ) 0 t ∧ Actor.Owns (queueEvents τ) 1 t' ∧ Actor.Before (queueEvents τ) t t' := by
  obtain ⟨e, τ, x, hr, hnote, hcalled⟩ := secondTurn_run
  exact ⟨e, τ, x, hr, hnote, hcalled, serial_in_order hr (List.nil_append _).symm hnote hcalled rfl rfl rfl rfl⟩

/-- Once a request has resolved with a `RetryAfter`, the actor grants nothing in its scope before
the time is up: not the requests that wait already, and not those of other callers. -/
theorem retryAfter_holds {τ : List (Event ρ ε ω)} {x : Sys ρ ε ω} (hr : Run inner τ x) {later earlier : List (Event ρ ε ω)}
    {e : Event ρ ε ω} {grants : List Grant} {now i : Nat} {error : ε} {seconds : UInt32} (hτ : τ = later ++ e :: earlier)
    (he : e.queue = some (.admitted grants now)) (hi : .resolved i (.error (.inner error)) ∈ notes earlier)
    (hseconds : inner.retryAfter error = some seconds) (hpositive : seconds ≠ 0) :
    ∃ plan job observedAt, calls i (notes earlier) = [(plan, job)] ∧ .answered i (.error error) observedAt ∈ notes earlier ∧
      ∀ g ∈ grants, ∀ token request, Actor.Owns (queueEvents earlier) g.job token → .sent token request ∈ queueEvents earlier →
        plan.metadata.scope.covers request.metadata.scope = true → observedAt + duration seconds ≤ now := by
  obtain ⟨y, m, y', hearlier, -, hs⟩ := hr.prior later e earlier hτ
  have hran := ran_run hearlier i
  rw [resolved_stays hearlier hi] at hran
  rcases hran with ⟨⟨error', heq⟩, -⟩ | ⟨plan, job, outcome, observedAt, heq, hc, ha, hsettled⟩
  · cases heq
  · cases outcome with
    | ok value => cases heq
    | error error' =>
      cases heq
      refine ⟨plan, job, observedAt, hc, ha, fun g hg token request hown hsent hcovers => ?_⟩
      have happlied := hsettled.resolve_right (admitted_alive hearlier hs he)
      have hcompletion : inner.completion plan.metadata (.error error : Except ε ω) =
          .retryAfter plan.metadata.scope (duration seconds) := by
        simp only [Inner.completion, hseconds, retryAfterScope]
      rw [hcompletion] at happlied
      have hevents : queueEvents τ = queueEvents later ++ .admitted grants now :: queueEvents earlier := by
        rw [hτ, queueEvents, List.filterMap_append, List.filterMap_cons, he]
        rfl
      have hpositive' : duration seconds ≠ 0 := by
        have h0 : seconds.toNat ≠ 0 := fun h => hpositive (UInt32.toNat_inj.1 h)
        exact Nat.mul_ne_zero h0 (by decide)
      exact Actor.applied_binds (queue_run hr) _ grants now _ hevents g hg token request hown hsent
        ⟨job, plan.metadata.scope, duration seconds, observedAt⟩ hpositive' happlied hcovers

theorem retryAfter_holds_floodedLane : ∃ e τ x, Run floodWaits (e :: τ) (x : Sys OutboundHint UInt32 Unit) ∧
    e.queue = some (.admitted [⟨1, none⟩] 2000000000) ∧ .resolved 0 (.error (.inner 2)) ∈ notes τ ∧
      ∃ plan job observedAt, calls 0 (notes τ) = [(plan, job)] ∧ .answered 0 (.error 2) observedAt ∈ notes τ ∧
        ∀ token request, Actor.Owns (queueEvents τ) 1 token → .sent token request ∈ queueEvents τ →
          plan.metadata.scope.covers request.metadata.scope = true → observedAt + 2 * 10 ^ 9 ≤ 2000000000 := by
  obtain ⟨e, τ, x, hr, hqueue, hresolved⟩ := floodedLane_run
  obtain ⟨plan, job, observedAt, hc, ha, hbinds⟩ :=
    @retryAfter_holds _ _ _ _ _ _ hr _ _ _ _ _ _ _ 2 (List.nil_append _).symm hqueue hresolved rfl (by decide)
  exact ⟨e, τ, x, hr, hqueue, hresolved, plan, job, observedAt, hc, ha,
    fun token request => hbinds ⟨1, none⟩ List.mem_cons_self token request⟩

end Teloxide.Outbound.Adaptor
