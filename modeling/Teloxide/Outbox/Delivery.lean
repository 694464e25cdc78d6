import Teloxide.Outbox.Worker

/-!
# What the workers deliver

However the workers of one store are interleaved, and wherever they crash, the
executor is called at most `max_attempts` times for a record, and an execution
that returns `Ok` has left its record unclaimed.

* `Stages`: what the stage of an execution says about the attempts started and
  the calls made under its token.
* `Counted`: the counter of a record is the number of attempts started.
* `Freed`: no record is claimed under the token of an execution that returned.
* `outbox_delivers`: the guarantees.
-/
namespace Teloxide.Outbox

open Teloxide.Core Teloxide.Outbound

/-! ## What the events tell -/

namespace WorkEvent

def storeEvent : WorkEvent → Option StoreEvent
  | .op _ e => some e
  | _ => none

/-- The token and the record of an attempt that starts. -/
def start : WorkEvent → Option (Nat × OutboxId)
  | .op (some token) (.began id _ (.ok (.started _))) => some (token, id)
  | _ => none

/-- The token and the record of a call of the executor. -/
def call : WorkEvent → Option (Nat × OutboxId)
  | .invoked token request => some (token, request.id)
  | _ => none

/-- The execution that the scheduler turns away: its queue is full or closed, or
another request has taken the place of this one. -/
def refusal : WorkEvent → Option Nat
  | .acquired token _ (.error e) => if e.isTransient then some token else none
  | _ => none

/-- The execution that returns `Ok`. -/
def returned : WorkEvent → Option Nat
  | .op (some token) (.settled _ _ (.ok ())) => some token
  | _ => none

end WorkEvent

def storeEvents (τ : List WorkEvent) : List StoreEvent := τ.filterMap WorkEvent.storeEvent

def starts (τ : List WorkEvent) : List (Nat × OutboxId) := τ.filterMap WorkEvent.start

def calls (τ : List WorkEvent) : List (Nat × OutboxId) := τ.filterMap WorkEvent.call

def refusals (τ : List WorkEvent) : List Nat := τ.filterMap WorkEvent.refusal

def returns (τ : List WorkEvent) : List Nat := τ.filterMap WorkEvent.returned

/-- Those of one record. -/
def ofRecord (id : OutboxId) (l : List (Nat × OutboxId)) : List (Nat × OutboxId) := l.filter (·.2 == id)

/-! ## Steps -/

/-- What a settlement makes of a record. -/
def Settlement.Reached (record : InMemoryRecord) : Settlement → Prop
  | .complete => record.status = .completed
  | .fail kind => record.status = .failed kind
  | .reschedule retry => record.status = .pending ∧ record.request.availableAt = retry.availableAt

theorem Settlement.apply_act (settlement : Settlement) (s : InMemoryState) (id : OutboxId) (lease : OutboxLease)
    (now : Nat) : ∃ b : StoreAction, b.now = now ∧
      s.act b = some ((settlement.apply s id lease now).1, .settled id lease (settlement.apply s id lease now).2) := by
  cases settlement with
  | complete => exact ⟨.complete id lease now, rfl, rfl⟩
  | fail kind => exact ⟨.fail id lease kind now, rfl, rfl⟩
  | reschedule retry => exact ⟨.reschedule id lease retry now, rfl, rfl⟩

theorem mutate_ok {α : Type} {s s' : InMemoryState} {id : OutboxId} {lease : OutboxLease} {now : Nat}
    {f : InMemoryRecord → InMemoryRecord × α} {v : α} (h : s.mutate id lease now f = (s', .ok v)) :
    ∃ record, s.records.lookup id = some record ∧ v = (f record).2 ∧
      s' = { s with records := s.records.insert id (f record).1 } := by
  rcases s.mutate_cases id lease now f with ⟨e, he⟩ | ⟨record, hr, -, he⟩
  · rw [he] at h
    cases h
  · rw [he] at h
    cases h
    exact ⟨record, hr, rfl, rfl⟩

theorem Settlement.apply_ok {settlement : Settlement} {s s' : InMemoryState} {id : OutboxId} {lease : OutboxLease}
    {now : Nat} (h : settlement.apply s id lease now = (s', .ok ())) :
    ∃ record, s'.records.lookup id = some record ∧ settlement.Reached record := by
  cases settlement with
  | complete =>
    simp only [apply, InMemoryState.complete] at h
    split at h
    · cases h
    · obtain ⟨record, -, -, rfl⟩ := mutate_ok h
      refine ⟨_, by rw [Table.lookup_insert_if, if_pos rfl], ?_⟩
      rfl
  | fail kind =>
    obtain ⟨record, -, -, rfl⟩ := mutate_ok h
    refine ⟨_, by rw [Table.lookup_insert_if, if_pos rfl], ?_⟩
    rfl
  | reschedule retry =>
    obtain ⟨record, -, -, rfl⟩ := mutate_ok h
    exact ⟨_, by rw [Table.lookup_insert_if, if_pos rfl], rfl, rfl⟩

/-- What one step of an execution does to the store and to the execution, which
is gone after it when there is none. -/
inductive Advances (s : InMemoryState) (now token : Nat) (run : Execution) :
    InMemoryState → WorkEvent → Option Execution → Prop
  | acquired {outcome} : run.stage = .acquiring →
      Advances s now token run s (.acquired token run.request.id outcome)
        (some { run with stage := run.acquired outcome now })
  | renewed {s' deadline lease} : s.renewLease run.request.id run.lease deadline now = (s', .ok lease) →
      (∀ attempt, run.stage ≠ .invoking attempt) →
      Advances s now token run s' (.op (some token) (.renewed run.request.id run.lease (.ok lease)))
        (some { run with lease := lease })
  | lapsed {s' deadline e} : s.renewLease run.request.id run.lease deadline now = (s', .error e) →
      Advances s now token run s' (.op (some token) (.renewed run.request.id run.lease (.error e))) none
  | started {s' attempt} : run.stage = .starting →
      s.beginAttempt run.request.id run.lease now = (s', .ok (.started attempt)) →
      Advances s now token run s' (.op (some token) (.began run.request.id run.lease (.ok (.started attempt))))
        (some { run with stage := .invoking attempt })
  | usedUp {s'} : s.beginAttempt run.request.id run.lease now = (s', .ok .exhausted) →
      Advances s now token run s' (.op (some token) (.began run.request.id run.lease (.ok .exhausted)))
        (some { run with stage := .exhausted })
  | barred {s' e} : s.beginAttempt run.request.id run.lease now = (s', .error e) →
      Advances s now token run s' (.op (some token) (.began run.request.id run.lease (.error e))) none
  | invoked {attempt} : run.stage = .invoking attempt →
      Advances s now token run s (.invoked token { run.request with attempt := attempt, lease := run.lease })
        (some { run with stage := .executing attempt })
  | executed {attempt result} :
      Advances s now token run s (.executed token result) (some { run with stage := .releasing attempt result })
  | released {settlement} :
      settlement = .fail .exhausted ∨ (∃ attempt result, settlement = run.released attempt result now) →
      Advances s now token run s (.released token) (some { run with stage := .settling settlement })
  | settled {settlement s' r} : run.stage = .settling settlement →
      settlement.apply s run.request.id run.lease now = (s', r) →
      Advances s now token run s' (.op (some token) (.settled run.request.id run.lease r)) none
  | crashed : Advances s now token run s (.crashed token) none

namespace WorkSys

variable {x x' : WorkSys} {e : WorkEvent}

theorem advance_advances {token : Nat} {run : Execution} {a : WorkAction}
    (h : x.advance token run a = some (x', e)) :
    ∃ o, Advances x.store a.now token run x'.store e o ∧
      ∀ t, x'.executions.lookup t = if t = token then o else x.executions.lookup t := by
  have hput : ∀ (y : WorkSys) (r : Execution) (stage : Stage), y.executions = x.executions →
      ∀ t, (y.goto token r stage).executions.lookup t =
        if t = token then some { r with stage := stage } else x.executions.lookup t := by
    intro y r stage hy t
    rw [goto, Table.lookup_insert_if, hy]
  have hdrop : ∀ y : WorkSys, y.executions = x.executions →
      ∀ t, (y.drop token).executions.lookup t = if t = token then none else x.executions.lookup t := by
    intro y hy t
    rw [drop, Table.lookup_erase_if, hy]
  cases a with
  | acquired _ outcome now =>
    simp only [advance] at h
    split at h
    · rename_i hs
      cases h
      exact ⟨_, .acquired hs, hput x run _ rfl⟩
    · cases h
  | heartbeat _ now =>
    have hrenew : (∀ attempt, run.stage ≠ .invoking attempt) → x.renew token run now = (x', e) →
        ∃ o, Advances x.store now token run x'.store e o ∧
          ∀ t, x'.executions.lookup t = if t = token then o else x.executions.lookup t := by
      intro hs h
      unfold renew at h
      generalize hr : x.store.renewLease run.request.id run.lease (addOrStay now run.settings.leaseFor) now = r at h
      obtain ⟨s', lease | e'⟩ := r
      · cases h
        exact ⟨_, .lapsed hr, hdrop _ rfl⟩
      · cases h
        exact ⟨_, .renewed hr hs, fun t => by rw [Table.lookup_insert_if]⟩
    simp only [advance] at h
    split at h
    · cases h
    · rename_i hs
      exact hrenew hs (Option.some.inj h)
  | beginAttempt _ now =>
    simp only [advance] at h
    split at h
    · rename_i hs
      rw [Option.some.injEq] at h
      unfold beginAttempt at h
      generalize hr : x.store.beginAttempt run.request.id run.lease now = r at h
      obtain ⟨s', e' | attempt | _⟩ := r
      · cases h
        exact ⟨_, .barred hr, hdrop _ rfl⟩
      · cases h
        exact ⟨_, .started hs hr, hput _ run _ rfl⟩
      · cases h
        exact ⟨_, .usedUp hr, hput _ run _ rfl⟩
    · cases h
  | invoke _ now =>
    simp only [advance] at h
    split at h
    · rename_i hs
      cases h
      exact ⟨_, .invoked hs, hput x run _ rfl⟩
    · cases h
  | executed _ result now =>
    simp only [advance] at h
    split at h
    · cases h
      exact ⟨_, .executed, hput x run _ rfl⟩
    · cases h
  | released _ now =>
    simp only [advance] at h
    split at h
    · cases h
      exact ⟨_, .released (Or.inl rfl), hput x run _ rfl⟩
    · cases h
      exact ⟨_, .released (Or.inr ⟨_, _, rfl⟩), hput x run _ rfl⟩
    · cases h
  | settle _ now =>
    simp only [advance] at h
    split at h
    · rename_i settlement hs
      rw [Option.some.injEq] at h
      unfold settle at h
      generalize hr : settlement.apply x.store run.request.id run.lease now = r at h
      cases h
      exact ⟨_, .settled hs hr, hdrop _ rfl⟩
    · cases h
  | crash _ now =>
    simp only [advance] at h
    cases h
    exact ⟨_, .crashed, hdrop x rfl⟩
  | enqueue | armFailure | runOnce => cases h

/-- What a step does: an execution advances, a worker claims records, or the
application calls the store. -/
inductive Moves (x : WorkSys) (now : Nat) (x' : WorkSys) : WorkEvent → Prop
  | advanced {token run o e} : x.executions.lookup token = some run → Advances x.store now token run x'.store e o →
      (∀ t, x'.executions.lookup t = if t = token then o else x.executions.lookup t) → Moves x now x' e
  | claimed {settings readAt claims} : readAt ≤ now →
      x.store.claimDue settings.worker readAt settings.leaseFor settings.maxInFlight = some (x'.store, claims) →
      x'.executions = spawn settings claims x.executions → Moves x now x' (.op none (.claimed claims))
  | called {b e} : b.now = now → x.store.act b = some (x'.store, e) →
      ((∃ request r, e = .enqueued request r) ∨ e = .armed) → x'.executions = x.executions →
      Moves x now x' (.op none e)

theorem step_moves {a : WorkAction} (h : x.step a = some (x', e)) :
    x.clock ≤ a.now ∧ x'.clock = a.now ∧ Moves x a.now x' e := by
  unfold step at h
  split at h
  · cases h
  · rename_i hclock
    obtain ⟨⟨y, e'⟩, hy, h⟩ := Option.map_eq_some_iff.1 h
    cases h
    refine ⟨Nat.le_of_not_lt hclock, rfl, ?_⟩
    cases htoken : a.token with
    | some token =>
      rw [htoken] at hy
      obtain ⟨run, hrun, hy⟩ := Option.bind_eq_some_iff.1 hy
      obtain ⟨o, ho, hx⟩ := advance_advances hy
      exact .advanced hrun ho hx
    | none =>
      rw [htoken] at hy
      cases a with
      | enqueue request now =>
        obtain ⟨⟨s', ev⟩, hact, hy⟩ := Option.map_eq_some_iff.1 hy
        have hev := hact
        obtain ⟨⟨_, r⟩, -, hev⟩ := Option.map_eq_some_iff.1 hev
        cases hy
        cases hev
        exact .called rfl hact (Or.inl ⟨request, r, rfl⟩) rfl
      | armFailure now =>
        cases hy
        exact .called (b := .armFailure now) rfl rfl (Or.inr rfl) rfl
      | runOnce settings readAt now =>
        simp only [poll] at hy
        split at hy
        · cases hy
        · rename_i hread
          obtain ⟨⟨s', claims⟩, hdue, hy⟩ := Option.map_eq_some_iff.1 hy
          cases hy
          refine .claimed ?_ hdue rfl
          exact Nat.le_of_not_lt fun hlt => hread (Or.inr hlt)
      | acquired | heartbeat | beginAttempt | invoke | executed | released | settle | crash => cases htoken

theorem step_runOnce {settings : OutboxWorkerSettings} {readAt now : Nat}
    (h : x.step (.runOnce settings readAt now) = some (x', e)) :
    ∃ claims, x.store.claimDue settings.worker readAt settings.leaseFor settings.maxInFlight = some (x'.store, claims) := by
  unfold step at h
  split at h
  · cases h
  · obtain ⟨⟨y, e'⟩, hy, h⟩ := Option.map_eq_some_iff.1 h
    cases h
    simp only [WorkAction.token, poll] at hy
    split at hy
    · cases hy
    · obtain ⟨⟨s', claims⟩, hdue, hy⟩ := Option.map_eq_some_iff.1 hy
      cases hy
      exact ⟨claims, hdue⟩

end WorkSys

/-! ## The store under the workers -/

/-- A step of an execution leaves the store alone, or is one operation of it. -/
theorem Advances.act {s s' : InMemoryState} {now token : Nat} {run : Execution} {e : WorkEvent} {o : Option Execution}
    (h : Advances s now token run s' e o) :
    s' = s ∧ e.storeEvent = none ∨
      ∃ (b : StoreAction) (ev : StoreEvent), b.now = now ∧ s.act b = some (s', ev) ∧ e = .op (some token) ev := by
  cases h with
  | acquired | invoked | executed | released | crashed => exact Or.inl ⟨rfl, rfl⟩
  | @renewed _ deadline _ h | @lapsed _ deadline _ h =>
    refine Or.inr ⟨.renewLease run.request.id run.lease deadline now, _, rfl, ?_, rfl⟩
    simp only [InMemoryState.act]
    rw [h]
  | started _ h | usedUp h | barred h =>
    refine Or.inr ⟨.beginAttempt run.request.id run.lease now, _, rfl, ?_, rfl⟩
    simp only [InMemoryState.act]
    rw [h]
  | @settled settlement _ _ _ h =>
    obtain ⟨b, hb, hact⟩ := settlement.apply_act s run.request.id run.lease now
    rw [h] at hact
    exact Or.inr ⟨b, _, hb, hact, rfl⟩

/-- A step of the workers leaves the store alone, or is one operation of it. -/
theorem WorkSys.Moves.act {x x' : WorkSys} {now : Nat} {e : WorkEvent} (h : x.Moves now x' e) :
    x'.store = x.store ∧ e.storeEvent = none ∨
      ∃ (b : StoreAction) (ev : StoreEvent), b.now = now ∧ x.store.act b = some (x'.store, ev) ∧
        e.storeEvent = some ev := by
  cases h with
  | advanced _ h =>
    rcases h.act with h | ⟨b, ev, hb, hact, rfl⟩
    · exact Or.inl h
    · exact Or.inr ⟨b, ev, hb, hact, rfl⟩
  | @claimed settings readAt claims hread h =>
    refine Or.inr ⟨.claimDue settings.worker readAt settings.leaseFor settings.maxInFlight now, _, rfl, ?_, rfl⟩
    simp only [InMemoryState.act]
    rw [if_pos hread, h, Option.map_some]
  | called hb hact => exact Or.inr ⟨_, _, hb, hact, rfl⟩

/-- The store of a run of the workers is one of its own runs. -/
theorem storeRun_of_workRun {τ : List WorkEvent} {x : WorkSys} (hr : WorkRun τ x) :
    ∃ clock ≤ x.clock, StoreRun (storeEvents τ) ⟨x.store, clock⟩ := by
  induction hr with
  | @start x hi => exact ⟨x.clock, Nat.le_refl _, .start hi.1⟩
  | @step τ x a x' e _ _ hs ih =>
    obtain ⟨clock, hle, ih⟩ := ih
    obtain ⟨hclock, hclock', hm⟩ := WorkSys.step_moves hs
    rcases hm.act with ⟨hsame, he⟩ | ⟨b, ev, hb, hact, he⟩
    · rw [storeEvents, List.filterMap_cons_none he, hsame]
      exact ⟨clock, by omega, ih⟩
    · rw [storeEvents, List.filterMap_cons_some he]
      refine ⟨a.now, by omega, .step ih trivial (a := b) ?_⟩
      simp only [outboxStore]
      rw [if_neg (by omega), hact, Option.map_some, hb]

theorem indexed_of_workRun {τ : List WorkEvent} {x : WorkSys} (hr : WorkRun τ x) : x.store.Indexed := by
  obtain ⟨clock, -, hr⟩ := storeRun_of_workRun hr
  exact (leaseBook_run hr).indexed

/-! ## The stages of an execution -/

/-- The events say so much of an execution at its stage. -/
def Execution.Fits (τ : List WorkEvent) (token : Nat) (run : Execution) : Prop :=
  match run.stage with
  | .acquiring | .starting => token ∉ refusals τ ∧ token ∉ (starts τ).map (·.1)
  | .invoking _ => (token, run.request.id) ∈ starts τ ∧ token ∉ (calls τ).map (·.1)
  | _ => True

/-- The events of a step are those of one execution. -/
structure WorkEvent.Of (token : Nat) (e : WorkEvent) : Prop where
  start : ∀ p, e.start = some p → p.1 = token
  call : ∀ p, e.call = some p → p.1 = token
  refusal : ∀ t, e.refusal = some t → t = token

/-- What an execution has come to, and what was started and called under its token. -/
structure Stages (τ : List WorkEvent) (x : WorkSys) : Prop where
  own : ∀ token run, x.executions.lookup token = some run →
    run.lease.token = token ∧ token ≤ x.store.nextLeaseToken ∧ run.Fits τ token
  started : ∀ p ∈ starts τ, p.1 ≤ x.store.nextLeaseToken ∧ p.1 ∉ refusals τ
  refused : ∀ token ∈ refusals τ, token ≤ x.store.nextLeaseToken
  called : calls τ ⊆ starts τ
  once : (calls τ).Nodup

theorem mem_filterMap_cons {α β : Type} {f : α → Option β} {a : α} {l : List α} {b : β} :
    b ∈ (a :: l).filterMap f ↔ f a = some b ∨ b ∈ l.filterMap f := by
  simp only [List.mem_filterMap, List.mem_cons, or_and_right, exists_or, exists_eq_left]

theorem Execution.Fits.other {τ : List WorkEvent} {token t : Nat} {run : Execution} {e : WorkEvent}
    (h : run.Fits τ t) (he : e.Of token) (ht : t ≠ token) : run.Fits (e :: τ) t := by
  have hrefused : t ∉ refusals τ → t ∉ refusals (e :: τ) := by
    intro hn hm
    rcases mem_filterMap_cons.1 hm with hm | hm
    · exact ht (he.refusal t hm)
    · exact hn hm
  have hstart : t ∉ (starts τ).map (·.1) → t ∉ (starts (e :: τ)).map (·.1) := by
    intro hn hm
    obtain ⟨p, hp, rfl⟩ := List.mem_map.1 hm
    rcases mem_filterMap_cons.1 hp with hp | hp
    · exact ht (he.start p hp)
    · exact hn (List.mem_map_of_mem hp)
  have hcall : t ∉ (calls τ).map (·.1) → t ∉ (calls (e :: τ)).map (·.1) := by
    intro hn hm
    obtain ⟨p, hp, rfl⟩ := List.mem_map.1 hm
    rcases mem_filterMap_cons.1 hp with hp | hp
    · exact ht (he.call p hp)
    · exact hn (List.mem_map_of_mem hp)
  unfold Execution.Fits at h ⊢
  cases hs : run.stage <;> rw [hs] at h
  case acquiring | starting => exact ⟨hrefused h.1, hstart h.2⟩
  case invoking => exact ⟨mem_filterMap_cons.2 (Or.inr h.1), hcall h.2⟩
  all_goals trivial

theorem Execution.Fits.quiet {τ : List WorkEvent} {token : Nat} {run : Execution} {e : WorkEvent}
    (h : run.Fits τ token) (hs : e.start = none) (hc : e.call = none) (hr : e.refusal = none) :
    run.Fits (e :: τ) token := by
  unfold Execution.Fits at h ⊢
  rw [starts, calls, refusals, List.filterMap_cons_none hs, List.filterMap_cons_none hc, List.filterMap_cons_none hr]
  exact h

namespace Stages

variable {τ : List WorkEvent} {x x' : WorkSys} {e : WorkEvent}

/-- A step that starts nothing, calls nothing and is turned away nowhere. -/
theorem quiet (h : Stages τ x) (hf : x.store.nextLeaseToken ≤ x'.store.nextLeaseToken) (hs : e.start = none)
    (hc : e.call = none) (hr : e.refusal = none)
    (hx : ∀ token run, x'.executions.lookup token = some run → x.executions.lookup token = some run ∨
      run.lease.token = token ∧ token ≤ x'.store.nextLeaseToken ∧ run.Fits τ token) : Stages (e :: τ) x' := by
  have hstarts : starts (e :: τ) = starts τ := List.filterMap_cons_none hs
  have hcalls : calls (e :: τ) = calls τ := List.filterMap_cons_none hc
  have hrefusals : refusals (e :: τ) = refusals τ := List.filterMap_cons_none hr
  constructor
  · intro token run hl
    rcases hx token run hl with hl | ⟨htoken, hle, hfits⟩
    · obtain ⟨htoken, hle, hfits⟩ := h.own token run hl
      exact ⟨htoken, Nat.le_trans hle hf, hfits.quiet hs hc hr⟩
    · exact ⟨htoken, hle, hfits.quiet hs hc hr⟩
  · intro p hp
    rw [hstarts] at hp
    rw [hrefusals]
    exact ⟨Nat.le_trans (h.started p hp).1 hf, (h.started p hp).2⟩
  · intro token ht
    rw [hrefusals] at ht
    exact Nat.le_trans (h.refused token ht) hf
  · rw [hstarts, hcalls]
    exact h.called
  · rw [hcalls]
    exact h.once

/-- A step of one execution that goes on. -/
theorem advance (h : Stages τ x) {token : Nat} {run : Execution} (hf : x.store.nextLeaseToken ≤ x'.store.nextLeaseToken)
    (he : e.Of token) (hx : ∀ t, x'.executions.lookup t = if t = token then some run else x.executions.lookup t)
    (hown : run.lease.token = token ∧ token ≤ x'.store.nextLeaseToken ∧ run.Fits (e :: τ) token)
    (hstart : ∀ p, e.start = some p → p.1 ∉ refusals τ ∧ e.refusal = none)
    (hrefusal : ∀ t, e.refusal = some t → t ∉ (starts τ).map (·.1))
    (hcall : ∀ p, e.call = some p → p ∈ starts τ ∧ p ∉ calls τ) : Stages (e :: τ) x' := by
  have htoken := hown.2.1
  constructor
  · intro t r hl
    rw [hx] at hl
    split at hl
    · rename_i ht
      subst ht
      cases hl
      exact hown
    · rename_i ht
      obtain ⟨heq, hle, hfits⟩ := h.own t r hl
      exact ⟨heq, Nat.le_trans hle hf, hfits.other he ht⟩
  · intro p hp
    rcases mem_filterMap_cons.1 hp with hp | hp
    · obtain ⟨hr, hn⟩ := hstart p hp
      rw [refusals, List.filterMap_cons_none hn]
      exact ⟨he.start p hp ▸ htoken, hr⟩
    · refine ⟨Nat.le_trans (h.started p hp).1 hf, fun hm => ?_⟩
      rcases mem_filterMap_cons.1 hm with hm | hm
      · exact hrefusal _ hm (List.mem_map_of_mem hp)
      · exact (h.started p hp).2 hm
  · intro t ht
    rcases mem_filterMap_cons.1 ht with ht | ht
    · exact he.refusal t ht ▸ htoken
    · exact Nat.le_trans (h.refused t ht) hf
  · intro p hp
    refine mem_filterMap_cons.2 (Or.inr ?_)
    rcases mem_filterMap_cons.1 hp with hp | hp
    · exact (hcall p hp).1
    · exact h.called hp
  · cases hc : e.call with
    | none =>
      rw [calls, List.filterMap_cons_none hc]
      exact h.once
    | some p =>
      rw [calls, List.filterMap_cons_some hc, List.nodup_cons]
      exact ⟨(hcall p hc).2, h.once⟩

theorem advanced (h : Stages τ x) {now token : Nat} {run : Execution} {o : Option Execution}
    (hf : x.store.nextLeaseToken ≤ x'.store.nextLeaseToken) (hrun : x.executions.lookup token = some run)
    (ha : Advances x.store now token run x'.store e o)
    (hx : ∀ t, x'.executions.lookup t = if t = token then o else x.executions.lookup t) : Stages (e :: τ) x' := by
  obtain ⟨htoken, hle, hfits⟩ := h.own token run hrun
  have hle' := Nat.le_trans hle hf
  unfold Execution.Fits at hfits
  have hkeep : ∀ r, o = some r → r.lease.token = token ∧ r.Fits τ token → ∀ t r', x'.executions.lookup t = some r' →
      x.executions.lookup t = some r' ∨ r'.lease.token = t ∧ t ≤ x'.store.nextLeaseToken ∧ r'.Fits τ t := by
    intro r ho hr t r' hl
    rw [hx] at hl
    split at hl
    · rename_i ht
      subst ht
      rw [ho] at hl
      cases hl
      exact Or.inr ⟨hr.1, hle', hr.2⟩
    · exact Or.inl hl
  have hgone : o = none → ∀ t r', x'.executions.lookup t = some r' →
      x.executions.lookup t = some r' ∨ r'.lease.token = t ∧ t ≤ x'.store.nextLeaseToken ∧ r'.Fits τ t := by
    intro ho t r' hl
    rw [hx, ho] at hl
    split at hl
    · cases hl
    · exact Or.inl hl
  generalize x'.store = s' at ha
  cases ha with
  | @acquired outcome hs =>
    rw [hs] at hfits
    cases outcome with
    | ok =>
      exact h.quiet hf rfl rfl rfl (hkeep _ rfl ⟨htoken, hfits⟩)
    | error err =>
      by_cases ht : err.isTransient
      · have hstage : ∃ settlement, run.acquired (.error err) now = .settling settlement := by
          simp only [Execution.acquired, ht, if_true]
          exact ⟨_, rfl⟩
        obtain ⟨settlement, hstage⟩ := hstage
        rw [hstage] at hx
        have hrefusal : (WorkEvent.acquired token run.request.id (.error err)).refusal = some token := by
          simp only [WorkEvent.refusal, ht, if_true]
        refine h.advance hf ⟨fun _ he => (by cases he), fun _ he => (by cases he), fun t he => ?_⟩ hx
          ⟨htoken, hle', trivial⟩ (fun _ he => by cases he) (fun t he => ?_) fun _ he => by cases he
        · rw [hrefusal] at he
          exact (Option.some.inj he).symm
        · rw [hrefusal] at he
          cases he
          exact hfits.2
      · have hstage : run.acquired (.error err) now = .settling (.fail .permanent) := by
          simp only [Execution.acquired, ht, Bool.false_eq_true, if_false]
        refine h.quiet hf rfl rfl ?_ (hkeep _ rfl ⟨htoken, ?_⟩)
        · simp only [WorkEvent.refusal, ht, Bool.false_eq_true, if_false]
        · rw [hstage]
          trivial
  | @renewed _ deadline lease hr hs =>
    obtain ⟨record, -, hv, -⟩ := mutate_ok hr
    exact h.quiet hf rfl rfl rfl (hkeep _ rfl ⟨by rw [hv]; exact htoken, hfits⟩)
  | lapsed | barred | crashed => exact h.quiet hf rfl rfl rfl (hgone rfl)
  | @settled settlement _ r hs hr =>
    cases r with
    | ok | error => exact h.quiet hf rfl rfl rfl (hgone rfl)
  | usedUp | executed | released => exact h.quiet hf rfl rfl rfl (hkeep _ rfl ⟨htoken, trivial⟩)
  | started hs hb =>
    rw [hs] at hfits
    refine h.advance hf ⟨fun p he => (by cases he; rfl), fun _ he => (by cases he), fun _ he => (by cases he)⟩ hx
      ⟨htoken, hle', ?_⟩ (fun p he => ?_) (fun _ he => by cases he) fun _ he => by cases he
    · refine ⟨mem_filterMap_cons.2 (Or.inl rfl), fun hm => hfits.2 ?_⟩
      obtain ⟨p, hp, hpt⟩ := List.mem_map.1 hm
      exact List.mem_map.2 ⟨p, h.called hp, hpt⟩
    · cases he
      exact ⟨hfits.1, rfl⟩
  | @invoked attempt hs =>
    rw [hs] at hfits
    refine h.advance hf ⟨fun _ he => (by cases he), fun p he => (by cases he; rfl), fun _ he => (by cases he)⟩ hx
      ⟨htoken, hle', trivial⟩ (fun _ he => by cases he) (fun _ he => by cases he) fun p he => ?_
    cases he
    exact ⟨hfits.1, fun hm => hfits.2 (List.mem_map_of_mem hm)⟩

theorem spawn_lookup {settings : OutboxWorkerSettings} {claims : List ClaimedOutboxRequest} {t : Table Nat Execution}
    {token : Nat} {run : Execution} (h : (WorkSys.spawn settings claims t).lookup token = some run) :
    t.lookup token = some run ∨ ∃ c ∈ claims, c.lease.token = token ∧ run = ⟨c, settings, c.lease, .acquiring⟩ := by
  induction claims generalizing t with
  | nil => exact Or.inl h
  | cons c claims ih =>
    rcases ih h with hl | ⟨d, hd, hl⟩
    · rw [Table.lookup_insert_if] at hl
      split at hl
      · rename_i ht
        cases hl
        exact Or.inr ⟨c, List.mem_cons_self, ht.symm, rfl⟩
      · exact Or.inl hl
    · exact Or.inr ⟨d, List.mem_cons_of_mem _ hd, hl⟩

theorem step (h : Stages τ x) (hi : x.store.Indexed) {now : Nat} (hm : x.Moves now x' e) : Stages (e :: τ) x' := by
  have hfloor : x.store.nextLeaseToken ≤ x'.store.nextLeaseToken := by
    rcases hm.act with ⟨hsame, -⟩ | ⟨b, ev, -, hact, -⟩
    · rw [hsame]
    · exact (InMemoryState.act_acts hi hact).floor
  cases hm with
  | advanced hrun ha hx => exact h.advanced hfloor hrun ha hx
  | @claimed settings readAt claims hread hdue hx =>
    have htokens := (InMemoryState.claimDue_acts hi hread hdue).tokens
    refine h.quiet hfloor rfl rfl rfl fun token run hl => ?_
    rw [hx] at hl
    rcases spawn_lookup hl with hl | ⟨c, hc, rfl, rfl⟩
    · exact Or.inl hl
    · -- a new token, which no event is about yet
      obtain ⟨hlt, hle⟩ := htokens c.lease.token (List.mem_map_of_mem (f := (·.lease.token)) hc)
      refine Or.inr ⟨rfl, hle, fun hr => ?_, fun hs => ?_⟩
      · exact absurd (h.refused _ hr) (Nat.not_le_of_lt hlt)
      · obtain ⟨p, hp, hpt⟩ := List.mem_map.1 hs
        exact absurd (hpt ▸ (h.started p hp).1) (Nat.not_le_of_lt hlt)
  | called _ _ he hx =>
    refine h.quiet hfloor ?_ rfl rfl fun token run hl => Or.inl (hx ▸ hl)
    rcases he with ⟨_, _, rfl⟩ | rfl <;> rfl

end Stages

/-! ## Attempts -/

/-- The attempts counted for a record, none for one that does not exist. -/
def InMemoryState.attempts (s : InMemoryState) (id : OutboxId) : Nat := (s.records.lookup id).elim 0 (·.attempt)

/-- The counter of a record is the number of its attempts that were started. -/
def Counted (τ : List WorkEvent) (s : InMemoryState) : Prop :=
  ∀ id, s.attempts id = (ofRecord id (starts τ)).length

/-- Only the start of an attempt is counted. -/
theorem RecordStep.attempt_eq {floor now : Nat} {id : OutboxId} {e : StoreEvent} {o o' : Option InMemoryRecord}
    (h : RecordStep floor now id e o o') (he : ∀ lease n, e ≠ .began id lease (.ok (.started n))) :
    o'.elim 0 (·.attempt) = o.elim 0 (·.attempt) := by
  cases h with
  | same | inserted | reverted | exhausted | claimed | renewed => rfl
  | begun _ _ _ _ hb => exact absurd hb (he _ _)
  | settled _ _ _ _ _ hatt => exact hatt

theorem attempts_started {s s' : InMemoryState} {id : OutboxId} {lease : OutboxLease} {now n : Nat}
    (h : s.beginAttempt id lease now = (s', .ok (.started n))) (a : OutboxId) :
    s'.attempts a = s.attempts a + if id = a then 1 else 0 := by
  obtain ⟨record, hr, hv, rfl⟩ := mutate_ok h
  split at hv
  · cases hv
  · rename_i hmax
    rw [if_neg hmax, InMemoryState.attempts, InMemoryState.attempts, Table.lookup_insert_if]
    by_cases ha : a = id
    · subst ha
      rw [if_pos rfl, if_pos rfl, hr]
      rfl
    · rw [if_neg ha, if_neg (Ne.symm ha)]
      rfl

/-- Any other operation counts nothing. -/
theorem Counted.keep {τ : List WorkEvent} {s s' : InMemoryState} {e : WorkEvent} (h : Counted τ s)
    (he : e.start = none) (hs : ∀ id, s'.attempts id = s.attempts id) : Counted (e :: τ) s' := by
  intro id
  rw [starts, List.filterMap_cons_none he, hs]
  exact h id

theorem Counted.step {τ : List WorkEvent} {x x' : WorkSys} {e : WorkEvent} (h : Counted τ x.store)
    (hi : x.store.Indexed) {now : Nat} (hm : x.Moves now x' e) : Counted (e :: τ) x'.store := by
  have hact : ∀ {b : StoreAction} {ev : StoreEvent}, x.store.act b = some (x'.store, ev) →
      (∀ id lease n, ev ≠ .began id lease (.ok (.started n))) → ∀ id, x'.store.attempts id = x.store.attempts id :=
    fun hb hne id => ((InMemoryState.act_acts hi hb).records id).attempt_eq (hne id)
  cases hm with
  | claimed hread hdue _ =>
    exact h.keep rfl fun id =>
      ((InMemoryState.claimDue_acts hi hread hdue).records id).attempt_eq fun _ _ he => by cases he
  | called _ hb he _ =>
    refine h.keep ?_ (hact hb fun id lease n hn => ?_)
    · rcases he with ⟨_, _, rfl⟩ | rfl <;> rfl
    · rcases he with ⟨_, _, rfl⟩ | rfl <;> cases hn
  | @advanced token run _ _ _ ha =>
    rcases ha.act with ⟨hsame, he⟩ | ⟨b, ev, -, hb, he⟩
    · rw [hsame]
      refine h.keep ?_ fun _ => rfl
      cases e with
      | op => cases he
      | acquired | invoked | executed | released | crashed => rfl
    · generalize hs' : x'.store = s' at ha hb
      cases ha with
      | acquired | invoked | executed | released | crashed => cases he
      | @started _ attempt _ hbegin =>
        intro id
        have hcons : starts (.op (some token) (.began run.request.id run.lease (.ok (.started attempt))) :: τ) =
            (token, run.request.id) :: starts τ := rfl
        rw [hcons, attempts_started hbegin, h id, ofRecord, ofRecord]
        by_cases hid : run.request.id = id
        · rw [if_pos hid, List.filter_cons_of_pos (by simpa using hid), List.length_cons]
        · rw [if_neg hid, List.filter_cons_of_neg (by simpa using hid), Nat.add_zero]
      | renewed | lapsed | usedUp | barred =>
        subst hs'
        cases he
        exact h.keep rfl (hact hb fun _ _ _ hn => by cases hn)
      | @settled _ _ r =>
        subst hs'
        cases he
        refine h.keep ?_ (hact hb fun _ _ _ hn => by cases hn)
        cases r <;> rfl

/-! ## Executions that have returned -/

/-- A record claimed after a step was claimed before under the same token, unless
the step settled it, or has just been claimed. -/
theorem RecordStep.claimed_from {floor now : Nat} {id : OutboxId} {e : StoreEvent} {o : Option InMemoryRecord}
    {record : InMemoryRecord} {l : OutboxLease} (h : RecordStep floor now id e o (some record))
    (hl : record.status = .claimed l) :
    (∃ r l₀, o = some r ∧ r.status = .claimed l₀ ∧ l₀.token = l.token ∧ ∀ lease, e ≠ .settled id lease (.ok ())) ∨
      ∃ claims, e = .claimed claims ∧ floor < l.token ∧ ∃ c ∈ claims, c.id = id ∧ c.lease = l := by
  cases h with
  | same he =>
    refine Or.inl ⟨record, l, rfl, hl, rfl, ?_⟩
    rintro lease rfl
    simp [StoreEvent.grips] at he
  | inserted | reverted | exhausted => cases hl
  | claimed _ _ hfloor he hone =>
    cases hl
    refine Or.inr ⟨_, he, hfloor, ?_⟩
    have hmem := List.mem_singleton_self l
    rw [← hone] at hmem
    obtain ⟨c, hc, hcl⟩ := List.mem_map.1 hmem
    rw [List.mem_filter] at hc
    exact ⟨c, hc.1, by simpa using hc.2, hcl⟩
  | renewed hs _ hf he =>
    cases hl
    exact Or.inl ⟨_, _, rfl, hs, (OutboxLease.sameFence_iff.1 hf).2, fun _ hne => by rw [he] at hne; cases hne⟩
  | begun hs _ _ _ he =>
    exact Or.inl ⟨_, l, rfl, hl, rfl, fun _ hne => by rw [he] at hne; cases hne⟩
  | settled _ _ _ _ hfree => exact absurd hl (hfree l)

/-- No record is claimed under the token of an execution that has returned, and
no two under one token. -/
structure Freed (τ : List WorkEvent) (s : InMemoryState) : Prop where
  below : ∀ token ∈ returns τ, token ≤ s.nextLeaseToken
  claimed : ∀ id record l, s.records.lookup id = some record → record.status = .claimed l →
    l.token ≤ s.nextLeaseToken ∧ l.token ∉ returns τ
  apart : ∀ id record l id' record' l', s.records.lookup id = some record → record.status = .claimed l →
    s.records.lookup id' = some record' → record'.status = .claimed l' → l.token = l'.token → id = id'

/-- What an operation leaves claimed, apart from the execution that returns by it. -/
theorem Freed.act {τ : List WorkEvent} {s s' : InMemoryState} (h : Freed τ s) {now : Nat} {ev : StoreEvent}
    (ha : s.Acts now ev s') :
    (∀ id record l, s'.records.lookup id = some record → record.status = .claimed l →
      l.token ≤ s'.nextLeaseToken ∧ l.token ∉ returns τ) ∧
    ∀ id record l id' record' l', s'.records.lookup id = some record → record.status = .claimed l →
      s'.records.lookup id' = some record' → record'.status = .claimed l' → l.token = l'.token → id = id' := by
  have hfrom : ∀ {id record l}, s'.records.lookup id = some record → record.status = .claimed l →
      (∃ r l₀, s.records.lookup id = some r ∧ r.status = .claimed l₀ ∧ l₀.token = l.token) ∨
        ∃ claims, ev = .claimed claims ∧ s.nextLeaseToken < l.token ∧ ∃ c ∈ claims, c.id = id ∧ c.lease = l := by
    intro id record l hr hl
    have hstep := ha.records id
    rw [hr] at hstep
    rcases hstep.claimed_from hl with ⟨r, l₀, hr₀, hl₀, ht, -⟩ | hnew
    · exact Or.inl ⟨r, l₀, hr₀, hl₀, ht⟩
    · exact Or.inr hnew
  refine ⟨fun id record l hr hl => ?_, fun id record l id' record' l' hr hl hr' hl' ht => ?_⟩
  · rcases hfrom hr hl with ⟨r, l₀, hr₀, hl₀, ht⟩ | ⟨claims, rfl, hlt, c, hc, -, hcl⟩
    · rw [← ht]
      exact ⟨Nat.le_trans (h.claimed id r l₀ hr₀ hl₀).1 ha.floor, (h.claimed id r l₀ hr₀ hl₀).2⟩
    · refine ⟨hcl ▸ (ha.tokens _ (List.mem_map_of_mem hc)).2, fun hm => ?_⟩
      exact absurd (h.below _ hm) (Nat.not_le_of_lt hlt)
  · rcases hfrom hr hl with ⟨r, l₀, hr₀, hl₀, ht₀⟩ | ⟨claims, rfl, hlt, c, hc, hcid, hcl⟩
    · rcases hfrom hr' hl' with ⟨r', l₀', hr₀', hl₀', ht₀'⟩ | ⟨_, -, hlt', -⟩
      · exact h.apart id r l₀ id' r' l₀' hr₀ hl₀ hr₀' hl₀' (by rw [ht₀, ht₀', ht])
      · have hle := (h.claimed id r l₀ hr₀ hl₀).1
        omega
    · rcases hfrom hr' hl' with ⟨r', l₀', hr₀', hl₀', ht₀'⟩ | ⟨claims', he, -, c', hc', hcid', hcl'⟩
      · have hle := (h.claimed id' r' l₀' hr₀' hl₀').1
        omega
      · cases he
        have heq : c = c' := List.inj_on_of_nodup_map ha.apart hc hc' (by rw [hcl, hcl']; exact ht)
        rw [← hcid, ← hcid', heq]

theorem Freed.step {τ : List WorkEvent} {x x' : WorkSys} {e : WorkEvent} (h : Freed τ x.store) (hst : Stages τ x)
    (hi : x.store.Indexed) {now : Nat} (hm : x.Moves now x' e) : Freed (e :: τ) x'.store := by
  have hquiet : e.returned = none → Freed (e :: τ) x'.store := by
    intro he
    have hreturns : returns (e :: τ) = returns τ := List.filterMap_cons_none he
    rcases hm.act with ⟨hsame, -⟩ | ⟨b, ev, -, hb, -⟩
    · rw [hsame]
      exact ⟨hreturns ▸ h.below, hreturns ▸ h.claimed, h.apart⟩
    · have ha := InMemoryState.act_acts hi hb
      obtain ⟨hclaimed, hapart⟩ := h.act ha
      refine ⟨fun token ht => ?_, hreturns ▸ hclaimed, hapart⟩
      rw [hreturns] at ht
      exact Nat.le_trans (h.below token ht) ha.floor
  cases hm with
  | claimed => exact hquiet rfl
  | called _ _ he =>
    refine hquiet ?_
    rcases he with ⟨_, _, rfl⟩ | rfl <;> rfl
  | @advanced token run _ _ hrun ha _ =>
    obtain ⟨htoken, hle, -⟩ := hst.own token run hrun
    generalize hs' : x'.store = s' at ha
    cases ha with
    | acquired | renewed | lapsed | started | usedUp | barred | invoked | executed | released | crashed =>
      rw [← hs']
      exact hquiet rfl
    | @settled settlement _ r _ hr =>
      subst hs'
      cases r with
      | error => exact hquiet rfl
      | ok v =>
        obtain ⟨b, -, hb⟩ := settlement.apply_act x.store run.request.id run.lease now
        rw [hr] at hb
        have hacts := InMemoryState.act_acts hi hb
        obtain ⟨hclaimed, hapart⟩ := h.act hacts
        have hreturns : returns (.op (some token) (.settled run.request.id run.lease (.ok v)) :: τ) =
            token :: returns τ := rfl
        refine ⟨fun t ht => ?_, fun id record l hl hs => ⟨(hclaimed id record l hl hs).1, fun hm => ?_⟩, hapart⟩
        · rw [hreturns, List.mem_cons] at ht
          rcases ht with rfl | ht
          · exact Nat.le_trans hle hacts.floor
          · exact Nat.le_trans (h.below t ht) hacts.floor
        · rw [hreturns, List.mem_cons] at hm
          rcases hm with hlt | hm
          · -- the one record under this token is the one just settled
            have hstep := hacts.records id
            rw [hl] at hstep
            rcases hstep.claimed_from hs with ⟨r, l₀, hr₀, hl₀, ht, hne⟩ | ⟨_, hc, -⟩
            · obtain ⟨r₁, hr₁, hc₁⟩ := hacts.accepted _ _ rfl
              obtain ⟨current, hcur, hf, -⟩ := leaseIsCurrent_iff.1 hc₁
              have hsame : id = run.request.id := by
                refine h.apart id r l₀ _ r₁ current hr₀ hl₀ hr₁ hcur ?_
                rw [(OutboxLease.sameFence_iff.1 hf).2, htoken, ht, hlt]
              exact hne run.lease (by rw [hsame])
            · cases hc
          · exact (hclaimed id record l hl hs).2 hm

/-- A claim takes back every lease that has run out. -/
theorem claimDue_claimed {s s' : InMemoryState} {worker : OutboxWorkerId} {readAt leaseFor : Nat} {limit : NonZeroUsize}
    {claims : List ClaimedOutboxRequest} (h : s.claimDue worker readAt leaseFor limit = some (s', claims)) {id : OutboxId}
    {record : InMemoryRecord} (hr : s.records.lookup id = some record) :
    ∃ record', s'.records.lookup id = some record' ∧ ∀ l, record'.status = .claimed l →
      record.status = .claimed l ∧ readAt < l.deadline ∨ s.nextLeaseToken < l.token := by
  unfold InMemoryState.claimDue at h
  have hc := (InMemoryState.claimAll_claims (InMemoryState.dueIds_nodup _ _) h).records id
  rw [Table.lookup_mapValues, hr, Option.map_some] at hc
  generalize s'.records.lookup id = o' at hc
  cases hc with
  | kept =>
    refine ⟨_, rfl, fun l hl => ?_⟩
    rcases InMemoryState.expire_cases record readAt with ⟨he, hlt⟩ | ⟨lease, -, -, he⟩
    · rw [he] at hl
      exact Or.inl ⟨hl, hlt l hl⟩
    · rw [he] at hl
      cases hl
  | failed => exact ⟨_, rfl, fun l hl => by cases hl⟩
  | claimed _ _ _ ht =>
    refine ⟨_, rfl, fun l hl => ?_⟩
    cases hl
    exact Or.inr ht

/-! ## How an execution ends -/

/-- What the scheduler or the executor has answered by `clock` leads to the settlement. -/
def Execution.Decides (run : Execution) (clock : Nat) (settlement : Settlement) : Prop :=
  settlement = .fail .exhausted ∨
    ∃ now ≤ clock, (∃ outcome, run.acquired outcome now = .settling settlement) ∨
      ∃ attempt result, settlement = run.released attempt result now

/-- Every settlement is due to an answer. -/
def Decided (x : WorkSys) : Prop :=
  ∀ token run settlement, x.executions.lookup token = some run → run.stage = .settling settlement →
    run.Decides x.clock settlement

theorem Execution.Decides.mono {run : Execution} {clock clock' : Nat} {settlement : Settlement}
    (h : run.Decides clock settlement) (hle : clock ≤ clock') : run.Decides clock' settlement := by
  rcases h with h | ⟨now, hn, h⟩
  · exact Or.inl h
  · exact Or.inr ⟨now, Nat.le_trans hn hle, h⟩

theorem Decided.step {x x' : WorkSys} {e : WorkEvent} (h : Decided x) {now : Nat} (hn : x.clock ≤ now)
    (hn' : x'.clock = now) (hm : x.Moves now x' e) : Decided x' := by
  intro token run settlement hl hs
  rw [hn']
  have hold : x.executions.lookup token = some run → run.Decides now settlement :=
    fun hl => (h token run settlement hl hs).mono hn
  cases hm with
  | claimed _ _ hx =>
    rw [hx] at hl
    rcases Stages.spawn_lookup hl with hl | ⟨c, -, -, rfl⟩
    · exact hold hl
    · cases hs
  | called _ _ _ hx => exact hold (hx ▸ hl)
  | advanced hrun ha hx =>
    rw [hx] at hl
    split at hl
    · subst hl
      generalize x'.store = s' at ha
      cases ha with
      | acquired => exact Or.inr ⟨now, Nat.le_refl _, Or.inl ⟨_, hs⟩⟩
      | renewed => exact (h _ _ settlement hrun hs).mono hn
      | started | usedUp | invoked | executed => cases hs
      | released hset =>
        cases hs
        exact hset.imp_right fun hset => ⟨now, Nat.le_refl _, Or.inr hset⟩
    · exact hold hl

/-- The books of the workers. -/
structure WorkBook (τ : List WorkEvent) (x : WorkSys) : Prop where
  stages : Stages τ x
  counted : Counted τ x.store
  freed : Freed τ x.store
  decided : Decided x

theorem workBook_run {τ : List WorkEvent} {x : WorkSys} (hr : WorkRun τ x) : WorkBook τ x := by
  refine Machine.Run.induct (I := WorkBook) (fun x hi => ?_) (fun τ x a x' e hr h _ hs => ?_) hr
  · obtain ⟨hstore, hexec⟩ := hi
    refine ⟨⟨fun token run hl => ?_, fun _ hp => (by cases hp), fun _ ht => (by cases ht), fun _ hp => (by cases hp),
      List.nodup_nil⟩, fun id => ?_, ⟨fun _ ht => (by cases ht), fun id record l hl => ?_,
      fun id record l _ _ _ hl => ?_⟩, fun token run _ hl => ?_⟩
    · rw [hexec] at hl
      cases hl
    · rw [hstore]
      rfl
    · rw [hstore] at hl
      cases hl
    · rw [hstore] at hl
      cases hl
    · rw [hexec] at hl
      cases hl
  · obtain ⟨hclock, hclock', hm⟩ := WorkSys.step_moves hs
    have hi := indexed_of_workRun hr
    exact ⟨h.stages.step hi hm, h.counted.step hi hm, h.freed.step h.stages hi hm, h.decided.step hclock hclock' hm⟩

/-! ## The guarantees -/

/-- What holds of the calls and the records after a run. -/
structure Delivered (τ : List WorkEvent) (x : WorkSys) : Prop where
  /-- The executor is called `max_attempts` times at most for a record, and not at
  all for one that does not exist. -/
  bounded : ∀ id, (ofRecord id (calls τ)).length ≤ (x.store.records.lookup id).elim 0 (·.request.maxAttempts.val)
  /-- The attempts of a record are those that executions have started. -/
  counted : ∀ id, x.store.attempts id = (ofRecord id (starts τ)).length
  /-- None of these was turned away by the scheduler. -/
  unspent : ∀ token ∈ refusals τ, token ∉ (starts τ).map (·.1)
  /-- A claimed record is not that of an execution that has returned `Ok`. -/
  freed : ∀ id record l, x.store.records.lookup id = some record → record.status = .claimed l → l.token ∉ returns τ

/-- What holds of the next step. -/
structure StepDelivered (x : WorkSys) (a : WorkAction) (x' : WorkSys) (e : WorkEvent) : Prop where
  /-- An answer of the scheduler changes no record. -/
  untouched : ∀ token id outcome, e = .acquired token id outcome → x'.store = x.store
  /-- An execution that returns `Ok` has completed its record, failed it, or put it
  off to the instant that an answer before has led to. -/
  returned : ∀ token, e.returned = some token → ∃ run settlement record,
    x.executions.lookup token = some run ∧ run.lease.token = token ∧ run.Decides x.clock settlement ∧
      x'.store.records.lookup run.request.id = some record ∧ settlement.Reached record
  /-- A worker that polls takes back the leases that have run out. -/
  reclaimed : ∀ settings readAt now, a = .runOnce settings readAt now → ∀ id record l,
    x.store.records.lookup id = some record → record.status = .claimed l → l.deadline ≤ readAt →
      ∃ record', x'.store.records.lookup id = some record' ∧ ∀ l', record'.status = .claimed l' → l.token < l'.token

theorem WorkBook.delivered {τ : List WorkEvent} {x : WorkSys} (hr : WorkRun τ x) (h : WorkBook τ x) : Delivered τ x where
  bounded id := by
    have hle : (ofRecord id (calls τ)).length ≤ (ofRecord id (starts τ)).length := by
      refine (List.subperm_of_subset (h.stages.once.filter _) fun p hp => ?_).length_le
      rw [List.mem_filter] at hp
      exact List.mem_filter.2 ⟨h.stages.called hp.1, hp.2⟩
    obtain ⟨clock, -, hstore⟩ := storeRun_of_workRun hr
    have hmax := (leaseBook_run hstore).attempts id
    have hcount := h.counted id
    unfold InMemoryState.attempts at hcount
    cases hl : x.store.records.lookup id with
    | none =>
      rw [hl] at hcount
      exact Nat.le_trans hle (Nat.le_of_eq hcount.symm)
    | some record =>
      rw [hl] at hcount
      exact Nat.le_trans hle (hcount ▸ hmax record hl)
  counted := h.counted
  unspent token ht hm := by
    obtain ⟨p, hp, rfl⟩ := List.mem_map.1 hm
    exact (h.stages.started p hp).2 ht
  freed id record l hl hs := (h.freed.claimed id record l hl hs).2

theorem WorkBook.stepDelivered {τ : List WorkEvent} {x x' : WorkSys} {a : WorkAction} {e : WorkEvent}
    (h : WorkBook τ x) (hs : x.step a = some (x', e)) : StepDelivered x a x' e := by
  obtain ⟨-, -, hm⟩ := WorkSys.step_moves hs
  refine ⟨?_, fun token he => ?_, ?_⟩
  · rintro token id outcome rfl
    rcases hm.act with ⟨hsame, -⟩ | ⟨_, _, -, -, he⟩
    · exact hsame
    · cases he
  · cases hm with
    | claimed => cases he
    | called _ _ hev =>
      rcases hev with ⟨_, _, rfl⟩ | rfl <;> cases he
    | @advanced token' run _ _ hrun ha _ =>
      generalize x'.store = s' at ha ⊢
      cases ha with
      | acquired | renewed | lapsed | started | usedUp | barred | invoked | executed | released | crashed => cases he
      | @settled settlement _ r hstage hr =>
        cases r with
        | error => cases he
        | ok =>
          cases he
          obtain ⟨record, hl, hreached⟩ := Settlement.apply_ok hr
          exact ⟨run, settlement, record, hrun, (h.stages.own token run hrun).1, h.decided token run settlement hrun hstage,
            hl, hreached⟩
  · rintro settings readAt now rfl id record l hl hc hle
    obtain ⟨claims, hdue⟩ := WorkSys.step_runOnce hs
    obtain ⟨record', hl', hfrom⟩ := claimDue_claimed hdue hl
    refine ⟨record', hl', fun l' hc' => ?_⟩
    rcases hfrom l' hc' with ⟨hsame, hlt⟩ | hnew
    · rw [hc] at hsame
      cases hsame
      omega
    · exact Nat.lt_of_le_of_lt (h.freed.claimed id record l hl hc).1 hnew

/-- Whatever the workers do and wherever they crash, the executor is called for a
record at most as often as the record allows, what the scheduler answers costs no
attempt, and no execution that returned leaves its record claimed. -/
theorem outbox_delivers {τ : List WorkEvent} {x : WorkSys} (hr : WorkRun τ x) :
    Delivered τ x ∧ ∀ a x' e, x.step a = some (x', e) → StepDelivered x a x' e :=
  ⟨(workBook_run hr).delivered hr, fun _ _ _ hs => (workBook_run hr).stepDelivered hs⟩

theorem four_nonZero : 0 < 4 := by decide

def workerSettings (worker : OutboxWorkerId) : OutboxWorkerSettings := ⟨worker, ⟨4, four_nonZero⟩, 10, 5, 1, 8⟩

/-- A worker crashes after it has called the executor; the next one is turned away
by the scheduler, tries again and completes the record. -/
def crashRun : List WorkAction :=
  [.enqueue { oneAttempt "a" with maxAttempts := ⟨2, by decide⟩ } 0, .runOnce (workerSettings 1) 0 0, .acquired 1 (.ok ()) 1,
    .beginAttempt 1 2, .invoke 1 2, .crash 1 3, .runOnce (workerSettings 2) 10 10, .acquired 2 (.error .queueFull) 11,
    .settle 2 12, .runOnce (workerSettings 2) 16 16, .acquired 3 (.ok ()) 17, .beginAttempt 3 17, .invoke 3 17,
    .executed 3 (.ok ()) 18, .released 3 18, .settle 3 19]

theorem outbox_delivers_crashRun : ∃ τ x, WorkRun τ x ∧ calls τ = [(3, 0), (1, 0)] ∧ refusals τ = [2] ∧
    returns τ = [3, 2] ∧ (x.store.records.lookup 0).map (·.status) = some .completed ∧ Delivered τ x := by
  have hg : (outboxWorkers.exec Machine.anything [] ⟨.empty, ∅, 0⟩ crashRun).map
      (fun r => (calls r.1, refusals r.1, returns r.1, (r.2.store.records.lookup 0).map (·.status))) =
        some ([(3, 0), (1, 0)], [2], [3, 2], some .completed) := by decide
  rw [Option.map_eq_some_iff] at hg
  obtain ⟨⟨τ, x⟩, he, hg⟩ := hg
  simp only [Prod.mk.injEq] at hg
  have hr : WorkRun τ x := Machine.run_of_exec (.start (by exact ⟨rfl, rfl⟩)) he
  exact ⟨τ, x, hr, hg.1, hg.2.1, hg.2.2.1, hg.2.2.2, (outbox_delivers hr).1⟩

end Teloxide.Outbox
