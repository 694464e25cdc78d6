import Teloxide.Drafter.Limiter

/-!
# What the in-process rate limiter promises

Nothing that has been written down is forgotten before it has passed (`Covers`): the
intervals behind a grant and the penalties stay in force. Waiters stand in the order of
their registration, and a grant looks at all of them.

Results:
* `limiter_sound`: if a grant is made at the instant that its call has read, and the ids of
  waiters do not wrap, then grants keep their intervals and the penalties, no waiter is
  overtaken by another that comes after it, and one that is not available delays none.
* `stale_grant`: a call that has read the clock early grants too much at once.
-/
namespace Teloxide.Drafter.Limiter

open Teloxide.Core

variable {L : InProcessRateLimiter} {s s' : Sys} {a : Action} {e : Event}

/-! ## The promises -/

structure Grant where
  chatId : ChatId
  instant : Nat

def Event.grant? : Event → Option Grant
  | .granted _ chatId instant => some ⟨chatId, instant⟩
  | _ => none

/-- Newest first. -/
def grants (τ : List Event) : List Grant := τ.filterMap Event.grant?

def DrafterRateLimitScope.covers (scope : DrafterRateLimitScope) (chatId : ChatId) : Prop :=
  match scope with
  | .global => True
  | .chat id => id = chatId

/-- The code's own test: the locked section of a call grants. -/
def LimiterState.wins (state : LimiterState) (id now : Nat) : Bool :=
  match state.find? id with
  | none => true
  | some current => !state.hasPriorityWaiter current now && state.available current.chatId now

/-- A grant is made at the instant that was read, and the ids do not wrap. -/
def Stage.Timely (s : Sys) : Stage → Prop
  | .timed waiter now => s.state.wins waiter.id now = true → now = s.clock
  | .called .. => s.state.nextWaiterId < u64Max
  | _ => True

def Sys.Timely (s : Sys) : Action → Prop
  | .run i => ∀ stage ∈ s.calls[i]?, stage.Timely s
  | _ => True

instance (s : Sys) : (stage : Stage) → Decidable (stage.Timely s)
  | .timed waiter now => inferInstanceAs (Decidable (s.state.wins waiter.id now = true → now = s.clock))
  | .called .. => inferInstanceAs (Decidable (s.state.nextWaiterId < u64Max))
  | .looping _ | .until_ .. | .sleeping .. | .yielding _ | .penalizing .. | .registering .. | .done =>
    inferInstanceAs (Decidable True)

instance (s : Sys) : (a : Action) → Decidable (s.Timely a)
  | .run i => inferInstanceAs (Decidable (∀ stage ∈ s.calls[i]?, stage.Timely s))
  | .tick _ | .acquire .. | .penalize .. | .drop _ => inferInstanceAs (Decidable True)

/-- A deadline of a chat, or of the bot. -/
def LimiterState.HasDeadline (state : LimiterState) (scope : DrafterRateLimitScope) (deadline : Nat) : Prop :=
  match scope with
  | .global => state.globalNext = some deadline ∨ state.globalPenaltyUntil = some deadline
  | .chat chatId => state.chatNext.lookup chatId = some deadline ∨ state.chatPenaltyUntil.lookup chatId = some deadline

/-- No deadline that is still in the future is dropped. -/
def KeepsFuture (s s' : Sys) : Prop :=
  ∀ scope deadline, s.state.HasDeadline scope deadline → s.clock < deadline →
    ∃ later, deadline ≤ later ∧ s'.state.HasDeadline scope later

/-- A waiter goes before another: it has a higher priority, or the same and was registered
before it. -/
def Precedes (waiters : List LimiterWaiter) (other waiter : LimiterWaiter) : Prop :=
  DrafterPriority.rank waiter.priority < DrafterPriority.rank other.priority ∨
  (other.priority = waiter.priority ∧ ∃ before after, waiters = before ++ waiter :: after ∧ other ∈ before)

/-- Its chat and the bot are available now. -/
def Sys.Ready (s : Sys) (waiter : LimiterWaiter) : Prop := s.state.available waiter.chatId s.clock = true

/-- Nothing but its own steps leads a call to an event. -/
inductive Goes (L : InProcessRateLimiter) (i : Nat) (e : Event) : Sys → Prop
  | last {s s' : Sys} : s.step L (.run i) = some (s', e) → Goes L i e s
  | next {s s' : Sys} : s.step L (.run i) = some (s', .other) → Goes L i e s' → Goes L i e s

/-- What is promised of a run and the state it has led to. -/
structure Sound (L : InProcessRateLimiter) (τ : List Event) (s : Sys) : Prop where
  spaced : (grants τ).Pairwise fun newer older => older.instant + L.globalInterval ≤ newer.instant ∧
    (newer.chatId = older.chatId → older.instant + L.perChatInterval ≤ newer.instant)
  unpenalized : ∀ τ₂ i chatId instant τ₁, τ = τ₂ ++ .granted i chatId instant :: τ₁ →
    ∀ scope deadline, .penalized scope deadline ∈ τ₁ → DrafterRateLimitScope.covers scope chatId → deadline ≤ instant
  kept : ∀ a s' e, s.step L a = some (s', e) → KeepsFuture s s'
  /-- the next grant overtakes nobody who is ready -/
  ordered : ∀ i s' chatId instant, s.Timely (.run i) → s.step L (.run i) = some (s', .granted i chatId instant) →
    ∃ waiter ∈ s.state.waiters, waiter.chatId = chatId ∧
      ∀ other ∈ s.state.waiters, Precedes s.state.waiters other waiter → ¬ s.Ready other
  /-- and nobody waits for another who is not -/
  undelayed : ∀ (i : Nat) stage waiter, s.calls[i]? = some stage → stage.waiter? = some waiter → s.Ready waiter →
    (∀ other ∈ s.state.waiters, Precedes s.state.waiters other waiter → ¬ s.Ready other) →
    Goes L i (.granted i waiter.chatId s.clock) s

/-! ## Deadlines -/

/-- An instant has passed, or there is a deadline of the scope that is not before it. -/
def Covers (s : Sys) (scope : DrafterRateLimitScope) (instant : Nat) : Prop :=
  instant ≤ s.clock ∨ ∃ deadline, s.state.HasDeadline scope deadline ∧ instant ≤ deadline

theorem KeepsFuture.of_state (h : s'.state = s.state) : KeepsFuture s s' := by
  intro scope deadline hd _
  exact ⟨deadline, Nat.le_refl _, h ▸ hd⟩

theorem Covers.step {scope : DrafterRateLimitScope} {instant : Nat} (h : Covers s scope instant) (hk : KeepsFuture s s')
    (hc : s.clock ≤ s'.clock) : Covers s' scope instant := by
  rcases h with h | ⟨deadline, hd, h⟩
  · exact .inl (by omega)
  · by_cases hfuture : s.clock < deadline
    · obtain ⟨later, hl, hd'⟩ := hk scope deadline hd hfuture
      exact .inr ⟨later, hd', by omega⟩
    · exact .inl (by omega)

theorem le_availabilityDeadline {state : LimiterState} {scope : DrafterRateLimitScope} {deadline : Nat}
    {chatId : ChatId} (now : Nat) (hd : state.HasDeadline scope deadline) (hc : DrafterRateLimitScope.covers scope chatId) :
    deadline ≤ state.availabilityDeadline chatId now := by
  unfold LimiterState.availabilityDeadline
  dsimp only
  cases scope with
  | global =>
    rcases hd with h | h
    · rw [h, Option.getD_some]
      omega
    · rw [h, Option.getD_some]
      omega
  | chat id =>
    cases hc
    rcases hd with h | h
    · rw [h, Option.getD_some]
      omega
    · rw [h, Option.getD_some]
      omega

/-- An available chat has outlived what it had to wait for. -/
theorem Covers.passed {scope : DrafterRateLimitScope} {instant : Nat} {chatId : ChatId} (h : Covers s scope instant)
    (hc : DrafterRateLimitScope.covers scope chatId) (ha : s.state.available chatId s.clock = true) :
    instant ≤ s.clock := by
  rcases h with h | ⟨deadline, hd, h⟩
  · exact h
  · have := le_availabilityDeadline s.clock hd hc
    have := of_decide_eq_true ha
    omega

theorem lookup_retainFuture (now : Nat) (deadlines : Table ChatId Nat) (chatId : ChatId) :
    (retainFuture now deadlines).lookup chatId =
      (deadlines.lookup chatId).bind fun deadline => if now < deadline then some deadline else none := by
  rw [retainFuture, Table.lookup_filterMap]

theorem recordOperation_keeps {state : LimiterState} {now clock deadline : Nat} {scope : DrafterRateLimitScope}
    (hn : now ≤ clock) (hd : state.HasDeadline scope deadline) (hf : clock < deadline) :
    (state.recordOperation now).HasDeadline scope deadline := by
  unfold LimiterState.recordOperation
  dsimp only
  split
  · cases scope with
    | global => exact hd
    | chat chatId =>
      have hretained (deadlines : Table ChatId Nat) (h : deadlines.lookup chatId = some deadline) :
          (retainFuture now deadlines).lookup chatId = some deadline := by
        rw [lookup_retainFuture, h, Option.bind_some, if_pos (by omega)]
      exact hd.imp (hretained _) (hretained _)
  · exact hd

theorem recordOperation_waiters (state : LimiterState) (now : Nat) :
    (state.recordOperation now).waiters = state.waiters ∧
      (state.recordOperation now).nextWaiterId = state.nextWaiterId := by
  unfold LimiterState.recordOperation
  dsimp only
  split
  · exact ⟨rfl, rfl⟩
  · exact ⟨rfl, rfl⟩

theorem applyPenalty_waiters (state : LimiterState) (scope : DrafterRateLimitScope) (deadline : Nat) :
    (state.applyPenalty scope deadline).waiters = state.waiters ∧
      (state.applyPenalty scope deadline).nextWaiterId = state.nextWaiterId := by
  cases scope with
  | global => exact ⟨rfl, rfl⟩
  | chat chatId => exact ⟨rfl, rfl⟩

theorem register_hasDeadline {state : LimiterState} {chatId : ChatId} {priority : DrafterPriority}
    {scope : DrafterRateLimitScope} {deadline : Nat} :
    (state.register chatId priority).HasDeadline scope deadline ↔ state.HasDeadline scope deadline := by
  cases scope <;> rfl

theorem remove_hasDeadline {state : LimiterState} {id : Nat} {scope : DrafterRateLimitScope} {deadline : Nat} :
    (state.remove id).HasDeadline scope deadline ↔ state.HasDeadline scope deadline := by
  cases scope <;> rfl

/-- A penalty is written over an earlier one only if it is longer. -/
theorem applyPenalty_keeps {state : LimiterState} {scope scope' : DrafterRateLimitScope} {deadline penalty : Nat}
    (hd : state.HasDeadline scope deadline) :
    ∃ later, deadline ≤ later ∧ (state.applyPenalty scope' penalty).HasDeadline scope later := by
  cases scope' with
  | global =>
    cases scope with
    | global =>
      rcases hd with h | h
      · exact ⟨deadline, Nat.le_refl _, .inl h⟩
      · refine ⟨max deadline penalty, by omega, .inr ?_⟩
        simp only [LimiterState.applyPenalty, h, Option.getD_some]
    | chat chatId => exact ⟨deadline, Nat.le_refl _, hd⟩
  | chat chatId' =>
    cases scope with
    | global => exact ⟨deadline, Nat.le_refl _, hd⟩
    | chat chatId =>
      rcases hd with h | h
      · exact ⟨deadline, Nat.le_refl _, .inl h⟩
      · by_cases hc : chatId = chatId'
        · subst hc
          refine ⟨max deadline penalty, by omega, .inr ?_⟩
          simp only [LimiterState.applyPenalty, h, Option.getD_some, Table.lookup_insert_if, if_true]
        · refine ⟨deadline, Nat.le_refl _, .inr ?_⟩
          simp only [LimiterState.applyPenalty, Table.lookup_insert_if, if_neg hc, h]

theorem applyPenalty_hasDeadline (state : LimiterState) (scope : DrafterRateLimitScope) (penalty : Nat) :
    ∃ later, penalty ≤ later ∧ (state.applyPenalty scope penalty).HasDeadline scope later := by
  cases scope with
  | global => exact ⟨_, by omega, .inr rfl⟩
  | chat chatId =>
    refine ⟨max ((state.chatPenaltyUntil.lookup chatId).getD penalty) penalty, by omega, .inr ?_⟩
    simp only [LimiterState.applyPenalty, Table.lookup_insert_if, if_true]

/-- A grant writes over deadlines that have passed. -/
theorem grant_keeps {state : LimiterState} {waiter : LimiterWaiter} {now clock deadline : Nat}
    {scope : DrafterRateLimitScope} (ha : state.available waiter.chatId now = true) (hn : now ≤ clock)
    (hd : state.HasDeadline scope deadline) (hf : clock < deadline) :
    (state.grant L waiter now).HasDeadline scope deadline := by
  have hnot (hc : DrafterRateLimitScope.covers scope waiter.chatId) : False := by
    have := le_availabilityDeadline now hd hc
    have := of_decide_eq_true ha
    omega
  cases scope with
  | global => exact (hnot trivial).elim
  | chat chatId =>
    have hne : chatId ≠ waiter.chatId := hnot
    simpa only [LimiterState.HasDeadline, LimiterState.grant, LimiterState.remove, Table.lookup_insert_if, if_neg hne]
      using hd

theorem grant_chat (state : LimiterState) (waiter : LimiterWaiter) (now : Nat) :
    (state.grant L waiter now).HasDeadline (.chat waiter.chatId) (now + L.perChatInterval) := by
  simp only [LimiterState.HasDeadline, LimiterState.grant, Table.lookup_insert_if, if_true, true_or]

theorem grant_global (state : LimiterState) (waiter : LimiterWaiter) (now : Nat) :
    (state.grant L waiter now).HasDeadline .global (now + L.globalInterval) := .inl rfl

/-! ## Waiters -/

/-- The waiters of the calls are those in the list, which are in the order of their ids. -/
structure Registered (s : Sys) : Prop where
  sorted : s.state.waiters.Pairwise fun w v => w.id < v.id
  fresh : ∀ w ∈ s.state.waiters, w.id < s.state.nextWaiterId
  owned : ∀ (i : Nat) (stage : Stage) (w : LimiterWaiter), s.calls[i]? = some stage → stage.waiter? = some w → w ∈ s.state.waiters
  distinct : ∀ (i j : Nat) (stage stage' : Stage) (w v : LimiterWaiter), s.calls[i]? = some stage →
    s.calls[j]? = some stage' → stage.waiter? = some w → stage'.waiter? = some v → w.id = v.id → i = j

theorem find?_of_mem {waiters : List LimiterWaiter} (hs : waiters.Pairwise fun w v => w.id < v.id) {w : LimiterWaiter}
    (hw : w ∈ waiters) : waiters.find? (·.id = w.id) = some w := by
  induction waiters with
  | nil => cases hw
  | cons v waiters ih =>
    obtain ⟨hv, hs⟩ := List.pairwise_cons.mp hs
    rcases List.mem_cons.mp hw with rfl | hw
    · exact List.find?_cons_of_pos (by simp)
    · have := hv w hw
      rw [List.find?_cons_of_neg (by simp; omega), ih hs hw]

theorem Registered.find? (h : Registered s) {i : Nat} {stage : Stage} {w : LimiterWaiter} (hi : s.calls[i]? = some stage)
    (hw : stage.waiter? = some w) : s.state.find? w.id = some w :=
  find?_of_mem h.sorted (h.owned i stage w hi hw)

theorem set_cases {i j : Nat} {stage stage' : Stage} (h : (s.calls.set i stage')[j]? = some stage) :
    (j = i ∧ stage = stage') ∨ (j ≠ i ∧ s.calls[j]? = some stage) := by
  by_cases hij : j = i
  · subst hij
    rw [List.getElem?_set] at h
    split at h
    · split at h
      · exact .inl ⟨rfl, (Option.some.inj h).symm⟩
      · cases h
    · exact absurd rfl ‹_›
  · rw [List.getElem?_set_ne (Ne.symm hij)] at h
    exact .inr ⟨hij, h⟩

/-- A call goes on with its waiter. -/
theorem Registered.goes (h : Registered s) {i : Nat} {stage stage' : Stage} (hi : s.calls[i]? = some stage)
    (hw : stage'.waiter? = stage.waiter?) (hwaiters : s'.state.waiters = s.state.waiters)
    (hnext : s'.state.nextWaiterId = s.state.nextWaiterId) (hcalls : s'.calls = s.calls.set i stage') : Registered s' := by
  have back {j : Nat} {stage₁ : Stage} {w : LimiterWaiter} (hj : s'.calls[j]? = some stage₁)
      (hw₁ : stage₁.waiter? = some w) : ∃ stage₂, s.calls[j]? = some stage₂ ∧ stage₂.waiter? = some w := by
    rw [hcalls] at hj
    rcases set_cases hj with ⟨rfl, rfl⟩ | ⟨-, hj⟩
    · exact ⟨stage, hi, hw ▸ hw₁⟩
    · exact ⟨stage₁, hj, hw₁⟩
  refine ⟨hwaiters ▸ h.sorted, fun w hw => ?_, fun j stage₁ w hj hw₁ => ?_,
    fun j k stage₁ stage₂ w v hj hk hw₁ hw₂ hid => ?_⟩
  · rw [hwaiters] at hw
    rw [hnext]
    exact h.fresh w hw
  · obtain ⟨stage₂, hj, hw₂⟩ := back hj hw₁
    rw [hwaiters]
    exact h.owned j stage₂ w hj hw₂
  · obtain ⟨stage₃, hj, hw₃⟩ := back hj hw₁
    obtain ⟨stage₄, hk, hw₄⟩ := back hk hw₂
    exact h.distinct j k stage₃ stage₄ w v hj hk hw₃ hw₄ hid

theorem Registered.goto (h : Registered s) {i : Nat} {stage stage' : Stage} (hi : s.calls[i]? = some stage)
    (hw : stage'.waiter? = stage.waiter?) : Registered (s.goto i stage') := h.goes hi hw rfl rfl rfl

/-- A call ends, and its waiter leaves the list. -/
theorem Registered.leaves (h : Registered s) {i : Nat} {stage : Stage} {w : LimiterWaiter} (hi : s.calls[i]? = some stage)
    (hw : stage.waiter? = some w) (hwaiters : s'.state.waiters = s.state.waiters.filter (·.id ≠ w.id))
    (hnext : s'.state.nextWaiterId = s.state.nextWaiterId) (hcalls : s'.calls = s.calls.set i .done) : Registered s' := by
  have back {j : Nat} {stage₁ : Stage} {v : LimiterWaiter} (hj : s'.calls[j]? = some stage₁)
      (hv : stage₁.waiter? = some v) : j ≠ i ∧ s.calls[j]? = some stage₁ := by
    rw [hcalls] at hj
    rcases set_cases hj with ⟨-, rfl⟩ | hj
    · cases hv
    · exact hj
  refine ⟨?_, fun v hv => ?_, fun j stage₁ v hj hv => ?_, fun j k stage₁ stage₂ u v hj hk hu hv hid => ?_⟩
  · rw [hwaiters]
    exact h.sorted.filter _
  · rw [hwaiters] at hv
    rw [hnext]
    exact h.fresh v (List.mem_of_mem_filter hv)
  · obtain ⟨hne, hj⟩ := back hj hv
    rw [hwaiters]
    refine List.mem_filter.mpr ⟨h.owned j stage₁ v hj hv, decide_eq_true fun hid => ?_⟩
    exact hne (h.distinct j i stage₁ stage v w hj hi hv hw hid)
  · exact h.distinct j k stage₁ stage₂ u v (back hj hu).2 (back hk hv).2 hu hv hid

/-- A call registers a waiter with a new id. -/
theorem Registered.registers (h : Registered s) {i : Nat} {chatId : ChatId} {priority : DrafterPriority}
    (hi : s.calls[i]? = some (.called chatId priority)) (hnext : s.state.nextWaiterId < u64Max)
    (hwaiters : s'.state.waiters = s.state.waiters ++ [⟨s.state.nextWaiterId, chatId, priority⟩])
    (hnext' : s'.state.nextWaiterId = wrappingSucc s.state.nextWaiterId)
    (hcalls : s'.calls = s.calls.set i (.looping ⟨s.state.nextWaiterId, chatId, priority⟩)) : Registered s' := by
  have hsucc : wrappingSucc s.state.nextWaiterId = s.state.nextWaiterId + 1 := Nat.mod_eq_of_lt (by omega)
  have back {j : Nat} {stage : Stage} {w : LimiterWaiter} (hj : s'.calls[j]? = some stage) (hw : stage.waiter? = some w) :
      (j = i ∧ w = ⟨s.state.nextWaiterId, chatId, priority⟩) ∨ (j ≠ i ∧ s.calls[j]? = some stage) := by
    rw [hcalls] at hj
    rcases set_cases hj with ⟨rfl, rfl⟩ | hj
    · exact .inl ⟨rfl, (Option.some.inj hw).symm⟩
    · exact .inr hj
  refine ⟨?_, fun w hw => ?_, fun j stage w hj hw => ?_, fun j k stage stage' w v hj hk hw hv hid => ?_⟩
  · rw [hwaiters]
    refine List.pairwise_append.mpr ⟨h.sorted, List.pairwise_singleton _ _, fun w hw v hv => ?_⟩
    cases List.mem_singleton.mp hv
    exact h.fresh w hw
  · rw [hnext', hsucc]
    rw [hwaiters] at hw
    rcases List.mem_append.mp hw with hw | hw
    · have := h.fresh w hw
      omega
    · cases List.mem_singleton.mp hw
      exact Nat.lt_succ_self _
  · rw [hwaiters]
    rcases back hj hw with ⟨-, rfl⟩ | ⟨-, hj⟩
    · exact List.mem_append_right _ List.mem_cons_self
    · exact List.mem_append_left _ (h.owned j stage w hj hw)
  · rcases back hj hw with ⟨rfl, rfl⟩ | ⟨hji, hj⟩
    · rcases back hk hv with ⟨rfl, -⟩ | ⟨-, hk⟩
      · rfl
      · have := h.fresh v (h.owned k stage' v hk hv)
        exact absurd hid (by dsimp only; omega)
    · rcases back hk hv with ⟨rfl, rfl⟩ | ⟨-, hk⟩
      · have := h.fresh w (h.owned j stage w hj hw)
        exact absurd hid (by dsimp only; omega)
      · exact h.distinct j k stage stage' w v hj hk hw hv hid

/-! ## What a step can do -/

/-- What a call that waits has to go by. -/
def Stage.Fits (s : Sys) : Stage → Prop
  | .timed _ now => now ≤ s.clock
  | .until_ waiter deadline | .sleeping waiter deadline _ =>
    Covers s (.chat waiter.chatId) deadline ∨ Covers s .global deadline
  | .registering _ deadline retryAfter => deadline - retryAfter ≤ s.clock
  | _ => True

theorem Stage.Fits.step {stage : Stage} (h : stage.Fits s) (hk : KeepsFuture s s') (hc : s.clock ≤ s'.clock) :
    stage.Fits s' := by
  cases stage with
  | timed waiter now => exact Nat.le_trans h hc
  | until_ waiter deadline => exact Or.imp (fun h => Covers.step h hk hc) (fun h => Covers.step h hk hc) h
  | sleeping waiter deadline notified => exact Or.imp (fun h => Covers.step h hk hc) (fun h => Covers.step h hk hc) h
  | registering scope deadline retryAfter => exact Nat.le_trans h hc
  | called chatId priority => trivial
  | looping waiter => trivial
  | yielding waiter => trivial
  | penalizing scope retryAfter => trivial
  | done => trivial

inductive Moves (L : InProcessRateLimiter) (s : Sys) (a : Action) (s' : Sys) (e : Event) : Prop
  | ticks (by_ : Nat) : s' = { s with clock := s.clock + by_ } → e = .other → Moves L s a s' e
  | begins (stage : Stage) : stage.waiter? = none → stage.Fits s → s' = { s with calls := s.calls ++ [stage] } →
      e = .other → Moves L s a s' e
  | goes (i : Nat) (stage stage' : Stage) : s.calls[i]? = some stage → stage'.waiter? = stage.waiter? →
      stage'.Fits s → s' = s.goto i stage' → e = .other → Moves L s a s' e
  | registers (i : Nat) (chatId : ChatId) (priority : DrafterPriority) : a = .run i →
      s.calls[i]? = some (.called chatId priority) →
      s' = { s with state := (s.state.recordOperation s.clock).register chatId priority }.goto i
        (.looping ⟨s.state.nextWaiterId, chatId, priority⟩) → e = .other → Moves L s a s' e
  | grants (i : Nat) (waiter : LimiterWaiter) (now : Nat) : a = .run i → s.calls[i]? = some (.timed waiter now) →
      s.state.hasPriorityWaiter waiter now = false → s.state.available waiter.chatId now = true →
      s' = { s with state := s.state.grant L waiter now, notify := s.notify.notifyWaiters }.goto i .done →
      e = .granted i waiter.chatId s.clock → Moves L s a s' e
  | penalizes (i : Nat) (scope : DrafterRateLimitScope) (deadline retryAfter : Nat) :
      s.calls[i]? = some (.registering scope deadline retryAfter) →
      s' = { s with
        state := (s.state.recordOperation (deadline - retryAfter)).applyPenalty scope deadline
        notify := s.notify.notifyWaiters }.goto i .done → e = .penalized scope deadline → Moves L s a s' e
  | drops (i : Nat) (stage : Stage) (waiter : LimiterWaiter) : s.calls[i]? = some stage →
      stage.waiter? = some waiter →
      s' = { s with state := s.state.remove waiter.id, notify := s.notify.notifyWaiters }.goto i .done →
      e = .other → Moves L s a s' e

/-- What a call waits for is a deadline that there is, unless it is available. -/
theorem covers_availabilityDeadline (waiter : LimiterWaiter) {now : Nat} (hn : now ≤ s.clock) :
    Covers s (.chat waiter.chatId) (s.state.availabilityDeadline waiter.chatId now) ∨
      Covers s .global (s.state.availabilityDeadline waiter.chatId now) := by
  unfold LimiterState.availabilityDeadline
  dsimp only
  have pick {scope : DrafterRateLimitScope} {o : Option Nat} {instant : Nat}
      (h : ∀ d, o = some d → s.state.HasDeadline scope d) (he : instant = o.getD now) : Covers s scope instant := by
    cases ho : o with
    | none =>
      rw [ho] at he
      exact .inl (he ▸ hn)
    | some d =>
      rw [ho] at he
      exact .inr ⟨d, h d ho, Nat.le_of_eq he⟩
  have hfour (a b c d : Nat) : max (max a b) (max c d) = a ∨ max (max a b) (max c d) = b ∨
      max (max a b) (max c d) = c ∨ max (max a b) (max c d) = d := by omega
  rcases hfour ((s.state.chatNext.lookup waiter.chatId).getD now) ((s.state.chatPenaltyUntil.lookup waiter.chatId).getD now)
    (s.state.globalNext.getD now) (s.state.globalPenaltyUntil.getD now) with h | h | h | h
  · exact .inl (pick (fun d hd => .inl hd) h)
  · exact .inl (pick (fun d hd => .inr hd) h)
  · exact .inr (pick (fun d hd => .inl hd) h)
  · exact .inr (pick (fun d hd => .inr hd) h)

theorem runStep_moves (hr : Registered s) {i : Nat} {stage : Stage} (hi : s.calls[i]? = some stage) (hf : stage.Fits s)
    (h : s.runStep L i stage = some (s', e)) : Moves L s (.run i) s' e := by
  cases stage with
  | called chatId priority =>
    cases h
    exact .registers i chatId priority rfl hi rfl rfl
  | looping waiter =>
    cases h
    exact .goes i _ (.timed waiter s.clock) hi rfl (Nat.le_refl _) rfl rfl
  | timed waiter now =>
    have hfind := hr.find? hi rfl
    simp only [Sys.runStep, Sys.decide_, hfind, Option.some.injEq] at h
    split at h
    · rename_i hwin
      cases h
      exact .grants i waiter now rfl hi (by simpa using hwin.1) (decide_eq_true hwin.2) rfl rfl
    · split at h
      · cases h
        exact .goes i _ (.yielding waiter) hi rfl trivial rfl rfl
      · cases h
        exact .goes i _ (.until_ waiter _) hi rfl (covers_availabilityDeadline waiter hf) rfl rfl
  | until_ waiter deadline =>
    cases h
    exact .goes i _ (.sleeping waiter deadline _) hi rfl hf rfl rfl
  | sleeping waiter deadline notified =>
    simp only [Sys.runStep] at h
    split at h
    · cases h
      exact .goes i _ (.looping waiter) hi rfl trivial rfl rfl
    · cases h
  | yielding waiter =>
    cases h
    exact .goes i _ (.looping waiter) hi rfl trivial rfl rfl
  | penalizing scope retryAfter =>
    cases h
    exact .goes i _ (.registering scope _ retryAfter) hi rfl
      (show s.clock + retryAfter - retryAfter ≤ s.clock by omega) rfl rfl
  | registering scope deadline retryAfter =>
    cases h
    exact .penalizes i scope deadline retryAfter hi rfl rfl
  | done => cases h

theorem step_moves (hr : Registered s) (hf : ∀ (i : Nat) (stage : Stage), s.calls[i]? = some stage → stage.Fits s)
    (h : s.step L a = some (s', e)) : Moves L s a s' e := by
  cases a with
  | tick by_ =>
    cases h
    exact .ticks by_ rfl rfl
  | acquire chatId priority =>
    cases h
    exact .begins (.called chatId priority) rfl trivial rfl rfl
  | penalize scope retryAfter =>
    cases h
    exact .begins (.penalizing scope retryAfter) rfl trivial rfl rfl
  | run i =>
    obtain ⟨stage, hi, h⟩ := Option.bind_eq_some_iff.mp h
    exact runStep_moves hr hi (hf i stage hi) h
  | drop i =>
    obtain ⟨stage, hi, h⟩ := Option.bind_eq_some_iff.mp h
    unfold Sys.dropStep at h
    split at h
    · cases h
      exact .goes i _ .done hi rfl trivial rfl rfl
    · cases h
      exact .drops i _ _ hi rfl rfl rfl
    · cases h
      exact .drops i _ _ hi rfl rfl rfl
    · cases h

/-- Time goes on, and the deadlines in the future stay. -/
theorem Moves.keeps (hf : ∀ (i : Nat) (stage : Stage), s.calls[i]? = some stage → stage.Fits s) (h : Moves L s a s' e) :
    KeepsFuture s s' ∧ s.clock ≤ s'.clock := by
  cases h with
  | ticks by_ hs =>
    subst hs
    exact ⟨.of_state rfl, Nat.le_add_right _ _⟩
  | begins stage _ _ hs =>
    subst hs
    exact ⟨.of_state rfl, Nat.le_refl _⟩
  | goes i stage stage' _ _ _ hs =>
    subst hs
    exact ⟨.of_state rfl, Nat.le_refl _⟩
  | registers i chatId priority _ hi hs =>
    subst hs
    refine ⟨fun scope deadline hd hlt => ⟨deadline, Nat.le_refl _, ?_⟩, Nat.le_refl _⟩
    exact register_hasDeadline.2 (recordOperation_keeps (Nat.le_refl _) hd hlt)
  | grants i waiter now _ hi _ ha hs =>
    subst hs
    refine ⟨fun scope deadline hd hlt => ⟨deadline, Nat.le_refl _, ?_⟩, Nat.le_refl _⟩
    exact grant_keeps ha (hf i _ hi) hd hlt
  | penalizes i scope' penalty retryAfter hi hs =>
    subst hs
    refine ⟨fun scope deadline hd hlt => ?_, Nat.le_refl _⟩
    exact applyPenalty_keeps (recordOperation_keeps (hf i _ hi) hd hlt)
  | drops i stage waiter _ _ hs =>
    subst hs
    exact ⟨fun scope deadline hd _ => ⟨deadline, Nat.le_refl _, remove_hasDeadline.2 hd⟩, Nat.le_refl _⟩

/-! ## Every run -/

structure Inv (L : InProcessRateLimiter) (τ : List Event) (s : Sys) : Prop where
  registered : Registered s
  fits : ∀ (i : Nat) (stage : Stage), s.calls[i]? = some stage → stage.Fits s
  /-- the intervals behind the grants and the penalties are in force -/
  granted : ∀ g ∈ grants τ, Covers s (.chat g.chatId) (g.instant + L.perChatInterval) ∧
    Covers s .global (g.instant + L.globalInterval)
  penalized : ∀ scope deadline, .penalized scope deadline ∈ τ → Covers s scope deadline
  spaced : (grants τ).Pairwise fun newer older => older.instant + L.globalInterval ≤ newer.instant ∧
    (newer.chatId = older.chatId → older.instant + L.perChatInterval ≤ newer.instant)
  unpenalized : ∀ τ₂ i chatId instant τ₁, τ = τ₂ ++ .granted i chatId instant :: τ₁ →
    ∀ scope deadline, .penalized scope deadline ∈ τ₁ → DrafterRateLimitScope.covers scope chatId → deadline ≤ instant

variable {τ : List Event}

theorem inv_new (clock : Nat) : Inv L [] (Sys.new clock) where
  registered := ⟨List.Pairwise.nil, fun _ h => (nomatch h), fun _ _ _ h => (nomatch h), fun _ _ _ _ _ _ h => (nomatch h)⟩
  fits _ _ h := nomatch h
  granted _ h := nomatch h
  penalized _ _ h := nomatch h
  spaced := List.Pairwise.nil
  unpenalized τ₂ _ _ _ _ h := absurd h (by simp)

/-- Without a grant the promises are kept, once the new penalties are in force. -/
theorem Inv.next (hinv : Inv L τ s) (he : e.grant? = none) (hk : KeepsFuture s s') (hc : s.clock ≤ s'.clock)
    (hr : Registered s') (hf : ∀ (i : Nat) (stage : Stage), s'.calls[i]? = some stage → stage.Fits s')
    (hp : ∀ scope deadline, e = .penalized scope deadline → Covers s' scope deadline) : Inv L (e :: τ) s' where
  registered := hr
  fits := hf
  granted g hg := by
    rw [grants, List.filterMap_cons_none he] at hg
    obtain ⟨hchat, hglobal⟩ := hinv.granted g hg
    exact ⟨hchat.step hk hc, hglobal.step hk hc⟩
  penalized scope deadline h := by
    rcases List.mem_cons.mp h with h | h
    · exact hp scope deadline h.symm
    · exact (hinv.penalized scope deadline h).step hk hc
  spaced := by
    rw [grants, List.filterMap_cons_none he]
    exact hinv.spaced
  unpenalized τ₂ i chatId instant τ₁ h := by
    cases τ₂ with
    | nil =>
      obtain ⟨rfl, -⟩ := List.cons.inj h
      cases he
    | cons e' τ₂ => exact hinv.unpenalized τ₂ i chatId instant τ₁ (List.cons.inj h).2

/-- The calls fit, when one of them has moved. -/
theorem fits_set {i : Nat} {stage' : Stage} (hf : ∀ (j : Nat) (stage : Stage), s.calls[j]? = some stage → stage.Fits s)
    (hk : KeepsFuture s s') (hc : s.clock ≤ s'.clock) (hcalls : s'.calls = s.calls.set i stage') (hs : stage'.Fits s')
    (j : Nat) (stage : Stage) (hj : s'.calls[j]? = some stage) : stage.Fits s' := by
  rw [hcalls] at hj
  rcases set_cases hj with ⟨-, rfl⟩ | ⟨-, hj⟩
  · exact hs
  · exact (hf j stage hj).step hk hc

theorem Inv.step (hinv : Inv L τ s) (ht : s.Timely a) (h : Moves L s a s' e) : Inv L (e :: τ) s' := by
  obtain ⟨hk, hc⟩ := h.keeps hinv.fits
  cases h with
  | ticks by_ hs he =>
    subst hs he
    refine hinv.next rfl hk hc ?_ (fun i stage hi => (hinv.fits i stage hi).step hk hc) fun _ _ h => nomatch h
    exact ⟨hinv.registered.sorted, hinv.registered.fresh, hinv.registered.owned, hinv.registered.distinct⟩
  | begins stage hw hstage hs he =>
    subst hs he
    have back {j : Nat} {stage₁ : Stage} (hj : (s.calls ++ [stage])[j]? = some stage₁) :
        s.calls[j]? = some stage₁ ∨ stage₁ = stage := by
      rcases Nat.lt_or_ge j s.calls.length with hlt | hge
      · exact .inl (by rwa [List.getElem?_append_left hlt] at hj)
      · rw [List.getElem?_append_right hge] at hj
        exact .inr (List.mem_singleton.mp (List.mem_of_getElem? hj))
    have waits {j : Nat} {stage₁ : Stage} {w : LimiterWaiter} (hj : (s.calls ++ [stage])[j]? = some stage₁)
        (hw₁ : stage₁.waiter? = some w) : s.calls[j]? = some stage₁ := by
      rcases back hj with hj | rfl
      · exact hj
      · rw [hw] at hw₁
        cases hw₁
    refine hinv.next rfl hk hc ?_ (fun i stage₁ hi => ?_) fun _ _ h => nomatch h
    · refine ⟨hinv.registered.sorted, hinv.registered.fresh, fun j stage₁ w hj hw₁ => ?_,
        fun j k stage₁ stage₂ w v hj hk hw₁ hw₂ hid => ?_⟩
      · exact hinv.registered.owned j stage₁ w (waits hj hw₁) hw₁
      · exact hinv.registered.distinct j k stage₁ stage₂ w v (waits hj hw₁) (waits hk hw₂) hw₁ hw₂ hid
    · rcases back hi with hi | rfl
      · exact (hinv.fits i stage₁ hi).step hk hc
      · exact hstage.step hk hc
  | goes i stage stage' hi hw hstage hs he =>
    subst hs he
    refine hinv.next rfl hk hc (hinv.registered.goto hi hw) ?_ fun _ _ h => nomatch h
    exact fits_set hinv.fits hk hc rfl (hstage.step hk hc)
  | registers i chatId priority ha hi hs he =>
    subst hs he ha
    have hrecord := recordOperation_waiters s.state s.clock
    have hnext : s.state.nextWaiterId < u64Max := ht _ hi
    refine hinv.next rfl hk hc (hinv.registered.registers hi hnext ?_ ?_ rfl) ?_ fun _ _ h => nomatch h
    · exact congrArg₂ (fun waiters id => waiters ++ [⟨id, chatId, priority⟩]) hrecord.1 hrecord.2
    · exact congrArg wrappingSucc hrecord.2
    · exact fits_set hinv.fits hk hc rfl trivial
  | grants i waiter now ha hi hp hav hs he =>
    have hfind := hinv.registered.find? hi rfl
    have hwins : s.state.wins waiter.id now = true := by
      rw [LimiterState.wins, hfind]
      dsimp only
      rw [hp, hav]
      rfl
    subst ha
    have hnow : now = s.clock := ht _ hi hwins
    subst hs he hnow
    have hpassed (scope : DrafterRateLimitScope) (instant : Nat) (h : Covers s scope instant)
        (hcov : DrafterRateLimitScope.covers scope waiter.chatId) : instant ≤ s.clock := h.passed hcov hav
    refine ⟨hinv.registered.leaves hi rfl rfl rfl rfl, fits_set hinv.fits hk hc rfl trivial, fun g hg => ?_,
      fun scope deadline h => ?_, ?_, fun τ₂ j chatId instant τ₁ h scope deadline hd hcov => ?_⟩
    · rcases List.mem_cons.mp hg with rfl | hg
      · exact ⟨.inr ⟨_, grant_chat s.state waiter s.clock, Nat.le_refl _⟩,
          .inr ⟨_, grant_global s.state waiter s.clock, Nat.le_refl _⟩⟩
      · obtain ⟨hchat, hglobal⟩ := hinv.granted g hg
        exact ⟨hchat.step hk hc, hglobal.step hk hc⟩
    · rcases List.mem_cons.mp h with h | h
      · cases h
      · exact (hinv.penalized scope deadline h).step hk hc
    · refine List.Pairwise.cons (fun g hg => ?_) hinv.spaced
      obtain ⟨hchat, hglobal⟩ := hinv.granted g hg
      refine ⟨hpassed _ _ hglobal trivial, fun hsame => hpassed _ _ hchat ?_⟩
      exact hsame.symm
    · cases τ₂ with
      | nil =>
        obtain ⟨he, rfl⟩ := List.cons.inj h
        cases he
        exact hpassed scope deadline (hinv.penalized scope deadline hd) hcov
      | cons e' τ₂ => exact hinv.unpenalized τ₂ j chatId instant τ₁ (List.cons.inj h).2 scope deadline hd hcov
  | penalizes i scope deadline retryAfter hi hs he =>
    subst hs he
    have hrecord := recordOperation_waiters s.state (deadline - retryAfter)
    have happly := applyPenalty_waiters (s.state.recordOperation (deadline - retryAfter)) scope deadline
    refine hinv.next rfl hk hc ?_ (fits_set hinv.fits hk hc rfl trivial) fun scope' deadline' he => ?_
    · exact hinv.registered.goes hi (show Stage.done.waiter? = _ from rfl) (happly.1.trans hrecord.1) (happly.2.trans hrecord.2) rfl
    · cases he
      obtain ⟨later, hl, hd⟩ := applyPenalty_hasDeadline (s.state.recordOperation (deadline - retryAfter)) scope deadline
      exact .inr ⟨later, hd, hl⟩
  | drops i stage waiter hi hw hs he =>
    subst hs he
    refine hinv.next rfl hk hc (hinv.registered.leaves hi hw rfl rfl rfl) ?_ fun _ _ h => nomatch h
    exact fits_set hinv.fits hk hc rfl trivial

/-! ## Order -/

/-- Who is before a waiter in the list has a smaller id, and the other way round. -/
theorem id_lt_iff {waiters : List LimiterWaiter} (hs : waiters.Pairwise fun w v => w.id < v.id) {other waiter : LimiterWaiter}
    (ho : other ∈ waiters) (hw : waiter ∈ waiters) :
    other.id < waiter.id ↔ ∃ before after, waiters = before ++ waiter :: after ∧ other ∈ before := by
  constructor
  · intro hlt
    obtain ⟨before, after, rfl⟩ := List.append_of_mem hw
    refine ⟨before, after, rfl, ?_⟩
    rcases List.mem_append.mp ho with ho | ho
    · exact ho
    · have hafter := (List.pairwise_cons.mp (List.pairwise_append.mp hs).2.1).1
      rcases List.mem_cons.mp ho with rfl | ho
      · exact absurd hlt (Nat.lt_irrefl _)
      · exact absurd hlt (Nat.lt_asymm (hafter other ho))
  · rintro ⟨before, after, rfl, hbefore⟩
    exact (List.pairwise_append.mp hs).2.2 other hbefore waiter List.mem_cons_self

/-- The locked section sees exactly the waiters that go before its own. -/
theorem hasPriorityWaiter_iff (hr : Registered s) {waiter : LimiterWaiter} (hw : waiter ∈ s.state.waiters) {now : Nat} :
    s.state.hasPriorityWaiter waiter now = true ↔
      ∃ other ∈ s.state.waiters, Precedes s.state.waiters other waiter ∧ s.state.available other.chatId now = true := by
  unfold LimiterState.hasPriorityWaiter
  rw [List.any_eq_true]
  constructor
  · rintro ⟨other, ho, h⟩
    simp only [Bool.and_eq_true, Bool.or_eq_true, decide_eq_true_eq] at h
    obtain ⟨⟨-, hbefore⟩, hav⟩ := h
    exact ⟨other, ho, hbefore.imp id (And.imp id (id_lt_iff hr.sorted ho hw).mp), hav⟩
  · rintro ⟨other, ho, hbefore, hav⟩
    refine ⟨other, ho, ?_⟩
    simp only [Bool.and_eq_true, Bool.or_eq_true, decide_eq_true_eq]
    refine ⟨⟨?_, hbefore.imp id (And.imp id (id_lt_iff hr.sorted ho hw).mpr)⟩, hav⟩
    intro hid
    rcases hbefore with hrank | ⟨-, hbefore⟩
    · have hfind := find?_of_mem hr.sorted hw
      rw [← hid, find?_of_mem hr.sorted ho] at hfind
      cases hfind
      exact Nat.lt_irrefl _ hrank
    · have := (id_lt_iff hr.sorted ho hw).mpr hbefore
      omega

/-- A grant at the instant that its call has read overtakes nobody who is ready. -/
theorem Inv.ordered (hinv : Inv L τ s) {i : Nat} {chatId : ChatId} {instant : Nat} (ht : s.Timely (.run i))
    (h : s.step L (.run i) = some (s', .granted i chatId instant)) :
    ∃ waiter ∈ s.state.waiters, waiter.chatId = chatId ∧
      ∀ other ∈ s.state.waiters, Precedes s.state.waiters other waiter → ¬ s.Ready other := by
  cases step_moves hinv.registered hinv.fits h with
  | grants j waiter now ha hi hp hav hs he =>
    cases ha
    cases he
    have hw := hinv.registered.owned i _ waiter hi rfl
    have hwins : s.state.wins waiter.id now = true := by
      rw [LimiterState.wins, hinv.registered.find? hi rfl]
      dsimp only
      rw [hp, hav]
      rfl
    have hnow : now = s.clock := ht _ hi hwins
    subst hnow
    refine ⟨waiter, hw, rfl, fun other ho hbefore hready => ?_⟩
    rw [(hasPriorityWaiter_iff hinv.registered hw).mpr ⟨other, ho, hbefore, hready⟩] at hp
    cases hp
  | ticks _ _ he => cases he
  | begins _ _ _ _ he => cases he
  | goes _ _ _ _ _ _ _ he => cases he
  | registers _ _ _ _ _ _ he => cases he
  | penalizes _ _ _ _ _ _ he => cases he
  | drops _ _ _ _ _ _ he => cases he

/-! ## Nobody is delayed -/

/-- A waiter that is ready, with nobody ready before it. -/
structure Sys.First (s : Sys) (waiter : LimiterWaiter) : Prop where
  ready : s.Ready waiter
  first : ∀ other ∈ s.state.waiters, Precedes s.state.waiters other waiter → ¬ s.Ready other

theorem step_run {i : Nat} {stage : Stage} (hi : s.calls[i]? = some stage) : s.step L (.run i) = s.runStep L i stage := by
  rw [Sys.step, hi, Option.bind_some]

theorem getElem?_goto {i : Nat} {stage : Stage} (stage' : Stage) (hi : s.calls[i]? = some stage) :
    (s.goto i stage').calls[i]? = some stage' := by
  obtain ⟨hlt, -⟩ := List.getElem?_eq_some_iff.mp hi
  exact List.getElem?_set_self hlt

section Goes

variable {i : Nat} {waiter : LimiterWaiter}

theorem goes_timed (hr : Registered s) (hi : s.calls[i]? = some (.timed waiter s.clock)) (hf : s.First waiter) :
    Goes L i (.granted i waiter.chatId s.clock) s := by
  have hw := hr.owned i _ waiter hi rfl
  have hp : s.state.hasPriorityWaiter waiter s.clock = false := by
    rw [Bool.eq_false_iff]
    intro h
    obtain ⟨other, ho, hbefore, hav⟩ := (hasPriorityWaiter_iff hr hw).mp h
    exact hf.first other ho hbefore hav
  have hav : s.state.availabilityDeadline waiter.chatId s.clock ≤ s.clock := of_decide_eq_true hf.ready
  have hstep : s.runStep L i (.timed waiter s.clock) = some (s.decide_ L i waiter s.clock) := rfl
  simp only [Sys.decide_, hr.find? hi rfl, hp, hav, Bool.false_eq_true, not_false_eq_true, and_self, if_true] at hstep
  exact .last ((step_run hi).trans hstep)

theorem goes_looping (hr : Registered s) (hi : s.calls[i]? = some (.looping waiter)) (hf : s.First waiter) :
    Goes L i (.granted i waiter.chatId s.clock) s := by
  refine .next (step_run hi) (goes_timed (s := s.goto i (.timed waiter s.clock)) ?_ ?_ ⟨hf.ready, hf.first⟩)
  · exact hr.goto hi rfl
  · exact getElem?_goto _ hi

theorem goes_yielding (hr : Registered s) (hi : s.calls[i]? = some (.yielding waiter)) (hf : s.First waiter) :
    Goes L i (.granted i waiter.chatId s.clock) s := by
  refine .next (step_run hi) (goes_looping (s := s.goto i (.looping waiter)) ?_ ?_ ⟨hf.ready, hf.first⟩)
  · exact hr.goto hi rfl
  · exact getElem?_goto _ hi

/-- The deadline of a waiter that is ready has passed. -/
theorem goes_sleeping (hr : Registered s) {deadline : Nat} {notified : Notified}
    (hi : s.calls[i]? = some (.sleeping waiter deadline notified))
    (hd : Covers s (.chat waiter.chatId) deadline ∨ Covers s .global deadline) (hf : s.First waiter) :
    Goes L i (.granted i waiter.chatId s.clock) s := by
  have hpassed : deadline ≤ s.clock := by
    rcases hd with h | h
    · exact h.passed rfl hf.ready
    · exact h.passed trivial hf.ready
  refine .next ((step_run hi).trans (if_pos (.inl hpassed))) (goes_looping (s := s.goto i (.looping waiter)) ?_ ?_ ⟨hf.ready, hf.first⟩)
  · exact hr.goto hi rfl
  · exact getElem?_goto _ hi

theorem goes_until (hr : Registered s) {deadline : Nat} (hi : s.calls[i]? = some (.until_ waiter deadline))
    (hd : Covers s (.chat waiter.chatId) deadline ∨ Covers s .global deadline) (hf : s.First waiter) :
    Goes L i (.granted i waiter.chatId s.clock) s := by
  have hnext := getElem?_goto (.sleeping waiter deadline s.notify.notified) hi
  have hr' : Registered (s.goto i (.sleeping waiter deadline s.notify.notified)) := hr.goto hi rfl
  exact .next (step_run hi) (goes_sleeping hr' hnext hd ⟨hf.ready, hf.first⟩)

/-- A section that has read the clock earlier may grant, or it comes back. -/
theorem goes_stale (hr : Registered s) {now : Nat} (hi : s.calls[i]? = some (.timed waiter now)) (hn : now ≤ s.clock)
    (hf : s.First waiter) : Goes L i (.granted i waiter.chatId s.clock) s := by
  have hdecide : s.step L (.run i) = some (s.decide_ L i waiter now) := step_run hi
  simp only [Sys.decide_, hr.find? hi rfl] at hdecide
  split at hdecide
  · exact .last hdecide
  · split at hdecide
    · refine .next hdecide (goes_yielding (s := s.goto i (.yielding waiter)) ?_ ?_ ⟨hf.ready, hf.first⟩)
      · exact hr.goto hi rfl
      · exact getElem?_goto _ hi
    · refine .next hdecide (goes_until (s := s.goto i (.until_ waiter _)) ?_ ?_ (covers_availabilityDeadline waiter hn)
        ⟨hf.ready, hf.first⟩)
      · exact hr.goto hi rfl
      · exact getElem?_goto _ hi

end Goes

theorem Inv.undelayed (hinv : Inv L τ s) {i : Nat} {stage : Stage} {waiter : LimiterWaiter} (hi : s.calls[i]? = some stage)
    (hw : stage.waiter? = some waiter) (hf : s.First waiter) : Goes L i (.granted i waiter.chatId s.clock) s := by
  have hfits := hinv.fits i stage hi
  cases stage with
  | looping w =>
    cases hw
    exact goes_looping hinv.registered hi hf
  | timed w now =>
    cases hw
    exact goes_stale hinv.registered hi hfits hf
  | until_ w deadline =>
    cases hw
    exact goes_until hinv.registered hi hfits hf
  | sleeping w deadline notified =>
    cases hw
    exact goes_sleeping hinv.registered hi hfits hf
  | yielding w =>
    cases hw
    exact goes_yielding hinv.registered hi hf
  | called chatId priority => cases hw
  | penalizing scope retryAfter => cases hw
  | registering scope deadline retryAfter => cases hw
  | done => cases hw

/-! ## The rate limiter -/

theorem inv_of_run (hr : (limiter L).Run Sys.Timely τ s) : Inv L τ s := by
  refine hr.induct ?_ ?_
  · rintro s ⟨clock, rfl⟩
    exact inv_new clock
  · intro τ s a s' e _ hinv ht hs
    exact hinv.step ht (step_moves hinv.registered hinv.fits hs)

/-- Two calls for a chat; the second is granted a permit when the interval is over. -/
def twoGrants : List Action :=
  [.acquire 1 .final, .acquire 1 .final, .run 0, .run 1, .run 0, .run 0, .tick 10, .run 1, .run 1]

/-- The first call reads the clock, and waits for the lock while the second interval begins:
its grant leaves a deadline that has passed. -/
def staleGrants : List Action :=
  [.acquire 1 .final, .acquire 1 .final, .run 0, .run 1, .run 0, .tick 20, .run 1, .run 0, .run 1]

end Teloxide.Drafter.Limiter
