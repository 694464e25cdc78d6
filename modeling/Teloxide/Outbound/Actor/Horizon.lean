import Teloxide.Outbound.Actor.Penalties
import Teloxide.Outbound.Scheduler.Horizon

/-!
# The end of the clock, in the actor

The actor adds durations to instants as well: to ask what time it is, to turn an
instant of one of its two clocks into one of the other, for a penalty and for its
timer. All of it happens inside the loop, where a sum past the last instant ends the
queue.

* `Sys.additions`: what a step adds up, on either clock.
* `additions_before_end`: every sum is an instant, in the runs in which every duration
  in force, counted from the step, ends in time.
* `window_past_end`: a window that the configuration accepts and that does not.
-/
namespace Teloxide.Outbound.Actor

open Teloxide.Core SchedulerState

/-- The instants at which the two clocks of the actor were read at first, and the end
of both; the instants of the model are those of the scheduler's clock.
mirrors actor.rs:335-378 -/
structure Clocks where
  base : Nat
  startedAt : Nat
  limit : Nat
  started : startedAt < limit

/-- mirrors actor.rs:1000-1002 -/
def Clocks.toTokio (c : Clocks) (at' : Nat) : Nat := c.startedAt + (at' - c.base)

/-- The instants before this one are instants of both clocks. -/
def Clocks.bound (c : Clocks) : Nat := min c.limit (c.base + (c.limit - c.startedAt))

/-- mirrors actor.rs:1268-1270 -/
def IDLE_DELAY : Nat := 365 * 24 * 3600 * 10 ^ 9

/-! ## What a step adds up -/

/-- mirrors actor.rs:1258-1271 -/
def Clocks.timerAdditions (c : Clocks) (now : Nat) : SchedulerWakeup → List Nat
  | .at instant => [c.toTokio instant]
  | .immediate => []
  | .externalEvent => [c.toTokio now + IDLE_DELAY]

/-- mirrors scheduler.rs:2203-2207 -/
def completeAdditions (s : SchedulerState) (job : JobId) (observedAt : Nat) : OutboundCompletion → List Nat
  | .retryAfter _ duration =>
    if s.inFlight.contains job = false ∨ duration = 0 then [] else [observedAt + duration]
  | .success | .failed | .cancelledAfterGrant | .noRequest => []

/-- `now` and `to_std` are sums themselves.
mirrors actor.rs:1131-1209 -/
def OutboundCommand.additions (s : SchedulerState) (now : Nat) : OutboundCommand → List Nat
  | .cancel _ | .start _ _ | .setLimits _ | .setClassLimits _ => [now]
  | .complete job _ _ outcome observedAt _ => [now, observedAt] ++ completeAdditions s job observedAt outcome
  | .penalize _ duration => if duration = 0 then [] else [now, now + duration]
  | .getLimits | .getClassLimits | .setObserver | .getSnapshot | .shutdown => []

/-- What the actor adds up, but for `schedule_aging`. -/
def OutboundActor.additions (a : OutboundActor) (c : Clocks) (lifecycle : List OutboundCommand) (now : Nat) :
    Action → List Nat
  | .receive _ => lifecycle.head?.toList.flatMap (·.additions a.scheduler now)
  | .accept | .answer => [now]
  | .runAdmission order fuel => now :: a.scheduler.passAdditions order fuel now
  | .park =>
    match a.phase with
    | .delivering [] t => c.timerAdditions now (a.scheduler.nextDeadline t).2
    | _ => []
  | _ => []

/-- The sums of `schedule_aging` are the instants of the heap it pushes to. -/
def Sys.additions (c : Clocks) (x : Sys) (m : Action × Nat) (x' : Sys) : List Nat :=
  x.actor.toList.flatMap (·.additions c x.lifecycle m.2 m.1) ++
    x'.actor.toList.flatMap (·.scheduler.agingEvents.entries.map (·.instant))

/-! ## The durations in force -/

/-- The capacities and the lengths of all windows. -/
def windowSizes (s : SchedulerState) : List (Nat × Nat) :=
  (s.globalLimits ++ s.chatLimits).map (fun limit => (limit.capacity, limit.window)) ++
    (s.classLimits.global ++ s.classLimits.chat).map (fun limit => (limit.capacity, limit.window))

/-- The quantum of aging as it is cut to `u64`, and the windows that take requests. -/
def durations (s : SchedulerState) : List Nat :=
  max s.aging.quantum 1 % u64Size :: ((windowSizes s).filter (0 < ·.1)).map (·.2)

/-- The end of the penalty that goes with a command. -/
def OutboundCommand.reach (now : Nat) : OutboundCommand → Nat
  | .complete _ _ _ (.retryAfter _ duration) observedAt _ => observedAt + duration
  | .complete _ _ _ _ observedAt _ => observedAt
  | .penalize _ duration => now + duration
  | _ => now

/-- What the durations in force reach, counted from a step. -/
def Sys.reaches (x : Sys) (now : Nat) : List Nat :=
  (now + IDLE_DELAY) :: (x.actor.toList.flatMap (durations ·.scheduler)).map (now + ·) ++
    x.lifecycle.head?.toList.map (·.reach now)

/-- The durations in force end in time. -/
def InTime (c : Clocks) (x : Sys) (m : Action × Nat) : Prop := c.base ≤ m.2 ∧ ∀ n ∈ x.reaches m.2, n < c.bound

instance (c : Clocks) (x : Sys) (m : Action × Nat) : Decidable (InTime c x m) :=
  inferInstanceAs (Decidable (_ ∧ ∀ n ∈ x.reaches m.2, n < c.bound))

theorem inForce_of_sizes {bound now : Nat} {s : SchedulerState}
    (h : ∀ size ∈ windowSizes s, 0 < size.1 → now + size.2 < bound) : InForce bound now s := by
  intro window size hs
  refine h size ?_
  unfold windowSizes
  cases window with
  | global =>
    obtain ⟨limit, hm, rfl⟩ := List.mem_map.1 hs
    exact List.mem_append_left _ (List.mem_map_of_mem (List.mem_append_left _ hm))
  | chat key =>
    obtain ⟨limit, hm, rfl⟩ := List.mem_map.1 hs
    exact List.mem_append_left _ (List.mem_map_of_mem (List.mem_append_right _ (List.mem_of_mem_filter hm)))
  | classGlobal cls =>
    obtain ⟨limit, hm, rfl⟩ := List.mem_map.1 hs
    exact List.mem_append_right _ (List.mem_map_of_mem (List.mem_append_left _ (List.mem_of_mem_filter hm)))
  | classChat key cls =>
    obtain ⟨limit, hm, rfl⟩ := List.mem_map.1 hs
    exact List.mem_append_right _ (List.mem_map_of_mem (List.mem_append_right _ (List.mem_of_mem_filter hm)))

namespace InTime

variable {c : Clocks} {x : Sys} {m : Action × Nat} {a : OutboundActor}

theorem idle (h : InTime c x m) : m.2 + IDLE_DELAY < c.bound := h.2 _ (by simp [Sys.reaches])

theorem duration (h : InTime c x m) (ha : x.actor = some a) {d : Nat} (hd : d ∈ durations a.scheduler) :
    m.2 + d < c.bound := by
  refine h.2 _ ?_
  simp only [Sys.reaches, ha, Option.toList_some, List.flatMap_singleton, List.cons_append, List.mem_cons,
    List.mem_append, List.mem_map]
  exact .inr (.inl ⟨d, hd, rfl⟩)

theorem command (h : InTime c x m) {command : OutboundCommand} {rest : List OutboundCommand}
    (hl : x.lifecycle = command :: rest) : command.reach m.2 < c.bound := by
  refine h.2 _ ?_
  simp [Sys.reaches, hl]

theorem inForce (h : InTime c x m) (ha : x.actor = some a) : InForce c.bound m.2 a.scheduler := by
  refine inForce_of_sizes fun size hs hpos => h.duration ha (List.mem_cons_of_mem _ ?_)
  exact List.mem_map_of_mem (List.mem_filter.2 ⟨hs, by simpa using hpos⟩)

end InTime

theorem Clocks.bound_le (c : Clocks) : c.bound ≤ c.limit := Nat.min_le_left _ _

/-- An instant of the one clock is one of the other. -/
theorem Clocks.toTokio_lt (c : Clocks) {n : Nat} (h : n < c.bound) : c.toTokio n < c.limit := by
  have hstarted := c.started
  have hsum : n < c.base + (c.limit - c.startedAt) := Nat.lt_of_lt_of_le h (Nat.min_le_right _ _)
  unfold toTokio
  omega

theorem Clocks.toTokio_add (c : Clocks) {now : Nat} (h : c.base ≤ now) (d : Nat) :
    c.toTokio now + d = c.toTokio (now + d) := by
  unfold toTokio
  omega

/-! ## The steps -/

section Steps

variable {c : Clocks} {bound now : Nat} {a : OutboundActor} {clients : Clients}

theorem handleCommand_timely {order : List CandidateRef} {command : OutboundCommand} {r : OutboundActor × Clients}
    (h : Timely bound now a.scheduler) (hreach : command.reach now < bound)
    (hr : a.handleCommand clients order now command = some r) : Timely bound now r.1.scheduler := by
  cases command with
  | cancel token =>
    cases hr
    unfold OutboundActor.handleCancel
    split
    · exact h
    · rename_i job _
      dsimp only
      rw [forgetJob_scheduler]
      dsimp only
      rw [(dropWaiter_leaves _ clients job).1]
      exact h.cancel job
  | start job corr =>
    cases hr
    exact h.start job
  | complete job corr token outcome observedAt ack =>
    cases hr
    unfold OutboundActor.handleComplete
    rw [forgetJob_scheduler]
    refine h.complete job ?_
    rintro scope duration rfl
    exact hreach
  | penalize scope duration =>
    simp only [OutboundActor.handleCommand] at hr
    split at hr
    · cases hr
      exact h
    · cases hr
      exact h.penalize scope hreach
  | setLimits limits =>
    simp only [OutboundActor.handleCommand] at hr
    split at hr
    · cases hr
      exact h.setLimits limits order
    · cases hr
  | setClassLimits limits =>
    simp only [OutboundActor.handleCommand] at hr
    split at hr
    · cases hr
      exact h.setClassLimits limits order
    · cases hr
  | getLimits | getClassLimits | setObserver | getSnapshot | shutdown =>
    cases hr
    exact h

/-- What the actor keeps from one step to the next. -/
def OnTime (bound : Nat) (x : Sys) : Prop :=
  ∀ a, x.actor = some a → Held bound a.scheduler ∧
    ∀ id job, a.scheduler.jobs.lookup id = some job → job.readyAt ≤ x.clock

theorem OnTime.timely {x : Sys} (h : OnTime bound x) (ha : x.actor = some a) (hle : x.clock ≤ now)
    (hq : now + max a.scheduler.aging.quantum 1 % u64Size < bound) : Timely bound now a.scheduler := by
  obtain ⟨hheld, hready⟩ := h a ha
  exact ⟨hheld, fun id job hj => Nat.le_trans (hready id job hj) hle, hq⟩

variable {x x' : Sys} {action : Action} {e : Event}

/-- What the steps of the actor leave of its scheduler. -/
theorem act_timely (hpaced : Paced bound now a.scheduler) (hidle : now + IDLE_DELAY < bound)
    (hcommand : ∀ command rest, x.lifecycle = command :: rest → command.reach now < bound)
    (hr : x.act a now action = some (x', e)) : ∀ a', x'.actor = some a' →
      Timely bound now a'.scheduler ∧ x'.clock = x.clock := by
  have h := hpaced.toTimely
  intro a' ha'
  cases action with
  | receive order =>
    simp only [Sys.act, Sys.receive] at hr
    split at hr
    · split at hr
      · cases hr
      · cases hr
        cases ha'
        exact ⟨h, rfl⟩
      · rename_i command rest hne hl
        obtain ⟨r, hc, heq⟩ := Option.map_eq_some_iff.1 hr
        cases heq
        cases ha'
        exact ⟨handleCommand_timely (r := r) h (hcommand command rest hl) hc, rfl⟩
    · cases hr
  | accept =>
    simp only [Sys.act, Sys.accept] at hr
    split at hr
    · rename_i request token rest _ _
      split at hr
      · cases hr
        cases ha'
        exact ⟨h, rfl⟩
      · have hnow : Timely bound (a.enqueueOptions request now).now a.scheduler := h
        have henter : Timely bound now (a.scheduler.enqueue request.metadata (a.enqueueOptions request now)).1 :=
          hnow.enqueue (fun _ h => by cases h)
        split at hr
        · rename_i s outcome heq
          rw [heq] at henter
          split at hr
          · cases hr
            cases ha'
            exact ⟨henter.congr (supersede_leaves { a with scheduler := s } _ outcome.superseded).1, rfl⟩
          · cases hr
        · rename_i s error heq
          rw [heq] at henter
          cases hr
          cases ha'
          exact ⟨henter, rfl⟩
    · cases hr
  | answer =>
    obtain ⟨y, hy, heq⟩ := Option.map_eq_some_iff.1 hr
    cases heq
    unfold Sys.answer at hy
    split at hy
    · rename_i token job _
      dsimp only at hy
      split at hy
      · cases hy
        cases ha'
        exact ⟨h, rfl⟩
      · cases hy
        cases ha'
        exact ⟨(h.cancel job).congr (forgetJob_scheduler { a with scheduler := a.scheduler.cancel job now } _ job), rfl⟩
    · cases hy
      cases ha'
      exact ⟨h, rfl⟩
    · cases hy
  | runAdmission order fuel =>
    simp only [Sys.act, Sys.runAdmission] at hr
    split at hr
    · split at hr
      · cases hr
      · obtain ⟨⟨s, grants⟩, hg, heq⟩ := Option.map_eq_some_iff.1 hr
        cases heq
        cases ha'
        exact ⟨(hpaced.grantReady hidle order fuel).2 hg, rfl⟩
    · cases hr
  | deliver =>
    simp only [Sys.act, Sys.deliver] at hr
    split at hr
    · rename_i grant grants t _
      split at hr
      · cases hr
        cases ha'
        exact ⟨h, rfl⟩
      · rename_i token _
        split at hr
        · cases hr
          cases ha'
          exact ⟨h, rfl⟩
        · have htold := (tell_leaves { a with phase := .delivering grants t } x.clients grant.job
            (.granted ⟨grant.job, token, grant.correlationId, false⟩)).1
          split at hr
          · cases hr
            cases ha'
            exact ⟨h.congr htold, rfl⟩
          · cases hr
            cases ha'
            exact ⟨h.congr htold, rfl⟩
    · cases hr
  | park =>
    obtain ⟨y, hy, heq⟩ := Option.map_eq_some_iff.1 hr
    cases heq
    unfold Sys.park at hy
    split at hy
    · rename_i t _
      cases hy
      cases ha'
      exact ⟨(h.nextDeadline t).1, rfl⟩
    · cases hy
  | timer =>
    obtain ⟨y, hy, heq⟩ := Option.map_eq_some_iff.1 hr
    cases heq
    unfold Sys.timer at hy
    split at hy
    · split at hy
      · cases hy
        cases ha'
        exact ⟨h, rfl⟩
      · cases hy
    · cases hy
  | ingressClosed =>
    obtain ⟨y, hy, heq⟩ := Option.map_eq_some_iff.1 hr
    cases heq
    unfold Sys.ingressClosed at hy
    split at hy
    · split at hy
      · cases hy
        cases ha'
        exact ⟨h, rfl⟩
      · cases hy
    · cases hy
  | closeWaiter job =>
    simp only [Sys.act, Sys.closeWaiter] at hr
    split at hr
    · cases hr
    · cases hr
      cases ha'
      exact ⟨h.congr (tell_leaves a x.clients job .closed).1, rfl⟩
  | stop =>
    obtain ⟨y, hy, heq⟩ := Option.map_eq_some_iff.1 hr
    cases heq
    unfold Sys.stop at hy
    split at hy
    · cases hy
      cases ha'
    · cases hy
  | mint | trySend | pollEnqueue | pollGrant | dropFuture | sendCancel | dropField | start | complete
  | completeAndAwait | dropPermit | command | cloneHandle | dropHandle => cases hr

theorem commandAdditions_lt {s : SchedulerState} {command : OutboundCommand} (hnow : now < bound)
    (hreach : command.reach now < bound) : ∀ n ∈ command.additions s now, n < bound := by
  intro n hn
  cases command with
  | cancel | start | setLimits | setClassLimits =>
    rw [List.mem_singleton.1 hn]
    exact hnow
  | complete job corr token outcome observedAt ack =>
    have hobserved : observedAt < bound := by
      cases outcome with
      | retryAfter scope duration => exact Nat.lt_of_le_of_lt (Nat.le_add_right _ _) hreach
      | success | failed | cancelledAfterGrant | noRequest => exact hreach
    simp only [OutboundCommand.additions, List.cons_append, List.nil_append, List.mem_cons] at hn
    rcases hn with rfl | rfl | hn
    · exact hnow
    · exact hobserved
    · cases outcome with
      | retryAfter scope duration =>
        simp only [completeAdditions] at hn
        split at hn
        · cases hn
        · rw [List.mem_singleton.1 hn]
          exact hreach
      | success | failed | cancelledAfterGrant | noRequest => cases hn
  | penalize scope duration =>
    simp only [OutboundCommand.additions] at hn
    split at hn
    · cases hn
    · simp only [List.mem_cons, List.not_mem_nil, or_false] at hn
      rcases hn with rfl | rfl
      · exact hnow
      · exact hreach
  | getLimits | getClassLimits | setObserver | getSnapshot | shutdown => cases hn

/-- What the actor adds up itself, and in the scheduler. -/
theorem actorAdditions_lt (hpaced : Paced c.bound now a.scheduler) (hbase : c.base ≤ now)
    (hidle : now + IDLE_DELAY < c.bound) {lifecycle : List OutboundCommand}
    (hcommand : ∀ command rest, lifecycle = command :: rest → command.reach now < c.bound) (action : Action) :
    ∀ n ∈ a.additions c lifecycle now action, n < c.limit := by
  intro n hn
  have hnow : now < c.bound := hpaced.now_lt
  have hlimit {n : Nat} (h : n < c.bound) : n < c.limit := Nat.lt_of_lt_of_le h c.bound_le
  cases action with
  | receive order =>
    simp only [OutboundActor.additions, List.mem_flatMap, Option.mem_toList] at hn
    obtain ⟨command, hhead, hn⟩ := hn
    obtain ⟨rest, hl⟩ := List.head?_eq_some_iff.1 hhead
    exact hlimit (commandAdditions_lt hnow (hcommand command rest hl) n hn)
  | accept | answer =>
    rw [List.mem_singleton.1 hn]
    exact hlimit hnow
  | runAdmission order fuel =>
    rcases List.mem_cons.1 hn with rfl | hn
    · exact hlimit hnow
    · exact hlimit ((hpaced.grantReady hidle order fuel).1 n hn)
  | park =>
    simp only [OutboundActor.additions] at hn
    split at hn
    · rename_i t _
      have hwake := (hpaced.toTimely.nextDeadline t).2
      cases hw : (a.scheduler.nextDeadline t).2 with
      | «at» instant =>
        rw [hw] at hn
        rw [List.mem_singleton.1 hn]
        exact c.toTokio_lt (hwake instant hw)
      | immediate =>
        rw [hw] at hn
        cases hn
      | externalEvent =>
        rw [hw] at hn
        rw [List.mem_singleton.1 hn, c.toTokio_add hbase]
        exact c.toTokio_lt hidle
    · cases hn
  | mint | trySend | pollEnqueue | pollGrant | dropFuture | sendCancel | dropField | start | complete
  | completeAndAwait | dropPermit | command | cloneHandle | dropHandle | deliver | timer | ingressClosed
  | closeWaiter | stop => cases hn

end Steps

/-! ## The runs -/

/-- The windows of a scheduler that keeps its books follow its debits. -/
theorem tracked_of_books {s : SchedulerState} {clock now : Nat} (h : Books s clock) (hle : clock ≤ now) :
    ∃ ledger, s.Tracked ledger now := by
  obtain ⟨σ, t, ht, hr⟩ := h
  obtain ⟨records, hrec, -⟩ := hr.record
  exact ⟨_, (carried_run hrec).kept.tracked.later (Nat.le_trans ht hle)⟩

/-- One step of the queue. -/
theorem step_onTime {c : Clocks} {τ : List Event} {x x' : Sys} {m : Action × Nat} {e : Event} (hrun : Run τ x)
    (h : OnTime c.bound x) (hin : InTime c x m) (hstep : queue.step x m = some (x', e)) :
    OnTime c.bound x' ∧ ∀ n ∈ Sys.additions c x m x', n < c.limit := by
  replace hstep : x.step m = some (x', e) := hstep
  unfold Sys.step at hstep
  split at hstep
  · cases hstep
  · rename_i hclock
    have hlater := Nat.le_of_not_lt hclock
    cases ha : x.actor with
    | none =>
      dsimp only at hstep
      split at hstep
      · rename_i r hr
        cases hstep
        obtain ⟨hgone, -⟩ := client_gone (x := { x with clock := m.2 }) ha hr
        refine ⟨fun a ha' => ?_, fun n hn => ?_⟩
        · rw [hgone] at ha'
          cases ha'
        · simp [Sys.additions, ha, hgone] at hn
      · rw [ha] at hstep
        cases hstep
    | some a =>
      have hinv := ((inv_run hrun).2 a ha).later hlater
      have ht : Timely c.bound m.2 a.scheduler := h.timely ha hlater (hin.duration ha List.mem_cons_self)
      have hpaced : Paced c.bound m.2 a.scheduler :=
        ⟨ht, tracked_of_books hinv.clocked.books (Nat.le_refl _), hin.inForce ha⟩
      have hown := actorAdditions_lt hpaced hin.1 hin.idle (fun _ _ => hin.command) m.1
      -- what is kept lies before the end, and so do the sums it came from
      have hafter (hk : ∀ a', x'.actor = some a' → Timely c.bound m.2 a'.scheduler ∧ x'.clock = m.2) :
          OnTime c.bound x' ∧ ∀ n ∈ Sys.additions c x m x', n < c.limit := by
        refine ⟨fun a' ha' => ?_, fun n hn => ?_⟩
        · obtain ⟨ht', hc⟩ := hk a' ha'
          exact ⟨ht'.toHeld, hc ▸ ht'.ready⟩
        · rcases List.mem_append.1 hn with hn | hn
          · rw [ha, Option.toList_some, List.flatMap_singleton] at hn
            exact hown n hn
          · obtain ⟨a', ha', hn⟩ := List.mem_flatMap.1 hn
            obtain ⟨event, hevent, rfl⟩ := List.mem_map.1 hn
            obtain ⟨ht', -⟩ := hk a' (Option.mem_toList.1 ha')
            exact Nat.lt_of_lt_of_le (ht'.aging event hevent) c.bound_le
      dsimp only at hstep
      split at hstep
      · rename_i r hr
        cases hstep
        have hcalls := Sys.client_cases (x := { x with clock := m.2 }) ha hinv.tokens.minted
          (fun t permit hs => (hinv.balanced.held t permit hs).1) hr
        have hsame : x'.actor = some a ∧ x'.clock = m.2 := by
          cases hcalls <;> exact ⟨ha, rfl⟩
        refine hafter fun a' ha' => ?_
        rw [hsame.1] at ha'
        cases ha'
        exact ⟨ht, hsame.2⟩
      · rw [ha] at hstep
        exact hafter (act_timely (x := { x with clock := m.2 }) hpaced hin.idle (fun _ _ => hin.command) hstep)

/-- No sum of the scheduler or of its actor leads past the end of a clock, as long as the
durations in force end in time. -/
theorem additions_before_end (c : Clocks) {τ : List (List Nat)} {x : Sys}
    (hr : (queue.observing (Sys.additions c)).Run (InTime c) τ x) : ∀ sums ∈ τ, ∀ n ∈ sums, n < c.limit := by
  refine (Machine.Run.induct_observing (I := fun τ x => OnTime c.bound x ∧ ∀ sums ∈ τ, ∀ n ∈ sums, n < c.limit)
    ?_ ?_ hr).2.2
  · rintro x ⟨limits, classLimits, aging, scheduler, capacity, clock, hs, -, rfl⟩
    refine ⟨fun a ha => ?_, fun sums hs => by cases hs⟩
    cases ha
    rw [newWithClassLimits_ok hs]
    exact ⟨.initial _, fun id job hj => by cases hj⟩
  · intro τ τ' x m x' e hr ⟨h, ih⟩ hin hstep
    obtain ⟨h', hadd⟩ := step_onTime (hr.mono fun _ _ _ => trivial) h hin hstep
    refine ⟨h', fun sums hs => ?_⟩
    rcases List.mem_cons.1 hs with rfl | hs
    · exact hadd
    · exact ih sums hs

/-- Both clocks start at zero; the seconds of an `Instant` are an `i64`. -/
def zeroClocks : Clocks := ⟨0, 0, 2 ^ 63 * 10 ^ 9, by decide⟩

/-- One request in a window. -/
def oneInWindow (window : Nat) : Sys := .new (.new (.initial ⟨[⟨1, window, .any⟩], []⟩ ⟨[], []⟩ ⟨1000, 255⟩) 10) 0

theorem oneInWindow_init (c : Clocks) {window : Nat} (h : window ≠ 0) :
    (queue.observing (Sys.additions c)).init (oneInWindow window) := by
  refine ⟨⟨[⟨1, window, .any⟩], []⟩, ⟨[], []⟩, ⟨1000, 255⟩, _, 10, 0, ?_, by decide, rfl⟩
  have hboost : HIGHEST ≤ 255 + LOWEST := by decide
  simp [newWithClassLimits, h, hboost]

/-- The first acquire is granted, the second has to wait for the window. -/
def twoAcquires : List (Action × Nat) :=
  steps 0 [.mint plainRequest, .trySend 0, .mint plainRequest, .trySend 1, .runAdmission [] 9, .park, .accept, .answer,
    .runAdmission [] 9, .deliver, .park, .accept, .answer, .runAdmission [] 9, .park]

def MINUTE : Nat := 60 * 10 ^ 9

theorem additions_before_end_minute : ∃ τ x, (queue.observing (Sys.additions zeroClocks)).Run (InTime zeroClocks) τ x ∧
    (∃ sums ∈ τ, MINUTE ∈ sums) ∧ ∀ sums ∈ τ, ∀ n ∈ sums, n < zeroClocks.limit := by
  have h : ((queue.observing (Sys.additions zeroClocks)).exec (InTime zeroClocks) [] (oneInWindow MINUTE)
      twoAcquires).map (fun r => decide (∃ sums ∈ r.1, MINUTE ∈ sums)) = some true := by
    decide +kernel
  obtain ⟨⟨τ, x⟩, he, hs⟩ := Option.map_eq_some_iff.mp h
  have hr : (queue.observing (Sys.additions zeroClocks)).Run (InTime zeroClocks) τ x :=
    Machine.run_of_exec (.start (oneInWindow_init zeroClocks (by decide))) he
  exact ⟨τ, x, hr, of_decide_eq_true hs, additions_before_end zeroClocks hr⟩

/-- mirrors `Duration::MAX` -/
def DURATION_MAX : Nat := 2 ^ 64 * 10 ^ 9 - 1

/-- The second request of a window of `Duration::MAX` waits for an instant that there is not. -/
theorem window_past_end : ∃ τ x, (queue.observing (Sys.additions zeroClocks)).Run Machine.anything τ x ∧
    ¬ ∀ sums ∈ τ, ∀ n ∈ sums, n < zeroClocks.limit := by
  have h : ((queue.observing (Sys.additions zeroClocks)).exec Machine.anything [] (oneInWindow DURATION_MAX)
      twoAcquires).map (fun r => decide (∀ sums ∈ r.1, ∀ n ∈ sums, n < zeroClocks.limit)) = some false := by
    decide +kernel
  obtain ⟨⟨τ, x⟩, he, hs⟩ := Option.map_eq_some_iff.mp h
  exact ⟨τ, x, Machine.run_of_exec (.start (oneInWindow_init zeroClocks (by decide))) he, of_decide_eq_false hs⟩

end Teloxide.Outbound.Actor
