import Teloxide.Core.Machine
import Teloxide.Core.Notify

/-!
# Shutting a dispatcher down

The shutdown token (`crates/teloxide/src/utils/shutdown_token.rs`) and the loop
of `start_listening` (`crates/teloxide/src/dispatching/dispatcher.rs:460-502`)
as one state machine, with any number of callers of `shutdown`.

* An atomic operation, a call of `notify_waiters` and a poll are a step each. A
  waiter is created by the first poll of its future, on both sides.
* What the loop does between two `select`s, with an update or with its workers,
  is one phase, `busy`. What the listener yields is up to the run.
* `run` counts the runs of the loop that are over; it is the ghost that tells
  which `done` is the one of a call.
* `shutdown_never_lost`: when every step is `timely`, no shutdown is lost on the
  loop and no future on its caller.
* `shutdown_lost`: a run that loses one on the loop, and a run that loses a
  future.
-/
namespace Teloxide.Dispatching

open Teloxide.Core

/-- mirrors shutdown_token.rs:131-137 -/
inductive ShutdownState where
  | running
  | shuttingDown
  | idle
  deriving DecidableEq, Repr

/-- Where a call of `shutdown` stands. `exchanged` is the call whose
compare-exchange has succeeded, before its `notify_waiters`; the future that it
returns is `returned`, and from its first poll on `waiting`.
mirrors shutdown_token.rs:36-44, 154-167 -/
inductive CallStage where
  | exchanged
  | returned
  | waiting (waiter : Notified)
  | notified
  | dropped
  | refused
  deriving DecidableEq, Repr

structure ShutdownCall where
  run : Nat
  stage : CallStage
  deriving DecidableEq, Repr

/-- Where the loop stands. `waiting` has found the listener pending and polls
`wait_for_changes` next; there is no waiter before the first such poll.
`finishing` to `stored` are the steps of `done`.
mirrors dispatcher.rs:471-501 -/
inductive Phase where
  | idle
  | starting
  | busy
  | selecting
  | waiting (waiter : Option Notified)
  | parked (waiter : Notified)
  | woken
  | draining
  | finishing
  | notifying
  | storing
  | stored
  deriving DecidableEq, Repr

/-- `stopped` is that of the stop token of the listener. -/
structure Sys where
  state : ShutdownState
  notify : Notify
  notifyBack : Notify
  phase : Phase
  stopped : Bool
  calls : List ShutdownCall
  run : Nat
  deriving DecidableEq

/-- What a poll of the listener gives. -/
inductive Next where
  | pending
  | update
  | ended
  deriving DecidableEq, Repr

inductive Action where
  | shutdown
  | notify (call : Nat)
  | pollFuture (call : Nat)
  | dropFuture (call : Nat)
  | start
  | started
  | select
  | next (item : Next)
  | wait
  | look
  | drained
  | load
  | notifyBack
  | store
  | notifyStore
  deriving DecidableEq, Repr

namespace Sys

def setStage (x : Sys) (call : Nat) (c : ShutdownCall) (stage : CallStage) : Sys :=
  { x with calls := x.calls.set call { c with stage := stage } }

/-! ## The callers -/

/-- mirrors shutdown_token.rs:154-167 -/
def shutdown (x : Sys) : Sys :=
  match x.state with
  | .running => { x with state := .shuttingDown, calls := x.calls ++ [⟨x.run, .exchanged⟩] }
  | .shuttingDown => { x with calls := x.calls ++ [⟨x.run, .returned⟩] }
  | .idle => { x with calls := x.calls ++ [⟨x.run, .refused⟩] }

/-- mirrors shutdown_token.rs:120-126 -/
def notifyChange (x : Sys) (call : Nat) : Option Sys :=
  match x.calls[call]? with
  | some ⟨run, .exchanged⟩ =>
    some ({ x with notify := x.notify.notifyWaiters }.setStage call ⟨run, .exchanged⟩ .returned)
  | _ => none

/-- mirrors shutdown_token.rs:38-41 -/
def pollFuture (x : Sys) (call : Nat) : Option Sys :=
  match x.calls[call]? with
  | some ⟨run, .returned⟩ => some (x.setStage call ⟨run, .returned⟩ (.waiting x.notifyBack.notified))
  | some ⟨run, .waiting w⟩ =>
    if w.ready x.notifyBack then some (x.setStage call ⟨run, .waiting w⟩ .notified) else some x
  | _ => none

def dropFuture (x : Sys) (call : Nat) : Option Sys :=
  match x.calls[call]? with
  | some ⟨run, .returned⟩ => some (x.setStage call ⟨run, .returned⟩ .dropped)
  | some ⟨run, .waiting w⟩ => some (x.setStage call ⟨run, .waiting w⟩ .dropped)
  | _ => none

/-! ## The loop -/

/-- mirrors shutdown_token.rs:60-70 -/
def start (x : Sys) : Option Sys :=
  if x.phase = .idle ∧ x.state = .idle then
    some { x with state := .running, phase := .starting, stopped := false }
  else none

/-- The listener is polled before the waiter.
mirrors dispatcher.rs:478-487 -/
def next (x : Sys) (item : Next) : Option Sys :=
  let polled (waiter : Option Notified) : Sys :=
    match item with
    | .pending => { x with phase := .waiting waiter }
    | .update => { x with phase := .busy }
    | .ended => { x with phase := .draining }
  match x.phase with
  | .selecting => some (polled none)
  | .parked w => some (polled (some w))
  | _ => none

/-- mirrors shutdown_token.rs:56-58 -/
def wait (x : Sys) : Option Sys :=
  match x.phase with
  | .waiting none => some { x with phase := .parked x.notify.notified }
  | .waiting (some w) => some { x with phase := if w.ready x.notify then .woken else .parked w }
  | _ => none

/-- mirrors dispatcher.rs:488-495 -/
def look (x : Sys) : Option Sys :=
  match x.phase with
  | .woken => some { x with stopped := x.stopped || x.state == .shuttingDown, phase := .busy }
  | _ => none

/-- The step of one phase that only goes on to the next. -/
def goOn (x : Sys) (before after : Phase) : Option Sys :=
  if x.phase = before then some { x with phase := after } else none

/-- mirrors shutdown_token.rs:76-88 -/
def load (x : Sys) : Option Sys :=
  x.goOn .finishing (if x.state = .shuttingDown then .notifying else .storing)

def notifyBackWaiters (x : Sys) : Option Sys :=
  { x with notifyBack := x.notifyBack.notifyWaiters }.goOn .notifying .storing

def store (x : Sys) : Option Sys := { x with state := .idle, run := x.run + 1 }.goOn .storing .stored

def step (x : Sys) : Action → Option (Sys × Unit)
  | .shutdown => some (x.shutdown, ())
  | .notify call => (x.notifyChange call).map (·, ())
  | .pollFuture call => (x.pollFuture call).map (·, ())
  | .dropFuture call => (x.dropFuture call).map (·, ())
  | .start => x.start.map (·, ())
  | .started => ({ x with notify := x.notify.notifyWaiters }.goOn .starting .busy).map (·, ())
  | .select => (x.goOn .busy .selecting).map (·, ())
  | .next item => (x.next item).map (·, ())
  | .wait => x.wait.map (·, ())
  | .look => x.look.map (·, ())
  | .drained => (x.goOn .draining .finishing).map (·, ())
  | .load => x.load.map (·, ())
  | .notifyBack => x.notifyBackWaiters.map (·, ())
  | .store => x.store.map (·, ())
  | .notifyStore => ({ x with notify := x.notify.notifyWaiters }.goOn .stored .idle).map (·, ())

/-- mirrors shutdown_token.rs:46-54 -/
def new : Sys := ⟨.idle, .new, .new, .idle, false, [], 0⟩

end Sys

/-- The dispatcher with its shutdown tokens. -/
def dispatcher : Machine Sys Action Unit where
  init x := x = .new
  step := Sys.step

abbrev Run (ok : Sys → Action → Prop) (τ : List Unit) (x : Sys) : Prop := dispatcher.Run ok τ x

/-! ## No shutdown is lost -/

/-- The call has given its future to the caller. -/
def CallStage.isReturned : CallStage → Bool
  | .returned | .waiting _ | .notified | .dropped => true
  | .exchanged | .refused => false

/-- The future is notified as soon as it is polled. -/
def CallStage.settled (back : Notify) : CallStage → Bool
  | .exchanged | .returned => false
  | .waiting w => w.ready back
  | .notified | .dropped | .refused => true

namespace Sys

/-- A notification has reached the waiter of the loop, or the call that is to
send it has not come to that yet. -/
def Pending (x : Sys) (w : Notified) : Prop :=
  w.ready x.notify = true ∨ ∃ c ∈ x.calls, c.stage = .exchanged

/-- After a `shutdown`, the loop does not sleep through it. -/
def Heard (x : Sys) : Prop :=
  ∀ w, x.phase = .parked w → x.state = .shuttingDown → x.stopped = false →
    (∃ c ∈ x.calls, c.stage.isReturned = true) → x.Pending w

/-- The futures of the calls whose run is over are notified, or will be by their
next poll. -/
def Answered (x : Sys) : Prop :=
  ∀ c ∈ x.calls, c.run < x.run → c.stage.isReturned = true → c.stage.settled x.notifyBack = true

end Sys

/-- Phases in which a notification is not lost on the loop: there is a waiter, or
no `select` is to come. -/
def Phase.hears : Phase → Bool
  | .waiting (some _) | .parked _ | .woken | .draining | .finishing | .notifying => true
  | _ => false

/-- The loop is parked and its waiter has been reached. -/
def Sys.notified (x : Sys) : Bool :=
  match x.phase with
  | .parked w => w.ready x.notify
  | _ => false

/-- The steps that lose nothing: a notification is sent when the loop hears it,
no update overtakes it, a future is polled before `done` notifies it, and no
call comes between that and the end of `done`. -/
def timely (x : Sys) : Action → Prop
  | .shutdown => x.phase ≠ .storing
  | .notify _ => x.phase.hears = true
  | .next .update => x.notified = false
  | .notifyBack => ∀ c ∈ x.calls, c.run = x.run → c.stage ≠ .exchanged ∧ c.stage ≠ .returned
  | _ => True

instance (x : Sys) (m : Action) : Decidable (timely x m) := by
  unfold timely
  split <;> infer_instance

/-- A shutdown that the loop is still to hear of. -/
def Sys.Reaching (x : Sys) : Prop :=
  (∃ c ∈ x.calls, c.stage = .exchanged) ∨ x.phase = .woken ∨ x.phase = .draining ∨ x.phase = .finishing ∨
    x.phase = .notifying ∨ x.phase = .storing ∨
    ∃ w, (x.phase = .parked w ∨ x.phase = .waiting (some w)) ∧ w.ready x.notify = true

structure Inv (x : Sys) : Prop where
  seen : ∀ w, x.phase = .parked w ∨ x.phase = .waiting (some w) → x.notify.Created w
  heard : x.state = .shuttingDown → x.stopped = false → x.Reaching
  asked : ∀ c ∈ x.calls, ∀ w, c.stage = .waiting w → x.notifyBack.Created w
  runs : ∀ c ∈ x.calls, c.run ≤ x.run
  current : ∀ c ∈ x.calls, c.run = x.run → c.stage ≠ .refused → x.state = .shuttingDown
  storing : x.phase = .storing → ∀ c ∈ x.calls, c.run = x.run → c.stage.settled x.notifyBack = true
  past : ∀ c ∈ x.calls, c.run < x.run → c.stage.settled x.notifyBack = true

theorem Inv.neverLost {x : Sys} (h : Inv x) : x.Heard ∧ x.Answered := by
  refine ⟨fun w hp hs hstop _ => ?_, fun c hc hrun _ => h.past c hc hrun⟩
  rcases h.heard hs hstop with hc | hp' | hp' | hp' | hp' | hp' | ⟨w', hp' | hp', hready⟩
  · exact Or.inr hc
  · rw [hp] at hp'; cases hp'
  · rw [hp] at hp'; cases hp'
  · rw [hp] at hp'; cases hp'
  · rw [hp] at hp'; cases hp'
  · rw [hp] at hp'; cases hp'
  · rw [hp] at hp'
    cases hp'
    exact Or.inl hready
  · rw [hp] at hp'; cases hp'

/-! ## The invariant -/

theorem mem_setStage {x : Sys} {call : Nat} {c d : ShutdownCall} {stage : CallStage}
    (h : d ∈ (x.setStage call c stage).calls) : d ∈ x.calls ∨ d = { c with stage := stage } :=
  List.mem_or_eq_of_mem_set h

/-- Another call keeps its stage. -/
theorem exchanged_setStage {x : Sys} {call : Nat} {c : ShutdownCall} {stage : CallStage}
    (hc : x.calls[call]? = some c) (hn : c.stage ≠ .exchanged) (h : ∃ d ∈ x.calls, d.stage = .exchanged) :
    ∃ d ∈ (x.setStage call c stage).calls, d.stage = .exchanged := by
  obtain ⟨d, hd, hs⟩ := h
  refine ⟨d, ?_, hs⟩
  obtain ⟨i, hi, rfl⟩ := List.getElem_of_mem hd
  have hne : call ≠ i := by
    rintro rfl
    rw [List.getElem?_eq_getElem hi] at hc
    cases hc
    exact hn hs
  show x.calls[i] ∈ x.calls.set call _
  rw [← List.getElem_set_ne (a := { c with stage := stage }) hne (by rwa [List.length_set])]
  exact List.getElem_mem _

/-- One call goes on, and leaves the loop alone. -/
theorem Inv.setStage {x : Sys} {call : Nat} {c : ShutdownCall} {stage : CallStage} (h : Inv x)
    (hc : x.calls[call]? = some c) (hn : c.stage ≠ .exchanged) (hr : c.stage ≠ .refused)
    (hsettled : c.stage.settled x.notifyBack = true → stage.settled x.notifyBack = true)
    (hasked : ∀ w, stage = .waiting w → x.notifyBack.Created w) : Inv (x.setStage call c stage) := by
  have hmem : c ∈ x.calls := List.mem_of_getElem? hc
  refine ⟨h.seen, fun hs hstop => ?_, fun d hd w hw => ?_, fun d hd => ?_, fun d hd hrun hd' => ?_,
    fun hp d hd hrun => ?_, fun d hd hrun => ?_⟩
  · exact (h.heard hs hstop).imp_left (exchanged_setStage hc hn)
  · rcases mem_setStage hd with hd | rfl
    · exact h.asked d hd w hw
    · exact hasked w hw
  · rcases mem_setStage hd with hd | rfl
    · exact h.runs d hd
    · exact h.runs c hmem
  · rcases mem_setStage hd with hd | rfl
    · exact h.current d hd hrun hd'
    · exact h.current c hmem hrun hr
  · rcases mem_setStage hd with hd | rfl
    · exact h.storing hp d hd hrun
    · exact hsettled (h.storing hp c hmem hrun)
  · rcases mem_setStage hd with hd | rfl
    · exact h.past d hd hrun
    · exact hsettled (h.past c hmem hrun)

theorem Inv.shutdown {x : Sys} (h : Inv x) (ht : timely x .shutdown) : Inv x.shutdown := by
  -- a new call is of the run that is under way
  have hadd {state : ShutdownState} {stage : CallStage} (hstage : ∀ w, stage ≠ .waiting w)
      (hheard : state = .shuttingDown → x.stopped = false →
        stage = .exchanged ∨ x.Reaching)
      (hcurrent : ∀ c ∈ x.calls ++ [⟨x.run, stage⟩], c.run = x.run → c.stage ≠ .refused → state = .shuttingDown) :
      Inv { x with state := state, calls := x.calls ++ [⟨x.run, stage⟩] } := by
    have hcall {d : ShutdownCall} (hd : d ∈ x.calls ++ [⟨x.run, stage⟩]) : d ∈ x.calls ∨ d = ⟨x.run, stage⟩ :=
      (List.mem_append.1 hd).imp_right List.mem_singleton.1
    refine ⟨h.seen, fun hs hstop => ?_, fun d hd w hw => ?_, fun d hd => ?_, hcurrent, fun hp => absurd hp ht,
      fun d hd hrun => ?_⟩
    · rcases hheard hs hstop with rfl | hreach
      · exact Or.inl ⟨_, List.mem_append.2 (Or.inr List.mem_cons_self), rfl⟩
      · exact hreach.imp_left fun ⟨d, hd, hs⟩ => ⟨d, List.mem_append.2 (Or.inl hd), hs⟩
    · rcases hcall hd with hd | rfl
      · exact h.asked d hd w hw
      · exact absurd hw (hstage w)
    · rcases hcall hd with hd | rfl
      · exact h.runs d hd
      · exact Nat.le_refl _
    · rcases hcall hd with hd | rfl
      · exact h.past d hd hrun
      · exact absurd hrun (Nat.lt_irrefl _)
  unfold Sys.shutdown
  split
  · exact hadd nofun (fun _ _ => Or.inl rfl) fun _ _ _ _ => rfl
  · rename_i hs
    exact hadd nofun (fun hs hstop => Or.inr (h.heard hs hstop)) fun _ _ _ _ => hs
  · refine hadd nofun (fun hs hstop => Or.inr (h.heard hs hstop)) fun c hc hrun hr => ?_
    rcases List.mem_append.1 hc with hc | hc
    · exact h.current c hc hrun hr
    · cases List.mem_singleton.1 hc
      exact absurd rfl hr

/-- The notification of a call reaches the loop. -/
theorem Inv.notifyChange {x x' : Sys} {call : Nat} (h : Inv x) (ht : timely x (.notify call))
    (hs : x.notifyChange call = some x') : Inv x' := by
  unfold Sys.notifyChange at hs
  split at hs
  · rename_i run hc
    cases hs
    have hmem : ⟨run, .exchanged⟩ ∈ x.calls := List.mem_of_getElem? hc
    refine ⟨fun w hw => (h.seen w hw).notifyWaiters, fun _ _ => Or.inr ?_, fun d hd w hw => ?_, fun d hd => ?_,
      fun d hd hrun hd' => ?_, fun hp => ?_, fun d hd hrun => ?_⟩
    · cases hp : x.phase with
      | waiting waiter =>
        cases waiter with
        | none => rw [timely, hp] at ht; cases ht
        | some w =>
          have hw : x.phase = .parked w ∨ x.phase = .waiting (some w) := Or.inr hp
          have hready := Notify.ready_notifyWaiters (h.seen w hw)
          exact Or.inr (Or.inr (Or.inr (Or.inr (Or.inr ⟨w, Or.inr rfl, hready⟩))))
      | parked w =>
        have hw : x.phase = .parked w ∨ x.phase = .waiting (some w) := Or.inl hp
        have hready := Notify.ready_notifyWaiters (h.seen w hw)
        exact Or.inr (Or.inr (Or.inr (Or.inr (Or.inr ⟨w, Or.inl rfl, hready⟩))))
      | woken => exact Or.inl rfl
      | draining => exact Or.inr (Or.inl rfl)
      | finishing => exact Or.inr (Or.inr (Or.inl rfl))
      | notifying => exact Or.inr (Or.inr (Or.inr (Or.inl rfl)))
      | idle | starting | busy | selecting | storing | stored => rw [timely, hp] at ht; cases ht
    · rcases mem_setStage hd with hd | rfl
      · exact h.asked d hd w hw
      · cases hw
    · rcases mem_setStage hd with hd | rfl
      · exact h.runs d hd
      · exact h.runs ⟨run, .exchanged⟩ hmem
    · rcases mem_setStage hd with hd | rfl
      · exact h.current d hd hrun hd'
      · exact h.current ⟨run, .exchanged⟩ hmem hrun nofun
    · rw [timely, show x.phase = .storing from hp] at ht
      cases ht
    · rcases mem_setStage hd with hd | rfl
      · exact h.past d hd hrun
      · cases h.past ⟨run, .exchanged⟩ hmem hrun
  · cases hs

/-- While there is no waiter, only a call that is still to notify reaches the
loop. -/
def Phase.isDeaf : Phase → Bool
  | .idle | .starting | .busy | .selecting | .waiting none | .stored => true
  | _ => false

theorem Sys.Reaching.deaf {x : Sys} (h : x.Reaching) (hp : x.phase.isDeaf = true) :
    ∃ c ∈ x.calls, c.stage = .exchanged := by
  rcases h with h | h | h | h | h | h | ⟨w, h | h, -⟩
  · exact h
  all_goals rw [h] at hp; cases hp

/-- A notification goes by unheard only if it has not reached the waiter. -/
theorem Sys.Reaching.unready {x : Sys} {w : Notified} (h : x.Reaching)
    (hp : x.phase = .parked w ∨ x.phase = .waiting (some w)) (hw : w.ready x.notify = false) :
    ∃ c ∈ x.calls, c.stage = .exchanged := by
  rcases h with h | h | h | h | h | h | ⟨w', h', hready⟩
  · exact h
  · rcases hp with hp | hp <;> rw [hp] at h <;> cases h
  · rcases hp with hp | hp <;> rw [hp] at h <;> cases h
  · rcases hp with hp | hp <;> rw [hp] at h <;> cases h
  · rcases hp with hp | hp <;> rw [hp] at h <;> cases h
  · rcases hp with hp | hp <;> rw [hp] at h <;> cases h
  · have hsame : w' = w := by
      rcases hp with hp | hp <;> rcases h' with h' | h' <;> rw [hp] at h' <;> cases h' <;> rfl
    rw [hsame, hw] at hready
    cases hready

/-- The loop goes on to another phase, and hears what it would have heard. -/
theorem Inv.phase {x : Sys} {p : Phase} (h : Inv x) (hp : p ≠ .storing)
    (hseen : ∀ w, p = .parked w ∨ p = .waiting (some w) → x.notify.Created w)
    (hheard : x.Reaching → Sys.Reaching { x with phase := p }) : Inv { x with phase := p } :=
  ⟨hseen, fun hs hstop => hheard (h.heard hs hstop), h.asked, h.runs, h.current, fun hst => absurd hst hp, h.past⟩

/-- A notification with nobody in the loop to hear it. -/
theorem Inv.notifies {x : Sys} {p : Phase} (h : Inv x) (hx : x.phase.isDeaf = true)
    (hp : p = .busy ∨ p = .idle) : Inv { x with notify := x.notify.notifyWaiters, phase := p } := by
  refine ⟨fun w hw => ?_, fun hs hstop => Or.inl ((h.heard hs hstop).deaf hx), h.asked, h.runs, h.current,
    fun hst => ?_, h.past⟩
  · rcases hp with rfl | rfl <;> rcases hw with hw | hw <;> cases hw
  · rcases hp with rfl | rfl <;> cases hst

theorem goOn_some {x x' : Sys} {before after : Phase} (h : x.goOn before after = some x') :
    x.phase = before ∧ x' = { x with phase := after } := by
  unfold Sys.goOn at h
  split at h
  · exact ⟨‹_›, (Option.some.inj h).symm⟩
  · cases h

theorem Inv.next {x x' : Sys} {item : Next} (h : Inv x) (ht : timely x (.next item)) (hs : x.next item = some x') :
    Inv x' := by
  unfold Sys.next at hs
  dsimp only at hs
  split at hs
  · rename_i hp
    have hdeaf : x.phase.isDeaf = true := by rw [hp]; rfl
    cases hs
    cases item with
    | pending => exact h.phase nofun nofun fun hr => Or.inl (hr.deaf hdeaf)
    | update => exact h.phase nofun nofun fun hr => Or.inl (hr.deaf hdeaf)
    | ended => exact h.phase nofun nofun fun hr => Or.inl (hr.deaf hdeaf)
  · rename_i w hp
    cases hs
    cases item with
    | pending =>
      refine h.phase nofun (fun w' hw' => ?_) fun hr => ?_
      · rcases hw' with hw' | hw' <;> cases hw'
        exact h.seen w (Or.inl hp)
      · cases hready : w.ready x.notify with
        | true => exact Or.inr (Or.inr (Or.inr (Or.inr (Or.inr (Or.inr ⟨w, Or.inr rfl, hready⟩)))))
        | false => exact Or.inl (hr.unready (Or.inl hp) hready)
    | update =>
      have hready : w.ready x.notify = false := by
        have hnotified : x.notified = false := ht
        rwa [Sys.notified, hp] at hnotified
      exact h.phase nofun nofun fun hr => Or.inl (hr.unready (Or.inl hp) hready)
    | ended => exact h.phase nofun nofun fun _ => Or.inr (Or.inr (Or.inl rfl))
  · cases hs

theorem Inv.wait {x x' : Sys} (h : Inv x) (hs : x.wait = some x') : Inv x' := by
  unfold Sys.wait at hs
  split at hs
  · rename_i hp
    cases hs
    refine h.phase nofun (fun w hw => ?_) fun hr => Or.inl (hr.deaf (by rw [hp]; rfl))
    rcases hw with hw | hw <;> cases hw
    exact x.notify.created_notified
  · rename_i w hp
    cases hs
    cases hready : w.ready x.notify with
    | true => exact h.phase nofun nofun fun _ => Or.inr (Or.inl rfl)
    | false =>
      refine h.phase nofun (fun w' hw' => ?_) fun hr => Or.inl (hr.unready (Or.inr hp) hready)
      rcases hw' with hw' | hw' <;> cases hw'
      exact h.seen w (Or.inr hp)
  · cases hs

theorem Inv.look {x x' : Sys} (h : Inv x) (hs : x.look = some x') : Inv x' := by
  unfold Sys.look at hs
  split at hs
  · cases hs
    refine ⟨nofun, fun hs hstop => ?_, h.asked, h.runs, h.current, nofun, h.past⟩
    rw [show x.state = .shuttingDown from hs] at hstop
    simp at hstop
  · cases hs

/-- Without a shutdown, no call of this run waits for `done`. -/
theorem Inv.load {x x' : Sys} (h : Inv x) (hs : x.load = some x') : Inv x' := by
  obtain ⟨hp, rfl⟩ := goOn_some hs
  by_cases hstate : x.state = .shuttingDown
  · rw [if_pos hstate]
    exact h.phase nofun nofun fun _ => Or.inr (Or.inr (Or.inr (Or.inr (Or.inl rfl))))
  · rw [if_neg hstate]
    refine ⟨nofun, fun hs => absurd hs hstate, h.asked, h.runs, h.current, fun _ c hc hrun => ?_, h.past⟩
    cases hstage : c.stage with
    | refused => rfl
    | _ => exact absurd (h.current c hc hrun (by rw [hstage]; nofun)) hstate

/-- `done` notifies every future of this run. -/
theorem Inv.notifyBackWaiters {x x' : Sys} (h : Inv x) (ht : timely x .notifyBack)
    (hs : x.notifyBackWaiters = some x') : Inv x' := by
  obtain ⟨hp, rfl⟩ := goOn_some hs
  have hlater {stage : CallStage} (hs : stage.settled x.notifyBack = true) :
      stage.settled x.notifyBack.notifyWaiters = true := by
    cases stage with
    | waiting w => exact Notify.ready_later hs
    | _ => exact hs
  refine ⟨nofun, fun _ _ => Or.inr (Or.inr (Or.inr (Or.inr (Or.inr (Or.inl rfl))))),
    fun c hc w hw => (h.asked c hc w hw).notifyWaiters, h.runs, h.current, fun _ c hc hrun => ?_,
    fun c hc hrun => hlater (h.past c hc hrun)⟩
  obtain ⟨hexchanged, hreturned⟩ := ht c hc hrun
  cases hstage : c.stage with
  | exchanged => exact absurd hstage hexchanged
  | returned => exact absurd hstage hreturned
  | waiting w => exact Notify.ready_notifyWaiters (h.asked c hc w hstage)
  | notified | dropped | refused => rfl

theorem Inv.store {x x' : Sys} (h : Inv x) (hs : x.store = some x') : Inv x' := by
  obtain ⟨hp, rfl⟩ := goOn_some hs
  refine ⟨nofun, nofun, h.asked, fun c hc => Nat.le_succ_of_le (h.runs c hc), fun c hc hrun => ?_, nofun,
    fun c hc hrun => ?_⟩
  · have := h.runs c hc
    replace hrun : c.run = x.run + 1 := hrun
    omega
  · rcases Nat.lt_or_eq_of_le (Nat.le_of_lt_succ hrun) with hlt | heq
    · exact h.past c hc hlt
    · exact h.storing hp c hc heq

theorem Inv.start {x x' : Sys} (h : Inv x) (hs : x.start = some x') : Inv x' := by
  unfold Sys.start at hs
  split at hs
  · rename_i hidle
    cases hs
    refine ⟨nofun, nofun, h.asked, h.runs, fun c hc hrun hr => ?_, nofun, h.past⟩
    have := h.current c hc hrun hr
    rw [hidle.2] at this
    cases this
  · cases hs

/-- Every timely step. -/
theorem Inv.step {x x' : Sys} {m : Action} {e : Unit} (h : Inv x) (ht : timely x m) (hs : x.step m = some (x', e)) :
    Inv x' := by
  have hmap {o : Option Sys} (ho : o.map (·, ()) = some (x', e)) : o = some x' := by
    obtain ⟨y, hy, heq⟩ := Option.map_eq_some_iff.1 ho
    cases heq
    exact hy
  cases m with
  | shutdown =>
    cases hs
    exact h.shutdown ht
  | notify call => exact h.notifyChange ht (hmap hs)
  | pollFuture call =>
    have hpoll := hmap hs
    unfold Sys.pollFuture at hpoll
    split at hpoll
    · rename_i run hc
      cases hpoll
      refine h.setStage hc nofun nofun nofun fun w hw => ?_
      cases hw
      exact x.notifyBack.created_notified
    · rename_i run w hc
      split at hpoll
      · cases hpoll
        exact h.setStage hc nofun nofun (fun _ => rfl) nofun
      · cases hpoll
        exact h
    · cases hpoll
  | dropFuture call =>
    have hdrop := hmap hs
    unfold Sys.dropFuture at hdrop
    split at hdrop
    · rename_i run hc
      cases hdrop
      exact h.setStage hc nofun nofun (fun _ => rfl) nofun
    · rename_i run w hc
      cases hdrop
      exact h.setStage hc nofun nofun (fun _ => rfl) nofun
    · cases hdrop
  | start => exact h.start (hmap hs)
  | started =>
    obtain ⟨hp, rfl⟩ := goOn_some (hmap hs)
    exact h.notifies (show x.phase.isDeaf = true by rw [show x.phase = .starting from hp]; rfl) (Or.inl rfl)
  | select =>
    obtain ⟨hp, rfl⟩ := goOn_some (hmap hs)
    exact h.phase nofun nofun fun hr => Or.inl (hr.deaf (by rw [hp]; rfl))
  | next item => exact h.next ht (hmap hs)
  | wait => exact h.wait (hmap hs)
  | look => exact h.look (hmap hs)
  | drained =>
    obtain ⟨hp, rfl⟩ := goOn_some (hmap hs)
    exact h.phase nofun nofun fun _ => Or.inr (Or.inr (Or.inr (Or.inl rfl)))
  | load => exact h.load (hmap hs)
  | notifyBack => exact h.notifyBackWaiters ht (hmap hs)
  | store => exact h.store (hmap hs)
  | notifyStore =>
    obtain ⟨hp, rfl⟩ := goOn_some (hmap hs)
    exact h.notifies (show x.phase.isDeaf = true by rw [show x.phase = .stored from hp]; rfl) (Or.inr rfl)

theorem inv_new : Inv .new :=
  ⟨nofun, nofun, fun _ hc => (nomatch hc), fun _ hc => (nomatch hc), fun _ hc => (nomatch hc), nofun,
    fun _ hc => (nomatch hc)⟩

/-- In a run of timely steps no shutdown is lost, on either side. -/
theorem shutdown_never_lost {τ : List Unit} {x : Sys} (hr : Run timely τ x) : x.Heard ∧ x.Answered := by
  have hinv : Inv x := Machine.Run.induct (I := fun _ => Inv) (fun x hx => by rw [show x = .new from hx]; exact inv_new)
    (fun _ _ _ _ _ _ h ht hs => h.step ht hs) hr
  exact hinv.neverLost

/-- The loop is parked for the first time. -/
def parkedLoop : List Action := [.start, .started, .select, .next .pending, .wait]

/-- The loop wakes up, stops the listener and comes to its end. -/
def stopAndEnd : List Action :=
  [.next .pending, .wait, .look, .select, .next .ended, .drained, .load, .notifyBack, .store]

theorem shutdown_never_lost_polled :
    ∃ τ x, Run timely τ x ∧ x.calls = [⟨0, .waiting ⟨0⟩⟩] ∧ x.run = 1 ∧ x.Heard ∧ x.Answered := by
  have h : (dispatcher.exec timely [] .new (parkedLoop ++ [.shutdown, .notify 0, .pollFuture 0] ++ stopAndEnd)).map
      (fun r => (r.2.calls, r.2.run)) = some ([⟨0, .waiting ⟨0⟩⟩], 1) := by decide
  obtain ⟨⟨τ, x⟩, he, hs⟩ := Option.map_eq_some_iff.mp h
  obtain ⟨hcalls, hrun⟩ := Prod.mk.inj hs
  have hr : Run timely τ x := Machine.run_of_exec (.start rfl) he
  exact ⟨τ, x, hr, hcalls, hrun, shutdown_never_lost hr⟩

/-- A shutdown during the work on an update, after which the loop parks. -/
def unheardRun : List Action := [.start, .started, .shutdown, .notify 0, .select, .next .pending, .wait]

/-- A future that is first polled when the dispatcher is done. -/
def unansweredRun : List Action := parkedLoop ++ [.shutdown, .notify 0] ++ stopAndEnd

/-- Both kinds of shutdowns are lost. -/
theorem shutdown_lost : (∃ τ x, Run Machine.anything τ x ∧ ¬ x.Heard) ∧
    ∃ τ x, Run Machine.anything τ x ∧ ¬ x.Answered := by
  constructor
  · have h : (dispatcher.exec Machine.anything [] .new unheardRun).map (·.2) =
        some ⟨.shuttingDown, ⟨2⟩, ⟨0⟩, .parked ⟨2⟩, false, [⟨0, .returned⟩], 0⟩ := by decide
    obtain ⟨⟨τ, x⟩, he, rfl⟩ := Option.map_eq_some_iff.mp h
    refine ⟨τ, _, Machine.run_of_exec (.start rfl) he, fun hheard => ?_⟩
    rcases hheard ⟨2⟩ rfl rfl rfl ⟨_, List.mem_cons_self, rfl⟩ with hready | ⟨c, hc, hstage⟩
    · cases hready
    · cases List.mem_singleton.1 hc
      cases hstage
  · have h : (dispatcher.exec Machine.anything [] .new unansweredRun).map (·.2) =
        some ⟨.idle, ⟨2⟩, ⟨1⟩, .stored, true, [⟨0, .returned⟩], 1⟩ := by decide
    obtain ⟨⟨τ, x⟩, he, rfl⟩ := Option.map_eq_some_iff.mp h
    refine ⟨τ, _, Machine.run_of_exec (.start rfl) he, fun hanswered => ?_⟩
    cases hanswered ⟨0, .returned⟩ List.mem_cons_self Nat.one_pos rfl

end Teloxide.Dispatching
