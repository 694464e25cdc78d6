import Mathlib
import Teloxide.Core.Fair
import Teloxide.Core.Table

/-!
# The dispatcher and its workers

The loop of `start_listening` with `process_update`, `try_dispatch_update` and
`remove_inactive_workers`, and the worker tasks it spawns
(`crates/teloxide/src/dispatching/dispatcher.rs:460-847`), as one state machine
in which every task takes its steps on its own.

* An update is known by its place among those taken from the listener. What the
  distribution function makes of it, and whether it could be parsed, is up to
  the run.
* A worker's task keeps its queue and what it works on when it terminates: that
  is what is lost with it.
* The sender of a worker lives where its `Worker` is: in the table, as the
  default worker, or on the stack of `try_dispatch_update`.
* `is_waiting`, the capacity of a channel and the largest number of active
  workers are read while they change. A read gives any value they have had.
-/
namespace Teloxide.Dispatching.Workers

open Teloxide.Core

/-- The values that an atomic has had, newest first. -/
structure Atomic (V : Type) where
  values : List V

namespace Atomic

variable {V : Type}

def new (v : V) : Atomic V := ⟨[v]⟩

def store (a : Atomic V) (v : V) : Atomic V := ⟨v :: a.values⟩

/-- A load with relaxed ordering may give an old value. -/
def Reads (a : Atomic V) (v : V) : Prop := v ∈ a.values

instance [DecidableEq V] (a : Atomic V) (v : V) : Decidable (a.Reads v) := inferInstanceAs (Decidable (_ ∈ _))

end Atomic

variable {K : Type}

structure Update (K : Type) where
  number : Nat
  key : Option K
  deriving DecidableEq, Repr

/-- mirrors dispatcher.rs:992-1005 -/
inductive Termination where
  | panicked
  | cancelled
  | finished
  deriving DecidableEq, Repr

/-- Where a worker's task stands. The default worker is always `concurrent`; the
other stages are those of the loop of a keyed worker.
mirrors dispatcher.rs:815-844, 861-883 -/
inductive Stage (K : Type) where
  | receiving
  | received (update : Update K)
  | marked (update : Update K)
  | handling (update : Update K)
  | handled
  | concurrent (running : List (Update K))
  deriving DecidableEq, Repr

/-- `capacity` is that of the channel. -/
structure Task (K : Type) where
  key : Option K
  queue : List (Update K)
  stage : Stage K
  isWaiting : Atomic Bool
  capacity : Atomic Nat
  termination : Option Termination

/-- Where the loop stands. From `dispatching` to `burying` it holds an update,
and the termination of the first worker when it tries for the second time.
mirrors dispatcher.rs:474-501, 505-642, 684-760 -/
inductive Phase (K : Type) where
  | idle
  | clearing
  | removing (keys : List K)
  | awaiting (keys : List K) (task : Nat)
  | selecting
  | dispatching (update : Update K) (first : Option Termination)
  | sending (update : Update K) (task : Nat) (first : Option Termination)
  | burying (update : Update K) (task : Nat) (first : Option Termination)
  | closing (tasks : List Nat)
  | panicked (update : Update K)
  deriving DecidableEq, Repr

structure Sys (K : Type) [DecidableEq K] where
  tasks : List (Task K)
  workers : Table K Nat
  defaultWorker : Option Nat
  phase : Phase K
  taken : Nat
  maxActive : Atomic Nat

/-- What the listener yields, and what `process_update` finds in it.
mirrors dispatcher.rs:513-567 -/
inductive Item (K : Type) where
  | error
  | malformed
  | unroutable
  | update (key : Option K)
  deriving DecidableEq, Repr

inductive TaskAction (K : Type) where
  | receive
  | mark
  | start
  | finish
  | rest
  | complete (update : Update K)
  | stop
  | die (termination : Termination)
  deriving DecidableEq, Repr

/-- `seen` is what the loop reads of the capacity and of `is_waiting` of the
worker of a key. -/
inductive Action (K : Type) where
  | listen
  | clear (max : Nat) (seen : K → Nat × Bool)
  | remove (key : K)
  | awaited
  | removed
  | next (item : Item K)
  | wake
  | ended
  | dispatch
  | send
  | bury
  | closed
  | task (task : Nat) (action : TaskAction K)

/-- `accepted` carries the termination that is reported, if any. -/
inductive Event (K : Type) where
  | taken (update : Update K)
  | rejected (number : Nat)
  | accepted (update : Update K) (task : Nat) (reported : Option Termination)
  | undeliverable (update : Update K) (first retry : Termination)
  | began (update : Update K) (task : Nat)
  | finished (update : Update K) (task : Nat)
  | died (task : Nat) (termination : Termination)
  | removed (task : Nat) (termination : Termination)
  | quiet
  deriving DecidableEq, Repr

/-! ## The workers -/

namespace Stage

/-- What was received and is not handled yet. -/
def unbegun : Stage K → List (Update K)
  | .received u | .marked u => [u]
  | _ => []

def running : Stage K → List (Update K)
  | .handling u => [u]
  | .concurrent running => running
  | _ => []

/-- The guard that counts active workers lives.
mirrors dispatcher.rs:818-842 -/
def active : Stage K → Bool
  | .handling _ | .handled => true
  | _ => false

end Stage

/-- `Semaphore::MAX_PERMITS` -/
def maxPermits : Nat := (2 ^ 64 - 1) / 8

/-- `mpsc::channel` panics at other sizes. -/
def validBuffer (size : Nat) : Bool := 0 < size && size ≤ maxPermits

namespace Task

/-- mirrors dispatcher.rs:811-813, 846, 857, 886 -/
def new (size : Nat) (key : Option K) : Task K :=
  { key
    queue := []
    stage := if key.isSome then .receiving else .concurrent []
    isWaiting := .new true
    capacity := .new size
    termination := none }

def push (size : Nat) (t : Task K) (u : Update K) : Task K :=
  { t with queue := t.queue ++ [u], capacity := t.capacity.store (size - (t.queue.length + 1)) }

/-- `rx.recv()` gives an update. The default worker begins with it at once. -/
def receive (size w : Nat) (t : Task K) : Option (Task K × Event K) :=
  match t.queue, t.stage with
  | u :: queue, .receiving =>
    some ({ t with queue, stage := .received u, capacity := t.capacity.store (size - queue.length) }, .quiet)
  | u :: queue, .concurrent running =>
    some ({ t with queue, stage := .concurrent (running ++ [u]), capacity := t.capacity.store (size - queue.length) },
      .began u w)
  | _, _ => none

/-- mirrors dispatcher.rs:817 -/
def mark (t : Task K) : Option (Task K × Event K) :=
  match t.stage with
  | .received u => some ({ t with stage := .marked u, isWaiting := t.isWaiting.store false }, .quiet)
  | _ => none

/-- mirrors dispatcher.rs:818-838 -/
def start (w : Nat) (t : Task K) : Option (Task K × Event K) :=
  match t.stage with
  | .marked u => some ({ t with stage := .handling u }, .began u w)
  | _ => none

/-- The handler returns, or panics and the panic is reported.
mirrors dispatcher.rs:911-942 -/
def finish (w : Nat) (t : Task K) : Option (Task K × Event K) :=
  match t.stage with
  | .handling u => some ({ t with stage := .handled }, .finished u w)
  | _ => none

/-- mirrors dispatcher.rs:841-842 -/
def rest (t : Task K) : Option (Task K × Event K) :=
  match t.stage with
  | .handled => some ({ t with stage := .receiving, isWaiting := t.isWaiting.store true }, .quiet)
  | _ => none

section

variable [DecidableEq K]

/-- One of the handlers that run concurrently returns. -/
def complete (w : Nat) (t : Task K) (u : Update K) : Option (Task K × Event K) :=
  match t.stage with
  | .concurrent running =>
    if u ∈ running then some ({ t with stage := .concurrent (running.erase u) }, .finished u w) else none
  | _ => none

/-- `rx.recv()` gives `None`. -/
def stop (w : Nat) (t : Task K) : Option (Task K × Event K) :=
  if t.queue = [] ∧ (t.stage = .receiving ∨ t.stage = .concurrent []) then
    some ({ t with termination := some .finished }, .died w .finished)
  else none

/-- The task is aborted, or panics outside of a handler. -/
def die (w : Nat) (t : Task K) (termination : Termination) : Option (Task K × Event K) :=
  if termination = .finished then none else some ({ t with termination := some termination }, .died w termination)

def step (size w : Nat) (t : Task K) : TaskAction K → Option (Task K × Event K)
  | .receive => t.receive size w
  | .mark => t.mark
  | .start => t.start w
  | .finish => t.finish w
  | .rest => t.rest
  | .complete u => t.complete w u
  | .stop => t.stop w
  | .die termination => t.die w termination

end

end Task

/-! ## The loop -/

namespace Sys

variable [DecidableEq K]

/-- The number of the guards that live. -/
def active (x : Sys K) : Nat := x.tasks.countP fun t => t.termination.isNone && t.stage.active

/-- The sender of the worker has not been dropped. -/
def Holds (x : Sys K) (w : Nat) : Prop :=
  w ∈ x.workers.values ∨ x.defaultWorker = some w ∨
    match x.phase with
    | .sending _ v _ | .burying _ v _ => w = v
    | _ => False

instance (x : Sys K) (w : Nat) : Decidable (x.Holds w) := by
  unfold Holds
  cases x.phase <;> infer_instance

/-- A step of a worker's task. It can stop only when its channel is closed. -/
def onTask (size : Nat) (x : Sys K) (w : Nat) (action : TaskAction K) : Option (Sys K × Event K) :=
  match x.tasks[w]? with
  | some t =>
    if t.termination = none ∧ (action = .stop → ¬x.Holds w) then
      (t.step size w action).map fun r =>
        ({ x with
            tasks := x.tasks.set w r.1
            maxActive := if action = .start then x.maxActive.store (x.active + 1) else x.maxActive }, r.2)
    else none
  | none => none

/-- mirrors dispatcher.rs:684-705 -/
def clear (size : Nat) (x : Sys K) (max : Nat) (seen : K → Nat × Bool) : Option (Sys K) :=
  match x.phase with
  | .clearing =>
    let inactive (k : K) : Bool := (seen k).1 = size && (seen k).2
    let readable (e : (_ : K) × Nat) : Bool :=
      match x.tasks[e.2]? with
      | some t => t.capacity.Reads (seen e.1).1 && t.isWaiting.Reads (seen e.1).2
      | none => false
    if x.maxActive.Reads max ∧ x.workers.entries.all readable then
      some { x with phase := if x.workers.size ≤ max then .selecting else .removing (x.workers.keys.filter inactive) }
    else none
  | _ => none

/-- The worker's sender is dropped.
mirrors dispatcher.rs:706-715 -/
def remove (x : Sys K) (k : K) : Option (Sys K) :=
  match x.phase with
  | .removing keys =>
    if k ∈ keys then
      match x.workers.lookup k with
      | some w => some { x with workers := x.workers.erase k, phase := .awaiting (keys.erase k) w }
      | none => none
    else none
  | _ => none

/-- mirrors dispatcher.rs:717-734 -/
def awaited (x : Sys K) : Option (Sys K × Event K) :=
  match x.phase with
  | .awaiting keys w =>
    match x.tasks[w]? with
    | some t => t.termination.map fun termination => ({ x with phase := .removing keys }, .removed w termination)
    | none => none
  | _ => none

/-- mirrors dispatcher.rs:505-567 -/
def next (x : Sys K) (item : Item K) : Option (Sys K × Event K) :=
  match x.phase with
  | .selecting =>
    match item with
    | .error => some ({ x with phase := .clearing }, .quiet)
    | .malformed | .unroutable => some ({ x with phase := .clearing, taken := x.taken + 1 }, .rejected x.taken)
    | .update key =>
      some ({ x with phase := .dispatching ⟨x.taken, key⟩ none, taken := x.taken + 1 }, .taken ⟨x.taken, key⟩)
  | _ => none

def lookupWorker (x : Sys K) : Option K → Option Nat
  | some k => x.workers.lookup k
  | none => x.defaultWorker

/-- Takes the worker out, to send to it. -/
def takeWorker (x : Sys K) : Option K → Sys K
  | some k => { x with workers := x.workers.erase k }
  | none => { x with defaultWorker := none }

def putWorker (x : Sys K) (w : Nat) : Option K → Sys K
  | some k => { x with workers := x.workers.insert k w }
  | none => { x with defaultWorker := some w }

/-- mirrors dispatcher.rs:607-622 -/
def dispatch (size : Nat) (x : Sys K) : Option (Sys K) :=
  match x.phase with
  | .dispatching u first =>
    match x.lookupWorker u.key with
    | some w => some { x.takeWorker u.key with phase := .sending u w first }
    | none =>
      if validBuffer size then
        some { x with tasks := x.tasks ++ [.new size u.key], phase := .sending u x.tasks.length first }
      else
        some { x with phase := .panicked u }
  | _ => none

/-- mirrors dispatcher.rs:569-582, 624-640 -/
def send (size : Nat) (x : Sys K) : Option (Sys K × Event K) :=
  match x.phase with
  | .sending u w first =>
    match x.tasks[w]? with
    | some t =>
      if t.termination = none then
        if t.queue.length < size then
          some ({ x.putWorker w u.key with tasks := x.tasks.set w (t.push size u), phase := .clearing },
            .accepted u w first)
        else none
      else some ({ x with phase := .burying u w first }, .quiet)
    | none => none
  | _ => none

/-- mirrors dispatcher.rs:583-597, 639 -/
def bury (x : Sys K) : Option (Sys K × Event K) :=
  match x.phase with
  | .burying u w first =>
    match x.tasks[w]? with
    | some t =>
      t.termination.map fun termination =>
        match first with
        | none => ({ x with phase := .dispatching u (some termination) }, .quiet)
        | some first => ({ x with phase := .clearing }, .undeliverable u first termination)
    | none => none
  | _ => none

/-- All workers are taken out and their senders dropped.
mirrors dispatcher.rs:740-747 -/
def ended (x : Sys K) : Option (Sys K) :=
  match x.phase with
  | .selecting =>
    some { x with
      workers := ∅
      defaultWorker := none
      phase := .closing (x.workers.values ++ x.defaultWorker.toList) }
  | _ => none

/-- mirrors dispatcher.rs:749-760 -/
def closed (x : Sys K) : Option (Sys K) :=
  match x.phase with
  | .closing ws =>
    if ∀ w ∈ ws, ∃ t ∈ x.tasks[w]?, t.termination ≠ none then some { x with phase := .idle } else none
  | _ => none

def goOn (x : Sys K) (before after : Phase K) : Option (Sys K) :=
  if x.phase = before then some { x with phase := after } else none

def step (size : Nat) (x : Sys K) : Action K → Option (Sys K × Event K)
  | .listen => (x.goOn .idle .clearing).map (·, .quiet)
  | .clear max seen => (x.clear size max seen).map (·, .quiet)
  | .remove k => (x.remove k).map (·, .quiet)
  | .awaited => x.awaited
  | .removed => (x.goOn (.removing []) .selecting).map (·, .quiet)
  | .next item => x.next item
  | .wake => (x.goOn .selecting .clearing).map (·, .quiet)
  | .ended => x.ended.map (·, .quiet)
  | .dispatch => (x.dispatch size).map (·, .quiet)
  | .send => x.send size
  | .bury => x.bury
  | .closed => x.closed.map (·, .quiet)
  | .task w action => x.onTask size w action

/-- mirrors dispatcher.rs:272-290 -/
def new : Sys K := ⟨[], ∅, none, .idle, 0, .new 0⟩

end Sys

/-- The dispatcher with workers whose queues have room for `size` updates. -/
def dispatcher (K : Type) [DecidableEq K] (size : Nat) : Machine (Sys K) (Action K) (Event K) where
  init x := x = .new
  step := Sys.step size

abbrev Run [DecidableEq K] (size : Nat) (τ : List (Event K)) (x : Sys K) : Prop :=
  (dispatcher K size).Run Machine.anything τ x

/-! ## What a step can do -/

section Moves

variable [DecidableEq K]

/-- The branches of `Sys.step`. -/
inductive Moves (size : Nat) (x : Sys K) : Action K → Sys K → Event K → Prop
  | task {w t action t' e} (maxActive) : x.tasks[w]? = some t → t.termination = none → (action = .stop → ¬x.Holds w) →
      t.step size w action = some (t', e) →
      Moves size x (.task w action) { x with tasks := x.tasks.set w t', maxActive } e
  | listen : x.phase = .idle → Moves size x .listen { x with phase := .clearing } .quiet
  | full {max seen} : x.phase = .clearing → Moves size x (.clear max seen) { x with phase := .selecting } .quiet
  | clear {max seen} (inactive) : x.phase = .clearing →
      Moves size x (.clear max seen) { x with phase := .removing (x.workers.keys.filter inactive) } .quiet
  | remove {keys k w} : x.phase = .removing keys → k ∈ keys → x.workers.lookup k = some w →
      Moves size x (.remove k) { x with workers := x.workers.erase k, phase := .awaiting (keys.erase k) w } .quiet
  | awaited {keys w t d} : x.phase = .awaiting keys w → x.tasks[w]? = some t → t.termination = some d →
      Moves size x .awaited { x with phase := .removing keys } (.removed w d)
  | removed : x.phase = .removing [] → Moves size x .removed { x with phase := .selecting } .quiet
  | error : x.phase = .selecting → Moves size x (.next .error) { x with phase := .clearing } .quiet
  | reject {item} : x.phase = .selecting → item = .malformed ∨ item = .unroutable →
      Moves size x (.next item) { x with phase := .clearing, taken := x.taken + 1 } (.rejected x.taken)
  | take {key} : x.phase = .selecting →
      Moves size x (.next (.update key))
        { x with phase := .dispatching ⟨x.taken, key⟩ none, taken := x.taken + 1 } (.taken ⟨x.taken, key⟩)
  | wake : x.phase = .selecting → Moves size x .wake { x with phase := .clearing } .quiet
  | ended : x.phase = .selecting →
      Moves size x .ended
        { x with
          workers := ∅
          defaultWorker := none
          phase := .closing (x.workers.values ++ x.defaultWorker.toList) } .quiet
  | reuse {u first w} : x.phase = .dispatching u first → x.lookupWorker u.key = some w →
      Moves size x .dispatch { x.takeWorker u.key with phase := .sending u w first } .quiet
  | spawn {u first} : x.phase = .dispatching u first → x.lookupWorker u.key = none → validBuffer size = true →
      Moves size x .dispatch
        { x with tasks := x.tasks ++ [.new size u.key], phase := .sending u x.tasks.length first } .quiet
  | panic {u first} : x.phase = .dispatching u first → validBuffer size = false →
      Moves size x .dispatch { x with phase := .panicked u } .quiet
  | accept {u w first t} : x.phase = .sending u w first → x.tasks[w]? = some t → t.termination = none →
      t.queue.length < size →
      Moves size x .send { x.putWorker w u.key with tasks := x.tasks.set w (t.push size u), phase := .clearing }
        (.accepted u w first)
  | refuse {u w first t d} : x.phase = .sending u w first → x.tasks[w]? = some t → t.termination = some d →
      Moves size x .send { x with phase := .burying u w first } .quiet
  | retry {u w t d} : x.phase = .burying u w none → x.tasks[w]? = some t → t.termination = some d →
      Moves size x .bury { x with phase := .dispatching u (some d) } .quiet
  | giveUp {u w first t d} : x.phase = .burying u w (some first) → x.tasks[w]? = some t → t.termination = some d →
      Moves size x .bury { x with phase := .clearing } (.undeliverable u first d)
  | closed {ws} : x.phase = .closing ws → (∀ w ∈ ws, ∃ t, x.tasks[w]? = some t ∧ t.termination ≠ none) →
      Moves size x .closed { x with phase := .idle } .quiet

variable {size : Nat} {x x' : Sys K} {a : Action K} {e : Event K}

theorem goOn_some {before after : Phase K} (h : (x.goOn before after).map (·, Event.quiet) = some (x', e)) :
    x.phase = before ∧ x' = { x with phase := after } ∧ e = .quiet := by
  obtain ⟨y, hy, heq⟩ := Option.map_eq_some_iff.mp h
  cases heq
  rw [Sys.goOn, Option.ite_none_right_eq_some] at hy
  exact ⟨hy.1, (Option.some.inj hy.2).symm, rfl⟩

theorem moves_of_step (hs : x.step size a = some (x', e)) : Moves size x a x' e := by
  cases a with
  | task w action =>
    simp only [Sys.step, Sys.onTask] at hs
    split at hs
    · rename_i t ht
      split at hs
      · rename_i hguard
        obtain ⟨r, hr, heq⟩ := Option.map_eq_some_iff.mp hs
        cases heq
        exact .task _ ht hguard.1 hguard.2 hr
      · cases hs
    · cases hs
  | listen =>
    obtain ⟨hphase, rfl, rfl⟩ := goOn_some hs
    exact .listen hphase
  | removed =>
    obtain ⟨hphase, rfl, rfl⟩ := goOn_some hs
    exact .removed hphase
  | wake =>
    obtain ⟨hphase, rfl, rfl⟩ := goOn_some hs
    exact .wake hphase
  | clear max seen =>
    obtain ⟨y, hy, heq⟩ := Option.map_eq_some_iff.mp hs
    cases heq
    unfold Sys.clear at hy
    split at hy
    · rename_i hphase
      obtain ⟨-, hy⟩ := Option.ite_none_right_eq_some.mp hy
      cases hy
      split
      · exact .full hphase
      · exact .clear _ hphase
    · cases hy
  | remove k =>
    obtain ⟨y, hy, heq⟩ := Option.map_eq_some_iff.mp hs
    cases heq
    unfold Sys.remove at hy
    split at hy
    · rename_i keys hphase
      obtain ⟨hk, hy⟩ := Option.ite_none_right_eq_some.mp hy
      split at hy
      · rename_i w hw
        cases hy
        exact .remove hphase hk hw
      · cases hy
    · cases hy
  | awaited =>
    simp only [Sys.step, Sys.awaited] at hs
    split at hs
    · rename_i keys w hphase
      split at hs
      · rename_i t ht
        obtain ⟨d, hd, heq⟩ := Option.map_eq_some_iff.mp hs
        cases heq
        exact .awaited hphase ht hd
      · cases hs
    · cases hs
  | next item =>
    simp only [Sys.step, Sys.next] at hs
    split at hs
    · rename_i hphase
      cases item <;> cases hs
      · exact .error hphase
      · exact .reject hphase (.inl rfl)
      · exact .reject hphase (.inr rfl)
      · exact .take hphase
    · cases hs
  | ended =>
    obtain ⟨y, hy, heq⟩ := Option.map_eq_some_iff.mp hs
    cases heq
    unfold Sys.ended at hy
    split at hy
    · rename_i hphase
      cases hy
      exact .ended hphase
    · cases hy
  | dispatch =>
    obtain ⟨y, hy, heq⟩ := Option.map_eq_some_iff.mp hs
    cases heq
    unfold Sys.dispatch at hy
    split at hy
    · rename_i u first hphase
      split at hy
      · rename_i w hw
        cases hy
        exact .reuse hphase hw
      · rename_i hw
        split at hy <;> cases hy
        · rename_i hvalid
          exact .spawn hphase hw hvalid
        · rename_i hvalid
          exact .panic hphase (Bool.eq_false_iff.mpr hvalid)
    · cases hy
  | send =>
    simp only [Sys.step, Sys.send] at hs
    split at hs
    · rename_i u w first hphase
      split at hs
      · rename_i t ht
        split at hs
        · rename_i halive
          obtain ⟨hroom, hs⟩ := Option.ite_none_right_eq_some.mp hs
          cases hs
          exact .accept hphase ht halive hroom
        · rename_i hdead
          obtain ⟨d, hd⟩ := Option.ne_none_iff_exists'.mp hdead
          cases hs
          exact .refuse hphase ht hd
      · cases hs
    · cases hs
  | bury =>
    simp only [Sys.step, Sys.bury] at hs
    split at hs
    · rename_i u w first hphase
      split at hs
      · rename_i t ht
        obtain ⟨d, hd, heq⟩ := Option.map_eq_some_iff.mp hs
        cases first <;> cases heq
        · exact .retry hphase ht hd
        · exact .giveUp hphase ht hd
      · cases hs
    · cases hs
  | closed =>
    obtain ⟨y, hy, heq⟩ := Option.map_eq_some_iff.mp hs
    cases heq
    unfold Sys.closed at hy
    split at hy
    · rename_i ws hphase
      obtain ⟨hall, hy⟩ := Option.ite_none_right_eq_some.mp hy
      cases hy
      exact .closed hphase fun w hw => hall w hw
    · cases hy

end Moves

end Teloxide.Dispatching.Workers
