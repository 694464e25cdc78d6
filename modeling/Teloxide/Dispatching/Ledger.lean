import Teloxide.Dispatching.Workers

/-!
# What has become of the updates

Two accounts of a run of the dispatcher, each kept by every step:

* `Ledger`: for each worker, what it accepted against its queue, what it works
  on and what it has handled.
* `Placed`: what was taken from the listener, in order, against what was
  accepted by a worker or reported.
-/
namespace Teloxide.Dispatching.Workers

open Teloxide.Core

variable {K : Type}

/-! ## Looking back on a run -/

namespace Event

/-- The task whose account an event is in. -/
def task : Event K → Option Nat
  | .accepted _ w _ | .began _ w | .finished _ w | .died w _ => some w
  | _ => none

def acceptedBy (w : Nat) : Event K → Option (Update K)
  | .accepted u v _ => if v = w then some u else none
  | _ => none

def begunBy (w : Nat) : Event K → Option (Update K)
  | .began u v => if v = w then some u else none
  | _ => none

def finishedBy (w : Nat) : Event K → Option (Update K)
  | .finished u v => if v = w then some u else none
  | _ => none

def begun : Event K → Option (Update K)
  | .began u _ => some u
  | _ => none

def handled : Event K → Option (Update K)
  | .finished u _ => some u
  | _ => none

/-- An update that got a key. -/
def routed : Event K → Option (Update K)
  | .taken u => some u
  | _ => none

/-- An update that a worker accepted or that was reported. -/
def placed : Event K → Option (Update K)
  | .accepted u _ _ | .undeliverable u _ _ => some u
  | _ => none

/-- The number of an update that was taken from the listener. -/
def arrival : Event K → Option Nat
  | .taken u => some u.number
  | .rejected n => some n
  | _ => none

variable {e : Event K} {w : Nat}

theorem skip (h : e.task ≠ some w) :
    e.acceptedBy w = none ∧ e.begunBy w = none ∧ e.finishedBy w = none ∧ ∀ d, e ≠ .died w d := by
  cases e <;> simp_all [task, acceptedBy, begunBy, finishedBy]

theorem skip_none (h : e.task = none) : e.begun = none ∧ e.handled = none := by
  cases e <;> simp_all [task, begun, handled]

end Event

/-! What a task accepted, began and finished; newest first. -/

def accepted (w : Nat) (τ : List (Event K)) : List (Update K) := τ.filterMap (·.acceptedBy w)

def begun (w : Nat) (τ : List (Event K)) : List (Update K) := τ.filterMap (·.begunBy w)

def finished (w : Nat) (τ : List (Event K)) : List (Update K) := τ.filterMap (·.finishedBy w)

section Lists

variable {τ : List (Event K)} {e : Event K} {w : Nat} {u : Update K}

@[simp] theorem accepted_cons : accepted w (e :: τ) = (e.acceptedBy w).toList ++ accepted w τ := by
  rw [accepted, List.filterMap_cons]
  cases e.acceptedBy w <;> rfl

@[simp] theorem begun_cons : begun w (e :: τ) = (e.begunBy w).toList ++ begun w τ := by
  rw [begun, List.filterMap_cons]
  cases e.begunBy w <;> rfl

@[simp] theorem finished_cons : finished w (e :: τ) = (e.finishedBy w).toList ++ finished w τ := by
  rw [finished, List.filterMap_cons]
  cases e.finishedBy w <;> rfl

theorem mem_accepted : u ∈ accepted w τ ↔ ∃ r, .accepted u w r ∈ τ := by
  simp only [accepted, List.mem_filterMap]
  constructor
  · rintro ⟨e, he, hu⟩
    cases e <;> simp only [Event.acceptedBy, reduceCtorEq, Option.ite_none_right_eq_some, Option.some.injEq] at hu
    obtain ⟨rfl, rfl⟩ := hu
    exact ⟨_, he⟩
  · rintro ⟨r, h⟩
    exact ⟨_, h, by simp [Event.acceptedBy]⟩

theorem mem_begun : u ∈ begun w τ ↔ .began u w ∈ τ := by
  simp only [begun, List.mem_filterMap]
  constructor
  · rintro ⟨e, he, hu⟩
    cases e <;> simp only [Event.begunBy, reduceCtorEq, Option.ite_none_right_eq_some, Option.some.injEq] at hu
    obtain ⟨rfl, rfl⟩ := hu
    exact he
  · intro h
    exact ⟨_, h, by simp [Event.begunBy]⟩

theorem mem_finished : u ∈ finished w τ ↔ .finished u w ∈ τ := by
  simp only [finished, List.mem_filterMap]
  constructor
  · rintro ⟨e, he, hu⟩
    cases e <;> simp only [Event.finishedBy, reduceCtorEq, Option.ite_none_right_eq_some, Option.some.injEq] at hu
    obtain ⟨rfl, rfl⟩ := hu
    exact he
  · intro h
    exact ⟨_, h, by simp [Event.finishedBy]⟩

/-- Where the values are distinct, so are the entries they come from. -/
theorem eq_of_filterMap_nodup {α β : Type} {f : α → Option β} {l : List α} (h : (l.filterMap f).Nodup) {a a' : α} {b : β}
    (ha : a ∈ l) (ha' : a' ∈ l) (hb : f a = some b) (hb' : f a' = some b) : a = a' := by
  induction l with
  | nil => cases ha
  | cons c l ih =>
    have htail : a = c → a' ∈ l → a = a' := by
      rintro rfl hl
      rw [List.filterMap_cons_some hb] at h
      exact absurd (List.mem_filterMap.mpr ⟨a', hl, hb'⟩) (List.nodup_cons.mp h).1
    have htail' : a' = c → a ∈ l → a = a' := by
      rintro rfl hl
      rw [List.filterMap_cons_some hb'] at h
      exact absurd (List.mem_filterMap.mpr ⟨a, hl, hb⟩) (List.nodup_cons.mp h).1
    obtain hc | ha := List.mem_cons.mp ha
    · obtain hc' | ha' := List.mem_cons.mp ha'
      · exact hc.trans hc'.symm
      · exact htail hc ha'
    · obtain hc' | ha' := List.mem_cons.mp ha'
      · exact htail' hc' ha
      · refine ih ?_ ha ha'
        cases hc : f c with
        | none => rwa [List.filterMap_cons_none hc] at h
        | some d =>
          rw [List.filterMap_cons_some hc] at h
          exact (List.nodup_cons.mp h).2

end Lists

/-! ## The account of a worker -/

/-- What a worker accepted is in its queue, was received, or has begun, in that
order; what has begun is running or finished. -/
structure Balanced (τ : List (Event K)) (w : Nat) (t : Task K) : Prop where
  accepted : accepted w τ = t.queue.reverse ++ t.stage.unbegun ++ begun w τ
  begun : (begun w τ).Perm (t.stage.running ++ finished w τ)
  keyed : ∀ u ∈ Workers.accepted w τ, u.key = t.key
  stage : t.key.isSome ↔ ∀ running, t.stage ≠ .concurrent running
  died : ∀ d, t.termination = some d ↔ .died w d ∈ τ
  stopped : t.termination = some .finished → t.queue = [] ∧ t.stage.unbegun = [] ∧ t.stage.running = []

structure Ledger (size : Nat) {K : Type} [DecidableEq K] (τ : List (Event K)) (x : Sys K) : Prop where
  balanced : ∀ w t, x.tasks[w]? = some t → Balanced τ w t
  known : ∀ e ∈ τ, ∀ w, e.task = some w → w < x.tasks.length
  room : x.tasks ≠ [] → 0 < size

section Ledger

variable {size w : Nat} {τ : List (Event K)} {t t' : Task K} {e : Event K}

theorem Balanced.skip (h : Balanced τ w t) (he : e.task ≠ some w) : Balanced (e :: τ) w t := by
  obtain ⟨ha, hb, hf, hd⟩ := Event.skip he
  refine ⟨?_, ?_, ?_, h.stage, fun d => ?_, h.stopped⟩
  · simpa [ha, hb] using h.accepted
  · simpa [hb, hf] using h.begun
  · simpa [ha] using h.keyed
  · rw [h.died, List.mem_cons, or_iff_right (fun heq => hd d heq.symm)]

theorem Balanced.new (key : Option K) (h : ∀ e ∈ τ, e.task ≠ some w) : Balanced τ w (.new size key) := by
  have hnone : ∀ f : Event K → Option (Update K), (∀ e ∈ τ, f e = none) → τ.filterMap f = [] :=
    fun f hf => List.filterMap_eq_nil_iff.mpr hf
  have ha : Workers.accepted w τ = [] := hnone _ fun e he => (Event.skip (h e he)).1
  have hb : Workers.begun w τ = [] := hnone _ fun e he => (Event.skip (h e he)).2.1
  have hf : Workers.finished w τ = [] := hnone _ fun e he => (Event.skip (h e he)).2.2.1
  have hd : ∀ d, .died w d ∉ τ := fun d hd => (Event.skip (h _ hd)).2.2.2 d rfl
  constructor <;> cases key <;> simp_all [Task.new, Stage.unbegun, Stage.running]

theorem Balanced.push {u : Update K} {r : Option Termination} (h : Balanced τ w t) (hkey : u.key = t.key)
    (halive : t.termination = none) : Balanced (.accepted u w r :: τ) w (t.push size u) := by
  constructor
  · simp [Event.acceptedBy, Event.begunBy, Task.push, h.accepted]
  · simpa [Event.finishedBy, Event.begunBy, Task.push] using h.begun
  · simpa [Event.acceptedBy, Task.push, hkey] using h.keyed
  · exact h.stage
  · simpa [Task.push] using h.died
  · simp [Task.push, halive]

/-- A step on the way of an update through a worker. -/
theorem Balanced.goOn {queue : List (Update K)} {stage : Stage K} {isWaiting : Atomic Bool} {capacity : Atomic Nat}
    (h : Balanced τ w t) (halive : t.termination = none) (hnone : e.acceptedBy w = none) (hd : ∀ d, e ≠ .died w d)
    (haccepted : t.queue.reverse ++ t.stage.unbegun = queue.reverse ++ stage.unbegun ++ (e.begunBy w).toList)
    (hbegun : ((e.begunBy w).toList ++ t.stage.running).Perm (stage.running ++ (e.finishedBy w).toList))
    (hstage : (∀ running, t.stage ≠ .concurrent running) ↔ ∀ running, stage ≠ .concurrent running) :
    Balanced (e :: τ) w { t with queue, stage, isWaiting, capacity } := by
  constructor
  · simp only [accepted_cons, begun_cons, hnone, Option.toList_none, List.nil_append, h.accepted, haccepted,
      List.append_assoc]
  · rw [begun_cons, finished_cons, ← List.append_assoc]
    refine (h.begun.append_left _).trans ?_
    rw [← List.append_assoc]
    exact hbegun.append_right _
  · simpa [hnone] using h.keyed
  · exact h.stage.trans hstage
  · intro d
    rw [List.mem_cons, or_iff_right (fun heq => hd d heq.symm)]
    exact h.died d
  · simp [halive]

/-- The task terminates, with what it has. -/
theorem Balanced.terminate {d : Termination} (h : Balanced τ w t) (halive : t.termination = none)
    (hstopped : d = .finished → t.queue = [] ∧ t.stage.unbegun = [] ∧ t.stage.running = []) :
    Balanced (.died w d :: τ) w { t with termination := some d } := by
  constructor
  · simpa [Event.acceptedBy, Event.begunBy] using h.accepted
  · simpa [Event.finishedBy, Event.begunBy] using h.begun
  · simpa [Event.acceptedBy] using h.keyed
  · exact h.stage
  · intro d'
    have hnever : .died w d' ∉ τ := by
      rw [← h.died, halive]
      exact nofun
    simp [hnever, eq_comm]
  · simpa using hstopped

theorem getElem?_set_cases {l : List (Task K)} {v : Nat} {s : Task K} (h : (l.set w t')[v]? = some s) :
    v = w ∧ s = t' ∨ v ≠ w ∧ l[v]? = some s := by
  rw [List.getElem?_set] at h
  split_ifs at h with hv hlt
  · cases h
    exact .inl ⟨hv.symm, rfl⟩
  · exact .inr ⟨fun heq => hv heq.symm, h⟩

variable [DecidableEq K]

/-- One step of the task itself. -/
theorem Balanced.step {a : TaskAction K} (h : Balanced τ w t) (halive : t.termination = none)
    (hs : t.step size w a = some (t', e)) : Balanced (e :: τ) w t' := by
  cases a with
  | receive =>
    simp only [Task.step, Task.receive] at hs
    split at hs
    · rename_i u queue hqueue hstage
      cases hs
      exact h.goOn halive rfl nofun (by simp [hqueue, hstage, Stage.unbegun, Event.begunBy])
        (by simp [hstage, Stage.running, Event.begunBy, Event.finishedBy]) (by simp [hstage])
    · rename_i u queue running hqueue hstage
      cases hs
      exact h.goOn halive rfl nofun (by simp [hqueue, hstage, Stage.unbegun, Event.begunBy])
        (by simpa [hstage, Stage.running, Event.begunBy, Event.finishedBy] using (List.perm_append_singleton u running).symm)
        (by simp [hstage])
    · cases hs
  | mark =>
    simp only [Task.step, Task.mark] at hs
    split at hs
    · rename_i u hstage
      cases hs
      exact h.goOn halive rfl nofun (by simp [hstage, Stage.unbegun, Event.begunBy])
        (by simp [hstage, Stage.running, Event.begunBy, Event.finishedBy]) (by simp [hstage])
    · cases hs
  | start =>
    simp only [Task.step, Task.start] at hs
    split at hs
    · rename_i u hstage
      cases hs
      exact h.goOn halive rfl nofun (by simp [hstage, Stage.unbegun, Event.begunBy])
        (by simp [hstage, Stage.running, Event.begunBy, Event.finishedBy]) (by simp [hstage])
    · cases hs
  | finish =>
    simp only [Task.step, Task.finish] at hs
    split at hs
    · rename_i u hstage
      cases hs
      exact h.goOn halive rfl nofun (by simp [hstage, Stage.unbegun, Event.begunBy])
        (by simp [hstage, Stage.running, Event.begunBy, Event.finishedBy]) (by simp [hstage])
    · cases hs
  | rest =>
    simp only [Task.step, Task.rest] at hs
    split at hs
    · rename_i hstage
      cases hs
      exact h.goOn halive rfl nofun (by simp [hstage, Stage.unbegun, Event.begunBy])
        (by simp [hstage, Stage.running, Event.begunBy, Event.finishedBy]) (by simp [hstage])
    · cases hs
  | complete u =>
    simp only [Task.step, Task.complete] at hs
    split at hs
    · rename_i running hstage
      split at hs
      · rename_i hu
        cases hs
        have hperm : running.Perm (running.erase u ++ [u]) :=
          (List.perm_cons_erase hu).trans (List.perm_append_singleton u _).symm
        exact h.goOn halive rfl nofun (by simp [hstage, Stage.unbegun, Event.begunBy])
          (by simpa [hstage, Stage.running, Event.begunBy, Event.finishedBy] using hperm) (by simp [hstage])
      · cases hs
    · cases hs
  | stop =>
    simp only [Task.step, Task.stop] at hs
    split at hs
    · rename_i hidle
      cases hs
      refine h.terminate halive fun _ => ⟨hidle.1, ?_⟩
      obtain ⟨-, hstage | hstage⟩ := hidle <;> simp [hstage, Stage.unbegun, Stage.running]
    · cases hs
  | die d =>
    simp only [Task.step, Task.die] at hs
    split at hs
    · cases hs
    · rename_i hd
      cases hs
      exact h.terminate halive fun heq => absurd heq hd

/-- What a task shows. -/
theorem Task.step_event {a : TaskAction K} (hs : t.step size w a = some (t', e)) : t'.key = t.key ∧
    (e = .quiet ∨ (∃ u, e = .began u w) ∨ (∃ u, e = .finished u w) ∨ ∃ d, e = .died w d) := by
  cases a <;> simp only [Task.step, Task.receive, Task.mark, Task.start, Task.finish, Task.rest, Task.complete, Task.stop,
    Task.die] at hs <;> split at hs <;> try cases hs
  all_goals first
    | exact ⟨rfl, by simp⟩
    | (split at hs <;> cases hs; exact ⟨rfl, by simp⟩)

theorem Task.step_task {a : TaskAction K} (hs : t.step size w a = some (t', e)) : e.task = none ∨ e.task = some w := by
  obtain ⟨-, rfl | ⟨u, rfl⟩ | ⟨u, rfl⟩ | ⟨d, rfl⟩⟩ := Task.step_event hs
  · exact .inl rfl
  all_goals exact .inr rfl

/-- A worker begins with what it has marked; the default worker, with what it
receives. -/
theorem Task.step_began {a : TaskAction K} {u : Update K} (hs : t.step size w a = some (t', .began u w)) :
    t.stage = .marked u ∨ ∃ running, t.stage = .concurrent running := by
  cases a <;> simp only [Task.step, Task.receive, Task.mark, Task.start, Task.finish, Task.rest, Task.complete, Task.stop,
    Task.die] at hs <;> split at hs <;> try cases hs
  · exact .inr ⟨_, by assumption⟩
  · exact .inl (by assumption)
  all_goals (split at hs <;> cases hs)

variable {x x' : Sys K}

/-- One task goes on, or one more update is accepted. -/
theorem Ledger.task (h : Ledger size τ x) (ht : x.tasks[w]? = some t) (he : e.task = none ∨ e.task = some w)
    (hb : Balanced (e :: τ) w t') (hx : x'.tasks = x.tasks.set w t') : Ledger size (e :: τ) x' := by
  have hlt : w < x.tasks.length := (List.getElem?_eq_some_iff.mp ht).1
  refine ⟨fun v s hs => ?_, fun e' he' v hv => ?_, fun _ => h.room (List.ne_nil_of_length_pos (by omega))⟩
  · rw [hx] at hs
    obtain ⟨rfl, rfl⟩ | ⟨hv, hs⟩ := getElem?_set_cases hs
    · exact hb
    · refine (h.balanced v s hs).skip fun htask => ?_
      obtain he | he := he
      · rw [he] at htask
        cases htask
      · exact hv (Option.some.inj (htask.symm.trans he))
  · rw [hx, List.length_set]
    obtain rfl | he' := List.mem_cons.mp he'
    · obtain he | he := he
      · rw [he] at hv
        cases hv
      · exact (Option.some.inj (hv.symm.trans he)) ▸ hlt
    · exact h.known e' he' v hv

/-- No task is concerned. -/
theorem Ledger.other (h : Ledger size τ x) (he : e.task = none) (hx : x'.tasks = x.tasks) : Ledger size (e :: τ) x' := by
  refine ⟨fun v s hs => ?_, fun e' he' v hv => ?_, fun hne => h.room (hx ▸ hne)⟩
  · rw [hx] at hs
    exact (h.balanced v s hs).skip (by simp [he])
  · rw [hx]
    obtain rfl | he' := List.mem_cons.mp he'
    · rw [he] at hv
      cases hv
    · exact h.known e' he' v hv

/-- A worker is spawned. -/
theorem Ledger.spawn (h : Ledger size τ x) {key : Option K} (he : e.task = none) (hsize : 0 < size)
    (hx : x'.tasks = x.tasks ++ [.new size key]) : Ledger size (e :: τ) x' := by
  have hnew : ∀ e' ∈ e :: τ, ∀ w, e'.task = some w → w < x.tasks.length := by
    intro e' he' v hv
    obtain rfl | he' := List.mem_cons.mp he'
    · rw [he] at hv
      cases hv
    · exact h.known e' he' v hv
  refine ⟨fun v s hs => ?_, fun e' he' v hv => ?_, fun _ => hsize⟩
  · rw [hx, List.getElem?_append] at hs
    split_ifs at hs with hlt
    · exact (h.balanced v s hs).skip (by simp [he])
    · obtain ⟨hv, rfl⟩ : v = x.tasks.length ∧ s = .new size key := by
        rw [List.getElem?_singleton] at hs
        split_ifs at hs with hv
        exact ⟨by omega, (Option.some.inj hs).symm⟩
      exact .new key fun e' he' htask => absurd (hnew e' he' v htask) (by omega)
  · rw [hx, List.length_append]
    exact Nat.lt_add_right _ (hnew e' he' v hv)

end Ledger

/-! ## Where the updates are -/

/-- The update that the loop holds. -/
def Phase.hand : Phase K → Option (Update K)
  | .dispatching u _ | .sending u _ _ | .burying u _ _ | .panicked u => some u
  | _ => none

structure Placed [DecidableEq K] (τ : List (Event K)) (x : Sys K) : Prop where
  placed : x.phase.hand.toList ++ τ.filterMap (·.placed) = τ.filterMap (·.routed)
  arrivals : τ.filterMap (·.arrival) = (List.range x.taken).reverse

section Placed

variable [DecidableEq K] {size : Nat} {τ : List (Event K)} {x x' : Sys K} {e : Event K} {a : Action K}

/-- A step that holds on to its update. -/
theorem Placed.same (h : Placed τ x) (hhand : x'.phase.hand = x.phase.hand) (htaken : x'.taken = x.taken)
    (he : e.placed = none ∧ e.routed = none ∧ e.arrival = none) : Placed (e :: τ) x' := by
  obtain ⟨he₁, he₂, he₃⟩ := he
  constructor
  · rw [List.filterMap_cons_none he₁, List.filterMap_cons_none he₂, hhand]
    exact h.placed
  · rw [List.filterMap_cons_none he₃, htaken]
    exact h.arrivals

/-- A step that places it. -/
theorem Placed.place (h : Placed τ x) {u : Update K} (hhand : x.phase.hand = some u) (hhand' : x'.phase.hand = none)
    (htaken : x'.taken = x.taken) (he : e.placed = some u ∧ e.routed = none ∧ e.arrival = none) : Placed (e :: τ) x' := by
  obtain ⟨he₁, he₂, he₃⟩ := he
  have hplaced := h.placed
  rw [hhand] at hplaced
  constructor
  · rw [List.filterMap_cons_some he₁, List.filterMap_cons_none he₂, hhand']
    exact hplaced
  · rw [List.filterMap_cons_none he₃, htaken]
    exact h.arrivals

theorem Placed.step (h : Placed τ x) (hs : Moves size x a x' e) : Placed (e :: τ) x' := by
  have hquiet : Event.placed (.quiet : Event K) = none ∧ Event.routed (.quiet : Event K) = none ∧
      Event.arrival (.quiet : Event K) = none := ⟨rfl, rfl, rfl⟩
  have harrival : x.taken :: τ.filterMap (·.arrival) = (List.range (x.taken + 1)).reverse := by
    rw [h.arrivals, List.range_succ, List.reverse_append]
    rfl
  have hplaced := h.placed
  cases hs with
  | task _ _ _ _ hstep =>
    refine h.same rfl rfl ?_
    obtain ⟨-, rfl | ⟨u, rfl⟩ | ⟨u, rfl⟩ | ⟨d, rfl⟩⟩ := Task.step_event hstep <;> exact ⟨rfl, rfl, rfl⟩
  | listen hphase | full hphase | clear _ hphase | remove hphase | removed hphase | error hphase | wake hphase
  | ended hphase | spawn hphase | panic hphase | refuse hphase | retry hphase | closed hphase =>
    exact h.same (by rw [hphase]; rfl) rfl hquiet
  | awaited hphase => exact h.same (by rw [hphase]; rfl) rfl ⟨rfl, rfl, rfl⟩
  | reuse hphase =>
    refine h.same (by rw [hphase]; rfl) ?_ hquiet
    unfold Sys.takeWorker
    split <;> rfl
  | reject hphase =>
    rw [hphase] at hplaced
    exact ⟨hplaced, harrival⟩
  | take hphase =>
    rw [hphase] at hplaced
    exact ⟨congrArg _ hplaced, harrival⟩
  | accept hphase =>
    refine h.place (by rw [hphase]; rfl) rfl ?_ ⟨rfl, rfl, rfl⟩
    unfold Sys.putWorker
    split <;> rfl
  | giveUp hphase => exact h.place (by rw [hphase]; rfl) rfl rfl ⟨rfl, rfl, rfl⟩

end Placed

end Teloxide.Dispatching.Workers
