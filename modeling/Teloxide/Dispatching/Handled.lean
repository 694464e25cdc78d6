import Teloxide.Dispatching.Order

/-!
# Every update is handled

When the scheduler gives the loop and the workers their turns, and handlers
return, what a keyed worker accepted is handled unless the worker is aborted
(`eventually_handled`), and an update that got a key is accepted or reported
(`eventually_placed`). A channel of a size that `mpsc::channel` does not take
makes the loop panic instead.

`dispatched_once_in_order` puts this together with what `Orderly` says.
-/
namespace Teloxide.Dispatching.Workers

open Teloxide.Core

variable {K : Type}

/-- Whose turn it is. -/
inductive Turn where
  | loop
  | worker (task : Nat)
  deriving DecidableEq, Repr

/-- What the listener yields, and when the default worker's handlers return or a
task dies, is nobody's turn. -/
def Action.turn : Action K → Option Turn
  | .listen | .next _ | .wake | .ended => none
  | .clear _ _ | .remove _ | .awaited | .removed | .dispatch | .send | .bury | .closed => some .loop
  | .task w action =>
    match action with
    | .receive | .mark | .start | .finish | .rest => some (.worker w)
    | .complete _ | .stop | .die _ => none

namespace Stage

/-- The steps until the next update can be received. -/
def rank : Stage K → Nat
  | .received _ => 4
  | .marked _ => 3
  | .handling _ => 2
  | .handled => 1
  | .receiving | .concurrent _ => 0

theorem rank_le (s : Stage K) : s.rank ≤ 4 := by
  cases s <;> simp [rank]

end Stage

/-! ## The turn of a worker -/

namespace Task

variable {size w : Nat} {t t' : Task K} {e : Event K} {u : Update K}

def Has (t : Task K) (u : Update K) : Prop := u ∈ t.queue ∨ u ∈ t.stage.unbegun ∨ u ∈ t.stage.running

variable [DecidableEq K]

variable (size) in
/-- A worker that has something to do can do it. -/
theorem can_act (h : t.queue ≠ [] ∨ t.stage.unbegun ≠ [] ∨ (∀ running, t.stage ≠ .concurrent running) ∧ t.stage.running ≠ []) :
    ∃ a, Action.turn (.task w a) = some (.worker w) ∧ a ≠ .stop ∧ (t.step size w a).isSome := by
  cases hstage : t.stage with
  | received v => exact ⟨.mark, rfl, (fun h => by cases h), by simp [step, mark, hstage]⟩
  | marked v => exact ⟨.start, rfl, (fun h => by cases h), by simp [step, start, hstage]⟩
  | handling v => exact ⟨.finish, rfl, (fun h => by cases h), by simp [step, finish, hstage]⟩
  | handled => exact ⟨.rest, rfl, (fun h => by cases h), by simp [step, rest, hstage]⟩
  | receiving =>
    obtain ⟨v, queue, hqueue⟩ : ∃ v queue, t.queue = v :: queue := by
      rw [hstage] at h
      exact List.exists_cons_of_ne_nil (by simpa [Stage.unbegun, Stage.running] using h)
    exact ⟨.receive, rfl, (fun h => by cases h), by simp [step, receive, hstage, hqueue]⟩
  | concurrent running =>
    obtain ⟨v, queue, hqueue⟩ : ∃ v queue, t.queue = v :: queue := by
      rw [hstage] at h
      exact List.exists_cons_of_ne_nil (by simpa [Stage.unbegun] using h)
    exact ⟨.receive, rfl, (fun h => by cases h), by simp [step, receive, hstage, hqueue]⟩

local instance : LawfulBEq (Update K) := inferInstance

/-- The steps until the update is finished. -/
def ahead (t : Task K) (u : Update K) : Nat :=
  if u ∈ t.stage.unbegun ∨ u ∈ t.stage.running then t.stage.rank else 5 * (t.queue.idxOf u + 1) + t.stage.rank

/-- A step of a keyed worker brings its updates forward, unless it dies. -/
theorem advance {a : TaskAction K} (hkeyed : ∀ running, t.stage ≠ .concurrent running) (hu : t.Has u)
    (hs : t.step size w a = some (t', e)) : e = .finished u w ∨ (∃ d, d ≠ .finished ∧ e = .died w d) ∨
      t'.termination = t.termination ∧ t'.key = t.key ∧ t'.Has u ∧ t'.ahead u < t.ahead u := by
  unfold Has at hu
  cases a with
  | receive =>
    simp only [step, receive] at hs
    split at hs
    · rename_i v queue hqueue hstage
      cases hs
      refine .inr (.inr ⟨rfl, rfl, ?_⟩)
      rw [hqueue, hstage] at hu
      simp only [Stage.unbegun, Stage.running, List.not_mem_nil, or_false] at hu
      by_cases hv : u = v
      · subst hv
        refine ⟨.inr (.inl List.mem_cons_self), ?_⟩
        simp [ahead, hstage, hqueue, Stage.unbegun, Stage.running, Stage.rank]
      · have hmem : u ∈ queue := (List.mem_cons.mp hu).resolve_left hv
        refine ⟨.inl hmem, ?_⟩
        have hidx : (v :: queue).idxOf u = queue.idxOf u + 1 := List.idxOf_cons_ne _ (Ne.symm hv)
        simp only [ahead, hstage, hqueue, Stage.unbegun, Stage.running, Stage.rank, hidx, List.mem_singleton, hv,
          List.not_mem_nil, or_self, if_false]
        omega
    · exact absurd (by assumption) (hkeyed _)
    · cases hs
  | mark =>
    simp only [step, mark] at hs
    split at hs
    · rename_i v hstage
      cases hs
      rw [hstage] at hu
      refine .inr (.inr ⟨rfl, rfl, hu, ?_⟩)
      by_cases hv : u = v <;> simp [ahead, hstage, Stage.unbegun, Stage.running, Stage.rank, hv]
    · cases hs
  | start =>
    simp only [step, start] at hs
    split at hs
    · rename_i v hstage
      cases hs
      rw [hstage] at hu
      refine .inr (.inr ⟨rfl, rfl, ?_, ?_⟩)
      · simpa [Has, Stage.unbegun, Stage.running] using hu
      · by_cases hv : u = v <;> simp [ahead, hstage, Stage.unbegun, Stage.running, Stage.rank, hv]
    · cases hs
  | finish =>
    simp only [step, finish] at hs
    split at hs
    · rename_i v hstage
      cases hs
      by_cases hv : u = v
      · exact .inl (by rw [hv])
      · rw [hstage] at hu
        simp only [Stage.unbegun, Stage.running, List.not_mem_nil, List.mem_singleton, hv, or_false] at hu
        refine .inr (.inr ⟨rfl, rfl, .inl hu, ?_⟩)
        simp [ahead, hstage, Stage.unbegun, Stage.running, Stage.rank, hv]
    · cases hs
  | rest =>
    simp only [step, rest] at hs
    split at hs
    · rename_i hstage
      cases hs
      rw [hstage] at hu
      refine .inr (.inr ⟨rfl, rfl, hu, ?_⟩)
      simp [ahead, hstage, Stage.unbegun, Stage.running, Stage.rank]
    · cases hs
  | complete v =>
    simp only [step, complete] at hs
    cases hs
  | stop =>
    simp only [step, stop] at hs
    split at hs
    · rename_i hidle
      obtain ⟨hqueue, hstage | hstage⟩ := hidle <;> simp [hqueue, hstage, Stage.unbegun, Stage.running] at hu
    · cases hs
  | die d =>
    simp only [step, die] at hs
    split at hs
    · cases hs
    · rename_i hd
      cases hs
      exact .inr (.inl ⟨d, hd, rfl⟩)

variable (size) in
/-- A push leaves the updates where they are. -/
theorem ahead_push {v : Update K} (hu : t.Has u) : (t.push size v).Has u ∧ (t.push size v).ahead u = t.ahead u := by
  have hmem : (t.push size v).Has u := hu.imp_left (List.mem_append_left _)
  refine ⟨hmem, ?_⟩
  by_cases hstage : u ∈ t.stage.unbegun ∨ u ∈ t.stage.running
  · exact (if_pos hstage).trans (if_pos hstage).symm
  · have hqueue : u ∈ t.queue := hu.resolve_right hstage
    simp only [ahead, push, if_neg hstage, List.idxOf_append_of_mem hqueue]

end Task

section Handled

variable [DecidableEq K] {size : Nat}

theorem enabled_task {x : Sys K} {w : Nat} {t : Task K} (ht : x.tasks[w]? = some t) (halive : t.termination = none)
    (h : t.queue ≠ [] ∨ t.stage.unbegun ≠ [] ∨ (∀ running, t.stage ≠ .concurrent running) ∧ t.stage.running ≠ []) :
    (dispatcher K size).Enabled Action.turn (.worker w) x := by
  obtain ⟨a, hturn, hstop, hsome⟩ := Task.can_act size (w := w) h
  refine ⟨.task w a, hturn, ?_⟩
  show (x.onTask size w a).isSome
  simp only [Sys.onTask, ht, halive, hstop, false_implies, and_self, if_true, Option.isSome_map, hsome]

/-- A keyed worker has the update. -/
def Pending (w : Nat) (u : Update K) (x : Sys K) : Prop :=
  ∃ t, x.tasks[w]? = some t ∧ t.termination = none ∧ t.key.isSome ∧ t.Has u

def Sys.ahead (w : Nat) (u : Update K) (x : Sys K) : Nat :=
  match x.tasks[w]? with
  | some t => t.ahead u
  | none => 0

def HandledBy (w : Nat) (u : Update K) (τ : List (Event K)) : Prop := .finished u w ∈ τ ∨ Aborted τ w

/-- Other tasks and the loop do not set an update back. -/
theorem advances_of_same {w : Nat} {u : Update K} {x x' : Sys K} {a : Action K} {τ : List (Event K)} {t s : Task K}
    (ht : x.tasks[w]? = some t) (ht' : x'.tasks[w]? = some s) (halive : s.termination = none) (hkey : s.key.isSome)
    (hu : s.Has u) (hahead : s.ahead u = t.ahead u) (hturn : a.turn ≠ some (.worker w)) :
    Machine.Advances Action.turn (fun _ x => Pending w u x) (fun τ _ => HandledBy w u τ) (Sys.ahead w u)
      (fun _ => Turn.worker w) x a τ x' := by
  refine .inr ⟨⟨s, ht', halive, hkey, hu⟩, .inr ⟨?_, rfl, hturn⟩⟩
  simp only [Sys.ahead, ht, ht', hahead]

theorem pending_advances {w : Nat} {u : Update K} {τ : List (Event K)} {x x' : Sys K} {a : Action K} {e : Event K}
    (hr : Run size τ x) (hp : Pending w u x) (hs : x.step size a = some (x', e)) :
    Machine.Advances Action.turn (fun _ x => Pending w u x) (fun τ _ => HandledBy w u τ) (Sys.ahead w u)
      (fun _ => Turn.worker w) x a (e :: τ) x' := by
  obtain ⟨t, ht, halive, hkey, hu⟩ := hp
  have hlt : w < x.tasks.length := (List.getElem?_eq_some_iff.mp ht).1
  have hm := moves_of_step hs
  cases hm with
  | @task v s action s' _ _ hv halive' _ hstep =>
    by_cases hvw : v = w
    · subst hvw
      rw [ht] at hv
      cases hv
      have hkeyed := (hr.inv.ledger.balanced v t ht).stage.mp hkey
      rcases Task.advance hkeyed hu hstep with rfl | ⟨d, hd, rfl⟩ | ⟨hterm, hkey', hu', hlt'⟩
      · exact .inl (.inl List.mem_cons_self)
      · exact .inl (.inr ⟨d, hd, List.mem_cons_self⟩)
      · have hget : (x.tasks.set v s')[v]? = some s' := List.getElem?_set_self hlt
        refine .inr ⟨⟨s', hget, hterm.trans halive, by rwa [hkey'], hu'⟩, .inl ?_⟩
        simp only [Sys.ahead, ht, hget]
        exact hlt'
    · refine advances_of_same ht ((List.getElem?_set_ne hvw).trans ht) halive hkey hu rfl ?_
      cases action <;> simp [Action.turn, hvw]
  | @accept v q _ s hphase hq hroom =>
    by_cases hqw : q = w
    · subst hqw
      rw [ht] at hq
      cases hq
      obtain ⟨hu', hahead⟩ := Task.ahead_push size (v := v) hu
      exact advances_of_same ht (List.getElem?_set_self hlt) halive hkey hu' hahead nofun
    · exact advances_of_same ht ((List.getElem?_set_ne hqw).trans ht) halive hkey hu rfl nofun
  | spawn => exact advances_of_same ht ((List.getElem?_append_left hlt).trans ht) halive hkey hu rfl nofun
  | @reuse v =>
    refine advances_of_same (s := t) ht ?_ halive hkey hu rfl nofun
    show (x.takeWorker v.key).tasks[w]? = some t
    unfold Sys.takeWorker
    split <;> exact ht
  | _ => exact advances_of_same ht ht halive hkey hu rfl nofun

/-- What a keyed worker has accepted is handled, unless the worker is aborted. -/
theorem eventually_handled (x : (dispatcher K size).Execution) (hfair : x.Fair Action.turn) {n w : Nat} {u : Update K}
    {r : Option Termination} (hu : .accepted u w r ∈ x.history n) (hkey : u.key.isSome) :
    ∃ m, n ≤ m ∧ HandledBy w u (x.history m) := by
  have hinv := Run.inv (x.run n)
  rcases hinv.accounted hu with hf | ha | ⟨t, ht, halive, hwork⟩
  · exact ⟨n, Nat.le_refl n, .inl hf⟩
  · exact ⟨n, Nat.le_refl n, .inr ha⟩
  · have hk : u.key = t.key := (hinv.ledger.balanced w t ht).keyed u (mem_accepted.2 ⟨r, hu⟩)
    refine x.leadsTo (P := fun _ x => Pending w u x) (Q := fun τ _ => HandledBy w u τ) (μ := Sys.ahead w u)
      (g := fun _ => .worker w) hfair ?_ (fun τ y a y' e hr hp hs => pending_advances hr hp hs) n
      ⟨t, ht, halive, hk ▸ hkey, hwork⟩
    rintro τ y hr ⟨s, hs, halive', hkey', hwork'⟩
    refine enabled_task hs halive' ?_
    have hkeyed := ((Run.inv hr).ledger.balanced w s hs).stage.mp hkey'
    rcases hwork' with hq | hb | hrun
    · exact .inl (List.ne_nil_of_mem hq)
    · exact .inr (.inl (List.ne_nil_of_mem hb))
    · exact .inr (.inr ⟨hkeyed, List.ne_nil_of_mem hrun⟩)

end Handled

/-! ## The turn of the loop -/

/-- A worker that is alive but has no room is some steps from having it. -/
def Task.blocked (size : Nat) (t : Task K) : Nat :=
  if t.termination = none ∧ size ≤ t.queue.length then t.stage.rank + 1 else 0

/-- The steps of the loop until its update is placed. -/
def Phase.cost : Phase K → Nat
  | .dispatching _ none => 60
  | .sending _ _ none => 50
  | .burying _ _ none => 40
  | .dispatching _ (some _) => 30
  | .sending _ _ (some _) => 20
  | .burying _ _ (some _) => 10
  | _ => 0

section Placing

variable [DecidableEq K] {size : Nat} {x x' : Sys K} {a : Action K} {e : Event K} {τ : List (Event K)} {u : Update K}

def Sys.blocked (size : Nat) (x : Sys K) : Nat :=
  match x.phase with
  | .sending _ w _ =>
    match x.tasks[w]? with
    | some t => t.blocked size
    | none => 0
  | _ => 0

/-- While the loop cannot send, it is the worker's turn. -/
def Sys.turn (size : Nat) (x : Sys K) : Turn :=
  match x.phase with
  | .sending _ w _ => if x.blocked size = 0 then .loop else .worker w
  | _ => .loop

def Sys.toGo (size : Nat) (x : Sys K) : Nat := x.phase.cost + x.blocked size

omit [DecidableEq K] in
theorem Task.blocked_le (t : Task K) : t.blocked size ≤ 5 := by
  have hrank := t.stage.rank_le
  unfold blocked
  split <;> omega

variable (size) in
theorem Sys.blocked_le (x : Sys K) : x.blocked size ≤ 5 := by
  unfold blocked
  split
  · split
    · exact Task.blocked_le _
    · exact Nat.zero_le 5
  · exact Nat.zero_le 5

/-- A step of a blocked worker brings it nearer to having room. -/
theorem Task.blocked_step {w : Nat} {t t' : Task K} {b : TaskAction K} (hroom : t.queue.length ≤ size)
    (hs : t.step size w b = some (t', e)) : t'.blocked size < t.blocked size ∨
      t'.blocked size = t.blocked size ∧ (t.blocked size ≠ 0 → Action.turn (.task w b) ≠ some (.worker w)) := by
  have hzero : t'.blocked size = 0 → t'.blocked size < t.blocked size ∨
      t'.blocked size = t.blocked size ∧ (t.blocked size ≠ 0 → Action.turn (.task w b) ≠ some (.worker w)) := by
    intro h
    rw [h]
    by_cases h' : t.blocked size = 0
    · exact .inr ⟨h'.symm, fun hne => absurd h' hne⟩
    · exact .inl (Nat.pos_of_ne_zero h')
  have hrank : t'.queue = t.queue → t'.termination = t.termination → t'.stage.rank < t.stage.rank →
      t'.blocked size < t.blocked size ∨
      t'.blocked size = t.blocked size ∧ (t.blocked size ≠ 0 → Action.turn (.task w b) ≠ some (.worker w)) := by
    intro hq hd hlt
    unfold blocked
    rw [hq, hd]
    split
    · exact .inl (Nat.succ_lt_succ hlt)
    · exact .inr ⟨rfl, fun h => absurd rfl h⟩
  cases b with
  | receive =>
    refine hzero ?_
    simp only [step, receive] at hs
    split at hs <;> cases hs
    all_goals
      rename_i hqueue _
      rw [hqueue, List.length_cons] at hroom
      exact if_neg fun h => absurd h.2 (by simp only; omega)
  | mark =>
    simp only [step, mark] at hs
    split at hs <;> cases hs
    rename_i hstage
    exact hrank rfl rfl (by simp [hstage, Stage.rank])
  | start =>
    simp only [step, start] at hs
    split at hs <;> cases hs
    rename_i hstage
    exact hrank rfl rfl (by simp [hstage, Stage.rank])
  | finish =>
    simp only [step, finish] at hs
    split at hs <;> cases hs
    rename_i hstage
    exact hrank rfl rfl (by simp [hstage, Stage.rank])
  | rest =>
    simp only [step, rest] at hs
    split at hs <;> cases hs
    rename_i hstage
    exact hrank rfl rfl (by simp [hstage, Stage.rank])
  | complete v =>
    simp only [step, complete] at hs
    split at hs
    · rename_i running hstage
      split at hs <;> cases hs
      refine .inr ⟨?_, fun _ h => by cases h⟩
      simp [blocked, hstage, Stage.rank]
    · cases hs
  | stop =>
    refine hzero ?_
    simp only [step, stop] at hs
    split at hs <;> cases hs
    simp [blocked]
  | die d =>
    refine hzero ?_
    simp only [step, die] at hs
    split at hs <;> cases hs
    simp [blocked]

/-- A queue holds no more than it has room for. -/
theorem Run.bounded (hr : Run size τ x) : ∀ (w : Nat) (t : Task K), x.tasks[w]? = some t → t.queue.length ≤ size := by
  refine Machine.Run.induct (I := fun _ x => ∀ (w : Nat) (t : Task K), x.tasks[w]? = some t → t.queue.length ≤ size)
    (fun _ hx => by cases hx; exact nofun) (fun τ y a y' e _ ih _ hs => ?_) hr
  have hm := moves_of_step hs
  cases hm with
  | @task v t action t' _ _ hv _ _ hstep =>
    intro w s hs
    obtain ⟨rfl, rfl⟩ | ⟨-, hs⟩ := getElem?_set_cases hs
    · have hlen : s.queue.length ≤ t.queue.length := by
        cases action <;> simp only [Task.step, Task.receive, Task.mark, Task.start, Task.finish, Task.rest,
          Task.complete, Task.stop, Task.die] at hstep <;> split at hstep <;> try cases hstep
        all_goals first
          | exact Nat.le_refl _
          | (simp_all; done)
          | (split at hstep <;> cases hstep; exact Nat.le_refl _)
      exact Nat.le_trans hlen (ih w t hv)
    · exact ih w s hs
  | accept _ _ _ hroom =>
    intro w s hs
    obtain ⟨rfl, rfl⟩ | ⟨-, hs⟩ := getElem?_set_cases hs
    · simpa [Task.push] using Nat.succ_le_of_lt hroom
    · exact ih w s hs
  | spawn =>
    intro w s hs
    simp only [List.getElem?_append] at hs
    split_ifs at hs
    · exact ih w s hs
    · rw [List.getElem?_singleton] at hs
      split_ifs at hs
      cases hs
      exact Nat.zero_le size
  | @reuse v =>
    intro w s hs
    refine ih w s (Eq.trans ?_ hs)
    show y.tasks[w]? = (y.takeWorker v.key).tasks[w]?
    unfold Sys.takeWorker
    split <;> rfl
  | _ => exact ih

theorem Run.panicked (hr : Run size τ x) : ∀ u, x.phase = .panicked u → validBuffer size = false := by
  refine Machine.Run.induct (I := fun _ x => ∀ u, x.phase = .panicked u → validBuffer size = false)
    (fun _ hx => by cases hx; exact nofun) (fun τ y a y' e _ ih _ hs => ?_) hr
  have hm := moves_of_step hs
  cases hm with
  | task => exact ih
  | panic _ hvalid => exact fun _ _ => hvalid
  | _ => exact nofun

def InHand (u : Update K) (x : Sys K) : Prop := x.phase.hand = some u ∧ x.phase ≠ .panicked u

/-- The update is with a worker, or the dispatcher has given it up aloud. -/
def Settled (size : Nat) (u : Update K) (τ : List (Event K)) (x : Sys K) : Prop :=
  (∃ w r, .accepted u w r ∈ τ) ∨ (∃ first retry, .undeliverable u first retry ∈ τ) ∨
    x.phase = .panicked u ∧ validBuffer size = false

/-- The loop is one stage further. -/
theorem toGo_lt (h : x'.phase.cost + 10 ≤ x.phase.cost) : x'.toGo size < x.toGo size := by
  have hle := Sys.blocked_le size x'
  unfold Sys.toGo
  omega

/-- A task takes a step while the loop holds an update. -/
theorem turn_task {v : Nat} {t t' : Task K} {b : TaskAction K} (hroom : t.queue.length ≤ size) (hv : x.tasks[v]? = some t)
    (hstep : t.step size v b = some (t', e)) (hphase : x'.phase = x.phase) (htasks : x'.tasks = x.tasks.set v t') :
    x'.toGo size < x.toGo size ∨ x'.toGo size = x.toGo size ∧ x'.turn size = x.turn size ∧
      Action.turn (.task v b) ≠ some (x.turn size) := by
  have hlt : v < x.tasks.length := (List.getElem?_eq_some_iff.mp hv).1
  have hloop : Action.turn (.task v b) ≠ some .loop := by cases b <;> exact nofun
  unfold Sys.toGo Sys.turn
  rw [hphase]
  cases hp : x.phase with
  | sending q w first =>
    by_cases hvw : v = w
    · subst hvw
      have hb : x.blocked size = t.blocked size := by simp only [Sys.blocked, hp, hv]
      have hb' : x'.blocked size = t'.blocked size := by
        simp only [Sys.blocked, hphase, hp, htasks, List.getElem?_set_self hlt]
      simp only [hb, hb']
      rcases Task.blocked_step hroom hstep with hlt' | ⟨heq, hturn⟩
      · exact .inl (by omega)
      · refine .inr ⟨by rw [heq], by rw [heq], ?_⟩
        split
        · exact hloop
        · rename_i hne
          exact hturn hne
    · have hb : x'.blocked size = x.blocked size := by
        simp only [Sys.blocked, hphase, hp, htasks, List.getElem?_set_ne hvw]
      refine .inr ⟨by rw [hb], by rw [hb], ?_⟩
      show Action.turn (.task v b) ≠ some (if x.blocked size = 0 then .loop else .worker w)
      split
      · exact hloop
      · cases b <;> simp [Action.turn, hvw]
  | _ =>
    refine .inr ⟨?_, rfl, hloop⟩
    simp only [Sys.blocked, hphase, hp]

theorem hand_advances (hr : Run size τ x) (hp : InHand u x) (hs : x.step size a = some (x', e)) :
    Machine.Advances Action.turn (fun _ x => InHand u x) (Settled size u) (Sys.toGo size) (Sys.turn size) x a (e :: τ) x' := by
  have hm := moves_of_step hs
  obtain ⟨hhand, hpanicked⟩ := hp
  cases hm with
  | @task v t b t' _ _ hv _ _ hstep =>
    exact .inr ⟨⟨hhand, hpanicked⟩, turn_task (Run.bounded hr v t hv) hv hstep rfl rfl⟩
  | @reuse q first w hphase =>
    rw [hphase] at hhand
    refine .inr ⟨⟨hhand, nofun⟩, .inl (toGo_lt ?_)⟩
    rw [hphase]
    cases first <;> exact Nat.le_refl _
  | @spawn q first hphase =>
    rw [hphase] at hhand
    refine .inr ⟨⟨hhand, nofun⟩, .inl (toGo_lt ?_)⟩
    rw [hphase]
    cases first <;> exact Nat.le_refl _
  | panic hphase hvalid =>
    rw [hphase] at hhand
    cases hhand
    exact .inl (.inr (.inr ⟨rfl, hvalid⟩))
  | accept hphase =>
    rw [hphase] at hhand
    cases hhand
    exact .inl (.inl ⟨_, _, List.mem_cons_self⟩)
  | @refuse q w first t d hphase =>
    rw [hphase] at hhand
    refine .inr ⟨⟨hhand, nofun⟩, .inl (toGo_lt ?_)⟩
    rw [hphase]
    cases first <;> exact Nat.le_refl _
  | retry hphase =>
    rw [hphase] at hhand
    refine .inr ⟨⟨hhand, nofun⟩, .inl (toGo_lt ?_)⟩
    rw [hphase]
    exact Nat.le_refl _
  | giveUp hphase =>
    rw [hphase] at hhand
    cases hhand
    exact .inl (.inr (.inl ⟨_, _, List.mem_cons_self⟩))
  | listen hphase | full hphase | clear _ hphase | remove hphase | removed hphase | error hphase | wake hphase
  | ended hphase | closed hphase | awaited hphase | reject hphase | take hphase =>
    rw [hphase] at hhand
    cases hhand

theorem hand_enabled (hr : Run size τ x) (hp : InHand u x) : (dispatcher K size).Enabled Action.turn (x.turn size) x := by
  obtain ⟨hhand, hpanicked⟩ := hp
  have h := hr.inv
  cases hphase : x.phase with
  | dispatching q first =>
    refine ⟨.dispatch, by simp [Action.turn, Sys.turn, hphase], ?_⟩
    show ((x.dispatch size).map _).isSome
    simp only [Sys.dispatch, hphase, Option.isSome_map]
    split
    · rfl
    · split <;> rfl
  | sending q w first =>
    obtain ⟨t, ht, -⟩ := h.owned.sending q w first (.inl hphase)
    by_cases hb : t.blocked size = 0
    · refine ⟨.send, by simp [Action.turn, Sys.turn, Sys.blocked, hphase, ht, hb], ?_⟩
      show (x.send size).isSome
      simp only [Sys.send, hphase, ht]
      split
      · rename_i halive
        have hroom : t.queue.length < size := by
          by_contra hfull
          rw [Task.blocked, if_pos ⟨halive, Nat.le_of_not_lt hfull⟩] at hb
          exact Nat.succ_ne_zero _ hb
        rw [if_pos hroom]
        rfl
      · rfl
    · have hturn : x.turn size = .worker w := by simp [Sys.turn, Sys.blocked, hphase, ht, hb]
      rw [hturn]
      have hfull : t.termination = none ∧ size ≤ t.queue.length := by
        by_contra hnot
        exact hb (if_neg hnot)
      have hsize := h.ledger.room (List.ne_nil_of_mem (List.mem_of_getElem? ht))
      exact enabled_task ht hfull.1 (.inl (List.ne_nil_of_length_pos (by omega)))
  | burying q w first =>
    obtain ⟨t, ht, hd⟩ := h.owned.burying q w first hphase
    obtain ⟨d, hd⟩ := Option.ne_none_iff_exists'.mp hd
    refine ⟨.bury, by simp [Action.turn, Sys.turn, hphase], ?_⟩
    show x.bury.isSome
    simp only [Sys.bury, hphase, ht, hd]
    rfl
  | panicked q =>
    rw [hphase] at hhand hpanicked
    cases hhand
    exact absurd rfl hpanicked
  | _ =>
    rw [hphase] at hhand
    cases hhand

/-- An update that got a key is accepted or reported. -/
theorem eventually_settled (x : (dispatcher K size).Execution) (hfair : x.Fair Action.turn) {n : Nat}
    (hu : .taken u ∈ x.history n) : ∃ m, n ≤ m ∧ Settled size u (x.history m) (x.state m) := by
  have hinv := Run.inv (x.run n)
  have hmem : u ∈ (x.history n).filterMap (·.routed) := List.mem_filterMap.mpr ⟨_, hu, rfl⟩
  rw [← hinv.placed.placed, List.mem_append] at hmem
  rcases hmem with hhand | hplaced
  · have hhand' : (x.state n).phase.hand = some u := by
      cases hp : (x.state n).phase.hand with
      | none => rw [hp] at hhand; cases hhand
      | some q =>
        rw [hp, Option.toList_some, List.mem_singleton] at hhand
        rw [hhand]
    by_cases hpanicked : (x.state n).phase = .panicked u
    · exact ⟨n, Nat.le_refl n, .inr (.inr ⟨hpanicked, Run.panicked (x.run n) u hpanicked⟩)⟩
    · exact x.leadsTo (P := fun _ x => InHand u x) (Q := Settled size u) (μ := Sys.toGo size) (g := Sys.turn size) hfair
        (fun _ _ hr hp => hand_enabled hr hp) (fun _ _ _ _ _ hr hp hs => hand_advances hr hp hs) n ⟨hhand', hpanicked⟩
  · obtain ⟨e, he, heq⟩ := List.mem_filterMap.mp hplaced
    cases e <;> cases heq
    · exact ⟨n, Nat.le_refl n, .inl ⟨_, _, he⟩⟩
    · exact ⟨n, Nat.le_refl n, .inr (.inl ⟨_, _, he⟩)⟩

end Placing

/-- Whatever the interleaving, updates of a key are handled once, alone and in
the order in which they arrive; and when every task gets its turn, an update is
accepted or reported, and handled unless the worker that accepted it is aborted. -/
theorem dispatched_once_in_order [DecidableEq K] (size : Nat) :
    (∀ τ x, Run (K := K) size τ x → Orderly τ x) ∧
    ∀ x : (dispatcher K size).Execution, x.Fair Action.turn → ∀ n,
      (∀ u, .taken u ∈ x.history n → ∃ m, n ≤ m ∧ Settled size u (x.history m) (x.state m)) ∧
      (∀ u w r, .accepted u w r ∈ x.history n → u.key.isSome → ∃ m, n ≤ m ∧ HandledBy w u (x.history m)) :=
  ⟨fun _ _ hr => Run.orderly hr, fun x hfair _ =>
    ⟨fun _ hu => eventually_settled x hfair hu, fun _ _ _ hu hkey => eventually_handled x hfair hu hkey⟩⟩

/-- The worker of a key gets an update and is taken for inactive before it has
received it. The next update of the key goes to a new worker. -/
def respawn : List (Action Nat) :=
  [.listen, .clear 0 fun _ => (1, true), .next (.update (some 7)), .dispatch, .send,
    .clear 0 fun _ => (1, true), .remove 7, .task 0 .receive, .task 0 .mark, .task 0 .start, .task 0 .finish,
    .task 0 .rest, .task 0 .stop, .awaited, .removed,
    .next (.update (some 7)), .dispatch, .send, .task 1 .receive, .task 1 .mark, .task 1 .start]

theorem dispatched_once_in_order_respawn : ∃ τ x, Run (K := Nat) 1 τ x ∧ Orderly τ x ∧
    accepted 0 τ = [⟨0, some 7⟩] ∧ accepted 1 τ = [⟨1, some 7⟩] ∧ τ.filterMap (·.begun) = [⟨1, some 7⟩, ⟨0, some 7⟩] := by
  have h : ((dispatcher Nat 1).exec Machine.anything [] .new respawn).map
      (fun r => (accepted 0 r.1, accepted 1 r.1, r.1.filterMap (·.begun))) =
        some ([⟨0, some 7⟩], [⟨1, some 7⟩], [⟨1, some 7⟩, ⟨0, some 7⟩]) := by decide
  obtain ⟨⟨τ, x⟩, he, hs⟩ := Option.map_eq_some_iff.mp h
  simp only [Prod.mk.injEq] at hs
  have hr := Machine.run_of_exec (.start rfl) he
  exact ⟨τ, x, hr, (dispatched_once_in_order 1).1 τ x hr, hs⟩

end Teloxide.Dispatching.Workers
