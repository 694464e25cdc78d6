import Teloxide.Dispatching.Ledger

/-!
# One worker for a key

`Owned` says where the worker of a key is to be found: in the table, with the
loop, or among those the loop waits for. Of the workers of one key only the last
may be alive, so the loop may spawn one as soon as it finds none. With the
accounts of `Ledger` this gives `Orderly`: each update is handled once, alone
among those of its key, and after those of its key that arrived before it.
-/
namespace Teloxide.Dispatching.Workers

open Teloxide.Core

variable {K : Type}

/-! ## Where the workers are -/

/-- The worker that the loop has taken out of the table, or waits for. -/
def Phase.Keeps (w : Nat) : Phase K → Prop
  | .awaiting _ v | .sending _ v _ => w = v
  | .closing ws => w ∈ ws
  | _ => False

structure Owned [DecidableEq K] (x : Sys K) : Prop where
  newest : ∀ (w : Nat) (t : Task K), x.tasks[w]? = some t → t.termination = none → ∀ k, t.key = some k →
    ∀ (v : Nat) (s : Task K), x.tasks[v]? = some s → s.key = some k → v ≤ w
  held : ∀ (w : Nat) (t : Task K), x.tasks[w]? = some t → t.termination = none → ∀ k, t.key = some k →
    x.workers.lookup k = some w ∨ x.phase.Keeps w
  table : ∀ key w, x.lookupWorker key = some w → ∃ t : Task K, x.tasks[w]? = some t ∧ t.key = key
  sending : ∀ u w first, x.phase = .sending u w first ∨ x.phase = .burying u w first →
    ∃ t : Task K, x.tasks[w]? = some t ∧ t.key = u.key
  burying : ∀ u w first, x.phase = .burying u w first → ∃ t : Task K, x.tasks[w]? = some t ∧ t.termination ≠ none
  removing : ∀ keys, (x.phase = .removing keys ∨ ∃ w, x.phase = .awaiting keys w) →
    keys.Nodup ∧ ∀ k ∈ keys, (x.workers.lookup k).isSome

section Owned

variable [DecidableEq K] {size : Nat} {x x' : Sys K} {e : Event K} {a : Action K}

/-- Keys stay, and no task comes back to life. -/
def Ages (x x' : Sys K) : Prop :=
  ∀ (w : Nat) (s : Task K), x'.tasks[w]? = some s → ∃ t : Task K, x.tasks[w]? = some t ∧ t.key = s.key ∧ (s.termination = none → t.termination = none)

/-- Tasks are not lost. -/
def Grows (x x' : Sys K) : Prop :=
  ∀ (w : Nat) (t : Task K), x.tasks[w]? = some t → ∃ s : Task K, x'.tasks[w]? = some s ∧ s.key = t.key ∧ (t.termination ≠ none → s.termination ≠ none)

theorem Owned.age (h : Owned x) (hold : Ages x x') (hnew : Grows x x') (hworkers : x'.workers = x.workers)
    (hdefault : x'.defaultWorker = x.defaultWorker) (hphase : x'.phase = x.phase) : Owned x' := by
  have hlookup : ∀ key, x'.lookupWorker key = x.lookupWorker key := by
    intro key
    cases key with
    | none => exact hdefault
    | some k => exact congrArg (AList.lookup k) hworkers
  constructor
  · intro w s hs halive k hk v r hr hrk
    obtain ⟨t, ht, htk, halive'⟩ := hold w s hs
    obtain ⟨q, hq, hqk, -⟩ := hold v r hr
    exact h.newest w t ht (halive' halive) k (htk.trans hk) v q hq (hqk.trans hrk)
  · intro w s hs halive k hk
    obtain ⟨t, ht, htk, halive'⟩ := hold w s hs
    rw [hworkers, hphase]
    exact h.held w t ht (halive' halive) k (htk.trans hk)
  · intro key w hw
    obtain ⟨t, ht, hk⟩ := h.table key w (hlookup key ▸ hw)
    obtain ⟨s, hs, hsk, -⟩ := hnew w t ht
    exact ⟨s, hs, hsk.trans hk⟩
  · intro u w first hp
    obtain ⟨t, ht, hk⟩ := h.sending u w first (hphase ▸ hp)
    obtain ⟨s, hs, hsk, -⟩ := hnew w t ht
    exact ⟨s, hs, hsk.trans hk⟩
  · intro u w first hp
    obtain ⟨t, ht, hd⟩ := h.burying u w first (hphase ▸ hp)
    obtain ⟨s, hs, -, hsd⟩ := hnew w t ht
    exact ⟨s, hs, hsd hd⟩
  · intro keys hp
    rw [hworkers]
    exact h.removing keys (hphase ▸ hp)

/-- Replacing a task by one that has its key and is as dead. -/
theorem ages_set {y : Sys K} {w : Nat} {t s : Task K} (ht : x.tasks[w]? = some t) (hk : s.key = t.key)
    (halive : t.termination = none) (hx : y.tasks = x.tasks.set w s) : Ages x y ∧ Grows x y := by
  have hlt : w < x.tasks.length := (List.getElem?_eq_some_iff.mp ht).1
  refine ⟨fun v r hr => ?_, fun v r hr => ?_⟩
  · rw [hx] at hr
    obtain ⟨rfl, rfl⟩ | ⟨-, hr⟩ := getElem?_set_cases hr
    · exact ⟨t, ht, hk.symm, fun _ => halive⟩
    · exact ⟨r, hr, rfl, id⟩
  · rw [hx, List.getElem?_set]
    split_ifs with hv
    · subst hv
      rw [ht] at hr
      cases hr
      exact ⟨s, rfl, hk, fun hne => absurd halive hne⟩
    · exact ⟨r, hr, rfl, id⟩

/-- A step of the loop that leaves the tasks alone. -/
theorem Owned.move (h : Owned x) (htasks : x'.tasks = x.tasks)
    (htable : ∀ key w, x'.lookupWorker key = some w → ∃ t : Task K, x.tasks[w]? = some t ∧ t.key = key)
    (hheld : ∀ (w : Nat) (t : Task K) (k : K), x.tasks[w]? = some t → t.termination = none → t.key = some k →
      x.workers.lookup k = some w ∨ x.phase.Keeps w → x'.workers.lookup k = some w ∨ x'.phase.Keeps w)
    (hsending : ∀ u w first, x'.phase = .sending u w first ∨ x'.phase = .burying u w first →
      ∃ t : Task K, x.tasks[w]? = some t ∧ t.key = u.key)
    (hburying : ∀ u w first, x'.phase = .burying u w first → ∃ t : Task K, x.tasks[w]? = some t ∧ t.termination ≠ none)
    (hremoving : ∀ keys, (x'.phase = .removing keys ∨ ∃ w, x'.phase = .awaiting keys w) →
      keys.Nodup ∧ ∀ k ∈ keys, (x'.workers.lookup k).isSome) : Owned x' := by
  constructor
  · rw [htasks]
    exact h.newest
  · intro w t ht halive k hk
    rw [htasks] at ht
    exact hheld w t k ht halive hk (h.held w t ht halive k hk)
  · rw [htasks]
    exact htable
  · rw [htasks]
    exact hsending
  · rw [htasks]
    exact hburying
  · exact hremoving

/-- The loop goes on, with the table as it is and without a worker in its hands.
What it has let go of has terminated. -/
theorem Owned.letGo (h : Owned x) (htasks : x'.tasks = x.tasks) (hworkers : x'.workers = x.workers)
    (hdefault : x'.defaultWorker = x.defaultWorker) (hphase : ∀ w, ¬x'.phase.Keeps w)
    (hburying : ∀ u w first, x'.phase ≠ .burying u w first)
    (hremoving : ∀ keys, x'.phase = .removing keys → keys.Nodup ∧ ∀ k ∈ keys, (x.workers.lookup k).isSome)
    (hdead : ∀ w t, x.phase.Keeps w → x.tasks[w]? = some t → t.termination ≠ none) : Owned x' := by
  refine h.move htasks ?_ ?_ ?_ ?_ ?_
  · intro key w hw
    refine h.table key w ?_
    cases key with
    | none => exact hdefault.symm.trans hw
    | some k =>
      rw [Sys.lookupWorker, hworkers] at hw
      exact hw
  · rintro w t k ht halive - (hk | hk)
    · exact .inl (hworkers ▸ hk)
    · exact absurd halive (hdead w t hk ht)
  · rintro u w first (hp | hp)
    · exact absurd (by rw [hp]; rfl) (hphase w)
    · exact absurd hp (hburying u w first)
  · exact fun u w first hp => absurd hp (hburying u w first)
  · rintro keys (hp | ⟨w, hp⟩)
    · rw [hworkers]
      exact hremoving keys hp
    · exact absurd (by rw [hp]; rfl) (hphase w)

theorem lookup_takeWorker (key : Option K) (k : K) :
    (x.takeWorker key).workers.lookup k = if key = some k then none else x.workers.lookup k := by
  cases key with
  | none => rfl
  | some k' => simp [Sys.takeWorker, eq_comm]

theorem lookupWorker_takeWorker {key k : Option K} {w : Nat} (h : (x.takeWorker k).lookupWorker key = some w) :
    x.lookupWorker key = some w := by
  cases k with
  | none => cases key <;> simp_all [Sys.takeWorker, Sys.lookupWorker]
  | some k' =>
    cases key with
    | none => exact h
    | some k =>
      simp only [Sys.takeWorker, Sys.lookupWorker, Table.lookup_erase_if] at h ⊢
      split_ifs at h
      exact h

theorem lookupWorker_putWorker (key key' : Option K) (w : Nat) :
    (x.putWorker w key').lookupWorker key = if key = key' then some w else x.lookupWorker key := by
  cases key <;> cases key' <;> simp [Sys.putWorker, Sys.lookupWorker]

/-- A worker is taken out of the table to be sent to. -/
theorem Owned.reuse {u : Update K} {first : Option Termination} {w : Nat} (h : Owned x)
    (hphase : x.phase = .dispatching u first) (hw : x.lookupWorker u.key = some w) :
    Owned { x.takeWorker u.key with phase := .sending u w first } := by
  have htasks : (x.takeWorker u.key).tasks = x.tasks := by
    unfold Sys.takeWorker
    split <;> rfl
  refine h.move htasks (fun key v hv => h.table key v (lookupWorker_takeWorker hv)) ?_ ?_ nofun (by simp)
  · intro v t k ht halive hk hheld
    rw [hphase] at hheld
    simp only [Phase.Keeps, or_false] at hheld ⊢
    rw [lookup_takeWorker]
    split_ifs with hkey
    · rw [hkey, Sys.lookupWorker, hheld] at hw
      exact .inr (Option.some.inj hw)
    · exact .inl hheld
  · rintro v q f (hp | hp) <;> cases hp
    exact h.table _ _ hw

/-- A worker is spawned where there is none for the key. -/
theorem Owned.spawn {u : Update K} {first : Option Termination} (h : Owned x) (hphase : x.phase = .dispatching u first)
    (hnone : x.lookupWorker u.key = none) :
    Owned { x with tasks := x.tasks ++ [.new size u.key], phase := .sending u x.tasks.length first } := by
  have hold : ∀ (v : Nat) (t : Task K), x.tasks[v]? = some t → (x.tasks ++ [.new size u.key])[v]? = some t :=
    fun v t ht => (List.getElem?_append_left (List.getElem?_eq_some_iff.mp ht).1).trans ht
  have hcases : ∀ (v : Nat) (t : Task K), (x.tasks ++ [.new size u.key])[v]? = some t →
      x.tasks[v]? = some t ∨ v = x.tasks.length ∧ t = .new size u.key := by
    intro v t ht
    rw [List.getElem?_append] at ht
    split_ifs at ht with hlt
    · exact .inl ht
    · rw [List.getElem?_singleton] at ht
      split_ifs at ht with hv
      exact .inr ⟨by omega, (Option.some.inj ht).symm⟩
  -- a worker of the key that was alive would be in the table
  have hdead : ∀ (v : Nat) (t : Task K) (k : K), x.tasks[v]? = some t → t.termination = none → t.key = some k →
      u.key ≠ some k := by
    intro v t k ht halive hk hkey
    have hheld := h.held v t ht halive k hk
    rw [hphase] at hheld
    rw [hkey, Sys.lookupWorker] at hnone
    obtain hheld | hheld := hheld
    · rw [hnone] at hheld
      cases hheld
    · exact hheld
  constructor
  · intro v t ht halive k hk q s hs hsk
    obtain ht | ⟨rfl, rfl⟩ := hcases v t ht
    · obtain hs | ⟨rfl, rfl⟩ := hcases q s hs
      · exact h.newest v t ht halive k hk q s hs hsk
      · exact absurd hsk (hdead v t k ht halive hk)
    · obtain hs | ⟨rfl, rfl⟩ := hcases q s hs
      · exact Nat.le_of_lt (List.getElem?_eq_some_iff.mp hs).1
      · exact Nat.le_refl _
  · intro v t ht halive k hk
    obtain ht | ⟨rfl, rfl⟩ := hcases v t ht
    · have hheld := h.held v t ht halive k hk
      rw [hphase] at hheld
      exact .inl (hheld.resolve_right id)
    · exact .inr rfl
  · intro key v hv
    obtain ⟨t, ht, hk⟩ := h.table key v hv
    exact ⟨t, hold v t ht, hk⟩
  · rintro v q f (hp | hp) <;> cases hp
    exact ⟨.new size u.key, by simp, rfl⟩
  · exact nofun
  · simp

theorem Owned.accept {u : Update K} {first : Option Termination} {w : Nat} {t : Task K} (h : Owned x)
    (hphase : x.phase = .sending u w first) (ht : x.tasks[w]? = some t) (halive : t.termination = none) :
    Owned { x.putWorker w u.key with tasks := x.tasks.set w (t.push size u), phase := .clearing } := by
  obtain ⟨t', ht', hkey⟩ := h.sending u w first (.inl hphase)
  rw [ht] at ht'
  cases ht'
  have hlt : w < x.tasks.length := (List.getElem?_eq_some_iff.mp ht).1
  have hpush := ages_set (s := t.push size u) (y := { x with tasks := x.tasks.set w (t.push size u) }) ht rfl halive rfl
  have hy : Owned { x with tasks := x.tasks.set w (t.push size u) } := h.age hpush.1 hpush.2 rfl rfl rfl
  refine hy.move rfl ?_ ?_ (by simp) nofun (by simp)
  · intro key v hv
    have hput := lookupWorker_putWorker (x := x) key u.key w
    have hv' : (x.putWorker w u.key).lookupWorker key = some v := by
      cases key <;> exact hv
    rw [hput] at hv'
    split_ifs at hv' with heq
    · cases hv'
      exact ⟨t.push size u, by simp [hlt], hkey.trans heq.symm⟩
    · exact hy.table key v (by cases key <;> exact hv')
  · intro v s k hs halive' hk hheld
    have hput := lookupWorker_putWorker (x := x) (some k) u.key w
    simp only [Sys.lookupWorker] at hput
    left
    show (x.putWorker w u.key).workers.lookup k = some v
    rw [hput]
    rw [show (x.phase : Phase K) = _ from hphase] at hheld
    split_ifs with heq
    · -- both are alive and of this key
      obtain hheld | rfl := hheld
      · have hvw := hy.newest v s hs halive' k hk w (t.push size u) (by simp [hlt]) (hkey.trans heq.symm)
        have hwv := hy.newest w (t.push size u) (by simp [hlt]) halive k (hkey.trans heq.symm) v s hs hk
        rw [Nat.le_antisymm hwv hvw]
      · rfl
    · obtain hheld | rfl := hheld
      · exact hheld
      · rw [List.getElem?_set_self hlt] at hs
        cases hs
        exact absurd (hk.symm.trans hkey) heq

theorem Owned.step (h : Owned x) (hs : Moves size x a x' e) : Owned x' := by
  cases hs with
  | @task w t action t' e maxActive ht halive _ hstep =>
    have hages := ages_set (y := { x with tasks := x.tasks.set w t', maxActive }) ht (Task.step_event hstep).1 halive rfl
    exact h.age hages.1 hages.2 rfl rfl rfl
  | listen hphase | full hphase | error hphase | reject hphase | take hphase | wake hphase | panic hphase =>
    refine h.letGo rfl rfl rfl (fun _ => id) nofun nofun fun w t hk => ?_
    rw [hphase] at hk
    exact hk.elim
  | removed hphase =>
    refine h.letGo rfl rfl rfl (fun _ => id) nofun nofun fun w t hk => ?_
    rw [hphase] at hk
    exact hk.elim
  | clear inactive hphase =>
    refine h.letGo rfl rfl rfl (fun _ => id) nofun (fun keys hp => ?_) fun w t hk => ?_
    · cases hp
      refine ⟨List.Nodup.filter _ x.workers.keys_nodup, fun k hk => ?_⟩
      exact AList.lookup_isSome.mpr (List.mem_of_mem_filter hk)
    · rw [hphase] at hk
      exact hk.elim
  | @remove keys k w hphase hk hw =>
    obtain ⟨hnodup, hkeys⟩ := h.removing keys (.inl hphase)
    refine h.move rfl ?_ ?_ nofun nofun ?_
    · intro key v hv
      exact h.table key v (lookupWorker_takeWorker (k := some k) hv)
    · intro v t k' ht halive hk' hheld
      rw [hphase] at hheld
      have hv := hheld.resolve_right id
      rw [Table.lookup_erase_if]
      split_ifs with heq
      · rw [heq, hw] at hv
        exact .inr (Option.some.inj hv).symm
      · exact .inl hv
    · rintro keys' (hp | ⟨v, hp⟩) <;> cases hp
      refine ⟨hnodup.erase k, fun k' hk' => ?_⟩
      obtain ⟨hne, hmem⟩ := hnodup.mem_erase_iff.mp hk'
      rw [Table.lookup_erase_if, if_neg hne]
      exact hkeys k' hmem
  | @awaited keys w t d hphase ht hd =>
    refine h.letGo rfl rfl rfl (fun _ => id) nofun (fun keys' hp => ?_) fun v s hk hs => ?_
    · cases hp
      exact h.removing keys (.inr ⟨w, hphase⟩)
    · rw [hphase] at hk
      obtain rfl : v = w := hk
      rw [ht] at hs
      cases hs
      simp [hd]
  | ended hphase =>
    refine h.move rfl ?_ ?_ nofun nofun nofun
    · intro key w hw
      cases key <;> cases hw
    · intro w t k _ _ _ hheld
      rw [hphase] at hheld
      have hw := hheld.resolve_right id
      exact .inr (List.mem_append_left _ (Table.mem_values.2 ⟨k, hw⟩))
  | reuse hphase hw => exact h.reuse hphase hw
  | spawn hphase hnone => exact h.spawn hphase hnone
  | accept hphase ht halive => exact h.accept hphase ht halive
  | @refuse u w first t d hphase ht hd =>
    refine h.move rfl h.table ?_ ?_ ?_ nofun
    · intro v s k hs halive _ hheld
      rw [hphase] at hheld
      refine .inl (hheld.resolve_right ?_)
      rintro rfl
      rw [ht] at hs
      cases hs
      rw [hd] at halive
      cases halive
    · rintro u' v f (hp | hp) <;> cases hp
      exact h.sending u w first (.inl hphase)
    · intro u' v f hp
      cases hp
      exact ⟨t, ht, by simp [hd]⟩
  | retry hphase | giveUp hphase =>
    refine h.letGo rfl rfl rfl (fun _ => id) nofun nofun fun w t hk => ?_
    rw [hphase] at hk
    exact hk.elim
  | closed hphase hall =>
    refine h.letGo rfl rfl rfl (fun _ => id) nofun nofun fun w t hk ht => ?_
    rw [hphase] at hk
    obtain ⟨s, hs, hd⟩ := hall w hk
    rw [ht] at hs
    cases hs
    exact hd

end Owned

/-! ## All accounts together -/

structure Inv (size : Nat) {K : Type} [DecidableEq K] (τ : List (Event K)) (x : Sys K) : Prop where
  placed : Placed τ x
  ledger : Ledger size τ x
  owned : Owned x
  older : ∀ w v, w < v → ∀ u ∈ accepted w τ, ∀ u' ∈ accepted v τ, u.key.isSome → u.key = u'.key → u.number < u'.number

section Inv

variable [DecidableEq K] {size : Nat} {τ : List (Event K)} {x x' : Sys K} {e : Event K} {a : Action K}

/-- Updates are placed in the order in which they arrive. -/
theorem Placed.decreasing (h : Placed τ x) : (τ.filterMap (·.routed)).Pairwise fun u v => v.number < u.number := by
  have hsub : ((τ.filterMap (·.routed)).map (·.number)).Sublist (τ.filterMap (·.arrival)) := by
    clear h
    induction τ with
    | nil => exact .slnil
    | cons e τ ih =>
      cases e with
      | taken u => exact ih.cons_cons u.number
      | rejected n => exact ih.cons n
      | _ => exact ih
  rw [h.arrivals] at hsub
  have hrange : ((List.range x.taken).reverse).Pairwise fun m n => n < m :=
    List.pairwise_reverse.mpr List.pairwise_lt_range
  exact List.pairwise_map.mp (hrange.sublist hsub)

omit [DecidableEq K] in
theorem accepted_sublist (w : Nat) : (accepted w τ).Sublist (τ.filterMap (·.placed)) := by
  induction τ with
  | nil => exact .slnil
  | cons e τ ih =>
    rw [accepted_cons]
    cases e with
    | accepted u v r =>
      simp only [Event.acceptedBy]
      split_ifs
      · exact ih.cons_cons u
      · exact ih.cons u
    | undeliverable u f r => exact ih.cons u
    | _ => exact ih

/-- The update in hand is newer than those a worker has accepted, and these are
in order. -/
theorem Placed.accepted (h : Placed τ x) (w : Nat) :
    (x.phase.hand.toList ++ accepted w τ).Pairwise fun u v => v.number < u.number := by
  have hdec := h.decreasing
  rw [← h.placed] at hdec
  exact hdec.sublist ((accepted_sublist w).append_left _)

theorem Ledger.step (h : Ledger size τ x) (ho : Owned x) (hs : Moves size x a x' e) : Ledger size (e :: τ) x' := by
  cases hs with
  | task _ ht halive _ hstep => exact h.task ht (Task.step_task hstep) ((h.balanced _ _ ht).step halive hstep) rfl
  | @accept u w first t hphase ht halive =>
    obtain ⟨t', ht', hkey⟩ := ho.sending u w first (.inl hphase)
    rw [ht] at ht'
    cases ht'
    exact h.task ht (.inr rfl) ((h.balanced _ _ ht).push hkey.symm halive) rfl
  | spawn hphase _ hvalid =>
    have hsize : 0 < size := by
      simp only [validBuffer, Bool.and_eq_true, decide_eq_true_eq] at hvalid
      exact hvalid.1
    exact h.spawn rfl hsize rfl
  | @reuse u =>
    refine h.other rfl ?_
    unfold Sys.takeWorker
    split <;> rfl
  | _ => exact h.other rfl rfl

/-- Nothing is accepted by a worker that a newer one has taken the place of. -/
theorem Inv.older_step (h : Inv size τ x) (hs : Moves size x a x' e) : ∀ w v, w < v →
    ∀ u ∈ accepted w (e :: τ), ∀ u' ∈ accepted v (e :: τ), u.key.isSome → u.key = u'.key → u.number < u'.number := by
  have hold : (∀ w, e.acceptedBy w = none) → ∀ w v, w < v →
      ∀ u ∈ accepted w (e :: τ), ∀ u' ∈ accepted v (e :: τ), u.key.isSome → u.key = u'.key → u.number < u'.number := by
    intro hnone w v hwv u hu u' hu'
    rw [accepted_cons, hnone] at hu hu'
    exact h.older w v hwv u hu u' hu'
  cases hs with
  | task _ _ _ _ hstep =>
    refine hold fun w => ?_
    obtain ⟨-, rfl | ⟨u, rfl⟩ | ⟨u, rfl⟩ | ⟨d, rfl⟩⟩ := Task.step_event hstep <;> rfl
  | @accept u w first t hphase ht halive =>
    intro v q hvq u₁ hu₁ u₂ hu₂ hkey₁ hkey
    have hnewest := h.owned.newest w t ht halive
    obtain ⟨t', ht', htk⟩ := h.owned.sending u w first (.inl hphase)
    rw [ht] at ht'
    cases ht'
    simp only [accepted_cons, Event.acceptedBy] at hu₁ hu₂
    split_ifs at hu₁ with hv <;> split_ifs at hu₂ with hq
    · omega
    · -- the worker of `u` would not be the newest of its key
      obtain rfl | hu₁ := List.mem_cons.mp hu₁
      · obtain ⟨r, hr⟩ := mem_accepted.1 hu₂
        obtain ⟨k, hk⟩ := Option.isSome_iff_exists.mp hkey₁
        have hlt := h.ledger.known _ hr q rfl
        have hs := List.getElem?_eq_getElem hlt
        have hsk := (h.ledger.balanced q _ hs).keyed u₂ hu₂
        exact absurd (hnewest k (htk.trans hk) q _ hs (hsk.symm.trans (hkey.symm.trans hk))) (by omega)
      · exact h.older v q hvq u₁ hu₁ u₂ hu₂ hkey₁ hkey
    · obtain rfl | hu₂ := List.mem_cons.mp hu₂
      · have hdec := h.placed.accepted v
        rw [hphase] at hdec
        exact (List.pairwise_cons.mp hdec).1 u₁ hu₁
      · exact h.older v q hvq u₁ hu₁ u₂ hu₂ hkey₁ hkey
    · exact h.older v q hvq u₁ hu₁ u₂ hu₂ hkey₁ hkey
  | _ => exact hold fun _ => rfl

theorem Inv.step (h : Inv size τ x) (hs : x.step size a = some (x', e)) : Inv size (e :: τ) x' :=
  have hm := moves_of_step hs
  ⟨h.placed.step hm, h.ledger.step h.owned hm, h.owned.step hm, h.older_step hm⟩

theorem inv_new : Inv size ([] : List (Event K)) Sys.new where
  placed := ⟨rfl, rfl⟩
  ledger := ⟨nofun, nofun, fun h => absurd rfl h⟩
  owned :=
    { newest := nofun
      held := nofun
      table := fun key => by cases key <;> exact nofun
      sending := fun u w first hp => by rcases hp with hp | hp <;> cases hp
      burying := nofun
      removing := fun keys hp => by
        rcases hp with hp | ⟨w, hp⟩
        · cases hp
        · cases hp }
  older := nofun

theorem Run.inv (hr : Run size τ x) : Inv size τ x :=
  Machine.Run.induct (fun _ hx => by cases hx; exact inv_new) (fun _ _ _ _ _ _ h _ hs => h.step hs) hr

/-- The worker of a key that was found inactive is still in the table. -/
theorem Run.remove_isSome (hr : Run size τ x) {keys : List K} (hphase : x.phase = .removing keys) {k : K} (hk : k ∈ keys) :
    (x.remove k).isSome := by
  obtain ⟨w, hw⟩ := Option.isSome_iff_exists.mp ((hr.inv.owned.removing keys (.inl hphase)).2 k hk)
  simp only [Sys.remove, hphase, if_pos hk, hw]
  rfl

end Inv

/-! ## Once, alone and in order -/

/-- The task is alive and has the update in its queue or in its hands. -/
def Sys.InWork [DecidableEq K] (x : Sys K) (w : Nat) (u : Update K) : Prop :=
  ∃ t, x.tasks[w]? = some t ∧ t.termination = none ∧ (u ∈ t.queue ∨ u ∈ t.stage.unbegun ∨ u ∈ t.stage.running)

/-- The task was aborted or has panicked. -/
def Aborted (τ : List (Event K)) (w : Nat) : Prop := ∃ d, d ≠ .finished ∧ .died w d ∈ τ

/-- Values of one owner are distinct, and a value has one owner. -/
theorem nodup_of_owner {α β γ : Type} [DecidableEq γ] {f : α → Option β} {g : α → γ} {l : List α}
    (hone : ∀ a ∈ l, ∀ a' ∈ l, ∀ b, f a = some b → f a' = some b → g a = g a')
    (heach : ∀ c, (l.filterMap fun a => if g a = c then f a else none).Nodup) : (l.filterMap f).Nodup := by
  induction l with
  | nil => exact .nil
  | cons a l ih =>
    have htail : (l.filterMap f).Nodup := by
      refine ih (fun a ha a' ha' => hone a (List.mem_cons_of_mem _ ha) a' (List.mem_cons_of_mem _ ha')) fun c => ?_
      exact (heach c).sublist ((List.sublist_cons_self a l).filterMap _)
    cases hb : f a with
    | none => rwa [List.filterMap_cons_none hb]
    | some b =>
      rw [List.filterMap_cons_some hb]
      refine List.nodup_cons.mpr ⟨fun hmem => ?_, htail⟩
      obtain ⟨a', ha', hb'⟩ := List.mem_filterMap.mp hmem
      have howner := hone a List.mem_cons_self a' (List.mem_cons_of_mem _ ha') b hb hb'
      have hown := heach (g a)
      rw [List.filterMap_cons_some (b := b) (by rw [if_pos rfl, hb])] at hown
      exact (List.nodup_cons.mp hown).1 (List.mem_filterMap.mpr ⟨a', ha', by rw [if_pos howner.symm, hb']⟩)

section Orderly

variable [DecidableEq K] {size : Nat} {τ : List (Event K)} {x : Sys K} {u u' : Update K} {w v : Nat}

/-- A task of the run. -/
theorem Inv.task (h : Inv size τ x) {e : Event K} (he : e ∈ τ) (hw : e.task = some w) :
    ∃ t, x.tasks[w]? = some t ∧ Balanced τ w t := by
  have hlt := h.ledger.known e he w hw
  exact ⟨_, List.getElem?_eq_getElem hlt, h.ledger.balanced w _ (List.getElem?_eq_getElem hlt)⟩

theorem Inv.accepted_once (h : Inv size τ x) {r r' : Option Termination} (hw : .accepted u w r ∈ τ)
    (hv : .accepted u v r' ∈ τ) : w = v := by
  have hnodup : (τ.filterMap (·.placed)).Nodup := by
    have hdec := h.placed.decreasing
    rw [← h.placed.placed] at hdec
    refine (hdec.sublist (List.sublist_append_right _ _)).imp ?_
    rintro a b hlt rfl
    exact Nat.lt_irrefl _ hlt
  have heq := eq_of_filterMap_nodup hnodup hw hv rfl rfl
  cases heq
  rfl

theorem Inv.accepted_nodup (h : Inv size τ x) (w : Nat) : (accepted w τ).Nodup := by
  have hdec := (List.pairwise_append.mp (h.placed.accepted w)).2.1
  refine hdec.imp ?_
  rintro a b hlt rfl
  exact Nat.lt_irrefl _ hlt

theorem Inv.accepted_of_began (h : Inv size τ x) (hu : .began u w ∈ τ) : u ∈ accepted w τ := by
  obtain ⟨t, -, hb⟩ := h.task hu rfl
  rw [hb.accepted]
  exact List.mem_append_right _ (mem_begun.2 hu)

theorem Inv.began_of_finished (h : Inv size τ x) (hu : .finished u w ∈ τ) : .began u w ∈ τ := by
  obtain ⟨t, -, hb⟩ := h.task hu rfl
  exact mem_begun.1 (hb.begun.mem_iff.mpr (List.mem_append_right _ (mem_finished.2 hu)))

theorem Inv.begun_nodup (h : Inv size τ x) (w : Nat) : (begun w τ).Nodup := by
  cases hne : begun w τ with
  | nil => exact .nil
  | cons u l =>
    have hu : .began u w ∈ τ := mem_begun.1 (hne ▸ List.mem_cons_self)
    obtain ⟨t, -, hb⟩ := h.task hu rfl
    have hnodup := h.accepted_nodup w
    rw [hb.accepted] at hnodup
    exact hne ▸ (List.nodup_append.mp hnodup).2.1

theorem Inv.finished_nodup (h : Inv size τ x) (w : Nat) : (finished w τ).Nodup := by
  cases hne : finished w τ with
  | nil => exact .nil
  | cons u l =>
    have hu : .finished u w ∈ τ := mem_finished.1 (hne ▸ List.mem_cons_self)
    obtain ⟨t, -, hb⟩ := h.task hu rfl
    have hnodup := hb.begun.nodup_iff.mp (h.begun_nodup w)
    exact hne ▸ (List.nodup_append.mp hnodup).2.1

/-- No update is begun twice, by whatever worker. -/
theorem Inv.once (h : Inv size τ x) : (τ.filterMap (·.begun)).Nodup ∧ (τ.filterMap (·.handled)).Nodup := by
  constructor
  · refine nodup_of_owner (g := Event.task) (fun e he e' he' u hu hu' => ?_) fun c => ?_
    · cases e <;> cases hu
      cases e' <;> cases hu'
      obtain ⟨r, hr⟩ := mem_accepted.1 (h.accepted_of_began he)
      obtain ⟨r', hr'⟩ := mem_accepted.1 (h.accepted_of_began he')
      exact congrArg some (h.accepted_once hr hr')
    · cases c with
      | none =>
        rw [List.filterMap_eq_nil_iff.mpr]
        · exact .nil
        · intro e _
          cases e <;> rfl
      | some w =>
        have heq : (fun e : Event K => if e.task = some w then e.begun else none) = (·.begunBy w) := by
          funext e
          cases e <;> simp [Event.task, Event.begun, Event.begunBy]
        rw [heq]
        exact h.begun_nodup w
  · refine nodup_of_owner (g := Event.task) (fun e he e' he' u hu hu' => ?_) fun c => ?_
    · cases e <;> cases hu
      cases e' <;> cases hu'
      obtain ⟨r, hr⟩ := mem_accepted.1 (h.accepted_of_began (h.began_of_finished he))
      obtain ⟨r', hr'⟩ := mem_accepted.1 (h.accepted_of_began (h.began_of_finished he'))
      exact congrArg some (h.accepted_once hr hr')
    · cases c with
      | none =>
        rw [List.filterMap_eq_nil_iff.mpr]
        · exact .nil
        · intro e _
          cases e <;> rfl
      | some w =>
        have heq : (fun e : Event K => if e.task = some w then e.handled else none) = (·.finishedBy w) := by
          funext e
          cases e <;> simp [Event.task, Event.handled, Event.finishedBy]
        rw [heq]
        exact h.finished_nodup w

/-- What a worker accepted it has handled, or has still to handle, or it has
died with it. -/
theorem Inv.accounted (h : Inv size τ x) {r : Option Termination} (hu : .accepted u w r ∈ τ) :
    .finished u w ∈ τ ∨ Aborted τ w ∨ x.InWork w u := by
  obtain ⟨t, ht, hb⟩ := h.task hu rfl
  have hmem : (u ∈ t.queue ∨ u ∈ t.stage.unbegun) ∨ u ∈ t.stage.running ∨ u ∈ finished w τ := by
    have hacc : u ∈ accepted w τ := mem_accepted.2 ⟨r, hu⟩
    rw [hb.accepted, List.mem_append, List.mem_append, List.mem_reverse, hb.begun.mem_iff, List.mem_append] at hacc
    exact hacc
  cases hd : t.termination with
  | none =>
    rcases hmem with (hq | hs) | hr | hf
    · exact .inr (.inr ⟨t, ht, hd, .inl hq⟩)
    · exact .inr (.inr ⟨t, ht, hd, .inr (.inl hs)⟩)
    · exact .inr (.inr ⟨t, ht, hd, .inr (.inr hr)⟩)
    · exact .inl (mem_finished.1 hf)
  | some d =>
    by_cases hfin : d = .finished
    · subst hfin
      obtain ⟨hq, hs, hr⟩ := hb.stopped hd
      rw [hq, hs, hr] at hmem
      simp only [List.not_mem_nil, false_or] at hmem
      exact .inl (mem_finished.1 hmem)
    · exact .inr (.inl ⟨d, hfin, (hb.died d).mp hd⟩)

/-- Of the workers of a key, one at most is alive. -/
theorem Inv.alive_unique (h : Inv size τ x) {t s : Task K} {k : K} (ht : x.tasks[w]? = some t) (hs : x.tasks[v]? = some s)
    (halive : t.termination = none) (halive' : s.termination = none) (hk : t.key = some k) (hk' : s.key = some k) :
    w = v :=
  Nat.le_antisymm (h.owned.newest v s hs halive' k hk' w t ht hk) (h.owned.newest w t ht halive k hk v s hs hk')

/-- When an update of a key is about to be handled, the older ones have been. -/
theorem Inv.earlier (h : Inv size τ x) {t : Task K} {k : K} (ht : x.tasks[w]? = some t) (halive : t.termination = none)
    (hk : t.key = some k) (hstage : t.stage = .marked u) {r : Option Termination} (hu' : .accepted u' v r ∈ τ)
    (hk' : u'.key = some k) (hlt : u'.number < u.number) : .finished u' v ∈ τ ∨ Aborted τ v := by
  have hacc' : u' ∈ accepted v τ := mem_accepted.2 ⟨r, hu'⟩
  rcases h.accounted hu' with hf | ha | ⟨s, hs, halive', hwork⟩
  · exact .inl hf
  · exact .inr ha
  · have hkey := (h.ledger.balanced v s hs).keyed u' hacc'
    obtain rfl := h.alive_unique ht hs halive halive' hk (hkey.symm.trans hk')
    rw [ht] at hs
    cases hs
    have hb := h.ledger.balanced w t ht
    have hdec := (List.pairwise_append.mp (h.placed.accepted w)).2.1
    rw [hb.accepted, hstage] at hdec
    rw [hstage] at hwork
    simp only [Stage.unbegun, Stage.running, List.append_assoc, List.singleton_append] at hdec hwork
    rcases hwork with hq | hu | hr
    · have hgt := (List.pairwise_append.mp hdec).2.2 u' (List.mem_reverse.mpr hq) u List.mem_cons_self
      omega
    · rw [List.mem_singleton] at hu
      rw [hu] at hlt
      exact absurd hlt (Nat.lt_irrefl _)
    · cases hr

/-- Nor has a newer one begun. -/
theorem Inv.later (h : Inv size τ x) {t : Task K} {k : K} (ht : x.tasks[w]? = some t) (halive : t.termination = none)
    (hk : t.key = some k) (hstage : t.stage = .marked u) (hu' : .began u' v ∈ τ) (hk' : u'.key = some k) :
    u'.number < u.number := by
  have hb := h.ledger.balanced w t ht
  have hacc : u ∈ accepted w τ := by
    rw [hb.accepted, hstage]
    simp [Stage.unbegun]
  have hacc' := h.accepted_of_began hu'
  obtain ⟨s, hs, hb'⟩ := h.task hu' rfl
  have hkey' := (hb'.keyed u' hacc').symm.trans hk'
  have hkey := (hb.keyed u hacc).trans hk
  obtain hlt | rfl | hgt := Nat.lt_trichotomy v w
  · exact h.older v w hlt u' hacc' u hacc (by simp [hk']) (hk'.trans hkey.symm)
  · have hdec := (List.pairwise_append.mp (h.placed.accepted v)).2.1
    rw [hb.accepted, hstage] at hdec
    have hlast := (List.pairwise_append.mp hdec).2.2 u (List.mem_append_right _ List.mem_cons_self)
    exact hlast u' (mem_begun.2 hu')
  · exact absurd (h.owned.newest w t ht halive k hk v s hs hkey') (Nat.not_le.mpr hgt)

/-- A keyed worker begins with what it has marked. -/
theorem stage_of_began {x' : Sys K} {a : Action K} (h : Inv size τ x) (hs : Moves size x a x' (.began u w))
    (hk : u.key.isSome) : ∃ t, x.tasks[w]? = some t ∧ t.termination = none ∧ t.key = u.key ∧ t.stage = .marked u := by
  cases hs with
  | @task v t action t' _ _ ht halive _ hstep =>
    obtain rfl : v = w := by
      obtain ⟨-, he | ⟨q, he⟩ | ⟨q, he⟩ | ⟨d, he⟩⟩ := Task.step_event hstep <;> cases he
      rfl
    have hb := h.ledger.balanced v t ht
    have hb' := hb.step halive hstep
    have hacc' : u ∈ accepted v (.began u v :: τ) := by
      rw [hb'.accepted]
      exact List.mem_append_right _ (mem_begun.2 List.mem_cons_self)
    have hkey : t.key = u.key := (hb.keyed u (by simpa [Event.acceptedBy] using hacc')).symm
    have hstage := hb.stage.mp (by rwa [hkey])
    refine ⟨t, ht, halive, hkey, (Task.step_began hstep).resolve_right ?_⟩
    rintro ⟨running, hconc⟩
    exact hstage running hconc

end Orderly

/-- What a run of the dispatcher does with the updates of the listener. -/
structure Orderly [DecidableEq K] (τ : List (Event K)) (x : Sys K) : Prop where
  /-- Every update that was taken could not be routed, or got a key, and not both. -/
  arrivals : τ.filterMap (·.arrival) = (List.range x.taken).reverse
  /-- Those that got a key are accepted or reported as undeliverable, once and
  in order, but for the one in hand. -/
  placed : x.phase.hand.toList ++ τ.filterMap (·.placed) = τ.filterMap (·.routed)
  /-- What was accepted is finished, or aborted, or a living worker has it. -/
  accounted : ∀ u w r, .accepted u w r ∈ τ → .finished u w ∈ τ ∨ Aborted τ w ∨ x.InWork w u
  once : (τ.filterMap (·.begun)).Nodup ∧ (τ.filterMap (·.handled)).Nodup
  genuine : ∀ u w, (.finished u w ∈ τ → .began u w ∈ τ) ∧ (.began u w ∈ τ → ∃ r, .accepted u w r ∈ τ)
  /-- Two updates of a key are not handled at the same time. -/
  alone : ∀ (w v : Nat) (t s : Task K) (u u' : Update K), x.tasks[w]? = some t → x.tasks[v]? = some s →
    t.termination = none → s.termination = none → t.stage = .handling u → s.stage = .handling u' → u.key = u'.key →
    w = v ∧ u = u'
  /-- When one begins, those of its key that arrived before are finished or
  aborted, and none that arrived after has begun. -/
  order : ∀ τ₂ τ₁ u w, τ = τ₂ ++ .began u w :: τ₁ → u.key.isSome → ∀ u' v, u'.key = u.key →
    (∀ r, .accepted u' v r ∈ τ → u'.number < u.number → .finished u' v ∈ τ₁ ∨ Aborted τ₁ v) ∧
    (.began u' v ∈ τ₁ → u'.number < u.number)

section Orderly

variable [DecidableEq K] {size : Nat} {τ : List (Event K)} {x : Sys K}

theorem Run.orderly (hr : Run size τ x) : Orderly τ x where
  arrivals := hr.inv.placed.arrivals
  placed := hr.inv.placed.placed
  accounted _ _ _ := hr.inv.accounted
  once := hr.inv.once
  genuine _ _ := ⟨hr.inv.began_of_finished, fun hu => mem_accepted.1 (hr.inv.accepted_of_began hu)⟩
  alone w v t s u u' ht hs halive halive' hstage hstage' hkey := by
    have h := hr.inv
    have hown : ∀ (w : Nat) (t : Task K) (u : Update K), x.tasks[w]? = some t → t.stage = .handling u →
        t.key.isSome ∧ u.key = t.key := by
      intro w t u ht hstage
      have hb := h.ledger.balanced w t ht
      refine ⟨hb.stage.mpr (by simp [hstage]), hb.keyed u ?_⟩
      rw [hb.accepted]
      refine List.mem_append_right _ (hb.begun.mem_iff.mpr ?_)
      simp [hstage, Stage.running]
    obtain ⟨hsome, hk⟩ := hown w t u ht hstage
    obtain ⟨-, hk'⟩ := hown v s u' hs hstage'
    obtain ⟨k, hkt⟩ := Option.isSome_iff_exists.mp hsome
    obtain rfl := h.alive_unique ht hs halive halive' hkt (hk'.symm.trans (hkey.symm.trans (hk.trans hkt)))
    rw [ht] at hs
    cases hs
    rw [hstage] at hstage'
    cases hstage'
    exact ⟨rfl, rfl⟩
  order τ₂ τ₁ u w hτ hsome u' v hkey := by
    obtain ⟨x₁, a, x₂, hr₁, -, hs⟩ := hr.prior τ₂ _ τ₁ hτ
    have h₁ := Run.inv hr₁
    obtain ⟨t, ht, halive, htk, hstage⟩ := stage_of_began h₁ (moves_of_step hs) hsome
    obtain ⟨k, hk⟩ := Option.isSome_iff_exists.mp hsome
    refine ⟨fun r hacc hlt => ?_, fun hbegan => h₁.later ht halive (htk.trans hk) hstage hbegan (hkey.trans hk)⟩
    -- `u'` was accepted before `u` was
    refine h₁.earlier ht halive (htk.trans hk) hstage (r := r) ?_ (hkey.trans hk) hlt
    have hu : u ∈ τ₁.filterMap (·.placed) := by
      refine (accepted_sublist w).subset ?_
      rw [(h₁.ledger.balanced w t ht).accepted, hstage]
      simp [Stage.unbegun]
    rw [hτ, List.mem_append, List.mem_cons] at hacc
    rcases hacc with hacc | hacc | hacc
    · have hdec := hr.inv.placed.decreasing
      rw [← hr.inv.placed.placed, hτ, List.filterMap_append, List.filterMap_cons_none rfl] at hdec
      have hgt := (List.pairwise_append.mp (List.pairwise_append.mp hdec).2.1).2.2 u'
        (List.mem_filterMap.mpr ⟨_, hacc, rfl⟩) u hu
      omega
    · cases hacc
    · exact hacc

end Orderly

end Teloxide.Dispatching.Workers
