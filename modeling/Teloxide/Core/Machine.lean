import Mathlib

/-!
# State machines and their runs

A `Machine` has start states and a partial step function: an action taken in a
state gives the next state and the event that is seen, or is not possible
there. A run is the list of the events seen so far, newest first, with the
state it has led to. `Run ok` are the runs in which every step is taken in a
state, and by an action, that `ok` allows.

* `Run.induct`: what holds at the start and is kept by every step holds of
  every run, the events included.
* `Run.path`: a run goes on along any path from where it has led.
* `run_of_exec`: executing a list of actions gives a run.
* `remembering`: the machine whose states carry the events so far, so that `ok`
  may look at them.
* `observing`: the machine whose steps show what an observer makes of them.
* `recording`: the machine whose steps show the state and the action as well.
* `history`: the events of a run in one list, where a step shows several.
-/
namespace Teloxide.Core

structure Machine (σ α ε : Type) where
  init : σ → Prop
  step : σ → α → Option (σ × ε)

namespace Machine

variable {σ α ε : Type} {M : Machine σ α ε} {ok : σ → α → Prop}

/-- The runs of `M` whose steps all meet `ok`; events newest first. -/
inductive Run (M : Machine σ α ε) (ok : σ → α → Prop) : List ε → σ → Prop
  | start {s} : M.init s → Run M ok [] s
  | step {τ s a s' e} : Run M ok τ s → ok s a → M.step s a = some (s', e) → Run M ok (e :: τ) s'

/-- Every action is allowed. -/
def anything (_ : σ) (_ : α) : Prop := True

theorem Run.mono {ok' : σ → α → Prop} (h : ∀ s a, ok s a → ok' s a) {τ : List ε} {s : σ}
    (hr : M.Run ok τ s) : M.Run ok' τ s := by
  induction hr with
  | start hi => exact .start hi
  | step _ ho hs ih => exact .step ih (h _ _ ho) hs

theorem Run.anything {τ : List ε} {s : σ} (hr : M.Run ok τ s) : M.Run anything τ s :=
  hr.mono fun _ _ _ => trivial

/-- The invariant rule. -/
theorem Run.induct {I : List ε → σ → Prop} (h0 : ∀ s, M.init s → I [] s)
    (hstep : ∀ τ s a s' e, M.Run ok τ s → I τ s → ok s a → M.step s a = some (s', e) → I (e :: τ) s')
    {τ : List ε} {s : σ} (hr : M.Run ok τ s) : I τ s := by
  induction hr with
  | start hi => exact h0 _ hi
  | step hr ho hs ih => exact hstep _ _ _ _ _ hr ih ho hs

/-- The run that led to an earlier event. -/
theorem Run.prior {τ : List ε} {s : σ} (hr : M.Run ok τ s) :
    ∀ τ₂ e τ₁, τ = τ₂ ++ e :: τ₁ → ∃ s₁ a s₂, M.Run ok τ₁ s₁ ∧ ok s₁ a ∧ M.step s₁ a = some (s₂, e) := by
  induction hr with
  | start _ => intro τ₂ e τ₁ h; simp at h
  | @step τ s a s' e' hr ho hs ih =>
    intro τ₂ e τ₁ h
    cases τ₂ with
    | nil =>
      obtain ⟨rfl, rfl⟩ := List.cons.inj h
      exact ⟨s, a, s', hr, ho, hs⟩
    | cons e₂ τ₂ =>
      obtain ⟨-, h⟩ := List.cons.inj h
      exact ih τ₂ e τ₁ h

/-- The events of the steps from one state to another, newest first. -/
inductive Path (M : Machine σ α ε) : σ → List ε → σ → Prop
  | refl {s} : Path M s [] s
  | step {s τ s' a s'' e} : Path M s τ s' → M.step s' a = some (s'', e) → Path M s (e :: τ) s''

/-- A run goes on along a path. -/
theorem Run.path {τ : List ε} {s : σ} (hr : M.Run Machine.anything τ s) {τ' : List ε} {s' : σ} (hp : M.Path s τ' s') :
    M.Run Machine.anything (τ' ++ τ) s' := by
  induction hp with
  | refl => exact hr
  | step _ hs ih => exact .step ih trivial hs

/-- Executes a list of actions that `ok` allows; events newest first, in front
of `τ`. -/
def exec (M : Machine σ α ε) (ok : σ → α → Prop) [∀ s a, Decidable (ok s a)] :
    List ε → σ → List α → Option (List ε × σ)
  | τ, s, [] => some (τ, s)
  | τ, s, a :: as =>
    if ok s a then
      match M.step s a with
      | some (s', e) => exec M ok (e :: τ) s' as
      | none => none
    else none

theorem run_of_exec [∀ s a, Decidable (ok s a)] {τ : List ε} {s : σ} (hr : M.Run ok τ s) :
    ∀ {as : List α} {τ' s'}, M.exec ok τ s as = some (τ', s') → M.Run ok τ' s' := by
  intro as
  induction as generalizing τ s with
  | nil =>
    intro τ' s' h
    simp only [exec, Option.some.injEq, Prod.mk.injEq] at h
    obtain ⟨rfl, rfl⟩ := h
    exact hr
  | cons a as ih =>
    intro τ' s' h
    simp only [exec] at h
    split at h
    · rename_i ho
      split at h
      · rename_i s₁ e hs
        exact ih (.step hr ho hs) h
      · cases h
    · cases h

/-- The machine that remembers the events it has shown, newest first. -/
def remembering (M : Machine σ α ε) : Machine (List ε × σ) α ε where
  init s := s.1 = [] ∧ M.init s.2
  step s a := (M.step s.2 a).map fun r => ((r.2 :: s.1, r.1), r.2)

theorem remembering_step {s s' : List ε × σ} {a : α} {e : ε} (h : M.remembering.step s a = some (s', e)) :
    M.step s.2 a = some (s'.2, e) ∧ s'.1 = e :: s.1 := by
  obtain ⟨r, hr, he⟩ := Option.map_eq_some_iff.1 h
  cases he
  exact ⟨hr, rfl⟩

/-- What a machine remembers is its run. -/
theorem Run.remembered {ok : List ε × σ → α → Prop} {τ : List ε} {s : List ε × σ} (hr : M.remembering.Run ok τ s) :
    s.1 = τ ∧ M.Run Machine.anything τ s.2 := by
  induction hr with
  | start hi => exact ⟨hi.1, .start hi.2⟩
  | step _ _ hs ih =>
    obtain ⟨hstep, hτ⟩ := remembering_step hs
    exact ⟨by rw [hτ, ih.1], .step ih.2 trivial hstep⟩

/-- The machine whose steps show what `see` makes of them. -/
def observing {ω : Type} (M : Machine σ α ε) (see : σ → α → σ → List ω) : Machine σ α (List ω) where
  init := M.init
  step s a := (M.step s a).map fun r => (r.1, see s a r.1)

/-- The invariant rule for what is seen of a run, beside the run itself. -/
theorem Run.induct_observing {ω : Type} {see : σ → α → σ → List ω} {I : List (List ω) → σ → Prop}
    (h0 : ∀ s, M.init s → I [] s)
    (hstep : ∀ τ τ' s a s' e, M.Run ok τ' s → I τ s → ok s a → M.step s a = some (s', e) → I (see s a s' :: τ) s')
    {τ : List (List ω)} {s : σ} (hr : (M.observing see).Run ok τ s) : (∃ τ', M.Run ok τ' s) ∧ I τ s := by
  induction hr with
  | start hi => exact ⟨⟨_, .start hi⟩, h0 _ hi⟩
  | step _ ho hs ih =>
    obtain ⟨⟨τ', hr'⟩, hi⟩ := ih
    obtain ⟨r, hstepped, he⟩ := Option.map_eq_some_iff.mp hs
    cases he
    exact ⟨⟨_, .step hr' ho hstepped⟩, hstep _ _ _ _ _ _ hr' hi ho hstepped⟩

/-- The machine that shows each step with the state and the action it was taken in. -/
def recording (M : Machine σ α ε) : Machine σ α (σ × α × ε) where
  init := M.init
  step s a := (M.step s a).map fun r => (r.1, s, a, r.2)

theorem recording_step {s s' : σ} {a : α} {r : σ × α × ε} (h : M.recording.step s a = some (s', r)) :
    M.step s a = some (s', r.2.2) ∧ r = (s, a, r.2.2) := by
  obtain ⟨q, hq, he⟩ := Option.map_eq_some_iff.1 h
  cases he
  exact ⟨hq, rfl⟩

/-- What a machine records is its run. -/
theorem Run.recorded {τ : List (σ × α × ε)} {s : σ} (hr : M.recording.Run ok τ s) : M.Run ok (τ.map (·.2.2)) s := by
  induction hr with
  | start hi => exact .start hi
  | step _ ho hs ih => exact .step ih ho (recording_step hs).1

/-- Every run can be recorded. -/
theorem Run.record {τ : List ε} {s : σ} (hr : M.Run ok τ s) :
    ∃ τ', M.recording.Run ok τ' s ∧ τ'.map (·.2.2) = τ := by
  induction hr with
  | start hi => exact ⟨[], .start hi, rfl⟩
  | @step τ s a s' e _ ho hs ih =>
    obtain ⟨τ', hr', hτ⟩ := ih
    have hstep : M.recording.step s a = some (s', s, a, e) := by
      simp only [recording, hs, Option.map_some]
    exact ⟨(s, a, e) :: τ', .step hr' ho hstep, by rw [List.map_cons, hτ]⟩

instance (s : σ) (a : α) : Decidable (anything s a) := inferInstanceAs (Decidable True)

/-- All that was seen in a run whose steps show several things, newest first. -/
def history (τ : List (List ε)) : List ε := (τ.map List.reverse).flatten

theorem history_cons (e : List ε) (τ : List (List ε)) : history (e :: τ) = e.reverse ++ history τ := rfl

end Machine

end Teloxide.Core
