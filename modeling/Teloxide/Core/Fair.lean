import Mathlib
import Teloxide.Core.Machine

/-!
# Fair executions

An execution of a machine goes on forever; where no action is taken the state
stays as it is. Actions belong to tasks, or to none (`label`). An execution is
fair to a task when the task does not stay able to act for ever without acting.

* `Execution.run`: what an execution has shown so far is a run.
* `Execution.leadsTo`: as long as the goal is not reached, one task, the
  helper, can act, each of its actions lowers the measure, and no other action
  raises it or changes the helper. Then the goal is reached.
-/
namespace Teloxide.Core.Machine

variable {σ α ε ι : Type} {M : Machine σ α ε}

structure Execution (M : Machine σ α ε) where
  state : Nat → σ
  taken : Nat → Option (α × ε)
  init : M.init (state 0)
  step : ∀ n, match taken n with
    | some (a, e) => M.step (state n) a = some (state (n + 1), e)
    | none => state (n + 1) = state n

namespace Execution

/-- The events before the `n`-th state, newest first. -/
def history (x : M.Execution) : Nat → List ε
  | 0 => []
  | n + 1 =>
    match x.taken n with
    | some (_, e) => e :: x.history n
    | none => x.history n

theorem step_some (x : M.Execution) {n : Nat} {a : α} {e : ε} (h : x.taken n = some (a, e)) :
    M.step (x.state n) a = some (x.state (n + 1), e) ∧ x.history (n + 1) = e :: x.history n := by
  have hs := x.step n
  rw [h] at hs
  exact ⟨hs, by rw [history, h]⟩

theorem step_none (x : M.Execution) {n : Nat} (h : x.taken n = none) :
    x.state (n + 1) = x.state n ∧ x.history (n + 1) = x.history n := by
  have hs := x.step n
  rw [h] at hs
  exact ⟨hs, by rw [history, h]⟩

theorem run (x : M.Execution) (n : Nat) : M.Run anything (x.history n) (x.state n) := by
  induction n with
  | zero => exact .start x.init
  | succ n ih =>
    cases h : x.taken n with
    | none =>
      obtain ⟨hs, hh⟩ := x.step_none h
      rw [hs, hh]
      exact ih
    | some r =>
      obtain ⟨a, e⟩ := r
      obtain ⟨hs, hh⟩ := x.step_some h
      rw [hh]
      exact .step ih trivial hs

end Execution

/-- Some action of the task is possible. -/
def Enabled (M : Machine σ α ε) (label : α → Option ι) (t : ι) (s : σ) : Prop :=
  ∃ a, label a = some t ∧ (M.step s a).isSome

/-- The scheduler gives every task its turn. -/
def Execution.Fair (x : M.Execution) (label : α → Option ι) : Prop :=
  ∀ t n, (∀ m, n ≤ m → M.Enabled label t (x.state m)) → ∃ m a e, n ≤ m ∧ x.taken m = some (a, e) ∧ label a = some t

section LeadsTo

variable {label : α → Option ι} {P Q : List ε → σ → Prop} {μ : σ → Nat}

/-- What one step does on the way to the goal. -/
def Advances (label : α → Option ι) (P Q : List ε → σ → Prop) (μ : σ → Nat) (helper : σ → ι)
    (s : σ) (a : α) (τ' : List ε) (s' : σ) : Prop :=
  Q τ' s' ∨ P τ' s' ∧ (μ s' < μ s ∨ μ s' = μ s ∧ helper s' = helper s ∧ label a ≠ some (helper s))

theorem Execution.leadsTo {g : σ → ι} (x : M.Execution) (hfair : x.Fair label)
    (henabled : ∀ τ s, M.Run anything τ s → P τ s → M.Enabled label (g s) s)
    (hstep : ∀ τ s a s' e, M.Run anything τ s → P τ s → M.step s a = some (s', e) →
      Advances label P Q μ g s a (e :: τ) s') :
    ∀ n, P (x.history n) (x.state n) → ∃ m, n ≤ m ∧ Q (x.history m) (x.state m) := by
  intro n
  induction hk : μ (x.state n) using Nat.strongRecOn generalizing n with
  | ind k ih =>
    intro hP
    by_contra hnever
    -- nothing has happened since `n` that would lower the measure
    have hsame : ∀ m, n ≤ m → P (x.history m) (x.state m) ∧ μ (x.state m) = k ∧ g (x.state m) = g (x.state n) := by
      intro m hm
      induction hm with
      | refl => exact ⟨hP, hk, rfl⟩
      | @step m hm ihm =>
        obtain ⟨hPm, hkm, hhm⟩ := ihm
        cases htaken : x.taken m with
        | none =>
          obtain ⟨hs, hh⟩ := x.step_none htaken
          rw [hs, hh]
          exact ⟨hPm, hkm, hhm⟩
        | some r =>
          obtain ⟨a, e⟩ := r
          obtain ⟨hs, hh⟩ := x.step_some htaken
          rcases hstep _ _ _ _ _ (x.run m) hPm hs with hQ | ⟨hP', hlt | ⟨heq, hhelper, -⟩⟩
          · exact absurd ⟨m + 1, Nat.le_succ_of_le hm, hh ▸ hQ⟩ hnever
          · obtain ⟨j, hj, hQ⟩ := ih _ (hkm ▸ hlt) (m + 1) rfl (hh ▸ hP')
            exact absurd ⟨j, Nat.le_trans (Nat.le_succ_of_le hm) hj, hQ⟩ hnever
          · exact ⟨hh ▸ hP', heq.trans hkm, hhelper.trans hhm⟩
    obtain ⟨m, a, e, hm, htaken, hlabel⟩ := hfair (g (x.state n)) n fun m hm => by
      obtain ⟨hPm, -, hhm⟩ := hsame m hm
      rw [← hhm]
      exact henabled _ _ (x.run m) hPm
    obtain ⟨hPm, hkm, hhm⟩ := hsame m hm
    obtain ⟨hs, hh⟩ := x.step_some htaken
    rcases hstep _ _ _ _ _ (x.run m) hPm hs with hQ | ⟨-, hlt | ⟨-, -, hother⟩⟩
    · exact hnever ⟨m + 1, Nat.le_succ_of_le hm, hh ▸ hQ⟩
    · obtain ⟨-, hk', -⟩ := hsame (m + 1) (Nat.le_succ_of_le hm)
      omega
    · exact hother (hhm ▸ hlabel)

end LeadsTo

end Teloxide.Core.Machine
