import Teloxide.Outbound.Scheduler.Budget

/-!
# Calls that leave the windows and the penalties alone

Most calls of the scheduler move references and jobs only. `accounts` is what
the others are about: the rate windows with their limits, and the penalties.
-/
namespace Teloxide.Outbound

open Teloxide.Core

namespace SchedulerState

def accounts (s : SchedulerState) := (s.rates, s.penalties)

theorem Quiet.accounts {s s' : SchedulerState} (h : Quiet s s') : s'.accounts = s.accounts := by
  have hb := h.budgets
  simp only [SchedulerState.budgets, Prod.mk.injEq] at hb
  simp only [SchedulerState.accounts, SchedulerState.rates, hb.1, hb.2.1, hb.2.2.1, hb.2.2.2.1, hb.2.2.2.2,
    h.classLimits, h.chatLimits, h.globalLimits]

theorem Quiet.rates {s s' : SchedulerState} (h : Quiet s s') : s'.rates = s.rates := congrArg (·.1) h.accounts
theorem Quiet.penalties {s s' : SchedulerState} (h : Quiet s s') : s'.penalties = s.penalties :=
  congrArg (·.2) h.accounts

theorem rebaseSequences_accounts (s : SchedulerState) : s.rebaseSequences.accounts = s.accounts := by
  unfold rebaseSequences
  split
  · rfl
  · split
    · have hq := (rekeyAll_quiet s.candidates.entries s.rankSequences).accounts
      exact hq
    · rfl

theorem takeSequence_accounts (s : SchedulerState) : s.takeSequence.1.accounts = s.accounts := by
  unfold takeSequence
  dsimp only
  split
  · exact s.rebaseSequences_accounts
  · rfl

theorem removeWaiting_accounts (s : SchedulerState) (id : JobId) (now : Nat) :
    (s.removeWaiting id now).accounts = s.accounts := by
  unfold removeWaiting
  split
  · rfl
  · rename_i job _
    have h₁ := ((s.countLeftovers_quiet job).trans (releaseOwned_quiet _ id job now)).accounts
    obtain ⟨coalesce, h₂, -⟩ := ((s.countLeftovers job).releaseOwned id job now).eraseJob_eq id job
    rw [(forgetEntry_quiet _ job now).accounts, h₂]
    exact h₁

theorem addJob_accounts (s : SchedulerState) (metadata : OutboundMeta) (options : EnqueueOptions)
    (slot : Slot) : (s.addJob metadata options slot).1.accounts = s.accounts := by
  obtain ⟨jobs, lanes, p, h₁⟩ := s.entered_eq metadata options slot
  have h₂ := (s.placeJob_quiet metadata options slot).accounts
  unfold addJob
  rw [(compactAll_quiet _).accounts]
  have h₃ (s' : SchedulerState) (job : JobId) (key) : (s'.putCoalesceEntry job key).accounts = s'.accounts := by
    unfold putCoalesceEntry
    split <;> rfl
  rw [h₃, h₂, h₁]
  rfl

theorem enqueue_accounts (s : SchedulerState) (metadata : OutboundMeta) (options : EnqueueOptions) :
    (s.enqueue metadata options).1.accounts = s.accounts := by
  have hc := s.enqueue_cases metadata options
  generalize (s.enqueue metadata options).1 = s', (s.enqueue metadata options).2 = r at hc ⊢
  cases hc with
  | refused => rfl
  | full => exact s.takeSequence_accounts
  | fresh => rw [addJob_accounts, takeSequence_accounts]
  | replaced => rw [addJob_accounts, removeWaiting_accounts]

theorem cancel_accounts (s : SchedulerState) (id : JobId) (now : Nat) : (s.cancel id now).accounts = s.accounts := by
  unfold cancel
  rw [(compactBlockedIfNeeded_quiet _).accounts, (compactDelayedIfNeeded_quiet _).accounts, removeWaiting_accounts]

theorem start_accounts (s : SchedulerState) (id : JobId) (now : Nat) : (s.start id now).accounts = s.accounts := by
  have h := s.start_starts id now
  generalize s.start id now = s' at h ⊢
  cases h with
  | nothing => rfl
  | freed _ _ _ _ _ hq => exact hq.accounts

theorem promoteDelayedLoop_accounts (now : Nat) :
    ∀ (n : Nat) (s : SchedulerState), (promoteDelayedLoop now n s).accounts = s.accounts
  | 0, _ => rfl
  | n + 1, s => by
    unfold promoteDelayedLoop
    split
    · rfl
    · split
      · rfl
      · rename_i top _ _
        rw [promoteDelayedLoop_accounts now n]
        have h (s' : SchedulerState) (id : JobId) : (s'.wakeDelayed id now).accounts = s'.accounts := by
          unfold wakeDelayed
          split
          · rfl
          · dsimp only
            split
            · rw [(pushLaneHeadCandidate_quiet _ _ _).accounts]
              rfl
            · rw [(pushJobCandidate_quiet _ _ _).accounts]
              rfl
        rw [h]
        rfl

theorem beginPass_accounts {s s' : SchedulerState} {order : List WindowRef} {fuel now : Nat}
    (h : s.beginPass order fuel now = some s') : s'.accounts = s.accounts := by
  obtain ⟨s₁, h₁, -, rfl⟩ := beginPass_cases h
  unfold awaken at h₁
  rw [Option.map_eq_some_iff] at h₁
  obtain ⟨s₀, h₀, rfl⟩ := h₁
  rw [(compactLanesIfNeeded_quiet _).accounts, (promoteReservations_quiet _ _ _).accounts,
    (promoteBlocked_quiet _ _).accounts]
  exact (promoteDelayedLoop_accounts now _ s₀).trans (promoteAging_quiet h₀).accounts

end SchedulerState

end Teloxide.Outbound
