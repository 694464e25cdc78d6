import Mathlib

/-!
# Load of half-open intervals

Weighted events that count from `start` up to, and not at, `stop`: the load at an
instant is the weight of the events that count there. A sliding window is the
case `stop = start + d`: an event counts at `t` when `start` lies in `(t - d, t]`.

* `load_append_le`: when events come in the order of their starts, the load is
  bounded everywhere if it is within the bound where each event starts.
-/
namespace Teloxide.Core

variable {α T M : Type*} [LinearOrder T] [AddCommMonoid M]

/-- The weight of the events that count at `t`. -/
def load (start stop : α → T) (weight : α → M) (l : List α) (t : T) : M :=
  ((l.filter fun a => decide (start a ≤ t) && decide (t < stop a)).map weight).sum

variable {start stop : α → T} {weight : α → M}

@[simp] theorem load_nil (t : T) : load start stop weight [] t = 0 := rfl

theorem load_append (l l' : List α) (t : T) :
    load start stop weight (l ++ l') t = load start stop weight l t + load start stop weight l' t := by
  simp [load]

variable [PartialOrder M] [CanonicallyOrderedAdd M] [IsOrderedAddMonoid M]

theorem load_sublist_le {l l' : List α} (h : List.Sublist l l') (t : T) :
    load start stop weight l t ≤ load start stop weight l' t :=
  ((h.filter _).map _).sum_le_sum fun _ _ => zero_le

/-- After the last start the load only falls. -/
theorem load_le_of_started {l : List α} {t t' : T} (hs : ∀ a ∈ l, start a ≤ t) (ht : t ≤ t') :
    load start stop weight l t' ≤ load start stop weight l t := by
  have hsub : (l.filter fun a => decide (start a ≤ t') && decide (t' < stop a)) =
      (l.filter fun a => decide (start a ≤ t) && decide (t < stop a)).filter
        fun a => decide (start a ≤ t') && decide (t' < stop a) := by
    rw [List.filter_filter]
    refine List.filter_congr fun a ha => ?_
    have h₁ := hs a ha
    rw [Bool.eq_iff_iff]
    simp only [Bool.and_eq_true, decide_eq_true_eq]
    constructor
    · intro h
      exact ⟨h, h₁, ht.trans_lt h.2⟩
    · intro h
      exact h.1
  unfold load
  rw [hsub]
  exact (List.filter_sublist.map _).sum_le_sum fun _ _ => zero_le

theorem load_append_le {l : List α} {a : α} {c : M} (hs : ∀ b ∈ l, start b ≤ start a)
    (hl : ∀ t, load start stop weight l t ≤ c)
    (ha : load start stop weight l (start a) + weight a ≤ c) (t : T) :
    load start stop weight (l ++ [a]) t ≤ c := by
  rw [load_append]
  rcases lt_or_ge t (start a) with ht | ht
  · have hout : load start stop weight [a] t = 0 := by simp [load, not_le.2 ht]
    rw [hout, add_zero]
    exact hl t
  · have hone : load start stop weight [a] t ≤ weight a := by
      simp only [load, List.filter_cons, List.filter_nil]
      split
      · simp
      · exact zero_le
    exact (add_le_add (load_le_of_started hs ht) hone).trans ha

end Teloxide.Core
