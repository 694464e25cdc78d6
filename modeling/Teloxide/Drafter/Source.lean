import Teloxide.Drafter.Types

/-!
# Preview sources

`crates/teloxide/src/drafter/source.rs`: what producers push into and the worker
reads snapshots from. `ReplacePreview` keeps the latest preview,
`AccumulatorSource` a user-owned accumulator; both are the one state below, over
the accumulator `replacePreview` in the first case. Every operation runs under
the lock of the source, so it is one step.
-/
namespace Teloxide.Drafter

/-- The trait; `Ambient` is what `snapshot(&self)` may read besides the state,
as an accumulator with an atomic does. There is always something to read.
mirrors source.rs:8-15 -/
structure DraftAccumulator (Preview : Type) where
  State : Type
  Update : Type
  Ambient : Type
  ambient : Nonempty Ambient
  apply : Update → State → State
  snapshot : State → Ambient → Option Preview
  resetSegment : State → State

/-- mirrors source.rs:24-29 -/
inductive SourceGate where
  | running
  | transition
  | closed
  deriving DecidableEq, Repr

variable {P : Type}

/-- mirrors source.rs:53-58, 150-155 -/
structure SourceState (A : DraftAccumulator P) where
  gate : SourceGate
  revision : DraftRevision
  accumulator : A.State
  dirtySince : Option Nat

/-- mirrors source.rs:18-22 -/
structure PreviewSnapshot (P : Type) where
  revision : DraftRevision
  preview : P

namespace SourceState

variable {A : DraftAccumulator P} (s : SourceState A)

/-- mirrors source.rs:162-173 -/
def new (accumulator : A.State) : SourceState A := ⟨.running, 0, accumulator, none⟩

/-- mirrors source.rs:90-103, 180-193 -/
def apply (update : A.Update) (now : Nat) : SourceState A × Except DraftPushError DraftRevision :=
  match s.gate with
  | .transition => (s, .error .closedForTransition)
  | .closed => (s, .error .closed)
  | .running =>
    let revision := min (s.revision + 1) u64Max
    ({ s with
        accumulator := A.apply update s.accumulator
        revision := revision
        dirtySince := some (s.dirtySince.getD now) }, .ok revision)

/-- mirrors source.rs:105-108, 195-198 -/
def snapshot (ambient : A.Ambient) : Option (PreviewSnapshot P) :=
  (A.snapshot s.accumulator ambient).map (⟨s.revision, ·⟩)

/-- mirrors source.rs:118-123, 208-213 -/
def markDelivered (revision : DraftRevision) : SourceState A :=
  if s.revision ≤ revision then { s with dirtySince := none } else s

/-- mirrors source.rs:125-130, 215-220 -/
def beginTransition : SourceState A := if s.gate = .running then { s with gate := .transition } else s

/-- mirrors source.rs:132-138, 222-228 -/
def reopenSegment : SourceState A :=
  { s with accumulator := A.resetSegment s.accumulator, gate := .running, revision := 0, dirtySince := none }

/-- mirrors source.rs:140-142, 230-232 -/
def close : SourceState A := { s with gate := .closed }

/-- mirrors source.rs:144-146, 234-236 -/
def isRunning : Bool := s.gate = .running

@[simp] theorem close_gate : s.close.gate = .closed := rfl
@[simp] theorem reopenSegment_gate : s.reopenSegment.gate = .running := rfl
@[simp] theorem reopenSegment_revision : s.reopenSegment.revision = 0 := rfl

@[simp] theorem markDelivered_gate (r : DraftRevision) : (s.markDelivered r).gate = s.gate := by
  unfold markDelivered; split <;> rfl

@[simp] theorem markDelivered_revision (r : DraftRevision) : (s.markDelivered r).revision = s.revision := by
  unfold markDelivered; split <;> rfl

@[simp] theorem markDelivered_snapshot (r : DraftRevision) (ambient : A.Ambient) :
    (s.markDelivered r).snapshot ambient = s.snapshot ambient := by
  unfold markDelivered; split <;> rfl

theorem snapshot_revision {ambient : A.Ambient} {snapshot : PreviewSnapshot P}
    (h : s.snapshot ambient = some snapshot) : snapshot.revision = s.revision := by
  obtain ⟨preview, -, rfl⟩ := Option.map_eq_some_iff.mp h
  rfl

theorem beginTransition_gate : s.beginTransition.gate = if s.gate = .running then .transition else s.gate := by
  unfold beginTransition; split <;> rfl

@[simp] theorem beginTransition_revision : s.beginTransition.revision = s.revision := by
  unfold beginTransition; split <;> rfl

theorem isRunning_iff : s.isRunning = true ↔ s.gate = .running := by simp [isRunning]

/-- A push is taken exactly while the gate is `Running`. -/
theorem apply_ok_iff (u : A.Update) (now : Nat) :
    (∃ r, (s.apply u now).2 = .ok r) ↔ s.gate = .running := by
  unfold apply
  cases s.gate <;> simp

@[simp] theorem apply_gate (u : A.Update) (now : Nat) : (s.apply u now).1.gate = s.gate := by
  unfold apply
  split <;> simp_all

/-- Revisions grow, up to the last one. -/
theorem apply_revision (u : A.Update) (now : Nat) (h : s.revision ≤ u64Max) :
    s.revision ≤ (s.apply u now).1.revision ∧ (s.apply u now).1.revision ≤ u64Max := by
  unfold apply
  split
  · exact ⟨Nat.le_refl _, h⟩
  · exact ⟨Nat.le_refl _, h⟩
  · exact ⟨Nat.le_min.mpr ⟨Nat.le_succ _, h⟩, Nat.min_le_right _ _⟩

end SourceState

/-- The accumulator that replaces the latest preview.
mirrors source.rs:86-103 -/
def replacePreview (P : Type) : DraftAccumulator P where
  State := Option P
  Update := P
  Ambient := Unit
  ambient := ⟨()⟩
  apply update _ := some update
  snapshot preview _ := preview
  resetSegment _ := none

/-- mirrors source.rs:62-64 -/
abbrev ReplacePreview (P : Type) := SourceState (replacePreview P)

/-- mirrors source.rs:66-78 -/
def ReplacePreview.new (P : Type) : ReplacePreview P := SourceState.new (none : Option P)

/-- mirrors source.rs:158-160 -/
abbrev AccumulatorSource (A : DraftAccumulator P) := SourceState A

end Teloxide.Drafter
