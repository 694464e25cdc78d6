import Mathlib
import Teloxide.Core.Machine
import Teloxide.Drafter.Telegram

/-!
# What becomes of the status previews

`StatusThenTextBackend` and `StatusThenRichBackend` of
`crates/teloxide/src/drafter/telegram.rs`, under any sequence of calls with any
answers. `seen` is what a call requests and what it is told; `machine` puts it
beside the backend.

* `Accounted`: every preview that was sent is the active one, is pending, is
  kept, or its deletion was requested. It holds of every run.
* `Rotates`: no update edits a preview from before the last successful commit.
* `Reported`: every failed deletion is in the slot of `take_cleanup_failure` or
  was handed out.

The last two need a `careful` caller: an update after a commit edits the old
preview until it is detached, which `StatusCleanup::Keep` never does, and the
slot has room for one failure.
-/
namespace Teloxide.Drafter.StatusThen

open Core.Machine (history history_cons)

/-! ## Calls -/

/-- A call of the backend, with the answers it gets. -/
inductive Call where
  | update (replies : Replies)
  | commitSegment (replies : Replies)
  | finish (replies : Replies)
  | prepareCleanup
  | cleanupAfterDelivery (replies : Replies)
  | abort (replies : Replies)
  | takeCleanupFailure
  /-- the future of a call is dropped -/
  | cut (call : BackendCall) (deleted : Nat) (replies : Replies)

/-- What a call does outside of the backend. -/
inductive Seen where
  | sent (id : MessageId)
  | edited (id : MessageId)
  /-- `commit_segment` succeeds while this preview is the active one -/
  | committed (active : Option MessageId)
  /-- there is no active preview any more -/
  | detached
  /-- the deletion is requested -/
  | deleting (id : MessageId)
  | failed (failure : CleanupFailure)
  | reported (failure : CleanupFailure)
  deriving DecidableEq

variable (b : StatusThen)

/-- The state after a call. -/
def after : Call → StatusThen
  | .update replies => (b.update replies).1
  | .commitSegment replies | .finish replies => (b.send replies).1
  | .prepareCleanup => b.prepareCleanupAfterDelivery.2
  | .cleanupAfterDelivery replies => (b.cleanupAfterDelivery replies).1
  | .abort replies => (b.abort replies).1
  | .takeCleanupFailure => { b with cleanupFailure := none }
  | .cut call deleted replies => b.cut call deleted replies

/-- The deletions of `cleanup_after_delivery`.
mirrors telegram.rs:1132-1138 -/
def deletions (replies : Replies) : List MessageId → Nat → List Seen
  | [], _ => []
  | id :: rest, k =>
    match replies k with
    | .ok _ => .deleting id :: deletions replies rest (k + 1)
    | .error error => .deleting id :: .failed ⟨id, error⟩ :: deletions replies rest (k + 1)

/-- The deletions of `abort`; it returns the first failure.
mirrors telegram.rs:1171-1174 -/
def deletionsWhileOk (replies : Replies) : List MessageId → Nat → List Seen
  | [], _ => []
  | id :: rest, k =>
    match replies k with
    | .ok _ => .deleting id :: deletionsWhileOk replies rest (k + 1)
    | .error error => [.deleting id, .failed ⟨id, error⟩, .reported ⟨id, error⟩]

/-- What a call does, in order.
mirrors telegram.rs:1063-1176 -/
def seen : Call → List Seen
  | .update replies =>
    match b.previewMessageId, replies 0 with
    | some id, _ => [.edited id]
    | none, .ok message => [.sent message.id]
    | none, .error _ => []
  | .commitSegment replies => if (b.send replies).2.isOk then [.committed b.previewMessageId] else []
  | .finish _ => []
  | .prepareCleanup => if b.cleanup = .deleteAfterFinalSuccess then [.detached] else []
  | .cleanupAfterDelivery replies =>
    if b.cleanup = .deleteAfterFinalSuccess then deletions replies b.pendingCleanupMessageIds 0 else []
  | .abort replies =>
    if b.cleanup = .deleteAfterFinalSuccess then
      .detached :: deletionsWhileOk replies b.detach.pendingCleanupMessageIds 0
    else []
  | .takeCleanupFailure => b.cleanupFailure.toList.map .reported
  | .cut .update _ _ => b.previewMessageId.toList.map .edited
  | .cut .deliver _ _ => []
  | .cut .cleanupAfterDelivery deleted replies =>
    if b.cleanup = .deleteAfterFinalSuccess then deletions replies (b.pendingCleanupMessageIds.take deleted) 0 else []
  | .cut .abort deleted _ =>
    if b.cleanup = .deleteAfterFinalSuccess then
      .detached :: (b.detach.pendingCleanupMessageIds.take deleted).map .deleting
    else []

/-- A backend that starts with a policy, and the calls of it. -/
def machine : Core.Machine StatusThen Call (List Seen) where
  init b := ∃ policy, b = { new with cleanup := policy }
  step b call := some (b.after call, b.seen call)

/-! ## What is asked of a history -/

def sentIds (h : List Seen) : List MessageId :=
  h.filterMap fun | .sent id => some id | _ => none

/-- The previews that were sent before the last successful commit. -/
def rotated : List Seen → List MessageId
  | [] => []
  | .committed _ :: h => sentIds h
  | _ :: h => rotated h

def failures (h : List Seen) : List CleanupFailure :=
  h.filterMap fun | .failed failure => some failure | _ => none

def reports (h : List Seen) : List CleanupFailure :=
  h.filterMap fun | .reported failure => some failure | _ => none

/-- No sent preview is lost. -/
def Accounted (h : List Seen) : Prop :=
  ∀ id ∈ sentIds h, b.previewMessageId = some id ∨ id ∈ b.pendingCleanupMessageIds ∨ b.cleanup = .keep ∨
    .deleting id ∈ h

/-- Every edit is of a preview that is younger than the last commit before it. -/
def Rotates : List Seen → Prop
  | [] => True
  | .edited id :: h => id ∉ rotated h ∧ Rotates h
  | _ :: h => Rotates h

/-- Every failed deletion was handed out, or is next to be. -/
def Reported (h : List Seen) : Prop := (failures h).Perm (b.cleanupFailure.toList ++ reports h)

/-! ## The careful caller -/

/-- The active preview is older than the last successful commit. -/
def owes : List Seen → Bool
  | [] => false
  | .detached :: _ => false
  | .committed (some _) :: _ => true
  | _ :: h => owes h

/-- Telegram gives every message an id of its own. -/
def newId (h : List Seen) (call : Call) : Prop := ∀ id ∈ sentIds (b.seen call), id ∉ sentIds h

/-- No update while an old preview is active; no second failure while one waits
to be taken. -/
def careful (h : List Seen) : Call → Prop
  | .update _ | .cut .update _ _ => owes h = false
  | .cleanupAfterDelivery replies =>
    (failures (b.seen (.cleanupAfterDelivery replies))).length + b.cleanupFailure.toList.length ≤ 1
  | .cut .cleanupAfterDelivery deleted replies =>
    (failures (b.seen (.cut .cleanupAfterDelivery deleted replies))).length + b.cleanupFailure.toList.length ≤ 1
  | _ => True

/-! ## What a call does -/

/-- Deletions and their reports, which leave the active preview alone. -/
def Seen.quiet : Seen → Bool
  | .deleting _ | .failed _ | .reported _ => true
  | _ => false

/-- The pending previews of `b` are pending in `b'`, or their deletion is
requested. -/
def Kept (b : StatusThen) (evs : List Seen) (b' : StatusThen) : Prop :=
  ∀ id ∈ b.pendingCleanupMessageIds, id ∈ b'.pendingCleanupMessageIds ∨ .deleting id ∈ evs

/-- What a call can do to the previews. -/
inductive Does (b : StatusThen) : List Seen → StatusThen → Prop
  | sends {b' id} : b.previewMessageId = none → b'.previewMessageId = some id → Kept b [] b' → Does b [.sent id] b'
  | edits {b' id} : b.previewMessageId = some id → b'.previewMessageId = some id → Kept b [] b' →
      Does b [.edited id] b'
  | commits {b'} : b'.previewMessageId = b.previewMessageId → Kept b [] b' →
      Does b [.committed b.previewMessageId] b'
  | deletes {b' evs} : b'.previewMessageId = b.previewMessageId → (∀ e ∈ evs, e.quiet = true) → Kept b evs b' →
      Does b evs b'
  | detaches {b' evs} : b'.previewMessageId = none → (∀ e ∈ evs, e.quiet = true) → Kept b.detach evs b' →
      Does b (.detached :: evs) b'

theorem Kept.refl (b : StatusThen) (evs : List Seen) : Kept b evs b := fun _ h => .inl h

theorem detach_preview : b.detach.previewMessageId = none := by
  unfold detach
  cases h : b.previewMessageId <;> simp [h]

theorem detach_cleanup : b.detach.cleanup = b.cleanup := by
  unfold detach
  cases b.previewMessageId <;> rfl

theorem detach_failure : b.detach.cleanupFailure = b.cleanupFailure := by
  unfold detach
  cases b.previewMessageId <;> rfl

theorem mem_detach {id : MessageId} :
    id ∈ b.detach.pendingCleanupMessageIds ↔ id ∈ b.pendingCleanupMessageIds ∨ b.previewMessageId = some id := by
  unfold detach
  cases b.previewMessageId <;> simp [eq_comm]

/-! ### Deletions -/

section
variable (replies : Replies)

theorem deletions_quiet (ids : List MessageId) (k : Nat) : ∀ e ∈ deletions replies ids k, e.quiet = true := by
  induction ids generalizing k with
  | nil => simp [deletions]
  | cons id rest ih =>
    intro e he
    unfold deletions at he
    split at he <;> simp only [List.mem_cons] at he
    · rcases he with rfl | he
      · rfl
      · exact ih (k + 1) e he
    · rcases he with rfl | rfl | he
      · rfl
      · rfl
      · exact ih (k + 1) e he

theorem mem_deletions {ids : List MessageId} {id : MessageId} (h : id ∈ ids) (k : Nat) :
    .deleting id ∈ deletions replies ids k := by
  induction ids generalizing k with
  | nil => cases h
  | cons x rest ih =>
    unfold deletions
    rcases List.mem_cons.mp h with rfl | h
    · split <;> exact List.mem_cons_self
    · have hm := ih h (k + 1)
      split <;> simp [hm]

theorem reports_deletions (ids : List MessageId) (k : Nat) : reports (deletions replies ids k) = [] := by
  induction ids generalizing k with
  | nil => rfl
  | cons id rest ih =>
    have h := ih (k + 1)
    unfold deletions
    split <;> simpa [reports] using h

theorem deletionsWhileOk_quiet (ids : List MessageId) (k : Nat) :
    ∀ e ∈ deletionsWhileOk replies ids k, e.quiet = true := by
  induction ids generalizing k with
  | nil => simp [deletionsWhileOk]
  | cons id rest ih =>
    intro e he
    unfold deletionsWhileOk at he
    split at he
    · rcases List.mem_cons.mp he with rfl | he
      · rfl
      · exact ih (k + 1) e he
    · simp only [List.mem_cons, List.not_mem_nil, or_false] at he
      rcases he with rfl | rfl | rfl <;> rfl

/-- `abort` returns what fails. -/
theorem deletionsWhileOk_failures (ids : List MessageId) (k : Nat) :
    failures (deletionsWhileOk replies ids k) = reports (deletionsWhileOk replies ids k) := by
  induction ids generalizing k with
  | nil => rfl
  | cons id rest ih =>
    have h := ih (k + 1)
    unfold deletionsWhileOk
    split
    · simpa [failures, reports] using h
    · rfl

theorem deleteAll_fields (ids : List MessageId) (b : StatusThen) (k : Nat) :
    (deleteAll replies b ids k).previewMessageId = b.previewMessageId ∧
      (deleteAll replies b ids k).cleanup = b.cleanup ∧
      (deleteAll replies b ids k).cleanupFailure =
        (failures (deletions replies ids k)).getLast?.or b.cleanupFailure := by
  induction ids generalizing b k with
  | nil => exact ⟨rfl, rfl, rfl⟩
  | cons id rest ih =>
    unfold deleteAll deletions
    cases hr : replies k with
    | ok message =>
      obtain ⟨hp, hc, hf⟩ := ih b (k + 1)
      exact ⟨hp, hc, by simpa [failures, hr] using hf⟩
    | error error =>
      obtain ⟨hp, hc, hf⟩ := ih { b with cleanupFailure := some ⟨id, error⟩ } (k + 1)
      refine ⟨hp, hc, hf.trans ?_⟩
      have hcons : failures (.deleting id :: .failed ⟨id, error⟩ :: deletions replies rest (k + 1)) =
          ⟨id, error⟩ :: failures (deletions replies rest (k + 1)) := rfl
      rw [hcons, List.getLast?_cons]
      cases (failures (deletions replies rest (k + 1))).getLast? <;> rfl

theorem deleteWhileOk_fields (ids : List MessageId) (b : StatusThen) (k : Nat) :
    (deleteWhileOk b replies ids k).1.previewMessageId = b.previewMessageId ∧
      (deleteWhileOk b replies ids k).1.cleanup = b.cleanup ∧
      (deleteWhileOk b replies ids k).1.cleanupFailure = b.cleanupFailure ∧
      ∀ id ∈ ids, id ∈ (deleteWhileOk b replies ids k).1.pendingCleanupMessageIds ∨
        .deleting id ∈ deletionsWhileOk replies ids k := by
  induction ids generalizing k with
  | nil => exact ⟨rfl, rfl, rfl, by simp⟩
  | cons x rest ih =>
    unfold deleteWhileOk deletionsWhileOk
    cases hr : replies k with
    | error error => exact ⟨rfl, rfl, rfl, fun id h => .inl h⟩
    | ok message =>
      obtain ⟨hp, hc, hf, hk⟩ := ih (k + 1)
      refine ⟨hp, hc, hf, fun id h => ?_⟩
      rcases List.mem_cons.mp h with rfl | h
      · exact .inr List.mem_cons_self
      · exact (hk id h).imp_right (List.mem_cons_of_mem _)

end

/-! ### Calls -/

theorem update_does (replies : Replies) :
    Does b (b.seen (.update replies)) (b.after (.update replies)) := by
  have hk : Kept b [] (b.after (.update replies)) := by
    intro id h
    refine .inl ?_
    simp only [after, update]
    split <;> exact h
  cases hp : b.previewMessageId with
  | some id =>
    have h : (b.after (.update replies)).previewMessageId = some id := by
      cases hr : replies 0 <;> simp [after, update, takeContext, hp, hr]
    simpa [seen, hp] using Does.edits hp h hk
  | none =>
    cases hr : replies 0 with
    | ok message =>
      have h : (b.after (.update replies)).previewMessageId = some message.id := by
        simp [after, update, takeContext, hp, hr]
      simpa [seen, hp, hr] using Does.sends hp h hk
    | error error =>
      have h : (b.after (.update replies)).previewMessageId = b.previewMessageId := by
        simp [after, update, takeContext, hp, hr]
      simpa [seen, hp, hr] using Does.deletes h  (by simp) hk

theorem commitSegment_does (replies : Replies) :
    Does b (b.seen (.commitSegment replies)) (b.after (.commitSegment replies)) := by
  have hk : Kept b [] (b.after (.commitSegment replies)) := Kept.refl b []
  cases hr : (b.send replies).2.isOk with
  | true =>
    have hs : b.seen (.commitSegment replies) = [.committed b.previewMessageId] := by simp [seen, hr]
    rw [hs]
    exact .commits rfl hk
  | false =>
    have hs : b.seen (.commitSegment replies) = [] := by simp [seen, hr]
    rw [hs]
    exact .deletes rfl (by simp) hk

theorem prepareCleanup_does : Does b (b.seen .prepareCleanup) (b.after .prepareCleanup) := by
  by_cases hc : b.cleanup = .deleteAfterFinalSuccess
  · simp only [seen, after, prepareCleanupAfterDelivery, hc, if_true]
    exact .detaches b.detach_preview (by simp) (Kept.refl _ _)
  · simp only [seen, after, prepareCleanupAfterDelivery, hc, if_false]
    exact .deletes rfl (by simp) (Kept.refl _ _)

theorem cleanupAfterDelivery_does (replies : Replies) :
    Does b (b.seen (.cleanupAfterDelivery replies)) (b.after (.cleanupAfterDelivery replies)) := by
  by_cases hc : b.cleanup = .deleteAfterFinalSuccess
  · simp only [seen, after, cleanupAfterDelivery, takeContext, hc, if_true]
    exact .deletes (deleteAll_fields replies _ _ 0).1 (deletions_quiet replies _ 0)
      fun id h => .inr (mem_deletions replies h 0)
  · simp only [seen, after, cleanupAfterDelivery, takeContext, hc, if_false]
    exact .deletes rfl (by simp) (Kept.refl _ _)

theorem abort_does (replies : Replies) : Does b (b.seen (.abort replies)) (b.after (.abort replies)) := by
  by_cases hc : b.cleanup = .deleteAfterFinalSuccess
  · have hs : (b.seen (.abort replies)) =
        .detached :: deletionsWhileOk replies b.detach.pendingCleanupMessageIds 0 := by simp [seen, hc]
    have ha : b.after (.abort replies) =
        (b.takeContext.detach.deleteWhileOk replies b.takeContext.detach.pendingCleanupMessageIds 0).1 := by
      simp [after, abort, takeContext, hc]
    have hd : b.takeContext.detach.pendingCleanupMessageIds = b.detach.pendingCleanupMessageIds := by
      unfold detach takeContext
      cases b.previewMessageId <;> rfl
    obtain ⟨hp, -, -, hk⟩ := deleteWhileOk_fields replies b.detach.pendingCleanupMessageIds b.takeContext.detach 0
    rw [hs, ha, hd]
    exact .detaches (hp.trans (detach_preview _)) (deletionsWhileOk_quiet replies _ 0) hk
  · simp only [seen, after, abort, takeContext, hc, if_false]
    exact .deletes rfl (by simp) (Kept.refl _ _)

theorem cut_does (call : BackendCall) (deleted : Nat) (replies : Replies) :
    Does b (b.seen (.cut call deleted replies)) (b.after (.cut call deleted replies)) := by
  cases call with
  | update =>
    cases hp : b.previewMessageId with
    | some id =>
      have hs : b.seen (.cut .update deleted replies) = [.edited id] := by simp [seen, hp]
      rw [hs]
      exact .edits hp hp (Kept.refl b [])
    | none =>
      have hs : b.seen (.cut .update deleted replies) = [] := by simp [seen, hp]
      rw [hs]
      exact .deletes rfl (by simp) (Kept.refl b [])
  | deliver => exact .deletes rfl (by simp [seen]) (Kept.refl b _)
  | cleanupAfterDelivery =>
    by_cases hc : b.cleanup = .deleteAfterFinalSuccess
    · simp only [seen, after, cut, takeContext, hc, if_true]
      refine .deletes (deleteAll_fields replies _ _ 0).1 (deletions_quiet replies _ 0) fun id h => ?_
      rw [← List.take_append_drop deleted b.pendingCleanupMessageIds, List.mem_append] at h
      exact h.symm.imp_right fun h => mem_deletions replies h 0
    · simp only [seen, after, cut, takeContext, hc, if_false]
      exact .deletes rfl (by simp) (Kept.refl _ _)
  | abort =>
    by_cases hc : b.cleanup = .deleteAfterFinalSuccess
    · have hd : b.takeContext.detach.pendingCleanupMessageIds = b.detach.pendingCleanupMessageIds := by
        unfold detach takeContext
        cases b.previewMessageId <;> rfl
      have hs : b.seen (.cut .abort deleted replies) =
          .detached :: (b.detach.pendingCleanupMessageIds.take deleted).map .deleting := by simp [seen, hc]
      have ha : b.after (.cut .abort deleted replies) =
          { b.takeContext.detach with
            pendingCleanupMessageIds := b.takeContext.detach.pendingCleanupMessageIds.drop deleted } := by
        simp [after, cut, takeContext, hc]
      rw [hs, ha, hd]
      have hq : ∀ e ∈ (b.detach.pendingCleanupMessageIds.take deleted).map Seen.deleting, e.quiet = true := by
        intro e he
        obtain ⟨id, -, rfl⟩ := List.mem_map.mp he
        rfl
      refine .detaches (detach_preview b.takeContext) hq fun id h => ?_
      rw [← List.take_append_drop deleted b.detach.pendingCleanupMessageIds, List.mem_append] at h
      exact h.symm.imp_right fun h => List.mem_map.mpr ⟨id, h, rfl⟩
    · simp only [seen, after, cut, takeContext, hc, if_false]
      exact .deletes rfl (by simp) (Kept.refl _ _)

theorem does (call : Call) : Does b (b.seen call) (b.after call) := by
  cases call with
  | update replies => exact b.update_does replies
  | commitSegment replies => exact b.commitSegment_does replies
  | finish replies => exact .deletes rfl (by simp [seen]) (Kept.refl b _)
  | prepareCleanup => exact b.prepareCleanup_does
  | cleanupAfterDelivery replies => exact b.cleanupAfterDelivery_does replies
  | abort replies => exact b.abort_does replies
  | takeCleanupFailure =>
    refine .deletes rfl (fun e he => ?_) (Kept.refl b _)
    obtain ⟨failure, -, rfl⟩ := List.mem_map.mp he
    rfl
  | cut call deleted replies => exact b.cut_does call deleted replies

theorem after_cleanup (call : Call) : (b.after call).cleanup = b.cleanup := by
  cases call with
  | update replies =>
    simp only [after, update]
    split <;> rfl
  | prepareCleanup =>
    simp only [after, prepareCleanupAfterDelivery]
    split
    · exact b.detach_cleanup
    · rfl
  | cleanupAfterDelivery replies =>
    simp only [after, cleanupAfterDelivery]
    split
    · exact (deleteAll_fields replies _ _ 0).2.1
    · rfl
  | abort replies =>
    simp only [after, abort]
    split
    · exact (deleteWhileOk_fields replies _ _ 0).2.1.trans (detach_cleanup _)
    · rfl
  | cut call deleted replies =>
    cases call with
    | update | deliver => rfl
    | cleanupAfterDelivery =>
      simp only [after, cut]
      split
      · exact (deleteAll_fields replies _ _ 0).2.1
      · rfl
    | abort =>
      simp only [after, cut]
      split
      · exact detach_cleanup b.takeContext
      · rfl
  | commitSegment _ | finish _ | takeCleanupFailure => rfl

/-! ## No preview is lost -/

section
variable {b} {h : List Seen} {evs : List Seen} {b' : StatusThen}

theorem sentIds_append (g h : List Seen) : sentIds (g ++ h) = sentIds g ++ sentIds h := List.filterMap_append

theorem sentIds_quiet (hq : ∀ e ∈ evs, e.quiet = true) : sentIds evs = [] := by
  refine List.filterMap_eq_nil_iff.mpr fun e he => ?_
  have := hq e he
  cases e <;> first | rfl | cases this

/-- Nothing is lost by a step. -/
theorem Does.accounted (hd : Does b evs b') (hc : b'.cleanup = b.cleanup) (ha : Accounted b h) :
    Accounted b' (evs.reverse ++ h) := by
  intro id hid
  -- what was deleted or kept before still is
  have old (hs : id ∈ sentIds h) : b.previewMessageId = some id ∨ id ∈ b.pendingCleanupMessageIds ∨
      b'.cleanup = .keep ∨ .deleting id ∈ evs.reverse ++ h := by
    rcases ha id hs with hp | hp | hp | hp
    · exact .inl hp
    · exact .inr (.inl hp)
    · exact .inr (.inr (.inl (hc.trans hp)))
    · exact .inr (.inr (.inr (List.mem_append_right _ hp)))
  have moved (hk : Kept b evs b') (hp : id ∈ b.pendingCleanupMessageIds) :
      id ∈ b'.pendingCleanupMessageIds ∨ b'.cleanup = .keep ∨ .deleting id ∈ evs.reverse ++ h := by
    rcases hk id hp with hp | hp
    · exact .inl hp
    · exact .inr (.inr (List.mem_append_left _ (List.mem_reverse.mpr hp)))
  rw [sentIds_append, List.mem_append] at hid
  cases hd with
  | @sends _ x hn hs hk =>
    have hk' : Kept b [.sent x] b' := fun id hp => (hk id hp).imp_right fun h => by cases h
    rcases hid with hx | hid
    · obtain rfl : x = id := by simpa [sentIds, eq_comm] using hx
      exact .inl hs
    · rcases old hid with hp | hp | hp
      · rw [hn] at hp
        cases hp
      · exact .inr (moved hk' hp)
      · exact .inr (.inr hp)
  | @edits _ x hb hb' hk =>
    have hk' : Kept b [.edited x] b' := fun id hp => (hk id hp).imp_right fun h => by cases h
    rcases old (by simpa [sentIds] using hid) with hp | hp | hp
    · exact .inl (hb'.trans (hb.symm.trans hp))
    · exact .inr (moved hk' hp)
    · exact .inr (.inr hp)
  | commits hb' hk =>
    have hk' : Kept b [.committed b.previewMessageId] b' := fun id hp => (hk id hp).imp_right fun h => by cases h
    rcases old (by simpa [sentIds] using hid) with hp | hp | hp
    · exact .inl (hb'.trans hp)
    · exact .inr (moved hk' hp)
    · exact .inr (.inr hp)
  | deletes hb' hq hk =>
    rw [sentIds_quiet (fun e he => hq e (List.mem_reverse.mp he))] at hid
    rcases old (by simpa using hid) with hp | hp | hp
    · exact .inl (hb'.trans hp)
    · exact .inr (moved hk hp)
    · exact .inr (.inr hp)
  | @detaches _ evs hb' hq hk =>
    have hs : sentIds (.detached :: evs).reverse = [] := by
      rw [List.reverse_cons, sentIds_append, sentIds_quiet (fun e he => hq e (List.mem_reverse.mp he))]
      rfl
    rw [hs] at hid
    have hmoved (hp : id ∈ b.detach.pendingCleanupMessageIds) :
        id ∈ b'.pendingCleanupMessageIds ∨ b'.cleanup = .keep ∨ .deleting id ∈ (.detached :: evs).reverse ++ h := by
      rcases hk id hp with hp | hp
      · exact .inl hp
      · refine .inr (.inr (List.mem_append_left _ (List.mem_reverse.mpr (List.mem_cons_of_mem _ hp))))
    rcases old (by simpa using hid) with hp | hp | hp
    · exact .inr (hmoved ((mem_detach b).mpr (.inr hp)))
    · exact .inr (hmoved ((mem_detach b).mpr (.inl hp)))
    · exact .inr (.inr hp)

/-! ## Old previews -/

theorem rotated_sent (h : List Seen) : ∀ id ∈ rotated h, id ∈ sentIds h := by
  induction h with
  | nil => intro id hid; cases hid
  | cons e h ih =>
    intro id hid
    have hsub : id ∈ sentIds h → id ∈ sentIds (e :: h) := fun hm => by
      have : sentIds (e :: h) = sentIds [e] ++ sentIds h := sentIds_append [e] h
      rw [this]
      exact List.mem_append_right _ hm
    cases e with
    | committed active => exact hsub hid
    | _ => exact hsub (ih id hid)

/-- An old preview that is still active is owed for, and edits were in order. -/
structure Rotation (h : List Seen) (b : StatusThen) : Prop where
  edits : Rotates h
  owed : ∀ id, b.previewMessageId = some id → id ∈ rotated h → owes h = true

/-- Quiet events change neither. -/
theorem quiet_append (hq : ∀ e ∈ evs, e.quiet = true) :
    (Rotates (evs ++ h) ↔ Rotates h) ∧ rotated (evs ++ h) = rotated h ∧ owes (evs ++ h) = owes h := by
  induction evs with
  | nil => exact ⟨Iff.rfl, rfl, rfl⟩
  | cons e evs ih =>
    have hih := ih fun e he => hq e (List.mem_cons_of_mem _ he)
    have := hq e List.mem_cons_self
    cases e <;> first | exact hih | cases this

/-- A step that edits nothing old keeps the order. -/
theorem Does.rotation (hd : Does b evs b') (hn : ∀ id ∈ sentIds evs, id ∉ sentIds h)
    (ho : ∀ id, .edited id ∈ evs → owes h = false) (hr : Rotation h b) : Rotation (evs.reverse ++ h) b' := by
  cases hd with
  | @sends _ x _ hs _ =>
    refine ⟨hr.edits, fun id hid hm => ?_⟩
    obtain rfl : x = id := by simpa [hs] using hid
    exact absurd (rotated_sent h _ hm) (hn x List.mem_cons_self)
  | @edits _ x hb hb' _ =>
    have hold : x ∉ rotated h := fun hm => by
      have := hr.owed x hb hm
      rw [ho x List.mem_cons_self] at this
      cases this
    exact ⟨⟨hold, hr.edits⟩, fun id hid hm => hr.owed id (hb.trans (hb'.symm.trans hid)) hm⟩
  | commits hb' _ =>
    refine ⟨hr.edits, fun id hid _ => ?_⟩
    rw [hb'] at hid
    rw [hid]
    rfl
  | deletes hb' hq _ =>
    obtain ⟨he, hrot, ho'⟩ := quiet_append (h := h) fun e he => hq e (List.mem_reverse.mp he)
    refine ⟨he.mpr hr.edits, fun id hid hm => ?_⟩
    rw [hrot] at hm
    rw [ho']
    exact hr.owed id (hb'.symm.trans hid) hm
  | @detaches _ evs hb' hq _ =>
    have hsplit : (.detached :: evs).reverse ++ h = evs.reverse ++ (.detached :: h) := by simp
    rw [hsplit]
    refine ⟨((quiet_append fun e he => hq e (List.mem_reverse.mp he)).1).mpr hr.edits, fun id hid _ => ?_⟩
    rw [hb'] at hid
    cases hid

end

/-! ## Reports -/

theorem failures_append (g h : List Seen) : failures (g ++ h) = failures g ++ failures h := List.filterMap_append

theorem reports_append (g h : List Seen) : reports (g ++ h) = reports g ++ reports h := List.filterMap_append

/-- A slot takes one failure. -/
theorem toList_getLast?_or {l : List CleanupFailure} {o : Option CleanupFailure}
    (h : l.length + o.toList.length ≤ 1) : (l.getLast?.or o).toList = l ++ o.toList := by
  match l, o with
  | [], _ => rfl
  | [_], none => rfl
  | [_], some _ => simp at h
  | _ :: _ :: _, _ =>
    simp only [List.length_cons] at h
    omega

theorem cleanup_slot (replies : Replies) (ids : List MessageId)
    (h : (failures (deletions replies ids 0)).length + b.cleanupFailure.toList.length ≤ 1) :
    (failures (deletions replies ids 0) ++ b.cleanupFailure.toList).Perm
      ((deleteAll replies b ids 0).cleanupFailure.toList ++ reports (deletions replies ids 0)) := by
  rw [(deleteAll_fields replies ids b 0).2.2, toList_getLast?_or h, reports_deletions, List.append_nil]

/-- The failures of a call and the one that waited are handed out, or one waits. -/
theorem call_reports {h : List Seen} (call : Call) (hc : careful b h call) :
    (failures (b.seen call) ++ b.cleanupFailure.toList).Perm
      ((b.after call).cleanupFailure.toList ++ reports (b.seen call)) := by
  have same (evs : List Seen) (hf : failures evs = []) (hr : reports evs = []) (b' : StatusThen)
      (hb : b'.cleanupFailure = b.cleanupFailure) :
      (failures evs ++ b.cleanupFailure.toList).Perm (b'.cleanupFailure.toList ++ reports evs) := by
    simp [hf, hr, hb]
  cases call with
  | update replies =>
    apply same
    · cases hp : b.previewMessageId <;> cases hr : replies 0 <;> simp [seen, hp, hr, failures]
    · cases hp : b.previewMessageId <;> cases hr : replies 0 <;> simp [seen, hp, hr, reports]
    · simp only [after, update]
      split <;> rfl
  | commitSegment replies =>
    apply same
    · cases hr : (b.send replies).2.isOk <;> simp [seen, hr, failures]
    · cases hr : (b.send replies).2.isOk <;> simp [seen, hr, reports]
    · rfl
  | finish replies => exact same _ rfl rfl _ rfl
  | prepareCleanup =>
    apply same
    · by_cases hd : b.cleanup = .deleteAfterFinalSuccess <;> simp [seen, hd, failures]
    · by_cases hd : b.cleanup = .deleteAfterFinalSuccess <;> simp [seen, hd, reports]
    · simp only [after, prepareCleanupAfterDelivery]
      split
      · exact b.detach_failure
      · rfl
  | cleanupAfterDelivery replies =>
    by_cases hd : b.cleanup = .deleteAfterFinalSuccess
    · simp only [careful, seen, hd, if_true] at hc
      have ha : b.after (.cleanupAfterDelivery replies) = deleteAll replies b.takeContext b.pendingCleanupMessageIds 0 := by
        simp [after, cleanupAfterDelivery, takeContext, hd]
      simp only [ha, seen, hd, if_true]
      exact cleanup_slot b.takeContext replies _ hc
    · simp only [seen, after, cleanupAfterDelivery, takeContext, hd, if_false]
      exact same _ rfl rfl _ rfl
  | abort replies =>
    by_cases hd : b.cleanup = .deleteAfterFinalSuccess
    · have hs : (b.after (.abort replies)).cleanupFailure = b.cleanupFailure := by
        simp only [after, abort, takeContext, hd, if_true]
        exact (deleteWhileOk_fields replies _ _ 0).2.2.1.trans (detach_failure _)
      rw [hs]
      simp only [seen, hd, if_true]
      have hf := deletionsWhileOk_failures replies b.detach.pendingCleanupMessageIds 0
      have hcons (l : List Seen) : failures (.detached :: l) = failures l ∧ reports (.detached :: l) = reports l :=
        ⟨rfl, rfl⟩
      rw [(hcons _).1, (hcons _).2, hf]
      exact List.perm_append_comm
    · simp only [seen, after, abort, takeContext, hd, if_false]
      exact same _ rfl rfl _ rfl
  | takeCleanupFailure => cases hf : b.cleanupFailure <;> simp [seen, after, hf, failures, reports]
  | cut call deleted replies =>
    cases call with
    | update =>
      apply same
      · cases hp : b.previewMessageId <;> simp [seen, hp, failures]
      · cases hp : b.previewMessageId <;> simp [seen, hp, reports]
      · rfl
    | deliver => exact same _ rfl rfl _ rfl
    | cleanupAfterDelivery =>
      by_cases hd : b.cleanup = .deleteAfterFinalSuccess
      · simp only [careful, seen, hd, if_true] at hc
        have ha : (b.after (.cut .cleanupAfterDelivery deleted replies)).cleanupFailure =
            (deleteAll replies b.takeContext (b.pendingCleanupMessageIds.take deleted) 0).cleanupFailure := by
          simp [after, cut, takeContext, hd]
        simp only [ha, seen, hd, if_true]
        exact cleanup_slot b.takeContext replies _ hc
      · simp only [seen, after, cut, takeContext, hd, if_false]
        exact same _ rfl rfl _ rfl
    | abort =>
      by_cases hd : b.cleanup = .deleteAfterFinalSuccess
      · have hn (f : Seen → Option CleanupFailure) (hf : ∀ id, f (.deleting id) = none) (ids : List MessageId) :
            (ids.map Seen.deleting).filterMap f = [] := by simp [List.filterMap_map, hf]
        apply same
        · simp only [seen, hd, if_true]
          exact hn _ (fun _ => rfl) _
        · simp only [seen, hd, if_true]
          exact hn _ (fun _ => rfl) _
        · simp only [after, cut, takeContext, hd, if_true]
          exact detach_failure _
      · simp only [seen, after, cut, takeContext, hd, if_false]
        exact same _ rfl rfl _ rfl

theorem reported_step {h : List Seen} {call : Call} (hc : careful b h call) (hr : Reported b h) :
    Reported (b.after call) ((b.seen call).reverse ++ h) := by
  have hp := b.call_reports call hc
  have hf : (failures ((b.seen call).reverse ++ h)).Perm (failures (b.seen call) ++ failures h) := by
    rw [failures_append]
    exact ((List.reverse_perm _).filterMap _).append_right _
  have hs : (reports ((b.seen call).reverse ++ h)).Perm (reports (b.seen call) ++ reports h) := by
    rw [reports_append]
    exact ((List.reverse_perm _).filterMap _).append_right _
  calc failures ((b.seen call).reverse ++ h)
      |>.Perm (failures (b.seen call) ++ failures h) := hf
    List.Perm _ (failures (b.seen call) ++ (b.cleanupFailure.toList ++ reports h)) := hr.append_left _
    List.Perm _ ((failures (b.seen call) ++ b.cleanupFailure.toList) ++ reports h) := by rw [List.append_assoc]
    List.Perm _ (((b.after call).cleanupFailure.toList ++ reports (b.seen call)) ++ reports h) := hp.append_right _
    List.Perm _ ((b.after call).cleanupFailure.toList ++ (reports (b.seen call) ++ reports h)) := by
      rw [List.append_assoc]
    List.Perm _ ((b.after call).cleanupFailure.toList ++ reports ((b.seen call).reverse ++ h)) := hs.symm.append_left _

/-! ## Runs -/

/-- What a step of a run may be: the ids are new, and the caller is careful. -/
def heeds (s : List (List Seen) × StatusThen) (call : Call) : Prop :=
  newId s.2 (history s.1) call ∧ careful s.2 (history s.1) call

theorem machine_step {b b' : StatusThen} {call : Call} {e : List Seen} (h : machine.step b call = some (b', e)) :
    b' = b.after call ∧ e = b.seen call := by
  cases h
  exact ⟨rfl, rfl⟩

/-- Only updates edit. -/
theorem edited_owes {h : List Seen} {call : Call} (hc : careful b h call) :
    ∀ id, .edited id ∈ b.seen call → owes h = false := by
  intro id hm
  have quiet {evs : List Seen} (hq : ∀ e ∈ evs, e.quiet = true) (hm : .edited id ∈ evs) : owes h = false := by
    have := hq _ hm
    cases this
  cases call with
  | update replies => exact hc
  | commitSegment replies => cases hr : (b.send replies).2.isOk <;> simp [seen, hr] at hm
  | finish replies => cases hm
  | prepareCleanup => by_cases hd : b.cleanup = .deleteAfterFinalSuccess <;> simp [seen, hd] at hm
  | cleanupAfterDelivery replies =>
    by_cases hd : b.cleanup = .deleteAfterFinalSuccess
    · exact quiet (deletions_quiet replies _ 0) (by simpa [seen, hd] using hm)
    · simp [seen, hd] at hm
  | abort replies =>
    by_cases hd : b.cleanup = .deleteAfterFinalSuccess
    · exact quiet (deletionsWhileOk_quiet replies _ 0) (by simpa [seen, hd] using hm)
    · simp [seen, hd] at hm
  | takeCleanupFailure => cases hf : b.cleanupFailure <;> simp [seen, hf] at hm
  | cut call deleted replies =>
    cases call with
    | update => exact hc
    | deliver => cases hm
    | cleanupAfterDelivery =>
      by_cases hd : b.cleanup = .deleteAfterFinalSuccess
      · exact quiet (deletions_quiet replies _ 0) (by simpa [seen, hd] using hm)
      · simp [seen, hd] at hm
    | abort =>
      by_cases hd : b.cleanup = .deleteAfterFinalSuccess
      · simp only [seen, hd, if_true, List.mem_cons, List.mem_map] at hm
        rcases hm with hm | ⟨x, -, hm⟩ <;> cases hm
      · simp [seen, hd] at hm

theorem accounted_of_run {τ : List (List Seen)} {b : StatusThen} (hr : machine.Run Core.Machine.anything τ b) :
    Accounted b (history τ) := by
  refine hr.induct (I := fun τ b => Accounted b (history τ)) (fun b _ id hid => by cases hid) ?_
  intro τ b call b' e _ ha _ hs
  obtain ⟨rfl, rfl⟩ := machine_step hs
  exact (b.does call).accounted (b.after_cleanup call) ha

theorem heeded_of_run {τ : List (List Seen)} {s : List (List Seen) × StatusThen}
    (hr : machine.remembering.Run heeds τ s) : Rotation (history s.1) s.2 ∧ Reported s.2 (history s.1) := by
  refine hr.induct (I := fun _ s => Rotation (history s.1) s.2 ∧ Reported s.2 (history s.1)) ?_ ?_
  · rintro ⟨_, b⟩ ⟨rfl, policy, rfl⟩
    exact ⟨⟨trivial, fun id hid _ => by cases hid⟩, List.Perm.refl _⟩
  · rintro τ ⟨g, b⟩ call ⟨g', b'⟩ e _ ⟨hrot, hrep⟩ ⟨hn, hc⟩ hs
    obtain ⟨hstep, hg⟩ := Core.Machine.remembering_step hs
    obtain ⟨rfl, rfl⟩ := machine_step hstep
    dsimp only at hg hn hc hrot hrep ⊢
    rw [hg, history_cons]
    exact ⟨(b.does call).rotation hn (b.edited_owes hc) hrot, b.reported_step hc hrep⟩

/-- No preview is ever lost in any run; in the runs whose steps are all allowed by
`heeds`, no update edits a preview of an earlier segment and every failed
deletion is reported. -/
theorem cleanup_bookkeeping {ok : List (List Seen) × StatusThen → Call → Prop} {τ : List (List Seen)}
    {s : List (List Seen) × StatusThen} (hr : machine.remembering.Run ok τ s) :
    Accounted s.2 (history s.1) ∧
      ((∀ s call, ok s call → heeds s call) → Rotates (history s.1) ∧ Reported s.2 (history s.1)) := by
  obtain ⟨hτ, hplain⟩ := hr.remembered
  refine ⟨hτ ▸ accounted_of_run hplain, fun hok => ?_⟩
  exact (heeded_of_run (hr.mono hok)).imp_left Rotation.edits

/-! ### The two defects -/

def answer (reply : Except DrafterRequestError Message) : Replies := fun _ => reply

/-- `StatusCleanup::Keep`: the second segment begins with an edit of the first
one's preview, although the worker has called `prepare_cleanup_after_delivery`. -/
def keptRun : List Call :=
  [.update (answer (.ok ⟨1⟩)), .commitSegment (answer (.ok ⟨2⟩)), .prepareCleanup, .update (answer (.ok ⟨1⟩))]

/-- Two deletions fail in one cleanup, after an earlier cleanup was dropped. -/
def twoFailuresRun : List Call :=
  [.update (answer (.ok ⟨1⟩)), .commitSegment (answer (.ok ⟨2⟩)), .prepareCleanup,
    .cut .cleanupAfterDelivery 0 (answer (.error .timeout)),
    .update (answer (.ok ⟨3⟩)), .commitSegment (answer (.ok ⟨4⟩)), .prepareCleanup,
    .cleanupAfterDelivery (answer (.error (.inner .api))), .takeCleanupFailure]

instance : Decidable (newId b h call) := inferInstanceAs (Decidable (∀ id ∈ _, _))

instance (h : List Seen) (call : Call) : Decidable (careful b h call) :=
  match call with
  | .update _ | .cut .update _ _ => inferInstanceAs (Decidable (_ = false))
  | .cleanupAfterDelivery _ | .cut .cleanupAfterDelivery _ _ => inferInstanceAs (Decidable (_ ≤ 1))
  | .commitSegment _ | .finish _ | .prepareCleanup | .abort _ | .takeCleanupFailure | .cut .deliver _ _
  | .cut .abort _ _ => inferInstanceAs (Decidable True)

instance (s : List (List Seen) × StatusThen) (call : Call) : Decidable (heeds s call) :=
  inferInstanceAs (Decidable (_ ∧ _))

def decideRotates : (h : List Seen) → Decidable (Rotates h)
  | [] => inferInstanceAs (Decidable True)
  | .edited id :: h => @instDecidableAnd (id ∉ rotated h) (Rotates h) _ (decideRotates h)
  | .sent _ :: h | .committed _ :: h | .detached :: h | .deleting _ :: h | .failed _ :: h | .reported _ :: h =>
    decideRotates h

instance (h : List Seen) : Decidable (Rotates h) := decideRotates h

instance (h : List Seen) : Decidable (Reported b h) := inferInstanceAs (Decidable (List.Perm _ _))

theorem start_run (policy : StatusCleanup) (ok : List (List Seen) × StatusThen → Call → Prop) :
    machine.remembering.Run ok [] ([], { new with cleanup := policy }) :=
  .start ⟨rfl, policy, rfl⟩

/-- Under the default policy, with a failed deletion that is handed out. -/
def cleanedRun : List Call :=
  [.update (answer (.ok ⟨1⟩)), .commitSegment (answer (.ok ⟨2⟩)), .prepareCleanup,
    .cleanupAfterDelivery (answer (.error .timeout)), .takeCleanupFailure, .update (answer (.ok ⟨3⟩)),
    .update (answer (.ok ⟨3⟩))]

theorem cleanup_bookkeeping_two_segments :
    ∃ τ s, machine.remembering.Run heeds τ s ∧ sentIds (history s.1) = [3, 1] ∧
      failures (history s.1) = [⟨1, .timeout⟩] ∧ Accounted s.2 (history s.1) ∧ Rotates (history s.1) ∧
      Reported s.2 (history s.1) := by
  have h : (machine.remembering.exec heeds [] ([], new) cleanedRun).map
      (fun r => (sentIds (history r.2.1), failures (history r.2.1))) = some ([3, 1], [⟨1, .timeout⟩]) := by decide
  obtain ⟨r, hr, he⟩ := Option.map_eq_some_iff.mp h
  have hrun := Core.Machine.run_of_exec (start_run .deleteAfterFinalSuccess heeds) hr
  obtain ⟨hsent, hfailed⟩ := Prod.mk.inj he
  have hbooks := cleanup_bookkeeping hrun
  exact ⟨r.1, r.2, hrun, hsent, hfailed, hbooks.1, hbooks.2 fun _ _ h => h⟩

/-- The ids are new, but the caller is not careful. -/
theorem cleanup_bookkeeping_fails :
    (∃ τ s, machine.remembering.Run (fun s call => newId s.2 (history s.1) call) τ s ∧ ¬ Rotates (history s.1)) ∧
      ∃ τ s, machine.remembering.Run (fun s call => newId s.2 (history s.1) call) τ s ∧
        s.2.cleanup = .deleteAfterFinalSuccess ∧ Rotates (history s.1) ∧ s.2.cleanupFailure = none ∧
        failures (history s.1) = [⟨3, .inner .api⟩, ⟨1, .inner .api⟩] ∧
        reports (history s.1) = [⟨3, .inner .api⟩] ∧ ¬ Reported s.2 (history s.1) := by
  constructor
  · have h : (machine.remembering.exec (fun s call => newId s.2 (history s.1) call) []
        ([], { new with cleanup := .keep }) keptRun).map (fun r => decide (Rotates (history r.2.1))) = some false := by
      decide
    obtain ⟨r, hr, he⟩ := Option.map_eq_some_iff.mp h
    exact ⟨r.1, r.2, Core.Machine.run_of_exec (start_run .keep _) hr, of_decide_eq_false he⟩
  · have h : (machine.remembering.exec (fun s call => newId s.2 (history s.1) call) [] ([], new) twoFailuresRun).map
        (fun r => decide (r.2.2.cleanup = .deleteAfterFinalSuccess ∧ Rotates (history r.2.1) ∧
          r.2.2.cleanupFailure = none ∧ failures (history r.2.1) = [⟨3, .inner .api⟩, ⟨1, .inner .api⟩] ∧
          reports (history r.2.1) = [⟨3, .inner .api⟩] ∧ ¬ Reported r.2.2 (history r.2.1))) = some true := by
      decide
    obtain ⟨r, hr, he⟩ := Option.map_eq_some_iff.mp h
    exact ⟨r.1, r.2, Core.Machine.run_of_exec (start_run .deleteAfterFinalSuccess _) hr, of_decide_eq_true he⟩

end Teloxide.Drafter.StatusThen
