import Teloxide.Drafter.Spin

/-!
# Closing a drafter

`DrafterHandle::stop`, `finish` and `abort` close the source before they send
their command; the worker closes it on most of its exits
(`crates/teloxide/src/drafter/machine.rs:337-382, 863-1246, 1945-1958, 2117-2150`).

* `closing_final`: a closed source stays closed and the loop ends with a closed
  source, in every run in which no step finds the state that its code overlooks:
  a commit that succeeds on a closed source reopens it, a commit whose caller is
  gone ends the loop in `Transition`, and a preview is started although the gate
  has closed since it was looked at.
* `closing_undone`: `stop` during a commit is undone when the commit succeeds; and
  a cancelled commit leaves the gate in `Transition` for good.
-/
namespace Teloxide.Drafter

variable {P : Type} {A : DraftAccumulator P} {B : DrafterBackend P}

/-- `stop`, `finish` or `abort` has closed the source. -/
def Event.closes : Event B → Bool
  | .closed _ => true
  | _ => false

/-- A push was accepted, or a preview request started. -/
def Event.usesSource : Event B → Bool
  | .pushed (.ok _) | .previewStarted .. => true
  | _ => false

namespace Sys

/-- No push is accepted and no preview request started after a caller has closed
the source; when the loop has ended every push fails with `Closed`. -/
structure ClosingFinal (s : Sys A B) : Prop where
  final : s.log.Pairwise fun later earlier => earlier.closes = true → later.usesSource = false
  ended : s.phase = .stopped → ∀ u, (s.source.apply u s.now).2 = .error .closed

/-- The step `a` does not meet a gate that its code does not look at: a commit that
has succeeded reopens the source only if it is not closed; the worker sees that
the caller of a commit is gone only if it is; and the gate has not closed between
`is_running` and the start of a preview. -/
def heedsGate (s : Sys A B) (a : Action A B) : Bool :=
  match s.phase, a with
  | .terminal t (.concluding (.success _)), .work .go => t.kind ≠ .commit || s.source.gate ≠ .closed
  | .terminal _ (.concluding _), .work .go => true
  | .terminal t _, .work .go | .terminal t _, .work (.cut _) =>
    t.kind ≠ .commit || !s.isClosed t.call || s.source.gate = .closed
  | .checked _, .work (.view ..) => s.source.gate ≠ .closed
  | _, _ => true

/-- `heedsGate`, read off the phase. -/
structure HeedsGate (s : Sys A B) (a : Action A B) : Prop where
  reopen : ∀ t output, s.phase = .terminal t (.concluding (.success output)) → t.kind = .commit → a = .work .go →
    s.source.gate ≠ .closed
  cancel : ∀ t stage, s.phase = .terminal t stage → t.kind = .commit → s.isClosed t.call = true →
    (a = .work .go ∨ ∃ x, a = .work (.cut x)) → (∀ outcome, stage ≠ .concluding outcome) → s.source.gate = .closed
  start : ∀ p ambient kept, s.phase = .checked p → a = .work (.view ambient kept) → s.source.gate ≠ .closed

theorem HeedsGate.of_true {s : Sys A B} {a : Action A B} (h : s.heedsGate a = true) : s.HeedsGate a := by
  refine ⟨fun t output hp hk ha => ?_, fun t stage hp hk hd ha hs => ?_, fun p ambient kept hp ha => ?_⟩
  · subst ha
    simpa [heedsGate, hp, hk] using h
  · rcases ha with rfl | ⟨x, rfl⟩
    · cases stage <;> first | simpa [heedsGate, hp, hk, hd] using h | exact absurd rfl (hs _)
    · simpa [heedsGate, hp, hk, hd] using h
  · subst ha
    simpa [heedsGate, hp] using h

/-- The phases of `Finish` and `Abort`, and the end of the loop. -/
def Closes (s : Sys A B) : Prop :=
  match s.phase with
  | .terminal t _ => t.kind = .finish
  | .abortAcquire .. | .aborting .. | .stopped => True
  | _ => False

/-- The gate is closed when it has to be. -/
structure GateInv (s : Sys A B) : Prop where
  wasClosed : ∀ e ∈ s.log, e.closes = true → s.source.gate = .closed
  closes : s.Closes → s.source.gate = .closed
  final : s.log.Pairwise fun later earlier => earlier.closes = true → later.usesSource = false

/-- Only a commit that has succeeded opens a closed gate. -/
theorem Step.gate_closed {s s' : Sys A B} {a : Action A B} (h : Step s a s') (hok : s.HeedsGate a)
    (hb : s.phase.alive = true → s.worker.backend.isSome = true) (hg : s.source.gate = .closed) :
    s'.source.gate = .closed := by
  have settle : ∀ (v : Sys A B) r how, v.source.gate = .closed → (v.settlePreview r how).source.gate = .closed := by
    intro v r how hv
    rw [settlePreview_eq]
    cases how with
    | acked => simpa [Worker.handlePreviewEnd] using hv
    | failed d => exact hv
  have ended : ∀ (v : Sys A B) b b' snapshot kept how, v.source.gate = .closed →
      (v.endPreview b b' snapshot kept how).source.gate = .closed := by
    intro v b b' snapshot kept how hv
    rcases v.endPreview_cases b b' snapshot kept how with h | h <;> rw [h]
    · exact hv
    · exact settle _ _ how hv
  cases h with
  | push u => simpa using hg
  | commit => simp [SourceState.beginTransition, hg]
  | taken =>
    dsimp only
    split
    · simp [SourceState.beginTransition, hg]
    · rfl
  | skipped _ hr =>
    obtain ⟨_, _, _, -, -, -, -, -, -, -, hs⟩ := Worker.runDuePreview_skipped hr
    cases hs
    simpa [Worker.skipTo] using hg
  | discardedNoPreview => simpa using hg
  | discardedNoop => simpa using hg
  | updated => exact ended _ _ _ _ _ _ hg
  | timedOut => exact ended _ _ _ _ _ _ hg
  | settled => exact settle _ _ _ hg
  | reopened _ hp hk => exact absurd hg (hok.reopen _ _ hp hk rfl)
  | orphaned source e ha hq hn =>
    have := hb (Phase.alive_of_receives ha)
    rw [hn] at this
    cases this
  | _ => first | exact hg | rfl

/-- Finishing, aborting and ending the loop go with a closed gate. -/
theorem Step.closes {s s' : Sys A B} {a : Action A B} (h : Step s a s') (hok : s.HeedsGate a)
    (hb : s.phase.alive = true → s.worker.backend.isSome = true) (hg : s.Closes → s.source.gate = .closed)
    (hc : s'.Closes) : s'.source.gate = .closed := by
  have settle : ∀ (v : Sys A B) r how, ¬ (v.settlePreview r how).Closes := by
    intro v r how
    rw [settlePreview_eq]
    exact id
  have ended : ∀ (v : Sys A B) b b' snapshot kept how, ¬ (v.endPreview b b' snapshot kept how).Closes := by
    intro v b b' snapshot kept how
    rcases v.endPreview_cases b b' snapshot kept how with h | h <;> rw [h]
    · exact id
    · exact settle _ _ how
  have carry : s.Closes → s'.source.gate = .closed := fun h' => h.gate_closed hok hb (hg h')
  cases h with
  | taken _ _ hk _ =>
    obtain rfl : _ = TerminalKind.finish := hc
    rfl
  | updated => exact absurd hc (ended _ _ _ _ _ _)
  | timedOut => exact absurd hc (ended _ _ _ _ _ _)
  | settled => exact absurd hc (settle _ _ _)
  | inTerminal t' stage' b evs hp hb hm =>
    refine carry ?_
    have hc : t'.kind = .finish := hc
    unfold Sys.Closes
    rw [hp]
    exact hm.same.2.1.symm.trans hc
  | cancelled hp hd hi hs =>
    rename_i t stage input
    cases hk : t.kind with
    | commit => exact hok.cancel _ _ hp hk hd (by rcases hi with rfl | ⟨x, rfl⟩ <;> simp) hs
    | finish =>
      refine carry ?_
      unfold Sys.Closes
      rw [hp]
      exact hk
  | finished hp hk =>
    refine carry ?_
    unfold Sys.Closes
    rw [hp]
    exact hk
  | abortAdmitted b hp =>
    refine carry ?_
    unfold Sys.Closes
    rw [hp]
    trivial
  | aborted result hp =>
    refine carry ?_
    unfold Sys.Closes
    rcases hp with hp | hp <;> rw [hp] <;> trivial
  | orphaned source e ha hq hn =>
    have := hb (Phase.alive_of_receives ha)
    rw [hn] at this
    cases this
  | abortTaken => rfl
  | channelClosed => rfl
  | gaveUp => rfl
  | _ => first | exact carry hc | exact absurd hc id

/-- No event of a step is of interest here. -/
def Quiet (evs : List (Event B)) : Prop := ∀ e ∈ evs, e.closes = false ∧ e.usesSource = false

theorem Quiet.events (answers : FlushAnswers) : Quiet (answers.events B) := by
  intro e he
  obtain ⟨x, -, rfl⟩ := List.mem_map.mp (List.mem_reverse.mp he)
  exact ⟨rfl, rfl⟩

theorem Quiet.append {evs evs' : List (Event B)} (h : Quiet evs) (h' : Quiet evs') : Quiet (evs ++ evs') := by
  intro e he
  rcases List.mem_append.mp he with he | he
  · exact h e he
  · exact h' e he

theorem Quiet.nil : Quiet ([] : List (Event B)) := fun _ he => absurd he List.not_mem_nil

theorem Quiet.cons {e : Event B} {evs : List (Event B)} (hc : e.closes = false) (hu : e.usesSource = false)
    (h : Quiet evs) : Quiet (e :: evs) := by
  intro x hx
  rcases List.mem_cons.mp hx with rfl | hx
  · exact ⟨hc, hu⟩
  · exact h x hx

/-- What a step shows: nothing of interest, a closing, or a use of a source that
is not closed. -/
theorem Step.log {s s' : Sys A B} {a : Action A B} (h : Step s a s') (hok : s.HeedsGate a)
    (hb : s.phase.alive = true → s.worker.backend.isSome = true) :
    ∃ evs, s'.log = evs ++ s.log ∧
      (Quiet evs ∨
        (∃ e, evs = [e] ∧ e.usesSource = false ∧ s'.source.gate = .closed) ∨
        (∃ e, evs = [e] ∧ e.closes = false ∧ s.source.gate ≠ .closed)) := by
  have settle : ∀ (v : Sys A B) r how, ∃ evs, (v.settlePreview r how).log = evs ++ v.log ∧ Quiet evs := by
    intro v r how
    rw [settlePreview_eq]
    refine ⟨_, (List.append_assoc _ _ _).symm, (Quiet.events _).append ?_⟩
    split
    · exact .cons rfl rfl .nil
    · exact .nil
  have ended : ∀ (v : Sys A B) b b' snapshot kept how,
      ∃ evs, (v.endPreview b b' snapshot kept how).log = evs ++ v.log ∧ Quiet evs := by
    intro v b b' snapshot kept how
    have hq : Quiet [Event.previewEnded v.worker.segment b snapshot how] := .cons rfl rfl .nil
    rcases v.endPreview_cases b b' snapshot kept how with h | h <;> rw [h]
    · exact ⟨_, rfl, hq⟩
    · obtain ⟨evs, he, hq'⟩ := settle { v with
        worker := v.worker.withBackend b'
        log := .previewEnded v.worker.segment b snapshot how :: v.log } snapshot.revision how
      exact ⟨evs ++ [_], by rw [he]; exact (List.append_assoc _ [_] _).symm, hq'.append hq⟩
  cases h with
  | push u =>
    refine ⟨[_], rfl, ?_⟩
    cases hr : (s.source.apply u s.now).2 with
    | error e => exact .inl (.cons rfl rfl .nil)
    | ok r =>
      have hg := (s.source.apply_ok_iff u s.now).mp ⟨r, hr⟩
      exact .inr (.inr ⟨_, rfl, rfl, by rw [hg]; simp⟩)
  | close => exact ⟨[_], rfl, .inr (.inl ⟨_, rfl, rfl, rfl⟩)⟩
  | started kept' context hp =>
    exact ⟨[_], rfl, .inr (.inr ⟨_, rfl, rfl, hok.start _ _ _ hp rfl⟩)⟩
  | idle => exact ⟨_, rfl, .inl (.events _)⟩
  | skipped => exact ⟨_, (List.append_assoc _ [_] _).symm, .inl ((Quiet.events _).append (.cons rfl rfl .nil))⟩
  | refused => exact ⟨_, rfl, .inl (.events _)⟩
  | discardedNoPreview => exact ⟨_, (List.append_assoc _ [_] _).symm, .inl ((Quiet.events _).append (.cons rfl rfl .nil))⟩
  | discardedNoop => exact ⟨_, (List.append_assoc _ [_] _).symm, .inl ((Quiet.events _).append (.cons rfl rfl .nil))⟩
  | updated =>
    obtain ⟨evs, he, hq⟩ := ended _ _ _ _ _ _
    exact ⟨evs, he, .inl hq⟩
  | timedOut =>
    obtain ⟨evs, he, hq⟩ := ended _ _ _ _ _ _
    exact ⟨evs, he, .inl hq⟩
  | settled =>
    obtain ⟨evs, he, hq⟩ := settle s _ _
    exact ⟨evs, he, .inl hq⟩
  | taken => exact ⟨_ :: _, rfl, .inl (.cons rfl rfl (.events _))⟩
  | abortTaken => exact ⟨_, rfl, .inl (.events _)⟩
  | orphaned source e ha hq hn =>
    have := hb (Phase.alive_of_receives ha)
    rw [hn] at this
    cases this
  | inTerminal t' stage' b evs hp hb hm =>
    refine ⟨evs, rfl, .inl fun e hmem => ?_⟩
    have := hm.same.2.2 e hmem
    cases e <;> first | exact ⟨rfl, rfl⟩ | cases this
  | flush => exact ⟨[_], rfl, .inl (.cons rfl rfl .nil)⟩
  | channelClosed => exact ⟨[_], rfl, .inl (.cons rfl rfl .nil)⟩
  | flushAnswered => exact ⟨[_], rfl, .inl (.cons rfl rfl .nil)⟩
  | keptGoing => exact ⟨[_], rfl, .inl (.cons rfl rfl .nil)⟩
  | cancelled => exact ⟨[_, _], rfl, .inl (.cons rfl rfl (.cons rfl rfl .nil))⟩
  | reopened => exact ⟨[_, _], rfl, .inl (.cons rfl rfl (.cons rfl rfl .nil))⟩
  | gaveUp => exact ⟨[_, _], rfl, .inl (.cons rfl rfl (.cons rfl rfl .nil))⟩
  | finished => exact ⟨[_, _], rfl, .inl (.cons rfl rfl (.cons rfl rfl .nil))⟩
  | aborted => exact ⟨[_, _], rfl, .inl (.cons rfl rfl (.cons rfl rfl .nil))⟩
  | _ => exact ⟨[], rfl, .inl .nil⟩

theorem Step.gateInv {s s' : Sys A B} {a : Action A B} (h : Step s a s') (hok : s.HeedsGate a)
    (hb : s.phase.alive = true → s.worker.backend.isSome = true) (hi : s.GateInv) : s'.GateInv := by
  obtain ⟨evs, hl, hevs⟩ := h.log hok hb
  have keep : s.source.gate = .closed → s'.source.gate = .closed := h.gate_closed hok hb
  refine ⟨fun e he hc => ?_, h.closes hok hb hi.closes, ?_⟩
  · rw [hl, List.mem_append] at he
    rcases he with he | he
    · rcases hevs with hq | ⟨e', rfl, -, hg⟩ | ⟨e', rfl, hcl, -⟩
      · rw [(hq e he).1] at hc
        cases hc
      · exact hg
      · rw [List.mem_singleton.mp he, hcl] at hc
        cases hc
    · exact keep (hi.wasClosed e he hc)
  · rw [hl, List.pairwise_append]
    refine ⟨?_, hi.final, fun later hlater earlier hearlier hc => ?_⟩
    · rcases hevs with hq | ⟨e', rfl, -, -⟩ | ⟨e', rfl, -, -⟩
      · exact List.pairwise_of_forall_mem_list fun later hlater _ _ _ => (hq later hlater).2
      · exact List.pairwise_singleton _ _
      · exact List.pairwise_singleton _ _
    · rcases hevs with hq | ⟨e', rfl, hu, -⟩ | ⟨e', rfl, -, hg⟩
      · exact (hq later hlater).2
      · rw [List.mem_singleton.mp hlater, hu]
      · exact absurd (hi.wasClosed earlier hearlier hc) hg

end Sys

/-- An update is shown, `stop` is called and carried out, and one more update is
pushed. -/
def stopRun : List (Action (replacePreview String) (editInPlaceBackend String.length)) :=
  [.push "a", .work (.view () true), .advance (fromMillis 75), .work .woken, .work (.view () true), .work (.permit true),
    .work .go, .work (.view () true), .work (.reply fun _ => .ok ⟨1⟩), .work .settled, .abort, .send 0,
    .work (.view () true), .work .command, .work (.reply fun _ => .ok ⟨1⟩), .push "b"]

/-- A commit is under way when `stop` is called; it succeeds, and an update is
pushed. -/
def stopDuringCommitRun : List (Action (replacePreview String) (editInPlaceBackend String.length)) :=
  [.commit "a", .send 0, .work (.view () true), .work .command, .work (.permit true), .work .go, .abort, .send 1,
    .work (.reply fun _ => .ok ⟨1⟩), .work .settled, .work .go, .push "b"]

/-- A commit is under way when its caller gives it up. -/
def cancelledCommitRun : List (Action (replacePreview String) (editInPlaceBackend String.length)) :=
  [.commit "a", .send 0, .work (.view () true), .work .command, .forget 0, .work .go]

end Teloxide.Drafter
