import Teloxide.Drafter.Terminal

/-!
# What is known of a delivery that failed

`terminal_delivery_certainty` (`crates/teloxide/src/drafter/machine.rs:104-117`)
decides whether the preview is taken away after a failed delivery, and what the
caller is told.

* `delivery_known`: the preview is taken away only if no attempt can have got
  through, and the caller is told so only if the backend has said so.
* `rejected_locally_not_attempted`: `NotAttempted` is also the answer of a backend
  that was called and refused the payload by itself.

An attempt that the backend wants to be repeated counts as one that did not get
through, whatever certainty it was given.
-/
namespace Teloxide.Drafter

variable {P : Type} {A : DraftAccumulator P} {B : DrafterBackend P}

/-- The attempt failed, and is to be repeated or is known not to have got through. -/
def Attempt.Undelivered (attempt : Attempt) : Prop :=
  ∃ d, attempt.how = .error d ∧ (attempt.readyAt.isSome = true ∨ d.delivery ≠ .unknown)

/-- The newest attempt failed with this certainty, after others that were to be repeated. -/
def EndsWith (delivery : DeliveryCertainty) (attempts : List Attempt) : Prop :=
  ∃ last rest d, attempts = last :: rest ∧ last.how = .error d ∧ d.delivery = delivery ∧ Repeatable rest

/-- The story of a command that is over, perhaps with a cleanup. -/
def Over (call : CallId) (older : List (Event B)) (taken : Nat) (attempts : List Attempt) : Prop :=
  history call older = told call taken attempts ∨ history call older = .cleanup call :: told call taken attempts

structure Sys.KnowsDelivery (s : Sys A B) : Prop where
  /-- the preview is taken away only after attempts that did not get through -/
  cleanup : ∀ call older, (.cleanup call :: older) <:+ s.log →
    ∃ taken attempts, history call older = told call taken attempts ∧
      ∀ attempt ∈ attempts, attempt.Undelivered
  /-- and only if the command has failed -/
  failed : ∀ call output, .cleanup call ∈ s.log → .answered call (.ok output) ∉ s.log
  notAttempted : ∀ call error older, (.answered call (.error error) :: older) <:+ s.log →
    error.delivery = some .notAttempted →
    ∃ taken attempts, Over call older taken attempts ∧ (attempts = [] ∨ EndsWith .notAttempted attempts)
  rejected : ∀ call error older, (.answered call (.error error) :: older) <:+ s.log →
    error.delivery = some .rejected → ∃ taken attempts, Over call older taken attempts ∧ EndsWith .rejected attempts

/-! ## What an outcome says -/

theorem Attempt.error_of_readyAt {attempt : Attempt} (h : attempt.readyAt.isSome = true) :
    ∃ d, attempt.how = .error d := by
  unfold readyAt at h
  split at h
  · exact ⟨_, ‹_›⟩
  · cases h

theorem Repeatable.undelivered {attempts : List Attempt} (h : Repeatable attempts) :
    ∀ attempt ∈ attempts, attempt.Undelivered := by
  intro attempt hmem
  obtain ⟨d, hd⟩ := Attempt.error_of_readyAt (h attempt hmem)
  exact ⟨d, hd, .inl (h attempt hmem)⟩

/-- Where a cleanup is due no attempt can have got through. -/
theorem Explains.undelivered {t : Terminal B} {attempts : List Attempt}
    {outcome : TerminalOutcome B.Delivered B.Error} (h : Explains t.failureDisposition attempts outcome)
    (hc : Sys.shouldCleanup t outcome = true) : ∀ attempt ∈ attempts, attempt.Undelivered := by
  simp only [Sys.shouldCleanup, Bool.and_eq_true, Bool.or_eq_true, decide_eq_true_eq] at hc
  cases h with
  | success => simp [terminalDeliveryCertainty] at hc
  | backend error hhow hd hrest =>
    refine List.forall_mem_cons.mpr ⟨⟨_, hhow, .inr fun hu => ?_⟩, hrest.undelivered⟩
    simp [terminalDeliveryCertainty, hd, hu] at hc
  | rateLimiter error hall => exact hall.undelivered
  | requestTimeout => simp [terminalDeliveryCertainty] at hc
  | deadline => simp [terminalDeliveryCertainty] at hc
  | overdue hall => exact hall.undelivered

/-- A delivery was not a success where a cleanup is due. -/
theorem shouldCleanup_success (t : Terminal B) (output : B.Delivered) :
    Sys.shouldCleanup t (.success output) = false := by
  simp [Sys.shouldCleanup, terminalDeliveryCertainty]

/-- The certainty in an answer is that of the newest attempt, or there was none. -/
theorem Explains.endsWith {t : Terminal B} {attempts : List Attempt} {outcome : TerminalOutcome B.Delivered B.Error}
    {error : TerminalError B.Error} {delivery : DeliveryCertainty} (h : Explains t.failureDisposition attempts outcome)
    (hr : Sys.Reports t outcome (.error error)) (hd : error.delivery = some delivery) (hu : delivery ≠ .unknown) :
    (attempts = [] ∧ delivery = .notAttempted) ∨ EndsWith delivery attempts := by
  cases h with
  | success => cases hr
  | @backend last rest disposition error hhow hlast hrest =>
    cases hr with
    | backend ht =>
      obtain rfl := Option.some.inj (hlast.symm.trans ht)
      exact .inr ⟨last, rest, disposition, rfl, hhow, Option.some.inj hd, hrest⟩
  | rateLimiter =>
    cases hr
    cases hd
  | requestTimeout =>
    cases hr
    exact absurd (Option.some.inj hd).symm hu
  | deadline =>
    cases hr
    exact absurd (Option.some.inj hd).symm hu
  | overdue hall =>
    cases hr
    have hd := Option.some.inj hd
    cases attempts with
    | nil => exact .inl ⟨rfl, hd.symm⟩
    | cons last rest =>
      obtain ⟨hlast, hrest⟩ := List.forall_mem_cons.mp hall
      obtain ⟨d, hhow⟩ := Attempt.error_of_readyAt hlast
      have hdelivery : d.delivery = delivery := by simpa [lastDisposition, hhow, CallEnd.disposition] using hd
      exact .inr ⟨last, rest, d, rfl, hhow, hdelivery, hrest⟩

/-! ## Cleanups and successes -/

theorem mem_told {call : CallId} {taken : Nat} {attempts : List Attempt} {e : Event B}
    (h : e ∈ told call taken attempts) :
    e = .taken call taken ∨ (∃ startedAt, e = .attempt call startedAt) ∨ ∃ how endedAt, e = .attemptEnded call how endedAt := by
  induction attempts with
  | nil => exact .inl (List.mem_singleton.mp h)
  | cons attempt rest ih =>
    rcases List.mem_cons.mp h with rfl | h
    · exact .inr (.inr ⟨_, _, rfl⟩)
    · rcases List.mem_cons.mp h with rfl | h
      · exact .inr (.inl ⟨_, rfl⟩)
      · exact ih h

/-- What is in the log is in the history of its command. -/
theorem mem_history (call : CallId) {e : Event B} {log : List (Event B)} (h : e ∈ log) (hc : e.terminalCall = some call) :
    e ∈ history call log :=
  List.mem_filter.mpr ⟨h, by simpa using hc⟩

theorem exists_suffix_of_mem {e : Event B} {log : List (Event B)} (h : e ∈ log) : ∃ older, (e :: older) <:+ log := by
  obtain ⟨newer, older, rfl⟩ := List.append_of_mem h
  exact ⟨older, List.suffix_append _ _⟩

/-- Nobody is told of a success after a cleanup, and no cleanup comes after a success. -/
theorem AllWarranted.failed {config : DraftConfig} {log : List (Event B)} (h : AllWarranted config log) (call : CallId)
    (output : B.Delivered) (hc : .cleanup call ∈ log) : .answered call (.ok output) ∉ log := by
  intro ha
  obtain ⟨o₁, hs₁⟩ := exists_suffix_of_mem hc
  obtain ⟨o₂, hs₂⟩ := exists_suffix_of_mem ha
  obtain ⟨taken, attempts, -, -, hh, -⟩ := h _ _ hs₁
  obtain ⟨taken', attempts', t, outcome, hh', -, hr⟩ := h _ _ hs₂
  cases hr with
  | success output =>
    have hh' : history call o₂ = told call taken' attempts' :=
      hh'.resolve_right fun hc => by
        rw [shouldCleanup_success] at hc
        cases hc.2
    rcases List.suffix_or_suffix_of_suffix hs₁ hs₂ with hs | hs <;> rcases List.suffix_cons_iff.mp hs with heq | hs
    · cases heq
    · have := mem_history call (hs.subset List.mem_cons_self) rfl
      rw [hh'] at this
      rcases mem_told this with h | ⟨_, h⟩ | ⟨_, _, h⟩ <;> cases h
    · cases heq
    · have := mem_history call (hs.subset List.mem_cons_self) rfl
      rw [hh] at this
      rcases mem_told this with h | ⟨_, h⟩ | ⟨_, _, h⟩ <;> cases h

/-- The worker takes the preview away, and vouches for the absence of the final
message, only where it knows of it. -/
theorem delivery_known {τ : List Unit} {s : Sys A B} (hr : (drafter A B).Run Core.Machine.anything τ s) :
    s.KnowsDelivery := by
  have hw := (Sys.terminalInv_of_run hr).warranted
  refine ⟨fun call older hs => ?_, hw.failed, fun call error older hs hd => ?_, fun call error older hs hd => ?_⟩
  · obtain ⟨taken, attempts, t, outcome, hh, he, hc⟩ := hw _ _ hs
    exact ⟨taken, attempts, hh, he.undelivered hc⟩
  · obtain ⟨taken, attempts, t, outcome, hh, he, hreports⟩ := hw _ _ hs
    refine ⟨taken, attempts, hh.imp_right (·.1), ?_⟩
    exact (he.endsWith hreports hd (by simp)).imp_left (·.1)
  · obtain ⟨taken, attempts, t, outcome, hh, he, hreports⟩ := hw _ _ hs
    refine ⟨taken, attempts, hh.imp_right (·.1), ?_⟩
    exact (he.endsWith hreports hd (by simp)).resolve_left fun h => by cases h.2

/-- A commit is refused by the API; nothing has to be deleted, and the caller is
told of the refusal. -/
def rejectedCommitRun : List (Action (replacePreview String) (editInPlaceBackend String.length)) :=
  [.commit "a", .send 0, .work (.view () true), .work .command, .work (.permit true), .work .go,
    .work (.reply fun _ => .error (.inner .api)), .work .settled, .work (.reply fun _ => .ok ⟨1⟩), .work .go]

def Event.isCleanup : Event B → Bool
  | .cleanup _ => true
  | _ => false

theorem delivery_known_rejectedCommitRun :
    ∃ τ s, (drafter _ _).exec Core.Machine.anything [] plainDrafter rejectedCommitRun = some (τ, s) ∧
      s.log.any Event.isCleanup = true ∧ s.KnowsDelivery := by
  have h : ((drafter _ _).exec Core.Machine.anything [] plainDrafter rejectedCommitRun).map
      (fun r => r.2.log.any Event.isCleanup) = some true := by decide
  obtain ⟨⟨τ, s⟩, he, hs⟩ := Option.map_eq_some_iff.mp h
  exact ⟨τ, s, he, hs, delivery_known (Core.Machine.run_of_exec (.start plainDrafter_spawned) he)⟩

/-- The caller is told that nothing was attempted. -/
def Event.deniesAttempt (call : CallId) : Event B → Bool
  | .answered c (.error error) => c = call && error.delivery = some .notAttempted
  | _ => false

/-- The commit of `invalidCommitRun` has called the backend, and its caller is told
that it was not attempted: the backend has refused the payload by itself. -/
theorem rejected_locally_not_attempted :
    ∃ τ s, (drafter (replacePreview String) (editInPlaceBackend String.length)).Run Core.Machine.anything τ s ∧
      s.log.any (Event.deniesAttempt 0) = true ∧ s.log.any (Event.isAttempt 0) = true := by
  have h : ((drafter _ _).exec Core.Machine.anything [] plainDrafter invalidCommitRun).map
      (fun r => (r.2.log.any (Event.deniesAttempt 0), r.2.log.any (Event.isAttempt 0))) = some (true, true) := by decide
  obtain ⟨⟨τ, s⟩, he, hs⟩ := Option.map_eq_some_iff.mp h
  obtain ⟨hd, ha⟩ := Prod.mk.inj hs
  exact ⟨τ, s, Core.Machine.run_of_exec (.start plainDrafter_spawned) he, hd, ha⟩

end Teloxide.Drafter
