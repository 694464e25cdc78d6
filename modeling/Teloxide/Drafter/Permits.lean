import Teloxide.Core.Machine
import Teloxide.Drafter.Types

/-!
# The permits of a backend call (`crates/teloxide/src/drafter/outbound.rs`)

With per-request scheduling the worker acquires a permit, packs it into a
`DrafterRequestContext` and installs that in the backend (`machine.rs:131-199`). The call
takes the context out. Its first request runs under the permit of the worker, each later one
acquires its own, and what is left of the context is dropped with the call.

`calls` is every sequence of such calls, one after the other, for any backend: what a call
does next, what comes back from outside and where its future is dropped are actions.

Results:
* `permits_accounted`: a request holds one permit, which is its own, and the first of a call
  that of the worker; a permit is completed once; `NoRequest` is for those without a request.
-/
namespace Teloxide.Drafter.Permits

open Teloxide.Core

abbrev PermitId := Nat

/-- mirrors limiter.rs:70-84 -/
inductive DrafterPermitCompletion where
  | success
  | failed
  | retryAfter (scope : DrafterRateLimitScope) (duration : Nat)
  /-- also what a permit that is dropped ends as -/
  | cancelledAfterGrant
  | noRequest
  deriving DecidableEq

/-- How a request ends. -/
inductive RequestEnd where
  | ok
  | retryAfter (seconds : Nat)
  | error
  | timeout
  deriving DecidableEq

/-- mirrors outbound.rs:162-183 -/
def RequestEnd.completion : RequestEnd → DrafterPermitCompletion
  | .ok => .success
  | .retryAfter seconds => .retryAfter .global (fromSecs seconds)
  | .error | .timeout => .failed

/-- mirrors outbound.rs:109-115 -/
structure DrafterRequestContext where
  initialPermit : Option PermitId
  deriving DecidableEq

inductive Stage where
  /-- no call; the worker may be busy with something else -/
  | idle
  /-- the worker awaits `acquire` -/
  | acquiring
  | admitted (permit : PermitId)
  /-- the future of the call is there, and not polled yet -/
  | called
  /-- the call has taken the context, and no request is running -/
  | running (context : Option DrafterRequestContext)
  /-- in `execute`, whose context has no permit any more -/
  | acquiringNext
  | permitted (permit : PermitId)
  | requesting (permit : PermitId)
  /-- `cancel_unused` has taken the context -/
  | cancelled
  /-- the worker is gone, and its backend with it -/
  | stopped
  deriving DecidableEq

/-- `slot` is `request_context` of the backend. -/
structure Sys where
  nextPermit : PermitId
  slot : Option DrafterRequestContext
  stage : Stage
  deriving DecidableEq

inductive Event where
  | granted (permit : PermitId)
  /-- `set_request_context`: the new permit, and the one that is dropped with the context
  that was there -/
  | installed (permit replaced : Option PermitId)
  | started (permit : PermitId)
  /-- a request under no permit -/
  | startedBare
  | completed (permit : PermitId) (completion : DrafterPermitCompletion)
  | other
  deriving DecidableEq

inductive Action where
  | acquire
  | grant
  /-- an error of `acquire`, a command, a deadline, or a caller that is gone -/
  | leave
  /-- the source has stopped, has no snapshot, or the preview is a no-op -/
  | unneeded
  | install
  /-- before a cleanup that can make no request, or after one that may have -/
  | installNone
  /-- a call without a context of its own, after `installNone` -/
  | callWithout
  | poll
  /-- the future of the call is dropped before it was polled -/
  | dropUnpolled
  | execute
  | grantNext
  | failNext
  | start
  | endRequest (how : RequestEnd)
  | cancelUnused
  /-- the call returns, or its future is dropped where it awaits -/
  | leaveCall
  | stop
  deriving DecidableEq

def permitOf (context : Option DrafterRequestContext) : Option PermitId := context.bind (·.initialPermit)

/-- A context that is dropped. -/
def dropped (context : Option DrafterRequestContext) : Event :=
  match permitOf context with
  | some permit => .completed permit .cancelledAfterGrant
  | none => .other

namespace Sys

variable (s : Sys)

def goto (stage : Stage) : Sys := { s with stage := stage }

/-- `initial_permit.take()`, or a permit of its own; a backend without a context makes the
request as it is.
mirrors outbound.rs:154-161, telegram.rs:490-503 -/
def execute : Option DrafterRequestContext → Sys × Event
  | some ⟨some permit⟩ => (s.goto (.permitted permit), .other)
  | some ⟨none⟩ => (s.goto .acquiringNext, .other)
  | none => (s, .startedBare)

/-- mirrors outbound.rs:143-147, telegram.rs:484-488 -/
def cancelUnused (context : Option DrafterRequestContext) : Sys × Event :=
  match permitOf context with
  | some permit => (s.goto .cancelled, .completed permit .noRequest)
  | none => (s.goto .cancelled, .other)

def step (a : Action) : Option (Sys × Event) :=
  match s.stage, a with
  | .idle, .acquire => some (s.goto .acquiring, .other)
  | .acquiring, .grant => some ({ s with nextPermit := s.nextPermit + 1 }.goto (.admitted s.nextPermit), .granted s.nextPermit)
  | .acquiring, .leave => some (s.goto .idle, .other)
  | .admitted permit, .unneeded => some (s.goto .idle, .completed permit .noRequest)
  | .admitted permit, .install =>
    some ({ s with slot := some ⟨some permit⟩ }.goto .called, .installed (some permit) (permitOf s.slot))
  | .idle, .installNone => some ({ s with slot := none }, .installed none (permitOf s.slot))
  | .idle, .callWithout => if s.slot = none then some (s.goto .called, .installed none none) else none
  | .called, .poll => some ({ s with slot := none }.goto (.running s.slot), .other)
  | .called, .dropUnpolled => some (s.goto .idle, .other)
  | .running context, .execute => some (s.execute context)
  | .acquiringNext, .grantNext =>
    some ({ s with nextPermit := s.nextPermit + 1 }.goto (.permitted s.nextPermit), .granted s.nextPermit)
  | .acquiringNext, .failNext => some (s.goto (.running (some ⟨none⟩)), .other)
  | .permitted permit, .start => some (s.goto (.requesting permit), .started permit)
  | .requesting permit, .endRequest how => some (s.goto (.running (some ⟨none⟩)), .completed permit how.completion)
  | .running context, .cancelUnused => some (s.cancelUnused context)
  | .running context, .leaveCall => some (s.goto .idle, dropped context)
  | .acquiringNext, .leaveCall | .cancelled, .leaveCall => some (s.goto .idle, .other)
  | .requesting permit, .leaveCall => some (s.goto .idle, .completed permit .cancelledAfterGrant)
  | .idle, .stop => some ({ s with slot := none }.goto .stopped, dropped s.slot)
  | _, _ => none

def new : Sys := ⟨0, none, .idle⟩

/-- What a backend has to keep to: a call for which `abort_request_possible` has said that no
request is possible, and which has no context, makes none.
mirrors backend.rs:148-156 -/
def Contract : Action → Prop
  | .execute => s.stage ≠ .running none
  | _ => True

instance : (a : Action) → Decidable (s.Contract a)
  | .execute => inferInstanceAs (Decidable (s.stage ≠ .running none))
  | .acquire | .grant | .leave | .unneeded | .install | .installNone | .callWithout | .poll | .dropUnpolled
  | .grantNext | .failNext | .start | .endRequest _ | .cancelUnused | .leaveCall | .stop =>
    inferInstanceAs (Decidable True)

end Sys

def calls : Machine Sys Action Event where
  init s := s = Sys.new
  step := Sys.step

/-! ## The account -/

def Event.grants : Event → List PermitId
  | .granted permit => [permit]
  | _ => []

def Event.completions : Event → List (PermitId × DrafterPermitCompletion)
  | .completed permit completion => [(permit, completion)]
  | .installed _ (some replaced) => [(replaced, .cancelledAfterGrant)]
  | _ => []

def Event.starts : Event → List PermitId
  | .started permit => [permit]
  | _ => []

def grants (τ : List Event) : List PermitId := τ.flatMap Event.grants
def completions (τ : List Event) : List (PermitId × DrafterPermitCompletion) := τ.flatMap Event.completions
def starts (τ : List Event) : List PermitId := τ.flatMap Event.starts

/-- The permits that have been completed. -/
def ended (τ : List Event) : List PermitId := (completions τ).map (·.1)

/-- What has been installed for a call that has started no request yet. -/
def transferred : List Event → Option (Option PermitId)
  | [] => none
  | .installed permit _ :: _ => some permit
  | .started _ :: _ => none
  | _ :: τ => transferred τ

def Stage.permit? : Stage → Option PermitId
  | .admitted permit | .permitted permit | .requesting permit => some permit
  | .running context => permitOf context
  | _ => none

/-- The permits that are held. -/
def Sys.held (s : Sys) : List PermitId := (permitOf s.slot).toList ++ s.stage.permit?.toList

structure Accounted (τ : List Event) (s : Sys) : Prop where
  /-- a permit is either held or completed, and no two have the same id -/
  once : ∀ permit, (grants τ).count permit = (ended τ).count permit + s.held.count permit
  distinct : (grants τ).Nodup
  /-- so each has been completed once when all is over -/
  rest : s.stage = .stopped → s.held = []
  /-- a request starts under a permit that is held and has had no other -/
  own : ∀ τ₂ permit τ₁, τ = τ₂ ++ .started permit :: τ₁ →
    permit ∈ grants τ₁ ∧ permit ∉ ended τ₁ ∧ permit ∉ starts τ₁
  /-- and that is the only one that is held while it runs -/
  running : ∀ permit, s.stage = .requesting permit → s.held = [permit]
  covered : .startedBare ∉ τ
  /-- the first request of a call runs under the permit that was installed for it -/
  first : ∀ τ₂ permit τ₁, τ = τ₂ ++ .started permit :: τ₁ → ∀ installed, transferred τ₁ = some installed →
    installed = some permit
  unused : ∀ permit, (permit, .noRequest) ∈ completions τ → permit ∉ starts τ

/-! ## One step -/

/-- What the stage says of the context that was installed last. -/
def Sys.Ready (s : Sys) (installed : Option (Option PermitId)) : Prop :=
  match s.stage with
  | .called => installed = some (permitOf s.slot) ∧ s.slot ≠ some ⟨none⟩
  | .running none => s.slot = none ∧ installed = some none
  | .running (some ⟨some permit⟩) => s.slot = none ∧ installed = some (some permit)
  | .running (some ⟨none⟩) | .acquiringNext => s.slot = none ∧ installed = none
  | .permitted permit => s.slot = none ∧ (installed = some (some permit) ∨ installed = none)
  | .requesting _ => s.slot = none ∧ installed = none
  | .cancelled | .stopped => s.slot = none
  | _ => True

structure Effect (s : Sys) (e : Event) (s' : Sys) : Prop where
  held : ∀ p, e.grants.count p + s.held.count p = (e.completions.map (·.1)).count p + s'.held.count p
  grants : e.grants = [] ∧ s'.nextPermit = s.nextPermit ∨
    e.grants = [s.nextPermit] ∧ s'.nextPermit = s.nextPermit + 1
  starts : ∀ p, e = .started p → s.stage = .permitted p ∧ s'.stage = .requesting p
  ends : ∀ p, s.stage = .requesting p → p ∈ e.completions.map (·.1)
  unused : ∀ p, (p, .noRequest) ∈ e.completions → p ∈ s.held ∧ s.stage ≠ .requesting p
  covered : e ≠ .startedBare
  ready : ∀ τ, s.Ready (transferred τ) → s'.Ready (transferred (e :: τ))

theorem completion_ne (how : RequestEnd) : how.completion ≠ .noRequest := by
  cases how <;> simp [RequestEnd.completion]

theorem count_pair (p q r : PermitId) : [q, r].count p = [r].count p + [q].count p := by
  have happend : ([q] ++ [r]).count p = [q].count p + [r].count p := List.count_append
  rw [Nat.add_comm]
  exact happend

section
variable {s s' : Sys} {a : Action} {e : Event}

theorem step_effect (ho : s.Contract a) (h : s.step a = some (s', e)) : Effect s e s' := by
  obtain ⟨next, slot, stage⟩ := s
  rcases stage with _ | _ | permit | _ | (_ | ⟨_ | permit⟩) | _ | permit | permit | _ | _ <;> cases a <;>
    simp only [Sys.step, Sys.execute, Sys.cancelUnused, permitOf, Option.bind_some, Option.bind_none, reduceCtorEq,
      Option.some.injEq, Prod.mk.injEq, Option.ite_none_right_eq_some] at h
  case idle.callWithout =>
    obtain ⟨rfl, rfl, rfl⟩ := h
    constructor <;>
      simp [Sys.held, Sys.goto, Event.grants, Event.completions, Stage.permit?, permitOf, transferred, Sys.Ready]
  all_goals obtain ⟨rfl, rfl⟩ := h
  -- only a call without a context has no permit to run under
  case running.none.execute => exact absurd rfl ho
  -- what is in the slot, or was there before, is part of what is held
  all_goals rcases slot with _ | ⟨_ | installed⟩
  all_goals constructor
  all_goals simp +contextual [Sys.held, Sys.goto, Event.grants, Event.completions, Stage.permit?, permitOf, dropped,
    transferred, Sys.Ready, count_pair, Nat.add_comm, (completion_ne _).symm]

end

/-! ## Every run -/

structure Inv (τ : List Event) (s : Sys) : Prop where
  once : ∀ permit, (grants τ).count permit = (ended τ).count permit + s.held.count permit
  distinct : (grants τ).Nodup
  known : ∀ permit ∈ grants τ, permit < s.nextPermit
  ready : s.Ready (transferred τ)
  spent : ∀ permit ∈ starts τ, permit ∈ ended τ ∨ s.stage = .requesting permit
  unused : ∀ permit, (permit, .noRequest) ∈ completions τ → permit ∉ starts τ

section
variable {τ : List Event} {s s' : Sys} {a : Action} {e : Event}

theorem Inv.new : Inv [] Sys.new where
  once _ := rfl
  distinct := List.nodup_nil
  known _ h := nomatch h
  ready := trivial
  spent _ h := nomatch h
  unused _ h := nomatch h

theorem Inv.of_held (hi : Inv τ s) {permit : PermitId} (h : permit ∈ s.held) : permit ∈ grants τ ∧ permit ∉ ended τ := by
  have hheld := List.count_pos_iff.2 h
  have honce := hi.once permit
  have hle := List.nodup_iff_count.1 hi.distinct permit
  exact ⟨List.count_pos_iff.1 (by omega), fun hended => by have := List.count_pos_iff.2 hended; omega⟩

theorem held_of_permitted {permit : PermitId} (h : s.stage = .permitted permit) : permit ∈ s.held := by
  simp [Sys.held, h, Stage.permit?]

/-- A permit that is held and under which no request is running has had none. -/
theorem Inv.of_idle (hi : Inv τ s) {permit : PermitId} (h : permit ∈ s.held) (hr : s.stage ≠ .requesting permit) :
    permit ∉ starts τ := by
  intro hs
  rcases hi.spent permit hs with hended | hstage
  · exact (hi.of_held h).2 hended
  · exact hr hstage

theorem mem_starts {permit : PermitId} : permit ∈ e.starts ↔ e = .started permit := by
  cases e <;> simp [Event.starts, eq_comm]

theorem Inv.step (hi : Inv τ s) (he : Effect s e s') : Inv (e :: τ) s' where
  once permit := by
    have hheld := he.held permit
    have honce := hi.once permit
    simp only [ended, grants, completions, List.flatMap_cons, List.map_append, List.count_append] at honce ⊢
    omega
  distinct := by
    rcases he.grants with ⟨hg, -⟩ | ⟨hg, -⟩
    · simpa [grants, hg] using hi.distinct
    · have hfresh : s.nextPermit ∉ grants τ := fun h => Nat.lt_irrefl _ (hi.known _ h)
      simpa [grants, hg] using ⟨by simpa [grants] using hfresh, hi.distinct⟩
  known permit h := by
    rcases he.grants with ⟨hg, hn⟩ | ⟨hg, hn⟩ <;> rw [hn]
    · exact hi.known permit (by simpa [grants, hg] using h)
    · rcases List.mem_append.1 h with h | h
      · rw [hg, List.mem_singleton] at h
        exact h ▸ Nat.lt_succ_self _
      · exact Nat.lt_succ_of_lt (hi.known permit h)
  ready := he.ready τ hi.ready
  spent permit h := by
    rcases List.mem_append.1 h with h | h
    · exact .inr (he.starts permit (mem_starts.1 h)).2
    · left
      rcases hi.spent permit h with hended | hstage
      · simpa [ended, completions] using .inr (by simpa [ended, completions] using hended)
      · simpa [ended, completions] using .inl (by simpa using he.ends permit hstage)
  unused permit h := by
    rcases List.mem_append.1 h with hnow | hbefore
    · obtain ⟨hheld, hstage⟩ := he.unused permit hnow
      intro hs
      rcases List.mem_append.1 hs with hs | hs
      · rw [mem_starts.1 hs] at hnow
        exact nomatch hnow
      · exact hi.of_idle hheld hstage hs
    · intro hs
      rcases List.mem_append.1 hs with hs | hs
      · have hheld := held_of_permitted (he.starts permit (mem_starts.1 hs)).1
        exact (hi.of_held hheld).2 (List.mem_map.2 ⟨_, hbefore, rfl⟩)
      · exact hi.unused permit hbefore hs

theorem inv_of_run (hr : calls.Run Sys.Contract τ s) : Inv τ s :=
  hr.induct (fun _ hs => hs ▸ Inv.new) fun _ _ _ _ _ _ hi ho h => hi.step (step_effect ho h)

/-- The state in which a request was started. -/
theorem started_of_run (hr : calls.Run Sys.Contract τ s) {τ₂ τ₁ : List Event} {permit : PermitId}
    (h : τ = τ₂ ++ .started permit :: τ₁) : ∃ s₁, Inv τ₁ s₁ ∧ s₁.stage = .permitted permit := by
  obtain ⟨s₁, a, s₂, hr₁, ho, hstep⟩ := hr.prior τ₂ _ τ₁ h
  exact ⟨s₁, inv_of_run hr₁, ((step_effect ho hstep).starts permit rfl).1⟩

end

/-- In every run of the calls of a worker the account of the permits is right. -/
theorem permits_accounted {τ : List Event} {s : Sys} (hr : calls.Run Sys.Contract τ s) : Accounted τ s where
  once := (inv_of_run hr).once
  distinct := (inv_of_run hr).distinct
  rest h := by
    have hready := (inv_of_run hr).ready
    simp only [Sys.Ready, h] at hready
    simp [Sys.held, h, hready, permitOf, Stage.permit?]
  own τ₂ permit τ₁ h := by
    obtain ⟨s₁, hi, hstage⟩ := started_of_run hr h
    have hheld := held_of_permitted hstage
    exact ⟨(hi.of_held hheld).1, (hi.of_held hheld).2, hi.of_idle hheld (by simp [hstage])⟩
  running permit h := by
    have hready := (inv_of_run hr).ready
    simp only [Sys.Ready, h] at hready
    simp [Sys.held, h, hready.1, permitOf, Stage.permit?]
  covered h := by
    obtain ⟨τ₂, τ₁, rfl⟩ := List.append_of_mem h
    obtain ⟨s₁, a, s₂, -, ho, hstep⟩ := hr.prior τ₂ _ τ₁ rfl
    exact (step_effect ho hstep).covered rfl
  first τ₂ permit τ₁ h installed ht := by
    obtain ⟨s₁, hi, hstage⟩ := started_of_run hr h
    have hready := hi.ready
    simp only [Sys.Ready, hstage, ht] at hready
    simpa using hready.2
  unused := (inv_of_run hr).unused

/-- A call with two requests, and one that needs none. -/
def twoCalls : List Action :=
  [.acquire, .grant, .install, .poll, .execute, .start, .endRequest .ok, .execute, .grantNext, .start,
    .endRequest (.retryAfter 3), .cancelUnused, .leaveCall, .acquire, .grant, .install, .poll, .cancelUnused, .leaveCall, .stop]

theorem permits_accounted_twoCalls : ∃ τ s, calls.exec Sys.Contract [] Sys.new twoCalls = some (τ, s) ∧
    completions τ = [(2, .noRequest), (1, .retryAfter .global (fromSecs 3)), (0, .success)] ∧ Accounted τ s := by
  obtain ⟨⟨τ, s⟩, hexec⟩ : ∃ r, calls.exec Sys.Contract [] Sys.new twoCalls = some r := ⟨_, rfl⟩
  have hcompletions : completions τ = [(2, .noRequest), (1, .retryAfter .global (fromSecs 3)), (0, .success)] := by
    cases hexec
    rfl
  exact ⟨τ, s, hexec, hcompletions, permits_accounted (Machine.run_of_exec (.start rfl) hexec)⟩

end Teloxide.Drafter.Permits
