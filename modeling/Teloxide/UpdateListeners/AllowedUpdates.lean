import Teloxide.UpdateListeners.OffsetProtocol

/-!
# The allowed-updates hint

The hint moves into the first request that is built, and no path puts it back. As long as
no second request is built before one has succeeded, every request sent until then carries
it.

* `Hinted`: what holds of a listener whose requests have all carried the hint.
* `hint_kept`: over the runs in which the first request is not rebuilt, all of them do.
-/
namespace Teloxide.UpdateListeners

open Teloxide.Core

/-- A request has succeeded. -/
def succeeded : List Entry → Bool
  | [] => false
  | .received _ :: _ | .dropped _ :: _ => true
  | _ :: log => succeeded log

namespace Sys

/-- The poll drops the request for the stop flag, or wakes up after one that failed: it builds
another request. -/
def rebuilds (x : Sys) (moment : Moment) : Bool :=
  !x.stream.forceStop && x.stream.buffer.isEmpty &&
    (!x.stream.stopping && x.stopped || x.stream.inFlight.isNone && x.stream.eepy.isSome && moment.slept)

end Sys

/-- No request is built between the first one and the first success. -/
def builtOnce (x : Sys) : Action → Prop
  | .poll moment => x.rebuilds moment = true → succeeded x.log = true ∨ x.stream.allowedUpdates.isSome = true
  | _ => True

instance (x : Sys) (a : Action) : Decidable (builtOnce x a) := by
  cases a with
  | poll moment => exact inferInstanceAs (Decidable (_ → _))
  | _ => exact inferInstanceAs (Decidable True)

/-- What a listener with this hint may log after `log`. -/
def Carries (hint : List AllowedUpdate) : Entry → List Entry → Prop
  | .asked asked, log => succeeded log = false → asked = some hint
  | .yielded _, log => .asked (some hint) ∈ log
  | _, _ => True

/-- A listener on the way to its first success. -/
structure Hinted (hint : List AllowedUpdate) (s : PollingStream) (ended : Bool) (log : List Entry) : Prop where
  carries : ∀ after e before, log = after ++ e :: before → Carries hint e before
  success : succeeded log = true → .asked (some hint) ∈ log
  empty : succeeded log = false → s.buffer = []
  kept : succeeded log = false → s.inFlight = none → s.eepy = none →
    s.forceStop = true ∨ ended = true ∨ s.allowedUpdates = some hint
  only : succeeded log = false → s.allowedUpdates.isSome = true → s.allowedUpdates = some hint
  inFlight : succeeded log = false → ∀ q, s.inFlight = some q → q.payload.allowedUpdates = some hint ∧
    (q.wire ≠ .unsent → .asked (some hint) ∈ log)

/-- An entry that neither asks nor gives. -/
def Entry.mute : Entry → Bool
  | .asked _ | .received _ | .dropped _ | .yielded _ => false
  | _ => true

section Hinted

variable {P : Polling} {hint : List AllowedUpdate} {s s' : PollingStream} {ended ended' : Bool} {log : List Entry}

theorem succeeded_cons_mute {e : Entry} (he : e.mute = true) (log : List Entry) :
    succeeded (e :: log) = succeeded log := by
  cases e <;> first | rfl | cases he

theorem Hinted.note (h : Hinted hint s ended log) {e : Entry} (he : e.mute = true) : Hinted hint s ended (e :: log) where
  carries := splits_cons (by cases e <;> trivial) h.carries
  success hs := List.mem_cons_of_mem _ (h.success (by rwa [succeeded_cons_mute he] at hs))
  empty hs := h.empty (by rwa [succeeded_cons_mute he] at hs)
  kept hs := h.kept (by rwa [succeeded_cons_mute he] at hs)
  only hs := h.only (by rwa [succeeded_cons_mute he] at hs)
  inFlight hs q hq := (h.inFlight (by rwa [succeeded_cons_mute he] at hs) q hq).imp_right fun hw hs' =>
    List.mem_cons_of_mem _ (hw hs')

/-- After the first success nothing is left to show. -/
theorem Hinted.of_success (hc : ∀ after e before, log = after ++ e :: before → Carries hint e before)
    (hs : succeeded log = true) (ha : .asked (some hint) ∈ log) : Hinted hint s ended log where
  carries := hc
  success _ := ha
  empty hf := by rw [hs] at hf; cases hf
  kept hf := by rw [hs] at hf; cases hf
  only hf := by rw [hs] at hf; cases hf
  inFlight hf := by rw [hs] at hf; cases hf

/-- The stream is over, or pauses before its next request. -/
theorem Hinted.rest (h : Hinted hint s ended log) (hb : s'.buffer = s.buffer) (ha : s'.allowedUpdates = s.allowedUpdates)
    (hfree : s'.inFlight = none) (hrest : s'.eepy.isSome = true ∨ s'.forceStop = true ∨ ended' = true) :
    Hinted hint s' ended' log where
  carries := h.carries
  success := h.success
  empty hs := hb ▸ h.empty hs
  kept _ _ he := by
    rcases hrest with hr | hr | hr
    · rw [he] at hr
      cases hr
    · exact .inl hr
    · exact .inr (.inl hr)
  only hs := by rw [ha]; exact h.only hs
  inFlight _ q hq := by rw [hfree] at hq; cases hq

theorem payload_allowedUpdates (P : Polling) (s : PollingStream) : (s.payload P).allowedUpdates = s.allowedUpdates := by
  unfold PollingStream.payload
  split <;> rfl

theorem Hinted.request (h : Hinted hint s ended log) (hb : s'.buffer = s.buffer)
    (ha : succeeded log = false → s'.allowedUpdates = some hint) : Hinted hint (s'.request P) ended log where
  carries := h.carries
  success := h.success
  empty hs := hb.trans (h.empty hs)
  kept _ hf := by cases hf
  only _ hs := by cases hs
  inFlight hs q hq := by
    obtain rfl := Option.some.inj hq
    exact ⟨(payload_allowedUpdates P s').trans (ha hs), fun hw => absurd rfl hw⟩

end Hinted

/-! ## The hint through a step -/

def Sys.Hinted (hint : List AllowedUpdate) (x : Sys) : Prop := UpdateListeners.Hinted hint x.stream x.ended x.log

section Sys

variable {P : Polling} {hint : List AllowedUpdate} {x : Sys}

theorem Sys.Hinted.stop (h : x.Hinted hint) (meanwhile : Bool) : (x.stop meanwhile).Hinted hint := by
  unfold Sys.stop
  split
  · exact h
  · exact UpdateListeners.Hinted.note h rfl

theorem Sys.Hinted.process (h : x.Hinted hint) (payload : GetUpdates) : (x.process payload).Hinted hint :=
  UpdateListeners.Hinted.note h rfl

theorem Sys.Hinted.serve (h : x.Hinted hint) {x' : Sys} (hs : x.serve = some x') : x'.Hinted hint := by
  unfold Sys.serve at hs
  split at hs
  · rename_i payload hq
    obtain rfl := Option.some.inj hs
    have hp := h.process payload
    refine { hp with kept := fun _ hf => (by cases hf), inFlight := fun hn q hq' => ?_ }
    obtain rfl := Option.some.inj hq'
    obtain ⟨hhint, hsent⟩ := UpdateListeners.Hinted.inFlight hp hn _ hq
    exact ⟨hhint, fun _ => hsent (by simp)⟩
  · cases hs

/-- The first poll of the future logs what the request carries. -/
theorem Sys.Hinted.send (h : x.Hinted hint) {q : Request} (hq : x.stream.inFlight = some q) :
    (x.send q).Hinted hint ∧ ∃ q', (x.send q).stream = { x.stream with inFlight := some q' } ∧ q'.wire ≠ .unsent := by
  unfold Sys.send
  split
  · have h' : UpdateListeners.Hinted hint x.stream x.ended x.log := h
    have hasked : UpdateListeners.Hinted hint { x.stream with inFlight := some { q with wire := .sent } } x.ended
        (.asked q.payload.allowedUpdates :: x.log) :=
      { carries := splits_cons (fun hs => (h'.inFlight hs q hq).1) h'.carries
        success := fun hs => List.mem_cons_of_mem _ (h'.success hs)
        empty := fun hs => h'.empty hs
        kept := fun _ hf => by cases hf
        only := fun hs => h'.only hs
        inFlight := fun hs q' hq' => by
          obtain rfl := Option.some.inj hq'
          have hhint := (h'.inFlight hs q hq).1
          exact ⟨hhint, fun _ => by rw [← hhint]; exact List.mem_cons_self⟩ }
    exact ⟨hasked.note rfl, _, rfl, by simp⟩
  · rename_i hw
    exact ⟨h, q, by rw [← hq], by simpa using hw⟩

theorem Sys.Hinted.answered (h : x.Hinted hint) (q : Request) : (x.answered q).1.Hinted hint := by
  unfold Sys.answered
  split
  · exact h
  · exact h.process _

/-- A request that has been sent succeeds. -/
theorem Sys.Hinted.completed (h : x.Hinted hint) {q : Request} (hq : x.stream.inFlight = some q) (hw : q.wire ≠ .unsent)
    (updates : List Nat) : ((x.setInFlight none).completed P updates).Hinted hint := by
  have hasked : Entry.asked (some hint) ∈ x.log := by
    cases hs : succeeded x.log with
    | true => exact UpdateListeners.Hinted.success h hs
    | false => exact (UpdateListeners.Hinted.inFlight h hs q hq).2 hw
  unfold Sys.completed
  split
  · exact UpdateListeners.Hinted.rest (UpdateListeners.Hinted.note h (e := .ended) rfl) rfl rfl rfl (.inr (.inr rfl))
  · unfold Sys.keep
    dsimp only
    split
    · exact .of_success (splits_cons trivial (UpdateListeners.Hinted.carries h)) rfl (List.mem_cons_of_mem _ hasked)
    · exact .of_success (splits_cons trivial (UpdateListeners.Hinted.carries h)) rfl (List.mem_cons_of_mem _ hasked)

theorem Sys.Hinted.failed (h : x.Hinted hint) (retryAfter : Option Nat) : (x.abandon.failed P retryAfter).Hinted hint := by
  obtain ⟨late, hl⟩ := abandon_eq x
  have hn := UpdateListeners.Hinted.note h (e := .failed) rfl
  rw [hl]
  unfold Sys.failed
  split
  · exact hn.rest rfl rfl rfl (.inr (.inl rfl))
  · split
    · exact hn.rest rfl rfl rfl (.inl rfl)
    · exact hn.rest rfl rfl rfl (.inl rfl)

theorem Sys.Hinted.pollInFlight (h : x.Hinted hint) {q : Request} (hq : x.stream.inFlight = some q) (reply : Reply) :
    (x.pollInFlight P q reply).Hinted hint := by
  obtain ⟨hsend, q', hstream, hw⟩ := h.send hq
  cases reply with
  | pending => exact hsend
  | ok =>
    have hq' : ((x.send q).answered q).1.stream.inFlight = some q' := by rw [answered_stream, hstream]
    exact (hsend.answered q).completed hq' hw _
  | err retryAfter => exact hsend.failed retryAfter

theorem Sys.Hinted.poll (h : x.Hinted hint) (he : x.ended = false) {moment : Moment} (hb : builtOnce x (.poll moment)) :
    (x.poll P moment).Hinted hint := by
  unfold Sys.poll
  split
  · rename_i hf
    exact
      { UpdateListeners.Hinted.note h (e := .ended) rfl with kept := fun _ _ _ => .inl hf }
  rename_i hforce
  have hforce : x.stream.forceStop = false := Bool.eq_false_iff.2 hforce
  split
  · rename_i update buffer hbuf
    have hs : succeeded x.log = true := by
      by_contra hn
      have := UpdateListeners.Hinted.empty h (Bool.eq_false_iff.2 hn)
      rw [hbuf] at this
      cases this
    have hasked := UpdateListeners.Hinted.success h hs
    exact .of_success (splits_cons hasked (UpdateListeners.Hinted.carries h)) hs (List.mem_cons_of_mem _ hasked)
  rename_i hbuf
  -- a request that is rebuilt still finds the hint
  have hkept (hr : !x.stream.stopping && x.stopped || x.stream.inFlight.isNone && x.stream.eepy.isSome && moment.slept)
      (hs : succeeded x.log = false) : x.stream.allowedUpdates = some hint := by
    have hrebuild : x.rebuilds moment = true := by
      unfold Sys.rebuilds
      rw [hforce, hbuf]
      simpa using hr
    rcases hb hrebuild with hs' | hsome
    · rw [hs] at hs'
      cases hs'
    · exact UpdateListeners.Hinted.only h hs hsome
  have hfutures (y : Sys) (hy : y.Hinted hint) (hstream : y.stream = x.stream) (hlog : succeeded y.log = succeeded x.log)
      (hended : y.ended = x.ended) : (y.pollFutures P moment).Hinted hint := by
    unfold Sys.pollFutures
    split
    · rename_i q hq
      exact hy.pollInFlight hq _
    · rename_i hfree
      rw [hstream] at hfree
      split
      · rename_i delay heepy
        split
        · rename_i hslept
          refine UpdateListeners.Hinted.request hy rfl fun hs => ?_
          rw [hstream] at heepy ⊢
          refine hkept ?_ (hlog ▸ hs)
          rw [hfree, heepy, hslept]
          simp
        · exact hy
      · rename_i heepy
        refine UpdateListeners.Hinted.request hy rfl fun hs => ?_
        rw [hstream] at heepy ⊢
        have hk := UpdateListeners.Hinted.kept h (hlog ▸ hs) hfree heepy
        rw [hforce, he] at hk
        simpa using hk
  split
  · rename_i hnotice
    obtain ⟨late, hl⟩ := abandon_eq x
    have hn := UpdateListeners.Hinted.note h (e := .noticed) rfl
    have hrequest : UpdateListeners.Hinted hint (x.notice.stream.request P) x.ended (.noticed :: x.log) := by
      refine hn.request (by rw [Sys.notice, hl]; rfl) fun hs => ?_
      have := hkept (by rw [hnotice]; rfl) hs
      rw [Sys.notice, hl]
      exact this
    unfold Sys.Hinted Sys.request
    rw [show x.notice.ended = x.ended by rw [Sys.notice, hl]; rfl, show x.notice.log = .noticed :: x.log from rfl]
    exact hrequest
  · split
    · refine hfutures _ (h.stop true) (stop_stream true) ?_ ?_
      · unfold Sys.stop
        split <;> rfl
      · unfold Sys.stop
        split <;> rfl
    · exact hfutures x h rfl rfl rfl

end Sys

/-! ## Every run -/

section Runs

variable {P : Polling} {hint : List AllowedUpdate} {x x' : Sys}

theorem Start.hinted (h : Start P x) (hp : P.allowedUpdates = some hint) : x.Hinted hint := by
  obtain ⟨s, server, late, stopped, ended, log⟩ := x
  obtain ⟨rfl, -, -, -, rfl, rfl, rfl, rfl⟩ := h
  exact
    { carries := fun after e before hlog => by simp at hlog
      success := nofun
      empty := fun _ => rfl
      kept := fun _ _ _ => .inr (.inr hp)
      only := fun _ _ => hp
      inFlight := nofun }

theorem step_hinted (h : x.Hinted hint) {a : Action} (hb : builtOnce x a) (hs : step P x a = some x') : x'.Hinted hint := by
  cases a with
  | arrive id =>
    simp only [step, Sys.arrive] at hs
    split at hs
    · obtain rfl := Option.some.inj hs
      exact h
    · cases hs
  | stop =>
    obtain rfl := Option.some.inj hs
    exact h.stop false
  | serve => exact h.serve hs
  | serveLate request =>
    simp only [step, Sys.serveLate] at hs
    obtain ⟨payload, -, rfl⟩ := Option.map_eq_some_iff.1 hs
    exact h.process payload
  | poll moment =>
    simp only [step] at hs
    split at hs
    · cases hs
    · rename_i he
      obtain rfl := Option.some.inj hs
      exact h.poll (Bool.eq_false_iff.2 he) hb

/-- In every run that builds no second request before the first success, every request sent
until then carries the hint, and one that does comes before everything that is yielded. -/
theorem hint_kept (hp : P.allowedUpdates = some hint) {τ : List Unit} (hr : (machine P).Run builtOnce τ x) :
    (∀ after asked before, x.log = after ++ .asked asked :: before → succeeded before = false → asked = some hint) ∧
    ∀ after update before, x.log = after ++ .yielded update :: before → .asked (some hint) ∈ before := by
  have h : x.Hinted hint := Machine.Run.induct (I := fun _ x => x.Hinted hint) (fun _ h => Start.hinted h hp)
    (fun _ _ _ _ _ _ h hb hs => by
      obtain ⟨x₁, hx, heq⟩ := Option.map_eq_some_iff.1 hs
      cases heq
      exact step_hinted h hb hx) hr
  have hc := UpdateListeners.Hinted.carries h
  exact ⟨fun after asked before hlog => hc _ _ _ hlog, fun after update before hlog => hc _ _ _ hlog⟩

end Runs

/-- A listener for messages only. -/
def messagesOnly : Polling := ⟨some 10, none, some [.message], true, fun _ => 1⟩

/-- The first request drops what is pending, the second one yields an update, the third one
fails. -/
theorem hint_kept_messages : ∃ τ x, (machine messagesOnly).Run builtOnce τ x ∧ yielded x.log = [7] ∧ sends x.log = 3 ∧
    ∀ after asked before, x.log = after ++ .asked asked :: before → succeeded before = false → asked = some [.message] := by
  have h : ((machine messagesOnly).exec builtOnce [] (fresh messagesOnly ⟨[3, 5], 6⟩)
      [meets .pending, meets .ok, .arrive 7, meets .ok, meets .pending, meets (.err none), .stop, meets .pending]).map
      (fun r => (yielded r.2.log, sends r.2.log)) = some ([7], 3) := by decide
  obtain ⟨⟨τ, x⟩, he, hs⟩ := Option.map_eq_some_iff.mp h
  simp only [Prod.mk.injEq] at hs
  have hstart : Start messagesOnly (fresh messagesOnly ⟨[3, 5], 6⟩) :=
    ⟨rfl, by decide, by decide, by decide, rfl, rfl, rfl, rfl⟩
  have hr := Machine.run_of_exec (.start hstart) he
  exact ⟨τ, x, hr, hs.1, hs.2, (hint_kept rfl hr).1⟩

/-- The first request fails; the one that is built after the pause does without the hint. -/
theorem hint_lost : ¬ ∀ P hint τ x, P.allowedUpdates = some hint → (machine P).Run Machine.anything τ x →
    ∀ after asked before, x.log = after ++ .asked asked :: before → succeeded before = false → asked = some hint := by
  intro hall
  have h : ((machine messagesOnly).exec Machine.anything [] (fresh messagesOnly ⟨[3, 5], 6⟩)
      [meets .pending, meets (.err none), meets .pending, meets .ok]).map (·.2.log) =
      some ([.dropped [5], .confirmed (-1) [3], .sent (-1)] ++ .asked none ::
        [.failed, .sent (-1), .asked (some [.message])]) := by decide
  obtain ⟨⟨τ, x⟩, he, hlog⟩ := Option.map_eq_some_iff.mp h
  have hstart : Start messagesOnly (fresh messagesOnly ⟨[3, 5], 6⟩) :=
    ⟨rfl, by decide, by decide, by decide, rfl, rfl, rfl, rfl⟩
  exact absurd (hall _ _ _ _ rfl (Machine.run_of_exec (.start hstart) he) _ _ _ hlog rfl) (by decide)

end Teloxide.UpdateListeners
