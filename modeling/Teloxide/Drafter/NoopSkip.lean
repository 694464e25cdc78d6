import Teloxide.Core.Machine
import Teloxide.Drafter.Telegram

/-!
# Previews that are acknowledged without a request

`EditInPlaceBackend` and `RichEditInPlaceBackend` of
`crates/teloxide/src/drafter/telegram.rs` skip a preview that is the last one
they remember. `World` puts the message itself beside the backend.

* An edit that is answered is applied or not, as the answer says. One without a
  definite answer is `inFlight`: it is applied at any later time, or never.
* "Message is not modified" is the answer exactly to an edit that changes nothing.
* A message that was not acknowledged when it was sent is not the one that is edited.

`noop_sound`: a skipped preview is certain to be shown, if the last definite
edit of the message had that content and so had every other one whose outcome
is not known. In the runs of `noop_unsound` it is not.
-/
namespace Teloxide.Drafter.EditInPlace

open Core.Machine (history history_cons)

/-- The answer to a request does not tell whether it was carried out. -/
def unknownOutcome (error : DrafterRequestError) : Bool := (classifyRequestError .final error).delivery = .unknown

variable {P K : Type}

/-- The backend, and the message it edits. -/
structure World (P K : Type) where
  backend : EditInPlace K
  /-- what the message shows -/
  shown : Option P
  inFlight : List P

/-- A call with the answer to its request. -/
inductive Call (P : Type) where
  /-- the worker asks `preview_is_noop` -/
  | previewIsNoop (preview : P)
  | update (preview : P) (reply : Except DrafterRequestError Message)
  | commitSegment (payload : P) (reply : Except DrafterRequestError Message)
  | finish (payload : P) (reply : Except DrafterRequestError Message)
  /-- the future of `update`, or of one of the other two, is dropped -/
  | cutUpdate (preview : P)
  | cutDelivery (payload : P)
  /-- an edit is applied late -/
  | land (content : P)

/-- How an edit of the message was answered. -/
inductive Answer where
  | applied
  /-- it already shows this -/
  | same
  | refused
  | unknown
  deriving DecidableEq

/-- What the drafter learns. -/
inductive Seen (P : Type) where
  /-- acknowledged without a request -/
  | skipped (preview : P)
  | sent (content : P)
  | edited (content : P) (answer : Answer)
  /-- the segment is over, the message stays as it is -/
  | released
  deriving DecidableEq

/-- The answer as it is classified. -/
def Answer.of (reply : Except DrafterRequestError Message) : Answer :=
  match reply with
  | .ok _ => .applied
  | .error error =>
    if isMessageNotModified error then .same else if unknownOutcome error then .unknown else .refused

section
variable [DecidableEq P] [DecidableEq K] (key : P → K)
  (commitSegment : EditInPlace K → Replies → EditInPlace K × Except DrafterRequestError Message)
  (w : World P K)

/-- An edit reaches the message. -/
def World.edit (content : P) (answer : Answer) : Option (World P K) :=
  match answer with
  | .applied => some { w with shown := some content }
  | .same => if w.shown = some content then some w else none
  | .refused => some w
  | .unknown => some { w with inFlight := content :: w.inFlight }

/-- The final payload is an edit if there is a message, and sent if not. -/
def World.deliver (payload : P) (reply : Except DrafterRequestError Message) : Option (World P K × List (Seen P)) :=
  match w.backend.messageId with
  | some _ => (w.edit payload (.of reply)).map (·, [.edited payload (.of reply)])
  | none => some (w, [])

def World.step : Call P → Option (World P K × List (Seen P))
  | .previewIsNoop preview =>
    some (w, if (EditInPlace.backend key false commitSegment).previewIsNoop w.backend preview then [.skipped preview] else [])
  | .update preview reply =>
    let b := (w.backend.update (key preview) fun _ => reply).1
    if w.backend.last = some (key preview) then some ({ w with backend := b }, [.skipped preview])
    else
      match w.backend.messageId, reply with
      | some _, reply => (w.edit preview (.of reply)).map ({ · with backend := b }, [.edited preview (.of reply)])
      | none, .ok _ => some (⟨b, some preview, []⟩, [.sent preview])
      | none, .error _ => some ({ w with backend := b }, [])
  | .commitSegment payload reply =>
    let result := commitSegment w.backend fun _ => reply
    (w.deliver payload reply).map fun r =>
      if result.2.isOk then (⟨result.1, none, []⟩, r.2 ++ [.released]) else ({ r.1 with backend := result.1 }, r.2)
  | .finish payload reply =>
    (w.deliver payload reply).map fun r => ({ r.1 with backend := (w.backend.finish fun _ => reply).1 }, r.2)
  | .cutUpdate preview =>
    let b := w.backend.takeContext
    if w.backend.last = some (key preview) ∨ w.backend.messageId = none then some ({ w with backend := b }, [])
    else (w.edit preview .unknown).map ({ · with backend := b }, [.edited preview .unknown])
  | .cutDelivery payload =>
    let b := w.backend.takeContext
    if w.backend.messageId = none then some ({ w with backend := b }, [])
    else (w.edit payload .unknown).map ({ · with backend := b }, [.edited payload .unknown])
  | .land content =>
    if content ∈ w.inFlight then
      some ({ w with shown := some content, inFlight := w.inFlight.erase content }, [])
    else none

end

/-- A backend that has just been made, with any policy, and the calls of it. -/
def machine [DecidableEq P] [DecidableEq K] (key : P → K)
    (commitSegment : EditInPlace K → Replies → EditInPlace K × Except DrafterRequestError Message) :
    Core.Machine (World P K) (Call P) (List (Seen P)) where
  init w := ∃ policy, w = ⟨{ new with abortPolicy := policy }, none, []⟩
  step w call := w.step key commitSegment call

/-! ## What is known about the message -/

/-- What the last edit with a definite answer, or the sending, has put into the
message. -/
def lastDefinite : List (Seen P) → Option P
  | [] => none
  | .sent content :: _ | .edited content .applied :: _ | .edited content .same :: _ => some content
  | .released :: _ => none
  | .skipped _ :: h | .edited _ .refused :: h | .edited _ .unknown :: h => lastDefinite h

section
variable [DecidableEq P]

/-- The contents of the edits of the message that may still be applied. One that
is found applied already is not. -/
def unsettled : List (Seen P) → List P
  | [] => []
  | .sent _ :: _ | .released :: _ => []
  | .edited content .unknown :: h => content :: unsettled h
  | .edited content .same :: h =>
    if lastDefinite h = some content then unsettled h else (unsettled h).erase content
  | .skipped _ :: h | .edited _ .applied :: h | .edited _ .refused :: h => unsettled h

/-- Whatever has become of the edits, the message shows `content`. -/
def Certainly (content : P) (h : List (Seen P)) : Prop :=
  lastDefinite h = some content ∧ ∀ other ∈ unsettled h, other = content

/-- The message shows the last definite content, or an edit that came late and
is in flight no more. -/
inductive Known (h : List (Seen P)) (w : World P K) : Prop
  | definite : w.shown = lastDefinite h → (∀ x, w.inFlight.count x ≤ (unsettled h).count x) → Known h w
  | late (content : P) : w.shown = some content →
      (∀ x, w.inFlight.count x + [content].count x ≤ (unsettled h).count x) → Known h w

variable {w w' : World P K} {h : List (Seen P)}

theorem Known.inFlight (hk : Known h w) (x : P) : w.inFlight.count x ≤ (unsettled h).count x := by
  cases hk with
  | definite _ hf => exact hf x
  | late content _ hf =>
    have := hf x
    omega

theorem Known.certain (hk : Known h w) {content : P} (hc : Certainly content h) : w.shown = some content := by
  cases hk with
  | definite hs _ => rw [hs, hc.1]
  | late other hs hf =>
    have hm : other ∈ unsettled h := by
      have := hf other
      rw [List.count_singleton_self] at this
      exact List.count_pos_iff.mp (by omega)
    rw [hs, hc.2 other hm]

theorem Known.withBackend (hk : Known h w) (b : EditInPlace K) : Known h { w with backend := b } := by
  cases hk with
  | definite hs hf => exact .definite hs hf
  | late content hs hf => exact .late content hs hf

theorem Known.skipped (hk : Known h w) (preview : P) : Known (.skipped preview :: h) w := by
  cases hk with
  | definite hs hf => exact .definite hs hf
  | late content hs hf => exact .late content hs hf

theorem Known.sent (b : EditInPlace K) (content : P) : Known (.sent content :: h) ⟨b, some content, []⟩ :=
  .definite rfl (by simp)

theorem Known.released (b : EditInPlace K) : Known (.released :: h) (⟨b, none, []⟩ : World P K) :=
  .definite rfl (by simp)

theorem Known.edit {content : P} {answer : Answer} (hk : Known h w) (he : w.edit content answer = some w') :
    Known (.edited content answer :: h) w' := by
  cases answer with
  | applied =>
    cases he
    exact .definite rfl hk.inFlight
  | same =>
    simp only [World.edit] at he
    split at he
    · rename_i hs
      cases he
      refine .definite hs fun x => ?_
      by_cases hl : lastDefinite h = some content
      · simpa only [unsettled, hl, if_true] using hk.inFlight x
      · -- it was not the definite content, so an edit with this content has come late
        simp only [unsettled, hl, if_false, List.count_erase]
        cases hk with
        | definite hs' _ => exact absurd (hs'.symm.trans hs) hl
        | late other hs' hf =>
          obtain rfl : other = content := Option.some.inj (hs'.symm.trans hs)
          have := hf x
          rw [List.count_singleton] at this
          omega
    · cases he
  | refused =>
    cases he
    cases hk with
    | definite hs hf => exact .definite hs hf
    | late other hs hf => exact .late other hs hf
  | unknown =>
    cases he
    cases hk with
    | definite hs hf =>
      refine .definite hs fun x => ?_
      have := hf x
      simp only [unsettled, List.count_cons]
      omega
    | late other hs hf =>
      refine .late other hs fun x => ?_
      have := hf x
      simp only [unsettled, List.count_cons] at this ⊢
      omega

theorem Known.land {content : P} (hk : Known h w) (hm : content ∈ w.inFlight) :
    Known h { w with shown := some content, inFlight := w.inFlight.erase content } := by
  refine .late content rfl fun x => ?_
  have h1 := hk.inFlight x
  have h2 := List.count_pos_iff.mpr hm
  rw [List.count_erase, List.count_singleton]
  split
  · rename_i hx
    obtain rfl : content = x := by simpa using hx
    omega
  · omega

theorem Known.deliver {payload : P} {reply : Except DrafterRequestError Message} {r : World P K × List (Seen P)}
    (hk : Known h w) (hd : w.deliver payload reply = some r) : Known (r.2.reverse ++ h) r.1 := by
  unfold World.deliver at hd
  split at hd
  · obtain ⟨w₁, he, rfl⟩ := Option.map_eq_some_iff.mp hd
    exact hk.edit he
  · cases hd
    exact hk

end

section
variable [DecidableEq P] [DecidableEq K] {key : P → K}
  {commitSegment : EditInPlace K → Replies → EditInPlace K × Except DrafterRequestError Message}
  {w w' : World P K} {h : List (Seen P)}

/-- What is known stays true whatever is called and answered. -/
theorem Known.step {call : Call P} {evs : List (Seen P)} (hk : Known h w)
    (hs : w.step key commitSegment call = some (w', evs)) : Known (evs.reverse ++ h) w' := by
  cases call with
  | previewIsNoop preview =>
    cases hs
    split
    · exact hk.skipped preview
    · exact hk
  | update preview reply =>
    simp only [World.step] at hs
    split at hs
    · cases hs
      exact (hk.skipped preview).withBackend _
    · split at hs
      · obtain ⟨w₁, he, h1⟩ := Option.map_eq_some_iff.mp hs
        cases h1
        exact (hk.edit he).withBackend _
      · cases hs
        exact Known.sent _ preview
      · cases hs
        exact hk.withBackend _
  | commitSegment payload reply =>
    obtain ⟨r, hd, hr⟩ := Option.map_eq_some_iff.mp hs
    have hkr := hk.deliver hd
    split at hr
    · cases hr
      rw [List.reverse_append]
      exact Known.released _
    · cases hr
      exact hkr.withBackend _
  | finish payload reply =>
    obtain ⟨r, hd, hr⟩ := Option.map_eq_some_iff.mp hs
    cases hr
    exact (hk.deliver hd).withBackend _
  | cutUpdate preview =>
    simp only [World.step] at hs
    split at hs
    · cases hs
      exact hk.withBackend _
    · obtain ⟨w₁, he, h1⟩ := Option.map_eq_some_iff.mp hs
      cases h1
      exact (hk.edit he).withBackend _
  | cutDelivery payload =>
    simp only [World.step] at hs
    split at hs
    · cases hs
      exact hk.withBackend _
    · obtain ⟨w₁, he, h1⟩ := Option.map_eq_some_iff.mp hs
      cases h1
      exact (hk.edit he).withBackend _
  | land content =>
    simp only [World.step] at hs
    split at hs
    · rename_i hm
      cases hs
      exact hk.land hm
    · cases hs

theorem known_of_run {τ : List (List (Seen P))} {w : World P K}
    (hr : (machine key commitSegment).Run Core.Machine.anything τ w) : Known (history τ) w := by
  refine hr.induct (I := fun τ w => Known (history τ) w) ?_ ?_
  · rintro w ⟨policy, rfl⟩
    exact .definite rfl (by simp)
  · intro τ w call w' evs _ hk _ hs
    rw [history_cons]
    exact hk.step hs

end

/-! ## The world that may differ most -/

/-- Whatever the drafter has not seen, the message shows `content` after `h`. -/
def Certain [DecidableEq P] [DecidableEq K] (key : P → K)
    (commitSegment : EditInPlace K → Replies → EditInPlace K × Except DrafterRequestError Message)
    (h : List (Seen P)) (content : P) : Prop :=
  ∀ τ w, (machine key commitSegment).Run Core.Machine.anything τ w → history τ = h → w.shown = some content

section
variable [DecidableEq P] [DecidableEq K] {key : P → K}
  {commitSegment : EditInPlace K → Replies → EditInPlace K × Except DrafterRequestError Message}

/-- A run that looks like `h` to the drafter, and where all edits that may still
be applied are. -/
structure Open (key : P → K)
    (commitSegment : EditInPlace K → Replies → EditInPlace K × Except DrafterRequestError Message)
    (h : List (Seen P)) (b : EditInPlace K) (τ : List (List (Seen P))) (w : World P K) : Prop where
  run : (machine key commitSegment).Run Core.Machine.anything τ w
  looks : history τ = h
  backend : w.backend = b
  shown : w.shown = lastDefinite h
  inFlight : w.inFlight = unsettled h

variable {h : List (Seen P)} {b : EditInPlace K} {τ : List (List (Seen P))} {w w' : World P K}

theorem Open.land (ho : Open key commitSegment h b τ w) {content : P} (hm : content ∈ unsettled h) :
    ∃ τ', (machine key commitSegment).Run Core.Machine.anything τ'
      { w with shown := some content, inFlight := w.inFlight.erase content } ∧ history τ' = h := by
  refine ⟨[] :: τ, .step (a := .land content) ho.run trivial ?_, ho.looks⟩
  simp [machine, World.step, ho.inFlight, hm]

/-- An edit that was answered can be answered so in an open world, or after one
edit in flight was applied there. -/
theorem Open.edit {content : P} {answer : Answer} (hk : Known h w) (he : w.edit content answer = some w')
    {w₁ : World P K} (ho : Open key commitSegment h b τ w₁) :
    ∃ τ₂ w₂ w₃, (machine key commitSegment).Run Core.Machine.anything τ₂ w₂ ∧ history τ₂ = h ∧ w₂.backend = b ∧
      w₂.edit content answer = some w₃ ∧ w₃.shown = lastDefinite (.edited content answer :: h) ∧
      w₃.inFlight = unsettled (.edited content answer :: h) := by
  cases answer with
  | applied => exact ⟨τ, w₁, _, ho.run, ho.looks, ho.backend, rfl, rfl, ho.inFlight⟩
  | refused => exact ⟨τ, w₁, _, ho.run, ho.looks, ho.backend, rfl, ho.shown, ho.inFlight⟩
  | unknown =>
    exact ⟨τ, w₁, _, ho.run, ho.looks, ho.backend, rfl, ho.shown, congrArg (content :: ·) ho.inFlight⟩
  | same =>
    have hs : w.shown = some content := by
      simp only [World.edit] at he
      split at he
      · assumption
      · cases he
    by_cases hl : lastDefinite h = some content
    · refine ⟨τ, w₁, w₁, ho.run, ho.looks, ho.backend, ?_, ho.shown.trans hl, ?_⟩
      · simp [World.edit, ho.shown, hl]
      · simpa [unsettled, hl] using ho.inFlight
    · have hm : content ∈ unsettled h := by
        cases hk with
        | definite hs' _ => exact absurd (hs'.symm.trans hs) hl
        | late other hs' hf =>
          obtain rfl : other = content := Option.some.inj (hs'.symm.trans hs)
          have := hf other
          rw [List.count_singleton_self] at this
          exact List.count_pos_iff.mp (by omega)
      obtain ⟨τ₂, hr, hh⟩ := ho.land hm
      refine ⟨τ₂, _, _, hr, hh, ho.backend, if_pos rfl, rfl, ?_⟩
      simp [unsettled, hl, ho.inFlight]

theorem Open.deliver {payload : P} {reply : Except DrafterRequestError Message} {r : World P K × List (Seen P)}
    (hk : Known h w) (hb : w.backend = b) (hd : w.deliver payload reply = some r)
    {w₁ : World P K} (ho : Open key commitSegment h b τ w₁) :
    ∃ τ₂ w₂ w₃, (machine key commitSegment).Run Core.Machine.anything τ₂ w₂ ∧ history τ₂ = h ∧ w₂.backend = b ∧
      w₂.deliver payload reply = some (w₃, r.2) ∧ w₃.shown = lastDefinite (r.2.reverse ++ h) ∧
      w₃.inFlight = unsettled (r.2.reverse ++ h) := by
  unfold World.deliver at hd
  split at hd
  · rename_i id hid
    obtain ⟨w', he, rfl⟩ := Option.map_eq_some_iff.mp hd
    obtain ⟨τ₂, w₂, w₃, hr, hh, hb₂, he₂, hs, hf⟩ := ho.edit hk he
    refine ⟨τ₂, w₂, w₃, hr, hh, hb₂, ?_, hs, hf⟩
    have : w₂.backend.messageId = some id := by rw [hb₂, ← hb, hid]
    simp [World.deliver, this, he₂]
  · rename_i hid
    cases hd
    refine ⟨τ, w₁, w₁, ho.run, ho.looks, ho.backend, ?_, ho.shown, ho.inFlight⟩
    have : w₁.backend.messageId = none := by rw [ho.backend, ← hb, hid]
    simp [World.deliver, this]

/-- A step that was taken can be taken from an open world to an open world. -/
theorem Open.step {call : Call P} {evs : List (Seen P)} (hk : Known h w) (hs : w.step key commitSegment call = some (w', evs))
    {w₁ : World P K} (ho : Open key commitSegment h w.backend τ w₁) :
    ∃ τ₂ w₂, Open key commitSegment (evs.reverse ++ h) w'.backend τ₂ w₂ := by
  -- one more step after a run that looks the same
  have goOn {τ₂ : List (List (Seen P))} {w₂ v : World P K}
      (hr : (machine key commitSegment).Run Core.Machine.anything τ₂ w₂) (hh : history τ₂ = h)
      (hs : w₂.step key commitSegment call = some (v, evs)) (hb : v.backend = w'.backend)
      (hshown : v.shown = lastDefinite (evs.reverse ++ h)) (hf : v.inFlight = unsettled (evs.reverse ++ h)) :
      ∃ τ₂ w₂, Open key commitSegment (evs.reverse ++ h) w'.backend τ₂ w₂ :=
    ⟨evs :: τ₂, v, .step hr trivial hs, by rw [history_cons, hh], hb, hshown, hf⟩
  cases call with
  | previewIsNoop preview =>
    cases hs
    refine goOn ho.run ho.looks (v := w₁) ?_ ho.backend ?_ ?_
    · simp [World.step, ho.backend]
    · split <;> exact ho.shown
    · split <;> exact ho.inFlight
  | update preview reply =>
    simp only [World.step] at hs
    split at hs
    · rename_i hl
      cases hs
      refine goOn ho.run ho.looks (v := { w₁ with backend := (w.backend.update (key preview) fun _ => reply).1 })
        ?_ rfl ho.shown ho.inFlight
      simp [World.step, ho.backend, hl]
    · rename_i hl
      cases hid : w.backend.messageId with
      | some id =>
        simp only [hid] at hs
        obtain ⟨w₄, he, h1⟩ := Option.map_eq_some_iff.mp hs
        cases h1
        obtain ⟨τ₂, w₂, w₃, hr, hh, hb, he₂, hshown, hf⟩ := ho.edit hk he
        refine goOn hr hh (v := { w₃ with backend := (w.backend.update (key preview) fun _ => reply).1 })
          ?_ rfl hshown hf
        simp [World.step, hb, hl, hid, he₂]
      | none =>
        cases reply with
        | ok message =>
          simp only [hid] at hs
          cases hs
          refine goOn ho.run ho.looks (v := ⟨(w.backend.update (key preview) fun _ => .ok message).1, some preview, []⟩)
            ?_ rfl rfl rfl
          simp [World.step, ho.backend, hl, hid]
        | error error =>
          simp only [hid] at hs
          cases hs
          refine goOn ho.run ho.looks
            (v := { w₁ with backend := (w.backend.update (key preview) fun _ => .error error).1 }) ?_ rfl ho.shown ho.inFlight
          simp [World.step, ho.backend, hl, hid]
  | commitSegment payload reply =>
    obtain ⟨r, hd, hr⟩ := Option.map_eq_some_iff.mp hs
    obtain ⟨τ₂, w₂, w₃, hrun, hh, hb, hd₂, hshown, hf⟩ := ho.deliver hk rfl hd
    cases hok : (commitSegment w.backend fun _ => reply).2.isOk with
    | true =>
      simp only [hok, if_true] at hr
      cases hr
      refine goOn hrun hh (v := ⟨(commitSegment w.backend fun _ => reply).1, none, []⟩) ?_ rfl ?_ ?_
      · simp [World.step, hb, hd₂, hok]
      · simp [lastDefinite]
      · simp [unsettled]
    | false =>
      simp only [hok, Bool.false_eq_true, if_false] at hr
      cases hr
      refine goOn hrun hh (v := { w₃ with backend := (commitSegment w.backend fun _ => reply).1 }) ?_ rfl hshown hf
      simp [World.step, hb, hd₂, hok]
  | finish payload reply =>
    obtain ⟨r, hd, hr⟩ := Option.map_eq_some_iff.mp hs
    obtain ⟨τ₂, w₂, w₃, hrun, hh, hb, hd₂, hshown, hf⟩ := ho.deliver hk rfl hd
    cases hr
    refine goOn hrun hh (v := { w₃ with backend := (w.backend.finish fun _ => reply).1 }) ?_ rfl hshown hf
    simp [World.step, hb, hd₂]
  | cutUpdate preview =>
    simp only [World.step] at hs
    split at hs
    · rename_i hl
      cases hs
      refine goOn ho.run ho.looks (v := { w₁ with backend := w.backend.takeContext }) ?_ rfl ho.shown ho.inFlight
      simp [World.step, ho.backend, hl]
    · rename_i hl
      obtain ⟨w₄, he, h1⟩ := Option.map_eq_some_iff.mp hs
      cases h1
      obtain ⟨τ₂, w₂, w₃, hr, hh, hb, he₂, hshown, hf⟩ := ho.edit hk he
      refine goOn hr hh (v := { w₃ with backend := w.backend.takeContext }) ?_ rfl hshown hf
      simp [World.step, hb, hl, he₂]
  | cutDelivery payload =>
    simp only [World.step] at hs
    split at hs
    · rename_i hl
      cases hs
      refine goOn ho.run ho.looks (v := { w₁ with backend := w.backend.takeContext }) ?_ rfl ho.shown ho.inFlight
      simp [World.step, ho.backend, hl]
    · rename_i hl
      obtain ⟨w₄, he, h1⟩ := Option.map_eq_some_iff.mp hs
      cases h1
      obtain ⟨τ₂, w₂, w₃, hr, hh, hb, he₂, hshown, hf⟩ := ho.edit hk he
      refine goOn hr hh (v := { w₃ with backend := w.backend.takeContext }) ?_ rfl hshown hf
      simp [World.step, hb, hl, he₂]
  | land content =>
    simp only [World.step] at hs
    split at hs
    · cases hs
      exact ⟨τ, w₁, ho⟩
    · cases hs

theorem open_of_run {τ : List (List (Seen P))} {w : World P K}
    (hr : (machine key commitSegment).Run Core.Machine.anything τ w) :
    ∃ τ' w', Open key commitSegment (history τ) w.backend τ' w' := by
  refine hr.induct (I := fun τ w => ∃ τ' w', Open key commitSegment (history τ) w.backend τ' w') ?_ ?_
  · rintro w ⟨policy, rfl⟩
    exact ⟨[], _, .start ⟨policy, rfl⟩, rfl, rfl, rfl, rfl⟩
  · rintro τ w call w' evs hrun ⟨τ', w₁, ho⟩ _ hs
    rw [history_cons]
    exact ho.step (known_of_run hrun) hs

/-- `Certainly` is what is certain. -/
theorem certain_iff {τ : List (List (Seen P))} {w : World P K}
    (hr : (machine key commitSegment).Run Core.Machine.anything τ w) (content : P) :
    Certain key commitSegment (history τ) content ↔ Certainly content (history τ) := by
  constructor
  · intro hc
    obtain ⟨τ', w', ho⟩ := open_of_run hr
    refine ⟨ho.shown.symm.trans (hc τ' w' ho.run ho.looks), fun other hm => ?_⟩
    obtain ⟨τ₂, hr₂, hh⟩ := ho.land hm
    exact Option.some.inj (hc τ₂ _ hr₂ hh)
  · intro hc τ' w' hr' hh
    exact (hh ▸ known_of_run hr').certain hc

end

/-! ## Skipped previews -/

/-- A preview that would be skipped is the last definite content, and no edit
with another content may still be applied. -/
def careful [DecidableEq P] [DecidableEq K] (key : P → K) (s : List (List (Seen P)) × World P K) : Call P → Prop
  | .previewIsNoop preview | .update preview _ =>
    s.2.backend.last = some (key preview) → Certainly preview (history s.1)
  | _ => True

/-- What was skipped was certain. -/
def Heeded [DecidableEq P] : List (Seen P) → Prop
  | [] => True
  | .skipped preview :: h => Certainly preview h ∧ Heeded h
  | _ :: h => Heeded h

theorem Heeded.at [DecidableEq P] {h₂ h₁ : List (Seen P)} {preview : P} (h : Heeded (h₂ ++ .skipped preview :: h₁)) :
    Certainly preview h₁ := by
  induction h₂ with
  | nil => exact h.1
  | cons e h₂ ih =>
    cases e with
    | skipped _ => exact ih h.2
    | _ => exact ih h

section
variable [DecidableEq P] [DecidableEq K] {key : P → K}
  {commitSegment : EditInPlace K → Replies → EditInPlace K × Except DrafterRequestError Message}

/-- Only a preview that is remembered is skipped. -/
theorem step_heeded {w w' : World P K} {call : Call P} {evs : List (Seen P)} {τ : List (List (Seen P))}
    (hs : w.step key commitSegment call = some (w', evs)) (hc : careful key (τ, w) call)
    (hh : Heeded (history τ)) : Heeded (evs.reverse ++ history τ) := by
  have deliver {payload : P} {reply : Except DrafterRequestError Message} {r : World P K × List (Seen P)}
      (hd : w.deliver payload reply = some r) : Heeded (r.2.reverse ++ history τ) := by
    unfold World.deliver at hd
    split at hd
    · obtain ⟨w₁, -, rfl⟩ := Option.map_eq_some_iff.mp hd
      exact hh
    · cases hd
      exact hh
  cases call with
  | previewIsNoop preview =>
    cases hs
    split
    · rename_i hn
      exact ⟨hc (of_decide_eq_true hn), hh⟩
    · exact hh
  | update preview reply =>
    simp only [World.step] at hs
    split at hs
    · rename_i hn
      cases hs
      exact ⟨hc hn, hh⟩
    · split at hs
      · obtain ⟨w₁, -, h1⟩ := Option.map_eq_some_iff.mp hs
        cases h1
        exact hh
      · cases hs
        exact hh
      · cases hs
        exact hh
  | commitSegment payload reply =>
    obtain ⟨r, hd, hr⟩ := Option.map_eq_some_iff.mp hs
    have hr' := deliver hd
    split at hr
    · cases hr
      rw [List.reverse_append]
      exact hr'
    · cases hr
      exact hr'
  | finish payload reply =>
    obtain ⟨r, hd, hr⟩ := Option.map_eq_some_iff.mp hs
    cases hr
    exact deliver hd
  | cutUpdate preview | cutDelivery payload =>
    simp only [World.step] at hs
    split at hs
    · cases hs
      exact hh
    · obtain ⟨w₁, -, h1⟩ := Option.map_eq_some_iff.mp hs
      cases h1
      exact hh
  | land content =>
    simp only [World.step] at hs
    split at hs
    · cases hs
      exact hh
    · cases hs

theorem heeded_of_run {τ : List (List (Seen P))} {s : List (List (Seen P)) × World P K}
    (hr : (machine key commitSegment).remembering.Run (careful key) τ s) : Heeded (history s.1) := by
  refine hr.induct (I := fun _ s => Heeded (history s.1)) ?_ ?_
  · rintro ⟨_, w⟩ ⟨rfl, -⟩
    exact trivial
  · rintro τ ⟨g, w⟩ call ⟨g', w'⟩ evs _ hh hc hs
    obtain ⟨hstep, hg⟩ := Core.Machine.remembering_step hs
    dsimp only at hg hh ⊢
    rw [hg, history_cons]
    exact step_heeded hstep hc hh

end

/-- Every preview that is acknowledged without a request is certain to be shown. -/
def SkipsSoundly [DecidableEq P] [DecidableEq K] (key : P → K)
    (commitSegment : EditInPlace K → Replies → EditInPlace K × Except DrafterRequestError Message)
    (h : List (Seen P)) : Prop :=
  ∀ h₂ preview h₁, h = h₂ ++ .skipped preview :: h₁ → Certain key commitSegment h₁ preview

theorem skipsSoundly_of_run [DecidableEq P] [DecidableEq K] (key : P → K)
    (commitSegment : EditInPlace K → Replies → EditInPlace K × Except DrafterRequestError Message)
    {τ : List (List (Seen P))} {s : List (List (Seen P)) × World P K}
    (hr : (machine key commitSegment).remembering.Run (careful key) τ s) :
    SkipsSoundly key commitSegment (history s.1) := by
  intro h₂ preview h₁ he τ' w hw hτ
  have hh := heeded_of_run hr
  rw [he] at hh
  exact (hτ ▸ known_of_run hw).certain hh.at

section
variable [DecidableEq P] [DecidableEq K] {key : P → K}
  {commitSegment : EditInPlace K → Replies → EditInPlace K × Except DrafterRequestError Message}

instance (content : P) (h : List (Seen P)) : Decidable (Certainly content h) := inferInstanceAs (Decidable (_ ∧ _))

instance (s : List (List (Seen P)) × World P K) (call : Call P) : Decidable (careful key s call) :=
  match call with
  | .previewIsNoop _ | .update _ _ => inferInstanceAs (Decidable (_ → _))
  | .commitSegment _ _ | .finish _ _ | .cutUpdate _ | .cutDelivery _ | .land _ => inferInstanceAs (Decidable True)

theorem start_run (ok : List (List (Seen P)) × World P K → Call P → Prop) :
    (machine key commitSegment).remembering.Run ok [] ([], ⟨new, none, []⟩) :=
  .start ⟨rfl, .keepPreview, rfl⟩

theorem run_new : (machine key commitSegment).Run Core.Machine.anything [] ⟨new, none, []⟩ := .start ⟨.keepPreview, rfl⟩

/-- A preview that is remembered, but not shown, is skipped nevertheless. -/
theorem unsound_of_shown {τ : List (List (Seen P))} {w : World P K} {preview : P}
    (hr : (machine key commitSegment).Run Core.Machine.anything τ w) (hl : w.backend.last = some (key preview))
    (hs : w.shown ≠ some preview) :
    ∃ τ' w', (machine key commitSegment).Run Core.Machine.anything τ' w' ∧
      ¬ SkipsSoundly key commitSegment (history τ') := by
  have hstep : (machine key commitSegment).step w (.previewIsNoop preview) = some (w, [.skipped preview]) := by
    simp [machine, World.step, EditInPlace.backend, hl]
  exact ⟨_, w, .step hr trivial hstep, fun h => hs (h [] preview (history τ) rfl τ w hr rfl)⟩

end

/-- The preview is sent, skipped, edited, and skipped again. -/
def skippingRun : List (Call String) :=
  [.update "a" (.ok ⟨1⟩), .previewIsNoop "a", .cutUpdate "a", .update "bb" (.ok ⟨1⟩), .update "bb" (.ok ⟨1⟩),
    .commitSegment "final" (.ok ⟨1⟩), .update "a" (.ok ⟨2⟩)]

/-- "a" is sent; an edit to "bb" times out and is applied after all. -/
def staleRun : List (Call String) := [.update "a" (.ok ⟨1⟩), .update "bb" (.error .timeout), .land "bb"]

end Teloxide.Drafter.EditInPlace
