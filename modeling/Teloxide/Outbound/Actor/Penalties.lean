import Teloxide.Outbound.Actor.Permits
import Teloxide.Outbound.Scheduler.Penalty

/-!
# A completion before later work

The comment in `run` promises that a completion with a penalty, sent before a
request of the same caller, is applied before that request is considered. The
drain that is to see to it takes at most `LIFECYCLE_DRAIN_BATCH` commands.

* `penalties_first`: the promise, for the runs in which no request is taken
  while such a completion is further back in the channel.
* `penalties_late`: a run in which one is.
-/
namespace Teloxide.Outbound.Actor

open Teloxide.Core SchedulerState

/-- A completion with a penalty. -/
structure Freeze where
  job : JobId
  scope : OutboundScope
  duration : Nat
  observedAt : Nat

namespace Freeze

def outcome (p : Freeze) : OutboundCompletion := .retryAfter p.scope p.duration
def deadline (p : Freeze) : Nat := p.observedAt + p.duration
def reported (p : Freeze) : Event := .reported p.job p.outcome p.observedAt
def applied (p : Freeze) : Event := .applied p.job p.outcome p.observedAt

/-- It was reported before the request of the acquire was sent, and its penalty
covers that request. -/
structure Precedes (p : Freeze) (τ : List Event) (token : Token) (request : Request) : Prop where
  positive : p.duration ≠ 0
  covers : p.scope.covers request.metadata.scope = true
  before : ∃ later earlier, τ = later ++ .sent token request :: earlier ∧ p.reported ∈ earlier

/-- Its command is among these. -/
def Sent (p : Freeze) (commands : List OutboundCommand) : Prop :=
  ∃ c t ack, OutboundCommand.complete p.job c t p.outcome p.observedAt ack ∈ commands

end Freeze

/-- No job is granted before the penalties that were reported before its request
was sent are registered, nor before their deadlines. -/
def PenaltiesFirst (τ : List Event) : Prop :=
  ∀ later grants now earlier, τ = later ++ .admitted grants now :: earlier →
    ∀ g ∈ grants, ∀ token request, Owns earlier g.job token → ∀ p : Freeze, p.Precedes earlier token request →
      p.applied ∈ earlier ∧ p.deadline ≤ now

/-- Before a request is taken, the drain that follows will see the penalties
that go before it. -/
def completionsNear (s : List Event × Sys) (m : Action × Nat) : Prop :=
  m.1 = .accept → ∀ request token rest, s.2.ingress = ⟨request, token⟩ :: rest →
    (s.2.clients token).tokenState = .pending →
    ∀ p : Freeze, p.Precedes s.1 token request → ¬ p.Sent (s.2.lifecycle.drop LIFECYCLE_DRAIN_BATCH)

/-! ## What the handlers leave alone -/

section Handlers

variable {a : OutboundActor} {clients : Clients}

/-- How far every acquire has come. -/
def Clients.stages (clients : Clients) (t : Token) : Stage := (clients t).stage

theorem modify_stages (clients : Clients) (t : Token) {f : Client → Client} (h : ∀ c, (f c).stage = c.stage) :
    (clients.modify t f).stages = clients.stages := by
  funext u
  unfold Clients.stages
  by_cases hu : u = t
  · subst hu
    rw [Clients.modify_same, h]
  · rw [Clients.modify_other _ _ hu]

theorem store_stages (clients : Clients) (t : Token) (state : TokenState) :
    (clients.store t state).stages = clients.stages := modify_stages _ _ fun _ => rfl

theorem dropGranted_stages (clients : Clients) (t : Token) : (clients.dropGranted t).stages = clients.stages :=
  modify_stages _ _ fun _ => rfl

theorem sendResponse_stages (clients : Clients) (t : Token) (reply : Except OutboundQueueError JobId) :
    (clients.sendResponse t reply).1.stages = clients.stages := modify_stages _ _ fun _ => rfl

theorem forgetJob_stages (a : OutboundActor) (clients : Clients) (job : JobId) :
    (a.forgetJob clients job).2.stages = clients.stages := by
  funext u
  unfold Clients.stages
  rcases (a.forgetJob_forgets clients job).clients u with h | ⟨-, h⟩ <;> rw [h]

theorem forgetJob_scheduler (a : OutboundActor) (clients : Clients) (job : JobId) :
    (a.forgetJob clients job).1.scheduler = a.scheduler := (a.forgetJob_forgets clients job).scheduler

theorem forgetJob_phase (a : OutboundActor) (clients : Clients) (job : JobId) :
    (a.forgetJob clients job).1.phase = a.phase := (a.forgetJob_forgets clients job).phase

theorem tell_leaves (a : OutboundActor) (clients : Clients) (job : JobId) (result : AcquireResult) :
    (a.tell clients job result).1.scheduler = a.scheduler ∧ (a.tell clients job result).1.phase = a.phase ∧
      (a.tell clients job result).2.1.stages = clients.stages := by
  have h := a.tell_tells clients job result
  generalize a.tell clients job result = r at h
  cases h with
  | nobody => exact ⟨rfl, rfl, rfl⟩
  | sent => exact ⟨rfl, rfl, modify_stages _ _ fun _ => rfl⟩
  | lost => exact ⟨rfl, rfl, modify_stages _ _ fun _ => rfl⟩

theorem dropWaiter_leaves (a : OutboundActor) (clients : Clients) (job : JobId) :
    (a.dropWaiter clients job).1.scheduler = a.scheduler ∧ (a.dropWaiter clients job).2.stages = clients.stages := by
  unfold OutboundActor.dropWaiter
  split
  · exact ⟨rfl, rfl⟩
  · exact ⟨rfl, dropGranted_stages _ _⟩

theorem supersede_leaves (a : OutboundActor) (clients : Clients) (superseded : Option JobId) :
    (a.supersede clients superseded).1.scheduler = a.scheduler ∧
      (a.supersede clients superseded).2.1.stages = clients.stages := by
  cases superseded with
  | none => exact ⟨rfl, rfl⟩
  | some old =>
    obtain ⟨hs, -, hc⟩ := tell_leaves a clients old .superseded
    exact ⟨(forgetJob_scheduler _ _ _).trans hs, (forgetJob_stages _ _ _).trans hc⟩

/-- A handler of the lifecycle channel: no job gets new metadata, no penalty
gets shorter, no acquire moves. -/
theorem handleCommand_leaves {order : List CandidateRef} {now : Nat} {command : OutboundCommand}
    {r : OutboundActor × Clients} (h : a.handleCommand clients order now command = some r) :
    KeepsMetadata a.scheduler r.1.scheduler ∧ Harder a.scheduler r.1.scheduler ∧ r.2.stages = clients.stages := by
  have hsame : KeepsMetadata a.scheduler a.scheduler ∧ Harder a.scheduler a.scheduler := ⟨.refl _, .of_eq rfl⟩
  cases command with
  | cancel token =>
    cases h
    unfold OutboundActor.handleCancel
    split
    · exact ⟨hsame.1, hsame.2, rfl⟩
    · rename_i job _
      dsimp only
      rw [forgetJob_scheduler, forgetJob_stages]
      obtain ⟨hs, hc⟩ := dropWaiter_leaves { a with pendingTokens := a.pendingTokens.erase token } clients job
      dsimp only
      rw [hs]
      exact ⟨cancel_keepsMetadata _ _ _, .of_eq (congrArg (·.2) (cancel_accounts _ _ _)), hc⟩
  | start job c =>
    cases h
    exact ⟨start_keepsMetadata _ _ _, .of_eq (congrArg (·.2) (start_accounts _ _ _)), rfl⟩
  | complete job c token outcome observedAt ack =>
    cases h
    unfold OutboundActor.handleComplete
    rw [forgetJob_scheduler, forgetJob_stages]
    exact ⟨complete_keepsMetadata _ _ _ _ _, complete_harder _ _ _ _ _, store_stages _ _ _⟩
  | penalize scope duration =>
    simp only [OutboundActor.handleCommand] at h
    split at h
    · cases h
      exact ⟨hsame.1, hsame.2, rfl⟩
    · cases h
      exact ⟨(Stays.of_eq rfl rfl rfl rfl rfl).keepsMetadata, penalize_harder _ _ _, rfl⟩
  | setLimits limits =>
    simp only [OutboundActor.handleCommand] at h
    split at h
    · cases h
      exact ⟨(setLimits_stays _ _ _ _).keepsMetadata, .of_eq (setLimits_penalties _ _ _ _), rfl⟩
    · cases h
  | setClassLimits limits =>
    simp only [OutboundActor.handleCommand] at h
    split at h
    · cases h
      exact ⟨(setClassLimits_stays _ _ _ _).keepsMetadata, .of_eq (setClassLimits_penalties _ _ _ _), rfl⟩
    · cases h
  | getLimits | getClassLimits | setObserver | getSnapshot | shutdown =>
    cases h
    exact ⟨hsame.1, hsame.2, rfl⟩

end Handlers

/-! ## The invariant -/

/-- The commands in the lifecycle channel that are taken before the next pass; a
closing actor makes none. -/
def Phase.soon (commands : List OutboundCommand) : Phase → List OutboundCommand
  | .answering .. => commands.take LIFECYCLE_DRAIN_BATCH
  | .draining n => commands.take (LIFECYCLE_DRAIN_BATCH - n)
  | .closing => commands
  | .delivering .. | .selecting _ => []

theorem Phase.soon_append (p : Phase) {commands : List OutboundCommand} (more : List OutboundCommand)
    {c : OutboundCommand} (h : c ∈ p.soon commands) : c ∈ p.soon (commands ++ more) := by
  cases p with
  | answering | draining =>
    show c ∈ (commands ++ more).take _
    rw [List.take_append]
    exact List.mem_append.2 (Or.inl h)
  | closing => exact List.mem_append.2 (Or.inl h)
  | delivering | selecting => cases h

theorem Phase.soon_subset (p : Phase) {commands : List OutboundCommand} {c : OutboundCommand}
    (h : c ∈ p.soon commands) : c ∈ commands := by
  cases p with
  | answering | draining => exact List.mem_of_mem_take h
  | closing => exact h
  | delivering | selecting => cases h

/-- Every penalty that goes before a pending job is registered, or its command
is taken before the next pass. -/
structure Ordered (τ : List Event) (x : Sys) (a : OutboundActor) : Prop where
  sent : ∀ t r, .sent t r ∈ τ → t < x.nextToken ∧ ∀ q, x.clients.stages t ≠ .minted q
  requested : ∀ c ∈ x.ingress, ∀ r, .sent c.token r ∈ τ → r = c.request
  metadata : ∀ id job, a.scheduler.jobs.lookup id = some job →
    ∀ t r, Owns τ id t → .sent t r ∈ τ → job.metadata = r.metadata
  underway : ∀ p : Freeze, p.reported ∈ τ → p.applied ∈ τ ∨ p.Sent x.lifecycle
  ahead : ∀ id t r, a.scheduler.live id = true → Owns τ id t →
    ∀ p : Freeze, p.Precedes τ t r → p.applied ∈ τ ∨ p.Sent (a.phase.soon x.lifecycle)
  registered : ∀ p : Freeze, p.duration ≠ 0 → p.applied ∈ τ → p.deadline ≤ x.clock ∨
    ∃ D, a.scheduler.penalties.lookup (.ofScope p.scope) = some D ∧ p.deadline ≤ D

theorem Freeze.Sent.mono {p : Freeze} {commands commands' : List OutboundCommand} (h : p.Sent commands)
    (hs : ∀ c ∈ commands, c ∈ commands') : p.Sent commands' := by
  obtain ⟨c, t, ack, hm⟩ := h
  exact ⟨c, t, ack, hs _ hm⟩

theorem Freeze.Precedes.cons {p : Freeze} {τ : List Event} {e : Event} {t : Token} {r : Request}
    (h : p.Precedes (e :: τ) t r) : p.Precedes τ t r ∨ e = .sent t r ∧ p.reported ∈ τ := by
  obtain ⟨hd, hc, later, earlier, heq, hm⟩ := h
  cases later with
  | nil =>
    obtain ⟨rfl, rfl⟩ := List.cons.inj heq
    exact Or.inr ⟨rfl, hm⟩
  | cons e' later =>
    obtain ⟨-, rfl⟩ := List.cons.inj heq
    exact Or.inl ⟨hd, hc, later, earlier, rfl, hm⟩

theorem Freeze.Precedes.sent {p : Freeze} {τ : List Event} {t : Token} {r : Request} (h : p.Precedes τ t r) :
    .sent t r ∈ τ ∧ p.reported ∈ τ := by
  obtain ⟨-, -, later, earlier, rfl, hm⟩ := h
  exact ⟨by simp, by simp [hm]⟩

/-! ## The callers -/

section Calls

variable {τ : List Event} {x x' : Sys} {a : OutboundActor} {e : Event}

/-- A caller that sends no request. -/
theorem Ordered.frame {l : List OutboundCommand} (h : Ordered τ x a) (he : e.outside)
    (hs : ∀ t r, e ≠ .sent t r) (happlied : ∀ p : Freeze, e ≠ p.applied) (hn : x.nextToken ≤ x'.nextToken)
    (hst : ∀ t q, t < x.nextToken → x'.clients.stages t = .minted q → x.clients.stages t = .minted q)
    (hi : x'.ingress = x.ingress) (hl : x'.lifecycle = x.lifecycle ++ l)
    (hrep : ∀ p : Freeze, e = p.reported → p.Sent l) (hc : x'.clock = x.clock) : Ordered (e :: τ) x' a := by
  have hsent {t : Token} {r : Request} (hm : .sent t r ∈ e :: τ) : .sent t r ∈ τ :=
    (List.mem_cons.1 hm).resolve_left fun heq => hs t r heq.symm
  have hpast {p : Freeze} (hm : p.applied ∈ e :: τ) : p.applied ∈ τ :=
    (List.mem_cons.1 hm).resolve_left fun heq => happlied p heq.symm
  refine ⟨fun t r hm => ?_, fun c hc' r hm => ?_, fun id job hl' t r ho hm => ?_, fun p hm => ?_,
    fun id t r hlive ho p hp => ?_, fun p hd hm => ?_⟩
  · obtain ⟨hlt, hq⟩ := h.sent t r (hsent hm)
    exact ⟨Nat.lt_of_lt_of_le hlt hn, fun q hq' => hq q (hst t q hlt hq')⟩
  · rw [hi] at hc'
    exact h.requested c hc' r (hsent hm)
  · exact h.metadata id job hl' t r ((owns_outside he _ _).1 ho) (hsent hm)
  · rw [hl]
    rcases List.mem_cons.1 hm with heq | hm
    · exact Or.inr ((hrep p heq.symm).mono fun c hc' => List.mem_append.2 (Or.inr hc'))
    · exact (h.underway p hm).imp (List.mem_cons_of_mem _) fun hp => hp.mono fun c hc' => List.mem_append.2 (Or.inl hc')
  · rw [hl]
    rcases hp.cons with hp | ⟨heq, -⟩
    · refine (h.ahead id t r hlive ((owns_outside he _ _).1 ho) p hp).imp (List.mem_cons_of_mem _) fun hp => ?_
      exact hp.mono fun c hc' => a.phase.soon_append l hc'
    · exact absurd heq (hs t r)
  · rw [hc]
    exact h.registered p hd (hpast hm)

theorem Ordered.sends {t : Token} {request : Request} (h : Ordered τ x a) (hinv : Inv τ x a)
    (hs : (x.clients t).stage = .minted request) : Ordered (.sent t request :: τ) { x with
      ingress := x.ingress ++ [⟨request, t⟩]
      clients := x.clients.setStage t (.enqueuing true) } a := by
  have he : (Event.sent t request).outside := ⟨(fun _ _ _ h => by cases h), (fun _ _ h => by cases h)⟩
  have hborn : t < x.nextToken := by
    refine Nat.lt_of_not_le fun hle => ?_
    rw [hinv.tokens.unborn t hle] at hs
    cases hs
  have hfirst {r : Request} (hm : .sent t r ∈ τ) : False := (h.sent t r hm).2 request hs
  have hunowned {id : JobId} (ho : Owns τ id t) : False := (hinv.tokens.owned id t ho).1.2.2 request hs
  have hstage {u : Token} (hu : u ≠ t) : (x.clients.setStage t (.enqueuing true)).stages u = x.clients.stages u :=
    congrArg Client.stage (Clients.modify_other _ _ hu)
  have hpast {p : Freeze} (hm : p.applied ∈ .sent t request :: τ) : p.applied ∈ τ :=
    (List.mem_cons.1 hm).resolve_left (fun h => by cases h)
  refine ⟨fun u r hm => ?_, fun c hc r hm => ?_, fun id job hl u r ho hm => ?_, fun p hm => ?_,
    fun id u r hlive ho p hp => ?_, fun p hd hm => h.registered p hd (hpast hm)⟩
  · by_cases hu : u = t
    · subst hu
      refine ⟨hborn, fun q hq => ?_⟩
      have hself : (x.clients.setStage u (.enqueuing true)).stages u = .enqueuing true := by
        rw [Clients.setStage, Clients.stages, Clients.modify_same]
      rw [hself] at hq
      cases hq
    · have hm' : .sent u r ∈ τ := (List.mem_cons.1 hm).resolve_left fun heq => by
        cases heq
        exact hu rfl
      refine ⟨(h.sent u r hm').1, fun q hq => (h.sent u r hm').2 q ?_⟩
      rwa [hstage hu] at hq
  · rcases List.mem_append.1 hc with hold | hnew
    · rcases List.mem_cons.1 hm with heq | hm
      · cases heq
        have hq := (hinv.tokens.queued c hold).2.2
        rw [hs] at hq
        rcases hq with ⟨-, hq⟩ | ⟨-, hq⟩ <;> cases hq
      · exact h.requested c hold r hm
    · cases List.mem_singleton.1 hnew
      rcases List.mem_cons.1 hm with heq | hm
      · cases heq
        rfl
      · exact (hfirst hm).elim
  · have ho' := (owns_outside he _ _).1 ho
    rcases List.mem_cons.1 hm with heq | hm
    · cases heq
      exact (hunowned ho').elim
    · exact h.metadata id job hl u r ho' hm
  · exact (h.underway p ((List.mem_cons.1 hm).resolve_left (fun h => by cases h))).imp_left (List.mem_cons_of_mem _)
  · have ho' := (owns_outside he _ _).1 ho
    rcases hp.cons with hp | ⟨heq, -⟩
    · exact (h.ahead id u r hlive ho' p hp).imp_left (List.mem_cons_of_mem _)
    · cases heq
      exact (hunowned ho').elim

theorem Ordered.calls (h : Ordered τ x a) (hinv : Inv τ x a) (hc : x.Calls a x' e) : Ordered (e :: τ) x' a := by
  have hquiet : Event.quiet.outside := ⟨nofun, nofun⟩
  have hmodify {t : Token} {c : Client} (hstage : ∀ q, c.stage ≠ .minted q) (u : Token) (q : Request)
      (hu : (x.clients.modify t fun _ => c).stages u = .minted q) : x.clients.stages u = .minted q := by
    by_cases hut : u = t
    · subst hut
      rw [Clients.stages, Clients.modify_same] at hu
      exact absurd hu (hstage q)
    · rwa [Clients.stages, Clients.modify_other _ _ hut] at hu
  cases hc with
  | @mints request =>
    refine h.frame (l := []) hquiet nofun nofun (Nat.le_succ _) (fun t q ht hq => ?_) rfl
      (List.append_nil _).symm nofun rfl
    have hother : x.clients.setStage x.nextToken (.minted request) t = x.clients t :=
      Clients.modify_other _ _ (Nat.ne_of_lt ht)
    replace hq : (x.clients.setStage x.nextToken (.minted request) t).stage = .minted q := hq
    rwa [hother] at hq
  | sends hs => exact h.sends hinv hs
  | @overflows t request c hs hcs =>
    refine h.frame (l := []) hquiet nofun nofun (Nat.le_refl _) (fun u q _ hq => ?_) rfl rfl nofun rfl
    exact hmodify (by rw [hcs]; nofun) u q hq
  | @moves t c commands handles futures _ hm hshows =>
    refine h.frame (l := commands) hshows.outside ?_ ?_ (Nat.le_refl _)
      (fun u q _ hq => hmodify hm.notMinted.2 u q hq) rfl rfl (fun p hp => ?_) rfl
    · rcases hshows with rfl | ⟨_, _, _, _, _, _, rfl, -⟩ <;> nofun
    · rcases hshows with rfl | ⟨_, _, _, _, _, _, rfl, -⟩ <;> nofun
    · rcases hshows with rfl | ⟨job, c', t', outcome, observedAt, ack, rfl, rfl⟩
      · cases hp
      · cases hp
        exact ⟨c', t', ack, List.mem_singleton.2 rfl⟩
  | commands =>
    exact h.frame hquiet nofun nofun (Nat.le_refl _) (fun _ _ _ hq => hq) rfl rfl nofun rfl

end Calls

/-! ## The actor -/

section Acts

variable {τ : List Event} {x x' : Sys} {a a' : OutboundActor} {e : Event}

/-- A step of the actor that takes no request. -/
theorem Ordered.handled (h : Ordered τ x a) (haccepted : ∀ job t r, e ≠ .accepted job t r) (hs : ∀ t r, e ≠ .sent t r)
    (hrep : ∀ p : Freeze, e ≠ p.reported) (hn : x'.nextToken = x.nextToken)
    (hst : x'.clients.stages = x.clients.stages) (hi : ∀ c ∈ x'.ingress, c ∈ x.ingress)
    (hk : KeepsMetadata a.scheduler a'.scheduler)
    (hl : ∀ p : Freeze, p.Sent x.lifecycle → p.applied ∈ e :: τ ∨ p.Sent x'.lifecycle)
    (hb : ∀ p : Freeze, p.Sent (a.phase.soon x.lifecycle) →
      p.applied ∈ e :: τ ∨ p.Sent (a'.phase.soon x'.lifecycle))
    (hr : ∀ p : Freeze, p.duration ≠ 0 → p.applied ∈ e :: τ → p.deadline ≤ x'.clock ∨
      ∃ D, a'.scheduler.penalties.lookup (.ofScope p.scope) = some D ∧ p.deadline ≤ D) : Ordered (e :: τ) x' a' := by
  have hsent {t : Token} {r : Request} (hm : .sent t r ∈ e :: τ) : .sent t r ∈ τ :=
    (List.mem_cons.1 hm).resolve_left fun heq => hs t r heq.symm
  have howns (id : JobId) (t : Token) := owns_cons (τ := τ) haccepted id t
  refine ⟨fun t r hm => ?_, fun c hc r hm => h.requested c (hi c hc) r (hsent hm), fun id job' hl' t r ho hm => ?_,
    fun p hm => ?_, fun id t r hlive ho p hp => ?_, hr⟩
  · rw [hn, hst]
    exact h.sent t r (hsent hm)
  · obtain ⟨job, hj, hmeta⟩ := hk id job' hl'
    exact hmeta.trans (h.metadata id job hj t r ((howns id t).1 ho) (hsent hm))
  · rcases h.underway p ((List.mem_cons.1 hm).resolve_left fun heq => hrep p heq.symm) with hp | hp
    · exact Or.inl (List.mem_cons_of_mem _ hp)
    · exact hl p hp
  · obtain ⟨job', hj'⟩ := live_iff.1 hlive
    obtain ⟨job, hj, -⟩ := hk id job' hj'
    rcases hp.cons with hp | ⟨heq, -⟩
    · rcases h.ahead id t r (live_of hj) ((howns id t).1 ho) p hp with hp | hp
      · exact Or.inl (List.mem_cons_of_mem _ hp)
      · exact hb p hp
    · exact absurd heq (hs t r)

/-- A step that leaves the lifecycle channel and the penalties alone. -/
theorem Ordered.aside (h : Ordered τ x a) (haccepted : ∀ job t r, e ≠ .accepted job t r) (hs : ∀ t r, e ≠ .sent t r)
    (hrep : ∀ p : Freeze, e ≠ p.reported) (happlied : ∀ p : Freeze, e ≠ p.applied) (hn : x'.nextToken = x.nextToken)
    (hclock : x'.clock = x.clock) (hst : x'.clients.stages = x.clients.stages) (hi : ∀ c ∈ x'.ingress, c ∈ x.ingress)
    (hk : KeepsMetadata a.scheduler a'.scheduler) (hp : a'.scheduler.penalties = a.scheduler.penalties)
    {l : List OutboundCommand} (hl : x'.lifecycle = x.lifecycle ++ l)
    (hb : ∀ c ∈ a.phase.soon x.lifecycle, c ∈ a'.phase.soon x.lifecycle) : Ordered (e :: τ) x' a' := by
  refine h.handled haccepted hs hrep hn hst hi hk (fun p hsent => Or.inr ?_) (fun p hsent => Or.inr ?_)
    fun p hd hm => ?_
  · rw [hl]
    exact hsent.mono fun c hc => List.mem_append.2 (Or.inl hc)
  · rw [hl]
    exact hsent.mono fun c hc => a'.phase.soon_append l (hb c hc)
  · rw [hp, hclock]
    exact h.registered p hd ((List.mem_cons.1 hm).resolve_left fun heq => happlied p heq.symm)

theorem Balanced.inFlight {job : JobId} {c : Option OutboundCorrelationId} {t : Token}
    {outcome : OutboundCompletion} {observedAt : Nat} {ack : Bool} (h : Balanced τ x a)
    (hm : .complete job c t outcome observedAt ack ∈ x.lifecycle) : a.scheduler.inFlight.contains job = true := by
  have hpos : 0 < x.completions job := List.countP_pos_iff.2 ⟨_, hm, beq_self_eq_true job⟩
  have hbalance := h.balance job
  split at hbalance
  · assumption
  · omega

theorem handled_applied {command : OutboundCommand} {p : Freeze} (h : command.handled = p.applied) :
    ∃ c t ack, command = .complete p.job c t p.outcome p.observedAt ack := by
  cases command with
  | complete job c t outcome observedAt ack =>
    cases h
    exact ⟨c, t, ack, rfl⟩
  | _ => cases h

theorem Ordered.receives {order : List CandidateRef} (h : Ordered τ x a) (hinv : Inv τ x a)
    (hr : x.receive a order x.clock = some (x', e)) (ha' : x'.actor = some a') : Ordered (e :: τ) x' a' := by
  unfold Sys.receive at hr
  split at hr
  · rename_i hphase
    split at hr
    · cases hr
    · rename_i rest hl
      cases hr
      cases ha'
      have hrest {p : Freeze} {commands : List OutboundCommand} (hsub : ∀ c ∈ commands, c ∈ x.lifecycle)
          (hp : p.Sent commands) : p.Sent rest := by
        obtain ⟨c, t, ack, hm⟩ := hp
        have hm' := hsub _ hm
        rw [hl] at hm'
        exact ⟨c, t, ack, (List.mem_cons.1 hm').resolve_left nofun⟩
      refine h.handled nofun nofun nofun rfl rfl (fun _ hc => hc) (.refl _) (fun p hp => Or.inr ?_)
        (fun p hp => Or.inr ?_) fun p hd hm => h.registered p hd ((List.mem_cons.1 hm).resolve_left nofun)
      · exact hrest (fun _ hc => hc) hp
      · exact hrest (fun _ hc => a.phase.soon_subset hc) hp
    · rename_i command rest _ hl
      obtain ⟨r, hcommand, heq⟩ := Option.map_eq_some_iff.1 hr
      cases heq
      cases ha'
      obtain ⟨hkeeps, hharder, hstages⟩ := handleCommand_leaves hcommand
      have hhead {p : Freeze} {n : Nat} (hp : p.Sent ((command :: rest).take (n + 1))) :
          p.applied ∈ command.handled :: τ ∨ p.Sent (rest.take n) := by
        obtain ⟨c, t, ack, hm⟩ := hp
        rw [List.take_succ_cons] at hm
        rcases List.mem_cons.1 hm with rfl | hm
        · exact Or.inl List.mem_cons_self
        · exact Or.inr ⟨c, t, ack, hm⟩
      refine h.handled (by cases command <;> nofun) (by cases command <;> nofun) (by cases command <;> nofun)
        rfl hstages (fun _ hc => hc) hkeeps (fun p hp => ?_) (fun p hp => ?_) fun p hd hm => ?_
      · rw [hl, ← List.take_length (l := command :: rest)] at hp
        have hrest := hhead hp
        rwa [List.take_length] at hrest
      · cases ha : a.phase with
        | draining n =>
          rw [ha] at hphase hp
          have hn : n < LIFECYCLE_DRAIN_BATCH := of_decide_eq_true hphase
          have hsub : LIFECYCLE_DRAIN_BATCH - n = LIFECYCLE_DRAIN_BATCH - (n + 1) + 1 := by omega
          replace hp : p.Sent (x.lifecycle.take (LIFECYCLE_DRAIN_BATCH - n)) := hp
          rw [hl, hsub] at hp
          exact hhead hp
        | selecting =>
          rw [ha] at hp
          obtain ⟨_, _, _, hm⟩ := hp
          cases hm
        | delivering | answering | closing =>
          rw [ha] at hphase
          cases hphase
      · have hlate (hm : p.applied ∈ τ) : p.deadline ≤ x.clock ∨
            ∃ D, r.1.scheduler.penalties.lookup (.ofScope p.scope) = some D ∧ p.deadline ≤ D := by
          refine (h.registered p hd hm).imp_right fun ⟨D, hD, hle⟩ => ?_
          obtain ⟨D', hD', hle'⟩ := hharder _ D hD
          exact ⟨D', hD', Nat.le_trans hle hle'⟩
        rcases List.mem_cons.1 hm with heq | hm
        · obtain ⟨c, t, ack, rfl⟩ := handled_applied heq.symm
          have hin := hinv.balanced.inFlight (hl ▸ List.mem_cons_self)
          cases hcommand
          refine Or.inr ?_
          show ∃ D, (a.handleComplete x.clients p.job t p.outcome p.observedAt x.clock).1.scheduler.penalties.lookup _ =
            some D ∧ _
          rw [OutboundActor.handleComplete, forgetJob_scheduler]
          exact complete_registers hin p.scope hd x.clock p.observedAt
        · exact hlate hm
  · cases hr

/-- When a pass begins, no command is left that goes before a pending job. -/
theorem soon_of_admits {n : Nat} (h : ¬ (n < LIFECYCLE_DRAIN_BATCH ∧ x.lifecycle ≠ [])) :
    (Phase.draining n).soon x.lifecycle = [] := by
  by_cases hn : n < LIFECYCLE_DRAIN_BATCH
  · have hl : x.lifecycle = [] := Classical.byContradiction fun hl => h ⟨hn, hl⟩
    rw [hl]
    exact List.take_nil
  · have hsub : LIFECYCLE_DRAIN_BATCH - n = 0 := by omega
    show x.lifecycle.take (LIFECYCLE_DRAIN_BATCH - n) = []
    rw [hsub]
    exact List.take_zero

theorem Freeze.not_sent_nil {p : Freeze} : ¬ p.Sent [] := by
  rintro ⟨_, _, _, hm⟩
  cases hm

theorem Ordered.admits {order : List WindowRef} {fuel : Nat} (h : Ordered τ x a)
    (hr : x.runAdmission a order fuel x.clock = some (x', e)) (ha' : x'.actor = some a') : Ordered (e :: τ) x' a' ∧
      ∃ grants, e = .admitted grants x.clock ∧ ∀ g ∈ grants, ∀ token request, Owns τ g.job token →
        ∀ p : Freeze, p.Precedes τ token request → p.applied ∈ τ ∧ p.deadline ≤ x.clock := by
  unfold Sys.runAdmission at hr
  split at hr
  · rename_i n hphase
    split at hr
    · cases hr
    · rename_i hdrained
      obtain ⟨⟨s, gs⟩, hpass, heq⟩ := Option.map_eq_some_iff.1 hr
      cases heq
      cases ha'
      have hsoon : a.phase.soon x.lifecycle = [] := by
        rw [hphase]
        exact soon_of_admits hdrained
      refine ⟨?_, gs, rfl, fun g hg token request ho p hp => ?_⟩
      · refine h.handled nofun nofun nofun rfl rfl (fun _ hc => hc) (grantReady_keepsMetadata hpass)
          (fun p hp => Or.inr hp) (fun p hp => ?_) fun p hd hm => ?_
        · rw [hsoon] at hp
          exact absurd hp Freeze.not_sent_nil
        · rcases h.registered p hd ((List.mem_cons.1 hm).resolve_left nofun) with hle | ⟨D, hD, hle⟩
          · exact Or.inl hle
          · by_cases hlate : x.clock < D
            · refine Or.inr ⟨D, ?_, hle⟩
              show s.penalties.lookup _ = _
              rw [grantReady_penalties hpass, hD, Option.filter_some, if_pos (by simpa using hlate)]
            · exact Or.inl (Nat.le_trans hle (Nat.le_of_not_lt hlate))
      · obtain ⟨job, hj, hfree⟩ := grantReady_unpenalised hpass hg
        have happlied : p.applied ∈ τ := by
          refine (h.ahead g.job token request (live_of hj) ho p hp).resolve_right fun hsent => ?_
          rw [hsoon] at hsent
          exact Freeze.not_sent_nil hsent
        refine ⟨happlied, ?_⟩
        rcases h.registered p hp.positive happlied with hle | ⟨D, hD, hle⟩
        · exact hle
        · have hmeta := h.metadata g.job job hj token request ho hp.sent.1
          exact Nat.le_trans hle (hfree p.scope D (hmeta ▸ hp.covers) hD)
  · cases hr

theorem Ordered.delivers (h : Ordered τ x a) (hr : x.deliver a x.clock = some (x', e)) (ha' : x'.actor = some a') :
    Ordered (e :: τ) x' a' := by
  unfold Sys.deliver at hr
  split at hr
  · rename_i grant grants t hphase
    have hnone {c : OutboundCommand} {p : Prop} (hc : c ∈ a.phase.soon x.lifecycle) : p := by
      rw [hphase] at hc
      cases hc
    dsimp only at hr
    split at hr
    · cases hr
      cases ha'
      exact h.aside (l := []) nofun nofun nofun nofun rfl rfl rfl (fun _ hc => hc) (.refl _) rfl
        (List.append_nil _).symm fun _ hc => hnone hc
    · rename_i token _
      split at hr
      · cases hr
        cases ha'
        exact h.aside (l := []) nofun nofun nofun nofun rfl rfl rfl (fun _ hc => hc) (.refl _) rfl
          (List.append_nil _).symm fun _ hc => hnone hc
      · have htell := tell_leaves { a with phase := .delivering grants t } x.clients grant.job
          (.granted ⟨grant.job, token, grant.correlationId, false⟩)
        generalize OutboundActor.tell { a with phase := .delivering grants t } x.clients grant.job
          (.granted ⟨grant.job, token, grant.correlationId, false⟩) = r at hr htell
        obtain ⟨hs, -, hc⟩ := htell
        have hkeeps : KeepsMetadata a.scheduler r.1.scheduler := hs ▸ .refl _
        have hpen : r.1.scheduler.penalties = a.scheduler.penalties := by rw [hs]
        split at hr
        · cases hr
          cases ha'
          exact h.aside (l := []) nofun nofun nofun nofun rfl rfl hc (fun _ hc => hc) hkeeps hpen
            (List.append_nil _).symm fun _ hc => hnone hc
        · cases hr
          cases ha'
          exact h.aside (l := [_]) nofun nofun nofun nofun rfl rfl hc (fun _ hc => hc) hkeeps hpen rfl
            fun _ hc => hnone hc
  · cases hr

theorem Ordered.closes {job : JobId} (h : Ordered τ x a) (hr : x.closeWaiter a job = some (x', e))
    (ha' : x'.actor = some a') : Ordered (e :: τ) x' a' := by
  unfold Sys.closeWaiter at hr
  split at hr
  · cases hr
  · obtain ⟨hs, hph, hc⟩ := tell_leaves a x.clients job .closed
    generalize a.tell x.clients job .closed = r at hr hs hph hc
    cases hr
    cases ha'
    have hkeeps : KeepsMetadata a.scheduler r.1.scheduler := hs ▸ .refl _
    refine h.aside (l := []) ?_ ?_ ?_ ?_ rfl rfl hc (fun _ hc => hc) hkeeps (by rw [hs])
      (List.append_nil _).symm fun c hc => ?_
    · cases r.2.2 <;> nofun
    · cases r.2.2 <;> nofun
    · cases r.2.2 <;> nofun
    · cases r.2.2 <;> nofun
    · rw [hph]
      exact hc

theorem Ordered.answers (h : Ordered τ x a) (hr : x.answer a x.clock = some x') (ha' : x'.actor = some a') :
    Ordered (.quiet :: τ) x' a' := by
  unfold Sys.answer at hr
  split at hr
  · rename_i token job hphase
    have hsoon {c : OutboundCommand} (hc : c ∈ a.phase.soon x.lifecycle) :
        c ∈ (Phase.draining 0).soon x.lifecycle := by
      rw [hphase] at hc
      exact hc
    have hreply := sendResponse_stages x.clients token (.ok job)
    dsimp only at hr
    split at hr
    · cases hr
      cases ha'
      exact h.aside (l := []) nofun nofun nofun nofun rfl rfl hreply (fun _ hc => hc) (.refl _) rfl
        (List.append_nil _).symm fun _ hc => hsoon hc
    · cases hr
      cases ha'
      refine h.aside (l := []) nofun nofun nofun nofun rfl rfl ?_ (fun _ hc => hc) ?_ ?_
        (List.append_nil _).symm fun _ hc => hsoon hc
      · exact (dropGranted_stages _ _).trans ((forgetJob_stages _ _ _).trans hreply)
      · dsimp only
        rw [forgetJob_scheduler]
        exact cancel_keepsMetadata _ _ _
      · dsimp only
        rw [forgetJob_scheduler]
        exact congrArg (·.2) (cancel_accounts _ _ _)
  · rename_i token error hphase
    cases hr
    cases ha'
    refine h.aside (l := []) nofun nofun nofun nofun rfl rfl ?_ (fun _ hc => hc) (.refl _) rfl
      (List.append_nil _).symm fun c hc => ?_
    · exact (dropGranted_stages _ _).trans ((sendResponse_stages _ _ _).trans (store_stages _ _ _))
    · rw [hphase] at hc
      exact hc
  · cases hr

/-- A request that is taken becomes a job, with the penalties that go before it
near the front of the channel. -/
theorem Ordered.enters {request : Request} {token : Token} {rest : List EnqueueCommand} {s : SchedulerState}
    {outcome : EnqueueOutcome} {r : Option JobId} (h : Ordered τ x a) (hinv : Inv τ x a)
    (hi : x.ingress = ⟨request, token⟩ :: rest)
    (hs : a.scheduler.enqueue request.metadata (a.enqueueOptions request x.clock) = (s, .ok outcome))
    (hid : outcome.job + 1 < u64Size)
    (hnear : ∀ p : Freeze, p.Precedes τ token request → ¬ p.Sent (x.lifecycle.drop LIFECYCLE_DRAIN_BATCH))
    (hn : x'.nextToken = x.nextToken) (hclock : x'.clock = x.clock) (hl : x'.lifecycle = x.lifecycle)
    (hst : x'.clients.stages = x.clients.stages) (hi' : x'.ingress = rest) (ha : a'.scheduler = s)
    (hph : ∃ reply, a'.phase = .answering token reply) (hidle : a.phase.soon x.lifecycle = []) :
    Ordered (.accepted outcome.job token r :: τ) x' a' := by
  obtain ⟨hnew, -, -, hlive, -⟩ := enqueue_ids hs hid
  have hsent {t : Token} {r' : Request} (hm : .sent t r' ∈ Event.accepted outcome.job token r :: τ) : .sent t r' ∈ τ :=
    (List.mem_cons.1 hm).resolve_left nofun
  have howns {id : JobId} {t : Token} (ho : Owns (.accepted outcome.job token r :: τ) id t) :
      id = outcome.job ∧ t = token ∨ Owns τ id t := by
    obtain ⟨r', hm⟩ := ho
    rcases List.mem_cons.1 hm with heq | hm
    · cases heq
      exact Or.inl ⟨rfl, rfl⟩
    · exact Or.inr ⟨r', hm⟩
  have hfresh {t : Token} (ho : Owns τ outcome.job t) : False := by
    have hlt := (hinv.tokens.owned outcome.job t ho).2
    rw [hnew] at hlt
    exact Nat.lt_irrefl _ hlt
  have hrequest {r' : Request} (hm : .sent token r' ∈ τ) : r' = request :=
    h.requested ⟨request, token⟩ (hi ▸ List.mem_cons_self) r' hm
  obtain ⟨reply, hreply⟩ := hph
  refine ⟨fun t r' hm => ?_, fun c hc r' hm => ?_, fun id job' hj' t r' ho hm => ?_, fun p hm => ?_,
    fun id t r' hid' ho p hp => ?_, fun p hd hm => ?_⟩
  · rw [hn, hst]
    exact h.sent t r' (hsent hm)
  · rw [hi'] at hc
    exact h.requested c (hi ▸ List.mem_cons_of_mem _ hc) r' (hsent hm)
  · rw [ha] at hj'
    rcases enqueue_metadata hs hid hj' with ⟨rfl, hmeta⟩ | ⟨job, hj, hmeta⟩
    · rcases howns ho with ⟨-, rfl⟩ | ho
      · rw [hmeta, hrequest (hsent hm)]
      · exact (hfresh ho).elim
    · rcases howns ho with ⟨rfl, -⟩ | ho
      · have hgone := (hinv.clocked.books.fresh (Nat.le_of_eq hnew.symm)).1
        rw [live_of hj] at hgone
        cases hgone
      · exact hmeta.trans (h.metadata id job hj t r' ho (hsent hm))
  · rw [hl]
    exact (h.underway p ((List.mem_cons.1 hm).resolve_left nofun)).imp_left (List.mem_cons_of_mem _)
  · rw [hreply, hl]
    have hp' := hp.cons.resolve_right fun heq => nomatch heq.1
    rcases howns ho with ⟨-, rfl⟩ | ho'
    · cases hrequest hp'.sent.1
      refine (h.underway p hp'.sent.2).imp (List.mem_cons_of_mem _) fun hsent => ?_
      obtain ⟨c, u, ack, hm⟩ := hsent
      rw [← List.take_append_drop LIFECYCLE_DRAIN_BATCH x.lifecycle] at hm
      rcases List.mem_append.1 hm with hm | hm
      · exact ⟨c, u, ack, hm⟩
      · exact absurd ⟨c, u, ack, hm⟩ (hnear p hp')
    · have hold : a.scheduler.live id = true := by
        rw [ha] at hid'
        rcases (hlive id).1 hid' with rfl | ⟨-, hold⟩
        · exact (hfresh ho').elim
        · exact hold
      refine (h.ahead id t r' hold ho' p hp').imp (List.mem_cons_of_mem _) fun hsent => ?_
      rw [hidle] at hsent
      exact absurd hsent Freeze.not_sent_nil
  · rw [hclock, ha]
    have hpen := congrArg (·.2) (a.scheduler.enqueue_accounts request.metadata (a.enqueueOptions request x.clock))
    rw [hs] at hpen
    replace hpen : s.penalties = a.scheduler.penalties := hpen
    rw [hpen]
    exact h.registered p hd ((List.mem_cons.1 hm).resolve_left nofun)

theorem Ordered.accepts (h : Ordered τ x a) (hinv : Inv τ x a) (hnear : completionsNear (τ, x) (.accept, x.clock))
    (hr : x.accept a x.clock = some (x', e)) (ha' : x'.actor = some a') : Ordered (e :: τ) x' a' := by
  unfold Sys.accept at hr
  split at hr
  · rename_i timer request token rest hphase hi
    have hidle : a.phase.soon x.lifecycle = [] := by rw [hphase]; rfl
    have hnone {c : OutboundCommand} {p : Prop} (hc : c ∈ a.phase.soon x.lifecycle) : p := by
      rw [hidle] at hc
      cases hc
    have hrest : ∀ c ∈ rest, c ∈ x.ingress := fun c hc => hi ▸ List.mem_cons_of_mem _ hc
    dsimp only at hr
    split at hr
    · cases hr
      cases ha'
      refine h.aside (l := []) nofun nofun nofun nofun rfl rfl ?_ hrest (.refl _) rfl
        (List.append_nil _).symm fun _ hc => hnone hc
      exact (dropGranted_stages _ _).trans ((sendResponse_stages _ _ _).trans (store_stages _ _ _))
    · rename_i hpending
      have hstore := store_stages x.clients token .accepted
      split at hr
      · rename_i s outcome hs
        split at hr
        · rename_i hid
          cases hr
          cases ha'
          obtain ⟨hsame, hc⟩ := supersede_leaves { a with scheduler := s } (x.clients.store token .accepted)
            outcome.superseded
          refine h.enters hinv hi hs hid (fun p hp => ?_) rfl rfl rfl (hc.trans hstore) rfl hsame ⟨_, rfl⟩ hidle
          exact hnear rfl request token rest hi (Classical.not_not.1 hpending) p hp
        · cases hr
      · rename_i s error hs
        cases hr
        cases ha'
        have hpen := congrArg (·.2) (a.scheduler.enqueue_accounts request.metadata (a.enqueueOptions request x.clock))
        rw [hs] at hpen
        exact h.aside (l := []) nofun nofun nofun nofun rfl rfl hstore hrest
          (enqueue_error_stays hs).keepsMetadata hpen (List.append_nil _).symm fun _ hc => hnone hc
  · cases hr

/-- The steps of the actor; a pass grants no job too early. -/
theorem Ordered.acts {action : Action} (h : Ordered τ x a) (hinv : Inv τ x a)
    (hnear : completionsNear (τ, x) (action, x.clock)) (hr : x.act a x.clock action = some (x', e))
    (ha' : x'.actor = some a') : Ordered (e :: τ) x' a' ∧ ∀ grants now, e = .admitted grants now →
      ∀ g ∈ grants, ∀ token request, Owns τ g.job token →
        ∀ p : Freeze, p.Precedes τ token request → p.applied ∈ τ ∧ p.deadline ≤ now := by
  have hquiet {o : Option Sys} (ho : o.map (·, Event.quiet) = some (x', e))
      (hk : o = some x' → Ordered (.quiet :: τ) x' a') : Ordered (e :: τ) x' a' ∧ ∀ grants now, e = .admitted grants now →
      ∀ g ∈ grants, ∀ token request, Owns τ g.job token →
        ∀ p : Freeze, p.Precedes τ token request → p.applied ∈ τ ∧ p.deadline ≤ now := by
    obtain ⟨y, hy, heq⟩ := Option.map_eq_some_iff.1 ho
    cases heq
    exact ⟨hk hy, nofun⟩
  cases action with
  | receive order =>
    refine ⟨h.receives hinv hr ha', fun grants now heq => ?_⟩
    obtain rfl := heq
    simp only [Sys.act, Sys.receive] at hr
    split at hr
    · split at hr
      · cases hr
      · cases hr
      · rename_i command rest _ _
        obtain ⟨_, -, heq⟩ := Option.map_eq_some_iff.1 hr
        have hhandled : command.handled = .admitted grants now := congrArg (·.2) heq
        cases command <;> cases hhandled
    · cases hr
  | accept =>
    refine ⟨h.accepts hinv hnear hr ha', fun grants now heq => ?_⟩
    obtain rfl := heq
    simp only [Sys.act, Sys.accept] at hr
    split at hr
    · split at hr
      · cases hr
      · split at hr
        · split at hr <;> cases hr
        · cases hr
    · cases hr
  | answer => exact hquiet hr fun hy => h.answers hy ha'
  | runAdmission order fuel =>
    obtain ⟨hordered, grants, rfl, hgrants⟩ := h.admits hr ha'
    refine ⟨hordered, fun grants' now heq => ?_⟩
    cases heq
    exact hgrants
  | deliver =>
    refine ⟨h.delivers hr ha', fun grants now heq => ?_⟩
    obtain rfl := heq
    simp only [Sys.act, Sys.deliver] at hr
    split at hr
    · split at hr
      · cases hr
      · split at hr
        · cases hr
        · split at hr <;> cases hr
    · cases hr
  | park =>
    refine hquiet hr fun hy => ?_
    unfold Sys.park at hy
    split at hy
    · rename_i t hphase
      cases hy
      cases ha'
      refine h.aside (l := []) nofun nofun nofun nofun rfl rfl rfl (fun _ hc => hc)
        (Stays.of_moves (nextDeadline_quiet _ t).toMoves).keepsMetadata (nextDeadline_quiet _ t).penalties
        (List.append_nil _).symm fun c hc => ?_
      rw [hphase] at hc
      cases hc
    · cases hy
  | timer =>
    refine hquiet hr fun hy => ?_
    unfold Sys.timer at hy
    split at hy
    · rename_i deadline hphase
      split at hy
      · cases hy
        cases ha'
        refine h.aside (l := []) nofun nofun nofun nofun rfl rfl rfl (fun _ hc => hc) (.refl _) rfl
          (List.append_nil _).symm fun c hc => ?_
        rw [hphase] at hc
        cases hc
      · cases hy
    · cases hy
  | ingressClosed =>
    refine hquiet hr fun hy => ?_
    unfold Sys.ingressClosed at hy
    split at hy
    · rename_i deadline hphase
      split at hy
      · cases hy
        cases ha'
        refine h.aside (l := []) nofun nofun nofun nofun rfl rfl rfl (fun _ hc => hc) (.refl _) rfl
          (List.append_nil _).symm fun c hc => ?_
        rw [hphase] at hc
        cases hc
      · cases hy
    · cases hy
  | closeWaiter job =>
    refine ⟨h.closes hr ha', fun grants now heq => ?_⟩
    obtain rfl := heq
    simp only [Sys.act, Sys.closeWaiter] at hr
    split at hr
    · cases hr
    · generalize (a.tell x.clients job .closed).2.2 = o at hr
      cases o <;> cases hr
  | stop =>
    refine hquiet hr fun hy => ?_
    unfold Sys.stop at hy
    split at hy
    · cases hy
      cases ha'
    · cases hy
  | mint | trySend | pollEnqueue | pollGrant | dropFuture | sendCancel | dropField | start | complete
  | completeAndAwait | dropPermit | command | cloneHandle | dropHandle => cases hr

end Acts

/-! ## The runs -/

theorem ordered_new {scheduler : SchedulerState} (capacity clock : Nat) :
    Ordered [] (.new (.new scheduler capacity) clock) (.new scheduler capacity) :=
  ⟨fun _ _ hm => (nomatch hm), fun _ hc => (nomatch hc), fun _ _ _ _ _ _ hm => (nomatch hm), fun _ hm => (nomatch hm),
    fun _ _ _ _ ho => (nomatch ho.choose_spec), fun _ _ hm => (nomatch hm)⟩

theorem Ordered.later {τ : List Event} {x : Sys} {a : OutboundActor} {now : Nat} (h : Ordered τ x a)
    (hn : x.clock ≤ now) : Ordered τ { x with clock := now } a :=
  ⟨h.sent, h.requested, h.metadata, h.underway, h.ahead, fun p hd hm =>
    (h.registered p hd hm).imp_left fun hle => Nat.le_trans hle hn⟩

theorem PenaltiesFirst.cons {τ : List Event} {e : Event} (h : PenaltiesFirst τ)
    (hnew : ∀ grants now, e = .admitted grants now → ∀ g ∈ grants, ∀ token request, Owns τ g.job token →
      ∀ p : Freeze, p.Precedes τ token request → p.applied ∈ τ ∧ p.deadline ≤ now) : PenaltiesFirst (e :: τ) := by
  intro later grants now earlier heq
  cases later with
  | nil =>
    obtain ⟨rfl, rfl⟩ := List.cons.inj heq
    exact hnew grants now rfl
  | cons e' later =>
    obtain ⟨-, rfl⟩ := List.cons.inj heq
    exact h later grants now earlier rfl

/-- The promise holds of every run in which no request is taken with such a
completion behind the reach of the drain. -/
theorem penalties_first {τ : List Event} {s : List Event × Sys} (hr : queue.remembering.Run completionsNear τ s) :
    PenaltiesFirst τ := by
  suffices h : PenaltiesFirst τ ∧ ∀ a, s.2.actor = some a → Ordered τ s.2 a from h.1
  refine Machine.Run.induct
    (I := fun τ (s : List Event × Sys) => PenaltiesFirst τ ∧ ∀ a, s.2.actor = some a → Ordered τ s.2 a) ?_ ?_ hr
  · rintro ⟨_, x⟩ ⟨rfl, limits, classLimits, aging, scheduler, capacity, clock, -, -, rfl⟩
    refine ⟨fun later grants now earlier heq => ?_, fun a ha => ?_⟩
    · cases later <;> cases heq
    · cases ha
      exact ordered_new capacity clock
  · rintro τ ⟨σ, x⟩ m ⟨σ', x'⟩ e hr ⟨hfirst, ih⟩ hnear hstep
    obtain ⟨rfl, hrun⟩ := hr.remembered
    replace hstep : x.step m = some (x', e) := (Machine.remembering_step hstep).1
    unfold Sys.step at hstep
    split at hstep
    · cases hstep
    · rename_i hclock
      have hlater := Nat.le_of_not_lt hclock
      have hcall (he : e.isCall = true) : PenaltiesFirst (e :: σ) := hfirst.cons fun grants now heq => by
        rw [heq] at he
        cases he
      cases ha : x.actor with
      | none =>
        dsimp only at hstep
        split at hstep
        · rename_i r hr
          cases hstep
          obtain ⟨hgone, he⟩ := client_gone (x := { x with clock := m.2 }) ha hr
          refine ⟨hcall he, fun a ha' => ?_⟩
          rw [hgone] at ha'
          cases ha'
        · rw [ha] at hstep
          cases hstep
      | some a =>
        have hinv := ((inv_run hrun).2 a ha).later hlater
        have h := (ih a ha).later hlater
        dsimp only at hstep
        split at hstep
        · rename_i r hr
          cases hstep
          have hcalls := Sys.client_cases (x := { x with clock := m.2 }) ha hinv.tokens.minted
            (fun t permit hs => (hinv.balanced.held t permit hs).1) hr
          refine ⟨hcall ?_, fun a' ha' => ?_⟩
          · cases hcalls with
            | moves _ hshows => rcases hshows with rfl | ⟨_, _, _, _, _, _, rfl, -⟩ <;> rfl
            | _ => rfl
          · have hsame : x'.actor = some a := by
              cases hcalls <;> exact ha
            rw [hsame] at ha'
            cases ha'
            exact h.calls hinv hcalls
        · rw [ha] at hstep
          refine ⟨hfirst.cons fun grants now heq => ?_, fun a' ha' => (h.acts hinv hnear hstep ha').1⟩
          rcases hinv.acts hstep with ⟨a', ha', -⟩ | ⟨-, rfl⟩
          · exact (h.acts hinv hnear hstep ha').2 grants now heq
          · cases heq

/-- The whole backlog is taken before the next pass. -/
def shortBacklog (s : List Event × Sys) (_ : Action × Nat) : Prop := s.2.lifecycle.length ≤ LIFECYCLE_DRAIN_BATCH

instance (s : List Event × Sys) (m : Action × Nat) : Decidable (shortBacklog s m) :=
  inferInstanceAs (Decidable (_ ≤ _))

theorem completionsNear_of_short {s : List Event × Sys} {m : Action × Nat} (h : shortBacklog s m) :
    completionsNear s m := by
  intro _ request token rest _ _ p _ hsent
  rw [List.drop_eq_nil_of_le h] at hsent
  exact Freeze.not_sent_nil hsent

/-- Some steps at one instant. -/
def steps (now : Nat) (actions : List Action) : List (Action × Nat) := actions.map (·, now)

/-- The first acquire has its permit. -/
def firstPermit : List Action :=
  [.mint plainRequest, .trySend 0, .runAdmission [] 9, .park, .accept, .answer, .runAdmission [] 9, .deliver, .park, .pollEnqueue 0,
    .pollGrant 0]

/-- A penalty on everything, observed at 0. -/
def freeze : Freeze := ⟨0, .global, 5, 0⟩

/-- The permit is completed and a second request sent. -/
def completeAndGoOn : List Action := [.complete 0 freeze.outcome 0, .mint plainRequest, .trySend 1, .accept, .answer]

def heededRun : List (Action × Nat) :=
  steps 0 (firstPermit ++ completeAndGoOn ++ [.receive [], .runAdmission [] 9, .park]) ++ steps 5 [.timer, .runAdmission [] 9]

theorem penalties_first_heededRun :
    ∃ τ s, queue.remembering.Run completionsNear τ s ∧ τ.head? = some (.admitted [⟨1, none⟩] 5) ∧
      freeze.applied ∈ τ ∧ PenaltiesFirst τ := by
  have h : (queue.remembering.exec shortBacklog [] ([], openQueue) heededRun).map
      (fun r => (r.1.head?, decide (freeze.applied ∈ r.1))) = some (some (.admitted [⟨1, none⟩] 5), true) := by
    decide +kernel
  obtain ⟨⟨τ, s⟩, he, hs⟩ := Option.map_eq_some_iff.mp h
  obtain ⟨hhead, happlied⟩ := Prod.mk.inj hs
  have hinit : queue.remembering.init ([], openQueue) := ⟨rfl, openQueue_init⟩
  have hr : queue.remembering.Run completionsNear τ s :=
    (Machine.run_of_exec (.start hinit) he).mono fun _ _ => completionsNear_of_short
  exact ⟨τ, s, hr, hhead, of_decide_eq_true happlied, penalties_first hr⟩

/-- The drain takes the queries that went before the completion, and the pass
grants the second request. -/
def lateRun : List (Action × Nat) :=
  steps 0 (firstPermit ++ List.replicate 64 (.command .getLimits) ++ completeAndGoOn ++
    List.replicate 64 (.receive []) ++ [.runAdmission [] 9])

theorem penalties_late : ∃ τ x, Run τ x ∧ ¬ PenaltiesFirst τ := by
  have h : (queue.exec Machine.anything [] openQueue lateRun).map
      (fun r => (r.1.head?, decide (.accepted 1 1 none ∈ r.1.tail), r.1.tail[66]?,
        decide (freeze.reported ∈ r.1.tail.drop 67), decide (freeze.applied ∈ r.1.tail))) =
      some (some (.admitted [⟨1, none⟩] 0), true, some (.sent 1 plainRequest), true, false) := by
    decide +kernel
  obtain ⟨⟨τ, x⟩, he, hs⟩ := Option.map_eq_some_iff.mp h
  simp only [Prod.mk.injEq, decide_eq_true_eq, decide_eq_false_iff_not] at hs
  obtain ⟨hhead, haccepted, hsent, hreported, hnever⟩ := hs
  refine ⟨τ, x, Machine.run_of_exec (.start openQueue_init) he, fun hfirst => ?_⟩
  obtain ⟨earlier, rfl⟩ : ∃ earlier, τ = .admitted [⟨1, none⟩] 0 :: earlier := by
    cases τ with
    | nil => cases hhead
    | cons e earlier =>
      cases hhead
      exact ⟨earlier, rfl⟩
  obtain ⟨hlt, hget⟩ := List.getElem?_eq_some_iff.1 hsent
  have hsplit : earlier = earlier.take 66 ++ .sent 1 plainRequest :: earlier.drop 67 := by
    have hdrop : earlier.drop 66 = .sent 1 plainRequest :: earlier.drop 67 := by
      have := List.drop_eq_getElem_cons hlt
      rwa [hget] at this
    rw [← hdrop, List.take_append_drop]
  refine hnever (hfirst [] _ 0 earlier rfl ⟨1, none⟩ List.mem_cons_self 1 plainRequest ⟨none, haccepted⟩ freeze ?_).1
  exact ⟨by decide, rfl, _, _, hsplit, hreported⟩

end Teloxide.Outbound.Actor
