import Teloxide.Outbound.Actor.Steps

/-!
# Permits of the outbound queue

What every run of the queue keeps, whatever the callers do between the steps of
the actor.

* `permit_protocol`: a waiter is told at most one result; a job in flight has one
  permit or one completion on its way; a dropped acquire is cancelled.
* `Tokens`: the acquires behind the commands and the jobs.
* `Maps`: the three maps of the actor agree, and know every job that still needs
  its waiter.
* `Balanced`: permits, completions and grants on hand, against the jobs in
  flight.
* `Attended`: who looks after a pending job.
-/
namespace Teloxide.Outbound.Actor

open Teloxide.Core

/-- The results that the waiter of a job has got, newest first. -/
def told : List Event → JobId → List Verdict
  | [], _ => []
  | .accepted _ _ replaced :: τ, job =>
    if replaced = some job then .superseded :: told τ job else told τ job
  | .delivered j verdict :: τ, job => if j = job then verdict :: told τ job else told τ job
  | _ :: τ, job => told τ job

/-- The job was accepted for the acquire of that token. -/
def Owns (τ : List Event) (job : JobId) (token : Token) : Prop := ∃ r, Event.accepted job token r ∈ τ

/-! ## Permits and completions -/

def OutboundPermit.count (permit : OutboundPermit) (job : JobId) : Nat := if permit.job = job then 1 else 0

/-- The permit of the caller. -/
def Stage.carries (job : JobId) : Stage → Nat
  | .holding permit => permit.count job
  | _ => 0

/-- The permit in a grant channel. -/
def AcquireResult.carries (job : JobId) : Option AcquireResult → Nat
  | some (.granted permit) => permit.count job
  | _ => 0

def Client.carries (c : Client) (job : JobId) : Nat :=
  c.stage.carries job + AcquireResult.carries job c.granted.value

def OutboundCommand.completes (job : JobId) : OutboundCommand → Bool
  | .complete j .. => j == job
  | _ => false

def Phase.owes (p : Phase) (job : JobId) : Nat := p.undelivered.countP (·.job == job)

namespace Sys

/-- The live permits of a job: held by a caller or buffered in a grant channel. -/
def permits (x : Sys) (job : JobId) : Nat :=
  ((List.range x.nextToken).map fun t => (x.clients t).carries job).sum

/-- The completions of a job that the actor has not handled. -/
def completions (x : Sys) (job : JobId) : Nat := x.lifecycle.countP (·.completes job)

end Sys

theorem AcquireResult.carries_of_noPermit {c : Client} (h : c.NoPermit) (job : JobId) :
    AcquireResult.carries job c.granted.value = 0 := by
  unfold AcquireResult.carries
  split
  · rename_i permit hp
    exact absurd hp (h permit)
  · rfl

theorem sum_range_update {f g : Nat → Nat} {t : Nat} (h : ∀ u, u ≠ t → g u = f u) :
    ∀ {n}, t < n → ((List.range n).map g).sum + f t = ((List.range n).map f).sum + g t
  | 0, ht => absurd ht (Nat.not_lt_zero _)
  | n + 1, ht => by
    simp only [List.range_succ, List.map_append, List.map_cons, List.map_nil, List.sum_append, List.sum_cons,
      List.sum_nil, Nat.add_zero]
    rcases Nat.lt_or_ge t n with hlt | hge
    · have ih := sum_range_update h hlt
      rw [h n (Nat.ne_of_gt hlt)]
      omega
    · have heq : t = n := Nat.le_antisymm (Nat.le_of_lt_succ ht) hge
      subst heq
      have hsame : (List.range t).map g = (List.range t).map f :=
        List.map_congr_left fun u hu => h u (Nat.ne_of_lt (List.mem_range.1 hu))
      rw [hsame]
      omega

namespace Client

/-- The acquire of an `Enqueue` command that is under way. -/
def Queued (c : Client) : Prop :=
  c.response.Open ∧ c.granted.Open ∧
    (c.tokenState = .pending ∧ c.stage = .enqueuing true ∨ c.tokenState = .cancelled ∧ c.stage.dropped = true)

/-- Somebody looks after the pending job of this acquire: its future is alive,
or its cancellation is under way. -/
def Attended (c : Client) (answering cancelSent : Prop) : Prop :=
  c.granted.Open ∧
    (c.tokenState = .accepted ∧ (c.stage = .waiting ∨
      c.stage = .enqueuing true ∧ (c.response.Open ∧ answering ∨ ∃ job, c.response.value = some (.ok job))) ∨
    c.tokenState = .cancelled ∧ ((∃ fields, c.stage = .cancelling fields) ∨
      (∃ fields, c.stage = .leaving fields) ∧ cancelSent))

namespace Moves

variable {t : Token} {c c' : Client} {commands : List OutboundCommand}

theorem born (h : Moves t c c' commands) : c.stage ≠ .unborn ∧ ∀ r, c.stage ≠ .minted r := by
  have hother {stage : Stage} (hu : stage ≠ .unborn) (hm : ∀ r, stage ≠ .minted r) (hs : c.stage = stage) :
      c.stage ≠ .unborn ∧ ∀ r, c.stage ≠ .minted r := hs ▸ ⟨hu, hm⟩
  cases h with
  | accepted hs | refused hs | granted hs | failed hs | cancelled hs | dropsHandle hs | dropsPermit hs
  | dropsGranted hs | dropsResponse hs | starts hs | completes hs =>
    exact hother (fun h => by cases h) (fun _ h => by cases h) hs
  | cancels hs => rcases hs with hs | hs <;> exact hother (fun h => by cases h) (fun _ h => by cases h) hs
  | leaves _ hs => rcases hs with ⟨sent, hs⟩ | hs <;> exact hother (fun h => by cases h) (fun _ h => by cases h) hs

theorem notMinted (h : Moves t c c' commands) : c'.stage ≠ .unborn ∧ ∀ r, c'.stage ≠ .minted r := by
  cases h <;> exact ⟨(fun h => by cases h), fun _ h => by cases h⟩

theorem open_granted (h : Moves t c c' commands) (ho : c.granted.Open) : c'.granted.Open := by
  cases h with
  | granted _ hv => rw [ho.2] at hv; cases hv
  | failed _ hn => exact absurd ho hn
  | dropsPermit | dropsGranted => exact ho.dropReceiver
  | _ => exact ho

/-- The permit and its completion stay one. -/
theorem carries (h : Moves t c c' commands) (job : JobId) :
    c'.carries job + commands.countP (·.completes job) = c.carries job := by
  have hgone {stage : Stage} (hs : c.stage = stage) (hz : stage.carries job = 0) : c.stage.carries job = 0 := hs ▸ hz
  have hcompletes (permit : OutboundPermit) (outcome : OutboundCompletion) (observedAt : Nat) (ack : Bool) :
      [OutboundCommand.complete permit.job permit.correlationId permit.token outcome observedAt ack].countP
        (·.completes job) = permit.count job := by
    rw [List.countP_cons, List.countP_nil, Nat.zero_add]
    simp only [OutboundCommand.completes, OutboundPermit.count, beq_iff_eq]
  unfold Client.carries
  cases h with
  | accepted hs | refused hs => rw [hgone hs rfl]; rfl
  | granted hs hv =>
    rw [hgone hs rfl, hv]
    simp [Oneshot.poll, hv, Stage.carries, AcquireResult.carries]
  | failed hs _ hn =>
    rw [hgone hs rfl, AcquireResult.carries_of_noPermit hn]
    have hpoll : AcquireResult.carries job c.granted.poll.1.value = 0 := by
      unfold Oneshot.poll
      split
      · rfl
      · exact AcquireResult.carries_of_noPermit hn job
    simp [Stage.carries, hpoll]
  | cancels hs => rcases hs with hs | hs <;> rw [hgone hs rfl] <;> rfl
  | leaves _ hs => rcases hs with ⟨sent, hs⟩ | hs <;> rw [hgone hs rfl] <;> rfl
  | cancelled hs | dropsHandle hs | dropsResponse hs => rw [hgone hs rfl]; rfl
  | dropsPermit hs hv =>
    rw [hgone hs rfl, hv, hcompletes]
    simp [Oneshot.dropReceiver, Stage.carries, AcquireResult.carries]
  | dropsGranted hs hn =>
    rw [hgone hs rfl, AcquireResult.carries_of_noPermit hn]
    simp [Oneshot.dropReceiver, Stage.carries, AcquireResult.carries]
  | starts hs =>
    rw [hs]
    rfl
  | completes hs =>
    rw [hs, hcompletes]
    simp only [Stage.carries]
    omega

/-- What a caller does to an acquire whose command is under way. -/
theorem queued (h : Moves t c c' commands) (hq : c.Queued) : c'.Queued := by
  obtain ⟨hr, hg, hs⟩ := hq
  have hstage {stage : Stage} (he : c.stage = stage) (hn : stage ≠ .enqueuing true) (hd : stage.dropped = false) :
      False := by
    rcases hs with ⟨-, h⟩ | ⟨-, h⟩
    · exact hn (he ▸ h)
    · rw [he, hd] at h
      cases h
  cases h with
  | accepted _ hv => rw [hr.2] at hv; cases hv
  | refused _ hn => exact absurd hr hn
  | granted he => exact (hstage he nofun rfl).elim
  | failed he => exact (hstage he nofun rfl).elim
  | cancels he => exact ⟨hr, hg, Or.inr ⟨rfl, rfl⟩⟩
  | leaves hc he =>
    refine ⟨hr, hg, Or.inr ⟨?_, rfl⟩⟩
    rcases hs with ⟨hp, he'⟩ | ⟨hp, -⟩
    · rcases hc with hc | hc | hc
      · rw [he'] at hc; cases hc
      · exact hc
      · rw [hp] at hc; cases hc
    · exact hp
  | cancelled he | dropsHandle he =>
    refine ⟨hr, hg, Or.inr ⟨?_, rfl⟩⟩
    rcases hs with ⟨-, h⟩ | ⟨h, -⟩
    · rw [he] at h; cases h
    · exact h
  | dropsPermit _ hv => rw [hg.2] at hv; cases hv
  | dropsGranted he =>
    refine ⟨hr, hg.dropReceiver, Or.inr ⟨?_, rfl⟩⟩
    rcases hs with ⟨-, h⟩ | ⟨h, -⟩
    · rw [he] at h; cases h
    · exact h
  | dropsResponse he =>
    refine ⟨hr.dropReceiver, hg, Or.inr ⟨?_, rfl⟩⟩
    rcases hs with ⟨-, h⟩ | ⟨h, -⟩
    · rw [he] at h; cases h
    · exact h
  | starts he => exact (hstage he nofun rfl).elim
  | completes he => exact (hstage he nofun rfl).elim

/-- What a caller does to an acquire with a pending job. -/
theorem attended {answering cancelSent : Prop} (h : Moves t c c' commands) (ha : c.Attended answering cancelSent) :
    c'.Attended answering (cancelSent ∨ .cancel t ∈ commands) := by
  obtain ⟨hg, hs⟩ := ha
  refine ⟨h.open_granted hg, ?_⟩
  have hgone {stage : Stage} (he : c.stage = stage) (hn : stage ≠ .waiting) (hq : stage ≠ .enqueuing true)
      (hc : ∀ fields, stage ≠ .cancelling fields) (hl : ∀ fields, stage ≠ .leaving fields) : False := by
    rcases hs with ⟨-, h | ⟨h, -⟩⟩ | ⟨-, ⟨fields, h⟩ | ⟨⟨fields, h⟩, -⟩⟩
    · exact hn (he ▸ h)
    · exact hq (he ▸ h)
    · exact hc fields (he ▸ h)
    · exact hl fields (he ▸ h)
  have hcancelled {field : Field} {fields : List Field} (he : c.stage = .leaving (field :: fields)) :
      c.tokenState = .cancelled ∧ cancelSent := by
    rcases hs with ⟨-, h | ⟨h, -⟩⟩ | ⟨hp, ⟨fields, h⟩ | ⟨-, hc⟩⟩
    · rw [he] at h; cases h
    · rw [he] at h; cases h
    · rw [he] at h; cases h
    · exact ⟨hp, hc⟩
  cases h with
  | accepted he =>
    rcases hs with ⟨hp, -⟩ | ⟨-, ⟨fields, h⟩ | ⟨⟨fields, h⟩, -⟩⟩
    · exact Or.inl ⟨hp, Or.inl rfl⟩
    · rw [he] at h; cases h
    · rw [he] at h; cases h
  | refused he hn hv =>
    rcases hs with ⟨-, h | ⟨-, ⟨ho, -⟩ | ⟨job, hj⟩⟩⟩ | ⟨-, ⟨fields, h⟩ | ⟨⟨fields, h⟩, -⟩⟩
    · rw [he] at h; cases h
    · exact absurd ho hn
    · exact absurd hj (hv job)
    · rw [he] at h; cases h
    · rw [he] at h; cases h
  | granted _ hv => rw [hg.2] at hv; cases hv
  | failed _ hn => exact absurd hg hn
  | cancels => exact Or.inr ⟨rfl, Or.inl ⟨_, rfl⟩⟩
  | leaves hc he =>
    rcases hs with ⟨hp, h⟩ | ⟨-, ⟨fields, h⟩ | ⟨⟨fields, h⟩, -⟩⟩
    · rcases hc with hc | hc | hc
      · rcases h with h | ⟨h, -⟩ <;> rw [hc] at h <;> cases h
      · rw [hp] at hc; cases hc
      · rw [hp] at hc; cases hc
    · rcases he with ⟨sent, he⟩ | he <;> rw [he] at h <;> cases h
    · rcases he with ⟨sent, he⟩ | he <;> rw [he] at h <;> cases h
  | cancelled he =>
    refine Or.inr ⟨?_, Or.inr ⟨⟨_, rfl⟩, Or.inr (List.mem_singleton.2 rfl)⟩⟩
    rcases hs with ⟨-, h | ⟨h, -⟩⟩ | ⟨hp, -⟩
    · rw [he] at h; cases h
    · rw [he] at h; cases h
    · exact hp
  | dropsHandle he | dropsGranted he | dropsResponse he =>
    obtain ⟨hp, hc⟩ := hcancelled he
    exact Or.inr ⟨hp, Or.inr ⟨⟨_, rfl⟩, Or.inl hc⟩⟩
  | dropsPermit _ hv => rw [hg.2] at hv; cases hv
  | starts he | completes he => exact (hgone he nofun nofun nofun nofun).elim

end Moves

end Client

/-! ## The invariant -/

namespace Sys

/-- The command of the acquire has left its channel, or never entered it. -/
def Spent (x : Sys) (t : Token) : Prop :=
  t < x.nextToken ∧ (∀ c ∈ x.ingress, c.token ≠ t) ∧ ∀ r, (x.clients t).stage ≠ .minted r

end Sys

/-- The acquires behind the commands and the jobs. -/
structure Tokens (τ : List Event) (x : Sys) (a : OutboundActor) : Prop where
  unborn : ∀ t, x.nextToken ≤ t → x.clients t = .new
  minted : ∀ t r, (x.clients t).stage = .minted r → x.clients t = { Client.new with stage := .minted r }
  nodup : (x.ingress.map (·.token)).Nodup
  queued : ∀ c ∈ x.ingress, (x.clients c.token).Queued
  owned : ∀ job t, Owns τ job t → x.Spent t ∧ job < a.scheduler.nextJobId
  job : ∀ {job job' t}, Owns τ job t → Owns τ job' t → job = job'
  token : ∀ {job t t'}, Owns τ job t → Owns τ job t' → t = t'
  answering : ∀ t r, a.phase = .answering t r →
    x.Spent t ∧ (x.clients t).granted.Open ∧ ∀ job, Owns τ job t ↔ r = .ok job

/-- The maps of the actor. -/
structure Maps (τ : List Event) (a : OutboundActor) (needed : JobId → Prop) : Prop where
  job : ∀ job t, a.jobTokens.lookup job = some t →
    Owns τ job t ∧ a.pendingTokens.lookup t = some job ∧ a.tokenStates.lookup t = some ()
  token : ∀ t job, a.pendingTokens.lookup t = some job → a.jobTokens.lookup job = some t
  known : ∀ job, needed job → ∃ t, a.jobTokens.lookup job = some t

/-- The jobs whose mapping is still needed: pending, or granted and not handed
out. -/
def OutboundActor.Needs (a : OutboundActor) (job : JobId) : Prop :=
  a.scheduler.live job = true ∨ ∃ g ∈ a.phase.undelivered, g.job = job

/-- The waiters are those of their jobs, and have been told nothing. -/
def Waits (τ : List Event) (x : Sys) (a : OutboundActor) : Prop :=
  ∀ job t, a.waiters.lookup job = some t → Owns τ job t ∧ (x.clients t).granted.Open

/-- Permits, completions and grants on hand, against the jobs in flight. -/
structure Balanced (τ : List Event) (x : Sys) (a : OutboundActor) : Prop where
  balance : ∀ job, x.permits job + x.completions job + a.phase.owes job =
    if a.scheduler.inFlight.contains job then 1 else 0
  held : ∀ t permit, (x.clients t).stage = .holding permit → permit.token = t ∧ Owns τ permit.job t
  buffered : ∀ t permit, (x.clients t).granted.value = some (.granted permit) →
    permit.token = t ∧ Owns τ permit.job t
  completing : ∀ job c t outcome observedAt ack,
    .complete job c t outcome observedAt ack ∈ x.lifecycle → Owns τ job t

/-- Every pending job is looked after, until the actor closes. -/
def Served (x : Sys) (a : OutboundActor) : Prop :=
  a.phase ≠ .closing → ∀ job t, a.scheduler.live job = true → a.jobTokens.lookup job = some t →
    (x.clients t).Attended (a.phase = .answering t (.ok job)) (.cancel t ∈ x.lifecycle)

/-- The job is between its acceptance and the reply. -/
def Phase.answers (job : JobId) : Phase → Bool
  | .answering _ (.ok j) => j == job
  | _ => false

/-- A waiter is told once. -/
structure Once (τ : List Event) (a : OutboundActor) : Prop where
  once : ∀ job, (told τ job).length + (if a.waiters.contains job then 1 else 0) +
    (if a.phase.answers job then 1 else 0) ≤ 1
  fresh : ∀ job, a.scheduler.nextJobId ≤ job →
    told τ job = [] ∧ a.waiters.lookup job = none ∧ a.phase.answers job = false

/-- The scheduler was called at the instants of the steps. -/
structure Clocked (x : Sys) (a : OutboundActor) : Prop where
  books : Books a.scheduler x.clock
  pass : ∀ gs t, a.phase = .delivering gs t → Books a.scheduler t ∧ t ≤ x.clock

structure Inv (τ : List Event) (x : Sys) (a : OutboundActor) : Prop where
  clocked : Clocked x a
  tokens : Tokens τ x a
  maps : Maps τ a a.Needs
  waits : Waits τ x a
  balanced : Balanced τ x a
  served : Served x a
  once : Once τ a

/-! ## The callers -/

section Calls

variable {τ : List Event} {x x' : Sys} {a : OutboundActor} {e : Event}

/-- The events that name no job of a waiter. -/
def Event.outside (e : Event) : Prop :=
  (∀ job t r, e ≠ .accepted job t r) ∧ ∀ job v, e ≠ .delivered job v

/-- The events of the callers. -/
def Event.isCall : Event → Bool
  | .quiet | .sent .. | .reported .. => true
  | .accepted .. | .applied .. | .admitted .. | .delivered .. => false

theorem Event.isCall.outside (h : e.isCall = true) : e.outside := by
  cases e with
  | quiet | sent | reported => exact ⟨nofun, nofun⟩
  | accepted | applied | admitted | delivered => cases h

theorem Sys.Shows.outside {commands : List OutboundCommand} (h : Sys.Shows e commands) : e.outside := by
  rcases h with rfl | ⟨_, _, _, _, _, _, rfl, -⟩ <;> exact ⟨nofun, nofun⟩

theorem owns_cons (h : ∀ job t r, e ≠ .accepted job t r) (job : JobId) (t : Token) :
    Owns (e :: τ) job t ↔ Owns τ job t := by
  constructor
  · rintro ⟨r, hm⟩
    rcases List.mem_cons.1 hm with he | hm
    · exact absurd he.symm (h job t r)
    · exact ⟨r, hm⟩
  · rintro ⟨r, hm⟩
    exact ⟨r, List.mem_cons_of_mem _ hm⟩

theorem owns_outside (h : e.outside) (job : JobId) (t : Token) : Owns (e :: τ) job t ↔ Owns τ job t :=
  owns_cons h.1 job t

theorem told_outside (h : e.outside) (job : JobId) : told (e :: τ) job = told τ job := by
  cases e with
  | accepted j t r => exact absurd rfl (h.1 j t r)
  | delivered j v => exact absurd rfl (h.2 j v)
  | _ => rfl

theorem Maps.outside {needed : JobId → Prop} (he : e.outside) (h : Maps τ a needed) : Maps (e :: τ) a needed :=
  ⟨fun job t hl => ⟨(owns_outside he _ _).2 (h.job job t hl).1, (h.job job t hl).2⟩, h.token, h.known⟩

theorem Once.outside (he : e.outside) (h : Once τ a) : Once (e :: τ) a :=
  ⟨fun job => by rw [told_outside he]; exact h.once job,
    fun job hj => by rw [told_outside he]; exact h.fresh job hj⟩

/-- An acquire that has moved, and the rest as it was. -/
theorem moved_client (x : Sys) {t u : Token} {c : Client} {commands : List OutboundCommand} (h : u ≠ t) :
    (x.moved t c commands).clients u = x.clients u := by
  show x.clients.modify t (fun _ => c) u = _
  exact Clients.modify_other _ _ h

theorem moved_self (x : Sys) {t : Token} {c : Client} {commands : List OutboundCommand} :
    (x.moved t c commands).clients t = c := by
  show x.clients.modify t (fun _ => c) t = _
  exact Clients.modify_same _ _ _

theorem Tokens.moves {t : Token} {c : Client} {commands : List OutboundCommand} {handles futures : Nat}
    (h : Tokens τ x a) (he : e.outside) (hm : (x.clients t).Moves t c commands) :
    Tokens (e :: τ) { x.moved t c commands with handles := handles, futures := futures } a := by
  have hborn : t < x.nextToken := by
    refine Nat.lt_of_not_le fun hle => ?_
    have hnew := h.unborn t hle
    exact hm.born.1 (by rw [hnew]; rfl)
  have hspent {u : Token} (hs : x.Spent u) :
      Sys.Spent { x.moved t c commands with handles := handles, futures := futures } u := by
    refine ⟨hs.1, hs.2.1, fun r => ?_⟩
    by_cases hu : u = t
    · subst hu
      rw [moved_self]
      exact hm.notMinted.2 r
    · rw [moved_client x hu]
      exact hs.2.2 r
  refine ⟨fun u hu => ?_, fun u r hu => ?_, h.nodup, fun c' hc => ?_, fun job u ho => ?_, fun ho ho' => ?_,
    fun ho ho' => ?_, fun u r hp => ?_⟩
  · rw [moved_client x (by rintro rfl; exact absurd hborn (Nat.not_lt.2 hu))]
    exact h.unborn u hu
  · by_cases hut : u = t
    · subst hut
      rw [moved_self] at hu
      exact absurd hu (hm.notMinted.2 r)
    · rw [moved_client x hut] at hu ⊢
      exact h.minted u r hu
  · by_cases hut : c'.token = t
    · have hq := h.queued c' hc
      rw [hut] at hq ⊢
      rw [moved_self]
      exact hm.queued hq
    · rw [moved_client x hut]
      exact h.queued c' hc
  · have := h.owned job u ((owns_outside he _ _).1 ho)
    exact ⟨hspent this.1, this.2⟩
  · exact h.job ((owns_outside he _ _).1 ho) ((owns_outside he _ _).1 ho')
  · exact h.token ((owns_outside he _ _).1 ho) ((owns_outside he _ _).1 ho')
  · obtain ⟨hs, ho, hr⟩ := h.answering u r hp
    refine ⟨hspent hs, ?_, fun job => (owns_outside he _ _).trans (hr job)⟩
    by_cases hut : u = t
    · subst hut
      rw [moved_self]
      exact hm.open_granted ho
    · rw [moved_client x hut]
      exact ho

theorem Waits.moves {t : Token} {c : Client} {commands : List OutboundCommand} {handles futures : Nat}
    (h : Waits τ x a) (he : e.outside) (hm : (x.clients t).Moves t c commands) :
    Waits (e :: τ) { x.moved t c commands with handles := handles, futures := futures } a := by
  intro job u hw
  obtain ⟨ho, hopen⟩ := h job u hw
  refine ⟨(owns_outside he _ _).2 ho, ?_⟩
  by_cases hut : u = t
  · subst hut
    rw [moved_self]
    exact hm.open_granted hopen
  · rw [moved_client x hut]
    exact hopen

/-- The permits, with one acquire changed. -/
theorem permits_update (x x' : Sys) {t : Token} (hn : x'.nextToken = x.nextToken) (ht : t < x.nextToken)
    (h : ∀ u, u ≠ t → x'.clients u = x.clients u) (job : JobId) :
    x'.permits job + (x.clients t).carries job = x.permits job + (x'.clients t).carries job := by
  unfold Sys.permits
  rw [hn]
  exact sum_range_update (f := fun u => (x.clients u).carries job) (g := fun u => (x'.clients u).carries job)
    (fun u hu => by simp only [h u hu]) ht

theorem Balanced.moves {t : Token} {c : Client} {commands : List OutboundCommand} {handles futures : Nat}
    (h : Balanced τ x a) (he : e.outside) (hm : (x.clients t).Moves t c commands) (ht : t < x.nextToken) :
    Balanced (e :: τ) { x.moved t c commands with handles := handles, futures := futures } a := by
  have howns {job : JobId} {u : Token} (ho : Owns τ job u) : Owns (e :: τ) job u := (owns_outside he _ _).2 ho
  refine ⟨fun job => ?_, fun u permit hs => ?_, fun u permit hv => ?_, fun job c' u outcome observedAt ack hsent => ?_⟩
  · have hp : Sys.permits { x.moved t c commands with handles := handles, futures := futures } job +
        (x.clients t).carries job = x.permits job + c.carries job := by
      have := permits_update x { x.moved t c commands with handles := handles, futures := futures } rfl ht
        (fun u hu => (moved_client x hu : (x.moved t c commands).clients u = _)) job
      rwa [moved_self] at this
    have hc : Sys.completions { x.moved t c commands with handles := handles, futures := futures } job =
        x.completions job + commands.countP (·.completes job) := List.countP_append
    have hcarry := hm.carries job
    have := h.balance job
    omega
  · by_cases hut : u = t
    · subst hut
      rw [moved_self] at hs
      cases hm with
      | granted _ hv =>
        cases hs
        have := h.buffered u permit hv
        exact ⟨this.1, howns this.2⟩
      | starts hs' =>
        cases hs
        have := h.held u _ hs'
        exact ⟨this.1, howns this.2⟩
      | _ => cases hs
    · rw [moved_client x hut] at hs
      exact ⟨(h.held u permit hs).1, howns (h.held u permit hs).2⟩
  · by_cases hut : u = t
    · subst hut
      rw [moved_self] at hv
      have hold : (x.clients u).granted.value = some (.granted permit) := by
        cases hm with
        | granted _ hv' => simp [Oneshot.poll, hv'] at hv
        | failed =>
          unfold Oneshot.poll at hv
          split at hv
          · cases hv
          · exact hv
        | dropsPermit | dropsGranted => cases hv
        | _ => exact hv
      exact ⟨(h.buffered u permit hold).1, howns (h.buffered u permit hold).2⟩
    · rw [moved_client x hut] at hv
      exact ⟨(h.buffered u permit hv).1, howns (h.buffered u permit hv).2⟩
  · rcases List.mem_append.1 hsent with hold | hnew
    · exact howns (h.completing job c' u outcome observedAt ack hold)
    · cases hm with
      | dropsPermit _ hv =>
        cases List.mem_singleton.1 hnew
        have := h.buffered t _ hv
        rw [this.1]
        exact howns this.2
      | completes hs =>
        cases List.mem_singleton.1 hnew
        have := h.held t _ hs
        rw [this.1]
        exact howns this.2
      | cancelled | starts => cases List.mem_singleton.1 hnew
      | _ => cases hnew

theorem Served.moves {t : Token} {c : Client} {commands : List OutboundCommand} {handles futures : Nat}
    (h : Served x a) (hm : (x.clients t).Moves t c commands) :
    Served { x.moved t c commands with handles := handles, futures := futures } a := by
  intro hp job u hl hj
  have hs := h hp job u hl hj
  by_cases hut : u = t
  · subst hut
    rw [moved_self]
    have hs' := hm.attended hs
    rwa [← List.mem_append] at hs'
  · rw [moved_client x hut]
    refine ⟨hs.1, hs.2.imp id fun hc => ⟨hc.1, hc.2.imp id fun hl => ⟨hl.1, ?_⟩⟩⟩
    exact List.mem_append.2 (Or.inl hl.2)

/-! ### Before the command is sent -/

/-- A new client holds nothing. -/
theorem carries_idle {c : Client} {stage : Stage} (h : c = { Client.new with stage := stage })
    (hs : ∀ job, stage.carries job = 0) (job : JobId) : c.carries job = 0 := by
  rw [h, Client.carries, hs]
  rfl

theorem Waits.frame (h : Waits τ x a) (he : e.outside)
    (hc : ∀ job u, Owns τ job u → x'.clients u = x.clients u) : Waits (e :: τ) x' a := by
  intro job u hw
  obtain ⟨ho, hopen⟩ := h job u hw
  rw [hc job u ho]
  exact ⟨(owns_outside he _ _).2 ho, hopen⟩

theorem Served.frame (h : Served x a) (hm : Maps τ a a.Needs)
    (hc : ∀ job u, Owns τ job u → x'.clients u = x.clients u)
    (hl : ∀ c ∈ x.lifecycle, c ∈ x'.lifecycle) : Served x' a := by
  intro hp job u hlive hj
  have hs := h hp job u hlive hj
  rw [hc job u (hm.job job u hj).1]
  exact ⟨hs.1, hs.2.imp id fun hx => ⟨hx.1, hx.2.imp id fun hy => ⟨hy.1, hl _ hy.2⟩⟩⟩

/-- Other acquires change, which hold no permit before and after. -/
theorem Balanced.frame (h : Balanced τ x a) (he : e.outside) (hp : ∀ job, x'.permits job = x.permits job)
    (hn : ∀ u, x'.clients u = x.clients u ∨
      (∀ permit, (x'.clients u).stage ≠ .holding permit) ∧ (x'.clients u).NoPermit)
    {l : List OutboundCommand} (hl : x'.lifecycle = x.lifecycle ++ l)
    (hpublic : ∀ c ∈ l, c.isPublic = true) : Balanced (e :: τ) x' a := by
  have howns {job : JobId} {u : Token} (ho : Owns τ job u) : Owns (e :: τ) job u := (owns_outside he _ _).2 ho
  refine ⟨fun job => ?_, fun u permit hs => ?_, fun u permit hv => ?_, fun job c u outcome observedAt ack hm => ?_⟩
  · have hcomplete : x'.completions job = x.completions job := by
      have hzero : l.countP (·.completes job) = 0 := by
        rw [List.countP_eq_zero]
        intro c hc
        have := hpublic c hc
        cases c with
        | complete => cases this
        | _ => exact Bool.false_ne_true
      unfold Sys.completions
      rw [hl, List.countP_append, hzero, Nat.add_zero]
    rw [hp, hcomplete]
    exact h.balance job
  · rcases hn u with hu | ⟨hs', -⟩
    · rw [hu] at hs
      exact ⟨(h.held u permit hs).1, howns (h.held u permit hs).2⟩
    · exact absurd hs (hs' permit)
  · rcases hn u with hu | ⟨-, hv'⟩
    · rw [hu] at hv
      exact ⟨(h.buffered u permit hv).1, howns (h.buffered u permit hv).2⟩
    · exact absurd hv (hv' permit)
  · rw [hl] at hm
    rcases List.mem_append.1 hm with hm | hm
    · exact howns (h.completing job c u outcome observedAt ack hm)
    · cases hpublic _ hm

theorem Inv.mints {request : Request} (h : Inv τ x a) : Inv (.quiet :: τ) { x with
    nextToken := x.nextToken + 1
    futures := x.futures + 1
    clients := x.clients.setStage x.nextToken (.minted request) } a := by
  have he : Event.quiet.outside := ⟨(fun _ _ _ h => by cases h), (fun _ _ h => by cases h)⟩
  have hnew : x.clients.setStage x.nextToken (.minted request) x.nextToken =
      { Client.new with stage := .minted request } := by
    rw [Clients.setStage, Clients.modify_same, h.tokens.unborn _ (Nat.le_refl _)]
  have hother {u : Token} (hu : u ≠ x.nextToken) :
      x.clients.setStage x.nextToken (.minted request) u = x.clients u := Clients.modify_other _ _ hu
  have howned (job : JobId) (u : Token) (ho : Owns τ job u) :
      x.clients.setStage x.nextToken (.minted request) u = x.clients u :=
    hother (Nat.ne_of_lt (h.tokens.owned job u ho).1.1)
  refine ⟨⟨h.clocked.books, h.clocked.pass⟩, ?_, h.maps.outside he, h.waits.frame he howned, ?_,
    h.served.frame h.maps howned fun _ hc => hc, h.once.outside he⟩
  · have hspent {u : Token} (hs : x.Spent u) : Sys.Spent { x with
        nextToken := x.nextToken + 1
        futures := x.futures + 1
        clients := x.clients.setStage x.nextToken (.minted request) } u := by
      refine ⟨Nat.lt_succ_of_lt hs.1, hs.2.1, fun r => ?_⟩
      show (x.clients.setStage x.nextToken (.minted request) u).stage ≠ _
      rw [hother (Nat.ne_of_lt hs.1)]
      exact hs.2.2 r
    refine ⟨fun u hu => ?_, fun u r hu => ?_, h.tokens.nodup, fun c hc => ?_, fun job u ho => ?_,
      fun ho ho' => ?_, fun ho ho' => ?_, fun u r hp => ?_⟩
    · show x.clients.setStage x.nextToken (.minted request) u = _
      rw [hother (Nat.ne_of_gt hu)]
      exact h.tokens.unborn u (Nat.le_of_succ_le hu)
    · by_cases hut : u = x.nextToken
      · subst hut
        show x.clients.setStage x.nextToken (.minted request) x.nextToken = _
        replace hu : (x.clients.setStage x.nextToken (.minted request) x.nextToken).stage = .minted r := hu
        rw [hnew] at hu ⊢
        cases hu
        rfl
      · show x.clients.setStage x.nextToken (.minted request) u = _
        replace hu : (x.clients.setStage x.nextToken (.minted request) u).stage = .minted r := hu
        rw [hother hut] at hu ⊢
        exact h.tokens.minted u r hu
    · show Client.Queued (x.clients.setStage x.nextToken (.minted request) c.token)
      have hq := h.tokens.queued c hc
      rw [hother]
      · exact hq
      · intro hct
        rw [hct, h.tokens.unborn _ (Nat.le_refl _)] at hq
        rcases hq.2.2 with ⟨-, hs⟩ | ⟨hs, -⟩ <;> cases hs
    · have := h.tokens.owned job u ((owns_outside he _ _).1 ho)
      exact ⟨hspent this.1, this.2⟩
    · exact h.tokens.job ((owns_outside he _ _).1 ho) ((owns_outside he _ _).1 ho')
    · exact h.tokens.token ((owns_outside he _ _).1 ho) ((owns_outside he _ _).1 ho')
    · obtain ⟨hs, ho, hr⟩ := h.tokens.answering u r hp
      refine ⟨hspent hs, ?_, fun job => (owns_outside he _ _).trans (hr job)⟩
      show (x.clients.setStage x.nextToken (.minted request) u).granted.Open
      rw [hother (Nat.ne_of_lt hs.1)]
      exact ho
  · refine h.balanced.frame (l := []) he (fun job => ?_) (fun u => ?_) (List.append_nil _).symm (fun _ h => by cases h)
    · unfold Sys.permits
      dsimp only
      rw [List.range_succ, List.map_append, List.sum_append]
      have hsame : (List.range x.nextToken).map
          (fun t => (x.clients.setStage x.nextToken (.minted request) t).carries job) =
          (List.range x.nextToken).map fun t => (x.clients t).carries job :=
        List.map_congr_left fun u hu => by rw [hother (Nat.ne_of_lt (List.mem_range.1 hu))]
      rw [hsame, List.map_singleton, List.sum_singleton, carries_idle hnew fun _ => rfl, Nat.add_zero]
    · by_cases hu : u = x.nextToken
      · subst hu
        refine Or.inr ?_
        show (∀ permit, (x.clients.setStage x.nextToken (.minted request) x.nextToken).stage ≠ .holding permit) ∧
          Client.NoPermit (x.clients.setStage x.nextToken (.minted request) x.nextToken)
        rw [hnew]
        exact ⟨fun _ hs => (by cases hs), fun _ hv => (by cases hv)⟩
      · exact Or.inl (hother hu)

/-- The command of a new acquire enters its channel, or is refused. -/
theorem Inv.leaves_minted {t : Token} {request : Request} {c : Client} {ingress : List EnqueueCommand}
    (h : Inv τ x a) (he : e.outside) (hs : (x.clients t).stage = .minted request)
    (hi : ingress = x.ingress ∨ ingress = x.ingress ++ [⟨request, t⟩] ∧ c.Queued)
    (hcs : c.stage = .enqueuing true ∨ c.stage = .enqueuing false) (hcp : c.NoPermit) :
    Inv (e :: τ) { x with ingress := ingress, clients := x.clients.modify t fun _ => c } a := by
  have hother {u : Token} (hu : u ≠ t) : x.clients.modify t (fun _ => c) u = x.clients u :=
    Clients.modify_other _ _ hu
  have hself : x.clients.modify t (fun _ => c) t = c := Clients.modify_same _ _ _
  have hstage : (∀ r, c.stage ≠ .minted r) ∧ ∀ permit, c.stage ≠ .holding permit := by
    rcases hcs with hcs | hcs <;> rw [hcs] <;> exact ⟨nofun, nofun⟩
  have hmint := h.tokens.minted t request hs
  have hborn : t < x.nextToken := by
    refine Nat.lt_of_not_le fun hle => ?_
    rw [h.tokens.unborn t hle] at hs
    cases hs
  have hne {u : Token} (hu : x.Spent u) : u ≠ t := by
    rintro rfl
    exact hu.2.2 request hs
  have hout : ∀ c' ∈ x.ingress, c'.token ≠ t := by
    intro c' hc' hct
    have hq := h.tokens.queued c' hc'
    rw [hct, hmint] at hq
    rcases hq.2.2 with ⟨-, hq⟩ | ⟨hq, -⟩ <;> cases hq
  have hspent {u : Token} (hu : x.Spent u) :
      Sys.Spent { x with ingress := ingress, clients := x.clients.modify t fun _ => c } u := by
    refine ⟨hu.1, fun c' hc' => ?_, fun r => ?_⟩
    · rcases hi with rfl | ⟨rfl, -⟩
      · exact hu.2.1 c' hc'
      · rcases List.mem_append.1 hc' with hc' | hc'
        · exact hu.2.1 c' hc'
        · rw [List.mem_singleton.1 hc']
          exact (hne hu).symm
    · show (x.clients.modify t (fun _ => c) u).stage ≠ _
      rw [hother (hne hu)]
      exact hu.2.2 r
  have howned (job : JobId) (u : Token) (ho : Owns τ job u) : x.clients.modify t (fun _ => c) u = x.clients u :=
    hother (hne (h.tokens.owned job u ho).1)
  refine ⟨⟨h.clocked.books, h.clocked.pass⟩, ?_, h.maps.outside he, h.waits.frame he howned, ?_,
    h.served.frame h.maps howned fun _ hc => hc, h.once.outside he⟩
  · refine ⟨fun u hu => ?_, fun u r hu => ?_, ?_, fun c' hc' => ?_, fun job u ho => ?_, fun ho ho' => ?_,
      fun ho ho' => ?_, fun u r hp => ?_⟩
    · show x.clients.modify t (fun _ => c) u = _
      rw [hother (by rintro rfl; exact absurd hborn (Nat.not_lt.2 hu))]
      exact h.tokens.unborn u hu
    · show x.clients.modify t (fun _ => c) u = _
      replace hu : (x.clients.modify t (fun _ => c) u).stage = .minted r := hu
      by_cases hut : u = t
      · subst hut
        rw [hself] at hu
        exact absurd hu (hstage.1 r)
      · rw [hother hut] at hu ⊢
        exact h.tokens.minted u r hu
    · rcases hi with rfl | ⟨rfl, -⟩
      · exact h.tokens.nodup
      · simp only [List.map_append, List.map_cons, List.map_nil]
        refine List.nodup_append'.2 ⟨h.tokens.nodup, List.nodup_cons.2 ⟨List.not_mem_nil, List.nodup_nil⟩, ?_⟩
        intro u hu hut
        obtain ⟨c', hc', rfl⟩ := List.mem_map.1 hu
        exact hout c' hc' (List.mem_singleton.1 hut)
    · show Client.Queued (x.clients.modify t (fun _ => c) c'.token)
      rcases hi with rfl | ⟨rfl, hq⟩
      · rw [hother (hout c' hc')]
        exact h.tokens.queued c' hc'
      · rcases List.mem_append.1 hc' with hc' | hc'
        · rw [hother (hout c' hc')]
          exact h.tokens.queued c' hc'
        · rw [List.mem_singleton.1 hc', hself]
          exact hq
    · have := h.tokens.owned job u ((owns_outside he _ _).1 ho)
      exact ⟨hspent this.1, this.2⟩
    · exact h.tokens.job ((owns_outside he _ _).1 ho) ((owns_outside he _ _).1 ho')
    · exact h.tokens.token ((owns_outside he _ _).1 ho) ((owns_outside he _ _).1 ho')
    · obtain ⟨hsu, ho, hr⟩ := h.tokens.answering u r hp
      refine ⟨hspent hsu, ?_, fun job => (owns_outside he _ _).trans (hr job)⟩
      show (x.clients.modify t (fun _ => c) u).granted.Open
      rw [hother (hne hsu)]
      exact ho
  · refine h.balanced.frame (l := []) he (fun job => ?_) (fun u => ?_) (List.append_nil _).symm nofun
    · have hp := permits_update x { x with ingress := ingress, clients := x.clients.modify t fun _ => c } rfl hborn
        (fun u hu => hother hu) job
      have hbefore : (x.clients t).carries job = 0 := carries_idle hmint (fun _ => rfl) job
      have hafter : (x.clients.modify t (fun _ => c) t).carries job = 0 := by
        rw [hself, Client.carries, AcquireResult.carries_of_noPermit hcp, Nat.add_zero]
        rcases hcs with hcs | hcs <;> rw [hcs] <;> rfl
      replace hp : _ + (x.clients t).carries job = _ + (x.clients.modify t (fun _ => c) t).carries job := hp
      rw [hbefore, hafter, Nat.add_zero, Nat.add_zero] at hp
      exact hp
    · by_cases hu : u = t
      · subst hu
        refine Or.inr ?_
        show (∀ permit, (x.clients.modify u (fun _ => c) u).stage ≠ .holding permit) ∧
          Client.NoPermit (x.clients.modify u (fun _ => c) u)
        rw [hself]
        exact ⟨hstage.2, hcp⟩
      · exact Or.inl (hother hu)

/-- Every step of a caller. -/
theorem Inv.calls (h : Inv τ x a) (hc : x.Calls a x' e) : Inv (e :: τ) x' a := by
  cases hc with
  | mints => exact h.mints
  | @sends t request hs =>
    have hmint := h.tokens.minted t request hs
    rw [Sys.setStage_eq]
    refine h.leaves_minted ⟨nofun, nofun⟩ hs (Or.inr ⟨rfl, ?_⟩) (Or.inl rfl) ?_
    · rw [hmint]
      exact ⟨Oneshot.open_channel, Oneshot.open_channel, Or.inl ⟨rfl, rfl⟩⟩
    · rw [hmint]
      nofun
  | @overflows t request c hs hcs hcp =>
    have := h.leaves_minted (e := .quiet) ⟨nofun, nofun⟩ hs (Or.inl rfl) (Or.inr hcs) hcp
    rw [Sys.moved, List.append_nil]
    exact this
  | @moves t c commands handles futures _ hm hshows =>
    have he : e.outside := hshows.outside
    have hborn : t < x.nextToken := by
      refine Nat.lt_of_not_le fun hle => hm.born.1 ?_
      rw [h.tokens.unborn t hle]
      rfl
    exact ⟨⟨h.clocked.books, h.clocked.pass⟩, h.tokens.moves he hm, h.maps.outside he, h.waits.moves he hm,
      h.balanced.moves he hm hborn, h.served.moves hm, h.once.outside he⟩
  | @commands commands handles hp =>
    have he : Event.quiet.outside := ⟨nofun, nofun⟩
    refine ⟨⟨h.clocked.books, h.clocked.pass⟩, ?_, h.maps.outside he, h.waits.frame he fun _ _ _ => rfl,
      h.balanced.frame he (fun _ => rfl) (fun _ => Or.inl rfl) rfl hp,
      h.served.frame h.maps (fun _ _ _ => rfl) fun _ hm => List.mem_append.2 (Or.inl hm), h.once.outside he⟩
    refine ⟨h.tokens.unborn, h.tokens.minted, h.tokens.nodup, h.tokens.queued, fun job u ho => ?_,
      fun ho ho' => ?_, fun ho ho' => ?_, fun u r hph => ?_⟩
    · exact h.tokens.owned job u ((owns_outside he _ _).1 ho)
    · exact h.tokens.job ((owns_outside he _ _).1 ho) ((owns_outside he _ _).1 ho')
    · exact h.tokens.token ((owns_outside he _ _).1 ho) ((owns_outside he _ _).1 ho')
    · obtain ⟨hs, ho, hr⟩ := h.tokens.answering u r hph
      exact ⟨hs, ho, fun job => (owns_outside he _ _).trans (hr job)⟩

end Calls

/-! ## The actor -/

section Acts

variable {τ : List Event} {x x' : Sys} {a a' : OutboundActor} {e : Event}

/-- No job is on hand and no reply is due. -/
def Phase.Resting (p : Phase) : Prop := p.undelivered = [] ∧ ∀ t r, p ≠ .answering t r

theorem Phase.Resting.answers {p : Phase} (h : p.Resting) (job : JobId) : p.answers job = false := by
  unfold Phase.answers
  split
  · exact absurd rfl (h.2 _ _)
  · rfl

theorem Phase.Resting.owes {p : Phase} (h : p.Resting) (job : JobId) : p.owes job = 0 := by
  rw [Phase.owes, h.1]
  rfl

theorem resting_afterCommand (p : Phase) : p.afterCommand.Resting := by
  cases p <;> exact ⟨rfl, nofun⟩

theorem resting_receives {p : Phase} (h : p.receives = true) : p.Resting ∧ p ≠ .closing := by
  cases p with
  | draining | selecting => exact ⟨⟨rfl, nofun⟩, nofun⟩
  | _ => cases h

/-- The actor touches acquires whose command it has taken, and moves none of
them. -/
theorem Tokens.acts (h : Tokens τ x a) (he : ∀ job t r, e ≠ .accepted job t r)
    (hi : x'.ingress = x.ingress) (hn : x'.nextToken = x.nextToken)
    (hc : ∀ u, x'.clients u = x.clients u ∨ x.Spent u ∧ (x'.clients u).stage = (x.clients u).stage)
    (hj : a'.scheduler.nextJobId = a.scheduler.nextJobId) (hp : ∀ t r, a'.phase ≠ .answering t r) :
    Tokens (e :: τ) x' a' := by
  have hstage (u : Token) : (x'.clients u).stage = (x.clients u).stage := by
    rcases hc u with hu | ⟨-, hu⟩
    · rw [hu]
    · exact hu
  have hsame {u : Token} (hu : ¬ x.Spent u) : x'.clients u = x.clients u :=
    (hc u).resolve_right fun hs => hu hs.1
  have hspent {u : Token} (hs : x.Spent u) : x'.Spent u := by
    refine ⟨hn ▸ hs.1, hi ▸ hs.2.1, fun r => ?_⟩
    rw [hstage]
    exact hs.2.2 r
  refine ⟨fun u hu => ?_, fun u r hu => ?_, hi ▸ h.nodup, fun c hm => ?_, fun job u ho => ?_, fun ho ho' => ?_,
    fun ho ho' => ?_, fun u r hph => absurd hph (hp u r)⟩
  · rw [hn] at hu
    rw [hsame fun hs => Nat.not_lt.2 hu hs.1]
    exact h.unborn u hu
  · rw [hstage] at hu
    rw [hsame fun hs => hs.2.2 r hu]
    exact h.minted u r hu
  · rw [hi] at hm
    rw [hsame fun hs => hs.2.1 c hm rfl]
    exact h.queued c hm
  · have := h.owned job u ((owns_cons he _ _).1 ho)
    exact ⟨hspent this.1, hj ▸ this.2⟩
  · exact h.job ((owns_cons he _ _).1 ho) ((owns_cons he _ _).1 ho')
  · exact h.token ((owns_cons he _ _).1 ho) ((owns_cons he _ _).1 ho')

/-- The scheduler keeps its ids, no mapping changes and the loop goes on. -/
theorem Inv.rests {s : SchedulerState} {p : Phase} {lifecycle : List OutboundCommand} (h : Inv τ x a)
    (he : e.outside) (hs : SchedulerState.KeepsIds a.scheduler s) (hb : Books s x.clock)
    (hp : a.phase.Resting) (hp' : p.Resting) (hnd : ∀ gs t, p ≠ .delivering gs t)
    (hcl : p ≠ .closing → a.phase ≠ .closing) (hsub : ∀ c ∈ lifecycle, c ∈ x.lifecycle)
    (hcount : ∀ job, lifecycle.countP (·.completes job) = x.lifecycle.countP (·.completes job))
    (hcancel : ∀ job t, a.jobTokens.lookup job = some t → .cancel t ∈ x.lifecycle → .cancel t ∈ lifecycle) :
    Inv (e :: τ) { x with actor := some { a with scheduler := s, phase := p }, lifecycle := lifecycle }
      { a with scheduler := s, phase := p } := by
  refine ⟨⟨hb, fun gs t hd => absurd hd (hnd gs t)⟩, ?_, ?_, ?_, ?_, ?_, ?_⟩
  · exact h.tokens.acts he.1 rfl rfl (fun u => Or.inl rfl) hs.nextJobId hp'.2
  · refine ⟨(h.maps.outside he).job, h.maps.token, fun job hn => h.maps.known job ?_⟩
    rcases hn with hn | ⟨g, hg, -⟩
    · exact Or.inl (hs.live ▸ hn)
    · replace hg : g ∈ p.undelivered := hg
      rw [hp'.1] at hg
      cases hg
  · exact fun job t hw => ⟨(owns_outside he _ _).2 (h.waits job t hw).1, (h.waits job t hw).2⟩
  · refine ⟨fun job => ?_, fun t q hq => ?_, fun t q hq => ?_, fun job c t o ob ack hm => ?_⟩
    · have := h.balanced.balance job
      rw [hp.owes] at this
      show x.permits job + lifecycle.countP (·.completes job) + p.owes job = _
      rw [hp'.owes, hcount, hs.inFlight]
      exact this
    · exact ⟨(h.balanced.held t q hq).1, (owns_outside he _ _).2 (h.balanced.held t q hq).2⟩
    · exact ⟨(h.balanced.buffered t q hq).1, (owns_outside he _ _).2 (h.balanced.buffered t q hq).2⟩
    · exact (owns_outside he _ _).2 (h.balanced.completing job c t o ob ack (hsub _ hm))
  · intro hpc job t hl hj
    have ha := h.served (hcl hpc) job t (hs.live ▸ hl) hj
    refine ⟨ha.1, ha.2.imp (fun hx => ⟨hx.1, hx.2.imp id fun hy => ⟨hy.1, Or.inr ?_⟩⟩)
      fun hx => ⟨hx.1, hx.2.imp id fun hy => ⟨hy.1, hcancel job t hj hy.2⟩⟩⟩
    rcases hy.2 with ⟨-, hans⟩ | hv
    · exact absurd hans (hp.2 _ _)
    · exact hv
  · have ho := h.once.outside he
    refine ⟨fun job => ?_, fun job hj => ?_⟩
    · have := ho.once job
      rw [hp.answers] at this
      show _ + _ + (if p.answers job then 1 else 0) ≤ 1
      rw [hp'.answers]
      exact this
    · have := ho.fresh job (hs.nextJobId ▸ hj)
      exact ⟨this.1, this.2.1, hp'.answers job⟩

/-- A job is over: it leaves the maps, and its acquire is not moved. -/
theorem Inv.forgets {k : JobId} (h : Inv τ x a) (he : e.outside)
    (hlive : ∀ id, a'.scheduler.live id = true → id ≠ k ∧ a.scheduler.live id = true)
    (hn : a'.scheduler.nextJobId = a.scheduler.nextJobId) (hb : Books a'.scheduler x'.clock)
    (hp' : a'.phase.Resting) (hnd : ∀ gs t, a'.phase ≠ .delivering gs t)
    (hans : ∀ t r, a.phase = .answering t r → r = .ok k) (hcl : a.phase ≠ .closing)
    (hjob : ∀ j, a'.jobTokens.lookup j = if j = k then none else a.jobTokens.lookup j)
    (hpending : ∀ t, a'.pendingTokens.lookup t =
      if a.jobTokens.lookup k = some t then none else a.pendingTokens.lookup t)
    (hstates : ∀ t, a'.tokenStates.lookup t =
      if a.jobTokens.lookup k = some t then none else a.tokenStates.lookup t)
    (hi : x'.ingress = x.ingress) (hnt : x'.nextToken = x.nextToken)
    (hc : ∀ u, x'.clients u = x.clients u ∨ Owns τ k u ∧ (x'.clients u).stage = (x.clients u).stage)
    (hw : ∀ j t, a'.waiters.lookup j = some t → a.waiters.lookup j = some t ∧ (x'.clients t).granted.Open)
    (hbal : Balanced (e :: τ) x' a')
    (hcancel : ∀ t, ¬ Owns τ k t → .cancel t ∈ x.lifecycle → .cancel t ∈ x'.lifecycle) :
    Inv (e :: τ) x' a' := by
  have hmapped {j : JobId} {t : Token} (hj : a'.jobTokens.lookup j = some t) :
      j ≠ k ∧ a.jobTokens.lookup j = some t := by
    rw [hjob] at hj
    split at hj
    · cases hj
    · exact ⟨‹_›, hj⟩
  have hapart {j : JobId} {t : Token} (hne : j ≠ k) (hj : a.jobTokens.lookup j = some t) :
      a.jobTokens.lookup k ≠ some t := by
    intro hjt
    exact hne (h.tokens.job (h.maps.job j t hj).1 (h.maps.job k t hjt).1)
  refine ⟨⟨hb, fun gs t hd => absurd hd (hnd gs t)⟩, ?_, ⟨fun j t hj => ?_, fun t j hj => ?_, fun j hnj => ?_⟩,
    fun j t hwj => ?_, hbal, fun _ j t hl hj => ?_, ⟨fun j => ?_, fun j hj => ?_⟩⟩
  · exact h.tokens.acts he.1 hi hnt (fun u => (hc u).imp id fun hu => ⟨(h.tokens.owned k u hu.1).1, hu.2⟩) hn hp'.2
  · obtain ⟨hne, hj⟩ := hmapped hj
    obtain ⟨h1, h2, h3⟩ := h.maps.job j t hj
    refine ⟨(owns_outside he _ _).2 h1, ?_, ?_⟩
    · rw [hpending, if_neg (hapart hne hj)]
      exact h2
    · rw [hstates, if_neg (hapart hne hj)]
      exact h3
  · rw [hpending] at hj
    split at hj
    · cases hj
    · rename_i hne
      have hold := h.maps.token t j hj
      rw [hjob, if_neg (by rintro rfl; exact hne hold)]
      exact hold
  · rcases hnj with hl | ⟨g, hg, -⟩
    · obtain ⟨hne, hl⟩ := hlive j hl
      rw [hjob, if_neg hne]
      exact h.maps.known j (Or.inl hl)
    · rw [hp'.1] at hg
      cases hg
  · obtain ⟨hold, hopen⟩ := hw j t hwj
    exact ⟨(owns_outside he _ _).2 (h.waits j t hold).1, hopen⟩
  · obtain ⟨hne, hl⟩ := hlive j hl
    obtain ⟨-, hj⟩ := hmapped hj
    have hown := (h.maps.job j t hj).1
    have hnot : ¬ Owns τ k t := fun ho => hne (h.tokens.job hown ho)
    have ha := h.served hcl j t hl hj
    rw [(hc t).resolve_right fun hu => hnot hu.1]
    refine ⟨ha.1, ha.2.imp (fun hx => ⟨hx.1, hx.2.imp id fun hy => ⟨hy.1, Or.inr ?_⟩⟩)
      fun hx => ⟨hx.1, hx.2.imp id fun hy => ⟨hy.1, hcancel t hnot hy.2⟩⟩⟩
    rcases hy.2 with ⟨-, hph⟩ | hv
    · cases hans _ _ hph
      exact absurd rfl hne
    · exact hv
  · have hold := (h.once.outside he).once j
    rw [hp'.answers]
    have hle : (if a'.waiters.contains j then 1 else 0) ≤ if a.waiters.contains j then 1 else 0 := by
      by_cases hc' : a'.waiters.contains j = true
      · obtain ⟨t, ht⟩ := (Table.contains_iff _ _).1 hc'
        have : a.waiters.contains j = true := (Table.contains_iff _ _).2 ⟨t, (hw j t ht).1⟩
        rw [this, if_pos rfl]
        split <;> omega
      · rw [if_neg hc']
        exact Nat.zero_le _
    simp only [Bool.false_eq_true, if_false]
    omega
  · obtain ⟨h1, h2, -⟩ := (h.once.outside he).fresh j (hn ▸ hj)
    refine ⟨h1, ?_, hp'.answers j⟩
    cases hwj : a'.waiters.lookup j with
    | none => rfl
    | some t =>
      rw [(hw j t hwj).1] at h2
      cases h2

/-! ### Commands -/

/-- `self.waiters.remove` takes the sender of the job's own acquire. -/
theorem dropWaiter_cases (a : OutboundActor) (clients : Clients) (job : JobId) :
    ∃ waiters, (a.dropWaiter clients job).1 = { a with waiters := waiters } ∧
      (∀ j t, waiters.lookup j = some t → j ≠ job ∧ a.waiters.lookup j = some t) ∧
      ∀ u, (a.dropWaiter clients job).2 u = clients u ∨ a.waiters.lookup job = some u ∧
        (a.dropWaiter clients job).2 u = { clients u with granted := (clients u).granted.dropSender } := by
  unfold OutboundActor.dropWaiter
  cases hw : a.waiters.lookup job with
  | none =>
    refine ⟨a.waiters, rfl, fun j t hj => ⟨?_, hj⟩, fun u => Or.inl rfl⟩
    rintro rfl
    rw [hw] at hj
    cases hj
  | some t =>
    refine ⟨a.waiters.erase job, rfl, fun j u hj => ?_, fun u => ?_⟩
    · rw [Table.lookup_erase_if] at hj
      split at hj
      · cases hj
      · exact ⟨‹_›, hj⟩
    · by_cases hu : u = t
      · subst hu
        exact Or.inr ⟨rfl, Clients.dropGranted_same _ _⟩
      · exact Or.inl (Clients.dropGranted_other _ hu)

/-- A change of the acquires that leaves the permits where they are. -/
theorem Balanced.acts (h : Balanced τ x a) (he : e.outside) (hn : x'.nextToken = x.nextToken)
    (hstage : ∀ u, (x'.clients u).stage = (x.clients u).stage)
    (hvalue : ∀ u, (x'.clients u).granted.value = (x.clients u).granted.value)
    (hsub : ∀ c ∈ x'.lifecycle, c ∈ x.lifecycle)
    (hbal : ∀ job, x.permits job + x'.completions job + a'.phase.owes job =
      if a'.scheduler.inFlight.contains job then 1 else 0) : Balanced (e :: τ) x' a' := by
  refine ⟨fun job => ?_, fun t q hq => ?_, fun t q hq => ?_, fun job c t o ob ack hm => ?_⟩
  · have hp : x'.permits job = x.permits job := by
      unfold Sys.permits Client.carries
      simp only [hn, hstage, hvalue]
    rw [hp]
    exact hbal job
  · rw [hstage] at hq
    exact ⟨(h.held t q hq).1, (owns_outside he _ _).2 (h.held t q hq).2⟩
  · rw [hvalue] at hq
    exact ⟨(h.buffered t q hq).1, (owns_outside he _ _).2 (h.buffered t q hq).2⟩
  · exact (owns_outside he _ _).2 (h.completing job c t o ob ack (hsub _ hm))

theorem Inv.cancels {token : Token} {rest : List OutboundCommand} {p : Phase} (h : Inv τ x a)
    (hl : x.lifecycle = .cancel token :: rest) (hp : a.phase.Resting) (hcl : a.phase ≠ .closing)
    (hp' : p.Resting) (hnd : ∀ gs t, p ≠ .delivering gs t) :
    Inv (.quiet :: τ)
      (Sys.put { x with lifecycle := rest }
        ({ (a.handleCancel x.clients token x.clock).1 with phase := p }, (a.handleCancel x.clients token x.clock).2))
      { (a.handleCancel x.clients token x.clock).1 with phase := p } := by
  have he : Event.quiet.outside := ⟨nofun, nofun⟩
  unfold OutboundActor.handleCancel
  cases hpt : a.pendingTokens.lookup token with
  | none =>
    dsimp only
    refine h.rests (s := a.scheduler) he ⟨rfl, rfl, rfl⟩ h.clocked.books hp hp' hnd (fun _ => hcl)
      (fun c hc => hl ▸ List.mem_cons_of_mem _ hc) (fun job => ?_) fun job t hj hm => ?_
    · rw [hl, List.countP_cons]
      rfl
    · rw [hl] at hm
      rcases List.mem_cons.1 hm with hm | hm
      · cases hm
        rw [(h.maps.job job token hj).2.1] at hpt
        cases hpt
      · exact hm
  | some job =>
    dsimp only
    have hjt : a.jobTokens.lookup job = some token := h.maps.token token job hpt
    have hown : Owns τ job token := (h.maps.job job token hjt).1
    obtain ⟨waiters, hd, hwaiters, hdropped⟩ :=
      dropWaiter_cases { a with pendingTokens := a.pendingTokens.erase token } x.clients job
    rw [hd]
    generalize hcl' : (OutboundActor.dropWaiter { a with pendingTokens := a.pendingTokens.erase token }
      x.clients job).2 = clients at hdropped
    obtain ⟨hlive, hflight, hnext⟩ := a.scheduler.cancel_ids job x.clock
    have hf := OutboundActor.forgetJob_forgets
      { a with
        pendingTokens := a.pendingTokens.erase token
        waiters := waiters
        scheduler := a.scheduler.cancel job x.clock } clients job
    have hdropped' (u : Token) : clients u = x.clients u ∨ Owns τ job u ∧
        clients u = { x.clients u with granted := (x.clients u).granted.dropSender } :=
      (hdropped u).imp id fun hu => ⟨(h.waits job u hu.1).1, hu.2⟩
    have hforgot (u : Token) := hf.clients u
    generalize OutboundActor.forgetJob _ clients job = r at hf hforgot
    have hchanged (u : Token) : r.2 u = x.clients u ∨ Owns τ job u ∧ (r.2 u).stage = (x.clients u).stage ∧
        (r.2 u).granted.value = (x.clients u).granted.value := by
      rcases hforgot u with hu | ⟨hj, hu⟩
      · rw [hu]
        exact (hdropped' u).imp id fun h' => ⟨h'.1, by rw [h'.2]; exact ⟨rfl, rfl⟩⟩
      · rw [hu]
        refine Or.inr ⟨(h.maps.job job u hj).1, ?_⟩
        rcases hdropped' u with h' | ⟨-, h'⟩ <;> rw [h'] <;> exact ⟨rfl, rfl⟩
    refine h.forgets (k := job) he (fun id hid => ?_) (by rw [hf.scheduler]; exact hnext) ?_ hp' hnd
      (fun t r' hph => absurd hph (hp.2 t r')) hcl hf.jobTokens (fun t => ?_) (fun t => hf.tokenStates t) rfl rfl
      (fun u => (hchanged u).imp id fun hu => ⟨hu.1, hu.2.1⟩) (fun j t hw => ?_) ?_ (fun t hnot hm => ?_)
    · rw [hf.scheduler] at hid
      exact (hlive id).1 hid
    · rw [hf.scheduler]
      exact h.clocked.books.call (a := .cancel job x.clock) (Nat.le_refl _) rfl
    · rw [hf.pendingTokens]
      dsimp only
      split
      · rfl
      · rename_i hne
        rw [Table.lookup_erase_if, if_neg]
        rintro rfl
        exact hne hjt
    · replace hw : r.1.waiters.lookup j = some t := hw
      rw [hf.waiters] at hw
      obtain ⟨hne, hw⟩ := hwaiters j t hw
      refine ⟨hw, ?_⟩
      have hnot : ¬ Owns τ job t := fun ho => hne (h.tokens.job (h.waits j t hw).1 ho)
      show (r.2 t).granted.Open
      rw [(hchanged t).resolve_right fun hu => hnot hu.1]
      exact (h.waits j t hw).2
    · refine h.balanced.acts he rfl (fun u => ?_) (fun u => ?_) (fun c hc => hl ▸ List.mem_cons_of_mem _ hc)
        fun j => ?_
      · rcases hchanged u with hu | ⟨-, hu, -⟩
        · exact congrArg Client.stage hu
        · exact hu
      · rcases hchanged u with hu | ⟨-, -, hu⟩
        · exact congrArg (fun c => c.granted.value) hu
        · exact hu
      · have := h.balanced.balance j
        rw [hp.owes] at this
        have hcount : x.completions j = rest.countP (·.completes j) := by
          rw [Sys.completions, hl, List.countP_cons]
          rfl
        show x.permits j + rest.countP (·.completes j) + p.owes j = if r.1.scheduler.inFlight.contains j then 1 else 0
        rw [hp'.owes, hf.scheduler, ← hcount]
        dsimp only
        rw [hflight]
        exact this
    · rw [hl] at hm
      rcases List.mem_cons.1 hm with hm | hm
      · cases hm
        exact absurd hown hnot
      · exact hm

theorem Inv.applies {job : JobId} {c : Option OutboundCorrelationId} {token : Token}
    {outcome : OutboundCompletion} {observedAt : Nat} {ack : Bool} {rest : List OutboundCommand} {p : Phase}
    (h : Inv τ x a) (hl : x.lifecycle = .complete job c token outcome observedAt ack :: rest)
    (hp : a.phase.Resting) (hcl : a.phase ≠ .closing) (hp' : p.Resting) (hnd : ∀ gs t, p ≠ .delivering gs t) :
    Inv (.applied job outcome observedAt :: τ)
      (Sys.put { x with lifecycle := rest }
        ({ (a.handleComplete x.clients job token outcome observedAt x.clock).1 with phase := p },
          (a.handleComplete x.clients job token outcome observedAt x.clock).2))
      { (a.handleComplete x.clients job token outcome observedAt x.clock).1 with phase := p } := by
  have he : (Event.applied job outcome observedAt).outside := ⟨nofun, nofun⟩
  have hown : Owns τ job token := h.balanced.completing job c token outcome observedAt ack (hl ▸ List.mem_cons_self)
  obtain ⟨hlive, hflight, hnext⟩ := a.scheduler.complete_ids job outcome x.clock observedAt
  have hcount (j : JobId) : x.completions j = rest.countP (·.completes j) + if job = j then 1 else 0 := by
    rw [Sys.completions, hl, List.countP_cons]
    simp only [OutboundCommand.completes, beq_iff_eq]
  have hin : a.scheduler.inFlight.contains job = true := by
    have := h.balanced.balance job
    rw [hcount, if_pos rfl] at this
    split at this
    · assumption
    · omega
  unfold OutboundActor.handleComplete
  have hf := OutboundActor.forgetJob_forgets { a with scheduler := a.scheduler.complete job outcome x.clock observedAt }
    (x.clients.store token .terminal) job
  generalize OutboundActor.forgetJob _ (x.clients.store token .terminal) job = r at hf
  have hchanged (u : Token) : r.2 u = x.clients u ∨ Owns τ job u ∧ (r.2 u).stage = (x.clients u).stage ∧
      (r.2 u).granted = (x.clients u).granted := by
    have hstored : x.clients.store token .terminal u = x.clients u ∨
        u = token ∧ x.clients.store token .terminal u = { x.clients u with tokenState := .terminal } := by
      by_cases hu : u = token
      · subst hu
        exact Or.inr ⟨rfl, Clients.store_same _ _ _⟩
      · exact Or.inl (Clients.store_other _ _ hu)
    rcases hf.clients u with hu | ⟨hj, hu⟩
    · rw [hu]
      rcases hstored with h' | ⟨rfl, h'⟩
      · exact Or.inl h'
      · rw [h']
        exact Or.inr ⟨hown, rfl, rfl⟩
    · rw [hu]
      refine Or.inr ⟨(h.maps.job job u hj).1, ?_⟩
      rcases hstored with h' | ⟨-, h'⟩ <;> rw [h'] <;> exact ⟨rfl, rfl⟩
  refine h.forgets (k := job) he (fun id hid => ?_) (by rw [hf.scheduler]; exact hnext) ?_ hp' hnd
    (fun t r' hph => absurd hph (hp.2 t r')) hcl hf.jobTokens hf.pendingTokens hf.tokenStates rfl rfl
    (fun u => (hchanged u).imp id fun hu => ⟨hu.1, hu.2.1⟩) (fun j t hw => ?_) ?_ (fun t hnot hm => ?_)
  · replace hid : r.1.scheduler.live id = true := hid
    rw [hf.scheduler] at hid
    dsimp only at hid
    rw [hlive] at hid
    refine ⟨?_, hid⟩
    rintro rfl
    rw [h.clocked.books.apart hid] at hin
    cases hin
  · show Books r.1.scheduler x.clock
    rw [hf.scheduler]
    exact h.clocked.books.call (a := .complete job outcome x.clock observedAt) (Nat.le_refl _) rfl
  · replace hw : r.1.waiters.lookup j = some t := hw
    rw [hf.waiters] at hw
    refine ⟨hw, ?_⟩
    show (r.2 t).granted.Open
    rcases hchanged t with hu | ⟨-, -, hu⟩ <;> rw [hu] <;> exact (h.waits j t hw).2
  · refine h.balanced.acts he rfl (fun u => ?_) (fun u => ?_) (fun c hc => hl ▸ List.mem_cons_of_mem _ hc)
      fun j => ?_
    · show (r.2 u).stage = _
      rcases hchanged u with hu | ⟨-, hu, -⟩
      · rw [hu]
      · exact hu
    · show (r.2 u).granted.value = _
      rcases hchanged u with hu | ⟨-, -, hu⟩ <;> rw [hu]
    · have := h.balanced.balance j
      rw [hp.owes, hcount] at this
      show x.permits j + rest.countP (·.completes j) + p.owes j = if r.1.scheduler.inFlight.contains j then 1 else 0
      rw [hp'.owes, hf.scheduler]
      dsimp only
      by_cases hj : job = j
      · subst hj
        rw [if_pos rfl, hin, if_pos rfl] at this
        rw [if_neg fun hc => ((hflight job).1 hc).1 rfl]
        omega
      · rw [if_neg hj] at this
        have hsame : ((a.scheduler.complete job outcome x.clock observedAt).inFlight.contains j = true) ↔
            a.scheduler.inFlight.contains j = true :=
          (hflight j).trans (and_iff_right (Ne.symm hj))
        simp only [hsame]
        omega
  · rw [hl] at hm
    rcases List.mem_cons.1 hm with hm | hm
    · cases hm
    · exact hm

/-- A command that leaves the ids of the scheduler alone. -/
theorem Inv.keeps {s : SchedulerState} {command : OutboundCommand} {rest : List OutboundCommand} {p : Phase}
    (h : Inv τ x a) (hl : x.lifecycle = command :: rest) (he : e.outside)
    (hs : SchedulerState.KeepsIds a.scheduler s) (hb : Books s x.clock) (hp : a.phase.Resting)
    (hcl : a.phase ≠ .closing) (hp' : p.Resting) (hnd : ∀ gs t, p ≠ .delivering gs t)
    (hcount : ∀ job, command.completes job = false) (hcancel : ∀ t, command ≠ .cancel t) :
    Inv (e :: τ) (Sys.put { x with lifecycle := rest } ({ a with scheduler := s, phase := p }, x.clients))
      { a with scheduler := s, phase := p } := by
  refine h.rests he hs hb hp hp' hnd (fun _ => hcl) (fun c hc => hl ▸ List.mem_cons_of_mem _ hc) (fun job => ?_)
    fun job t _ hm => ?_
  · rw [hl, List.countP_cons, hcount]
    rfl
  · rw [hl] at hm
    rcases List.mem_cons.1 hm with hm | hm
    · exact absurd hm.symm (hcancel t)
    · exact hm

theorem Inv.receives {order : List CandidateRef} (h : Inv τ x a)
    (hr : x.receive a order x.clock = some (x', e)) : ∃ a', x'.actor = some a' ∧ Inv (e :: τ) x' a' := by
  unfold Sys.receive at hr
  split at hr
  · rename_i hmay
    obtain ⟨hp, hcl⟩ := resting_receives hmay
    have hafter := resting_afterCommand a.phase
    have hnd : ∀ gs t, a.phase.afterCommand ≠ .delivering gs t := by cases a.phase <;> exact nofun
    split at hr
    · cases hr
    · rename_i rest hl
      cases hr
      exact ⟨_, rfl, h.keeps hl ⟨nofun, nofun⟩ ⟨rfl, rfl, rfl⟩ h.clocked.books hp hcl ⟨rfl, nofun⟩ nofun
        (fun _ => rfl) nofun⟩
    · rename_i command rest hshutdown hl
      rw [Option.map_eq_some_iff] at hr
      obtain ⟨r, hr, hx⟩ := hr
      cases hx
      have hbooks {o : Outbound.Action} {s : SchedulerState} {ev : Outbound.Event}
          (hn : o.now = x.clock) (hc : a.scheduler.call o = some (s, ev)) : Books s x.clock := by
        have := h.clocked.books.call (Nat.le_of_eq hn.symm) hc
        rwa [hn] at this
      refine ⟨_, rfl, ?_⟩
      cases command with
      | cancel token =>
        cases hr
        exact h.cancels hl hp hcl hafter hnd
      | start job c =>
        cases hr
        exact h.keeps hl ⟨nofun, nofun⟩ (a.scheduler.start_ids job x.clock)
          (hbooks (o := .start job x.clock) rfl rfl) hp hcl hafter hnd (fun _ => rfl) nofun
      | complete job c token outcome observedAt ack =>
        cases hr
        exact h.applies hl hp hcl hafter hnd
      | penalize scope duration =>
        simp only [OutboundActor.handleCommand] at hr
        split at hr
        · cases hr
          exact h.keeps hl ⟨nofun, nofun⟩ ⟨rfl, rfl, rfl⟩ h.clocked.books hp hcl hafter hnd (fun _ => rfl) nofun
        · cases hr
          exact h.keeps hl ⟨nofun, nofun⟩ ⟨rfl, rfl, rfl⟩
            (hbooks (o := .penalize scope (x.clock + duration) x.clock) rfl rfl) hp hcl hafter hnd
            (fun _ => rfl) nofun
      | setLimits limits =>
        simp only [OutboundActor.handleCommand] at hr
        split at hr
        · rename_i horder
          cases hr
          exact h.keeps hl ⟨nofun, nofun⟩ (a.scheduler.setLimits_stays limits order x.clock).keepsIds
            (hbooks (o := .setLimits limits order x.clock) rfl (if_pos horder)) hp hcl hafter hnd
            (fun _ => rfl) nofun
        · cases hr
      | setClassLimits limits =>
        simp only [OutboundActor.handleCommand] at hr
        split at hr
        · rename_i horder
          cases hr
          exact h.keeps hl ⟨nofun, nofun⟩ (a.scheduler.setClassLimits_stays limits order x.clock).keepsIds
            (hbooks (o := .setClassLimits limits order x.clock) rfl (if_pos horder)) hp hcl hafter hnd
            (fun _ => rfl) nofun
        · cases hr
      | getLimits | getClassLimits | setObserver | getSnapshot =>
        cases hr
        exact h.keeps hl ⟨nofun, nofun⟩ ⟨rfl, rfl, rfl⟩ h.clocked.books hp hcl hafter hnd (fun _ => rfl) nofun
      | shutdown => exact absurd rfl hshutdown
  · cases hr

/-! ### The loop -/

theorem Inv.parks (h : Inv τ x a) (hr : x.park a x.clock = some x') :
    ∃ a', x'.actor = some a' ∧ Inv (.quiet :: τ) x' a' := by
  unfold Sys.park at hr
  split at hr
  · rename_i t hph
    cases hr
    refine ⟨_, rfl, ?_⟩
    obtain ⟨hb, ht⟩ := h.clocked.pass _ _ hph
    have hstays : SchedulerState.Stays a.scheduler (a.scheduler.nextDeadline t).1 :=
      .of_moves (a.scheduler.nextDeadline_quiet t).toMoves
    refine h.rests ⟨nofun, nofun⟩ hstays.keepsIds ?_ (by rw [hph]; exact ⟨rfl, nofun⟩) ⟨rfl, nofun⟩ nofun
      (fun _ => by rw [hph]; nofun) (fun _ hc => hc) (fun _ => rfl) fun _ _ _ hm => hm
    exact (hb.call (a := .nextDeadline t) (Nat.le_refl _) rfl).later ht
  · cases hr

theorem Inv.wakes {p : Phase} {deadline : Nat} (h : Inv τ x a) (hph : a.phase = .selecting deadline)
    (hp : p.Resting) (hnd : ∀ gs t, p ≠ .delivering gs t) :
    Inv (.quiet :: τ) (x.put ({ a with phase := p }, x.clients)) { a with phase := p } :=
  h.rests (s := a.scheduler) ⟨nofun, nofun⟩ ⟨rfl, rfl, rfl⟩ h.clocked.books (by rw [hph]; exact ⟨rfl, nofun⟩) hp hnd
    (fun _ => by rw [hph]; nofun) (fun _ hc => hc) (fun _ => rfl) fun _ _ _ hm => hm

theorem owes_delivering {grants : List Grant} {t : Nat} (job : JobId) :
    (Phase.delivering grants t).owes job = (grants.map (·.job)).count job := by
  rw [Phase.owes, Phase.undelivered, List.count, List.countP_map]
  rfl

/-- The jobs of a pass are in flight, and the actor owes each a permit. -/
theorem Inv.admits {order : List WindowRef} {fuel : Nat} (h : Inv τ x a)
    (hr : x.runAdmission a order fuel x.clock = some (x', e)) : ∃ a', x'.actor = some a' ∧ Inv (e :: τ) x' a' := by
  unfold Sys.runAdmission at hr
  split at hr
  · rename_i n hph
    split at hr
    · cases hr
    · rw [Option.map_eq_some_iff] at hr
      obtain ⟨⟨s, gs⟩, hg, hx⟩ := hr
      cases hx
      have he : (Event.admitted gs x.clock).outside := ⟨nofun, nofun⟩
      have hids := SchedulerState.grantReady_ids hg
      have hb := h.clocked.books.grantReady (Nat.le_refl _) hg
      have hrest : a.phase.Resting := by rw [hph]; exact ⟨rfl, nofun⟩
      have hcl : a.phase ≠ .closing := by rw [hph]; nofun
      refine ⟨_, rfl, ⟨hb, fun _ _ hd => ?_⟩, h.tokens.acts he.1 rfl rfl (fun _ => Or.inl rfl) hids.nextJobId nofun,
        ⟨(h.maps.outside he).job, h.maps.token, fun job hn => h.maps.known job (Or.inl ?_)⟩,
        fun job t hw => ⟨(owns_outside he _ _).2 (h.waits job t hw).1, (h.waits job t hw).2⟩, ?_,
        fun _ job t hl hj => ?_, ?_⟩
      · cases hd
        exact ⟨hb, Nat.le_refl _⟩
      · rcases hn with hl | ⟨g, hm, rfl⟩
        · exact ((hids.live job).1 hl).2
        · exact hids.pending _ (List.mem_map.2 ⟨g, hm, rfl⟩)
      · refine h.balanced.acts he rfl (fun _ => rfl) (fun _ => rfl) (fun _ hc => hc) fun job => ?_
        have hbal := h.balanced.balance job
        rw [hrest.owes] at hbal
        rw [owes_delivering]
        show _ = if s.inFlight.contains job then 1 else 0
        by_cases hm : job ∈ gs.map (·.job)
        · rw [List.count_eq_one_of_mem hids.nodup hm, if_pos ((hids.inFlight job).2 (Or.inl hm))]
          rw [h.clocked.books.apart (hids.pending job hm)] at hbal
          simp only [Bool.false_eq_true, if_false] at hbal
          show x.permits job + x.completions job + 1 = 1
          omega
        · rw [List.count_eq_zero_of_not_mem hm]
          have hsame : (s.inFlight.contains job = true) ↔ a.scheduler.inFlight.contains job = true :=
            (hids.inFlight job).trans (or_iff_right hm)
          simp only [hsame]
          exact hbal
      · have ha := h.served hcl job t ((hids.live job).1 hl).2 hj
        refine ⟨ha.1, ha.2.imp (fun hx => ⟨hx.1, hx.2.imp id fun hy => ⟨hy.1, Or.inr ?_⟩⟩) id⟩
        rcases hy.2 with ⟨-, hans⟩ | hv
        · rw [hph] at hans
          cases hans
        · exact hv
      · have ho := h.once.outside he
        refine ⟨fun job => ?_, fun job hj => ?_⟩
        · have := ho.once job
          rw [hrest.answers] at this
          exact this
        · have := ho.fresh job (hids.nextJobId ▸ hj)
          exact ⟨this.1, this.2.1, rfl⟩
  · cases hr

/-! ### Telling a waiter -/

/-- After a waiter was told, or was gone, it is no waiter any more; the others
wait as before. -/
theorem waiters_after {job : JobId} {result : AcquireResult} {clients : Clients}
    {r : OutboundActor × Clients × Option JobId} (ht : a.Tells clients job result r) :
    (∃ waiters, r.1 = { a with waiters := waiters }) ∧
      (∀ j, r.1.waiters.lookup j = if j = job then none else a.waiters.lookup j) ∧
      ∀ u, r.2.1 u = clients u ∨ a.waiters.lookup job = some u ∧ (r.2.1 u).stage = (clients u).stage ∧
        (r.2.1 u).granted.value = if r.2.2 = some job then some result else (clients u).granted.value := by
  cases ht with
  | nobody hw =>
    refine ⟨⟨a.waiters, rfl⟩, fun j => ?_, fun u => Or.inl rfl⟩
    split
    · rename_i hj
      rw [hj]
      exact hw
    · rfl
  | @sent t hw =>
    refine ⟨⟨a.waiters.erase job, rfl⟩, fun j => Table.lookup_erase_if _ _ _, fun u => ?_⟩
    by_cases hu : u = t
    · subst hu
      refine Or.inr ⟨hw, ?_⟩
      dsimp only
      rw [Clients.modify_same, if_pos rfl]
      exact ⟨rfl, rfl⟩
    · refine Or.inl ?_
      dsimp only
      exact Clients.modify_other _ _ hu
  | @lost t hw =>
    refine ⟨⟨a.waiters.erase job, rfl⟩, fun j => Table.lookup_erase_if _ _ _, fun u => ?_⟩
    by_cases hu : u = t
    · subst hu
      refine Or.inr ⟨hw, ?_⟩
      dsimp only
      rw [Clients.modify_same]
      exact ⟨rfl, rfl⟩
    · refine Or.inl ?_
      dsimp only
      exact Clients.modify_other _ _ hu

/-- Who is told was waiting. -/
theorem told_waits {job : JobId} {result : AcquireResult} {clients : Clients}
    {r : OutboundActor × Clients × Option JobId} (ht : a.Tells clients job result r) :
    r.2.2 = none ∨ r.2.2 = some job ∧ a.waiters.contains job = true := by
  cases ht with
  | nobody => exact Or.inl rfl
  | sent hw => exact Or.inr ⟨rfl, (Table.contains_iff _ _).2 ⟨_, hw⟩⟩
  | lost => exact Or.inl rfl

/-- A waiter is told and leaves the map. -/
theorem Once.tells {job : JobId} {v : Verdict} (h : Once τ a) (hp : ∀ j, a.phase.answers j = false)
    (hp' : ∀ j, a'.phase.answers j = false) (hn : a'.scheduler.nextJobId = a.scheduler.nextJobId)
    (hw : ∀ j, a'.waiters.lookup j = if j = job then none else a.waiters.lookup j)
    (hin : e = .delivered job v ∧ a.waiters.contains job = true ∨ e = .quiet) : Once (e :: τ) a' := by
  have hcontains (j : JobId) (hj : j ≠ job) : a'.waiters.contains j = a.waiters.contains j := by
    rw [Table.contains, Table.contains, hw, if_neg hj]
  have hgone : a'.waiters.contains job = false := by
    rw [Table.contains, hw, if_pos rfl]
    rfl
  have htold (j : JobId) (hj : j ≠ job) : told (e :: τ) j = told τ j := by
    rcases hin with ⟨rfl, -⟩ | rfl
    · exact if_neg (Ne.symm hj)
    · rfl
  have hself : (told (e :: τ) job).length ≤ (told τ job).length + if a.waiters.contains job then 1 else 0 := by
    rcases hin with ⟨rfl, hc⟩ | rfl
    · rw [told, if_pos rfl, hc]
      exact Nat.le_refl _
    · exact Nat.le_add_right _ _
  refine ⟨fun j => ?_, fun j hj => ?_⟩
  · rw [hp']
    have hold := h.once j
    rw [hp] at hold
    simp only [Bool.false_eq_true, if_false] at hold ⊢
    by_cases hj : j = job
    · subst hj
      rw [hgone]
      simp only [Bool.false_eq_true, if_false]
      omega
    · rw [htold j hj, hcontains j hj]
      exact hold
  · obtain ⟨h1, h2, -⟩ := h.fresh j (hn ▸ hj)
    have hne : e = .quiet ∨ j ≠ job := by
      rcases hin with ⟨rfl, hc⟩ | rfl
      · refine Or.inr ?_
        rintro rfl
        rw [Table.contains, h2] at hc
        cases hc
      · exact Or.inl rfl
    refine ⟨?_, ?_, hp' j⟩
    · rcases hne with rfl | hne
      · exact h1
      · rw [htold j hne]
        exact h1
    · rw [hw]
      split
      · rfl
      · exact h2

/-- The waits go on without the one that was told. -/
theorem Inv.waits_after {job : JobId} {result : AcquireResult} {r : OutboundActor × Clients × Option JobId}
    (h : Inv τ x a) (he : ∀ j t r, e ≠ .accepted j t r) (ht : a.Tells x.clients job result r)
    (hc : x'.clients = r.2.1) (hw : a'.waiters = r.1.waiters) : Waits (e :: τ) x' a' := by
  obtain ⟨-, hwaiters, hclients⟩ := waiters_after ht
  intro j t hj
  rw [hw, hwaiters] at hj
  split at hj
  · cases hj
  · rename_i hne
    obtain ⟨ho, hopen⟩ := h.waits j t hj
    refine ⟨(owns_cons he _ _).2 ho, ?_⟩
    rw [hc]
    rcases hclients t with hu | ⟨hu, -⟩
    · rw [hu]
      exact hopen
    · exact absurd (h.tokens.job ho (h.waits job t hu).1) hne

theorem Inv.closes {job : JobId} (h : Inv τ x a) (hr : x.closeWaiter a job = some (x', e)) :
    ∃ a', x'.actor = some a' ∧ Inv (e :: τ) x' a' := by
  unfold Sys.closeWaiter at hr
  split at hr
  · cases hr
  · rename_i hcond
    rw [not_or, not_not] at hcond
    have hph : a.phase = .closing := hcond.1
    have ht := a.tell_tells x.clients job .closed
    generalize a.tell x.clients job .closed = r at ht hr
    dsimp only at hr
    obtain ⟨⟨waiters, hra⟩, hwaiters, hclients⟩ := waiters_after ht
    have hphase : r.1.phase = .closing := by rw [hra]; exact hph
    have hin : e = .delivered job .closed ∧ a.waiters.contains job = true ∨ e = .quiet := by
      rcases told_waits ht with hn | ⟨hs, hc⟩
      · rw [hn] at hr
        cases hr
        exact Or.inr rfl
      · rw [hs] at hr
        cases hr
        exact Or.inl ⟨rfl, hc⟩
    have hx : x' = x.put (r.1, r.2.1) := by
      cases hr
      rfl
    subst hx
    have he : ∀ j t r, e ≠ .accepted j t r := by
      rcases hin with ⟨rfl, -⟩ | rfl <;> exact nofun
    have hsched : r.1.scheduler = a.scheduler := by rw [hra]
    have howns {j : JobId} {t : Token} (ho : Owns τ j t) : Owns (e :: τ) j t := (owns_cons he _ _).2 ho
    have hvalue (u : Token) (permit : OutboundPermit) :
        (r.2.1 u).granted.value = some (.granted permit) → (x.clients u).granted.value = some (.granted permit) := by
      intro hv
      rcases hclients u with hu | ⟨-, -, hu⟩
      · rwa [hu] at hv
      · rw [hu] at hv
        split at hv
        · cases hv
        · exact hv
    refine ⟨r.1, rfl, ⟨by rw [hsched]; exact h.clocked.books, fun gs t hd => by rw [hphase] at hd; cases hd⟩, ?_, ?_,
      h.waits_after he ht rfl rfl, ?_, fun hn => absurd hphase hn, ?_⟩
    · refine h.tokens.acts he rfl rfl (fun u => ?_) (by rw [hsched]) fun t r' hd => ?_
      · exact (hclients u).imp id fun hu => ⟨(h.tokens.owned job u (h.waits job u hu.1).1).1, hu.2.1⟩
      · rw [hphase] at hd
        cases hd
    · rw [hra]
      refine ⟨fun j t hj => ⟨howns (h.maps.job j t hj).1, (h.maps.job j t hj).2⟩, h.maps.token, fun j hn => h.maps.known j hn⟩
    · have hstage (u : Token) : (r.2.1 u).stage = (x.clients u).stage := by
        rcases hclients u with hu | ⟨-, hu, -⟩
        · rw [hu]
        · exact hu
      refine ⟨fun j => ?_, fun t q hq => ?_, fun t q hq => ?_, fun j c t o ob ack hm => ?_⟩
      · have hperm : Sys.permits (x.put (r.1, r.2.1)) j = x.permits j := by
          unfold Sys.permits Client.carries
          refine congrArg List.sum (List.map_congr_left fun u _ => ?_)
          show (r.2.1 u).stage.carries j + AcquireResult.carries j (r.2.1 u).granted.value = _
          rw [hstage]
          rcases hclients u with hu | ⟨hu, -, hv⟩
          · rw [hu]
          · rw [hv]
            split
            · rw [(h.waits job u hu).2.2]
              rfl
            · rfl
        rw [hperm, hra]
        exact h.balanced.balance j
      · replace hq : (r.2.1 t).stage = .holding q := hq
        rw [hstage] at hq
        exact ⟨(h.balanced.held t q hq).1, howns (h.balanced.held t q hq).2⟩
      · have := h.balanced.buffered t q (hvalue t q hq)
        exact ⟨this.1, howns this.2⟩
      · exact howns (h.balanced.completing j c t o ob ack hm)
    · refine h.once.tells (fun j => by rw [hph]; rfl) (fun j => by rw [hphase]; rfl) (by rw [hsched]) hwaiters hin

/-- A grant is handed out: its permit is in the channel of the waiter, or its
completion is on the way. -/
theorem Balanced.hands {g : Grant} {gs : List Grant} {t : Nat} {token : Token} {x₁ : Sys}
    {r : OutboundActor × Clients × Option JobId} (h : Inv τ x a) (he : ∀ j t r, e ≠ .accepted j t r)
    (hph : a.phase = .delivering (g :: gs) t) (hown : Owns τ g.job token)
    (ht : OutboundActor.Tells { a with phase := .delivering gs t } x.clients g.job
      (.granted ⟨g.job, token, g.correlationId, false⟩) r)
    (hx : x₁ = x.put (r.1, r.2.1) ∧ r.2.2 = some g.job ∨
      x₁ = { x.put (r.1, r.2.1) with lifecycle := x.lifecycle ++
        [.complete g.job g.correlationId token .cancelledAfterGrant x.clock false] } ∧ r.2.2 = none) :
    Balanced (e :: τ) x₁ r.1 := by
  obtain ⟨⟨waiters, hra⟩, hwaiters, hclients⟩ := waiters_after ht
  have howns {j : JobId} {u : Token} (ho : Owns τ j u) : Owns (e :: τ) j u := (owns_cons he _ _).2 ho
  have hsame : x₁.clients = r.2.1 ∧ x₁.nextToken = x.nextToken := by
    rcases hx with ⟨rfl, -⟩ | ⟨rfl, -⟩ <;> exact ⟨rfl, rfl⟩
  have hstage (u : Token) : (r.2.1 u).stage = (x.clients u).stage := by
    rcases hclients u with hu | ⟨-, hu, -⟩
    · rw [hu]
    · exact hu
  have howes (j : JobId) : a.phase.owes j = r.1.phase.owes j + if g.job = j then 1 else 0 := by
    have hr : r.1.phase = .delivering gs t := by rw [hra]
    rw [hph, hr, owes_delivering, owes_delivering, List.map_cons, List.count_cons]
    simp only [beq_iff_eq]
  have hflight : r.1.scheduler.inFlight = a.scheduler.inFlight := by rw [hra]
  have hbalance (j : JobId) : x₁.permits j + x₁.completions j =
      x.permits j + x.completions j + if g.job = j then 1 else 0 := by
    rcases hx with ⟨rfl, hs⟩ | ⟨rfl, hs⟩
    · have hcomp : Sys.completions (x.put (r.1, r.2.1)) j = x.completions j := rfl
      obtain ⟨w, hw⟩ : ∃ w, a.waiters.lookup g.job = some w := by
        rcases told_waits ht with hn | ⟨-, hc⟩
        · rw [hs] at hn
          cases hn
        · exact (Table.contains_iff _ _).1 hc
      have hupd := permits_update x (x.put (r.1, r.2.1)) rfl (h.tokens.owned _ _ (h.waits _ _ hw).1).1.1
        (fun u hu => (hclients u).resolve_right fun h' => hu (Option.some.inj (hw.symm.trans h'.1)).symm) j
      have hbefore : (x.clients w).carries j = (x.clients w).stage.carries j := by
        rw [Client.carries, (h.waits _ _ hw).2.2]
        rfl
      have hafter : (r.2.1 w).carries j = (x.clients w).stage.carries j + if g.job = j then 1 else 0 := by
        rcases hclients w with hu | ⟨-, -, hv⟩
        · cases ht with
          | nobody => cases hs
          | lost => cases hs
          | sent hw' =>
            cases hw.symm.trans hw'
            dsimp only
            rw [Clients.modify_same]
            rfl
        · rw [hs, if_pos rfl] at hv
          rw [Client.carries, hstage, hv]
          rfl
      replace hupd : Sys.permits (x.put (r.1, r.2.1)) j + _ = _ + (r.2.1 w).carries j := hupd
      rw [hbefore, hafter] at hupd
      rw [hcomp]
      omega
    · have hperm : Sys.permits { x.put (r.1, r.2.1) with lifecycle := x.lifecycle ++
          [.complete g.job g.correlationId token .cancelledAfterGrant x.clock false] } j = x.permits j := by
        unfold Sys.permits Client.carries
        refine congrArg List.sum (List.map_congr_left fun u _ => ?_)
        show (r.2.1 u).stage.carries j + AcquireResult.carries j (r.2.1 u).granted.value = _
        rw [hstage]
        rcases hclients u with hu | ⟨-, -, hv⟩
        · rw [hu]
        · rw [hv, hs, if_neg nofun]
      have hcomp : Sys.completions { x.put (r.1, r.2.1) with lifecycle := x.lifecycle ++
          [.complete g.job g.correlationId token .cancelledAfterGrant x.clock false] } j =
          x.completions j + if g.job = j then 1 else 0 := by
        show List.countP _ (x.lifecycle ++ _) = _
        rw [List.countP_append, List.countP_singleton]
        simp only [OutboundCommand.completes, beq_iff_eq]
        rfl
      rw [hperm, hcomp]
      omega
  refine ⟨fun j => ?_, fun u q hq => ?_, fun u q hq => ?_, fun j c u o ob ack hm => ?_⟩
  · have hold := h.balanced.balance j
    rw [howes] at hold
    rw [hflight, hbalance]
    omega
  · rw [hsame.1, hstage] at hq
    exact ⟨(h.balanced.held u q hq).1, howns (h.balanced.held u q hq).2⟩
  · rw [hsame.1] at hq
    rcases hclients u with hu | ⟨hu, -, hv⟩
    · rw [hu] at hq
      exact ⟨(h.balanced.buffered u q hq).1, howns (h.balanced.buffered u q hq).2⟩
    · rw [hv] at hq
      split at hq
      · cases hq
        have howner := (h.waits _ _ hu).1
        exact ⟨h.tokens.token hown howner, howns howner⟩
      · exact ⟨(h.balanced.buffered u q hq).1, howns (h.balanced.buffered u q hq).2⟩
  · rcases hx with ⟨rfl, -⟩ | ⟨rfl, -⟩
    · exact howns (h.balanced.completing j c u o ob ack hm)
    · rcases List.mem_append.1 hm with hm | hm
      · exact howns (h.balanced.completing j c u o ob ack hm)
      · cases List.mem_singleton.1 hm
        exact howns hown

theorem Inv.delivers (h : Inv τ x a) (hr : x.deliver a x.clock = some (x', e)) :
    ∃ a', x'.actor = some a' ∧ Inv (e :: τ) x' a' := by
  unfold Sys.deliver at hr
  split at hr
  · rename_i g gs t hph
    obtain ⟨token, htoken⟩ := h.maps.known g.job (Or.inr ⟨g, by rw [hph]; exact List.mem_cons_self, rfl⟩)
    obtain ⟨hown, -, hstate⟩ := h.maps.job g.job token htoken
    dsimp only at hr
    rw [htoken] at hr
    dsimp only at hr
    rw [hstate] at hr
    dsimp only at hr
    have ht := OutboundActor.tell_tells { a with phase := .delivering gs t } x.clients g.job
      (.granted ⟨g.job, token, g.correlationId, false⟩)
    generalize OutboundActor.tell { a with phase := .delivering gs t } x.clients g.job
      (.granted ⟨g.job, token, g.correlationId, false⟩) = r at ht hr
    obtain ⟨⟨waiters, hra⟩, hwaiters, hclients⟩ := waiters_after ht
    have hphase : r.1.phase = .delivering gs t := by rw [hra]
    have hsched : r.1.scheduler = a.scheduler := by rw [hra]
    -- a permit that reached nobody goes as a completion
    have hsplit : (x' = x.put (r.1, r.2.1) ∧ r.2.2 = some g.job ∧ e = .delivered g.job .granted ∧
          a.waiters.contains g.job = true) ∨
        x' = { x.put (r.1, r.2.1) with lifecycle := x.lifecycle ++
          [.complete g.job g.correlationId token .cancelledAfterGrant x.clock false] } ∧ r.2.2 = none ∧
          e = .quiet := by
      rcases told_waits ht with hn | ⟨hs, hc⟩
      · rw [hn] at hr
        cases hr
        refine Or.inr ⟨?_, hn, rfl⟩
        exact Sys.send_alive (x := x.put (r.1, r.2.1)) (a := r.1) rfl _
      · rw [hs] at hr
        cases hr
        exact Or.inl ⟨rfl, hs, rfl, hc⟩
    have hin : e = .delivered g.job .granted ∧ a.waiters.contains g.job = true ∨ e = .quiet :=
      hsplit.imp (fun h' => h'.2.2) fun h' => h'.2.2
    have he : ∀ j t r, e ≠ .accepted j t r := by
      intro j t r h
      rcases hin with ⟨rfl, -⟩ | rfl <;> cases h
    have hx : x'.actor = some r.1 ∧ x'.clients = r.2.1 ∧ x'.ingress = x.ingress ∧ x'.nextToken = x.nextToken ∧
        x'.clock = x.clock ∧ ∀ c ∈ x.lifecycle, c ∈ x'.lifecycle := by
      rcases hsplit with ⟨rfl, -⟩ | ⟨rfl, -⟩
      · exact ⟨rfl, rfl, rfl, rfl, rfl, fun _ hc => hc⟩
      · exact ⟨rfl, rfl, rfl, rfl, rfl, fun _ hc => List.mem_append.2 (Or.inl hc)⟩
    obtain ⟨hxa, hxc, hxi, hxn, hxt, hxl⟩ := hx
    have hin_flight : a.scheduler.inFlight.contains g.job = true := by
      have hb := h.balanced.balance g.job
      rw [hph, owes_delivering, List.map_cons, List.count_cons_self] at hb
      split at hb
      · assumption
      · omega
    refine ⟨r.1, hxa, ⟨?_, fun gs' t' hd => ?_⟩, ?_, ?_, ?_, ?_, ?_, ?_⟩
    · rw [hsched, hxt]
      exact h.clocked.books
    · rw [hphase] at hd
      cases hd
      rw [hsched, hxt]
      exact h.clocked.pass _ _ hph
    · refine h.tokens.acts he hxi hxn (fun u => ?_) (by rw [hsched]) fun t r' hd => ?_
      · rw [hxc]
        exact (hclients u).imp id fun hu => ⟨(h.tokens.owned _ u (h.waits _ u hu.1).1).1, hu.2.1⟩
      · rw [hphase] at hd
        cases hd
    · rw [hra]
      refine ⟨fun j t hj => ⟨(owns_cons he _ _).2 (h.maps.job j t hj).1, (h.maps.job j t hj).2⟩, h.maps.token,
        fun j hn => h.maps.known j ?_⟩
      refine hn.imp id fun hg => ?_
      obtain ⟨g', hg', hj⟩ := hg
      exact ⟨g', by rw [hph]; exact List.mem_cons_of_mem _ hg', hj⟩
    · have ht' : a.Tells x.clients g.job (.granted ⟨g.job, token, g.correlationId, false⟩)
          ({ r.1 with phase := a.phase }, r.2) := by
        cases ht with
        | nobody hw => exact .nobody hw
        | sent hw hrec => exact .sent hw hrec
        | lost hw => exact .lost hw
      exact h.waits_after he ht' hxc rfl
    · refine Balanced.hands h he hph hown ht ?_
      rcases hsplit with ⟨hx', hs, -⟩ | ⟨hx', hs, -⟩
      · exact Or.inl ⟨hx', hs⟩
      · exact Or.inr ⟨hx', hs⟩
    · intro _ j u hl hj
      replace hl : a.scheduler.live j = true := by rwa [hsched] at hl
      replace hj : a.jobTokens.lookup j = some u := by rwa [hra] at hj
      have hne : j ≠ g.job := by
        rintro rfl
        rw [h.clocked.books.apart hl] at hin_flight
        cases hin_flight
      have hclient : x'.clients u = x.clients u := by
        rw [hxc]
        refine (hclients u).resolve_right fun hu => hne ?_
        exact h.tokens.job (h.maps.job j u hj).1 (h.waits _ u hu.1).1
      have ha' := h.served (by rw [hph]; intro h; cases h) j u hl hj
      rw [hclient]
      refine ⟨ha'.1, ha'.2.imp (fun hy => ⟨hy.1, hy.2.imp id fun hz => ⟨hz.1, Or.inr ?_⟩⟩)
        fun hy => ⟨hy.1, hy.2.imp id fun hz => ⟨hz.1, hxl _ hz.2⟩⟩⟩
      rcases hz.2 with ⟨-, hans⟩ | hv
      · rw [hph] at hans
        cases hans
      · exact hv
    · exact h.once.tells (fun j => by rw [hph]; rfl) (fun j => by rw [hphase]; rfl) (by rw [hsched]) hwaiters hin
  · cases hr

/-! ### Enqueueing -/

/-- The acquire of the command at the head of the channel. -/
structure Heads (τ : List Event) (x : Sys) (token : Token) (rest : List EnqueueCommand) : Prop where
  born : token < x.nextToken
  alone : ∀ c ∈ rest, c.token ≠ token
  nodup : (rest.map (·.token)).Nodup
  unowned : ∀ job, ¬ Owns τ job token
  queued : (x.clients token).Queued
  spent : ∀ u, x.Spent u → u ≠ token
  sub : ∀ c ∈ rest, c ∈ x.ingress

theorem Tokens.heads {request : Request} {token : Token} {rest : List EnqueueCommand} (h : Tokens τ x a)
    (hi : x.ingress = ⟨request, token⟩ :: rest) : Heads τ x token rest := by
  have hmem : (⟨request, token⟩ : EnqueueCommand) ∈ x.ingress := hi ▸ List.mem_cons_self
  have hq := h.queued _ hmem
  have hnd := h.nodup
  rw [hi, List.map_cons, List.nodup_cons] at hnd
  refine ⟨?_, fun c hc hct => hnd.1 (List.mem_map.2 ⟨c, hc, hct⟩), hnd.2,
    fun job ho => (h.owned job token ho).1.2.1 _ hmem rfl, hq, fun u hu => ?_,
    fun c hc => hi ▸ List.mem_cons_of_mem _ hc⟩
  · refine Nat.lt_of_not_le fun hle => ?_
    dsimp only at hq
    rw [h.unborn token hle] at hq
    rcases hq.2.2 with ⟨-, hs⟩ | ⟨hs, -⟩ <;> cases hs
  · rintro rfl
    exact hu.2.1 _ hmem rfl

/-- What becomes of the acquires when the command is taken. -/
theorem Tokens.takes {y : Sys} {token : Token} {rest : List EnqueueCommand} (h : Tokens τ x a)
    (hh : Heads τ x token rest) (hi : y.ingress = rest) (hn : y.nextToken = x.nextToken)
    (hc : ∀ u, y.clients u = x.clients u ∨ (x.Spent u ∨ u = token) ∧ (y.clients u).stage = (x.clients u).stage) :
    (∀ t, y.nextToken ≤ t → y.clients t = .new) ∧
      (∀ t r, (y.clients t).stage = .minted r → y.clients t = { Client.new with stage := .minted r }) ∧
      (∀ c ∈ y.ingress, (y.clients c.token).Queued) ∧ (∀ u, x.Spent u → y.Spent u) ∧ y.Spent token := by
  have hstage (u : Token) : (y.clients u).stage = (x.clients u).stage := by
    rcases hc u with hu | ⟨-, hu⟩
    · rw [hu]
    · exact hu
  have hsame {u : Token} (hu : ¬ x.Spent u) (hut : u ≠ token) : y.clients u = x.clients u :=
    (hc u).resolve_right fun hs => hs.1.elim hu hut
  have hmint : ∀ r, (x.clients token).stage ≠ .minted r := by
    intro r hr
    rcases hh.queued.2.2 with ⟨-, hs⟩ | ⟨-, hs⟩
    · rw [hr] at hs; cases hs
    · rw [hr] at hs; cases hs
  refine ⟨fun u hu => ?_, fun u r hu => ?_, fun c hm => ?_, fun u hu => ⟨hn ▸ hu.1, fun c hm => ?_, fun r => ?_⟩,
    hn ▸ hh.born, fun c hm => ?_, fun r => ?_⟩
  · rw [hn] at hu
    rw [hsame (fun hs => Nat.not_lt.2 hu hs.1) (Nat.ne_of_gt (Nat.lt_of_lt_of_le hh.born hu))]
    exact h.unborn u hu
  · rw [hstage] at hu
    rw [hsame (fun hs => hs.2.2 r hu) (by rintro rfl; exact hmint r hu)]
    exact h.minted u r hu
  · rw [hi] at hm
    rw [hsame (fun hs => hs.2.1 c (hh.sub c hm) rfl) (hh.alone c hm)]
    exact h.queued c (hh.sub c hm)
  · rw [hi] at hm
    exact hu.2.1 c (hh.sub c hm)
  · rw [hstage]
    exact hu.2.2 r
  · rw [hi] at hm
    exact hh.alone c hm
  · rw [hstage]
    exact hmint r

/-- A command that leads to no job. -/
theorem Inv.takes {token : Token} {rest : List EnqueueCommand} {s : SchedulerState} {p : Phase} {c : Client}
    {timer : Nat} (h : Inv τ x a) (hh : Heads τ x token rest) (hph : a.phase = .selecting timer)
    (hs : SchedulerState.KeepsIds a.scheduler s) (hb : Books s x.clock)
    (hstage : c.stage = (x.clients token).stage) (hvalue : c.granted.value = none)
    (hp : p = .draining 0 ∨ c.granted.Open ∧ ∃ error, p = .answering token (.error error)) :
    Inv (.quiet :: τ) { x with
        actor := some { a with scheduler := s, phase := p }
        ingress := rest
        clients := x.clients.modify token fun _ => c }
      { a with scheduler := s, phase := p } := by
  have he : Event.quiet.outside := ⟨nofun, nofun⟩
  have hself : x.clients.modify token (fun _ => c) token = c := Clients.modify_same _ _ _
  have hother {u : Token} (hu : u ≠ token) : x.clients.modify token (fun _ => c) u = x.clients u :=
    Clients.modify_other _ _ hu
  have howned {job : JobId} {u : Token} (ho : Owns τ job u) : x.clients.modify token (fun _ => c) u = x.clients u :=
    hother (hh.spent u (h.tokens.owned job u ho).1)
  have hnd : ∀ gs t, p ≠ .delivering gs t := by
    rcases hp with rfl | ⟨-, error, rfl⟩ <;> exact nofun
  have howes (job : JobId) : p.owes job = 0 := by
    rcases hp with rfl | ⟨-, error, rfl⟩ <;> rfl
  have hanswers (job : JobId) : p.answers job = false := by
    rcases hp with rfl | ⟨-, error, rfl⟩ <;> rfl
  have hrest : a.phase.Resting := by rw [hph]; exact ⟨rfl, nofun⟩
  have hold (u : Token) : (x.clients.modify token (fun _ => c) u).stage = (x.clients u).stage ∧
      (x.clients.modify token (fun _ => c) u).granted.value = (x.clients u).granted.value := by
    by_cases hu : u = token
    · rw [hu, hself]
      exact ⟨hstage, hvalue.trans hh.queued.2.1.2.symm⟩
    · rw [hother hu]
      exact ⟨rfl, rfl⟩
  obtain ⟨h1, h2, h3, h4, h5⟩ := h.tokens.takes (y := { x with
        actor := some { a with scheduler := s, phase := p }
        ingress := rest
        clients := x.clients.modify token fun _ => c }) hh rfl rfl fun u => by
    by_cases hu : u = token
    · exact Or.inr ⟨Or.inr hu, (hold u).1⟩
    · exact Or.inl (hother hu)
  refine ⟨⟨hb, fun gs t hd => absurd hd (hnd gs t)⟩,
    ⟨h1, h2, hh.nodup, h3, fun job u ho => ?_, fun ho ho' => ?_, fun ho ho' => ?_, fun u r hpr => ?_⟩,
    ⟨(h.maps.outside he).job, h.maps.token, fun job hn => h.maps.known job ?_⟩, fun job u hw => ?_, ?_,
    fun _ job u hl hj => ?_, ⟨fun job => ?_, fun job hj => ?_⟩⟩
  · have := h.tokens.owned job u ((owns_outside he _ _).1 ho)
    exact ⟨h4 u this.1, hs.nextJobId ▸ this.2⟩
  · exact h.tokens.job ((owns_outside he _ _).1 ho) ((owns_outside he _ _).1 ho')
  · exact h.tokens.token ((owns_outside he _ _).1 ho) ((owns_outside he _ _).1 ho')
  · rcases hp with rfl | ⟨hopen, error, rfl⟩
    · cases hpr
    · cases hpr
      refine ⟨h5, ?_, fun job => ⟨fun ho => absurd ((owns_outside he _ _).1 ho) (hh.unowned job), nofun⟩⟩
      show (x.clients.modify token (fun _ => c) token).granted.Open
      rw [hself]
      exact hopen
  · rcases hn with hl | ⟨g, hg, -⟩
    · exact Or.inl (hs.live ▸ hl)
    · rcases hp with rfl | ⟨-, error, rfl⟩ <;> cases hg
  · obtain ⟨ho, hopen⟩ := h.waits job u hw
    refine ⟨(owns_outside he _ _).2 ho, ?_⟩
    show (x.clients.modify token (fun _ => c) u).granted.Open
    rw [howned ho]
    exact hopen
  · refine h.balanced.acts he rfl (fun u => (hold u).1) (fun u => (hold u).2) (fun _ hc => hc) fun job => ?_
    have := h.balanced.balance job
    rw [hrest.owes] at this
    show x.permits job + x.completions job + p.owes job = if s.inFlight.contains job then 1 else 0
    rw [howes, hs.inFlight]
    exact this
  · have ha := h.served (by rw [hph]; nofun) job u (hs.live ▸ hl) hj
    show Client.Attended (x.clients.modify token (fun _ => c) u) _ _
    rw [howned (h.maps.job job u hj).1]
    refine ⟨ha.1, ha.2.imp (fun hx => ⟨hx.1, hx.2.imp id fun hy => ⟨hy.1, Or.inr ?_⟩⟩) id⟩
    rcases hy.2 with ⟨-, hans⟩ | hv
    · exact absurd hans (hrest.2 _ _)
    · exact hv
  · have := (h.once.outside he).once job
    rw [hrest.answers] at this
    show _ + _ + (if p.answers job then 1 else 0) ≤ 1
    rw [hanswers]
    exact this
  · have := (h.once.outside he).fresh job (hs.nextJobId ▸ hj)
    exact ⟨this.1, this.2.1, hanswers job⟩

/-- What becomes of the job that a new one replaces. -/
structure Supersedes (τ : List Event) (a : OutboundActor) (clients : Clients) (superseded : Option JobId)
    (r : OutboundActor × Clients × Option JobId) : Prop where
  scheduler : r.1.scheduler = a.scheduler
  waiters : ∀ j, r.1.waiters.lookup j = if superseded = some j then none else a.waiters.lookup j
  jobTokens : ∀ j, r.1.jobTokens.lookup j = if superseded = some j then none else a.jobTokens.lookup j
  pendingTokens : ∀ t, r.1.pendingTokens.lookup t =
    if superseded.bind a.jobTokens.lookup = some t then none else a.pendingTokens.lookup t
  tokenStates : ∀ t, r.1.tokenStates.lookup t =
    if superseded.bind a.jobTokens.lookup = some t then none else a.tokenStates.lookup t
  clients : ∀ u, r.2.1 u = clients u ∨ (∃ old, superseded = some old ∧ Owns τ old u) ∧
    (r.2.1 u).stage = (clients u).stage ∧
    ((r.2.1 u).granted.value = (clients u).granted.value ∨
      (clients u).granted.value = none ∧ (r.2.1 u).granted.value = some .superseded)
  told : r.2.2 = none ∨ superseded = r.2.2 ∧ ∃ old, superseded = some old ∧ a.waiters.contains old = true

theorem supersede_after {clients : Clients}
    (hwaits : ∀ j t, a.waiters.lookup j = some t → Owns τ j t ∧ (clients t).granted.value = none)
    (hjobs : ∀ j t, a.jobTokens.lookup j = some t → Owns τ j t) (superseded : Option JobId) :
    Supersedes τ a clients superseded (a.supersede clients superseded) := by
  cases superseded with
  | none =>
    exact ⟨rfl, fun j => (if_neg nofun).symm, fun j => (if_neg nofun).symm, fun t => (if_neg nofun).symm,
      fun t => (if_neg nofun).symm, fun u => Or.inl rfl, Or.inl rfl⟩
  | some old =>
    have ht := a.tell_tells clients old .superseded
    unfold OutboundActor.supersede
    dsimp only
    generalize a.tell clients old .superseded = r at ht
    obtain ⟨⟨waiters, hra⟩, hw, hcl⟩ := waiters_after ht
    have hf := r.1.forgetJob_forgets r.2.1 old
    generalize r.1.forgetJob r.2.1 old = f at hf
    have hjt : r.1.jobTokens = a.jobTokens := by rw [hra]
    have hpt : r.1.pendingTokens = a.pendingTokens := by rw [hra]
    have hts : r.1.tokenStates = a.tokenStates := by rw [hra]
    refine ⟨hf.scheduler.trans (by rw [hra]), fun j => ?_, fun j => ?_, fun t => ?_, fun t => ?_, fun u => ?_, ?_⟩
    · show f.1.waiters.lookup j = _
      rw [hf.waiters, hw]
      simp only [Option.some.injEq, eq_comm]
    · show f.1.jobTokens.lookup j = _
      rw [hf.jobTokens, hjt]
      simp only [Option.some.injEq, eq_comm]
    · show f.1.pendingTokens.lookup t = _
      rw [hf.pendingTokens, hjt, hpt]
      rfl
    · show f.1.tokenStates.lookup t = _
      rw [hf.tokenStates, hjt, hts]
      rfl
    · show f.2 u = _ ∨ _ ∧ (f.2 u).stage = _ ∧ ((f.2 u).granted.value = _ ∨ _ ∧ (f.2 u).granted.value = _)
      have hsent : r.2.1 u = clients u ∨ Owns τ old u ∧ (r.2.1 u).stage = (clients u).stage ∧
          ((r.2.1 u).granted.value = (clients u).granted.value ∨
            (clients u).granted.value = none ∧ (r.2.1 u).granted.value = some .superseded) := by
        refine (hcl u).imp id fun hu => ⟨(hwaits old u hu.1).1, hu.2.1, ?_⟩
        have hv := hu.2.2
        split at hv
        · exact Or.inr ⟨(hwaits old u hu.1).2, hv⟩
        · exact Or.inl hv
      rcases hf.clients u with hu | ⟨hj, hu⟩
      · rw [hu]
        exact hsent.imp id fun h' => ⟨⟨old, rfl, h'.1⟩, h'.2⟩
      · rw [hu]
        refine Or.inr ⟨⟨old, rfl, hjobs old u (hjt ▸ hj)⟩, ?_⟩
        rcases hsent with h' | ⟨-, h'⟩
        · rw [h']
          exact ⟨rfl, Or.inl rfl⟩
        · exact h'
    · rcases told_waits ht with hn | ⟨hs, hc⟩
      · exact Or.inl hn
      · exact Or.inr ⟨hs.symm, old, rfl, hc⟩

/-- A command that leads to a job. -/
theorem Inv.enters {request : Request} {token : Token} {rest : List EnqueueCommand} {s : SchedulerState}
    {outcome : EnqueueOutcome} {timer : Nat} {r : OutboundActor × Clients × Option JobId} (h : Inv τ x a)
    (hi : x.ingress = ⟨request, token⟩ :: rest) (hph : a.phase = .selecting timer)
    (hpending : (x.clients token).tokenState = .pending)
    (henq : a.scheduler.enqueue request.metadata (a.enqueueOptions request x.clock) = (s, .ok outcome))
    (hid : outcome.job + 1 < u64Size)
    (hr : Supersedes τ { a with scheduler := s } (x.clients.store token .accepted) outcome.superseded r) :
    Inv (.accepted outcome.job token r.2.2 :: τ)
      (Sys.put { x with ingress := rest }
        ({ r.1.record outcome.job token with phase := .answering token (.ok outcome.job) }, r.2.1))
      { r.1.record outcome.job token with phase := .answering token (.ok outcome.job) } := by
  have hh := h.tokens.heads hi
  obtain ⟨hjob, hnext, hflight, hlive, hold⟩ := SchedulerState.enqueue_ids henq hid
  have hrest : a.phase.Resting := by rw [hph]; exact ⟨rfl, (fun _ _ h => by cases h)⟩
  have hb : Books s x.clock := by
    refine h.clocked.books.call (a := .enqueue request.metadata (a.enqueueOptions request x.clock))
      (e := .enqueued request.metadata (a.enqueueOptions request x.clock) outcome) (Nat.le_refl _) ?_
    simp only [SchedulerState.call, henq, if_pos hid]
  have hnew (j : JobId) (t : Token) (ho : Owns τ j t) : j ≠ outcome.job :=
    Nat.ne_of_lt (hjob ▸ (h.tokens.owned j t ho).2)
  have howns {j : JobId} {t : Token} : Owns (.accepted outcome.job token r.2.2 :: τ) j t ↔
      j = outcome.job ∧ t = token ∨ Owns τ j t := by
    constructor
    · rintro ⟨q, hm⟩
      rcases List.mem_cons.1 hm with he | hm
      · cases he
        exact Or.inl ⟨rfl, rfl⟩
      · exact Or.inr ⟨q, hm⟩
    · rintro (⟨rfl, rfl⟩ | ⟨q, hm⟩)
      · exact ⟨r.2.2, List.mem_cons_self⟩
      · exact ⟨q, List.mem_cons_of_mem _ hm⟩
  have hstored {u : Token} (hu : u ≠ token) : x.clients.store token .accepted u = x.clients u :=
    Clients.store_other _ _ hu
  have htoken : r.2.1 token = { x.clients token with tokenState := .accepted } := by
    rw [(hr.clients token).resolve_right]
    · exact Clients.store_same _ _ _
    · rintro ⟨⟨old, -, ho⟩, -⟩
      exact hh.unowned old ho
  have hstage (u : Token) : (r.2.1 u).stage = (x.clients u).stage := by
    by_cases hu : u = token
    · rw [hu, htoken]
    · rcases hr.clients u with h' | ⟨-, h', -⟩
      · rw [h', hstored hu]
      · rw [h', hstored hu]
  have hkept {j : JobId} {u : Token} (ho : Owns τ j u) (hj : outcome.superseded ≠ some j) :
      r.2.1 u = x.clients u := by
    have hu : u ≠ token := fun hu => hh.unowned j (hu ▸ ho)
    rw [(hr.clients u).resolve_right, hstored hu]
    rintro ⟨⟨old, hs, ho'⟩, -⟩
    rw [h.tokens.job ho ho'] at hj
    exact hj hs
  obtain ⟨h1, h2, h3, h4, h5⟩ := h.tokens.takes (y := Sys.put { x with ingress := rest }
      ({ r.1.record outcome.job token with phase := .answering token (.ok outcome.job) }, r.2.1)) hh rfl rfl fun u => by
    show r.2.1 u = x.clients u ∨ _ ∧ (r.2.1 u).stage = _
    by_cases hu : u = token
    · exact Or.inr ⟨Or.inr hu, hstage u⟩
    · rcases hr.clients u with h' | ⟨⟨old, -, ho⟩, h'⟩
      · exact Or.inl (h'.trans (hstored hu))
      · exact Or.inr ⟨Or.inl (h.tokens.owned old u ho).1, hstage u⟩
  -- the mappings of the new job are the last ones recorded
  have hjt (j : JobId) : (r.1.record outcome.job token).jobTokens.lookup j =
      if j = outcome.job then some token else if outcome.superseded = some j then none else a.jobTokens.lookup j := by
    show (AList.insert _ _ _).lookup j = _
    rw [Table.lookup_insert_if, hr.jobTokens]
  have hpt (t : Token) : (r.1.record outcome.job token).pendingTokens.lookup t =
      if t = token then some outcome.job
      else if outcome.superseded.bind a.jobTokens.lookup = some t then none else a.pendingTokens.lookup t := by
    show (AList.insert _ _ _).lookup t = _
    rw [Table.lookup_insert_if, hr.pendingTokens]
  have hts (t : Token) : (r.1.record outcome.job token).tokenStates.lookup t =
      if t = token then some ()
      else if outcome.superseded.bind a.jobTokens.lookup = some t then none else a.tokenStates.lookup t := by
    show (AList.insert _ _ _).lookup t = _
    rw [Table.lookup_insert_if, hr.tokenStates]
  have happart {j : JobId} {t : Token} (hj : a.jobTokens.lookup j = some t) (hs : outcome.superseded ≠ some j) :
      outcome.superseded.bind a.jobTokens.lookup ≠ some t := by
    intro hb'
    rw [Option.bind_eq_some_iff] at hb'
    obtain ⟨old, ho, hot⟩ := hb'
    rw [h.tokens.job (h.maps.job j t hj).1 (h.maps.job old t hot).1] at hs
    exact hs ho
  refine ⟨⟨?_, (fun _ _ h => by cases h)⟩, ⟨h1, h2, hh.nodup, h3, fun j u ho => ?_,
      fun {j j' u} ho ho' => ?_, fun {j u u'} ho ho' => ?_, fun u q hpr => ?_⟩, ⟨fun j t hj => ?_, fun t j hj => ?_, fun j hn => ?_⟩, fun j u hw => ?_, ?_,
      fun _ j u hl hj => ?_, ⟨fun j => ?_, fun j hj => ?_⟩⟩
  · show Books r.1.scheduler x.clock
    rw [hr.scheduler]
    exact hb
  · show _ ∧ j < r.1.scheduler.nextJobId
    rw [hr.scheduler]
    show _ ∧ j < s.nextJobId
    rw [hnext]
    rcases howns.1 ho with ⟨rfl, rfl⟩ | ho
    · exact ⟨h5, hjob ▸ Nat.lt_succ_self _⟩
    · have := h.tokens.owned j u ho
      exact ⟨h4 u this.1, Nat.lt_succ_of_lt this.2⟩
  · rcases howns.1 ho with ⟨rfl, rfl⟩ | ho <;> rcases howns.1 ho' with ⟨rfl, ht⟩ | ho'
    · rfl
    · exact absurd ho' (hh.unowned j')
    · exact absurd (ht ▸ ho) (hh.unowned j)
    · exact h.tokens.job ho ho'
  · rcases howns.1 ho with ⟨hj, hu⟩ | hold₁ <;> rcases howns.1 ho' with ⟨hj', hu'⟩ | hold₂
    · rw [hu, hu']
    · exact absurd hj (hnew j u' hold₂)
    · exact absurd hj' (hnew j u hold₁)
    · exact h.tokens.token hold₁ hold₂
  · cases hpr
    refine ⟨h5, ?_, fun j => ?_⟩
    · show (r.2.1 token).granted.Open
      rw [htoken]
      exact hh.queued.2.1
    · rw [howns]
      constructor
      · rintro (⟨rfl, -⟩ | ho)
        · rfl
        · exact absurd ho (hh.unowned j)
      · intro hj
        cases hj
        exact Or.inl ⟨rfl, rfl⟩
  · replace hj : (r.1.record outcome.job token).jobTokens.lookup j = some t := hj
    show Owns _ j t ∧ (r.1.record outcome.job token).pendingTokens.lookup t = some j ∧
      (r.1.record outcome.job token).tokenStates.lookup t = some ()
    rw [hjt] at hj
    rw [hpt, hts]
    split at hj
    · rename_i hj'
      cases hj
      rw [if_pos rfl, if_pos rfl, hj']
      exact ⟨howns.2 (Or.inl ⟨rfl, rfl⟩), rfl, rfl⟩
    · split at hj
      · cases hj
      · rename_i hs
        obtain ⟨g1, g2, g3⟩ := h.maps.job j t hj
        have hne : t ≠ token := fun ht => hh.unowned j (ht ▸ g1)
        rw [if_neg hne, if_neg hne, if_neg (happart hj hs), if_neg (happart hj hs)]
        exact ⟨howns.2 (Or.inr g1), g2, g3⟩
  · replace hj : (r.1.record outcome.job token).pendingTokens.lookup t = some j := hj
    show (r.1.record outcome.job token).jobTokens.lookup j = some t
    rw [hpt] at hj
    rw [hjt]
    split at hj
    · rename_i ht
      cases hj
      rw [if_pos rfl, ht]
    · split at hj
      · cases hj
      · rename_i hb'
        have hjt' := h.maps.token t j hj
        rw [if_neg (hnew j t (h.maps.job j t hjt').1), if_neg]
        · exact hjt'
        · intro hs
          rw [hs] at hb'
          exact hb' hjt'
  · show ∃ t, (r.1.record outcome.job token).jobTokens.lookup j = some t
    rw [hjt]
    rcases hn with hl | ⟨g, hg, -⟩
    · replace hl : r.1.scheduler.live j = true := hl
      rw [hr.scheduler] at hl
      rcases (hlive j).1 hl with hj | ⟨hs, hl⟩
      · rw [if_pos hj]
        exact ⟨token, rfl⟩
      · obtain ⟨t, ht⟩ := h.maps.known j (Or.inl hl)
        rw [if_neg (hnew j t (h.maps.job j t ht).1), if_neg hs]
        exact ⟨t, ht⟩
    · cases hg
  · replace hw : r.1.waiters.lookup j = some u := hw
    rw [hr.waiters] at hw
    split at hw
    · cases hw
    · rename_i hs
      obtain ⟨ho, hopen⟩ := h.waits j u hw
      refine ⟨howns.2 (Or.inr ho), ?_⟩
      show (r.2.1 u).granted.Open
      rw [hkept ho hs]
      exact hopen
  · have hvalue (u : Token) : (r.2.1 u).granted.value = (x.clients u).granted.value ∨
        (x.clients u).granted.value = none ∧ (r.2.1 u).granted.value = some .superseded := by
      by_cases hu : u = token
      · rw [hu, htoken]
        exact Or.inl rfl
      · rcases hr.clients u with h' | ⟨-, -, h'⟩
        · rw [h', hstored hu]
          exact Or.inl rfl
        · rwa [hstored hu] at h'
    refine ⟨fun j => ?_, fun u q hq => ?_, fun u q hq => ?_, fun j c u o ob ack hm => ?_⟩
    · have := h.balanced.balance j
      rw [hrest.owes] at this
      have hperm : Sys.permits (Sys.put { x with ingress := rest }
          ({ r.1.record outcome.job token with phase := .answering token (.ok outcome.job) }, r.2.1)) j =
          x.permits j := by
        unfold Sys.permits Client.carries
        refine congrArg List.sum (List.map_congr_left fun u _ => ?_)
        show (r.2.1 u).stage.carries j + AcquireResult.carries j (r.2.1 u).granted.value = _
        rw [hstage]
        rcases hvalue u with hv | ⟨hv, hv'⟩
        · rw [hv]
        · rw [hv, hv']
          rfl
      rw [hperm]
      show x.permits j + x.completions j + 0 = if r.1.scheduler.inFlight.contains j then 1 else 0
      rw [hr.scheduler]
      show _ = if s.inFlight.contains j then 1 else 0
      rw [hflight]
      exact this
    · replace hq : (r.2.1 u).stage = .holding q := hq
      rw [hstage] at hq
      exact ⟨(h.balanced.held u q hq).1, howns.2 (Or.inr (h.balanced.held u q hq).2)⟩
    · replace hq : (r.2.1 u).granted.value = some (.granted q) := hq
      rcases hvalue u with hv | ⟨-, hv⟩
      · rw [hv] at hq
        exact ⟨(h.balanced.buffered u q hq).1, howns.2 (Or.inr (h.balanced.buffered u q hq).2)⟩
      · rw [hv] at hq
        cases hq
    · exact howns.2 (Or.inr (h.balanced.completing j c u o ob ack hm))
  · replace hl : r.1.scheduler.live j = true := hl
    rw [hr.scheduler] at hl
    replace hj : (r.1.record outcome.job token).jobTokens.lookup j = some u := hj
    rw [hjt] at hj
    show Client.Attended (r.2.1 u) _ _
    rcases (hlive j).1 hl with hjn | ⟨hs, hl⟩
    · rw [if_pos hjn] at hj
      cases hj
      rw [htoken, hjn]
      refine ⟨hh.queued.2.1, Or.inl ⟨rfl, Or.inr ⟨?_, Or.inl ⟨hh.queued.1, rfl⟩⟩⟩⟩
      rcases hh.queued.2.2 with ⟨-, hst⟩ | ⟨hst, -⟩
      · exact hst
      · rw [hpending] at hst
        cases hst
    · obtain ⟨t, ht⟩ := h.maps.known j (Or.inl hl)
      rw [if_neg (hnew j t (h.maps.job j t ht).1), if_neg hs] at hj
      have ha := h.served (by rw [hph]; intro h; cases h) j u hl hj
      rw [hkept (h.maps.job j u hj).1 hs]
      refine ⟨ha.1, ha.2.imp (fun hx => ⟨hx.1, hx.2.imp id fun hy => ⟨hy.1, Or.inr ?_⟩⟩) id⟩
      rcases hy.2 with ⟨-, hans⟩ | hv
      · exact absurd hans (hrest.2 _ _)
      · exact hv
  · have hwc : r.1.waiters.contains j = if outcome.superseded = some j then false else a.waiters.contains j := by
      rw [Table.contains, hr.waiters]
      split <;> rfl
    show (told _ j).length + (if r.1.waiters.contains j = true then 1 else 0) +
      (if Phase.answers j (.answering token (.ok outcome.job)) = true then 1 else 0) ≤ 1
    have hans : Phase.answers j (.answering token (.ok outcome.job)) = (outcome.job == j) := rfl
    have hone := h.once.once j
    rw [hrest.answers] at hone
    rw [hwc, hans]
    simp only [Bool.false_eq_true, if_false, beq_iff_eq] at hone ⊢
    by_cases hj : outcome.job = j
    · obtain ⟨f1, f2, -⟩ := h.once.fresh j (by rw [← hj, hjob])
      have hns : outcome.superseded ≠ some j := by
        intro hs
        have := (h.clocked.books.fresh (i := j) (by rw [← hj, hjob])).1
        rw [hold j hs] at this
        cases this
      have hnt : r.2.2 ≠ some j := by
        rcases hr.told with hn | ⟨hs, -⟩
        · rw [hn]; intro h; cases h
        · rw [← hs]; exact hns
      have hwn : a.waiters.contains j = false := by
        rw [Table.contains, f2]
        rfl
      rw [told, if_neg hnt, f1, if_neg hns, hwn, if_pos hj]
      simp
    · rw [if_neg hj]
      by_cases hs : outcome.superseded = some j
      · rw [if_pos hs]
        simp only [Bool.false_eq_true, if_false]
        rcases hr.told with hn | ⟨hs', old, hso, hc⟩
        · rw [told, hn, if_neg (fun h => by cases h)]
          omega
        · rw [hs] at hso
          cases hso
          replace hc : a.waiters.contains j = true := hc
          rw [hc, if_pos rfl] at hone
          rw [told, ← hs', if_pos hs, List.length_cons]
          omega
      · have hnt : r.2.2 ≠ some j := by
          rcases hr.told with hn | ⟨hs', -⟩
          · rw [hn]; intro h; cases h
          · rw [← hs']; exact hs
        rw [told, if_neg hnt, if_neg hs]
        omega
  · replace hj : r.1.scheduler.nextJobId ≤ j := hj
    rw [hr.scheduler] at hj
    replace hj : s.nextJobId ≤ j := hj
    rw [hnext] at hj
    obtain ⟨f1, f2, -⟩ := h.once.fresh j (Nat.le_of_succ_le hj)
    have hns : outcome.superseded ≠ some j := by
      intro hs
      have := (h.clocked.books.fresh (i := j) (Nat.le_of_succ_le hj)).1
      rw [hold j hs] at this
      cases this
    have hnt : r.2.2 ≠ some j := by
      rcases hr.told with hn | ⟨hs, -⟩
      · rw [hn]; intro h; cases h
      · rw [← hs]; exact hns
    refine ⟨?_, ?_, ?_⟩
    · rw [told, if_neg hnt]
      exact f1
    · show r.1.waiters.lookup j = none
      rw [hr.waiters, if_neg hns]
      exact f2
    · show (outcome.job == j) = false
      rw [hjob, beq_eq_false_iff_ne]
      exact Nat.ne_of_lt hj

theorem Inv.accepts (h : Inv τ x a) (hr : x.accept a x.clock = some (x', e)) :
    ∃ a', x'.actor = some a' ∧ Inv (e :: τ) x' a' := by
  unfold Sys.accept at hr
  split at hr
  · rename_i timer request token rest hph hi
    have hh := h.tokens.heads hi
    dsimp only at hr
    split at hr
    · cases hr
      refine ⟨_, rfl, ?_⟩
      have hc : (((x.clients.store token .terminal).sendResponse token (.error .closed)).1.dropGranted token) =
          x.clients.modify token fun _ => { x.clients token with
            tokenState := .terminal
            response := ((x.clients token).response.send (.error .closed)).1
            granted := (x.clients token).granted.dropSender } := by
        unfold Clients.dropGranted Clients.sendResponse Clients.store
        dsimp only
        rw [Clients.modify_modify, Clients.modify_modify]
        funext u
        by_cases hu : u = token
        · subst hu
          simp
        · simp [Clients.modify_other _ _ hu]
      rw [hc]
      exact h.takes (s := a.scheduler) hh hph ⟨rfl, rfl, rfl⟩ h.clocked.books rfl hh.queued.2.1.2 (Or.inl rfl)
    · rename_i hpending
      rw [not_not] at hpending
      split at hr
      · rename_i s outcome henq
        split at hr
        · rename_i hid
          cases hr
          refine ⟨_, rfl, h.enters hi hph hpending henq hid (supersede_after (fun j t hw => ?_) (fun j t hj => ?_) _)⟩
          · obtain ⟨ho, hopen⟩ := h.waits j t hw
            refine ⟨ho, ?_⟩
            rw [Clients.store_other _ _ (hh.spent t (h.tokens.owned j t ho).1)]
            exact hopen.2
          · exact (h.maps.job j t hj).1
        · cases hr
      · rename_i s error henq
        cases hr
        refine ⟨_, rfl, ?_⟩
        have hc : x.clients.store token .accepted =
            x.clients.modify token fun _ => { x.clients token with tokenState := .accepted } := by
          funext u
          by_cases hu : u = token
          · subst hu
            rw [Clients.store_same, Clients.modify_same]
          · rw [Clients.store_other _ _ hu, Clients.modify_other _ _ hu]
        rw [hc]
        refine h.takes hh hph (SchedulerState.enqueue_error_stays henq).keepsIds ?_ rfl hh.queued.2.1.2
          (Or.inr ⟨hh.queued.2.1, error, rfl⟩)
        refine h.clocked.books.call (a := .enqueue request.metadata (a.enqueueOptions request x.clock))
          (e := .rejected request.metadata (a.enqueueOptions request x.clock) error) (Nat.le_refl _) ?_
        simp only [SchedulerState.call, henq]
  · cases hr

/-! ### The reply -/

/-- A reply that names no job: the sender of the grant goes with it. -/
theorem Inv.refuses {token : Token} {error : EnqueueError} {c : Client} (h : Inv τ x a)
    (hph : a.phase = .answering token (.error error)) (hstage : c.stage = (x.clients token).stage)
    (hvalue : c.granted.value = none) :
    Inv (.quiet :: τ) (x.put ({ a with phase := .draining 0 }, x.clients.modify token fun _ => c))
      { a with phase := .draining 0 } := by
  have he : Event.quiet.outside := ⟨nofun, nofun⟩
  obtain ⟨hspent, hopen, howner⟩ := h.tokens.answering _ _ hph
  have hunowned (job : JobId) : ¬ Owns τ job token := fun ho => nomatch (howner job).1 ho
  have hself : x.clients.modify token (fun _ => c) token = c := Clients.modify_same _ _ _
  have hother {u : Token} (hu : u ≠ token) : x.clients.modify token (fun _ => c) u = x.clients u :=
    Clients.modify_other _ _ hu
  have howned {job : JobId} {u : Token} (ho : Owns τ job u) : x.clients.modify token (fun _ => c) u = x.clients u :=
    hother fun hu => hunowned job (hu ▸ ho)
  have hold (u : Token) : (x.clients.modify token (fun _ => c) u).stage = (x.clients u).stage ∧
      (x.clients.modify token (fun _ => c) u).granted.value = (x.clients u).granted.value := by
    by_cases hu : u = token
    · rw [hu, hself]
      exact ⟨hstage, hvalue.trans hopen.2.symm⟩
    · rw [hother hu]
      exact ⟨rfl, rfl⟩
  refine ⟨⟨h.clocked.books, nofun⟩, ?_, ⟨(h.maps.outside he).job, h.maps.token, fun job hn => h.maps.known job ?_⟩,
    fun job u hw => ?_, ?_, fun _ job u hl hj => ?_, ⟨fun job => ?_, fun job hj => ?_⟩⟩
  · refine h.tokens.acts he.1 rfl rfl (fun u => ?_) rfl nofun
    by_cases hu : u = token
    · rw [hu]
      exact Or.inr ⟨hspent, (hold token).1⟩
    · exact Or.inl (hother hu)
  · rcases hn with hl | ⟨g, hg, -⟩
    · exact Or.inl hl
    · cases hg
  · obtain ⟨ho, hopen'⟩ := h.waits job u hw
    refine ⟨(owns_outside he _ _).2 ho, ?_⟩
    show (x.clients.modify token (fun _ => c) u).granted.Open
    rw [howned ho]
    exact hopen'
  · refine h.balanced.acts he rfl (fun u => (hold u).1) (fun u => (hold u).2) (fun _ hc => hc) fun job => ?_
    have := h.balanced.balance job
    rw [hph] at this
    exact this
  · have ha := h.served (by rw [hph]; nofun) job u hl hj
    show Client.Attended (x.clients.modify token (fun _ => c) u) _ _
    rw [howned (h.maps.job job u hj).1]
    refine ⟨ha.1, ha.2.imp (fun hx => ⟨hx.1, hx.2.imp id fun hy => ⟨hy.1, Or.inr ?_⟩⟩) id⟩
    rcases hy.2 with ⟨-, hans⟩ | hv
    · rw [hph] at hans
      cases hans
    · exact hv
  · have := (h.once.outside he).once job
    rw [hph] at this
    exact this
  · have := (h.once.outside he).fresh job hj
    exact ⟨this.1, this.2.1, rfl⟩

/-- The acceptance has reached its acquire: from here on the job has a waiter. -/
theorem Inv.replies {token : Token} {job : JobId} (h : Inv τ x a) (hph : a.phase = .answering token (.ok job))
    (hrec : (x.clients token).response.receiver = true) :
    Inv (.quiet :: τ) (x.put ({ a with waiters := a.waiters.insert job token, phase := .draining 0 },
        x.clients.modify token fun _ => { x.clients token with response := ⟨false, some (.ok job), true⟩ }))
      { a with waiters := a.waiters.insert job token, phase := .draining 0 } := by
  have he : Event.quiet.outside := ⟨nofun, nofun⟩
  obtain ⟨hspent, hopen, howner⟩ := h.tokens.answering _ _ hph
  have hown : Owns τ job token := (howner job).2 rfl
  have hother {u : Token} (hu : u ≠ token) : x.clients.modify token (fun _ => { x.clients token with
      response := ⟨false, some (.ok job), true⟩ }) u = x.clients u := Clients.modify_other _ _ hu
  have hold (u : Token) : (x.clients.modify token (fun _ => { x.clients token with
        response := ⟨false, some (.ok job), true⟩ }) u).stage = (x.clients u).stage ∧
      (x.clients.modify token (fun _ => { x.clients token with
        response := ⟨false, some (.ok job), true⟩ }) u).granted = (x.clients u).granted := by
    by_cases hu : u = token
    · subst hu
      rw [Clients.modify_same]
      exact ⟨rfl, rfl⟩
    · rw [Clients.modify_other _ _ hu]
      exact ⟨rfl, rfl⟩
  have hone := h.once.once job
  have hans : a.phase.answers job = true := by
    rw [hph]
    exact beq_self_eq_true job
  rw [hans, if_pos rfl] at hone
  refine ⟨⟨h.clocked.books, nofun⟩, ?_, ⟨(h.maps.outside he).job, h.maps.token, fun j hn => h.maps.known j ?_⟩,
    fun j u hw => ?_, ?_, fun _ j u hl hj => ?_, ⟨fun j => ?_, fun j hj => ?_⟩⟩
  · refine h.tokens.acts he.1 rfl rfl (fun u => ?_) rfl nofun
    by_cases hu : u = token
    · rw [hu]
      exact Or.inr ⟨hspent, (hold token).1⟩
    · exact Or.inl (hother hu)
  · rcases hn with hl | ⟨g, hg, -⟩
    · exact Or.inl hl
    · cases hg
  · replace hw : (a.waiters.insert job token).lookup j = some u := hw
    rw [Table.lookup_insert_if] at hw
    refine ⟨(owns_outside he _ _).2 ?_, ?_⟩
    · split at hw
      · rename_i hj
        cases hw
        rw [hj]
        exact hown
      · exact (h.waits j u hw).1
    · show (x.clients.modify token (fun _ => { x.clients token with
        response := ⟨false, some (.ok job), true⟩ }) u).granted.Open
      rw [(hold u).2]
      split at hw
      · cases hw
        exact hopen
      · exact (h.waits j u hw).2
  · refine h.balanced.acts he rfl (fun u => (hold u).1) (fun u => congrArg Oneshot.value (hold u).2)
      (fun _ hc => hc) fun j => ?_
    have := h.balanced.balance j
    rw [hph] at this
    exact this
  · have ha := h.served (by rw [hph]; nofun) j u hl hj
    show Client.Attended (x.clients.modify token (fun _ => { x.clients token with
        response := ⟨false, some (.ok job), true⟩ }) u) _ _
    by_cases hu : u = token
    · subst hu
      rw [Clients.modify_same]
      refine ⟨ha.1, ha.2.imp (fun hx => ⟨hx.1, hx.2.imp id fun hy => ⟨hy.1, Or.inr ⟨job, rfl⟩⟩⟩) id⟩
    · rw [Clients.modify_other _ _ hu]
      refine ⟨ha.1, ha.2.imp (fun hx => ⟨hx.1, hx.2.imp id fun hy => ⟨hy.1, Or.inr ?_⟩⟩) id⟩
      rcases hy.2 with ⟨-, hans'⟩ | hv
      · rw [hph] at hans'
        cases hans'
        exact absurd rfl hu
      · exact hv
  · have hc : Table.contains (a.waiters.insert job token) j = (decide (j = job) || a.waiters.contains j) := by
      rw [Bool.eq_iff_iff, Table.contains_insert_iff]
      simp
    show (told τ j).length + (if Table.contains (a.waiters.insert job token) j = true then 1 else 0) + 0 ≤ 1
    rw [hc]
    by_cases hj : j = job
    · subst hj
      simp only [decide_true, Bool.true_or, if_true]
      omega
    · have := h.once.once j
      simp only [hj, decide_false, Bool.false_or]
      omega
  · obtain ⟨f1, f2, f3⟩ := h.once.fresh j hj
    refine ⟨f1, ?_, rfl⟩
    show (a.waiters.insert job token).lookup j = none
    rw [Table.lookup_insert_if, if_neg]
    · exact f2
    · rintro rfl
      rw [hans] at f3
      cases f3

/-- The acceptance has reached nobody: the job is over. -/
theorem Inv.strands {token : Token} {job : JobId} {r : OutboundActor × Clients} (h : Inv τ x a)
    (hph : a.phase = .answering token (.ok job))
    (hr : OutboundActor.Forgets { a with scheduler := a.scheduler.cancel job x.clock }
      (x.clients.modify token fun _ => { x.clients token with
        response := { (x.clients token).response with sender := false } }) job r) :
    Inv (.quiet :: τ) (x.put ({ r.1 with phase := .draining 0 }, r.2.dropGranted token))
      { r.1 with phase := .draining 0 } := by
  have he : Event.quiet.outside := ⟨nofun, nofun⟩
  obtain ⟨hspent, hopen, howner⟩ := h.tokens.answering _ _ hph
  have hown : Owns τ job token := (howner job).2 rfl
  obtain ⟨hlive, hflight, hnext⟩ := a.scheduler.cancel_ids job x.clock
  have hanswers : a.phase.answers job = true := by
    rw [hph]
    exact beq_self_eq_true job
  have hwaiter : a.waiters.contains job = false := by
    have := h.once.once job
    rw [hanswers, if_pos rfl] at this
    rw [Bool.eq_false_iff]
    intro hc
    rw [hc, if_pos rfl] at this
    omega
  have hchanged (u : Token) : r.2.dropGranted token u = x.clients u ∨ Owns τ job u ∧
      (r.2.dropGranted token u).stage = (x.clients u).stage ∧
      (r.2.dropGranted token u).granted.value = (x.clients u).granted.value := by
    have hsent : (x.clients.modify token fun _ => { x.clients token with
          response := { (x.clients token).response with sender := false } }) u = x.clients u ∨
        u = token := by
      by_cases hu : u = token
      · exact Or.inr hu
      · exact Or.inl (Clients.modify_other _ _ hu)
    by_cases hu : u = token
    · subst hu
      refine Or.inr ⟨hown, ?_⟩
      rw [Clients.dropGranted_same]
      rcases hr.clients u with h' | ⟨-, h'⟩ <;> rw [h', Clients.modify_same] <;> exact ⟨rfl, rfl⟩
    · rw [Clients.dropGranted_other _ hu]
      rcases hr.clients u with h' | ⟨hj, h'⟩
      · exact Or.inl (h'.trans (hsent.resolve_right hu))
      · refine Or.inr ⟨(h.maps.job job u hj).1, ?_⟩
        rw [h', hsent.resolve_right hu]
        exact ⟨rfl, rfl⟩
  refine h.forgets (k := job) he (fun id hl => ?_) (by rw [hr.scheduler]; exact hnext) ?_ ⟨rfl, nofun⟩ nofun
    (fun t q hq => by rw [hph] at hq; cases hq; rfl) (by rw [hph]; nofun) hr.jobTokens hr.pendingTokens hr.tokenStates
    rfl rfl (fun u => (hchanged u).imp id fun hu => ⟨hu.1, hu.2.1⟩) (fun j t hw => ?_) ?_ fun t _ hm => hm
  · rw [hr.scheduler] at hl
    exact (hlive id).1 hl
  · rw [hr.scheduler]
    exact h.clocked.books.call (a := .cancel job x.clock) (Nat.le_refl _) rfl
  · replace hw : r.1.waiters.lookup j = some t := hw
    rw [hr.waiters] at hw
    replace hw : a.waiters.lookup j = some t := hw
    refine ⟨hw, ?_⟩
    show (r.2.dropGranted token t).granted.Open
    rw [(hchanged t).resolve_right fun hu => ?_]
    · exact (h.waits j t hw).2
    · have hj := h.tokens.job (h.waits j t hw).1 hu.1
      subst hj
      rw [(Table.contains_iff _ _).2 ⟨t, hw⟩] at hwaiter
      cases hwaiter
  · refine h.balanced.acts he rfl (fun u => ?_) (fun u => ?_) (fun _ hc => hc) fun j => ?_
    · rcases hchanged u with hu | ⟨-, hu, -⟩
      · exact congrArg Client.stage hu
      · exact hu
    · rcases hchanged u with hu | ⟨-, -, hu⟩
      · exact congrArg (fun c => c.granted.value) hu
      · exact hu
    · have := h.balanced.balance j
      rw [hph] at this
      show x.permits j + x.completions j + 0 = if r.1.scheduler.inFlight.contains j then 1 else 0
      rw [hr.scheduler]
      dsimp only
      rw [hflight]
      exact this

theorem Inv.answers (h : Inv τ x a) (hr : x.answer a x.clock = some x') :
    ∃ a', x'.actor = some a' ∧ Inv (.quiet :: τ) x' a' := by
  unfold Sys.answer at hr
  split at hr
  · rename_i token job hph
    dsimp only [Clients.sendResponse] at hr
    split at hr
    · rename_i hsent
      cases hr
      have hrec : (x.clients token).response.receiver = true := by
        unfold Oneshot.send at hsent
        split at hsent
        · assumption
        · cases hsent
      have hc : (x.clients.modify token fun c => { c with response := (c.response.send (.ok job)).1 }) =
          x.clients.modify token fun _ => { x.clients token with response := ⟨false, some (.ok job), true⟩ } := by
        funext u
        by_cases hu : u = token
        · subst hu
          rw [Clients.modify_same, Clients.modify_same, Oneshot.send, if_pos hrec]
        · rw [Clients.modify_other _ _ hu, Clients.modify_other _ _ hu]
      rw [hc]
      exact ⟨_, rfl, h.replies hph hrec⟩
    · rename_i hsent
      cases hr
      have hrec : (x.clients token).response.receiver ≠ true := by
        intro hrec
        rw [Oneshot.send, if_pos hrec] at hsent
        exact hsent rfl
      have hc : (x.clients.modify token fun c => { c with response := (c.response.send (.ok job)).1 }) =
          x.clients.modify token fun _ => { x.clients token with
            response := { (x.clients token).response with sender := false } } := by
        funext u
        by_cases hu : u = token
        · subst hu
          rw [Clients.modify_same, Clients.modify_same, Oneshot.send, if_neg hrec]
        · rw [Clients.modify_other _ _ hu, Clients.modify_other _ _ hu]
      rw [hc]
      exact ⟨_, rfl, h.strands hph (OutboundActor.forgetJob_forgets _ _ _)⟩
  · rename_i token error hph
    cases hr
    refine ⟨_, rfl, ?_⟩
    have hc : (((x.clients.store token .terminal).sendResponse token (.error (.ofEnqueueError error))).1.dropGranted
        token) = x.clients.modify token fun _ => { x.clients token with
          tokenState := .terminal
          response := ((x.clients token).response.send (.error (.ofEnqueueError error))).1
          granted := (x.clients token).granted.dropSender } := by
      unfold Clients.dropGranted Clients.sendResponse Clients.store
      dsimp only
      rw [Clients.modify_modify, Clients.modify_modify]
      funext u
      by_cases hu : u = token
      · subst hu
        simp
      · simp [Clients.modify_other _ _ hu]
    rw [hc]
    exact h.refuses hph rfl (h.tokens.answering _ _ hph).2.1.2
  · cases hr

end Acts

/-! ## Every run -/

/-- What holds once the actor has gone as well. -/
def AtMostOnce (τ : List Event) : Prop := ∀ job, (told τ job).length ≤ 1

theorem Once.atMostOnce {τ : List Event} {a : OutboundActor} (h : Once τ a) : AtMostOnce τ := fun job =>
  Nat.le_trans (Nat.le_add_right _ _) (Nat.le_trans (Nat.le_add_right _ _) (h.once job))

theorem inv_new {scheduler : SchedulerState} {limits : OutboundLimits} {classLimits : OutboundClassLimits}
    {aging : AgingPolicy} (hs : SchedulerState.newWithClassLimits limits classLimits aging = .ok scheduler)
    (capacity clock : Nat) :
    Inv [] (.new (.new scheduler capacity) clock) (.new scheduler capacity) := by
  have hb : Books scheduler clock :=
    ⟨[], 0, Nat.zero_le _, .start ⟨rfl, limits, classLimits, aging, hs⟩⟩
  have hinit := SchedulerState.newWithClassLimits_ok hs
  have hown (job : JobId) (t : Token) : ¬ Owns [] job t := by
    rintro ⟨r, hm⟩
    cases hm
  have hlive (job : JobId) : scheduler.live job = false := by rw [hinit]; rfl
  refine ⟨⟨hb, nofun⟩, ⟨fun _ _ => rfl, nofun, List.nodup_nil, nofun, fun job t ho => absurd ho (hown job t),
    fun ho => absurd ho (hown _ _), fun ho => absurd ho (hown _ _), nofun⟩, ⟨nofun, nofun, fun job hn => ?_⟩, nofun, ?_,
    fun _ job t hl => ?_, ⟨fun _ => Nat.zero_le _, fun _ _ => ⟨rfl, rfl, rfl⟩⟩⟩
  · rcases hn with hl | ⟨g, hg, -⟩
    · replace hl : scheduler.live job = true := hl
      rw [hlive] at hl
      cases hl
    · cases hg
  · refine ⟨fun job => ?_, nofun, nofun, nofun⟩
    show 0 + 0 + 0 = if scheduler.inFlight.contains job then 1 else 0
    rw [hinit]
    rfl
  · replace hl : scheduler.live job = true := hl
    rw [hlive] at hl
    cases hl

theorem Inv.later {τ : List Event} {x : Sys} {a : OutboundActor} {now : Nat} (h : Inv τ x a) (hn : x.clock ≤ now) :
    Inv τ { x with clock := now } a :=
  ⟨⟨h.clocked.books.later hn, fun gs t hd => ⟨(h.clocked.pass gs t hd).1, (h.clocked.pass gs t hd).2.trans hn⟩⟩,
    ⟨h.tokens.unborn, h.tokens.minted, h.tokens.nodup, h.tokens.queued, h.tokens.owned, h.tokens.job, h.tokens.token,
      h.tokens.answering⟩, h.maps, h.waits,
    ⟨h.balanced.balance, h.balanced.held, h.balanced.buffered, h.balanced.completing⟩, h.served, h.once⟩

/-- A step of the actor; it may be its last. -/
theorem Inv.acts {τ : List Event} {x x' : Sys} {a : OutboundActor} {action : Action} {e : Event} (h : Inv τ x a)
    (hr : x.act a x.clock action = some (x', e)) :
    (∃ a', x'.actor = some a' ∧ Inv (e :: τ) x' a') ∨ x'.actor = none ∧ e = .quiet := by
  have hquiet {o : Option Sys} (ho : o.map (·, Event.quiet) = some (x', e))
      (hc : ∀ y, o = some y → ∃ a', y.actor = some a' ∧ Inv (.quiet :: τ) y a') :
      ∃ a', x'.actor = some a' ∧ Inv (e :: τ) x' a' := by
    obtain ⟨y, hy, hx⟩ := Option.map_eq_some_iff.1 ho
    cases hx
    exact hc _ hy
  cases action with
  | receive order => exact Or.inl (h.receives hr)
  | accept => exact Or.inl (h.accepts hr)
  | answer => exact Or.inl (hquiet hr fun _ => h.answers)
  | runAdmission order fuel => exact Or.inl (h.admits hr)
  | deliver => exact Or.inl (h.delivers hr)
  | park => exact Or.inl (hquiet hr fun _ => h.parks)
  | timer =>
    refine Or.inl (hquiet hr fun y hy => ?_)
    unfold Sys.timer at hy
    split at hy
    · rename_i deadline hph
      split at hy
      · cases hy
        exact ⟨_, rfl, h.wakes hph ⟨rfl, nofun⟩ nofun⟩
      · cases hy
    · cases hy
  | ingressClosed =>
    refine Or.inl (hquiet hr fun y hy => ?_)
    unfold Sys.ingressClosed at hy
    split at hy
    · rename_i deadline hph
      split at hy
      · cases hy
        exact ⟨_, rfl, h.wakes hph ⟨rfl, nofun⟩ nofun⟩
      · cases hy
    · cases hy
  | closeWaiter job => exact Or.inl (h.closes hr)
  | stop =>
    refine Or.inr ?_
    obtain ⟨y, hy, hx⟩ := Option.map_eq_some_iff.1 hr
    cases hx
    unfold Sys.stop at hy
    split at hy
    · cases hy
      exact ⟨rfl, rfl⟩
    · cases hy
  | _ => cases hr

/-- With the actor gone the callers accept and deliver nothing. -/
theorem client_gone {x x' : Sys} {now : Nat} {action : Action} {e : Event} (ha : x.actor = none)
    (h : x.client now action = some (x', e)) : x'.actor = none ∧ e.isCall = true := by
  have hsend (y : Sys) (command : OutboundCommand) (hy : y.actor = none) : (y.send command).actor = none := by
    unfold Sys.send
    split
    · rename_i hs
      rw [hy] at hs
      cases hs
    · exact hy
  have hquiet {o : Option Sys} (ho : o.map (·, Event.quiet) = some (x', e))
      (hc : ∀ y, o = some y → y.actor = none) : x'.actor = none ∧ e.isCall = true := by
    obtain ⟨y, hy, hx⟩ := Option.map_eq_some_iff.1 ho
    cases hx
    exact ⟨hc _ hy, rfl⟩
  cases action with
  | mint request =>
    refine hquiet h fun y hy => ?_
    unfold Sys.mint at hy
    split at hy
    · cases hy
    · cases hy
      exact ha
  | trySend t =>
    simp only [Sys.client, Sys.trySend] at h
    split at h
    · split at h
      · cases h
        exact ⟨ha, rfl⟩
      · rename_i hs
        rw [ha] at hs
        cases hs
    · cases h
  | pollEnqueue t =>
    refine hquiet h fun y hy => ?_
    unfold Sys.pollEnqueue at hy
    split at hy
    · dsimp only at hy
      split at hy <;> cases hy <;> exact ha
    · cases hy
  | pollGrant t =>
    refine hquiet h fun y hy => ?_
    unfold Sys.pollGrant at hy
    split at hy
    · dsimp only at hy
      split at hy <;> cases hy <;> exact ha
    · cases hy
  | dropFuture t =>
    have hcancel (fields : List Field) : (x.cancelling t fields).actor = none := by
      unfold Sys.cancelling
      split <;> exact ha
    refine hquiet h fun y hy => ?_
    unfold Sys.dropFuture at hy
    split at hy
    · cases hy; exact hcancel _
    · cases hy; exact ha
    · cases hy; exact hcancel _
    · cases hy
  | sendCancel t =>
    refine hquiet h fun y hy => ?_
    unfold Sys.sendCancel at hy
    split at hy
    · cases hy; exact hsend _ _ ha
    · cases hy
  | dropField t =>
    refine hquiet h fun y hy => ?_
    unfold Sys.dropField at hy
    split at hy
    · rename_i field fields _
      cases field with
      | handle => cases hy; exact ha
      | granted =>
        cases hy
        unfold Sys.dropGrantReceiver
        dsimp only
        split
        · exact hsend _ _ ha
        · exact ha
      | response => cases hy; exact ha
    · cases hy
  | start t =>
    refine hquiet h fun y hy => ?_
    unfold Sys.startPermit at hy
    split at hy
    · split at hy
      · cases hy
      · cases hy; exact hsend _ _ ha
    · cases hy
  | complete t outcome observedAt =>
    simp only [Sys.client, Sys.complete] at h
    split at h
    · cases h
      exact ⟨hsend _ _ ha, rfl⟩
    · cases h
  | completeAndAwait t outcome =>
    simp only [Sys.client, Sys.completeAndAwait] at h
    split at h
    · cases h
      exact ⟨hsend _ _ ha, rfl⟩
    · cases h
  | dropPermit t =>
    refine hquiet h fun y hy => ?_
    unfold Sys.releasePermit at hy
    split at hy
    · cases hy; exact hsend _ _ ha
    · cases hy
  | command command =>
    simp only [Sys.client] at h
    split at h
    · cases h
      exact ⟨hsend _ _ ha, rfl⟩
    · cases h
  | cloneHandle | dropHandle =>
    simp only [Sys.client] at h
    split at h
    · cases h
      exact ⟨ha, rfl⟩
    · cases h
  | _ => cases h

/-- The invariant rule of the queue, put to use. -/
theorem inv_run {τ : List Event} {x : Sys} (hr : Run τ x) :
    AtMostOnce τ ∧ ∀ a, x.actor = some a → Inv τ x a := by
  refine Machine.Run.induct (I := fun τ x => AtMostOnce τ ∧ ∀ a, x.actor = some a → Inv τ x a) ?_ ?_ hr
  · rintro x ⟨limits, classLimits, aging, scheduler, capacity, clock, hs, -, rfl⟩
    refine ⟨fun _ => Nat.zero_le _, fun a ha => ?_⟩
    cases ha
    exact inv_new hs capacity clock
  · rintro τ x m x' e - ⟨hold, ih⟩ - hstep
    change x.step m = some (x', e) at hstep
    unfold Sys.step at hstep
    split at hstep
    · cases hstep
    · rename_i hclock
      have hlater := Nat.le_of_not_lt hclock
      cases ha : x.actor with
      | none =>
        dsimp only at hstep
        split at hstep
        · rename_i r hr
          cases hstep
          obtain ⟨hgone, he⟩ := client_gone (x := { x with clock := m.2 }) ha hr
          refine ⟨fun job => by rw [told_outside (Event.isCall.outside he)]; exact hold job, fun a ha' => ?_⟩
          rw [hgone] at ha'
          cases ha'
        · rw [ha] at hstep
          cases hstep
      | some a =>
        have h := (ih a ha).later hlater
        dsimp only at hstep
        split at hstep
        · rename_i r hr
          cases hstep
          have hcalls := Sys.client_cases (x := { x with clock := m.2 }) ha h.tokens.minted
            (fun t permit hs => (h.balanced.held t permit hs).1) hr
          have h' := h.calls hcalls
          refine ⟨h'.once.atMostOnce, fun a' ha' => ?_⟩
          have hsame : x'.actor = some a := by
            cases hcalls <;> exact ha
          rw [hsame] at ha'
          cases ha'
          exact h'
        · rw [ha] at hstep
          rcases h.acts hstep with ⟨a', ha', h'⟩ | ⟨hgone, rfl⟩
          · refine ⟨h'.once.atMostOnce, fun a'' ha'' => ?_⟩
            rw [ha'] at ha''
            cases ha''
            exact h'
          · refine ⟨hold, fun a' ha' => ?_⟩
            rw [hgone] at ha'
            cases ha'

/-! ## The protocol -/

/-- What holds of the permits after any steps of the callers and the actor. -/
structure PermitProtocol (τ : List Event) (x : Sys) : Prop where
  /-- The waiter of a job gets at most one of the three results. -/
  once : ∀ job, (told τ job).length ≤ 1
  /-- A job in flight has one live permit or one completion under way, any other
  job has none. -/
  guarded : ∀ a, x.actor = some a → (∀ grants now, a.phase ≠ .delivering grants now) →
    ∀ job, x.permits job + x.completions job = if a.scheduler.inFlight.contains job then 1 else 0
  /-- While a pass hands out its grants, the grant itself stands for the permit. -/
  handed : ∀ a, x.actor = some a → ∀ job, x.permits job + x.completions job + a.phase.owes job =
    if a.scheduler.inFlight.contains job then 1 else 0
  /-- A pending job is that of an acquire. -/
  owned : ∀ a, x.actor = some a → ∀ job, a.scheduler.live job = true → ∃ token, Owns τ job token
  /-- When the future of a pending job has been dropped, its `Cancel` is still
  in the channel, or on its way there. -/
  heeded : ∀ a, x.actor = some a → a.phase ≠ .closing → ∀ job token, a.scheduler.live job = true →
    Owns τ job token → (x.clients token).stage.dropped = true →
    .cancel token ∈ x.lifecycle ∨ ∃ fields, (x.clients token).stage = .cancelling fields

namespace Client.Attended

theorem cancels {c : Client} {answering cancelSent : Prop} (h : c.Attended answering cancelSent)
    (hd : c.stage.dropped = true) : cancelSent ∨ ∃ fields, c.stage = .cancelling fields := by
  rcases h.2 with ⟨-, hs | ⟨hs, -⟩⟩ | ⟨-, hs | ⟨-, hs⟩⟩
  · rw [hs] at hd; cases hd
  · rw [hs] at hd; cases hd
  · exact Or.inr hs
  · exact Or.inl hs

end Client.Attended

theorem Inv.owned {τ : List Event} {x : Sys} {a : OutboundActor} (h : Inv τ x a) {job : JobId}
    (hl : a.scheduler.live job = true) : ∃ t, Owns τ job t ∧ a.jobTokens.lookup job = some t := by
  obtain ⟨t, ht⟩ := h.maps.known job (Or.inl hl)
  exact ⟨t, (h.maps.job job t ht).1, ht⟩

theorem permit_protocol {τ : List Event} {x : Sys} (hr : Run τ x) : PermitProtocol τ x := by
  obtain ⟨honce, hinv⟩ := inv_run hr
  refine ⟨honce, fun a ha hp job => ?_, fun a ha => (hinv a ha).balanced.balance, fun a ha job hl => ?_,
    fun a ha hp job t hl ho hd => ?_⟩
  · have h := (hinv a ha).balanced.balance job
    have hnone : a.phase.owes job = 0 := by
      cases hphase : a.phase with
      | delivering grants now => exact absurd hphase (hp grants now)
      | _ => rfl
    rwa [hnone] at h
  · obtain ⟨t, ho, -⟩ := (hinv a ha).owned hl
    exact ⟨t, ho⟩
  · obtain ⟨u, hu, hlookup⟩ := (hinv a ha).owned hl
    cases (hinv a ha).tokens.token ho hu
    exact ((hinv a ha).served hp job t hl hlookup).cancels hd

/-- A queue without limits. -/
def openQueue : Sys := .new (.new (.initial ⟨[], []⟩ ⟨[], []⟩ ⟨1000, 255⟩) 10) 0

theorem openQueue_init : queue.init openQueue :=
  ⟨⟨[], []⟩, ⟨[], []⟩, ⟨1000, 255⟩, _, 10, 0, rfl, by decide, rfl⟩

def plainRequest : Request := ⟨.plain 10 none, none, .fifo, none⟩

/-- A future that is dropped with its permit still in the channel. -/
def droppedGrant : List (Action × Nat) :=
  [.mint plainRequest, .trySend 0, .runAdmission [] 9, .park, .accept, .answer, .runAdmission [] 9, .deliver, .park, .pollEnqueue 0,
    .dropFuture 0, .sendCancel 0, .dropField 0, .dropField 0].map (·, 0)

theorem permit_protocol_droppedGrant :
    ∃ τ x, queue.exec Machine.anything [] openQueue droppedGrant = some (τ, x) ∧
      told τ 0 = [.granted] ∧ x.completions 0 = 1 ∧ PermitProtocol τ x := by
  have h : (queue.exec Machine.anything [] openQueue droppedGrant).map
      (fun r => (told r.1 0, r.2.completions 0)) = some ([.granted], 1) := by decide
  obtain ⟨⟨τ, x⟩, he, hs⟩ := Option.map_eq_some_iff.mp h
  obtain ⟨htold, hcompletions⟩ := Prod.mk.inj hs
  exact ⟨τ, x, he, htold, hcompletions, permit_protocol (Machine.run_of_exec (.start openQueue_init) he)⟩

end Teloxide.Outbound.Actor
