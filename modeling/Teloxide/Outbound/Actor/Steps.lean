import Teloxide.Outbound.Actor.Ids
import Teloxide.Outbound.Actor.System

/-!
# What a step of the queue can do

* `Client.Moves`: how a poll, a call or a stage of a `Drop` changes one acquire,
  and the command it sends.
* `client_cases`: a step of a caller while the actor runs.
* `receive_cases`, `accept_cases`, `answer_cases`, `deliver_cases`: the handlers.
-/
namespace Teloxide.Outbound.Actor

open Teloxide.Core

namespace Clients

@[simp] theorem modify_same (clients : Clients) (t : Token) (f : Client → Client) :
    clients.modify t f t = f (clients t) := if_pos rfl

theorem modify_other (clients : Clients) {t u : Token} (f : Client → Client) (h : u ≠ t) :
    clients.modify t f u = clients u := if_neg h

theorem modify_modify (clients : Clients) (t : Token) (f g : Client → Client) :
    (clients.modify t f).modify t g = clients.modify t fun c => g (f c) := by
  funext u
  by_cases h : u = t
  · subst h; simp
  · rw [modify_other _ _ h, modify_other _ _ h, modify_other _ _ h]

theorem store_same (clients : Clients) (t : Token) (state : TokenState) :
    clients.store t state t = { clients t with tokenState := state } := modify_same _ _ _

theorem store_other (clients : Clients) {t u : Token} (state : TokenState) (h : u ≠ t) :
    clients.store t state u = clients u := modify_other _ _ h

theorem dropGranted_same (clients : Clients) (t : Token) :
    clients.dropGranted t t = { clients t with granted := (clients t).granted.dropSender } := modify_same _ _ _

theorem dropGranted_other (clients : Clients) {t u : Token} (h : u ≠ t) :
    clients.dropGranted t u = clients u := modify_other _ _ h

end Clients

/-! ## The callers -/

namespace Client

/-- No permit lies in the grant channel. -/
def NoPermit (c : Client) : Prop := ∀ permit, c.granted.value ≠ some (.granted permit)

/-- How one acquire moves, and the commands that leave it. -/
inductive Moves (t : Token) (c : Client) : Client → List OutboundCommand → Prop
  | accepted {sent job} : c.stage = .enqueuing sent → c.response.value = some (.ok job) →
      Moves t c { c with response := c.response.poll.1, stage := .waiting } []
  | refused {sent error} : c.stage = .enqueuing sent → ¬ c.response.Open →
      (∀ job, c.response.value ≠ some (.ok job)) →
      Moves t c { c with response := c.response.poll.1, stage := .failed error } []
  | granted {permit} : c.stage = .waiting → c.granted.value = some (.granted permit) →
      Moves t c { c with granted := c.granted.poll.1, stage := .holding permit } []
  | failed {error} : c.stage = .waiting → ¬ c.granted.Open → c.NoPermit →
      Moves t c { c with granted := c.granted.poll.1, stage := .failed error } []
  | cancels {fields} : c.stage = .enqueuing true ∨ c.stage = .waiting →
      c.tokenState = .pending ∨ c.tokenState = .accepted →
      Moves t c { c with tokenState := .cancelled, stage := .cancelling fields } []
  | leaves {fields} : c.stage = .enqueuing false ∨ c.tokenState = .cancelled ∨ c.tokenState = .terminal →
      (∃ sent, c.stage = .enqueuing sent) ∨ c.stage = .waiting →
      Moves t c { c with stage := .leaving fields } []
  | cancelled {fields} : c.stage = .cancelling fields →
      Moves t c { c with stage := .leaving fields } [.cancel t]
  | dropsHandle {fields} : c.stage = .leaving (.handle :: fields) →
      Moves t c { c with stage := .leaving fields } []
  | dropsPermit {fields permit now} : c.stage = .leaving (.granted :: fields) →
      c.granted.value = some (.granted permit) →
      Moves t c { c with granted := c.granted.dropReceiver.1, stage := .leaving fields }
        [.complete permit.job permit.correlationId permit.token .cancelledAfterGrant now false]
  | dropsGranted {fields} : c.stage = .leaving (.granted :: fields) → c.NoPermit →
      Moves t c { c with granted := c.granted.dropReceiver.1, stage := .leaving fields } []
  | dropsResponse {fields} : c.stage = .leaving (.response :: fields) →
      Moves t c { c with response := c.response.dropReceiver.1, stage := .leaving fields } []
  | starts {permit} : c.stage = .holding permit →
      Moves t c { c with stage := .holding { permit with started := true } }
        [.start permit.job permit.correlationId]
  | completes {permit state outcome observedAt ack} : c.stage = .holding permit →
      state = c.tokenState ∨ state = .terminal →
      Moves t c { c with stage := .finished, tokenState := state }
        [.complete permit.job permit.correlationId permit.token outcome observedAt ack]

end Client

namespace Sys

variable {x x' : Sys} {a : OutboundActor} {e : Event} {now : Nat}

/-- The state with one acquire moved and some commands sent. -/
def moved (x : Sys) (t : Token) (c : Client) (commands : List OutboundCommand) : Sys :=
  { x with clients := x.clients.modify t fun _ => c, lifecycle := x.lifecycle ++ commands }

/-- A step that sends some commands shows the completion among them, if it is
that of a permit. -/
def Shows (e : Event) (commands : List OutboundCommand) : Prop :=
  e = .quiet ∨ ∃ job c t outcome observedAt ack, e = .reported job outcome observedAt ∧
    commands = [.complete job c t outcome observedAt ack]

/-- What a step of a caller can do while the actor runs. -/
inductive Calls (x : Sys) (a : OutboundActor) : Sys → Event → Prop
  | mints {request} : x.nextToken < u64Size → Calls x a { x with
      nextToken := x.nextToken + 1
      futures := x.futures + 1
      clients := x.clients.setStage x.nextToken (.minted request) } .quiet
  | sends {t request} : (x.clients t).stage = .minted request →
      Calls x a { x with
        ingress := x.ingress ++ [⟨request, t⟩]
        clients := x.clients.setStage t (.enqueuing true) } (.sent t request)
  | overflows {t request c} : (x.clients t).stage = .minted request → c.stage = .enqueuing false →
      c.NoPermit → Calls x a (x.moved t c []) .quiet
  | moves {t c commands m n e} : (x.clients t).Moves t c commands → Shows e commands →
      Calls x a { x.moved t c commands with handles := m, futures := n } e
  | commands {l m} : (∀ c ∈ l, c.isPublic = true) →
      Calls x a { x with lifecycle := x.lifecycle ++ l, handles := m } .quiet

theorem send_alive (ha : x.actor = some a) (command : OutboundCommand) :
    x.send command = { x with lifecycle := x.lifecycle ++ [command] } := by
  unfold send
  split
  · rfl
  · rename_i hn
    rw [ha] at hn
    cases hn

theorem Calls.quiet {t : Token} {c : Client} {commands : List OutboundCommand} {m n : Nat}
    (h : (x.clients t).Moves t c commands) :
    x.Calls a { x.moved t c commands with handles := m, futures := n } .quiet :=
  .moves h (Or.inl rfl)

/-- A move that sends nothing. -/
theorem Calls.silent {t : Token} {c : Client} {clients : Clients} {handles futures : Nat}
    (h : (x.clients t).Moves t c []) (hc : clients = x.clients.modify t fun _ => c) :
    x.Calls a { x with clients := clients, handles := handles, futures := futures } .quiet := by
  have := Calls.quiet (a := a) (m := handles) (n := futures) h
  rw [moved, List.append_nil, ← hc] at this
  exact this

theorem setStage_modify {clients : Clients} {t : Token} {f : Client → Client} {stage : Stage} :
    (clients.modify t f).setStage t stage = clients.modify t fun _ => { f (clients t) with stage := stage } := by
  rw [Clients.setStage, Clients.modify_modify]
  funext u
  by_cases hu : u = t
  · subst hu; simp
  · simp [Clients.modify_other _ _ hu]

theorem setStage_eq {clients : Clients} {t : Token} {stage : Stage} :
    clients.setStage t stage = clients.modify t fun _ => { clients t with stage := stage } := by
  rw [Clients.setStage]
  funext u
  by_cases hu : u = t
  · subst hu; simp
  · simp [Clients.modify_other _ _ hu]

theorem trySend_cases {t : Token} (ha : x.actor = some a)
    (hn : ∀ r, (x.clients t).stage = .minted r → x.clients t = { Client.new with stage := .minted r })
    (h : x.trySend t = some (x', e)) : x.Calls a x' e := by
  unfold trySend at h
  split at h
  · rename_i request hs
    split at h
    · rename_i hnone
      rw [ha] at hnone
      cases hnone
    · split at h
      · cases h
        exact .sends hs
      · cases h
        have hnew := hn _ hs
        have hno : (⟨.pending, (Oneshot.channel.send (.error .queueFull)).1, Oneshot.channel.dropSender,
            .enqueuing false⟩ : Client).NoPermit := nofun
        have hover := Calls.overflows (a := a) hs rfl hno
        rw [moved, List.append_nil] at hover
        rw [Clients.sendResponse, Clients.dropGranted, Clients.modify_modify, setStage_modify, hnew]
        exact hover
  · cases h

theorem pollEnqueue_cases {t : Token} (h : x.pollEnqueue t = some x') : x.Calls a x' .quiet := by
  unfold pollEnqueue at h
  split at h
  · rename_i sent hs
    dsimp only at h
    split at h
    · cases h
    · rename_i job hr
      cases h
      exact .silent (.accepted hs (Oneshot.poll_ready hr)) setStage_modify
    · rename_i error hr
      cases h
      have hv := Oneshot.poll_ready hr
      exact .silent (.refused hs (fun ho => by rw [ho.2] at hv; cases hv) (fun job hj => by rw [hv] at hj; cases hj))
        setStage_modify
    · rename_i hr
      cases h
      have hv := Oneshot.poll_closed hr
      exact .silent (.refused hs hv.2 (fun job hj => by rw [hv.1] at hj; cases hj)) setStage_modify
  · cases h

theorem pollGrant_cases {t : Token} (h : x.pollGrant t = some x') : x.Calls a x' .quiet := by
  have hvalue {v : AcquireResult} (hv : (x.clients t).granted.value = some v) : ¬ (x.clients t).granted.Open :=
    fun ho => by rw [ho.2] at hv; cases hv
  unfold pollGrant at h
  split at h
  · rename_i hs
    dsimp only at h
    split at h
    · cases h
    · rename_i permit hr
      cases h
      exact .silent (.granted hs (Oneshot.poll_ready hr)) setStage_modify
    · rename_i hr
      cases h
      have hv := Oneshot.poll_ready hr
      exact .silent (.failed hs (hvalue hv) fun p hp => by rw [hv] at hp; cases hp) setStage_modify
    · rename_i hr
      cases h
      have hv := Oneshot.poll_ready hr
      exact .silent (.failed hs (hvalue hv) fun p hp => by rw [hv] at hp; cases hp) setStage_modify
    · rename_i hr
      cases h
      have hv := Oneshot.poll_closed hr
      exact .silent (.failed hs hv.2 fun p hp => by rw [hv.1] at hp; cases hp) setStage_modify
  · cases h

/-- The two compare-exchanges of a `Drop`. -/
theorem cancelling_cases {t : Token} {fields : List Field}
    (hs : (x.clients t).stage = .enqueuing true ∨ (x.clients t).stage = .waiting) :
    x.Calls a (x.cancelling t fields) .quiet := by
  have hstage : (∃ sent, (x.clients t).stage = .enqueuing sent) ∨ (x.clients t).stage = .waiting :=
    hs.imp_left fun h => ⟨_, h⟩
  unfold cancelling
  cases ht : (x.clients t).tokenState with
  | pending | accepted => exact .silent (.cancels hs (by simp [ht])) setStage_modify
  | cancelled | terminal => exact .silent (.leaves (Or.inr (by simp [ht])) hstage) setStage_eq

theorem dropFuture_cases {t : Token} (h : x.dropFuture t = some x') : x.Calls a x' .quiet := by
  unfold dropFuture at h
  split at h
  · rename_i hs
    cases h
    exact cancelling_cases (Or.inl hs)
  · rename_i hs
    cases h
    exact .silent (.leaves (Or.inl hs) (Or.inl ⟨_, hs⟩)) setStage_eq
  · rename_i hs
    cases h
    exact cancelling_cases (Or.inr hs)
  · cases h

/-- A move that sends a command. -/
theorem Calls.sending {t : Token} {c : Client} {clients : Clients} {command : OutboundCommand}
    (ha : x.actor = some a) (h : (x.clients t).Moves t c [command])
    (hc : clients = x.clients.modify t fun _ => c) (he : Shows e [command]) :
    x.Calls a ({ x with clients := clients }.send command) e := by
  rw [send_alive (x := { x with clients := clients }) (a := a) ha, hc]
  exact .moves (m := x.handles) (n := x.futures) h he

theorem sendCancel_cases {t : Token} (ha : x.actor = some a) (h : x.sendCancel t = some x') :
    x.Calls a x' .quiet := by
  unfold sendCancel at h
  split at h
  · rename_i fields hs
    cases h
    exact .sending ha (.cancelled hs) setStage_eq (Or.inl rfl)
  · cases h

theorem dropField_cases {t : Token} (ha : x.actor = some a) (h : x.dropField t now = some x') :
    x.Calls a x' .quiet := by
  have hmodify (clients : Clients) (stage : Stage) (f : Client → Client) :
      (clients.setStage t stage).modify t f = clients.modify t fun _ => f { clients t with stage := stage } := by
    rw [Clients.setStage, Clients.modify_modify]
    funext u
    by_cases hu : u = t
    · subst hu; simp
    · simp [Clients.modify_other _ _ hu]
  have hsame (stage : Stage) : (x.clients.setStage t stage t).granted = (x.clients t).granted := by
    rw [Clients.setStage, Clients.modify_same]
  unfold dropField at h
  split at h
  · rename_i field fields hs
    cases field with
    | handle =>
      cases h
      exact .silent (.dropsHandle hs) setStage_eq
    | granted =>
      cases h
      unfold dropGrantReceiver
      dsimp only
      rw [hsame]
      split
      · rename_i permit hp
        exact .sending ha (.dropsPermit hs hp) (hmodify _ _ _) (Or.inl rfl)
      · rename_i hp
        exact .silent (.dropsGranted hs hp) (hmodify _ _ _)
    | response =>
      cases h
      exact .silent (.dropsResponse hs) (hmodify _ _ _)
  · cases h

theorem startPermit_cases {t : Token} (ha : x.actor = some a) (h : x.startPermit t = some x') :
    x.Calls a x' .quiet := by
  unfold startPermit at h
  split at h
  · rename_i permit hs
    split at h
    · cases h
    · cases h
      exact .sending ha (.starts hs) setStage_eq (Or.inl rfl)
  · cases h

theorem complete_cases {t : Token} {outcome : OutboundCompletion} {observedAt : Nat}
    (ha : x.actor = some a) (hp : ∀ permit, (x.clients t).stage = .holding permit → permit.token = t)
    (h : x.complete t outcome observedAt = some (x', e)) : x.Calls a x' e := by
  unfold complete at h
  split at h
  · rename_i permit hs
    cases h
    refine .sending ha (.completes hs (Or.inr rfl)) ?_ (Or.inr ⟨_, _, _, _, _, _, rfl, rfl⟩)
    rw [hp permit hs, Clients.store, Clients.setStage, Clients.modify_modify]
    funext u
    by_cases hu : u = t
    · subst hu; simp
    · simp [Clients.modify_other _ _ hu]
  · cases h

theorem completeAndAwait_cases {t : Token} {outcome : OutboundCompletion} (ha : x.actor = some a)
    (h : x.completeAndAwait t outcome now = some (x', e)) : x.Calls a x' e := by
  unfold completeAndAwait at h
  split at h
  · rename_i permit hs
    cases h
    exact .sending ha (.completes hs (Or.inl rfl)) setStage_eq (Or.inr ⟨_, _, _, _, _, _, rfl, rfl⟩)
  · cases h

theorem releasePermit_cases {t : Token} (ha : x.actor = some a) (h : x.releasePermit t now = some x') :
    x.Calls a x' .quiet := by
  unfold releasePermit at h
  split at h
  · rename_i permit hs
    cases h
    exact .sending ha (.completes hs (Or.inl rfl)) setStage_eq (Or.inl rfl)
  · cases h

/-- A step of a caller; a permit is that of its holder. -/
theorem client_cases {action : Action} (ha : x.actor = some a)
    (hn : ∀ t r, (x.clients t).stage = .minted r → x.clients t = { Client.new with stage := .minted r })
    (hp : ∀ t permit, (x.clients t).stage = .holding permit → permit.token = t)
    (h : x.client now action = some (x', e)) : x.Calls a x' e := by
  have hquiet {o : Option Sys} (ho : o.map (·, Event.quiet) = some (x', e))
      (hc : ∀ y, o = some y → x.Calls a y .quiet) : x.Calls a x' e := by
    obtain ⟨y, hy, hx⟩ := Option.map_eq_some_iff.1 ho
    cases hx
    exact hc _ hy
  cases action with
  | mint request =>
    refine hquiet h fun y hy => ?_
    unfold mint at hy
    split at hy
    · cases hy
    · rename_i hm
      cases hy
      exact .mints (Nat.lt_of_not_le fun hle => hm (Or.inr hle))
  | trySend t => exact trySend_cases ha (hn t) h
  | pollEnqueue t => exact hquiet h fun _ => pollEnqueue_cases
  | pollGrant t => exact hquiet h fun _ => pollGrant_cases
  | dropFuture t => exact hquiet h fun _ => dropFuture_cases
  | sendCancel t => exact hquiet h fun _ => sendCancel_cases ha
  | dropField t => exact hquiet h fun _ => dropField_cases ha
  | start t => exact hquiet h fun _ => startPermit_cases ha
  | complete t outcome observedAt => exact complete_cases ha (hp t) h
  | completeAndAwait t outcome => exact completeAndAwait_cases ha h
  | dropPermit t => exact hquiet h fun _ => releasePermit_cases ha
  | command command =>
    simp only [client] at h
    split at h
    · rename_i hpublic
      cases h
      rw [send_alive ha]
      exact .commands (m := x.handles) fun c hc => List.mem_singleton.1 hc ▸ hpublic.2
    · cases h
  | cloneHandle =>
    simp only [client] at h
    split at h
    · cases h
      have := Calls.commands (x := x) (a := a) (l := []) (m := x.handles + 1) nofun
      rwa [List.append_nil] at this
    · cases h
  | dropHandle =>
    simp only [client] at h
    split at h
    · cases h
      have := Calls.commands (x := x) (a := a) (l := []) (m := x.handles - 1) nofun
      rwa [List.append_nil] at this
    · cases h
  | _ => cases h

end Sys

/-! ## The handlers -/

namespace OutboundActor

variable {a : OutboundActor} {clients : Clients} {job : JobId}

/-- The mappings of one job are gone and its token is over. -/
structure Forgets (a : OutboundActor) (clients : Clients) (job : JobId) (r : OutboundActor × Clients) :
    Prop where
  scheduler : r.1.scheduler = a.scheduler
  waiters : r.1.waiters = a.waiters
  phase : r.1.phase = a.phase
  jobTokens : ∀ j, r.1.jobTokens.lookup j = if j = job then none else a.jobTokens.lookup j
  pendingTokens : ∀ t, r.1.pendingTokens.lookup t =
    if a.jobTokens.lookup job = some t then none else a.pendingTokens.lookup t
  tokenStates : ∀ t, r.1.tokenStates.lookup t =
    if a.jobTokens.lookup job = some t then none else a.tokenStates.lookup t
  clients : ∀ t, r.2 t = clients t ∨
    a.jobTokens.lookup job = some t ∧ r.2 t = { clients t with tokenState := .terminal }

theorem forgetJob_forgets (a : OutboundActor) (clients : Clients) (job : JobId) :
    a.Forgets clients job (a.forgetJob clients job) := by
  unfold forgetJob
  cases hj : a.jobTokens.lookup job with
  | none =>
    refine ⟨rfl, rfl, rfl, fun j => ?_, fun t => ?_, fun t => ?_, fun t => Or.inl rfl⟩
    · by_cases h : j = job
      · rw [h, if_pos rfl]
        exact hj
      · rw [if_neg h]
    · rw [hj, if_neg nofun]
    · rw [hj, if_neg nofun]
  | some token =>
    dsimp only
    cases ht : a.tokenStates.lookup token with
    | none =>
      refine ⟨rfl, rfl, rfl, fun j => Table.lookup_erase_if _ _ _, fun t => ?_, fun t => ?_, fun t => Or.inl rfl⟩
      · simp only [Table.lookup_erase_if, hj, Option.some.injEq, eq_comm]
      · rw [hj]
        by_cases h : some token = some t
        · cases h
          rw [if_pos rfl]
          exact ht
        · rw [if_neg h]
    | some u =>
      dsimp only
      refine ⟨rfl, rfl, rfl, fun j => Table.lookup_erase_if _ _ _, fun t => ?_, fun t => ?_, fun t => ?_⟩
      · simp only [Table.lookup_erase_if, hj, Option.some.injEq, eq_comm]
      · simp only [Table.lookup_erase_if, hj, Option.some.injEq, eq_comm]
      · by_cases h : t = token
        · subst h
          exact Or.inr ⟨hj, Clients.store_same _ _ _⟩
        · exact Or.inl (Clients.store_other _ _ h)

/-- What is told to the waiter of a job, and to whom. -/
inductive Tells (a : OutboundActor) (clients : Clients) (job : JobId) (result : AcquireResult) :
    OutboundActor × Clients × Option JobId → Prop
  | nobody : a.waiters.lookup job = none → Tells a clients job result (a, clients, none)
  | sent {t} : a.waiters.lookup job = some t → (clients t).granted.receiver = true →
      Tells a clients job result ({ a with waiters := a.waiters.erase job },
        clients.modify t fun c => { c with granted := ⟨false, some result, true⟩ }, some job)
  | lost {t} : a.waiters.lookup job = some t →
      Tells a clients job result ({ a with waiters := a.waiters.erase job },
        clients.modify t fun c => { c with granted := c.granted.dropSender }, none)

theorem tell_tells (a : OutboundActor) (clients : Clients) (job : JobId) (result : AcquireResult) :
    a.Tells clients job result (a.tell clients job result) := by
  unfold tell
  cases hw : a.waiters.lookup job with
  | none => exact .nobody hw
  | some t =>
    dsimp only [Clients.sendGranted]
    cases hr : (clients t).granted.receiver with
    | true =>
      have hsent : ((clients t).granted.send result) = (⟨false, some result, true⟩, true) := by
        rw [Oneshot.send, if_pos hr]
      have heq : (clients.modify t fun c => { c with granted := (c.granted.send result).1 }) =
          clients.modify t fun c => { c with granted := ⟨false, some result, true⟩ } := by
        funext u
        by_cases hu : u = t
        · subst hu
          rw [Clients.modify_same, Clients.modify_same, hsent]
        · rw [Clients.modify_other _ _ hu, Clients.modify_other _ _ hu]
      rw [heq, hsent]
      exact .sent hw hr
    | false =>
      have hsent : ((clients t).granted.send result) = ((clients t).granted.dropSender, false) := by
        rw [Oneshot.send, if_neg (by rw [hr]; exact Bool.false_ne_true)]
        rfl
      have heq : (clients.modify t fun c => { c with granted := (c.granted.send result).1 }) =
          clients.modify t fun c => { c with granted := c.granted.dropSender } := by
        funext u
        by_cases hu : u = t
        · subst hu
          rw [Clients.modify_same, Clients.modify_same, hsent]
        · rw [Clients.modify_other _ _ hu, Clients.modify_other _ _ hu]
      rw [heq, hsent]
      exact .lost hw

end OutboundActor

end Teloxide.Outbound.Actor
