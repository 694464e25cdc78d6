import Teloxide.Core.Machine
import Teloxide.Core.Utf8
import Teloxide.Net.Response

/-!
# Webhooks (`crates/teloxide/src/update_listeners/webhooks.rs`, `webhooks/axum.rs`)

The handler of the requests that Telegram makes, with the listener it feeds, as one state
machine. Requests are handled at the same time: each goes on by itself from one use of what
is shared (the sender, the stop flag, the channel) to the next, in any order.

* The body of a request is awaited once its header has been checked; a client can only go
  away while it is. From there the handler runs to its end.
* A handler that has taken a sender holds a clone of it until it is done, also after the
  sender that is shared has been closed. The channel is closed when none is left.
* The router, once dropped, takes no more requests; those that it has taken go on.

The reader of JSON is a parameter (`read`), as are the types of the payloads (`Schema`).

* `webhook_delivers`: what has been sent is what was yielded and what is queued; an update is
  sent once, by an authorized request that is answered 200.
* `webhook_authentic`: the secret that Telegram is told lets a request in, and no other.
* `webhook_stops`: who can still send after a stop, and what the end of the stream means.
-/
namespace Teloxide.UpdateListeners.Webhooks

open Teloxide.Core Teloxide.Core.Serde Teloxide.Core.Utf8 Teloxide.Types

/-! ## Secrets -/

def charset : List Char := "abcdefghijklmnopqrstuvwxyzABCDEFGHIJKLMNOPQRSTUVWXYZ0123456789_-".toList

def secretLength : Nat := 32

/-- `draw` are the indices as they are drawn.
mirrors webhooks.rs:170-184 -/
def genSecretToken (draw : Nat → Fin charset.length) : Str := (List.range secretLength).map fun i => charset.get (draw i)

def isSupported (c : UInt8) : Bool :=
  (97 ≤ c && c ≤ 122) || (65 ≤ c && c ≤ 90) || (48 ≤ c && c ≤ 57) || c = 95 || c = 45

/-- mirrors webhooks.rs:186-200 -/
def checkSecret (bytes : List UInt8) : Except String (List UInt8) :=
  if ¬ (1 ≤ bytes.length ∧ bytes.length ≤ 256) then .error "secret token length must be in range 1..=256"
  else if bytes.any (!isSupported ·) then
    .error "secret token must only contain of `a-z`, `A-Z`, `0-9`, `_` and `-` characters"
  else .ok bytes

/-! ## Setting up -/

section setup

variable {Url File : Type}

/-- mirrors webhooks.rs:8-61 -/
structure Options (Url File : Type) where
  url : Url
  certificate : Option File
  maxConnections : Option UInt8
  dropPendingUpdates : Bool
  secretToken : Option Str

namespace Options

/-- mirrors webhooks.rs:66-77 -/
def new (url : Url) : Options Url File where
  url := url
  certificate := none
  maxConnections := none
  dropPendingUpdates := false
  secretToken := none

/-- Nothing where it panics.
mirrors webhooks.rs:116-120 -/
def setSecretToken (options : Options Url File) (token : Str) : Option (Options Url File) :=
  match checkSecret (bytes token) with
  | .ok _ => some { options with secretToken := some token }
  | .error _ => none

/-- mirrors webhooks.rs:129-131 -/
def getOrGenSecretToken (options : Options Url File) (draw : Nat → Fin charset.length) : Str × Options Url File :=
  let token := options.secretToken.getD (genSecretToken draw)
  (token, { options with secretToken := some token })

end Options

/-- mirrors payloads/set_webhook.rs:16-42 -/
structure SetWebhook (Url File : Type) where
  url : Url
  certificate : Option File
  ipAddress : Option String
  maxConnections : Option UInt8
  allowedUpdates : Option (List String)
  dropPendingUpdates : Option Bool
  secretToken : Option Str

/-- What Telegram is told, and what is left of the options.
mirrors webhooks.rs:145-166 -/
def setupWebhook (options : Options Url File) (draw : Nat → Fin charset.length) :
    SetWebhook Url File × Options Url File :=
  let (secret, options) := options.getOrGenSecretToken draw
  let req : SetWebhook Url File :=
    { url := options.url
      certificate := options.certificate
      ipAddress := none
      maxConnections := options.maxConnections
      allowedUpdates := none
      dropPendingUpdates := some options.dropPendingUpdates
      secretToken := some secret }
  (req, { options with certificate := none })

end setup

/-! ## Requests -/

/-- `body` is an answer of the extractor of the body. -/
inductive StatusCode where
  | ok
  | badRequest
  | unauthorized
  | serviceUnavailable
  | body
  deriving DecidableEq, Repr

/-- The value of the header with the secret, and the text of the body. -/
structure Request where
  header : Option (List UInt8)
  input : String
  deriving DecidableEq, Repr

/-- mirrors webhooks/axum.rs:269-293 -/
def secretHeader : Option (List UInt8) → Except StatusCode (Option (List UInt8))
  | none => .ok none
  | some header =>
    match checkSecret header with
    | .ok bytes => .ok (some bytes)
    | .error _ => .error .badRequest

/-- How far the handler has come; the last three are ends. -/
inductive Stage where
  | reading (token : Option (List UInt8))
  | comparing (token : Option (List UInt8))
  | holding
  | closing
  | passed
  | answered (status : StatusCode)
  | panicked
  | gone
  deriving DecidableEq, Repr

namespace Stage

/-- The handler has its share of the state. -/
def active : Stage → Bool
  | answered _ | panicked | gone => false
  | _ => true

/-- It has a sender of its own. -/
def holds : Stage → Bool
  | holding | closing | passed => true
  | _ => false

end Stage

structure Handler where
  request : Request
  stage : Stage
  deriving DecidableEq, Repr

/-! ## The system -/

variable (S : Schema) (read : String → Option Value)

/-- mirrors webhooks/axum.rs:189-195 -/
def incoming (input : String) : Decoded (Update S) := do
  let update ← Decoded.ofOption (read input) >>= Update.deserialize S
  match update.kind with
  | .typed .. => return update
  | .error _ => return { update with kind := .error (((read input).map Value.normal).getD .null) }

/-- `sender` is whether the sender that is shared is there, `router` and `listener` whether
these are; `queue` is what the channel holds. -/
structure Sys where
  secret : Option Str
  sender : Bool
  router : Bool
  listener : Bool
  stopped : Bool
  ended : Bool
  handlers : List Handler
  queue : List (Update S)

inductive Event where
  | moved
  | sent (request : Nat) (update : Update S)
  | yielded (update : Update S)
  | stopped
  | ended

inductive Action where
  | arrive (request : Request)
  | receive (request : Nat)
  | reject (request : Nat)
  | disconnect (request : Nat)
  | work (request : Nat)
  | stop
  | poll
  | dropListener
  | dropRouter
  deriving DecidableEq, Repr

variable {S}

namespace Sys

/-- mirrors webhooks/axum.rs:155-232 -/
def axumNoSetup (secretToken : Option Str) : Sys S where
  secret := secretToken
  sender := true
  router := true
  listener := true
  stopped := false
  ended := false
  handlers := []
  queue := []

def add (x : Sys S) (h : Handler) : Sys S :=
  { x with handlers := x.handlers ++ [h] }

def goto (x : Sys S) (i : Nat) (h : Handler) (stage : Stage) : Sys S :=
  { x with handlers := x.handlers.set i { h with stage := stage } }

/-- Whether a sender is left. -/
def connected (x : Sys S) : Bool :=
  (x.sender && (x.router || x.handlers.any (·.stage.active))) || x.handlers.any (·.stage.holds)

end Sys

/-- One piece of the handler, which ends before what is shared is used again.
mirrors webhooks/axum.rs:174-208 -/
def work (x : Sys S) (i : Nat) (h : Handler) : Option (Sys S × Event S) :=
  match h.stage with
  | .comparing token =>
    if token ≠ x.secret.map bytes then some (x.goto i h (.answered .unauthorized), .moved)
    else
      match x.sender with
      | false => some (x.goto i h (.answered .serviceUnavailable), .moved)
      | true => some (x.goto i h .holding, .moved)
  | .holding => some (x.goto i h (if x.stopped then .closing else .passed), .moved)
  | .closing => some ({ x.goto i h (.answered .serviceUnavailable) with sender := false }, .moved)
  | .passed =>
    match incoming S read h.request.input with
    | .ok update =>
      if x.listener then some ({ x.goto i h (.answered .ok) with queue := x.queue ++ [update] }, .sent i update)
      else some (x.goto i h .panicked, .moved)
    | .error .invalid => some (x.goto i h (.answered .ok), .moved)
    | .error .panicked => some (x.goto i h .panicked, .moved)
  | _ => none

/-- A poll that stays pending changes nothing and is no step. -/
def step (x : Sys S) : Action → Option (Sys S × Event S)
  | .arrive request =>
    if x.router then
      match secretHeader request.header with
      | .ok token => some (x.add ⟨request, .reading token⟩, .moved)
      | .error status => some (x.add ⟨request, .answered status⟩, .moved)
    else none
  | .receive i =>
    match x.handlers[i]? with
    | some ⟨request, .reading token⟩ => some (x.goto i ⟨request, .reading token⟩ (.comparing token), .moved)
    | _ => none
  | .reject i =>
    match x.handlers[i]? with
    | some ⟨request, .reading token⟩ => some (x.goto i ⟨request, .reading token⟩ (.answered .body), .moved)
    | _ => none
  | .disconnect i =>
    match x.handlers[i]? with
    | some ⟨request, .reading token⟩ => some (x.goto i ⟨request, .reading token⟩ .gone, .moved)
    | _ => none
  | .work i =>
    match x.handlers[i]? with
    | some h => work read x i h
    | none => none
  | .stop => some ({ x with stopped := true }, .stopped)
  | .poll =>
    if x.listener then
      match x.queue with
      | update :: queue => some ({ x with queue := queue }, .yielded update)
      | [] => if x.connected then none else some ({ x with ended := true }, .ended)
    else none
  | .dropListener => some ({ x with listener := false, queue := [] }, .moved)
  | .dropRouter => some ({ x with router := false }, .moved)

variable (S)

def machine (secretToken : Option Str) : Machine (Sys S) Action (Event S) where
  init x := x = Sys.axumNoSetup secretToken
  step := step read

variable {S}

/-! ## Secrets, checked -/

theorem secretHeader_error {header : Option (List UInt8)} {status : StatusCode} (h : secretHeader header = .error status) :
    status = .badRequest := by
  cases header with
  | none => cases h
  | some header =>
    simp only [secretHeader] at h
    split at h
    · cases h
    · cases h
      rfl

theorem checkSecret_ok {bytes token : List UInt8} (h : checkSecret bytes = .ok token) : token = bytes := by
  unfold checkSecret at h
  split at h
  · cases h
  · split at h
    · cases h
    · cases h
      rfl

/-- A header passes as it is. -/
theorem secretHeader_ok {header token : Option (List UInt8)} (h : secretHeader header = .ok token) : token = header := by
  cases header with
  | none =>
    cases h
    rfl
  | some header =>
    simp only [secretHeader] at h
    split at h
    · rename_i bytes hc
      cases h
      rw [checkSecret_ok hc]
    · cases h

theorem bytes_supported {s : Str} (h : ∀ c ∈ s, c ∈ charset) :
    (bytes s).length = s.length ∧ ∀ b ∈ bytes s, isSupported b = true := by
  have hall : charset.all (fun c => (String.utf8EncodeChar c).length = 1 ∧ (String.utf8EncodeChar c).all isSupported) = true := by
    decide
  induction s with
  | nil => exact ⟨rfl, fun b hb => by cases hb⟩
  | cons c s ih =>
    obtain ⟨hlen, hsup⟩ := ih fun d hd => h d (List.mem_cons_of_mem _ hd)
    obtain ⟨hone, hc⟩ := of_decide_eq_true (List.all_eq_true.1 hall c (h c List.mem_cons_self))
    refine ⟨?_, fun b hb => ?_⟩
    · rw [bytes_cons, List.length_append, hone, hlen, List.length_cons, Nat.add_comm]
    · rw [bytes_cons] at hb
      rcases List.mem_append.1 hb with hb | hb
      · exact List.all_eq_true.1 hc b hb
      · exact hsup b hb

/-- A secret that has been generated passes the check. -/
theorem checkSecret_genSecretToken (draw : Nat → Fin charset.length) :
    checkSecret (bytes (genSecretToken draw)) = .ok (bytes (genSecretToken draw)) := by
  obtain ⟨hlen, hsup⟩ := bytes_supported (s := genSecretToken draw) fun c hc => by
    obtain ⟨i, -, rfl⟩ := List.mem_map.1 hc
    exact List.get_mem _ _
  rw [genSecretToken, List.length_map, List.length_range] at hlen
  have hany : (bytes (genSecretToken draw)).any (!isSupported ·) = false := by
    rw [List.any_eq_false]
    intro b hb
    simp [hsup b hb]
  have hlong : ¬ ¬ (1 ≤ (bytes (genSecretToken draw)).length ∧ (bytes (genSecretToken draw)).length ≤ 256) := by
    rw [genSecretToken, hlen]
    decide
  rw [checkSecret, if_neg hlong, hany]
  rfl

/-! ## What a step can do -/

/-- A handler goes on and changes nothing else. -/
inductive Stage.Goes (x : Sys S) (request : Request) : Stage → Stage → Prop
  | received {token} : Goes x request (.reading token) (.comparing token)
  | rejected {token} : Goes x request (.reading token) (.answered .body)
  | left {token} : Goes x request (.reading token) .gone
  | refused {token} : token ≠ x.secret.map bytes → Goes x request (.comparing token) (.answered .unauthorized)
  | late {token} : token = x.secret.map bytes → x.sender = false →
      Goes x request (.comparing token) (.answered .serviceUnavailable)
  | held {token} : token = x.secret.map bytes → x.sender = true → Goes x request (.comparing token) .holding
  | noticed : x.stopped = true → Goes x request .holding .closing
  | passed : x.stopped = false → Goes x request .holding .passed
  | unparsed : incoming S read request.input = .error .invalid → Goes x request .passed (.answered .ok)
  | broken : incoming S read request.input = .error .panicked ∨ x.listener = false → Goes x request .passed .panicked

inductive Moves (x : Sys S) : Sys S → Event S → Prop
  | arrives {request token} : x.router = true → secretHeader request.header = .ok token →
      Moves x (x.add ⟨request, .reading token⟩) .moved
  | bounces {request status} : secretHeader request.header = .error status →
      Moves x (x.add ⟨request, .answered status⟩) .moved
  | goes {i h stage} : x.handlers[i]? = some h → Stage.Goes read x h.request h.stage stage → Moves x (x.goto i h stage) .moved
  | closes {i h} : x.handlers[i]? = some h → h.stage = .closing →
      Moves x { x.goto i h (.answered .serviceUnavailable) with sender := false } .moved
  | sends {i h update} : x.handlers[i]? = some h → h.stage = .passed → incoming S read h.request.input = .ok update →
      x.listener = true → Moves x { x.goto i h (.answered .ok) with queue := x.queue ++ [update] } (.sent i update)
  | stops : Moves x { x with stopped := true } .stopped
  | yields {update queue} : x.listener = true → x.queue = update :: queue → Moves x { x with queue := queue } (.yielded update)
  | ends : x.listener = true → x.queue = [] → x.connected = false → Moves x { x with ended := true } .ended
  | unheard : Moves x { x with listener := false, queue := [] } .moved
  | unrouted : Moves x { x with router := false } .moved

section
variable {read} {x x' : Sys S} {e : Event S}

theorem work_moves {i : Nat} {h : Handler} (hi : x.handlers[i]? = some h) (hw : work read x i h = some (x', e)) :
    Moves read x x' e := by
  unfold work at hw
  split at hw
  · rename_i token hs
    split at hw
    · rename_i hne
      cases hw
      exact .goes hi (hs ▸ .refused hne)
    · rename_i heq
      split at hw
      · rename_i hsender
        cases hw
        exact .goes hi (hs ▸ .late (not_not.1 heq) hsender)
      · rename_i hsender
        cases hw
        exact .goes hi (hs ▸ .held (not_not.1 heq) hsender)
  · rename_i hs
    cases hw
    split
    · rename_i hstop
      exact .goes hi (hs ▸ .noticed hstop)
    · rename_i hstop
      exact .goes hi (hs ▸ .passed (Bool.eq_false_iff.2 hstop))
  · rename_i hs
    cases hw
    exact .closes hi hs
  · rename_i hs
    split at hw
    · rename_i update hin
      split at hw
      · rename_i hl
        cases hw
        exact .sends hi hs hin hl
      · rename_i hl
        cases hw
        exact .goes hi (hs ▸ .broken (Or.inr (Bool.eq_false_iff.2 hl)))
    · rename_i hin
      cases hw
      exact .goes hi (hs ▸ .unparsed hin)
    · rename_i hin
      cases hw
      exact .goes hi (hs ▸ .broken (Or.inl hin))
  · cases hw

theorem step_moves {action : Action} (h : step read x action = some (x', e)) : Moves read x x' e := by
  cases action with
  | arrive request =>
    simp only [step] at h
    split at h
    · rename_i hrouter
      split at h
      · rename_i token ht
        cases h
        exact .arrives hrouter ht
      · rename_i status ht
        cases h
        exact .bounces ht
    · cases h
  | receive i =>
    simp only [step] at h
    split at h
    · rename_i request token hi
      cases h
      exact .goes hi .received
    · cases h
  | reject i =>
    simp only [step] at h
    split at h
    · rename_i request token hi
      cases h
      exact .goes hi .rejected
    · cases h
  | disconnect i =>
    simp only [step] at h
    split at h
    · rename_i request token hi
      cases h
      exact .goes hi .left
    · cases h
  | work i =>
    simp only [step] at h
    split at h
    · rename_i h' hi
      exact work_moves hi h
    · cases h
  | stop =>
    cases h
    exact .stops
  | poll =>
    simp only [step] at h
    split at h
    · rename_i hl
      split at h
      · rename_i update queue hq
        cases h
        exact .yields hl hq
      · rename_i hq
        split at h
        · cases h
        · rename_i hc
          cases h
          exact .ends hl hq (Bool.eq_false_iff.2 hc)
    · cases h
  | dropListener =>
    cases h
    exact .unheard
  | dropRouter =>
    cases h
    exact .unrouted

end

/-! ## What has been sent, and what has come out -/

/-- With the request that each comes from, newest first. -/
def sends : List (Event S) → List (Nat × Update S)
  | [] => []
  | .sent i update :: τ => (i, update) :: sends τ
  | _ :: τ => sends τ

def yields : List (Event S) → List (Update S)
  | [] => []
  | .yielded update :: τ => update :: yields τ
  | _ :: τ => yields τ

theorem mem_sends_cons {e : Event S} {τ : List (Event S)} {i : Nat} {update : Update S} :
    (i, update) ∈ sends (e :: τ) ↔ e = .sent i update ∨ (i, update) ∈ sends τ := by
  cases e with
  | sent j u =>
    rw [sends, List.mem_cons, Event.sent.injEq, Prod.mk.injEq]
    exact or_congr_left (and_congr eq_comm eq_comm)
  | moved | yielded | stopped | ended => exact ⟨Or.inr, fun h => h.resolve_left fun he => by cases he⟩

/-! ## Every run -/

/-- The request has the secret, as it was set. -/
def Authorized (secret : Option Str) (request : Request) : Prop := secretHeader request.header = .ok (secret.map bytes)

/-- What the stage of a handler tells about its request, and about what is shared. -/
def Stage.Sound (x : Sys S) (request : Request) : Stage → Prop
  | .reading token | .comparing token => secretHeader request.header = .ok token
  | .holding | .passed | .panicked | .answered .ok => Authorized x.secret request
  | .closing => Authorized x.secret request ∧ x.stopped = true
  | .answered .serviceUnavailable => Authorized x.secret request ∧ x.sender = false
  | .answered .badRequest => secretHeader request.header = .error .badRequest
  | .answered .unauthorized => ∃ token, secretHeader request.header = .ok token ∧ token ≠ x.secret.map bytes
  | .answered .body | .gone => ∃ token, secretHeader request.header = .ok token

/-- How a handler that a step has moved has got where it is. -/
inductive Handled (x x' : Sys S) (k : Nat) (request : Request) : Stage → Event S → Prop
  | starts {token e} : x.router = true → secretHeader request.header = .ok token → Handled x x' k request (.reading token) e
  | bounced {e} : secretHeader request.header = .error .badRequest → Handled x x' k request (.answered .badRequest) e
  | goes {stage stage' e} : x.handlers[k]? = some ⟨request, stage⟩ → Stage.Goes read x request stage stage' →
      Handled x x' k request stage' e
  | closed {e} : x.handlers[k]? = some ⟨request, .closing⟩ → x'.sender = false →
      Handled x x' k request (.answered .serviceUnavailable) e
  | sent {update} : x.handlers[k]? = some ⟨request, .passed⟩ → incoming S read request.input = .ok update →
      Handled x x' k request (.answered .ok) (.sent k update)

/-- What is shared only goes one way. -/
structure Onward (x x' : Sys S) : Prop where
  secret : x'.secret = x.secret
  sender : x.sender = false → x'.sender = false
  stopped : x.stopped = true → x'.stopped = true
  router : x.router = false → x'.router = false

section
variable {read} {x x' : Sys S} {e : Event S}

theorem Moves.onward (hm : Moves read x x' e) : Onward x x' := by
  cases hm with
  | closes => exact ⟨rfl, fun _ => rfl, id, id⟩
  | stops => exact ⟨rfl, id, fun _ => rfl, id⟩
  | unrouted => exact ⟨rfl, id, id, fun _ => rfl⟩
  | _ => exact ⟨rfl, id, id, id⟩

theorem Stage.Sound.onward {request : Request} {stage : Stage} (h : stage.Sound x request) (ho : Onward x x') :
    stage.Sound x' request := by
  have hauth (hs : Authorized x.secret request) : Authorized x'.secret request := by rwa [ho.secret]
  cases stage with
  | answered status =>
    cases status with
    | ok => exact hauth h
    | serviceUnavailable => exact ⟨hauth h.1, ho.sender h.2⟩
    | unauthorized =>
      obtain ⟨token, ht, hne⟩ := h
      exact ⟨token, ht, by rwa [ho.secret]⟩
    | badRequest | body => exact h
  | closing => exact ⟨hauth h.1, ho.stopped h.2⟩
  | holding | passed | panicked => exact hauth h
  | reading | comparing | gone => exact h

theorem Stage.Goes.sound {request : Request} {stage stage' : Stage} (hg : Stage.Goes read x request stage stage')
    (h : stage.Sound x request) : stage'.Sound x request := by
  cases hg with
  | received => exact h
  | rejected => exact ⟨_, h⟩
  | left => exact ⟨_, h⟩
  | refused hne => exact ⟨_, h, hne⟩
  | late heq hsender =>
    subst heq
    exact ⟨h, hsender⟩
  | held heq _ =>
    subst heq
    exact h
  | noticed hstop => exact ⟨h, hstop⟩
  | passed | unparsed | broken => exact h

theorem goto_cases {i k : Nat} {h h' : Handler} {stage : Stage} (hi : x.handlers[i]? = some h)
    (hk : (x.goto i h stage).handlers[k]? = some h') :
    k = i ∧ h' = ⟨h.request, stage⟩ ∨ k ≠ i ∧ x.handlers[k]? = some h' := by
  by_cases hki : k = i
  · subst hki
    have hlt := (List.getElem?_eq_some_iff.1 hi).1
    rw [Sys.goto, List.getElem?_set_self hlt] at hk
    exact Or.inl ⟨rfl, (Option.some.inj hk).symm⟩
  · rw [Sys.goto, List.getElem?_set_ne (Ne.symm hki)] at hk
    exact Or.inr ⟨hki, hk⟩

theorem goto_self {i : Nat} {h : Handler} (stage : Stage) (hi : x.handlers[i]? = some h) :
    (x.goto i h stage).handlers[i]? = some ⟨h.request, stage⟩ := by
  rw [Sys.goto, List.getElem?_set_self (List.getElem?_eq_some_iff.1 hi).1]

theorem goto_other {i k : Nat} {h : Handler} (stage : Stage) (hk : k ≠ i) :
    (x.goto i h stage).handlers[k]? = x.handlers[k]? := by
  rw [Sys.goto, List.getElem?_set_ne (Ne.symm hk)]

theorem add_cases {k : Nat} {h h' : Handler} (hk : (x.add h).handlers[k]? = some h') :
    h' = h ∨ x.handlers[k]? = some h' := by
  rw [Sys.add, List.getElem?_append] at hk
  split at hk
  · exact Or.inr hk
  · exact Or.inl (List.mem_singleton.1 (List.mem_of_getElem? hk))

theorem Moves.handler (hm : Moves read x x' e) {k : Nat} {h : Handler} (hk : x'.handlers[k]? = some h) :
    x.handlers[k]? = some h ∨ Handled read x x' k h.request h.stage e := by
  cases hm with
  | arrives hrouter ht =>
    rcases add_cases hk with rfl | hk
    · exact Or.inr (.starts hrouter ht)
    · exact Or.inl hk
  | bounces ht =>
    rcases add_cases hk with rfl | hk
    · cases secretHeader_error ht
      exact Or.inr (.bounced ht)
    · exact Or.inl hk
  | goes hi hg =>
    rcases goto_cases hi hk with ⟨rfl, rfl⟩ | ⟨-, hk⟩
    · exact Or.inr (.goes hi hg)
    · exact Or.inl hk
  | @closes i h hi hs =>
    obtain ⟨request, stage⟩ := h
    cases hs
    rcases goto_cases hi hk with ⟨rfl, rfl⟩ | ⟨-, hk⟩
    · exact Or.inr (.closed hi rfl)
    · exact Or.inl hk
  | @sends i h update hi hs hin =>
    obtain ⟨request, stage⟩ := h
    cases hs
    rcases goto_cases hi hk with ⟨rfl, rfl⟩ | ⟨-, hk⟩
    · exact Or.inr (.sent hi hin)
    · exact Or.inl hk
  | stops | yields | ends | unheard | unrouted => exact Or.inl hk

/-- An answer is final. -/
theorem Moves.answered (hm : Moves read x x' e) {k : Nat} {request : Request} {status : StatusCode}
    (hk : x.handlers[k]? = some ⟨request, .answered status⟩) : x'.handlers[k]? = some ⟨request, .answered status⟩ := by
  have hgoto {i : Nat} {h : Handler} (stage : Stage) (hi : x.handlers[i]? = some h)
      (hne : h.stage ≠ .answered status) : (x.goto i h stage).handlers[k]? = some ⟨request, .answered status⟩ := by
    rw [goto_other stage, hk]
    rintro rfl
    rw [hk] at hi
    cases hi
    exact hne rfl
  have hadd (h : Handler) : (x.add h).handlers[k]? = some ⟨request, .answered status⟩ := by
    rw [Sys.add, List.getElem?_append_left (List.getElem?_eq_some_iff.1 hk).1, hk]
  cases hm with
  | arrives | bounces => exact hadd _
  | @goes i h stage hi hg =>
    refine hgoto stage hi fun hs => ?_
    rw [hs] at hg
    cases hg
  | closes hi hs => exact hgoto _ hi fun he => by rw [hs] at he; cases he
  | sends hi hs => exact hgoto _ hi fun he => by rw [hs] at he; cases he
  | stops | yields | ends | unheard | unrouted => exact hk

end

/-- What holds of every run. -/
structure Inv (τ : List (Event S)) (x : Sys S) : Prop where
  sound : ∀ (i : Nat) (h : Handler), x.handlers[i]? = some h → h.stage.Sound x h.request
  sent : ∀ (i : Nat) (update : Update S), (i, update) ∈ sends τ ↔
    ∃ request : Request, x.handlers[i]? = some ⟨request, .answered .ok⟩ ∧ incoming S read request.input = .ok update
  once : ((sends τ).map Prod.fst).Nodup
  queued : x.listener = true → (sends τ).map Prod.snd = x.queue.reverse ++ yields τ
  yielded : yields τ <:+ (sends τ).map Prod.snd
  closed : x.sender = false →
    x.stopped = true ∧ ∃ (i : Nat) (request : Request), x.handlers[i]? = some ⟨request, .answered .serviceUnavailable⟩
  stopped : x.stopped = true ↔ .stopped ∈ τ
  ended : x.ended = true ↔ .ended ∈ τ

section
variable {read} {τ : List (Event S)} {x x' : Sys S} {e : Event S}

theorem Moves.sent {i : Nat} {update : Update S} (hm : Moves read x x' (.sent i update)) :
    ∃ request, x.handlers[i]? = some ⟨request, .passed⟩ ∧ x'.handlers[i]? = some ⟨request, .answered .ok⟩ ∧
      incoming S read request.input = .ok update := by
  cases hm with
  | @sends _ h _ hi hs hin =>
    obtain ⟨request, stage⟩ := h
    cases hs
    exact ⟨request, hi, goto_self _ hi, hin⟩

theorem Inv.step (h : Inv read τ x) (hm : Moves read x x' e) : Inv read (e :: τ) x' where
  sound i g hg := by
    rcases hm.handler hg with hg | hg
    · exact (h.sound i g hg).onward hm.onward
    · obtain ⟨request, stage⟩ := g
      cases hg with
      | starts _ ht => exact ht
      | bounced ht => exact ht
      | goes hi hgo => exact (hgo.sound (h.sound i _ hi)).onward hm.onward
      | closed hi hsender => exact ⟨((h.sound i _ hi).onward hm.onward).1, hsender⟩
      | sent hi _ => exact (h.sound i _ hi).onward hm.onward
  sent i update := by
    rw [mem_sends_cons]
    constructor
    · rintro (rfl | hmem)
      · obtain ⟨request, -, hi, hin⟩ := hm.sent
        exact ⟨request, hi, hin⟩
      · obtain ⟨request, hi, hin⟩ := (h.sent i update).1 hmem
        exact ⟨request, hm.answered hi, hin⟩
    · rintro ⟨request, hi, hin⟩
      rcases hm.handler hi with hi | hg
      · exact Or.inr ((h.sent i update).2 ⟨request, hi, hin⟩)
      · cases hg with
        | goes _ hgo =>
          cases hgo with
          | unparsed hno =>
            rw [hin] at hno
            cases hno
        | sent _ hin' =>
          cases hin'.symm.trans hin
          exact Or.inl rfl
  once := by
    cases e with
    | sent i update =>
      obtain ⟨request, hi, -⟩ := hm.sent
      refine List.nodup_cons.2 ⟨fun hmem => ?_, h.once⟩
      obtain ⟨⟨j, u⟩, hu, hj⟩ := List.mem_map.1 hmem
      cases hj
      obtain ⟨r, hr, -⟩ := (h.sent _ _).1 hu
      rw [hi] at hr
      cases hr
    | moved | yielded | stopped | ended => exact h.once
  queued hl := by
    cases hm with
    | @sends i g update _ _ _ hl =>
      have hq := h.queued hl
      simp only [sends, yields, List.map_cons, List.reverse_append, List.reverse_cons, List.reverse_nil, List.nil_append,
        List.cons_append, hq]
    | yields hl hqueue =>
      have hq := h.queued hl
      rw [hqueue, List.reverse_cons, List.append_assoc] at hq
      exact hq
    | unheard => cases hl
    | arrives | bounces | goes | closes | stops | ends | unrouted => exact h.queued hl
  yielded := by
    cases hm with
    | sends => exact h.yielded.trans (List.suffix_cons _ _)
    | yields hl hqueue =>
      have hq := h.queued hl
      rw [hqueue, List.reverse_cons, List.append_assoc] at hq
      exact ⟨_, hq.symm⟩
    | arrives | bounces | goes | closes | stops | ends | unheard | unrouted => exact h.yielded
  closed hsender := by
    by_cases hx : x.sender = false
    · obtain ⟨hstop, i, request, hi⟩ := h.closed hx
      exact ⟨hm.onward.stopped hstop, i, request, hm.answered hi⟩
    · cases hm with
      | @closes i g hi hs =>
        have hsound := h.sound i g hi
        rw [hs] at hsound
        exact ⟨hsound.2, i, g.request, goto_self _ hi⟩
      | arrives | bounces | goes | sends | stops | yields | ends | unheard | unrouted => exact absurd hsender hx
  stopped := by
    cases hm with
    | stops => exact ⟨fun _ => List.mem_cons_self, fun _ => rfl⟩
    | arrives | bounces | goes | closes | sends | yields | ends | unheard | unrouted =>
      rw [List.mem_cons, ← h.stopped]
      exact ⟨Or.inr, fun hmem => hmem.resolve_left fun he => by cases he⟩
  ended := by
    cases hm with
    | ends => exact ⟨fun _ => List.mem_cons_self, fun _ => rfl⟩
    | arrives | bounces | goes | closes | sends | stops | yields | unheard | unrouted =>
      rw [List.mem_cons, ← h.ended]
      exact ⟨Or.inr, fun hmem => hmem.resolve_left fun he => by cases he⟩

theorem Inv.start (secretToken : Option Str) : Inv read [] (Sys.axumNoSetup (S := S) secretToken) where
  sound i h hi := by cases hi
  sent i update := by
    constructor
    · intro hm
      cases hm
    · rintro ⟨request, hi, -⟩
      cases hi
  once := List.nodup_nil
  queued _ := rfl
  yielded := List.suffix_rfl
  closed hs := by cases hs
  stopped := ⟨(fun hs => by cases hs), fun hm => by cases hm⟩
  ended := ⟨(fun hs => by cases hs), fun hm => by cases hm⟩

theorem inv_of_run {secretToken : Option Str} (hr : (machine S read secretToken).Run Machine.anything τ x) :
    Inv read τ x ∧ x.secret = secretToken := by
  refine Machine.Run.induct (I := fun τ x => Inv read τ x ∧ x.secret = secretToken) ?_ ?_ hr
  · intro x hx
    subst hx
    exact ⟨.start secretToken, rfl⟩
  · intro τ x action x' e _ ih _ hs
    have hm := step_moves hs
    exact ⟨ih.1.step hm, hm.onward.secret.trans ih.2⟩

/-! ## The end of the stream -/

theorem connected_eq_false : x.connected = false ↔
    (x.sender = true → x.router = false ∧ ∀ h ∈ x.handlers, h.stage.active = false) ∧
      ∀ h ∈ x.handlers, h.stage.holds = false := by
  simp only [Sys.connected, Bool.or_eq_false_iff, List.any_eq_false, Bool.not_eq_true]
  refine and_congr_left fun _ => ?_
  cases x.sender with
  | false => simp
  | true => simp [List.any_eq_false]

theorem Stage.Goes.active {request : Request} {stage stage' : Stage} (hg : Stage.Goes read x request stage stage') :
    stage.active = true := by
  cases hg <;> rfl

/-- Where no sender is left there is none again. -/
theorem Moves.disconnected (hm : Moves read x x' e) (hc : x.connected = false) :
    x'.connected = false ∧ ∀ i update, e ≠ .sent i update := by
  obtain ⟨hshared, hown⟩ := connected_eq_false.1 hc
  have hfree {i : Nat} {request : Request} {stage : Stage} (hi : x.handlers[i]? = some ⟨request, stage⟩) :
      stage.holds = false := hown _ (List.mem_of_getElem? hi)
  refine ⟨connected_eq_false.2 ⟨fun hs => ?_, fun h hh => ?_⟩, fun i update he => ?_⟩
  · have hsender : x.sender = true := Bool.of_not_eq_false fun hf => by rw [hm.onward.sender hf] at hs; cases hs
    obtain ⟨hrouter, hidle⟩ := hshared hsender
    refine ⟨hm.onward.router hrouter, fun h hh => ?_⟩
    obtain ⟨i, hi⟩ := List.getElem?_of_mem hh
    rcases hm.handler hi with hi | hg
    · exact hidle h (List.mem_of_getElem? hi)
    · obtain ⟨request, stage⟩ := h
      cases hg with
      | starts hr _ =>
        rw [hrouter] at hr
        cases hr
      | bounced _ => rfl
      | goes hi hgo =>
        have := hidle _ (List.mem_of_getElem? hi)
        rw [hgo.active] at this
        cases this
      | closed hi _ | sent hi _ => rfl
  · obtain ⟨i, hi⟩ := List.getElem?_of_mem hh
    rcases hm.handler hi with hi | hg
    · exact hown h (List.mem_of_getElem? hi)
    · obtain ⟨request, stage⟩ := h
      cases hg with
      | starts | bounced | closed | sent => rfl
      | goes hi hgo =>
        cases hgo with
        | held _ hsender =>
          have := (hshared hsender).2 _ (List.mem_of_getElem? hi)
          cases this
        | noticed | passed => cases hfree hi
        | received | rejected | left | refused | late | unparsed | broken => rfl
  · subst he
    obtain ⟨request, hi, -⟩ := hm.sent
    cases hfree hi

/-- A stream that has ended has nothing left, and nothing more comes. -/
theorem done_of_run {secretToken : Option Str} (hr : (machine S read secretToken).Run Machine.anything τ x) :
    x.ended = true → x.connected = false ∧ (x.listener = true → x.queue = []) := by
  refine Machine.Run.induct
    (I := fun _ x => x.ended = true → x.connected = false ∧ (x.listener = true → x.queue = [])) ?_ ?_ hr
  · intro x hx he
    subst hx
    cases he
  · intro τ x action x' e _ ih _ hs he
    have hm := step_moves hs
    by_cases hx : x.ended = true
    · obtain ⟨hc, hq⟩ := ih hx
      obtain ⟨hc', hunsent⟩ := hm.disconnected hc
      refine ⟨hc', ?_⟩
      cases hm with
      | sends => exact absurd rfl (hunsent _ _)
      | yields hl hqueue =>
        rw [hq hl] at hqueue
        cases hqueue
      | unheard => exact fun _ => rfl
      | arrives | bounces | goes | closes | stops | ends | unrouted => exact hq
    · cases hm with
      | ends _ hq hc => exact ⟨hc, fun _ => hq⟩
      | arrives | bounces | goes | closes | sends | stops | yields | unheard | unrouted => exact absurd he hx

/-- After a stop no handler finds the flag unset. -/
theorem passed_of_path {secretToken : Option Str} {τ' : List (Event S)} (hp : (machine S read secretToken).Path x τ' x')
    (hstop : x.stopped = true) : x'.stopped = true ∧
      (∀ (i : Nat) (request : Request), x'.handlers[i]? = some ⟨request, .passed⟩ → x.handlers[i]? = some ⟨request, .passed⟩) ∧
      ∀ (i : Nat) (update : Update S), (i, update) ∈ sends τ' → ∃ request, x.handlers[i]? = some ⟨request, .passed⟩ := by
  induction hp with
  | refl => exact ⟨hstop, fun _ _ hi => hi, fun i update hm => by cases hm⟩
  | step _ hs ih =>
    have hm := step_moves hs
    obtain ⟨hstop', hpassed, hsent⟩ := ih
    refine ⟨hm.onward.stopped hstop', fun i request hi => ?_, fun i update hmem => ?_⟩
    · rcases hm.handler hi with hi | hg
      · exact hpassed i request hi
      · cases hg with
        | goes _ hgo =>
          cases hgo with
          | passed hunset =>
            rw [hstop'] at hunset
            cases hunset
    · rcases mem_sends_cons.1 hmem with rfl | hmem
      · obtain ⟨request, hi, -⟩ := hm.sent
        exact ⟨request, hpassed i request hi⟩
      · exact hsent i update hmem

theorem disconnected_of_path {secretToken : Option Str} {τ' : List (Event S)}
    (hp : (machine S read secretToken).Path x τ' x') (hc : x.connected = false) : x'.connected = false ∧ sends τ' = [] := by
  induction hp with
  | refl => exact ⟨hc, rfl⟩
  | @step τ' x₁ a x₂ e _ hs ih =>
    obtain ⟨hc₁, hnone⟩ := ih
    obtain ⟨hc₂, hunsent⟩ := (step_moves hs).disconnected hc₁
    refine ⟨hc₂, List.eq_nil_iff_forall_not_mem.2 fun ⟨i, update⟩ hmem => ?_⟩
    rcases mem_sends_cons.1 hmem with he | hmem
    · exact hunsent i update he
    · rw [hnone] at hmem
      cases hmem

/-! ## Updates and their requests -/

/-- What is sent stands for the object in the request; only a change of a reaction without its
actor cannot be. -/
theorem incoming_fits {input : String} {object : List (String × Value)} (hread : read input = some (.object object))
    (hd : (Value.object object).Distinct) (hid : ∃ id, updateId object = some id) :
    (Unattributed S object → incoming S read input = .error .panicked) ∧
      (¬ Unattributed S object → ∃ update, incoming S read input = .ok update ∧ Net.Fits S object update) := by
  constructor
  · intro hu
    rw [incoming, hread]
    change (Update.deserialize S (.object object) >>= _) = _
    rw [Net.deserialize_panicked hd hid hu]
    rfl
  · intro hu
    obtain ⟨⟨id, kind⟩, hupdate, hplain, herror⟩ := Net.deserialize_ok hd hid hu
    have hin : incoming S read input = Update.deserialize S (.object object) >>= fun update =>
        match update.kind with
        | .typed .. => .ok update
        | .error _ => .ok { update with kind := .error (.object object) } := by
      rw [incoming, hread]
      change (Update.deserialize S (.object object) >>= _) = _
      rw [Option.map_some, Option.getD_some, hd]
      rfl
    rw [hin, hupdate]
    cases kind with
    | typed variant payload => exact ⟨_, rfl, hplain rfl⟩
    | error value => exact ⟨_, rfl, herror rfl⟩

end

/-! ## Webhooks -/

/-- An update of a kind that is not known. -/
def laterUpdate : List (String × Value) := [("update_id", .number (.int 8)), ("later", .bool true)]

def laterRequest : Request := ⟨some (bytes "s-1".toList), Net.textOf (.object laterUpdate)⟩

theorem incoming_later : incoming Net.plainSchema Net.readText laterRequest.input = .ok ⟨8, .error (.object laterUpdate)⟩ := by
  have hread : Net.readText laterRequest.input = some (.object laterUpdate) :=
    Net.readText_textOf (show (Value.object laterUpdate).Distinct from rfl)
  rw [incoming, hread]
  rfl

def webhook : Machine (Sys Net.plainSchema) Action (Event Net.plainSchema) :=
  machine Net.plainSchema Net.readText (some "s-1".toList)

/-- The handler has found the flag unset. -/
def passedState : Sys Net.plainSchema :=
  { Sys.axumNoSetup (some "s-1".toList) with handlers := [⟨laterRequest, .passed⟩] }

theorem passed_run : webhook.Run Machine.anything [.moved, .moved, .moved, .moved] passedState :=
  Machine.run_of_exec (.start rfl) (show webhook.exec Machine.anything [] (Sys.axumNoSetup (some "s-1".toList))
    [.arrive laterRequest, .receive 0, .work 0, .work 0] = some (_, passedState) from rfl)

/-- It sends. -/
theorem sending (x : Sys Net.plainSchema) (hl : x.listener = true) (hi : x.handlers[0]? = some ⟨laterRequest, .passed⟩) :
    webhook.step x (.work 0) = some ({ x.goto 0 ⟨laterRequest, .passed⟩ (.answered .ok) with
      queue := x.queue ++ [⟨8, .error (.object laterUpdate)⟩] }, .sent 0 ⟨8, .error (.object laterUpdate)⟩) := by
  change step Net.readText x (.work 0) = _
  simp only [step, hi, work, incoming_later, hl, if_true]

section
variable {read} {τ : List (Event S)} {x : Sys S}

/-- What was sent is what the stream has yielded and what is queued, in order. A request sends
one update, exactly if it was let in and answered 200 and its body can be read; the update
stands for the object in the body. -/
theorem webhook_delivers {secretToken : Option Str} (hr : (machine S read secretToken).Run Machine.anything τ x) :
    yields τ <:+ (sends τ).map Prod.snd ∧
      (x.listener = true → (sends τ).map Prod.snd = x.queue.reverse ++ yields τ) ∧
      ((sends τ).map Prod.fst).Nodup ∧
      (∀ (i : Nat) (update : Update S), (i, update) ∈ sends τ ↔ ∃ request : Request,
        x.handlers[i]? = some ⟨request, .answered .ok⟩ ∧ incoming S read request.input = .ok update) ∧
      (∀ (i : Nat) (request : Request), x.handlers[i]? = some ⟨request, .answered .ok⟩ → Authorized secretToken request) ∧
      ∀ (i : Nat) (update : Update S), (i, update) ∈ sends τ → ∃ request : Request,
        x.handlers[i]? = some ⟨request, .answered .ok⟩ ∧
          ∀ object, read request.input = some (.object object) → (Value.object object).Distinct →
            (∃ id, updateId object = some id) → Net.Fits S object update := by
  obtain ⟨h, hsecret⟩ := inv_of_run hr
  refine ⟨h.yielded, h.queued, h.once, h.sent, fun i request hi => ?_, fun i update hmem => ?_⟩
  · exact hsecret ▸ h.sound i _ hi
  · obtain ⟨request, hi, hin⟩ := (h.sent i update).1 hmem
    refine ⟨request, hi, fun object hread hd hid => ?_⟩
    obtain ⟨hbad, hgood⟩ := incoming_fits (S := S) hread hd hid
    by_cases hu : Unattributed S object
    · rw [hbad hu] at hin
      cases hin
    · obtain ⟨update', hin', hfits⟩ := hgood hu
      rw [hin] at hin'
      cases hin'
      exact hfits

theorem webhook_delivers_later : ∃ τ x, webhook.Run Machine.anything τ x ∧ x.listener = true ∧
    (sends τ).map Prod.snd = x.queue.reverse ++ yields τ ∧ (sends τ).map Prod.fst = [0] :=
  ⟨_, _, .step passed_run trivial (sending passedState rfl rfl), rfl,
    (webhook_delivers (.step passed_run trivial (sending passedState rfl rfl))).2.1 rfl, rfl⟩

/-- A handler is past the comparison of the secrets. -/
def Stage.admitted : Stage → Bool
  | .holding | .closing | .passed | .panicked | .answered .ok | .answered .serviceUnavailable => true
  | _ => false

/-- A secret that passes the check, as one that was generated or given through the options
does, lets in who has it: never is a request with it told that it is not good. Without it
no request gets further, or sends anything. -/
theorem webhook_authentic {Url File : Type} (options : Options Url File) (draw : Nat → Fin charset.length)
    (hr : (machine S read (setupWebhook options draw).2.secretToken).Run Machine.anything τ x) :
    ∃ secret, (setupWebhook options draw).1.secretToken = some secret ∧
      ((∀ token, options.secretToken = some token →
          ∃ before after : Options Url File, before.setSecretToken token = some after) →
        checkSecret (bytes secret) = .ok (bytes secret)) ∧
      ∀ (i : Nat) (h : Handler), x.handlers[i]? = some h →
        (checkSecret (bytes secret) = .ok (bytes secret) → h.request.header = some (bytes secret) →
          h.stage ≠ .answered .badRequest ∧ h.stage ≠ .answered .unauthorized) ∧
        (h.request.header ≠ some (bytes secret) → h.stage.admitted = false ∧ ∀ update, (i, update) ∉ sends τ) := by
  obtain ⟨h, hsecret⟩ := inv_of_run hr
  refine ⟨_, rfl, fun hset => ?_, fun i g hi => ⟨fun hcheck hheader => ?_, fun hheader => ?_⟩⟩
  · cases hs : options.secretToken with
    | none => exact checkSecret_genSecretToken draw
    | some token =>
      obtain ⟨before, after, hafter⟩ := hset token hs
      unfold Options.setSecretToken at hafter
      split at hafter
      · rename_i bytes hc
        rw [Option.getD_some, hc, checkSecret_ok hc]
      · cases hafter
  · have hsound := h.sound i g hi
    have hok : secretHeader g.request.header = .ok (x.secret.map bytes) := by
      rw [hheader, hsecret, secretHeader, hcheck]
      rfl
    refine ⟨fun hs => ?_, fun hs => ?_⟩
    · rw [hs] at hsound
      cases hok.symm.trans hsound
    · rw [hs] at hsound
      obtain ⟨token, ht, hne⟩ := hsound
      cases hok.symm.trans ht
      exact hne rfl
  · have hno (hauth : Authorized x.secret g.request) : False := by
      have := secretHeader_ok hauth
      rw [hsecret] at this
      exact hheader this.symm
    have hout : g.stage.admitted = false := by
      refine Bool.eq_false_iff.2 fun ha => ?_
      have hsound := h.sound i g hi
      obtain ⟨request, stage⟩ := g
      cases stage with
      | holding | passed | panicked => exact hno hsound
      | closing => exact hno hsound.1
      | answered status =>
        cases status with
        | ok => exact hno hsound
        | serviceUnavailable => exact hno hsound.1
        | badRequest | unauthorized | body => cases ha
      | reading | comparing | gone => cases ha
    refine ⟨hout, fun update hmem => ?_⟩
    obtain ⟨request, hi', -⟩ := (h.sent i update).1 hmem
    cases hi.symm.trans hi'
    cases hout

theorem webhook_authentic_later : ∃ secret, some "s-1".toList = some secret ∧
    (passedState.handlers[0]?.map (·.request.header)) = some (some (bytes secret)) ∧
      passedState.handlers[0]?.map (·.stage) ≠ some (.answered .unauthorized) := by
  obtain ⟨secret, htold, -, hall⟩ := @webhook_authentic Net.plainSchema Net.readText _ _ Unit Unit
    ⟨(), none, none, false, some "s-1".toList⟩ (fun _ => ⟨0, by decide⟩) passed_run
  cases htold
  exact ⟨_, rfl, rfl, fun he => ((hall 0 _ rfl).1 rfl rfl).2 (Option.some.inj he)⟩

/-- After a stop only those send that had found the flag unset before it. The stream ends only
once all that was sent has been yielded, and nothing is sent after; and not before a request
has met the stop or the router is gone. From there on a poll never hangs that finds no handler
at work. -/
theorem webhook_stops {secretToken : Option Str} {τ' : List (Event S)} {x' : Sys S}
    (hr : (machine S read secretToken).Run Machine.anything τ x) (hp : (machine S read secretToken).Path x τ' x') :
    (.stopped ∈ τ → ∀ (i : Nat) (update : Update S), (i, update) ∈ sends τ' →
        ∃ request, x.handlers[i]? = some ⟨request, .passed⟩) ∧
      (.ended ∈ τ → sends τ' = [] ∧ (x.listener = true → (sends τ).map Prod.snd = yields τ)) ∧
      (.ended ∈ τ → x.router = false ∨ .stopped ∈ τ ∧
        ∃ (i : Nat) (request : Request), x.handlers[i]? = some ⟨request, .answered .serviceUnavailable⟩) ∧
      ((x.router = false ∨
          ∃ (i : Nat) (request : Request), x.handlers[i]? = some ⟨request, .answered .serviceUnavailable⟩) →
        (∀ h ∈ x.handlers, h.stage.active = false) → x.listener = true → (step read x .poll).isSome = true) := by
  obtain ⟨h, -⟩ := inv_of_run hr
  refine ⟨fun hstop => (passed_of_path hp (h.stopped.2 hstop)).2.2, fun hended => ?_, fun hended => ?_, fun hover hidle hl => ?_⟩
  · obtain ⟨hc, hq⟩ := done_of_run hr (h.ended.2 hended)
    refine ⟨(disconnected_of_path hp hc).2, fun hl => ?_⟩
    have hqueued := h.queued hl
    rwa [hq hl] at hqueued
  · obtain ⟨hc, -⟩ := done_of_run hr (h.ended.2 hended)
    obtain ⟨hshared, -⟩ := connected_eq_false.1 hc
    cases hsender : x.sender with
    | true => exact Or.inl (hshared hsender).1
    | false =>
      obtain ⟨hstop, hmet⟩ := h.closed hsender
      exact Or.inr ⟨h.stopped.1 hstop, hmet⟩
  · have hc : x.connected = false := by
      refine connected_eq_false.2 ⟨fun hsender => ⟨?_, hidle⟩, fun g hg => ?_⟩
      · rcases hover with hrouter | ⟨i, request, hi⟩
        · exact hrouter
        · have hsound := (h.sound i _ hi).2
          rw [hsender] at hsound
          cases hsound
      · have hg := hidle g hg
        cases hs : g.stage with
        | holding | closing | passed =>
          rw [hs] at hg
          cases hg
        | reading | comparing | answered | panicked | gone => rfl
    cases hq : x.queue with
    | nil => simp [step, hl, hq, hc]
    | cons update queue => simp [step, hl, hq]

/-- A stop that comes too late for a request. -/
theorem webhook_stops_passed : ∃ τ τ' x x', webhook.Run Machine.anything τ x ∧ webhook.Path x τ' x' ∧ .stopped ∈ τ ∧
    sends τ' ≠ [] ∧ ∃ request, x.handlers[0]? = some ⟨request, .passed⟩ := by
  have hr : webhook.Run Machine.anything _ { passedState with stopped := true } := .step (a := .stop) passed_run trivial rfl
  have hp : webhook.Path { passedState with stopped := true } _ _ := .step .refl (sending _ rfl rfl)
  exact ⟨_, _, _, _, hr, hp, List.mem_cons_self, List.cons_ne_nil _ _,
    (webhook_stops hr hp).1 List.mem_cons_self 0 _ List.mem_cons_self⟩

end

end Teloxide.UpdateListeners.Webhooks
