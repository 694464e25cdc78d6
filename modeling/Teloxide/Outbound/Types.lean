import Mathlib

/-!
# Types of the outbound scheduling model

`crates/teloxide-core/src/outbound/types.rs`: the request metadata, the limits,
the outcomes and the errors the scheduler works with.

An `Instant` is a natural, the nanoseconds since the origin of the clock, and so
is a `Duration`. `u64` values are naturals; the places where their width shows
(the counters, the aging product) say so. A type that excludes a value in Rust
(`NonZeroU32`, `u8`) excludes it here.
-/
namespace Teloxide.Outbound

/-- The number of `u64` values. -/
def u64Size : Nat := 2 ^ 64

abbrev NonZeroU32 := { n : Nat // 0 < n ∧ n < 2 ^ 32 }
abbrev NonZeroUsize := { n : Nat // 0 < n }

theorem one_nonZero : 0 < 1 ∧ 1 < 2 ^ 32 := by decide

/-- mirrors types.rs:18-37 -/
abbrev OutboundPriority := Fin 256

instance priorities_ne_zero : NeZero 256 := ⟨by decide⟩

/-- `OutboundPriority::HIGHEST.get()` and `LOWEST.get()`. -/
def HIGHEST : Nat := 255
def LOWEST : Nat := 0

abbrev JobId := Nat
abbrev OutboundLaneKey := Nat
abbrev OutboundClass := Nat
abbrev OutboundCorrelationId := Nat

/-! ## Chats -/

/-- mirrors types/chat_id.rs:26-31 -/
inductive BareChatId where
  | user (id : Nat)
  | group (id : Nat)
  | channel (id : Nat)
  deriving DecidableEq, Repr

def MIN_MARKED_CHANNEL_ID : Int := -1997852516352
def MAX_MARKED_CHANNEL_ID : Int := -1000000000000
def MIN_MARKED_CHAT_ID : Int := MAX_MARKED_CHANNEL_ID + 1
def MAX_MARKED_CHAT_ID : Int := -1
def MIN_USER_ID : Int := 0
def MAX_USER_ID : Int := 2 ^ 40 - 1

/-- mirrors types/chat_id.rs:66-80 -/
def toBare (id : Int) : BareChatId :=
  if MIN_MARKED_CHAT_ID ≤ id ∧ id ≤ MAX_MARKED_CHAT_ID then .group (-id).toNat
  else if MIN_MARKED_CHANNEL_ID ≤ id ∧ id ≤ MAX_MARKED_CHANNEL_ID then
    .channel (MAX_MARKED_CHANNEL_ID - id).toNat
  else if MIN_USER_ID ≤ id ∧ id ≤ MAX_USER_ID then .user id.toNat
  else if MAX_USER_ID < id then .user id.toNat
  else .channel (MAX_MARKED_CHANNEL_ID - id).toNat

/-- mirrors types/chat_id.rs:48-52 -/
def isChannelOrSupergroup (id : Int) : Bool :=
  match toBare id with
  | .channel _ => true
  | _ => false

/-- Chat identity of per-chat windows and penalties; a username is canonical.
mirrors types.rs:62-73 -/
inductive OutboundChatKey where
  | id (chatId : Int)
  | username (name : String)
  deriving DecidableEq, Repr

/-- mirrors types.rs:403-412 -/
inductive WindowChatKind where
  | any
  | channelOrSupergroup
  | nonChannel
  deriving DecidableEq, Repr

/-- mirrors types.rs:89-102 -/
def OutboundChatKey.windowChatKind : OutboundChatKey → WindowChatKind
  | .id chatId => if isChannelOrSupergroup chatId then .channelOrSupergroup else .nonChannel
  | .username _ => .channelOrSupergroup

/-- mirrors types.rs:39-45 -/
inductive OutboundScope where
  | global
  | chat (key : OutboundChatKey)
  deriving DecidableEq, Repr

/-! ## Lanes and requests -/

/-- mirrors types.rs:117-123 -/
inductive OutboundLaneMode where
  | serial
  | orderedStart
  | boundedOrderedStart (maxInFlight : NonZeroUsize)
  deriving DecidableEq

/-- mirrors types.rs:125-132 -/
def OutboundLaneMode.hasCapacity (inFlight : Nat) : OutboundLaneMode → Bool
  | .serial | .orderedStart => inFlight == 0
  | .boundedOrderedStart maxInFlight => inFlight < maxInFlight.val

/-- `matches!(mode, OutboundLaneMode::BoundedOrderedStart(_))`. -/
def OutboundLaneMode.isBounded : OutboundLaneMode → Bool
  | .boundedOrderedStart _ => true
  | _ => false

/-- mirrors types.rs:153-164 -/
structure OutboundMeta where
  scope : OutboundScope
  lane : Option OutboundLaneKey
  cls : OutboundClass
  priority : OutboundPriority
  weight : NonZeroU32
  deriving DecidableEq

/-- mirrors types.rs:240-255 -/
inductive OutboundEnqueueMode where
  | fifo
  | replacePending (userKey : Nat)
  deriving DecidableEq, Repr

/-- mirrors types.rs:256-265 -/
structure EnqueueOutcome where
  job : JobId
  superseded : Option JobId
  deriving DecidableEq, Repr

/-- mirrors types.rs:267-284 -/
inductive EnqueueError where
  | queueFull
  | incompatibleCoalesceMetadata
  | weightExceedsWindow (scope : OutboundScope) (weight : NonZeroU32) (capacity : Nat)
  deriving DecidableEq

/-- mirrors types.rs:286-314 -/
inductive SchedulerConfigError where
  | zeroWindowDuration
  | zeroAgingQuantum
  | agingCannotReachHighest (maxBoost : Nat)
  | pendingWeightExceedsWindow (scope : OutboundScope) (weight capacity : Nat)
  | kindSpecificGlobalWindow
  deriving DecidableEq, Repr

/-- mirrors types.rs:342-347 -/
structure Grant where
  job : JobId
  correlationId : Option OutboundCorrelationId
  deriving DecidableEq, Repr

/-- mirrors types.rs:349-377 -/
inductive OutboundCompletion where
  | success
  | retryAfter (scope : OutboundScope) (duration : Nat)
  | failed
  | cancelledAfterGrant
  | noRequest
  deriving DecidableEq, Repr

/-! ## Limits -/

/-- mirrors types.rs:380-395 -/
structure AgingPolicy where
  quantum : Nat
  maxBoost : Fin 256
  deriving DecidableEq, Repr

/-- mirrors types.rs:415-422 -/
structure WindowLimit where
  capacity : Nat
  window : Nat
  kind : WindowChatKind
  deriving DecidableEq, Repr

/-- mirrors types.rs:436-442 -/
structure OutboundLimits where
  global : List WindowLimit
  chat : List WindowLimit
  deriving DecidableEq, Repr

/-- mirrors types.rs:444-450 -/
structure OutboundClassWindowLimit where
  cls : OutboundClass
  capacity : Nat
  window : Nat
  deriving DecidableEq, Repr

/-- mirrors types.rs:458-464 -/
structure OutboundClassLimits where
  global : List OutboundClassWindowLimit
  chat : List OutboundClassWindowLimit
  deriving DecidableEq, Repr

/-- mirrors types.rs:606-619 -/
inductive SchedulerWakeup where
  | immediate
  | at (instant : Nat)
  | externalEvent
  deriving DecidableEq, Repr

end Teloxide.Outbound
