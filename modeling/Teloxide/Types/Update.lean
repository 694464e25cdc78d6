import Teloxide.Core.Serde

/-!
# Updates (`crates/teloxide-core/src/types/update.rs`)

An update is decoded from an object: its id, and a kind that is made of all other members.
The kind is typed if exactly one of these has the name of a kind and its value decodes as
the payload; otherwise it is `error` and holds the members. Three lists of names take part:
those that are counted (`isUpdateKindKey`), those that are decoded (`UpdateVariant.ofKey`)
and those that are written (`UpdateVariant.tag`).

The types of the payloads are parameters but for one (`MessageReactionUpdated`).

* `deserialize_of_distinct`: the decoding of an object that has no key twice.
* `serialize_deserialize`: an update of an unknown kind is written as the object it was.
-/
namespace Teloxide.Types

open Teloxide.Core Teloxide.Core.Serde

/-! ## Decoding -/

inductive DecodeFailure where
  | invalid
  | panicked
  deriving DecidableEq

abbrev Decoded (α : Type) := Except DecodeFailure α

def Decoded.ofOption {α : Type} : Option α → Decoded α
  | some a => .ok a
  | none => .error .invalid

/-! ## Payloads -/

/-- The payloads that are parameters. -/
inductive OtherPayload where
  | message
  | businessConnection
  | businessMessagesDeleted
  | managedBotUpdated
  | botSubscriptionUpdated
  | messageReactionCountUpdated
  | inlineQuery
  | chosenInlineResult
  | callbackQuery
  | shippingQuery
  | preCheckoutQuery
  | paidMediaPurchased
  | poll
  | pollAnswer
  | chatMemberUpdated
  | chatJoinRequest
  | chatBoostUpdated
  | chatBoostRemoved
  | messageGenerationStopped
  deriving DecidableEq

inductive PayloadType where
  | messageReactionUpdated
  | other (type : OtherPayload)
  deriving DecidableEq

/-- The types that updates are made of, with their decoders; none of these panics. -/
structure Schema where
  Chat : Type
  User : Type
  ReactionType : Type
  DateTime : Type
  Other : OtherPayload → Type
  chat : Value → Option Chat
  user : Value → Option User
  reaction : Value → Option ReactionType
  date : Value → Option DateTime
  other : (type : OtherPayload) → Value → Option (Other type)

inductive MaybeAnonymousUser (S : Schema) where
  | user (user : S.User)
  | chat (chat : S.Chat)

/-- mirrors types/message_reaction_updated.rs:6-36 -/
structure MessageReactionUpdated (S : Schema) where
  chat : S.Chat
  messageId : Int
  actor : MaybeAnonymousUser S
  date : S.DateTime
  oldReaction : List S.ReactionType
  newReaction : List S.ReactionType

/-- `i32` -/
def int32 : Value → Option Int
  | .number (.int n) => if -2 ^ 31 ≤ n ∧ n < 2 ^ 31 then some n else none
  | _ => none

variable (S : Schema)

/-- The members of the object whose `user` and `actor_chat` may both be missing: there the
`unwrap` panics.
mirrors types/message_reaction_updated.rs:48-62 -/
def deserializeActor (members : List (String × Value)) : Decoded (MaybeAnonymousUser S) := do
  let user ← Decoded.ofOption (optionalField S.user members "user")
  let actorChat ← Decoded.ofOption (optionalField S.chat members "actor_chat")
  match (actorChat.map MaybeAnonymousUser.chat).or (user.map MaybeAnonymousUser.user) with
  | some actor => .ok actor
  | none => .error .panicked

/-- The plain fields are looked at before the flattened ones. -/
def MessageReactionUpdated.deserialize : Value → Decoded (MessageReactionUpdated S)
  | .object members => do
    let chat ← Decoded.ofOption (requiredField S.chat members "chat")
    let date ← Decoded.ofOption (requiredField S.date members "date")
    let oldReaction ← Decoded.ofOption (requiredField (decodeList S.reaction) members "old_reaction")
    let newReaction ← Decoded.ofOption (requiredField (decodeList S.reaction) members "new_reaction")
    let messageId ← Decoded.ofOption (requiredField int32 members "message_id")
    let actor ← deserializeActor S members
    return { chat, messageId, actor, date, oldReaction, newReaction }
  | _ => .error .invalid

def UpdatePayload : PayloadType → Type
  | .messageReactionUpdated => MessageReactionUpdated S
  | .other type => S.Other type

/-- `serde_json::from_value` -/
def UpdatePayload.deserialize : (type : PayloadType) → Value → Decoded (UpdatePayload S type)
  | .messageReactionUpdated, value => MessageReactionUpdated.deserialize S value
  | .other type, value => Decoded.ofOption (S.other type value)

/-! ## Kinds -/

/-- The variants of `UpdateKind` but `Error`.
mirrors types/update.rs:46-168 -/
inductive UpdateVariant where
  | message
  | editedMessage
  | channelPost
  | editedChannelPost
  | guestMessage
  | businessConnection
  | businessMessage
  | editedBusinessMessage
  | deletedBusinessMessages
  | managedBot
  | subscription
  | messageReaction
  | messageReactionCount
  | inlineQuery
  | chosenInlineResult
  | callbackQuery
  | shippingQuery
  | preCheckoutQuery
  | purchasedPaidMedia
  | poll
  | pollAnswer
  | myChatMember
  | chatMember
  | chatJoinRequest
  | chatBoost
  | removedChatBoost
  | stoppedMessageGeneration
  deriving DecidableEq

namespace UpdateVariant

def payloadType : UpdateVariant → PayloadType
  | message | editedMessage | channelPost | editedChannelPost | guestMessage | businessMessage
  | editedBusinessMessage => .other .message
  | businessConnection => .other .businessConnection
  | deletedBusinessMessages => .other .businessMessagesDeleted
  | managedBot => .other .managedBotUpdated
  | subscription => .other .botSubscriptionUpdated
  | messageReaction => .messageReactionUpdated
  | messageReactionCount => .other .messageReactionCountUpdated
  | inlineQuery => .other .inlineQuery
  | chosenInlineResult => .other .chosenInlineResult
  | callbackQuery => .other .callbackQuery
  | shippingQuery => .other .shippingQuery
  | preCheckoutQuery => .other .preCheckoutQuery
  | purchasedPaidMedia => .other .paidMediaPurchased
  | poll => .other .poll
  | pollAnswer => .other .pollAnswer
  | myChatMember | chatMember => .other .chatMemberUpdated
  | chatJoinRequest => .other .chatJoinRequest
  | chatBoost => .other .chatBoostUpdated
  | removedChatBoost => .other .chatBoostRemoved
  | stoppedMessageGeneration => .other .messageGenerationStopped

/-- The arms of the match in `visit_map`.
mirrors types/update.rs:423-474 -/
def arms : List (String × UpdateVariant) :=
  [("message", message), ("edited_message", editedMessage), ("channel_post", channelPost),
    ("edited_channel_post", editedChannelPost), ("guest_message", guestMessage),
    ("business_connection", businessConnection), ("business_message", businessMessage),
    ("edited_business_message", editedBusinessMessage), ("deleted_business_messages", deletedBusinessMessages),
    ("managed_bot", managedBot), ("subscription", subscription), ("message_reaction", messageReaction),
    ("message_reaction_count", messageReactionCount), ("inline_query", inlineQuery),
    ("chosen_inline_result", chosenInlineResult), ("callback_query", callbackQuery),
    ("shipping_query", shippingQuery), ("pre_checkout_query", preCheckoutQuery),
    ("purchased_paid_media", purchasedPaidMedia), ("poll", poll), ("poll_answer", pollAnswer),
    ("my_chat_member", myChatMember), ("chat_member", chatMember), ("chat_join_request", chatJoinRequest),
    ("chat_boost", chatBoost), ("removed_chat_boost", removedChatBoost),
    ("stopped_message_generation", stoppedMessageGeneration)]

def ofKey (key : String) : Option UpdateVariant := arms.lookup key

/-- mirrors types/update.rs:490-553 -/
def tag : UpdateVariant → String
  | message => "message"
  | editedMessage => "edited_message"
  | channelPost => "channel_post"
  | editedChannelPost => "edited_channel_post"
  | guestMessage => "guest_message"
  | businessConnection => "business_connection"
  | businessMessage => "business_message"
  | editedBusinessMessage => "edited_business_message"
  | deletedBusinessMessages => "deleted_business_messages"
  | managedBot => "managed_bot"
  | subscription => "subscription"
  | messageReaction => "message_reaction"
  | messageReactionCount => "message_reaction_count"
  | inlineQuery => "inline_query"
  | chosenInlineResult => "chosen_inline_result"
  | callbackQuery => "callback_query"
  | shippingQuery => "shipping_query"
  | preCheckoutQuery => "pre_checkout_query"
  | purchasedPaidMedia => "purchased_paid_media"
  | poll => "poll"
  | pollAnswer => "poll_answer"
  | myChatMember => "my_chat_member"
  | chatMember => "chat_member"
  | chatJoinRequest => "chat_join_request"
  | chatBoost => "chat_boost"
  | removedChatBoost => "removed_chat_boost"
  | stoppedMessageGeneration => "stopped_message_generation"

end UpdateVariant

/-- mirrors types/update.rs:559-590 -/
def updateKindKeys : List String :=
  ["message", "edited_message", "channel_post", "edited_channel_post", "guest_message", "business_connection",
    "business_message", "edited_business_message", "deleted_business_messages", "managed_bot", "subscription",
    "message_reaction", "message_reaction_count", "inline_query", "chosen_inline_result", "callback_query",
    "shipping_query", "pre_checkout_query", "purchased_paid_media", "poll", "poll_answer", "my_chat_member",
    "chat_member", "chat_join_request", "chat_boost", "removed_chat_boost", "stopped_message_generation"]

def isUpdateKindKey (key : String) : Bool := updateKindKeys.contains key

inductive UpdateKind where
  | typed (variant : UpdateVariant) (payload : UpdatePayload S variant.payloadType)
  | error (value : Value)

structure Update where
  id : UInt32
  kind : UpdateKind S

/-- The members with the name of a kind. -/
def kindMembers (members : List (String × Value)) : List (String × Value) :=
  members.filter fun m => isUpdateKindKey m.1

namespace UpdateKind

variable {S}

def isError : UpdateKind S → Bool
  | .typed .. => false
  | .error _ => true

variable (S)

/-- The kind of the members that have been collected.
mirrors types/update.rs:405-476 -/
def ofRaw (raw : List (String × Value)) : Decoded (UpdateKind S) :=
  match kindMembers raw with
  | [(key, value)] =>
    match UpdateVariant.ofKey key with
    | some variant =>
      match UpdatePayload.deserialize S variant.payloadType value with
      | .ok payload => .ok (.typed variant payload)
      | .error .invalid => .ok (.error (.object raw))
      | .error .panicked => .error .panicked
    | none => .ok (.error (.object raw))
  | _ => .ok (.error (.object raw))

/-- mirrors types/update.rs:396-477 -/
def visitMap (entries : List (String × Value)) : Decoded (UpdateKind S) :=
  ofRaw S (Value.collect (Value.normalMembers entries))

end UpdateKind

/-- `update_id` as it has been derived. -/
def updateId (members : List (String × Value)) : Option UInt32 := (members.lookup "update_id").bind uint32.decode

namespace Update

/-- An id that is there once, and the other members for the kind. -/
def deserialize : Value → Decoded (Update S)
  | .object entries =>
    match entries.filter (·.1 = "update_id") with
    | [(_, value)] => do
      let id ← Decoded.ofOption (uint32.decode value)
      let kind ← UpdateKind.visitMap S (entries.filter (·.1 ≠ "update_id"))
      return { id, kind }
    | _ => .error .invalid
  | _ => .error .invalid

variable {S}

/-- The kind is flattened: only an object, or nothing, can stand there. -/
def serialize (encode : (type : PayloadType) → UpdatePayload S type → Value) (update : Update S) : Option Value :=
  let id := ("update_id", uint32.encode update.id)
  match update.kind with
  | .typed variant payload => some (.object [id, (variant.tag, encode variant.payloadType payload)])
  | .error (.object members) => some (.object (id :: members))
  | .error .null => some (.object [id])
  | .error _ => none

end Update

/-! ## Names -/

namespace UpdateVariant

theorem ofKey_tag (variant : UpdateVariant) : ofKey variant.tag = some variant := by
  cases variant <;> rfl

theorem tag_of_ofKey {key : String} {variant : UpdateVariant} (h : ofKey key = some variant) : variant.tag = key := by
  have hall : arms.all (fun m => m.2.tag = m.1) = true := by decide
  obtain ⟨before, after, harms, -⟩ := List.lookup_eq_some_iff.1 h
  have hmem : (key, variant) ∈ arms := harms ▸ List.mem_append_right _ List.mem_cons_self
  exact of_decide_eq_true (List.all_eq_true.1 hall _ hmem)

/-- The names that are counted are those that are decoded. -/
theorem ofKey_isSome (key : String) : (ofKey key).isSome = isUpdateKindKey key := by
  have hkeys : arms.map (·.1) = updateKindKeys := rfl
  rw [Bool.eq_iff_iff, ofKey, List.lookup_isSome_iff, isUpdateKindKey, ← hkeys, List.contains_iff_mem, List.mem_map]
  constructor
  · rintro ⟨m, hm, h⟩
    exact ⟨m, hm, (eq_of_beq h).symm⟩
  · rintro ⟨m, hm, h⟩
    exact ⟨m, hm, beq_iff_eq.2 h.symm⟩

end UpdateVariant

/-! ## Panics -/

/-- All is there of a change of a reaction but who made it. -/
structure Actorless (members : List (String × Value)) : Prop where
  chat : (requiredField S.chat members "chat").isSome = true
  date : (requiredField S.date members "date").isSome = true
  oldReaction : (requiredField (decodeList S.reaction) members "old_reaction").isSome = true
  newReaction : (requiredField (decodeList S.reaction) members "new_reaction").isSome = true
  messageId : (requiredField int32 members "message_id").isSome = true
  user : (members.lookup "user").getD .null = .null
  actorChat : (members.lookup "actor_chat").getD .null = .null

theorem bind_ofOption_panicked {α β : Type} {o : Option α} {f : α → Decoded β} :
    (Decoded.ofOption o >>= f) = .error .panicked ↔ ∃ a, o = some a ∧ f a = .error .panicked := by
  cases o with
  | none => simp [Decoded.ofOption, bind, Except.bind]
  | some a => simp [Decoded.ofOption, bind, Except.bind]

theorem optionalField_none {α : Type} (decode : Value → Option α) {members : List (String × Value)} {key : String} :
    optionalField decode members key = some none ↔ (members.lookup key).getD .null = .null := by
  unfold optionalField
  generalize (members.lookup key).getD .null = value
  constructor
  · intro h
    by_contra hne
    rw [decodeOption_of_ne_null hne] at h
    obtain ⟨a, -, ha⟩ := Option.map_eq_some_iff.1 h
    cases ha
  · rintro rfl
    rfl

theorem deserializeActor_panicked {members : List (String × Value)} : deserializeActor S members = .error .panicked ↔
    (members.lookup "user").getD .null = .null ∧ (members.lookup "actor_chat").getD .null = .null := by
  unfold deserializeActor
  rw [bind_ofOption_panicked, ← optionalField_none S.user, ← optionalField_none S.chat]
  constructor
  · rintro ⟨user, huser, h⟩
    obtain ⟨chat, hchat, h⟩ := bind_ofOption_panicked.1 h
    cases user with
    | none =>
      cases chat with
      | none => exact ⟨huser, hchat⟩
      | some chat => cases h
    | some user =>
      cases chat with
      | none => cases h
      | some chat => cases h
  · rintro ⟨huser, hchat⟩
    exact ⟨none, huser, bind_ofOption_panicked.2 ⟨none, hchat, rfl⟩⟩

theorem messageReactionUpdated_panicked {value : Value} : MessageReactionUpdated.deserialize S value = .error .panicked ↔
    ∃ members, value = .object members ∧ Actorless S members := by
  constructor
  · intro h
    unfold MessageReactionUpdated.deserialize at h
    split at h
    · rename_i members
      obtain ⟨chat, hchat, h⟩ := bind_ofOption_panicked.1 h
      obtain ⟨date, hdate, h⟩ := bind_ofOption_panicked.1 h
      obtain ⟨old, hold, h⟩ := bind_ofOption_panicked.1 h
      obtain ⟨new, hnew, h⟩ := bind_ofOption_panicked.1 h
      obtain ⟨messageId, hmessage, h⟩ := bind_ofOption_panicked.1 h
      cases hactor : deserializeActor S members with
      | ok actor =>
        rw [hactor] at h
        cases h
      | error failure =>
        rw [hactor] at h
        cases h
        obtain ⟨huser, hactorChat⟩ := (deserializeActor_panicked S).1 hactor
        exact ⟨members, rfl, by rw [hchat]; rfl, by rw [hdate]; rfl, by rw [hold]; rfl, by rw [hnew]; rfl,
          by rw [hmessage]; rfl, huser, hactorChat⟩
    · cases h
  · rintro ⟨members, rfl, ha⟩
    obtain ⟨chat, hchat⟩ := Option.isSome_iff_exists.1 ha.chat
    obtain ⟨date, hdate⟩ := Option.isSome_iff_exists.1 ha.date
    obtain ⟨old, hold⟩ := Option.isSome_iff_exists.1 ha.oldReaction
    obtain ⟨new, hnew⟩ := Option.isSome_iff_exists.1 ha.newReaction
    obtain ⟨messageId, hmessage⟩ := Option.isSome_iff_exists.1 ha.messageId
    have hactor := (deserializeActor_panicked S).2 ⟨ha.user, ha.actorChat⟩
    unfold MessageReactionUpdated.deserialize
    refine bind_ofOption_panicked.2 ⟨chat, hchat, bind_ofOption_panicked.2 ⟨date, hdate, ?_⟩⟩
    refine bind_ofOption_panicked.2 ⟨old, hold, bind_ofOption_panicked.2 ⟨new, hnew, ?_⟩⟩
    refine bind_ofOption_panicked.2 ⟨messageId, hmessage, ?_⟩
    rw [hactor]
    rfl

/-- One payload panics, and only without an actor. -/
theorem payload_panicked {type : PayloadType} {value : Value} : UpdatePayload.deserialize S type value = .error .panicked ↔
    type = .messageReactionUpdated ∧ ∃ members, value = .object members ∧ Actorless S members := by
  cases type with
  | messageReactionUpdated =>
    refine Iff.trans (messageReactionUpdated_panicked S) ?_
    simp only [true_and]
  | other type =>
    refine iff_of_false (fun h => ?_) fun h => by cases h.1
    change Decoded.ofOption (S.other type value) = .error .panicked at h
    cases ho : S.other type value with
    | none =>
      rw [ho] at h
      cases h
    | some payload =>
      rw [ho] at h
      cases h

/-! ## Objects without a key twice -/

/-- The one member that has the name of a kind decodes as its payload. -/
def Recognized (members : List (String × Value)) (variant : UpdateVariant) (payload : UpdatePayload S variant.payloadType) : Prop :=
  ∃ value, kindMembers members = [(variant.tag, value)] ∧
    UpdatePayload.deserialize S variant.payloadType value = .ok payload

/-- The one member that has the name of a kind is a change of a reaction that nobody made. -/
def Unattributed (members : List (String × Value)) : Prop :=
  ∃ change, kindMembers members = [("message_reaction", .object change)] ∧ Actorless S change

namespace UpdateKind

variable {S} {raw : List (String × Value)}

theorem ofRaw_of_recognized {variant : UpdateVariant} {payload : UpdatePayload S variant.payloadType}
    (h : Recognized S raw variant payload) : ofRaw S raw = .ok (.typed variant payload) := by
  obtain ⟨value, hmembers, hp⟩ := h
  simp only [ofRaw, hmembers, UpdateVariant.ofKey_tag, hp]

theorem ofRaw_of_unattributed (h : Unattributed S raw) : ofRaw S raw = .error .panicked := by
  obtain ⟨change, hmembers, ha⟩ := h
  have hp := (payload_panicked S).2 ⟨rfl, change, rfl, ha⟩
  have hkey : UpdateVariant.ofKey "message_reaction" = some .messageReaction := rfl
  simp only [ofRaw, hmembers, hkey, UpdateVariant.payloadType, hp]

/-- All others are kept as they are. -/
theorem ofRaw_otherwise (hr : ∀ variant payload, ¬ Recognized S raw variant payload) (hu : ¬ Unattributed S raw) :
    ofRaw S raw = .ok (.error (.object raw)) := by
  unfold ofRaw
  split
  · rename_i key value hmembers
    split
    · rename_i variant hkey
      have htag := UpdateVariant.tag_of_ofKey hkey
      subst htag
      split
      · rename_i payload hp
        exact absurd ⟨value, hmembers, hp⟩ (hr variant payload)
      · rfl
      · rename_i hp
        obtain ⟨htype, change, rfl, ha⟩ := (payload_panicked S).1 hp
        have hvariant : variant = .messageReaction := by
          cases variant <;> first | rfl | cases htype
        subst hvariant
        exact absurd ⟨change, hmembers, ha⟩ hu
    · rfl
  · rfl

end UpdateKind

/-- The id is not among the names of kinds. -/
theorem kindMembers_filter (members : List (String × Value)) :
    kindMembers (members.filter (·.1 ≠ "update_id")) = kindMembers members := by
  have hid : isUpdateKindKey "update_id" = false := by decide
  unfold kindMembers
  rw [List.filter_filter]
  refine List.filter_congr fun m _ => ?_
  by_cases h : m.1 = "update_id"
  · simp [h, hid]
  · simp [h]

variable {S} {members : List (String × Value)} {id : UInt32}

theorem recognized_filter {variant : UpdateVariant} {payload : UpdatePayload S variant.payloadType} :
    Recognized S (members.filter (·.1 ≠ "update_id")) variant payload ↔ Recognized S members variant payload := by
  unfold Recognized
  rw [kindMembers_filter]

theorem unattributed_filter : Unattributed S (members.filter (·.1 ≠ "update_id")) ↔ Unattributed S members := by
  unfold Unattributed
  rw [kindMembers_filter]

theorem Update.deserialize_of_distinct (hd : (Value.object members).Distinct) (hid : updateId members = some id) :
    Update.deserialize S (.object members) =
      (UpdateKind.ofRaw S (members.filter (·.1 ≠ "update_id"))).map fun kind => ⟨id, kind⟩ := by
  obtain ⟨hnodup, hall⟩ := Value.distinct_object.1 hd
  obtain ⟨value, hl, hv⟩ := Option.bind_eq_some_iff.1 hid
  have hothers : (Value.object (members.filter (·.1 ≠ "update_id"))).Distinct := by
    refine Value.distinct_object.2 ⟨hnodup.sublist (List.filter_sublist.map _), fun m hm => ?_⟩
    exact hall m (List.mem_of_mem_filter hm)
  have hraw : Value.collect (Value.normalMembers (members.filter (·.1 ≠ "update_id"))) =
      members.filter (·.1 ≠ "update_id") := Value.object.inj hothers
  simp only [Update.deserialize, Value.filter_key hnodup hl, hv, UpdateKind.visitMap, hraw]
  cases UpdateKind.ofRaw S (members.filter (·.1 ≠ "update_id")) with
  | ok kind => rfl
  | error failure => rfl

theorem uint32_encode {value : Value} (h : uint32.decode value = some id) : uint32.encode id = value := by
  cases value with
  | number n =>
    cases n with
    | int n =>
      change (if 0 ≤ n ∧ n < 2 ^ 32 then some (UInt32.ofNat n.toNat) else none) = some id at h
      split at h
      · rename_i hn
        cases h
        change Value.number (.int (UInt32.ofNat n.toNat).toNat) = _
        rw [UInt32.toNat_ofNat_of_lt' (show n.toNat < 2 ^ 32 by omega), Int.toNat_of_nonneg hn.1]
      · cases h
    | float token => cases h
  | null => cases h
  | bool b => cases h
  | string s => cases h
  | array items => cases h
  | object members => cases h

/-- What was decoded as an unknown kind is written as it was, but for the order. -/
theorem Update.serialize_deserialize (encode : (type : PayloadType) → UpdatePayload S type → Value)
    (hd : (Value.object members).Distinct) (hid : updateId members = some id) {update : Update S}
    (h : Update.deserialize S (.object members) = .ok update) (he : update.kind.isError = true) :
    ∃ out, update.serialize encode = some (.object out) ∧ out.Perm members := by
  obtain ⟨hnodup, -⟩ := Value.distinct_object.1 hd
  obtain ⟨value, hl, hv⟩ := Option.bind_eq_some_iff.1 hid
  rw [Update.deserialize_of_distinct hd hid] at h
  by_cases hr : ∃ variant payload, Recognized S (members.filter (·.1 ≠ "update_id")) variant payload
  · obtain ⟨variant, payload, hr⟩ := hr
    rw [UpdateKind.ofRaw_of_recognized hr] at h
    cases h
    cases he
  · by_cases hu : Unattributed S (members.filter (·.1 ≠ "update_id"))
    · rw [UpdateKind.ofRaw_of_unattributed hu] at h
      cases h
    · rw [UpdateKind.ofRaw_otherwise (fun variant payload hrec => hr ⟨variant, payload, hrec⟩) hu] at h
      cases h
      refine ⟨_, rfl, ?_⟩
      rw [uint32_encode hv]
      exact Value.perm_filter_key hnodup hl

end Teloxide.Types
