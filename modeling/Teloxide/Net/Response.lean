import Teloxide.Types.Update

/-!
# Responses with updates

`deserialize_response` decodes the text of a response
(`crates/teloxide-core/src/net/request.rs:118-183`, `net/telegram_response.rs`). Where some
of the updates that come out are of an unknown kind, the text is decoded once more, as plain
values, and each of them gets the value in its place.

The reader of JSON is a parameter (`read`). It keeps the members of an object in their order,
also one that comes twice.

* `deserializeResponse_updates`: a batch is decoded, each update by itself, exactly if none of
  them is a change of a reaction without its actor.
* `actorless_reaction_panics`: one that is stops the whole batch.
-/
namespace Teloxide.Net

open Teloxide.Core Teloxide.Core.Serde Teloxide.Types

/-! ## Responses -/

/-- mirrors types/response_parameters.rs:11-19 -/
inductive ResponseParameters where
  | migrateToChatId (chatId : Int64)
  | retryAfter (seconds : UInt32)

def ResponseParameters.decode : Value → Option ResponseParameters
  | .object [("migrate_to_chat_id", value)] => (int64.decode value).map .migrateToChatId
  | .object [("retry_after", value)] => (uint32.decode value).map .retryAfter
  | _ => none

/-- An `ApiError` is known by its description.
mirrors net/telegram_response.rs:9-33 -/
inductive TelegramResponse (R : Type) where
  | ok (response : R)
  | err (error : String) (responseParameters : Option ResponseParameters)

inductive RequestError where
  | api (error : String)
  | migrateToChatId (chatId : Int64)
  | retryAfter (seconds : UInt32)
  | invalidJson

/-- A call returns a result, or panics. -/
inductive Returned (α : Type) where
  | returned (result : Except RequestError α)
  | panicked

variable {R : Type}

/-- The variant `Ok`, member by member: `seen` is whether `ok` has come. -/
def visitOk (decode : Value → Decoded R) : List (String × Value) → Bool → Option R → Decoded R
  | [], true, some response => .ok response
  | [], _, _ => .error .invalid
  | (key, value) :: entries, seen, response =>
    if key = "ok" then
      match seen, value with
      | false, .bool true => visitOk decode entries true response
      | _, _ => .error .invalid
    else if key = "result" then
      match response with
      | none => decode value >>= fun response => visitOk decode entries seen (some response)
      | some _ => .error .invalid
    else visitOk decode entries seen response

/-- The variant `Err`, whose members come at most once. -/
def visitErr (entries : List (String × Value)) : Decoded (TelegramResponse R) :=
  if ["ok", "description", "parameters"].all fun key => (entries.filter (·.1 = key)).length ≤ 1 then
    match entries.lookup "ok", entries.lookup "description",
      optionalField ResponseParameters.decode entries "parameters" with
    | some (.bool false), some (.string error), some responseParameters => .ok (.err error responseParameters)
    | _, _, _ => .error .invalid
  else .error .invalid

namespace TelegramResponse

/-- Untagged: the first variant that fits. -/
def deserialize (decode : Value → Decoded R) : Value → Decoded (TelegramResponse R)
  | .object entries =>
    match visitOk decode entries false none with
    | .ok response => .ok (.ok response)
    | .error .invalid => visitErr entries
    | .error .panicked => .error .panicked
  | _ => .error .invalid

/-- mirrors net/telegram_response.rs:35-47 -/
def into : TelegramResponse R → Except RequestError R
  | .ok response => .ok response
  | .err _ (some (.retryAfter seconds)) => .error (.retryAfter seconds)
  | .err _ (some (.migrateToChatId chatId)) => .error (.migrateToChatId chatId)
  | .err error none => .error (.api error)

end TelegramResponse

variable (S : Schema)

/-- `Vec<Update>` -/
def decodeUpdates : Value → Decoded (List (Update S))
  | .array items => items.mapM (Update.deserialize S)
  | _ => .error .invalid

/-- `Vec<serde_json::Value>` -/
def decodeValues : Value → Decoded (List Value)
  | .array items => .ok (items.map Value.normal)
  | _ => .error .invalid

/-- `serde_json::from_str::<TelegramResponse<T>>` -/
def deserializeTelegramResponse (read : String → Option Value) (decode : Value → Decoded R) (text : String) :
    Decoded (TelegramResponse R) :=
  Decoded.ofOption (read text) >>= TelegramResponse.deserialize decode

variable {S}

/-- The loop over `zip(updates, values)`. -/
def fillIn : List (Update S) → List Value → List (Update S)
  | update :: updates, value :: values =>
    (if update.kind.isError then { update with kind := .error value } else update) :: fillIn updates values
  | updates, _ => updates

variable (S)

/-- `deserialize_response::<Vec<Update>>`
mirrors net/request.rs:106-175 -/
def deserializeResponse (read : String → Option Value) (text : String) : Returned (List (Update S)) :=
  match deserializeTelegramResponse read (decodeUpdates S) text with
  | .ok (.ok updates) =>
    if updates.any (·.kind.isError) then
      match deserializeTelegramResponse read decodeValues text with
      | .ok (.ok values) => .returned (.ok (fillIn updates values))
      | _ => .returned (.ok updates)
    else .returned (.ok updates)
  | .ok response => .returned response.into
  | .error .invalid => .returned (.error .invalidJson)
  | .error .panicked => .panicked

/-! ## One update -/

/-- An update stands for its object. -/
structure Fits (object : List (String × Value)) (update : Update S) : Prop where
  id : updateId object = some update.id
  typed : ∀ variant payload, Recognized S object variant payload → update.kind = .typed variant payload
  error : (∀ variant payload, ¬ Recognized S object variant payload) → update.kind = .error (.object object)

variable {S} {object : List (String × Value)} {update : Update S}

/-- Only a change of a reaction without its actor panics. -/
theorem deserialize_panicked (hd : (Value.object object).Distinct) (hid : ∃ id, updateId object = some id)
    (hu : Unattributed S object) : Update.deserialize S (.object object) = .error .panicked := by
  obtain ⟨id, hid⟩ := hid
  rw [Update.deserialize_of_distinct hd hid, UpdateKind.ofRaw_of_unattributed (unattributed_filter.2 hu)]
  rfl

/-- Every other object is decoded; once its value is filled in, the update fits. -/
theorem deserialize_ok (hd : (Value.object object).Distinct) (hid : ∃ id, updateId object = some id)
    (hu : ¬ Unattributed S object) : ∃ update, Update.deserialize S (.object object) = .ok update ∧
      (update.kind.isError = false → Fits S object update) ∧
      (update.kind.isError = true → Fits S object { update with kind := .error (.object object) }) := by
  obtain ⟨id, hid⟩ := hid
  rw [Update.deserialize_of_distinct hd hid]
  by_cases hr : ∃ variant payload, Recognized S object variant payload
  · obtain ⟨variant, payload, hr⟩ := hr
    have hraw := UpdateKind.ofRaw_of_recognized (recognized_filter.2 hr)
    refine ⟨⟨id, .typed variant payload⟩, by rw [hraw]; rfl, fun _ => ?_, fun h => by cases h⟩
    refine ⟨hid, fun variant' payload' hr' => ?_, fun hnone => absurd hr (hnone variant payload)⟩
    rw [UpdateKind.ofRaw_of_recognized (recognized_filter.2 hr')] at hraw
    exact (Except.ok.inj hraw).symm
  · have hnone : ∀ variant payload, ¬ Recognized S object variant payload :=
      fun variant payload h => hr ⟨variant, payload, h⟩
    have hraw := UpdateKind.ofRaw_otherwise (fun variant payload h => hnone variant payload (recognized_filter.1 h))
      (fun h => hu (unattributed_filter.1 h))
    refine ⟨⟨id, .error (.object (object.filter (·.1 ≠ "update_id")))⟩, by rw [hraw]; rfl, ?_, fun _ => ?_⟩
    · intro h
      cases h
    · exact ⟨hid, fun variant payload h => absurd h (hnone variant payload), fun _ => rfl⟩

/-! ## Every batch -/

section batch

variable {objects : List (List (String × Value))} {updates : List (Update S)}

theorem mapM_ok {P : List (String × Value) → Update S → Prop}
    (h : ∀ object ∈ objects, ∃ update, Update.deserialize S (.object object) = .ok update ∧ P object update) :
    ∃ updates, (objects.map Value.object).mapM (Update.deserialize S) = .ok updates ∧ List.Forall₂ P objects updates := by
  induction objects with
  | nil => exact ⟨[], rfl, .nil⟩
  | cons object objects ih =>
    obtain ⟨update, hupdate, hp⟩ := h object List.mem_cons_self
    obtain ⟨updates, hmap, hall⟩ := ih fun o ho => h o (List.mem_cons_of_mem _ ho)
    refine ⟨update :: updates, ?_, .cons hp hall⟩
    rw [List.map_cons, List.mapM_cons, hupdate, hmap]
    rfl

/-- The first panic ends the call. -/
theorem mapM_panicked (h : ∀ object ∈ objects, (∃ update, Update.deserialize S (.object object) = .ok update) ∨
      Update.deserialize S (.object object) = .error .panicked)
    (hp : ∃ object ∈ objects, Update.deserialize S (.object object) = .error .panicked) :
    (objects.map Value.object).mapM (Update.deserialize S) = .error .panicked := by
  induction objects with
  | nil =>
    obtain ⟨object, ho, -⟩ := hp
    cases ho
  | cons object objects ih =>
    rw [List.map_cons, List.mapM_cons]
    rcases h object List.mem_cons_self with ⟨update, hupdate⟩ | hpanic
    · rw [hupdate]
      have hrest : ∃ object ∈ objects, Update.deserialize S (.object object) = .error .panicked := by
        obtain ⟨o, ho, hpo⟩ := hp
        rcases List.mem_cons.1 ho with rfl | ho
        · rw [hupdate] at hpo
          cases hpo
        · exact ⟨o, ho, hpo⟩
      change (objects.map Value.object).mapM (Update.deserialize S) >>= _ = _
      rw [ih (fun o ho => h o (List.mem_cons_of_mem _ ho)) hrest]
      rfl
    · rw [hpanic]
      rfl

theorem fillIn_of_none (h : updates.any (·.kind.isError) = false) (values : List Value) : fillIn updates values = updates := by
  induction updates generalizing values with
  | nil => cases values <;> rfl
  | cons update updates ih =>
    rw [List.any_cons, Bool.or_eq_false_iff] at h
    cases values with
    | nil => rfl
    | cons value values => rw [fillIn, if_neg (by rw [h.1]; decide), ih h.2]

/-- What each update becomes once the values are in. -/
theorem forall₂_fillIn {P : List (String × Value) → Update S → Prop} {Q : List (String × Value) → Update S → Prop}
    (hkeep : ∀ object update, P object update → update.kind.isError = false → Q object update)
    (hfill : ∀ object update, P object update → update.kind.isError = true →
      Q object { update with kind := .error (.object object) })
    (h : List.Forall₂ P objects updates) : List.Forall₂ Q objects (fillIn updates (objects.map Value.object)) := by
  induction h with
  | nil => exact .nil
  | @cons object update objects updates hp _ ih =>
    refine .cons ?_ ih
    by_cases he : update.kind.isError = true
    · rw [if_pos he]
      exact hfill object update hp he
    · rw [if_neg he]
      exact hkeep object update hp (Bool.eq_false_iff.2 he)

end batch

section visitOk

variable {decode : Value → Decoded R} {value : Value}

theorem lookup_none_of_nodup {key : String} {v : Value} {entries : List (String × Value)}
    (h : (((key, v) :: entries).map (·.1)).Nodup) : entries.lookup key = none := by
  have hnot := (List.nodup_cons.1 h).1
  refine List.lookup_eq_none_iff.2 fun m hm => ?_
  have hmem : m.1 ∈ entries.map (·.1) := List.mem_map_of_mem hm
  have hne : key ≠ m.1 := fun he => hnot (he ▸ hmem)
  simpa using hne

theorem lookup_cons_ne {key key' : String} {v : Value} {entries : List (String × Value)} (h : key' ≠ key) :
    ((key', v) :: entries).lookup key = entries.lookup key := by
  rw [List.lookup_cons, beq_eq_false_iff_ne.2 (Ne.symm h)]

/-- `seen` and `response` say which of the members are behind. -/
theorem visitOk_rest {entries : List (String × Value)} {seen : Bool} {response : Option R}
    (hnodup : (entries.map (·.1)).Nodup)
    (hok : entries.lookup "ok" = if seen then none else some (.bool true))
    (hresult : entries.lookup "result" = if response.isSome then none else some value) :
    visitOk decode entries seen response = response.elim (decode value) .ok := by
  induction entries generalizing seen response with
  | nil =>
    cases seen with
    | false => cases hok
    | true =>
      cases response with
      | none => cases hresult
      | some response => rfl
  | cons entry entries ih =>
    obtain ⟨key, v⟩ := entry
    have hrest := (List.nodup_cons.1 hnodup).2
    rw [visitOk.eq_def]
    dsimp only
    by_cases hk : key = "ok"
    · subst hk
      rw [List.lookup_cons_self] at hok
      rw [lookup_cons_ne (by decide)] at hresult
      cases seen with
      | true => cases hok
      | false =>
        cases hok
        rw [if_pos rfl]
        exact ih hrest (lookup_none_of_nodup hnodup) hresult
    · rw [if_neg hk]
      rw [lookup_cons_ne hk] at hok
      by_cases hk' : key = "result"
      · subst hk'
        rw [List.lookup_cons_self] at hresult
        rw [if_pos rfl]
        cases response with
        | some response => cases hresult
        | none =>
          cases hresult
          dsimp only
          cases hv : decode value with
          | error failure => rfl
          | ok response =>
            have hnone := lookup_none_of_nodup hnodup
            exact (ih hrest hok hnone : visitOk decode entries seen (some response) = .ok response)
      · rw [if_neg hk']
        rw [lookup_cons_ne hk'] at hresult
        exact ih hrest hok hresult

/-- Both members are there once, so the answer is that of the decoder. -/
theorem visitOk_eq {entries : List (String × Value)} (hnodup : (entries.map (·.1)).Nodup)
    (hok : entries.lookup "ok" = some (.bool true)) (hresult : entries.lookup "result" = some value) :
    visitOk decode entries false none = decode value := visitOk_rest hnodup hok hresult

end visitOk

/-- A response that carries a batch. -/
structure Carries (entries : List (String × Value)) (objects : List (List (String × Value))) : Prop where
  nodup : (entries.map (·.1)).Nodup
  ok : entries.lookup "ok" = some (.bool true)
  result : entries.lookup "result" = some (.array (objects.map Value.object))
  distinct : ∀ object ∈ objects, (Value.object object).Distinct
  ids : ∀ object ∈ objects, ∃ id, updateId object = some id

theorem deserialize_carries {R : Type} {decode : Value → Decoded R} {entries : List (String × Value)}
    {objects : List (List (String × Value))} (hc : Carries entries objects) {response : R}
    (h : decode (.array (objects.map Value.object)) = .ok response) :
    TelegramResponse.deserialize decode (.object entries) = .ok (.ok response) := by
  simp only [TelegramResponse.deserialize, visitOk_eq hc.nodup hc.ok hc.result, h]

/-- A batch is decoded, in order and one by one, and what is not recognized can be written as
it was; exactly if none of the updates is a change of a reaction without its actor. -/
theorem deserializeResponse_updates (S : Schema) (encode : (type : PayloadType) → UpdatePayload S type → Value)
    (read : String → Option Value) (text : String) {entries : List (String × Value)}
    {objects : List (List (String × Value))} (hread : read text = some (.object entries)) (hc : Carries entries objects) :
    ((∃ updates, deserializeResponse S read text = .returned (.ok updates) ∧ List.Forall₂ (Fits S) objects updates) ∧
      ∀ object ∈ objects, ∀ update : Update S, Update.deserialize S (.object object) = .ok update →
        update.kind.isError = true → ∃ out, update.serialize encode = some (.object out) ∧ out.Perm object) ↔
    ∀ object ∈ objects, ¬ Unattributed S object := by
  have hwritten : ∀ object ∈ objects, ∀ update : Update S, Update.deserialize S (.object object) = .ok update →
      update.kind.isError = true → ∃ out, update.serialize encode = some (.object out) ∧ out.Perm object := by
    intro object ho update hupdate he
    obtain ⟨id, hid⟩ := hc.ids object ho
    exact Update.serialize_deserialize encode (hc.distinct object ho) hid hupdate he
  constructor
  · rintro ⟨⟨updates, hreturned, -⟩, -⟩ object ho hu
    have hmap : (objects.map Value.object).mapM (Update.deserialize S) = .error .panicked := by
      refine mapM_panicked (fun o ho => ?_) ⟨object, ho, deserialize_panicked (hc.distinct object ho) (hc.ids object ho) hu⟩
      by_cases hu : Unattributed S o
      · exact .inr (deserialize_panicked (hc.distinct o ho) (hc.ids o ho) hu)
      · obtain ⟨update, hupdate, -⟩ := deserialize_ok (hc.distinct o ho) (hc.ids o ho) hu
        exact .inl ⟨update, hupdate⟩
    have hpanic : deserializeTelegramResponse read (decodeUpdates S) text = .error .panicked := by
      simp only [deserializeTelegramResponse, hread, Decoded.ofOption, bind, Except.bind, TelegramResponse.deserialize,
        visitOk_eq hc.nodup hc.ok hc.result, decodeUpdates, hmap]
    simp only [deserializeResponse, hpanic] at hreturned
    cases hreturned
  · intro hall
    refine ⟨?_, hwritten⟩
    obtain ⟨updates, hmap, hupdates⟩ := mapM_ok fun object ho =>
      deserialize_ok (hc.distinct object ho) (hc.ids object ho) (hall object ho)
    have hvalues : (objects.map Value.object).map Value.normal = objects.map Value.object := by
      rw [List.map_map]
      exact List.map_inj_left.2 hc.distinct
    have hfirst : deserializeTelegramResponse read (decodeUpdates S) text = .ok (.ok updates) := by
      rw [deserializeTelegramResponse, hread]
      exact deserialize_carries hc hmap
    have hsecond : deserializeTelegramResponse read decodeValues text = .ok (.ok (objects.map Value.object)) := by
      rw [deserializeTelegramResponse, hread]
      exact deserialize_carries hc (congrArg Except.ok hvalues)
    have hreturned : deserializeResponse S read text = .returned (.ok (fillIn updates (objects.map Value.object))) := by
      simp only [deserializeResponse, hfirst, hsecond]
      split
      · rfl
      · rename_i hnone
        rw [fillIn_of_none (Bool.eq_false_iff.2 hnone)]
    refine ⟨_, hreturned, forall₂_fillIn (fun object update h he => h.1 he) (fun object update h he => h.2 he) hupdates⟩

/-! ## Two batches -/

/-- Decoders that do what the real ones do with the values below. -/
def plainSchema : Schema where
  Chat := Unit
  User := Unit
  ReactionType := Unit
  DateTime := Int
  Other _ := Unit
  chat
    | .object _ => some ()
    | _ => none
  user
    | .object _ => some ()
    | _ => none
  reaction _ := none
  date
    | .number (.int n) => some n
    | _ => none
  other _ _ := none

/-- A change of a reaction by these. -/
def reactionUpdate (updateId : Int) (actor : List (String × Value)) : List (String × Value) :=
  [("update_id", .number (.int updateId)),
    ("message_reaction", .object (actor ++
      [("chat", .object [("id", .number (.int (-1))), ("type", .string "group")]), ("message_id", .number (.int 35)),
        ("date", .number (.int 1721306082)), ("old_reaction", .array []), ("new_reaction", .array [])]))]

def batch (objects : List (List (String × Value))) : Value :=
  .object [("ok", .bool true), ("result", .array (objects.map Value.object))]

def readText (text : String) : Option Value := Value.parse text.toList

def textOf (value : Value) : String := String.ofList value.write

theorem readText_textOf {value : Value} (h : value.Distinct) : readText (textOf value) = some value := by
  rw [readText, textOf, String.toList_ofList, Value.parse_write, h]

/-- One that is recognized, and one of a kind that is not known. -/
def mixedBatch : List (List (String × Value)) :=
  [reactionUpdate 7 [("user", .object [("id", .number (.int 2)), ("is_bot", .bool false), ("first_name", .string "A")])],
    [("update_id", .number (.int 8)), ("later", .bool true)]]

theorem deserializeResponse_updates_mixed : ∃ updates,
    deserializeResponse plainSchema readText (textOf (batch mixedBatch)) = .returned (.ok updates) ∧
      List.Forall₂ (Fits plainSchema) mixedBatch updates := by
  have hc : Carries [("ok", .bool true), ("result", .array (mixedBatch.map Value.object))] mixedBatch := by
    refine ⟨by decide, rfl, rfl, fun object ho => ?_, fun object ho => ?_⟩
    · simp only [mixedBatch, List.mem_cons, List.not_mem_nil, or_false] at ho
      rcases ho with rfl | rfl
      · rfl
      · rfl
    · simp only [mixedBatch, List.mem_cons, List.not_mem_nil, or_false] at ho
      rcases ho with rfl | rfl
      · exact ⟨7, rfl⟩
      · exact ⟨8, rfl⟩
  refine ((deserializeResponse_updates plainSchema (fun _ _ => .null) readText (textOf (batch mixedBatch))
    (readText_textOf rfl) hc).2 fun object ho hu => ?_).1
  obtain ⟨change, hmembers, ha⟩ := hu
  simp only [mixedBatch, List.mem_cons, List.not_mem_nil, or_false] at ho
  rcases ho with rfl | rfl
  · cases hmembers
    cases ha.user
  · cases hmembers

/-- A batch of one change of a reaction that nobody made. -/
theorem actorless_reaction_panics :
    ¬ ∀ (S : Schema) (read : String → Option Value) (text : String) (entries : List (String × Value))
      (objects : List (List (String × Value))), read text = some (.object entries) → Carries entries objects →
      ∃ updates, deserializeResponse S read text = .returned (.ok updates) ∧ List.Forall₂ (Fits S) objects updates := by
  intro h
  have hc : Carries [("ok", .bool true), ("result", .array ([reactionUpdate 7 []].map Value.object))] [reactionUpdate 7 []] := by
    refine ⟨by decide, rfl, rfl, fun object ho => ?_, fun object ho => ?_⟩
    · cases List.mem_singleton.1 ho
      rfl
    · cases List.mem_singleton.1 ho
      exact ⟨7, rfl⟩
  have hread := readText_textOf (show (batch [reactionUpdate 7 []]).Distinct from rfl)
  obtain ⟨updates, hreturned, -⟩ := h plainSchema readText (textOf (batch [reactionUpdate 7 []])) _ _ hread hc
  have hpanicked : deserializeResponse plainSchema readText (textOf (batch [reactionUpdate 7 []])) = .panicked := by
    rw [deserializeResponse, deserializeTelegramResponse, hread]
    rfl
  rw [hpanicked] at hreturned
  cases hreturned

end Teloxide.Net
