import Teloxide.Core.Json

/-!
# Fields of a multipart request

A field of a payload becomes one part: a scalar as its plain text, a structure or a sequence
as JSON that is put together by hand. `Content` is what `Serialize` hands to a serializer;
`toString` and `toValue` are the two functions of `serde_json` on it.

* `serialize_struct`, `serialize_seq`: with at least one field, and for every sequence, the text
  is the compact JSON text.
* `agrees_iff`: a structure without fields is the only one that goes wrong.
-/
namespace Teloxide.Requests

open Teloxide.Core Utf8

/-- A field name is an identifier: no character of it is escaped. -/
structure FieldName where
  name : String
  plain : ∀ c ∈ name.toList, Value.escapeChar c = [c]

theorem plain_of_all {name : String} (h : (name.toList.all fun c => Value.escapeChar c == [c]) = true) :
    ∀ c ∈ name.toList, Value.escapeChar c = [c] := fun c hc => eq_of_beq (List.all_eq_true.1 h c hc)

/-- The calls of a `Serialize` implementation. A map has the keys that its entries get in JSON;
a float has its JSON text, unless it is not finite, and its `Display`. -/
inductive Content where
  | bool (v : Bool)
  | int (v : Int)
  | float (json : Option {token : Str // isFloat token = true}) (display : Str)
  | char (v : Char)
  | str (v : String)
  | bytes (v : List UInt8)
  | absent
  | present (value : Content)
  | unit
  | unitStruct
  | unitVariant (variant : String)
  | newtypeStruct (value : Content)
  | newtypeVariant (variant : String) (value : Content)
  | seq (items : List Content)
  | tuple (items : List Content)
  | tupleStruct (items : List Content)
  | tupleVariant (variant : String) (items : List Content)
  | map (entries : List (String × Content))
  | struct (fields : List (FieldName × Content))
  | structVariant (variant : String) (fields : List (FieldName × Content))

namespace Content

mutual

/-- The JSON of a content, with its members in the order of the calls. -/
def toJson : Content → Value
  | .bool v => .bool v
  | .int v => .number (.int v)
  | .float (.some token) _ => .number (.float token)
  | .float .none _ | .absent | .unit | .unitStruct => .null
  | .char v => .string (String.ofList [v])
  | .str v | .unitVariant v => .string v
  | .bytes v => .array (v.map fun b => .number (.int b.toNat))
  | .present v | .newtypeStruct v => v.toJson
  | .newtypeVariant variant v => .object [(variant, v.toJson)]
  | .seq items | .tuple items | .tupleStruct items => .array (itemsToJson items)
  | .tupleVariant variant items => .object [(variant, .array (itemsToJson items))]
  | .map entries => .object (entriesToJson entries)
  | .struct fields => .object (fieldsToJson fields)
  | .structVariant variant fields => .object [(variant, .object (fieldsToJson fields))]

def itemsToJson : List Content → List Value
  | [] => []
  | item :: items => item.toJson :: itemsToJson items

def entriesToJson : List (String × Content) → List (String × Value)
  | [] => []
  | (key, value) :: entries => (key, value.toJson) :: entriesToJson entries

def fieldsToJson : List (FieldName × Content) → List (String × Value)
  | [] => []
  | (key, value) :: fields => (key.name, value.toJson) :: fieldsToJson fields

end

/-- `serde_json::to_string` -/
def toString (v : Content) : Str := v.toJson.write

/-- `serde_json::to_value` -/
def toValue (v : Content) : Value := v.toJson.normal

/-- What is under the wrappers `Some` and newtype. -/
def core : Content → Content
  | .present v | .newtypeStruct v => v.core
  | v => v

end Content

inductive Part where
  | text (text : Str)
  | bytes (bytes : List UInt8)
  deriving DecidableEq, Repr

/-- mirrors serializers.rs:37-40 -/
inductive PartSerializerStructState where
  | empty
  | rest
  deriving DecidableEq, Repr

/-- mirrors serializers.rs:28-31 -/
structure JsonPartSerializer where
  buf : Str
  state : PartSerializerStructState
  deriving DecidableEq, Repr

namespace JsonPartSerializer

def new : JsonPartSerializer := ⟨[], .empty⟩

/-- mirrors serializers.rs:462-483 -/
def serializeField (s : JsonPartSerializer) (key : String) (value : Content) : JsonPartSerializer :=
  match s.state with
  | .empty => ⟨s.buf ++ '{' :: '"' :: (key.toList ++ '"' :: ':' :: value.toString), .rest⟩
  | .rest => ⟨s.buf ++ ',' :: '"' :: (key.toList ++ '"' :: ':' :: value.toString), .rest⟩

/-- No format string: the braces of the first case stay doubled.
mirrors serializers.rs:485-496 -/
def endStruct (s : JsonPartSerializer) : Part :=
  match s.state with
  | .empty => .text ['{', '{', '}', '}']
  | .rest => .text (s.buf ++ ['}'])

/-- mirrors serializers.rs:504-521 -/
def serializeElement (s : JsonPartSerializer) (value : Content) : JsonPartSerializer :=
  match s.state with
  | .empty => ⟨s.buf ++ '[' :: value.toString, .rest⟩
  | .rest => ⟨s.buf ++ ',' :: value.toString, .rest⟩

/-- mirrors serializers.rs:523-534 -/
def endSeq (s : JsonPartSerializer) : Part :=
  match s.state with
  | .empty => .text ['[', ']']
  | .rest => .text (s.buf ++ [']'])

end JsonPartSerializer

/-- No part: the call panics.
mirrors serializers.rs:279-454 -/
def PartSerializer.serialize : Content → Option Part
  | .bool v => some (.text (if v then ['t', 'r', 'u', 'e'] else ['f', 'a', 'l', 's', 'e']))
  | .int v => some (.text (ToString.toString v).toList)
  | .float _ display => some (.text display)
  | .char v => some (.text [v])
  | .str v => some (.text v.toList)
  | .bytes v => some (.bytes v)
  | .present v => serialize v
  | .unitVariant variant => some (.text variant.toList)
  | .struct fields =>
    some (fields.foldl (fun s f => s.serializeField f.1.name f.2) JsonPartSerializer.new).endStruct
  | .seq items => some (items.foldl JsonPartSerializer.serializeElement JsonPartSerializer.new).endSeq
  | .newtypeStruct v => serialize v
  | .absent | .unit | .unitStruct | .newtypeVariant _ _ | .tuple _ | .tupleStruct _ | .tupleVariant _ _ | .map _
  | .structVariant _ _ => none

/-! ## Two structures -/

/-- mirrors suggested_post_price.rs -/
structure SuggestedPostPrice where
  currency : String
  amount : Int
  deriving DecidableEq, Repr

/-- The date is a timestamp in seconds.
mirrors suggested_post_parameters.rs:12-24 -/
structure SuggestedPostParameters where
  price : Option SuggestedPostPrice
  sendDate : Option Int
  deriving DecidableEq, Repr

def SuggestedPostPrice.serialize (price : SuggestedPostPrice) : Content :=
  .struct [(⟨"currency", plain_of_all rfl⟩, .str price.currency), (⟨"amount", plain_of_all rfl⟩, .int price.amount)]

/-- `#[serde_with::skip_serializing_none]` -/
def SuggestedPostParameters.serialize (parameters : SuggestedPostParameters) : Content :=
  .struct ((parameters.price.map fun price => (⟨"price", plain_of_all rfl⟩, .present price.serialize)).toList ++
    (parameters.sendDate.map fun date => (⟨"send_date", plain_of_all rfl⟩, .present (.int date))).toList)

/-! ## What a part should be -/

/-- The text of a JSON scalar without quotes. -/
def plainText : Value → Option Str
  | .null => none
  | .bool b => some (Value.bool b).write
  | .number n => some n.write
  | .string s => some s.toList
  | .array _ | .object _ => none

/-- The outermost shapes that fields have. -/
def Content.isField (v : Content) : Bool :=
  match v.core with
  | .bool _ | .int _ | .str _ | .unitVariant _ | .seq _ | .struct _ => true
  | _ => false

/-- The plain text of a scalar, or a JSON text of the same value. -/
def Agrees (v : Content) (part : Part) : Prop :=
  ∃ text, part = .text text ∧
    match plainText v.toValue with
    | some plain => text = plain
    | none => Value.parse text = some v.toValue

/-! ## Results -/

section text

theorem joined_eq (text : Str) (texts : List Str) :
    Value.joined (text :: texts) = text ++ texts.flatMap (',' :: ·) := by
  induction texts generalizing text with
  | nil => simp [Value.joined]
  | cons next texts ih => rw [Value.joined_cons, ih next, List.flatMap_cons, List.cons_append]

theorem quote_name (key : FieldName) : Value.quote key.name.toList = '"' :: (key.name.toList ++ ['"']) := by
  have h : key.name.toList.flatMap Value.escapeChar = key.name.toList := by
    rw [List.flatMap_congr key.plain, List.flatMap_singleton']
  rw [Value.quote, h]

/-- A member of an object. -/
def member (f : FieldName × Content) : Str := '"' :: (f.1.name.toList ++ '"' :: ':' :: f.2.toString)

theorem writeMembers_fields (fields : List (FieldName × Content)) :
    Value.writeMembers (Content.fieldsToJson fields) = fields.map member := by
  induction fields with
  | nil => rfl
  | cons f fields ih =>
    rw [Content.fieldsToJson, Value.writeMembers, ih, quote_name, List.map_cons]
    congr 1
    simp [member, Content.toString]

theorem writeItems_items (items : List Content) :
    Value.writeItems (Content.itemsToJson items) = items.map Content.toString := by
  induction items with
  | nil => rfl
  | cons item items ih =>
    rw [Content.itemsToJson, Value.writeItems, ih]
    rfl

theorem foldl_serializeField (fields : List (FieldName × Content)) (buf : Str) :
    fields.foldl (fun s f => s.serializeField f.1.name f.2) (JsonPartSerializer.mk buf .rest) =
      JsonPartSerializer.mk (buf ++ (fields.map member).flatMap (',' :: ·)) .rest := by
  induction fields generalizing buf with
  | nil => simp
  | cons f fields ih =>
    rw [List.foldl_cons, List.map_cons, List.flatMap_cons, ← List.append_assoc]
    exact ih _

theorem foldl_serializeElement (items : List Content) (buf : Str) :
    items.foldl JsonPartSerializer.serializeElement (JsonPartSerializer.mk buf .rest) =
      JsonPartSerializer.mk (buf ++ (items.map Content.toString).flatMap (',' :: ·)) .rest := by
  induction items generalizing buf with
  | nil => simp
  | cons item items ih =>
    rw [List.foldl_cons, List.map_cons, List.flatMap_cons, ← List.append_assoc]
    exact ih _

/-- Built by hand, the text is that of the writer. -/
theorem serialize_struct (f : FieldName × Content) (fields : List (FieldName × Content)) :
    PartSerializer.serialize (.struct (f :: fields)) = some (.text (Content.struct (f :: fields)).toString) := by
  have hfirst : JsonPartSerializer.new.serializeField f.1.name f.2 = ⟨'{' :: member f, .rest⟩ := rfl
  have htext : (Content.struct (f :: fields)).toString =
      '{' :: (Value.joined (Value.writeMembers (Content.fieldsToJson (f :: fields))) ++ ['}']) := by
    simp only [Content.toString, Content.toJson, Value.write]
  rw [PartSerializer.serialize, List.foldl_cons, hfirst, foldl_serializeField, htext, writeMembers_fields, List.map_cons,
    joined_eq]
  rfl

theorem serialize_seq (items : List Content) :
    PartSerializer.serialize (.seq items) = some (.text (Content.seq items).toString) := by
  cases items with
  | nil => rfl
  | cons item items =>
    have hfirst : JsonPartSerializer.new.serializeElement item = ⟨'[' :: item.toString, .rest⟩ := rfl
    have htext : (Content.seq (item :: items)).toString =
        '[' :: (Value.joined (Value.writeItems (Content.itemsToJson (item :: items))) ++ [']']) := by
      simp only [Content.toString, Content.toJson, Value.write]
    rw [PartSerializer.serialize, List.foldl_cons, hfirst, foldl_serializeElement, htext, writeItems_items, List.map_cons,
      joined_eq]
    rfl

end text

theorem serialize_core (v : Content) : PartSerializer.serialize v.core = PartSerializer.serialize v := by
  fun_induction Content.core v with
  | case1 v ih => exact ih
  | case2 v ih => exact ih
  | case3 v => rfl

theorem toValue_core (v : Content) : v.core.toValue = v.toValue := by
  fun_induction Content.core v with
  | case1 v ih => exact ih
  | case2 v ih => exact ih
  | case3 v => rfl

theorem plainText_seq (items : List Content) : plainText (Content.seq items).toValue = none := by
  simp only [Content.toValue, Content.toJson, Value.normal, plainText]

theorem plainText_struct (fields : List (FieldName × Content)) : plainText (Content.struct fields).toValue = none := by
  simp only [Content.toValue, Content.toJson, Value.normal, plainText]

/-- The text of the writer is what it should be for an array or an object. -/
theorem agrees_toString {v : Content} (h : plainText v.toValue = none) : Agrees v (.text v.toString) := by
  refine ⟨_, rfl, ?_⟩
  rw [h]
  exact Value.parse_write v.toJson

theorem toString_int (n : Int) : (ToString.toString n).toList = (Number.int n).write := by
  cases n with
  | ofNat n => exact Nat.toList_repr
  | negSucc n => simp [ToString.toString, Int.repr, Number.write]

/-- Doubled braces are no JSON. -/
theorem not_agrees_doubled {v : Content} (h : plainText v.toValue = none) : ¬ Agrees v (.text ['{', '{', '}', '}']) := by
  rintro ⟨text, htext, hparse⟩
  obtain rfl := Part.text.inj htext
  rw [h] at hparse
  have hnone : (Value.parse ['{', '{', '}', '}']).isNone = true := by decide
  rw [Option.isNone_iff_eq_none.1 hnone] at hparse
  cases hparse

/-- Every field becomes a part that agrees with its JSON value, except for a structure none of
whose fields is serialized. -/
theorem agrees_iff (v : Content) (h : v.isField = true) :
    (∃ part, PartSerializer.serialize v = some part ∧ Agrees v part) ↔ v.core ≠ .struct [] := by
  have hagrees (part : Part) : Agrees v part ↔ Agrees v.core part := by rw [Agrees, Agrees, toValue_core]
  simp only [hagrees, ← serialize_core v]
  unfold Content.isField at h
  generalize v.core = w at h ⊢
  cases w with
  | bool b => exact iff_of_true ⟨_, rfl, _, rfl, by cases b <;> rfl⟩ (fun h => by cases h)
  | int n => exact iff_of_true ⟨_, rfl, _, rfl, toString_int n⟩ (fun h => by cases h)
  | str s => exact iff_of_true ⟨_, rfl, _, rfl, rfl⟩ (fun h => by cases h)
  | unitVariant s => exact iff_of_true ⟨_, rfl, _, rfl, rfl⟩ (fun h => by cases h)
  | seq items => exact iff_of_true ⟨_, serialize_seq items, agrees_toString (plainText_seq items)⟩ (fun h => by cases h)
  | struct fields =>
    cases fields with
    | nil =>
      refine ⟨?_, fun h => absurd rfl h⟩
      rintro ⟨part, hpart, hagrees⟩
      obtain rfl := Option.some.inj hpart
      exact absurd hagrees (not_agrees_doubled (plainText_struct []))
    | cons f fields =>
      exact iff_of_true ⟨_, serialize_struct f fields, agrees_toString (plainText_struct _)⟩ (fun h => by cases h)
  | _ => cases h

/-- A price and no date. -/
theorem agrees_iff_price :
    (∃ part, PartSerializer.serialize (.present (SuggestedPostParameters.mk (some ⟨"XTR", 5⟩) none).serialize) = some part ∧
      Agrees (.present (SuggestedPostParameters.mk (some ⟨"XTR", 5⟩) none).serialize) part) ↔
    (Content.present (SuggestedPostParameters.mk (some ⟨"XTR", 5⟩) none).serialize).core ≠ .struct [] :=
  agrees_iff _ rfl

theorem SuggestedPostParameters.serialize_eq_empty (parameters : SuggestedPostParameters) :
    parameters.serialize = .struct [] ↔ parameters = ⟨none, none⟩ := by
  obtain ⟨price, date⟩ := parameters
  cases price <;> cases date <;> simp [SuggestedPostParameters.serialize]

/-- With no option set the text is `{{}}`. -/
theorem parameters_without_options : ¬ ∀ v : Content, v.isField = true →
    ∃ part, PartSerializer.serialize v = some part ∧ Agrees v part := by
  intro h
  obtain ⟨part, hpart, hagrees⟩ := h (.present (SuggestedPostParameters.mk none none).serialize) rfl
  obtain rfl := Option.some.inj hpart
  exact not_agrees_doubled (plainText_struct []) hagrees

end Teloxide.Requests
