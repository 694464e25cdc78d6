import Teloxide.Core.Json

/-!
# Derived decoding and encoding

What `derive(Serialize, Deserialize)` does with fields, options, sequences and structures, over
the decoders and encoders of their parts. A structure is decoded from an object or from an
array that has its fields in order.

`Format` says what a format expects where, with the nodes of a grammar as its leaves: a node is
an object whose type the grammar knows, or one of another type, or an array of nodes.

* `Stands`: an object of an unknown type stands at a place where a node is expected.
* `Keeps`: what stands at a place is there again once it has been decoded and encoded. A list, an
  option and a record keep what their parts keep.
-/
namespace Teloxide.Core.Serde

open Value (Step)

/-! ## Parts -/

/-- A type as it stands in JSON; `null` is left for an option. -/
structure Codec (α : Type) where
  encode : α → Value
  decode : Value → Option α
  decode_encode : ∀ a, decode (encode a) = some a
  encode_ne_null : ∀ a, encode a ≠ .null

def string : Codec String where
  encode s := .string s
  decode
    | .string s => some s
    | _ => none
  decode_encode _ := rfl
  encode_ne_null _ h := by cases h

def bool : Codec Bool where
  encode b := .bool b
  decode
    | .bool b => some b
    | _ => none
  decode_encode _ := rfl
  encode_ne_null _ h := by cases h

def nat : Codec Nat where
  encode n := .number (.int n)
  decode
    | .number (.int n) => if 0 ≤ n then some n.toNat else none
    | _ => none
  decode_encode n := if_pos (Int.natCast_nonneg n)
  encode_ne_null _ h := by cases h

def uint8 : Codec UInt8 where
  encode n := .number (.int n.toNat)
  decode
    | .number (.int n) => if 0 ≤ n ∧ n < 2 ^ 8 then some (UInt8.ofNat n.toNat) else none
    | _ => none
  decode_encode n := by
    have h := n.toNat_lt
    simp only [Int.toNat_natCast, UInt8.ofNat_toNat]
    exact if_pos (by omega)
  encode_ne_null _ h := by cases h

def uint32 : Codec UInt32 where
  encode n := .number (.int n.toNat)
  decode
    | .number (.int n) => if 0 ≤ n ∧ n < 2 ^ 32 then some (UInt32.ofNat n.toNat) else none
    | _ => none
  decode_encode n := by
    have h := n.toNat_lt
    simp only [Int.toNat_natCast, UInt32.ofNat_toNat]
    exact if_pos (by omega)
  encode_ne_null _ h := by cases h

def int64 : Codec Int64 where
  encode n := .number (.int n.toInt)
  decode
    | .number (.int n) => if -2 ^ 63 ≤ n ∧ n < 2 ^ 63 then some (Int64.ofInt n) else none
    | _ => none
  decode_encode n := by
    simp only [Int64.ofInt_toInt]
    exact if_pos ⟨n.le_toInt, n.toInt_lt⟩
  encode_ne_null _ h := by cases h

/-- An empty structure. -/
def empty : Codec Unit where
  encode _ := .object []
  decode
    | .object _ => some ()
    | _ => none
  decode_encode _ := rfl
  encode_ne_null _ h := by cases h

namespace Codec

variable {α β : Type}

/-- A type that stands as another one. -/
def via (c : Codec β) (f : α → β) (g : β → α) (h : ∀ a, g (f a) = a) : Codec α where
  encode a := c.encode (f a)
  decode value := (c.decode value).map g
  decode_encode a := by rw [c.decode_encode, Option.map_some, h]
  encode_ne_null a := c.encode_ne_null (f a)

def pair (c : Codec α) (d : Codec β) : Codec (α × β) where
  encode p := .array [c.encode p.1, d.encode p.2]
  decode
    | .array [v, w] => (c.decode v).bind fun a => (d.decode w).map (a, ·)
    | _ => none
  decode_encode p := by
    show (c.decode (c.encode p.1)).bind _ = _
    rw [c.decode_encode, Option.bind_some, d.decode_encode]
    rfl
  encode_ne_null _ h := by cases h

/-- At most one item. -/
def maybe (c : Codec α) : Codec (Option α) where
  encode a := .array (a.map c.encode).toList
  decode
    | .array [] => some none
    | .array [v] => (c.decode v).map some
    | _ => none
  decode_encode
    | none => rfl
    | some a => by
      show (c.decode (c.encode a)).map some = _
      rw [c.decode_encode, Option.map_some]
  encode_ne_null _ h := by cases h

end Codec

variable {α : Type} {decode : Value → Option α} {encode : α → Value}

def encodeOption (encode : α → Value) : Option α → Value
  | none => .null
  | some a => encode a

def decodeOption (decode : Value → Option α) : Value → Option (Option α)
  | .null => some none
  | value => (decode value).map some

def decodeAll (decode : Value → Option α) : List Value → Option (List α)
  | [] => some []
  | value :: values => (decode value).bind fun a => (decodeAll decode values).map (a :: ·)

def decodeList (decode : Value → Option α) : Value → Option (List α)
  | .array items => decodeAll decode items
  | _ => none

/-- A field that has to be there. -/
def requiredField (decode : Value → Option α) (members : List (String × Value)) (key : String) : Option α :=
  (members.lookup key).bind decode

/-- A field that may be missing or `null`. -/
def optionalField (decode : Value → Option α) (members : List (String × Value)) (key : String) : Option (Option α) :=
  decodeOption decode ((members.lookup key).getD .null)

/-- `skip_serializing_none` -/
def skipNone (encode : α → Value) (key : String) (a : Option α) : List (String × Value) :=
  (a.map fun a => (key, encode a)).toList

/-- The fields of a structure. -/
def fieldsOf (names : List String) : Value → Option (List (String × Value))
  | .object members => some members
  | .array items => if items.length = names.length then some (names.zip items) else none
  | _ => none

theorem decodeOption_of_ne_null {value : Value} (h : value ≠ .null) :
    decodeOption decode value = (decode value).map some := by
  cases value with
  | null => exact absurd rfl h
  | _ => rfl

theorem decodeOption_encode {a : Option α} (h : ∀ b ∈ a, decode (encode b) = some b ∧ encode b ≠ .null) :
    decodeOption decode (encodeOption encode a) = some a := by
  cases a with
  | none => rfl
  | some b =>
    rw [encodeOption, decodeOption_of_ne_null (h b rfl).2, (h b rfl).1]
    rfl

theorem Codec.option (c : Codec α) (a : Option α) : decodeOption c.decode (encodeOption c.encode a) = some a :=
  decodeOption_encode fun b _ => ⟨c.decode_encode b, c.encode_ne_null b⟩

theorem requiredField_encode (c : Codec α) {members : List (String × Value)} {key : String} {a : α}
    (h : members.lookup key = some (c.encode a)) : requiredField c.decode members key = some a := by
  rw [requiredField, h, Option.bind_some, c.decode_encode]

theorem decodeAll_map {as : List α} (h : ∀ a ∈ as, decode (encode a) = some a) :
    decodeAll decode (as.map encode) = some as := by
  induction as with
  | nil => rfl
  | cons a as ih =>
    rw [List.map_cons, decodeAll, h a List.mem_cons_self, ih fun b hb => h b (List.mem_cons_of_mem _ hb)]
    rfl

theorem decodeAll_getElem? {values : List Value} {as : List α} (h : decodeAll decode values = some as) {i : Nat}
    {value : Value} (hi : values[i]? = some value) : ∃ a, as[i]? = some a ∧ decode value = some a := by
  induction values generalizing as i with
  | nil => cases hi
  | cons v values ih =>
    obtain ⟨a, ha, h⟩ := Option.bind_eq_some_iff.1 h
    obtain ⟨rest, hrest, rfl⟩ := Option.map_eq_some_iff.1 h
    cases i with
    | zero =>
      obtain rfl := Option.some.inj hi
      exact ⟨a, rfl, ha⟩
    | succ i => exact ih hrest hi

/-- A field that is skipped, or there. -/
theorem lookup_skipNone (key other : String) (a : Option α) (members : List (String × Value)) :
    (skipNone encode key a ++ members).lookup other =
      if other = key then (a.map encode).orElse fun _ => members.lookup other else members.lookup other := by
  cases a with
  | none => simp [skipNone]
  | some a =>
    by_cases h : other = key
    · simp [skipNone, h]
    · simp [skipNone, List.lookup_cons, h, beq_eq_false_iff_ne.2 h]

/-! ## Depth -/

mutual

/-- The arrays and objects around the innermost value. -/
def depth : Value → Nat
  | .array items => depthItems items + 1
  | .object members => depthMembers members + 1
  | _ => 0

def depthItems : List Value → Nat
  | [] => 0
  | item :: items => max (depth item) (depthItems items)

def depthMembers : List (String × Value) → Nat
  | [] => 0
  | (_, value) :: members => max (depth value) (depthMembers members)

end

theorem depth_of_mem {items : List Value} {item : Value} (h : item ∈ items) : depth item < depth (.array items) := by
  have hle : depth item ≤ depthItems items := by
    induction items with
    | nil => cases h
    | cons other items ih =>
      rcases List.mem_cons.1 h with rfl | h
      · exact Nat.le_max_left _ _
      · exact Nat.le_trans (ih h) (Nat.le_max_right _ _)
  rw [depth]
  omega

theorem depth_of_lookup {members : List (String × Value)} {key : String} {value : Value}
    (h : members.lookup key = some value) : depth value < depth (.object members) := by
  have hle : depth value ≤ depthMembers members := by
    induction members with
    | nil => cases h
    | cons m members ih =>
      obtain ⟨k, v⟩ := m
      rw [List.lookup_cons] at h
      split at h
      · obtain rfl := Option.some.inj h
        exact Nat.le_max_left _ _
      · exact Nat.le_trans (ih h) (Nat.le_max_right _ _)
  rw [depth]
  omega

/-! ## Formats -/

inductive Format (κ : Type) where
  | leaf
  | node (kind : κ)
  | list (item : Format κ)
  | optional (value : Format κ)
  | record (fields : List (String × Format κ))

/-- The nodes of a format: the fields of an object of a known type, and whether an array of nodes
is a node. -/
structure Grammar (κ : Type) where
  fields : κ → String → Option (List (String × Format κ))
  lists : κ → Bool

variable {κ : Type}

/-- `"type"` -/
def typeName (members : List (String × Value)) : Option String :=
  match members.lookup "type" with
  | some (.string name) => some name
  | _ => none

/-- An object of a type that the grammar does not know. -/
def Grammar.Unknown (g : Grammar κ) (kind : κ) (value : Value) : Prop :=
  ∃ members name, value = .object members ∧ typeName members = some name ∧ g.fields kind name = none

/-- `Stands g format value place object`: a node is expected at this place of the value, and the
object there has an unknown type. -/
inductive Stands (g : Grammar κ) : Format κ → Value → List Step → Value → Prop where
  | here {kind object} : g.Unknown kind object → Stands g (.node kind) object [] object
  | element {kind items i item place object} : g.lists kind = true → items[i]? = some item →
      Stands g (.node kind) item place object → Stands g (.node kind) (.array items) (.item i :: place) object
  | member {kind members name fields key format value place object} : typeName members = some name →
      g.fields kind name = some fields → (key, format) ∈ fields → members.lookup key = some value →
      Stands g format value place object → Stands g (.node kind) (.object members) (.member key :: place) object
  | item {format items i item place object} : items[i]? = some item → Stands g format item place object →
      Stands g (.list format) (.array items) (.item i :: place) object
  | value {format value place object} : value ≠ .null → Stands g format value place object →
      Stands g (.optional format) value place object
  | field {fields value members key format inner place object} :
      fieldsOf (fields.map (·.1)) value = some members → (key, format) ∈ fields → members.lookup key = some inner →
      Stands g format inner place object → Stands g (.record fields) value (.member key :: place) object

variable {g : Grammar κ} {format : Format κ}

/-- What stands in the value stands in what is encoded after decoding. -/
structure Keeps (g : Grammar κ) (format : Format κ) (decode : Value → Option α) (encode : α → Value) : Prop where
  at? : ∀ {value a place object}, decode value = some a → Stands g format value place object →
    (encode a).at? place = some object

/-- The same for a field. -/
structure Kept (g : Grammar κ) (format : Format κ) (value out : Option Value) : Prop where
  at? : ∀ {inner place object}, value = some inner → Stands g format inner place object →
    ∃ after, out = some after ∧ after.at? place = some object

theorem kept_leaf {value out : Option Value} : Kept g .leaf value out := ⟨fun _ hs => by cases hs⟩

theorem kept_required (hk : Keeps g format decode encode) {members out : List (String × Value)} {key : String} {a : α}
    (h : requiredField decode members key = some a) (hout : out.lookup key = some (encode a)) :
    Kept g format (members.lookup key) (out.lookup key) where
  at? hv hs := by
    rw [requiredField, hv] at h
    exact ⟨_, hout, hk.at? h hs⟩

theorem Keeps.list (hk : Keeps g format decode encode) :
    Keeps g (.list format) (decodeList decode) (fun as => .array (as.map encode)) where
  at? h hs := by
    cases hs with
    | item hi hs =>
      obtain ⟨a, ha, hd⟩ := decodeAll_getElem? h hi
      rw [Value.at?, List.getElem?_map, ha]
      exact hk.at? hd hs

theorem Keeps.optional (hk : Keeps g format decode encode) :
    Keeps g (.optional format) (decodeOption decode) (encodeOption encode) where
  at? h hs := by
    cases hs with
    | value hne hs =>
      rw [decodeOption_of_ne_null hne] at h
      obtain ⟨b, hb, rfl⟩ := Option.map_eq_some_iff.1 h
      exact hk.at? hb hs

theorem kept_optional (hk : Keeps g format decode encode) {members out : List (String × Value)} {key : String}
    {a : Option α} (h : optionalField decode members key = some a) (hout : out.lookup key = some (encodeOption encode a)) :
    Kept g (.optional format) (members.lookup key) (out.lookup key) where
  at? hv hs := by
    rw [optionalField, hv] at h
    exact ⟨_, hout, hk.optional.at? h hs⟩

theorem at?_of_kept {members out : List (String × Value)} {key : String} {value : Value} {place : List Step} {object : Value}
    (h : Kept g format (members.lookup key) (out.lookup key)) (hv : members.lookup key = some value)
    (hs : Stands g format value place object) : (Value.object out).at? (.member key :: place) = some object := by
  obtain ⟨after, hout, hat⟩ := h.at? hv hs
  rw [Value.at?, hout]
  exact hat

/-- A structure keeps what its fields keep. -/
theorem keeps_record {fields : List (String × Format κ)} {decode : List (String × Value) → Option α}
    (h : ∀ {members a}, decode members = some a → ∃ out, encode a = .object out ∧
      ∀ f ∈ fields, Kept g f.2 (members.lookup f.1) (out.lookup f.1)) :
    Keeps g (.record fields) (fun value => (fieldsOf (fields.map (·.1)) value).bind decode) encode where
  at? hd hs := by
    cases hs with
    | field hfields hmem hl hs =>
      obtain ⟨members', hfields', hd⟩ := Option.bind_eq_some_iff.1 hd
      obtain rfl := Option.some.inj (hfields.symm.trans hfields')
      obtain ⟨out, hout, hkept⟩ := h hd
      rw [hout]
      exact at?_of_kept (hkept _ hmem) hl hs

end Teloxide.Core.Serde
