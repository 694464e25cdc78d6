import Teloxide.Core.Utf16

/-!
# JSON values

Values, the places in them, and their text. The writer is the compact one; an object that
is written keeps a member that comes twice, and the reader lets the last one win.

* `parse_write`: what is written parses as itself, up to members that come twice.
* `at?_append`: a place below a place.
-/
namespace Teloxide.Core

open Utf8

/-! ## Numbers -/

def isNumberChar (c : Char) : Bool := c.isDigit || c = '-' || c = '+' || c = '.' || c = 'e' || c = 'E'

/-- At least one digit, and no zero before another. -/
def wholePart (digits : Str) : Bool :=
  !digits.isEmpty && digits.all Char.isDigit && (digits.head? ≠ some '0' || digits.length = 1)

/-- `42`, `-42` -/
def integer? : Str → Option Int
  | [] => none
  | c :: rest =>
    if c = '-' then if wholePart rest then some (-(Nat.ofDigitChars 10 rest 0 : Int)) else none
    else if wholePart (c :: rest) then some (Nat.ofDigitChars 10 (c :: rest) 0) else none

/-- `e5`, `E-5`, `e+5` -/
def exponentPart : Str → Bool
  | [] => false
  | c :: rest =>
    let digits := if rest.head? = some '-' ∨ rest.head? = some '+' then rest.tail else rest
    (c = 'e' || c = 'E') && !digits.isEmpty && digits.all Char.isDigit

/-- A number with a fraction or an exponent. -/
def isFloat (token : Str) : Bool :=
  let unsigned := if token.head? = some '-' then token.tail else token
  let rest := unsigned.dropWhile Char.isDigit
  let fraction := rest.tail.takeWhile Char.isDigit
  let exponent := rest.tail.dropWhile Char.isDigit
  token.all isNumberChar && wholePart (unsigned.takeWhile Char.isDigit) && (integer? token).isNone &&
    (exponentPart rest || rest.head? = some '.' && !fraction.isEmpty && (exponent.isEmpty || exponentPart exponent))

/-- An integer of any size; another number is known by its spelling. -/
inductive Number where
  | int (n : Int)
  | float (token : {token : Str // isFloat token = true})
  deriving DecidableEq, Repr

namespace Number

def write : Number → Str
  | .int (.ofNat n) => Nat.toDigits 10 n
  | .int (.negSucc n) => '-' :: Nat.toDigits 10 (n + 1)
  | .float token => token.val

def ofToken (token : Str) : Option Number :=
  match integer? token with
  | some n => some (.int n)
  | none => if h : isFloat token = true then some (.float ⟨token, h⟩) else none

end Number

/-! What is written reads as itself. -/

theorem all_toDigits (n : Nat) : (Nat.toDigits 10 n).all Char.isDigit = true :=
  List.all_eq_true.2 fun _ hc => Nat.isDigit_of_mem_toDigits (by decide) (by decide) hc

/-- The first digit is not zero, except in zero itself. -/
theorem head?_toDigits {n : Nat} (h : 0 < n) : (Nat.toDigits 10 n).head? ≠ some '0' := by
  induction n using Nat.strong_induction_on with
  | _ n ih =>
    by_cases hn : n < 10
    · rw [Nat.toDigits_of_lt_base hn]
      have hall : ∀ d, d < 10 → 0 < d → d.digitChar ≠ '0' := by decide
      exact fun he => hall n hn h (Option.some.inj he)
    · rw [Nat.toDigits_of_base_le (by decide) (by omega), List.head?_append_of_ne_nil _ Nat.toDigits_ne_nil]
      exact ih (n / 10) (by omega) (by omega)

theorem wholePart_toDigits (n : Nat) : wholePart (Nat.toDigits 10 n) = true := by
  have hne : (Nat.toDigits 10 n).isEmpty = false := List.isEmpty_eq_false_iff.2 Nat.toDigits_ne_nil
  unfold wholePart
  rw [hne, all_toDigits]
  rcases Nat.eq_zero_or_pos n with rfl | h
  · rfl
  · simp [head?_toDigits h]

theorem integer?_toDigits (n : Nat) : integer? (Nat.toDigits 10 n) = some (n : Int) := by
  have hw := wholePart_toDigits n
  have hof := Nat.ofDigitChars_toDigits (b := 10) (n := n) (by decide) (by decide)
  have hall := all_toDigits n
  cases hd : Nat.toDigits 10 n with
  | nil => exact absurd hd Nat.toDigits_ne_nil
  | cons c rest =>
    rw [hd] at hw hof hall
    have hc : c ≠ '-' := fun he => by
      rw [he, List.all_cons] at hall
      cases hall
    rw [integer?, if_neg hc, if_pos hw, hof]

theorem integer?_neg (n : Nat) : integer? ('-' :: Nat.toDigits 10 n) = some (-(n : Int)) := by
  have hof := Nat.ofDigitChars_toDigits (b := 10) (n := n) (by decide) (by decide)
  rw [integer?, if_pos rfl, if_pos (wholePart_toDigits n), hof]

theorem isNumberChar_of_isDigit {c : Char} (h : c.isDigit = true) : isNumberChar c = true := by
  simp [isNumberChar, h]

theorem Number.all_write (n : Number) : n.write.all isNumberChar = true := by
  have hdigits (n : Nat) : (Nat.toDigits 10 n).all isNumberChar = true :=
    List.all_eq_true.2 fun c hc => isNumberChar_of_isDigit (List.all_eq_true.1 (all_toDigits n) c hc)
  match n with
  | .int (.ofNat n) => exact hdigits n
  | .int (.negSucc n) =>
    rw [Number.write, List.all_cons, hdigits]
    rfl
  | .float token =>
    have h := token.property
    simp only [isFloat, Bool.and_eq_true] at h
    exact h.1.1.1

theorem Number.ofToken_write (n : Number) : ofToken n.write = some n := by
  match n with
  | .int (.ofNat n) =>
    rw [ofToken, Number.write, integer?_toDigits]
    rfl
  | .int (.negSucc n) =>
    rw [ofToken, Number.write, integer?_neg]
    rfl
  | .float token =>
    have h := token.property
    simp only [isFloat, Bool.and_eq_true] at h
    rw [ofToken, Number.write, Option.isNone_iff_eq_none.1 h.1.2]
    exact dif_pos token.property

theorem Number.write_ne_nil (n : Number) : n.write ≠ [] := fun h => by
  have hof := Number.ofToken_write n
  rw [h] at hof
  cases hof

/-! ## Values -/

inductive Value where
  | null
  | bool (b : Bool)
  | number (n : Number)
  | string (s : String)
  | array (items : List Value)
  | object (members : List (String × Value))

namespace Value

/-- A step into an array or an object. -/
inductive Step where
  | item (index : Nat)
  | member (key : String)
  deriving DecidableEq, Repr

/-- What stands at a place. -/
def at? : Value → List Step → Option Value
  | value, [] => some value
  | .array items, .item i :: place => items[i]?.bind (·.at? place)
  | .object members, .member key :: place => (members.lookup key).bind (·.at? place)
  | _, _ :: _ => none

theorem at?_append (value : Value) (p q : List Step) : value.at? (p ++ q) = (value.at? p).bind (·.at? q) := by
  induction p generalizing value with
  | nil => cases value <;> simp [at?]
  | cons step p ih =>
    cases value <;> cases step <;> simp only [List.cons_append, at?, Option.bind_none]
    · rw [Option.bind_assoc]
      exact congrArg _ (funext ih)
    · rw [Option.bind_assoc]
      exact congrArg _ (funext ih)

/-- A member takes the place of one with its key. -/
def insert (key : String) (value : Value) : List (String × Value) → List (String × Value)
  | [] => [(key, value)]
  | (k, v) :: members => if k = key then (key, value) :: members else (k, v) :: insert key value members

/-- The members one after the other. -/
def collect (members : List (String × Value)) : List (String × Value) :=
  members.foldl (fun known m => insert m.1 m.2 known) []

mutual

/-- No object has a key twice; the last member stays. -/
def normal : Value → Value
  | .array items => .array (normalItems items)
  | .object members => .object (collect (normalMembers members))
  | value => value

def normalItems : List Value → List Value
  | [] => []
  | item :: items => item.normal :: normalItems items

def normalMembers : List (String × Value) → List (String × Value)
  | [] => []
  | (key, value) :: members => (key, value.normal) :: normalMembers members

end

/-- No object in the value has a key twice. -/
def Distinct (value : Value) : Prop := value.normal = value

theorem normalMembers_eq_map (members : List (String × Value)) :
    normalMembers members = members.map fun m => (m.1, m.2.normal) := by
  induction members with
  | nil => rfl
  | cons m members ih => rw [normalMembers, ih, List.map_cons]

theorem keys_insert (key : String) (value : Value) (members : List (String × Value)) :
    (insert key value members).map (·.1) =
      if key ∈ members.map (·.1) then members.map (·.1) else members.map (·.1) ++ [key] := by
  induction members with
  | nil => simp [insert]
  | cons m members ih =>
    by_cases h : m.1 = key
    · simp [insert, h]
    · have hne : key ≠ m.1 := fun he => h he.symm
      simp only [insert, h, if_false, List.map_cons, ih, List.mem_cons, hne, false_or]
      split <;> rfl

theorem insert_fresh {key : String} (value : Value) {members : List (String × Value)} (h : key ∉ members.map (·.1)) :
    insert key value members = members ++ [(key, value)] := by
  induction members with
  | nil => rfl
  | cons m members ih =>
    simp only [List.map_cons, List.mem_cons, not_or] at h
    rw [insert, if_neg (Ne.symm h.1), ih h.2, List.cons_append]

theorem nodup_collect (members : List (String × Value)) : ((collect members).map (·.1)).Nodup := by
  have hstep (known members : List (String × Value)) (h : (known.map (·.1)).Nodup) :
      ((members.foldl (fun known m => insert m.1 m.2 known) known).map (·.1)).Nodup := by
    induction members generalizing known with
    | nil => exact h
    | cons m members ih =>
      refine ih _ ?_
      rw [keys_insert]
      split
      · exact h
      · rename_i hfresh
        refine List.nodup_append.2 ⟨h, List.pairwise_singleton _ _, fun a ha b hb hab => ?_⟩
        rw [List.mem_singleton] at hb
        exact hfresh (hb ▸ hab ▸ ha)
  exact hstep [] members List.nodup_nil

theorem collect_of_nodup {members : List (String × Value)} (h : (members.map (·.1)).Nodup) : collect members = members := by
  have hstep (known members : List (String × Value)) (h : ((known ++ members).map (·.1)).Nodup) :
      members.foldl (fun known m => insert m.1 m.2 known) known = known ++ members := by
    induction members generalizing known with
    | nil => rw [List.append_nil, List.foldl_nil]
    | cons m members ih =>
      have hfresh : m.1 ∉ known.map (·.1) := fun hm => by
        rw [List.map_append, List.map_cons] at h
        exact (List.nodup_append.1 h).2.2 m.1 hm m.1 List.mem_cons_self rfl
      rw [List.foldl_cons, insert_fresh _ hfresh, ih, List.append_assoc, List.singleton_append]
      rwa [List.append_assoc, List.singleton_append]
  exact hstep [] members h

/-- The keys of an object are distinct, and so are those of every member. -/
theorem distinct_object {members : List (String × Value)} :
    (Value.object members).Distinct ↔ (members.map (·.1)).Nodup ∧ ∀ m ∈ members, m.2.Distinct := by
  have hkeys : (normalMembers members).map (·.1) = members.map (·.1) := by
    rw [normalMembers_eq_map, List.map_map]
    rfl
  unfold Distinct
  rw [normal, Value.object.injEq]
  constructor
  · intro h
    have hnodup : (members.map (·.1)).Nodup := h ▸ nodup_collect _
    rw [collect_of_nodup (hkeys ▸ hnodup), normalMembers_eq_map] at h
    refine ⟨hnodup, fun m hm => ?_⟩
    have hself := List.map_inj_left.1 (h.trans (List.map_id members).symm) m hm
    exact congrArg Prod.snd hself
  · rintro ⟨hnodup, hall⟩
    rw [collect_of_nodup (hkeys ▸ hnodup), normalMembers_eq_map]
    refine (List.map_inj_left.2 fun m hm => ?_).trans (List.map_id members)
    exact Prod.ext rfl (hall m hm)

/-- The one member with a key. -/
theorem filter_key {key : String} {value : Value} {members : List (String × Value)} (h : (members.map (·.1)).Nodup)
    (hl : members.lookup key = some value) : members.filter (·.1 = key) = [(key, value)] := by
  obtain ⟨before, after, rfl, hbefore⟩ := List.lookup_eq_some_iff.1 hl
  rw [List.map_append, List.map_cons] at h
  have hafter := (List.nodup_cons.1 (List.nodup_append.1 h).2.1).1
  have hb : before.filter (·.1 = key) = [] := List.filter_eq_nil_iff.2 fun m hm => by
    have hne : (key == m.1) = false := by simpa using hbefore m hm
    simpa using fun he : m.1 = key => ne_of_beq_false hne he.symm
  have ha : after.filter (·.1 = key) = [] := List.filter_eq_nil_iff.2 fun m hm => by
    have hmem : m.1 ∈ after.map (·.1) := List.mem_map_of_mem hm
    simpa using fun he : m.1 = key => hafter (he ▸ hmem)
  rw [List.filter_append, List.filter_cons_of_pos (by simp), hb, ha, List.nil_append]

/-- The others, with the one put in front. -/
theorem perm_filter_key {key : String} {value : Value} {members : List (String × Value)} (h : (members.map (·.1)).Nodup)
    (hl : members.lookup key = some value) : ((key, value) :: members.filter (·.1 ≠ key)).Perm members := by
  have hall := List.filter_append_perm (fun m : String × Value => decide (m.1 = key)) members
  rw [filter_key h hl] at hall
  simpa using hall

/-! ## Writing -/

/-- The texts, with commas between them. -/
def joined : List Str → Str
  | [] => []
  | [text] => text
  | text :: texts => text ++ ',' :: joined texts

def escapeChar (c : Char) : Str :=
  if c = '"' then ['\\', '"']
  else if c = '\\' then ['\\', '\\']
  else if c = '\n' then ['\\', 'n']
  else if c = '\r' then ['\\', 'r']
  else if c = '\t' then ['\\', 't']
  else if c = '\x08' then ['\\', 'b']
  else if c = '\x0c' then ['\\', 'f']
  else if c.toNat < 0x20 then ['\\', 'u', '0', '0', (c.toNat / 16).digitChar, (c.toNat % 16).digitChar]
  else [c]

def quote (s : Str) : Str := '"' :: (s.flatMap escapeChar ++ ['"'])

mutual

/-- Without white space. -/
def write : Value → Str
  | .null => ['n', 'u', 'l', 'l']
  | .bool true => ['t', 'r', 'u', 'e']
  | .bool false => ['f', 'a', 'l', 's', 'e']
  | .number n => n.write
  | .string s => quote s.toList
  | .array items => '[' :: (joined (writeItems items) ++ [']'])
  | .object members => '{' :: (joined (writeMembers members) ++ ['}'])

def writeItems : List Value → List Str
  | [] => []
  | item :: items => item.write :: writeItems items

def writeMembers : List (String × Value) → List Str
  | [] => []
  | (key, value) :: members => (quote key.toList ++ ':' :: value.write) :: writeMembers members

end

/-! ## Reading -/

def isSpace (c : Char) : Bool := c = ' ' || c = '\n' || c = '\t' || c = '\r'

def skipSpace (text : Str) : Str := text.dropWhile isSpace

def hexValue (c : Char) : Option Nat :=
  if c.isDigit then some (c.toNat - '0'.toNat)
  else if 'a' ≤ c ∧ c ≤ 'f' then some (c.toNat - 'a'.toNat + 10)
  else if 'A' ≤ c ∧ c ≤ 'F' then some (c.toNat - 'A'.toNat + 10)
  else none

/-- The code unit of four hexadecimal digits. -/
def readUnit : Str → Option (Nat × Str)
  | a :: b :: c :: d :: rest => do
    let a ← hexValue a
    let b ← hexValue b
    let c ← hexValue c
    let d ← hexValue d
    pure (((a * 16 + b) * 16 + c) * 16 + d, rest)
  | _ => none

/-- A code unit, or two that are one character. -/
def readUnicode (text : Str) : Option (Char × Str) :=
  (readUnit text).bind fun (unit, rest) =>
    match Utf16.decodeOne unit with
    | some c => some (c, rest)
    | none =>
      match rest with
      | '\\' :: 'u' :: rest =>
        (readUnit rest).bind fun (next, rest) => (Utf16.decodePair unit next).map (·, rest)
      | _ => none

/-- What comes after a backslash. -/
def readEscape : Str → Option (Char × Str)
  | [] => none
  | c :: rest =>
    if c = '"' ∨ c = '\\' ∨ c = '/' then some (c, rest)
    else if c = 'n' then some ('\n', rest)
    else if c = 'r' then some ('\r', rest)
    else if c = 't' then some ('\t', rest)
    else if c = 'b' then some ('\x08', rest)
    else if c = 'f' then some ('\x0c', rest)
    else if c = 'u' then readUnicode rest
    else none

/-- Up to the closing quote. -/
def readString : Nat → Str → Option (Str × Str)
  | 0, _ => none
  | _ + 1, [] => none
  | n + 1, c :: rest =>
    if c = '"' then some ([], rest)
    else if c = '\\' then (readEscape rest).bind fun (d, rest) => (readString n rest).map fun r => (d :: r.1, r.2)
    else if c.toNat < 0x20 then none
    else (readString n rest).map fun r => (c :: r.1, r.2)

/-- The quote is behind; what follows has fuel for its length. -/
def readQuoted (rest : Str) : Option (String × Str) :=
  (readString (rest.length + 1) rest).map fun r => (String.ofList r.1, r.2)

def readNumber (text : Str) : Option (Value × Str) :=
  (Number.ofToken (text.takeWhile isNumberChar)).map fun n => (.number n, text.dropWhile isNumberChar)

def readWord (word : Str) (value : Value) (text : Str) : Option (Value × Str) :=
  if word.isPrefixOf text then some (value, text.drop word.length) else none

mutual

def readValue : Nat → Str → Option (Value × Str)
  | 0, _ => none
  | n + 1, text =>
    match skipSpace text with
    | [] => none
    | c :: rest =>
      if c = '"' then (readQuoted rest).map fun r => (.string r.1, r.2)
      else if c = '[' then
        if (skipSpace rest).head? = some ']' then some (.array [], (skipSpace rest).tail)
        else (readItems n rest).map fun r => (.array r.1, r.2)
      else if c = '{' then
        if (skipSpace rest).head? = some '}' then some (.object [], (skipSpace rest).tail)
        else (readMembers n rest).map fun r => (.object (collect r.1), r.2)
      else if c = 'n' then readWord ['n', 'u', 'l', 'l'] .null (c :: rest)
      else if c = 't' then readWord ['t', 'r', 'u', 'e'] (.bool true) (c :: rest)
      else if c = 'f' then readWord ['f', 'a', 'l', 's', 'e'] (.bool false) (c :: rest)
      else readNumber (c :: rest)

/-- At least one item, up to the bracket. -/
def readItems : Nat → Str → Option (List Value × Str)
  | 0, _ => none
  | n + 1, text =>
    (readValue n text).bind fun (item, rest) =>
      match skipSpace rest with
      | [] => none
      | c :: rest =>
        if c = ',' then (readItems n rest).map fun r => (item :: r.1, r.2)
        else if c = ']' then some ([item], rest)
        else none

/-- At least one member, up to the brace. -/
def readMembers : Nat → Str → Option (List (String × Value) × Str)
  | 0, _ => none
  | n + 1, text =>
    if (skipSpace text).head? = some '"' then
      (readQuoted (skipSpace text).tail).bind fun (key, rest) =>
        if (skipSpace rest).head? = some ':' then
          (readValue n (skipSpace rest).tail).bind fun (value, rest) =>
            match skipSpace rest with
            | [] => none
            | c :: rest =>
              if c = ',' then (readMembers n rest).map fun r => ((key, value) :: r.1, r.2)
              else if c = '}' then some ([(key, value)], rest)
              else none
        else none
    else none

end

def parse (text : Str) : Option Value :=
  (readValue (text.length + 1) text).bind fun (value, rest) => if (skipSpace rest).isEmpty then some value else none

/-! What is written reads as itself. -/

theorem hexValue_digitChar : ∀ d, d < 16 → hexValue d.digitChar = some d := by decide

theorem readUnicode_control {c : Char} (h : c.toNat < 0x20) (rest : Str) :
    readUnicode ('0' :: '0' :: (c.toNat / 16).digitChar :: (c.toNat % 16).digitChar :: rest) = some (c, rest) := by
  have hzero : hexValue '0' = some 0 := by decide
  have hunit : readUnit ('0' :: '0' :: (c.toNat / 16).digitChar :: (c.toNat % 16).digitChar :: rest) = some (c.toNat, rest) := by
    simp only [readUnit, hzero, hexValue_digitChar _ (show c.toNat / 16 < 16 by omega),
      hexValue_digitChar _ (show c.toNat % 16 < 16 by omega), Option.bind_eq_bind, Option.bind_some, Option.pure_def]
    rw [show ((0 * 16 + 0) * 16 + c.toNat / 16) * 16 + c.toNat % 16 = c.toNat by omega]
  rw [readUnicode, hunit, Option.bind_some]
  show (match Utf16.decodeOne c.toNat with | some c => some (c, rest) | none => _) = _
  rw [Utf16.decodeOne_char (by omega)]

/-- One more character of a string. -/
theorem readString_escapeChar (n : Nat) (c : Char) (rest : Str) :
    readString (n + 1) (escapeChar c ++ rest) = (readString n rest).map fun r => (c :: r.1, r.2) := by
  unfold escapeChar
  split_ifs with hq hb hn hr ht hbs hff hctl
  · subst hq; rfl
  · subst hb; rfl
  · subst hn; rfl
  · subst hr; rfl
  · subst ht; rfl
  · subst hbs; rfl
  · subst hff; rfl
  · have hesc : readEscape ('u' :: '0' :: '0' :: (c.toNat / 16).digitChar :: (c.toNat % 16).digitChar :: rest) =
        some (c, rest) := readUnicode_control hctl rest
    show (if ('\\' : Char) = '"' then _ else if ('\\' : Char) = '\\' then (readEscape _).bind _ else _) = _
    rw [if_neg (by decide), if_pos rfl]
    show (readEscape ('u' :: '0' :: '0' :: (c.toNat / 16).digitChar :: (c.toNat % 16).digitChar :: rest)).bind _ = _
    rw [hesc, Option.bind_some]
  · rw [List.singleton_append, readString, if_neg hq, if_neg hb, if_neg hctl]

theorem readString_quoted (s rest : Str) : ∀ {n : Nat}, s.length < n →
    readString n (s.flatMap escapeChar ++ '"' :: rest) = some (s, rest) := by
  induction s with
  | nil =>
    intro n h
    obtain ⟨n, rfl⟩ := Nat.exists_eq_succ_of_ne_zero (show n ≠ 0 by simp at h; omega)
    rfl
  | cons c s ih =>
    intro n h
    obtain ⟨n, rfl⟩ := Nat.exists_eq_succ_of_ne_zero (show n ≠ 0 by omega)
    rw [List.flatMap_cons, List.append_assoc, readString_escapeChar, ih (by simp at h; omega), Option.map_some]

theorem escapeChar_ne_nil (c : Char) : escapeChar c ≠ [] := by
  unfold escapeChar
  split_ifs <;> simp

theorem length_le_escaped (s : Str) : s.length ≤ (s.flatMap escapeChar).length := by
  induction s with
  | nil => exact Nat.le_refl _
  | cons c s ih =>
    have := List.length_pos_iff.2 (escapeChar_ne_nil c)
    rw [List.flatMap_cons, List.length_append, List.length_cons]
    omega

theorem readQuoted_escaped (s : String) (rest : Str) :
    readQuoted (s.toList.flatMap escapeChar ++ '"' :: rest) = some (s, rest) := by
  have hlen := length_le_escaped s.toList
  rw [readQuoted, readString_quoted _ _ (by simp only [List.length_append, List.length_cons]; omega), Option.map_some,
    String.ofList_toList]

/-- What follows a value on the same level. -/
def Ends (rest : Str) : Prop := ∀ c ∈ rest.head?, isNumberChar c = false

theorem readNumber_write (n : Number) {rest : Str} (h : Ends rest) :
    readNumber (n.write ++ rest) = some (.number n, rest) := by
  have hall := List.all_eq_true.1 n.all_write
  have htake : (n.write ++ rest).takeWhile isNumberChar = n.write := by
    rw [List.takeWhile_append_of_pos hall]
    cases rest with
    | nil => simp
    | cons c rest => rw [List.takeWhile_cons, if_neg (by simp [h c rfl]), List.append_nil]
  have hdrop : (n.write ++ rest).dropWhile isNumberChar = rest := by
    rw [List.dropWhile_append_of_pos hall]
    cases rest with
    | nil => rfl
    | cons c rest => rw [List.dropWhile_cons, if_neg (by simp [h c rfl])]
  rw [readNumber, htake, hdrop, n.ofToken_write, Option.map_some]

/-- The first character of a value is no space and closes nothing. -/
theorem write_head (v : Value) : ∃ c text, v.write = c :: text ∧ isSpace c = false ∧ c ≠ ']' := by
  cases v with
  | null => exact ⟨_, _, rfl, rfl, by decide⟩
  | bool b => cases b <;> exact ⟨_, _, rfl, rfl, by decide⟩
  | string s => exact ⟨_, _, rfl, rfl, by decide⟩
  | array items => exact ⟨_, _, rfl, rfl, by decide⟩
  | object members => exact ⟨_, _, rfl, rfl, by decide⟩
  | number n =>
    have hall := n.all_write
    cases hn : n.write with
    | nil => exact absurd hn n.write_ne_nil
    | cons c text =>
      rw [hn, List.all_cons, Bool.and_eq_true] at hall
      refine ⟨c, text, by rw [write, hn], ?_, fun hc => ?_⟩
      · by_contra hs
        have hspace : c = ' ' ∨ c = '\n' ∨ c = '\t' ∨ c = '\r' := by
          simpa [isSpace, or_iff_not_imp_left] using hs
        rcases hspace with rfl | rfl | rfl | rfl <;> exact absurd hall.1 (by decide)
      · rw [hc] at hall
        exact absurd hall.1 (by decide)

theorem skipSpace_write (v : Value) (rest : Str) : skipSpace (v.write ++ rest) = v.write ++ rest := by
  obtain ⟨c, text, hw, hs, -⟩ := v.write_head
  rw [hw, List.cons_append, skipSpace, List.dropWhile_cons, hs]
  rfl

theorem length_write_pos (v : Value) : 0 < v.write.length := by
  obtain ⟨c, text, hw, -⟩ := v.write_head
  rw [hw]
  exact Nat.succ_pos _

theorem ends_comma (rest : Str) : Ends (',' :: rest) := fun c hc => by
  obtain rfl := Option.some.inj hc
  decide

theorem ends_bracket (rest : Str) : Ends (']' :: rest) := fun c hc => by
  obtain rfl := Option.some.inj hc
  decide

theorem ends_brace (rest : Str) : Ends ('}' :: rest) := fun c hc => by
  obtain rfl := Option.some.inj hc
  decide

theorem joined_cons (text next : Str) (texts : List Str) :
    joined (text :: next :: texts) = text ++ ',' :: joined (next :: texts) := rfl

mutual

theorem readValue_write : ∀ (v : Value) {n : Nat} {rest : Str}, v.write.length < n → Ends rest →
    readValue n (v.write ++ rest) = some (v.normal, rest)
  | v, 0, rest, h, _ => absurd h (Nat.not_lt_zero _)
  | .null, _ + 1, rest, _, _ => rfl
  | .bool true, _ + 1, rest, _, _ => rfl
  | .bool false, _ + 1, rest, _, _ => rfl
  | .string s, n + 1, rest, _, _ => by
    have htext : (string s).write ++ rest = '"' :: (s.toList.flatMap escapeChar ++ '"' :: rest) := by
      simp [write, quote]
    rw [htext]
    show (readQuoted (s.toList.flatMap escapeChar ++ '"' :: rest)).map _ = _
    rw [readQuoted_escaped]
    rfl
  | .number m, n + 1, rest, _, hrest => by
    have hskip := skipSpace_write (.number m) rest
    obtain ⟨c, text, hw, -⟩ := (number m).write_head
    have hread := readNumber_write m hrest
    have hc : isNumberChar c = true := by
      have hall := m.all_write
      rw [show m.write = c :: text from hw] at hall
      exact (Bool.and_eq_true _ _ ▸ hall).1
    have hother (d : Char) (hd : isNumberChar d = false) : ¬ c = d := fun he => by
      rw [he, hd] at hc
      cases hc
    rw [readValue, hskip, hw, List.cons_append]
    simp only
    rw [if_neg (hother _ (by decide)), if_neg (hother _ (by decide)), if_neg (hother _ (by decide)),
      if_neg (hother _ (by decide)), if_neg (hother _ (by decide)), if_neg (hother _ (by decide))]
    rw [show m.write = c :: text from hw] at hread
    exact hread
  | .array [], n + 1, rest, _, _ => rfl
  | .array (item :: items), n + 1, rest, h, _ => by
    obtain ⟨c, text, hw, hs, hc⟩ := item.write_head
    have hitems : readItems n (joined (writeItems (item :: items)) ++ ']' :: rest) =
        some (normalItems (item :: items), rest) := readItems_write item items (by
      simp only [write, List.length_cons, List.length_append, List.length_nil] at h
      omega)
    have htext : (array (item :: items)).write ++ rest = '[' :: (joined (writeItems (item :: items)) ++ ']' :: rest) := by
      simp [write]
    have hhead : ∃ tail, joined (writeItems (item :: items)) ++ ']' :: rest = c :: tail := by
      cases items with
      | nil => exact ⟨_, by rw [writeItems, writeItems, joined, hw]; rfl⟩
      | cons next items => exact ⟨_, by rw [writeItems, writeItems, joined_cons, hw]; rfl⟩
    obtain ⟨tail, htail⟩ := hhead
    have hskip : skipSpace (joined (writeItems (item :: items)) ++ ']' :: rest) = c :: tail := by
      rw [htail, skipSpace, List.dropWhile_cons, hs]
      rfl
    rw [htext, readValue]
    show (if (skipSpace (joined (writeItems (item :: items)) ++ ']' :: rest)).head? = some ']' then _ else
      (readItems n (joined (writeItems (item :: items)) ++ ']' :: rest)).map _) = _
    rw [hskip, if_neg (fun h : (c :: tail).head? = some ']' => hc (Option.some.inj h)), hitems]
    rfl
  | .object [], n + 1, rest, _, _ => rfl
  | .object ((key, value) :: members), n + 1, rest, h, _ => by
    have hmembers : readMembers n (joined (writeMembers ((key, value) :: members)) ++ '}' :: rest) =
        some (normalMembers ((key, value) :: members), rest) := readMembers_write key value members (by
      simp only [write, List.length_cons, List.length_append, List.length_nil] at h
      omega)
    have htext : (object ((key, value) :: members)).write ++ rest =
        '{' :: (joined (writeMembers ((key, value) :: members)) ++ '}' :: rest) := by
      simp [write]
    have hhead : ∃ tail, joined (writeMembers ((key, value) :: members)) ++ '}' :: rest = '"' :: tail := by
      cases members with
      | nil => exact ⟨_, rfl⟩
      | cons next members => exact ⟨_, rfl⟩
    obtain ⟨tail, htail⟩ := hhead
    have hskip : skipSpace (joined (writeMembers ((key, value) :: members)) ++ '}' :: rest) = '"' :: tail := by
      rw [htail]
      rfl
    rw [htext, readValue]
    show (if (skipSpace (joined (writeMembers ((key, value) :: members)) ++ '}' :: rest)).head? = some '}' then _ else
      (readMembers n (joined (writeMembers ((key, value) :: members)) ++ '}' :: rest)).map _) = _
    rw [hskip, if_neg (fun h : ('"' :: tail).head? = some '}' => absurd (Option.some.inj h) (by decide)), hmembers]
    rfl

theorem readItems_write : ∀ (item : Value) (items : List Value) {n : Nat} {rest : Str},
    (joined (writeItems (item :: items))).length + 1 < n →
    readItems n (joined (writeItems (item :: items)) ++ ']' :: rest) = some (normalItems (item :: items), rest)
  | item, items, 0, rest, h => absurd h (Nat.not_lt_zero _)
  | item, [], n + 1, rest, h => by
    simp only [writeItems, joined] at h
    have hread : readValue n (item.write ++ ']' :: rest) = some (item.normal, ']' :: rest) :=
      readValue_write item (by omega) (ends_bracket rest)
    rw [readItems]
    show (readValue n (item.write ++ ']' :: rest)).bind _ = _
    rw [hread]
    rfl
  | item, next :: items, n + 1, rest, h => by
    have hpos := item.length_write_pos
    simp only [writeItems, joined_cons, List.length_append, List.length_cons] at h
    have hread : readValue n (item.write ++ ',' :: (joined (writeItems (next :: items)) ++ ']' :: rest)) = _ :=
      readValue_write item (by omega) (ends_comma _)
    have hrest : readItems n (joined (writeItems (next :: items)) ++ ']' :: rest) = _ :=
      readItems_write next items (by simp only [writeItems]; omega)
    have htext : joined (writeItems (item :: next :: items)) ++ ']' :: rest =
        item.write ++ ',' :: (joined (writeItems (next :: items)) ++ ']' :: rest) := by
      simp only [writeItems, joined_cons, List.append_assoc, List.cons_append]
    rw [htext, readItems, hread]
    show (readItems n (joined (writeItems (next :: items)) ++ ']' :: rest)).map _ = _
    rw [hrest]
    rfl

theorem readMembers_write : ∀ (key : String) (value : Value) (members : List (String × Value)) {n : Nat} {rest : Str},
    (joined (writeMembers ((key, value) :: members))).length + 1 < n →
    readMembers n (joined (writeMembers ((key, value) :: members)) ++ '}' :: rest) =
      some (normalMembers ((key, value) :: members), rest)
  | key, value, members, 0, rest, h => absurd h (Nat.not_lt_zero _)
  | key, value, [], n + 1, rest, h => by
    simp only [writeMembers, joined, quote, List.length_append, List.length_cons] at h
    have hread : readValue n (value.write ++ '}' :: rest) = _ := readValue_write value (by omega) (ends_brace rest)
    have htext : joined (writeMembers [(key, value)]) ++ '}' :: rest =
        '"' :: (key.toList.flatMap escapeChar ++ '"' :: ':' :: (value.write ++ '}' :: rest)) := by
      simp [writeMembers, joined, quote]
    rw [htext, readMembers]
    show (readQuoted (key.toList.flatMap escapeChar ++ '"' :: ':' :: (value.write ++ '}' :: rest))).bind _ = _
    rw [readQuoted_escaped]
    show (readValue n (value.write ++ '}' :: rest)).bind _ = _
    rw [hread]
    rfl
  | key, value, (next, nextValue) :: members, n + 1, rest, h => by
    simp only [writeMembers, joined_cons, quote, List.length_append, List.length_cons] at h
    have hread : readValue n (value.write ++ ',' :: (joined (writeMembers ((next, nextValue) :: members)) ++ '}' :: rest)) =
        _ := readValue_write value (by omega) (ends_comma _)
    have hrest : readMembers n (joined (writeMembers ((next, nextValue) :: members)) ++ '}' :: rest) = _ :=
      readMembers_write next nextValue members (by
      simp only [writeMembers, quote]
      omega)
    have htext : joined (writeMembers ((key, value) :: (next, nextValue) :: members)) ++ '}' :: rest =
        '"' :: (key.toList.flatMap escapeChar ++
          '"' :: ':' :: (value.write ++ ',' :: (joined (writeMembers ((next, nextValue) :: members)) ++ '}' :: rest))) := by
      simp [writeMembers, joined_cons, quote]
    rw [htext, readMembers]
    show (readQuoted (key.toList.flatMap escapeChar ++ '"' :: ':' :: (value.write ++ ',' :: _))).bind _ = _
    rw [readQuoted_escaped]
    show (readValue n (value.write ++ ',' :: _)).bind _ = _
    rw [hread]
    show (readMembers n (joined (writeMembers ((next, nextValue) :: members)) ++ '}' :: rest)).map _ = _
    rw [hrest]
    rfl

end

/-- What is written parses as itself, up to members that come twice. -/
theorem parse_write (v : Value) : parse v.write = some v.normal := by
  have hread : readValue (v.write.length + 1) (v.write ++ []) = _ :=
    readValue_write v (Nat.lt_succ_self _) (fun c hc => by cases hc)
  rw [List.append_nil] at hread
  rw [parse, hread]
  rfl

end Value

end Teloxide.Core
