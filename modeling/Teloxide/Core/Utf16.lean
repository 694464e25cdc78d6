import Teloxide.Core.Utf8

/-!
# UTF-16

The code units of a string, and how they are taken back one or two at a time. An offset in
code units is a boundary iff it is the length of a prefix.
-/
namespace Teloxide.Core.Utf16

open Utf8

/-- `char::encode_utf16` -/
def encodeChar (c : Char) : List Nat :=
  if c.toNat < 0x10000 then [c.toNat]
  else [0xd800 + (c.toNat - 0x10000) / 0x400, 0xdc00 + (c.toNat - 0x10000) % 0x400]

/-- `str::encode_utf16` -/
def encode (s : Str) : List Nat := s.flatMap encodeChar

/-- `char::len_utf16` -/
def size (c : Char) : Nat := if c.toNat < 0x10000 then 1 else 2

/-- The length in code units. -/
def len (s : Str) : Nat := (s.map size).sum

/-- `char::decode_utf16([point])` -/
def decodeOne (point : Nat) : Option Char :=
  if 0xd800 ≤ point ∧ point < 0xe000 then none else some (Char.ofNat point)

/-- `char::decode_utf16([previous, point])` -/
def decodePair (previous point : Nat) : Option Char :=
  if 0xd800 ≤ previous ∧ previous < 0xdc00 then
    if 0xdc00 ≤ point ∧ point < 0xe000 then
      some (Char.ofNat (0x10000 + (previous - 0xd800) * 0x400 + (point - 0xdc00)))
    else none
  else decodeOne previous

@[simp] theorem len_nil : len [] = 0 := rfl

@[simp] theorem len_cons (c : Char) (s : Str) : len (c :: s) = size c + len s := by
  simp [len]

@[simp] theorem len_append (s t : Str) : len (s ++ t) = len s + len t := by
  simp [len]

theorem size_pos (c : Char) : 0 < size c := by
  unfold size
  split <;> decide

theorem length_encode (s : Str) : (encode s).length = len s := by
  induction s with
  | nil => rfl
  | cons c s ih =>
    have hc : (encodeChar c).length = size c := by
      unfold encodeChar size
      split <;> rfl
    unfold encode at ih ⊢
    rw [List.flatMap_cons, List.length_append, ih, len_cons, hc]

theorem decodeOne_char {c : Char} (h : c.toNat < 0x10000) : decodeOne c.toNat = some c := by
  have hvalid : c.toNat < 0xd800 ∨ 0xdfff < c.toNat ∧ c.toNat < 0x110000 := c.valid
  unfold decodeOne
  rw [if_neg (by omega), Char.ofNat_toNat]

/-- A character beyond the first plane is held for one unit and comes with the second. -/
theorem decodePair_char {c : Char} (h : ¬ c.toNat < 0x10000) :
    decodeOne (0xd800 + (c.toNat - 0x10000) / 0x400) = none ∧
      decodePair (0xd800 + (c.toNat - 0x10000) / 0x400) (0xdc00 + (c.toNat - 0x10000) % 0x400) = some c := by
  have hvalid : c.toNat < 0xd800 ∨ 0xdfff < c.toNat ∧ c.toNat < 0x110000 := c.valid
  have hmod := Nat.mod_lt (c.toNat - 0x10000) (show 0 < 0x400 by decide)
  have hdiv := Nat.div_add_mod (c.toNat - 0x10000) 0x400
  refine ⟨if_pos (by omega), ?_⟩
  unfold decodePair
  rw [if_pos (by omega), if_pos (by omega)]
  have hsum : 0x10000 + (0xd800 + (c.toNat - 0x10000) / 0x400 - 0xd800) * 0x400 +
      (0xdc00 + (c.toNat - 0x10000) % 0x400 - 0xdc00) = c.toNat := by omega
  rw [hsum, Char.ofNat_toNat]

/-- A character is one unit that decodes, or two that decode together. -/
theorem encodeChar_cases (c : Char) : (∃ point, encodeChar c = [point] ∧ decodeOne point = some c) ∨
    ∃ previous point, encodeChar c = [previous, point] ∧ decodeOne previous = none ∧
      decodePair previous point = some c := by
  by_cases h : c.toNat < 0x10000
  · exact .inl ⟨_, if_pos h, decodeOne_char h⟩
  · exact .inr ⟨_, _, if_neg h, decodePair_char h⟩

/-- An offset that does not split a character. -/
def IsBoundary (s : Str) (i : Nat) : Prop := ∃ pre rest, s = pre ++ rest ∧ len pre = i

/-- No boundary lies inside of a character. -/
theorem IsBoundary.skip {pre rest : Str} {c : Char} {i : Nat} (h : IsBoundary (pre ++ c :: rest) i)
    (hi : len pre < i) : len pre + size c ≤ i := by
  obtain ⟨pre', rest', hs, rfl⟩ := h
  rcases List.append_eq_append_iff.1 hs with ⟨mid, rfl, hmid⟩ | ⟨mid, rfl, -⟩
  · rw [len_append] at hi ⊢
    cases mid with
    | nil => exact absurd hi (by simp)
    | cons c' mid =>
      rw [List.cons_append] at hmid
      obtain ⟨rfl, -⟩ := List.cons.inj hmid
      rw [len_cons]
      omega
  · rw [len_append] at hi
    omega

theorem IsBoundary.le {s : Str} {i : Nat} (h : IsBoundary s i) : i ≤ len s := by
  obtain ⟨pre, rest, rfl, rfl⟩ := h
  rw [len_append]
  exact Nat.le_add_right _ _

end Teloxide.Core.Utf16
