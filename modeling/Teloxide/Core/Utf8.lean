import Mathlib

/-!
# Strings with byte offsets

A string is the list of its characters; an offset into it counts the bytes of its
UTF-8 encoding, so a slice exists only between character boundaries. `Checked` is
for what may panic instead of giving a value.

* `splitAt_eq_some_iff`: an offset is a boundary iff it is the length of a prefix.
* `byte_ascii`: an ASCII byte of the encoding is a character of its own, so both its
  ends are boundaries.
* `find`, `rfind`, `trim`: the searches of a string by a string.
-/
namespace Teloxide.Core.Utf8

abbrev Str := List Char

/-- Why there is no value. -/
inductive Panic where
  /-- an offset is out of bounds or inside of a character -/
  | slice
  /-- a branch that should not be reached -/
  | unreachable
  /-- the fuel of a loop is used up -/
  | diverges
  deriving DecidableEq, Repr

abbrev Checked := Except Panic

def bytes (s : Str) : List UInt8 := s.flatMap String.utf8EncodeChar

/-- The length in bytes. -/
def len (s : Str) : Nat := (s.map Char.utf8Size).sum

/-- The two parts at an offset, if it is a boundary. -/
def splitAt : Str → Nat → Option (Str × Str)
  | s, 0 => some ([], s)
  | [], _ + 1 => none
  | c :: s, i + 1 =>
    if c.utf8Size ≤ i + 1 then (splitAt s (i + 1 - c.utf8Size)).map fun r => (c :: r.1, r.2) else none

def IsBoundary (s : Str) (i : Nat) : Prop := (splitAt s i).isSome = true

instance (s : Str) (i : Nat) : Decidable (IsBoundary s i) := inferInstanceAs (Decidable (_ = true))

/-- The byte at an offset. -/
def byteAt (s : Str) (i : Nat) : Option UInt8 := (bytes s)[i]?

/-- `s[i..]` -/
def sliceFrom (s : Str) (i : Nat) : Checked Str :=
  match splitAt s i with
  | some (_, rest) => .ok rest
  | none => .error .slice

/-- `s[..j]` -/
def sliceTo (s : Str) (j : Nat) : Checked Str :=
  match splitAt s j with
  | some (pre, _) => .ok pre
  | none => .error .slice

/-- `s.get(i..j)` -/
def get? (s : Str) (i j : Nat) : Option Str :=
  if i ≤ j then (splitAt s i).bind fun r => (splitAt r.2 (j - i)).map (·.1) else none

/-- `s[i..j]` -/
def slice (s : Str) (i j : Nat) : Checked Str :=
  match get? s i j with
  | some mid => .ok mid
  | none => .error .slice

@[simp] theorem len_nil : len [] = 0 := rfl

@[simp] theorem len_cons (c : Char) (s : Str) : len (c :: s) = c.utf8Size + len s := by
  simp [len]

@[simp] theorem len_append (s t : Str) : len (s ++ t) = len s + len t := by
  simp [len]

@[simp] theorem bytes_nil : bytes [] = [] := rfl

@[simp] theorem bytes_cons (c : Char) (s : Str) : bytes (c :: s) = String.utf8EncodeChar c ++ bytes s := rfl

@[simp] theorem bytes_append (s t : Str) : bytes (s ++ t) = bytes s ++ bytes t := by
  simp [bytes]

theorem length_bytes (s : Str) : (bytes s).length = len s := by
  induction s with
  | nil => rfl
  | cons c s ih => simp [ih]

theorem len_eq_zero_iff {s : Str} : len s = 0 ↔ s = [] := by
  cases s with
  | nil => simp
  | cons c s =>
    have := c.utf8Size_pos
    simp
    omega

/-! ## Boundaries -/

theorem splitAt_append (pre rest : Str) : splitAt (pre ++ rest) (len pre) = some (pre, rest) := by
  induction pre with
  | nil =>
    simp [splitAt]
  | cons c pre ih =>
    have hpos := c.utf8Size_pos
    obtain ⟨n, hn⟩ : ∃ n, len (c :: pre) = n + 1 := ⟨c.utf8Size + len pre - 1, by simp; omega⟩
    have hsub : n + 1 - c.utf8Size = len pre := by rw [← hn]; simp
    have hle : c.utf8Size ≤ n + 1 := by rw [← hn]; simp
    rw [List.cons_append, hn, splitAt, if_pos hle, hsub, ih]
    rfl

theorem splitAt_eq_some_iff {s pre rest : Str} {i : Nat} :
    splitAt s i = some (pre, rest) ↔ s = pre ++ rest ∧ len pre = i := by
  constructor
  · intro h
    induction s, i using splitAt.induct generalizing pre with
    | case1 s =>
      simp only [splitAt, Option.some.injEq, Prod.mk.injEq] at h
      obtain ⟨rfl, rfl⟩ := h
      exact ⟨rfl, rfl⟩
    | case2 n => simp [splitAt] at h
    | case3 c s i hle ih =>
      rw [splitAt, if_pos hle] at h
      obtain ⟨⟨pre', rest'⟩, hs, he⟩ := Option.map_eq_some_iff.mp h
      cases he
      obtain ⟨rfl, hl⟩ := ih hs
      exact ⟨rfl, by simp [hl]; omega⟩
    | case4 c s i hle => simp [splitAt, hle] at h
  · rintro ⟨rfl, rfl⟩
    exact splitAt_append pre rest

theorem isBoundary_iff {s : Str} {i : Nat} : IsBoundary s i ↔ ∃ pre rest, s = pre ++ rest ∧ len pre = i := by
  unfold IsBoundary
  rw [Option.isSome_iff_exists]
  constructor
  · rintro ⟨⟨pre, rest⟩, h⟩
    exact ⟨pre, rest, splitAt_eq_some_iff.1 h⟩
  · rintro ⟨pre, rest, h⟩
    exact ⟨_, splitAt_eq_some_iff.2 h⟩

theorem isBoundary_append (pre rest : Str) : IsBoundary (pre ++ rest) (len pre) :=
  isBoundary_iff.2 ⟨pre, rest, rfl, rfl⟩

theorem IsBoundary.le {s : Str} {i : Nat} (h : IsBoundary s i) : i ≤ len s := by
  obtain ⟨pre, rest, rfl, rfl⟩ := isBoundary_iff.1 h
  simp

theorem isBoundary_zero (s : Str) : IsBoundary s 0 := isBoundary_append [] s

theorem isBoundary_len (s : Str) : IsBoundary s (len s) := by
  have := isBoundary_append s []
  rwa [List.append_nil] at this

@[simp] theorem sliceFrom_append (pre rest : Str) : sliceFrom (pre ++ rest) (len pre) = .ok rest := by
  simp [sliceFrom, splitAt_append]

@[simp] theorem sliceTo_append (pre rest : Str) : sliceTo (pre ++ rest) (len pre) = .ok pre := by
  simp [sliceTo, splitAt_append]

theorem get?_append (pre mid rest : Str) : get? (pre ++ (mid ++ rest)) (len pre) (len pre + len mid) = some mid := by
  simp [get?, splitAt_append]

theorem slice_append (pre mid rest : Str) : slice (pre ++ (mid ++ rest)) (len pre) (len pre + len mid) = .ok mid := by
  simp [slice, get?_append]

/-! ## Slices -/

/-- Of two ways to split a string, the one with the shorter first part comes first. -/
theorem append_split {pre rest pre' rest' : Str} (h : pre ++ rest = pre' ++ rest') (hl : len pre ≤ len pre') :
    ∃ mid, pre' = pre ++ mid ∧ rest = mid ++ rest' := by
  rcases List.append_eq_append_iff.mp h with ⟨mid, rfl, rfl⟩ | ⟨mid, rfl, rfl⟩
  · exact ⟨mid, rfl, rfl⟩
  · have hmid : mid = [] := len_eq_zero_iff.1 (by rw [len_append] at hl; omega)
    subst hmid
    exact ⟨[], by simp, rfl⟩

theorem sliceFrom_eq_ok_iff {s rest : Str} {i : Nat} :
    sliceFrom s i = .ok rest ↔ ∃ pre, s = pre ++ rest ∧ len pre = i := by
  constructor
  · intro h
    unfold sliceFrom at h
    split at h
    · rename_i pre rest' hs
      cases h
      obtain ⟨hs, hl⟩ := splitAt_eq_some_iff.1 hs
      exact ⟨pre, hs, hl⟩
    · cases h
  · rintro ⟨pre, rfl, rfl⟩
    exact sliceFrom_append pre rest

theorem sliceTo_eq_ok_iff {s pre : Str} {j : Nat} :
    sliceTo s j = .ok pre ↔ ∃ rest, s = pre ++ rest ∧ len pre = j := by
  constructor
  · intro h
    unfold sliceTo at h
    split at h
    · rename_i pre' rest hs
      cases h
      obtain ⟨hs, hl⟩ := splitAt_eq_some_iff.1 hs
      exact ⟨rest, hs, hl⟩
    · cases h
  · rintro ⟨rest, rfl, rfl⟩
    exact sliceTo_append pre rest

theorem slice_eq_ok_iff {s mid : Str} {i j : Nat} :
    slice s i j = .ok mid ↔ ∃ pre post, s = pre ++ (mid ++ post) ∧ len pre = i ∧ i + len mid = j := by
  constructor
  · intro h
    unfold slice get? at h
    split at h
    · rename_i mid' hs
      cases h
      split at hs
      · rename_i hij
        obtain ⟨⟨pre, rest⟩, hsplit, hrest⟩ := Option.bind_eq_some_iff.mp hs
        obtain ⟨⟨mid', post⟩, hsplit', rfl⟩ := Option.map_eq_some_iff.mp hrest
        obtain ⟨rfl, rfl⟩ := splitAt_eq_some_iff.1 hsplit
        obtain ⟨hrest, hl⟩ := splitAt_eq_some_iff.1 hsplit'
        exact ⟨pre, post, congrArg (pre ++ ·) hrest, rfl, by
          have hl : len mid' = j - len pre := hl
          change len pre + len mid' = j
          omega⟩
      · cases hs
    · cases h
  · rintro ⟨pre, post, rfl, rfl, rfl⟩
    exact slice_append pre mid post

theorem sliceFrom_of_boundary {s : Str} {i : Nat} (h : IsBoundary s i) : ∃ rest, sliceFrom s i = .ok rest := by
  obtain ⟨pre, rest, rfl, rfl⟩ := isBoundary_iff.1 h
  exact ⟨rest, sliceFrom_append pre rest⟩

theorem sliceTo_of_boundary {s : Str} {i : Nat} (h : IsBoundary s i) : ∃ pre, sliceTo s i = .ok pre := by
  obtain ⟨pre, rest, rfl, rfl⟩ := isBoundary_iff.1 h
  exact ⟨pre, sliceTo_append pre rest⟩

theorem slice_of_boundary {s : Str} {i j : Nat} (hi : IsBoundary s i) (hj : IsBoundary s j) (hij : i ≤ j) :
    ∃ mid, slice s i j = .ok mid := by
  obtain ⟨pre, rest, rfl, rfl⟩ := isBoundary_iff.1 hi
  obtain ⟨pre', rest', he, rfl⟩ := isBoundary_iff.1 hj
  obtain ⟨mid, rfl, rfl⟩ := append_split he hij
  exact ⟨mid, slice_eq_ok_iff.2 ⟨pre, rest', rfl, rfl, by rw [len_append]⟩⟩

theorem isBoundary_of_slice {s mid : Str} {i j : Nat} (h : slice s i j = .ok mid) :
    IsBoundary s i ∧ IsBoundary s j ∧ i + len mid = j := by
  obtain ⟨pre, post, rfl, rfl, rfl⟩ := slice_eq_ok_iff.1 h
  refine ⟨isBoundary_append _ _, isBoundary_iff.2 ⟨pre ++ mid, post, by simp, by simp⟩, rfl⟩

/-- The boundaries of a part are boundaries of the whole. -/
theorem isBoundary_slice {s mid : Str} {i j k : Nat} (h : slice s i j = .ok mid) (hk : IsBoundary mid k) :
    IsBoundary s (i + k) := by
  obtain ⟨pre, post, rfl, rfl, rfl⟩ := slice_eq_ok_iff.1 h
  obtain ⟨p, q, rfl, rfl⟩ := isBoundary_iff.1 hk
  exact isBoundary_iff.2 ⟨pre ++ p, q ++ post, by simp, by simp⟩

/-- And the other way around. -/
theorem isBoundary_in_slice {s mid : Str} {i j k : Nat} (h : slice s i j = .ok mid) (hk : IsBoundary s (i + k))
    (hle : i + k ≤ j) : IsBoundary mid k := by
  obtain ⟨pre, post, rfl, rfl, rfl⟩ := slice_eq_ok_iff.1 h
  obtain ⟨p, q, he, hl⟩ := isBoundary_iff.1 hk
  obtain ⟨before, rfl, hrest⟩ := append_split he (by omega)
  rw [len_append] at hl
  obtain ⟨after, rfl, -⟩ := append_split hrest.symm (by omega)
  exact isBoundary_iff.2 ⟨before, after, rfl, by omega⟩

theorem slice_error {s : Str} {i j : Nat} (h : ¬ IsBoundary s j) : slice s i j = .error .slice := by
  cases hs : slice s i j with
  | ok mid => exact absurd (isBoundary_of_slice hs).2.1 h
  | error e =>
    unfold slice at hs
    split at hs
    · cases hs
    · cases hs
      rfl

/-- Two parts that meet. -/
theorem slice_join {s a b : Str} {i j k : Nat} (ha : slice s i j = .ok a) (hb : slice s j k = .ok b) :
    slice s i k = .ok (a ++ b) := by
  obtain ⟨pre, post, rfl, rfl, rfl⟩ := slice_eq_ok_iff.1 ha
  obtain ⟨pre', post', he, hl, rfl⟩ := slice_eq_ok_iff.1 hb
  have he' : (pre ++ a) ++ post = pre' ++ (b ++ post') := by rw [List.append_assoc]; exact he
  obtain ⟨mid, hpre, hpost⟩ := append_split he' (by rw [hl, len_append])
  have hmid : mid = [] := len_eq_zero_iff.1 (by rw [hpre] at hl; simp at hl; omega)
  subst hmid
  rw [List.nil_append] at hpost
  exact slice_eq_ok_iff.2 ⟨pre, post', by rw [hpost]; simp, rfl, by simp; omega⟩

theorem slice_sliceFrom {s rest : Str} {i : Nat} (h : sliceFrom s i = .ok rest) : slice s i (len s) = .ok rest := by
  obtain ⟨pre, rfl, rfl⟩ := sliceFrom_eq_ok_iff.1 h
  exact slice_eq_ok_iff.2 ⟨pre, [], by simp, rfl, by simp⟩

theorem get?_of_slice {s mid : Str} {i j : Nat} (h : slice s i j = .ok mid) : get? s i j = some mid := by
  unfold slice at h
  split at h
  · rename_i hg
    cases h
    exact hg
  · cases h

/-! ## ASCII -/

def isAscii (c : Char) : Bool := c.toNat < 128

theorem encode_ascii {c : Char} (h : isAscii c = true) : String.utf8EncodeChar c = [UInt8.ofNat c.toNat] := by
  have h : c.val.toNat ≤ 127 := Nat.le_of_lt_succ (of_decide_eq_true h)
  unfold String.utf8EncodeChar
  rw [if_pos h]
  rfl

theorem size_ascii {c : Char} (h : isAscii c = true) : c.utf8Size = 1 := by
  rw [← String.length_utf8EncodeChar, encode_ascii h]
  rfl

/-- The bytes of other characters are not ASCII. -/
theorem encode_not_ascii {c : Char} (h : isAscii c = false) {b : UInt8} (hb : b ∈ String.utf8EncodeChar c) :
    128 ≤ b.toNat := by
  have h : ¬ c.val.toNat ≤ 127 := by
    have := of_decide_eq_false h
    simp only [Char.toNat] at this
    omega
  simp only [String.utf8EncodeChar, h, if_false] at hb
  split at hb
  · simp only [List.mem_cons, List.not_mem_nil, or_false] at hb
    rcases hb with rfl | rfl <;> simp only [UInt8.toNat_ofNat'] <;> omega
  split at hb
  · simp only [List.mem_cons, List.not_mem_nil, or_false] at hb
    rcases hb with rfl | rfl | rfl <;> simp only [UInt8.toNat_ofNat'] <;> omega
  · simp only [List.mem_cons, List.not_mem_nil, or_false] at hb
    rcases hb with rfl | rfl | rfl | rfl <;> simp only [UInt8.toNat_ofNat'] <;> omega

/-- The byte of an ASCII character. -/
def byteOf (c : Char) : UInt8 := UInt8.ofNat c.toNat

theorem byteOf_toNat {c : Char} (h : isAscii c = true) : (byteOf c).toNat = c.toNat := by
  have h : c.toNat < 128 := of_decide_eq_true h
  simp only [byteOf, UInt8.toNat_ofNat']
  omega

theorem byteOf_inj {c d : Char} (hc : isAscii c = true) (hd : isAscii d = true) : byteOf c = byteOf d ↔ c = d := by
  constructor
  · intro h
    have h := congrArg UInt8.toNat h
    rw [byteOf_toNat hc, byteOf_toNat hd] at h
    exact Char.toNat_inj.mp h
  · rintro rfl
    rfl

theorem bytes_cons_ascii {c : Char} (h : isAscii c = true) (s : Str) : bytes (c :: s) = byteOf c :: bytes s := by
  rw [bytes_cons, encode_ascii h]
  rfl

theorem byteAt_append (pre rest : Str) (k : Nat) : byteAt (pre ++ rest) (len pre + k) = (bytes rest)[k]? := by
  rw [byteAt, bytes_append, List.getElem?_append_right (by rw [length_bytes]; omega), length_bytes,
    Nat.add_sub_cancel_left]

theorem byteAt_head (pre rest : Str) : byteAt (pre ++ rest) (len pre) = (bytes rest).head? := by
  have := byteAt_append pre rest 0
  rwa [Nat.add_zero, ← List.head?_eq_getElem?] at this

/-- The first byte tells an ASCII character. -/
theorem head?_bytes_eq_iff {d : Char} (hd : isAscii d = true) (s : Str) :
    (bytes s).head? = some (byteOf d) ↔ ∃ rest, s = d :: rest := by
  cases s with
  | nil => simp
  | cons c s =>
    by_cases hc : isAscii c = true
    · rw [bytes_cons_ascii hc, List.head?_cons, Option.some.injEq, byteOf_inj hc hd]
      simp
    · have hc : isAscii c = false := by simpa using hc
      constructor
      · intro h
        have hmem : byteOf d ∈ String.utf8EncodeChar c := by
          rw [bytes_cons, List.head?_append_of_ne_nil] at h
          · exact List.mem_of_mem_head? h
          · intro hnil
            have := c.utf8Size_pos
            rw [← String.length_utf8EncodeChar, hnil] at this
            exact Nat.lt_irrefl _ this
        have hge := encode_not_ascii hc hmem
        rw [byteOf_toNat hd] at hge
        exact absurd (of_decide_eq_true hd) (Nat.not_lt.mpr hge)
      · rintro ⟨rest, he⟩
        cases he
        rw [hd] at hc
        cases hc

/-- An ASCII byte is a character. -/
theorem byte_ascii {d : Char} (hd : isAscii d = true) {s : Str} {i : Nat} (h : byteAt s i = some (byteOf d)) :
    ∃ pre rest, s = pre ++ d :: rest ∧ len pre = i := by
  induction s generalizing i with
  | nil => simp [byteAt] at h
  | cons c s ih =>
    by_cases hi : i < c.utf8Size
    · rw [byteAt, bytes_cons, List.getElem?_append_left (by rw [String.length_utf8EncodeChar]; exact hi)] at h
      by_cases hc : isAscii c = true
      · have hi0 : i = 0 := by
          rw [size_ascii hc] at hi
          omega
        subst hi0
        rw [encode_ascii hc] at h
        have hcd : byteOf c = byteOf d := by simpa [byteOf] using h
        rw [byteOf_inj hc hd] at hcd
        exact ⟨[], s, by rw [hcd]; rfl, rfl⟩
      · have hge := encode_not_ascii (by simpa using hc) (List.mem_of_getElem? h)
        rw [byteOf_toNat hd] at hge
        exact absurd (of_decide_eq_true hd) (Nat.not_lt.mpr hge)
    · have h : byteAt s (i - c.utf8Size) = some (byteOf d) := by
        rwa [byteAt, bytes_cons, List.getElem?_append_right (by rw [String.length_utf8EncodeChar]; omega),
          String.length_utf8EncodeChar] at h
      obtain ⟨pre, rest, rfl, hl⟩ := ih h
      exact ⟨c :: pre, rest, rfl, by rw [len_cons, hl]; omega⟩

theorem isBoundary_of_byte {d : Char} (hd : isAscii d = true) {s : Str} {i : Nat} (h : byteAt s i = some (byteOf d)) :
    IsBoundary s i ∧ IsBoundary s (i + 1) := by
  obtain ⟨pre, rest, rfl, rfl⟩ := byte_ascii hd h
  refine ⟨isBoundary_append _ _, isBoundary_iff.2 ⟨pre ++ [d], rest, by simp, by simp [size_ascii hd]⟩⟩

/-! ## Runs -/

/-- The end of the run of bytes that begins at `i`:
`while bytes.get(i).is_some_and(p) { i += 1 }` -/
def runEnd (p : UInt8 → Bool) (s : Str) (i : Nat) : Nat := i + (((bytes s).drop i).takeWhile p).length

theorem byteAt_lt {s : Str} {i : Nat} {b : UInt8} (h : byteAt s i = some b) : i < len s := by
  rw [← length_bytes]
  exact (List.getElem?_eq_some_iff.mp h).1

theorem isAscii_ofNat {n : Nat} (h : n < 128) : isAscii (Char.ofNat n) = true ∧ (Char.ofNat n).toNat = n := by
  have hn : (Char.ofNat n).toNat = n := by
    have hv : n.isValidChar := Or.inl (by omega)
    rw [Char.ofNat, dif_pos hv]
    rfl
  exact ⟨by rw [isAscii, hn]; simpa using h, hn⟩

/-- Both ends of an ASCII byte are boundaries. -/
theorem isBoundary_of_ascii {s : Str} {i : Nat} {b : UInt8} (hb : b.toNat < 128) (h : byteAt s i = some b) :
    IsBoundary s i ∧ IsBoundary s (i + 1) := by
  obtain ⟨ha, hn⟩ := isAscii_ofNat hb
  refine isBoundary_of_byte ha ?_
  rw [h, byteOf, hn]
  simp

theorem runEnd_ge (p : UInt8 → Bool) (s : Str) (i : Nat) : i ≤ runEnd p s i := Nat.le_add_right _ _

theorem runEnd_le {p : UInt8 → Bool} {s : Str} {i : Nat} (h : i ≤ len s) : runEnd p s i ≤ len s := by
  have := (List.takeWhile_sublist p (l := (bytes s).drop i)).length_le
  rw [List.length_drop, length_bytes] at this
  unfold runEnd
  omega

theorem byteAt_run {p : UInt8 → Bool} {s : Str} {i k : Nat} (hi : i ≤ k) (hk : k < runEnd p s i) :
    ∃ b, byteAt s k = some b ∧ p b = true := by
  have hlt : k - i < (((bytes s).drop i).takeWhile p).length := by unfold runEnd at hk; omega
  refine ⟨(((bytes s).drop i).takeWhile p)[k - i], ?_, ?_⟩
  · have hpre := List.takeWhile_prefix p (l := (bytes s).drop i)
    have := hpre.getElem hlt
    rw [byteAt, this, List.getElem_drop]
    rw [List.getElem?_eq_some_iff]
    have h2 := List.length_drop (l := bytes s) (i := i)
    have h3 := hpre.length_le
    exact ⟨by omega, by congr 1; omega⟩
  · exact List.all_eq_true.mp (List.all_takeWhile (p := p) (l := (bytes s).drop i)) _ (List.getElem_mem hlt)

theorem byteAt_runEnd (p : UInt8 → Bool) (s : Str) (i : Nat) {b : UInt8} (h : byteAt s (runEnd p s i) = some b) :
    p b = false := by
  have hd : (((bytes s).drop i).dropWhile p).head? = some b := by
    rw [byteAt, runEnd, ← List.getElem?_drop, ← List.takeWhile_append_dropWhile (p := p) (l := (bytes s).drop i),
      List.getElem?_append_right (by simp)] at h
    simpa [List.head?_eq_getElem?] using h
  have := List.head?_dropWhile_not p ((bytes s).drop i)
  rw [hd] at this
  simpa using this


/-- A run of ASCII bytes ends at a boundary. -/
theorem isBoundary_run {p : UInt8 → Bool} (hp : ∀ b, p b = true → b.toNat < 128) {s : Str} {i : Nat}
    (hi : IsBoundary s i) : IsBoundary s (runEnd p s i) := by
  by_cases h : runEnd p s i = i
  · rw [h]
    exact hi
  · have hge := runEnd_ge p s i
    obtain ⟨b, hb, hpb⟩ := byteAt_run (p := p) (s := s) (i := i) (k := runEnd p s i - 1) (by omega) (by omega)
    have := (isBoundary_of_ascii (hp b hpb) hb).2
    rwa [Nat.sub_add_cancel (by omega)] at this

/-- So does a run that only an ASCII byte stops. -/
theorem isBoundary_runStop {p : UInt8 → Bool} (hp : ∀ b, p b = false → b.toNat < 128) {s : Str} {i : Nat}
    (hi : i ≤ len s) : IsBoundary s (runEnd p s i) := by
  cases hb : byteAt s (runEnd p s i) with
  | some b => exact (isBoundary_of_ascii (hp b (byteAt_runEnd p s i hb)) hb).1
  | none =>
    have hge : len s ≤ runEnd p s i := by
      rw [← length_bytes]
      exact List.getElem?_eq_none_iff.mp hb
    rw [Nat.le_antisymm (runEnd_le hi) hge]
    exact isBoundary_len s

/-! ## Computations that give a value -/

/-- There is a value, and it has the property. -/
def Returns {α : Type} (m : Checked α) (P : α → Prop) : Prop := ∃ a, m = .ok a ∧ P a

section

variable {α β : Type} {P : α → Prop} {Q : β → Prop} {m : Checked α}

theorem Returns.ok {a : α} (h : P a) : Returns (.ok a) P := ⟨a, rfl, h⟩

theorem Returns.mono {P' : α → Prop} (h : Returns m P) (hp : ∀ a, P a → P' a) : Returns m P' := by
  obtain ⟨a, rfl, ha⟩ := h
  exact ⟨a, rfl, hp a ha⟩

theorem Returns.bind {f : α → Checked β} (h : Returns m P) (hf : ∀ a, P a → Returns (f a) Q) : Returns (m >>= f) Q := by
  obtain ⟨a, rfl, ha⟩ := h
  exact hf a ha

theorem Returns.map {f : α → β} (h : Returns m fun a => Q (f a)) : Returns (f <$> m) Q := by
  obtain ⟨a, rfl, ha⟩ := h
  exact ⟨f a, rfl, ha⟩

/-- What is done first gave a value. -/
theorem bind_eq_ok {f : α → Checked β} {b : β} (h : (m >>= f) = .ok b) : ∃ a, m = .ok a ∧ f a = .ok b := by
  cases m with
  | error e => cases h
  | ok a => exact ⟨a, rfl, h⟩

theorem map_eq_ok {f : α → β} {b : β} (h : (f <$> m) = .ok b) : ∃ a, m = .ok a ∧ f a = b := by
  cases m with
  | error e => cases h
  | ok a =>
    cases h
    exact ⟨a, rfl, rfl⟩

end

/-! ## Searching -/

/-- `s.find(needle)` -/
def find (needle : Str) : Str → Option Nat
  | [] => if needle.isPrefixOf [] then some 0 else none
  | c :: s => if needle.isPrefixOf (c :: s) then some 0 else (find needle s).map (c.utf8Size + ·)

/-- `s.rfind(needle)` -/
def rfind (needle : Str) : Str → Option Nat
  | [] => if needle.isPrefixOf [] then some 0 else none
  | c :: s =>
    match rfind needle s with
    | some i => some (c.utf8Size + i)
    | none => if needle.isPrefixOf (c :: s) then some 0 else none

/-- The offsets of a character. -/
def matchIndices (d : Char) : Str → List Nat
  | [] => []
  | c :: s => (if c = d then [0] else []) ++ (matchIndices d s).map (c.utf8Size + ·)

theorem isPrefixOf_iff {needle s : Str} : needle.isPrefixOf s = true ↔ ∃ post, s = needle ++ post := by
  rw [List.isPrefixOf_iff_prefix]
  constructor
  · rintro ⟨post, h⟩
    exact ⟨post, h.symm⟩
  · rintro ⟨post, rfl⟩
    exact ⟨post, rfl⟩

theorem find_eq_some {needle s : Str} {i : Nat} (h : find needle s = some i) :
    ∃ pre post, s = pre ++ (needle ++ post) ∧ len pre = i := by
  induction s generalizing i with
  | nil =>
    simp only [find] at h
    split at h
    · rename_i hp
      cases h
      obtain ⟨post, hpost⟩ := isPrefixOf_iff.1 hp
      exact ⟨[], post, by simpa using hpost, rfl⟩
    · cases h
  | cons c s ih =>
    simp only [find] at h
    split at h
    · rename_i hp
      cases h
      obtain ⟨post, hpost⟩ := isPrefixOf_iff.1 hp
      exact ⟨[], post, by simpa using hpost, rfl⟩
    · obtain ⟨j, hj, rfl⟩ := Option.map_eq_some_iff.mp h
      obtain ⟨pre, post, rfl, rfl⟩ := ih hj
      exact ⟨c :: pre, post, rfl, by simp⟩

theorem rfind_eq_some {needle s : Str} {i : Nat} (h : rfind needle s = some i) :
    ∃ pre post, s = pre ++ (needle ++ post) ∧ len pre = i := by
  induction s generalizing i with
  | nil =>
    simp only [rfind] at h
    split at h
    · rename_i hp
      cases h
      obtain ⟨post, hpost⟩ := isPrefixOf_iff.1 hp
      exact ⟨[], post, by simpa using hpost, rfl⟩
    · cases h
  | cons c s ih =>
    simp only [rfind] at h
    split at h
    · rename_i j hj
      cases h
      obtain ⟨pre, post, rfl, rfl⟩ := ih hj
      exact ⟨c :: pre, post, rfl, by simp⟩
    · split at h
      · rename_i hp
        cases h
        obtain ⟨post, hpost⟩ := isPrefixOf_iff.1 hp
        exact ⟨[], post, by simpa using hpost, rfl⟩
      · cases h

theorem mem_matchIndices {d : Char} {s : Str} {i : Nat} (h : i ∈ matchIndices d s) :
    ∃ pre post, s = pre ++ d :: post ∧ len pre = i := by
  induction s generalizing i with
  | nil => cases h
  | cons c s ih =>
    rw [matchIndices, List.mem_append] at h
    rcases h with h | h
    · split at h
      · rename_i hc
        cases List.mem_singleton.mp h
        exact ⟨[], s, by rw [hc]; rfl, rfl⟩
      · cases h
    · obtain ⟨j, hj, rfl⟩ := List.mem_map.mp h
      obtain ⟨pre, post, rfl, rfl⟩ := ih hj
      exact ⟨c :: pre, post, rfl, by simp⟩

theorem isPrefixOf_singleton (d c : Char) (s : Str) : [d].isPrefixOf (c :: s) = (d == c) := by
  simp [List.isPrefixOf]

theorem find_char {d : Char} {pre : Str} (h : d ∉ pre) (post : Str) : find [d] (pre ++ d :: post) = some (len pre) := by
  induction pre with
  | nil => simp [find, List.isPrefixOf]
  | cons c pre ih =>
    have hc : (d == c) = false := beq_false_of_ne fun he => h (he ▸ List.mem_cons_self)
    rw [List.cons_append, find, isPrefixOf_singleton, hc, ih fun hm => h (List.mem_cons_of_mem _ hm)]
    simp

theorem find_char_none {d : Char} {s : Str} (h : d ∉ s) : find [d] s = none := by
  induction s with
  | nil => rfl
  | cons c s ih =>
    have hc : (d == c) = false := beq_false_of_ne fun he => h (he ▸ List.mem_cons_self)
    rw [find, isPrefixOf_singleton, hc, ih fun hm => h (List.mem_cons_of_mem _ hm)]
    rfl

/-! ## The characters of the standard library's predicates -/

/-- `char::is_ascii_whitespace` -/
def isAsciiWhitespace (c : Char) : Bool := c = ' ' || c = '\t' || c = '\n' || c = '\x0c' || c = '\r'

/-- `char::is_whitespace`: the characters with the property `White_Space`. -/
def isWhitespace (c : Char) : Bool :=
  let n := c.toNat
  (0x9 ≤ n && n ≤ 0xd) || n = 0x20 || n = 0x85 || n = 0xa0 || n = 0x1680 || (0x2000 ≤ n && n ≤ 0x200a) || n = 0x2028
    || n = 0x2029 || n = 0x202f || n = 0x205f || n = 0x3000

/-- `char::is_control`: the category `Cc`. -/
def isControl (c : Char) : Bool := c.toNat < 0x20 || (0x7f ≤ c.toNat && c.toNat < 0xa0)

/-- `char::is_alphanumeric` asks the tables of Unicode; they agree with ASCII there. -/
structure Alphanumeric where
  test : Char → Bool
  ascii : ∀ c, isAscii c = true → test c = c.isAlphanum

def isDigitByte (b : UInt8) : Bool := byteOf '0' ≤ b && b ≤ byteOf '9'

def trimStart (s : Str) : Str := s.dropWhile isWhitespace

def trimEnd (s : Str) : Str := (s.reverse.dropWhile isWhitespace).reverse

/-- `str::trim` -/
def trim (s : Str) : Str := trimEnd (trimStart s)

/-- `str::strip_prefix` -/
def stripPrefix (needle s : Str) : Option Str := if needle.isPrefixOf s then some (s.drop needle.length) else none

/-- `str::to_ascii_lowercase` -/
def toAsciiLowercase (s : Str) : Str := s.map Char.toLower

/-- `u32::from_str_radix`: an optional sign, then digits, below `2 ^ 32`. -/
def parseU32 (radix : Nat) (s : Str) : Option Nat :=
  let digits := match s with
    | '+' :: rest => rest
    | _ => s
  let value (c : Char) : Option Nat :=
    let v := if c.isDigit then some (c.toNat - '0'.toNat)
      else if c.isAlpha then some (c.toLower.toNat - 'a'.toNat + 10)
      else none
    v.filter (· < radix)
  if digits = [] then none
  else (digits.mapM value).bind fun vs =>
    let n := vs.foldl (fun n v => n * radix + v) 0
    if n < 2 ^ 32 then some n else none

/-- `char::from_u32` -/
def charFromU32 (n : Nat) : Option Char := if n.isValidChar then some (Char.ofNat n) else none

end Teloxide.Core.Utf8
