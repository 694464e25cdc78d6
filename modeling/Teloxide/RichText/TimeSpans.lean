import Mathlib
import Teloxide.RichText.Boundaries

/-!
# Time spans (`crates/teloxide/src/utils/time/model.rs`)

A time span is written as components, a run of digits and a unit each (`written`), and
means the sum of their seconds (`total`). `SignedTimeSpan::parse_unsigned` walks over the
bytes of the text with a cursor; its loop is a reading of components as long as nothing
overflows (`Fits`).

Results:
* `parseComponents_iff`: from the end of a prefix the loop gives a total iff the rest is
  written by components that fit, and then the total is theirs.
* `parseUnsigned_iff`, `time_spans_exact`: the parsers give a value for every text, and a
  span exactly for those whose trimmed text is one.
-/
namespace Teloxide.RichText

open Teloxide.Core Teloxide.Core.Utf8

/-! ## What a time span says -/

inductive TimeUnit where
  | second
  | minute
  | hour
  | day
  | week
  deriving DecidableEq, Repr

def TimeUnit.letter : TimeUnit → Char
  | .second => 's'
  | .minute => 'm'
  | .hour => 'h'
  | .day => 'd'
  | .week => 'w'

def TimeUnit.seconds : TimeUnit → Nat
  | .second => 1
  | .minute => 60
  | .hour => 3600
  | .day => 86400
  | .week => 604800

/-- A run of digits and a unit. -/
structure Component where
  digits : Str
  unit : TimeUnit
  digits_ne_nil : digits ≠ []
  digits_isDigit : ∀ c ∈ digits, c.isDigit = true

def Component.text (c : Component) : Str := c.digits ++ [c.unit.letter]

/-- The value of the digits, the first one being the most significant. -/
def Component.number (c : Component) : Nat := Nat.ofDigits 10 (c.digits.reverse.map fun d => d.toNat - '0'.toNat)

def Component.seconds (c : Component) : Nat := c.number * c.unit.seconds

def written (components : List Component) : Str := components.flatMap Component.text

def total (components : List Component) : Nat := (components.map Component.seconds).sum

/-- No `i128` overflows on the way from `start` over the components. -/
structure Fits (start : Nat) (components : List Component) : Prop where
  number : ∀ c ∈ components, c.number ≤ i128Max
  product : ∀ c ∈ components, c.seconds ≤ i128Max
  sum : ∀ before after, components = before ++ after → start + total before ≤ i128Max

@[simp] theorem written_nil : written [] = [] := rfl

@[simp] theorem written_cons (c : Component) (cs : List Component) : written (c :: cs) = c.text ++ written cs := rfl

@[simp] theorem total_nil : total [] = 0 := rfl

@[simp] theorem total_cons (c : Component) (cs : List Component) : total (c :: cs) = c.seconds + total cs := by
  simp [total]

theorem fits_nil {start : Nat} : Fits start [] ↔ start ≤ i128Max := by
  constructor
  · intro h
    exact h.sum [] [] rfl
  · intro h
    refine ⟨by simp, by simp, fun before after he => ?_⟩
    obtain ⟨rfl, -⟩ := List.append_eq_nil_iff.mp he.symm
    exact h

theorem fits_cons {start : Nat} {c : Component} {cs : List Component} (hs : start ≤ i128Max) :
    Fits start (c :: cs) ↔
      c.number ≤ i128Max ∧ c.seconds ≤ i128Max ∧ start + c.seconds ≤ i128Max ∧ Fits (start + c.seconds) cs := by
  constructor
  · intro h
    refine ⟨h.number c (by simp), h.product c (by simp), ?_, ⟨?_, ?_, ?_⟩⟩
    · simpa using h.sum [c] cs rfl
    · intro d hd
      exact h.number d (List.mem_cons_of_mem _ hd)
    · intro d hd
      exact h.product d (List.mem_cons_of_mem _ hd)
    · intro before after he
      have := h.sum (c :: before) after (by rw [he]; rfl)
      rwa [total_cons, ← Nat.add_assoc] at this
  · rintro ⟨hn, hp, hsum, h⟩
    refine ⟨?_, ?_, ?_⟩
    · intro d hd
      rcases List.mem_cons.mp hd with rfl | hd
      · exact hn
      · exact h.number d hd
    · intro d hd
      rcases List.mem_cons.mp hd with rfl | hd
      · exact hp
      · exact h.product d hd
    · intro before after he
      cases before with
      | nil => simpa using hs
      | cons d before =>
        rw [List.cons_append, List.cons.injEq] at he
        obtain ⟨rfl, he⟩ := he
        rw [total_cons, ← Nat.add_assoc]
        exact h.sum before after he

/-! ## Bytes and characters -/

theorem isDigitByte_byteOf {c : Char} (hc : isAscii c = true) : isDigitByte (byteOf c) = c.isDigit := by
  have hb := byteOf_toNat hc
  have hv : c.toNat = c.val.toNat := rfl
  rw [Bool.eq_iff_iff]
  simp only [isDigitByte, Char.isDigit, Bool.and_eq_true, decide_eq_true_eq, UInt8.le_iff_toNat_le,
    UInt32.le_iff_toNat_le, ge_iff_le, hb, hv]
  rfl

theorem isAscii_of_isDigit {c : Char} (h : c.isDigit = true) : isAscii c = true := by
  simp only [Char.isDigit, Bool.and_eq_true, decide_eq_true_eq, UInt32.le_iff_toNat_le] at h
  have h9 : ('9' : Char).val.toNat = 57 := rfl
  have hv : c.toNat = c.val.toNat := rfl
  simp only [isAscii, decide_eq_true_eq, hv]
  omega

/-- A run of digit bytes is the bytes of a run of digits. -/
theorem takeWhile_digitBytes (s : Str) : (bytes s).takeWhile isDigitByte = bytes (s.takeWhile Char.isDigit) := by
  induction s with
  | nil => rfl
  | cons c s ih =>
    cases hd : c.isDigit with
    | true =>
      have ha := isAscii_of_isDigit hd
      rw [bytes_cons_ascii ha, List.takeWhile_cons_of_pos (by rw [isDigitByte_byteOf ha]; exact hd), ih,
        List.takeWhile_cons_of_pos hd, bytes_cons_ascii ha]
    | false =>
      rw [List.takeWhile_cons_of_neg (by rw [hd]; decide), bytes_cons]
      obtain ⟨b, tail, hb⟩ := List.exists_cons_of_length_pos (l := String.utf8EncodeChar c)
        (by rw [String.length_utf8EncodeChar]; exact c.utf8Size_pos)
      have hnot : isDigitByte b = false := by
        cases ha : isAscii c with
        | true =>
          rw [encode_ascii ha, List.cons.injEq] at hb
          rw [← hb.1]
          exact (isDigitByte_byteOf ha).trans hd
        | false =>
          have hge := encode_not_ascii ha (b := b) (by rw [hb]; simp)
          have h9 : (byteOf '9').toNat = 57 := rfl
          simp only [isDigitByte, Bool.and_eq_false_iff, decide_eq_false_iff_not, UInt8.le_iff_toNat_le]
          omega
      rw [hb, List.cons_append, List.takeWhile_cons_of_neg (by rw [hnot]; decide)]
      rfl

/-- The run of digits at the end of a prefix. -/
theorem runEnd_digits (pre rest : Str) :
    runEnd isDigitByte (pre ++ rest) (len pre) = len pre + len (rest.takeWhile Char.isDigit) := by
  rw [runEnd, bytes_append, ← length_bytes pre, List.drop_left, takeWhile_digitBytes,
    length_bytes (rest.takeWhile _)]

theorem parseDigits_eq (digits : Str) :
    parseDigits digits = Nat.ofDigits 10 (digits.reverse.map fun d => d.toNat - '0'.toNat) := by
  induction digits using List.reverseRecOn with
  | nil => rfl
  | append_singleton digits d ih =>
    rw [parseDigits, List.foldl_append, ← parseDigits, ih, List.reverse_append, List.map_append, List.reverse_singleton,
      List.map_singleton, List.singleton_append, Nat.ofDigits_cons]
    simp only [List.foldl_cons, List.foldl_nil]
    omega

theorem TimeUnit.isAscii_letter (unit : TimeUnit) : isAscii unit.letter = true := by
  cases unit <;> rfl

theorem TimeUnit.isDigit_letter (unit : TimeUnit) : unit.letter.isDigit = false := by
  cases unit <;> rfl

theorem unitSeconds_letter (unit : TimeUnit) : unitSeconds (some (byteOf unit.letter)) = some unit.seconds := by
  cases unit <;> rfl

/-- The byte at the cursor is a unit iff the text goes on with its letter. -/
theorem unitSeconds_head_iff {rest : Str} {seconds : Nat} :
    unitSeconds (bytes rest).head? = some seconds ↔
      ∃ (unit : TimeUnit) (after : Str), rest = unit.letter :: after ∧ unit.seconds = seconds := by
  constructor
  · intro h
    have of_head (unit : TimeUnit) (hb : (bytes rest).head? = some (byteOf unit.letter)) :
        ∃ (unit : TimeUnit) (after : Str), rest = unit.letter :: after ∧ unit.seconds = seconds := by
      obtain ⟨after, hrest⟩ := (head?_bytes_eq_iff unit.isAscii_letter rest).1 hb
      rw [hb, unitSeconds_letter] at h
      exact ⟨unit, after, hrest, Option.some.inj h⟩
    unfold unitSeconds at h
    split at h
    · exact of_head .second ‹_›
    split at h
    · exact of_head .minute ‹_›
    split at h
    · exact of_head .hour ‹_›
    split at h
    · exact of_head .day ‹_›
    split at h
    · exact of_head .week ‹_›
    · cases h
  · rintro ⟨unit, after, rfl, rfl⟩
    rw [bytes_cons_ascii unit.isAscii_letter, List.head?_cons, unitSeconds_letter]

theorem Component.takeWhile_text (c : Component) (rest : Str) :
    (c.text ++ rest).takeWhile Char.isDigit = c.digits := by
  have htail : (c.unit.letter :: rest).takeWhile Char.isDigit = [] :=
    List.takeWhile_cons_of_neg (by rw [c.unit.isDigit_letter]; decide)
  rw [Component.text, List.append_assoc, List.singleton_append, List.takeWhile_append_of_pos c.digits_isDigit, htail,
    List.append_nil]

theorem Component.text_ne_nil (c : Component) : c.text ≠ [] := by
  simp [Component.text]

/-! ## The loop -/

/-- One turn of the loop reads a component. -/
theorem parseComponents_step {pre rest : Str} {fuel start result : Nat} (hne : rest ≠ []) :
    parseComponents (pre ++ rest) (fuel + 1) (len pre) start = .ok (.ok result) ↔
      ∃ (c : Component) (after : Str), rest = c.text ++ after ∧ c.number ≤ i128Max ∧ c.seconds ≤ i128Max ∧
        start + c.seconds ≤ i128Max ∧
        parseComponents (pre ++ rest) fuel (len (pre ++ c.text)) (start + c.seconds) = .ok (.ok result) := by
  have hgoes : ¬ len (pre ++ rest) ≤ len pre := by
    have : len rest ≠ 0 := fun h => hne (len_eq_zero_iff.1 h)
    rw [len_append]
    omega
  have hstop := runEnd_digits pre rest
  have hsplit : rest.takeWhile Char.isDigit ++ rest.dropWhile Char.isDigit = rest := List.takeWhile_append_dropWhile
  generalize hdigits : rest.takeWhile Char.isDigit = digits at hstop hsplit
  generalize rest.dropWhile Char.isDigit = tail at hsplit
  have hslice : slice (pre ++ rest) (len pre) (len pre + len digits) = .ok digits := by
    rw [← hsplit]
    exact slice_append pre digits tail
  have hbyte : byteAt (pre ++ rest) (len pre + len digits) = (bytes tail).head? := by
    rw [← hsplit, ← List.append_assoc, ← len_append]
    exact byteAt_head (pre ++ digits) tail
  have hall : ∀ c ∈ digits, c.isDigit = true := by
    intro c hc
    rw [← hdigits] at hc
    exact List.all_eq_true.mp List.all_takeWhile c hc
  have hlen (unit : TimeUnit) : len pre + len digits + 1 = len (pre ++ (digits ++ [unit.letter])) := by
    simp [size_ascii unit.isAscii_letter]
    omega
  rw [parseComponents, if_neg hgoes]
  dsimp only
  rw [hstop, hslice, hbyte]
  constructor
  · intro h
    split at h
    · cases h
    rename_i hrun
    dsimp only [bind, Except.bind] at h
    split at h
    · cases h
    rename_i hnumber
    cases hunit : unitSeconds (bytes tail).head? with
    | none =>
      rw [hunit] at h
      cases h
    | some seconds =>
      rw [hunit] at h
      dsimp only at h
      obtain ⟨unit, after, rfl, rfl⟩ := unitSeconds_head_iff.1 hunit
      split at h
      · cases h
      rename_i hproduct
      split at h
      · cases h
      rename_i hsum
      have hnil : digits ≠ [] := by
        rintro rfl
        exact hrun (by simp)
      have hvalue : Component.number ⟨digits, unit, hnil, hall⟩ = parseDigits digits := (parseDigits_eq digits).symm
      have hseconds : Component.seconds ⟨digits, unit, hnil, hall⟩ = parseDigits digits * unit.seconds :=
        congrArg (· * unit.seconds) hvalue
      refine ⟨⟨digits, unit, hnil, hall⟩, after, ?_, ?_, ?_, ?_, ?_⟩
      · rw [← hsplit]
        simp [Component.text]
      · rw [hvalue]
        omega
      · rw [hseconds]
        omega
      · rw [hseconds]
        omega
      · rw [hseconds, Component.text, ← hlen unit]
        exact h
  · rintro ⟨c, after, hrest, hnumber, hproduct, hsum, h⟩
    have hd : digits = c.digits := by
      rw [← hdigits, hrest, c.takeWhile_text]
    have ht : tail = c.unit.letter :: after := by
      rw [hrest, hd, Component.text, List.append_assoc, List.append_cancel_left_eq] at hsplit
      exact hsplit
    subst hd ht
    have hvalue : parseDigits c.digits = c.number := parseDigits_eq c.digits
    have hpos : 0 < len c.digits := Nat.pos_of_ne_zero fun h => c.digits_ne_nil (len_eq_zero_iff.1 h)
    rw [if_neg (by omega)]
    dsimp only [bind, Except.bind]
    rw [hvalue, if_neg (by omega), unitSeconds_head_iff.2 ⟨c.unit, after, rfl, rfl⟩]
    dsimp only
    rw [← Component.seconds, if_neg (by omega), if_neg (by omega), hlen c.unit]
    exact h

/-- The loop at the end of a prefix: induction on the fuel, a component to a turn. -/
theorem parseComponents_iff {fuel start result : Nat} {pre rest : Str} (hfuel : len rest < fuel)
    (hstart : start ≤ i128Max) :
    parseComponents (pre ++ rest) fuel (len pre) start = .ok (.ok result) ↔
      ∃ components, rest = written components ∧ Fits start components ∧ result = start + total components := by
  induction fuel generalizing pre rest start with
  | zero => omega
  | succ fuel ih =>
    by_cases hne : rest = []
    · subst hne
      rw [parseComponents, if_pos (by simp)]
      constructor
      · intro h
        cases h
        exact ⟨[], rfl, fits_nil.2 hstart, rfl⟩
      · rintro ⟨components, hrest, -, rfl⟩
        cases components with
        | nil => rfl
        | cons c components =>
          rw [written_cons] at hrest
          exact absurd (List.append_eq_nil_iff.mp hrest.symm).1 c.text_ne_nil
    · rw [parseComponents_step hne]
      have turn (c : Component) (after : Str) (hrest : rest = c.text ++ after) (hsum : start + c.seconds ≤ i128Max) :
          parseComponents (pre ++ c.text ++ after) fuel (len (pre ++ c.text)) (start + c.seconds) = .ok (.ok result) ↔
            ∃ components, after = written components ∧ Fits (start + c.seconds) components ∧
              result = start + c.seconds + total components := by
        have hlen : len c.text ≠ 0 := fun h => c.text_ne_nil (len_eq_zero_iff.1 h)
        rw [hrest, len_append] at hfuel
        exact ih (by omega) hsum
      constructor
      · rintro ⟨c, after, hrest, hnumber, hproduct, hsum, h⟩
        rw [hrest, ← List.append_assoc, turn c after hrest hsum] at h
        obtain ⟨components, rfl, hfits, rfl⟩ := h
        refine ⟨c :: components, hrest, (fits_cons hstart).2 ⟨hnumber, hproduct, hsum, hfits⟩, ?_⟩
        rw [total_cons, Nat.add_assoc]
      · rintro ⟨components, hrest, hfits, rfl⟩
        cases components with
        | nil => exact absurd hrest hne
        | cons c components =>
          obtain ⟨hnumber, hproduct, hsum, hfits⟩ := (fits_cons hstart).1 hfits
          refine ⟨c, written components, hrest, hnumber, hproduct, hsum, ?_⟩
          rw [hrest, written_cons, ← List.append_assoc, turn c (written components) hrest hsum]
          exact ⟨components, rfl, hfits, by rw [total_cons, Nat.add_assoc]⟩

/-! ## The parsers -/

/-- The trimmed text is a time span of so many seconds. -/
def IsSpan (input : Str) (seconds : Nat) : Prop :=
  ∃ components, components ≠ [] ∧ trim input = written components ∧ Fits 0 components ∧
    total components ≤ i64Max ∧ seconds = total components

theorem parseUnsigned_iff {input : Str} {span : SignedTimeSpan} :
    SignedTimeSpan.parseUnsigned input = .ok (.ok span) ↔ ∃ seconds : Nat, IsSpan input seconds ∧ span.seconds = seconds := by
  unfold SignedTimeSpan.parseUnsigned
  dsimp only
  by_cases hempty : trim input = []
  · rw [if_pos hempty]
    constructor
    · intro h
      cases h
    · rintro ⟨_, ⟨components, hne, hwritten, -⟩, -⟩
      cases components with
      | nil => exact absurd rfl hne
      | cons c components =>
        rw [hempty, written_cons] at hwritten
        exact absurd (List.append_eq_nil_iff.mp hwritten.symm).1 c.text_ne_nil
  · have hloop (result : Nat) : parseComponents (trim input) (len (trim input) + 1) 0 0 = .ok (.ok result) ↔
        ∃ components, trim input = written components ∧ Fits 0 components ∧ result = total components := by
      have := @parseComponents_iff _ 0 result [] (trim input) (Nat.lt_succ_self _) (Nat.zero_le i128Max)
      simpa only [List.nil_append, len_nil, Nat.zero_add] using this
    rw [if_neg hempty]
    constructor
    · intro h
      obtain ⟨r, hr, h⟩ := bind_eq_ok h
      cases r with
      | error message => cases h
      | ok seconds =>
        obtain ⟨components, hwritten, hfits, rfl⟩ := (hloop seconds).1 hr
        dsimp only at h
        split at h
        · cases h
        · cases h
          refine ⟨total components, ⟨components, ?_, hwritten, hfits, by omega, rfl⟩, rfl⟩
          rintro rfl
          exact hempty hwritten
    · rintro ⟨_, ⟨components, -, hwritten, hfits, hle, rfl⟩, hs⟩
      rw [(hloop (total components)).2 ⟨components, hwritten, hfits, rfl⟩]
      dsimp only [bind, Except.bind]
      rw [if_neg (by omega), ← hs]

/-- The trimmed text is a sign and a time span of so many seconds. -/
def IsOffset (input : Str) (seconds : Int) : Prop :=
  ∃ (rest : Str) (magnitude : Nat), IsSpan rest magnitude ∧
    (trim input = '+' :: rest ∧ seconds = magnitude ∨ trim input = '-' :: rest ∧ seconds = -magnitude)

theorem sliceFrom_one {c : Char} (hc : isAscii c = true) (rest : Str) : sliceFrom (c :: rest) 1 = .ok rest := by
  have := sliceFrom_append [c] rest
  rwa [len_cons, size_ascii hc] at this

theorem parseSignedOffset_iff {input : Str} {span : SignedTimeSpan} :
    parseSignedOffset input = .ok (.ok span) ↔ IsOffset input span.seconds := by
  unfold parseSignedOffset IsOffset
  generalize trim input = text
  have head_iff {d : Char} (hd : isAscii d = true) : byteAt text 0 = some (byteOf d) ↔ ∃ rest, text = d :: rest := by
    rw [← head?_bytes_eq_iff hd, byteAt, List.head?_eq_getElem?]
  have hplus := head_iff (d := '+') rfl
  have hminus := head_iff (d := '-') rfl
  dsimp only
  constructor
  · intro h
    split at h
    · cases h
    split at h
    · rename_i hsign
      obtain ⟨rest, hrest, h⟩ := bind_eq_ok h
      obtain ⟨r, hr, h⟩ := bind_eq_ok h
      cases r with
      | error message => cases h
      | ok magnitude =>
        obtain ⟨seconds, hspan, hs⟩ := parseUnsigned_iff.1 hr
        cases h
        rcases hsign with hsign | hsign
        · obtain ⟨rest', rfl⟩ := hplus.1 hsign
          cases (sliceFrom_one rfl rest').symm.trans hrest
          refine ⟨rest, seconds, hspan, Or.inl ⟨rfl, ?_⟩⟩
          rw [if_neg (by rw [hsign]; decide)]
          exact hs
        · obtain ⟨rest', rfl⟩ := hminus.1 hsign
          cases (sliceFrom_one rfl rest').symm.trans hrest
          refine ⟨rest, seconds, hspan, Or.inr ⟨rfl, ?_⟩⟩
          rw [if_pos hsign, hs]
    · cases h
  · rintro ⟨rest, seconds, hspan, hsign⟩
    have hunsigned : SignedTimeSpan.parseUnsigned rest = .ok (.ok ⟨seconds⟩) := parseUnsigned_iff.2 ⟨seconds, hspan, rfl⟩
    rcases hsign with ⟨rfl, hs⟩ | ⟨rfl, hs⟩
    · have hbyte := hplus.2 ⟨rest, rfl⟩
      rw [if_neg (by simp), if_pos (Or.inl hbyte), sliceFrom_one rfl]
      dsimp only [bind, Except.bind]
      rw [hunsigned]
      dsimp only
      rw [if_neg (by rw [hbyte]; decide), ← hs]
    · have hbyte := hminus.2 ⟨rest, rfl⟩
      rw [if_neg (by simp), if_pos (Or.inr hbyte), sliceFrom_one rfl]
      dsimp only [bind, Except.bind]
      rw [hunsigned]
      dsimp only
      rw [if_pos hbyte, ← hs]

/-- Both parsers give a value for every text, and a span iff the text is one that fits. -/
theorem time_spans_exact (s : Str) :
    (Returns (SignedTimeSpan.parseUnsigned s) fun r =>
      ∀ span, r = .ok span ↔ ∃ seconds : Nat, IsSpan s seconds ∧ span.seconds = seconds) ∧
    (Returns (parseSignedOffset s) fun r => ∀ span, r = .ok span ↔ IsOffset s span.seconds) := by
  constructor
  · obtain ⟨r, hr, -⟩ := parseUnsigned_returns s
    refine ⟨r, hr, fun span => ?_⟩
    rw [← parseUnsigned_iff, hr, Except.ok.injEq]
  · obtain ⟨r, hr, -⟩ := parseSignedOffset_returns s
    refine ⟨r, hr, fun span => ?_⟩
    rw [← parseSignedOffset_iff, hr, Except.ok.injEq]

example : SignedTimeSpan.parseUnsigned " 1h30m ".toList = .ok (.ok ⟨5400⟩) := by decide

end Teloxide.RichText
