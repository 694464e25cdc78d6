import Teloxide.RichText.Boundaries

/-!
# The HTML lexer stays on boundaries

From a character boundary, `nextHtmlToken` gives a value, and the offsets in it are
boundaries further on (`nextHtmlToken_returns`). A tag and a closing tag end at `>`;
the bytes between are compared without regard to characters.
-/
namespace Teloxide.RichText

open Teloxide.Core Teloxide.Core.Utf8

variable {E : Platform}

/-! ## Attributes -/

/-- A cursor that stands somewhere in `inner`. -/
def Cursor.Inside (inner : Str) (cursor : Cursor) : Prop := cursor.At inner cursor.rest

theorem Cursor.Inside.skipWhile {inner : Str} {cursor : Cursor} (h : cursor.Inside inner) (p : Char → Bool) :
    (Cursor.skipWhile p cursor.offset cursor.rest).Inside inner ∧
      cursor.offset ≤ (Cursor.skipWhile p cursor.offset cursor.rest).offset ∧
      (Cursor.skipWhile p cursor.offset cursor.rest).rest.length ≤ cursor.rest.length := by
  obtain ⟨pre, hi, hc⟩ := h
  have hsplit : cursor.rest.takeWhile p ++ cursor.rest.dropWhile p = cursor.rest := List.takeWhile_append_dropWhile
  have hstop (c : Char) (hh : (cursor.rest.dropWhile p).head? = some c) : p c = false := by
    have := List.head?_dropWhile_not p cursor.rest
    rw [hh] at this
    simpa using this
  have he : Cursor.skipWhile p cursor.offset cursor.rest
      = ⟨cursor.offset + len (cursor.rest.takeWhile p), cursor.rest.dropWhile p⟩ := by
    have hall : ∀ c ∈ cursor.rest.takeWhile p, p c = true := fun c => List.all_eq_true.mp List.all_takeWhile c
    have := Cursor.skipWhile_append hall cursor.offset (cursor.rest.dropWhile p)
    rw [hsplit] at this
    rw [this, Cursor.skipWhile_stop hstop]
  rw [he]
  refine ⟨⟨pre ++ cursor.rest.takeWhile p, ?_, ?_⟩, Nat.le_add_right _ _, ?_⟩
  · rw [List.append_assoc, hsplit]
    exact hi
  · rw [len_append, show cursor.offset = len pre by rw [hc]]
  · exact (List.dropWhile_sublist p).length_le

theorem Cursor.Inside.advance {inner : Str} {cursor : Cursor} (h : cursor.Inside inner) :
    cursor.advance.Inside inner ∧ cursor.offset ≤ cursor.advance.offset ∧
      cursor.advance.rest.length = cursor.rest.length - 1 := by
  obtain ⟨pre, hi, hc⟩ := h
  rw [hc] at hi ⊢
  cases hr : cursor.rest with
  | nil =>
    rw [hr] at hi
    exact ⟨⟨pre, hi, rfl⟩, Nat.le_refl _, rfl⟩
  | cons c rest =>
    rw [hr] at hi
    exact ⟨⟨pre ++ [c], by simp [Cursor.advance, hi], by simp [Cursor.advance]⟩, Nat.le_add_right _ _, rfl⟩

theorem Cursor.Inside.boundary {inner : Str} {cursor : Cursor} (h : cursor.Inside inner) :
    IsBoundary inner cursor.offset := by
  obtain ⟨pre, hi, hc⟩ := h
  exact isBoundary_iff.2 ⟨pre, cursor.rest, hi, by rw [hc]⟩

/-- One iteration goes on with less than it had, or with nothing. -/
def AttributeStep.Shorter (inner : Str) (length : Nat) : AttributeStep → Prop
  | .done => True
  | .skip cursor | .insert _ _ cursor => cursor.Inside inner ∧ cursor.rest.length < length

theorem attributeStep_returns {inner : Str} {cursor : Cursor} (h : cursor.Inside inner) :
    Returns (attributeStep inner cursor) (AttributeStep.Shorter inner cursor.rest.length) := by
  unfold attributeStep
  dsimp only
  obtain ⟨h₁, -, hl₁⟩ := h.skipWhile fun c => isAsciiWhitespace c || c = '/'
  generalize Cursor.skipWhile _ cursor.offset cursor.rest = first at h₁ hl₁
  split
  · exact .ok trivial
  rename_i c tail hrest
  have hpos : 0 < first.rest.length := by simp [hrest]
  split
  · obtain ⟨ha, -, hla⟩ := h₁.advance
    exact .ok ⟨ha, by omega⟩
  rename_i hname
  rw [Bool.not_eq_false] at hname
  obtain ⟨h₂, ho₂, -⟩ := h₁.skipWhile isNameChar
  have hl₂ : (Cursor.skipWhile isNameChar first.offset first.rest).rest.length < first.rest.length := by
    rw [hrest, Cursor.skipWhile, if_pos hname]
    obtain ⟨pre, hi, hc⟩ := h₁
    have htail : Cursor.Inside (inner) ⟨first.offset + c.utf8Size, tail⟩ :=
      ⟨pre ++ [c], by rw [hi, hrest]; simp, by rw [hc]; simp⟩
    exact Nat.lt_succ_of_le (htail.skipWhile isNameChar).2.2
  generalize hsecond : Cursor.skipWhile isNameChar first.offset first.rest = second at h₂ ho₂ hl₂
  obtain ⟨h₃, -, hl₃⟩ := h₂.skipWhile isAsciiWhitespace
  generalize Cursor.skipWhile isAsciiWhitespace second.offset second.rest = third at h₃ hl₃
  obtain ⟨h₄, -, hl₄⟩ := h₃.advance
  split
  · exact .ok ⟨h₄, by omega⟩
  obtain ⟨h₅, -, hl₅⟩ := h₄.skipWhile isAsciiWhitespace
  generalize Cursor.skipWhile isAsciiWhitespace third.advance.offset third.advance.rest = fifth at h₅ hl₅
  split
  · exact .ok ⟨h₅, by omega⟩
  rename_i quote after hquote
  obtain ⟨h₆, -, hl₆⟩ := h₅.advance
  split
  · exact .ok ⟨h₆, by omega⟩
  obtain ⟨h₇, ho₇, hl₇⟩ := h₆.skipWhile (· ≠ quote)
  generalize Cursor.skipWhile (fun x => decide (x ≠ quote)) fifth.advance.offset fifth.advance.rest = seventh at h₇ ho₇ hl₇
  split
  · exact .ok trivial
  obtain ⟨h₈, -, hl₈⟩ := h₇.advance
  obtain ⟨name, hn⟩ := slice_of_boundary h₁.boundary h₂.boundary ho₂
  obtain ⟨value, hv⟩ := slice_of_boundary h₆.boundary h₇.boundary ho₇
  obtain ⟨decoded, hd⟩ := decodeHtmlEntities_ok value
  rw [hn, hv]
  simp only [bind, Except.bind, hd]
  exact .ok ⟨h₈, by omega⟩

theorem attributeLoop_returns {inner : Str} {fuel : Nat} {cursor : Cursor} (h : cursor.Inside inner)
    (hf : cursor.rest.length < fuel) (attributes : Table Str Str) :
    Returns (attributeLoop inner fuel cursor attributes) fun _ => True := by
  induction fuel generalizing cursor attributes with
  | zero => omega
  | succ fuel ih =>
    refine (attributeStep_returns h).bind fun step hstep => ?_
    cases step with
    | done => exact .ok trivial
    | skip cursor => exact ih hstep.1 (by have := hstep.2; omega) attributes
    | insert name value cursor => exact ih hstep.1 (by have := hstep.2; omega) _

theorem parseHtmlAttributes_returns (tag : Str) : Returns (parseHtmlAttributes tag) fun _ => True := by
  unfold parseHtmlAttributes
  dsimp only
  generalize (stripTag tag).getD [] = inner
  have hstart : Cursor.Inside inner ⟨0, inner⟩ := ⟨[], rfl, rfl⟩
  obtain ⟨hi, -, hl⟩ := hstart.skipWhile fun c => !isAsciiWhitespace c && c ≠ '/'
  obtain ⟨ha, -, hla⟩ := hi.advance
  have hlen := Nat.le_trans (Nat.le_of_eq hla) (Nat.le_trans (Nat.sub_le _ _) hl)
  exact attributeLoop_returns ha (Nat.lt_succ_of_le hlen) _

/-! ## Tags -/

theorem tagEnd_spec {quote : Option UInt8} {l : List UInt8} {k : Nat} (h : tagEnd quote l = some k) :
    l[k]? = some (byteOf '>') := by
  induction quote, l using tagEnd.induct generalizing k with
  | case1 => simp [tagEnd] at h
  | case2 current b rest ih =>
    rw [tagEnd] at h
    obtain ⟨j, hj, rfl⟩ := Option.map_eq_some_iff.mp h
    rw [Nat.add_comm]
    exact ih hj
  | case3 b rest hq ih =>
    rw [tagEnd, if_pos hq] at h
    obtain ⟨j, hj, rfl⟩ := Option.map_eq_some_iff.mp h
    rw [Nat.add_comm]
    exact ih hj
  | case4 rest hq =>
    rw [tagEnd, if_neg hq, if_pos rfl] at h
    cases h
    rfl
  | case5 b rest hq hb ih =>
    rw [tagEnd, if_neg hq, if_neg hb] at h
    obtain ⟨j, hj, rfl⟩ := Option.map_eq_some_iff.mp h
    rw [Nat.add_comm]
    exact ih hj

theorem findTagEnd_returns {source : Str} {start : Nat} (hb : IsBoundary source start) :
    Returns (findTagEnd source start) fun r =>
      ∀ stop, r = some stop → start ≤ stop ∧ byteAt source stop = some (byteOf '>') := by
  obtain ⟨pre, rest, rfl, rfl⟩ := isBoundary_iff.1 hb
  rw [findTagEnd, sliceFrom_append]
  refine .ok fun stop he => ?_
  obtain ⟨k, hk, rfl⟩ := Option.map_eq_some_iff.mp he
  exact ⟨Nat.le_add_right _ _, by rw [byteAt_append]; exact tagEnd_spec hk⟩

theorem findWindow_spec {needle l : List UInt8} {k : Nat} (h : findWindow needle l = some k) :
    needle <+: (l.drop k).map lowerByte := by
  induction l generalizing k with
  | nil => cases h
  | cons b rest ih =>
    rw [findWindow] at h
    split at h
    · rename_i hp
      cases h
      exact List.isPrefixOf_iff_prefix.mp hp
    · obtain ⟨j, hj, rfl⟩ := Option.map_eq_some_iff.mp h
      rw [Nat.add_comm]
      exact ih hj

/-- A mark is compared as it is. -/
theorem lowerByte_eq_mark {b c : UInt8} (hc : c.toNat < 65) (h : lowerByte b = c) : b = c := by
  unfold lowerByte at h
  split at h
  · rename_i hb
    simp only [UInt8.le_iff_toNat_le] at hb
    have hge : 65 ≤ b.toNat := hb.1
    have hle : b.toNat ≤ 90 := hb.2
    have hsum : (b + 32).toNat = b.toNat + 32 := by
      rw [UInt8.toNat_add, Nat.mod_eq_of_lt (by simp; omega)]
      rfl
    have := congrArg UInt8.toNat h
    omega
  · exact h

theorem byteAt_window {source needle : Str} {k j : Nat} {b : UInt8} (h : findCaseInsensitive source needle = some k)
    (hb : (bytes needle)[j]? = some b) (hm : b.toNat < 65) : byteAt source (k + j) = some b := by
  obtain ⟨post, hpost⟩ := findWindow_spec h
  have hj : (((bytes source).drop k).map lowerByte)[j]? = some b := by
    rw [← hpost, List.getElem?_append_left (List.getElem?_eq_some_iff.mp hb).1, hb]
  rw [List.getElem?_map, List.getElem?_drop] at hj
  obtain ⟨b', hb', he⟩ := Option.map_eq_some_iff.mp hj
  rw [byteAt, hb', lowerByte_eq_mark hm he]

/-- What is found between `<` and `>` lies between boundaries. -/
theorem findCaseInsensitive_boundary {source mid : Str} {k : Nat}
    (h : findCaseInsensitive source ('<' :: (mid ++ ['>'])) = some k) :
    IsBoundary source k ∧ IsBoundary source (k + len ('<' :: (mid ++ ['>']))) := by
  have hopen := byteAt_window h (j := 0) (b := byteOf '<') (by rw [bytes_cons_ascii (by decide)]; rfl) (by decide)
  have hlen : len ('<' :: (mid ++ ['>'])) = len ('<' :: mid) + 1 := by
    rw [← List.cons_append, len_append]
    rfl
  have hclose := byteAt_window h (j := len ('<' :: mid)) (b := byteOf '>')
    (by rw [← List.cons_append, ← Nat.add_zero (len ('<' :: mid)), ← byteAt, byteAt_append]; rfl) (by decide)
  rw [hlen, ← Nat.add_assoc]
  exact ⟨(isBoundary_of_byte (by decide) hopen).1, (isBoundary_of_byte (by decide) hclose).2⟩

theorem closingTag_eq (name : Str) : closingTag name = '<' :: (('/' :: name) ++ ['>']) := rfl

/-- The end of the closing tag, if there is one. -/
theorem closing_returns {source : Str} {start : Nat} (name : Str) (hb : IsBoundary source start) :
    ∃ rest, sliceFrom source start = .ok rest ∧ ∀ offset, findCaseInsensitive rest (closingTag name) = some offset →
      IsBoundary source (start + offset) ∧ IsBoundary source (start + offset + len (closingTag name)) := by
  obtain ⟨pre, rest, rfl, rfl⟩ := isBoundary_iff.1 hb
  refine ⟨rest, sliceFrom_append pre rest, fun offset hoffset => ?_⟩
  rw [closingTag_eq] at hoffset
  obtain ⟨h₁, h₂⟩ := findCaseInsensitive_boundary hoffset
  have hs := slice_sliceFrom (sliceFrom_append pre rest)
  rw [Nat.add_assoc]
  exact ⟨isBoundary_slice hs h₁, isBoundary_slice hs h₂⟩

theorem skipHtmlLiteralContext_returns {source : Str} {start : Nat} (hb : IsBoundary source start) :
    Returns (skipHtmlLiteralContext source start) fun r => ∀ stop, r = some stop → Ahead source start stop := by
  refine (findTagEnd_returns hb).bind fun r hr => ?_
  cases r with
  | none => exact .ok fun _ he => by cases he
  | some last =>
    obtain ⟨hle, hbyte⟩ := hr last rfl
    have hend := (isBoundary_of_byte (by decide) hbyte).2
    obtain ⟨tag, htag⟩ := slice_of_boundary hb hend (by omega)
    dsimp only
    rw [htag]
    simp only [bind, Except.bind]
    cases literalName tag with
    | none => exact .ok fun _ he => by cases he
    | some name =>
      obtain ⟨rest, hrest, hclosing⟩ := closing_returns name hend
      simp only [hrest]
      refine .ok fun stop he => ?_
      obtain ⟨offset, hoffset, rfl⟩ := Option.map_eq_some_iff.mp he
      exact ⟨by omega, (hclosing offset hoffset).2⟩

theorem isUnclosedHtmlLiteral_returns {source : Str} {start : Nat} (hb : IsBoundary source start) :
    Returns (isUnclosedHtmlLiteral source start) fun _ => True := by
  refine (findTagEnd_returns hb).bind fun r hr => ?_
  cases r with
  | none => exact .ok trivial
  | some last =>
    obtain ⟨hle, hbyte⟩ := hr last rfl
    have hend := (isBoundary_of_byte (by decide) hbyte).2
    obtain ⟨tag, htag⟩ := slice_of_boundary hb hend (by omega)
    obtain ⟨rest, hrest⟩ := sliceFrom_of_boundary hend
    dsimp only
    rw [htag]
    simp only [bind, Except.bind, hrest]
    cases literalName tag with
    | none => exact .ok trivial
    | some name => exact .ok trivial

/-! ## Elements -/

section

variable {source tag : Str} {index last : Nat} (hb : IsBoundary source index) (hlt : index ≤ last)
  (hend : IsBoundary source (last + 1)) (attrs : Table Str Str)

include hend in
theorem elementEnd_returns (selfClosing : Bool) (name : Str) :
    Returns (elementEnd source last selfClosing name) fun r =>
      ∀ stop, r = some stop → last < stop ∧ IsBoundary source stop := by
  unfold elementEnd
  split
  · exact .ok fun stop he => by
      cases he
      exact ⟨Nat.lt_succ_self _, hend⟩
  · obtain ⟨rest, hrest, hclosing⟩ := closing_returns name hend
    rw [hrest]
    refine .ok fun stop he => ?_
    obtain ⟨offset, hoffset, rfl⟩ := Option.map_eq_some_iff.mp he
    exact ⟨by omega, (hclosing offset hoffset).2⟩

include hb in
/-- An element that is refused. -/
theorem failed_returns (message : String) :
    Returns (do .ok (.failed (← RenderError.invalid "html" source (0 + index) tag message)))
      (Token.Fits (E := E) source index) := by
  rw [Nat.zero_add]
  refine (invalid_returns hb "html" tag message).bind fun error he => .ok ?_
  rw [Token.Fits, he]
  exact hb

include hb hlt hend in
theorem timeElement_returns (selfClosing : Bool) :
    Returns (timeElement (E := E) source 0 index last tag attrs selfClosing) (Token.Fits source index) := by
  unfold timeElement
  dsimp only
  split
  · exact failed_returns hb _
  rename_i value _
  refine (parseExpression_returns _).bind fun r _ => ?_
  split
  · exact failed_returns hb _
  split
  · exact failed_returns hb _
  refine (elementEnd_returns hend selfClosing _).bind fun stop hstop => ?_
  split
  · exact failed_returns hb _
  · obtain ⟨hgt, hstop⟩ := hstop _ rfl
    exact .ok ⟨by simp [RichNode.range?], ⟨by omega, hstop⟩, rfl⟩

include hb hlt hend in
theorem emojiElement_returns (selfClosing : Bool) :
    Returns (emojiElement (E := E) source 0 index last tag attrs selfClosing) (Token.Fits source index) := by
  unfold emojiElement
  dsimp only
  split
  · exact failed_returns hb _
  refine (elementEnd_returns hend selfClosing _).bind fun stop hstop => ?_
  split
  · exact failed_returns hb _
  · obtain ⟨hgt, hstop⟩ := hstop _ rfl
    exact .ok ⟨by simp [RichNode.range?], ⟨by omega, hstop⟩, rfl⟩

include hb hlt hend in
theorem anchorElement_returns :
    Returns (anchorElement (E := E) source 0 index last tag attrs) (Token.Fits source index) := by
  unfold anchorElement
  dsimp only
  split
  · exact failed_returns hb _
  obtain ⟨rest, hrest, hclosing⟩ := closing_returns ['a'] hend
  rw [hrest]
  simp only [bind, Except.bind]
  split
  · exact failed_returns hb _
  · rename_i offset hoffset
    obtain ⟨h₁, h₂⟩ := hclosing offset hoffset
    have hfour : len "</a>".toList = 4 := by decide
    exact .ok ⟨by omega, hend, by omega, h₁, by omega, h₂⟩

end

theorem tagToken_returns {source : Str} {index last : Nat} (hb : IsBoundary source index) (hlt : index ≤ last)
    (hbyte : byteAt source last = some (byteOf '>')) :
    Returns (tagToken (E := E) source 0 index last) (Token.Fits source index) := by
  have hend := (isBoundary_of_byte (by decide) hbyte).2
  have hskip : Ahead source index (last + 1) := ⟨by omega, hend⟩
  obtain ⟨tag, htag⟩ := slice_of_boundary hb hend (by omega)
  obtain ⟨attrs, hattrs, -⟩ := parseHtmlAttributes_returns tag
  obtain ⟨rest, hrest⟩ := sliceFrom_of_boundary hend
  rw [tagToken, htag]
  simp only [bind, Except.bind]
  split
  · exact .ok hskip
  simp only [hattrs, hasHtmlClosingTag, hrest, bind, Except.bind]
  split
  · split
    · exact .ok trivial
    split
    · exact timeElement_returns hb hlt hend attrs _
    split
    · exact emojiElement_returns hb hlt hend attrs _
    · exact anchorElement_returns hb hlt hend attrs
  · exact .ok hskip

/-- The frontend gives a value at each boundary, and it says where it ends. -/
theorem nextHtmlToken_returns {source : Str} {index : Nat} (hb : IsBoundary source index) (hl : index < len source) :
    Returns (nextHtmlToken (E := E) source 0 index) (Token.Fits source index) := by
  refine (scanUri_returns (E := E) hb).bind fun uri huri => ?_
  cases uri with
  | some found => exact .ok (huri _ _ rfl)
  | none =>
    dsimp only
    split
    · exact .map (nextCharBoundary_returns hb hl)
    refine (isUnclosedHtmlLiteral_returns hb).bind fun unclosed _ => ?_
    split
    · exact .ok trivial
    refine (skipHtmlLiteralContext_returns hb).bind fun literal hliteral => ?_
    cases literal with
    | some stop => exact .ok (hliteral stop rfl)
    | none =>
      refine (findTagEnd_returns hb).bind fun r hr => ?_
      cases r with
      | none =>
        obtain ⟨rest, hrest⟩ := sliceFrom_of_boundary hb
        dsimp only
        rw [hrest]
        dsimp only [bind, Except.bind]
        split
        · exact .ok trivial
        · exact .map (nextCharBoundary_returns hb hl)
      | some last =>
        obtain ⟨hle, hbyte⟩ := hr last rfl
        exact tagToken_returns hb hle hbyte

end Teloxide.RichText
