import Teloxide.RichText.Scan

/-!
# The Markdown lexers stay on boundaries

From a character boundary, each lexer of `RichText/Lexer.lean` gives a value, and the
offsets in it are boundaries again, further on. The LLM marker is the exception: the
window of a malformed one has a fixed size, and may end inside of a character
(`Splits`). `nextToken_main` and `nextToken_llm` collect this.
-/
namespace Teloxide.RichText

open Teloxide.Core Teloxide.Core.Utf8

variable {E : Platform}

/-- A boundary further on. -/
def Ahead (source : Str) (index stop : Nat) : Prop := index < stop ∧ IsBoundary source stop

/-! ## Characters, code and escapes -/

theorem nextCharBoundary_returns {source : Str} {index : Nat} (hb : IsBoundary source index) (hl : index < len source) :
    Returns (nextCharBoundary source index) (Ahead source index) := by
  obtain ⟨pre, rest, rfl, rfl⟩ := isBoundary_iff.1 hb
  cases rest with
  | nil => simp at hl
  | cons character rest =>
    refine ⟨len pre + character.utf8Size, ?_, ?_, ?_⟩
    · rw [nextCharBoundary, sliceFrom_append]
      rfl
    · have := character.utf8Size_pos
      omega
    · exact isBoundary_iff.2 ⟨pre ++ [character], rest, by simp, by simp⟩

theorem isBoundaryBefore_returns {source : Str} {index : Nat} (hb : IsBoundary source index) :
    Returns (isBoundaryBefore E source index) fun _ => True := by
  unfold isBoundaryBefore
  split
  · exact .ok trivial
  · obtain ⟨before, hbefore⟩ := sliceTo_of_boundary hb
    exact ⟨_, by rw [hbefore]; rfl, trivial⟩

theorem isBoundaryAfter_returns {source : Str} {index : Nat} (hb : IsBoundary source index) :
    Returns (isBoundaryAfter E source index) fun _ => True := by
  obtain ⟨rest, hrest⟩ := sliceFrom_of_boundary hb
  exact ⟨_, by rw [isBoundaryAfter, hrest]; rfl, trivial⟩

theorem skipDelimited_returns {pre post : Str} (delimiter : Str) (hd : delimiter ≠ []) :
    Returns (skipDelimited (pre ++ (delimiter ++ post)) (len pre) delimiter)
      (Ahead (pre ++ (delimiter ++ post)) (len pre)) := by
  have hpos : 0 < len delimiter := Nat.pos_of_ne_zero fun h => hd (len_eq_zero_iff.1 h)
  have hs : sliceFrom (pre ++ (delimiter ++ post)) (len pre + len delimiter) = .ok post :=
    sliceFrom_eq_ok_iff.2 ⟨pre ++ delimiter, by simp, by simp⟩
  cases hf : find delimiter post with
  | none =>
    refine ⟨len (pre ++ (delimiter ++ post)), ?_, by simp; omega, isBoundary_len _⟩
    rw [skipDelimited, hs]
    simp only [bind, Except.bind, hf]
  | some offset =>
    obtain ⟨mid, rest, rfl, rfl⟩ := find_eq_some hf
    refine ⟨len pre + len delimiter + len mid + len delimiter, ?_, by omega, ?_⟩
    · rw [skipDelimited, hs]
      simp only [bind, Except.bind, hf]
    · exact isBoundary_iff.2 ⟨pre ++ (delimiter ++ (mid ++ delimiter)), rest, by simp, by simp; omega⟩

theorem len_backticks (l : Str) (h : ∀ c ∈ l, c = '`') : len l = l.length := by
  induction l with
  | nil => rfl
  | cons c l ih =>
    rw [len_cons, ih fun d hd => h d (List.mem_cons_of_mem _ hd), h c List.mem_cons_self, List.length_cons]
    rw [show ('`' : Char).utf8Size = 1 by decide]
    omega

/-- The run of backticks is the delimiter. -/
theorem skipInlineCode_eq (pre rest : Str) :
    skipInlineCode (pre ++ rest) (len pre) = skipDelimited (pre ++ rest) (len pre) (rest.takeWhile (· = '`')) := by
  have hlen := len_backticks (rest.takeWhile (· = '`')) fun c hc => by
    simpa using List.all_eq_true.mp List.all_takeWhile c hc
  have hs : slice (pre ++ rest) (len pre) (len pre + len (rest.takeWhile (· = '`')))
      = .ok (rest.takeWhile (· = '`')) :=
    slice_eq_ok_iff.2
      ⟨pre, rest.dropWhile (· = '`'), by rw [List.takeWhile_append_dropWhile], rfl, rfl⟩
  rw [skipInlineCode, skipDelimited, sliceFrom_append]
  simp only [bind, Except.bind, ← hlen, hs]

theorem skipInlineCode_returns {pre post : Str} :
    Returns (skipInlineCode (pre ++ '`' :: post) (len pre)) (Ahead (pre ++ '`' :: post) (len pre)) := by
  have h : Returns (skipDelimited (pre ++ (('`' :: post).takeWhile (· = '`') ++ ('`' :: post).dropWhile (· = '`')))
      (len pre) (('`' :: post).takeWhile (· = '`'))) _ := skipDelimited_returns _ (by simp)
  rw [List.takeWhile_append_dropWhile] at h
  rw [skipInlineCode_eq]
  exact h

theorem skipEscaped_returns {source : Str} {index : Nat} (hb : IsBoundary source index) (hl : index < len source) :
    Returns (skipEscaped source index) (Ahead source index) := by
  refine (nextCharBoundary_returns hb hl).bind fun next hnext => ?_
  split
  · rename_i hlt
    exact (nextCharBoundary_returns hnext.2 hlt).mono fun stop hstop => ⟨Nat.lt_trans hnext.1 hstop.1, hstop.2⟩
  · exact .ok hnext

/-! ## URIs -/

theorem runEnd_gt {p : UInt8 → Bool} {s : Str} {i : Nat} {b : UInt8} (h : byteAt s i = some b) (hp : p b = true) :
    i < runEnd p s i := by
  refine Nat.lt_of_le_of_ne (runEnd_ge p s i) fun he => ?_
  rw [he] at h
  have := byteAt_runEnd p s i h
  rw [hp] at this
  cases this

/-- The bytes that end a URI are ASCII. -/
theorem ascii_of_uriStops (autolink : Bool) {b : UInt8} (h : uriStops autolink b = true) : b.toNat < 128 := by
  simp only [uriStops, isAsciiWhitespaceByte, Bool.or_eq_true, Bool.and_eq_true, decide_eq_true_eq] at h
  rcases h with (((((rfl | rfl) | rfl) | rfl) | rfl) | ⟨-, rfl | rfl⟩) | ⟨-, rfl⟩ <;> decide

theorem trimUriEnd_returns {source : Str} {start stop : Nat} (hs : IsBoundary source start)
    (he : IsBoundary source stop) (hle : start ≤ stop) : Returns (trimUriEnd source start stop) fun _ => True := by
  obtain ⟨url, hurl⟩ := slice_of_boundary hs he hle
  exact ⟨_, by rw [trimUriEnd, hurl]; rfl, trivial⟩

theorem scanUriFrom_returns {source : Str} {start : Nat} {autolink : Bool} (hs : IsBoundary source start) :
    Returns (scanUriFrom source start autolink) fun r =>
      runEnd (fun b => !uriStops autolink b) source start ≤ r.1 ∧ IsBoundary source r.1 := by
  have hstop := isBoundary_runStop (p := fun b => !uriStops autolink b) (s := source) (i := start)
    (fun b hb => ascii_of_uriStops autolink (by simpa using hb)) hs.le
  have hge := runEnd_ge (fun b => !uriStops autolink b) source start
  unfold scanUriFrom
  generalize runEnd (fun b => !uriStops autolink b) source start = cursor at hstop hge
  dsimp only
  split
  · rename_i hc
    rw [Bool.and_eq_true, decide_eq_true_eq] at hc
    exact .ok ⟨Nat.le_succ _, (isBoundary_of_byte (by decide) hc.2).2⟩
  · split
    · exact .ok ⟨Nat.le_refl _, hstop⟩
    · exact (trimUriEnd_returns hs hstop hge).bind fun _ _ => .ok ⟨Nat.le_refl _, hstop⟩

/-- A letter is ASCII, and it does not end a URI. -/
theorem not_uriStops_of_alpha {c : Char} (h : c.isAlpha = true) (autolink : Bool) :
    isAscii c = true ∧ uriStops autolink (byteOf c) = false := by
  have ha : isAscii c = true := by
    simp only [Char.isAlpha, Char.isUpper, Char.isLower, Bool.or_eq_true, Bool.and_eq_true, decide_eq_true_eq] at h
    simp only [isAscii, Char.toNat, decide_eq_true_eq]
    rcases h with ⟨-, h⟩ | ⟨-, h⟩ <;> exact Nat.lt_of_le_of_lt (UInt32.le_iff_toNat_le.mp h) (by decide)
  have hne (d : Char) (hd : isAscii d = true) (hda : d.isAlpha = false) : byteOf c ≠ byteOf d := by
    intro he
    rw [byteOf_inj ha hd] at he
    rw [he, hda] at h
    cases h
  refine ⟨ha, ?_⟩
  simp [uriStops, isAsciiWhitespaceByte, hne ' ' (by decide) (by decide), hne '\t' (by decide) (by decide),
    hne '\n' (by decide) (by decide), hne '\x0c' (by decide) (by decide), hne '\r' (by decide) (by decide),
    hne ')' (by decide) (by decide), hne ']' (by decide) (by decide), hne '>' (by decide) (by decide)]

theorem head_of_uriPrefix {rest : Str} (h : uriPrefixes.any (·.isPrefixOf rest) = true) :
    ∃ c tail, rest = c :: tail ∧ c.isAlpha = true := by
  obtain ⟨known, hk, hpre⟩ := List.any_eq_true.mp h
  obtain ⟨post, rfl⟩ := isPrefixOf_iff.1 hpre
  have hhead : known.head?.any Char.isAlpha = true :=
    List.all_eq_true.mp (by decide : uriPrefixes.all (·.head?.any Char.isAlpha) = true) known hk
  cases known with
  | nil => cases hhead
  | cons c tail => exact ⟨c, tail ++ post, rfl, by simpa using hhead⟩

theorem head_of_uriScheme {rest scheme : Str} (h : uriScheme rest = some scheme) :
    ∃ c tail, rest = c :: tail ∧ c.isAlpha = true := by
  cases rest with
  | nil => simp [uriScheme, find] at h
  | cons c tail =>
    refine ⟨c, tail, rfl, ?_⟩
    unfold uriScheme at h
    split at h
    · cases h
    · dsimp only at h
      by_cases hc : c = ':'
      · simp [hc] at h
      · rw [List.takeWhile_cons_of_pos (by simpa using hc)] at h
        dsimp only at h
        split at h
        · rename_i hh
          exact (Bool.and_eq_true _ _ ▸ hh : _ ∧ _).1
        · cases h

theorem scanUri_returns {source : Str} {index : Nat} (hb : IsBoundary source index) :
    Returns (scanUri E source index) fun r => ∀ stop url, r = some (stop, url) → Ahead source index stop := by
  obtain ⟨pre, rest, rfl, rfl⟩ := isBoundary_iff.1 hb
  have hplain (hhead : ∃ c tail, rest = c :: tail ∧ c.isAlpha = true) :
      Returns (do if ← isBoundaryBefore E (pre ++ rest) (len pre) then
          some <$> scanUriFrom (pre ++ rest) (len pre) false else .ok none) fun r =>
        ∀ stop url, r = some (stop, url) → Ahead (pre ++ rest) (len pre) stop := by
    obtain ⟨c, tail, rfl, hc⟩ := hhead
    obtain ⟨ha, hn⟩ := not_uriStops_of_alpha hc false
    have hbyte : byteAt (pre ++ c :: tail) (len pre) = some (byteOf c) := by
      rw [byteAt_head, bytes_cons_ascii ha]
      rfl
    refine (isBoundaryBefore_returns hb).bind fun before _ => ?_
    split
    · refine Returns.map ((scanUriFrom_returns hb).mono ?_)
      rintro ⟨cursor, url⟩ ⟨hle, hcursor⟩ stop url' he
      cases he
      exact ⟨Nat.lt_of_lt_of_le (runEnd_gt hbyte (by rw [hn]; rfl)) hle, hcursor⟩
    · exact .ok fun stop url he => by cases he
  have hnone : ∀ stop url, (none : Option (Nat × Option Str)) = some (stop, url) →
      Ahead (pre ++ rest) (len pre) stop := fun stop url he => by cases he
  rw [scanUri, sliceFrom_append]
  simp only [bind, Except.bind]
  split
  · rename_i hp
    exact hplain (head_of_uriPrefix hp)
  split
  · rename_i hp
    have hb' := (isBoundary_of_byte (by decide) hp.1).2
    refine Returns.map ((scanUriFrom_returns hb').mono ?_)
    rintro ⟨cursor, url⟩ ⟨hle, hcursor⟩ stop url' he
    cases he
    exact ⟨Nat.lt_of_lt_of_le (Nat.lt_succ_self _) (Nat.le_trans (runEnd_ge _ _ _) hle), hcursor⟩
  split
  · exact .ok hnone
  · rename_i scheme hscheme
    split
    · exact hplain (head_of_uriScheme hscheme)
    · exact .ok hnone

/-! ## Links and custom emojis -/

theorem unescaped_spec {needle : UInt8} {l : List UInt8} {k : Nat} (h : unescaped needle l = some k) :
    l[k]? = some needle := by
  induction l using unescaped.induct needle generalizing k with
  | case1 => cases h
  | case2 => simp [unescaped] at h
  | case3 _ rest ih =>
    unfold unescaped at h
    rw [if_pos rfl] at h
    obtain ⟨j, hj, rfl⟩ := Option.map_eq_some_iff.mp h
    rw [Nat.add_comm]
    exact ih hj
  | case4 rest hb =>
    unfold unescaped at h
    rw [if_neg hb, if_pos rfl] at h
    cases h
    rfl
  | case5 b rest hb hn ih =>
    unfold unescaped at h
    rw [if_neg hb, if_neg hn] at h
    obtain ⟨j, hj, rfl⟩ := Option.map_eq_some_iff.mp h
    rw [Nat.add_comm]
    exact ih hj

theorem destinationEnd_spec {depth : Nat} {l : List UInt8} {k : Nat} (h : destinationEnd depth l = some k) :
    l[k]? = some (byteOf ')') := by
  induction depth, l using destinationEnd.induct generalizing k with
  | case1 => cases h
  | case2 => simp [destinationEnd] at h
  | case3 depth _ rest ih =>
    unfold destinationEnd at h
    rw [if_pos rfl] at h
    obtain ⟨j, hj, rfl⟩ := Option.map_eq_some_iff.mp h
    rw [Nat.add_comm]
    exact ih hj
  | case4 depth rest hb ih =>
    unfold destinationEnd at h
    rw [if_neg hb, if_pos rfl] at h
    obtain ⟨j, hj, rfl⟩ := Option.map_eq_some_iff.mp h
    rw [Nat.add_comm]
    exact ih hj
  | case5 rest hb hn =>
    unfold destinationEnd at h
    rw [if_neg hb, if_neg hn, if_pos rfl] at h
    cases h
    rfl
  | case6 rest depth hb hn ih =>
    unfold destinationEnd at h
    rw [if_neg hb, if_neg hn, if_pos rfl] at h
    obtain ⟨j, hj, rfl⟩ := Option.map_eq_some_iff.mp h
    rw [Nat.add_comm]
    exact ih hj
  | case7 depth b rest hb hn hc ih =>
    unfold destinationEnd at h
    rw [if_neg hb, if_neg hn, if_neg hc] at h
    obtain ⟨j, hj, rfl⟩ := Option.map_eq_some_iff.mp h
    rw [Nat.add_comm]
    exact ih hj

theorem findUnescaped_spec {source : Str} {start k : Nat} {needle : UInt8} (h : findUnescaped source start needle = some k) :
    start ≤ k ∧ byteAt source k = some needle := by
  obtain ⟨j, hj, rfl⟩ := Option.map_eq_some_iff.mp h
  exact ⟨Nat.le_add_right _ _, by rw [byteAt, ← List.getElem?_drop]; exact unescaped_spec hj⟩

theorem findMarkdownDestinationEnd_spec {source : Str} {start k : Nat} (h : findMarkdownDestinationEnd source start = some k) :
    start ≤ k ∧ byteAt source k = some (byteOf ')') := by
  obtain ⟨j, hj, rfl⟩ := Option.map_eq_some_iff.mp h
  exact ⟨Nat.le_add_right _ _, by rw [byteAt, ← List.getElem?_drop]; exact destinationEnd_spec hj⟩

/-- Brackets around a destination are taken off without a panic. -/
theorem slice_brackets {destination : Str} (hl : 2 ≤ len destination) (hh : destination.head? = some '<')
    (ht : destination.getLast? = some '>') : ∃ inner, slice destination 1 (len destination - 1) = .ok inner := by
  have hone : ('<' : Char).utf8Size = 1 ∧ ('>' : Char).utf8Size = 1 := by decide
  cases destination with
  | nil => cases hh
  | cons first tail =>
    cases hh
    have htail : tail ≠ [] := by
      rintro rfl
      simp [hone.1] at hl
    obtain ⟨inner, last, rfl⟩ := List.eq_nil_or_concat tail |>.resolve_left htail
    simp only [List.concat_eq_append, List.getLast?_cons, List.getLast?_append,
      Option.some_or, Option.getD_some, Option.some.injEq] at ht
    subst ht
    exact ⟨inner, slice_eq_ok_iff.2 ⟨['<'], ['>'], by simp, by simp [hone.1], by simp [hone.1, hone.2]; omega⟩⟩

/-- The offsets of a link at `index`. -/
structure LinkAt (source : Str) (index labelEnd stop : Nat) : Prop where
  label : index + 1 ≤ labelEnd
  labelEnd_lt : labelEnd < stop
  labelEnd_boundary : IsBoundary source labelEnd
  stop_boundary : IsBoundary source stop

theorem parseMarkdownLink_returns (source : Str) (index : Nat) :
    Returns (parseMarkdownLink source index) fun r =>
      ∀ labelEnd stop destination, r = some (labelEnd, stop, destination) → LinkAt source index labelEnd stop := by
  unfold parseMarkdownLink
  split
  · exact .ok fun _ _ _ he => by cases he
  rename_i labelEnd hlabel
  obtain ⟨hle, hbracket⟩ := findUnescaped_spec hlabel
  split
  · exact .ok fun _ _ _ he => by cases he
  rename_i hparen
  rw [ne_eq, Decidable.not_not] at hparen
  dsimp only
  split
  · exact .ok fun _ _ _ he => by cases he
  rename_i stop hstop
  obtain ⟨hge, hclose⟩ := findMarkdownDestinationEnd_spec hstop
  obtain ⟨raw, hraw⟩ := slice_of_boundary (isBoundary_of_byte (by decide) hparen).2
    (isBoundary_of_byte (by decide) hclose).1 hge
  have hfits (destination : Str) : ∀ l s d, some (labelEnd, stop + 1, destination) = some (l, s, d) →
      LinkAt source index l s := by
    intro l s d he
    cases he
    exact ⟨hle, by omega, (isBoundary_of_byte (by decide) hbracket).1, (isBoundary_of_byte (by decide) hclose).2⟩
  rw [hraw]
  dsimp only [bind, Except.bind]
  split
  · rename_i hbrackets
    obtain ⟨inner, hinner⟩ := slice_brackets hbrackets.1 hbrackets.2.1 hbrackets.2.2
    rw [hinner]
    exact .ok (hfits inner)
  · exact .ok (hfits _)

theorem ascii_of_lower {b : UInt8} (h : isLowerByte b = true) : b.toNat < 128 := by
  simp only [isLowerByte, Bool.and_eq_true, decide_eq_true_eq, UInt8.le_iff_toNat_le] at h
  exact Nat.lt_of_le_of_lt h.2 (by decide)

theorem ascii_of_digit {b : UInt8} (h : isDigitByte b = true) : b.toNat < 128 := by
  simp only [isDigitByte, Bool.and_eq_true, decide_eq_true_eq, UInt8.le_iff_toNat_le] at h
  exact Nat.lt_of_le_of_lt h.2 (by decide)

theorem parseCustomEmoji_returns {source : Str} {index : Nat} (h : byteAt source index = some (byteOf ':')) :
    Returns (parseCustomEmoji E source index) fun r =>
      ∀ name stop, r = some (name, stop) → Ahead source index stop := by
  obtain ⟨hb, hb'⟩ := isBoundary_of_byte (by decide) h
  have hnone : ∀ name stop, (none : Option (Str × Nat)) = some (name, stop) → Ahead source index stop :=
    fun _ _ he => by cases he
  have hrun := isBoundary_run (p := fun b => isLowerByte b || isDigitByte b || b = byteOf '_') (s := source)
    (fun b hp => by
      simp only [Bool.or_eq_true, decide_eq_true_eq] at hp
      rcases hp with (hp | hp) | rfl
      · exact ascii_of_lower hp
      · exact ascii_of_digit hp
      · decide) hb'
  have hge := runEnd_ge (fun b => isLowerByte b || isDigitByte b || b = byteOf '_') source (index + 1)
  refine (isBoundaryBefore_returns hb).bind fun before _ => ?_
  split
  · dsimp only
    split
    · generalize runEnd _ source (index + 1) = cursor at hrun hge
      split
      · exact .ok hnone
      rename_i hc
      simp only [ne_eq, not_or, Decidable.not_not] at hc
      have hcolon := (isBoundary_of_byte (by decide) hc.2).2
      refine (isBoundaryAfter_returns hcolon).bind fun after _ => ?_
      split
      · obtain ⟨name, hname⟩ := slice_of_boundary hb' hrun hge
        rw [hname]
        exact .ok fun _ _ he => by
          cases he
          exact ⟨by omega, hcolon⟩
      · exact .ok hnone
    · exact .ok hnone
  · exact .ok hnone

/-! ## Time expressions -/

theorem unitSeconds_ascii {b : UInt8} {n : Nat} (h : unitSeconds (some b) = some n) : b.toNat < 128 := by
  unfold unitSeconds at h
  simp only [Option.some.injEq] at h
  split at h
  · rename_i hb
    subst hb
    decide
  split at h
  · rename_i hb
    subst hb
    decide
  split at h
  · rename_i hb
    subst hb
    decide
  split at h
  · rename_i hb
    subst hb
    decide
  split at h
  · rename_i hb
    subst hb
    decide
  · cases h

theorem parseComponents_returns (input : Str) (fuel index total : Nat) (hb : IsBoundary input index)
    (hf : len input < fuel + index) : Returns (parseComponents input fuel index total) fun _ => True := by
  induction fuel generalizing index total with
  | zero =>
    have := hb.le
    omega
  | succ fuel ih =>
    unfold parseComponents
    split
    · exact .ok trivial
    dsimp only
    split
    · exact .ok trivial
    have hrun := isBoundary_run (p := isDigitByte) (fun b => ascii_of_digit) hb
    have hge := runEnd_ge isDigitByte input index
    obtain ⟨digits, hd⟩ := slice_of_boundary hb hrun hge
    rw [hd]
    dsimp only [bind, Except.bind]
    split
    · exact .ok trivial
    split
    · exact .ok trivial
    rename_i seconds hunit
    split
    · exact .ok trivial
    split
    · exact .ok trivial
    obtain ⟨b, hbyte⟩ : ∃ b, byteAt input (runEnd isDigitByte input index) = some b := by
      cases hbyte : byteAt input (runEnd isDigitByte input index) with
      | none =>
        rw [hbyte] at hunit
        cases hunit
      | some b => exact ⟨b, rfl⟩
    rw [hbyte] at hunit
    exact ih _ _ (isBoundary_of_ascii (unitSeconds_ascii hunit) hbyte).2 (by omega)

theorem parseUnsigned_returns (input : Str) : Returns (SignedTimeSpan.parseUnsigned input) fun _ => True := by
  unfold SignedTimeSpan.parseUnsigned
  dsimp only
  split
  · exact .ok trivial
  · refine (parseComponents_returns _ _ _ _ (isBoundary_zero _) (by omega)).bind fun r _ => ?_
    cases r with
    | error message => exact .ok trivial
    | ok total =>
      dsimp only
      split
      · exact .ok trivial
      · exact .ok trivial

theorem parseSignedOffset_returns (input : Str) : Returns (parseSignedOffset input) fun _ => True := by
  unfold parseSignedOffset
  dsimp only
  split
  · exact .ok trivial
  split
  · rename_i hsign
    have hone : IsBoundary (trim input) 1 := by
      rcases hsign with h | h
      · exact (isBoundary_of_byte (by decide) h).2
      · exact (isBoundary_of_byte (by decide) h).2
    obtain ⟨rest, hrest⟩ := sliceFrom_of_boundary hone
    rw [hrest]
    refine (parseUnsigned_returns rest).bind fun r _ => ?_
    cases r with
    | error message => exact .ok trivial
    | ok span => exact .ok trivial
  · exact .ok trivial

theorem ascii_of_alphaByte {b : UInt8} (h : isAlphaByte b = true) : b.toNat < 128 := by
  simp only [isAlphaByte, Bool.or_eq_true, Bool.and_eq_true, decide_eq_true_eq, UInt8.le_iff_toNat_le] at h
  rcases h with ⟨-, h⟩ | ⟨-, h⟩ <;> exact Nat.lt_of_le_of_lt h (by decide)

theorem splitVariable_returns (input : Str) : Returns (splitVariable input) fun _ => True := by
  unfold splitVariable
  dsimp only
  split
  · exact .ok trivial
  split
  · exact .ok trivial
  have hrun := isBoundary_run (p := fun b => isAlphaByte b || isDigitByte b || b = byteOf '_') (s := input)
    (fun b hp => by
      simp only [Bool.or_eq_true, decide_eq_true_eq] at hp
      rcases hp with (hp | hp) | rfl
      · exact ascii_of_alphaByte hp
      · exact ascii_of_digit hp
      · decide) (isBoundary_zero input)
  obtain ⟨name, hname⟩ := sliceTo_of_boundary hrun
  obtain ⟨rest, hrest⟩ := sliceFrom_of_boundary hrun
  rw [hname, hrest]
  dsimp only [bind, Except.bind]
  split
  · exact .ok trivial
  · refine (parseSignedOffset_returns _).bind fun r _ => ?_
    cases r with
    | error message => exact .ok trivial
    | ok offset => exact .ok trivial

theorem parseExpression_returns (input : Str) : Returns (parseExpression E input) fun _ => True := by
  unfold parseExpression
  dsimp only
  split
  · exact .ok trivial
  split
  · split
    · exact .ok trivial
    · refine (parseSignedOffset_returns _).bind fun r _ => ?_
      cases r with
      | error message => exact .ok trivial
      | ok offset => exact .ok trivial
  split
  · refine (splitVariable_returns _).bind fun r _ => ?_
    cases r with
    | error message => exact .ok trivial
    | ok parts => exact .ok trivial
  split
  · split
    · exact .ok trivial
    · split
      · exact .ok trivial
      · exact .ok trivial
  split
  · split
    · exact .ok trivial
    · exact .ok trivial
  split
  · split
    · exact .ok trivial
    · split
      · exact .ok trivial
      · exact .ok trivial
  · exact .ok trivial

/-! ## Errors -/

def RenderError.byteOffset : RenderError → Nat
  | .invalidMarkup _ byteOffset _ _ _ _ | .unknownBinding _ byteOffset _ _ | .normalization byteOffset _ _ _ => byteOffset

theorem lineColumn_returns {source : Str} {byteOffset : Nat} (h : IsBoundary source byteOffset) :
    Returns (lineColumn source byteOffset) fun _ => True := by
  obtain ⟨before, hbefore⟩ := sliceTo_of_boundary h
  exact ⟨_, by rw [lineColumn, Nat.min_eq_left h.le, hbefore]; rfl, trivial⟩

theorem invalid_returns {source : Str} {byteOffset : Nat} (h : IsBoundary source byteOffset) (dialect : String)
    (literal : Str) (message : String) :
    Returns (RenderError.invalid dialect source byteOffset literal message) fun e => e.byteOffset = byteOffset := by
  unfold RenderError.invalid
  exact (lineColumn_returns h).bind fun _ _ => .ok rfl

theorem rebaseRenderError_returns {error : RenderError} {source : Str} {base : Nat}
    (h : IsBoundary source (base + error.byteOffset)) :
    Returns (rebaseRenderError error source base) fun e => e.byteOffset = base + error.byteOffset := by
  cases error with
  | invalidMarkup dialect byteOffset line column literal message => exact invalid_returns h dialect literal message
  | unknownBinding name byteOffset line column => exact (lineColumn_returns h).bind fun _ _ => .ok rfl
  | normalization byteOffset line column timeError => exact (lineColumn_returns h).bind fun _ _ => .ok rfl

/-! ## Markers -/

/-- What a marker at `index` says of the source. -/
def MarkerScan.Fits (source : Str) (index : Nat) : MarkerScan E → Prop
  | .noMatch => True
  | .parsed node stop => node.sourceRange = ⟨index, stop⟩ ∧ Ahead source index stop
  | .malformedIntent error range => error.byteOffset = index ∧ range.start = index ∧ Ahead source index range.stop

theorem malformedDirective_returns {source : Str} {index contentEnd : Nat} (hb : IsBoundary source index)
    (ha : Ahead source index (contentEnd + 1)) (message : String) :
    Returns (malformedDirective (E := E) source index contentEnd message) (MarkerScan.Fits source index) := by
  obtain ⟨literal, hliteral⟩ := slice_of_boundary hb ha.2 (Nat.le_of_lt ha.1)
  rw [malformedDirective, hliteral]
  exact (invalid_returns hb _ _ _).bind fun error he => .ok ⟨he, rfl, ha⟩

theorem directive_ne_nil {literal : Str} {format : DateTimeFormat} (h : (literal, format) ∈ directives) :
    0 < len literal :=
  of_decide_eq_true (List.all_eq_true.mp (by decide : directives.all (fun d => 0 < len d.1) = true) _ h)

theorem scanMainMarker_returns {source : Str} {index : Nat} (hb : IsBoundary source index) :
    Returns (scanMainMarker (E := E) source index) (MarkerScan.Fits source index) := by
  refine (isBoundaryBefore_returns hb).bind fun before _ => ?_
  split
  swap
  · exact .ok trivial
  obtain ⟨pre, rest, rfl, rfl⟩ := isBoundary_iff.1 hb
  rw [sliceFrom_append]
  simp only [bind, Except.bind]
  split
  · exact .ok trivial
  rename_i literal format hfind
  have hpos := directive_ne_nil (List.mem_of_find?_eq_some hfind)
  have hstarts : literal.isPrefixOf rest = true := by simpa using List.find?_some hfind
  obtain ⟨post, rfl⟩ := isPrefixOf_iff.1 hstarts
  rw [show sliceFrom (pre ++ (literal ++ post)) (len pre + len literal) = .ok post from
    sliceFrom_eq_ok_iff.2 ⟨pre ++ literal, by simp, by simp⟩]
  dsimp only
  split
  · refine (invalid_returns hb _ _ _).bind fun error he => .ok ⟨he, rfl, ?_, isBoundary_len _⟩
    simp only [len_append]
    omega
  rename_i closeOffset hclose
  obtain ⟨content, tail, rfl, rfl⟩ := find_eq_some hclose
  have hone : len [')'] = 1 := by decide
  have hslice : slice (pre ++ (literal ++ (content ++ ([')'] ++ tail)))) (len pre + len literal)
      (len pre + len literal + len content) = .ok content :=
    slice_eq_ok_iff.2 ⟨pre ++ literal, [')'] ++ tail, by simp, by simp, rfl⟩
  have ha : Ahead (pre ++ (literal ++ (content ++ ([')'] ++ tail)))) (len pre)
      (len pre + len literal + len content + 1) := by
    refine ⟨by omega, isBoundary_iff.2 ⟨pre ++ (literal ++ (content ++ [')'])), tail, by simp, ?_⟩⟩
    simp only [len_append, hone]
    omega
  rw [hslice]
  refine (parseExpression_returns content).bind fun expression _ => ?_
  cases expression with
  | error message => exact malformedDirective_returns hb ha message
  | ok expression =>
    dsimp only
    split
    · exact malformedDirective_returns hb ha _
    · exact .ok ⟨rfl, ha⟩

/-! ## The LLM markers -/

theorem malformedLlm_returns {source : Str} {index stop : Nat} (hb : IsBoundary source index)
    (ha : Ahead source index stop) (message : String) :
    Returns (malformedLlm (E := E) source index stop message) (MarkerScan.Fits source index) := by
  obtain ⟨literal, hliteral⟩ := slice_of_boundary hb ha.2 (Nat.le_of_lt ha.1)
  rw [malformedLlm, Nat.min_eq_left ha.2.le, hliteral]
  exact (invalid_returns hb _ _ _).bind fun error he => .ok ⟨he, rfl, ha⟩

theorem malformedLlm_error {source : Str} {stop : Nat} (hl : stop ≤ len source) (hs : ¬ IsBoundary source stop)
    (index : Nat) (message : String) : malformedLlm (E := E) source index stop message = .error .slice := by
  rw [malformedLlm, Nat.min_eq_left hl, slice_error hs]
  rfl

/-- A literal that ends with a slash. -/
theorem parseNowLiteral_returns {source : Str} {index last : Nat} (hb : IsBoundary source index) (hlt : index < last)
    (hslash : byteAt source last = some (byteOf '/')) :
    Returns (parseNowLiteral (E := E) source index (last + 1)) (MarkerScan.Fits source index) := by
  have hends := isBoundary_of_byte (by decide) hslash
  have ha : Ahead source index (last + 1) := ⟨by omega, hends.2⟩
  obtain ⟨pre, post, rfl, rfl⟩ := byte_ascii (by decide) hslash
  have hone : len ['/'] = 1 := by decide
  have htail : slice (pre ++ '/' :: post) (len pre) (len pre + 1) = .ok ['/'] := by
    have := slice_append pre ['/'] post
    rwa [hone] at this
  obtain ⟨body, hbody⟩ := slice_of_boundary hb hends.1 (Nat.le_of_lt hlt)
  rw [parseNowLiteral, slice_join hbody htail]
  have hto : sliceTo (body ++ ['/']) (len (body ++ ['/']) - 1) = .ok body := by
    rw [len_append, hone, Nat.add_sub_cancel]
    exact sliceTo_append body _
  simp only [bind, Except.bind, hto]
  refine (parseExpression_returns body).bind fun r _ => ?_
  cases r with
  | error message => exact malformedLlm_returns hb ha message
  | ok expression => exact .ok ⟨rfl, ha⟩

/-- What the loop over the pairs says of the source. -/
def PairScan.Fits (source : Str) (first : Nat) : PairScan → Prop
  | .unfinished => True
  | .malformed stop _ => first ≤ stop ∧ stop ≤ len source
  | .complete cursor => first ≤ cursor ∧ byteAt source cursor = some (byteOf '/')

theorem PairScan.Fits.mono {source : Str} {first first' : Nat} {r : PairScan} (h : r.Fits source first')
    (hle : first ≤ first') : r.Fits source first := by
  cases r with
  | unfinished => trivial
  | malformed stop message => exact ⟨Nat.le_trans hle h.1, h.2⟩
  | complete cursor => exact ⟨Nat.le_trans hle h.1, h.2⟩

theorem scanPairs_fits (source : Str) (pairsLeft first : Nat) (hf : first ≤ len source) :
    (scanPairs source pairsLeft first).Fits source first := by
  induction pairsLeft generalizing first with
  | zero => exact ⟨Nat.le_refl _, hf⟩
  | succ pairsLeft ih =>
    have hge := runEnd_ge isDigitByte source first
    have hle := runEnd_le (p := isDigitByte) hf
    unfold scanPairs
    dsimp only
    split
    · split
      · trivial
      · exact ⟨hge, hle⟩
    split
    · trivial
    rename_i unit hunit
    have hlt := byteAt_lt hunit
    split
    · exact ⟨by omega, hlt⟩
    split
    · rename_i hslash
      exact ⟨by omega, hslash⟩
    split
    · trivial
    · rename_i hmore
      exact (ih (runEnd isDigitByte source first + 1) (by omega)).mono (by omega)

theorem bytesMatch_spec {source : Str} {i : Nat} {tests : List (UInt8 → Bool)} (h : bytesMatch source i tests = true)
    {k : Nat} (hk : k < tests.length) : ∃ b, byteAt source (i + k) = some b ∧ tests[k] b = true := by
  induction tests generalizing i k with
  | nil => simp at hk
  | cons test tests ih =>
    rw [bytesMatch, Bool.and_eq_true] at h
    cases k with
    | zero =>
      obtain ⟨b, hb, ht⟩ := (Option.any_eq_true _ _).mp h.1
      exact ⟨b, hb, ht⟩
    | succ k =>
      have := ih h.2 (Nat.lt_of_succ_lt_succ hk)
      rwa [Nat.add_assoc, Nat.add_comm 1 k] at this

/-- Tests that only ASCII bytes pass. -/
def AsciiTests (tests : List (UInt8 → Bool)) : Prop := ∀ test ∈ tests, ∀ b, test b = true → b.toNat < 128

theorem ascii_of_eq (c : Char) (hc : isAscii c = true) (b : UInt8) (h : decide (b = byteOf c) = true) : b.toNat < 128 := by
  rw [decide_eq_true_eq] at h
  rw [h, byteOf_toNat hc]
  exact of_decide_eq_true hc

theorem asciiTests_clockPrefix : AsciiTests clockPrefix := by
  simp only [AsciiTests, clockPrefix, List.forall_mem_cons]
  exact ⟨fun _ => ascii_of_digit, fun _ => ascii_of_digit, ascii_of_eq _ (by decide), ascii_of_eq _ (by decide),
    ascii_of_eq _ (by decide), by simp⟩

theorem asciiTests_clockSuffix : AsciiTests clockSuffix := by
  simp only [AsciiTests, clockSuffix, List.forall_mem_cons]
  exact ⟨fun _ => ascii_of_digit, fun _ => ascii_of_digit, ascii_of_eq _ (by decide), by simp⟩

theorem asciiTests_datePrefix : AsciiTests datePrefix := by
  simp only [AsciiTests, datePrefix, List.forall_mem_cons]
  exact ⟨fun _ => ascii_of_digit, fun _ => ascii_of_digit, fun _ => ascii_of_digit, fun _ => ascii_of_digit,
    ascii_of_eq _ (by decide), fun _ => ascii_of_digit, fun _ => ascii_of_digit, ascii_of_eq _ (by decide),
    fun _ => ascii_of_digit, fun _ => ascii_of_digit, by simp⟩

theorem bytesMatch_boundary {source : Str} {i k : Nat} {tests : List (UInt8 → Bool)} (ht : AsciiTests tests)
    (h : bytesMatch source i tests = true) (hpos : 0 < tests.length) (hk : k ≤ tests.length) :
    IsBoundary source (i + k) := by
  by_cases hlt : k < tests.length
  · obtain ⟨b, hb, hp⟩ := bytesMatch_spec h hlt
    exact (isBoundary_of_ascii (ht _ (List.getElem_mem hlt) b hp) hb).1
  · obtain ⟨b, hb, hp⟩ := bytesMatch_spec h (k := tests.length - 1) (by omega)
    have := (isBoundary_of_ascii (ht _ (List.getElem_mem _) b hp) hb).2
    rwa [Nat.add_assoc, Nat.sub_add_cancel hpos, Nat.le_antisymm (Nat.le_of_not_lt hlt) hk] at this

theorem parsedLlmTime_returns {source : Str} {index stop : Nat} (hb : IsBoundary source index)
    (ha : Ahead source index stop) (text : Str) :
    Returns (parsedLlmTime (E := E) source index stop text) (MarkerScan.Fits source index) := by
  refine (parseExpression_returns text).bind fun r _ => ?_
  cases r with
  | error message => exact malformedLlm_returns hb ha message
  | ok expression => exact .ok ⟨rfl, ha⟩

/-- The marker has the shape of a clock whose eight bytes end inside of a character. -/
def ClockSplits (source : Str) (index : Nat) : Prop :=
  bytesMatch source index clockPrefix = true ∧ index + 8 ≤ len source ∧ ¬ IsBoundary source (index + 8)

/-- The marker has the shape of a date and a clock whose nineteen bytes end inside of a character. -/
def DateTimeSplits (source : Str) (index : Nat) : Prop :=
  bytesMatch source index datePrefix = true ∧
    (byteAt source (index + 10) = some (byteOf ' ') ∨ byteAt source (index + 10) = some (byteOf 'T')) ∧
    bytesMatch source (index + 11) clockPrefix = true ∧ index + 19 ≤ len source ∧ ¬ IsBoundary source (index + 19)

/-- The marker is `now` with a signed offset, in which the byte in the place of a unit is not a character. -/
def UnitSplits (source : Str) (index : Nat) : Prop :=
  (∃ rest, sliceFrom source index = .ok ("now".toList ++ rest)) ∧
    (byteAt source (index + 3) = some (byteOf '+') ∨ byteAt source (index + 3) = some (byteOf '-')) ∧
    ∃ stop message, scanPairs source 16 (index + 4) = .malformed stop message ∧ ¬ IsBoundary source stop

variable (E) in
/-- The window of the LLM marker at `index` ends inside of a character. -/
def Splits (source : Str) (index : Nat) : Prop :=
  isBoundaryBefore E source index = .ok true ∧
    (UnitSplits source index ∨ ClockSplits source index ∨ DateTimeSplits source index)

theorem clockSuffix_boundary {source : Str} {i : Nat} (h : bytesMatch source i clockSuffix = true) :
    IsBoundary source (i + 2) ∧ IsBoundary source (i + 3) :=
  ⟨bytesMatch_boundary asciiTests_clockSuffix h (by decide) (by decide),
    bytesMatch_boundary asciiTests_clockSuffix h (by decide) (by decide)⟩

theorem clockPrefix_boundary {source : Str} {i : Nat} (h : bytesMatch source i clockPrefix = true) :
    IsBoundary source (i + 2) ∧ IsBoundary source (i + 5) :=
  ⟨bytesMatch_boundary asciiTests_clockPrefix h (by decide) (by decide),
    bytesMatch_boundary asciiTests_clockPrefix h (by decide) (by decide)⟩

/-- A part of a part. -/
theorem slice_in_slice {s mid : Str} {i j k l : Nat} (h : slice s i j = .ok mid) (hk : IsBoundary s (i + k))
    (hl : IsBoundary s (i + l)) (hkl : k ≤ l) (hle : i + l ≤ j) : ∃ part, slice mid k l = .ok part :=
  slice_of_boundary (isBoundary_in_slice h hk (by omega)) (isBoundary_in_slice h hl hle) hkl

theorem parseLlmClock_returns {source : Str} {index : Nat} (hb : IsBoundary source index)
    (hp : bytesMatch source index clockPrefix = true) (hs : ¬ ClockSplits source index) :
    Returns (parseLlmClock (E := E) source index) (MarkerScan.Fits source index) := by
  unfold parseLlmClock
  dsimp only
  split
  · exact .ok trivial
  rename_i hlen
  have hstop : IsBoundary source (index + 8) := Decidable.not_not.mp fun h => hs ⟨hp, by omega, h⟩
  have ha : Ahead source index (index + 8) := ⟨by omega, hstop⟩
  split
  · exact malformedLlm_returns hb ha _
  rename_i hsuffix
  rw [Bool.not_eq_false] at hsuffix
  obtain ⟨literal, hliteral⟩ := slice_of_boundary hb hstop (by omega)
  have htwo : IsBoundary source (index + 2) := (clockPrefix_boundary hp).1
  have hfive : IsBoundary source (index + 5) := (clockPrefix_boundary hp).2
  have hseven : IsBoundary source (index + 7) := (clockSuffix_boundary hsuffix).1
  obtain ⟨hours, hh⟩ := sliceTo_of_boundary (isBoundary_in_slice hliteral htwo (by omega))
  obtain ⟨minutes, hm⟩ := slice_in_slice hliteral hfive hseven (by omega) (by omega)
  rw [hliteral]
  simp only [bind, Except.bind, hh, hm]
  exact parsedLlmTime_returns hb ha _

theorem parseLlmClock_error {source : Str} {index : Nat} (hs : ClockSplits source index) :
    parseLlmClock (E := E) source index = .error .slice := by
  obtain ⟨-, hlen, hstop⟩ := hs
  have hsuffix : bytesMatch source (index + 5) clockSuffix = false := by
    rw [← Bool.not_eq_true]
    exact fun h => hstop (clockSuffix_boundary h).2
  rw [parseLlmClock, if_neg (by omega), if_pos hsuffix]
  exact malformedLlm_error hlen hstop _ _

theorem parseLlmDateTime_returns {source : Str} {index : Nat} (hb : IsBoundary source index)
    (hd : bytesMatch source index datePrefix = true)
    (hsep : byteAt source (index + 10) = some (byteOf ' ') ∨ byteAt source (index + 10) = some (byteOf 'T'))
    (hp : bytesMatch source (index + 11) clockPrefix = true) (hs : ¬ DateTimeSplits source index) :
    Returns (parseLlmDateTime (E := E) source index) (MarkerScan.Fits source index) := by
  unfold parseLlmDateTime
  dsimp only
  split
  · exact .ok trivial
  rename_i hlen
  have hstop : IsBoundary source (index + 19) := Decidable.not_not.mp fun h => hs ⟨hd, hsep, hp, by omega, h⟩
  have ha : Ahead source index (index + 19) := ⟨by omega, hstop⟩
  split
  · exact malformedLlm_returns hb ha _
  rename_i hsuffix
  rw [Bool.not_eq_false] at hsuffix
  obtain ⟨literal, hliteral⟩ := slice_of_boundary hb hstop (by omega)
  have hten : IsBoundary source (index + 10) := bytesMatch_boundary asciiTests_datePrefix hd (by decide) (by decide)
  have heleven : IsBoundary source (index + 11) :=
    hsep.elim (fun h => (isBoundary_of_byte (by decide) h).2) fun h => (isBoundary_of_byte (by decide) h).2
  have hthirteen : IsBoundary source (index + 13) := (clockPrefix_boundary hp).1
  have hsixteen : IsBoundary source (index + 16) := (clockPrefix_boundary hp).2
  have heighteen : IsBoundary source (index + 18) := (clockSuffix_boundary hsuffix).1
  obtain ⟨date, hdate⟩ := sliceTo_of_boundary (isBoundary_in_slice hliteral hten (by omega))
  obtain ⟨hours, hh⟩ := slice_in_slice hliteral heleven hthirteen (by omega) (by omega)
  obtain ⟨minutes, hm⟩ := slice_in_slice hliteral hsixteen heighteen (by omega) (by omega)
  rw [hliteral]
  simp only [bind, Except.bind, hdate, hh, hm]
  exact parsedLlmTime_returns hb ha _

theorem parseLlmDateTime_error {source : Str} {index : Nat} (hs : DateTimeSplits source index) :
    parseLlmDateTime (E := E) source index = .error .slice := by
  obtain ⟨-, -, -, hlen, hstop⟩ := hs
  have hsuffix : bytesMatch source (index + 16) clockSuffix = false := by
    rw [← Bool.not_eq_true]
    exact fun h => hstop (clockSuffix_boundary h).2
  rw [parseLlmDateTime, if_neg (by omega), if_pos hsuffix]
  exact malformedLlm_error hlen hstop _ _

/-- A date does not begin like a clock. -/
theorem not_clockPrefix_of_datePrefix {source : Str} {index : Nat} (h : bytesMatch source index datePrefix = true) :
    bytesMatch source index clockPrefix = false := by
  rw [← Bool.not_eq_true]
  intro h'
  obtain ⟨b, hb, hdigit⟩ := bytesMatch_spec h (k := 2) (by decide)
  obtain ⟨b', hb', hcolon⟩ := bytesMatch_spec h' (k := 2) (by decide)
  rw [hb] at hb'
  cases hb'
  have hcolon : b = byteOf ':' := of_decide_eq_true hcolon
  subst hcolon
  exact absurd hdigit (by decide)

theorem parseLlmNumeric_returns {source : Str} {index : Nat} (hb : IsBoundary source index)
    (hc : ¬ ClockSplits source index) (hd : ¬ DateTimeSplits source index) :
    Returns (parseLlmNumeric (E := E) source index) (MarkerScan.Fits source index) := by
  unfold parseLlmNumeric
  split
  · rename_i hp
    exact parseLlmClock_returns hb hp hc
  split
  swap
  · exact .ok trivial
  rename_i hdate
  split
  swap
  · exact .ok trivial
  rename_i hsep
  split
  swap
  · exact .ok trivial
  rename_i hp
  exact parseLlmDateTime_returns hb hdate hsep hp hd

theorem parseLlmNumeric_error {source : Str} {index : Nat} (h : ClockSplits source index ∨ DateTimeSplits source index) :
    parseLlmNumeric (E := E) source index = .error .slice := by
  rcases h with h | h
  · rw [parseLlmNumeric, if_pos h.1]
    exact parseLlmClock_error h
  · rw [parseLlmNumeric, not_clockPrefix_of_datePrefix h.1, if_neg (by decide), if_pos h.1, if_pos h.2.1, if_pos h.2.2.1]
    exact parseLlmDateTime_error h

theorem parseLlmNow_returns {source rest : Str} {index : Nat} (hr : sliceFrom source index = .ok ("now".toList ++ rest))
    (hs : ¬ UnitSplits source index) :
    Returns (parseLlmNow (E := E) source index) (MarkerScan.Fits source index) := by
  obtain ⟨pre, rfl, rfl⟩ := sliceFrom_eq_ok_iff.1 hr
  have hb := isBoundary_append pre ("now".toList ++ rest)
  have hthree : len "now".toList = 3 := by decide
  unfold parseLlmNow
  dsimp only
  split
  · rename_i hslash
    exact parseNowLiteral_returns hb (by omega) hslash
  split
  swap
  · exact .ok trivial
  rename_i hsign
  have hfour : len pre + 4 ≤ len (pre ++ ("now".toList ++ rest)) := by
    rcases hsign with h | h
    · exact byteAt_lt h
    · exact byteAt_lt h
  have hpairs := scanPairs_fits _ 16 _ hfour
  split
  · exact .ok trivial
  · rename_i stop message hm
    rw [hm] at hpairs
    have hstop : IsBoundary (pre ++ ("now".toList ++ rest)) stop :=
      Decidable.not_not.mp fun h => hs ⟨⟨rest, hr⟩, hsign, stop, message, hm, h⟩
    exact malformedLlm_returns hb ⟨Nat.lt_of_lt_of_le (by omega) hpairs.1, hstop⟩ message
  · rename_i cursor hm
    rw [hm] at hpairs
    exact parseNowLiteral_returns hb (Nat.lt_of_lt_of_le (by omega) hpairs.1) hpairs.2

theorem parseLlmNow_error {source : Str} {index : Nat} (h : UnitSplits source index) :
    parseLlmNow (E := E) source index = .error .slice := by
  obtain ⟨-, hsign, stop, message, hm, hstop⟩ := h
  have hslash : byteAt source (index + 3) ≠ some (byteOf '/') := by
    rcases hsign with h | h
    · rw [h]
      decide
    · rw [h]
      decide
  have hfour : index + 4 ≤ len source := by
    rcases hsign with h | h
    · exact byteAt_lt h
    · exact byteAt_lt h
  have hpairs := scanPairs_fits source 16 _ hfour
  rw [hm] at hpairs
  rw [parseLlmNow, if_neg hslash, if_pos hsign, hm]
  exact malformedLlm_error hpairs.2 hstop index message

theorem scanLlmMarker_returns {source : Str} {index : Nat} (hb : IsBoundary source index) (hs : ¬ Splits E source index) :
    Returns (scanLlmMarker (E := E) source index) (MarkerScan.Fits source index) := by
  obtain ⟨before, hbefore, -⟩ := isBoundaryBefore_returns (E := E) hb
  obtain ⟨rest, hrest⟩ := sliceFrom_of_boundary hb
  rw [scanLlmMarker, hbefore]
  simp only [bind, Except.bind, hrest]
  split
  swap
  · exact .ok trivial
  rename_i hword
  subst hword
  split
  · rename_i hnow
    obtain ⟨rest, rfl⟩ := isPrefixOf_iff.1 hnow
    exact parseLlmNow_returns hrest fun h => hs ⟨hbefore, .inl h⟩
  split
  · exact parseLlmNumeric_returns hb (fun h => hs ⟨hbefore, .inr (.inl h)⟩) fun h => hs ⟨hbefore, .inr (.inr h)⟩
  · exact .ok trivial

/-- What a numeric marker begins with. -/
theorem digit_of_splits {source : Str} {index : Nat} (h : ClockSplits source index ∨ DateTimeSplits source index) :
    ∃ b, byteAt source index = some b ∧ isDigitByte b = true := by
  rcases h with h | h
  · exact bytesMatch_spec h.1 (k := 0) (by decide)
  · exact bytesMatch_spec h.1 (k := 0) (by decide)

theorem scanLlmMarker_error {source : Str} {index : Nat} (hb : IsBoundary source index) (hs : Splits E source index) :
    scanLlmMarker (E := E) source index = .error .slice := by
  obtain ⟨hbefore, hs⟩ := hs
  obtain ⟨rest, hrest⟩ := sliceFrom_of_boundary hb
  rw [scanLlmMarker, hbefore]
  simp only [bind, Except.bind, hrest, if_true]
  rcases hs with hs | hs
  · obtain ⟨rest', hrest'⟩ := hs.1
    rw [hrest] at hrest'
    cases hrest'
    rw [if_pos (isPrefixOf_iff.2 ⟨rest', rfl⟩)]
    exact parseLlmNow_error hs
  · obtain ⟨b, hbyte, hdigit⟩ := digit_of_splits hs
    have hnow : "now".toList.isPrefixOf rest = false := by
      rw [← Bool.not_eq_true]
      intro h
      obtain ⟨post, rfl⟩ := isPrefixOf_iff.1 h
      obtain ⟨pre, rfl, rfl⟩ := sliceFrom_eq_ok_iff.1 hrest
      rw [byteAt_head] at hbyte
      have hn : (bytes ("now".toList ++ post)).head? = some (byteOf 'n') := rfl
      rw [hn] at hbyte
      cases hbyte
      exact absurd hdigit (by decide)
    rw [if_neg (by rw [hnow]; decide), if_pos (by rw [hbyte]; exact hdigit)]
    exact parseLlmNumeric_error hs

/-! ## Tokens -/

def RichNode.isLink : RichNode E → Bool
  | .link _ _ _ => true
  | .text _ | .dateTime _ | .invalidTime _ _ | .customEmoji _ _ => false

/-- What a token at `index` says of the source. -/
def Token.Fits (source : Str) (index : Nat) : Token E → Prop
  | .skip stop | .uri stop _ => Ahead source index stop
  | .unfinished => True
  | .failed error => IsBoundary source error.byteOffset
  | .node found stop => found.range? = some ⟨index, stop⟩ ∧ Ahead source index stop ∧ found.isLink = false
  | .link _ labelStart labelEnd stop =>
    index < labelStart ∧ IsBoundary source labelStart ∧ labelStart ≤ labelEnd ∧ IsBoundary source labelEnd ∧
      labelEnd < stop ∧ IsBoundary source stop

theorem SourceRange.shift_zero (range : SourceRange) : range.shift 0 = range := by
  cases range
  simp [SourceRange.shift]

theorem markerToken_returns {dialect : Dialect} {source : Str} {index : Nat} (hb : IsBoundary source index)
    (hl : index < len source) {marker : MarkerScan E} (h : marker.Fits source index) :
    Returns (markerToken dialect source 0 index marker) (Token.Fits source index) := by
  cases marker with
  | noMatch => exact .map (nextCharBoundary_returns hb hl)
  | parsed node stop =>
    refine .ok ⟨?_, h.2, rfl⟩
    rw [RichNode.range?, SourceRange.shift_zero, h.1]
  | malformedIntent error range =>
    obtain ⟨herror, hstart, ha⟩ := h
    cases dialect with
    | main =>
      have hb' : IsBoundary source (0 + error.byteOffset) := by rwa [Nat.zero_add, herror]
      exact .map ((rebaseRenderError_returns hb').mono fun e he => by rw [Token.Fits, he]; exact hb')
    | llm =>
      refine .ok ⟨?_, ?_, rfl⟩
      · rw [RichNode.range?, SourceRange.shift_zero, hstart]
      · rw [Nat.min_eq_left ha.2.le]
        exact ha

theorem linkToken_returns (source : Str) (index : Nat) :
    Returns (linkToken (E := E) source index) fun r => ∀ token, r = some token → token.Fits source index := by
  unfold linkToken
  split
  · rename_i hbracket
    refine (parseMarkdownLink_returns source index).bind fun r hr => ?_
    split
    · exact .ok fun _ he => by cases he
    · refine .ok fun token he => ?_
      cases he
      have hat := hr _ _ _ rfl
      exact ⟨Nat.lt_succ_self _, (isBoundary_of_byte (by decide) hbracket).2, hat.label, hat.labelEnd_boundary,
        hat.labelEnd_lt, hat.stop_boundary⟩
  · exact .ok fun _ he => by cases he

theorem emojiToken_returns (source : Str) (index : Nat) :
    Returns (emojiToken (E := E) source 0 index) fun r => ∀ token, r = some token → token.Fits source index := by
  unfold emojiToken
  split
  · rename_i hcolon
    refine (parseCustomEmoji_returns (E := E) hcolon).bind fun r hr => ?_
    split
    · exact .ok fun _ he => by cases he
    · refine .ok fun token he => ?_
      cases he
      exact ⟨by simp [RichNode.range?], hr _ _ rfl, rfl⟩
  · exact .ok fun _ he => by cases he

/-- The marker of the dialect gives a value at `index`. -/
def Marks (dialect : Dialect) (source : Str) (index : Nat) : Prop :=
  Returns (dialect.marker (E := E) source index) (MarkerScan.Fits source index)

theorem nextToken_returns {dialect : Dialect} {source : Str} {index : Nat} (hb : IsBoundary source index)
    (hl : index < len source) (hm : Marks (E := E) dialect source index) :
    Returns (nextToken (E := E) dialect source 0 index) (Token.Fits source index) := by
  obtain ⟨pre, rest, rfl, rfl⟩ := isBoundary_iff.1 hb
  rw [nextToken, sliceFrom_append]
  dsimp only [bind, Except.bind]
  split
  · rename_i hfence
    obtain ⟨post, rfl⟩ := isPrefixOf_iff.1 hfence
    exact .map (skipDelimited_returns "```".toList (by decide))
  split
  · rename_i htick
    rw [byteAt_head, head?_bytes_eq_iff (by decide)] at htick
    obtain ⟨post, rfl⟩ := htick
    exact .map skipInlineCode_returns
  split
  · exact .map (skipEscaped_returns hb hl)
  refine (scanUri_returns (E := E) hb).bind fun uri huri => ?_
  cases uri with
  | some found => exact .ok (huri _ _ rfl)
  | none =>
    dsimp only
    refine (linkToken_returns (E := E) (pre ++ rest) (len pre)).bind fun link hlink => ?_
    cases link with
    | some token => exact .ok (hlink _ rfl)
    | none =>
      refine (emojiToken_returns (E := E) (pre ++ rest) (len pre)).bind fun emoji hemoji => ?_
      cases emoji with
      | some token => exact .ok (hemoji _ rfl)
      | none => exact hm.bind fun marker hmarker => markerToken_returns hb hl hmarker

/-- The frontends give a value at each boundary, and it says where it ends. -/
theorem nextToken_main {source : Str} {index : Nat} (hb : IsBoundary source index) (hl : index < len source) :
    Returns (nextToken (E := E) .main source 0 index) (Token.Fits source index) :=
  nextToken_returns hb hl (scanMainMarker_returns hb)

theorem nextToken_llm {source : Str} {index : Nat} (hb : IsBoundary source index) (hl : index < len source)
    (hs : ¬ Splits E source index) : Returns (nextToken (E := E) .llm source 0 index) (Token.Fits source index) :=
  nextToken_returns hb hl (scanLlmMarker_returns hb hs)

/-- No URI begins with another letter than those of the known schemes. -/
theorem scanUri_none {pre tail : Str} {c : Char} (hp : ∀ known ∈ uriPrefixes, known.head? ≠ some c)
    (hs : ∀ known ∈ telegramSchemes, known.head? ≠ some c.toLower) (hc : c ≠ '<') :
    scanUri E (pre ++ c :: tail) (len pre) = .ok none := by
  have hstarts : uriPrefixes.any (·.isPrefixOf (c :: tail)) = false := by
    rw [← Bool.not_eq_true, List.any_eq_true]
    rintro ⟨known, hk, hpre⟩
    obtain ⟨post, he⟩ := isPrefixOf_iff.1 hpre
    cases known with
    | nil => exact absurd hk (by decide)
    | cons d known =>
      cases he
      exact hp _ hk rfl
  have hopen : ¬ byteAt (pre ++ c :: tail) (len pre) = some (byteOf '<') := by
    rw [byteAt_head, head?_bytes_eq_iff (by decide)]
    rintro ⟨rest, he⟩
    cases he
    exact hc rfl
  rw [scanUri, sliceFrom_append]
  simp only [bind, Except.bind]
  rw [if_neg (by rw [hstarts]; decide), if_neg fun h => hopen h.1]
  split
  · rfl
  · rename_i scheme hscheme
    rw [if_neg]
    intro hmem
    have hhead : scheme.head? = some c := by
      unfold uriScheme at hscheme
      split at hscheme
      · cases hscheme
      dsimp only at hscheme
      split at hscheme
      · cases hscheme
      · rename_i first rest htake
        split at hscheme
        · cases hscheme
          have := List.takeWhile_prefix (· ≠ ':') (l := c :: tail)
          rw [htake] at this
          obtain ⟨t, ht⟩ := this
          cases ht
          rw [htake]
          rfl
        · cases hscheme
    refine hs _ hmem ?_
    rw [toAsciiLowercase, List.head?_map, hhead]
    rfl

theorem char_of_digitByte {s : Str} {i : Nat} {b : UInt8} (h : byteAt s i = some b) (hb : isDigitByte b = true) :
    ∃ pre d rest, s = pre ++ d :: rest ∧ len pre = i ∧ d.isDigit = true := by
  have hlt := ascii_of_digit hb
  obtain ⟨ha, hn⟩ := isAscii_ofNat hlt
  have hof : byteOf (Char.ofNat b.toNat) = b := by
    rw [byteOf, hn]
    simp
  obtain ⟨pre, rest, hs, hl⟩ := byte_ascii ha (by rw [h, hof] : byteAt s i = some (byteOf (Char.ofNat b.toNat)))
  refine ⟨pre, _, rest, hs, hl, ?_⟩
  have hv : (Char.ofNat b.toNat).val.toNat = b.toNat := hn
  simp only [isDigitByte, Bool.and_eq_true, decide_eq_true_eq, UInt8.le_iff_toNat_le] at hb
  simp only [Char.isDigit, ge_iff_le, Bool.and_eq_true, decide_eq_true_eq, UInt32.le_iff_toNat_le, hv]
  exact hb

theorem toLower_digit {d : Char} (h : d.isDigit = true) : d.toLower = d := by
  simp only [Char.isDigit, ge_iff_le, Bool.and_eq_true, decide_eq_true_eq, UInt32.le_iff_toNat_le] at h
  unfold Char.toLower
  rw [dif_neg]
  intro hu
  have hge : (65 : UInt32).toNat ≤ d.val.toNat := UInt32.le_iff_toNat_le.mp hu.1
  have hlt : d.val.toNat ≤ (57 : UInt32).toNat := h.2
  exact absurd (Nat.le_trans hge hlt) (by decide)

/-- What the marker cut inside of a character begins with. -/
theorem head_of_splits {source : Str} {index : Nat} (h : Splits E source index) :
    ∃ pre c tail, source = pre ++ c :: tail ∧ len pre = index ∧ (c = 'n' ∨ c.isDigit = true) := by
  rcases h.2 with h | h
  · obtain ⟨rest, hr⟩ := h.1
    obtain ⟨pre, rfl, rfl⟩ := sliceFrom_eq_ok_iff.1 hr
    exact ⟨pre, 'n', 'o' :: 'w' :: rest, rfl, rfl, .inl rfl⟩
  · obtain ⟨b, hb, hd⟩ := digit_of_splits h
    obtain ⟨pre, d, rest, rfl, rfl, hd⟩ := char_of_digitByte hb hd
    exact ⟨pre, d, rest, rfl, rfl, .inr hd⟩

theorem scanUri_none_of_splits {pre tail : Str} {c : Char} (h : c = 'n' ∨ c.isDigit = true) :
    scanUri E (pre ++ c :: tail) (len pre) = .ok none := by
  rcases h with rfl | h
  · exact scanUri_none (by decide) (by decide) (by decide)
  have hnot {known : Str} (hk : known.head?.any Char.isDigit = false) : known.head? ≠ some c := by
    intro he
    rw [he, Option.any_some, h] at hk
    cases hk
  refine scanUri_none (fun known hk => hnot ?_) (fun known hk => ?_) ?_
  · exact List.all_eq_true.mp (by decide : uriPrefixes.all (fun p => p.head?.any Char.isDigit = false) = true) known hk
      |> of_decide_eq_true
  · rw [toLower_digit h]
    exact hnot (List.all_eq_true.mp
      (by decide : telegramSchemes.all (fun p => p.head?.any Char.isDigit = false) = true) known hk |> of_decide_eq_true)
  · rintro rfl
    cases h

theorem nextToken_error {source : Str} {index : Nat} (hs : Splits E source index) :
    nextToken (E := E) .llm source 0 index = .error .slice := by
  obtain ⟨pre, c, tail, rfl, rfl, hc⟩ := head_of_splits hs
  have hnot (d : Char) (hd : d ≠ 'n' ∧ d.isDigit = false) : c ≠ d := by
    rintro rfl
    rcases hc with rfl | hc
    · exact hd.1 rfl
    · rw [hc] at hd
      cases hd.2
  have hbyte (d : Char) (ha : isAscii d = true) (hd : d ≠ 'n' ∧ d.isDigit = false) :
      ¬ byteAt (pre ++ c :: tail) (len pre) = some (byteOf d) := by
    rw [byteAt_head, head?_bytes_eq_iff ha]
    rintro ⟨rest, he⟩
    cases he
    exact hnot _ hd rfl
  have hfence : "```".toList.isPrefixOf (c :: tail) = false := by
    rw [← Bool.not_eq_true]
    intro h
    obtain ⟨post, he⟩ := isPrefixOf_iff.1 h
    cases he
    exact hnot '`' (by decide) rfl
  rw [nextToken, sliceFrom_append]
  simp only [bind, Except.bind]
  rw [if_neg (by rw [hfence]; decide), if_neg (hbyte _ (by decide) (by decide)),
    if_neg (hbyte _ (by decide) (by decide)), scanUri_none_of_splits hc]
  dsimp only
  rw [linkToken, if_neg (hbyte _ (by decide) (by decide)), emojiToken, if_neg (hbyte _ (by decide) (by decide))]
  dsimp only
  rw [Dialect.marker, scanLlmMarker_error (isBoundary_append _ _) hs]

end Teloxide.RichText
