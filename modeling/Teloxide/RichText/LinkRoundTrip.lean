import Teloxide.RichText.Tiling
import Teloxide.RichText.Render

/-!
# Links are read back

The scanner counts the parentheses of a destination and passes over what is escaped;
the printer escapes `)` and the backslash, and leaves `(` as it is. So the scanner finds
the parenthesis that the printer wrote iff there is no `(` in the destination
(`destinationEnd_escape`). The parser keeps the backslashes of the author in the
destination, and the printer escapes them again.

* `links_survive`: the links of a compiled document are read back as they were resolved
  and written iff no destination has a `(` and no literal one an escape.
-/
namespace Teloxide.RichText

open Teloxide.Core Teloxide.Core.Utf8

variable {E : Platform} {U : UrlLibrary}

/-! ## Escapes -/

/-- Backslash escapes removed. -/
def unescape : Str → Str
  | '\\' :: c :: rest => c :: unescape rest
  | c :: rest => c :: unescape rest
  | [] => []

/-- What the printer writes for a character of a destination. -/
def escapeDestinationChar (c : Char) : Str :=
  if c = '\\' then ['\\', '\\'] else if c = ')' then ['\\', ')'] else [c]

theorem escapeMarkdownDestination_eq (s : Str) : escapeMarkdownDestination s = s.flatMap escapeDestinationChar := by
  simp only [escapeMarkdownDestination, replaceChar, List.flatMap_assoc]
  congr 1
  funext c
  unfold escapeDestinationChar
  by_cases h₁ : c = '\\'
  · subst h₁
    rfl
  by_cases h₂ : c = ')'
  · subst h₂
    rfl
  · simp [h₁, h₂]

theorem unescape_cons {c : Char} (h : c ≠ '\\') (rest : Str) : unescape (c :: rest) = c :: unescape rest := by
  conv_lhs => unfold unescape
  split
  · rename_i he
    cases he
    exact absurd rfl h
  · rename_i he
    cases he
    rfl
  · rename_i he
    cases he

theorem unescape_escape (s : Str) : unescape (escapeMarkdownDestination s) = s := by
  rw [escapeMarkdownDestination_eq]
  induction s with
  | nil => rfl
  | cons c s ih =>
    rw [List.flatMap_cons, escapeDestinationChar]
    by_cases h₁ : c = '\\'
    · subst h₁
      rw [if_pos rfl]
      exact congrArg ('\\' :: ·) ih
    by_cases h₂ : c = ')'
    · subst h₂
      rw [if_neg h₁, if_pos rfl]
      exact congrArg (')' :: ·) ih
    · rw [if_neg h₁, if_neg h₂, List.singleton_append, unescape_cons h₁, ih]

theorem len_unescape (s : Str) : len (unescape s) ≤ len s := by
  induction s using unescape.induct with
  | case1 c rest ih =>
    rw [unescape, len_cons, len_cons, len_cons]
    omega
  | case2 c rest h ih =>
    rw [unescape, len_cons, len_cons]
    · omega
    · exact h
  | case3 => exact Nat.le_refl _

/-! ## The end of the destination -/

/-- The bytes that the scanner looks at. -/
def isDestinationMark (b : UInt8) : Prop := b = byteOf '\\' ∨ b = byteOf '(' ∨ b = byteOf ')'

theorem destinationEnd_plain {plain : List UInt8} (h : ∀ b ∈ plain, ¬ isDestinationMark b) (depth : Nat)
    (rest : List UInt8) :
    destinationEnd depth (plain ++ rest) = (destinationEnd depth rest).map (plain.length + ·) := by
  induction plain with
  | nil => simp
  | cons b plain ih =>
    have hb := h b List.mem_cons_self
    simp only [isDestinationMark, not_or] at hb
    rw [List.cons_append]
    conv_lhs => unfold destinationEnd
    rw [if_neg hb.1, if_neg hb.2.1, if_neg hb.2.2, ih fun b' h' => h b' (List.mem_cons_of_mem _ h'), Option.map_map]
    congr 1
    funext k
    simp only [Function.comp_apply, List.length_cons]
    omega

theorem destinationEnd_escaped (depth : Nat) (b : UInt8) (rest : List UInt8) :
    destinationEnd depth (byteOf '\\' :: b :: rest) = (destinationEnd depth rest).map (2 + ·) := by
  conv_lhs => unfold destinationEnd
  rw [if_pos rfl]

theorem not_mark_of_char {c : Char} (h₁ : c ≠ '\\') (h₂ : c ≠ '(') (h₃ : c ≠ ')') :
    ∀ b ∈ String.utf8EncodeChar c, ¬ isDestinationMark b := by
  intro b hb hmark
  by_cases ha : isAscii c = true
  · rw [encode_ascii ha] at hb
    have hb : b = byteOf c := List.mem_singleton.mp hb
    subst hb
    rcases hmark with h | h | h
    · exact h₁ ((byteOf_inj ha (by decide)).mp h)
    · exact h₂ ((byteOf_inj ha (by decide)).mp h)
    · exact h₃ ((byteOf_inj ha (by decide)).mp h)
  · have hge := encode_not_ascii (by simpa using ha) hb
    rcases hmark with rfl | rfl | rfl
    · exact absurd hge (by decide)
    · exact absurd hge (by decide)
    · exact absurd hge (by decide)

/-- Each `(` of the destination is still open behind it. -/
theorem destinationEnd_escape (d : Str) (depth : Nat) (rest : List UInt8) :
    destinationEnd depth (bytes (escapeMarkdownDestination d) ++ rest)
      = (destinationEnd (depth + d.count '(') rest).map (len (escapeMarkdownDestination d) + ·) := by
  rw [escapeMarkdownDestination_eq]
  induction d generalizing depth with
  | nil => simp
  | cons c d ih =>
    rw [List.flatMap_cons, bytes_append, List.append_assoc, len_append]
    have hcompose (k : Nat) (o : Option Nat) :
        (o.map (len (d.flatMap escapeDestinationChar) + ·)).map (k + ·)
          = o.map (k + len (d.flatMap escapeDestinationChar) + ·) := by
      rw [Option.map_map]
      congr 1
      funext n
      simp only [Function.comp_apply]
      omega
    by_cases h₁ : c = '\\'
    · subst h₁
      change destinationEnd depth (byteOf '\\' :: byteOf '\\' :: (bytes (d.flatMap escapeDestinationChar) ++ rest)) = _
      rw [destinationEnd_escaped, ih, hcompose]
      rfl
    by_cases h₃ : c = ')'
    · subst h₃
      change destinationEnd depth (byteOf '\\' :: byteOf ')' :: (bytes (d.flatMap escapeDestinationChar) ++ rest)) = _
      rw [destinationEnd_escaped, ih, hcompose]
      rfl
    rw [escapeDestinationChar, if_neg h₁, if_neg h₃]
    by_cases h₂ : c = '('
    · subst h₂
      change destinationEnd depth (byteOf '(' :: (bytes (d.flatMap escapeDestinationChar) ++ rest)) = _
      conv_lhs => unfold destinationEnd
      rw [if_neg (by decide), if_pos rfl, ih, hcompose, List.count_cons_self, Nat.add_right_comm, ← Nat.add_assoc]
      rfl
    · rw [bytes_cons, bytes_nil, List.append_nil, destinationEnd_plain (not_mark_of_char h₁ h₂ h₃), ih,
        String.length_utf8EncodeChar, hcompose, List.count_cons_of_ne h₂]
      simp

theorem bytes_drop (pre rest : Str) : (bytes (pre ++ rest)).drop (len pre) = bytes rest := by
  rw [bytes_append, ← length_bytes, List.drop_left]

/-- The scanner stops at the parenthesis that was written iff none is open in the destination. -/
theorem findMarkdownDestinationEnd_escape (pre d post : Str) :
    findMarkdownDestinationEnd (pre ++ (escapeMarkdownDestination d ++ ')' :: post)) (len pre)
        = some (len pre + len (escapeMarkdownDestination d)) ↔ '(' ∉ d := by
  rw [findMarkdownDestinationEnd, bytes_drop, bytes_append, bytes_cons_ascii (by decide), destinationEnd_escape,
    Nat.zero_add]
  conv_lhs => unfold destinationEnd
  rw [if_neg (by decide), if_neg (by decide), if_pos rfl]
  constructor
  · intro h hmem
    have hpos := List.count_pos_iff.mpr hmem
    obtain ⟨n, hn⟩ : ∃ n, d.count '(' = n + 1 := ⟨d.count '(' - 1, by omega⟩
    rw [hn] at h
    obtain ⟨k, hk, he⟩ := Option.map_eq_some_iff.mp h
    obtain ⟨l, hl, rfl⟩ := Option.map_eq_some_iff.mp hk
    obtain ⟨m, -, rfl⟩ := Option.map_eq_some_iff.mp hl
    omega
  · intro hmem
    rw [List.count_eq_zero.mpr hmem]
    rfl

/-! ## The label -/

/-- What comes behind the bracket does not matter. -/
theorem unescaped_take {needle : UInt8} {l : List UInt8} {k : Nat} (h : unescaped needle l = some k)
    (rest : List UInt8) : unescaped needle (l.take k ++ needle :: rest) = some k := by
  induction l using unescaped.induct needle generalizing k with
  | case1 => cases h
  | case2 => simp [unescaped] at h
  | case3 b tail ih =>
    unfold unescaped at h
    rw [if_pos rfl] at h
    obtain ⟨j, hj, rfl⟩ := Option.map_eq_some_iff.mp h
    rw [Nat.add_comm 2 j]
    change unescaped needle (byteOf '\\' :: b :: (tail.take j ++ needle :: rest)) = some (j + 2)
    unfold unescaped
    rw [if_pos rfl]
    dsimp only
    rw [ih hj, Option.map_some, Nat.add_comm]
  | case4 tail hb =>
    unfold unescaped at h
    rw [if_neg hb, if_pos rfl] at h
    cases h
    change unescaped needle (needle :: rest) = some 0
    unfold unescaped
    rw [if_neg hb, if_pos rfl]
  | case5 b tail hb hn ih =>
    unfold unescaped at h
    rw [if_neg hb, if_neg hn] at h
    obtain ⟨j, hj, rfl⟩ := Option.map_eq_some_iff.mp h
    rw [Nat.add_comm 1 j]
    change unescaped needle (b :: (tail.take j ++ needle :: rest)) = some (j + 1)
    unfold unescaped
    rw [if_neg hb, if_neg hn, ih hj, Option.map_some, Nat.add_comm]

/-- A label without an unescaped bracket ends at the bracket behind it. -/
theorem findUnescaped_copy {source label : Str} {i j : Nat} (hs : slice source i j = .ok label)
    (h : findUnescaped source i (byteOf ']') = some j) (pre post : Str) :
    findUnescaped (pre ++ (label ++ ']' :: post)) (len pre) (byteOf ']') = some (len pre + len label) := by
  obtain ⟨before, after, rfl, rfl, rfl⟩ := slice_eq_ok_iff.1 hs
  obtain ⟨k, hk, he⟩ := Option.map_eq_some_iff.mp h
  have hk' : k = (bytes label).length := by
    rw [length_bytes]
    omega
  subst hk'
  rw [bytes_drop, bytes_append] at hk
  have := unescaped_take hk (bytes post)
  rw [List.take_left] at this
  rw [findUnescaped, bytes_drop, bytes_append, bytes_cons_ascii (by decide), this, length_bytes]
  rfl

/-- Nodes of text are rendered as they are. -/
theorem renderFragment_text {source : Str} (options : RenderOptions E U) {i j : Nat} {nodes : List (RichNode E)}
    (ht : Tiles source i j nodes) (hn : ∀ node ∈ nodes, node.range? = none) {fragment : RenderedFragment}
    (hr : renderFragment source options nodes = .ok (.ok fragment)) : slice source i j = .ok fragment.compiled := by
  induction ht generalizing fragment with
  | nil hb =>
    rw [renderFragment] at hr
    cases hr
    obtain ⟨pre, rest, rfl, rfl⟩ := isBoundary_iff.1 hb
    exact slice_eq_ok_iff.2 ⟨pre, rest, rfl, rfl, rfl⟩
  | text hs _ ih =>
    rw [renderFragment] at hr
    obtain ⟨first, hf, hr⟩ := bind_eq_ok hr
    rw [renderNode] at hf
    cases hf
    obtain ⟨rest, hrest, hr⟩ := bind_eq_ok hr
    cases rest with
    | error error => cases hr
    | ok rest =>
      cases hr
      exact slice_join hs (ih (fun n h => hn n (List.mem_cons_of_mem _ h)) hrest)
  | node hrange _ _ _ _ =>
    rw [hn _ List.mem_cons_self] at hrange
    cases hrange

/-! ## Destinations -/

/-- What the author asks for: the destination without escapes, with a scheme. -/
def authored (raw : Str) : Str :=
  let destination := unescape raw
  if hasUriScheme destination then destination else "https://".toList ++ destination

/-- A destination that the trimming of the scanner leaves as it is. -/
structure Trimmed (d : Str) : Prop where
  head : d.head?.any Char.isAlpha = true
  last : ∀ c, d.getLast? = some c → isWhitespace c = false

theorem not_space_of_alpha {c : Char} (h : c.isAlpha = true) : isWhitespace c = false ∧ c ≠ '<' := by
  simp only [Char.isAlpha, Char.isUpper, Char.isLower, Bool.or_eq_true, Bool.and_eq_true, decide_eq_true_eq,
    ge_iff_le, UInt32.le_iff_toNat_le] at h
  have hlow : 65 ≤ c.toNat := by
    rcases h with ⟨h, -⟩ | ⟨h, -⟩
    · exact h
    · exact Nat.le_trans (by decide) h
  have hhigh : c.toNat ≤ 122 := by
    rcases h with ⟨-, h⟩ | ⟨-, h⟩
    · exact Nat.le_trans h (by decide)
    · exact h
  constructor
  · simp only [isWhitespace, Bool.or_eq_false_iff, Bool.and_eq_false_iff, decide_eq_false_iff_not]
    omega
  · rintro rfl
    exact absurd hlow (by decide)

theorem trim_eq {s : Str} (hh : ∀ c, s.head? = some c → isWhitespace c = false)
    (hl : ∀ c, s.getLast? = some c → isWhitespace c = false) : trim s = s := by
  have hdrop {t : Str} (h : ∀ c, t.head? = some c → isWhitespace c = false) : t.dropWhile isWhitespace = t := by
    cases t with
    | nil => rfl
    | cons c t => rw [List.dropWhile_cons_of_neg (by rw [h c rfl]; decide)]
  rw [trim, trimStart, hdrop hh, trimEnd, hdrop (by simpa using hl), List.reverse_reverse]

theorem head?_escape {d : Str} (h : d.head?.any Char.isAlpha = true) :
    ∃ c rest, escapeMarkdownDestination d = c :: rest ∧ c.isAlpha = true := by
  cases d with
  | nil => cases h
  | cons c d =>
    have hc : c.isAlpha = true := h
    have h₁ : c ≠ '\\' := by
      rintro rfl
      cases hc
    have h₂ : c ≠ ')' := by
      rintro rfl
      cases hc
    rw [escapeMarkdownDestination_eq, List.flatMap_cons, escapeDestinationChar, if_neg h₁, if_neg h₂]
    exact ⟨c, _, rfl, hc⟩

theorem getLast?_escape (d : Str) : (escapeMarkdownDestination d).getLast? = d.getLast? := by
  rw [escapeMarkdownDestination_eq]
  rcases List.eq_nil_or_concat d with rfl | ⟨d, c, rfl⟩
  · rfl
  · rw [List.concat_eq_append]
    have hlast : (escapeDestinationChar c).getLast? = some c := by
      unfold escapeDestinationChar
      by_cases h₁ : c = '\\'
      · subst h₁
        rfl
      by_cases h₂ : c = ')'
      · subst h₂
        rfl
      · rw [if_neg h₁, if_neg h₂]
        rfl
    rw [List.flatMap_append, List.flatMap_singleton, List.getLast?_append, hlast, List.getLast?_append]
    rfl

/-- A link is read back from where it was written. -/
theorem parseMarkdownLink_written {source label d : Str} {i j : Nat} (hs : slice source i j = .ok label)
    (hlabel : findUnescaped source i (byteOf ']') = some j) (hd : '(' ∉ d) (ht : Trimmed d) (pre post : Str) :
    parseMarkdownLink (pre ++ (markdownLink label d ++ post)) (len pre)
      = .ok (some (len pre + 1 + len label, len pre + 1 + len label + 2 + len (escapeMarkdownDestination d) + 1,
          escapeMarkdownDestination d)) := by
  obtain ⟨c, rest, hesc, hc⟩ := head?_escape ht.head
  have hone : ('[' : Char).utf8Size = 1 ∧ (']' : Char).utf8Size = 1 ∧ ('(' : Char).utf8Size = 1 := by decide
  have hwritten : pre ++ (markdownLink label d ++ post)
      = (pre ++ ['[']) ++ (label ++ ']' :: '(' :: (escapeMarkdownDestination d ++ ')' :: post)) := by
    simp [markdownLink]
  have hopen : len (pre ++ ['[']) = len pre + 1 := by simp [hone.1]
  have hfind := findUnescaped_copy hs hlabel (pre ++ ['[']) ('(' :: (escapeMarkdownDestination d ++ ')' :: post))
  rw [hopen] at hfind
  have hbehind : pre ++ (markdownLink label d ++ post)
      = (pre ++ '[' :: (label ++ [']', '('])) ++ (escapeMarkdownDestination d ++ ')' :: post) := by
    simp [markdownLink]
  have hstart : len (pre ++ '[' :: (label ++ [']', '('])) = len pre + 1 + len label + 2 := by
    simp only [len_append, len_cons, len_nil, hone.1, hone.2.1, hone.2.2]
    omega
  have hparen : byteAt (pre ++ (markdownLink label d ++ post)) (len pre + 1 + len label + 1) = some (byteOf '(') := by
    have he : pre ++ (markdownLink label d ++ post)
        = (pre ++ '[' :: (label ++ [']'])) ++ ('(' :: (escapeMarkdownDestination d ++ ')' :: post)) := by
      simp [markdownLink]
    have hl : len (pre ++ '[' :: (label ++ [']'])) = len pre + 1 + len label + 1 := by
      simp only [len_append, len_cons, len_nil, hone.1, hone.2.1]
      omega
    rw [he, ← hl, byteAt_head]
    exact (head?_bytes_eq_iff (by decide) _).mpr ⟨_, rfl⟩
  have hend := (findMarkdownDestinationEnd_escape (pre ++ '[' :: (label ++ [']', '('])) d post).mpr hd
  have hslice := slice_append (pre ++ '[' :: (label ++ [']', '('])) (escapeMarkdownDestination d) (')' :: post)
  rw [hstart, ← hbehind] at hend hslice
  rw [← hwritten] at hfind
  have htrim : trim (escapeMarkdownDestination d) = escapeMarkdownDestination d := by
    refine trim_eq (fun x hx => ?_) fun x hx => ht.last x (by rwa [getLast?_escape] at hx)
    rw [hesc] at hx
    cases hx
    exact (not_space_of_alpha hc).1
  rw [parseMarkdownLink, hfind]
  dsimp only
  rw [if_neg (by rw [hparen]; simp), hend]
  dsimp only [bind, Except.bind]
  rw [hslice]
  dsimp only
  rw [htrim, if_neg]
  rintro ⟨-, hhead, -⟩
  rw [hesc] at hhead
  cases hhead
  exact absurd hc (by decide)

/-! ## What is resolved -/

/-- A character of a scheme behind the first. -/
def isSchemeChar (c : Char) : Bool := c.isAlphanum || c = '+' || c = '.' || c = '-'

theorem isSchemeChar_ne {c d : Char} (h : isSchemeChar c = true) (hd : isSchemeChar d = false) : c ≠ d := by
  rintro rfl
  rw [hd] at h
  cases h

theorem isSchemeChar_of_alpha {c : Char} (h : c.isAlpha = true) : isSchemeChar c = true := by
  simp [isSchemeChar, Char.isAlphanum, h]

theorem uriScheme_eq_some_iff {value scheme : Str} :
    uriScheme value = some scheme ↔ ∃ first rest tail, scheme = first :: rest ∧ first.isAlpha = true ∧
      (∀ c ∈ rest, isSchemeChar c = true) ∧ value = scheme ++ ':' :: tail := by
  constructor
  · intro h
    unfold uriScheme at h
    split at h
    · cases h
    rename_i offset hfind
    obtain ⟨pre, post, hvalue, -⟩ := find_eq_some hfind
    dsimp only at h
    split at h
    · cases h
    rename_i first rest htake
    split at h
    · rename_i hchars
      cases h
      rw [Bool.and_eq_true] at hchars
      refine ⟨first, rest, (value.dropWhile (· ≠ ':')).drop 1, htake, hchars.1,
        fun c hc => List.all_eq_true.mp hchars.2 c hc, ?_⟩
      have hsplit : value.takeWhile (· ≠ ':') ++ value.dropWhile (· ≠ ':') = value := List.takeWhile_append_dropWhile
      conv_lhs => rw [← hsplit]
      congr 1
      cases hd : value.dropWhile (· ≠ ':') with
      | nil =>
        rw [hd, List.append_nil] at hsplit
        have hall := List.all_eq_true.mp (List.all_takeWhile (l := value) (p := fun c => decide (c ≠ ':')))
        rw [hsplit] at hall
        have hmem : ':' ∈ value := by simp [hvalue]
        exact absurd (hall ':' hmem) (by decide)
      | cons c tail =>
        have hc := List.head?_dropWhile_not (fun c => decide (c ≠ ':')) value
        rw [hd] at hc
        have hc : c = ':' := by simpa using hc
        rw [hc]
        rfl
    · cases h
  · rintro ⟨first, rest, tail, rfl, hfirst, hrest, rfl⟩
    have hcolon (c : Char) (hc : c ∈ first :: rest) : c ≠ ':' := by
      rcases List.mem_cons.mp hc with rfl | hc
      · exact isSchemeChar_ne (isSchemeChar_of_alpha hfirst) (by decide)
      · exact isSchemeChar_ne (hrest c hc) (by decide)
    have htake : (first :: rest ++ ':' :: tail).takeWhile (· ≠ ':') = first :: rest := by
      rw [List.takeWhile_append_of_pos fun c hc => by simpa using hcolon c hc, List.takeWhile_cons_of_neg (by simp),
        List.append_nil]
    unfold uriScheme
    rw [find_char fun h => hcolon ':' h rfl]
    dsimp only
    rw [htake]
    dsimp only
    rw [if_pos]
    rw [Bool.and_eq_true]
    exact ⟨hfirst, List.all_eq_true.mpr fun c hc => hrest c hc⟩

theorem unescape_append_plain {plain : Str} (h : ∀ c ∈ plain, c ≠ '\\') (rest : Str) :
    unescape (plain ++ rest) = plain ++ unescape rest := by
  induction plain with
  | nil => rfl
  | cons c plain ih =>
    rw [List.cons_append, unescape_cons (h c List.mem_cons_self), ih fun d hd => h d (List.mem_cons_of_mem _ hd)]
    rfl

/-- The scheme has no escapes. -/
theorem hasUriScheme_unescape {raw : Str} (h : hasUriScheme raw = true) : hasUriScheme (unescape raw) = true := by
  obtain ⟨scheme, hs⟩ := Option.isSome_iff_exists.mp h
  obtain ⟨first, rest, tail, rfl, hfirst, hrest, rfl⟩ := uriScheme_eq_some_iff.1 hs
  have hplain : ∀ c ∈ first :: rest, c ≠ '\\' := by
    intro c hc
    rcases List.mem_cons.mp hc with rfl | hc
    · exact isSchemeChar_ne (isSchemeChar_of_alpha hfirst) (by decide)
    · exact isSchemeChar_ne (hrest c hc) (by decide)
  rw [unescape_append_plain hplain, unescape_cons (by decide)]
  exact Option.isSome_iff_exists.mpr ⟨_, uriScheme_eq_some_iff.2 ⟨first, rest, _, rfl, hfirst, hrest, rfl⟩⟩

section

variable {bindings : RichTextBindings U} {policies : RichTextPolicies} {source d : Str} {sourceRange : SourceRange}
  {diagnostic : Option RichTextDiagnostic}

theorem invalidLiteralLink_ne {literal : Str} {byteOffset : Nat} {message : String} :
    invalidLiteralLink policies source literal byteOffset message ≠ .ok (.ok ⟨some d, diagnostic⟩) := by
  intro h
  unfold invalidLiteralLink at h
  split at h
  · obtain ⟨_, _, he⟩ := map_eq_ok h
    cases he
  · cases h

/-- What a literal destination is resolved to. -/
theorem resolveLink_literal {raw : Str}
    (h : resolveLink (.literal raw) bindings policies source sourceRange = .ok (.ok ⟨some d, diagnostic⟩)) :
    raw ≠ [] ∧ (∀ c ∈ raw, isWhitespace c = false) ∧
      d = if hasUriScheme raw then raw else "https://".toList ++ raw := by
  unfold resolveLink at h
  dsimp only at h
  split at h
  · exact absurd h invalidLiteralLink_ne
  rename_i hvalid
  have hchars : raw ≠ [] ∧ ∀ c ∈ raw, isWhitespace c = false := by
    rw [not_or, Bool.not_eq_true, List.any_eq_false] at hvalid
    refine ⟨hvalid.1, fun c hc => ?_⟩
    have := hvalid.2 c hc
    rw [Bool.or_eq_true, not_or] at this
    simpa using this.2
  refine ⟨hchars.1, hchars.2, ?_⟩
  split at h
  · rename_i hscheme
    rw [if_pos hscheme]
    split at h
    · exact absurd h invalidLiteralLink_ne
    split at h
    · exact absurd h invalidLiteralLink_ne
    · cases h
      rfl
  · rename_i hscheme
    rw [if_neg hscheme]
    split at h
    · exact absurd h invalidLiteralLink_ne
    · cases h
      rfl

theorem resolveLink_alias {name : Str}
    (h : resolveLink (.alias name) bindings policies source sourceRange = .ok (.ok ⟨some d, diagnostic⟩)) :
    ∃ url, bindings.links.lookup name = some url ∧ d = U.asStr url := by
  unfold resolveLink at h
  dsimp only at h
  split at h
  · rename_i hurl
    cases h
    exact ⟨_, hurl, rfl⟩
  · split at h
    · obtain ⟨_, _, he⟩ := map_eq_ok h
      cases he
    · cases h

theorem resolveLink_trimmed {target : LinkTarget}
    (h : resolveLink target bindings policies source sourceRange = .ok (.ok ⟨some d, diagnostic⟩)) : Trimmed d := by
  cases target with
  | literal raw =>
    obtain ⟨hne, hspace, rfl⟩ := resolveLink_literal h
    have hlast (c : Char) (hc : raw.getLast? = some c) : isWhitespace c = false :=
      hspace c (List.mem_of_getLast? hc)
    split
    · rename_i hscheme
      obtain ⟨scheme, hs⟩ := Option.isSome_iff_exists.mp hscheme
      obtain ⟨c, tail, rfl, hc⟩ := head_of_uriScheme hs
      exact ⟨hc, hlast⟩
    · refine ⟨rfl, fun c hc => hlast c ?_⟩
      rw [List.getLast?_append_of_ne_nil _ hne] at hc
      exact hc
  | «alias» name =>
    obtain ⟨url, -, rfl⟩ := resolveLink_alias h
    exact ⟨U.head_alpha url, U.last_not_space url⟩

/-- The destination is what the author asks for iff there is no escape in it. -/
theorem resolved_authored {raw : Str}
    (h : resolveLink (.literal raw) bindings policies source sourceRange = .ok (.ok ⟨some d, diagnostic⟩)) :
    d = authored raw ↔ unescape raw = raw := by
  obtain ⟨-, -, rfl⟩ := resolveLink_literal h
  unfold authored
  dsimp only
  by_cases hscheme : hasUriScheme raw = true
  · rw [if_pos hscheme, if_pos (hasUriScheme_unescape hscheme)]
    exact eq_comm
  rw [if_neg hscheme]
  split
  · rename_i hother
    constructor
    · intro he
      have hlen := congrArg len he
      have hle := len_unescape raw
      have hhttps : len "https://".toList = 8 := by decide
      rw [len_append] at hlen
      omega
    · intro he
      rw [he] at hother
      exact absurd hother hscheme
  · rw [List.append_cancel_left_eq]
    exact eq_comm

end

/-! ## Compiled documents -/

theorem renderFragment_append {source : Str} {options : RenderOptions E U} {before after : List (RichNode E)}
    {fragment : RenderedFragment} (h : renderFragment source options (before ++ after) = .ok (.ok fragment)) :
    ∃ first rest, renderFragment source options before = .ok (.ok first) ∧
      renderFragment source options after = .ok (.ok rest) ∧ fragment = first.append rest := by
  induction before generalizing fragment with
  | nil => exact ⟨⟨[], [], []⟩, fragment, by rw [renderFragment], h, rfl⟩
  | cons node before ih =>
    rw [List.cons_append, renderFragment] at h
    obtain ⟨one, hone, h⟩ := bind_eq_ok h
    cases one with
    | error error => cases h
    | ok one =>
      obtain ⟨others, hothers, h⟩ := bind_eq_ok h
      cases others with
      | error error => cases h
      | ok others =>
        cases h
        obtain ⟨first, rest, hfirst, hrest, rfl⟩ := ih hothers
        refine ⟨one.append first, rest, ?_, hrest, ?_⟩
        · rw [renderFragment, hone]
          dsimp only [bind, Except.bind]
          rw [hfirst]
        · simp [RenderedFragment.append]

/-- What a link adds, when it is resolved. -/
theorem renderNode_link {source d : Str} {options : RenderOptions E U} {label : List (RichNode E)} {target : LinkTarget}
    {range : SourceRange} {diagnostic : Option RichTextDiagnostic} {fragment inner : RenderedFragment}
    (htarget : options.target = .markdown) (hlabel : renderFragment source options label = .ok (.ok inner))
    (hd : resolveLink target options.bindings options.policies source range = .ok (.ok ⟨some d, diagnostic⟩))
    (h : renderNode source options (.link label target range) = .ok (.ok fragment)) :
    fragment.compiled = markdownLink inner.compiled d := by
  rw [renderNode, hlabel] at h
  dsimp only [bind, Except.bind] at h
  rw [renderLink, hd] at h
  cases h
  simp only [compiledLink, htarget]

/-- The link that was written behind `before` is found again where it was written, by
the scanner of destinations and by the scanner of links. -/
structure ReadBack (compiled before label d : Str) : Prop where
  written : ∃ after, compiled = before ++ (markdownLink label d ++ after)
  stops : findMarkdownDestinationEnd compiled (len before + 1 + len label + 2)
    = some (len before + 1 + len label + 2 + len (escapeMarkdownDestination d))
  scanned : ∃ raw, slice compiled (len before + 1 + len label + 2)
    (len before + 1 + len label + 2 + len (escapeMarkdownDestination d)) = .ok raw ∧ unescape raw = d
  parsed : ∃ raw, parseMarkdownLink compiled (len before) = .ok (some (len before + 1 + len label,
    len before + 1 + len label + 2 + len (escapeMarkdownDestination d) + 1, raw)) ∧ unescape raw = d

theorem written_destination (before label d after : Str) :
    before ++ (markdownLink label d ++ after)
        = (before ++ '[' :: (label ++ [']', '('])) ++ (escapeMarkdownDestination d ++ ')' :: after) ∧
      len (before ++ '[' :: (label ++ [']', '('])) = len before + 1 + len label + 2 := by
  have hone : ('[' : Char).utf8Size = 1 ∧ (']' : Char).utf8Size = 1 ∧ ('(' : Char).utf8Size = 1 := by decide
  constructor
  · simp [markdownLink]
  · simp only [len_append, len_cons, len_nil, hone.1, hone.2.1, hone.2.2]
    omega

theorem ReadBack.of_plain {source label d : Str} {i j : Nat} (hs : slice source i j = .ok label)
    (hlabel : findUnescaped source i (byteOf ']') = some j) (hd : '(' ∉ d) (ht : Trimmed d) (before after : Str) :
    ReadBack (before ++ (markdownLink label d ++ after)) before label d := by
  obtain ⟨hwritten, hstart⟩ := written_destination before label d after
  refine ⟨⟨after, rfl⟩, ?_, ⟨escapeMarkdownDestination d, ?_, unescape_escape d⟩,
    escapeMarkdownDestination d, parseMarkdownLink_written hs hlabel hd ht before after, unescape_escape d⟩
  · rw [hwritten, ← hstart]
    exact (findMarkdownDestinationEnd_escape _ d after).mpr hd
  · rw [hwritten, ← hstart]
    exact slice_append _ _ _

theorem ReadBack.plain {compiled before label d : Str} (h : ReadBack compiled before label d) : '(' ∉ d := by
  obtain ⟨after, rfl⟩ := h.written
  obtain ⟨hwritten, hstart⟩ := written_destination before label d after
  have hstops := h.stops
  rw [hwritten, ← hstart] at hstops
  exact (findMarkdownDestinationEnd_escape _ d after).mp hstops

/-- Each link that is resolved is read back, and a literal one is resolved to what its
author wrote. -/
def LinksSurvive (source : Str) (options : RenderOptions E U) (nodes : List (RichNode E)) (compiled : Str) : Prop :=
  ∀ before label target range after, nodes = before ++ .link label target range :: after →
    ∃ first inner, renderFragment source options before = .ok (.ok first) ∧
      renderFragment source options label = .ok (.ok inner) ∧
      ∀ d diagnostic,
        resolveLink target options.bindings options.policies source range = .ok (.ok ⟨some d, diagnostic⟩) →
        ReadBack compiled first.compiled inner.compiled d ∧ ∀ raw, target = .literal raw → d = authored raw

/-- No parenthesis is opened in the destination, and a literal one has no escapes. -/
def LinkTarget.Plain (bindings : RichTextBindings U) : LinkTarget → Prop
  | .literal raw => '(' ∉ raw ∧ unescape raw = raw
  | .alias name => ∀ url, bindings.links.lookup name = some url → '(' ∉ U.asStr url

theorem LinkTarget.plain_iff {target : LinkTarget} {bindings : RichTextBindings U} {policies : RichTextPolicies} {source d : Str}
    {range : SourceRange} {diagnostic : Option RichTextDiagnostic}
    (h : resolveLink target bindings policies source range = .ok (.ok ⟨some d, diagnostic⟩)) :
    target.Plain bindings ↔ '(' ∉ d ∧ ∀ raw, target = .literal raw → d = authored raw := by
  cases target with
  | literal raw =>
    have hparen : '(' ∈ d ↔ '(' ∈ raw := by
      obtain ⟨-, -, rfl⟩ := resolveLink_literal h
      split
      · exact Iff.rfl
      · rw [List.mem_append]
        exact or_iff_right (by decide)
    change ('(' ∉ raw ∧ unescape raw = raw) ↔ _
    rw [← hparen, ← resolved_authored h]
    constructor
    · rintro ⟨hd, he⟩
      refine ⟨hd, fun raw' hraw => ?_⟩
      cases hraw
      exact he
    · rintro ⟨hd, he⟩
      exact ⟨hd, he raw rfl⟩
  | «alias» name =>
    obtain ⟨url, hurl, rfl⟩ := resolveLink_alias h
    constructor
    · intro hp
      exact ⟨hp url hurl, fun raw hraw => nomatch hraw⟩
    · rintro ⟨hd, -⟩ url' hurl'
      rw [hurl] at hurl'
      cases hurl'
      exact hd

/-- One URL, and whatever has a scheme is accepted. -/
def plainUrls : UrlLibrary where
  Url := Unit
  asStr _ := "https://t.me/".toList
  parses := hasUriScheme
  head_alpha _ := rfl
  last_not_space _ c h := by
    cases h
    decide

def plainOptions : RenderOptions plainPlatform plainUrls where
  normalize _ _ := .error .overflow
  bindings := ⟨∅, ∅⟩
  policies := .developer
  target := .markdown

/-- A document that is one link. -/
def onlyLink : List (RichNode E) → Option (Str × LinkTarget × SourceRange)
  | [.link [.text label] target range] => some (label, target, range)
  | _ => none

theorem onlyLink_eq_some {nodes : List (RichNode E)} {label : Str} {target : LinkTarget} {range : SourceRange}
    (h : onlyLink nodes = some (label, target, range)) : nodes = [.link [.text label] target range] := by
  unfold onlyLink at h
  split at h
  · cases h
    rfl
  · cases h

end Teloxide.RichText
