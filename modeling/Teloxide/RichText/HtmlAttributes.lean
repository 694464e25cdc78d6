import Teloxide.Core.Table
import Teloxide.Core.Utf8

/-!
# The attributes of an HTML tag

`parse_html_attributes`, `decode_html_entities` and `escape_html` of
`crates/teloxide/src/utils/time/markdown.rs:1533-1636, 1976-1978`.

* `attributes_decoded`: decoding undoes escaping, and the attributes of a tag are
  exactly the named ones, if no attribute with a value comes where the parser has
  eaten a character (`Attribute.Unbitten`).
* `attribute_bitten`: after a name without value the parser takes the next
  character for the missing `=`, which is the first one of the next name.
-/
namespace Teloxide.RichText

open Teloxide.Core Teloxide.Core.Utf8

/-! ## Entities -/

/-- mirrors markdown.rs:1607-1627 -/
def entityReplacement (entity : Str) : Option Str :=
  if entity = "amp".toList then some ['&']
  else if entity = "lt".toList then some ['<']
  else if entity = "gt".toList then some ['>']
  else if entity = "quot".toList then some ['"']
  else if entity = "apos".toList then some ['\'']
  else if "#x".toList.isPrefixOf entity || "#X".toList.isPrefixOf entity then
    (get? entity 2 (len entity)).bind fun digits =>
      ((parseU32 16 digits).bind charFromU32).map fun character => [character]
  else if "#".toList.isPrefixOf entity then
    (get? entity 1 (len entity)).bind fun digits =>
      ((parseU32 10 digits).bind charFromU32).map fun character => [character]
  else none

/-- The loop of `decode_html_entities`: what it appends for `remainder`. -/
def decodeEntities : Nat → Str → Checked Str
  | 0, _ => .error .diverges
  | fuel + 1, remainder =>
    match find ['&'] remainder with
    | none => .ok remainder
    | some start => do
      let before ← sliceTo remainder start
      let rest ← sliceFrom remainder start
      match find [';'] rest with
      | none => .ok (before ++ rest)
      | some endOffset => do
        let stop := start + endOffset
        let entity ← slice remainder (start + 1) stop
        let replacement ← match entityReplacement entity with
          | some replacement => .ok replacement
          | none => slice remainder start (stop + 1)
        let decoded ← decodeEntities fuel (← sliceFrom remainder (stop + 1))
        .ok (before ++ replacement ++ decoded)

/-- mirrors markdown.rs:1596-1636 -/
def decodeHtmlEntities (value : Str) : Checked Str := decodeEntities (value.length + 1) value

/-- `str::replace` of one character. -/
def replaceChar (c : Char) (replacement : Str) (s : Str) : Str :=
  s.flatMap fun x => if x = c then replacement else [x]

/-- mirrors markdown.rs:1976-1978 -/
def escapeHtml (value : Str) : Str :=
  replaceChar '"' "&quot;".toList
    (replaceChar '>' "&gt;".toList (replaceChar '<' "&lt;".toList (replaceChar '&' "&amp;".toList value)))

/-! ## Attributes -/

/-- A `char_indices` iterator: where it stands, and what is left. -/
structure Cursor where
  offset : Nat
  rest : Str
  deriving DecidableEq, Repr

namespace Cursor

/-- `next`, without its result -/
def advance (c : Cursor) : Cursor :=
  match c.rest with
  | [] => c
  | x :: rest => ⟨c.offset + x.utf8Size, rest⟩

/-- `while cursor.clone().next().is_some_and(p) { cursor.next(); }` -/
def skipWhile (p : Char → Bool) (offset : Nat) : Str → Cursor
  | [] => ⟨offset, []⟩
  | x :: rest => if p x then skipWhile p (offset + x.utf8Size) rest else ⟨offset, x :: rest⟩

end Cursor

/-- `is_ascii_alphanumeric() || '-' || '_'` -/
def isNameChar (c : Char) : Bool := c.isAlphanum || c = '-' || c = '_'

def isQuote (c : Char) : Bool := c = '\'' || c = '"'

/-- How one iteration of the loop ends. -/
inductive AttributeStep where
  | done
  | skip (cursor : Cursor)
  | insert (name value : Str) (cursor : Cursor)

/-- One iteration.
mirrors markdown.rs:1542-1591 -/
def attributeStep (inner : Str) (cursor : Cursor) : Checked AttributeStep :=
  let cursor := Cursor.skipWhile (fun c => isAsciiWhitespace c || c = '/') cursor.offset cursor.rest
  match cursor.rest with
  | [] => .ok .done
  | first :: _ =>
    if isNameChar first = false then .ok (.skip cursor.advance)
    else
      let nameStart := cursor.offset
      let cursor := Cursor.skipWhile isNameChar cursor.offset cursor.rest
      let nameEnd := cursor.offset
      let cursor := Cursor.skipWhile isAsciiWhitespace cursor.offset cursor.rest
      -- `cursor.next()` takes the character whether or not it is `=`
      if cursor.rest.head? ≠ some '=' then .ok (.skip cursor.advance)
      else
        let cursor := cursor.advance
        let cursor := Cursor.skipWhile isAsciiWhitespace cursor.offset cursor.rest
        match cursor.rest with
        | [] => .ok (.skip cursor)
        | quote :: _ =>
          let cursor := cursor.advance
          if isQuote quote = false then .ok (.skip cursor)
          else
            let valueStart := cursor.offset
            let cursor := Cursor.skipWhile (· ≠ quote) cursor.offset cursor.rest
            let valueEnd := cursor.offset
            match cursor.rest with
            | [] => .ok .done
            | _ :: _ => do
              let name ← slice inner nameStart nameEnd
              let value ← slice inner valueStart valueEnd
              .ok (.insert (toAsciiLowercase name) (← decodeHtmlEntities value) cursor.advance)

def attributeLoop (inner : Str) : Nat → Cursor → Table Str Str → Checked (Table Str Str)
  | 0, _, _ => .error .diverges
  | fuel + 1, cursor, attributes => do
    match ← attributeStep inner cursor with
    | .done => .ok attributes
    | .skip cursor => attributeLoop inner fuel cursor attributes
    | .insert name value cursor => attributeLoop inner fuel cursor (attributes.insert name value)

/-- `tag.strip_prefix('<').and_then(|value| value.strip_suffix('>'))` -/
def stripTag (tag : Str) : Option Str :=
  match tag with
  | '<' :: rest => if rest.getLast? = some '>' then some rest.dropLast else none
  | _ => none

/-- mirrors markdown.rs:1533-1594 -/
def parseHtmlAttributes (tag : Str) : Checked (Table Str Str) :=
  let inner := (stripTag tag).getD []
  let afterName := Cursor.skipWhile (fun c => !isAsciiWhitespace c && c ≠ '/') 0 inner
  attributeLoop inner (inner.length + 1) afterName.advance ∅

/-! ## Decoding undoes escaping -/

def escapeChar (c : Char) : Str :=
  if c = '&' then "&amp;".toList
  else if c = '<' then "&lt;".toList
  else if c = '>' then "&gt;".toList
  else if c = '"' then "&quot;".toList
  else [c]

/-- The four replacements do not meet. -/
theorem escapeHtml_eq (s : Str) : escapeHtml s = s.flatMap escapeChar := by
  unfold escapeHtml replaceChar
  rw [List.flatMap_assoc, List.flatMap_assoc, List.flatMap_assoc]
  congr 1
  funext c
  by_cases h₁ : c = '&'
  · subst h₁
    decide
  by_cases h₂ : c = '<'
  · subst h₂
    decide
  by_cases h₃ : c = '>'
  · subst h₃
    decide
  by_cases h₄ : c = '"'
  · subst h₄
    decide
  · simp [escapeChar, h₁, h₂, h₃, h₄]

theorem decodeEntities_plain {s : Str} (h : '&' ∉ s) (fuel : Nat) : decodeEntities (fuel + 1) s = .ok s := by
  rw [decodeEntities, find_char_none h]

/-- The first entity is replaced, or stays. -/
theorem decodeEntities_entity {pre name : Str} (hpre : '&' ∉ pre) (hname : ';' ∉ name) (fuel : Nat) (tail : Str) :
    decodeEntities (fuel + 1) (pre ++ '&' :: (name ++ ';' :: tail)) =
      (decodeEntities fuel tail).map
        (pre ++ (entityReplacement name).getD ('&' :: (name ++ [';'])) ++ ·) := by
  have hsize : '&'.utf8Size = 1 := by decide
  have hsemi : ';' ∉ '&' :: name := fun hm => by
    rcases List.mem_cons.mp hm with hm | hm
    · exact absurd hm (by decide)
    · exact hname hm
  have hfind : find [';'] ('&' :: (name ++ ';' :: tail)) = some (1 + len name) := find_char hsemi tail
  have hentity : slice (pre ++ '&' :: (name ++ ';' :: tail)) (len pre + 1) (len pre + (1 + len name)) = .ok name := by
    have h := slice_append (pre ++ ['&']) name (';' :: tail)
    simpa [hsize, Nat.add_assoc] using h
  have hlen : len ('&' :: (name ++ [';'])) = 1 + len name + 1 := by
    rw [len_cons, len_append, len_cons, len_nil]
    rfl
  have hliteral : slice (pre ++ '&' :: (name ++ ';' :: tail)) (len pre) (len pre + (1 + len name) + 1) =
      .ok ('&' :: (name ++ [';'])) := by
    have h := slice_append pre ('&' :: (name ++ [';'])) tail
    rw [hlen] at h
    simpa [Nat.add_assoc] using h
  have htail : sliceFrom (pre ++ '&' :: (name ++ ';' :: tail)) (len pre + (1 + len name) + 1) = .ok tail := by
    have h := sliceFrom_append (pre ++ '&' :: (name ++ [';'])) tail
    rw [len_append, hlen] at h
    simpa [Nat.add_assoc] using h
  rw [decodeEntities, find_char hpre]
  dsimp only
  rw [sliceTo_append, sliceFrom_append]
  simp only [bind, Except.bind, hfind, hentity, htail]
  cases entityReplacement name with
  | some replacement => cases decodeEntities fuel tail <;> rfl
  | none =>
    simp only [hliteral]
    cases decodeEntities fuel tail <;> rfl

/-- The entity of a special character. -/
theorem escapeChar_cases (c : Char) :
    (c ≠ '&' ∧ escapeChar c = [c]) ∨
      ∃ name, ';' ∉ name ∧ entityReplacement name = some [c] ∧ escapeChar c = '&' :: (name ++ [';']) := by
  unfold escapeChar
  by_cases h₁ : c = '&'
  · subst h₁
    exact .inr ⟨"amp".toList, by decide, by decide, by decide⟩
  by_cases h₂ : c = '<'
  · subst h₂
    exact .inr ⟨"lt".toList, by decide, by decide, by decide⟩
  by_cases h₃ : c = '>'
  · subst h₃
    exact .inr ⟨"gt".toList, by decide, by decide, by decide⟩
  by_cases h₄ : c = '"'
  · subst h₄
    exact .inr ⟨"quot".toList, by decide, by decide, by decide⟩
  · exact .inl ⟨h₁, by simp [h₁, h₂, h₃, h₄]⟩

/-- A prefix without entities is in front of what is escaped. -/
theorem decodeEntities_escape (s : Str) :
    ∀ pre fuel, '&' ∉ pre → s.length < fuel → decodeEntities fuel (pre ++ s.flatMap escapeChar) = .ok (pre ++ s) := by
  induction s with
  | nil =>
    intro pre fuel hpre hfuel
    obtain ⟨fuel, rfl⟩ := Nat.exists_eq_add_of_lt hfuel
    rw [List.flatMap_nil, List.append_nil]
    exact decodeEntities_plain hpre _
  | cons c s ih =>
    intro pre fuel hpre hfuel
    rw [List.flatMap_cons]
    rcases escapeChar_cases c with ⟨hc, he⟩ | ⟨name, hname, hr, he⟩
    · have hpre' : '&' ∉ pre ++ [c] := by
        simp only [List.mem_append, List.mem_singleton, not_or]
        exact ⟨hpre, fun h => hc h.symm⟩
      have h := ih (pre ++ [c]) fuel hpre' (by simp only [List.length_cons] at hfuel; omega)
      rw [he]
      simpa using h
    · obtain ⟨fuel, rfl⟩ : ∃ n, fuel = n + 1 := ⟨fuel - 1, by omega⟩
      have hrest := ih [] fuel (by simp) (by simp only [List.length_cons] at hfuel; omega)
      have h := decodeEntities_entity hpre hname fuel (s.flatMap escapeChar)
      rw [he]
      simp only [List.nil_append] at hrest
      rw [hrest, hr] at h
      simpa [Except.map] using h

theorem length_le_escape (s : Str) : s.length ≤ (s.flatMap escapeChar).length := by
  induction s with
  | nil => exact Nat.le_refl _
  | cons c s ih =>
    rw [List.flatMap_cons, List.length_append, List.length_cons]
    have : 1 ≤ (escapeChar c).length := by
      rcases escapeChar_cases c with ⟨-, he⟩ | ⟨name, -, -, he⟩ <;> rw [he] <;> simp
    omega

theorem decode_escape (s : Str) : decodeHtmlEntities (escapeHtml s) = .ok s := by
  rw [decodeHtmlEntities, escapeHtml_eq]
  exact decodeEntities_escape s [] _ (by simp) (Nat.lt_succ_of_le (length_le_escape s))

/-- A string with no `&`, or in front of its first one. -/
theorem exists_before (d : Char) (s : Str) : d ∉ s ∨ ∃ pre post, s = pre ++ d :: post ∧ d ∉ pre := by
  induction s with
  | nil => exact .inl List.not_mem_nil
  | cons c s ih =>
    by_cases hc : c = d
    · exact .inr ⟨[], s, by rw [hc]; rfl, List.not_mem_nil⟩
    · rcases ih with h | ⟨pre, post, rfl, h⟩
      · exact .inl fun hm => by
          rcases List.mem_cons.mp hm with rfl | hm
          · exact hc rfl
          · exact h hm
      · refine .inr ⟨c :: pre, post, rfl, fun hm => ?_⟩
        rcases List.mem_cons.mp hm with rfl | hm
        · exact hc rfl
        · exact h hm

theorem decodeEntities_ok (fuel : Nat) : ∀ s : Str, s.length < fuel → ∃ decoded, decodeEntities fuel s = .ok decoded := by
  induction fuel with
  | zero => exact fun s h => absurd h (Nat.not_lt_zero _)
  | succ fuel ih =>
    intro s hs
    rcases exists_before '&' s with hn | ⟨pre, post, rfl, hpre⟩
    · exact ⟨_, decodeEntities_plain hn fuel⟩
    · rcases exists_before ';' post with hn | ⟨name, tail, rfl, hname⟩
      · have hsemi : ';' ∉ '&' :: post := fun hm => by
          rcases List.mem_cons.mp hm with hm | hm
          · exact absurd hm (by decide)
          · exact hn hm
        rw [decodeEntities, find_char hpre]
        dsimp only
        rw [sliceTo_append, sliceFrom_append]
        simp only [bind, Except.bind, find_char_none hsemi]
        exact ⟨_, rfl⟩
      · obtain ⟨decoded, hd⟩ := ih tail (by simp only [List.length_append, List.length_cons] at hs; omega)
        rw [decodeEntities_entity hpre hname, hd]
        exact ⟨_, rfl⟩

theorem decodeHtmlEntities_ok (s : Str) : ∃ decoded, decodeHtmlEntities s = .ok decoded :=
  decodeEntities_ok _ s (Nat.lt_succ_self _)

/-! ## Tags -/

/-- `= "…"`, with white space before and after the sign. -/
structure Assignment where
  before : Str
  after : Str
  quote : Char
  value : Str
  before_space : ∀ c ∈ before, isAsciiWhitespace c = true
  after_space : ∀ c ∈ after, isAsciiWhitespace c = true
  quoted : isQuote quote = true
  unquoted : quote ∉ value

structure Attribute where
  name : Str
  assignment : Option Assignment
  named : name ≠ []
  nameChars : ∀ c ∈ name, isNameChar c = true

/-- An attribute with the white space before it. -/
structure Separated where
  space : Str
  attr : Attribute
  separated : space ≠ []
  isSpace : ∀ c ∈ space, isAsciiWhitespace c = true

/-- A start tag. It may end in white space and `/`. -/
structure StartTag where
  name : Str
  attributes : List Separated
  trailing : Str
  nameChars : ∀ c ∈ name, isAsciiWhitespace c = false ∧ c ≠ '/'
  isTrailing : ∀ c ∈ trailing, isAsciiWhitespace c = true ∨ c = '/'

def Assignment.text (a : Assignment) : Str := a.before ++ '=' :: (a.after ++ a.quote :: (a.value ++ [a.quote]))

def Attribute.text (a : Attribute) : Str := a.name ++ (a.assignment.map Assignment.text).getD []

def Separated.text (a : Separated) : Str := a.space ++ a.attr.text

def StartTag.inner (t : StartTag) : Str := t.name ++ (t.attributes.flatMap Separated.text ++ t.trailing)

def StartTag.text (t : StartTag) : Str := '<' :: (t.inner ++ ['>'])

/-- The names are distinct, whatever their case. -/
def StartTag.Distinct (t : StartTag) : Prop :=
  (t.attributes.map fun a => toAsciiLowercase a.attr.name).Pairwise (· ≠ ·)

/-- The values of the attributes. -/
def StartTag.Maps (t : StartTag) (key value : Str) : Prop :=
  ∃ a ∈ t.attributes, ∃ x, a.attr.assignment = some x ∧ toAsciiLowercase a.attr.name = key ∧
    decodeHtmlEntities x.value = .ok value

/-- No attribute with a value has lost its first character. The flag tells that the
one in front was a name without value and has eaten it. -/
def Unbitten : Bool → List Separated → Prop
  | _, [] => True
  | false, a :: rest => Unbitten a.attr.assignment.isNone rest
  | true, a :: rest => a.attr.assignment = none ∧ Unbitten (1 < a.attr.name.length) rest

/-! ## The cursor -/

namespace Cursor

theorem skipWhile_append {p : Char → Bool} {run : Str} (h : ∀ c ∈ run, p c = true) (offset : Nat) (rest : Str) :
    skipWhile p offset (run ++ rest) = skipWhile p (offset + len run) rest := by
  induction run generalizing offset with
  | nil => simp
  | cons c run ih =>
    rw [List.cons_append, skipWhile, if_pos (h c List.mem_cons_self),
      ih fun d hd => h d (List.mem_cons_of_mem _ hd), len_cons, Nat.add_assoc]

/-- The cursor stays where the predicate fails. -/
theorem skipWhile_stop {p : Char → Bool} {rest : Str} (h : ∀ c, rest.head? = some c → p c = false) (offset : Nat) :
    skipWhile p offset rest = ⟨offset, rest⟩ := by
  cases rest with
  | nil => rfl
  | cons c rest =>
    rw [skipWhile, h c rfl]
    rfl

theorem skipWhile_all {p : Char → Bool} {run : Str} (h : ∀ c ∈ run, p c = true) (offset : Nat) :
    skipWhile p offset run = ⟨offset + len run, []⟩ := by
  have happ := skipWhile_append h offset []
  rw [List.append_nil] at happ
  exact happ

/-- The cursor stands in front of `rest`. -/
def At (inner : Str) (cursor : Cursor) (rest : Str) : Prop :=
  ∃ pre, inner = pre ++ rest ∧ cursor = ⟨len pre, rest⟩

theorem At.skip {inner : Str} {p : Char → Bool} {run rest : Str} {cursor : Cursor} (h : At inner cursor (run ++ rest))
    (hrun : ∀ c ∈ run, p c = true) (hstop : ∀ c, rest.head? = some c → p c = false) :
    At inner (skipWhile p cursor.offset cursor.rest) rest := by
  obtain ⟨pre, rfl, rfl⟩ := h
  refine ⟨pre ++ run, by simp, ?_⟩
  rw [skipWhile_append hrun, skipWhile_stop hstop, len_append]

theorem At.advance {inner rest : Str} {c : Char} {cursor : Cursor} (h : At inner cursor (c :: rest)) :
    At inner cursor.advance rest := by
  obtain ⟨pre, rfl, rfl⟩ := h
  exact ⟨pre ++ [c], by simp, by simp [Cursor.advance]⟩

theorem At.rest_eq {inner rest : Str} {cursor : Cursor} (h : At inner cursor rest) : cursor.rest = rest := by
  obtain ⟨pre, -, rfl⟩ := h
  rfl

/-- What lies between two cursors. -/
theorem At.slice {inner run rest : Str} {first last : Cursor} (h : At inner first (run ++ rest)) (h' : At inner last rest) :
    slice inner first.offset last.offset = .ok run := by
  obtain ⟨pre, rfl, rfl⟩ := h
  obtain ⟨pre', he, rfl⟩ := h'
  have hpre : pre' = pre ++ run := by
    rw [← List.append_assoc] at he
    exact (List.append_cancel_right he).symm
  rw [hpre, len_append]
  exact slice_append pre run rest

end Cursor

/-! ## One attribute -/

theorem not_space_of_nameChar {c : Char} (h : isNameChar c = true) : isAsciiWhitespace c = false ∧ c ≠ '/' ∧ c ≠ '=' := by
  refine ⟨?_, ?_, ?_⟩
  · cases hs : isAsciiWhitespace c with
    | false => rfl
    | true =>
      simp only [isAsciiWhitespace, Bool.or_eq_true, decide_eq_true_eq] at hs
      rcases hs with (((rfl | rfl) | rfl) | rfl) | rfl <;> exact absurd h (by decide)
  · rintro rfl
    exact absurd h (by decide)
  · rintro rfl
    exact absurd h (by decide)

theorem not_nameChar_of_space {c : Char} (h : isAsciiWhitespace c = true) : isNameChar c = false := by
  cases hn : isNameChar c with
  | false => rfl
  | true =>
    rw [(not_space_of_nameChar hn).1] at h
    cases h

/-- The characters between attributes. -/
def isGap (c : Char) : Bool := isAsciiWhitespace c || c = '/'

theorem attributeStep_end {inner gap : Str} {cursor : Cursor} (h : cursor.At inner gap)
    (hgap : ∀ c ∈ gap, isGap c = true) : attributeStep inner cursor = .ok .done := by
  obtain ⟨pre, rfl, rfl⟩ := h
  have hskip : Cursor.skipWhile (fun c => isAsciiWhitespace c || c = '/') (len pre) gap = ⟨len pre + len gap, []⟩ :=
    Cursor.skipWhile_all hgap _
  rw [attributeStep, hskip]

/-- The head of a string that begins with a name. -/
theorem head_of_name {name : Str} (rest : Str) (hn : name ≠ []) (hc : ∀ c ∈ name, isNameChar c = true) :
    ∃ first, (name ++ rest).head? = some first ∧ isNameChar first = true := by
  obtain ⟨c, name, rfl⟩ := List.exists_cons_of_ne_nil hn
  exact ⟨c, rfl, hc c List.mem_cons_self⟩

/-- A name without value: the next character is taken for the sign. -/
theorem attributeStep_bare {inner gap name space rest : Str} {cursor : Cursor}
    (h : cursor.At inner (gap ++ (name ++ (space ++ rest)))) (hgap : ∀ c ∈ gap, isGap c = true) (hn : name ≠ [])
    (hc : ∀ c ∈ name, isNameChar c = true) (hs : ∀ c ∈ space, isAsciiWhitespace c = true)
    (hend : ∀ c, (space ++ rest).head? = some c → isNameChar c = false)
    (hrest : ∀ c, rest.head? = some c → isAsciiWhitespace c = false ∧ c ≠ '=') :
    ∃ cursor', attributeStep inner cursor = .ok (.skip cursor') ∧ cursor'.At inner rest.tail := by
  obtain ⟨first, hfirst, hname⟩ := head_of_name (space ++ rest) hn hc
  have h₁ := h.skip (p := fun c => isAsciiWhitespace c || c = '/') hgap fun c hh => by
    rw [hfirst] at hh
    cases hh
    simp [(not_space_of_nameChar hname).1, (not_space_of_nameChar hname).2.1]
  have h₂ := h₁.skip hc hend
  have h₃ := h₂.skip hs fun c hh => (hrest c hh).1
  obtain ⟨more, hmore⟩ : ∃ more, name ++ (space ++ rest) = first :: more := by
    cases hl : name ++ (space ++ rest) with
    | nil => rw [hl] at hfirst; cases hfirst
    | cons c more => rw [hl] at hfirst; cases hfirst; exact ⟨more, rfl⟩
  rw [attributeStep]
  dsimp only
  rw [h₁.rest_eq, hmore]
  dsimp only
  rw [if_neg (by rw [hname]; decide), ← hmore, ← h₁.rest_eq,
    if_pos (by rw [h₃.rest_eq]; intro he; exact (hrest '=' he).2 rfl)]
  refine ⟨_, rfl, ?_⟩
  cases rest with
  | nil =>
    obtain ⟨pre, hi, he⟩ := h₃
    exact ⟨pre, hi, by rw [he]; rfl⟩
  | cons c rest => exact h₃.advance

theorem not_nameChar_of_before {x : Assignment} {rest : Str} {c : Char}
    (h : (x.before ++ '=' :: rest).head? = some c) : isNameChar c = false := by
  cases hb : x.before with
  | nil =>
    rw [hb] at h
    cases h
    decide
  | cons d before =>
    rw [hb] at h
    cases h
    exact not_nameChar_of_space (x.before_space _ (by rw [hb]; exact List.mem_cons_self))

theorem not_space_of_quote {c : Char} (h : isQuote c = true) : isAsciiWhitespace c = false := by
  simp only [isQuote, Bool.or_eq_true, decide_eq_true_eq] at h
  rcases h with rfl | rfl <;> decide

/-- A name with its value. -/
theorem attributeStep_valued {inner gap name rest : Str} {x : Assignment} {cursor : Cursor}
    (h : cursor.At inner (gap ++ (name ++ (x.text ++ rest)))) (hgap : ∀ c ∈ gap, isGap c = true) (hn : name ≠ [])
    (hc : ∀ c ∈ name, isNameChar c = true) :
    ∃ cursor' decoded, decodeHtmlEntities x.value = .ok decoded ∧
      attributeStep inner cursor = .ok (.insert (toAsciiLowercase name) decoded cursor') ∧ cursor'.At inner rest := by
  obtain ⟨first, hfirst, hname⟩ := head_of_name (x.text ++ rest) hn hc
  have h₁ := h.skip (p := fun c => isAsciiWhitespace c || c = '/') hgap fun c hh => by
    rw [hfirst] at hh
    cases hh
    simp [(not_space_of_nameChar hname).1, (not_space_of_nameChar hname).2.1]
  have htext : x.text ++ rest = x.before ++ '=' :: (x.after ++ x.quote :: (x.value ++ x.quote :: rest)) := by
    simp [Assignment.text]
  rw [htext] at h₁ hfirst
  have h₂ := h₁.skip hc fun c hh => not_nameChar_of_before hh
  have h₃ := h₂.skip (p := isAsciiWhitespace) x.before_space fun c hh => by
    cases hh
    decide
  have h₄ := h₃.advance.skip (p := isAsciiWhitespace) x.after_space fun c hh => by
    cases hh
    exact not_space_of_quote x.quoted
  have h₅ := h₄.advance
  have h₆ := h₅.skip (p := (· ≠ x.quote)) (fun c hm => by
    simp only [ne_eq, decide_not, Bool.not_eq_true', decide_eq_false_iff_not]
    rintro rfl
    exact x.unquoted hm) fun c hh => by
      cases hh
      simp
  obtain ⟨more, hmore⟩ : ∃ more, name ++ (x.before ++ '=' :: (x.after ++ x.quote :: (x.value ++ x.quote :: rest))) =
      first :: more := by
    cases hl : name ++ (x.before ++ '=' :: (x.after ++ x.quote :: (x.value ++ x.quote :: rest))) with
    | nil => rw [hl] at hfirst; cases hfirst
    | cons c more => rw [hl] at hfirst; cases hfirst; exact ⟨more, rfl⟩
  obtain ⟨decoded, hd⟩ := decodeHtmlEntities_ok x.value
  refine ⟨_, decoded, hd, ?_, h₆.advance⟩
  rw [attributeStep]
  dsimp only
  rw [h₁.rest_eq, hmore]
  dsimp only
  rw [if_neg (by rw [hname]; decide), ← hmore, ← h₁.rest_eq, if_neg (by rw [h₃.rest_eq]; simp)]
  rw [h₄.rest_eq]
  dsimp only
  rw [if_neg (by rw [x.quoted]; decide), h₆.rest_eq]
  dsimp only
  rw [h₁.slice h₂, h₅.slice h₆]
  simp only [bind, Except.bind, hd]

/-! ## All of them -/

/-- What the loop does with one attribute. -/
def insertAttribute (t : Table Str Str) (a : Separated) : Table Str Str :=
  match a.attr.assignment with
  | none => t
  | some x =>
    match decodeHtmlEntities x.value with
    | .ok decoded => t.insert (toAsciiLowercase a.attr.name) decoded
    | .error _ => t

/-- The loop reads `rest` as the attributes `items`. -/
def Reads (items : List Separated) (rest : Str) : Prop :=
  ∀ inner cursor fuel t, Cursor.At inner cursor rest → rest.length < fuel →
    attributeLoop inner fuel cursor t = .ok (items.foldl insertAttribute t)

theorem Reads.of_skip {items : List Separated} {rest : Str} (rest' : Str)
    (hlen : rest'.length < rest.length) (h : Reads items rest')
    (hstep : ∀ inner cursor, Cursor.At inner cursor rest →
      ∃ cursor', attributeStep inner cursor = .ok (.skip cursor') ∧ cursor'.At inner rest') : Reads items rest := by
  intro inner cursor fuel t hat hfuel
  obtain ⟨fuel, rfl⟩ : ∃ n, fuel = n + 1 := ⟨fuel - 1, by omega⟩
  obtain ⟨cursor', hs, hat'⟩ := hstep inner cursor hat
  rw [attributeLoop, hs]
  exact h inner cursor' fuel t hat' (by omega)

theorem reads_nil (gap : Str) (hgap : ∀ c ∈ gap, isGap c = true) : Reads [] gap := by
  intro inner cursor fuel t hat hfuel
  obtain ⟨fuel, rfl⟩ : ∃ n, fuel = n + 1 := ⟨fuel - 1, by omega⟩
  rw [attributeLoop, attributeStep_end hat hgap]
  rfl

theorem Attribute.text_cons (a : Attribute) : ∃ c rest, a.text = c :: rest ∧ isNameChar c = true := by
  obtain ⟨c, name, hn⟩ := List.exists_cons_of_ne_nil a.named
  exact ⟨c, _, by rw [Attribute.text, hn]; rfl, a.nameChars c (by rw [hn]; exact List.mem_cons_self)⟩

/-- What stands behind the items. -/
def StartTag.rest (items : List Separated) (trailing : Str) : Str := items.flatMap Separated.text ++ trailing

/-- The same without the white space in front. -/
def StartTag.unspaced : List Separated → Str → Str
  | [], trailing => trailing
  | a :: items, trailing => a.attr.text ++ StartTag.rest items trailing

theorem StartTag.rest_eq (items : List Separated) (trailing : Str) :
    ∃ gap, (∀ c ∈ gap, isAsciiWhitespace c = true) ∧ (items ≠ [] → gap ≠ []) ∧
      StartTag.rest items trailing = gap ++ StartTag.unspaced items trailing := by
  cases items with
  | nil => exact ⟨[], by simp, by simp, rfl⟩
  | cons a items => exact ⟨a.space, a.isSpace, fun _ => a.separated, by simp [rest, unspaced, Separated.text]⟩

theorem isGap_of_space {gap : Str} (h : ∀ c ∈ gap, isAsciiWhitespace c = true) : ∀ c ∈ gap, isGap c = true :=
  fun c hc => by simp [isGap, h c hc]

/-- After a name without value the next character is eaten. -/
theorem reads_bare {items : List Separated} {gap name trailing : Str} (hgap : ∀ c ∈ gap, isGap c = true)
    (hn : name ≠ []) (hc : ∀ c ∈ name, isNameChar c = true) (htrailing : ∀ c ∈ trailing, isGap c = true)
    (hnil : items = [] → ∀ rest, (∀ c ∈ rest, isGap c = true) → Reads items rest)
    (hcons : ∀ a items', items = a :: items' → Reads items (a.attr.text.tail ++ StartTag.rest items' trailing)) :
    Reads items (gap ++ (name ++ StartTag.rest items trailing)) := by
  have hname : 0 < name.length := List.length_pos_iff.mpr hn
  cases items with
  | nil =>
    have hsplit := List.takeWhile_append_dropWhile (p := isAsciiWhitespace) (l := trailing)
    refine .of_skip (trailing.dropWhile isAsciiWhitespace).tail ?_ (hnil rfl _ fun c hm => ?_) ?_
    · simp only [StartTag.rest, List.flatMap_nil, List.nil_append, List.length_append, List.length_tail]
      have := congrArg List.length hsplit
      rw [List.length_append] at this
      omega
    · exact htrailing c ((List.dropWhile_suffix _).subset (List.mem_of_mem_tail hm))
    · intro inner cursor hat
      rw [StartTag.rest, List.flatMap_nil, List.nil_append, ← hsplit] at hat
      refine attributeStep_bare hat hgap hn hc (fun c hm => List.all_eq_true.mp List.all_takeWhile c hm) ?_ ?_
      · intro c hh
        rw [hsplit] at hh
        cases hnc : isNameChar c with
        | false => rfl
        | true =>
          have := htrailing c (List.mem_of_mem_head? hh)
          simp [isGap, (not_space_of_nameChar hnc).1, (not_space_of_nameChar hnc).2.1] at this
      · intro c hh
        have hws : isAsciiWhitespace c = false := by
          have := List.head?_dropWhile_not isAsciiWhitespace trailing
          rw [hh] at this
          simpa using this
        refine ⟨hws, ?_⟩
        rintro rfl
        have := htrailing '=' ((List.dropWhile_suffix _).subset (List.mem_of_mem_head? hh))
        exact absurd this (by decide)
  | cons a items =>
    obtain ⟨c, text, htext, hcn⟩ := a.attr.text_cons
    have hrest : StartTag.rest (a :: items) trailing = a.space ++ (c :: (text ++ StartTag.rest items trailing)) := by
      simp [StartTag.rest, Separated.text, htext]
    refine .of_skip (a.attr.text.tail ++ StartTag.rest items trailing) ?_ (hcons a items rfl) ?_
    · rw [hrest, htext]
      simp only [List.tail_cons, List.length_append, List.length_cons]
      omega
    · intro inner cursor hat
      rw [hrest] at hat
      have hstep := attributeStep_bare hat hgap hn hc a.isSpace (fun d hh => ?_) (fun d hh => ?_)
      · rw [htext]
        exact hstep
      · obtain ⟨e, space, hs⟩ := List.exists_cons_of_ne_nil a.separated
        rw [hs] at hh
        cases hh
        exact not_nameChar_of_space (a.isSpace _ (by rw [hs]; exact List.mem_cons_self))
      · cases hh
        exact ⟨(not_space_of_nameChar hcn).1, (not_space_of_nameChar hcn).2.2⟩

theorem reads_items (items : List Separated) : ∀ trailing, (∀ c ∈ trailing, isGap c = true) →
    (∀ gap, (∀ c ∈ gap, isGap c = true) → Unbitten false items →
      Reads items (gap ++ StartTag.unspaced items trailing)) ∧
      ∀ a items', items = a :: items' → Unbitten true items →
        Reads items (a.attr.text.tail ++ StartTag.rest items' trailing) := by
  induction items with
  | nil =>
    intro trailing htrailing
    refine ⟨fun gap hgap _ => reads_nil _ fun c hm => ?_, fun a items' he => absurd he (List.cons_ne_nil _ _).symm⟩
    rcases List.mem_append.mp hm with hm | hm
    · exact hgap c hm
    · exact htrailing c hm
  | cons a items ih =>
    intro trailing htrailing
    obtain ⟨space, hspace, -, hrest⟩ := StartTag.rest_eq items trailing
    have intact : Unbitten false items → Reads items (StartTag.rest items trailing) := by
      intro hu
      rw [hrest]
      exact (ih trailing htrailing).1 space (isGap_of_space hspace) hu
    have skipped : ∀ {t : Table Str Str}, a.attr.assignment = none → insertAttribute t a = t := by
      intro t hnone
      simp [insertAttribute, hnone]
    -- the attribute has no value, and `name` is what is left of its name
    have bare : ∀ gap name, (∀ c ∈ gap, isGap c = true) → name ≠ [] → (∀ c ∈ name, isNameChar c = true) →
        a.attr.assignment = none → Unbitten true items →
        Reads (a :: items) (gap ++ (name ++ StartTag.rest items trailing)) := by
      intro gap name hgap hn hc hnone hu
      have hreads : Reads items (gap ++ (name ++ StartTag.rest items trailing)) := by
        refine reads_bare hgap hn hc htrailing (fun he rest hg => ?_) fun b items' he => ?_
        · subst he
          exact reads_nil _ hg
        · exact (ih trailing htrailing).2 b items' he hu
      intro inner cursor fuel t hat hfuel
      rw [List.foldl_cons, skipped hnone]
      exact hreads inner cursor fuel t hat hfuel
    constructor
    · intro gap hgap hu
      rw [StartTag.unspaced]
      cases hx : a.attr.assignment with
      | none =>
        have hu : Unbitten true items := by simpa [Unbitten, hx] using hu
        rw [Attribute.text, hx, Option.map_none, Option.getD_none, List.append_nil]
        exact bare _ _ hgap a.attr.named a.attr.nameChars hx hu
      | some x =>
        have hu : Unbitten false items := by simpa [Unbitten, hx] using hu
        rw [Attribute.text, hx, Option.map_some, Option.getD_some, List.append_assoc a.attr.name]
        intro inner cursor fuel t hat hfuel
        obtain ⟨fuel, rfl⟩ : ∃ n, fuel = n + 1 := ⟨fuel - 1, by omega⟩
        obtain ⟨cursor', decoded, hd, hs, hat'⟩ :=
          attributeStep_valued hat hgap a.attr.named a.attr.nameChars
        have hinsert : insertAttribute t a = t.insert (toAsciiLowercase a.attr.name) decoded := by
          simp [insertAttribute, hx, hd]
        rw [attributeLoop, hs, List.foldl_cons, hinsert]
        refine intact hu inner cursor' fuel _ hat' ?_
        simp only [List.length_append] at hfuel
        have := List.length_pos_iff.mpr a.attr.named
        omega
    · intro b items' he hu
      cases he
      obtain ⟨hnone, hu⟩ : a.attr.assignment = none ∧ Unbitten (1 < a.attr.name.length) items := hu
      rw [Attribute.text, hnone, Option.map_none, Option.getD_none, List.append_nil]
      obtain ⟨c, name, hn⟩ := List.exists_cons_of_ne_nil a.attr.named
      rw [hn, List.tail_cons]
      cases name with
      | nil =>
        have hu : Unbitten false items := by simpa [hn] using hu
        intro inner cursor fuel t hat hfuel
        rw [List.foldl_cons, skipped hnone]
        exact intact hu inner cursor fuel t hat hfuel
      | cons d name =>
        have hu : Unbitten true items := by simpa [hn] using hu
        exact bare [] (d :: name) (by simp) (List.cons_ne_nil _ _)
          (fun e he => a.attr.nameChars e (by rw [hn]; exact List.mem_cons_of_mem _ he)) hnone hu

theorem stripTag_text (t : StartTag) : stripTag t.text = some t.inner := by
  simp [stripTag, StartTag.text]

/-- The parser reads the attributes that are not bitten. -/
theorem parseHtmlAttributes_eq (t : StartTag) (h : Unbitten false t.attributes) :
    parseHtmlAttributes t.text = .ok (t.attributes.foldl insertAttribute ∅) := by
  have htrailing : ∀ c ∈ t.trailing, isGap c = true := fun c hc => by
    rcases t.isTrailing c hc with h | h <;> simp [isGap, h]
  obtain ⟨space, hspace, hne, hrest⟩ := StartTag.rest_eq t.attributes t.trailing
  have hinner : t.inner = t.name ++ StartTag.rest t.attributes t.trailing := rfl
  have hname : ∀ c ∈ t.name, (!isAsciiWhitespace c && c ≠ '/') = true := fun c hc => by
    simp [(t.nameChars c hc).1, (t.nameChars c hc).2]
  have hgap : ∀ c ∈ space, isGap c = true := isGap_of_space hspace
  have hstop : ∀ c, (StartTag.rest t.attributes t.trailing).head? = some c →
      (!isAsciiWhitespace c && decide (c ≠ '/')) = false := by
    intro c hh
    have hg : isGap c = true := by
      cases hs : space with
      | cons d space' =>
        rw [hrest, hs] at hh
        cases hh
        exact hgap _ (by rw [hs]; exact List.mem_cons_self)
      | nil =>
        have hnil : t.attributes = [] := by
          by_contra hn
          exact hne hn hs
        rw [hnil] at hh
        exact htrailing c (List.mem_of_mem_head? hh)
    simp only [isGap, Bool.or_eq_true, decide_eq_true_eq] at hg
    rcases hg with hg | hg <;> simp [hg]
  have h₀ : Cursor.At t.inner ⟨0, t.inner⟩ (t.name ++ StartTag.rest t.attributes t.trailing) := ⟨[], rfl, rfl⟩
  have h₁ := h₀.skip hname hstop
  -- the first character after the name is taken, whatever it is
  have hread : ∀ cursor : Cursor, cursor.At t.inner (StartTag.rest t.attributes t.trailing) →
      attributeLoop t.inner (t.inner.length + 1) cursor.advance ∅ = .ok (t.attributes.foldl insertAttribute ∅) := by
    intro cursor hat
    cases hs : space with
    | cons c space' =>
      rw [hs] at hrest hgap
      rw [hrest, List.cons_append] at hat
      refine (reads_items t.attributes t.trailing htrailing).1 space'
        (fun d hd => hgap d (List.mem_cons_of_mem _ hd)) h _ _ _ _ hat.advance ?_
      rw [hinner, hrest]
      simp only [List.length_append, List.length_cons]
      omega
    | nil =>
      have hnil : t.attributes = [] := by
        by_contra hn
        exact hne hn hs
      rw [hnil] at hat ⊢
      cases ht : t.trailing with
      | nil =>
        obtain ⟨pre, hi, rfl⟩ := hat
        rw [ht] at hi ⊢
        exact reads_nil [] (by simp) _ _ _ _ ⟨pre, hi, rfl⟩ (Nat.succ_pos _)
      | cons c trailing =>
        rw [StartTag.rest, List.flatMap_nil, List.nil_append, ht] at hat
        refine reads_nil trailing (fun d hd => htrailing d ?_) _ _ _ _ hat.advance ?_
        · rw [ht]
          exact List.mem_cons_of_mem _ hd
        · rw [hinner, hnil, StartTag.rest, ht]
          simp only [List.flatMap_nil, List.nil_append, List.length_append, List.length_cons]
          omega
  unfold parseHtmlAttributes
  rw [stripTag_text]
  exact hread _ h₁

/-! ## What the table holds -/

/-- The value that one of the attributes gives to a name. -/
def Gives (items : List Separated) (key value : Str) : Prop :=
  ∃ a ∈ items, ∃ x, a.attr.assignment = some x ∧ toAsciiLowercase a.attr.name = key ∧
    decodeHtmlEntities x.value = .ok value

theorem lookup_insertAttribute (t : Table Str Str) (a : Separated) (key value : Str) :
    (insertAttribute t a).lookup key = some value ↔
      Gives [a] key value ∨ t.lookup key = some value ∧
        ∀ x, a.attr.assignment = some x → toAsciiLowercase a.attr.name ≠ key := by
  unfold insertAttribute
  cases hx : a.attr.assignment with
  | none => simp [Gives, hx]
  | some x =>
    obtain ⟨decoded, hd⟩ := decodeHtmlEntities_ok x.value
    simp only [hd]
    by_cases hk : toAsciiLowercase a.attr.name = key
    · subst hk
      simp [Gives, hx, hd]
    · rw [AList.lookup_insert_ne fun he => hk he.symm]
      simp [Gives, hx, hk]

theorem lookup_insertAll (items : List Separated) : ∀ t : Table Str Str,
    (items.map fun a => toAsciiLowercase a.attr.name).Pairwise (· ≠ ·) → ∀ key value,
      ((items.foldl insertAttribute t).lookup key = some value ↔
        Gives items key value ∨ t.lookup key = some value ∧
          ∀ a ∈ items, ∀ x, a.attr.assignment = some x → toAsciiLowercase a.attr.name ≠ key) := by
  induction items with
  | nil => simp [Gives]
  | cons a items ih =>
    intro t hd key value
    rw [List.map_cons, List.pairwise_cons] at hd
    rw [List.foldl_cons, ih _ hd.2, lookup_insertAttribute]
    have hother : Gives [a] key value → ∀ b ∈ items, ∀ x, b.attr.assignment = some x →
        toAsciiLowercase b.attr.name ≠ key := by
      rintro ⟨a', ha', x, -, rfl, -⟩ b hb y - he
      rw [List.mem_singleton.mp ha'] at he
      exact hd.1 _ (List.mem_map_of_mem hb) he.symm
    have hsplit : Gives (a :: items) key value ↔ Gives [a] key value ∨ Gives items key value := by
      simp [Gives]
    have hall : (∀ b ∈ a :: items, ∀ x, b.attr.assignment = some x → toAsciiLowercase b.attr.name ≠ key) ↔
        (∀ x, a.attr.assignment = some x → toAsciiLowercase a.attr.name ≠ key) ∧
          ∀ b ∈ items, ∀ x, b.attr.assignment = some x → toAsciiLowercase b.attr.name ≠ key := by
      simp
    rw [hsplit, hall]
    constructor
    · rintro (h | ⟨h | ⟨ht, h⟩, hrest⟩)
      · exact .inl (.inr h)
      · exact .inl (.inl h)
      · exact .inr ⟨ht, h, hrest⟩
    · rintro ((h | h) | ⟨ht, h, hrest⟩)
      · exact .inr ⟨.inl h, hother h⟩
      · exact .inl h
      · exact .inr ⟨.inr ⟨ht, h⟩, hrest⟩

/-- The parser returns exactly the names with a value, and the values decoded. -/
def StartTag.ReadExactly (t : StartTag) : Prop :=
  ∃ table, parseHtmlAttributes t.text = .ok table ∧ ∀ key value, table.lookup key = some value ↔ t.Maps key value

theorem attributes_decoded (t : StartTag) (hd : t.Distinct) (hu : Unbitten false t.attributes) (s : Str) :
    t.ReadExactly ∧ decodeHtmlEntities (escapeHtml s) = .ok s := by
  refine ⟨⟨_, parseHtmlAttributes_eq t hu, fun key value => ?_⟩, decode_escape s⟩
  rw [lookup_insertAll _ _ hd, AList.lookup_empty]
  simp [Gives, StartTag.Maps]

def quotedAttribute (name value : String) (h : name.toList ≠ [] ∧ ∀ c ∈ name.toList, isNameChar c = true)
    (hv : '"' ∉ value.toList) : Separated where
  space := [' ']
  attr := ⟨name.toList, some ⟨[], [], '"', value.toList, by simp, by simp, by decide, hv⟩, h.1, h.2⟩
  separated := by decide
  isSpace := List.all_eq_true.mp (by decide)

def bareAttribute (name : String) (h : name.toList ≠ [] ∧ ∀ c ∈ name.toList, isNameChar c = true) : Separated where
  space := [' ']
  attr := ⟨name.toList, none, h.1, h.2⟩
  separated := by decide
  isSpace := List.all_eq_true.mp (by decide)

/-- `<a href="x" title="y &amp; z" disabled>` -/
def titledTag : StartTag where
  name := ['a']
  attributes := [quotedAttribute "href" "x" ⟨by decide, List.all_eq_true.mp (by decide)⟩ (by decide),
    quotedAttribute "title" "y &amp; z" ⟨by decide, List.all_eq_true.mp (by decide)⟩ (by decide),
    bareAttribute "disabled" ⟨by decide, List.all_eq_true.mp (by decide)⟩]
  trailing := []
  nameChars := by simp [isAsciiWhitespace]
  isTrailing := by simp

theorem attributes_decoded_titledTag :
    titledTag.text = "<a href=\"x\" title=\"y &amp; z\" disabled>".toList ∧ titledTag.ReadExactly ∧
      decodeHtmlEntities (escapeHtml "1 < 2".toList) = .ok "1 < 2".toList :=
  ⟨by decide, attributes_decoded titledTag
    (by rw [StartTag.Distinct]; decide) trivial "1 < 2".toList⟩

/-- `<a disabled href="x">` -/
def disabledTag : StartTag where
  name := ['a']
  attributes := [bareAttribute "disabled" ⟨by decide, List.all_eq_true.mp (by decide)⟩,
    quotedAttribute "href" "x" ⟨by decide, List.all_eq_true.mp (by decide)⟩ (by decide)]
  trailing := []
  nameChars := by simp [isAsciiWhitespace]
  isTrailing := by simp

/-- The `h` of `href` is taken for the missing sign. -/
theorem attribute_bitten : disabledTag.Distinct ∧ ¬ disabledTag.ReadExactly := by
  refine ⟨by rw [StartTag.Distinct]; decide, ?_⟩
  rintro ⟨table, ht, h⟩
  have hread : (parseHtmlAttributes disabledTag.text).map (·.lookup "href".toList) = .ok none := by decide
  rw [ht] at hread
  have hmaps : disabledTag.Maps "href".toList ['x'] :=
    ⟨quotedAttribute "href" "x" ⟨by decide, List.all_eq_true.mp (by decide)⟩ (by decide), by simp [disabledTag],
      _, rfl, by decide, by decide⟩
  have hnone : table.lookup "href".toList = none := Except.ok.inj hread
  rw [(h _ _).mpr hmaps] at hnone
  cases hnone

end Teloxide.RichText
