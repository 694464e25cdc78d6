import Teloxide.Core.Backslash

/-!
# MarkdownV2 escaping (`crates/teloxide/src/utils/markdown.rs`, `render/markdown.rs`)

Three contexts, each with its delimiters: plain text (the special characters), code (the
backtick), a link destination (the closing parenthesis). Strings are lists of characters.

* `reads_escape`, `reads_escapeCode`, `reads_writeLinkDestination`: escapers that escape
  the backslash as well are taken back by reading.
* `reads_escapeLinkUrl_iff`: `escape_link_url` leaves the backslash alone, so that a
  backslash survives only in front of a backtick.
-/
namespace Teloxide.Utils.Markdown

open Teloxide.Core

/-- mirrors markdown.rs:7-9 -/
def ESCAPE_CHARS : List Char :=
  ['\\', '_', '*', '[', ']', '(', ')', '~', '`', '>', '#', '+', '-', '=', '|', '{', '}', '.', '!']

/-- mirrors markdown.rs:128-136 -/
def escape (s : List Char) : List Char := backslashed (ESCAPE_CHARS.contains ·) s

/-- mirrors markdown.rs:142-150 -/
def escapeLinkUrl (s : List Char) : List Char := backslashed (['`', ')'].contains ·) s

/-- mirrors markdown.rs:156-164 -/
def escapeCode (s : List Char) : List Char := backslashed (['`', '\\'].contains ·) s

/-- mirrors markdown.rs:86-88 -/
def link (url text : List Char) : List Char := '[' :: text ++ [']', '('] ++ escapeLinkUrl url ++ [')']

/-- mirrors render/markdown.rs:96-103 -/
def writeLinkDestination (value : List Char) : List Char := backslashed (fun ch => ch == '\\' || ch == ')') value

/-- mirrors render/markdown.rs:117-122 -/
def writeChar (ch : Char) : List Char := backslash (ESCAPE_CHARS.contains ·) ch

/-! ## The contexts -/

def special : Char → Bool := (ESCAPE_CHARS.contains ·)

def backtick : Char → Bool := (· == '`')

def closing : Char → Bool := (· == ')')

theorem reads_escape (s : List Char) : reads special (escape s) = some s :=
  reads_backslashed (by decide) (fun _ h => h) s

theorem reads_writeChars (s : List Char) : reads special (s.flatMap writeChar) = some s :=
  reads_backslashed (by decide) (fun _ h => h) s

theorem reads_escapeCode (s : List Char) : reads backtick (escapeCode s) = some s := by
  refine reads_backslashed (by decide) (fun c hc => ?_) s
  obtain rfl := beq_iff_eq.1 hc
  decide

theorem reads_writeLinkDestination (s : List Char) : reads closing (writeLinkDestination s) = some s := by
  refine reads_backslashed (by decide) (fun c hc => ?_) s
  obtain rfl := beq_iff_eq.1 hc
  decide

/-! ## The link destination of `link` -/

/-- Every backslash is followed by a backtick. -/
def TicksAfterBackslashes (s : List Char) : Prop :=
  ∀ before after, s = before ++ '\\' :: after → after.head? = some '`'

theorem TicksAfterBackslashes.cons {c : Char} {s : List Char} (hc : c ≠ '\\') :
    TicksAfterBackslashes (c :: s) ↔ TicksAfterBackslashes s := by
  constructor
  · intro h before after hs
    exact h (c :: before) after (by rw [hs]; rfl)
  · intro h before after hs
    cases before with
    | nil => exact absurd (List.cons.inj hs).1 hc
    | cons c' before => exact h before after (List.cons.inj hs).2

theorem TicksAfterBackslashes.tick {s : List Char} :
    TicksAfterBackslashes ('\\' :: '`' :: s) ↔ TicksAfterBackslashes s := by
  refine ⟨fun h before after hs => h ('\\' :: '`' :: before) after (by rw [hs]; rfl), fun h before after hs => ?_⟩
  cases before with
  | nil => rw [← (List.cons.inj hs).2]; rfl
  | cons c before => exact (TicksAfterBackslashes.cons (by decide)).2 h before after (List.cons.inj hs).2

section escapeLinkUrl

theorem escapeLinkUrl_plain {c : Char} (hc : c ≠ '`') (hp : c ≠ ')') (s : List Char) :
    escapeLinkUrl (c :: s) = c :: escapeLinkUrl s := by
  have hnot : (['`', ')'].contains c) = false := by simp [hc, hp]
  unfold escapeLinkUrl
  rw [backslashed_cons, backslash, hnot]
  rfl

/-- A character with an escape of its own reads as itself. -/
theorem reads_escapeLinkUrl_escaped {c : Char} (hc : c = '`' ∨ c = ')') (s : List Char) :
    reads closing (escapeLinkUrl (c :: s)) = (reads closing (escapeLinkUrl s)).map (c :: ·) := by
  rcases hc with rfl | rfl
  · exact reads_escape' '`' _
  · exact reads_escape' ')' _
where
  reads_escape' (c : Char) (rest : List Char) : reads closing ('\\' :: c :: rest) = (reads closing rest).map (c :: ·) :=
    Core.reads_escape c rest

theorem reads_escapeLinkUrl_plain {c : Char} (hc : c ≠ '\\') (s : List Char) :
    reads closing (escapeLinkUrl (c :: s)) = (reads closing (escapeLinkUrl s)).map (c :: ·) := by
  by_cases h : c = '`' ∨ c = ')'
  · exact reads_escapeLinkUrl_escaped h s
  · obtain ⟨ht, hp⟩ := not_or.1 h
    rw [escapeLinkUrl_plain ht hp, reads_plain hc, if_neg (by simpa [closing] using hp)]

/-- A backslash swallows the character after it, unless that one is escaped. -/
theorem reads_escapeLinkUrl_swallowed {c : Char} (hc : c ≠ '`') (hp : c ≠ ')') (s : List Char) :
    reads closing (escapeLinkUrl ('\\' :: c :: s)) = (reads closing (escapeLinkUrl s)).map (c :: ·) := by
  rw [escapeLinkUrl_plain (by decide) (by decide), escapeLinkUrl_plain hc hp, Core.reads_escape]

theorem reads_escapeLinkUrl_tick (s : List Char) :
    reads closing (escapeLinkUrl ('\\' :: '`' :: s)) = (reads closing (escapeLinkUrl s)).map ('\\' :: '`' :: ·) := by
  have h : escapeLinkUrl ('\\' :: '`' :: s) = '\\' :: '\\' :: '`' :: escapeLinkUrl s := rfl
  rw [h, Core.reads_escape, reads_plain (by decide), if_neg (by decide), Option.map_map]
  rfl

theorem reads_escapeLinkUrl_closed (s : List Char) : reads closing (escapeLinkUrl ('\\' :: ')' :: s)) = none := by
  have h : escapeLinkUrl ('\\' :: ')' :: s) = '\\' :: '\\' :: ')' :: escapeLinkUrl s := rfl
  rw [h, Core.reads_escape, reads_plain (by decide), if_pos (by decide), Option.map_none]

/-- Reading never yields more than was escaped. -/
theorem length_reads_escapeLinkUrl : ∀ {s r : List Char}, reads closing (escapeLinkUrl s) = some r → r.length ≤ s.length
  | [], r, h => by
    cases h
    exact Nat.le_refl _
  | c :: s, r, h => by
    by_cases hc : c = '\\'
    · subst hc
      cases s with
      | nil => cases h
      | cons c s =>
        by_cases ht : c = '`'
        · subst ht
          rw [reads_escapeLinkUrl_tick] at h
          obtain ⟨r', hr, rfl⟩ := Option.map_eq_some_iff.1 h
          exact Nat.add_le_add_right (length_reads_escapeLinkUrl hr) 2
        · by_cases hp : c = ')'
          · subst hp
            rw [reads_escapeLinkUrl_closed] at h
            cases h
          · rw [reads_escapeLinkUrl_swallowed ht hp] at h
            obtain ⟨r', hr, rfl⟩ := Option.map_eq_some_iff.1 h
            have := length_reads_escapeLinkUrl hr
            simp only [List.length_cons]
            omega
    · rw [reads_escapeLinkUrl_plain hc] at h
      obtain ⟨r', hr, rfl⟩ := Option.map_eq_some_iff.1 h
      exact Nat.add_le_add_right (length_reads_escapeLinkUrl hr) 1

theorem map_cons_eq_some {c : Char} {o : Option (List Char)} {s : List Char} :
    o.map (c :: ·) = some (c :: s) ↔ o = some s := by
  cases o <;> simp

/-- `escape_link_url` is reversible exactly on the strings whose backslashes stand before
backticks. -/
theorem reads_escapeLinkUrl_iff : ∀ s : List Char,
    reads closing (escapeLinkUrl s) = some s ↔ TicksAfterBackslashes s
  | [] => ⟨fun _ before after h => by simp at h, fun _ => rfl⟩
  | c :: s => by
    by_cases hc : c = '\\'
    · subst hc
      cases s with
      | nil => exact ⟨nofun, fun h => absurd (h [] [] rfl) (by decide)⟩
      | cons c s =>
        by_cases ht : c = '`'
        · subst ht
          rw [reads_escapeLinkUrl_tick, TicksAfterBackslashes.tick, ← reads_escapeLinkUrl_iff s]
          cases reads closing (escapeLinkUrl s) <;> simp
        · constructor
          · intro h
            by_cases hp : c = ')'
            · subst hp
              rw [reads_escapeLinkUrl_closed] at h
              cases h
            · -- one character of the two is lost
              rw [reads_escapeLinkUrl_swallowed ht hp] at h
              obtain ⟨r, hr, he⟩ := Option.map_eq_some_iff.1 h
              have hlen := length_reads_escapeLinkUrl hr
              have hrest := congrArg List.length (List.cons.inj he).2
              simp only [List.length_cons] at hrest
              omega
          · intro h
            exact absurd (Option.some.inj (h [] (c :: s) rfl)) ht
    · rw [reads_escapeLinkUrl_plain hc, map_cons_eq_some, reads_escapeLinkUrl_iff s, TicksAfterBackslashes.cons hc]

end escapeLinkUrl

/-! ## All the escapers -/

/-- Each escaper is taken back in its context, and `link` ends its destination at its own
closing parenthesis. -/
structure Reversible (s : List Char) : Prop where
  escape : reads special (escape s) = some s
  writeChar : reads special (s.flatMap writeChar) = some s
  escapeCode : reads backtick (escapeCode s) = some s
  escapeLinkUrl : reads closing (escapeLinkUrl s) = some s
  writeLinkDestination : reads closing (writeLinkDestination s) = some s
  link : ∀ text, readsTo closing ((link s text).drop (text.length + 3)) = some (s, [])

/-- The destination follows the text. -/
theorem link_drop (url text : List Char) : (link url text).drop (text.length + 3) = escapeLinkUrl url ++ [')'] := by
  have h : link url text = ('[' :: text ++ [']', '(']) ++ (escapeLinkUrl url ++ [')']) := by
    simp only [link, List.append_assoc]
  have hlen : ('[' :: text ++ [']', '(']).length = text.length + 3 := by
    simp only [List.length_append, List.length_cons, List.length_nil]
  rw [h, ← hlen, List.drop_left]

/-- Escaping is reversible on the strings whose backslashes stand before backticks: the
other four escapers are on all of them. -/
theorem reversible_iff (s : List Char) : Reversible s ↔ TicksAfterBackslashes s := by
  constructor
  · exact fun h => (reads_escapeLinkUrl_iff s).1 h.escapeLinkUrl
  · intro h
    have hurl := (reads_escapeLinkUrl_iff s).2 h
    exact
      { escape := reads_escape s
        writeChar := reads_writeChars s
        escapeCode := reads_escapeCode s
        escapeLinkUrl := hurl
        writeLinkDestination := reads_writeLinkDestination s
        link := fun text => by
          rw [link_drop]
          exact readsTo_append (by decide) (by decide) [] hurl }

/-- A destination that ends with a backslash takes the closing parenthesis in. -/
theorem not_reversible_backslash : ¬ ∀ s, Reversible s := fun h =>
  absurd ((h ['a', '\\']).link ['t']) (by decide)

end Teloxide.Utils.Markdown
