import Mathlib

/-!
# Backslash escapes

A backslash makes a literal of the character after it. `backslashed p` puts one before
every character of the class `p`; `reads d` takes the escapes back, and fails at an
unescaped delimiter of the class `d` or at a backslash with nothing after it. The two are
inverse as soon as `p` has the backslash itself and every delimiter.
-/
namespace Teloxide.Core

/-- The character as it is written. -/
def backslash (p : Char → Bool) (c : Char) : List Char := if p c then ['\\', c] else [c]

def backslashed (p : Char → Bool) (s : List Char) : List Char := s.flatMap (backslash p)

/-- What the text means, read from left to right. -/
def reads (d : Char → Bool) : List Char → Option (List Char)
  | [] => some []
  | ['\\'] => none
  | '\\' :: c :: rest => (reads d rest).map (c :: ·)
  | c :: rest => if d c then none else (reads d rest).map (c :: ·)

/-- What stands before the first unescaped delimiter, and what comes after it. -/
def readsTo (d : Char → Bool) : List Char → Option (List Char × List Char)
  | [] => none
  | ['\\'] => none
  | '\\' :: c :: rest => (readsTo d rest).map fun r => (c :: r.1, r.2)
  | c :: rest => if d c then some ([], rest) else (readsTo d rest).map fun r => (c :: r.1, r.2)

section reads

variable {p d : Char → Bool}

theorem backslashed_cons (c : Char) (s : List Char) : backslashed p (c :: s) = backslash p c ++ backslashed p s :=
  List.flatMap_cons

theorem reads_escape (c : Char) (rest : List Char) : reads d ('\\' :: c :: rest) = (reads d rest).map (c :: ·) := by
  rw [reads]

theorem reads_plain {c : Char} (hc : c ≠ '\\') (rest : List Char) :
    reads d (c :: rest) = if d c then none else (reads d rest).map (c :: ·) := by
  rw [reads]
  · exact fun h _ => hc h
  · exact fun _ _ h => absurd h hc

theorem readsTo_escape (c : Char) (rest : List Char) :
    readsTo d ('\\' :: c :: rest) = (readsTo d rest).map fun r => (c :: r.1, r.2) := by
  rw [readsTo]

theorem readsTo_plain {c : Char} (hc : c ≠ '\\') (rest : List Char) : readsTo d (c :: rest) =
    if d c then some ([], rest) else (readsTo d rest).map fun r => (c :: r.1, r.2) := by
  rw [readsTo]
  · exact fun h _ => hc h
  · exact fun _ _ h => absurd h hc

/-- What is escaped with its delimiters and the backslash reads as itself. -/
theorem reads_backslashed (hp : p '\\' = true) (hd : ∀ c, d c = true → p c = true) (s : List Char) :
    reads d (backslashed p s) = some s := by
  induction s with
  | nil => rfl
  | cons c s ih =>
    rw [backslashed_cons, backslash]
    by_cases hc : p c = true
    · rw [if_pos hc, List.cons_append, List.singleton_append, reads_escape, ih, Option.map_some]
    · have hne : c ≠ '\\' := fun h => hc (h ▸ hp)
      have hdelim : ¬ d c = true := fun h => hc (hd c h)
      rw [if_neg hc, List.singleton_append, reads_plain hne, if_neg hdelim, ih, Option.map_some]

/-- Text that reads to its end is read up to a delimiter behind it. -/
theorem readsTo_append {close : Char} (hclose : d close = true) (hne : close ≠ '\\') (rest : List Char) :
    ∀ {s r : List Char}, reads d s = some r → readsTo d (s ++ close :: rest) = some (r, rest)
  | [], r, h => by
    cases h
    rw [List.nil_append, readsTo_plain hne, if_pos hclose]
  | c :: s, r, h => by
    by_cases hc : c = '\\'
    · subst hc
      cases s with
      | nil => cases h
      | cons c s =>
        rw [reads_escape] at h
        obtain ⟨r', hr, rfl⟩ := Option.map_eq_some_iff.1 h
        rw [List.cons_append, List.cons_append, readsTo_escape, readsTo_append hclose hne rest hr, Option.map_some]
    · rw [reads_plain hc] at h
      split at h
      · cases h
      · rename_i hd
        obtain ⟨r', hr, rfl⟩ := Option.map_eq_some_iff.1 h
        rw [List.cons_append, readsTo_plain hc, if_neg hd, readsTo_append hclose hne rest hr, Option.map_some]

/-- A text that is read to a delimiter at its very end reads to its end. -/
theorem reads_of_readsTo {close : Char} (hne : close ≠ '\\') : ∀ {s r : List Char},
    readsTo d (s ++ [close]) = some (r, []) → reads d s = some r
  | [], r, h => by
    rw [List.nil_append, readsTo_plain hne] at h
    split at h
    · cases h
      rfl
    · cases h
  | c :: s, r, h => by
    by_cases hc : c = '\\'
    · subst hc
      cases s with
      | nil =>
        rw [List.cons_append, List.nil_append, readsTo_escape] at h
        cases h
      | cons c s =>
        rw [List.cons_append, List.cons_append, readsTo_escape] at h
        obtain ⟨⟨r', rest⟩, hr, he⟩ := Option.map_eq_some_iff.1 h
        cases he
        rw [reads_escape, reads_of_readsTo hne hr, Option.map_some]
    · rw [List.cons_append, readsTo_plain hc] at h
      split at h
      · -- an inner delimiter leaves something behind it
        obtain ⟨-, hnil⟩ := Prod.mk.inj (Option.some.inj h)
        exact absurd hnil (by simp)
      · rename_i hd
        obtain ⟨⟨r', rest⟩, hr, he⟩ := Option.map_eq_some_iff.1 h
        cases he
        rw [reads_plain hc, if_neg hd, reads_of_readsTo hne hr, Option.map_some]

end reads

end Teloxide.Core
