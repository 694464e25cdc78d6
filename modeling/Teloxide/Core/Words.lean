import Teloxide.Core.Utf8

/-!
# Splitting strings

`str::split_whitespace`, `str::split` and `str::splitn(2, _)` on lists of characters.

* `head?_splitWhitespace`: the first word is what comes up to white space, once the white
  space in front is gone.
* `splitWhitespace_joined`, `split_joined`, `splitOnce_joined`: on words joined by single
  spaces, splitting at white space and splitting at the space agree.
-/
namespace Teloxide.Core.Words

open Teloxide.Core.Utf8

/-- `s.split_whitespace()` -/
def splitWhitespace (s : Str) : List Str := (s.splitOnP isWhitespace).filter (· ≠ [])

/-- The pieces between the matches of a separator that is not empty; `skip` counts what is
left of the match that the walk is in. -/
def splitFrom (separator : Str) : Nat → Str → List Str
  | _, [] => [[]]
  | skip + 1, _ :: s => splitFrom separator skip s
  | 0, c :: s =>
    if separator.isPrefixOf (c :: s) then [] :: splitFrom separator (separator.length - 1) s
    else (splitFrom separator 0 s).modifyHead (c :: ·)

/-- `s.split(separator)`: an empty separator matches between all characters and at both ends. -/
def split (separator s : Str) : List Str :=
  if separator = [] then [] :: (s.map fun c => [c]) ++ [[]] else splitFrom separator 0 s

/-- `s.splitn(2, separator)`: what comes before the first match, and what comes after it. -/
def splitOnce (separator : Str) : Str → Str × Option Str
  | [] => if separator = [] then ([], some []) else ([], none)
  | c :: s =>
    if separator.isPrefixOf (c :: s) then ([], some ((c :: s).drop separator.length))
    else
      let (first, rest) := splitOnce separator s
      (c :: first, rest)

/-- Not white space. -/
def isBlack (c : Char) : Bool := !isWhitespace c

/-! ## Words -/

@[simp] theorem splitWhitespace_nil : splitWhitespace [] = [] := by
  simp [splitWhitespace]

theorem head?_splitOnP (p : Char → Bool) (s : Str) : (s.splitOnP p).head? = some (s.takeWhile fun c => !p c) := by
  induction s with
  | nil => simp
  | cons c s ih =>
    rw [List.splitOnP_cons_eq_if_modifyHead]
    cases hc : p c with
    | true => simp [hc]
    | false =>
      rw [if_neg (by decide), List.head?_modifyHead, ih, List.takeWhile_cons_of_pos (by rw [hc]; rfl)]
      rfl

theorem splitWhitespace_cons_space {c : Char} (hc : isWhitespace c = true) (s : Str) :
    splitWhitespace (c :: s) = splitWhitespace s := by
  rw [splitWhitespace, List.splitOnP_cons_eq_if_modifyHead, if_pos hc]
  simp [splitWhitespace]

theorem splitWhitespace_word {w : Str} (hne : w ≠ []) (hw : ∀ c ∈ w, isWhitespace c = false) :
    splitWhitespace w = [w] := by
  rw [splitWhitespace, List.splitOnP_eq_singleton hw]
  simp [hne]

theorem splitWhitespace_append_space {w : Str} (hne : w ≠ []) (hw : ∀ c ∈ w, isWhitespace c = false) {c : Char}
    (hc : isWhitespace c = true) (s : Str) : splitWhitespace (w ++ c :: s) = w :: splitWhitespace s := by
  rw [splitWhitespace, List.splitOnP_append_cons_of_forall_mem hw c hc]
  simp [splitWhitespace, hne]

/-- The first word: white space in front is skipped, and white space ends it. -/
theorem head?_splitWhitespace (s : Str) :
    (splitWhitespace s).head? = if trimStart s = [] then none else some ((trimStart s).takeWhile isBlack) := by
  induction s with
  | nil => simp [trimStart]
  | cons c s ih =>
    cases hc : isWhitespace c with
    | true =>
      have htrim : trimStart (c :: s) = trimStart s := List.dropWhile_cons_of_pos hc
      rw [splitWhitespace_cons_space hc, ih, htrim]
    | false =>
      have htrim : trimStart (c :: s) = c :: s := List.dropWhile_cons_of_neg (by rw [hc]; decide)
      obtain ⟨first, rest, hsplit⟩ := List.exists_cons_of_ne_nil (List.splitOnP_ne_nil isWhitespace s)
      have hfirst : first = s.takeWhile isBlack := by
        have := head?_splitOnP isWhitespace s
        rw [hsplit] at this
        exact Option.some.inj this
      rw [htrim, if_neg (by simp), splitWhitespace, List.splitOnP_cons_eq_if_modifyHead, hc, if_neg (by decide), hsplit,
        List.modifyHead_cons, List.filter_cons_of_pos (by simp), List.head?_cons,
        List.takeWhile_cons_of_pos (by rw [isBlack, hc]; rfl), hfirst]

/-- A first word that the text begins with. -/
theorem head?_splitWhitespace_append {w : Str} (hne : w ≠ []) (hw : ∀ c ∈ w, isWhitespace c = false) (s : Str) :
    (splitWhitespace (w ++ s)).head? = some (w ++ s.takeWhile isBlack) := by
  have htrim : trimStart (w ++ s) = w ++ s := by
    cases w with
    | nil => exact absurd rfl hne
    | cons c w => exact List.dropWhile_cons_of_neg (by rw [hw c (by simp)]; decide)
  have hblack : ∀ c ∈ w, isBlack c = true := by
    intro c hc
    rw [isBlack, hw c hc]
    rfl
  rw [head?_splitWhitespace, htrim, if_neg (by simp [hne]), List.takeWhile_append_of_pos hblack]

theorem len_le_of_sublist {s t : Str} (h : s.Sublist t) : len s ≤ len t := by
  induction h with
  | slnil => exact Nat.le_refl _
  | cons c _ ih =>
    rw [len_cons]
    omega
  | cons_cons c _ ih =>
    rw [len_cons, len_cons]
    omega

/-- The first word is made of characters of the text that are not white space. -/
theorem sublist_of_head?_splitWhitespace {s w : Str} (h : (splitWhitespace s).head? = some w) :
    w.Sublist (s.filter isBlack) := by
  rw [head?_splitWhitespace] at h
  split at h
  · cases h
  · cases h
    have hfilter : ((trimStart s).takeWhile isBlack).filter isBlack = (trimStart s).takeWhile isBlack :=
      List.filter_eq_self.2 fun c hc => List.all_eq_true.mp List.all_takeWhile c hc
    rw [← hfilter]
    exact ((List.takeWhile_sublist isBlack).trans (List.dropWhile_sublist isWhitespace)).filter isBlack

/-! ## Separators -/

theorem splitFrom_singleton (d : Char) (s : Str) : splitFrom [d] 0 s = s.splitOn d := by
  induction s with
  | nil => rfl
  | cons c s ih =>
    rw [splitFrom, isPrefixOf_singleton, List.splitOn_cons_eq_if_modifyHead, List.length_singleton, Nat.sub_self, ih]
    have hcd : (d == c) = (c == d) := Bool.beq_comm
    rw [hcd]

/-- Splitting at one character. -/
theorem split_singleton (d : Char) (s : Str) : split [d] s = s.splitOn d := by
  rw [split, if_neg (by simp), splitFrom_singleton]

theorem split_singleton_ne_nil (d : Char) (s : Str) : split [d] s ≠ [] := by
  rw [split_singleton]
  exact List.splitOn_ne_nil d s

theorem head?_split_singleton (d : Char) (s : Str) : (split [d] s).head? = some (s.takeWhile (· ≠ d)) := by
  rw [split_singleton, List.splitOn_eq_splitOnP, head?_splitOnP]
  congr 2
  funext c
  by_cases h : c = d <;> simp [h]

theorem splitOnce_singleton_none {d : Char} {s : Str} (h : d ∉ s) : splitOnce [d] s = (s, none) := by
  induction s with
  | nil => rfl
  | cons c s ih =>
    have hc : (d == c) = false := beq_false_of_ne fun he => h (he ▸ List.mem_cons_self)
    rw [splitOnce, isPrefixOf_singleton, hc, if_neg (by decide), ih fun hm => h (List.mem_cons_of_mem _ hm)]

theorem splitOnce_singleton {d : Char} {first : Str} (h : d ∉ first) (rest : Str) :
    splitOnce [d] (first ++ d :: rest) = (first, some rest) := by
  induction first with
  | nil =>
    rw [List.nil_append, splitOnce, isPrefixOf_singleton, if_pos (by simp)]
    rfl
  | cons c first ih =>
    have hc : (d == c) = false := beq_false_of_ne fun he => h (he ▸ List.mem_cons_self)
    rw [List.cons_append, splitOnce, isPrefixOf_singleton, hc, if_neg (by decide),
      ih fun hm => h (List.mem_cons_of_mem _ hm)]

/-! ## Words joined by single spaces -/

/-- Words, and a space between any two of them. -/
def joined (words : List Str) : Str := [' '].intercalate words

/-- What a word is. -/
def IsWord (w : Str) : Prop := w ≠ [] ∧ ∀ c ∈ w, isWhitespace c = false

theorem isWord_of_all {w : Str} (h : (!w.isEmpty && w.all isBlack) = true) : IsWord w := by
  obtain ⟨hne, hall⟩ := Bool.and_eq_true_iff.mp h
  refine ⟨by simpa using hne, fun c hc => ?_⟩
  have := List.all_eq_true.mp hall c hc
  simpa [isBlack] using this

theorem IsWord.no_space {w : Str} (h : IsWord w) : ' ' ∉ w := fun hm => absurd (h.2 ' ' hm) (by decide)

theorem joined_cons_cons (w v : Str) (words : List Str) : joined (w :: v :: words) = w ++ ' ' :: joined (v :: words) := by
  simp [joined, List.intercalate_cons_cons]

theorem joined_ne_nil {w : Str} (h : IsWord w) (words : List Str) : joined (w :: words) ≠ [] := by
  cases words with
  | nil => simpa [joined] using h.1
  | cons v words => simp [joined_cons_cons, h.1]

theorem splitWhitespace_joined {words : List Str} (h : ∀ w ∈ words, IsWord w) : splitWhitespace (joined words) = words := by
  induction words with
  | nil => rfl
  | cons w words ih =>
    obtain ⟨hne, hw⟩ := h w (by simp)
    cases words with
    | nil => simpa [joined] using splitWhitespace_word hne hw
    | cons v words =>
      rw [joined_cons_cons, splitWhitespace_append_space hne hw (by decide), ih fun u hu => h u (List.mem_cons_of_mem _ hu)]

theorem split_joined {words : List Str} (h : ∀ w ∈ words, IsWord w) (hne : words ≠ []) :
    split [' '] (joined words) = words := by
  rw [split_singleton]
  exact List.splitOn_intercalate ' ' (fun w hw => (h w hw).no_space) hne

theorem splitOnce_joined {w : Str} (hw : IsWord w) (words : List Str) :
    splitOnce [' '] (joined (w :: words)) = (w, if words = [] then none else some (joined words)) := by
  cases words with
  | nil => simpa [joined] using splitOnce_singleton_none hw.no_space
  | cons v words => rw [joined_cons_cons, splitOnce_singleton hw.no_space, if_neg (by simp)]

end Teloxide.Core.Words
