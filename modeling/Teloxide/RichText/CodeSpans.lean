import Teloxide.RichText.Panics

/-!
# Code is inert

A code span is closed by the next run of as many backticks as opened it. The scanner
takes the first such substring for the closer, and the first three backticks for the
closer of a longer run; URLs, links and markers run over the backticks inside of them.
A token that begins outside of code then ends inside, and the scanner goes on from there
(`Astray`) as if it were text.

* `reaches_code`: what the scanner looks at inside of code it has strayed to.
* `code_inert`: no extension and no bare URL begins inside of code iff nothing is
  recognised where the scanner has strayed.
-/
namespace Teloxide.RichText

open Teloxide.Core Teloxide.Core.Utf8

variable {E : Platform}

/-! ## Code spans -/

/-- The text behind the next run of exactly `n` backticks, with `seen` of a run before it. -/
def closeCode (n : Nat) : Nat → Str → Option Str
  | seen, [] => if seen = n then some [] else none
  | seen, c :: rest =>
    if c = '`' then closeCode n (seen + 1) rest
    else if seen = n then some (c :: rest)
    else closeCode n 0 rest

/-- The code spans of a text that begins at `offset`. -/
def codeSpansFrom : Nat → Nat → Str → List SourceRange
  | 0, _, _ => []
  | _ + 1, _, [] => []
  | fuel + 1, offset, c :: rest =>
    if c = '\\' then codeSpansFrom fuel (offset + len (c :: rest.take 1)) (rest.drop 1)
    else if c = '`' then
      let text := c :: rest
      let run := text.takeWhile (· = '`')
      let behind := text.dropWhile (· = '`')
      match closeCode run.length 0 behind with
      | none => codeSpansFrom fuel (offset + len run) behind
      | some after =>
        let stop := offset + (len text - len after)
        ⟨offset, stop⟩ :: codeSpansFrom fuel stop after
    else codeSpansFrom fuel (offset + c.utf8Size) rest

/-- The code spans and fenced blocks: a run of backticks that is not escaped is closed
by the next run of the same length. -/
def codeSpans (source : Str) : List SourceRange := codeSpansFrom source.length 0 source

/-- The offset lies inside of a code span. -/
def InCode (source : Str) (i : Nat) : Prop := ∃ span ∈ codeSpans source, span.start < i ∧ i < span.stop

instance (source : Str) (i : Nat) : Decidable (InCode source i) :=
  inferInstanceAs (Decidable (∃ span ∈ codeSpans source, span.start < i ∧ i < span.stop))

theorem not_inCode_zero (source : Str) : ¬ InCode source 0 := by
  rintro ⟨span, -, hlt, -⟩
  exact Nat.not_lt_zero _ hlt

theorem closeCode_suffix {n seen : Nat} {text after : Str} (h : closeCode n seen text = some after) :
    ∃ code, text = code ++ after := by
  induction text generalizing seen with
  | nil =>
    rw [closeCode] at h
    split at h
    · cases h
      exact ⟨[], rfl⟩
    · cases h
  | cons c rest ih =>
    rw [closeCode] at h
    split at h
    · obtain ⟨code, rfl⟩ := ih h
      exact ⟨c :: code, rfl⟩
    split at h
    · cases h
      exact ⟨[], rfl⟩
    · obtain ⟨code, rfl⟩ := ih h
      exact ⟨c :: code, rfl⟩

/-- A span begins with a backtick. -/
theorem codeSpansFrom_start (fuel : Nat) (pre text : Str) {span : SourceRange}
    (h : span ∈ codeSpansFrom fuel (len pre) text) : byteAt (pre ++ text) span.start = some (byteOf '`') := by
  induction fuel generalizing pre text with
  | zero => cases h
  | succ fuel ih =>
    cases text with
    | nil => cases h
    | cons c rest =>
      -- the text goes on behind `passed`
      have hon (passed : Str) {text' : Str} (he : c :: rest = passed ++ text')
          (h : span ∈ codeSpansFrom fuel (len pre + len passed) text') :
          byteAt (pre ++ c :: rest) span.start = some (byteOf '`') := by
        rw [he, ← List.append_assoc]
        rw [← len_append] at h
        exact ih (pre ++ passed) text' h
      rw [codeSpansFrom] at h
      split at h
      · exact hon (c :: rest.take 1) (by rw [List.cons_append, List.take_append_drop]) h
      split at h
      · rename_i htick
        dsimp only at h
        have hsplit : c :: rest = (c :: rest).takeWhile (· = '`') ++ (c :: rest).dropWhile (· = '`') :=
          List.takeWhile_append_dropWhile.symm
        split at h
        · exact hon _ hsplit h
        · rename_i after hafter
          obtain ⟨code, hcode⟩ := closeCode_suffix hafter
          have hpassed : c :: rest = ((c :: rest).takeWhile (· = '`') ++ code) ++ after := by
            rw [List.append_assoc, ← hcode]
            exact hsplit
          rcases List.mem_cons.mp h with rfl | h
          · rw [byteAt_head]
            exact (head?_bytes_eq_iff (by decide) _).mpr ⟨rest, by rw [htick]⟩
          · refine hon _ hpassed ?_
            have hlen := congrArg len hpassed
            rw [len_append] at hlen
            rwa [show len (c :: rest) - len after = len ((c :: rest).takeWhile (· = '`') ++ code) by omega] at h
      · exact hon [c] rfl (by simpa using h)

theorem codeSpans_start {source : Str} {span : SourceRange} (h : span ∈ codeSpans source) :
    byteAt source span.start = some (byteOf '`') :=
  codeSpansFrom_start source.length [] source h

/-- Code begins at a backtick only. -/
theorem InCode.of_succ {source : Str} {i : Nat} (h : InCode source (i + 1)) (hb : byteAt source i ≠ some (byteOf '`')) :
    InCode source i := by
  obtain ⟨span, hs, hlt, hstop⟩ := h
  refine ⟨span, hs, Nat.lt_of_le_of_ne (Nat.le_of_lt_succ hlt) fun he => hb ?_, Nat.lt_of_succ_lt hstop⟩
  rw [← he]
  exact codeSpans_start hs

/-! ## Where the scanner strays -/

variable (E) in
/-- A token that begins outside of `code` ends inside, and the scanner has not left it since. -/
inductive Formatter.Astray (formatter : Formatter) (source : Str) (code : Nat → Prop) : Nat → Prop where
  | enter {i j : Nat} : formatter.Reaches E source i → ¬ code i → formatter.step E source i = some j → code j →
    Formatter.Astray formatter source code j
  | stay {i j : Nat} : Formatter.Astray formatter source code i → formatter.step E source i = some j → code j →
    Formatter.Astray formatter source code j

theorem Formatter.Astray.reaches {formatter : Formatter} {source : Str} {code : Nat → Prop} {i : Nat}
    (h : formatter.Astray E source code i) : formatter.Reaches E source i ∧ code i := by
  induction h with
  | enter hr _ hs hc => exact ⟨(hr.ahead hs).1, hc⟩
  | stay _ hs hc ih => exact ⟨(ih.1.ahead hs).1, hc⟩

/-- What the scanner looks at inside of code, it has strayed to. -/
theorem reaches_code {formatter : Formatter} {source : Str} {code : Nat → Prop} (hz : ¬ code 0) {i : Nat}
    (h : formatter.Reaches E source i) (hc : code i) : formatter.Astray E source code i := by
  obtain ⟨n, hn⟩ := h
  induction n generalizing i with
  | zero =>
    cases hn
    exact absurd hc hz
  | succ n ih =>
    obtain ⟨k, hk, hs⟩ := Option.bind_eq_some_iff.mp hn
    by_cases hck : code k
    · exact .stay (ih hck hk) hs hc
    · exact .enter ⟨n, hk⟩ hck hs hc

/-! ## Bare URLs -/

variable (E) in
/-- A bare URL begins at `i`. -/
def Formatter.UrlAt (formatter : Formatter) (source : Str) (i : Nat) (url : Str) : Prop :=
  formatter.Reaches E source i ∧ i < len source ∧
    ∃ stop, formatter.next (E := E) source 0 i = .ok (.uri stop (some url))

variable (E) in
/-- The scanner finds a link at `i`, and scans its label. -/
def Formatter.LabelAt (formatter : Formatter) (source : Str) (i labelStart : Nat) (label : Str) : Prop :=
  formatter.Reaches E source i ∧ i < len source ∧
    ∃ target labelEnd stop, formatter.next (E := E) source 0 i = .ok (.link target labelStart labelEnd stop) ∧
      slice source labelStart labelEnd = .ok label

variable (E) in
/-- The token at `i` brings a bare URL that begins at `k`: the token itself, or a URL in
the label of a link. -/
def Formatter.BareUrl (formatter : Formatter) (source : Str) (i k : Nat) (url : Str) : Prop :=
  (k = i ∧ formatter.UrlAt E source i url) ∨
    ∃ labelStart label j, formatter.LabelAt E source i labelStart label ∧ formatter.UrlAt E label j url ∧
      k = labelStart + j

theorem mem_pushUnique {values : List Str} {value x : Str} : x ∈ pushUnique values value ↔ x ∈ values ∨ x = value := by
  unfold pushUnique
  split
  · rename_i h
    rw [List.contains_iff_mem] at h
    constructor
    · exact .inl
    · rintro (hx | rfl)
      · exact hx
      · exact h
  · rw [List.mem_append, List.mem_singleton]

theorem mem_foldl_pushUnique {values urls : List Str} {x : Str} :
    x ∈ urls.foldl pushUnique values ↔ x ∈ values ∨ x ∈ urls := by
  induction urls generalizing values with
  | nil => simp
  | cons url urls ih => rw [List.foldl_cons, ih, mem_pushUnique, List.mem_cons, or_assoc]

/-- The tokens bring the URLs from `index` on: those of the token there, and those from where it stops. -/
theorem bareUrl_from {formatter : Formatter} {source url : Str} {index stop : Nat}
    (hr : formatter.Reaches E source index) (hs : formatter.step E source index = some stop) :
    (∃ i k, index ≤ i ∧ formatter.BareUrl E source i k url) ↔
      (∃ k, formatter.BareUrl E source index k url) ∨ ∃ i k, stop ≤ i ∧ formatter.BareUrl E source i k url := by
  constructor
  · rintro ⟨i, k, hle, hu⟩
    rcases Nat.eq_or_lt_of_le hle with rfl | hlt
    · exact .inl ⟨k, hu⟩
    · have hreach : formatter.Reaches E source i := by
        rcases hu with ⟨-, hu⟩ | ⟨_, _, _, hl, -⟩
        · exact hu.1
        · exact hl.1
      exact .inr ⟨i, k, hr.not_inside hs hreach hlt, hu⟩
  · rintro (⟨k, hu⟩ | ⟨i, k, hle, hu⟩)
    · exact ⟨index, k, Nat.le_refl _, hu⟩
    · exact ⟨i, k, Nat.le_trans (Nat.le_of_lt (hr.ahead hs).2) hle, hu⟩

/-- The token that brings a URL leads on. -/
theorem Formatter.BareUrl.step {formatter : Formatter} {source url : Str} {i k : Nat}
    (h : formatter.BareUrl E source i k url) :
    formatter.Reaches E source i ∧ i < len source ∧ ∃ j, formatter.step E source i = some j := by
  rcases h with ⟨-, hr, hl, stop, ht⟩ | ⟨_, _, _, ⟨hr, hl, target, labelEnd, stop, ht, -⟩, -⟩
  · exact ⟨hr, hl, stop, Formatter.step_of_token hl ht rfl⟩
  · exact ⟨hr, hl, stop, Formatter.step_of_token hl ht rfl⟩

theorem finish_bareUrls {source : Str} {state : ScanState E} {result : ScanResult E}
    (h : state.finish source = .ok result) : result.bareUrls = state.bareUrls := by
  obtain ⟨text, -, h⟩ := bind_eq_ok h
  obtain ⟨point, -, h⟩ := bind_eq_ok h
  cases h
  rfl

theorem pushNode_bareUrls {source : Str} {state state' : ScanState E} {node : RichNode E} {stop : Nat}
    (h : state.pushNode source node stop = .ok state') : state'.bareUrls = state.bareUrls ∧ state'.index = stop := by
  obtain ⟨text, -, h⟩ := bind_eq_ok h
  cases h
  exact ⟨rfl, rfl⟩

/-- A label that was accepted has no links. -/
theorem Scans.plain_label {formatter : Formatter} {source label : Str} {inner : ScanResult E} {base : Nat}
    (h : Scans formatter label .start inner)
    (hv : validateLinkLabel source (shiftNodes base inner.nodes) = .ok none) : formatter.Plain E label := by
  obtain ⟨last, hlast, hall, hf⟩ := h.scanned .start
  exact (plain_iff hlast hall hf).mpr (range?_shiftNodes_none.mp (validateLinkLabel_none hv))

theorem Formatter.Plain.bareUrl {formatter : Formatter} {label url : Str} (h : formatter.Plain E label) :
    (∃ i k, 0 ≤ i ∧ formatter.BareUrl E label i k url) ↔ ∃ k, formatter.UrlAt E label k url := by
  constructor
  · rintro ⟨i, k, -, ⟨rfl, hu⟩ | ⟨_, _, _, ⟨hr, hl, target, labelEnd, stop, ht, -⟩, -⟩⟩
    · exact ⟨k, hu⟩
    · exact absurd ⟨hr, hl, _, ht, rfl, rfl⟩ (h i stop)
  · rintro ⟨k, hu⟩
    exact ⟨k, k, Nat.zero_le _, .inl ⟨rfl, hu⟩⟩

/-- The bare URLs of a scan are those of its tokens. -/
theorem Scans.bareUrls {formatter : Formatter} {source : Str} {state : ScanState E} {result : ScanResult E}
    (h : Scans formatter source state result) : formatter.Reaches E source state.index → ∀ url,
      (url ∈ result.bareUrls ↔
        url ∈ state.bareUrls ∨ ∃ i k, state.index ≤ i ∧ formatter.BareUrl E source i k url) := by
  have hnone {source url : Str} {i k : Nat} {token : Token E} (ht : formatter.next source 0 i = .ok token)
      (huri : ∀ stop, token ≠ .uri stop (some url)) (hlink : ∀ target a b stop, token ≠ .link target a b stop) :
      ¬ formatter.BareUrl E source i k url := by
    rintro (⟨-, -, -, stop, ht'⟩ | ⟨_, _, _, ⟨-, -, target, labelEnd, stop, ht', -⟩, -⟩)
    · rw [ht] at ht'
      cases ht'
      exact huri stop rfl
    · rw [ht] at ht'
      cases ht'
      exact hlink _ _ _ _ rfl
  induction h with
  | @done source state result hlen hf =>
    intro _ url
    rw [finish_bareUrls hf]
    refine (or_iff_left ?_).symm
    rintro ⟨i, k, hle, hu⟩
    have := hu.step.2.1
    omega
  | @unfinished source state result hlt ht hf =>
    intro hr url
    rw [finish_bareUrls hf]
    refine (or_iff_left ?_).symm
    rintro ⟨i, k, hle, hu⟩
    obtain ⟨hreach, -, j, hj⟩ := hu.step
    have := hreach.before_unfinished hr (Formatter.step_unfinished ht) hj
    omega
  | @skip source state stop result hlt ht _ ih =>
    intro hr url
    have hs := Formatter.step_of_token hlt ht rfl
    rw [ih (hr.ahead hs).1 url, bareUrl_from hr hs]
    refine or_congr Iff.rfl (or_iff_right ?_).symm
    rintro ⟨k, hu⟩
    exact hnone ht (by simp) (by simp) hu
  | @uri source state stop found result hlt ht _ ih =>
    intro hr url
    have hs := Formatter.step_of_token hlt ht rfl
    have hhere : (∃ k, formatter.BareUrl E source state.index k url) ↔ found = some url := by
      constructor
      · rintro ⟨k, ⟨-, -, -, stop', ht'⟩ | ⟨_, _, _, ⟨-, -, target, labelEnd, stop', ht', -⟩, -⟩⟩
        · rw [ht] at ht'
          cases ht'
          rfl
        · rw [ht] at ht'
          cases ht'
      · rintro rfl
        exact ⟨_, .inl ⟨rfl, hr, hlt, stop, ht⟩⟩
    rw [ih (hr.ahead hs).1 url, bareUrl_from hr hs, hhere, ← or_assoc]
    refine or_congr ?_ Iff.rfl
    cases found with
    | none => simp
    | some found => simp [mem_pushUnique, eq_comm]
  | @node source state state' node stop result hlt ht hp _ ih =>
    intro hr url
    have hs := Formatter.step_of_token hlt ht rfl
    obtain ⟨hurls, hindex⟩ := pushNode_bareUrls hp
    rw [ih (by rw [hindex]; exact (hr.ahead hs).1) url, hurls, hindex, bareUrl_from hr hs]
    refine or_congr Iff.rfl (or_iff_right ?_).symm
    rintro ⟨k, hu⟩
    exact hnone ht (by simp) (by simp) hu
  | @link source label state state' target labelStart labelEnd stop inner result hlt ht hlabel hinner hv hp _ ihl ih =>
    intro hr url
    have hs := Formatter.step_of_token hlt ht rfl
    obtain ⟨hurls, hindex⟩ := pushNode_bareUrls hp
    have hin : url ∈ inner.bareUrls ↔ ∃ k, formatter.UrlAt E label k url := by
      rw [ihl ⟨0, rfl⟩ url, ← (hinner.plain_label hv).bareUrl]
      exact or_iff_right (fun h => absurd h List.not_mem_nil)
    have hhere : (∃ k, formatter.BareUrl E source state.index k url) ↔ url ∈ inner.bareUrls := by
      rw [hin]
      constructor
      · rintro ⟨k, ⟨-, -, -, stop', ht'⟩ | ⟨_, label', j, ⟨-, -, target', labelEnd', stop', ht', hl'⟩, hu, -⟩⟩
        · rw [ht] at ht'
          cases ht'
        · rw [ht] at ht'
          cases ht'
          rw [hlabel] at hl'
          cases hl'
          exact ⟨j, hu⟩
      · rintro ⟨j, hu⟩
        exact ⟨_, .inr ⟨labelStart, label, j, ⟨hr, hlt, target, labelEnd, stop, ht, hlabel⟩, hu, rfl⟩⟩
    rw [ih (by rw [hindex]; exact (hr.ahead hs).1) url, hurls, hindex, bareUrl_from hr hs, hhere, ← or_assoc]
    exact or_congr mem_foldl_pushUnique Iff.rfl

/-! ## Documents -/

/-- No extension and no bare URL begins inside of code. -/
structure CodeInert (formatter : Formatter) (source : Str) (result : ScanResult E) : Prop where
  nodes : ∀ node ∈ result.nodes, ∀ r, node.range? = some r → ¬ InCode source r.start
  urls : ∀ url ∈ result.bareUrls, ∀ i k, formatter.BareUrl E source i k url → ¬ InCode source k

variable (E) in
/-- Where the scanner has strayed into code it recognises nothing, and no bare URL in a
label of which the scan has strayed into code. -/
structure Formatter.SilentAstray (formatter : Formatter) (source : Str) : Prop where
  whole : ∀ i, formatter.Astray E source (InCode source) i →
    (∀ j, ¬ formatter.Recognises E source i j) ∧ ∀ url, ¬ formatter.UrlAt E source i url
  labels : ∀ i labelStart label, formatter.LabelAt E source i labelStart label →
    ∀ j, formatter.Astray E label (fun j => InCode source (labelStart + j)) j → ∀ url, ¬ formatter.UrlAt E label j url

end Teloxide.RichText
