import Teloxide.RichText.HtmlBoundaries

/-!
# The nodes tile the source

The loop of the scanners keeps `index` and `textStart` apart, skips text by a dozen
rules and scans labels on their own. What carries the result is `Scanned`: the nodes so
far tile the source up to `textStart` (`Tiles`), and no landmark lies inside of one.

* `scanLoop_scanned`: a scan that succeeds ends with `finish` in a state that is `Scanned`.
* `parse_tiles`: the nodes of a document tile its source, and the nodes of a label the
  slice of the label.
-/
namespace Teloxide.RichText

open Teloxide.Core Teloxide.Core.Utf8

variable {E : Platform}

/-! ## Tilings -/

/-- The part of the source that a node stands for. -/
def RichNode.piece (source : Str) (node : RichNode E) : Checked Str :=
  match node with
  | .text content => .ok content
  | .dateTime node => slice source node.sourceRange.start node.sourceRange.stop
  | .invalidTime _ range | .link _ _ range | .customEmoji _ range => slice source range.start range.stop

/-- The nodes in order, each where the one before it ends. -/
inductive Tiles (source : Str) : Nat → Nat → List (RichNode E) → Prop where
  | nil {i : Nat} : IsBoundary source i → Tiles source i i []
  | text {i j k : Nat} {content : Str} {nodes : List (RichNode E)} :
    slice source i j = .ok content → Tiles source j k nodes → Tiles source i k (.text content :: nodes)
  | node {i j k : Nat} {node : RichNode E} {nodes : List (RichNode E)} :
    node.range? = some ⟨i, j⟩ → i < j → IsBoundary source i → Tiles source j k nodes → Tiles source i k (node :: nodes)

namespace Tiles

variable {source : Str} {i j k : Nat} {nodes rest : List (RichNode E)}

theorem boundary (h : Tiles source i j nodes) : IsBoundary source i ∧ IsBoundary source j := by
  induction h with
  | nil hb => exact ⟨hb, hb⟩
  | text hs _ ih => exact ⟨(isBoundary_of_slice hs).1, ih.2⟩
  | node _ _ hb _ ih => exact ⟨hb, ih.2⟩

theorem le (h : Tiles source i j nodes) : i ≤ j := by
  induction h with
  | nil _ => exact Nat.le_refl _
  | text hs _ ih =>
    have := (isBoundary_of_slice hs).2.2
    omega
  | node _ hlt _ _ ih => omega

theorem append (h : Tiles source i j nodes) (h' : Tiles source j k rest) : Tiles source i k (nodes ++ rest) := by
  induction h with
  | nil _ => exact h'
  | text hs _ ih => exact .text hs (ih h')
  | node hr hlt hb _ ih => exact .node hr hlt hb (ih h')

/-- The ranges of the nodes lie in order between the two offsets. -/
theorem ranges (h : Tiles source i j nodes) :
    (∀ node ∈ nodes, ∀ r, node.range? = some r → i ≤ r.start ∧ r.start < r.stop ∧ r.stop ≤ j) ∧
      (nodes.filterMap RichNode.range?).Pairwise fun r r' => r.stop ≤ r'.start := by
  induction h with
  | nil _ => exact ⟨fun _ hn => absurd hn List.not_mem_nil, .nil⟩
  | text hs h ih =>
    have hij := (isBoundary_of_slice hs).2.2
    refine ⟨fun node hn r hr => ?_, ih.2⟩
    rcases List.mem_cons.mp hn with rfl | hn
    · cases hr
    · have := ih.1 node hn r hr
      omega
  | node hrange hlt _ h ih =>
    refine ⟨fun node hn r hr => ?_, ?_⟩
    · rcases List.mem_cons.mp hn with rfl | hn
      · rw [hrange] at hr
        cases hr
        exact ⟨Nat.le_refl _, hlt, h.le⟩
      · have := ih.1 node hn r hr
        omega
    · rw [List.filterMap_cons_some hrange]
      refine .cons (fun r hr => ?_) ih.2
      obtain ⟨node, hn, hr⟩ := List.mem_filterMap.mp hr
      exact (ih.1 node hn r hr).1

theorem piece_eq {node : RichNode E} {r : SourceRange} (h : node.range? = some r) (source : Str) :
    node.piece source = slice source r.start r.stop := by
  cases node <;> cases h <;> rfl

theorem start_boundary (h : Tiles source i j nodes) :
    ∀ node ∈ nodes, ∀ r, node.range? = some r → IsBoundary source r.start := by
  induction h with
  | nil _ => exact fun _ hn => absurd hn List.not_mem_nil
  | text _ _ ih =>
    intro node hn r hr
    rcases List.mem_cons.mp hn with rfl | hn
    · cases hr
    · exact ih node hn r hr
  | node hrange _ hb _ ih =>
    intro node hn r hr
    rcases List.mem_cons.mp hn with rfl | hn
    · rw [hrange] at hr
      cases hr
      exact hb
    · exact ih node hn r hr

/-- The pieces give the source back. -/
theorem pieces (h : Tiles source i j nodes) :
    ∃ parts, nodes.mapM (RichNode.piece source) = .ok parts ∧ slice source i j = .ok parts.flatten := by
  induction h with
  | nil hb =>
    refine ⟨[], rfl, ?_⟩
    obtain ⟨pre, rest, rfl, rfl⟩ := isBoundary_iff.1 hb
    exact slice_eq_ok_iff.2 ⟨pre, rest, rfl, rfl, rfl⟩
  | text hs h ih =>
    obtain ⟨parts, hm, hp⟩ := ih
    refine ⟨_ :: parts, ?_, slice_join hs hp⟩
    rw [List.mapM_cons, hm]
    rfl
  | node hrange hlt hb h ih =>
    obtain ⟨parts, hm, hp⟩ := ih
    obtain ⟨part, hpart⟩ := slice_of_boundary hb h.boundary.1 (Nat.le_of_lt hlt)
    refine ⟨part :: parts, ?_, slice_join hpart hp⟩
    rw [List.mapM_cons, piece_eq hrange, hpart, hm]
    rfl

end Tiles

theorem range?_shift (base : Nat) (node : RichNode E) :
    (shiftNodeRanges base node).range? = node.range?.map (SourceRange.shift base) := by
  cases node <;> simp [shiftNodeRanges, RichNode.range?]

/-- A part of a part is a part. -/
theorem slice_slice {s mid part : Str} {i j k l : Nat} (h : slice s i j = .ok mid) (hp : slice mid k l = .ok part) :
    slice s (i + k) (i + l) = .ok part := by
  obtain ⟨pre, post, rfl, rfl, rfl⟩ := slice_eq_ok_iff.1 h
  obtain ⟨p, q, rfl, rfl, rfl⟩ := slice_eq_ok_iff.1 hp
  exact slice_eq_ok_iff.2 ⟨pre ++ p, q ++ post, by simp, by simp, by omega⟩

/-- What is scanned on a slice and shifted tiles the slice. -/
theorem Tiles.shift {source label : Str} {base stop i j : Nat} {nodes : List (RichNode E)}
    (hs : slice source base stop = .ok label) (h : Tiles label i j nodes) :
    Tiles source (base + i) (base + j) (shiftNodes base nodes) := by
  induction h with
  | nil hb => exact .nil (isBoundary_slice hs hb)
  | text ht _ ih => exact .text (slice_slice hs ht) ih
  | node hr hlt hb _ ih =>
    refine .node ?_ (Nat.add_lt_add_left hlt base) (isBoundary_slice hs hb) ih
    rw [range?_shift, hr]
    rfl

/-! ## The lexers -/

/-- The slice of the source that is the label of the link at `range`. -/
def Formatter.label? (formatter : Formatter) (source : Str) (range : SourceRange) : Option (Nat × Nat) :=
  match formatter with
  | .main | .llm => (findUnescaped source (range.start + 1) (byteOf ']')).map fun labelEnd => (range.start + 1, labelEnd)
  | .html =>
    match findTagEnd source range.start with
    | .ok (some tagEnd) => some (tagEnd + 1, range.stop - len "</a>".toList)
    | _ => none

theorem Formatter.next_fits (formatter : Formatter) {source : Str} {index : Nat} {token : Token E}
    (hb : IsBoundary source index) (hl : index < len source) (h : formatter.next source 0 index = .ok token) :
    token.Fits source index := by
  have hof (hr : Returns (formatter.next source 0 index) (Token.Fits (E := E) source index)) :
      token.Fits source index := by
    obtain ⟨token', he, hf⟩ := hr
    rw [h] at he
    cases he
    exact hf
  cases formatter with
  | main => exact hof (nextToken_main hb hl)
  | llm =>
    by_cases hs : Splits E source index
    · rw [Formatter.next, nextToken_error hs] at h
      cases h
    · exact hof (nextToken_llm hb hl hs)
  | html => exact hof (nextHtmlToken_returns hb hl)

theorem markerToken_ne_link {dialect : Dialect} {source : Str} {base index : Nat} {marker : MarkerScan E}
    {target : LinkTarget} {labelStart labelEnd stop : Nat} :
    markerToken dialect source base index marker ≠ .ok (.link target labelStart labelEnd stop) := by
  intro h
  unfold markerToken at h
  split at h
  · obtain ⟨_, _, he⟩ := map_eq_ok h
    cases he
  · cases h
  · split at h
    · obtain ⟨_, _, he⟩ := map_eq_ok h
      cases he
    · cases h

theorem linkToken_label {source : Str} {index : Nat} {target : LinkTarget} {labelStart labelEnd stop : Nat}
    (h : linkToken (E := E) source index = .ok (some (.link target labelStart labelEnd stop))) :
    byteAt source index = some (byteOf '[') ∧ labelStart = index + 1 ∧
      findUnescaped source (index + 1) (byteOf ']') = some labelEnd := by
  unfold linkToken at h
  split at h
  · rename_i hbracket
    obtain ⟨r, hr, h⟩ := bind_eq_ok h
    split at h
    · cases h
    · cases h
      refine ⟨hbracket, rfl, ?_⟩
      unfold parseMarkdownLink at hr
      split at hr
      · cases hr
      rename_i found hfound
      split at hr
      · cases hr
      dsimp only at hr
      split at hr
      · cases hr
      obtain ⟨raw, -, hr⟩ := bind_eq_ok hr
      split at hr
      · obtain ⟨destination, -, hr⟩ := bind_eq_ok hr
        cases hr
        exact hfound
      · cases hr
        exact hfound
  · cases h

theorem emojiToken_ne_link {source : Str} {base index : Nat} {target : LinkTarget} {labelStart labelEnd stop : Nat} :
    emojiToken (E := E) source base index ≠ .ok (some (.link target labelStart labelEnd stop)) := by
  intro h
  unfold emojiToken at h
  split at h
  · obtain ⟨r, -, h⟩ := bind_eq_ok h
    split at h
    · cases h
    · cases h
  · cases h

/-- A link comes from the brackets alone. -/
theorem nextToken_label {dialect : Dialect} {source : Str} {index : Nat} {target : LinkTarget}
    {labelStart labelEnd stop : Nat}
    (h : nextToken (E := E) dialect source 0 index = .ok (.link target labelStart labelEnd stop)) :
    byteAt source index = some (byteOf '[') ∧ labelStart = index + 1 ∧
      findUnescaped source (index + 1) (byteOf ']') = some labelEnd := by
  obtain ⟨rest, -, h⟩ := bind_eq_ok h
  split at h
  · obtain ⟨_, _, he⟩ := map_eq_ok h
    cases he
  split at h
  · obtain ⟨_, _, he⟩ := map_eq_ok h
    cases he
  split at h
  · obtain ⟨_, _, he⟩ := map_eq_ok h
    cases he
  obtain ⟨uri, -, h⟩ := bind_eq_ok h
  split at h
  · cases h
  obtain ⟨link, hlink, h⟩ := bind_eq_ok h
  split at h
  · cases h
    exact linkToken_label hlink
  obtain ⟨emoji, hemoji, h⟩ := bind_eq_ok h
  split at h
  · cases h
    exact absurd hemoji emojiToken_ne_link
  obtain ⟨marker, -, h⟩ := bind_eq_ok h
  exact absurd h markerToken_ne_link

theorem failed_ne_link {source tag : Str} {base index : Nat} {message : String} {target : LinkTarget}
    {labelStart labelEnd stop : Nat} :
    (do .ok (.failed (← RenderError.invalid "html" source (base + index) tag message)) : Checked (Token E))
      ≠ .ok (.link target labelStart labelEnd stop) := by
  intro h
  obtain ⟨error, -, h⟩ := bind_eq_ok h
  cases h

theorem anchorElement_label {source tag : Str} {base index last : Nat} {attrs : Table Str Str} {target : LinkTarget}
    {labelStart labelEnd stop : Nat}
    (h : anchorElement (E := E) source base index last tag attrs = .ok (.link target labelStart labelEnd stop)) :
    labelStart = last + 1 ∧ stop = labelEnd + len "</a>".toList := by
  unfold anchorElement at h
  dsimp only at h
  split at h
  · exact absurd h failed_ne_link
  obtain ⟨rest, -, h⟩ := bind_eq_ok h
  split at h
  · exact absurd h failed_ne_link
  · cases h
    exact ⟨rfl, rfl⟩

theorem timeElement_ne_link {source tag : Str} {base index last : Nat} {attrs : Table Str Str} {selfClosing : Bool}
    {target : LinkTarget} {labelStart labelEnd stop : Nat} :
    timeElement (E := E) source base index last tag attrs selfClosing ≠ .ok (.link target labelStart labelEnd stop) := by
  intro h
  unfold timeElement at h
  dsimp only at h
  split at h
  · exact absurd h failed_ne_link
  obtain ⟨expression, -, h⟩ := bind_eq_ok h
  split at h
  · exact absurd h failed_ne_link
  split at h
  · exact absurd h failed_ne_link
  obtain ⟨found, -, h⟩ := bind_eq_ok h
  split at h
  · exact absurd h failed_ne_link
  · cases h

theorem emojiElement_ne_link {source tag : Str} {base index last : Nat} {attrs : Table Str Str} {selfClosing : Bool}
    {target : LinkTarget} {labelStart labelEnd stop : Nat} :
    emojiElement (E := E) source base index last tag attrs selfClosing ≠ .ok (.link target labelStart labelEnd stop) := by
  intro h
  unfold emojiElement at h
  dsimp only at h
  split at h
  · exact absurd h failed_ne_link
  obtain ⟨found, -, h⟩ := bind_eq_ok h
  split at h
  · exact absurd h failed_ne_link
  · cases h

theorem tagToken_label {source : Str} {base index last : Nat} {target : LinkTarget} {labelStart labelEnd stop : Nat}
    (h : tagToken (E := E) source base index last = .ok (.link target labelStart labelEnd stop)) :
    labelStart = last + 1 ∧ stop = labelEnd + len "</a>".toList := by
  unfold tagToken at h
  obtain ⟨tag, -, h⟩ := bind_eq_ok h
  split at h
  · cases h
  dsimp only at h
  split at h
  · obtain ⟨attrs, -, h⟩ := bind_eq_ok h
    obtain ⟨closed, -, h⟩ := bind_eq_ok h
    split at h
    · cases h
    split at h
    · exact absurd h timeElement_ne_link
    split at h
    · exact absurd h emojiElement_ne_link
    · exact anchorElement_label h
  · cases h

theorem nextHtmlToken_label {source : Str} {index : Nat} {target : LinkTarget} {labelStart labelEnd stop : Nat}
    (h : nextHtmlToken (E := E) source 0 index = .ok (.link target labelStart labelEnd stop)) :
    ∃ last, findTagEnd source index = .ok (some last) ∧ labelStart = last + 1 ∧ stop = labelEnd + len "</a>".toList := by
  obtain ⟨uri, -, h⟩ := bind_eq_ok h
  split at h
  · cases h
  split at h
  · obtain ⟨_, _, he⟩ := map_eq_ok h
    cases he
  obtain ⟨unclosed, -, h⟩ := bind_eq_ok h
  split at h
  · cases h
  obtain ⟨literal, -, h⟩ := bind_eq_ok h
  split at h
  · cases h
  obtain ⟨last, hlast, h⟩ := bind_eq_ok h
  split at h
  · obtain ⟨rest, -, h⟩ := bind_eq_ok h
    split at h
    · cases h
    · obtain ⟨_, _, he⟩ := map_eq_ok h
      cases he
  · exact ⟨_, hlast, tagToken_label h⟩

theorem Formatter.next_label (formatter : Formatter) {source : Str} {index : Nat} {target : LinkTarget}
    {labelStart labelEnd stop : Nat}
    (h : formatter.next (E := E) source 0 index = .ok (.link target labelStart labelEnd stop)) :
    formatter.label? source ⟨index, stop⟩ = some (labelStart, labelEnd) := by
  have hmarkdown {dialect : Dialect}
      (h : nextToken (E := E) dialect source 0 index = .ok (.link target labelStart labelEnd stop)) :
      (findUnescaped source (index + 1) (byteOf ']')).map (fun labelEnd => (index + 1, labelEnd))
        = some (labelStart, labelEnd) := by
    obtain ⟨-, rfl, he⟩ := nextToken_label h
    rw [he]
    rfl
  cases formatter with
  | main => exact hmarkdown h
  | llm => exact hmarkdown h
  | html =>
    obtain ⟨last, hlast, rfl, rfl⟩ := nextHtmlToken_label h
    rw [Formatter.label?]
    dsimp only
    rw [hlast]
    dsimp only
    rw [Nat.add_sub_cancel]

/-! ## Positions -/

section

variable {formatter : Formatter} {source : Str}

theorem Token.Fits.stop {token : Token E} {i j : Nat} (h : token.Fits source i) (hs : token.stop? = some j) :
    Ahead source i j := by
  cases token with
  | skip stop =>
    cases hs
    exact h
  | uri stop url =>
    cases hs
    exact h
  | unfinished => cases hs
  | failed error => cases hs
  | node found stop =>
    cases hs
    exact h.2.1
  | link target labelStart labelEnd stop =>
    cases hs
    exact ⟨by have := h.1; have := h.2.2.1; have := h.2.2.2.2.1; omega, h.2.2.2.2.2⟩

theorem Formatter.step_eq_some {i j : Nat} (h : formatter.step E source i = some j) :
    i < len source ∧ ∃ token : Token E, formatter.next source 0 i = .ok token ∧ token.stop? = some j := by
  unfold Formatter.step at h
  split at h
  · cases h
  rename_i hl
  split at h
  · rename_i token ht
    exact ⟨Nat.lt_of_not_le hl, token, ht, h⟩
  · cases h

theorem Formatter.step_of_token {i j : Nat} {token : Token E} (hl : i < len source)
    (ht : formatter.next source 0 i = .ok token) (hs : token.stop? = some j) : formatter.step E source i = some j := by
  rw [Formatter.step, if_neg (Nat.not_le_of_lt hl), ht]
  exact hs

theorem Formatter.position_boundary {n i : Nat} (h : formatter.position E source n = some i) : IsBoundary source i := by
  induction n generalizing i with
  | zero =>
    cases h
    exact isBoundary_zero source
  | succ n ih =>
    obtain ⟨k, hk, hs⟩ := Option.bind_eq_some_iff.mp h
    obtain ⟨hl, token, ht, hstop⟩ := Formatter.step_eq_some hs
    exact ((formatter.next_fits (ih hk) hl ht).stop hstop).2

theorem Formatter.step_ahead {n i j : Nat} (h : formatter.position E source n = some i)
    (hs : formatter.step E source i = some j) : i < j := by
  obtain ⟨hl, token, ht, hstop⟩ := Formatter.step_eq_some hs
  exact ((formatter.next_fits (Formatter.position_boundary h) hl ht).stop hstop).1

/-- Later turns look at what lies further on. -/
theorem Formatter.position_lt {n m i j k : Nat} (hn : formatter.position E source n = some i)
    (hm : formatter.position E source m = some k) (hs : formatter.step E source i = some j) (hlt : n < m) : j ≤ k := by
  induction m generalizing k with
  | zero => omega
  | succ m ih =>
    obtain ⟨l, hl, hstep⟩ := Option.bind_eq_some_iff.mp hm
    by_cases he : n = m
    · subst he
      rw [hn] at hl
      cases hl
      rw [hs] at hstep
      cases hstep
      exact Nat.le_refl _
    · exact Nat.le_trans (ih hl (by omega)) (Nat.le_of_lt (Formatter.step_ahead hl hstep))

/-- The loop goes on from every turn but the last. -/
theorem Formatter.position_step {n m i k : Nat} (hn : formatter.position E source n = some i)
    (hm : formatter.position E source m = some k) (hlt : n < m) : ∃ j, formatter.step E source i = some j := by
  induction m generalizing k with
  | zero => omega
  | succ m ih =>
    obtain ⟨l, hl, hstep⟩ := Option.bind_eq_some_iff.mp hm
    by_cases he : n = m
    · subst he
      rw [hn] at hl
      cases hl
      exact ⟨k, hstep⟩
    · exact ih hl (by omega)

/-- Two offsets that the loop looks at: one is the other, or the token of one ends before the other. -/
theorem Formatter.Reaches.cases {i k : Nat} (hi : formatter.Reaches E source i) (hk : formatter.Reaches E source k) :
    i = k ∨ (∃ j, formatter.step E source i = some j ∧ j ≤ k) ∨ ∃ j, formatter.step E source k = some j ∧ j ≤ i := by
  obtain ⟨n, hn⟩ := hi
  obtain ⟨m, hm⟩ := hk
  rcases Nat.lt_trichotomy n m with hlt | rfl | hlt
  · obtain ⟨j, hj⟩ := Formatter.position_step hn hm hlt
    exact .inr (.inl ⟨j, hj, Formatter.position_lt hn hm hj hlt⟩)
  · rw [hn] at hm
    cases hm
    exact .inl rfl
  · obtain ⟨j, hj⟩ := Formatter.position_step hm hn hlt
    exact .inr (.inr ⟨j, hj, Formatter.position_lt hm hn hj hlt⟩)

theorem Formatter.Reaches.boundary {i : Nat} (h : formatter.Reaches E source i) : IsBoundary source i := by
  obtain ⟨n, hn⟩ := h
  exact Formatter.position_boundary hn

theorem Formatter.Reaches.ahead {i j : Nat} (h : formatter.Reaches E source i)
    (hs : formatter.step E source i = some j) : formatter.Reaches E source j ∧ i < j := by
  obtain ⟨n, hn⟩ := h
  exact ⟨⟨n + 1, by rw [Formatter.position, hn]; exact hs⟩, Formatter.step_ahead hn hs⟩

/-- Nothing is looked at inside of a token. -/
theorem Formatter.Reaches.not_inside {i j k : Nat} (hi : formatter.Reaches E source i)
    (hs : formatter.step E source i = some j) (hk : formatter.Reaches E source k) (hlt : i < k) : j ≤ k := by
  rcases hi.cases hk with rfl | ⟨j', hj', hle⟩ | ⟨j', hj', hle⟩
  · omega
  · rw [hs] at hj'
    cases hj'
    exact hle
  · have := (hk.ahead hj').2
    omega

end

/-! ## Scanned states -/

/-- The nodes of a label tile the label, and they are text. -/
def Formatter.Labelled (formatter : Formatter) (source : Str) (node : RichNode E) : Prop :=
  ∀ label target range, node = .link label target range →
    (∀ node ∈ label, node.range? = none) ∧
      ∃ i j, formatter.label? source range = some (i, j) ∧ Tiles source i j label

/-- What holds after each turn of the loop. -/
structure Scanned (formatter : Formatter) (source : Str) (state : ScanState E) : Prop where
  reached : formatter.Reaches E source state.index
  text_le : state.textStart ≤ state.index
  tiles : Tiles source 0 state.textStart state.nodes
  last_node : ∀ node, state.nodes.getLast? = some node → node.range?.isSome = true
  labelled : ∀ node ∈ state.nodes, formatter.Labelled source node
  zero_mem : 0 ∈ state.knownExtensionEndPoints
  point_boundary : ∀ p ∈ state.knownExtensionEndPoints, IsBoundary source p
  point_le : ∀ p ∈ state.knownExtensionEndPoints, p ≤ state.index
  point_outside : ∀ p ∈ state.knownExtensionEndPoints, ∀ node ∈ state.nodes, ∀ r, node.range? = some r →
    ¬ (r.start < p ∧ p < r.stop)
  stop_mem : ∀ node ∈ state.nodes, ∀ r, node.range? = some r → r.stop ∈ state.knownExtensionEndPoints
  recognised : ∀ node ∈ state.nodes, ∀ r, node.range? = some r → formatter.Recognises E source r.start r.stop
  complete : ∀ i j, formatter.Recognises E source i j → i < state.index → ∃ node ∈ state.nodes, node.range? = some ⟨i, j⟩

theorem pushText_eq {nodes : List (RichNode E)} {text : Str} (ht : text ≠ [])
    (hn : ∀ node, nodes.getLast? = some node → node.range?.isSome = true) : pushText nodes text = nodes ++ [.text text] := by
  unfold pushText
  rw [if_neg ht]
  split
  · rename_i previous hlast
    have := hn _ hlast
    cases this
  · rfl

theorem tiles_pushText {source text : Str} {i j k : Nat} {nodes : List (RichNode E)} (h : Tiles source i j nodes)
    (hn : ∀ node, nodes.getLast? = some node → node.range?.isSome = true) (hs : slice source j k = .ok text) :
    Tiles source i k (pushText nodes text) := by
  by_cases ht : text = []
  · have hjk : j = k := by
      have := (isBoundary_of_slice hs).2.2
      rwa [ht] at this
    rw [pushText, if_pos ht, ← hjk]
    exact h
  · rw [pushText_eq ht hn]
    exact h.append (.text hs (.nil (isBoundary_of_slice hs).2.1))

/-- The text brings no ranges. -/
theorem mem_pushText {nodes : List (RichNode E)} {text : Str} {node : RichNode E} {r : SourceRange}
    (hr : node.range? = some r) (hn : node ∈ pushText nodes text) : node ∈ nodes := by
  unfold pushText at hn
  split at hn
  · exact hn
  split at hn
  · rcases List.mem_append.mp hn with hn | hn
    · exact List.dropLast_subset _ hn
    · cases List.mem_singleton.mp hn
      cases hr
  · rcases List.mem_append.mp hn with hn | hn
    · exact hn
    · cases List.mem_singleton.mp hn
      cases hr

theorem mem_pushText_of_mem {nodes : List (RichNode E)} {text : Str} {node : RichNode E}
    (hl : ∀ node, nodes.getLast? = some node → node.range?.isSome = true) (hn : node ∈ nodes) :
    node ∈ pushText nodes text := by
  by_cases ht : text = []
  · rw [pushText, if_pos ht]
    exact hn
  · rw [pushText_eq ht hl]
    exact List.mem_append_left _ hn

theorem Formatter.Recognises.step {formatter : Formatter} {source : Str} {i j : Nat}
    (h : formatter.Recognises E source i j) : formatter.step E source i = some j := by
  obtain ⟨-, hl, token, ht, -, hs⟩ := h
  exact Formatter.step_of_token hl ht hs

namespace Scanned

variable {formatter : Formatter} {source : Str} {state : ScanState E}

theorem start : Scanned formatter source (.start : ScanState E) where
  reached := ⟨0, rfl⟩
  text_le := Nat.le_refl _
  tiles := .nil (isBoundary_zero source)
  last_node _ h := by cases h
  labelled _ h := absurd h List.not_mem_nil
  zero_mem := List.mem_singleton_self _
  point_boundary p hp := by
    cases List.mem_singleton.mp hp
    exact isBoundary_zero source
  point_le p hp := by
    cases List.mem_singleton.mp hp
    exact Nat.le_refl _
  point_outside _ _ _ hn := absurd hn List.not_mem_nil
  stop_mem _ hn := absurd hn List.not_mem_nil
  recognised _ hn := absurd hn List.not_mem_nil
  complete _ _ _ h := absurd h (Nat.not_lt_zero _)

/-- What is passed over is left to the next text. -/
theorem advance (h : Scanned formatter source state) {stop : Nat} (hs : formatter.step E source state.index = some stop)
    (hne : ∀ j, ¬ formatter.Recognises E source state.index j) (urls : List Str) :
    Scanned formatter source { state with bareUrls := urls, index := stop } :=
  have hlt := (h.reached.ahead hs).2
  { h with
    reached := (h.reached.ahead hs).1
    text_le := Nat.le_trans h.text_le (Nat.le_of_lt hlt)
    point_le := fun p hp => Nat.le_trans (h.point_le p hp) (Nat.le_of_lt hlt)
    complete := fun i j hij hi => by
      rcases Nat.lt_trichotomy i state.index with hlt | rfl | hlt
      · exact h.complete i j hij hlt
      · exact absurd hij (hne j)
      · exact absurd (h.reached.not_inside hs hij.1 hlt) (Nat.not_le_of_lt hi) }

theorem stop_le (h : Scanned formatter source state) {node : RichNode E} (hn : node ∈ state.nodes) {r : SourceRange}
    (hr : node.range? = some r) : r.stop ≤ state.index :=
  Nat.le_trans (h.tiles.ranges.1 node hn r hr).2.2 h.text_le

/-- An unfinished extension is a landmark. -/
theorem unfinished (h : Scanned formatter source state) :
    Scanned formatter source
      { state with knownExtensionEndPoints := state.knownExtensionEndPoints ++ [state.index] } :=
  { h with
    zero_mem := List.mem_append_left _ h.zero_mem
    point_boundary := fun p hp => by
      rcases List.mem_append.mp hp with hp | hp
      · exact h.point_boundary p hp
      · cases List.mem_singleton.mp hp
        exact h.reached.boundary
    point_le := fun p hp => by
      rcases List.mem_append.mp hp with hp | hp
      · exact h.point_le p hp
      · cases List.mem_singleton.mp hp
        exact Nat.le_refl _
    point_outside := fun p hp node hn r hr => by
      rcases List.mem_append.mp hp with hp | hp
      · exact h.point_outside p hp node hn r hr
      · cases List.mem_singleton.mp hp
        have := h.stop_le hn hr
        omega
    stop_mem := fun node hn r hr => List.mem_append_left _ (h.stop_mem node hn r hr) }

/-- A node follows the text before it. -/
theorem pushNode (h : Scanned formatter source state) {node : RichNode E} {stop : Nat} {state' : ScanState E}
    (hr : node.range? = some ⟨state.index, stop⟩) (hrec : formatter.Recognises E source state.index stop)
    (hl : formatter.Labelled source node) (hp : state.pushNode source node stop = .ok state') :
    Scanned formatter source state' := by
  obtain ⟨text, hs, he⟩ := bind_eq_ok hp
  cases he
  have htiles := tiles_pushText h.tiles h.last_node hs
  obtain ⟨hreach, hlt⟩ := h.reached.ahead hrec.step
  have ha : Ahead source state.index stop := ⟨hlt, hreach.boundary⟩
  have hmem {n : RichNode E} {r : SourceRange} (hn : n ∈ pushText state.nodes text ++ [node]) (hr' : n.range? = some r) :
      n ∈ state.nodes ∨ n = node := by
    rcases List.mem_append.mp hn with hn | hn
    · exact .inl (mem_pushText hr' hn)
    · exact .inr (List.mem_singleton.mp hn)
  exact
    { reached := hreach
      text_le := Nat.le_refl _
      tiles := htiles.append (.node hr ha.1 h.reached.boundary (.nil ha.2))
      last_node := fun n hn => by
        rw [List.getLast?_concat] at hn
        cases hn
        rw [hr]
        rfl
      labelled := fun n hn label target range he => by
        rcases hmem hn (r := range) (by rw [he]; rfl) with hn | rfl
        · exact h.labelled n hn label target range he
        · exact hl label target range he
      zero_mem := List.mem_append_left _ h.zero_mem
      point_boundary := fun p hp => by
        rcases List.mem_append.mp hp with hp | hp
        · exact h.point_boundary p hp
        · cases List.mem_singleton.mp hp
          exact ha.2
      point_le := fun p hp => by
        rcases List.mem_append.mp hp with hp | hp
        · exact Nat.le_trans (h.point_le p hp) (Nat.le_of_lt ha.1)
        · cases List.mem_singleton.mp hp
          exact Nat.le_refl _
      point_outside := fun p hp n hn r hr' => by
        rcases hmem hn hr' with hn | rfl
        · rcases List.mem_append.mp hp with hp | hp
          · exact h.point_outside p hp n hn r hr'
          · cases List.mem_singleton.mp hp
            have hstop := h.stop_le hn hr'
            have := ha.1
            omega
        · rw [hr] at hr'
          cases hr'
          rcases List.mem_append.mp hp with hp | hp
          · exact fun hin => Nat.lt_irrefl _ (Nat.lt_of_lt_of_le hin.1 (h.point_le p hp))
          · cases List.mem_singleton.mp hp
            exact fun hin => Nat.lt_irrefl _ hin.2
      stop_mem := fun n hn r hr' => by
        rcases hmem hn hr' with hn | rfl
        · exact List.mem_append_left _ (h.stop_mem n hn r hr')
        · rw [hr] at hr'
          cases hr'
          exact List.mem_append_right _ (List.mem_singleton_self _)
      recognised := fun n hn r hr' => by
        rcases hmem hn hr' with hn | rfl
        · exact h.recognised n hn r hr'
        · rw [hr] at hr'
          cases hr'
          exact hrec
      complete := fun i j hij hi => by
        rcases Nat.lt_trichotomy i state.index with hlt | rfl | hlt
        · obtain ⟨n, hn, hr'⟩ := h.complete i j hij hlt
          exact ⟨n, List.mem_append_left _ (mem_pushText_of_mem h.last_node hn), hr'⟩
        · have hj := hij.step
          rw [hrec.step] at hj
          cases hj
          exact ⟨node, List.mem_append_right _ (List.mem_singleton_self _), hr⟩
        · exact absurd (h.reached.not_inside hrec.step hij.1 hlt) (Nat.not_le_of_lt hi) }

end Scanned

/-! ## The loop -/

theorem validateLinkLabel_none {source : Str} {nodes : List (RichNode E)}
    (h : validateLinkLabel source nodes = .ok none) : ∀ node ∈ nodes, node.range? = none := by
  induction nodes with
  | nil => exact fun _ hn => absurd hn List.not_mem_nil
  | cons node nodes ih =>
    rw [validateLinkLabel] at h
    split at h
    · rename_i hr
      intro n hn
      rcases List.mem_cons.mp hn with rfl | hn
      · exact hr
      · exact ih h n hn
    · obtain ⟨error, -, h⟩ := bind_eq_ok h
      cases h

namespace Scanned

variable {formatter : Formatter} {source : Str} {state state' : ScanState E}

theorem pushAtom (h : Scanned formatter source state) (hl : state.index < len source) {node : RichNode E} {stop : Nat}
    (ht : formatter.next source 0 state.index = .ok (.node node stop))
    (hp : state.pushNode source node stop = .ok state') : Scanned formatter source state' := by
  have hfits := formatter.next_fits h.reached.boundary hl ht
  refine h.pushNode hfits.1 ⟨h.reached, hl, _, ht, rfl, rfl⟩ ?_ hp
  intro label target range he
  rw [he] at hfits
  cases hfits.2.2

theorem pushLink (h : Scanned formatter source state) (hl : state.index < len source) {target : LinkTarget}
    {labelStart labelEnd stop : Nat}
    (ht : formatter.next (E := E) source 0 state.index = .ok (.link target labelStart labelEnd stop)) {label : Str}
    (hlabel : slice source labelStart labelEnd = .ok label) {nodes : List (RichNode E)}
    (htiles : Tiles label 0 (len label) nodes)
    (hv : validateLinkLabel source (shiftNodes (0 + labelStart) nodes) = .ok none) (urls : List Str)
    (hp : { state with bareUrls := urls }.pushNode source
      (.link (shiftNodes (0 + labelStart) nodes) target (SourceRange.shift 0 ⟨state.index, stop⟩)) stop = .ok state') :
    Scanned formatter source state' := by
  have htiles := htiles.shift hlabel
  rw [Nat.add_zero, (isBoundary_of_slice hlabel).2.2] at htiles
  rw [Nat.zero_add] at hp hv
  rw [SourceRange.shift_zero] at hp
  have hurls : Scanned formatter source { state with bareUrls := urls } := { h with }
  refine hurls.pushNode rfl ⟨h.reached, hl, _, ht, rfl, rfl⟩ ?_ hp
  intro label' target' range he
  cases he
  exact ⟨validateLinkLabel_none hv, labelStart, labelEnd, formatter.next_label ht, htiles⟩

end Scanned

/-- What a scan leaves, from the state it ends in. -/
theorem Scanned.finish_tiles {formatter : Formatter} {source : Str} {state : ScanState E} {result : ScanResult E}
    (h : Scanned formatter source state) (hf : state.finish source = .ok result) :
    Tiles source 0 (len source) result.nodes ∧ ∀ node ∈ result.nodes, formatter.Labelled source node := by
  obtain ⟨text, ht, hf⟩ := bind_eq_ok hf
  obtain ⟨point, -, hf⟩ := bind_eq_ok hf
  cases hf
  refine ⟨tiles_pushText h.tiles h.last_node (slice_sliceFrom ht), fun node hn label target range he => ?_⟩
  exact h.labelled node (mem_pushText (r := range) (by rw [he]; rfl) hn) label target range he

/-- A scan that succeeds, turn by turn. -/
inductive Scans (formatter : Formatter) : Str → ScanState E → ScanResult E → Prop where
  | done {source : Str} {state : ScanState E} {result : ScanResult E} :
    len source ≤ state.index → state.finish source = .ok result → Scans formatter source state result
  | unfinished {source : Str} {state : ScanState E} {result : ScanResult E} :
    state.index < len source → formatter.next source 0 state.index = .ok (.unfinished : Token E) →
    { state with knownExtensionEndPoints := state.knownExtensionEndPoints ++ [state.index] }.finish source = .ok result →
    Scans formatter source state result
  | skip {source : Str} {state : ScanState E} {stop : Nat} {result : ScanResult E} :
    state.index < len source → formatter.next source 0 state.index = .ok (.skip stop : Token E) →
    Scans formatter source { state with index := stop } result → Scans formatter source state result
  | uri {source : Str} {state : ScanState E} {stop : Nat} {url : Option Str} {result : ScanResult E} :
    state.index < len source → formatter.next source 0 state.index = .ok (.uri stop url : Token E) →
    Scans formatter source
      { state with bareUrls := url.elim state.bareUrls (pushUnique state.bareUrls), index := stop } result →
    Scans formatter source state result
  | node {source : Str} {state state' : ScanState E} {node : RichNode E} {stop : Nat} {result : ScanResult E} :
    state.index < len source → formatter.next source 0 state.index = .ok (.node node stop) →
    state.pushNode source node stop = .ok state' → Scans formatter source state' result →
    Scans formatter source state result
  | link {source label : Str} {state state' : ScanState E} {target : LinkTarget} {labelStart labelEnd stop : Nat}
    {inner result : ScanResult E} :
    state.index < len source →
    formatter.next source 0 state.index = .ok (.link target labelStart labelEnd stop : Token E) →
    slice source labelStart labelEnd = .ok label → Scans formatter label .start inner →
    validateLinkLabel source (shiftNodes (0 + labelStart) inner.nodes) = .ok none →
    { state with bareUrls := inner.bareUrls.foldl pushUnique state.bareUrls }.pushNode source
      (.link (shiftNodes (0 + labelStart) inner.nodes) target (SourceRange.shift 0 ⟨state.index, stop⟩)) stop
      = .ok state' →
    Scans formatter source state' result → Scans formatter source state result

theorem scanLoop_scans (formatter : Formatter) (fuel : Nat) :
    ∀ {source : Str} {state : ScanState E} {result : ScanResult E},
      scanLoop formatter.next fuel source 0 state = .ok (.ok result) → Scans formatter source state result := by
  induction fuel with
  | zero =>
    intro source state result h
    cases h
  | succ fuel ih =>
    intro source state result h
    rw [scanLoop] at h
    split at h
    · rename_i hlen
      obtain ⟨r, hr, he⟩ := map_eq_ok h
      cases he
      exact .done hlen hr
    rename_i hlen
    have hlt := Nat.lt_of_not_le hlen
    obtain ⟨token, htoken, h⟩ := bind_eq_ok h
    cases token with
    | skip stop => exact .skip hlt htoken (ih h)
    | uri stop url => exact .uri hlt htoken (ih h)
    | unfinished =>
      obtain ⟨r, hr, he⟩ := map_eq_ok h
      cases he
      exact .unfinished hlt htoken hr
    | failed error => cases h
    | node node stop =>
      obtain ⟨state', hp, h⟩ := bind_eq_ok h
      exact .node hlt htoken hp (ih h)
    | link target labelStart labelEnd stop =>
      obtain ⟨label, hlabel, h⟩ := bind_eq_ok h
      obtain ⟨scanned, hscanned, h⟩ := bind_eq_ok h
      cases scanned with
      | error error =>
        obtain ⟨e, -, h⟩ := bind_eq_ok h
        cases h
      | ok inner =>
        dsimp only at h
        obtain ⟨verdict, hverdict, h⟩ := bind_eq_ok h
        cases verdict with
        | some error => cases h
        | none =>
          obtain ⟨state', hp, h⟩ := bind_eq_ok h
          exact .link hlt htoken hlabel (ih hscanned) hverdict hp (ih h)

/-- Whatever the loop takes a token from lies before the offset of an unfinished one. -/
theorem Formatter.Reaches.before_unfinished {formatter : Formatter} {source : Str} {i k : Nat}
    (hi : formatter.Reaches E source i) (hk : formatter.Reaches E source k)
    (hu : formatter.step E source k = none) {j : Nat} (hj : formatter.step E source i = some j) : i < k := by
  rcases hi.cases hk with rfl | ⟨l, hl, hle⟩ | ⟨l, hl, -⟩
  · rw [hu] at hj
    cases hj
  · exact Nat.lt_of_lt_of_le (hi.ahead hl).2 hle
  · rw [hu] at hl
    cases hl

theorem Formatter.step_unfinished {formatter : Formatter} {source : Str} {i : Nat}
    (h : formatter.next source 0 i = .ok (.unfinished : Token E)) : formatter.step E source i = none := by
  unfold Formatter.step
  split
  · rfl
  · rw [h]
    rfl

/-- A scan that succeeds ends in a state in which the nodes tile the source, behind all extensions. -/
theorem Scans.scanned {formatter : Formatter} {source : Str} {state : ScanState E} {result : ScanResult E}
    (h : Scans formatter source state result) : Scanned formatter source state →
      ∃ last, Scanned formatter source last ∧ (∀ i j, formatter.Recognises E source i j → i < last.index) ∧
        last.finish source = .ok result := by
  have hnot {source : Str} {i : Nat} {token : Token E} (ht : formatter.next source 0 i = .ok token)
      (he : token.isExtension = false) (j : Nat) : ¬ formatter.Recognises E source i j := by
    rintro ⟨-, -, token', ht', hext, -⟩
    rw [ht] at ht'
    cases ht'
    rw [he] at hext
    cases hext
  induction h with
  | done hlen hf => exact fun hs => ⟨_, hs, fun i j hij => Nat.lt_of_lt_of_le hij.2.1 hlen, hf⟩
  | unfinished hlt ht hf =>
    intro hs
    refine ⟨_, hs.unfinished, fun i j hij => ?_, hf⟩
    exact hij.1.before_unfinished hs.reached (Formatter.step_unfinished ht) hij.step
  | skip hlt ht _ ih => exact fun hs => ih (hs.advance (Formatter.step_of_token hlt ht rfl) (hnot ht rfl) _)
  | uri hlt ht _ ih => exact fun hs => ih (hs.advance (Formatter.step_of_token hlt ht rfl) (hnot ht rfl) _)
  | node hlt ht hp _ ih => exact fun hs => ih (hs.pushAtom hlt ht hp)
  | link hlt ht hl _ hv hp _ ihl ih =>
    intro hs
    obtain ⟨last, hlast, -, hf⟩ := ihl .start
    exact ih (hs.pushLink hlt ht hl (hlast.finish_tiles hf).1 hv _ hp)

theorem scanLoop_scanned (formatter : Formatter) (fuel : Nat) {source : Str} {state : ScanState E}
    {result : ScanResult E} (hs : Scanned formatter source state)
    (h : scanLoop formatter.next fuel source 0 state = .ok (.ok result)) :
    ∃ last, Scanned formatter source last ∧ (∀ i j, formatter.Recognises E source i j → i < last.index) ∧
      last.finish source = .ok result :=
  (scanLoop_scans formatter fuel h).scanned hs

/-! ## Documents -/

/-- The nodes stand for the slice of the source between two offsets: the ranges of those
that are not text are not empty, in bounds and in order, and the pieces give the slice. -/
structure Tiling (source : Str) (i j : Nat) (nodes : List (RichNode E)) : Prop where
  in_bounds : ∀ r ∈ nodes.filterMap RichNode.range?, i ≤ r.start ∧ r.start < r.stop ∧ r.stop ≤ j
  in_order : (nodes.filterMap RichNode.range?).Pairwise fun r r' => r.stop ≤ r'.start
  pieces : ∃ parts, nodes.mapM (RichNode.piece source) = .ok parts ∧ slice source i j = .ok parts.flatten

theorem Tiles.tiling {source : Str} {i j : Nat} {nodes : List (RichNode E)} (h : Tiles source i j nodes) :
    Tiling source i j nodes where
  in_bounds r hr := by
    obtain ⟨node, hn, hr⟩ := List.mem_filterMap.mp hr
    exact h.ranges.1 node hn r hr
  in_order := h.ranges.2
  pieces := h.pieces

/-- The nodes of a document give its source back, and the nodes of a label the label. -/
theorem parse_tiles (formatter : Formatter) {source : Str} {result : ScanResult E}
    (h : formatter.parse E source = .ok (.ok result)) :
    Tiling source 0 (len source) result.nodes ∧
      ∀ label target range, .link label target range ∈ result.nodes →
        ∃ i j, formatter.label? source range = some (i, j) ∧ Tiling source i j label := by
  obtain ⟨last, hlast, -, hfinish⟩ := scanLoop_scanned formatter _ .start h
  obtain ⟨htiles, hlabels⟩ := hlast.finish_tiles hfinish
  refine ⟨htiles.tiling, fun label target range hn => ?_⟩
  obtain ⟨-, i, j, hij, hlabel⟩ := hlabels _ hn label target range rfl
  exact ⟨i, j, hij, hlabel.tiling⟩

theorem parse_tiles_link :
    ∃ result : ScanResult plainPlatform, result.nodes.filterMap RichNode.range? = [⟨6, 19⟩] ∧
      Tiling "см. [тут](a.b)!".toList 0 (len "см. [тут](a.b)!".toList) result.nodes := by
  obtain ⟨result, hparse, hview⟩ := Formatter.accepted_view (E := plainPlatform) .main "см. [тут](a.b)!".toList
    (fun r => r.nodes.filterMap RichNode.range?) (b := [⟨6, 19⟩])
    (by decide +kernel)
  exact ⟨result, hview, (parse_tiles .main hparse).1⟩

end Teloxide.RichText
