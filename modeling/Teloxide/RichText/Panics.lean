import Teloxide.RichText.Landmarks

/-!
# Where the parsers panic

Every slice that the scanners take lies between boundaries, but for one: the literal of
a malformed LLM marker is a window of fixed size (`Splits`). `CutFrom` says that the loop
comes to such a window, in the source or in a label that it scans on the way.

* `scanLoop_returns`: the loop gives a value, or it comes to such a window and panics.
* `parse_returns_iff`: the three parsers give a value iff the LLM scan does not.
-/
namespace Teloxide.RichText

open Teloxide.Core Teloxide.Core.Utf8

variable {E : Platform}

/-- What is scanned on its own as a label. -/
def Token.label (source : Str) : Token E → Option Str
  | .link _ labelStart labelEnd _ => (slice source labelStart labelEnd).toOption
  | .skip _ | .uri _ _ | .unfinished | .failed _ | .node _ _ => none

variable (E) in
/-- The loop finds no extension. -/
def Formatter.Plain (formatter : Formatter) (source : Str) : Prop := ∀ i j, ¬ formatter.Recognises E source i j

variable (E) in
/-- From `i` on, the loop comes to a window that ends inside of a character. A label with
an extension in it ends the scan. -/
inductive CutFrom (formatter : Formatter) : Str → Nat → Prop where
  | here {source : Str} {i : Nat} : formatter = .llm → Splits E source i → CutFrom formatter source i
  | label {source label : Str} {i : Nat} {token : Token E} : i < len source → formatter.next source 0 i = .ok token →
    token.label source = some label → CutFrom formatter label 0 → CutFrom formatter source i
  | step {source : Str} {i j : Nat} {token : Token E} : i < len source → formatter.next source 0 i = .ok token →
    token.stop? = some j → (∀ label, token.label source = some label → formatter.Plain E label) →
    CutFrom formatter source j → CutFrom formatter source i

theorem splits_lt {source : Str} {i : Nat} (h : Splits E source i) : i < len source := by
  obtain ⟨pre, c, tail, rfl, rfl, -⟩ := head_of_splits h
  have := c.utf8Size_pos
  simp only [len_append, len_cons]
  omega

theorem CutFrom.lt {formatter : Formatter} {source : Str} {i : Nat} (h : CutFrom E formatter source i) :
    i < len source := by
  cases h with
  | here _ hs => exact splits_lt hs
  | label hl _ _ _ => exact hl
  | step hl _ _ _ _ => exact hl

/-- Only the LLM markers have such windows. -/
theorem CutFrom.llm {formatter : Formatter} {source : Str} {i : Nat} (h : CutFrom E formatter source i) :
    formatter = .llm := by
  induction h with
  | here hf _ => exact hf
  | label _ _ _ _ ih => exact ih
  | step _ _ _ _ _ ih => exact ih

/-- A token that is not a link only leads on. -/
theorem CutFrom.of_token {formatter : Formatter} {source : Str} {i : Nat} {token : Token E}
    (ht : formatter.next source 0 i = .ok token) (hlabel : token.label source = none)
    (h : CutFrom E formatter source i) : ∃ j, token.stop? = some j ∧ CutFrom E formatter source j := by
  cases h with
  | here hf hs =>
    subst hf
    rw [Formatter.next, nextToken_error hs] at ht
    cases ht
  | label _ ht' hlabel' _ =>
    rw [ht] at ht'
    cases ht'
    rw [hlabel] at hlabel'
    cases hlabel'
  | step _ ht' hstop _ hcut =>
    rw [ht] at ht'
    cases ht'
    exact ⟨_, hstop, hcut⟩

theorem Formatter.next_returns (formatter : Formatter) {source : Str} {i : Nat} (hb : IsBoundary source i)
    (hl : i < len source) (hs : ¬ (formatter = .llm ∧ Splits E source i)) :
    Returns (formatter.next source 0 i) (Token.Fits (E := E) source i) := by
  cases formatter with
  | main => exact nextToken_main hb hl
  | llm => exact nextToken_llm hb hl fun h => hs ⟨rfl, h⟩
  | html => exact nextHtmlToken_returns hb hl

theorem markerToken_llm_ne_failed {source : Str} {base index : Nat} {marker : MarkerScan E} {error : RenderError} :
    markerToken .llm source base index marker ≠ .ok (.failed error) := by
  intro h
  unfold markerToken at h
  split at h
  · obtain ⟨_, _, he⟩ := map_eq_ok h
    cases he
  · cases h
  · cases h

/-- The LLM frontend refuses nothing at one offset. -/
theorem nextToken_llm_ne_failed {source : Str} {index : Nat} {error : RenderError} :
    nextToken (E := E) .llm source 0 index ≠ .ok (.failed error) := by
  intro h
  obtain ⟨rest, -, h⟩ := bind_eq_ok h
  split at h
  · obtain ⟨_, _, he⟩ := map_eq_ok h
    cases he
  split at h
  · obtain ⟨_, _, he⟩ := map_eq_ok h
    cases he
  split at h
  · obtain ⟨_, _, he⟩ := map_eq_ok h
    cases he
  obtain ⟨uri, -, h⟩ := bind_eq_ok h
  split at h
  · cases h
  obtain ⟨link, hlink, h⟩ := bind_eq_ok h
  split at h
  · cases h
    unfold linkToken at hlink
    split at hlink
    · obtain ⟨r, -, hlink⟩ := bind_eq_ok hlink
      split at hlink
      · cases hlink
      · cases hlink
    · cases hlink
  obtain ⟨emoji, hemoji, h⟩ := bind_eq_ok h
  split at h
  · cases h
    unfold emojiToken at hemoji
    split at hemoji
    · obtain ⟨r, -, hemoji⟩ := bind_eq_ok hemoji
      split at hemoji
      · cases hemoji
      · cases hemoji
    · cases hemoji
  obtain ⟨marker, -, h⟩ := bind_eq_ok h
  exact markerToken_llm_ne_failed h

/-! ## The loop -/

theorem finish_returns {source : Str} {state : ScanState E} (h : IsBoundary source state.textStart) :
    ∃ result, state.finish source = .ok result := by
  obtain ⟨text, ht⟩ := sliceFrom_of_boundary h
  obtain ⟨k, hk, -⟩ := knownExtensionEnd_returns (E := E) source
  exact ⟨_, by rw [ScanState.finish, ht, hk]; rfl⟩

theorem pushNode_returns {formatter : Formatter} {source : Str} {state : ScanState E} (h : Scanned formatter source state)
    (node : RichNode E) (stop : Nat) : ∃ state', state.pushNode source node stop = .ok state' ∧ state'.index = stop := by
  obtain ⟨text, ht⟩ := slice_of_boundary h.tiles.boundary.2 h.reached.boundary h.text_le
  exact ⟨_, by rw [ScanState.pushNode, ht]; rfl, rfl⟩

theorem validateLinkLabel_returns {source : Str} (nodes : List (RichNode E))
    (h : ∀ node ∈ nodes, ∀ r, node.range? = some r → IsBoundary source r.start) :
    Returns (validateLinkLabel source nodes) fun verdict => ∀ error, verdict = some error →
      IsBoundary source error.byteOffset ∧ ∃ node ∈ nodes, node.range?.isSome = true := by
  induction nodes with
  | nil => exact .ok fun _ he => by cases he
  | cons node nodes ih =>
    rw [validateLinkLabel]
    split
    · exact (ih fun n hn => h n (List.mem_cons_of_mem _ hn)).mono fun verdict hv error he => by
        obtain ⟨hb, n, hn, hr⟩ := hv error he
        exact ⟨hb, n, List.mem_cons_of_mem _ hn, hr⟩
    · rename_i range hr
      have hb := h node List.mem_cons_self range hr
      refine (invalid_returns hb _ _ _).bind fun error he => .ok fun error' he' => ?_
      cases he'
      exact ⟨by rw [he]; exact hb, node, List.mem_cons_self, by rw [hr]; rfl⟩

/-- How a scan ends that does not panic. An error of the LLM frontend comes from a link. -/
def Formatter.Ends (formatter : Formatter) (source : Str) : Except RenderError (ScanResult E) → Prop
  | .ok _ => True
  | .error error => IsBoundary source error.byteOffset ∧ (formatter = .llm → ¬ formatter.Plain E source)

/-- The shifted label has an extension iff the label has. -/
theorem mem_shiftNodes {base : Nat} {nodes : List (RichNode E)} {node : RichNode E} (h : node ∈ shiftNodes base nodes) :
    ∃ inner ∈ nodes, node = shiftNodeRanges base inner := by
  induction nodes with
  | nil => cases h
  | cons first nodes ih =>
    rw [shiftNodes, List.mem_cons] at h
    rcases h with rfl | h
    · exact ⟨first, List.mem_cons_self, rfl⟩
    · obtain ⟨inner, hi, he⟩ := ih h
      exact ⟨inner, List.mem_cons_of_mem _ hi, he⟩

/-- The label is plain iff no node of it is an extension. -/
theorem plain_iff {formatter : Formatter} {label : Str} {last : ScanState E} (hs : Scanned formatter label last)
    (hall : ∀ i j, formatter.Recognises E label i j → i < last.index) {inner : ScanResult E}
    (hf : last.finish label = .ok inner) :
    formatter.Plain E label ↔ ∀ node ∈ inner.nodes, node.range? = none := by
  obtain ⟨text, -, hf⟩ := bind_eq_ok hf
  obtain ⟨k, -, hf⟩ := bind_eq_ok hf
  cases hf
  constructor
  · intro hplain node hn
    cases hr : node.range? with
    | none => rfl
    | some r => exact absurd (hs.recognised node (mem_pushText hr hn) r hr) (hplain _ _)
  · intro hnone i j hij
    obtain ⟨node, hn, hr⟩ := hs.complete i j hij (hall i j hij)
    rw [hnone node (mem_pushText_of_mem hs.last_node hn)] at hr
    cases hr

theorem range?_shiftNodes_none {base : Nat} {nodes : List (RichNode E)} :
    (∀ node ∈ shiftNodes base nodes, node.range? = none) ↔ ∀ node ∈ nodes, node.range? = none := by
  induction nodes with
  | nil => simp [shiftNodes]
  | cons first nodes ih => simp [shiftNodes, ih, range?_shift]

/-- The loop comes to a window that is cut and panics, or it ends. -/
theorem scanLoop_returns (formatter : Formatter) (fuel : Nat) :
    ∀ {source : Str} {state : ScanState E}, Scanned formatter source state → len source < fuel + state.index →
      (CutFrom E formatter source state.index ∧ scanLoop formatter.next fuel source 0 state = .error .slice) ∨
      (¬ CutFrom E formatter source state.index ∧
        Returns (scanLoop formatter.next fuel source 0 state) (formatter.Ends source)) := by
  induction fuel with
  | zero =>
    intro source state hs hf
    have := hs.reached.boundary.le
    omega
  | succ fuel ih =>
    intro source state hs hf
    have hfinish {s : ScanState E} (hb : IsBoundary source s.textStart) :
        Returns (.ok <$> s.finish source) (formatter.Ends (E := E) source) := by
      obtain ⟨result, hr⟩ := finish_returns hb
      exact ⟨.ok result, by rw [hr]; rfl, trivial⟩
    rw [scanLoop]
    split
    · rename_i hlen
      exact .inr ⟨fun h => Nat.not_le_of_lt h.lt hlen, hfinish hs.tiles.boundary.2⟩
    rename_i hlen
    have hlt := Nat.lt_of_not_le hlen
    by_cases hsplit : formatter = .llm ∧ Splits E source state.index
    · refine .inl ⟨.here hsplit.1 hsplit.2, ?_⟩
      rw [hsplit.1, Formatter.next, nextToken_error hsplit.2]
      rfl
    obtain ⟨token, htoken, hfits⟩ := formatter.next_returns hs.reached.boundary hlt hsplit
    have hnot (he : token.isExtension = false) (j : Nat) : ¬ formatter.Recognises E source state.index j := by
      rintro ⟨-, -, token', ht, hext, -⟩
      rw [htoken] at ht
      cases ht
      rw [he] at hext
      cases hext
    -- a token that is not a link leads on to where it stops
    have hgo {state' : ScanState E} {stop : Nat} (hs' : Scanned formatter source state') (hi : state'.index = stop)
        (hstop : token.stop? = some stop) (hlabel : token.label source = none) :
        (CutFrom E formatter source state.index ∧ scanLoop formatter.next fuel source 0 state' = .error .slice) ∨
        (¬ CutFrom E formatter source state.index ∧
          Returns (scanLoop formatter.next fuel source 0 state') (formatter.Ends source)) := by
      have hahead := (hfits.stop hstop).1
      rcases ih hs' (by omega) with ⟨hcut, he⟩ | ⟨hcut, hr⟩
      · rw [hi] at hcut
        exact .inl ⟨.step hlt htoken hstop (fun label hl => by rw [hlabel] at hl; cases hl) hcut, he⟩
      · refine .inr ⟨fun h => hcut ?_, hr⟩
        obtain ⟨j, hj, hcut'⟩ := h.of_token htoken hlabel
        rw [hstop] at hj
        cases hj
        rwa [hi]
    rw [htoken]
    cases token with
    | skip stop =>
      exact hgo (hs.advance (Formatter.step_of_token hlt htoken rfl) (hnot rfl) state.bareUrls) rfl rfl rfl
    | uri stop url => exact hgo (hs.advance (Formatter.step_of_token hlt htoken rfl) (hnot rfl) _) rfl rfl rfl
    | unfinished =>
      refine .inr ⟨fun h => ?_, hfinish hs.tiles.boundary.2⟩
      obtain ⟨j, hj, -⟩ := h.of_token htoken rfl
      cases hj
    | failed error =>
      refine .inr ⟨fun h => ?_, .ok ⟨hfits, fun hf => ?_⟩⟩
      · obtain ⟨j, hj, -⟩ := h.of_token htoken rfl
        cases hj
      · subst hf
        exact absurd htoken nextToken_llm_ne_failed
    | node node stop =>
      obtain ⟨state', hp, hi⟩ := pushNode_returns hs node stop
      dsimp only [bind, Except.bind]
      rw [hp]
      exact hgo (hs.pushAtom hlt htoken hp) hi rfl rfl
    | link target labelStart labelEnd stop =>
      obtain ⟨hstart, hsb, hle, heb, hend, hstop⟩ := hfits
      obtain ⟨label, hlabel⟩ := slice_of_boundary hsb heb hle
      have hlen' := (isBoundary_of_slice hlabel).2.2
      have hstop_le := hstop.le
      have hlabel_eq : (Token.link target labelStart labelEnd stop : Token E).label source = some label := by
        rw [Token.label, hlabel]
        rfl
      have hrec : formatter.Recognises E source state.index stop := ⟨hs.reached, hlt, _, htoken, rfl, rfl⟩
      -- without a cut in the label, only a plain label leads on
      have hcases (hcut : ¬ CutFrom E formatter label 0) (h : CutFrom E formatter source state.index) :
          formatter.Plain E label ∧ CutFrom E formatter source stop := by
        cases h with
        | here hf hsp => exact absurd ⟨hf, hsp⟩ hsplit
        | label _ ht hl hc =>
          rw [htoken] at ht
          cases ht
          rw [hlabel_eq] at hl
          cases hl
          exact absurd hc hcut
        | step _ ht hj hplain hc =>
          rw [htoken] at ht
          cases ht
          cases hj
          exact ⟨hplain label hlabel_eq, hc⟩
      dsimp only [bind, Except.bind]
      rw [hlabel]
      dsimp only
      have hfuel : len label < fuel + (ScanState.start : ScanState E).index := by
        change len label < fuel + 0
        omega
      rcases ih .start hfuel with ⟨hcut, he⟩ | ⟨hcut, outcome, ho, hends⟩
      · rw [he]
        exact .inl ⟨.label hlt htoken hlabel_eq hcut, rfl⟩
      rw [ho]
      cases outcome with
      | error error =>
        have hb := isBoundary_slice hlabel hends.1
        obtain ⟨error', he, hoff⟩ := rebaseRenderError_returns hb
        dsimp only
        rw [he]
        refine .inr ⟨fun h => ?_, .ok ⟨by rw [hoff]; exact hb, fun _ hp => hp _ _ hrec⟩⟩
        exact hends.2 h.llm (hcases hcut h).1
      | ok inner =>
        obtain ⟨last, hlast, hall, hfin⟩ := scanLoop_scanned formatter _ .start ho
        have htiles := (hlast.finish_tiles hfin).1
        have hshifted := htiles.shift hlabel
        obtain ⟨verdict, hv, herror⟩ := validateLinkLabel_returns (shiftNodes (0 + labelStart) inner.nodes)
          (by rw [Nat.zero_add]; exact hshifted.start_boundary)
        dsimp only
        rw [hv]
        cases verdict with
        | some error =>
          obtain ⟨hb, node, hn, hr⟩ := herror error rfl
          refine .inr ⟨fun h => ?_, .ok ⟨hb, fun _ hp => hp _ _ hrec⟩⟩
          have hnone := range?_shiftNodes_none.mpr ((plain_iff hlast hall hfin).mp (hcases hcut h).1) node hn
          rw [hnone] at hr
          cases hr
        | none =>
          have hplain := (plain_iff hlast hall hfin).mpr (range?_shiftNodes_none.mp (validateLinkLabel_none hv))
          have hurls : Scanned formatter source
              { state with bareUrls := inner.bareUrls.foldl pushUnique state.bareUrls } := { hs with }
          obtain ⟨state', hp, hi⟩ := pushNode_returns hurls (.link (shiftNodes (0 + labelStart) inner.nodes) target
            (SourceRange.shift 0 ⟨state.index, stop⟩)) stop
          have hs' := hs.pushLink hlt htoken hlabel htiles hv _ hp
          dsimp only
          rw [hp]
          rcases ih hs' (by omega) with ⟨hcut', he⟩ | ⟨hcut', hr⟩
          · rw [hi] at hcut'
            refine .inl ⟨.step hlt htoken rfl (fun l hl => ?_) hcut', he⟩
            rw [hlabel_eq] at hl
            cases hl
            exact hplain
          · exact .inr ⟨fun h => hcut' (hi ▸ (hcases hcut h).2), hr⟩

theorem parse_cases (formatter : Formatter) (source : Str) :
    (CutFrom E formatter source 0 ∧ formatter.parse E source = .error .slice) ∨
      (¬ CutFrom E formatter source 0 ∧ ∃ outcome, formatter.parse E source = .ok outcome) := by
  have hfuel : len source < len source + 1 + (ScanState.start : ScanState E).index := Nat.lt_succ_self _
  rcases scanLoop_returns formatter _ .start hfuel with ⟨hcut, he⟩ | ⟨hcut, outcome, ho, -⟩
  · exact .inl ⟨hcut, he⟩
  · exact .inr ⟨hcut, outcome, ho⟩

/-- The parsers accept or refuse every source in which the LLM scan comes to no window
that ends inside of a character; on the others, the LLM parser panics. -/
theorem parse_returns_iff (source : Str) :
    (∀ formatter : Formatter, ∃ outcome, formatter.parse E source = .ok outcome) ↔ ¬ CutFrom E .llm source 0 := by
  constructor
  · intro h hcut
    obtain ⟨outcome, ho⟩ := h .llm
    rcases parse_cases (E := E) .llm source with ⟨-, he⟩ | ⟨hnot, -⟩
    · rw [ho] at he
      cases he
    · exact hnot hcut
  · intro hcut formatter
    rcases parse_cases (E := E) formatter source with ⟨h, -⟩ | ⟨-, ho⟩
    · have hf := h.llm
      subst hf
      exact absurd h hcut
    · exact ho

/-- The byte after the digits is the first of two. -/
theorem llm_parse_panics :
    ¬ ∀ formatter : Formatter, ∃ outcome, formatter.parse plainPlatform "now+5й".toList = .ok outcome := by
  intro h
  obtain ⟨outcome, ho⟩ := h .llm
  have hb : (Formatter.parse plainPlatform .llm "now+5й".toList).toBool = false := by decide +kernel
  rw [ho] at hb
  cases hb

end Teloxide.RichText
