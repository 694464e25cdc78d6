import Mathlib
import Teloxide.RichText.HtmlLexer

/-!
# The scanners

`scan_at` and `scan_html_at` of `crates/teloxide/src/utils/time/markdown.rs` are one
loop over the tokens of a frontend (`scanAt`): it collects the nodes, the text between
them, the URLs, and the landmarks that go out as `known_extension_end_points`. A label
is scanned by the same loop, from the start. The last landmark is the guess of
`knownExtensionEnd`, a search of the whole source for something unfinished.
-/
namespace Teloxide.RichText

open Teloxide.Core Teloxide.Core.Utf8

variable (E : Platform)

/-! ## The tail of the source -/

/-- The smallest of `candidate` and the offsets proposed for the list. -/
def narrow (propose : Nat → Checked (Option Nat)) : List Nat → Nat → Checked Nat
  | [], candidate => .ok candidate
  | index :: rest, candidate => do
    match ← propose index with
    | some offset => narrow propose rest (min candidate offset)
    | none => narrow propose rest candidate

/-- mirrors markdown.rs:1717-1722 -/
def openTag (source : Str) (index : Nat) : Checked (Option Nat) := do
  if looksLikeHtmlExtensionPrefix (← sliceFrom source index) then .ok (some index)
  else if ← isUnclosedHtmlLiteral source index then .ok (some index)
  else .ok none

/-- mirrors markdown.rs:1724-1728 -/
def openLink (source : Str) (index : Nat) : Checked (Option Nat) := do
  if (← parseMarkdownLink source index).isNone then .ok (some index) else .ok none

/-- mirrors markdown.rs:1730-1741 -/
def openEmoji (source : Str) (index : Nat) : Checked (Option Nat) := do
  let suffix ← sliceFrom source (index + 1)
  let escaped := 0 < index && byteAt source (index - 1) = some (byteOf '\\')
  let emojiPrefix := (← isBoundaryBefore E source index) && !escaped
  if emojiPrefix && (bytes suffix).all fun b => isLowerByte b || isDigitByte b || b = byteOf '_' then
    .ok (some index)
  else .ok none

/-- mirrors markdown.rs:1787-1796 -/
def isPendingNowSuffix (value : Str) : Bool :=
  value = "now".toList ||
    match (stripPrefix "now+".toList value).or (stripPrefix "now-".toList value) with
    | none => false
    | some rest => (bytes rest).all fun b => isDigitByte b || isUnitByte b

/-- mirrors markdown.rs:1743-1749 -/
def openNow (source : Str) (index : Nat) : Checked (Option Nat) := do
  if ← isBoundaryBefore E source index then
    if isPendingNowSuffix (← sliceFrom source index) then .ok (some index) else .ok none
  else .ok none

/-- Where the digits before an offset begin. -/
def digitsStart (source : Str) (stop : Nat) : Nat :=
  stop - (((bytes source).take stop).reverse.takeWhile isDigitByte).length

/-- Two digits at least before a colon, and no letter before them.
mirrors markdown.rs:1760-1765, 1777-1782 -/
def digitsBefore (source : Str) (colon : Nat) : Checked (Option Nat) := do
  let start := digitsStart source colon
  if start + 2 ≤ colon then
    let digits ← slice source start colon
    if (bytes digits).all isDigitByte then
      if ← isBoundaryBefore E source start then .ok (some start) else .ok none
    else .ok none
  else .ok none

/-- mirrors markdown.rs:1751-1768 -/
def openClock (source : Str) (markerStart : Nat) : Checked (Option Nat) := do
  if bytesMatch source (markerStart + 3) clockSuffix then .ok none else digitsBefore E source markerStart

/-- mirrors markdown.rs:1714-1785 -/
def knownExtensionEnd (source : Str) : Checked Nat := do
  let candidate ← narrow (openTag source) (matchIndices '<' source) (len source)
  let candidate ← narrow (openLink source) (rfind "[".toList source).toList candidate
  let candidate ← narrow (openEmoji E source) (rfind ":".toList source).toList candidate
  let candidate ← narrow (openNow E source) (rfind "now".toList source).toList candidate
  let candidate ← narrow (openNow E source) (rfind "now+".toList source).toList candidate
  let candidate ← narrow (openNow E source) (rfind "now-".toList source).toList candidate
  let candidate ← narrow (openClock E source) (rfind ":::".toList source).toList candidate
  narrow (digitsBefore E source) (matchIndices ':' source) candidate

/-! ## Nodes -/

variable {E}

/-- The range of a node that is not text. -/
def RichNode.range? : RichNode E → Option SourceRange
  | .text _ => none
  | .dateTime node => some node.sourceRange
  | .invalidTime _ range | .link _ _ range | .customEmoji _ range => some range

/-- mirrors markdown.rs:1798-1807 -/
def pushText (nodes : List (RichNode E)) (text : Str) : List (RichNode E) :=
  if text = [] then nodes
  else
    match nodes.getLast? with
    | some (.text previous) => nodes.dropLast ++ [.text (previous ++ text)]
    | _ => nodes ++ [.text text]

/-- mirrors markdown.rs:430-434 -/
def pushUnique (values : List Str) (value : Str) : List Str :=
  if values.contains value then values else values ++ [value]

mutual

/-- mirrors markdown.rs:981-1000 -/
def shiftNodeRanges (base : Nat) : RichNode E → RichNode E
  | .text content => .text content
  | .dateTime node => .dateTime { node with sourceRange := node.sourceRange.shift base }
  | .invalidTime literal range => .invalidTime literal (range.shift base)
  | .customEmoji name range => .customEmoji name (range.shift base)
  | .link label target range => .link (shiftNodes base label) target (range.shift base)

def shiftNodes (base : Nat) : List (RichNode E) → List (RichNode E)
  | [] => []
  | node :: nodes => shiftNodeRanges base node :: shiftNodes base nodes

end

/-- mirrors markdown.rs:436-455 -/
def validateLinkLabel (source : Str) : List (RichNode E) → Checked (Option RenderError)
  | [] => .ok none
  | node :: nodes =>
    match node.range? with
    | none => validateLinkLabel source nodes
    | some range => do
      let literal := (get? source range.start range.stop).getD []
      let error ← RenderError.invalid "rich-text" source range.start literal
        "semantic nodes are not allowed inside link labels"
      .ok (some error)

/-! ## The loop -/

variable (E) in
/-- mirrors markdown.rs:845-849 -/
structure ScanResult where
  nodes : List (RichNode E)
  knownExtensionEndPoints : List Nat
  bareUrls : List Str

variable (E) in
/-- The variables of the loop. -/
structure ScanState extends ScanResult E where
  textStart : Nat
  index : Nat

/-- mirrors markdown.rs:879-883 -/
def ScanState.start : ScanState E := ⟨⟨[], [0], []⟩, 0, 0⟩

/-- `Vec::dedup` -/
def dedup : List Nat → List Nat
  | [] => []
  | [value] => [value]
  | value :: next :: values => if value = next then dedup (next :: values) else value :: dedup (next :: values)

/-- After the loop.
mirrors markdown.rs:974-978, 1437-1442 -/
def ScanState.finish (source : Str) (state : ScanState E) : Checked (ScanResult E) := do
  let text ← sliceFrom source state.textStart
  let points := state.knownExtensionEndPoints ++ [← knownExtensionEnd E source]
  .ok ⟨pushText state.nodes text, dedup (points.insertionSort (· ≤ ·)), state.bareUrls⟩

/-- A node that ends at `stop`, with the text before it.
mirrors markdown.rs:921-930, 1431-1436 -/
def ScanState.pushNode (source : Str) (state : ScanState E) (node : RichNode E) (stop : Nat) :
    Checked (ScanState E) := do
  let text ← slice source state.textStart state.index
  .ok { state with
    nodes := pushText state.nodes text ++ [node],
    knownExtensionEndPoints := state.knownExtensionEndPoints ++ [stop],
    textStart := stop, index := stop }

/-- The token at an offset of the source, with the offset of the source itself. -/
abbrev Lexer (E : Platform) := Str → Nat → Nat → Checked (Token E)

/-- The loop, with `fuel` turns left.
mirrors markdown.rs:884-979, 1267-1442 -/
def scanLoop (next : Lexer E) :
    Nat → Str → Nat → ScanState E → Checked (Except RenderError (ScanResult E))
  | 0, _, _, _ => .error .diverges
  | fuel + 1, source, base, state => do
    if len source ≤ state.index then .ok <$> state.finish source
    else
      match ← next source base state.index with
      | .skip stop => scanLoop next fuel source base { state with index := stop }
      | .uri stop url =>
        scanLoop next fuel source base
          { state with bareUrls := url.elim state.bareUrls (pushUnique state.bareUrls), index := stop }
      | .unfinished =>
        .ok <$> { state with knownExtensionEndPoints := state.knownExtensionEndPoints ++ [state.index] }.finish source
      | .failed error => .ok (.error error)
      | .node node stop => do scanLoop next fuel source base (← state.pushNode source node stop)
      | .link target labelStart labelEnd stop => do
        match ← scanLoop next fuel (← slice source labelStart labelEnd) 0 .start with
        | .error error => .ok (.error (← rebaseRenderError error source labelStart))
        | .ok label => do
          let nodes := shiftNodes (base + labelStart) label.nodes
          match ← validateLinkLabel source nodes with
          | some error => .ok (.error error)
          | none => do
            let state := { state with bareUrls := label.bareUrls.foldl pushUnique state.bareUrls }
            let range := SourceRange.shift base ⟨state.index, stop⟩
            scanLoop next fuel source base (← state.pushNode source (.link nodes target range) stop)

/-- mirrors markdown.rs:865-871, 1257-1259 -/
def scan (next : Lexer E) (source : Str) : Checked (Except RenderError (ScanResult E)) :=
  scanLoop next (len source + 1) source 0 .start

/-- The frontends: `MainMarkdownFormatter`, `LlmMarkdownFormatter` and `HtmlFormatter`. -/
inductive Formatter where
  | main
  | llm
  | html
  deriving DecidableEq, Repr

def Formatter.next : Formatter → Lexer E
  | .main => nextToken .main
  | .llm => nextToken .llm
  | .html => nextHtmlToken

variable (E) in
/-- mirrors markdown.rs:73-81, 135-143, 194-202 -/
def Formatter.parse (formatter : Formatter) (source : Str) : Checked (Except RenderError (ScanResult E)) :=
  scan formatter.next source

/-! ## Positions -/

/-- Where the loop goes on after a token. -/
def Token.stop? : Token E → Option Nat
  | .skip stop | .uri stop _ | .node _ stop | .link _ _ _ stop => some stop
  | .unfinished | .failed _ => none

/-- A token that becomes a node. -/
def Token.isExtension : Token E → Bool
  | .node _ _ | .link _ _ _ _ => true
  | .skip _ | .uri _ _ | .unfinished | .failed _ => false

variable (E) in
/-- The offset that the loop looks at after `i`. -/
def Formatter.step (formatter : Formatter) (source : Str) (i : Nat) : Option Nat :=
  if len source ≤ i then none
  else
    match formatter.next (E := E) source 0 i with
    | .ok token => token.stop?
    | .error _ => none

variable (E) in
/-- The offset that the loop looks at on its turn `n`. -/
def Formatter.position (formatter : Formatter) (source : Str) : Nat → Option Nat
  | 0 => some 0
  | n + 1 => (formatter.position source n).bind (formatter.step E source)

variable (E) in
/-- The loop looks at `i`. -/
def Formatter.Reaches (formatter : Formatter) (source : Str) (i : Nat) : Prop :=
  ∃ n, formatter.position E source n = some i

variable (E) in
/-- The loop finds an extension from `i` to `j`. -/
def Formatter.Recognises (formatter : Formatter) (source : Str) (i j : Nat) : Prop :=
  formatter.Reaches E source i ∧ i < len source ∧
    ∃ token : Token E, formatter.next source 0 i = .ok token ∧ token.isExtension = true ∧ token.stop? = some j

/-- The document, when the source is accepted. -/
def Formatter.accepted (formatter : Formatter) (source : Str) : Option (ScanResult E) :=
  match formatter.parse E source with
  | .ok (.ok result) => some result
  | _ => none

theorem Formatter.accepted_view {β : Type} (formatter : Formatter) (source : Str) (view : ScanResult E → β) {b : β}
    (h : (formatter.accepted source).map view = some b) :
    ∃ result, formatter.parse E source = .ok (.ok result) ∧ view result = b := by
  obtain ⟨result, hr, hv⟩ := Option.map_eq_some_iff.mp h
  refine ⟨result, ?_, hv⟩
  unfold Formatter.accepted at hr
  split at hr
  · rename_i hparse
    cases hr
    exact hparse
  · cases hr

end Teloxide.RichText
