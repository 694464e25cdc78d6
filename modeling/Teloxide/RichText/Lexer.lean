import Teloxide.RichText.Types

/-!
# The tokens of the Markdown scanners

What `scan_at` of `crates/teloxide/src/utils/time/markdown.rs:873-979` asks at one
offset of the source, with the functions it asks: code, escapes, URIs, links,
custom emojis and the time markers of the two dialects. `nextToken` asks them in
the order of the loop.
-/
namespace Teloxide.RichText

open Teloxide.Core Teloxide.Core.Utf8

variable (E : Platform)

/-! ## Characters around an offset -/

/-- mirrors markdown.rs:1880-1882 -/
def nextCharBoundary (source : Str) (index : Nat) : Checked Nat := do
  match ← sliceFrom source index with
  | [] => .ok (len source)
  | character :: _ => .ok (index + character.utf8Size)

/-- `is_alphanumeric() || '_'` -/
def isWordChar (c : Char) : Bool := E.alphanumeric.test c || c = '_'

/-- mirrors markdown.rs:1884-1892 -/
def isBoundaryBefore (source : Str) (index : Nat) : Checked Bool :=
  if index = 0 then .ok true
  else do
    let before ← sliceTo source index
    .ok (before.getLast?.all fun character => !isWordChar E character)

/-- mirrors markdown.rs:1894-1899 -/
def isBoundaryAfter (source : Str) (index : Nat) : Checked Bool := do
  let rest ← sliceFrom source index
  .ok (rest.head?.all fun character => !isWordChar E character)

/-! ## Code and escapes -/

/-- mirrors markdown.rs:1809-1813 -/
def skipDelimited (source : Str) (index : Nat) (delimiter : Str) : Checked Nat := do
  let rest ← sliceFrom source (index + len delimiter)
  match find delimiter rest with
  | none => .ok (len source)
  | some offset => .ok (index + len delimiter + offset + len delimiter)

/-- mirrors markdown.rs:1815-1819 -/
def skipInlineCode (source : Str) (index : Nat) : Checked Nat := do
  let run := ((← sliceFrom source index).takeWhile (· = '`')).length
  let delimiter ← slice source index (index + run)
  match find delimiter (← sliceFrom source (index + run)) with
  | none => .ok (len source)
  | some offset => .ok (index + run + offset + run)

/-- mirrors markdown.rs:1871-1878 -/
def skipEscaped (source : Str) (index : Nat) : Checked Nat := do
  let next ← nextCharBoundary source index
  if next < len source then nextCharBoundary source next else .ok next

/-! ## URIs -/

def uriPrefixes : List Str :=
  ["http://".toList, "https://".toList, "tg://".toList, "mailto:".toList, "ftp://".toList]

/-- `u8::is_ascii_whitespace` -/
def isAsciiWhitespaceByte (b : UInt8) : Bool :=
  b = byteOf ' ' || b = byteOf '\t' || b = byteOf '\n' || b = byteOf '\x0c' || b = byteOf '\r'

/-- mirrors markdown.rs:1905-1914 -/
def uriScheme (value : Str) : Option Str :=
  match find [':'] value with
  | none => none
  | some _ =>
    let scheme := value.takeWhile (· ≠ ':')
    match scheme with
    | [] => none
    | first :: rest =>
      if first.isAlpha && rest.all (fun c => c.isAlphanum || c = '+' || c = '.' || c = '-') then some scheme else none

/-- mirrors markdown.rs:1901-1903 -/
def hasUriScheme (value : Str) : Bool := (uriScheme value).isSome

def telegramSchemes : List Str := ["http".toList, "https".toList, "tg".toList, "mailto".toList, "ftp".toList]

/-- The characters that `trim_uri_end` drops. -/
def isTrailingMark (c : Char) : Bool := c = '.' || c = ',' || c = ';' || c = '!' || c = '?'

/-- mirrors markdown.rs:1916-1928 -/
def trimUriEnd (source : Str) (start stop : Nat) : Checked Nat := do
  let url ← slice source start stop
  .ok (stop - len ((url.reverse.takeWhile isTrailingMark)))

/-- `source.get(i..j).filter(|value| !value.is_empty())` -/
def nonEmptySlice (source : Str) (i j : Nat) : Option Str := (get? source i j).filter (· ≠ [])

/-- The bytes that end a URI.
mirrors markdown.rs:1853-1856 -/
def uriStops (autolink : Bool) (b : UInt8) : Bool :=
  isAsciiWhitespaceByte b || (!autolink && (b = byteOf ')' || b = byteOf ']')) || (autolink && b = byteOf '>')

/-- The loop and the end of `scan_uri`.
mirrors markdown.rs:1850-1868 -/
def scanUriFrom (source : Str) (start : Nat) (autolink : Bool) : Checked (Nat × Option Str) := do
  let cursor := runEnd (fun b => !uriStops autolink b) source start
  if autolink && byteAt source cursor = some (byteOf '>') then
    .ok (cursor + 1, nonEmptySlice source start cursor)
  else
    let urlEnd ← if autolink then .ok cursor else trimUriEnd source start cursor
    .ok (cursor, nonEmptySlice source start urlEnd)

/-- mirrors markdown.rs:1821-1869 -/
def scanUri (source : Str) (index : Nat) : Checked (Option (Nat × Option Str)) := do
  let rest ← sliceFrom source index
  if uriPrefixes.any (·.isPrefixOf rest) then
    if ← isBoundaryBefore E source index then some <$> scanUriFrom source index false else .ok none
  else if byteAt source index = some (byteOf '<') ∧
      ((get? source (index + 1) (len source)).any fun rest => uriPrefixes.any (·.isPrefixOf rest)) = true then
    some <$> scanUriFrom source (index + 1) true
  else
    match uriScheme rest with
    | none => .ok none
    | some scheme =>
      if toAsciiLowercase scheme ∈ telegramSchemes then
        if ← isBoundaryBefore E source index then some <$> scanUriFrom source index false else .ok none
      else .ok none

/-! ## Links and custom emojis -/

/-- The offset of an unescaped byte.
mirrors markdown.rs:1672-1686 -/
def unescaped (needle : UInt8) : List UInt8 → Option Nat
  | [] => none
  | b :: rest =>
    if b = byteOf '\\' then
      match rest with
      | [] => none
      | _ :: rest => (unescaped needle rest).map (2 + ·)
    else if b = needle then some 0
    else (unescaped needle rest).map (1 + ·)

def findUnescaped (source : Str) (start : Nat) (needle : UInt8) : Option Nat :=
  (unescaped needle ((bytes source).drop start)).map (start + ·)

/-- The offset of the closing parenthesis, at the depth `depth`.
mirrors markdown.rs:1656-1668 -/
def destinationEnd : Nat → List UInt8 → Option Nat
  | _, [] => none
  | depth, b :: rest =>
    if b = byteOf '\\' then
      match rest with
      | [] => none
      | _ :: rest => (destinationEnd depth rest).map (2 + ·)
    else if b = byteOf '(' then (destinationEnd (depth + 1) rest).map (1 + ·)
    else if b = byteOf ')' then
      match depth with
      | 0 => some 0
      | depth + 1 => (destinationEnd depth rest).map (1 + ·)
    else (destinationEnd depth rest).map (1 + ·)

/-- mirrors markdown.rs:1652-1670 -/
def findMarkdownDestinationEnd (source : Str) (start : Nat) : Option Nat :=
  (destinationEnd 0 ((bytes source).drop start)).map (start + ·)

/-- mirrors markdown.rs:1638-1650 -/
def parseMarkdownLink (source : Str) (index : Nat) : Checked (Option (Nat × Nat × Str)) :=
  match findUnescaped source (index + 1) (byteOf ']') with
  | none => .ok none
  | some labelEnd =>
    if byteAt source (labelEnd + 1) ≠ some (byteOf '(') then .ok none
    else
      let destinationStart := labelEnd + 2
      match findMarkdownDestinationEnd source destinationStart with
      | none => .ok none
      | some stop => do
        let destination := trim (← slice source destinationStart stop)
        let destination ←
          if 2 ≤ len destination ∧ destination.head? = some '<' ∧ destination.getLast? = some '>' then
            slice destination 1 (len destination - 1)
          else .ok destination
        .ok (some (labelEnd, stop + 1, destination))

/-- mirrors model.rs:18-24 -/
def classifyLinkTarget (value : Str) : LinkTarget :=
  if hasUriScheme value || value.contains '.' then .literal value else .alias value

def isLowerByte (b : UInt8) : Bool := byteOf 'a' ≤ b && b ≤ byteOf 'z'

/-- mirrors markdown.rs:1688-1709 -/
def parseCustomEmoji (source : Str) (index : Nat) : Checked (Option (Str × Nat)) := do
  if ← isBoundaryBefore E source index then
    let start := index + 1
    if (byteAt source start).any fun b => isLowerByte b || b = byteOf '_' then
      let cursor := runEnd (fun b => isLowerByte b || isDigitByte b || b = byteOf '_') source start
      if cursor = start ∨ byteAt source cursor ≠ some (byteOf ':') then .ok none
      else if ← isBoundaryAfter E source (cursor + 1) then .ok (some (← slice source start cursor, cursor + 1))
      else .ok none
    else .ok none
  else .ok none

/-! ## Time markers -/

inductive Dialect where
  | main
  | llm
  deriving DecidableEq, Repr

/-- The name that goes into the errors. -/
def Dialect.name : Dialect → String
  | .main => "main"
  | .llm => "llm"

/-- mirrors markdown.rs:851-855 -/
inductive MarkerScan where
  | noMatch
  | parsed (node : DateTimeNode E) (stop : Nat)
  | malformedIntent (error : RenderError) (range : SourceRange)

variable {E}

/-- mirrors markdown.rs:1006-1011 -/
def directives : List (Str × DateTimeFormat) :=
  [("@time(".toList, .time), ("@date(".toList, .date), ("@datetime(".toList, .dateTime),
    ("@relative(".toList, .relative)]

/-- The malformed directive, up to its parenthesis. -/
def malformedDirective (source : Str) (index contentEnd : Nat) (message : String) : Checked (MarkerScan E) := do
  let error ← RenderError.invalid "main" source index (← slice source index (contentEnd + 1)) message
  .ok (.malformedIntent error ⟨index, contentEnd + 1⟩)

def TimeExpression.isRelative : TimeExpression E → Bool
  | .now _ | .variable _ _ => true
  | .clock _ | .civilDate _ | .civilDateTime _ => false

/-- mirrors markdown.rs:1002-1065 -/
def scanMainMarker (source : Str) (index : Nat) : Checked (MarkerScan E) := do
  if ← isBoundaryBefore E source index then
    let rest ← sliceFrom source index
    match directives.find? fun d => d.1.isPrefixOf rest with
    | none => .ok .noMatch
    | some (literal, format) =>
      let contentStart := index + len literal
      match find [')'] (← sliceFrom source contentStart) with
      | none => do
        let error ← RenderError.invalid "main" source index rest "directive is missing a closing `)`"
        .ok (.malformedIntent error ⟨index, len source⟩)
      | some closeOffset => do
        let contentEnd := contentStart + closeOffset
        match ← parseExpression E (← slice source contentStart contentEnd) with
        | .error message => malformedDirective source index contentEnd message
        | .ok expression =>
          if format = .relative ∧ expression.isRelative = false then
            malformedDirective source index contentEnd "@relative accepts only `now` or a typed binding"
          else .ok (.parsed ⟨expression, format, ⟨index, contentEnd + 1⟩⟩ (contentEnd + 1))
  else .ok .noMatch

/-- The window of the literal may end inside of a character.
mirrors markdown.rs:1243-1255 -/
def malformedLlm (source : Str) (index stop : Nat) (message : String) : Checked (MarkerScan E) := do
  let stop := min stop (len source)
  let error ← RenderError.invalid "llm" source index (← slice source index stop) message
  .ok (.malformedIntent error ⟨index, stop⟩)

/-- mirrors markdown.rs:1129 -/
def isUnitByte (b : UInt8) : Bool :=
  b = byteOf 's' || b = byteOf 'm' || b = byteOf 'h' || b = byteOf 'd' || b = byteOf 'w'

/-- What the loop over the pairs of a relative offset finds. -/
inductive PairScan where
  /-- the source ends before the marker is complete -/
  | unfinished
  | malformed (stop : Nat) (message : String)
  /-- the offset of the `/` -/
  | complete (cursor : Nat)

/-- The loop of `parse_llm_now`, with the pairs that may still come.
mirrors markdown.rs:1093-1151 -/
def scanPairs (source : Str) : Nat → Nat → PairScan
  | 0, cursor => .malformed cursor "relative offset is too long"
  | pairsLeft + 1, cursor =>
    let digitsStart := cursor
    let cursor := runEnd isDigitByte source cursor
    if cursor = digitsStart then
      if len source ≤ cursor then .unfinished else .malformed cursor "relative offset needs a number"
    else
      match byteAt source cursor with
      | none => .unfinished
      | some unit =>
        if isUnitByte unit = false then .malformed (cursor + 1) "unknown relative offset unit"
        else if byteAt source (cursor + 1) = some (byteOf '/') then .complete (cursor + 1)
        else if len source ≤ cursor + 1 then .unfinished
        else scanPairs source pairsLeft (cursor + 1)

/-- The end of `parse_llm_now`.
mirrors markdown.rs:1152-1160 -/
def parseNowLiteral (source : Str) (index stop : Nat) : Checked (MarkerScan E) := do
  let literal ← slice source index stop
  match ← parseExpression E (← sliceTo literal (len literal - 1)) with
  | .error message => malformedLlm source index stop message
  | .ok expression => .ok (.parsed ⟨expression, .time, ⟨index, stop⟩⟩ stop)

/-- mirrors markdown.rs:1080-1160 -/
def parseLlmNow (source : Str) (index : Nat) : Checked (MarkerScan E) :=
  let afterNow := index + 3
  let next := byteAt source afterNow
  if next = some (byteOf '/') then parseNowLiteral source index (afterNow + 1)
  else if next = some (byteOf '+') ∨ next = some (byteOf '-') then
    match scanPairs source 16 (afterNow + 1) with
    | .unfinished => .ok .noMatch
    | .malformed stop message => malformedLlm source index stop message
    | .complete cursor => parseNowLiteral source index (cursor + 1)
  else .ok .noMatch

/-- mirrors markdown.rs:1224-1241 -/
def parsedLlmTime (source : Str) (index stop : Nat) (expressionText : Str) : Checked (MarkerScan E) := do
  match ← parseExpression E expressionText with
  | .error message => malformedLlm source index stop message
  | .ok expression =>
    let format := match expression with
      | .clock _ => DateTimeFormat.time
      | _ => DateTimeFormat.dateTime
    .ok (.parsed ⟨expression, format, ⟨index, stop⟩⟩ stop)

/-- `bytes.get(i..i + n)` and a test of each of its bytes. -/
def bytesMatch (source : Str) (i : Nat) (tests : List (UInt8 → Bool)) : Bool :=
  match tests with
  | [] => true
  | test :: tests => (byteAt source i).any test && bytesMatch source (i + 1) tests

/-- Two digits and `:::`. -/
def clockPrefix : List (UInt8 → Bool) :=
  [isDigitByte, isDigitByte, (· = byteOf ':'), (· = byteOf ':'), (· = byteOf ':')]

/-- `0000-00-00` -/
def datePrefix : List (UInt8 → Bool) :=
  [isDigitByte, isDigitByte, isDigitByte, isDigitByte, (· = byteOf '-'), isDigitByte, isDigitByte, (· = byteOf '-'),
    isDigitByte, isDigitByte]

/-- Two digits and `/`. -/
def clockSuffix : List (UInt8 → Bool) := [isDigitByte, isDigitByte, (· = byteOf '/')]

/-- mirrors markdown.rs:1167-1189 -/
def parseLlmClock (source : Str) (index : Nat) : Checked (MarkerScan E) :=
  let stop := index + 8
  if len source < stop then .ok .noMatch
  else if bytesMatch source (index + 5) clockSuffix = false then malformedLlm source index stop "malformed clock marker"
  else do
    let literal ← slice source index stop
    let text := (← sliceTo literal 2) ++ ':' :: (← slice literal 5 7)
    parsedLlmTime source index stop text

/-- mirrors markdown.rs:1201-1221 -/
def parseLlmDateTime (source : Str) (index : Nat) : Checked (MarkerScan E) :=
  let stop := index + 19
  if len source < stop then .ok .noMatch
  else if bytesMatch source (index + 16) clockSuffix = false then
    malformedLlm source index stop "malformed local datetime marker"
  else do
    let literal ← slice source index stop
    let text := (← sliceTo literal 10) ++ 'T' :: ((← slice literal 11 13) ++ ':' :: (← slice literal 16 18))
    parsedLlmTime source index stop text

/-- mirrors markdown.rs:1162-1222 -/
def parseLlmNumeric (source : Str) (index : Nat) : Checked (MarkerScan E) :=
  if bytesMatch source index clockPrefix then parseLlmClock source index
  else if bytesMatch source index datePrefix then
    if byteAt source (index + 10) = some (byteOf ' ') ∨ byteAt source (index + 10) = some (byteOf 'T') then
      if bytesMatch source (index + 11) clockPrefix then parseLlmDateTime source index else .ok .noMatch
    else .ok .noMatch
  else .ok .noMatch

/-- mirrors markdown.rs:1067-1078 -/
def scanLlmMarker (source : Str) (index : Nat) : Checked (MarkerScan E) := do
  if ← isBoundaryBefore E source index then
    let rest ← sliceFrom source index
    if "now".toList.isPrefixOf rest then parseLlmNow source index
    else if (byteAt source index).any isDigitByte then parseLlmNumeric source index
    else .ok .noMatch
  else .ok .noMatch

def Dialect.marker (dialect : Dialect) (source : Str) (index : Nat) : Checked (MarkerScan E) :=
  match dialect with
  | .main => scanMainMarker source index
  | .llm => scanLlmMarker source index

/-! ## Tokens -/

variable (E) in
/-- What there is at an offset: the cases of one turn of a scanner's loop. -/
inductive Token where
  /-- characters to be passed over -/
  | skip (stop : Nat)
  | uri (stop : Nat) (url : Option Str)
  /-- an unfinished extension: the scan ends -/
  | unfinished
  | failed (error : RenderError)
  | node (node : RichNode E) (stop : Nat)
  | link (target : LinkTarget) (labelStart labelEnd stop : Nat)

/-- mirrors markdown.rs:457-474 -/
def rebaseRenderError (error : RenderError) (source : Str) (base : Nat) : Checked RenderError :=
  match error with
  | .invalidMarkup dialect byteOffset _ _ literal message =>
    RenderError.invalid dialect source (base + byteOffset) literal message
  | .unknownBinding name byteOffset _ _ => do
    let (line, column) ← lineColumn source (base + byteOffset)
    .ok (.unknownBinding name (base + byteOffset) line column)
  | .normalization byteOffset _ _ timeError => do
    let (line, column) ← lineColumn source (base + byteOffset)
    .ok (.normalization (base + byteOffset) line column timeError)

def SourceRange.shift (base : Nat) (range : SourceRange) : SourceRange := ⟨base + range.start, base + range.stop⟩

/-- What the loop does with a marker.
mirrors markdown.rs:942-972 -/
def markerToken (dialect : Dialect) (source : Str) (base index : Nat) : MarkerScan E → Checked (Token E)
  | .noMatch => .skip <$> nextCharBoundary source index
  | .parsed node stop => .ok (.node (.dateTime { node with sourceRange := node.sourceRange.shift base }) stop)
  | .malformedIntent error range =>
    match dialect with
    | .main => .failed <$> rebaseRenderError error source base
    | .llm =>
      let stop := min range.stop (len source)
      let literal := (get? source range.start stop).getD []
      .ok (.node (.invalidTime literal (SourceRange.shift base ⟨range.start, stop⟩)) stop)

/-- mirrors markdown.rs:905-932 -/
def linkToken (source : Str) (index : Nat) : Checked (Option (Token E)) :=
  if byteAt source index = some (byteOf '[') then do
    match ← parseMarkdownLink source index with
    | none => .ok none
    | some (labelEnd, stop, destination) =>
      .ok (some (.link (classifyLinkTarget destination) (index + 1) labelEnd stop))
  else .ok none

/-- mirrors markdown.rs:933-944 -/
def emojiToken (source : Str) (base index : Nat) : Checked (Option (Token E)) :=
  if byteAt source index = some (byteOf ':') then do
    match ← parseCustomEmoji E source index with
    | none => .ok none
    | some (name, stop) => .ok (some (.node (.customEmoji name ⟨base + index, base + stop⟩) stop))
  else .ok none

/-- mirrors markdown.rs:884-973 -/
def nextToken (dialect : Dialect) (source : Str) (base index : Nat) : Checked (Token E) := do
  let rest ← sliceFrom source index
  if "```".toList.isPrefixOf rest then .skip <$> skipDelimited source index "```".toList
  else if byteAt source index = some (byteOf '`') then .skip <$> skipInlineCode source index
  else if byteAt source index = some (byteOf '\\') then .skip <$> skipEscaped source index
  else
    match ← scanUri E source index with
    | some (stop, url) => .ok (.uri stop url)
    | none =>
      match ← linkToken source index with
      | some token => .ok token
      | none =>
        match ← emojiToken source base index with
        | some token => .ok token
        | none => markerToken dialect source base index (← dialect.marker source index)

end Teloxide.RichText
