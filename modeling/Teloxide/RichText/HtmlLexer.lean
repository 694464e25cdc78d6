import Teloxide.RichText.HtmlAttributes
import Teloxide.RichText.Lexer

/-!
# The tokens of the HTML scanner

What `scan_html_at` of `crates/teloxide/src/utils/time/markdown.rs:1261-1443` finds at
one offset, as a `Token`: a URI, a tag to be passed over, one of the three extensions, or
the place where an unfinished one makes it stop. `nextHtmlToken` asks in the order of the
loop.
-/
namespace Teloxide.RichText

open Teloxide.Core Teloxide.Core.Utf8

variable (E : Platform)

/-! ## Tags -/

/-- mirrors markdown.rs:1467-1478 -/
def tagEnd : Option UInt8 → List UInt8 → Option Nat
  | _, [] => none
  | some current, b :: rest => (tagEnd (if b = current then none else some current) rest).map (1 + ·)
  | none, b :: rest =>
    if b = byteOf '\'' ∨ b = byteOf '"' then (tagEnd (some b) rest).map (1 + ·)
    else if b = byteOf '>' then some 0
    else (tagEnd none rest).map (1 + ·)

def findTagEnd (source : Str) (start : Nat) : Checked (Option Nat) := do
  let rest ← sliceFrom source start
  .ok ((tagEnd none (bytes rest)).map (start + ·))

/-- `u8::to_ascii_lowercase` -/
def lowerByte (b : UInt8) : UInt8 := if byteOf 'A' ≤ b ∧ b ≤ byteOf 'Z' then b + 32 else b

/-- The first window that is `needle` but for the case. -/
def findWindow (needle : List UInt8) : List UInt8 → Option Nat
  | [] => none
  | b :: rest =>
    if needle.isPrefixOf ((b :: rest).map lowerByte) then some 0 else (findWindow needle rest).map (1 + ·)

/-- mirrors markdown.rs:1480-1485 -/
def findCaseInsensitive (source needle : Str) : Option Nat := findWindow (bytes needle) (bytes source)

/-- mirrors markdown.rs:1527-1531 -/
def htmlTagName (tag : Str) : Option Str :=
  (stripTag tag).map fun inner =>
    (trim (inner.dropWhile (· = '/'))).takeWhile fun c => !isAsciiWhitespace c && c ≠ '/'

def isClosing (tag : Str) : Bool := "</".toList.isPrefixOf tag

/-- `tag.trim_end().ends_with("/>")` -/
def isSelfClosing (tag : Str) : Bool := "/>".toList.isSuffixOf (trimEnd tag)

/-- `format!("</{name}>")` -/
def closingTag (name : Str) : Str := "</".toList ++ (name ++ ">".toList)

/-- `name.to_ascii_lowercase()` of a `code` or `pre` tag that is open. -/
def literalName (tag : Str) : Option Str :=
  if isClosing tag || isSelfClosing tag then none
  else ((htmlTagName tag).map toAsciiLowercase).filter fun name => name = "code".toList || name = "pre".toList

/-- mirrors markdown.rs:1487-1500 -/
def skipHtmlLiteralContext (source : Str) (start : Nat) : Checked (Option Nat) := do
  match ← findTagEnd source start with
  | none => .ok none
  | some tagEnd => do
    match literalName (← slice source start (tagEnd + 1)) with
    | none => .ok none
    | some name => do
      let rest ← sliceFrom source (tagEnd + 1)
      .ok ((findCaseInsensitive rest (closingTag name)).map fun offset =>
        tagEnd + 1 + offset + len (closingTag name))

/-- mirrors markdown.rs:1502-1516 -/
def isUnclosedHtmlLiteral (source : Str) (start : Nat) : Checked Bool := do
  match ← findTagEnd source start with
  | none => .ok false
  | some tagEnd => do
    match literalName (← slice source start (tagEnd + 1)) with
    | none => .ok false
    | some name => .ok (findCaseInsensitive (← sliceFrom source (tagEnd + 1)) (closingTag name)).isNone

/-- mirrors markdown.rs:1518-1520 -/
def hasHtmlClosingTag (source : Str) (start : Nat) (name : Str) : Checked Bool := do
  .ok (findCaseInsensitive (← sliceFrom source start) (closingTag name)).isSome

/-- mirrors markdown.rs:1522-1525 -/
def looksLikeHtmlExtensionPrefix (source : Str) : Bool :=
  ["<tg-time".toList, "<tg-emoji".toList, "<a ".toList, "<a>".toList, "<a\n".toList].any
    (·.isPrefixOf (toAsciiLowercase source))

/-! ## Elements -/

/-- mirrors markdown.rs:1445-1465 -/
def parseHtmlTimeFormat (explicit : Option Str) (value : Str) : Except String DateTimeFormat :=
  match explicit with
  | some format =>
    let format := toAsciiLowercase format
    if format = "time".toList then .ok .time
    else if format = "date".toList then .ok .date
    else if format = "datetime".toList ∨ format = "date-time".toList then .ok .dateTime
    else if format = "relative".toList then .ok .relative
    else .error "tg-time `format` must be time, date, datetime or relative"
  | none =>
    if "now".toList.isPrefixOf value ∨ len value = 5 then .ok .time
    else if len value = 10 then .ok .date
    else .ok .dateTime

variable {E}

/-- The end of an element that is not a link. -/
def elementEnd (source : Str) (tagEnd : Nat) (selfClosing : Bool) (name : Str) : Checked (Option Nat) := do
  if selfClosing then .ok (some (tagEnd + 1))
  else
    let rest ← sliceFrom source (tagEnd + 1)
    .ok ((findCaseInsensitive rest (closingTag name)).map fun offset => tagEnd + 1 + offset + len (closingTag name))

/-- mirrors markdown.rs:1308-1350 -/
def timeElement (source : Str) (base index tagEnd : Nat) (tag : Str) (attrs : Table Str Str) (selfClosing : Bool) :
    Checked (Token E) := do
  let fail (message : String) : Checked (Token E) := do
    .ok (.failed (← RenderError.invalid "html" source (base + index) tag message))
  match (attrs.lookup "value".toList).or (attrs.lookup "datetime".toList) with
  | none => fail "tg-time requires a `value` attribute"
  | some value =>
    match ← parseExpression E (value.map fun c => if c = ' ' then 'T' else c) with
    | .error message => fail message
    | .ok expression =>
      match parseHtmlTimeFormat (attrs.lookup "format".toList) value with
      | .error message => fail message
      | .ok format =>
        match ← elementEnd source tagEnd selfClosing "tg-time".toList with
        | none => fail "tg-time is missing its closing tag"
        | some stop => .ok (.node (.dateTime ⟨expression, format, ⟨base + index, base + stop⟩⟩) stop)

/-- mirrors markdown.rs:1351-1386 -/
def emojiElement (source : Str) (base index tagEnd : Nat) (tag : Str) (attrs : Table Str Str) (selfClosing : Bool) :
    Checked (Token E) := do
  let fail (message : String) : Checked (Token E) := do
    .ok (.failed (← RenderError.invalid "html" source (base + index) tag message))
  match attrs.lookup "alias".toList with
  | none => fail "tg-emoji requires an `alias` attribute"
  | some name =>
    match ← elementEnd source tagEnd selfClosing "tg-emoji".toList with
    | none => fail "tg-emoji is missing its closing tag"
    | some stop => .ok (.node (.customEmoji (toAsciiLowercase name) ⟨base + index, base + stop⟩) stop)

/-- mirrors markdown.rs:1387-1410 -/
def anchorElement (source : Str) (base index tagEnd : Nat) (tag : Str) (attrs : Table Str Str) :
    Checked (Token E) := do
  let fail (message : String) : Checked (Token E) := do
    .ok (.failed (← RenderError.invalid "html" source (base + index) tag message))
  match attrs.lookup "href".toList with
  | none => fail "a requires an `href` attribute"
  | some href =>
    match findCaseInsensitive (← sliceFrom source (tagEnd + 1)) "</a>".toList with
    | none => fail "a is missing its closing tag"
    | some offset =>
      let labelEnd := tagEnd + 1 + offset
      .ok (.link (classifyLinkTarget href) (tagEnd + 1) labelEnd (labelEnd + len "</a>".toList))

/-- A tag that ends at `tagEnd`.
mirrors markdown.rs:1293-1433 -/
def tagToken (source : Str) (base index tagEnd : Nat) : Checked (Token E) := do
  let tag ← slice source index (tagEnd + 1)
  match htmlTagName tag with
  | none => .ok (.skip (tagEnd + 1))
  | some name =>
    let name := toAsciiLowercase name
    if name = "tg-time".toList ∨ name = "tg-emoji".toList ∨ name = "a".toList then
      let attrs ← parseHtmlAttributes tag
      let selfClosing := isSelfClosing tag
      let closed ← hasHtmlClosingTag source (tagEnd + 1) name
      if selfClosing = false ∧ closed = false then .ok .unfinished
      else if name = "tg-time".toList then timeElement source base index tagEnd tag attrs selfClosing
      else if name = "tg-emoji".toList then emojiElement source base index tagEnd tag attrs selfClosing
      else anchorElement source base index tagEnd tag attrs
    else .ok (.skip (tagEnd + 1))

/-- mirrors markdown.rs:1268-1433 -/
def nextHtmlToken (source : Str) (base index : Nat) : Checked (Token E) := do
  match ← scanUri E source index with
  | some (stop, url) => .ok (.uri stop url)
  | none =>
    if byteAt source index ≠ some (byteOf '<') then .skip <$> nextCharBoundary source index
    else if ← isUnclosedHtmlLiteral source index then .ok .unfinished
    else
      match ← skipHtmlLiteralContext source index with
      | some stop => .ok (.skip stop)
      | none =>
        match ← findTagEnd source index with
        | none => do
          if looksLikeHtmlExtensionPrefix (← sliceFrom source index) then .ok .unfinished
          else .skip <$> nextCharBoundary source index
        | some tagEnd => tagToken source base index tagEnd

end Teloxide.RichText
