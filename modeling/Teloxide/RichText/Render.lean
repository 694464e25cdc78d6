import Teloxide.RichText.Scan

/-!
# Rendering

`render_fragment` and `resolve_link` of `crates/teloxide/src/utils/time/markdown.rs:524-843`,
with the policies of `policy.rs` and the bindings of `bindings.rs`. Two things come from
outside: the `url` crate, and the normalization of a time expression, which is left to the
calendar library.
-/
namespace Teloxide.RichText

open Teloxide.Core Teloxide.Core.Utf8

/-- The `url` crate. A serialized URL begins with the letter of its scheme and does not
end with white space. -/
structure UrlLibrary where
  Url : Type
  asStr : Url → Str
  /-- `Url::parse(value).is_ok()` -/
  parses : Str → Bool
  head_alpha : ∀ url, (asStr url).head?.any Char.isAlpha = true
  last_not_space : ∀ url c, (asStr url).getLast? = some c → isWhitespace c = false

/-- mirrors policy.rs:2-6 -/
inductive UnknownLinkAliasPolicy where
  | keepLabel
  | keepLiteralMarkdown
  | error
  deriving DecidableEq, Repr

/-- mirrors policy.rs:9-13 -/
inductive UnknownCustomEmojiPolicy where
  | keepLiteral
  | useFallback (fallback : Str)
  | error
  deriving DecidableEq, Repr

/-- mirrors policy.rs:16-21 -/
inductive LiteralLinkPolicy where
  | telegramSafeSchemes
  | anyUri
  deriving DecidableEq, Repr

/-- mirrors policy.rs:24-27 -/
inductive InvalidTimePolicy where
  | keepLiteral
  | error
  deriving DecidableEq, Repr

/-- mirrors policy.rs:30-35 -/
structure RichTextPolicies where
  unknownLinkAlias : UnknownLinkAliasPolicy
  unknownCustomEmoji : UnknownCustomEmojiPolicy
  invalidTime : InvalidTimePolicy
  literalLink : LiteralLinkPolicy
  deriving DecidableEq, Repr

/-- mirrors policy.rs:38-45 -/
def RichTextPolicies.developer : RichTextPolicies := ⟨.error, .error, .error, .telegramSafeSchemes⟩

/-- mirrors policy.rs:47-60 -/
def RichTextPolicies.llm : RichTextPolicies := ⟨.keepLabel, .keepLiteral, .keepLiteral, .telegramSafeSchemes⟩

/-- mirrors policy.rs:71-77; what no renderer gives is left out -/
inductive RichTextDiagnostic where
  | unknownLinkAlias (name : Str)
  | unknownCustomEmojiAlias (name : Str)
  | invalidLiteralUrl (destination : Str)
  | invalidTimeToken (token : Str)
  deriving DecidableEq, Repr

/-- mirrors bindings.rs:8-17 -/
structure CustomEmojiBinding where
  customEmojiId : Str
  fallback : Str

/-- mirrors bindings.rs:25-28 -/
structure RichTextBindings (U : UrlLibrary) where
  links : Table Str U.Url
  customEmojis : Table Str CustomEmojiBinding

/-- mirrors markdown.rs:385-388 -/
inductive Target where
  | markdown
  | html
  deriving DecidableEq, Repr

/-- What the renderer reads of `NormalizedDateTime`. -/
structure NormalizedDateTime where
  unixTime : Int
  fallbackText : Str
  format : DateTimeFormat

/-- mirrors markdown.rs:390-397; the time context, its bindings and the instant are what
`normalize` closes over -/
structure RenderOptions (E : Platform) (U : UrlLibrary) where
  normalize : TimeExpression E → DateTimeFormat → Except TimeError NormalizedDateTime
  bindings : RichTextBindings U
  policies : RichTextPolicies
  target : Target

/-- mirrors markdown.rs:399-403 -/
structure RenderedFragment where
  compiled : Str
  fallback : Str
  diagnostics : List RichTextDiagnostic
  deriving DecidableEq

def RenderedFragment.append (a b : RenderedFragment) : RenderedFragment :=
  ⟨a.compiled ++ b.compiled, a.fallback ++ b.fallback, a.diagnostics ++ b.diagnostics⟩

/-- mirrors model.rs:49-58 -/
def DateTimeFormat.wireValue : DateTimeFormat → Str
  | .time => "t".toList
  | .date => "D".toList
  | .dateTime => "Dt".toList
  | .relative => "r".toList

/-! ## Escapes -/

/-- mirrors markdown.rs:1930-1932 -/
def escapeMarkdownDestination (value : Str) : Str := replaceChar ')' "\\)".toList (replaceChar '\\' "\\\\".toList value)

/-- mirrors markdown.rs:1934-1936 -/
def escapeMarkdownLabel (value : Str) : Str := replaceChar ']' "\\]".toList (replaceChar '\\' "\\\\".toList value)

/-- mirrors markdown.rs:1948-1967 -/
def isMarkdownMark (c : Char) : Bool := "\\_*[]()~`>#+-=|\x7b\x7d.!".toList.contains c

/-- mirrors markdown.rs:1945-1974 -/
def escapeMarkdownLiteral (value : Str) : Str := value.flatMap fun c => if isMarkdownMark c then ['\\', c] else [c]

/-- mirrors markdown.rs:1938-1943 -/
def literalForFrontend (value : Str) : Target → Str
  | .markdown => escapeMarkdownLiteral value
  | .html => escapeHtml value

/-! ## Links -/

section

variable {E : Platform} {U : UrlLibrary}

/-- mirrors markdown.rs:732-735 -/
structure LinkResolution where
  destination : Option Str
  diagnostic : Option RichTextDiagnostic

/-- mirrors markdown.rs:826-843 -/
def invalidLiteralLink (policies : RichTextPolicies) (source literal : Str) (byteOffset : Nat) (message : String) :
    Checked (Except RenderError LinkResolution) :=
  if policies.unknownLinkAlias = .error then
    .error <$> RenderError.invalid "rich-text" source byteOffset literal message
  else .ok (.ok ⟨none, some (.invalidLiteralUrl literal)⟩)

local instance : LawfulBEq Str := inferInstance

/-- mirrors markdown.rs:737-824 -/
def resolveLink (target : LinkTarget) (bindings : RichTextBindings U) (policies : RichTextPolicies) (source : Str)
    (sourceRange : SourceRange) : Checked (Except RenderError LinkResolution) :=
  match target with
  | .literal value =>
    if value = [] ∨ value.any (fun c => isControl c || isWhitespace c) = true then
      invalidLiteralLink policies source value sourceRange.start "literal link destination is invalid"
    else if hasUriScheme value then
      -- `split_once(':')`
      let scheme := value.takeWhile (· ≠ ':')
      if policies.literalLink = .telegramSafeSchemes ∧ toAsciiLowercase scheme ∉ telegramSchemes then
        invalidLiteralLink policies source value sourceRange.start "literal URI scheme is not allowed"
      else if U.parses value = false then
        invalidLiteralLink policies source value sourceRange.start "literal URI is invalid"
      else .ok (.ok ⟨some value, none⟩)
    else
      let candidate := "https://".toList ++ value
      if U.parses candidate = false then
        invalidLiteralLink policies source value sourceRange.start "literal host-like URL is invalid"
      else .ok (.ok ⟨some candidate, none⟩)
  | .alias name =>
    match bindings.links.lookup name with
    | some url => .ok (.ok ⟨some (U.asStr url), none⟩)
    | none =>
      if policies.unknownLinkAlias = .error then
        .error <$> RenderError.invalid "rich-text" source sourceRange.start name "unknown link alias"
      else .ok (.ok ⟨none, some (.unknownLinkAlias name)⟩)

/-- mirrors error.rs:70-81 -/
def RenderError.fromTimeError (source : Str) (byteOffset : Nat) (error : TimeError) : Checked RenderError := do
  let (line, column) ← lineColumn source byteOffset
  match error with
  | .unknownBinding name => .ok (.unknownBinding name byteOffset line column)
  | .invalidCivil | .overflow => .ok (.normalization byteOffset line column error)

/-- A literal that is kept, with its diagnostic.
mirrors markdown.rs:545-550, 567-573 -/
def keptLiteral (options : RenderOptions E U) (literal : Str) : RenderedFragment :=
  ⟨literalForFrontend literal options.target, literal, [.invalidTimeToken literal]⟩

/-- mirrors markdown.rs:534-551 -/
def renderInvalidTime (source : Str) (options : RenderOptions E U) (literal : Str) (sourceRange : SourceRange) :
    Checked (Except RenderError RenderedFragment) :=
  if options.policies.invalidTime = .error then
    .error <$> RenderError.invalid "llm" source sourceRange.start literal "malformed time marker"
  else .ok (.ok (keptLiteral options literal))

/-- mirrors markdown.rs:552-598 -/
def renderDateTime (source : Str) (options : RenderOptions E U) (node : DateTimeNode E) :
    Checked (Except RenderError RenderedFragment) :=
  match options.normalize node.expression node.format with
  | .error error =>
    if options.policies.invalidTime = .error then
      .error <$> RenderError.fromTimeError source node.sourceRange.start error
    else .ok (.ok (keptLiteral options ((get? source node.sourceRange.start node.sourceRange.stop).getD [])))
  | .ok normalized =>
    let unixTime := (toString normalized.unixTime).toList
    let compiled := match options.target with
      | .markdown =>
        "![".toList ++ escapeMarkdownLabel normalized.fallbackText ++ "](tg://time?unix=".toList ++ unixTime
          ++ "&format=".toList ++ normalized.format.wireValue ++ ")".toList
      | .html =>
        "<tg-time unix=\"".toList ++ unixTime ++ "\" format=\"".toList ++ normalized.format.wireValue ++ "\">".toList
          ++ escapeHtml normalized.fallbackText ++ "</tg-time>".toList
    .ok (.ok ⟨compiled, normalized.fallbackText, []⟩)

/-- mirrors markdown.rs:670-725 -/
def renderCustomEmoji (source : Str) (options : RenderOptions E U) (name : Str) (sourceRange : SourceRange) :
    Checked (Except RenderError RenderedFragment) :=
  match options.bindings.customEmojis.lookup (toAsciiLowercase name) with
  | some ⟨id, fallback⟩ =>
    let compiled := match options.target with
      | .markdown => "![".toList ++ escapeMarkdownLabel fallback ++ "](tg://emoji?id=".toList ++ id ++ ")".toList
      | .html =>
        "<tg-emoji emoji-id=\"".toList ++ escapeHtml id ++ "\">".toList ++ escapeHtml fallback ++ "</tg-emoji>".toList
    .ok (.ok ⟨compiled, fallback, []⟩)
  | none =>
    let literal := ':' :: (name ++ [':'])
    match options.policies.unknownCustomEmoji with
    | .keepLiteral =>
      .ok (.ok ⟨literalForFrontend literal options.target, literal, [.unknownCustomEmojiAlias name]⟩)
    | .useFallback fallback =>
      .ok (.ok ⟨literalForFrontend fallback options.target, fallback, [.unknownCustomEmojiAlias name]⟩)
    | .error =>
      .error <$> RenderError.invalid "rich-text" source sourceRange.start literal "unknown custom emoji alias"

/-- A link in Markdown. -/
def markdownLink (label destination : Str) : Str :=
  '[' :: (label ++ "](".toList ++ escapeMarkdownDestination destination ++ ")".toList)

/-- What is written for a link.
mirrors markdown.rs:611-648 -/
def compiledLink (options : RenderOptions E U) (target : LinkTarget) (label : Str) (destination : Option Str) : Str :=
  match destination with
  | some destination =>
    match options.target with
    | .markdown => markdownLink label destination
    | .html => "<a href=\"".toList ++ escapeHtml destination ++ "\">".toList ++ label ++ "</a>".toList
  | none =>
    if options.policies.unknownLinkAlias = .keepLiteralMarkdown then
      match options.target with
      | .markdown =>
        match target with
        | .alias name => markdownLink label name
        | .literal _ => '[' :: (label ++ "](".toList ++ ")".toList)
      | .html => label
    else label

/-- mirrors markdown.rs:649-668 -/
def fallbackLink (options : RenderOptions E U) (target : LinkTarget) (label : Str) (destination : Option Str) : Str :=
  match options.target, target, destination with
  | .markdown, .literal _, some destination => '[' :: (label ++ "](".toList ++ destination ++ ")".toList)
  | .html, .literal _, some _ => label
  | _, .alias _, some destination => label ++ " (".toList ++ destination ++ ")".toList
  | _, _, none => label

/-- mirrors markdown.rs:604-669 -/
def renderLink (source : Str) (options : RenderOptions E U) (label : RenderedFragment) (target : LinkTarget)
    (sourceRange : SourceRange) : Checked (Except RenderError RenderedFragment) := do
  match ← resolveLink target options.bindings options.policies source sourceRange with
  | .error error => .ok (.error error)
  | .ok resolution =>
    .ok (.ok ⟨compiledLink options target label.compiled resolution.destination,
      fallbackLink options target label.fallback resolution.destination,
      label.diagnostics ++ resolution.diagnostic.toList⟩)

mutual

/-- What one node adds.
mirrors markdown.rs:524-730 -/
def renderNode (source : Str) (options : RenderOptions E U) :
    RichNode E → Checked (Except RenderError RenderedFragment)
  | .text content => .ok (.ok ⟨content, content, []⟩)
  | .invalidTime literal sourceRange => renderInvalidTime source options literal sourceRange
  | .dateTime node => renderDateTime source options node
  | .customEmoji name sourceRange => renderCustomEmoji source options name sourceRange
  | .link label target sourceRange => do
    match ← renderFragment source options label with
    | .error error => .ok (.error error)
    | .ok label => renderLink source options label target sourceRange

/-- mirrors markdown.rs:524-730 -/
def renderFragment (source : Str) (options : RenderOptions E U) :
    List (RichNode E) → Checked (Except RenderError RenderedFragment)
  | [] => .ok (.ok ⟨[], [], []⟩)
  | node :: nodes => do
    match ← renderNode source options node with
    | .error error => .ok (.error error)
    | .ok first =>
      match ← renderFragment source options nodes with
      | .error error => .ok (.error error)
      | .ok rest => .ok (.ok (first.append rest))

end

end

end Teloxide.RichText
