import Mathlib
import Teloxide.Types.MessageEntity

/-!
# Rendering of entities (`crates/teloxide/src/utils/render.rs`, `render/tag.rs`)

An entity with markup becomes a `Start` and an `End` tag, a quote also a `MidNewLine` tag
after each of its newlines. The tags are sorted by offset and place, and written into the
text as the loop over its UTF-16 code units passes them.

* `none` stands for a panic: `unreachable!`, the logarithm of zero, a broken surrogate pair.
* The buffer is kept as the list of the writes into it (`Chunk`), so that one can tell the
  tags from the text.
-/
namespace Teloxide.Utils.Render

open Teloxide.Core Utf8 Teloxide.Types

/-! ## Tags -/

/-- mirrors tag.rs:59-66 -/
inductive Place where
  | «end»
  | midNewLine
  | start
  deriving DecidableEq, Repr

/-- The derived `Ord`: `End` is first. -/
def Place.rank : Place → Nat
  | .end => 0
  | .midNewLine => 1
  | .start => 2

/-- mirrors tag.rs:72-87 -/
inductive Kind where
  | bold
  | blockquote
  | expandableBlockquote
  | italic
  | underline
  | strikethrough
  | spoiler
  | code
  | pre (lang : Option Str)
  | textLink (url : Str)
  | textMention (id : Nat)
  | customEmoji (customEmojiId : Str)
  | dateTime (unixTime : Int) (dateTimeFormat : Option Str)
  deriving DecidableEq, Repr

def Kind.isQuote : Kind → Bool
  | .blockquote | .expandableBlockquote => true
  | _ => false

/-- mirrors tag.rs:6-11 -/
structure Tag where
  place : Place
  kind : Kind
  offset : Nat
  index : Nat
  deriving DecidableEq, Repr

/-- mirrors tag.rs:39-49 -/
def Tag.cmp (a b : Tag) : Ordering :=
  (compare a.offset b.offset).then <| (compare a.place.rank b.place.rank).then <|
    match b.place with
    | .start | .midNewLine => compare a.index b.index
    | .end => compare b.index a.index

def Tag.le (a b : Tag) : Bool := (a.cmp b).isLE

/-- mirrors tag.rs:89-107 -/
structure SimpleTag where
  start : Str
  «end» : Str

def SimpleTag.getTag (t : SimpleTag) : Place → Option Str
  | .start => some t.start
  | .midNewLine => none
  | .end => some t.end

/-- mirrors tag.rs:109-120 -/
structure ComplexTag where
  start : Str
  middle : Str
  «end» : Str

/-- mirrors tag.rs:122-133 -/
structure NewLineRepeatedTag where
  start : Str
  repeated : Str
  «end» : Str

def NewLineRepeatedTag.getTag (t : NewLineRepeatedTag) : Place → Str
  | .start => t.start
  | .midNewLine => t.repeated
  | .end => t.end

/-- The tags of a writer.
mirrors tag.rs:135-149 -/
structure TagSet where
  bold : SimpleTag
  blockquote : NewLineRepeatedTag
  expandableBlockquote : NewLineRepeatedTag
  italic : SimpleTag
  underline : SimpleTag
  strikethrough : SimpleTag
  spoiler : SimpleTag
  code : SimpleTag
  preNoLang : SimpleTag
  pre : ComplexTag
  textLink : ComplexTag
  textMention : ComplexTag
  customEmoji : ComplexTag

structure TagWriter extends TagSet where
  writeTag : Tag → Option Str
  writeChar : Char → Str

/-- `u64::ilog10` -/
def ilog10 (n : Nat) : Option Nat := if n = 0 then none else some (Nat.log 10 n)

namespace TagSet

/-- The term of one tag in the sum.
mirrors tag.rs:153-198 -/
def extraSize (w : TagSet) (tag : Tag) : Option Nat :=
  match tag.kind with
  | .bold => (w.bold.getTag tag.place).map len
  | .blockquote => some (len (w.blockquote.getTag tag.place))
  | .expandableBlockquote => some (len (w.expandableBlockquote.getTag tag.place))
  | .italic => (w.italic.getTag tag.place).map len
  | .underline => (w.underline.getTag tag.place).map len
  | .strikethrough => (w.strikethrough.getTag tag.place).map len
  | .spoiler => (w.spoiler.getTag tag.place).map len
  | .code => (w.code.getTag tag.place).map len
  | .pre lang =>
    match tag.place with
    | .start => some (lang.elim (len w.preNoLang.start) fun l => len w.pre.start + len l)
    | .midNewLine => none
    | .end => some (lang.elim (len w.preNoLang.end) fun _ => len w.pre.middle + len w.pre.end)
  | .textLink url =>
    match tag.place with
    | .start => some (len w.textLink.start + len url)
    | .midNewLine => none
    | .end => some (len w.textLink.middle + len w.textLink.end)
  | .textMention id =>
    match tag.place with
    | .start => (ilog10 id).map fun digits => len w.textMention.start + digits + 1
    | .midNewLine => none
    | .end => some (len w.textMention.middle + len w.textMention.end)
  | .customEmoji customEmojiId =>
    match tag.place with
    | .start => some (len w.customEmoji.start + len customEmojiId)
    | .midNewLine => none
    | .end => some (len w.customEmoji.middle + len w.customEmoji.end)
  | .dateTime unixTime dateTimeFormat =>
    some (64 + len (toString unixTime).toList + dateTimeFormat.elim 0 len)

/-- mirrors tag.rs:151-200 -/
def getExtraSizeForTags (w : TagSet) : List Tag → Option Nat
  | [] => some 0
  | tag :: tags => do
    let size ← w.extraSize tag
    let rest ← w.getExtraSizeForTags tags
    return size + rest

end TagSet

/-! ## The renderer -/

/-- The markup of an entity, if it has any.
mirrors render.rs:62-85 -/
def kindOf : MessageEntityKind → Option Kind
  | .bold => some .bold
  | .blockquote => some .blockquote
  | .expandableBlockquote => some .expandableBlockquote
  | .italic => some .italic
  | .underline => some .underline
  | .strikethrough => some .strikethrough
  | .spoiler => some .spoiler
  | .code => some .code
  | .pre language => some (.pre language)
  | .textLink url => some (.textLink url)
  | .textMention user => some (.textMention user.id)
  | .customEmoji customEmojiId => some (.customEmoji customEmojiId)
  | .dateTime (some unixTime) dateTimeFormat => some (.dateTime unixTime dateTimeFormat)
  | .dateTime none _ | .mention | .hashtag | .cashtag | .botCommand | .url | .email | .phoneNumber => none

/-- The offsets after the newlines of the entity.
mirrors render.rs:92-97 -/
def newLineOffsets (text : Str) (entity : MessageEntity) : List Nat :=
  (((Utf16.encode text).zipIdx.drop entity.offset).take entity.length).filterMap fun (unit, offset) =>
    if unit = '\n'.toNat then some (offset + 1) else none

/-- mirrors render.rs:61-104 -/
def tagsOf (text : Str) (entity : MessageEntity) (index : Nat) : List Tag :=
  match kindOf entity.kind with
  | none => []
  | some kind =>
    ⟨.start, kind, entity.offset, index⟩ ::
      (if kind.isQuote then (newLineOffsets text entity).map fun offset => ⟨.midNewLine, kind, offset, index⟩ else []) ++
      [⟨.end, kind, entity.offset + entity.length, index⟩]

def buildTags (text : Str) (entities : List MessageEntity) : List Tag :=
  entities.zipIdx.flatMap fun (entity, index) => tagsOf text entity index

/-- mirrors render.rs:17-21 -/
structure Renderer where
  text : Str
  tags : List Tag
  passthroughEntities : List MessageEntityKind

/-- A write into the buffer. -/
structure Chunk where
  markup : Bool
  text : Str
  deriving DecidableEq, Repr

namespace Renderer

/-- mirrors render.rs:33-110 -/
def new (text : Str) (entities : List MessageEntity) : Renderer where
  text := text
  tags := (buildTags text entities).mergeSort Tag.le
  passthroughEntities := (entities.filter fun e => (kindOf e.kind).isNone).map (·.kind)

def writeTags (w : TagWriter) : List Tag → Option (List Chunk)
  | [] => some []
  | tag :: tags => do
    let s ← w.writeTag tag
    let rest ← writeTags w tags
    return ⟨true, s⟩ :: rest

/-- The loop over the code units, with the held surrogate.
mirrors render.rs:144-180 -/
def formatLoop (w : TagWriter) : List Nat → Nat → List Tag → Option Nat → Option (List Chunk)
  | [], _, tags, _ => writeTags w tags
  | point :: units, idx, tags, prevPoint => do
    let markup ← writeTags w (tags.takeWhile (·.offset == idx))
    let tags := tags.dropWhile (·.offset == idx)
    match prevPoint with
    | some previous =>
      let ch ← Utf16.decodePair previous point
      let rest ← formatLoop w units (idx + 1) tags none
      return markup ++ ⟨false, w.writeChar ch⟩ :: rest
    | none =>
      match Utf16.decodeOne point with
      | some ch =>
        let rest ← formatLoop w units (idx + 1) tags none
        return markup ++ ⟨false, w.writeChar ch⟩ :: rest
      | none =>
        let rest ← formatLoop w units (idx + 1) tags (some point)
        return markup ++ rest

/-- mirrors render.rs:135-183 -/
def format (r : Renderer) (w : TagWriter) : Option (List Chunk) :=
  if r.tags.isEmpty then some [⟨false, r.text⟩]
  else do
    let _ ← w.getExtraSizeForTags r.tags
    formatLoop w (Utf16.encode r.text) 0 r.tags none

end Renderer

/-! ## HTML -/

namespace Html

/-- mirrors html.rs:3-19 -/
def HTML : TagSet where
  bold := ⟨"<b>".toList, "</b>".toList⟩
  blockquote := ⟨"<blockquote>".toList, [], "</blockquote>".toList⟩
  expandableBlockquote := ⟨"<blockquote expandable>".toList, [], "</blockquote>".toList⟩
  italic := ⟨"<i>".toList, "</i>".toList⟩
  underline := ⟨"<u>".toList, "</u>".toList⟩
  strikethrough := ⟨"<s>".toList, "</s>".toList⟩
  spoiler := ⟨"<tg-spoiler>".toList, "</tg-spoiler>".toList⟩
  code := ⟨"<code>".toList, "</code>".toList⟩
  preNoLang := ⟨"<pre>".toList, "</pre>".toList⟩
  pre := ⟨"<pre><code class=\"language-".toList, "\">".toList, "</code></pre>".toList⟩
  textLink := ⟨"<a href=\"".toList, "\">".toList, "</a>".toList⟩
  textMention := ⟨"<a href=\"tg://user?id=".toList, "\">".toList, "</a>".toList⟩
  customEmoji := ⟨"<tg-emoji emoji-id=\"".toList, "\">".toList, "</tg-emoji>".toList⟩

/-- mirrors html.rs:98-108 -/
def writeAttribute (value : Str) : Str :=
  value.flatMap fun
    | '&' => "&amp;".toList
    | '<' => "&lt;".toList
    | '>' => "&gt;".toList
    | '"' => "&quot;".toList
    | ch => [ch]

/-- mirrors html.rs:110-117 -/
def writeChar : Char → Str
  | '&' => "&amp;".toList
  | '<' => "&lt;".toList
  | '>' => "&gt;".toList
  | c => [c]

/-- mirrors html.rs:21-96 -/
def writeTag (tag : Tag) : Option Str :=
  match tag.kind with
  | .bold => HTML.bold.getTag tag.place
  -- HTML doesn't need an explicit tag for the new lines of a quote
  | .blockquote => some (HTML.blockquote.getTag tag.place)
  | .expandableBlockquote => some (HTML.expandableBlockquote.getTag tag.place)
  | .italic => HTML.italic.getTag tag.place
  | .underline => HTML.underline.getTag tag.place
  | .strikethrough => HTML.strikethrough.getTag tag.place
  | .spoiler => HTML.spoiler.getTag tag.place
  | .code => HTML.code.getTag tag.place
  | .pre lang =>
    match tag.place with
    | .start => some (lang.elim HTML.preNoLang.start fun lang => HTML.pre.start ++ writeAttribute lang ++ HTML.pre.middle)
    | .midNewLine => none
    | .end => some (lang.elim HTML.preNoLang.end fun _ => HTML.pre.end)
  | .textLink url =>
    match tag.place with
    | .start => some (HTML.textLink.start ++ writeAttribute url ++ HTML.textLink.middle)
    | .midNewLine => none
    | .end => some HTML.textLink.end
  | .textMention id =>
    match tag.place with
    | .start => some (HTML.textMention.start ++ (toString id).toList ++ HTML.textMention.middle)
    | .midNewLine => none
    | .end => some HTML.textMention.end
  | .customEmoji customEmojiId =>
    match tag.place with
    | .start => some (HTML.customEmoji.start ++ writeAttribute customEmojiId ++ HTML.customEmoji.middle)
    | .midNewLine => none
    | .end => some HTML.customEmoji.end
  | .dateTime unixTime dateTimeFormat =>
    match tag.place with
    | .start => some ("<tg-time unix=\"".toList ++ (toString unixTime).toList ++ ['"'] ++
        dateTimeFormat.elim [] (fun format => " format=\"".toList ++ writeAttribute format ++ ['"']) ++ ['>'])
    | .midNewLine => none
    | .end => some "</tg-time>".toList

def writer : TagWriter := { HTML with writeTag := writeTag, writeChar := writeChar }

end Html

/-- mirrors render.rs:186-190 -/
def Renderer.asHtml (r : Renderer) : Option Str := (r.format Html.writer).map (·.flatMap (·.text))

/-! ## The tags of an entity -/

section tags

variable {text : Str} {entities : List MessageEntity} {tag : Tag}

theorem mem_buildTags : tag ∈ buildTags text entities ↔
    ∃ entity, entities[tag.index]? = some entity ∧ tag ∈ tagsOf text entity tag.index := by
  have hindex {entity : MessageEntity} {index : Nat} (h : tag ∈ tagsOf text entity index) : tag.index = index := by
    unfold tagsOf at h
    split at h
    · cases h
    · simp only [List.mem_append, List.mem_cons, List.not_mem_nil, or_false] at h
      rcases h with (rfl | h) | rfl
      · rfl
      · split at h
        · obtain ⟨offset, -, rfl⟩ := List.mem_map.1 h
          rfl
        · cases h
      · rfl
  unfold buildTags
  simp only [List.mem_flatMap]
  constructor
  · rintro ⟨⟨entity, index⟩, hm, ht⟩
    have hi := hindex ht
    subst hi
    exact ⟨entity, List.mem_zipIdx_iff_getElem?.1 hm, ht⟩
  · rintro ⟨entity, hm, ht⟩
    exact ⟨(entity, tag.index), List.mem_zipIdx_iff_getElem?.2 hm, ht⟩

theorem mem_new_tags : tag ∈ (Renderer.new text entities).tags ↔ tag ∈ buildTags text entities :=
  (List.mergeSort_perm _ _).mem_iff

/-- The tags of an entity with markup, by place. -/
theorem mem_tagsOf {entity : MessageEntity} {index : Nat} : tag ∈ tagsOf text entity index ↔
    ∃ kind, kindOf entity.kind = some kind ∧ tag.kind = kind ∧ tag.index = index ∧
      match tag.place with
      | .start => tag.offset = entity.offset
      | .midNewLine => kind.isQuote = true ∧ tag.offset ∈ newLineOffsets text entity
      | .end => tag.offset = entity.offset + entity.length := by
  obtain ⟨place, kind, offset, i⟩ := tag
  unfold tagsOf
  cases hk : kindOf entity.kind with
  | none => simp
  | some k =>
    cases hq : k.isQuote <;> cases place <;> simp [hq] <;> aesop

/-- Only a quote has tags for its new lines. -/
theorem isQuote_of_new (h : tag ∈ (Renderer.new text entities).tags) (hp : tag.place = .midNewLine) :
    tag.kind.isQuote = true := by
  obtain ⟨entity, -, ht⟩ := mem_buildTags.1 (mem_new_tags.1 h)
  obtain ⟨kind, -, rfl, -, hplace⟩ := mem_tagsOf.1 ht
  rw [hp] at hplace
  exact hplace.1

end tags

end Teloxide.Utils.Render
