import Teloxide.Types.RichTextSerde

/-!
# Rich blocks in JSON (`crates/teloxide-core/src/types/rich_message.rs`)

A rich block is an object of one of the known types, or of another type and then kept as it is.
The types of media and of locations are parameters, with their codecs.

* `rich_round_trip`: what was encoded decodes as itself, and whatever decodes keeps the objects of
  unknown types where they are.
-/
namespace Teloxide.Types

open Teloxide.Core (Value)
open Teloxide.Core.Serde

/-- The types that a rich block carries. -/
structure Payloads where
  Animation : Type
  Audio : Type
  Document : Type
  Location : Type
  PhotoSize : Type
  Video : Type
  Voice : Type

structure Leaves (P : Payloads) extends TextLeaves where
  animation : Codec P.Animation
  audio : Codec P.Audio
  document : Codec P.Document
  location : Codec P.Location
  photoSize : Codec P.PhotoSize
  video : Codec P.Video
  voice : Codec P.Voice

variable {P : Payloads}

mutual

/-- mirrors rich_message.rs:513-518 -/
inductive RichBlock (P : Payloads) where
  | known (kind : RichBlockKind P)
  | unknown (value : Value)

/-- The structures of the variants are written out.
mirrors rich_message.rs:585-610, 612-775 -/
inductive RichBlockKind (P : Payloads) where
  | paragraph (text : RichText)
  | heading (text : RichText) (size : UInt8)
  | pre (text : RichText) (language : Option String)
  | footer (text : RichText)
  | divider
  | mathematicalExpression (expression : String)
  | anchor (name : String)
  | list (items : List (RichBlockListItem P))
  | blockquote (blocks : List (RichBlock P)) (credit : Option RichText)
  | expandableBlockquote (text : RichText) (credit : Option RichText)
  | pullquote (text : RichText) (credit : Option RichText)
  | collage (blocks : List (RichBlock P)) (caption : Option RichBlockCaption)
  | slideshow (blocks : List (RichBlock P)) (caption : Option RichBlockCaption)
  | table (cells : List (List RichBlockTableCell)) (isBordered isStriped isCompact : Option Bool)
      (caption : Option RichText)
  | buttons (buttons : List RichMessageButton) (align : Option String)
  | document (document : P.Document) (caption : Option RichBlockCaption)
  | details (summary : RichText) (blocks : List (RichBlock P)) (isOpen : Option Bool)
  | map (location : P.Location) (zoom : UInt8) (width height : UInt32) (caption : Option RichBlockCaption)
  | animation (animation : P.Animation) (hasSpoiler : Option Bool) (caption : Option RichBlockCaption)
  | audio (audio : P.Audio) (caption : Option RichBlockCaption)
  | photo (photo : List P.PhotoSize) (hasSpoiler : Option Bool) (caption : Option RichBlockCaption)
  | video (video : P.Video) (hasSpoiler : Option Bool) (caption : Option RichBlockCaption)
  | voiceNote (voiceNote : P.Voice) (caption : Option RichBlockCaption)
  | thinking (text : RichText)

/-- mirrors rich_message.rs:497-505 -/
structure RichBlockListItem (P : Payloads) where
  label : String
  blocks : List (RichBlock P)
  hasCheckbox : Option Bool
  isChecked : Option Bool
  value : Option Int64
  typeField : Option String

end

/-! ## Encoding -/

section serialize

/-- mirrors rich_message.rs:477-482 -/
def RichBlockCaption.serialize (l : TextLeaves) (caption : RichBlockCaption) : Value :=
  .object [("text", caption.text.serialize l), ("credit", encodeOption (RichText.serialize l) caption.credit)]

/-- mirrors rich_message.rs:484-493 -/
def RichBlockTableCell.serialize (l : TextLeaves) (cell : RichBlockTableCell) : Value :=
  .object [("text", encodeOption (RichText.serialize l) cell.text), ("is_header", encodeOption bool.encode cell.isHeader),
    ("colspan", encodeOption uint32.encode cell.colspan), ("rowspan", encodeOption uint32.encode cell.rowspan),
    ("align", string.encode cell.align), ("valign", string.encode cell.valign)]

/-- `#[serde(tag = "type")]` -/
def tagged (typeName : String) (fields : List (String × Value)) : Value := .object (("type", .string typeName) :: fields)

variable (l : Leaves P)

def encodeCaption (caption : Option RichBlockCaption) : Value :=
  encodeOption (RichBlockCaption.serialize l.toTextLeaves) caption

def encodeText (text : Option RichText) : Value := encodeOption (RichText.serialize l.toTextLeaves) text

mutual

/-- mirrors rich_message.rs:520-530 -/
def RichBlock.serialize : RichBlock P → Value
  | .known kind => kind.serialize
  | .unknown value => value

def serializeBlocks : List (RichBlock P) → List Value
  | [] => []
  | block :: blocks => block.serialize :: serializeBlocks blocks

/-- mirrors rich_message.rs:581-610 -/
def RichBlockKind.serialize : RichBlockKind P → Value
  | .paragraph text => tagged "paragraph" [("text", text.serialize l.toTextLeaves)]
  | .heading text size => tagged "heading" [("text", text.serialize l.toTextLeaves), ("size", uint8.encode size)]
  | .pre text language => tagged "pre"
      [("text", text.serialize l.toTextLeaves), ("language", encodeOption string.encode language)]
  | .footer text => tagged "footer" [("text", text.serialize l.toTextLeaves)]
  | .divider => tagged "divider" []
  | .mathematicalExpression expression => tagged "mathematical_expression" [("expression", string.encode expression)]
  | .anchor name => tagged "anchor" [("name", string.encode name)]
  | .list items => tagged "list" [("items", .array (serializeListItems items))]
  | .blockquote blocks credit => tagged "blockquote"
      [("blocks", .array (serializeBlocks blocks)), ("credit", encodeText l credit)]
  | .expandableBlockquote text credit => tagged "expandable_blockquote"
      [("text", text.serialize l.toTextLeaves), ("credit", encodeText l credit)]
  | .pullquote text credit => tagged "pullquote"
      [("text", text.serialize l.toTextLeaves), ("credit", encodeText l credit)]
  | .collage blocks caption => tagged "collage"
      [("blocks", .array (serializeBlocks blocks)), ("caption", encodeCaption l caption)]
  | .slideshow blocks caption => tagged "slideshow"
      [("blocks", .array (serializeBlocks blocks)), ("caption", encodeCaption l caption)]
  | .table cells isBordered isStriped isCompact caption => tagged "table"
      [("cells", .array (cells.map fun row => .array (row.map (RichBlockTableCell.serialize l.toTextLeaves)))),
        ("is_bordered", encodeOption bool.encode isBordered), ("is_striped", encodeOption bool.encode isStriped),
        ("is_compact", encodeOption bool.encode isCompact), ("caption", encodeText l caption)]
  | .buttons buttons align => tagged "buttons"
      [("buttons", .array (buttons.map (RichMessageButton.serialize l.toTextLeaves))),
        ("align", encodeOption string.encode align)]
  | .document document caption => tagged "document"
      [("document", l.document.encode document), ("caption", encodeCaption l caption)]
  | .details summary blocks isOpen => tagged "details"
      [("summary", summary.serialize l.toTextLeaves), ("blocks", .array (serializeBlocks blocks)),
        ("is_open", encodeOption bool.encode isOpen)]
  | .map location zoom width height caption => tagged "map"
      [("location", l.location.encode location), ("zoom", uint8.encode zoom), ("width", uint32.encode width),
        ("height", uint32.encode height), ("caption", encodeCaption l caption)]
  | .animation animation hasSpoiler caption => tagged "animation"
      [("animation", l.animation.encode animation), ("has_spoiler", encodeOption bool.encode hasSpoiler),
        ("caption", encodeCaption l caption)]
  | .audio audio caption => tagged "audio" [("audio", l.audio.encode audio), ("caption", encodeCaption l caption)]
  | .photo photo hasSpoiler caption => tagged "photo"
      [("photo", .array (photo.map l.photoSize.encode)), ("has_spoiler", encodeOption bool.encode hasSpoiler),
        ("caption", encodeCaption l caption)]
  | .video video hasSpoiler caption => tagged "video"
      [("video", l.video.encode video), ("has_spoiler", encodeOption bool.encode hasSpoiler),
        ("caption", encodeCaption l caption)]
  | .voiceNote voiceNote caption => tagged "voice_note"
      [("voice_note", l.voice.encode voiceNote), ("caption", encodeCaption l caption)]
  | .thinking text => tagged "thinking" [("text", text.serialize l.toTextLeaves)]

/-- mirrors rich_message.rs:495-505 -/
def RichBlockListItem.serialize : RichBlockListItem P → Value
  | ⟨label, blocks, hasCheckbox, isChecked, value, typeField⟩ =>
    .object [("label", string.encode label), ("blocks", .array (serializeBlocks blocks)),
      ("has_checkbox", encodeOption bool.encode hasCheckbox), ("is_checked", encodeOption bool.encode isChecked),
      ("value", encodeOption int64.encode value), ("type", encodeOption string.encode typeField)]

def serializeListItems : List (RichBlockListItem P) → List Value
  | [] => []
  | item :: items => item.serialize :: serializeListItems items

end

end serialize

/-! ## Decoding -/

/-- mirrors rich_message.rs:543-567 -/
def isKnownRichBlockType (typeName : String) : Bool :=
  ["paragraph", "heading", "pre", "footer", "divider", "mathematical_expression", "anchor", "list", "blockquote",
    "expandable_blockquote", "pullquote", "collage", "slideshow", "table", "buttons", "document", "details", "map",
    "animation", "audio", "photo", "video", "voice_note", "thinking"].contains typeName

section deserialize

variable (l : Leaves P) (text : Value → Option RichText) (block : Value → Option (RichBlock P))

def RichBlockCaption.ofFields (members : List (String × Value)) : Option RichBlockCaption := do
  let caption ← requiredField text members "text"
  let credit ← optionalField text members "credit"
  pure ⟨caption, credit⟩

/-- mirrors rich_message.rs:477-482 -/
def RichBlockCaption.deserialize (value : Value) : Option RichBlockCaption :=
  (fieldsOf ["text", "credit"] value).bind (ofFields text)

def RichBlockTableCell.ofFields (members : List (String × Value)) : Option RichBlockTableCell := do
  let cell ← optionalField text members "text"
  let isHeader ← optionalField bool.decode members "is_header"
  let colspan ← optionalField uint32.decode members "colspan"
  let rowspan ← optionalField uint32.decode members "rowspan"
  let align ← requiredField string.decode members "align"
  let valign ← requiredField string.decode members "valign"
  pure ⟨cell, isHeader, colspan, rowspan, align, valign⟩

/-- mirrors rich_message.rs:484-493 -/
def RichBlockTableCell.deserialize (value : Value) : Option RichBlockTableCell :=
  (fieldsOf ["text", "is_header", "colspan", "rowspan", "align", "valign"] value).bind (ofFields text)

def RichBlockListItem.ofFields (members : List (String × Value)) : Option (RichBlockListItem P) := do
  let label ← requiredField string.decode members "label"
  let blocks ← requiredField (decodeList block) members "blocks"
  let hasCheckbox ← optionalField bool.decode members "has_checkbox"
  let isChecked ← optionalField bool.decode members "is_checked"
  let value ← optionalField int64.decode members "value"
  let typeField ← optionalField string.decode members "type"
  pure ⟨label, blocks, hasCheckbox, isChecked, value, typeField⟩

/-- mirrors rich_message.rs:495-505 -/
def RichBlockListItem.deserialize (value : Value) : Option (RichBlockListItem P) :=
  (fieldsOf ["label", "blocks", "has_checkbox", "is_checked", "value", "type"] value).bind (ofFields block)

def captionField (members : List (String × Value)) : Option (Option RichBlockCaption) :=
  optionalField (RichBlockCaption.deserialize text) members "caption"

/-- The variants by their tags, and what the structures derive.
mirrors rich_message.rs:581-775 -/
def RichBlockKind.deserialize (typeName : String) (members : List (String × Value)) : Option (RichBlockKind P) :=
  match typeName with
  | "paragraph" => (requiredField text members "text").map .paragraph
  | "heading" => do
    let heading ← requiredField text members "text"
    let size ← requiredField uint8.decode members "size"
    pure (.heading heading size)
  | "pre" => do
    let pre ← requiredField text members "text"
    let language ← optionalField string.decode members "language"
    pure (.pre pre language)
  | "footer" => (requiredField text members "text").map .footer
  | "divider" => some .divider
  | "mathematical_expression" => (requiredField string.decode members "expression").map .mathematicalExpression
  | "anchor" => (requiredField string.decode members "name").map .anchor
  | "list" => (requiredField (decodeList (RichBlockListItem.deserialize block)) members "items").map .list
  | "blockquote" => do
    let blocks ← requiredField (decodeList block) members "blocks"
    let credit ← optionalField text members "credit"
    pure (.blockquote blocks credit)
  | "expandable_blockquote" => do
    let quote ← requiredField text members "text"
    let credit ← optionalField text members "credit"
    pure (.expandableBlockquote quote credit)
  | "pullquote" => do
    let quote ← requiredField text members "text"
    let credit ← optionalField text members "credit"
    pure (.pullquote quote credit)
  | "collage" => do
    let blocks ← requiredField (decodeList block) members "blocks"
    let caption ← captionField text members
    pure (.collage blocks caption)
  | "slideshow" => do
    let blocks ← requiredField (decodeList block) members "blocks"
    let caption ← captionField text members
    pure (.slideshow blocks caption)
  | "table" => do
    let cells ← requiredField (decodeList (decodeList (RichBlockTableCell.deserialize text))) members "cells"
    let isBordered ← optionalField bool.decode members "is_bordered"
    let isStriped ← optionalField bool.decode members "is_striped"
    let isCompact ← optionalField bool.decode members "is_compact"
    let caption ← optionalField text members "caption"
    pure (.table cells isBordered isStriped isCompact caption)
  | "buttons" => do
    let buttons ← requiredField (decodeList (RichMessageButton.deserialize l.toTextLeaves text)) members "buttons"
    let align ← optionalField string.decode members "align"
    pure (.buttons buttons align)
  | "document" => do
    let document ← requiredField l.document.decode members "document"
    let caption ← captionField text members
    pure (.document document caption)
  | "details" => do
    let summary ← requiredField text members "summary"
    let blocks ← requiredField (decodeList block) members "blocks"
    let isOpen ← optionalField bool.decode members "is_open"
    pure (.details summary blocks isOpen)
  | "map" => do
    let location ← requiredField l.location.decode members "location"
    let zoom ← requiredField uint8.decode members "zoom"
    let width ← requiredField uint32.decode members "width"
    let height ← requiredField uint32.decode members "height"
    let caption ← captionField text members
    pure (.map location zoom width height caption)
  | "animation" => do
    let animation ← requiredField l.animation.decode members "animation"
    let hasSpoiler ← optionalField bool.decode members "has_spoiler"
    let caption ← captionField text members
    pure (.animation animation hasSpoiler caption)
  | "audio" => do
    let audio ← requiredField l.audio.decode members "audio"
    let caption ← captionField text members
    pure (.audio audio caption)
  | "photo" => do
    let photo ← requiredField (decodeList l.photoSize.decode) members "photo"
    let hasSpoiler ← optionalField bool.decode members "has_spoiler"
    let caption ← captionField text members
    pure (.photo photo hasSpoiler caption)
  | "video" => do
    let video ← requiredField l.video.decode members "video"
    let hasSpoiler ← optionalField bool.decode members "has_spoiler"
    let caption ← captionField text members
    pure (.video video hasSpoiler caption)
  | "voice_note" => do
    let voiceNote ← requiredField l.voice.decode members "voice_note"
    let caption ← captionField text members
    pure (.voiceNote voiceNote caption)
  | "thinking" => (requiredField text members "text").map .thinking
  | _ => none

end deserialize

/-- mirrors rich_message.rs:532-573 -/
def RichBlock.deserialize (l : Leaves P) : Nat → Value → Option (RichBlock P)
  | n + 1, .object members => (typeName members).bind fun name =>
    if isKnownRichBlockType name then
      (RichBlockKind.deserialize l (RichText.deserialize l.toTextLeaves n) (deserialize l n) name members).map .known
    else some (.unknown (.object members))
  | _, _ => none

/-! ## The format -/

def RichBlockCaption.format : Format RichNode := .record [("text", .node .text), ("credit", .optional (.node .text))]

def RichBlockTableCell.format : Format RichNode :=
  .record [("text", .optional (.node .text)), ("is_header", .leaf), ("colspan", .leaf), ("rowspan", .leaf),
    ("align", .leaf), ("valign", .leaf)]

def RichBlockListItem.format : Format RichNode :=
  .record [("label", .leaf), ("blocks", .list (.node .block)), ("has_checkbox", .leaf), ("is_checked", .leaf),
    ("value", .leaf), ("type", .leaf)]

/-- The fields of a known type besides its name. -/
def richBlockFields (typeName : String) : Option (List (String × Format RichNode)) :=
  match typeName with
  | "paragraph" | "footer" | "thinking" => some [("text", .node .text)]
  | "heading" => some [("text", .node .text), ("size", .leaf)]
  | "pre" => some [("text", .node .text), ("language", .leaf)]
  | "divider" => some []
  | "mathematical_expression" => some [("expression", .leaf)]
  | "anchor" => some [("name", .leaf)]
  | "list" => some [("items", .list RichBlockListItem.format)]
  | "blockquote" => some [("blocks", .list (.node .block)), ("credit", .optional (.node .text))]
  | "expandable_blockquote" | "pullquote" => some [("text", .node .text), ("credit", .optional (.node .text))]
  | "collage" | "slideshow" => some [("blocks", .list (.node .block)), ("caption", .optional RichBlockCaption.format)]
  | "table" => some [("cells", .list (.list RichBlockTableCell.format)), ("is_bordered", .leaf), ("is_striped", .leaf),
      ("is_compact", .leaf), ("caption", .optional (.node .text))]
  | "buttons" => some [("buttons", .list RichMessageButton.format), ("align", .leaf)]
  | "document" => some [("document", .leaf), ("caption", .optional RichBlockCaption.format)]
  | "details" => some [("summary", .node .text), ("blocks", .list (.node .block)), ("is_open", .leaf)]
  | "map" => some [("location", .leaf), ("zoom", .leaf), ("width", .leaf), ("height", .leaf),
      ("caption", .optional RichBlockCaption.format)]
  | "animation" => some [("animation", .leaf), ("has_spoiler", .leaf), ("caption", .optional RichBlockCaption.format)]
  | "audio" => some [("audio", .leaf), ("caption", .optional RichBlockCaption.format)]
  | "photo" => some [("photo", .leaf), ("has_spoiler", .leaf), ("caption", .optional RichBlockCaption.format)]
  | "video" => some [("video", .leaf), ("has_spoiler", .leaf), ("caption", .optional RichBlockCaption.format)]
  | "voice_note" => some [("voice_note", .leaf), ("caption", .optional RichBlockCaption.format)]
  | _ => none

/-- A text may be an array of texts. -/
def richGrammar : Grammar RichNode where
  fields
    | .text => richTextFields
    | .block => richBlockFields
  lists
    | .text => true
    | .block => false

theorem isKnownRichBlockType_iff (typeName : String) :
    isKnownRichBlockType typeName = true ↔ (richBlockFields typeName).isSome = true := by
  unfold isKnownRichBlockType richBlockFields
  rw [List.contains_iff_mem]
  constructor
  · intro h
    simp only [List.mem_cons, List.not_mem_nil, or_false] at h
    rcases h with h | h | h | h | h | h | h | h | h | h | h | h | h | h | h | h | h | h | h | h | h | h | h | h <;>
      rw [h] <;> rfl
  · intro h
    split at h <;> first | (simp only [List.mem_cons, true_or, or_true]; done) | cases h

/-! ## What lies in a block -/

/-- The texts of a block itself, the labels of its buttons included. -/
def RichBlockKind.texts : RichBlockKind P → List RichText
  | .paragraph text | .heading text _ | .pre text _ | .footer text | .thinking text | .details text _ _ => [text]
  | .blockquote _ credit => credit.toList
  | .expandableBlockquote text credit | .pullquote text credit => text :: credit.toList
  | .table cells _ _ _ caption => cells.flatten.filterMap (·.text) ++ caption.toList
  | .collage _ caption | .slideshow _ caption | .document _ caption | .map _ _ _ _ caption | .animation _ _ caption
  | .audio _ caption | .photo _ _ caption | .video _ _ caption | .voiceNote _ caption =>
    caption.toList.flatMap (·.texts)
  | .buttons row _ => row.map (·.text)
  | .divider | .mathematicalExpression _ | .anchor _ | .list _ => []

/-- The blocks in a block. -/
def RichBlockKind.blocks : RichBlockKind P → List (RichBlock P)
  | .list items => items.flatMap (·.blocks)
  | .blockquote blocks _ | .collage blocks _ | .slideshow blocks _ | .details _ blocks _ => blocks
  | _ => []

/-- An object with a type that is not in the list. -/
def UnknownRichBlock (value : Value) : Prop :=
  ∃ members name, value = .object members ∧ typeName members = some name ∧ isKnownRichBlockType name = false

/-- Every object that is kept is one of an unknown type. -/
inductive RichBlock.Sound : RichBlock P → Prop where
  | known {kind} : (∀ t ∈ kind.texts, t.Sound) → (∀ b ∈ kind.blocks, Sound b) → Sound (.known kind)
  | unknown {value} : UnknownRichBlock value → Sound (.unknown value)

/-! ## Decoding what was encoded -/

section roundTrip

variable {l : Leaves P} {text : Value → Option RichText} {block : Value → Option (RichBlock P)}

theorem serializeBlocks_eq (blocks : List (RichBlock P)) : serializeBlocks l blocks = blocks.map (·.serialize l) := by
  induction blocks with
  | nil => rfl
  | cons block blocks ih => rw [serializeBlocks, ih, List.map_cons]

theorem serializeListItems_eq (items : List (RichBlockListItem P)) :
    serializeListItems l items = items.map (·.serialize l) := by
  induction items with
  | nil => rfl
  | cons item items ih => rw [serializeListItems, ih, List.map_cons]

theorem depth_texts_kind {kind : RichBlockKind P} {t : RichText} (h : t ∈ kind.texts) :
    depth (t.serialize l.toTextLeaves) < depth (kind.serialize l) := by
  have hcaption {caption : Option RichBlockCaption} (h : t ∈ caption.toList.flatMap (·.texts)) :
      depth (t.serialize l.toTextLeaves) < depth (encodeCaption l caption) := by
    cases caption with
    | none => cases h
    | some caption =>
      simp only [Option.toList_some, List.flatMap_cons, List.flatMap_nil, List.append_nil, RichBlockCaption.texts,
        List.mem_cons, Option.mem_toList] at h
      rcases h with rfl | h
      · exact @depth_of_lookup _ "text" _ rfl
      · exact @depth_of_lookup _ "credit" _ (by rw [h]; rfl)
  have htext {members : List (String × Value)} {key : String} (hl : members.lookup key = some (t.serialize l.toTextLeaves)) :
      depth (t.serialize l.toTextLeaves) < depth (.object members) := depth_of_lookup hl
  have hcredit {members : List (String × Value)} {key : String} {credit : Option RichText}
      (hl : members.lookup key = some (encodeText l credit)) (h : credit = some t) :
      depth (t.serialize l.toTextLeaves) < depth (.object members) := by
    rw [h] at hl
    exact depth_of_lookup hl
  cases kind with
  | paragraph | footer | thinking | heading | pre =>
    obtain rfl := List.mem_singleton.1 h
    rw [RichBlockKind.serialize]
    exact @htext _ "text" rfl
  | details =>
    obtain rfl := List.mem_singleton.1 h
    rw [RichBlockKind.serialize]
    exact @htext _ "summary" rfl
  | blockquote =>
    rw [RichBlockKind.serialize]
    exact @hcredit _ "credit" _ rfl (Option.mem_toList.1 h)
  | expandableBlockquote | pullquote =>
    rw [RichBlockKind.serialize]
    rcases List.mem_cons.1 h with rfl | h
    · exact @htext _ "text" rfl
    · exact @hcredit _ "credit" _ rfl (Option.mem_toList.1 h)
  | table cells =>
    rw [RichBlockKind.serialize]
    rcases List.mem_append.1 h with h | h
    · obtain ⟨cell, hcell, ht⟩ := List.mem_filterMap.1 h
      obtain ⟨row, hrow, hcell⟩ := List.mem_flatten.1 hcell
      have h₁ : depth (t.serialize l.toTextLeaves) < depth (cell.serialize l.toTextLeaves) :=
        @depth_of_lookup _ "text" _ (by rw [ht]; rfl)
      have h₂ := depth_of_mem (List.mem_map_of_mem (f := RichBlockTableCell.serialize l.toTextLeaves) hcell)
      have h₃ := depth_of_mem
        (List.mem_map_of_mem (f := fun row => .array (row.map (RichBlockTableCell.serialize l.toTextLeaves))) hrow)
      exact Nat.lt_trans h₁ (Nat.lt_trans h₂ (Nat.lt_trans h₃ (@depth_of_lookup _ "cells" _ rfl)))
    · exact @hcredit _ "caption" _ rfl (Option.mem_toList.1 h)
  | buttons buttons =>
    rw [RichBlockKind.serialize]
    obtain ⟨button, hbutton, rfl⟩ := List.mem_map.1 h
    obtain ⟨members, hb, hl⟩ := lookup_text_button (l := l.toTextLeaves) button
    have h₁ := depth_of_lookup hl
    rw [← hb] at h₁
    have h₂ := depth_of_mem (List.mem_map_of_mem (f := RichMessageButton.serialize l.toTextLeaves) hbutton)
    exact Nat.lt_trans h₁ (Nat.lt_trans h₂ (@depth_of_lookup _ "buttons" _ rfl))
  | divider | mathematicalExpression | anchor | list => cases h
  | _ =>
    rw [RichBlockKind.serialize]
    exact Nat.lt_trans (hcaption h) (@depth_of_lookup _ "caption" _ rfl)

theorem depth_blocks_kind {kind : RichBlockKind P} {b : RichBlock P} (h : b ∈ kind.blocks) :
    depth (b.serialize l) < depth (kind.serialize l) := by
  have hblocks {blocks : List (RichBlock P)} {members : List (String × Value)}
      (hl : members.lookup "blocks" = some (.array (serializeBlocks l blocks))) (h : b ∈ blocks) :
      depth (b.serialize l) < depth (.object members) := by
    rw [serializeBlocks_eq] at hl
    exact Nat.lt_trans (depth_of_mem (List.mem_map_of_mem (f := (·.serialize l)) h)) (depth_of_lookup hl)
  cases kind with
  | blockquote | collage | slideshow | details =>
    rw [RichBlockKind.serialize]
    exact hblocks rfl h
  | list items =>
    obtain ⟨item, hitem, hb⟩ := List.mem_flatMap.1 h
    rw [RichBlockKind.serialize, serializeListItems_eq]
    have h₁ : depth (b.serialize l) < depth (item.serialize l) := by
      obtain ⟨label, blocks, hasCheckbox, isChecked, value, typeField⟩ := item
      rw [RichBlockListItem.serialize]
      exact hblocks rfl hb
    have h₂ := depth_of_mem (List.mem_map_of_mem (f := (·.serialize l)) hitem)
    exact Nat.lt_trans h₁ (Nat.lt_trans h₂ (@depth_of_lookup _ "items" _ rfl))
  | _ => cases h

theorem decodeOption_text (hnull : text .null = none) {o : Option RichText}
    (h : ∀ t ∈ o.toList, text (t.serialize l.toTextLeaves) = some t) : decodeOption text (encodeText l o) = some o :=
  decodeOption_encode fun t ht => by
    have hd := h t (Option.mem_toList.2 ht)
    refine ⟨hd, fun he => ?_⟩
    rw [he, hnull] at hd
    cases hd

theorem RichBlockCaption.deserialize_serialize (hnull : text .null = none) {caption : RichBlockCaption}
    (h : ∀ t ∈ caption.texts, text (t.serialize l.toTextLeaves) = some t) :
    RichBlockCaption.deserialize text (caption.serialize l.toTextLeaves) = some caption := by
  obtain ⟨t, credit⟩ := caption
  have ht := h t List.mem_cons_self
  have hcredit := decodeOption_text (l := l) hnull fun t ht => h t (List.mem_cons_of_mem _ ht)
  unfold encodeText at hcredit
  simp only [serialize, deserialize, fieldsOf, Option.bind_some, ofFields, requiredField, optionalField, List.lookup_cons]
  simp [ht, hcredit]

theorem captionField_serialize (hnull : text .null = none) {caption : Option RichBlockCaption}
    (h : ∀ t ∈ caption.toList.flatMap (·.texts), text (t.serialize l.toTextLeaves) = some t) :
    decodeOption (RichBlockCaption.deserialize text) (encodeCaption l caption) = some caption :=
  decodeOption_encode fun c hc => by
    refine ⟨RichBlockCaption.deserialize_serialize hnull fun t ht => h t ?_, fun he => by cases he⟩
    exact List.mem_flatMap.2 ⟨c, Option.mem_toList.2 hc, ht⟩

theorem RichBlockTableCell.deserialize_serialize (hnull : text .null = none) {cell : RichBlockTableCell}
    (h : ∀ t ∈ cell.text.toList, text (t.serialize l.toTextLeaves) = some t) :
    RichBlockTableCell.deserialize text (cell.serialize l.toTextLeaves) = some cell := by
  obtain ⟨t, isHeader, colspan, rowspan, align, valign⟩ := cell
  have ht := decodeOption_text (l := l) hnull h
  unfold encodeText at ht
  simp only [serialize, deserialize, fieldsOf, Option.bind_some, ofFields, requiredField, optionalField, List.lookup_cons]
  simp [ht, Codec.option, string.decode_encode]

theorem RichBlockListItem.deserialize_serialize {item : RichBlockListItem P}
    (h : ∀ b ∈ item.blocks, block (b.serialize l) = some b) :
    RichBlockListItem.deserialize block (item.serialize l) = some item := by
  obtain ⟨label, blocks, hasCheckbox, isChecked, value, typeField⟩ := item
  have hblocks : decodeList block (.array (serializeBlocks l blocks)) = some blocks := by
    rw [serializeBlocks_eq]
    exact decodeAll_map h
  rw [serialize, deserialize, fieldsOf, Option.bind_some, ofFields]
  simp only [requiredField, optionalField, List.lookup_cons]
  simp [hblocks, Codec.option, string.decode_encode]

/-- A known block is decoded from what it is encoded to. -/
theorem RichBlockKind.deserialize_serialize (hnull : text .null = none) {kind : RichBlockKind P}
    (ht : ∀ t ∈ kind.texts, text (t.serialize l.toTextLeaves) = some t)
    (hb : ∀ b ∈ kind.blocks, block (b.serialize l) = some b) :
    ∃ name members, kind.serialize l = .object members ∧ typeName members = some name ∧
      isKnownRichBlockType name = true ∧ RichBlockKind.deserialize l text block name members = some kind := by
  cases kind with
  | paragraph t | footer t | thinking t =>
    have ht := ht t (List.mem_singleton.2 rfl)
    refine ⟨_, _, by rw [serialize]; rfl, rfl, rfl, ?_⟩
    simp [deserialize, requiredField, List.lookup_cons, ht]
  | heading t size =>
    have ht := ht t (List.mem_singleton.2 rfl)
    refine ⟨_, _, by rw [serialize]; rfl, rfl, rfl, ?_⟩
    simp [deserialize, requiredField, List.lookup_cons, ht, uint8.decode_encode]
  | pre t language =>
    have ht := ht t (List.mem_singleton.2 rfl)
    refine ⟨_, _, by rw [serialize]; rfl, rfl, rfl, ?_⟩
    simp [deserialize, requiredField, optionalField, List.lookup_cons, ht, Codec.option]
  | divider => exact ⟨_, _, by rw [serialize]; rfl, rfl, rfl, rfl⟩
  | mathematicalExpression | anchor => exact ⟨_, _, by rw [serialize]; rfl, rfl, rfl, rfl⟩
  | list items =>
    have hitems : decodeList (RichBlockListItem.deserialize block) (.array (serializeListItems l items)) = some items := by
      rw [serializeListItems_eq]
      exact decodeAll_map fun item hi => RichBlockListItem.deserialize_serialize fun b hm =>
        hb b (List.mem_flatMap.2 ⟨item, hi, hm⟩)
    refine ⟨_, _, by rw [serialize]; rfl, rfl, rfl, ?_⟩
    simp [deserialize, requiredField, List.lookup_cons, hitems]
  | blockquote blocks credit =>
    have hblocks : decodeList block (.array (serializeBlocks l blocks)) = some blocks := by
      rw [serializeBlocks_eq]
      exact decodeAll_map hb
    have hcredit := decodeOption_text hnull ht
    refine ⟨_, _, by rw [serialize]; rfl, rfl, rfl, ?_⟩
    simp [deserialize, requiredField, optionalField, List.lookup_cons, hblocks, hcredit]
  | expandableBlockquote t credit | pullquote t credit =>
    have hcredit := decodeOption_text (l := l) hnull fun t h => ht t (List.mem_cons_of_mem _ h)
    have ht := ht t List.mem_cons_self
    refine ⟨_, _, by rw [serialize]; rfl, rfl, rfl, ?_⟩
    simp [deserialize, requiredField, optionalField, List.lookup_cons, ht, hcredit]
  | collage blocks caption | slideshow blocks caption =>
    have hblocks : decodeList block (.array (serializeBlocks l blocks)) = some blocks := by
      rw [serializeBlocks_eq]
      exact decodeAll_map hb
    have hcaption := captionField_serialize hnull ht
    refine ⟨_, _, by rw [serialize]; rfl, rfl, rfl, ?_⟩
    simp [deserialize, requiredField, captionField, optionalField, List.lookup_cons, hblocks, hcaption]
  | table cells isBordered isStriped isCompact caption =>
    have hcells : decodeList (decodeList (RichBlockTableCell.deserialize text))
        (.array (cells.map fun row => .array (row.map (RichBlockTableCell.serialize l.toTextLeaves)))) = some cells :=
      decodeAll_map fun row hrow => decodeAll_map fun cell hcell =>
        RichBlockTableCell.deserialize_serialize hnull fun t hm =>
          ht t (List.mem_append_left _ (List.mem_filterMap.2
            ⟨cell, List.mem_flatten.2 ⟨row, hrow, hcell⟩, Option.mem_toList.1 hm⟩))
    have hcaption := decodeOption_text (l := l) hnull fun t h => ht t (List.mem_append_right _ h)
    refine ⟨_, _, by rw [serialize]; rfl, rfl, rfl, ?_⟩
    simp [deserialize, requiredField, optionalField, List.lookup_cons, hcells, hcaption, Codec.option]
  | buttons buttons align =>
    have hbuttons : decodeList (RichMessageButton.deserialize l.toTextLeaves text)
        (.array (buttons.map (RichMessageButton.serialize l.toTextLeaves))) = some buttons :=
      decodeAll_map fun button hm => RichMessageButton.deserialize_serialize (ht _ (List.mem_map_of_mem hm))
    refine ⟨_, _, by rw [serialize]; rfl, rfl, rfl, ?_⟩
    simp [deserialize, requiredField, optionalField, List.lookup_cons, hbuttons, Codec.option]
  | document document caption =>
    have hcaption := captionField_serialize hnull ht
    refine ⟨_, _, by rw [serialize]; rfl, rfl, rfl, ?_⟩
    simp [deserialize, requiredField, captionField, optionalField, List.lookup_cons, hcaption, l.document.decode_encode]
  | details t blocks isOpen =>
    have hblocks : decodeList block (.array (serializeBlocks l blocks)) = some blocks := by
      rw [serializeBlocks_eq]
      exact decodeAll_map hb
    have ht := ht t (List.mem_singleton.2 rfl)
    refine ⟨_, _, by rw [serialize]; rfl, rfl, rfl, ?_⟩
    simp [deserialize, requiredField, optionalField, List.lookup_cons, ht, hblocks, Codec.option]
  | map location zoom width height caption =>
    have hcaption := captionField_serialize hnull ht
    have hfields {members : List (String × Value)} (hl : members.lookup "location" = some (l.location.encode location))
        (hz : members.lookup "zoom" = some (uint8.encode zoom)) (hw : members.lookup "width" = some (uint32.encode width))
        (hh : members.lookup "height" = some (uint32.encode height))
        (hc : members.lookup "caption" = some (encodeCaption l caption)) :
        RichBlockKind.deserialize l text block "map" members = some (.map location zoom width height caption) := by
      have hzoom := requiredField_encode uint8 hz
      have hwidth := requiredField_encode uint32 hw
      have hheight := requiredField_encode uint32 hh
      simp [deserialize, hzoom, hwidth, hheight, requiredField_encode l.location hl, captionField, optionalField, hc, hcaption]
    exact ⟨_, _, by rw [serialize]; rfl, rfl, rfl, hfields rfl rfl rfl rfl rfl⟩
  | animation animation hasSpoiler caption =>
    have hcaption := captionField_serialize hnull ht
    refine ⟨_, _, by rw [serialize]; rfl, rfl, rfl, ?_⟩
    simp [deserialize, requiredField, captionField, optionalField, List.lookup_cons, hcaption, l.animation.decode_encode,
      Codec.option]
  | audio audio caption =>
    have hcaption := captionField_serialize hnull ht
    refine ⟨_, _, by rw [serialize]; rfl, rfl, rfl, ?_⟩
    simp [deserialize, requiredField, captionField, optionalField, List.lookup_cons, hcaption, l.audio.decode_encode]
  | photo photo hasSpoiler caption =>
    have hcaption := captionField_serialize hnull ht
    have hphoto : decodeList l.photoSize.decode (.array (photo.map l.photoSize.encode)) = some photo :=
      decodeAll_map fun p _ => l.photoSize.decode_encode p
    refine ⟨_, _, by rw [serialize]; rfl, rfl, rfl, ?_⟩
    simp [deserialize, requiredField, captionField, optionalField, List.lookup_cons, hcaption, hphoto, Codec.option]
  | video video hasSpoiler caption =>
    have hcaption := captionField_serialize hnull ht
    refine ⟨_, _, by rw [serialize]; rfl, rfl, rfl, ?_⟩
    simp [deserialize, requiredField, captionField, optionalField, List.lookup_cons, hcaption, l.video.decode_encode,
      Codec.option]
  | voiceNote voiceNote caption =>
    have hcaption := captionField_serialize hnull ht
    refine ⟨_, _, by rw [serialize]; rfl, rfl, rfl, ?_⟩
    simp [deserialize, requiredField, captionField, optionalField, List.lookup_cons, hcaption, l.voice.decode_encode]

/-- Fuel for the depth decodes what was encoded. -/
theorem RichBlock.deserialize_serialize : ∀ {n : Nat} {b : RichBlock P}, b.Sound → depth (b.serialize l) < n →
    RichBlock.deserialize l n (b.serialize l) = some b
  | 0, _, _, hn => absurd hn (Nat.not_lt_zero _)
  | n + 1, .known kind, .known ht hb, hn => by
    rw [serialize] at hn ⊢
    have htexts : ∀ t ∈ kind.texts, RichText.deserialize l.toTextLeaves n (t.serialize l.toTextLeaves) = some t :=
      fun t h => by
        have hdepth := depth_texts_kind (l := l) h
        exact RichText.deserialize_serialize (ht t h) (by omega)
    have hblocks : ∀ b ∈ kind.blocks, RichBlock.deserialize l n (b.serialize l) = some b := fun b h => by
      have hdepth := depth_blocks_kind (l := l) h
      exact deserialize_serialize (hb b h) (by omega)
    have hnull : RichText.deserialize l.toTextLeaves n .null = none := by cases n <;> rfl
    obtain ⟨name, members, hser, htype, hknown, hdec⟩ := RichBlockKind.deserialize_serialize hnull htexts hblocks
    rw [hser, deserialize, htype, Option.bind_some, if_pos hknown, hdec, Option.map_some]
  | n + 1, .unknown value, .unknown hu, hn => by
    obtain ⟨members, name, rfl, htype, hknown⟩ := hu
    rw [serialize, deserialize, htype, Option.bind_some, if_neg (by rw [hknown]; decide)]

end roundTrip
/-! ## Encoding what was decoded -/

section keeps

variable {l : Leaves P} {g : Grammar RichNode} {text : Value → Option RichText} {block : Value → Option (RichBlock P)}

theorem RichBlockCaption.keeps (hk : Keeps g (.node .text) text (RichText.serialize l.toTextLeaves)) :
    Keeps g RichBlockCaption.format (RichBlockCaption.deserialize text) (RichBlockCaption.serialize l.toTextLeaves) := by
  refine keeps_record fun {members caption} h => ?_
  simp only [ofFields, Option.bind_eq_bind, Option.bind_eq_some_iff] at h
  obtain ⟨t, ht, credit, hcredit, hc⟩ := h
  obtain rfl := Option.some.inj hc
  exact ⟨_, rfl, List.forall_mem_cons.2 ⟨kept_required hk ht rfl, List.forall_mem_singleton.2 (kept_optional hk hcredit rfl)⟩⟩

theorem RichBlockTableCell.keeps (hk : Keeps g (.node .text) text (RichText.serialize l.toTextLeaves)) :
    Keeps g RichBlockTableCell.format (RichBlockTableCell.deserialize text)
      (RichBlockTableCell.serialize l.toTextLeaves) := by
  refine keeps_record fun {members cell} h => ?_
  simp only [ofFields, Option.bind_eq_bind, Option.bind_eq_some_iff] at h
  obtain ⟨t, ht, _, _, _, _, _, _, _, _, _, _, hc⟩ := h
  obtain rfl := Option.some.inj hc
  refine ⟨_, rfl, List.forall_mem_cons.2 ⟨kept_optional hk ht rfl, ?_⟩⟩
  simp only [List.forall_mem_cons, kept_leaf, List.not_mem_nil, true_and]
  exact fun _ h => absurd h (by simp)

theorem Keeps.blocks (hb : Keeps g (.node .block) block (RichBlock.serialize l)) :
    Keeps g (.list (.node .block)) (decodeList block) (fun blocks => .array (serializeBlocks l blocks)) := by
  simp only [serializeBlocks_eq]
  exact hb.list

theorem RichBlockListItem.keeps (hb : Keeps g (.node .block) block (RichBlock.serialize l)) :
    Keeps g RichBlockListItem.format (RichBlockListItem.deserialize block) (RichBlockListItem.serialize l) := by
  refine keeps_record fun {members item} h => ?_
  simp only [ofFields, Option.bind_eq_bind, Option.bind_eq_some_iff] at h
  obtain ⟨_, _, blocks, hblocks, _, _, _, _, _, _, _, _, hi⟩ := h
  obtain rfl := Option.some.inj hi
  refine ⟨_, by rw [serialize], List.forall_mem_cons.2 ⟨kept_leaf, List.forall_mem_cons.2
    ⟨kept_required (Keeps.blocks hb) hblocks rfl, ?_⟩⟩⟩
  simp [kept_leaf]

/-- The fields of a known block are kept. -/
theorem RichBlockKind.kept (hk : Keeps g (.node .text) text (RichText.serialize l.toTextLeaves))
    (hb : Keeps g (.node .block) block (RichBlock.serialize l)) {name : String} {members : List (String × Value)}
    {kind : RichBlockKind P} {fields : List (String × Format RichNode)}
    (h : RichBlockKind.deserialize l text block name members = some kind) (hf : richBlockFields name = some fields) :
    ∃ out, kind.serialize l = .object out ∧ ∀ f ∈ fields, Kept g f.2 (members.lookup f.1) (out.lookup f.1) := by
  have hcaption := RichBlockCaption.keeps (l := l) hk
  unfold RichBlockKind.deserialize captionField at h
  split at h
  case h_25 => cases h
  all_goals obtain rfl := Option.some.inj hf
  case h_5 =>
    obtain rfl := Option.some.inj h
    exact ⟨_, by rw [serialize]; rfl, fun _ hm => by cases hm⟩
  all_goals simp only [Option.bind_eq_bind, Option.bind_eq_some_iff, Option.map_eq_some_iff] at h
  case h_1 | h_4 | h_24 =>
    obtain ⟨t, ht, rfl⟩ := h
    exact ⟨_, by rw [serialize]; rfl, List.forall_mem_singleton.2 (kept_required hk ht rfl)⟩
  case h_2 | h_3 =>
    obtain ⟨t, ht, _, _, ho⟩ := h
    obtain rfl := Option.some.inj ho
    exact ⟨_, by rw [serialize]; rfl,
      List.forall_mem_cons.2 ⟨kept_required hk ht rfl, List.forall_mem_singleton.2 kept_leaf⟩⟩
  case h_6 | h_7 =>
    obtain ⟨_, _, rfl⟩ := h
    exact ⟨_, by rw [serialize]; rfl, List.forall_mem_singleton.2 kept_leaf⟩
  case h_8 =>
    obtain ⟨items, hitems, rfl⟩ := h
    have hlist : Keeps g (.list RichBlockListItem.format) (decodeList (RichBlockListItem.deserialize block))
        (fun items => .array (serializeListItems l items)) := by
      simp only [serializeListItems_eq]
      exact (RichBlockListItem.keeps hb).list
    exact ⟨_, by rw [serialize]; rfl, List.forall_mem_singleton.2 (kept_required hlist hitems rfl)⟩
  case h_9 =>
    obtain ⟨blocks, hblocks, credit, hcredit, ho⟩ := h
    obtain rfl := Option.some.inj ho
    exact ⟨_, by rw [serialize]; rfl, List.forall_mem_cons.2
      ⟨kept_required (Keeps.blocks hb) hblocks rfl, List.forall_mem_singleton.2 (kept_optional hk hcredit rfl)⟩⟩
  case h_10 | h_11 =>
    obtain ⟨t, ht, credit, hcredit, ho⟩ := h
    obtain rfl := Option.some.inj ho
    exact ⟨_, by rw [serialize]; rfl, List.forall_mem_cons.2
      ⟨kept_required hk ht rfl, List.forall_mem_singleton.2 (kept_optional hk hcredit rfl)⟩⟩
  case h_12 | h_13 =>
    obtain ⟨blocks, hblocks, caption, hc, ho⟩ := h
    obtain rfl := Option.some.inj ho
    exact ⟨_, by rw [serialize]; rfl, List.forall_mem_cons.2
      ⟨kept_required (Keeps.blocks hb) hblocks rfl, List.forall_mem_singleton.2 (kept_optional hcaption hc rfl)⟩⟩
  case h_14 =>
    obtain ⟨cells, hcells, _, _, _, _, _, _, caption, hc, ho⟩ := h
    obtain rfl := Option.some.inj ho
    refine ⟨_, by rw [serialize]; rfl, List.forall_mem_cons.2
      ⟨kept_required (RichBlockTableCell.keeps (l := l) hk).list.list hcells rfl, ?_⟩⟩
    exact List.forall_mem_cons.2 ⟨kept_leaf, List.forall_mem_cons.2 ⟨kept_leaf, List.forall_mem_cons.2
      ⟨kept_leaf, List.forall_mem_singleton.2 (kept_optional hk hc rfl)⟩⟩⟩
  case h_15 =>
    obtain ⟨buttons, hbuttons, _, _, ho⟩ := h
    obtain rfl := Option.some.inj ho
    exact ⟨_, by rw [serialize]; rfl, List.forall_mem_cons.2
      ⟨kept_required (RichMessageButton.keeps hk).list hbuttons rfl, List.forall_mem_singleton.2 kept_leaf⟩⟩
  case h_16 | h_20 | h_23 =>
    obtain ⟨_, _, caption, hc, ho⟩ := h
    obtain rfl := Option.some.inj ho
    exact ⟨_, by rw [serialize]; rfl,
      List.forall_mem_cons.2 ⟨kept_leaf, List.forall_mem_singleton.2 (kept_optional hcaption hc rfl)⟩⟩
  case h_17 =>
    obtain ⟨t, ht, blocks, hblocks, _, _, ho⟩ := h
    obtain rfl := Option.some.inj ho
    exact ⟨_, by rw [serialize]; rfl, List.forall_mem_cons.2 ⟨kept_required hk ht rfl, List.forall_mem_cons.2
      ⟨kept_required (Keeps.blocks hb) hblocks rfl, List.forall_mem_singleton.2 kept_leaf⟩⟩⟩
  case h_18 =>
    obtain ⟨_, _, _, _, _, _, _, _, caption, hc, ho⟩ := h
    obtain rfl := Option.some.inj ho
    refine ⟨_, by rw [serialize]; rfl, List.forall_mem_cons.2 ⟨kept_leaf, List.forall_mem_cons.2 ⟨kept_leaf, ?_⟩⟩⟩
    exact List.forall_mem_cons.2 ⟨kept_leaf, List.forall_mem_cons.2
      ⟨kept_leaf, List.forall_mem_singleton.2 (kept_optional hcaption hc rfl)⟩⟩
  case h_19 | h_21 | h_22 =>
    obtain ⟨_, _, _, _, caption, hc, ho⟩ := h
    obtain rfl := Option.some.inj ho
    exact ⟨_, by rw [serialize]; rfl, List.forall_mem_cons.2 ⟨kept_leaf, List.forall_mem_cons.2
      ⟨kept_leaf, List.forall_mem_singleton.2 (kept_optional hcaption hc rfl)⟩⟩⟩

/-- Whatever decodes keeps the objects of unknown types. -/
theorem RichBlock.keeps : ∀ n, Keeps richGrammar (.node .block) (RichBlock.deserialize l n) (RichBlock.serialize l)
  | 0 => ⟨fun {value _ _ _} h _ => by cases value <;> cases h⟩
  | n + 1 =>
    { at? := fun {value b place object} h hs => by
        have hk : Keeps richGrammar (.node .text) (RichText.deserialize l.toTextLeaves n)
            (RichText.serialize l.toTextLeaves) := RichText.keeps (fun _ => rfl) n
        cases hs with
        | here hu =>
          obtain ⟨members, name, rfl, htype, hg⟩ := hu
          have hknown : isKnownRichBlockType name = false := by
            rw [Bool.eq_false_iff, Ne, isKnownRichBlockType_iff, show richBlockFields name = none from hg]
            decide
          rw [deserialize, htype, Option.bind_some, if_neg (by rw [hknown]; decide)] at h
          obtain rfl := Option.some.inj h
          rw [serialize, Value.at?]
        | element hl => cases hl
        | @member _ _ name fields _ _ _ _ _ htype hfields hmem hl hs =>
          have hfields : richBlockFields name = some fields := hfields
          have hknown : isKnownRichBlockType name = true := by
            rw [isKnownRichBlockType_iff, hfields]
            rfl
          rw [deserialize, htype, Option.bind_some, if_pos hknown] at h
          obtain ⟨kind, hkind, rfl⟩ := Option.map_eq_some_iff.1 h
          obtain ⟨out, hout, hkept⟩ := RichBlockKind.kept hk (RichBlock.keeps n) hkind hfields
          rw [serialize, hout]
          exact at?_of_kept (hkept _ hmem) hl hs }

end keeps

/-- Rich texts and rich blocks go to JSON and back. -/
theorem rich_round_trip (l : Leaves P) :
    (∀ t : RichText, t.Sound → ∃ fuel, ∀ n ≥ fuel,
      RichText.deserialize l.toTextLeaves n (t.serialize l.toTextLeaves) = some t) ∧
    (∀ b : RichBlock P, b.Sound → ∃ fuel, ∀ n ≥ fuel, RichBlock.deserialize l n (b.serialize l) = some b) ∧
    (∀ n value t place object, RichText.deserialize l.toTextLeaves n value = some t →
      Stands richGrammar (.node .text) value place object → (t.serialize l.toTextLeaves).at? place = some object) ∧
    ∀ n value (b : RichBlock P) place object, RichBlock.deserialize l n value = some b →
      Stands richGrammar (.node .block) value place object → (b.serialize l).at? place = some object :=
  ⟨fun t ht => ⟨depth (t.serialize l.toTextLeaves) + 1, fun _ hn => RichText.deserialize_serialize ht hn⟩,
    fun b hb => ⟨depth (b.serialize l) + 1, fun _ hn => RichBlock.deserialize_serialize hb hn⟩,
    fun n _ _ _ _ h hs => (RichText.keeps (fun _ => rfl) n).at? h hs,
    fun n _ _ _ _ h hs => (RichBlock.keeps n).at? h hs⟩

/-! Codecs as they may be. -/

def userCodec : Codec User :=
  (nat.pair (bool.pair (string.pair (string.maybe.pair (string.maybe.pair (string.maybe.pair (bool.pair (bool.pair
    (bool.pair (bool.pair (bool.pair (bool.pair bool)))))))))))).via
    (fun u => (u.id, u.isBot, u.firstName, u.lastName, u.username, u.languageCode, u.isPremium, u.addedToAttachmentMenu,
      u.supportsGuestQueries, u.supportsJoinRequestQueries, u.hasTopicsEnabled, u.allowsUsersToCreateTopics,
      u.canManageBots))
    (fun (a, b, c, d, e, f, g, h, i, j, k, l, m) => ⟨a, b, c, d, e, f, g, h, i, j, k, l, m⟩) fun _ => rfl

def loginUrlCodec : Codec LoginUrl :=
  (string.pair (string.maybe.pair (string.maybe.pair bool.maybe))).via
    (fun u => (u.url, u.forwardText, u.botUsername, u.requestWriteAccess)) (fun (a, b, c, d) => ⟨a, b, c, d⟩) fun _ => rfl

def chosenChatCodec : Codec SwitchInlineQueryChosenChat :=
  (string.maybe.pair (bool.pair (bool.pair (bool.pair bool)))).via
    (fun c => (c.query, c.allowUserChats, c.allowBotChats, c.allowGroupChats, c.allowChannelChats))
    (fun (a, b, c, d, e) => ⟨a, b, c, d, e⟩) fun _ => rfl

def textLeaves : TextLeaves where
  user := userCodec
  webApp := string.via (·.url) (⟨·⟩) fun _ => rfl
  loginUrl := loginUrlCodec
  switchInlineQueryChosenChat := chosenChatCodec
  copyText := string.via (·.text) (⟨·⟩) fun _ => rfl
  disabled := empty.via (fun _ => ()) (fun _ => ⟨⟩) fun _ => rfl

def leaves : Leaves ⟨Unit, Unit, Unit, Unit, Unit, Unit, Unit⟩ :=
  { textLeaves with
    animation := empty
    audio := empty
    document := empty
    location := empty
    photoSize := empty
    video := empty
    voice := empty }

/-- A paragraph in a quote, with a text of an unknown type. -/
theorem rich_round_trip_quote :
    ∃ fuel, ∀ n ≥ fuel, RichBlock.deserialize leaves n
      ((RichBlock.known (.blockquote
        [.known (.paragraph (.object (.unknown (.object [("type", .string "future")]))))] none)).serialize leaves) =
      some (.known (.blockquote [.known (.paragraph (.object (.unknown (.object [("type", .string "future")]))))] none)) := by
  refine (rich_round_trip leaves).2.1 _ (.known (fun _ h => by cases h) fun b hb => ?_)
  obtain rfl := List.mem_singleton.1 hb
  refine .known (fun t ht => ?_) fun _ h => by cases h
  obtain rfl := List.mem_singleton.1 ht
  refine .object (fun _ h => by cases h) fun value hv => ?_
  obtain rfl := RichTextObject.unknown.inj hv
  exact ⟨_, "future", rfl, rfl, rfl⟩

end Teloxide.Types
