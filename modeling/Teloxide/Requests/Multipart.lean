import Mathlib
import Teloxide.Types.RichMessage

/-!
# Walks over the files of a payload

A multipart payload is a rich message, media or a sequence of them. Three
functions walk over the same tree:

* `toJson` is the derived serializer. A file is a leaf of the result; a value
  that can hold no file is `plain`.
* `fill` is what the serializer does to the tree on its way: the cell for the
  attachment id of each file that is to be uploaded is filled, in order.
* `copyInto` and `moveInto` are the traversals that collect the files. The
  latter leaves a dummy behind where it takes a file.

`WalksAgree` is what they agree on.
-/
namespace Teloxide.Types

inductive Json where
  | plain
  | file (file : InputFile)
  | arr (items : List Json)
  | obj (fields : List (String × Json))

namespace Json

mutual

/-- The files among the leaves, in order. -/
def files : Json → List InputFile
  | .plain => []
  | .file f => [f]
  | .arr items => filesOfItems items
  | .obj fields => filesOfFields fields

def filesOfItems : List Json → List InputFile
  | [] => []
  | item :: items => item.files ++ filesOfItems items

def filesOfFields : List (String × Json) → List InputFile
  | [] => []
  | (_, value) :: fields => value.files ++ filesOfFields fields

end

/-- `#[serde(tag = "type")]` -/
def tagged (fields : List (String × Json)) : Json := .obj (("type", .plain) :: fields)

/-- `#[serde_with::skip_serializing_none]` -/
def present (key : String) (value : Option Json) : List (String × Json) := (value.map (key, ·)).toList

end Json

/-! ## Files -/

namespace InputFile

/-- The cell of the attachment id is filled where the id is asked for.
mirrors input_file.rs:156-159, 202-216, 244-251 -/
def fill (fresh : Nat → String) (file : InputFile) (n : Nat) : InputFile × Nat :=
  if file.needsAttach && file.id.isNone then ({ file with id := some (fresh n) }, n + 1) else (file, n)

/-- mirrors input_file.rs:192-194, 441-443 -/
def moveInto (file : InputFile) : List InputFile × InputFile := ([file], .ofFileId "")

end InputFile

/-- The cells of a list of files, in order. -/
def fillAll (fresh : Nat → String) : List InputFile → Nat → List InputFile × Nat
  | [], n => ([], n)
  | file :: files, n =>
    let first := file.fill fresh n
    let rest := fillAll fresh files first.2
    (first.1 :: rest.1, rest.2)

def fillOptional {T : Type} (fill : T → Nat → T × Nat) : Option T → Nat → Option T × Nat
  | none, n => (none, n)
  | some t, n => (some (fill t n).1, (fill t n).2)

/-- mirrors input_file.rs:460-464 -/
def moveOptional {T : Type} (moveInto : T → List InputFile × T) : Option T → List InputFile × Option T
  | none => ([], none)
  | some t => ((moveInto t).1, some (moveInto t).2)

section Fill

variable {fresh : Nat → String}

theorem fillAll_append (l l' : List InputFile) (n : Nat) :
    fillAll fresh (l ++ l') n =
      ((fillAll fresh l n).1 ++ (fillAll fresh l' (fillAll fresh l n).2).1, (fillAll fresh l' (fillAll fresh l n).2).2) := by
  induction l generalizing n with
  | nil => rfl
  | cons f l ih => simp only [List.cons_append, fillAll, ih]

theorem fillAll_toList (o : Option InputFile) (n : Nat) :
    fillAll fresh o.toList n =
      ((fillOptional (InputFile.fill fresh) o n).1.toList, (fillOptional (InputFile.fill fresh) o n).2) := by
  cases o <;> rfl

theorem moveOptional_files (o : Option InputFile) : (moveOptional InputFile.moveInto o).1 = o.toList := by
  cases o <;> rfl

theorem files_present {T : Type} (key : String) (o : Option T) (toJson : T → Json) :
    Json.filesOfFields (Json.present key (o.map toJson)) = o.toList.flatMap fun t => (toJson t).files := by
  cases o <;> rfl

theorem files_present_file (key : String) (o : Option InputFile) :
    Json.filesOfFields (Json.present key (o.map Json.file)) = o.toList := by
  cases o <;> rfl

theorem filesOfFields_append (l l' : List (String × Json)) :
    Json.filesOfFields (l ++ l') = Json.filesOfFields l ++ Json.filesOfFields l' := by
  induction l with
  | nil => rfl
  | cons f l ih => simp only [List.cons_append, Json.filesOfFields, ih, List.append_assoc]

end Fill

/-! ## Media -/

/-- The three walks over a kind of value agree on the files they visit, in
order. -/
structure WalksAgree {T : Type} (files : T → List InputFile) (fill : (Nat → String) → T → Nat → T × Nat)
    (moveInto : T → List InputFile × T) (json : T → List InputFile) (t : T) : Prop where
  fill : ∀ fresh n, fillAll fresh (files t) n = (files (fill fresh t n).1, (fill fresh t n).2)
  moveInto : (moveInto t).1 = files t
  json : json t = files t

namespace InputMediaPhoto

def fields (m : InputMediaPhoto) : List (String × Json) := [("media", .file m.media)]

def fill (fresh : Nat → String) (m : InputMediaPhoto) (n : Nat) : InputMediaPhoto × Nat :=
  let media := m.media.fill fresh n
  (⟨media.1⟩, media.2)

def moveInto (m : InputMediaPhoto) : List InputFile × InputMediaPhoto :=
  (m.media.moveInto.1, ⟨m.media.moveInto.2⟩)

theorem walks (m : InputMediaPhoto) : WalksAgree files fill moveInto (Json.filesOfFields ∘ fields) m :=
  ⟨fun _ _ => rfl, rfl, rfl⟩

end InputMediaPhoto

namespace InputMediaLivePhoto

def files (m : InputMediaLivePhoto) : List InputFile := [m.media, m.photo]

def fields (m : InputMediaLivePhoto) : List (String × Json) := [("media", .file m.media), ("photo", .file m.photo)]

def fill (fresh : Nat → String) (m : InputMediaLivePhoto) (n : Nat) : InputMediaLivePhoto × Nat :=
  let media := m.media.fill fresh n
  let photo := m.photo.fill fresh media.2
  (⟨media.1, photo.1⟩, photo.2)

def moveInto (m : InputMediaLivePhoto) : List InputFile × InputMediaLivePhoto :=
  (m.media.moveInto.1 ++ m.photo.moveInto.1, ⟨m.media.moveInto.2, m.photo.moveInto.2⟩)

theorem walks (m : InputMediaLivePhoto) : WalksAgree files fill moveInto (Json.filesOfFields ∘ fields) m :=
  ⟨fun _ _ => rfl, rfl, rfl⟩

end InputMediaLivePhoto

namespace InputMediaVideo

def fields (m : InputMediaVideo) : List (String × Json) :=
  ("media", .file m.media) :: (Json.present "thumbnail" (m.thumbnail.map .file) ++
    Json.present "cover" (m.cover.map .file))

def fill (fresh : Nat → String) (m : InputMediaVideo) (n : Nat) : InputMediaVideo × Nat :=
  let media := m.media.fill fresh n
  let thumbnail := fillOptional (InputFile.fill fresh) m.thumbnail media.2
  let cover := fillOptional (InputFile.fill fresh) m.cover thumbnail.2
  (⟨media.1, thumbnail.1, cover.1⟩, cover.2)

def moveInto (m : InputMediaVideo) : List InputFile × InputMediaVideo :=
  (m.media.moveInto.1 ++ (moveOptional InputFile.moveInto m.thumbnail).1 ++ (moveOptional InputFile.moveInto m.cover).1,
    ⟨m.media.moveInto.2, (moveOptional InputFile.moveInto m.thumbnail).2, (moveOptional InputFile.moveInto m.cover).2⟩)

theorem walks (m : InputMediaVideo) : WalksAgree files fill moveInto (Json.filesOfFields ∘ fields) m where
  fill fresh n := by simp only [files, fill, fillAll, fillAll_append, fillAll_toList]
  moveInto := by simp [files, moveInto, moveOptional_files, InputFile.moveInto]
  json := by simp [files, fields, Json.filesOfFields, Json.files, filesOfFields_append, files_present_file]

end InputMediaVideo

/-! A file with a thumbnail: an animation, an audio or a document. -/

namespace Thumbnailed

def fields (media : InputFile) (thumbnail : Option InputFile) : List (String × Json) :=
  ("media", .file media) :: Json.present "thumbnail" (thumbnail.map .file)

def fill (fresh : Nat → String) (media : InputFile) (thumbnail : Option InputFile) (n : Nat) :
    (InputFile × Option InputFile) × Nat :=
  let media := media.fill fresh n
  let thumbnail := fillOptional (InputFile.fill fresh) thumbnail media.2
  ((media.1, thumbnail.1), thumbnail.2)

def moveInto (media : InputFile) (thumbnail : Option InputFile) : List InputFile × InputFile × Option InputFile :=
  (media.moveInto.1 ++ (moveOptional InputFile.moveInto thumbnail).1, media.moveInto.2, (moveOptional InputFile.moveInto thumbnail).2)

variable (media : InputFile) (thumbnail : Option InputFile)

theorem files_fields : Json.filesOfFields (fields media thumbnail) = media :: thumbnail.toList := by
  simp [fields, Json.filesOfFields, Json.files, files_present_file]

theorem files_fill (fresh : Nat → String) (n : Nat) : fillAll fresh (media :: thumbnail.toList) n =
    ((fill fresh media thumbnail n).1.1 :: (fill fresh media thumbnail n).1.2.toList, (fill fresh media thumbnail n).2) := by
  simp only [fill, fillAll, fillAll_toList]

theorem files_moveInto : (moveInto media thumbnail).1 = media :: thumbnail.toList := by
  simp [moveInto, moveOptional_files, InputFile.moveInto]

end Thumbnailed

namespace InputMediaAnimation

def fields (m : InputMediaAnimation) : List (String × Json) := Thumbnailed.fields m.media m.thumbnail

def fill (fresh : Nat → String) (m : InputMediaAnimation) (n : Nat) : InputMediaAnimation × Nat :=
  let filled := Thumbnailed.fill fresh m.media m.thumbnail n
  (⟨filled.1.1, filled.1.2⟩, filled.2)

def moveInto (m : InputMediaAnimation) : List InputFile × InputMediaAnimation :=
  let moved := Thumbnailed.moveInto m.media m.thumbnail
  (moved.1, ⟨moved.2.1, moved.2.2⟩)

theorem walks (m : InputMediaAnimation) : WalksAgree files fill moveInto (Json.filesOfFields ∘ fields) m :=
  ⟨Thumbnailed.files_fill m.media m.thumbnail, Thumbnailed.files_moveInto m.media m.thumbnail,
    Thumbnailed.files_fields m.media m.thumbnail⟩

end InputMediaAnimation

namespace InputMediaAudio

def fields (m : InputMediaAudio) : List (String × Json) := Thumbnailed.fields m.media m.thumbnail

def fill (fresh : Nat → String) (m : InputMediaAudio) (n : Nat) : InputMediaAudio × Nat :=
  let filled := Thumbnailed.fill fresh m.media m.thumbnail n
  (⟨filled.1.1, filled.1.2⟩, filled.2)

def moveInto (m : InputMediaAudio) : List InputFile × InputMediaAudio :=
  let moved := Thumbnailed.moveInto m.media m.thumbnail
  (moved.1, ⟨moved.2.1, moved.2.2⟩)

theorem walks (m : InputMediaAudio) : WalksAgree files fill moveInto (Json.filesOfFields ∘ fields) m :=
  ⟨Thumbnailed.files_fill m.media m.thumbnail, Thumbnailed.files_moveInto m.media m.thumbnail,
    Thumbnailed.files_fields m.media m.thumbnail⟩

end InputMediaAudio

namespace InputMediaDocument

def fields (m : InputMediaDocument) : List (String × Json) := Thumbnailed.fields m.media m.thumbnail

def fill (fresh : Nat → String) (m : InputMediaDocument) (n : Nat) : InputMediaDocument × Nat :=
  let filled := Thumbnailed.fill fresh m.media m.thumbnail n
  (⟨filled.1.1, filled.1.2⟩, filled.2)

def moveInto (m : InputMediaDocument) : List InputFile × InputMediaDocument :=
  let moved := Thumbnailed.moveInto m.media m.thumbnail
  (moved.1, ⟨moved.2.1, moved.2.2⟩)

theorem walks (m : InputMediaDocument) : WalksAgree files fill moveInto (Json.filesOfFields ∘ fields) m :=
  ⟨Thumbnailed.files_fill m.media m.thumbnail, Thumbnailed.files_moveInto m.media m.thumbnail,
    Thumbnailed.files_fields m.media m.thumbnail⟩

end InputMediaDocument

namespace InputMediaVoiceNote

def fields (m : InputMediaVoiceNote) : List (String × Json) := [("media", .file m.media)]

def fill (fresh : Nat → String) (m : InputMediaVoiceNote) (n : Nat) : InputMediaVoiceNote × Nat :=
  let media := m.media.fill fresh n
  (⟨media.1⟩, media.2)

def moveInto (m : InputMediaVoiceNote) : List InputFile × InputMediaVoiceNote :=
  (m.media.moveInto.1, ⟨m.media.moveInto.2⟩)

theorem walks (m : InputMediaVoiceNote) : WalksAgree files fill moveInto (Json.filesOfFields ∘ fields) m :=
  ⟨fun _ _ => rfl, rfl, rfl⟩

end InputMediaVoiceNote

/-! ## Kinds of media -/

namespace InputMedia

/-- mirrors input_media.rs:9-19 -/
def toJson : InputMedia → Json
  | .photo m => .tagged m.fields
  | .video m => .tagged m.fields
  | .animation m => .tagged m.fields
  | .audio m => .tagged m.fields
  | .document m => .tagged m.fields
  | .livePhoto m => .tagged m.fields

def fill (fresh : Nat → String) (media : InputMedia) (n : Nat) : InputMedia × Nat :=
  match media with
  | .photo m => ((m.fill fresh n).map .photo id)
  | .video m => ((m.fill fresh n).map .video id)
  | .animation m => ((m.fill fresh n).map .animation id)
  | .audio m => ((m.fill fresh n).map .audio id)
  | .document m => ((m.fill fresh n).map .document id)
  | .livePhoto m => ((m.fill fresh n).map .livePhoto id)

/-- mirrors input_media.rs:21-34 -/
def copyInto : InputMedia → List InputFile
  | .photo m => m.files
  | .video m => m.files
  | .animation m => m.files
  | .audio m => m.files
  | .document m => m.files
  | .livePhoto m => m.files

/-- mirrors input_media.rs:36-48 -/
def moveInto : InputMedia → List InputFile × InputMedia
  | .photo m => m.moveInto.map id .photo
  | .video m => m.moveInto.map id .video
  | .animation m => m.moveInto.map id .animation
  | .audio m => m.moveInto.map id .audio
  | .document m => m.moveInto.map id .document
  | .livePhoto m => m.moveInto.map id .livePhoto

theorem walks (media : InputMedia) : WalksAgree copyInto fill moveInto (fun m => m.toJson.files) media := by
  cases media with
  | photo m => exact ⟨m.walks.fill, m.walks.moveInto, m.walks.json⟩
  | video m => exact ⟨m.walks.fill, m.walks.moveInto, m.walks.json⟩
  | animation m => exact ⟨m.walks.fill, m.walks.moveInto, m.walks.json⟩
  | audio m => exact ⟨m.walks.fill, m.walks.moveInto, m.walks.json⟩
  | document m => exact ⟨m.walks.fill, m.walks.moveInto, m.walks.json⟩
  | livePhoto m => exact ⟨m.walks.fill, m.walks.moveInto, m.walks.json⟩

end InputMedia

namespace InputRichMessageMediaContent

/-- mirrors input_rich_message.rs:155-162 -/
def toJson : InputRichMessageMediaContent → Json
  | .animation m => .tagged m.fields
  | .audio m => .tagged m.fields
  | .document m => .tagged m.fields
  | .photo m => .tagged m.fields
  | .video m => .tagged m.fields
  | .voiceNote m => .tagged m.fields

def fill (fresh : Nat → String) (media : InputRichMessageMediaContent) (n : Nat) : InputRichMessageMediaContent × Nat :=
  match media with
  | .animation m => (m.fill fresh n).map .animation id
  | .audio m => (m.fill fresh n).map .audio id
  | .document m => (m.fill fresh n).map .document id
  | .photo m => (m.fill fresh n).map .photo id
  | .video m => (m.fill fresh n).map .video id
  | .voiceNote m => (m.fill fresh n).map .voiceNote id

/-- mirrors input_rich_message.rs:192-217 -/
def moveInto : InputRichMessageMediaContent → List InputFile × InputRichMessageMediaContent
  | .photo m => m.moveInto.map id .photo
  | .audio m => m.moveInto.map id .audio
  | .document m => m.moveInto.map id .document
  | .animation m => m.moveInto.map id .animation
  | .video m => m.moveInto.map id .video
  | .voiceNote m => m.moveInto.map id .voiceNote

theorem walks (media : InputRichMessageMediaContent) :
    WalksAgree files fill moveInto (fun m => m.toJson.files) media := by
  cases media with
  | animation m => exact ⟨m.walks.fill, m.walks.moveInto, m.walks.json⟩
  | audio m => exact ⟨m.walks.fill, m.walks.moveInto, m.walks.json⟩
  | document m => exact ⟨m.walks.fill, m.walks.moveInto, m.walks.json⟩
  | photo m => exact ⟨m.walks.fill, m.walks.moveInto, m.walks.json⟩
  | video m => exact ⟨m.walks.fill, m.walks.moveInto, m.walks.json⟩
  | voiceNote m => exact ⟨m.walks.fill, m.walks.moveInto, m.walks.json⟩

end InputRichMessageMediaContent

/-! ## Sequences -/

section Sequences

variable {T : Type} {files : T → List InputFile} {fill : (Nat → String) → T → Nat → T × Nat}
  {moveInto : T → List InputFile × T} {toJson : T → Json}

def fillSeq (fill : (Nat → String) → T → Nat → T × Nat) (fresh : Nat → String) : List T → Nat → List T × Nat
  | [], n => ([], n)
  | t :: ts, n =>
    let first := fill fresh t n
    let rest := fillSeq fill fresh ts first.2
    (first.1 :: rest.1, rest.2)

/-- mirrors input_file.rs:484-488 -/
def moveSeq (moveInto : T → List InputFile × T) : List T → List InputFile × List T
  | [] => ([], [])
  | t :: ts => ((moveInto t).1 ++ (moveSeq moveInto ts).1, (moveInto t).2 :: (moveSeq moveInto ts).2)

theorem walks_seq {l : List T} (h : ∀ t ∈ l, WalksAgree files fill moveInto (fun t => (toJson t).files) t) :
    WalksAgree (List.flatMap files) (fillSeq fill) (moveSeq moveInto)
      (fun l => Json.filesOfItems (l.map toJson)) l := by
  induction l with
  | nil => exact ⟨fun _ _ => rfl, rfl, rfl⟩
  | cons t ts ih =>
    have ht := h t List.mem_cons_self
    have hts := ih fun t' ht' => h t' (List.mem_cons_of_mem _ ht')
    exact
      { fill := fun fresh n => by
          simp only [List.flatMap_cons, fillAll_append, ht.fill, hts.fill, fillSeq]
        moveInto := by simp only [moveSeq, ht.moveInto, hts.moveInto, List.flatMap_cons]
        json := by
          have h₁ : (toJson t).files = files t := ht.json
          have h₂ : Json.filesOfItems (ts.map toJson) = ts.flatMap files := hts.json
          simp only [List.map_cons, Json.filesOfItems, h₁, h₂, List.flatMap_cons] }

theorem walks_optional {json : T → List InputFile} {o : Option T} (h : ∀ t ∈ o, WalksAgree files fill moveInto json t) :
    WalksAgree (fun o => o.toList.flatMap files) (fun fresh => fillOptional (fill fresh)) (moveOptional moveInto)
      (fun o => o.toList.flatMap json) o := by
  cases o with
  | none => exact ⟨fun _ _ => rfl, rfl, rfl⟩
  | some t =>
    have ht := h t rfl
    exact
      { fill := fun fresh n => by simpa [fillOptional] using ht.fill fresh n
        moveInto := by simpa [moveOptional] using ht.moveInto
        json := by simpa using ht.json }

end Sequences

/-! ## Blocks -/

namespace InputRichBlock

mutual

/-- mirrors input_rich_message.rs:264-291, 359-556 -/
def toJson : InputRichBlock → Json
  | .paragraph _ | .footer _ | .thinking _ => .tagged [("text", .plain)]
  | .heading _ _ => .tagged [("text", .plain), ("size", .plain)]
  | .pre _ _ => .tagged [("text", .plain), ("language", .plain)]
  | .divider => .tagged []
  | .mathematicalExpression _ => .tagged [("expression", .plain)]
  | .anchor _ => .tagged [("name", .plain)]
  | .list items => .tagged [("items", .arr (itemsToJson items))]
  | .blockquote blocks _ => .tagged [("blocks", .arr (blocksToJson blocks)), ("credit", .plain)]
  | .expandableBlockquote _ _ | .pullquote _ _ => .tagged [("text", .plain), ("credit", .plain)]
  | .collage blocks _ | .slideshow blocks _ =>
    .tagged [("blocks", .arr (blocksToJson blocks)), ("caption", .plain)]
  | .table _ _ => .tagged [("cells", .plain), ("caption", .plain)]
  | .buttons _ _ => .tagged [("buttons", .plain), ("align", .plain)]
  | .document media _ => .tagged [("document", .obj media.fields), ("caption", .plain)]
  | .details _ blocks => .tagged [("summary", .plain), ("blocks", .arr (blocksToJson blocks))]
  | .map _ => .tagged [("caption", .plain)]
  | .animation media _ => .tagged [("animation", .obj media.fields), ("caption", .plain)]
  | .audio media _ => .tagged [("audio", .obj media.fields), ("caption", .plain)]
  | .photo media _ => .tagged [("photo", .obj media.fields), ("caption", .plain)]
  | .video media _ => .tagged [("video", .obj media.fields), ("caption", .plain)]
  | .voiceNote media _ => .tagged [("voice_note", .obj media.fields), ("caption", .plain)]

def blocksToJson : List InputRichBlock → List Json
  | [] => []
  | block :: blocks => block.toJson :: blocksToJson blocks

/-- mirrors input_rich_message.rs:411-420 -/
def itemsToJson : List InputRichBlockListItem → List Json
  | [] => []
  | { blocks } :: items => .obj [("blocks", .arr (blocksToJson blocks))] :: itemsToJson items

end

mutual

def fill (fresh : Nat → String) (block : InputRichBlock) (n : Nat) : InputRichBlock × Nat :=
  match block with
  | .list items => (fillItems fresh items n).map .list id
  | .blockquote blocks credit => (fillBlocks fresh blocks n).map (.blockquote · credit) id
  | .collage blocks caption => (fillBlocks fresh blocks n).map (.collage · caption) id
  | .slideshow blocks caption => (fillBlocks fresh blocks n).map (.slideshow · caption) id
  | .details summary blocks => (fillBlocks fresh blocks n).map (.details summary ·) id
  | .document media caption => (media.fill fresh n).map (.document · caption) id
  | .animation media caption => (media.fill fresh n).map (.animation · caption) id
  | .audio media caption => (media.fill fresh n).map (.audio · caption) id
  | .photo media caption => (media.fill fresh n).map (.photo · caption) id
  | .video media caption => (media.fill fresh n).map (.video · caption) id
  | .voiceNote media caption => (media.fill fresh n).map (.voiceNote · caption) id
  | block => (block, n)

def fillBlocks (fresh : Nat → String) (blocks : List InputRichBlock) (n : Nat) : List InputRichBlock × Nat :=
  match blocks with
  | [] => ([], n)
  | block :: blocks =>
    let first := block.fill fresh n
    let rest := fillBlocks fresh blocks first.2
    (first.1 :: rest.1, rest.2)

def fillItems (fresh : Nat → String) (items : List InputRichBlockListItem) (n : Nat) :
    List InputRichBlockListItem × Nat :=
  match items with
  | [] => ([], n)
  | { blocks } :: items =>
    let first := fillBlocks fresh blocks n
    let rest := fillItems fresh items first.2
    (⟨first.1⟩ :: rest.1, rest.2)

end

mutual

/-- mirrors input_rich_message.rs:294-323 -/
def copyInto : InputRichBlock → List InputFile
  | .list items => copyItems items
  | .blockquote blocks _ => copyBlocks blocks
  | .expandableBlockquote _ _ => []
  | .collage blocks _ => copyBlocks blocks
  | .slideshow blocks _ => copyBlocks blocks
  | .details _ blocks => copyBlocks blocks
  | .buttons _ _ => []
  | .document media _ => media.files
  | .animation media _ => media.files
  | .audio media _ => media.files
  | .photo media _ => media.files
  | .video media _ => media.files
  | .voiceNote media _ => media.files
  | .paragraph _ | .heading _ _ | .pre _ _ | .footer _ | .divider | .mathematicalExpression _ | .anchor _
  | .pullquote _ _ | .table _ _ | .map _ | .thinking _ => []

/-- mirrors input_file.rs:477-482 -/
def copyBlocks : List InputRichBlock → List InputFile
  | [] => []
  | block :: blocks => block.copyInto ++ copyBlocks blocks

/-- mirrors input_rich_message.rs:422-425 -/
def copyItems : List InputRichBlockListItem → List InputFile
  | [] => []
  | { blocks } :: items => copyBlocks blocks ++ copyItems items

end

mutual

/-- mirrors input_rich_message.rs:325-354 -/
def moveInto : InputRichBlock → List InputFile × InputRichBlock
  | .list items => (moveItems items).map id .list
  | .blockquote blocks credit => (moveBlocks blocks).map id (.blockquote · credit)
  | .collage blocks caption => (moveBlocks blocks).map id (.collage · caption)
  | .slideshow blocks caption => (moveBlocks blocks).map id (.slideshow · caption)
  | .details summary blocks => (moveBlocks blocks).map id (.details summary ·)
  | .document media caption => media.moveInto.map id (.document · caption)
  | .animation media caption => media.moveInto.map id (.animation · caption)
  | .audio media caption => media.moveInto.map id (.audio · caption)
  | .photo media caption => media.moveInto.map id (.photo · caption)
  | .video media caption => media.moveInto.map id (.video · caption)
  | .voiceNote media caption => media.moveInto.map id (.voiceNote · caption)
  | block => ([], block)

def moveBlocks : List InputRichBlock → List InputFile × List InputRichBlock
  | [] => ([], [])
  | block :: blocks => (block.moveInto.1 ++ (moveBlocks blocks).1, block.moveInto.2 :: (moveBlocks blocks).2)

def moveItems : List InputRichBlockListItem → List InputFile × List InputRichBlockListItem
  | [] => ([], [])
  | { blocks } :: items =>
    ((moveBlocks blocks).1 ++ (moveItems items).1, ⟨(moveBlocks blocks).2⟩ :: (moveItems items).2)

end

mutual

theorem walks : ∀ block : InputRichBlock, WalksAgree copyInto fill moveInto (fun b => b.toJson.files) block
  | .list items =>
    ⟨(walks_items items).fill, (walks_items items).moveInto, by
      have hjson := (walks_items items).json
      simpa [toJson, Json.tagged, Json.files, Json.filesOfFields, copyInto] using hjson⟩
  | .blockquote blocks _ | .collage blocks _ | .slideshow blocks _ | .details _ blocks =>
    ⟨(walks_blocks blocks).fill, (walks_blocks blocks).moveInto, by
      have hjson := (walks_blocks blocks).json
      simpa [toJson, Json.tagged, Json.files, Json.filesOfFields, copyInto] using hjson⟩
  | .document media _ | .animation media _ | .audio media _ | .photo media _ | .video media _ | .voiceNote media _ =>
    ⟨media.walks.fill, media.walks.moveInto, by
      have hjson : Json.filesOfFields media.fields = media.files := media.walks.json
      simpa [toJson, Json.tagged, Json.files, Json.filesOfFields, copyInto] using hjson⟩
  | .paragraph _ | .heading _ _ | .pre _ _ | .footer _ | .divider | .mathematicalExpression _ | .anchor _
  | .expandableBlockquote _ _ | .pullquote _ _ | .table _ _ | .buttons _ _ | .map _ | .thinking _ =>
    ⟨fun _ _ => rfl, rfl, rfl⟩

theorem walks_blocks : ∀ blocks : List InputRichBlock,
    WalksAgree copyBlocks fillBlocks moveBlocks (fun l => Json.filesOfItems (blocksToJson l)) blocks
  | [] => ⟨fun _ _ => rfl, rfl, rfl⟩
  | block :: blocks => by
    have hb := walks block
    have hbs := walks_blocks blocks
    have hjson : block.toJson.files = block.copyInto := hb.json
    have hjsons : Json.filesOfItems (blocksToJson blocks) = copyBlocks blocks := hbs.json
    exact
      { fill := fun fresh n => by simp only [copyBlocks, fillAll_append, hb.fill, hbs.fill, fillBlocks]
        moveInto := by simp only [moveBlocks, hb.moveInto, hbs.moveInto, copyBlocks]
        json := by simp only [blocksToJson, Json.filesOfItems, hjson, hjsons, copyBlocks] }

theorem walks_items : ∀ items : List InputRichBlockListItem,
    WalksAgree copyItems fillItems moveItems (fun l => Json.filesOfItems (itemsToJson l)) items
  | [] => ⟨fun _ _ => rfl, rfl, rfl⟩
  | { blocks } :: items => by
    have hb := walks_blocks blocks
    have hi := walks_items items
    have hjson : Json.filesOfItems (blocksToJson blocks) = copyBlocks blocks := hb.json
    have hjsons : Json.filesOfItems (itemsToJson items) = copyItems items := hi.json
    exact
      { fill := fun fresh n => by simp only [copyItems, fillAll_append, hb.fill, hi.fill, fillItems]
        moveInto := by simp only [moveItems, hb.moveInto, hi.moveInto, copyItems]
        json := by
          simp only [itemsToJson, Json.filesOfItems, Json.files, Json.filesOfFields, List.append_nil, hjson, hjsons,
            copyItems] }

end

end InputRichBlock

/-! ## Messages -/

namespace InputRichMessageMedia

/-- mirrors input_rich_message.rs:129-135 -/
def toJson (medium : InputRichMessageMedia) : Json := .obj [("id", .plain), ("media", medium.media.toJson)]

def files (medium : InputRichMessageMedia) : List InputFile := medium.media.files

def fill (fresh : Nat → String) (medium : InputRichMessageMedia) (n : Nat) : InputRichMessageMedia × Nat :=
  let media := medium.media.fill fresh n
  ({ medium with media := media.1 }, media.2)

def moveInto (medium : InputRichMessageMedia) : List InputFile × InputRichMessageMedia :=
  (medium.media.moveInto.1, { medium with media := medium.media.moveInto.2 })

theorem walks (medium : InputRichMessageMedia) : WalksAgree files fill moveInto (fun m => m.toJson.files) medium where
  fill := medium.media.walks.fill
  moveInto := medium.media.walks.moveInto
  json := by
    have hjson : medium.media.toJson.files = medium.media.files := medium.media.walks.json
    simpa [toJson, Json.files, Json.filesOfFields, files] using hjson

end InputRichMessageMedia

namespace InputRichMessage

/-- mirrors input_rich_message.rs:19-33 -/
def toJson (message : InputRichMessage) : Json :=
  .obj (Json.present "blocks" (message.blocks.map fun blocks => .arr (InputRichBlock.blocksToJson blocks)) ++
    Json.present "html" (message.html.map fun _ => .plain) ++
    Json.present "markdown" (message.markdown.map fun _ => .plain) ++
    Json.present "media" (message.media.map fun media => .arr (media.map (·.toJson))))

/-- The blocks are serialized before the media. -/
def fill (fresh : Nat → String) (message : InputRichMessage) (n : Nat) : InputRichMessage × Nat :=
  let blocks := fillOptional (InputRichBlock.fillBlocks fresh) message.blocks n
  let media := fillOptional (fillSeq InputRichMessageMedia.fill fresh) message.media blocks.2
  ({ message with blocks := blocks.1, media := media.1 }, media.2)

def mediaFiles (message : InputRichMessage) : List InputFile :=
  message.media.toList.flatMap (List.flatMap (·.files))

def blockFiles (message : InputRichMessage) : List InputFile :=
  message.blocks.toList.flatMap InputRichBlock.copyBlocks

/-- mirrors input_rich_message.rs:117-120 -/
def copyInto (message : InputRichMessage) : List InputFile := message.mediaFiles ++ message.blockFiles

/-- mirrors input_rich_message.rs:122-125 -/
def moveInto (message : InputRichMessage) : List InputFile × InputRichMessage :=
  let media := moveOptional (moveSeq InputRichMessageMedia.moveInto) message.media
  let blocks := moveOptional InputRichBlock.moveBlocks message.blocks
  (media.1 ++ blocks.1, { message with blocks := blocks.2, media := media.2 })

theorem walks_media (message : InputRichMessage) :
    WalksAgree (fun o => o.toList.flatMap (List.flatMap InputRichMessageMedia.files))
      (fun fresh => fillOptional (fillSeq InputRichMessageMedia.fill fresh))
      (moveOptional (moveSeq InputRichMessageMedia.moveInto))
      (fun o => o.toList.flatMap fun media => Json.filesOfItems (media.map (·.toJson))) message.media :=
  walks_optional fun _ _ => walks_seq fun medium _ => medium.walks

theorem walks_blocks (message : InputRichMessage) :
    WalksAgree (fun o => o.toList.flatMap InputRichBlock.copyBlocks)
      (fun fresh => fillOptional (InputRichBlock.fillBlocks fresh)) (moveOptional InputRichBlock.moveBlocks)
      (fun o => o.toList.flatMap fun blocks => Json.filesOfItems (InputRichBlock.blocksToJson blocks)) message.blocks :=
  walks_optional fun blocks _ => InputRichBlock.walks_blocks blocks

theorem moveInto_files (message : InputRichMessage) : message.moveInto.1 = message.copyInto := by
  simp only [moveInto, message.walks_media.moveInto, message.walks_blocks.moveInto, copyInto, mediaFiles, blockFiles]

theorem toJson_files (message : InputRichMessage) : message.toJson.files = message.blockFiles ++ message.mediaFiles := by
  have hblocks := message.walks_blocks.json
  have hmedia := message.walks_media.json
  have hplain : ∀ o : Option String, (o.toList.flatMap fun _ => ([] : List InputFile)) = [] := by
    intro o
    cases o <;> rfl
  simp only [toJson, Json.files, filesOfFields_append, files_present, hplain, List.append_nil]
  exact congr (congrArg _ hblocks) hmedia

/-- The files in the order in which they are serialized. -/
theorem fill_files (fresh : Nat → String) (message : InputRichMessage) (n : Nat) :
    fillAll fresh (message.blockFiles ++ message.mediaFiles) n =
      ((message.fill fresh n).1.blockFiles ++ (message.fill fresh n).1.mediaFiles, (message.fill fresh n).2) := by
  have hblocks := message.walks_blocks.fill fresh
  have hmedia := message.walks_media.fill fresh
  simp only [fillAll_append, blockFiles, mediaFiles, fill]
  simp only [hblocks, hmedia]

end InputRichMessage

end Teloxide.Types
