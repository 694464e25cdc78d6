import Teloxide.Core.Json
import Teloxide.Types.MessageEntity

/-!
# Rich messages

The types of `crates/teloxide-core/src/types/rich_message.rs`,
`input_rich_message.rs`, `input_media.rs` and `input_file.rs` that a request
carries: rich text, rich blocks, media and files. Fields that no function of the
development reads are left out.
-/
namespace Teloxide.Types

/-! ## Files -/

/-- A reader is told from another by its identity.
mirrors input_file.rs:39-46 -/
inductive InnerFile where
  | read (reader : Nat)
  | file (path : String)
  | bytes (data : List UInt8)
  | url (url : String)
  | fileId (id : String)
  deriving DecidableEq, Repr

/-- mirrors input_file.rs:50-62 -/
inductive InputFileSourceKind where
  | reader
  | path
  | memory
  | url
  | fileId
  deriving DecidableEq, Repr

/-- `id` is empty until the file is first serialized.
mirrors input_file.rs:33-37 -/
structure InputFile where
  id : Option String
  fileName : Option String
  inner : InnerFile
  deriving DecidableEq, Repr

namespace InputFile

/-- mirrors input_file.rs:163-171 -/
def sourceKind (file : InputFile) : InputFileSourceKind :=
  match file.inner with
  | .read _ => .reader
  | .file _ => .path
  | .bytes _ => .memory
  | .url _ => .url
  | .fileId _ => .fileId

/-- mirrors input_file.rs:175-180 -/
def needsAttach (file : InputFile) : Bool :=
  match file.sourceKind with
  | .reader | .path | .memory => true
  | .url | .fileId => false

/-- mirrors input_file.rs:114-116 -/
def ofFileId (id : String) : InputFile := ⟨none, none, .fileId id⟩

end InputFile

/-! ## Media -/

structure InputMediaPhoto where
  media : InputFile
  deriving DecidableEq, Repr

structure InputMediaLivePhoto where
  media : InputFile
  photo : InputFile
  deriving DecidableEq, Repr

structure InputMediaVideo where
  media : InputFile
  thumbnail : Option InputFile
  cover : Option InputFile
  deriving DecidableEq, Repr

structure InputMediaAnimation where
  media : InputFile
  thumbnail : Option InputFile
  deriving DecidableEq, Repr

structure InputMediaAudio where
  media : InputFile
  thumbnail : Option InputFile
  deriving DecidableEq, Repr

structure InputMediaDocument where
  media : InputFile
  thumbnail : Option InputFile
  deriving DecidableEq, Repr

/-- mirrors input_rich_message.rs:213-221 -/
structure InputMediaVoiceNote where
  media : InputFile
  deriving DecidableEq, Repr

/-- mirrors input_media.rs:9-19 -/
inductive InputMedia where
  | photo (media : InputMediaPhoto)
  | video (media : InputMediaVideo)
  | animation (media : InputMediaAnimation)
  | audio (media : InputMediaAudio)
  | document (media : InputMediaDocument)
  | livePhoto (media : InputMediaLivePhoto)
  deriving DecidableEq, Repr

/-- mirrors input_rich_message.rs:155-162 -/
inductive InputRichMessageMediaContent where
  | animation (media : InputMediaAnimation)
  | audio (media : InputMediaAudio)
  | document (media : InputMediaDocument)
  | photo (media : InputMediaPhoto)
  | video (media : InputMediaVideo)
  | voiceNote (media : InputMediaVoiceNote)
  deriving DecidableEq, Repr

/-- mirrors input_rich_message.rs:129-135 -/
structure InputRichMessageMedia where
  id : String
  media : InputRichMessageMediaContent
  deriving DecidableEq, Repr

/-- mirrors input_media.rs:51-59 -/
def InputMediaPhoto.files (media : InputMediaPhoto) : List InputFile := [media.media]

/-- mirrors input_media.rs:75-85 -/
def InputMediaAnimation.files (media : InputMediaAnimation) : List InputFile := media.media :: media.thumbnail.toList

/-- mirrors input_media.rs:87-97 -/
def InputMediaAudio.files (media : InputMediaAudio) : List InputFile := media.media :: media.thumbnail.toList

/-- mirrors input_media.rs:99-109 -/
def InputMediaDocument.files (media : InputMediaDocument) : List InputFile := media.media :: media.thumbnail.toList

/-- mirrors input_media.rs:61-73 -/
def InputMediaVideo.files (media : InputMediaVideo) : List InputFile :=
  media.media :: (media.thumbnail.toList ++ media.cover.toList)

/-- mirrors input_rich_message.rs:251-259 -/
def InputMediaVoiceNote.files (media : InputMediaVoiceNote) : List InputFile := [media.media]

/-- mirrors input_media.rs:774-803 -/
def InputMedia.files : InputMedia → List InputFile
  | .photo media => media.files
  | .livePhoto media => [media.media, media.photo]
  | .document media => media.files
  | .audio media => media.files
  | .animation media => media.files
  | .video media => media.files

/-- mirrors input_rich_message.rs:165-190 -/
def InputRichMessageMediaContent.files : InputRichMessageMediaContent → List InputFile
  | .photo media => media.files
  | .audio media => media.files
  | .document media => media.files
  | .animation media => media.files
  | .video media => media.files
  | .voiceNote media => media.files

/-! ## Rich text -/

structure WebAppInfo where
  url : String
  deriving DecidableEq, Repr

structure LoginUrl where
  url : String
  forwardText : Option String
  botUsername : Option String
  requestWriteAccess : Option Bool
  deriving DecidableEq, Repr

structure SwitchInlineQueryChosenChat where
  query : Option String
  allowUserChats : Bool
  allowBotChats : Bool
  allowGroupChats : Bool
  allowChannelChats : Bool
  deriving DecidableEq, Repr

structure CopyTextButton where
  text : String
  deriving DecidableEq, Repr

structure DisabledButton where
  deriving DecidableEq, Repr

mutual

/-- mirrors rich_message.rs:83-87 -/
inductive RichText where
  | text (text : String)
  | list (items : List RichText)
  | object (object : RichTextObject)

/-- The structures of the variants are written out.
mirrors rich_message.rs:134-163, 395-487 -/
inductive RichTextObject where
  | bold (text : RichText)
  | italic (text : RichText)
  | underline (text : RichText)
  | strikethrough (text : RichText)
  | spoiler (text : RichText)
  | dateTime (text : RichText) (unixTime : Int64) (dateTimeFormat : String)
  | textMention (text : RichText) (user : User)
  | subscript (text : RichText)
  | superscript (text : RichText)
  | marked (text : RichText)
  | code (text : RichText)
  | customEmoji (customEmojiId alternativeText : String)
  | mathematicalExpression (expression : String)
  | url (text : RichText) (url : String)
  | emailAddress (text : RichText) (emailAddress : String)
  | phoneNumber (text : RichText) (phoneNumber : String)
  | bankCardNumber (text : RichText) (bankCardNumber : String)
  | mention (text : RichText) (username : String)
  | hashtag (text : RichText) (hashtag : String)
  | cashtag (text : RichText) (cashtag : String)
  | botCommand (text : RichText) (botCommand : String)
  | button (button : RichMessageButton)
  | anchor (name : String)
  | anchorLink (text : RichText) (anchorName : String)
  | reference (text : RichText) (name : String)
  | referenceLink (text : RichText) (referenceName : String)
  | unknown (value : Core.Value)

/-- mirrors rich_message.rs:22-34 -/
structure RichMessageButton where
  text : RichText
  style : Option String
  url : Option String
  callbackData : Option String
  webApp : Option WebAppInfo
  loginUrl : Option LoginUrl
  switchInlineQuery : Option String
  switchInlineQueryCurrentChat : Option String
  switchInlineQueryChosenChat : Option SwitchInlineQueryChosenChat
  copyText : Option CopyTextButton
  disabled : Option DisabledButton

end

/-- The text that an object carries. -/
def RichTextObject.texts : RichTextObject → List RichText
  | .bold text | .italic text | .underline text | .strikethrough text | .spoiler text
  | .dateTime text _ _ | .textMention text _ | .subscript text | .superscript text | .marked text | .code text
  | .url text _ | .emailAddress text _ | .phoneNumber text _ | .bankCardNumber text _ | .mention text _
  | .hashtag text _ | .cashtag text _ | .botCommand text _
  | .anchorLink text _ | .reference text _ | .referenceLink text _ => [text]
  | .button b => [b.text]
  | .customEmoji _ _ | .mathematicalExpression _ | .anchor _ | .unknown _ => []

/-- mirrors rich_message.rs:479-482 -/
structure RichBlockCaption where
  text : RichText
  credit : Option RichText

/-- mirrors rich_message.rs:486-493 -/
structure RichBlockTableCell where
  text : Option RichText
  isHeader : Option Bool
  colspan : Option UInt32
  rowspan : Option UInt32
  align : String
  valign : String

def RichBlockCaption.texts (caption : RichBlockCaption) : List RichText :=
  caption.text :: caption.credit.toList

/-! ## Rich blocks -/

mutual

/-- The structures of the variants are written out.
mirrors input_rich_message.rs:264-291, 359-556 -/
inductive InputRichBlock where
  | paragraph (text : RichText)
  | heading (text : RichText) (size : UInt8)
  | pre (text : RichText) (language : Option String)
  | footer (text : RichText)
  | divider
  | mathematicalExpression (expression : String)
  | anchor (name : String)
  | list (items : List InputRichBlockListItem)
  | blockquote (blocks : List InputRichBlock) (credit : Option RichText)
  | expandableBlockquote (text : RichText) (credit : Option RichText)
  | pullquote (text : RichText) (credit : Option RichText)
  | collage (blocks : List InputRichBlock) (caption : Option RichBlockCaption)
  | slideshow (blocks : List InputRichBlock) (caption : Option RichBlockCaption)
  | table (cells : List (List RichBlockTableCell)) (caption : Option RichText)
  | buttons (buttons : List RichMessageButton) (align : Option String)
  | document (document : InputMediaDocument) (caption : Option RichBlockCaption)
  | details (summary : RichText) (blocks : List InputRichBlock)
  | map (caption : Option RichBlockCaption)
  | animation (animation : InputMediaAnimation) (caption : Option RichBlockCaption)
  | audio (audio : InputMediaAudio) (caption : Option RichBlockCaption)
  | photo (photo : InputMediaPhoto) (caption : Option RichBlockCaption)
  | video (video : InputMediaVideo) (caption : Option RichBlockCaption)
  | voiceNote (voiceNote : InputMediaVoiceNote) (caption : Option RichBlockCaption)
  | thinking (text : RichText)

/-- mirrors input_rich_message.rs:413-420 -/
structure InputRichBlockListItem where
  blocks : List InputRichBlock

end

/-- mirrors input_rich_message.rs:19-33 -/
structure InputRichMessage where
  blocks : Option (List InputRichBlock)
  html : Option String
  markdown : Option String
  media : Option (List InputRichMessageMedia)

end Teloxide.Types
