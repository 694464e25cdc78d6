import Teloxide.Core.Check
import Teloxide.Types.RichMessage

/-!
# Validation of rich messages

`ValidateWith<RichMessageContext>` of `InputRichMessage`
(`crates/teloxide-core/src/requests/validation.rs`). The walkers push what they
descend into on a path and pop it on their way back; `?` leaves the path as it
is.
-/
namespace Teloxide.Requests

open Teloxide.Core Teloxide.Types

/-! ## Paths and errors -/

/-- mirrors validation.rs:5-10 -/
inductive RequestFieldPathSegment where
  | field (name : String)
  | index (index : Nat)
  deriving DecidableEq, Repr

/-- mirrors validation.rs:14-16 -/
structure RequestFieldPath where
  segments : List RequestFieldPathSegment
  deriving DecidableEq, Repr

namespace RequestFieldPath

/-- mirrors validation.rs:32-34 -/
def pushField (name : String) (path : RequestFieldPath) : RequestFieldPath := ⟨path.segments ++ [.field name]⟩

/-- mirrors validation.rs:37-39 -/
def pushIndex (index : Nat) (path : RequestFieldPath) : RequestFieldPath := ⟨path.segments ++ [.index index]⟩

/-- mirrors validation.rs:42-44 -/
def pop (path : RequestFieldPath) : RequestFieldPath := ⟨path.segments.dropLast⟩

/-- mirrors validation.rs:25-29 -/
def field (name : String) : RequestFieldPath := ⟨[.field name]⟩

@[simp] theorem pop_pushField (name : String) (path : RequestFieldPath) : (path.pushField name).pop = path := by
  simp [pop, pushField]

@[simp] theorem pop_pushIndex (index : Nat) (path : RequestFieldPath) : (path.pushIndex index).pop = path := by
  simp [pop, pushIndex]

end RequestFieldPath

/-- mirrors validation.rs:76-101 -/
inductive InvalidValueReason where
  | mustBeNonZero
  | mustBeInRange (min max : Nat)
  | mustHaveByteLength (min max : Nat)
  | mustHaveExactlyOneAction
  | mustBeOneOf (values : List String)
  | mustBeCallbackButton
  | mustHaveTextOrRichMessage
  | mustBeRichButtonLabel
  | mustBeUnset
  | mustBeAsciiIdentifier
  deriving DecidableEq, Repr

/-- mirrors validation.rs:134-152 -/
inductive RichMessageContext where
  | send
  | edit
  | editInline
  | ephemeralEdit
  | draft
  | inlineResult
  | guestResult
  | preparedMessage
  deriving DecidableEq, Repr

/-- mirrors validation.rs:172-195 -/
inductive RequestValidationError where
  | invalidValue (path : RequestFieldPath) (reason : InvalidValueReason)
  | unsupportedInContext (path : RequestFieldPath) (context : RichMessageContext)
  | directUploadNotAllowed (path : RequestFieldPath)
  deriving DecidableEq, Repr

/-- A `Result<(), RequestValidationError>`. -/
abbrev Verdict : Type := Except RequestValidationError Unit

/-- A walker, which has the path by mutable reference. -/
abbrev Walker : Type := Check RequestFieldPath RequestValidationError Unit

def pushField (name : String) : Walker := modify (·.pushField name)

def pushIndex (index : Nat) : Walker := modify (·.pushIndex index)

def pop : Walker := modify (·.pop)

/-! ## Files -/

/-- mirrors validation.rs:703-723 -/
def validateFile (file : InputFile) (context : RichMessageContext) (path : RequestFieldPath) : Verdict :=
  let allowed : Bool := match context with
    | .draft => file.sourceKind = .fileId
    | .editInline => file.sourceKind = .fileId || file.sourceKind = .url
    | _ => true
  if allowed then .ok () else .error (.directUploadNotAllowed path)

/-- mirrors validation.rs:690-701 -/
def validateOptionalFile (file : Option InputFile) (context : RichMessageContext) (field : String) : Walker :=
  Check.whenSome file fun file => do
    pushField field
    Check.reading (validateFile file context)
    pop

/-- mirrors validation.rs:615-624 -/
def validateAnimation (media : InputMediaAnimation) (context : RichMessageContext) : RequestFieldPath → Verdict :=
  Check.cloned do
    pushField "media"
    Check.reading (validateFile media.media context)
    pop
    validateOptionalFile media.thumbnail context "thumbnail"

/-- mirrors validation.rs:626-635 -/
def validateAudio (media : InputMediaAudio) (context : RichMessageContext) : RequestFieldPath → Verdict :=
  Check.cloned do
    pushField "media"
    Check.reading (validateFile media.media context)
    pop
    validateOptionalFile media.thumbnail context "thumbnail"

/-- mirrors validation.rs:637-646 -/
def validateDocument (media : InputMediaDocument) (context : RichMessageContext) : RequestFieldPath → Verdict :=
  Check.cloned do
    pushField "media"
    Check.reading (validateFile media.media context)
    pop
    validateOptionalFile media.thumbnail context "thumbnail"

/-- mirrors validation.rs:648-656 -/
def validatePhoto (media : InputMediaPhoto) (context : RichMessageContext) : RequestFieldPath → Verdict :=
  Check.cloned do
    pushField "media"
    Check.reading (validateFile media.media context)

/-- mirrors validation.rs:658-668 -/
def validateVideo (media : InputMediaVideo) (context : RichMessageContext) : RequestFieldPath → Verdict :=
  Check.cloned do
    pushField "media"
    Check.reading (validateFile media.media context)
    pop
    validateOptionalFile media.thumbnail context "thumbnail"
    validateOptionalFile media.cover context "cover"

/-- mirrors validation.rs:670-678 -/
def validateVoiceNote (media : InputMediaVoiceNote) (context : RichMessageContext) : RequestFieldPath → Verdict :=
  Check.cloned do
    pushField "media"
    Check.reading (validateFile media.media context)

/-- mirrors validation.rs:598-613 -/
def validateRichMediaContent (media : InputRichMessageMediaContent) (context : RichMessageContext) :
    RequestFieldPath → Verdict :=
  match media with
  | .animation value => validateAnimation value context
  | .audio value => validateAudio value context
  | .document value => validateDocument value context
  | .photo value => validatePhoto value context
  | .video value => validateVideo value context
  | .voiceNote value => validateVoiceNote value context

/-! ## Buttons -/

/-- mirrors validation.rs:848 -/
def buttonStyles : List String := ["danger", "success", "primary", "link"]

/-- mirrors validation.rs:849 -/
def buttonAligns : List String := ["left", "center", "right"]

mutual

/-- mirrors validation.rs:963-993 -/
def validateRichButtonLabel (text : RichText) (path : RequestFieldPath) : Verdict :=
  match text with
  | .text _ => .ok ()
  | .list items => validateRichButtonLabels 0 items path
  | .object (.customEmoji _ _) => .ok ()
  | .object (.dateTime text _ _) => validateRichButtonLabel text ((path.pushField "date_time").pushField "text")
  | .object _ => .error (.invalidValue path .mustBeRichButtonLabel)

/-- The loop over the items. -/
def validateRichButtonLabels (index : Nat) (items : List RichText) (path : RequestFieldPath) : Verdict :=
  match items with
  | [] => .ok ()
  | item :: items => do
    validateRichButtonLabel item (path.pushIndex index)
    validateRichButtonLabels (index + 1) items path

end

/-- The actions of a button, by whether they are there. -/
def actions (button : RichMessageButton) : List Bool :=
  [button.url.isSome, button.callbackData.isSome, button.webApp.isSome, button.loginUrl.isSome,
    button.switchInlineQuery.isSome, button.switchInlineQueryCurrentChat.isSome,
    button.switchInlineQueryChosenChat.isSome, button.copyText.isSome, button.disabled.isSome]

/-- mirrors validation.rs:885-961 -/
def validateButton (button : RichMessageButton) (context : RichMessageContext) (path : RequestFieldPath) : Verdict := do
  validateRichButtonLabel button.text (path.pushField "text")
  let actionCount := ((actions button).filter id).length
  Check.ensure (actionCount = 1) (.invalidValue path .mustHaveExactlyOneAction)
  Check.whenSome button.style fun style => do
    Check.ensure (buttonStyles.contains style) (.invalidValue (path.pushField "style") (.mustBeOneOf buttonStyles))
    Check.ensure (!(style = "link" && button.callbackData.isNone))
      (.invalidValue (path.pushField "style") .mustBeCallbackButton)
  Check.whenSome button.callbackData fun callbackData =>
    Check.ensure (1 ≤ callbackData.utf8ByteSize && callbackData.utf8ByteSize ≤ 64)
      (.invalidValue (path.pushField "callback_data") (.mustHaveByteLength 1 64))
  Check.whenSome button.loginUrl fun loginUrl => do
    Check.ensure loginUrl.botUsername.isNone
      (.invalidValue ((path.pushField "login_url").pushField "bot_username") .mustBeUnset)
    Check.ensure (context ≠ .ephemeralEdit) (.unsupportedInContext (path.pushField "login_url") context)

/-- mirrors validation.rs:851-883 -/
def validateButtons (buttons : List RichMessageButton) (align : Option String) (context : RichMessageContext)
    (path : RequestFieldPath) : Verdict := do
  let buttonsPath := path.pushField "buttons"
  Check.ensure (1 ≤ buttons.length && buttons.length ≤ 8) (.invalidValue buttonsPath (.mustBeInRange 1 8))
  Check.whenSome align fun align =>
    Check.ensure (buttonAligns.contains align) (.invalidValue (path.pushField "align") (.mustBeOneOf buttonAligns))
  Check.forIndexed (fun index button => validateButton button context (buttonsPath.pushIndex index)) 0 buttons

/-! ## Rich text -/

/-- What `validate_nested_rich_text` does around the text.
mirrors validation.rs:584-596 -/
def nestedRichText (object : String) (text : Walker) : Walker := do
  pushField object
  pushField "text"
  text
  pop
  pop

mutual

/-- mirrors validation.rs:493-582 -/
def validateRichTextAt (text : RichText) (context : RichMessageContext) : Walker :=
  match text with
  | .text _ => pure ()
  | .list items => validateRichTexts 0 items context
  | .object (.bold text) => nestedRichText "bold" (validateRichTextAt text context)
  | .object (.italic text) => nestedRichText "italic" (validateRichTextAt text context)
  | .object (.underline text) => nestedRichText "underline" (validateRichTextAt text context)
  | .object (.strikethrough text) => nestedRichText "strikethrough" (validateRichTextAt text context)
  | .object (.spoiler text) => nestedRichText "spoiler" (validateRichTextAt text context)
  | .object (.dateTime text _ _) => nestedRichText "date_time" (validateRichTextAt text context)
  | .object (.textMention text _) => nestedRichText "text_mention" (validateRichTextAt text context)
  | .object (.subscript text) => nestedRichText "subscript" (validateRichTextAt text context)
  | .object (.superscript text) => nestedRichText "superscript" (validateRichTextAt text context)
  | .object (.marked text) => nestedRichText "marked" (validateRichTextAt text context)
  | .object (.code text) => nestedRichText "code" (validateRichTextAt text context)
  | .object (.url text _) => nestedRichText "url" (validateRichTextAt text context)
  | .object (.emailAddress text _) => nestedRichText "email_address" (validateRichTextAt text context)
  | .object (.phoneNumber text _) => nestedRichText "phone_number" (validateRichTextAt text context)
  | .object (.bankCardNumber text _) => nestedRichText "bank_card_number" (validateRichTextAt text context)
  | .object (.mention text _) => nestedRichText "mention" (validateRichTextAt text context)
  | .object (.hashtag text _) => nestedRichText "hashtag" (validateRichTextAt text context)
  | .object (.cashtag text _) => nestedRichText "cashtag" (validateRichTextAt text context)
  | .object (.botCommand text _) => nestedRichText "bot_command" (validateRichTextAt text context)
  | .object (.button button) => do
    pushField "button"
    Check.reading fun path => validateButton button context (path.pushField "button")
    pop
  | .object (.customEmoji _ _) | .object (.mathematicalExpression _) | .object (.anchor _)
  | .object (.anchorLink _ _) | .object (.reference _ _) | .object (.referenceLink _ _)
  | .object (.unknown _) => pure ()

/-- The loop over the items. -/
def validateRichTexts (index : Nat) (items : List RichText) (context : RichMessageContext) : Walker :=
  match items with
  | [] => pure ()
  | item :: items => do
    pushIndex index
    validateRichTextAt item context
    pop
    validateRichTexts (index + 1) items context

end

/-- mirrors validation.rs:467-478 -/
def validateOptionalRichText (text : Option RichText) (context : RichMessageContext) (field : String) : Walker :=
  Check.whenSome text fun text => do
    pushField field
    validateRichTextAt text context
    pop

/-- mirrors validation.rs:452-465 -/
def validateBlockText (text : RichText) (context : RichMessageContext) (block field : String) : Walker := do
  pushField block
  pushField field
  validateRichTextAt text context
  pop
  pop

/-- mirrors validation.rs:480-491 -/
def validateOptionalCaption (caption : Option RichBlockCaption) (context : RichMessageContext) : Walker :=
  Check.whenSome caption fun caption => do
    pushField "caption"
    Check.reading (Check.cloned (validateRichTextAt caption.text context))
    validateOptionalRichText caption.credit context "credit"
    pop

/-! ## Blocks -/

/-- A block that has a caption and media.
mirrors validation.rs:370-399 -/
def validateCaptioned (field : String) (caption : Option RichBlockCaption) (media : RequestFieldPath → Verdict)
    (context : RichMessageContext) : Walker := do
  pushField field
  validateOptionalCaption caption context
  Check.reading media
  pop

mutual

/-- mirrors validation.rs:298-450 -/
def validateBlock (block : InputRichBlock) (context : RichMessageContext) : Walker :=
  match block with
  | .paragraph text => validateBlockText text context "paragraph" "text"
  | .heading text _ => validateBlockText text context "heading" "text"
  | .pre text _ => validateBlockText text context "pre" "text"
  | .footer text => validateBlockText text context "footer" "text"
  | .list items => do
    pushField "list"
    pushField "items"
    validateItems 0 items context
    pop
    pop
  | .blockquote blocks credit => do
    pushField "blockquote"
    validateOptionalRichText credit context "credit"
    pushField "blocks"
    validateBlocks 0 blocks context
    pop
    pop
  | .document document caption => do
    pushField "document"
    pushField "media"
    Check.reading (validateFile document.media context)
    pop
    validateOptionalCaption caption context
    validateOptionalFile document.thumbnail context "thumbnail"
    pop
  | .collage blocks caption => do
    pushField "collage"
    validateOptionalCaption caption context
    pushField "blocks"
    validateBlocks 0 blocks context
    pop
    pop
  | .slideshow blocks caption => do
    pushField "slideshow"
    validateOptionalCaption caption context
    pushField "blocks"
    validateBlocks 0 blocks context
    pop
    pop
  | .details summary blocks => do
    pushField "details"
    validateBlockText summary context "details" "summary"
    pushField "blocks"
    validateBlocks 0 blocks context
    pop
    pop
  | .animation animation caption => validateCaptioned "animation" caption (validateAnimation animation context) context
  | .audio audio caption => validateCaptioned "audio" caption (validateAudio audio context) context
  | .photo photo caption => validateCaptioned "photo" caption (validatePhoto photo context) context
  | .video video caption => validateCaptioned "video" caption (validateVideo video context) context
  | .voiceNote voiceNote caption =>
    validateCaptioned "voice_note" caption (validateVoiceNote voiceNote context) context
  | .buttons buttons align => Check.reading (validateButtons buttons align context)
  | .thinking text =>
    if context ≠ .draft then Check.reading fun path => .error (.unsupportedInContext path context)
    else validateBlockText text context "thinking" "text"
  | .expandableBlockquote text credit => do
    pushField "expandable_blockquote"
    pushField "text"
    validateRichTextAt text context
    pop
    validateOptionalRichText credit context "credit"
    pop
  | .pullquote text credit => do
    pushField "pullquote"
    pushField "text"
    validateRichTextAt text context
    pop
    validateOptionalRichText credit context "credit"
    pop
  | .table cells caption => do
    pushField "table"
    Check.forIndexed (fun rowIndex row => do
      pushField "cells"
      pushIndex rowIndex
      Check.forIndexed (fun cellIndex (cell : RichBlockTableCell) => do
        pushIndex cellIndex
        validateOptionalRichText cell.text context "text"
        pop) 0 row
      pop
      pop) 0 cells
    validateOptionalRichText caption context "caption"
    pop
  | .map caption => do
    pushField "map"
    validateOptionalCaption caption context
    pop
  | .divider | .mathematicalExpression _ | .anchor _ => pure ()

/-- mirrors validation.rs:286-296 -/
def validateBlocks (index : Nat) (blocks : List InputRichBlock) (context : RichMessageContext) : Walker :=
  match blocks with
  | [] => pure ()
  | block :: blocks => do
    pushIndex index
    validateBlock block context
    pop
    validateBlocks (index + 1) blocks context

/-- The loop over the items of a list.
mirrors validation.rs:321-327 -/
def validateItems (index : Nat) (items : List InputRichBlockListItem) (context : RichMessageContext) : Walker :=
  match items with
  | [] => pure ()
  | { blocks } :: items => do
    pushIndex index
    pushField "blocks"
    validateBlocks 0 blocks context
    pop
    pop
    validateItems (index + 1) items context

end

/-! ## Messages -/

/-- Bytes of characters that are not ASCII are not alphanumeric either.
mirrors validation.rs:262-270 -/
def isAsciiIdentifier (id : String) : Bool :=
  !(id.isEmpty || 64 < id.utf8ByteSize || !id.toList.all fun c => c.isAlphanum || c = '_' || c = '-')

/-- mirrors validation.rs:244-284 -/
def validateRichMessageAt (message : InputRichMessage) (context : RichMessageContext) : Walker := do
  Check.whenSome message.blocks fun blocks => do
    pushField "blocks"
    validateBlocks 0 blocks context
    pop
  Check.whenSome message.media fun media => do
    pushField "media"
    Check.forIndexed (fun index (media : InputRichMessageMedia) => do
      pushIndex index
      pushField "id"
      Check.reading fun path =>
        Check.ensure (isAsciiIdentifier media.id) (.invalidValue path .mustBeAsciiIdentifier)
      pop
      pushField "media"
      Check.reading (validateRichMediaContent media.media context)
      pop
      pop) 0 media
    pop

/-- mirrors validation.rs:725-730 -/
def validateWith (message : InputRichMessage) (context : RichMessageContext) : Verdict :=
  Check.cloned (validateRichMessageAt message context) (.field "rich_message")

end Teloxide.Requests
