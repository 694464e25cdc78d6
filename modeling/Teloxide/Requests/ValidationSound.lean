import Teloxide.Requests.Validation

/-!
# What validation accepts

* `ElementsValid context message`: at every depth no element is one that the
  context forbids, and every button and every media id is well formed.
* `RowsValid message`: each row of buttons has one to eight of them and a known
  alignment.
* `validateWith_iff`: a message is accepted exactly when both hold, as far as
  the texts of anchor links, references and reference links go, into which the
  walker does not look; and the path comes back as it was.
* `validateWith_not_elementsValid`: `ElementsValid` alone is not what is decided.
-/
namespace Teloxide.Types

/-! ## What lies under what -/

def RichText.children : RichText → List RichText
  | .text _ => []
  | .list items => items
  | .object o => o.texts

namespace InputRichBlock

def children : InputRichBlock → List InputRichBlock
  | .list items => items.flatMap (·.blocks)
  | .blockquote blocks _ | .collage blocks _ | .slideshow blocks _ | .details _ blocks => blocks
  | _ => []

def isThinking : InputRichBlock → Bool
  | .thinking _ => true
  | _ => false

/-- The texts of a block itself, the labels of its buttons included. -/
def texts : InputRichBlock → List RichText
  | .paragraph text | .heading text _ | .pre text _ | .footer text | .thinking text | .details text _ => [text]
  | .blockquote _ credit => credit.toList
  | .expandableBlockquote text credit | .pullquote text credit => text :: credit.toList
  | .table cells caption => cells.flatten.filterMap (·.text) ++ caption.toList
  | .collage _ caption | .slideshow _ caption | .document _ caption | .map caption | .animation _ caption
  | .audio _ caption | .photo _ caption | .video _ caption | .voiceNote _ caption =>
    caption.toList.flatMap (·.texts)
  | .buttons row _ => row.map (·.text)
  | .divider | .mathematicalExpression _ | .anchor _ | .list _ => []

def buttonRow : InputRichBlock → List RichMessageButton
  | .buttons row _ => row
  | _ => []

end InputRichBlock

/-- The files of a block itself. -/
def InputRichBlock.ownFiles : InputRichBlock → List InputFile
  | .document media _ => media.files
  | .animation media _ => media.files
  | .audio media _ => media.files
  | .photo media _ => [media.media]
  | .video media _ => media.files
  | .voiceNote media _ => [media.media]
  | _ => []

end Teloxide.Types

namespace Teloxide.Requests

open Teloxide.Core Teloxide.Types

/-! ## What is valid -/

/-- The file sources a context allows. -/
def FileAllowed (context : RichMessageContext) (file : InputFile) : Prop :=
  match context with
  | .draft => file.sourceKind = .fileId
  | .editInline => file.sourceKind = .fileId ∨ file.sourceKind = .url
  | _ => True

/-- Plain text, custom emoji and date-time objects. -/
def LabelNode : RichText → Prop
  | .text _ | .list _ | .object (.customEmoji _ _) | .object (.dateTime _ _ _) => True
  | .object _ => False

structure ButtonValid (context : RichMessageContext) (button : RichMessageButton) : Prop where
  label : Everywhere RichText.children LabelNode button.text
  action : (actions button).count true = 1
  style : ∀ style ∈ button.style, style ∈ buttonStyles ∧ (style = "link" → button.callbackData ≠ none)
  callbackData : ∀ data ∈ button.callbackData, 1 ≤ data.utf8ByteSize ∧ data.utf8ByteSize ≤ 64
  loginUrl : ∀ loginUrl ∈ button.loginUrl, loginUrl.botUsername = none ∧ context ≠ .ephemeralEdit

/-- What a rich text may be where it stands. -/
def TextValid (context : RichMessageContext) : RichText → Prop
  | .object (.button button) => ButtonValid context button
  | _ => True

structure BlockValid (context : RichMessageContext) (block : InputRichBlock) : Prop where
  thinking : block.isThinking = true → context = .draft
  files : ∀ file ∈ block.ownFiles, FileAllowed context file
  buttons : ∀ button ∈ block.buttonRow, ButtonValid context button
  texts : ∀ text ∈ block.texts, Everywhere RichText.children (TextValid context) text

/-- The identifiers of media. -/
def MediaIdValid (id : String) : Prop :=
  1 ≤ id.utf8ByteSize ∧ id.utf8ByteSize ≤ 64 ∧ ∀ c ∈ id.toList, c.isAlphanum ∨ c = '_' ∨ c = '-'

structure MediaValid (context : RichMessageContext) (media : InputRichMessageMedia) : Prop where
  id : MediaIdValid media.id
  files : ∀ file ∈ media.media.files, FileAllowed context file

structure ElementsValid (context : RichMessageContext) (message : InputRichMessage) : Prop where
  blocks : ∀ blocks ∈ message.blocks, ∀ block ∈ blocks, Everywhere InputRichBlock.children (BlockValid context) block
  media : ∀ media ∈ message.media, ∀ medium ∈ media, MediaValid context medium

/-- A row of buttons. -/
def RowValid : InputRichBlock → Prop
  | .buttons buttons align =>
    (1 ≤ buttons.length ∧ buttons.length ≤ 8) ∧ ∀ value ∈ align, value ∈ buttonAligns
  | _ => True

def RowsValid (message : InputRichMessage) : Prop :=
  ∀ blocks ∈ message.blocks, ∀ block ∈ blocks, Everywhere InputRichBlock.children RowValid block

/-- The text of an anchor link, a reference or a reference link. -/
def ReferenceValid (context : RichMessageContext) : RichText → Prop
  | .object (.anchorLink text _) | .object (.reference text _) | .object (.referenceLink text _) =>
    Everywhere RichText.children (TextValid context) text
  | _ => True

/-- No button under an anchor link, a reference or a reference link is invalid. -/
def ReferencesValid (context : RichMessageContext) (message : InputRichMessage) : Prop :=
  ∀ blocks ∈ message.blocks, ∀ block ∈ blocks, Everywhere InputRichBlock.children
    (fun block => ∀ text ∈ block.texts, Everywhere RichText.children (ReferenceValid context) text) block

/-! ## Induction on texts and blocks -/

theorem sizeOf_child {text c : RichText} (h : c ∈ text.children) : sizeOf c < sizeOf text := by
  cases text with
  | text _ => cases h
  | list items =>
    replace h : c ∈ items := h
    have := List.sizeOf_lt_of_mem h
    simp only [RichText.list.sizeOf_spec]
    omega
  | object o =>
    cases o with
    | button b =>
      obtain rfl := List.mem_singleton.1 h
      cases b
      simp only [RichText.object.sizeOf_spec, RichTextObject.button.sizeOf_spec, RichMessageButton.mk.sizeOf_spec]
      omega
    | customEmoji | mathematicalExpression | anchor | unknown => cases h
    | _ =>
      obtain rfl := List.mem_singleton.1 h
      simp
      try omega

theorem text_induction {P : RichText → Prop} (h : ∀ text, (∀ c ∈ text.children, P c) → P text) (text : RichText) :
    P text := by
  induction hn : sizeOf text using Nat.strongRecOn generalizing text with
  | ind n ih => exact h text fun c hc => ih (sizeOf c) (hn ▸ sizeOf_child hc) c rfl

theorem sizeOf_childBlock {block c : InputRichBlock} (h : c ∈ block.children) : sizeOf c < sizeOf block := by
  cases block with
  | list items =>
    obtain ⟨item, hitem, hc⟩ := List.mem_flatMap.1 h
    have h₁ := List.sizeOf_lt_of_mem hitem
    have h₂ := List.sizeOf_lt_of_mem hc
    cases item
    simp only [InputRichBlock.list.sizeOf_spec, InputRichBlockListItem.mk.sizeOf_spec] at h₁ h₂ ⊢
    omega
  | blockquote blocks _ | collage blocks _ | slideshow blocks _ | details _ blocks =>
    replace h : c ∈ blocks := h
    have := List.sizeOf_lt_of_mem h
    simp
    omega
  | _ => cases h

theorem block_induction {P : InputRichBlock → Prop} (h : ∀ block, (∀ c ∈ block.children, P c) → P block)
    (block : InputRichBlock) : P block := by
  induction hn : sizeOf block using Nat.strongRecOn generalizing block with
  | ind n ih => exact h block fun c hc => ih (sizeOf c) (hn ▸ sizeOf_childBlock hc) c rfl

/-! ## Buttons -/

theorem validateRichButtonLabels_decides {items : List RichText} {path : RequestFieldPath}
    (h : ∀ item ∈ items, ∀ path, Decides (validateRichButtonLabel item path) (Everywhere RichText.children LabelNode item))
    (index : Nat) :
    Decides (validateRichButtonLabels index items path) (∀ item ∈ items, Everywhere RichText.children LabelNode item) := by
  induction items generalizing index with
  | nil =>
    rw [validateRichButtonLabels]
    exact decides_ok.congr (by simp)
  | cons item items ih =>
    rw [validateRichButtonLabels]
    have hl := ih (fun i hi => h i (List.mem_cons_of_mem _ hi)) (index + 1)
    exact ((h item List.mem_cons_self _).seq hl).congr List.forall_mem_cons.symm

theorem validateRichButtonLabel_decides (text : RichText) : ∀ path,
    Decides (validateRichButtonLabel text path) (Everywhere RichText.children LabelNode text) := by
  induction text using text_induction with
  | h text ih =>
    intro path
    have heq := everywhere_iff (f := RichText.children) (P := LabelNode) (a := text)
    cases text with
    | text _ =>
      rw [validateRichButtonLabel]
      exact decides_ok.congr (by rw [heq]; simp [LabelNode, RichText.children])
    | list items =>
      rw [validateRichButtonLabel]
      exact (validateRichButtonLabels_decides ih 0).congr (by rw [heq]; simp [LabelNode, RichText.children])
    | object o =>
      cases o with
      | customEmoji _ _ =>
        rw [validateRichButtonLabel]
        exact decides_ok.congr (by rw [heq]; simp [LabelNode, RichText.children, RichTextObject.texts])
      | dateTime text _ _ =>
        rw [validateRichButtonLabel]
        exact (ih text List.mem_cons_self _).congr
          (by rw [heq]; simp [LabelNode, RichText.children, RichTextObject.texts])
      | _ =>
        exact (decides_error (RequestValidationError.invalidValue path .mustBeRichButtonLabel)).congr (by rw [heq]; simp [LabelNode])

theorem validateButton_decides (button : RichMessageButton) (context : RichMessageContext) (path : RequestFieldPath) :
    Decides (validateButton button context path) (ButtonValid context button) := by
  have hcount : (actions button).count true = ((actions button).filter id).length := by
    simp [List.count_eq_length_filter, Function.id_def]
  unfold validateButton
  refine Decides.congr (.seq (validateRichButtonLabel_decides _ _) (.seq (decides_ensure _ _)
    (.seq (decides_whenSome (q := fun style =>
        style ∈ buttonStyles ∧ (style = "link" → button.callbackData ≠ none)) ?_)
      (.seq (decides_whenSome (q := fun data => 1 ≤ data.utf8ByteSize ∧ data.utf8ByteSize ≤ 64) ?_)
        (decides_whenSome (q := fun loginUrl => loginUrl.botUsername = none ∧ context ≠ .ephemeralEdit) ?_))))) ?_
  · intro style _
    exact ((decides_ensure _ _).seq (decides_ensure _ _)).congr (by cases button.callbackData <;> simp)
  · intro data _
    exact (decides_ensure _ _).congr (by simp)
  · intro loginUrl _
    exact ((decides_ensure _ _).seq (decides_ensure _ _)).congr (by simp)
  · constructor
    · rintro ⟨h₁, h₂, h₃, h₄, h₅⟩
      exact ⟨h₁, hcount.trans (by simpa using h₂), h₃, h₄, h₅⟩
    · rintro ⟨h₁, h₂, h₃, h₄, h₅⟩
      exact ⟨h₁, by simpa using hcount.symm.trans h₂, h₃, h₄, h₅⟩

/-- A legal label has no buttons in it. -/
theorem label_valid {context : RichMessageContext} {text : RichText}
    (h : Everywhere RichText.children LabelNode text) : Everywhere RichText.children (TextValid context) text := by
  intro t ht
  have hnode := h t ht
  cases t with
  | object o => cases o <;> trivial
  | _ => trivial

theorem validateButtons_decides (buttons : List RichMessageButton) (align : Option String) (context : RichMessageContext)
    (path : RequestFieldPath) : Decides (validateButtons buttons align context path)
      (RowValid (.buttons buttons align) ∧ ∀ button ∈ buttons, ButtonValid context button) := by
  unfold validateButtons
  refine Decides.congr (.seq (decides_ensure _ _) (.seq (decides_whenSome (q := (· ∈ buttonAligns)) ?_)
    (decides_forIndexed (q := ButtonValid context) 0 ?_))) ?_
  · intro value _
    exact (decides_ensure _ _).congr (by simp)
  · intro index button _
    exact validateButton_decides button context _
  · simp [RowValid, and_assoc]

/-! ## Texts -/

/-- What the walker looks into. -/
def walked : RichText → List RichText
  | .object (.anchorLink _ _) | .object (.reference _ _) | .object (.referenceLink _ _) => []
  | text => text.children

theorem walked_subset : ∀ text, ∀ c ∈ walked text, c ∈ text.children := by
  intro text c hc
  unfold walked at hc
  split at hc <;> first | cases hc | exact hc

theorem walks_pushField (name : String) : Walks (pushField name) True (·.pushField name) := walks_modify _

theorem walks_pushIndex (index : Nat) : Walks (pushIndex index) True (·.pushIndex index) := walks_modify _

theorem walks_pop : Walks pop True (·.pop) := walks_modify _

theorem walks_nestedRichText {f : Walker} {p : Prop} (h : Walks f p id) (object : String) :
    Walks (nestedRichText object f) p id :=
  ((walks_pushField object).seq ((walks_pushField "text").seq (h.seq (walks_pop.seq walks_pop)))).congr (by simp)
    (by simp)

theorem walks_validateRichTexts {context : RichMessageContext} {items : List RichText} {q : RichText → Prop}
    (h : ∀ item ∈ items, Walks (validateRichTextAt item context) (q item) id) (index : Nat) :
    Walks (validateRichTexts index items context) (∀ item ∈ items, q item) id := by
  induction items generalizing index with
  | nil =>
    rw [validateRichTexts]
    exact walks_pure.congr (by simp) fun _ => rfl
  | cons item items ih =>
    rw [validateRichTexts]
    have hl := ih (fun i hi => h i (List.mem_cons_of_mem _ hi)) (index + 1)
    exact ((walks_pushIndex index).seq ((h item List.mem_cons_self).seq (walks_pop.seq hl))).congr (by simp) (by simp)

/-- The walker decides all it looks into. -/
theorem walks_validateRichTextAt (context : RichMessageContext) (text : RichText) :
    Walks (validateRichTextAt text context) (Everywhere walked (TextValid context) text) id := by
  induction text using text_induction with
  | h text ih =>
    have heq := everywhere_iff (f := walked) (P := TextValid context) (a := text)
    cases text with
    | text _ =>
      rw [validateRichTextAt]
      exact walks_pure.congr (by rw [heq]; simp [TextValid, walked, RichText.children]) fun _ => rfl
    | list items =>
      rw [validateRichTextAt]
      exact (walks_validateRichTexts ih 0).congr (by rw [heq]; simp [TextValid, walked, RichText.children]) fun _ => rfl
    | object o =>
      cases o with
      | button b =>
        rw [validateRichTextAt]
        have hbutton := (walks_pushField "button").seq ((walks_reading fun path =>
          validateButton_decides b context (path.pushField "button")).seq walks_pop)
        refine hbutton.congr ?_ (by simp)
        have hlabel : ButtonValid context b → Everywhere walked (TextValid context) b.text := fun h =>
          (label_valid h.label).mono walked_subset
        rw [heq]
        simpa [TextValid, walked, RichText.children, RichTextObject.texts] using hlabel
      | customEmoji | mathematicalExpression | anchor | unknown | anchorLink | reference | referenceLink =>
        rw [validateRichTextAt]
        exact walks_pure.congr (by rw [heq]; simp [TextValid, walked, RichText.children, RichTextObject.texts])
          fun _ => rfl
      | _ =>
        rw [validateRichTextAt]
        refine (walks_nestedRichText (ih _ List.mem_cons_self) _).congr ?_ fun _ => rfl
        rw [heq]
        simp [TextValid, walked, RichText.children, RichTextObject.texts]

/-- Where the references are valid, what is seen is all there is. -/
theorem everywhere_walked {context : RichMessageContext} (text : RichText) :
    Everywhere RichText.children (ReferenceValid context) text →
      (Everywhere walked (TextValid context) text ↔ Everywhere RichText.children (TextValid context) text) := by
  intro hrefs
  refine ⟨?_, fun h => h.mono walked_subset⟩
  induction text using text_induction with
  | h text ih =>
    obtain ⟨href, hbelow⟩ := everywhere_iff.1 hrefs
    intro hseen
    obtain ⟨hvalid, hwalked⟩ := everywhere_iff.1 hseen
    refine everywhere_iff.2 ⟨hvalid, fun c hc => ?_⟩
    by_cases hw : c ∈ walked text
    · exact ih c hc (hbelow c hc) (hwalked c hw)
    · -- `c` is the text of a reference
      unfold walked at hw
      split at hw
      · obtain rfl := List.mem_singleton.1 hc
        exact href
      · obtain rfl := List.mem_singleton.1 hc
        exact href
      · obtain rfl := List.mem_singleton.1 hc
        exact href
      · exact absurd hc hw

section Parts

variable (context : RichMessageContext)

theorem walks_validateOptionalRichText (text : Option RichText) (field : String) :
    Walks (validateOptionalRichText text context field) (∀ t ∈ text, Everywhere walked (TextValid context) t) id := by
  refine walks_whenSome fun t _ => ?_
  exact ((walks_pushField field).seq ((walks_validateRichTextAt context t).seq walks_pop)).congr (by simp) (by simp)

theorem walks_validateBlockText (text : RichText) (block field : String) :
    Walks (validateBlockText text context block field) (Everywhere walked (TextValid context) text) id :=
  ((walks_pushField block).seq ((walks_pushField field).seq ((walks_validateRichTextAt context text).seq
    (walks_pop.seq walks_pop)))).congr (by simp) (by simp)

theorem walks_validateOptionalCaption (caption : Option RichBlockCaption) :
    Walks (validateOptionalCaption caption context)
      (∀ t ∈ caption.toList.flatMap (·.texts), Everywhere walked (TextValid context) t) id := by
  have hcaption := walks_whenSome (o := caption) fun c _ =>
    ((walks_pushField "caption").seq ((walks_reading (walks_validateRichTextAt context c.text).cloned).seq
      ((walks_validateOptionalRichText context c.credit "credit").seq walks_pop))).congr Iff.rfl (by simp)
  refine hcaption.congr ?_ fun _ => rfl
  cases caption <;> simp [RichBlockCaption.texts]

theorem validateFile_decides (file : InputFile) (path : RequestFieldPath) :
    Decides (validateFile file context path) (FileAllowed context file) := by
  unfold validateFile FileAllowed Decides
  cases context <;> cases file.sourceKind <;> simp

theorem walks_validateOptionalFile (file : Option InputFile) (field : String) :
    Walks (validateOptionalFile file context field) (∀ f ∈ file, FileAllowed context f) id := by
  refine walks_whenSome fun f _ => ?_
  exact ((walks_pushField field).seq ((walks_reading (validateFile_decides context f)).seq walks_pop)).congr (by simp)
    (by simp)

/-- A media file and its thumbnail. -/
theorem validateThumbnailed_decides (media : InputFile) (thumbnail : Option InputFile) (path : RequestFieldPath) :
    Decides (Check.cloned (do
      pushField "media"
      Check.reading (validateFile media context)
      pop
      validateOptionalFile thumbnail context "thumbnail") path)
      (∀ f ∈ media :: thumbnail.toList, FileAllowed context f) := by
  have h := (walks_pushField "media").seq ((walks_reading (validateFile_decides context media)).seq
    (walks_pop.seq (walks_validateOptionalFile context thumbnail "thumbnail")))
  refine (h.cloned path).congr ?_
  simp

theorem validateMediaFile_decides (media : InputFile) (path : RequestFieldPath) :
    Decides (Check.cloned (do
      pushField "media"
      Check.reading (validateFile media context)) path) (∀ f ∈ [media], FileAllowed context f) := by
  have h := (walks_pushField "media").seq (walks_reading (validateFile_decides context media))
  refine (h.cloned path).congr ?_
  simp

theorem validateVideo_decides (media : InputMediaVideo) (path : RequestFieldPath) :
    Decides (validateVideo media context path) (∀ f ∈ media.files, FileAllowed context f) := by
  have h := (walks_pushField "media").seq ((walks_reading (validateFile_decides context media.media)).seq
    (walks_pop.seq ((walks_validateOptionalFile context media.thumbnail "thumbnail").seq
      (walks_validateOptionalFile context media.cover "cover"))))
  refine (h.cloned path).congr ?_
  simp [InputMediaVideo.files, or_imp, forall_and]

theorem validateRichMediaContent_decides (media : InputRichMessageMediaContent) (path : RequestFieldPath) :
    Decides (validateRichMediaContent media context path) (∀ f ∈ media.files, FileAllowed context f) := by
  cases media with
  | animation m => exact validateThumbnailed_decides context m.media m.thumbnail path
  | audio m => exact validateThumbnailed_decides context m.media m.thumbnail path
  | document m => exact validateThumbnailed_decides context m.media m.thumbnail path
  | photo m => exact validateMediaFile_decides context m.media path
  | video m => exact validateVideo_decides context m path
  | voiceNote m => exact validateMediaFile_decides context m.media path

end Parts

/-! ## Blocks -/

/-- What the walker decides of a block itself. -/
structure BlockSeen (context : RichMessageContext) (block : InputRichBlock) : Prop where
  thinking : block.isThinking = true → context = .draft
  files : ∀ file ∈ block.ownFiles, FileAllowed context file
  buttons : ∀ button ∈ block.buttonRow, ButtonValid context button
  row : RowValid block
  texts : ∀ text ∈ block.texts, Everywhere walked (TextValid context) text

theorem blockSeen_iff {context : RichMessageContext} {block : InputRichBlock} :
    BlockSeen context block ↔ (block.isThinking = true → context = .draft) ∧
      (∀ file ∈ block.ownFiles, FileAllowed context file) ∧ (∀ button ∈ block.buttonRow, ButtonValid context button) ∧
      RowValid block ∧ ∀ text ∈ block.texts, Everywhere walked (TextValid context) text :=
  ⟨fun h => ⟨h.thinking, h.files, h.buttons, h.row, h.texts⟩, fun ⟨h₁, h₂, h₃, h₄, h₅⟩ => ⟨h₁, h₂, h₃, h₄, h₅⟩⟩

/-- A block of which only the texts are checked. -/
theorem everywhere_texts {context : RichMessageContext} {block : InputRichBlock} (ht : block.isThinking = false)
    (hf : block.ownFiles = []) (hb : block.buttonRow = []) (hr : RowValid block) :
    Everywhere InputRichBlock.children (BlockSeen context) block ↔
      (∀ text ∈ block.texts, Everywhere walked (TextValid context) text) ∧
        ∀ c ∈ block.children, Everywhere InputRichBlock.children (BlockSeen context) c := by
  rw [everywhere_iff, blockSeen_iff, ht, hf, hb]
  simp [hr]

/-- A block with a caption and files. -/
theorem everywhere_media {context : RichMessageContext} {block : InputRichBlock} (ht : block.isThinking = false)
    (hc : block.children = []) (hb : block.buttonRow = []) (hr : RowValid block) :
    Everywhere InputRichBlock.children (BlockSeen context) block ↔
      (∀ text ∈ block.texts, Everywhere walked (TextValid context) text) ∧
        ∀ file ∈ block.ownFiles, FileAllowed context file := by
  rw [everywhere_iff, blockSeen_iff, ht, hc, hb]
  simp [hr, and_comm]

theorem walks_validateBlocks {context : RichMessageContext} {blocks : List InputRichBlock} {q : InputRichBlock → Prop}
    (h : ∀ block ∈ blocks, Walks (validateBlock block context) (q block) id) (index : Nat) :
    Walks (validateBlocks index blocks context) (∀ block ∈ blocks, q block) id := by
  induction blocks generalizing index with
  | nil =>
    rw [validateBlocks]
    exact walks_pure.congr (by simp) fun _ => rfl
  | cons block blocks ih =>
    rw [validateBlocks]
    have hl := ih (fun b hb => h b (List.mem_cons_of_mem _ hb)) (index + 1)
    exact ((walks_pushIndex index).seq ((h block List.mem_cons_self).seq (walks_pop.seq hl))).congr (by simp) (by simp)

theorem walks_validateItems {c : RichMessageContext} {items : List InputRichBlockListItem}
    {q : InputRichBlock → Prop}
    (h : ∀ item ∈ items, ∀ block ∈ item.blocks, Walks (validateBlock block c) (q block) id) (index : Nat) :
    Walks (validateItems index items c) (∀ block ∈ items.flatMap (·.blocks), q block) id := by
  induction items generalizing index with
  | nil =>
    rw [validateItems]
    exact walks_pure.congr (by simp) fun _ => rfl
  | cons item items ih =>
    obtain ⟨blocks⟩ := item
    rw [validateItems]
    have hl := ih (fun i hi => h i (List.mem_cons_of_mem _ hi)) (index + 1)
    have hb := walks_validateBlocks (h _ List.mem_cons_self) 0
    refine ((walks_pushIndex index).seq ((walks_pushField "blocks").seq (hb.seq (walks_pop.seq
      (walks_pop.seq hl))))).congr ?_ (by simp)
    simp only [List.flatMap_cons, List.forall_mem_append, true_and]

theorem walks_validateCaptioned {context : RichMessageContext} {media : RequestFieldPath → Verdict} {p : Prop}
    (hm : ∀ path, Decides (media path) p) (field : String) (caption : Option RichBlockCaption) :
    Walks (validateCaptioned field caption media context)
      ((∀ t ∈ caption.toList.flatMap (·.texts), Everywhere walked (TextValid context) t) ∧ p) id :=
  ((walks_pushField field).seq ((walks_validateOptionalCaption context caption).seq
    ((walks_reading hm).seq walks_pop))).congr (by simp) (by simp)

/-- The cells of a table, row by row. -/
theorem walks_cells (context : RichMessageContext) (cells : List (List RichBlockTableCell)) :
    Walks (Check.forIndexed (fun rowIndex row => do
      pushField "cells"
      pushIndex rowIndex
      Check.forIndexed (fun cellIndex (cell : RichBlockTableCell) => do
        pushIndex cellIndex
        validateOptionalRichText cell.text context "text"
        pop) 0 row
      pop
      pop) 0 cells)
      (∀ row ∈ cells, ∀ cell ∈ row, ∀ t ∈ cell.text, Everywhere walked (TextValid context) t) id := by
  refine walks_forIndexed 0 fun rowIndex row _ => ?_
  have hrow := walks_forIndexed (l := row) 0 fun cellIndex cell _ =>
    ((walks_pushIndex cellIndex).seq ((walks_validateOptionalRichText context cell.text "text").seq walks_pop)).congr
      Iff.rfl (by simp)
  refine ((walks_pushField "cells").seq ((walks_pushIndex rowIndex).seq (hrow.seq (walks_pop.seq walks_pop)))).congr
    ?_ (by simp)
  simp

theorem table_texts {P : RichText → Prop} {cells : List (List RichBlockTableCell)} {caption : Option RichText} :
    (∀ t ∈ (InputRichBlock.table cells caption).texts, P t) ↔
      (∀ row ∈ cells, ∀ cell ∈ row, ∀ t ∈ cell.text, P t) ∧ ∀ t ∈ caption, P t := by
  constructor
  · intro h
    refine ⟨fun row hrow cell hcell t ht => h t (List.mem_append_left _ ?_), fun t ht =>
      h t (List.mem_append_right _ (Option.mem_toList.2 ht))⟩
    exact List.mem_filterMap.2 ⟨cell, List.mem_flatten.2 ⟨row, hrow, hcell⟩, ht⟩
  · rintro ⟨hcells, hcaption⟩ t ht
    rcases List.mem_append.1 ht with ht | ht
    · obtain ⟨cell, hcell, htext⟩ := List.mem_filterMap.1 ht
      obtain ⟨row, hrow, hmem⟩ := List.mem_flatten.1 hcell
      exact hcells row hrow cell hmem t htext
    · exact hcaption t (Option.mem_toList.1 ht)

/-- The walker decides a block and all below it. -/
theorem walks_validateBlock (context : RichMessageContext) (block : InputRichBlock) :
    Walks (validateBlock block context) (Everywhere InputRichBlock.children (BlockSeen context) block) id := by
  induction block using block_induction with
  | h block ih =>
    cases block with
    | paragraph text | heading text _ | pre text _ | footer text =>
      rw [validateBlock]
      refine (walks_validateBlockText context text _ _).congr ?_ fun _ => rfl
      refine Iff.trans ?_ (Iff.symm (everywhere_texts rfl rfl rfl trivial))
      simp [InputRichBlock.children, InputRichBlock.texts]
    | divider | mathematicalExpression | anchor =>
      rw [validateBlock]
      refine walks_pure.congr ?_ fun _ => rfl
      refine Iff.trans ?_ (Iff.symm (everywhere_texts rfl rfl rfl trivial))
      simp [InputRichBlock.children, InputRichBlock.texts]
    | list items =>
      rw [validateBlock]
      have hitems := walks_validateItems (c := context)
        (fun item hitem b hb => ih b (List.mem_flatMap.2 ⟨item, hitem, hb⟩)) 0
      have hlist := (walks_pushField "list").seq ((walks_pushField "items").seq (hitems.seq (walks_pop.seq walks_pop)))
      refine hlist.congr ?_ (by simp)
      refine Iff.trans ?_ (Iff.symm (everywhere_texts rfl rfl rfl trivial))
      simp [InputRichBlock.children, InputRichBlock.texts]
    | blockquote blocks credit =>
      rw [validateBlock]
      have hquote := (walks_pushField "blockquote").seq ((walks_validateOptionalRichText context credit "credit").seq
        ((walks_pushField "blocks").seq ((walks_validateBlocks ih 0).seq (walks_pop.seq walks_pop))))
      refine hquote.congr ?_ (by simp)
      refine Iff.trans ?_ (Iff.symm (everywhere_texts rfl rfl rfl trivial))
      simp [InputRichBlock.children, InputRichBlock.texts]
    | expandableBlockquote text credit | pullquote text credit =>
      rw [validateBlock]
      have hquote := fun name : String => (walks_pushField name).seq ((walks_pushField "text").seq
        ((walks_validateRichTextAt context text).seq (walks_pop.seq
          ((walks_validateOptionalRichText context credit "credit").seq walks_pop))))
      refine (hquote _).congr ?_ (by simp)
      refine Iff.trans ?_ (Iff.symm (everywhere_texts rfl rfl rfl trivial))
      simp [InputRichBlock.children, InputRichBlock.texts]
    | collage blocks caption | slideshow blocks caption =>
      rw [validateBlock]
      have hblocks := fun name : String => (walks_pushField name).seq ((walks_validateOptionalCaption context caption).seq
        ((walks_pushField "blocks").seq ((walks_validateBlocks ih 0).seq (walks_pop.seq walks_pop))))
      refine (hblocks _).congr ?_ (by simp)
      refine Iff.trans ?_ (Iff.symm (everywhere_texts rfl rfl rfl trivial))
      simp [InputRichBlock.children, InputRichBlock.texts]
    | details summary blocks =>
      rw [validateBlock]
      have hdetails := (walks_pushField "details").seq ((walks_validateBlockText context summary "details" "summary").seq
        ((walks_pushField "blocks").seq ((walks_validateBlocks ih 0).seq (walks_pop.seq walks_pop))))
      refine hdetails.congr ?_ (by simp)
      refine Iff.trans ?_ (Iff.symm (everywhere_texts rfl rfl rfl trivial))
      simp [InputRichBlock.children, InputRichBlock.texts]
    | table cells caption =>
      rw [validateBlock]
      have htable := (walks_pushField "table").seq ((walks_cells context cells).seq
        ((walks_validateOptionalRichText context caption "caption").seq walks_pop))
      refine htable.congr ?_ (by simp)
      refine Iff.trans ?_ (Iff.symm (everywhere_texts rfl rfl rfl trivial))
      rw [table_texts]
      simp [InputRichBlock.children]
    | buttons row align =>
      rw [validateBlock]
      refine (walks_reading (validateButtons_decides row align context)).congr ?_ fun _ => rfl
      have hlabels : (∀ b ∈ row, ButtonValid context b) →
          ∀ text ∈ row.map (·.text), Everywhere walked (TextValid context) text := by
        intro h text ht
        obtain ⟨b, hb, rfl⟩ := List.mem_map.1 ht
        exact (label_valid (h b hb).label).mono walked_subset
      rw [everywhere_iff, blockSeen_iff]
      constructor
      · rintro ⟨hr, hb⟩
        exact ⟨⟨nofun, nofun, hb, hr, hlabels hb⟩, nofun⟩
      · rintro ⟨⟨-, -, hb, hr, -⟩, -⟩
        exact ⟨hr, hb⟩
    | document media caption =>
      rw [validateBlock]
      have hdocument := (walks_pushField "document").seq ((walks_pushField "media").seq
        ((walks_reading (validateFile_decides context media.media)).seq (walks_pop.seq
          ((walks_validateOptionalCaption context caption).seq
            ((walks_validateOptionalFile context media.thumbnail "thumbnail").seq walks_pop)))))
      refine hdocument.congr ?_ (by simp)
      refine Iff.trans ?_ (Iff.symm (everywhere_media rfl rfl rfl trivial))
      simp [InputRichBlock.texts, InputRichBlock.ownFiles, InputMediaDocument.files, and_left_comm]
    | animation media caption =>
      rw [validateBlock]
      exact (walks_validateCaptioned (validateThumbnailed_decides context media.media media.thumbnail) _ _).congr
        (Iff.symm (everywhere_media rfl rfl rfl trivial)) fun _ => rfl
    | audio media caption =>
      rw [validateBlock]
      exact (walks_validateCaptioned (validateThumbnailed_decides context media.media media.thumbnail) _ _).congr
        (Iff.symm (everywhere_media rfl rfl rfl trivial)) fun _ => rfl
    | photo media caption =>
      rw [validateBlock]
      exact (walks_validateCaptioned (validateMediaFile_decides context media.media) _ _).congr
        (Iff.symm (everywhere_media rfl rfl rfl trivial)) fun _ => rfl
    | video media caption =>
      rw [validateBlock]
      exact (walks_validateCaptioned (validateVideo_decides context media) _ _).congr
        (Iff.symm (everywhere_media rfl rfl rfl trivial)) fun _ => rfl
    | voiceNote media caption =>
      rw [validateBlock]
      exact (walks_validateCaptioned (validateMediaFile_decides context media.media) _ _).congr
        (Iff.symm (everywhere_media rfl rfl rfl trivial)) fun _ => rfl
    | map caption =>
      rw [validateBlock]
      have hmap := (walks_pushField "map").seq ((walks_validateOptionalCaption context caption).seq walks_pop)
      refine hmap.congr ?_ (by simp)
      refine Iff.trans ?_ (Iff.symm (everywhere_texts rfl rfl rfl trivial))
      simp [InputRichBlock.children, InputRichBlock.texts]
    | thinking text =>
      rw [validateBlock]
      have hdone : Everywhere InputRichBlock.children (BlockSeen context) (.thinking text) ↔
          context = .draft ∧ Everywhere walked (TextValid context) text := by
        rw [everywhere_iff, blockSeen_iff]
        simp [InputRichBlock.isThinking, InputRichBlock.ownFiles, InputRichBlock.buttonRow, InputRichBlock.texts,
          InputRichBlock.children, RowValid]
      split
      · rename_i hc
        have herr := walks_reading fun path =>
          decides_error (RequestValidationError.unsupportedInContext path context)
        refine herr.congr ?_ fun _ => rfl
        rw [hdone]
        simp [hc]
      · rename_i hc
        exact (walks_validateBlockText context text _ _).congr
          (by rw [hdone]; simp [Decidable.not_not.1 hc]) fun _ => rfl

/-! ## Messages -/

theorem isAsciiIdentifier_iff (id : String) : isAsciiIdentifier id = true ↔ MediaIdValid id := by
  have hempty : id.isEmpty = true ↔ id.utf8ByteSize = 0 := by simp [String.isEmpty]
  simp only [isAsciiIdentifier, MediaIdValid, Bool.not_eq_true', Bool.eq_false_iff, Bool.or_eq_true, ne_eq, not_or,
    hempty, decide_eq_true_eq, Decidable.not_not, List.all_eq_true, or_assoc]
  exact and_congr (by omega) (and_congr (by omega) Iff.rfl)

theorem walks_validateRichMessageAt (message : InputRichMessage) (context : RichMessageContext) :
    Walks (validateRichMessageAt message context)
      ((∀ blocks ∈ message.blocks, ∀ block ∈ blocks, Everywhere InputRichBlock.children (BlockSeen context) block) ∧
        ∀ media ∈ message.media, ∀ medium ∈ media, MediaValid context medium) id := by
  unfold validateRichMessageAt
  refine Walks.congr (.seq (walks_whenSome fun blocks _ => ?_) (walks_whenSome fun media _ => ?_)) Iff.rfl fun _ => rfl
  · exact ((walks_pushField "blocks").seq ((walks_validateBlocks (fun block _ => walks_validateBlock context block) 0).seq
      walks_pop)).congr (by simp) (by simp)
  · have hmedia := walks_forIndexed (l := media) (q := MediaValid context) 0 fun index medium _ => by
      have hid : ∀ path, Decides (Check.ensure (isAsciiIdentifier medium.id)
          (RequestValidationError.invalidValue path .mustBeAsciiIdentifier)) (MediaIdValid medium.id) :=
        fun path => (decides_ensure _ _).congr (isAsciiIdentifier_iff medium.id)
      have hmedium := (walks_pushIndex index).seq ((walks_pushField "id").seq ((walks_reading hid).seq (walks_pop.seq
        ((walks_pushField "media").seq ((walks_reading (validateRichMediaContent_decides context medium.media)).seq
          (walks_pop.seq walks_pop))))))
      exact hmedium.congr ⟨fun h => ⟨h.2.2.1, h.2.2.2.2.2.1⟩, fun h => by simpa using ⟨h.id, h.files⟩⟩ (by simp)
    exact ((walks_pushField "media").seq (hmedia.seq walks_pop)).congr (by simp) (by simp)

/-- Where the references are valid, what is seen of a block is all of it. -/
theorem blockSeen_iff_valid {context : RichMessageContext} {block : InputRichBlock}
    (h : ∀ text ∈ block.texts, Everywhere RichText.children (ReferenceValid context) text) :
    BlockSeen context block ↔ BlockValid context block ∧ RowValid block := by
  have htexts : (∀ text ∈ block.texts, Everywhere walked (TextValid context) text) ↔
      ∀ text ∈ block.texts, Everywhere RichText.children (TextValid context) text :=
    forall_congr' fun text => imp_congr_right fun ht => everywhere_walked text (h text ht)
  constructor
  · intro hs
    exact ⟨⟨hs.thinking, hs.files, hs.buttons, htexts.1 hs.texts⟩, hs.row⟩
  · rintro ⟨hv, hr⟩
    exact ⟨hv.thinking, hv.files, hv.buttons, hr, htexts.2 hv.texts⟩

/-- A message is accepted exactly when all its elements and its rows of buttons
are valid, and the path comes back as it was. -/
theorem validateWith_iff {context : RichMessageContext} {message : InputRichMessage}
    (h : ReferencesValid context message) :
    (validateWith message context = .ok () ↔ ElementsValid context message ∧ RowsValid message) ∧
      ∀ path path', validateRichMessageAt message context path = .ok ((), path') → path' = path := by
  have hwalks := walks_validateRichMessageAt message context
  refine ⟨?_, fun path path' hok => ((hwalks path path').1 hok).2⟩
  have hblock : ∀ blocks ∈ message.blocks, ∀ block ∈ blocks,
      (Everywhere InputRichBlock.children (BlockSeen context) block ↔
        Everywhere InputRichBlock.children (BlockValid context) block ∧ Everywhere InputRichBlock.children RowValid block) :=
    fun blocks hblocks block hb =>
      ((h blocks hblocks block hb).congr fun _ => blockSeen_iff_valid).trans everywhere_and
  refine Iff.trans (hwalks.cloned _) ⟨?_, ?_⟩
  · rintro ⟨hblocks, hmedia⟩
    exact ⟨⟨fun bs hbs b hb => ((hblock bs hbs b hb).1 (hblocks bs hbs b hb)).1, hmedia⟩,
      fun bs hbs b hb => ((hblock bs hbs b hb).1 (hblocks bs hbs b hb)).2⟩
  · rintro ⟨hvalid, hrows⟩
    exact ⟨fun bs hbs b hb => (hblock bs hbs b hb).2 ⟨hvalid.blocks bs hbs b hb, hrows bs hbs b hb⟩, hvalid.media⟩

/-- A button with these callback data and no other action. -/
def callback (data : Option String) : RichMessageButton :=
  ⟨.text "ok", none, none, data, none, none, none, none, none, none, none⟩

/-- An anchor link in a paragraph, and a row of one button. -/
def linkedMessage (link : RichText) (row : List RichMessageButton) : InputRichMessage :=
  ⟨some [.paragraph (.object (.anchorLink link "top")), .buttons row (some "left")], none, none, none⟩

theorem validateWith_iff_linked :
    ElementsValid .draft (linkedMessage (.text "up") [callback (some "x")]) ∧
      RowsValid (linkedMessage (.text "up") [callback (some "x")]) := by
  have hrefs : ReferencesValid .draft (linkedMessage (.text "up") [callback (some "x")]) := by
    intro blocks hblocks block hb
    obtain rfl := Option.some.inj hblocks
    have hleaf : ∀ t : String, Everywhere RichText.children (TextValid .draft) (.text t) := fun _ =>
      everywhere_iff.2 ⟨trivial, nofun⟩
    rcases List.mem_cons.1 hb with rfl | hb
    · refine everywhere_iff.2 ⟨fun text ht => ?_, nofun⟩
      obtain rfl := List.mem_singleton.1 ht
      refine everywhere_iff.2 ⟨hleaf "up", fun c hc => ?_⟩
      obtain rfl := List.mem_singleton.1 hc
      exact everywhere_iff.2 ⟨trivial, nofun⟩
    · obtain rfl := List.mem_singleton.1 hb
      refine everywhere_iff.2 ⟨fun text ht => ?_, nofun⟩
      obtain rfl := List.mem_singleton.1 ht
      exact everywhere_iff.2 ⟨trivial, nofun⟩
  exact (validateWith_iff hrefs).1.1 rfl

/-- Neither direction holds of `ElementsValid` alone: a row without buttons is
refused, and a button without an action is accepted under an anchor link. -/
theorem validateWith_not_elementsValid :
    (¬ ∀ context message, ElementsValid context message → validateWith message context = .ok ()) ∧
      ¬ ∀ context message, validateWith message context = .ok () → ElementsValid context message := by
  constructor
  · intro hall
    have hok := hall .send ⟨some [.buttons [] none], none, none, none⟩ ⟨fun blocks hblocks block hb => by
      obtain rfl := Option.some.inj hblocks
      obtain rfl := List.mem_singleton.1 hb
      exact everywhere_iff.2 ⟨⟨nofun, nofun, nofun, nofun⟩, nofun⟩, nofun⟩
    cases hok
  · intro hall
    have hvalid := hall .send (linkedMessage (.object (.button (callback none))) [callback (some "x")]) rfl
    have htexts := (hvalid.blocks _ rfl _ List.mem_cons_self _ .here).texts _ List.mem_cons_self
    have hbutton : ButtonValid .send (callback none) := htexts _ (.under List.mem_cons_self .here)
    exact absurd hbutton.action (by decide)

end Teloxide.Requests
