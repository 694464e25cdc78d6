import Teloxide.Utils.Render.Renderer

/-!
# HTML rendering keeps the text

* `formatLoop_keeps`: whatever the tags are, the writes that are not tags are those of the
  characters of the text, each once and in order.
* `decode_escaped`: decoding takes the escapes of the text back.
* `html_keeps_text_iff`: the rendering fails the text on two paths only: the size estimate
  of a mention of user 0, and the shortcut that returns a text without tags as it is.
-/
namespace Teloxide.Utils.Render

open Teloxide.Core Utf8 Teloxide.Types

/-! ## The loop -/

/-- What is left of the buffer without the tags. -/
def withoutTags (chunks : List Chunk) : Str := (chunks.filter fun c => !c.markup).flatMap (·.text)

theorem withoutTags_append (a b : List Chunk) : withoutTags (a ++ b) = withoutTags a ++ withoutTags b := by
  unfold withoutTags
  rw [List.filter_append, List.flatMap_append]

namespace Renderer

section loop

variable {w : TagWriter}

/-- Tags that can be written leave nothing but markup. -/
theorem writeTags_some : ∀ {tags : List Tag}, (∀ t ∈ tags, (w.writeTag t).isSome = true) →
    ∃ chunks, writeTags w tags = some chunks ∧ withoutTags chunks = []
  | [], _ => ⟨[], rfl, rfl⟩
  | tag :: tags, h => by
    obtain ⟨s, hs⟩ := Option.isSome_iff_exists.1 (h tag List.mem_cons_self)
    obtain ⟨rest, hrest, hnil⟩ := writeTags_some fun t ht => h t (List.mem_cons_of_mem _ ht)
    refine ⟨⟨true, s⟩ :: rest, ?_, hnil⟩
    rw [writeTags, hs, hrest]
    rfl

/-- The loop over the units of a text writes its characters, whatever tags it meets. -/
theorem formatLoop_keeps : ∀ (s : Str) (idx : Nat) (tags : List Tag), (∀ t ∈ tags, (w.writeTag t).isSome = true) →
    ∃ chunks, formatLoop w (Utf16.encode s) idx tags none = some chunks ∧ withoutTags chunks = s.flatMap w.writeChar
  | [], idx, tags, h => writeTags_some h
  | c :: s, idx, tags, h => by
    have hnow : ∀ t ∈ tags.takeWhile (·.offset == idx), (w.writeTag t).isSome = true := fun t ht =>
      h t ((List.takeWhile_sublist _).mem ht)
    obtain ⟨markup, hmarkup, hnil⟩ := writeTags_some hnow
    have hlater : ∀ t ∈ tags.dropWhile (·.offset == idx), (w.writeTag t).isSome = true := fun t ht =>
      h t ((List.dropWhile_sublist _).mem ht)
    have hencode : Utf16.encode (c :: s) = Utf16.encodeChar c ++ Utf16.encode s := List.flatMap_cons
    rw [hencode, List.flatMap_cons]
    rcases Utf16.encodeChar_cases c with ⟨point, hc, hone⟩ | ⟨previous, point, hc, hheld, hpair⟩
    · obtain ⟨rest, hrest, hkeep⟩ := formatLoop_keeps s (idx + 1) _ hlater
      refine ⟨markup ++ ⟨false, w.writeChar c⟩ :: rest, ?_, ?_⟩
      · rw [hc, List.singleton_append, formatLoop, hmarkup]
        simp only [Option.bind_eq_bind, Option.bind_some, hone, hrest, Option.pure_def]
      · rw [withoutTags_append, hnil, List.nil_append, ← hkeep]
        rfl
    · -- the first unit is held, the second one comes with tags of its own
      have hthen : ∀ t ∈ (tags.dropWhile (·.offset == idx)).takeWhile (·.offset == idx + 1),
          (w.writeTag t).isSome = true := fun t ht => hlater t ((List.takeWhile_sublist _).mem ht)
      obtain ⟨markup', hmarkup', hnil'⟩ := writeTags_some hthen
      obtain ⟨rest, hrest, hkeep⟩ := formatLoop_keeps s (idx + 1 + 1)
        ((tags.dropWhile (·.offset == idx)).dropWhile (·.offset == idx + 1))
        fun t ht => hlater t ((List.dropWhile_sublist _).mem ht)
      have hsecond : formatLoop w (point :: Utf16.encode s) (idx + 1) (tags.dropWhile (·.offset == idx)) (some previous) =
          some (markup' ++ ⟨false, w.writeChar c⟩ :: rest) := by
        unfold formatLoop
        rw [hmarkup']
        simp only [Option.bind_eq_bind, Option.bind_some, hpair, hrest, Option.pure_def]
      refine ⟨markup ++ (markup' ++ ⟨false, w.writeChar c⟩ :: rest), ?_, ?_⟩
      · rw [hc, List.cons_append, List.singleton_append, formatLoop, hmarkup]
        simp only [Option.bind_eq_bind, Option.bind_some, hheld, hsecond, Option.pure_def]
      · rw [withoutTags_append, withoutTags_append, hnil, hnil', List.nil_append, List.nil_append, ← hkeep]
        rfl

end loop

end Renderer

/-! ## The escapes of the text -/

/-- Decodes `&amp;`, `&lt;` and `&gt;`. -/
def decode : Str → Str
  | '&' :: 'a' :: 'm' :: 'p' :: ';' :: rest => '&' :: decode rest
  | '&' :: 'l' :: 't' :: ';' :: rest => '<' :: decode rest
  | '&' :: 'g' :: 't' :: ';' :: rest => '>' :: decode rest
  | c :: rest => c :: decode rest
  | [] => []

/-- The text contains something that decodes. -/
def HasReference (s : Str) : Prop :=
  ∃ before reference after, s = before ++ reference ++ after ∧
    reference ∈ ["&amp;".toList, "&lt;".toList, "&gt;".toList]

theorem decode_cons {c : Char} (h : c ≠ '&') (s : Str) : decode (c :: s) = c :: decode s := by
  rw [decode]
  · rintro rest rfl
    exact absurd rfl h
  · rintro rest rfl
    exact absurd rfl h
  · rintro rest rfl
    exact absurd rfl h

theorem writeChar_plain {c : Char} (ha : c ≠ '&') (hl : c ≠ '<') (hg : c ≠ '>') : Html.writeChar c = [c] := by
  unfold Html.writeChar
  split
  · exact absurd rfl ha
  · exact absurd rfl hl
  · exact absurd rfl hg
  · rfl

/-- Decoding takes the escapes of a text back. -/
theorem decode_escaped (s : Str) : decode (s.flatMap Html.writeChar) = s := by
  induction s with
  | nil => rfl
  | cons c s ih =>
    rw [List.flatMap_cons]
    by_cases ha : c = '&'
    · subst ha
      exact congrArg ('&' :: ·) ih
    by_cases hl : c = '<'
    · subst hl
      exact congrArg ('<' :: ·) ih
    by_cases hg : c = '>'
    · subst hg
      exact congrArg ('>' :: ·) ih
    rw [writeChar_plain ha hl hg, List.singleton_append, decode_cons ha, ih]

theorem length_decode (s : Str) : (decode s).length ≤ s.length := by
  fun_induction decode s with
  | case1 rest ih | case2 rest ih | case3 rest ih | case4 c rest _ _ _ ih =>
    simp only [List.length_cons]
    omega
  | case5 => exact Nat.le_refl _

theorem HasReference.cons {s : Str} (h : HasReference s) (c : Char) : HasReference (c :: s) := by
  obtain ⟨before, reference, after, rfl, hr⟩ := h
  exact ⟨c :: before, reference, after, rfl, hr⟩

/-- A text decodes to itself exactly if nothing in it decodes. -/
theorem decode_eq_self_iff (s : Str) : decode s = s ↔ ¬ HasReference s := by
  fun_induction decode s with
  | case1 rest ih =>
    refine ⟨fun h => ?_, fun h => absurd ⟨[], "&amp;".toList, rest, rfl, by simp⟩ h⟩
    have hlen := length_decode rest
    have := congrArg List.length h
    simp only [List.length_cons] at this
    omega
  | case2 rest ih =>
    refine ⟨fun h => absurd (List.cons.inj h).1 (by decide), fun h => absurd ⟨[], "&lt;".toList, rest, rfl, by simp⟩ h⟩
  | case3 rest ih =>
    refine ⟨fun h => absurd (List.cons.inj h).1 (by decide), fun h => absurd ⟨[], "&gt;".toList, rest, rfl, by simp⟩ h⟩
  | case4 c rest hamp hlt hgt ih =>
    have htail : decode rest = rest ↔ ¬ HasReference rest := ih
    rw [List.cons.injEq, htail]
    refine ⟨fun ⟨_, h⟩ ⟨before, reference, after, hs, hr⟩ => ?_, fun h => ⟨rfl, fun h' => h (h'.cons c)⟩⟩
    cases before with
    | nil =>
      simp only [List.mem_cons, List.not_mem_nil, or_false] at hr
      rcases hr with rfl | rfl | rfl
      · obtain ⟨hc, hrest⟩ := List.cons.inj hs
        exact hamp after hc hrest
      · obtain ⟨hc, hrest⟩ := List.cons.inj hs
        exact hlt after hc hrest
      · obtain ⟨hc, hrest⟩ := List.cons.inj hs
        exact hgt after hc hrest
    | cons c' before => exact h ⟨before, reference, after, (List.cons.inj hs).2, hr⟩
  | case5 =>
    refine ⟨fun _ ⟨before, reference, after, hs, hr⟩ => ?_, fun _ => rfl⟩
    obtain ⟨hleft, -⟩ := List.append_eq_nil_iff.1 hs.symm
    obtain ⟨-, rfl⟩ := List.append_eq_nil_iff.1 hleft
    simp at hr

/-! ## The paths of a rendering -/

section paths

variable {text : Str} {entities : List MessageEntity} {tag : Tag}

/-- HTML has a tag for every place that an entity has. -/
theorem writeTag_isSome (h : tag.place = .midNewLine → tag.kind.isQuote = true) : (Html.writeTag tag).isSome = true := by
  obtain ⟨place, kind, offset, index⟩ := tag
  cases place with
  | start => cases kind <;> rfl
  | «end» => cases kind <;> rfl
  | midNewLine => cases kind <;> first | rfl | exact absurd (h rfl) (by simp [Kind.isQuote])

/-- The size estimate fails on the logarithm of zero only. -/
theorem extraSize_isSome_iff (w : TagSet) (h : tag.place = .midNewLine → tag.kind.isQuote = true) :
    (w.extraSize tag).isSome = true ↔ ¬ (tag.place = .start ∧ tag.kind = .textMention 0) := by
  obtain ⟨place, kind, offset, index⟩ := tag
  cases place with
  | start => cases kind <;> simp [TagSet.extraSize, SimpleTag.getTag, ilog10]
  | «end» => cases kind <;> simp [TagSet.extraSize, SimpleTag.getTag]
  | midNewLine => cases kind <;> first | (cases h rfl; done) | simp [TagSet.extraSize]

theorem getExtraSizeForTags_isSome_iff (w : TagSet) : ∀ tags : List Tag,
    (w.getExtraSizeForTags tags).isSome = true ↔ ∀ t ∈ tags, (w.extraSize t).isSome = true
  | [] => ⟨fun _ _ he => (by cases he), fun _ => rfl⟩
  | tag :: tags => by
    rw [TagSet.getExtraSizeForTags, List.forall_mem_cons, ← getExtraSizeForTags_isSome_iff w tags]
    cases w.extraSize tag with
    | none => simp
    | some size => cases w.getExtraSizeForTags tags <;> simp

theorem kindOf_textMention {kind : MessageEntityKind} {id : Nat} (h : kindOf kind = some (.textMention id)) :
    ∃ user, kind = .textMention user ∧ user.id = id := by
  cases kind with
  | textMention user => exact ⟨user, rfl, Kind.textMention.inj (Option.some.inj h)⟩
  | dateTime unixTime _ => cases unixTime <;> cases h
  | _ => cases h

/-- The tags of a rendering are empty exactly if no entity has markup. -/
theorem new_tags_isEmpty_iff :
    (Renderer.new text entities).tags.isEmpty = true ↔ ∀ e ∈ entities, (kindOf e.kind).isSome = false := by
  rw [List.isEmpty_iff, List.eq_nil_iff_forall_not_mem]
  constructor
  · intro h e he
    by_contra hsome
    obtain ⟨kind, hk⟩ := Option.isSome_iff_exists.1 (Bool.of_not_eq_false hsome)
    obtain ⟨index, hindex⟩ := List.mem_iff_getElem?.1 he
    refine h ⟨.start, kind, e.offset, index⟩ (mem_new_tags.2 (mem_buildTags.2 ⟨e, hindex, ?_⟩))
    exact mem_tagsOf.2 ⟨kind, hk, rfl, rfl, rfl⟩
  · intro h tag ht
    obtain ⟨e, he, hm⟩ := mem_buildTags.1 (mem_new_tags.1 ht)
    obtain ⟨kind, hk, -⟩ := mem_tagsOf.1 hm
    have := h e (List.mem_of_getElem? he)
    rw [hk] at this
    cases this

/-- The estimate goes through exactly if no mention is of user 0. -/
theorem extraSize_new_iff (w : TagSet) : (w.getExtraSizeForTags (Renderer.new text entities).tags).isSome = true ↔
    ∀ e ∈ entities, ∀ user, e.kind = .textMention user → user.id ≠ 0 := by
  rw [getExtraSizeForTags_isSome_iff]
  constructor
  · intro h e he user hkind hid
    obtain ⟨index, hindex⟩ := List.mem_iff_getElem?.1 he
    have hk : kindOf e.kind = some (.textMention 0) := by rw [hkind, ← hid]; rfl
    have ht : (⟨.start, .textMention 0, e.offset, index⟩ : Tag) ∈ (Renderer.new text entities).tags :=
      mem_new_tags.2 (mem_buildTags.2 ⟨e, hindex, mem_tagsOf.2 ⟨_, hk, rfl, rfl, rfl⟩⟩)
    exact (extraSize_isSome_iff w (isQuote_of_new ht)).1 (h _ ht) ⟨rfl, rfl⟩
  · intro h tag ht
    refine (extraSize_isSome_iff w (isQuote_of_new ht)).2 fun ⟨_, hkind⟩ => ?_
    obtain ⟨e, he, hm⟩ := mem_buildTags.1 (mem_new_tags.1 ht)
    obtain ⟨kind, hk, rfl, -⟩ := mem_tagsOf.1 hm
    obtain ⟨user, hu, hid⟩ := kindOf_textMention (hkind ▸ hk)
    exact h e (List.mem_of_getElem? he) user hu hid

/-- The rendering goes through and keeps the text exactly if no mention is of user 0 and, where
no entity has markup, nothing in the text decodes. -/
theorem html_keeps_text_iff (text : Str) (entities : List MessageEntity) :
    (∃ chunks, (Renderer.new text entities).format Html.writer = some chunks ∧ decode (withoutTags chunks) = text) ↔
      (∀ e ∈ entities, ∀ user, e.kind = .textMention user → user.id ≠ 0) ∧
        ((∃ e ∈ entities, (kindOf e.kind).isSome = true) ∨ ¬ HasReference text) := by
  rw [← extraSize_new_iff Html.writer.toTagSet]
  unfold Renderer.format
  cases hempty : (Renderer.new text entities).tags.isEmpty with
  | true =>
    -- the text comes back as it is
    have hnone := new_tags_isEmpty_iff.1 hempty
    have hno : ¬ ∃ e ∈ entities, (kindOf e.kind).isSome = true := fun ⟨e, he, hk⟩ => by
      rw [hnone e he] at hk
      cases hk
    have hsize : (Html.writer.getExtraSizeForTags (Renderer.new text entities).tags).isSome = true := by
      rw [List.isEmpty_iff.1 hempty]
      rfl
    have hraw : withoutTags [⟨false, text⟩] = text := List.flatMap_singleton _ _
    rw [if_pos rfl]
    constructor
    · rintro ⟨chunks, hc, hd⟩
      obtain rfl := Option.some.inj hc
      refine ⟨hsize, .inr ((decode_eq_self_iff text).1 ?_)⟩
      have hd' : decode (withoutTags [⟨false, text⟩]) = text := hd
      rwa [hraw] at hd'
    · rintro ⟨-, hor⟩
      refine ⟨_, rfl, ?_⟩
      have hd := (decode_eq_self_iff text).2 (hor.resolve_left hno)
      show decode (withoutTags [⟨false, text⟩]) = text
      rw [hraw, hd]
  | false =>
    have hmarked : ∃ e ∈ entities, (kindOf e.kind).isSome = true := by
      by_contra hno
      have hall : ∀ e ∈ entities, (kindOf e.kind).isSome = false := fun e he =>
        Bool.eq_false_iff.2 fun hk => hno ⟨e, he, hk⟩
      rw [new_tags_isEmpty_iff.2 hall] at hempty
      cases hempty
    obtain ⟨chunks, hloop, hkeep⟩ := Renderer.formatLoop_keeps (w := Html.writer) text 0 (Renderer.new text entities).tags
      fun t ht => writeTag_isSome (isQuote_of_new ht)
    rw [if_neg (by decide)]
    cases hsize : Html.writer.getExtraSizeForTags (Renderer.new text entities).tags with
    | none => exact ⟨fun ⟨_, hc, _⟩ => (by cases hc), fun ⟨hs, _⟩ => (by cases hs)⟩
    | some size =>
      refine ⟨fun _ => ⟨rfl, .inl hmarked⟩, fun _ => ⟨chunks, hloop, ?_⟩⟩
      rw [hkeep]
      exact decode_escaped text

end paths

/-- A text without markup is returned with its own reference in it, which decodes. -/
theorem html_raw_reference : ¬ ∀ text entities, ∃ chunks, (Renderer.new text entities).format Html.writer = some chunks ∧
    decode (withoutTags chunks) = text := by
  intro h
  obtain ⟨chunks, hc, hd⟩ := h "&lt;".toList []
  have hempty : (Renderer.new "&lt;".toList []).tags.isEmpty = true := new_tags_isEmpty_iff.2 fun _ he => by cases he
  rw [Renderer.format, if_pos hempty] at hc
  obtain rfl := Option.some.inj hc
  exact absurd hd (by decide)

end Teloxide.Utils.Render
