import Mathlib
import Teloxide.Core.Utf16

/-!
# Message entities (`crates/teloxide-core/src/types/message_entity.rs`)

The entities of a message count UTF-16 code units. `MessageEntityRef::parse` turns all their
offsets into byte offsets in one pass over the text.

* The vector of references is a list of slots, the one that is popped next first; its sort is
  unstable, so that any order that is sorted will do (`PopOrder`).
* `sweep_converts`: from a prefix on, the pass converts what is left of the slots.
* `entity_ranges`: where all offsets are on character boundaries, so are the byte ranges,
  and they cover the same characters.
-/
namespace Teloxide.Types

open Teloxide.Core Utf8

/-- mirrors user.rs:9-63 -/
structure User where
  id : Nat
  isBot : Bool
  firstName : String
  lastName : Option String
  username : Option String
  languageCode : Option String
  isPremium : Bool
  addedToAttachmentMenu : Bool
  supportsGuestQueries : Bool
  supportsJoinRequestQueries : Bool
  hasTopicsEnabled : Bool
  allowsUsersToCreateTopics : Bool
  canManageBots : Bool
  deriving DecidableEq, Repr

/-- mirrors message_entity.rs:251-272 -/
inductive MessageEntityKind where
  | mention
  | hashtag
  | cashtag
  | botCommand
  | url
  | email
  | phoneNumber
  | bold
  | blockquote
  | expandableBlockquote
  | italic
  | underline
  | strikethrough
  | spoiler
  | code
  | pre (language : Option Str)
  | textLink (url : Str)
  | textMention (user : User)
  | customEmoji (customEmojiId : Str)
  | dateTime (unixTime : Option Int) (dateTimeFormat : Option Str)
  deriving DecidableEq, Repr

/-- mirrors message_entity.rs:15-24 -/
structure MessageEntity where
  kind : MessageEntityKind
  offset : Nat
  length : Nat
  deriving DecidableEq, Repr

/-- mirrors message_entity.rs:40-44 -/
structure MessageEntityRef where
  message : Str
  start : Nat
  stop : Nat
  kind : MessageEntityKind
  deriving DecidableEq, Repr

namespace MessageEntityRef

/-- `&self.message[self.range.clone()]` -/
def text (r : MessageEntityRef) : Checked Str := slice r.message r.start r.stop

/-- The offsets of the entities, start and end in turn. -/
def offsetsOf (entities : List MessageEntity) : List Nat :=
  entities.flatMap fun e => [e.offset, e.offset + e.length]

/-- The entities with these offsets. -/
def withOffsets (text : Str) : List MessageEntity → List Nat → List MessageEntityRef
  | e :: entities, start :: stop :: values => ⟨text, start, stop, e.kind⟩ :: withOffsets text entities values
  | _, _ => []

/-- An order in which the references may be popped: smaller offsets first. -/
def PopOrder (values offsets : List Nat) : Prop :=
  offsets.Perm (List.range values.length) ∧ offsets.Pairwise fun a b => values.getD a 0 ≤ values.getD b 0

/-- Patches all offsets that can be patched; `none` is the failed assertion.
mirrors message_entity.rs:228-236 -/
def patch (lenUtf8 lenUtf16 : Nat) : List Nat → List Nat → Option (List Nat × List Nat)
  | [], values => some ([], values)
  | slot :: offsets, values =>
    if values.getD slot 0 ≤ lenUtf16 then
      if values.getD slot 0 = lenUtf16 then patch lenUtf8 lenUtf16 offsets (values.set slot lenUtf8) else none
    else some (slot :: offsets, values)

/-- mirrors message_entity.rs:222-240 -/
def sweep : Str → Nat → Nat → List Nat → List Nat → Option (List Nat)
  | [], _, _, _, values => some values
  | c :: s, lenUtf8, lenUtf16, offsets, values =>
    if offsets.isEmpty then some values
    else
      match patch lenUtf8 lenUtf16 offsets values with
      | none => none
      | some (offsets, values) => sweep s (lenUtf8 + c.utf8Size) (lenUtf16 + Utf16.size c) offsets values

/-- mirrors message_entity.rs:199-243 -/
def parse (text : Str) (entities : List MessageEntity) (offsets : List Nat) : Option (List MessageEntityRef) :=
  (sweep (text ++ ['\x00']) 0 0 offsets (offsetsOf entities)).map (withOffsets text entities)

/-! ## The pass -/

/-- The byte offset of a boundary. -/
def toUtf8 : Str → Nat → Nat
  | [], _ => 0
  | _ :: _, 0 => 0
  | c :: s, i => c.utf8Size + toUtf8 s (i - Utf16.size c)

theorem toUtf8_append (pre rest : Str) : toUtf8 (pre ++ rest) (Utf16.len pre) = len pre := by
  induction pre with
  | nil => cases rest <;> rfl
  | cons c pre ih =>
    have hc := Utf16.size_pos c
    rw [List.cons_append, Utf16.len_cons, len_cons, toUtf8]
    · rw [Nat.add_sub_cancel_left, ih]
    · omega

section sweep

variable {text : Str} {orig : Nat → Nat} {offsets values : List Nat}

/-- What is left of the slots, after this many code units: the smallest offset first, all
of them boundaries that lie ahead. -/
structure Ahead (text : Str) (orig : Nat → Nat) (lenUtf16 : Nat) (offsets values : List Nat) : Prop where
  nodup : offsets.Nodup
  sorted : offsets.Pairwise fun a b => orig a ≤ orig b
  slot : ∀ k ∈ offsets, k < values.length ∧ values.getD k 0 = orig k
  ahead : ∀ k ∈ offsets, lenUtf16 ≤ orig k ∧ Utf16.IsBoundary text (orig k)

/-- The slots of `offsets` are converted, the others stay. -/
def Converts (text : Str) (orig : Nat → Nat) (offsets values values' : List Nat) : Prop :=
  values'.length = values.length ∧
    ∀ k, values'.getD k 0 = if k ∈ offsets then toUtf8 text (orig k) else values.getD k 0

theorem getD_set (values : List Nat) {slot : Nat} (h : slot < values.length) (v k : Nat) :
    (values.set slot v).getD k 0 = if k = slot then v else values.getD k 0 := by
  rw [List.getD_eq_getElem?_getD, List.getD_eq_getElem?_getD, List.getElem?_set]
  by_cases hk : slot = k
  · subst hk
    simp [h]
  · rw [if_neg hk, if_neg fun h' => hk h'.symm]

/-- The slots at this position are patched, and the rest lies behind it. -/
theorem patch_converts {lenUtf16 : Nat} : ∀ {offsets values : List Nat}, Ahead text orig lenUtf16 offsets values →
    ∃ done offsets' values', offsets = done ++ offsets' ∧
      patch (toUtf8 text lenUtf16) lenUtf16 offsets values = some (offsets', values') ∧
      Converts text orig done values values' ∧ Ahead text orig lenUtf16 offsets' values' ∧
      ∀ k ∈ offsets', lenUtf16 < orig k
  | [], values, h => ⟨[], [], values, rfl, rfl, ⟨rfl, fun _ => rfl⟩, h, nofun⟩
  | slot :: offsets, values, h => by
    obtain ⟨hlt, hval⟩ := h.slot slot List.mem_cons_self
    obtain ⟨hge, -⟩ := h.ahead slot List.mem_cons_self
    obtain ⟨hnot, hnodup⟩ := List.nodup_cons.1 h.nodup
    obtain ⟨hfirst, hsorted⟩ := List.pairwise_cons.1 h.sorted
    unfold patch
    rw [hval]
    by_cases heq : orig slot = lenUtf16
    · have htail : Ahead text orig lenUtf16 offsets (values.set slot (toUtf8 text lenUtf16)) :=
        { nodup := hnodup
          sorted := hsorted
          slot := fun k hk => by
            have hne : k ≠ slot := fun he => hnot (he ▸ hk)
            have hslot := h.slot k (List.mem_cons_of_mem _ hk)
            rw [List.length_set, getD_set values hlt, if_neg hne]
            exact hslot
          ahead := fun k hk => h.ahead k (List.mem_cons_of_mem _ hk) }
      obtain ⟨done, offsets', values', rfl, hpatch, ⟨hlen, hconv⟩, hahead, hbehind⟩ := patch_converts htail
      refine ⟨slot :: done, offsets', values', rfl, ?_, ⟨?_, fun k => ?_⟩, hahead, hbehind⟩
      · rw [if_pos (Nat.le_of_eq heq), if_pos heq]
        exact hpatch
      · rw [hlen, List.length_set]
      · rw [hconv k, getD_set values hlt]
        by_cases hk : k = slot
        · subst hk
          have hout : k ∉ done := fun hm => hnot (List.mem_append_left _ hm)
          rw [if_neg hout, if_pos rfl, if_pos List.mem_cons_self, heq]
        · rw [if_neg hk]
          simp only [List.mem_cons, hk, false_or]
    · refine ⟨[], slot :: offsets, values, rfl, ?_, ⟨rfl, fun _ => rfl⟩, h, fun k hk => ?_⟩
      · rw [if_neg (by omega)]
      · rcases List.mem_cons.1 hk with rfl | hk
        · omega
        · have := hfirst k hk
          omega

/-- From a prefix on, the pass converts every slot that is left. -/
theorem sweep_converts : ∀ {rest pre : Str} {offsets values : List Nat}, text = pre ++ rest →
    Ahead text orig (Utf16.len pre) offsets values →
    ∃ values', sweep (rest ++ ['\x00']) (len pre) (Utf16.len pre) offsets values = some values' ∧
      Converts text orig offsets values values'
  | rest, pre, offsets, values, htext, h => by
    have hlen : len pre = toUtf8 text (Utf16.len pre) := by rw [htext, toUtf8_append]
    have hpatch := patch_converts h
    obtain ⟨done, offsets', values', rfl, hp, ⟨hsize, hconv⟩, hahead, hbehind⟩ := hpatch
    by_cases hempty : (done ++ offsets').isEmpty = true
    · have hnil := List.isEmpty_iff.1 hempty
      refine ⟨values, ?_, rfl, fun k => ?_⟩
      · cases rest <;> simp only [List.nil_append, List.cons_append, sweep, hempty, if_true]
      · rw [hnil, if_neg List.not_mem_nil]
    -- what the patched slots and the rest make of all of them
    have hjoin {values'' : List Nat} (hc : Converts text orig offsets' values' values'') :
        Converts text orig (done ++ offsets') values values'' := by
      refine ⟨hc.1.trans hsize, fun k => ?_⟩
      rw [hc.2 k, hconv k]
      by_cases hk : k ∈ offsets'
      · rw [if_pos hk, if_pos (List.mem_append_right _ hk)]
      · rw [if_neg hk]
        simp only [List.mem_append, hk, or_false]
    cases rest with
    | nil =>
      -- at the end of the text nothing lies behind
      have hnone : offsets' = [] := by
        rw [List.eq_nil_iff_forall_not_mem]
        intro k hk
        have hle := (hahead.ahead k hk).2.le
        rw [htext, List.append_nil] at hle
        have := hbehind k hk
        omega
      subst hnone
      refine ⟨values', ?_, hjoin ⟨rfl, fun _ => rfl⟩⟩
      rw [List.nil_append, sweep, if_neg hempty, hlen, hp]
      rfl
    | cons c rest =>
      have hstep : Ahead text orig (Utf16.len (pre ++ [c])) offsets' values' :=
        { hahead with
          ahead := fun k hk => by
            obtain ⟨-, hb⟩ := hahead.ahead k hk
            have hskip := Utf16.IsBoundary.skip (htext ▸ hb) (hbehind k hk)
            rw [Utf16.len_append, Utf16.len_cons, Utf16.len_nil]
            exact ⟨hskip, hb⟩ }
      have hsplit : text = (pre ++ [c]) ++ rest := by rw [htext, List.append_assoc, List.singleton_append]
      obtain ⟨values'', hs, hc⟩ := sweep_converts hsplit hstep
      refine ⟨values'', ?_, hjoin hc⟩
      rw [List.cons_append, sweep, if_neg hempty, hlen, hp]
      simp only [len_append, len_cons, len_nil, Utf16.len_append, Utf16.len_cons, Utf16.len_nil, Nat.add_zero] at hs
      rw [← hlen]
      exact hs

end sweep

/-! ## The entities -/

section parse

variable {text : Str} {entities : List MessageEntity}

theorem length_offsetsOf (entities : List MessageEntity) : (offsetsOf entities).length = 2 * entities.length := by
  unfold offsetsOf
  rw [List.length_flatMap]
  simp [Nat.mul_comm]

theorem mem_offsetsOf {o : Nat} : o ∈ offsetsOf entities ↔ ∃ e ∈ entities, o = e.offset ∨ o = e.offset + e.length := by
  unfold offsetsOf
  simp

theorem withOffsets_map (f : Nat → Nat) (entities : List MessageEntity) :
    withOffsets text entities ((offsetsOf entities).map f) =
      entities.map fun e => ⟨text, f e.offset, f (e.offset + e.length), e.kind⟩ := by
  induction entities with
  | nil => rfl
  | cons e entities ih =>
    exact congrArg (MessageEntityRef.mk text (f e.offset) (f (e.offset + e.length)) e.kind :: ·) ih

/-- The characters between two boundaries. -/
theorem between {o n : Nat} (hstart : Utf16.IsBoundary text o) (hstop : Utf16.IsBoundary text (o + n)) :
    ∃ pre mid rest, text = pre ++ mid ++ rest ∧ Utf16.len pre = o ∧ Utf16.len mid = n := by
  obtain ⟨pre, rest, htext, hpre⟩ := hstart
  obtain ⟨pre', rest', htext', hpre'⟩ := hstop
  rcases List.append_eq_append_iff.1 (htext.symm.trans htext') with ⟨mid, hmid, hrest⟩ | ⟨mid, hmid, hrest⟩
  · refine ⟨pre, mid, rest', by rw [htext', hmid], hpre, ?_⟩
    rw [hmid, Utf16.len_append] at hpre'
    omega
  · -- an empty entity
    rw [hmid, Utf16.len_append] at hpre
    have hlen : Utf16.len mid = 0 := by omega
    have hnil : mid = [] := by
      cases mid with
      | nil => rfl
      | cons c mid =>
        have := Utf16.size_pos c
        rw [Utf16.len_cons] at hlen
        omega
    subst hnil
    refine ⟨pre, [], rest, by rw [htext, List.append_nil], ?_, ?_⟩
    · rw [hmid, Utf16.len_append]
      omega
    · rw [Utf16.len_nil]
      omega

theorem parse_eq {offsets : List Nat} (ho : PopOrder (offsetsOf entities) offsets)
    (hb : ∀ o ∈ offsetsOf entities, Utf16.IsBoundary text o) : parse text entities offsets =
      some (entities.map fun e => ⟨text, toUtf8 text e.offset, toUtf8 text (e.offset + e.length), e.kind⟩) := by
  obtain ⟨hperm, hsorted⟩ := ho
  have hmem (k : Nat) : k ∈ offsets ↔ k < (offsetsOf entities).length := by rw [hperm.mem_iff, List.mem_range]
  have hahead : Ahead text (fun k => (offsetsOf entities).getD k 0) (Utf16.len []) offsets (offsetsOf entities) :=
    { nodup := hperm.nodup_iff.2 List.nodup_range
      sorted := hsorted
      slot := fun k hk => ⟨(hmem k).1 hk, rfl⟩
      ahead := fun k hk => by
        have hlt := (hmem k).1 hk
        rw [List.getD_eq_getElem _ _ hlt]
        exact ⟨Nat.zero_le _, hb _ (List.getElem_mem hlt)⟩ }
  obtain ⟨values, hs, hlen, hconv⟩ := sweep_converts (List.nil_append text).symm hahead
  have hvalues : values = (offsetsOf entities).map (toUtf8 text) := by
    refine List.ext_getElem (by rw [hlen, List.length_map]) fun k h₁ h₂ => ?_
    have hk := hconv k
    rw [List.length_map] at h₂
    rw [if_pos ((hmem k).2 h₂), List.getD_eq_getElem _ _ h₁] at hk
    rw [hk, List.getElem_map]
    exact congrArg (toUtf8 text) (List.getD_eq_getElem _ _ h₂)
  have hsweep : sweep (text ++ ['\x00']) 0 0 offsets (offsetsOf entities) = some values := hs
  unfold parse
  rw [hsweep, Option.map_some, hvalues, withOffsets_map]

/-- Entities on character boundaries keep their number, order and kinds, and each gets the
byte range of the characters that its UTF-16 range covers. -/
theorem entity_ranges {offsets : List Nat} (ho : PopOrder (offsetsOf entities) offsets)
    (hb : ∀ e ∈ entities, Utf16.IsBoundary text e.offset ∧ Utf16.IsBoundary text (e.offset + e.length)) :
    ∃ refs, parse text entities offsets = some refs ∧ refs.map (·.kind) = entities.map (·.kind) ∧
      List.Forall₂ (fun e r => r.message = text ∧ ∃ pre mid rest, text = pre ++ mid ++ rest ∧
        Utf16.len pre = e.offset ∧ Utf16.len mid = e.length ∧ r.start = len pre ∧ r.stop = len (pre ++ mid) ∧
        r.text = .ok mid) entities refs := by
  have hbound : ∀ o ∈ offsetsOf entities, Utf16.IsBoundary text o := by
    intro o ho
    obtain ⟨e, he, rfl | rfl⟩ := mem_offsetsOf.1 ho
    · exact (hb e he).1
    · exact (hb e he).2
  refine ⟨_, parse_eq ho hbound, by rw [List.map_map]; rfl, ?_⟩
  rw [List.forall₂_map_right_iff, List.forall₂_same]
  intro e he
  obtain ⟨pre, mid, rest, htext, hpre, hmid⟩ := between (hb e he).1 (hb e he).2
  have hstart : toUtf8 text e.offset = len pre := by rw [htext, List.append_assoc, ← hpre, toUtf8_append]
  have hstop : toUtf8 text (e.offset + e.length) = len (pre ++ mid) := by
    rw [htext, ← hpre, ← hmid, ← Utf16.len_append, toUtf8_append]
  refine ⟨rfl, pre, mid, rest, htext, hpre, hmid, hstart, hstop, ?_⟩
  show slice text (toUtf8 text e.offset) (toUtf8 text (e.offset + e.length)) = .ok mid
  rw [hstart, hstop, htext, len_append, List.append_assoc]
  exact slice_append pre mid rest

end parse

/-- A character of two code units, covered alone and in the whole of the text. -/
theorem entity_ranges_emoji : ∃ refs,
    parse ['a', '😀', 'б'] [⟨.bold, 1, 2⟩, ⟨.italic, 0, 4⟩] [2, 0, 1, 3] = some refs ∧
      refs.map (·.kind) = [.bold, .italic] := by
  have ho : PopOrder (offsetsOf [⟨.bold, 1, 2⟩, ⟨.italic, 0, 4⟩]) [2, 0, 1, 3] := by
    unfold PopOrder
    decide
  have hb : ∀ e ∈ [(⟨.bold, 1, 2⟩ : MessageEntity), ⟨.italic, 0, 4⟩],
      Utf16.IsBoundary ['a', '😀', 'б'] e.offset ∧ Utf16.IsBoundary ['a', '😀', 'б'] (e.offset + e.length) := by
    intro e he
    simp only [List.mem_cons, List.not_mem_nil, or_false] at he
    rcases he with rfl | rfl
    · exact ⟨⟨['a'], ['😀', 'б'], rfl, by decide⟩, ⟨['a', '😀'], ['б'], rfl, by decide⟩⟩
    · exact ⟨⟨[], _, rfl, rfl⟩, ⟨['a', '😀', 'б'], [], rfl, by decide⟩⟩
  obtain ⟨refs, hp, hk, -⟩ := entity_ranges ho hb
  exact ⟨refs, hp, hk⟩

end MessageEntityRef

end Teloxide.Types
