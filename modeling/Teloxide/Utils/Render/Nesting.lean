import Mathlib
import Teloxide.Utils.Render.Renderer

/-!
# Rendered tags are nested

Entities in Telegram's order, any two of them nested or disjoint, give well bracketed tags:
the index breaks ties between starts one way and between ends the other. The marker of a new
line lies between the tags of its quote unless that newline is the quote's last unit: then
it has the offset of the end, and ends come first.

* `bracketed_of_open`: the open tags are a stack of falling indices, and the end that comes
  next is that of the top.
* `nesting_iff`
-/
namespace Teloxide.Utils.Render

open Teloxide.Core Utf8 Teloxide.Types

/-! ## The order of tags -/

/-- The comparator, spelled out. -/
def Tag.Before (a b : Tag) : Prop :=
  a.offset < b.offset ∨ a.offset = b.offset ∧ (a.place.rank < b.place.rank ∨ a.place = b.place ∧
    match b.place with
    | .start | .midNewLine => a.index ≤ b.index
    | .end => b.index ≤ a.index)

theorem Place.rank_inj {p q : Place} : p.rank = q.rank ↔ p = q := by
  cases p <;> cases q <;> simp [Place.rank]

theorem Tag.Before.offset_le {a b : Tag} (h : a.Before b) : a.offset ≤ b.offset := by
  rcases h with h | ⟨h, -⟩ <;> omega

/-- At one offset an earlier place comes first. -/
theorem Tag.Before.offset_lt {a b : Tag} (h : a.Before b) (hr : b.place.rank < a.place.rank) : a.offset < b.offset := by
  rcases h with h | ⟨-, h | ⟨h, -⟩⟩
  · exact h
  · omega
  · rw [h] at hr
    omega

theorem Tag.le_iff {a b : Tag} : a.le b = true ↔ a.Before b := by
  unfold Tag.le Tag.cmp Tag.Before
  rcases Nat.lt_trichotomy a.offset b.offset with ho | ho | ho
  · rw [Nat.compare_eq_lt.2 ho]
    simp [ho]
  · rcases Nat.lt_trichotomy a.place.rank b.place.rank with hp | hp | hp
    · rw [Nat.compare_eq_eq.2 ho, Nat.compare_eq_lt.2 hp]
      simp [ho, hp]
    · rw [Nat.compare_eq_eq.2 ho, Nat.compare_eq_eq.2 hp]
      have hplace := Place.rank_inj.1 hp
      cases hb : b.place <;> simp [ho, hplace, hb, Nat.isLE_compare]
    · rw [Nat.compare_eq_eq.2 ho, Nat.compare_eq_gt.2 hp]
      have hne : a.place ≠ b.place := fun h => by
        rw [h] at hp
        omega
      simp [ho, hne]
      omega
  · rw [Nat.compare_eq_gt.2 ho]
    simp
    omega

theorem Tag.le_trans (a b c : Tag) (hab : a.le b = true) (hbc : b.le c = true) : a.le c = true := by
  rw [Tag.le_iff] at *
  unfold Tag.Before at *
  rcases hab with hab | ⟨ho, hab | ⟨hp, hab⟩⟩ <;> rcases hbc with hbc | ⟨ho', hbc | ⟨hp', hbc⟩⟩
  · exact .inl (by omega)
  · exact .inl (by omega)
  · exact .inl (by omega)
  · exact .inl (by omega)
  · exact .inr ⟨by omega, .inl (by omega)⟩
  · exact .inr ⟨by omega, .inl (by rw [← hp']; exact hab)⟩
  · exact .inl (by omega)
  · exact .inr ⟨by omega, .inl (by rw [hp]; exact hbc)⟩
  · refine .inr ⟨by omega, .inr ⟨hp.trans hp', ?_⟩⟩
    rw [hp'] at hab
    cases hc : c.place <;> simp only [hc] at hab hbc ⊢ <;> omega

theorem Tag.le_total (a b : Tag) : (a.le b || b.le a) = true := by
  rw [Bool.or_eq_true, Tag.le_iff, Tag.le_iff]
  unfold Tag.Before
  rcases Nat.lt_trichotomy a.offset b.offset with ho | ho | ho
  · exact .inl (.inl ho)
  · rcases Nat.lt_trichotomy a.place.rank b.place.rank with hp | hp | hp
    · exact .inl (.inr ⟨ho, .inl hp⟩)
    · have hplace := Place.rank_inj.1 hp
      rcases Nat.le_total a.index b.index with hi | hi <;> cases hb : b.place <;> simp [ho, hplace, hb, hi]
    · exact .inr (.inr ⟨ho.symm, .inl hp⟩)
  · exact .inr (.inl ho)

/-! ## Brackets -/

/-- Every end closes the tag that was opened last and is still open. -/
def bracketed : List Tag → List Nat → Bool
  | [], opened => opened.isEmpty
  | tag :: tags, opened =>
    match tag.place with
    | .start => bracketed tags (tag.index :: opened)
    | .midNewLine => bracketed tags opened
    | .end =>
      match opened with
      | [] => false
      | i :: opened => i == tag.index && bracketed tags opened

/-- Every marker of a new line lies between the start and the end of its entity. -/
def Between (tags : List Tag) : Prop :=
  ∀ before marker after, tags = before ++ marker :: after → marker.place = .midNewLine →
    (∃ t ∈ before, t.place = .start ∧ t.index = marker.index) ∧ ∃ t ∈ after, t.place = .end ∧ t.index = marker.index

/-- Entities as Telegram sends them: not empty, in order, any two nested or disjoint. -/
structure Telegram (entities : List MessageEntity) : Prop where
  nonempty : ∀ e ∈ entities, 0 < e.length
  order : entities.Pairwise fun a b => a.offset < b.offset ∨ a.offset = b.offset ∧ b.length ≤ a.length
  nested : entities.Pairwise fun a b =>
    a.offset ≤ b.offset ∧ b.offset + b.length ≤ a.offset + a.length ∨
    b.offset ≤ a.offset ∧ a.offset + a.length ≤ b.offset + b.length ∨
    a.offset + a.length ≤ b.offset ∨ b.offset + b.length ≤ a.offset

theorem mem_newLineOffsets {text : Str} {entity : MessageEntity} {x : Nat} : x ∈ newLineOffsets text entity ↔
    ∃ u, entity.offset ≤ u ∧ u < entity.offset + entity.length ∧ (Utf16.encode text)[u]? = some '\n'.toNat ∧ x = u + 1 := by
  unfold newLineOffsets
  rw [List.mem_filterMap]
  simp only [List.mem_iff_getElem?, List.getElem?_take, List.getElem?_drop, List.getElem?_zipIdx]
  constructor
  · rintro ⟨⟨unit, offset⟩, ⟨i, hi⟩, hx⟩
    split at hi
    · rename_i hlt
      obtain ⟨unit', hu, he⟩ := Option.map_eq_some_iff.1 hi
      obtain ⟨rfl, rfl⟩ := Prod.mk.inj he
      dsimp only at hx
      split at hx
      · rename_i hn
        obtain rfl := Option.some.inj hx
        exact ⟨entity.offset + i, by omega, by omega, hn ▸ hu, by omega⟩
      · cases hx
    · cases hi
  · rintro ⟨u, hle, hlt, hu, rfl⟩
    refine ⟨('\n'.toNat, u), ⟨u - entity.offset, ?_⟩, if_pos rfl⟩
    have hsum : entity.offset + (u - entity.offset) = u := by omega
    rw [if_pos (by omega), hsum, hu, Option.map_some, Nat.zero_add]

section nesting

variable {text : Str} {entities : List MessageEntity} {a b t : Tag}

/-- The entity behind a tag, and where the tag stands. -/
theorem tag_of_mem (h : t ∈ (Renderer.new text entities).tags) : ∃ e, entities[t.index]? = some e ∧
    kindOf e.kind = some t.kind ∧
    match t.place with
    | .start => t.offset = e.offset
    | .midNewLine => t.kind.isQuote = true ∧ t.offset ∈ newLineOffsets text e
    | .end => t.offset = e.offset + e.length := by
  obtain ⟨e, he, hm⟩ := mem_buildTags.1 (mem_new_tags.1 h)
  obtain ⟨kind, hk, rfl, -, hplace⟩ := mem_tagsOf.1 hm
  exact ⟨e, he, hk, hplace⟩

/-- An entity with a tag has a start and an end. -/
theorem ends_of_mem (h : t ∈ (Renderer.new text entities).tags) {e : MessageEntity} (he : entities[t.index]? = some e) :
    (⟨.start, t.kind, e.offset, t.index⟩ : Tag) ∈ (Renderer.new text entities).tags ∧
      (⟨.end, t.kind, e.offset + e.length, t.index⟩ : Tag) ∈ (Renderer.new text entities).tags := by
  obtain ⟨e', he', hk, -⟩ := tag_of_mem h
  obtain rfl := Option.some.inj (he.symm.trans he')
  exact ⟨mem_new_tags.2 (mem_buildTags.2 ⟨e, he, mem_tagsOf.2 ⟨_, hk, rfl, rfl, rfl⟩⟩),
    mem_new_tags.2 (mem_buildTags.2 ⟨e, he, mem_tagsOf.2 ⟨_, hk, rfl, rfl, rfl⟩⟩)⟩

/-- Tags of one entity at one place differ in their offset only. -/
theorem tag_ext (ha : a ∈ (Renderer.new text entities).tags) (hb : b ∈ (Renderer.new text entities).tags)
    (hp : a.place = b.place) (hi : a.index = b.index) (ho : a.offset = b.offset) : a = b := by
  obtain ⟨e, he, hk, -⟩ := tag_of_mem ha
  obtain ⟨e', he', hk', -⟩ := tag_of_mem hb
  rw [hi] at he
  obtain rfl := Option.some.inj (he.symm.trans he')
  have hkind := Option.some.inj (hk.symm.trans hk')
  obtain ⟨pa, ka, oa, ia⟩ := a
  obtain ⟨pb, kb, ob, ib⟩ := b
  dsimp only at hp hi ho hkind
  rw [hp, hi, ho, hkind]

theorem nodup_newLineOffsets (text : Str) (e : MessageEntity) : (newLineOffsets text e).Nodup := by
  unfold newLineOffsets
  have hunits : ((Utf16.encode text).zipIdx.map (·.2)).Pairwise (· < ·) := by
    rw [List.zipIdx_map_snd]
    exact List.pairwise_lt_range'
  have hpart : (((Utf16.encode text).zipIdx.drop e.offset).take e.length).Pairwise (·.2 < ·.2) :=
    ((List.pairwise_map.1 hunits).sublist (List.drop_sublist _ _)).sublist (List.take_sublist _ _)
  rw [List.nodup_iff_pairwise_ne, List.pairwise_filterMap]
  refine hpart.imp fun hlt x hx y hy hxy => ?_
  dsimp only at hx hy
  split at hx
  · split at hy
    · obtain rfl := Option.some.inj hx
      obtain rfl := Option.some.inj hy
      omega
    · cases hy
  · cases hx

theorem nodup_tagsOf (text : Str) (e : MessageEntity) (index : Nat) : (tagsOf text e index).Nodup := by
  unfold tagsOf
  cases kindOf e.kind with
  | none => exact List.nodup_nil
  | some kind =>
    have hmids : (if kind.isQuote then
        (newLineOffsets text e).map fun offset => (⟨.midNewLine, kind, offset, index⟩ : Tag) else []).Nodup := by
      split
      · exact List.Nodup.map (fun x y h => (Tag.mk.inj h).2.2.1) (nodup_newLineOffsets text e)
      · exact List.nodup_nil
    have hplace : ∀ t ∈ (if kind.isQuote then
        (newLineOffsets text e).map fun offset => (⟨.midNewLine, kind, offset, index⟩ : Tag) else []),
        t.place = .midNewLine := by
      intro t ht
      split at ht
      · obtain ⟨_, -, rfl⟩ := List.mem_map.1 ht
        rfl
      · cases ht
    dsimp only
    generalize (if kind.isQuote then
      (newLineOffsets text e).map fun offset => (⟨.midNewLine, kind, offset, index⟩ : Tag) else []) = mids at hmids hplace
    rw [List.cons_append, List.nodup_cons, List.nodup_append]
    refine ⟨fun hm => ?_, hmids, List.nodup_singleton _, fun x hx y hy hxy => ?_⟩
    · rcases List.mem_append.1 hm with hm | hm
      · cases hplace _ hm
      · rw [List.mem_singleton] at hm
        cases hm
    · rw [List.mem_singleton] at hy
      have := hplace x hx
      rw [hxy, hy] at this
      cases this

theorem nodup_new : (Renderer.new text entities).tags.Nodup := by
  refine (List.mergeSort_perm _ _).nodup_iff.2 ?_
  unfold buildTags
  rw [List.nodup_flatMap]
  refine ⟨fun p _ => nodup_tagsOf text p.1 p.2, ?_⟩
  have hindex : (entities.zipIdx.map (·.2)).Pairwise (· < ·) := by
    rw [List.zipIdx_map_snd]
    exact List.pairwise_lt_range'
  refine (List.pairwise_map.1 hindex).imp fun {p q} hlt t hp hq => ?_
  obtain ⟨_, -, -, hp, -⟩ := mem_tagsOf.1 hp
  obtain ⟨_, -, -, hq, -⟩ := mem_tagsOf.1 hq
  omega

theorem sorted_new : (Renderer.new text entities).tags.Pairwise Tag.Before :=
  (List.pairwise_mergeSort Tag.le_trans Tag.le_total _).imp Tag.le_iff.1

/-- An unstable sort has no choice. -/
theorem sort_unstable {tags : List Tag} (hp : tags.Perm (buildTags text entities)) (hs : tags.Pairwise Tag.Before) :
    tags = (Renderer.new text entities).tags := by
  have hperm : tags.Perm (Renderer.new text entities).tags := hp.trans (List.mergeSort_perm _ _).symm
  refine List.Perm.eq_of_pairwise (fun a b ha hb hab hba => ?_) hs sorted_new hperm
  have ho : a.offset = b.offset := by
    have := hab.offset_le
    have := hba.offset_le
    omega
  have hplace : a.place = b.place := by
    refine Place.rank_inj.1 (Nat.le_antisymm (Nat.le_of_not_lt fun h => ?_) (Nat.le_of_not_lt fun h => ?_))
    · have := hab.offset_lt h
      omega
    · have := hba.offset_lt h
      omega
  refine tag_ext (hperm.mem_iff.1 ha) hb hplace ?_ ho
  unfold Tag.Before at hab hba
  rw [hplace] at hab hba
  cases hb' : b.place <;> rw [hb'] at hab hba <;> dsimp only at hab hba <;> omega

end nesting

/-! ## The open tags -/

section opened

variable {text : Str} {entities : List MessageEntity} {a b t : Tag} {done rest : List Tag}

/-- The entities that the tags so far have opened and not closed. -/
def Opened (done : List Tag) (i : Nat) : Prop :=
  (∃ t ∈ done, t.place = .start ∧ t.index = i) ∧ ¬ ∃ t ∈ done, t.place = .end ∧ t.index = i

/-- Of two entities that Telegram sends, the later one neither starts nor ends outside. -/
theorem Telegram.inside (h : Telegram entities) {i j : Nat} {d e : MessageEntity} (hij : i < j)
    (hd : entities[i]? = some d) (he : entities[j]? = some e) (hmeet : e.offset < d.offset + d.length) :
    d.offset ≤ e.offset ∧ e.offset + e.length ≤ d.offset + d.length := by
  obtain ⟨hi, rfl⟩ := List.getElem?_eq_some_iff.1 hd
  obtain ⟨hj, rfl⟩ := List.getElem?_eq_some_iff.1 he
  have horder := List.pairwise_iff_getElem.1 h.order i j hi hj hij
  have hnested := List.pairwise_iff_getElem.1 h.nested i j hi hj hij
  have hpos := h.nonempty _ (List.getElem_mem hi)
  have hpos' := h.nonempty _ (List.getElem_mem hj)
  omega

theorem Telegram.offset_le (h : Telegram entities) {i j : Nat} {d e : MessageEntity} (hij : i < j)
    (hd : entities[i]? = some d) (he : entities[j]? = some e) : d.offset ≤ e.offset := by
  obtain ⟨hi, rfl⟩ := List.getElem?_eq_some_iff.1 hd
  obtain ⟨hj, rfl⟩ := List.getElem?_eq_some_iff.1 he
  have := List.pairwise_iff_getElem.1 h.order i j hi hj hij
  omega

/-- What comes before a tag in the list comes before it in the order. -/
theorem before_of_split (hs : (Renderer.new text entities).tags = done ++ t :: rest) :
    (∀ a ∈ done, a.Before t) ∧ ∀ b ∈ rest, t.Before b := by
  have hsorted : (done ++ t :: rest).Pairwise Tag.Before := hs ▸ sorted_new
  obtain ⟨-, htail, hcross⟩ := List.pairwise_append.1 hsorted
  exact ⟨fun a ha => hcross a ha t List.mem_cons_self, (List.pairwise_cons.1 htail).1⟩

/-- A tag is in front of another one if it is not behind it. -/
theorem mem_front (hs : (Renderer.new text entities).tags = done ++ t :: rest)
    (ha : a ∈ (Renderer.new text entities).tags) (hne : a ≠ t) (hnot : ¬ t.Before a) : a ∈ done := by
  rw [hs] at ha
  rcases List.mem_append.1 ha with ha | ha
  · exact ha
  · rcases List.mem_cons.1 ha with ha | ha
    · exact absurd ha hne
    · exact absurd ((before_of_split hs).2 a ha) hnot

/-- The stack of the open entities after one more tag. -/
theorem bracketed_of_open (h : Telegram entities) : ∀ {rest done : List Tag} {opened : List Nat},
    (Renderer.new text entities).tags = done ++ rest → opened.Pairwise (· > ·) → (∀ i, i ∈ opened ↔ Opened done i) →
    bracketed rest opened = true
  | [], done, opened, hs, _, hopen => by
    rw [List.append_nil] at hs
    refine List.isEmpty_iff.2 (List.eq_nil_iff_forall_not_mem.2 fun i hi => ?_)
    obtain ⟨⟨t, ht, -, rfl⟩, hnot⟩ := (hopen i).1 hi
    have hm : t ∈ (Renderer.new text entities).tags := hs ▸ ht
    obtain ⟨e, he, -⟩ := tag_of_mem hm
    obtain ⟨-, hend⟩ := ends_of_mem hm he
    rw [hs] at hend
    exact hnot ⟨_, hend, rfl, rfl⟩
  | t :: rest, done, opened, hs, hsorted, hopen => by
    have hmem : ∀ a ∈ done, a ∈ (Renderer.new text entities).tags := fun a ha => hs ▸ List.mem_append_left _ ha
    have ht : t ∈ (Renderer.new text entities).tags := hs ▸ List.mem_append_right _ List.mem_cons_self
    have hfresh : t ∉ done := fun hd => by
      have hnodup : (done ++ t :: rest).Nodup := hs ▸ nodup_new
      exact (List.nodup_append.1 hnodup).2.2 t hd t List.mem_cons_self rfl
    have hnext : (Renderer.new text entities).tags = (done ++ [t]) ++ rest := by
      rw [hs, List.append_assoc, List.singleton_append]
    obtain ⟨hfront, hback⟩ := before_of_split hs
    obtain ⟨e, he, hk, hplace⟩ := tag_of_mem ht
    have hpos := h.nonempty e (List.mem_of_getElem? he)
    have hone (i : Nat) (p : Place) : (∃ a ∈ done ++ [t], a.place = p ∧ a.index = i) ↔
        (∃ a ∈ done, a.place = p ∧ a.index = i) ∨ t.place = p ∧ t.index = i := by
      simp only [List.mem_append, List.mem_singleton, or_and_right, exists_or, exists_eq_left]
    unfold bracketed
    cases hp : t.place with
    | midNewLine =>
      refine bracketed_of_open h hnext hsorted fun i => ?_
      rw [hopen i, Opened, Opened, hone, hone, hp]
      simp
    | start =>
      rw [hp] at hplace
      dsimp only at hplace ⊢
      -- an entity that is open starts before this one
      have hearlier : ∀ i ∈ opened, i < t.index := by
        intro i hi
        obtain ⟨⟨a, ha, hpa, rfl⟩, -⟩ := (hopen i).1 hi
        obtain ⟨d, hd, -, hoff⟩ := tag_of_mem (hmem a ha)
        rw [hpa] at hoff
        dsimp only at hoff
        by_contra hle
        by_cases heq : a.index = t.index
        · rw [heq] at hd
          obtain rfl := Option.some.inj (hd.symm.trans he)
          exact hfresh (tag_ext (hmem a ha) ht (hpa.trans hp.symm) heq (by omega) ▸ ha)
        · have hlater := h.offset_le (show t.index < a.index by omega) he hd
          have hbefore := hfront a ha
          unfold Tag.Before at hbefore
          rw [hpa, hp] at hbefore
          dsimp only at hbefore
          omega
      refine bracketed_of_open h hnext (List.pairwise_cons.2 ⟨hearlier, hsorted⟩) fun i => ?_
      rw [List.mem_cons, hopen i, Opened, Opened, hone, hone, hp]
      simp only [reduceCtorEq, false_and, or_false, true_and]
      constructor
      · rintro (rfl | ⟨hst, hend⟩)
        · refine ⟨.inr rfl, fun ⟨a, ha, hpa, hia⟩ => ?_⟩
          -- its end lies behind its start
          obtain ⟨d, hd, -, hoff⟩ := tag_of_mem (hmem a ha)
          rw [hpa] at hoff
          dsimp only at hoff
          rw [hia] at hd
          obtain rfl := Option.some.inj (hd.symm.trans he)
          have hbefore := (hfront a ha).offset_le
          omega
        · exact ⟨.inl hst, hend⟩
      · rintro ⟨hst | rfl, hend⟩
        · exact .inr ⟨hst, hend⟩
        · exact .inl rfl
    | «end» =>
      rw [hp] at hplace
      dsimp only at hplace ⊢
      obtain ⟨hstart, -⟩ := ends_of_mem ht he
      have hself : t.index ∈ opened := by
        refine (hopen _).2 ⟨⟨_, mem_front hs hstart ?_ ?_, rfl, rfl⟩, fun ⟨a, ha, hpa, hia⟩ => ?_⟩
        · intro heq
          have := congrArg Tag.place heq
          rw [hp] at this
          cases this
        · intro hbefore
          have := hbefore.offset_le
          dsimp only at this
          omega
        · obtain ⟨d, hd, -, hoff⟩ := tag_of_mem (hmem a ha)
          rw [hpa] at hoff
          dsimp only at hoff
          rw [hia] at hd
          obtain rfl := Option.some.inj (hd.symm.trans he)
          exact hfresh (tag_ext (hmem a ha) ht (hpa.trans hp.symm) hia (by omega) ▸ ha)
      -- an entity that was opened later is closed earlier
      have htop : ∀ i ∈ opened, i ≤ t.index := by
        intro i hi
        obtain ⟨⟨a, ha, hpa, rfl⟩, hnot⟩ := (hopen i).1 hi
        obtain ⟨d, hd, -, hoff⟩ := tag_of_mem (hmem a ha)
        rw [hpa] at hoff
        dsimp only at hoff
        by_contra hlt
        have hmeet : d.offset < e.offset + e.length := by
          have := (hfront a ha).offset_lt (by rw [hpa, hp]; decide)
          omega
        obtain ⟨-, hinside⟩ := h.inside (Nat.lt_of_not_le hlt) he hd hmeet
        obtain ⟨-, hend⟩ := ends_of_mem (hmem a ha) hd
        refine hnot ⟨_, mem_front hs hend ?_ ?_, rfl, rfl⟩
        · intro heq
          have := congrArg Tag.index heq
          dsimp only at this
          omega
        · intro hbefore
          unfold Tag.Before at hbefore
          rw [hp] at hbefore
          dsimp only [Place.rank] at hbefore
          omega
      cases opened with
      | nil => cases hself
      | cons i opened =>
        obtain ⟨hhead, htail⟩ := List.pairwise_cons.1 hsorted
        have hi : i = t.index := by
          have hle := htop i List.mem_cons_self
          rcases List.mem_cons.1 hself with hself | hself
          · exact hself.symm
          · have := hhead _ hself
            omega
        subst hi
        dsimp only
        rw [beq_self_eq_true, Bool.true_and]
        refine bracketed_of_open h hnext htail fun i => ?_
        rw [Opened, hone, hone, hp]
        simp only [reduceCtorEq, false_and, or_false, true_and, not_or]
        constructor
        · intro hi
          obtain ⟨hst, hend⟩ := (hopen i).1 (List.mem_cons_of_mem _ hi)
          exact ⟨hst, hend, fun heq => by have := hhead i hi; omega⟩
        · rintro ⟨hst, hend, hne⟩
          rcases List.mem_cons.1 ((hopen i).2 ⟨hst, hend⟩) with rfl | hi
          · exact absurd rfl hne
          · exact hi

end opened

/-! ## The markers of new lines -/

theorem between_iff {text : Str} {entities : List MessageEntity} (h : Telegram entities) :
    Between (Renderer.new text entities).tags ↔ ∀ e ∈ entities, (kindOf e.kind).any Kind.isQuote = true →
      (Utf16.encode text)[e.offset + e.length - 1]? ≠ some '\n'.toNat := by
  constructor
  · intro hbetween e he hquote hlast
    obtain ⟨kind, hk, hq⟩ := (Option.any_eq_true _ _).1 hquote
    obtain ⟨index, hindex⟩ := List.mem_iff_getElem?.1 he
    have hpos := h.nonempty e he
    -- the marker of the last unit has the offset of the end
    have hmarker : (⟨.midNewLine, kind, e.offset + e.length, index⟩ : Tag) ∈ (Renderer.new text entities).tags := by
      refine mem_new_tags.2 (mem_buildTags.2 ⟨e, hindex, mem_tagsOf.2 ⟨kind, hk, rfl, rfl, hq, ?_⟩⟩)
      exact mem_newLineOffsets.2 ⟨_, by omega, by omega, hlast, by show e.offset + e.length = _; omega⟩
    obtain ⟨before, after, hs⟩ := List.append_of_mem hmarker
    obtain ⟨-, t, ht, hp, hi⟩ := hbetween before _ after hs rfl
    have hmem : t ∈ (Renderer.new text entities).tags := by
      rw [hs]
      exact List.mem_append_right _ (List.mem_cons_of_mem _ ht)
    obtain ⟨d, hd, -, hoff⟩ := tag_of_mem hmem
    rw [hp] at hoff
    dsimp only at hoff hi
    rw [hi] at hd
    obtain rfl := Option.some.inj (hd.symm.trans hindex)
    have hbefore := ((before_of_split hs).2 t ht).offset_lt (by rw [hp]; exact Nat.zero_lt_one)
    dsimp only at hbefore
    omega
  · intro hlast before marker after hs hp
    have hmem : marker ∈ (Renderer.new text entities).tags := hs ▸ List.mem_append_right _ List.mem_cons_self
    obtain ⟨e, he, hk, hplace⟩ := tag_of_mem hmem
    rw [hp] at hplace
    obtain ⟨hq, hoff⟩ := hplace
    obtain ⟨u, hle, hlt, hu, hoff⟩ := mem_newLineOffsets.1 hoff
    have hne : u ≠ e.offset + e.length - 1 := fun heq =>
      hlast e (List.mem_of_getElem? he) (by rw [hk]; exact hq) (heq ▸ hu)
    obtain ⟨hstart, hend⟩ := ends_of_mem hmem he
    constructor
    · refine ⟨_, mem_front hs hstart ?_ ?_, rfl, rfl⟩
      · intro heq
        have := congrArg Tag.place heq
        rw [hp] at this
        cases this
      · intro hbefore
        have := hbefore.offset_le
        dsimp only at this
        omega
    · rw [hs] at hend
      rcases List.mem_append.1 hend with hend | hend
      · have := ((before_of_split hs).1 _ hend).offset_le
        dsimp only at this
        omega
      · rcases List.mem_cons.1 hend with hend | hend
        · have := congrArg Tag.place hend
          rw [hp] at this
          cases this
        · exact ⟨_, hend, rfl, rfl⟩

/-- The tags of entities that Telegram sends are well bracketed, and the markers lie between
the tags of their quotes exactly if no quote ends with a newline. -/
theorem nesting_iff {text : Str} {entities : List MessageEntity} (h : Telegram entities) :
    bracketed (Renderer.new text entities).tags [] = true ∧
    (Between (Renderer.new text entities).tags ↔ ∀ e ∈ entities, (kindOf e.kind).any Kind.isQuote = true →
      (Utf16.encode text)[e.offset + e.length - 1]? ≠ some '\n'.toNat) := by
  have hnone : ∀ i, i ∈ ([] : List Nat) ↔ Opened [] i := fun i => ⟨nofun, fun ⟨⟨_, ht, _⟩, _⟩ => (by cases ht)⟩
  exact ⟨bracketed_of_open h (List.nil_append _).symm .nil hnone, between_iff h⟩

/-- Two quotes next to each other, the first over two lines and with a bold start. -/
theorem nesting_iff_adjacent : bracketed (Renderer.new "a\nbc".toList
      [⟨.blockquote, 0, 3⟩, ⟨.bold, 0, 1⟩, ⟨.blockquote, 3, 1⟩]).tags [] = true ∧
    Between (Renderer.new "a\nbc".toList [⟨.blockquote, 0, 3⟩, ⟨.bold, 0, 1⟩, ⟨.blockquote, 3, 1⟩]).tags := by
  have h : Telegram [⟨.blockquote, 0, 3⟩, ⟨.bold, 0, 1⟩, ⟨.blockquote, 3, 1⟩] := ⟨by decide, by decide, by decide⟩
  obtain ⟨hbracketed, hbetween⟩ := @nesting_iff "a\nbc".toList _ h
  exact ⟨hbracketed, hbetween.2 (by decide)⟩

/-- The newline at the end of a quote puts its marker behind the end. -/
theorem marker_after_end : ¬ ∀ text entities, Telegram entities →
    bracketed (Renderer.new text entities).tags [] = true ∧ Between (Renderer.new text entities).tags := by
  intro hall
  have h : Telegram [⟨.blockquote, 0, 2⟩] := ⟨by decide, by decide, by decide⟩
  exact (between_iff h).1 (hall "a\n".toList _ h).2 _ List.mem_cons_self rfl (by decide)

end Teloxide.Utils.Render
