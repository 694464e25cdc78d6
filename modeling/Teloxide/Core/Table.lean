import Mathlib

/-!
# Finite maps

`Table K V` is a finite map: Mathlib's association list with distinct keys,
used at a constant value type. It stands for a hash map. The order of the
entries is the order of iteration, and no lemma here depends on it: a map is
observed through `lookup` and `size`.

Every operation has one `lookup` equation, tagged for `simp`, so that a proof
about a map never looks at the list behind it.
-/
namespace Teloxide.Core

/-- A finite map from `K` to `V`. -/
abbrev Table (K V : Type) := AList fun _ : K => V

namespace Table

variable {K V W : Type} [DecidableEq K]

@[simp] theorem lookup_insert_if (t : Table K V) (k a : K) (v : V) :
    AList.lookup a (AList.insert k v t) = if a = k then some v else AList.lookup a t := by
  by_cases h : a = k
  · subst h; rw [AList.lookup_insert, if_pos rfl]
  · rw [AList.lookup_insert_ne h, if_neg h]

@[simp] theorem lookup_erase_if (t : Table K V) (k a : K) :
    AList.lookup a (AList.erase k t) = if a = k then none else AList.lookup a t := by
  by_cases h : a = k
  · subst h; rw [AList.lookup_erase, if_pos rfl]
  · rw [AList.lookup_erase_ne h, if_neg h]

/-- Whether the key is bound. -/
def contains (t : Table K V) (k : K) : Bool := (t.lookup k).isSome

theorem contains_iff (t : Table K V) (k : K) : t.contains k = true ↔ ∃ v, t.lookup k = some v := by
  rw [contains, Option.isSome_iff_exists]

theorem contains_insert_iff (t : Table K V) (k a : K) (v : V) :
    Table.contains (AList.insert k v t) a = true ↔ a = k ∨ t.contains a = true := by
  simp only [contains, lookup_insert_if]
  split <;> simp_all

theorem contains_erase_iff (t : Table K V) (k a : K) :
    Table.contains (AList.erase k t) a = true ↔ a ≠ k ∧ t.contains a = true := by
  simp only [contains, lookup_erase_if]
  split <;> simp_all

theorem eq_empty_iff {t : Table K V} : t = ∅ ↔ ∀ k, t.lookup k = none := by
  constructor
  · rintro rfl k
    rfl
  · intro h
    refine AList.ext ?_
    cases he : t.entries with
    | nil => rfl
    | cons e l =>
      have hm : t.lookup e.1 = some e.2 := List.mem_dlookup_iff t.nodupKeys |>.2 (by rw [he]; exact List.mem_cons_self)
      rw [h e.1] at hm
      cases hm

/-- The number of bound keys. -/
def size (t : Table K V) : Nat := t.entries.length

omit [DecidableEq K] in
theorem size_eq_zero_iff {t : Table K V} : t.size = 0 ↔ t = ∅ := by
  rw [size, List.length_eq_zero_iff]
  exact ⟨fun h => AList.ext h, fun h => by rw [h]; rfl⟩

omit [DecidableEq K] in
theorem size_eq_keys (t : Table K V) : t.size = t.keys.length := (List.length_map _).symm

/-- A map whose keys are among those of another and some more is no larger. -/
theorem size_le_add {t : Table K V} {t' : Table K W} (extra : List K)
    (h : ∀ k, t.contains k = true → k ∈ extra ∨ t'.contains k = true) : t.size ≤ extra.length + t'.size := by
  have hsub : t.keys ⊆ extra ++ t'.keys := fun k hk =>
    List.mem_append.2 ((h k (AList.lookup_isSome.2 hk)).imp_right AList.lookup_isSome.1)
  rw [size_eq_keys, size_eq_keys, ← List.length_append]
  exact (List.subperm_of_subset t.keys_nodup hsub).length_le

/-- A map without one of the keys of another is smaller. -/
theorem size_lt {t : Table K V} {t' : Table K W} (h : ∀ k, t.contains k = true → t'.contains k = true) {a : K}
    (ha : t.contains a = false) (ha' : t'.contains a = true) : t.size < t'.size := by
  have hnot : a ∉ t.keys := by
    intro hk
    rw [contains, AList.lookup_isSome.2 hk] at ha
    cases ha
  have hn : (a :: t.keys).Nodup := List.nodup_cons.2 ⟨hnot, t.keys_nodup⟩
  have hsub : a :: t.keys ⊆ t'.keys := List.cons_subset.2
    ⟨AList.lookup_isSome.1 ha', fun k hk => AList.lookup_isSome.1 (h k (AList.lookup_isSome.2 hk))⟩
  rw [size_eq_keys, size_eq_keys]
  exact (List.subperm_of_subset hn hsub).length_le

/-- The values, in iteration order. -/
def values (t : Table K V) : List V := t.entries.map (·.2)

/-- Rewrites the value of a bound key, and does nothing at an unbound one. -/
def modify (t : Table K V) (k : K) (f : V → V) : Table K V :=
  match t.lookup k with
  | some v => t.insert k (f v)
  | none => t

@[simp] theorem lookup_modify (t : Table K V) (k a : K) (f : V → V) :
    (t.modify k f).lookup a = if a = k then (t.lookup k).map f else t.lookup a := by
  unfold modify
  cases h : t.lookup k with
  | some v => simp
  | none =>
    by_cases ha : a = k
    · subst ha; simpa using h
    · simp [ha]

/-- A view of the values that `f` leaves alone does not see a `modify` by `f`. -/
theorem view_modify {view : V → W} {f : V → V} (hv : ∀ v, view (f v) = view v) (t : Table K V) (k a : K) :
    ((t.modify k f).lookup a).map view = (t.lookup a).map view := by
  rw [lookup_modify]
  split
  · rename_i ha
    subst ha
    cases t.lookup a with
    | none => rfl
    | some v => simp only [Option.map_some, hv]
  · rfl

/-- Nor does it see a value replaced by one that looks the same. -/
theorem view_insert {view : V → W} {t : Table K V} {k : K} {v v' : V} (hk : t.lookup k = some v)
    (hv : view v' = view v) (a : K) : ((t.insert k v').lookup a).map view = (t.lookup a).map view := by
  rw [lookup_insert_if]
  split
  · rename_i ha
    subst ha
    rw [hk, Option.map_some, Option.map_some, hv]
  · rfl

/-- Keeps the entries `f` maps to a value, with that value. -/
def filterMap (f : K → V → Option W) (t : Table K V) : Table K W where
  entries := t.entries.filterMap fun e => (f e.1 e.2).map fun w => ⟨e.1, w⟩
  nodupKeys := by
    refine List.nodupKeys_iff_pairwise.2 (List.Pairwise.filterMap _ ?_ (List.nodupKeys_iff_pairwise.1 t.nodupKeys))
    intro e e' hne b hb b' hb'
    simp only [Option.map_eq_some_iff] at hb hb'
    obtain ⟨w, -, rfl⟩ := hb
    obtain ⟨w', -, rfl⟩ := hb'
    exact hne

theorem dlookup_filterMap (f : K → V → Option W) (a : K) :
    ∀ l : List (Sigma fun _ : K => V), l.NodupKeys →
      (l.filterMap fun e => (f e.1 e.2).map fun w => (⟨e.1, w⟩ : Sigma fun _ : K => W)).dlookup a
        = (l.dlookup a).bind (f a)
  | [], _ => rfl
  | ⟨k, v⟩ :: l, hd => by
    rw [List.nodupKeys_cons] at hd
    have ih := dlookup_filterMap f a l hd.2
    rw [List.filterMap_cons]
    by_cases h : k = a
    · subst h
      have hl : l.dlookup k = none := List.dlookup_eq_none.2 hd.1
      rw [List.dlookup_cons_eq]
      cases hf : f k v with
      | none => simpa [hf, hl] using ih
      | some w => simp [hf]
    · rw [List.dlookup_cons_ne _ _ (Ne.symm h)]
      cases hf : f k v with
      | none => simpa [hf] using ih
      | some w =>
        simp only [Option.map_some]
        rw [List.dlookup_cons_ne _ _ (Ne.symm h)]
        exact ih

@[simp] theorem lookup_filterMap (f : K → V → Option W) (t : Table K V) (a : K) :
    (t.filterMap f).lookup a = (t.lookup a).bind (f a) :=
  dlookup_filterMap f a t.entries t.nodupKeys

/-- Applies `f` to every value. -/
def mapValues (f : V → W) (t : Table K V) : Table K W := t.filterMap fun _ v => some (f v)

@[simp] theorem lookup_mapValues (f : V → W) (t : Table K V) (a : K) :
    (t.mapValues f).lookup a = (t.lookup a).map f := by
  rw [mapValues, lookup_filterMap]
  cases t.lookup a <;> rfl

/-- The keys bound to a value that satisfies `p`, in iteration order. -/
def keysWhere (p : V → Bool) (t : Table K V) : List K := (t.entries.filter (p ·.2)).map (·.1)

theorem mem_keysWhere {p : V → Bool} {t : Table K V} {k : K} :
    k ∈ t.keysWhere p ↔ ∃ v, t.lookup k = some v ∧ p v = true := by
  simp only [keysWhere, List.mem_map, List.mem_filter]
  constructor
  · rintro ⟨⟨k', v⟩, ⟨hm, hp⟩, rfl⟩
    exact ⟨v, List.mem_dlookup_iff t.nodupKeys |>.2 hm, hp⟩
  · rintro ⟨v, hl, hp⟩
    exact ⟨⟨k, v⟩, ⟨List.mem_dlookup_iff t.nodupKeys |>.1 hl, hp⟩, rfl⟩

theorem mem_values {t : Table K V} {v : V} : v ∈ t.values ↔ ∃ k, t.lookup k = some v := by
  simp only [values, List.mem_map]
  constructor
  · rintro ⟨⟨k, v⟩, hm, rfl⟩
    exact ⟨k, List.mem_dlookup_iff t.nodupKeys |>.2 hm⟩
  · rintro ⟨k, hl⟩
    exact ⟨⟨k, v⟩, List.mem_dlookup_iff t.nodupKeys |>.1 hl, rfl⟩

end Table

end Teloxide.Core
