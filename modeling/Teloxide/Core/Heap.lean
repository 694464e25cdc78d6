import Mathlib

/-!
# Priority queues

`Heap r` is a priority queue whose entries pop in the order `r`. It stands for
a binary heap whose comparison identifies no two distinct entries: such a heap
is observed only through `push`, `peek`, `pop`, `len` and draining, none of
which depends on the array layout, so the entries are kept as the list in pop
order, with the proof that it is sorted. An ordered set is the same structure
with `insert` for `push`.
-/
namespace Teloxide.Core

/-- A priority queue: the entries in the order in which they pop. -/
structure Heap {α : Type} (r : α → α → Prop) where
  entries : List α
  sorted : entries.Pairwise r

namespace Heap

variable {α : Type} {r : α → α → Prop}

instance : Membership α (Heap r) := ⟨fun h a => a ∈ h.entries⟩

theorem mem_def {h : Heap r} {a : α} : a ∈ h ↔ a ∈ h.entries := Iff.rfl

def empty : Heap r := ⟨[], List.Pairwise.nil⟩

@[simp] theorem not_mem_empty (a : α) : ¬ a ∈ (empty : Heap r) := List.not_mem_nil

def len (h : Heap r) : Nat := h.entries.length

def isEmpty (h : Heap r) : Bool := h.entries.isEmpty

/-- The entry that pops next. -/
def peek (h : Heap r) : Option α := h.entries.head?

/-- The queue without the entry that pops next. -/
def pop (h : Heap r) : Heap r := ⟨h.entries.tail, h.sorted.tail⟩

theorem peek_none {h : Heap r} (hp : h.peek = none) (a : α) : ¬ a ∈ h := by
  rw [peek, List.head?_eq_none_iff] at hp
  rw [mem_def, hp]; exact List.not_mem_nil

theorem peek_mem {h : Heap r} {a : α} (hp : h.peek = some a) : a ∈ h :=
  List.mem_of_mem_head? (by rw [peek] at hp; rw [hp]; rfl)

/-- What pops next comes before everything else. -/
theorem peek_before {h : Heap r} {a b : α} (hp : h.peek = some a) (hb : b ∈ h) : b = a ∨ r a b := by
  obtain ⟨l, hs⟩ := h
  cases l with
  | nil => cases hp
  | cons c l =>
    obtain rfl : c = a := Option.some.inj hp
    rcases List.mem_cons.1 hb with rfl | hb
    · exact Or.inl rfl
    · exact Or.inr ((List.pairwise_cons.1 hs).1 b hb)

theorem mem_of_mem_pop {h : Heap r} {a : α} (ha : a ∈ h.pop) : a ∈ h := List.mem_of_mem_tail ha

theorem mem_pop_or {h : Heap r} {a b : α} (hp : h.peek = some a) (hb : b ∈ h) :
    b = a ∨ b ∈ h.pop := by
  obtain ⟨l, hs⟩ := h
  cases l with
  | nil => cases hp
  | cons c l =>
    obtain rfl : c = a := Option.some.inj hp
    exact List.mem_cons.1 hb

theorem len_pop {h : Heap r} {a : α} (hp : h.peek = some a) : h.pop.len + 1 = h.len := by
  obtain ⟨l, hs⟩ := h
  cases l with
  | nil => cases hp
  | cons c l => rfl

theorem peek_of_len_zero {h : Heap r} (hl : h.len = 0) : h.peek = none := by
  rw [peek, List.length_eq_zero_iff.1 hl]; rfl

/-- Keeps the entries that satisfy `p`. -/
def filter (p : α → Bool) (h : Heap r) : Heap r := ⟨h.entries.filter p, h.sorted.filter p⟩

@[simp] theorem mem_filter {p : α → Bool} {h : Heap r} {a : α} :
    a ∈ h.filter p ↔ a ∈ h ∧ p a = true := List.mem_filter

/-- Pops while the next entry satisfies `p`. -/
def dropWhile (p : α → Bool) (h : Heap r) : Heap r :=
  ⟨h.entries.dropWhile p, h.sorted.sublist (List.dropWhile_sublist p)⟩

theorem mem_of_mem_dropWhile {p : α → Bool} {h : Heap r} {a : α} (ha : a ∈ h.dropWhile p) : a ∈ h :=
  (List.dropWhile_sublist p).mem ha

/-- Only entries that satisfy `p` are popped. -/
theorem mem_dropWhile_of_not {p : α → Bool} {h : Heap r} {a : α} (ha : a ∈ h) (hp : p a = false) :
    a ∈ h.dropWhile p := by
  rw [mem_def, ← List.takeWhile_append_dropWhile (p := p) (l := h.entries)] at ha
  rcases List.mem_append.1 ha with ha | ha
  · rw [List.mem_takeWhile_imp ha] at hp; cases hp
  · exact ha

theorem peek_dropWhile {p : α → Bool} {h : Heap r} {a : α} (ha : (h.dropWhile p).peek = some a) :
    p a = false := by
  have hd := List.head?_dropWhile_not p h.entries
  simp only [peek, dropWhile] at ha
  rw [ha] at hd
  exact hd

section push

variable [DecidableRel r] [Std.Total r] [IsTrans α r]

def push (h : Heap r) (a : α) : Heap r := ⟨h.entries.orderedInsert r a, h.sorted.orderedInsert a _⟩

@[simp] theorem mem_push {h : Heap r} {a b : α} : b ∈ h.push a ↔ b = a ∨ b ∈ h :=
  List.mem_orderedInsert r

@[simp] theorem len_push (h : Heap r) (a : α) : (h.push a).len = h.len + 1 :=
  List.orderedInsert_length r _ _

/-- Insertion into an ordered set. -/
def insert [DecidableEq α] (h : Heap r) (a : α) : Heap r := if a ∈ h.entries then h else h.push a

@[simp] theorem mem_insert [DecidableEq α] {h : Heap r} {a b : α} :
    b ∈ h.insert a ↔ b = a ∨ b ∈ h := by
  unfold insert
  split
  · rename_i ha
    constructor
    · exact Or.inr
    · rintro (rfl | hb)
      · exact ha
      · exact hb
  · exact mem_push

theorem push_perm (h : Heap r) (a : α) : (h.push a).entries.Perm (a :: h.entries) :=
  List.perm_orderedInsert r a h.entries

theorem insert_perm [DecidableEq α] {h : Heap r} {a : α} (ha : ¬ a ∈ h) :
    (h.insert a).entries.Perm (a :: h.entries) := by
  unfold insert
  rw [if_neg (mem_def.not.1 ha)]
  exact h.push_perm a

/-- The queue of the entries of a list. -/
def ofList (l : List α) : Heap r := l.foldr (fun a h => h.push a) empty

@[simp] theorem mem_ofList {l : List α} {a : α} : a ∈ (ofList l : Heap r) ↔ a ∈ l := by
  induction l with
  | nil => simp [ofList]
  | cons b l ih =>
    rw [List.mem_cons, ← ih]
    exact mem_push

theorem ofList_perm (l : List α) : (ofList l : Heap r).entries.Perm l := by
  induction l with
  | nil => exact .refl _
  | cons a l ih => exact (push_perm _ a).trans (ih.cons a)

end push

end Heap

end Teloxide.Core
