import Mathlib

/-!
# Checks of a tree

A check walks through a tree with a state, as a rule the path to where it
stands, and passes or fails.

* `Walks f p g`: `f` passes exactly when `p` holds, and then leaves `g s` for `s`.
  `Walks.seq` composes.
* `Everywhere child P a`: `P` holds of `a` and of whatever lies under it.
  `everywhere_iff` takes it apart at the root.
-/
namespace Teloxide.Core

/-! ## Checks -/

abbrev Check (π ε : Type) : Type → Type := StateT π (Except ε)

section Check

variable {π ε : Type} {f f' : Check π ε Unit} {p p' : Prop} {g g' : π → π}

namespace Check

/-- A check that is given the path by reference. -/
def reading (f : π → Except ε Unit) : Check π ε Unit :=
  fun s => (f s).map fun _ => ((), s)

/-- A check on a copy of the path. -/
def cloned (f : Check π ε Unit) (s : π) : Except ε Unit :=
  (f s).map fun _ => ()

def ensure (c : Bool) (e : ε) : Except ε Unit :=
  if c then .ok () else .error e

variable {m : Type → Type} {α : Type}

/-- `if let Some(a) = o { f(a)? }` -/
def whenSome [Pure m] (o : Option α) (f : α → m Unit) : m Unit :=
  match o with
  | some a => f a
  | none => pure ()

/-- A loop over a list with its indices, which start at `index`. -/
def forIndexed [Monad m] (f : Nat → α → m Unit) : Nat → List α → m Unit
  | _, [] => pure ()
  | index, a :: l => do f index a; forIndexed f (index + 1) l

end Check

def Walks (f : Check π ε Unit) (p : Prop) (g : π → π) : Prop :=
  ∀ s t, f s = .ok ((), t) ↔ p ∧ t = g s

theorem walks_pure : Walks (pure () : Check π ε Unit) True id := by
  intro s t
  show Except.ok ((), s) = .ok ((), t) ↔ True ∧ t = s
  simp [eq_comm]

theorem walks_modify (g : π → π) : Walks (modify g : Check π ε Unit) True g := by
  intro s t
  show Except.ok ((), g s) = .ok ((), t) ↔ True ∧ t = g s
  simp [eq_comm]

theorem Walks.seq (h : Walks f p g) (h' : Walks f' p' g') :
    Walks (do f; f') (p ∧ p') fun s => g' (g s) := by
  intro s t
  show Except.bind (f s) (fun r => f' r.2) = .ok ((), t) ↔ _
  cases hf : f s with
  | error e =>
    have hp : ¬ p := fun hp => by simpa [hf] using (h s (g s)).2 ⟨hp, rfl⟩
    simp [Except.bind, hp]
  | ok r =>
    obtain ⟨⟨⟩, u⟩ := r
    obtain ⟨hp, rfl⟩ := (h s u).1 hf
    simp [Except.bind, h' (g s) t, hp]

theorem Walks.congr (h : Walks f p g) (hp : p ↔ p') (hg : ∀ s, g s = g' s) : Walks f p' g' := by
  intro s t
  rw [h s t, hp, hg s]

theorem walks_whenSome {α : Type} {o : Option α} {c : α → Check π ε Unit} {q : α → Prop}
    (h : ∀ a ∈ o, Walks (c a) (q a) id) : Walks (Check.whenSome o c) (∀ a ∈ o, q a) id := by
  cases o with
  | none =>
    show Walks (pure () : Check π ε Unit) (∀ a ∈ none, q a) id
    exact walks_pure.congr (by simp) fun _ => rfl
  | some a =>
    exact (h a rfl).congr (by simp) fun _ => rfl

theorem walks_forIndexed {α : Type} {c : Nat → α → Check π ε Unit} {q : α → Prop} {l : List α} (index : Nat)
    (h : ∀ i, ∀ a ∈ l, Walks (c i a) (q a) id) : Walks (Check.forIndexed c index l) (∀ a ∈ l, q a) id := by
  induction l generalizing index with
  | nil =>
    show Walks (pure () : Check π ε Unit) (∀ a ∈ [], q a) id
    exact walks_pure.congr (by simp) fun _ => rfl
  | cons a l ih =>
    have hl := ih (index + 1) fun i b hb => h i b (List.mem_cons_of_mem _ hb)
    exact ((h index a List.mem_cons_self).seq hl).congr List.forall_mem_cons.symm fun _ => rfl

/-- What the check of an `Except` decides. -/
def Decides (r : Except ε Unit) (p : Prop) : Prop :=
  r = .ok () ↔ p

theorem Decides.congr {r : Except ε Unit} (h : Decides r p) (hp : p ↔ p') : Decides r p' :=
  Iff.trans h hp

theorem walks_reading {f : π → Except ε Unit} (h : ∀ s, Decides (f s) p) : Walks (Check.reading f) p id := by
  intro s t
  have hs := h s
  unfold Check.reading
  cases hf : f s with
  | error e =>
    rw [hf] at hs
    have hp : ¬ p := fun hp => by simpa using hs.2 hp
    simp [Except.map, hp]
  | ok u =>
    rw [hf] at hs
    simp [Except.map, hs.1 rfl, eq_comm]

theorem Walks.cloned (h : Walks f p g) (s : π) : Decides (Check.cloned f s) p := by
  unfold Check.cloned Decides
  cases hf : f s with
  | error e =>
    have hp : ¬ p := fun hp => by simpa [hf] using (h s (g s)).2 ⟨hp, rfl⟩
    simp [Except.map, hp]
  | ok r =>
    obtain ⟨⟨⟩, u⟩ := r
    simp [Except.map, ((h s u).1 hf).1]

theorem decides_ok : Decides (.ok () : Except ε Unit) True := by
  simp [Decides]

theorem decides_error (e : ε) : Decides (.error e) False := by
  simp [Decides]

theorem decides_ensure (c : Bool) (e : ε) : Decides (Check.ensure c e) (c = true) := by
  cases c <;> simp [Decides, Check.ensure]

theorem decides_whenSome {α : Type} {o : Option α} {c : α → Except ε Unit} {q : α → Prop}
    (h : ∀ a ∈ o, Decides (c a) (q a)) : Decides (Check.whenSome o c) (∀ a ∈ o, q a) := by
  cases o with
  | none => exact decides_ok.congr (by simp)
  | some a => exact (h a rfl).congr (by simp)

theorem Decides.seq {r r' : Except ε Unit} (h : Decides r p) (h' : Decides r' p') : Decides (do r; r') (p ∧ p') := by
  unfold Decides at *
  cases r with
  | error e =>
    have hp : ¬ p := fun hp => by simpa using h.2 hp
    show Except.error e = .ok () ↔ _
    simp [hp]
  | ok u =>
    show r' = .ok () ↔ _
    simp [h', h.1 rfl]

theorem decides_forIndexed {α : Type} {c : Nat → α → Except ε Unit} {q : α → Prop} {l : List α} (index : Nat)
    (h : ∀ i, ∀ a ∈ l, Decides (c i a) (q a)) : Decides (Check.forIndexed c index l) (∀ a ∈ l, q a) := by
  induction l generalizing index with
  | nil => exact decides_ok.congr (by simp)
  | cons a l ih =>
    have hl := ih (index + 1) fun i b hb => h i b (List.mem_cons_of_mem _ hb)
    exact ((h index a List.mem_cons_self).seq hl).congr List.forall_mem_cons.symm

end Check

/-! ## Trees -/

section Trees

variable {α : Type}

/-- `Occurs child x a`: `x` is `a` or lies under it. -/
inductive Occurs (child : α → List α) (x : α) : α → Prop
  | here : Occurs child x x
  | under {c a} : c ∈ child a → Occurs child x c → Occurs child x a

def Everywhere (child : α → List α) (P : α → Prop) (a : α) : Prop :=
  ∀ x, Occurs child x a → P x

variable {child : α → List α} {P Q : α → Prop}

theorem everywhere_iff {f : α → List α} {a : α} : Everywhere f P a ↔ P a ∧ ∀ c ∈ f a, Everywhere f P c := by
  constructor
  · intro h
    exact ⟨h a .here, fun c hc x hx => h x (.under hc hx)⟩
  · rintro ⟨ha, hc⟩ x hx
    cases hx with
    | here => exact ha
    | under hmem hocc => exact hc _ hmem x hocc

theorem Everywhere.mono {child' : α → List α} (hsub : ∀ a, ∀ c ∈ child' a, c ∈ child a) {a : α}
    (h : Everywhere child P a) : Everywhere child' P a := by
  intro x hx
  have hocc : Occurs child x a := by
    induction hx with
    | here => exact .here
    | under hc _ ih => exact .under (hsub _ _ hc) (ih (fun y hy => h y (.under (hsub _ _ hc) hy)))
  exact h x hocc

/-- Where `R` holds everywhere, `P` may be replaced by what it is under `R`. -/
theorem Everywhere.congr {R : α → Prop} {a : α} (h : Everywhere child R a) (hPQ : ∀ x, R x → (P x ↔ Q x)) :
    Everywhere child P a ↔ Everywhere child Q a :=
  ⟨fun hP x hx => (hPQ x (h x hx)).1 (hP x hx), fun hQ x hx => (hPQ x (h x hx)).2 (hQ x hx)⟩

theorem everywhere_and {a : α} : Everywhere child (fun x => P x ∧ Q x) a ↔ Everywhere child P a ∧ Everywhere child Q a :=
  ⟨fun h => ⟨fun x hx => (h x hx).1, fun x hx => (h x hx).2⟩, fun h x hx => ⟨h.1 x hx, h.2 x hx⟩⟩

end Trees

end Teloxide.Core
