import Mathlib
import Teloxide.Core.Load
import Teloxide.Outbound.Window

/-!
# Windows against a ledger

A rolling window keeps the debits that still count and their sum. `Tracks` says
that it keeps exactly those of a ledger, the list of all debits that were made
and not given back; every operation of the window keeps it so.

* `canConsume_true`: an admitted weight fits on top of what the ledger counts.
-/
namespace Teloxide.Outbound

open Teloxide.Core

@[simp] theorem totalWeight_nil : totalWeight [] = 0 := rfl

@[simp] theorem totalWeight_append (l l' : List WindowEvent) :
    totalWeight (l ++ l') = totalWeight l + totalWeight l' := by
  simp [totalWeight]

@[simp] theorem totalWeight_cons (e : WindowEvent) (l : List WindowEvent) :
    totalWeight (e :: l) = e.weight + totalWeight l := by
  simp [totalWeight]

namespace RollingWindow

/-- The event still counts at `now`. -/
def fresh (window now : Nat) (e : WindowEvent) : Bool := !expired window now e

theorem fresh_iff {window now : Nat} {e : WindowEvent} :
    fresh window now e = true ↔ now < e.instant + window := by
  simp only [fresh, expired, Bool.not_eq_true', Bool.and_eq_false_iff, decide_eq_false_iff_not]
  omega

/-- What is fresh later is fresh now. -/
theorem fresh_mono {window now now' : Nat} (h : now ≤ now') {e : WindowEvent}
    (he : fresh window now' e = true) : fresh window now e = true := by
  rw [fresh_iff] at he ⊢
  omega

theorem filter_fresh_later {window now now' : Nat} (h : now ≤ now') (l : List WindowEvent) :
    l.filter (fresh window now') = (l.filter (fresh window now)).filter (fresh window now') := by
  rw [List.filter_filter]
  refine List.filter_congr fun e _ => ?_
  cases he : fresh window now' e with
  | false => rfl
  | true => rw [fresh_mono h he]; rfl

/-- The expired events of a history in order are a prefix. -/
theorem dropWhile_expired (window now : Nat) :
    ∀ {l : List WindowEvent}, l.Pairwise (·.instant ≤ ·.instant) →
      l.dropWhile (expired window now) = l.filter (fresh window now)
  | [], _ => rfl
  | e :: l, h => by
    rw [List.pairwise_cons] at h
    cases he : expired window now e with
    | true =>
      have hf : fresh window now e = false := by simp [fresh, he]
      rw [List.dropWhile_cons_of_pos he, List.filter_cons_of_neg (by simp [hf])]
      exact dropWhile_expired window now h.2
    | false =>
      have hf : fresh window now e = true := by simp [fresh, he]
      have hall : ∀ e' ∈ l, fresh window now e' = true := by
        intro e' he'
        have := h.1 e' he'
        rw [fresh_iff] at hf ⊢
        omega
      rw [List.dropWhile_cons_of_neg (by simp [he]), List.filter_cons_of_pos hf,
        List.filter_eq_self.2 hall]

theorem prune_used {w : RollingWindow} (hu : w.used = totalWeight w.history) (now : Nat) :
    (w.prune now).used = totalWeight (w.prune now).history := by
  have h := congrArg totalWeight
    (List.takeWhile_append_dropWhile (p := expired w.window now) (l := w.history))
  rw [totalWeight_append] at h
  simp only [prune, hu]
  omega

/-- The window keeps the debits of the ledger that still count. -/
structure Tracks (w : RollingWindow) (ledger : List WindowEvent) (now : Nat) : Prop where
  used : w.used = totalWeight w.history
  sorted : w.history.Pairwise (·.instant ≤ ·.instant)
  past : ∀ e ∈ w.history, e.instant ≤ now
  agree : w.history.filter (fresh w.window now) = ledger.filter (fresh w.window now)

namespace Tracks

variable {w : RollingWindow} {ledger : List WindowEvent} {now : Nat}

theorem new {limit : WindowLimit} (h : ledger.filter (fresh limit.window now) = []) :
    (RollingWindow.new limit).Tracks ledger now :=
  ⟨rfl, List.Pairwise.nil, fun _ he => absurd he List.not_mem_nil, h.symm⟩

theorem later {now' : Nat} (h : w.Tracks ledger now) (hn : now ≤ now') : w.Tracks ledger now' where
  used := h.used
  sorted := h.sorted
  past e he := Nat.le_trans (h.past e he) hn
  agree := by rw [filter_fresh_later hn, h.agree, ← filter_fresh_later hn]

/-- After pruning the history is what the ledger counts. -/
theorem prune_history (h : w.Tracks ledger now) :
    (w.prune now).history = ledger.filter (fresh w.window now) := by
  rw [← h.agree]
  exact dropWhile_expired w.window now h.sorted

theorem prune (h : w.Tracks ledger now) : (w.prune now).Tracks ledger now where
  used := prune_used h.used now
  sorted := h.sorted.sublist (List.dropWhile_sublist _)
  past e he := h.past e ((List.dropWhile_sublist _).mem he)
  agree := by
    rw [h.prune_history]
    change List.filter (fresh w.window now) _ = _
    rw [List.filter_filter]
    simp only [Bool.and_self, RollingWindow.prune]

theorem consume (h : w.Tracks ledger now) (weight : Nat) (job : JobId) :
    (w.consume now weight job).Tracks (ledger ++ [⟨now, weight, some job⟩]) now where
  used := by simp [RollingWindow.consume, h.used]
  sorted := by
    simp only [RollingWindow.consume, List.pairwise_append, List.mem_singleton]
    exact ⟨h.sorted, List.pairwise_singleton _ _, by rintro e he _ rfl; exact h.past e he⟩
  past e he := by
    rcases List.mem_append.1 he with he | he
    · exact h.past e he
    · rw [List.mem_singleton.1 he]
  agree := by
    simp only [RollingWindow.consume, List.filter_append]
    rw [h.agree]

/-- A ledger that differs only in what no longer counts. -/
theorem congr {ledger' : List WindowEvent} (h : w.Tracks ledger now)
    (he : ledger'.filter (fresh w.window now) = ledger.filter (fresh w.window now)) :
    w.Tracks ledger' now := ⟨h.used, h.sorted, h.past, h.agree.trans he.symm⟩

end Tracks

/-- Striking a job out of a ledger. -/
def strike (job : JobId) (ledger : List WindowEvent) : List WindowEvent :=
  ledger.filter fun e => e.job != some job

/-- With one debit a job at most, of the refunded weight, the refund strikes the
job out. -/
theorem eraseP_isDebit {job : JobId} {weight : Nat} :
    ∀ {l : List WindowEvent}, (l.map (·.job)).Nodup → (∀ e ∈ l, e.job = some job → e.weight = weight) →
      l.eraseP (isDebit job weight) = strike job l
  | [], _, _ => rfl
  | e :: l, hn, hw => by
    rw [List.map_cons, List.nodup_cons] at hn
    by_cases he : e.job = some job
    · have hd : isDebit job weight e = true := by simp [isDebit, he, hw e List.mem_cons_self he]
      have hrest : ∀ e' ∈ l, (e'.job != some job) = true := by
        intro e' he'
        have hne : e'.job ≠ some job := by
          intro h
          exact hn.1 (List.mem_map.2 ⟨e', he', h.trans he.symm⟩)
        simpa using hne
      rw [List.eraseP_cons_of_pos hd, strike, List.filter_cons_of_neg (by simp [he]),
        List.filter_eq_self.2 hrest]
    · have hd : ¬ isDebit job weight e = true := by simp [isDebit, he]
      rw [List.eraseP_cons_of_neg hd, strike, List.filter_cons_of_pos (by simpa using he),
        eraseP_isDebit hn.2 fun e' he' => hw e' (List.mem_cons_of_mem _ he')]
      rfl

theorem totalWeight_eraseP {job : JobId} {weight : Nat} :
    ∀ {l : List WindowEvent}, l.any (isDebit job weight) = true →
      totalWeight (l.eraseP (isDebit job weight)) = totalWeight l - weight
  | [], h => by cases h
  | e :: l, h => by
    by_cases he : isDebit job weight e = true
    · have hw : e.weight = weight := by
        simp only [isDebit, Bool.and_eq_true, beq_iff_eq] at he
        exact he.2
      rw [List.eraseP_cons_of_pos he, totalWeight_cons, hw]
      omega
    · rw [List.any_cons, Bool.or_eq_true, or_iff_right he] at h
      obtain ⟨d, hd, hdw⟩ := List.any_eq_true.1 h
      have hw : d.weight = weight := by
        simp only [isDebit, Bool.and_eq_true, beq_iff_eq] at hdw
        exact hdw.2
      have hle : d.weight ≤ totalWeight l := List.single_le_sum (by simp) _ (List.mem_map_of_mem hd)
      rw [List.eraseP_cons_of_neg he, totalWeight_cons, totalWeight_cons, totalWeight_eraseP h]
      omega

theorem strike_fresh (job : JobId) (window now : Nat) (l : List WindowEvent) :
    (strike job l).filter (fresh window now) = strike job (l.filter (fresh window now)) := by
  simp only [strike, List.filter_filter]
  exact List.filter_congr fun e _ => Bool.and_comm _ _

/-- A refund strikes the job out of the ledger. -/
theorem Tracks.refund {w : RollingWindow} {ledger : List WindowEvent} {now : Nat} {job : JobId}
    {weight : Nat} (h : w.Tracks ledger now) (hn : (ledger.map (·.job)).Nodup)
    (hw : ∀ e ∈ ledger, e.job = some job → e.weight = weight) :
    (w.refund now job weight).1.Tracks (strike job ledger) now := by
  have hp := h.prune
  have hh := h.prune_history
  have hsub : List.Sublist (w.prune now).history ledger := by rw [hh]; exact List.filter_sublist
  have hn' : ((w.prune now).history.map (·.job)).Nodup := hn.sublist (hsub.map _)
  have hw' : ∀ e ∈ (w.prune now).history, e.job = some job → e.weight = weight :=
    fun e he => hw e (hsub.mem he)
  have hstrike := eraseP_isDebit hn' hw'
  unfold RollingWindow.refund
  dsimp only
  split
  · rename_i hany
    refine ⟨?_, ?_, ?_, ?_⟩
    · simp only [totalWeight_eraseP hany, hp.used]
    · exact hp.sorted.sublist List.eraseP_sublist
    · intro e he
      exact hp.past e (List.eraseP_sublist.mem he)
    · simp only [hstrike, strike_fresh]
      rw [hp.agree]
  · rename_i hany
    refine hp.congr ?_
    have hsame : (w.prune now).history.eraseP (isDebit job weight) = (w.prune now).history :=
      List.eraseP_of_forall_not fun e he hd => hany (List.any_eq_true.2 ⟨e, he, hd⟩)
    rw [strike_fresh]
    change strike job (ledger.filter (fresh w.window now)) = ledger.filter (fresh w.window now)
    rw [← hh, ← hstrike, hsame]

/-- What the ledger still counts leaves room for the weight. -/
def Fits (weight : Nat) (ledger : List WindowEvent) (now : Nat) (size : Nat × Nat) : Prop :=
  totalWeight (ledger.filter (fresh size.2 now)) + weight ≤ size.1

/-- The capacity and the length of a window. -/
def size (w : RollingWindow) : Nat × Nat := (w.capacity, w.window)

theorem refund_size (w : RollingWindow) (now : Nat) (job : JobId) (weight : Nat) :
    (w.refund now job weight).1.size = w.size := by
  unfold refund
  dsimp only
  split <;> rfl

/-- An admitted weight fits on top of what the ledger counts. -/
theorem Tracks.canConsume_true {w : RollingWindow} {ledger : List WindowEvent} {now weight : Nat}
    (h : w.Tracks ledger now) (hc : (w.canConsume now weight).2 = true) :
    Fits weight ledger now w.size := by
  have hu : (w.prune now).used = totalWeight (ledger.filter (fresh w.window now)) := by
    rw [h.prune.used, h.prune_history]
  simp only [canConsume, decide_eq_true_eq] at hc
  rw [hu] at hc
  exact hc

/-- A weight that fits is admitted. -/
theorem Tracks.canConsume_of_fits {w : RollingWindow} {ledger : List WindowEvent} {now weight : Nat}
    (h : w.Tracks ledger now) (hf : Fits weight ledger now w.size) : (w.canConsume now weight).2 = true := by
  have hu : (w.prune now).used = totalWeight (ledger.filter (fresh w.window now)) := by
    rw [h.prune.used, h.prune_history]
  simp only [canConsume, decide_eq_true_eq]
  rw [hu]
  exact hf

/-- A refused weight fits at the expiry of an event that still counts. -/
theorem firstFit_fresh {capacity window weight now : Nat} {l : List WindowEvent}
    (hf : ∀ e ∈ l, fresh window now e = true) {remaining deadline : Nat}
    (h : firstFit capacity window weight remaining l = some deadline) : now < deadline := by
  induction l generalizing remaining with
  | nil => cases h
  | cons e l ih =>
    unfold firstFit at h
    split at h
    · have he := fresh_iff.1 (hf e List.mem_cons_self)
      have hd : e.instant + window = deadline := Option.some.inj h
      omega
    · exact ih (fun e' he' => hf e' (List.mem_cons_of_mem _ he')) h

/-- So a window that has refused a weight admits it later only. -/
theorem Tracks.earliestFor_later {w : RollingWindow} {ledger : List WindowEvent}
    {now weight deadline : Nat} (h : w.Tracks ledger now) (hc : (w.canConsume now weight).2 = false)
    (he : (w.prune now).earliestFor now weight = some deadline) : now < deadline := by
  have hno : ¬ (w.prune now).used + weight ≤ (w.prune now).capacity := by
    intro hle
    have : (w.canConsume now weight).2 = true := by
      simp only [canConsume, decide_eq_true_eq]
      exact hle
    rw [hc] at this
    cases this
  unfold earliestFor at he
  rw [if_neg hno] at he
  refine firstFit_fresh (fun e hm => ?_) he
  rw [h.prune_history] at hm
  exact (List.mem_filter.1 hm).2

end RollingWindow

namespace WindowSet

open RollingWindow

/-- The capacities and lengths of the windows. -/
def sizes (s : WindowSet) : List (Nat × Nat) := s.windows.map RollingWindow.size

/-! ## Tests over a set -/

theorem allMut_forall {P : RollingWindow → Prop} {test : RollingWindow → RollingWindow × Bool}
    (ht : ∀ w, P w → P (test w).1) :
    ∀ {l : List RollingWindow}, (∀ w ∈ l, P w) → ∀ w ∈ (allMut test l).1, P w
  | [], _ => by simp [allMut]
  | w :: l, hl => by
    have hw : P (test w).1 := ht w (hl w List.mem_cons_self)
    have hrest : ∀ w' ∈ l, P w' := fun w' hw' => hl w' (List.mem_cons_of_mem _ hw')
    intro w' hw'
    unfold allMut at hw'
    split at hw'
    · rename_i v hv
      rw [hv] at hw
      rcases List.mem_cons.1 hw' with rfl | hw'
      · exact hw
      · exact hrest w' hw'
    · rename_i v hv
      rw [hv] at hw
      rcases List.mem_cons.1 hw' with rfl | hw'
      · exact hw
      · exact allMut_forall ht hrest w' hw'

theorem allMut_sizes {test : RollingWindow → RollingWindow × Bool} (ht : ∀ w, (test w).1.size = w.size) :
    ∀ l : List RollingWindow, (allMut test l).1.map RollingWindow.size = l.map RollingWindow.size
  | [] => rfl
  | w :: l => by
    have hw := ht w
    unfold allMut
    split
    · rename_i v hv
      rw [hv] at hw
      simp only [List.map_cons, hw]
    · rename_i v hv
      rw [hv] at hw
      simp only [List.map_cons, hw, allMut_sizes ht l]

/-- A test that succeeds has succeeded on every window. -/
theorem allMut_true {test : RollingWindow → RollingWindow × Bool} :
    ∀ {l : List RollingWindow}, (allMut test l).2 = true → ∀ w ∈ l, (test w).2 = true
  | [], _ => by simp
  | w :: l, h => by
    unfold allMut at h
    split at h
    · cases h
    · rename_i v hv
      intro w' hw'
      rcases List.mem_cons.1 hw' with rfl | hw'
      · rw [hv]
      · exact allMut_true h w' hw'

/-- A test that fails has failed on some window, and leaves what it made of it. -/
theorem allMut_false {test : RollingWindow → RollingWindow × Bool} :
    ∀ {l : List RollingWindow}, (allMut test l).2 = false →
      ∃ w ∈ l, (test w).2 = false ∧ (test w).1 ∈ (allMut test l).1
  | [], h => by cases h
  | w :: l, h => by
    unfold allMut at h ⊢
    split at h
    · rename_i v hv
      refine ⟨w, List.mem_cons_self, by rw [hv], ?_⟩
      rw [hv]
      exact List.mem_cons_self
    · rename_i v hv
      obtain ⟨w', hm, hf, hin⟩ := allMut_false h
      exact ⟨w', List.mem_cons_of_mem _ hm, hf, List.mem_cons_of_mem _ hin⟩

/-! ## Sets against a ledger -/

/-- The set has windows of these sizes, and each tracks the ledger. -/
structure Tracks (s : WindowSet) (sizes : List (Nat × Nat)) (ledger : List WindowEvent) (now : Nat) :
    Prop where
  sizes : s.sizes = sizes
  each : ∀ w ∈ s.windows, w.Tracks ledger now

namespace Tracks

variable {s : WindowSet} {sizes : List (Nat × Nat)} {ledger : List WindowEvent} {now : Nat}

theorem later {now' : Nat} (h : s.Tracks sizes ledger now) (hn : now ≤ now') : s.Tracks sizes ledger now' :=
  ⟨h.sizes, fun w hw => (h.each w hw).later hn⟩

/-- A set built afresh tracks a ledger of which nothing counts. -/
theorem built {limits : List WindowLimit} (hs : limits.map (fun l => (l.capacity, l.window)) = sizes)
    (hl : ∀ size ∈ sizes, ledger.filter (fresh size.2 now) = []) :
    WindowSet.Tracks ⟨limits.map .new⟩ sizes ledger now where
  sizes := by
    subst hs
    simp [WindowSet.sizes, RollingWindow.size, RollingWindow.new]
  each w hw := by
    obtain ⟨limit, hm, rfl⟩ := List.mem_map.1 hw
    subst hs
    exact .new (hl _ (List.mem_map_of_mem hm))

theorem consume (h : s.Tracks sizes ledger now) (weight : Nat) (job : JobId) :
    (s.consume now weight job).Tracks sizes (ledger ++ [⟨now, weight, some job⟩]) now where
  sizes := by
    rw [← h.sizes]
    simp only [WindowSet.sizes, WindowSet.consume, List.map_map]
    rfl
  each w hw := by
    obtain ⟨w, hm, rfl⟩ := List.mem_map.1 hw
    exact (h.each w hm).consume weight job

theorem refund (h : s.Tracks sizes ledger now) {job : JobId} {weight : Nat}
    (hn : (ledger.map (·.job)).Nodup) (hw : ∀ e ∈ ledger, e.job = some job → e.weight = weight) :
    (s.refund now job weight).1.Tracks sizes (strike job ledger) now where
  sizes := by
    rw [← h.sizes]
    simp only [WindowSet.sizes, WindowSet.refund, List.map_map]
    exact List.map_congr_left fun w _ => w.refund_size now job weight
  each w' hm' := by
    obtain ⟨w, hm, rfl⟩ := List.mem_map.1 hm'
    exact (h.each w hm).refund hn hw

theorem canConsume (h : s.Tracks sizes ledger now) (weight : Nat) :
    (s.canConsume now weight).1.Tracks sizes ledger now :=
  ⟨(allMut_sizes (fun _ => rfl) _).trans h.sizes, allMut_forall (fun _ => RollingWindow.Tracks.prune) h.each⟩

theorem canConsume_true (h : s.Tracks sizes ledger now) {weight : Nat}
    (hc : (s.canConsume now weight).2 = true) : ∀ size ∈ sizes, Fits weight ledger now size := by
  intro size hsize
  rw [← h.sizes] at hsize
  obtain ⟨w, hm, rfl⟩ := List.mem_map.1 hsize
  exact (h.each w hm).canConsume_true (allMut_true hc w hm)

theorem canConsume_of_fits (h : s.Tracks sizes ledger now) {weight : Nat}
    (hf : ∀ size ∈ sizes, Fits weight ledger now size) : (s.canConsume now weight).2 = true := by
  by_contra hc
  obtain ⟨w, hm, hw, -⟩ := allMut_false (Bool.eq_false_iff.2 hc)
  have hsize : w.size ∈ sizes := h.sizes ▸ List.mem_map_of_mem (f := RollingWindow.size) hm
  rw [(h.each w hm).canConsume_of_fits (hf _ hsize)] at hw
  cases hw

theorem isIdle (h : s.Tracks sizes ledger now) : (s.isIdle now).1.Tracks sizes ledger now :=
  ⟨(allMut_sizes (fun _ => rfl) _).trans h.sizes, allMut_forall (fun _ => RollingWindow.Tracks.prune) h.each⟩

/-- Of the ledger of an idle set nothing counts any more. -/
theorem isIdle_true (h : s.Tracks sizes ledger now) (hi : (s.isIdle now).2 = true) :
    ∀ size ∈ sizes, ledger.filter (fresh size.2 now) = [] := by
  intro size hsize
  rw [← h.sizes] at hsize
  obtain ⟨w, hm, rfl⟩ := List.mem_map.1 hsize
  have hw := allMut_true hi w hm
  have hh := (h.each w hm).prune_history
  simp only [RollingWindow.isIdle, List.isEmpty_iff] at hw
  exact hh.symm.trans hw

end Tracks

/-- The bound on a set is at least that on each of its windows. -/
theorem earliestFor_le {now weight : Nat} :
    ∀ {l : List RollingWindow} {acc deadline : Nat},
      l.foldlM (fun acc w => (w.earliestFor now weight).map (max acc)) acc = some deadline →
      acc ≤ deadline ∧ ∀ w ∈ l, ∃ d, w.earliestFor now weight = some d ∧ d ≤ deadline
  | [], acc, deadline, h => by
    have : acc = deadline := Option.some.inj h
    simp [this]
  | w :: l, acc, deadline, h => by
    rw [List.foldlM_cons, Option.bind_eq_bind, Option.bind_eq_some_iff] at h
    obtain ⟨b, hb, h⟩ := h
    rw [Option.map_eq_some_iff] at hb
    obtain ⟨d, hd, rfl⟩ := hb
    obtain ⟨hle, hrest⟩ := earliestFor_le h
    refine ⟨by omega, fun w' hw' => ?_⟩
    rcases List.mem_cons.1 hw' with rfl | hw'
    · exact ⟨d, hd, by omega⟩
    · exact hrest w' hw'

/-- A set that has refused a weight admits it later only. -/
theorem Tracks.earliestFor_later {s : WindowSet} {sizes : List (Nat × Nat)} {ledger : List WindowEvent}
    {now weight deadline : Nat} (h : s.Tracks sizes ledger now)
    (hc : (s.canConsume now weight).2 = false)
    (he : (s.canConsume now weight).1.earliestFor now weight = some deadline) : now < deadline := by
  obtain ⟨w, hm, hf, hin⟩ := allMut_false hc
  obtain ⟨d, hd, hle⟩ := (earliestFor_le he).2 _ hin
  have hlt : now < d := (h.each w hm).earliestFor_later hf hd
  omega

end WindowSet

end Teloxide.Outbound
