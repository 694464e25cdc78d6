import Teloxide.Outbound.Scheduler.Rate

/-!
# Debits across an update of the limits

`set_limits` and `set_class_limits` build new windows and carry the debits over that
some old window still covers (`crates/teloxide-core/src/outbound/scheduler.rs:2243-2362`
and `2405-2479`). The global sets are pruned for it, the sets of chats are filtered;
`survivors` is what both come to.

* `setLimits_renews`, `setClassLimits_renews`: the new windows hold the survivors that
  they cover.
* `Stored`: a set of a class and a chat is stored only where the class has limits.
-/
namespace Teloxide.Outbound

open Teloxide.Core SchedulerState RollingWindow

/-- The debits that some window of the set still covers. -/
def survivors (sizes : List (Nat × Nat)) (now : Nat) (ledger : List WindowEvent) : List WindowEvent :=
  ledger.filter fun e => sizes.any fun size => fresh size.2 now e

@[simp] theorem survivors_nil (now : Nat) (ledger : List WindowEvent) : survivors [] now ledger = [] := by
  simp [survivors]

theorem survivors_sublist (sizes : List (Nat × Nat)) (now : Nat) (ledger : List WindowEvent) :
    (survivors sizes now ledger).Sublist ledger := List.filter_sublist

/-- A window no longer than one of the set covers survivors only. -/
theorem survivors_fresh {sizes : List (Nat × Nat)} {now window : Nat} {ledger : List WindowEvent}
    (h : ∃ size ∈ sizes, window ≤ size.2) :
    (survivors sizes now ledger).filter (fresh window now) = ledger.filter (fresh window now) := by
  obtain ⟨size, hs, hle⟩ := h
  rw [survivors, List.filter_filter]
  refine List.filter_congr fun e _ => ?_
  cases he : fresh window now e with
  | false => rfl
  | true =>
    have hcovered : fresh size.2 now e = true := by
      rw [fresh_iff] at he ⊢
      omega
    simp only [Bool.true_and, List.any_eq_true]
    exact ⟨size, hs, hcovered⟩

/-- Where nothing counts any more, nothing survives. -/
theorem survivors_eq_nil {sizes : List (Nat × Nat)} {now : Nat} {ledger : List WindowEvent}
    (h : ∀ size ∈ sizes, ledger.filter (fresh size.2 now) = []) : survivors sizes now ledger = [] := by
  refine List.filter_eq_nil_iff.2 fun e he hany => ?_
  obtain ⟨size, hs, hf⟩ := List.any_eq_true.1 hany
  exact (List.filter_eq_nil_iff.1 (h size hs)) e he hf

/-! ## The longest window -/

theorem maxByKey_foldl {α : Type} (f : α → Nat) :
    ∀ (l : List α) (a : α), (l.foldl (fun best b => if f best ≤ f b then b else best) a = a ∨
        l.foldl (fun best b => if f best ≤ f b then b else best) a ∈ l) ∧
      f a ≤ f (l.foldl (fun best b => if f best ≤ f b then b else best) a) ∧
      ∀ b ∈ l, f b ≤ f (l.foldl (fun best b => if f best ≤ f b then b else best) a)
  | [], a => ⟨.inl rfl, Nat.le_refl _, fun b hb => by cases hb⟩
  | b :: l, a => by
    rw [List.foldl_cons]
    split
    · rename_i hle
      obtain ⟨hm, ha, hall⟩ := maxByKey_foldl f l b
      refine ⟨.inr ?_, Nat.le_trans hle ha, fun c hc => ?_⟩
      · rcases hm with hm | hm
        · rw [hm]
          exact List.mem_cons_self
        · exact List.mem_cons_of_mem _ hm
      · rcases List.mem_cons.1 hc with rfl | hc
        · exact ha
        · exact hall c hc
    · rename_i hgt
      obtain ⟨hm, ha, hall⟩ := maxByKey_foldl f l a
      refine ⟨hm.imp_right (List.mem_cons_of_mem _), ha, fun c hc => ?_⟩
      rcases List.mem_cons.1 hc with rfl | hc
      · omega
      · exact hall c hc

/-- The element of the greatest key. -/
theorem maxByKey_some {α : Type} {f : α → Nat} {l : List α} {a : α} (h : maxByKey f l = some a) :
    a ∈ l ∧ ∀ b ∈ l, f b ≤ f a := by
  cases l with
  | nil => cases h
  | cons b l =>
    obtain ⟨hm, ha, hall⟩ := maxByKey_foldl f l b
    simp only [maxByKey, Option.some.injEq] at h
    subst h
    refine ⟨?_, fun c hc => ?_⟩
    · rcases hm with hm | hm
      · rw [hm]
        exact List.mem_cons_self
      · exact List.mem_cons_of_mem _ hm
    · rcases List.mem_cons.1 hc with rfl | hc
      · exact ha
      · exact hall c hc

/-- The longest window of a set covers what any of them does. -/
theorem survivors_longest {set : WindowSet} {sizes : List (Nat × Nat)} {ledger : List WindowEvent} {now : Nat}
    (hs : set.sizes = sizes) {w : RollingWindow} (hw : w ∈ set.windows)
    (hmax : ∀ v ∈ set.windows, v.window ≤ w.window) : survivors sizes now ledger = ledger.filter (fresh w.window now) := by
  refine List.filter_congr fun e _ => ?_
  rw [Bool.eq_iff_iff, List.any_eq_true]
  constructor
  · rintro ⟨size, hsize, hf⟩
    rw [← hs] at hsize
    obtain ⟨v, hv, rfl⟩ := List.mem_map.1 hsize
    have := hmax v hv
    rw [fresh_iff] at hf ⊢
    simp only [RollingWindow.size] at hf
    omega
  · intro hf
    exact ⟨w.size, hs ▸ List.mem_map_of_mem hw, hf⟩

/-- Pruning and taking the longest history gives the survivors. -/
theorem collectEvents_eq {set : WindowSet} {sizes : List (Nat × Nat)} {ledger : List WindowEvent} {now : Nat}
    (h : set.Tracks sizes ledger now) : (set.collectEvents now).2 = survivors sizes now ledger := by
  have hs := h.sizes
  unfold WindowSet.collectEvents WindowSet.longestHistory
  dsimp only
  cases hm : maxByKey (·.window) (set.windows.map (·.prune now)) with
  | none =>
    have hempty : set.windows = [] := by
      cases hw : set.windows with
      | nil => rfl
      | cons w l =>
        rw [hw] at hm
        cases hm
    rw [← hs]
    simp [WindowSet.sizes, hempty]
  | some p =>
    obtain ⟨hmem, hmax⟩ := maxByKey_some hm
    obtain ⟨w, hw, rfl⟩ := List.mem_map.1 hmem
    rw [survivors_longest hs hw fun v hv => hmax (v.prune now) (List.mem_map_of_mem (f := (·.prune now)) hv)]
    exact (h.each w hw).prune_history

/-- So does filtering the history of the longest window. -/
theorem chatLedger_eq {set : WindowSet} {sizes : List (Nat × Nat)} {ledger : List WindowEvent} {now : Nat}
    (h : set.Tracks sizes ledger now) : chatLedger now set = survivors sizes now ledger := by
  have hs := h.sizes
  unfold chatLedger
  cases hm : maxByKey (·.window) set.windows with
  | none =>
    have hempty : set.windows = [] := by
      cases hw : set.windows with
      | nil => rfl
      | cons w l =>
        rw [hw] at hm
        cases hm
    rw [← hs]
    simp [WindowSet.sizes, hempty]
  | some w =>
    obtain ⟨hw, hmax⟩ := maxByKey_some hm
    rw [survivors_longest hs hw hmax]
    exact (h.each w hw).agree

/-! ## The new windows -/

/-- A window of a new set holds the events that it covers. -/
theorem carryOver_windows (now : Nat) :
    ∀ (events : List WindowEvent) (set : WindowSet), (carryOver now set events).windows =
      set.windows.map fun w => { w with
        history := w.history ++ events.filter (fresh w.window now)
        used := w.used + totalWeight (events.filter (fresh w.window now)) }
  | [], set => by simp [carryOver]
  | e :: events, set => by
    have ih := carryOver_windows now events (set.insertAt now e)
    unfold carryOver at ih ⊢
    rw [List.foldl_cons, ih, WindowSet.insertAt, List.map_map]
    refine List.map_congr_left fun w _ => ?_
    simp only [Function.comp]
    cases he : expired w.window now e with
    | true =>
      have hf : fresh w.window now e = false := by simp [fresh, he]
      simp [hf]
    | false =>
      have hf : fresh w.window now e = true := by simp [fresh, he]
      simp [hf, RollingWindow.insert, Nat.add_assoc]

/-- The windows hold what counts of the ledger at this instant, and nothing else. -/
structure WindowSet.Exact (s : WindowSet) (sizes : List (Nat × Nat)) (ledger : List WindowEvent) (now : Nat) :
    Prop where
  sizes : s.sizes = sizes
  used : ∀ w ∈ s.windows, w.used = totalWeight w.history
  history : ∀ w ∈ s.windows, w.history = ledger.filter (fresh w.window now)

namespace WindowSet.Exact

variable {limits : List WindowLimit} {sizes : List (Nat × Nat)} {events : List WindowEvent} {now : Nat}

theorem tracks {s : WindowSet} (h : s.Exact sizes events now) (hsorted : events.Pairwise (·.instant ≤ ·.instant))
    (hpast : ∀ e ∈ events, e.instant ≤ now) : s.Tracks sizes events now where
  sizes := h.sizes
  each w hw := by
    have hh := h.history w hw
    refine ⟨h.used w hw, ?_, fun e he => ?_, ?_⟩
    · rw [hh]
      exact hsorted.filter _
    · rw [hh] at he
      exact hpast e (List.mem_of_mem_filter he)
    · rw [hh, List.filter_filter]
      simp

theorem built (hs : limits.map (fun l => (l.capacity, l.window)) = sizes) :
    WindowSet.Exact ⟨limits.map .new⟩ sizes [] now where
  sizes := by
    subst hs
    simp [WindowSet.sizes, RollingWindow.size, RollingWindow.new]
  used w hw := by
    obtain ⟨limit, -, rfl⟩ := List.mem_map.1 hw
    rfl
  history w hw := by
    obtain ⟨limit, -, rfl⟩ := List.mem_map.1 hw
    rfl

theorem carryOver (hs : limits.map (fun l => (l.capacity, l.window)) = sizes) :
    (carryOver now ⟨limits.map .new⟩ events).Exact sizes events now := by
  have hw := carryOver_windows now events ⟨limits.map .new⟩
  refine ⟨?_, fun w hm => ?_, fun w hm => ?_⟩
  · subst hs
    rw [WindowSet.sizes, hw]
    simp [List.map_map, RollingWindow.size, RollingWindow.new]
  · rw [hw, List.map_map] at hm
    obtain ⟨limit, -, rfl⟩ := List.mem_map.1 hm
    simp [RollingWindow.new]
  · rw [hw, List.map_map] at hm
    obtain ⟨limit, -, rfl⟩ := List.mem_map.1 hm
    simp [RollingWindow.new]

/-- The set of a chat is kept where it holds an event, and is built anew elsewhere. -/
theorem carryOverChat (hs : limits.map (fun l => (l.capacity, l.window)) = sizes) :
    ((carryOverChat now ⟨limits.map .new⟩ events).getD ⟨limits.map .new⟩).Exact sizes events now := by
  have ht : WindowSet.Exact (SchedulerState.carryOver now ⟨limits.map .new⟩ events) sizes events now := carryOver hs
  unfold SchedulerState.carryOverChat
  split
  · rename_i hempty
    rw [List.isEmpty_iff] at hempty
    subst hempty
    exact built hs
  · dsimp only
    split
    · exact ht
    · rename_i hnone
      have hb : WindowSet.Exact ⟨limits.map .new⟩ sizes [] now := built hs
      refine ⟨hb.sizes, hb.used, fun w hw => ?_⟩
      -- the window of this length would have kept the event
      have hsize : w.size ∈ (SchedulerState.carryOver now ⟨limits.map .new⟩ events).sizes := by
        rw [ht.sizes, ← hb.sizes]
        exact List.mem_map_of_mem hw
      obtain ⟨v, hv, hvw⟩ := List.mem_map.1 hsize
      have hwindow : v.window = w.window := congrArg (·.2) hvw
      have hh : v.history = [] := by
        simp only [List.any_eq_true, not_exists, not_and, Bool.not_eq_true, Bool.not_eq_false', List.isEmpty_iff] at hnone
        exact hnone v hv
      rw [hb.history w hw, ← hwindow, ← ht.history v hv, hh]
      rfl

end WindowSet.Exact

/-- What a set that may be missing holds. -/
def SetExact (set : Option WindowSet) (sizes : List (Nat × Nat)) (ledger : List WindowEvent) (now : Nat) : Prop :=
  match set with
  | some set => set.Exact sizes ledger now
  | none => sizes = []

theorem SetExact.tracks {set : Option WindowSet} {sizes : List (Nat × Nat)} {ledger : List WindowEvent} {now : Nat}
    (h : SetExact set sizes ledger now) (hsorted : ledger.Pairwise (·.instant ≤ ·.instant))
    (hpast : ∀ e ∈ ledger, e.instant ≤ now) : SetTracks set sizes ledger now := by
  cases set with
  | none => exact h
  | some set => exact WindowSet.Exact.tracks h hsorted hpast

/-- The limits of the window are those of a class. -/
def WindowRef.ofClass : WindowRef → Bool
  | .classGlobal _ | .classChat .. => true
  | .global | .chat _ => false

namespace SchedulerState

/-! ## Stored sets -/

/-- A set of a class and a chat is there only where the class has such limits. -/
def Stored (s : SchedulerState) : Prop :=
  ∀ key cls set, s.classChatWindowSets.lookup (key, cls) = some set → s.classLimits.chat.any (·.cls == cls) = true

namespace Stored

variable {s s' : SchedulerState}

/-- What is stored is what admission tests. -/
theorem ensured (h : s.Stored) {window : WindowRef} {set : WindowSet} (hs : s.windowSet window = some set) :
    s.ensuredSet window = some set := by
  cases window with
  | global | classGlobal => exact hs
  | chat key =>
    simp only [windowSet] at hs
    simp [ensuredSet, hs]
  | classChat key cls =>
    simp only [windowSet] at hs
    simp [ensuredSet, hs, h key cls set hs]

theorem of_rates (h : s.Stored) (hr : s'.rates = s.rates) : s'.Stored := by
  simp only [rates, Prod.mk.injEq] at hr
  obtain ⟨-, -, -, h4, h5, -, -⟩ := hr
  intro key cls set hs
  rw [h4] at hs
  rw [h5]
  exact h key cls set hs

theorem store (h : s.Stored) {window : WindowRef} {set₀ : WindowSet} (hs : s.ensuredSet window = some set₀)
    (set : WindowSet) : (s.storeSet window set).Stored := by
  cases window with
  | global | classGlobal | chat => exact h
  | classChat key cls =>
    intro key' cls' set' hl
    simp only [storeSet, Table.lookup_insert_if] at hl ⊢
    split at hl
    · rename_i heq
      cases heq
      simp only [ensuredSet] at hs
      split at hs
      · assumption
      · cases hs
    · exact h key' cls' set' hl

theorem checkWindow (h : s.Stored) (now weight : Nat) (window : WindowRef) (v : Verdict) :
    (s.checkWindow now weight window v).1.Stored := by
  unfold SchedulerState.checkWindow
  dsimp only
  cases hs : s.ensuredSet window with
  | none => exact h
  | some set =>
    dsimp only
    split <;> exact h.store hs _

theorem checkWindows (now weight : Nat) :
    ∀ (windows : List WindowRef) {s : SchedulerState} (v : Verdict), s.Stored →
      (SchedulerState.checkWindows now weight windows s v).1.Stored
  | [], _, _, h => h
  | window :: windows, s, v, h => by
    have h₁ := h.checkWindow now weight window v
    unfold SchedulerState.checkWindows
    cases hc : s.checkWindow now weight window v with
    | mk s₁ o =>
      rw [hc] at h₁
      cases o with
      | none => exact h₁
      | some v₁ => exact checkWindows now weight windows v₁ h₁

theorem admission (h : s.Stored) (c : Candidate) (now : Nat) : (s.admission c now).1.Stored := by
  have h₀ : (s.check (s.live c.job)).Stored := h
  have h₁ := checkWindows now c.weight.val (s.applicableWindows c) ⟨now, none⟩ h₀
  unfold SchedulerState.admission
  split
  · exact h
  · generalize SchedulerState.checkWindows now c.weight.val (s.applicableWindows c) (s.check (s.live c.job))
      ⟨now, none⟩ = r at h₁
    obtain ⟨s₁, _ | v⟩ := r
    · exact h₁
    · dsimp only
      split <;> exact h₁

theorem consumeWindow (h : s.Stored) (now weight : Nat) (job : JobId) (window : WindowRef) :
    (SchedulerState.consumeWindow now weight job s window).Stored := by
  unfold SchedulerState.consumeWindow
  cases hs : s.ensuredSet window with
  | none => exact h
  | some set =>
    have h₀ : (s.check (set.canConsume now weight).2).Stored := h
    have hs₀ : (s.check (set.canConsume now weight).2).ensuredSet window = some set := hs
    exact h₀.store hs₀ _

theorem grant (h : s.Stored) (id : JobId) (now : Nat) : (s.grant id now).Stored := by
  unfold SchedulerState.grant
  cases hj : s.jobs.lookup id with
  | none => exact h
  | some job =>
    dsimp only
    obtain ⟨coalesce, h₁, -⟩ := s.eraseJob_eq id job
    obtain ⟨lanes, p, h₂⟩ := takePermit_eq (s.eraseJob id job) id job
    have h₀ : ((s.eraseJob id job).takePermit id job).Stored := by
      rw [h₂, h₁]
      exact h
    have h₃ : (((s.eraseJob id job).takePermit id job).debit id job now).Stored := by
      unfold debit
      generalize windowsOf job.metadata.scope job.metadata.cls = windows
      generalize (s.eraseJob id job).takePermit id job = s₀ at h₀
      induction windows generalizing s₀ with
      | nil => exact h₀
      | cons window windows ih =>
        rw [List.foldl_cons]
        exact ih _ (h₀.consumeWindow now job.metadata.weight.val id window)
    refine of_rates (s := (((s.eraseJob id job).takePermit id job).debit id job now).putInFlight id job) h₃ ?_
    exact (rearmBoundedLane_quiet _ job now).rates

theorem refundWindow (h : s.Stored) (now weight : Nat) (job : JobId) (window : WindowRef) :
    (s.refundWindow now weight job window).1.Stored := by
  unfold SchedulerState.refundWindow
  cases hs : s.windowSet window with
  | none => exact h
  | some set =>
    dsimp only
    split
    · split
      · exact h
      · exact h.store (h.ensured hs) _
    · exact h.store (h.ensured hs) _

theorem refundWindows (now weight : Nat) (job : JobId) :
    ∀ (windows : List WindowRef) {s : SchedulerState}, s.Stored →
      (SchedulerState.refundWindows now weight job windows s).1.Stored
  | [], _, h => h
  | window :: windows, _, h => refundWindows now weight job windows (h.refundWindow now weight job window)

theorem complete (h : s.Stored) (id : JobId) (completion : OutboundCompletion) (now observedAt : Nat) :
    (s.complete id completion now observedAt).Stored := by
  cases hi : s.inFlight.lookup id with
  | none =>
    unfold SchedulerState.complete
    rw [hi]
    exact h
  | some permit =>
    obtain ⟨s₁, s₂, hf, hq, hc⟩ := complete_settles hi completion now observedAt
    have h₂ : s₂.Stored := by
      refine h.of_rates (hq.rates.trans ?_)
      cases hf <;> rfl
    rw [hc]
    unfold settleCompletion
    cases completion with
    | noRequest =>
      dsimp only
      have hr := refundWindows now permit.weight id (windowsOf permit.scope permit.cls) h₂
      exact hr.of_rates (Quiet.foldl (fun s w => rearmReservationOwner_quiet now s w) _ _).rates
    | retryAfter =>
      dsimp only
      split <;> exact h₂
    | success | failed | cancelledAfterGrant => exact h₂

theorem endPass (h : s.Stored) (now : Nat) : (s.endPass now).Stored := h

end Stored

/-! ## New limits -/

section Limits

variable {s : SchedulerState} {ledger : WindowRef → List WindowEvent} {now : Nat}

/-- Of a window with no stored set nothing survives. -/
theorem survivors_absent (h : s.Tracked ledger now) {window : WindowRef} (hn : s.windowSet window = none) :
    survivors (s.configured window) now (ledger window) = [] := by
  cases hs : s.ensuredSet window with
  | none =>
    have hw := h window
    rw [hs] at hw
    have hempty : s.configured window = [] := hw
    rw [hempty, survivors_nil]
  | some set =>
    refine survivors_eq_nil fun size hsize => ?_
    rw [← (h.set hs).sizes] at hsize
    obtain ⟨w, hw, rfl⟩ := List.mem_map.1 hsize
    have ha := ((h.set hs).each w hw).agree
    rw [built_empty hn hs w hw] at ha
    exact ha.symm

/-- A new set of a chat, built from what the old one was found to hold. -/
theorem carriedChat_exact (h : s.Tracked ledger now) (hst : s.Stored) {window : WindowRef}
    {sets : Option WindowSet} (hsets : s.windowSet window = sets) {events : WindowSet → List WindowEvent}
    (hevents : ∀ {set}, set.Tracks (s.configured window) (ledger window) now →
      events set = survivors (s.configured window) now (ledger window))
    {limits : List WindowLimit} {sizes : List (Nat × Nat)} (hs : limits.map (fun l => (l.capacity, l.window)) = sizes) :
    ((sets.bind fun set => carryOverChat now ⟨limits.map .new⟩ (events set)).getD ⟨limits.map .new⟩).Exact sizes
      (survivors (s.configured window) now (ledger window)) now := by
  cases sets with
  | none =>
    rw [survivors_absent h hsets]
    exact .built hs
  | some set =>
    rw [Option.bind_some, hevents (h.set (hst.ensured hsets))]
    exact .carryOverChat hs

/-- The ledgers after an update of the limits of some windows. -/
def renewed (s : SchedulerState) (which : WindowRef → Bool) (ledger : WindowRef → List WindowEvent) (now : Nat)
    (window : WindowRef) : List WindowEvent :=
  if which window then survivors (s.configured window) now (ledger window) else ledger window

theorem renewed_sublist (s : SchedulerState) (which : WindowRef → Bool) (ledger : WindowRef → List WindowEvent)
    (now : Nat) (window : WindowRef) : (s.renewed which ledger now window).Sublist (ledger window) := by
  unfold renewed
  split
  · exact survivors_sublist _ _ _
  · exact .refl _

theorem replaceLimits_exact (h : s.Tracked ledger now) (hst : s.Stored) {limits : OutboundLimits}
    (hkind : ∀ limit ∈ limits.global, limit.kind = .any) {w : WindowRef} (hw : w.ofClass = false) :
    SetExact ((s.replaceLimits limits now).ensuredSet w) ((s.replaceLimits limits now).configured w)
      (survivors (s.configured w) now (ledger w)) now := by
  cases w with
  | global =>
    have hset : s.globalWindows.Tracks (s.configured .global) (ledger .global) now := h.set rfl
    have hall : (limits.global.filter fun limit => limit.kind == .any || limit.kind == .any) = limits.global := by
      refine List.filter_eq_self.2 fun limit hl => ?_
      simp [hkind limit hl]
    change WindowSet.Exact (carryOver now (.new limits.global .any) (s.globalWindows.collectEvents now).2) _ _ _
    rw [collectEvents_eq hset, WindowSet.new, hall]
    exact .carryOver rfl
  | chat key =>
    have hsets : s.windowSet (.chat key) = s.chatWindowSets.lookup key := rfl
    have ht (chosen : List WindowLimit) := carriedChat_exact h hst hsets (fun hset => chatLedger_eq hset)
      (rfl : chosen.map (fun l => (l.capacity, l.window)) = _)
    simp only [replaceLimits, ensuredSet, Table.lookup_filterMap]
    exact ht _
  | classGlobal | classChat => cases hw

theorem replaceClassLimits_exact (h : s.Tracked ledger now) (hst : s.Stored) (limits : OutboundClassLimits)
    {w : WindowRef} (hw : w.ofClass = true) :
    SetExact ((s.replaceClassLimits limits now).ensuredSet w) ((s.replaceClassLimits limits now).configured w)
      (survivors (s.configured w) now (ledger w)) now := by
  cases w with
  | global | chat => cases hw
  | classGlobal cls =>
    simp only [replaceClassLimits, ensuredSet, Table.lookup_filterMap, lookup_classWindowSets]
    by_cases hany : limits.global.any (·.cls == cls) = true
    · have hsizes : ((limits.global.filter (·.cls == cls)).map fun limit =>
          (⟨limit.capacity, limit.window, .any⟩ : WindowLimit)).map (fun l => (l.capacity, l.window)) =
            (limits.global.filter (·.cls == cls)).map fun limit => (limit.capacity, limit.window) := by
        rw [List.map_map]
        rfl
      rw [if_pos hany, Option.bind_some, newClass_eq]
      cases hl : s.classGlobalWindows.lookup cls with
      | none =>
        have habsent : s.windowSet (.classGlobal cls) = none := hl
        rw [survivors_absent h habsent]
        exact WindowSet.Exact.built hsizes
      | some old =>
        have hold : old.Tracks (s.configured (.classGlobal cls)) (ledger (.classGlobal cls)) now := h.set hl
        dsimp only
        rw [collectEvents_eq hold]
        exact WindowSet.Exact.carryOver hsizes
    · rw [if_neg hany]
      simp [SetExact, configured, filter_class_nil hany]
  | classChat key cls =>
    simp only [replaceClassLimits, ensuredSet, Table.lookup_filterMap]
    by_cases hany : limits.chat.any (·.cls == cls) = true
    · rw [if_pos hany, newClass_eq]
      have hsets : s.windowSet (.classChat key cls) = s.classChatWindowSets.lookup (key, cls) := rfl
      refine carriedChat_exact h hst hsets (fun hset => collectEvents_eq hset) ?_
      rw [List.map_map]
      rfl
    · rw [if_neg hany]
      simp [SetExact, configured, filter_class_nil hany]

theorem Stored.replaceClassLimits (limits : OutboundClassLimits) : (s.replaceClassLimits limits now).Stored := by
  intro key cls set hl
  simp only [SchedulerState.replaceClassLimits, Table.lookup_filterMap, Option.bind_eq_some_iff] at hl
  obtain ⟨old, -, hc⟩ := hl
  by_contra hany
  have hnil : limits.chat.filter (·.cls == cls) = [] := filter_class_nil hany
  have hnone : WindowSet.newClass limits.chat cls = ⟨[]⟩ := by
    rw [WindowSet.newClass, hnil]
    rfl
  unfold carryOverChat at hc
  split at hc
  · cases hc
  · dsimp only at hc
    rw [hnone, carryOver_windows] at hc
    simp at hc

/-- An update of some limits that is refused with nothing changed, or gives every window
of theirs what the old set still covered. -/
def Renews (s s' : SchedulerState) (result : Except SchedulerConfigError Unit) (which : WindowRef → Bool)
    (ledger : WindowRef → List WindowEvent) (now : Nat) : Prop :=
  (∃ e, result = .error e) ∧ s' = s ∨
    result = .ok () ∧ s'.Stored ∧
      (∀ w, which w = true → SetExact (s'.ensuredSet w) (s'.configured w) (survivors (s.configured w) now (ledger w)) now) ∧
      ∀ w, which w = false → s'.ensuredSet w = s.ensuredSet w ∧ s'.configured w = s.configured w

theorem setLimits_renews (h : s.Tracked ledger now) (hst : s.Stored) (limits : OutboundLimits)
    (order : List CandidateRef) :
    Renews s (s.setLimits limits order now).1 (s.setLimits limits order now).2 (!·.ofClass) ledger now := by
  unfold setLimits
  split
  · exact .inl ⟨⟨_, rfl⟩, rfl⟩
  · split
    · exact .inl ⟨⟨_, rfl⟩, rfl⟩
    · rename_i hkind
      split
      · exact .inl ⟨⟨_, rfl⟩, rfl⟩
      · have hr := (rearmBlockedAndParked_quiet (s.replaceLimits limits now) order now).rates
        have hst' : (s.replaceLimits limits now).Stored := hst
        refine .inr ⟨rfl, hst'.of_rates hr, fun w hw => ?_, fun w hw => ?_⟩
        · rw [ensuredSet_of_rates hr, configured_of_rates hr]
          exact replaceLimits_exact h hst (by simpa using hkind) (by simpa using hw)
        · rw [ensuredSet_of_rates hr, configured_of_rates hr]
          cases w with
          | global | chat => cases hw
          | classGlobal | classChat => exact ⟨rfl, rfl⟩

theorem setClassLimits_renews (h : s.Tracked ledger now) (hst : s.Stored) (limits : OutboundClassLimits)
    (order : List CandidateRef) :
    Renews s (s.setClassLimits limits order now).1 (s.setClassLimits limits order now).2 (·.ofClass) ledger now := by
  unfold setClassLimits
  split
  · exact .inl ⟨⟨_, rfl⟩, rfl⟩
  · split
    · exact .inl ⟨⟨_, rfl⟩, rfl⟩
    · have hr := (rearmBlockedAndParked_quiet (s.replaceClassLimits limits now) order now).rates
      refine .inr ⟨rfl, (Stored.replaceClassLimits limits).of_rates hr, fun w hw => ?_, fun w hw => ?_⟩
      · rw [ensuredSet_of_rates hr, configured_of_rates hr]
        exact replaceClassLimits_exact h hst limits hw
      · rw [ensuredSet_of_rates hr, configured_of_rates hr]
        cases w with
        | global | chat => exact ⟨rfl, rfl⟩
        | classGlobal | classChat => cases hw

/-- An update that succeeds renews the ledgers of its windows. -/
theorem Renews.tracked {s' : SchedulerState} {which : WindowRef → Bool} (hr : Renews s s' (.ok ()) which ledger now)
    (h : s.Tracked ledger now) (hsorted : ∀ w, (ledger w).Pairwise (·.instant ≤ ·.instant))
    (hpast : ∀ w, ∀ e ∈ ledger w, e.instant ≤ now) : s'.Tracked (s.renewed which ledger now) now := by
  rcases hr with ⟨⟨e, he⟩, -⟩ | ⟨-, -, hexact, hsame⟩
  · cases he
  · intro w
    unfold renewed
    cases hw : which w with
    | true =>
      exact (hexact w hw).tracks ((hsorted w).sublist (survivors_sublist _ _ _))
        fun e he => hpast w e ((survivors_sublist _ _ _).mem he)
    | false =>
      obtain ⟨h1, h2⟩ := hsame w hw
      rw [h1, h2]
      exact h w

end Limits

end SchedulerState

end Teloxide.Outbound
