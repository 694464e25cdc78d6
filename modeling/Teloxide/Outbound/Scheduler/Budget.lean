import Teloxide.Outbound.Ledger
import Teloxide.Outbound.Scheduler.Effect

/-!
# Window sets against ledgers

Admission prunes the window sets it tests, a grant debits them, a completion
with no request made refunds them, and a pass drops the idle sets of chats.
`Tracked` says that every set, the ones that are only built on demand included,
keeps what still counts of a ledger of its window.

* `admission_tracked`: a passed candidate fits in every window it consumes.
* `debit_tracked`, `refundWindows_tracked`: the ledgers after a grant and after a
  refund.
-/
namespace Teloxide.Outbound

open Teloxide.Core SchedulerState RollingWindow

/-! ## The sets and their sizes -/

namespace SchedulerState

/-- The capacities and lengths of the windows configured behind a reference. -/
def configured (s : SchedulerState) : WindowRef → List (Nat × Nat)
  | .global => s.globalLimits.map fun limit => (limit.capacity, limit.window)
  | .classGlobal cls =>
    (s.classLimits.global.filter (·.cls == cls)).map fun limit => (limit.capacity, limit.window)
  | .chat key =>
    (s.chatLimits.filter fun limit => limit.kind == .any || limit.kind == key.windowChatKind).map
      fun limit => (limit.capacity, limit.window)
  | .classChat _ cls =>
    (s.classLimits.chat.filter (·.cls == cls)).map fun limit => (limit.capacity, limit.window)

/-- What `ensuredSet` and `configured` read. -/
def rates (s : SchedulerState) :=
  (s.globalWindows, s.chatWindowSets, s.classGlobalWindows, s.classChatWindowSets, s.classLimits,
    s.chatLimits, s.globalLimits)

theorem ensuredSet_of_rates {s s' : SchedulerState} (h : s'.rates = s.rates) :
    s'.ensuredSet = s.ensuredSet := by
  simp only [rates, Prod.mk.injEq] at h
  obtain ⟨h1, h2, h3, h4, h5, h6, -⟩ := h
  funext window
  cases window <;> simp only [ensuredSet, h1, h2, h3, h4, h5, h6]

theorem configured_of_rates {s s' : SchedulerState} (h : s'.rates = s.rates) :
    s'.configured = s.configured := by
  simp only [rates, Prod.mk.injEq] at h
  obtain ⟨-, -, -, -, h5, h6, h7⟩ := h
  funext window
  cases window <;> simp only [configured, h5, h6, h7]

theorem storeSet_configured (s : SchedulerState) (window : WindowRef) (set : WindowSet) :
    (s.storeSet window set).configured = s.configured := by
  funext w
  cases window <;> cases w <;> rfl

/-- A stored set is read back, and no other set changes. -/
theorem ensuredSet_storeSet {s : SchedulerState} {window : WindowRef} {set₀ : WindowSet}
    (h : s.windowSet window = some set₀ ∨ s.ensuredSet window = some set₀) (set : WindowSet)
    (w : WindowRef) : (s.storeSet window set).ensuredSet w =
      if w = window then (s.ensuredSet window).map fun _ => set else s.ensuredSet w := by
  cases window with
  | global => cases w <;> simp [storeSet, ensuredSet]
  | classGlobal cls =>
    have hs : s.classGlobalWindows.lookup cls = some set₀ := by
      rcases h with h | h <;> exact h
    cases w with
    | classGlobal cls' =>
      by_cases hc : cls' = cls
      · subst hc; simp [storeSet, ensuredSet, hs]
      · simp [storeSet, ensuredSet, hc]
    | _ => simp [storeSet, ensuredSet]
  | chat key =>
    cases w with
    | chat key' =>
      by_cases hk : key' = key
      · subst hk; simp [storeSet, ensuredSet]
      · simp [storeSet, ensuredSet, hk]
    | _ => simp [storeSet, ensuredSet]
  | classChat key cls =>
    cases w with
    | classChat key' cls' =>
      by_cases hk : key' = key ∧ cls' = cls
      · obtain ⟨rfl, rfl⟩ := hk
        simp only [storeSet, ensuredSet, Table.lookup_insert_if]
        split <;> simp
      · simp [storeSet, ensuredSet, hk]
    | _ => simp [storeSet, ensuredSet]

/-- A set of windows built from the limits. -/
theorem windowSet_ensured {s : SchedulerState} {window : WindowRef} {set : WindowSet}
    (h : s.windowSet window = some set) : s.ensuredSet window = some set ∨ s.ensuredSet window = none := by
  cases window with
  | global | classGlobal => exact Or.inl h
  | chat key =>
    left
    simp only [windowSet] at h
    simp [ensuredSet, h]
  | classChat key cls =>
    simp only [windowSet] at h
    simp only [ensuredSet, h, Option.getD_some]
    split
    · exact Or.inl rfl
    · exact Or.inr rfl

end SchedulerState

/-- The set tracks the ledger; where there is no set, nothing is configured. -/
def SetTracks (set : Option WindowSet) (sizes : List (Nat × Nat)) (ledger : List WindowEvent)
    (now : Nat) : Prop :=
  match set with
  | some set => set.Tracks sizes ledger now
  | none => sizes = []

namespace SchedulerState

/-- Every window set keeps what still counts of its ledger. -/
def Tracked (s : SchedulerState) (ledger : WindowRef → List WindowEvent) (now : Nat) : Prop :=
  ∀ window, SetTracks (s.ensuredSet window) (s.configured window) (ledger window) now

/-- What a built set has to track, when nothing of the ledger counts. -/
theorem setTracks_built {sizes : List (Nat × Nat)} {ledger : List WindowEvent} {now : Nat}
    {limits : List WindowLimit} (hs : limits.map (fun l => (l.capacity, l.window)) = sizes)
    (hl : ∀ size ∈ sizes, ledger.filter (fresh size.2 now) = []) :
    SetTracks (some ⟨limits.map .new⟩) sizes ledger now :=
  .built hs hl

theorem newClass_eq (limits : List OutboundClassWindowLimit) (cls : OutboundClass) :
    WindowSet.newClass limits cls = ⟨((limits.filter (·.cls == cls)).map fun limit =>
      (⟨limit.capacity, limit.window, .any⟩ : WindowLimit)).map .new⟩ := by
  simp only [WindowSet.newClass, List.map_map]
  rfl

theorem setTracks_newClass {ledger : List WindowEvent} {now : Nat} (limits : List OutboundClassWindowLimit)
    (cls : OutboundClass)
    (hl : ∀ size ∈ (limits.filter (·.cls == cls)).map fun limit => (limit.capacity, limit.window),
      ledger.filter (fresh size.2 now) = []) :
    SetTracks (some (.newClass limits cls))
      ((limits.filter (·.cls == cls)).map fun limit => (limit.capacity, limit.window)) ledger now := by
  rw [newClass_eq]
  refine setTracks_built ?_ hl
  rw [List.map_map]
  rfl

namespace Tracked

variable {s s' : SchedulerState} {ledger : WindowRef → List WindowEvent} {now : Nat}

theorem of_rates (h : s.Tracked ledger now) (hr : s'.rates = s.rates) : s'.Tracked ledger now := by
  intro window
  rw [ensuredSet_of_rates hr, configured_of_rates hr]
  exact h window

theorem later {now' : Nat} (h : s.Tracked ledger now) (hn : now ≤ now') : s.Tracked ledger now' := by
  intro window
  have hw := h window
  unfold SetTracks at hw ⊢
  split
  · rename_i hs
    rw [hs] at hw
    exact hw.later hn
  · rename_i hs
    rw [hs] at hw
    exact hw

theorem set (h : s.Tracked ledger now) {window : WindowRef} {set : WindowSet}
    (hs : s.ensuredSet window = some set) : set.Tracks (s.configured window) (ledger window) now := by
  have hw := h window
  rw [hs] at hw
  exact hw

/-- The set of one window changes together with its ledger. -/
theorem update {window : WindowRef} {l : List WindowEvent} (h : s.Tracked ledger now)
    (hc : s'.configured = s.configured) (he : ∀ w, w ≠ window → s'.ensuredSet w = s.ensuredSet w)
    (hw : SetTracks (s'.ensuredSet window) (s.configured window) l now) :
    s'.Tracked (Function.update ledger window l) now := by
  intro w
  rw [hc]
  by_cases hne : w = window
  · subst hne
    rw [Function.update_self]
    exact hw
  · rw [he w hne, Function.update_of_ne hne]
    exact h w

/-- A set is stored that tracks a new ledger of its window. -/
theorem store (h : s.Tracked ledger now) {window : WindowRef} {set₀ set : WindowSet}
    (h₀ : s.windowSet window = some set₀ ∨ s.ensuredSet window = some set₀) {l : List WindowEvent}
    (hset : s.ensuredSet window = some set₀ → set.Tracks (s.configured window) l now) :
    (s.storeSet window set).Tracked (Function.update ledger window l) now := by
  refine h.update (storeSet_configured _ _ _) (fun w hw => ?_) ?_
  · rw [ensuredSet_storeSet h₀, if_neg hw]
  · rw [ensuredSet_storeSet h₀, if_pos rfl]
    cases he : s.ensuredSet window with
    | none =>
      have hnone := h window
      rw [he] at hnone
      exact hnone
    | some set₁ =>
      refine hset ?_
      rcases h₀ with h₀ | h₀
      · rcases windowSet_ensured h₀ with h₁ | h₁
        · exact h₁
        · rw [he] at h₁
          cases h₁
      · exact h₀

/-- A set is stored that tracks the ledger as the old one did. -/
theorem restore (h : s.Tracked ledger now) {window : WindowRef} {set₀ set : WindowSet}
    (h₀ : s.ensuredSet window = some set₀) (hset : set.Tracks (s.configured window) (ledger window) now) :
    (s.storeSet window set).Tracked ledger now := by
  have hs := h.store (Or.inr h₀) fun _ => hset
  rwa [Function.update_eq_self] at hs

end Tracked

/-! ## Admission -/

/-- What a check of one window set finds. -/
structure Checked (s : SchedulerState) (now weight : Nat) (window : WindowRef) (v v' : Verdict) : Prop where
  deadline : v.deadline ≤ v'.deadline
  fits : v'.deadline ≤ now → ∀ set, s.ensuredSet window = some set → (set.canConsume now weight).2 = true

theorem withPenalty_le (s : SchedulerState) (now : Nat) (window : WindowRef) (v : Verdict) :
    v.deadline ≤ (s.withPenalty now window v).deadline := by
  unfold withPenalty
  split
  · exact Nat.le_max_left _ _
  · exact Nat.le_refl _

theorem checkWindow_tracked {s : SchedulerState} {ledger : WindowRef → List WindowEvent} {now : Nat}
    (h : s.Tracked ledger now) (weight : Nat) (window : WindowRef) (v : Verdict) :
    (s.checkWindow now weight window v).1.Tracked ledger now := by
  unfold checkWindow
  dsimp only
  cases hs : s.ensuredSet window with
  | none => exact h
  | some set =>
    have hset := h.restore hs ((h.set hs).canConsume weight)
    dsimp only
    split <;> exact hset

theorem checkWindow_configured (s : SchedulerState) (now weight : Nat) (window : WindowRef) (v : Verdict) :
    (s.checkWindow now weight window v).1.configured = s.configured := by
  unfold checkWindow
  dsimp only
  split
  · rfl
  · split <;> exact storeSet_configured _ _ _

theorem checkWindow_checked {s : SchedulerState} {ledger : WindowRef → List WindowEvent} {now weight : Nat}
    (h : s.Tracked ledger now) {window : WindowRef} {v v' : Verdict}
    (hv : (s.checkWindow now weight window v).2 = some v') : Checked s now weight window v v' := by
  have hp := s.withPenalty_le now window v
  unfold checkWindow at hv
  dsimp only at hv
  cases hs : s.ensuredSet window with
  | none =>
    rw [hs] at hv
    cases hv
    exact ⟨hp, fun _ set hset => by cases hs.symm.trans hset⟩
  | some set =>
    rw [hs] at hv
    dsimp only at hv
    split at hv
    · rename_i hc
      cases hv
      refine ⟨hp, fun _ set' hset => ?_⟩
      rw [hs] at hset
      cases hset
      exact hc
    · rename_i hc
      rw [Option.map_eq_some_iff] at hv
      obtain ⟨deadline, hd, rfl⟩ := hv
      have hlt : now < deadline := (h.set hs).earliestFor_later (by simpa using hc) hd
      refine ⟨by dsimp only; omega, fun hle => ?_⟩
      dsimp only at hle
      omega

/-- A passed check of several window sets has found room in all of them. -/
theorem checkWindows_tracked {now weight : Nat} {ledger : WindowRef → List WindowEvent} :
    ∀ {windows : List WindowRef} {s : SchedulerState} {v : Verdict}, s.Tracked ledger now →
      (checkWindows now weight windows s v).1.Tracked ledger now ∧
      (checkWindows now weight windows s v).1.configured = s.configured ∧
      ∀ v', (checkWindows now weight windows s v).2 = some v' → v.deadline ≤ v'.deadline ∧
        (v'.deadline ≤ now → ∀ window ∈ windows, ∀ size ∈ s.configured window,
          Fits weight (ledger window) now size)
  | [], s, v, h => by
    refine ⟨h, rfl, fun v' hv => ?_⟩
    cases hv
    exact ⟨Nat.le_refl _, fun _ window hw => by cases hw⟩
  | window :: windows, s, v, h => by
    have ht := checkWindow_tracked h weight window v
    have hcfg := s.checkWindow_configured now weight window v
    have hv := @checkWindow_checked s ledger now weight h window v
    unfold checkWindows
    cases hc : s.checkWindow now weight window v with
    | mk s₁ o =>
      rw [hc] at ht hcfg hv
      cases o with
      | none => exact ⟨ht, hcfg, fun v' hn => by cases hn⟩
      | some v₁ =>
        have hone := hv rfl
        obtain ⟨h1, h2, h3⟩ := @checkWindows_tracked now weight ledger windows s₁ v₁ ht
        refine ⟨h1, h2.trans hcfg, fun v' hv' => ?_⟩
        obtain ⟨hle, hfits⟩ := h3 v' hv'
        refine ⟨Nat.le_trans hone.deadline hle, fun hd w hw size hsize => ?_⟩
        rcases List.mem_cons.1 hw with rfl | hw
        · cases he : s.ensuredSet w with
          | none =>
            have hnone := h w
            rw [he] at hnone
            have : s.configured w = [] := hnone
            rw [this] at hsize
            cases hsize
          | some set =>
            have hroom := hone.fits (Nat.le_trans hle hd) set he
            exact (h.set he).canConsume_true hroom size hsize
        · rw [← hcfg] at hsize
          exact hfits hd w hw size hsize

theorem admission_tracked {s : SchedulerState} {ledger : WindowRef → List WindowEvent} {now : Nat}
    (h : s.Tracked ledger now) (c : Candidate) :
    (s.admission c now).1.Tracked ledger now ∧ (s.admission c now).1.configured = s.configured ∧
      ((s.admission c now).2 = .pass → ∀ window ∈ s.applicableWindows c, ∀ size ∈ s.configured window,
        Fits c.weight.val (ledger window) now size) := by
  have h₀ : (s.check (s.live c.job)).Tracked ledger now := h.of_rates rfl
  obtain ⟨h1, h2, h3⟩ := @checkWindows_tracked now c.weight.val ledger (s.applicableWindows c) _ ⟨now, none⟩ h₀
  unfold admission
  split
  · exact ⟨h, rfl, fun hp => by cases hp⟩
  · cases hc : checkWindows now c.weight.val (s.applicableWindows c) (s.check (s.live c.job)) ⟨now, none⟩ with
    | mk s₁ o =>
      rw [hc] at h1 h2 h3
      cases o with
      | none => exact ⟨h1, h2, fun hp => by cases hp⟩
      | some v =>
        dsimp only
        split
        · exact ⟨h1, h2, fun hp => by cases hp⟩
        · rename_i hlt
          exact ⟨h1, h2, fun _ => (h3 v rfl).2 (Nat.le_of_not_lt hlt)⟩

/-! ## Debits and refunds -/

theorem consumeWindow_tracked {s : SchedulerState} {ledger : WindowRef → List WindowEvent} {now : Nat}
    (h : s.Tracked ledger now) (weight : Nat) (job : JobId) (window : WindowRef) :
    (consumeWindow now weight job s window).Tracked
      (Function.update ledger window (ledger window ++ [⟨now, weight, some job⟩])) now := by
  unfold consumeWindow
  cases hs : s.ensuredSet window with
  | none =>
    refine h.update rfl (fun _ _ => rfl) ?_
    have hnone := h window
    rw [hs] at hnone ⊢
    exact hnone
  | some set =>
    have h₀ : (s.check (set.canConsume now weight).2).Tracked ledger now := h.of_rates rfl
    have he : (s.check (set.canConsume now weight).2).ensuredSet window = some set := hs
    exact h₀.store (Or.inr he) fun _ => (h.set hs).consume weight job

theorem debit_tracked {s : SchedulerState} {ledger : WindowRef → List WindowEvent} {now : Nat}
    (h : s.Tracked ledger now) (id : JobId) (job : Job) :
    (s.debit id job now).Tracked (fun w => ledger w ++
      if w ∈ windowsOf job.metadata.scope job.metadata.cls then [⟨now, job.metadata.weight.val, some id⟩]
      else []) now := by
  have hn : (windowsOf job.metadata.scope job.metadata.cls).Nodup := by
    unfold windowsOf
    split <;> simp
  unfold debit
  generalize windowsOf job.metadata.scope job.metadata.cls = windows at hn ⊢
  induction windows generalizing s ledger with
  | nil => simpa using h
  | cons window windows ih =>
    rw [List.nodup_cons] at hn
    have h₁ := ih (consumeWindow_tracked h job.metadata.weight.val id window) hn.2
    intro w
    have hw := h₁ w
    rw [List.foldl_cons]
    by_cases he : w = window
    · subst he
      simpa [hn.1] using hw
    · simpa [he] using hw

theorem consumeWindow_configured (now weight : Nat) (job : JobId) (s : SchedulerState) (window : WindowRef) :
    (consumeWindow now weight job s window).configured = s.configured := by
  unfold consumeWindow
  split
  · rfl
  · exact storeSet_configured _ _ _

theorem debit_configured (s : SchedulerState) (id : JobId) (job : Job) (now : Nat) :
    (s.debit id job now).configured = s.configured := by
  unfold debit
  generalize windowsOf job.metadata.scope job.metadata.cls = windows
  induction windows generalizing s with
  | nil => rfl
  | cons window windows ih =>
    rw [List.foldl_cons, ih, consumeWindow_configured]

/-- A ledger in which the job has one debit at most, of this weight. -/
def Debited (job : JobId) (weight : Nat) (l : List WindowEvent) : Prop :=
  (l.map (·.job)).Nodup ∧ ∀ e ∈ l, e.job = some job → e.weight = weight

theorem strike_nil_of_fresh {job : JobId} {l : List WindowEvent} {window now : Nat}
    (h : l.filter (fresh window now) = []) : (strike job l).filter (fresh window now) = [] := by
  rw [strike_fresh, h]
  rfl

/-- A set that is built on the spot has no history. -/
theorem built_empty {s : SchedulerState} {window : WindowRef} (hn : s.windowSet window = none) {set : WindowSet}
    (hs : s.ensuredSet window = some set) : ∀ w ∈ set.windows, w.history = [] := by
  intro w hm
  cases window with
  | global | classGlobal => simp_all [windowSet, ensuredSet]
  | chat key =>
    simp only [windowSet] at hn
    simp only [ensuredSet, hn, Option.getD_none, Option.some.injEq] at hs
    subst hs
    obtain ⟨limit, -, rfl⟩ := List.mem_map.1 hm
    rfl
  | classChat key cls =>
    simp only [windowSet] at hn
    simp only [ensuredSet, hn, Option.getD_none] at hs
    split at hs
    · cases hs
      obtain ⟨limit, -, rfl⟩ := List.mem_map.1 hm
      rfl
    · cases hs

/-- A built set tracks a ledger as well after a strike: nothing of it counted. -/
theorem tracks_strike_of_absent {s : SchedulerState} {ledger : WindowRef → List WindowEvent} {now : Nat}
    (h : s.Tracked ledger now) {window : WindowRef} (hn : s.windowSet window = none) (job : JobId) :
    SetTracks (s.ensuredSet window) (s.configured window) (strike job (ledger window)) now := by
  have hw := h window
  unfold SetTracks at hw ⊢
  split
  · rename_i set hs
    rw [hs] at hw
    refine ⟨hw.sizes, fun w hm => (hw.each w hm).congr ?_⟩
    have ha := (hw.each w hm).agree
    rw [built_empty hn hs w hm] at ha
    rw [strike_nil_of_fresh ha.symm, ← ha]
    rfl
  · rename_i hs
    rw [hs] at hw
    exact hw

theorem refundWindow_configured (s : SchedulerState) (now weight : Nat) (job : JobId) (window : WindowRef) :
    (s.refundWindow now weight job window).1.configured = s.configured := by
  unfold refundWindow
  split
  · rfl
  · dsimp only
    split
    · split
      · funext w
        cases w <;> rfl
      · exact storeSet_configured _ _ _
    · exact storeSet_configured _ _ _

theorem refundWindow_tracked {s : SchedulerState} {ledger : WindowRef → List WindowEvent} {now : Nat}
    (h : s.Tracked ledger now) {weight : Nat} {job : JobId} {window : WindowRef}
    (hd : Debited job weight (ledger window)) :
    (s.refundWindow now weight job window).1.Tracked
      (Function.update ledger window (strike job (ledger window))) now := by
  have hcfg := s.refundWindow_configured now weight job window
  unfold refundWindow at hcfg ⊢
  cases hs : s.windowSet window with
  | none => exact h.update rfl (fun _ _ => rfl) (tracks_strike_of_absent h hs job)
  | some set =>
    have hrefund : s.ensuredSet window = some set →
        (set.refund now job weight).1.Tracks (s.configured window) (strike job (ledger window)) now :=
      fun he => (h.set he).refund hd.1 hd.2
    rw [hs] at hcfg
    dsimp only at hcfg ⊢
    split at hcfg
    · rename_i key
      have he : s.ensuredSet (.chat key) = some set := by
        rcases windowSet_ensured hs with he | he
        · exact he
        · simp [ensuredSet] at he
      split
      · rename_i hi
        -- the idle set goes, and the next one is built with no history
        have hidle := (hrefund he).isIdle_true hi
        rw [if_pos hi] at hcfg
        refine h.update hcfg (fun w hw => ?_) ?_
        · cases w with
          | chat key' =>
            have hk : key' ≠ key := by
              intro hk
              exact hw (by rw [hk])
            simp [ensuredSet, hk]
          | _ => rfl
        · simp only [ensuredSet, Table.lookup_erase_if, if_true, Option.getD_none, WindowSet.new]
          exact setTracks_built rfl hidle
      · exact h.store (Or.inl hs) fun he => (hrefund he).isIdle
    · exact h.store (Or.inl hs) hrefund

/-- Striking twice is striking once. -/
theorem strike_strike (job : JobId) (l : List WindowEvent) : strike job (strike job l) = strike job l := by
  simp [strike, List.filter_filter]

theorem refundWindows_tracked {now weight : Nat} {job : JobId} :
    ∀ {windows : List WindowRef} {s : SchedulerState} {ledger : WindowRef → List WindowEvent},
      s.Tracked ledger now → (∀ w, Debited job weight (ledger w)) →
      (refundWindows now weight job windows s).1.Tracked
        (fun w => if w ∈ windows then strike job (ledger w) else ledger w) now
  | [], s, ledger, h, _ => by simpa [refundWindows] using h
  | window :: windows, s, ledger, h, hd => by
    have h₁ := refundWindow_tracked h (hd window)
    have hd' : ∀ w, Debited job weight (Function.update ledger window (strike job (ledger window)) w) := by
      intro w
      by_cases hw : w = window
      · subst hw
        rw [Function.update_self]
        exact ⟨(hd w).1.sublist (List.filter_sublist.map _), fun e he => (hd w).2 e (List.mem_of_mem_filter he)⟩
      · rw [Function.update_of_ne hw]
        exact hd w
    have h₂ := @refundWindows_tracked now weight job windows _ _ h₁ hd'
    intro w
    have hw := h₂ w
    unfold refundWindows
    by_cases he : w = window
    · subst he
      simpa [strike_strike] using hw
    · simpa [he] using hw

theorem refundWindows_configured (now weight : Nat) (job : JobId) :
    ∀ (windows : List WindowRef) (s : SchedulerState),
      (refundWindows now weight job windows s).1.configured = s.configured
  | [], _ => rfl
  | window :: windows, s => by
    unfold refundWindows
    dsimp only
    rw [refundWindows_configured now weight job windows, refundWindow_configured]

end SchedulerState

end Teloxide.Outbound
